import AlphaRay.Lib.Divergence
import AlphaRay.Protocol.VisionTls.Wire
import AlphaRay.Util.ByteStream
import Mathlib.Data.Prod.Lex

namespace AlphaRay

open Lib Async ByteStream

-- Bytes that begin with no id come out as they are, once it is known that they do not.
theorem Phase.transduce_unknown (ids : List Uuid) (s : List UInt8)
    (hunknown : ∀ id ∈ ids, ¬ id.bytes <+: s) :
    transduce (Phase.step ids) (.id []) s =
      if s.length < 16 then (.id s, []) else (.direct, s) := by
  by_cases hlen : s.length < 16
  · rw [if_pos hlen, Phase.transduce_id_lt ids [] s (by simpa using hlen), List.nil_append]
  · have hfirst : s.take 16 ∉ ids.map Uuid.bytes := by
      intro hmem
      obtain ⟨id, hid, hbytes⟩ := List.mem_map.mp hmem
      exact hunknown id hid (hbytes ▸ List.take_prefix 16 s)
    have htake : (s.take 16).length = 16 := by
      rw [List.length_take]
      omega
    have hid := Phase.transduce_id ids (s.take 16) htake
    rw [if_neg hfirst] at hid
    have hsplit := transduce_append (Phase.step ids) (.id []) (s.take 16) (s.drop 16)
    rw [List.take_append_drop, hid, Phase.transduce_direct] at hsplit
    rw [if_neg hlen, hsplit, List.take_append_drop]

namespace VisionTlsStream

variable {S C R : Type} [AsyncStream S] [ByteStream S] [Connection C] [ReceiveLaws C]
  {st next after : VisionTlsStream S C R}

section Rank

-- What has yet to arrive, how often the inner stream may still not be ready, and what waits to
-- be decoded, which is moved to `read_buf` first.
def rank (st : VisionTlsStream S C R) : Nat ×ₗ Nat ×ₗ Nat :=
  toLex ((pipe st.inner).unread.length, toLex (patience st.inner,
    2 * (ReceiveLaws.incoming st.session).plaintext.length + st.read_buf.length))

theorem rank_lt_of_unread
    (h : (pipe next.inner).unread.length < (pipe st.inner).unread.length) :
    rank next < rank st :=
  Prod.Lex.toLex_lt_toLex.mpr (.inl h)

theorem rank_lt_of_patience (hpipe : pipe next.inner = pipe st.inner)
    (h : patience next.inner < patience st.inner) : rank next < rank st := by
  refine Prod.Lex.toLex_lt_toLex.mpr (.inr ⟨?_, Prod.Lex.toLex_lt_toLex.mpr (.inl h)⟩)
  rw [hpipe]

theorem rank_lt_of_stock (hinner : next.inner = st.inner)
    (h : 2 * (ReceiveLaws.incoming next.session).plaintext.length + next.read_buf.length <
      2 * (ReceiveLaws.incoming st.session).plaintext.length + st.read_buf.length) :
    rank next < rank st := by
  unfold rank
  rw [hinner]
  exact Prod.Lex.toLex_lt_toLex.mpr (.inr ⟨rfl, Prod.Lex.toLex_lt_toLex.mpr (.inr ⟨rfl, h⟩)⟩)

theorem rank_le_of_stock (hinner : next.inner = st.inner)
    (h : 2 * (ReceiveLaws.incoming next.session).plaintext.length + next.read_buf.length ≤
      2 * (ReceiveLaws.incoming st.session).plaintext.length + st.read_buf.length) :
    rank next ≤ rank st := by
  unfold rank
  rw [hinner]
  exact Prod.Lex.toLex_le_toLex.mpr (.inr ⟨rfl, Prod.Lex.toLex_le_toLex.mpr (.inr ⟨rfl, h⟩)⟩)

end Rank

-- The session has seen the end, and all that is left cannot be made out.
structure Ended (st : VisionTlsStream S C R) : Prop where
  idle : Idle st
  closed_eq : (ReceiveLaws.incoming st.session).closed = true

-- A stream on its way through `wire`: a part of it has arrived at the session, which `settled`
-- says was processed, and the rest is still to come.
structure Underway (session : C) (ids : List Uuid) (wire given : List UInt8) (settled : Prop)
    (st : VisionTlsStream S C R) : Prop where
  ids_eq : st.state.ids = ids
  arrived : ∃ arrived, arrived ++ (pipe st.inner).unread = wire ∧
    (Fed.new session).Reaches settled st.session arrived
  drained : (ReceiveLaws.incoming st.session).ended = true → (pipe st.inner).unread = []
  gives : Gives (.id []) given st

variable {session : C} {ids : List Uuid} {wire s given : List UInt8} {settled : Prop}

theorem Underway.decrypted_le (h : Underway session ids wire given settled st)
    (hpeer : Fed.Conveys session wire s) : (ReceiveLaws.incoming st.session).decrypted <+: s := by
  obtain ⟨arrived, hwire, now, hsteps, -⟩ := h.arrived
  exact hpeer.decrypted_front _ hsteps ⟨_, hwire⟩

theorem Underway.decrypted_eq (h : Underway session ids wire given settled st)
    (hpeer : Fed.Conveys session wire s)
    (hclosed : (ReceiveLaws.incoming st.session).closed = true) :
    (ReceiveLaws.incoming st.session).decrypted = s := by
  obtain ⟨arrived, hwire, now, hsteps, -⟩ := h.arrived
  exact hpeer.decrypted_all _ hsteps ⟨_, hwire⟩ hclosed

-- With nothing left to arrive, the close_notify was processed.
theorem Underway.closed_of_drained (h : Underway session ids wire given True st)
    (hpeer : Fed.Conveys session wire s) (hnil : (pipe st.inner).unread = []) :
    (ReceiveLaws.incoming st.session).closed = true := by
  obtain ⟨arrived, hwire, now, hsteps, hnow⟩ := h.arrived
  rw [hnil, List.append_nil] at hwire
  exact hpeer.closed_all _ hsteps hwire (hnow trivial)

-- What is decrypted is never taken for a malformed header.
theorem Underway.fine (h : Underway session ids wire given settled st)
    (hpeer : Fed.Conveys session wire s) (hunknown : ∀ id ∈ ids, ¬ id.bytes <+: s) :
    (transduce (Phase.step st.state.ids) (.id [])
      (ReceiveLaws.incoming st.session).decrypted).1 ≠ .failed := by
  rw [h.ids_eq, Phase.transduce_unknown]
  · split
    · exact Phase.noConfusion
    · exact Phase.noConfusion
  · exact fun id hid hfront => hunknown id hid (hfront.trans (h.decrypted_le hpeer))

-- A call of the session that has nothing to do with what arrives.
theorem Underway.of_session (h : Underway session ids wire given settled st) {next : C}
    (hstep : ∀ arrived now, Fed.Step ⟨st.session, arrived, now⟩ ⟨next, arrived, now⟩)
    (hincoming : ReceiveLaws.incoming next = ReceiveLaws.incoming st.session) :
    Underway session ids wire given settled { st with session := next } := by
  obtain ⟨arrived, hwire, hreaches⟩ := h.arrived
  refine ⟨h.ids_eq, ⟨arrived, hwire, hreaches.step (hstep arrived)⟩, ?_, ?_⟩
  · rw [hincoming]
    exact h.drained
  · exact h.gives.of_incoming st.inner ⟨by rw [hincoming], by rw [hincoming]⟩

theorem Underway.of_inner (h : Underway session ids wire given settled st) {inner : S}
    (hunread : (pipe inner).unread = (pipe st.inner).unread) :
    Underway session ids wire given settled { st with inner := inner } := by
  obtain ⟨arrived, hwire, hreaches⟩ := h.arrived
  refine ⟨h.ids_eq, ⟨arrived, ?_, hreaches⟩, ?_, h.gives⟩
  · rw [hunread]
    exact hwire
  · rw [hunread]
    exact h.drained

theorem Underway.unframe (h : Underway session ids wire given settled st) {buf out : ReadBuf}
    {n n' : Nat} {put : List UInt8} (hu : Unframes st buf n next out n' put) :
    Underway session ids wire (given ++ put) settled next := by
  have hsame : next.inner = st.inner ∧ next.session = st.session := by
    obtain ⟨_, _, _, _, _, _, hnext⟩ := hu.reads
    exact ⟨by rw [hnext], by rw [hnext]⟩
  refine ⟨hu.reads.setup.ids.trans h.ids_eq, ?_, ?_, h.gives.unframe hu⟩
  · rw [hsame.1, hsame.2]
    exact h.arrived
  · rw [hsame.1, hsame.2]
    exact h.drained

-- The reader gives out plaintext, or has none and does not fail.
theorem Underway.reader_read (h : Underway session ids wire given True st)
    (hpeer : Fed.Conveys session wire s) {result : IoResult (List UInt8)} {next : C}
    (hread : Connection.reader_read st.session 4096 = (result, next)) :
    ((ReceiveLaws.incoming st.session).plaintext ≠ [] ∧ ∃ bytes, bytes ≠ [] ∧ result = .ok bytes ∧
      Underway session ids wire given True
        { st with session := next, read_buf := st.read_buf ++ bytes } ∧
      rank { st with session := next, read_buf := st.read_buf ++ bytes } < rank st) ∨
    (ReceiveLaws.incoming st.session).plaintext = [] ∧
      ReceiveLaws.incoming next = ReceiveLaws.incoming st.session ∧
      Underway session ids wire given True { st with session := next } ∧
      (result = .ok [] ∧ (ReceiveLaws.incoming st.session).closed = true ∨
        ∃ e, result = .error e ∧ e.kind = .WouldBlock ∧
          (ReceiveLaws.incoming st.session).closed = false) := by
  have hstep : ∀ arrived now, Fed.Step ⟨st.session, arrived, now⟩ ⟨next, arrived, now⟩ := by
    intro arrived now
    have hcall : (Connection.reader_read st.session 4096).2 = next := by rw [hread]
    exact hcall ▸ .reader_read 4096
  by_cases hplain : (ReceiveLaws.incoming st.session).plaintext = []
  · obtain ⟨hsame, hresult⟩ := reader_read_of_nil (by decide) hplain hread
    refine .inr ⟨hplain, hsame, h.of_session hstep hsame, hresult.imp_right ?_⟩
    rintro ⟨e, herror, hopen, hkind⟩
    refine ⟨e, herror, ?_, hopen⟩
    -- the end of the inner stream is not seen before the close_notify
    have hended : (ReceiveLaws.incoming st.session).ended = false := by
      by_contra hended
      have hclosed := h.closed_of_drained hpeer (h.drained (by simpa using hended))
      cases hopen.symm.trans hclosed
    simpa only [hended, Bool.false_eq_true, if_false] using hkind
  · have hroom : 0 < 4096 := by decide
    obtain ⟨bytes, session', hne, hcall, hstock⟩ := reader_read_of_plaintext hroom hplain
    obtain ⟨rfl, rfl⟩ := Prod.mk.inj (hread.symm.trans hcall)
    refine .inl ⟨hplain, bytes, hne, rfl, ⟨h.ids_eq, ?_, ?_, h.gives.reader_read hcall⟩, ?_⟩
    · obtain ⟨arrived, hwire, hreaches⟩ := h.arrived
      exact ⟨arrived, hwire, hreaches.step (hstep arrived)⟩
    · have hended := ended_reader_read st.session 4096
      rw [hread] at hended
      rw [hended]
      exact h.drained
    · refine rank_lt_of_stock rfl ?_
      have hpos := List.length_pos_of_ne_nil hne
      rw [hstock, List.length_append]
      simp only [List.length_append]
      omega

-- What is read from the inner stream is not processed yet.
theorem Underway.read_tls (h : Underway session ids wire given True st)
    (hpeer : Fed.Conveys session wire s) (hplain : (ReceiveLaws.incoming st.session).plaintext = [])
    {result : IoResult Nat} {next : C} {inner : S}
    (hread : ReadTls st.session st.inner result next inner) :
    (∃ n, result = .ok n ∧
      Underway session ids wire given False { st with inner := inner, session := next } ∧
      if n = 0 then (ReceiveLaws.incoming st.session).closed = true
        else (pipe inner).unread.length < (pipe st.inner).unread.length) ∨
    result = .error ErrorKind.WouldBlock.into ∧
      Underway session ids wire given True { st with inner := inner, session := next } ∧
      rank { st with inner := inner, session := next } < rank st := by
  obtain ⟨arrived, hwire, hreaches⟩ := h.arrived
  have hprepared : ∀ {reply prepared}, Connection.prepare_read st.session = (reply, prepared) →
      Underway session ids wire given True { st with session := prepared } := by
    intro reply prepared hprepare
    obtain ⟨-, rfl⟩ := Prod.mk.inj hprepare
    exact h.of_session (fun _ _ => .prepare_read) (ReceiveLaws.incoming_prepare_read _)
  cases hread with
  | refused hprepare =>
      obtain ⟨now, hsteps, hnow⟩ := hreaches
      obtain ⟨room, hroom⟩ := hpeer.prepare_ok _ hsteps ⟨_, hwire⟩ (hnow trivial) hplain
      rw [hprepare] at hroom
      cases hroom
  | finished hprepare =>
      have hmid := hprepared hprepare
      obtain ⟨arrived', hwire', hreaches'⟩ := hmid.arrived
      refine .inl ⟨0, rfl, ⟨hmid.ids_eq, ?_, hmid.drained, hmid.gives⟩, ?_⟩
      · exact ⟨arrived', hwire', hreaches'.mono False.elim⟩
      · exact ReceiveLaws.closed_of_prepare_read st.session (by rw [hprepare])
  | @ready room prepared bytes inner hprepare hcall =>
      obtain ⟨filled, hreply, hpipe, hfilled⟩ := poll_read_ready st.inner room _ inner hcall
      obtain rfl : bytes = filled := Except.ok.inj hreply
      have hunread : (pipe st.inner).unread = bytes ++ (pipe inner).unread := by rw [hpipe]
      have hpos := ReceiveLaws.room_pos_of_prepare_read st.session room (by rw [hprepare])
      have hle := AsyncStream.length_le_of_poll_read st.inner room bytes (by rw [hcall])
      have hnil : bytes = [] → (pipe st.inner).unread = [] := by
        intro hempty
        by_contra hne
        exact hfilled hpos hne hempty
      have hmid := hprepared hprepare
      have hincoming := ReceiveLaws.incoming_received prepared bytes
      refine .inl ⟨bytes.length, rfl, ⟨h.ids_eq, ⟨arrived ++ bytes, ?_, ?_⟩, ?_, ?_⟩, ?_⟩
      · rw [List.append_assoc, ← hunread]
        exact hwire
      · exact (hreaches.received hprepare hle).mono False.elim
      · rw [hincoming]
        intro hended
        rcases Bool.or_eq_true_iff.mp hended with hbefore | hempty
        · have hnone := hmid.drained hbefore
          rw [hunread] at hnone
          exact (List.append_eq_nil_iff.mp hnone).2
        · have hnone := hnil (List.isEmpty_iff.mp hempty)
          rw [hunread] at hnone
          exact (List.append_eq_nil_iff.mp hnone).2
      · exact hmid.gives.of_incoming inner ⟨by rw [hincoming], by rw [hincoming]⟩
      · split
        · rename_i hzero
          exact h.closed_of_drained hpeer (hnil (List.length_eq_zero_iff.mp hzero))
        · rw [hunread, List.length_append]
          omega
  | @failed room prepared e inner hprepare hcall =>
      obtain ⟨filled, hreply, -⟩ := poll_read_ready st.inner room _ inner hcall
      cases hreply
  | @pending room prepared inner hprepare hcall =>
      obtain ⟨hpipe, hlt⟩ := poll_read_pending st.inner room inner hcall
      have hmid := (hprepared hprepare).of_inner (congrArg Pipe.unread hpipe)
      exact .inr ⟨rfl, hmid, rank_lt_of_patience hpipe hlt⟩

-- Behind a close_notify there is nothing more to process.
theorem Underway.process (h : Underway session ids wire given settled st)
    (hpeer : Fed.Conveys session wire s) :
    (Connection.process_new_packets st.session).1 = .ok () ∧
      Underway session ids wire given True
        { st with session := (Connection.process_new_packets st.session).2 } ∧
      ((ReceiveLaws.incoming st.session).closed = true →
        (ReceiveLaws.incoming (Connection.process_new_packets st.session).2).closed = true ∧
        (ReceiveLaws.incoming (Connection.process_new_packets st.session).2).plaintext =
          (ReceiveLaws.incoming st.session).plaintext) := by
  obtain ⟨arrived, hwire, hreaches⟩ := h.arrived
  have hok : (Connection.process_new_packets st.session).1 = .ok () := by
    obtain ⟨now, hsteps, -⟩ := hreaches
    exact hpeer.process_ok _ hsteps ⟨_, hwire⟩
  obtain ⟨more, hdecrypted, hplain, hended, hclosed⟩ :=
    ReceiveLaws.incoming_process_new_packets st.session
  have hafter : Underway session ids wire given True
      { st with session := (Connection.process_new_packets st.session).2 } := by
    refine ⟨h.ids_eq, ⟨arrived, hwire, hreaches.process.mono fun _ => hok⟩, ?_, h.gives.process⟩
    rw [hended]
    exact h.drained
  refine ⟨hok, hafter, fun hbefore => ⟨hclosed hbefore, ?_⟩⟩
  have hmore := hdecrypted
  rw [hafter.decrypted_eq hpeer (hclosed hbefore), h.decrypted_eq hpeer hbefore] at hmore
  rw [hplain, List.self_eq_append_right.mp hmore, List.append_nil]

section Rounds

variable {buf out : ReadBuf} {len : Nat}

omit [ByteStream S] [ReceiveLaws C] in
theorem read_tls_returns {result : IoResult Nat} {session : C} {inner : S}
    (h : Connection.read_tls SyncAdapter.read st.session st.inner = (result, session, inner)) :
    read_tls.Returns (st, buf) (.ok result)
      ({ st with inner := inner, session := session }, buf) :=
  ⟨0, fun _ _ => by simp only [read_tls, Async.act, run_of, h]⟩

omit [AsyncStream S] [ByteStream S] [ReceiveLaws C] in
theorem process_returns (h : (Connection.process_new_packets st.session).1 = .ok ()) :
    process_new_packets.Returns (st, buf) (.ok (.ok ()))
      ({ st with session := (Connection.process_new_packets st.session).2 }, buf) :=
  ⟨0, fun _ _ => by simp only [process_new_packets, Async.act, run_of, h]⟩

omit [AsyncStream S] [ByteStream S] [ReceiveLaws C] in
theorem reader_read_returns {result : IoResult (List UInt8)} {session : C}
    (h : Connection.reader_read st.session len = (result, session)) :
    (reader_read len).Returns (st, buf) (.ok result) ({ st with session := session }, buf) :=
  ⟨0, fun _ _ => by simp only [reader_read, Async.act, run_of, h]⟩

omit [AsyncStream S] [ByteStream S] [Connection C] [ReceiveLaws C] in
theorem unframe_returns {result : IoResult Nat}
    (h : st.unframe_read_buf buf = (result, next, out)) :
    unframe.Returns (st, buf) (.ok result) (next, out) :=
  ⟨0, fun _ _ => by simp only [unframe, Async.act, run_of, h]⟩

-- A round that gets as far as its last call of the reader.
omit [ByteStream S] [ReceiveLaws C] in
theorem pull_round_returns {now got done last : VisionTlsStream S C R × ReadBuf} {n : Nat}
    {reply : IoResult (List UInt8)} (htls : read_tls.Returns now (.ok (.ok n)) got)
    (hprocess : process_new_packets.Returns got (.ok (.ok ())) done)
    (hreader : (reader_read 4096).Returns done (.ok reply) last) :
    match reply with
    | .ok bytes =>
        if bytes = [] then
          pull_round.Returns now (.ok (if n = 0 then .leave () else .again ())) last
        else pull_round.Returns now (.ok (.again ())) (refill last bytes)
    | .error e => pull_round.Returns now (.error (.of e)) last := by
  rcases reply with e | bytes
  · exact htls.bind (hprocess.bind (hreader.bind (.throw _ _)))
  · dsimp only
    split
    · rename_i hempty
      refine htls.bind (hprocess.bind (hreader.bind ?_))
      simp only [hempty, if_true]
      by_cases hzero : n = 0
      · simp only [hzero, if_true]
        exact .pure _ _
      · simp only [hzero, if_false]
        exact .pure _ _
    · rename_i hne
      refine htls.bind (hprocess.bind (hreader.bind ?_))
      simp only [hne, if_false]
      exact .bind (.act _ _) (.pure _ _)

-- A round that decodes nothing, though there is room for it, goes on with the reader.
omit [ByteStream S] [ReceiveLaws C] in
theorem read_round_returns {now got : VisionTlsStream S C R × ReadBuf}
    {last : VisionTlsStream S C R × ReadBuf} {reply : IoResult (List UInt8)}
    (hunframe : unframe.Returns now (.ok (.ok 0)) got) (hroom : got.2.remaining ≠ 0)
    (hreader : (reader_read 4096).Returns got (.ok reply) last) :
    (∀ bytes, reply = .ok bytes → bytes ≠ [] →
      read_round.Returns now (.ok (.again ())) (refill last bytes)) ∧
    ((reply = .ok [] ∨ ∃ e, reply = .error e ∧ e.kind = .WouldBlock) →
      ∀ {result after}, pull_round.Returns last result after →
        read_round.Returns now result after) := by
  refine ⟨fun bytes hreply hne => hunframe.bind ?_,
    fun hnone result after hpull => hunframe.bind ?_⟩
  -- nothing was decoded and there is room, so it comes to the reader
  all_goals
    simp only [lt_irrefl, if_false]
    refine .bind (.act _ _) ?_
    simp only [hroom, if_false]
    refine hreader.bind ?_
  · subst hreply
    simp only [hne, if_false]
    exact .bind (.act _ _) (.pure _ _)
  · rcases hnone with rfl | ⟨e, rfl, hkind⟩
    · simp only [if_true]
      exact hpull
    · simp only [hkind, if_true]
      exact hpull

-- How a read that is begun in `st` ends: it has to wait, it hands something out, there is no
-- room for a byte, or it reports the end.
inductive Answered (st : VisionTlsStream S C R) (len : Nat) :
    Except Exit (List UInt8) → VisionTlsStream S C R → Prop
  | pending (after : VisionTlsStream S C R) (hcloser : rank after < rank st) :
      Answered st len (.error .Pending) after
  | data (bytes : List UInt8) (after : VisionTlsStream S C R) (hne : bytes ≠ [])
      (hcloser : rank after < rank st) : Answered st len (.ok bytes) after
  | full (after : VisionTlsStream S C R) (hlen : len = 0) : Answered st len (.ok []) after
  | finished (after : VisionTlsStream S C R) (hended : Ended after) :
      Answered st len (.ok []) after

theorem Answered.of_le {outcome : Except Exit (List UInt8)} (h : Answered next len outcome after)
    (hle : rank next ≤ rank st) : Answered st len outcome after := by
  cases h with
  | pending _ hcloser => exact .pending after (hcloser.trans_le hle)
  | data bytes _ hne hcloser => exact .data bytes after hne (hcloser.trans_le hle)
  | full _ hlen => exact .full after hlen
  | finished _ hended => exact .finished after hended

-- What a round of the loop of `poll_read` comes to, when nothing was put into the caller's
-- buffer before it.
def Turns (session : C) (ids : List Uuid) (wire given : List UInt8) (st : VisionTlsStream S C R)
    (len : Nat) (result : Except Exit (Pass Unit Unit)) (now : VisionTlsStream S C R × ReadBuf) :
    Prop :=
  match result with
  | .ok (.again _) => now.2 = .new len ∧ Underway session ids wire given True now.1 ∧
      rank now.1 < rank st
  | .ok (.leave _) => Underway session ids wire (given ++ now.2.filled) True now.1 ∧
      Answered st len (.ok now.2.filled) now.1
  | .error e => Underway session ids wire given True now.1 ∧ Answered st len (.error e) now.1

theorem Turns.of_le {result : Except Exit (Pass Unit Unit)} {now : VisionTlsStream S C R × ReadBuf}
    (h : Turns session ids wire given next len result now) (hle : rank next ≤ rank st) :
    Turns session ids wire given st len result now := by
  rcases result with e | _ | _
  · exact ⟨h.1, h.2.of_le hle⟩
  · exact ⟨h.1, h.2.1, h.2.2.trans_le hle⟩
  · exact ⟨h.1, h.2.of_le hle⟩

theorem pull_round_turns (h : Underway session ids wire given True st)
    (hpeer : Fed.Conveys session wire s) (hstarved : starved st)
    (hplain : (ReceiveLaws.incoming st.session).plaintext = []) (len : Nat) :
    ∃ result now, pull_round.Returns (st, ReadBuf.new len) result now ∧
      Turns session ids wire given st len result now := by
  rcases hcall : Connection.read_tls SyncAdapter.read st.session st.inner with
    ⟨result, next, inner⟩
  have hread := read_tls_cases hcall
  have htls := @read_tls_returns S C R _ _ st (.new len) _ _ _ hcall
  rcases h.read_tls hpeer hplain hread with ⟨n, rfl, hmid, hrest⟩ | ⟨rfl, hmid, hlt⟩
  · obtain ⟨hok, hnext, hclosed⟩ := hmid.process hpeer
    have hprocess := @process_returns S C R _
      { st with inner := inner, session := next } (.new len) hok
    rcases hlast : Connection.reader_read (Connection.process_new_packets next).2 4096 with
      ⟨result, last⟩
    have hreader := @reader_read_returns S C R _
      { st with inner := inner, session := (Connection.process_new_packets next).2 } (.new len)
      4096 _ _ hlast
    have hround := pull_round_returns htls hprocess hreader
    by_cases hzero : n = 0
    · -- nothing is read only behind the close_notify
      rw [if_pos hzero] at hrest
      obtain ⟨ended, hincoming⟩ := incoming_of_read_tls hread
      obtain ⟨hclosed, hnone⟩ := hclosed (by rw [hincoming]; exact hrest)
      rw [hincoming, hplain] at hnone
      rcases hnext.reader_read hpeer hlast with
        ⟨hsome, -⟩ | ⟨-, hsame, hafter, ⟨rfl, -⟩ | ⟨e, -, -, hopen⟩⟩
      · exact absurd hnone hsome
      · simp only [if_true, hzero] at hround
        refine ⟨_, _, hround, (List.append_nil given).symm ▸ hafter, .finished _ ?_⟩
        exact ⟨⟨hstarved, by rw [hsame, hnone]⟩, by rw [hsame, hclosed]⟩
      · cases hopen.symm.trans hclosed
    · rw [if_neg hzero] at hrest
      rcases hnext.reader_read hpeer hlast with
        ⟨-, bytes, hne, rfl, hafter, -⟩ | ⟨-, -, hafter, ⟨rfl, -⟩ | ⟨e, rfl, hkind, -⟩⟩
      · simp only [hne, if_false] at hround
        exact ⟨_, _, hround, rfl, hafter, rank_lt_of_unread hrest⟩
      · simp only [if_true, hzero, if_false] at hround
        exact ⟨_, _, hround, rfl, hafter, rank_lt_of_unread hrest⟩
      · have hexit : Exit.of e = .Pending := by simp [Exit.of, hkind]
        simp only [hexit] at hround
        exact ⟨_, _, hround, hafter, .pending _ (rank_lt_of_unread hrest)⟩
  · exact ⟨.error .Pending, _, htls.bind (.throw _ _), hmid, .pending _ hlt⟩

theorem read_round_turns (h : Underway session ids wire given True st)
    (hpeer : Fed.Conveys session wire s) (hunknown : ∀ id ∈ ids, ¬ id.bytes <+: s) (len : Nat) :
    ∃ result now, read_round.Returns (st, ReadBuf.new len) result now ∧
      Turns session ids wire given st len result now := by
  rcases hcall : st.unframe_read_buf (.new len) with ⟨result, next, out⟩
  have hunframe := unframe_returns hcall
  obtain ⟨n, put, hu, hwhy⟩ := unframe_read_buf_spec st (.new len)
  rw [hcall] at hu hwhy
  have hnext : Underway session ids wire (given ++ put) True next := h.unframe hu
  obtain ⟨hinner, hsession⟩ := unframe_read_buf_frame hcall
  have hcount : n = 0 + put.length := hu.count
  have hshrinks : put.length + next.read_buf.length ≤ st.read_buf.length := hu.shrinks
  obtain rfl : out = (ReadBuf.new len).put_slice put := hu.put
  rcases hwhy with ⟨hok, hstop⟩ | ⟨e, -, hrejected⟩
  swap
  · exact absurd hrejected (hnext.gives.not_rejected (hnext.fine hpeer hunknown))
  obtain rfl : result = .ok n := hok
  by_cases hpos : 0 < n
  · refine ⟨.ok (.leave ()), (next, (ReadBuf.new len).put_slice put), hunframe.bind ?_, hnext,
      .data put next ?_ ?_⟩
    · simp only [hpos, if_true]
      exact .pure _ _
    · exact List.ne_nil_of_length_pos (by omega)
    · refine rank_lt_of_stock hinner ?_
      rw [hsession]
      omega
  obtain rfl : put = [] := List.length_eq_zero_iff.mp (by omega)
  obtain rfl : n = 0 := by omega
  rw [ReadBuf.put_slice_nil] at hunframe hstop
  by_cases hlen : len = 0
  · refine ⟨.ok (.leave ()), (next, .new len), hunframe.bind ?_, hnext, .full next hlen⟩
    simp only [lt_irrefl, if_false]
    refine .bind (.act _ _) ?_
    simp only [ReadBuf.new, hlen, if_true]
    exact .pure _ _
  rw [List.append_nil] at hnext
  have hstarved : starved next := hstop.resolve_left hlen
  have hle : rank next ≤ rank st := by
    refine rank_le_of_stock hinner ?_
    rw [hsession]
    omega
  rcases hlast : Connection.reader_read next.session 4096 with ⟨reply, last⟩
  obtain ⟨hagain, hpull⟩ := read_round_returns hunframe hlen
    (@reader_read_returns S C R _ next (.new len) 4096 _ _ hlast)
  rcases hnext.reader_read hpeer hlast with
    ⟨-, bytes, hne, hreply, hafter, hlt⟩ | ⟨hnone, hsame, hafter, hreply⟩
  · exact ⟨_, _, hagain bytes hreply hne, rfl, hafter, hlt.trans_le hle⟩
  · have hidle : reply = .ok [] ∨ ∃ e, reply = .error e ∧ e.kind = .WouldBlock :=
      hreply.imp And.left fun ⟨e, he, hkind, _⟩ => ⟨e, he, hkind⟩
    obtain ⟨result, now, hreturns, hturns⟩ := pull_round_turns hafter hpeer hstarved
      (by rw [hsame, hnone]) len
    have hsame_rank : rank { next with session := last } ≤ rank next :=
      rank_le_of_stock rfl (by rw [hsame])
    exact ⟨result, now, hpull hidle hreturns, hturns.of_le (hsame_rank.trans hle)⟩

-- Each round that goes on lowers the rank.
theorem read_rounds_answer (h : Underway session ids wire given True st)
    (hpeer : Fed.Conveys session wire s) (hunknown : ∀ id ∈ ids, ¬ id.bytes <+: s) (len : Nat) :
    ∃ result now, Rounds (fun _ => read_round) () (st, ReadBuf.new len) result now ∧
      Underway session ids wire
        (given ++ (Call.read len (result.map fun _ => now.2.filled)).filled) True now.1 ∧
      Answered st len (result.map fun _ => now.2.filled) now.1 := by
  induction st using (InvImage.wf (rank : VisionTlsStream S C R → _) wellFounded_lt).induction with
  | _ st ih =>
      obtain ⟨result, now, hround, hturns⟩ := read_round_turns h hpeer hunknown len
      rcases result with e | _ | _
      · exact ⟨.error e, now, .error hround, (List.append_nil given).symm ▸ hturns⟩
      · obtain ⟨hbuf, hnow, hlt⟩ := hturns
        obtain ⟨result, last, hrounds, hlast, hends⟩ := ih now.1 hlt hnow
        rw [← hbuf] at hrounds
        exact ⟨result, last, .again hround hrounds, hlast, hends.of_le (le_of_lt hlt)⟩
      · exact ⟨.ok (), now, .leave hround, hturns⟩

theorem read_answers (h : Underway session ids wire given True st)
    (hpeer : Fed.Conveys session wire s) (hunknown : ∀ id ∈ ids, ¬ id.bytes <+: s) (len : Nat) :
    ∃ outcome after, (read len).Returns st outcome after ∧
      Underway session ids wire (given ++ (Call.read len outcome).filled) True after ∧
      Answered st len outcome after := by
  obtain ⟨result, ⟨after, out⟩, hrounds, hends⟩ := read_rounds_answer h hpeer hunknown len
  have hreturns : poll_read.Returns (st, ReadBuf.new len) result (after, out) := hrounds.returns
  refine ⟨_, after, ?_, hends⟩
  rcases result with e | _
  · exact hreturns.with_var.bind_error
  · exact hreturns.with_var.bind (.pure _ _)

omit [ByteStream S] [ReceiveLaws C] in
theorem pull_round_mono : Mono (pull_round : Reading S C R (Pass Unit Unit)) := by
  refine .bind (.act _) fun result => ?_
  rcases result with e | n
  · exact .throw _
  refine .bind (.act _) fun result => ?_
  rcases result with e | _
  · exact .throw _
  refine .bind (.act _) fun result => ?_
  rcases result with e | bytes
  · exact .throw _
  by_cases hempty : bytes = []
  · simp only [hempty, if_true]
    by_cases hzero : n = 0
    · simp only [hzero, if_true]
      exact .pure _
    · simp only [hzero, if_false]
      exact .pure _
  · simp only [hempty, if_false]
    exact .bind (.act _) fun _ => .pure _

omit [ByteStream S] [ReceiveLaws C] in
theorem read_round_mono : Mono (read_round : Reading S C R (Pass Unit Unit)) := by
  refine .bind (.act _) fun result => ?_
  rcases result with e | n
  · exact .throw _
  by_cases hpos : 0 < n
  · simp only [hpos, if_true]
    exact .pure _
  simp only [hpos, if_false]
  refine .bind (.act _) fun room => ?_
  by_cases hfull : room = 0
  · simp only [hfull, if_true]
    exact .pure _
  simp only [hfull, if_false]
  refine .bind (.act _) fun result => ?_
  rcases result with e | bytes
  · by_cases hblock : e.kind = .WouldBlock
    · simp only [hblock, if_true]
      exact pull_round_mono
    · simp only [hblock, if_false]
      exact .throw _
  · by_cases hempty : bytes = []
    · simp only [hempty, if_true]
      exact pull_round_mono
    · simp only [hempty, if_false]
      exact .bind (.act _) fun _ => .pure _

omit [ByteStream S] [ReceiveLaws C] in
theorem read_mono (len : Nat) :
    Mono (read len : Async (VisionTlsStream S C R) Exit (List UInt8)) :=
  .bind (.with_var (.repeat_until (fun _ => read_round_mono) ())) fun _ => .pure _

end Rounds

section Calls

variable [Rng R] {call : Call}

-- The other calls leave what arrives alone.
theorem underway_of_act (hcall : call.isRead = false)
    (hshutdown : ∀ io : S, (pipe (AsyncStream.poll_shutdown io).2).unread = (pipe io).unread)
    (h : Underway session ids wire given True st) (hact : Act call st next) :
    Underway session ids wire given True next := by
  have hwriter : ∀ {result last}, Connection.writer_write st.session st.write_buf = (result, last) →
      Underway session ids wire given True { st with session := last } := by
    intro result last hwrite
    obtain ⟨-, rfl⟩ := Prod.mk.inj hwrite
    exact h.of_session (fun _ _ => .writer_write _) (ReceiveLaws.incoming_writer_write _ _)
  cases hact with
  | unframe _ | reader_read | refill _ | read_tls _ | process => cases hcall
  | frame hframe =>
      obtain ⟨hinner, hsession⟩ := frame_buf_frame hframe
      obtain ⟨_, _, _, _, _, _, _, _, rfl⟩ := writes_of_frame_buf hframe
      exact ⟨h.ids_eq, h.arrived, h.drained, h.gives⟩
  | writer_write hwrite =>
      have hnext := hwriter hwrite
      exact ⟨hnext.ids_eq, hnext.arrived, hnext.drained, hnext.gives⟩
  | writer_error hwrite => exact hwriter hwrite
  | write_tls _ hwrite =>
      cases hwrite with
      | empty hempty => exact h
      | @taken n _ hsendable hpos hcall =>
          have hle := AsyncStream.le_length_of_poll_write st.inner
            (Connection.sendable st.session) n (by rw [hcall])
          obtain ⟨_, -, hpipe, -⟩ := poll_write_ready st.inner _ _ _ hcall
          have hsent := h.of_session (fun _ _ => .sent n hle) (ReceiveLaws.incoming_sent _ n)
          exact hsent.of_inner (by rw [hpipe])
      | zero hsendable hcall =>
          obtain ⟨_, -, hpipe, -⟩ := poll_write_ready st.inner _ _ _ hcall
          exact h.of_inner (by rw [hpipe])
      | failed hsendable hcall =>
          obtain ⟨_, hreply, -⟩ := poll_write_ready st.inner _ _ _ hcall
          cases hreply
      | pending hsendable hcall =>
          exact h.of_inner (congrArg Pipe.unread (poll_write_pending st.inner _ _ hcall).1)
  | send_close_notify =>
      exact h.of_session (fun _ _ => .send_close_notify)
        (ReceiveLaws.incoming_send_close_notify _)
  | inner_flush =>
      rcases hflush : AsyncStream.poll_flush st.inner with ⟨reply | _, inner⟩
      · exact h.of_inner (congrArg Pipe.unread (poll_flush_ready st.inner reply inner hflush).2)
      · exact h.of_inner (congrArg Pipe.unread (poll_flush_pending st.inner inner hflush).1)
  | inner_shutdown => exact h.of_inner (hshutdown st.inner)

-- A read of a run is answered, and the other calls change nothing that matters.
theorem answered_of_step
    (hshutdown : ∀ io : S, (pipe (AsyncStream.poll_shutdown io).2).unread = (pipe io).unread)
    (hpeer : Fed.Conveys session wire s) (hunknown : ∀ id ∈ ids, ¬ id.bytes <+: s)
    (h : Underway session ids wire given True st) (hstep : Step st call after) :
    Underway session ids wire (given ++ call.filled) True after ∧
      ∀ len outcome, call = .read len outcome → Answered st len outcome after := by
  have hother : call.isRead = false → call.filled = [] →
      Underway session ids wire (given ++ call.filled) True after := by
    intro hcall hnone
    rw [hnone, List.append_nil]
    exact hstep.rule (Underway session ids wire given True)
      (fun _ _ hnow hact => underway_of_act hcall hshutdown hnow hact) h
  cases call with
  | read len outcome =>
      obtain ⟨fuel, hrun⟩ := hstep
      obtain ⟨outcome', after', hreturns, hafter, hanswered⟩ := read_answers h hpeer hunknown len
      obtain ⟨rfl, rfl⟩ := ((read_mono len).returns hrun).unique hreturns
      refine ⟨hafter, fun len' outcome' hlabel => ?_⟩
      cases hlabel
      exact hanswered
  | write buf outcome => exact ⟨hother rfl rfl, fun _ _ hlabel => by cases hlabel⟩
  | flush outcome => exact ⟨hother rfl rfl, fun _ _ hlabel => by cases hlabel⟩
  | shutdown outcome => exact ⟨hother rfl rfl, fun _ _ hlabel => by cases hlabel⟩

theorem underway_of_run
    (hshutdown : ∀ io : S, (pipe (AsyncStream.poll_shutdown io).2).unread = (pipe io).unread)
    (hpeer : Fed.Conveys session wire s) (hunknown : ∀ id ∈ ids, ¬ id.bytes <+: s)
    {start : VisionTlsStream S C R} (hstart : Underway session ids wire [] True start)
    {past : List (Transition (VisionTlsStream S C R) Call)} (hrun : Run Step start past st) :
    Underway session ids wire (past.flatMap (·.label.filled)) True st := by
  refine hrun.rule (fun past st =>
    Underway session ids wire (past.flatMap (·.label.filled)) True st) hstart ?_
  intro past last _ ih hstep
  rw [List.flatMap_append, List.flatMap_singleton]
  exact (answered_of_step hshutdown hpeer hunknown ih hstep).1

-- Reads that go on come to the end of the stream.
theorem reads_end (hpeer : Fed.Conveys session wire s) (hunknown : ∀ id ∈ ids, ¬ id.bytes <+: s)
    (h : Underway session ids wire given True st) (rooms : Nat → Nat) (hrooms : ∀ i, 0 < rooms i) :
    ∃ past last room outcome, Run Step st (past ++ [last]) last.after ∧
      Rooms rooms (past ++ [last]) ∧ last.label = .read room outcome ∧ outcome = .ok [] := by
  refine reads_come_to (InvImage.wf (rank : VisionTlsStream S C R → _) wellFounded_lt)
    (fun now => ∃ given, Underway session ids wire given True now) (· = .ok []) ?_ st ⟨given, h⟩
    rooms hrooms
  intro now room hnow hroom
  obtain ⟨given, hnow⟩ := hnow
  obtain ⟨outcome, after, hreturns, hafter, hanswered⟩ := read_answers hnow hpeer hunknown room
  obtain ⟨bound, hreturns⟩ := hreturns
  refine ⟨outcome, after, ⟨bound, hreturns bound (Nat.le_refl _)⟩, ⟨_, hafter⟩, ?_⟩
  cases hanswered with
  | pending _ hcloser => exact .inr hcloser
  | data _ _ _ hcloser => exact .inr hcloser
  | full _ _ => exact .inl rfl
  | finished _ _ => exact .inl rfl

end Calls

end VisionTlsStream

end AlphaRay
