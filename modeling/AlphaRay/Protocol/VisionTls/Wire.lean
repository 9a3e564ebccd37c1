import AlphaRay.Protocol.Peers
import AlphaRay.Protocol.VisionTls.Flush
import AlphaRay.Protocol.VisionTls.Malformed

namespace AlphaRay

open Lib Async

-- What comes before a wire that is well formed so far is well formed too.
theorem Phase.ne_failed_of_append {ids : List Uuid} {first : Phase} {u v : List UInt8}
    (h : (transduce (Phase.step ids) first (u ++ v)).1 ≠ .failed) :
    (transduce (Phase.step ids) first u).1 ≠ .failed := by
  intro hfailed
  rw [transduce_append, hfailed, Phase.transduce_failed] at h
  exact h rfl

namespace VisionTlsStream

theorem boundary_ne_failed {S C R : Type} (st : VisionTlsStream S C R) :
    boundary st ≠ .failed := by
  unfold boundary
  split_ifs <;> exact Phase.noConfusion

section Reading

variable {S C R : Type} [Connection C] [ReceiveLaws C] {st next : VisionTlsStream S C R}
  {first : Phase} {given : List UInt8}

-- Unless what was decrypted is malformed, the decoder made `given` of what was moved to
-- `read_buf`.
def Gives (first : Phase) (given : List UInt8) (st : VisionTlsStream S C R) : Prop :=
  (transduce (Phase.step st.state.ids) first
    (ReceiveLaws.incoming st.session).decrypted).1 ≠ .failed →
  ∃ moved, (ReceiveLaws.incoming st.session).decrypted =
      moved ++ (ReceiveLaws.incoming st.session).plaintext ∧
    Eats (Phase.step st.state.ids) first moved (phase st) st.read_buf given

-- Nothing is left that could be handed out.
structure Idle (st : VisionTlsStream S C R) : Prop where
  starved : starved st
  plaintext_eq : (ReceiveLaws.incoming st.session).plaintext = []

-- A session that has decrypted and given out the same.
theorem Gives.of_incoming (h : Gives first given st) (inner : S) {session : C}
    (hsame : (ReceiveLaws.incoming session).decrypted =
        (ReceiveLaws.incoming st.session).decrypted ∧
      (ReceiveLaws.incoming session).plaintext = (ReceiveLaws.incoming st.session).plaintext) :
    Gives first given { st with inner := inner, session := session } := by
  have hdecoded : Gives first given { st with inner := inner, session := session } ↔
      Gives first given st := by
    unfold Gives
    rw [hsame.1, hsame.2]
    rfl
  exact hdecoded.mpr h

theorem Gives.process (h : Gives first given st) :
    Gives first given { st with session := (Connection.process_new_packets st.session).2 } := by
  obtain ⟨more, hdecrypted, hplain, -⟩ := ReceiveLaws.incoming_process_new_packets st.session
  intro hfine
  rw [hdecrypted] at hfine
  obtain ⟨moved, hmoved, heats⟩ := h (Phase.ne_failed_of_append hfine)
  refine ⟨moved, ?_, heats⟩
  rw [hdecrypted, hplain, hmoved, List.append_assoc]

-- What the reader gives out is put behind `read_buf`.
theorem Gives.reader_read (h : Gives first given st) {len : Nat} {bytes : List UInt8}
    {session : C} (hread : Connection.reader_read st.session len = (.ok bytes, session)) :
    Gives first given { st with session := session, read_buf := st.read_buf ++ bytes } := by
  have hincoming : ReceiveLaws.incoming st.session = { ReceiveLaws.incoming session with
      plaintext := bytes ++ (ReceiveLaws.incoming session).plaintext } := incoming_reader_read hread
  unfold Gives at h
  rw [hincoming] at h
  intro hfine
  obtain ⟨moved, hmoved, heats⟩ := h hfine
  exact ⟨moved ++ bytes, by rw [List.append_assoc]; exact hmoved, heats.arrive bytes⟩

theorem Gives.unframe (h : Gives first given st) {buf out : ReadBuf} {n n' : Nat}
    {put : List UInt8} (hu : Unframes st buf n next out n' put) :
    Gives first (given ++ put) next := by
  have hids := hu.reads.setup.ids
  have hsession : next.session = st.session := by
    obtain ⟨_, _, _, _, _, _, hnext⟩ := hu.reads
    rw [hnext]
  intro hfine
  rw [hids, hsession] at hfine
  obtain ⟨moved, hmoved, heats⟩ := h hfine
  refine ⟨moved, ?_, ?_⟩
  · rw [hsession]
    exact hmoved
  · rw [hids]
    exact heats.trans hu.eats

-- A header is rejected only in a malformed wire.
theorem Gives.not_rejected {e : IoError} (h : Gives first given st)
    (hfine : (transduce (Phase.step st.state.ids) first
      (ReceiveLaws.incoming st.session).decrypted).1 ≠ .failed) : ¬ rejected st e := by
  intro hrejected
  obtain ⟨moved, hmoved, heats⟩ := h hfine
  rw [hmoved] at hfine
  have hphase := congrArg Prod.fst (heats [])
  have hfailed : (transduce (Phase.step st.state.ids) (phase st) st.read_buf).1 = .failed :=
    congrArg Prod.fst (outlook_of_rejected hrejected).1
  rw [List.append_nil, List.append_nil, hfailed] at hphase
  exact Phase.ne_failed_of_append hfine hphase

theorem Gives.of_rejected {e : IoError} {lost : List UInt8} (h : Gives first lost st)
    (hrejected : rejected st e) : Gives first given st :=
  fun hfine => absurd hrejected (h.not_rejected hfine)

-- What was decrypted is what was handed out and what is still to be made of the buffers.
theorem Gives.given_append (h : Gives first given st)
    (hfine : (transduce (Phase.step st.state.ids) first
      (ReceiveLaws.incoming st.session).decrypted).1 ≠ .failed) :
    (transduce (Phase.step st.state.ids) first (ReceiveLaws.incoming st.session).decrypted).2 =
      given ++ (decoded st (st.read_buf ++ (ReceiveLaws.incoming st.session).plaintext)).2 := by
  obtain ⟨moved, hmoved, heats⟩ := h hfine
  rw [hmoved]
  exact congrArg Prod.snd (heats _)

-- A front part of a well-formed wire is no malformed wire, and gives out no more.
theorem Gives.given_le (h : Gives first given st) {wire sent : List UInt8} {last : Phase}
    (hwire : transduce (Phase.step st.state.ids) first wire = (last, sent))
    (hlast : last ≠ .failed) (hle : (ReceiveLaws.incoming st.session).decrypted <+: wire) :
    given <+: sent := by
  obtain ⟨rest, rfl⟩ := hle
  have hfine : (transduce (Phase.step st.state.ids) first
      (ReceiveLaws.incoming st.session).decrypted).1 ≠ .failed := by
    apply Phase.ne_failed_of_append
    rw [hwire]
    exact hlast
  have hsent := congrArg Prod.snd hwire
  rw [transduce_append, h.given_append hfine, List.append_assoc] at hsent
  exact ⟨_, hsent⟩

theorem Idle.decoded_eq (h : Idle st) :
    (decoded st (st.read_buf ++ (ReceiveLaws.incoming st.session).plaintext)).2 = [] := by
  rw [h.plaintext_eq, List.append_nil]
  exact (outlook_of_starved h.starved).2

-- A call of `unframe_read_buf` hands something out, or is starved, or finds the wire
-- malformed.
theorem gives_of_unframe {len : Nat} {result : IoResult Nat} {out : ReadBuf}
    (h : Gives first given st)
    (hcall : st.unframe_read_buf (.new len) = (result, next, out)) :
    ends (fun n (now : VisionTlsStream S C R × ReadBuf) =>
      if 0 < n ∨ now.2.remaining = 0 then Gives first (given ++ now.2.filled) now.1
      else now.2 = .new len ∧ Gives first given now.1 ∧ starved now.1)
      (fun _ now => Gives first given now.1) result (next, out) := by
  obtain ⟨n, put, hu, hwhy⟩ := unframe_read_buf_spec st (.new len)
  rw [hcall] at hu hwhy
  have hnext : Gives first (given ++ put) next := h.unframe hu
  have hout : out = (ReadBuf.new len).put_slice put := hu.put
  rcases hwhy with ⟨hok, hstop⟩ | ⟨e, herror, hrejected⟩
  · obtain rfl : result = .ok n := hok
    simp only [ends_ok]
    split
    · rw [hout]
      exact hnext
    · rename_i hgo
      obtain ⟨hzero, hroom⟩ := not_or.mp hgo
      have hcount := hu.count
      obtain rfl : put = [] := List.length_eq_zero_iff.mp (by omega)
      rw [List.append_nil] at hnext
      refine ⟨?_, hnext, hstop.resolve_left hroom⟩
      rw [hout, ReadBuf.put_slice_nil]
  · obtain rfl : result = .error e := herror
    exact hnext.of_rejected hrejected

-- The reader gives out everything it has before it gives out nothing.
theorem gives_of_reader_read {result : IoResult (List UInt8)} {session : C}
    (h : Gives first given st) (hstarved : starved st)
    (hread : Connection.reader_read st.session 4096 = (result, session)) :
    ends (fun bytes (now : VisionTlsStream S C R) =>
      if bytes = [] then Gives first given now ∧ Idle now
      else Gives first given { now with read_buf := now.read_buf ++ bytes })
      (fun _ now => Gives first given now ∧ Idle now) result { st with session := session } := by
  have hincoming := incoming_reader_read hread
  have hplain : (∀ bytes, result = .ok bytes → bytes = []) →
      (ReceiveLaws.incoming session).plaintext = [] := plaintext_of_reader_read (by decide) hread
  rcases result with e | bytes
  · have hsame : ReceiveLaws.incoming session = ReceiveLaws.incoming st.session := hincoming
    exact ⟨h.of_incoming st.inner ⟨by rw [hsame], by rw [hsame]⟩, hstarved,
      hplain fun bytes hok => by cases hok⟩
  · have hnext := h.reader_read hread
    by_cases hempty : bytes = []
    · subst hempty
      rw [List.append_nil] at hnext
      simp only [ends_ok, if_true]
      exact ⟨hnext, hstarved, hplain fun bytes hok => (Except.ok.inj hok).symm⟩
    · simpa only [ends_ok, hempty, if_false] using hnext

variable [AsyncStream S]

-- A read that has to wait leaves nothing that could be handed out.
theorem poll_read_gives (len : Nat) :
    Triple (fun now : VisionTlsStream S C R × ReadBuf =>
        now.2 = .new len ∧ Gives first given now.1) poll_read
      (fun _ now => Gives first (given ++ now.2.filled) now.1)
      fun e now => Gives first given now.1 ∧ (e = .Pending → Idle now.1) := by
  refine poll_read_rule (read_round_rule
    (fun now => now.2 = .new len ∧ Gives first given now.1 ∧ starved now.1)
    (fun now => now.2 = .new len ∧ Gives first given now.1 ∧ Idle now.1) ?_ ?_
    (pull_round_rule (fun _ now => now.2 = .new len ∧ Gives first given now.1 ∧ starved now.1)
      (fun _ now => now.2 = .new len ∧ Gives first given now.1 ∧ starved now.1) ?_ ?_ ?_))
  · intro st buf result next out h hcall
    obtain ⟨rfl, hst⟩ := h
    have hnext := gives_of_unframe hst hcall
    rcases result with e | n
    · exact ⟨hnext, fun he => by cases he⟩
    · exact hnext
  · intro st buf result session h hread
    obtain ⟨hbuf, hst, hstarved⟩ := h
    have hnext := gives_of_reader_read hst hstarved hread
    rcases result with e | bytes
    · simp only [ends_error] at hnext ⊢
      split
      · exact ⟨hbuf, hnext⟩
      · exact ⟨hnext.1, fun he => by cases he⟩
    · simp only [ends_ok] at hnext ⊢
      split at hnext
      · rename_i hempty
        rw [if_pos hempty]
        exact ⟨hbuf, hnext⟩
      · rename_i hne
        rw [if_neg hne]
        exact ⟨hbuf, hnext⟩
  · intro st buf n session inner h hread
    obtain ⟨hbuf, hst, hidle⟩ := h
    obtain ⟨ended, hincoming⟩ := incoming_of_read_tls hread
    have hnext : Gives first given { st with inner := inner, session := session } :=
      hst.of_incoming inner ⟨by rw [hincoming], by rw [hincoming]⟩
    rcases n with e | n
    · refine ⟨hnext, fun _ => ⟨hidle.starved, ?_⟩⟩
      rw [hincoming]
      exact hidle.plaintext_eq
    · exact ⟨hbuf, hnext, hidle.starved⟩
  · intro n st buf h
    obtain ⟨hbuf, hst, hstarved⟩ := h
    rcases (Connection.process_new_packets st.session).1 with e | _
    · exact ⟨hst.process, fun he => by cases he⟩
    · exact ⟨hbuf, hst.process, hstarved⟩
  · intro n st buf result session h hread
    obtain ⟨hbuf, hst, hstarved⟩ := h
    have hnext := gives_of_reader_read hst hstarved hread
    rcases result with e | bytes
    · exact ⟨hnext.1, fun _ => hnext.2⟩
    · simp only [ends_ok] at hnext ⊢
      split at hnext
      · rename_i hempty
        rw [if_pos hempty]
        split
        · rw [show buf = .new len from hbuf]
          exact (List.append_nil given).symm ▸ hnext.1
        · exact ⟨hbuf, hnext.1⟩
      · rename_i hne
        rw [if_neg hne]
        exact ⟨hbuf, hnext⟩

theorem read_gives (len : Nat) :
    Triple (Gives (S := S) (C := C) (R := R) first given) (read len)
      (fun bytes => Gives first (given ++ bytes))
      fun e st => Gives first given st ∧ (e = .Pending → Idle st) := by
  have hread := @read_filled_rule S C R _ _ len
    (fun now => now.2 = .new len ∧ Gives first given now.1)
    (fun bytes => Gives first (given ++ bytes))
    (fun e st => Gives first given st ∧ (e = .Pending → Idle st)) (poll_read_gives len)
  exact hread.conseq (fun _ h => ⟨rfl, h⟩) (fun _ _ h => h) fun _ _ h => h

variable [Rng R] {call : Call}

-- The other calls leave the reading half alone.
theorem gives_of_act (hcall : call.isRead = false) (h : Gives first given st)
    (hact : Act call st next) : Gives first given next := by
  cases hact with
  | unframe _ | reader_read | refill _ | read_tls _ | process => cases hcall
  | frame hframe =>
      obtain ⟨_, _, _, _, _, _, _, _, rfl⟩ := writes_of_frame_buf hframe
      exact h
  | writer_write hwrite =>
      have hsame := ReceiveLaws.incoming_writer_write st.session st.write_buf
      rw [hwrite] at hsame
      exact h.of_incoming st.inner ⟨by rw [hsame], by rw [hsame]⟩
  | writer_error hwrite =>
      have hsame := ReceiveLaws.incoming_writer_write st.session st.write_buf
      rw [hwrite] at hsame
      exact h.of_incoming st.inner ⟨by rw [hsame], by rw [hsame]⟩
  | write_tls _ hwrite =>
      have hsame := incoming_of_write_tls hwrite
      exact h.of_incoming st.inner ⟨by rw [hsame], by rw [hsame]⟩
  | send_close_notify =>
      have hsame := ReceiveLaws.incoming_send_close_notify st.session
      exact h.of_incoming st.inner ⟨by rw [hsame], by rw [hsame]⟩
  | inner_flush => exact h
  | inner_shutdown => exact h

theorem gives_of_step (h : Gives first given st) (hstep : Step st call next) :
    Gives first (given ++ call.filled) next ∧
      ∀ len, call = .read len (.error .Pending) → Idle next := by
  have hother : call.isRead = false → Gives first (given ++ call.filled) next := by
    intro hcall
    have hnone : call.filled = [] := by
      cases call with
      | read _ _ => cases hcall
      | write _ _ | flush _ | shutdown _ => rfl
    rw [hnone, List.append_nil]
    exact hstep.rule (Gives first given) (fun _ _ => gives_of_act hcall) h
  cases call with
  | read len outcome =>
      obtain ⟨fuel, hread⟩ := hstep
      have hpost := read_gives len fuel st outcome next h hread
      rcases outcome with e | bytes
      · refine ⟨(List.append_nil given).symm ▸ hpost.1, ?_⟩
        intro len' hlabel
        cases hlabel
        exact hpost.2 rfl
      · exact ⟨hpost, fun len' hlabel => by cases hlabel⟩
  | write buf outcome => exact ⟨hother rfl, fun len hlabel => by cases hlabel⟩
  | flush outcome => exact ⟨hother rfl, fun len hlabel => by cases hlabel⟩
  | shutdown outcome => exact ⟨hother rfl, fun len hlabel => by cases hlabel⟩

theorem gives_of_run {start : VisionTlsStream S C R} (hstart : Gives first [] start)
    {past : List (Transition (VisionTlsStream S C R) Call)} (hrun : Run Step start past st) :
    Gives first (past.flatMap (·.label.filled)) st := by
  refine hrun.rule (fun past st => Gives first (past.flatMap (·.label.filled)) st) hstart ?_
  intro past last _ ih hstep
  rw [List.flatMap_append, List.flatMap_singleton]
  exact (gives_of_step ih hstep).1

end Reading

end VisionTlsStream

namespace ObservedVision

open VisionTlsStream

section Writing

variable {S C R : Type} {st next after : ObservedVision S C R} {call : Call} {ids : List Uuid}
  {first : Phase} {sent : List UInt8}

-- What was handed to the session and what still waits in `write_buf` is what a decoder
-- with these ids makes `sent` of.
structure Encodes (ids : List Uuid) (first : Phase) (sent : List UInt8)
    (st : ObservedVision S C R) : Prop where
  named : st.state.is_server = false → ∃ id, st.state.ids.head? = some id ∧ id ∈ ids
  wire : transduce (Phase.step ids) first (st.session.handed ++ st.write_buf) = (boundary st, sent)

theorem Encodes.of_same (h : Encodes ids first sent st) (hsetup : SameSetup st next)
    (hwire : next.session.handed ++ next.write_buf = st.session.handed ++ st.write_buf)
    (hboundary : boundary next = boundary st) : Encodes ids first sent next := by
  refine ⟨?_, ?_⟩
  · rw [hsetup.is_server, hsetup.ids]
    exact h.named
  · rw [hwire, hboundary]
    exact h.wire

theorem Encodes.frame [Rng R] (h : Encodes ids first sent st) {buf : List UInt8}
    (hlen : buf.length ≤ 65535) (hframe : st.frame_buf buf = .ok next) :
    Encodes ids first (sent ++ buf) next := by
  have hframed := framed_of_frame_buf hframe
  have hsetup := hframed.writes.setup
  have hsession : next.session = st.session := by
    obtain ⟨_, _, _, _, _, _, _, _, rfl⟩ := hframed.writes
    rfl
  obtain ⟨wire, hwrite, hwire⟩ := hframed.transduce hlen ids h.named
  refine ⟨?_, ?_⟩
  · rw [hsetup.is_server, hsetup.ids]
    exact h.named
  · rw [hsession, hwrite, ← List.append_assoc, transduce_append, h.wire, hwire]

-- A call that ended with an error may have put a front part of `buf` on the wire.
def Partly (ids : List Uuid) (first : Phase) (sent buf : List UInt8) (e : Exit)
    (st : ObservedVision S C R) : Prop :=
  ∃ part, part <+: buf ∧ (e.isErr = false → part = []) ∧ Encodes ids first (sent ++ part) st

theorem Encodes.partly (h : Encodes ids first sent st) (buf : List UInt8) (e : Exit) :
    Partly ids first sent buf e st :=
  ⟨[], List.nil_prefix, fun _ => rfl, by rwa [List.append_nil]⟩

theorem Encodes.partly_err {buf : List UInt8} {n : Nat}
    (h : Encodes ids first (sent ++ buf.take n) st) (e : IoError) :
    Partly ids first sent buf (.Err e) st :=
  ⟨buf.take n, List.take_prefix _ _, (fun hok => by cases hok), h⟩

variable [Connection C]

-- What the writer takes moves from `write_buf` to the session.
theorem Encodes.writer_write (h : Encodes ids first sent st) {result : IoResult Nat}
    {session : Logged C}
    (hcall : Connection.writer_write st.session st.write_buf = (result, session)) :
    ends (fun n (now : ObservedVision S C R) =>
        Encodes ids first sent { now with write_buf := now.write_buf.drop n })
      (fun _ => Encodes ids first sent) result { st with session := session } := by
  have hhanded := Logged.handed_of_log (Logged.log_of_writer_write hcall)
  rcases result with e | n
  · refine h.of_same ⟨rfl, rfl, rfl⟩ (congrArg (· ++ st.write_buf) ?_) rfl
    exact hhanded.trans (List.append_nil _)
  · refine h.of_same ⟨rfl, rfl, rfl⟩ ?_ rfl
    change session.handed ++ st.write_buf.drop n = _
    rw [hhanded, SessionEvent.handed, List.append_assoc, List.take_append_drop]

variable [AsyncStream S]

theorem handed_of_read_tls {session next : Logged C} {io inner : Recorded S} {result : IoResult Nat}
    (h : ReadTls session io result next inner) : next.handed = session.handed := by
  have hprepared : ∀ {reply prepared}, Connection.prepare_read session = (reply, prepared) →
      prepared.handed = session.handed := fun hprepare =>
    (Logged.handed_of_log (Logged.log_of_prepare_read hprepare)).trans (List.append_nil _)
  cases h with
  | refused hprepare => exact hprepared hprepare
  | finished hprepare => exact hprepared hprepare
  | @ready room prepared bytes inner hprepare hcall =>
      rw [← hprepared hprepare]
      exact (Logged.handed_of_log (Logged.log_received prepared bytes)).trans (List.append_nil _)
  | failed hprepare hcall => exact hprepared hprepare
  | pending hprepare hcall => exact hprepared hprepare

theorem Encodes.write_tls (h : Encodes ids first sent st) {result : IoResult Nat}
    {session : Logged C} {inner : Recorded S}
    (hcall : WriteTls st.session st.inner result session inner) :
    Encodes ids first sent { st with inner := inner, session := session } := by
  refine h.of_same ⟨rfl, rfl, rfl⟩ (congrArg (· ++ st.write_buf) ?_) rfl
  cases hcall with
  | _ => rfl

variable [Rng R]

-- Only a write puts anything on the wire.
theorem encodes_of_act (hcall : call.isWrite = false) (h : Encodes ids first sent st)
    (hact : Act call st next) : Encodes ids first sent next := by
  have hsetup := setup_of_act hact
  cases hact with
  | unframe hunframe =>
      obtain ⟨_, _, _, _, _, _, rfl⟩ := reads_of_unframe hunframe
      exact h.of_same hsetup rfl rfl
  | read_tls hread =>
      exact h.of_same hsetup (congrArg (· ++ st.write_buf) (handed_of_read_tls hread)) rfl
  | process =>
      have hhanded := Logged.handed_of_log (Logged.log_process_new_packets st.session)
      refine h.of_same hsetup (congrArg (· ++ st.write_buf) ?_) rfl
      exact hhanded.trans (List.append_nil _)
  | frame _ | writer_write _ | writer_error _ => cases hcall
  | write_tls _ hwrite => exact h.write_tls hwrite
  | _ => exact h.of_same hsetup rfl rfl

-- The bytes are put on the wire as one, behind everything before.
theorem poll_write_encodes (buf : List UInt8) :
    Triple (Encodes (S := S) (C := C) (R := R) ids first sent) (VisionTlsStream.poll_write buf)
      (fun n => Encodes ids first (sent ++ buf.take n)) (Partly ids first sent buf) := by
  have hdrain : Triple (Encodes (S := S) (C := C) (R := R) ids first sent)
      (.repeat_until (fun _ => drain_round) ()) (fun _ => Encodes ids first sent)
      (Partly ids first sent buf) := by
    refine drain_rule (Encodes ids first sent) (fun _ h _ => h) ?_ ?_
    · intro st result session h _ hcall
      have hnext := h.writer_write hcall
      rcases result with e | n
      · exact hnext.partly _ _
      · by_cases hzero : n = 0
        · simpa only [ends_ok, hzero, if_true, List.drop_zero] using hnext
        · simpa only [ends_ok, hzero, if_false] using hnext
    · intro st result session inner h hcall
      have hnext := h.write_tls hcall
      rcases result with e | n
      · exact hnext.partly _ _
      · exact hnext
  have hfill : Triple
      (Encodes (S := S) (C := C) (R := R) ids first (sent ++ buf.take (min buf.length 65535)))
      (.repeat_until (fun _ => fill_round) ())
      (fun _ => Encodes ids first (sent ++ buf.take (min buf.length 65535)))
      (Partly ids first sent buf) := by
    refine fill_rule (fun _ h _ => h) ?_
    intro st result session h _ hcall
    have hnext := h.writer_write hcall
    rcases result with e | n
    · exact hnext.partly_err e
    · exact hnext
  have hsend : Triple
      (Encodes (S := S) (C := C) (R := R) ids first (sent ++ buf.take (min buf.length 65535)))
      (.repeat_until (fun _ => send_round) ())
      (fun _ => Encodes ids first (sent ++ buf.take (min buf.length 65535)))
      (Partly ids first sent buf) := by
    refine send_rule (fun _ h _ => h) ?_
    intro st result session inner h _ hcall
    have hnext := h.write_tls hcall
    rcases result with e | n
    · by_cases hblock : e.kind = .WouldBlock
      · simpa only [ends_error, hblock, if_true] using hnext
      · simpa only [ends_error, hblock, if_false] using hnext.partly_err e
    · exact hnext
  refine (poll_write_rule hdrain ?_ hfill hsend).conseq (fun _ h => h) ?_ fun _ _ h => h
  · intro st h
    rcases hframe : st.frame_buf (buf.take (min buf.length 65535)) with panic | next
    · exact h.partly _ _
    · refine h.frame ?_ hframe
      rw [List.length_take]
      omega
  · rintro n st ⟨rfl, h⟩
    exact h

theorem encodes_of_step (h : Encodes ids first sent st) (hstep : Step st call after) :
    ∃ bytes, call.Sends bytes ∧ Encodes ids first (sent ++ bytes) after := by
  have hother : call.isWrite = false → ∃ bytes, call.Sends bytes ∧
      Encodes ids first (sent ++ bytes) after := by
    intro hcall
    refine ⟨[], ?_, ?_⟩
    · cases call with
      | write _ _ => cases hcall
      | read _ _ | flush _ | shutdown _ => rfl
    · rw [List.append_nil]
      exact hstep.rule (Encodes ids first sent) (fun _ _ hnow => encodes_of_act hcall hnow) h
  cases call with
  | write buf outcome =>
      obtain ⟨fuel, hrun⟩ := hstep
      have hpost := poll_write_encodes buf fuel st outcome after h hrun
      rcases outcome with e | n
      · obtain ⟨part, hpart, hnone, hnext⟩ := hpost
        refine ⟨part, ?_, hnext⟩
        cases e with
        | Err e => exact hpart
        | Pending => exact hnone rfl
        | Panicked panic => exact hnone rfl
      · exact ⟨buf.take n, rfl, hpost⟩
  | read len outcome => exact hother rfl
  | flush outcome => exact hother rfl
  | shutdown outcome => exact hother rfl

theorem encodes_of_run {start : ObservedVision S C R} (hstart : Encodes ids first [] start)
    {past : List (Transition (ObservedVision S C R) Call)} (hrun : Run Step start past st) :
    ∃ sent, Sends (past.map (·.label)) sent ∧ Encodes ids first sent st := by
  refine hrun.rule (fun past st => ∃ sent, Sends (past.map (·.label)) sent ∧
    Encodes ids first sent st) ⟨[], ⟨[], .nil, rfl⟩, hstart⟩ ?_
  rintro past last _ ⟨sent, hsent, hencodes⟩ hstep
  obtain ⟨bytes, hbytes, hnext⟩ := encodes_of_step hencodes hstep
  refine ⟨sent ++ bytes, ?_, hnext⟩
  rw [List.map_append]
  exact hsent.concat hbytes

end Writing

end ObservedVision

end AlphaRay
