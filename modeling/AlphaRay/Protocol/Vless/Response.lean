import AlphaRay.Lib.Run
import AlphaRay.Protocol.Vless.Poll
import AlphaRay.Util.ByteStream

namespace AlphaRay

open Lib ByteStream

-- The header in front of a response.
structure ResponseHeader where
  version : UInt8
  addons : List UInt8
  addons_le : addons.length ≤ 255

def ResponseHeader.bytes (header : ResponseHeader) : List UInt8 :=
  [header.version, UInt8.ofNat header.addons.length] ++ header.addons

-- What stands behind the header of a response, once the header is complete.
def payload : List UInt8 → Option (List UInt8)
  | _ :: addons_len :: rest =>
      if addons_len.toNat ≤ rest.length then some (rest.drop addons_len.toNat) else none
  | _ => none

theorem payload_of_addons {addons rest : List UInt8} {addons_len : UInt8} (version : UInt8)
    (hlen : addons.length = addons_len.toNat) :
    payload (version :: addons_len :: (addons ++ rest)) = some rest := by
  have hle : addons_len.toNat ≤ (addons ++ rest).length := by
    rw [List.length_append]
    omega
  rw [payload, if_pos hle, ← hlen, List.drop_left]

theorem addons_of_payload {bytes rest : List UInt8} (h : payload bytes = some rest) :
    ∃ version addons_len addons, bytes = version :: addons_len :: (addons ++ rest) ∧
      addons.length = addons_len.toNat := by
  rcases bytes with _ | ⟨version, _ | ⟨addons_len, tail⟩⟩
  · simp [payload] at h
  · simp [payload] at h
  · simp only [payload, Option.ite_none_right_eq_some, Option.some.injEq] at h
    obtain ⟨hle, rfl⟩ := h
    refine ⟨version, addons_len, tail.take addons_len.toNat, ?_, ?_⟩
    · rw [List.take_append_drop]
    · rw [List.length_take]
      omega

theorem payload_append {bytes rest : List UInt8} (h : payload bytes = some rest)
    (more : List UInt8) : payload (bytes ++ more) = some (rest ++ more) := by
  obtain ⟨version, addons_len, addons, rfl, hlen⟩ := addons_of_payload h
  rw [List.cons_append, List.cons_append, List.append_assoc]
  exact payload_of_addons version hlen

theorem length_lt_of_payload {bytes rest : List UInt8} (h : payload bytes = some rest) :
    rest.length < bytes.length := by
  obtain ⟨version, addons_len, addons, rfl, hlen⟩ := addons_of_payload h
  simp only [List.length_cons, List.length_append]
  omega

theorem payload_bytes (header : ResponseHeader) (p : List UInt8) :
    payload (header.bytes ++ p) = some p := by
  have hlen : header.addons.length = (UInt8.ofNat header.addons.length).toNat := by
    have hle := header.addons_le
    rw [UInt8.toNat_ofNat']
    omega
  exact payload_of_addons header.version hlen

-- An incomplete header has nothing behind it.
theorem payload_of_strict_prefix (header : ResponseHeader) {front : List UInt8}
    (hfront : front <+: header.bytes) (hne : front ≠ header.bytes) : payload front = none := by
  obtain ⟨missing, hsplit⟩ := hfront
  rcases hpayload : payload front with _ | rest
  · rfl
  · have hwhole := payload_append hpayload missing
    rw [hsplit, ← List.append_nil header.bytes, payload_bytes] at hwhole
    have hnil : rest ++ missing = [] := (Option.some.inj hwhole).symm
    obtain ⟨-, rfl⟩ := List.append_eq_nil_iff.mp hnil
    exact absurd (by simpa using hsplit) hne

-- The decoder leaves exactly what stands behind the header.
theorem decode_spec (src : BytesMut) :
    (payload src.bytes = none ∧ VlessResponseDecoder.decode src = .ok (.ok none, src)) ∨
    ∃ buf, payload src.bytes = some buf.bytes ∧
      VlessResponseDecoder.decode src = .ok (.ok (some ()), buf) := by
  obtain ⟨bytes, capacity, hle⟩ := src
  rcases bytes with _ | ⟨version, _ | ⟨addons_len, rest⟩⟩
  · exact .inl ⟨rfl, rfl⟩
  · exact .inl ⟨rfl, rfl⟩
  · have htwo : ¬ (version :: addons_len :: rest).length < 2 := by simp
    have hindex : index (version :: addons_len :: rest) 1 = .ok addons_len := rfl
    by_cases hlen : addons_len.toNat ≤ rest.length
    · have hheader : 2 + addons_len.toNat ≤ (version :: addons_len :: rest).length := by
        simp only [List.length_cons]
        omega
      have hdrop : (version :: addons_len :: rest).drop (2 + addons_len.toNat) =
          rest.drop addons_len.toNat := by
        rw [Nat.add_comm, List.drop_succ_cons, List.drop_succ_cons]
      refine .inr ⟨⟨(version :: addons_len :: rest).drop (2 + addons_len.toNat),
        capacity - (2 + addons_len.toNat), ?_⟩, ?_, ?_⟩
      · rw [List.length_drop]
        omega
      · rw [payload, if_pos hlen]
        exact congrArg some hdrop.symm
      · simp only [VlessResponseDecoder.decode, htwo, if_false, hindex, BytesMut.advance, hheader,
          if_true, Nat.not_lt.mpr hheader, bind, Except.bind, pure, Except.pure]
    · have hheader : (version :: addons_len :: rest).length < 2 + addons_len.toNat := by
        simp only [List.length_cons]
        omega
      refine .inl ⟨by rw [payload, if_neg hlen], ?_⟩
      simp only [VlessResponseDecoder.decode, htwo, if_false, hindex, hheader, if_true, bind,
        Except.bind, pure, Except.pure]

namespace VlessStream

variable {S : Type} {st : VlessStream S}

theorem decode_round_returns :
    (payload st.buf.bytes = none ∧ decode_round.Returns st (.ok (.again ())) st) ∨
    ∃ buf, payload st.buf.bytes = some buf.bytes ∧ decode_round.Returns st (.ok (.leave ()))
      { st with buf := buf, is_handshake_done := true } := by
  rcases decode_spec st.buf with ⟨hnone, hdecode⟩ | ⟨buf, hsome, hdecode⟩
  · have hreturns : decode.Returns st (.ok (.ok none)) st := by
      refine (Async.Returns.peek st).bind ?_
      rw [hdecode]
      exact .act _ st
    exact .inl ⟨hnone, hreturns.bind (.pure _ _)⟩
  · have hreturns : decode.Returns st (.ok (.ok (some ()))) { st with buf := buf } := by
      refine (Async.Returns.peek st).bind ?_
      rw [hdecode]
      exact .act _ st
    exact .inr ⟨buf, hsome, hreturns.bind (Async.Returns.bind (.act _ _) (.pure _ _))⟩

theorem take_buffered_returns {len : Nat} (hlen : len ≤ st.buf.bytes.length) :
    ∃ buf, (take_buffered len).Returns st (.ok (st.buf.bytes.take len)) { st with buf := buf } ∧
      buf.bytes = st.buf.bytes.drop len := by
  have hslice := slice_of_le st.buf.bytes 0 len (Nat.zero_le _) hlen
  rw [List.drop_zero, Nat.sub_zero] at hslice
  obtain ⟨buf, hadvance, hbytes⟩ : ∃ buf, st.buf.advance len = .ok buf ∧
      buf.bytes = st.buf.bytes.drop len := ⟨_, if_pos hlen, rfl⟩
  refine ⟨buf, (Async.Returns.peek st).bind ?_, hbytes⟩
  dsimp only
  rw [hslice, hadvance]
  exact .act _ st

variable [AsyncStream S]

theorem inner_read_returns {room : Nat} {reply : Poll (IoResult (List UInt8))} {inner : S}
    (hcall : AsyncStream.poll_read st.inner room = (reply, inner)) :
    (inner_read room).Returns st (.ok reply) { st with inner := inner } := by
  have hact : (inner_read room).Returns st (.ok (AsyncStream.poll_read st.inner room).1)
      { st with inner := (AsyncStream.poll_read st.inner room).2 } := .act _ st
  rw [hcall] at hact
  exact hact

section Reading

variable [ByteStream S]

-- Everything that has yet to be handed on or skipped.
def stock (st : VlessStream S) : List UInt8 := st.buf.bytes ++ (pipe st.inner).unread

-- Before the header is complete the buffer holds a front part of it.
def Waits (st : VlessStream S) : Prop :=
  st.is_handshake_done = false → payload st.buf.bytes = none

-- What the stream has yet to hand on, if it is not cut short within the header.
def due (st : VlessStream S) : Option (List UInt8) :=
  if st.is_handshake_done then some st.stock else payload st.stock

-- A byte that was not yet read counts twice, so that moving it to the buffer counts.
def effort (st : VlessStream S) : Nat := 2 * (pipe st.inner).unread.length + st.buf.bytes.length

-- Something was read or handed on, or the stream was asked once more.
def Closer (after st : VlessStream S) : Prop :=
  after.effort < st.effort ∨
    after.effort = st.effort ∧ patience after.inner < patience st.inner

theorem closer_wf : WellFounded (Closer : VlessStream S → VlessStream S → Prop) := by
  refine Subrelation.wf ?_ (InvImage.wf (fun st : VlessStream S => (st.effort, patience st.inner))
    (Prod.lex Nat.lt_wfRel Nat.lt_wfRel).wf)
  intro after st hcloser
  rcases hcloser with hlt | ⟨heq, hlt⟩
  · exact .left _ _ hlt
  · simp only [InvImage, heq]
    exact .right _ hlt

theorem Closer.of_le {st mid after : VlessStream S} (h : after.Closer mid)
    (hle : mid.effort < st.effort) : after.Closer st := by
  rcases h with hlt | ⟨heq, -⟩
  · exact .inl (by omega)
  · exact .inl (by omega)

def eof_error : Exit := .Err ⟨.UnexpectedEof, "EOF during handshake"⟩

-- How the loop over the header ends.
inductive Handshaken (st : VlessStream S) : Except Exit Unit → VlessStream S → Prop
  | complete (after : VlessStream S) (hdone : after.is_handshake_done = true)
      (hpayload : payload st.stock = some after.stock) (hcloser : after.effort < st.effort) :
      Handshaken st (.ok ()) after
  | pending (after : VlessStream S) (hdone : after.is_handshake_done = false)
      (hwaits : payload after.buf.bytes = none) (hstock : after.stock = st.stock)
      (hcloser : after.Closer st) : Handshaken st (.error .Pending) after
  | eof (after : VlessStream S) (hdone : after.is_handshake_done = false)
      (hwaits : payload after.buf.bytes = none) (hstock : after.stock = st.stock)
      (hshort : payload st.stock = none) : Handshaken st (.error eof_error) after

theorem Handshaken.of_round {st mid after : VlessStream S} {result : Except Exit Unit}
    (h : Handshaken mid result after) (hstock : mid.stock = st.stock)
    (heffort : mid.effort < st.effort) : Handshaken st result after := by
  cases h with
  | complete _ hdone hpayload hcloser =>
      exact .complete after hdone (hstock ▸ hpayload) (by omega)
  | pending _ hdone hwaits hsame hcloser =>
      exact .pending after hdone hwaits (hsame.trans hstock) (hcloser.of_le heffort)
  | eof _ hdone hwaits hsame hshort =>
      exact .eof after hdone hwaits (hsame.trans hstock) (hstock ▸ hshort)

theorem read_chunk_returns (st : VlessStream S) :
    (∃ after, read_chunk.Returns st (.error .Pending) after ∧
      after.is_handshake_done = st.is_handshake_done ∧ after.buf.bytes = st.buf.bytes ∧
      pipe after.inner = pipe st.inner ∧ patience after.inner < patience st.inner) ∨
    ∃ filled after, read_chunk.Returns st (.ok filled) after ∧
      after.is_handshake_done = st.is_handshake_done ∧ after.buf.bytes = st.buf.bytes ∧
      (pipe st.inner).unread = filled ++ (pipe after.inner).unread ∧
      ((pipe st.inner).unread ≠ [] → filled ≠ []) := by
  have hroom := st.buf.chunk_mut_pos
  have hbytes : st.buf.chunk_mut.2.bytes = st.buf.bytes := BufMut.bytes_chunk_mut st.buf
  have hchunk : chunk_mut.Returns st (.ok st.buf.chunk_mut.1)
    { st with buf := st.buf.chunk_mut.2 } := .act _ st
  rcases hcall : AsyncStream.poll_read st.inner st.buf.chunk_mut.1 with ⟨reply, inner⟩
  have hread : (inner_read st.buf.chunk_mut.1).Returns { st with buf := st.buf.chunk_mut.2 }
    (.ok reply) { st with inner := inner, buf := st.buf.chunk_mut.2 } := inner_read_returns hcall
  rcases reply with reply | _
  · obtain ⟨filled, rfl, hpipe, hne⟩ := poll_read_ready st.inner _ reply inner hcall
    refine .inr ⟨filled, { st with inner := inner, buf := st.buf.chunk_mut.2 }, ?_, rfl, hbytes,
      ?_, hne hroom⟩
    · exact hchunk.bind (hread.bind (.pure _ _))
    · rw [hpipe]
  · obtain ⟨hpipe, hlt⟩ := poll_read_pending st.inner _ inner hcall
    refine .inl ⟨{ st with inner := inner, buf := st.buf.chunk_mut.2 }, ?_, rfl, hbytes, hpipe, hlt⟩
    exact hchunk.bind (hread.bind (.throw _ _))

-- A round reads some bytes more and goes on, or it ends the loop.
theorem handshake_round_returns (hdone : st.is_handshake_done = false)
    (hwaits : payload st.buf.bytes = none) :
    (∃ after, handshake_round.Returns st (.ok (.again ())) after ∧
      after.is_handshake_done = false ∧ payload after.buf.bytes = none ∧
      after.stock = st.stock ∧ after.effort < st.effort) ∨
    (∃ after, handshake_round.Returns st (.ok (.leave ())) after ∧ Handshaken st (.ok ()) after) ∨
    ∃ e after, handshake_round.Returns st (.error e) after ∧ Handshaken st (.error e) after := by
  rcases read_chunk_returns st with ⟨mid, hread, hmid, hbytes, hpipe, hlt⟩ |
    ⟨filled, mid, hread, hmid, hbytes, hunread, hne⟩
  · refine .inr (.inr ⟨.Pending, mid, hread.bind_error, ?_⟩)
    refine .pending mid (hmid.trans hdone) ?_ ?_ (.inr ⟨?_, hlt⟩)
    · rw [hbytes]
      exact hwaits
    · rw [stock, stock, hbytes, hpipe]
    · rw [effort, effort, hbytes, hpipe]
  · by_cases hfilled : filled = []
    · have hend : (pipe st.inner).unread = [] := by
        by_contra hleft
        exact hne hleft hfilled
      have hsame : mid.stock = st.stock := by
        rw [stock, stock, hbytes, hunread, hfilled, List.nil_append]
      refine .inr (.inr ⟨eof_error, mid, hread.bind ?_, ?_⟩)
      · rw [if_pos hfilled]
        exact .throw _ mid
      · refine .eof mid (hmid.trans hdone) ?_ hsame ?_
        · rw [hbytes]
          exact hwaits
        · rw [stock, hend, List.append_nil]
          exact hwaits
    · have hpos := List.length_pos_of_ne_nil hfilled
      have hlen : (pipe st.inner).unread.length = filled.length + (pipe mid.inner).unread.length := by
        rw [hunread, List.length_append]
      have hgrown : (mid.buf.advance_mut filled).bytes = st.buf.bytes ++ filled := by
        rw [← hbytes]
        rfl
      have hstock : stock { mid with buf := mid.buf.advance_mut filled } = st.stock := by
        rw [stock, stock, hgrown, hunread, List.append_assoc]
      have hround : ∀ result after,
          decode_round.Returns { mid with buf := mid.buf.advance_mut filled } result after →
          handshake_round.Returns st result after := by
        intro result after hrest
        refine hread.bind ?_
        rw [if_neg hfilled]
        exact Async.Returns.bind (.act _ mid) hrest
      rcases @decode_round_returns S { mid with buf := mid.buf.advance_mut filled } with
        ⟨hnone, hdecode⟩ | ⟨buf, hsome, hdecode⟩
      · refine .inl ⟨_, hround _ _ hdecode, hmid.trans hdone, hnone, hstock, ?_⟩
        simp only [effort, hgrown, List.length_append]
        omega
      · refine .inr (.inl ⟨_, hround _ _ hdecode, .complete _ rfl ?_ ?_⟩)
        · rw [← hstock]
          exact payload_append hsome _
        · have hshorter := length_lt_of_payload hsome
          simp only [hgrown, List.length_append] at hshorter
          simp only [effort]
          omega

theorem handshake_returns (hdone : st.is_handshake_done = false)
    (hwaits : payload st.buf.bytes = none) :
    ∃ result after, (Async.repeat_until (fun _ => handshake_round) ()).Returns st result after ∧
      Handshaken st result after := by
  suffices hrounds : ∃ result after,
      Async.Rounds (fun _ : Unit => handshake_round) () st result after ∧
        Handshaken st result after by
    obtain ⟨result, after, hrounds, hends⟩ := hrounds
    exact ⟨result, after, hrounds.returns, hends⟩
  generalize heffort : st.effort = effort
  induction effort using Nat.strong_induction_on generalizing st with
  | _ effort ih =>
      rcases handshake_round_returns hdone hwaits with
        ⟨mid, hround, hmid, hnone, hstock, hlt⟩ | ⟨after, hround, hends⟩ | ⟨e, after, hround, hends⟩
      · obtain ⟨result, after, hrounds, hends⟩ := ih mid.effort (heffort ▸ hlt) hmid hnone rfl
        exact ⟨result, after, .again hround hrounds, hends.of_round hstock hlt⟩
      · exact ⟨_, after, .leave hround, hends⟩
      · exact ⟨_, after, .error hround, hends⟩

-- How a read answers, and what it leaves due.
inductive Answered (st : VlessStream S) : Except Exit (List UInt8) → VlessStream S → Prop
  | pending (after : VlessStream S) (hdue : after.due = st.due) (hcloser : after.Closer st) :
      Answered st (.error .Pending) after
  | data (bytes rest : List UInt8) (after : VlessStream S) (hne : bytes ≠ [])
      (hbefore : st.due = some (bytes ++ rest)) (hafter : after.due = some rest)
      (hcloser : after.effort < st.effort) : Answered st (.ok bytes) after
  | finished (after : VlessStream S) (hbefore : st.due = some []) (hafter : after.due = some []) :
      Answered st (.ok []) after
  | eof (after : VlessStream S) (hbefore : st.due = none) (hafter : after.due = none) :
      Answered st (.error eof_error) after

theorem Answered.of_handshake {mid after : VlessStream S} {outcome : Except Exit (List UInt8)}
    (h : Answered mid outcome after) (hdue : st.due = mid.due) (heffort : mid.effort < st.effort) :
    Answered st outcome after := by
  cases h with
  | pending _ hsame hcloser => exact .pending after (hsame.trans hdue.symm) (hcloser.of_le heffort)
  | data bytes rest _ hne hbefore hafter hcloser =>
      exact .data bytes rest after hne (hdue.trans hbefore) hafter (by omega)
  | finished _ hbefore hafter => exact .finished after (hdue.trans hbefore) hafter
  | eof _ hbefore hafter => exact .eof after (hdue.trans hbefore) hafter

theorem due_of_done (hdone : st.is_handshake_done = true) : st.due = some st.stock := by
  rw [due, if_pos hdone]

theorem due_of_waiting (hdone : st.is_handshake_done = false) : st.due = payload st.stock := by
  rw [due, hdone, if_neg Bool.false_ne_true]

theorem read_payload_returns (hdone : st.is_handshake_done = true) {room : Nat} (hroom : 0 < room) :
    ∃ outcome after, (read_payload room).Returns st outcome after ∧
      after.is_handshake_done = true ∧ Answered st outcome after := by
  by_cases hnil : st.buf.bytes = []
  · have hforward : ∀ outcome after, (inner_read room >>= forward).Returns st outcome after →
        (read_payload room).Returns st outcome after := by
      intro outcome after hreturns
      refine (Async.Returns.peek st).bind ?_
      dsimp only
      rw [if_pos hnil]
      exact hreturns
    rcases hcall : AsyncStream.poll_read st.inner room with ⟨reply | _, inner⟩
    · have hread := inner_read_returns hcall
      obtain ⟨filled, rfl, hpipe, hne⟩ := poll_read_ready st.inner room reply inner hcall
      have hunread : (pipe st.inner).unread = filled ++ (pipe inner).unread := by rw [hpipe]
      have hdue : st.due = some (filled ++ (pipe inner).unread) := by
        rw [due_of_done hdone, stock, hnil, hunread, List.nil_append]
      have hdue' : due { st with inner := inner } = some (pipe inner).unread := by
        have hstock : stock { st with inner := inner } = (pipe inner).unread := by
          rw [stock, hnil, List.nil_append]
        rw [← hstock]
        exact due_of_done hdone
      refine ⟨_, _, hforward _ _ (hread.bind (.pure _ _)), hdone, ?_⟩
      by_cases hfilled : filled = []
      · subst hfilled
        have hend : (pipe inner).unread = [] := by
          by_contra hleft
          exact hne hroom (by rwa [hunread]) rfl
        rw [hend] at hdue hdue'
        exact .finished _ hdue hdue'
      · refine .data filled _ _ hfilled hdue hdue' ?_
        have hpos := List.length_pos_of_ne_nil hfilled
        simp only [effort, hunread, List.length_append]
        omega
    · have hread := inner_read_returns hcall
      obtain ⟨hpipe, hlt⟩ := poll_read_pending st.inner room inner hcall
      refine ⟨_, _, hforward _ _ (hread.bind (.throw _ _)), hdone, .pending _ ?_ (.inr ⟨?_, hlt⟩)⟩
      · simp only [due, stock, hpipe]
      · simp only [effort, hpipe]
  · have hpos := List.length_pos_of_ne_nil hnil
    obtain ⟨buf, htake, hbuf⟩ := @take_buffered_returns S st (min room st.buf.bytes.length)
      (Nat.min_le_right _ _)
    have hdue : due { st with buf := buf } = some (buf.bytes ++ (pipe st.inner).unread) :=
      due_of_done hdone
    refine ⟨_, { st with buf := buf }, (Async.Returns.peek st).bind ?_, hdone,
      .data (st.buf.bytes.take (min room st.buf.bytes.length)) _ _ ?_ ?_ hdue ?_⟩
    · dsimp only
      rw [if_neg hnil]
      exact htake
    · apply List.ne_nil_of_length_pos
      rw [List.length_take]
      omega
    · rw [due_of_done hdone, stock, hbuf, ← List.append_assoc, List.take_append_drop]
    · simp only [effort, hbuf, List.length_drop]
      omega

-- Every read returns, and answers as it should.
theorem poll_read_returns (hwaits : st.Waits) {room : Nat} (hroom : 0 < room) :
    ∃ outcome after, (poll_read room).Returns st outcome after ∧ after.Waits ∧
      Answered st outcome after := by
  have hflag : handshake_done.Returns st (.ok st.is_handshake_done) st := .act _ st
  cases hdone : st.is_handshake_done with
  | true =>
      rw [hdone] at hflag
      obtain ⟨outcome, after, hread, hafter, hanswered⟩ := read_payload_returns hdone hroom
      refine ⟨outcome, after, hflag.bind hread, ?_, hanswered⟩
      intro hnot
      rw [hafter] at hnot
      cases hnot
  | false =>
      rw [hdone] at hflag
      have hdue := due_of_waiting hdone
      obtain ⟨result, mid, hhandshake, hends⟩ := handshake_returns hdone (hwaits hdone)
      cases hends with
      | complete _ hmid hpayload hlt =>
          obtain ⟨outcome, after, hread, hafter, hanswered⟩ := read_payload_returns hmid hroom
          have hsame : st.due = mid.due := by rw [hdue, hpayload, due_of_done hmid]
          refine ⟨outcome, after, hflag.bind (hhandshake.bind hread), ?_,
            hanswered.of_handshake hsame hlt⟩
          intro hnot
          rw [hafter] at hnot
          cases hnot
      | pending _ hmid hnone hstock hcloser =>
          have hsame : mid.due = st.due := by rw [hdue, due_of_waiting hmid, hstock]
          exact ⟨_, mid, hflag.bind hhandshake.bind_error, fun _ => hnone,
            .pending mid hsame hcloser⟩
      | eof _ hmid hnone hstock hshort =>
          have hsame : mid.due = none := by rw [due_of_waiting hmid, hstock, hshort]
          exact ⟨_, mid, hflag.bind hhandshake.bind_error, fun _ => hnone,
            .eof mid (hdue.trans hshort) hsame⟩

-- A read with room for a byte.
inductive ReadStep : VlessStream S → Call → VlessStream S → Prop
  | read (st after : VlessStream S) (room : Nat) (outcome : Except Exit (List UInt8))
      (hroom : 0 < room) (hcall : (poll_read room).Returns st outcome after) :
      ReadStep st (.read room outcome) after

-- The bytes that the reads handed on.
def handed (past : List (Transition (VlessStream S) Call)) : List UInt8 :=
  past.flatMap (·.label.filled)

omit [AsyncStream S] [ByteStream S] in
theorem handed_concat (past : List (Transition (VlessStream S) Call))
    (last : Transition (VlessStream S) Call) :
    handed (past ++ [last]) = handed past ++ last.label.filled := by
  simp [handed]

variable {start : VlessStream S} {past : List (Transition (VlessStream S) Call)}

theorem answered_of_step {call : Call} {after : VlessStream S} (hwaits : st.Waits)
    (hstep : ReadStep st call after) :
    after.Waits ∧ ∃ room outcome, call = .read room outcome ∧ Answered st outcome after := by
  cases hstep with
  | read _ room outcome hroom hcall =>
      obtain ⟨outcome', after', hreturns, hwaits', hanswered⟩ := poll_read_returns hwaits hroom
      obtain ⟨rfl, rfl⟩ := hcall.unique hreturns
      exact ⟨hwaits', room, outcome, rfl, hanswered⟩

-- What was handed on and what is due make up what was due at first.
theorem due_of_run (hstart : start.Waits) (hrun : Run ReadStep start past st) :
    st.Waits ∧ start.due = st.due.map (handed past ++ ·) := by
  refine hrun.rule (fun past st => st.Waits ∧ start.due = st.due.map (handed past ++ ·))
    ⟨hstart, ?_⟩ ?_
  · cases start.due <;> rfl
  · intro past last _ ih hstep
    obtain ⟨hwaits, hdue⟩ := ih
    obtain ⟨hwaits', room, outcome, hlabel, hanswered⟩ := answered_of_step hwaits hstep
    refine ⟨hwaits', ?_⟩
    rw [handed_concat, hlabel, hdue]
    cases hanswered with
    | pending _ hsame => simp [Call.filled, hsame]
    | data bytes rest _ hne hbefore hafter => simp [Call.filled, hbefore, hafter]
    | finished _ hbefore hafter => simp [Call.filled, hbefore, hafter]
    | eof _ hbefore hafter => simp [hbefore, hafter]

-- The stream has ended, or it was cut short within the header.
def Ended (outcome : Except Exit (List UInt8)) : Prop := outcome = .ok [] ∨ outcome = .error eof_error

-- Reads that go on come to the end of the stream.
theorem reads_end (hwaits : st.Waits) (rooms : Nat → Nat) (hrooms : ∀ i, 0 < rooms i) :
    ∃ past last room outcome, Run ReadStep st (past ++ [last]) last.after ∧
      Rooms rooms (past ++ [last]) ∧ last.label = .read room outcome ∧ Ended outcome := by
  refine reads_come_to closer_wf Waits Ended ?_ st hwaits rooms hrooms
  intro now room hnow hroom
  obtain ⟨outcome, after, hreturns, hafter, hanswered⟩ := poll_read_returns hnow hroom
  refine ⟨outcome, after, .read now after room outcome hroom hreturns, hafter, ?_⟩
  cases hanswered with
  | pending _ _ hcloser => exact .inr hcloser
  | data _ _ _ _ _ _ hlt => exact .inr (.inl hlt)
  | finished _ _ _ => exact .inl (.inl rfl)
  | eof _ _ _ => exact .inl (.inr rfl)

omit [AsyncStream S] [ByteStream S] in
theorem waits_new (io : S) : (new io).Waits := fun _ => rfl

theorem due_new (io : S) : (new io).due = payload (pipe io).unread := rfl

-- Every read of a run answers for what was due before it.
theorem answered_of_run {before after : List (Transition (VlessStream S) Call)}
    {t : Transition (VlessStream S) Call} (hstart : start.Waits)
    (hrun : Run ReadStep start (before ++ t :: after) st) :
    start.due = t.before.due.map (handed before ++ ·) ∧
      ∃ room outcome, t.label = .read room outcome ∧ Answered t.before outcome t.after := by
  obtain ⟨hbefore, hstep⟩ := hrun.split
  obtain ⟨hwaits, hdue⟩ := due_of_run hstart hbefore
  exact ⟨hdue, (answered_of_step hwaits hstep).2⟩

-- A run over a stream that is not cut short within the header.
theorem handed_of_run {p : List UInt8} (hstart : start.Waits) (hdue : start.due = some p)
    (hrun : Run ReadStep start past st) : handed past <+: p := by
  have hrest := (due_of_run hstart hrun).2
  rw [hdue] at hrest
  obtain ⟨rest, -, hsplit⟩ := Option.map_eq_some_iff.mp hrest.symm
  exact ⟨rest, hsplit⟩

theorem ok_of_run {p : List UInt8} {before after : List (Transition (VlessStream S) Call)}
    {t : Transition (VlessStream S) Call} (hstart : start.Waits) (hdue : start.due = some p)
    (hrun : Run ReadStep start (before ++ t :: after) st) :
    ∃ room, t.label = .read room (.error .Pending) ∨
      ∃ bytes, t.label = .read room (.ok bytes) ∧ (bytes = [] → handed before = p) := by
  obtain ⟨hrest, room, outcome, hlabel, hanswered⟩ := answered_of_run hstart hrun
  rw [hdue] at hrest
  refine ⟨room, ?_⟩
  cases hanswered with
  | pending => exact .inl hlabel
  | data bytes rest _ hne => exact .inr ⟨bytes, hlabel, fun hnil => absurd hnil hne⟩
  | finished _ hbefore =>
      rw [hbefore] at hrest
      refine .inr ⟨[], hlabel, fun _ => ?_⟩
      simpa using (Option.some.inj hrest).symm
  | eof _ hbefore =>
      rw [hbefore] at hrest
      cases hrest

-- A run over a stream that is.
theorem error_of_run {before after : List (Transition (VlessStream S) Call)}
    {t : Transition (VlessStream S) Call} (hstart : start.Waits) (hdue : start.due = none)
    (hrun : Run ReadStep start (before ++ t :: after) st) :
    ∃ room, t.label = .read room (.error .Pending) ∨ t.label = .read room (.error eof_error) := by
  obtain ⟨hrest, room, outcome, hlabel, hanswered⟩ := answered_of_run hstart hrun
  rw [hdue] at hrest
  have hnone : t.before.due = none := Option.map_eq_none_iff.mp hrest.symm
  refine ⟨room, ?_⟩
  cases hanswered with
  | pending => exact .inl hlabel
  | data _ _ _ _ hbefore =>
      rw [hnone] at hbefore
      cases hbefore
  | finished _ hbefore =>
      rw [hnone] at hbefore
      cases hbefore
  | eof => exact .inr hlabel

end Reading

end VlessStream

-- Of a response, a header with any addons in front of any payload, exactly the payload
-- is handed on: in every run of reads what was handed on is a front part of it, no read
-- fails, and a read reports the end of the stream only when all was handed on, which reads
-- that go on come to. Of a header that is cut short nothing is handed on, and reads that
-- go on come to the error.
theorem vless_response_stripped {S : Type} [AsyncStream S] [ByteStream S] (header : ResponseHeader)
    (io : S) (past : List (Transition (VlessStream S) Call)) (st : VlessStream S)
    (hrun : Run VlessStream.ReadStep (.new io) past st) (rooms : Nat → Nat)
    (hrooms : ∀ i, 0 < rooms i) :
    (∀ p, (pipe io).unread = header.bytes ++ p →
      VlessStream.handed past <+: p ∧
      (∀ before t after, past = before ++ t :: after → ∃ room,
        t.label = .read room (.error .Pending) ∨
        ∃ bytes, t.label = .read room (.ok bytes) ∧ (bytes = [] → VlessStream.handed before = p)) ∧
      ∃ more last room, Run VlessStream.ReadStep (.new io) (past ++ (more ++ [last])) last.after ∧
        Rooms rooms (more ++ [last]) ∧ last.label = .read room (.ok []) ∧
        VlessStream.handed (past ++ more) = p) ∧
    ((pipe io).unread <+: header.bytes → (pipe io).unread ≠ header.bytes →
      (∀ before t after, past = before ++ t :: after → ∃ room,
        t.label = .read room (.error .Pending) ∨
        t.label = .read room (.error VlessStream.eof_error)) ∧
      ∃ more last room, Run VlessStream.ReadStep (.new io) (past ++ (more ++ [last])) last.after ∧
        Rooms rooms (more ++ [last]) ∧
        last.label = .read room (.error VlessStream.eof_error)) := by
  have hstart := VlessStream.waits_new io
  have hwaits := (VlessStream.due_of_run hstart hrun).1
  obtain ⟨more, last, room, outcome, hmore, hsized, hlabel, hends⟩ :=
    VlessStream.reads_end hwaits rooms hrooms
  have hall := hrun.append hmore
  have hlast : Run VlessStream.ReadStep (.new io) ((past ++ more) ++ last :: []) last.after := by
    rw [List.append_assoc]
    exact hall
  constructor
  · intro p hunread
    have hdue : (VlessStream.new io).due = some p := by
      rw [VlessStream.due_new, hunread, payload_bytes]
    refine ⟨VlessStream.handed_of_run hstart hdue hrun, ?_, more, last, room, hall, hsized, ?_⟩
    · rintro before t after rfl
      exact VlessStream.ok_of_run hstart hdue hrun
    · obtain ⟨room', hpending | ⟨bytes, hok, hfinished⟩⟩ := VlessStream.ok_of_run hstart hdue hlast
      · rw [hlabel] at hpending
        rcases hends with rfl | rfl
        · cases hpending
        · cases hpending
      · rw [hlabel] at hok
        rcases hends with rfl | rfl
        · cases hok
          exact ⟨hlabel, hfinished rfl⟩
        · cases hok
  · intro hfront hne
    have hdue : (VlessStream.new io).due = none := by
      rw [VlessStream.due_new, payload_of_strict_prefix header hfront hne]
    refine ⟨?_, more, last, room, hall, hsized, ?_⟩
    · rintro before t after rfl
      exact VlessStream.error_of_run hstart hdue hrun
    · obtain ⟨room', hpending | herror⟩ := VlessStream.error_of_run hstart hdue hlast
      · rw [hlabel] at hpending
        rcases hends with rfl | rfl
        · cases hpending
        · cases hpending
      · rw [hlabel] at herror
        rcases hends with rfl | rfl
        · cases herror
        · exact hlabel

-- A header with one byte of addons and a payload of two, in pieces of one byte.
def trickle : Channel := ⟨[0, 1, 9, 5, 6], [], [some 0, none, some 0, none, some 0]⟩

-- The same header, cut short before its addons.
def cutHeader : Channel := ⟨[0, 1], [], [none, some 0]⟩

def headerOfNine : ResponseHeader := ⟨0, [9], by decide⟩

theorem vless_response_stripped_two_bytes :
    (∃ past last room, Run VlessStream.ReadStep (.new trickle) (past ++ [last]) last.after ∧
      last.label = .read room (.ok []) ∧ VlessStream.handed past = [5, 6]) ∧
    ∃ past last room, Run VlessStream.ReadStep (.new cutHeader) (past ++ [last]) last.after ∧
      last.label = .read room (.error VlessStream.eof_error) := by
  have htrickle := vless_response_stripped headerOfNine trickle [] _ .nil (fun _ => 1)
    fun _ => Nat.one_pos
  have hcut := vless_response_stripped headerOfNine cutHeader [] _ .nil (fun _ => 1)
    fun _ => Nat.one_pos
  obtain ⟨-, -, more, last, room, hrun, -, hlabel, hall⟩ := htrickle.1 [5, 6] rfl
  obtain ⟨-, more', last', room', hrun', -, hlabel'⟩ := hcut.2 ⟨[9], rfl⟩ (by decide)
  exact ⟨⟨more, last, room, hrun, hlabel, hall⟩, ⟨more', last', room', hrun', hlabel'⟩⟩

end AlphaRay
