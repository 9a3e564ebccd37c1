import AlphaRay.Protocol.Vless.Response

namespace AlphaRay

open Lib

-- A header and its addons take at most 257 bytes.
theorem length_of_payload_none {bytes : List UInt8} (h : payload bytes = none) :
    bytes.length < 257 := by
  rcases bytes with _ | ⟨version, _ | ⟨addons_len, rest⟩⟩
  · simp
  · simp
  · have hlen := addons_len.toNat_lt
    simp only [payload, ite_eq_right_iff, reduceCtorEq, imp_false] at h
    simp only [List.length_cons]
    omega

namespace VlessStream

variable {S : Type} {given arrived : List UInt8} {remaining : Nat}
  {outcome : Except Exit (List UInt8)} {st mid after : VlessStream (Recorded S)}

-- Before the header is complete everything that arrived is in the buffer. From then on
-- what stands behind it was handed on or is in the buffer.
inductive Keeps (given : List UInt8) (st : VlessStream (Recorded S)) : Prop
  | waiting (hdone : st.is_handshake_done = false) (hgiven : given = [])
      (hbuf : st.buf.bytes = st.inner.arrived) (hshort : payload st.inner.arrived = none) :
      Keeps given st
  | relaying (hdone : st.is_handshake_done = true)
      (hpayload : payload st.inner.arrived = some (given ++ st.buf.bytes)) : Keeps given st

-- The reply of the inner stream that a read which gives no bytes is owed to.
inductive OwedTo (given arrived : List UInt8) (remaining : Nat)
    (outcome : Except Exit (List UInt8)) : Event → Prop
  | pending (room : Nat) (houtcome : outcome = .error .Pending) :
      OwedTo given arrived remaining outcome (.read room .Pending)
  | error (room : Nat) (e : IoError) (houtcome : outcome = .error (.Err e)) :
      OwedTo given arrived remaining outcome (.read room (.Ready (.error e)))
  | finished (houtcome : outcome = .ok []) (hpayload : payload arrived = some given) :
      OwedTo given arrived remaining outcome (.read remaining (.Ready (.ok [])))
  | eof (room : Nat) (hroom : 0 < room) (houtcome : outcome = .error eof_error)
      (hshort : payload arrived = none) :
      OwedTo given arrived remaining outcome (.read room (.Ready (.ok [])))

-- How a call of `poll_read` ends.
structure Reads (given : List UInt8) (st : VlessStream (Recorded S)) (remaining : Nat)
    (outcome : Except Exit (List UInt8)) (after : VlessStream (Recorded S)) : Prop where
  keeps : after.Keeps (given ++ (Call.read remaining outcome).filled)
  delivered_eq : after.inner.delivered = st.inner.delivered
  owed : (∃ bytes, outcome = .ok bytes ∧ (0 < remaining → bytes ≠ [])) ∨
    after.inner.Since st.inner.log.length (OwedTo given after.inner.arrived remaining outcome)
  not_panicked : ∀ panic, outcome ≠ .error (.Panicked panic)

-- The inner stream was read from.
structure Asked (st after : VlessStream (Recorded S)) : Prop where
  log_prefix : st.inner.log <+: after.inner.log
  delivered_eq : after.inner.delivered = st.inner.delivered

theorem Asked.trans (h : st.Asked mid) (h' : mid.Asked after) : st.Asked after :=
  ⟨h.log_prefix.trans h'.log_prefix, h'.delivered_eq.trans h.delivered_eq⟩

theorem asked_of_log {room : Nat} {reply : Poll (IoResult (List UInt8))}
    (hlog : after.inner.log = st.inner.log ++ [.read room reply]) : st.Asked after :=
  ⟨⟨_, hlog.symm⟩, (Recorded.delivered_of_log hlog).trans (List.append_nil _)⟩

theorem Reads.of_asked (h : Reads given mid remaining outcome after) (hasked : st.Asked mid) :
    Reads given st remaining outcome after where
  keeps := h.keeps
  delivered_eq := h.delivered_eq.trans hasked.delivered_eq
  owed := h.owed.imp_right (·.of_le hasked.log_prefix.length_le)
  not_panicked := h.not_panicked

theorem OwedTo.arrived_eq {e : Event} (h : OwedTo given arrived remaining outcome e) :
    e.arrived = [] := by
  cases h <;> rfl

theorem OwedTo.filled_eq {e : Event} (h : OwedTo given arrived remaining outcome e) :
    (Call.read remaining outcome).filled = [] := by
  cases h with
  | pending _ houtcome | error _ _ houtcome | finished houtcome | eof _ _ houtcome =>
      rw [houtcome]
      rfl

theorem OwedTo.not_panicked {e : Event} (h : OwedTo given arrived remaining outcome e)
    (panic : Panic) : outcome ≠ .error (.Panicked panic) := by
  intro hpanic
  cases h with
  | pending _ houtcome | error _ _ houtcome | finished houtcome | eof _ _ houtcome =>
      rw [houtcome] at hpanic
      cases hpanic

theorem ok_not_panicked (bytes : List UInt8) (panic : Panic) :
    (.ok bytes : Except Exit (List UInt8)) ≠ .error (.Panicked panic) := by
  intro hpanic
  cases hpanic

-- A reply without bytes ends the read.
theorem reads_of_owed {room : Nat} {reply : Poll (IoResult (List UInt8))}
    (hkeeps : st.Keeps given) (hlog : after.inner.log = st.inner.log ++ [.read room reply])
    (hdone : after.is_handshake_done = st.is_handshake_done)
    (hbytes : after.buf.bytes = st.buf.bytes)
    (howed : OwedTo given st.inner.arrived remaining outcome (.read room reply)) :
    Reads given st remaining outcome after := by
  have harrived : after.inner.arrived = st.inner.arrived := by
    rw [Recorded.arrived_of_log hlog, howed.arrived_eq, List.append_nil]
  refine ⟨?_, (asked_of_log hlog).delivered_eq, .inr ?_, howed.not_panicked⟩
  · rw [howed.filled_eq, List.append_nil]
    cases hkeeps with
    | waiting hwaits hnil hbuf hshort =>
        exact .waiting (hdone.trans hwaits) hnil (by rw [hbytes, hbuf, harrived])
          (by rw [harrived, hshort])
    | relaying hopen hpayload =>
        exact .relaying (hdone.trans hopen) (by rw [hbytes, harrived, hpayload])
  · rw [harrived]
    exact Recorded.since_of_log (Nat.le_refl _) hlog howed

variable [AsyncStream S]

theorem read_chunk_asks (st : VlessStream (Recorded S)) :
    ∃ room reply after, 0 < room ∧ read_chunk.Returns st reply.outcome after ∧
      after.inner.log = st.inner.log ++ [.read room reply] ∧
      after.is_handshake_done = st.is_handshake_done ∧ after.buf.bytes = st.buf.bytes := by
  have hbytes : st.buf.chunk_mut.2.bytes = st.buf.bytes := BufMut.bytes_chunk_mut st.buf
  have hchunk : chunk_mut.Returns st (.ok st.buf.chunk_mut.1)
    { st with buf := st.buf.chunk_mut.2 } := .act _ st
  rcases hcall : AsyncStream.poll_read st.inner st.buf.chunk_mut.1 with ⟨reply, inner⟩
  have hread : (inner_read st.buf.chunk_mut.1).Returns { st with buf := st.buf.chunk_mut.2 }
    (.ok reply) { st with inner := inner, buf := st.buf.chunk_mut.2 } := inner_read_returns hcall
  exact ⟨_, reply, { st with inner := inner, buf := st.buf.chunk_mut.2 }, st.buf.chunk_mut_pos,
    hchunk.bind (hread.bind (forward_returns reply _)), Recorded.log_of_poll_read hcall, rfl,
    hbytes⟩

-- A round reads some bytes more and goes on, or it ends the loop.
theorem handshake_round_reads (hkeeps : st.Keeps []) (hdone : st.is_handshake_done = false) :
    (∃ mid, handshake_round.Returns st (.ok (.again ())) mid ∧ mid.Keeps [] ∧
      mid.is_handshake_done = false ∧ st.Asked mid ∧ st.buf.bytes.length < mid.buf.bytes.length) ∨
    (∃ mid, handshake_round.Returns st (.ok (.leave ())) mid ∧ mid.Keeps [] ∧
      mid.is_handshake_done = true ∧ st.Asked mid) ∨
    ∃ e after, handshake_round.Returns st (.error e) after ∧
      ∀ remaining, Reads [] st remaining (.error e) after := by
  cases hkeeps with
  | relaying hopen => exact absurd (hopen.symm.trans hdone) Bool.noConfusion
  | waiting _ _ hbuf hshort =>
      have hkeeps : st.Keeps [] := .waiting hdone rfl hbuf hshort
      obtain ⟨room, reply, mid, hroom, hread, hlog, hmid, hbytes⟩ := read_chunk_asks st
      rcases reply with (e | filled) | _
      · exact .inr (.inr ⟨.Err e, mid, hread.bind_error,
          fun _ => reads_of_owed hkeeps hlog hmid hbytes (.error room e rfl)⟩)
      · by_cases hfilled : filled = []
        · subst hfilled
          refine .inr (.inr ⟨eof_error, mid, hread.bind ?_,
            fun _ => reads_of_owed hkeeps hlog hmid hbytes (.eof room hroom rfl hshort)⟩)
          rw [if_pos rfl]
          exact .throw _ mid
        · have harrived : mid.inner.arrived = st.inner.arrived ++ filled :=
            Recorded.arrived_of_log hlog
          have hgrown : (mid.buf.advance_mut filled).bytes = mid.inner.arrived := by
            rw [harrived, ← hbuf, ← hbytes]
            rfl
          have hround : ∀ result after,
              decode_round.Returns { mid with buf := mid.buf.advance_mut filled } result after →
              handshake_round.Returns st result after := by
            intro result after hrest
            refine hread.bind ?_
            rw [if_neg hfilled]
            exact Async.Returns.bind (.act _ mid) hrest
          rcases @decode_round_returns (Recorded S)
              { mid with buf := mid.buf.advance_mut filled } with
            ⟨hnone, hdecode⟩ | ⟨buf, hsome, hdecode⟩
          · refine .inl ⟨_, hround _ _ hdecode, .waiting (hmid.trans hdone) rfl hgrown ?_,
              hmid.trans hdone, asked_of_log hlog, ?_⟩
            · rw [← hgrown]
              exact hnone
            · have hpos := List.length_pos_of_ne_nil hfilled
              rw [hgrown, harrived, hbuf, List.length_append]
              omega
          · refine .inr (.inl ⟨_, hround _ _ hdecode, .relaying rfl ?_, rfl, asked_of_log hlog⟩)
            rw [List.nil_append, ← hsome, hgrown]
      · exact .inr (.inr ⟨.Pending, mid, hread.bind_error,
          fun _ => reads_of_owed hkeeps hlog hmid hbytes (.pending room rfl)⟩)

-- The loop ends: every round that goes on makes the buffer longer, and a header that is
-- longer than the buffer may get is complete.
theorem handshake_reads (hkeeps : st.Keeps []) (hdone : st.is_handshake_done = false) :
    (∃ mid, (Async.repeat_until (fun _ => handshake_round) ()).Returns st (.ok ()) mid ∧
      mid.Keeps [] ∧ mid.is_handshake_done = true ∧ st.Asked mid) ∨
    ∃ e after, (Async.repeat_until (fun _ => handshake_round) ()).Returns st (.error e) after ∧
      ∀ remaining, Reads [] st remaining (.error e) after := by
  suffices hrounds :
      (∃ mid, Async.Rounds (fun _ : Unit => handshake_round) () st (.ok ()) mid ∧
        mid.Keeps [] ∧ mid.is_handshake_done = true ∧ st.Asked mid) ∨
      ∃ e after, Async.Rounds (fun _ : Unit => handshake_round) () st (.error e) after ∧
        ∀ remaining, Reads [] st remaining (.error e) after by
    rcases hrounds with ⟨mid, hrounds, hmid⟩ | ⟨e, after, hrounds, hreads⟩
    · exact .inl ⟨mid, hrounds.returns, hmid⟩
    · exact .inr ⟨e, after, hrounds.returns, hreads⟩
  generalize hleft : 257 - st.buf.bytes.length = left
  induction left using Nat.strong_induction_on generalizing st with
  | _ left ih =>
      rcases handshake_round_reads hkeeps hdone with
        ⟨mid, hround, hmid, hwaits, hasked, hlonger⟩ | ⟨mid, hround, hmid⟩ |
        ⟨e, after, hround, hreads⟩
      · have hlt : mid.buf.bytes.length < 257 := by
          cases hmid with
          | waiting _ _ hbuf hshort =>
              rw [hbuf]
              exact length_of_payload_none hshort
          | relaying hopen => exact absurd (hopen.symm.trans hwaits) Bool.noConfusion
        rcases ih _ (by omega) hmid hwaits rfl with ⟨last, hrest, hlast, hopen, hmore⟩ |
          ⟨e, after, hrest, hreads⟩
        · exact .inl ⟨last, .again hround hrest, hlast, hopen, hasked.trans hmore⟩
        · exact .inr ⟨e, after, .again hround hrest, fun room => (hreads room).of_asked hasked⟩
      · exact .inl ⟨mid, .leave hround, hmid⟩
      · exact .inr ⟨e, after, .error hround, hreads⟩

-- What is in the buffer is handed on first.
theorem read_payload_reads (hkeeps : st.Keeps given) (hdone : st.is_handshake_done = true)
    (remaining : Nat) :
    ∃ outcome after, (read_payload remaining).Returns st outcome after ∧
      Reads given st remaining outcome after := by
  cases hkeeps with
  | waiting hwaits => exact absurd (hdone.symm.trans hwaits) Bool.noConfusion
  | relaying _ hpayload =>
      by_cases hnil : st.buf.bytes = []
      · rcases hcall : AsyncStream.poll_read st.inner remaining with ⟨reply, inner⟩
        have hlog : inner.log = st.inner.log ++ [.read remaining reply] :=
          Recorded.log_of_poll_read hcall
        have hreturns : (read_payload remaining).Returns st reply.outcome
            { st with inner := inner } := by
          refine (Async.Returns.peek st).bind ?_
          dsimp only
          rw [if_pos hnil]
          exact (inner_read_returns hcall).bind (forward_returns reply _)
        have hall : payload st.inner.arrived = some given := by
          rw [hpayload, hnil, List.append_nil]
        have hkeeps : st.Keeps given := .relaying hdone hpayload
        have hends : OwedTo given st.inner.arrived remaining reply.outcome (.read remaining reply) →
            Reads given st remaining reply.outcome { st with inner := inner } := by
          intro howed
          exact @reads_of_owed S given _ _ st { st with inner := inner } _ _ hkeeps hlog rfl rfl
            howed
        refine ⟨_, _, hreturns, ?_⟩
        rcases reply with (e | filled) | _
        · exact hends (.error remaining e rfl)
        · by_cases hfilled : filled = []
          · subst hfilled
            exact hends (.finished rfl hall)
          · refine ⟨.relaying hdone ?_, (asked_of_log hlog).delivered_eq,
              Or.inl ⟨filled, rfl, fun _ => hfilled⟩, ok_not_panicked filled⟩
            have harrived : inner.arrived = st.inner.arrived ++ filled :=
              Recorded.arrived_of_log hlog
            rw [harrived, payload_append hall, hnil, List.append_nil]
            rfl
        · exact hends (.pending remaining rfl)
      · have hpos := List.length_pos_of_ne_nil hnil
        obtain ⟨buf, htake, hbuf⟩ := @take_buffered_returns (Recorded S) st
          (min remaining st.buf.bytes.length) (Nat.min_le_right _ _)
        refine ⟨.ok (st.buf.bytes.take (min remaining st.buf.bytes.length)),
          { st with buf := buf }, (Async.Returns.peek st).bind ?_, .relaying hdone ?_, rfl,
          Or.inl ⟨_, rfl, fun hroom => ?_⟩, ok_not_panicked _⟩
        · dsimp only
          rw [if_neg hnil]
          exact htake
        · simp only [Call.filled, hbuf, List.append_assoc, List.take_append_drop]
          exact hpayload
        · apply List.ne_nil_of_length_pos
          rw [List.length_take]
          omega

-- Every read returns, over any inner stream.
theorem poll_read_reads (hkeeps : st.Keeps given) (remaining : Nat) :
    ∃ outcome after, (poll_read remaining).Returns st outcome after ∧
      Reads given st remaining outcome after := by
  have hflag : handshake_done.Returns st (.ok st.is_handshake_done) st := .act _ st
  cases hdone : st.is_handshake_done with
  | true =>
      rw [hdone] at hflag
      obtain ⟨outcome, after, hread, hreads⟩ := read_payload_reads hkeeps hdone remaining
      exact ⟨outcome, after, hflag.bind hread, hreads⟩
  | false =>
      rw [hdone] at hflag
      obtain rfl : given = [] := by
        cases hkeeps with
        | waiting _ hgiven => exact hgiven
        | relaying hopen => exact absurd (hopen.symm.trans hdone) Bool.noConfusion
      rcases handshake_reads hkeeps hdone with ⟨mid, hhandshake, hmid, hopen, hasked⟩ |
        ⟨e, after, hhandshake, hreads⟩
      · obtain ⟨outcome, after, hread, hreads⟩ := read_payload_reads hmid hopen remaining
        exact ⟨outcome, after, hflag.bind (hhandshake.bind hread), hreads.of_asked hasked⟩
      · exact ⟨_, after, hflag.bind hhandshake.bind_error, hreads remaining⟩

-- What a call does to what is kept account of.
theorem keeps_of_step {call : Call} (hkeeps : st.Keeps given) (hstep : Step st call after) :
    after.Keeps (given ++ call.filled) ∧
      after.inner.delivered = st.inner.delivered ++ call.accepted := by
  have hasked : ∀ (inner : Recorded S) (e : Event), inner.log = st.inner.log ++ [e] →
      e.arrived = [] → Keeps (given ++ []) { st with inner := inner } := by
    intro inner e hlog harrived
    have hsame : inner.arrived = st.inner.arrived := by
      rw [Recorded.arrived_of_log hlog, harrived, List.append_nil]
    rw [List.append_nil]
    cases hkeeps with
    | waiting hdone hgiven hbuf hshort =>
        exact .waiting hdone hgiven (hbuf.trans hsame.symm) (hsame ▸ hshort)
    | relaying hdone hpayload => exact .relaying hdone (hsame ▸ hpayload)
  cases hstep with
  | read remaining outcome after hcall =>
      obtain ⟨outcome', after', hreturns, hreads⟩ := poll_read_reads hkeeps remaining
      obtain ⟨rfl, rfl⟩ := hcall.unique hreturns
      exact ⟨hreads.keeps, hreads.delivered_eq.trans (List.append_nil _).symm⟩
  | write buf outcome after hcall =>
      rcases hwrite : AsyncStream.poll_write st.inner buf with ⟨reply, inner⟩
      have hlog := Recorded.log_of_poll_write hwrite
      have hdelivered := Recorded.delivered_of_log hlog
      have hreturns : (poll_write buf).Returns st reply.outcome { st with inner := inner } := by
        refine (Async.Returns.act _ st).bind ?_
        rw [hwrite]
        exact forward_returns reply _
      obtain ⟨rfl, rfl⟩ := hcall.unique hreturns
      refine ⟨hasked inner _ hlog rfl, ?_⟩
      rcases reply with (e | n) | _ <;> exact hdelivered
  | flush outcome after hcall =>
      rcases hflush : AsyncStream.poll_flush st.inner with ⟨reply, inner⟩
      have hlog := Recorded.log_of_poll_flush hflush
      have hreturns : poll_flush.Returns st reply.outcome { st with inner := inner } := by
        refine (Async.Returns.act _ st).bind ?_
        rw [hflush]
        exact forward_returns reply _
      obtain ⟨rfl, rfl⟩ := hcall.unique hreturns
      exact ⟨hasked inner _ hlog rfl, Recorded.delivered_of_log hlog⟩
  | shutdown outcome after hcall =>
      rcases hshutdown : AsyncStream.poll_shutdown st.inner with ⟨reply, inner⟩
      have hlog := Recorded.log_of_poll_shutdown hshutdown
      have hreturns : poll_shutdown.Returns st reply.outcome { st with inner := inner } := by
        refine (Async.Returns.act _ st).bind ?_
        rw [hshutdown]
        exact forward_returns reply _
      obtain ⟨rfl, rfl⟩ := hcall.unique hreturns
      exact ⟨hasked inner _ hlog rfl, Recorded.delivered_of_log hlog⟩

variable {start : VlessStream (Recorded S)}
  {past : List (Transition (VlessStream (Recorded S)) Call)}

theorem keeps_of_run (hstart : start.Keeps []) (hdelivered : start.inner.delivered = [])
    (hrun : Run Step start past st) :
    st.Keeps (handed past) ∧ st.inner.delivered = past.flatMap (·.label.accepted) := by
  refine hrun.rule (fun past st => st.Keeps (handed past) ∧
    st.inner.delivered = past.flatMap (·.label.accepted)) ⟨hstart, hdelivered⟩ ?_
  intro past last _ ih hstep
  obtain ⟨hkeeps, htaken⟩ := keeps_of_step ih.1 hstep
  rw [handed_concat, List.flatMap_append, List.flatMap_singleton, htaken, ih.2]
  exact ⟨hkeeps, rfl⟩

-- Every read of a run ends as it should after the calls before it.
theorem reads_of_run {before later : List (Transition (VlessStream (Recorded S)) Call)}
    {t : Transition (VlessStream (Recorded S)) Call} (hstart : start.Keeps [])
    (hdelivered : start.inner.delivered = []) (hrun : Run Step start (before ++ t :: later) st)
    (hlabel : t.label = .read remaining outcome) :
    Reads (handed before) t.before remaining outcome t.after := by
  obtain ⟨hbefore, hstep⟩ := hrun.split
  rw [hlabel] at hstep
  cases hstep with
  | read _ _ _ hcall =>
      obtain ⟨outcome', after', hreturns, hreads⟩ :=
        poll_read_reads (keeps_of_run hstart hdelivered hbefore).1 remaining
      obtain ⟨rfl, rfl⟩ := hcall.unique hreturns
      exact hreads

omit [AsyncStream S] in
theorem keeps_new (io : S) : Keeps [] (.new (Recorded.new io)) := .waiting rfl rfl rfl rfl

end VlessStream

-- Over an inner stream that may do anything: in every run of calls each byte behind the
-- header of the response is handed on once and in order, and exactly the bytes that the
-- writes accepted went to the inner stream. Every read returns, none panics, and one that
-- hands nothing on passes a reply of the inner stream on, where the end of the stream is an
-- error within the header and is reported behind it only when all was handed on.
theorem vless_stream_relays {S : Type} [AsyncStream S] (io : S)
    (past : List (Transition (VlessStream (Recorded S)) Call)) (st : VlessStream (Recorded S))
    (hrun : Run VlessStream.Step (.new (.new io)) past st) :
    st.Keeps (VlessStream.handed past) ∧
    st.inner.delivered = past.flatMap (·.label.accepted) ∧
    (∀ before t later remaining outcome, past = before ++ t :: later →
      t.label = .read remaining outcome →
      (∀ panic, outcome ≠ .error (.Panicked panic)) ∧
      ((∃ bytes, outcome = .ok bytes ∧ (0 < remaining → bytes ≠ [])) ∨
        t.after.inner.Since t.before.inner.log.length
          (VlessStream.OwedTo (VlessStream.handed before) t.after.inner.arrived remaining
            outcome))) ∧
    ∀ remaining, ∃ outcome after, VlessStream.Step st (.read remaining outcome) after := by
  have hstart := VlessStream.keeps_new io
  obtain ⟨hkeeps, hdelivered⟩ := VlessStream.keeps_of_run hstart rfl hrun
  refine ⟨hkeeps, hdelivered, ?_, ?_⟩
  · rintro before t later remaining outcome rfl hlabel
    have hreads := VlessStream.reads_of_run hstart rfl hrun hlabel
    exact ⟨hreads.not_panicked, hreads.owed⟩
  · intro remaining
    obtain ⟨outcome, after, hreturns, -⟩ := VlessStream.poll_read_reads hkeeps remaining
    exact ⟨outcome, after, .read remaining outcome after hreturns⟩

-- A byte is written in front of the first read, on a channel that waits now and then.
theorem vless_stream_relays_trickle :
    ∃ past st, Run VlessStream.Step (.new (.new trickle)) past st ∧ past.length = 2 ∧
      st.inner.delivered = [7] ∧ st.Keeps (VlessStream.handed past) := by
  have hwrite : VlessStream.Step (.new (.new trickle)) (.write [7] (.ok 1))
      (.new (AsyncStream.poll_write (Recorded.new trickle) [7]).2) := by
    refine .write _ _ _ ((Async.Returns.act _ _).bind ?_)
    exact forward_returns (.Ready (.ok 1)) _
  have hfirst := Run.nil.next hwrite
  obtain ⟨-, -, -, hread⟩ := vless_stream_relays trickle _ _ hfirst
  obtain ⟨outcome, after, hstep⟩ := hread 1
  have hrun := hfirst.next hstep
  obtain ⟨hkeeps, hdelivered, -, -⟩ := vless_stream_relays trickle _ _ hrun
  exact ⟨_, after, hrun, rfl, hdelivered, hkeeps⟩

end AlphaRay
