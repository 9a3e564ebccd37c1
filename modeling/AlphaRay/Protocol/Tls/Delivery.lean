import AlphaRay.Lib.Run
import AlphaRay.Protocol.Tls.Pending
import AlphaRay.Protocol.Tls.Writes

namespace AlphaRay

open Lib Async

namespace Observed

open TlsStream

variable {S C : Type} [AsyncStream S] [Connection C] [SendLaws C]

-- The session's records against what the inner stream took and the writer was handed.
def Balanced (st : Observed S C) : Prop :=
  (SendLaws.outgoing st.session).Balanced st.inner.delivered st.session.handed

-- Plaintext is held back at most after an end of the stream during the handshake.
def Released (st : Observed S C) : Prop :=
  st.eof = false → (SendLaws.outgoing st.session).held = []

section Writing

variable {st : Observed S C} {reply : Poll (IoResult Nat)} {inner : Recorded S}

theorem balanced_after_write (h : st.Balanced)
    (hcall : AsyncStream.poll_write st.inner (Connection.sendable st.session) = (reply, inner)) :
    Balanced (st.after_write reply inner) := by
  have hdelivered := Recorded.delivered_of_log (Recorded.log_of_poll_write hcall)
  rw [Balanced, handed_after_write, inner_after_write, hdelivered]
  rcases reply with (e | n) | _
  · simpa only [after_write, Event.taken, List.append_nil, Balanced] using h
  · have hle := AsyncStream.le_length_of_poll_write st.inner (Connection.sendable st.session) n
      (by rw [hcall])
    simp only [after_write, SendLaws.outgoing_sent st.session n hle, Event.taken,
      take_sendable st.session hle]
    exact h.drop
  · simpa only [after_write, Event.taken, List.append_nil, Balanced] using h

theorem records_after_write
    (hcall : AsyncStream.poll_write st.inner (Connection.sendable st.session) = (reply, inner)) :
    (SendLaws.outgoing (st.after_write reply inner).session).records =
      (SendLaws.outgoing st.session).records ∧
    (SendLaws.outgoing (st.after_write reply inner).session).held =
      (SendLaws.outgoing st.session).held := by
  rcases reply with (e | n) | _
  · exact ⟨rfl, rfl⟩
  · have hle := AsyncStream.le_length_of_poll_write st.inner (Connection.sendable st.session) n
      (by rw [hcall])
    simp only [after_write, SendLaws.outgoing_sent st.session n hle, and_self]
  · exact ⟨rfl, rfl⟩

end Writing

section Acts

variable [ReceiveLaws C] {zero : Bool} {call : Call} {st next : Observed S C}

omit [ReceiveLaws C] in
theorem outgoing_of_prepare_read {session next : Logged C} {reply : IoResult (Option Nat)}
    (h : Connection.prepare_read session = (reply, next)) :
    SendLaws.outgoing next = SendLaws.outgoing session := by
  have hsame := SendLaws.outgoing_prepare_read session
  rwa [h] at hsame

omit [AsyncStream S] [ReceiveLaws C] in
theorem outgoing_after_read {session : Logged C} {reply : Poll (IoResult (List UInt8))}
    {inner : Recorded S} : SendLaws.outgoing (st.after_read session reply inner).session =
      SendLaws.outgoing session := by
  rcases reply with (e | bytes) | _
  · rfl
  · exact SendLaws.outgoing_received session bytes
  · rfl

theorem balanced_of_transfer (h : Transfer zero st next) (hst : st.Balanced) :
    next.Balanced := by
  have hhanded := handed_of_transfer h
  rw [Balanced, hhanded]
  cases h with
  | write hwants hcall =>
      have hnext := balanced_after_write hst hcall
      rwa [Balanced, handed_after_write] at hnext
  | prepare_error hidle hprepare =>
      rw [outgoing_of_prepare_read hprepare]
      exact hst
  | prepare_none hidle hprepare =>
      rw [outgoing_of_prepare_read hprepare]
      exact hst
  | @read room session reply inner hidle hprepare hcall =>
      rw [outgoing_after_read, inner_after_read, outgoing_of_prepare_read hprepare,
        Recorded.delivered_of_log (Recorded.log_of_poll_read hcall), Event.taken_read, List.append_nil]
      exact hst
  | process =>
      have hnext := hst.adds (SendLaws.adds_process_new_packets st.session)
      rwa [List.append_nil] at hnext

theorem balanced_of_act (h : Act call st next) (hst : st.Balanced) : next.Balanced := by
  cases h with
  | transfer h => exact balanced_of_transfer h hst
  | reader_read =>
      rw [Balanced, SendLaws.outgoing_reader_read]
      exact hst
  | @writer_write buf outcome st hready =>
      rcases hwrite : Connection.writer_write st.session buf with ⟨e | n, session⟩
      · have hadds := SendLaws.adds_writer_write_error st.session buf e (by rw [hwrite])
        have hhanded := Logged.handed_of_log (Logged.log_of_writer_write hwrite)
        rw [hwrite] at hadds
        rw [Balanced, hhanded]
        exact hst.adds hadds
      · have hadds := SendLaws.adds_writer_write st.session buf n (by rw [hwrite])
        have hhanded := Logged.handed_of_log (Logged.log_of_writer_write hwrite)
        rw [hwrite] at hadds
        rw [Balanced, hhanded]
        exact hst.adds hadds
  | send_close_notify =>
      have hnext := hst.adds (SendLaws.adds_send_close_notify st.session)
      rwa [List.append_nil] at hnext
  | @inner_flush outcome st =>
      have hlog : (AsyncStream.poll_flush st.inner).2.log = _ := Recorded.log_of_poll_flush rfl
      rw [Balanced, Recorded.delivered_of_log hlog, Event.taken_flush, List.append_nil]
      exact hst
  | @inner_shutdown outcome st =>
      have hlog : (AsyncStream.poll_shutdown st.inner).2.log = _ :=
        Recorded.log_of_poll_shutdown rfl
      rw [Balanced, Recorded.delivered_of_log hlog, Event.taken_shutdown, List.append_nil]
      exact hst

theorem released_of_transfer (h : Transfer zero st next) (hst : st.Released) :
    next.Released := by
  intro heof
  cases h with
  | write hwants hcall =>
      rw [(records_after_write hcall).2]
      refine hst (Bool.eq_false_iff.mpr fun hend => ?_)
      rw [eof_after_write st _ _ hend] at heof
      cases heof
  | prepare_error hidle hprepare =>
      rw [outgoing_of_prepare_read hprepare]
      exact hst heof
  | prepare_none hidle hprepare => cases heof
  | @read room session reply inner hidle hprepare hcall =>
      rw [outgoing_after_read, outgoing_of_prepare_read hprepare]
      refine hst (Bool.eq_false_iff.mpr fun hend => ?_)
      rw [eof_after_read st _ _ _ hend] at heof
      cases heof
  | process => exact (SendLaws.adds_process_new_packets st.session).held_eq_nil (hst heof)

theorem released_of_act (h : Act call st next) (hst : st.Released) : next.Released := by
  cases h with
  | transfer h => exact released_of_transfer h hst
  | reader_read =>
      intro heof
      rw [SendLaws.outgoing_reader_read]
      exact hst heof
  | @writer_write buf outcome st hready =>
      intro heof
      rcases hready with hready | hend
      · exact SendLaws.held_eq_nil _ ((SendLaws.is_handshaking_writer_write _ _).trans hready)
      · rw [hend] at heof
        cases heof
  | @send_close_notify outcome st =>
      exact fun heof => (SendLaws.adds_send_close_notify st.session).held_eq_nil (hst heof)
  | inner_flush => exact hst
  | inner_shutdown => exact hst

theorem delivery_of_run {inner : S} {session : C} (hfresh : (SendLaws.outgoing session).Fresh)
    {past : List (Transition (Observed S C) Call)} {state : Observed S C}
    (hrun : Run TlsStream.Step (new inner session) past state) :
    state.Balanced ∧ state.Released := by
  refine Run.rule (fun _ (state : Observed S C) => state.Balanced ∧ state.Released) ?_ ?_ hrun
  · exact ⟨hfresh.balanced, fun _ => hfresh.held_eq⟩
  · intro past last _ ih hstep
    exact hstep.rule (fun st => Balanced st ∧ Released st)
      (fun _ _ h hact => ⟨balanced_of_act hact h.1, released_of_act hact h.2⟩) ih

end Acts

section Flush

variable (count : Nat)

-- Nothing is left to write, unless the inner stream took nothing when it was asked to.
def Drained (st : Observed S C) : Prop :=
  (Connection.wants_write st.session = false ∧ st.eof = false) ∨
    st.inner.Since count (·.isZeroWrite)

theorem flush_tls_drains :
    Triple (fun st : Observed S C => count ≤ st.inner.log.length ∧ st.eof = false) flush_tls
      (fun _ st => count ≤ st.inner.log.length ∧ Drained count st) fun _ _ => True := by
  refine flush_tls_rule (fun st h hwants => ⟨h.1, .inl ⟨hwants, h.2⟩⟩) ?_
  intro st reply inner h hwants hcall
  have hlog := Recorded.log_of_poll_write hcall
  have hcount : count ≤ inner.log.length := by
    rw [hlog, List.length_append]
    omega
  rcases reply with (e | n) | _
  · trivial
  · by_cases hzero : n = 0
    · subst hzero
      simp only [if_true]
      exact ⟨hcount, .inr (Recorded.since_of_log h.1 hlog rfl)⟩
    · simp only [hzero, if_false]
      exact ⟨hcount, by simp [after_write, h.2, hzero]⟩
  · trivial

omit [AsyncStream S] [SendLaws C] in
theorem drained_of_log {st : Observed S C} {inner : Recorded S} {e : Event}
    (hdrained : Drained count st) (hlog : inner.log = st.inner.log ++ [e]) :
    Drained count { st with inner := inner } :=
  hdrained.imp_right fun h => h.mono ⟨_, hlog.symm⟩

theorem poll_flush_drains :
    Triple (fun st : Observed S C => count ≤ st.inner.log.length ∧ st.eof = false) poll_flush
      (fun _ st => Drained count st ∧ st.inner.Since count (· = .flush (.Ready (.ok ()))))
      fun _ _ => True := by
  refine poll_flush_rule (fun st h heof => ?_) ((flush_tls_drains count).conseq
    (fun _ h => h.1) (fun _ _ h => h) fun _ _ h => h) ?_
  · rw [h.2] at heof
    cases heof
  · intro st reply inner h hcall
    have hlog := Recorded.log_of_poll_flush hcall
    rcases reply with (e | _) | _
    · trivial
    · exact ⟨drained_of_log count h.2 hlog, Recorded.since_of_log h.1 hlog rfl⟩
    · trivial

theorem poll_shutdown_drains :
    Triple (fun st : Observed S C => (count ≤ st.inner.log.length ∧ st.eof = false) ∧
        ∃ record ∈ (SendLaws.outgoing (Connection.send_close_notify st.session)).records,
          record.content = .closeNotify)
      poll_shutdown
      (fun _ st => (Drained count st ∧ st.inner.Since count (· = .shutdown (.Ready (.ok ())))) ∧
        ∃ record ∈ (SendLaws.outgoing st.session).records, record.content = .closeNotify)
      fun _ _ => True := by
  have hclosed : Triple (fun st : Observed S C => ∃ record ∈
        (SendLaws.outgoing st.session).records, record.content = .closeNotify) flush_tls
      (fun _ st => ∃ record ∈ (SendLaws.outgoing st.session).records,
        record.content = .closeNotify) fun _ _ => True := by
    refine (flush_tls_keeps ?_).conseq (fun _ h => h) (fun _ _ h => h) fun _ _ _ => trivial
    intro st reply inner h hwants hcall
    rwa [(records_after_write hcall).1]
  refine poll_shutdown_rule (fun st h heof => ?_) (fun st h _ => ⟨h.1, h.2⟩)
    (((flush_tls_drains count).and hclosed).conseq (fun _ h => h) (fun _ _ h => h)
      fun _ _ _ => trivial) ?_
  · rw [h.1.2] at heof
    cases heof
  · intro st reply inner h hcall
    have hlog := Recorded.log_of_poll_shutdown hcall
    rcases reply with (e | _) | _
    · trivial
    · exact ⟨⟨drained_of_log count h.1.2 hlog, Recorded.since_of_log h.1.1 hlog rfl⟩, h.2⟩
    · trivial

end Flush

end Observed

end AlphaRay
