import AlphaRay.Protocol.Tls.Observed

namespace AlphaRay

open Lib Async

def Call.isWrite : Call → Bool
  | .write _ _ => true
  | _ => false

namespace Observed

open TlsStream

variable {S C : Type} [AsyncStream S] [Connection C]

omit [AsyncStream S] in
theorem handed_after_write (st : Observed S C) (reply : Poll (IoResult Nat))
    (inner : Recorded S) : (st.after_write reply inner).session.handed = st.session.handed := by
  rcases reply with (e | n) | _ <;> rfl

variable [SendLaws C] [ReceiveLaws C] {zero : Bool} {call : Call} {st next after : Observed S C}

omit [SendLaws C] in
theorem handed_of_transfer (h : Transfer zero st next) :
    next.session.handed = st.session.handed := by
  cases h with
  | write hwants hcall => exact handed_after_write st _ _
  | prepare_error hidle hprepare =>
      rw [Logged.handed_of_log (Logged.log_of_prepare_read hprepare)]
      exact List.append_nil _
  | prepare_none hidle hprepare =>
      rw [Logged.handed_of_log (Logged.log_of_prepare_read hprepare)]
      exact List.append_nil _
  | @read room session reply inner hidle hprepare hcall =>
      have hhanded : session.handed = st.session.handed := by
        rw [Logged.handed_of_log (Logged.log_of_prepare_read hprepare)]
        exact List.append_nil _
      rcases reply with (e | bytes) | _
      · exact hhanded
      · rw [← hhanded]
        exact (Logged.handed_of_log (Logged.log_received session bytes)).trans (List.append_nil _)
      · exact hhanded
  | process =>
      exact (Logged.handed_of_log (Logged.log_process_new_packets st.session)).trans
        (List.append_nil _)

theorem handed_append (h : Step st call after) :
    after.session.handed = st.session.handed ++ handed st after := by
  obtain ⟨more, hmore⟩ := (grown_of_step h).2
  simp [Logged.handed, handed, sessionEvents, ← hmore]

-- Only a write hands plaintext to the session.
theorem handed_of_step (hcall : call.isWrite = false) (h : Step st call after) :
    handed st after = [] := by
  have hsame : after.session.handed = st.session.handed := by
    refine h.rule (fun now : Observed S C => now.session.handed = st.session.handed) ?_ rfl
    intro now next hnow hact
    rw [← hnow]
    cases hact with
    | transfer h => exact handed_of_transfer h
    | reader_read => rfl
    | writer_write => cases hcall
    | send_close_notify => rfl
    | inner_flush => rfl
    | inner_shutdown => rfl
  have happend := handed_append h
  rw [hsame] at happend
  simpa using happend

omit [ReceiveLaws C] in
theorem flush_tls_hands (plain : List UInt8) :
    Triple (fun st : Observed S C => st.session.handed = plain) flush_tls
      (fun _ st => st.session.handed = plain) fun e st => st.session.handed = plain ∧
        (e = .Pending ∨ ∃ error, e = .Err error) := by
  refine flush_tls_rule (fun st h _ => h) ?_
  intro st reply inner h hwants hcall
  have hnext : (st.after_write reply inner).session.handed = plain := by
    rw [handed_after_write, h]
  rcases reply with (e | n) | _
  · exact ⟨hnext, (Exit.of_cases e).imp_right fun h => ⟨e, h⟩⟩
  · by_cases hzero : n = 0
    · simpa only [hzero, if_true] using hnext
    · simpa only [hzero, if_false] using hnext
  · exact ⟨hnext, .inl rfl⟩

omit [ReceiveLaws C] in
-- The same for a flush that is not waited for, in a call that had `before` at its start.
theorem skipped_flush_hands (before plain : List UInt8) :
    Triple (fun st : Observed S C => st.session.handed = plain) flush_tls
      (fun _ st => st.session.handed = plain)
      fun e st => if e = .Pending then st.session.handed = plain
        else st.session.handed = before ∨ ∃ error, e = .Err error := by
  refine (flush_tls_hands plain).conseq (fun _ h => h) (fun _ _ h => h) ?_
  intro e st h
  by_cases he : e = .Pending
  · simpa only [he, if_true] using h.1
  · simp only [he, if_false]
    exact .inr (h.2.resolve_left he)

-- A write that fails may have handed over plaintext before it failed.
theorem poll_write_hands (buf before : List UInt8) :
    Triple (fun st : Observed S C => st.session.handed = before) (poll_write buf)
      (fun n st => st.session.handed = before ++ buf.take n)
      fun e st => st.session.handed = before ∨ ∃ error, e = .Err error := by
  have hhandshake : Triple (fun st : Observed S C => st.session.handed = before ∧ st.eof = false)
      complete_handshake (fun _ st => st.session.handed = before)
      fun e st => st.session.handed = before ∨ ∃ error, e = .Err error := by
    have hkeep : ∀ st next : Observed S C, st.session.handed = before →
        Transfer false st next → next.session.handed = before := by
      intro st next h ht
      rw [handed_of_transfer ht, h]
    exact (complete_handshake_keeps hkeep).conseq (fun _ h => h.1) (fun _ _ h => h.1)
      fun _ _ h => .inl h
  refine poll_write_rule (fun st h _ => by simpa using h) hhandshake
    (skipped_flush_hands before before) (fun st h hnil => by simpa [hnil] using h) ?_
    ((flush_tls_hands before).conseq (fun _ h => h) (fun _ _ h => h) fun _ _ h => .inl h.1)
    fun n => skipped_flush_hands before (before ++ buf.take n)
  intro st result session h _ hwrite
  have hhanded := Logged.handed_of_log (Logged.log_of_writer_write hwrite)
  rw [h] at hhanded
  rcases result with e | n
  · have hsame : session.handed = before := hhanded.trans (List.append_nil _)
    by_cases hblock : e.kind = .WouldBlock
    · simpa only [ends_error, hblock, if_true] using hsame
    · simp only [ends_error, hblock, if_false]
      exact .inl hsame
  · by_cases hzero : n = 0
    · simp only [ends_ok, hzero, if_true]
      exact hhanded.trans (by simp [SessionEvent.handed, hzero])
    · simp only [ends_ok, hzero, if_false]
      exact hhanded

-- What was handed over and what was reported as accepted.
theorem accepted_eq_handed (hcall : call.failed = false) (h : Step st call after) :
    handed st after = call.accepted := by
  cases call with
  | write buf outcome =>
      have happend := handed_append h
      obtain ⟨fuel, hrun⟩ := h
      have hpost := poll_write_hands buf st.session.handed fuel st outcome after rfl hrun
      rcases outcome with e | n
      · rcases hpost with hpost | ⟨error, rfl⟩
        · rw [hpost] at happend
          simpa [Call.accepted] using happend
        · cases hcall
      · rw [hpost] at happend
        exact (List.append_cancel_left happend).symm
  | read remaining outcome => exact handed_of_step rfl h
  | flush outcome => exact handed_of_step rfl h
  | shutdown outcome => exact handed_of_step rfl h

theorem accepted_prefix_handed (h : Step st call after) : call.accepted <+: handed st after := by
  by_cases hcall : call.failed = true
  · have hnil : call.accepted = [] := by
      cases call with
      | write buf outcome =>
          rcases outcome with e | n
          · rfl
          · cases hcall
      | read remaining outcome => rfl
      | flush outcome => rfl
      | shutdown outcome => rfl
    rw [hnil]
    exact List.nil_prefix
  · have heq := accepted_eq_handed (Bool.not_eq_true _ ▸ hcall) h
    simp only [heq, List.prefix_rfl]

end Observed

end AlphaRay
