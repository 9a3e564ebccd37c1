import AlphaRay.Io.Scripted
import AlphaRay.Lib.Run
import AlphaRay.Protocol.Tls.Reads
import AlphaRay.Rustls.NullCipher

namespace AlphaRay

open Lib Async

-- The read side of the inner stream has ended.
def Recorded.Ended {S : Type} (io : Recorded S) : Prop :=
  ∃ room, 0 < room ∧ .read room (.Ready (.ok [])) ∈ io.log

-- Only a read of nothing is the end.
theorem Recorded.ended_of_log {S : Type} {io next : Recorded S} {e : Event}
    (hlog : next.log = io.log ++ [e]) (he : ∀ room, e ≠ .read room (.Ready (.ok [])))
    (h : next.Ended) : io.Ended := by
  obtain ⟨room, hpos, hmem⟩ := h
  rw [hlog] at hmem
  rcases List.mem_append.mp hmem with hmem | hmem
  · exact ⟨room, hpos, hmem⟩
  · exact absurd (List.mem_singleton.mp hmem).symm (he room)

namespace Observed

open TlsStream

variable {S C : Type} [AsyncStream S] [Connection C] {st next after : Observed S C}

-- It ended, and no close_notify was processed.
structure Truncated [ReceiveLaws C] (st : Observed S C) : Prop where
  ended : st.inner.Ended
  open_eq : (ReceiveLaws.incoming st.session).closed = false

-- The end is known to the stream and to the session.
def Noticed [ReceiveLaws C] (st : Observed S C) : Prop :=
  st.inner.Ended → st.eof = true ∧ (ReceiveLaws.incoming st.session).ended = true

section Reading

variable [SendLaws C]

theorem flush_tls_before_end :
    Triple (fun st : Observed S C => ¬ st.inner.Ended) flush_tls (fun _ st => ¬ st.inner.Ended)
      fun _ st => ¬ st.inner.Ended := by
  apply flush_tls_keeps
  intro st reply inner h _ hcall
  rw [inner_after_write]
  exact mt (Recorded.ended_of_log (Recorded.log_of_poll_write hcall) fun _ he => by cases he) h

theorem drive_tls_readable_before_end :
    Triple (fun st : Observed S C => ¬ st.inner.Ended) drive_tls_readable
      (fun _ st => st.inner.Ended → st.eof = true) fun _ st => ¬ st.inner.Ended := by
  have hlast : Triple (fun st : Observed S C => ¬ st.inner.Ended) flush_tls
      (fun _ st => st.inner.Ended → st.eof = true) fun _ st => ¬ st.inner.Ended :=
    flush_tls_before_end.conseq (fun _ h => h) (fun _ _ h hended => absurd hended h) fun _ _ h => h
  apply drive_tls_readable_rule flush_tls_before_end _ _ _ hlast
  · exact fun _ _ _ h _ => h
  · exact fun _ _ _ _ _ => rfl
  · intro st room session reply inner h _ hcall
    have hlog := Recorded.log_of_poll_read hcall
    rcases reply with (e | bytes) | _
    · exact mt (Recorded.ended_of_log hlog fun _ he => by cases he) h
    · by_cases hempty : bytes = []
      · simp only [hempty, if_true]
        intro _
        simp [after_read]
      · have hnext : ¬ inner.Ended := by
          refine mt (Recorded.ended_of_log hlog ?_) h
          intro room' he
          cases he
          exact hempty rfl
        simp only [hempty, if_false]
        exact (ends_same _).mpr hnext
    · exact mt (Recorded.ended_of_log hlog fun _ he => by cases he) h

-- A read ends without bytes whenever the inner stream has ended.
theorem poll_read_at_end (remaining : Nat) :
    Triple (fun st : Observed S C => st.inner.Ended → st.eof = true) (poll_read remaining)
      (fun bytes st => st.inner.Ended → bytes = []) fun _ st => ¬ st.inner.Ended := by
  have hbefore : ∀ st : Observed S C, (st.inner.Ended → st.eof = true) → st.eof = false → ¬ st.inner.Ended := by
    intro st h heof hended
    rw [h hended] at heof
    cases heof
  have hhandshake : Triple
      (fun st : Observed S C => (st.inner.Ended → st.eof = true) ∧ st.eof = false) complete_handshake
      (fun _ st => st.inner.Ended → st.eof = true) fun _ st => ¬ st.inner.Ended := by
    have hloop : Triple (fun st : Observed S C => st.inner.Ended → st.eof = true) complete_handshake
        (fun _ st => st.inner.Ended → st.eof = true) fun _ st => ¬ st.inner.Ended :=
      complete_handshake_rule (fun _ h _ => h) (drive_tls_readable_before_end.conseq
        (fun st h => hbefore st h.1 h.2.2) (fun _ _ h => h) fun _ _ h => h)
    exact hloop.conseq (fun _ h => h.1) (fun _ _ h => h) fun _ _ h => h
  apply poll_read_rule _ hhandshake _ _ drive_tls_readable_before_end
  · exact fun _ _ _ _ => rfl
  · exact fun _ _ _ _ => rfl
  · intro st result session h heof _
    have hst := hbefore st h heof
    rcases result with e | bytes
    · by_cases hblock : e.kind = .WouldBlock
      · simpa only [ends_error, hblock, if_true] using hst
      · simpa only [ends_error, hblock, if_false] using hst
    · by_cases hempty : bytes = []
      · simpa only [ends_ok, hempty, if_true] using hst
      · simp only [ends_ok, hempty, if_false]
        exact fun hended => absurd hended hst

end Reading

section Runs

variable [ReceiveLaws C] {zero : Bool} {call : Call}

omit [AsyncStream S] in
theorem Noticed.of_imp (h : st.Noticed) (hended : next.inner.Ended → st.inner.Ended)
    (heof : st.eof = true → next.eof = true)
    (hsame : (ReceiveLaws.incoming next.session).ended =
      (ReceiveLaws.incoming st.session).ended) : next.Noticed := by
  intro hnext
  obtain ⟨hst, hsession⟩ := h (hended hnext)
  exact ⟨heof hst, hsame.trans hsession⟩

theorem noticed_of_transfer (h : Transfer zero st next) (hst : st.Noticed) : next.Noticed := by
  cases h with
  | @write reply inner hwants hcall =>
      apply hst.of_imp
      · rw [inner_after_write]
        exact Recorded.ended_of_log (Recorded.log_of_poll_write hcall) fun _ he => by cases he
      · exact eof_after_write st reply inner
      · rw [incoming_after_write]
  | prepare_error hidle hprepare =>
      exact hst.of_imp id id (by rw [incoming_of_prepare_read hprepare])
  | prepare_none hidle hprepare =>
      exact hst.of_imp id (fun _ => rfl) (by rw [incoming_of_prepare_read hprepare])
  | @read room session reply inner hidle hprepare hcall =>
      by_cases hempty : reply = .Ready (.ok [])
      · subst hempty
        intro _
        rw [incoming_after_read]
        simp [after_read]
      · apply hst.of_imp
        · rw [inner_after_read]
          refine Recorded.ended_of_log (Recorded.log_of_poll_read hcall) fun _ he => ?_
          cases he
          exact hempty rfl
        · exact eof_after_read st session reply inner
        · rw [incoming_after_read, incoming_of_prepare_read hprepare]
          simp [hempty]
  | process =>
      obtain ⟨more, -, -, hsame, -⟩ := ReceiveLaws.incoming_process_new_packets st.session
      exact hst.of_imp id id hsame

variable [SendLaws C] {inner : S} {session : C} {past : List (Transition (Observed S C) Call)}

theorem noticed_of_step (h : Step st call after) (hst : st.Noticed) : after.Noticed := by
  refine h.rule (fun now : Observed S C => now.Noticed) ?_ hst
  intro now next hnow hact
  cases hact with
  | transfer h => exact noticed_of_transfer h hnow
  | reader_read => exact hnow.of_imp id id (ended_reader_read _ _)
  | writer_write => exact hnow.of_imp id id (by rw [ReceiveLaws.incoming_writer_write])
  | send_close_notify => exact hnow.of_imp id id (by rw [ReceiveLaws.incoming_send_close_notify])
  | inner_flush =>
      refine hnow.of_imp ?_ id rfl
      exact Recorded.ended_of_log (Recorded.log_of_poll_flush rfl) fun _ he => by cases he
  | inner_shutdown =>
      refine hnow.of_imp ?_ id rfl
      exact Recorded.ended_of_log (Recorded.log_of_poll_shutdown rfl) fun _ he => by cases he

theorem noticed_of_run (hrun : Run Step (new inner session) past st) : st.Noticed := by
  refine hrun.rule (fun _ now => now.Noticed) ?_ fun _ _ _ ih hstep => noticed_of_step hstep ih
  intro hended
  obtain ⟨room, -, hmem⟩ := hended
  exact absurd hmem List.not_mem_nil

end Runs

end Observed

open Observed

-- However the stream was cut, the read that comes upon it ends as at a clean end of the
-- stream, while the reader of the session would report it.
theorem tls_truncation_unreported {S C : Type} [AsyncStream S] [Connection C] [SendLaws C]
    [ReceiveLaws C] (inner : S) (session : C) (past : List (Transition (Observed S C) Call))
    (state : Observed S C) (hrun : Run TlsStream.Step (new inner session) past state) :
    ∀ t ∈ past, ∀ remaining outcome, t.label = .read remaining outcome → Truncated t.after →
      outcome = .ok [] ∧
      ((ReceiveLaws.incoming t.after.session).plaintext = [] → ∀ len, 0 < len →
        ∃ e, (Connection.reader_read t.after.session len).1 = .error e ∧
          e.kind = .UnexpectedEof) := by
  refine hrun.forall_mem (fun t => ∀ remaining outcome, t.label = .read remaining outcome →
    Truncated t.after → outcome = .ok [] ∧
      ((ReceiveLaws.incoming t.after.session).plaintext = [] → ∀ len, 0 < len →
        ∃ e, (Connection.reader_read t.after.session len).1 = .error e ∧
          e.kind = .UnexpectedEof)) ?_
  intro before t hbefore hstep remaining outcome hlabel htruncated
  have hnoticed := noticed_of_run hbefore
  obtain ⟨-, hended⟩ := noticed_of_run (hbefore.next hstep) htruncated.ended
  constructor
  · rw [hlabel] at hstep
    obtain ⟨fuel, hread⟩ := hstep
    have hpost := poll_read_at_end remaining fuel t.before outcome t.after
      (fun h => (hnoticed h).1) hread
    rcases outcome with e | bytes
    · exact absurd htruncated.ended hpost
    · exact congrArg Except.ok (hpost htruncated.ended)
  · intro hplain len hpos
    rcases hread : Connection.reader_read t.after.session len with ⟨result, next⟩
    obtain ⟨-, ⟨-, hclosed⟩ | ⟨e, rfl, -, hkind⟩⟩ := reader_read_of_nil hpos hplain hread
    · rw [htruncated.open_eq] at hclosed
      cases hclosed
    · exact ⟨e, rfl, by rw [hkind, hended, if_pos rfl]⟩

-- A client whose connection is cut inside a record, after the handshake.
def severedClient : Observed Scripted NullCipher :=
  new ⟨[.Ready (.ok [0]), .Ready (.ok [1]), .Ready (.ok [])], []⟩ (NullCipher.new false 8 8)

theorem tls_truncation_reads_as_end : ¬ ∀ past state,
    Run TlsStream.Step severedClient past state → ∀ t ∈ past, ∀ remaining outcome,
      t.label = .read remaining outcome → Truncated t.after →
      ∃ e, outcome = .error (.Err e) := by
  intro hreports
  obtain ⟨after, hread, htruncated⟩ : ∃ after,
      TlsStream.Step severedClient (.read 4 (.ok [])) after ∧ Truncated after :=
    ⟨_, ⟨8, rfl⟩, ⟨16, by decide, by decide⟩, rfl⟩
  obtain ⟨e, he⟩ := hreports _ after (Run.nil.next hread) _ (List.mem_singleton_self _) 4 (.ok [])
    rfl htruncated
  cases he

theorem tls_truncation_unreported_in_record : ∃ after,
    TlsStream.Step severedClient (.read 4 (.ok [])) after ∧
    ∃ e, (Connection.reader_read after.session 4).1 = .error e ∧ e.kind = .UnexpectedEof := by
  obtain ⟨after, hread, htruncated, hplain⟩ : ∃ after,
      TlsStream.Step severedClient (.read 4 (.ok [])) after ∧ Truncated after ∧
      (ReceiveLaws.incoming after.session).plaintext = [] :=
    ⟨_, ⟨8, rfl⟩, ⟨⟨16, by decide, by decide⟩, rfl⟩, rfl⟩
  refine ⟨after, hread, ?_⟩
  exact (tls_truncation_unreported (Scripted.mk [.Ready (.ok [0]), .Ready (.ok [1]),
    .Ready (.ok [])] []) (NullCipher.new false 8 8) _ after (Run.nil.next hread) _
    (List.mem_singleton_self _) 4 (.ok []) rfl htruncated).2 hplain 4 (by decide)

end AlphaRay
