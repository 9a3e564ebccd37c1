import AlphaRay.Protocol.Tls.Delivery
import AlphaRay.Protocol.Tls.Reads

namespace AlphaRay

open Lib Async

namespace TlsStream

section Total

variable {S C : Type} [AsyncStream S] [Connection C]

theorem flush_round_total : Total (flush_round : Async (TlsStream S C) Exit (Pass Unit Unit)) := by
  refine .bind (.act _) fun wants => ?_
  cases wants with
  | false => exact .pure _
  | true =>
      refine .bind (.act _) fun result => ?_
      rcases result with e | n
      · exact .throw _
      · by_cases hzero : n = 0
        · simp only [hzero, if_true]
          exact .bind (.act _) fun _ => .pure _
        · simp only [hzero, if_false]
          exact .pure _

variable [SendLaws C]

-- A round that goes on has shortened the queue.
theorem flush_round_shorter (st : TlsStream S C) :
    Triple (· = st) flush_round (fun pass now => pass = .again () →
      (SendLaws.outgoing now.session).queue.length <
        (SendLaws.outgoing st.session).queue.length) fun _ _ => True := by
  refine flush_round_rule (fun _ _ _ => nofun) ?_
  rintro st reply inner rfl hwants hcall
  rcases reply with (e | n) | _
  · trivial
  · by_cases hzero : n = 0
    · simp only [hzero, if_true]
      exact nofun
    · intro _
      have hle := AsyncStream.le_length_of_poll_write st.inner
        (Connection.sendable st.session) n (by rw [hcall])
      have hfront := (SendLaws.sendable_le st.session).length_le
      simp only [after_write, SendLaws.outgoing_sent st.session n hle, List.length_drop]
      omega
  · trivial

theorem flush_tls_total : Total (flush_tls : Async (TlsStream S C) Exit Unit) :=
  .repeat_until (fun st => (SendLaws.outgoing st.session).queue.length)
    (fun _ => flush_round_total)
    (fun _ _ st _ hround => (flush_round_shorter st).of_returns rfl hround rfl) ()

theorem drive_tls_readable_total :
    Total (drive_tls_readable : Async (TlsStream S C) Exit Unit) := by
  refine .bind flush_tls_total fun _ => .bind (.act _) fun result => ?_
  rcases result with e | n
  · exact .throw _
  · by_cases hzero : n = 0
    · simp only [hzero, if_true]
      exact .act _
    · simp only [hzero, if_false]
      refine .bind (.act _) fun result => ?_
      rcases result with e | _
      · exact .throw _
      · exact flush_tls_total

end Total

end TlsStream

namespace Observed

open TlsStream

variable {S C : Type} [AsyncStream S] [Connection C] [SendLaws C]

section Writable

variable {accepts : S → Prop} {plain buf : List UInt8} {st : Observed S C}

-- A stream past its handshake, over an inner stream that takes bytes.
structure Writable (accepts : S → Prop) (plain : List UInt8) (st : Observed S C) : Prop where
  accepting : accepts st.inner.stream
  eof_eq : st.eof = false
  open_eq : Connection.is_handshaking st.session = false
  balanced : st.Balanced
  handed_eq : st.session.handed = plain

theorem flush_tls_accepted (haccepts : Accepting accepts) :
    Triple (Writable (C := C) accepts plain) flush_tls
      (fun _ st => Writable accepts plain st ∧ Connection.wants_write st.session = false)
      fun _ _ => False := by
  refine flush_tls_rule (fun st h hwants => ⟨h, hwants⟩) ?_
  intro st reply inner h hwants hcall
  obtain ⟨n, next, htaken, hpos, hnext⟩ :=
    haccepts st.inner.stream (Connection.sendable st.session) h.accepting (sendable_ne_nil hwants)
  have hreply := Recorded.poll_write_eq htaken
  rw [hcall] at hreply
  cases hreply
  have hzero : n ≠ 0 := by omega
  simp only [hzero, if_false]
  constructor
  · exact hnext
  · simp [after_write, h.eof_eq, hzero]
  · rw [is_handshaking_after_write, h.open_eq]
  · exact balanced_after_write h.balanced hcall
  · rw [handed_after_write, h.handed_eq]

theorem flush_tls_returns (haccepts : Accepting accepts) (h : Writable accepts plain st) :
    ∃ after, flush_tls.Returns st (.ok ()) after ∧ Writable accepts plain after ∧
      Connection.wants_write after.session = false := by
  obtain ⟨result, after, hreturns⟩ := flush_tls_total st
  have hpost := (flush_tls_accepted haccepts).of_returns h hreturns
  rcases result with e | _
  · cases hpost
  · exact ⟨after, hreturns, hpost⟩

omit [SendLaws C] in
theorem try_flush_returns {after : Observed S C} (h : flush_tls.Returns st (.ok ()) after) :
    try_flush.Returns st (.ok ()) after := .bind (.attempt h) (.pure _ _)

-- After the handshake a write is taken and sent at once.
theorem poll_write_returns (haccepts : Accepting accepts) (hbuf : buf ≠ [])
    (h : Writable accepts plain st) : ∃ n after, 0 < n ∧
      (poll_write buf).Returns st (.ok n) after ∧
      Writable accepts (plain ++ buf.take n) after ∧
      Connection.wants_write after.session = false := by
  obtain ⟨ready, hfirst, hready, hwants⟩ := flush_tls_returns haccepts h
  have hqueue := (wants_write_eq_false_iff ready.session).mp hwants
  obtain ⟨n, hpos, hok⟩ :=
    SendLaws.writer_write_of_queue_nil ready.session buf hready.open_eq hqueue hbuf
  rcases hwrite : Connection.writer_write ready.session buf with ⟨result, session⟩
  rw [hwrite] at hok
  obtain rfl : result = .ok n := hok
  have hwrote : Writable accepts (plain ++ buf.take n) { ready with session := session } := by
    have hhanded := Logged.handed_of_log (Logged.log_of_writer_write hwrite)
    have hadds := SendLaws.adds_writer_write ready.session buf n (by rw [hwrite])
    have hopen := SendLaws.is_handshaking_writer_write ready.session buf
    rw [hwrite] at hadds hopen
    constructor
    · exact hready.accepting
    · exact hready.eof_eq
    · exact hopen.trans hready.open_eq
    · rw [Balanced, hhanded]
      exact hready.balanced.adds hadds
    · rw [hhanded, hready.handed_eq]
      rfl
  obtain ⟨after, hlast, hafter, hdone⟩ := flush_tls_returns haccepts hwrote
  have hzero : n ≠ 0 := by omega
  refine ⟨n, after, hpos, ?_, hafter, hdone⟩
  refine .bind (eof_flag_returns h.eof_eq) ?_
  simp only [Bool.false_eq_true, if_false]
  refine .bind (complete_handshake_returns h.open_eq) (.bind (try_flush_returns hfirst) ?_)
  simp only [hbuf, if_false]
  refine Rounds.returns (.leave (.bind (.act _ ready) ?_))
  simp only [hwrite, hzero, if_false]
  exact .bind (try_flush_returns hlast) (.pure _ _)

end Writable

end Observed

end AlphaRay
