import AlphaRay.Protocol.Tls.Observed

namespace AlphaRay

open Lib Async

namespace Observed

open TlsStream

variable {S C : Type} [AsyncStream S] [Connection C] [SendLaws C]

-- Nothing is left to write, or the inner stream was asked to take it and did not.
def Stalled (count : Nat) (p : Event → Prop) (st : Observed S C) : Prop :=
  Connection.wants_write st.session = false ∨ st.inner.Since count p

-- Where a call stands when it ends without success.
def Waits (count : Nat) (p : Event → Prop) (e : Exit) (st : Observed S C) : Prop :=
  count ≤ st.inner.log.length ∧ (e = .Pending → st.inner.Since count p)

-- Where reading stands when it ends without success.
def WaitsToRead (count : Nat) (e : Exit) (st : Observed S C) : Prop :=
  st.Waits count (·.isPending) e ∧ (e = .Pending → st.Stalled count (·.isStalledWrite))

omit [AsyncStream S] in
theorem wants_write_congr {session next : Logged C}
    (h : SendLaws.outgoing next = SendLaws.outgoing session) :
    Connection.wants_write next = Connection.wants_write session := by
  rw [Bool.eq_iff_iff, SendLaws.wants_write_iff, SendLaws.wants_write_iff, h]

section Pending

variable (hinner : NeverWouldBlock S) (count : Nat)
include hinner

theorem flush_tls_waits :
    Triple (fun st : Observed S C => count ≤ st.inner.log.length) flush_tls
      (fun _ st => count ≤ st.inner.log.length ∧ st.Stalled count (·.isZeroWrite))
      (Waits count fun e => e.isPending ∧ e.isStalledWrite) := by
  refine flush_tls_rule (fun st h hwants => ⟨h, .inl hwants⟩) ?_
  intro st reply inner h hwants hcall
  have hlog := Recorded.log_of_poll_write hcall
  have hcount : count ≤ inner.log.length := by
    rw [hlog, List.length_append]
    omega
  rcases reply with (e | n) | _
  · have hkind := (Recorded.neverWouldBlock hinner).poll_write st.inner
      (Connection.sendable st.session) e (by rw [hcall])
    exact ⟨hcount, fun he => absurd he (Exit.of_ne_pending hkind)⟩
  · by_cases hzero : n = 0
    · subst hzero
      simp only [if_true]
      exact ⟨hcount, .inr (Recorded.since_of_log h hlog rfl)⟩
    · simp only [hzero, if_false]
      exact hcount
  · exact ⟨hcount, fun _ => Recorded.since_of_log h hlog ⟨rfl, rfl⟩⟩

omit hinner [AsyncStream S] [SendLaws C] in
theorem waitsToRead_of_flush {e : Exit} {st : Observed S C}
    (h : st.Waits count (fun e => e.isPending ∧ e.isStalledWrite) e) : st.WaitsToRead count e :=
  ⟨⟨h.1, fun he => (h.2 he).imp fun _ hp => hp.1⟩,
    fun he => .inr ((h.2 he).imp fun _ hp => hp.2)⟩

theorem drive_tls_readable_waits [ReceiveLaws C] :
    Triple (fun st : Observed S C => count ≤ st.inner.log.length) drive_tls_readable
      (fun _ st => count ≤ st.inner.log.length) (WaitsToRead count) := by
  refine drive_tls_readable_rule ((flush_tls_waits hinner count).conseq (fun _ h => h)
    (fun _ _ h => h) fun _ _ => waitsToRead_of_flush count) ?_ ?_ ?_
    ((flush_tls_waits hinner count).conseq (fun _ h => h) (fun _ _ h => h.1)
      fun _ _ => waitsToRead_of_flush count)
  · rintro st e session ⟨h, -⟩ hprepare
    have hkind := ReceiveLaws.prepare_read_error st.session e (by rw [hprepare])
    have hne := Exit.of_ne_pending hkind
    exact ⟨⟨h, fun he => absurd he hne⟩, fun he => absurd he hne⟩
  · rintro st session ⟨h, -⟩ -
    exact h
  · rintro st room session reply inner ⟨h, hflushed⟩ hprepare hcall
    have hlog := Recorded.log_of_poll_read hcall
    have hcount : count ≤ inner.log.length := by
      rw [hlog, List.length_append]
      omega
    rcases reply with (e | bytes) | _
    · have hkind := (Recorded.neverWouldBlock hinner).poll_read st.inner room e (by rw [hcall])
      have hne := Exit.of_ne_pending hkind
      exact ⟨⟨hcount, fun he => absurd he hne⟩, fun he => absurd he hne⟩
    · by_cases hempty : bytes = []
      · simp only [hempty, if_true]
        exact hcount
      · simp only [hempty, if_false]
        rcases (Connection.process_new_packets _).1 with message | _
        · exact ⟨⟨hcount, nofun⟩, nofun⟩
        · exact hcount
    · refine ⟨⟨hcount, fun _ => Recorded.since_of_log h hlog rfl⟩, fun _ => ?_⟩
      -- what the first flush left is still there
      have hsame := SendLaws.outgoing_prepare_read st.session
      rw [hprepare] at hsame
      rcases hflushed with hwants | hzero
      · exact .inl (by rw [← hwants]; exact wants_write_congr hsame)
      · exact .inr ((hzero.mono ⟨_, hlog.symm⟩).imp fun _ => Event.isStalledWrite_of_isZeroWrite)

theorem complete_handshake_waits [ReceiveLaws C] :
    Triple (fun st : Observed S C => count ≤ st.inner.log.length) complete_handshake
      (fun _ st => count ≤ st.inner.log.length) (WaitsToRead count) :=
  complete_handshake_rule (fun _ h _ => h) ((drive_tls_readable_waits hinner count).conseq
    (fun _ h => h.1) (fun _ _ h => h) fun _ _ h => h)

theorem poll_read_waits [ReceiveLaws C] (remaining : Nat) :
    Triple (fun st : Observed S C => count ≤ st.inner.log.length) (poll_read remaining)
      (fun _ st => count ≤ st.inner.log.length) (WaitsToRead count) := by
  refine poll_read_rule (fun _ h _ => h) ((complete_handshake_waits hinner count).conseq
    (fun _ h => h.1) (fun _ _ h => h) fun _ _ h => h) (fun _ h _ => h) ?_
    (drive_tls_readable_waits hinner count)
  intro st result session h _ _
  rcases result with e | bytes
  · by_cases hblock : e.kind = .WouldBlock
    · simpa only [ends_error, hblock, if_true] using h
    · simp only [ends_error, hblock, if_false]
      exact ⟨⟨h, nofun⟩, nofun⟩
  · by_cases hempty : bytes = []
    · simpa only [ends_ok, hempty, if_true] using h
    · simpa only [ends_ok, hempty, if_false] using h

theorem poll_write_waits [ReceiveLaws C] (buf : List UInt8) :
    Triple (fun st : Observed S C => count ≤ st.inner.log.length) (poll_write buf)
      (fun _ st => count ≤ st.inner.log.length) (Waits count (·.isPending)) := by
  have hflush : Triple (fun st : Observed S C => count ≤ st.inner.log.length) flush_tls
      (fun _ st => count ≤ st.inner.log.length) (Waits count (·.isPending)) :=
    (flush_tls_waits hinner count).conseq (fun _ h => h) (fun _ _ h => h.1)
      fun _ _ h => ⟨h.1, fun he => (h.2 he).imp fun _ hp => hp.1⟩
  have hskipped : Triple (fun st : Observed S C => count ≤ st.inner.log.length) flush_tls
      (fun _ st => count ≤ st.inner.log.length)
      fun e st => if e = .Pending then count ≤ st.inner.log.length
        else Waits count (·.isPending) e st := by
    refine hflush.conseq (fun _ h => h) (fun _ _ h => h) ?_
    intro e st h
    split
    · exact h.1
    · exact h
  refine poll_write_rule (fun _ h _ => h) ((complete_handshake_waits hinner count).conseq
    (fun _ h => h.1) (fun _ _ h => h) fun _ _ h => h.1) hskipped (fun _ h _ => h) ?_ hflush
    (fun n => hskipped)
  intro st result session h _ _
  rcases result with e | n
  · by_cases hblock : e.kind = .WouldBlock
    · simpa only [ends_error, hblock, if_true] using h
    · simp only [ends_error, hblock, if_false]
      exact ⟨h, nofun⟩
  · by_cases hempty : n = 0
    · simpa only [ends_ok, hempty, if_true] using h
    · simpa only [ends_ok, hempty, if_false] using h

theorem poll_flush_waits :
    Triple (fun st : Observed S C => count ≤ st.inner.log.length) poll_flush
      (fun _ st => count ≤ st.inner.log.length) (Waits count (·.isPending)) := by
  refine poll_flush_rule (fun _ h _ => h) ((flush_tls_waits hinner count).conseq
    (fun _ h => h.1) (fun _ _ h => h.1)
    fun _ _ h => ⟨h.1, fun he => (h.2 he).imp fun _ hp => hp.1⟩) ?_
  intro st reply inner h hcall
  have hlog := Recorded.log_of_poll_flush hcall
  have hcount : count ≤ inner.log.length := by
    rw [hlog, List.length_append]
    omega
  rcases reply with (e | _) | _
  · exact ⟨hcount, nofun⟩
  · exact hcount
  · exact ⟨hcount, fun _ => Recorded.since_of_log h hlog rfl⟩

theorem poll_shutdown_waits :
    Triple (fun st : Observed S C => count ≤ st.inner.log.length) poll_shutdown
      (fun _ st => count ≤ st.inner.log.length) (Waits count (·.isPending)) := by
  refine poll_shutdown_rule (fun _ h _ => h) (fun _ h _ => h) ((flush_tls_waits hinner count).conseq
    (fun _ h => h) (fun _ _ h => h.1)
    fun _ _ h => ⟨h.1, fun he => (h.2 he).imp fun _ hp => hp.1⟩) ?_
  intro st reply inner h hcall
  have hlog := Recorded.log_of_poll_shutdown hcall
  have hcount : count ≤ inner.log.length := by
    rw [hlog, List.length_append]
    omega
  rcases reply with (e | _) | _
  · exact ⟨hcount, nofun⟩
  · exact hcount
  · exact ⟨hcount, fun _ => Recorded.since_of_log h hlog rfl⟩

end Pending

end Observed

end AlphaRay
