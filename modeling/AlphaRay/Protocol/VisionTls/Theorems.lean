import AlphaRay.Protocol.VisionTls.Pending
import AlphaRay.Protocol.VisionTls.RoundTrip

namespace AlphaRay

open Lib Async

namespace ObservedVision

variable {S C R : Type} [AsyncStream S] [Connection C] [Rng R] {st after : ObservedVision S C R}

-- A read leaves output behind that it found or that it made.
theorem unsent_of_read [SendLaws C] [ReceiveLaws C] {remaining : Nat}
    {outcome : Except Exit (List UInt8)}
    (hstep : VisionTlsStream.Step st (.read remaining outcome) after) :
    (∀ bytes reply, .write bytes reply ∉ events st after) ∧
    (Connection.wants_write after.session = false ↔
      Connection.wants_write st.session = false ∧
        ∀ f ∈ sessionEvents st after, ¬ f.Answers) := by
  obtain ⟨fuel, hread⟩ := hstep
  have hquiet : Quiet st after := by
    have hpost := read_quiet remaining fuel st outcome after (Quiet.refl st) hread
    rcases outcome with e | bytes
    · exact hpost
    · exact hpost
  obtain ⟨es, fs, hextends, hwrites, hqueue⟩ := hquiet
  rw [hextends.events_eq, hextends.sessionEvents_eq, wants_write_eq_false_iff,
    wants_write_eq_false_iff]
  refine ⟨?_, hqueue⟩
  intro bytes reply hmem
  cases hwrites _ hmem

-- Only a read may wait without a call of the inner stream that waits.
theorem held_of_step [ReceiveLaws C] (hinner : NeverWouldBlock S) {call : Call}
    (hpending : call.isPending = true) (hstep : VisionTlsStream.Step st call after) :
    (∃ e ∈ events st after, e.isPending = true) ↔
      (call.isRead = true → ∀ f ∈ sessionEvents st after, ¬ f.Starves) := by
  have hwaits : ∀ {α : Type} {m : Async (ObservedVision S C R) Exit α} {fuel : Nat},
      Triple (fun now => st.inner.log.length ≤ now.inner.log.length) m (fun _ _ => True)
        (Waits st.inner.log.length) → m.run fuel st = some (.error .Pending, after) →
      ∃ e ∈ events st after, e.isPending = true :=
    fun htriple hrun => htriple _ st _ after (Nat.le_refl _) hrun rfl
  rcases Call.cases_of_isPending hpending with ⟨remaining, rfl⟩ | ⟨buf, rfl⟩ | rfl | rfl
  · obtain ⟨fuel, hread⟩ := hstep
    have hheld : Held st after :=
      read_held hinner remaining fuel st _ after (Awake.refl st) hread rfl
    simpa only [Held, Call.isRead, forall_const] using hheld
  · obtain ⟨fuel, hwrite⟩ := hstep
    exact iff_of_true (hwaits (poll_write_waits hinner _ buf) hwrite) fun hread => by cases hread
  · obtain ⟨fuel, hflush⟩ := hstep
    exact iff_of_true (hwaits (poll_flush_waits hinner _) hflush) fun hread => by cases hread
  · obtain ⟨fuel, hshutdown⟩ := hstep
    exact iff_of_true (hwaits (poll_shutdown_waits hinner _) hshutdown) fun hread => by
      cases hread

end ObservedVision

open ObservedVision

-- A read that waits has nothing left to send, if and only if it found nothing to send
-- and no message that it processed asked for an answer.
theorem vision_read_flushed_iff {S C R : Type} [AsyncStream S] [Connection C] [SendLaws C]
    [ReceiveLaws C] [Rng R] (inner : S) (session : C) (ids : List Uuid) (rng : R)
    (padding : PaddingConfig) (past : List (Transition (ObservedVision S C R) Call))
    (state : ObservedVision S C R)
    (hrun : Run VisionTlsStream.Step (new inner session ids rng padding) past state) :
    ∀ t ∈ past, ∀ remaining, t.label = .read remaining (.error .Pending) →
      ((Connection.wants_write t.after.session = false ∨
          ∃ bytes, .write bytes .Pending ∈ events t.before t.after) ↔
        (Connection.wants_write t.before.session = false ∧
          ∀ f ∈ sessionEvents t.before t.after, ¬ f.Answers)) := by
  refine hrun.forall_mem (fun t => ∀ remaining, t.label = .read remaining (.error .Pending) →
    ((Connection.wants_write t.after.session = false ∨
        ∃ bytes, .write bytes .Pending ∈ events t.before t.after) ↔
      (Connection.wants_write t.before.session = false ∧
        ∀ f ∈ sessionEvents t.before t.after, ¬ f.Answers))) ?_
  intro _ last _ hstep remaining hlabel
  rw [hlabel] at hstep
  obtain ⟨hwrites, hiff⟩ := unsent_of_read hstep
  rw [← hiff, or_iff_left]
  rintro ⟨bytes, hmem⟩
  exact hwrites bytes .Pending hmem

-- A client that speaks first, and a server that reads first.
def speakingClient : ObservedVision Scripted NullCipher Lowest :=
  new ⟨[], []⟩ (NullCipher.new false 64 8) [idOfSevens] ⟨⟩ paddingOfThree

def listeningServer : ObservedVision Scripted NullCipher Lowest :=
  new ⟨[.Ready (.ok [0])], []⟩ (NullCipher.new true 64 8) [idOfSevens] ⟨⟩ paddingOfThree

-- The server reads what the client sent and then waits with its own flight unsent, and
-- so does the client for that flight.
theorem vision_read_stuck : ∃ sent waiting stuck,
    VisionTlsStream.Step speakingClient (.write [9] (.ok 1)) sent ∧
    events speakingClient sent = [.write [0] (.Ready (.ok 1))] ∧
    VisionTlsStream.Step sent (.read 4 (.error .Pending)) waiting ∧
    VisionTlsStream.Step listeningServer (.read 4 (.error .Pending)) stuck ∧
    ¬ (Connection.wants_write stuck.session = false ∨
      ∃ bytes, .write bytes .Pending ∈ events listeningServer stuck) := by
  obtain ⟨sent, waiting, stuck, hwrite, hsent, hread, hstuck, hevents, hwants⟩ :
      ∃ sent waiting stuck,
        VisionTlsStream.Step speakingClient (.write [9] (.ok 1)) sent ∧
        events speakingClient sent = [.write [0] (.Ready (.ok 1))] ∧
        VisionTlsStream.Step sent (.read 4 (.error .Pending)) waiting ∧
        VisionTlsStream.Step listeningServer (.read 4 (.error .Pending)) stuck ∧
        events listeningServer stuck = [.read 16 (.Ready (.ok [0]))] ∧
        Connection.wants_write stuck.session = true :=
    ⟨_, _, _, ⟨8, rfl⟩, rfl, ⟨8, rfl⟩, ⟨8, rfl⟩, rfl, rfl⟩
  refine ⟨sent, waiting, stuck, hwrite, hsent, hread, hstuck, ?_⟩
  rw [hwants, hevents]
  simp

-- The same server when it is flushed before it reads on.
theorem vision_read_flushed_second : ∃ stuck sent waiting,
    VisionTlsStream.Step listeningServer (.read 4 (.error .Pending)) stuck ∧
    VisionTlsStream.Step stuck (.flush (.ok ())) sent ∧
    VisionTlsStream.Step sent (.read 4 (.error .Pending)) waiting ∧
    (Connection.wants_write waiting.session = false ∨
      ∃ bytes, .write bytes .Pending ∈ events sent waiting) := by
  obtain ⟨stuck, sent, waiting, hfirst, hflush, hsecond, hwants, hanswers⟩ :
      ∃ stuck sent waiting,
        VisionTlsStream.Step listeningServer (.read 4 (.error .Pending)) stuck ∧
        VisionTlsStream.Step stuck (.flush (.ok ())) sent ∧
        VisionTlsStream.Step sent (.read 4 (.error .Pending)) waiting ∧
        Connection.wants_write sent.session = false ∧
        ∀ f ∈ sessionEvents sent waiting, ¬ f.Answers :=
    ⟨_, _, _, ⟨8, rfl⟩, ⟨8, rfl⟩, ⟨8, rfl⟩, rfl, by decide⟩
  have hrun := ((Run.nil.next hfirst).next hflush).next hsecond
  refine ⟨stuck, sent, waiting, hfirst, hflush, hsecond, ?_⟩
  exact (vision_read_flushed_iff (Scripted.mk [.Ready (.ok [0])] []) (NullCipher.new true 64 8)
    [idOfSevens] (Lowest.mk) paddingOfThree _ waiting hrun _
    (List.mem_append_right _ (List.mem_singleton_self _)) 4 rfl).mpr ⟨hwants, hanswers⟩

-- A call that waits made a call of the inner stream that waits, unless it is a read and
-- something that it processed left neither plaintext to read nor the end.
theorem vision_pending_iff {S C R : Type} [AsyncStream S] [Connection C] [ReceiveLaws C] [Rng R]
    (hinner : NeverWouldBlock S) (inner : S) (session : C) (ids : List Uuid) (rng : R)
    (padding : PaddingConfig) (past : List (Transition (ObservedVision S C R) Call))
    (state : ObservedVision S C R)
    (hrun : Run VisionTlsStream.Step (new inner session ids rng padding) past state) :
    ∀ t ∈ past, t.label.isPending = true →
      ((∃ e ∈ events t.before t.after, e.isPending = true) ↔
        (t.label.isRead = true → ∀ f ∈ sessionEvents t.before t.after, ¬ f.Starves)) :=
  hrun.forall_mem (fun t => t.label.isPending = true →
    ((∃ e ∈ events t.before t.after, e.isPending = true) ↔
      (t.label.isRead = true → ∀ f ∈ sessionEvents t.before t.after, ¬ f.Starves)))
    fun _ _ _ hstep hpending => held_of_step hinner hpending hstep

-- A server that is given its first record in two pieces.
def piecewiseServer : ObservedVision Scripted NullCipher Lowest :=
  new ⟨[.Ready (.ok [0]), .Ready (.ok [1]), .Ready (.ok [7])], []⟩ (NullCipher.new true 64 8)
    [idOfSevens] ⟨⟩ paddingOfThree

-- After the first piece the read waits, while the second one is ready.
theorem vision_wakeup_lost : ∃ opened after,
    VisionTlsStream.Step piecewiseServer (.read 4 (.error .Pending)) opened ∧
    Connection.is_handshaking opened.session = false ∧
    VisionTlsStream.Step opened (.read 4 (.error .Pending)) after ∧
    ¬ (∃ e ∈ events opened after, e.isPending = true) ∧
    (AsyncStream.poll_read after.inner.stream 16).1 = .Ready (.ok [7]) :=
  ⟨_, _, ⟨8, rfl⟩, rfl, ⟨8, rfl⟩, by decide, rfl⟩

-- A client whose inner stream has nothing to read yet.
theorem vision_pending_first_read : ∃ after,
    VisionTlsStream.Step speakingClient (.read 4 (.error .Pending)) after ∧
    ∃ e ∈ events speakingClient after, e.isPending = true := by
  obtain ⟨after, hread, hfed⟩ : ∃ after,
      VisionTlsStream.Step speakingClient (.read 4 (.error .Pending)) after ∧
      ∀ f ∈ sessionEvents speakingClient after, ¬ f.Starves :=
    ⟨_, ⟨8, rfl⟩, by decide⟩
  refine ⟨after, hread, ?_⟩
  exact (vision_pending_iff Scripted.neverWouldBlock (Scripted.mk [] [])
    (NullCipher.new false 64 8) [idOfSevens] (Lowest.mk) paddingOfThree _ after
    (Run.nil.next hread) _ (List.mem_singleton_self _) rfl).mpr fun _ => hfed

end AlphaRay
