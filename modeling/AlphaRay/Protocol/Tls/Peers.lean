import AlphaRay.Protocol.Peers.NullCipher
import AlphaRay.Protocol.Tls.Delivery
import AlphaRay.Protocol.Tls.Theorems

namespace AlphaRay

open Lib Async

namespace Observed

open TlsStream

variable {S C : Type} [AsyncStream S] [Connection C] [SendLaws C] [ReceiveLaws C]

-- A stream as one end of a connection: it sends what its inner stream takes.
def party : Party (Observed S C) Call UInt8 where
  Step := TlsStream.Step
  sent st := st.inner.delivered
  got st := st.inner.arrived

def fed (st : Observed S C) (settled : Bool) : Fed C :=
  ⟨st.session.session, st.inner.arrived, settled⟩

variable {st next after : Observed S C} {call : Call} {first : Fed C} {settled : Prop}

-- The session with what arrived for it, all of it processed if `settled`.
def Heard (first : Fed C) (settled : Prop) (st : Observed S C) : Prop :=
  first.Reaches settled st.session.session st.inner.arrived

-- After a call that ended with an error something may be left unprocessed.
def Ends (first : Fed C) (settled : Prop) (e : Exit) : Observed S C → Prop :=
  Heard first (settled ∧ e.isErr = false)

omit [AsyncStream S] [SendLaws C] [ReceiveLaws C] in
theorem Heard.ends (h : Heard first settled st) (e : Exit) : Ends first settled e st :=
  h.mono And.left

omit [SendLaws C] [ReceiveLaws C] in
theorem Heard.after_write (h : Heard first settled st) {reply : Poll (IoResult Nat)}
    {inner : Recorded S} (hcall : AsyncStream.poll_write st.inner
      (Connection.sendable st.session) = (reply, inner)) :
    Heard first settled (st.after_write reply inner) := by
  have harrived : inner.arrived = st.inner.arrived :=
    (Recorded.arrived_of_log (Recorded.log_of_poll_write hcall)).trans (List.append_nil _)
  have hsame : Heard first settled { st with inner := inner } := by
    rw [Heard, harrived]
    exact h
  rcases reply with (e | n) | _
  · exact hsame
  · have hle := AsyncStream.le_length_of_poll_write st.inner (Connection.sendable st.session) n
      (by rw [hcall])
    exact hsame.step fun _ => .sent n hle
  · exact hsame

omit [ReceiveLaws C] in
theorem flush_tls_heard : Triple (Heard (S := S) first settled) flush_tls
    (fun _ => Heard first settled) (Ends first settled) := by
  refine flush_tls_rule (fun _ h _ => h) ?_
  intro st reply inner h _ hcall
  have hnext := h.after_write hcall
  rcases reply with (e | n) | _
  · exact hnext.ends _
  · by_cases hzero : n = 0
    · simpa only [hzero, if_true] using hnext
    · simpa only [hzero, if_false] using hnext
  · exact hnext.ends _

omit [AsyncStream S] [SendLaws C] [ReceiveLaws C] in
theorem Heard.prepare_read (h : Heard first settled st) {reply : IoResult (Option Nat)}
    {session : Logged C} (hprepare : Connection.prepare_read st.session = (reply, session)) :
    Heard first settled { st with session := session } :=
  Fed.Reaches.prepare_read h (congrArg (fun p => (p.1, p.2.session)) hprepare)

omit [SendLaws C] [ReceiveLaws C] in
theorem Heard.after_read (h : Heard first settled st) {room : Nat} {session : Logged C}
    {reply : Poll (IoResult (List UInt8))} {inner : Recorded S}
    (hprepare : Connection.prepare_read st.session = (.ok (some room), session))
    (hcall : AsyncStream.poll_read st.inner room = (reply, inner)) :
    Heard first (settled ∧ ∀ bytes, reply = .Ready (.ok bytes) → bytes = [])
      (st.after_read session reply inner) := by
  have harrived := Recorded.arrived_of_log (Recorded.log_of_poll_read hcall)
  have hsilent : (Event.read room reply).arrived = [] →
      Heard first settled { st with inner := inner, session := session } := by
    intro hnone
    rw [Heard, harrived, hnone, List.append_nil]
    exact h.prepare_read hprepare
  rcases reply with (e | bytes) | _
  · exact (hsilent rfl).mono And.left
  · have hle := AsyncStream.length_le_of_poll_read st.inner room bytes (by rw [hcall])
    have hread := Fed.Reaches.received h (congrArg (fun p => (p.1, p.2.session)) hprepare) hle
    change Fed.Reaches _ _ _ inner.arrived
    rw [harrived]
    exact hread.mono fun hquiet => ⟨hquiet.1, hquiet.2 bytes rfl⟩
  · exact (hsilent rfl).mono And.left

omit [ReceiveLaws C] in
-- What is read is processed before anything else is done.
theorem drive_tls_readable_heard : Triple (Heard (S := S) first settled) drive_tls_readable
    (fun _ => Heard first settled) (Ends first settled) := by
  refine drive_tls_readable_rule flush_tls_heard
    (fun st e session h hprepare => (h.prepare_read hprepare).ends _)
    (fun st session h hprepare => h.prepare_read hprepare) ?_ flush_tls_heard
  intro st room session reply inner h hprepare hcall
  have hread := h.after_read hprepare hcall
  rcases reply with (e | bytes) | _
  · exact hread.mono fun hsettled => ⟨hsettled.1, fun _ hreply => by cases hreply⟩
  · by_cases hempty : bytes = []
    · simp only [hempty, if_true] at hread ⊢
      exact hread.mono fun hsettled => ⟨hsettled, fun bytes hreply => by cases hreply; rfl⟩
    · simp only [hempty, if_false]
      have hprocess := Fed.Reaches.process hread
      rcases hresult : (Connection.process_new_packets
          (st.after_read session (.Ready (.ok bytes)) inner).session).1 with e | _
      · exact hprocess.mono fun hsettled => by cases hsettled.2
      · exact hprocess.mono fun _ => hresult
  · exact hread.mono fun hsettled => ⟨hsettled.1, fun _ hreply => by cases hreply⟩

omit [ReceiveLaws C] in
theorem complete_handshake_heard : Triple (Heard (S := S) first settled) complete_handshake
    (fun _ => Heard first settled) (Ends first settled) :=
  complete_handshake_rule (fun _ h _ => h)
    (drive_tls_readable_heard.conseq (fun _ h => h.1) (fun _ _ h => h) fun _ _ h => h)

omit [ReceiveLaws C] in
theorem poll_read_heard (remaining : Nat) : Triple (Heard (S := S) first settled)
    (poll_read remaining) (fun _ => Heard first settled) (Ends first settled) := by
  refine poll_read_rule (fun _ h _ => h)
    (complete_handshake_heard.conseq (fun _ h => h.1) (fun _ _ h => h) fun _ _ h => h)
    (fun _ h _ => h) ?_ drive_tls_readable_heard
  intro st result session h _ hread
  have hnext : Heard first settled { st with session := session } := by
    cases hread
    exact Fed.Reaches.step h fun _ => .reader_read remaining
  rcases result with e | bytes
  · by_cases hblock : e.kind = .WouldBlock
    · simpa only [ends_error, hblock, if_true] using hnext
    · simpa only [ends_error, hblock, if_false] using hnext.ends _
  · simpa only [ends_ok, ite_self] using hnext

omit [ReceiveLaws C] in
theorem try_flush_heard : Triple (Heard (S := S) first settled) flush_tls
    (fun _ => Heard first settled)
    fun e st => if e = .Pending then Heard first settled st else Ends first settled e st := by
  refine flush_tls_heard.conseq (fun _ h => h) (fun _ _ h => h) ?_
  intro e st h
  by_cases he : e = .Pending
  · have hquiet : Heard first settled st := h.mono fun hsettled => ⟨hsettled, by rw [he]; rfl⟩
    simpa only [he, if_true] using hquiet
  · simpa only [he, if_false] using h

omit [ReceiveLaws C] in
theorem poll_write_heard (buf : List UInt8) : Triple (Heard (S := S) first settled)
    (poll_write buf) (fun _ => Heard first settled) (Ends first settled) := by
  refine poll_write_rule (fun _ h _ => h)
    (complete_handshake_heard.conseq (fun _ h => h.1) (fun _ _ h => h) fun _ _ h => h)
    try_flush_heard (fun _ h _ => h) ?_ flush_tls_heard fun _ => try_flush_heard
  intro st result session h _ hwrite
  have hnext : Heard first settled { st with session := session } := by
    cases hwrite
    exact Fed.Reaches.step h fun _ => .writer_write buf
  rcases result with e | n
  · by_cases hblock : e.kind = .WouldBlock
    · simpa only [ends_error, hblock, if_true] using hnext
    · simpa only [ends_error, hblock, if_false] using hnext.ends _
  · simpa only [ends_ok, ite_self] using hnext

omit [ReceiveLaws C] in
theorem poll_flush_heard : Triple (Heard (S := S) first settled) poll_flush
    (fun _ => Heard first settled) (Ends first settled) := by
  refine poll_flush_rule (fun _ h _ => h)
    (flush_tls_heard.conseq (fun _ h => h.1) (fun _ _ h => h) fun _ _ h => h) ?_
  intro st reply inner h hcall
  have hnext : Heard first settled { st with inner := inner } := by
    rw [Heard, Recorded.arrived_of_log (Recorded.log_of_poll_flush hcall)]
    exact (List.append_nil st.inner.arrived).symm ▸ h
  rcases reply with (e | _) | _
  · exact hnext.ends _
  · exact hnext
  · exact hnext.ends _

omit [ReceiveLaws C] in
theorem poll_shutdown_heard : Triple (Heard (S := S) first settled) poll_shutdown
    (fun _ => Heard first settled) (Ends first settled) := by
  have hclose : ∀ st : Observed S C, Heard first settled st → st.eof = false →
      Heard first settled { st with session := Connection.send_close_notify st.session } :=
    fun st h _ => Fed.Reaches.step h fun _ => .send_close_notify
  refine poll_shutdown_rule (fun _ h _ => h) hclose flush_tls_heard ?_
  intro st reply inner h hcall
  have hnext : Heard first settled { st with inner := inner } := by
    rw [Heard, Recorded.arrived_of_log (Recorded.log_of_poll_shutdown hcall)]
    exact (List.append_nil st.inner.arrived).symm ▸ h
  rcases reply with (e | _) | _
  · exact hnext.ends _
  · exact hnext
  · exact hnext.ends _

omit [ReceiveLaws C] in
-- A call leaves nothing unprocessed unless it fails.
theorem heard_of_step (h : Heard first settled st) (hstep : TlsStream.Step st call after) :
    Heard first (settled ∧ call.failed = false) after := by
  have hends : ∀ {α : Type} {m : Async (Observed S C) Exit α} {outcome : Except Exit α},
      Triple (Heard first settled) m (fun _ => Heard first settled) (Ends first settled) →
      (∃ fuel, m.run fuel st = some (outcome, after)) →
      (∀ e, outcome = .error e → call.failed = e.isErr) →
      Heard first (settled ∧ call.failed = false) after := by
    intro α m outcome htriple hruns hfailed
    obtain ⟨fuel, hrun⟩ := hruns
    have hpost := htriple fuel st outcome after h hrun
    rcases outcome with e | a
    · rw [hfailed e rfl]
      exact hpost
    · exact hpost.mono And.left
  cases call with
  | read remaining outcome =>
      exact hends (poll_read_heard remaining) hstep fun e he => by cases he; cases e <;> rfl
  | write buf outcome =>
      exact hends (poll_write_heard buf) hstep fun e he => by cases he; cases e <;> rfl
  | flush outcome => exact hends poll_flush_heard hstep fun e he => by cases he; cases e <;> rfl
  | shutdown outcome =>
      exact hends poll_shutdown_heard hstep fun e he => by cases he; cases e <;> rfl

theorem party_follows : Follows (party (S := S) (C := C)) Fed.party
    fun past st fed => st.Balanced ∧ ∃ settled, fed = st.fed settled ∧
      ((∀ call ∈ past, call.failed = false) → settled = true) := by
  refine ⟨?_, ?_, ?_⟩
  · rintro past st _ call next ⟨hbalanced, settled, rfl, hsettled⟩ hstep
    have hstart : Heard (st.fed settled) (settled = true) st := ⟨settled, .refl, id⟩
    obtain ⟨now, hsteps, hnow⟩ := heard_of_step hstart hstep
    refine ⟨next.fed now, hsteps, ?_, now, rfl, ?_⟩
    · exact TlsStream.Step.rule (fun st => Balanced st) (fun _ _ h hact => balanced_of_act hact h)
        hbalanced hstep
    · intro hcalls
      refine hnow ⟨hsettled fun call hmem => hcalls call (List.mem_append_left _ hmem), ?_⟩
      exact hcalls call (List.mem_append_right _ (List.mem_singleton_self _))
  · rintro _ st _ ⟨-, settled, rfl, -⟩
    rfl
  · rintro _ st _ ⟨hbalanced, settled, rfl, -⟩
    exact ⟨_, hbalanced.1⟩

-- A write hands over what it accepts, and before it fails some front part of its bytes.
theorem poll_write_sends (buf before : List UInt8) :
    Triple (fun st : Observed S C => st.session.handed = before) (poll_write buf)
      (fun n st => st.session.handed = before ++ buf.take n)
      fun _ st => ∃ part, part <+: buf ∧ st.session.handed = before ++ part := by
  have hnone : ∀ st : Observed S C, st.session.handed = before →
      ∃ part, part <+: buf ∧ st.session.handed = before ++ part := by
    intro st h
    exact ⟨[], List.nil_prefix, by simpa using h⟩
  have hhandshake : Triple (fun st : Observed S C => st.session.handed = before ∧ st.eof = false)
      complete_handshake (fun _ st => st.session.handed = before)
      fun _ st => ∃ part, part <+: buf ∧ st.session.handed = before ++ part := by
    have hkeep : ∀ st next : Observed S C, st.session.handed = before →
        Transfer false st next → next.session.handed = before := by
      intro st next h ht
      rw [handed_of_transfer ht, h]
    exact (complete_handshake_keeps hkeep).conseq (fun _ h => h.1) (fun _ _ h => h.1)
      fun _ st h => hnone st h
  have hfirst := (flush_tls_hands (S := S) (C := C) before).conseq (fun _ h => h) (fun _ _ h => h)
    fun _ st h => h.1
  refine poll_write_rule (fun st h _ => by simpa using h) hhandshake
    (hfirst.conseq (fun _ h => h) (fun _ _ h => h) fun e st h => ?_)
    (fun st h hnil => by simpa [hnil] using h) ?_
    (hfirst.conseq (fun _ h => h) (fun _ _ h => h) fun _ st h => hnone st h)
    fun n => (flush_tls_hands (before ++ buf.take n)).conseq (fun _ h => h) (fun _ _ h => h)
      fun e st h => ?_
  · by_cases he : e = .Pending
    · simpa only [he, if_true] using h
    · simpa only [he, if_false] using hnone st h
  · intro st result session h _ hwrite
    have hhanded := Logged.handed_of_log (Logged.log_of_writer_write hwrite)
    rw [h] at hhanded
    rcases result with e | n
    · have hsame : session.handed = before := hhanded.trans (List.append_nil _)
      by_cases hblock : e.kind = .WouldBlock
      · simpa only [ends_error, hblock, if_true] using hsame
      · simpa only [ends_error, hblock, if_false] using hnone { st with session := session } hsame
    · by_cases hzero : n = 0
      · simp only [ends_ok, hzero, if_true]
        exact hhanded.trans (by simp [SessionEvent.handed, hzero])
      · simp only [ends_ok, hzero, if_false]
        exact hhanded
  · by_cases he : e = .Pending
    · simpa only [he, if_true] using h.1
    · simpa only [he, if_false] using ⟨buf.take n, List.take_prefix _ _, h.1⟩

theorem sends_of_step (h : TlsStream.Step st call after) : call.Sends (handed st after) := by
  by_cases hfailed : call.failed = true
  · cases call with
    | write buf outcome =>
        have happend := handed_append h
        obtain ⟨fuel, hrun⟩ := h
        have hpost := poll_write_sends buf st.session.handed fuel st outcome after rfl hrun
        rcases outcome with (_ | e | _) | n
        · cases hfailed
        · obtain ⟨part, hpart, hhanded⟩ := hpost
          obtain rfl := List.append_cancel_left (happend.symm.trans hhanded)
          exact hpart
        · cases hfailed
        · cases hfailed
    | read remaining outcome => exact handed_of_step rfl h
    | flush outcome => exact handed_of_step rfl h
    | shutdown outcome => exact handed_of_step rfl h
  · have hok : call.failed = false := Bool.not_eq_true _ ▸ hfailed
    exact (Call.sends_accepted hok).mpr (accepted_eq_handed hok h)

theorem sends_of_run {start st : Observed S C} {past : List (Transition (Observed S C) Call)}
    (hstart : start.session.handed = []) (hrun : Run TlsStream.Step start past st) :
    Sends (past.map (·.label)) st.session.handed := by
  refine hrun.rule (fun past st => Sends (past.map (·.label)) st.session.handed) ?_ ?_
  · rw [hstart]
    exact ⟨[], .nil, rfl⟩
  · intro past last _ ih hstep
    rw [List.map_append, handed_append hstep]
    exact ih.concat (sends_of_step hstep)

end Observed

open Observed

section EndToEnd

variable {S C : Type} [AsyncStream S] [Connection C] [SendLaws C] [ReceiveLaws C]

variable {io : Side → S} {session : Side → C} {states : Side → Observed S C}
  {past : List (Transition (Side → Observed S C) (Side × Call))}

theorem feds_of_run (hnew : ∀ side, NewSession (session side))
    (hrun : Run (party.Joint Side.peer) (fun side => Observed.new (io side) (session side)) past
      states) :
    ∃ feds, Fed.Together (session .client) (session .server) feds ∧
      ∀ side, (states side).Balanced ∧ ∃ settled, feds side = (states side).fed settled ∧
        ((∀ call ∈ (own side past).map (·.label), call.failed = false) → settled = true) := by
  refine party_follows.joint (fun _ _ _ => Fed.arrived_of_step) (fun side => side.peer_ne) ?_ hrun
  intro side
  refine ⟨(hnew side).outgoing_fresh.balanced, true, ?_, fun _ => rfl⟩
  cases side with
  | client => rfl
  | server => rfl

theorem Observed.relayed_of_run (hsecure : Fed.Secure (session .client) (session .server))
    (hnew : ∀ side, NewSession (session side))
    (hrun : Run (party.Joint Side.peer) (fun side => Observed.new (io side) (session side)) past
      states) : Relayed fun side => (own side past).map (·.label) := by
  intro side
  obtain ⟨feds, htogether, hfeds⟩ := feds_of_run hnew hrun
  obtain ⟨-, settled, hfed, -⟩ := hfeds side
  obtain ⟨hbalanced, settled', hpeer, -⟩ := hfeds side.peer
  have hdecrypted := hsecure.decrypted_front feds htogether side
  rw [hfed, hpeer] at hdecrypted
  refine ⟨_, sends_of_run rfl (run_own hrun side.peer), ?_⟩
  rw [List.flatMap_map]
  calc (own side past).flatMap (·.label.filled)
      <+: (ReceiveLaws.incoming (states side).session).decrypted :=
        ⟨_, (given_of_run (hnew side).incoming_eq (run_own hrun side)).1.symm⟩
    _ <+: plainOf (SendLaws.outgoing (states side.peer).session).records := hdecrypted
    _ <+: (states side.peer).session.handed := ⟨_, hbalanced.2⟩

-- Whatever the calls of the two owners and their order, what one of them has read is a
-- front part of what the other has written.
theorem tls_end_to_end (io : Side → S) (session : Side → C)
    (hsecure : Fed.Secure (session .client) (session .server))
    (hnew : ∀ side, NewSession (session side))
    (past : List (Transition (Side → Observed S C) (Side × Call))) (states : Side → Observed S C)
    (hrun : Run (party.Joint Side.peer) (fun side => Observed.new (io side) (session side)) past
      states) (side : Side) :
    ∃ sent, Sends ((own side.peer past).map (·.label)) sent ∧
      (own side past).flatMap (·.label.filled) <+: sent := by
  obtain ⟨sent, hsent, hfilled⟩ := relayed_of_run hsecure hnew hrun side
  rw [List.flatMap_map] at hfilled
  exact ⟨sent, hsent, hfilled⟩

-- And nothing is lost: once everything one of them sent has arrived, what it has written is
-- what the other has read and what the session of the other still has to read.
theorem tls_nothing_lost (io : Side → S) (session : Side → C)
    (hsecure : Fed.Secure (session .client) (session .server))
    (hnew : ∀ side, NewSession (session side))
    (past : List (Transition (Side → Observed S C) (Side × Call))) (states : Side → Observed S C)
    (hrun : Run (party.Joint Side.peer) (fun side => Observed.new (io side) (session side)) past
      states) (hcalls : ∀ t ∈ past, t.label.2.failed = false) (side : Side)
    (hopen : Connection.is_handshaking (states side.peer).session = false)
    (hflushed : Connection.wants_write (states side.peer).session = false)
    (harrived : (states side).inner.arrived = (states side.peer).inner.delivered)
    (hclosed : (ReceiveLaws.incoming (states side).session).closed = false) :
    (own side.peer past).flatMap (·.label.accepted) =
      (own side past).flatMap (·.label.filled) ++
        (ReceiveLaws.incoming (states side).session).plaintext := by
  have hown := own_not_failed hcalls
  obtain ⟨feds, htogether, hfeds⟩ := feds_of_run hnew hrun
  obtain ⟨-, settled, hfed, hsettled⟩ := hfeds side
  obtain ⟨hbalanced, settled', hpeer, -⟩ := hfeds side.peer
  have hqueue := (wants_write_eq_false_iff _).mp hflushed
  have hheld := SendLaws.held_eq_nil _ hopen
  have hdelivered := hbalanced.1
  rw [hqueue, List.append_nil] at hdelivered
  have hdecrypted := hsecure.decrypted_all feds htogether side
  rw [hfed, hpeer] at hdecrypted
  have hall : (ReceiveLaws.incoming (states side).session).decrypted =
      plainOf (SendLaws.outgoing (states side.peer).session).records :=
    hdecrypted (hsettled (hown side)) (harrived.trans hdelivered) hclosed
  calc (own side.peer past).flatMap (·.label.accepted)
      = (states side.peer).session.handed := by
        have hsends := (sends_of_run rfl (run_own hrun side.peer)).eq_accepted (hown side.peer)
        rw [hsends, List.flatMap_map]
    _ = (ReceiveLaws.incoming (states side).session).decrypted := by
        rw [hall, ← hbalanced.2, hheld, List.append_nil]
    _ = _ := (given_of_run (hnew side).incoming_eq (run_own hrun side)).1

end EndToEnd

open NullCipher

-- A server that sends the byte 9 to a client, over a connection that is slow to answer.
def slowStreams : Side → Scripted :=
  Side.pick ⟨[.Pending, .Ready (.ok [0, 1, 9])], []⟩ ⟨[.Ready (.ok [0])], []⟩

def slowPair (side : Side) : Observed Scripted NullCipher := .new (slowStreams side) (newPair side)

theorem slowPair_runs : ∃ past states, Run (party.Joint Side.peer) slowPair past states ∧
    past.map (·.label) = [(.client, .write [7] (.error .Pending)), (.server, .write [9] (.ok 1)),
      (.client, .read 4 (.ok [9]))] ∧
    Connection.is_handshaking (states .server).session = false ∧
    Connection.wants_write (states .server).session = false ∧
    (states .client).inner.arrived = (states .server).inner.delivered ∧
    (ReceiveLaws.incoming (states .client).session).closed = false := by
  obtain ⟨waiting, serving, reading, hwait, hserve, hread, hfirst, hsecond, hthird, hstate⟩ :
      ∃ waiting serving reading : Observed Scripted NullCipher,
        TlsStream.Step (slowPair .client) (.write [7] (.error .Pending)) waiting ∧
        TlsStream.Step (slowPair .server) (.write [9] (.ok 1)) serving ∧
        TlsStream.Step waiting (.read 4 (.ok [9])) reading ∧
        waiting.inner.arrived = [] ∧ serving.inner.arrived <+: waiting.inner.delivered ∧
        reading.inner.arrived = serving.inner.delivered ∧
        Connection.is_handshaking serving.session = false ∧
        Connection.wants_write serving.session = false ∧
        (ReceiveLaws.incoming reading.session).closed = false :=
    ⟨_, _, _, ⟨16, rfl⟩, ⟨16, rfl⟩, ⟨16, rfl⟩, rfl, List.prefix_rfl, rfl, rfl, rfl, rfl⟩
  have hjoint : ∀ states : Side → Observed Scripted NullCipher, ∀ side call next,
      TlsStream.Step (states side) call next →
      next.inner.arrived <+: (states side.peer).inner.delivered →
      party.Joint Side.peer states (side, call) (Function.update states side next) :=
    fun states side call next hstep hgot => ⟨next, hstep, hgot, rfl⟩
  have hrun := ((Run.nil.next (hjoint slowPair .client _ waiting hwait
    (by rw [hfirst]; exact List.nil_prefix))).next
    (hjoint _ .server _ serving hserve hsecond)).next
    (hjoint _ .client _ reading hread (by rw [hthird]; exact List.prefix_rfl))
  exact ⟨_, _, hrun, rfl, hstate.1, hstate.2.1, hthird, hstate.2.2⟩

theorem tls_end_to_end_slow : ∃ past states, Run (party.Joint Side.peer) slowPair past states ∧
    past.map (·.label) = [(.client, .write [7] (.error .Pending)), (.server, .write [9] (.ok 1)),
      (.client, .read 4 (.ok [9]))] ∧
    ∃ sent, Sends ((own .server past).map (·.label)) sent ∧
      (own .client past).flatMap (·.label.filled) <+: sent := by
  obtain ⟨past, states, hrun, hcalls, -⟩ := slowPair_runs
  exact ⟨past, states, hrun, hcalls, tls_end_to_end slowStreams newPair (secure_new 64 64 64 64)
    newSession_newPair past states hrun .client⟩

theorem tls_nothing_lost_slow : ∃ past states, Run (party.Joint Side.peer) slowPair past states ∧
    past.map (·.label) = [(.client, .write [7] (.error .Pending)), (.server, .write [9] (.ok 1)),
      (.client, .read 4 (.ok [9]))] ∧
    (own .server past).flatMap (·.label.accepted) =
      (own .client past).flatMap (·.label.filled) ++
        (ReceiveLaws.incoming (states .client).session).plaintext := by
  obtain ⟨past, states, hrun, hcalls, hopen, hflushed, harrived, hclosed⟩ := slowPair_runs
  have hok : ∀ t ∈ past, t.label.2.failed = false := by
    intro t hmem
    have hlabel := List.mem_map_of_mem (f := fun t => t.label) hmem
    rw [hcalls] at hlabel
    exact List.forall_mem_map.mp (by decide : ∀ call ∈ [(Side.client, Call.write [7]
      (.error .Pending)), (.server, .write [9] (.ok 1)), (.client, .read 4 (.ok [9]))].map
      Prod.snd, call.failed = false) _ hlabel
  exact ⟨past, states, hrun, hcalls, tls_nothing_lost slowStreams newPair (secure_new 64 64 64 64)
    newSession_newPair past states hrun hok .client hopen hflushed harrived hclosed⟩

end AlphaRay
