import AlphaRay.Protocol.Peers.NullCipher
import AlphaRay.Protocol.VisionTls.Wire

namespace AlphaRay

open Lib Async

namespace ObservedVision

open VisionTlsStream

section Hears

variable {S C R : Type} [Connection C] {session session' : Logged C} {io inner : Recorded S}
  {first : Fed C} {settled : Prop}

-- The session with what arrived for it, all of it processed if `settled`.
def Hears (first : Fed C) (settled : Prop) (session : Logged C) (io : Recorded S) : Prop :=
  first.Reaches settled session.session io.arrived

theorem Hears.mono {weaker : Prop} (h : Hears first settled session io) (himp : weaker → settled) :
    Hears first weaker session io :=
  Fed.Reaches.mono h himp

theorem Hears.prepare_read (h : Hears first settled session io) {reply : IoResult (Option Nat)}
    (hprepare : Connection.prepare_read session = (reply, session')) :
    Hears first settled session' io :=
  Fed.Reaches.prepare_read h (congrArg (fun p => (p.1, p.2.session)) hprepare)

theorem Hears.of_log (h : Hears first settled session io) {e : Event}
    (hlog : inner.log = io.log ++ [e]) (harrived : e.arrived = []) :
    Hears first settled session inner := by
  rw [Hears, Recorded.arrived_of_log hlog, harrived, List.append_nil]
  exact h

theorem Hears.writer_write (h : Hears first settled session io) {bytes : List UInt8}
    {result : IoResult Nat} (hcall : Connection.writer_write session bytes = (result, session')) :
    Hears first settled session' io := by
  cases hcall
  exact Fed.Reaches.step h fun _ => .writer_write bytes

variable [AsyncStream S]

-- What was read is not processed yet.
theorem Hears.read_tls (h : Hears first settled session io) {result : IoResult Nat}
    (hread : ReadTls session io result session' inner) :
    Hears first (settled ∧ result.toBool = false) session' inner := by
  cases hread with
  | refused hprepare => exact (h.prepare_read hprepare).mono And.left
  | finished hprepare => exact (h.prepare_read hprepare).mono And.left
  | @ready room prepared bytes inner hprepare hcall =>
      have hle := AsyncStream.length_le_of_poll_read io room bytes (by rw [hcall])
      have hreceived := Fed.Reaches.received h
        (congrArg (fun p => (p.1, p.2.session)) hprepare) hle
      change Fed.Reaches _ _ _ inner.arrived
      rw [Recorded.arrived_of_log (Recorded.log_of_poll_read hcall)]
      exact hreceived.mono fun hquiet => by cases hquiet.2
  | failed hprepare hcall =>
      exact ((h.prepare_read hprepare).of_log (Recorded.log_of_poll_read hcall) rfl).mono And.left
  | pending hprepare hcall =>
      exact ((h.prepare_read hprepare).of_log (Recorded.log_of_poll_read hcall) rfl).mono And.left

theorem Hears.write_tls (h : Hears first settled session io) {result : IoResult Nat}
    (hwrite : WriteTls session io result session' inner) : Hears first settled session' inner := by
  cases hwrite with
  | empty hempty => exact h
  | @taken n inner hsendable hpos hcall =>
      have hle := AsyncStream.le_length_of_poll_write io (Connection.sendable session) n
        (by rw [hcall])
      have hsent : Hears first settled (Connection.sent session n) io :=
        Fed.Reaches.step h fun _ => .sent n hle
      exact hsent.of_log (Recorded.log_of_poll_write hcall) rfl
  | zero hsendable hcall => exact h.of_log (Recorded.log_of_poll_write hcall) rfl
  | failed hsendable hcall => exact h.of_log (Recorded.log_of_poll_write hcall) rfl
  | pending hsendable hcall => exact h.of_log (Recorded.log_of_poll_write hcall) rfl

end Hears

section Calls

variable {S C R : Type} [AsyncStream S] [Connection C] {st next after : ObservedVision S C R}
  {call : Call} {first : Fed C} {settled : Prop}

def Heard (first : Fed C) (settled : Prop) (st : ObservedVision S C R) : Prop :=
  Hears first settled st.session st.inner

-- What is read is processed before anything else is done.
theorem poll_read_heard :
    Triple (fun now : ObservedVision S C R × ReadBuf => Heard first settled now.1)
      VisionTlsStream.poll_read (fun _ now => Heard first settled now.1)
      fun e now => Heard first (settled ∧ e.isErr = false) now.1 := by
  have hreader : ∀ (st : ObservedVision S C R) result session, Heard first settled st →
      Connection.reader_read st.session 4096 = (result, session) →
      Heard first settled { st with session := session } := by
    intro st result session h hread
    cases hread
    exact Fed.Reaches.step h fun _ => .reader_read 4096
  refine VisionTlsStream.poll_read_rule (read_round_rule (fun now => Heard first settled now.1)
    (fun now => Heard first settled now.1) ?_ ?_
    (pull_round_rule (fun _ now => Heard first False now.1) (fun _ now => Heard first settled now.1)
      ?_ ?_ ?_))
  · intro st buf result next out h hcall
    obtain ⟨hinner, hsession⟩ := unframe_read_buf_frame hcall
    have hnext : Heard first settled next := by
      rw [Heard, hinner, hsession]
      exact h
    rcases result with e | n
    · exact hnext.mono And.left
    · simpa only [ends_ok, ite_self] using hnext
  · intro st buf result session h hread
    have hnext := hreader st result session h hread
    rcases result with e | bytes
    · by_cases hblock : e.kind = .WouldBlock
      · simpa only [ends_error, hblock, if_true] using hnext
      · simp only [ends_error, hblock, if_false]
        exact hnext.mono And.left
    · simp only [ends_ok]
      split
      · exact hnext
      · exact hnext
  · intro st buf n session inner h hread
    have hnext := Hears.read_tls h hread
    rcases n with e | n
    · exact hnext.mono fun hsettled => ⟨hsettled.1, rfl⟩
    · exact hnext.mono False.elim
  · intro n st buf h
    have hprocess := Fed.Reaches.process h
    rcases hresult : (Connection.process_new_packets st.session).1 with e | _
    · exact hprocess.mono fun hsettled => by cases hsettled.2
    · exact hprocess.mono fun _ => hresult
  · intro n st buf result session h hread
    have hnext := hreader st result session h hread
    rcases result with e | bytes
    · exact hnext.mono And.left
    · simp only [ends_ok]
      split
      · split
        · exact hnext
        · exact hnext
      · exact hnext

variable [Rng R]

theorem heard_of_act (hcall : call.isRead = false) (h : Heard first settled st)
    (hact : Act call st next) : Heard first settled next := by
  cases hact with
  | unframe _ | reader_read | refill _ | read_tls _ | process => cases hcall
  | frame hframe =>
      obtain ⟨hinner, hsession⟩ := frame_buf_frame hframe
      rw [Heard, hinner, hsession]
      exact h
  | writer_write hwrite => exact Hears.writer_write h hwrite
  | writer_error hwrite => exact Hears.writer_write h hwrite
  | write_tls _ hwrite => exact Hears.write_tls h hwrite
  | send_close_notify => exact Fed.Reaches.step h fun _ => .send_close_notify
  | inner_flush => exact Hears.of_log h (Recorded.log_of_poll_flush rfl) rfl
  | inner_shutdown => exact Hears.of_log h (Recorded.log_of_poll_shutdown rfl) rfl

-- A call leaves nothing unprocessed unless it fails.
theorem heard_of_step (h : Heard first settled st) (hstep : Step st call after) :
    Heard first (settled ∧ call.failed = false) after := by
  have hother : call.isRead = false → Heard first (settled ∧ call.failed = false) after :=
    fun hcall => (hstep.rule (Heard first settled) (fun _ _ => heard_of_act hcall) h).mono And.left
  cases call with
  | read len outcome =>
      obtain ⟨fuel, hrun⟩ := hstep
      have hpost := @read_rule _ _ R _ _ len (Heard first settled) (Heard first settled)
        (fun e => Heard first (settled ∧ e.isErr = false)) poll_read_heard fuel st outcome after h
        hrun
      rcases outcome with e | bytes
      · have hfailed : (Call.read len (.error e)).failed = e.isErr := by cases e <;> rfl
        rwa [hfailed]
      · exact Hears.mono hpost And.left
  | write buf outcome => exact hother rfl
  | flush outcome => exact hother rfl
  | shutdown outcome => exact hother rfl

end Calls

section Party

variable {S C R : Type} [AsyncStream S] [Connection C] [Rng R]

-- A stream as one end of a connection: it sends what its inner stream takes.
def party : Party (ObservedVision S C R) Call UInt8 where
  Step := VisionTlsStream.Step
  sent st := st.inner.delivered
  got st := st.inner.arrived

def fed (st : ObservedVision S C R) (settled : Bool) : Fed C :=
  ⟨st.session.session, st.inner.arrived, settled⟩

variable [SendLaws C] [HandshakeLaws C]

theorem party_follows : Follows (party (S := S) (C := C) (R := R)) Fed.party
    fun past st now => Accounts st.session st.inner ∧ ∃ settled, now = st.fed settled ∧
      ((∀ call ∈ past, call.failed = false) → settled = true) := by
  refine ⟨?_, ?_, ?_⟩
  · rintro past st _ call next ⟨haccounts, settled, rfl, hsettled⟩ hstep
    have hstart : Heard (st.fed settled) (settled = true) st := ⟨settled, .refl, id⟩
    obtain ⟨now, hsteps, hnow⟩ := heard_of_step hstart hstep
    refine ⟨next.fed now, hsteps, ?_, now, rfl, ?_⟩
    · exact VisionTlsStream.Step.rule (fun st => Accounts st.session st.inner)
        (fun _ _ h hact => accounts_of_act hact h) haccounts hstep
    · intro hcalls
      refine hnow ⟨hsettled fun call hmem => hcalls call (List.mem_append_left _ hmem), ?_⟩
      exact hcalls call (List.mem_append_right _ (List.mem_singleton_self _))
  · rintro _ st _ ⟨-, settled, rfl, -⟩
    rfl
  · rintro _ st _ ⟨haccounts, settled, rfl, -⟩
    exact ⟨_, haccounts.balanced.1⟩

end Party

end ObservedVision

open ObservedVision

section EndToEnd

variable {S C R : Type} [Connection C] [SendLaws C] [ReceiveLaws C]

-- A client and a server that knows the id the client sends, with sessions that are secure.
structure Pair (S C R : Type) [Connection C] [SendLaws C] [ReceiveLaws C] where
  io : Side → S
  session : Side → C
  ids : Side → List Uuid
  rng : Side → R
  padding : Side → PaddingConfig
  client : Connection.is_server (session .client) = false
  server : Connection.is_server (session .server) = true
  known : ∃ id, (ids .client).head? = some id ∧ id ∈ ids .server
  fresh : ∀ side, NewSession (session side)
  secure : Fed.Secure (session .client) (session .server)

namespace Pair

def start (pair : Pair S C R) (side : Side) : ObservedVision S C R :=
  .new (pair.io side) (pair.session side) (pair.ids side) (pair.rng side) (pair.padding side)

-- Where the encoder of one side starts is where the decoder of the other does.
theorem phase_start (pair : Pair S C R) (side : Side) :
    VisionTlsStream.phase (pair.start side.peer) = VisionTlsStream.boundary (pair.start side) := by
  have hphase : VisionTlsStream.phase (pair.start side.peer) =
      if Connection.is_server (pair.session side.peer) then .id [] else .header [] := rfl
  have hboundary : VisionTlsStream.boundary (pair.start side) =
      if Connection.is_server (pair.session side) then .header [] else .id [] := by
    have hserver : (pair.start side).state.is_server = Connection.is_server (pair.session side) :=
      rfl
    have hsent : (pair.start side).state.has_sent_id = false := rfl
    have hdirect : (pair.start side).state.write_direct_copy = false := rfl
    rw [VisionTlsStream.boundary, hdirect, hsent, hserver]
    cases Connection.is_server (pair.session side) with
    | true => rfl
    | false => rfl
  rw [hphase, hboundary]
  cases side with
  | client => rw [Side.peer, pair.client, pair.server]; rfl
  | server => rw [Side.peer, pair.client, pair.server]; rfl

theorem ids_known (pair : Pair S C R) (side : Side)
    (hclient : (pair.start side).state.is_server = false) :
    ∃ id, (pair.start side).state.ids.head? = some id ∧ id ∈ pair.ids side.peer := by
  cases side with
  | client => exact pair.known
  | server =>
      have hserver : Connection.is_server (pair.session .server) = false := hclient
      rw [pair.server] at hserver
      cases hserver

variable [AsyncStream S] [Rng R] {pair : Pair S C R} {states : Side → ObservedVision S C R}
  {past : List (Transition (Side → ObservedVision S C R) (Side × Call))}

theorem ids_eq (hrun : Run (party.Joint Side.peer) pair.start past states) (side : Side) :
    (states side).state.ids = pair.ids side :=
  (VisionTlsStream.setup_of_run (run_own hrun side)).ids

-- What was written to one side is on its wire, as the decoder of the other side sees it.
theorem encodes_of_run (hrun : Run (party.Joint Side.peer) pair.start past states) (side : Side) :
    ∃ sent, Sends ((own side.peer past).map (·.label)) sent ∧
      Encodes (states side).state.ids (VisionTlsStream.boundary (pair.start side.peer)) sent
        (states side.peer) := by
  have hknown := pair.ids_known side.peer
  rw [Side.peer_peer, ← ids_eq hrun side] at hknown
  exact ObservedVision.encodes_of_run ⟨hknown, rfl⟩ (run_own hrun side.peer)

theorem gives_of_run (hrun : Run (party.Joint Side.peer) pair.start past states) (side : Side) :
    VisionTlsStream.Gives (VisionTlsStream.boundary (pair.start side.peer))
      ((own side past).flatMap (·.label.filled)) (states side) := by
  refine VisionTlsStream.gives_of_run ?_ (run_own hrun side)
  rw [← phase_start, Side.peer_peer]
  intro _
  refine ⟨[], ?_, .refl⟩
  change (ReceiveLaws.incoming (pair.session side)).decrypted =
    [] ++ (ReceiveLaws.incoming (pair.session side)).plaintext
  rw [(pair.fresh side).incoming_eq]
  rfl

variable [HandshakeLaws C]

theorem feds_of_run (hrun : Run (party.Joint Side.peer) pair.start past states) :
    ∃ feds, Fed.Together (pair.session .client) (pair.session .server) feds ∧
      ∀ side, Accounts (states side).session (states side).inner ∧
        ∃ settled, feds side = (states side).fed settled ∧
          ((∀ call ∈ (own side past).map (·.label), call.failed = false) → settled = true) := by
  refine party_follows.joint (fun _ _ _ => Fed.arrived_of_step) (fun side => side.peer_ne) ?_ hrun
  intro side
  have hfresh := (pair.fresh side).outgoing_fresh
  refine ⟨⟨hfresh.balanced, fun _ => hfresh.plain_eq⟩, true, ?_, fun _ => rfl⟩
  cases side with
  | client => rfl
  | server => rfl

-- What was decrypted at one side is a front part of what the other side put on the wire.
theorem decrypted_le (hrun : Run (party.Joint Side.peer) pair.start past states) (side : Side) :
    (ReceiveLaws.incoming (states side).session).decrypted <+:
      (states side.peer).session.handed := by
  obtain ⟨feds, htogether, hfeds⟩ := feds_of_run hrun
  obtain ⟨-, settled, hfed, -⟩ := hfeds side
  obtain ⟨haccounts, settled', hpeer, -⟩ := hfeds side.peer
  have hdecrypted := pair.secure.decrypted_front feds htogether side
  rw [hfed, hpeer] at hdecrypted
  exact hdecrypted.trans ⟨_, haccounts.balanced.2⟩

-- Everything that one side sent has arrived at the other, which `side` is.
structure Arrived (states : Side → ObservedVision S C R) (side : Side) : Prop where
  is_handshaking_eq : Connection.is_handshaking (states side.peer).session = false
  wants_write_eq : Connection.wants_write (states side.peer).session = false
  arrived_eq : (states side).inner.arrived = (states side.peer).inner.delivered
  closed_eq : (ReceiveLaws.incoming (states side).session).closed = false

theorem decrypted_eq (hrun : Run (party.Joint Side.peer) pair.start past states)
    (hcalls : ∀ t ∈ past, t.label.2.failed = false) (side : Side) (harrived : Arrived states side) :
    (ReceiveLaws.incoming (states side).session).decrypted =
      (states side.peer).session.handed := by
  obtain ⟨feds, htogether, hfeds⟩ := feds_of_run hrun
  obtain ⟨-, settled, hfed, hsettled⟩ := hfeds side
  obtain ⟨haccounts, settled', hpeer, -⟩ := hfeds side.peer
  have hdelivered := haccounts.balanced.1
  rw [(wants_write_eq_false_iff _).mp harrived.wants_write_eq, List.append_nil] at hdelivered
  have hdecrypted := pair.secure.decrypted_all feds htogether side
  rw [hfed, hpeer] at hdecrypted
  have hall : (ReceiveLaws.incoming (states side).session).decrypted =
      plainOf (SendLaws.outgoing (states side.peer).session).records :=
    hdecrypted (hsettled (own_not_failed hcalls side)) (harrived.arrived_eq.trans hdelivered)
      harrived.closed_eq
  rw [hall, ← haccounts.balanced.2, SendLaws.held_eq_nil _ harrived.is_handshaking_eq,
    List.append_nil]

-- What one side has written is what the other has read and still makes of its buffers.
theorem accepted_eq [WriterLaws C] (hrun : Run (party.Joint Side.peer) pair.start past states)
    (hcalls : ∀ t ∈ past, t.label.2.failed = false) (side : Side) (harrived : Arrived states side) :
    (own side.peer past).flatMap (·.label.accepted) =
      (own side past).flatMap (·.label.filled) ++
        ((states side).decoded ((states side).read_buf ++
          (ReceiveLaws.incoming (states side).session).plaintext)).2 := by
  obtain ⟨sent, hsent, hencodes⟩ := encodes_of_run hrun side
  have hwriter : ∀ (c : Logged C) bytes, ∃ n, (Connection.writer_write c bytes).1 = .ok n :=
    fun c bytes => ⟨_, WriterLaws.writer_write_eq c.session bytes⟩
  have hempty : (states side.peer).write_buf = [] :=
    VisionTlsStream.empty_of_run hwriter rfl (run_own hrun side.peer)
  have hwire := hencodes.wire
  rw [hempty, List.append_nil, ← decrypted_eq hrun hcalls side harrived] at hwire
  have hfine : (transduce (Phase.step (states side).state.ids)
      (VisionTlsStream.boundary (pair.start side.peer))
      (ReceiveLaws.incoming (states side).session).decrypted).1 ≠ .failed := by
    rw [hwire]
    exact VisionTlsStream.boundary_ne_failed _
  have hgiven := (gives_of_run hrun side).given_append hfine
  rw [hwire] at hgiven
  have haccepted := hsent.eq_accepted (own_not_failed hcalls side.peer)
  rw [List.flatMap_map] at haccepted
  rw [← haccepted]
  exact hgiven

end Pair

open Pair

variable [AsyncStream S] [HandshakeLaws C] [Rng R]

-- Whatever the calls of the two owners and their order, what one of them has read is a
-- front part of what the other has written: the id, the headers and the padding are gone.
theorem vision_end_to_end (pair : Pair S C R)
    (past : List (Transition (Side → ObservedVision S C R) (Side × Call)))
    (states : Side → ObservedVision S C R)
    (hrun : Run (party.Joint Side.peer) pair.start past states) (side : Side) :
    ∃ sent, Sends ((own side.peer past).map (·.label)) sent ∧
      (own side past).flatMap (·.label.filled) <+: sent := by
  obtain ⟨sent, hsent, hencodes⟩ := encodes_of_run hrun side
  refine ⟨sent, hsent, (gives_of_run hrun side).given_le hencodes.wire
    (VisionTlsStream.boundary_ne_failed _) ?_⟩
  exact (decrypted_le hrun side).trans (List.prefix_append _ _)

-- And nothing is lost: once everything one of them sent has arrived, what it has written is
-- what the other has read and what the other still makes of its buffers.
theorem vision_nothing_lost [WriterLaws C] (pair : Pair S C R)
    (past : List (Transition (Side → ObservedVision S C R) (Side × Call)))
    (states : Side → ObservedVision S C R)
    (hrun : Run (party.Joint Side.peer) pair.start past states)
    (hcalls : ∀ t ∈ past, t.label.2.failed = false) (side : Side)
    (harrived : Arrived states side) :
    (own side.peer past).flatMap (·.label.accepted) =
      (own side past).flatMap (·.label.filled) ++
        ((states side).decoded ((states side).read_buf ++
          (ReceiveLaws.incoming (states side).session).plaintext)).2 :=
  accepted_eq hrun hcalls side harrived

-- A reader that has to wait has then been given everything.
theorem vision_waiting_reader [WriterLaws C] (pair : Pair S C R)
    (past : List (Transition (Side → ObservedVision S C R) (Side × Call)))
    (states after : Side → ObservedVision S C R)
    (hrun : Run (party.Joint Side.peer) pair.start past states)
    (hcalls : ∀ t ∈ past, t.label.2.failed = false) (side : Side) (len : Nat)
    (hwait : party.Joint Side.peer states (side, .read len (.error .Pending)) after)
    (harrived : Arrived after side) :
    (own side.peer past).flatMap (·.label.accepted) =
      (own side past).flatMap (·.label.filled) := by
  have hall := hrun.next hwait
  have heq := accepted_eq hall (fun t hmem => ?_) side harrived
  · obtain ⟨next, hstep, -, hafter⟩ := hwait
    have hnext : after side = next := by rw [hafter, Function.update_self]
    have hread : VisionTlsStream.Step (states side) (.read len (.error .Pending)) next := hstep
    have hidle := (VisionTlsStream.gives_of_step (gives_of_run hrun side) hread).2 len rfl
    have hnone := hidle.decoded_eq
    rw [hnext] at heq
    rw [hnone, List.append_nil, own_concat_of_ne _ _ (by simp), own_concat_self side _ rfl] at heq
    simpa [Call.filled] using heq
  · rcases List.mem_append.mp hmem with hmem | hmem
    · exact hcalls t hmem
    · obtain rfl := List.mem_singleton.mp hmem
      rfl

end EndToEnd

open NullCipher

-- A client that sends the byte 9: what follows its hello is the id and one frame.
def framedNine : List UInt8 :=
  (List.replicate 16 [1, 7]).flatten ++ [1, 0, 1, 0, 1, 1, 1, 0, 1, 5, 1, 9] ++
    (List.replicate 5 [1, 0]).flatten

def nullPair : Pair Scripted NullCipher Lowest where
  io := Side.pick ⟨[.Ready (.ok [0])], []⟩
    ⟨[.Ready (.ok [0]), .Ready (.ok framedNine)], []⟩
  session := newPair
  ids _ := [idOfSevens]
  rng _ := ⟨⟩
  padding _ := paddingOfThree
  client := rfl
  server := rfl
  known := ⟨_, rfl, List.mem_singleton_self _⟩
  fresh := newSession_newPair
  secure := secure_new 64 64 64 64

def callsOfNullPair : List (Side × Call) :=
  [(.client, .write [9] (.ok 1)), (.server, .read 4 (.error .Pending)), (.server, .flush (.ok ())),
    (.client, .read 4 (.error .Pending)), (.client, .flush (.ok ())), (.server, .read 4 (.ok [9]))]

theorem nullPair_runs : ∃ past states after,
    Run (party.Joint Side.peer) nullPair.start past states ∧
    past.map (·.label) = callsOfNullPair ∧
    party.Joint Side.peer states (.server, .read 4 (.error .Pending)) after ∧
    Pair.Arrived after .server := by
  obtain ⟨c₁, s₁, s₂, c₂, c₃, s₃, s₄, hc₁, hs₁, hs₂, hc₂, hc₃, hs₃, hs₄, hgot, hopen, hwants, hdone⟩ :
      ∃ c₁ s₁ s₂ c₂ c₃ s₃ s₄ : ObservedVision Scripted NullCipher Lowest,
        VisionTlsStream.Step (nullPair.start .client) (.write [9] (.ok 1)) c₁ ∧
        VisionTlsStream.Step (nullPair.start .server) (.read 4 (.error .Pending)) s₁ ∧
        VisionTlsStream.Step s₁ (.flush (.ok ())) s₂ ∧
        VisionTlsStream.Step c₁ (.read 4 (.error .Pending)) c₂ ∧
        VisionTlsStream.Step c₂ (.flush (.ok ())) c₃ ∧
        VisionTlsStream.Step s₂ (.read 4 (.ok [9])) s₃ ∧
        VisionTlsStream.Step s₃ (.read 4 (.error .Pending)) s₄ ∧
        (c₁.inner.arrived = [] ∧ s₁.inner.arrived = c₁.inner.delivered ∧
          s₂.inner.arrived = c₁.inner.delivered ∧ c₂.inner.arrived = s₂.inner.delivered ∧
          c₃.inner.arrived = s₂.inner.delivered ∧
          s₃.inner.arrived = c₃.inner.delivered.take 49) ∧
        Connection.is_handshaking c₃.session = false ∧ Connection.wants_write c₃.session = false ∧
        s₄.inner.arrived = c₃.inner.delivered ∧
        (ReceiveLaws.incoming s₄.session).closed = false :=
    ⟨_, _, _, _, _, _, _, ⟨32, rfl⟩, ⟨32, rfl⟩, ⟨32, rfl⟩, ⟨32, rfl⟩, ⟨32, rfl⟩, ⟨32, rfl⟩, ⟨32, rfl⟩,
      ⟨rfl, rfl, rfl, rfl, rfl, rfl⟩, rfl, rfl, rfl, rfl⟩
  obtain ⟨hg₁, hg₂, hg₃, hg₄, hg₅, hg₆⟩ := hgot
  have hjoint : ∀ states : Side → ObservedVision Scripted NullCipher Lowest, ∀ side call next,
      VisionTlsStream.Step (states side) call next →
      next.inner.arrived <+: (states side.peer).inner.delivered →
      party.Joint Side.peer states (side, call) (Function.update states side next) :=
    fun states side call next hstep hgot => ⟨next, hstep, hgot, rfl⟩
  have hrun := ((((((Run.nil.next
    (hjoint nullPair.start .client _ c₁ hc₁ (hg₁ ▸ List.nil_prefix))).next
    (hjoint _ .server _ s₁ hs₁ (hg₂ ▸ List.prefix_rfl))).next
    (hjoint _ .server _ s₂ hs₂ (hg₃ ▸ List.prefix_rfl))).next
    (hjoint _ .client _ c₂ hc₂ (hg₄ ▸ List.prefix_rfl))).next
    (hjoint _ .client _ c₃ hc₃ (hg₅ ▸ List.prefix_rfl))).next
    (hjoint _ .server _ s₃ hs₃ (hg₆ ▸ List.take_prefix _ _)))
  exact ⟨_, _, _, hrun, rfl, hjoint _ .server _ s₄ hs₄ (hdone.1 ▸ List.prefix_rfl),
    hopen, hwants, hdone.1, hdone.2⟩

theorem vision_end_to_end_null_pair : ∃ past states,
    Run (party.Joint Side.peer) nullPair.start past states ∧
    past.map (·.label) = callsOfNullPair ∧
    ∃ sent, Sends ((own .client past).map (·.label)) sent ∧
      (own .server past).flatMap (·.label.filled) <+: sent := by
  obtain ⟨past, states, -, hrun, hcalls, -⟩ := nullPair_runs
  exact ⟨past, states, hrun, hcalls, vision_end_to_end nullPair past states hrun .server⟩

theorem callsOfNullPair_not_failed
    {past : List (Transition (Side → ObservedVision Scripted NullCipher Lowest) (Side × Call))}
    (hcalls : past.map (·.label) = callsOfNullPair) : ∀ t ∈ past, t.label.2.failed = false := by
  intro t hmem
  have hlabel := List.mem_map_of_mem (f := fun t => t.label) hmem
  rw [hcalls] at hlabel
  exact (by decide : ∀ call ∈ callsOfNullPair, call.2.failed = false) _ hlabel

theorem vision_nothing_lost_null_pair : ∃ past states,
    Run (party.Joint Side.peer) nullPair.start past states ∧
    past.map (·.label) = callsOfNullPair ++ [(.server, .read 4 (.error .Pending))] ∧
    (own .client past).flatMap (·.label.accepted) =
      (own .server past).flatMap (·.label.filled) ++
        ((states .server).decoded ((states .server).read_buf ++
          (ReceiveLaws.incoming (states .server).session).plaintext)).2 := by
  obtain ⟨past, states, after, hrun, hcalls, hwait, harrived⟩ := nullPair_runs
  refine ⟨_, after, hrun.next hwait, by rw [List.map_append, hcalls]; rfl, ?_⟩
  refine vision_nothing_lost nullPair _ after (hrun.next hwait) ?_ .server harrived
  intro t hmem
  rcases List.mem_append.mp hmem with hmem | hmem
  · exact callsOfNullPair_not_failed hcalls t hmem
  · obtain rfl := List.mem_singleton.mp hmem
    rfl

theorem vision_waiting_reader_null_pair : ∃ past states after,
    Run (party.Joint Side.peer) nullPair.start past states ∧
    past.map (·.label) = callsOfNullPair ∧
    party.Joint Side.peer states (.server, .read 4 (.error .Pending)) after ∧
    (own .client past).flatMap (·.label.accepted) =
      (own .server past).flatMap (·.label.filled) := by
  obtain ⟨past, states, after, hrun, hcalls, hwait, harrived⟩ := nullPair_runs
  exact ⟨past, states, after, hrun, hcalls, hwait, vision_waiting_reader nullPair past states after
    hrun (callsOfNullPair_not_failed hcalls) .server 4 hwait harrived⟩

end AlphaRay
