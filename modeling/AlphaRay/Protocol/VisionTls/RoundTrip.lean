import AlphaRay.Io.Scripted
import AlphaRay.Lib.Run
import AlphaRay.Protocol.VisionTls.Encoder
import AlphaRay.Rustls.NullCipher
import Mathlib.Logic.Function.Basic

namespace AlphaRay

open Lib

namespace VisionTlsStream

variable {S C R : Type}

-- Neither half of a stream ever changes what it was set up with.
structure SameSetup (st next : VisionTlsStream S C R) : Prop where
  ids : next.state.ids = st.state.ids
  is_server : next.state.is_server = st.state.is_server
  padding : next.state.padding = st.state.padding

theorem SameSetup.trans {st next last : VisionTlsStream S C R} (h : SameSetup st next)
    (h' : SameSetup next last) : SameSetup st last :=
  ⟨h'.ids.trans h.ids, h'.is_server.trans h.is_server, h'.padding.trans h.padding⟩

theorem Reads.setup {st next : VisionTlsStream S C R} (h : Reads st next) : SameSetup st next := by
  obtain ⟨_, _, _, _, _, _, rfl⟩ := h
  exact ⟨rfl, rfl, rfl⟩

theorem Writes.setup {st next : VisionTlsStream S C R} (h : Writes st next) :
    SameSetup st next := by
  obtain ⟨_, _, _, _, _, _, _, _, rfl⟩ := h
  exact ⟨rfl, rfl, rfl⟩

theorem Framed.writes {st next : VisionTlsStream S C R} {buf : List UInt8}
    (h : Framed st buf next) : Writes st next := by
  cases h with
  | raw _ => exact ⟨_, _, _, _, _, _, _, _, rfl⟩
  | frame _ _ _ _ hwrites => exact hwrites

-- One direction between two streams: what the receiver has yet to make of its own
-- buffer and of the wire completes what was written.
def Carries (sender receiver : VisionTlsStream S C R) (written delivered : List UInt8) : Prop :=
  ∃ pending, transduce (Phase.step receiver.state.ids) (phase receiver)
      (receiver.read_buf ++ sender.write_buf) = (boundary sender, pending) ∧
    delivered ++ pending = written

section Carries

variable {sender receiver next : VisionTlsStream S C R} {written delivered : List UInt8}

-- The sender's own reading does not touch what it sends.
theorem Carries.sender_reads (h : Carries sender receiver written delivered)
    (hreads : Reads sender next) : Carries next receiver written delivered := by
  obtain ⟨_, _, _, _, _, _, rfl⟩ := hreads
  exact h

-- The receiver's own writing does not touch what it reads.
theorem Carries.receiver_writes (h : Carries sender receiver written delivered)
    (hwrites : Writes receiver next) : Carries sender next written delivered := by
  obtain ⟨_, _, _, _, _, _, _, _, rfl⟩ := hwrites
  exact h

theorem Carries.frame (h : Carries sender receiver written delivered) {buf : List UInt8}
    (hframed : Framed sender buf next) (hlen : buf.length ≤ 65535)
    (hid : sender.state.is_server = false →
      ∃ id, sender.state.ids.head? = some id ∧ id ∈ receiver.state.ids) :
    Carries next receiver (written ++ buf) delivered := by
  obtain ⟨pending, htrans, rfl⟩ := h
  obtain ⟨wire, hwrite, hwire⟩ := hframed.transduce hlen receiver.state.ids hid
  refine ⟨pending ++ buf, ?_, by rw [List.append_assoc]⟩
  rw [hwrite, ← List.append_assoc, transduce_append, htrans, hwire]

theorem Carries.carry (h : Carries sender receiver written delivered) (n : Nat) :
    Carries { sender with write_buf := sender.write_buf.drop n }
      { receiver with read_buf := receiver.read_buf ++ sender.write_buf.take n }
      written delivered := by
  obtain ⟨pending, htrans, hwritten⟩ := h
  refine ⟨pending, ?_, hwritten⟩
  change transduce (Phase.step receiver.state.ids) (phase receiver)
    (receiver.read_buf ++ sender.write_buf.take n ++ sender.write_buf.drop n) =
      (boundary sender, pending)
  rw [List.append_assoc, List.take_append_drop, htrans]

theorem Carries.unframe (h : Carries sender receiver written delivered) {buf buf' : ReadBuf}
    {n n' : Nat} {out : List UInt8} (hu : Unframes receiver buf n next buf' n' out) :
    Carries sender next written (delivered ++ out) := by
  obtain ⟨pending, htrans, rfl⟩ := h
  have heats := hu.eats sender.write_buf
  rw [htrans] at heats
  obtain ⟨hphase, hpending⟩ := Prod.mk.inj heats
  refine ⟨_, Prod.ext ?_ rfl, ?_⟩
  · rw [hu.reads.setup.ids]
    exact hphase.symm
  · rw [hu.reads.setup.ids, hpending, List.append_assoc]

-- What a sender wrote never looks like a bad header.
theorem Carries.not_rejected (h : Carries sender receiver written delivered) (e : IoError) :
    ¬ rejected receiver e := by
  rintro ⟨hdirect, hstage, hlen, hcommand⟩
  obtain ⟨pending, htrans, _⟩ := h
  have hphase : phase receiver = .header [] := by simp [phase, hdirect, hstage]
  have hfailed : Phase.ofHeader (receiver.read_buf.take 5) = .failed := by
    rw [Phase.ofHeader_take]
    simp only [Phase.ofHeader, hcommand]
  have hsplit : receiver.read_buf ++ sender.write_buf =
      receiver.read_buf.take 5 ++ (receiver.read_buf.drop 5 ++ sender.write_buf) := by
    rw [← List.append_assoc, List.take_append_drop]
  rw [hphase, hsplit, transduce_append, Phase.transduce_header _ _ (by simp [hlen]), hfailed,
    Phase.transduce_failed] at htrans
  have hboundary := (Prod.mk.inj htrans).1
  unfold boundary at hboundary
  split_ifs at hboundary

-- With the wire empty, a reader that is starved has delivered everything.
theorem Carries.delivered_eq (h : Carries sender receiver written delivered)
    (hwire : sender.write_buf = []) (hstarved : starved receiver) : delivered = written := by
  obtain ⟨pending, htrans, rfl⟩ := h
  rw [hwire, List.append_nil] at htrans
  have hnone : pending = [] := by
    rcases hstarved with hnil | ⟨hdirect, ⟨hstage, hserver, hlen⟩ | ⟨hstage, hlen⟩⟩
    · rw [hnil, transduce_nil] at htrans
      exact (Prod.mk.inj htrans).2.symm
    · have hphase : phase receiver = .id [] := by simp [phase, hdirect, hstage, hserver]
      rw [hphase, Phase.transduce_id_lt _ _ _ (by simpa using hlen)] at htrans
      exact (Prod.mk.inj htrans).2.symm
    · have hphase : phase receiver = .header [] := by simp [phase, hdirect, hstage]
      rw [hphase, Phase.transduce_header_lt _ _ _ (by simpa using hlen)] at htrans
      exact (Prod.mk.inj htrans).2.symm
  rw [hnone, List.append_nil]

end Carries

-- The stream after `k` calls of `unframe_read_buf` with the given capacities.
def unframe_calls (st : VisionTlsStream S C R) (capacities : Nat → Nat) :
    Nat → VisionTlsStream S C R
  | 0 => st
  | k + 1 => (unframe_read_buf (unframe_calls st capacities k) (.new (capacities k))).2.1

theorem unframe_calls_succ (st : VisionTlsStream S C R) (capacities : Nat → Nat) (k : Nat) :
    unframe_calls st capacities (k + 1) =
      unframe_calls (unframe_read_buf st (.new (capacities 0))).2.1
        (fun i => capacities (i + 1)) k := by
  induction k with
  | zero => rfl
  | succ k ih => rw [unframe_calls, ih, unframe_calls]

-- Calls come to one that hands out nothing or fails: every other one shortens
-- `read_buf`. What the calls keep still holds there.
theorem unframe_calls_last {P : VisionTlsStream S C R → Prop}
    (hkeeps : ∀ st buf, P st → P (unframe_read_buf st buf).2.1)
    (st : VisionTlsStream S C R) (hst : P st) (capacities : Nat → Nat) :
    ∃ k ≤ st.read_buf.length, P (unframe_calls st capacities k) ∧
      ∀ n, (unframe_read_buf (unframe_calls st capacities k) (.new (capacities k))).1 = .ok n →
        n = 0 := by
  induction hlen : st.read_buf.length using Nat.strong_induction_on
    generalizing st capacities with
  | _ len ih =>
      by_cases hlast : ∀ n, (unframe_read_buf st (.new (capacities 0))).1 = .ok n → n = 0
      · exact ⟨0, Nat.zero_le _, hst, hlast⟩
      · push Not at hlast
        obtain ⟨n, hok, hn⟩ := hlast
        obtain ⟨count, out, hu, hwhy⟩ := unframe_read_buf_spec st (.new (capacities 0))
        have hcount : count = out.length := by simpa using hu.count
        have hshrinks := hu.shrinks
        have hsame : n = count := by
          rcases hwhy with ⟨hresult, -⟩ | ⟨e, hresult, -⟩
          · exact Except.ok.inj (hok.symm.trans hresult)
          · rw [hok] at hresult
            cases hresult
        obtain ⟨k, hk, hkept, hend⟩ := ih
          (unframe_read_buf st (.new (capacities 0))).2.1.read_buf.length (by omega) _
          (hkeeps st _ hst) (fun i => capacities (i + 1)) rfl
        rw [← unframe_calls_succ] at hkept hend
        exact ⟨k + 1, by omega, hkept, hend⟩

end VisionTlsStream

inductive Side where
  | client
  | server
  deriving DecidableEq

def Side.peer : Side → Side
  | client => server
  | server => client

@[simp] theorem Side.peer_peer (side : Side) : side.peer.peer = side := by
  cases side <;> rfl

@[simp] theorem Side.peer_ne (side : Side) : side.peer ≠ side := by
  cases side <;> decide

@[simp] theorem Side.ne_peer (side : Side) : side ≠ side.peer := by
  cases side <;> decide

theorem Side.forall_of (side : Side) {prop : Side → Prop} (hside : prop side)
    (hpeer : prop side.peer) : ∀ other, prop other := by
  cases side <;> rintro (_ | _) <;> assumption

-- Two streams, with what was written to each and what each has handed out.
structure Link (S C R : Type) where
  stream : Side → VisionTlsStream S C R
  written : Side → List UInt8
  delivered : Side → List UInt8

inductive LinkCall where
  | frame (side : Side) (buf : List UInt8)
  | carry (side : Side) (n : Nat)
  | unframe (side : Side) (buf : ReadBuf)

namespace Link

variable {S C R : Type}

def new (client server : VisionTlsStream S C R) : Link S C R where
  stream
    | .client => client
    | .server => server
  written _ := []
  delivered _ := []

-- A write, the arrival of the next `n` bytes of the wire, or a read.
inductive Step [Rng R] : Link S C R → LinkCall → Link S C R → Prop
  | frame (link : Link S C R) (side : Side) (buf : List UInt8) (next : VisionTlsStream S C R)
      (hlen : buf.length ≤ 65535) (hcall : (link.stream side).frame_buf buf = .ok next) :
      Step link (.frame side buf) { link with
        stream := Function.update link.stream side next
        written := Function.update link.written side (link.written side ++ buf) }
  | carry (link : Link S C R) (side : Side) (n : Nat) :
      Step link (.carry side n) { link with
        stream := Function.update
          (Function.update link.stream side
            { link.stream side with write_buf := (link.stream side).write_buf.drop n })
          side.peer { link.stream side.peer with
            read_buf := (link.stream side.peer).read_buf ++ (link.stream side).write_buf.take n } }
  | unframe (link : Link S C R) (side : Side) (buf : ReadBuf) (n : Nat)
      (next : VisionTlsStream S C R) (buf' : ReadBuf)
      (hcall : (link.stream side).unframe_read_buf buf = (.ok n, next, buf')) :
      Step link (.unframe side buf) { link with
        stream := Function.update link.stream side next
        delivered := Function.update link.delivered side
          (link.delivered side ++ buf'.filled.drop buf.filled.length) }

-- The setup that never changes, and both directions.
structure Inv (link : Link S C R) : Prop where
  client : (link.stream .client).state.is_server = false
  server : (link.stream .server).state.is_server = true
  id : ∃ id, (link.stream .client).state.ids.head? = some id ∧
    id ∈ (link.stream .server).state.ids
  valid : ∀ side, (link.stream side).state.padding.Valid
  carries : ∀ side, (link.stream side).Carries (link.stream side.peer) (link.written side)
    (link.delivered side.peer)

theorem Inv.ids_ne_nil {link : Link S C R} (h : Inv link) (side : Side)
    (hclient : (link.stream side).state.is_server = false) :
    (link.stream side).state.ids ≠ [] := by
  cases side with
  | client =>
      obtain ⟨id, hhead, _⟩ := h.id
      intro hnil
      simp [hnil] at hhead
  | server => simp [h.server] at hclient

theorem Inv.head_mem {link : Link S C R} (h : Inv link) (side : Side)
    (hclient : (link.stream side).state.is_server = false) :
    ∃ id, (link.stream side).state.ids.head? = some id ∧
      id ∈ (link.stream side.peer).state.ids := by
  cases side with
  | client => exact h.id
  | server => simp [h.server] at hclient

theorem inv_new [Connection C] (clientIo serverIo : S) (clientSession serverSession : C)
    (hclient : Connection.is_server clientSession = false)
    (hserver : Connection.is_server serverSession = true) (clientIds serverIds : List Uuid)
    (hid : ∃ id, clientIds.head? = some id ∧ id ∈ serverIds) (clientRng serverRng : R)
    (clientPadding serverPadding : PaddingConfig) (hclientValid : clientPadding.Valid)
    (hserverValid : serverPadding.Valid) :
    Inv (new (.new clientIo clientSession clientIds clientRng clientPadding)
      (.new serverIo serverSession serverIds serverRng serverPadding)) := by
  refine ⟨hclient, hserver, hid, ?_, ?_⟩
  · rintro (_ | _)
    · exact hclientValid
    · exact hserverValid
  · rintro (_ | _) <;>
      exact ⟨[], by simp [new, Side.peer, VisionTlsStream.new, VisionState.new,
        VisionTlsStream.phase, VisionTlsStream.boundary, hclient, hserver], rfl⟩

-- Replacing streams by ones with the same setup keeps the setup.
theorem Inv.of_setup {link next : Link S C R} (h : Inv link)
    (hsetup : ∀ side, (link.stream side).SameSetup (next.stream side))
    (hcarries : ∀ side, (next.stream side).Carries (next.stream side.peer) (next.written side)
      (next.delivered side.peer)) : Inv next := by
  refine ⟨?_, ?_, ?_, ?_, hcarries⟩
  · rw [(hsetup .client).is_server, h.client]
  · rw [(hsetup .server).is_server, h.server]
  · rw [(hsetup .client).ids, (hsetup .server).ids]
    exact h.id
  · intro side
    rw [(hsetup side).padding]
    exact h.valid side

theorem inv_step [Rng R] {link next : Link S C R} {call : LinkCall} (h : Inv link)
    (hstep : Step link call next) : Inv next := by
  cases hstep with
  | frame side buf stream hlen hcall =>
      have hframed := VisionTlsStream.framed_of_frame_buf hcall
      apply h.of_setup
      · refine Side.forall_of side ?_ ?_
        · simpa using hframed.writes.setup
        · simpa using (VisionTlsStream.Writes.refl _).setup
      · refine Side.forall_of side ?_ ?_
        · simpa using (h.carries side).frame hframed hlen (h.head_mem side)
        · have hpeer := h.carries side.peer
          rw [Side.peer_peer] at hpeer
          simpa using hpeer.receiver_writes hframed.writes
  | carry side n =>
      have hwrites : (link.stream side).Writes
          { link.stream side with write_buf := (link.stream side).write_buf.drop n } :=
        ⟨_, _, _, _, _, _, _, _, rfl⟩
      have hreads : (link.stream side.peer).Reads { link.stream side.peer with
          read_buf := (link.stream side.peer).read_buf ++ (link.stream side).write_buf.take n } :=
        ⟨_, _, _, _, _, _, rfl⟩
      apply h.of_setup
      · refine Side.forall_of side ?_ ?_
        · simpa using hwrites.setup
        · simpa using hreads.setup
      · refine Side.forall_of side ?_ ?_
        · simpa using (h.carries side).carry n
        · have hpeer := h.carries side.peer
          rw [Side.peer_peer] at hpeer
          simpa using (hpeer.receiver_writes hwrites).sender_reads hreads
  | unframe side buf n stream buf' hcall =>
      obtain ⟨n', out, hu, _⟩ := (link.stream side).unframe_read_buf_spec buf
      rw [hcall] at hu
      have hput : buf' = buf.put_slice out := hu.put
      have hout : buf'.filled.drop buf.filled.length = out := by simp [hput]
      apply h.of_setup
      · refine Side.forall_of side ?_ ?_
        · simpa using hu.reads.setup
        · simpa using (VisionTlsStream.Reads.refl _).setup
      · refine Side.forall_of side ?_ ?_
        · simpa using (h.carries side).sender_reads hu.reads
        · have hpeer := h.carries side.peer
          rw [Side.peer_peer] at hpeer
          simpa [hout] using hpeer.unframe hu

theorem inv_run [Rng R] {start link : Link S C R} {past : List (Transition (Link S C R) LinkCall)}
    (hstart : Inv start) (hrun : Run Step start past link) : Inv link :=
  hrun.rule (fun _ link => Inv link) hstart fun _ _ _ h hstep => inv_step h hstep

theorem Inv.frame_ok [Rng R] {link : Link S C R} (h : Inv link) (side : Side) (buf : List UInt8) :
    ∃ next, (link.stream side).frame_buf buf = .ok next :=
  (link.stream side).frame_buf_ok buf (h.ids_ne_nil side) (h.valid side)

-- A read returns the number of bytes it handed out. It stops short only when the
-- reader is starved.
theorem Inv.unframe_ok {link : Link S C R} (h : Inv link) (side : Side) (buf : ReadBuf) :
    ∃ out : List UInt8, ((link.stream side).unframe_read_buf buf).1 = .ok out.length ∧
      (link.stream side.peer).Carries ((link.stream side).unframe_read_buf buf).2.1
        (link.written side.peer) (link.delivered side ++ out) ∧
      (out.length < buf.remaining →
        ((link.stream side).unframe_read_buf buf).2.1.starved) := by
  obtain ⟨n, out, hu, hwhy⟩ := (link.stream side).unframe_read_buf_spec buf
  have hcount : n = out.length := by simpa using hu.count
  have hpeer := h.carries side.peer
  rw [Side.peer_peer] at hpeer
  have hnext := hpeer.unframe hu
  rcases hwhy with ⟨hok, hstop⟩ | ⟨e, _, hrejected⟩
  · refine ⟨out, by rw [hok, hcount], hnext, ?_⟩
    intro hroom
    rcases hstop with hfull | hstarved
    · rw [hu.put, ReadBuf.put_slice_remaining] at hfull
      omega
    · exact hstarved
  · exact absurd hrejected (hnext.not_rejected e)

theorem Inv.unframe_calls_end [Rng R] {link : Link S C R} (h : Inv link) (side : Side)
    (capacities : Nat → Nat) :
    ∃ k ≤ (link.stream side).read_buf.length,
      (((link.stream side).unframe_calls capacities k).unframe_read_buf
        (.new (capacities k))).1 = .ok 0 := by
  have hkeeps : ∀ (st : VisionTlsStream S C R) (buf : ReadBuf),
      (∃ link, Inv link ∧ link.stream side = st) →
      ∃ link, Inv link ∧ link.stream side = (st.unframe_read_buf buf).2.1 := by
    rintro st buf ⟨link, hinv, rfl⟩
    obtain ⟨out, hok, -⟩ := hinv.unframe_ok side buf
    exact ⟨_, inv_step hinv (.unframe link side buf out.length _ _ (Prod.ext hok rfl)),
      Function.update_self ..⟩
  obtain ⟨k, hk, ⟨last, hinv, hlast⟩, hend⟩ :=
    VisionTlsStream.unframe_calls_last hkeeps _ ⟨link, h, rfl⟩ capacities
  obtain ⟨out, hok, -⟩ := hinv.unframe_ok side (.new (capacities k))
  rw [hlast] at hok
  exact ⟨k, hk, by rw [hok, hend _ hok]⟩

end Link

-- Framing round-trips in both directions, in every run of writes, arrivals and
-- reads on the two streams: no call fails, what was handed out is a front part of
-- what was written, and it is all of it once the wire is empty and a read with
-- room for a byte returns nothing, which is reached after finitely many reads.
theorem vision_round_trip {S C R : Type} [Connection C] [Rng R] (clientIo serverIo : S)
    (clientSession serverSession : C) (hclient : Connection.is_server clientSession = false)
    (hserver : Connection.is_server serverSession = true) (clientIds serverIds : List Uuid)
    (hid : ∃ id, clientIds.head? = some id ∧ id ∈ serverIds) (clientRng serverRng : R)
    (clientPadding serverPadding : PaddingConfig) (hclientValid : clientPadding.Valid)
    (hserverValid : serverPadding.Valid) (past : List (Transition (Link S C R) LinkCall))
    (link : Link S C R)
    (hrun : Run Link.Step (.new (.new clientIo clientSession clientIds clientRng clientPadding)
      (.new serverIo serverSession serverIds serverRng serverPadding)) past link) :
    (∀ side buf, ∃ next, (link.stream side).frame_buf buf = .ok next) ∧
    (∀ side buf, ∃ n, ((link.stream side).unframe_read_buf buf).1 = .ok n) ∧
    (∀ side, link.delivered side <+: link.written side.peer) ∧
    (∀ side buf, 0 < buf.remaining → (link.stream side.peer).write_buf = [] →
      ((link.stream side).unframe_read_buf buf).1 = .ok 0 →
      link.delivered side = link.written side.peer) ∧
    (∀ side capacities, ∃ k ≤ (link.stream side).read_buf.length,
      (((link.stream side).unframe_calls capacities k).unframe_read_buf
        (.new (capacities k))).1 = .ok 0) := by
  have hinv : link.Inv := Link.inv_run (Link.inv_new clientIo serverIo clientSession serverSession
    hclient hserver clientIds serverIds hid clientRng serverRng clientPadding serverPadding
    hclientValid hserverValid) hrun
  refine ⟨hinv.frame_ok, ?_, ?_, ?_, hinv.unframe_calls_end⟩
  · intro side buf
    obtain ⟨out, hok, _⟩ := hinv.unframe_ok side buf
    exact ⟨_, hok⟩
  · intro side
    have hpeer := hinv.carries side.peer
    rw [Side.peer_peer] at hpeer
    obtain ⟨pending, _, hwritten⟩ := hpeer
    exact ⟨pending, hwritten⟩
  · intro side buf hroom hwire hzero
    obtain ⟨out, hok, hcarries, hstarved⟩ := hinv.unframe_ok side buf
    have hout : out.length = 0 := Except.ok.inj (hok.symm.trans hzero)
    have hall := hcarries.delivered_eq hwire (hstarved (by omega))
    rwa [List.length_eq_zero_iff.mp hout, List.append_nil] at hall

-- A generator that always draws the lower end of the range.
structure Lowest where
  deriving DecidableEq

instance : Rng Lowest where
  draw rng range := (range.start, rng)
  le_draw _ _ _ := UInt16.le_refl _
  draw_le _ _ h := h

def paddingOfThree : PaddingConfig where
  padding_len_range := ⟨0, 4⟩
  long_padding_threshold := 10
  long_padding_base_len := 6
  long_padding_len_range := ⟨0, 3⟩

def idOfSevens : Uuid := ⟨List.replicate 16 7, rfl⟩

def quietLink : Link Scripted NullCipher Lowest :=
  .new (.new ⟨[], []⟩ (.new false 64 64) [idOfSevens] ⟨⟩ paddingOfThree)
    (.new ⟨[], []⟩ (.new true 64 64) [idOfSevens] ⟨⟩ paddingOfThree)

-- The client writes three bytes, they arrive, and the server reads them.
theorem vision_round_trip_three_bytes :
    ∃ past, ∃ link : Link Scripted NullCipher Lowest, Run Link.Step quietLink past link ∧
      link.written .client = [1, 2, 3] ∧ link.delivered .server = link.written .client := by
  have hrun := ((Run.nil : Run Link.Step quietLink [] quietLink).next
    (Link.Step.frame _ .client [1, 2, 3] _ (by decide) rfl)).next (.carry _ .client 64)
  have hrun := hrun.next (.unframe _ .server (.new 8) 3 _ _ rfl)
  obtain ⟨_, _, _, hall, _⟩ := vision_round_trip _ _ _ _ (by decide) (by decide) _ _
    ⟨idOfSevens, rfl, List.mem_singleton_self _⟩ _ _ _ _ ⟨by decide, by decide, by decide⟩
    ⟨by decide, by decide, by decide⟩ _ _ hrun
  exact ⟨_, _, hrun, rfl, hall .server (.new 8) (by decide) rfl rfl⟩

end AlphaRay
