import AlphaRay.Io.Calls
import AlphaRay.Lib.Joint
import AlphaRay.Protocol.VisionTls.RoundTrip
import Mathlib.Data.List.Forall2

namespace AlphaRay

open Lib

def Side.pick {α : Type} (client server : α) : Side → α
  | .client => client
  | .server => server

-- A session with everything that it was given to read, and whether it processed all of it.
structure Fed (C : Type) where
  session : C
  arrived : List UInt8
  settled : Bool

namespace Fed

variable {C : Type} [Connection C]

def new (session : C) : Fed C := ⟨session, [], true⟩

-- The calls that the streams make of a session.
inductive Step (fed : Fed C) : Fed C → Prop
  | sent (n : Nat) : n ≤ (Connection.sendable fed.session).length →
      Step fed { fed with session := Connection.sent fed.session n }
  | prepare_read : Step fed { fed with session := (Connection.prepare_read fed.session).2 }
  | read (room : Nat) (bytes : List UInt8) :
      (Connection.prepare_read fed.session).1 = .ok (some room) → bytes.length ≤ room →
      Step fed {
        session := Connection.received (Connection.prepare_read fed.session).2 bytes
        arrived := fed.arrived ++ bytes
        settled := fed.settled && bytes.isEmpty }
  | process_new_packets : Step fed { fed with
      session := (Connection.process_new_packets fed.session).2
      settled := (Connection.process_new_packets fed.session).1.toBool }
  | reader_read (len : Nat) :
      Step fed { fed with session := (Connection.reader_read fed.session len).2 }
  | writer_write (bytes : List UInt8) :
      Step fed { fed with session := (Connection.writer_write fed.session bytes).2 }
  | send_close_notify :
      Step fed { fed with session := Connection.send_close_notify fed.session }

-- Any number of these calls.
abbrev Steps : Fed C → Fed C → Prop :=
  Relation.ReflTransGen fun fed next => ∃ _ : Unit, fed.Step next

theorem arrived_of_step {fed next : Fed C} (h : fed.Step next) :
    fed.arrived <+: next.arrived := by
  cases h with
  | read room bytes hprepare hle => exact List.prefix_append _ _
  | _ => exact List.prefix_rfl

variable {first : Fed C} {settled : Prop} {session : C} {given : List UInt8}

-- Calls that lead to a session and to what it was given, which `settled` says it processed.
def Reaches (first : Fed C) (settled : Prop) (session : C) (given : List UInt8) : Prop :=
  ∃ now, first.Steps ⟨session, given, now⟩ ∧ (settled → now = true)

theorem Reaches.mono {weaker : Prop} (h : first.Reaches settled session given)
    (himp : weaker → settled) : first.Reaches weaker session given := by
  obtain ⟨now, hsteps, hnow⟩ := h
  exact ⟨now, hsteps, fun hweaker => hnow (himp hweaker)⟩

-- The calls that have nothing to do with what arrives.
theorem Reaches.step {next : C} (h : first.Reaches settled session given)
    (hstep : ∀ now, Step ⟨session, given, now⟩ ⟨next, given, now⟩) :
    first.Reaches settled next given := by
  obtain ⟨now, hsteps, hnow⟩ := h
  exact ⟨now, hsteps.tail ⟨(), hstep now⟩, hnow⟩

theorem Reaches.prepare_read (h : first.Reaches settled session given)
    {reply : IoResult (Option Nat)} {next : C}
    (hprepare : Connection.prepare_read session = (reply, next)) :
    first.Reaches settled next given := by
  obtain ⟨-, rfl⟩ := Prod.mk.inj hprepare
  exact h.step fun _ => .prepare_read

theorem Reaches.received (h : first.Reaches settled session given) {room : Nat} {next : C}
    (hprepare : Connection.prepare_read session = (.ok (some room), next)) {bytes : List UInt8}
    (hle : bytes.length ≤ room) :
    first.Reaches (settled ∧ bytes = []) (Connection.received next bytes) (given ++ bytes) := by
  obtain ⟨hreply, rfl⟩ := Prod.mk.inj hprepare
  obtain ⟨now, hsteps, hnow⟩ := h
  refine ⟨now && bytes.isEmpty, hsteps.tail ⟨(), .read room bytes hreply hle⟩, ?_⟩
  rintro ⟨hsettled, rfl⟩
  simp [hnow hsettled]

theorem Reaches.process (h : first.Reaches settled session given) :
    first.Reaches ((Connection.process_new_packets session).1 = .ok ())
      (Connection.process_new_packets session).2 given := by
  obtain ⟨now, hsteps, -⟩ := h
  refine ⟨_, hsteps.tail ⟨(), .process_new_packets⟩, ?_⟩
  intro hok
  rw [hok]
  rfl

variable [SendLaws C]

-- The records of a session are never taken back.
theorem records_of_step {fed next : Fed C} (h : fed.Step next) :
    (SendLaws.outgoing fed.session).records <+: (SendLaws.outgoing next.session).records := by
  have hadds : ∀ {out next : Outgoing} {bytes : List UInt8}, out.Adds next bytes →
      out.records <+: next.records := by
    rintro out next bytes ⟨made, hmade, -⟩
    exact ⟨made, hmade.symm⟩
  cases h with
  | sent n hle => rw [SendLaws.outgoing_sent _ _ hle]
  | prepare_read => rw [SendLaws.outgoing_prepare_read]
  | read room bytes hprepare hle =>
      rw [SendLaws.outgoing_received, SendLaws.outgoing_prepare_read]
  | process_new_packets => exact hadds (SendLaws.adds_process_new_packets _)
  | reader_read len => rw [SendLaws.outgoing_reader_read]
  | writer_write bytes =>
      rcases hwrite : (Connection.writer_write fed.session bytes).1 with e | n
      · exact hadds (SendLaws.adds_writer_write_error _ _ e hwrite)
      · exact hadds (SendLaws.adds_writer_write _ _ n hwrite)
  | send_close_notify => exact hadds (SendLaws.adds_send_close_notify _)

-- A session sends the ciphertext of its records and is given ciphertext to read.
def party : Party (Fed C) Unit UInt8 where
  Step fed _ next := fed.Step next
  sent fed := cipherOf (SendLaws.outgoing fed.session).records
  got := arrived

-- What two new sessions may have come to, when each is given what the other sent.
def Together (client server : C) : (Side → Fed C) → Prop :=
  Relation.ReflTransGen (fun a b => ∃ act, party.Joint Side.peer a act b)
    (Side.pick (new client) (new server))

-- What TLS promises to the two ends of a connection: the plaintext arrives unchanged and in
-- order, and all of it once all records have arrived and were processed.
structure Secure [ReceiveLaws C] (client server : C) : Prop where
  decrypted_front : ∀ feds, Together client server feds → ∀ side,
    (ReceiveLaws.incoming (feds side).session).decrypted <+:
      plainOf (SendLaws.outgoing (feds side.peer).session).records
  decrypted_all : ∀ feds, Together client server feds → ∀ side, (feds side).settled = true →
    (feds side).arrived = cipherOf (SendLaws.outgoing (feds side.peer).session).records →
    (ReceiveLaws.incoming (feds side).session).closed = false →
    (ReceiveLaws.incoming (feds side).session).decrypted =
      plainOf (SendLaws.outgoing (feds side.peer).session).records

-- A session to which a peer sends `s` and then closes, all of it within `wire`, while it is
-- given `wire`: nothing fails, a front part of `s` is decrypted, and the close_notify comes
-- with the end of `wire` and behind all of `s`.
structure Conveys [ReceiveLaws C] (session : C) (wire s : List UInt8) : Prop where
  process_ok : ∀ fed, (new session).Steps fed → fed.arrived <+: wire →
    (Connection.process_new_packets fed.session).1 = .ok ()
  -- there is room in the session when it has given out all that it was given
  prepare_ok : ∀ fed, (new session).Steps fed → fed.arrived <+: wire → fed.settled = true →
    (ReceiveLaws.incoming fed.session).plaintext = [] →
    ∃ room, (Connection.prepare_read fed.session).1 = .ok room
  decrypted_front : ∀ fed, (new session).Steps fed → fed.arrived <+: wire →
    (ReceiveLaws.incoming fed.session).decrypted <+: s
  decrypted_all : ∀ fed, (new session).Steps fed → fed.arrived <+: wire →
    (ReceiveLaws.incoming fed.session).closed = true →
    (ReceiveLaws.incoming fed.session).decrypted = s
  closed_all : ∀ fed, (new session).Steps fed → fed.arrived = wire → fed.settled = true →
    (ReceiveLaws.incoming fed.session).closed = true

end Fed

-- Neither half of a new session has done anything but queue its first flight.
structure NewSession {C : Type} [Connection C] [SendLaws C] [ReceiveLaws C] (session : C) :
    Prop where
  outgoing_fresh : (SendLaws.outgoing session).Fresh
  incoming_eq : ReceiveLaws.incoming session = ⟨[], [], false, false⟩

-- What a call may have put on its way: a write that failed, some front part of its bytes.
def Call.Sends (call : Call) (bytes : List UInt8) : Prop :=
  match call with
  | .write buf (.error (.Err _)) => bytes <+: buf
  | call => bytes = call.accepted

-- The same for calls in a row.
def Sends (calls : List Call) (bytes : List UInt8) : Prop :=
  ∃ parts, List.Forall₂ Call.Sends calls parts ∧ bytes = parts.flatten

theorem Sends.concat {calls : List Call} {call : Call} {bytes more : List UInt8}
    (h : Sends calls bytes) (hcall : call.Sends more) : Sends (calls ++ [call]) (bytes ++ more) := by
  obtain ⟨parts, hparts, rfl⟩ := h
  exact ⟨parts ++ [more], List.rel_append hparts (.cons hcall .nil), by simp⟩

theorem sends_nil {bytes : List UInt8} (h : Sends [] bytes) : bytes = [] := by
  obtain ⟨parts, hparts, rfl⟩ := h
  cases hparts
  rfl

theorem sends_cons {call : Call} {calls : List Call} {bytes : List UInt8}
    (h : Sends (call :: calls) bytes) :
    ∃ first rest, call.Sends first ∧ Sends calls rest ∧ bytes = first ++ rest := by
  obtain ⟨parts, hparts, rfl⟩ := h
  cases hparts with
  | cons hfirst hrest => exact ⟨_, _, hfirst, ⟨_, hrest, rfl⟩, rfl⟩

theorem sends_append {calls more : List Call} {bytes : List UInt8}
    (h : Sends (calls ++ more) bytes) :
    ∃ front back, Sends calls front ∧ Sends more back ∧ bytes = front ++ back := by
  induction calls generalizing bytes with
  | nil => exact ⟨[], bytes, ⟨[], .nil, rfl⟩, h, rfl⟩
  | cons call calls ih =>
      obtain ⟨first, rest, hfirst, hrest, rfl⟩ := sends_cons h
      obtain ⟨front, back, ⟨parts, hparts, rfl⟩, hback, rfl⟩ := ih hrest
      refine ⟨first ++ parts.flatten, back, ⟨first :: parts, .cons hfirst hparts, rfl⟩, hback, ?_⟩
      rw [List.append_assoc]

theorem sends_singleton {call : Call} {bytes : List UInt8} (h : Sends [call] bytes) :
    call.Sends bytes := by
  obtain ⟨first, rest, hfirst, hrest, rfl⟩ := sends_cons h
  rwa [sends_nil hrest, List.append_nil]

theorem Call.sends_accepted {call : Call} (h : call.failed = false) {bytes : List UInt8} :
    call.Sends bytes ↔ bytes = call.accepted := by
  rcases call with _ | ⟨buf, (_ | _ | _) | n⟩ | _ | _
  · rfl
  · rfl
  · cases h
  · rfl
  · rfl
  · rfl
  · rfl

-- When no call failed, none of one side did.
theorem own_not_failed {σ : Type} {past : List (Transition (Side → σ) (Side × Call))}
    (hcalls : ∀ t ∈ past, t.label.2.failed = false) (side : Side) :
    ∀ call ∈ (own side past).map (·.label), call.failed = false := by
  intro call hmem
  obtain ⟨t, ht, rfl⟩ := List.mem_map.mp hmem
  obtain ⟨u, hu, hlabel⟩ := label_of_mem_own ht
  have hok := hcalls u hu
  rwa [hlabel] at hok

-- Without a failure it is what was accepted.
theorem Sends.eq_accepted {calls : List Call} {bytes : List UInt8} (h : Sends calls bytes)
    (hcalls : ∀ call ∈ calls, call.failed = false) : bytes = calls.flatMap Call.accepted := by
  obtain ⟨parts, hparts, rfl⟩ := h
  induction hparts with
  | nil => rfl
  | cons hpart _ ih =>
      rw [List.flatten_cons, List.flatMap_cons, ih fun call hmem =>
        hcalls call (List.mem_cons_of_mem _ hmem),
        (Call.sends_accepted (hcalls _ List.mem_cons_self)).mp hpart]

-- What one of the two owners reads is a front part of what the other writes.
def Relayed (calls : Side → List Call) : Prop :=
  ∀ side, ∃ sent, Sends (calls side.peer) sent ∧ (calls side).flatMap Call.filled <+: sent

end AlphaRay
