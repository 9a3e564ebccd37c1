import AlphaRay.Outbound

namespace AlphaRay

open Lib

-- The network of the host. A connection that is not made fails, or is given up (`none`) after
-- a time in seconds.
class Network (N : Type) (T : outParam Type) where
  lookup_host : String → UInt16 → Async N IoError (List SocketAddr)
  connect : Nat → SocketAddr → Async N (Option IoError) T

class StreamOutboundTransport (A : Type) (T : outParam Type) where
  connect : TargetAddr → Async A AlphaRayError T

structure TcpOutboundTransport (N : Type) where
  timeout : Nat
  net : N

namespace TcpOutboundTransport

variable {N T : Type}

def new (net : N) : TcpOutboundTransport N := ⟨30, net⟩

def with_timeout (self : TcpOutboundTransport N) (timeout : Nat) : TcpOutboundTransport N :=
  { self with timeout := timeout }

variable [Network N T]

def addrs : TargetAddr → Async N AlphaRayError (List SocketAddr)
  | .SocketAddr a => return [a]
  | .Domain h p => .map_err .Io (Network.lookup_host h p)

def dial (timeout : Nat) : List SocketAddr → Async N AlphaRayError T
  | [] => throw .Connection
  | addr :: addrs => do
      match ← .attempt (Network.connect timeout addr) with
      | .ok s => return s
      | .error _ => dial timeout addrs -- Failed to connect, or timed out

instance : StreamOutboundTransport (TcpOutboundTransport N) T where
  connect target := do
    let self ← Async.peek
    .zoom TcpOutboundTransport.net (fun self net => { self with net := net }) (do
      let addrs ← addrs target
      dial self.timeout addrs)

end TcpOutboundTransport

-- A network with the connections that were tried in it, and what became of them.
structure Dialling (N T : Type) where
  net : N
  dials : List (SocketAddr × Except (Option IoError) T)

namespace Dialling

variable {N T : Type}

def dialled (self : Dialling N T) (net : N) (addr : SocketAddr)
    (result : Except (Option IoError) T) : Dialling N T where
  net := net
  dials := self.dials ++ [(addr, result)]

instance [Network N T] : Network (Dialling N T) T where
  lookup_host h p :=
    .zoom Dialling.net (fun self net => { self with net := net }) (Network.lookup_host h p)
  connect timeout addr := .of fun fuel self =>
    ((Network.connect timeout addr).run fuel self.net).map fun (result, net) =>
      (result, self.dialled net addr result)

end Dialling

-- The calls of the network return, with whatever they have to report.
structure Network.Answers (N T : Type) [Network N T] : Prop where
  lookup_host : ∀ h p (net : N), ∃ result after, (lookup_host h p).Returns net result after
  connect : ∀ timeout addr (net : N), ∃ result after,
    (connect timeout addr).Returns net result after

namespace TcpOutboundTransport

variable {N T : Type} [Network N T] {net after : Dialling N T}

theorem connect_returns {timeout : Nat} {addr : SocketAddr} {result : Except (Option IoError) T}
    {inner : N} (h : (Network.connect timeout addr).Returns net.net result inner) :
    (Network.connect timeout addr).Returns net result (net.dialled inner addr result) := by
  obtain ⟨bound, h⟩ := h
  refine ⟨bound, fun fuel hfuel => ?_⟩
  change ((Network.connect timeout addr).run fuel net.net).map _ = _
  rw [h fuel hfuel]
  rfl

theorem addrs_returns (hnet : Network.Answers N T) (target : TargetAddr) (net : Dialling N T) :
    ∃ found inner, (addrs target).Returns net.net found inner ∧
      (addrs target).Returns net found { net with net := inner } := by
  cases target with
  | SocketAddr a => exact ⟨.ok [a], net.net, .pure _ _, .pure _ _⟩
  | Domain h p =>
      obtain ⟨found, inner, hlookup⟩ := hnet.lookup_host h p net.net
      have hdialling : (Network.lookup_host h p).Returns net found { net with net := inner } :=
        hlookup.zoom
      exact ⟨_, inner, hlookup.map_err AlphaRayError.Io, hdialling.map_err AlphaRayError.Io⟩

-- The addresses are tried in their order. The first one that is reached is the last one tried.
def DialsFirst (addrs : List SocketAddr) (before : Dialling N T) (result : Except AlphaRayError T)
    (after : Dialling N T) : Prop :=
  ∃ failures rest, addrs = failures.map Prod.fst ++ rest ∧
    (∀ dial ∈ failures, ∃ e, dial.2 = .error e) ∧
    ((rest = [] ∧ result = .error .Connection ∧ after.dials = before.dials ++ failures) ∨
      ∃ addr others stream, rest = addr :: others ∧ result = .ok stream ∧
        after.dials = before.dials ++ failures ++ [(addr, .ok stream)])

theorem dial_returns (hnet : Network.Answers N T) (timeout : Nat) (addrs : List SocketAddr)
    (net : Dialling N T) :
    ∃ result after, (dial timeout addrs).Returns net result after ∧
      DialsFirst addrs net result after := by
  induction addrs generalizing net with
  | nil => exact ⟨_, net, .throw _ net, [], [], rfl, by simp, .inl ⟨rfl, rfl, by simp⟩⟩
  | cons addr addrs ih =>
      obtain ⟨outcome, inner, hinner⟩ := hnet.connect timeout addr net.net
      have hconnect :
          (Async.attempt (Network.connect timeout addr) : Async _ AlphaRayError _).Returns net
            (.ok outcome) (net.dialled inner addr outcome) := (connect_returns hinner).attempt
      rcases outcome with e | stream
      · obtain ⟨result, after, hdial, failures, rest, rfl, hfailures, hend⟩ :=
          ih (net.dialled inner addr (.error e))
        refine ⟨result, after, hconnect.bind hdial, (addr, .error e) :: failures, rest, rfl, ?_, ?_⟩
        · intro dial hdial
          rcases List.mem_cons.mp hdial with rfl | hdial
          · exact ⟨e, rfl⟩
          · exact hfailures dial hdial
        · simpa [Dialling.dialled] using hend
      · refine ⟨.ok stream, _, hconnect.bind (.pure _ _), [], addr :: addrs, rfl, by simp, .inr ?_⟩
        exact ⟨addr, addrs, stream, rfl, rfl, by simp [Dialling.dialled]⟩

end TcpOutboundTransport

end AlphaRay
