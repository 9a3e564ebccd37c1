import AlphaRay.Inbound.Vless.Tunnels
import AlphaRay.Outbound.Vless

namespace AlphaRay

open Lib ByteStream

-- A server and the id that it knows the client by.
structure Hop where
  server_addr : SocketAddr
  uuid : Uuid

-- Outbounds of which each reaches its server through the next one.
def Chain (O : Type) : Nat → Type
  | 0 => O
  | n + 1 => VlessOutbound (Chain O n)

namespace Chain

variable {O T : Type}

instance outbound [AsyncStream T] [Outbound O T] : (n : Nat) → Outbound (Chain O n) (Layers T n)
  | 0 => inferInstanceAs (Outbound O T)
  | n + 1 =>
      have := outbound n
      inferInstanceAs (Outbound (VlessOutbound (Chain O n)) (VlessStream (Layers T n)))

-- The first server of the list is the last one on the way.
def build (base : O) : (hops : List Hop) → Chain O hops.length
  | [] => base
  | hop :: hops => VlessOutbound.mk (build base hops) hop.server_addr hop.uuid

-- The address that is connected to, and what is sent there in front of the payload.
def dialled : List Hop → TargetAddr → TargetAddr
  | [], target => target
  | hop :: hops, _ => dialled hops (.SocketAddr hop.server_addr)

def headers : List Hop → TargetAddr → List UInt8
  | [], _ => []
  | hop :: hops, target => headers hops (.SocketAddr hop.server_addr) ++
      VlessRequest.to_bytes ⟨.Zero, hop.uuid, .Tcp, target⟩

variable [AsyncStream T] [ByteStream T] [Outbound O T]

theorem connect_returns (hops : List Hop) {target : TargetAddr} {base base' : O} {io : T}
    (hdial : (Outbound.connect (dialled hops target)).Returns base (.ok io) base') :
    ∃ after, (Outbound.connect target).Returns (build base hops)
        (.ok (Layers.wrap hops.length after)) (build base' hops) ∧
      pipe after = ⟨(pipe io).unread, (pipe io).written ++ headers hops target⟩ := by
  induction hops generalizing target with
  | nil =>
      rw [headers, List.append_nil]
      exact ⟨io, hdial, rfl⟩
  | cons hop hops ih =>
      obtain ⟨mid, hinner, hmid⟩ := ih hdial
      obtain ⟨after, hwrite, hafter⟩ := write_and_flush_returns mid
        (VlessRequest.to_bytes ⟨.Zero, hop.uuid, .Tcp, target⟩)
      refine ⟨after, VlessOutbound.connect_returns hinner
        ((Layers.embeds_write_and_flush hops.length _).returns hwrite), ?_⟩
      rw [hafter, hmid, headers, List.append_assoc]

-- A chain whose base is not connected is not connected.
omit [ByteStream T] in
theorem connect_fails (hops : List Hop) {target : TargetAddr} {base base' : O} {e : AlphaRayError}
    (hdial : (Outbound.connect (dialled hops target)).Returns base (.error e) base') :
    (Outbound.connect target).Returns (build base hops) (.error e) (build base' hops) := by
  induction hops generalizing target with
  | nil => exact hdial
  | cons hop hops ih => exact VlessOutbound.connect_fails (ih hdial)

end Chain

-- Whatever stream it came over, an inbound with this id that reads these bytes connects its
-- outbound to the address and tunnels the rest of them to the stream that it gets.
def TunnelsTo (id : Uuid) (bytes : List UInt8) (target : TargetAddr) (rest : List UInt8) : Prop :=
  ∀ (S T O : Type) [AsyncStream S] [ByteStream S] [Outbound O T] (io : S)
    (self : SimpleDispatcher O S T) (dst : T) (outbound : O), (pipe io).unread = bytes →
    (Outbound.connect target).Returns self.outbound (.ok dst) outbound →
    ∃ src, (VlessInbound.handle_vless_stream id).Returns (io, self) (.ok ())
        (src, ⟨outbound, self.tunnels ++ [(src, dst)]⟩) ∧
      pipe src = ⟨rest, (pipe io).written ++ [0, 0]⟩

-- The way of what is sent to the first address: each server on it gets what the one before
-- it tunnels, at the address that one connected to. The last server of the way comes first.
inductive Travels (first : TargetAddr) (bytes : List UInt8) :
    List Hop → TargetAddr → List UInt8 → Prop
  | direct : Travels first bytes [] first bytes
  | relayed {hop : Hop} {hops : List Hop} {addr next : TargetAddr} {received rest : List UInt8} :
      Travels first bytes hops addr received → addr.Agrees (.SocketAddr hop.server_addr) →
      TunnelsTo hop.uuid received next rest → Travels first bytes (hop :: hops) next rest

theorem TargetAddr.agrees_refl (target : TargetAddr) : target.Agrees target := by
  rcases target with (_ | ⟨ip, port, _, _⟩) | _
  · rfl
  · exact ⟨rfl, rfl⟩
  · rfl

-- A server takes off the header that was meant for it.
theorem tunnelsTo_of_header (id : Uuid) {target : TargetAddr} (hfits : target.Fits)
    (rest : List UInt8) :
    ∃ next, TunnelsTo id (VlessRequest.to_bytes ⟨.Zero, id, .Tcp, target⟩ ++ rest) next rest ∧
      next.Agrees target := by
  obtain ⟨got, hparse, -, hid, hcommand, hagrees⟩ :=
    parse_request_to_bytes ⟨.Zero, id, .Tcp, target⟩ rest hfits
  refine ⟨got.target, ?_, hagrees⟩
  intro S T O _ _ _ io self dst outbound hunread hconnect
  rw [← hunread] at hparse
  exact VlessInbound.handle_returns hparse ⟨hid, hcommand⟩ hconnect

theorem travels_of_headers (hops : List Hop) {target : TargetAddr} (hfits : target.Fits)
    (rest : List UInt8) :
    ∃ next, Travels (Chain.dialled hops target) (Chain.headers hops target ++ rest) hops next rest ∧
      next.Agrees target := by
  induction hops generalizing target rest with
  | nil => exact ⟨target, .direct, target.agrees_refl⟩
  | cons hop hops ih =>
      have hserver : (TargetAddr.SocketAddr hop.server_addr).Fits := by
        intro domain port hdomain
        cases hdomain
      obtain ⟨addr, htravels, haddr⟩ :=
        ih hserver (VlessRequest.to_bytes ⟨.Zero, hop.uuid, .Tcp, target⟩ ++ rest)
      obtain ⟨next, htunnels, hnext⟩ := tunnelsTo_of_header hop.uuid hfits rest
      rw [← List.append_assoc] at htravels
      exact ⟨next, .relayed htravels haddr htunnels, hnext⟩

-- What is written over a chain behind its headers travels to the target.
theorem writes_travel (hops : List Hop) {target : TargetAddr} (hfits : target.Fits) {T : Type}
    [AsyncStream T] [ByteStream T] {io mid : T}
    (hmid : pipe mid = ⟨(pipe io).unread, (pipe io).written ++ Chain.headers hops target⟩)
    (p : List UInt8) :
    ∃ after sent next,
      (write_all_buf p).Returns (Layers.wrap hops.length mid) (.ok () : IoResult Unit)
        (Layers.wrap hops.length after) ∧
      pipe after = ⟨(pipe io).unread, (pipe io).written ++ sent⟩ ∧
      Travels (Chain.dialled hops target) sent hops next p ∧ next.Agrees target := by
  obtain ⟨after, hwrite, hafter⟩ := write_all_buf_returns mid p
  obtain ⟨next, htravels, hnext⟩ := travels_of_headers hops hfits p
  refine ⟨after, _, next, (Layers.embeds_write_all_buf _ p).returns hwrite, ?_, htravels, hnext⟩
  rw [hafter, hmid, List.append_assoc]

-- Through any number of servers: a client that connects over them and then writes reaches
-- the target with exactly what it wrote. Each server on the way takes off its own header, and
-- connects to the next one on it or, at last, to the target.
theorem vless_chain_reaches_target {O T : Type} [AsyncStream T] [ByteStream T] [Outbound O T]
    (hops : List Hop) (target : TargetAddr) (hfits : target.Fits) (base base' : O) (io : T)
    (hdial : (Outbound.connect (Chain.dialled hops target)).Returns base (.ok io) base')
    (p : List UInt8) :
    ∃ mid after sent next,
      (Outbound.connect target).Returns (Chain.build base hops)
        (.ok (Layers.wrap hops.length mid)) (Chain.build base' hops) ∧
      (write_all_buf p).Returns (Layers.wrap hops.length mid) (.ok () : IoResult Unit)
        (Layers.wrap hops.length after) ∧
      pipe after = ⟨(pipe io).unread, (pipe io).written ++ sent⟩ ∧
      Travels (Chain.dialled hops target) sent hops next p ∧ next.Agrees target := by
  obtain ⟨mid, hconnect, hmid⟩ := Chain.connect_returns hops hdial
  obtain ⟨after, sent, next, hrest⟩ := writes_travel hops hfits hmid p
  exact ⟨mid, after, sent, next, hconnect, hrest⟩

def hopOf (last : UInt8) : Hop :=
  ⟨.V4 ⟨⟨[10, 0, 0, last], rfl⟩⟩ 443, ⟨⟨List.replicate 16 last, rfl⟩⟩⟩

-- A byte over two servers.
theorem vless_chain_reaches_target_over_two :
    ∃ sent next, Travels (.SocketAddr (hopOf 1).server_addr) sent [hopOf 2, hopOf 1]
        next [5] ∧ next.Agrees (.Domain "a" 80) := by
  have hfits : (TargetAddr.Domain "a" 80).Fits := by
    intro domain port heq
    cases heq
    decide
  have hdial : (Outbound.connect (.SocketAddr (hopOf 1).server_addr)).Returns (⟨[]⟩ : Reachable)
      (.ok (⟨[], [], [some 0, none]⟩ : Channel)) ⟨[] ++ [.SocketAddr (hopOf 1).server_addr]⟩ :=
    Async.Returns.bind (.act _ _) (.pure _ _)
  obtain ⟨_, _, sent, next, -, -, -, htravels, hnext⟩ := vless_chain_reaches_target
    [hopOf 2, hopOf 1] (.Domain "a" 80) hfits (⟨[]⟩ : Reachable) _ _ hdial [5]
  exact ⟨sent, next, htravels, hnext⟩

end AlphaRay
