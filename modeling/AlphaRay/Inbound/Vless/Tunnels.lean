import AlphaRay.Dispatcher.Simple
import AlphaRay.Inbound.Vless.Theorems

namespace AlphaRay

open Lib ByteStream

namespace SimpleDispatcher

variable {O S T : Type} [Outbound O T] {self : SimpleDispatcher O S T} {outbound : O}

theorem dispatch_connect {target : TargetAddr} {result : Except AlphaRayError T}
    (hconnect : (Outbound.connect target).Returns self.outbound result outbound) :
    (Dispatcher.dispatch (.Connect target)).Returns self (result.map .Connected)
      { self with outbound := outbound } := by
  rcases result with e | stream
  · exact hconnect.zoom.bind_error
  · exact hconnect.zoom.bind (.pure _ _)

theorem dispatch_tunnel (self : SimpleDispatcher O S T) (src : S) (dst : T) :
    (Dispatcher.dispatch (.Tunnel src dst)).Returns self (.ok .Tunneling)
      { self with tunnels := self.tunnels ++ [(src, dst)] } :=
  Async.Returns.bind (.act _ self) (.pure _ _)

end SimpleDispatcher

namespace VlessInbound

section Calls

variable {S D T : Type} [Dispatcher D S T] {src : S} {dispatcher after : D}

theorem dispatch_returns {req : InboundRequest S T}
    {result : Except AlphaRayError (DispatcherResponse T)}
    (h : (Dispatcher.dispatch req).Returns dispatcher result after) :
    (dispatch req).Returns (src, dispatcher) (.ok result) (src, after) := by
  refine Async.Returns.attempt ?_
  exact Async.Returns.zoom h

variable [AsyncStream S] {io : S}

theorem accept_ok {req : VlessRequest} (h : VlessProtocol.accept.Returns io (.ok req) src) :
    accept.Returns (io, dispatcher) (.ok req) (src, dispatcher) := by
  have hzoom : Async.Returns (.zoom Prod.fst (fun st stream => (stream, st.2))
      VlessProtocol.accept) (io, dispatcher) (.ok req) (src, dispatcher) := Async.Returns.zoom h
  exact hzoom.map_err _

theorem accept_error {e : Fault VlessError}
    (h : VlessProtocol.accept.Returns io (.error e) src) :
    ∃ e', accept.Returns (io, dispatcher) (.error e') (src, dispatcher) := by
  have hzoom : Async.Returns (.zoom Prod.fst (fun st stream => (stream, st.2))
      VlessProtocol.accept) (io, dispatcher) (.error e) (src, dispatcher) := Async.Returns.zoom h
  exact ⟨_, hzoom.map_err _⟩

end Calls

variable {S T O : Type} [AsyncStream S] [ByteStream S] [Outbound O T] {id : Uuid} {io : S}
  {self : SimpleDispatcher O S T}

-- The client is told that the tunnel is there before it is known whether it will be.
theorem handle_returns {req : VlessRequest} {rest : List UInt8} {result : Except AlphaRayError T}
    {outbound : O} (hparse : parse_request (pipe io).unread = (.ok req, rest))
    (hreq : Authenticated id req)
    (hconnect : (Outbound.connect req.target).Returns self.outbound result outbound) :
    ∃ src, (handle_vless_stream id).Returns (io, self) (.ok ()) (src, {
        outbound := outbound
        tunnels := self.tunnels ++ result.toOption.toList.map (src, ·) }) ∧
      pipe src = ⟨rest, (pipe io).written ++ [0, 0]⟩ := by
  obtain ⟨hid, hcommand⟩ := hreq
  obtain ⟨src, haccept, hpipe⟩ := VlessProtocol.accept_returns io
  rw [hparse] at haccept hpipe
  have hdispatch : (dispatch (.Connect req.target)).Returns (src, self)
      (.ok (result.map .Connected)) (src, { self with outbound := outbound }) :=
    dispatch_returns (SimpleDispatcher.dispatch_connect hconnect)
  refine ⟨src, (accept_ok haccept).bind ?_, hpipe⟩
  simp only [hid, ne_eq, not_true_eq_false, if_false, hcommand]
  refine (Async.Returns.peek _).bind (hdispatch.bind ?_)
  rcases result with e | dst
  · have hsame : self.tunnels ++ (Except.toOption (.error e)).toList.map (src, ·) =
        (self.tunnels : List (S × T)) := List.append_nil _
    rw [hsame]
    exact .pure _ _
  · refine (dispatch_returns (SimpleDispatcher.dispatch_tunnel _ src dst)).bind ?_
    exact .pure _ _

-- A client that is not authenticated costs the dispatcher nothing.
theorem handle_refuses (hrefused : Parses (pipe io).unread (¬ Authenticated id ·)) :
    ∃ e src, (handle_vless_stream id).Returns (io, self) (.error e) (src, self) := by
  obtain ⟨src, haccept, -⟩ := VlessProtocol.accept_returns io
  rcases hparse : (parse_request (pipe io).unread).1 with e | req
  · rw [hparse] at haccept
    obtain ⟨e', hrefused⟩ : ∃ e', accept.Returns (io, self) (.error e') (src, self) :=
      accept_error haccept
    exact ⟨e', src, hrefused.bind_error⟩
  · rw [hparse] at haccept
    have hreq := hrefused req hparse
    refine ⟨if req.id ≠ id then .Failed .Permission
      else .Failed (.Vless (.InvalidCommand req.command.as_u8)), src, (accept_ok haccept).bind ?_⟩
    by_cases hid : req.id = id
    · simp only [hid, ne_eq, not_true_eq_false, if_false]
      cases hname : req.command with
      | Tcp => exact absurd ⟨hid, hname⟩ hreq
      | Udp => exact .throw _ _
      | Mux => exact .throw _ _
    · simp only [ne_eq, hid, not_false_eq_true, if_true]
      exact .throw _ _

end VlessInbound

-- An outbound that reaches every address, and keeps which ones.
structure Reachable where
  targets : List TargetAddr

instance : Outbound Reachable Channel where
  connect target := do
    Async.act fun self => ((), { self with targets := self.targets ++ [target] })
    return ⟨[], [], [some 0, none]⟩

theorem reachable_connects (self : Reachable) (target : TargetAddr) :
    (Outbound.connect target).Returns self (.ok (⟨[], [], [some 0, none]⟩ : Channel))
      ⟨self.targets ++ [target]⟩ :=
  Async.Returns.bind (.act _ self) (.pure _ _)

-- With the dispatcher of the program the server tunnels exactly for authenticated requests,
-- one tunnel for each that its outbound connects, between what the client sends behind its
-- request and the stream of the outbound. Whether it connects, the client is told the same.
theorem vless_server_tunnels {S T O : Type} [AsyncStream S] [ByteStream S] [Outbound O T]
    (id : Uuid) (io : S) (self : SimpleDispatcher O S T) :
    (∀ req rest result outbound, parse_request (pipe io).unread = (.ok req, rest) →
      VlessInbound.Authenticated id req →
      (Outbound.connect req.target).Returns self.outbound result outbound →
      ∃ src, (VlessInbound.handle_vless_stream id).Returns (io, self) (.ok ()) (src, {
          outbound := outbound
          tunnels := self.tunnels ++ result.toOption.toList.map (src, ·) }) ∧
        pipe src = ⟨rest, (pipe io).written ++ [0, 0]⟩) ∧
    (VlessInbound.Parses (pipe io).unread (¬ VlessInbound.Authenticated id ·) →
      ∃ e src, (VlessInbound.handle_vless_stream id).Returns (io, self) (.error e) (src, self)) :=
  ⟨fun _ _ _ _ hparse hreq hconnect => VlessInbound.handle_returns hparse hreq hconnect,
    VlessInbound.handle_refuses⟩

open VlessInbound

def reachableDispatcher : SimpleDispatcher Reachable Channel Channel := ⟨⟨[]⟩, []⟩

-- The tunnel of the client with the right id begins with the byte behind its request; the
-- other client gets none.
theorem vless_server_tunnels_to_one :
    ∃ src e other,
      (handle_vless_stream configuredId).Returns
        (⟨requestOfConfigured ++ [5], [], []⟩, reachableDispatcher) (.ok ())
        (src, ⟨⟨[.SocketAddr (.V4 ⟨⟨[127, 0, 0, 1], rfl⟩⟩ 443)]⟩,
          [(src, ⟨[], [], [some 0, none]⟩)]⟩) ∧
      src.unread = [5] ∧ src.written = [0, 0] ∧
      (handle_vless_stream configuredId).Returns (⟨requestOfOther, [], []⟩, reachableDispatcher)
        (.error e) (other, reachableDispatcher) := by
  have hparse := parse_request_bytes_nil configuredId .Tcp 443 (.ipv4 ⟨⟨[127, 0, 0, 1], rfl⟩⟩) [5]
  obtain ⟨htunnel, -⟩ := vless_server_tunnels configuredId
    (⟨requestOfConfigured ++ [5], [], []⟩ : Channel) reachableDispatcher
  obtain ⟨-, hrefuse⟩ := vless_server_tunnels configuredId
    (⟨requestOfOther, [], []⟩ : Channel) reachableDispatcher
  obtain ⟨src, hsrc, hpipe⟩ := htunnel _ _ _ _ hparse ⟨rfl, rfl⟩ (reachable_connects ⟨[]⟩ _)
  obtain ⟨e, other, hother⟩ := hrefuse requestOfOther_refused
  exact ⟨src, e, other, hsrc, congrArg Pipe.unread hpipe, congrArg Pipe.written hpipe, hother⟩

end AlphaRay
