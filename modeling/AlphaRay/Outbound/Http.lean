import AlphaRay.Inbound.Http
import AlphaRay.Outbound

namespace AlphaRay

open Lib Net

def StatusCode.to_string : StatusCode → String
  | OK => "200 OK"
  | BAD_REQUEST => "400 Bad Request"
  | METHOD_NOT_ALLOWED => "405 Method Not Allowed"

structure ConnectRequest where
  method : Method
  uri : String
  host : String
  deriving DecidableEq

-- The network of the host and the HTTP library on it. The library builds a request when it
-- takes its parts for valid.
class HttpClient (N : Type) (T : outParam Type) where
  lookup_host : String → UInt16 → Async N IoError (List SocketAddr)
  connect : SocketAddr → Async N IoError Unit
  handshake : Async N HttpStreamError Unit
  build : ConnectRequest → Async N HttpError Unit
  send_request : ConnectRequest → Async N HttpStreamError StatusCode
  upgrade : Async N HttpStreamError T

structure HttpOutbound (N : Type) where
  server_addr : SocketAddr
  net : N

namespace HttpOutbound

variable {N T : Type} [HttpClient N T]

-- The proxy is only asked for addresses: a name is looked up before.
def resolve : TargetAddr → Async N AlphaRayError SocketAddr
  | .SocketAddr addr => return addr
  | .Domain name port => do
      match ← .map_err .Io (HttpClient.lookup_host name port) with
      | addr :: _ => return addr
      | [] => throw (.Other "Empty DNS response")

def request (target_addr : SocketAddr) : ConnectRequest where
  method := .CONNECT
  uri := String.ofList target_addr.fmt
  host := String.ofList target_addr.fmt

def ask (server_addr target_addr : SocketAddr) : Async N AlphaRayError T := do
  .map_err .Io (HttpClient.connect server_addr)
  .map_err .HttpStream HttpClient.handshake
  .map_err .Http (HttpClient.build (request target_addr))
  let status ← .map_err .HttpStream (HttpClient.send_request (request target_addr))
  if status = .OK then .map_err .HttpStream HttpClient.upgrade
  else throw (.Other ("server responded with status code `" ++ status.to_string ++ "`"))

instance : Outbound (HttpOutbound N) T where
  connect target := do
    let self ← Async.peek
    .zoom HttpOutbound.net (fun self net => { self with net := net }) (do
      let target_addr ← resolve target
      ask self.server_addr target_addr)

end HttpOutbound

-- The flow label is not printed.
def SocketAddr.unlabelled : SocketAddr → SocketAddr
  | .V4 ip port => .V4 ip port
  | .V6 ip port _ scope_id => .V6 ip port 0 scope_id

-- Every address is read from its text.
theorem SocketAddr.from_str_text (addr : SocketAddr) :
    SocketAddr.from_str (String.ofList addr.fmt) = some addr.unlabelled := by
  cases addr with
  | V4 ip port =>
      have hip := run_read_ipv4_addr ip (stops_nil 10)
      rw [List.append_nil] at hip
      rw [from_str_eq_some, String.toList_ofList]
      exact .inl (run_read_socket_addr_v4 hip (run_read_port_decimal port))
  | V6 ip port flowinfo scope_id =>
      exact from_str_bracket String.toList_ofList
        (run_read_socket_addr_v6 (run_read_scoped ip scope_id) (run_read_port_decimal port))

-- What the HTTP library at the other end makes of a request: its method, and the authority of
-- its URI.
class HttpServer (N : Type) where
  receive : ConnectRequest → Method × Option String

-- A network whose proxy is the program's own inbound, with the targets of the tunnels that
-- it waits for.
structure Proxied (N : Type) where
  net : N
  waiting : List TargetAddr

namespace Proxied

variable {N T ε α : Type}

def carry (m : Async N ε α) : Async (Proxied N) ε α :=
  .zoom Proxied.net (fun self net => { self with net := net }) m

def service [HttpServer N] (req : ConnectRequest) : Async (Proxied N) ε StatusCode :=
  .act fun self =>
    let (method, authority) := HttpServer.receive N req
    let (response, target) := HttpInbound.service method authority
    (response.status, { self with waiting := self.waiting ++ target.toList })

-- What the network loses does not reach the proxy.
instance [HttpClient N T] [HttpServer N] : HttpClient (Proxied N) T where
  lookup_host name port := carry (HttpClient.lookup_host name port)
  connect addr := carry (HttpClient.connect addr)
  handshake := carry HttpClient.handshake
  build req := carry (HttpClient.build req)
  send_request req := do
    let _ ← carry (HttpClient.send_request req)
    service req
  upgrade := carry HttpClient.upgrade

theorem carry_returns {m : Async N ε α} {result : Except ε α} {inner : N} (net : Proxied N)
    (h : m.Returns net.net result inner) :
    (carry m).Returns net result { net with net := inner } := by
  exact h.zoom

-- The inbound understands what the outbound asks it for.
theorem service_returns [HttpServer N] {addr : SocketAddr}
    (hreceive : HttpServer.receive N (HttpOutbound.request addr) =
      (.CONNECT, some (String.ofList addr.fmt))) (net : Proxied N) :
    (service (HttpOutbound.request addr) : Async (Proxied N) ε StatusCode).Returns net (.ok .OK)
      { net with waiting := net.waiting ++ [.SocketAddr addr.unlabelled] } := by
  have hread : HttpInbound.service .CONNECT (some (String.ofList addr.fmt)) =
      (⟨.OK, .Text ""⟩, some (.SocketAddr addr.unlabelled)) := by
    simp only [HttpInbound.service, ne_eq, not_true_eq_false, if_false,
      TargetAddr.from_str_of_literal addr.from_str_text]
  refine ⟨0, fun fuel _ => ?_⟩
  rw [service, Async.act, Async.run_of, hreceive]
  dsimp only
  rw [hread]
  rfl

end Proxied

-- The calls of the network return, with whatever they have to report.
structure HttpClient.Answers (N T : Type) [HttpClient N T] : Prop where
  lookup_host : ∀ name port (net : N), ∃ found after,
    (lookup_host name port).Returns net found after
  connect : ∀ addr (net : N), ∃ result after, (connect addr).Returns net result after
  handshake : ∀ net : N, ∃ result after, handshake.Returns net result after
  build : ∀ req (net : N), ∃ result after, (build req).Returns net result after
  send_request : ∀ req (net : N), ∃ result after, (send_request req).Returns net result after
  upgrade : ∀ net : N, ∃ result after, upgrade.Returns net result after

namespace HttpOutbound

variable {N T : Type} [HttpClient N T] [HttpServer N]

theorem resolve_returns (hnet : HttpClient.Answers N T) (target : TargetAddr) (net : Proxied N) :
    ∃ found inner, (resolve target).Returns net.net found inner ∧
      (resolve target).Returns net found { net with net := inner } := by
  cases target with
  | SocketAddr addr => exact ⟨.ok addr, net.net, .pure _ _, .pure _ _⟩
  | Domain name port =>
      obtain ⟨found, inner, hlookup⟩ := hnet.lookup_host name port net.net
      rcases found with e | _ | ⟨addr, addrs⟩
      · exact ⟨_, inner, (hlookup.map_err _).bind_error,
          ((Proxied.carry_returns net hlookup).map_err _).bind_error⟩
      · exact ⟨_, inner, (hlookup.map_err _).bind (.throw _ _),
          ((Proxied.carry_returns net hlookup).map_err _).bind (.throw _ _)⟩
      · exact ⟨_, inner, (hlookup.map_err _).bind (.pure _ _),
          ((Proxied.carry_returns net hlookup).map_err _).bind (.pure _ _)⟩

theorem ask_returns (hnet : HttpClient.Answers N T)
    (hreceive : ∀ addr : SocketAddr, HttpServer.receive N (request addr) =
      (.CONNECT, some (String.ofList addr.fmt)))
    (server_addr target_addr : SocketAddr) (net : Proxied N) :
    ∃ result after, (ask server_addr target_addr).Returns net result after ∧
      ((after.waiting = net.waiting ∧ ∃ e, result = .error e) ∨
        after.waiting = net.waiting ++ [.SocketAddr target_addr.unlabelled]) := by
  obtain ⟨connected, net₁, hconnect⟩ := hnet.connect server_addr net.net
  have hconnect := (Proxied.carry_returns net hconnect).map_err AlphaRayError.Io
  rcases connected with e | _
  · exact ⟨_, _, hconnect.bind_error, .inl ⟨rfl, _, rfl⟩⟩
  obtain ⟨shaken, net₂, hshake⟩ := hnet.handshake net₁
  have hshake :=
    (Proxied.carry_returns { net with net := net₁ } hshake).map_err AlphaRayError.HttpStream
  rcases shaken with e | _
  · exact ⟨_, _, hconnect.bind hshake.bind_error, .inl ⟨rfl, _, rfl⟩⟩
  obtain ⟨built, net₃, hbuild⟩ := hnet.build (request target_addr) net₂
  have hbuild :=
    (Proxied.carry_returns { net with net := net₂ } hbuild).map_err AlphaRayError.Http
  rcases built with e | _
  · exact ⟨_, _, hconnect.bind (hshake.bind hbuild.bind_error), .inl ⟨rfl, _, rfl⟩⟩
  obtain ⟨sent, net₄, hsent⟩ := hnet.send_request (request target_addr) net₃
  have hsent := Proxied.carry_returns { net with net := net₃ } hsent
  rcases sent with e | status
  · have hfailed := hsent.bind_error (f := fun _ => Proxied.service (request target_addr))
    exact ⟨_, _, hconnect.bind (hshake.bind (hbuild.bind
      (hfailed.map_err AlphaRayError.HttpStream).bind_error)), .inl ⟨rfl, _, rfl⟩⟩
  have hservice : (Proxied.service (request target_addr) :
      Async (Proxied N) HttpStreamError StatusCode).Returns { net with net := net₄ } (.ok .OK) _ :=
    Proxied.service_returns (hreceive target_addr) _
  have hanswered := (hsent.bind (f := fun _ => Proxied.service (request target_addr))
    hservice).map_err AlphaRayError.HttpStream
  obtain ⟨result, net₅, hupgrade⟩ := hnet.upgrade net₄
  have hupgrade := (Proxied.carry_returns
    ⟨net₄, net.waiting ++ [.SocketAddr target_addr.unlabelled]⟩ hupgrade).map_err
      AlphaRayError.HttpStream
  refine ⟨result.mapError .HttpStream,
    ⟨net₅, net.waiting ++ [.SocketAddr target_addr.unlabelled]⟩, ?_, .inr rfl⟩
  refine hconnect.bind (hshake.bind (hbuild.bind (hanswered.bind ?_)))
  rw [if_pos rfl]
  exact hupgrade

end HttpOutbound

-- The two HTTP ends of the program. Whatever the network between them does: when a name is
-- not resolved, the proxy is not asked, and otherwise it waits for a tunnel to nothing but the
-- first address of the answer. It does so whenever the outbound has got its stream.
theorem http_outbound_reaches_inbound {N T : Type} [HttpClient N T] [HttpServer N]
    (hnet : HttpClient.Answers N T)
    (hreceive : ∀ addr : SocketAddr, HttpServer.receive N (HttpOutbound.request addr) =
      (.CONNECT, some (String.ofList addr.fmt)))
    (self : HttpOutbound (Proxied N)) (target : TargetAddr) :
    ∃ found inner result after,
      (HttpOutbound.resolve target).Returns self.net.net found inner ∧
      (Outbound.connect target).Returns self result { self with net := after } ∧
      (∀ e, found = .error e → result = .error e ∧ after.waiting = self.net.waiting) ∧
      ∀ addr, found = .ok addr →
        (after.waiting = self.net.waiting ∧ ∃ e, result = .error e) ∨
        after.waiting = self.net.waiting ++ [.SocketAddr addr.unlabelled] := by
  obtain ⟨found, inner, hfound, hresolve⟩ := HttpOutbound.resolve_returns hnet target self.net
  rcases found with e | addr
  · refine ⟨_, inner, .error e, { self.net with net := inner }, hfound, ?_, ?_, ?_⟩
    · exact (Async.Returns.peek _).bind hresolve.bind_error.zoom
    · intro e' he
      cases he
      exact ⟨rfl, rfl⟩
    · intro addr haddr
      cases haddr
  · obtain ⟨result, after, hask, hwaiting⟩ :=
      HttpOutbound.ask_returns hnet hreceive self.server_addr addr { self.net with net := inner }
    refine ⟨_, inner, result, after, hfound, ?_, ?_, ?_⟩
    · exact (Async.Returns.peek _).bind (hresolve.bind hask).zoom
    · intro e he
      cases he
    · intro addr' haddr
      cases haddr
      exact hwaiting

-- A network on which everything goes well, and names have one address.
structure Smooth where
  addr : SocketAddr

instance : HttpClient Smooth Unit where
  lookup_host _ _ := do
    let self ← Async.peek
    return [self.addr]
  connect _ := return ()
  handshake := return ()
  build _ := return ()
  send_request _ := return .OK
  upgrade := return ()

instance : HttpServer Smooth where
  receive req := (req.method, some req.uri)

theorem http_outbound_reaches_inbound_smooth :
    ∃ found inner result after,
      (HttpOutbound.resolve (.Domain "a" 80)).Returns (⟨Handler.bound_addr⟩ : Smooth) found inner ∧
      (Outbound.connect (.Domain "a" 80)).Returns
        (⟨Handler.bound_addr, ⟨⟨Handler.bound_addr⟩, []⟩⟩ : HttpOutbound (Proxied Smooth)) result
        ⟨Handler.bound_addr, after⟩ ∧
      (∀ e, found = .error e → result = .error e ∧ after.waiting = []) ∧
      ∀ addr, found = .ok addr → (after.waiting = [] ∧ ∃ e, result = .error e) ∨
        after.waiting = [.SocketAddr addr.unlabelled] := by
  have hnet : HttpClient.Answers Smooth Unit :=
    { lookup_host := fun _ _ net => ⟨_, net, (Async.Returns.peek net).bind (.pure _ net)⟩
      connect := fun _ net => ⟨_, net, .pure _ net⟩
      handshake := fun net => ⟨_, net, .pure _ net⟩
      build := fun _ net => ⟨_, net, .pure _ net⟩
      send_request := fun _ net => ⟨_, net, .pure _ net⟩
      upgrade := fun net => ⟨_, net, .pure _ net⟩ }
  exact http_outbound_reaches_inbound hnet (fun _ => rfl)
    ⟨Handler.bound_addr, ⟨⟨Handler.bound_addr⟩, []⟩⟩ (.Domain "a" 80)

end AlphaRay
