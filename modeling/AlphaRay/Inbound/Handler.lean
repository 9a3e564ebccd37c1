import AlphaRay.Inbound.Vless
import AlphaRay.Lib.Program

namespace AlphaRay

open Lib

-- The commands, the replies and the addresses of the SOCKS library.
inductive Socks5Command where
  | TCPConnect
  | TCPBind
  | UDPAssociate
  deriving DecidableEq

inductive ReplyError where
  | HostUnreachable
  | CommandNotSupported
  deriving DecidableEq

inductive SocksAddr where
  | Ip (addr : SocketAddr)
  | Domain (domain : String) (port : UInt16)
  deriving DecidableEq

def TargetAddr.of_socks : SocksAddr → TargetAddr
  | .Ip a => .SocketAddr a
  | .Domain d p => .Domain d p

theorem length_localhost : ([127, 0, 0, 1] : List UInt8).length = 4 := rfl

def Ipv4Addr.localhost : Ipv4Addr := ⟨⟨[127, 0, 0, 1], length_localhost⟩⟩

-- The SOCKS library speaks with a client over its stream, with errors of its own.
class Socks5Server (S : Type) (E : outParam Type) where
  peer_addr : Async S IoError SocketAddr
  accept_no_auth : Async S E Unit
  read_command : Async S E (Socks5Command × SocksAddr)
  reply_success : SocketAddr → Async S E Unit
  reply_error : ReplyError → Async S E Unit
  into : ReplyError → E

-- What a handler does on the stream of its client. At last it hands the stream on.
inductive Ask where
  | accept
  | peer_addr
  | accept_no_auth
  | read_command
  | reply_success (addr : SocketAddr)
  | reply_error (error : ReplyError)
  | take
  deriving DecidableEq

def Ask.Reply (S E : Type) : Ask → Type
  | accept => Except (Fault VlessError) VlessRequest
  | peer_addr => Except IoError SocketAddr
  | accept_no_auth | reply_success _ | reply_error _ => Except E Unit
  | read_command => Except E (Socks5Command × SocksAddr)
  | take => S

def Ask.Does {S E : Type} [AsyncStream S] [Socks5Server S E] :
    (q : Ask) → S → q.Reply S E → S → Prop
  | accept, io, reply, after => VlessProtocol.accept.Returns io reply after
  | peer_addr, io, reply, after => Socks5Server.peer_addr.Returns io reply after
  | accept_no_auth, io, reply, after => Socks5Server.accept_no_auth.Returns io reply after
  | read_command, io, reply, after => Socks5Server.read_command.Returns io reply after
  | reply_success addr, io, reply, after => (Socks5Server.reply_success addr).Returns io reply after
  | reply_error error, io, reply, after => (Socks5Server.reply_error error).Returns io reply after
  | take, io, reply, after => reply = io ∧ after = io

-- `AlphaRayError`, with its `Socks` apart, or a panic.
inductive HandlerError (E : Type) where
  | Panicked (panic : Panic)
  | Failed (error : AlphaRayError)
  | Socks (error : E)
  deriving DecidableEq

-- A handler as a program of its own: it asks its client's stream and calls the dispatcher,
-- which it shares with all other handlers.
abbrev Handler (S E T : Type) : Type → Type :=
  ExceptT (HandlerError E) (Program Ask (Ask.Reply S E) (InboundRequest S T)
    (Except AlphaRayError (DispatcherResponse T)))

namespace Handler

variable {S E T α : Type}

def ask (q : Ask) : Handler S E T (q.Reply S E) := ExceptT.lift (Program.ask q)

def dispatch (req : InboundRequest S T) :
    Handler S E T (Except AlphaRayError (DispatcherResponse T)) :=
  ExceptT.lift (Program.request req)

-- `?` on what the VLESS and the SOCKS protocol answer.
def vless : Except (Fault VlessError) α → Handler S E T α
  | .ok a => return a
  | .error (.Panicked panic) => throw (.Panicked panic)
  | .error (.Failed e) => throw (.Failed (.Vless e))

def socks : Except E α → Handler S E T α
  | .ok a => return a
  | .error e => throw (.Socks e)

def unwrap : Except IoError α → Handler S E T α
  | .ok a => return a
  | .error _ => throw (.Panicked .Unwrap)

-- What all handlers do for a target, with the stream they hand on and what they say to
-- the client when it is not reached.
def proxy (target : TargetAddr) (src : Handler S E T S) (refused : Handler S E T Unit) :
    Handler S E T Unit := do
  match ← dispatch (.Connect target) with
  | .ok (.Connected dst) =>
      let src ← src
      match ← dispatch (.Tunnel src dst) with
      | .ok .Tunneling => return ()
      | .ok (.Connected _) => return () -- Tunneling was not started
      | .error _ => return () -- Failed to proxy
  | .ok .Tunneling => return ()
  | .error _ => refused -- Failed to proxy

def handle_vless_stream (id : Uuid) : Handler S E T Unit := do
  let req ← vless (← ask .accept)
  if req.id ≠ id then throw (.Failed .Permission)
  else
    match req.command with
    | .Tcp => proxy req.target (ask .take) (return ())
    | c => throw (.Failed (.Vless (.InvalidCommand c.as_u8)))

def handle_upgraded (target : TargetAddr) : Handler S E T Unit :=
  proxy target (ask .take) (return ())

def bound_addr : SocketAddr := .V4 .localhost 0

def handle_socks5_stream [AsyncStream S] [Socks5Server S E] : Handler S E T Unit := do
  let _ ← unwrap (← ask .peer_addr)
  socks (← ask .accept_no_auth)
  let (cmd, target_addr) ← socks (← ask .read_command)
  match cmd with
  | .TCPConnect =>
      proxy (.of_socks target_addr)
        (do
          socks (← ask (.reply_success bound_addr))
          ask .take)
        (do
          socks (← ask (.reply_error .HostUnreachable)))
  | _ => do
      socks (← ask (.reply_error .CommandNotSupported))
      throw (.Socks (Socks5Server.into S .CommandNotSupported))

end Handler

end AlphaRay
