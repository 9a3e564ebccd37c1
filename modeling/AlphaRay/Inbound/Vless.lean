import AlphaRay.Error

namespace AlphaRay

open Lib

-- A tunnel is between the client's stream and a stream of the dispatcher's kind.
inductive InboundRequest (S T : Type) where
  | Connect (target : TargetAddr)
  | Tunnel (src : S) (dst : T)
  deriving DecidableEq

inductive DispatcherResponse (T : Type) where
  | Connected (stream : T)
  | Tunneling

-- The dispatcher is handed to the inbound as a trait object, so it may do anything
-- with a request.
class Dispatcher (D : Type) (S T : outParam Type) where
  dispatch : InboundRequest S T → Async D AlphaRayError (DispatcherResponse T)

namespace VlessInbound

variable {S D T : Type} [AsyncStream S] [Dispatcher D S T]

def accept : Async (S × D) (Fault AlphaRayError) VlessRequest :=
  .map_err (fun
    | .Panicked panic => .Panicked panic
    | .Failed e => .Failed (.Vless e))
    (.zoom Prod.fst (fun st stream => (stream, st.2)) VlessProtocol.accept)

-- A call of the dispatcher whose errors are only logged.
def dispatch (req : InboundRequest S T) :
    Async (S × D) (Fault AlphaRayError) (Except AlphaRayError (DispatcherResponse T)) :=
  .attempt (.zoom Prod.snd (fun st dispatcher => (st.1, dispatcher)) (Dispatcher.dispatch req))

def handle_vless_stream (id : Uuid) : Async (S × D) (Fault AlphaRayError) Unit := do
  let req ← accept
  if req.id ≠ id then throw (.Failed .Permission)
  else
    match req.command with
    | .Tcp =>
        let (src, _) ← Async.peek
        match ← dispatch (.Connect req.target) with
        | .ok (.Connected dst) =>
            match ← dispatch (.Tunnel src dst) with
            | .ok .Tunneling => return ()
            | .ok (.Connected _) => return () -- Tunneling was not started
            | .error _ => return () -- Failed to proxy
        | .ok .Tunneling => return ()
        | .error _ => return () -- Failed to proxy
    | c => throw (.Failed (.Vless (.InvalidCommand c.as_u8)))

end VlessInbound

-- A dispatcher that behaves as the one it wraps and keeps a log of the requests.
structure Watched (D S T : Type) where
  dispatcher : D
  requests : List (InboundRequest S T)

instance {D S T : Type} [Dispatcher D S T] : Dispatcher (Watched D S T) S T where
  dispatch req := do
    Async.act fun st => ((), { st with requests := st.requests ++ [req] })
    .zoom Watched.dispatcher (fun st dispatcher => { st with dispatcher := dispatcher })
      (Dispatcher.dispatch req)

end AlphaRay
