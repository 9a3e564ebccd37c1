import AlphaRay.Inbound.Vless
import AlphaRay.Outbound

namespace AlphaRay

open Lib

-- The dispatcher with the tunnels that it has spawned: each of them copies between its
-- two streams, in both directions.
structure SimpleDispatcher (O S T : Type) where
  outbound : O
  tunnels : List (S × T)

namespace SimpleDispatcher

variable {O S T : Type}

instance [Outbound O T] : Dispatcher (SimpleDispatcher O S T) S T where
  dispatch
    | .Connect target => do
        let stream ← .zoom SimpleDispatcher.outbound
          (fun self outbound => { self with outbound := outbound }) (Outbound.connect target)
        return .Connected stream
    | .Tunnel src dst => do
        Async.act fun self => ((), { self with tunnels := self.tunnels ++ [(src, dst)] })
        return .Tunneling

end SimpleDispatcher

end AlphaRay
