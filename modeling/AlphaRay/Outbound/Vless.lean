import AlphaRay.Outbound
import AlphaRay.Protocol.Vless.Layers
import AlphaRay.Protocol.Vless.Refinement

namespace AlphaRay

open Lib ByteStream

structure VlessOutbound (O : Type) where
  inner : O
  server_addr : SocketAddr
  uuid : Uuid

-- `?` on the connect of a stream, which does not panic.
def AlphaRayError.of_vless : Fault VlessError → AlphaRayError
  | .Failed e => .Vless e
  | .Panicked _ => .Other ""

namespace VlessOutbound

variable {O T : Type}

def request (self : VlessOutbound O) (target : TargetAddr) : VlessRequest where
  version := .Zero
  id := self.uuid
  command := .Tcp
  target := target

instance [AsyncStream T] [Outbound O T] : Outbound (VlessOutbound O) (VlessStream T) where
  connect target := do
    let self ← Async.peek
    let stream ← .zoom VlessOutbound.inner (fun self inner => { self with inner := inner })
      (Outbound.connect (.SocketAddr self.server_addr))
    let (_, stream) ← Async.with_var (VlessStream.new stream)
      (.zoom Prod.snd (fun st stream => (st.1, stream))
        (.map_err AlphaRayError.of_vless (VlessStream.connect (self.request target))))
    return stream

variable [AsyncStream T] [Outbound O T] {self : VlessOutbound O} {inner : O}

-- The server is reached through the inner outbound, and is sent the request.
theorem connect_returns {target : TargetAddr} {stream after : T}
    (hinner : (Outbound.connect (.SocketAddr self.server_addr)).Returns self.inner (.ok stream)
      inner)
    (hwrite : (write_and_flush (self.request target).to_bytes).Returns stream (.ok ()) after) :
    (Outbound.connect target).Returns self (.ok (VlessStream.new after))
      { self with inner := inner } := by
  refine (Async.Returns.peek self).bind (hinner.zoom.bind ?_)
  have hconnect : (VlessStream.connect (self.request target)).Returns (VlessStream.new stream)
      (.ok ()) (VlessStream.new after) := hwrite.zoom
  have hvar : Async.Returns (.zoom Prod.snd (fun st stream => (st.1, stream))
      (.map_err AlphaRayError.of_vless (VlessStream.connect (self.request target))))
      ({ self with inner := inner }, VlessStream.new stream) (.ok ())
      ({ self with inner := inner }, VlessStream.new after) := by
    refine Async.Returns.zoom ?_
    exact hconnect.map_err AlphaRayError.of_vless
  exact hvar.with_var.bind (.pure _ _)

-- A server that is not reached is sent nothing.
theorem connect_fails {target : TargetAddr} {e : AlphaRayError}
    (hinner : (Outbound.connect (.SocketAddr self.server_addr)).Returns self.inner (.error e)
      inner) :
    (Outbound.connect target).Returns self (.error e) { self with inner := inner } :=
  (Async.Returns.peek self).bind hinner.zoom.bind_error

end VlessOutbound

end AlphaRay
