import AlphaRay.Transport.Tcp
import AlphaRay.Util.ByteStream

namespace AlphaRay

open Lib

class StreamOutboundSecurity (X : Type) (T : Type) (U : outParam Type) where
  wrap : T → Async X AlphaRayError U

class StreamOutboundNetwork (Y : Type) (U : Type) (V : outParam Type) where
  upgrade : U → Async Y AlphaRayError V

structure NoneSecurity where

structure NoneNetwork where

instance {T : Type} : StreamOutboundSecurity NoneSecurity T T where
  wrap stream := return stream

instance {U : Type} : StreamOutboundNetwork NoneNetwork U U where
  upgrade stream := return stream

structure StreamOutboundPipeline (A X Y : Type) where
  transport : A
  security : X
  network : Y

namespace StreamOutboundPipeline

variable {A X Y T U V : Type}

instance [StreamOutboundTransport A T] [StreamOutboundSecurity X T U]
    [StreamOutboundNetwork Y U V] : Outbound (StreamOutboundPipeline A X Y) V where
  connect target := do
    let stream ← .zoom StreamOutboundPipeline.transport
      (fun self transport => { self with transport := transport })
      (StreamOutboundTransport.connect target)
    let stream ← .zoom StreamOutboundPipeline.security
      (fun self security => { self with security := security })
      (StreamOutboundSecurity.wrap stream)
    .zoom StreamOutboundPipeline.network (fun self network => { self with network := network })
      (StreamOutboundNetwork.upgrade stream)

-- A pipeline that adds nothing to its transport connects as that does.
theorem connect_plain [StreamOutboundTransport A T]
    {self : StreamOutboundPipeline A NoneSecurity NoneNetwork} {target : TargetAddr}
    {result : Except AlphaRayError T} {transport : A}
    (h : (StreamOutboundTransport.connect target).Returns self.transport result transport) :
    (Outbound.connect target).Returns self result { self with transport := transport } := by
  rcases result with e | stream
  · exact h.zoom.bind_error
  · have hwrap : (StreamOutboundSecurity.wrap stream).Returns self.security (.ok stream)
        self.security := .pure stream _
    have hupgrade : (StreamOutboundNetwork.upgrade stream).Returns self.network (.ok stream)
        self.network := .pure stream _
    refine h.zoom.bind (Async.Returns.bind (Async.Returns.zoom hwrap) ?_)
    exact Async.Returns.zoom hupgrade

end StreamOutboundPipeline

-- The pipeline that dials a target itself. A name is looked up, and the addresses are tried
-- in the order of the answer until the first one is reached, and none behind it. No address
-- is tried when the lookup fails.
theorem tcp_pipeline_dials_in_order {N T : Type} [Network N T] (hnet : Network.Answers N T)
    (self : StreamOutboundPipeline (TcpOutboundTransport (Dialling N T)) NoneSecurity NoneNetwork)
    (target : TargetAddr) :
    ∃ found inner result after,
      (TcpOutboundTransport.addrs target).Returns self.transport.net.net found inner ∧
      (Outbound.connect target).Returns self result
        { self with transport := { self.transport with net := after } } ∧
      ((∃ e, found = .error e ∧ result = .error e ∧ after.dials = self.transport.net.dials) ∨
        ∃ addrs, found = .ok addrs ∧
          TcpOutboundTransport.DialsFirst addrs self.transport.net result after) := by
  obtain ⟨found, inner, hfound, haddrs⟩ := TcpOutboundTransport.addrs_returns hnet target
    self.transport.net
  rcases found with e | addrs
  · refine ⟨_, inner, .error e, { self.transport.net with net := inner }, hfound, ?_,
      .inl ⟨e, rfl, rfl, rfl⟩⟩
    exact StreamOutboundPipeline.connect_plain
      ((Async.Returns.peek _).bind haddrs.bind_error.zoom)
  · obtain ⟨result, after, hdial, hfirst⟩ := TcpOutboundTransport.dial_returns hnet
      self.transport.timeout addrs { self.transport.net with net := inner }
    refine ⟨_, inner, result, after, hfound, ?_, .inr ⟨addrs, rfl, hfirst⟩⟩
    exact StreamOutboundPipeline.connect_plain
      ((Async.Returns.peek _).bind (haddrs.bind hdial).zoom)

-- Hosts that are up. Every name is that of two of them.
structure Hosts where
  up : List SocketAddr

def hostAt (last : UInt8) (port : UInt16) : SocketAddr :=
  .V4 ⟨⟨[10, 0, 0] ++ [last], List.length_append⟩⟩ port

instance : Network Hosts Channel where
  lookup_host _ port := return [hostAt 1 port, hostAt 2 port]
  connect _ addr := do
    let self ← Async.peek
    if addr ∈ self.up then return ⟨[], [], []⟩ else throw none

theorem hosts_answer : Network.Answers Hosts Channel where
  lookup_host _ _ net := ⟨_, net, .pure _ net⟩
  connect _ addr net := by
    by_cases h : addr ∈ net.up
    · refine ⟨.ok ⟨[], [], []⟩, net, (Async.Returns.peek net).bind ?_⟩
      rw [if_pos h]
      exact .pure _ net
    · refine ⟨.error none, net, (Async.Returns.peek net).bind ?_⟩
      rw [if_neg h]
      exact .throw _ net

theorem tcp_pipeline_dials_in_order_hosts :
    ∃ found inner result after,
      (TcpOutboundTransport.addrs (.Domain "a" 80)).Returns (⟨[hostAt 2 80]⟩ : Hosts) found inner ∧
      (Outbound.connect (.Domain "a" 80)).Returns
        (⟨.new ⟨⟨[hostAt 2 80]⟩, []⟩, ⟨⟩, ⟨⟩⟩ : StreamOutboundPipeline
          (TcpOutboundTransport (Dialling Hosts Channel)) NoneSecurity NoneNetwork) result
        ⟨⟨30, after⟩, ⟨⟩, ⟨⟩⟩ ∧
      ((∃ e, found = .error e ∧ result = .error e ∧ after.dials = []) ∨
        ∃ addrs, found = .ok addrs ∧ TcpOutboundTransport.DialsFirst addrs
          (⟨⟨[hostAt 2 80]⟩, []⟩ : Dialling Hosts Channel) result after) :=
  tcp_pipeline_dials_in_order hosts_answer
    ⟨.new ⟨⟨[hostAt 2 80]⟩, []⟩, ⟨⟩, ⟨⟩⟩ (.Domain "a" 80)

end AlphaRay
