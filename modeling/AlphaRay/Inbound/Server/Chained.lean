import AlphaRay.Inbound.Server.Tunnels

namespace AlphaRay

open Lib ByteStream

namespace Chain

variable {O T : Type} [AsyncStream T] [ByteStream T] [Outbound O T]

-- A chain is what it was built as when it has connected, and its base was dialled for it.
theorem of_connect (hbase : ∀ (self : O) target, ∃ result after,
      (Outbound.connect target).Returns self result after)
    {hops : List Hop} {target : TargetAddr} {base : O} {after : Chain O hops.length}
    {result : Except AlphaRayError (Layers T hops.length)}
    (h : (Outbound.connect target).Returns (build base hops) result after) :
    ∃ dialled base', (Outbound.connect (Chain.dialled hops target)).Returns base dialled base' ∧
      after = build base' hops ∧ ∀ stream, result = .ok stream → ∃ io mid, dialled = .ok io ∧
        stream = Layers.wrap hops.length mid ∧
        pipe mid = ⟨(pipe io).unread, (pipe io).written ++ headers hops target⟩ := by
  obtain ⟨dialled, base', hdial⟩ := hbase base (Chain.dialled hops target)
  rcases dialled with e | io
  · obtain ⟨rfl, rfl⟩ := h.unique (connect_fails hops hdial)
    exact ⟨.error e, base', hdial, rfl, fun stream hstream => by cases hstream⟩
  · obtain ⟨mid, hconnect, hmid⟩ := connect_returns hops hdial
    obtain ⟨rfl, rfl⟩ := h.unique hconnect
    refine ⟨.ok io, base', hdial, rfl, fun stream hstream => ⟨io, mid, rfl, ?_, hmid⟩⟩
    exact (Except.ok.inj hstream).symm

end Chain

namespace Server

variable {S E T O : Type} [AsyncStream S] [Socks5Server S E] [Outbound O T]

-- The way of an HTTP client through the server, step by step.
theorem exists_run_of_http {dispatcher : SimpleDispatcher O S T} {method : Method}
    {authority : Option String} {target : TargetAddr}
    (hasks : Client.HttpAsks method authority target) {upgraded : S} {dst : T} {outbound : O}
    (hconnect : (Outbound.connect target).Returns dispatcher.outbound (.ok dst) outbound) :
    ∃ (past : List (Transition (Server (SimpleDispatcher O S T) S E T)
        (Pool.Act (ClientTask S E T) (Option (Word S T)))))
      (server : Server (SimpleDispatcher O S T) S E T),
      Run Step (listening dispatcher) past server ∧
      server.shared.tunnels = dispatcher.tunnels ++ [(upgraded, dst)] ∧
      ∀ conn ∈ server.workers, conn.client = .Http method authority upgraded := by
  let handler : Handler S E T Unit := Handler.handle_upgraded target
  have hcalled : Run (Beside (Worker.Step Ask.Does) Dispatcher.Serves)
      (.start upgraded handler.run, dispatcher) _ (⟨upgraded, handler.run, true⟩, dispatcher) :=
    Run.nil.next ⟨.call, .call⟩
  have hconnected : Run (Beside (Worker.Step Ask.Does) Dispatcher.Serves)
      (.start upgraded handler.run, dispatcher) _
      (⟨upgraded, _, false⟩, { dispatcher with outbound := outbound }) :=
    hcalled.next ⟨.answer, .answer (SimpleDispatcher.dispatch_connect hconnect)⟩
  have htaken : Run (Beside (Worker.Step Ask.Does) Dispatcher.Serves)
      (.start upgraded handler.run, dispatcher) _
      (⟨upgraded, _, false⟩, { dispatcher with outbound := outbound }) :=
    hconnected.next ⟨.own ⟨rfl, rfl⟩, .silent⟩
  have htunnelling : Run (Beside (Worker.Step Ask.Does) Dispatcher.Serves)
      (.start upgraded handler.run, dispatcher) _
      (⟨upgraded, _, true⟩, { dispatcher with outbound := outbound }) :=
    htaken.next ⟨.call, .call⟩
  have htunnelled : Run (Beside (Worker.Step Ask.Does) Dispatcher.Serves)
      (.start upgraded handler.run, dispatcher) _
      (⟨upgraded, _, false⟩, ⟨outbound, dispatcher.tunnels ++ [(upgraded, dst)]⟩) :=
    htunnelling.next ⟨.answer, .answer (SimpleDispatcher.dispatch_tunnel _ upgraded dst)⟩
  let task : ClientTask S E T := ⟨.Http method authority upgraded, .start upgraded handler.run⟩
  let joined : Server (SimpleDispatcher O S T) S E T := ⟨true, dispatcher, [task]⟩
  have hspawned : task.Spawned := by
    simp only [ClientTask.Spawned, Client.handler, HttpInbound.service_eq_some.mpr hasks, task,
      handler, Client.stream]
  have hjoined : Run Step (listening dispatcher) _ joined := Run.nil.next (.join rfl hspawned)
  have htask : joined.workers[0]? = some task := rfl
  obtain ⟨own, hown, -⟩ := task.run_of_handler htunnelled
  obtain ⟨more, hmore, -⟩ := Pool.run_of_beside htask hown
  refine ⟨_, _, hjoined.append hmore, rfl, fun conn hconn => ?_⟩
  obtain rfl := List.mem_singleton.mp hconn
  rfl

end Server

-- The program at a client's side: it tunnels through a chain of servers. In every interleaving
-- of any number of clients, each of its tunnels is from a client's stream to the target that
-- this client asked for: what is written into it travels over the servers of the chain, and
-- the last one of them sends exactly that to the target.
theorem chained_tunnels_reach_targets {S E T O : Type} [AsyncStream S] [ByteStream S]
    [Socks5Server S E] [AsyncStream T] [ByteStream T] [Outbound O T] {hops : List Hop} {base : O}
    {server : Server (SimpleDispatcher (Chain O hops.length) S (Layers T hops.length)) S E
      (Layers T hops.length)}
    {past : List (Transition
      (Server (SimpleDispatcher (Chain O hops.length) S (Layers T hops.length)) S E
        (Layers T hops.length))
      (Pool.Act (ClientTask S E (Layers T hops.length)) (Option (Word S (Layers T hops.length)))))}
    (hbase : ∀ (self : O) target, ∃ result after,
      (Outbound.connect target).Returns self result after)
    (hrun : Run Server.Step (Server.listening ⟨Chain.build base hops, []⟩) past server) :
    ∀ src dst, (src, dst) ∈ server.shared.tunnels →
      ∃ (i : Nat) (conn : ClientTask S E (Layers T hops.length)) (target : TargetAddr) (io : T)
        (before after : O),
      server.workers[i]? = some conn ∧ conn.client.Asks target ∧ conn.client.Owns target src ∧
      (Outbound.connect (Chain.dialled hops target)).Returns before (.ok io) after ∧
      (target.Fits → ∀ p, ∃ written sent next,
        (write_all_buf p).Returns dst (.ok () : IoResult Unit)
          (Layers.wrap hops.length written) ∧
        pipe written = ⟨(pipe io).unread, (pipe io).written ++ sent⟩ ∧
        Travels (Chain.dialled hops target) sent hops next p ∧ next.Agrees target) := by
  intro src dst hmem
  rw [Server.tunnels_of_run hrun] at hmem
  obtain ⟨⟨i, tunnel⟩, hledger, rfl⟩ := List.mem_map.mp hmem
  obtain ⟨conn, target, hi, hasks, howns, hanswer⟩ := Server.of_ledger hrun hledger
  have hinv : ∀ before target result after, (∃ base' : O, before = Chain.build base' hops) →
      (Outbound.connect target).Returns before result after →
      ∃ base' : O, after = Chain.build base' hops := by
    rintro _ target result after ⟨base', rfl⟩ hconnect
    obtain ⟨-, base'', -, rfl, -⟩ := Chain.of_connect hbase hconnect
    exact ⟨base'', rfl⟩
  obtain ⟨result, _, after, ⟨before, rfl⟩, hconnect, hresult⟩ :=
    Server.outbound_of_said hinv ⟨base, rfl⟩ hrun hanswer
  rcases result with e | stream
  · cases hresult
  · cases hresult
    obtain ⟨_, base', hdial, -, hok⟩ := Chain.of_connect hbase hconnect
    obtain ⟨io, mid, rfl, hwrap, hmid⟩ := hok _ rfl
    refine ⟨i, conn, target, io, before, base', hi, hasks, howns, hdial, fun hfits p => ?_⟩
    rw [hwrap]
    exact writes_travel hops hfits hmid p

-- An HTTP client and two servers.
theorem chained_tunnels_reach_targets_over_two :
    ∃ (dst : Layers Channel 2) (written : Channel) (next : TargetAddr),
      (write_all_buf [5]).Returns dst (.ok () : IoResult Unit) (Layers.wrap 2 written) ∧
      Travels (.SocketAddr (hopOf 1).server_addr) (pipe written).written [hopOf 2, hopOf 1] next
        [5] ∧
      next.Agrees (.Domain "a" 80) := by
  have hbase : ∀ (self : Reachable) target, ∃ result after,
      (Outbound.connect target).Returns self result after :=
    fun self target => ⟨_, _, reachable_connects self target⟩
  let upgraded : Channel := ⟨[5], [], []⟩
  have hrequest : Client.HttpAsks .CONNECT (some "a:80") (.Domain "a" 80) :=
    ⟨rfl, "a:80", rfl, rfl⟩
  have hfits : (TargetAddr.Domain "a" 80).Fits := by
    intro domain port heq
    cases heq
    decide
  obtain ⟨mid, hconnect, -⟩ := Chain.connect_returns [hopOf 2, hopOf 1]
    (reachable_connects ⟨[]⟩ (Chain.dialled [hopOf 2, hopOf 1] (.Domain "a" 80)))
  let dispatcher : SimpleDispatcher (Chain Reachable 2) Channel (Layers Channel 2) :=
    ⟨Chain.build ⟨[]⟩ [hopOf 2, hopOf 1], []⟩
  obtain ⟨past, server, hrun, htunnels, hclients⟩ :
      ∃ (past : List (Transition (Server _ Channel ReplyError (Layers Channel 2)) _))
        (server : Server _ Channel ReplyError (Layers Channel 2)),
        Run Server.Step (Server.listening dispatcher) past server ∧
        server.shared.tunnels = [] ++ [(upgraded, Layers.wrap 2 mid)] ∧
        ∀ conn ∈ server.workers, conn.client = .Http .CONNECT (some "a:80") upgraded :=
    Server.exists_run_of_http hrequest hconnect
  have hmem : (upgraded, Layers.wrap 2 mid) ∈ server.shared.tunnels := by
    rw [htunnels]
    exact List.mem_singleton_self _
  obtain ⟨i, conn, target, io, before, after, hi, hasks, -, hdial, htravel⟩ :=
    @chained_tunnels_reach_targets Channel ReplyError Channel Reachable _ _ _ _ _ _
      [hopOf 2, hopOf 1] ⟨[]⟩ server past hbase hrun _ _ hmem
  rw [hclients conn (List.mem_of_getElem? hi)] at hasks
  obtain rfl := @Client.asks_unique Channel ReplyError _ _ _
    (.Http .CONNECT (some "a:80") upgraded) _ _ hrequest hasks
  obtain ⟨written, sent, next, hwrite, hpipe, htravels, hnext⟩ := htravel hfits [5]
  refine ⟨_, written, next, hwrite, ?_, hnext⟩
  obtain ⟨hio, -⟩ := hdial.unique (reachable_connects before _)
  cases hio
  rw [hpipe]
  exact htravels

end AlphaRay
