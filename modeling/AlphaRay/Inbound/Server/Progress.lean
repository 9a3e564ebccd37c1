import AlphaRay.Inbound.Server.Tunnels

namespace AlphaRay

open Lib Handler

-- From every state that an interleaving leads to, each client is brought to its tunnel by the
-- steps of its own handler, if the outbound does not refuse its target. The others may wait
-- for ever: they are not disturbed, and do not disturb.
theorem server_serves_each_client {S E T O : Type} [AsyncStream S] [ByteStream S]
    [Socks5Server S E] [Outbound O T] {dispatcher : SimpleDispatcher O S T}
    {server : Server (SimpleDispatcher O S T) S E T}
    {past : List (Transition (Server (SimpleDispatcher O S T) S E T)
      (Pool.Act (ClientTask S E T) (Option (Word S T))))}
    (hsocks : Socks5Server.Answers S E)
    (houtbound : ∀ (self : O) target, ∃ result after,
      (Outbound.connect target).Returns self result after)
    (hrun : Run Server.Step (Server.listening dispatcher) past server) :
    ∀ i conn, server.workers[i]? = some conn → ∃ more later,
      Run Server.Step server more later ∧ (∀ t ∈ more, ∃ said, t.label = .work i said) ∧
      (∀ j, j ≠ i → later.workers[j]? = server.workers[j]?) ∧
      ∃ last result, later.workers[i]? = some last ∧ last.client = conn.client ∧
        last.handler.program = .done result ∧
        ∀ target, conn.client.Asks target →
          (∃ src dst, conn.client.Owns target src ∧ (src, dst) ∈ later.shared.tunnels ∧
            ∃ before after, (Outbound.connect target).Returns (before : O) (.ok dst) after) ∨
          (∃ e, .answer (.Connect target) (.error e) ∈ Server.said i (past ++ more) ∧
            ∃ before after, (Outbound.connect target).Returns (before : O) (.error e) after) ∨
          conn.client.IsSocks ∧ ∃ e, result = .error (.Socks e) := by
  intro i conn hi
  obtain ⟨more, now, last, result, hmore, hlabels, hclient, hdone⟩ :=
    Server.conn_finishes hsocks (SimpleDispatcher.answers_of_outbound houtbound) hrun hi
  have hlt : i < server.workers.length := (List.getElem?_eq_some_iff.mp hi).1
  have hlast : (server.workers.set i last)[i]? = some last := List.getElem?_set_self hlt
  refine ⟨more, _, hmore, hlabels, fun j hj => List.getElem?_set_ne (Ne.symm hj), last, result,
    hlast, hclient, hdone, fun target hasks => ?_⟩
  have hall := hrun.append hmore
  have hsettled := Server.settled_of_conn hall hlast
  rw [← hclient] at hasks ⊢
  rcases hsettled.served result target hdone hasks with
    ⟨src, dst, hmem⟩ | hrefused | hsocks
  · obtain ⟨target', hasks', howns, -, hconnect⟩ := hsettled.entitled src dst hmem
    obtain rfl := Client.asks_unique hasks hasks'
    refine .inl ⟨src, dst, howns, ?_, hconnect⟩
    rw [Server.tunnels_of_run hall]
    exact List.mem_append_right _ (List.mem_map_of_mem hmem)
  · exact .inr (.inl hrefused)
  · exact .inr (.inr hsocks)

-- Of two clients that were accepted and wait, one is served.
theorem server_serves_each_client_of_two :
    ∃ (more : List (Transition (Server (SimpleDispatcher Reachable Channel Channel) Channel
        ReplyError Channel) (Pool.Act (ClientTask Channel ReplyError Channel)
          (Option (Word Channel Channel)))))
      (later : Server (SimpleDispatcher Reachable Channel Channel) Channel ReplyError Channel),
      Run Server.Step ⟨true, ⟨⟨[]⟩, []⟩,
        [Server.spawned Server.configuredClient, Server.spawned Server.otherClient]⟩ more later ∧
      later.workers[1]? = some (Server.spawned Server.otherClient) ∧
      ∃ src dst, Server.configuredClient.Owns Server.configuredTarget src ∧
        (src, dst) ∈ later.shared.tunnels := by
  obtain ⟨past, hrun⟩ := Server.exists_run_of_spawned
    (⟨⟨[]⟩, []⟩ : SimpleDispatcher Reachable Channel Channel)
  obtain ⟨more, later, hmore, -, hothers, last, result, -, -, -, hserved⟩ :=
    server_serves_each_client Server.channel_answers
      (fun self target => ⟨_, _, reachable_connects self target⟩) hrun 0 _ rfl
  refine ⟨more, later, hmore, hothers 1 (by decide), ?_⟩
  rcases hserved _ Server.configuredClient_asks with
    ⟨src, dst, howns, hmem, -⟩ | ⟨e, -, before, after, hrefused⟩ | ⟨hsocks, -⟩
  · exact ⟨src, dst, howns, hmem⟩
  · cases (hrefused.unique (reachable_connects before _)).1
  · exact hsocks.elim

end AlphaRay
