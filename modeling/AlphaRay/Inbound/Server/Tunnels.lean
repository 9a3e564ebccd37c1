import AlphaRay.Inbound.Server
import AlphaRay.Inbound.Vless.Tunnels
import AlphaRay.Outbound.Vless.Chain

namespace AlphaRay

open Lib Handler

-- The tunnel that a dispatcher was asked for when it gives this answer.
def tunnel_of {S T : Type} : Word S T → Option (S × T)
  | .answer (.Tunnel src dst) _ => some (src, dst)
  | _ => none

section

variable {S T : Type} {answer : Except AlphaRayError (DispatcherResponse T)}

@[simp] theorem tunnel_of_call (req : InboundRequest S T) : tunnel_of (.call req) = none := rfl

@[simp] theorem tunnel_of_connect (target : TargetAddr) :
    tunnel_of (.answer (.Connect target) answer) = (none : Option (S × T)) := rfl

@[simp] theorem tunnel_of_tunnel (src : S) (dst : T) :
    tunnel_of (.answer (.Tunnel src dst) answer) = some (src, dst) := rfl

end

namespace SimpleDispatcher

variable {O S T : Type}

theorem connected_injective {result result' : Except AlphaRayError T}
    (h : result.map DispatcherResponse.Connected = result'.map .Connected) : result = result' := by
  rcases result with e | stream
  · rcases result' with e' | stream'
    · exact congrArg _ (Except.error.inj h)
    · cases h
  · rcases result' with e' | stream'
    · cases h
    · cases h
      rfl

variable [Outbound O T] {self after : SimpleDispatcher O S T}

-- A connection is answered with what the outbound made of it, and spawns nothing.
theorem of_dispatch_connect {target : TargetAddr}
    {answer : Except AlphaRayError (DispatcherResponse T)}
    (h : (Dispatcher.dispatch (.Connect target)).Returns self answer after) :
    ∃ result, (Outbound.connect target).Returns self.outbound result after.outbound ∧
      answer = result.map .Connected ∧ after.tunnels = self.tunnels := by
  obtain ⟨bound, h⟩ := h
  have hrun : ∀ fuel, bound ≤ fuel → ∃ result,
      (Outbound.connect target).run fuel self.outbound = some (result, after.outbound) ∧
        answer = result.map .Connected ∧ after.tunnels = self.tunnels := by
    intro fuel hfuel
    have hdispatch : (Async.zoom SimpleDispatcher.outbound
        (fun self outbound => { self with outbound := outbound }) (Outbound.connect target) >>=
          fun stream => pure (DispatcherResponse.Connected stream)).run fuel self =
        some (answer, after) := h fuel hfuel
    rw [Async.run_bind, Async.zoom, Async.run_of] at hdispatch
    rcases hconnect : (Outbound.connect target).run fuel self.outbound
      with _ | ⟨e | stream, outbound⟩
    · rw [hconnect] at hdispatch
      cases hdispatch
    · rw [hconnect] at hdispatch
      cases hdispatch
      exact ⟨.error e, rfl, rfl, rfl⟩
    · rw [hconnect] at hdispatch
      cases hdispatch
      exact ⟨.ok stream, rfl, rfl, rfl⟩
  obtain ⟨result, -, hanswer, htunnels⟩ := hrun bound (Nat.le_refl _)
  refine ⟨result, ⟨bound, fun fuel hfuel => ?_⟩, hanswer, htunnels⟩
  obtain ⟨result', hconnect, hanswer', -⟩ := hrun fuel hfuel
  rw [hconnect, connected_injective (hanswer'.symm.trans hanswer)]

theorem tunnels_of_serves {said : Option (Word S T)} (h : Dispatcher.Serves self said after) :
    after.tunnels = self.tunnels ++ (said.bind tunnel_of).toList := by
  cases h with
  | silent => exact (List.append_nil _).symm
  | call => exact (List.append_nil _).symm
  | @answer _ req answer h =>
      cases req with
      | Connect target =>
          obtain ⟨-, -, -, htunnels⟩ := of_dispatch_connect h
          exact htunnels.trans (List.append_nil _).symm
      | Tunnel src dst =>
          obtain ⟨-, rfl⟩ := (dispatch_tunnel self src dst).unique h
          rfl

theorem answers_of_outbound
    (houtbound : ∀ (self : O) target, ∃ result after,
      (Outbound.connect target).Returns self result after) :
    Dispatcher.Answers (SimpleDispatcher O S T) := by
  intro self req
  cases req with
  | Connect target =>
      obtain ⟨result, after, hconnect⟩ := houtbound self.outbound target
      exact ⟨_, _, dispatch_connect hconnect⟩
  | Tunnel src dst => exact ⟨_, _, dispatch_tunnel self src dst⟩

variable {calls : List (Transition (SimpleDispatcher O S T) (Option (Word S T)))}

-- The tunnels are those that were asked for, in the order of the answers.
theorem tunnels_of_run (hrun : Run Dispatcher.Serves self calls after) :
    after.tunnels = self.tunnels ++ (calls.map (·.label)).filterMap (·.bind tunnel_of) := by
  refine hrun.rule (fun calls now => now.tunnels = self.tunnels ++
    (calls.map (·.label)).filterMap (·.bind tunnel_of)) (List.append_nil _).symm ?_
  intro calls last _ ih hserves
  rw [tunnels_of_serves hserves, ih, List.append_assoc, List.map_append, List.filterMap_append]
  cases hlast : last.label.bind tunnel_of with
  | none => simp [hlast]
  | some tunnel => simp [hlast]

-- What a target was answered with is what the outbound made of it, in a state that it is led
-- to by connecting.
theorem outbound_of_run {inv : O → Prop}
    (hinv : ∀ before target result after, inv before →
      (Outbound.connect target).Returns before result after → inv after)
    (hself : inv self.outbound) (hrun : Run Dispatcher.Serves self calls after)
    {target : TargetAddr} {answer : Except AlphaRayError (DispatcherResponse T)}
    (hmem : some (.answer (.Connect target) answer) ∈ calls.map (·.label)) :
    ∃ result before after, inv before ∧ (Outbound.connect target).Returns before result after ∧
      answer = result.map .Connected := by
  have hkept : ∀ (before : SimpleDispatcher O S T) said (now : SimpleDispatcher O S T),
      Dispatcher.Serves before said now → inv before.outbound → inv now.outbound := by
    intro before said now hserves hbefore
    cases hserves with
    | silent | call => exact hbefore
    | @answer _ req answer h =>
        cases req with
        | Connect target =>
            obtain ⟨result, hconnect, -⟩ := of_dispatch_connect h
            exact hinv _ _ _ _ hbefore hconnect
        | Tunnel src dst =>
            obtain ⟨-, rfl⟩ := (dispatch_tunnel before src dst).unique h
            exact hbefore
  obtain ⟨call, hcall, hlabel⟩ := List.mem_map.mp hmem
  refine hrun.forall_mem (fun call => call.label = some (.answer (.Connect target) answer) →
    ∃ result before after, inv before ∧ (Outbound.connect target).Returns before result after ∧
      answer = result.map .Connected) ?_ call hcall hlabel
  rintro calls ⟨before, label, now⟩ hrun hserves hlabel
  have hbefore : inv before.outbound := by
    refine hrun.rule (fun _ now => inv now.outbound) hself ?_
    intro calls last _ ih hstep
    exact hkept _ _ _ hstep ih
  dsimp only at hserves hlabel
  subst hlabel
  cases hserves with
  | answer h =>
      obtain ⟨result, hconnect, hanswer, -⟩ := of_dispatch_connect h
      exact ⟨result, _, _, hbefore, hconnect, hanswer⟩

end SimpleDispatcher

namespace Handler

variable {S T : Type} {asks : TargetAddr → Prop} {owns : TargetAddr → S → Prop} {talk : Talk S T}

-- A client asks for one tunnel at most.
theorem Dialogue.length_tunnels (h : Dialogue asks owns talk) :
    (talk.filterMap tunnel_of).length ≤ 1 := by
  cases h <;> simp [List.filterMap_cons]

theorem Dialogue.of_tunnel (h : Dialogue asks owns talk) {src : S} {dst : T}
    (hmem : (src, dst) ∈ talk.filterMap tunnel_of) :
    ∃ target, asks target ∧ owns target src ∧
      .answer (.Connect target) (.ok (.Connected dst)) ∈ talk := by
  cases h with
  | silent | connecting | answered | tunnelling => simp at hmem
  | @tunnelled target src' dst' answer hasks howns =>
      obtain ⟨rfl, rfl⟩ : src' = src ∧ dst' = dst := by simpa using hmem
      exact ⟨target, hasks, howns, by simp⟩

theorem mem_tunnels {src : S} {dst : T} {answer : Except AlphaRayError (DispatcherResponse T)}
    (h : .answer (.Tunnel src dst) answer ∈ talk) : (src, dst) ∈ talk.filterMap tunnel_of :=
  List.mem_filterMap.mpr ⟨_, h, rfl⟩

end Handler

namespace Server

variable {S E T O : Type}

-- What a ledger of the tunnels says of a client. Each entry is for a target it asked for and
-- joins its stream with the one that the outbound connected to that target. A client whose
-- handler is at its end has an entry, unless its target was refused or it is a SOCKS client
-- that could not be replied to.
structure Settled (O : Type) [AsyncStream S] [ByteStream S] [Socks5Server S E] [Outbound O T]
    (ledger : List (Nat × S × T)) (i : Nat) (conn : ClientTask S E T) (talk : Talk S T) : Prop where
  entitled : ∀ src dst, (i, src, dst) ∈ ledger → ∃ target, conn.client.Asks target ∧
    conn.client.Owns target src ∧ .answer (.Connect target) (.ok (.Connected dst)) ∈ talk ∧
    ∃ before after, (Outbound.connect target).Returns (before : O) (.ok dst) after
  served : ∀ result target, conn.handler.program = .done result → conn.client.Asks target →
    (∃ src dst, (i, src, dst) ∈ ledger) ∨
    (∃ e, .answer (.Connect target) (.error e) ∈ talk ∧
      ∃ before after, (Outbound.connect target).Returns (before : O) (.error e) after) ∨
    conn.client.IsSocks ∧ ∃ e, result = .error (.Socks e)

variable [AsyncStream S] [ByteStream S] [Socks5Server S E] [Outbound O T]
  {dispatcher : SimpleDispatcher O S T} {server : Server (SimpleDispatcher O S T) S E T}
  {past : List (Transition (Server (SimpleDispatcher O S T) S E T)
    (Pool.Act (ClientTask S E T) (Option (Word S T))))}

def ledger (past : List (Transition (Server (SimpleDispatcher O S T) S E T)
    (Pool.Act (ClientTask S E T) (Option (Word S T))))) : List (Nat × S × T) :=
  Pool.ledger (·.bind tunnel_of) (Pool.deeds past)

omit [AsyncStream S] [ByteStream S] [Socks5Server S E] [Outbound O T] in
theorem filterMap_own (i : Nat) :
    (Pool.own i (Pool.deeds past)).filterMap (·.bind tunnel_of) =
      (said i past).filterMap tunnel_of := by
  rw [said, List.reduceOption, List.filterMap_filterMap]
  rfl

omit [ByteStream S] in
theorem tunnels_of_run (hrun : Run Step (listening dispatcher) past server) :
    server.shared.tunnels = dispatcher.tunnels ++ (ledger past).map Prod.snd := by
  obtain ⟨calls, hcalls, hlabels⟩ := (Pool.accounts_of_run hrun).served
  rw [ledger, Pool.map_snd_ledger, ← hlabels]
  exact SimpleDispatcher.tunnels_of_run hcalls

omit [ByteStream S] in
theorem said_absent (hrun : Run Step (listening dispatcher) past server) {i : Nat}
    (hi : server.workers[i]? = none) : said i past = [] := by
  rw [said, (Pool.accounts_of_run hrun).absent i (List.getElem?_eq_none_iff.mp hi)]
  rfl

omit [ByteStream S] in
theorem outbound_of_said {inv : O → Prop}
    (hinv : ∀ before target result after, inv before →
      (Outbound.connect target).Returns before result after → inv after)
    (hdispatcher : inv dispatcher.outbound) (hrun : Run Step (listening dispatcher) past server)
    {i : Nat} {target : TargetAddr} {answer : Except AlphaRayError (DispatcherResponse T)}
    (hmem : .answer (.Connect target) answer ∈ said i past) :
    ∃ result before after, inv before ∧ (Outbound.connect target).Returns before result after ∧
      answer = result.map .Connected := by
  obtain ⟨calls, hcalls, hlabels⟩ := (Pool.accounts_of_run hrun).served
  refine SimpleDispatcher.outbound_of_run hinv hdispatcher hcalls ?_
  rw [hlabels]
  exact Pool.mem_of_own (List.reduceOption_mem_iff.mp hmem)

-- Each entry of the ledger is the tunnel of a client that may have it.
theorem of_ledger (hrun : Run Step (listening dispatcher) past server) {i : Nat} {src : S} {dst : T}
    (hmem : (i, src, dst) ∈ ledger past) :
    ∃ conn target, server.workers[i]? = some conn ∧ conn.client.Asks target ∧
      conn.client.Owns target src ∧
      .answer (.Connect target) (.ok (.Connected dst)) ∈ said i past := by
  rw [ledger, Pool.mem_ledger, filterMap_own] at hmem
  cases hi : server.workers[i]? with
  | none =>
      rw [said_absent hrun hi] at hmem
      cases hmem
  | some conn =>
      obtain ⟨target, hasks, howns, hanswer⟩ := (dialogue_of_conn hrun hi).1.of_tunnel hmem
      exact ⟨conn, target, rfl, hasks, howns, hanswer⟩

theorem settled_of_conn (hrun : Run Step (listening dispatcher) past server) {i : Nat}
    {conn : ClientTask S E T} (hi : server.workers[i]? = some conn) :
    Settled O (ledger past) i conn (said i past) := by
  have houtbound : ∀ target answer, .answer (.Connect target) answer ∈ said i past →
      ∃ result before after, (Outbound.connect target).Returns (before : O) result after ∧
        answer = result.map .Connected := by
    intro target answer hmem
    obtain ⟨result, before, after, -, hconnect, hanswer⟩ : ∃ result before after,
        (fun _ : O => True) before ∧ (Outbound.connect target).Returns before result after ∧
          answer = result.map .Connected :=
      outbound_of_said (fun _ _ _ _ _ _ => trivial) trivial hrun hmem
    exact ⟨result, before, after, hconnect, hanswer⟩
  constructor
  · intro src dst hmem
    obtain ⟨conn', target, hi', hasks, howns, hanswer⟩ := of_ledger hrun hmem
    obtain rfl := Option.some.inj (hi.symm.trans hi')
    obtain ⟨result, before, after, hconnect, hresult⟩ := houtbound target _ hanswer
    rcases result with e | stream
    · cases hresult
    · cases hresult
      exact ⟨target, hasks, howns, hanswer, before, after, hconnect⟩
  · intro result target hdone hasks
    obtain ⟨hasked, htunnelled, hfailed⟩ := (dialogue_of_conn hrun hi).2 result hdone
    obtain ⟨answer, hanswer⟩ := hasked target hasks
    obtain ⟨result', before, after, hconnect, rfl⟩ := houtbound target answer hanswer
    rcases result' with e | dst
    · exact .inr (.inl ⟨e, hanswer, before, after, hconnect⟩)
    · rcases htunnelled target dst hanswer with ⟨src, answer, htunnel⟩ | ⟨e, he⟩
      · refine .inl ⟨src, dst, ?_⟩
        rw [ledger, Pool.mem_ledger, filterMap_own]
        exact mem_tunnels htunnel
      · exact .inr (.inr ⟨hfailed e he, e, he⟩)

end Server

-- The tunnels of the program's dispatcher, in every interleaving of any number of clients:
-- no client has two, none has one that it may not have, and none goes without.
theorem server_tunnels_ledger {S E T O : Type} [AsyncStream S] [ByteStream S] [Socks5Server S E]
    [Outbound O T] {dispatcher : SimpleDispatcher O S T}
    {server : Server (SimpleDispatcher O S T) S E T}
    {past : List (Transition (Server (SimpleDispatcher O S T) S E T)
      (Pool.Act (ClientTask S E T) (Option (Word S T))))}
    (hrun : Run Server.Step (Server.listening dispatcher) past server) :
    ∃ ledger : List (Nat × S × T),
      server.shared.tunnels = dispatcher.tunnels ++ ledger.map Prod.snd ∧
      (ledger.map Prod.fst).Nodup ∧ (∀ entry ∈ ledger, entry.1 < server.workers.length) ∧
      ∀ i conn, server.workers[i]? = some conn →
        Server.Settled O ledger i conn (Server.said i past) := by
  refine ⟨Server.ledger past, Server.tunnels_of_run hrun, ?_, ?_,
    fun i conn hi => Server.settled_of_conn hrun hi⟩
  · refine Pool.nodup_ledger fun i => ?_
    rw [Server.filterMap_own]
    cases hi : server.workers[i]? with
    | none =>
        rw [Server.said_absent hrun hi]
        exact Nat.zero_le _
    | some conn => exact (Server.dialogue_of_conn hrun hi).1.length_tunnels
  · rintro ⟨i, src, dst⟩ hmem
    obtain ⟨conn, -, hi, -⟩ := Server.of_ledger hrun hmem
    exact (List.getElem?_eq_some_iff.mp hi).1

-- The one that asks for its target has its tunnel there.
theorem server_tunnels_ledger_of_two :
    ∃ (past : List (Transition (Server (SimpleDispatcher Reachable Channel Channel) Channel
        ReplyError Channel) (Pool.Act (ClientTask Channel ReplyError Channel)
          (Option (Word Channel Channel)))))
      (server : Server (SimpleDispatcher Reachable Channel Channel) Channel ReplyError Channel),
      Run Server.Step (Server.listening ⟨⟨[]⟩, []⟩) past server ∧
      ∃ src dst, Server.configuredClient.Owns Server.configuredTarget src ∧
        (src, dst) ∈ server.shared.tunnels := by
  have hdispatch : Dispatcher.Answers (SimpleDispatcher Reachable Channel Channel) :=
    SimpleDispatcher.answers_of_outbound fun self target => ⟨_, _, reachable_connects self target⟩
  obtain ⟨past, server, conn, conn', result, result', hrun, hi, hclient, hdone, hi', hclient', -⟩ :=
    Server.exists_run_of_two hdispatch ⟨⟨[]⟩, []⟩
  obtain ⟨ledger, htunnels, -, -, hsettled⟩ := server_tunnels_ledger hrun
  obtain ⟨hentitled, hserved⟩ := hsettled 0 conn hi
  rw [hclient] at hentitled hserved
  refine ⟨past, server, hrun, ?_⟩
  rcases hserved result _ hdone Server.configuredClient_asks with
    ⟨src, dst, hmem⟩ | ⟨e, -, before, after, hrefused⟩ | ⟨hsocks, -⟩
  · obtain ⟨target, hasks, howns, -⟩ := hentitled src dst hmem
    obtain rfl := Client.asks_unique Server.configuredClient_asks hasks
    refine ⟨src, dst, howns, ?_⟩
    rw [htunnels]
    exact List.mem_map_of_mem hmem
  · cases (hrefused.unique (reachable_connects before _)).1
  · exact hsocks.elim

end AlphaRay
