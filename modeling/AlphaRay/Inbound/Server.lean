import AlphaRay.Inbound.Clients
import AlphaRay.Lib.Pool

namespace AlphaRay

open Lib Handler

variable {S E T D : Type}

abbrev Word (S T : Type) : Type :=
  Said (InboundRequest S T) (Except AlphaRayError (DispatcherResponse T))

-- A dispatcher answers a call at some moment behind it.
inductive Dispatcher.Serves [Dispatcher D S T] : D → Option (Word S T) → D → Prop
  | silent {self : D} : Serves self none self
  | call {self : D} {req : InboundRequest S T} : Serves self (some (.call req)) self
  | answer {self after : D} {req : InboundRequest S T}
      {answer : Except AlphaRayError (DispatcherResponse T)}
      (h : (Dispatcher.dispatch req).Returns self answer after) :
      Serves self (some (.answer req answer)) after

-- The calls of the SOCKS library return, with whatever they have to report.
structure Socks5Server.Answers (S E : Type) [Socks5Server S E] : Prop where
  peer_addr : ∀ io : S, ∃ reply after, peer_addr.Returns io reply after
  accept_no_auth : ∀ io : S, ∃ reply after, accept_no_auth.Returns io reply after
  read_command : ∀ io : S, ∃ reply after, read_command.Returns io reply after
  reply_success : ∀ addr (io : S), ∃ reply after, (reply_success addr).Returns io reply after
  reply_error : ∀ error (io : S), ∃ reply after, (reply_error error).Returns io reply after

-- So do those of the dispatcher.
def Dispatcher.Answers (D : Type) {S T : Type} [Dispatcher D S T] : Prop :=
  ∀ (self : D) (req : InboundRequest S T), ∃ answer after,
    (Dispatcher.dispatch req).Returns self answer after

section Total

variable [AsyncStream S] [ByteStream S] [Socks5Server S E] [Dispatcher D S T]

theorem Ask.does_total (hsocks : Socks5Server.Answers S E) (q : Ask) (io : S) :
    ∃ reply after, q.Does io reply after := by
  cases q with
  | accept =>
      obtain ⟨after, haccept, -⟩ := VlessProtocol.accept_returns io
      exact ⟨_, after, haccept⟩
  | peer_addr => exact hsocks.peer_addr io
  | accept_no_auth => exact hsocks.accept_no_auth io
  | read_command => exact hsocks.read_command io
  | reply_success addr => exact hsocks.reply_success addr io
  | reply_error error => exact hsocks.reply_error error io
  | take => exact ⟨io, io, rfl, rfl⟩

omit [AsyncStream S] [ByteStream S] in
theorem Dispatcher.serving (hdispatch : Dispatcher.Answers D) :
    Serving (Dispatcher.Serves : D → Option (Word S T) → D → Prop) where
  silent _ := .silent
  call _ _ := .call
  answer self req := by
    obtain ⟨answer, after, hreturns⟩ := hdispatch self req
    exact ⟨answer, after, .answer hreturns⟩

end Total

-- A client with its handler, which was spawned for it.
structure ClientTask (S E T : Type) where
  client : Client S
  handler : Worker S Ask (Ask.Reply S E) (InboundRequest S T)
    (Except AlphaRayError (DispatcherResponse T)) (Except (HandlerError E) Unit)

namespace ClientTask

variable [AsyncStream S] [Socks5Server S E]

def Spawned (conn : ClientTask S E T) : Prop :=
  conn.handler = .start conn.client.stream conn.client.handler.run

structure Step (conn : ClientTask S E T) (said : Option (Word S T)) (after : ClientTask S E T) :
    Prop where
  client : after.client = conn.client
  handler : Worker.Step Ask.Does conn.handler said after.handler

-- What the handler does with what serves it, its client does.
theorem run_of_handler [Dispatcher D S T] (task : ClientTask S E T) {dispatcher : D}
    {past : List (Transition (_ × D) (Option (Word S T)))}
    {last : Worker S Ask (Ask.Reply S E) (InboundRequest S T)
      (Except AlphaRayError (DispatcherResponse T)) (Except (HandlerError E) Unit) × D}
    (hrun : Run (Beside (Worker.Step Ask.Does) Dispatcher.Serves) (task.handler, dispatcher) past
      last) :
    ∃ past', Run (Beside Step Dispatcher.Serves) (task, dispatcher) past'
        ({ task with handler := last.1 }, last.2) ∧
      past'.map (·.label) = past.map (·.label) :=
  hrun.map (fun st => ({ task with handler := st.1 }, st.2))
    fun _ _ _ h => ⟨⟨rfl, h.step⟩, h.serves⟩

end ClientTask

-- The inbounds that share a dispatcher. They accept clients, and spawn a handler for each of
-- them. What the handlers do may be interleaved in any way.
abbrev Server (D S E T : Type) : Type := Pool D (ClientTask S E T)

namespace Server

section

variable [AsyncStream S] [Socks5Server S E] [Dispatcher D S T]

def Step : Server D S E T → Pool.Act (ClientTask S E T) (Option (Word S T)) →
    Server D S E T → Prop :=
  Pool.Step ClientTask.Spawned ClientTask.Step Dispatcher.Serves

def listening (dispatcher : D) : Server D S E T := ⟨true, dispatcher, []⟩

-- What one of the handlers said to the dispatcher and was answered.
def said (i : Nat) (past : List (Transition (Server D S E T)
    (Pool.Act (ClientTask S E T) (Option (Word S T))))) : Talk S T :=
  (Pool.own i (Pool.deeds past)).reduceOption

end

section Runs

variable [AsyncStream S] [Socks5Server S E] [Dispatcher D S T] {dispatcher : D}
  {server : Server D S E T}
  {past : List (Transition (Server D S E T) (Pool.Act (ClientTask S E T) (Option (Word S T))))}
  {i : Nat} {conn : ClientTask S E T}

-- What a handler made of its client's stream, as if it were alone.
theorem run_of_conn (hrun : Run Step (listening dispatcher) past server)
    (hi : server.workers[i]? = some conn) :
    ∃ mine, Run (Worker.Step Ask.Does) (.start conn.client.stream conn.client.handler.run) mine
      conn.handler ∧ Worker.heard mine = said i past := by
  obtain ⟨first, mine, -, hfirst, hmine, hlabels⟩ :=
    (Pool.accounts_of_run hrun).alone i conn hi
  have hclient : conn.client = first.client := by
    refine hmine.rule (fun _ now => now.client = first.client) rfl ?_
    intro past last _ ih hstep
    exact hstep.client.trans ih
  obtain ⟨own, hown, hsame⟩ := hmine.map ClientTask.handler fun _ _ _ hstep => hstep.handler
  rw [show first.handler = _ from hfirst, ← hclient] at hown
  refine ⟨own, hown, ?_⟩
  rw [Worker.heard, hsame, hlabels, said]

-- The rule for the server: whatever the others do in between, a handler keeps to the
-- dialogue of its client.
theorem dialogue_of_conn [ByteStream S] (hrun : Run Step (listening dispatcher) past server)
    (hi : server.workers[i]? = some conn) :
    Dialogue conn.client.Asks conn.client.Owns (said i past) ∧
      ∀ result, conn.handler.program = .done result →
        Concluded conn.client.Asks conn.client.IsSocks result (said i past) := by
  obtain ⟨mine, hmine, hheard⟩ := run_of_conn hrun hi
  have hmeets := Worker.meets_of_run (.ready (wp_handler conn.client)) hmine
  rw [hheard] at hmeets
  exact ⟨Worker.good_of_meets hmeets, fun result hdone => Worker.post_of_meets hmeets hdone⟩

-- A handler is never in the way of another, and its client never waits for another client.
theorem conn_finishes [ByteStream S] (hsocks : Socks5Server.Answers S E)
    (hdispatch : Dispatcher.Answers D)
    (hrun : Run Step (listening dispatcher) past server) (hi : server.workers[i]? = some conn) :
    ∃ more now last result, Run Step server more
        { server with shared := now, workers := server.workers.set i last } ∧
      (∀ t ∈ more, ∃ said, t.label = .work i said) ∧ last.client = conn.client ∧
      last.handler.program = .done result := by
  obtain ⟨mine, hmine, -⟩ := run_of_conn hrun hi
  obtain ⟨own, result, last, hown, hdone⟩ := Worker.finishes_from (Ask.does_total hsocks)
    (Dispatcher.serving hdispatch) hmine rfl server.shared
  obtain ⟨own', hown', -⟩ := conn.run_of_handler hown
  obtain ⟨more, hmore, hlabels⟩ := Pool.run_of_beside hi hown'
  exact ⟨more, _, _, result, hmore, hlabels, rfl, hdone⟩

end Runs

end Server

namespace Server

open VlessInbound

-- A SOCKS client that has closed its connection before it says anything.
instance : Socks5Server Channel ReplyError where
  peer_addr := return bound_addr
  accept_no_auth := throw .HostUnreachable
  read_command := throw .HostUnreachable
  reply_success _ := throw .HostUnreachable
  reply_error _ := throw .HostUnreachable
  into error := error

theorem channel_answers : Socks5Server.Answers Channel ReplyError where
  peer_addr io := ⟨_, io, .pure _ io⟩
  accept_no_auth io := ⟨_, io, .throw _ io⟩
  read_command io := ⟨_, io, .throw _ io⟩
  reply_success _ io := ⟨_, io, .throw _ io⟩
  reply_error _ io := ⟨_, io, .throw _ io⟩

def configuredTarget : TargetAddr := .SocketAddr (.V4 .localhost 443)

-- A client with the configured id whose request comes in pieces, and one with another id.
def configuredClient : Client Channel :=
  .Vless configuredId ⟨requestOfConfigured, [], [some 4, none]⟩

def otherClient : Client Channel := .Vless configuredId ⟨requestOfOther, [], []⟩

theorem configuredClient_asks : configuredClient.Asks configuredTarget := by
  have hparse := congrArg Prod.fst
    (parse_request_bytes_nil configuredId .Tcp 443 (.ipv4 .localhost) [])
  rw [List.append_nil] at hparse
  exact ⟨_, hparse, ⟨rfl, rfl⟩, rfl⟩

theorem not_otherClient_asks (target : TargetAddr) : ¬ otherClient.Asks target := by
  have hparse := congrArg Prod.fst
    (parse_request_bytes_nil otherId .Tcp 443 (.ipv4 .localhost) [])
  rw [List.append_nil] at hparse
  rintro ⟨req, hreq, hauth, -⟩
  obtain rfl := Except.ok.inj (hparse.symm.trans hreq)
  have hsame : otherId = configuredId := hauth.1
  revert hsame
  decide

theorem unreachable_answers : Dispatcher.Answers Unreachable :=
  fun self _ => ⟨_, self, .throw _ self⟩

def spawned {T : Type} (client : Client Channel) : ClientTask Channel ReplyError T :=
  ⟨client, .start client.stream client.handler.run⟩

section

variable {D : Type} [Dispatcher D Channel Channel]

theorem exists_run_of_spawned (dispatcher : D) :
    ∃ past : List (Transition (Server D Channel ReplyError Channel)
        (Pool.Act (ClientTask Channel ReplyError Channel) (Option (Word Channel Channel)))),
      Run Step (listening dispatcher) past
        ⟨true, dispatcher, [spawned configuredClient, spawned otherClient]⟩ := by
  have hone : Run Step (listening dispatcher) _ ⟨true, dispatcher, [spawned configuredClient]⟩ :=
    Run.nil.next (.join rfl rfl)
  exact ⟨_, hone.next (.join rfl rfl)⟩

-- Both of them are accepted, and then the second comes to its end before the first.
theorem exists_run_of_two (hdispatch : Dispatcher.Answers D) (dispatcher : D) :
    ∃ (past : List (Transition (Server D Channel ReplyError Channel)
        (Pool.Act (ClientTask Channel ReplyError Channel) (Option (Word Channel Channel)))))
      (server : Server D Channel ReplyError Channel)
      (conn conn' : ClientTask Channel ReplyError Channel) (result result' : _),
      Run Step (listening dispatcher) past server ∧
      server.workers[0]? = some conn ∧ conn.client = configuredClient ∧
      conn.handler.program = .done result ∧
      server.workers[1]? = some conn' ∧ conn'.client = otherClient ∧
      conn'.handler.program = .done result' := by
  obtain ⟨past, htwo⟩ := exists_run_of_spawned dispatcher
  obtain ⟨more, now, conn', result', hmore, -, hclient', hdone'⟩ :=
    conn_finishes channel_answers hdispatch htwo (i := 1) rfl
  obtain ⟨rest, now', conn, result, hrest, -, hclient, hdone⟩ :=
    conn_finishes channel_answers hdispatch (htwo.append hmore) (i := 0) rfl
  exact ⟨_, _, conn, conn', result, result', (htwo.append hmore).append hrest, rfl, hclient, hdone,
    rfl, hclient', hdone'⟩

end

end Server

-- In every interleaving of any number of clients, and with a dispatcher that does anything,
-- each client's target is asked for only if the client sent a request for it that is in
-- order, and its stream is joined only with the stream that was connected for it.
theorem server_keeps_clients_apart {S E T D : Type} [AsyncStream S] [ByteStream S]
    [Socks5Server S E] [Dispatcher D S T] {dispatcher : D} {server : Server D S E T}
    {past : List (Transition (Server D S E T) (Pool.Act (ClientTask S E T) (Option (Word S T))))}
    (hrun : Run Server.Step (Server.listening dispatcher) past server) :
    ∀ i conn, server.workers[i]? = some conn →
      Dialogue conn.client.Asks conn.client.Owns (Server.said i past) ∧
      ∀ result, conn.handler.program = .done result →
        Concluded conn.client.Asks conn.client.IsSocks result (Server.said i past) :=
  fun _ _ hi => Server.dialogue_of_conn hrun hi

-- One asks for its target, and the other for nothing.
theorem server_keeps_two_clients_apart :
    ∃ (past : List (Transition (Server VlessInbound.Unreachable Channel ReplyError Channel)
        (Pool.Act (ClientTask Channel ReplyError Channel) (Option (Word Channel Channel)))))
      (server : Server VlessInbound.Unreachable Channel ReplyError Channel),
      Run Server.Step (Server.listening ⟨⟩) past server ∧
      (∃ answer, .answer (.Connect Server.configuredTarget) answer ∈ Server.said 0 past) ∧
      Server.said 1 past = [] := by
  obtain ⟨past, server, conn, conn', result, result', hrun, hi, hclient, hdone, hi', hclient', -⟩ :=
    Server.exists_run_of_two Server.unreachable_answers ⟨⟩
  have hapart := server_keeps_clients_apart hrun
  refine ⟨past, server, hrun, ?_, ?_⟩
  · obtain ⟨-, hend⟩ := hapart 0 conn hi
    rw [hclient] at hend
    exact (hend result hdone).asked _ Server.configuredClient_asks
  · obtain ⟨hdialogue, -⟩ := hapart 1 conn' hi'
    rw [hclient'] at hdialogue
    exact hdialogue.eq_nil Server.not_otherClient_asks

end AlphaRay
