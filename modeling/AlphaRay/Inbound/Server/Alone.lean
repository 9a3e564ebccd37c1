import AlphaRay.Inbound.Server
import AlphaRay.Inbound.Vless.Tunnels

namespace AlphaRay

open Lib Program

variable {S E T D : Type}

-- The dispatcher gives these answers when it is called so.
inductive Dispatcher.Replays [Dispatcher D S T] : D → Handler.Talk S T → D → Prop
  | nil {self : D} : Replays self [] self
  | answer {self mid after : D} {req : InboundRequest S T} {talk : Handler.Talk S T}
      {answer : Except AlphaRayError (DispatcherResponse T)}
      (h : (Dispatcher.dispatch req).Returns self answer mid) (hrest : Replays mid talk after) :
      Replays self (.call req :: .answer req answer :: talk) after

def HandlerError.of_fault : Fault AlphaRayError → HandlerError E
  | .Panicked panic => .Panicked panic
  | .Failed e => .Failed e

namespace Handler

variable [AsyncStream S] [Socks5Server S E] [Dispatcher D S T] {before after : D} {io src : S}
  {talk : Talk S T} {result : Except (HandlerError E) Unit}

-- What is said for a target when the stream is handed on as it is.
theorem proxy_plays {target : TargetAddr}
    (hplays : Plays Ask.Does (proxy target (ask .take) (return ()) : Handler S E T Unit).run io talk
      result src) :
    src = io ∧ result = .ok () ∧
      ((∃ answer, (∀ dst, answer ≠ .ok (.Connected dst)) ∧
          talk = [.call (.Connect target), .answer (.Connect target) answer]) ∨
        ∃ dst answer, talk = [.call (.Connect target),
          .answer (.Connect target) (.ok (.Connected dst)), .call (.Tunnel io dst),
          .answer (.Tunnel io dst) answer]) := by
  rcases hplays.of_run_bind with ⟨answer, mid, first, later, hcall, hrest, rfl⟩ | ⟨e, -, hcall⟩
  · obtain ⟨answer', hanswer, rfl, rfl⟩ := hcall.of_request
    cases hanswer
    rcases answer with e | dst | _
    · obtain ⟨rfl, rfl, rfl⟩ := hrest.of_pure
      exact ⟨rfl, rfl, .inl ⟨.error e, by simp, rfl⟩⟩
    · rcases hrest.of_run_bind with ⟨taken, now, nothing, more, htake, htunnel, rfl⟩ | ⟨e, -, htake⟩
      · obtain ⟨taken', htaken, rfl, hdoes⟩ := htake.of_ask
        cases htaken
        obtain ⟨rfl, rfl⟩ := hdoes
        rcases htunnel.of_run_bind with
          ⟨answer, mid, said, last, hcall', hend, rfl⟩ | ⟨e, -, hcall'⟩
        · obtain ⟨answer', hanswer, rfl, rfl⟩ := hcall'.of_request
          cases hanswer
          obtain ⟨rfl, rfl, rfl⟩ : result = .ok () ∧ last = [] ∧ src = mid := by
            rcases answer with e | _ | _ <;> exact hend.of_pure
          exact ⟨rfl, rfl, .inr ⟨dst, answer, rfl⟩⟩
        · obtain ⟨answer, hanswer, -⟩ := hcall'.of_request
          cases hanswer
      · obtain ⟨taken, htaken, -⟩ := htake.of_ask
        cases htaken
    · obtain ⟨rfl, rfl, rfl⟩ := hrest.of_pure
      exact ⟨rfl, rfl, .inl ⟨.ok .Tunneling, by simp, rfl⟩⟩
  · obtain ⟨answer, hanswer, -⟩ := hcall.of_request
    cases hanswer

-- The program of a handler does what the handler does.
theorem alone_of_plays {id : Uuid}
    (hplays : Plays Ask.Does (handle_vless_stream id : Handler S E T Unit).run io talk result src)
    (hreplays : Dispatcher.Replays before talk after) :
    ∃ alone, (VlessInbound.handle_vless_stream id).Returns (io, before) alone (src, after) ∧
      result = alone.mapError HandlerError.of_fault := by
  rcases hplays.of_run_bind with ⟨reply, mid, first, later, hask, hrest, rfl⟩ | ⟨e, -, hask⟩
  · obtain ⟨reply', hreply, rfl, hdoes⟩ := hask.of_ask
    cases hreply
    rcases hrest.of_run_bind with ⟨req, mid', nothing, said, hvless, hreq, rfl⟩ | ⟨e, rfl, hvless⟩
    · rcases reply with (panic | e) | req
      · cases hvless.of_throw.1
      · cases hvless.of_throw.1
      obtain ⟨hsame, rfl, rfl⟩ := hvless.of_pure
      cases hsame
      have haccept : VlessInbound.accept.Returns (io, before) (.ok req) (mid', before) :=
        VlessInbound.accept_ok hdoes
      by_cases hid : req.id = id
      · simp only [hid, ne_eq, not_true_eq_false, if_false] at hreq
        cases hcommand : req.command with
        | Tcp =>
            rw [hcommand] at hreq
            obtain ⟨rfl, rfl, htalk⟩ := proxy_plays hreq
            refine ⟨.ok (), haccept.bind ?_, rfl⟩
            simp only [hid, ne_eq, not_true_eq_false, if_false, hcommand]
            refine (Async.Returns.peek _).bind ?_
            rcases htalk with ⟨answer, hother, rfl⟩ | ⟨dst, answer, rfl⟩
            · cases hreplays with
              | answer hconnect hnothing =>
                  cases hnothing
                  refine (VlessInbound.dispatch_returns hconnect).bind ?_
                  rcases answer with e | dst | _
                  · exact .pure _ _
                  · exact (hother dst rfl).elim
                  · exact .pure _ _
            · cases hreplays with
              | answer hconnect hrest =>
                  cases hrest with
                  | answer htunnel hnothing =>
                      cases hnothing
                      refine (VlessInbound.dispatch_returns hconnect).bind
                        ((VlessInbound.dispatch_returns htunnel).bind ?_)
                      rcases answer with e | _ | _ <;> exact .pure _ _
        | Udp | Mux =>
            rw [hcommand] at hreq
            obtain ⟨rfl, rfl, rfl⟩ := hreq.of_throw
            cases hreplays
            refine ⟨.error (.Failed (.Vless (.InvalidCommand req.command.as_u8))),
              haccept.bind ?_, by rw [hcommand]; rfl⟩
            simp only [hid, ne_eq, not_true_eq_false, if_false, hcommand]
            exact .throw _ _
      · simp only [hid, ne_eq, not_false_eq_true, if_true] at hreq
        obtain ⟨rfl, rfl, rfl⟩ := hreq.of_throw
        cases hreplays
        refine ⟨.error (.Failed .Permission), haccept.bind ?_, rfl⟩
        simp only [ne_eq, hid, not_false_eq_true, if_true]
        exact .throw _ _
    · have hzoom : Async.Returns (.zoom Prod.fst (fun st stream => (stream, st.2))
          VlessProtocol.accept) (io, before) reply (mid, before) := Async.Returns.zoom hdoes
      rcases reply with (panic | e) | req
      · obtain ⟨hsame, rfl, rfl⟩ := hvless.of_throw
        cases hsame
        cases hreplays
        exact ⟨_, (hzoom.map_err _).bind_error, rfl⟩
      · obtain ⟨hsame, rfl, rfl⟩ := hvless.of_throw
        cases hsame
        cases hreplays
        exact ⟨_, (hzoom.map_err _).bind_error, rfl⟩
      · cases hvless.of_pure.1
  · obtain ⟨reply, hreply, -⟩ := hask.of_ask
    cases hreply

end Handler

-- A VLESS handler at its end did what it does alone with a dispatcher that gives it the same
-- answers: nothing that the other handlers did in between is seen in its result, in its
-- stream or in its calls.
theorem vless_handler_alone {S E T D D' : Type} [AsyncStream S] [Socks5Server S E]
    [Dispatcher D S T] [Dispatcher D' S T] {dispatcher : D} {server : Server D S E T}
    {past : List (Transition (Server D S E T) (Pool.Act (ClientTask S E T) (Option (Word S T))))}
    (hrun : Run Server.Step (Server.listening dispatcher) past server) {i : Nat}
    {conn : ClientTask S E T} (hi : server.workers[i]? = some conn) {id : Uuid} {io : S}
    (hclient : conn.client = .Vless id io) {result : Except (HandlerError E) Unit}
    (hdone : conn.handler.program = .done result) {before after : D'}
    (hreplays : Dispatcher.Replays before (Server.said i past) after) :
    ∃ alone, (VlessInbound.handle_vless_stream id).Returns (io, before) alone
        (conn.handler.state, after) ∧ result = alone.mapError HandlerError.of_fault := by
  obtain ⟨mine, hmine, hheard⟩ := Server.run_of_conn hrun hi
  have hplays := Worker.plays_of_run hmine hdone
  rw [hheard, hclient] at hplays
  exact Handler.alone_of_plays hplays hreplays

-- A dispatcher that gives answers from a list.
structure Recited (S T : Type) where
  answers : List (Except AlphaRayError (DispatcherResponse T))

instance {S T : Type} : Dispatcher (Recited S T) S T where
  dispatch _ := .of fun _ self =>
    match self.answers with
    | [] => none
    | answer :: answers => some (answer, ⟨answers⟩)

theorem replays_recited {S E T : Type} [AsyncStream S] [Socks5Server S E] {io src : S}
    {prog : Program Ask (Ask.Reply S E) (InboundRequest S T)
      (Except AlphaRayError (DispatcherResponse T)) (Except (HandlerError E) Unit)}
    {talk : Handler.Talk S T} {result : Except (HandlerError E) Unit}
    (hplays : Plays Ask.Does prog io talk result src) :
    ∃ before : Recited S T, Dispatcher.Replays before talk ⟨[]⟩ := by
  induction hplays with
  | done => exact ⟨⟨[]⟩, .nil⟩
  | own _ _ ih => exact ih
  | @call req next answer _ _ _ _ _ ih =>
      obtain ⟨⟨answers⟩, hrest⟩ := ih
      exact ⟨⟨answer :: answers⟩, .answer ⟨0, fun _ _ => rfl⟩ hrest⟩

-- The first of two clients, with the answers it got beside the other.
theorem vless_handler_alone_recited :
    ∃ (answers : List (Except AlphaRayError (DispatcherResponse Channel)))
      (alone : Except (Fault AlphaRayError) Unit) (src : Channel),
      (VlessInbound.handle_vless_stream VlessInbound.configuredId).Returns
        (⟨VlessInbound.requestOfConfigured, [], [some 4, none]⟩,
          (⟨answers⟩ : Recited Channel Channel)) alone (src, ⟨[]⟩) := by
  obtain ⟨past, server, conn, conn', result, result', hrun, hi, hclient, hdone, -⟩ :=
    Server.exists_run_of_two Server.unreachable_answers ⟨⟩
  obtain ⟨mine, hmine, hheard⟩ := Server.run_of_conn hrun hi
  have hplays := Worker.plays_of_run hmine hdone
  rw [hheard] at hplays
  obtain ⟨⟨answers⟩, hreplays⟩ := replays_recited hplays
  obtain ⟨alone, hreturns, -⟩ := vless_handler_alone hrun hi hclient hdone hreplays
  exact ⟨answers, alone, _, hreturns⟩

end AlphaRay
