import AlphaRay.Inbound.Dialogue
import AlphaRay.Inbound.Http

namespace AlphaRay

open Lib ByteStream

-- The clients of the three inbounds, each with the stream its handler begins with. An HTTP
-- client has sent its request by then.
inductive Client (S : Type) where
  | Vless (id : Uuid) (io : S)
  | Http (method : Method) (authority : Option String) (upgraded : S)
  | Socks (io : S)

namespace Client

variable {S E T : Type}

def stream : Client S → S
  | Vless _ io | Http _ _ io | Socks io => io

def IsSocks : Client S → Prop
  | Socks _ => True
  | _ => False

section

variable [AsyncStream S] [Socks5Server S E]

def handler : Client S → Handler S E T Unit
  | Vless id _ => Handler.handle_vless_stream id
  | Http method authority _ =>
      match (HttpInbound.service method authority).2 with
      | some target => Handler.handle_upgraded target
      | none => return ()
  | Socks _ => Handler.handle_socks5_stream

-- The SOCKS client asks for a connection to the target, and waits for the reply at `mid`.
def SocksAsks (io : S) (target : TargetAddr) (mid : S) : Prop :=
  ∃ peer greeted begun addr, Socks5Server.peer_addr.Returns io (.ok peer) greeted ∧
    Socks5Server.accept_no_auth.Returns greeted (.ok ()) begun ∧
    Socks5Server.read_command.Returns begun (.ok (.TCPConnect, addr)) mid ∧ target = .of_socks addr

omit [AsyncStream S] in
theorem SocksAsks.unique {io mid mid' : S} {target target' : TargetAddr}
    (h : SocksAsks io target mid) (h' : SocksAsks io target' mid') :
    target' = target ∧ mid' = mid := by
  obtain ⟨peer, greeted, begun, addr, hpeer, haccept, hread, rfl⟩ := h
  obtain ⟨peer', greeted', begun', addr', hpeer', haccept', hread', rfl⟩ := h'
  obtain ⟨-, rfl⟩ := hpeer.unique hpeer'
  obtain ⟨-, rfl⟩ := haccept.unique haccept'
  obtain ⟨haddr, rfl⟩ := hread.unique hread'
  cases haddr
  exact ⟨rfl, rfl⟩

variable [ByteStream S]

def VlessAsks (id : Uuid) (io : S) (target : TargetAddr) : Prop :=
  ∃ req, (parse_request (pipe io).unread).1 = .ok req ∧ VlessInbound.Authenticated id req ∧
    req.target = target

-- The request names the target.
def HttpAsks (method : Method) (authority : Option String) (target : TargetAddr) : Prop :=
  method = .CONNECT ∧ ∃ a, authority = some a ∧ TargetAddr.from_str a = .ok target

-- What the client asks for.
def Asks : Client S → TargetAddr → Prop
  | Vless id io => VlessAsks id io
  | Http method authority _ => HttpAsks method authority
  | Socks io => fun target => ∃ mid, SocksAsks io target mid

-- There is one target that a client asks for, at most.
theorem asks_unique {client : Client S} {target target' : TargetAddr} (h : client.Asks target)
    (h' : client.Asks target') : target' = target := by
  cases client with
  | Vless id io =>
      obtain ⟨req, hparse, -, rfl⟩ := h
      obtain ⟨req', hparse', -, rfl⟩ := h'
      obtain rfl := Except.ok.inj (hparse.symm.trans hparse')
      rfl
  | Http method authority upgraded =>
      obtain ⟨-, a, rfl, hparse⟩ := h
      obtain ⟨-, a', hsame, hparse'⟩ := h'
      obtain rfl := Option.some.inj hsame
      exact Except.ok.inj (hparse'.symm.trans hparse)
  | Socks io =>
      obtain ⟨mid, h⟩ := h
      obtain ⟨mid', h'⟩ := h'
      exact (h.unique h').1

-- The stream whose other end is the client's side of the tunnel.
def Owns : Client S → TargetAddr → S → Prop
  | Vless id io => fun target src => VlessAsks id io target ∧
      pipe src = ⟨(parse_request (pipe io).unread).2, (pipe io).written ++ [0, 0]⟩
  | Http method authority upgraded => fun target src => HttpAsks method authority target ∧
      src = upgraded
  | Socks io => fun target src => ∃ mid, SocksAsks io target mid ∧
      (Socks5Server.reply_success Handler.bound_addr).Returns mid (.ok ()) src

end

end Client

namespace Handler

open Client Program

variable {S E T : Type} [AsyncStream S] [Socks5Server S E] [ByteStream S]

theorem wp_handle_vless_stream (id : Uuid) (io : S) :
    wp Ask.Does (Dialogue (VlessAsks id io) (Owns (.Vless id io)))
      (fun result _ talk => Concluded (VlessAsks id io) False result talk)
      (handle_vless_stream id : Handler S E T Unit).run io [] := by
  refine wp_run_bind (wp_ask_run .silent fun reply src hdoes => wp_run_bind ?_)
  obtain ⟨src', haccept, hpipe⟩ := VlessProtocol.accept_returns io
  obtain ⟨rfl, rfl⟩ := haccept.unique hdoes
  have hunparsed : ∀ fault, (parse_request (pipe io).unread).1 = .error fault →
      ∀ target, ¬ VlessAsks id io target := by
    rintro fault hparse target ⟨req, hreq, -⟩
    rw [hparse] at hreq
    cases hreq
  rcases hparse : (parse_request (pipe io).unread).1 with (panic | e) | req
  · exact ⟨.silent, silent_of_not_asks (hunparsed _ hparse) fun e h => by cases h⟩
  · exact ⟨.silent, silent_of_not_asks (hunparsed _ hparse) fun e h => by cases h⟩
  · rw [hparse] at hpipe
    have hone : ∀ target, VlessAsks id io target →
        VlessInbound.Authenticated id req ∧ target = req.target := by
      rintro target ⟨req', hreq, hauth, rfl⟩
      obtain rfl := Except.ok.inj (hparse.symm.trans hreq)
      exact ⟨hauth, rfl⟩
    refine ⟨.silent, ?_⟩
    by_cases hid : req.id = id
    · simp only [ends, hid, ne_eq, not_true_eq_false, if_false]
      have hother : req.command ≠ .Tcp → ∀ target, ¬ VlessAsks id io target :=
        fun hcommand target h => hcommand (hone target h).1.2
      cases hcommand : req.command with
      | Udp => exact silent_of_not_asks (hother (by simp [hcommand])) fun e h => by cases h
      | Mux => exact silent_of_not_asks (hother (by simp [hcommand])) fun e h => by cases h
      | Tcp =>
          have hasks : VlessAsks id io req.target := ⟨req, hparse, ⟨hid, hcommand⟩, rfl⟩
          refine wp_proxy hasks (fun target h => (hone target h).2) (fun talk htalk => ?_)
            fun talk htalk => ⟨htalk, rfl, fun e h => by cases h⟩
          refine wp_ask_run htalk ?_
          rintro reply after ⟨rfl, rfl⟩
          exact ⟨rfl, .inl ⟨after, rfl, hasks, hpipe⟩⟩
    · simp only [ends, ne_eq, hid, not_false_eq_true, if_true]
      exact silent_of_not_asks (fun target h => hid (hone target h).1.1) fun e h => by cases h

-- The handler has the target that the service of the connection has read from the request.
theorem wp_handle_upgraded (method : Method) (authority : Option String) (upgraded : S) :
    wp Ask.Does (Dialogue (HttpAsks method authority) (Owns (.Http method authority upgraded)))
      (fun result _ talk => Concluded (HttpAsks method authority) False result talk)
      (Client.handler (.Http method authority upgraded) : Handler S E T Unit).run upgraded [] := by
  rcases hservice : (HttpInbound.service method authority).2 with _ | target
  · have hnone : ∀ target, ¬ HttpAsks method authority target := by
      intro target hasks
      cases hservice.symm.trans (HttpInbound.service_eq_some.mpr hasks)
    simp only [Client.handler, hservice]
    exact silent_of_not_asks hnone fun e h => by cases h
  · have hasks : HttpAsks method authority target := HttpInbound.service_eq_some.mp hservice
    have hone : ∀ t, HttpAsks method authority t → t = target := fun t h =>
      @Client.asks_unique S E _ _ _ (.Http method authority upgraded) target t hasks h
    simp only [Client.handler, hservice]
    refine wp_proxy hasks hone (fun talk htalk => ?_) fun talk htalk =>
      ⟨htalk, rfl, fun e h => by cases h⟩
    refine wp_ask_run htalk ?_
    rintro reply after ⟨rfl, rfl⟩
    exact ⟨rfl, .inl ⟨after, rfl, hasks, rfl⟩⟩

theorem wp_handle_socks5_stream (io : S) :
    wp Ask.Does (Dialogue (Asks (.Socks io)) (Owns (.Socks io)))
      (fun result _ talk => Concluded (Asks (.Socks io)) True result talk)
      (handle_socks5_stream : Handler S E T Unit).run io [] := by
  refine wp_run_bind (wp_ask_run .silent fun peer greeted hpeer => wp_run_bind ?_)
  rcases peer with e | peer
  · refine ⟨.silent, silent_of_not_asks ?_ fun _ _ => trivial⟩
    rintro target ⟨mid, peer, greeted', begun, addr, hpeer', -⟩
    cases (hpeer.unique hpeer').1
  refine ⟨.silent, wp_run_bind (wp_ask_run .silent fun accepted begun haccept => wp_run_bind ?_)⟩
  rcases accepted with e | _
  · refine ⟨.silent, silent_of_not_asks ?_ fun _ _ => trivial⟩
    rintro target ⟨mid, peer', greeted', begun', addr, hpeer', haccept', -⟩
    obtain ⟨-, rfl⟩ := hpeer.unique hpeer'
    cases (haccept.unique haccept').1
  refine ⟨.silent, wp_run_bind (wp_ask_run .silent fun read mid hread => wp_run_bind ?_)⟩
  have hother : ∀ target, Asks (.Socks io) target →
      ∃ addr, read = .ok (.TCPConnect, addr) ∧ target = .of_socks addr := by
    rintro target ⟨mid', peer', greeted', begun', addr, hpeer', haccept', hread', rfl⟩
    obtain ⟨-, rfl⟩ := hpeer.unique hpeer'
    obtain ⟨-, rfl⟩ := haccept.unique haccept'
    obtain ⟨rfl, -⟩ := hread.unique hread'
    exact ⟨addr, rfl, rfl⟩
  rcases read with e | ⟨cmd, addr⟩
  · refine ⟨.silent, silent_of_not_asks ?_ fun _ _ => trivial⟩
    intro target h
    obtain ⟨addr, hread, -⟩ := hother target h
    cases hread
  refine ⟨.silent, ?_⟩
  have hrefused : cmd ≠ .TCPConnect →
      wp Ask.Does (Dialogue (T := T) (Asks (.Socks io)) (Owns (.Socks io)))
        (fun result _ talk => Concluded (Asks (.Socks io)) True result talk)
        (do
          socks (← ask (.reply_error .CommandNotSupported))
          throw (.Socks (Socks5Server.into S .CommandNotSupported)) : Handler S E T Unit).run mid
        [] := by
    intro hcmd
    have hsilent : ∀ result : Except (HandlerError E) Unit, Concluded (Asks (.Socks io)) True
        result ([] : Talk S T) := by
      refine fun result => concluded_nil (fun target h => ?_) fun _ _ => trivial
      obtain ⟨addr', hread, -⟩ := hother target h
      cases hread
      exact hcmd rfl
    refine wp_run_bind (wp_ask_run .silent fun reply after _ => wp_run_bind ?_)
    rcases reply with e | _
    · exact ⟨.silent, .silent, hsilent _⟩
    · exact ⟨.silent, .silent, hsilent _⟩
  cases cmd with
  | TCPBind => exact hrefused (by decide)
  | UDPAssociate => exact hrefused (by decide)
  | TCPConnect =>
      have hasks : SocksAsks io (.of_socks addr) mid :=
        ⟨peer, greeted, begun, addr, hpeer, haccept, hread, rfl⟩
      refine wp_proxy ⟨mid, hasks⟩ ?_ ?_ ?_
      · rintro target ⟨mid', h⟩
        exact (hasks.unique h).1
      · intro talk htalk
        refine wp_run_bind (wp_ask_run htalk fun reply src hreply => wp_run_bind ?_)
        rcases reply with e | _
        · exact ⟨htalk, htalk, rfl, .inr ⟨trivial, e, rfl⟩⟩
        · refine ⟨htalk, wp_ask_run htalk ?_⟩
          rintro reply after ⟨rfl, rfl⟩
          exact ⟨rfl, .inl ⟨after, rfl, mid, hasks, hreply⟩⟩
      · intro talk htalk
        refine wp_run_bind (wp_ask_run htalk fun reply after _ => ?_)
        rcases reply with e | _
        · exact ⟨htalk, rfl, fun _ _ => trivial⟩
        · exact ⟨htalk, rfl, fun _ _ => trivial⟩

-- Every handler keeps to the dialogue of its client.
theorem wp_handler (client : Client S) :
    wp Ask.Does (Dialogue client.Asks client.Owns)
      (fun result _ talk => Concluded client.Asks client.IsSocks result talk)
      (client.handler : Handler S E T Unit).run client.stream [] := by
  cases client with
  | Vless id io => exact wp_handle_vless_stream id io
  | Http method authority upgraded => exact wp_handle_upgraded method authority upgraded
  | Socks io => exact wp_handle_socks5_stream io

end Handler

end AlphaRay
