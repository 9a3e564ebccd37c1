import AlphaRay.Protocol.Tls.Peers
import AlphaRay.Protocol.Vless.Calls
import AlphaRay.Protocol.Vless.Layers
import AlphaRay.Protocol.Vless.Theorems

namespace AlphaRay

open Lib

variable {A : Type} [AsyncStream A]

-- The calls that a client has made of the stream beneath when it connects and then makes the
-- calls `talk`. That stream is stood for by one that gave it the same replies.
inductive VlessStream.Speaks (request : VlessRequest) : List Call →
    List (Transition (VlessStream (Recorded A)) Call) → Prop
  | connecting {io : A} {fuel : Nat} {outcome : Except (Fault VlessError) Unit}
      {st : VlessStream (Recorded A)} {calls : List Call}
      (hconnect : (connect request).run fuel (.new (.new io)) = some (outcome, st))
      (hcalls : calls <+: st.inner.calls) : Speaks request calls []
  | connected {io : A} {fuel : Nat} {mid st : VlessStream (Recorded A)}
      {talk : List (Transition (VlessStream (Recorded A)) Call)}
      (hconnect : (connect request).run fuel (.new (.new io)) = some (.ok (), mid))
      (hrun : Run Step mid talk st) : Speaks request st.inner.calls talk

-- The same for a server, with the answer of `accept` and the calls behind it.
inductive VlessProtocol.Serves (A : Type) [AsyncStream A] : List Call →
    Option (Except (Fault VlessError) VlessRequest) → List Call → Prop
  | accepting {io : A} {fuel : Nat} {outcome : Except (Fault VlessError) VlessRequest}
      {after : Recorded A} {calls : List Call}
      (haccept : accept.run fuel (.new io) = some (outcome, after))
      (hcalls : calls <+: after.calls) : Serves A calls none []
  | refused {io : A} {fuel : Nat} {e : Fault VlessError} {after : Recorded A}
      (haccept : accept.run fuel (.new io) = some (.error e, after)) :
      Serves A after.calls (some (.error e)) []
  | accepted {io : A} {fuel : Nat} {got : VlessRequest} {after : Recorded A} {more : List Call}
      (haccept : accept.run fuel (.new io) = some (.ok got, after)) :
      Serves A (after.calls ++ more) (some (.ok got)) more

open VlessStream VlessProtocol

section

variable {request : VlessRequest} {calls more : List Call} {sent later : List UInt8}
  {talk : List (Transition (VlessStream (Recorded A)) Call)}
  {answer : Option (Except (Fault VlessError) VlessRequest)}

-- The request is the first thing that a client sends.
theorem VlessStream.Speaks.sends (h : Speaks request calls talk) (hsent : Sends calls sent) :
    ∃ later, Sends (talk.map (·.label)) later ∧ sent <+: request.to_bytes ++ later := by
  cases h with
  | @connecting io fuel outcome st _ hconnect hcalls =>
      refine ⟨[], ⟨[], .nil, rfl⟩, ?_⟩
      rw [List.append_nil]
      have hpost := connect_rule io request fuel _ _ _ rfl hconnect
      rcases outcome with e | _
      · exact hpost calls hcalls sent hsent
      · exact hpost.1.front calls hcalls sent hsent
  | @connected io fuel mid st _ hconnect hrun =>
      have hpost := connect_rule io request fuel _ _ _ rfl hconnect
      obtain ⟨more, hmore, htalk⟩ := calls_of_run hrun
      rw [hmore] at hsent
      obtain ⟨front, later, hfront, hlater, rfl⟩ := sends_append hsent
      have hrequest := hpost.1.sent_append front hfront
      rw [List.append_nil] at hrequest
      rw [hrequest]
      exact ⟨later, htalk later hlater, List.prefix_rfl⟩

-- The response is taken off what a client reads.
theorem VlessStream.Speaks.handed_prefix (h : Speaks request calls talk)
    (hfilled : calls.flatMap Call.filled <+: [0, 0] ++ later) : handed talk <+: later := by
  cases h with
  | connecting => exact List.nil_prefix
  | @connected io fuel mid st _ hconnect hrun =>
      have hpost := connect_rule io request fuel _ _ _ rfl hconnect
      rw [Recorded.filled_calls] at hfilled
      obtain ⟨missing, hall⟩ := hfilled
      cases keeps_handed hpost.2 hrun with
      | waiting _ hgiven =>
          rw [hgiven]
          exact List.nil_prefix
      | relaying _ hpayload =>
          have hwhole := payload_append hpayload missing
          have hresponse : payload ([0, 0] ++ later) = some later := payload_of_addons 0 rfl
          rw [hall, hresponse, List.append_assoc] at hwhole
          exact ⟨_, (Option.some.inj hwhole).symm⟩

-- A server sends its response first.
theorem VlessProtocol.Serves.sends (h : Serves A calls answer more) (hsent : Sends calls sent) :
    ∃ later, Sends more later ∧ sent <+: [0, 0] ++ later := by
  cases h with
  | @accepting io fuel outcome after _ haccept hcalls =>
      have hpost := accept_rule io fuel _ _ _ rfl haccept
      refine ⟨[], ⟨[], .nil, rfl⟩, ?_⟩
      rcases outcome with e | got
      · exact hpost.1 calls hcalls sent hsent
      · exact hpost.1.front calls hcalls sent hsent
  | @refused io fuel e after haccept =>
      have hpost := accept_rule io fuel _ _ _ rfl haccept
      exact ⟨[], ⟨[], .nil, rfl⟩, hpost.1 _ List.prefix_rfl sent hsent⟩
  | @accepted io fuel got after _ haccept =>
      have hpost := accept_rule io fuel _ _ _ rfl haccept
      obtain ⟨front, later, hfront, hlater, rfl⟩ := sends_append hsent
      have hresponse := hpost.1.sent_append front hfront
      rw [List.append_nil] at hresponse
      rw [hresponse]
      exact ⟨later, hlater, List.prefix_rfl⟩

-- What a server makes of a request, and what it reads behind it.
theorem VlessProtocol.Serves.reads (h : Serves A calls answer more)
    (hfits : request.target.Fits)
    (hfilled : calls.flatMap Call.filled <+: request.to_bytes ++ later) :
    (∀ got, answer = some (.ok got) → got.Agrees request) ∧
    (∀ e, answer = some (.error e) → ∃ error, e = .Failed (.Io error)) ∧
    more.flatMap Call.filled <+: later := by
  obtain ⟨got, hparse, hagrees⟩ := parse_request_to_bytes request later hfits
  obtain ⟨missing, hall⟩ := hfilled
  cases h with
  | accepting => exact ⟨nofun, nofun, List.nil_prefix⟩
  | @refused io fuel e after haccept =>
      have hpost := accept_rule io fuel _ _ _ rfl haccept
      refine ⟨nofun, fun e' he => ?_, List.nil_prefix⟩
      cases he
      rcases hpost.2 with herror | hparsed
      · exact herror
      · have hwrong := hparsed missing
        rw [Recorded.filled_calls] at hall
        rw [hall] at hwrong
        cases hwrong.symm.trans (congrArg Prod.fst hparse)
  | @accepted io fuel got' after _ haccept =>
      have hpost := accept_rule io fuel _ _ _ rfl haccept
      rw [List.flatMap_append, Recorded.filled_calls, List.append_assoc] at hall
      have hparsed := hpost.2 (more.flatMap Call.filled ++ missing)
      rw [hall] at hparsed
      obtain ⟨hgot, hlater⟩ := Prod.mk.inj (hparse.symm.trans hparsed)
      cases hgot
      refine ⟨fun _ hanswer => ?_, nofun, missing, hlater.symm⟩
      cases hanswer
      exact hagrees

end

-- The server answers the request of the client, and then each of them reads a front part of
-- what the other writes behind it.
structure VlessSession (request : VlessRequest)
    (answer : Option (Except (Fault VlessError) VlessRequest))
    (talk : List (Transition (VlessStream (Recorded A)) Call)) (more : List Call) : Prop where
  understood : ∀ got, answer = some (.ok got) → got.Agrees request
  not_refused : ∀ e, answer = some (.error e) → ∃ error, e = .Failed (.Io error)
  upstream : ∃ sent, Sends (talk.map (·.label)) sent ∧ more.flatMap Call.filled <+: sent
  downstream : ∃ sent, Sends more sent ∧ handed talk <+: sent

theorem vlessSession_of_relayed {B : Type} [AsyncStream B] {request : VlessRequest}
    (hfits : request.target.Fits) {calls : Side → List Call} (hrelayed : Relayed calls)
    {answer : Option (Except (Fault VlessError) VlessRequest)}
    {talk : List (Transition (VlessStream (Recorded A)) Call)} {more : List Call}
    (hclient : Speaks request (calls .client) talk)
    (hserver : Serves B (calls .server) answer more) : VlessSession request answer talk more := by
  obtain ⟨sent, hsent, hfilled⟩ := hrelayed .server
  obtain ⟨later, htalk, hle⟩ := hclient.sends hsent
  obtain ⟨hunderstood, hrefused, hupstream⟩ := hserver.reads hfits (hfilled.trans hle)
  obtain ⟨sent', hsent', hfilled'⟩ := hrelayed .client
  obtain ⟨later', hmore, hle'⟩ := hserver.sends hsent'
  exact ⟨hunderstood, hrefused, ⟨later, htalk, hupstream⟩, later', hmore,
    hclient.handed_prefix (hfilled'.trans hle')⟩

-- VLESS over TLS, as the program serves it: in every interleaving of the two sides.
theorem vless_over_tls {S C B : Type} [AsyncStream S] [Connection C] [SendLaws C] [ReceiveLaws C]
    [AsyncStream B] (io : Side → S) (session : Side → C)
    (hsecure : Fed.Secure (session .client) (session .server))
    (hnew : ∀ side, NewSession (session side))
    (past : List (Transition (Side → Observed S C) (Side × Call))) (states : Side → Observed S C)
    (hrun : Run (Observed.party.Joint Side.peer)
      (fun side => Observed.new (io side) (session side)) past states)
    {request : VlessRequest} (hfits : request.target.Fits)
    {answer : Option (Except (Fault VlessError) VlessRequest)}
    {talk : List (Transition (VlessStream (Recorded A)) Call)} {more : List Call}
    (hclient : Speaks request ((own .client past).map (·.label)) talk)
    (hserver : Serves B ((own .server past).map (·.label)) answer more) :
    VlessSession request answer talk more :=
  vlessSession_of_relayed hfits (Observed.relayed_of_run hsecure hnew hrun) hclient hserver

section Sevens

open NullCipher Observed

def requestOfSevens : VlessRequest where
  version := .Zero
  id := idOfSevens
  command := .Tcp
  target := .SocketAddr (.V4 ⟨⟨List.replicate 4 1, List.length_replicate⟩⟩ 443)

theorem fits_requestOfSevens : requestOfSevens.target.Fits := by
  intro domain port heq
  cases heq

-- A server that sends the byte 9 behind its response.
def sevensStreams : Side → Scripted :=
  Side.pick ⟨[.Pending, .Ready (.ok [0]), .Ready (.ok [1, 0, 1, 0, 1, 9])], []⟩
    ⟨[.Ready (.ok [0]), .Pending, .Ready (.ok (requestOfSevens.to_bytes.flatMap ([1, ·])))], []⟩

def sevensPair (side : Side) : Observed Scripted NullCipher :=
  .new (sevensStreams side) (newPair side)

def callsOfServer : List Call :=
  [.read 22 (.error .Pending), .read 22 (.ok (requestOfSevens.to_bytes.take 8)),
    .read 14 (.ok ((requestOfSevens.to_bytes.drop 8).take 8)),
    .read 6 (.ok ((requestOfSevens.to_bytes.drop 16).take 6)),
    .read 4 (.ok ((requestOfSevens.to_bytes.drop 22).take 2)),
    .read 2 (.ok (requestOfSevens.to_bytes.drop 24)),
    .write [0, 0] (.ok 2), .flush (.ok ()), .write [9] (.ok 1)]

def callsOfClient : List Call :=
  [.write requestOfSevens.to_bytes (.error .Pending), .write requestOfSevens.to_bytes (.ok 26),
    .flush (.ok ()), .read 256 (.ok [0, 0, 9])]

theorem sevensPair_runs : ∃ past states, Run (party.Joint Side.peer) sevensPair past states ∧
    (own .client past).map (·.label) = callsOfClient ∧
    (own .server past).map (·.label) = callsOfServer := by
  obtain ⟨c₁, c₂, c₃, c₄, s₁, s₂, s₃, s₄, s₅, s₆, s₇, s₈, s₉, hc₁, hc₂, hc₃, hc₄, hs₁, hs₂, hs₃,
      hs₄, hs₅, hs₆, hs₇, hs₈, hs₉, hgot⟩ :
      ∃ c₁ c₂ c₃ c₄ s₁ s₂ s₃ s₄ s₅ s₆ s₇ s₈ s₉ : Observed Scripted NullCipher,
        TlsStream.Step (sevensPair .client)
          (.write requestOfSevens.to_bytes (.error .Pending)) c₁ ∧
        TlsStream.Step c₁ (.write requestOfSevens.to_bytes (.ok 26)) c₂ ∧
        TlsStream.Step c₂ (.flush (.ok ())) c₃ ∧
        TlsStream.Step c₃ (.read 256 (.ok [0, 0, 9])) c₄ ∧
        TlsStream.Step (sevensPair .server) (.read 22 (.error .Pending)) s₁ ∧
        TlsStream.Step s₁ (.read 22 (.ok (requestOfSevens.to_bytes.take 8))) s₂ ∧
        TlsStream.Step s₂ (.read 14 (.ok ((requestOfSevens.to_bytes.drop 8).take 8))) s₃ ∧
        TlsStream.Step s₃ (.read 6 (.ok ((requestOfSevens.to_bytes.drop 16).take 6))) s₄ ∧
        TlsStream.Step s₄ (.read 4 (.ok ((requestOfSevens.to_bytes.drop 22).take 2))) s₅ ∧
        TlsStream.Step s₅ (.read 2 (.ok (requestOfSevens.to_bytes.drop 24))) s₆ ∧
        TlsStream.Step s₆ (.write [0, 0] (.ok 2)) s₇ ∧ TlsStream.Step s₇ (.flush (.ok ())) s₈ ∧
        TlsStream.Step s₈ (.write [9] (.ok 1)) s₉ ∧
        c₁.inner.arrived = [] ∧ s₁.inner.arrived = c₁.inner.delivered ∧
        c₂.inner.arrived = s₁.inner.delivered ∧ c₃.inner.arrived = s₁.inner.delivered ∧
        s₂.inner.arrived = c₃.inner.delivered.take 17 ∧
        s₃.inner.arrived = c₃.inner.delivered.take 33 ∧
        s₄.inner.arrived = c₃.inner.delivered.take 49 ∧
        s₅.inner.arrived = c₃.inner.delivered.take 49 ∧
        s₆.inner.arrived = c₃.inner.delivered ∧ s₇.inner.arrived = c₃.inner.delivered ∧
        s₈.inner.arrived = c₃.inner.delivered ∧ s₉.inner.arrived = c₃.inner.delivered ∧
        c₄.inner.arrived = s₉.inner.delivered :=
    ⟨_, _, _, _, _, _, _, _, _, _, _, _, _, ⟨32, rfl⟩, ⟨32, rfl⟩, ⟨32, rfl⟩, ⟨32, rfl⟩, ⟨32, rfl⟩,
      ⟨32, rfl⟩, ⟨32, rfl⟩, ⟨32, rfl⟩, ⟨32, rfl⟩, ⟨32, rfl⟩, ⟨32, rfl⟩, ⟨32, rfl⟩, ⟨32, rfl⟩,
      rfl, rfl, rfl, rfl, rfl, rfl, rfl, rfl, rfl, rfl, rfl, rfl, rfl⟩
  obtain ⟨hg₁, hg₂, hg₃, hg₄, hg₅, hg₆, hg₇, hg₈, hg₉, hg₁₀, hg₁₁, hg₁₂, hg₁₃⟩ := hgot
  have hjoint : ∀ states : Side → Observed Scripted NullCipher, ∀ side call next,
      TlsStream.Step (states side) call next →
      next.inner.arrived <+: (states side.peer).inner.delivered →
      party.Joint Side.peer states (side, call) (Function.update states side next) :=
    fun states side call next hstep hgot => ⟨next, hstep, hgot, rfl⟩
  have hrequest := ((((Run.nil.next
    (hjoint sevensPair .client _ c₁ hc₁ (hg₁ ▸ List.nil_prefix))).next
    (hjoint _ .server _ s₁ hs₁ (hg₂ ▸ List.prefix_rfl))).next
    (hjoint _ .client _ c₂ hc₂ (hg₃ ▸ List.prefix_rfl))).next
    (hjoint _ .client _ c₃ hc₃ (hg₄ ▸ List.prefix_rfl)))
  have haccept := (((((hrequest.next
    (hjoint _ .server _ s₂ hs₂ (hg₅ ▸ List.take_prefix _ _))).next
    (hjoint _ .server _ s₃ hs₃ (hg₆ ▸ List.take_prefix _ _))).next
    (hjoint _ .server _ s₄ hs₄ (hg₇ ▸ List.take_prefix _ _))).next
    (hjoint _ .server _ s₅ hs₅ (hg₈ ▸ List.take_prefix _ _))).next
    (hjoint _ .server _ s₆ hs₆ (hg₉ ▸ List.prefix_rfl)))
  have hreply := ((((haccept.next
    (hjoint _ .server _ s₇ hs₇ (hg₁₀ ▸ List.prefix_rfl))).next
    (hjoint _ .server _ s₈ hs₈ (hg₁₁ ▸ List.prefix_rfl))).next
    (hjoint _ .server _ s₉ hs₉ (hg₁₂ ▸ List.prefix_rfl))).next
    (hjoint _ .client _ c₄ hc₄ (hg₁₃ ▸ List.prefix_rfl)))
  exact ⟨_, _, hreply, rfl, rfl⟩

theorem sevens_speaks : ∃ talk : List (Transition (VlessStream (Recorded Scripted)) Call),
    Speaks requestOfSevens callsOfClient talk ∧ handed talk = [9] := by
  obtain ⟨mid, st, hconnect, hread, hcalls⟩ :
      ∃ mid st : VlessStream (Recorded Scripted),
        (connect requestOfSevens).run 8
          (.new (.new ⟨[.Ready (.ok [0, 0, 9])], [.Pending, .Ready (.ok 26)]⟩)) =
          some (.ok (), mid) ∧
        (poll_read 4).run 8 mid = some (.ok [9], st) ∧ st.inner.calls = callsOfClient :=
    ⟨_, _, rfl, rfl, rfl⟩
  have hstep : Step mid (.read 4 (.ok [9])) st := .read _ _ _ ((mono_poll_read 4).returns hread)
  rw [← hcalls]
  exact ⟨_, .connected hconnect (Run.nil.next hstep), rfl⟩

theorem sevens_serves :
    ∃ got, Serves Scripted callsOfServer (some (.ok got)) [.write [9] (.ok 1)] := by
  obtain ⟨got, after, haccept, hcalls⟩ :
      ∃ got, ∃ after : Recorded Scripted,
        accept.run 8 (.new ⟨[.Pending, .Ready (.ok (requestOfSevens.to_bytes.take 8)),
          .Ready (.ok ((requestOfSevens.to_bytes.drop 8).take 8)),
          .Ready (.ok ((requestOfSevens.to_bytes.drop 16).take 6)),
          .Ready (.ok ((requestOfSevens.to_bytes.drop 22).take 2)),
          .Ready (.ok (requestOfSevens.to_bytes.drop 24))], []⟩) = some (.ok got, after) ∧
        after.calls ++ [.write [9] (.ok 1)] = callsOfServer :=
    ⟨_, _, rfl, rfl⟩
  rw [← hcalls]
  exact ⟨got, .accepted haccept⟩

theorem vless_over_tls_sevens : ∃ past states,
    Run (party.Joint Side.peer) sevensPair past states ∧
    ∃ got, ∃ talk : List (Transition (VlessStream (Recorded Scripted)) Call), handed talk = [9] ∧
      VlessSession requestOfSevens (some (.ok got)) talk [.write [9] (.ok 1)] := by
  obtain ⟨past, states, hrun, hclient, hserver⟩ := sevensPair_runs
  obtain ⟨talk, hspeaks, htalk⟩ := sevens_speaks
  obtain ⟨got, hserves⟩ := sevens_serves
  rw [← hclient] at hspeaks
  rw [← hserver] at hserves
  exact ⟨past, states, hrun, got, talk, htalk, vless_over_tls sevensStreams newPair
    (secure_new 64 64 64 64) newSession_newPair past states hrun fits_requestOfSevens hspeaks
    hserves⟩

end Sevens

end AlphaRay
