import AlphaRay.Inbound.Handler
import AlphaRay.Inbound.Vless.Theorems

namespace AlphaRay

open Lib ByteStream

namespace Handler

variable {S E T : Type}

abbrev Talk (S T : Type) : Type :=
  List (Said (InboundRequest S T) (Except AlphaRayError (DispatcherResponse T)))

-- Everything a handler says to the dispatcher for a client that asks for a target. A tunnel
-- is asked for behind a connection, to the stream of that connection.
inductive Dialogue (asks : TargetAddr → Prop) (owns : TargetAddr → S → Prop) : Talk S T → Prop
  | silent : Dialogue asks owns []
  | connecting {target : TargetAddr} (hasks : asks target) :
      Dialogue asks owns [.call (.Connect target)]
  | answered {target : TargetAddr} {answer : Except AlphaRayError (DispatcherResponse T)}
      (hasks : asks target) :
      Dialogue asks owns [.call (.Connect target), .answer (.Connect target) answer]
  | tunnelling {target : TargetAddr} {src : S} {dst : T} (hasks : asks target)
      (howns : owns target src) :
      Dialogue asks owns [.call (.Connect target), .answer (.Connect target) (.ok (.Connected dst)),
        .call (.Tunnel src dst)]
  | tunnelled {target : TargetAddr} {src : S} {dst : T}
      {answer : Except AlphaRayError (DispatcherResponse T)} (hasks : asks target)
      (howns : owns target src) :
      Dialogue asks owns [.call (.Connect target), .answer (.Connect target) (.ok (.Connected dst)),
        .call (.Tunnel src dst), .answer (.Tunnel src dst) answer]

-- At its end it has asked for the target, if there is one, and for the tunnel, if the target
-- was connected and a SOCKS client could be told so.
structure Concluded (asks : TargetAddr → Prop) (socks : Prop)
    (result : Except (HandlerError E) Unit) (talk : Talk S T) : Prop where
  asked : ∀ target, asks target → ∃ answer, .answer (.Connect target) answer ∈ talk
  tunnelled : ∀ target dst, .answer (.Connect target) (.ok (.Connected dst)) ∈ talk →
    (∃ src answer, .answer (.Tunnel src dst) answer ∈ talk) ∨ ∃ e, result = .error (.Socks e)
  failed : ∀ e, result = .error (.Socks e) → socks

variable {asks : TargetAddr → Prop} {owns : TargetAddr → S → Prop} {socks : Prop}
  {result : Except (HandlerError E) Unit}

theorem concluded_nil (hasks : ∀ target, ¬ asks target)
    (hsocks : ∀ e, result = .error (.Socks e) → socks) :
    Concluded asks socks result ([] : Talk S T) where
  asked target h := (hasks target h).elim
  tunnelled _ _ h := by cases h
  failed := hsocks

-- A client that asks for nothing is not spoken of.
theorem silent_of_not_asks (hasks : ∀ target, ¬ asks target)
    (hsocks : ∀ e, result = .error (.Socks e) → socks) :
    Dialogue (T := T) asks owns [] ∧ Concluded asks socks result ([] : Talk S T) :=
  ⟨.silent, concluded_nil hasks hsocks⟩

theorem Dialogue.eq_nil {talk : Talk S T} (h : Dialogue asks owns talk)
    (hasks : ∀ target, ¬ asks target) : talk = [] := by
  cases h with
  | silent => rfl
  | connecting h | answered h | tunnelling h | tunnelled h => exact (hasks _ h).elim

theorem concluded_answered {target : TargetAddr} (hasks : ∀ t, asks t → t = target)
    {answer : Except AlphaRayError (DispatcherResponse T)}
    (hanswer : (∀ dst, answer ≠ .ok (.Connected dst)) ∨ ∃ e, result = .error (.Socks e))
    (hsocks : ∀ e, result = .error (.Socks e) → socks) :
    Concluded asks socks result
      ([.call (.Connect target), .answer (.Connect target) answer] : Talk S T) where
  asked t h := by
    obtain rfl := hasks t h
    exact ⟨answer, by simp⟩
  tunnelled t dst h := by
    obtain ⟨-, rfl⟩ : t = target ∧ .ok (.Connected dst) = answer := by simpa using h
    exact .inr (hanswer.resolve_left fun hother => hother dst rfl)
  failed := hsocks

theorem concluded_tunnelled {target : TargetAddr} (hasks : ∀ t, asks t → t = target) (src : S)
    (dst : T) (answer : Except AlphaRayError (DispatcherResponse T)) :
    Concluded (E := E) asks socks (.ok ()) [.call (.Connect target),
      .answer (.Connect target) (.ok (.Connected dst)), .call (.Tunnel src dst),
      .answer (.Tunnel src dst) answer] where
  asked t h := by
    obtain rfl := hasks t h
    exact ⟨.ok (.Connected dst), by simp⟩
  tunnelled t dst' h := by
    obtain ⟨-, rfl⟩ : t = target ∧ dst' = dst := by simpa using h
    exact .inl ⟨src, answer, by simp⟩
  failed _ h := by cases h

section Rules

variable [AsyncStream S] [Socks5Server S E] {io : S} {talk : Talk S T}
  {good : Talk S T → Prop}

open Program

-- Asking the own stream changes nothing that was said.
theorem wp_ask_run {q : Ask} {post : Except (HandlerError E) (q.Reply S E) → S → Talk S T → Prop}
    (hgood : good talk) (h : ∀ reply after, q.Does io reply after → post (.ok reply) after talk) :
    wp Ask.Does good post (ask q : Handler S E T (q.Reply S E)).run io talk :=
  wp_run_lift (wp_ask hgood fun reply after hdoes => ⟨hgood, h reply after hdoes⟩)

theorem wp_proxy {target : TargetAddr} {src : Handler S E T S} {refused : Handler S E T Unit}
    (htarget : asks target) (hasks : ∀ t, asks t → t = target)
    (hsrc : ∀ talk, Dialogue asks owns talk → wp Ask.Does (Dialogue asks owns)
      (fun result _ now => now = talk ∧
        ((∃ src, result = .ok src ∧ owns target src) ∨ socks ∧ ∃ e, result = .error (.Socks e)))
      src.run io talk)
    (hrefused : ∀ talk, Dialogue asks owns talk → wp Ask.Does (Dialogue asks owns)
      (fun result _ now => now = talk ∧ ∀ e, result = .error (.Socks e) → socks)
      refused.run io talk) :
    wp Ask.Does (Dialogue asks owns) (fun result _ talk => Concluded asks socks result talk)
      (proxy target src refused).run io [] := by
  refine wp_run_bind (wp_run_lift (wp_request .silent (.connecting htarget) fun answer => ?_))
  have hanswered : Dialogue (T := T) asks owns
      [.call (.Connect target), .answer (.Connect target) answer] := .answered htarget
  refine ⟨hanswered, hanswered, ?_⟩
  rcases answer with e | dst | _
  · refine wp_mono (hrefused _ hanswered) ?_
    rintro result _ _ ⟨rfl, hsocks⟩
    exact concluded_answered hasks (.inl fun dst => by simp) hsocks
  · refine wp_run_bind (wp_mono (hsrc _ hanswered) ?_)
    rintro result after talk ⟨rfl, ⟨src, rfl, howns⟩ | ⟨hsocks, e, rfl⟩⟩
    · refine wp_run_bind (wp_run_lift (wp_request hanswered (.tunnelling htarget howns)
        fun answer => ?_))
      have htunnelled : Dialogue asks owns [.call (.Connect target),
        .answer (.Connect target) (.ok (.Connected dst)), .call (.Tunnel src dst),
        .answer (.Tunnel src dst) answer] := .tunnelled htarget howns
      refine ⟨htunnelled, htunnelled, ?_⟩
      rcases answer with e | _ | _
      · exact ⟨htunnelled, concluded_tunnelled hasks src dst _⟩
      · exact ⟨htunnelled, concluded_tunnelled hasks src dst _⟩
      · exact ⟨htunnelled, concluded_tunnelled hasks src dst _⟩
    · exact ⟨hanswered, concluded_answered hasks (.inr ⟨e, rfl⟩) fun _ _ => hsocks⟩
  · exact ⟨hanswered, concluded_answered hasks (.inl fun dst => by simp) fun e h => by cases h⟩

end Rules

end Handler

end AlphaRay
