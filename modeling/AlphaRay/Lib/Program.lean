import AlphaRay.Lib.Run

namespace AlphaRay.Lib

-- A program that asks for what it needs and goes on with the answers. It asks what is its
-- own, and calls what it shares with others.
inductive Program (Own : Type) (Reply : Own → Type) (Req Resp α : Type) where
  | done (a : α)
  | own (q : Own) (next : Reply q → Program Own Reply Req Resp α)
  | call (req : Req) (next : Resp → Program Own Reply Req Resp α)

-- What is heard of a program from outside.
inductive Said (Req Resp : Type) where
  | call (req : Req)
  | answer (req : Req) (resp : Resp)

namespace Program

variable {σ Own : Type} {Reply : Own → Type} {Req Resp α β : Type}

def bind : Program Own Reply Req Resp α → (α → Program Own Reply Req Resp β) →
    Program Own Reply Req Resp β
  | done a, f => f a
  | own q next, f => own q fun r => (next r).bind f
  | call req next, f => call req fun resp => (next resp).bind f

instance : Monad (Program Own Reply Req Resp) where
  pure := done
  bind := bind

-- One question, and one call.
def ask (q : Own) : Program Own Reply Req Resp (Reply q) := own q done

def request (req : Req) : Program Own Reply Req Resp Resp := call req done

section Rules

-- `does q s r s'`: in the state `s` the question may be answered by `r`, and leave `s'`.
variable (does : (q : Own) → σ → Reply q → σ → Prop)

-- In every state on the way what was said is good, and at the end the postcondition holds.
def wp (good : List (Said Req Resp) → Prop) (post : α → σ → List (Said Req Resp) → Prop) :
    Program Own Reply Req Resp α → σ → List (Said Req Resp) → Prop
  | done a, s, talk => good talk ∧ post a s talk
  | own q next, s, talk => good talk ∧ ∀ r s', does q s r s' → wp good post (next r) s' talk
  | call req next, s, talk => good talk ∧ good (talk ++ [.call req]) ∧
      ∀ resp, wp good post (next resp) s (talk ++ [.call req, .answer req resp])

variable {does} {good : List (Said Req Resp) → Prop}
  {post : α → σ → List (Said Req Resp) → Prop} {s : σ} {talk : List (Said Req Resp)}

theorem good_of_wp {t : Program Own Reply Req Resp α} (h : wp does good post t s talk) :
    good talk := by
  cases t with
  | done a => exact h.1
  | own q next => exact h.1
  | call req next => exact h.1

theorem wp_bind {t : Program Own Reply Req Resp α} {f : α → Program Own Reply Req Resp β}
    {post : β → σ → List (Said Req Resp) → Prop}
    (h : wp does good (fun a => wp does good post (f a)) t s talk) :
    wp does good post (t >>= f) s talk := by
  induction t generalizing s talk with
  | done a => exact h.2
  | own q next ih => exact ⟨h.1, fun r s' hdoes => ih r (h.2 r s' hdoes)⟩
  | call req next ih => exact ⟨h.1, h.2.1, fun resp => ih resp (h.2.2 resp)⟩

theorem wp_ask {q : Own} {post : Reply q → σ → List (Said Req Resp) → Prop} (hgood : good talk)
    (h : ∀ r s', does q s r s' → post r s' talk) : wp does good post (ask q) s talk :=
  ⟨hgood, fun r s' hdoes => ⟨hgood, h r s' hdoes⟩⟩

theorem wp_request {req : Req} {post : Resp → σ → List (Said Req Resp) → Prop}
    (hgood : good talk) (hcall : good (talk ++ [.call req]))
    (h : ∀ resp, good (talk ++ [.call req, .answer req resp]) ∧
      post resp s (talk ++ [.call req, .answer req resp])) :
    wp does good post (request req) s talk :=
  ⟨hgood, hcall, h⟩

theorem wp_mono {t : Program Own Reply Req Resp α} {post' : α → σ → List (Said Req Resp) → Prop}
    (h : wp does good post t s talk) (himp : ∀ a s talk, post a s talk → post' a s talk) :
    wp does good post' t s talk := by
  induction t generalizing s talk with
  | done a => exact ⟨h.1, himp a s talk h.2⟩
  | own q next ih => exact ⟨h.1, fun r s' hdoes => ih r (h.2 r s' hdoes)⟩
  | call req next ih => exact ⟨h.1, h.2.1, fun resp => ih resp (h.2.2 resp)⟩

section Failing

variable {ε : Type}

-- A postcondition for each way a program that may fail ends.
def ends (ok : α → σ → List (Said Req Resp) → Prop) (err : ε → σ → List (Said Req Resp) → Prop) :
    Except ε α → σ → List (Said Req Resp) → Prop
  | .ok a => ok a
  | .error e => err e

theorem wp_run_bind {t : ExceptT ε (Program Own Reply Req Resp) α}
    {f : α → ExceptT ε (Program Own Reply Req Resp) β}
    {post : Except ε β → σ → List (Said Req Resp) → Prop}
    (h : wp does good (ends (fun a => wp does good post (f a).run)
      (fun e s talk => good talk ∧ post (.error e) s talk)) t.run s talk) :
    wp does good post (t >>= f).run s talk := by
  refine wp_bind (wp_mono h fun r s talk hr => ?_)
  cases r with
  | ok a => exact hr
  | error e => exact hr

theorem wp_run_lift {t : Program Own Reply Req Resp α}
    {post : Except ε α → σ → List (Said Req Resp) → Prop}
    (h : wp does good (fun a s talk => good talk ∧ post (.ok a) s talk) t s talk) :
    wp does good post (ExceptT.lift t).run s talk :=
  wp_bind h

end Failing

-- A complete run with what was said in it.
inductive Plays (does : (q : Own) → σ → Reply q → σ → Prop) :
    Program Own Reply Req Resp α → σ → List (Said Req Resp) → α → σ → Prop
  | done {a : α} {s : σ} : Plays does (.done a) s [] a s
  | own {q : Own} {next : Reply q → Program Own Reply Req Resp α} {r : Reply q} {s mid after : σ}
      {talk : List (Said Req Resp)} {a : α} (hdoes : does q s r mid)
      (hrest : Plays does (next r) mid talk a after) : Plays does (.own q next) s talk a after
  | call {req : Req} {next : Resp → Program Own Reply Req Resp α} {resp : Resp} {s after : σ}
      {talk : List (Said Req Resp)} {a : α} (hrest : Plays does (next resp) s talk a after) :
      Plays does (.call req next) s (.call req :: .answer req resp :: talk) a after

theorem Plays.of_bind {t : Program Own Reply Req Resp α} {f : α → Program Own Reply Req Resp β}
    {after : σ} {b : β} (h : Plays does (t >>= f) s talk b after) :
    ∃ a mid before later, Plays does t s before a mid ∧ Plays does (f a) mid later b after ∧
      talk = before ++ later := by
  induction t generalizing s talk with
  | done a => exact ⟨a, s, [], talk, .done, h, rfl⟩
  | own q next ih =>
      cases h with
      | own hdoes hrest =>
          obtain ⟨a, mid, before, later, hfirst, hlast, rfl⟩ := ih _ hrest
          exact ⟨a, mid, before, later, .own hdoes hfirst, hlast, rfl⟩
  | call req next ih =>
      cases h with
      | call hrest =>
          obtain ⟨a, mid, before, later, hfirst, hlast, rfl⟩ := ih _ hrest
          exact ⟨a, mid, _, later, .call hfirst, hlast, rfl⟩

section Inversion

variable {ε : Type} {after : σ}

theorem Plays.of_pure {a : α} {r : Except ε α}
    (h : Plays does (pure a : ExceptT ε (Program Own Reply Req Resp) α).run s talk r after) :
    r = .ok a ∧ talk = [] ∧ after = s := by
  cases h
  exact ⟨rfl, rfl, rfl⟩

theorem Plays.of_throw {e : ε} {r : Except ε α}
    (h : Plays does (throw e : ExceptT ε (Program Own Reply Req Resp) α).run s talk r after) :
    r = .error e ∧ talk = [] ∧ after = s := by
  cases h
  exact ⟨rfl, rfl, rfl⟩

theorem Plays.of_ask {q : Own} {r : Except ε (Reply q)}
    (h : Plays does (ExceptT.lift (ask q) : ExceptT ε (Program Own Reply Req Resp) _).run s talk r
      after) : ∃ reply, r = .ok reply ∧ talk = [] ∧ does q s reply after := by
  cases h with
  | own hdoes hrest =>
      cases hrest
      exact ⟨_, rfl, rfl, hdoes⟩

theorem Plays.of_request {req : Req} {r : Except ε Resp}
    (h : Plays does (ExceptT.lift (request req) : ExceptT ε (Program Own Reply Req Resp) _).run s
      talk r after) : ∃ resp, r = .ok resp ∧ talk = [.call req, .answer req resp] ∧ after = s := by
  cases h with
  | call hrest =>
      cases hrest
      exact ⟨_, rfl, rfl, rfl⟩

theorem Plays.of_run_bind {t : ExceptT ε (Program Own Reply Req Resp) α}
    {f : α → ExceptT ε (Program Own Reply Req Resp) β} {r : Except ε β}
    (h : Plays does (t >>= f).run s talk r after) :
    (∃ a mid before later, Plays does t.run s before (.ok a) mid ∧
        Plays does (f a).run mid later r after ∧ talk = before ++ later) ∨
      ∃ e, r = .error e ∧ Plays does t.run s talk (.error e) after := by
  obtain ⟨first, mid, before, later, hfirst, hrest, rfl⟩ := Plays.of_bind h
  cases first with
  | ok a => exact .inl ⟨a, mid, before, later, hfirst, hrest, rfl⟩
  | error e =>
      cases hrest
      rw [List.append_nil]
      exact .inr ⟨e, rfl, hfirst⟩

end Inversion

-- The strongest specification of a program: it makes a complete run.
theorem wp_plays (t : Program Own Reply Req Resp α) (s : σ) (talk : List (Said Req Resp)) :
    wp does (fun _ => True) (fun a after all => ∃ later, all = talk ++ later ∧
      Plays does t s later a after) t s talk := by
  have hall : ∀ (t : Program Own Reply Req Resp α) (s : σ) (said : List (Said Req Resp))
      (post : α → σ → List (Said Req Resp) → Prop),
      (∀ a after later, Plays does t s later a after → post a after (said ++ later)) →
      wp does (fun _ => True) post t s said := by
    intro t
    induction t with
    | done a =>
        intro s said post hpost
        exact ⟨trivial, by simpa using hpost a s [] .done⟩
    | own q next ih =>
        intro s said post hpost
        exact ⟨trivial, fun r mid hdoes => ih r mid said post fun a after later hplays =>
          hpost a after later (.own hdoes hplays)⟩
    | call req next ih =>
        intro s said post hpost
        refine ⟨trivial, trivial, fun resp => ih resp s _ post fun a after later hplays => ?_⟩
        rw [List.append_assoc]
        exact hpost a after _ (.call hplays)
  exact hall t s talk _ fun a after later hplays => ⟨later, rfl, hplays⟩

end Rules

end Program

end AlphaRay.Lib
