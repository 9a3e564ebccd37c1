import Mathlib.Data.List.Basic
import Mathlib.Data.List.Infix

namespace AlphaRay.Lib

-- A reader of text that fails, or leaves the end of what it was given.
structure Scanner (α : Type) where
  run : List Char → Option (α × List Char)
  suffix : ∀ {text rest a}, run text = some (a, rest) → rest <:+ text

namespace Scanner

variable {α β δ σ : Type}

protected def pure (a : α) : Scanner α where
  run text := some (a, text)
  suffix h := by
    cases h
    exact List.suffix_rfl

protected def bind (p : Scanner α) (f : α → Scanner β) : Scanner β where
  run text := (p.run text).bind fun read => (f read.1).run read.2
  suffix h := by
    obtain ⟨⟨a, mid⟩, hp, hf⟩ := Option.bind_eq_some_iff.mp h
    exact ((f a).suffix hf).trans (p.suffix hp)

instance : Monad Scanner where
  pure := Scanner.pure
  bind := Scanner.bind

def fail : Scanner α where
  run _ := none
  suffix h := by cases h

-- A failure is a result, and nothing is read then.
def optional (p : Scanner α) : Scanner (Option α) where
  run text := some (match p.run text with
    | some (a, rest) => (some a, rest)
    | none => (none, text))
  suffix {text _ _} h := by
    rcases hp : p.run text with _ | ⟨a, mid⟩ <;> rw [hp] at h <;> cases h
    · exact List.suffix_rfl
    · exact p.suffix hp

def or_else (p q : Scanner α) : Scanner α where
  run text := (p.run text).or (q.run text)
  suffix {text _ _} h := by
    rcases hp : p.run text with _ | read <;> rw [hp] at h
    · exact q.suffix h
    · exact p.suffix (hp.trans h)

def given (target : Char) : Scanner Unit where
  run
    | c :: rest => if c = target then some ((), rest) else none
    | [] => none
  suffix {text _ _} h := by
    cases text with
    | nil => cases h
    | cons c text =>
        dsimp only at h
        split_ifs at h
        cases h
        exact List.suffix_cons c _

-- Whether the character comes next. It is not read.
def next_is (target : Char) : Scanner Bool where
  run text := some (text.head? == some target, text)
  suffix h := by
    cases h
    exact List.suffix_rfl

-- A state that is carried along the symbols that stand in front.
def fold_symbols (symbol : Char → Option δ) (step : σ → δ → Option σ) :
    σ → List Char → Option (σ × List Char)
  | st, [] => some (st, [])
  | st, c :: rest =>
      match symbol c with
      | some d => (step st d).bind fun st => fold_symbols symbol step st rest
      | none => some (st, c :: rest)

theorem suffix_of_fold_symbols {symbol : Char → Option δ} {step : σ → δ → Option σ} {st last : σ}
    {text rest : List Char} (h : fold_symbols symbol step st text = some (last, rest)) :
    rest <:+ text := by
  induction text generalizing st with
  | nil =>
      cases h
      exact List.suffix_rfl
  | cons c text ih =>
      rw [fold_symbols] at h
      cases hc : symbol c with
      | none =>
          rw [hc] at h
          cases h
          exact List.suffix_rfl
      | some d =>
          rw [hc] at h
          obtain ⟨mid, -, hrest⟩ := Option.bind_eq_some_iff.mp h
          exact (ih hrest).trans (List.suffix_cons c text)

def symbols (symbol : Char → Option δ) (step : σ → δ → Option σ) (st : σ) : Scanner σ where
  run := fold_symbols symbol step st
  suffix := suffix_of_fold_symbols

-- A text that is read to its end.
def parse_with (p : Scanner α) (text : List Char) : Option α :=
  match p.run text with
  | some (a, []) => some a
  | _ => none

theorem parse_with_eq_some {p : Scanner α} {text : List Char} {a : α} :
    p.parse_with text = some a ↔ p.run text = some (a, []) := by
  unfold parse_with
  rcases p.run text with _ | ⟨b, _ | ⟨c, rest⟩⟩ <;> simp

@[simp] theorem run_pure (a : α) (text : List Char) :
    (Pure.pure a : Scanner α).run text = some (a, text) := rfl

theorem run_bind (p : Scanner α) (f : α → Scanner β) (text : List Char) :
    (p >>= f).run text = (p.run text).bind fun read => (f read.1).run read.2 := rfl

theorem run_bind_some {p : Scanner α} {text rest : List Char} {a : α}
    (h : p.run text = some (a, rest)) (f : α → Scanner β) :
    (p >>= f).run text = (f a).run rest := by
  rw [run_bind, h, Option.bind_some]

theorem run_bind_none {p : Scanner α} {text : List Char} (h : p.run text = none)
    (f : α → Scanner β) : (p >>= f).run text = none := by
  rw [run_bind, h, Option.bind_none]

theorem of_run_bind {p : Scanner α} {f : α → Scanner β} {text rest : List Char} {b : β}
    (h : (p >>= f).run text = some (b, rest)) :
    ∃ a mid, p.run text = some (a, mid) ∧ (f a).run mid = some (b, rest) := by
  obtain ⟨⟨a, mid⟩, hp, hf⟩ := Option.bind_eq_some_iff.mp h
  exact ⟨a, mid, hp, hf⟩

theorem run_optional_some {p : Scanner α} {text rest : List Char} {a : α}
    (h : p.run text = some (a, rest)) : p.optional.run text = some (some a, rest) := by
  simp only [optional, h]

theorem run_optional_none {p : Scanner α} {text : List Char} (h : p.run text = none) :
    p.optional.run text = some (none, text) := by
  simp only [optional, h]

theorem of_run_optional {p : Scanner α} {text rest : List Char} {read : Option α}
    (h : p.optional.run text = some (read, rest)) :
    (∃ a, read = some a ∧ p.run text = some (a, rest)) ∨ read = none ∧ rest = text := by
  cases hp : p.run text with
  | none =>
      rw [run_optional_none hp] at h
      cases h
      exact .inr ⟨rfl, rfl⟩
  | some last =>
      obtain ⟨a, mid⟩ := last
      rw [run_optional_some hp] at h
      cases h
      exact .inl ⟨a, rfl, rfl⟩

@[simp] theorem run_given (target : Char) (rest : List Char) :
    (given target).run (target :: rest) = some ((), rest) :=
  if_pos rfl

theorem run_given_of_ne {target c : Char} (h : c ≠ target) (rest : List Char) :
    (given target).run (c :: rest) = none :=
  if_neg h

theorem of_run_given {target : Char} {text rest : List Char} {u : Unit}
    (h : (given target).run text = some (u, rest)) : text = target :: rest := by
  cases text with
  | nil => cases h
  | cons c text =>
      simp only [given] at h
      split_ifs at h with hc
      cases h
      rw [hc]

-- The symbols in front of a text whose rest does not go on with one.
theorem fold_symbols_append {symbol : Char → Option δ} {step : σ → δ → Option σ} {st : σ}
    {front rest : List Char} (hfront : ∀ c ∈ front, symbol c ≠ none)
    (hrest : ∀ c ∈ rest.head?, symbol c = none) :
    fold_symbols symbol step st (front ++ rest) =
      (front.foldlM (fun st c => (symbol c).bind (step st)) st).map fun last => (last, rest) := by
  induction front generalizing st with
  | nil =>
      cases rest with
      | nil => rfl
      | cons c rest =>
          have hc : symbol c = none := hrest c rfl
          simp only [List.nil_append, fold_symbols, hc, List.foldlM_nil]
          rfl
  | cons c front ih =>
      obtain ⟨d, hd⟩ := Option.ne_none_iff_exists'.mp (hfront c List.mem_cons_self)
      simp only [List.cons_append, fold_symbols, hd, List.foldlM_cons, Option.bind_some]
      cases step st d with
      | none => rfl
      | some next => exact ih fun c hc => hfront c (List.mem_cons_of_mem _ hc)

-- What is read is symbols, and the rest does not go on with one.
theorem of_fold_symbols {symbol : Char → Option δ} {step : σ → δ → Option σ} {st last : σ}
    {text rest : List Char} (h : fold_symbols symbol step st text = some (last, rest)) :
    ∃ front, text = front ++ rest ∧ (∀ c ∈ front, symbol c ≠ none) ∧
      ∀ c ∈ rest.head?, symbol c = none := by
  induction text generalizing st with
  | nil =>
      cases h
      exact ⟨[], rfl, by simp, by simp⟩
  | cons c text ih =>
      rw [fold_symbols] at h
      cases hc : symbol c with
      | none =>
          rw [hc] at h
          cases h
          exact ⟨[], rfl, by simp, by simpa using hc⟩
      | some d =>
          rw [hc] at h
          obtain ⟨mid, -, hrest⟩ := Option.bind_eq_some_iff.mp h
          obtain ⟨front, rfl, hfront, hstop⟩ := ih hrest
          refine ⟨c :: front, rfl, ?_, hstop⟩
          simp only [List.forall_mem_cons]
          exact ⟨by rw [hc]; simp, hfront⟩

theorem count_le {p : Scanner α} {text rest : List Char} {a : α} (h : p.run text = some (a, rest))
    (c : Char) : rest.count c ≤ text.count c :=
  (p.suffix h).sublist.count_le c

-- To the scanner, the character is as good as the end of the text.
def EndsAt (c : Char) (p : Scanner α) : Prop :=
  ∀ before after, p.run (before ++ c :: after) =
    (p.run before).map (Prod.map id (· ++ c :: after))

namespace EndsAt

variable {c : Char} {p : Scanner α}

theorem run_append (h : EndsAt c p) {before rest : List Char} {a : α}
    (hp : p.run before = some (a, rest)) (after : List Char) :
    p.run (before ++ c :: after) = some (a, rest ++ c :: after) := by
  rw [h, hp]
  rfl

theorem run_append_none (h : EndsAt c p) {before : List Char} (hp : p.run before = none)
    (after : List Char) : p.run (before ++ c :: after) = none := by
  rw [h, hp]
  rfl

theorem of_run_append (h : EndsAt c p) {before after rest : List Char} {a : α}
    (hp : p.run (before ++ c :: after) = some (a, rest)) :
    ∃ mid, p.run before = some (a, mid) ∧ rest = mid ++ c :: after := by
  rw [h] at hp
  obtain ⟨⟨b, mid⟩, hmid, hmap⟩ := Option.map_eq_some_iff.mp hp
  cases hmap
  exact ⟨mid, hmid, rfl⟩

protected theorem pure (a : α) : EndsAt c (Pure.pure a) := fun _ _ => rfl

theorem fail : EndsAt c (fail : Scanner α) := fun _ _ => rfl

protected theorem bind {f : α → Scanner β} (hp : EndsAt c p) (hf : ∀ a, EndsAt c (f a)) :
    EndsAt c (p >>= f) := by
  intro before after
  rw [run_bind, run_bind, hp]
  rcases p.run before with _ | ⟨a, rest⟩
  · rfl
  · exact hf a rest after

theorem optional (hp : EndsAt c p) : EndsAt c p.optional := by
  intro before after
  rcases hread : p.run before with _ | ⟨a, rest⟩
  · rw [run_optional_none hread, run_optional_none (hp.run_append_none hread after)]
    rfl
  · rw [run_optional_some hread, run_optional_some (hp.run_append hread after)]
    rfl

theorem given {target : Char} (hc : c ≠ target) : EndsAt c (given target) := by
  intro before after
  cases before with
  | nil => exact run_given_of_ne hc after
  | cons b before =>
      by_cases hb : b = target
      · subst hb
        simp
      · rw [List.cons_append, run_given_of_ne hb, run_given_of_ne hb]
        rfl

theorem next_is {target : Char} (hc : c ≠ target) : EndsAt c (next_is target) := by
  intro before after
  cases before with
  | nil => simp [Scanner.next_is, hc]
  | cons b before => rfl

theorem symbols {symbol : Char → Option δ} {step : σ → δ → Option σ} (hc : symbol c = none)
    (st : σ) : EndsAt c (symbols symbol step st) := by
  intro before after
  simp only [Scanner.symbols]
  induction before generalizing st with
  | nil => simp [fold_symbols, hc]
  | cons b before ih =>
      rw [List.cons_append, fold_symbols, fold_symbols]
      cases symbol b with
      | none => rfl
      | some d =>
          dsimp only
          cases step st d with
          | none => rfl
          | some next => exact ih next

end EndsAt

end Scanner

end AlphaRay.Lib
