import Mathlib.Data.List.Basic

namespace AlphaRay.Lib

structure Transition (σ ℓ : Type) where
  before : σ
  label : ℓ
  after : σ

variable {σ ℓ : Type}

-- A run is recorded with every transition it made, so that a property of one
-- call can mention what the calls before it were told.
inductive Run (step : σ → ℓ → σ → Prop) (start : σ) : List (Transition σ ℓ) → σ → Prop
  | nil : Run step start [] start
  | snoc {past : List (Transition σ ℓ)} {last : Transition σ ℓ} :
      Run step start past last.before → step last.before last.label last.after →
      Run step start (past ++ [last]) last.after

theorem Run.next {step : σ → ℓ → σ → Prop} {start state after : σ}
    {past : List (Transition σ ℓ)} {label : ℓ} (hrun : Run step start past state)
    (hlast : step state label after) :
    Run step start (past ++ [⟨state, label, after⟩]) after :=
  @Run.snoc σ ℓ step start past ⟨state, label, after⟩ hrun hlast

theorem Run.append {step : σ → ℓ → σ → Prop} {start mid state : σ}
    {past more : List (Transition σ ℓ)} (hrun : Run step start past mid)
    (hmore : Run step mid more state) : Run step start (past ++ more) state := by
  induction hmore with
  | nil =>
      rw [List.append_nil]
      exact hrun
  | snoc _ hlast ih =>
      rw [← List.append_assoc]
      exact .snoc ih hlast

-- A function of the states that keeps the steps keeps the runs.
theorem Run.map {τ : Type} {step : σ → ℓ → σ → Prop} {step' : τ → ℓ → τ → Prop} {start state : σ}
    {past : List (Transition σ ℓ)} (f : σ → τ)
    (hstep : ∀ before label after, step before label after → step' (f before) label (f after))
    (hrun : Run step start past state) :
    ∃ past', Run step' (f start) past' (f state) ∧ past'.map (·.label) = past.map (·.label) := by
  induction hrun with
  | nil => exact ⟨[], .nil, rfl⟩
  | @snoc past last _ hlast ih =>
      obtain ⟨past', hrun', hlabels⟩ := ih
      refine ⟨_, hrun'.next (hstep _ _ _ hlast), ?_⟩
      rw [List.map_append, List.map_append, hlabels]
      rfl

-- A run is made of the run up to one of its transitions, that transition and the rest.
theorem Run.split {step : σ → ℓ → σ → Prop} {start state : σ} {before after : List (Transition σ ℓ)}
    {t : Transition σ ℓ} (hrun : Run step start (before ++ t :: after) state) :
    Run step start before t.before ∧ step t.before t.label t.after := by
  generalize hpast : before ++ t :: after = past at hrun
  induction hrun generalizing after with
  | nil =>
      have hnil := congrArg List.length hpast
      simp at hnil
  | @snoc past last hrun hlast ih =>
      rcases List.eq_nil_or_concat after with rfl | ⟨init, t', rfl⟩
      · obtain ⟨rfl, hlabel⟩ := List.append_inj' hpast rfl
        obtain rfl := List.singleton_inj.mp hlabel
        exact ⟨hrun, hlast⟩
      · rw [List.concat_eq_append, ← List.cons_append, ← List.append_assoc] at hpast
        exact ih (List.append_inj_left' hpast rfl)

-- An invariant over the transitions made and the state reached.
theorem Run.rule {step : σ → ℓ → σ → Prop} {start : σ}
    (inv : List (Transition σ ℓ) → σ → Prop) (hstart : inv [] start)
    (hstep : ∀ past last, Run step start past last.before → inv past last.before →
      step last.before last.label last.after → inv (past ++ [last]) last.after)
    {past : List (Transition σ ℓ)} {state : σ} (hrun : Run step start past state) :
    inv past state := by
  induction hrun with
  | nil => exact hstart
  | snoc hrun hlast ih => exact hstep _ _ hrun ih hlast

-- The same with a condition that every transition of the run meets.
theorem Run.rule_of_forall {step : σ → ℓ → σ → Prop} {start : σ}
    (cond : Transition σ ℓ → Prop) (inv : List (Transition σ ℓ) → σ → Prop)
    (hstart : inv [] start)
    (hstep : ∀ past last, Run step start past last.before → inv past last.before →
      step last.before last.label last.after → cond last → inv (past ++ [last]) last.after)
    {past : List (Transition σ ℓ)} {state : σ} (hrun : Run step start past state)
    (hcond : ∀ t ∈ past, cond t) : inv past state := by
  induction hrun with
  | nil => exact hstart
  | snoc hrun hlast ih =>
      exact hstep _ _ hrun (ih fun t ht => hcond t (by simp [ht])) hlast (hcond _ (by simp))

-- Every transition of a run starts in a state that a shorter run reaches.
theorem Run.forall_mem {step : σ → ℓ → σ → Prop} {start : σ} (prop : Transition σ ℓ → Prop)
    (hprop : ∀ past last, Run step start past last.before →
      step last.before last.label last.after → prop last)
    {past : List (Transition σ ℓ)} {state : σ} (hrun : Run step start past state) :
    ∀ t ∈ past, prop t := by
  induction hrun with
  | nil => simp
  | snoc hrun hlast ih =>
      intro t ht
      rcases List.mem_append.mp ht with ht | ht
      · exact ih t ht
      · obtain rfl := List.mem_singleton.mp ht
        exact hprop _ _ hrun hlast

end AlphaRay.Lib
