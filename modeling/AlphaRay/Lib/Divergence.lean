import AlphaRay.Lib.Async

namespace AlphaRay.Lib.Async

variable {σ ε ε' α β : Type}

-- A computation that has ended is not changed by more fuel.
def Mono (m : Async σ ε α) : Prop :=
  ∀ fuel more state outcome, fuel ≤ more → m.run fuel state = some outcome →
    m.run more state = some outcome

theorem Mono.pure (a : α) : Mono (Pure.pure a : Async σ ε α) := fun _ _ _ _ _ h => h

theorem Mono.throw (e : ε) : Mono (MonadExcept.throw e : Async σ ε α) := fun _ _ _ _ _ h => h

theorem Mono.act (f : σ → α × σ) : Mono (Async.act f : Async σ ε α) := fun _ _ _ _ _ h => h

theorem Mono.bind {m : Async σ ε α} {f : α → Async σ ε β} (h : Mono m) (h' : ∀ a, Mono (f a)) :
    Mono (m >>= f) := by
  intro fuel more state outcome hle hrun
  rw [run_bind] at hrun ⊢
  split at hrun
  · cases hrun
  · rename_i hm
    rw [h fuel more state _ hle hm]
    exact hrun
  · rename_i a mid hm
    rw [h fuel more state _ hle hm]
    exact h' a fuel more mid outcome hle hrun

theorem Mono.attempt {m : Async σ ε α} (h : Mono m) :
    Mono (Async.attempt m : Async σ ε' (Except ε α)) := by
  intro fuel more state outcome hle hrun
  rw [Async.attempt, run_of, Option.map_eq_some_iff] at hrun ⊢
  obtain ⟨result, hm, heq⟩ := hrun
  exact ⟨result, h fuel more state result hle hm, heq⟩

theorem Mono.with_var {τ : Type} {init : τ} {m : Async (σ × τ) ε α} (h : Mono m) :
    Mono (Async.with_var init m) := by
  intro fuel more state outcome hle hrun
  rw [Async.with_var, run_of, Option.map_eq_some_iff] at hrun ⊢
  obtain ⟨result, hm, heq⟩ := hrun
  exact ⟨result, h fuel more (state, init) result hle hm, heq⟩

theorem Mono.repeat_until {body : β → Async σ ε (Pass β α)} (h : ∀ b, Mono (body b)) (b : β) :
    Mono (Async.repeat_until body b) := by
  intro fuel more state outcome hle hrun
  rw [Async.repeat_until, run_of] at hrun ⊢
  refine loop_mono ?_ hle hrun
  intro now pass hbody
  obtain ⟨b, state⟩ := now
  dsimp only at hbody ⊢
  split at hbody
  · cases hbody
  all_goals
    rename_i hm
    rw [h b fuel more state _ hle hm]
    exact hbody

-- The fuel with which it ended does not matter.
theorem Mono.returns {m : Async σ ε α} (h : Mono m) {fuel : Nat} {state after : σ}
    {result : Except ε α} (hrun : m.run fuel state = some (result, after)) :
    m.Returns state result after :=
  ⟨fuel, fun more hle => h fuel more state _ hle hrun⟩

theorem Mono.run_cases {m : Async σ ε α} (h : Mono m) {state after : σ} {result : Except ε α}
    (hreturns : m.Returns state result after) (fuel : Nat) :
    m.run fuel state = none ∨ m.run fuel state = some (result, after) := by
  rcases hrun : m.run fuel state with _ | ⟨result', after'⟩
  · exact .inl rfl
  · obtain ⟨rfl, rfl⟩ := hreturns.unique (h.returns hrun)
    exact .inr rfl

-- A computation that goes on forever.
def Diverges (m : Async σ ε α) (state : σ) : Prop := ∀ fuel, m.run fuel state = none

theorem Diverges.not_returns {m : Async σ ε α} {state after : σ} {result : Except ε α}
    (h : Diverges m state) : ¬ m.Returns state result after := by
  intro hreturns
  obtain ⟨bound, hrun⟩ := hreturns
  have hsome := hrun bound (Nat.le_refl _)
  rw [h bound] at hsome
  cases hsome

theorem Diverges.bind {m : Async σ ε α} {state : σ} (h : Diverges m state)
    (f : α → Async σ ε β) : Diverges (m >>= f) state := by
  intro fuel
  rw [run_bind, h fuel]

theorem Diverges.of_bind {m : Async σ ε α} {f : α → Async σ ε β} {state mid : σ} {a : α}
    (hmono : Mono m) (hreturns : m.Returns state (.ok a) mid) (h : Diverges (f a) mid) :
    Diverges (m >>= f) state := by
  intro fuel
  rw [run_bind]
  rcases hmono.run_cases hreturns fuel with hnone | hsome
  · rw [hnone]
  · rw [hsome]
    exact h fuel

-- A loop whose rounds keep to states in which they go on.
theorem Diverges.repeat_until {body : β → Async σ ε (Pass β α)} (inv : β → σ → Prop)
    (hmono : ∀ b, Mono (body b))
    (hagain : ∀ b state, inv b state → ∃ next after,
      (body b).Returns state (.ok (.again next)) after ∧ inv next after)
    (b : β) (state : σ) (hinv : inv b state) : Diverges (Async.repeat_until body b) state := by
  intro fuel
  rw [Async.repeat_until, run_of]
  refine loop_diverges (fun now : β × σ => inv now.1 now.2) ?_ hinv
  intro now hnow
  obtain ⟨b, state⟩ := now
  obtain ⟨next, after, hround, hnext⟩ := hagain b state hnow
  dsimp only
  rcases (hmono b).run_cases hround fuel with hnone | hsome
  · rw [hnone]
    exact .inl rfl
  · rw [hsome]
    exact .inr ⟨(next, after), rfl, hnext⟩

end AlphaRay.Lib.Async
