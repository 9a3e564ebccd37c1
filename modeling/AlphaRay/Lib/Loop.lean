import Mathlib.Data.Nat.Basic

namespace AlphaRay.Lib

-- One pass through the body of a loop: either another pass, or the loop is left.
inductive Pass (σ ρ : Type) where
  | again (state : σ)
  | leave (result : ρ)

variable {σ ρ : Type}

-- `none` says that the loop has not ended after `fuel` passes. A body that
-- contains loops of its own answers `none` when one of them has not ended.
def loop (body : σ → Option (Pass σ ρ)) : Nat → σ → Option ρ
  | 0, _ => none
  | fuel + 1, state =>
      match body state with
      | none => none
      | some (.again next) => loop body fuel next
      | some (.leave result) => some result

-- Partial correctness: an invariant of the passes that continue gives the
-- postcondition of the pass that leaves.
theorem loop_rule {body : σ → Option (Pass σ ρ)} (inv : σ → Prop) (post : ρ → Prop)
    (hagain : ∀ state next, inv state → body state = some (.again next) → inv next)
    (hleave : ∀ state result, inv state → body state = some (.leave result) → post result)
    {fuel : Nat} {state : σ} {result : ρ} (hinv : inv state)
    (h : loop body fuel state = some result) : post result := by
  induction fuel generalizing state with
  | zero => simp [loop] at h
  | succ fuel ih =>
      simp only [loop] at h
      split at h
      · cases h
      · rename_i next hbody
        exact ih (hagain state next hinv hbody) h
      · rename_i hbody
        cases h
        exact hleave state result hinv hbody

-- Divergence: no pass from the invariant leaves the loop.
theorem loop_diverges {body : σ → Option (Pass σ ρ)} (inv : σ → Prop)
    (hbody : ∀ state, inv state →
      body state = none ∨ ∃ next, body state = some (.again next) ∧ inv next)
    {fuel : Nat} {state : σ} (hinv : inv state) : loop body fuel state = none := by
  induction fuel generalizing state with
  | zero => rfl
  | succ fuel ih =>
      rcases hbody state hinv with hnone | ⟨next, hagain, hnext⟩
      · simp only [loop, hnone]
      · simp only [loop, hagain]
        exact ih hnext

-- A run that has ended is not changed by more fuel, in the loop or in its body.
theorem loop_mono {body other : σ → Option (Pass σ ρ)}
    (hbody : ∀ state flow, body state = some flow → other state = some flow)
    {fuel more : Nat} (hle : fuel ≤ more) {state : σ} {result : ρ}
    (h : loop body fuel state = some result) : loop other more state = some result := by
  induction fuel generalizing more state with
  | zero => simp [loop] at h
  | succ fuel ih =>
      obtain ⟨more, rfl⟩ : ∃ m, more = m + 1 := ⟨more - 1, by omega⟩
      simp only [loop] at h ⊢
      split at h
      · cases h
      · rename_i next hstep
        simp only [hbody _ _ hstep]
        exact ih (by omega) h
      · rename_i hstep
        simp only [hbody _ _ hstep]
        exact h

-- Total correctness: a measure that decreases with every pass bounds the fuel.
theorem loop_ends {body : σ → Option (Pass σ ρ)} (inv : σ → Prop) (post : ρ → Prop)
    (measure : σ → Nat)
    (hbody : ∀ state, inv state →
      (∃ next, body state = some (.again next) ∧ inv next ∧ measure next < measure state) ∨
      ∃ result, body state = some (.leave result) ∧ post result)
    {fuel : Nat} {state : σ} (hinv : inv state) (hfuel : measure state < fuel) :
    ∃ result, loop body fuel state = some result ∧ post result := by
  induction fuel generalizing state with
  | zero => omega
  | succ fuel ih =>
      rcases hbody state hinv with ⟨next, hstep, hi, hm⟩ | ⟨result, hstep, hpost⟩
      · simp only [loop, hstep]
        exact ih hi (by omega)
      · exact ⟨result, by simp only [loop, hstep], hpost⟩

end AlphaRay.Lib
