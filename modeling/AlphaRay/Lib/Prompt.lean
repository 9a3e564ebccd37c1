import AlphaRay.Lib.Divergence
import AlphaRay.Lib.Hoare

namespace AlphaRay.Lib.Async

variable {σ ε α β : Type}

-- A computation without waits and loops: it ends, however many turns it is given.
def Prompt (m : Async σ ε α) : Prop :=
  ∀ state, ∃ result after, ∀ fuel, m.run fuel state = some (result, after)

theorem Prompt.pure (a : α) : Prompt (Pure.pure a : Async σ ε α) :=
  fun state => ⟨_, state, fun _ => rfl⟩

theorem Prompt.throw (e : ε) : Prompt (MonadExcept.throw e : Async σ ε α) :=
  fun state => ⟨_, state, fun _ => rfl⟩

theorem Prompt.act (f : σ → α × σ) : Prompt (Async.act f : Async σ ε α) :=
  fun state => ⟨_, (f state).2, fun _ => rfl⟩

theorem Prompt.bind {m : Async σ ε α} {f : α → Async σ ε β} (h : Prompt m)
    (h' : ∀ a, Prompt (f a)) : Prompt (m >>= f) := by
  intro state
  obtain ⟨e | a, mid, hm⟩ := h state
  · exact ⟨.error e, mid, fun fuel => by rw [run_bind, hm]⟩
  · obtain ⟨result, after, hf⟩ := h' a mid
    exact ⟨result, after, fun fuel => by rw [run_bind, hm, ← hf fuel]⟩

theorem Prompt.mono {m : Async σ ε α} (h : Prompt m) : Mono m := by
  intro fuel more state outcome _ hrun
  obtain ⟨result, after, hm⟩ := h state
  rw [hm] at hrun ⊢
  exact hrun

-- A loop whose rounds are, with more turns than its rounds shorten something.
theorem Prompt.repeat_until {body : β → Async σ ε (Pass β α)} (h : ∀ b, Prompt (body b))
    (inv : σ → Prop) (length : σ → Nat)
    (hshorter : ∀ b k, Triple (fun state => inv state ∧ length state = k) (body b)
      (fun pass after => ∀ next, pass = .again next → inv after ∧ length after < k)
      fun _ _ => True)
    (b : β) {fuel : Nat} {state : σ} (hinv : inv state) (hfuel : length state < fuel) :
    ∃ outcome, (Async.repeat_until body b).run fuel state = some outcome := by
  suffices hends : ∃ outcome, (Async.repeat_until body b).run fuel state = some outcome ∧ True by
    obtain ⟨outcome, hends, -⟩ := hends
    exact ⟨outcome, hends⟩
  rw [Async.repeat_until, run_of]
  refine loop_ends (fun now : β × σ => inv now.2) (fun _ => True) (fun now => length now.2)
    ?_ hinv hfuel
  rintro ⟨b, state⟩ hstate
  obtain ⟨result, after, hrun⟩ := h b state
  have hpost := hshorter b (length state) fuel state result after ⟨hstate, rfl⟩ (hrun fuel)
  dsimp only
  rw [hrun]
  rcases result with e | next | a
  · exact .inr ⟨_, rfl, trivial⟩
  · exact .inl ⟨_, rfl, hpost next rfl⟩
  · exact .inr ⟨_, rfl, trivial⟩

end AlphaRay.Lib.Async
