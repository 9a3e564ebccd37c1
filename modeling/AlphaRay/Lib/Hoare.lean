import AlphaRay.Lib.Async

namespace AlphaRay.Lib.Async

variable {σ ε ε' α β : Type}

-- A postcondition for each way to end.
def ends (ok : α → σ → Prop) (err : ε → σ → Prop) : Except ε α → σ → Prop
  | .ok a => ok a
  | .error e => err e

@[simp] theorem ends_ok (ok : α → σ → Prop) (err : ε → σ → Prop) (a : α) :
    ends ok err (.ok a) = ok a := rfl

@[simp] theorem ends_error (ok : α → σ → Prop) (err : ε → σ → Prop) (e : ε) :
    ends ok err (.error e) = err e := rfl

theorem ends_same {post : σ → Prop} {state : σ} (result : Except ε α) :
    ends (fun _ => post) (fun _ => post) result state ↔ post state := by
  cases result <;> rfl

-- Partial correctness.
def Triple (pre : σ → Prop) (m : Async σ ε α) (ok : α → σ → Prop) (err : ε → σ → Prop) : Prop :=
  ∀ fuel state result after, pre state → m.run fuel state = some (result, after) →
    ends ok err result after

variable {pre pre' : σ → Prop} {ok ok' : α → σ → Prop} {err err' : ε → σ → Prop}

theorem Triple.conseq {m : Async σ ε α} (h : Triple pre m ok err)
    (hpre : ∀ state, pre' state → pre state) (hok : ∀ a state, ok a state → ok' a state)
    (herr : ∀ e state, err e state → err' e state) : Triple pre' m ok' err' := by
  intro fuel state result after hstate hrun
  have hpost := h fuel state result after (hpre state hstate) hrun
  cases result with
  | ok a => exact hok a after hpost
  | error e => exact herr e after hpost

-- A computation that returns meets its postcondition.
theorem Triple.of_returns {m : Async σ ε α} (h : Triple pre m ok err) {state after : σ}
    {result : Except ε α} (hstate : pre state) (hreturns : m.Returns state result after) :
    ends ok err result after := by
  obtain ⟨bound, hrun⟩ := hreturns
  exact h bound state result after hstate (hrun bound (Nat.le_refl _))

theorem Triple.and {m : Async σ ε α} (h : Triple pre m ok err) (h' : Triple pre' m ok' err') :
    Triple (fun state => pre state ∧ pre' state) m (fun a state => ok a state ∧ ok' a state)
      fun e state => err e state ∧ err' e state := by
  intro fuel state result after hstate hrun
  have hpost := h fuel state result after hstate.1 hrun
  have hpost' := h' fuel state result after hstate.2 hrun
  cases result with
  | ok a => exact ⟨hpost, hpost'⟩
  | error e => exact ⟨hpost, hpost'⟩

theorem Triple.pure (a : α) (h : ∀ state, pre state → ok a state) :
    Triple pre (Pure.pure a : Async σ ε α) ok err := by
  intro fuel state result after hstate hrun
  cases hrun
  exact h state hstate

theorem Triple.throw (e : ε) (h : ∀ state, pre state → err e state) :
    Triple pre (MonadExcept.throw e : Async σ ε α) ok err := by
  intro fuel state result after hstate hrun
  cases hrun
  exact h state hstate

theorem Triple.act (f : σ → α × σ) (h : ∀ state, pre state → ok (f state).1 (f state).2) :
    Triple pre (Async.act f : Async σ ε α) ok err := by
  intro fuel state result after hstate hrun
  cases hrun
  exact h state hstate

theorem Triple.bind {m : Async σ ε α} {f : α → Async σ ε β} (mid : α → σ → Prop)
    {ok : β → σ → Prop} (h : Triple pre m mid err) (h' : ∀ a, Triple (mid a) (f a) ok err) :
    Triple pre (m >>= f) ok err := by
  intro fuel state result after hstate hrun
  rw [run_bind] at hrun
  split at hrun
  · cases hrun
  · rename_i hm
    cases hrun
    exact h fuel state _ _ hstate hm
  · rename_i a mid_state hm
    exact h' a fuel mid_state result after (h fuel state _ _ hstate hm) hrun

-- Going on from a result, each way it may be.
theorem Triple.bind_result {m : Async σ ε (Except ε' α)} {f : Except ε' α → Async σ ε β}
    (mid : α → σ → Prop) (bad : ε' → σ → Prop) {ok : β → σ → Prop}
    (h : Triple pre m (ends mid bad) err) (hok : ∀ a, Triple (mid a) (f (.ok a)) ok err)
    (herr : ∀ e, Triple (bad e) (f (.error e)) ok err) : Triple pre (m >>= f) ok err := by
  refine .bind (ends mid bad) h fun result => ?_
  cases result with
  | ok a => exact hok a
  | error e => exact herr e

-- Both ways to end become values.
theorem Triple.attempt {m : Async σ ε α} {err' : ε' → σ → Prop} (h : Triple pre m ok err) :
    Triple pre (Async.attempt m : Async σ ε' (Except ε α)) (ends ok err) err' := by
  intro fuel state result after hstate hrun
  rw [Async.attempt, run_of, Option.map_eq_some_iff] at hrun
  obtain ⟨⟨value, _⟩, hm, heq⟩ := hrun
  cases heq
  exact h fuel state value _ hstate hm

-- The variable starts with its first value, and its last one is seen at the end.
theorem Triple.with_var {τ : Type} {init : τ} {m : Async (σ × τ) ε α} {pre : σ × τ → Prop}
    {ok : α → σ × τ → Prop} {err : ε → σ × τ → Prop} (h : Triple pre m ok err) :
    Triple (fun state => pre (state, init)) (Async.with_var init m)
      (fun a state => ok a.1 (state, a.2)) fun e state => ∃ last, err e (state, last) := by
  intro fuel state result after hstate hrun
  rw [Async.with_var, run_of, Option.map_eq_some_iff] at hrun
  obtain ⟨⟨outcome, after, last⟩, hm, heq⟩ := hrun
  cases heq
  have hpost := h fuel (state, init) outcome (after, last) hstate hm
  cases outcome with
  | ok a => exact hpost
  | error e => exact ⟨last, hpost⟩

theorem Triple.map_err {m : Async σ ε α} {err' : ε' → σ → Prop} (convert : ε → ε')
    (h : Triple pre m ok fun e => err' (convert e)) : Triple pre (m.map_err convert) ok err' := by
  intro fuel state result after hstate hrun
  rw [Async.map_err, run_of, Option.map_eq_some_iff] at hrun
  obtain ⟨⟨outcome, _⟩, hm, heq⟩ := hrun
  cases heq
  have hpost := h fuel state outcome _ hstate hm
  cases outcome with
  | ok a => exact hpost
  | error e => exact hpost

-- The rest of the state is what it was.
theorem Triple.zoom {τ : Type} {get : τ → σ} {set : τ → σ → τ} {m : Async σ ε α} (whole : τ)
    {ok : α → τ → Prop} {err : ε → τ → Prop}
    (h : Triple (· = get whole) m (fun a part => ok a (set whole part))
      fun e part => err e (set whole part)) :
    Triple (· = whole) (Async.zoom get set m) ok err := by
  intro fuel state result after hstate hrun
  subst hstate
  rw [Async.zoom, run_of, Option.map_eq_some_iff] at hrun
  obtain ⟨⟨_, part⟩, hm, heq⟩ := hrun
  cases heq
  have hpost := h fuel _ result part rfl hm
  cases result with
  | ok a => exact hpost
  | error e => exact hpost

-- A postcondition for a poll, whether the answer is there or not.
def polls (inv : σ → Prop) (ok : α → σ → Prop) (err : ε → σ → Prop) :
    Option (Except ε α) × σ → Prop
  | (none, after) => inv after
  | (some result, after) => ends ok err result after

-- An invariant of the polls that have no answer yet.
theorem Triple.wait {poll : σ → Option (Except ε α) × σ}
    (h : ∀ state, pre state → polls pre ok err (poll state)) :
    Triple pre (Async.wait poll) ok err := by
  intro fuel state result after hstate hrun
  rw [Async.wait, run_of] at hrun
  refine loop_rule pre (fun outcome : Except ε α × σ => ends ok err outcome.1 outcome.2) ?_ ?_
    hstate hrun
  · intro state next hinv hbody
    have hpoll := h state hinv
    split at hbody <;> cases hbody
    rename_i heq
    rwa [heq] at hpoll
  · intro state outcome hinv hbody
    have hpoll := h state hinv
    split at hbody <;> cases hbody
    rename_i heq
    rwa [heq] at hpoll

-- The postcondition of a round of a loop.
def rounds (inv : β → σ → Prop) (ok : α → σ → Prop) : Pass β α → σ → Prop
  | .again next => inv next
  | .leave a => ok a

-- An invariant of the rounds that go on.
theorem Triple.repeat_until {body : β → Async σ ε (Pass β α)} (inv : β → σ → Prop)
    (h : ∀ b, Triple (inv b) (body b) (rounds inv ok) err) (b : β) :
    Triple (inv b) (Async.repeat_until body b) ok err := by
  intro fuel state result after hstate hrun
  rw [Async.repeat_until, run_of] at hrun
  refine loop_rule (fun now : β × σ => inv now.1 now.2)
    (fun outcome : Except ε α × σ => ends ok err outcome.1 outcome.2) ?_ ?_ hstate hrun
  · rintro ⟨b, state⟩ next hinv hbody
    dsimp only at hbody
    split at hbody <;> cases hbody
    rename_i hm
    exact h b fuel state _ _ hinv hm
  · rintro ⟨b, state⟩ outcome hinv hbody
    dsimp only at hbody
    split at hbody <;> cases hbody
    all_goals
      rename_i hm
      exact h b fuel state _ _ hinv hm

-- A computation that returns from every state.
def Total (m : Async σ ε α) : Prop := ∀ state, ∃ result after, m.Returns state result after

theorem Total.pure (a : α) : Total (Pure.pure a : Async σ ε α) :=
  fun state => ⟨_, _, .pure a state⟩

theorem Total.throw (e : ε) : Total (MonadExcept.throw e : Async σ ε α) :=
  fun state => ⟨_, _, .throw e state⟩

theorem Total.act (f : σ → α × σ) : Total (Async.act f : Async σ ε α) :=
  fun state => ⟨_, _, .act f state⟩

theorem Total.bind {m : Async σ ε α} {f : α → Async σ ε β} (h : Total m)
    (h' : ∀ a, Total (f a)) : Total (m >>= f) := by
  intro state
  obtain ⟨result, mid, hm⟩ := h state
  rcases result with e | a
  · exact ⟨_, _, .bind_error hm⟩
  · obtain ⟨result, after, hf⟩ := h' a mid
    exact ⟨_, _, .bind hm hf⟩

-- A loop whose rounds return, and shorten something when they go on.
theorem Total.repeat_until {body : β → Async σ ε (Pass β α)} (length : σ → Nat)
    (h : ∀ b, Total (body b))
    (hshorter : ∀ b next state after, (body b).Returns state (.ok (.again next)) after →
      length after < length state) (b : β) : Total (Async.repeat_until body b) := by
  have hrounds : ∀ k b state, length state < k → ∃ result after,
      Rounds body b state result after := by
    intro k
    induction k with
    | zero => exact fun _ _ hk => absurd hk (Nat.not_lt_zero _)
    | succ k ih =>
        intro b state hk
        obtain ⟨result, mid, hround⟩ := h b state
        rcases result with e | ⟨next⟩ | a
        · exact ⟨_, _, .error hround⟩
        · have hlt := hshorter b next state mid hround
          obtain ⟨result, after, hrest⟩ := ih next mid (by omega)
          exact ⟨_, _, .again hround hrest⟩
        · exact ⟨_, _, .leave hround⟩
  intro state
  obtain ⟨result, after, hends⟩ := hrounds _ b state (Nat.lt_succ_self _)
  exact ⟨result, after, hends.returns⟩

end AlphaRay.Lib.Async
