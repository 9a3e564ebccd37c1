import AlphaRay.Lib.Loop

namespace AlphaRay.Lib

-- A computation on a state `σ` that may wait and may fail. It is given the number
-- of turns that each of its waits and loops may take, and answers `none` when one
-- of them has not ended by then.
def Async (σ ε : Type) : Type → Type := ReaderT Nat (ExceptT ε (StateT σ Option))

namespace Async

variable {σ ε ε' α β : Type}

instance : Monad (Async σ ε) :=
  inferInstanceAs (Monad (ReaderT Nat (ExceptT ε (StateT σ Option))))

instance : MonadExceptOf ε (Async σ ε) :=
  inferInstanceAs (MonadExceptOf ε (ReaderT Nat (ExceptT ε (StateT σ Option))))

def run (m : Async σ ε α) (fuel : Nat) (state : σ) : Option (Except ε α × σ) := m fuel state

def of (f : Nat → σ → Option (Except ε α × σ)) : Async σ ε α := f

@[simp] theorem run_of (f : Nat → σ → Option (Except ε α × σ)) : (of f).run = f := rfl

theorem run_bind (m : Async σ ε α) (f : α → Async σ ε β) (fuel : Nat) (state : σ) :
    (m >>= f).run fuel state =
      match m.run fuel state with
      | none => none
      | some (.error e, state) => some (.error e, state)
      | some (.ok a, state) => (f a).run fuel state := by
  change (StateT.bind (m fuel) (ExceptT.bindCont fun a => f a fuel)) state = _
  simp only [StateT.bind, run]
  cases m fuel state with
  | none => rfl
  | some outcome =>
      obtain ⟨result, state⟩ := outcome
      cases result <;> rfl

-- `?` on a result whose error is converted.
def map_err (convert : ε → ε') (m : Async σ ε α) : Async σ ε' α :=
  of fun fuel state => (m.run fuel state).map fun (result, state) =>
    (result.mapError convert, state)

-- A call that always returns.
def act (f : σ → α × σ) : Async σ ε α := of fun _ state => some (.ok (f state).1, (f state).2)

def peek : Async σ ε σ := act fun state => (state, state)

-- The outcome of a computation as a value.
def attempt (m : Async σ ε α) : Async σ ε' (Except ε α) :=
  of fun fuel state => (m.run fuel state).map fun (result, state) => (.ok result, state)

-- A computation with a variable of its own, whose last value is part of the result.
def with_var {τ : Type} (init : τ) (m : Async (σ × τ) ε α) : Async σ ε (α × τ) :=
  of fun fuel state => (m.run fuel (state, init)).map fun (result, state, last) =>
    (result.map fun a => (a, last), state)

-- A computation on a part of the state.
def zoom {τ : Type} (get : τ → σ) (set : τ → σ → τ) (m : Async σ ε α) : Async τ ε α :=
  of fun fuel state => (m.run fuel (get state)).map fun (result, part) =>
    (result, set state part)

-- Polling until the answer is there.
def wait (poll : σ → Option (Except ε α) × σ) : Async σ ε α :=
  of fun fuel state => loop (fun state =>
    match poll state with
    | (some result, state) => some (.leave (result, state))
    | (none, state) => some (.again state)) fuel state

def repeat_until (body : β → Async σ ε (Pass β α)) (start : β) : Async σ ε α :=
  of fun fuel state => loop (fun (b, state) =>
    match (body b).run fuel state with
    | none => none
    | some (.error e, state) => some (.leave (.error e, state))
    | some (.ok (.again b), state) => some (.again (b, state))
    | some (.ok (.leave a), state) => some (.leave (.ok a, state))) fuel (start, state)

-- With enough turns the computation ends, in this way.
def Returns (m : Async σ ε α) (state : σ) (result : Except ε α) (after : σ) : Prop :=
  ∃ bound, ∀ fuel, bound ≤ fuel → m.run fuel state = some (result, after)

section Returns

variable {m : Async σ ε α} {f : α → Async σ ε β} {state mid after : σ}

theorem Returns.unique {result result' : Except ε α} {after' : σ} (h : m.Returns state result after)
    (h' : m.Returns state result' after') : result = result' ∧ after = after' := by
  obtain ⟨bound, h⟩ := h
  obtain ⟨bound', h'⟩ := h'
  have heq := (h (max bound bound') (Nat.le_max_left _ _)).symm.trans
    (h' (max bound bound') (Nat.le_max_right _ _))
  exact Prod.mk.inj (Option.some.inj heq)

theorem Returns.pure (a : α) (state : σ) :
    (Pure.pure a : Async σ ε α).Returns state (.ok a) state :=
  ⟨0, fun _ _ => rfl⟩

theorem Returns.throw (e : ε) (state : σ) :
    (MonadExcept.throw e : Async σ ε α).Returns state (.error e) state :=
  ⟨0, fun _ _ => rfl⟩

theorem Returns.bind {a : α} {result : Except ε β} (h : m.Returns state (.ok a) mid)
    (h' : (f a).Returns mid result after) : (m >>= f).Returns state result after := by
  obtain ⟨bound, h⟩ := h
  obtain ⟨bound', h'⟩ := h'
  refine ⟨max bound bound', fun fuel hfuel => ?_⟩
  rw [run_bind, h fuel (by omega)]
  exact h' fuel (by omega)

theorem Returns.bind_error {e : ε} (h : m.Returns state (.error e) after) :
    (m >>= f).Returns state (.error e) after := by
  obtain ⟨bound, h⟩ := h
  refine ⟨bound, fun fuel hfuel => ?_⟩
  rw [run_bind, h fuel hfuel]

theorem Returns.map_err {result : Except ε α} (h : m.Returns state result after)
    (convert : ε → ε') : (m.map_err convert).Returns state (result.mapError convert) after := by
  obtain ⟨bound, h⟩ := h
  refine ⟨bound, fun fuel hfuel => ?_⟩
  rw [Async.map_err, run_of, h fuel hfuel]
  rfl

theorem Returns.act (f : σ → α × σ) (state : σ) :
    (Async.act f : Async σ ε α).Returns state (.ok (f state).1) (f state).2 :=
  ⟨0, fun _ _ => rfl⟩

theorem Returns.peek (state : σ) : (Async.peek : Async σ ε σ).Returns state (.ok state) state :=
  .act _ state

theorem Returns.attempt {result : Except ε α} (h : m.Returns state result after) :
    (Async.attempt m : Async σ ε' (Except ε α)).Returns state (.ok result) after := by
  obtain ⟨bound, h⟩ := h
  refine ⟨bound, fun fuel hfuel => ?_⟩
  rw [Async.attempt, run_of, h fuel hfuel]
  rfl

theorem Returns.with_var {τ : Type} {init last : τ} {m : Async (σ × τ) ε α} {result : Except ε α}
    (h : m.Returns (state, init) result (after, last)) :
    (Async.with_var init m).Returns state (result.map fun a => (a, last)) after := by
  obtain ⟨bound, h⟩ := h
  refine ⟨bound, fun fuel hfuel => ?_⟩
  rw [Async.with_var, run_of, h fuel hfuel]
  rfl

theorem Returns.zoom {τ : Type} {get : τ → σ} {set : τ → σ → τ} {whole : τ} {result : Except ε α}
    (h : m.Returns (get whole) result after) :
    (Async.zoom get set m).Returns whole result (set whole after) := by
  obtain ⟨bound, h⟩ := h
  refine ⟨bound, fun fuel hfuel => ?_⟩
  rw [Async.zoom, run_of, h fuel hfuel]
  rfl

end Returns

section Wait

variable {poll : σ → Option (Except ε α) × σ} {state mid after : σ} {result : Except ε α}

theorem Returns.wait_ready (h : poll state = (some result, after)) :
    (Async.wait poll).Returns state result after := by
  refine ⟨1, fun fuel hfuel => ?_⟩
  obtain ⟨fuel, rfl⟩ : ∃ k, fuel = k + 1 := ⟨fuel - 1, by omega⟩
  simp only [Async.wait, run_of, loop, h]

theorem Returns.wait_again (h : poll state = (none, mid))
    (h' : (Async.wait poll).Returns mid result after) :
    (Async.wait poll).Returns state result after := by
  obtain ⟨bound, h'⟩ := h'
  refine ⟨bound + 1, fun fuel hfuel => ?_⟩
  obtain ⟨fuel, rfl⟩ : ∃ k, fuel = k + 1 := ⟨fuel - 1, by omega⟩
  have hrest := h' fuel (by omega)
  simp only [Async.wait, run_of, loop, h] at hrest ⊢
  exact hrest

end Wait

-- Polling ends when each answer that is not there yet uses up some patience.
theorem Returns.wait (poll : σ → Option (Except ε α) × σ) (inv : σ → Prop)
    (post : Except ε α → σ → Prop) (patience : σ → Nat)
    (hpoll : ∀ state, inv state →
      (∃ after, poll state = (none, after) ∧ inv after ∧ patience after < patience state) ∨
      ∃ result after, poll state = (some result, after) ∧ post result after)
    (state : σ) (hinv : inv state) :
    ∃ result after, (Async.wait poll).Returns state result after ∧ post result after := by
  obtain ⟨bound, hbound⟩ : ∃ bound, patience state < bound := ⟨_, Nat.lt_succ_self _⟩
  have hbody : ∀ state, inv state →
      (∃ next, (match poll state with
        | (some result, state) => some (Pass.leave (result, state))
        | (none, state) => some (.again state)) = some (.again next) ∧ inv next ∧
          patience next < patience state) ∨
      ∃ outcome : Except ε α × σ, (match poll state with
        | (some result, state) => some (Pass.leave (result, state))
        | (none, state) => some (.again state)) = some (.leave outcome) ∧
          post outcome.1 outcome.2 := by
    intro state hinv
    rcases hpoll state hinv with ⟨after, heq, hafter, hlt⟩ | ⟨result, after, heq, hpost⟩
    · exact .inl ⟨after, by rw [heq], hafter, hlt⟩
    · exact .inr ⟨(result, after), by rw [heq], hpost⟩
  obtain ⟨⟨result, after⟩, hend, hpost⟩ := loop_ends inv
    (fun outcome : Except ε α × σ => post outcome.1 outcome.2)
    patience hbody hinv hbound
  refine ⟨result, after, ⟨bound, fun fuel hfuel => ?_⟩, hpost⟩
  exact loop_mono (fun _ _ h => h) hfuel hend

-- The rounds of a loop, each one a computation that returns.
inductive Rounds (body : β → Async σ ε (Pass β α)) : β → σ → Except ε α → σ → Prop
  | leave {b : β} {state after : σ} {a : α} :
      (body b).Returns state (.ok (.leave a)) after → Rounds body b state (.ok a) after
  | error {b : β} {state after : σ} {e : ε} :
      (body b).Returns state (.error e) after → Rounds body b state (.error e) after
  | again {b next : β} {state mid after : σ} {result : Except ε α} :
      (body b).Returns state (.ok (.again next)) mid → Rounds body next mid result after →
      Rounds body b state result after

theorem Rounds.returns {body : β → Async σ ε (Pass β α)} {b : β} {state after : σ}
    {result : Except ε α} (h : Rounds body b state result after) :
    (repeat_until body b).Returns state result after := by
  -- the turns of the loop and the turns within its rounds are bounded apart
  have hbounds : ∃ turns bound, ∀ fuel, bound ≤ fuel → ∀ count, turns ≤ count →
      loop (fun (b, state) =>
        match (body b).run fuel state with
        | none => none
        | some (.error e, state) => some (Pass.leave (.error e, state))
        | some (.ok (.again b), state) => some (.again (b, state))
        | some (.ok (.leave a), state) => some (.leave (.ok a, state))) count (b, state) =
      some (result, after) := by
    induction h with
    | leave h | error h =>
        obtain ⟨bound, h⟩ := h
        refine ⟨1, bound, fun fuel hfuel count hcount => ?_⟩
        obtain ⟨count, rfl⟩ : ∃ k, count = k + 1 := ⟨count - 1, by omega⟩
        simp only [loop, h fuel hfuel]
    | again h _ ih =>
        obtain ⟨bound, h⟩ := h
        obtain ⟨turns, bound', ih⟩ := ih
        refine ⟨turns + 1, max bound bound', fun fuel hfuel count hcount => ?_⟩
        obtain ⟨count, rfl⟩ : ∃ k, count = k + 1 := ⟨count - 1, by omega⟩
        simp only [loop, h fuel (by omega)]
        exact ih fuel (by omega) count (by omega)
  obtain ⟨turns, bound, h⟩ := hbounds
  exact ⟨max turns bound, fun fuel hfuel => h fuel (by omega) fuel (by omega)⟩

end Async

end AlphaRay.Lib
