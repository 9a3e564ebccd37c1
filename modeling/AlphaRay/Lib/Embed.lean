import AlphaRay.Lib.Async

namespace AlphaRay.Lib

variable {σ τ ρ ρ' : Type}

-- The same passes on other states, with another result.
def Pass.map (f : σ → τ) (g : ρ → ρ') : Pass σ ρ → Pass τ ρ'
  | .again state => .again (f state)
  | .leave result => .leave (g result)

theorem loop_map {body : σ → Option (Pass σ ρ)} {body' : τ → Option (Pass τ ρ')} {f : σ → τ}
    {g : ρ → ρ'} (h : ∀ state, body' (f state) = (body state).map (Pass.map f g)) (fuel : Nat)
    (state : σ) : loop body' fuel (f state) = (loop body fuel state).map g := by
  induction fuel generalizing state with
  | zero => rfl
  | succ fuel ih =>
      simp only [loop, h]
      rcases body state with _ | next | result
      · rfl
      · exact ih next
      · rfl

namespace Async

variable {ε ε' α β : Type} {f : σ → τ}

-- A computation that does on `f state` what another does on `state`.
def Embeds (f : σ → τ) (m : Async σ ε α) (m' : Async τ ε α) : Prop :=
  ∀ fuel state, m'.run fuel (f state) = (m.run fuel state).map (Prod.map id f)

theorem Embeds.returns {m : Async σ ε α} {m' : Async τ ε α} (h : Embeds f m m') {state after : σ}
    {result : Except ε α} (hreturns : m.Returns state result after) :
    m'.Returns (f state) result (f after) := by
  obtain ⟨bound, hrun⟩ := hreturns
  refine ⟨bound, fun fuel hfuel => ?_⟩
  rw [h, hrun fuel hfuel]
  rfl

theorem Embeds.same (m : Async σ ε α) : Embeds (fun state => state) m m := by
  intro fuel state
  change m.run fuel state = _
  rcases m.run fuel state with _ | ⟨result, after⟩ <;> rfl

theorem Embeds.comp {υ : Type} {g : τ → υ} {m : Async σ ε α} {m' : Async τ ε α} {m'' : Async υ ε α}
    (h : Embeds f m m') (h' : Embeds g m' m'') : Embeds (g ∘ f) m m'' := by
  intro fuel state
  rw [Function.comp_apply, h', h, Option.map_map, Prod.map_comp_map, Function.id_comp]

theorem Embeds.pure (a : α) : Embeds f (Pure.pure a : Async σ ε α) (Pure.pure a) :=
  fun _ _ => rfl

theorem Embeds.throw (e : ε) :
    Embeds f (MonadExcept.throw e : Async σ ε α) (MonadExcept.throw e) :=
  fun _ _ => rfl

theorem Embeds.bind {m : Async σ ε α} {m' : Async τ ε α} {k : α → Async σ ε β}
    {k' : α → Async τ ε β} (h : Embeds f m m') (hk : ∀ a, Embeds f (k a) (k' a)) :
    Embeds f (m >>= k) (m' >>= k') := by
  intro fuel state
  rw [run_bind, run_bind, h]
  rcases m.run fuel state with _ | ⟨e | a, mid⟩
  · rfl
  · rfl
  · exact hk a fuel mid

theorem Embeds.bind_peek {k : σ → Async σ ε β} {k' : τ → Async τ ε β}
    (h : ∀ state, Embeds f (k state) (k' (f state))) :
    Embeds f (Async.peek >>= k) (Async.peek >>= k') :=
  fun fuel state => h state fuel state

theorem Embeds.act {g : σ → α × σ} {g' : τ → α × τ}
    (h : ∀ state, g' (f state) = (g state).map id f) :
    Embeds f (Async.act g : Async σ ε α) (Async.act g') := by
  intro fuel state
  simp only [Async.act, run_of, h]
  rfl

theorem Embeds.map_err {m : Async σ ε α} {m' : Async τ ε α} (h : Embeds f m m')
    (convert : ε → ε') : Embeds f (m.map_err convert) (m'.map_err convert) := by
  intro fuel state
  simp only [Async.map_err, run_of, h fuel state]
  rcases m.run fuel state with _ | ⟨result, mid⟩ <;> rfl

theorem Embeds.wait {poll : σ → Option (Except ε α) × σ} {poll' : τ → Option (Except ε α) × τ}
    (h : ∀ state, poll' (f state) = Prod.map id f (poll state)) :
    Embeds f (Async.wait poll) (Async.wait poll') := by
  intro fuel state
  refine loop_map (fun state => ?_) fuel state
  rw [h]
  rcases poll state with ⟨_ | result, after⟩ <;> rfl

theorem Embeds.repeat_until {body : β → Async σ ε (Pass β α)} {body' : β → Async τ ε (Pass β α)}
    (h : ∀ b, Embeds f (body b) (body' b)) (b : β) :
    Embeds f (Async.repeat_until body b) (Async.repeat_until body' b) := by
  intro fuel state
  refine loop_map (f := Prod.map id f) ?_ fuel (b, state)
  rintro ⟨b, state⟩
  dsimp only [Prod.map]
  rw [id, h b fuel state]
  rcases (body b).run fuel state with _ | ⟨e | next | a, after⟩ <;> rfl

end Async

end AlphaRay.Lib
