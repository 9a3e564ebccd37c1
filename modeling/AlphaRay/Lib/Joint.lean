import AlphaRay.Lib.Run
import Mathlib.Data.List.Infix
import Mathlib.Logic.Function.Basic
import Mathlib.Logic.Relation

namespace AlphaRay.Lib

-- A party that sends symbols and gets symbols, both in order.
structure Party (σ ℓ α : Type) where
  Step : σ → ℓ → σ → Prop
  sent : σ → List α
  got : σ → List α

variable {ι σ τ ℓ ℓ' α : Type} [DecidableEq ι] {peer : ι → ι}

-- Parties over channels that keep the order. Any of them may take the next step, and
-- what it has got by then is a front part of what its peer has sent.
def Party.Joint (party : Party σ ℓ α) (peer : ι → ι) (states : ι → σ) (act : ι × ℓ)
    (after : ι → σ) : Prop :=
  ∃ next, party.Step (states act.1) act.2 next ∧
    party.got next <+: party.sent (states (peer act.1)) ∧
    after = Function.update states act.1 next

-- What one of the parties did in a run.
def own (i : ι) (past : List (Transition (ι → σ) (ι × ℓ))) : List (Transition σ ℓ) :=
  past.filterMap fun t => if t.label.1 = i then some ⟨t.before i, t.label.2, t.after i⟩ else none

theorem own_concat_self (i : ι) (past : List (Transition (ι → σ) (ι × ℓ)))
    {last : Transition (ι → σ) (ι × ℓ)} (h : last.label.1 = i) :
    own i (past ++ [last]) = own i past ++ [⟨last.before i, last.label.2, last.after i⟩] := by
  simp [own, h]

theorem own_concat_of_ne (i : ι) (past : List (Transition (ι → σ) (ι × ℓ)))
    {last : Transition (ι → σ) (ι × ℓ)} (h : last.label.1 ≠ i) :
    own i (past ++ [last]) = own i past := by
  simp [own, h]

theorem label_of_mem_own {i : ι} {past : List (Transition (ι → σ) (ι × ℓ))}
    {t : Transition σ ℓ} (h : t ∈ own i past) : ∃ u ∈ past, u.label = (i, t.label) := by
  obtain ⟨u, hmem, hu⟩ := List.mem_filterMap.mp h
  split at hu
  · rename_i hi
    cases hu
    exact ⟨u, hmem, by rw [← hi]⟩
  · cases hu

-- Alone it made a run as well.
theorem run_own {party : Party σ ℓ α} {start states : ι → σ}
    {past : List (Transition (ι → σ) (ι × ℓ))} (hrun : Run (party.Joint peer) start past states)
    (i : ι) : Run party.Step (start i) (own i past) (states i) := by
  refine hrun.rule (fun past states => Run party.Step (start i) (own i past) (states i)) .nil ?_
  intro past last _ ih hstep
  obtain ⟨next, hnext, -, hafter⟩ := hstep
  by_cases hi : last.label.1 = i
  · subst hi
    rw [own_concat_self _ past rfl, hafter, Function.update_self]
    exact ih.next hnext
  · rwa [own_concat_of_ne i past hi, hafter, Function.update_of_ne (Ne.symm hi)]

section Follows

-- A party that follows another: each of its steps is a number of steps of the other, which
-- has got the same and sent at least as much. What relates them may depend on its steps.
structure Follows (coarse : Party τ ℓ α) (fine : Party σ ℓ' α)
    (related : List ℓ → τ → σ → Prop) : Prop where
  step : ∀ past t s label next, related past t s → coarse.Step t label next →
    ∃ s', Relation.ReflTransGen (fun s s' => ∃ act, fine.Step s act s') s s' ∧
      related (past ++ [label]) next s'
  got_eq : ∀ past t s, related past t s → fine.got s = coarse.got t
  sent_le : ∀ past t s, related past t s → coarse.sent t <+: fine.sent s

variable {coarse : Party τ ℓ α} {fine : Party σ ℓ' α} {related : List ℓ → τ → σ → Prop}

-- The steps of one party, with the others waiting.
theorem joint_of_steps (hgrows : ∀ s act s', fine.Step s act s' → fine.got s <+: fine.got s')
    (states : ι → σ) (i : ι) (hpeer : peer i ≠ i) {s s' : σ}
    (hsteps : Relation.ReflTransGen (fun s s' => ∃ act, fine.Step s act s') s s')
    (hgot : fine.got s' <+: fine.sent (states (peer i))) :
    Relation.ReflTransGen (fun a b => ∃ act, fine.Joint peer a act b)
      (Function.update states i s) (Function.update states i s') := by
  induction hsteps with
  | refl => exact .refl
  | @tail mid last _ hlast ih =>
      obtain ⟨act, hact⟩ := hlast
      have hmid := ih ((hgrows _ _ _ hact).trans hgot)
      refine hmid.tail ⟨(i, act), last, ?_, ?_, ?_⟩
      · rwa [Function.update_self]
      · rwa [Function.update_of_ne hpeer]
      · rw [Function.update_idem]

-- Parties that follow others one by one also do so together.
theorem Follows.joint (h : Follows coarse fine related)
    (hgrows : ∀ s act s', fine.Step s act s' → fine.got s <+: fine.got s')
    (hpeer : ∀ i, peer i ≠ i) {start : ι → τ} {first : ι → σ}
    (hstart : ∀ i, related [] (start i) (first i)) {states : ι → τ}
    {past : List (Transition (ι → τ) (ι × ℓ))}
    (hrun : Run (coarse.Joint peer) start past states) :
    ∃ last : ι → σ, Relation.ReflTransGen (fun a b => ∃ act, fine.Joint peer a act b) first last ∧
      ∀ i, related ((own i past).map (·.label)) (states i) (last i) := by
  refine hrun.rule (fun past states => ∃ last : ι → σ,
    Relation.ReflTransGen (fun a b => ∃ act, fine.Joint peer a act b) first last ∧
      ∀ i, related ((own i past).map (·.label)) (states i) (last i)) ⟨first, .refl, hstart⟩ ?_
  intro past act _ ih hstep
  obtain ⟨next, hnext, hgot, hafter⟩ := hstep
  obtain ⟨last, hreach, hrelated⟩ := ih
  obtain ⟨s', hsteps, hs'⟩ := h.step _ _ _ _ _ (hrelated act.label.1) hnext
  have hsent := hgot.trans (h.sent_le _ _ _ (hrelated (peer act.label.1)))
  rw [← h.got_eq _ _ _ hs'] at hsent
  have hjoint := joint_of_steps hgrows last act.label.1 (hpeer _) hsteps hsent
  rw [Function.update_eq_self] at hjoint
  refine ⟨Function.update last act.label.1 s', hreach.trans hjoint, fun i => ?_⟩
  rw [hafter]
  by_cases hi : act.label.1 = i
  · subst hi
    rw [own_concat_self _ past rfl, List.map_append, Function.update_self, Function.update_self]
    exact hs'
  · rw [own_concat_of_ne i past hi, Function.update_of_ne (Ne.symm hi),
      Function.update_of_ne (Ne.symm hi)]
    exact hrelated i

end Follows

end AlphaRay.Lib
