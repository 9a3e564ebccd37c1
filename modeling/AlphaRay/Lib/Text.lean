import Mathlib.Data.List.Basic

namespace AlphaRay.Lib

variable {α : Type} [DecidableEq α] {target : α}

-- The place of the last one.
def rfind (target : α) : List α → Option Nat
  | [] => none
  | c :: text =>
      match rfind target text with
      | some i => some (i + 1)
      | none => if c = target then some 0 else none

theorem rfind_eq_none_iff {text : List α} : rfind target text = none ↔ target ∉ text := by
  induction text with
  | nil => exact iff_of_true rfl List.not_mem_nil
  | cons c text ih =>
      rw [rfind, List.mem_cons, not_or, ← ih]
      cases rfind target text with
      | some i => simp
      | none => simp [eq_comm]

theorem rfind_append (front : List α) {back : List α} (hback : target ∉ back) :
    rfind target (front ++ target :: back) = some front.length := by
  induction front with
  | nil =>
      rw [List.nil_append, rfind, rfind_eq_none_iff.mpr hback]
      exact if_pos rfl
  | cons c front ih => rw [List.cons_append, rfind, ih, List.length_cons]

theorem of_rfind {text : List α} {i : Nat} (h : rfind target text = some i) :
    ∃ front back, text = front ++ target :: back ∧ target ∉ back ∧ front.length = i := by
  induction text generalizing i with
  | nil => cases h
  | cons c text ih =>
      rw [rfind] at h
      cases hrest : rfind target text with
      | some j =>
          rw [hrest] at h
          cases h
          obtain ⟨front, back, rfl, hback, rfl⟩ := ih hrest
          exact ⟨c :: front, back, rfl, hback, rfl⟩
      | none =>
          rw [hrest] at h
          dsimp only at h
          split_ifs at h with hc
          cases h
          exact ⟨[], text, by rw [hc]; rfl, rfind_eq_none_iff.mp hrest, rfl⟩

-- A text is cut at its last separator in one way only.
theorem append_cons_inj {front front' back back' : List α} (hback : target ∉ back)
    (hback' : target ∉ back') (h : front ++ target :: back = front' ++ target :: back') :
    front = front' ∧ back = back' := by
  have hlen : some front.length = some front'.length := by
    rw [← rfind_append front hback, h, rfind_append front' hback']
  obtain ⟨hfront, hrest⟩ := List.append_inj h (Option.some.inj hlen)
  exact ⟨hfront, List.tail_eq_of_cons_eq hrest⟩

end AlphaRay.Lib
