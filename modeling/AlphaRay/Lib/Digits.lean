import Mathlib.Data.List.Basic
import Mathlib.Data.Nat.Init

namespace AlphaRay.Lib

-- The value of a digit: the decimal digits, and then the letters of either case.
def to_digit (radix : Nat) (c : Char) : Option Nat :=
  let value :=
    if c.isDigit then some (c.toNat - '0'.toNat)
    else if 'a' ≤ c ∧ c ≤ 'z' then some (c.toNat - 'a'.toNat + 10)
    else if 'A' ≤ c ∧ c ≤ 'Z' then some (c.toNat - 'A'.toNat + 10)
    else none
  value.filter (· < radix)

-- The number that is read after `init`, the highest digit first.
def digits_value (radix init : Nat) (ds : List Char) : Nat :=
  ds.foldl (fun value c => value * radix + (to_digit radix c).getD 0) init

theorem digits_value_cons {radix digit : Nat} {c : Char} (hc : to_digit radix c = some digit)
    (init : Nat) (ds : List Char) :
    digits_value radix init (c :: ds) = digits_value radix (init * radix + digit) ds := by
  rw [digits_value, List.foldl_cons, hc, Option.getD_some, digits_value]

theorem le_digits_value {radix : Nat} (hradix : 1 < radix) (init : Nat) (ds : List Char) :
    init ≤ digits_value radix init ds := by
  induction ds generalizing init with
  | nil => exact Nat.le_refl init
  | cons c ds ih =>
      have hmul : init * 1 ≤ init * radix := Nat.mul_le_mul_left init (Nat.le_of_lt hradix)
      have hrest := ih (init * radix + (to_digit radix c).getD 0)
      rw [digits_value, List.foldl_cons]
      rw [digits_value] at hrest
      omega

theorem to_digit_zero {radix : Nat} (hradix : 1 < radix) : to_digit radix '0' = some 0 := by
  have hpos : 0 < radix := by omega
  exact if_pos (decide_eq_true hpos)

section Printed

variable {radix : Nat}

theorem to_digit_digitChar (hradix : radix ≤ 16) {d : Nat} (hd : d < radix) :
    to_digit radix d.digitChar = some d := by
  have hall : ∀ e < 16, to_digit 16 (Nat.digitChar e) = some e := by decide
  have hvalue := hall d (by omega)
  unfold to_digit at hvalue ⊢
  obtain ⟨hd', -⟩ := Option.filter_eq_some_iff.mp hvalue
  simp only [hd', Option.filter_some, hd, decide_true, if_true]

-- The last digit is behind those of the quotient.
theorem toDigits_eq (hradix : 1 < radix) (n : Nat) :
    Nat.toDigits radix n =
      (if n < radix then [] else Nat.toDigits radix (n / radix)) ++
        [Nat.digitChar (n % radix)] := by
  rw [Nat.toDigits_eq_if hradix]
  split_ifs with h
  · rw [Nat.mod_eq_of_lt h, List.nil_append]
  · rfl

theorem to_digit_of_mem_toDigits (hlow : 1 < radix) (hhigh : radix ≤ 16) {n : Nat} :
    ∀ c ∈ Nat.toDigits radix n, to_digit radix c ≠ none := by
  induction n using Nat.strong_induction_on with
  | _ n ih =>
      intro c hc
      have hmod : n % radix < radix := Nat.mod_lt n (by omega)
      rw [toDigits_eq hlow, List.mem_append, List.mem_singleton] at hc
      rcases hc with hc | rfl
      · split_ifs at hc with hn
        · cases hc
        · exact ih (n / radix) (Nat.div_lt_self (by omega) hlow) c hc
      · rw [to_digit_digitChar hhigh hmod]
        exact Option.some_ne_none _

theorem digits_value_toDigits (hlow : 1 < radix) (hhigh : radix ≤ 16) (n : Nat) :
    digits_value radix 0 (Nat.toDigits radix n) = n := by
  induction n using Nat.strong_induction_on with
  | _ n ih =>
      have hmod : n % radix < radix := Nat.mod_lt n (by omega)
      rw [toDigits_eq hlow, digits_value, List.foldl_append, List.foldl_cons, List.foldl_nil,
        to_digit_digitChar hhigh hmod, Option.getD_some]
      split_ifs with hn
      · rw [List.foldl_nil, Nat.zero_mul, Nat.zero_add, Nat.mod_eq_of_lt hn]
      · have hrest := ih (n / radix) (Nat.div_lt_self (by omega) hlow)
        rw [digits_value] at hrest
        rw [hrest]
        exact Nat.div_add_mod' n radix

-- Only zero itself is printed with a zero in front.
theorem head?_toDigits (hradix : 1 < radix) {n : Nat} (hn : n ≠ 0) :
    (Nat.toDigits radix n).head? ≠ some '0' := by
  induction n using Nat.strong_induction_on with
  | _ n ih =>
      rw [toDigits_eq hradix]
      split_ifs with hlt
      · rw [List.nil_append, List.head?_cons, Nat.mod_eq_of_lt hlt]
        intro h
        exact hn (Nat.digitChar_eq_zero.mp (Option.some.inj h))
      · have hpos : 0 < n / radix := Nat.div_pos (by omega) (by omega)
        rw [List.head?_append_of_ne_nil _ Nat.toDigits_ne_nil]
        exact ih (n / radix) (Nat.div_lt_self (by omega) hradix) (by omega)

end Printed

theorem to_digit_ten {c : Char} :
    to_digit 10 c = if c.isDigit then some (c.toNat - '0'.toNat) else none := by
  unfold to_digit
  split_ifs with hdigit
  · have hle : c.toNat ≤ '9'.toNat := by
      simp only [Char.isDigit, Bool.and_eq_true, decide_eq_true_eq] at hdigit
      exact hdigit.2
    have hlt : c.toNat - '0'.toNat < 10 :=
      Nat.lt_of_le_of_lt (Nat.sub_le_sub_right hle _) (by decide)
    simp only [Option.filter_some, hlt, decide_true, if_true]
  · simp
  · simp
  · rfl

theorem isDigit_iff {c : Char} : to_digit 10 c ≠ none ↔ c.isDigit := by
  rw [to_digit_ten]
  split_ifs with h <;> simp [h]

theorem digits_value_ten {ds : List Char} (hds : ∀ c ∈ ds, c.isDigit) (init : Nat) :
    digits_value 10 init ds = Nat.ofDigitChars 10 ds init := by
  induction ds generalizing init with
  | nil => rfl
  | cons c ds ih =>
      have hc : c.isDigit := hds c List.mem_cons_self
      rw [digits_value, List.foldl_cons, to_digit_ten, if_pos hc, Option.getD_some,
        Nat.ofDigitChars_cons, Nat.mul_comm 10]
      exact ih (fun c hmem => hds c (List.mem_cons_of_mem _ hmem)) _

end AlphaRay.Lib
