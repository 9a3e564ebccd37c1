import AlphaRay.Net

namespace AlphaRay

open Lib

namespace Net

open Scanner

section Numbers

variable {radix MAX : Nat} {ds rest : List Char}

theorem foldlM_push_digit_none (hradix : 1 < radix) (hds : ∀ c ∈ ds, to_digit radix c ≠ none)
    (result digit_count : Nat) (hresult : result ≤ MAX) :
    ds.foldlM (fun read c => (to_digit radix c).bind (push_digit radix none MAX read))
        (result, digit_count) =
      if digits_value radix result ds ≤ MAX then
        some (digits_value radix result ds, digit_count + ds.length)
      else none := by
  induction ds generalizing result digit_count with
  | nil => exact (if_pos hresult).symm
  | cons c ds ih =>
      obtain ⟨digit, hdigit⟩ := Option.ne_none_iff_exists'.mp (hds c List.mem_cons_self)
      have hle := le_digits_value hradix (result * radix + digit) ds
      rw [List.foldlM_cons, digits_value_cons hdigit, hdigit, Option.bind_some]
      by_cases hfits : result * radix + digit ≤ MAX
      · have hmul : ¬ MAX < result * radix := by omega
        simp only [push_digit, hmul, if_false, Nat.not_lt.mpr hfits]
        refine (ih (fun c hc => hds c (List.mem_cons_of_mem _ hc)) _ _ hfits).trans ?_
        rw [List.length_cons, Nat.add_assoc, Nat.add_comm 1]
      · have hover : ¬ digits_value radix (result * radix + digit) ds ≤ MAX := by omega
        rw [if_neg hover]
        have hlt : MAX < result * radix + digit := by omega
        simp only [push_digit, hlt, if_true, ite_self]
        rfl

theorem foldlM_push_digit_some {max_digits : Nat} (hds : ∀ c ∈ ds, to_digit radix c ≠ none)
    (result digit_count : Nat) (hcount : digit_count + ds.length ≤ max_digits) :
    ds.foldlM (fun read c => (to_digit radix c).bind (push_digit radix (some max_digits) MAX read))
        (result, digit_count) =
      some (digits_value radix result ds, digit_count + ds.length) := by
  induction ds generalizing result digit_count with
  | nil => rfl
  | cons c ds ih =>
      obtain ⟨digit, hdigit⟩ := Option.ne_none_iff_exists'.mp (hds c List.mem_cons_self)
      rw [List.length_cons] at hcount
      have hroom : ¬ max_digits < digit_count + 1 := by omega
      rw [List.foldlM_cons, digits_value_cons hdigit, hdigit, Option.bind_some]
      simp only [push_digit, hroom, if_false]
      refine (ih (fun c hc => hds c (List.mem_cons_of_mem _ hc)) _ _ (by omega)).trans ?_
      rw [List.length_cons, Nat.add_assoc, Nat.add_comm 1]

-- The text goes on with something else than a digit.
def Stops (radix : Nat) (rest : List Char) : Prop := ∀ c ∈ rest.head?, to_digit radix c = none

theorem run_symbols (max_digits : Option Nat) (MAX : Nat)
    (hds : ∀ c ∈ ds, to_digit radix c ≠ none) (hrest : Stops radix rest) (read : Nat × Nat) :
    (symbols (to_digit radix) (push_digit radix max_digits MAX) read).run (ds ++ rest) =
      (ds.foldlM (fun read c => (to_digit radix c).bind (push_digit radix max_digits MAX read))
        read).map fun last => (last, rest) :=
  fold_symbols_append hds hrest

-- A number whose leading zeros do not matter.
theorem run_read_number_none (MAX : Nat) (hradix : 1 < radix)
    (hds : ∀ c ∈ ds, to_digit radix c ≠ none) (hrest : Stops radix rest) :
    (read_number radix none true MAX).run (ds ++ rest) =
      if ds ≠ [] ∧ digits_value radix 0 ds ≤ MAX then some (digits_value radix 0 ds, rest)
      else none := by
  have hread := run_symbols none MAX hds hrest (0, 0)
  rw [foldlM_push_digit_none hradix hds 0 0 (Nat.zero_le _)] at hread
  rw [read_number, run_bind_some rfl]
  by_cases hfits : digits_value radix 0 ds ≤ MAX
  · rw [if_pos hfits] at hread
    rw [run_bind_some hread]
    cases ds with
    | nil => rfl
    | cons c ds => simp [hfits]
  · rw [if_neg hfits] at hread
    rw [run_bind_none hread, if_neg fun h => hfits h.2]

theorem run_read_number_some {max_digits : Nat} (allow_leading_zero : Bool) (hne : ds ≠ [])
    (hds : ∀ c ∈ ds, to_digit radix c ≠ none) (hrest : Stops radix rest)
    (hzero : allow_leading_zero = true ∨ ds.head? ≠ some '0' ∨ ds.length ≤ 1)
    (hcount : ds.length ≤ max_digits) (hfits : digits_value radix 0 ds ≤ MAX) :
    (read_number radix (some max_digits) allow_leading_zero MAX).run (ds ++ rest) =
      some (digits_value radix 0 ds, rest) := by
  have hread := run_symbols (some max_digits) MAX hds hrest (0, 0)
  rw [foldlM_push_digit_some hds 0 0 (by omega)] at hread
  have hpos : 0 + ds.length ≠ 0 := by simpa using hne
  have hhead : (ds ++ rest).head? = ds.head? := List.head?_append_of_ne_nil _ hne
  have hlead : ¬ (!allow_leading_zero && (ds.head? == some '0') && decide (1 < 0 + ds.length)) := by
    rcases hzero with h | h | h <;> simp [h]
  rw [read_number, run_bind_some rfl, hhead, run_bind_some hread]
  have hover : ¬ (Option.isSome (some max_digits) && decide (MAX < digits_value radix 0 ds)) := by
    simpa using hfits
  dsimp only
  rw [if_neg hpos, if_neg hlead, if_neg hover, run_pure]

-- What is read as a number stands in front, and nothing of the kind follows.
theorem of_run_read_number {max_digits : Option Nat} {allow_leading_zero : Bool} {n : Nat}
    {text : List Char}
    (h : (read_number radix max_digits allow_leading_zero MAX).run text = some (n, rest)) :
    ∃ ds, text = ds ++ rest ∧ (∀ c ∈ ds, to_digit radix c ≠ none) ∧ Stops radix rest := by
  obtain ⟨has_leading_zero, mid, hnext, hsymbols⟩ := of_run_bind h
  obtain ⟨⟨result, digit_count⟩, mid', hread, hchecks⟩ := of_run_bind hsymbols
  cases hnext
  have hmid : mid' = rest := by
    dsimp only at hchecks
    split_ifs at hchecks <;> cases hchecks
    rfl
  rw [hmid] at hread
  exact of_fold_symbols hread

theorem endsAt_read_number (hradix : 1 < radix) {c : Char} (hdigit : to_digit radix c = none)
    (max_digits : Option Nat) (allow_leading_zero : Bool) (MAX : Nat) :
    EndsAt c (read_number radix max_digits allow_leading_zero MAX) := by
  have hzero : c ≠ '0' := by
    rintro rfl
    rw [to_digit_zero hradix] at hdigit
    cases hdigit
  refine (EndsAt.next_is hzero).bind fun has_leading_zero => (EndsAt.symbols hdigit _).bind ?_
  rintro ⟨result, digit_count⟩
  dsimp only
  split_ifs
  · exact .fail
  · exact .fail
  · exact .fail
  · exact .pure _

end Numbers

section Addresses

variable {c : Char} {rest : List Char}

theorem stops_nil (radix : Nat) : Stops radix [] := by simp [Stops]

theorem stops_cons {radix : Nat} (hc : to_digit radix c = none) : Stops radix (c :: rest) := by
  simpa [Stops] using hc

-- What a separator looks like in front of an item.
def separator (sep : Char) (index : Nat) : List Char := if 0 < index then [sep] else []

theorem run_read_separator {α : Type} (sep : Char) (index : Nat) (inner : Scanner α)
    (text : List Char) :
    (read_separator sep index inner).run (separator sep index ++ text) = inner.run text := by
  unfold read_separator separator
  split_ifs
  · exact run_bind_some (run_given sep text) _
  · rfl

theorem endsAt_read_separator {α : Type} {sep : Char} {inner : Scanner α} (hsep : c ≠ sep)
    (hinner : EndsAt c inner) (index : Nat) : EndsAt c (read_separator sep index inner) := by
  unfold read_separator
  split_ifs
  · exact (EndsAt.given hsep).bind fun _ => hinner
  · exact hinner

theorem decimal_ne_nil {n : Nat} : decimal n ≠ [] := Nat.toDigits_ne_nil

theorem to_digit_of_mem_decimal {n : Nat} : ∀ c ∈ decimal n, to_digit 10 c ≠ none :=
  to_digit_of_mem_toDigits (by decide) (by decide)

theorem digits_value_decimal (n : Nat) : digits_value 10 0 (decimal n) = n :=
  digits_value_toDigits (by decide) (by decide) n

theorem decimal_leading_zero (n : Nat) :
    (decimal n).head? ≠ some '0' ∨ (decimal n).length ≤ 1 := by
  by_cases hzero : n = 0
  · right
    rw [hzero]
    decide
  · exact .inl (head?_toDigits (by decide) hzero)

theorem run_read_decimal {n MAX : Nat} (hn : n ≤ MAX) (hrest : Stops 10 rest) :
    (read_number 10 none true MAX).run (decimal n ++ rest) = some (n, rest) := by
  rw [run_read_number_none MAX (by decide) to_digit_of_mem_decimal hrest, digits_value_decimal,
    if_pos ⟨decimal_ne_nil, hn⟩]

theorem run_read_octet (index : Nat) (octet : UInt8) (hrest : Stops 10 rest) :
    (read_octet index).run (separator '.' index ++ (decimal octet.toNat ++ rest)) =
      some (octet, rest) := by
  have hlt : octet.toNat < 256 := octet.toNat_lt
  have hcount : (decimal octet.toNat).length ≤ 3 :=
    (Nat.length_toDigits_le_iff (by decide) (by decide)).mpr (by omega)
  have hfits : digits_value 10 0 (decimal octet.toNat) ≤ u8_MAX := by
    rw [digits_value_decimal]
    exact Nat.le_of_lt_succ hlt
  have hread := run_read_number_some false decimal_ne_nil to_digit_of_mem_decimal hrest
    (.inr (decimal_leading_zero _)) hcount hfits
  rw [read_octet, run_bind_some ((run_read_separator ..).trans hread), run_pure,
    digits_value_decimal, UInt8.ofNat_toNat]

theorem run_read_ipv4_addr (ip : Ipv4Addr) (hrest : Stops 10 rest) :
    read_ipv4_addr.run (ip.fmt ++ rest) = some (ip, rest) := by
  obtain ⟨⟨octets, hlen⟩⟩ := ip
  obtain ⟨one, two, three, four, rfl⟩ := List.length_eq_four.mp hlen
  have hdot : ∀ index text, Stops 10 (separator '.' (index + 1) ++ text) :=
    fun index text => stops_cons (by decide)
  have htext : Ipv4Addr.fmt ⟨[one, two, three, four], hlen⟩ ++ rest =
      separator '.' 0 ++ (decimal one.toNat ++ (separator '.' 1 ++ (decimal two.toNat ++
        (separator '.' 2 ++ (decimal three.toNat ++ (separator '.' 3 ++
          (decimal four.toNat ++ rest))))))) := by
    simp [Ipv4Addr.fmt, separator, List.intercalate]
  rw [htext, read_ipv4_addr, run_bind_some (run_read_octet 0 one (hdot 0 _)),
    run_bind_some (run_read_octet 1 two (hdot 1 _)),
    run_bind_some (run_read_octet 2 three (hdot 2 _)),
    run_bind_some (run_read_octet 3 four hrest), run_pure]

theorem endsAt_read_ipv4_addr (hdigit : to_digit 10 c = none) (hdot : c ≠ '.') :
    EndsAt c read_ipv4_addr := by
  have hoctet : ∀ index, EndsAt c (read_octet index) := fun index =>
    (endsAt_read_separator hdot (endsAt_read_number (by decide) hdigit _ _ _) index).bind fun _ =>
      .pure _
  exact (hoctet 0).bind fun _ => (hoctet 1).bind fun _ => (hoctet 2).bind fun _ =>
    (hoctet 3).bind fun _ => .pure _

theorem endsAt_colon_read_ipv4_addr : EndsAt ':' read_ipv4_addr :=
  endsAt_read_ipv4_addr (by decide) (by decide)

-- Without a dot, a text is no IPv4 address, and does not begin with one.
theorem run_read_ipv4_addr_none {text : List Char} (hdot : '.' ∉ text) :
    read_ipv4_addr.run text = none := by
  by_contra h
  obtain ⟨⟨ip, rest⟩, hread⟩ := Option.ne_none_iff_exists'.mp h
  obtain ⟨one, mid, hone, hmore⟩ := of_run_bind hread
  obtain ⟨two, _, htwo, -⟩ := of_run_bind hmore
  obtain ⟨_, _, hoctet, -⟩ := of_run_bind htwo
  obtain ⟨_, _, hgiven, -⟩ := of_run_bind hoctet
  rw [of_run_given hgiven] at hone
  exact hdot (((read_octet 0).suffix hone).mem List.mem_cons_self)

end Addresses

end Net

end AlphaRay
