import AlphaRay.Error
import AlphaRay.Net.Literal

namespace AlphaRay

open Lib Net

inductive ParseIntError where
  | Empty
  | InvalidDigit
  | PosOverflow
  deriving DecidableEq

def ParseIntError.to_string : ParseIntError → String
  | Empty => "cannot parse integer from empty string"
  | InvalidDigit => "invalid digit found in string"
  | PosOverflow => "number too large to fit in target type"

-- The digits of a `u16`, behind what was read of it.
def u16_from_digits (result : Nat) : List Char → Except ParseIntError Nat
  | [] => .ok result
  | c :: digits =>
      match to_digit 10 c with
      | none => .error .InvalidDigit
      | some digit =>
          if u16_MAX < result * 10 then .error .PosOverflow
          else if u16_MAX < result * 10 + digit then .error .PosOverflow
          else u16_from_digits (result * 10 + digit) digits

-- `port.parse::<u16>()`
def u16_from_str (text : List Char) : Except ParseIntError UInt16 :=
  if text = [] then .error .Empty
  else if text = ['+'] ∨ text = ['-'] then .error .InvalidDigit
  else
    let digits := if text.head? = some '+' then text.tail else text
    (u16_from_digits 0 digits).map UInt16.ofNat

def trim_start_matches (target : Char) (text : List Char) : List Char :=
  text.dropWhile (· = target)

namespace TargetAddr

def from_str (s : String) : Except AlphaRayError TargetAddr :=
  match SocketAddr.from_str s with
  | some a => .ok (.SocketAddr a)
  | none =>
      match rfind ':' s.toList with
      | some i =>
          let (host, port) := s.toList.splitAt i
          match u16_from_str (trim_start_matches ':' port) with
          | .ok port => .ok (.Domain (String.ofList host) port)
          | .error e => .error (.Other e.to_string)
      | none => .error (.Other ("invalid addr: " ++ s))

def to_string : TargetAddr → String
  | .SocketAddr a => String.ofList a.fmt
  | .Domain d p => d ++ ":" ++ String.ofList (decimal p.toNat)

end TargetAddr

theorem u16_from_digits_eq_ok {result n : Nat} {digits : List Char} (hresult : result ≤ u16_MAX) :
    u16_from_digits result digits = .ok n ↔ (∀ c ∈ digits, to_digit 10 c ≠ none) ∧
      digits_value 10 result digits ≤ u16_MAX ∧ n = digits_value 10 result digits := by
  induction digits generalizing result with
  | nil => simp [u16_from_digits, digits_value, hresult, eq_comm]
  | cons c digits ih =>
      rw [u16_from_digits, List.forall_mem_cons]
      cases hdigit : to_digit 10 c with
      | none => simp
      | some digit =>
          have hle := le_digits_value (show 1 < 10 by decide) (result * 10 + digit) digits
          rw [digits_value_cons hdigit]
          dsimp only
          split_ifs with hmul hadd
          · refine iff_of_false (by simp) fun h => ?_
            omega
          · refine iff_of_false (by simp) fun h => ?_
            omega
          · rw [ih (by omega)]
            simp

theorem u16_from_digits_eq_ok_port {digits : List Char} (hne : digits ≠ []) {port : UInt16} :
    (u16_from_digits 0 digits).map UInt16.ofNat = .ok port ↔
      Port digits ∧ port = UInt16.ofNat (Nat.ofDigitChars 10 digits 0) := by
  constructor
  · intro h
    cases hread : u16_from_digits 0 digits with
    | error e =>
        rw [hread] at h
        cases h
    | ok n =>
        rw [hread] at h
        cases h
        obtain ⟨hdigits, hfits, rfl⟩ := (u16_from_digits_eq_ok (Nat.zero_le _)).mp hread
        have hisDigit : ∀ c ∈ digits, c.isDigit := fun c hc => isDigit_iff.mp (hdigits c hc)
        rw [digits_value_ten hisDigit] at hfits ⊢
        exact ⟨⟨hne, hisDigit, hfits⟩, rfl⟩
  · rintro ⟨hport, rfl⟩
    have hread := (u16_from_digits_eq_ok (Nat.zero_le _)).mpr
      ⟨fun c hc => isDigit_iff.mpr (hport.digits c hc),
        (digits_value_ten hport.digits 0).trans_le hport.fits, rfl⟩
    rw [hread, digits_value_ten hport.digits]
    rfl

theorem not_port_of_head {c : Char} {digits : List Char} (hc : c.isDigit = false) :
    ¬ Port (c :: digits) := fun h => by
  rw [h.digits c List.mem_cons_self] at hc
  cases hc

-- A port may have a sign here.
theorem u16_from_str_eq_ok {text : List Char} {port : UInt16} :
    u16_from_str text = .ok port ↔ ∃ digits, Port digits ∧ (text = digits ∨ text = '+' :: digits) ∧
      port = UInt16.ofNat (Nat.ofDigitChars 10 digits 0) := by
  unfold u16_from_str
  split_ifs with hempty hlone hsigned
  · refine iff_of_false (by simp) ?_
    rintro ⟨digits, hport, rfl | rfl, -⟩
    · exact hport.ne_nil hempty
    · cases hempty
  · refine iff_of_false (by simp) ?_
    rintro ⟨digits, hport, rfl | rfl, -⟩
    · rcases hlone with rfl | rfl
      · exact not_port_of_head (by decide) hport
      · exact not_port_of_head (by decide) hport
    · rcases hlone with h | h
      · cases h
        exact hport.ne_nil rfl
      · cases h
  · obtain ⟨c, digits, rfl⟩ := List.exists_cons_of_ne_nil hempty
    obtain rfl : c = '+' := Option.some.inj hsigned
    have hne : digits ≠ [] := by
      rintro rfl
      exact hlone (.inl rfl)
    dsimp only
    rw [List.tail_cons, u16_from_digits_eq_ok_port hne]
    constructor
    · rintro ⟨hport, rfl⟩
      exact ⟨digits, hport, .inr rfl, rfl⟩
    · rintro ⟨digits', hport, rfl | hcons, rfl⟩
      · exact absurd hport (not_port_of_head (by decide))
      · cases hcons
        exact ⟨hport, rfl⟩
  · dsimp only
    rw [u16_from_digits_eq_ok_port hempty]
    constructor
    · rintro ⟨hport, rfl⟩
      exact ⟨text, hport, .inl rfl, rfl⟩
    · rintro ⟨digits, hport, rfl | rfl, rfl⟩
      · exact ⟨hport, rfl⟩
      · exact absurd rfl hsigned

-- A port behind its colon, with a sign or without.
def PortText (text digits : List Char) : Prop :=
  Port digits ∧ (text = digits ∨ text = '+' :: digits)

theorem PortText.colon_not_mem {text digits : List Char} (h : PortText text digits) :
    ':' ∉ text := by
  obtain ⟨hport, rfl | rfl⟩ := h
  · exact hport.colon_not_mem
  · simpa using hport.colon_not_mem

theorem trim_start_matches_cons {target : Char} {text : List Char} (h : target ∉ text) :
    trim_start_matches target (target :: text) = text := by
  rw [trim_start_matches, List.dropWhile_cons_of_pos (by simp)]
  cases text with
  | nil => rfl
  | cons c text =>
      have hc : c ≠ target := fun hc => h (hc ▸ List.mem_cons_self)
      exact List.dropWhile_cons_of_neg (by simpa using hc)

namespace TargetAddr

theorem from_str_of_literal {s : String} {a : AlphaRay.SocketAddr}
    (hs : SocketAddr.from_str s = some a) :
    from_str s = .ok (.SocketAddr a) := by
  rw [from_str, hs]

-- Without a literal, what is behind the last colon is read as a port.
theorem from_str_eq_ok {s : String} {t : TargetAddr} (hs : SocketAddr.from_str s = none) :
    from_str s = .ok t ↔ ∃ host text digits, s.toList = host ++ ':' :: text ∧
      PortText text digits ∧
      t = .Domain (String.ofList host) (UInt16.ofNat (Nat.ofDigitChars 10 digits 0)) := by
  rw [from_str, hs]
  cases hplace : rfind ':' s.toList with
  | none =>
      refine iff_of_false (by simp) ?_
      rintro ⟨host, text, digits, hsplit, -⟩
      rw [rfind_eq_none_iff, hsplit] at hplace
      exact hplace (by simp)
  | some i =>
      obtain ⟨host, text, hsplit, htext, rfl⟩ := of_rfind hplace
      dsimp only
      rw [hsplit, List.splitAt_eq, List.take_left, List.drop_left, trim_start_matches_cons htext]
      constructor
      · intro h
        cases hread : u16_from_str text with
        | error e =>
            rw [hread] at h
            cases h
        | ok port =>
            rw [hread] at h
            cases h
            obtain ⟨digits, hport, hsign, rfl⟩ := u16_from_str_eq_ok.mp hread
            exact ⟨host, text, digits, rfl, ⟨hport, hsign⟩, rfl⟩
      · rintro ⟨host', text', digits, hcut, hport, rfl⟩
        obtain ⟨rfl, rfl⟩ := append_cons_inj htext hport.colon_not_mem hcut
        rw [u16_from_str_eq_ok.mpr ⟨digits, hport.1, hport.2, rfl⟩]

end TargetAddr

end AlphaRay
