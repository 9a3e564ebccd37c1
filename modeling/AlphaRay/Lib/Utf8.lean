import Mathlib.Data.List.Basic

namespace AlphaRay.Lib.Utf8

def encode (chars : List Char) : List UInt8 := chars.flatMap String.utf8EncodeChar

-- The character at the front, when the bytes there are well formed.
def decode_char (bytes : List UInt8) : Option Char := bytes.toByteArray.utf8DecodeChar? 0

def is_continuation (b : UInt8) : Bool := 0x80 ≤ b && b ≤ 0xBF

-- Whether `c` may follow the leading byte `b`. Overlong forms, surrogates and what
-- lies beyond U+10FFFF are excluded here.
def may_follow (b c : UInt8) : Bool :=
  if b = 0xE0 then 0xA0 ≤ c && c ≤ 0xBF
  else if b = 0xED then 0x80 ≤ c && c ≤ 0x9F
  else if b = 0xF0 then 0x90 ≤ c && c ≤ 0xBF
  else if b = 0xF4 then 0x80 ≤ c && c ≤ 0x8F
  else 0xC2 ≤ b && b ≤ 0xF4 && is_continuation c

-- The length of the ill-formed piece at the front: the longest beginning of a
-- character, or a single byte.
def ill_formed_len : List UInt8 → Nat
  | b :: c :: rest =>
      if may_follow b c then
        match rest with
        | d :: _ => if 0xF0 ≤ b && is_continuation d then 3 else 2
        | [] => 2
      else 1
  | _ => 1

-- Every ill-formed piece becomes one U+FFFD. The fuel is the number of bytes.
def decode_lossy : Nat → List UInt8 → List Char
  | 0, _ => []
  | _, [] => []
  | fuel + 1, bytes =>
      match decode_char bytes with
      | some c => c :: decode_lossy fuel (bytes.drop c.utf8Size)
      | none => Char.ofNat 0xFFFD :: decode_lossy fuel (bytes.drop (ill_formed_len bytes))

theorem length_utf8EncodeChar_pos (c : Char) : 0 < (String.utf8EncodeChar c).length := by
  rw [String.length_utf8EncodeChar]
  exact c.utf8Size_pos

theorem decode_char_append (c : Char) (bytes : List UInt8) :
    decode_char (String.utf8EncodeChar c ++ bytes) = some c := by
  rw [decode_char, List.toByteArray_append]
  exact ByteArray.utf8DecodeChar?_utf8EncodeChar_append

-- What was encoded is decoded without a loss.
theorem decode_lossy_encode (chars : List Char) (fuel : Nat)
    (hfuel : (encode chars).length ≤ fuel) : decode_lossy fuel (encode chars) = chars := by
  induction chars generalizing fuel with
  | nil => cases fuel <;> rfl
  | cons c chars ih =>
      have hpos := length_utf8EncodeChar_pos c
      have hencode : encode (c :: chars) = String.utf8EncodeChar c ++ encode chars := rfl
      simp only [hencode, List.length_append] at hfuel ⊢
      obtain ⟨fuel, rfl⟩ : ∃ k, fuel = k + 1 := ⟨fuel - 1, by omega⟩
      have hne : String.utf8EncodeChar c ++ encode chars ≠ [] :=
        List.append_ne_nil_of_left_ne_nil (List.ne_nil_of_length_pos hpos) _
      have hdrop : (String.utf8EncodeChar c ++ encode chars).drop c.utf8Size = encode chars := by
        rw [← String.length_utf8EncodeChar, List.drop_left]
      rw [decode_lossy, decode_char_append]
      · simp only [hdrop, ih fuel (by omega)]
      · exact hne

end AlphaRay.Lib.Utf8

namespace AlphaRay

-- `str::as_bytes`
def as_bytes (s : String) : List UInt8 := s.toByteArray.data.toList

-- `String::from_utf8_lossy`
def from_utf8_lossy (bytes : List UInt8) : String :=
  String.ofList (Lib.Utf8.decode_lossy bytes.length bytes)

theorem as_bytes_eq_encode (s : String) : as_bytes s = Lib.Utf8.encode s.toList := by
  rw [as_bytes, ← String.utf8Encode_toList, List.utf8Encode, List.toList_data_toByteArray,
    Lib.Utf8.encode]

@[simp] theorem from_utf8_lossy_as_bytes (s : String) : from_utf8_lossy (as_bytes s) = s := by
  rw [from_utf8_lossy, as_bytes_eq_encode, Lib.Utf8.decode_lossy_encode _ _ (Nat.le_refl _),
    String.ofList_toList]

-- two of the three bytes of a character, then a letter
example : from_utf8_lossy [0xE0, 0xA0, 0x41] = String.ofList [Char.ofNat 0xFFFD, 'A'] := by
  decide

end AlphaRay
