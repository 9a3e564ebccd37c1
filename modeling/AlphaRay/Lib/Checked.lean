import Mathlib.Data.List.Basic

namespace AlphaRay

-- The ways in which the arithmetic and the slices of a debug build stop the program.
inductive Panic where
  | IndexOutOfBounds
  | Overflow
  | EmptyRange
  | Unwrap
  deriving DecidableEq

-- A call that may fail may also be stopped.
inductive Fault (ε : Type) where
  | Panicked (panic : Panic)
  | Failed (error : ε)
  deriving DecidableEq

def usize_MAX : Nat := 18446744073709551615

variable {α : Type}

def index (xs : List α) (i : Nat) : Except Panic α :=
  match xs[i]? with
  | some x => .ok x
  | none => .error .IndexOutOfBounds

-- `xs[start..stop]`
def slice (xs : List α) (start stop : Nat) : Except Panic (List α) :=
  if start ≤ stop ∧ stop ≤ xs.length then .ok ((xs.drop start).take (stop - start))
  else .error .IndexOutOfBounds

def usize_sub (a b : Nat) : Except Panic Nat :=
  if b ≤ a then .ok (a - b) else .error .Overflow

def u16_add (a b : UInt16) : Except Panic UInt16 :=
  if a.toNat + b.toNat ≤ 65535 then .ok (a + b) else .error .Overflow

def u16_saturating_sub (a b : UInt16) : UInt16 := UInt16.ofNat (a.toNat - b.toNat)

-- `BufMut::put_u16`: the high byte first.
def u16_to_be_bytes (x : UInt16) : List UInt8 :=
  [UInt8.ofNat (x.toNat / 256), UInt8.ofNat (x.toNat % 256)]

def u16_from_be_bytes : List UInt8 → UInt16
  | [high, low] => UInt16.ofNat (high.toNat * 256 + low.toNat)
  | _ => 0

-- A byte array of a known length.
structure Octets (n : Nat) where
  bytes : List UInt8
  length_eq : bytes.length = n
  deriving DecidableEq

-- `bytes.try_into().unwrap()`
def Octets.try_into (n : Nat) (bytes : List UInt8) : Except Panic (Octets n) :=
  if h : bytes.length = n then .ok ⟨bytes, h⟩ else .error .Unwrap

-- `Buf::copy_to_bytes`, `Buf::get_u8` and `Buf::get_u16` take from the front.
def copy_to_bytes (bytes : List UInt8) (n : Nat) : Except Panic (List UInt8 × List UInt8) :=
  if n ≤ bytes.length then .ok (bytes.take n, bytes.drop n) else .error .IndexOutOfBounds

def get_u8 : List UInt8 → Except Panic (UInt8 × List UInt8)
  | b :: rest => .ok (b, rest)
  | [] => .error .IndexOutOfBounds

def get_u16 : List UInt8 → Except Panic (UInt16 × List UInt8)
  | high :: low :: rest => .ok (u16_from_be_bytes [high, low], rest)
  | _ => .error .IndexOutOfBounds

-- A sequence that is not stopped has no step that is.
theorem of_bind_ok {ε β : Type} {x : Except ε α} {f : α → Except ε β} {b : β}
    (h : (x >>= f) = .ok b) : ∃ a, x = .ok a ∧ f a = .ok b := by
  cases x with
  | error e => cases h
  | ok a => exact ⟨a, rfl, h⟩

theorem index_of_lt (xs : List α) (i : Nat) (hi : i < xs.length) : index xs i = .ok xs[i] := by
  simp [index, hi]

theorem slice_of_le (xs : List α) (start stop : Nat) (hle : start ≤ stop)
    (hlen : stop ≤ xs.length) : slice xs start stop = .ok ((xs.drop start).take (stop - start)) := by
  simp [slice, hle, hlen]

theorem usize_sub_of_le (a b : Nat) (h : b ≤ a) : usize_sub a b = .ok (a - b) := by
  simp [usize_sub, h]

theorem u16_add_of_le (a b : UInt16) (h : a.toNat + b.toNat ≤ 65535) :
    u16_add a b = .ok (a + b) := by
  simp [u16_add, h]

theorem copy_to_bytes_append (bytes rest : List UInt8) (n : Nat) (h : bytes.length = n) :
    copy_to_bytes (bytes ++ rest) n = .ok (bytes, rest) := by
  subst h
  simp [copy_to_bytes]

theorem Octets.try_into_bytes {n : Nat} (octets : Octets n) :
    Octets.try_into n octets.bytes = .ok octets := by
  simp [try_into, octets.length_eq]

@[simp] theorem length_u16_to_be_bytes (x : UInt16) : (u16_to_be_bytes x).length = 2 := rfl

theorem u16_from_be_bytes_to_be_bytes (x : UInt16) :
    u16_from_be_bytes (u16_to_be_bytes x) = x := by
  apply UInt16.toNat_inj.mp
  have hx := x.toNat_lt
  simp only [u16_to_be_bytes, u16_from_be_bytes, UInt16.toNat_ofNat', UInt8.toNat_ofNat']
  omega

theorem u16_to_be_bytes_from_be_bytes (high low : UInt8) :
    u16_to_be_bytes (u16_from_be_bytes [high, low]) = [high, low] := by
  have hhigh := high.toNat_lt
  have hlow := low.toNat_lt
  have hvalue : (u16_from_be_bytes [high, low]).toNat = high.toNat * 256 + low.toNat := by
    rw [u16_from_be_bytes, UInt16.toNat_ofNat', Nat.mod_eq_of_lt (by omega)]
  have hdiv : (high.toNat * 256 + low.toNat) / 256 = high.toNat := by omega
  have hmod : (high.toNat * 256 + low.toNat) % 256 = low.toNat := by omega
  rw [u16_to_be_bytes, hvalue, hdiv, hmod, UInt8.ofNat_toNat, UInt8.ofNat_toNat]

end AlphaRay
