import AlphaRay.Lib.Digits
import AlphaRay.Lib.Scanner
import AlphaRay.Util
import Mathlib.Data.List.TakeDrop

namespace AlphaRay

open Lib

def u8_MAX : Nat := 255
def u16_MAX : Nat := 65535
def u32_MAX : Nat := 4294967295

-- The addresses of `std::net` as text: how they are read, and how they are printed.
namespace Net

open Scanner

-- The separator is only read in front of what is not the first.
def read_separator {α : Type} (sep : Char) (index : Nat) (inner : Scanner α) : Scanner α :=
  if 0 < index then do given sep; inner else inner

-- One digit more. A number with a bound on its digits is not checked on the way.
def push_digit (radix : Nat) (max_digits : Option Nat) (MAX : Nat) (read : Nat × Nat)
    (digit : Nat) : Option (Nat × Nat) :=
  let (result, digit_count) := read
  match max_digits with
  | some max_digits =>
      if max_digits < digit_count + 1 then none
      else some (result * radix + digit, digit_count + 1)
  | none =>
      if MAX < result * radix then none
      else if MAX < result * radix + digit then none
      else some (result * radix + digit, digit_count + 1)

-- A number of the type whose largest value is `MAX`.
def read_number (radix : Nat) (max_digits : Option Nat) (allow_leading_zero : Bool) (MAX : Nat) :
    Scanner Nat := do
  let has_leading_zero ← next_is '0'
  let (result, digit_count) ←
    symbols (to_digit radix) (push_digit radix max_digits MAX) (0, 0)
  if digit_count = 0 then fail
  else if !allow_leading_zero && has_leading_zero && 1 < digit_count then fail
  else if max_digits.isSome && MAX < result then fail
  else return result

def read_octet (index : Nat) : Scanner UInt8 := do
  let octet ← read_separator '.' index (read_number 10 (some 3) false u8_MAX)
  return UInt8.ofNat octet

def read_ipv4_addr : Scanner Ipv4Addr := do
  let one ← read_octet 0
  let two ← read_octet 1
  let three ← read_octet 2
  let four ← read_octet 3
  return ⟨⟨[one, two, three, four], rfl⟩⟩

def read_group (index : Nat) : Scanner UInt16 := do
  let group ← read_separator ':' index (read_number 16 (some 4) true u16_MAX)
  return UInt16.ofNat group

-- Octets two by two.
def groups_of_octets : List UInt8 → List UInt16
  | high :: low :: rest => u16_from_be_bytes [high, low] :: groups_of_octets rest
  | _ => []

-- An IPv4 address at the end of an IPv6 one takes the place of two groups.
def read_embedded_ipv4 (index left : Nat) : Scanner (Option Ipv4Addr) :=
  if 1 < left then (read_separator ':' index read_ipv4_addr).optional else return none

-- The groups from `index` on, of which there is room for `left` ones, and whether the last
-- two are an IPv4 address.
def read_groups (index : Nat) : Nat → Scanner (List UInt16 × Bool)
  | 0 => return ([], false)
  | left + 1 => do
      match ← read_embedded_ipv4 index (left + 1) with
      | some ipv4 => return (groups_of_octets ipv4.octets.bytes, true)
      | none =>
          match ← (read_group index).optional with
          | some group =>
              let (groups, ipv4) ← read_groups (index + 1) left
              return (group :: groups, ipv4)
          | none => return ([], false)

end Net

theorem length_flatMap_to_be_bytes (groups : List UInt16) :
    (groups.flatMap u16_to_be_bytes).length = 2 * groups.length := by
  induction groups with
  | nil => rfl
  | cons group groups ih =>
      rw [List.flatMap_cons, List.length_append, length_u16_to_be_bytes, ih, List.length_cons]
      omega

-- An array of eight groups, of which those behind the last one are zero.
def Ipv6Addr.from_segments (segments : List UInt16) : Ipv6Addr where
  octets := ⟨(segments.takeD 8 0).flatMap u16_to_be_bytes, by
    have hlen : (segments.takeD 8 0).length = 8 := List.takeD_length ..
    rw [length_flatMap_to_be_bytes, hlen]⟩

namespace Net

open Scanner

def read_ipv6_addr : Scanner Ipv6Addr := do
  let (head, head_ipv4) ← read_groups 0 8
  if head.length = 8 then return .from_segments head
  else if head_ipv4 then fail
  else
    given ':'
    given ':'
    let (tail, _) ← read_groups 0 (8 - (head.length + 1))
    return .from_segments (head.takeD (8 - tail.length) 0 ++ tail)

def read_port : Scanner UInt16 := do
  given ':'
  let port ← read_number 10 none true u16_MAX
  return UInt16.ofNat port

def read_scope_id : Scanner UInt32 := do
  given '%'
  let scope_id ← read_number 10 none true u32_MAX
  return UInt32.ofNat scope_id

def read_socket_addr_v4 : Scanner SocketAddr := do
  let ip ← read_ipv4_addr
  let port ← read_port
  return .V4 ip port

def read_socket_addr_v6 : Scanner SocketAddr := do
  given '['
  let ip ← read_ipv6_addr
  let scope_id ← read_scope_id.optional
  given ']'
  let port ← read_port
  return .V6 ip port 0 (scope_id.getD 0)

end Net

-- `s.parse::<SocketAddr>()`
def SocketAddr.from_str (s : String) : Option SocketAddr :=
  (Net.read_socket_addr_v4.or_else Net.read_socket_addr_v6).parse_with s.toList

def decimal (n : Nat) : List Char := Nat.toDigits 10 n

-- `{:x}`
def lower_hex (n : Nat) : List Char := Nat.toDigits 16 n

def Ipv4Addr.fmt (ip : Ipv4Addr) : List Char :=
  List.intercalate ['.'] (ip.octets.bytes.map fun octet => decimal octet.toNat)

namespace Ipv6Addr

def segments (ip : Ipv6Addr) : List UInt16 := Net.groups_of_octets ip.octets.bytes

def to_ipv4_mapped (ip : Ipv6Addr) : Option Ipv4Addr :=
  if ip.octets.bytes.take 12 = List.replicate 10 0 ++ [255, 255] then
    some ⟨⟨ip.octets.bytes.drop 12, by rw [List.length_drop, ip.octets.length_eq]⟩⟩
  else none

structure Span where
  start : Nat
  len : Nat
  deriving DecidableEq

-- A zero at `i` goes on with the current run, or begins one.
def Span.push (current : Span) (i : Nat) : Span where
  start := if current.len = 0 then i else current.start
  len := current.len + 1

-- The first of the longest runs of zeros in the segments from `i` on.
def longest_zeroes (i : Nat) (longest current : Span) : List UInt16 → Span
  | [] => longest
  | segment :: rest =>
      if segment = 0 then
        let current := current.push i
        longest_zeroes (i + 1) (if longest.len < current.len then current else longest)
          current rest
      else longest_zeroes (i + 1) longest ⟨0, 0⟩ rest

def fmt_subslice : List UInt16 → List Char
  | [] => []
  | first :: tail =>
      lower_hex first.toNat ++ tail.flatMap fun segment => ':' :: lower_hex segment.toNat

def fmt (ip : Ipv6Addr) : List Char :=
  match ip.to_ipv4_mapped with
  | some ipv4 => "::ffff:".toList ++ ipv4.fmt
  | none =>
      let zeroes := longest_zeroes 0 ⟨0, 0⟩ ⟨0, 0⟩ ip.segments
      if 1 < zeroes.len then
        fmt_subslice (ip.segments.take zeroes.start) ++ "::".toList ++
          fmt_subslice (ip.segments.drop (zeroes.start + zeroes.len))
      else fmt_subslice ip.segments

end Ipv6Addr

def SocketAddr.fmt : SocketAddr → List Char
  | .V4 ip port => ip.fmt ++ ':' :: decimal port.toNat
  | .V6 ip port _ scope_id =>
      '[' :: ip.fmt ++ (if scope_id = 0 then [] else '%' :: decimal scope_id.toNat) ++
        ']' :: ':' :: decimal port.toNat

end AlphaRay
