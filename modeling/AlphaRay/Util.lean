import AlphaRay.Io
import AlphaRay.Lib.Async
import AlphaRay.Lib.Checked
import AlphaRay.Lib.Utf8

namespace AlphaRay

open Lib

structure Uuid where
  octets : Octets 16
  deriving DecidableEq

def Uuid.bytes (id : Uuid) : List UInt8 := id.octets.bytes

structure Ipv4Addr where
  octets : Octets 4
  deriving DecidableEq

structure Ipv6Addr where
  octets : Octets 16
  deriving DecidableEq

inductive IpAddr where
  | V4 (ip : Ipv4Addr)
  | V6 (ip : Ipv6Addr)
  deriving DecidableEq

inductive SocketAddr where
  | V4 (ip : Ipv4Addr) (port : UInt16)
  | V6 (ip : Ipv6Addr) (port : UInt16) (flowinfo scope_id : UInt32)
  deriving DecidableEq

def SocketAddr.new : IpAddr → UInt16 → SocketAddr
  | .V4 ip, port => .V4 ip port
  | .V6 ip, port => .V6 ip port 0 0

inductive TargetAddr where
  | SocketAddr (addr : SocketAddr)
  | Domain (host : String) (port : UInt16)
  deriving DecidableEq

-- A buffer that is filled chunk by chunk. `chunk_mut` gives the length of the room
-- it offers next, which may make it grow, and `advance_mut` follows the bytes that
-- were put at the front of that room.
class BufMut (B : Type) where
  bytes : B → List UInt8
  remaining_mut : B → Nat
  chunk_mut : B → Nat × B
  advance_mut : B → List UInt8 → B
  bytes_chunk_mut : ∀ buf, bytes (chunk_mut buf).2 = bytes buf
  bytes_advance_mut : ∀ buf filled, bytes (advance_mut buf filled) = bytes buf ++ filled
  chunk_mut_pos : ∀ buf, 0 < remaining_mut buf → 0 < (chunk_mut buf).1

structure BytesMut where
  bytes : List UInt8
  capacity : Nat
  le_capacity : bytes.length ≤ capacity
  deriving DecidableEq

namespace BytesMut

def with_capacity (capacity : Nat) : BytesMut := ⟨[], capacity, Nat.zero_le _⟩

-- A vector that grows at least doubles.
def reserve (buf : BytesMut) (additional : Nat) : BytesMut where
  bytes := buf.bytes
  capacity :=
    if buf.bytes.length + additional ≤ buf.capacity then buf.capacity
    else max (2 * buf.capacity) (buf.bytes.length + additional)
  le_capacity := by
    have := buf.le_capacity
    split <;> omega

-- A full buffer makes room for 64 bytes more.
def chunk_mut (buf : BytesMut) : Nat × BytesMut :=
  let buf := if buf.capacity = buf.bytes.length then buf.reserve 64 else buf
  (buf.capacity - buf.bytes.length, buf)

-- More than the room that was offered is never put in.
def advance_mut (buf : BytesMut) (filled : List UInt8) : BytesMut where
  bytes := buf.bytes ++ filled
  capacity := max buf.capacity (buf.bytes ++ filled).length
  le_capacity := Nat.le_max_right _ _

def remaining_mut (buf : BytesMut) : Nat := usize_MAX - buf.bytes.length

-- `Buf::advance` drops bytes at the front, and the room they took.
def advance (buf : BytesMut) (cnt : Nat) : Except Panic BytesMut :=
  if cnt ≤ buf.bytes.length then
    .ok {
      bytes := buf.bytes.drop cnt
      capacity := buf.capacity - cnt
      le_capacity := by
        rw [List.length_drop]
        exact Nat.sub_le_sub_right buf.le_capacity cnt }
  else .error .IndexOutOfBounds

theorem chunk_mut_of_lt (buf : BytesMut) (h : buf.bytes.length < buf.capacity) :
    buf.chunk_mut = (buf.capacity - buf.bytes.length, buf) := by
  have hne : buf.capacity ≠ buf.bytes.length := by omega
  simp only [chunk_mut, hne, if_false]

theorem chunk_mut_pos (buf : BytesMut) : 0 < buf.chunk_mut.1 := by
  have hle := buf.le_capacity
  by_cases hfull : buf.capacity = buf.bytes.length
  · simp only [chunk_mut, hfull, if_true, reserve]
    split <;> omega
  · rw [chunk_mut_of_lt buf (by omega)]
    exact Nat.sub_pos_of_lt (by omega)

instance : BufMut BytesMut where
  bytes := bytes
  remaining_mut := remaining_mut
  chunk_mut := chunk_mut
  advance_mut := advance_mut
  bytes_chunk_mut buf := by
    simp only [chunk_mut]
    split <;> rfl
  bytes_advance_mut _ _ := rfl
  chunk_mut_pos buf _ := buf.chunk_mut_pos

end BytesMut

variable {S B : Type} [AsyncStream S] [BufMut B]

def await {α : Type} (poll : S → Poll (IoResult α) × S) : Async S IoError α :=
  .wait fun io =>
    match poll io with
    | (.Ready reply, io) => (some reply, io)
    | (.Pending, io) => (none, io)

-- `AsyncReadExt::read_buf`, on the stream and the buffer.
def poll_read_buf (st : S × B) : Option (IoResult Nat) × S × B :=
  let (io, buf) := st
  if BufMut.remaining_mut buf = 0 then (some (.ok 0), io, buf)
  else
    let (room, buf) := BufMut.chunk_mut buf
    match AsyncStream.poll_read io room with
    | (.Ready (.ok filled), io) => (some (.ok filled.length), io, BufMut.advance_mut buf filled)
    | (.Ready (.error e), io) => (some (.error e), io, buf)
    | (.Pending, io) => (none, io, buf)

def read_buf : Async (S × B) IoError Nat := .wait poll_read_buf

-- A round of the loop of `read_buf_exact`.
def read_more (needed_len total_n : Nat) : Async (S × B) IoError (Pass Nat Unit) := do
  if total_n < needed_len then
    let n ← read_buf
    if n = 0 then throw ErrorKind.UnexpectedEof.into
    else return .again (total_n + n)
  else return .leave ()

-- `AsyncStreamExt::read_buf_exact`, on the stream and the buffer.
def read_buf_exact (needed_len : Nat) : Async (S × B) IoError Unit := do
  let (_, buf) ← Async.peek
  if BufMut.remaining_mut buf < needed_len then throw ⟨.Other, "buffer too small"⟩
  else .repeat_until (read_more needed_len) 0

-- `AsyncWriteExt::write_all_buf`
def write_all_buf (bytes : List UInt8) : Async S IoError Unit :=
  .repeat_until (fun bytes => do
    if bytes = [] then return .leave ()
    else
      let n ← await fun io => AsyncStream.poll_write io bytes
      if n = 0 then throw ErrorKind.WriteZero.into
      else return .again (bytes.drop n)) bytes

-- `AsyncWriteExt::flush`
def flush : Async S IoError Unit := await AsyncStream.poll_flush

end AlphaRay
