import AlphaRay.Util

namespace AlphaRay

open Lib

inductive VlessError where
  | Io (error : IoError)
  | InvalidVersion (version : UInt8)
  | InvalidCommand (command : UInt8)
  | InvalidAddrKind (kind : UInt8)
  deriving DecidableEq

inductive VlessCommand where
  | Tcp
  | Udp
  | Mux
  deriving DecidableEq

namespace VlessCommand

-- `command as u8`
def as_u8 : VlessCommand → UInt8
  | Tcp => 1
  | Udp => 2
  | Mux => 3

def try_from (value : UInt8) : Except VlessError VlessCommand :=
  if value = 1 then .ok Tcp
  else if value = 2 then .ok Udp
  else if value = 3 then .ok Mux
  else .error (.InvalidCommand value)

@[simp] theorem try_from_as_u8 (command : VlessCommand) :
    try_from command.as_u8 = .ok command := by
  cases command <;> rfl

theorem eq_as_u8_of_try_from {value : UInt8} {command : VlessCommand}
    (h : try_from value = .ok command) : value = command.as_u8 := by
  unfold try_from at h
  split_ifs at h with h₁ h₂ h₃ <;> cases h
  · exact h₁
  · exact h₂
  · exact h₃

end VlessCommand

inductive VlessVersion where
  | Zero
  deriving DecidableEq

namespace VlessVersion

def as_u8 : VlessVersion → UInt8
  | Zero => 0

def try_from (value : UInt8) : Except VlessError VlessVersion :=
  if value = 0 then .ok Zero else .error (.InvalidVersion value)

@[simp] theorem try_from_as_u8 (version : VlessVersion) :
    try_from version.as_u8 = .ok version := by
  cases version
  rfl

end VlessVersion

structure VlessRequest where
  version : VlessVersion
  id : Uuid
  command : VlessCommand
  target : TargetAddr
  deriving DecidableEq

structure VlessStream (S : Type) where
  inner : S
  buf : BytesMut
  is_handshake_done : Bool

def VlessStream.new {S : Type} (stream : S) : VlessStream S where
  inner := stream
  buf := .with_capacity 256
  is_handshake_done := false

-- The bytes that `connect` puts into its buffer.
def VlessRequest.to_bytes (req : VlessRequest) : List UInt8 :=
  [req.version.as_u8] ++ req.id.bytes ++ [0] ++ [req.command.as_u8] ++
    match req.target with
    | .SocketAddr (.V4 ip port) => u16_to_be_bytes port ++ [1] ++ ip.octets.bytes
    | .Domain domain port =>
        u16_to_be_bytes port ++ [2] ++ [UInt8.ofNat (as_bytes domain).length] ++ as_bytes domain
    | .SocketAddr (.V6 ip port _ _) => u16_to_be_bytes port ++ [3] ++ ip.octets.bytes

section

variable {S : Type} [AsyncStream S]

-- `write_all_buf` and `flush`, with `?` on both.
def write_and_flush (bytes : List UInt8) : Async S (Fault VlessError) Unit :=
  .map_err (fun e => .Failed (.Io e)) do
    write_all_buf bytes
    flush

def VlessStream.connect (req : VlessRequest) : Async (VlessStream S) (Fault VlessError) Unit :=
  .zoom VlessStream.inner (fun st inner => { st with inner := inner })
    (write_and_flush req.to_bytes)

end

-- Where a request is read from: a stream, or bytes that are all there.
class ReadExact (m : Type → Type) where
  read_exact : Nat → m (List UInt8)

-- A buffer of `n` bytes, filled by `read_buf_exact`.
def fill_buf {S : Type} [AsyncStream S] (n : Nat) : Async S IoError (List UInt8) := do
  let (_, buf) ← Async.with_var (BytesMut.with_capacity n) (read_buf_exact n)
  return buf.bytes

instance {S : Type} [AsyncStream S] : ReadExact (Async S (Fault VlessError)) where
  read_exact n := .map_err (fun e => .Failed (.Io e)) (fill_buf n)

section

variable {m : Type → Type} [Monad m] [MonadExceptOf (Fault VlessError) m] [ReadExact m]

open ReadExact

-- A call that may stop the program, and a call followed by `?`.
def checked {α : Type} : Except Panic α → m α
  | .ok a => return a
  | .error panic => throw (.Panicked panic)

def fallible {α : Type} : Except VlessError α → m α
  | .ok a => return a
  | .error e => throw (.Failed e)

def read_target (kind : UInt8) (port : UInt16) : m TargetAddr := do
  if kind = 1 then
    let ip ← read_exact 4
    let ip ← checked (Octets.try_into 4 ip)
    return .SocketAddr (.new (.V4 ⟨ip⟩) port)
  else if kind = 2 then
    let domain_len ← read_exact 1
    let (domain_len, _) ← checked (get_u8 domain_len)
    let domain ← read_exact domain_len.toNat
    return .Domain (from_utf8_lossy domain) port
  else if kind = 3 then
    let ip ← read_exact 16
    let ip ← checked (Octets.try_into 16 ip)
    return .SocketAddr (.new (.V6 ⟨ip⟩) port)
  else throw (.Failed (.InvalidAddrKind kind))

-- The fields that stand in the header behind the addons.
def read_fields (version : VlessVersion) (id : Uuid) (header : List UInt8) : m VlessRequest := do
  let (command, header) ← checked (get_u8 header)
  let command ← fallible (VlessCommand.try_from command)
  let (port, header) ← checked (get_u16 header)
  let (kind, _) ← checked (get_u8 header)
  let target ← read_target kind port
  return { version := version, id := id, command := command, target := target }

-- `accept` up to its response.
-- version(1) + uuid(16) + addons_len(1) + command(1) + port(2) + addr_kind(1) = 22
def read_request : m VlessRequest := do
  let header ← read_exact 22
  let (version, header) ← checked (get_u8 header)
  let version ← fallible (VlessVersion.try_from version)
  let (id, header) ← checked (copy_to_bytes header 16)
  let id ← checked (Octets.try_into 16 id)
  let (addons_len, header) ← checked (get_u8 header)
  if addons_len ≠ 0 then
    -- skip addons
    let _ ← read_exact addons_len.toNat
    read_fields version ⟨id⟩ header
  else read_fields version ⟨id⟩ header

end

namespace VlessProtocol

variable {S : Type} [AsyncStream S]

def send_response : Async S (Fault VlessError) Unit :=
  write_and_flush [VlessVersion.Zero.as_u8, 0]

def accept : Async S (Fault VlessError) VlessRequest := do
  let req ← read_request
  send_response
  return req

end VlessProtocol

end AlphaRay
