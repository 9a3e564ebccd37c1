import AlphaRay.Io.Calls
import AlphaRay.Protocol.Vless

namespace AlphaRay

open Lib

-- The header of a response ends behind its addons.
def VlessResponseDecoder.decode (src : BytesMut) :
    Except Panic (IoResult (Option Unit) × BytesMut) :=
  if src.bytes.length < 2 then return (.ok none, src)
  else do
    let addons_len ← index src.bytes 1
    let header_len := 2 + addons_len.toNat
    if src.bytes.length < header_len then return (.ok none, src)
    else
      let src ← src.advance header_len
      return (.ok (some ()), src)

namespace VlessStream

variable {S : Type} [AsyncStream S]

-- The fields, and the calls of the inner stream, one by one.
def handshake_done : Async (VlessStream S) Exit Bool := .act fun st => (st.is_handshake_done, st)

def set_handshake_done : Async (VlessStream S) Exit Unit :=
  .act fun st => ((), { st with is_handshake_done := true })

def chunk_mut : Async (VlessStream S) Exit Nat :=
  .act fun st =>
    let (room, buf) := st.buf.chunk_mut
    (room, { st with buf := buf })

def inner_read (room : Nat) : Async (VlessStream S) Exit (Poll (IoResult (List UInt8))) :=
  .act fun st =>
    let (reply, inner) := AsyncStream.poll_read st.inner room
    (reply, { st with inner := inner })

def advance_mut (filled : List UInt8) : Async (VlessStream S) Exit Unit :=
  .act fun st => ((), { st with buf := st.buf.advance_mut filled })

def decode : Async (VlessStream S) Exit (IoResult (Option Unit)) := do
  match VlessResponseDecoder.decode (← Async.peek).buf with
  | .ok (result, buf) => .act fun st => (result, { st with buf := buf })
  | .error panic => throw (.Panicked panic)

-- One read into the room that the buffer offers.
def read_chunk : Async (VlessStream S) Exit (List UInt8) := do
  let room ← chunk_mut
  forward (← inner_read room)

-- What the loop of `poll_read` makes of the decoder's answer.
def decode_round : Async (VlessStream S) Exit (Pass Unit Unit) := do
  match ← decode with
  | .ok (some ()) =>
      set_handshake_done
      return .leave ()
  | .ok none => return .again ()
  | .error e => throw (.Err e)

-- A round of that loop.
def handshake_round : Async (VlessStream S) Exit (Pass Unit Unit) := do
  let filled ← read_chunk
  if filled = [] then throw (.Err ⟨.UnexpectedEof, "EOF during handshake"⟩)
  else
    advance_mut filled
    decode_round

-- At most `len` of the bytes that were read along with the header.
def take_buffered (len : Nat) : Async (VlessStream S) Exit (List UInt8) := do
  let buf := (← Async.peek).buf
  match slice buf.bytes 0 len, buf.advance len with
  | .ok bytes, .ok buf => .act fun st => (bytes, { st with buf := buf })
  | .error panic, _ | _, .error panic => throw (.Panicked panic)

-- Place actual data back.
def read_payload (remaining : Nat) : Async (VlessStream S) Exit (List UInt8) := do
  let buf := (← Async.peek).buf.bytes
  if buf = [] then forward (← inner_read remaining)
  else take_buffered (min remaining buf.length)

def poll_read (remaining : Nat) : Async (VlessStream S) Exit (List UInt8) := do
  if ← handshake_done then read_payload remaining
  else
    .repeat_until (fun _ => handshake_round) ()
    read_payload remaining

-- The other calls are those of the inner stream.
def poll_write (buf : List UInt8) : Async (VlessStream S) Exit Nat := do
  forward (← .act fun st =>
    let (reply, inner) := AsyncStream.poll_write st.inner buf
    (reply, { st with inner := inner }))

def poll_flush : Async (VlessStream S) Exit Unit := do
  forward (← .act fun st =>
    let (reply, inner) := AsyncStream.poll_flush st.inner
    (reply, { st with inner := inner }))

def poll_shutdown : Async (VlessStream S) Exit Unit := do
  forward (← .act fun st =>
    let (reply, inner) := AsyncStream.poll_shutdown st.inner
    (reply, { st with inner := inner }))

-- A call by the owner.
inductive Step (st : VlessStream S) : Call → VlessStream S → Prop
  | read (remaining : Nat) (outcome : Except Exit (List UInt8)) (after : VlessStream S) :
      (poll_read remaining).Returns st outcome after → Step st (.read remaining outcome) after
  | write (buf : List UInt8) (outcome : Except Exit Nat) (after : VlessStream S) :
      (poll_write buf).Returns st outcome after → Step st (.write buf outcome) after
  | flush (outcome : Except Exit Unit) (after : VlessStream S) :
      poll_flush.Returns st outcome after → Step st (.flush outcome) after
  | shutdown (outcome : Except Exit Unit) (after : VlessStream S) :
      poll_shutdown.Returns st outcome after → Step st (.shutdown outcome) after

end VlessStream

end AlphaRay
