import AlphaRay.Io.Calls
import AlphaRay.Rustls

namespace AlphaRay

open Lib

namespace SyncAdapter

variable {S : Type} [AsyncStream S]

def read (io : S) (room : Nat) : IoResult (List UInt8) × S :=
  match AsyncStream.poll_read io room with
  | (.Ready (.ok filled), io) => (.ok filled, io)
  | (.Ready (.error e), io) => (.error e, io)
  | (.Pending, io) => (.error ErrorKind.WouldBlock.into, io)

def write (io : S) (buf : List UInt8) : IoResult Nat × S :=
  match AsyncStream.poll_write io buf with
  | (.Ready (.ok n), io) => (.ok n, io)
  | (.Ready (.error e), io) => (.error e, io)
  | (.Pending, io) => (.error ErrorKind.WouldBlock.into, io)

end SyncAdapter

structure TlsStream (S C : Type) where
  inner : S
  session : C
  eof : Bool

namespace TlsStream

variable {S C : Type}

def new (inner : S) (session : C) : TlsStream S C where
  inner := inner
  session := session
  eof := false

variable [AsyncStream S] [Connection C]

-- The fields, and the calls of the session and of the inner stream, one by one.
def eof_flag : Async (TlsStream S C) Exit Bool := .act fun st => (st.eof, st)

def set_eof : Async (TlsStream S C) Exit Unit := .act fun st => ((), { st with eof := true })

def wants_write : Async (TlsStream S C) Exit Bool :=
  .act fun st => (Connection.wants_write st.session, st)

def is_handshaking : Async (TlsStream S C) Exit Bool :=
  .act fun st => (Connection.is_handshaking st.session, st)

def write_tls : Async (TlsStream S C) Exit (IoResult Nat) :=
  .act fun st =>
    let (n, session, inner) := Connection.write_tls SyncAdapter.write st.session st.inner
    (n, { st with inner := inner, session := session })

def read_tls : Async (TlsStream S C) Exit (IoResult Nat) :=
  .act fun st =>
    let (n, session, inner) := Connection.read_tls SyncAdapter.read st.session st.inner
    (n, { st with inner := inner, session := session })

def process_new_packets : Async (TlsStream S C) Exit (Except String Unit) :=
  .act fun st =>
    let (result, session) := Connection.process_new_packets st.session
    (result, { st with session := session })

def reader_read (len : Nat) : Async (TlsStream S C) Exit (IoResult (List UInt8)) :=
  .act fun st =>
    let (result, session) := Connection.reader_read st.session len
    (result, { st with session := session })

def writer_write (buf : List UInt8) : Async (TlsStream S C) Exit (IoResult Nat) :=
  .act fun st =>
    let (result, session) := Connection.writer_write st.session buf
    (result, { st with session := session })

def send_close_notify : Async (TlsStream S C) Exit Unit :=
  .act fun st => ((), { st with session := Connection.send_close_notify st.session })

def inner_flush : Async (TlsStream S C) Exit (Poll (IoResult Unit)) :=
  .act fun st =>
    let (reply, inner) := AsyncStream.poll_flush st.inner
    (reply, { st with inner := inner })

def inner_shutdown : Async (TlsStream S C) Exit (Poll (IoResult Unit)) :=
  .act fun st =>
    let (reply, inner) := AsyncStream.poll_shutdown st.inner
    (reply, { st with inner := inner })

-- A round of the loop of `flush_tls`.
def flush_round : Async (TlsStream S C) Exit (Pass Unit Unit) := do
  if ← wants_write then
    match ← write_tls with
    | .ok n =>
        if n = 0 then
          -- Reached EOF while writing
          set_eof
          return .leave ()
        else return .again ()
    | .error e => throw (.of e)
  else return .leave ()

def flush_tls : Async (TlsStream S C) Exit Unit := .repeat_until (fun _ => flush_round) ()

def drive_tls_readable : Async (TlsStream S C) Exit Unit := do
  flush_tls
  match ← read_tls with
  | .ok n =>
      -- Reached EOF while reading
      if n = 0 then set_eof
      else
        match ← process_new_packets with
        | .ok () => flush_tls
        | .error e => throw (.Err ⟨.InvalidData, e⟩)
  | .error e => throw (.of e)

-- The loop with which `poll_read` and `poll_write` begin.
def handshake_round : Async (TlsStream S C) Exit (Pass Unit Unit) := do
  let handshaking ← is_handshaking
  let eof ← eof_flag
  if handshaking && !eof then
    drive_tls_readable
    return .again ()
  else return .leave ()

def complete_handshake : Async (TlsStream S C) Exit Unit :=
  .repeat_until (fun _ => handshake_round) ()

-- A round of the second loop of `poll_read`.
def read_round (remaining : Nat) : Async (TlsStream S C) Exit (Pass Unit (List UInt8)) := do
  if ← eof_flag then return .leave []
  else
    match ← reader_read remaining with
    | .ok bytes =>
        if bytes = [] then
          drive_tls_readable
          return .again ()
        else return .leave bytes
    | .error e =>
        if e.kind = .WouldBlock then
          drive_tls_readable
          return .again ()
        else throw (.Err e)

def poll_read (remaining : Nat) : Async (TlsStream S C) Exit (List UInt8) := do
  if ← eof_flag then return []
  else
    complete_handshake
    .repeat_until (fun _ => read_round remaining) ()

-- `flush_tls` where its `Pending` is taken for success.
def try_flush : Async (TlsStream S C) Exit Unit := do
  match ← Async.attempt flush_tls with
  | .ok () => return ()
  | .error .Pending => return ()
  | .error e => throw e

-- A round of the second loop of `poll_write`.
def write_round (buf : List UInt8) : Async (TlsStream S C) Exit (Pass Unit Nat) := do
  match ← writer_write buf with
  | .ok n =>
      if n = 0 then
        flush_tls
        return .again ()
      else
        try_flush
        return .leave n
  | .error e =>
      if e.kind = .WouldBlock then
        flush_tls
        return .again ()
      else throw (.Err e)

def poll_write (buf : List UInt8) : Async (TlsStream S C) Exit Nat := do
  if ← eof_flag then return 0
  else
    complete_handshake
    try_flush -- do not prevent below code
    if buf = [] then return 0
    else .repeat_until (fun _ => write_round buf) ()

def poll_flush : Async (TlsStream S C) Exit Unit := do
  if ← eof_flag then return ()
  else
    flush_tls
    forward (← inner_flush)

def poll_shutdown : Async (TlsStream S C) Exit Unit := do
  if ← eof_flag then return ()
  else
    send_close_notify
    flush_tls
    forward (← inner_shutdown)

-- A call of the owner that returns.
def Step (st : TlsStream S C) (call : Call) (after : TlsStream S C) : Prop :=
  match call with
  | .read remaining outcome => ∃ fuel, (poll_read remaining).run fuel st = some (outcome, after)
  | .write buf outcome => ∃ fuel, (poll_write buf).run fuel st = some (outcome, after)
  | .flush outcome => ∃ fuel, poll_flush.run fuel st = some (outcome, after)
  | .shutdown outcome => ∃ fuel, poll_shutdown.run fuel st = some (outcome, after)

end TlsStream

end AlphaRay
