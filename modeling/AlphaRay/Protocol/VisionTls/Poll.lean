import AlphaRay.Protocol.Tls
import AlphaRay.Protocol.VisionTls

namespace AlphaRay

open Lib Async

namespace VisionTlsStream

variable {S C R : Type}

-- The adapter of this stream reads as the one of `TlsStream` does. It reports a write
-- that took nothing as an error.
def SyncAdapter.write [AsyncStream S] (io : S) (buf : List UInt8) : IoResult Nat × S :=
  let (reply, io) := AsyncStream.poll_write io buf
  match reply with
  | .Ready (.ok n) => (if n = 0 ∧ buf ≠ [] then .error ErrorKind.WriteZero.into else .ok n, io)
  | .Ready (.error e) => (.error e, io)
  | .Pending => (.error ErrorKind.WouldBlock.into, io)

section Reading

variable [AsyncStream S] [Connection C]

-- A read has the caller's buffer at hand, next to the stream.
abbrev Reading (S C R α : Type) := Async (VisionTlsStream S C R × ReadBuf) Exit α

def unframe : Reading S C R (IoResult Nat) :=
  .act fun (st, buf) => st.unframe_read_buf buf

def remaining : Reading S C R Nat := .act fun (st, buf) => (buf.remaining, st, buf)

def reader_read (len : Nat) : Reading S C R (IoResult (List UInt8)) :=
  .act fun (st, buf) =>
    let (result, session) := Connection.reader_read st.session len
    (result, { st with session := session }, buf)

def read_tls : Reading S C R (IoResult Nat) :=
  .act fun (st, buf) =>
    let (n, session, inner) := Connection.read_tls SyncAdapter.read st.session st.inner
    (n, { st with inner := inner, session := session }, buf)

def process_new_packets : Reading S C R (Except String Unit) :=
  .act fun (st, buf) =>
    let (result, session) := Connection.process_new_packets st.session
    (result, { st with session := session }, buf)

def extend_read_buf (bytes : List UInt8) : Reading S C R Unit :=
  .act fun (st, buf) => ((), { st with read_buf := st.read_buf ++ bytes }, buf)

-- The rest of a round of the loop of `poll_read`, when the reader has nothing.
def pull_round : Reading S C R (Pass Unit Unit) := do
  -- inner cipher to rustls buf
  match ← read_tls with
  | .ok read_cipher_len =>
      match ← process_new_packets with
      | .ok () =>
          match ← reader_read 4096 with
          | .ok bytes =>
              if bytes = [] then
                if read_cipher_len = 0 then return .leave () else return .again ()
              else
                extend_read_buf bytes
                return .again ()
          | .error e => throw (.of e)
      | .error e => throw (.Err ⟨.InvalidData, e⟩)
  | .error e => throw (.of e)

def read_round : Reading S C R (Pass Unit Unit) := do
  -- read buf plaintext to buf
  match ← unframe with
  | .ok n =>
      if 0 < n then return .leave ()
      else if (← remaining) = 0 then return .leave ()
      else
        -- rustls buf vision to read buf
        match ← reader_read 4096 with
        | .ok bytes =>
            if bytes = [] then pull_round
            else
              extend_read_buf bytes
              return .again ()
        | .error e => if e.kind = .WouldBlock then pull_round else throw (.Err e)
  | .error e => throw (.Err e)

def poll_read : Reading S C R Unit := .repeat_until (fun _ => read_round) ()

-- A read with room for `len` bytes, with the bytes that it was filled with. What the
-- caller's buffer holds before them is never looked at.
def read (len : Nat) : Async (VisionTlsStream S C R) Exit (List UInt8) := do
  let ((), buf) ← Async.with_var (ReadBuf.new len) poll_read
  return buf.filled

end Reading

section Writing

variable [AsyncStream S] [Connection C]

def unwritten : Async (VisionTlsStream S C R) Exit (List UInt8) := .act fun st => (st.write_buf, st)

-- `Writer::write` takes no more than it is given, so this does not panic.
def advance (n : Nat) : Async (VisionTlsStream S C R) Exit Unit :=
  .act fun st => ((), { st with write_buf := st.write_buf.drop n })

-- A stream whose framing panicked is not polled again, so it is left as it was.
def frame [Rng R] (buf : List UInt8) : Async (VisionTlsStream S C R) Exit Unit := do
  match (← Async.peek).frame_buf buf with
  | .ok st => .act fun _ => ((), st)
  | .error panic => throw (.Panicked panic)

def wants_write : Async (VisionTlsStream S C R) Exit Bool :=
  .act fun st => (Connection.wants_write st.session, st)

def writer_write (buf : List UInt8) : Async (VisionTlsStream S C R) Exit (IoResult Nat) :=
  .act fun st =>
    let (result, session) := Connection.writer_write st.session buf
    (result, { st with session := session })

def write_tls : Async (VisionTlsStream S C R) Exit (IoResult Nat) :=
  .act fun st =>
    let (n, session, inner) := Connection.write_tls SyncAdapter.write st.session st.inner
    (n, { st with inner := inner, session := session })

def send_close_notify : Async (VisionTlsStream S C R) Exit Unit :=
  .act fun st => ((), { st with session := Connection.send_close_notify st.session })

def inner_flush : Async (VisionTlsStream S C R) Exit (Poll (IoResult Unit)) :=
  .act fun st =>
    let (reply, inner) := AsyncStream.poll_flush st.inner
    (reply, { st with inner := inner })

def inner_shutdown : Async (VisionTlsStream S C R) Exit (Poll (IoResult Unit)) :=
  .act fun st =>
    let (reply, inner) := AsyncStream.poll_shutdown st.inner
    (reply, { st with inner := inner })

-- A round of the first loop of `poll_write`: write buf vision to rustls buf.
def drain_round : Async (VisionTlsStream S C R) Exit (Pass Unit Unit) := do
  let write_buf ← unwritten
  if write_buf = [] then return .leave ()
  else
    match ← writer_write write_buf with
    | .ok n =>
        if n = 0 then
          -- rustls buf cipher to inner
          match ← write_tls with
          | .ok _ => return .again ()
          | .error e => throw (.of e)
        else
          advance n
          return .again ()
    | .error e => throw (.Err e)

-- A round of the second loop, which expects the writer to take something.
def fill_round : Async (VisionTlsStream S C R) Exit (Pass Unit Unit) := do
  let write_buf ← unwritten
  if write_buf = [] then return .leave ()
  else
    match ← writer_write write_buf with
    | .ok n =>
        advance n
        return .again ()
    | .error e => throw (.Err e)

-- A round of the third loop, which gives up when the inner stream is not ready.
def send_round : Async (VisionTlsStream S C R) Exit (Pass Unit Unit) := do
  if ← wants_write then
    match ← write_tls with
    | .ok _ => return .again ()
    | .error e => if e.kind = .WouldBlock then return .leave () else throw (.Err e)
  else return .leave ()

def poll_write [Rng R] (buf : List UInt8) : Async (VisionTlsStream S C R) Exit Nat := do
  .repeat_until (fun _ => drain_round) ()
  let len_to_write := min buf.length 65535
  -- buf plaintext to write buf
  frame (buf.take len_to_write)
  .repeat_until (fun _ => fill_round) ()
  .repeat_until (fun _ => send_round) ()
  return len_to_write

-- A round of the loop of `poll_flush` and of `poll_shutdown`.
def flush_round : Async (VisionTlsStream S C R) Exit (Pass Unit Unit) := do
  if ← wants_write then
    match ← write_tls with
    | .ok _ => return .again ()
    | .error e => throw (.of e)
  else return .leave ()

def poll_flush : Async (VisionTlsStream S C R) Exit Unit := do
  .repeat_until (fun _ => flush_round) ()
  forward (← inner_flush)

def poll_shutdown : Async (VisionTlsStream S C R) Exit Unit := do
  send_close_notify
  .repeat_until (fun _ => flush_round) ()
  forward (← inner_shutdown)

end Writing

-- A call of the owner that returns.
def Step [AsyncStream S] [Connection C] [Rng R] (st : VisionTlsStream S C R) (call : Call)
    (after : VisionTlsStream S C R) : Prop :=
  match call with
  | .read len outcome => ∃ fuel, (read len).run fuel st = some (outcome, after)
  | .write buf outcome => ∃ fuel, (poll_write buf).run fuel st = some (outcome, after)
  | .flush outcome => ∃ fuel, poll_flush.run fuel st = some (outcome, after)
  | .shutdown outcome => ∃ fuel, poll_shutdown.run fuel st = some (outcome, after)

end VisionTlsStream

end AlphaRay
