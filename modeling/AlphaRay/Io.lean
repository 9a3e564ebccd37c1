import Mathlib.Data.List.Basic

namespace AlphaRay

inductive Poll (α : Type) where
  | Ready (value : α)
  | Pending
  deriving DecidableEq

-- `Os` stands for every kind that the code neither makes nor compares with.
inductive ErrorKind where
  | WouldBlock
  | WriteZero
  | UnexpectedEof
  | InvalidData
  | Other
  | Os (code : Nat)
  deriving DecidableEq

structure IoError where
  kind : ErrorKind
  message : String
  deriving DecidableEq

-- `ErrorKind::into`: an error that carries no text of its own.
def ErrorKind.into (kind : ErrorKind) : IoError := ⟨kind, ""⟩

abbrev IoResult (α : Type) := Except IoError α

instance decidableEqExcept {ε α : Type} [DecidableEq ε] [DecidableEq α] :
    DecidableEq (Except ε α)
  | .ok a, .ok b => decidable_of_iff (a = b) ⟨congrArg _, Except.ok.inj⟩
  | .error e, .error f => decidable_of_iff (e = f) ⟨congrArg _, Except.error.inj⟩
  | .ok _, .error _ => isFalse nofun
  | .error _, .ok _ => isFalse nofun

-- The bytes filled so far and the room that is left after them.
structure ReadBuf where
  filled : List UInt8
  remaining : Nat
  deriving DecidableEq

def ReadBuf.new (capacity : Nat) : ReadBuf := ⟨[], capacity⟩

def ReadBuf.put_slice (buf : ReadBuf) (bytes : List UInt8) : ReadBuf :=
  ⟨buf.filled ++ bytes, buf.remaining - bytes.length⟩

@[simp] theorem ReadBuf.put_slice_filled (buf : ReadBuf) (bytes : List UInt8) :
    (buf.put_slice bytes).filled = buf.filled ++ bytes := rfl

@[simp] theorem ReadBuf.put_slice_remaining (buf : ReadBuf) (bytes : List UInt8) :
    (buf.put_slice bytes).remaining = buf.remaining - bytes.length := rfl

@[simp] theorem ReadBuf.put_slice_nil (buf : ReadBuf) : buf.put_slice [] = buf := by
  simp [put_slice]

-- The stream under an endpoint. Its state is arbitrary, so it may follow any
-- plan of readiness, short reads, short writes, errors and ends of stream.
class AsyncStream (S : Type) where
  poll_read : S → Nat → Poll (IoResult (List UInt8)) × S
  poll_write : S → List UInt8 → Poll (IoResult Nat) × S
  poll_flush : S → Poll (IoResult Unit) × S
  poll_shutdown : S → Poll (IoResult Unit) × S
  length_le_of_poll_read : ∀ io room bytes,
    (poll_read io room).1 = .Ready (.ok bytes) → bytes.length ≤ room
  le_length_of_poll_write : ∀ io bytes n,
    (poll_write io bytes).1 = .Ready (.ok n) → n ≤ bytes.length

-- A stream that is not ready says so by `Pending`, never by an error.
structure NeverWouldBlock (S : Type) [AsyncStream S] : Prop where
  poll_read : ∀ (io : S) room e, (AsyncStream.poll_read io room).1 = .Ready (.error e) →
    e.kind ≠ .WouldBlock
  poll_write : ∀ (io : S) bytes e, (AsyncStream.poll_write io bytes).1 = .Ready (.error e) →
    e.kind ≠ .WouldBlock

-- States of the stream in which it takes bytes, and will go on to.
def Accepting {S : Type} [AsyncStream S] (accepts : S → Prop) : Prop :=
  ∀ io bytes, accepts io → bytes ≠ [] → ∃ n next,
    AsyncStream.poll_write io bytes = (.Ready (.ok n), next) ∧ 0 < n ∧ accepts next

-- One call of the inner stream and what it replied.
inductive Event where
  | read (room : Nat) (reply : Poll (IoResult (List UInt8)))
  | write (bytes : List UInt8) (reply : Poll (IoResult Nat))
  | flush (reply : Poll (IoResult Unit))
  | shutdown (reply : Poll (IoResult Unit))
  deriving DecidableEq

namespace Event

def isPending : Event → Bool
  | read _ .Pending | write _ .Pending | flush .Pending | shutdown .Pending => true
  | _ => false

def isWrite : Event → Bool
  | write _ _ => true
  | _ => false

-- Replies of `poll_write` that leave bytes behind without an error.
def isStalledWrite : Event → Bool
  | write _ .Pending | write _ (.Ready (.ok 0)) => true
  | _ => false

def isZeroWrite : Event → Bool
  | write _ (.Ready (.ok 0)) => true
  | _ => false

theorem isStalledWrite_of_isZeroWrite {e : Event} (h : e.isZeroWrite = true) :
    e.isStalledWrite = true := by
  unfold isZeroWrite at h
  split at h
  · rfl
  · cases h

-- Calls of `poll_write` that took nothing.
def isRefusedWrite : Event → Bool
  | write _ (.Ready (.ok n)) => n == 0
  | write _ _ => true
  | _ => false

-- The bytes that the inner stream took in this call.
def taken : Event → List UInt8
  | write bytes (.Ready (.ok n)) => bytes.take n
  | _ => []

@[simp] theorem taken_read (room : Nat) (reply : Poll (IoResult (List UInt8))) :
    (read room reply).taken = [] := rfl

@[simp] theorem taken_flush (reply : Poll (IoResult Unit)) : (flush reply).taken = [] := rfl

@[simp] theorem taken_shutdown (reply : Poll (IoResult Unit)) : (shutdown reply).taken = [] := rfl

-- The bytes that the inner stream gave out in this call.
def arrived : Event → List UInt8
  | read _ (.Ready (.ok bytes)) => bytes
  | _ => []

@[simp] theorem arrived_write (bytes : List UInt8) (reply : Poll (IoResult Nat)) :
    (write bytes reply).arrived = [] := rfl

@[simp] theorem arrived_flush (reply : Poll (IoResult Unit)) : (flush reply).arrived = [] := rfl

@[simp] theorem arrived_shutdown (reply : Poll (IoResult Unit)) :
    (shutdown reply).arrived = [] := rfl

end Event

-- A stream that behaves as the one it wraps and keeps a log of its calls.
structure Recorded (S : Type) where
  stream : S
  log : List Event
  deriving DecidableEq

namespace Recorded

variable {S : Type}

def new (stream : S) : Recorded S := ⟨stream, []⟩

-- Everything the inner stream has taken, in order.
def delivered (io : Recorded S) : List UInt8 := io.log.flatMap Event.taken

-- Everything the inner stream has given out, in order.
def arrived (io : Recorded S) : List UInt8 := io.log.flatMap Event.arrived

theorem delivered_of_log {io next : Recorded S} {e : Event} (h : next.log = io.log ++ [e]) :
    next.delivered = io.delivered ++ e.taken := by
  simp [delivered, h]

theorem arrived_of_log {io next : Recorded S} {e : Event} (h : next.log = io.log ++ [e]) :
    next.arrived = io.arrived ++ e.arrived := by
  simp [arrived, h]

-- A call like `p` was made after the first `count` ones.
def Since (count : Nat) (p : Event → Prop) (io : Recorded S) : Prop :=
  ∃ e ∈ io.log.drop count, p e

theorem Since.mono {count : Nat} {p : Event → Prop} {io next : Recorded S}
    (h : io.Since count p) (hlog : io.log <+: next.log) : next.Since count p := by
  obtain ⟨e, hmem, he⟩ := h
  obtain ⟨more, hlog⟩ := hlog
  refine ⟨e, ?_, he⟩
  rw [← hlog, List.drop_append]
  exact List.mem_append_left _ hmem

theorem Since.imp {count : Nat} {p q : Event → Prop} {io : Recorded S}
    (h : io.Since count p) (hpq : ∀ e, p e → q e) : io.Since count q := by
  obtain ⟨e, hmem, he⟩ := h
  exact ⟨e, hmem, hpq e he⟩

theorem Since.of_le {count earlier : Nat} {p : Event → Prop} {io : Recorded S}
    (h : io.Since count p) (hle : earlier ≤ count) : io.Since earlier p := by
  obtain ⟨e, hmem, he⟩ := h
  exact ⟨e, List.drop_subset_drop_left _ hle hmem, he⟩

theorem since_of_log {count : Nat} {p : Event → Prop} {io next : Recorded S} {e : Event}
    (hcount : count ≤ io.log.length) (hlog : next.log = io.log ++ [e]) (he : p e) :
    next.Since count p := by
  refine ⟨e, ?_, he⟩
  rw [hlog, List.drop_append_of_le_length hcount]
  exact List.mem_append_right _ (List.mem_singleton_self e)

instance [AsyncStream S] : AsyncStream (Recorded S) where
  poll_read io room :=
    let (reply, stream) := AsyncStream.poll_read io.stream room
    (reply, ⟨stream, io.log ++ [.read room reply]⟩)
  poll_write io bytes :=
    let (reply, stream) := AsyncStream.poll_write io.stream bytes
    (reply, ⟨stream, io.log ++ [.write bytes reply]⟩)
  poll_flush io :=
    let (reply, stream) := AsyncStream.poll_flush io.stream
    (reply, ⟨stream, io.log ++ [.flush reply]⟩)
  poll_shutdown io :=
    let (reply, stream) := AsyncStream.poll_shutdown io.stream
    (reply, ⟨stream, io.log ++ [.shutdown reply]⟩)
  length_le_of_poll_read io room := AsyncStream.length_le_of_poll_read io.stream room
  le_length_of_poll_write io bytes := AsyncStream.le_length_of_poll_write io.stream bytes

variable [AsyncStream S]

theorem poll_read_eq {io : Recorded S} {room : Nat} {reply : Poll (IoResult (List UInt8))}
    {next : S} (h : AsyncStream.poll_read io.stream room = (reply, next)) :
    AsyncStream.poll_read io room = (reply, ⟨next, io.log ++ [.read room reply]⟩) := by
  simp only [AsyncStream.poll_read] at h ⊢
  rw [h]

theorem poll_write_eq {io : Recorded S} {bytes : List UInt8} {reply : Poll (IoResult Nat)}
    {next : S} (h : AsyncStream.poll_write io.stream bytes = (reply, next)) :
    AsyncStream.poll_write io bytes = (reply, ⟨next, io.log ++ [.write bytes reply]⟩) := by
  simp only [AsyncStream.poll_write] at h ⊢
  rw [h]

theorem log_of_poll_read {io next : Recorded S} {room : Nat} {reply : Poll (IoResult (List UInt8))}
    (h : AsyncStream.poll_read io room = (reply, next)) :
    next.log = io.log ++ [.read room reply] := by
  cases h
  rfl

theorem log_of_poll_write {io next : Recorded S} {bytes : List UInt8} {reply : Poll (IoResult Nat)}
    (h : AsyncStream.poll_write io bytes = (reply, next)) :
    next.log = io.log ++ [.write bytes reply] := by
  cases h
  rfl

theorem log_of_poll_flush {io next : Recorded S} {reply : Poll (IoResult Unit)}
    (h : AsyncStream.poll_flush io = (reply, next)) : next.log = io.log ++ [.flush reply] := by
  cases h
  rfl

theorem log_of_poll_shutdown {io next : Recorded S} {reply : Poll (IoResult Unit)}
    (h : AsyncStream.poll_shutdown io = (reply, next)) : next.log = io.log ++ [.shutdown reply] := by
  cases h
  rfl

theorem neverWouldBlock (h : NeverWouldBlock S) : NeverWouldBlock (Recorded S) where
  poll_read io := h.poll_read io.stream
  poll_write io := h.poll_write io.stream

end Recorded

end AlphaRay
