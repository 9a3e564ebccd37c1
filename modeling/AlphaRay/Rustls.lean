import AlphaRay.Io

namespace AlphaRay

-- The rustls connection is not part of this repository. It is a parameter: its
-- state and its calls are arbitrary, and each result names what it relies on.
-- `write_tls` and `read_tls` make at most one call of the stream they are given,
-- so they are split there: `sendable` is the slice that `write_tls` hands over
-- and `sent` records how much of it was taken; `prepare_read` is what `read_tls`
-- does before it reads (`none` when there is nothing to read any more, else the
-- room it offers) and `received` takes in what was read.
class Connection (C : Type) where
  is_server : C → Bool
  is_handshaking : C → Bool
  wants_write : C → Bool
  sendable : C → List UInt8
  sent : C → Nat → C
  prepare_read : C → IoResult (Option Nat) × C
  received : C → List UInt8 → C
  process_new_packets : C → Except String Unit × C
  reader_read : C → Nat → IoResult (List UInt8) × C
  writer_write : C → List UInt8 → IoResult Nat × C
  send_close_notify : C → C

namespace Connection

variable {S C : Type} [Connection C]

def write_tls (write : S → List UInt8 → IoResult Nat × S) (session : C) (io : S) :
    IoResult Nat × C × S :=
  if sendable session = [] then (.ok 0, session, io)
  else
    match write io (sendable session) with
    | (.ok n, io) => (.ok n, sent session n, io)
    | (.error e, io) => (.error e, session, io)

def read_tls (read : S → Nat → IoResult (List UInt8) × S) (session : C) (io : S) :
    IoResult Nat × C × S :=
  match prepare_read session with
  | (.error e, session) => (.error e, session, io)
  | (.ok none, session) => (.ok 0, session, io)
  | (.ok (some room), session) =>
      match read io room with
      | (.ok bytes, io) => (.ok bytes.length, received session bytes, io)
      | (.error e, io) => (.error e, session, io)

end Connection

-- What a TLS record carries.
inductive Content where
  | handshake
  | data (plain : List UInt8)
  | closeNotify
  | fatalAlert
  deriving DecidableEq

def Content.plain : Content → List UInt8
  | data plain => plain
  | _ => []

structure Record where
  content : Content
  cipher : List UInt8
  deriving DecidableEq

def plainOf (records : List Record) : List UInt8 := records.flatMap (·.content.plain)

def cipherOf (records : List Record) : List UInt8 := records.flatMap Record.cipher

@[simp] theorem plainOf_nil : plainOf [] = [] := rfl

@[simp] theorem cipherOf_nil : cipherOf [] = [] := rfl

@[simp] theorem plainOf_append (a b : List Record) : plainOf (a ++ b) = plainOf a ++ plainOf b := by
  simp [plainOf]

@[simp] theorem cipherOf_append (a b : List Record) :
    cipherOf (a ++ b) = cipherOf a ++ cipherOf b := by
  simp [cipherOf]

-- The sending half as an observer sees it: every record made so far, the
-- ciphertext not yet handed over, and the plaintext not yet made into records.
structure Outgoing where
  records : List Record
  queue : List UInt8
  held : List UInt8

-- `Outgoing.Adds out next bytes`: records were made from `bytes` and from what was held back.
def Outgoing.Adds (out next : Outgoing) (bytes : List UInt8) : Prop :=
  ∃ made, next.records = out.records ++ made ∧ next.queue = out.queue ++ cipherOf made ∧
    plainOf made ++ next.held = out.held ++ bytes

theorem Outgoing.Adds.refl (out : Outgoing) : out.Adds out [] :=
  ⟨[], by simp⟩

theorem Outgoing.Adds.trans {out mid next : Outgoing} {a b : List UInt8} (h : out.Adds mid a)
    (h' : mid.Adds next b) : out.Adds next (a ++ b) := by
  obtain ⟨made, hrecords, hqueue, hplain⟩ := h
  obtain ⟨made', hrecords', hqueue', hplain'⟩ := h'
  refine ⟨made ++ made', ?_, ?_, ?_⟩
  · rw [hrecords', hrecords, List.append_assoc]
  · rw [hqueue', hqueue, cipherOf_append, List.append_assoc]
  · rw [plainOf_append, List.append_assoc, hplain', ← List.append_assoc, hplain,
      List.append_assoc]

theorem Outgoing.Adds.held_eq_nil {out next : Outgoing} (h : out.Adds next [])
    (hheld : out.held = []) : next.held = [] := by
  obtain ⟨made, -, -, hplain⟩ := h
  rw [hheld] at hplain
  exact (List.append_eq_nil_iff.mp hplain).2

theorem Outgoing.Adds.mem {out next : Outgoing} {bytes : List UInt8} (h : out.Adds next bytes)
    {record : Record} (hmem : record ∈ out.records) : record ∈ next.records := by
  obtain ⟨made, hrecords, -⟩ := h
  rw [hrecords]
  exact List.mem_append_left _ hmem

-- The records are what was handed over and what still waits in the queue; their
-- plaintext is what was written, but for what is held back.
def Outgoing.Balanced (out : Outgoing) (delivered written : List UInt8) : Prop :=
  delivered ++ out.queue = cipherOf out.records ∧ plainOf out.records ++ out.held = written

theorem Outgoing.Balanced.adds {out next : Outgoing} {delivered written bytes : List UInt8}
    (h : out.Balanced delivered written) (hadds : out.Adds next bytes) :
    next.Balanced delivered (written ++ bytes) := by
  obtain ⟨hqueue, hheld⟩ := h
  obtain ⟨made, hrecords, hnext, hplain⟩ := hadds
  constructor
  · rw [hrecords, hnext, cipherOf_append, ← hqueue, List.append_assoc]
  · rw [hrecords, plainOf_append, List.append_assoc, hplain, ← hheld, List.append_assoc]

theorem Outgoing.Balanced.drop {out : Outgoing} {delivered written : List UInt8} {n : Nat}
    (h : out.Balanced delivered written) :
    Outgoing.Balanced { out with queue := out.queue.drop n } (delivered ++ out.queue.take n)
      written :=
  ⟨by rw [List.append_assoc, List.take_append_drop, h.1], h.2⟩

-- The sending half of a new connection: at most its first flight is queued.
structure Outgoing.Fresh (out : Outgoing) : Prop where
  queue_eq : out.queue = cipherOf out.records
  plain_eq : plainOf out.records = []
  held_eq : out.held = []

theorem Outgoing.Fresh.balanced {out : Outgoing} (h : out.Fresh) : out.Balanced [] [] :=
  ⟨h.queue_eq, by rw [h.plain_eq, h.held_eq]; rfl⟩

-- What rustls documents about sending.
class SendLaws (C : Type) [Connection C] where
  outgoing : C → Outgoing
  wants_write_iff : ∀ c : C, Connection.wants_write c = true ↔ (outgoing c).queue ≠ []
  sendable_le : ∀ c : C, Connection.sendable c <+: (outgoing c).queue
  sendable_ne_nil : ∀ c : C, (outgoing c).queue ≠ [] → Connection.sendable c ≠ []
  outgoing_sent : ∀ (c : C) (n : Nat), n ≤ (Connection.sendable c).length →
    outgoing (Connection.sent c n) = { outgoing c with queue := (outgoing c).queue.drop n }
  outgoing_prepare_read : ∀ c : C, outgoing (Connection.prepare_read c).2 = outgoing c
  outgoing_received : ∀ (c : C) (bytes : List UInt8),
    outgoing (Connection.received c bytes) = outgoing c
  outgoing_reader_read : ∀ (c : C) (len : Nat),
    outgoing (Connection.reader_read c len).2 = outgoing c
  adds_process_new_packets : ∀ c : C,
    (outgoing c).Adds (outgoing (Connection.process_new_packets c).2) []
  le_length_of_writer_write : ∀ (c : C) (bytes : List UInt8) (n : Nat),
    (Connection.writer_write c bytes).1 = .ok n → n ≤ bytes.length
  adds_writer_write : ∀ (c : C) (bytes : List UInt8) (n : Nat),
    (Connection.writer_write c bytes).1 = .ok n →
    (outgoing c).Adds (outgoing (Connection.writer_write c bytes).2) (bytes.take n)
  adds_writer_write_error : ∀ (c : C) (bytes : List UInt8) (e : IoError),
    (Connection.writer_write c bytes).1 = .error e →
    (outgoing c).Adds (outgoing (Connection.writer_write c bytes).2) []
  adds_send_close_notify : ∀ c : C,
    (outgoing c).Adds (outgoing (Connection.send_close_notify c)) []
  alerted_send_close_notify : ∀ c : C,
    (∃ record ∈ (outgoing (Connection.send_close_notify c)).records,
      record.content = .closeNotify) ∨
    ∃ record ∈ (outgoing c).records, record.content = .fatalAlert
  -- plaintext is held back only while the handshake goes on
  held_eq_nil : ∀ c : C, Connection.is_handshaking c = false → (outgoing c).held = []
  is_handshaking_sent : ∀ (c : C) (n : Nat),
    Connection.is_handshaking (Connection.sent c n) = Connection.is_handshaking c
  is_handshaking_writer_write : ∀ (c : C) (bytes : List UInt8),
    Connection.is_handshaking (Connection.writer_write c bytes).2 = Connection.is_handshaking c
  -- the writer takes what there is room for, and the end of the other direction does
  -- not stop it: with the queue empty it takes at least one byte
  writer_write_of_queue_nil : ∀ (c : C) (bytes : List UInt8),
    Connection.is_handshaking c = false → (outgoing c).queue = [] → bytes ≠ [] →
    ∃ n, 0 < n ∧ (Connection.writer_write c bytes).1 = .ok n

-- What rustls documents about its buffer limit: the writer takes what there is room for
-- and does not fail, and nothing but `write_tls` makes room.
class WriterLaws (C : Type) [Connection C] where
  room : C → Nat
  -- no key update waits for the next write, which would queue it
  settled : C → Prop
  writer_write_eq : ∀ (c : C) (bytes : List UInt8),
    (Connection.writer_write c bytes).1 = .ok (min bytes.length (room c))
  room_writer_write : ∀ (c : C) (bytes : List UInt8),
    room (Connection.writer_write c bytes).2 + min bytes.length (room c) ≤ room c
  settled_writer_write : ∀ (c : C) (bytes : List UInt8),
    settled (Connection.writer_write c bytes).2
  settled_sent : ∀ (c : C) (n : Nat), settled c → settled (Connection.sent c n)
  -- without room a write queues nothing else
  writer_write_full : ∀ (c : C) (bytes : List UInt8), settled c → room c = 0 →
    (Connection.writer_write c bytes).2 = c

-- And that what is sent takes no room.
class RoomLaws (C : Type) [Connection C] [WriterLaws C] : Prop where
  room_sent : ∀ (c : C) (n : Nat), n ≤ (Connection.sendable c).length →
    WriterLaws.room c ≤ WriterLaws.room (Connection.sent c n)

-- What rustls documents about the handshake: it is not begun again, and before it is
-- complete no plaintext is made into a record.
class HandshakeLaws (C : Type) [Connection C] [SendLaws C] where
  is_handshaking_prepare_read : ∀ c : C,
    Connection.is_handshaking (Connection.prepare_read c).2 = Connection.is_handshaking c
  is_handshaking_received : ∀ (c : C) (bytes : List UInt8),
    Connection.is_handshaking (Connection.received c bytes) = Connection.is_handshaking c
  is_handshaking_reader_read : ∀ (c : C) (len : Nat),
    Connection.is_handshaking (Connection.reader_read c len).2 = Connection.is_handshaking c
  is_handshaking_send_close_notify : ∀ c : C,
    Connection.is_handshaking (Connection.send_close_notify c) = Connection.is_handshaking c
  of_process_new_packets : ∀ c : C,
    Connection.is_handshaking (Connection.process_new_packets c).2 = true →
    Connection.is_handshaking c = true ∧
    plainOf (SendLaws.outgoing (Connection.process_new_packets c).2).records =
      plainOf (SendLaws.outgoing c).records
  plain_writer_write : ∀ (c : C) (bytes : List UInt8), Connection.is_handshaking c = true →
    plainOf (SendLaws.outgoing (Connection.writer_write c bytes).2).records =
      plainOf (SendLaws.outgoing c).records
  plain_send_close_notify : ∀ c : C,
    plainOf (SendLaws.outgoing (Connection.send_close_notify c)).records =
      plainOf (SendLaws.outgoing c).records

theorem wants_write_eq_false_iff {C : Type} [Connection C] [SendLaws C] (c : C) :
    Connection.wants_write c = false ↔ (SendLaws.outgoing c).queue = [] := by
  rw [← Bool.not_eq_true, SendLaws.wants_write_iff, not_not]

-- What is handed over stands at the front of the queue.
theorem take_sendable {C : Type} [Connection C] [SendLaws C] (c : C) {n : Nat}
    (hle : n ≤ (Connection.sendable c).length) :
    (Connection.sendable c).take n = (SendLaws.outgoing c).queue.take n := by
  obtain ⟨rest, hqueue⟩ := SendLaws.sendable_le c
  rw [← hqueue, List.take_append_of_le_length hle]

-- The receiving half: everything decrypted so far, the part of it not yet read, and
-- whether a close_notify was processed or the end of the inner stream was seen.
structure Incoming where
  decrypted : List UInt8
  plaintext : List UInt8
  closed : Bool
  ended : Bool

-- What rustls documents about receiving.
class ReceiveLaws (C : Type) [Connection C] where
  incoming : C → Incoming
  incoming_sent : ∀ (c : C) (n : Nat), incoming (Connection.sent c n) = incoming c
  incoming_prepare_read : ∀ c : C, incoming (Connection.prepare_read c).2 = incoming c
  -- `read_tls` reads nothing only after a close_notify, and reads into some room
  closed_of_prepare_read : ∀ c : C, (Connection.prepare_read c).1 = .ok none →
    (incoming c).closed = true
  room_pos_of_prepare_read : ∀ (c : C) (room : Nat),
    (Connection.prepare_read c).1 = .ok (some room) → 0 < room
  prepare_read_error : ∀ (c : C) (e : IoError), (Connection.prepare_read c).1 = .error e →
    e.kind ≠ .WouldBlock
  incoming_received : ∀ (c : C) (bytes : List UInt8), incoming (Connection.received c bytes) =
    { incoming c with ended := (incoming c).ended || bytes.isEmpty }
  incoming_writer_write : ∀ (c : C) (bytes : List UInt8),
    incoming (Connection.writer_write c bytes).2 = incoming c
  incoming_send_close_notify : ∀ c : C,
    incoming (Connection.send_close_notify c) = incoming c
  incoming_process_new_packets : ∀ c : C, ∃ more,
    (incoming (Connection.process_new_packets c).2).decrypted = (incoming c).decrypted ++ more ∧
    (incoming (Connection.process_new_packets c).2).plaintext = (incoming c).plaintext ++ more ∧
    (incoming (Connection.process_new_packets c).2).ended = (incoming c).ended ∧
    ((incoming c).closed = true → (incoming (Connection.process_new_packets c).2).closed = true)
  -- `Reader::read` with no room for a byte
  reader_read_zero : ∀ c : C, (Connection.reader_read c 0).1 = .ok [] ∧
    incoming (Connection.reader_read c 0).2 = incoming c
  reader_read_plaintext : ∀ (c : C) (len : Nat), 0 < len → (incoming c).plaintext ≠ [] →
    ∃ n, 0 < n ∧ n ≤ len ∧ n ≤ (incoming c).plaintext.length ∧
      (Connection.reader_read c len).1 = .ok ((incoming c).plaintext.take n) ∧
      incoming (Connection.reader_read c len).2 =
        { incoming c with plaintext := (incoming c).plaintext.drop n }
  reader_read_nil : ∀ (c : C) (len : Nat), 0 < len → (incoming c).plaintext = [] →
    (if (incoming c).closed then (Connection.reader_read c len).1 = .ok []
      else ∃ e, (Connection.reader_read c len).1 = .error e ∧
        e.kind = if (incoming c).ended then .UnexpectedEof else .WouldBlock) ∧
    incoming (Connection.reader_read c len).2 = incoming c
  -- no application data is decrypted before the handshake is complete
  plaintext_eq_nil : ∀ c : C, Connection.is_handshaking c = true → (incoming c).plaintext = []

section Reader

variable {C : Type} [Connection C] [ReceiveLaws C] {c next : C} {len : Nat}

-- Without plaintext the reader reports the end, or fails.
theorem reader_read_of_nil {result : IoResult (List UInt8)} (hlen : 0 < len)
    (hplain : (ReceiveLaws.incoming c).plaintext = [])
    (hread : Connection.reader_read c len = (result, next)) :
    ReceiveLaws.incoming next = ReceiveLaws.incoming c ∧
      (result = .ok [] ∧ (ReceiveLaws.incoming c).closed = true ∨
        ∃ e, result = .error e ∧ (ReceiveLaws.incoming c).closed = false ∧
          e.kind = if (ReceiveLaws.incoming c).ended then .UnexpectedEof else .WouldBlock) := by
  obtain ⟨hresult, hnext⟩ := ReceiveLaws.reader_read_nil c len hlen hplain
  rw [hread] at hresult hnext
  refine ⟨hnext, ?_⟩
  cases hclosed : (ReceiveLaws.incoming c).closed with
  | true => exact .inl ⟨by simpa only [hclosed, if_true] using hresult, rfl⟩
  | false =>
      rw [hclosed, if_neg Bool.false_ne_true] at hresult
      obtain ⟨e, herror, hkind⟩ := hresult
      exact .inr ⟨e, herror, rfl, hkind⟩

-- `Reader::read` takes from the front of the plaintext, or leaves everything as it is.
theorem incoming_reader_read {result : IoResult (List UInt8)}
    (hread : Connection.reader_read c len = (result, next)) :
    match result with
    | .ok bytes => ReceiveLaws.incoming c = { ReceiveLaws.incoming next with
        plaintext := bytes ++ (ReceiveLaws.incoming next).plaintext }
    | .error _ => ReceiveLaws.incoming next = ReceiveLaws.incoming c := by
  by_cases hlen : len = 0
  · subst hlen
    obtain ⟨hresult, hnext⟩ := ReceiveLaws.reader_read_zero c
    rw [hread] at hresult hnext
    obtain rfl : result = .ok [] := hresult
    exact hnext.symm
  · by_cases hnil : (ReceiveLaws.incoming c).plaintext = []
    · obtain ⟨hnext, ⟨rfl, -⟩ | ⟨e, rfl, -⟩⟩ := reader_read_of_nil (by omega) hnil hread
      · exact hnext.symm
      · exact hnext
    · obtain ⟨n, -, -, -, hresult, hnext⟩ :=
        ReceiveLaws.reader_read_plaintext c len (by omega) hnil
      rw [hread] at hresult hnext
      obtain rfl : result = .ok ((ReceiveLaws.incoming c).plaintext.take n) := hresult
      simp only [hnext, List.take_append_drop]

@[simp]
theorem ended_reader_read (c : C) (len : Nat) :
    (ReceiveLaws.incoming (Connection.reader_read c len).2).ended =
      (ReceiveLaws.incoming c).ended := by
  rcases hread : Connection.reader_read c len with ⟨e | bytes, session⟩
  · have hincoming := incoming_reader_read hread
    rw [hincoming]
  · have hincoming := incoming_reader_read hread
    rw [hincoming]

-- With room for a byte the reader gives out plaintext while there is some.
theorem plaintext_of_reader_read {result : IoResult (List UInt8)} (hlen : 0 < len)
    (hread : Connection.reader_read c len = (result, next))
    (hresult : ∀ bytes, result = .ok bytes → bytes = []) :
    (ReceiveLaws.incoming next).plaintext = [] := by
  by_cases hnil : (ReceiveLaws.incoming c).plaintext = []
  · rw [(reader_read_of_nil hlen hnil hread).1, hnil]
  · obtain ⟨n, hpos, -, hle, hok, -⟩ := ReceiveLaws.reader_read_plaintext c len hlen hnil
    rw [hread] at hok
    have hempty := congrArg List.length (hresult _ hok)
    rw [List.length_take, List.length_nil] at hempty
    omega

theorem reader_read_of_plaintext (hlen : 0 < len) (hplain : (ReceiveLaws.incoming c).plaintext ≠ []) :
    ∃ bytes session, bytes ≠ [] ∧ Connection.reader_read c len = (.ok bytes, session) ∧
      (ReceiveLaws.incoming c).plaintext = bytes ++ (ReceiveLaws.incoming session).plaintext := by
  obtain ⟨n, hpos, -, -, hok, hnext⟩ := ReceiveLaws.reader_read_plaintext c len hlen hplain
  refine ⟨(ReceiveLaws.incoming c).plaintext.take n, (Connection.reader_read c len).2, ?_, ?_, ?_⟩
  · intro hnil
    rcases List.take_eq_nil_iff.mp hnil with hzero | hnil
    · omega
    · exact hplain hnil
  · rw [← hok]
  · rw [hnext, List.take_append_drop]

-- Before the end the reader has either plaintext or nothing yet.
theorem reader_read_idle {result : IoResult (List UInt8)} (hlen : 0 < len)
    (hplain : (ReceiveLaws.incoming c).plaintext = [])
    (hended : (ReceiveLaws.incoming c).ended = false)
    (hread : Connection.reader_read c len = (result, next)) :
    result = .ok [] ∨ ∃ e, result = .error e ∧ e.kind = .WouldBlock := by
  obtain ⟨-, ⟨hok, -⟩ | ⟨e, herror, -, hkind⟩⟩ := reader_read_of_nil hlen hplain hread
  · exact .inl hok
  · exact .inr ⟨e, herror, by simpa only [hended, Bool.false_eq_true, if_false] using hkind⟩

end Reader

end AlphaRay
