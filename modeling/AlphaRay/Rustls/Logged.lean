import AlphaRay.Rustls

namespace AlphaRay

-- The calls of a session that the results speak about, with the session as it was
-- before them, and after `process_new_packets` also as it was then.
inductive SessionEvent (C : Type) where
  | prepared (before : C) (reply : IoResult (Option Nat))
  | received (before : C) (bytes : List UInt8)
  | processed (before after : C)
  | wrote (bytes : List UInt8) (reply : IoResult Nat)
  deriving DecidableEq

-- The plaintext that the writer took in this call.
def SessionEvent.handed {C : Type} : SessionEvent C → List UInt8
  | wrote bytes (.ok n) => bytes.take n
  | _ => []

def SessionEvent.isProcessed {C : Type} : SessionEvent C → Bool
  | processed _ _ => true
  | _ => false

-- The messages that were processed made the session queue output.
def SessionEvent.Answers {C : Type} [Connection C] [SendLaws C] : SessionEvent C → Prop
  | processed before after => (SendLaws.outgoing after).queue ≠ (SendLaws.outgoing before).queue
  | _ => False

-- What was processed left neither plaintext to read nor the end of the stream.
def SessionEvent.Starves {C : Type} [Connection C] [ReceiveLaws C] : SessionEvent C → Prop
  | processed _ after => (ReceiveLaws.incoming after).plaintext = [] ∧
      (ReceiveLaws.incoming after).closed = false ∧ (ReceiveLaws.incoming after).ended = false
  | _ => False

theorem SessionEvent.not_answers {C : Type} [Connection C] [SendLaws C] {e : SessionEvent C}
    (h : e.isProcessed = false) : ¬ e.Answers := by
  cases e with
  | processed before after => cases h
  | prepared before reply => exact id
  | received before bytes => exact id
  | wrote bytes reply => exact id

theorem SessionEvent.not_starves {C : Type} [Connection C] [ReceiveLaws C] {e : SessionEvent C}
    (h : e.isProcessed = false) : ¬ e.Starves := by
  cases e with
  | processed before after => cases h
  | prepared before reply => exact id
  | received before bytes => exact id
  | wrote bytes reply => exact id

-- `read_tls` was refused or found the end of the stream while plaintext was waiting.
def SessionEvent.Strands {C : Type} [Connection C] [ReceiveLaws C] : SessionEvent C → Prop
  | prepared _ (.ok (some _)) => False
  | prepared before _ => (ReceiveLaws.incoming before).plaintext ≠ []
  | received before bytes => bytes = [] ∧ (ReceiveLaws.incoming before).plaintext ≠ []
  | _ => False

instance {C : Type} [Connection C] [ReceiveLaws C] : DecidablePred (SessionEvent.Strands (C := C))
  | .prepared _ (.ok (some _)) => isFalse id
  | .prepared _ (.ok none) => inferInstanceAs (Decidable (_ ≠ []))
  | .prepared _ (.error _) => inferInstanceAs (Decidable (_ ≠ []))
  | .received _ bytes => inferInstanceAs (Decidable (bytes = [] ∧ _ ≠ []))
  | .processed _ _ => isFalse id
  | .wrote _ _ => isFalse id

instance {C : Type} [Connection C] [SendLaws C] : DecidablePred (SessionEvent.Answers (C := C))
  | .prepared _ _ => isFalse id
  | .received _ _ => isFalse id
  | .processed _ _ => inferInstanceAs (Decidable (_ ≠ _))
  | .wrote _ _ => isFalse id

instance {C : Type} [Connection C] [ReceiveLaws C] : DecidablePred (SessionEvent.Starves (C := C))
  | .prepared _ _ => isFalse id
  | .received _ _ => isFalse id
  | .processed _ _ => inferInstanceAs (Decidable (_ = [] ∧ _ = false ∧ _ = false))
  | .wrote _ _ => isFalse id

-- A session that behaves as the one it wraps and keeps a log.
structure Logged (C : Type) where
  session : C
  log : List (SessionEvent C)
  deriving DecidableEq

namespace Logged

variable {C : Type}

def new (session : C) : Logged C := ⟨session, []⟩

-- Everything that was handed to the writer, in order.
def handed (c : Logged C) : List UInt8 := c.log.flatMap SessionEvent.handed

variable [Connection C]

instance : Connection (Logged C) where
  is_server c := Connection.is_server c.session
  is_handshaking c := Connection.is_handshaking c.session
  wants_write c := Connection.wants_write c.session
  sendable c := Connection.sendable c.session
  sent c n := { c with session := Connection.sent c.session n }
  prepare_read c :=
    let (reply, session) := Connection.prepare_read c.session
    (reply, ⟨session, c.log ++ [.prepared c.session reply]⟩)
  received c bytes :=
    ⟨Connection.received c.session bytes, c.log ++ [.received c.session bytes]⟩
  process_new_packets c :=
    let (reply, session) := Connection.process_new_packets c.session
    (reply, ⟨session, c.log ++ [.processed c.session session]⟩)
  reader_read c len :=
    let (reply, session) := Connection.reader_read c.session len
    (reply, { c with session := session })
  writer_write c bytes :=
    let (reply, session) := Connection.writer_write c.session bytes
    (reply, ⟨session, c.log ++ [.wrote bytes reply]⟩)
  send_close_notify c := { c with session := Connection.send_close_notify c.session }

theorem log_of_prepare_read {c next : Logged C} {reply : IoResult (Option Nat)}
    (h : Connection.prepare_read c = (reply, next)) :
    next.log = c.log ++ [.prepared c.session reply] := by
  cases h
  rfl

theorem log_received (c : Logged C) (bytes : List UInt8) :
    (Connection.received c bytes).log = c.log ++ [.received c.session bytes] := rfl

theorem log_process_new_packets (c : Logged C) :
    (Connection.process_new_packets c).2.log =
      c.log ++ [.processed c.session (Connection.process_new_packets c).2.session] := rfl

theorem log_of_writer_write {c next : Logged C} {bytes : List UInt8} {reply : IoResult Nat}
    (h : Connection.writer_write c bytes = (reply, next)) :
    next.log = c.log ++ [.wrote bytes reply] := by
  cases h
  rfl

omit [Connection C] in
theorem handed_of_log {c next : Logged C} {e : SessionEvent C} (h : next.log = c.log ++ [e]) :
    next.handed = c.handed ++ e.handed := by
  simp [handed, h]

instance [SendLaws C] : SendLaws (Logged C) where
  outgoing c := SendLaws.outgoing c.session
  wants_write_iff c := SendLaws.wants_write_iff c.session
  sendable_le c := SendLaws.sendable_le c.session
  sendable_ne_nil c := SendLaws.sendable_ne_nil c.session
  outgoing_sent c := SendLaws.outgoing_sent c.session
  outgoing_prepare_read c := SendLaws.outgoing_prepare_read c.session
  outgoing_received c := SendLaws.outgoing_received c.session
  outgoing_reader_read c := SendLaws.outgoing_reader_read c.session
  adds_process_new_packets c := SendLaws.adds_process_new_packets c.session
  le_length_of_writer_write c := SendLaws.le_length_of_writer_write c.session
  adds_writer_write c := SendLaws.adds_writer_write c.session
  adds_writer_write_error c := SendLaws.adds_writer_write_error c.session
  adds_send_close_notify c := SendLaws.adds_send_close_notify c.session
  alerted_send_close_notify c := SendLaws.alerted_send_close_notify c.session
  held_eq_nil c := SendLaws.held_eq_nil c.session
  is_handshaking_sent c := SendLaws.is_handshaking_sent c.session
  is_handshaking_writer_write c := SendLaws.is_handshaking_writer_write c.session
  writer_write_of_queue_nil c := SendLaws.writer_write_of_queue_nil c.session

instance [ReceiveLaws C] : ReceiveLaws (Logged C) where
  incoming c := ReceiveLaws.incoming c.session
  incoming_sent c := ReceiveLaws.incoming_sent c.session
  incoming_prepare_read c := ReceiveLaws.incoming_prepare_read c.session
  closed_of_prepare_read c := ReceiveLaws.closed_of_prepare_read c.session
  room_pos_of_prepare_read c := ReceiveLaws.room_pos_of_prepare_read c.session
  prepare_read_error c := ReceiveLaws.prepare_read_error c.session
  incoming_received c := ReceiveLaws.incoming_received c.session
  incoming_writer_write c := ReceiveLaws.incoming_writer_write c.session
  incoming_send_close_notify c := ReceiveLaws.incoming_send_close_notify c.session
  incoming_process_new_packets c := ReceiveLaws.incoming_process_new_packets c.session
  reader_read_zero c := ReceiveLaws.reader_read_zero c.session
  reader_read_plaintext c := ReceiveLaws.reader_read_plaintext c.session
  reader_read_nil c := ReceiveLaws.reader_read_nil c.session
  plaintext_eq_nil c := ReceiveLaws.plaintext_eq_nil c.session

instance [SendLaws C] [HandshakeLaws C] : HandshakeLaws (Logged C) where
  is_handshaking_prepare_read c := HandshakeLaws.is_handshaking_prepare_read c.session
  is_handshaking_received c := HandshakeLaws.is_handshaking_received c.session
  is_handshaking_reader_read c := HandshakeLaws.is_handshaking_reader_read c.session
  is_handshaking_send_close_notify c := HandshakeLaws.is_handshaking_send_close_notify c.session
  of_process_new_packets c := HandshakeLaws.of_process_new_packets c.session
  plain_writer_write c := HandshakeLaws.plain_writer_write c.session
  plain_send_close_notify c := HandshakeLaws.plain_send_close_notify c.session

end Logged

end AlphaRay
