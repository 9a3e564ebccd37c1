import AlphaRay.Rustls

namespace AlphaRay

-- A connection with the null cipher, for concrete runs. A record is a kind byte,
-- followed in a data record by the one byte it carries:
--   0  hello, which completes the handshake of the side that reads it; afterwards
--      it asks for an answer of kind 4, as a key update does
--   1  data
--   2  close_notify
--   3  fatal alert
--   4  an answer, which asks for nothing
-- Plaintext is held back before the handshake is complete and received after it.
inductive NullCipher.Mode where
  | handshake (held : List UInt8)
  | traffic (plaintext : List UInt8)
  deriving DecidableEq

structure NullCipher where
  server : Bool
  mode : NullCipher.Mode
  records : List Record
  queue : List UInt8
  fragment : List UInt8
  decrypted : List UInt8
  closed : Bool
  ended : Bool
  -- the bytes of output beyond which no plaintext is taken
  limit : Nat
  -- the bytes of plaintext beyond which nothing is read
  room : Nat
  deriving DecidableEq

namespace NullCipher

def emit (c : NullCipher) (made : List Record) : NullCipher :=
  { c with records := c.records ++ made, queue := c.queue ++ cipherOf made }

def hello : Record := ⟨.handshake, [0]⟩

def answer : Record := ⟨.handshake, [4]⟩

def dataRecord (b : UInt8) : Record := ⟨.data [b], [1, b]⟩

-- A client starts the handshake with its hello.
def new (server : Bool) (limit room : Nat) : NullCipher :=
  let c : NullCipher := {
    server := server
    mode := .handshake []
    records := []
    queue := []
    fragment := []
    decrypted := []
    closed := false
    ended := false
    limit := limit
    room := room }
  if server then c else c.emit [hello]

def held (c : NullCipher) : List UInt8 :=
  match c.mode with
  | .handshake held => held
  | .traffic _ => []

def plaintext (c : NullCipher) : List UInt8 :=
  match c.mode with
  | .handshake _ => []
  | .traffic plaintext => plaintext

def is_handshaking (c : NullCipher) : Bool :=
  match c.mode with
  | .handshake _ => true
  | .traffic _ => false

def receiveHello (c : NullCipher) : NullCipher :=
  match c.mode with
  | .handshake held =>
      { c.emit ((if c.server then [hello] else []) ++ held.map dataRecord) with
        mode := .traffic [] }
  | .traffic _ => c.emit [answer]

def absorb (c : NullCipher) : List UInt8 → Except String Unit × NullCipher
  | [] => (.ok (), { c with fragment := [] })
  | [1] => (.ok (), { c with fragment := [1] })
  | 0 :: rest => absorb c.receiveHello rest
  | 1 :: b :: rest =>
      match c.mode with
      | .handshake _ => (.error "unexpected message", c.emit [⟨.fatalAlert, [3]⟩])
      | .traffic plaintext =>
          absorb { c with
            mode := .traffic (plaintext ++ [b])
            decrypted := c.decrypted ++ [b] } rest
  | 2 :: _ => (.ok (), { c with closed := true, fragment := [] })
  | 4 :: rest => absorb c rest
  | _ :: _ => (.error "corrupt message", c.emit [⟨.fatalAlert, [3]⟩])

def reader_read (c : NullCipher) (len : Nat) : IoResult (List UInt8) × NullCipher :=
  match c.mode with
  | .traffic (b :: plaintext) =>
      (.ok ((b :: plaintext).take len),
        { c with mode := .traffic ((b :: plaintext).drop len) })
  | _ =>
      if len = 0 then (.ok [], c)
      else if c.closed then (.ok [], c)
      else if c.ended then (.error ErrorKind.UnexpectedEof.into, c)
      else (.error ErrorKind.WouldBlock.into, c)

def writer_write (c : NullCipher) (bytes : List UInt8) : IoResult Nat × NullCipher :=
  let n := min bytes.length (c.limit + 1 - (c.queue.length + c.held.length))
  match c.mode with
  | .handshake held => (.ok n, { c with mode := .handshake (held ++ bytes.take n) })
  | .traffic _ => (.ok n, c.emit ((bytes.take n).map dataRecord))

def alerted (c : NullCipher) : Bool :=
  c.records.any fun record => record.content = .closeNotify || record.content = .fatalAlert

def prepare_read (c : NullCipher) : IoResult (Option Nat) × NullCipher :=
  if c.room < c.plaintext.length then (.error ⟨.Other, "received plaintext buffer full"⟩, c)
  else if c.closed then (.ok none, c)
  else (.ok (some 16), c)

instance : Connection NullCipher where
  is_server c := c.server
  is_handshaking := is_handshaking
  wants_write c := !c.queue.isEmpty
  sendable c := c.queue
  sent c n := { c with queue := c.queue.drop n }
  prepare_read := prepare_read
  received c bytes :=
    { c with fragment := c.fragment ++ bytes, ended := c.ended || bytes.isEmpty }
  process_new_packets c := absorb c c.fragment
  reader_read := reader_read
  writer_write := writer_write
  send_close_notify c := if c.alerted then c else c.emit [⟨.closeNotify, [2]⟩]

def outgoing (c : NullCipher) : Outgoing := ⟨c.records, c.queue, c.held⟩

def incoming (c : NullCipher) : Incoming := ⟨c.decrypted, c.plaintext, c.closed, c.ended⟩

@[simp] theorem plainOf_dataRecords (bytes : List UInt8) :
    plainOf (bytes.map dataRecord) = bytes := by
  induction bytes with
  | nil => rfl
  | cons b bytes ih => simpa [plainOf, dataRecord, Content.plain] using ih

theorem adds_emit (c : NullCipher) (made : List Record) (hmade : plainOf made = []) :
    (outgoing c).Adds (outgoing (c.emit made)) [] :=
  ⟨made, rfl, rfl, by simp [hmade, outgoing, emit, held]⟩

theorem adds_receiveHello (c : NullCipher) :
    (outgoing c).Adds (outgoing c.receiveHello) [] := by
  unfold receiveHello
  split
  · rename_i hmode
    refine ⟨_, rfl, rfl, ?_⟩
    rw [plainOf_append, plainOf_dataRecords]
    cases hs : c.server <;> simp [outgoing, held, hmode, plainOf, hello, Content.plain]
  · exact adds_emit c [answer] rfl

theorem adds_absorb (c : NullCipher) (bytes : List UInt8) :
    (outgoing c).Adds (outgoing (absorb c bytes).2) [] := by
  fun_induction absorb c bytes with
  | case1 | case2 | case6 => exact .refl _
  | case3 c rest ih => exact (adds_receiveHello c).trans ih
  | case4 | case8 => exact adds_emit _ _ rfl
  | case5 c b rest plaintext hmode ih =>
      have hheld : outgoing { c with
          mode := .traffic (plaintext ++ [b])
          decrypted := c.decrypted ++ [b] } = outgoing c := by
        simp [outgoing, held, hmode]
      rwa [hheld] at ih
  | case7 c rest ih => exact ih

theorem adds_writer_write (c : NullCipher) (bytes : List UInt8) (n : Nat)
    (h : (writer_write c bytes).1 = .ok n) :
    (outgoing c).Adds (outgoing (writer_write c bytes).2) (bytes.take n) := by
  cases hmode : c.mode <;> simp only [writer_write, hmode] at h ⊢ <;>
    obtain rfl := Except.ok.inj h
  · exact ⟨[], by simp [outgoing], by simp [outgoing], by simp [outgoing, held, hmode]⟩
  · refine ⟨_, rfl, rfl, ?_⟩
    rw [plainOf_dataRecords]
    simp [outgoing, emit, held, hmode]

theorem incoming_absorb (c : NullCipher) (bytes : List UInt8) : ∃ more,
    (incoming (absorb c bytes).2).decrypted = (incoming c).decrypted ++ more ∧
    (incoming (absorb c bytes).2).plaintext = (incoming c).plaintext ++ more ∧
    (incoming (absorb c bytes).2).ended = (incoming c).ended ∧
    ((incoming c).closed = true → (incoming (absorb c bytes).2).closed = true) := by
  fun_induction absorb c bytes with
  | case1 | case2 =>
      exact ⟨[], by simp [incoming], by simp [incoming, plaintext], rfl, id⟩
  | case4 | case8 =>
      exact ⟨[], by simp [incoming, emit], by simp [incoming, plaintext, emit], rfl, id⟩
  | case6 => exact ⟨[], by simp [incoming], by simp [incoming, plaintext], rfl, fun _ => rfl⟩
  | case3 c rest ih =>
      have hhello : incoming c.receiveHello = incoming c := by
        cases hmode : c.mode <;> simp [incoming, receiveHello, plaintext, hmode, emit]
      rwa [hhello] at ih
  | case5 c b rest plain hmode ih =>
      obtain ⟨more, hdecrypted, hplain, hended, hclosed⟩ := ih
      exact ⟨b :: more, by simpa [incoming] using hdecrypted,
        by simpa [incoming, plaintext, hmode] using hplain, hended, hclosed⟩
  | case7 c rest ih => exact ih

instance : SendLaws NullCipher where
  outgoing := outgoing
  wants_write_iff c := by simp [Connection.wants_write, outgoing]
  sendable_le c := List.prefix_rfl
  sendable_ne_nil c h := h
  outgoing_sent c n _ := rfl
  outgoing_prepare_read c := by
    simp only [Connection.prepare_read, prepare_read]
    split_ifs <;> rfl
  outgoing_received c bytes := rfl
  outgoing_reader_read c len := by
    simp only [Connection.reader_read, reader_read]
    split
    · rename_i hmode
      simp [outgoing, held, hmode]
    · split_ifs <;> rfl
  adds_process_new_packets c := adds_absorb c c.fragment
  le_length_of_writer_write c bytes n h := by
    cases hmode : c.mode <;> simp only [Connection.writer_write, writer_write, hmode] at h <;>
      obtain rfl := Except.ok.inj h <;> exact Nat.min_le_left _ _
  adds_writer_write := adds_writer_write
  adds_writer_write_error c bytes e h := by
    cases hmode : c.mode <;> simp [Connection.writer_write, writer_write, hmode] at h
  adds_send_close_notify c := by
    simp only [Connection.send_close_notify]
    split
    · exact .refl _
    · exact adds_emit c _ rfl
  alerted_send_close_notify c := by
    simp only [Connection.send_close_notify]
    split
    · rename_i halerted
      obtain ⟨record, hmem, hcontent⟩ := List.any_eq_true.mp halerted
      rcases Bool.or_eq_true_iff.mp hcontent with h | h
      · exact .inl ⟨record, hmem, by simpa using h⟩
      · exact .inr ⟨record, hmem, by simpa using h⟩
    · exact .inl ⟨⟨.closeNotify, [2]⟩, by simp [outgoing, emit], rfl⟩
  held_eq_nil c h := by
    cases hmode : c.mode with
    | handshake _ => simp [Connection.is_handshaking, is_handshaking, hmode] at h
    | traffic _ => simp [outgoing, held, hmode]
  is_handshaking_sent c n := rfl
  is_handshaking_writer_write c bytes := by
    cases hmode : c.mode <;>
      simp [Connection.is_handshaking, Connection.writer_write, writer_write, is_handshaking,
        hmode, emit]
  writer_write_of_queue_nil c bytes h hqueue hne := by
    have hpos := List.length_pos_of_ne_nil hne
    have hqueue : c.queue = [] := hqueue
    cases hmode : c.mode with
    | handshake _ => simp [Connection.is_handshaking, is_handshaking, hmode] at h
    | traffic _ =>
        refine ⟨_, ?_, by simp only [Connection.writer_write, writer_write, hmode]; rfl⟩
        simp only [hqueue, held, hmode, List.length_nil]
        omega

theorem fresh_new (server : Bool) (limit room : Nat) :
    (SendLaws.outgoing (new server limit room)).Fresh := by
  cases server with
  | true => exact ⟨rfl, rfl, rfl⟩
  | false => exact ⟨rfl, rfl, rfl⟩

instance : ReceiveLaws NullCipher where
  incoming := incoming
  incoming_sent c n := rfl
  incoming_prepare_read c := by
    simp only [Connection.prepare_read, prepare_read]
    split_ifs <;> rfl
  closed_of_prepare_read c h := by
    simp only [Connection.prepare_read, prepare_read] at h
    split_ifs at h with h₁ h₂
    · exact h₂
    · cases h
  room_pos_of_prepare_read c room h := by
    simp only [Connection.prepare_read, prepare_read] at h
    split_ifs at h
    · cases h
    · cases h
      decide
  prepare_read_error c e h := by
    simp only [Connection.prepare_read, prepare_read] at h
    split_ifs at h
    cases h
    decide
  incoming_received c bytes := rfl
  incoming_writer_write c bytes := by
    cases hmode : c.mode <;>
      simp [Connection.writer_write, writer_write, incoming, plaintext, hmode, emit]
  incoming_send_close_notify c := by
    simp only [Connection.send_close_notify]
    split <;> rfl
  incoming_process_new_packets c := incoming_absorb c c.fragment
  reader_read_zero c := by
    simp only [Connection.reader_read, reader_read]
    split
    · rename_i hmode
      simp [incoming, plaintext, hmode]
    · simp
  reader_read_plaintext c len hpos hne := by
    obtain ⟨b, plain, hmode⟩ : ∃ b plain, c.mode = .traffic (b :: plain) := by
      cases hmode : c.mode with
      | handshake _ => simp [incoming, plaintext, hmode] at hne
      | traffic plain =>
          obtain ⟨b, plain, rfl⟩ :=
            List.exists_cons_of_ne_nil (by simpa [incoming, plaintext, hmode] using hne)
          exact ⟨b, plain, rfl⟩
    refine ⟨min len (plain.length + 1), by omega, Nat.min_le_left _ _, ?_, ?_, ?_⟩
    · simp only [incoming, plaintext, hmode, List.length_cons]
      exact Nat.min_le_right _ _
    · simp [Connection.reader_read, reader_read, incoming, plaintext, hmode]
    · simp [Connection.reader_read, reader_read, incoming, plaintext, hmode]
  reader_read_nil c len hpos hnil := by
    have hlen : len ≠ 0 := by omega
    have hread : Connection.reader_read c len =
        if c.closed then (.ok [], c)
        else if c.ended then (.error ErrorKind.UnexpectedEof.into, c)
        else (.error ErrorKind.WouldBlock.into, c) := by
      simp only [Connection.reader_read, reader_read]
      split
      · rename_i hmode
        simp [incoming, plaintext, hmode] at hnil
      · simp only [hlen, if_false]
    rw [hread]
    cases hclosed : c.closed <;> cases hended : c.ended <;>
      simp [incoming, hclosed, hended, ErrorKind.into]
  plaintext_eq_nil c h := by
    cases hmode : c.mode with
    | handshake _ => simp [incoming, plaintext, hmode]
    | traffic _ => simp [Connection.is_handshaking, is_handshaking, hmode] at h

theorem length_cipherOf_dataRecords (bytes : List UInt8) :
    (cipherOf (bytes.map dataRecord)).length = 2 * bytes.length := by
  induction bytes with
  | nil => rfl
  | cons b bytes ih =>
      simp only [cipherOf, List.map_cons, List.flatMap_cons, List.length_append,
        List.length_cons] at ih ⊢
      rw [ih]
      simp only [dataRecord, List.length_cons, List.length_nil]
      omega

instance : WriterLaws NullCipher where
  room c := c.limit + 1 - (c.queue.length + c.held.length)
  settled _ := True
  writer_write_eq c bytes := by
    cases hmode : c.mode <;> simp only [Connection.writer_write, writer_write, hmode]
  room_writer_write c bytes := by
    cases hmode : c.mode with
    | handshake held =>
        simp only [Connection.writer_write, writer_write, hmode, NullCipher.held, List.length_append,
          List.length_take]
        omega
    | traffic plaintext =>
        simp only [Connection.writer_write, writer_write, hmode, NullCipher.held, emit,
          List.length_append, length_cipherOf_dataRecords, List.length_take]
        omega
  settled_writer_write _ _ := trivial
  settled_sent _ _ _ := trivial
  writer_write_full c bytes _ hfull := by
    have hnone : min bytes.length (c.limit + 1 - (c.queue.length + c.held.length)) = 0 := by
      rw [hfull]
      exact Nat.min_zero _
    obtain ⟨server, mode, records, queue, fragment, decrypted, closed, ended, limit, room⟩ := c
    cases mode with
    | handshake held =>
        simp only [Connection.writer_write, writer_write, hnone, List.take_zero, List.append_nil]
    | traffic plaintext =>
        simp only [Connection.writer_write, writer_write, hnone, List.take_zero, List.map_nil, emit,
          cipherOf_nil, List.append_nil]

instance : RoomLaws NullCipher where
  room_sent c n _ := by
    change c.limit + 1 - (c.queue.length + c.held.length) ≤
      c.limit + 1 - ((c.queue.drop n).length + c.held.length)
    rw [List.length_drop]
    omega

-- A batch that leaves the handshake going on made no record of data.
theorem plain_absorb (c : NullCipher) (bytes : List UInt8)
    (h : is_handshaking (absorb c bytes).2 = true) : is_handshaking c = true ∧
    plainOf (absorb c bytes).2.records = plainOf c.records := by
  fun_induction absorb c bytes with
  | case1 | case2 | case6 => exact ⟨h, rfl⟩
  | case3 c rest ih =>
      obtain ⟨hhello, hplain⟩ := ih h
      cases hmode : c.mode with
      | handshake held => simp [receiveHello, hmode, is_handshaking] at hhello
      | traffic plaintext => simp [receiveHello, hmode, is_handshaking, emit] at hhello
  | case4 c rest b held hmode =>
      exact ⟨by simp [is_handshaking, hmode], by simp [emit, plainOf, Content.plain]⟩
  | case5 c b rest plaintext hmode ih =>
      obtain ⟨hopen, -⟩ := ih h
      simp [is_handshaking] at hopen
  | case7 c rest ih => exact ih h
  | case8 c b rest => exact ⟨h, by simp [emit, plainOf, Content.plain]⟩

instance : HandshakeLaws NullCipher where
  is_handshaking_prepare_read c := by
    simp only [Connection.prepare_read, prepare_read]
    split_ifs <;> rfl
  is_handshaking_received c bytes := rfl
  is_handshaking_reader_read c len := by
    simp only [Connection.reader_read, reader_read]
    split
    · rename_i hmode
      simp [Connection.is_handshaking, is_handshaking, hmode]
    · split_ifs <;> rfl
  is_handshaking_send_close_notify c := by
    simp only [Connection.send_close_notify]
    split <;> rfl
  of_process_new_packets c h := plain_absorb c c.fragment h
  plain_writer_write c bytes h := by
    cases hmode : c.mode with
    | handshake held =>
        simp [SendLaws.outgoing, outgoing, Connection.writer_write, writer_write, hmode]
    | traffic plaintext => simp [Connection.is_handshaking, is_handshaking, hmode] at h
  plain_send_close_notify c := by
    simp only [Connection.send_close_notify]
    split
    · rfl
    · simp [SendLaws.outgoing, outgoing, emit, plainOf, Content.plain]

end NullCipher

end AlphaRay
