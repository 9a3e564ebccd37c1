import AlphaRay.Protocol.Tls.Rules
import Mathlib.Logic.Relation

namespace AlphaRay

open Lib Async

-- A read without room in its buffer.
def Call.isZeroRead : Call → Bool
  | .read 0 _ => true
  | _ => false

namespace TlsStream

section Transfers

variable {S C : Type} [Connection C]

theorem incoming_after_write [ReceiveLaws C] (st : TlsStream S C) (reply : Poll (IoResult Nat))
    (inner : S) : ReceiveLaws.incoming (st.after_write reply inner).session =
      ReceiveLaws.incoming st.session := by
  rcases reply with (e | n) | _
  · rfl
  · exact ReceiveLaws.incoming_sent st.session n
  · rfl

-- Only the end of the stream is noticed before the packets are processed.
theorem incoming_after_read [ReceiveLaws C] (st : TlsStream S C) (session : C)
    (reply : Poll (IoResult (List UInt8))) (inner : S) :
    ReceiveLaws.incoming (st.after_read session reply inner).session =
      { ReceiveLaws.incoming session with
        ended := (ReceiveLaws.incoming session).ended ||
          decide (reply = .Ready (.ok [])) } := by
  rcases reply with (e | bytes) | _
  · simp [after_read]
  · cases bytes with
    | nil => simp [after_read, ReceiveLaws.incoming_received]
    | cons b bytes => simp [after_read, ReceiveLaws.incoming_received]
  · simp [after_read]

theorem is_handshaking_after_write [SendLaws C] (st : TlsStream S C)
    (reply : Poll (IoResult Nat)) (inner : S) :
    Connection.is_handshaking (st.after_write reply inner).session =
      Connection.is_handshaking st.session := by
  rcases reply with (e | n) | _
  · rfl
  · exact SendLaws.is_handshaking_sent st.session n
  · rfl

theorem inner_after_write (st : TlsStream S C) (reply : Poll (IoResult Nat)) (inner : S) :
    (st.after_write reply inner).inner = inner := by
  rcases reply with (e | n) | _ <;> rfl

theorem inner_after_read (st : TlsStream S C) (session : C)
    (reply : Poll (IoResult (List UInt8))) (inner : S) :
    (st.after_read session reply inner).inner = inner := by
  rcases reply with (e | bytes) | _ <;> rfl

theorem eof_after_write (st : TlsStream S C) (reply : Poll (IoResult Nat)) (inner : S)
    (heof : st.eof = true) : (st.after_write reply inner).eof = true := by
  rcases reply with (e | n) | _
  · exact heof
  · simp [after_write, heof]
  · exact heof

theorem eof_after_read (st : TlsStream S C) (session : C)
    (reply : Poll (IoResult (List UInt8))) (inner : S) (heof : st.eof = true) :
    (st.after_read session reply inner).eof = true := by
  rcases reply with (e | bytes) | _
  · exact heof
  · simp [after_read, heof]
  · exact heof

end Transfers

variable {S C : Type} [AsyncStream S] [Connection C] [SendLaws C] [ReceiveLaws C]

-- No plaintext waits for the owner, unless the read has no room for it.
def Idle (zero : Bool) (st : TlsStream S C) : Prop :=
  zero = true ∨ (ReceiveLaws.incoming st.session).plaintext = []

-- What `flush_tls` and `drive_tls_readable` are made of.
inductive Transfer (zero : Bool) (st : TlsStream S C) : TlsStream S C → Prop
  | write {reply : Poll (IoResult Nat)} {inner : S} :
      Connection.wants_write st.session = true →
      AsyncStream.poll_write st.inner (Connection.sendable st.session) = (reply, inner) →
      Transfer zero st (st.after_write reply inner)
  | prepare_error {e : IoError} {session : C} : st.Idle zero →
      Connection.prepare_read st.session = (.error e, session) →
      Transfer zero st { st with session := session }
  | prepare_none {session : C} : st.Idle zero →
      Connection.prepare_read st.session = (.ok none, session) →
      Transfer zero st { st with session := session, eof := true }
  | read {room : Nat} {session : C} {reply : Poll (IoResult (List UInt8))} {inner : S} :
      st.Idle zero → Connection.prepare_read st.session = (.ok (some room), session) →
      AsyncStream.poll_read st.inner room = (reply, inner) →
      Transfer zero st (st.after_read session reply inner)
  | process : Transfer zero st { st with
      session := (Connection.process_new_packets st.session).2 }

-- What the calls of the owner are made of.
inductive Act : Call → TlsStream S C → TlsStream S C → Prop
  | transfer {call : Call} {st next : TlsStream S C} :
      Transfer call.isZeroRead st next → Act call st next
  | reader_read {remaining : Nat} {outcome : Except Exit (List UInt8)} {st : TlsStream S C} :
      Act (.read remaining outcome) st { st with
        session := (Connection.reader_read st.session remaining).2 }
  | writer_write {buf : List UInt8} {outcome : Except Exit Nat} {st : TlsStream S C} :
      Connection.is_handshaking st.session = false ∨ st.eof = true →
      Act (.write buf outcome) st { st with
        session := (Connection.writer_write st.session buf).2 }
  | send_close_notify {outcome : Except Exit Unit} {st : TlsStream S C} :
      Act (.shutdown outcome) st { st with session := Connection.send_close_notify st.session }
  | inner_flush {outcome : Except Exit Unit} {st : TlsStream S C} :
      Act (.flush outcome) st { st with inner := (AsyncStream.poll_flush st.inner).2 }
  | inner_shutdown {outcome : Except Exit Unit} {st : TlsStream S C} :
      Act (.shutdown outcome) st { st with inner := (AsyncStream.poll_shutdown st.inner).2 }

section Keeps

variable {zero : Bool} {call : Call} {inv : TlsStream S C → Prop}

omit [SendLaws C] [ReceiveLaws C] in
theorem flush_tls_keeps [SendLaws C] (hwrite : ∀ st reply inner, inv st →
      Connection.wants_write st.session = true →
      AsyncStream.poll_write st.inner (Connection.sendable st.session) = (reply, inner) →
      inv (st.after_write reply inner)) :
    Triple inv flush_tls (fun _ => inv) fun _ => inv := by
  refine flush_tls_rule (fun st h _ => h) ?_
  intro st reply inner h hwants hcall
  have hnext := hwrite st reply inner h hwants hcall
  rcases reply with (e | n) | _
  · exact hnext
  · by_cases hzero : n = 0
    · simpa only [hzero, if_true] using hnext
    · simpa only [hzero, if_false] using hnext
  · exact hnext

theorem drive_tls_readable_keeps (hinv : ∀ st next, inv st → Transfer zero st next → inv next) :
    Triple (fun st => inv st ∧ st.Idle zero) drive_tls_readable (fun _ => inv) fun _ => inv := by
  have hfirst : Triple (fun st => inv st ∧ st.Idle zero) flush_tls
      (fun _ st => inv st ∧ st.Idle zero) fun _ => inv := by
    refine (flush_tls_keeps ?_).conseq (fun _ h => h) (fun _ _ h => h) fun _ _ h => h.1
    rintro st reply inner ⟨h, hidle⟩ hwants hcall
    refine ⟨hinv st _ h (.write hwants hcall), ?_⟩
    rwa [Idle, incoming_after_write]
  have hlast : Triple inv flush_tls (fun _ => inv) fun _ => inv :=
    flush_tls_keeps fun st reply inner h hwants hcall => hinv st _ h (.write hwants hcall)
  refine drive_tls_readable_rule hfirst ?_ ?_ ?_ hlast
  · rintro st e session ⟨h, hidle⟩ hprepare
    exact hinv st _ h (.prepare_error hidle hprepare)
  · rintro st session ⟨h, hidle⟩ hprepare
    exact hinv st _ h (.prepare_none hidle hprepare)
  · rintro st room session reply inner ⟨h, hidle⟩ hprepare hcall
    have hnext := hinv st _ h (.read hidle hprepare hcall)
    rcases reply with (e | bytes) | _
    · exact hnext
    · by_cases hempty : bytes = []
      · simpa only [hempty, if_true] using hnext
      · simp only [hempty, if_false, ends_same]
        exact hinv _ _ hnext .process
    · exact hnext

theorem complete_handshake_keeps (hinv : ∀ st next, inv st → Transfer zero st next → inv next) :
    Triple inv complete_handshake (fun _ st => inv st ∧
      (Connection.is_handshaking st.session = false ∨ st.eof = true)) fun _ => inv := by
  refine complete_handshake_rule (fun st h hdone => ⟨h, hdone⟩)
    ((drive_tls_readable_keeps hinv).conseq ?_ (fun _ _ h => h) fun _ _ h => h)
  rintro st ⟨h, hhandshaking, -⟩
  exact ⟨h, .inr (ReceiveLaws.plaintext_eq_nil st.session hhandshaking)⟩

theorem poll_read_keeps {remaining : Nat} {outcome : Except Exit (List UInt8)}
    (hinv : ∀ st next, inv st → Act (.read remaining outcome) st next → inv next) :
    Triple inv (poll_read remaining) (fun _ => inv) fun _ => inv := by
  have htransfer : ∀ st next, inv st →
      Transfer (Call.read remaining outcome).isZeroRead st next → inv next :=
    fun st next h ht => hinv st next h (.transfer ht)
  refine poll_read_rule (fun st h _ => h) ((complete_handshake_keeps htransfer).conseq
    (fun _ h => h.1) (fun _ _ h => h.1) fun _ _ h => h) (fun st h _ => h) ?_
    (drive_tls_readable_keeps htransfer)
  intro st result session h _ hread
  have hnext := hinv st _ h .reader_read
  rw [hread] at hnext
  have hidle : (∀ bytes, result = .ok bytes → bytes = []) →
      Idle (Call.read remaining outcome).isZeroRead { st with session := session } := by
    intro hresult
    by_cases hpos : remaining = 0
    · exact .inl (by rw [hpos]; rfl)
    · exact .inr (plaintext_of_reader_read (by omega) hread hresult)
  rcases result with e | bytes
  · by_cases hblock : e.kind = .WouldBlock
    · simp only [ends_error, hblock, if_true]
      exact ⟨hnext, hidle fun _ hok => by cases hok⟩
    · simpa only [ends_error, hblock, if_false] using hnext
  · by_cases hempty : bytes = []
    · simp only [ends_ok, hempty, if_true]
      exact ⟨hnext, hidle fun _ hok => by rw [← Except.ok.inj hok, hempty]⟩
    · simpa only [ends_ok, hempty, if_false] using hnext

theorem poll_write_keeps {buf : List UInt8} {outcome : Except Exit Nat}
    (hinv : ∀ st next, inv st → Act (.write buf outcome) st next → inv next) :
    Triple inv (poll_write buf) (fun _ => inv) fun _ => inv := by
  have htransfer : ∀ st next, inv st → Transfer false st next → inv next :=
    fun st next h ht => hinv st next h (.transfer ht)
  -- the writer is reached only after the handshake, or after the end of the stream
  have hflush : Triple (fun st : TlsStream S C => inv st ∧
      (Connection.is_handshaking st.session = false ∨ st.eof = true)) flush_tls
      (fun _ st => inv st ∧ (Connection.is_handshaking st.session = false ∨ st.eof = true))
      fun _ st => inv st ∧ (Connection.is_handshaking st.session = false ∨ st.eof = true) := by
    refine flush_tls_keeps ?_
    rintro st reply inner ⟨h, hready⟩ hwants hcall
    refine ⟨htransfer st _ h (.write hwants hcall), ?_⟩
    rcases hready with hready | hready
    · exact .inl (by rwa [is_handshaking_after_write])
    · exact .inr (eof_after_write st reply inner hready)
  refine poll_write_rule (fun st h _ => h) ((complete_handshake_keeps htransfer).conseq
    (fun _ h => h.1) (fun _ _ h => h) fun _ _ h => h) (hflush.conseq (fun _ h => h)
    (fun _ _ h => h) ?_) (fun st h _ => h.1) ?_ (hflush.conseq (fun _ h => h) (fun _ _ h => h)
    fun _ _ h => h.1) fun n => (hflush.conseq (fun _ h => h) (fun _ _ h => h.1) ?_)
  · intro e st h
    split
    · exact h
    · exact h.1
  · intro st result session h _ hwrite
    have hnext := hinv st _ h.1 (.writer_write h.2)
    have hopen := SendLaws.is_handshaking_writer_write st.session buf
    rw [hwrite] at hnext hopen
    have hready : inv { st with session := session } ∧
        (Connection.is_handshaking session = false ∨ st.eof = true) :=
      ⟨hnext, by rw [hopen]; exact h.2⟩
    rcases result with e | n
    · by_cases hblock : e.kind = .WouldBlock
      · simpa only [ends_error, hblock, if_true] using hready
      · simpa only [ends_error, hblock, if_false] using hnext
    · by_cases hempty : n = 0
      · simpa only [ends_ok, hempty, if_true] using hready
      · simpa only [ends_ok, hempty, if_false] using hready
  · intro e st h
    split
    · exact h.1
    · exact h.1

theorem poll_flush_keeps {outcome : Except Exit Unit}
    (hinv : ∀ st next, inv st → Act (.flush outcome) st next → inv next) :
    Triple inv poll_flush (fun _ => inv) fun _ => inv := by
  have hflush : Triple inv flush_tls (fun _ => inv) fun _ => inv :=
    flush_tls_keeps fun st reply inner h hwants hcall =>
      hinv st _ h (.transfer (.write hwants hcall))
  refine poll_flush_rule (fun st h _ => h)
    (hflush.conseq (fun _ h => h.1) (fun _ _ h => h) fun _ _ h => h) ?_
  intro st reply inner h hcall
  have hnext := hinv st _ h .inner_flush
  rw [hcall] at hnext
  rcases reply with (e | _) | _ <;> exact hnext

theorem poll_shutdown_keeps {outcome : Except Exit Unit}
    (hinv : ∀ st next, inv st → Act (.shutdown outcome) st next → inv next) :
    Triple inv poll_shutdown (fun _ => inv) fun _ => inv := by
  have hflush : Triple inv flush_tls (fun _ => inv) fun _ => inv :=
    flush_tls_keeps fun st reply inner h hwants hcall =>
      hinv st _ h (.transfer (.write hwants hcall))
  refine poll_shutdown_rule (fun st h _ => h) (fun st h _ => hinv st _ h .send_close_notify)
    hflush ?_
  intro st reply inner h hcall
  have hnext := hinv st _ h .inner_shutdown
  rw [hcall] at hnext
  rcases reply with (e | _) | _ <;> exact hnext

end Keeps

-- An invariant of the acts of a call is an invariant of the call.
theorem Step.rule {st after : TlsStream S C} {call : Call} (inv : TlsStream S C → Prop)
    (hinv : ∀ st next, inv st → Act call st next → inv next) (hstart : inv st)
    (hstep : Step st call after) : inv after := by
  have hends : ∀ {α : Type} {m : Async (TlsStream S C) Exit α} {outcome : Except Exit α},
      Triple inv m (fun _ => inv) (fun _ => inv) →
      (∃ fuel, m.run fuel st = some (outcome, after)) → inv after := by
    rintro α m outcome htriple ⟨fuel, hrun⟩
    have hpost := htriple fuel st outcome after hstart hrun
    rcases outcome with e | a <;> exact hpost
  cases call with
  | read remaining outcome => exact hends (poll_read_keeps hinv) hstep
  | write buf outcome => exact hends (poll_write_keeps hinv) hstep
  | flush outcome => exact hends (poll_flush_keeps hinv) hstep
  | shutdown outcome => exact hends (poll_shutdown_keeps hinv) hstep

end TlsStream

end AlphaRay
