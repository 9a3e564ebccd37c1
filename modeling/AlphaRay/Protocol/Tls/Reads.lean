import AlphaRay.Protocol.Tls.Observed

namespace AlphaRay

open Lib Async

namespace Observed

open TlsStream

variable {S C : Type} [AsyncStream S] [Connection C] [SendLaws C] [ReceiveLaws C]

-- Nothing was refused to the session's output between two states and, in a read
-- without room, no plaintext was stranded.
def Clear (zero : Bool) (st after : Observed S C) : Prop :=
  (∀ e ∈ st.events after, e.isZeroWrite = false) ∧
  (zero = true → ∀ e ∈ st.sessionEvents after, ¬ e.Strands)

-- When the flag is set, the other side has ended and everything was read.
def Finished (st : Observed S C) : Prop :=
  st.eof = true → (ReceiveLaws.incoming st.session).plaintext = [] ∧
    ((ReceiveLaws.incoming st.session).closed = true ∨
      (ReceiveLaws.incoming st.session).ended = true)

section Sealed

variable {zero : Bool} {st now next : Observed S C}

omit [AsyncStream S] [SendLaws C] in
theorem Clear.of_grown (hgrown : now.Grown next) (h : Clear zero st next) : Clear zero st now :=
  ⟨fun e he => h.1 e (mem_events_of_grown hgrown he),
    fun hzero e he => h.2 hzero e (mem_sessionEvents_of_grown hgrown he)⟩

-- The two invariants of a call that started in `st`: before and after a round of
-- reading.
def Open (zero : Bool) (st now : Observed S C) : Prop :=
  st.Grown now ∧ (Clear zero st now → now.eof = false)

def Sealed (zero : Bool) (st now : Observed S C) : Prop :=
  st.Grown now ∧ (Clear zero st now → now.Finished)

omit [AsyncStream S] [SendLaws C] in
theorem Open.toSealed (h : Open zero st now) : Sealed zero st now := by
  refine ⟨h.1, fun hclear heof => ?_⟩
  rw [h.2 hclear] at heof
  cases heof

omit [SendLaws C] in
theorem eof_of_clear {reply : Poll (IoResult Nat)} {inner : Recorded S} {bytes : List UInt8}
    (hgrown : st.Grown now) (hcall : AsyncStream.poll_write now.inner bytes = (reply, inner))
    (hclear : Clear zero st (now.after_write reply inner)) :
    (now.after_write reply inner).eof = now.eof := by
  rcases reply with (e | n) | _
  · rfl
  · by_cases hzero : n = 0
    · subst hzero
      have hlog := Recorded.log_of_poll_write hcall
      have hno := hclear.1 _ (mem_events_of_log hgrown (by rw [inner_after_write]; exact hlog))
      cases hno
    · simp [after_write, hzero]
  · rfl

omit [SendLaws C] in
theorem open_after_write {reply : Poll (IoResult Nat)} {inner : Recorded S}
    (h : Open zero st now) (hwants : Connection.wants_write now.session = true)
    (hcall : AsyncStream.poll_write now.inner (Connection.sendable now.session) = (reply, inner)) :
    Open zero st (now.after_write reply inner) := by
  have hgrown : now.Grown (now.after_write reply inner) :=
    grown_of_transfer (Transfer.write hwants hcall : Transfer zero now _)
  refine ⟨h.1.trans hgrown, fun hclear => ?_⟩
  rw [eof_of_clear h.1 hcall hclear]
  exact h.2 (hclear.of_grown hgrown)

omit [SendLaws C] in
theorem sealed_after_write {reply : Poll (IoResult Nat)} {inner : Recorded S}
    (h : Sealed zero st now) (hwants : Connection.wants_write now.session = true)
    (hcall : AsyncStream.poll_write now.inner (Connection.sendable now.session) = (reply, inner)) :
    Sealed zero st (now.after_write reply inner) := by
  have hgrown : now.Grown (now.after_write reply inner) :=
    grown_of_transfer (Transfer.write hwants hcall : Transfer zero now _)
  refine ⟨h.1.trans hgrown, fun hclear => ?_⟩
  rw [Finished, eof_of_clear h.1 hcall hclear, incoming_after_write]
  exact h.2 (hclear.of_grown hgrown)

omit [SendLaws C] in
theorem incoming_of_prepare_read {session next : Logged C} {reply : IoResult (Option Nat)}
    (h : Connection.prepare_read session = (reply, next)) :
    ReceiveLaws.incoming next = ReceiveLaws.incoming session := by
  have hsame := ReceiveLaws.incoming_prepare_read session
  rwa [h] at hsame

omit [AsyncStream S] [SendLaws C] in
-- A call of `read_tls` that ends the stream finds no plaintext waiting.
theorem plaintext_of_idle (hidle : now.Idle zero) (hclear : Clear zero st next)
    (hstrands : (ReceiveLaws.incoming now.session).plaintext ≠ [] →
      ∃ e ∈ st.sessionEvents next, e.Strands) :
    (ReceiveLaws.incoming now.session).plaintext = [] := by
  rcases hidle with hzero | hnil
  · by_contra hne
    obtain ⟨e, hmem, he⟩ := hstrands hne
    exact hclear.2 hzero e hmem he
  · exact hnil

theorem drive_tls_readable_sealed :
    Triple (fun now : Observed S C => Open zero st now ∧ now.Idle zero) drive_tls_readable
      (fun _ => Sealed zero st) fun _ => Sealed zero st := by
  have hfirst : Triple (fun now : Observed S C => Open zero st now ∧ now.Idle zero) flush_tls
      (fun _ now => Open zero st now ∧ now.Idle zero) fun _ => Sealed zero st := by
    refine (flush_tls_keeps ?_).conseq (fun _ h => h) (fun _ _ h => h) fun _ _ h => h.1.toSealed
    rintro now reply inner ⟨h, hidle⟩ hwants hcall
    exact ⟨open_after_write h hwants hcall, by rwa [Idle, incoming_after_write]⟩
  have hlast : Triple (Open (S := S) (C := C) zero st) flush_tls (fun _ => Sealed zero st)
      fun _ => Sealed zero st :=
    (flush_tls_keeps fun _ _ _ h hwants hcall => open_after_write h hwants hcall).conseq
      (fun _ h => h) (fun _ _ h => h.toSealed) fun _ _ h => h.toSealed
  refine drive_tls_readable_rule hfirst ?_ ?_ ?_ hlast
  · rintro now e session ⟨h, hidle⟩ hprepare
    have hgrown := grown_of_transfer (Transfer.prepare_error hidle hprepare)
    exact Open.toSealed ⟨h.1.trans hgrown, fun hclear => h.2 (hclear.of_grown hgrown)⟩
  · rintro now session ⟨h, hidle⟩ hprepare
    have hgrown := grown_of_transfer (Transfer.prepare_none hidle hprepare)
    refine ⟨h.1.trans hgrown, fun hclear _ => ?_⟩
    have hclosed := ReceiveLaws.closed_of_prepare_read now.session (by rw [hprepare])
    have hmem : SessionEvent.prepared now.session.session (.ok none) ∈
        st.sessionEvents { now with session := session, eof := true } :=
      mem_sessionEvents_of_log h.1 (Logged.log_of_prepare_read hprepare)
    rw [incoming_of_prepare_read hprepare]
    exact ⟨plaintext_of_idle hidle hclear fun hne => ⟨_, hmem, hne⟩, .inl hclosed⟩
  · rintro now room session reply inner ⟨h, hidle⟩ hprepare hcall
    have hgrown := grown_of_transfer (Transfer.read hidle hprepare hcall)
    have hopen : (∀ bytes, reply = .Ready (.ok bytes) → bytes ≠ []) →
        Open zero st (now.after_read session reply inner) := by
      intro hne
      refine ⟨h.1.trans hgrown, fun hclear => ?_⟩
      have heof := h.2 (hclear.of_grown hgrown)
      rcases reply with (e | bytes) | _
      · exact heof
      · simp [after_read, heof, hne bytes rfl]
      · exact heof
    rcases reply with (e | bytes) | _
    · exact (hopen fun _ heq => by cases heq).toSealed
    · by_cases hempty : bytes = []
      · subst hempty
        simp only [if_true]
        refine ⟨h.1.trans hgrown, fun hclear _ => ?_⟩
        have hmem : SessionEvent.received session.session [] ∈ st.sessionEvents
            (now.after_read session (.Ready (.ok [])) inner) := by
          have hprepared : st.Grown { now with session := session } :=
            ⟨h.1.1, h.1.2.trans ⟨_, (Logged.log_of_prepare_read hprepare).symm⟩⟩
          exact mem_sessionEvents_of_log hprepared (Logged.log_received session [])
        have hsame : ReceiveLaws.incoming session = ReceiveLaws.incoming now.session :=
          incoming_of_prepare_read hprepare
        have hplain := plaintext_of_idle hidle hclear fun hne => ⟨_, hmem, rfl, fun hnil =>
          hne ((congrArg Incoming.plaintext hsame).symm.trans hnil)⟩
        rw [incoming_after_read, hsame]
        exact ⟨hplain, .inr (by simp)⟩
      · simp only [hempty, if_false]
        have hnext := hopen fun _ heq => by
          cases heq
          exact hempty
        have hprocess := grown_of_transfer (Transfer.process : Transfer zero
          (now.after_read session (.Ready (.ok bytes)) inner) _)
        have hdone : Open zero st { now.after_read session (.Ready (.ok bytes)) inner with
            session := (Connection.process_new_packets
              (now.after_read session (.Ready (.ok bytes)) inner).session).2 } :=
          ⟨hnext.1.trans hprocess, fun hclear => hnext.2 (hclear.of_grown hprocess)⟩
        rcases (Connection.process_new_packets _).1 with message | _
        · exact hdone.toSealed
        · exact hdone
    · exact (hopen fun _ heq => by cases heq).toSealed

theorem complete_handshake_sealed :
    Triple (Sealed (S := S) (C := C) zero st) complete_handshake (fun _ => Sealed zero st)
      fun _ => Sealed zero st := by
  refine complete_handshake_rule (fun _ h _ => h)
    (drive_tls_readable_sealed.conseq ?_ (fun _ _ h => h) fun _ _ h => h)
  rintro now ⟨h, hhandshaking, heof⟩
  exact ⟨⟨h.1, fun _ => heof⟩, .inr (ReceiveLaws.plaintext_eq_nil now.session hhandshaking)⟩

theorem flush_tls_sealed :
    Triple (Sealed (S := S) (C := C) zero st) flush_tls (fun _ => Sealed zero st)
      fun _ => Sealed zero st :=
  flush_tls_keeps fun _ _ _ h hwants hcall => sealed_after_write h hwants hcall

theorem poll_read_sealed (remaining : Nat) (hzero : remaining = 0 → zero = true) :
    Triple (Sealed (S := S) (C := C) zero st) (poll_read remaining) (fun _ => Sealed zero st)
      fun _ => Sealed zero st := by
  refine poll_read_rule (fun _ h _ => h) (complete_handshake_sealed.conseq (fun _ h => h.1)
    (fun _ _ h => h) fun _ _ h => h) (fun _ h _ => h) ?_ drive_tls_readable_sealed
  intro now result session h heof hread
  have hgrown : st.Grown { now with session := session } := by
    cases hread
    exact h.1
  have hopen : Open zero st { now with session := session } := ⟨hgrown, fun _ => heof⟩
  have hidle : (∀ bytes, result = .ok bytes → bytes = []) →
      Idle zero { now with session := session } := by
    intro hresult
    by_cases hpos : remaining = 0
    · exact .inl (hzero hpos)
    · exact .inr (plaintext_of_reader_read (by omega) hread hresult)
  rcases result with e | bytes
  · by_cases hblock : e.kind = .WouldBlock
    · simp only [ends_error, hblock, if_true]
      exact ⟨hopen, hidle fun _ hok => by cases hok⟩
    · simp only [ends_error, hblock, if_false]
      exact hopen.toSealed
  · by_cases hempty : bytes = []
    · simp only [ends_ok, hempty, if_true]
      exact ⟨hopen, hidle fun _ hok => by rw [← Except.ok.inj hok, hempty]⟩
    · simp only [ends_ok, hempty, if_false]
      exact hopen.toSealed

theorem poll_write_sealed (buf : List UInt8) :
    Triple (Sealed (S := S) (C := C) zero st) (poll_write buf) (fun _ => Sealed zero st)
      fun _ => Sealed zero st := by
  have hskipped : Triple (Sealed (S := S) (C := C) zero st) flush_tls (fun _ => Sealed zero st)
      fun e now => if e = .Pending then Sealed zero st now else Sealed zero st now := by
    refine flush_tls_sealed.conseq (fun _ h => h) (fun _ _ h => h) ?_
    intro e now h
    rwa [ite_self]
  refine poll_write_rule (fun _ h _ => h) (complete_handshake_sealed.conseq (fun _ h => h.1)
    (fun _ _ h => h) fun _ _ h => h) hskipped (fun _ h _ => h) ?_ flush_tls_sealed
    fun n => hskipped
  intro now result session h _ hwrite
  have hgrown : Grown now { now with session := session } :=
    ⟨List.prefix_rfl, ⟨_, (Logged.log_of_writer_write hwrite).symm⟩⟩
  have hsame := ReceiveLaws.incoming_writer_write now.session buf
  rw [hwrite] at hsame
  have hnext : Sealed zero st { now with session := session } := by
    refine ⟨h.1.trans hgrown, fun hclear => ?_⟩
    rw [Finished, hsame]
    exact h.2 (hclear.of_grown hgrown)
  rcases result with e | n
  · by_cases hblock : e.kind = .WouldBlock
    · simpa only [ends_error, hblock, if_true] using hnext
    · simpa only [ends_error, hblock, if_false] using hnext
  · by_cases hempty : n = 0
    · simpa only [ends_ok, hempty, if_true] using hnext
    · simpa only [ends_ok, hempty, if_false] using hnext

omit [AsyncStream S] [SendLaws C] in
theorem sealed_of_log {inner : Recorded S} {e : Event} (h : Sealed zero st now)
    (hlog : inner.log = now.inner.log ++ [e]) : Sealed zero st { now with inner := inner } := by
  have hgrown : now.Grown { now with inner := inner } := ⟨⟨_, hlog.symm⟩, List.prefix_rfl⟩
  exact ⟨h.1.trans hgrown, fun hclear => h.2 (hclear.of_grown hgrown)⟩

theorem poll_flush_sealed :
    Triple (Sealed (S := S) (C := C) zero st) poll_flush (fun _ => Sealed zero st)
      fun _ => Sealed zero st := by
  refine poll_flush_rule (fun _ h _ => h) (flush_tls_sealed.conseq (fun _ h => h.1)
    (fun _ _ h => h) fun _ _ h => h) ?_
  intro now reply inner h hcall
  have hnext := sealed_of_log h (Recorded.log_of_poll_flush hcall)
  rcases reply with (e | _) | _ <;> exact hnext

theorem poll_shutdown_sealed :
    Triple (Sealed (S := S) (C := C) zero st) poll_shutdown (fun _ => Sealed zero st)
      fun _ => Sealed zero st := by
  refine poll_shutdown_rule (fun _ h _ => h) ?_ flush_tls_sealed ?_
  · intro now h _
    refine ⟨h.1, fun hclear => ?_⟩
    rw [Finished, ReceiveLaws.incoming_send_close_notify]
    exact h.2 hclear
  · intro now reply inner h hcall
    have hnext := sealed_of_log h (Recorded.log_of_poll_shutdown hcall)
    rcases reply with (e | _) | _ <;> exact hnext

end Sealed

theorem finished_of_step {st after : Observed S C} {call : Call} (h : Step st call after)
    (hclear : Clear call.isZeroRead st after) (hst : st.Finished) : after.Finished := by
  have hends : ∀ {α : Type} {m : Async (Observed S C) Exit α} {outcome : Except Exit α},
      Triple (Sealed call.isZeroRead st) m (fun _ => Sealed call.isZeroRead st)
        (fun _ => Sealed call.isZeroRead st) →
      (∃ fuel, m.run fuel st = some (outcome, after)) → after.Finished := by
    rintro α m outcome htriple ⟨fuel, hrun⟩
    have hpost := htriple fuel st outcome after ⟨Grown.refl st, fun _ => hst⟩ hrun
    rcases outcome with e | a
    · exact hpost.2 hclear
    · exact hpost.2 hclear
  cases call with
  | read remaining outcome =>
      refine hends (poll_read_sealed remaining ?_) h
      rintro rfl
      rfl
  | write buf outcome => exact hends (poll_write_sealed buf) h
  | flush outcome => exact hends poll_flush_sealed h
  | shutdown outcome => exact hends poll_shutdown_sealed h

section Given

variable {given : List UInt8} {zero : Bool} {call : Call} {st next after : Observed S C}

-- What was decrypted is what the owner was given and what still waits for it.
def Given (given : List UInt8) (st : Observed S C) : Prop :=
  (ReceiveLaws.incoming st.session).decrypted =
    given ++ (ReceiveLaws.incoming st.session).plaintext

omit [SendLaws C] in
theorem given_of_transfer (h : Transfer zero st next) (hst : Given given st) :
    Given given next := by
  cases h with
  | write hwants hcall =>
      rw [Given, incoming_after_write]
      exact hst
  | prepare_error hidle hprepare =>
      rw [Given, incoming_of_prepare_read hprepare]
      exact hst
  | prepare_none hidle hprepare =>
      rw [Given, incoming_of_prepare_read hprepare]
      exact hst
  | @read room session reply inner hidle hprepare hcall =>
      rw [Given, incoming_after_read, incoming_of_prepare_read hprepare]
      exact hst
  | process =>
      obtain ⟨more, hdecrypted, hplaintext, -, -⟩ :=
        ReceiveLaws.incoming_process_new_packets st.session
      rw [Given, hdecrypted, hplaintext, hst, List.append_assoc]

theorem poll_read_gives (given : List UInt8) (remaining : Nat) :
    Triple (Given (S := S) (C := C) given) (poll_read remaining)
      (fun bytes => Given (given ++ bytes)) fun _ => Given given := by
  have hkeep : ∀ now next : Observed S C, Given given now → Transfer true now next →
      Given given next := fun _ _ h ht => given_of_transfer ht h
  refine poll_read_rule (fun _ h _ => by rwa [List.append_nil])
    ((complete_handshake_keeps hkeep).conseq (fun _ h => h.1) (fun _ _ h => h.1) fun _ _ h => h)
    (fun _ h _ => by rwa [List.append_nil]) ?_
    ((drive_tls_readable_keeps hkeep).conseq (fun _ h => ⟨h, .inl rfl⟩) (fun _ _ h => h)
      fun _ _ h => h)
  intro now result session h _ hread
  have hincoming := incoming_reader_read hread
  rcases result with e | bytes
  · have hnext : Given given { now with session := session } := by
      rw [Given, hincoming]
      exact h
    by_cases hblock : e.kind = .WouldBlock
    · simpa only [ends_error, hblock, if_true] using hnext
    · simpa only [ends_error, hblock, if_false] using hnext
  · have hnext : Given (given ++ bytes) { now with session := session } := by
      have hbefore : (ReceiveLaws.incoming now.session).decrypted =
          given ++ (ReceiveLaws.incoming now.session).plaintext := h
      rw [hincoming] at hbefore
      rw [Given, List.append_assoc]
      exact hbefore
    by_cases hempty : bytes = []
    · subst hempty
      simpa only [ends_ok, if_true, List.append_nil] using hnext
    · simpa only [ends_ok, hempty, if_false] using hnext

theorem given_of_step (h : Step st call after) (hst : Given given st) :
    Given (given ++ call.filled) after := by
  by_cases hread : ∃ remaining outcome, call = .read remaining outcome
  · obtain ⟨remaining, outcome, rfl⟩ := hread
    obtain ⟨fuel, hrun⟩ := h
    have hpost := poll_read_gives given remaining fuel st outcome after hst hrun
    rcases outcome with e | bytes
    · simpa only [Call.filled, ends_error, List.append_nil] using hpost
    · exact hpost
  · have hnil : call.filled = [] := by
      cases call with
      | read remaining outcome => exact absurd ⟨remaining, outcome, rfl⟩ hread
      | write buf outcome => rfl
      | flush outcome => rfl
      | shutdown outcome => rfl
    rw [hnil, List.append_nil]
    refine h.rule (Given given) ?_ hst
    intro now next hnow hact
    cases hact with
    | transfer h => exact given_of_transfer h hnow
    | reader_read => exact absurd ⟨_, _, rfl⟩ hread
    | writer_write =>
        rw [Given, ReceiveLaws.incoming_writer_write]
        exact hnow
    | send_close_notify =>
        rw [Given, ReceiveLaws.incoming_send_close_notify]
        exact hnow
    | inner_flush => exact hnow
    | inner_shutdown => exact hnow

end Given

section Ended

variable {zero : Bool} {call : Call} {st next after : Observed S C}

-- The end that the session saw was reported by the inner stream.
def EndSeen (st : Observed S C) : Prop :=
  (ReceiveLaws.incoming st.session).ended = true →
    ∃ room, 0 < room ∧ .read room (.Ready (.ok [])) ∈ st.inner.log

omit [AsyncStream S] [SendLaws C] in
theorem endSeen_of_grown (hgrown : st.Grown next)
    (hsame : (ReceiveLaws.incoming next.session).ended =
      (ReceiveLaws.incoming st.session).ended) (hst : st.EndSeen) : next.EndSeen := by
  intro hended
  rw [hsame] at hended
  obtain ⟨room, hpos, hmem⟩ := hst hended
  exact ⟨room, hpos, hgrown.1.subset hmem⟩

omit [SendLaws C] in
theorem endSeen_of_transfer (h : Transfer zero st next) (hst : st.EndSeen) : next.EndSeen := by
  have hgrown := grown_of_transfer h
  cases h with
  | write hwants hcall => exact endSeen_of_grown hgrown (by rw [incoming_after_write]) hst
  | prepare_error hidle hprepare =>
      exact endSeen_of_grown hgrown (by rw [incoming_of_prepare_read hprepare]) hst
  | prepare_none hidle hprepare =>
      exact endSeen_of_grown hgrown (by rw [incoming_of_prepare_read hprepare]) hst
  | @read room session reply inner hidle hprepare hcall =>
      by_cases hempty : reply = .Ready (.ok [])
      · subst hempty
        have hpos := ReceiveLaws.room_pos_of_prepare_read st.session room (by rw [hprepare])
        refine fun _ => ⟨room, hpos, ?_⟩
        rw [inner_after_read, Recorded.log_of_poll_read hcall]
        exact List.mem_append_right _ (List.mem_singleton_self _)
      · refine endSeen_of_grown hgrown ?_ hst
        rw [incoming_after_read, incoming_of_prepare_read hprepare]
        simp [hempty]
  | process =>
      obtain ⟨more, -, -, hended, -⟩ := ReceiveLaws.incoming_process_new_packets st.session
      exact endSeen_of_grown hgrown hended hst

theorem endSeen_of_step (h : Step st call after) (hst : st.EndSeen) : after.EndSeen := by
  refine h.rule (fun now : Observed S C => now.EndSeen) ?_ hst
  intro now next hnow hact
  have hgrown := grown_of_act hact
  cases hact with
  | transfer h => exact endSeen_of_transfer h hnow
  | reader_read => exact endSeen_of_grown hgrown (ended_reader_read _ _) hnow
  | writer_write =>
      exact endSeen_of_grown hgrown (by rw [ReceiveLaws.incoming_writer_write]) hnow
  | send_close_notify =>
      exact endSeen_of_grown hgrown (by rw [ReceiveLaws.incoming_send_close_notify]) hnow
  | inner_flush => exact endSeen_of_grown hgrown rfl hnow
  | inner_shutdown => exact endSeen_of_grown hgrown rfl hnow

end Ended

-- A read ends without bytes only at the end of the stream.
theorem poll_read_empty (remaining : Nat) :
    Triple (fun _ : Observed S C => True) (poll_read remaining)
      (fun bytes st => bytes = [] → st.eof = true) fun _ _ => True := by
  have hdrive : Triple (fun _ : Observed S C => True) drive_tls_readable (fun _ _ => True)
      fun _ _ => True :=
    (drive_tls_readable_keeps fun _ _ (h : True) (_ : Transfer true _ _) => h).conseq
      (fun _ h => ⟨h, .inl rfl⟩) (fun _ _ h => h) fun _ _ h => h
  refine poll_read_rule (fun _ _ heof _ => heof)
    ((complete_handshake_keeps fun _ _ (h : True) (_ : Transfer true _ _) => h).conseq
      (fun _ h => h.1) (fun _ _ h => h.1) fun _ _ h => h) (fun _ _ heof _ => heof) ?_ hdrive
  intro now result session _ _ _
  rcases result with e | bytes
  · by_cases hblock : e.kind = .WouldBlock
    · simp only [ends_error, hblock, if_true]
    · simp only [ends_error, hblock, if_false]
  · by_cases hempty : bytes = []
    · simp only [ends_ok, hempty, if_true]
    · simp only [ends_ok, hempty, if_false]
      exact False.elim

section Failures

variable {st now : Observed S C}

-- The error is an error of the inner stream, a bad message, or a refusal of
-- `read_tls` that no waiting plaintext is to blame for.
def Explained (st now : Observed S C) (e : IoError) : Prop :=
  (∃ room, .read room (.Ready (.error e)) ∈ st.events now) ∨
  (∃ bytes, .write bytes (.Ready (.error e)) ∈ st.events now) ∨
  (∃ before after message, .processed before after ∈ st.sessionEvents now ∧
    (Connection.process_new_packets before).1 = .error message ∧ e = ⟨.InvalidData, message⟩) ∨
  ∃ before, .prepared before (.error e) ∈ st.sessionEvents now ∧
    (ReceiveLaws.incoming before).plaintext = []

def Fails (st : Observed S C) (exit : Exit) (now : Observed S C) : Prop :=
  ∀ e, exit = .Err e → Clear true st now → Explained st now e

theorem flush_tls_fails :
    Triple (Grown (S := S) (C := C) st) flush_tls (fun _ => Grown st) (Fails st) := by
  refine flush_tls_rule (fun _ h _ => h) ?_
  intro now reply inner h hwants hcall
  have hnext : Grown st (now.after_write reply inner) :=
    h.trans (grown_of_transfer (Transfer.write hwants hcall : Transfer true now _))
  rcases reply with (e | n) | _
  · intro error heq _
    obtain rfl := Exit.eq_of_err heq
    exact .inr (.inl ⟨_, mem_events_of_log h (Recorded.log_of_poll_write hcall)⟩)
  · by_cases hzero : n = 0
    · simpa only [hzero, if_true] using hnext
    · simpa only [hzero, if_false] using hnext
  · intro _ heq
    cases heq

theorem drive_tls_readable_fails :
    Triple (Grown (S := S) (C := C) st) drive_tls_readable (fun _ => Grown st) (Fails st) := by
  refine drive_tls_readable_rule flush_tls_fails ?_ ?_ ?_ flush_tls_fails
  · intro now e session h hprepare error heq hclear
    obtain rfl := Exit.eq_of_err heq
    have hmem : SessionEvent.prepared now.session.session (.error error) ∈
        st.sessionEvents { now with session := session } :=
      mem_sessionEvents_of_log h (Logged.log_of_prepare_read hprepare)
    exact .inr (.inr (.inr ⟨_, hmem, not_not.mp (hclear.2 rfl _ hmem)⟩))
  · intro now session h hprepare
    exact h.trans (grown_of_transfer (Transfer.prepare_none (.inl rfl) hprepare :
      Transfer true now _))
  · intro now room session reply inner h hprepare hcall
    have hnext : Grown st (now.after_read session reply inner) :=
      h.trans (grown_of_transfer (Transfer.read (.inl rfl) hprepare hcall : Transfer true now _))
    rcases reply with (e | bytes) | _
    · intro error heq _
      obtain rfl := Exit.eq_of_err heq
      exact .inl ⟨_, mem_events_of_log h (Recorded.log_of_poll_read hcall)⟩
    · by_cases hempty : bytes = []
      · simpa only [hempty, if_true] using hnext
      · simp only [hempty, if_false]
        have hlog := Logged.log_process_new_packets
          (now.after_read session (.Ready (.ok bytes)) inner).session
        rcases hresult : (Connection.process_new_packets
          (now.after_read session (.Ready (.ok bytes)) inner).session).1 with message | _
        · intro error heq _
          exact .inr (.inr (.inl ⟨_, _, message, mem_sessionEvents_of_log hnext hlog, hresult,
            (Exit.Err.inj heq).symm⟩))
        · exact ⟨hnext.1, hnext.2.trans ⟨_, hlog.symm⟩⟩
    · intro _ heq
      cases heq

theorem poll_read_fails :
    Triple (Grown (S := S) (C := C) st) (poll_read 0) (fun _ => Grown st) (Fails st) := by
  have hhandshake : Triple (Grown (S := S) (C := C) st) complete_handshake (fun _ => Grown st)
      (Fails st) :=
    complete_handshake_rule (fun _ h _ => h) (drive_tls_readable_fails.conseq (fun _ h => h.1)
      (fun _ _ h => h) fun _ _ h => h)
  refine poll_read_rule (fun _ h _ => h) (hhandshake.conseq (fun _ h => h.1) (fun _ _ h => h)
    fun _ _ h => h) (fun _ h _ => h) ?_ drive_tls_readable_fails
  intro now result session h _ hread
  have hempty := (ReceiveLaws.reader_read_zero now.session).1
  rw [hread] at hempty
  obtain rfl : result = .ok [] := hempty
  have hlog : session.log = now.session.log := (congrArg (fun r => r.2.log) hread).symm
  simp only [ends_ok, if_true]
  exact ⟨h.1, by rw [hlog]; exact h.2⟩

end Failures

omit [SendLaws C] in
-- Decrypted plaintext is given out by the next read with room for it.
theorem poll_read_returns {st : Observed S C} {remaining : Nat} (hpos : 0 < remaining)
    (heof : st.eof = false) (hplain : (ReceiveLaws.incoming st.session).plaintext ≠ []) :
    ∃ bytes after, bytes ≠ [] ∧
      (ReceiveLaws.incoming st.session).plaintext =
        bytes ++ (ReceiveLaws.incoming after.session).plaintext ∧ after.inner = st.inner ∧
      (poll_read remaining).Returns st (.ok bytes) after := by
  have hopen : Connection.is_handshaking st.session = false := by
    by_contra hhandshaking
    exact hplain (ReceiveLaws.plaintext_eq_nil st.session (by simpa using hhandshaking))
  obtain ⟨bytes, session, hne, hread, hgiven⟩ := reader_read_of_plaintext hpos hplain
  exact ⟨bytes, { st with session := session }, hne, hgiven, rfl,
    poll_read_returns_of_rounds heof hopen (.leave (read_round_gives heof hread hne))⟩

end Observed

end AlphaRay
