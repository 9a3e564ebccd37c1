import AlphaRay.Protocol.Tls.Progress

namespace AlphaRay

open Lib Async

-- States in which the inner stream is ready with a complete record of application data,
-- which takes at most `pieces` more reads after the next one. Neither an attempt to write nor
-- a read that finds nothing takes it away.
structure Readable {S C : Type} [AsyncStream S] [Connection C] [ReceiveLaws C]
    (ready : Nat → S → C → Prop) : Prop where
  piece : ∀ pieces io c, ready pieces io c → ∃ room session bytes next,
    Connection.prepare_read c = (.ok (some room), session) ∧
    AsyncStream.poll_read io room = (.Ready (.ok bytes), next) ∧ bytes ≠ [] ∧
    (Connection.process_new_packets (Connection.received session bytes)).1 = .ok () ∧
    ((ReceiveLaws.incoming (Connection.process_new_packets
        (Connection.received session bytes)).2).plaintext ≠ [] ∨
      ∃ fewer < pieces, ready fewer next
        (Connection.process_new_packets (Connection.received session bytes)).2)
  after_write : ∀ pieces io c reply next, ready pieces io c → Connection.wants_write c = true →
    AsyncStream.poll_write io (Connection.sendable c) = (reply, next) →
    ready pieces next (match reply with
      | .Ready (.ok n) => Connection.sent c n
      | _ => c)
  after_reader_read : ∀ pieces io c len, ready pieces io c →
    (ReceiveLaws.incoming c).plaintext = [] → ready pieces io (Connection.reader_read c len).2

namespace Observed

open TlsStream

variable {S C : Type} [AsyncStream S] [Connection C] {st now next : Observed S C}

-- The flag says whether a write was refused since `st`.
def Smooth (st now : Observed S C) : Prop :=
  st.Grown now ∧ (now.eof = true ↔ ∃ e ∈ st.events now, e.isRefusedWrite = true)

def Refused (st now : Observed S C) : Prop := ∃ e ∈ st.events now, e.isRefusedWrite = true

def IsReady (ready : Nat → S → C → Prop) (pieces : Nat) (st : Observed S C) : Prop :=
  ready pieces st.inner.stream st.session.session

theorem smooth_after_write {inner : Recorded S} {n : Nat} (h : Smooth st now)
    (hcall : AsyncStream.poll_write now.inner (Connection.sendable now.session) =
      (.Ready (.ok n), inner)) : Smooth st (now.after_write (.Ready (.ok n)) inner) := by
  have hlog := Recorded.log_of_poll_write hcall
  have hevents : st.events (now.after_write (.Ready (.ok n)) inner) = _ :=
    events_of_log h.1 hlog
  refine ⟨⟨h.1.1.trans ⟨_, hlog.symm⟩, h.1.2⟩, ?_⟩
  rw [hevents]
  simp only [after_write, Bool.or_eq_true, decide_eq_true_eq, h.2, List.mem_append,
    List.mem_singleton]
  constructor
  · rintro (⟨e, hmem, he⟩ | hzero)
    · exact ⟨e, .inl hmem, he⟩
    · exact ⟨_, .inr rfl, by simp [Event.isRefusedWrite, hzero]⟩
  · rintro ⟨e, hmem | rfl, he⟩
    · exact .inl ⟨e, hmem, he⟩
    · exact .inr (by simpa [Event.isRefusedWrite] using he)

variable [SendLaws C]

theorem flush_tls_smooth {keep : Observed S C → Prop}
    (hkeep : ∀ now reply inner, keep now → Connection.wants_write now.session = true →
      AsyncStream.poll_write now.inner (Connection.sendable now.session) = (reply, inner) →
      keep (now.after_write reply inner)) :
    Triple (fun now => Smooth st now ∧ keep now) flush_tls (fun _ now => Smooth st now ∧ keep now)
      fun _ => Refused st := by
  refine flush_tls_rule (fun _ h _ => h) ?_
  intro now reply inner h hwants hcall
  have hnext := hkeep now reply inner h.2 hwants hcall
  have hlog := Recorded.log_of_poll_write hcall
  rcases reply with (e | n) | _
  · exact ⟨_, mem_events_of_log h.1.1 hlog, rfl⟩
  · have hsmooth := smooth_after_write h.1 hcall
    by_cases hzero : n = 0
    · simp only [hzero, if_true] at hsmooth hnext ⊢
      exact ⟨hsmooth, hnext⟩
    · simp only [hzero, if_false]
      exact ⟨hsmooth, hnext⟩
  · exact ⟨_, mem_events_of_log h.1.1 hlog, rfl⟩

variable [ReceiveLaws C] {ready : Nat → S → C → Prop} {pieces : Nat}

omit [SendLaws C] in
theorem isReady_after_write (hready : Readable ready) {reply : Poll (IoResult Nat)}
    {inner : Recorded S} (h : IsReady ready pieces now)
    (hwants : Connection.wants_write now.session = true)
    (hcall : AsyncStream.poll_write now.inner (Connection.sendable now.session) =
      (reply, inner)) : IsReady ready pieces (now.after_write reply inner) := by
  rcases hstream : AsyncStream.poll_write now.inner.stream (Connection.sendable now.session) with
    ⟨reply', next⟩
  have hreply := Recorded.poll_write_eq hstream
  rw [hcall] at hreply
  cases hreply
  have hnext :=
    hready.after_write pieces now.inner.stream now.session.session reply next h hwants hstream
  rcases reply with (e | n) | _
  · exact hnext
  · exact hnext
  · exact hnext

-- Plaintext, or fewer pieces of the record that are still to be read.
def Nearer (ready : Nat → S → C → Prop) (pieces : Nat) (now : Observed S C) : Prop :=
  (ReceiveLaws.incoming now.session).plaintext ≠ [] ∨ ∃ fewer < pieces, IsReady ready fewer now

omit [SendLaws C] in
-- What the wrapped session and the wrapped stream promise, the logged ones keep.
theorem IsReady.piece (hready : Readable ready) (h : IsReady ready pieces now)
    {reply : IoResult (Option Nat)} {session : Logged C}
    (hprepare : Connection.prepare_read now.session = (reply, session)) :
    ∃ room bytes, reply = .ok (some room) ∧ bytes ≠ [] ∧
      ∀ {answer inner}, AsyncStream.poll_read now.inner room = (answer, inner) →
        answer = .Ready (.ok bytes) ∧
        (Connection.process_new_packets (Connection.received session bytes)).1 = .ok () ∧
        Nearer ready pieces { now.after_read session answer inner with
          session := (Connection.process_new_packets (Connection.received session bytes)).2 } := by
  obtain ⟨room, session', bytes, next, hroom, hread, hne, hok, hnearer⟩ := hready.piece _ _ _ h
  cases hprepare
  refine ⟨room, bytes, ?_, hne, ?_⟩
  · change (Connection.prepare_read now.session.session).1 = _
    rw [hroom]
  · intro answer inner hcall
    have hanswer := Recorded.poll_read_eq hread
    rw [hcall] at hanswer
    cases hanswer
    have hsession : (Connection.prepare_read now.session.session).2 = session' := by rw [hroom]
    refine ⟨rfl, ?_, ?_⟩
    · change (Connection.process_new_packets (Connection.received
        (Connection.prepare_read now.session.session).2 bytes)).1 = _
      rw [hsession]
      exact hok
    · change _ ∨ ∃ fewer < pieces, ready fewer next (Connection.process_new_packets
        (Connection.received (Connection.prepare_read now.session.session).2 bytes)).2
      rw [hsession]
      refine hnearer.imp_left fun hplain => ?_
      change (ReceiveLaws.incoming (Connection.process_new_packets (Connection.received
        (Connection.prepare_read now.session.session).2 bytes)).2).plaintext ≠ []
      rw [hsession]
      exact hplain

omit [SendLaws C] [ReceiveLaws C] in
theorem smooth_after_read {room : Nat} {session done : Logged C} {inner : Recorded S}
    {bytes : List UInt8} (h : Smooth st now)
    (hprepare : Connection.prepare_read now.session = (.ok (some room), session))
    (hcall : AsyncStream.poll_read now.inner room = (.Ready (.ok bytes), inner)) (hne : bytes ≠ [])
    (hdone : session.log <+: done.log) :
    Smooth st { now.after_read session (.Ready (.ok bytes)) inner with session := done } := by
  have hlog := Recorded.log_of_poll_read hcall
  have hprepared : now.session.log <+: session.log :=
    ⟨_, (Logged.log_of_prepare_read hprepare).symm⟩
  refine ⟨⟨h.1.1.trans ⟨_, hlog.symm⟩, h.1.2.trans (hprepared.trans hdone)⟩, ?_⟩
  have hevents : st.events { now.after_read session (.Ready (.ok bytes)) inner with
    session := done } = _ := events_of_log h.1 hlog
  rw [hevents]
  simp [after_read, hne, h.2, Event.isRefusedWrite]

omit [SendLaws C] in
-- A read of the session that finds nothing changes nothing that matters.
theorem Smooth.reader_read (hsmooth : Smooth st now) (hready : Readable ready)
    (h : IsReady ready pieces now) (hplain : (ReceiveLaws.incoming now.session).plaintext = [])
    (hended : (ReceiveLaws.incoming now.session).ended = false) {remaining : Nat}
    {result : IoResult (List UInt8)} {session : Logged C}
    (hread : Connection.reader_read now.session remaining = (result, session)) :
    Smooth st { now with session := session } ∧
      IsReady ready pieces { now with session := session } ∧
      (ReceiveLaws.incoming session).ended = false := by
  have hlog : session.log = now.session.log := (congrArg (fun r => r.2.log) hread).symm
  have hsession : session.session = (Connection.reader_read now.session.session remaining).2 :=
    (congrArg (fun r => r.2.session) hread).symm
  refine ⟨⟨⟨hsmooth.1.1, ?_⟩, hsmooth.2⟩, ?_, ?_⟩
  · rw [hlog]
    exact hsmooth.1.2
  · rw [IsReady, hsession]
    exact hready.after_reader_read _ _ _ remaining h hplain
  · have hsame := ended_reader_read now.session remaining
    rw [hread, hended] at hsame
    exact hsame

-- When the record is there, `drive_tls_readable` reads a piece of it unless a write is refused.
theorem drive_tls_readable_ready (hready : Readable ready) :
    Triple (fun now : Observed S C => Smooth st now ∧ IsReady ready pieces now ∧
        (ReceiveLaws.incoming now.session).ended = false) drive_tls_readable
      (fun _ now => Smooth st now ∧ Nearer ready pieces now ∧
        (ReceiveLaws.incoming now.session).ended = false)
      fun _ => Refused st := by
  have hfirst : Triple (fun now : Observed S C => Smooth st now ∧ IsReady ready pieces now ∧
        (ReceiveLaws.incoming now.session).ended = false) flush_tls
      (fun _ now => Smooth st now ∧ IsReady ready pieces now ∧
        (ReceiveLaws.incoming now.session).ended = false) fun _ => Refused st := by
    refine flush_tls_smooth fun now reply inner h hwants hcall => ?_
    rw [incoming_after_write]
    exact ⟨isReady_after_write hready h.1 hwants hcall, h.2⟩
  have hlast : Triple (fun now : Observed S C => Smooth st now ∧ Nearer ready pieces now ∧
        (ReceiveLaws.incoming now.session).ended = false) flush_tls
      (fun _ now => Smooth st now ∧ Nearer ready pieces now ∧
        (ReceiveLaws.incoming now.session).ended = false) fun _ => Refused st := by
    refine flush_tls_smooth fun now reply inner h hwants hcall => ?_
    unfold Nearer
    rw [incoming_after_write]
    refine ⟨h.1.imp_right ?_, h.2⟩
    rintro ⟨fewer, hlt, hfewer⟩
    exact ⟨fewer, hlt, isReady_after_write hready hfewer hwants hcall⟩
  refine drive_tls_readable_rule hfirst ?_ ?_ ?_ hlast
  · rintro now e session ⟨-, h, -⟩ hprepare
    obtain ⟨room, bytes, hroom, -⟩ := h.piece hready hprepare
    cases hroom
  · rintro now session ⟨-, h, -⟩ hprepare
    obtain ⟨room, bytes, hroom, -⟩ := h.piece hready hprepare
    cases hroom
  · rintro now room session reply inner ⟨hsmooth, h, hended⟩ hprepare hcall
    obtain ⟨room', bytes, hroom, hne, hpiece⟩ := h.piece hready hprepare
    cases hroom
    obtain ⟨rfl, hok, hnearer⟩ := hpiece hcall
    simp only [hne, if_false]
    rw [show (Connection.process_new_packets (now.after_read session (.Ready (.ok bytes))
      inner).session).1 = .ok () from hok]
    refine ⟨smooth_after_read hsmooth hprepare hcall hne
      ((List.prefix_append _ _).trans (List.prefix_append _ _)), hnearer, ?_⟩
    obtain ⟨more, -, -, hsame, -⟩ :=
      ReceiveLaws.incoming_process_new_packets (Connection.received session bytes)
    change (ReceiveLaws.incoming (Connection.process_new_packets
      (Connection.received session bytes)).2).ended = false
    rw [hsame, ReceiveLaws.incoming_received, incoming_of_prepare_read hprepare, hended]
    simp [hne]

omit [SendLaws C] [ReceiveLaws C] in
-- A refused write ends the read without plaintext.
theorem read_rounds_refused {remaining : Nat} (hsmooth : Smooth st now) (heof : now.eof = true) :
    ∃ outcome after, Rounds (fun _ => read_round remaining) () now outcome after ∧
      ((∃ bytes, bytes ≠ [] ∧ outcome = .ok bytes) ↔ ¬ Refused st after) := by
  have hrefused : Refused st now := hsmooth.2.mp heof
  refine ⟨.ok [], now, .leave (.bind (eof_flag_returns heof) (.pure _ _)), ?_⟩
  simp [hrefused]

omit [SendLaws C] in
theorem read_rounds_gives {remaining : Nat} (hpos : 0 < remaining) (hsmooth : Smooth st now)
    (heof : now.eof = false) (hplain : (ReceiveLaws.incoming now.session).plaintext ≠ []) :
    ∃ outcome after, Rounds (fun _ => read_round remaining) () now outcome after ∧
      ((∃ bytes, bytes ≠ [] ∧ outcome = .ok bytes) ↔ ¬ Refused st after) := by
  obtain ⟨bytes, last, hne, hgives, -⟩ := reader_read_of_plaintext hpos hplain
  have hclear : ¬ Refused st now := fun hrefused => by
    rw [hsmooth.2.mpr hrefused] at heof
    cases heof
  refine ⟨.ok bytes, { now with session := last }, .leave (read_round_gives heof hgives hne), ?_⟩
  exact ⟨fun _ => hclear, fun _ => ⟨bytes, hne, rfl⟩⟩

-- The loop of `poll_read` reads one piece after the other until it gets at the plaintext.
theorem read_rounds_ready (hready : Readable ready) {remaining : Nat} (hpos : 0 < remaining)
    (hsmooth : Smooth st now) (h : IsReady ready pieces now)
    (hended : (ReceiveLaws.incoming now.session).ended = false) :
    ∃ outcome after, Rounds (fun _ => read_round remaining) () now outcome after ∧
      ((∃ bytes, bytes ≠ [] ∧ outcome = .ok bytes) ↔ ¬ Refused st after) := by
  induction pieces using Nat.strong_induction_on generalizing now with
  | _ pieces ih =>
      cases heof : now.eof with
      | true => exact read_rounds_refused hsmooth heof
      | false =>
          by_cases hplain : (ReceiveLaws.incoming now.session).plaintext = []
          swap
          · exact read_rounds_gives hpos hsmooth heof hplain
          -- the reader has nothing, so the stream is driven
          rcases hread : Connection.reader_read now.session remaining with ⟨result, session⟩
          have hidle := reader_read_idle hpos hplain hended hread
          obtain ⟨outcome, mid, hdrive⟩ := drive_tls_readable_total (S := Recorded S)
            (C := Logged C) { now with session := session }
          have hstart := hsmooth.reader_read hready h hplain hended hread
          have hpost := (drive_tls_readable_ready hready).of_returns hstart hdrive
          rcases outcome with e | _
          · refine ⟨.error e, mid, .error (read_round_drives heof hread hidle
              (.bind_error hdrive)), ?_⟩
            simp only [reduceCtorEq, and_false, exists_false, false_iff, not_not]
            exact hpost
          · obtain ⟨hmid, hnearer, hopen⟩ := hpost
            have hagain := read_round_drives heof hread hidle (.bind hdrive (.pure _ _))
            have hrest : ∃ outcome after,
                Rounds (fun _ => read_round remaining) () mid outcome after ∧
                ((∃ bytes, bytes ≠ [] ∧ outcome = .ok bytes) ↔ ¬ Refused st after) := by
              rcases hnearer with hgot | ⟨fewer, hlt, hfewer⟩
              · cases hflag : mid.eof with
                | true => exact read_rounds_refused hmid hflag
                | false => exact read_rounds_gives hpos hmid hflag hgot
              · exact ih fewer hlt hmid hfewer hopen
            obtain ⟨outcome, after, hrounds, hiff⟩ := hrest
            exact ⟨outcome, after, .again hagain hrounds, hiff⟩

-- A read past the handshake, with a record ready: it gives plaintext out, unless the
-- flag is set or a write is refused.
theorem poll_read_ready (hready : Readable ready) {remaining : Nat} (hpos : 0 < remaining)
    (hopen : Connection.is_handshaking st.session = false) (h : IsReady ready pieces st)
    (hend : (ReceiveLaws.incoming st.session).ended = true → st.eof = true) :
    ∃ outcome after, (poll_read remaining).Returns st outcome after ∧
      ((∃ bytes, bytes ≠ [] ∧ outcome = .ok bytes) ↔ st.eof = false ∧ ¬ Refused st after) := by
  cases heof : st.eof with
  | true =>
      refine ⟨.ok [], st, .bind (eof_flag_returns heof) (.pure _ _), ?_⟩
      simp
  | false =>
      have hended : (ReceiveLaws.incoming st.session).ended = false := by
        by_contra hended
        rw [hend (by simpa using hended)] at heof
        cases heof
      have hsmooth : Smooth st st := ⟨Grown.refl st, by simp [heof, events]⟩
      obtain ⟨outcome, after, hrounds, hiff⟩ := read_rounds_ready hready hpos hsmooth h hended
      refine ⟨outcome, after, poll_read_returns_of_rounds heof hopen hrounds, ?_⟩
      simpa only [true_and] using hiff

section Flag

variable {zero : Bool} {call : Call} {after : Observed S C}

-- Where the session has seen the end, the stream has noticed it.
def EndNoticed (st : Observed S C) : Prop :=
  (ReceiveLaws.incoming st.session).ended = true → st.eof = true

omit [SendLaws C] in
theorem endNoticed_of_transfer (h : Transfer zero st next) (hst : st.EndNoticed) :
    next.EndNoticed := by
  intro hended
  cases h with
  | write hwants hcall =>
      rw [incoming_after_write] at hended
      exact eof_after_write st _ _ (hst hended)
  | prepare_error hidle hprepare =>
      rw [incoming_of_prepare_read hprepare] at hended
      exact hst hended
  | prepare_none hidle hprepare => rfl
  | @read room session reply inner hidle hprepare hcall =>
      rw [incoming_after_read, incoming_of_prepare_read hprepare] at hended
      rcases Bool.or_eq_true_iff.mp hended with hended | hempty
      · exact eof_after_read st _ _ _ (hst hended)
      · simp [of_decide_eq_true hempty, after_read]
  | process =>
      obtain ⟨more, -, -, hsame, -⟩ := ReceiveLaws.incoming_process_new_packets st.session
      rw [hsame] at hended
      exact hst hended

theorem endNoticed_of_step (h : Step st call after) (hst : st.EndNoticed) : after.EndNoticed := by
  refine h.rule (fun now : Observed S C => now.EndNoticed) ?_ hst
  intro now next hnow hact
  cases hact with
  | transfer h => exact endNoticed_of_transfer h hnow
  | reader_read =>
      intro hended
      rw [ended_reader_read] at hended
      exact hnow hended
  | writer_write =>
      intro hended
      rw [ReceiveLaws.incoming_writer_write] at hended
      exact hnow hended
  | send_close_notify =>
      intro hended
      rw [ReceiveLaws.incoming_send_close_notify] at hended
      exact hnow hended
  | inner_flush => exact hnow
  | inner_shutdown => exact hnow

end Flag

end Observed

end AlphaRay
