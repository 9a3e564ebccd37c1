import AlphaRay.Io.Scripted
import AlphaRay.Lib.Divergence
import AlphaRay.Protocol.Tls.Progress
import AlphaRay.Rustls.NullCipher
import Mathlib.Logic.Relation

namespace AlphaRay

open Lib Async

section Stream

variable {S : Type} [AsyncStream S] {io mid next : S}

-- The inner stream after any number of attempts to write.
def Tried : S → S → Prop :=
  Relation.ReflTransGen fun io next => ∃ bytes, (AsyncStream.poll_write io bytes).2 = next

-- After such attempts the stream is ready with some bytes, and `next` is what it is then.
def Gives (next io : S) : Prop :=
  ∃ mid room bytes, Tried io mid ∧ AsyncStream.poll_read mid room = (.Ready (.ok bytes), next) ∧
    bytes ≠ []

-- Bytes are ready only finitely often.
def FinitelyReady (io : S) : Prop := Acc Gives io

theorem Tried.write (h : Tried io mid) {bytes : List UInt8} {reply : Poll (IoResult Nat)}
    (hcall : AsyncStream.poll_write mid bytes = (reply, next)) : Tried io next :=
  h.tail ⟨bytes, by rw [hcall]⟩

end Stream

section Push

variable {S C : Type} [AsyncStream S] [Connection C]

-- One attempt to write what is queued, if it is neither put off nor failed.
def push (now : C × S) : Option (C × S) :=
  if Connection.wants_write now.1 then
    match AsyncStream.poll_write now.2 (Connection.sendable now.1) with
    | (.Ready (.ok n), inner) => some (Connection.sent now.1 n, inner)
    | _ => none
  else some now

def pushes : Nat → C × S → Option (C × S)
  | 0, now => some now
  | k + 1, now => (push now).bind (pushes k)

theorem pushes_add (j k : Nat) (now : C × S) :
    pushes (j + k) now = (pushes j now).bind (pushes k) := by
  induction j generalizing now with
  | zero =>
      rw [Nat.zero_add]
      rfl
  | succ j ih =>
      rw [Nat.succ_add, pushes, pushes]
      cases push now with
      | none => rfl
      | some next => exact ih next

theorem push_of_reply {session : C} {io inner : S} {n : Nat}
    (hwants : Connection.wants_write session = true)
    (hcall : AsyncStream.poll_write io (Connection.sendable session) = (.Ready (.ok n), inner)) :
    push (session, io) = some (Connection.sent session n, inner) := by
  simp only [push, hwants, if_true, hcall]

theorem push_idle {session : C} (io : S) (hwants : Connection.wants_write session = false) :
    push (session, io) = some (session, io) := by
  simp only [push, hwants, Bool.false_eq_true, if_false]

theorem pushes_fixed {now : C × S} (h : push now = some now) (k : Nat) :
    pushes k now = some now := by
  induction k with
  | zero => rfl
  | succ k ih =>
      rw [pushes, h]
      exact ih

-- How the attempts of a flush end: nothing is queued any more, the inner stream takes
-- nothing, or it puts an attempt off, which a write takes for success.
inductive FlushEnds : C × S → C × S → Prop
  | done {now : C × S} : Connection.wants_write now.1 = false → FlushEnds now now
  | zero {session : C} {io inner : S} : Connection.wants_write session = true →
      AsyncStream.poll_write io (Connection.sendable session) = (.Ready (.ok 0), inner) →
      FlushEnds (session, io) (Connection.sent session 0, inner)
  | put_off {session : C} {io inner : S} {reply : Poll (IoResult Nat)} :
      Connection.wants_write session = true →
      AsyncStream.poll_write io (Connection.sendable session) = (reply, inner) →
      reply = .Pending ∨ (∃ e, reply = .Ready (.error e) ∧ e.kind = .WouldBlock) →
      FlushEnds (session, io) (session, inner)
  | took {session : C} {io inner : S} {n : Nat} {next : C × S} :
      Connection.wants_write session = true →
      AsyncStream.poll_write io (Connection.sendable session) = (.Ready (.ok n), inner) →
      n ≠ 0 → FlushEnds (Connection.sent session n, inner) next → FlushEnds (session, io) next

-- The bytes are offered to the writer.
def offer (buf : List UInt8) (now : C × S) : C × S := ((Connection.writer_write now.1 buf).2, now.2)

variable [WriterLaws C]

-- However often the inner stream is offered what is queued, it neither puts that off nor
-- fails, and what it takes makes no room.
structure Stuck (now : C × S) : Prop where
  settled : WriterLaws.settled now.1
  full : ∀ k, ∃ next, pushes k now = some next ∧ WriterLaws.room next.1 = 0

-- The writer has no room for the bytes, and with what it queues when they are offered
-- the connection is stuck.
structure Jammed (buf : List UInt8) (now : C × S) : Prop where
  room_eq : WriterLaws.room now.1 = 0
  stuck : ∀ k, ∃ next, pushes k (offer buf now) = some next ∧ WriterLaws.room next.1 = 0

variable {buf : List UInt8}

theorem Jammed.of_offer {now : C × S} (h : Jammed buf now) : Stuck (offer buf now) :=
  ⟨WriterLaws.settled_writer_write now.1 buf, h.stuck⟩

theorem Stuck.room_eq {now : C × S} (h : Stuck now) : WriterLaws.room now.1 = 0 := by
  obtain ⟨next, hnow, hroom⟩ := h.full 0
  cases hnow
  exact hroom

omit [AsyncStream S] in
-- Without a key update that waits, and without room, nothing more is queued.
theorem offer_settled {now : C × S} (hsettled : WriterLaws.settled now.1)
    (hroom : WriterLaws.room now.1 = 0) : offer buf now = now :=
  Prod.ext (WriterLaws.writer_write_full now.1 buf hsettled hroom) rfl

theorem Stuck.jammed {now : C × S} (h : Stuck now) : Jammed buf now := by
  refine ⟨h.room_eq, ?_⟩
  rw [offer_settled h.settled h.room_eq]
  exact h.full

theorem Stuck.of_push {session : C} {io inner : S} {n : Nat} (h : Stuck (session, io))
    (hpush : push (session, io) = some (Connection.sent session n, inner)) :
    Stuck (Connection.sent session n, inner) := by
  refine ⟨WriterLaws.settled_sent session n h.settled, fun k => ?_⟩
  obtain ⟨last, hlast, hroom⟩ := h.full (k + 1)
  rw [pushes, hpush] at hlast
  exact ⟨last, hlast, hroom⟩

theorem Stuck.reply {session : C} {io inner : S} {reply : Poll (IoResult Nat)}
    (h : Stuck (session, io)) (hwants : Connection.wants_write session = true)
    (hcall : AsyncStream.poll_write io (Connection.sendable session) = (reply, inner)) :
    ∃ n, reply = .Ready (.ok n) ∧ Stuck (Connection.sent session n, inner) := by
  rcases reply with (e | n) | _
  · obtain ⟨next, hnext, -⟩ := h.full 1
    simp only [pushes, push, hwants, if_true, hcall] at hnext
    cases hnext
  · exact ⟨n, rfl, h.of_push (push_of_reply hwants hcall)⟩
  · obtain ⟨next, hnext, -⟩ := h.full 1
    simp only [pushes, push, hwants, if_true, hcall] at hnext
    cases hnext

theorem settled_of_push {now next : C × S} (h : push now = some next)
    (hsettled : WriterLaws.settled now.1) : WriterLaws.settled next.1 := by
  unfold push at h
  split at h
  · rcases hcall : AsyncStream.poll_write now.2 (Connection.sendable now.1) with
      ⟨(e | n) | _, inner⟩
    · simp only [hcall] at h
      cases h
    · simp only [hcall] at h
      cases h
      exact WriterLaws.settled_sent now.1 n hsettled
    · simp only [hcall] at h
      cases h
  · cases h
    exact hsettled

theorem settled_of_pushes {k : Nat} {now next : C × S} (h : pushes k now = some next)
    (hsettled : WriterLaws.settled now.1) : WriterLaws.settled next.1 := by
  induction k generalizing now with
  | zero =>
      cases h
      exact hsettled
  | succ k ih =>
      obtain ⟨mid, hpush, hrest⟩ := Option.bind_eq_some_iff.mp h
      exact ih hrest (settled_of_push hpush hsettled)

end Push

section Room

variable {S C : Type} [AsyncStream S] [Connection C] [WriterLaws C] [RoomLaws C]

theorem room_of_push {now next : C × S} (h : push now = some next) :
    WriterLaws.room now.1 ≤ WriterLaws.room next.1 := by
  unfold push at h
  split at h
  · rcases hcall : AsyncStream.poll_write now.2 (Connection.sendable now.1) with
      ⟨(e | n) | _, inner⟩
    · simp only [hcall] at h
      cases h
    · simp only [hcall] at h
      cases h
      exact RoomLaws.room_sent now.1 n (AsyncStream.le_length_of_poll_write now.2 _ n (by rw [hcall]))
    · simp only [hcall] at h
      cases h
  · cases h
    exact Nat.le_refl _

theorem room_of_pushes {k : Nat} {now next : C × S} (h : pushes k now = some next) :
    WriterLaws.room now.1 ≤ WriterLaws.room next.1 := by
  induction k generalizing now with
  | zero =>
      cases h
      exact Nat.le_refl _
  | succ k ih =>
      obtain ⟨mid, hpush, hrest⟩ := Option.bind_eq_some_iff.mp h
      exact (room_of_push hpush).trans (ih hrest)

end Room

namespace TlsStream

variable {S C : Type} [AsyncStream S] [Connection C] {st : TlsStream S C} {buf : List UInt8}

section Mono

theorem flush_tls_mono : Mono (flush_tls : Async (TlsStream S C) Exit Unit) := by
  refine .repeat_until (fun _ => .bind (.act _) fun wants => ?_) ()
  cases wants with
  | false => exact .pure _
  | true =>
      refine .bind (.act _) fun result => ?_
      rcases result with e | n
      · exact .throw _
      · by_cases hzero : n = 0
        · simp only [hzero, if_true]
          exact .bind (.act _) fun _ => .pure _
        · simp only [hzero, if_false]
          exact .pure _

theorem drive_tls_readable_mono : Mono (drive_tls_readable : Async (TlsStream S C) Exit Unit) := by
  refine .bind flush_tls_mono fun _ => .bind (.act _) fun result => ?_
  rcases result with e | n
  · exact .throw _
  · by_cases hzero : n = 0
    · simp only [hzero, if_true]
      exact .act _
    · simp only [hzero, if_false]
      refine .bind (.act _) fun result => ?_
      rcases result with e | _
      · exact .throw _
      · exact flush_tls_mono

theorem complete_handshake_mono : Mono (complete_handshake : Async (TlsStream S C) Exit Unit) := by
  refine .repeat_until (fun _ => .bind (.act _) fun handshaking => .bind (.act _) fun eof => ?_) ()
  by_cases hagain : (handshaking && !eof) = true
  · simp only [hagain, if_true]
    exact .bind drive_tls_readable_mono fun _ => .pure _
  · rw [if_neg hagain]
    exact .pure _

theorem try_flush_mono : Mono (try_flush : Async (TlsStream S C) Exit Unit) := by
  refine .bind flush_tls_mono.attempt fun result => ?_
  rcases result with (_ | e | panic) | _
  · exact .pure _
  · exact .throw _
  · exact .throw _
  · exact .pure _

theorem write_round_mono (buf : List UInt8) :
    Mono (write_round buf : Async (TlsStream S C) Exit (Pass Unit Nat)) := by
  refine .bind (.act _) fun result => ?_
  rcases result with e | n
  · by_cases hblock : e.kind = .WouldBlock
    · simp only [hblock, if_true]
      exact .bind flush_tls_mono fun _ => .pure _
    · simp only [hblock, if_false]
      exact .throw _
  · by_cases hzero : n = 0
    · simp only [hzero, if_true]
      exact .bind flush_tls_mono fun _ => .pure _
    · simp only [hzero, if_false]
      exact .bind try_flush_mono fun _ => .pure _

end Mono

theorem complete_handshake_rounds_of_eof (heof : st.eof = true) :
    Rounds (fun _ : Unit => handshake_round) () st (.ok ()) st := by
  refine .leave (.bind (.act _ st) (.bind (.act _ st) ?_))
  simp only [heof, Bool.not_true, Bool.and_false, Bool.false_eq_true, if_false]
  exact .pure _ _

variable [SendLaws C]

section Handshake

theorem try_flush_total : Total (try_flush : Async (TlsStream S C) Exit Unit) := by
  intro st
  obtain ⟨result, after, hflush⟩ := flush_tls_total st
  rcases result with (_ | e | panic) | _
  · exact ⟨_, after, hflush.attempt.bind (.pure _ _)⟩
  · exact ⟨_, after, hflush.attempt.bind (.throw _ _)⟩
  · exact ⟨_, after, hflush.attempt.bind (.throw _ _)⟩
  · exact ⟨_, after, hflush.attempt.bind (.pure _ _)⟩

theorem flush_tls_tries (io : S) :
    Triple (fun now : TlsStream S C => Tried io now.inner) flush_tls (fun _ now => Tried io now.inner)
      fun _ _ => True := by
  refine flush_tls_rule (fun _ h _ => h) ?_
  intro now reply inner h _ hcall
  rcases reply with (e | n) | _
  · trivial
  · have hnext : Tried io (now.after_write (.Ready (.ok n)) inner).inner := h.write hcall
    simpa only [ite_self] using hnext
  · trivial

-- Driving ends with the flag set, unless the inner stream was ready with some bytes.
theorem drive_tls_readable_gives (io : S) :
    Triple (fun now : TlsStream S C => Tried io now.inner) drive_tls_readable
      (fun _ now => now.eof = true ∨ ∃ next, Gives next io ∧ Tried next now.inner)
      fun _ _ => True := by
  have hlast : Triple
      (fun now : TlsStream S C => ∃ next, Gives next io ∧ Tried next now.inner) flush_tls
      (fun _ now => now.eof = true ∨ ∃ next, Gives next io ∧ Tried next now.inner)
      fun _ _ => True := by
    intro fuel now result after hnow hrun
    obtain ⟨next, hgives, htried⟩ := hnow
    have hpost := flush_tls_tries next fuel now result after htried hrun
    rcases result with e | _
    · trivial
    · exact .inr ⟨next, hgives, hpost⟩
  refine drive_tls_readable_rule (flush_tls_tries io) (fun _ _ _ _ _ => trivial)
    (fun _ _ _ _ => .inl rfl) ?_ hlast
  intro now room session reply inner htried _ hcall
  rcases reply with (e | bytes) | _
  · trivial
  · by_cases hempty : bytes = []
    · simp only [hempty, if_true]
      exact .inl (by simp [after_read])
    · simp only [hempty, if_false]
      rcases (Connection.process_new_packets
        (now.after_read session (.Ready (.ok bytes)) inner).session).1 with e | _
      · trivial
      · exact ⟨inner, ⟨now.inner, room, bytes, htried, hcall, hempty⟩, .refl⟩
  · trivial

-- A round of the handshake loop that goes on has driven the stream.
theorem handshake_round_cases (st : TlsStream S C) :
    (handshake_round.Returns st (.ok (.leave ())) st) ∨
    (∃ e after, handshake_round.Returns st (.error e) after) ∨
    ∃ after, handshake_round.Returns st (.ok (.again ())) after ∧
      drive_tls_readable.Returns st (.ok ()) after := by
  have hround : ∀ result after, (if (Connection.is_handshaking st.session && !st.eof) = true then do
      drive_tls_readable
      return Pass.again ()
      else return Pass.leave () : Async (TlsStream S C) Exit (Pass Unit Unit)).Returns
        st result after → handshake_round.Returns st result after :=
    fun _ _ h => .bind (.act _ st) (.bind (.act _ st) h)
  by_cases hagain : (Connection.is_handshaking st.session && !st.eof) = true
  · simp only [hagain, if_true] at hround
    obtain ⟨result, after, hdrive⟩ := drive_tls_readable_total st
    rcases result with e | _
    · exact .inr (.inl ⟨e, after, hround _ _ hdrive.bind_error⟩)
    · exact .inr (.inr ⟨after, hround _ _ (hdrive.bind (.pure _ _)), hdrive⟩)
  · rw [if_neg hagain] at hround
    exact .inl (hround _ _ (.pure _ _))

-- The handshake loop ends, since each round that goes on has read some bytes or has set
-- the flag.
theorem complete_handshake_ends (hfinite : FinitelyReady st.inner) :
    ∃ result after, complete_handshake.Returns st result after := by
  suffices hrounds : ∀ io : S, FinitelyReady io → ∀ st : TlsStream S C, Tried io st.inner →
      ∃ result after, Rounds (fun _ : Unit => handshake_round) () st result after by
    obtain ⟨result, after, h⟩ := hrounds st.inner hfinite st .refl
    exact ⟨result, after, h.returns⟩
  intro io hio
  induction hio with
  | intro io _ ih =>
      intro st htried
      rcases handshake_round_cases st with hleave | ⟨e, after, herror⟩ | ⟨mid, hround, hdrive⟩
      · exact ⟨_, _, .leave hleave⟩
      · exact ⟨_, _, .error herror⟩
      · rcases (drive_tls_readable_gives io).of_returns htried hdrive with heof | ⟨next, hgives, hnext⟩
        · exact ⟨_, _, .again hround (complete_handshake_rounds_of_eof heof)⟩
        · obtain ⟨result, after, hrest⟩ := ih next hgives mid hnext
          exact ⟨result, after, .again hround hrest⟩

end Handshake

section Retry

-- The session and the inner stream, which is what attempts to write change.
def view (st : TlsStream S C) : C × S := (st.session, st.inner)

omit [AsyncStream S] [SendLaws C] in
theorem view_after_write (st : TlsStream S C) (n : Nat) (inner : S) :
    (st.after_write (.Ready (.ok n)) inner).view = (Connection.sent st.session n, inner) := rfl

-- A flush that ends well is made of attempts, of which there is at least one if anything
-- was queued.
theorem flush_tls_pushes (st : TlsStream S C) :
    Triple (· = st) flush_tls (fun _ after => ∃ j, pushes j st.view = some after.view ∧
      (j = 0 → Connection.wants_write st.session = false)) fun _ _ => True := by
  have hflush : Triple (fun now : TlsStream S C => ∃ j, pushes j st.view = some now.view ∧
        (j = 0 → now = st)) flush_tls
      (fun _ after => ∃ j, pushes j st.view = some after.view ∧
        (j = 0 → Connection.wants_write st.session = false)) fun _ _ => True := by
    refine flush_tls_rule ?_ ?_
    · rintro now ⟨j, hnow, hsame⟩ hwants
      exact ⟨j, hnow, fun hzero => hsame hzero ▸ hwants⟩
    · rintro now reply inner ⟨j, hnow, -⟩ hwants hcall
      rcases reply with (e | n) | _
      · trivial
      · have hnext : pushes (j + 1) st.view =
            some (now.after_write (.Ready (.ok n)) inner).view := by
          have hpush : push now.view = some (Connection.sent now.session n, inner) :=
            push_of_reply hwants hcall
          rw [pushes_add, hnow, Option.bind_some, pushes, hpush, view_after_write]
          rfl
        have hpos : j + 1 ≠ 0 := Nat.succ_ne_zero j
        by_cases hzero : n = 0
        · simp only [hzero, if_true] at hnext ⊢
          exact ⟨j + 1, hnext, fun h => absurd h hpos⟩
        · simp only [hzero, if_false]
          exact ⟨j + 1, hnext, fun h => absurd h hpos⟩
      · trivial
  exact hflush.conseq (fun now h => ⟨0, by rw [h]; rfl, fun _ => h⟩) (fun _ _ h => h)
    fun _ _ h => h

variable [WriterLaws C]

-- A stream that is stuck stays stuck, and no flush of it ends the call.
theorem flush_tls_stuck :
    Triple (fun now : TlsStream S C => Stuck now.view) flush_tls (fun _ now => Stuck now.view)
      fun _ _ => False := by
  refine flush_tls_rule (fun _ h _ => h) ?_
  intro now reply inner h hwants hcall
  obtain ⟨n, rfl, hnext⟩ := h.reply hwants hcall
  rw [← view_after_write] at hnext
  simpa only [ite_self] using hnext

-- The stream when the bytes have been offered to the session.
def offered (buf : List UInt8) (st : TlsStream S C) : TlsStream S C :=
  { st with session := (Connection.writer_write st.session buf).2 }

omit [SendLaws C] in
-- Without room a round flushes and goes on.
theorem write_round_flushes {result : Except Exit Unit} {after : TlsStream S C}
    (hroom : WriterLaws.room st.session = 0)
    (hflush : flush_tls.Returns (st.offered buf) result after) :
    (write_round buf).Returns st (result.map fun _ => .again ()) after := by
  have hnone : (Connection.writer_write st.session buf).1 = .ok 0 := by
    rw [WriterLaws.writer_write_eq, hroom, Nat.min_zero]
  refine .bind (.act _ st) ?_
  simp only [hnone, if_true]
  rcases result with e | _
  · exact hflush.bind_error
  · exact hflush.bind (.pure _ _)

-- With room it takes something, and leaves the loop whatever its flush does.
theorem write_round_writes (hbuf : buf ≠ []) (hroom : WriterLaws.room st.session ≠ 0) :
    ∃ outcome after, Rounds (fun _ : Unit => write_round buf) () st outcome after := by
  have hpos := List.length_pos_of_ne_nil hbuf
  have hn : min buf.length (WriterLaws.room st.session) ≠ 0 := by omega
  obtain ⟨result, after, hflush⟩ := @try_flush_total S C _ _ _
    { st with session := (Connection.writer_write st.session buf).2 }
  have hround : ∀ result after, (do
      try_flush
      return Pass.leave (min buf.length (WriterLaws.room st.session)) :
        Async (TlsStream S C) Exit (Pass Unit Nat)).Returns
        { st with session := (Connection.writer_write st.session buf).2 } result after →
      (write_round buf).Returns st result after := by
    intro result after h
    refine .bind (.act _ st) ?_
    simp only [WriterLaws.writer_write_eq, hn, if_false]
    exact h
  rcases result with e | _
  · exact ⟨_, after, .error (hround _ _ hflush.bind_error)⟩
  · exact ⟨_, after, .leave (hround _ _ (hflush.bind (.pure _ _)))⟩

theorem write_rounds_diverge (hjammed : Jammed buf st.view) :
    Diverges (repeat_until (fun _ => write_round buf) ()) st := by
  refine .repeat_until (fun _ now => Jammed buf now.view) (fun _ => write_round_mono buf) ?_ () st
    hjammed
  intro _ now hnow
  obtain ⟨result, after, hflush⟩ := flush_tls_total (now.offered buf)
  have hstuck : Stuck (now.offered buf).view := hnow.of_offer
  have hpost := flush_tls_stuck.of_returns hstuck hflush
  rcases result with e | _
  · exact hpost.elim
  · exact ⟨(), after, write_round_flushes hnow.room_eq hflush, hpost.jammed⟩

variable [RoomLaws C]

-- The loop comes to an attempt after which there is room, or which ends the call.
theorem write_rounds_end (hbuf : buf ≠ []) (k : Nat)
    (hk : ¬ ∃ next, pushes k (offer buf st.view) = some next ∧ WriterLaws.room next.1 = 0) :
    ∃ outcome after, Rounds (fun _ : Unit => write_round buf) () st outcome after := by
  induction k using Nat.strong_induction_on generalizing st with
  | _ k ih =>
      by_cases hroom : WriterLaws.room st.session = 0
      · obtain ⟨result, mid, hflush⟩ := flush_tls_total (st.offered buf)
        have hround := @write_round_flushes S C _ _ st buf _ _ _ hroom hflush
        have hpost := (flush_tls_pushes (st.offered buf)).of_returns rfl hflush
        rcases result with e | _
        · exact ⟨_, mid, .error hround⟩
        · obtain ⟨j, hmid, hidle⟩ := hpost
          have hmid : pushes j (offer buf st.view) = some mid.view := hmid
          have hsettled : WriterLaws.settled mid.session :=
            settled_of_pushes hmid (WriterLaws.settled_writer_write st.session buf)
          have hrest : ∃ outcome after, Rounds (fun _ : Unit => write_round buf) () mid outcome
              after := by
            by_cases hnone : WriterLaws.room mid.session = 0
            · have hoffer : offer buf mid.view = mid.view := offer_settled hsettled hnone
              rcases Nat.eq_zero_or_pos j with hzero | hpos
              · subst hzero
                have hidle := hidle rfl
                have hfixed : push (offer buf st.view) = some (offer buf st.view) :=
                  push_idle st.inner hidle
                have hsame := Option.some.inj hmid
                refine absurd ⟨_, pushes_fixed hfixed k, ?_⟩ hk
                rw [hsame]
                exact hnone
              · by_cases hle : k ≤ j
                · -- the flush went past that attempt, and found no room either
                  obtain ⟨i, rfl⟩ := Nat.exists_eq_add_of_le hle
                  rw [pushes_add] at hmid
                  obtain ⟨next, hnext, hlast⟩ := Option.bind_eq_some_iff.mp hmid
                  have hkept : WriterLaws.room next.1 ≤ WriterLaws.room mid.session :=
                    room_of_pushes hlast
                  exact absurd ⟨next, hnext, by omega⟩ hk
                · obtain ⟨i, rfl⟩ := Nat.exists_eq_add_of_le (Nat.le_of_not_le hle)
                  rw [pushes_add, hmid, Option.bind_some] at hk
                  exact ih i (by omega) (by rwa [hoffer])
            · exact write_round_writes hbuf hnone
          obtain ⟨outcome, after, hrounds⟩ := hrest
          exact ⟨outcome, after, .again hround hrounds⟩
      · exact write_round_writes hbuf hroom

end Retry

-- The states in which a write first offers its bytes to the session.
def Offers (st mid : TlsStream S C) : Prop :=
  st.eof = false ∧ ∃ shaken, complete_handshake.Returns st (.ok ()) shaken ∧
    try_flush.Returns shaken (.ok ()) mid

theorem poll_write_diverges [WriterLaws C] {mid : TlsStream S C} (hbuf : buf ≠ [])
    (hoffers : st.Offers mid) (hjammed : Jammed buf mid.view) : Diverges (poll_write buf) st := by
  obtain ⟨heof, shaken, hshaken, hflush⟩ := hoffers
  refine .of_bind (.act _) (eof_flag_returns heof) ?_
  simp only [Bool.false_eq_true, if_false]
  refine .of_bind complete_handshake_mono hshaken (.of_bind try_flush_mono hflush ?_)
  simp only [hbuf, if_false]
  exact write_rounds_diverge hjammed

omit [SendLaws C] in
-- A write that gets past the handshake and the first flush goes on with the loop.
theorem poll_write_returns_of_rounds {mid after : TlsStream S C} {outcome : Except Exit Nat}
    (hbuf : buf ≠ []) (hoffers : st.Offers mid)
    (hrounds : Rounds (fun _ : Unit => write_round buf) () mid outcome after) :
    (poll_write buf).Returns st outcome after := by
  obtain ⟨heof, shaken, hshaken, hflush⟩ := hoffers
  refine .bind (eof_flag_returns heof) ?_
  simp only [Bool.false_eq_true, if_false]
  refine .bind hshaken (.bind hflush ?_)
  simp only [hbuf, if_false]
  exact hrounds.returns

-- It gets there, or it ends before.
theorem offers_or_returns (hfinite : FinitelyReady st.inner) :
    (∃ mid, st.Offers mid) ∨ ∃ outcome after, (poll_write buf).Returns st outcome after := by
  cases heof : st.eof with
  | true => exact .inr ⟨_, st, .bind (eof_flag_returns heof) (.pure _ st)⟩
  | false =>
      obtain ⟨result, shaken, hshaken⟩ := complete_handshake_ends hfinite
      rcases result with e | _
      · refine .inr ⟨.error e, shaken, .bind (eof_flag_returns heof) ?_⟩
        simp only [Bool.false_eq_true, if_false]
        exact hshaken.bind_error
      · obtain ⟨result, mid, hflush⟩ := try_flush_total shaken
        rcases result with e | _
        · refine .inr ⟨.error e, mid, .bind (eof_flag_returns heof) ?_⟩
          simp only [Bool.false_eq_true, if_false]
          exact hshaken.bind hflush.bind_error
        · exact .inl ⟨mid, heof, shaken, hshaken, hflush⟩

-- What `FlushEnds` says of a flush, read backwards from its end.
theorem flush_tls_ends (v : C × S) :
    Triple (fun now : TlsStream S C => FlushEnds now.view v) flush_tls (fun _ now => now.view = v)
      fun e now => e = .Pending ∧ now.view = v := by
  refine flush_tls_rule ?_ ?_
  · intro now h hwants
    generalize hview : now.view = view at h
    cases h with
    | done _ => rfl
    | zero hbusy _ | put_off hbusy _ _ | took hbusy _ _ _ =>
        obtain ⟨rfl, rfl⟩ := Prod.mk.inj hview
        rw [hwants] at hbusy
        cases hbusy
  · intro now reply inner h hwants hcall
    generalize hview : now.view = view at h
    cases h with
    | done hidle =>
        rw [← hview] at hidle
        cases hwants.symm.trans hidle
    | zero _ hsame =>
        obtain ⟨rfl, rfl⟩ := Prod.mk.inj hview
        cases hcall.symm.trans hsame
        rfl
    | put_off _ hsame hreply =>
        obtain ⟨rfl, rfl⟩ := Prod.mk.inj hview
        cases hcall.symm.trans hsame
        rcases hreply with rfl | ⟨e, rfl, hkind⟩
        · exact ⟨rfl, rfl⟩
        · exact ⟨by simp [Exit.of, hkind], rfl⟩
    | took _ hsame hne hrest =>
        obtain ⟨rfl, rfl⟩ := Prod.mk.inj hview
        cases hcall.symm.trans hsame
        simp only [hne, if_false]
        exact hrest

-- And forwards from its beginning.
theorem ends_of_flush_tls (st : TlsStream S C) :
    Triple (fun now : TlsStream S C => ∀ v, FlushEnds now.view v → FlushEnds st.view v) flush_tls
      (fun _ now => FlushEnds st.view now.view)
      fun e now => e = .Pending → FlushEnds st.view now.view := by
  refine flush_tls_rule (fun now h hwants => h _ (.done hwants)) ?_
  intro now reply inner h hwants hcall
  rcases reply with (e | n) | _
  · exact fun hpending => h _ (.put_off hwants hcall (.inr ⟨e, rfl, Exit.kind_of_pending hpending⟩))
  · by_cases hzero : n = 0
    · subst hzero
      exact h _ (.zero hwants hcall)
    · simp only [hzero, if_false]
      exact fun v hrest => h v (.took hwants hcall hzero hrest)
  · exact fun _ => h _ (.put_off hwants hcall (.inl rfl))

theorem try_flush_returns_iff {v : C × S} :
    (∃ mid, try_flush.Returns st (.ok ()) mid ∧ mid.view = v) ↔ FlushEnds st.view v := by
  obtain ⟨result, after, hflush⟩ := flush_tls_total st
  constructor
  · rintro ⟨mid, htried, rfl⟩
    have hpost := (ends_of_flush_tls st).of_returns (fun _ h => h) hflush
    rcases result with (_ | e | panic) | _
    · obtain ⟨-, rfl⟩ := htried.unique (hflush.attempt.bind (.pure _ _))
      exact hpost rfl
    · cases (htried.unique (hflush.attempt.bind (.throw _ _))).1
    · cases (htried.unique (hflush.attempt.bind (.throw _ _))).1
    · obtain ⟨-, rfl⟩ := htried.unique (hflush.attempt.bind (.pure _ _))
      exact hpost
  · intro h
    have hpost := (flush_tls_ends v).of_returns h hflush
    rcases result with e | _
    · obtain ⟨rfl, hview⟩ := hpost
      exact ⟨after, hflush.attempt.bind (.pure _ _), hview⟩
    · exact ⟨after, hflush.attempt.bind (.pure _ _), hpost⟩

omit [SendLaws C] in
-- Past the handshake the loop has nothing to do.
theorem complete_handshake_open (hopen : Connection.is_handshaking st.session = false) :
    complete_handshake.Returns st (.ok ()) st := by
  refine Rounds.returns (.leave (.bind (.act _ st) (.bind (.act _ st) ?_)))
  simp only [hopen, Bool.false_and, Bool.false_eq_true, if_false]
  exact .pure _ _

-- Past the handshake, the bytes are offered where a flush ends.
theorem offers_iff_of_open (hopen : Connection.is_handshaking st.session = false) {v : C × S} :
    (∃ mid, st.Offers mid ∧ mid.view = v) ↔ st.eof = false ∧ FlushEnds st.view v := by
  have hshaken := complete_handshake_open (S := S) hopen
  rw [← try_flush_returns_iff]
  constructor
  · rintro ⟨mid, ⟨heof, shaken, hsame, hflush⟩, hview⟩
    obtain ⟨-, rfl⟩ := hsame.unique hshaken
    exact ⟨heof, mid, hflush, hview⟩
  · rintro ⟨heof, mid, hflush, hview⟩
    exact ⟨mid, ⟨heof, st, hshaken, hflush⟩, hview⟩

-- A write of some bytes returns exactly when it does not come to offer them to a session
-- that is jammed.
theorem poll_write_returns_iff [WriterLaws C] [RoomLaws C] (hfinite : FinitelyReady st.inner)
    (hbuf : buf ≠ []) : (∃ outcome after, (poll_write buf).Returns st outcome after) ↔
      ∀ mid, st.Offers mid → ¬ Jammed buf mid.view := by
  constructor
  · intro hreturns mid hoffers hjammed
    obtain ⟨outcome, after, hreturns⟩ := hreturns
    exact (poll_write_diverges hbuf hoffers hjammed).not_returns hreturns
  · intro hclear
    rcases @offers_or_returns S C _ _ st buf _ hfinite with ⟨mid, hoffers⟩ | hreturns
    · by_cases hroom : WriterLaws.room mid.session = 0
      · obtain ⟨k, hk⟩ := not_forall.mp fun hstuck => hclear mid hoffers ⟨hroom, hstuck⟩
        obtain ⟨outcome, after, hrounds⟩ := write_rounds_end hbuf k hk
        exact ⟨outcome, after, poll_write_returns_of_rounds hbuf hoffers hrounds⟩
      · obtain ⟨outcome, after, hrounds⟩ := write_round_writes hbuf hroom
        exact ⟨outcome, after, poll_write_returns_of_rounds hbuf hoffers hrounds⟩
    · exact hreturns

end TlsStream

-- Over an inner stream that is ready with bytes only finitely often, a write of some bytes
-- returns exactly when it does not come to offer them to a session that is jammed. Past the
-- handshake that is said of the state before the call: the flag is set, or no end of a
-- flush leaves the session jammed.
theorem tls_write_returns_iff {S C : Type} [AsyncStream S] [Connection C] [SendLaws C]
    [WriterLaws C] [RoomLaws C] (st : TlsStream S C) (hfinite : FinitelyReady st.inner)
    (buf : List UInt8) (hbuf : buf ≠ []) :
    ((∃ outcome after, (TlsStream.poll_write buf).Returns st outcome after) ↔
      ∀ mid, st.Offers mid → ¬ Jammed buf mid.view) ∧
    (Connection.is_handshaking st.session = false →
      ((∃ outcome after, (TlsStream.poll_write buf).Returns st outcome after) ↔
        st.eof = true ∨ ∀ next, FlushEnds st.view next → ¬ Jammed buf next)) := by
  have hreturns := @TlsStream.poll_write_returns_iff S C _ _ st buf _ _ _ hfinite hbuf
  refine ⟨hreturns, fun hopen => hreturns.trans ?_⟩
  have hoffers := fun next => @TlsStream.offers_iff_of_open S C _ _ st _ hopen next
  constructor
  · intro hclear
    cases heof : st.eof with
    | true => exact .inl rfl
    | false =>
        refine .inr fun next hflushed => ?_
        obtain ⟨mid, hmid, rfl⟩ := (hoffers next).mpr ⟨heof, hflushed⟩
        exact hclear mid hmid
  · rintro hclear mid hmid
    obtain ⟨heof, hflushed⟩ := (hoffers mid.view).mp ⟨mid, hmid, rfl⟩
    rcases hclear with hset | hclear
    · rw [heof] at hset
      cases hset
    · exact hclear mid.view hflushed

theorem finitelyReady_refusing (io : Refusing) : FinitelyReady io := by
  constructor
  intro next hgives
  obtain ⟨mid, room, bytes, -, hcall, -⟩ := hgives
  cases hcall

-- A stream past its handshake, with this much queued, whose inner stream takes nothing.
def refused (limit : Nat) (queue : List UInt8) : TlsStream Refusing NullCipher where
  inner := ⟨⟩
  session := { NullCipher.new false limit 64 with mode := .traffic [], queue := queue }
  eof := false

-- With room left a write returns, even though nothing of it is sent.
theorem tls_write_returns_with_room : ∃ outcome after,
    (TlsStream.poll_write [5]).Returns (refused 8 []) outcome after := by
  refine ((tls_write_returns_iff _ (finitelyReady_refusing _) [5] (by decide)).2 rfl).mpr (.inr ?_)
  intro next hflushed hjammed
  generalize hview : (refused 8 []).view = view at hflushed
  cases hflushed with
  | done _ =>
      rw [← hview] at hjammed
      exact absurd hjammed.room_eq (by decide)
  | zero hbusy _ | put_off hbusy _ _ | took hbusy _ _ _ =>
      obtain ⟨rfl, rfl⟩ := Prod.mk.inj hview
      cases hbusy

-- The queue is at its limit, so the write goes on forever.
theorem tls_write_spins :
    ¬ ∀ (st : TlsStream Refusing NullCipher) (buf : List UInt8), FinitelyReady st.inner → buf ≠ [] →
      ∃ outcome after, (TlsStream.poll_write buf).Returns st outcome after := by
  intro hreturns
  obtain ⟨outcome, after, hreturns⟩ := hreturns (refused 1 [1, 5]) [7] (finitelyReady_refusing _)
    (by decide)
  have hflushed : FlushEnds (refused 1 [1, 5]).view _ := .zero rfl rfl
  obtain ⟨mid, hoffers, hview⟩ := (TlsStream.offers_iff_of_open rfl).mpr ⟨rfl, hflushed⟩
  have hjammed : Jammed [7] mid.view := by
    rw [hview]
    exact ⟨by decide, fun k => ⟨_, pushes_fixed rfl k, by decide⟩⟩
  exact (TlsStream.poll_write_diverges (by decide) hoffers hjammed).not_returns hreturns

end AlphaRay
