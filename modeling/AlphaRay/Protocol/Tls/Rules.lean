import AlphaRay.Lib.Hoare
import AlphaRay.Protocol.Tls

namespace AlphaRay

open Lib Async

namespace TlsStream

section Rules

variable {S C : Type} [AsyncStream S] [Connection C]

-- The stream after its inner stream replied to `write_tls`, with the flag that
-- `flush_tls` raises when nothing was taken.
def after_write (st : TlsStream S C) (reply : Poll (IoResult Nat)) (inner : S) :
    TlsStream S C :=
  match reply with
  | .Ready (.ok n) => {
      inner := inner
      session := Connection.sent st.session n
      eof := st.eof || decide (n = 0) }
  | _ => { st with inner := inner }

-- The stream after its inner stream replied to `read_tls`, with the flag that
-- `drive_tls_readable` raises at the end.
def after_read (st : TlsStream S C) (session : C) (reply : Poll (IoResult (List UInt8)))
    (inner : S) : TlsStream S C :=
  match reply with
  | .Ready (.ok bytes) => {
      inner := inner
      session := Connection.received session bytes
      eof := st.eof || decide (bytes = []) }
  | _ => { st with inner := inner, session := session }

section Flush

variable [SendLaws C]

theorem sendable_ne_nil {session : C} (hwants : Connection.wants_write session = true) :
    Connection.sendable session ≠ [] :=
  SendLaws.sendable_ne_nil session ((SendLaws.wants_write_iff session).mp hwants)

theorem flush_round_rule {pre : TlsStream S C → Prop} {ok : Pass Unit Unit → TlsStream S C → Prop}
    {err : Exit → TlsStream S C → Prop}
    (hdone : ∀ st, pre st → Connection.wants_write st.session = false → ok (.leave ()) st)
    (hwrite : ∀ st reply inner, pre st → Connection.wants_write st.session = true →
      AsyncStream.poll_write st.inner (Connection.sendable st.session) = (reply, inner) →
      match reply with
      | .Ready (.ok n) =>
          ok (if n = 0 then .leave () else .again ()) (st.after_write reply inner)
      | .Ready (.error e) => err (.of e) (st.after_write reply inner)
      | .Pending => err .Pending (st.after_write reply inner)) :
    Triple pre flush_round ok err := by
  unfold flush_round
  refine .bind (fun wants st => pre st ∧ Connection.wants_write st.session = wants)
    (.act _ fun st h => ⟨h, rfl⟩) ?_
  rintro (_ | _)
  · simp only [Bool.false_eq_true, if_false]
    exact .pure _ fun st h => hdone st h.1 h.2
  · simp only [if_true]
    refine .bind_result (fun n next => if n = 0 then ok (.leave ()) { next with eof := true }
      else ok (.again ()) next) (fun e => err (.of e)) (.act _ ?_) ?_ fun _ => .throw _ fun _ h => h
    · rintro st ⟨hpre, hwants⟩
      have hcase := hwrite st
      rcases hcall : AsyncStream.poll_write st.inner (Connection.sendable st.session) with
        ⟨(e | n) | _, inner⟩
      · simpa [Connection.write_tls, sendable_ne_nil hwants, SyncAdapter.write, hcall, after_write]
          using hcase _ inner hpre hwants hcall
      · have hreply := hcase _ inner hpre hwants hcall
        by_cases hzero : n = 0
        · simpa [Connection.write_tls, sendable_ne_nil hwants, SyncAdapter.write, hcall,
            after_write, hzero] using hreply
        · simpa [Connection.write_tls, sendable_ne_nil hwants, SyncAdapter.write, hcall,
            after_write, hzero] using hreply
      · simpa [Connection.write_tls, sendable_ne_nil hwants, SyncAdapter.write, hcall, after_write]
          using hcase _ inner hpre hwants hcall
    · intro n
      by_cases hzero : n = 0
      · simp only [hzero, if_true]
        exact .bind (fun _ => ok (.leave ())) (.act _ fun st h => h) fun _ =>
          .pure _ fun st h => h
      · simp only [hzero, if_false]
        exact .pure _ fun st h => h

-- `flush_tls` ends with nothing left to write, or when the inner stream took
-- nothing, failed, or was not ready.
theorem flush_tls_rule {inv ok : TlsStream S C → Prop} {err : Exit → TlsStream S C → Prop}
    (hdone : ∀ st, inv st → Connection.wants_write st.session = false → ok st)
    (hwrite : ∀ st reply inner, inv st → Connection.wants_write st.session = true →
      AsyncStream.poll_write st.inner (Connection.sendable st.session) = (reply, inner) →
      match reply with
      | .Ready (.ok n) =>
          if n = 0 then ok (st.after_write reply inner) else inv (st.after_write reply inner)
      | .Ready (.error e) => err (.of e) (st.after_write reply inner)
      | .Pending => err .Pending (st.after_write reply inner)) :
    Triple inv flush_tls (fun _ => ok) err := by
  have hround : Triple inv flush_round (rounds (fun _ => inv) fun _ => ok) err := by
    refine flush_round_rule (fun st h hwants => hdone st h hwants) ?_
    intro st reply inner hinv hwants hcall
    have hcase := hwrite st reply inner hinv hwants hcall
    rcases reply with (e | n) | _
    · exact hcase
    · by_cases hzero : n = 0
      · simpa only [hzero, if_true, rounds] using hcase
      · simpa only [hzero, if_false, rounds] using hcase
    · exact hcase
  exact .repeat_until (fun _ => inv) (fun _ => hround) ()

end Flush

-- `drive_tls_readable` flushes, reads once, and flushes what the read led to.
theorem drive_tls_readable_rule {pre mid late ok : TlsStream S C → Prop}
    {err : Exit → TlsStream S C → Prop} (hfirst : Triple pre flush_tls (fun _ => mid) err)
    (hfailed : ∀ st e session, mid st →
      Connection.prepare_read st.session = (.error e, session) →
      err (.of e) { st with session := session })
    (hclosed : ∀ st session, mid st → Connection.prepare_read st.session = (.ok none, session) →
      ok { st with session := session, eof := true })
    (hread : ∀ st room session reply inner, mid st →
      Connection.prepare_read st.session = (.ok (some room), session) →
      AsyncStream.poll_read st.inner room = (reply, inner) →
      match reply with
      | .Ready (.ok bytes) =>
          if bytes = [] then ok (st.after_read session reply inner)
          else
            ends (fun _ => late) (fun e => err (.Err ⟨.InvalidData, e⟩))
              (Connection.process_new_packets (st.after_read session reply inner).session).1
              { st.after_read session reply inner with
                session := (Connection.process_new_packets
                  (st.after_read session reply inner).session).2 }
      | .Ready (.error e) => err (.of e) (st.after_read session reply inner)
      | .Pending => err .Pending (st.after_read session reply inner))
    (hlast : Triple late flush_tls (fun _ => ok) err) :
    Triple pre drive_tls_readable (fun _ => ok) err := by
  unfold drive_tls_readable
  refine .bind (fun _ => mid) hfirst fun _ => ?_
  refine .bind_result (fun n next => if n = 0 then ok { next with eof := true } else
      ends (fun _ => late) (fun e => err (.Err ⟨.InvalidData, e⟩))
        (Connection.process_new_packets next.session).1
        { next with session := (Connection.process_new_packets next.session).2 })
    (fun e => err (.of e)) (.act _ ?_) ?_ fun _ => .throw _ fun _ h => h
  · intro st hmid
    rcases hprepare : Connection.prepare_read st.session with ⟨e | room | room, session⟩
    · simpa [Connection.read_tls, hprepare] using hfailed st e session hmid hprepare
    · simpa [Connection.read_tls, hprepare] using hclosed st session hmid hprepare
    · rcases hcall : AsyncStream.poll_read st.inner room with ⟨(e | bytes) | _, inner⟩
      · simpa [Connection.read_tls, hprepare, SyncAdapter.read, hcall, after_read] using
          hread st room session _ inner hmid hprepare hcall
      · have hcase := hread st room session _ inner hmid hprepare hcall
        by_cases hempty : bytes = []
        · simpa [Connection.read_tls, hprepare, SyncAdapter.read, hcall, after_read, hempty]
            using hcase
        · simpa [Connection.read_tls, hprepare, SyncAdapter.read, hcall, after_read, hempty]
            using hcase
      · simpa [Connection.read_tls, hprepare, SyncAdapter.read, hcall, after_read] using
          hread st room session _ inner hmid hprepare hcall
  · intro n
    by_cases hzero : n = 0
    · simp only [hzero, if_true]
      exact .act _ fun st h => h
    · simp only [hzero, if_false]
      exact .bind_result (fun _ => late) (fun e => err (.Err ⟨.InvalidData, e⟩))
        (.act _ fun st h => h) (fun _ => hlast) fun _ => .throw _ fun _ h => h

theorem complete_handshake_rule {inv ok : TlsStream S C → Prop} {err : Exit → TlsStream S C → Prop}
    (hdone : ∀ st, inv st → Connection.is_handshaking st.session = false ∨ st.eof = true → ok st)
    (hdrive : Triple (fun st => inv st ∧ Connection.is_handshaking st.session = true ∧
      st.eof = false) drive_tls_readable (fun _ => inv) err) :
    Triple inv complete_handshake (fun _ => ok) err := by
  refine .repeat_until (fun _ => inv) (fun _ => ?_) ()
  unfold handshake_round
  refine .bind (fun handshaking st => inv st ∧
    Connection.is_handshaking st.session = handshaking) (.act _ fun st h => ⟨h, rfl⟩) ?_
  intro handshaking
  refine .bind (fun eof st => inv st ∧ Connection.is_handshaking st.session = handshaking ∧
    st.eof = eof) (.act _ fun st h => ⟨h.1, h.2, rfl⟩) ?_
  intro eof
  by_cases hagain : (handshaking && !eof) = true
  · simp only [hagain, if_true]
    refine .bind (fun _ => inv) (hdrive.conseq ?_ (fun _ _ h => h) fun _ _ h => h) fun _ =>
      .pure _ fun st h => h
    rintro st ⟨hinv, rfl, rfl⟩
    simpa [hinv] using hagain
  · rw [if_neg hagain]
    refine .pure _ ?_
    rintro st ⟨hinv, rfl, rfl⟩
    refine hdone st hinv ?_
    cases hhandshaking : Connection.is_handshaking st.session with
    | false => exact .inl rfl
    | true => exact .inr (by simpa [hhandshaking] using hagain)

theorem poll_read_rule {remaining : Nat} {pre inv idle : TlsStream S C → Prop}
    {ok : List UInt8 → TlsStream S C → Prop} {err : Exit → TlsStream S C → Prop}
    (hentry : ∀ st, pre st → st.eof = true → ok [] st)
    (hhandshake : Triple (fun st => pre st ∧ st.eof = false) complete_handshake (fun _ => inv) err)
    (hend : ∀ st, inv st → st.eof = true → ok [] st)
    (hreader : ∀ st result session, inv st → st.eof = false →
      Connection.reader_read st.session remaining = (result, session) →
      ends (fun bytes next => if bytes = [] then idle next else ok bytes next)
        (fun e next => if e.kind = .WouldBlock then idle next else err (.Err e) next)
        result { st with session := session })
    (hdrive : Triple idle drive_tls_readable (fun _ => inv) err) :
    Triple pre (poll_read remaining) ok err := by
  unfold poll_read
  refine .bind (fun eof st => pre st ∧ st.eof = eof) (.act _ fun st h => ⟨h, rfl⟩) ?_
  rintro (_ | _)
  · simp only [Bool.false_eq_true, if_false]
    refine .bind (fun _ => inv) hhandshake fun _ => .repeat_until (fun _ => inv) (fun _ => ?_) ()
    unfold read_round
    refine .bind (fun eof st => inv st ∧ st.eof = eof) (.act _ fun st h => ⟨h, rfl⟩) ?_
    have hagain : Triple idle (do
        drive_tls_readable
        return Pass.again () : Async (TlsStream S C) Exit (Pass Unit (List UInt8)))
        (rounds (fun _ => inv) ok) err :=
      .bind (fun _ => inv) hdrive fun _ => .pure _ fun st h => h
    rintro (_ | _)
    · simp only [Bool.false_eq_true, if_false]
      refine .bind_result (fun bytes st => if bytes = [] then idle st else ok bytes st)
        (fun e st => if e.kind = .WouldBlock then idle st else err (.Err e) st) (.act _ ?_) ?_ ?_
      · rintro st ⟨hinv, heof⟩
        exact hreader st _ _ hinv heof rfl
      · intro bytes
        by_cases hempty : bytes = []
        · simp only [hempty, if_true]
          exact hagain
        · simp only [hempty, if_false]
          exact .pure _ fun st h => h
      · intro e
        by_cases hblock : e.kind = .WouldBlock
        · simp only [hblock, if_true]
          exact hagain
        · simp only [hblock, if_false]
          exact .throw _ fun st h => h
    · simp only [if_true]
      exact .pure _ fun st h => hend st h.1 h.2
  · simp only [if_true]
    exact .pure _ fun st h => hentry st h.1 h.2

-- A flush that is not waited for.
theorem try_flush_rule {pre ok : TlsStream S C → Prop} {err : Exit → TlsStream S C → Prop}
    (hflush : Triple pre flush_tls (fun _ => ok)
      fun e st => if e = .Pending then ok st else err e st) :
    Triple pre try_flush (fun _ => ok) err := by
  unfold try_flush
  refine .bind_result (fun _ => ok) (fun e st => if e = .Pending then ok st else err e st)
    (.attempt hflush) (fun _ => .pure _ fun _ h => h) fun e => ?_
  cases e with
  | Pending => exact .pure _ fun st h => by simpa only [if_true] using h
  | Err e => exact .throw _ fun st h => by simpa only [reduceCtorEq, if_false] using h
  | Panicked panic => exact .throw _ fun st h => by simpa only [reduceCtorEq, if_false] using h

theorem poll_write_rule {buf : List UInt8} {pre shaken ready retry : TlsStream S C → Prop}
    {wrote : Nat → TlsStream S C → Prop} {ok : Nat → TlsStream S C → Prop}
    {err : Exit → TlsStream S C → Prop}
    (hentry : ∀ st, pre st → st.eof = true → ok 0 st)
    (hhandshake : Triple (fun st => pre st ∧ st.eof = false) complete_handshake
      (fun _ => shaken) err)
    (hfirst : Triple shaken flush_tls (fun _ => ready)
      fun e st => if e = .Pending then ready st else err e st)
    (hempty : ∀ st, ready st → buf = [] → ok 0 st)
    (hwriter : ∀ st result session, ready st → buf ≠ [] →
      Connection.writer_write st.session buf = (result, session) →
      ends (fun n next => if n = 0 then retry next else wrote n next)
        (fun e next => if e.kind = .WouldBlock then retry next else err (.Err e) next)
        result { st with session := session })
    (hretry : Triple retry flush_tls (fun _ => ready) err)
    (hlast : ∀ n, Triple (wrote n) flush_tls (fun _ => ok n)
      fun e st => if e = .Pending then ok n st else err e st) :
    Triple pre (poll_write buf) ok err := by
  unfold poll_write
  refine .bind (fun eof st => pre st ∧ st.eof = eof) (.act _ fun st h => ⟨h, rfl⟩) ?_
  rintro (_ | _)
  · simp only [Bool.false_eq_true, if_false]
    refine .bind (fun _ => shaken) hhandshake fun _ =>
      .bind (fun _ => ready) (try_flush_rule hfirst) fun _ => ?_
    by_cases hnil : buf = []
    · simp only [hnil, if_true]
      exact .pure _ fun st h => hempty st h hnil
    · simp only [hnil, if_false]
      refine .repeat_until (fun _ => ready) (fun _ => ?_) ()
      unfold write_round
      have hagain : Triple retry (do
          flush_tls
          return Pass.again () : Async (TlsStream S C) Exit (Pass Unit Nat))
          (rounds (fun _ => ready) ok) err :=
        .bind (fun _ => ready) hretry fun _ => .pure _ fun st h => h
      refine .bind_result (fun n st => if n = 0 then retry st else wrote n st)
        (fun e st => if e.kind = .WouldBlock then retry st else err (.Err e) st) (.act _ ?_) ?_ ?_
      · intro st hready
        exact hwriter st _ _ hready hnil rfl
      · intro n
        by_cases hzero : n = 0
        · simp only [hzero, if_true]
          exact hagain
        · simp only [hzero, if_false]
          exact .bind (fun _ => ok n) (try_flush_rule (hlast n)) fun _ => .pure _ fun st h => h
      · intro e
        by_cases hblock : e.kind = .WouldBlock
        · simp only [hblock, if_true]
          exact hagain
        · simp only [hblock, if_false]
          exact .throw _ fun st h => h
  · simp only [if_true]
    exact .pure _ fun st h => hentry st h.1 h.2

theorem poll_flush_rule {pre mid ok : TlsStream S C → Prop} {err : Exit → TlsStream S C → Prop}
    (hentry : ∀ st, pre st → st.eof = true → ok st)
    (hflush : Triple (fun st => pre st ∧ st.eof = false) flush_tls (fun _ => mid) err)
    (hreply : ∀ st reply inner, mid st → AsyncStream.poll_flush st.inner = (reply, inner) →
      forwards (fun _ => ok) err reply { st with inner := inner }) :
    Triple pre poll_flush (fun _ => ok) err := by
  unfold poll_flush
  refine .bind (fun eof st => pre st ∧ st.eof = eof) (.act _ fun st h => ⟨h, rfl⟩) ?_
  rintro (_ | _)
  · simp only [Bool.false_eq_true, if_false]
    exact .bind (fun _ => mid) hflush fun _ => .bind (forwards (fun _ => ok) err)
      (.act _ fun st h => hreply st _ _ h rfl) forward_rule
  · simp only [if_true]
    exact .pure _ fun st h => hentry st h.1 h.2

theorem poll_shutdown_rule {pre closing mid ok : TlsStream S C → Prop}
    {err : Exit → TlsStream S C → Prop}
    (hentry : ∀ st, pre st → st.eof = true → ok st)
    (hclose : ∀ st, pre st → st.eof = false →
      closing { st with session := Connection.send_close_notify st.session })
    (hflush : Triple closing flush_tls (fun _ => mid) err)
    (hreply : ∀ st reply inner, mid st → AsyncStream.poll_shutdown st.inner = (reply, inner) →
      forwards (fun _ => ok) err reply { st with inner := inner }) :
    Triple pre poll_shutdown (fun _ => ok) err := by
  unfold poll_shutdown
  refine .bind (fun eof st => pre st ∧ st.eof = eof) (.act _ fun st h => ⟨h, rfl⟩) ?_
  rintro (_ | _)
  · simp only [Bool.false_eq_true, if_false]
    refine .bind (fun _ => closing) (.act _ fun st h => hclose st h.1 h.2) fun _ => ?_
    exact .bind (fun _ => mid) hflush fun _ => .bind (forwards (fun _ => ok) err)
      (.act _ fun st h => hreply st _ _ h rfl) forward_rule
  · simp only [if_true]
    exact .pure _ fun st h => hentry st h.1 h.2

section Returns

variable {st after : TlsStream S C} {remaining : Nat}

omit [AsyncStream S] [Connection C] in
theorem eof_flag_returns {eof : Bool} (heof : st.eof = eof) :
    eof_flag.Returns st (.ok eof) st := by
  rw [← heof]
  exact .act _ st

theorem complete_handshake_returns (hopen : Connection.is_handshaking st.session = false) :
    complete_handshake.Returns st (.ok ()) st := by
  refine Rounds.returns (.leave (.bind (.act _ st) (.bind (.act _ st) ?_)))
  simp only [hopen, Bool.false_and, Bool.false_eq_true, if_false]
  exact .pure _ _

theorem poll_read_returns_of_rounds {outcome : Except Exit (List UInt8)} (heof : st.eof = false)
    (hopen : Connection.is_handshaking st.session = false)
    (hrounds : Rounds (fun _ => read_round remaining) () st outcome after) :
    (poll_read remaining).Returns st outcome after := by
  refine .bind (eof_flag_returns heof) ?_
  simp only [Bool.false_eq_true, if_false]
  exact .bind (complete_handshake_returns hopen) hrounds.returns

theorem read_round_gives {bytes : List UInt8} {session : C} (heof : st.eof = false)
    (hread : Connection.reader_read st.session remaining = (.ok bytes, session))
    (hne : bytes ≠ []) :
    (read_round remaining).Returns st (.ok (.leave bytes)) { st with session := session } := by
  refine .bind (eof_flag_returns heof) ?_
  simp only [Bool.false_eq_true, if_false]
  refine .bind (.act _ st) ?_
  simp only [hread, hne, if_false]
  exact .pure _ _

-- The reader has nothing, so the stream is driven.
theorem read_round_drives {result : IoResult (List UInt8)} {session : C}
    {outcome : Except Exit (Pass Unit (List UInt8))} (heof : st.eof = false)
    (hread : Connection.reader_read st.session remaining = (result, session))
    (hidle : result = .ok [] ∨ ∃ e, result = .error e ∧ e.kind = .WouldBlock)
    (hagain : (do
      drive_tls_readable
      return Pass.again () : Async (TlsStream S C) Exit (Pass Unit (List UInt8))).Returns
        { st with session := session } outcome after) :
    (read_round remaining).Returns st outcome after := by
  refine .bind (eof_flag_returns heof) ?_
  simp only [Bool.false_eq_true, if_false]
  refine .bind (.act _ st) ?_
  simp only [hread]
  rcases hidle with rfl | ⟨e, rfl, hkind⟩
  · simpa only [if_true] using hagain
  · simpa only [hkind, if_true] using hagain

end Returns

end Rules

end TlsStream

end AlphaRay
