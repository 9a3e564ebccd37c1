import AlphaRay.Protocol.VisionTls.Decoder
import AlphaRay.Protocol.VisionTls.Encoder
import AlphaRay.Protocol.VisionTls.Poll

namespace AlphaRay

open Lib Async

section Adapter

variable {S C : Type} [AsyncStream S] [Connection C]

-- What a call of `read_tls` does with the session and the inner stream.
inductive ReadTls (session : C) (io : S) : IoResult Nat → C → S → Prop
  | refused {e : IoError} {next : C} : Connection.prepare_read session = (.error e, next) →
      ReadTls session io (.error e) next io
  | finished {next : C} : Connection.prepare_read session = (.ok none, next) →
      ReadTls session io (.ok 0) next io
  | ready {room : Nat} {next : C} {bytes : List UInt8} {inner : S} :
      Connection.prepare_read session = (.ok (some room), next) →
      AsyncStream.poll_read io room = (.Ready (.ok bytes), inner) →
      ReadTls session io (.ok bytes.length) (Connection.received next bytes) inner
  | failed {room : Nat} {next : C} {e : IoError} {inner : S} :
      Connection.prepare_read session = (.ok (some room), next) →
      AsyncStream.poll_read io room = (.Ready (.error e), inner) →
      ReadTls session io (.error e) next inner
  | pending {room : Nat} {next : C} {inner : S} :
      Connection.prepare_read session = (.ok (some room), next) →
      AsyncStream.poll_read io room = (.Pending, inner) →
      ReadTls session io (.error ErrorKind.WouldBlock.into) next inner

theorem read_tls_cases {session next : C} {io inner : S} {result : IoResult Nat}
    (h : Connection.read_tls SyncAdapter.read session io = (result, next, inner)) :
    ReadTls session io result next inner := by
  rcases hprepare : Connection.prepare_read session with ⟨e | room | room, prepared⟩
  · simp only [Connection.read_tls, hprepare] at h
    cases h
    exact .refused hprepare
  · simp only [Connection.read_tls, hprepare] at h
    cases h
    exact .finished hprepare
  · rcases hcall : AsyncStream.poll_read io room with ⟨(e | bytes) | _, after⟩
    · simp only [Connection.read_tls, hprepare, SyncAdapter.read, hcall] at h
      cases h
      exact .failed hprepare hcall
    · simp only [Connection.read_tls, hprepare, SyncAdapter.read, hcall] at h
      cases h
      exact .ready hprepare hcall
    · simp only [Connection.read_tls, hprepare, SyncAdapter.read, hcall] at h
      cases h
      exact .pending hprepare hcall

-- What a call of `write_tls` does, with the adapter of `VisionTlsStream`.
inductive WriteTls (session : C) (io : S) : IoResult Nat → C → S → Prop
  | empty : Connection.sendable session = [] → WriteTls session io (.ok 0) session io
  | taken {n : Nat} {inner : S} : Connection.sendable session ≠ [] → 0 < n →
      AsyncStream.poll_write io (Connection.sendable session) = (.Ready (.ok n), inner) →
      WriteTls session io (.ok n) (Connection.sent session n) inner
  | zero {inner : S} : Connection.sendable session ≠ [] →
      AsyncStream.poll_write io (Connection.sendable session) = (.Ready (.ok 0), inner) →
      WriteTls session io (.error ErrorKind.WriteZero.into) session inner
  | failed {e : IoError} {inner : S} : Connection.sendable session ≠ [] →
      AsyncStream.poll_write io (Connection.sendable session) = (.Ready (.error e), inner) →
      WriteTls session io (.error e) session inner
  | pending {inner : S} : Connection.sendable session ≠ [] →
      AsyncStream.poll_write io (Connection.sendable session) = (.Pending, inner) →
      WriteTls session io (.error ErrorKind.WouldBlock.into) session inner

theorem write_tls_cases {session next : C} {io inner : S} {result : IoResult Nat}
    (h : Connection.write_tls VisionTlsStream.SyncAdapter.write session io =
      (result, next, inner)) : WriteTls session io result next inner := by
  by_cases hempty : Connection.sendable session = []
  · simp only [Connection.write_tls, hempty, if_true] at h
    cases h
    exact .empty hempty
  · rcases hcall : AsyncStream.poll_write io (Connection.sendable session) with
      ⟨(e | n) | _, after⟩
    · simp only [Connection.write_tls, hempty, if_false, VisionTlsStream.SyncAdapter.write,
        hcall] at h
      cases h
      exact .failed hempty hcall
    · by_cases hzero : n = 0
      · subst hzero
        simp only [Connection.write_tls, hempty, if_false, VisionTlsStream.SyncAdapter.write,
          hcall, ne_eq, not_false_eq_true, and_self, if_true] at h
        cases h
        exact .zero hempty hcall
      · simp only [Connection.write_tls, hempty, if_false, VisionTlsStream.SyncAdapter.write,
          hcall, hzero, false_and] at h
        cases h
        exact .taken hempty (by omega) hcall
    · simp only [Connection.write_tls, hempty, if_false, VisionTlsStream.SyncAdapter.write,
        hcall] at h
      cases h
      exact .pending hempty hcall

-- Only the end of the inner stream is noticed before the packets are processed.
theorem incoming_of_read_tls [ReceiveLaws C] {session next : C} {io inner : S}
    {result : IoResult Nat} (h : ReadTls session io result next inner) :
    ∃ ended, ReceiveLaws.incoming next = { ReceiveLaws.incoming session with ended := ended } := by
  have hprepared : ∀ {reply prepared}, Connection.prepare_read session = (reply, prepared) →
      ReceiveLaws.incoming prepared = ReceiveLaws.incoming session := by
    intro reply prepared hprepare
    have hsame := ReceiveLaws.incoming_prepare_read session
    rwa [hprepare] at hsame
  cases h with
  | refused hprepare => exact ⟨_, hprepared hprepare⟩
  | finished hprepare => exact ⟨_, hprepared hprepare⟩
  | ready hprepare hcall =>
      have hsame := hprepared hprepare
      exact ⟨_, (ReceiveLaws.incoming_received _ _).trans (by rw [hsame])⟩
  | failed hprepare hcall => exact ⟨_, hprepared hprepare⟩
  | pending hprepare hcall => exact ⟨_, hprepared hprepare⟩

theorem incoming_of_write_tls [ReceiveLaws C] {session next : C} {io inner : S}
    {result : IoResult Nat} (h : WriteTls session io result next inner) :
    ReceiveLaws.incoming next = ReceiveLaws.incoming session := by
  cases h with
  | empty hempty => rfl
  | taken hsendable hpos hcall => exact ReceiveLaws.incoming_sent session _
  | zero hsendable hcall => rfl
  | failed hsendable hcall => rfl
  | pending hsendable hcall => rfl

end Adapter

namespace VisionTlsStream

variable {S C R : Type} [AsyncStream S] [Connection C]

omit [AsyncStream S] [Connection C] in
-- Decoding leaves the inner stream and the session alone.
theorem unframe_read_buf_frame {st next : VisionTlsStream S C R} {buf out : ReadBuf}
    {result : IoResult Nat} (h : st.unframe_read_buf buf = (result, next, out)) :
    next.inner = st.inner ∧ next.session = st.session := by
  obtain ⟨_, _, _, _, _, _, hnext⟩ := reads_of_unframe h
  exact ⟨by rw [hnext], by rw [hnext]⟩

omit [AsyncStream S] [Connection C] in
-- And so does framing.
theorem frame_buf_frame [Rng R] {st next : VisionTlsStream S C R} {buf : List UInt8}
    (h : st.frame_buf buf = .ok next) : next.inner = st.inner ∧ next.session = st.session := by
  obtain ⟨_, _, _, _, _, _, _, _, hnext⟩ := writes_of_frame_buf h
  exact ⟨by rw [hnext], by rw [hnext]⟩

-- More plaintext for the decoder.
def refill (now : VisionTlsStream S C R × ReadBuf) (bytes : List UInt8) :
    VisionTlsStream S C R × ReadBuf :=
  ({ now.1 with read_buf := now.1.read_buf ++ bytes }, now.2)

section Read

variable {inv ok : VisionTlsStream S C R × ReadBuf → Prop}
  {err : Exit → VisionTlsStream S C R × ReadBuf → Prop}

theorem pull_round_rule {idle : VisionTlsStream S C R × ReadBuf → Prop}
    (got late : Nat → VisionTlsStream S C R × ReadBuf → Prop)
    (hread : ∀ st buf n session inner, idle (st, buf) →
      ReadTls st.session st.inner n session inner →
      ends got (fun e => err (.of e)) n ({ st with inner := inner, session := session }, buf))
    (hprocess : ∀ n st buf, got n (st, buf) →
      ends (fun _ => late n) (fun e => err (.Err ⟨.InvalidData, e⟩))
        (Connection.process_new_packets st.session).1
        ({ st with session := (Connection.process_new_packets st.session).2 }, buf))
    (hlast : ∀ n st buf result session, late n (st, buf) →
      Connection.reader_read st.session 4096 = (result, session) →
      ends (fun bytes now => if bytes = [] then if n = 0 then ok now else inv now
          else inv (refill now bytes))
        (fun e => err (.of e)) result ({ st with session := session }, buf)) :
    Triple idle pull_round (rounds (fun _ => inv) fun _ => ok) err := by
  unfold pull_round
  refine .bind_result got (fun e => err (.of e)) (.act _ ?_) (fun n => ?_)
    fun _ => .throw _ fun _ h => h
  · intro now hidle
    exact hread now.1 now.2 _ _ _ hidle (read_tls_cases rfl)
  · refine .bind_result (fun _ => late n) (fun e => err (.Err ⟨.InvalidData, e⟩)) (.act _ ?_)
      (fun _ => ?_) fun _ => .throw _ fun _ h => h
    · intro now hgot
      exact hprocess n now.1 now.2 hgot
    · refine .bind_result (fun bytes now => if bytes = [] then if n = 0 then ok now else inv now
        else inv (refill now bytes)) (fun e => err (.of e)) (.act _ ?_) (fun bytes => ?_)
        fun _ => .throw _ fun _ h => h
      · intro now hlate
        exact hlast n now.1 now.2 _ _ hlate rfl
      · by_cases hempty : bytes = []
        · simp only [hempty, if_true]
          by_cases hzero : n = 0
          · simp only [hzero, if_true]
            exact .pure _ fun _ h => h
          · simp only [hzero, if_false]
            exact .pure _ fun _ h => h
        · simp only [hempty, if_false]
          exact .bind (fun _ => inv) (.act _ fun _ h => h) fun _ => .pure _ fun _ h => h

theorem read_round_rule (plain idle : VisionTlsStream S C R × ReadBuf → Prop)
    (hunframe : ∀ st buf result next out, inv (st, buf) →
      st.unframe_read_buf buf = (result, next, out) →
      ends (fun n now => if 0 < n ∨ now.2.remaining = 0 then ok now else plain now)
        (fun e => err (.Err e)) result (next, out))
    (hreader : ∀ st buf result session, plain (st, buf) →
      Connection.reader_read st.session 4096 = (result, session) →
      ends (fun bytes now => if bytes = [] then idle now else inv (refill now bytes))
        (fun e now => if e.kind = .WouldBlock then idle now else err (.Err e) now) result
        ({ st with session := session }, buf))
    (hpull : Triple idle pull_round (rounds (fun _ => inv) fun _ => ok) err) :
    Triple inv read_round (rounds (fun _ => inv) fun _ => ok) err := by
  unfold read_round
  refine .bind_result (fun n now => if 0 < n ∨ now.2.remaining = 0 then ok now else plain now)
    (fun e => err (.Err e)) (.act _ ?_) (fun n => ?_) fun _ => .throw _ fun _ h => h
  · intro now hinv
    exact hunframe now.1 now.2 _ _ _ hinv rfl
  by_cases hpos : 0 < n
  · simp only [hpos, if_true, true_or]
    exact .pure _ fun _ h => h
  · simp only [hpos, if_false, false_or]
    refine .bind (fun len now => if len = 0 then ok now else plain now) (.act _ fun _ h => h) ?_
    intro len
    by_cases hfull : len = 0
    · simp only [hfull, if_true]
      exact .pure _ fun _ h => h
    · simp only [hfull, if_false]
      refine .bind_result
        (fun bytes now => if bytes = [] then idle now else inv (refill now bytes))
        (fun e now => if e.kind = .WouldBlock then idle now else err (.Err e) now)
        (.act _ ?_) (fun bytes => ?_) fun e => ?_
      · intro now hplain
        exact hreader now.1 now.2 _ _ hplain rfl
      · by_cases hempty : bytes = []
        · simp only [hempty, if_true]
          exact hpull
        · simp only [hempty, if_false]
          exact .bind (fun _ => inv) (.act _ fun _ h => h) fun _ => .pure _ fun _ h => h
      · by_cases hblock : e.kind = .WouldBlock
        · simp only [hblock, if_true]
          exact hpull
        · simp only [hblock, if_false]
          exact .throw _ fun _ h => h

theorem poll_read_rule (h : Triple inv read_round (rounds (fun _ => inv) fun _ => ok) err) :
    Triple inv poll_read (fun _ => ok) err :=
  .repeat_until (fun _ => inv) (fun _ => h) ()

-- The call gives out what the caller's buffer was filled with.
theorem read_filled_rule {len : Nat} {pre : VisionTlsStream S C R × ReadBuf → Prop}
    {ok : List UInt8 → VisionTlsStream S C R → Prop} {failed : Exit → VisionTlsStream S C R → Prop}
    (h : Triple pre poll_read (fun _ now => ok now.2.filled now.1) fun e now => failed e now.1) :
    Triple (fun st => pre (st, .new len)) (read len) ok failed := by
  refine .bind (fun out => ok out.2.filled) (h.with_var.conseq (fun _ h => h) (fun _ _ h => h) ?_)
    fun _ => .pure _ fun _ h => h
  intro e st hfailed
  obtain ⟨buf, hst⟩ := hfailed
  exact hst

-- What is said of the stream alone is said of the call.
theorem read_rule {len : Nat} {pre after : VisionTlsStream S C R → Prop}
    {failed : Exit → VisionTlsStream S C R → Prop}
    (h : Triple (fun now => pre now.1) poll_read (fun _ now => after now.1)
      fun e now => failed e now.1) : Triple pre (read len) (fun _ => after) failed :=
  @read_filled_rule S C R _ _ len (fun now => pre now.1) (fun _ => after) failed h

end Read

section Write

variable {inv ok : VisionTlsStream S C R → Prop} {err : Exit → VisionTlsStream S C R → Prop}

theorem write_tls_rule {pre : VisionTlsStream S C R → Prop}
    {wrote : Nat → VisionTlsStream S C R → Prop} {bad : IoError → VisionTlsStream S C R → Prop}
    (h : ∀ st result session inner, pre st → WriteTls st.session st.inner result session inner →
      ends wrote bad result { st with inner := inner, session := session }) :
    Triple pre write_tls (ends wrote bad) err :=
  .act _ fun st hpre => h st _ _ _ hpre (write_tls_cases rfl)

-- The loop of `poll_flush` and of `poll_shutdown`.
theorem flush_rule (hdone : ∀ st, inv st → Connection.wants_write st.session = false → ok st)
    (hwrite : ∀ st result session inner, inv st → Connection.wants_write st.session = true →
      WriteTls st.session st.inner result session inner →
      ends (fun _ => inv) (fun e => err (.of e)) result
        { st with inner := inner, session := session }) :
    Triple inv (.repeat_until (fun _ => flush_round) ()) (fun _ => ok) err := by
  refine .repeat_until (fun _ => inv) (fun _ => ?_) ()
  unfold flush_round
  refine .bind (fun wants st => inv st ∧ Connection.wants_write st.session = wants)
    (.act _ fun _ h => ⟨h, rfl⟩) fun wants => ?_
  cases wants with
  | false =>
      simp only [Bool.false_eq_true, if_false]
      exact .pure _ fun st h => hdone st h.1 h.2
  | true =>
      simp only [if_true]
      exact .bind_result (fun _ => inv) (fun e => err (.of e))
        (write_tls_rule fun st result session inner h => hwrite st result session inner h.1 h.2)
        (fun _ => .pure _ fun _ h => h) fun _ => .throw _ fun _ h => h

-- The third loop of `poll_write`.
theorem send_rule (hdone : ∀ st, inv st → Connection.wants_write st.session = false → ok st)
    (hwrite : ∀ st result session inner, inv st → Connection.wants_write st.session = true →
      WriteTls st.session st.inner result session inner →
      ends (fun _ => inv) (fun e now => if e.kind = .WouldBlock then ok now else err (.Err e) now)
        result { st with inner := inner, session := session }) :
    Triple inv (.repeat_until (fun _ => send_round) ()) (fun _ => ok) err := by
  refine .repeat_until (fun _ => inv) (fun _ => ?_) ()
  unfold send_round
  refine .bind (fun wants st => inv st ∧ Connection.wants_write st.session = wants)
    (.act _ fun _ h => ⟨h, rfl⟩) fun wants => ?_
  cases wants with
  | false =>
      simp only [Bool.false_eq_true, if_false]
      exact .pure _ fun st h => hdone st h.1 h.2
  | true =>
      simp only [if_true]
      refine .bind_result (fun _ => inv)
        (fun e now => if e.kind = .WouldBlock then ok now else err (.Err e) now)
        (write_tls_rule fun st result session inner h => hwrite st result session inner h.1 h.2)
        (fun _ => .pure _ fun _ h => h) fun e => ?_
      by_cases hblock : e.kind = .WouldBlock
      · simp only [hblock, if_true]
        exact .pure _ fun _ h => h
      · simp only [hblock, if_false]
        exact .throw _ fun _ h => h

omit [AsyncStream S] in
-- The second loop of `poll_write`.
theorem fill_rule (hdone : ∀ st, inv st → st.write_buf = [] → ok st)
    (hwriter : ∀ st result session, inv st → st.write_buf ≠ [] →
      Connection.writer_write st.session st.write_buf = (result, session) →
      ends (fun n now => inv { now with write_buf := now.write_buf.drop n })
        (fun e => err (.Err e)) result { st with session := session }) :
    Triple inv (.repeat_until (fun _ => fill_round) ()) (fun _ => ok) err := by
  refine .repeat_until (fun _ => inv) (fun _ => ?_) ()
  unfold fill_round
  refine .bind (fun buf st => inv st ∧ st.write_buf = buf) (.act _ fun _ h => ⟨h, rfl⟩)
    fun buf => ?_
  by_cases hempty : buf = []
  · simp only [hempty, if_true]
    exact .pure _ fun st h => hdone st h.1 h.2
  · simp only [hempty, if_false]
    refine .bind_result (fun n now => inv { now with write_buf := now.write_buf.drop n })
      (fun e => err (.Err e)) (.act _ ?_) (fun n => ?_) fun _ => .throw _ fun _ h => h
    · rintro st ⟨hinv, rfl⟩
      exact hwriter st _ _ hinv hempty rfl
    · exact .bind (fun _ => inv) (.act _ fun _ h => h) fun _ => .pure _ fun _ h => h

-- The first loop of `poll_write`.
theorem drain_rule (full : VisionTlsStream S C R → Prop)
    (hdone : ∀ st, inv st → st.write_buf = [] → ok st)
    (hwriter : ∀ st result session, inv st → st.write_buf ≠ [] →
      Connection.writer_write st.session st.write_buf = (result, session) →
      ends (fun n now => if n = 0 then full now
          else inv { now with write_buf := now.write_buf.drop n })
        (fun e => err (.Err e)) result { st with session := session })
    (hwrite : ∀ st result session inner, full st →
      WriteTls st.session st.inner result session inner →
      ends (fun _ => inv) (fun e => err (.of e)) result
        { st with inner := inner, session := session }) :
    Triple inv (.repeat_until (fun _ => drain_round) ()) (fun _ => ok) err := by
  refine .repeat_until (fun _ => inv) (fun _ => ?_) ()
  unfold drain_round
  refine .bind (fun buf st => inv st ∧ st.write_buf = buf) (.act _ fun _ h => ⟨h, rfl⟩)
    fun buf => ?_
  by_cases hempty : buf = []
  · simp only [hempty, if_true]
    exact .pure _ fun st h => hdone st h.1 h.2
  · simp only [hempty, if_false]
    refine .bind_result (fun n now => if n = 0 then full now
      else inv { now with write_buf := now.write_buf.drop n }) (fun e => err (.Err e))
      (.act _ ?_) (fun n => ?_) fun _ => .throw _ fun _ h => h
    · rintro st ⟨hinv, rfl⟩
      exact hwriter st _ _ hinv hempty rfl
    · by_cases hzero : n = 0
      · simp only [hzero, if_true]
        exact .bind_result (fun _ => inv) (fun e => err (.of e)) (write_tls_rule hwrite)
          (fun _ => .pure _ fun _ h => h) fun _ => .throw _ fun _ h => h
      · simp only [hzero, if_false]
        exact .bind (fun _ => inv) (.act _ fun _ h => h) fun _ => .pure _ fun _ h => h

theorem poll_write_rule [Rng R] {buf : List UInt8} {drained framed filled :
    VisionTlsStream S C R → Prop}
    (hdrain : Triple inv (.repeat_until (fun _ => drain_round) ()) (fun _ => drained) err)
    (hframe : ∀ st, drained st → ends (fun next _ => framed next)
      (fun panic => err (.Panicked panic)) (st.frame_buf (buf.take (min buf.length 65535))) st)
    (hfill : Triple framed (.repeat_until (fun _ => fill_round) ()) (fun _ => filled) err)
    (hsend : Triple filled (.repeat_until (fun _ => send_round) ()) (fun _ => ok) err) :
    Triple inv (poll_write buf) (fun n st => n = min buf.length 65535 ∧ ok st) err := by
  unfold poll_write
  refine .bind (fun _ => drained) hdrain fun _ => .bind (fun _ => framed) ?_ fun _ =>
    .bind (fun _ => filled) hfill fun _ => .bind (fun _ => ok) hsend fun _ =>
    .pure _ fun _ h => ⟨rfl, h⟩
  unfold frame
  refine .bind (fun st now => drained now ∧ now = st) (.act _ fun _ h => ⟨h, rfl⟩) fun st => ?_
  rcases hresult : st.frame_buf (buf.take (min buf.length 65535)) with panic | next
  · refine .throw _ ?_
    rintro now ⟨hdrained, rfl⟩
    have hcase := hframe now hdrained
    rwa [hresult] at hcase
  · refine .act _ ?_
    rintro now ⟨hdrained, rfl⟩
    have hcase := hframe now hdrained
    rwa [hresult] at hcase

end Write

section Forward

variable {pre closing mid ok : VisionTlsStream S C R → Prop}
  {err : Exit → VisionTlsStream S C R → Prop}

theorem poll_flush_rule
    (hflush : Triple pre (.repeat_until (fun _ => flush_round) ()) (fun _ => mid) err)
    (hreply : ∀ st reply inner, mid st → AsyncStream.poll_flush st.inner = (reply, inner) →
      forwards (fun _ => ok) err reply { st with inner := inner }) :
    Triple pre poll_flush (fun _ => ok) err :=
  .bind (fun _ => mid) hflush fun _ => .bind (forwards (fun _ => ok) err)
    (.act _ fun st h => hreply st _ _ h rfl) forward_rule

theorem poll_shutdown_rule
    (hclose : ∀ st, pre st →
      closing { st with session := Connection.send_close_notify st.session })
    (hflush : Triple closing (.repeat_until (fun _ => flush_round) ()) (fun _ => mid) err)
    (hreply : ∀ st reply inner, mid st → AsyncStream.poll_shutdown st.inner = (reply, inner) →
      forwards (fun _ => ok) err reply { st with inner := inner }) :
    Triple pre poll_shutdown (fun _ => ok) err :=
  .bind (fun _ => closing) (.act _ fun st h => hclose st h) fun _ =>
    .bind (fun _ => mid) hflush fun _ => .bind (forwards (fun _ => ok) err)
      (.act _ fun st h => hreply st _ _ h rfl) forward_rule

end Forward

end VisionTlsStream

end AlphaRay
