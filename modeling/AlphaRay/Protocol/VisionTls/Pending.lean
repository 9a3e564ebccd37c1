import AlphaRay.Protocol.VisionTls.Rules
import AlphaRay.Rustls.Logged

namespace AlphaRay

open Lib Async

-- A stream whose inner stream and whose session keep a log of their calls.
abbrev ObservedVision (S C R : Type) := VisionTlsStream (Recorded S) (Logged C) R

namespace ObservedVision

variable {S C R : Type}

def new [Connection C] (inner : S) (session : C) (ids : List Uuid) (rng : R)
    (padding : PaddingConfig) : ObservedVision S C R :=
  VisionTlsStream.new (Recorded.new inner) (Logged.new session) ids rng padding

-- The calls of the inner stream between two states.
def events (st after : ObservedVision S C R) : List Event :=
  after.inner.log.drop st.inner.log.length

def sessionEvents (st after : ObservedVision S C R) : List (SessionEvent C) :=
  after.session.log.drop st.session.log.length

-- The logs grew by these calls.
def Extends (st now : ObservedVision S C R) (es : List Event) (fs : List (SessionEvent C)) :
    Prop :=
  now.inner.log = st.inner.log ++ es ∧ now.session.log = st.session.log ++ fs

variable {st now next : ObservedVision S C R} {es es' : List Event}
  {fs fs' : List (SessionEvent C)}

theorem Extends.refl (st : ObservedVision S C R) : Extends st st [] [] := by
  simp [Extends]

theorem Extends.trans (h : Extends st now es fs) (h' : Extends now next es' fs') :
    Extends st next (es ++ es') (fs ++ fs') := by
  constructor
  · rw [h'.1, h.1, List.append_assoc]
  · rw [h'.2, h.2, List.append_assoc]

theorem Extends.events_eq (h : Extends st now es fs) : events st now = es := by
  rw [events, h.1, List.drop_left]

theorem Extends.sessionEvents_eq (h : Extends st now es fs) : sessionEvents st now = fs := by
  rw [sessionEvents, h.2, List.drop_left]

variable [AsyncStream S] [Connection C]

-- What `read_tls` adds to the logs: no write and nothing processed, and a call that was
-- not ready if and only if it says so.
theorem extends_of_read_tls [ReceiveLaws C] {result : IoResult Nat} {session : Logged C}
    {inner : Recorded S} (h : ReadTls now.session now.inner result session inner) :
    ∃ es fs, Extends now { now with inner := inner, session := session } es fs ∧
      (∀ e ∈ es, e.isWrite = false) ∧ (∀ f ∈ fs, f.isProcessed = false) ∧
      (NeverWouldBlock S → ((∃ e ∈ es, e.isPending = true) ↔
        ∃ e, result = .error e ∧ e.kind = .WouldBlock)) := by
  cases h with
  | @refused e session hprepare =>
      have hkind := ReceiveLaws.prepare_read_error now.session e (by rw [hprepare])
      refine ⟨[], _, ⟨(List.append_nil _).symm, Logged.log_of_prepare_read hprepare⟩, by simp, ?_,
        fun _ => ?_⟩
      · simp [SessionEvent.isProcessed]
      · simp [hkind]
  | finished hprepare =>
      refine ⟨[], _, ⟨(List.append_nil _).symm, Logged.log_of_prepare_read hprepare⟩, by simp, ?_,
        fun _ => ?_⟩
      · simp [SessionEvent.isProcessed]
      · simp
  | @ready room session bytes inner hprepare hcall =>
      refine ⟨_, [.prepared now.session.session (.ok (some room)),
        .received session.session bytes], ⟨Recorded.log_of_poll_read hcall, ?_⟩, ?_, ?_,
        fun _ => ?_⟩
      · change (Connection.received session bytes).log = _
        rw [Logged.log_received, Logged.log_of_prepare_read hprepare, List.append_assoc]
        rfl
      · simp [Event.isWrite]
      · simp [SessionEvent.isProcessed]
      · simp [Event.isPending]
  | @failed room session e inner hprepare hcall =>
      refine ⟨_, _, ⟨Recorded.log_of_poll_read hcall, Logged.log_of_prepare_read hprepare⟩, ?_, ?_,
        fun hinner => ?_⟩
      · simp [Event.isWrite]
      · simp [SessionEvent.isProcessed]
      · have hkind := (Recorded.neverWouldBlock hinner).poll_read now.inner room e (by rw [hcall])
        simp [Event.isPending, hkind]
  | @pending room session inner hprepare hcall =>
      refine ⟨_, _, ⟨Recorded.log_of_poll_read hcall, Logged.log_of_prepare_read hprepare⟩, ?_, ?_,
        fun _ => ?_⟩
      · simp [Event.isWrite]
      · simp [SessionEvent.isProcessed]
      · simp [Event.isPending, ErrorKind.into]

theorem outgoing_of_read_tls [SendLaws C] {result : IoResult Nat} {session : Logged C}
    {inner : Recorded S} (h : ReadTls now.session now.inner result session inner) :
    SendLaws.outgoing session = SendLaws.outgoing now.session := by
  have hprepared : ∀ {reply session}, Connection.prepare_read now.session = (reply, session) →
      SendLaws.outgoing session = SendLaws.outgoing now.session := by
    intro reply session hprepare
    have hsame := SendLaws.outgoing_prepare_read now.session
    rwa [hprepare] at hsame
  cases h with
  | refused hprepare => exact hprepared hprepare
  | finished hprepare => exact hprepared hprepare
  | ready hprepare hcall => exact (SendLaws.outgoing_received _ _).trans (hprepared hprepare)
  | failed hprepare hcall => exact hprepared hprepare
  | pending hprepare hcall => exact hprepared hprepare

omit [AsyncStream S] in
theorem extends_of_process (now : ObservedVision S C R) :
    Extends now { now with session := (Connection.process_new_packets now.session).2 } []
      [.processed now.session.session (Connection.process_new_packets now.session).2.session] :=
  ⟨(List.append_nil _).symm, Logged.log_process_new_packets now.session⟩

omit [AsyncStream S] [Connection C] in
-- A change that no log records.
theorem Extends.of_same (h : Extends st now es fs) (hinner : next.inner.log = now.inner.log)
    (hsession : next.session.log = now.session.log) : Extends st next es fs := by
  rw [Extends, hinner, hsession]
  exact h

section Quiet

variable [SendLaws C]

-- Nothing was offered to the inner stream since `st`, and the queue is empty if it was
-- and nothing that was processed asked for an answer.
def Quiet (st now : ObservedVision S C R) : Prop :=
  ∃ es fs, Extends st now es fs ∧ (∀ e ∈ es, e.isWrite = false) ∧
    ((SendLaws.outgoing now.session).queue = [] ↔
      (SendLaws.outgoing st.session).queue = [] ∧ ∀ f ∈ fs, ¬ f.Answers)

omit [AsyncStream S] in
theorem Quiet.refl (st : ObservedVision S C R) : Quiet st st :=
  ⟨[], [], .refl st, by simp, by simp⟩

omit [AsyncStream S] in
theorem Quiet.extend (h : Quiet st now) (hextends : Extends now next es fs)
    (hes : ∀ e ∈ es, e.isWrite = false)
    (hqueue : (SendLaws.outgoing next.session).queue = [] ↔
      (SendLaws.outgoing now.session).queue = [] ∧ ∀ f ∈ fs, ¬ f.Answers) : Quiet st next := by
  obtain ⟨before, past, hst, hwrites, hiff⟩ := h
  refine ⟨before ++ es, past ++ fs, hst.trans hextends, ?_, ?_⟩
  · simpa [or_imp, forall_and] using ⟨hwrites, hes⟩
  · rw [hqueue, hiff]
    simp [or_imp, forall_and, and_assoc]

omit [AsyncStream S] in
theorem Quiet.of_same (h : Quiet st now) (hinner : next.inner.log = now.inner.log)
    (hsession : next.session.log = now.session.log)
    (hsame : SendLaws.outgoing next.session = SendLaws.outgoing now.session) : Quiet st next := by
  refine h.extend ((Extends.refl now).of_same hinner hsession) (by simp) ?_
  rw [hsame]
  simp

-- A session that answers nothing keeps its empty queue empty.
theorem queue_of_process (session : Logged C) :
    (SendLaws.outgoing (Connection.process_new_packets session).2).queue = [] ↔
      (SendLaws.outgoing session).queue = [] ∧
        ¬ SessionEvent.Answers (.processed session.session
          (Connection.process_new_packets session).2.session) := by
  obtain ⟨made, -, hqueue, -⟩ := SendLaws.adds_process_new_packets session
  have hanswers : SessionEvent.Answers (.processed session.session
      (Connection.process_new_packets session).2.session) ↔
      (SendLaws.outgoing (Connection.process_new_packets session).2).queue ≠
        (SendLaws.outgoing session).queue := Iff.rfl
  rw [hanswers, not_not]
  constructor
  · intro hnil
    have hempty : (SendLaws.outgoing session).queue = [] := by
      rw [hnil] at hqueue
      exact (List.append_eq_nil_iff.mp hqueue.symm).1
    exact ⟨hempty, hnil.trans hempty.symm⟩
  · rintro ⟨hempty, hsame⟩
    exact hsame.trans hempty

omit [AsyncStream S] in
theorem quiet_refill (now : ObservedVision S C R × ReadBuf) (bytes : List UInt8) :
    Quiet st (VisionTlsStream.refill now bytes).1 ↔ Quiet st now.1 := Iff.rfl

variable [ReceiveLaws C]

theorem quiet_of_read_tls {result : IoResult Nat} {session : Logged C} {inner : Recorded S}
    (h : Quiet st now) (hread : ReadTls now.session now.inner result session inner) :
    Quiet st { now with inner := inner, session := session } := by
  obtain ⟨es, fs, hextends, hes, hfs, -⟩ := extends_of_read_tls hread
  refine h.extend hextends hes ?_
  rw [outgoing_of_read_tls hread]
  simp only [iff_self_and]
  exact fun _ f hf => SessionEvent.not_answers (hfs f hf)

theorem poll_read_quiet :
    Triple (fun now : ObservedVision S C R × ReadBuf => Quiet st now.1) VisionTlsStream.poll_read
      (fun _ now => Quiet st now.1) fun _ now => Quiet st now.1 := by
  have hreader : ∀ (now : ObservedVision S C R) result session, Quiet st now →
      Connection.reader_read now.session 4096 = (result, session) →
      Quiet st { now with session := session } := by
    intro now result session h hread
    have hsame := SendLaws.outgoing_reader_read now.session 4096
    have hlog : session.log = now.session.log := (congrArg (fun r => r.2.log) hread).symm
    rw [hread] at hsame
    exact h.of_same rfl hlog hsame
  refine VisionTlsStream.poll_read_rule (VisionTlsStream.read_round_rule
    (fun now => Quiet st now.1) (fun now => Quiet st now.1) ?_ ?_
    (VisionTlsStream.pull_round_rule (fun _ now => Quiet st now.1)
    (fun _ now => Quiet st now.1) ?_ ?_ ?_))
  · intro now buf result next out h hunframe
    obtain ⟨hinner, hsession⟩ := VisionTlsStream.unframe_read_buf_frame hunframe
    have hnext : Quiet st next := h.of_same (by rw [hinner]) (by rw [hsession]) (by rw [hsession])
    simpa only [ite_self, ends_same] using hnext
  · intro now buf result session h hread
    simpa only [quiet_refill, ite_self, ends_same] using hreader now result session h hread
  · intro now buf n session inner h hread
    exact (ends_same n).mpr (quiet_of_read_tls h hread)
  · intro n now buf h
    refine (ends_same _).mpr (h.extend (extends_of_process now) (by simp) ?_)
    simpa using queue_of_process now.session
  · intro n now buf result session h hread
    simpa only [quiet_refill, ite_self, ends_same] using hreader now result session h hread

theorem read_quiet (len : Nat) :
    Triple (Quiet (S := S) (C := C) (R := R) st) (VisionTlsStream.read len) (fun _ => Quiet st)
      fun _ => Quiet st := VisionTlsStream.read_rule poll_read_quiet

end Quiet

section Awake

variable [ReceiveLaws C]

-- Since `st` the inner stream was always ready, and whatever was processed left
-- something to read.
def Awake (st now : ObservedVision S C R) : Prop :=
  ∃ es fs, Extends st now es fs ∧ (∀ e ∈ es, e.isPending = false) ∧ ∀ f ∈ fs, ¬ f.Starves

-- The same before the last batch of messages, and how that went is not known yet.
def Processed (st now : ObservedVision S C R) : Prop :=
  ∃ es fs before, Extends st now es (fs ++ [.processed before now.session.session]) ∧
    (∀ e ∈ es, e.isPending = false) ∧ ∀ f ∈ fs, ¬ f.Starves

-- A call of the inner stream was not ready, or else something was processed in vain.
def Held (st now : ObservedVision S C R) : Prop :=
  (∃ e ∈ events st now, e.isPending = true) ↔ ∀ f ∈ sessionEvents st now, ¬ f.Starves

omit [AsyncStream S] in
theorem Awake.refl (st : ObservedVision S C R) : Awake st st :=
  ⟨[], [], .refl st, by simp, by simp⟩

omit [AsyncStream S] in
theorem Awake.of_same (h : Awake st now) (hinner : next.inner.log = now.inner.log)
    (hsession : next.session.log = now.session.log) : Awake st next := by
  obtain ⟨es, fs, hextends, hready, hfed⟩ := h
  exact ⟨es, fs, hextends.of_same hinner hsession, hready, hfed⟩

-- `read_tls` waits exactly when the inner stream does.
theorem awake_of_read_tls (hinner : NeverWouldBlock S) {result : IoResult Nat}
    {session : Logged C} {inner : Recorded S} (h : Awake st now)
    (hread : ReadTls now.session now.inner result session inner) :
    ends (fun _ => Awake st) (fun e next => Exit.of e = .Pending → Held st next) result
      { now with inner := inner, session := session } := by
  obtain ⟨es, fs, hextends, hready, hfed⟩ := h
  obtain ⟨es', fs', hextends', -, hfs', hpending⟩ := extends_of_read_tls hread
  have hboth := hextends.trans hextends'
  have hstarves : ∀ f ∈ fs ++ fs', ¬ f.Starves := by
    intro f hf
    rcases List.mem_append.mp hf with hf | hf
    · exact hfed f hf
    · exact SessionEvent.not_starves (hfs' f hf)
  rcases result with e | n
  · intro he
    obtain ⟨event, hmem, hevent⟩ := (hpending hinner).mpr ⟨e, rfl, Exit.kind_of_pending he⟩
    rw [Held, hboth.events_eq, hboth.sessionEvents_eq]
    exact iff_of_true ⟨event, List.mem_append_right _ hmem, hevent⟩ hstarves
  · refine ⟨_, _, hboth, ?_, hstarves⟩
    intro event hmem
    rcases List.mem_append.mp hmem with hmem | hmem
    · exact hready event hmem
    · by_contra hevent
      obtain ⟨e, hresult, -⟩ :=
        (hpending hinner).mp ⟨event, hmem, (Bool.not_eq_false _).mp hevent⟩
      cases hresult

omit [AsyncStream S] in
theorem processed_of_process (h : Awake st now) :
    Processed st { now with session := (Connection.process_new_packets now.session).2 } := by
  obtain ⟨es, fs, hextends, hready, hfed⟩ := h
  have hboth := hextends.trans (extends_of_process now)
  rw [List.append_nil] at hboth
  exact ⟨es, fs, now.session.session, hboth, hready, hfed⟩

omit [AsyncStream S] in
-- The reader answers `WouldBlock` exactly when the batch was processed in vain.
theorem awake_of_reader_read {len : Nat} (hlen : 0 < len) {result : IoResult (List UInt8)}
    {session : Logged C} (h : Processed st now)
    (hread : Connection.reader_read now.session len = (result, session)) :
    ends (fun _ => Awake st) (fun e next => Exit.of e = .Pending → Held st next) result
      { now with session := session } := by
  obtain ⟨es, fs, before, hextends, hready, hfed⟩ := h
  have hlog : session.log = now.session.log := (congrArg (fun r => r.2.log) hread).symm
  have hnext : Extends st { now with session := session } es
      (fs ++ [.processed before now.session.session]) := hextends.of_same rfl hlog
  have hawake : ¬ (SessionEvent.processed before now.session.session).Starves →
      Awake st { now with session := session } := by
    intro hlast
    refine ⟨es, _, hnext, hready, ?_⟩
    intro f hf
    rcases List.mem_append.mp hf with hf | hf
    · exact hfed f hf
    · rw [List.mem_singleton.mp hf]
      exact hlast
  by_cases hplain : (ReceiveLaws.incoming now.session).plaintext = []
  · obtain ⟨-, ⟨rfl, hclosed⟩ | ⟨e, rfl, hclosed, hkind⟩⟩ := reader_read_of_nil hlen hplain hread
    · refine hawake fun hstarves => ?_
      have hcontra : true = false := hclosed.symm.trans hstarves.2.1
      cases hcontra
    · intro hpending
      cases hended : (ReceiveLaws.incoming now.session).ended with
      | true =>
          rw [hended, if_pos rfl] at hkind
          rw [Exit.kind_of_pending hpending] at hkind
          cases hkind
      | false =>
          rw [Held, hnext.events_eq, hnext.sessionEvents_eq]
          refine iff_of_false ?_ ?_
          · rintro ⟨event, hmem, hevent⟩
            rw [hready event hmem] at hevent
            cases hevent
          · intro hall
            exact hall _ (List.mem_append_right _ (List.mem_singleton_self _))
              ⟨hplain, hclosed, hended⟩
  · obtain ⟨n, -, -, -, hok, -⟩ :=
      ReceiveLaws.reader_read_plaintext now.session len hlen hplain
    rw [hread] at hok
    subst hok
    exact hawake fun hstarves => hplain hstarves.1

omit [AsyncStream S] in
theorem awake_refill (now : ObservedVision S C R × ReadBuf) (bytes : List UInt8) :
    Awake st (VisionTlsStream.refill now bytes).1 ↔ Awake st now.1 := Iff.rfl

theorem poll_read_held (hinner : NeverWouldBlock S) :
    Triple (fun now : ObservedVision S C R × ReadBuf => Awake st now.1) VisionTlsStream.poll_read
      (fun _ _ => True) fun e now => e = .Pending → Held st now.1 := by
  refine VisionTlsStream.poll_read_rule (VisionTlsStream.read_round_rule
    (fun now => Awake st now.1) (fun now => Awake st now.1) ?_ ?_
    (VisionTlsStream.pull_round_rule (fun _ now => Awake st now.1)
    (fun _ now => Processed st now.1) ?_ ?_ ?_))
  · intro now buf result next out h hunframe
    obtain ⟨hstream, hsession⟩ := VisionTlsStream.unframe_read_buf_frame hunframe
    have hnext : Awake st next := h.of_same (by rw [hstream]) (by rw [hsession])
    rcases result with e | n
    · exact nofun
    · simp only [ends_ok]
      split
      · trivial
      · exact hnext
  · intro now buf result session h hread
    have hlog : session.log = now.session.log := (congrArg (fun r => r.2.log) hread).symm
    have hnext : Awake st { now with session := session } := h.of_same rfl hlog
    rcases result with e | bytes
    · simp only [ends_error]
      split
      · exact hnext
      · exact nofun
    · simpa only [ends_ok, awake_refill, ite_self] using hnext
  · intro now buf n session inner h hread
    have hnext := awake_of_read_tls hinner h hread
    rcases n with e | n
    · exact hnext
    · exact hnext
  · intro n now buf h
    have hnext := processed_of_process h
    rcases (Connection.process_new_packets now.session).1 with message | _
    · exact nofun
    · exact hnext
  · intro n now buf result session h hread
    have hnext := awake_of_reader_read (by decide) h hread
    rcases result with e | bytes
    · exact hnext
    · simp only [ends_ok, awake_refill]
      split
      · split
        · trivial
        · exact hnext
      · exact hnext

theorem read_held (hinner : NeverWouldBlock S) (len : Nat) :
    Triple (Awake (S := S) (C := C) (R := R) st) (VisionTlsStream.read len) (fun _ _ => True)
      fun e now => e = .Pending → Held st now :=
  VisionTlsStream.read_rule (poll_read_held hinner)

end Awake

section Waits

variable (hinner : NeverWouldBlock S) (count : Nat)
include hinner

-- A call that waits made a call of the inner stream that waits.
def Waits (count : Nat) (e : Exit) (st : ObservedVision S C R) : Prop :=
  e = .Pending → st.inner.Since count (·.isPending)

theorem write_tls_waits {result : IoResult Nat} {session : Logged C} {inner : Recorded S}
    (h : count ≤ now.inner.log.length)
    (hwrite : WriteTls now.session now.inner result session inner) :
    ends (fun _ io => count ≤ io.log.length)
      (fun e io => count ≤ io.log.length ∧
        (e.kind = .WouldBlock → io.Since count (·.isPending))) result inner := by
  have hcount : ∀ {inner : Recorded S} {e : Event}, inner.log = now.inner.log ++ [e] →
      count ≤ inner.log.length := by
    intro inner e hlog
    rw [hlog, List.length_append]
    omega
  cases hwrite with
  | empty hempty => exact h
  | taken hsendable hpos hcall => exact hcount (Recorded.log_of_poll_write hcall)
  | zero hsendable hcall =>
      exact ⟨hcount (Recorded.log_of_poll_write hcall), fun hkind => by cases hkind⟩
  | failed hsendable hcall =>
      have hkind := (Recorded.neverWouldBlock hinner).poll_write now.inner _ _ (by rw [hcall])
      exact ⟨hcount (Recorded.log_of_poll_write hcall), fun hblock => absurd hblock hkind⟩
  | pending hsendable hcall =>
      have hlog := Recorded.log_of_poll_write hcall
      exact ⟨hcount hlog, fun _ => Recorded.since_of_log h hlog rfl⟩

theorem flush_waits :
    Triple (fun st : ObservedVision S C R => count ≤ st.inner.log.length)
      (.repeat_until (fun _ => VisionTlsStream.flush_round) ())
      (fun _ st => count ≤ st.inner.log.length) (Waits count) := by
  refine VisionTlsStream.flush_rule (fun _ h _ => h) ?_
  intro now result session inner h _ hwrite
  have hnext := write_tls_waits hinner count h hwrite
  rcases result with e | n
  · exact fun he => hnext.2 (Exit.kind_of_pending he)
  · exact hnext

theorem poll_flush_waits :
    Triple (fun st : ObservedVision S C R => count ≤ st.inner.log.length)
      VisionTlsStream.poll_flush (fun _ _ => True) (Waits count) := by
  refine VisionTlsStream.poll_flush_rule (flush_waits hinner count) ?_
  intro now reply inner h hcall
  rcases reply with (e | _) | _
  · exact nofun
  · trivial
  · exact fun _ => Recorded.since_of_log h (Recorded.log_of_poll_flush hcall) rfl

theorem poll_shutdown_waits :
    Triple (fun st : ObservedVision S C R => count ≤ st.inner.log.length)
      VisionTlsStream.poll_shutdown (fun _ _ => True) (Waits count) := by
  refine VisionTlsStream.poll_shutdown_rule (fun _ h => h) (flush_waits hinner count) ?_
  intro now reply inner h hcall
  rcases reply with (e | _) | _
  · exact nofun
  · trivial
  · exact fun _ => Recorded.since_of_log h (Recorded.log_of_poll_shutdown hcall) rfl

theorem poll_write_waits [Rng R] (buf : List UInt8) :
    Triple (fun st : ObservedVision S C R => count ≤ st.inner.log.length)
      (VisionTlsStream.poll_write buf) (fun _ _ => True) (Waits count) := by
  have hdrain : Triple (fun st : ObservedVision S C R => count ≤ st.inner.log.length)
      (.repeat_until (fun _ => VisionTlsStream.drain_round) ())
      (fun _ st => count ≤ st.inner.log.length) (Waits count) := by
    refine VisionTlsStream.drain_rule (fun st => count ≤ st.inner.log.length)
      (fun _ h _ => h) ?_ ?_
    · intro now result session h _ _
      rcases result with e | n
      · exact nofun
      · simp only [ends_ok, ite_self]
        exact h
    · intro now result session inner h hwrite
      have hnext := write_tls_waits hinner count h hwrite
      rcases result with e | n
      · exact fun he => hnext.2 (Exit.kind_of_pending he)
      · exact hnext
  have hfill : Triple (fun st : ObservedVision S C R => count ≤ st.inner.log.length)
      (.repeat_until (fun _ => VisionTlsStream.fill_round) ())
      (fun _ st => count ≤ st.inner.log.length) (Waits count) := by
    refine VisionTlsStream.fill_rule (fun _ h _ => h) ?_
    intro now result session h _ _
    rcases result with e | n
    · exact nofun
    · exact h
  have hsend : Triple (fun st : ObservedVision S C R => count ≤ st.inner.log.length)
      (.repeat_until (fun _ => VisionTlsStream.send_round) ())
      (fun _ st => count ≤ st.inner.log.length) (Waits count) := by
    refine VisionTlsStream.send_rule (fun _ h _ => h) ?_
    intro now result session inner h _ hwrite
    have hnext := write_tls_waits hinner count h hwrite
    rcases result with e | n
    · by_cases hblock : e.kind = .WouldBlock
      · simp only [ends_error, hblock, if_true]
        exact hnext.1
      · simp only [ends_error, hblock, if_false]
        exact nofun
    · exact hnext
  refine (VisionTlsStream.poll_write_rule hdrain ?_ hfill hsend).conseq (fun _ h => h)
    (fun _ _ _ => trivial) fun _ _ h => h
  intro now h
  rcases hframed : now.frame_buf (buf.take (min buf.length 65535)) with panic | next
  · exact nofun
  · obtain ⟨hstream, -⟩ := VisionTlsStream.frame_buf_frame hframed
    simpa only [ends_ok, hstream] using h

end Waits

end ObservedVision

end AlphaRay
