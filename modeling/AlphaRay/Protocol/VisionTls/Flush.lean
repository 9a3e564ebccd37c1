import AlphaRay.Protocol.Tls.Delivery
import AlphaRay.Protocol.VisionTls.Backpressure
import AlphaRay.Protocol.VisionTls.Pending

namespace AlphaRay

open Lib Async

namespace VisionTlsStream

variable {S C R : Type} {st next : VisionTlsStream S C R}

-- Framing appends the bytes to what is not written yet, with something around them.
theorem wire_of_frame_buf [Rng R] {buf : List UInt8} (h : frame_buf st buf = .ok next) :
    ∃ wire, next.write_buf = st.write_buf ++ wire ∧ buf <:+: wire := by
  cases hdirect : st.state.write_direct_copy with
  | true =>
      rw [frame_buf_of_direct hdirect] at h
      cases h
      exact ⟨buf, rfl, List.infix_rfl⟩
  | false =>
      obtain ⟨named, padding_len, -, hwrite⟩ := write_buf_of_frame_buf hdirect h
      refine ⟨pending_id st ++ frame_bytes (sniff_app_data named buf).1 buf padding_len, ?_, ?_⟩
      · rw [hwrite, List.append_assoc]
      · refine ⟨pending_id st ++ [(sniff_app_data named buf).1.as_u8] ++
          u16_to_be_bytes (UInt16.ofNat buf.length) ++ u16_to_be_bytes padding_len,
          List.replicate padding_len.toNat 0, ?_⟩
        simp only [frame_bytes, List.append_assoc]

end VisionTlsStream

namespace ObservedVision

open VisionTlsStream

section Accounts

variable {S C : Type} [AsyncStream S] [Connection C] [SendLaws C]
  {session next : Logged C} {io inner : Recorded S}

-- What the session made of the bytes it was handed, and what the inner stream took of
-- that. Until the handshake is complete the session makes nothing of them.
structure Accounts (session : Logged C) (io : Recorded S) : Prop where
  balanced : (SendLaws.outgoing session).Balanced io.delivered session.handed
  early : Connection.is_handshaking session = true →
    plainOf (SendLaws.outgoing session).records = []

omit [AsyncStream S] in
theorem Accounts.adds (h : Accounts session io) {bytes : List UInt8}
    (hadds : (SendLaws.outgoing session).Adds (SendLaws.outgoing next) bytes)
    (hhanded : next.handed = session.handed ++ bytes)
    (hearly : Connection.is_handshaking next = true → Connection.is_handshaking session = true ∧
      plainOf (SendLaws.outgoing next).records = plainOf (SendLaws.outgoing session).records) :
    Accounts next io := by
  constructor
  · rw [hhanded]
    exact h.balanced.adds hadds
  · intro hmode
    obtain ⟨hbefore, hplain⟩ := hearly hmode
    exact hplain.trans (h.early hbefore)

omit [AsyncStream S] in
theorem Accounts.of_same (h : Accounts session io)
    (hsame : SendLaws.outgoing next = SendLaws.outgoing session)
    (hhanded : next.handed = session.handed)
    (hmode : Connection.is_handshaking next = Connection.is_handshaking session) :
    Accounts next io := by
  have hadds : (SendLaws.outgoing session).Adds (SendLaws.outgoing next) [] := by
    rw [hsame]
    exact .refl _
  apply h.adds hadds
  · rw [hhanded, List.append_nil]
  · intro hnext
    exact ⟨hmode.symm.trans hnext, by rw [hsame]⟩

omit [AsyncStream S] in
theorem Accounts.of_log (h : Accounts session io) {e : Event} (hlog : inner.log = io.log ++ [e])
    (htaken : e.taken = []) : Accounts session inner := by
  have hdelivered := Recorded.delivered_of_log hlog
  rw [htaken, List.append_nil] at hdelivered
  refine ⟨?_, h.early⟩
  rw [hdelivered]
  exact h.balanced

-- Reading takes part in nothing of this.
theorem Accounts.read_tls [HandshakeLaws C] {result : IoResult Nat} (h : Accounts session io)
    (hread : ReadTls session io result next inner) : Accounts next inner := by
  have hprepared : ∀ {reply prepared}, Connection.prepare_read session = (reply, prepared) →
      Accounts prepared io := by
    intro reply prepared hprepare
    have hsame := SendLaws.outgoing_prepare_read session
    have hmode := HandshakeLaws.is_handshaking_prepare_read session
    have hhanded := Logged.handed_of_log (Logged.log_of_prepare_read hprepare)
    rw [hprepare] at hsame hmode
    exact h.of_same hsame (hhanded.trans (List.append_nil _)) hmode
  cases hread with
  | refused hprepare => exact hprepared hprepare
  | finished hprepare => exact hprepared hprepare
  | @ready room prepared bytes inner hprepare hcall =>
      have hlogged := (hprepared hprepare).of_log (Recorded.log_of_poll_read hcall) rfl
      have hhanded := Logged.handed_of_log (Logged.log_received prepared bytes)
      exact hlogged.of_same (SendLaws.outgoing_received _ _) (hhanded.trans (List.append_nil _))
        (HandshakeLaws.is_handshaking_received _ _)
  | failed hprepare hcall =>
      exact (hprepared hprepare).of_log (Recorded.log_of_poll_read hcall) rfl
  | pending hprepare hcall =>
      exact (hprepared hprepare).of_log (Recorded.log_of_poll_read hcall) rfl

theorem Accounts.write_tls {result : IoResult Nat} (h : Accounts session io)
    (hwrite : WriteTls session io result next inner) : Accounts next inner := by
  cases hwrite with
  | empty hempty => exact h
  | @taken n inner hsendable hpos hcall =>
      have hle := AsyncStream.le_length_of_poll_write io (Connection.sendable session) n
        (by rw [hcall])
      have hdelivered := Recorded.delivered_of_log (Recorded.log_of_poll_write hcall)
      have hsent := SendLaws.outgoing_sent session n hle
      constructor
      · rw [hsent, hdelivered, Event.taken, take_sendable session hle]
        exact h.balanced.drop
      · intro hmode
        rw [hsent]
        exact h.early ((SendLaws.is_handshaking_sent session n).symm.trans hmode)
  | zero hsendable hcall => exact h.of_log (Recorded.log_of_poll_write hcall) (by simp [Event.taken])
  | failed hsendable hcall => exact h.of_log (Recorded.log_of_poll_write hcall) rfl
  | pending hsendable hcall => exact h.of_log (Recorded.log_of_poll_write hcall) rfl

omit [AsyncStream S] in
theorem Accounts.writer_write [HandshakeLaws C] {bytes : List UInt8} {result : IoResult Nat}
    (h : Accounts session io) (hcall : Connection.writer_write session bytes = (result, next)) :
    Accounts next io := by
  have hmode := SendLaws.is_handshaking_writer_write session bytes
  have hplain := HandshakeLaws.plain_writer_write session bytes
  have hhanded := Logged.handed_of_log (Logged.log_of_writer_write hcall)
  rw [hcall] at hmode hplain
  have hearly : Connection.is_handshaking next = true →
      Connection.is_handshaking session = true ∧
        plainOf (SendLaws.outgoing next).records = plainOf (SendLaws.outgoing session).records := by
    intro hnext
    have hbefore := hmode.symm.trans hnext
    exact ⟨hbefore, hplain hbefore⟩
  rcases result with e | n
  · have hadds := SendLaws.adds_writer_write_error session bytes e (by rw [hcall])
    rw [hcall] at hadds
    exact h.adds hadds hhanded hearly
  · have hadds := SendLaws.adds_writer_write session bytes n (by rw [hcall])
    rw [hcall] at hadds
    exact h.adds hadds hhanded hearly

end Accounts

section Runs

variable {S C R : Type} [AsyncStream S] [Connection C] [Rng R]
  {st next after : ObservedVision S C R} {call : Call}

-- The log of the session only grows.
theorem log_of_act (hact : Act call st next) : st.session.log <+: next.session.log := by
  cases hact with
  | unframe hcall =>
      obtain ⟨-, hsession⟩ := unframe_read_buf_frame hcall
      rw [hsession]
  | read_tls hread =>
      have hprepared : ∀ {reply prepared},
          Connection.prepare_read st.session = (reply, prepared) →
          st.session.log <+: prepared.log :=
        fun hprepare => ⟨_, (Logged.log_of_prepare_read hprepare).symm⟩
      cases hread with
      | refused hprepare => exact hprepared hprepare
      | finished hprepare => exact hprepared hprepare
      | ready hprepare hcall => exact (hprepared hprepare).trans (List.prefix_append _ _)
      | failed hprepare hcall => exact hprepared hprepare
      | pending hprepare hcall => exact hprepared hprepare
  | process => exact List.prefix_append _ _
  | frame hframe =>
      obtain ⟨-, hsession⟩ := frame_buf_frame hframe
      rw [hsession]
  | writer_write hcall => exact ⟨_, (Logged.log_of_writer_write hcall).symm⟩
  | writer_error hcall => exact ⟨_, (Logged.log_of_writer_write hcall).symm⟩
  | write_tls hcall hwrite =>
      cases hwrite with
      | _ => exact List.prefix_rfl
  | _ => exact List.prefix_rfl

theorem handed_of_step (hstep : Step st call after) :
    st.session.handed <+: after.session.handed := by
  have hlog : st.session.log <+: after.session.log :=
    hstep.rule (fun now => st.session.log <+: now.session.log)
      (fun _ _ hnow hact => hnow.trans (log_of_act hact)) List.prefix_rfl
  exact hlog.flatMap SessionEvent.handed

-- A write that is accepted hands its bytes to the writer, inside what it framed.
theorem poll_write_hands (buf before : List UInt8) :
    Triple (fun st : ObservedVision S C R => st.write_buf = [] ∧ st.session.handed = before)
      (poll_write buf)
      (fun n st => ∃ wire, st.session.handed = before ++ wire ∧ buf.take n <:+: wire)
      fun _ _ => True := by
  have hdrain : Triple
      (fun st : ObservedVision S C R => st.write_buf = [] ∧ st.session.handed = before)
      (.repeat_until (fun _ => drain_round) ())
      (fun _ st => st.write_buf = [] ∧ st.session.handed = before) fun _ _ => True :=
    drain_rule (fun _ => False) (fun _ h _ => h) (fun _ _ _ h hne => absurd h.1 hne)
      fun _ _ _ _ h => h.elim
  have hfill : Triple
      (fun st : ObservedVision S C R => ∃ wire,
        st.session.handed ++ st.write_buf = before ++ wire ∧
          buf.take (min buf.length 65535) <:+: wire)
      (.repeat_until (fun _ => fill_round) ())
      (fun _ st => ∃ wire, st.session.handed = before ++ wire ∧
        buf.take (min buf.length 65535) <:+: wire) fun _ _ => True := by
    apply fill_rule
    · intro st h hempty
      simpa only [hempty, List.append_nil] using h
    · intro st result session h _ hcall
      have hhanded := Logged.handed_of_log (Logged.log_of_writer_write hcall)
      rcases result with e | n
      · trivial
      · obtain ⟨wire, hwire, hinfix⟩ := h
        refine ⟨wire, ?_, hinfix⟩
        rw [← hwire, hhanded, SessionEvent.handed, List.append_assoc, List.take_append_drop]
  have hsend : Triple
      (fun st : ObservedVision S C R => ∃ wire, st.session.handed = before ++ wire ∧
        buf.take (min buf.length 65535) <:+: wire)
      (.repeat_until (fun _ => send_round) ())
      (fun _ st => ∃ wire, st.session.handed = before ++ wire ∧
        buf.take (min buf.length 65535) <:+: wire) fun _ _ => True := by
    apply send_rule
    · exact fun _ h _ => h
    · intro st result session inner h _ hcall
      have hhanded : session.handed = st.session.handed := by
        cases hcall with
        | _ => rfl
      rcases result with e | n
      · by_cases hblock : e.kind = .WouldBlock
        · simpa only [ends_error, hblock, if_true, hhanded] using h
        · simp only [ends_error, hblock, if_false]
      · simpa only [ends_ok, hhanded] using h
  refine (poll_write_rule hdrain ?_ hfill hsend).conseq (fun _ h => h) ?_ fun _ _ h => h
  · intro st h
    rcases hframe : st.frame_buf (buf.take (min buf.length 65535)) with panic | next
    · trivial
    · obtain ⟨wire, hwire, hinfix⟩ := wire_of_frame_buf hframe
      obtain ⟨-, hsession⟩ := frame_buf_frame hframe
      refine ⟨wire, ?_, hinfix⟩
      rw [hwire, hsession, h.1, h.2, List.nil_append]
  · rintro n st ⟨rfl, h⟩
    exact h

-- The call handed the bytes that it accepted to the writer, inside what it framed.
def Wraps (t : Transition (ObservedVision S C R) Call) : Prop :=
  ∃ wire, t.after.session.handed = t.before.session.handed ++ wire ∧ t.label.accepted <:+: wire

theorem wraps_of_step (hempty : st.write_buf = []) (hstep : Step st call after) :
    Wraps ⟨st, call, after⟩ := by
  have hnothing : call.accepted = [] → Wraps ⟨st, call, after⟩ := by
    intro hnil
    obtain ⟨wire, hwire⟩ := handed_of_step hstep
    refine ⟨wire, hwire.symm, ?_⟩
    simp only [hnil, List.nil_infix]
  cases call with
  | write buf outcome =>
      rcases outcome with e | n
      · exact hnothing rfl
      · obtain ⟨fuel, hrun⟩ := hstep
        exact poll_write_hands buf st.session.handed fuel st (.ok n) after ⟨hempty, rfl⟩ hrun
  | read len outcome => exact hnothing rfl
  | flush outcome => exact hnothing rfl
  | shutdown outcome => exact hnothing rfl

theorem wraps_of_run (hwriter : ∀ (c : Logged C) bytes, ∃ n,
    (Connection.writer_write c bytes).1 = .ok n) {start : ObservedVision S C R}
    {past : List (Transition (ObservedVision S C R) Call)} (hstart : start.write_buf = [])
    (hrun : Run Step start past st) :
    ∀ w ∈ past, Wraps w ∧ w.after.session.handed <+: st.session.handed := by
  refine hrun.rule (fun past now => ∀ w ∈ past, Wraps w ∧
    w.after.session.handed <+: now.session.handed) (by simp) ?_
  intro past last hpast ih hstep w hw
  rcases List.mem_append.mp hw with hw | hw
  · obtain ⟨hwraps, hgrown⟩ := ih w hw
    exact ⟨hwraps, hgrown.trans (handed_of_step hstep)⟩
  · obtain rfl := List.mem_singleton.mp hw
    exact ⟨wraps_of_step (empty_of_run hwriter hstart hpast) hstep, List.prefix_rfl⟩

variable [SendLaws C]

theorem accounts_of_act [HandshakeLaws C] (hact : Act call st next)
    (h : Accounts st.session st.inner) : Accounts next.session next.inner := by
  cases hact with
  | unframe hcall =>
      obtain ⟨hinner, hsession⟩ := unframe_read_buf_frame hcall
      rwa [hinner, hsession]
  | reader_read =>
      exact h.of_same (SendLaws.outgoing_reader_read _ _) rfl
        (HandshakeLaws.is_handshaking_reader_read _ _)
  | refill bytes => exact h
  | read_tls hread => exact h.read_tls hread
  | process =>
      have hhanded := Logged.handed_of_log (Logged.log_process_new_packets st.session)
      exact h.adds (SendLaws.adds_process_new_packets _) hhanded
        (HandshakeLaws.of_process_new_packets _)
  | frame hframe =>
      obtain ⟨hinner, hsession⟩ := frame_buf_frame hframe
      rwa [hinner, hsession]
  | writer_write hcall => exact h.writer_write hcall
  | writer_error hcall => exact h.writer_write hcall
  | write_tls hcall hwrite => exact h.write_tls hwrite
  | send_close_notify =>
      have hmode := HandshakeLaws.is_handshaking_send_close_notify st.session
      have hhanded : (Connection.send_close_notify st.session).handed = st.session.handed ++ [] :=
        (List.append_nil _).symm
      exact h.adds (SendLaws.adds_send_close_notify _) hhanded fun hnext =>
        ⟨hmode.symm.trans hnext, HandshakeLaws.plain_send_close_notify _⟩
  | inner_flush => exact h.of_log (Recorded.log_of_poll_flush rfl) rfl
  | inner_shutdown => exact h.of_log (Recorded.log_of_poll_shutdown rfl) rfl

theorem accounts_of_run [HandshakeLaws C] {start : ObservedVision S C R}
    {past : List (Transition (ObservedVision S C R) Call)}
    (hstart : Accounts start.session start.inner) (hrun : Run Step start past st) :
    Accounts st.session st.inner := by
  refine hrun.rule (fun _ now => Accounts now.session now.inner) hstart ?_
  intro _ last _ h hstep
  exact hstep.rule (fun now => Accounts now.session now.inner)
    (fun _ _ hnow hact => accounts_of_act hact hnow) h

omit [Rng R] in
-- A flush that succeeds leaves nothing to write, and the handshake as it was.
theorem poll_flush_drains (mode : Bool) :
    Triple (fun st : ObservedVision S C R => Connection.is_handshaking st.session = mode) poll_flush
      (fun _ st => Connection.wants_write st.session = false ∧
        Connection.is_handshaking st.session = mode) fun _ _ => True := by
  apply poll_flush_rule
  · apply flush_rule
    · exact fun st h hwants => And.intro hwants h
    · intro st result session inner h _ hcall
      have hmode : Connection.is_handshaking session = mode := by
        cases hcall with
        | taken => exact (SendLaws.is_handshaking_sent _ _).trans h
        | _ => exact h
      rcases result with e | n
      · trivial
      · exact hmode
  · intro st reply inner h _
    rcases reply with (e | _) | _
    · trivial
    · exact h
    · trivial

-- Nothing of what the call `w` accepted is left behind: it was framed and encrypted, and
-- the inner stream took all of that.
structure Flushed (w : Transition (ObservedVision S C R) Call) (st : ObservedVision S C R) :
    Prop where
  framed : Wraps w
  write_buf_eq : st.write_buf = []
  held_eq : (SendLaws.outgoing st.session).held = []
  encrypted : w.after.session.handed <+: plainOf (SendLaws.outgoing st.session).records
  queue_eq : (SendLaws.outgoing st.session).queue = []
  delivered_eq : st.inner.delivered = cipherOf (SendLaws.outgoing st.session).records

omit [AsyncStream S] [Rng R] in
-- During the handshake nothing is encrypted, and afterwards nothing is held back.
theorem flushed_iff {w : Transition (ObservedVision S C R) Call} (hwraps : Wraps w)
    (hgrown : w.after.session.handed <+: st.session.handed)
    (haccepted : w.label.accepted ≠ []) (hempty : st.write_buf = [])
    (hwants : Connection.wants_write st.session = false)
    (haccounts : Accounts st.session st.inner) :
    Flushed w st ↔ Connection.is_handshaking st.session = false := by
  constructor
  · intro hflushed
    refine Bool.eq_false_iff.mpr fun hmode => ?_
    obtain ⟨wire, hwire, hinfix⟩ := hwraps
    have hnone := hflushed.encrypted
    rw [haccounts.early hmode, List.prefix_nil, hwire, List.append_eq_nil_iff] at hnone
    rw [hnone.2, List.infix_nil] at hinfix
    exact haccepted hinfix
  · intro hmode
    have hqueue := (wants_write_eq_false_iff st.session).mp hwants
    have hheld := SendLaws.held_eq_nil st.session hmode
    obtain ⟨hdelivered, hplain⟩ := haccounts.balanced
    rw [hqueue, List.append_nil] at hdelivered
    rw [hheld, List.append_nil] at hplain
    exact ⟨hwraps, hempty, hheld, hplain ▸ hgrown, hqueue, hdelivered⟩

end Runs

end ObservedVision

open ObservedVision

-- A flush that reports success has sent every accepted byte, if and only if the handshake
-- was complete when it was called or nothing had been accepted.
theorem vision_flush_complete_iff {S C R : Type} [AsyncStream S] [Connection C] [SendLaws C]
    [WriterLaws C] [HandshakeLaws C] [Rng R] (inner : S) (session : C) (ids : List Uuid) (rng : R)
    (padding : PaddingConfig) (hfresh : (SendLaws.outgoing session).Fresh)
    (past : List (Transition (ObservedVision S C R) Call)) (state : ObservedVision S C R)
    (hrun : Run VisionTlsStream.Step (new inner session ids rng padding) past state) :
    ∀ before t after, past = before ++ t :: after → t.label = .flush (.ok ()) →
      ((∀ w ∈ before, w.label.accepted ≠ [] → Flushed w t.after) ↔
        (Connection.is_handshaking t.before.session = false ∨
          ∀ w ∈ before, w.label.accepted = [])) := by
  rintro before t after rfl hlabel
  have hwriter : ∀ (c : Logged C) bytes, ∃ n, (Connection.writer_write c bytes).1 = .ok n :=
    fun c bytes => ⟨_, WriterLaws.writer_write_eq c.session bytes⟩
  obtain ⟨hbefore, hstep⟩ := hrun.split
  have hafter := hbefore.next hstep
  have hempty := VisionTlsStream.empty_of_run hwriter rfl hafter
  have haccounts := accounts_of_run ⟨hfresh.balanced, fun _ => hfresh.plain_eq⟩ hafter
  have hpast := wraps_of_run hwriter rfl hbefore
  have hgrown := handed_of_step hstep
  rw [hlabel] at hstep
  obtain ⟨fuel, hflush⟩ := hstep
  obtain ⟨hwants, hmode⟩ := poll_flush_drains (Connection.is_handshaking t.before.session) fuel
    t.before (.ok ()) t.after rfl hflush
  have hiff : ∀ w ∈ before, w.label.accepted ≠ [] →
      (Flushed w t.after ↔ Connection.is_handshaking t.before.session = false) := by
    intro w hw haccepted
    obtain ⟨hwraps, hfront⟩ := hpast w hw
    rw [← hmode]
    exact flushed_iff hwraps (hfront.trans hgrown) haccepted hempty hwants haccounts
  constructor
  · intro hflushed
    by_cases hnothing : ∀ w ∈ before, w.label.accepted = []
    · exact .inr hnothing
    · push Not at hnothing
      obtain ⟨w, hw, haccepted⟩ := hnothing
      exact .inl ((hiff w hw haccepted).mp (hflushed w hw haccepted))
  · intro hready w hw haccepted
    rcases hready with hmode | hnothing
    · exact (hiff w hw haccepted).mpr hmode
    · exact absurd (hnothing w hw) haccepted

-- A new client whose server answers the hello.
def connectingClient : ObservedVision Scripted NullCipher Lowest :=
  new ⟨[.Ready (.ok [0])], []⟩ (NullCipher.new false 64 8) [idOfSevens] ⟨⟩ paddingOfThree

-- It writes a byte and flushes, and the server has nothing but the hello.
theorem vision_flush_holds_back : ∃ sent flushed,
    VisionTlsStream.Step connectingClient (.write [9] (.ok 1)) sent ∧
    VisionTlsStream.Step sent (.flush (.ok ())) flushed ∧
    flushed.inner.delivered = [0] ∧ [9] <:+: (SendLaws.outgoing flushed.session).held ∧
    ¬ Flushed ⟨connectingClient, .write [9] (.ok 1), sent⟩ flushed := by
  obtain ⟨sent, flushed, hwrite, hflush, hdelivered, hheld⟩ : ∃ sent flushed,
      VisionTlsStream.Step connectingClient (.write [9] (.ok 1)) sent ∧
      VisionTlsStream.Step sent (.flush (.ok ())) flushed ∧
      flushed.inner.delivered = [0] ∧ [9] <:+: (SendLaws.outgoing flushed.session).held :=
    ⟨_, _, ⟨8, rfl⟩, ⟨8, rfl⟩, rfl, by decide⟩
  refine ⟨sent, flushed, hwrite, hflush, hdelivered, hheld, fun hflushed => ?_⟩
  rw [hflushed.held_eq] at hheld
  exact absurd hheld (by decide)

-- The same client when it reads the answer before it flushes.
theorem vision_flush_complete_after_hello : ∃ sent opened flushed,
    VisionTlsStream.Step connectingClient (.write [9] (.ok 1)) sent ∧
    VisionTlsStream.Step sent (.read 4 (.error .Pending)) opened ∧
    VisionTlsStream.Step opened (.flush (.ok ())) flushed ∧
    Flushed ⟨connectingClient, .write [9] (.ok 1), sent⟩ flushed := by
  obtain ⟨sent, opened, flushed, hwrite, hread, hflush, hmode⟩ : ∃ sent opened flushed,
      VisionTlsStream.Step connectingClient (.write [9] (.ok 1)) sent ∧
      VisionTlsStream.Step sent (.read 4 (.error .Pending)) opened ∧
      VisionTlsStream.Step opened (.flush (.ok ())) flushed ∧
      Connection.is_handshaking opened.session = false :=
    ⟨_, _, _, ⟨8, rfl⟩, ⟨8, rfl⟩, ⟨8, rfl⟩, rfl⟩
  have hrun := ((Run.nil.next hwrite).next hread).next hflush
  refine ⟨sent, opened, flushed, hwrite, hread, hflush, ?_⟩
  exact (vision_flush_complete_iff (Scripted.mk [.Ready (.ok [0])] []) (NullCipher.new false 64 8)
    [idOfSevens] (Lowest.mk) paddingOfThree (NullCipher.fresh_new false 64 8) _ flushed hrun
    [⟨_, _, _⟩, ⟨_, _, _⟩] ⟨_, _, _⟩ [] rfl rfl).mpr (.inl hmode) _ List.mem_cons_self
    (List.cons_ne_nil _ _)

end AlphaRay
