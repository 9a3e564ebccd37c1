import AlphaRay.Io.Scripted
import AlphaRay.Protocol.Tls.Readiness
import AlphaRay.Rustls.NullCipher

namespace AlphaRay

open Lib Async

namespace Observed

section Delivery

variable {S C : Type} [AsyncStream S] [Connection C] [SendLaws C]

-- Everything that the writes of `past` reported as accepted has been handed to the
-- inner stream, as ciphertext and in order.
structure Sent (past : List (Transition (Observed S C) Call)) (st : Observed S C) : Prop where
  delivered_eq : st.inner.delivered = cipherOf (SendLaws.outgoing st.session).records
  plain_eq : plainOf (SendLaws.outgoing st.session).records =
    past.flatMap fun t => handed t.before t.after
  accepted_prefix : ∀ t ∈ past, t.label.accepted <+: handed t.before t.after
  accepted_eq : ∀ t ∈ past, t.label.failed = false → handed t.before t.after = t.label.accepted

variable [ReceiveLaws C] {inner : S} {session : C} {past : List (Transition (Observed S C) Call)}
  {st after : Observed S C}

theorem handed_of_run (hrun : Run TlsStream.Step (new inner session) past st) :
    st.session.handed = past.flatMap fun t => handed t.before t.after := by
  refine Run.rule (fun past (st : Observed S C) =>
    st.session.handed = past.flatMap fun t => handed t.before t.after) rfl ?_ hrun
  intro past last _ ih hstep
  rw [handed_append hstep, ih, List.flatMap_append, List.flatMap_singleton]

-- A flush that was let through leaves nothing behind.
theorem sent_of_drained (hfresh : (SendLaws.outgoing session).Fresh)
    (hrun : Run TlsStream.Step (new inner session) past st) {call : Call}
    (hcall : call.isWrite = false) (hstep : TlsStream.Step st call after)
    (hdrained : Drained st.inner.log.length after)
    (hclear : ∀ e ∈ events st after, e.isZeroWrite = false) : Sent past after := by
  obtain ⟨hbalanced, hreleased⟩ := delivery_of_run hfresh (hrun.next hstep)
  obtain ⟨hwants, heof⟩ : Connection.wants_write after.session = false ∧ after.eof = false := by
    rcases hdrained with h | ⟨e, hmem, hzero⟩
    · exact h
    · rw [hclear e hmem] at hzero
      cases hzero
  have hqueue := (wants_write_eq_false_iff after.session).mp hwants
  have hhanded : after.session.handed = past.flatMap fun t => handed t.before t.after := by
    rw [handed_append hstep, handed_of_step hcall hstep, List.append_nil, handed_of_run hrun]
  constructor
  · have hdelivered := hbalanced.1
    rwa [hqueue, List.append_nil] at hdelivered
  · have hplain := hbalanced.2
    rwa [hreleased heof, List.append_nil, hhanded] at hplain
  · exact hrun.forall_mem (fun t => t.label.accepted <+: handed t.before t.after)
      fun _ _ _ h => accepted_prefix_handed h
  · exact hrun.forall_mem (fun t => t.label.failed = false →
      handed t.before t.after = t.label.accepted) fun _ _ _ h hok => accepted_eq_handed hok h

end Delivery

section Pending

variable {S C : Type} [AsyncStream S] [Connection C] [SendLaws C] [ReceiveLaws C]

-- A call that returns `Pending` was told `Pending` by the inner stream.
theorem isPending_of_step (hinner : NeverWouldBlock S) {st after : Observed S C} {call : Call}
    (hcall : call.isPending = true) (h : TlsStream.Step st call after) :
    ∃ e ∈ st.events after, e.isPending = true := by
  rcases Call.cases_of_isPending hcall with ⟨remaining, rfl⟩ | ⟨buf, rfl⟩ | rfl | rfl
  · obtain ⟨fuel, hrun⟩ := h
    exact (poll_read_waits hinner _ remaining fuel st _ after (Nat.le_refl _) hrun).1.2 rfl
  · obtain ⟨fuel, hrun⟩ := h
    exact (poll_write_waits hinner _ buf fuel st _ after (Nat.le_refl _) hrun).2 rfl
  · obtain ⟨fuel, hrun⟩ := h
    exact (poll_flush_waits hinner _ fuel st _ after (Nat.le_refl _) hrun).2 rfl
  · obtain ⟨fuel, hrun⟩ := h
    exact (poll_shutdown_waits hinner _ fuel st _ after (Nat.le_refl _) hrun).2 rfl

-- A read that returns `Pending` has sent what there was to send, as far as the
-- inner stream took it.
theorem stalled_of_read (hinner : NeverWouldBlock S) {st after : Observed S C} {remaining : Nat}
    (h : TlsStream.Step st (.read remaining (.error .Pending)) after) :
    Connection.wants_write after.session = false ∨
      ∃ e ∈ st.events after, e.isStalledWrite = true := by
  obtain ⟨fuel, hrun⟩ := h
  exact (poll_read_waits hinner _ remaining fuel st _ after (Nat.le_refl _) hrun).2 rfl

theorem accepted_of_run {inner : S} {session : C} {past : List (Transition (Observed S C) Call)}
    {st : Observed S C} (hrun : Run TlsStream.Step (new inner session) past st)
    (hok : ∀ t ∈ past, t.label.failed = false) :
    st.session.handed = past.flatMap (·.label.accepted) := by
  rw [handed_of_run hrun]
  refine List.flatMap_congr fun t ht => ?_
  exact hrun.forall_mem (fun t => t.label.failed = false →
    handed t.before t.after = t.label.accepted) (fun _ _ _ h hok => accepted_eq_handed hok h)
    t ht (hok t ht)

end Pending

section Reading

variable {S C : Type} [AsyncStream S] [Connection C] [SendLaws C] [ReceiveLaws C] {inner : S}
  {session : C} {past : List (Transition (Observed S C) Call)} {st : Observed S C}

theorem given_of_run (hfresh : ReceiveLaws.incoming session = ⟨[], [], false, false⟩)
    (hrun : Run TlsStream.Step (new inner session) past st) :
    Given (past.flatMap (·.label.filled)) st ∧ st.EndSeen := by
  have hstart : ReceiveLaws.incoming (new inner session).session = ⟨[], [], false, false⟩ := hfresh
  refine Run.rule (fun past (st : Observed S C) =>
    Given (past.flatMap (·.label.filled)) st ∧ st.EndSeen) ?_ ?_ hrun
  · constructor
    · simp [Given, hstart]
    · simp [EndSeen, hstart]
  · intro past last _ ih hstep
    rw [List.flatMap_append, List.flatMap_singleton]
    exact ⟨given_of_step hstep ih.1, endSeen_of_step hstep ih.2⟩

theorem finished_of_run (hrun : Run TlsStream.Step (new inner session) past st)
    (hclear : ∀ t ∈ past, Clear t.label.isZeroRead t.before t.after) : st.Finished := by
  refine hrun.rule_of_forall (fun t => Clear t.label.isZeroRead t.before t.after)
    (fun _ (st : Observed S C) => st.Finished) ?_ ?_ hclear
  · intro heof
    cases heof
  · intro past last _ ih hstep hlast
    exact finished_of_step hstep hlast ih

theorem endNoticed_of_run (hfresh : ReceiveLaws.incoming session = ⟨[], [], false, false⟩)
    (hrun : Run TlsStream.Step (new inner session) past st) : st.EndNoticed := by
  have hstart : ReceiveLaws.incoming (new inner session).session = ⟨[], [], false, false⟩ := hfresh
  refine Run.rule (fun _ (st : Observed S C) => st.EndNoticed) ?_ ?_ hrun
  · simp [EndNoticed, hstart]
  · exact fun _ _ _ ih hstep => endNoticed_of_step hstep ih

end Reading

end Observed

namespace NullCipher

-- The script offers one record of data next, in two pieces, and the session waits for it.
structure HasByte (b : UInt8) (pieces : Nat) (io : Scripted) (c : NullCipher) : Prop where
  mode_eq : c.mode = .traffic []
  closed_eq : c.closed = false
  rest : pieces = 1 ∧ c.fragment = [] ∧ io.reads = [.Ready (.ok [1]), .Ready (.ok [b])] ∨
    pieces = 0 ∧ c.fragment = [1] ∧ io.reads = [.Ready (.ok [b])]

theorem readable_hasByte (b : UInt8) : Readable (HasByte b) where
  piece pieces io c h := by
    have hprepare : Connection.prepare_read c = (.ok (some 16), c) := by
      simp [Connection.prepare_read, prepare_read, plaintext, h.mode_eq, h.closed_eq]
    rcases h.rest with ⟨rfl, hfragment, hreads⟩ | ⟨rfl, hfragment, hreads⟩
    · refine ⟨16, c, [1], { io with reads := [.Ready (.ok [b])] }, hprepare, ?_, by simp, ?_,
        .inr ⟨0, Nat.one_pos, ?_⟩⟩
      · simp [AsyncStream.poll_read, Scripted.poll_read, hreads]
      · simp [Connection.process_new_packets, Connection.received, hfragment, absorb]
      · refine ⟨?_, ?_, .inr ⟨rfl, ?_, rfl⟩⟩
        · simp [Connection.process_new_packets, Connection.received, hfragment, absorb, h.mode_eq]
        · simp [Connection.process_new_packets, Connection.received, hfragment, absorb,
            h.closed_eq]
        · simp [Connection.process_new_packets, Connection.received, hfragment, absorb]
    · refine ⟨16, c, [b], { io with reads := [] }, hprepare, ?_, by simp, ?_, .inl ?_⟩
      · simp [AsyncStream.poll_read, Scripted.poll_read, hreads]
      · simp [Connection.process_new_packets, Connection.received, hfragment, h.mode_eq, absorb]
      · simp [Connection.process_new_packets, Connection.received, hfragment, h.mode_eq, absorb,
          ReceiveLaws.incoming, incoming, plaintext]
  after_write pieces io c reply next h _ hcall := by
    have hreads : next.reads = io.reads := by
      have hnext : (io.poll_write (Connection.sendable c)).2 = next := congrArg Prod.snd hcall
      rw [← hnext]
      unfold Scripted.poll_write
      split <;> rfl
    have hrest := h.rest
    rw [← hreads] at hrest
    rcases reply with (e | n) | _
    · exact ⟨h.mode_eq, h.closed_eq, hrest⟩
    · exact ⟨h.mode_eq, h.closed_eq, hrest⟩
    · exact ⟨h.mode_eq, h.closed_eq, hrest⟩
  after_reader_read pieces io c len h _ := by
    have hsame : (Connection.reader_read c len).2 = c := by
      simp only [Connection.reader_read, reader_read, h.mode_eq]
      split_ifs <;> rfl
    rw [hsame]
    exact h

end NullCipher

open Observed

-- While the end-of-stream flag is unset and the inner stream does not refuse bytes,
-- flush and shutdown of a `TlsStream` are complete.
theorem tls_flush_complete {S C : Type} [AsyncStream S] [Connection C] [SendLaws C]
    [ReceiveLaws C] (inner : S) (session : C) (hfresh : (SendLaws.outgoing session).Fresh)
    (past : List (Transition (Observed S C) Call)) (st after : Observed S C)
    (hrun : Run TlsStream.Step (new inner session) past st) (heof : st.eof = false)
    (hclear : ∀ e ∈ events st after, e.isZeroWrite = false) :
    (TlsStream.Step st (.flush (.ok ())) after →
      Sent past after ∧ .flush (.Ready (.ok ())) ∈ events st after) ∧
    (((∃ record ∈ (SendLaws.outgoing st.session).records, record.content = .closeNotify) ∨
        ¬ ∃ record ∈ (SendLaws.outgoing st.session).records, record.content = .fatalAlert) →
      TlsStream.Step st (.shutdown (.ok ())) after →
      Sent past after ∧
      (∃ record ∈ (SendLaws.outgoing after.session).records, record.content = .closeNotify) ∧
      .shutdown (.Ready (.ok ())) ∈ events st after) := by
  constructor
  · intro hstep
    obtain ⟨fuel, hflush⟩ := id hstep
    obtain ⟨hdrained, e, hmem, rfl⟩ :=
      poll_flush_drains _ fuel st _ after ⟨Nat.le_refl _, heof⟩ hflush
    exact ⟨sent_of_drained hfresh hrun rfl hstep hdrained hclear, hmem⟩
  · intro halert hstep
    have hclosed : ∃ record ∈
        (SendLaws.outgoing (Connection.send_close_notify st.session)).records,
        record.content = .closeNotify := by
      rcases SendLaws.alerted_send_close_notify st.session with h | h
      · exact h
      · obtain ⟨record, hmem, hcontent⟩ := halert.resolve_right fun hno => hno h
        exact ⟨record, (SendLaws.adds_send_close_notify st.session).mem hmem, hcontent⟩
    obtain ⟨fuel, hshutdown⟩ := id hstep
    obtain ⟨⟨hdrained, e, hmem, rfl⟩, hrecord⟩ :=
      poll_shutdown_drains _ fuel st _ after ⟨⟨Nat.le_refl _, heof⟩, hclosed⟩ hshutdown
    exact ⟨sent_of_drained hfresh hrun rfl hstep hdrained hclear, hrecord, hmem⟩

-- A client that writes during its handshake, over a stream that then ends.
def cutClient : Observed Scripted NullCipher :=
  new ⟨[.Ready (.ok [])], []⟩ (NullCipher.new false 8 8)

-- The byte is reported as accepted, and flush and shutdown succeed, but no call of the
-- inner stream follows.
theorem tls_flush_incomplete : ∃ written flushed closed,
    Run TlsStream.Step cutClient [⟨cutClient, .write [1] (.ok 1), written⟩] written ∧
    TlsStream.Step written (.flush (.ok ())) flushed ∧
    ¬ Sent [⟨cutClient, .write [1] (.ok 1), written⟩] flushed ∧
    TlsStream.Step flushed (.shutdown (.ok ())) closed ∧
    closed.inner.log = [.write [0] (.Ready (.ok 1)), .read 16 (.Ready (.ok []))] ∧
    (SendLaws.outgoing closed.session).records = [NullCipher.hello] := by
  refine ⟨_, _, _, .next .nil ⟨8, rfl⟩, ⟨8, rfl⟩, ?_, ⟨8, rfl⟩, rfl, rfl⟩
  intro hsent
  have hplain : ([] : List UInt8) = [1] := hsent.plain_eq
  cases hplain

-- A client whose handshake completes within its first write.
def openClient : Observed Scripted NullCipher :=
  new ⟨[.Ready (.ok [0])], []⟩ (NullCipher.new false 8 8)

theorem tls_flush_complete_one_byte : ∃ written flushed closed,
    TlsStream.Step openClient (.write [1] (.ok 1)) written ∧
    TlsStream.Step written (.flush (.ok ())) flushed ∧
    TlsStream.Step written (.shutdown (.ok ())) closed ∧
    Sent [⟨openClient, .write [1] (.ok 1), written⟩] flushed ∧
    Sent [⟨openClient, .write [1] (.ok 1), written⟩] closed ∧
    closed.inner.delivered = [0, 1, 1, 2] := by
  obtain ⟨written, flushed, closed, hwrite, hflush, hshutdown, heof, hclear, hclear', hno, hall⟩ :
      ∃ written flushed closed, TlsStream.Step openClient (.write [1] (.ok 1)) written ∧
      TlsStream.Step written (.flush (.ok ())) flushed ∧
      TlsStream.Step written (.shutdown (.ok ())) closed ∧ written.eof = false ∧
      (∀ e ∈ events written flushed, e.isZeroWrite = false) ∧
      (∀ e ∈ events written closed, e.isZeroWrite = false) ∧
      (SendLaws.outgoing written.session).records = [NullCipher.hello, NullCipher.dataRecord 1] ∧
      closed.inner.delivered = [0, 1, 1, 2] :=
    ⟨_, _, _, ⟨8, rfl⟩, ⟨8, rfl⟩, ⟨8, rfl⟩, rfl, by decide, by decide, rfl, rfl⟩
  have hrun := Run.nil.next hwrite
  have hflushed := tls_flush_complete (Scripted.mk [.Ready (.ok [0])] [])
    (NullCipher.new false 8 8) (NullCipher.fresh_new false 8 8) _ written flushed hrun heof hclear
  have hclosed := tls_flush_complete (Scripted.mk [.Ready (.ok [0])] [])
    (NullCipher.new false 8 8) (NullCipher.fresh_new false 8 8) _ written closed hrun heof hclear'
  have halert : ¬ ∃ record ∈ (SendLaws.outgoing written.session).records,
      record.content = .fatalAlert := by
    rw [hno]
    decide
  exact ⟨written, flushed, closed, hwrite, hflush, hshutdown, (hflushed.1 hflush).1,
    (hclosed.2 (.inr halert) hshutdown).1, hall⟩

-- After the handshake a write is taken and sent, if and only if the end-of-stream flag
-- is unset.
theorem tls_half_close_iff {S C : Type} [AsyncStream S] [Connection C] [SendLaws C]
    [ReceiveLaws C] (accepts : S → Prop) (haccepts : Accepting accepts) (inner : S) (session : C)
    (hfresh : (SendLaws.outgoing session).Fresh)
    (past : List (Transition (Observed S C) Call)) (st : Observed S C)
    (hrun : Run TlsStream.Step (new inner session) past st)
    (hopen : Connection.is_handshaking st.session = false) (hinner : accepts st.inner.stream)
    (buf : List UInt8) (hbuf : buf ≠ []) :
    (∃ n after, 0 < n ∧ (TlsStream.poll_write buf).Returns st (.ok n) after ∧
      after.inner.delivered = cipherOf (SendLaws.outgoing after.session).records ∧
      plainOf (SendLaws.outgoing after.session).records =
        past.flatMap (fun t => handed t.before t.after) ++ buf.take n) ↔
    st.eof = false := by
  constructor
  · rintro ⟨n, after, hpos, hreturns, -⟩
    refine Bool.eq_false_iff.mpr fun heof => ?_
    have hend : (TlsStream.poll_write buf).Returns st (.ok 0) st :=
      .bind (TlsStream.eof_flag_returns heof) (.pure _ _)
    have hzero := Except.ok.inj (hreturns.unique hend).1
    omega
  · intro heof
    have hwritable : Writable accepts (past.flatMap fun t => handed t.before t.after) st := by
      constructor
      · exact hinner
      · exact heof
      · exact hopen
      · exact (delivery_of_run hfresh hrun).1
      · exact handed_of_run hrun
    obtain ⟨n, after, hpos, hreturns, hafter, hwants⟩ := poll_write_returns haccepts hbuf hwritable
    refine ⟨n, after, hpos, hreturns, ?_, ?_⟩
    · have hqueue := (wants_write_eq_false_iff after.session).mp hwants
      have hdelivered := hafter.balanced.1
      rwa [hqueue, List.append_nil] at hdelivered
    · have hplain := hafter.balanced.2
      rwa [SendLaws.held_eq_nil after.session hafter.open_eq, List.append_nil,
        hafter.handed_eq] at hplain

-- A client that has read to the end of the other direction.
def halfClosedClient : Observed Scripted NullCipher :=
  new ⟨[.Ready (.ok [0]), .Ready (.ok [])], []⟩ (NullCipher.new false 8 8)

-- Its inner stream would take every byte, and it takes none.
theorem tls_half_close_broken : ∃ ended,
    TlsStream.Step halfClosedClient (.read 4 (.ok [])) ended ∧
    Connection.is_handshaking ended.session = false ∧
    (ReceiveLaws.incoming ended.session).ended = true ∧ ended.inner.stream.writes = [] ∧
    TlsStream.Step ended (.write [1] (.ok 0)) ended :=
  ⟨_, ⟨8, rfl⟩, rfl, rfl, rfl, ⟨8, rfl⟩⟩

-- A client that has read up to the last byte before a close_notify.
def closingClient : Observed Scripted NullCipher :=
  new ⟨[.Ready (.ok [0, 1, 7, 2])], []⟩ (NullCipher.new false 8 8)

theorem tls_half_close_before_the_end : ∃ st n after,
    TlsStream.Step closingClient (.read 4 (.ok [7])) st ∧
    (ReceiveLaws.incoming st.session).closed = true ∧ 0 < n ∧
    (TlsStream.poll_write [1]).Returns st (.ok n) after := by
  obtain ⟨st, hread, hclosed, hopen, hwrites, heof⟩ : ∃ st,
      TlsStream.Step closingClient (.read 4 (.ok [7])) st ∧
      (ReceiveLaws.incoming st.session).closed = true ∧
      Connection.is_handshaking st.session = false ∧ st.inner.stream.writes = [] ∧
      st.eof = false :=
    ⟨_, ⟨8, rfl⟩, rfl, rfl, rfl, rfl⟩
  obtain ⟨n, after, hpos, hreturns, -⟩ := (tls_half_close_iff _ Scripted.accepting
    (Scripted.mk [.Ready (.ok [0, 1, 7, 2])] []) (NullCipher.new false 8 8)
    (NullCipher.fresh_new false 8 8) _ st (Run.nil.next hread) hopen hwrites [1]
    (by decide)).mpr heof
  exact ⟨st, n, after, hread, hclosed, hpos, hreturns⟩

-- `Pending` of a `TlsStream` is honest, and what was accepted was handed over once.
theorem tls_pending_and_writes {S C : Type} [AsyncStream S] [Connection C] [SendLaws C]
    [ReceiveLaws C] (hinner : NeverWouldBlock S) (inner : S) (session : C)
    (past : List (Transition (Observed S C) Call)) (state : Observed S C)
    (hrun : Run TlsStream.Step (new inner session) past state) :
    (∀ t ∈ past, t.label.isPending = true →
      ∃ e ∈ events t.before t.after, e.isPending = true) ∧
    (∀ t ∈ past, ∀ remaining, t.label = .read remaining (.error .Pending) →
      Connection.wants_write t.after.session = false ∨
        ∃ e ∈ events t.before t.after, e.isStalledWrite = true) ∧
    ((∀ t ∈ past, t.label.failed = false) →
      state.session.handed = past.flatMap (·.label.accepted) ∧
      ∀ t ∈ past, t.label.isPending = true → handed t.before t.after = []) := by
  refine ⟨?_, ?_, ?_⟩
  · exact hrun.forall_mem (fun t => t.label.isPending = true →
      ∃ e ∈ events t.before t.after, e.isPending = true)
      fun _ last _ hstep hpending => isPending_of_step hinner hpending hstep
  · refine hrun.forall_mem (fun t => ∀ remaining, t.label = .read remaining (.error .Pending) →
      Connection.wants_write t.after.session = false ∨
        ∃ e ∈ events t.before t.after, e.isStalledWrite = true) ?_
    intro _ last _ hstep remaining hlabel
    rw [hlabel] at hstep
    exact stalled_of_read hinner hstep
  · intro hok
    refine ⟨accepted_of_run hrun hok, ?_⟩
    refine hrun.forall_mem (fun t => t.label.isPending = true →
      handed t.before t.after = []) ?_
    intro _ last _ hstep hpending
    have hfailed : last.label.failed = false ∧ last.label.accepted = [] := by
      rcases Call.cases_of_isPending hpending with ⟨remaining, h⟩ | ⟨buf, h⟩ | h | h
      all_goals
        rw [h]
        exact ⟨rfl, rfl⟩
    rw [accepted_eq_handed hfailed.1 hstep, hfailed.2]

-- A client that waits for the answer to its first flight, and whose inner stream then puts the
-- next two writes off.
def waitingScript : Scripted :=
  ⟨[.Pending, .Ready (.ok [0])], [.Ready (.ok 1), .Pending, .Pending]⟩

def waitingClient : Observed Scripted NullCipher :=
  new waitingScript (NullCipher.new false 8 8)

-- The write is put off by the handshake and then taken; its record does not leave, so the read
-- is put off by a write.
theorem tls_pending_and_writes_stalled :
    ∃ first second third, TlsStream.Step waitingClient (.write [5] (.error .Pending)) first ∧
      TlsStream.Step first (.write [5] (.ok 1)) second ∧
      TlsStream.Step second (.read 4 (.error .Pending)) third ∧
      (∃ e ∈ events waitingClient first, e.isPending = true) ∧
      (∃ e ∈ events second third, e.isStalledWrite = true) ∧
      handed waitingClient first = [] ∧ handed second third = [] ∧
      third.session.handed = [5] := by
  obtain ⟨first, second, third, hfirst, hsecond, hthird, hwants⟩ : ∃ first second third,
      TlsStream.Step waitingClient (.write [5] (.error .Pending)) first ∧
      TlsStream.Step first (.write [5] (.ok 1)) second ∧
      TlsStream.Step second (.read 4 (.error .Pending)) third ∧
      Connection.wants_write third.session = true :=
    ⟨_, _, _, ⟨8, rfl⟩, ⟨8, rfl⟩, ⟨8, rfl⟩, rfl⟩
  have hrun := ((Run.nil.next hfirst).next hsecond).next hthird
  obtain ⟨hpending, hstalled, hhanded⟩ := tls_pending_and_writes Scripted.neverWouldBlock
    waitingScript (NullCipher.new false 8 8) _ third hrun
  obtain ⟨haccepted, hnone⟩ := hhanded (by simp [Call.failed])
  refine ⟨first, second, third, hfirst, hsecond, hthird, hpending _ (.head _) rfl, ?_,
    hnone _ (.head _) rfl, hnone _ (.tail _ (.tail _ (.head _))) rfl, haccepted⟩
  have hread := hstalled _ (.tail _ (.tail _ (.head _))) 4 rfl
  exact hread.resolve_left fun hidle => by cases hwants.symm.trans hidle

-- With a record ready to be read, in however many pieces, a read gives plaintext out if and only
-- if the flag is unset and the inner stream refuses no write on the way.
theorem tls_read_ready_iff {S C : Type} [AsyncStream S] [Connection C] [SendLaws C]
    [ReceiveLaws C] (ready : Nat → S → C → Prop) (hready : Readable ready) (inner : S)
    (session : C) (hfresh : ReceiveLaws.incoming session = ⟨[], [], false, false⟩)
    (past : List (Transition (Observed S C) Call)) (st : Observed S C)
    (hrun : Run TlsStream.Step (new inner session) past st)
    (hopen : Connection.is_handshaking st.session = false)
    (pieces : Nat) (hst : ready pieces st.inner.stream st.session.session) (remaining : Nat)
    (hpos : 0 < remaining) :
    ∃ outcome after, (TlsStream.poll_read remaining).Returns st outcome after ∧
      ((∃ bytes, bytes ≠ [] ∧ outcome = .ok bytes) ↔
        st.eof = false ∧ ∀ e ∈ events st after, e.isRefusedWrite = false) := by
  obtain ⟨outcome, after, hreturns, hiff⟩ :=
    poll_read_ready hready hpos hopen hst (endNoticed_of_run hfresh hrun)
  refine ⟨outcome, after, hreturns, ?_⟩
  simpa only [Refused, not_exists, not_and, Bool.not_eq_true] using hiff

-- A client whose peer sends and does not read.
def pressedClient : Observed Scripted NullCipher :=
  new ⟨[.Ready (.ok [0]), .Ready (.ok [1, 7])], [.Ready (.ok 1), .Pending, .Pending]⟩
    (NullCipher.new false 8 8)

-- The record with the byte 7 is there, and the read waits for the peer to read.
theorem tls_read_blocked : ∃ st after,
    TlsStream.Step pressedClient (.write [5] (.ok 1)) st ∧
    Connection.is_handshaking st.session = false ∧
    (AsyncStream.poll_read st.inner.stream 16).1 = .Ready (.ok [1, 7]) ∧
    (ReceiveLaws.incoming (Connection.process_new_packets
      (Connection.received st.session.session [1, 7])).2).plaintext = [7] ∧
    TlsStream.Step st (.read 4 (.error .Pending)) after :=
  ⟨_, _, ⟨8, rfl⟩, rfl, rfl, rfl, ⟨8, rfl⟩⟩

-- A client whose peer reads as well, and whose record comes in two pieces.
def servedClient : Observed Scripted NullCipher :=
  new ⟨[.Ready (.ok [0]), .Ready (.ok [1]), .Ready (.ok [7])], []⟩ (NullCipher.new false 8 8)

theorem tls_read_ready_one_byte : ∃ st after,
    TlsStream.Step servedClient (.write [5] (.ok 1)) st ∧
    TlsStream.Step st (.read 4 (.ok [7])) after ∧
    st.eof = false ∧ ∀ e ∈ events st after, e.isRefusedWrite = false := by
  obtain ⟨st, after, hwrite, hopen, hst, hread⟩ : ∃ st after,
      TlsStream.Step servedClient (.write [5] (.ok 1)) st ∧
      Connection.is_handshaking st.session = false ∧
      NullCipher.HasByte 7 1 st.inner.stream st.session.session ∧
      ∀ fuel, (TlsStream.poll_read 4).run (fuel + 8) st = some (.ok [7], after) :=
    ⟨_, _, ⟨8, rfl⟩, rfl, ⟨rfl, rfl, .inl ⟨rfl, rfl, rfl⟩⟩, fun _ => rfl⟩
  obtain ⟨outcome, after', ⟨bound, hreturns⟩, hiff⟩ := tls_read_ready_iff (NullCipher.HasByte 7)
    (NullCipher.readable_hasByte 7) servedClient.inner.stream (NullCipher.new false 8 8) rfl _ st
    (Run.nil.next hwrite) hopen 1 hst 4 (by decide)
  have hsame := hreturns (bound + 8) (Nat.le_add_right _ _)
  rw [hread] at hsame
  obtain ⟨rfl, rfl⟩ := Prod.mk.inj (Option.some.inj hsame)
  exact ⟨st, after, hwrite, ⟨8, hread 0⟩, hiff.mp ⟨[7], by decide, rfl⟩⟩

-- While no write is refused, and no read without room runs into the end of the stream,
-- reading from a `TlsStream` loses nothing and ends only at the end.
theorem tls_read_complete {S C : Type} [AsyncStream S] [Connection C] [SendLaws C]
    [ReceiveLaws C] (inner : S) (session : C)
    (hfresh : ReceiveLaws.incoming session = ⟨[], [], false, false⟩)
    (past : List (Transition (Observed S C) Call)) (st : Observed S C)
    (hrun : Run TlsStream.Step (new inner session) past st)
    (hclear : ∀ t ∈ past, Clear t.label.isZeroRead t.before t.after) :
    (ReceiveLaws.incoming st.session).decrypted =
      past.flatMap (·.label.filled) ++ (ReceiveLaws.incoming st.session).plaintext ∧
    (∀ remaining, 0 < remaining → (ReceiveLaws.incoming st.session).plaintext ≠ [] →
      ∃ bytes after, bytes ≠ [] ∧
        (ReceiveLaws.incoming st.session).plaintext =
          bytes ++ (ReceiveLaws.incoming after.session).plaintext ∧
        (TlsStream.poll_read remaining).Returns st (.ok bytes) after) ∧
    (∀ remaining after, 0 < remaining → TlsStream.Step st (.read remaining (.ok [])) after →
      Clear false st after →
      ((ReceiveLaws.incoming after.session).closed = true ∨
        ∃ room, 0 < room ∧ .read room (.Ready (.ok [])) ∈ after.inner.log) ∧
      (ReceiveLaws.incoming after.session).decrypted = past.flatMap (·.label.filled)) ∧
    ∀ e after, TlsStream.Step st (.read 0 (.error (.Err e))) after → Clear true st after →
      Explained st after e := by
  have hfinished := finished_of_run hrun hclear
  refine ⟨(given_of_run hfresh hrun).1, ?_, ?_, ?_⟩
  · intro remaining hpos hplain
    have heof : st.eof = false := Bool.eq_false_iff.mpr fun heof => hplain (hfinished heof).1
    obtain ⟨bytes, after, hne, hgiven, -, hreturns⟩ := poll_read_returns hpos heof hplain
    exact ⟨bytes, after, hne, hgiven, hreturns⟩
  · intro remaining after hpos hstep hlast
    obtain ⟨remaining, rfl⟩ : ∃ k, remaining = k + 1 := ⟨remaining - 1, by omega⟩
    obtain ⟨hgiven, hseen⟩ := given_of_run hfresh (hrun.next hstep)
    obtain ⟨fuel, hread⟩ := id hstep
    have heof : after.eof = true :=
      poll_read_empty (remaining + 1) fuel st _ after trivial hread rfl
    obtain ⟨hplain, hend⟩ := finished_of_step hstep hlast hfinished heof
    refine ⟨hend.imp_right hseen, ?_⟩
    rw [Given, hplain, List.append_nil, List.flatMap_append, List.flatMap_singleton] at hgiven
    exact hgiven.trans (List.append_nil _)
  · intro e after hstep hlast
    obtain ⟨fuel, hread⟩ := id hstep
    exact poll_read_fails fuel st _ after (Grown.refl st) hread e rfl hlast

-- A client whose first flight is refused, and one that is asked to read without room.
def refusedClient : Observed Scripted NullCipher :=
  new ⟨[.Ready (.ok [0, 1, 7])], [.Ready (.ok 0)]⟩ (NullCipher.new false 8 8)

def roomlessClient : Observed Scripted NullCipher :=
  new ⟨[.Ready (.ok [0, 1, 7]), .Ready (.ok [])], []⟩ (NullCipher.new false 8 8)

-- A byte is decrypted and not given out, now and in every later read: in the first case
-- neither the stream has ended nor a close_notify has come.
theorem tls_read_incomplete :
    (∃ after, TlsStream.Step refusedClient (.read 4 (.ok [])) after ∧
      ReceiveLaws.incoming after.session = ⟨[7], [7], false, false⟩ ∧ after.eof = true) ∧
    ∃ after, TlsStream.Step roomlessClient (.read 0 (.ok [])) after ∧
      (ReceiveLaws.incoming after.session).plaintext = [7] ∧
      TlsStream.Step after (.read 4 (.ok [])) after :=
  ⟨⟨_, ⟨8, rfl⟩, rfl, rfl⟩, _, ⟨8, rfl⟩, rfl, ⟨8, rfl⟩⟩

-- A client that is asked to read without room before it reads to the end.
def patientClient : Observed Scripted NullCipher :=
  new ⟨[.Ready (.ok [0, 1, 7]), .Pending, .Ready (.ok [])], []⟩ (NullCipher.new false 8 8)

theorem tls_read_complete_one_byte : ∃ waiting given ended,
    TlsStream.Step patientClient (.read 0 (.error .Pending)) waiting ∧
    TlsStream.Step waiting (.read 4 (.ok [7])) given ∧
    TlsStream.Step given (.read 4 (.ok [])) ended ∧
    (ReceiveLaws.incoming ended.session).decrypted = [7] := by
  obtain ⟨waiting, given, ended, hfirst, hsecond, hthird, hclear, hclear', hclear''⟩ :
      ∃ waiting given ended,
      TlsStream.Step patientClient (.read 0 (.error .Pending)) waiting ∧
      TlsStream.Step waiting (.read 4 (.ok [7])) given ∧
      TlsStream.Step given (.read 4 (.ok [])) ended ∧
      Clear true patientClient waiting ∧ Clear false waiting given ∧ Clear false given ended :=
    ⟨_, _, _, ⟨8, rfl⟩, ⟨8, rfl⟩, ⟨8, rfl⟩, ⟨by decide, by decide⟩, ⟨by decide, by decide⟩,
      ⟨by decide, by decide⟩⟩
  have hrun := (Run.nil.next hfirst).next hsecond
  have hcomplete := tls_read_complete
    (Scripted.mk [.Ready (.ok [0, 1, 7]), .Pending, .Ready (.ok [])] [])
    (NullCipher.new false 8 8) rfl _ given hrun (by
      intro t ht
      rcases List.mem_cons.mp ht with rfl | ht
      · exact hclear
      · obtain rfl := List.mem_singleton.mp ht
        exact hclear')
  exact ⟨waiting, given, ended, hfirst, hsecond, hthird,
    (hcomplete.2.2.1 4 ended (by decide) hthird hclear'').2⟩

end AlphaRay
