import AlphaRay.Lib.Divergence
import AlphaRay.Protocol.VisionTls.Acts
import AlphaRay.Protocol.VisionTls.Padding

namespace AlphaRay

open Lib Async

namespace VisionTlsStream

section Length

variable {S C R : Type} [Rng R] {st next : VisionTlsStream S C R} {buf : List UInt8}

-- The padding is drawn from the generator that the stream had before the write.
theorem draw_padding_len_eq (hpadding : next.state.padding = st.state.padding)
    (hrng : next.state.rng = st.state.rng) :
    draw_padding_len next buf = (draw_padding_len st buf).map fun drawn =>
      (drawn.1, { next with state := { next.state with rng := drawn.2.state.rng } }) := by
  simp only [draw_padding_len, hpadding, hrng]
  split
  · rcases Rng.u16 st.state.rng st.state.padding.long_padding_len_range with panic | drawn
    · rfl
    · dsimp only [bind, Except.bind]
      rcases u16_add drawn.1 st.state.padding.long_padding_base_len with panic | len
      · rfl
      · rfl
  · rcases Rng.u16 st.state.rng st.state.padding.padding_len_range with panic | drawn
    · rfl
    · rfl

-- How many bytes framing adds, from what the stream was before.
def frame_len (st : VisionTlsStream S C R) (buf : List UInt8) : Except Panic Nat :=
  if st.state.write_direct_copy then return buf.length
  else do
    let id_len ← st.meter.id_len
    let drawn ← draw_padding_len st buf
    return id_len + 5 + buf.length + drawn.1.toNat

theorem frame_buf_len (st : VisionTlsStream S C R) (buf : List UInt8) :
    (∃ panic, frame_buf st buf = .error panic ∧ frame_len st buf = .error panic) ∨
    ∃ next len, frame_buf st buf = .ok next ∧ frame_len st buf = .ok len ∧
      next.write_buf.length = st.write_buf.length + len := by
  cases hdirect : st.state.write_direct_copy with
  | true =>
      refine .inr ⟨_, buf.length, frame_buf_of_direct hdirect, ?_, List.length_append⟩
      simp only [frame_len, hdirect, if_true]
      rfl
  | false =>
      rcases put_id_metered st with ⟨panic, hput, hid⟩ | ⟨named, id, hput, hid, hbuf, hmeter⟩
      · refine .inl ⟨panic, ?_, ?_⟩
        · rw [frame_buf_eq st buf hdirect, hput]
          rfl
        · simp only [frame_len, hdirect, Bool.false_eq_true, if_false, hid, bind, Except.bind]
      · have happ := meter_sniff_app_data named buf
        obtain ⟨-, hkept, -⟩ := sniff_app_data_spec named buf
        obtain ⟨sniffed, hhello, hs⟩ := sniff_hello_ok (sniff_app_data named buf).2 buf
        have hframe := frame_buf_eq_map hdirect hput hhello
        have hsame := ((meter_of_sniff_hello hhello).trans happ).trans hmeter
        rw [@draw_padding_len_eq S C R _ st sniffed buf (congrArg Meter.padding hsame)
          (congrArg Meter.rng hsame)] at hframe
        rcases hdraw : draw_padding_len st buf with panic | drawn
        · rw [hdraw] at hframe
          refine .inl ⟨panic, hframe, ?_⟩
          simp only [frame_len, hdirect, Bool.false_eq_true, if_false, hid, hdraw, bind,
            Except.bind]
        · rw [hdraw] at hframe
          refine .inr ⟨_, id.length + 5 + buf.length + drawn.1.toNat, hframe, ?_, ?_⟩
          · simp only [frame_len, hdirect, Bool.false_eq_true, if_false, hid, hdraw, bind,
              Except.bind, pure, Except.pure]
          · simp only [put_frame, hs.write_buf, hkept, hbuf, List.length_append,
              List.length_replicate, List.length_singleton, length_u16_to_be_bytes]
            omega

theorem frame_returns {next : VisionTlsStream S C R} {buf : List UInt8}
    (h : st.frame_buf buf = .ok next) : (frame buf).Returns st (.ok ()) next := by
  refine (Returns.peek st).bind ?_
  rw [h]
  exact .act _ st

theorem frame_returns_error {buf : List UInt8} {panic : Panic}
    (h : st.frame_buf buf = .error panic) :
    (frame buf).Returns st (.error (.Panicked panic)) st := by
  refine (Returns.peek st).bind ?_
  rw [h]
  exact .throw _ st

theorem frame_mono (buf : List UInt8) :
    Mono (frame buf : Async (VisionTlsStream S C R) Exit Unit) := by
  refine .bind (.act _) fun now => ?_
  rcases now.frame_buf buf with panic | next
  · exact .throw _
  · exact .act _

end Length

variable {S C R : Type} [Connection C] {st : VisionTlsStream S C R}

section Loops

theorem drain_round_mono [AsyncStream S] :
    Mono (drain_round : Async (VisionTlsStream S C R) Exit (Pass Unit Unit)) := by
  refine .bind (.act _) fun write_buf => ?_
  by_cases hempty : write_buf = []
  · simp only [hempty, if_true]
    exact .pure _
  · simp only [hempty, if_false]
    refine .bind (.act _) fun result => ?_
    rcases result with e | n
    · exact .throw _
    · by_cases hzero : n = 0
      · simp only [hzero, if_true]
        refine .bind (.act _) fun result => ?_
        rcases result with e | n
        · exact .throw _
        · exact .pure _
      · simp only [hzero, if_false]
        exact .bind (.act _) fun _ => .pure _

theorem fill_round_mono :
    Mono (fill_round : Async (VisionTlsStream S C R) Exit (Pass Unit Unit)) := by
  refine .bind (.act _) fun write_buf => ?_
  by_cases hempty : write_buf = []
  · simp only [hempty, if_true]
    exact .pure _
  · simp only [hempty, if_false]
    refine .bind (.act _) fun result => ?_
    rcases result with e | n
    · exact .throw _
    · exact .bind (.act _) fun _ => .pure _

-- With nothing left over the first loop is left at once, and the second likewise.
theorem drain_returns [AsyncStream S] (hempty : st.write_buf = []) :
    (Async.repeat_until (fun _ => drain_round) ()).Returns st (.ok ()) st := by
  refine Rounds.returns (.leave (.bind (.act _ st) ?_))
  simp only [hempty, if_true]
  exact .pure _ st

theorem fill_round_leaves (hempty : st.write_buf = []) :
    fill_round.Returns st (.ok (.leave ())) st := by
  refine .bind (.act _ st) ?_
  simp only [hempty, if_true]
  exact .pure _ st

variable [WriterLaws C]

-- What the writer does with what is left over.
def written (st : VisionTlsStream S C R) : VisionTlsStream S C R :=
  { st with
    session := (Connection.writer_write st.session st.write_buf).2
    write_buf := st.write_buf.drop (min st.write_buf.length (WriterLaws.room st.session)) }

theorem fill_round_goes_on (hne : st.write_buf ≠ []) :
    fill_round.Returns st (.ok (.again ())) st.written := by
  have hwrite := WriterLaws.writer_write_eq st.session st.write_buf
  refine .bind (.act _ st) ?_
  simp only [hne, if_false]
  refine .bind (.act _ st) ?_
  dsimp only
  rw [hwrite]
  exact .bind (.act _ _) (.pure _ _)

-- What there is room for is taken at once.
theorem fill_returns (hroom : st.write_buf.length ≤ WriterLaws.room st.session) :
    ∃ after, (Async.repeat_until (fun _ => fill_round) ()).Returns st (.ok ()) after := by
  by_cases hempty : st.write_buf = []
  · exact ⟨st, Rounds.returns (.leave (fill_round_leaves hempty))⟩
  · have hall : st.written.write_buf = [] := by
      rw [written, Nat.min_eq_left hroom, List.drop_length]
    refine ⟨st.written, Rounds.returns ?_⟩
    exact .again (fill_round_goes_on hempty) (.leave (fill_round_leaves hall))

-- What there is no room for stays, since nothing in this loop makes room.
theorem fill_diverges (hroom : WriterLaws.room st.session < st.write_buf.length) :
    Diverges (Async.repeat_until (fun _ => fill_round) ()) st := by
  refine .repeat_until (fun _ st => WriterLaws.room st.session < st.write_buf.length)
    (fun _ => fill_round_mono) ?_ () st hroom
  intro _ st hover
  have hne : st.write_buf ≠ [] := List.ne_nil_of_length_pos (by omega)
  refine ⟨(), st.written, fill_round_goes_on hne, ?_⟩
  have hleft := WriterLaws.room_writer_write st.session st.write_buf
  simp only [written, List.length_drop]
  omega

end Loops

section Send

variable [AsyncStream S]

theorem send_round_total :
    Total (send_round : Async (VisionTlsStream S C R) Exit (Pass Unit Unit)) := by
  refine .bind (.act _) fun wants => ?_
  cases wants with
  | false => exact .pure _
  | true =>
      refine .bind (.act _) fun result => ?_
      rcases result with e | n
      · by_cases hblock : e.kind = .WouldBlock
        · simp only [hblock, if_true]
          exact .pure _
        · simp only [hblock, if_false]
          exact .throw _
      · exact .pure _

variable [SendLaws C]

-- A round that goes on has shortened the queue.
theorem send_round_shorter (st : VisionTlsStream S C R) :
    Triple (· = st) send_round (fun pass now => pass = .again () →
      (SendLaws.outgoing now.session).queue.length <
        (SendLaws.outgoing st.session).queue.length) fun _ _ => True := by
  unfold send_round
  refine .bind (fun wants now => now = st ∧ Connection.wants_write st.session = wants)
    (.act _ fun now h => ?_) fun wants => ?_
  · obtain rfl : now = st := h
    exact ⟨rfl, rfl⟩
  cases wants with
  | false =>
      simp only [Bool.false_eq_true, if_false]
      exact .pure _ fun _ _ => by simp
  | true =>
      simp only [if_true]
      refine .bind_result (fun _ now => (SendLaws.outgoing now.session).queue.length <
        (SendLaws.outgoing st.session).queue.length) (fun _ _ => True) (write_tls_rule ?_)
        (fun _ => .pure _ fun _ h _ => h) fun e => ?_
      · rintro now result session inner ⟨rfl, hwants⟩ hcall
        cases hcall with
        | empty hempty =>
            have hqueue := (SendLaws.wants_write_iff now.session).mp hwants
            exact absurd hempty (SendLaws.sendable_ne_nil now.session hqueue)
        | @taken n _ hsendable hpos hcall =>
            have hle := AsyncStream.le_length_of_poll_write now.inner
              (Connection.sendable now.session) n (by rw [hcall])
            have hfront := (SendLaws.sendable_le now.session).length_le
            simp only [ends_ok, SendLaws.outgoing_sent now.session n hle, List.length_drop]
            omega
        | zero _ _ | failed _ _ | pending _ _ => trivial
      · by_cases hblock : e.kind = .WouldBlock
        · simp only [hblock, if_true]
          exact .pure _ fun _ _ => by simp
        · simp only [hblock, if_false]
          exact .throw _ fun _ _ => trivial

theorem send_total :
    Total (.repeat_until (fun _ => send_round) () : Async (VisionTlsStream S C R) Exit Unit) :=
  .repeat_until (fun st => (SendLaws.outgoing st.session).queue.length)
    (fun _ => send_round_total)
    (fun _ _ st _ hround => (send_round_shorter st).of_returns rfl hround rfl) ()

-- A write that starts with nothing left over returns exactly when what it frames fits.
theorem poll_write_returns_iff [WriterLaws C] [Rng R] (hempty : st.write_buf = [])
    (buf : List UInt8) :
    (∃ outcome after, (poll_write buf).Returns st outcome after) ↔
      ∀ len, st.frame_len (buf.take (min buf.length 65535)) = .ok len →
        len ≤ WriterLaws.room st.session := by
  have hdrain := @drain_returns S C R _ st _ hempty
  rcases st.frame_buf_len (buf.take (min buf.length 65535)) with
    ⟨panic, hframe, hlen⟩ | ⟨next, len, hframe, hlen, hbuf⟩
  · refine iff_of_true ⟨_, st, hdrain.bind (frame_returns_error hframe).bind_error⟩ ?_
    intro len hok
    rw [hlen] at hok
    cases hok
  · have hsession : next.session = st.session := (frame_buf_frame hframe).2
    rw [hempty, List.length_nil, Nat.zero_add] at hbuf
    constructor
    · intro hreturns len' hok
      rw [hlen] at hok
      cases hok
      obtain ⟨outcome, after, hreturns⟩ := hreturns
      by_contra hover
      have hfill : Diverges (Async.repeat_until (fun _ => fill_round) ()) next := by
        apply fill_diverges
        rw [hsession]
        omega
      have hwhole : Diverges (poll_write buf) st :=
        .of_bind (.repeat_until (fun _ => drain_round_mono) ()) hdrain
          (.of_bind (frame_mono _) (frame_returns hframe) (hfill.bind _))
      exact hwhole.not_returns hreturns
    · intro hfits
      obtain ⟨filled, hfill⟩ := @fill_returns S C R _ next _ (by
        rw [hsession, hbuf]
        exact hfits len hlen)
      obtain ⟨result, after, hsend⟩ := send_total filled
      rcases result with e | _
      · exact ⟨_, after, hdrain.bind ((frame_returns hframe).bind (hfill.bind hsend.bind_error))⟩
      · exact ⟨_, after, hdrain.bind ((frame_returns hframe).bind (hfill.bind
          (hsend.bind (.pure _ after))))⟩

end Send

section Runs

variable [AsyncStream S] [Rng R]

-- With a writer that does not fail, no call leaves anything in `write_buf`.
theorem poll_write_empties (hwriter : ∀ (c : C) bytes, ∃ n,
    (Connection.writer_write c bytes).1 = .ok n) (buf : List UInt8) :
    Triple (fun st : VisionTlsStream S C R => st.write_buf = []) (poll_write buf)
      (fun _ st => st.write_buf = []) fun _ st => st.write_buf = [] := by
  have hdrain : Triple (fun st : VisionTlsStream S C R => st.write_buf = [])
      (.repeat_until (fun _ => drain_round) ()) (fun _ st => st.write_buf = [])
      fun _ st => st.write_buf = [] :=
    drain_rule (fun _ => False) (fun _ h _ => h) (fun _ _ _ h hne => absurd h hne)
      fun _ _ _ _ h => h.elim
  have hfill : Triple (fun _ : VisionTlsStream S C R => True)
      (.repeat_until (fun _ => fill_round) ()) (fun _ st => st.write_buf = [])
      fun _ st => st.write_buf = [] := by
    refine fill_rule (fun _ _ h => h) ?_
    intro st result session _ _ hcall
    obtain ⟨n, hok⟩ := hwriter st.session st.write_buf
    rw [hcall] at hok
    obtain rfl : result = .ok n := hok
    trivial
  have hsend : Triple (fun st : VisionTlsStream S C R => st.write_buf = [])
      (.repeat_until (fun _ => send_round) ()) (fun _ st => st.write_buf = [])
      fun _ st => st.write_buf = [] := by
    refine send_rule (fun _ h _ => h) ?_
    intro st result session inner h _ _
    simpa only [ite_self, ends_same] using h
  refine (poll_write_rule hdrain ?_ hfill hsend).conseq (fun _ h => h) (fun _ _ h => h.2)
    fun _ _ h => h
  intro st h
  rcases st.frame_buf (buf.take (min buf.length 65535)) with panic | next
  · exact h
  · trivial

theorem empty_of_step (hwriter : ∀ (c : C) bytes, ∃ n,
    (Connection.writer_write c bytes).1 = .ok n) {after : VisionTlsStream S C R} {call : Call}
    (h : st.write_buf = []) (hstep : Step st call after) : after.write_buf = [] := by
  cases call with
  | write buf outcome =>
      obtain ⟨fuel, hrun⟩ := hstep
      have hends := poll_write_empties hwriter buf fuel st outcome after h hrun
      rcases outcome with e | n
      · exact hends
      · exact hends
  | read len outcome =>
      refine hstep.rule (fun st => st.write_buf = []) (fun now next hnow hact => ?_) h
      cases hact with
      | unframe hcall =>
          obtain ⟨_, _, _, _, _, _, rfl⟩ := reads_of_unframe hcall
          exact hnow
      | _ => exact hnow
  | flush outcome =>
      refine hstep.rule (fun st => st.write_buf = []) (fun now next hnow hact => ?_) h
      cases hact with
      | _ => exact hnow
  | shutdown outcome =>
      refine hstep.rule (fun st => st.write_buf = []) (fun now next hnow hact => ?_) h
      cases hact with
      | _ => exact hnow

theorem empty_of_run (hwriter : ∀ (c : C) bytes, ∃ n,
    (Connection.writer_write c bytes).1 = .ok n) {start : VisionTlsStream S C R}
    {past : List (Transition (VisionTlsStream S C R) Call)} (hstart : start.write_buf = [])
    (hrun : Run Step start past st) : st.write_buf = [] :=
  hrun.rule (fun _ st => st.write_buf = []) hstart fun _ _ _ h hstep =>
    empty_of_step hwriter h hstep

end Runs

end VisionTlsStream

-- After any run a write returns exactly when what it frames fits into the room that the
-- writer has at that time: the loop that hands it over makes no room, and the loop before
-- it, which does, has nothing left over to wait for.
theorem vision_write_returns_iff {S C R : Type} [AsyncStream S] [Connection C] [SendLaws C]
    [WriterLaws C] [Rng R] (inner : S) (session : C) (ids : List Uuid) (rng : R)
    (padding : PaddingConfig) (past : List (Transition (VisionTlsStream S C R) Call))
    (st : VisionTlsStream S C R)
    (hrun : Run VisionTlsStream.Step (.new inner session ids rng padding) past st)
    (buf : List UInt8) :
    (∃ outcome after, (VisionTlsStream.poll_write buf).Returns st outcome after) ↔
      ∀ len, st.frame_len (buf.take (min buf.length 65535)) = .ok len →
        len ≤ WriterLaws.room st.session := by
  have hwriter : ∀ (c : C) bytes, ∃ n, (Connection.writer_write c bytes).1 = .ok n :=
    fun c bytes => ⟨_, WriterLaws.writer_write_eq c bytes⟩
  exact VisionTlsStream.poll_write_returns_iff (VisionTlsStream.empty_of_run hwriter rfl hrun) buf

-- A new client over a connection with the limit of 64 KiB.
def bulkClient : VisionTlsStream Scripted NullCipher Lowest :=
  .new ⟨[], []⟩ (.new false 65535 64) [idOfSevens] ⟨⟩ paddingOfThree

theorem vision_write_returns_three_bytes : ∃ outcome after,
    (VisionTlsStream.poll_write [1, 2, 3]).Returns bulkClient outcome after := by
  have hfits : ∀ len, bulkClient.frame_len [1, 2, 3] = .ok len →
      len ≤ WriterLaws.room bulkClient.session := by
    intro len hlen
    have hlen' : bulkClient.frame_len [1, 2, 3] = .ok 27 := rfl
    obtain rfl := Except.ok.inj (hlen'.symm.trans hlen)
    decide
  exact (vision_write_returns_iff _ _ _ _ _ [] bulkClient .nil [1, 2, 3]).mpr hfits

-- Beyond the threshold its frames are not padded.
theorem frame_len_bulkClient (buf : List UInt8) (hlong : 10 < buf.length) :
    bulkClient.frame_len buf = .ok (16 + 5 + buf.length) := by
  have hid : bulkClient.meter.id_len = .ok 16 := rfl
  have hthreshold : ¬ buf.length ≤ bulkClient.state.padding.long_padding_threshold.toNat :=
    Nat.not_le.mpr hlong
  have hdraw : bulkClient.draw_padding_len buf = .ok (0, bulkClient) := by
    simp only [VisionTlsStream.draw_padding_len, hthreshold, if_false]
    rfl
  have hdirect : ¬ bulkClient.state.write_direct_copy = true := by decide
  simp only [VisionTlsStream.frame_len, hdirect, hid, hdraw, bind, Except.bind]
  rfl

-- The largest write that is framed at once does not fit.
theorem vision_write_spins :
    ¬ ∀ past st, Run VisionTlsStream.Step bulkClient past st → ∀ buf, ∃ outcome after,
      (VisionTlsStream.poll_write buf).Returns st outcome after := by
  intro hreturns
  have hwrite := hreturns [] bulkClient .nil (List.replicate 65535 0)
  have hfits := (VisionTlsStream.poll_write_returns_iff rfl _).mp hwrite
  have hlen : (List.replicate 65535 (0 : UInt8)).length = 65535 := List.length_replicate
  have hframe := frame_len_bulkClient (List.replicate 65535 0) (by omega)
  rw [hlen, Nat.min_self, List.take_of_length_le (Nat.le_of_eq hlen)] at hfits
  have hroom := hfits _ hframe
  rw [hlen] at hroom
  exact absurd hroom (by decide)

end AlphaRay
