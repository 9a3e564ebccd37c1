import AlphaRay.Protocol.VisionTls.RoundTrip
import AlphaRay.Protocol.VisionTls.Rules

namespace AlphaRay

open Lib Async

namespace VisionTlsStream

variable {S C R : Type} [AsyncStream S] [Connection C] [Rng R]

-- What the calls of the owner are made of.
inductive Act : Call → VisionTlsStream S C R → VisionTlsStream S C R → Prop
  | unframe {len : Nat} {outcome : Except Exit (List UInt8)} {st next : VisionTlsStream S C R}
      {buf out : ReadBuf} {result : IoResult Nat} :
      st.unframe_read_buf buf = (result, next, out) → Act (.read len outcome) st next
  | reader_read {len : Nat} {outcome : Except Exit (List UInt8)} {st : VisionTlsStream S C R} :
      Act (.read len outcome) st { st with
        session := (Connection.reader_read st.session 4096).2 }
  | refill {len : Nat} {outcome : Except Exit (List UInt8)} {st : VisionTlsStream S C R}
      (bytes : List UInt8) :
      Act (.read len outcome) st { st with read_buf := st.read_buf ++ bytes }
  | read_tls {len : Nat} {outcome : Except Exit (List UInt8)} {st : VisionTlsStream S C R}
      {result : IoResult Nat} {session : C} {inner : S} :
      ReadTls st.session st.inner result session inner →
      Act (.read len outcome) st { st with inner := inner, session := session }
  | process {len : Nat} {outcome : Except Exit (List UInt8)} {st : VisionTlsStream S C R} :
      Act (.read len outcome) st { st with
        session := (Connection.process_new_packets st.session).2 }
  | frame {buf : List UInt8} {outcome : Except Exit Nat} {st next : VisionTlsStream S C R} :
      st.frame_buf (buf.take (min buf.length 65535)) = .ok next → Act (.write buf outcome) st next
  | writer_write {buf : List UInt8} {outcome : Except Exit Nat} {st : VisionTlsStream S C R}
      {n : Nat} {session : C} :
      Connection.writer_write st.session st.write_buf = (.ok n, session) →
      Act (.write buf outcome) st { st with
        session := session
        write_buf := st.write_buf.drop n }
  | writer_error {buf : List UInt8} {outcome : Except Exit Nat} {st : VisionTlsStream S C R}
      {e : IoError} {session : C} :
      Connection.writer_write st.session st.write_buf = (.error e, session) →
      Act (.write buf outcome) st { st with session := session }
  | write_tls {call : Call} {st : VisionTlsStream S C R} {result : IoResult Nat} {session : C}
      {inner : S} :
      call.isRead = false → WriteTls st.session st.inner result session inner →
      Act call st { st with inner := inner, session := session }
  | send_close_notify {outcome : Except Exit Unit} {st : VisionTlsStream S C R} :
      Act (.shutdown outcome) st { st with session := Connection.send_close_notify st.session }
  | inner_flush {outcome : Except Exit Unit} {st : VisionTlsStream S C R} :
      Act (.flush outcome) st { st with inner := (AsyncStream.poll_flush st.inner).2 }
  | inner_shutdown {outcome : Except Exit Unit} {st : VisionTlsStream S C R} :
      Act (.shutdown outcome) st { st with inner := (AsyncStream.poll_shutdown st.inner).2 }

section Keeps

variable {call : Call} {inv : VisionTlsStream S C R → Prop}

theorem poll_read_keeps {len : Nat} {outcome : Except Exit (List UInt8)}
    (hinv : ∀ st next, inv st → Act (.read len outcome) st next → inv next) :
    Triple (fun now : VisionTlsStream S C R × ReadBuf => inv now.1) poll_read
      (fun _ now => inv now.1) fun _ now => inv now.1 := by
  have hreader : ∀ st result session, inv st →
      Connection.reader_read st.session 4096 = (result, session) →
      inv { st with session := session } := by
    intro st result session h hread
    have hnext := hinv st _ h .reader_read
    rwa [hread] at hnext
  have hrefill : ∀ (st : VisionTlsStream S C R) (buf : ReadBuf) bytes, inv st →
      inv (refill (st, buf) bytes).1 :=
    fun st buf bytes h => hinv st _ h (.refill bytes)
  refine poll_read_rule (read_round_rule (fun now => inv now.1) (fun now => inv now.1) ?_ ?_
    (pull_round_rule (fun _ now => inv now.1) (fun _ now => inv now.1) ?_ ?_ ?_))
  · intro st buf result next out h hunframe
    have hnext := hinv st next h (.unframe hunframe)
    simpa only [ite_self, ends_same] using hnext
  · intro st buf result session h hread
    have hnext := hreader st result session h hread
    rcases result with e | bytes
    · simpa only [ends_error, ite_self] using hnext
    · by_cases hempty : bytes = []
      · simpa only [ends_ok, hempty, if_true] using hnext
      · simpa only [ends_ok, hempty, if_false] using hrefill _ buf bytes hnext
  · intro st buf n session inner h hread
    exact (ends_same n).mpr (hinv st _ h (.read_tls hread))
  · intro n st buf h
    exact (ends_same _).mpr (hinv st _ h .process)
  · intro n st buf result session h hread
    have hnext := hreader st result session h hread
    rcases result with e | bytes
    · exact hnext
    · by_cases hempty : bytes = []
      · simpa only [ends_ok, hempty, if_true, ite_self] using hnext
      · simpa only [ends_ok, hempty, if_false] using hrefill _ buf bytes hnext

omit [Rng R] in
theorem flush_keeps (hwrite : ∀ st result session inner, inv st →
      WriteTls st.session st.inner result session inner →
      inv { st with inner := inner, session := session }) :
    Triple inv (.repeat_until (fun _ => flush_round) ()) (fun _ => inv) fun _ => inv :=
  flush_rule (fun _ h _ => h) fun st result session inner h _ hcall =>
    (ends_same result).mpr (hwrite st result session inner h hcall)

theorem poll_write_keeps {buf : List UInt8} {outcome : Except Exit Nat}
    (hinv : ∀ st next, inv st → Act (.write buf outcome) st next → inv next) :
    Triple inv (poll_write buf) (fun _ => inv) fun _ => inv := by
  have hwriter : ∀ st result session, inv st →
      Connection.writer_write st.session st.write_buf = (result, session) →
      ends (fun n (now : VisionTlsStream S C R) =>
        inv { now with write_buf := now.write_buf.drop n }) (fun _ => inv) result
        { st with session := session } := by
    intro st result session h hcall
    rcases result with e | n
    · exact hinv st _ h (.writer_error hcall)
    · exact hinv st _ h (.writer_write hcall)
  have hwrite : ∀ st result session inner, inv st →
      WriteTls st.session st.inner result session inner →
      inv { st with inner := inner, session := session } :=
    fun st result session inner h hcall => hinv st _ h (.write_tls rfl hcall)
  have hdrain : Triple inv (.repeat_until (fun _ => drain_round) ()) (fun _ => inv)
      fun _ => inv := by
    refine drain_rule inv (fun _ h _ => h) ?_ ?_
    · intro st result session h _ hcall
      have hnext := hwriter st result session h hcall
      rcases result with e | n
      · exact hnext
      · by_cases hzero : n = 0
        · simpa only [ends_ok, hzero, if_true, List.drop_zero] using hnext
        · simpa only [ends_ok, hzero, if_false] using hnext
    · intro st result session inner h hcall
      exact (ends_same result).mpr (hwrite st result session inner h hcall)
  have hfill : Triple inv (.repeat_until (fun _ => fill_round) ()) (fun _ => inv)
      fun _ => inv :=
    fill_rule (fun _ h _ => h) fun st result session h _ hcall =>
      hwriter st result session h hcall
  have hsend : Triple inv (.repeat_until (fun _ => send_round) ()) (fun _ => inv)
      fun _ => inv := by
    refine send_rule (fun _ h _ => h) ?_
    intro st result session inner h _ hcall
    have hnext := hwrite st result session inner h hcall
    simpa only [ite_self, ends_same] using hnext
  refine (poll_write_rule hdrain ?_ hfill hsend).conseq (fun _ h => h) (fun _ _ h => h.2)
    fun _ _ h => h
  intro st h
  rcases hframed : st.frame_buf (buf.take (min buf.length 65535)) with panic | next
  · exact h
  · exact hinv st next h (.frame hframed)

theorem poll_flush_keeps {outcome : Except Exit Unit}
    (hinv : ∀ st next, inv st → Act (.flush outcome) st next → inv next) :
    Triple inv poll_flush (fun _ => inv) fun _ => inv := by
  refine poll_flush_rule (flush_keeps fun st result session inner h hcall =>
    hinv st _ h (.write_tls rfl hcall)) ?_
  intro st reply inner h hcall
  have hnext := hinv st _ h .inner_flush
  rw [hcall] at hnext
  rcases reply with (e | _) | _ <;> exact hnext

theorem poll_shutdown_keeps {outcome : Except Exit Unit}
    (hinv : ∀ st next, inv st → Act (.shutdown outcome) st next → inv next) :
    Triple inv poll_shutdown (fun _ => inv) fun _ => inv := by
  refine poll_shutdown_rule (fun st h => hinv st _ h .send_close_notify)
    (flush_keeps fun st result session inner h hcall => hinv st _ h (.write_tls rfl hcall)) ?_
  intro st reply inner h hcall
  have hnext := hinv st _ h .inner_shutdown
  rw [hcall] at hnext
  rcases reply with (e | _) | _ <;> exact hnext

end Keeps

-- An invariant of the acts of a call is an invariant of the call.
theorem Step.rule {st after : VisionTlsStream S C R} {call : Call}
    (inv : VisionTlsStream S C R → Prop)
    (hinv : ∀ st next, inv st → Act call st next → inv next) (hstart : inv st)
    (hstep : Step st call after) : inv after := by
  have hends : ∀ {α : Type} {m : Async (VisionTlsStream S C R) Exit α} {outcome : Except Exit α},
      Triple inv m (fun _ => inv) (fun _ => inv) →
      (∃ fuel, m.run fuel st = some (outcome, after)) → inv after := by
    intro α m outcome htriple hends
    obtain ⟨fuel, hrun⟩ := hends
    exact (ends_same outcome).mp (htriple fuel st outcome after hstart hrun)
  cases call with
  | read len outcome => exact hends (read_rule (poll_read_keeps hinv)) hstep
  | write buf outcome => exact hends (poll_write_keeps hinv) hstep
  | flush outcome => exact hends (poll_flush_keeps hinv) hstep
  | shutdown outcome => exact hends (poll_shutdown_keeps hinv) hstep

theorem setup_of_act {st next : VisionTlsStream S C R} {call : Call} (h : Act call st next) :
    SameSetup st next := by
  cases h with
  | unframe hcall => exact (reads_of_unframe hcall).setup
  | frame hcall => exact (writes_of_frame_buf hcall).setup
  | _ => exact ⟨rfl, rfl, rfl⟩

theorem setup_of_run {start st : VisionTlsStream S C R}
    {past : List (Transition (VisionTlsStream S C R) Call)} (hrun : Run Step start past st) :
    SameSetup start st := by
  refine hrun.rule (fun _ st => SameSetup start st) ⟨rfl, rfl, rfl⟩ ?_
  intro past last _ ih hstep
  exact hstep.rule (SameSetup start) (fun _ _ h hact => h.trans (setup_of_act hact)) ih

end VisionTlsStream

end AlphaRay
