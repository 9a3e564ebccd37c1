import AlphaRay.Lib.Embed
import AlphaRay.Lib.Prompt
import AlphaRay.Protocol.Vless.Stream

namespace AlphaRay

open Lib Async

namespace VlessStream

variable {S α : Type} {st after : VlessStream S}

-- What the owner of the stream sees of a call. The loop over the header has at most 257
-- rounds, so the turns are always enough, and no call panics.
def poll (m : Async (VlessStream S) Exit α) (st : VlessStream S) :
    Poll (IoResult α) × VlessStream S :=
  match m.run 258 st with
  | some (.ok a, after) => (.Ready (.ok a), after)
  | some (.error (.Err e), after) => (.Ready (.error e), after)
  | some (.error .Pending, after) => (.Pending, after)
  | some (.error (.Panicked _), after) => (.Pending, after)
  | none => (.Pending, st)

theorem ok_of_poll {m : Async (VlessStream S) Exit α} {a : α}
    (h : (poll m st).1 = .Ready (.ok a)) : ∃ after, m.run 258 st = some (.ok a, after) := by
  unfold poll at h
  split at h <;> cases h
  rename_i after hrun
  exact ⟨after, hrun⟩

-- A call that returns is seen as it is.
theorem poll_eq {m : Async (VlessStream S) Exit α} {reply : Poll (IoResult α)} (hmono : Mono m)
    (hends : ∃ outcome, m.run 258 st = some outcome) (hreturns : m.Returns st reply.outcome after) :
    poll m st = (reply, after) := by
  obtain ⟨outcome, hends⟩ := hends
  have hrun : m.run 258 st = some (reply.outcome, after) := by
    rcases hmono.run_cases hreturns 258 with hnone | hsome
    · rw [hends] at hnone
      cases hnone
    · exact hsome
  unfold poll
  rw [hrun]
  rcases reply with (e | a) | _ <;> rfl

theorem exists_reply {outcome : Except Exit α}
    (h : ∀ panic, outcome ≠ .error (.Panicked panic)) :
    ∃ reply : Poll (IoResult α), reply.outcome = outcome := by
  rcases outcome with (_ | e | panic) | a
  · exact ⟨.Pending, rfl⟩
  · exact ⟨.Ready (.error e), rfl⟩
  · exact absurd rfl (h panic)
  · exact ⟨.Ready (.ok a), rfl⟩

theorem prompt_forward (reply : Poll (IoResult α)) :
    Prompt (forward reply : Async (VlessStream S) Exit α) := by
  rcases reply with (e | a) | _
  · exact .throw _
  · exact .pure _
  · exact .throw _

theorem prompt_take_buffered (len : Nat) :
    Prompt (take_buffered len : Async (VlessStream S) Exit (List UInt8)) := by
  refine .bind (.act _) fun st => ?_
  dsimp only
  split
  · exact .act _
  · exact .throw _
  · exact .throw _

theorem prompt_decode_round : Prompt (decode_round : Async (VlessStream S) Exit _) := by
  refine .bind (.bind (.act _) fun st => ?_) fun result => ?_
  · split
    · exact .act _
    · exact .throw _
  · split
    · exact .bind (.act _) fun _ => .pure _
    · exact .pure _
    · exact .throw _

theorem take_buffered_le (len : Nat) :
    Triple (fun _ : VlessStream S => True) (take_buffered len) (fun bytes _ => bytes.length ≤ len)
      fun _ _ => True := by
  refine .bind (fun _ _ => True) (.act _ fun _ _ => trivial) fun st => ?_
  dsimp only
  split
  · rename_i bytes buf hslice _
    refine .act _ fun _ _ => ?_
    unfold slice at hslice
    split at hslice
    · cases hslice
      rw [List.length_take]
      omega
    · cases hslice
  · exact .throw _ fun _ _ => trivial
  · exact .throw _ fun _ _ => trivial

-- Going on, the loop has the buffer that it had, and still no complete header.
theorem decode_round_again (k : Nat) :
    Triple (fun st : VlessStream S => st.buf.bytes.length = k) decode_round
      (fun pass after => ∀ next, pass = .again next →
        payload after.buf.bytes = none ∧ after.buf.bytes.length = k) fun _ _ => True := by
  intro fuel st result after hlen hrun
  rcases @decode_round_returns S st with ⟨hnone, hreturns⟩ | ⟨buf, -, hreturns⟩
  · obtain ⟨rfl, rfl⟩ := hreturns.unique (prompt_decode_round.mono.returns hrun)
    exact fun _ _ => ⟨hnone, hlen⟩
  · obtain ⟨rfl, rfl⟩ := hreturns.unique (prompt_decode_round.mono.returns hrun)
    intro next hnext
    cases hnext

variable [AsyncStream S]

theorem prompt_read_chunk : Prompt (read_chunk : Async (VlessStream S) Exit _) :=
  .bind (.act _) fun _ => .bind (.act _) fun reply => prompt_forward reply

theorem prompt_handshake_round : Prompt (handshake_round : Async (VlessStream S) Exit _) := by
  refine .bind prompt_read_chunk fun filled => ?_
  split
  · exact .throw _
  · exact .bind (.act _) fun _ => prompt_decode_round

theorem prompt_read_payload (remaining : Nat) :
    Prompt (read_payload remaining : Async (VlessStream S) Exit _) := by
  refine .bind (.act _) fun st => ?_
  dsimp only
  split
  · exact .bind (.act _) fun reply => prompt_forward reply
  · exact prompt_take_buffered _

theorem mono_poll_read (remaining : Nat) :
    Mono (poll_read remaining : Async (VlessStream S) Exit _) := by
  refine .bind (.act _) fun done => ?_
  split
  · exact (prompt_read_payload remaining).mono
  · exact .bind (.repeat_until (fun _ => prompt_handshake_round.mono) ()) fun _ =>
      (prompt_read_payload remaining).mono

theorem handshake_round_again (k : Nat) :
    Triple (fun st : VlessStream S => payload st.buf.bytes = none ∧ 257 - st.buf.bytes.length = k)
      handshake_round
      (fun pass after => ∀ next, pass = .again next →
        payload after.buf.bytes = none ∧ 257 - after.buf.bytes.length < k) fun _ _ => True := by
  have hchunk : ∀ len, Triple (fun st : VlessStream S => st.buf.bytes.length = len) read_chunk
      (fun _ after => after.buf.bytes.length = len) fun _ _ => True := by
    intro len
    refine .bind (fun _ st => st.buf.bytes.length = len) (.act _ fun st hlen => ?_) fun room => ?_
    · exact (congrArg List.length (BufMut.bytes_chunk_mut st.buf)).trans hlen
    · refine .bind (fun _ st => st.buf.bytes.length = len) (.act _ fun _ hlen => hlen)
        fun reply => ?_
      rcases reply with (e | filled) | _
      · exact .throw _ fun _ _ => trivial
      · exact .pure _ fun _ hlen => hlen
      · exact .throw _ fun _ _ => trivial
  intro fuel st result after hst hrun
  have hlt := length_of_payload_none hst.1
  have hlonger : Triple (fun now : VlessStream S => now.buf.bytes.length = st.buf.bytes.length)
      handshake_round (fun pass after => ∀ next, pass = .again next →
        payload after.buf.bytes = none ∧ st.buf.bytes.length < after.buf.bytes.length)
      fun _ _ => True := by
    refine .bind _ (hchunk _) fun filled => ?_
    split
    · exact .throw _ fun _ _ => trivial
    · rename_i hne
      have hpos := List.length_pos_of_ne_nil hne
      refine .bind (fun _ now => now.buf.bytes.length = st.buf.bytes.length + filled.length)
        (.act _ fun now hnow => ?_) fun _ =>
          (decode_round_again _).conseq (fun _ h => h) ?_ fun _ _ h => h
      · rw [← hnow, ← List.length_append]
        rfl
      · intro pass now hpost next hnext
        obtain ⟨hnone, hlen⟩ := hpost next hnext
        exact ⟨hnone, by omega⟩
  have hpost := hlonger fuel st result after rfl hrun
  rcases result with e | pass
  · exact trivial
  · intro next hnext
    obtain ⟨hnone, hlen⟩ := hpost next hnext
    have hlt' := length_of_payload_none hnone
    exact ⟨hnone, by have := hst.2; omega⟩

-- The turns are enough for every read of a stream that was not tampered with.
theorem poll_read_ends (hwaits : st.Waits) (remaining : Nat) :
    ∃ outcome, (poll_read remaining).run 258 st = some outcome := by
  have hflag : (handshake_done : Async (VlessStream S) Exit Bool).run 258 st =
      some (.ok st.is_handshake_done, st) := rfl
  simp only [poll_read, run_bind, hflag]
  cases hdone : st.is_handshake_done with
  | true =>
      obtain ⟨result, after, hread⟩ := prompt_read_payload remaining st
      exact ⟨_, hread 258⟩
  | false =>
      obtain ⟨⟨e | done, mid⟩, hloop⟩ := Prompt.repeat_until
        (fun _ : Unit => prompt_handshake_round (S := S))
        (fun st => payload st.buf.bytes = none) (fun st => 257 - st.buf.bytes.length)
        (fun _ k => handshake_round_again k) () (hwaits hdone)
        (show 257 - st.buf.bytes.length < 258 by omega)
      · simp only [Bool.false_eq_true, if_false, run_bind, hloop]
        exact ⟨_, rfl⟩
      · obtain ⟨result, after, hread⟩ := prompt_read_payload remaining mid
        simp only [Bool.false_eq_true, if_false, run_bind, hloop]
        exact ⟨_, hread 258⟩

section Forget

-- The stream without the log of its inner stream.
def forget (st : VlessStream (Recorded S)) : VlessStream S := { st with inner := st.inner.stream }

omit [AsyncStream S] in
theorem embeds_forward (reply : Poll (IoResult α)) :
    Embeds (forget (S := S)) (forward reply) (forward reply) := by
  rcases reply with (e | a) | _
  · exact .throw _
  · exact .pure _
  · exact .throw _

theorem embeds_inner_read (room : Nat) :
    Embeds (forget (S := S)) (inner_read room >>= forward) (inner_read room >>= forward) :=
  .bind (.act fun _ => rfl) embeds_forward

omit [AsyncStream S] in
theorem embeds_decode_round : Embeds (forget (S := S)) decode_round decode_round := by
  refine .bind (.bind_peek fun st => ?_) fun result => ?_
  · dsimp only [forget]
    rcases VlessResponseDecoder.decode st.buf with panic | ⟨result, buf⟩
    · exact .throw _
    · exact .act fun _ => rfl
  · rcases result with e | _ | _
    · exact .throw _
    · exact .pure _
    · exact .bind (.act fun _ => rfl) fun _ => .pure _

theorem embeds_handshake_round :
    Embeds (forget (S := S)) handshake_round handshake_round := by
  refine .bind (.bind (.act fun _ => rfl) fun room => embeds_inner_read room) fun filled => ?_
  by_cases hfilled : filled = []
  · simp only [hfilled, if_true]
    exact .throw _
  · simp only [hfilled, if_false]
    exact .bind (.act fun _ => rfl) fun _ => embeds_decode_round

theorem embeds_read_payload (remaining : Nat) :
    Embeds (forget (S := S)) (read_payload remaining) (read_payload remaining) := by
  refine .bind_peek fun st => ?_
  dsimp only [forget]
  by_cases hnil : st.buf.bytes = []
  · simp only [hnil, if_true]
    exact embeds_inner_read remaining
  · simp only [hnil, if_false]
    refine .bind_peek fun st => ?_
    dsimp only [forget]
    rcases slice st.buf.bytes 0 _ with panic | bytes
    · exact .throw _
    · rcases st.buf.advance _ with panic | buf
      · exact .throw _
      · exact .act fun _ => rfl

-- The log of the inner stream changes nothing about a read.
theorem embeds_poll_read (remaining : Nat) :
    Embeds (forget (S := S)) (poll_read remaining) (poll_read remaining) := by
  refine .bind (.act fun _ => rfl) fun done => ?_
  cases done with
  | true => exact embeds_read_payload remaining
  | false =>
      exact .bind (.repeat_until (fun _ => embeds_handshake_round) ()) fun _ =>
        embeds_read_payload remaining

end Forget

theorem poll_read_le (remaining : Nat) :
    Triple (fun _ : VlessStream S => True) (poll_read remaining)
      (fun bytes _ => bytes.length ≤ remaining) fun _ _ => True := by
  have hpayload : Triple (fun _ : VlessStream S => True) (read_payload remaining)
      (fun bytes _ => bytes.length ≤ remaining) fun _ _ => True := by
    refine .bind (fun _ _ => True) (.act _ fun _ _ => trivial) fun st => ?_
    dsimp only
    split
    · refine .bind (fun reply _ => ∀ bytes, reply = .Ready (.ok bytes) → bytes.length ≤ remaining)
        (.act _ fun now _ bytes => AsyncStream.length_le_of_poll_read now.inner remaining bytes)
        fun reply => ?_
      rcases reply with (e | bytes) | _
      · exact .throw _ fun _ _ => trivial
      · exact .pure _ fun _ h => h bytes rfl
      · exact .throw _ fun _ _ => trivial
    · exact (take_buffered_le _).conseq (fun _ h => h) (fun _ _ h => by omega) fun _ _ h => h
  refine .bind (fun _ _ => True) (.act _ fun _ _ => trivial) fun done => ?_
  split
  · exact hpayload
  · refine .bind (fun _ _ => True) ?_ fun _ => hpayload
    intro fuel st result after _ _
    rcases result with e | _ <;> trivial

omit [AsyncStream S] in
-- A call of the inner stream is seen as it is.
theorem poll_inner (call : S → Poll (IoResult α) × S) (st : VlessStream S) :
    poll (do forward (← .act fun st =>
      ((call st.inner).1, { st with inner := (call st.inner).2 }))) st =
      ((call st.inner).1, { st with inner := (call st.inner).2 }) := by
  have hprompt : Prompt (do forward (← .act fun st : VlessStream S =>
      ((call st.inner).1, { st with inner := (call st.inner).2 }))) :=
    .bind (.act _) fun reply => prompt_forward reply
  obtain ⟨result, after, hends⟩ := hprompt st
  exact poll_eq hprompt.mono ⟨_, hends 258⟩
    ((Async.Returns.act _ st).bind (forward_returns (call st.inner).1 _))

-- The stream is itself one that others can be laid over.
instance : AsyncStream (VlessStream S) where
  poll_read st remaining := poll (poll_read remaining) st
  poll_write st buf := poll (poll_write buf) st
  poll_flush st := poll poll_flush st
  poll_shutdown st := poll poll_shutdown st
  length_le_of_poll_read st remaining bytes h := by
    obtain ⟨after, hrun⟩ := ok_of_poll h
    exact poll_read_le remaining 258 st _ _ trivial hrun
  le_length_of_poll_write st buf n h := by
    have hpoll := poll_inner (fun io : S => AsyncStream.poll_write io buf) st
    rw [poll_write, hpoll] at h
    exact AsyncStream.le_length_of_poll_write st.inner buf n h

omit [AsyncStream S] in
-- Waiting for a call of the inner stream is the same through a new stream around it.
theorem embeds_await {call : S → Poll (IoResult α) × S}
    {call' : VlessStream S → Poll (IoResult α) × VlessStream S}
    (h : ∀ io, call' (.new io) = Prod.map id .new (call io)) :
    Embeds .new (await call) (await call') := by
  refine .wait fun io => ?_
  rw [h]
  rcases call io with ⟨reply | _, after⟩ <;> rfl

theorem embeds_write_all_buf (bytes : List UInt8) :
    Embeds (.new : S → VlessStream S) (write_all_buf bytes) (write_all_buf bytes) := by
  refine .repeat_until (fun bytes => ?_) bytes
  by_cases hnil : bytes = []
  · simp only [hnil, if_true]
    exact .pure _
  · simp only [hnil, if_false]
    refine .bind (embeds_await fun io => ?_) fun n => ?_
    · exact poll_inner (fun io : S => AsyncStream.poll_write io bytes) (.new io)
    · by_cases hzero : n = 0
      · simp only [hzero, if_true]
        exact .throw _
      · simp only [hzero, if_false]
        exact .pure _

theorem embeds_flush : Embeds (.new : S → VlessStream S) flush flush :=
  embeds_await fun io => poll_inner AsyncStream.poll_flush (.new io)

end VlessStream

-- VLESS streams that are laid over a stream, one over the other.
def Layers (S : Type) : Nat → Type
  | 0 => S
  | n + 1 => VlessStream (Layers S n)

namespace Layers

variable {S : Type}

instance stream [AsyncStream S] : (n : Nat) → AsyncStream (Layers S n)
  | 0 => inferInstanceAs (AsyncStream S)
  | n + 1 =>
      have := stream n
      inferInstanceAs (AsyncStream (VlessStream (Layers S n)))

-- All of them new.
def wrap : (n : Nat) → S → Layers S n
  | 0, io => io
  | n + 1, io => VlessStream.new (wrap n io)

-- What is written through the layers is written to the stream below.
theorem embeds_write_all_buf [AsyncStream S] (n : Nat) (bytes : List UInt8) :
    Async.Embeds (wrap n : S → Layers S n) (write_all_buf bytes) (write_all_buf bytes) := by
  induction n with
  | zero => exact .same _
  | succ n ih => exact ih.comp (VlessStream.embeds_write_all_buf bytes)

theorem embeds_flush [AsyncStream S] (n : Nat) :
    Async.Embeds (wrap n : S → Layers S n) flush flush := by
  induction n with
  | zero => exact .same _
  | succ n ih => exact ih.comp VlessStream.embeds_flush

theorem embeds_write_and_flush [AsyncStream S] (n : Nat) (bytes : List UInt8) :
    Async.Embeds (wrap n : S → Layers S n) (write_and_flush bytes) (write_and_flush bytes) :=
  .map_err (.bind (embeds_write_all_buf n bytes) fun _ => embeds_flush n) _

end Layers

end AlphaRay
