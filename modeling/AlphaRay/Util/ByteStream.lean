import AlphaRay.Util

namespace AlphaRay

open Lib

-- Both directions of a stream: what is still to be read, and what was written.
structure Pipe where
  unread : List UInt8
  written : List UInt8

-- A stream that delivers the bytes `unread`, in pieces of any size, and then ends,
-- and that takes every byte it is given. `patience` bounds how often in a row it
-- may still answer that it is not ready.
class ByteStream (S : Type) [AsyncStream S] where
  pipe : S → Pipe
  patience : S → Nat
  poll_read_pending : ∀ (io : S) room after, AsyncStream.poll_read io room = (.Pending, after) →
    pipe after = pipe io ∧ patience after < patience io
  poll_read_ready : ∀ (io : S) room reply after,
    AsyncStream.poll_read io room = (.Ready reply, after) → ∃ filled, reply = .ok filled ∧
      pipe io = ⟨filled ++ (pipe after).unread, (pipe after).written⟩ ∧
      (0 < room → (pipe io).unread ≠ [] → filled ≠ [])
  poll_write_pending : ∀ (io : S) bytes after,
    AsyncStream.poll_write io bytes = (.Pending, after) →
    pipe after = pipe io ∧ patience after < patience io
  poll_write_ready : ∀ (io : S) bytes reply after,
    AsyncStream.poll_write io bytes = (.Ready reply, after) → ∃ n, reply = .ok n ∧
      pipe after = ⟨(pipe io).unread, (pipe io).written ++ bytes.take n⟩ ∧ (bytes ≠ [] → 0 < n)
  poll_flush_pending : ∀ (io : S) after, AsyncStream.poll_flush io = (.Pending, after) →
    pipe after = pipe io ∧ patience after < patience io
  poll_flush_ready : ∀ (io : S) reply after, AsyncStream.poll_flush io = (.Ready reply, after) →
    reply = .ok () ∧ pipe after = pipe io

section ByteStream

open ByteStream

variable {S : Type} [AsyncStream S] [ByteStream S]

-- A poll that leaves the pipe alone while it waits.
theorem await_returns {α : Type} (poll : S → Poll (IoResult α) × S)
    (post : IoResult α → S → Prop) (io : S)
    (hpending : ∀ now after, poll now = (.Pending, after) →
      pipe after = pipe now ∧ patience after < patience now)
    (hready : ∀ now reply after, pipe now = pipe io → poll now = (.Ready reply, after) →
      post reply after) :
    ∃ reply after, (await poll).Returns io reply after ∧ post reply after := by
  refine Async.Returns.wait _ (fun now => pipe now = pipe io) post patience ?_ io rfl
  intro now hnow
  rcases hcall : poll now with ⟨reply | _, after⟩
  · exact .inr ⟨reply, after, rfl, hready now reply after hnow hcall⟩
  · obtain ⟨hpipe, hlt⟩ := hpending now after hcall
    exact .inl ⟨after, rfl, hpipe.trans hnow, hlt⟩

theorem poll_write_returns (io : S) (bytes : List UInt8) (hne : bytes ≠ []) :
    ∃ n after, (await fun io : S => AsyncStream.poll_write io bytes).Returns io (.ok n) after ∧
      0 < n ∧ pipe after = ⟨(pipe io).unread, (pipe io).written ++ bytes.take n⟩ := by
  obtain ⟨_, after, hreturns, n, rfl, hpos, hpipe⟩ := await_returns
    (fun io : S => AsyncStream.poll_write io bytes)
    (fun reply after => ∃ n, reply = .ok n ∧ 0 < n ∧
      pipe after = ⟨(pipe io).unread, (pipe io).written ++ bytes.take n⟩)
    io (fun now after => poll_write_pending now bytes after) (by
      intro now reply after hnow hcall
      obtain ⟨n, hreply, hpipe, hpos⟩ := poll_write_ready now bytes reply after hcall
      exact ⟨n, hreply, hpos hne, by rw [hpipe, hnow]⟩)
  exact ⟨n, after, hreturns, hpos, hpipe⟩

theorem flush_returns (io : S) :
    ∃ after, (flush : Async S IoError Unit).Returns io (.ok ()) after ∧ pipe after = pipe io := by
  obtain ⟨_, after, hreturns, rfl, hpipe⟩ := await_returns AsyncStream.poll_flush
    (fun reply after => reply = .ok () ∧ pipe after = pipe io) io poll_flush_pending (by
      intro now reply after hnow hcall
      obtain ⟨hreply, hpipe⟩ := poll_flush_ready now reply after hcall
      exact ⟨hreply, hpipe.trans hnow⟩)
  exact ⟨after, hreturns, hpipe⟩

-- Every byte is written, whatever the sizes in which they are taken.
theorem write_all_buf_returns (io : S) (bytes : List UInt8) :
    ∃ after, (write_all_buf bytes : Async S IoError Unit).Returns io (.ok ()) after ∧
      pipe after = ⟨(pipe io).unread, (pipe io).written ++ bytes⟩ := by
  suffices hrounds : ∃ after, Async.Rounds _ bytes io (.ok () : IoResult Unit) after ∧
      pipe after = ⟨(pipe io).unread, (pipe io).written ++ bytes⟩ by
    obtain ⟨after, hrounds, hpipe⟩ := hrounds
    exact ⟨after, hrounds.returns, hpipe⟩
  generalize hlen : bytes.length = len
  induction len using Nat.strong_induction_on generalizing bytes io with
  | _ len ih =>
      by_cases hne : bytes = []
      · subst hne
        exact ⟨io, .leave (.pure _ io), by simp⟩
      · obtain ⟨n, mid, hwrite, hpos, hmid⟩ := poll_write_returns io bytes hne
        have hlenpos := List.length_pos_of_ne_nil hne
        obtain ⟨after, hrounds, hafter⟩ := ih (bytes.drop n).length
          (by rw [List.length_drop]; omega) mid (bytes.drop n) rfl
        refine ⟨after, .again ?_ hrounds, ?_⟩
        · simp only [hne, if_false]
          refine hwrite.bind ?_
          simp only [Nat.ne_of_gt hpos, if_false]
          exact .pure _ _
        · rw [hafter, hmid]
          simp

end ByteStream

-- A channel with a plan: each poll takes the next turn of it, which is to wait
-- (`none`) or to move at most `k + 1` bytes (`some k`). After the plan every poll
-- moves all it can.
structure Channel where
  unread : List UInt8
  written : List UInt8
  turns : List (Option Nat)
  deriving DecidableEq

namespace Channel

def take_turn (io : Channel) (len : Nat) : Option Nat × Channel :=
  match io.turns with
  | [] => (some len, io)
  | none :: turns => (none, { io with turns := turns })
  | some k :: turns => (some (min len (k + 1)), { io with turns := turns })

def poll_read (io : Channel) (room : Nat) : Poll (IoResult (List UInt8)) × Channel :=
  match io.take_turn (min room io.unread.length) with
  | (none, io) => (.Pending, io)
  | (some n, io) => (.Ready (.ok (io.unread.take n)), { io with unread := io.unread.drop n })

def poll_write (io : Channel) (bytes : List UInt8) : Poll (IoResult Nat) × Channel :=
  match io.take_turn bytes.length with
  | (none, io) => (.Pending, io)
  | (some n, io) => (.Ready (.ok n), { io with written := io.written ++ bytes.take n })

def poll_flush (io : Channel) : Poll (IoResult Unit) × Channel :=
  match io.take_turn 0 with
  | (none, io) => (.Pending, io)
  | (some _, io) => (.Ready (.ok ()), io)

-- A turn changes nothing but the plan.
theorem take_turn_none {io after : Channel} {len : Nat} (h : io.take_turn len = (none, after)) :
    ∃ turns, after = { io with turns := turns } ∧ turns.length < io.turns.length := by
  unfold take_turn at h
  split at h
  · cases h
  · rename_i turns hturns
    cases h
    exact ⟨turns, rfl, by simp [hturns]⟩
  · cases h

theorem take_turn_some {io after : Channel} {len n : Nat}
    (h : io.take_turn len = (some n, after)) :
    ∃ turns, after = { io with turns := turns } ∧ n ≤ len ∧ (0 < len → 0 < n) := by
  unfold take_turn at h
  split at h
  · cases h
    exact ⟨io.turns, rfl, Nat.le_refl _, id⟩
  · cases h
  · rename_i k turns hturns
    cases h
    exact ⟨turns, rfl, Nat.min_le_left _ _, fun hlen => by omega⟩

instance : AsyncStream Channel where
  poll_read := poll_read
  poll_write := poll_write
  poll_flush := poll_flush
  poll_shutdown := poll_flush
  length_le_of_poll_read io room bytes h := by
    unfold poll_read at h
    split at h
    · cases h
    · rename_i hturn
      obtain ⟨_, rfl, hle, _⟩ := take_turn_some hturn
      cases h
      rw [List.length_take]
      omega
  le_length_of_poll_write io bytes n h := by
    unfold poll_write at h
    split at h
    · cases h
    · rename_i hturn
      cases h
      exact (take_turn_some hturn).choose_spec.2.1

instance : ByteStream Channel where
  pipe io := ⟨io.unread, io.written⟩
  patience io := io.turns.length
  poll_read_pending io room after h := by
    simp only [AsyncStream.poll_read, poll_read] at h
    split at h
    · rename_i hturn
      obtain ⟨turns, rfl, hlt⟩ := take_turn_none hturn
      cases h
      exact ⟨rfl, hlt⟩
    · cases h
  poll_read_ready io room reply after h := by
    simp only [AsyncStream.poll_read, poll_read] at h
    split at h
    · cases h
    · rename_i n _ hturn
      obtain ⟨turns, rfl, hle, hpos⟩ := take_turn_some hturn
      cases h
      refine ⟨_, rfl, by simp, fun hroom hne => ?_⟩
      have hlen := List.length_pos_of_ne_nil hne
      have hn := hpos (by simp only at hlen; omega)
      apply List.ne_nil_of_length_pos
      simp only [List.length_take] at hlen ⊢
      omega
  poll_write_pending io bytes after h := by
    simp only [AsyncStream.poll_write, poll_write] at h
    split at h
    · rename_i hturn
      obtain ⟨turns, rfl, hlt⟩ := take_turn_none hturn
      cases h
      exact ⟨rfl, hlt⟩
    · cases h
  poll_write_ready io bytes reply after h := by
    simp only [AsyncStream.poll_write, poll_write] at h
    split at h
    · cases h
    · rename_i n _ hturn
      obtain ⟨turns, rfl, hle, hpos⟩ := take_turn_some hturn
      cases h
      exact ⟨n, rfl, rfl, fun hne => hpos (List.length_pos_of_ne_nil hne)⟩
  poll_flush_pending io after h := by
    simp only [AsyncStream.poll_flush, poll_flush] at h
    split at h
    · rename_i hturn
      obtain ⟨turns, rfl, hlt⟩ := take_turn_none hturn
      cases h
      exact ⟨rfl, hlt⟩
    · cases h
  poll_flush_ready io reply after h := by
    simp only [AsyncStream.poll_flush, poll_flush] at h
    split at h
    · cases h
    · rename_i n _ hturn
      obtain ⟨turns, rfl, _⟩ := take_turn_some hturn
      cases h
      exact ⟨rfl, rfl⟩

theorem unread_poll_shutdown (io : Channel) :
    (ByteStream.pipe (AsyncStream.poll_shutdown io).2).unread =
      (ByteStream.pipe io).unread := by
  rcases hcall : AsyncStream.poll_flush io with ⟨reply | _, after⟩
  · exact congrArg (fun now => (ByteStream.pipe now.2).unread) hcall |>.trans
      (congrArg Pipe.unread (ByteStream.poll_flush_ready io reply after hcall).2)
  · exact congrArg (fun now => (ByteStream.pipe now.2).unread) hcall |>.trans
      (congrArg Pipe.unread (ByteStream.poll_flush_pending io after hcall).1)

end Channel

end AlphaRay
