import AlphaRay.Io
import AlphaRay.Lib.Checked
import AlphaRay.Lib.Hoare
import AlphaRay.Lib.Run

namespace AlphaRay

open Lib Async

-- How a poll function ends when it does not end with `Ready(Ok(_))`.
inductive Exit where
  | Pending
  | Err (error : IoError)
  | Panicked (panic : Panic)
  deriving DecidableEq

def Exit.isErr : Exit → Bool
  | Err _ => true
  | _ => false

-- An error of the adapter: `WouldBlock` stands for a stream that was not ready.
def Exit.of (e : IoError) : Exit := if e.kind = .WouldBlock then .Pending else .Err e

@[simp] theorem Exit.of_wouldBlock : Exit.of ErrorKind.WouldBlock.into = .Pending := rfl

theorem Exit.of_ne_pending {e : IoError} (h : e.kind ≠ .WouldBlock) : Exit.of e ≠ .Pending := by
  simp [Exit.of, h]

theorem Exit.kind_of_pending {e : IoError} (h : Exit.of e = .Pending) : e.kind = .WouldBlock := by
  by_contra hkind
  exact Exit.of_ne_pending hkind h

theorem Exit.of_cases (e : IoError) : Exit.of e = .Pending ∨ Exit.of e = .Err e := by
  by_cases h : e.kind = .WouldBlock
  · exact .inl (by simp [Exit.of, h])
  · exact .inr (by simp [Exit.of, h])

theorem Exit.eq_of_err {e error : IoError} (h : Exit.of e = .Err error) : error = e := by
  rcases Exit.of_cases e with hof | hof
  · rw [hof] at h
    cases h
  · rw [hof] at h
    exact (Exit.Err.inj h).symm

-- The reply of the inner stream is the reply of the call.
def forward {σ α : Type} : Poll (IoResult α) → Async σ Exit α
  | .Ready (.ok a) => return a
  | .Ready (.error e) => throw (.Err e)
  | .Pending => throw .Pending

def Poll.outcome {α : Type} : Poll (IoResult α) → Except Exit α
  | .Ready (.ok a) => .ok a
  | .Ready (.error e) => .error (.Err e)
  | .Pending => .error .Pending

theorem eq_ready_of_outcome {α : Type} {reply : Poll (IoResult α)} {a : α}
    (h : reply.outcome = .ok a) : reply = .Ready (.ok a) := by
  rcases reply with (e | b) | _ <;> cases h
  rfl

theorem eq_pending_of_outcome {α : Type} {reply : Poll (IoResult α)}
    (h : reply.outcome = .error .Pending) : reply = .Pending := by
  rcases reply with (e | a) | _ <;> cases h
  rfl

theorem forward_returns {σ α : Type} (reply : Poll (IoResult α)) (st : σ) :
    (forward reply).Returns st reply.outcome st := by
  rcases reply with (e | a) | _
  · exact .throw _ st
  · exact .pure _ st
  · exact .throw _ st

-- A postcondition for each reply of the inner stream that is forwarded.
def forwards {σ α : Type} (ok : α → σ → Prop) (err : Exit → σ → Prop) :
    Poll (IoResult α) → σ → Prop
  | .Ready (.ok a) => ok a
  | .Ready (.error e) => err (.Err e)
  | .Pending => err .Pending

theorem forward_rule {σ α : Type} {ok : α → σ → Prop} {err : Exit → σ → Prop}
    (reply : Poll (IoResult α)) : Triple (forwards ok err reply) (forward reply) ok err := by
  rcases reply with (e | a) | _
  · exact .throw _ fun _ h => h
  · exact .pure _ fun _ h => h
  · exact .throw _ fun _ h => h

-- A call of a stream by its owner, with its outcome. A read is given the room in
-- the buffer and fills it with the bytes of its outcome.
inductive Call where
  | read (remaining : Nat) (outcome : Except Exit (List UInt8))
  | write (buf : List UInt8) (outcome : Except Exit Nat)
  | flush (outcome : Except Exit Unit)
  | shutdown (outcome : Except Exit Unit)
  deriving DecidableEq

namespace Call

-- The bytes that a write reported as accepted.
def accepted : Call → List UInt8
  | write buf (.ok n) => buf.take n
  | _ => []

-- The bytes that a read put into the buffer.
def filled : Call → List UInt8
  | read _ (.ok bytes) => bytes
  | _ => []

def isPending : Call → Bool
  | read _ (.error .Pending) | write _ (.error .Pending) => true
  | flush (.error .Pending) | shutdown (.error .Pending) => true
  | _ => false

theorem cases_of_isPending {call : Call} (h : call.isPending = true) :
    (∃ remaining, call = .read remaining (.error .Pending)) ∨
    (∃ buf, call = .write buf (.error .Pending)) ∨
    call = .flush (.error .Pending) ∨ call = .shutdown (.error .Pending) := by
  unfold isPending at h
  split at h
  · exact .inl ⟨_, rfl⟩
  · exact .inr (.inl ⟨_, rfl⟩)
  · exact .inr (.inr (.inl rfl))
  · exact .inr (.inr (.inr rfl))
  · cases h

def isRead : Call → Bool
  | read _ _ => true
  | _ => false

-- The call returned an error.
def failed : Call → Bool
  | read _ (.error (.Err _)) | write _ (.error (.Err _)) => true
  | flush (.error (.Err _)) | shutdown (.error (.Err _)) => true
  | _ => false

end Call

-- The reads were given these rooms, one after the other.
def Rooms {σ : Type} (rooms : Nat → Nat) (past : List (Transition σ Call)) : Prop :=
  ∀ (i : Nat) (t : Transition σ Call), past[i]? = some t →
    ∃ outcome, t.label = .read (rooms i) outcome

theorem Rooms.cons {σ : Type} {rooms : Nat → Nat} {past : List (Transition σ Call)}
    {first : Transition σ Call} (h : Rooms (fun i => rooms (i + 1)) past)
    {outcome : Except Exit (List UInt8)} (hfirst : first.label = .read (rooms 0) outcome) :
    Rooms rooms (first :: past) := by
  intro i t ht
  cases i with
  | zero =>
      obtain rfl : first = t := by simpa using ht
      exact ⟨outcome, hfirst⟩
  | succ i => exact h i t (by simpa using ht)

-- Reads that go on come to the end, when each one returns and reports the end or leaves the
-- stream closer to it.
theorem reads_come_to {σ : Type} {step : σ → Call → σ → Prop} {closer : σ → σ → Prop}
    (hwf : WellFounded closer) (inv : σ → Prop) (ended : Except Exit (List UInt8) → Prop)
    (hread : ∀ st room, inv st → 0 < room → ∃ outcome after,
      step st (.read room outcome) after ∧ inv after ∧ (ended outcome ∨ closer after st))
    (st : σ) (hst : inv st) (rooms : Nat → Nat) (hrooms : ∀ i, 0 < rooms i) :
    ∃ past last room outcome, Run step st (past ++ [last]) last.after ∧
      Rooms rooms (past ++ [last]) ∧ last.label = .read room outcome ∧ ended outcome := by
  induction st using hwf.induction generalizing rooms with
  | _ st ih =>
      obtain ⟨outcome, mid, hstep, hmid, hends⟩ := hread st (rooms 0) hst (hrooms 0)
      have hfirst : Run step st [⟨st, .read (rooms 0) outcome, mid⟩] mid := Run.nil.next hstep
      rcases hends with hended | hcloser
      · exact ⟨[], _, _, _, hfirst, .cons (fun i t ht => by simp at ht) rfl, rfl, hended⟩
      · obtain ⟨past, last, room, final, hrun, hsized, hlabel, hended⟩ :=
          ih mid hcloser hmid (fun i => rooms (i + 1)) fun i => hrooms (i + 1)
        exact ⟨_ :: past, last, room, final, hfirst.append hrun, hsized.cons rfl, hlabel, hended⟩

end AlphaRay
