import AlphaRay.Protocol.Tls.Acts
import AlphaRay.Rustls.Logged
import Mathlib.Data.List.Infix

namespace AlphaRay

open Lib Async

-- A stream whose inner stream and whose session keep a log of their calls.
abbrev Observed (S C : Type) := TlsStream (Recorded S) (Logged C)

namespace Observed

variable {S C : Type}

def new (inner : S) (session : C) : Observed S C :=
  TlsStream.new (Recorded.new inner) (Logged.new session)

-- The calls of the inner stream between two states.
def events (st after : Observed S C) : List Event := after.inner.log.drop st.inner.log.length

def sessionEvents (st after : Observed S C) : List (SessionEvent C) :=
  after.session.log.drop st.session.log.length

-- The plaintext that was handed to the writer between two states.
def handed (st after : Observed S C) : List UInt8 :=
  (sessionEvents st after).flatMap SessionEvent.handed

-- The logs only grow.
def Grown (st now : Observed S C) : Prop :=
  st.inner.log <+: now.inner.log ∧ st.session.log <+: now.session.log

variable {st now next after : Observed S C}

theorem Grown.refl (st : Observed S C) : st.Grown st := ⟨List.prefix_rfl, List.prefix_rfl⟩

theorem Grown.trans (h : st.Grown now) (h' : now.Grown next) : st.Grown next :=
  ⟨h.1.trans h'.1, h.2.trans h'.2⟩

theorem mem_events_of_grown {e : Event} (h : now.Grown next) (he : e ∈ st.events now) :
    e ∈ st.events next := (h.1.drop _).subset he

theorem mem_sessionEvents_of_grown {e : SessionEvent C} (h : now.Grown next)
    (he : e ∈ st.sessionEvents now) : e ∈ st.sessionEvents next := (h.2.drop _).subset he

theorem events_of_log {e : Event} (h : st.Grown now)
    (hlog : next.inner.log = now.inner.log ++ [e]) : st.events next = st.events now ++ [e] := by
  rw [events, hlog, List.drop_append_of_le_length h.1.length_le]
  rfl

theorem mem_events_of_log {e : Event} (h : st.Grown now)
    (hlog : next.inner.log = now.inner.log ++ [e]) : e ∈ st.events next := by
  rw [events_of_log h hlog]
  exact List.mem_append_right _ (List.mem_singleton_self e)

theorem mem_sessionEvents_of_log {e : SessionEvent C} (h : st.Grown now)
    (hlog : next.session.log = now.session.log ++ [e]) : e ∈ st.sessionEvents next := by
  rw [sessionEvents, hlog, List.drop_append_of_le_length h.2.length_le]
  exact List.mem_append_right _ (List.mem_singleton_self e)

variable [AsyncStream S] [Connection C]

omit [AsyncStream S] in
theorem session_log_after_write (st : Observed S C) (reply : Poll (IoResult Nat))
    (inner : Recorded S) : (st.after_write reply inner).session.log = st.session.log := by
  rcases reply with (e | n) | _ <;> rfl

open TlsStream

variable [ReceiveLaws C] {zero : Bool} {call : Call}

theorem grown_of_transfer (h : Transfer zero st next) : st.Grown next := by
  cases h with
  | write hwants hcall =>
      rw [Grown, inner_after_write, session_log_after_write, Recorded.log_of_poll_write hcall]
      exact ⟨List.prefix_append _ _, List.prefix_rfl⟩
  | prepare_error hidle hprepare =>
      exact ⟨List.prefix_rfl, ⟨_, (Logged.log_of_prepare_read hprepare).symm⟩⟩
  | prepare_none hidle hprepare =>
      exact ⟨List.prefix_rfl, ⟨_, (Logged.log_of_prepare_read hprepare).symm⟩⟩
  | @read room session reply inner hidle hprepare hcall =>
      rw [Grown, inner_after_read, Recorded.log_of_poll_read hcall]
      refine ⟨List.prefix_append _ _, ?_⟩
      have hlog : st.session.log <+: session.log :=
        ⟨_, (Logged.log_of_prepare_read hprepare).symm⟩
      rcases reply with (e | bytes) | _
      · exact hlog
      · exact hlog.trans (List.prefix_append _ _)
      · exact hlog
  | process => exact ⟨List.prefix_rfl, List.prefix_append _ _⟩

theorem grown_of_act (h : Act call st next) : st.Grown next := by
  cases h with
  | transfer h => exact grown_of_transfer h
  | reader_read => exact ⟨List.prefix_rfl, List.prefix_rfl⟩
  | writer_write => exact ⟨List.prefix_rfl, List.prefix_append _ _⟩
  | send_close_notify => exact ⟨List.prefix_rfl, List.prefix_rfl⟩
  | inner_flush => exact ⟨List.prefix_append _ _, List.prefix_rfl⟩
  | inner_shutdown => exact ⟨List.prefix_append _ _, List.prefix_rfl⟩

theorem grown_of_step [SendLaws C] (h : Step st call after) : st.Grown after :=
  h.rule st.Grown (fun _ _ hnow hact => hnow.trans (grown_of_act hact)) (Grown.refl st)

end Observed

end AlphaRay
