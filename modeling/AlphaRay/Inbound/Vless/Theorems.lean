import AlphaRay.Inbound.Vless
import AlphaRay.Protocol.Vless.Theorems

namespace AlphaRay

open Lib ByteStream

namespace VlessInbound

variable {S D T : Type} [AsyncStream S] [ByteStream S] [Dispatcher D S T]

def Authenticated (id : Uuid) (req : VlessRequest) : Prop := req.id = id ∧ req.command = .Tcp

-- Every request that the bytes parse to meets the condition, if they do to one.
def Parses (bytes : List UInt8) (cond : VlessRequest → Prop) : Prop :=
  ∀ req, (parse_request bytes).1 = .ok req → cond req

-- The handler ends, has written these bytes to the client, and calls no dispatcher.
def Answers (id : Uuid) (st : S × Watched D S T) (bytes : List UInt8) : Prop :=
  ∃ result after, (handle_vless_stream id).Returns st result after ∧
    (pipe after.1).written = (pipe st.1).written ++ bytes ∧ after.2.requests = st.2.requests

theorem accept_returns (st : S × D) : ∃ stream result, accept.Returns st result (stream, st.2) ∧
    ((∃ req, (parse_request (pipe st.1).unread).1 = .ok req ∧ result = .ok req ∧
        (pipe stream).written = (pipe st.1).written ++ [0, 0]) ∨
      (∃ e e', (parse_request (pipe st.1).unread).1 = .error e ∧ result = .error e' ∧
        (pipe stream).written = (pipe st.1).written ++ [])) := by
  obtain ⟨stream, haccept, hpipe⟩ := VlessProtocol.accept_returns st.1
  have hwritten := congrArg Pipe.written hpipe
  refine ⟨stream, _, haccept.zoom.map_err _, ?_⟩
  rcases hparse : (parse_request (pipe st.1).unread).1 with e | req
  · rw [hparse] at hwritten
    exact .inr ⟨e, _, rfl, rfl, hwritten⟩
  · rw [hparse] at hwritten
    exact .inl ⟨req, rfl, rfl, hwritten⟩

-- Bytes that are no request are not answered.
theorem answers_of_error {id : Uuid} {st : S × Watched D S T}
    (h : Parses (pipe st.1).unread fun _ => False) : Answers id st [] := by
  obtain ⟨stream, result, haccept, ⟨req, hparse, -⟩ | ⟨e, e', -, rfl, hwritten⟩⟩ :=
    accept_returns st
  · exact (h req hparse).elim
  · exact ⟨.error e', (stream, st.2), haccept.bind_error, hwritten, rfl⟩

-- A request is answered before its id and its command are looked at.
theorem answers_of_request {id : Uuid} {st : S × Watched D S T} {req : VlessRequest}
    (hparse : (parse_request (pipe st.1).unread).1 = .ok req) (hreq : ¬ Authenticated id req) :
    Answers id st [0, 0] := by
  obtain ⟨stream, result, haccept, ⟨req', hparse', rfl, hwritten⟩ | ⟨e, e', hparse', -⟩⟩ :=
    accept_returns st
  · obtain rfl : req' = req := Except.ok.inj (hparse'.symm.trans hparse)
    refine ⟨.error (if req'.id ≠ id then .Failed .Permission
      else .Failed (.Vless (.InvalidCommand req'.command.as_u8))), (stream, st.2), ?_, hwritten, rfl⟩
    refine haccept.bind ?_
    by_cases hid : req'.id = id
    · have hcommand : req'.command ≠ .Tcp := fun htcp => hreq ⟨hid, htcp⟩
      simp only [hid, ne_eq, not_true_eq_false, if_false]
      cases hname : req'.command with
      | Tcp => exact absurd hname hcommand
      | Udp => exact .throw _ _
      | Mux => exact .throw _ _
    · simp only [ne_eq, hid, not_false_eq_true, if_true]
      exact .throw _ _
  · rw [hparse] at hparse'
    cases hparse'

-- A handler answers in one way.
theorem answers_unique {id : Uuid} {st : S × Watched D S T}
    {bytes bytes' : List UInt8} (h : Answers id st bytes) (h' : Answers id st bytes') :
    bytes = bytes' := by
  obtain ⟨_, after, hreturns, hwritten, -⟩ := h
  obtain ⟨_, after', hreturns', hwritten', -⟩ := h'
  obtain ⟨-, rfl⟩ := hreturns.unique hreturns'
  exact List.append_cancel_left (hwritten.symm.trans hwritten')

theorem answers_iff (id : Uuid) (st : S × Watched D S T) :
    (Parses (pipe st.1).unread (¬ Authenticated id ·) → Answers id st []) ↔
      Parses (pipe st.1).unread (Authenticated id) := by
  constructor
  · intro hsilent req hparse
    by_contra hreq
    have hunauthenticated : Parses (pipe st.1).unread (¬ Authenticated id ·) := by
      intro req' hparse'
      obtain rfl : req = req' := Except.ok.inj (hparse.symm.trans hparse')
      exact hreq
    have hanswer := answers_of_request hparse hreq
    cases answers_unique (hsilent hunauthenticated) hanswer
  · intro hauthenticated hunauthenticated
    apply answers_of_error
    intro req hparse
    exact hunauthenticated req hparse (hauthenticated req hparse)

-- A dispatcher that is not there.
structure Unreachable where

instance : Dispatcher Unreachable Channel Channel where
  dispatch _ := throw (.Other "unreachable")

def onChannel (bytes : List UInt8) (turns : List (Option Nat)) :
    Channel × Watched Unreachable Channel Channel :=
  (⟨bytes, [], turns⟩, ⟨⟨⟩, []⟩)

def configuredId : Uuid := ⟨List.replicate 16 9, rfl⟩

def otherId : Uuid := ⟨List.replicate 16 8, rfl⟩

def requestOfConfigured : List UInt8 :=
  request_bytes configuredId [] .Tcp 443 (.ipv4 ⟨⟨[127, 0, 0, 1], rfl⟩⟩)

def requestOfOther : List UInt8 :=
  request_bytes otherId [] .Tcp 443 (.ipv4 ⟨⟨[127, 0, 0, 1], rfl⟩⟩)

theorem parse_requestOfOther :
    ∃ req, (parse_request requestOfOther).1 = .ok req ∧ ¬ Authenticated configuredId req := by
  have hparse := congrArg Prod.fst
    (parse_request_bytes_nil otherId .Tcp 443 (.ipv4 ⟨⟨[127, 0, 0, 1], rfl⟩⟩) [])
  rw [List.append_nil] at hparse
  refine ⟨_, hparse, fun hreq => ?_⟩
  have hsame : otherId = configuredId := hreq.1
  revert hsame
  decide

theorem requestOfOther_refused : Parses requestOfOther (¬ Authenticated configuredId ·) := by
  intro req h
  obtain ⟨other, hparse, hother⟩ := parse_requestOfOther
  obtain rfl := Except.ok.inj (hparse.symm.trans h)
  exact hother

end VlessInbound

open VlessInbound

-- Nothing is written to and nothing done for clients that are not authenticated, and so
-- the same for any two of them, exactly when neither sends a request at all.
theorem vless_unauthenticated_iff {S D T : Type} [AsyncStream S] [ByteStream S] [Dispatcher D S T]
    (id : Uuid) (st st' : S × Watched D S T) :
    ((Parses (pipe st.1).unread (¬ Authenticated id ·) → Answers id st []) ∧
      (Parses (pipe st'.1).unread (¬ Authenticated id ·) → Answers id st' []) ∧
      (Parses (pipe st.1).unread (¬ Authenticated id ·) →
        Parses (pipe st'.1).unread (¬ Authenticated id ·) →
        ∃ bytes, bytes = [] ∧ Answers id st bytes ∧ Answers id st' bytes)) ↔
    Parses (pipe st.1).unread (Authenticated id) ∧
      Parses (pipe st'.1).unread (Authenticated id) := by
  rw [← answers_iff id st, ← answers_iff id st']
  constructor
  · rintro ⟨hfirst, hsecond, -⟩
    exact ⟨hfirst, hsecond⟩
  · rintro ⟨hfirst, hsecond⟩
    exact ⟨hfirst, hsecond, fun h h' => ⟨[], rfl, hfirst h, hsecond h'⟩⟩

-- A request with another id and one that is no request: only the first gets an answer.
theorem vless_unauthenticated_answered :
    Parses [0] (¬ Authenticated configuredId ·) ∧
    Parses requestOfOther (¬ Authenticated configuredId ·) ∧
    Answers configuredId (onChannel [0] []) [] ∧
    Answers configuredId (onChannel requestOfOther []) [0, 0] ∧
    ¬ Answers configuredId (onChannel requestOfOther []) [] := by
  have hshort : Parses [0] fun _ => False := by
    intro req hparse
    cases hparse
  obtain ⟨other, hparse, hother⟩ := parse_requestOfOther
  have hanswer : Answers configuredId (onChannel requestOfOther []) [0, 0] :=
    answers_of_request hparse hother
  refine ⟨fun req h => (hshort req h).elim, requestOfOther_refused, answers_of_error hshort,
    hanswer, ?_⟩
  intro hsilent
  cases answers_unique hsilent hanswer

end AlphaRay
