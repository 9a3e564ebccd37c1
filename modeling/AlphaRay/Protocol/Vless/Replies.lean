import AlphaRay.Protocol.Vless.Layers

namespace AlphaRay

open Lib Async

-- The states of a stream with the bytes that each has yet to give out: in pieces of any
-- size, with waits between them but without errors, and all of them in front of its end.
structure Delivers {S : Type} [AsyncStream S] (holds : S → List UInt8 → Prop) : Prop where
  read : ∀ io rest room, holds io rest →
    (∃ after, AsyncStream.poll_read io room = (.Pending, after) ∧ holds after rest) ∨
    ∃ bytes more after, AsyncStream.poll_read io room = (.Ready (.ok bytes), after) ∧
      rest = bytes ++ more ∧ holds after more ∧ (0 < room → bytes = [] → rest = [])
  write : ∀ io rest bytes, holds io rest → holds (AsyncStream.poll_write io bytes).2 rest
  flush : ∀ io rest, holds io rest → holds (AsyncStream.poll_flush io).2 rest

-- A reply that such a stream may give when so much is left.
def Event.Fine (more : List UInt8) : Event → Prop
  | read _ (.Ready (.error _)) => False
  | read room (.Ready (.ok bytes)) => 0 < room → bytes = [] → more = []
  | _ => True

theorem Event.Fine.of_suffix {bytes more : List UInt8} {e : Event} (h : e.Fine (bytes ++ more)) :
    e.Fine more := by
  rcases e with ⟨room, (e | filled) | _⟩ | _ | _ | _
  · exact h
  · intro hroom hnil
    exact (List.append_eq_nil_iff.mp (h hroom hnil)).2
  all_goals trivial

namespace VlessStream

variable {S : Type} {holds : S → List UInt8 → Prop} {total rest : List UInt8}

-- What the inner stream gave out and has yet to give out make up the total.
def Fed (holds : S → List UInt8 → Prop) (total : List UInt8) (st : VlessStream (Recorded S)) :
    Prop :=
  ∃ more, holds st.inner.stream more ∧ st.inner.arrived ++ more = total ∧
    ∀ e ∈ st.inner.log, e.Fine more

-- The bytes that stand behind the header, of which some may be in the buffer.
inductive Over (holds : S → List UInt8 → Prop) (st : VlessStream S) (rest : List UInt8) : Prop
  | waiting (more : List UInt8) (hdone : st.is_handshake_done = false)
      (hinner : holds st.inner more) (hbuf : payload st.buf.bytes = none)
      (hrest : payload (st.buf.bytes ++ more) = some rest) : Over holds st rest
  | relaying (more : List UInt8) (hdone : st.is_handshake_done = true)
      (hinner : holds st.inner more) (hrest : rest = st.buf.bytes ++ more) : Over holds st rest

theorem over_new {io : S} {more : List UInt8} (hinner : holds io more)
    (hrest : payload more = some rest) : Over holds (.new io) rest :=
  .waiting more rfl hinner rfl hrest

theorem Over.waits {st : VlessStream S} (h : Over holds st rest) : st.Waits := by
  intro hwaiting
  cases h with
  | waiting _ _ _ hbuf => exact hbuf
  | relaying _ hdone => exact absurd (hdone.symm.trans hwaiting) Bool.noConfusion

-- A log that leads to such a state.
theorem Over.recorded {st : VlessStream S} (h : Over holds st rest) :
    ∃ log total, Keeps [] { st with inner := (⟨st.inner, log⟩ : Recorded S) } ∧
      Fed holds total { st with inner := (⟨st.inner, log⟩ : Recorded S) } ∧
      payload total = some rest := by
  cases h with
  | waiting more hdone hinner hbuf hrest =>
      refine ⟨[.read 0 (.Ready (.ok st.buf.bytes))], st.buf.bytes ++ more,
        .waiting hdone rfl ?_ ?_, ⟨more, hinner, ?_, ?_⟩, hrest⟩
      · simp [Recorded.arrived, Event.arrived]
      · simpa [Recorded.arrived, Event.arrived] using hbuf
      · simp [Recorded.arrived, Event.arrived]
      · simp [Event.Fine]
  | relaying more hdone hinner hrest =>
      refine ⟨[.read 0 (.Ready (.ok ([0, 0] ++ st.buf.bytes)))], [0, 0] ++ st.buf.bytes ++ more,
        .relaying hdone ?_, ⟨more, hinner, ?_, ?_⟩, ?_⟩
      · simp [Recorded.arrived, Event.arrived, payload]
      · simp [Recorded.arrived, Event.arrived]
      · simp [Event.Fine]
      · simp [payload, hrest]

-- And back from a log, behind what was handed on.
theorem over_of_fed {given : List UInt8} {st : VlessStream (Recorded S)} (hkeeps : st.Keeps given)
    (hfed : Fed holds total st) (hrest : payload total = some rest) :
    ∃ left, rest = given ++ left ∧ Over holds st.forget left := by
  obtain ⟨more, hinner, rfl, -⟩ := hfed
  cases hkeeps with
  | waiting hdone hgiven hbuf hshort =>
      exact ⟨rest, by rw [hgiven, List.nil_append],
        .waiting more hdone hinner (hbuf ▸ hshort) (by rw [forget, hbuf, hrest])⟩
  | relaying hdone hpayload =>
      rw [payload_append hpayload, Option.some.injEq] at hrest
      exact ⟨st.buf.bytes ++ more, by rw [← hrest, List.append_assoc],
        .relaying more hdone hinner rfl⟩

variable [AsyncStream S]

-- Reads of a stream that delivers leave it one that does.
theorem fed_of_inner_read (h : Delivers holds) (room : Nat) :
    Triple (Fed holds total) (inner_read room) (fun _ => Fed holds total)
      fun _ => Fed holds total := by
  refine .act _ fun st hst => ?_
  obtain ⟨more, hinner, hsplit, hfine⟩ := hst
  rcases h.read _ more room hinner with ⟨after, hcall, hafter⟩ |
    ⟨bytes, left, after, hcall, rfl, hafter, hend⟩
  · have hnext : AsyncStream.poll_read st.inner room =
        (.Pending, ⟨after, st.inner.log ++ [.read room .Pending]⟩) := by
      simp only [AsyncStream.poll_read] at hcall ⊢
      rw [hcall]
    simp only [hnext]
    refine ⟨more, hafter, ?_, ?_⟩
    · rw [← hsplit]
      simp [Recorded.arrived, Event.arrived]
    · intro e he
      rcases List.mem_append.mp he with he | he
      · exact hfine e he
      · obtain rfl := List.mem_singleton.mp he
        trivial
  · have hnext : AsyncStream.poll_read st.inner room = (.Ready (.ok bytes),
        ⟨after, st.inner.log ++ [.read room (.Ready (.ok bytes))]⟩) := by
      simp only [AsyncStream.poll_read] at hcall ⊢
      rw [hcall]
    simp only [hnext]
    refine ⟨left, hafter, ?_, ?_⟩
    · rw [← hsplit]
      simp [Recorded.arrived, Event.arrived]
    · intro e he
      rcases List.mem_append.mp he with he | he
      · exact (hfine e he).of_suffix
      · obtain rfl := List.mem_singleton.mp he
        intro hroom hnil
        exact (List.append_eq_nil_iff.mp (hend hroom hnil)).2

theorem fed_of_read_payload (h : Delivers holds) (remaining : Nat) :
    Triple (Fed holds total) (read_payload remaining) (fun _ => Fed holds total)
      fun _ => Fed holds total := by
  refine .bind (fun _ => Fed holds total) (.act _ fun _ hst => hst) fun st => ?_
  dsimp only
  split
  · exact .bind _ (fed_of_inner_read h remaining) fun reply => (forward_rule reply).conseq
      (fun st hst => by rcases reply with (e | a) | _ <;> exact hst) (fun _ _ h => h) fun _ _ h => h
  · refine .bind (fun _ => Fed holds total) (.act _ fun _ hst => hst) fun st => ?_
    dsimp only
    split
    · exact .act _ fun _ hst => hst
    · exact .throw _ fun _ hst => hst
    · exact .throw _ fun _ hst => hst

theorem fed_of_handshake_round (h : Delivers holds) :
    Triple (Fed holds total) handshake_round (fun _ => Fed holds total)
      fun _ => Fed holds total := by
  refine .bind (fun _ => Fed holds total) (.bind (fun _ => Fed holds total)
    (.act _ fun _ hst => hst) fun room => .bind _ (fed_of_inner_read h room) fun reply => ?_)
    fun filled => ?_
  · exact (forward_rule reply).conseq
      (fun st hst => by rcases reply with (e | a) | _ <;> exact hst) (fun _ _ h => h) fun _ _ h => h
  · split
    · exact .throw _ fun _ hst => hst
    · refine .bind (fun _ => Fed holds total) (.act _ fun _ hst => hst) fun _ =>
        .bind (fun _ => Fed holds total) (.bind (fun _ => Fed holds total)
          (.act _ fun _ hst => hst) fun st => ?_) fun result => ?_
      · split
        · exact .act _ fun _ hst => hst
        · exact .throw _ fun _ hst => hst
      · split
        · exact .bind (fun _ => Fed holds total) (.act _ fun _ hst => hst) fun _ =>
            .pure _ fun _ hst => hst
        · exact .pure _ fun _ hst => hst
        · exact .throw _ fun _ hst => hst

theorem fed_of_poll_read (h : Delivers holds) (remaining : Nat) :
    Triple (Fed holds total) (poll_read remaining) (fun _ => Fed holds total)
      fun _ => Fed holds total := by
  refine .bind (fun _ => Fed holds total) (.act _ fun _ hst => hst) fun done => ?_
  split
  · exact fed_of_read_payload h remaining
  · refine .bind (fun _ => Fed holds total) ?_ fun _ => fed_of_read_payload h remaining
    refine (Triple.repeat_until (fun _ => Fed holds total) (fun _ => ?_) ()).conseq
      (fun _ h => h) (fun _ _ h => h) fun _ _ h => h
    refine (fed_of_handshake_round h).conseq (fun _ h => h) (fun pass _ hst => ?_) fun _ _ h => h
    cases pass <;> exact hst

-- A stream over one that delivers, with a header in front, delivers what is behind it.
theorem delivers_over (h : Delivers holds) : Delivers (Over holds) where
  read st rest room hst := by
    obtain ⟨log, total, hkeeps, hfed, hrest⟩ := hst.recorded
    obtain ⟨outcome, after, hreturns, hreads⟩ := poll_read_reads hkeeps room
    have hfed' : Fed holds total after := by
      have hends := (fed_of_poll_read h room).of_returns hfed hreturns
      exact (Async.ends_same outcome).mp hends
    obtain ⟨left, hleft, hafter⟩ := over_of_fed hreads.keeps hfed' hrest
    obtain ⟨reply, rfl⟩ := exists_reply hreads.not_panicked
    have hpoll : AsyncStream.poll_read st room = (reply, after.forget) :=
      poll_eq (mono_poll_read room) (poll_read_ends hst.waits room)
        ((embeds_poll_read room).returns hreturns)
    obtain ⟨more, -, rfl, hfine⟩ := hfed'
    rcases hreads.owed with ⟨bytes, hok, hne⟩ | ⟨e, hmem, howed⟩
    · obtain rfl := eq_ready_of_outcome hok
      exact .inr ⟨bytes, left, after.forget, hpoll, hleft, hafter,
        fun hroom hnil => absurd hnil (hne hroom)⟩
    · have he := hfine e (List.mem_of_mem_drop hmem)
      cases howed with
      | pending _ houtcome =>
          rw [houtcome] at hleft
          obtain rfl := eq_pending_of_outcome houtcome
          exact .inl ⟨after.forget, hpoll, hleft ▸ hafter⟩
      | error => exact he.elim
      | finished houtcome hall =>
          obtain rfl := eq_ready_of_outcome houtcome
          refine .inr ⟨[], left, after.forget, hpoll, hleft, hafter, fun hroom _ => ?_⟩
          rw [he hroom rfl, List.append_nil, hall] at hrest
          exact (Option.some.inj hrest).symm
      | eof _ hroom _ hshort =>
          rw [he hroom rfl, List.append_nil, hshort] at hrest
          cases hrest
  write st rest bytes hst := by
    have hpoll := poll_inner (fun io : S => AsyncStream.poll_write io bytes) st
    change Over holds (poll (poll_write bytes) st).2 rest
    rw [poll_write, hpoll]
    cases hst with
    | waiting more hdone hinner hbuf hrest =>
        exact .waiting more hdone (h.write _ _ bytes hinner) hbuf hrest
    | relaying more hdone hinner hrest =>
        exact .relaying more hdone (h.write _ _ bytes hinner) hrest
  flush st rest hst := by
    have hpoll := poll_inner (AsyncStream.poll_flush : S → _) st
    change Over holds (poll poll_flush st).2 rest
    rw [poll_flush, hpoll]
    cases hst with
    | waiting more hdone hinner hbuf hrest =>
        exact .waiting more hdone (h.flush _ _ hinner) hbuf hrest
    | relaying more hdone hinner hrest => exact .relaying more hdone (h.flush _ _ hinner) hrest

end VlessStream

-- A call as the owner of a stream sees it.
inductive Polled {S : Type} [AsyncStream S] (io : S) : Call → S → Prop
  | read (remaining : Nat) : Polled io
      (.read remaining (AsyncStream.poll_read io remaining).1.outcome)
      (AsyncStream.poll_read io remaining).2
  | write (buf : List UInt8) : Polled io
      (.write buf (AsyncStream.poll_write io buf).1.outcome) (AsyncStream.poll_write io buf).2
  | flush : Polled io (.flush (AsyncStream.poll_flush io).1.outcome) (AsyncStream.poll_flush io).2

namespace Delivers

variable {S : Type} [AsyncStream S] {holds : S → List UInt8 → Prop} {io start after : S}
  {rest : List UInt8} {past : List (Transition S Call)}

theorem of_pipe [ByteStream S] :
    Delivers fun (io : S) rest => (ByteStream.pipe io).unread = rest where
  read io rest room hio := by
    rcases hcall : AsyncStream.poll_read io room with ⟨reply | _, after⟩
    · obtain ⟨filled, rfl, hpipe, hne⟩ := ByteStream.poll_read_ready io room reply after hcall
      have hunread := congrArg Pipe.unread hpipe
      refine .inr ⟨filled, _, after, rfl, hio.symm.trans hunread, rfl, fun hroom hnil => ?_⟩
      by_contra hleft
      exact hne hroom (hio ▸ hleft) hnil
    · obtain ⟨hpipe, -⟩ := ByteStream.poll_read_pending io room after hcall
      exact .inl ⟨after, rfl, by rw [hpipe, hio]⟩
  write io rest bytes hio := by
    rcases hcall : AsyncStream.poll_write io bytes with ⟨reply | _, after⟩
    · obtain ⟨n, -, hpipe, -⟩ := ByteStream.poll_write_ready io bytes reply after hcall
      exact (congrArg Pipe.unread hpipe).trans hio
    · obtain ⟨hpipe, -⟩ := ByteStream.poll_write_pending io bytes after hcall
      exact (congrArg Pipe.unread hpipe).trans hio
  flush io rest hio := by
    rcases hcall : AsyncStream.poll_flush io with ⟨reply | _, after⟩
    · obtain ⟨-, hpipe⟩ := ByteStream.poll_flush_ready io reply after hcall
      exact (congrArg Pipe.unread hpipe).trans hio
    · obtain ⟨hpipe, -⟩ := ByteStream.poll_flush_pending io after hcall
      exact (congrArg Pipe.unread hpipe).trans hio

-- A read gives out a front part of what is left, or waits, or reports the end.
theorem of_read (h : Delivers holds) (hio : holds io rest) {remaining : Nat}
    {outcome : Except Exit (List UInt8)} (hcall : Polled io (.read remaining outcome) after) :
    ∃ more, rest = (Call.read remaining outcome).filled ++ more ∧ holds after more ∧
      (outcome = .error .Pending ∨ ∃ bytes, outcome = .ok bytes ∧
        (0 < remaining → bytes = [] → rest = [])) := by
  cases hcall with
  | read =>
      rcases h.read io rest remaining hio with ⟨after, hcall, hafter⟩ |
        ⟨bytes, more, after, hcall, hrest, hafter, hend⟩
      · rw [hcall]
        exact ⟨rest, rfl, hafter, .inl rfl⟩
      · rw [hcall]
        exact ⟨more, hrest, hafter, .inr ⟨bytes, rfl, hend⟩⟩

theorem of_call (h : Delivers holds) (hio : holds io rest) {call : Call}
    (hcall : Polled io call after) : ∃ more, rest = call.filled ++ more ∧ holds after more := by
  cases hcall with
  | read remaining =>
      obtain ⟨more, hrest, hafter, -⟩ := h.of_read hio (.read remaining)
      exact ⟨more, hrest, hafter⟩
  | write buf => exact ⟨rest, rfl, h.write io rest buf hio⟩
  | flush => exact ⟨rest, rfl, h.flush io rest hio⟩

theorem of_run (h : Delivers holds) (hstart : holds start rest) (hrun : Run Polled start past io) :
    ∃ more, rest = past.flatMap (·.label.filled) ++ more ∧ holds io more := by
  refine hrun.rule (fun past io => ∃ more, rest = past.flatMap (·.label.filled) ++ more ∧
    holds io more) ⟨rest, rfl, hstart⟩ ?_
  intro past last _ ih hstep
  obtain ⟨more, hrest, hio⟩ := ih
  obtain ⟨left, hmore, hafter⟩ := h.of_call hio hstep
  refine ⟨left, ?_, hafter⟩
  rw [List.flatMap_append, List.flatMap_singleton, hrest, hmore, List.append_assoc]

end Delivers

namespace Layers

variable {S : Type}

def Holds (holds : S → List UInt8 → Prop) : (n : Nat) → Layers S n → List UInt8 → Prop
  | 0 => holds
  | n + 1 => VlessStream.Over (Holds holds n)

-- The headers in front of a reply: that for the outermost stream is the first of the list,
-- and arrives last.
def responses : List ResponseHeader → List UInt8
  | [] => []
  | header :: headers => responses headers ++ header.bytes

theorem delivers [AsyncStream S] {holds : S → List UInt8 → Prop} (h : Delivers holds) (n : Nat) :
    Delivers (Holds holds n) := by
  induction n with
  | zero => exact h
  | succ n ih => exact VlessStream.delivers_over ih

theorem holds_wrap {holds : S → List UInt8 → Prop} {io : S} (headers : List ResponseHeader)
    {rest : List UInt8} (hio : holds io (responses headers ++ rest)) :
    Holds holds headers.length (wrap headers.length io) rest := by
  induction headers generalizing rest with
  | nil => exact hio
  | cons header headers ih =>
      rw [responses, List.append_assoc] at hio
      exact VlessStream.over_new (ih hio) (payload_bytes header rest)

end Layers

-- Back through any number of servers: with their headers in front of it, exactly the reply
-- is handed on. In every run of calls what was handed on is a front part of it, no read
-- fails, and none reports the end of the stream before all was handed on.
theorem vless_layers_strip {S : Type} [AsyncStream S] [ByteStream S] (io : S)
    (headers : List ResponseHeader) (reply : List UInt8)
    (hunread : (ByteStream.pipe io).unread = Layers.responses headers ++ reply)
    (past : List (Transition (Layers S headers.length) Call)) (st : Layers S headers.length)
    (hrun : Run Polled (Layers.wrap headers.length io) past st) :
    past.flatMap (·.label.filled) <+: reply ∧
    ∀ before t later remaining outcome, past = before ++ t :: later →
      t.label = .read remaining outcome →
      outcome = .error .Pending ∨ ∃ bytes, outcome = .ok bytes ∧
        (0 < remaining → bytes = [] → before.flatMap (·.label.filled) = reply) := by
  have hdelivers := Layers.delivers (Delivers.of_pipe (S := S)) headers.length
  have hstart : Layers.Holds (fun (io : S) rest => (ByteStream.pipe io).unread = rest)
      headers.length (Layers.wrap headers.length io) reply := Layers.holds_wrap headers hunread
  constructor
  · obtain ⟨more, hrest, -⟩ := hdelivers.of_run hstart hrun
    exact ⟨more, hrest.symm⟩
  · rintro before t later remaining outcome rfl hlabel
    obtain ⟨hbefore, hcall⟩ := hrun.split
    obtain ⟨more, hrest, ht⟩ := hdelivers.of_run hstart hbefore
    rw [hlabel] at hcall
    obtain ⟨-, -, -, hpending | ⟨bytes, hok, hend⟩⟩ := hdelivers.of_read ht hcall
    · exact .inl hpending
    · refine .inr ⟨bytes, hok, fun hroom hnil => ?_⟩
      rw [hrest, hend hroom hnil, List.append_nil]

-- A reply of two bytes behind two headers, in pieces, of which one has a byte of addons.
def doubled : Channel := ⟨[0, 1, 9, 0, 0, 5, 6], [], [some 3, none, some 0]⟩

def headersOfTwo : List ResponseHeader := [⟨0, [], Nat.zero_le _⟩, headerOfNine]

theorem vless_layers_strip_doubled :
    ∃ past st, Run Polled (Layers.wrap 2 doubled) past st ∧ past.length = 2 ∧
      past.flatMap (·.label.filled) <+: [5, 6] := by
  have hfirst : Run Polled (Layers.wrap 2 doubled) _ _ := Run.nil.next (.read 1)
  have hrun := hfirst.next (.read 1)
  exact ⟨_, _, hrun, rfl, (vless_layers_strip doubled headersOfTwo [5, 6] rfl _ _ hrun).1⟩

end AlphaRay
