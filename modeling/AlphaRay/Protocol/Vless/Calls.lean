import AlphaRay.Protocol.Peers
import AlphaRay.Protocol.Vless.Refinement
import AlphaRay.Protocol.Vless.Stream

namespace AlphaRay

open Lib Async

-- What the owner of a stream sees of a call.
def Event.call : Event → Call
  | .read room reply => .read room reply.outcome
  | .write bytes reply => .write bytes reply.outcome
  | .flush reply => .flush reply.outcome
  | .shutdown reply => .shutdown reply.outcome

theorem Event.filled_call (e : Event) : e.call.filled = e.arrived := by
  rcases e with ⟨room, (e | bytes) | _⟩ | _ | _ | _ <;> rfl

namespace Recorded

variable {S : Type} {io next : Recorded S}

def calls (io : Recorded S) : List Call := io.log.map Event.call

theorem filled_calls (io : Recorded S) : io.calls.flatMap Call.filled = io.arrived := by
  rw [calls, List.flatMap_map, arrived]
  exact congrArg io.log.flatMap (funext Event.filled_call)

theorem calls_of_log {e : Event} (h : next.log = io.log ++ [e]) :
    next.calls = io.calls ++ [e.call] := by
  rw [calls, h, List.map_append]
  rfl

end Recorded

section Sending

variable {bytes rest left taken : List UInt8} {calls : List Call} {call : Call}

-- However far the calls have come, what they sent is a front part of the bytes.
def SendsFront (bytes : List UInt8) (calls : List Call) : Prop :=
  ∀ front, front <+: calls → ∀ sent, Sends front sent → sent <+: bytes

-- The calls sent the bytes up to a rest.
structure Sending (bytes rest : List UInt8) (calls : List Call) : Prop where
  sent_append : ∀ sent, Sends calls sent → sent ++ rest = bytes
  front : SendsFront bytes calls

theorem sending_nil (bytes : List UInt8) : Sending bytes bytes [] := by
  refine ⟨fun sent hsent => ?_, fun front hfront sent hsent => ?_⟩
  · rw [sends_nil hsent]
    rfl
  · rw [List.prefix_nil.mp hfront] at hsent
    rw [sends_nil hsent]
    exact List.nil_prefix

theorem Sending.front_next (h : Sending bytes rest calls)
    (hcall : ∀ sent, call.Sends sent → sent <+: rest) : SendsFront bytes (calls ++ [call]) := by
  intro front hfront sent hsent
  rcases List.prefix_concat_iff.mp hfront with rfl | hfront
  · obtain ⟨before, last, hbefore, hlast, rfl⟩ := sends_append hsent
    rw [← h.sent_append before hbefore]
    exact (List.prefix_append_right_inj before).mpr (hcall last (sends_singleton hlast))
  · exact h.front front hfront sent hsent

theorem Sending.next (h : Sending bytes rest calls)
    (hcall : ∀ sent, call.Sends sent → sent ++ left = rest) :
    Sending bytes left (calls ++ [call]) := by
  refine ⟨fun sent hsent => ?_, h.front_next fun sent hsent => ⟨left, hcall sent hsent⟩⟩
  obtain ⟨before, last, hbefore, hlast, rfl⟩ := sends_append hsent
  rw [List.append_assoc, hcall last (sends_singleton hlast), h.sent_append before hbefore]

-- Other calls send nothing.
theorem Sending.silent (h : Sending bytes rest calls)
    (hcall : ∀ sent, call.Sends sent → sent = []) : Sending bytes rest (calls ++ [call]) :=
  h.next fun sent hsent => by rw [hcall sent hsent, List.nil_append]

theorem sends_of_reads {sent : List UInt8} (hreads : ∀ call ∈ calls, call.isRead = true)
    (h : Sends calls sent) : sent = [] := by
  induction calls generalizing sent with
  | nil => exact sends_nil h
  | cons call calls ih =>
      obtain ⟨first, rest, hfirst, hrest, rfl⟩ := sends_cons h
      have hread := hreads call List.mem_cons_self
      have hnone : first = [] := by
        cases call with
        | read remaining outcome => exact hfirst
        | write buf outcome => cases hread
        | flush outcome => cases hread
        | shutdown outcome => cases hread
      rw [hnone, ih (fun call hmem => hreads call (List.mem_cons_of_mem _ hmem)) hrest]
      rfl

theorem Sending.reads {more : List Call} (h : Sending bytes rest calls)
    (hreads : ∀ call ∈ more, call.isRead = true) : Sending bytes rest (calls ++ more) := by
  induction more generalizing calls with
  | nil => rwa [List.append_nil]
  | cons call more ih =>
      rw [List.append_cons]
      refine ih (h.silent fun sent hsent => ?_) fun call hmem =>
        hreads call (List.mem_cons_of_mem _ hmem)
      have hread : ∀ read ∈ [call], read.isRead = true := by
        intro read hmem
        rw [List.mem_singleton.mp hmem]
        exact hreads call List.mem_cons_self
      exact sends_of_reads hread ⟨[sent], .cons hsent .nil, (List.append_nil sent).symm⟩

end Sending

section Writes

variable {S : Type} {bytes rest left taken : List UInt8} {io after : Recorded S} {e : Event}

-- How far the bytes are written, behind what was read.
structure Writing (bytes rest taken : List UInt8) (io : Recorded S) : Prop where
  sending : Sending bytes rest io.calls
  arrived_eq : io.arrived = taken

theorem Writing.next (h : Writing bytes rest taken io) (hlog : after.log = io.log ++ [e])
    (harrived : e.arrived = []) (hcall : ∀ sent, e.call.Sends sent → sent ++ left = rest) :
    Writing bytes left taken after := by
  refine ⟨?_, ?_⟩
  · rw [Recorded.calls_of_log hlog]
    exact h.sending.next hcall
  · rw [Recorded.arrived_of_log hlog, harrived, List.append_nil, h.arrived_eq]

-- A call that writes nothing.
theorem Writing.silent (h : Writing bytes rest taken io) (hlog : after.log = io.log ++ [e])
    (harrived : e.arrived = []) (hcall : ∀ sent, e.call.Sends sent → sent = []) :
    Writing bytes rest taken after :=
  h.next hlog harrived fun sent hsent => by rw [hcall sent hsent, List.nil_append]

theorem await_rule {α : Type} {pre : S → Prop} {ok : α → S → Prop} {err : IoError → S → Prop}
    {poll : S → Poll (IoResult α) × S}
    (hpending : ∀ io after, pre io → poll io = (.Pending, after) → pre after)
    (hready : ∀ io reply after, pre io → poll io = (.Ready reply, after) →
      ends ok err reply after) :
    Triple pre (await poll) ok err := by
  refine .wait fun io h => ?_
  rcases hcall : poll io with ⟨reply | _, after⟩
  · exact hready io reply after h hcall
  · exact hpending io after h hcall

variable [AsyncStream S]

theorem poll_write_sends_rest (bytes rest taken : List UInt8) :
    Triple (Writing bytes rest taken) (await fun io : Recorded S => AsyncStream.poll_write io rest)
      (fun n => Writing bytes (rest.drop n) taken) (fun _ io => SendsFront bytes io.calls) := by
  refine await_rule (fun io after h hcall => ?_) fun io reply after h hcall => ?_
  · exact h.silent (Recorded.log_of_poll_write hcall) rfl fun _ hsent => hsent
  · have hlog := Recorded.log_of_poll_write hcall
    rcases reply with e | n
    · change SendsFront bytes after.calls
      rw [Recorded.calls_of_log hlog]
      exact h.sending.front_next fun sent hsent => hsent
    · refine h.next hlog rfl fun sent hsent => ?_
      rw [show sent = rest.take n from hsent, List.take_append_drop]

theorem write_all_buf_sends (bytes taken rest : List UInt8) :
    Triple (Writing bytes rest taken) (write_all_buf rest : Async (Recorded S) IoError Unit)
      (fun _ => Writing bytes [] taken) (fun _ io => SendsFront bytes io.calls) := by
  refine .repeat_until (fun rest => Writing bytes rest taken) (fun rest => ?_) rest
  split_ifs with hnil
  · exact .pure _ fun _ h => hnil ▸ h
  · refine .bind (fun n => Writing bytes (rest.drop n) taken)
      (poll_write_sends_rest bytes rest taken) fun n => ?_
    split_ifs
    · exact .throw _ fun _ h => h.sending.front
    · exact .pure _ fun _ h => h

theorem flush_sends (bytes rest taken : List UInt8) :
    Triple (Writing bytes rest taken) (flush : Async (Recorded S) IoError Unit)
      (fun _ => Writing bytes rest taken) (fun _ io => SendsFront bytes io.calls) := by
  refine await_rule (fun io after h hcall => ?_) fun io reply after h hcall => ?_
  · exact h.silent (Recorded.log_of_poll_flush hcall) rfl fun _ hsent => hsent
  · have hnext := h.silent (Recorded.log_of_poll_flush hcall) rfl fun _ hsent => hsent
    rcases reply with e | _
    · exact hnext.sending.front
    · exact hnext

-- An error is one of the stream.
theorem write_and_flush_sends (bytes taken : List UInt8) :
    Triple (Writing bytes bytes taken)
      (write_and_flush bytes : Async (Recorded S) (Fault VlessError) Unit)
      (fun _ => Writing bytes [] taken)
      fun e io => (∃ error, e = .Failed (.Io error)) ∧ SendsFront bytes io.calls := by
  refine .map_err _ ?_
  refine (Triple.bind (fun _ => Writing bytes [] taken) (write_all_buf_sends bytes taken bytes)
    fun _ => flush_sends bytes [] taken).conseq (fun _ h => h) (fun _ _ h => h) ?_
  exact fun e io h => ⟨⟨e, rfl⟩, h⟩

end Writes

section Reads

variable {S α β : Type} {calls : List Call} {taken : List UInt8}

-- The bytes after which a parser has its result, whatever stands behind them. A stream that
-- fails settles nothing.
def Decided (p : VlessParser α) (taken : List UInt8) : Except (Fault VlessError) α → Prop
  | .ok a => ∀ rest, p.run (taken ++ rest) = (.ok a, rest)
  | .error e => (∃ error, e = .Failed (.Io error)) ∨ ∀ rest, (p.run (taken ++ rest)).1 = .error e

-- Reads of bytes.
def ReadsOnly (calls : List Call) (io : Recorded S) (taken : List UInt8) : Prop :=
  ∃ more, io.calls = calls ++ more ∧ (∀ call ∈ more, call.isRead = true) ∧
    more.flatMap Call.filled = taken

-- A computation that reads from a stream, any stream, takes exactly what decides the parser.
def Decides (m : Async (Recorded S) (Fault VlessError) α) (p : VlessParser α) : Prop :=
  ∀ fuel io result after, m.run fuel io = some (result, after) →
    ∃ taken, ReadsOnly io.calls after taken ∧ Decided p taken result

theorem readsOnly_nil (io : Recorded S) : ReadsOnly io.calls io [] :=
  ⟨[], (List.append_nil _).symm, by simp, rfl⟩

theorem ReadsOnly.trans {io mid : Recorded S} {more : List UInt8} (h : ReadsOnly calls mid taken)
    (h' : ReadsOnly mid.calls io more) : ReadsOnly calls io (taken ++ more) := by
  obtain ⟨first, hfirst, hreads, rfl⟩ := h
  obtain ⟨last, hlast, hreads', rfl⟩ := h'
  refine ⟨first ++ last, by rw [hlast, hfirst, List.append_assoc], ?_, List.flatMap_append⟩
  intro call hmem
  rcases List.mem_append.mp hmem with hmem | hmem
  · exact hreads call hmem
  · exact hreads' call hmem

theorem Decides.pure (a : α) : Decides (S := S) (Pure.pure a) (Pure.pure a) := by
  intro fuel io result after hrun
  cases hrun
  exact ⟨[], readsOnly_nil io, fun _ => rfl⟩

theorem Decides.throw (e : Fault VlessError) :
    Decides (S := S) (MonadExcept.throw e : Async (Recorded S) (Fault VlessError) α)
      (MonadExcept.throw e) := by
  intro fuel io result after hrun
  cases hrun
  exact ⟨[], readsOnly_nil io, .inr fun _ => rfl⟩

theorem Decides.bind {m : Async (Recorded S) (Fault VlessError) α} {p : VlessParser α}
    {f : α → Async (Recorded S) (Fault VlessError) β} {g : α → VlessParser β}
    (h : Decides m p) (h' : ∀ a, Decides (f a) (g a)) : Decides (m >>= f) (p >>= g) := by
  intro fuel io result after hrun
  rw [run_bind] at hrun
  split at hrun
  · cases hrun
  · rename_i e mid hm
    cases hrun
    obtain ⟨taken, hreads, hdecided⟩ := h fuel io _ _ hm
    refine ⟨taken, hreads, hdecided.imp_right fun herror rest => ?_⟩
    rw [Parser.run_bind]
    have hfirst := herror rest
    rcases hparse : p.run (taken ++ rest) with ⟨e' | a, left⟩
    · rw [hparse] at hfirst
      exact congrArg Except.error (Except.error.inj hfirst)
    · rw [hparse] at hfirst
      cases hfirst
  · rename_i a mid hm
    obtain ⟨taken, hreads, hdecided⟩ := h fuel io _ _ hm
    obtain ⟨more, hmore, hdecided'⟩ := h' a fuel mid _ _ hrun
    have hfirst : ∀ rest, (p >>= g).run (taken ++ more ++ rest) = (g a).run (more ++ rest) := by
      intro rest
      rw [List.append_assoc]
      exact Parser.run_bind_ok (hdecided _) g
    refine ⟨taken ++ more, hreads.trans hmore, ?_⟩
    rcases result with e | b
    · exact hdecided'.imp_right fun herror rest => by rw [hfirst, herror]
    · exact fun rest => by rw [hfirst, hdecided']

theorem Decides.checked (r : Except Panic α) :
    Decides (S := S) (AlphaRay.checked r) (AlphaRay.checked r) := by
  cases r with
  | ok a => exact .pure a
  | error panic => exact .throw _

theorem Decides.fallible (r : Except VlessError α) :
    Decides (S := S) (AlphaRay.fallible r) (AlphaRay.fallible r) := by
  cases r with
  | ok a => exact .pure a
  | error e => exact .throw _

-- The buffer of `fill_buf` holds what was read into it, and never has room for more than is
-- missing.
structure Filling (calls : List Call) (n total_n : Nat) (st : Recorded S × BytesMut) : Prop where
  reads : ReadsOnly calls st.1 st.2.bytes
  capacity_eq : st.2.capacity = n
  length_eq : st.2.bytes.length = total_n
  total_le : total_n ≤ n

variable [AsyncStream S]

theorem poll_read_buf_fills {n total_n : Nat} (hmissing : total_n < n)
    {st : Recorded S × BytesMut} (h : Filling calls n total_n st) :
    polls (Filling calls n total_n) (fun k => Filling calls n (total_n + k))
      (fun _ st => ∃ taken, ReadsOnly calls st.1 taken) (poll_read_buf st) := by
  obtain ⟨io, buf⟩ := st
  obtain ⟨⟨more, hmore, hreads, hbytes⟩, hcapacity, hlen, hle⟩ := h
  dsimp only at hmore hbytes hcapacity hlen
  have hchunk : BufMut.chunk_mut buf = (n - total_n, buf) := by
    rw [← hcapacity, ← hlen]
    exact buf.chunk_mut_of_lt (by omega)
  unfold poll_read_buf
  dsimp only
  split_ifs with hfull
  · exact ⟨⟨more, hmore, hreads, hbytes⟩, hcapacity, hlen, hle⟩
  · rw [hchunk]
    dsimp only
    rcases hcall : AsyncStream.poll_read io (n - total_n) with ⟨reply, after⟩
    have hcalls : after.calls = calls ++ (more ++ [.read (n - total_n) reply.outcome]) := by
      rw [Recorded.calls_of_log (Recorded.log_of_poll_read hcall), hmore, List.append_assoc]
      rfl
    have hall : ∀ call ∈ more ++ [.read (n - total_n) reply.outcome], call.isRead = true := by
      intro call hmem
      rcases List.mem_append.mp hmem with hmem | hmem
      · exact hreads call hmem
      · rw [List.mem_singleton.mp hmem]
        rfl
    have hfilled : (more ++ [Call.read (n - total_n) reply.outcome]).flatMap Call.filled =
        buf.bytes ++ (Call.read (n - total_n) reply.outcome).filled := by
      rw [List.flatMap_append, hbytes, List.flatMap_singleton]
    rcases reply with (e | filled) | _
    · exact ⟨_, _, hcalls, hall, rfl⟩
    · have hroom := AsyncStream.length_le_of_poll_read io _ filled (congrArg Prod.fst hcall)
      refine ⟨⟨_, hcalls, hall, hfilled⟩, ?_, ?_, ?_⟩
      · simp only [BufMut.advance_mut, BytesMut.advance_mut, List.length_append]
        omega
      · simp only [BufMut.advance_mut, BytesMut.advance_mut, List.length_append]
        omega
      · omega
    · refine ⟨⟨_, hcalls, hall, hfilled.trans (List.append_nil _)⟩, hcapacity, hlen, hle⟩

theorem read_buf_exact_fills (n : Nat) :
    Triple (Filling calls n 0) (read_buf_exact n : Async (Recorded S × BytesMut) IoError Unit)
      (fun _ => Filling calls n n) (fun _ st => ∃ taken, ReadsOnly calls st.1 taken) := by
  refine .bind (fun buf st => Filling calls n 0 st) (.act _ fun _ h => h) fun buf => ?_
  dsimp only
  split_ifs
  · exact .throw _ fun _ h => ⟨_, h.reads⟩
  · refine .repeat_until (Filling calls n) (fun total_n => ?_) 0
    unfold read_more
    split_ifs with hmissing
    · refine .bind (fun k => Filling calls n (total_n + k))
        (.wait fun _ h => poll_read_buf_fills hmissing h) fun k => ?_
      split_ifs
      · exact .throw _ fun _ h => ⟨_, h.reads⟩
      · exact .pure _ fun _ h => h
    · refine .pure _ fun _ h => ?_
      have hle := h.total_le
      obtain rfl : total_n = n := by omega
      exact h

theorem fill_buf_fills (n : Nat) :
    Triple (fun io : Recorded S => io.calls = calls) (fill_buf n)
      (fun bytes io => ReadsOnly calls io bytes ∧ bytes.length = n)
      fun _ io => ∃ taken, ReadsOnly calls io taken := by
  refine .bind (fun now io => Filling calls n n (io, now.2)) ?_ fun now => ?_
  · refine (read_buf_exact_fills n).with_var.conseq ?_ (fun _ _ h => h) fun _ _ h => ?_
    · rintro io rfl
      exact ⟨readsOnly_nil io, rfl, rfl, Nat.zero_le n⟩
    · obtain ⟨_, h⟩ := h
      exact h
  · exact .pure _ fun _ h => ⟨h.reads, h.length_eq⟩

theorem Decides.read_exact (n : Nat) :
    Decides (S := S) (ReadExact.read_exact n) (ReadExact.read_exact n) := by
  intro fuel io result after hrun
  have hpost : ends (fun bytes after => ReadsOnly io.calls after bytes ∧ bytes.length = n)
      (fun e after => (∃ error, e = .Failed (.Io error)) ∧ ∃ taken, ReadsOnly io.calls after taken)
      result after := by
    refine Triple.map_err _ ?_ fuel io result after rfl hrun
    exact (fill_buf_fills n).conseq (fun _ h => congrArg Recorded.calls h.symm) (fun _ _ h => h)
      fun e _ h => ⟨⟨e, rfl⟩, h⟩
  rcases result with e | bytes
  · obtain ⟨herror, taken, hreads⟩ := hpost
    exact ⟨taken, hreads, .inl herror⟩
  · obtain ⟨hreads, hlen⟩ := hpost
    exact ⟨bytes, hreads, fun rest => Parser.run_take_append bytes rest n _ hlen⟩

theorem Decides.read_target (kind : UInt8) (port : UInt16) :
    Decides (S := S) (AlphaRay.read_target kind port) (AlphaRay.read_target kind port) := by
  unfold AlphaRay.read_target
  split_ifs
  · exact (read_exact 4).bind fun _ => (checked _).bind fun _ => .pure _
  · exact (read_exact 1).bind fun _ => (checked _).bind fun ⟨len, _⟩ =>
      (read_exact len.toNat).bind fun _ => .pure _
  · exact (read_exact 16).bind fun _ => (checked _).bind fun _ => .pure _
  · exact .throw _

theorem Decides.read_fields (version : VlessVersion) (id : Uuid) (header : List UInt8) :
    Decides (S := S) (AlphaRay.read_fields version id header)
      (AlphaRay.read_fields version id header) :=
  (checked _).bind fun _ => (fallible _).bind fun _ => (checked _).bind fun _ =>
    (checked _).bind fun _ => (read_target _ _).bind fun _ => .pure _

theorem Decides.read_request :
    Decides (S := S) AlphaRay.read_request AlphaRay.read_request := by
  refine (read_exact 22).bind fun _ => (checked _).bind fun ⟨_, _⟩ =>
    (fallible _).bind fun _ => (checked _).bind fun ⟨_, _⟩ => (checked _).bind fun _ =>
    (checked _).bind fun ⟨addons_len, _⟩ => ?_
  dsimp only
  split_ifs
  · exact (read_exact addons_len.toNat).bind fun _ => read_fields _ _ _
  · exact read_fields _ _ _

end Reads

section Peers

variable {S : Type} [AsyncStream S]

-- Of what is read exactly the request is taken, and then the response is written.
theorem VlessProtocol.accept_rule (io : S) :
    Triple (· = Recorded.new io) VlessProtocol.accept
      (fun got after => Sending [0, 0] [] after.calls ∧
        Decided read_request after.arrived (.ok got))
      fun e after => SendsFront [0, 0] after.calls ∧
        Decided read_request after.arrived (.error e) := by
  have hread : Triple (· = Recorded.new io) read_request
      (fun req mid => Writing [0, 0] [0, 0] mid.arrived mid ∧
        Decided read_request mid.arrived (.ok req))
      fun e mid => SendsFront [0, 0] mid.calls ∧ Decided read_request mid.arrived (.error e) := by
    intro fuel st result mid hst hrun
    subst hst
    obtain ⟨taken, ⟨more, hmore, hreads, rfl⟩, hdecided⟩ :=
      Decides.read_request fuel _ result mid hrun
    have hcalls : mid.calls = more := hmore
    have harrived : mid.arrived = more.flatMap Call.filled := by
      rw [← Recorded.filled_calls, hcalls]
    have hsending : Sending [0, 0] [0, 0] mid.calls := by
      rw [hcalls]
      exact (sending_nil [0, 0]).reads hreads
    rw [← harrived] at hdecided
    rcases result with e | req
    · exact ⟨hsending.front, hdecided⟩
    · exact ⟨⟨hsending, rfl⟩, hdecided⟩
  refine .bind _ hread fun req => ?_
  refine .bind (fun _ after => Sending [0, 0] [] after.calls ∧
    Decided read_request after.arrived (.ok req)) ?_ fun _ => .pure _ fun _ h => h
  intro fuel mid result after hmid hrun
  have hsend := write_and_flush_sends [0, 0] mid.arrived fuel mid result after hmid.1 hrun
  rcases result with e | _
  · obtain ⟨herror, hfront⟩ := hsend
    exact ⟨hfront, .inl herror⟩
  · refine ⟨hsend.sending, ?_⟩
    rw [hsend.arrived_eq]
    exact hmid.2

namespace VlessStream

theorem connect_rule (io : S) (req : VlessRequest) :
    Triple (· = VlessStream.new (Recorded.new io)) (connect req)
      (fun _ st => Sending req.to_bytes [] st.inner.calls ∧ st.Keeps [])
      fun _ st => SendsFront req.to_bytes st.inner.calls := by
  refine .zoom _ ((write_and_flush_sends req.to_bytes []).conseq ?_ ?_ ?_)
  · rintro inner rfl
    exact ⟨sending_nil _, rfl⟩
  · intro _ inner h
    exact ⟨h.sending, .waiting rfl rfl h.arrived_eq.symm (by rw [h.arrived_eq]; rfl)⟩
  · exact fun _ inner h => h.2

-- What the stream under a `VlessStream` was read.
def Asks (calls : List Call) (st : VlessStream (Recorded S)) : Prop :=
  ∃ taken, ReadsOnly calls st.inner taken

theorem inner_read_asks (calls : List Call) (room : Nat) :
    Triple (Asks calls) (inner_read room : Async (VlessStream (Recorded S)) Exit _)
      (fun _ => Asks calls) (fun _ => Asks calls) := by
  refine .act _ fun st h => ?_
  obtain ⟨taken, h⟩ := h
  rcases hcall : AsyncStream.poll_read st.inner room with ⟨reply, inner⟩
  have hone : ReadsOnly st.inner.calls inner (Call.read room reply.outcome).filled := by
    refine ⟨[.read room reply.outcome], Recorded.calls_of_log (Recorded.log_of_poll_read hcall),
      fun call hmem => ?_, List.flatMap_singleton _ _⟩
    rw [List.mem_singleton.mp hmem]
    rfl
  exact ⟨_, h.trans hone⟩

omit [AsyncStream S] in
theorem forward_asks {α : Type} (calls : List Call) (reply : Poll (IoResult α)) :
    Triple (Asks (S := S) calls) (forward reply) (fun _ => Asks calls) (fun _ => Asks calls) := by
  refine (forward_rule reply).conseq (fun st h => ?_) (fun _ _ h => h) fun _ _ h => h
  rcases reply with (e | a) | _ <;> exact h

theorem read_payload_asks (calls : List Call) (remaining : Nat) :
    Triple (Asks (S := S) calls) (read_payload remaining) (fun _ => Asks calls)
      (fun _ => Asks calls) := by
  refine .bind (fun _ => Asks calls) (.act _ fun _ h => h) fun st => ?_
  dsimp only
  split_ifs
  · exact .bind (fun _ => Asks calls) (inner_read_asks calls remaining) fun reply =>
      forward_asks calls reply
  · refine .bind (fun _ => Asks calls) (.act _ fun _ h => h) fun st => ?_
    dsimp only
    split
    · exact .act _ fun _ h => h
    · exact .throw _ fun _ h => h
    · exact .throw _ fun _ h => h

theorem handshake_round_asks (calls : List Call) :
    Triple (Asks (S := S) calls) handshake_round (fun _ => Asks calls) (fun _ => Asks calls) := by
  refine .bind (fun _ => Asks calls) ?_ fun filled => ?_
  · refine .bind (fun _ => Asks calls) (.act _ fun _ h => h) fun room => ?_
    exact .bind (fun _ => Asks calls) (inner_read_asks calls room) fun reply =>
      forward_asks calls reply
  · split_ifs
    · exact .throw _ fun _ h => h
    · refine .bind (fun _ => Asks calls) (.act _ fun _ h => h) fun _ => ?_
      refine .bind (fun _ => Asks calls) ?_ fun result => ?_
      · refine .bind (fun _ => Asks calls) (.act _ fun _ h => h) fun st => ?_
        split
        · exact .act _ fun _ h => h
        · exact .throw _ fun _ h => h
      · rcases result with e | _ | _
        · exact .throw _ fun _ h => h
        · exact .pure _ fun _ h => h
        · exact .bind (fun _ => Asks calls) (.act _ fun _ h => h) fun _ => .pure _ fun _ h => h

theorem poll_read_asks (calls : List Call) (remaining : Nat) :
    Triple (Asks (S := S) calls) (poll_read remaining) (fun _ => Asks calls)
      (fun _ => Asks calls) := by
  refine .bind (fun _ => Asks calls) (.act _ fun _ h => h) fun done => ?_
  cases done with
  | true => exact read_payload_asks calls remaining
  | false =>
      refine .bind (fun _ => Asks calls) ?_ fun _ => read_payload_asks calls remaining
      refine .repeat_until (fun _ => Asks calls) (fun _ => ?_) ()
      refine (handshake_round_asks calls).conseq (fun _ h => h) (fun pass _ h => ?_) fun _ _ h => h
      cases pass <;> exact h

omit [AsyncStream S] in
theorem forwarded_returns {α : Type}
    (f : VlessStream (Recorded S) → Poll (IoResult α) × VlessStream (Recorded S))
    (st : VlessStream (Recorded S)) :
    Async.Returns (do forward (← .act f)) st (f st).1.outcome (f st).2 :=
  (Async.Returns.act f st).bind (forward_returns _ _)

variable {st after : VlessStream (Recorded S)} {call : Call}

-- The calls of a `VlessStream` send what the calls it makes send.
theorem calls_of_step (h : Step st call after) :
    ∃ more, after.inner.calls = st.inner.calls ++ more ∧
      ∀ sent, Sends more sent → call.Sends sent := by
  cases h with
  | read remaining outcome after hcall =>
      have hstart : Asks st.inner.calls st := ⟨[], readsOnly_nil st.inner⟩
      have hpost := (poll_read_asks st.inner.calls remaining).of_returns hstart hcall
      obtain ⟨taken, more, hmore, hreads, -⟩ := (ends_same outcome).mp hpost
      exact ⟨more, hmore, fun sent hsent => sends_of_reads hreads hsent⟩
  | write buf outcome after hcall =>
      obtain ⟨rfl, rfl⟩ := hcall.unique (forwarded_returns _ st)
      exact ⟨_, Recorded.calls_of_log (Recorded.log_of_poll_write rfl), fun _ => sends_singleton⟩
  | flush outcome after hcall =>
      obtain ⟨rfl, rfl⟩ := hcall.unique (forwarded_returns _ st)
      exact ⟨_, Recorded.calls_of_log (Recorded.log_of_poll_flush rfl), fun _ => sends_singleton⟩
  | shutdown outcome after hcall =>
      obtain ⟨rfl, rfl⟩ := hcall.unique (forwarded_returns _ st)
      exact ⟨_, Recorded.calls_of_log (Recorded.log_of_poll_shutdown rfl), fun _ => sends_singleton⟩

theorem calls_of_run {start : VlessStream (Recorded S)}
    {past : List (Transition (VlessStream (Recorded S)) Call)} (hrun : Run Step start past st) :
    ∃ more, st.inner.calls = start.inner.calls ++ more ∧
      ∀ sent, Sends more sent → Sends (past.map (·.label)) sent := by
  refine hrun.rule (fun past st => ∃ more, st.inner.calls = start.inner.calls ++ more ∧
    ∀ sent, Sends more sent → Sends (past.map (·.label)) sent)
    ⟨[], (List.append_nil _).symm, fun _ h => h⟩ ?_
  rintro past last - ⟨more, hmore, hsends⟩ hstep
  obtain ⟨next, hnext, hlast⟩ := calls_of_step hstep
  refine ⟨more ++ next, by rw [hnext, hmore, List.append_assoc], fun sent hsent => ?_⟩
  obtain ⟨front, back, hfront, hback, rfl⟩ := sends_append hsent
  rw [List.map_append]
  exact (hsends front hfront).concat (hlast back hback)

theorem keeps_handed {start : VlessStream (Recorded S)}
    {past : List (Transition (VlessStream (Recorded S)) Call)} (hstart : start.Keeps [])
    (hrun : Run Step start past st) : st.Keeps (handed past) := by
  refine hrun.rule (fun past st => st.Keeps (handed past)) hstart ?_
  intro past last _ ih hstep
  rw [handed_concat]
  exact (keeps_of_step ih hstep).1

end VlessStream

end Peers

end AlphaRay
