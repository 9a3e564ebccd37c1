import AlphaRay.Protocol.Peers
import AlphaRay.Rustls.NullCipher

namespace AlphaRay

open Lib

namespace NullCipher

def goodbye : Record := ⟨.closeNotify, [2]⟩

-- Records that hold data only behind a hello, or at all if there already was one.
inductive Orderly : Prop → List Record → Prop
  | nil {greeted : Prop} : Orderly greeted []
  | hello {greeted : Prop} {records : List Record} : Orderly True records →
      Orderly greeted (hello :: records)
  | answer {greeted : Prop} {records : List Record} : Orderly greeted records →
      Orderly greeted (answer :: records)
  | data {greeted : Prop} {records : List Record} (b : UInt8) : greeted → Orderly greeted records →
      Orderly greeted (dataRecord b :: records)
  | goodbye {greeted : Prop} {records : List Record} : Orderly greeted records →
      Orderly greeted (goodbye :: records)

theorem Orderly.mono {p q : Prop} {records : List Record} (h : Orderly p records)
    (himp : p → q) : Orderly q records := by
  induction h generalizing q with
  | nil => exact .nil
  | hello h _ => exact .hello h
  | answer _ ih => exact .answer (ih himp)
  | data b hp _ ih => exact .data b (himp hp) (ih himp)
  | goodbye _ ih => exact .goodbye (ih himp)

theorem Orderly.append {p : Prop} {a b : List Record} (h : Orderly p a)
    (hb : Orderly (p ∨ NullCipher.hello ∈ a) b) : Orderly p (a ++ b) := by
  induction h with
  | nil => exact hb.mono (by simp)
  | hello _ ih => exact .hello (ih (hb.mono fun _ => .inl trivial))
  | answer _ ih =>
      exact .answer (ih (hb.mono (Or.imp_right fun h =>
        (List.mem_cons.mp h).resolve_left (by decide))))
  | data c hp _ ih => exact .data c hp (ih (hb.mono fun _ => .inl hp))
  | goodbye _ ih =>
      exact .goodbye (ih (hb.mono (Or.imp_right fun h =>
        (List.mem_cons.mp h).resolve_left (by decide))))

-- What follows the records of a front part.
theorem Orderly.rest {p : Prop} {a b : List Record} (h : Orderly p (a ++ b)) :
    Orderly (p ∨ NullCipher.hello ∈ a) b := by
  induction a generalizing p with
  | nil => exact h.mono .inl
  | cons record a ih =>
      cases h with
      | hello h => exact (ih h).mono fun _ => .inr List.mem_cons_self
      | answer h => exact (ih h).mono (Or.imp_right (List.mem_cons_of_mem _))
      | data c hp h => exact (ih h).mono (Or.imp_right (List.mem_cons_of_mem _))
      | goodbye h => exact (ih h).mono (Or.imp_right (List.mem_cons_of_mem _))

theorem orderly_data {p : Prop} (hp : p) (bytes : List UInt8) :
    Orderly p (bytes.map dataRecord) := by
  induction bytes with
  | nil => exact .nil
  | cons b bytes ih => exact .data b hp ih

-- What a session has made of its records.
structure Sane (c : NullCipher) : Prop where
  orderly : Orderly False c.records
  greeted : is_handshaking c = false ∨ c.server = false → hello ∈ c.records

variable {c : NullCipher}

theorem sane_new (server : Bool) (limit room : Nat) : Sane (new server limit room) := by
  cases server with
  | true => exact ⟨.nil, by simp [new, is_handshaking]⟩
  | false => exact ⟨.hello .nil, fun _ => List.mem_singleton_self _⟩

theorem Sane.emit (h : Sane c) {made : List Record} (hmade : Orderly (hello ∈ c.records) made) :
    Sane (c.emit made) :=
  ⟨h.orderly.append (hmade.mono .inr), fun hgreeted =>
    List.mem_append_left _ (h.greeted hgreeted)⟩

theorem Sane.receiveHello (h : Sane c) : Sane c.receiveHello := by
  cases hmode : c.mode with
  | traffic plaintext =>
      simp only [NullCipher.receiveHello, hmode]
      exact h.emit (.answer .nil)
  | handshake held =>
      simp only [NullCipher.receiveHello, hmode]
      cases hserver : c.server with
      | true =>
          simp only [if_true]
          refine ⟨(h.emit (.hello (orderly_data trivial held))).orderly, fun _ => ?_⟩
          simp [NullCipher.emit]
      | false =>
          have hmem := h.greeted (.inr hserver)
          simp only [Bool.false_eq_true, if_false]
          refine ⟨(h.emit (orderly_data hmem held)).orderly, fun _ => ?_⟩
          simp [NullCipher.emit, hmem]

-- What a session has become by absorbing bytes, and the records it took from them.
structure Absorbed (c : NullCipher) (bytes : List UInt8) (next : NullCipher) (more : List Record) :
    Prop where
  sane : Sane next
  decrypted : next.decrypted = c.decrypted ++ plainOf more
  greeted : is_handshaking c = false ∨ hello ∈ more → is_handshaking next = false
  pending : next.closed = false → bytes = cipherOf more ++ next.fragment ∧
    (next.fragment = [] ∨ next.fragment = [1])
  closed : next.closed = true → next.fragment = []

-- The records taken from a front part of `records`: there is no goodbye among them, and one
-- comes next when the session is closed.
structure UpTo (records done : List Record) (closed : Bool) : Prop where
  le : done <+: records
  not_mem : NullCipher.goodbye ∉ done
  next : closed = true → done ++ [NullCipher.goodbye] <+: records

theorem UpTo.nil {records : List Record} {closed : Bool} (hopen : closed = false) :
    UpTo records [] closed :=
  ⟨List.nil_prefix, List.not_mem_nil, fun hclosed => by cases hopen.symm.trans hclosed⟩

theorem UpTo.append {first records done : List Record} {closed : Bool}
    (h : UpTo records done closed) (hfirst : NullCipher.goodbye ∉ first) :
    UpTo (first ++ records) (first ++ done) closed := by
  refine ⟨(List.prefix_append_right_inj _).mpr h.le, ?_, fun hclosed => ?_⟩
  · exact fun hmem => (List.mem_append.mp hmem).elim hfirst h.not_mem
  · rw [List.append_assoc]
    exact (List.prefix_append_right_inj _).mpr (h.next hclosed)

theorem UpTo.cons {record : Record} {records done : List Record} {closed : Bool}
    (h : UpTo records done closed) (hne : NullCipher.goodbye ≠ record) :
    UpTo (record :: records) (record :: done) closed :=
  @UpTo.append [record] records done closed h (by simpa using hne)

theorem UpTo.mono {records more done : List Record} {closed : Bool} (h : UpTo records done closed)
    (hmore : records <+: more) : UpTo more done closed :=
  ⟨h.le.trans hmore, h.not_mem, fun hclosed => (h.next hclosed).trans hmore⟩

-- The bytes of orderly records are no error, whatever part of them there is.
theorem absorb_orderly {p : Prop} {todo : List Record} (h : Orderly p todo) (hsane : Sane c)
    (hmode : p → is_handshaking c = false) (hopen : c.closed = false) {bytes : List UInt8}
    (hbytes : bytes <+: cipherOf todo) :
    (absorb c bytes).1 = .ok () ∧ ∃ more, UpTo todo more (absorb c bytes).2.closed ∧
      Absorbed c bytes (absorb c bytes).2 more := by
  have hnone : ∀ c : NullCipher, Sane c → c.closed = false →
      Absorbed c [] { c with fragment := [] } [] := by
    intro c hsane hopen
    refine ⟨⟨hsane.orderly, hsane.greeted⟩, by simp, by simp [is_handshaking], fun _ => ?_,
      fun _ => rfl⟩
    exact ⟨rfl, .inl rfl⟩
  induction h generalizing c bytes with
  | nil =>
      obtain rfl := List.prefix_nil.mp hbytes
      exact ⟨rfl, [], .nil hopen, hnone c hsane hopen⟩
  | @hello _ records _ ih =>
      rcases List.prefix_cons_iff.mp hbytes with rfl | ⟨rest, rfl, hrest⟩
      · exact ⟨rfl, [], .nil hopen, hnone c hsane hopen⟩
      have htraffic : is_handshaking c.receiveHello = false := by
        cases hmode : c.mode <;> simp [NullCipher.receiveHello, is_handshaking, hmode, emit]
      have hopened : c.receiveHello.closed = false := by
        cases hmode : c.mode <;> simp [NullCipher.receiveHello, hmode, emit, hopen]
      have hdecrypted : c.receiveHello.decrypted = c.decrypted := by
        cases hmode : c.mode <;> simp [NullCipher.receiveHello, hmode, emit]
      obtain ⟨hok, more, hmore, h⟩ := ih hsane.receiveHello (fun _ => htraffic) hopened hrest
      rw [absorb]
      refine ⟨hok, NullCipher.hello :: more, hmore.cons (by decide), h.sane, ?_, ?_, ?_,
        h.closed⟩
      · rw [h.decrypted, hdecrypted]
        rfl
      · exact fun _ => h.greeted (.inl htraffic)
      · intro hnext
        obtain ⟨hpending, hfragment⟩ := h.pending hnext
        exact ⟨congrArg (0 :: ·) hpending, hfragment⟩
  | @answer _ records _ ih =>
      rcases List.prefix_cons_iff.mp hbytes with rfl | ⟨rest, rfl, hrest⟩
      · exact ⟨rfl, [], .nil hopen, hnone c hsane hopen⟩
      obtain ⟨hok, more, hmore, h⟩ := ih hsane hmode hopen hrest
      rw [absorb]
      refine ⟨hok, NullCipher.answer :: more, hmore.cons (by decide), h.sane,
        h.decrypted, ?_, ?_, h.closed⟩
      · exact fun hgreeted => h.greeted (hgreeted.imp_right fun h =>
          (List.mem_cons.mp h).resolve_left (by decide))
      · intro hnext
        obtain ⟨hpending, hfragment⟩ := h.pending hnext
        exact ⟨congrArg (4 :: ·) hpending, hfragment⟩
  | @data _ records b hp _ ih =>
      rcases List.prefix_cons_iff.mp hbytes with rfl | ⟨tail, rfl, htail⟩
      · exact ⟨rfl, [], .nil hopen, hnone c hsane hopen⟩
      have htail : tail <+: b :: cipherOf records := htail
      rcases List.prefix_cons_iff.mp htail with rfl | ⟨rest, rfl, hrest⟩
      · refine ⟨rfl, [], .nil hopen, ⟨hsane.orderly, hsane.greeted⟩, ?_, ?_, ?_, ?_⟩
        · simp [absorb]
        · exact fun hgreeted => hgreeted.elim id (by simp)
        · exact fun _ => ⟨rfl, .inr rfl⟩
        · exact fun hclosed => by simp [absorb, hopen] at hclosed
      · have htraffic := hmode hp
        obtain ⟨plain, hplain⟩ : ∃ plain, c.mode = .traffic plain := by
          cases hmode : c.mode with
          | handshake held => simp [is_handshaking, hmode] at htraffic
          | traffic plain => exact ⟨plain, rfl⟩
        have hread : Sane { c with
            mode := .traffic (plain ++ [b])
            decrypted := c.decrypted ++ [b] } :=
          ⟨hsane.orderly, fun _ => hsane.greeted (.inl htraffic)⟩
        obtain ⟨hok, more, hmore, h⟩ := ih hread (fun _ => rfl) hopen hrest
        rw [absorb]
        simp only [hplain]
        have hne : NullCipher.goodbye ≠ dataRecord b := by simp [dataRecord, NullCipher.goodbye]
        refine ⟨hok, dataRecord b :: more, hmore.cons hne, h.sane, ?_, ?_, ?_, h.closed⟩
        · rw [h.decrypted]
          simp [plainOf, dataRecord, Content.plain]
        · exact fun _ => h.greeted (.inl rfl)
        · intro hnext
          obtain ⟨hpending, hfragment⟩ := h.pending hnext
          exact ⟨congrArg (1 :: b :: ·) hpending, hfragment⟩
  | @goodbye _ records _ ih =>
      rcases List.prefix_cons_iff.mp hbytes with rfl | ⟨rest, rfl, hrest⟩
      · exact ⟨rfl, [], .nil hopen, hnone c hsane hopen⟩
      rw [absorb]
      refine ⟨rfl, [], ⟨List.nil_prefix, List.not_mem_nil, fun _ => ⟨records, rfl⟩⟩,
        ⟨hsane.orderly, hsane.greeted⟩, by simp, ?_, ?_, fun _ => rfl⟩
      · exact fun hgreeted => hgreeted.elim id (by simp)
      · exact fun hnext => by cases hnext

-- What a session has taken from the records of its peer.
structure Hears (fed : Fed NullCipher) (records : List Record) : Prop where
  sane : Sane fed.session
  taken : ∃ done, UpTo records done fed.session.closed ∧
    fed.session.decrypted = plainOf done ∧
    (hello ∈ done → is_handshaking fed.session = false) ∧
    (fed.session.closed = false → fed.arrived = cipherOf done ++ fed.session.fragment ∧
      (fed.settled = true → fed.session.fragment = [] ∨ fed.session.fragment = [1]))
  closed : fed.session.closed = true → fed.session.fragment = []

theorem Hears.mono {fed : Fed NullCipher} {records more : List Record} (h : Hears fed records)
    (hmore : records <+: more) : Hears fed more := by
  obtain ⟨done, hdone, htaken⟩ := h.taken
  exact ⟨h.sane, ⟨done, hdone.mono hmore, htaken⟩, h.closed⟩

theorem hears_new (server : Bool) (limit room : Nat) (records : List Record) :
    Hears (Fed.new (new server limit room)) records := by
  refine ⟨sane_new server limit room, ⟨[], ?_⟩, ?_⟩
  · cases server <;>
      exact ⟨.nil rfl, rfl, fun h => absurd h List.not_mem_nil, fun _ => ⟨rfl, fun _ => .inl rfl⟩⟩
  · cases server <;> exact fun h => by cases h

theorem hears_of_step {fed next : Fed NullCipher} {records : List Record} (h : Hears fed records)
    (horderly : Orderly False records) (hstep : fed.Step next)
    (harrived : next.arrived <+: cipherOf records) : Hears next records := by
  obtain ⟨done, hdone, hdecrypted, hgreeted, hpending⟩ := h.taken
  cases hstep with
  | sent n _ => exact ⟨⟨h.sane.orderly, h.sane.greeted⟩, h.taken, h.closed⟩
  | prepare_read =>
      have hsame : (Connection.prepare_read fed.session).2 = fed.session := by
        simp only [Connection.prepare_read, prepare_read]
        split_ifs <;> rfl
      rw [hsame]
      exact h
  | read room bytes hprepare hle =>
      obtain ⟨hopen, hsame⟩ : fed.session.closed = false ∧
          (Connection.prepare_read fed.session).2 = fed.session := by
        simp only [Connection.prepare_read, prepare_read] at hprepare ⊢
        split_ifs at hprepare ⊢ with hfull hclosed
        · cases hprepare
        · exact ⟨by simpa using hclosed, rfl⟩
      obtain ⟨hgiven, hfragment⟩ := hpending hopen
      rw [hsame]
      refine ⟨⟨h.sane.orderly, h.sane.greeted⟩, ⟨done, hdone, hdecrypted, hgreeted, fun _ => ?_⟩,
        fun hclosed => by cases hopen.symm.trans hclosed⟩
      refine ⟨?_, fun hsettled => ?_⟩
      · change fed.arrived ++ bytes = _ ++ (fed.session.fragment ++ bytes)
        rw [hgiven, List.append_assoc]
      · obtain ⟨hbefore, hempty⟩ := Bool.and_eq_true_iff.mp hsettled
        change fed.session.fragment ++ bytes = [] ∨ fed.session.fragment ++ bytes = [1]
        rw [List.isEmpty_iff.mp hempty, List.append_nil]
        exact hfragment hbefore
  | process_new_packets =>
      change Hears ⟨(absorb fed.session fed.session.fragment).2, fed.arrived,
        (absorb fed.session fed.session.fragment).1.toBool⟩ records
      cases hclosed : fed.session.closed with
      | true =>
          have hempty := h.closed hclosed
          have hnext : (absorb fed.session fed.session.fragment).2 = fed.session := by
            rw [hempty, absorb, ← hempty]
          refine ⟨?_, ?_, ?_⟩ <;> simp only [hnext]
          · exact h.sane
          · exact ⟨done, hdone, hdecrypted, hgreeted, fun hopen => by
              cases hopen.symm.trans hclosed⟩
          · exact h.closed
      | false =>
          obtain ⟨hgiven, -⟩ := hpending hclosed
          obtain ⟨todo, rfl⟩ := hdone.le
          have hfragment : fed.session.fragment <+: cipherOf todo := by
            have hfront : fed.arrived <+: cipherOf (done ++ todo) := harrived
            rwa [hgiven, cipherOf_append, List.prefix_append_right_inj] at hfront
          obtain ⟨-, more, hmore, habsorbed⟩ := absorb_orderly horderly.rest h.sane
            (fun hmem => hgreeted (hmem.resolve_left id)) hclosed hfragment
          refine ⟨habsorbed.sane, ⟨done ++ more, hmore.append hdone.not_mem, ?_, ?_,
            fun hopen => ?_⟩, habsorbed.closed⟩
          · rw [habsorbed.decrypted, hdecrypted, plainOf_append]
          · intro hmem
            exact habsorbed.greeted ((List.mem_append.mp hmem).imp_left hgreeted)
          · obtain ⟨hbytes, hrest⟩ := habsorbed.pending hopen
            refine ⟨?_, fun _ => hrest⟩
            calc fed.arrived = cipherOf done ++ fed.session.fragment := hgiven
              _ = cipherOf done ++ (cipherOf more ++ _) := congrArg _ hbytes
              _ = cipherOf (done ++ more) ++ _ := by rw [cipherOf_append, List.append_assoc]
  | reader_read len =>
      have hread : ∃ mode, (Connection.reader_read fed.session len).2 =
          { fed.session with mode := mode } ∧
          is_handshaking { fed.session with mode := mode } = is_handshaking fed.session := by
        simp only [Connection.reader_read, reader_read]
        split
        · rename_i hmode
          exact ⟨_, rfl, by simp [is_handshaking, hmode]⟩
        · split_ifs <;> exact ⟨fed.session.mode, rfl, rfl⟩
      obtain ⟨mode, hsession, hmode⟩ := hread
      rw [hsession]
      exact ⟨⟨h.sane.orderly, fun hgo => h.sane.greeted (by rwa [hmode] at hgo)⟩,
        ⟨done, hdone, hdecrypted, fun hmem => hmode.trans (hgreeted hmem), hpending⟩, h.closed⟩
  | writer_write bytes =>
      cases hmode : fed.session.mode with
      | handshake held =>
          have hopen : is_handshaking fed.session = true := by simp [is_handshaking, hmode]
          simp only [Connection.writer_write, NullCipher.writer_write, hmode]
          refine ⟨⟨h.sane.orderly, fun hgo => h.sane.greeted (hgo.imp_left fun hgo => ?_)⟩,
            ⟨done, hdone, hdecrypted, fun hmem => ?_, hpending⟩, h.closed⟩
          · cases hgo
          · cases hopen.symm.trans (hgreeted hmem)
      | traffic plaintext =>
          have hopen : is_handshaking fed.session = false := by simp [is_handshaking, hmode]
          simp only [Connection.writer_write, NullCipher.writer_write, hmode]
          exact ⟨h.sane.emit (orderly_data (h.sane.greeted (.inl hopen)) _),
            ⟨done, hdone, hdecrypted, hgreeted, hpending⟩, h.closed⟩
  | send_close_notify =>
      simp only [Connection.send_close_notify]
      split
      · exact h
      · exact ⟨h.sane.emit (.goodbye .nil), h.taken, h.closed⟩

theorem eq_nil_of_fragment {p : Prop} {records : List Record} (h : Orderly p records) :
    cipherOf records = [] ∨ cipherOf records = [1] → records = [] := by
  cases h with
  | nil => exact fun _ => rfl
  | hello _ | answer _ | goodbye _ =>
      rintro (h | h)
      · cases h
      · cases h
  | data b _ _ =>
      rintro (h | h)
      · cases h
      · cases h

-- Two sessions that talk to each other keep the promise of TLS.
theorem secure_new (limit room limit' room' : Nat) :
    Fed.Secure (new false limit room) (new true limit' room') := by
  have htogether : ∀ feds, Fed.Together (new false limit room) (new true limit' room') feds →
      ∀ side, Hears (feds side) (feds side.peer).session.records := by
    intro feds h
    induction h with
    | refl =>
        intro side
        cases side with
        | client => exact hears_new false limit room _
        | server => exact hears_new true limit' room' _
    | @tail feds after _ hstep ih =>
        obtain ⟨⟨i, _⟩, next, hnext, harrived, rfl⟩ := hstep
        have hself : Hears next (feds i.peer).session.records :=
          hears_of_step (ih i) (ih i.peer).sane.orderly hnext harrived
        have hpeer : Hears (feds i.peer) next.session.records := by
          have hbefore := ih i.peer
          rw [Side.peer_peer] at hbefore
          exact hbefore.mono (Fed.records_of_step hnext)
        refine Side.forall_of i ?_ ?_
        · rwa [Function.update_self, Function.update_of_ne i.peer_ne]
        · rwa [Side.peer_peer, Function.update_self, Function.update_of_ne i.peer_ne]
  constructor
  · intro feds h side
    obtain ⟨done, hupto, hdecrypted, -⟩ := (htogether feds h side).taken
    obtain ⟨todo, hdone⟩ := hupto.le
    refine ⟨plainOf todo, ?_⟩
    change (feds side).session.decrypted ++ plainOf todo = plainOf (feds side.peer).session.records
    rw [← hdone, plainOf_append, hdecrypted]
  · intro feds h side hsettled harrived hclosed
    obtain ⟨done, hupto, hdecrypted, -, hpending⟩ := (htogether feds h side).taken
    obtain ⟨todo, hdone⟩ := hupto.le
    obtain ⟨hgiven, hfragment⟩ := hpending hclosed
    have hall : (feds side).arrived = cipherOf (feds side.peer).session.records := harrived
    have horderly := (htogether feds h side.peer).sane.orderly
    rw [← hdone] at hall horderly
    rw [hgiven, cipherOf_append, List.append_cancel_left_eq] at hall
    have hnone : todo = [] := eq_nil_of_fragment horderly.rest (hall ▸ hfragment hsettled)
    change (feds side).session.decrypted = plainOf (feds side.peer).session.records
    rw [hdecrypted, ← hdone, hnone, List.append_nil]

theorem hears_of_steps {first fed : Fed NullCipher} {records : List Record}
    (h : Hears first records) (horderly : Orderly False records) (hsteps : first.Steps fed)
    (harrived : fed.arrived <+: cipherOf records) : Hears fed records := by
  induction hsteps with
  | refl => exact h
  | tail _ hlast ih =>
      obtain ⟨_, hstep⟩ := hlast
      exact hears_of_step (ih ((Fed.arrived_of_step hstep).trans harrived)) horderly hstep harrived

-- A client's hello, its data and its goodbye.
def farewell (s : List UInt8) : List Record := (hello :: s.map dataRecord) ++ [goodbye]

theorem orderly_farewell (s : List UInt8) : Orderly False (farewell s) :=
  .append (.hello (orderly_data trivial s)) (.goodbye .nil)

theorem plainOf_farewell (s : List UInt8) : plainOf (farewell s) = s := by
  have hdata : plainOf (s.map dataRecord) = s := by
    induction s with
    | nil => rfl
    | cons b s ih => exact congrArg (b :: ·) ih
  rw [farewell, plainOf_append]
  change plainOf (s.map dataRecord) ++ [] = s
  rw [List.append_nil, hdata]

-- What comes up to the goodbye is everything else.
theorem UpTo.eq_of_next {s : List UInt8} {done : List Record}
    (h : done ++ [goodbye] <+: farewell s) : done = hello :: s.map dataRecord := by
  have hnone : goodbye ∉ NullCipher.hello :: s.map dataRecord := by
    simp [goodbye, NullCipher.hello, dataRecord]
  obtain ⟨rest, hrest⟩ := h
  rw [farewell, List.append_assoc] at hrest
  rcases List.append_eq_append_iff.mp hrest with ⟨more, hfront, hback⟩ | ⟨more, hdone, hback⟩
  · cases more with
    | nil => rw [hfront, List.append_nil]
    | cons record more =>
        obtain ⟨rfl, -⟩ := List.cons.inj hback
        exact absurd (hfront ▸ List.mem_append_right _ List.mem_cons_self) hnone
  · cases more with
    | nil => rw [hdone, List.append_nil]
    | cons record more =>
        have hlength := congrArg List.length hback
        simp at hlength

-- A server is given everything that a client sends before it closes.
theorem conveys_new (limit room : Nat) (s : List UInt8) :
    Fed.Conveys (new true limit room) (cipherOf (farewell s)) s := by
  have hears : ∀ fed, (Fed.new (new true limit room)).Steps fed →
      fed.arrived <+: cipherOf (farewell s) → Hears fed (farewell s) :=
    fun fed => hears_of_steps (hears_new true limit room _) (orderly_farewell s)
  constructor
  · intro fed hsteps harrived
    obtain ⟨hsane, ⟨done, hupto, -, hgreeted, hpending⟩, hclosed⟩ := hears fed hsteps harrived
    change (absorb fed.session fed.session.fragment).1 = .ok ()
    cases hopen : fed.session.closed with
    | true => rw [hclosed hopen, absorb]
    | false =>
        obtain ⟨hgiven, -⟩ := hpending hopen
        obtain ⟨todo, htodo⟩ := hupto.le
        have horderly := orderly_farewell s
        rw [← htodo] at horderly harrived
        rw [hgiven, cipherOf_append, List.prefix_append_right_inj] at harrived
        exact (absorb_orderly horderly.rest hsane (fun hmem => hgreeted (hmem.resolve_left id))
          hopen harrived).1
  · intro fed hsteps harrived hsettled hplain
    have hfits : ¬ fed.session.room < fed.session.plaintext.length := by
      have hnil : fed.session.plaintext = [] := hplain
      rw [hnil]
      exact Nat.not_lt_zero _
    change ∃ room, (prepare_read fed.session).1 = .ok room
    unfold prepare_read
    rw [if_neg hfits]
    split
    · exact ⟨none, rfl⟩
    · exact ⟨some 16, rfl⟩
  · intro fed hsteps harrived
    obtain ⟨-, ⟨done, hupto, hdecrypted, -⟩, -⟩ := hears fed hsteps harrived
    obtain ⟨todo, htodo⟩ := hupto.le
    change fed.session.decrypted <+: s
    refine ⟨plainOf todo, ?_⟩
    rw [hdecrypted, ← plainOf_append, htodo, plainOf_farewell]
  · intro fed hsteps harrived hclosed
    obtain ⟨-, ⟨done, hupto, hdecrypted, -⟩, -⟩ := hears fed hsteps harrived
    have hall := plainOf_farewell s
    rw [farewell, plainOf_append, ← UpTo.eq_of_next (hupto.next hclosed)] at hall
    change fed.session.decrypted = s
    rw [hdecrypted, ← hall]
    exact (List.append_nil _).symm
  · intro fed hsteps harrived hsettled
    obtain ⟨-, ⟨done, hupto, -, -, hpending⟩, -⟩ := hears fed hsteps (harrived ▸ List.prefix_rfl)
    change fed.session.closed = true
    by_contra hopen
    obtain ⟨hgiven, hfragment⟩ := hpending (by simpa using hopen)
    obtain ⟨todo, htodo⟩ := hupto.le
    have horderly := orderly_farewell s
    rw [← htodo] at horderly harrived
    rw [hgiven, cipherOf_append, List.append_cancel_left_eq] at harrived
    have hnone : todo = [] := eq_nil_of_fragment horderly.rest (harrived ▸ hfragment hsettled)
    refine hupto.not_mem ?_
    rw [hnone, List.append_nil] at htodo
    rw [htodo]
    exact List.mem_append_right _ List.mem_cons_self

theorem newSession_new (server : Bool) (limit room : Nat) :
    NewSession (new server limit room) := by
  refine ⟨fresh_new server limit room, ?_⟩
  cases server <;> rfl

-- The sessions of a client and of a server.
def newPair : Side → NullCipher := Side.pick (new false 64 64) (new true 64 64)

theorem newSession_newPair (side : Side) : NewSession (newPair side) := by
  cases side with
  | client => exact newSession_new false 64 64
  | server => exact newSession_new true 64 64

end NullCipher

end AlphaRay
