import AlphaRay.Protocol.VisionTls.RoundTrip

namespace AlphaRay

open Lib

namespace Phase

theorem settle_ne_failed (content padding : Nat) (command : VisionCommand) :
    settle content padding command ≠ .failed := by
  unfold settle
  split_ifs
  · cases command <;> exact Phase.noConfusion
  · exact Phase.noConfusion

end Phase

namespace VisionTlsStream

variable {S C R : Type} {st next : VisionTlsStream S C R}

-- What the reader makes of a wire, and what it will make of the bytes in `read_buf`.
def decoded (st : VisionTlsStream S C R) (wire : List UInt8) : Phase × List UInt8 :=
  transduce (Phase.step st.state.ids) (phase st) wire

def outlook (st : VisionTlsStream S C R) : Phase × List UInt8 := decoded st st.read_buf

theorem phase_ne_failed (st : VisionTlsStream S C R) : phase st ≠ .failed := by
  unfold phase
  split
  · exact Phase.noConfusion
  · cases st.state.stage with
    | Id => cases st.state.is_server <;> exact Phase.noConfusion
    | Header => exact Phase.noConfusion
    | Content => exact Phase.settle_ne_failed _ _ _
    | Padding => exact Phase.settle_ne_failed _ _ _

theorem outlook_of_starved (h : starved st) :
    (outlook st).1 ≠ .failed ∧ (outlook st).2 = [] := by
  unfold outlook decoded
  rcases h with hnil | ⟨hdirect, ⟨hstage, hserver, hlen⟩ | ⟨hstage, hlen⟩⟩
  · rw [hnil, transduce_nil]
    exact ⟨phase_ne_failed st, rfl⟩
  · have hphase : phase st = .id [] := by simp [phase, hdirect, hstage, hserver]
    rw [hphase, Phase.transduce_id_lt _ _ _ (by simpa using hlen)]
    exact ⟨Phase.noConfusion, rfl⟩
  · have hphase : phase st = .header [] := by simp [phase, hdirect, hstage]
    rw [hphase, Phase.transduce_header_lt _ _ _ (by simpa using hlen)]
    exact ⟨Phase.noConfusion, rfl⟩

theorem outlook_of_rejected {e : IoError} (h : rejected st e) :
    outlook st = (.failed, []) ∧ e = ⟨.InvalidData, "invalid command"⟩ := by
  obtain ⟨hdirect, hstage, hlen, hcommand⟩ := h
  have hphase : phase st = .header [] := by simp [phase, hdirect, hstage]
  have hfailed : Phase.ofHeader (st.read_buf.take 5) = .failed := by
    rw [Phase.ofHeader_take]
    simp only [Phase.ofHeader, hcommand]
  have hheader := Phase.transduce_header st.state.ids (st.read_buf.take 5) (by simp [hlen])
  constructor
  · unfold outlook decoded
    rw [hphase, ← List.take_append_drop 5 st.read_buf, transduce_append, hheader, hfailed,
      Phase.transduce_failed]
    rfl
  · unfold VisionCommand.try_from at hcommand
    split_ifs at hcommand
    exact (Except.error.inj hcommand).symm

-- The next byte in `read_buf` is content, and waits for room.
structure Withholds (st : VisionTlsStream S C R) : Prop where
  read_buf_ne_nil : st.read_buf ≠ []
  content : st.state.read_direct_copy = true ∨ st.state.read_direct_copy = false ∧
    st.state.stage = .Content ∧ 0 < st.state.remaining_content_len

theorem Withholds.outlook_ne_nil (h : Withholds st) : (outlook st).2 ≠ [] := by
  unfold outlook decoded
  rcases h.content with hdirect | ⟨hdirect, hstage, hpos⟩
  · rw [phase_direct hdirect, Phase.transduce_direct]
    exact h.read_buf_ne_nil
  · obtain ⟨b, rest, hbuf⟩ := List.exists_cons_of_ne_nil h.read_buf_ne_nil
    have hphase : phase st = .settle st.state.remaining_content_len
        st.state.remaining_padding_len st.state.command := by
      simp [phase, hdirect, hstage]
    have hfirst := Phase.transduce_content st.state.ids [b] st.state.remaining_content_len
      st.state.remaining_padding_len st.state.command hpos
    rw [hbuf, hphase, ← List.singleton_append, transduce_append, hfirst]
    simp

-- The loop is left without an error only where nothing can be eaten, or where content
-- waits for room.
theorem withholds_of_leave {buf out : ReadBuf} {n m : Nat}
    (h : unframe_pass (st, buf, n) = .leave (.ok m, next, out)) : starved next ∨ Withholds next := by
  simp only [unframe_pass] at h
  split at h
  · rename_i hnil
    cases h
    exact .inl (.inl hnil)
  rename_i hne
  split at h
  · rename_i hdirect
    split at h <;> cases h
    exact .inr ⟨hne, .inl hdirect⟩
  rename_i hdirect
  have hdirect : st.state.read_direct_copy = false := by simpa using hdirect
  cases hs : st.state.stage <;> simp only [hs] at h
  case Id =>
    split at h
    · rename_i hserver
      split at h
      · rename_i hlen
        cases h
        exact .inl (.inr ⟨hdirect, .inl ⟨hs, hserver, hlen⟩⟩)
      · split at h <;> cases h
    · cases h
  case Header =>
    split at h
    · rename_i hlen
      cases h
      exact .inl (.inr ⟨hdirect, .inr ⟨hs, hlen⟩⟩)
    · split at h <;> cases h
  case Content =>
    split at h
    · cases h
    · split at h
      · rename_i hfull
        cases h
        by_cases hnil : st.read_buf.drop
            (min (min st.read_buf.length st.state.remaining_content_len) buf.remaining) = []
        · exact .inl (.inl hnil)
        · exact .inr ⟨hnil, .inr ⟨hdirect, rfl, hfull.2⟩⟩
      · cases h
  case Padding =>
    split at h
    · cases hc : st.state.command <;> simp only [hc] at h <;> cases h
    · rename_i hleft
      cases h
      have hnil : st.read_buf.drop
          (min st.read_buf.length st.state.remaining_padding_len) = [] := by
        rw [List.drop_eq_nil_iff]
        omega
      exact .inl (.inl hnil)

theorem withholds_of_unframe {buf : ReadBuf} {n : Nat} (hroom : 0 < buf.remaining)
    (h : (unframe_read_buf st buf).1 = .ok n) :
    starved (unframe_read_buf st buf).2.1 ∨ Withholds (unframe_read_buf st buf).2.1 := by
  have hzero : buf.remaining ≠ 0 := by omega
  obtain ⟨result, hresult⟩ := Option.isSome_iff_exists.mp (unframe_ends st buf)
  simp only [unframe_read_buf, hzero, if_false, hresult, Option.get_some] at h ⊢
  refine loop_rule (fun _ => True) (fun result => ∀ n, result.1 = .ok n →
    starved result.2.1 ∨ Withholds result.2.1) (fun _ _ _ _ => trivial) ?_ trivial hresult n h
  rintro ⟨st', buf', n'⟩ ⟨result, next, out⟩ - hpass m hok
  obtain rfl : result = .ok m := hok
  exact withholds_of_leave (Option.some.inj hpass)

-- What a call hands out, and how it ends, in terms of what the reader makes of `read_buf`.
structure Decodes (st : VisionTlsStream S C R) (buf : ReadBuf) (result : IoResult Nat)
    (next : VisionTlsStream S C R) (put : List UInt8) : Prop where
  eats : Eats (Phase.step st.state.ids) (phase st) st.read_buf (phase next) next.read_buf put
  reads : Reads st next
  count : ∀ n, result = .ok n → n = put.length
  fits : put.length ≤ buf.remaining
  shrinks : put.length + next.read_buf.length ≤ st.read_buf.length
  of_error : ∀ e, result = .error e → e = ⟨.InvalidData, "invalid command"⟩ ∧
    0 < buf.remaining ∧ outlook st = (.failed, put)
  of_ok : ∀ n, result = .ok n → 0 < buf.remaining → (outlook st).1 = .failed →
    buf.remaining < (outlook st).2.length
  of_idle : result = .ok 0 → 0 < buf.remaining →
    (outlook st).1 ≠ .failed ∧ (outlook st).2 = []

theorem Unframes.outlook_eq {buf buf' : ReadBuf} {n n' : Nat} {out : List UInt8}
    (h : Unframes st buf n next buf' n' out) :
    outlook st = ((outlook next).1, out ++ (outlook next).2) := by
  have heats := h.eats []
  rw [List.append_nil, List.append_nil] at heats
  rw [outlook, outlook, decoded, decoded, h.reads.setup.ids]
  exact heats

theorem unframe_read_buf_decodes (st : VisionTlsStream S C R) (buf : ReadBuf) :
    ∃ put, (unframe_read_buf st buf).2.2 = buf.put_slice put ∧
      Decodes st buf (unframe_read_buf st buf).1 (unframe_read_buf st buf).2.1 put := by
  obtain ⟨n, put, hu, hwhy⟩ := unframe_read_buf_spec st buf
  have hcount : n = put.length := by simpa using hu.count
  have houtlook := hu.outlook_eq
  refine ⟨put, hu.put, hu.eats, hu.reads, ?_, hu.fits, hu.shrinks, ?_, ?_, ?_⟩
  · intro m hok
    rcases hwhy with ⟨hn, -⟩ | ⟨e, he, -⟩
    · have hm := Except.ok.inj (hn.symm.trans hok)
      omega
    · rw [he] at hok
      cases hok
  · intro e herror
    rcases hwhy with ⟨hn, -⟩ | ⟨e', he, hrejected⟩
    · rw [hn] at herror
      cases herror
    · obtain ⟨hfailed, hinvalid⟩ := outlook_of_rejected hrejected
      refine ⟨(Except.error.inj (he.symm.trans herror)) ▸ hinvalid, ?_, ?_⟩
      · by_contra hfull
        have hzero : buf.remaining = 0 := by omega
        simp only [unframe_read_buf, hzero, if_true] at he
        cases he
      · rw [houtlook, hfailed, List.append_nil]
  · intro m hok hroom hfailed
    rw [houtlook] at hfailed ⊢
    rcases withholds_of_unframe hroom hok with hstarved | hwithholds
    · exact absurd hfailed (outlook_of_starved hstarved).1
    · have hmore := List.length_pos_of_ne_nil hwithholds.outlook_ne_nil
      rcases hwhy with ⟨-, hfull | hstarved⟩ | ⟨e, he, -⟩
      · rw [hu.put, ReadBuf.put_slice_remaining] at hfull
        simp only [List.length_append]
        omega
      · exact absurd hfailed (outlook_of_starved hstarved).1
      · rw [he] at hok
        cases hok
  · intro hok hroom
    rcases hwhy with ⟨hn, hstop⟩ | ⟨e, he, -⟩
    · have hnone : put.length = 0 := hcount.symm.trans (Except.ok.inj (hn.symm.trans hok))
      rcases hstop with hfull | hstarved
      · rw [hu.put, ReadBuf.put_slice_remaining] at hfull
        omega
      · rw [houtlook, List.length_eq_zero_iff.mp hnone, List.nil_append]
        exact outlook_of_starved hstarved
    · rw [he] at hok
      cases hok

-- Behind content that fits into the room of the call stands a malformed header.
structure Exposed (st : VisionTlsStream S C R) (buf : ReadBuf) : Prop where
  malformed : (outlook st).1 = .failed
  content_ne_nil : (outlook st).2 ≠ []
  fits : (outlook st).2.length ≤ buf.remaining

theorem Decodes.silent_iff {buf : ReadBuf} {result : IoResult Nat} {put : List UInt8}
    (h : Decodes st buf result next put) :
    (∀ e, result = .error e → put = []) ↔ ¬ Exposed st buf := by
  constructor
  · rintro hsilent ⟨hfailed, hne, hfits⟩
    have hpos := List.length_pos_of_ne_nil hne
    rcases result with e | n
    · have hput := (h.of_error e rfl).2.2
      rw [hput] at hne
      exact hne (hsilent e rfl)
    · have hlt := h.of_ok n rfl (by omega) hfailed
      omega
  · intro hclear e herror
    have hput := (h.of_error e herror).2.2
    by_contra hne
    refine hclear ⟨?_, ?_, ?_⟩
    · rw [hput]
    · rw [hput]
      exact hne
    · rw [hput]
      exact h.fits

theorem unframe_calls_end (st : VisionTlsStream S C R) (capacities : Nat → Nat) :
    ∃ k ≤ st.read_buf.length,
      ((st.unframe_calls capacities k).unframe_read_buf (.new (capacities k))).1 = .ok 0 ∨
      ∃ e, ((st.unframe_calls capacities k).unframe_read_buf (.new (capacities k))).1 =
        .error e := by
  obtain ⟨k, hk, -, hend⟩ :=
    unframe_calls_last (fun _ _ (h : True) => h) st trivial capacities
  refine ⟨k, hk, ?_⟩
  rcases hresult : ((st.unframe_calls capacities k).unframe_read_buf (.new (capacities k))).1
    with e | n
  · exact .inr ⟨e, rfl⟩
  · exact .inl (by rw [hend n hresult])

end VisionTlsStream

-- Bytes arrive in `read_buf`, and it is decoded into a buffer of the caller's.
inductive DecoderCall where
  | arrive (bytes : List UInt8)
  | unframe (buf : ReadBuf) (result : IoResult Nat) (put : List UInt8)

namespace DecoderCall

def arrived : DecoderCall → List UInt8
  | arrive bytes => bytes
  | unframe _ _ _ => []

-- What a call that returned `Ok` handed out.
def delivered : DecoderCall → List UInt8
  | unframe _ (.ok _) put => put
  | _ => []

end DecoderCall

namespace VisionTlsStream

variable {S C R : Type}

inductive DecoderStep :
    VisionTlsStream S C R → DecoderCall → VisionTlsStream S C R → Prop
  | arrive (st : VisionTlsStream S C R) (bytes : List UInt8) :
      DecoderStep st (.arrive bytes) { st with read_buf := st.read_buf ++ bytes }
  | unframe (st : VisionTlsStream S C R) (buf : ReadBuf) (result : IoResult Nat)
      (next : VisionTlsStream S C R) (out : ReadBuf)
      (hcall : st.unframe_read_buf buf = (result, next, out)) :
      DecoderStep st (.unframe buf result (out.filled.drop buf.filled.length)) next

theorem decodes_of_step {st next : VisionTlsStream S C R} {buf : ReadBuf} {result : IoResult Nat}
    {put : List UInt8} (h : DecoderStep st (.unframe buf result put) next) :
    Decodes st buf result next put := by
  cases h with
  | unframe _ _ _ out hcall =>
      obtain ⟨put, hput, hdecodes⟩ := unframe_read_buf_decodes st buf
      rw [hcall] at hput hdecodes
      obtain rfl : out = buf.put_slice put := hput
      rwa [ReadBuf.put_slice_filled, List.drop_left]

abbrev DecoderRun (S C R : Type) := List (Transition (VisionTlsStream S C R) DecoderCall)

def arrived (past : DecoderRun S C R) : List UInt8 := past.flatMap (·.label.arrived)

def delivered (past : DecoderRun S C R) : List UInt8 := past.flatMap (·.label.delivered)

@[simp] theorem arrived_concat (past : DecoderRun S C R)
    (last : Transition (VisionTlsStream S C R) DecoderCall) :
    arrived (past ++ [last]) = arrived past ++ last.label.arrived := by
  simp [arrived]

@[simp] theorem delivered_concat (past : DecoderRun S C R)
    (last : Transition (VisionTlsStream S C R) DecoderCall) :
    delivered (past ++ [last]) = delivered past ++ last.label.delivered := by
  simp [delivered]

-- What a call owes to the wire that has arrived before it.
structure Honours (start : VisionTlsStream S C R) (before : DecoderRun S C R) (buf : ReadBuf)
    (result : IoResult Nat) (put : List UInt8) : Prop where
  count : ∀ n, result = .ok n → n = put.length
  of_error : ∀ e, result = .error e → put = [] ∧ e = ⟨.InvalidData, "invalid command"⟩ ∧
    decoded start (arrived before) = (.failed, delivered before)
  of_idle : result = .ok 0 → 0 < buf.remaining →
    (decoded start (arrived before)).1 ≠ .failed ∧
    (decoded start (arrived before)).2 = delivered before

-- Nothing is lost or made up, and every call of the run honours that.
structure Faithful (start : VisionTlsStream S C R) (past : DecoderRun S C R) : Prop where
  delivered_prefix : delivered past <+: (decoded start (arrived past)).2
  calls : ∀ before t after, past = before ++ t :: after → ∀ buf result put,
    t.label = .unframe buf result put → Honours start before buf result put

def ClearCall (t : Transition (VisionTlsStream S C R) DecoderCall) : Prop :=
  ∀ buf result put, t.label = .unframe buf result put → ¬ Exposed t.before buf

def AllClear (past : DecoderRun S C R) : Prop := ∀ t ∈ past, ClearCall t

-- The stream has made of the bytes that arrived what the calls handed out.
structure Decoding (start : VisionTlsStream S C R) (past : DecoderRun S C R)
    (st : VisionTlsStream S C R) : Prop where
  ids : st.state.ids = start.state.ids
  eats : Eats (Phase.step start.state.ids) (phase start) (arrived past) (phase st) st.read_buf
    (delivered past)

theorem Decoding.decoded_eq {start st : VisionTlsStream S C R} {past : DecoderRun S C R}
    (h : Decoding start past st) :
    decoded start (arrived past) = ((outlook st).1, delivered past ++ (outlook st).2) := by
  have heats := h.eats []
  rw [List.append_nil, List.append_nil] at heats
  rw [outlook, decoded, decoded, h.ids]
  exact heats

theorem decoding_of_run {start st : VisionTlsStream S C R} {past : DecoderRun S C R}
    (hstart : start.read_buf = []) (hrun : Run DecoderStep start past st)
    (hclear : AllClear past) : Decoding start past st := by
  refine hrun.rule_of_forall ClearCall (Decoding start) ⟨rfl, ?_⟩ ?_ hclear
  · rw [hstart]
    exact .refl
  · intro past last _ h hstep hlast
    obtain ⟨hids, heats⟩ := h
    obtain ⟨st, label, next⟩ := last
    dsimp only at hids heats hstep
    cases label with
    | arrive bytes =>
        cases hstep
        refine ⟨hids, ?_⟩
        rw [arrived_concat, delivered_concat]
        exact (List.append_nil (delivered past)).symm ▸ heats.arrive bytes
    | unframe buf result put =>
        have hdecodes := decodes_of_step hstep
        have hsilent := hdecodes.silent_iff.mpr (hlast buf result put rfl)
        have hput : (DecoderCall.unframe buf result put).delivered = put := by
          rcases result with e | n
          · exact (hsilent e rfl).symm
          · rfl
        have hmore := hdecodes.eats
        rw [hids] at hmore
        refine ⟨hdecodes.reads.setup.ids.trans hids, ?_⟩
        rw [arrived_concat, delivered_concat, hput]
        exact (List.append_nil (arrived past)).symm ▸ heats.trans hmore

theorem honours_of_decoding {start st next : VisionTlsStream S C R} {before : DecoderRun S C R}
    {buf : ReadBuf} {result : IoResult Nat} {put : List UInt8} (h : Decoding start before st)
    (hstep : DecoderStep st (.unframe buf result put) next) (hclear : ¬ Exposed st buf) :
    Honours start before buf result put := by
  have hdecodes := decodes_of_step hstep
  have hdecoded := h.decoded_eq
  refine ⟨hdecodes.count, ?_, ?_⟩
  · intro e herror
    obtain ⟨hinvalid, -, houtlook⟩ := hdecodes.of_error e herror
    have hput := hdecodes.silent_iff.mpr hclear e herror
    rw [hdecoded, houtlook, hput, List.append_nil]
    exact ⟨rfl, hinvalid, rfl⟩
  · intro hidle hroom
    obtain ⟨hfine, hnone⟩ := hdecodes.of_idle hidle hroom
    rw [hdecoded, hnone, List.append_nil]
    exact ⟨hfine, rfl⟩

theorem faithful_iff {start st : VisionTlsStream S C R} {past : DecoderRun S C R}
    (hstart : start.read_buf = []) (hrun : Run DecoderStep start past st) :
    Faithful start past ↔ AllClear past := by
  constructor
  · rintro hfaithful t ht buf result put hlabel
    obtain ⟨before, after, hpast⟩ := List.append_of_mem ht
    rw [hpast] at hrun
    have hstep := hrun.split.2
    rw [hlabel] at hstep
    refine (decodes_of_step hstep).silent_iff.mp fun e herror => ?_
    exact ((hfaithful.calls before t after hpast buf result put hlabel).of_error e herror).1
  · intro hclear
    refine ⟨?_, ?_⟩
    · rw [(decoding_of_run hstart hrun hclear).decoded_eq]
      exact List.prefix_append _ _
    · intro before t after hpast buf result put hlabel
      have hmem : t ∈ past := by simp [hpast]
      have hbefore : AllClear before := fun t' ht' => hclear t' (by simp [hpast, ht'])
      rw [hpast] at hrun
      obtain ⟨hrun, hstep⟩ := hrun.split
      rw [hlabel] at hstep
      exact honours_of_decoding (decoding_of_run hstart hrun hbefore) hstep
        (hclear t hmem buf result put hlabel)

end VisionTlsStream

open VisionTlsStream

-- The decoder hands out all that stands before a malformed header and only then reports
-- it, if and only if no call meets both within the room of its buffer.
theorem vision_malformed_iff {S C R : Type} [Connection C] (inner : S) (session : C)
    (ids : List Uuid) (rng : R) (padding : PaddingConfig) (past : DecoderRun S C R)
    (st : VisionTlsStream S C R)
    (hrun : Run DecoderStep (.new inner session ids rng padding) past st) :
    (Faithful (.new inner session ids rng padding) past ↔ AllClear past) ∧
    ∀ capacities : Nat → Nat, ∃ k ≤ st.read_buf.length,
      ((st.unframe_calls capacities k).unframe_read_buf (.new (capacities k))).1 = .ok 0 ∨
      ∃ e, ((st.unframe_calls capacities k).unframe_read_buf (.new (capacities k))).1 =
        .error e :=
  ⟨faithful_iff rfl hrun, unframe_calls_end st⟩

-- A client's decoder, a frame with one byte of content, and a header with no command.
def decodingClient : VisionTlsStream Scripted NullCipher Lowest :=
  .new ⟨[], []⟩ (.new false 64 64) [idOfSevens] ⟨⟩ paddingOfThree

def frameOfNine : List UInt8 := [0, 0, 1, 0, 0, 9]

def badHeader : List UInt8 := [7, 0, 0, 0, 0]

-- When both have arrived, the call that puts the byte returns the error.
theorem vision_malformed_loses_a_byte : ∃ past st,
    Run DecoderStep decodingClient past st ∧
    past.map (·.label) = [.arrive (frameOfNine ++ badHeader),
      .unframe (.new 2) (.error ⟨.InvalidData, "invalid command"⟩) [9]] ∧
    ¬ Faithful decodingClient past := by
  have hrun := ((Run.nil : Run DecoderStep decodingClient [] decodingClient).next
    (.arrive _ (frameOfNine ++ badHeader))).next (.unframe _ (.new 2) _ _ _ rfl)
  refine ⟨_, _, hrun, rfl, fun hfaithful => ?_⟩
  have hcall := hfaithful.calls [_] _ [] rfl (.new 2) _ _ rfl
  cases (hcall.of_error _ rfl).1

-- When the header arrives after the byte was read, nothing is lost.
theorem vision_malformed_after_the_byte : ∃ past st,
    Run DecoderStep decodingClient past st ∧
    past.map (·.label) = [.arrive frameOfNine, .unframe (.new 2) (.ok 1) [9], .arrive badHeader,
      .unframe (.new 2) (.error ⟨.InvalidData, "invalid command"⟩) []] ∧
    Faithful decodingClient past := by
  have hrun := ((((Run.nil : Run DecoderStep decodingClient [] decodingClient).next
    (.arrive _ frameOfNine)).next (.unframe _ (.new 2) _ _ _ rfl)).next
    (.arrive _ badHeader)).next (.unframe _ (.new 2) _ _ _ rfl)
  refine ⟨_, _, hrun, rfl, ?_⟩
  refine (vision_malformed_iff _ _ _ _ _ _ _ hrun).1.mpr ?_
  intro t ht buf result put hlabel hexposed
  have hfailed := hexposed.malformed
  have hne := hexposed.content_ne_nil
  simp only [List.nil_append, List.cons_append, List.mem_cons, List.not_mem_nil, or_false] at ht
  rcases ht with rfl | rfl | rfl | rfl
  · cases hlabel
  · revert hfailed
    decide
  · cases hlabel
  · exact hne rfl

end AlphaRay
