import AlphaRay.Lib.Transducer
import AlphaRay.Protocol.VisionTls

namespace AlphaRay

open Lib

-- The reader of Vision frames as a machine that is given one byte at a time:
-- what it has seen of an id or of a header, or what is left of a frame.
inductive Phase where
  | id (got : List UInt8)
  | header (got : List UInt8)
  | body (content padding : Nat) (command : VisionCommand)
  | direct
  | failed
  deriving DecidableEq

namespace Phase

-- Where a frame with this much left stands: one with nothing left is over.
def settle (content padding : Nat) (command : VisionCommand) : Phase :=
  if content = 0 ∧ padding = 0 then
    match command with
    | .ContinuePadding => .header []
    | .EndPadding | .StartDirectCopy => .direct
  else .body content padding command

def ofHeader (got : List UInt8) : Phase :=
  match VisionCommand.try_from (got.headD 0) with
  | .error _ => .failed
  | .ok command =>
      settle (u16_from_be_bytes ((got.drop 1).take 2)).toNat
        (u16_from_be_bytes ((got.drop 3).take 2)).toNat command

-- Only the five bytes of the header count.
theorem ofHeader_take (got : List UInt8) : ofHeader (got.take 5) = ofHeader got := by
  have hhead : (got.take 5).headD 0 = got.headD 0 := by cases got <;> rfl
  simp only [ofHeader, hhead, List.drop_take, List.take_take]
  rfl

def step (ids : List Uuid) : Phase → UInt8 → Phase × List UInt8
  | .id got, b =>
      if got.length + 1 < 16 then (.id (got ++ [b]), [])
      else if (ids.map Uuid.bytes).contains (got ++ [b]) then (.header [], [])
      else (.direct, got ++ [b])
  | .header got, b =>
      if got.length + 1 < 5 then (.header (got ++ [b]), []) else (ofHeader (got ++ [b]), [])
  | .body content padding command, b =>
      if 0 < content then (settle (content - 1) padding command, [b])
      else (settle 0 (padding - 1) command, [])
  | .direct, b => (.direct, [b])
  | .failed, _ => (.failed, [])

variable (ids : List Uuid)

theorem transduce_direct (u : List UInt8) : transduce (step ids) .direct u = (.direct, u) := by
  induction u with
  | nil => rfl
  | cons b u ih => simp [transduce_cons, step, ih]

theorem transduce_failed (u : List UInt8) :
    transduce (step ids) .failed u = (.failed, []) := by
  induction u with
  | nil => rfl
  | cons b u ih => simp [transduce_cons, step, ih]

theorem transduce_id_lt (got u : List UInt8) (h : got.length + u.length < 16) :
    transduce (step ids) (.id got) u = (.id (got ++ u), []) := by
  induction u generalizing got with
  | nil => simp
  | cons b u ih =>
      simp only [List.length_cons] at h
      have hb : got.length + 1 < 16 := by omega
      have hu := ih (got ++ [b]) (by simp only [List.length_append, List.length_singleton]; omega)
      simp [transduce_cons, step, hb, hu]

theorem transduce_id (u : List UInt8) (h : u.length = 16) :
    transduce (step ids) (.id []) u =
      if u ∈ ids.map Uuid.bytes then (.header [], []) else (.direct, u) := by
  obtain ⟨v, b, rfl⟩ : ∃ v b, u = v ++ [b] := ⟨_, _, (List.dropLast_append_getLast (by
    intro he; simp [he] at h)).symm⟩
  simp only [List.length_append, List.length_singleton] at h
  rw [transduce_append, transduce_id_lt ids [] v (by simp; omega)]
  have hv : ¬ v.length + 1 < 16 := by omega
  simp only [List.nil_append, transduce_cons, step, hv, if_false, transduce_nil, List.append_nil,
    List.contains_iff_mem]

theorem transduce_header_lt (got u : List UInt8) (h : got.length + u.length < 5) :
    transduce (step ids) (.header got) u = (.header (got ++ u), []) := by
  induction u generalizing got with
  | nil => simp
  | cons b u ih =>
      simp only [List.length_cons] at h
      have hb : got.length + 1 < 5 := by omega
      have hu := ih (got ++ [b]) (by simp only [List.length_append, List.length_singleton]; omega)
      simp [transduce_cons, step, hb, hu]

theorem transduce_header (u : List UInt8) (h : u.length = 5) :
    transduce (step ids) (.header []) u = (ofHeader u, []) := by
  obtain ⟨v, b, rfl⟩ : ∃ v b, u = v ++ [b] := ⟨_, _, (List.dropLast_append_getLast (by
    intro he; simp [he] at h)).symm⟩
  simp only [List.length_append, List.length_singleton] at h
  rw [transduce_append, transduce_header_lt ids [] v (by simp; omega)]
  have hv : ¬ v.length + 1 < 5 := by omega
  simp [transduce_cons, step, hv]

-- The content of a frame comes out as it goes in.
theorem transduce_content (u : List UInt8) (content padding : Nat) (command : VisionCommand)
    (h : u.length ≤ content) :
    transduce (step ids) (settle content padding command) u =
      (settle (content - u.length) padding command, u) := by
  induction u generalizing content with
  | nil => rfl
  | cons b u ih =>
      simp only [List.length_cons] at h ⊢
      have hs : settle content padding command = .body content padding command := by
        simp [settle, show content ≠ 0 by omega]
      have hu := ih (content - 1) (by omega)
      simp only [hs, transduce_cons, step, show 0 < content by omega, if_true, hu,
        List.singleton_append, Prod.mk.injEq, and_true]
      congr 1
      omega

-- The padding of a frame disappears.
theorem transduce_padding (u : List UInt8) (padding : Nat) (command : VisionCommand)
    (h : u.length ≤ padding) :
    transduce (step ids) (settle 0 padding command) u =
      (settle 0 (padding - u.length) command, []) := by
  induction u generalizing padding with
  | nil => rfl
  | cons b u ih =>
      simp only [List.length_cons] at h ⊢
      have hs : settle 0 padding command = .body 0 padding command := by
        simp [settle, show padding ≠ 0 by omega]
      have hu := ih (padding - 1) (by omega)
      simp only [hs, transduce_cons, step, Nat.lt_irrefl, if_false, hu, List.append_nil,
        Prod.mk.injEq, and_true]
      congr 1
      omega

end Phase

namespace VisionTlsStream

variable {S C R : Type}

-- Where the bytes still in `read_buf` will be picked up.
def phase (st : VisionTlsStream S C R) : Phase :=
  if st.state.read_direct_copy then .direct
  else
    match st.state.stage with
    | .Id => if st.state.is_server then .id [] else .header []
    | .Header => .header []
    | .Content =>
        .settle st.state.remaining_content_len st.state.remaining_padding_len st.state.command
    | .Padding => .settle 0 st.state.remaining_padding_len st.state.command

-- The reading half changed, and nothing else.
def Reads (st next : VisionTlsStream S C R) : Prop :=
  ∃ read_buf stage content padding command direct, next = { st with
    read_buf := read_buf
    state := { st.state with
      stage := stage
      remaining_content_len := content
      remaining_padding_len := padding
      command := command
      read_direct_copy := direct } }

theorem Reads.refl (st : VisionTlsStream S C R) : Reads st st :=
  ⟨_, _, _, _, _, _, rfl⟩

theorem Reads.trans {st next last : VisionTlsStream S C R} (h : Reads st next)
    (h' : Reads next last) : Reads st last := by
  obtain ⟨_, _, _, _, _, _, rfl⟩ := h
  obtain ⟨_, _, _, _, _, _, rfl⟩ := h'
  exact ⟨_, _, _, _, _, _, rfl⟩

-- What is left in `read_buf` does not complete an id or a header.
def starved (st : VisionTlsStream S C R) : Prop :=
  st.read_buf = [] ∨
  st.state.read_direct_copy = false ∧
    (st.state.stage = .Id ∧ st.state.is_server = true ∧ st.read_buf.length < 16 ∨
      st.state.stage = .Header ∧ st.read_buf.length < 5)

-- The five bytes at the front of `read_buf` are a header with no valid command.
def rejected (st : VisionTlsStream S C R) (e : IoError) : Prop :=
  st.state.read_direct_copy = false ∧ st.state.stage = .Header ∧ 5 ≤ st.read_buf.length ∧
    VisionCommand.try_from (st.read_buf.headD 0) = .error e

-- `next` and `out` are what the reader makes of a front part of `read_buf`.
structure Unframes (st : VisionTlsStream S C R) (buf : ReadBuf) (n : Nat)
    (next : VisionTlsStream S C R) (buf' : ReadBuf) (n' : Nat) (out : List UInt8) : Prop where
  eats : Eats (Phase.step st.state.ids) (phase st) st.read_buf (phase next) next.read_buf out
  reads : Reads st next
  put : buf' = buf.put_slice out
  fits : out.length ≤ buf.remaining
  shrinks : out.length + next.read_buf.length ≤ st.read_buf.length
  count : n' = n + out.length

theorem Unframes.refl (st : VisionTlsStream S C R) (buf : ReadBuf) (n : Nat) :
    Unframes st buf n st buf n [] :=
  ⟨.refl, .refl st, by simp, by simp, by simp, by simp⟩

theorem Unframes.trans {st next last : VisionTlsStream S C R} {buf buf' buf'' : ReadBuf}
    {n n' n'' : Nat} {out more : List UInt8} (h : Unframes st buf n next buf' n' out)
    (h' : Unframes next buf' n' last buf'' n'' more) :
    Unframes st buf n last buf'' n'' (out ++ more) := by
  obtain ⟨heats, hreads, rfl, hfits, hshrinks, rfl⟩ := h
  obtain ⟨heats', hreads', rfl, hfits', hshrinks', rfl⟩ := h'
  have hids : next.state.ids = st.state.ids := by
    obtain ⟨_, _, _, _, _, _, rfl⟩ := hreads
    rfl
  rw [hids] at heats'
  refine ⟨heats.trans heats', hreads.trans hreads', ?_, ?_, ?_, ?_⟩
  · simp only [ReadBuf.put_slice, List.append_assoc, List.length_append, Nat.sub_sub]
  · simp only [ReadBuf.put_slice_remaining] at hfits'
    simp only [List.length_append]
    omega
  · simp only [List.length_append]
    omega
  · simp only [List.length_append, Nat.add_assoc]

-- A pass that takes the first `k` bytes through the reader.
theorem Unframes.of_take {st next : VisionTlsStream S C R} (buf : ReadBuf) (n k : Nat)
    {out : List UInt8} (hreads : Reads st next) (hbuf : next.read_buf = st.read_buf.drop k)
    (hout : transduce (Phase.step st.state.ids) (phase st) (st.read_buf.take k) =
      (phase next, out)) (hfits : out.length ≤ buf.remaining)
    (hle : out.length ≤ (st.read_buf.take k).length) :
    Unframes st buf n next (buf.put_slice out) (n + out.length) out := by
  refine ⟨.of_append (by rw [hbuf, List.take_append_drop]) hout, hreads, rfl, hfits, ?_, rfl⟩
  rw [hbuf, List.length_drop]
  simp only [List.length_take] at hle
  omega

theorem Unframes.of_silent_take {st next : VisionTlsStream S C R} (buf : ReadBuf) (n k : Nat)
    (hreads : Reads st next) (hbuf : next.read_buf = st.read_buf.drop k)
    (hout : transduce (Phase.step st.state.ids) (phase st) (st.read_buf.take k) =
      (phase next, [])) : Unframes st buf n next buf n [] := by
  simpa using of_take buf n k hreads hbuf hout (by simp) (by simp)

-- A pass that hands the first `k` bytes to the caller.
theorem Unframes.of_copy {st next : VisionTlsStream S C R} (buf : ReadBuf) (n k : Nat)
    (hreads : Reads st next) (hbuf : next.read_buf = st.read_buf.drop k)
    (hlen : k ≤ st.read_buf.length) (hfits : k ≤ buf.remaining)
    (hout : transduce (Phase.step st.state.ids) (phase st) (st.read_buf.take k) =
      (phase next, st.read_buf.take k)) :
    Unframes st buf n next (buf.put_slice (st.read_buf.take k)) (n + k) (st.read_buf.take k) := by
  have htake : (st.read_buf.take k).length = k := by simp [hlen]
  simpa only [htake] using
    of_take buf n k hreads hbuf hout (by rw [htake]; exact hfits) (Nat.le_refl _)

theorem Unframes.of_content {st next : VisionTlsStream S C R} (buf : ReadBuf) (n k : Nat)
    (content padding : Nat) (command : VisionCommand)
    (hreads : Reads st next) (hbuf : next.read_buf = st.read_buf.drop k)
    (hlen : k ≤ st.read_buf.length) (hfits : k ≤ buf.remaining) (hle : k ≤ content)
    (hphase : phase st = .settle content padding command)
    (hnext : phase next = .settle (content - k) padding command) :
    Unframes st buf n next (buf.put_slice (st.read_buf.take k)) (n + k) (st.read_buf.take k) := by
  have htake : (st.read_buf.take k).length = k := by simp [hlen]
  apply of_copy buf n k hreads hbuf hlen hfits
  rw [hphase, hnext, Phase.transduce_content _ _ _ _ _ (by omega), htake]

theorem Unframes.of_padding {st next : VisionTlsStream S C R} (buf : ReadBuf) (n k : Nat)
    (padding : Nat) (command : VisionCommand)
    (hreads : Reads st next) (hbuf : next.read_buf = st.read_buf.drop k)
    (hlen : k ≤ st.read_buf.length) (hle : k ≤ padding)
    (hphase : phase st = .settle 0 padding command)
    (hnext : phase next = .settle 0 (padding - k) command) :
    Unframes st buf n next buf n [] := by
  have htake : (st.read_buf.take k).length = k := by simp [hlen]
  apply of_silent_take buf n k hreads hbuf
  rw [hphase, hnext, Phase.transduce_padding _ _ _ _ (by omega), htake]

-- A pass that only moves to another stage.
theorem Unframes.of_phase_eq {st next : VisionTlsStream S C R} {buf : ReadBuf} {n : Nat}
    (hreads : Reads st next) (hbuf : next.read_buf = st.read_buf) (hphase : phase next = phase st) :
    Unframes st buf n next buf n [] :=
  ⟨by rw [hbuf, hphase]; exact .refl, hreads, by simp, by simp, by simp [hbuf], by simp⟩

-- Sixteen bytes that are no known id are content: from there on the stream is copied.
theorem Unframes.of_unknown_id {st next : VisionTlsStream S C R} {buf : ReadBuf} {n : Nat}
    (hreads : Reads st next) (hbuf : next.read_buf = st.read_buf) (hphase : phase st = .id [])
    (hnext : phase next = .direct) (hlen : 16 ≤ st.read_buf.length)
    (hid : st.read_buf.take 16 ∉ st.state.ids.map Uuid.bytes) :
    Unframes st buf n next buf n [] := by
  refine ⟨?_, hreads, by simp, by simp, by simp [hbuf], by simp⟩
  intro later
  have htake : (st.read_buf.take 16).length = 16 := by simp [hlen]
  have hsplit : st.read_buf ++ later = st.read_buf.take 16 ++ (st.read_buf.drop 16 ++ later) := by
    rw [← List.append_assoc, List.take_append_drop]
  rw [hbuf, hnext, hphase, Phase.transduce_direct, hsplit, transduce_append,
    Phase.transduce_id _ _ htake, if_neg hid, Phase.transduce_direct]
  simp

theorem phase_direct {st : VisionTlsStream S C R} (h : st.state.read_direct_copy = true) :
    phase st = .direct := by
  simp [phase, h]

-- Each pass that continues takes a front part of `read_buf` through the reader.
theorem unframe_pass_again (st next : VisionTlsStream S C R) (buf buf' : ReadBuf) (n n' : Nat)
    (h : unframe_pass (st, buf, n) = .again (next, buf', n')) :
    ∃ out, Unframes st buf n next buf' n' out := by
  simp only [unframe_pass] at h
  split at h
  · cases h
  split at h
  · rename_i hd
    split at h <;> cases h
    refine ⟨_, .of_copy buf n _ ⟨_, _, _, _, _, _, rfl⟩ rfl (by omega) (by omega) ?_⟩
    rw [phase_direct hd, Phase.transduce_direct, phase_direct (by exact hd)]
  rename_i hd
  have hd : st.state.read_direct_copy = false := by simpa using hd
  cases hs : st.state.stage <;> simp only [hs] at h
  case Id =>
    split at h
    · rename_i hserver
      have hphase : phase st = .id [] := by simp [phase, hd, hs, hserver]
      split at h
      · cases h
      · rename_i hlen
        split at h
        · rename_i hid
          cases h
          exact ⟨[], .of_unknown_id ⟨_, _, _, _, _, _, rfl⟩ rfl hphase (by simp [phase])
            (by omega) hid⟩
        · rename_i hid
          cases h
          refine ⟨[], .of_silent_take buf n 16 ⟨_, _, _, _, _, _, rfl⟩ rfl ?_⟩
          rw [hphase, Phase.transduce_id _ _ (by simp; omega), if_pos (by simpa using hid)]
          simp [phase, hd]
    · rename_i hserver
      cases h
      exact ⟨[], .of_phase_eq ⟨_, _, _, _, _, _, rfl⟩ rfl (by simp [phase, hd, hs, hserver])⟩
  case Header =>
    split at h
    · cases h
    · rename_i hlen
      split at h
      · cases h
      · rename_i command hc
        cases h
        refine ⟨[], .of_silent_take buf n 5 ⟨_, _, _, _, _, _, rfl⟩ rfl ?_⟩
        have hphase : phase st = .header [] := by simp [phase, hd, hs]
        rw [hphase, Phase.transduce_header _ _ (by simp; omega), Phase.ofHeader_take]
        simp only [Phase.ofHeader, hc, phase, hd, Bool.false_eq_true, if_false]
  case Content =>
    split at h
    · rename_i hzero
      cases h
      exact ⟨[], .of_phase_eq ⟨_, _, _, _, _, _, rfl⟩ rfl (by simp [phase, hd, hs, hzero])⟩
    · split at h
      · cases h
      · cases h
        generalize hk : min (min st.read_buf.length st.state.remaining_content_len)
          buf.remaining = k
        refine ⟨_, .of_content buf n k st.state.remaining_content_len
          st.state.remaining_padding_len st.state.command ⟨_, _, _, _, _, _, rfl⟩ rfl
          (by omega) (by omega) (by omega) (by simp [phase, hd, hs]) ?_⟩
        by_cases hz : st.state.remaining_content_len - k = 0 <;> simp [phase, hd, hz]
  case Padding =>
    split at h
    · rename_i hzero
      have hphase : phase st = .settle 0 st.state.remaining_padding_len st.state.command := by
        simp [phase, hd, hs]
      cases hc : st.state.command with
      | ContinuePadding =>
          simp only [hc] at h
          cases h
          exact ⟨[], .of_padding buf n _ _ _ ⟨_, _, _, _, _, _, rfl⟩ rfl (by omega) (by omega)
            hphase (by simp [phase, hd, hzero, hc, Phase.settle])⟩
      | EndPadding | StartDirectCopy =>
          simp only [hc] at h
          cases h
          exact ⟨[], .of_padding buf n _ _ _ ⟨_, _, _, _, _, _, rfl⟩ rfl (by omega) (by omega)
            hphase (by simp [phase, hzero, hc, Phase.settle])⟩
    · cases h

-- The loop is left when the caller's buffer is full, when `read_buf` holds nothing
-- that could be eaten, or at a header that is no header.
theorem unframe_pass_leave (st next : VisionTlsStream S C R) (buf buf' : ReadBuf) (n : Nat)
    (result : IoResult Nat) (h : unframe_pass (st, buf, n) = .leave (result, next, buf')) :
    ∃ n' out, Unframes st buf n next buf' n' out ∧
      (result = .ok n' ∧ (buf'.remaining = 0 ∨ starved next) ∨
        ∃ e, result = .error e ∧ rejected next e) := by
  simp only [unframe_pass] at h
  split at h
  · rename_i hnil
    cases h
    exact ⟨n, [], .refl st buf n, .inl ⟨rfl, .inr (.inl hnil)⟩⟩
  rename_i hne
  have hpos := List.length_pos_of_ne_nil hne
  split at h
  · rename_i hd
    split at h <;> cases h
    exact ⟨n, [], .refl st buf n, .inl ⟨rfl, .inl (by omega)⟩⟩
  rename_i hd
  have hd : st.state.read_direct_copy = false := by simpa using hd
  cases hs : st.state.stage <;> simp only [hs] at h
  case Id =>
    split at h
    · rename_i hserver
      split at h
      · rename_i hlen
        cases h
        exact ⟨n, [], .refl st buf n, .inl ⟨rfl, .inr (.inr ⟨hd, .inl ⟨hs, hserver, hlen⟩⟩)⟩⟩
      · split at h <;> cases h
    · cases h
  case Header =>
    split at h
    · rename_i hlen
      cases h
      exact ⟨n, [], .refl st buf n, .inl ⟨rfl, .inr (.inr ⟨hd, .inr ⟨hs, hlen⟩⟩)⟩⟩
    · rename_i hlen
      split at h
      · rename_i e he
        cases h
        exact ⟨n, [], .refl st buf n, .inr ⟨e, rfl, hd, hs, by omega, he⟩⟩
      · cases h
  case Content =>
    split at h
    · cases h
    · split at h
      · rename_i hfull
        cases h
        generalize hk : min (min st.read_buf.length st.state.remaining_content_len)
          buf.remaining = k
        refine ⟨_, _, .of_content buf n k st.state.remaining_content_len
          st.state.remaining_padding_len st.state.command ⟨_, _, _, _, _, _, rfl⟩ rfl
          (by omega) (by omega) (by omega) (by simp [phase, hd, hs]) (by simp [phase, hd]),
          .inl ⟨rfl, .inl ?_⟩⟩
        simpa only [hk] using hfull.1
      · cases h
  case Padding =>
    split at h
    · cases hc : st.state.command <;> simp only [hc] at h <;> cases h
    · rename_i hleft
      cases h
      refine ⟨n, [], .of_padding buf n (min st.read_buf.length st.state.remaining_padding_len)
        st.state.remaining_padding_len st.state.command ⟨_, _, _, _, _, _, rfl⟩ rfl (by omega)
        (by omega) (by simp [phase, hd, hs]) (by simp [phase, hd]),
        .inl ⟨rfl, .inr (.inl ?_)⟩⟩
      simp only [List.drop_eq_nil_iff]
      omega

-- What a call of `unframe_read_buf` does: the bytes it hands out are what the
-- reader makes of the part of `read_buf` that it ate.
theorem unframe_read_buf_spec (st : VisionTlsStream S C R) (buf : ReadBuf) :
    ∃ n out, Unframes st buf 0 (unframe_read_buf st buf).2.1 (unframe_read_buf st buf).2.2 n out ∧
      ((unframe_read_buf st buf).1 = .ok n ∧
          ((unframe_read_buf st buf).2.2.remaining = 0 ∨ starved (unframe_read_buf st buf).2.1) ∨
        ∃ e, (unframe_read_buf st buf).1 = .error e ∧ rejected (unframe_read_buf st buf).2.1 e) := by
  unfold unframe_read_buf
  split
  · rename_i hzero
    exact ⟨0, [], .refl st buf 0, .inl ⟨rfl, .inl hzero⟩⟩
  · obtain ⟨result, hresult⟩ := Option.isSome_iff_exists.mp (unframe_ends st buf)
    simp only [hresult, Option.get_some]
    refine loop_rule (fun pass => ∃ out, Unframes st buf 0 pass.1 pass.2.1 pass.2.2 out)
      (fun result => ∃ n out, Unframes st buf 0 result.2.1 result.2.2 n out ∧
        (result.1 = .ok n ∧ (result.2.2.remaining = 0 ∨ starved result.2.1) ∨
          ∃ e, result.1 = .error e ∧ rejected result.2.1 e)) ?_ ?_ ⟨[], .refl st buf 0⟩ hresult
    · rintro ⟨st₁, buf₁, n₁⟩ ⟨st₂, buf₂, n₂⟩ ⟨out, hu⟩ hpass
      obtain ⟨more, hmore⟩ := unframe_pass_again st₁ st₂ buf₁ buf₂ n₁ n₂ (Option.some.inj hpass)
      exact ⟨out ++ more, hu.trans hmore⟩
    · rintro ⟨st₁, buf₁, n₁⟩ ⟨result, st₂, buf₂⟩ ⟨out, hu⟩ hpass
      obtain ⟨n₂, more, hmore, hwhy⟩ :=
        unframe_pass_leave st₁ st₂ buf₁ buf₂ n₁ result (Option.some.inj hpass)
      exact ⟨n₂, out ++ more, hu.trans hmore, hwhy⟩

theorem reads_of_unframe {st next : VisionTlsStream S C R} {buf out : ReadBuf}
    {result : IoResult Nat} (h : st.unframe_read_buf buf = (result, next, out)) :
    Reads st next := by
  obtain ⟨n, put, hunframes, -⟩ := unframe_read_buf_spec st buf
  rw [h] at hunframes
  exact hunframes.reads

end VisionTlsStream

end AlphaRay
