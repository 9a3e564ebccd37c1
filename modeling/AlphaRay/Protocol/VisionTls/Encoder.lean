import AlphaRay.Protocol.VisionTls.Decoder

namespace AlphaRay

open Lib

-- The configurations under which a frame can be made: draws exist, and the
-- length of a long padding is a `u16`.
structure PaddingConfig.Valid (padding : PaddingConfig) : Prop where
  short : padding.padding_len_range.start ≤ padding.padding_len_range.stop
  long : padding.long_padding_len_range.start ≤ padding.long_padding_len_range.stop
  fits : padding.long_padding_len_range.stop.toNat + padding.long_padding_base_len.toNat ≤ 65535

def frame_bytes (command : VisionCommand) (buf : List UInt8) (padding_len : UInt16) : List UInt8 :=
  [command.as_u8] ++ u16_to_be_bytes (UInt16.ofNat buf.length) ++ u16_to_be_bytes padding_len ++
    buf ++ List.replicate padding_len.toNat 0

theorem length_frame_bytes (command : VisionCommand) (buf : List UInt8) (padding_len : UInt16) :
    (frame_bytes command buf padding_len).length = 5 + buf.length + padding_len.toNat := by
  simp only [frame_bytes, List.length_append, List.length_replicate, List.length_singleton,
    length_u16_to_be_bytes]

-- The reader makes exactly its content of a frame.
theorem transduce_frame_bytes (ids : List Uuid) (command : VisionCommand) (buf : List UInt8)
    (padding_len : UInt16) (hlen : buf.length ≤ 65535) :
    transduce (Phase.step ids) (.header []) (frame_bytes command buf padding_len) =
      (.settle 0 0 command, buf) := by
  have hcontent : (UInt16.ofNat buf.length).toNat = buf.length := by
    rw [UInt16.toNat_ofNat', Nat.mod_eq_of_lt (by omega)]
  have hheader : Phase.ofHeader ([command.as_u8] ++ u16_to_be_bytes (UInt16.ofNat buf.length) ++
      u16_to_be_bytes padding_len) = .settle buf.length padding_len.toNat command := by
    have h₁ := u16_from_be_bytes_to_be_bytes (UInt16.ofNat buf.length)
    have h₂ := u16_from_be_bytes_to_be_bytes padding_len
    simp only [u16_to_be_bytes, hcontent] at h₁ h₂
    simp [Phase.ofHeader, u16_to_be_bytes, hcontent, h₁, h₂]
  unfold frame_bytes
  rw [transduce_append, transduce_append, Phase.transduce_header _ _ (by simp), hheader,
    Phase.transduce_content _ _ _ _ _ (Nat.le_refl _), Nat.sub_self,
    Phase.transduce_padding _ _ _ _ (by simp)]
  simp

namespace VisionTlsStream

variable {S C R : Type}

-- The writing half changed, and nothing else.
def Writes (st next : VisionTlsStream S C R) : Prop :=
  ∃ rng has_sent_id safe seen direct can_start write_buf server_hello_buf, next = { st with
    state := { st.state with
      rng := rng
      has_sent_id := has_sent_id
      is_safe_tls_ver := safe
      has_seen_tls_app_data := seen
      write_direct_copy := direct
      can_start_direct_copy := can_start }
    write_buf := write_buf
    server_hello_buf := server_hello_buf }

theorem Writes.refl (st : VisionTlsStream S C R) : Writes st st :=
  ⟨_, _, _, _, _, _, _, _, rfl⟩

theorem Writes.trans {st next last : VisionTlsStream S C R} (h : Writes st next)
    (h' : Writes next last) : Writes st last := by
  obtain ⟨_, _, _, _, _, _, _, _, rfl⟩ := h
  obtain ⟨_, _, _, _, _, _, _, _, rfl⟩ := h'
  exact ⟨_, _, _, _, _, _, _, _, rfl⟩

-- The bytes that go out before the next frame.
def pending_id (st : VisionTlsStream S C R) : List UInt8 :=
  if st.state.is_server = false ∧ st.state.has_sent_id = false then
    (st.state.ids.map Uuid.bytes).headD []
  else []

-- What a call of `put_id` that returns has done.
theorem of_put_id {st next : VisionTlsStream S C R} (h : put_id st = .ok next) :
    next = { st with
      write_buf := st.write_buf ++ pending_id st
      state := { st.state with
        has_sent_id := st.state.has_sent_id || !st.state.is_server } } := by
  unfold put_id at h
  split at h
  · rename_i hfirst
    obtain ⟨hserver, hsent⟩ : st.state.is_server = false ∧ st.state.has_sent_id = false := by
      simpa using hfirst
    obtain ⟨id, hid, hnext⟩ := of_bind_ok h
    have hpending : pending_id st = id.bytes := by
      rw [pending_id, if_pos ⟨hserver, hsent⟩]
      unfold index at hid
      split at hid
      · rename_i first hfound
        cases hid
        rw [List.headD_eq_head?_getD, List.head?_map, List.head?_eq_getElem?, hfound]
        rfl
      · cases hid
    cases hnext
    simp only [hpending, hserver, hsent, Bool.not_false, Bool.or_true]
  · rename_i hlater
    cases h
    have hlater : st.state.is_server = false → st.state.has_sent_id = true := by
      simpa using hlater
    have hpending : pending_id st = [] := by
      apply if_neg
      rintro ⟨hserver, hsent⟩
      rw [hlater hserver] at hsent
      cases hsent
    have hsame : (st.state.has_sent_id || !st.state.is_server) = st.state.has_sent_id := by
      cases hserver : st.state.is_server with
      | true => simp
      | false => simp [hlater hserver]
    simp only [hpending, List.append_nil, hsame]

theorem put_id_ok (st : VisionTlsStream S C R)
    (hids : st.state.is_server = false → st.state.ids ≠ []) :
    ∃ next, put_id st = .ok next := by
  unfold put_id
  split
  · rename_i hfirst
    obtain ⟨hserver, -⟩ : st.state.is_server = false ∧ st.state.has_sent_id = false := by
      simpa using hfirst
    have hlen := List.length_pos_of_ne_nil (hids hserver)
    simp only [index_of_lt st.state.ids 0 hlen, bind, Except.bind, pure, Except.pure]
    exact ⟨_, rfl⟩
  · exact ⟨st, rfl⟩

theorem sniff_app_data_spec (st : VisionTlsStream S C R) (buf : List UInt8) :
    Writes st (sniff_app_data st buf).2 ∧ (sniff_app_data st buf).2.write_buf = st.write_buf ∧
      (sniff_app_data st buf).2.state.has_sent_id = st.state.has_sent_id ∧
      ((sniff_app_data st buf).1 = .ContinuePadding ∧
          (sniff_app_data st buf).2.state.write_direct_copy = st.state.write_direct_copy ∨
        (sniff_app_data st buf).1 = .StartDirectCopy ∧
          (sniff_app_data st buf).2.state.write_direct_copy = true) := by
  unfold sniff_app_data
  split
  · exact ⟨⟨_, _, _, _, _, _, _, _, rfl⟩, rfl, rfl, .inr ⟨rfl, rfl⟩⟩
  · exact ⟨.refl st, rfl, rfl, .inl ⟨rfl, rfl⟩⟩

-- A step of `frame_buf` that writes nothing and leaves the mode alone.
structure Sniffs (st next : VisionTlsStream S C R) : Prop where
  writes : Writes st next
  write_buf : next.write_buf = st.write_buf
  has_sent_id : next.state.has_sent_id = st.state.has_sent_id
  write_direct_copy : next.state.write_direct_copy = st.state.write_direct_copy

theorem Sniffs.refl (st : VisionTlsStream S C R) : Sniffs st st :=
  ⟨.refl st, rfl, rfl, rfl⟩

theorem Sniffs.trans {st next last : VisionTlsStream S C R} (h : Sniffs st next)
    (h' : Sniffs next last) : Sniffs st last :=
  ⟨h.writes.trans h'.writes, h'.write_buf.trans h.write_buf, h'.has_sent_id.trans h.has_sent_id,
    h'.write_direct_copy.trans h.write_direct_copy⟩

theorem start_hello_ok (st : VisionTlsStream S C R) (buf : List UInt8) :
    ∃ next, start_hello st buf = .ok next ∧ Sniffs st next := by
  unfold start_hello
  split
  · rename_i hrecord
    simp only [index_of_lt buf 5 (by omega), bind, Except.bind, pure, Except.pure]
    split <;> exact ⟨_, rfl, ⟨_, _, _, _, _, _, _, _, rfl⟩, rfl, rfl, rfl⟩
  · exact ⟨st, rfl, .refl st⟩

theorem collect_hello_ok (st : VisionTlsStream S C R) (buf : List UInt8) :
    ∃ next, collect_hello st buf = .ok next ∧ Sniffs st next := by
  unfold collect_hello
  split
  · rename_i hroom
    simp only [usize_sub_of_le _ _ (Nat.le_of_lt hroom),
      slice_of_le buf 0 _ (Nat.zero_le _) (Nat.min_le_right _ buf.length), bind, Except.bind,
      pure, Except.pure]
    exact ⟨_, rfl, ⟨_, _, _, _, _, _, _, _, rfl⟩, rfl, rfl, rfl⟩
  · exact ⟨st, rfl, .refl st⟩

theorem sniff_cipher_suite_ok (st : VisionTlsStream S C R) :
    ∃ next, sniff_cipher_suite st = .ok next ∧ Sniffs st next := by
  unfold sniff_cipher_suite
  split
  · rename_i hlen
    simp only [index_of_lt st.server_hello_buf 43 (by omega), bind, Except.bind]
    split
    · rename_i hsuite
      rw [slice_of_le _ _ _ (by omega) (by omega)]
      exact ⟨_, rfl, ⟨_, _, _, _, _, _, _, _, rfl⟩, rfl, rfl, rfl⟩
    · exact ⟨st, rfl, .refl st⟩
  · exact ⟨st, rfl, .refl st⟩

-- Sniffing touches no index outside its buffers, whatever they hold.
theorem sniff_hello_ok (st : VisionTlsStream S C R) (buf : List UInt8) :
    ∃ next, sniff_hello st buf = .ok next ∧ Sniffs st next := by
  unfold sniff_hello
  split
  · exact start_hello_ok st buf
  · obtain ⟨mid, hmid, hs⟩ := collect_hello_ok st buf
    obtain ⟨next, hnext, hs'⟩ := sniff_cipher_suite_ok mid
    exact ⟨next, by simp only [hmid, hnext, bind, Except.bind], hs.trans hs'⟩

theorem sniffs_of_sniff_hello {st next : VisionTlsStream S C R} {buf : List UInt8}
    (h : sniff_hello st buf = .ok next) : Sniffs st next := by
  obtain ⟨sniffed, hok, hs⟩ := sniff_hello_ok st buf
  rwa [Except.ok.inj (hok.symm.trans h)] at hs

-- A draw changes the generator.
theorem of_draw_padding_len [Rng R] {st next : VisionTlsStream S C R} {buf : List UInt8}
    {padding_len : UInt16} (h : draw_padding_len st buf = .ok (padding_len, next)) :
    ∃ rng, next = { st with state := { st.state with rng := rng } } := by
  simp only [draw_padding_len] at h
  split at h
  · obtain ⟨draw, -, h⟩ := of_bind_ok h
    obtain ⟨len, -, hnext⟩ := of_bind_ok h
    cases hnext
    exact ⟨_, rfl⟩
  · obtain ⟨draw, -, hnext⟩ := of_bind_ok h
    cases hnext
    exact ⟨_, rfl⟩

theorem draw_padding_len_ok [Rng R] (st : VisionTlsStream S C R) (buf : List UInt8)
    (hvalid : st.state.padding.Valid) :
    ∃ drawn, draw_padding_len st buf = .ok drawn := by
  simp only [draw_padding_len]
  split
  · have hfits := hvalid.fits
    have hle := UInt16.le_iff_toNat_le.mp
      (Rng.draw_le st.state.rng st.state.padding.long_padding_len_range hvalid.long)
    simp only [Rng.u16, hvalid.long, if_true, bind, Except.bind, pure, Except.pure]
    rw [u16_add_of_le _ _ (by omega)]
    exact ⟨_, rfl⟩
  · simp only [Rng.u16, hvalid.short, if_true, bind, Except.bind, pure, Except.pure]
    exact ⟨_, rfl⟩

section Parts

variable [Rng R] {st next named sniffed : VisionTlsStream S C R} {buf : List UInt8}

theorem frame_buf_of_direct (hdirect : st.state.write_direct_copy = true) :
    frame_buf st buf = .ok { st with write_buf := st.write_buf ++ buf } := by
  simp only [frame_buf, hdirect, if_true]
  rfl

-- Once the id is put and the buffer was sniffed, only the draw can panic.
theorem frame_buf_eq_map (hdirect : st.state.write_direct_copy = false)
    (hput : put_id st = .ok named)
    (hhello : sniff_hello (sniff_app_data named buf).2 buf = .ok sniffed) :
    frame_buf st buf = (draw_padding_len sniffed buf).map fun drawn =>
      put_frame drawn.2 (sniff_app_data named buf).1 buf drawn.1 := by
  rw [frame_buf_eq st buf hdirect, hput]
  dsimp only [bind, Except.bind]
  rw [hhello]
  rfl

-- The parts of a frame that was made.
theorem of_frame_buf (hdirect : st.state.write_direct_copy = false)
    (h : frame_buf st buf = .ok next) :
    ∃ named sniffed drawn padding_len, put_id st = .ok named ∧
      sniff_hello (sniff_app_data named buf).2 buf = .ok sniffed ∧
      draw_padding_len sniffed buf = .ok (padding_len, drawn) ∧
      next = put_frame drawn (sniff_app_data named buf).1 buf padding_len := by
  rw [frame_buf_eq st buf hdirect] at h
  obtain ⟨named, hput, h⟩ := of_bind_ok h
  obtain ⟨sniffed, hhello, h⟩ := of_bind_ok h
  obtain ⟨⟨padding_len, drawn⟩, hdraw, hnext⟩ := of_bind_ok h
  exact ⟨named, sniffed, drawn, padding_len, hput, hhello, hdraw, (Except.ok.inj hnext).symm⟩

-- The frame stands behind what was not written yet, and behind the id if that is due.
theorem write_buf_of_frame_buf (hdirect : st.state.write_direct_copy = false)
    (h : frame_buf st buf = .ok next) : ∃ named padding_len, put_id st = .ok named ∧
      next.write_buf = st.write_buf ++ pending_id st ++
        frame_bytes (sniff_app_data named buf).1 buf padding_len := by
  obtain ⟨named, sniffed, drawn, padding_len, hput, hhello, hdraw, rfl⟩ := of_frame_buf hdirect h
  have hbuf : named.write_buf = st.write_buf ++ pending_id st := by rw [of_put_id hput]
  have happ := (sniff_app_data_spec named buf).2.1
  have hsniffed := (sniffs_of_sniff_hello hhello).write_buf
  obtain ⟨rng, rfl⟩ := of_draw_padding_len hdraw
  refine ⟨named, padding_len, hput, ?_⟩
  simp only [put_frame, hsniffed, happ, hbuf, frame_bytes, List.append_assoc]

end Parts

-- What a call of `frame_buf` appends to `write_buf`, and the mode it leaves.
inductive Framed (st : VisionTlsStream S C R) (buf : List UInt8) :
    VisionTlsStream S C R → Prop
  | raw (hdirect : st.state.write_direct_copy = true) :
      Framed st buf { st with write_buf := st.write_buf ++ buf }
  | frame (next : VisionTlsStream S C R) (command : VisionCommand) (padding_len : UInt16)
      (hdirect : st.state.write_direct_copy = false) (hwrites : Writes st next)
      (hwrite : next.write_buf =
        st.write_buf ++ pending_id st ++ frame_bytes command buf padding_len)
      (hsent : next.state.has_sent_id = (st.state.has_sent_id || !st.state.is_server))
      (hmode : command = .ContinuePadding ∧ next.state.write_direct_copy = false ∨
        command = .StartDirectCopy ∧ next.state.write_direct_copy = true) :
      Framed st buf next

-- A frame that was made, whatever the padding that was asked for.
theorem writes_of_frame_buf [Rng R] {st next : VisionTlsStream S C R} {buf : List UInt8}
    (h : frame_buf st buf = .ok next) : Writes st next := by
  cases hdirect : st.state.write_direct_copy with
  | true =>
      rw [frame_buf_of_direct hdirect] at h
      cases h
      exact ⟨_, _, _, _, _, _, _, _, rfl⟩
  | false =>
      obtain ⟨named, sniffed, drawn, padding_len, hput, hhello, hdraw, rfl⟩ :=
        of_frame_buf hdirect h
      have hnamed : Writes st named := by
        rw [of_put_id hput]
        exact ⟨_, _, _, _, _, _, _, _, rfl⟩
      have happ := (sniff_app_data_spec named buf).1
      obtain ⟨rng, rfl⟩ := of_draw_padding_len hdraw
      exact ((hnamed.trans happ).trans (sniffs_of_sniff_hello hhello).writes).trans
        ⟨_, _, _, _, _, _, _, _, rfl⟩

theorem framed_of_frame_buf [Rng R] {st next : VisionTlsStream S C R} {buf : List UInt8}
    (h : frame_buf st buf = .ok next) : Framed st buf next := by
  cases hdirect : st.state.write_direct_copy with
  | true =>
      rw [frame_buf_of_direct hdirect] at h
      cases h
      exact .raw hdirect
  | false =>
      have hwrites := writes_of_frame_buf h
      obtain ⟨named, padding_len, hput, hwrite⟩ := write_buf_of_frame_buf hdirect h
      obtain ⟨named', sniffed, drawn, padding_len', hput', hhello, hdraw, hnext⟩ :=
        of_frame_buf hdirect h
      obtain rfl : named = named' := Except.ok.inj (hput.symm.trans hput')
      obtain ⟨-, -, hid, hmode⟩ := sniff_app_data_spec named buf
      have hs := sniffs_of_sniff_hello hhello
      have hsent : named.state.has_sent_id = (st.state.has_sent_id || !st.state.is_server) := by
        rw [of_put_id hput]
      have hnamed : named.state.write_direct_copy = false := by
        rw [of_put_id hput]
        exact hdirect
      obtain ⟨rng, rfl⟩ := of_draw_padding_len hdraw
      refine .frame next _ padding_len hdirect hwrites hwrite ?_ ?_
      · rw [hnext]
        exact (hs.has_sent_id.trans hid).trans hsent
      · rw [hnext]
        rcases hmode with ⟨hcommand, hsame⟩ | ⟨hcommand, hset⟩
        · exact .inl ⟨hcommand, (hs.write_direct_copy.trans hsame).trans hnamed⟩
        · exact .inr ⟨hcommand, hs.write_direct_copy.trans hset⟩

theorem frame_buf_ok [Rng R] (st : VisionTlsStream S C R) (buf : List UInt8)
    (hids : st.state.is_server = false → st.state.ids ≠ []) (hvalid : st.state.padding.Valid) :
    ∃ next, frame_buf st buf = .ok next := by
  cases hdirect : st.state.write_direct_copy with
  | true => exact ⟨_, frame_buf_of_direct hdirect⟩
  | false =>
      obtain ⟨named, hput⟩ := put_id_ok st hids
      obtain ⟨sniffed, hhello, hs⟩ := sniff_hello_ok (sniff_app_data named buf).2 buf
      have hpadding : sniffed.state.padding = st.state.padding := by
        have happ := (sniff_app_data_spec named buf).1
        obtain ⟨_, _, _, _, _, _, _, _, hsniffed⟩ := happ.trans hs.writes
        rw [hsniffed, of_put_id hput]
      obtain ⟨drawn, hdraw⟩ := draw_padding_len_ok sniffed buf (hpadding ▸ hvalid)
      rw [frame_buf_eq_map hdirect hput hhello, hdraw]
      exact ⟨_, rfl⟩

-- Where the peer's reader stands when it has read everything written so far.
def boundary (st : VisionTlsStream S C R) : Phase :=
  if st.state.write_direct_copy then .direct
  else if st.state.is_server = false ∧ st.state.has_sent_id = false then .id []
  else .header []

-- The peer's reader makes the bytes of a write of the wire bytes made from it.
theorem Framed.transduce {st next : VisionTlsStream S C R} {buf : List UInt8}
    (h : Framed st buf next) (hlen : buf.length ≤ 65535) (ids : List Uuid)
    (hid : st.state.is_server = false → ∃ id, st.state.ids.head? = some id ∧ id ∈ ids) :
    ∃ wire, next.write_buf = st.write_buf ++ wire ∧
      transduce (Phase.step ids) (boundary st) wire = (boundary next, buf) := by
  cases h with
  | raw hdirect =>
      refine ⟨buf, rfl, ?_⟩
      simp [boundary, hdirect, Phase.transduce_direct]
  | frame _ command padding_len hdirect hwrites hwrite hsent hmode =>
      have hserver : next.state.is_server = st.state.is_server := by
        obtain ⟨_, _, _, _, _, _, _, _, rfl⟩ := hwrites
        rfl
      have hfirst : Lib.transduce (Phase.step ids) (boundary st) (pending_id st) =
          (.header [], []) := by
        unfold boundary pending_id
        by_cases hc : st.state.is_server = false ∧ st.state.has_sent_id = false
        · obtain ⟨id, hhead, hmem⟩ := hid hc.1
          have hbytes : (st.state.ids.map Uuid.bytes).headD [] = id.bytes := by
            simp [hhead]
          rw [if_neg (by simp [hdirect]), if_pos hc, if_pos hc, hbytes,
            Phase.transduce_id _ id.bytes id.octets.length_eq, if_pos (List.mem_map_of_mem hmem)]
        · simp [hdirect, hc]
      have hlast : Phase.settle 0 0 command = boundary next := by
        unfold boundary
        rw [hserver, hsent]
        rcases hmode with ⟨rfl, hd⟩ | ⟨rfl, hd⟩
        · cases st.state.is_server <;> simp [Phase.settle, hd]
        · simp [Phase.settle, hd]
      refine ⟨pending_id st ++ frame_bytes command buf padding_len, by simp [hwrite], ?_⟩
      rw [transduce_append, hfirst, transduce_frame_bytes ids command buf padding_len hlen, hlast]
      rfl

end VisionTlsStream

end AlphaRay
