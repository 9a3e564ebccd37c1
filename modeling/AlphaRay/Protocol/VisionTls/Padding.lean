import AlphaRay.Protocol.VisionTls.RoundTrip

namespace AlphaRay

open Lib

-- Buffers that the padding is meant to hide.
structure PaddingConfig.Covers (padding : PaddingConfig) (buf : List UInt8) : Prop where
  threshold : buf.length ≤ padding.long_padding_threshold.toNat
  shortest : buf.length ≤
    padding.long_padding_base_len.toNat + padding.long_padding_len_range.start.toNat

-- What the length of the next frame depends on, as long as its content is covered.
structure Meter (R : Type) where
  ids : List Uuid
  rng : R
  padding : PaddingConfig
  is_server : Bool
  has_sent_id : Bool

namespace Meter

variable {R : Type} [Rng R]

-- The bytes that go out before the next frame.
def id_len (meter : Meter R) : Except Panic Nat :=
  if !meter.is_server && !meter.has_sent_id then do
    let id ← index meter.ids 0
    return id.bytes.length
  else return 0

-- The length of a frame, its id included, is drawn without a look at its content.
def write (meter : Meter R) : Except Panic (Nat × Meter R) := do
  let id_len ← meter.id_len
  let (draw, rng) ← Rng.u16 meter.rng meter.padding.long_padding_len_range
  return (id_len + 5 + (draw.toNat + meter.padding.long_padding_base_len.toNat), { meter with
    rng := rng
    has_sent_id := meter.has_sent_id || !meter.is_server })

def writes (meter : Meter R) : Nat → Except Panic (Meter R)
  | 0 => return meter
  | n + 1 => do
      let meter ← meter.writes n
      let (_, meter) ← meter.write
      return meter

end Meter

namespace VisionTlsStream

variable {S C R : Type} {st next : VisionTlsStream S C R} {buf : List UInt8}

def meter (st : VisionTlsStream S C R) : Meter R where
  ids := st.state.ids
  rng := st.state.rng
  padding := st.state.padding
  is_server := st.state.is_server
  has_sent_id := st.state.has_sent_id

theorem meter_sniff_app_data (st : VisionTlsStream S C R) (buf : List UInt8) :
    meter (sniff_app_data st buf).2 = meter st := by
  unfold sniff_app_data
  split
  · rfl
  · rfl

theorem meter_of_start_hello (h : start_hello st buf = .ok next) : meter next = meter st := by
  unfold start_hello at h
  split at h
  · obtain ⟨kind, -, hnext⟩ := of_bind_ok h
    cases hnext
    split
    · rfl
    · rfl
  · cases h
    rfl

theorem meter_of_collect_hello (h : collect_hello st buf = .ok next) : meter next = meter st := by
  unfold collect_hello at h
  split at h
  · obtain ⟨room, -, h⟩ := of_bind_ok h
    obtain ⟨copied, -, hnext⟩ := of_bind_ok h
    cases hnext
    rfl
  · cases h
    rfl

theorem meter_of_sniff_cipher_suite (h : sniff_cipher_suite st = .ok next) :
    meter next = meter st := by
  unfold sniff_cipher_suite at h
  split at h
  · obtain ⟨session_id_len, -, h⟩ := of_bind_ok h
    split at h
    · obtain ⟨cipher_suite, -, hnext⟩ := of_bind_ok h
      cases hnext
      rfl
    · cases h
      rfl
  · cases h
    rfl

theorem meter_of_sniff_hello (h : sniff_hello st buf = .ok next) : meter next = meter st := by
  unfold sniff_hello at h
  split at h
  · exact meter_of_start_hello h
  · obtain ⟨mid, hcollect, hsuite⟩ := of_bind_ok h
    exact (meter_of_sniff_cipher_suite hsuite).trans (meter_of_collect_hello hcollect)

-- The id that is put, if one is due.
theorem put_id_metered (st : VisionTlsStream S C R) :
    (∃ panic, put_id st = .error panic ∧ (meter st).id_len = .error panic) ∨
    ∃ next id, put_id st = .ok next ∧ (meter st).id_len = .ok id.length ∧
      next.write_buf = st.write_buf ++ id ∧
      meter next = { meter st with
        has_sent_id := (meter st).has_sent_id || !(meter st).is_server } := by
  unfold put_id Meter.id_len
  by_cases hfirst : (!st.state.is_server && !st.state.has_sent_id) = true
  · have hmeter : (!(meter st).is_server && !(meter st).has_sent_id) = true := hfirst
    rw [if_pos hfirst, if_pos hmeter]
    rcases hid : index st.state.ids 0 with panic | id
    · exact .inl ⟨panic, rfl, by rw [show (meter st).ids = st.state.ids from rfl, hid]; rfl⟩
    · refine .inr ⟨_, id.bytes, rfl, ?_, rfl, ?_⟩
      · rw [show (meter st).ids = st.state.ids from rfl, hid]
        rfl
      · simp only [Bool.and_eq_true, Bool.not_eq_true'] at hfirst
        simp [meter, hfirst.1]
  · have hmeter : ¬ (!(meter st).is_server && !(meter st).has_sent_id) = true := hfirst
    rw [if_neg hfirst, if_neg hmeter]
    refine .inr ⟨st, [], rfl, rfl, (List.append_nil _).symm, ?_⟩
    cases hserver : st.state.is_server <;> cases hsent : st.state.has_sent_id <;>
      simp_all [meter]

-- The padding fills a covered content up to the length that was drawn.
theorem draw_padding_len_metered [Rng R] (st : VisionTlsStream S C R)
    (hcovers : st.state.padding.Covers buf)
    (hfits : st.state.padding.long_padding_len_range.stop.toNat +
      st.state.padding.long_padding_base_len.toNat ≤ 65535) :
    (∃ panic, draw_padding_len st buf = .error panic ∧
      Rng.u16 st.state.rng st.state.padding.long_padding_len_range = .error panic) ∨
    ∃ padding_len draw rng,
      Rng.u16 st.state.rng st.state.padding.long_padding_len_range = .ok (draw, rng) ∧
      draw_padding_len st buf =
        .ok (padding_len, { st with state := { st.state with rng := rng } }) ∧
      buf.length + padding_len.toNat =
        draw.toNat + st.state.padding.long_padding_base_len.toNat := by
  have hthreshold := hcovers.threshold
  have hshortest := hcovers.shortest
  simp only [draw_padding_len, hthreshold, if_true]
  by_cases hrange : st.state.padding.long_padding_len_range.start ≤
      st.state.padding.long_padding_len_range.stop
  · have hle := UInt16.le_iff_toNat_le.mp
      (Rng.draw_le st.state.rng st.state.padding.long_padding_len_range hrange)
    have hge := UInt16.le_iff_toNat_le.mp
      (Rng.le_draw st.state.rng st.state.padding.long_padding_len_range hrange)
    rcases hdraw : Rng.draw st.state.rng st.state.padding.long_padding_len_range with ⟨draw, rng⟩
    rw [hdraw] at hle hge
    dsimp only at hle hge
    simp only [Rng.u16, hrange, if_true, hdraw, bind, Except.bind, pure, Except.pure]
    rw [u16_add_of_le _ _ (by omega)]
    refine .inr ⟨_, draw, rng, rfl, rfl, ?_⟩
    have hcontent : (UInt16.ofNat buf.length).toNat = buf.length := by
      have hlt := st.state.padding.long_padding_threshold.toNat_lt
      rw [UInt16.toNat_ofNat', Nat.mod_eq_of_lt (by omega)]
    rw [u16_saturating_sub, hcontent, UInt16.toNat_ofNat', UInt16.toNat_add, Nat.mod_eq_of_lt,
      Nat.mod_eq_of_lt]
    · omega
    · omega
    · omega
  · refine .inl ⟨.EmptyRange, ?_, ?_⟩
    · simp only [Rng.u16, hrange, if_false, bind, Except.bind]
    · simp only [Rng.u16, hrange, if_false]

-- A covered write goes by the meter: the same panic, or as many bytes as it says.
theorem frame_buf_metered [Rng R] (st : VisionTlsStream S C R)
    (hdirect : st.state.write_direct_copy = false) (hcovers : st.state.padding.Covers buf)
    (hfits : st.state.padding.long_padding_len_range.stop.toNat +
      st.state.padding.long_padding_base_len.toNat ≤ 65535) :
    (∃ panic, frame_buf st buf = .error panic ∧ (meter st).write = .error panic) ∨
    ∃ next wire, frame_buf st buf = .ok next ∧ next.write_buf = st.write_buf ++ wire ∧
      (meter st).write = .ok (wire.length, meter next) := by
  rcases put_id_metered st with ⟨panic, hput, hid⟩ | ⟨named, id, hput, hid, hbuf, hmeter⟩
  · refine .inl ⟨panic, ?_, ?_⟩
    · rw [frame_buf_eq st buf hdirect, hput]
      rfl
    · rw [Meter.write, hid]
      rfl
  · have happ := meter_sniff_app_data named buf
    obtain ⟨-, hkept, -⟩ := sniff_app_data_spec named buf
    obtain ⟨sniffed, hhello, hs⟩ := sniff_hello_ok (sniff_app_data named buf).2 buf
    have hframe := frame_buf_eq_map hdirect hput hhello
    have hsame : meter sniffed = { meter st with
        has_sent_id := (meter st).has_sent_id || !(meter st).is_server } :=
      ((meter_of_sniff_hello hhello).trans happ).trans hmeter
    have hpadding : sniffed.state.padding = st.state.padding := congrArg Meter.padding hsame
    have hrng : sniffed.state.rng = st.state.rng := congrArg Meter.rng hsame
    have hdrawn := draw_padding_len_metered sniffed (hpadding ▸ hcovers) (hpadding ▸ hfits)
    rw [hpadding, hrng] at hdrawn
    rcases hdrawn with ⟨panic, hdraw, hu16⟩ | ⟨padding_len, draw, rng, hu16, hdraw, hlen⟩
    · refine .inl ⟨panic, ?_, ?_⟩
      · rw [hframe, hdraw]
        rfl
      · simp only [Meter.write, hid, bind, Except.bind]
        rw [show Rng.u16 (meter st).rng (meter st).padding.long_padding_len_range =
          .error panic from hu16]
    · refine .inr ⟨put_frame { sniffed with state := { sniffed.state with rng := rng } }
        (sniff_app_data named buf).1 buf padding_len,
        id ++ frame_bytes (sniff_app_data named buf).1 buf padding_len, ?_, ?_, ?_⟩
      · rw [hframe, hdraw]
        rfl
      · simp only [put_frame, frame_bytes, hs.write_buf, hkept, hbuf, List.append_assoc]
      · have hwire : (id ++ frame_bytes (sniff_app_data named buf).1 buf padding_len).length =
            id.length + 5 + (draw.toNat + st.state.padding.long_padding_base_len.toNat) := by
          simp only [List.length_append, length_frame_bytes]
          omega
        simp only [Meter.write, hid, bind, Except.bind, pure, Except.pure]
        rw [show Rng.u16 (meter st).rng (meter st).padding.long_padding_len_range =
          .ok (draw, rng) from hu16, hwire]
        have hnext : meter (put_frame { sniffed with state := { sniffed.state with rng := rng } }
            (sniff_app_data named buf).1 buf padding_len) = { meter sniffed with rng := rng } := rfl
        rw [hnext, hsame]
        rfl

-- The writes of a run, one call of `frame_buf` each.
def FrameStep [Rng R] (st : VisionTlsStream S C R) (buf : List UInt8)
    (next : VisionTlsStream S C R) : Prop := frame_buf st buf = .ok next

variable [Rng R] {start : VisionTlsStream S C R}
  {past : List (Transition (VisionTlsStream S C R) (List UInt8))}

theorem direct_of_frame_buf (h : frame_buf st buf = .ok next)
    (hdirect : st.state.write_direct_copy = true) : next.state.write_direct_copy = true := by
  rw [frame_buf_of_direct hdirect] at h
  cases h
  exact hdirect

-- While nothing is copied directly, the meter counts the writes and nothing else.
theorem meter_of_run
    (hfits : start.state.padding.long_padding_len_range.stop.toNat +
      start.state.padding.long_padding_base_len.toNat ≤ 65535)
    (hrun : Run FrameStep start past st) (hcovers : ∀ t ∈ past, start.state.padding.Covers t.label)
    (hdirect : st.state.write_direct_copy = false) :
    (meter start).writes past.length = .ok (meter st) ∧
      st.state.padding = start.state.padding := by
  revert hdirect
  refine hrun.rule_of_forall (fun t => start.state.padding.Covers t.label)
    (fun past (st : VisionTlsStream S C R) => st.state.write_direct_copy = false →
      (meter start).writes past.length = .ok (meter st) ∧
        st.state.padding = start.state.padding) ?_ ?_ hcovers
  · exact fun _ => ⟨rfl, rfl⟩
  · intro past last _ ih hstep hlast hdirect
    have hframe : frame_buf last.before last.label = .ok last.after := hstep
    have hbefore : last.before.state.write_direct_copy = false := by
      by_contra hcopy
      have hcopied := direct_of_frame_buf hframe (by simpa using hcopy)
      rw [hdirect] at hcopied
      cases hcopied
    obtain ⟨hwrites, hpadding⟩ := ih hbefore
    rcases frame_buf_metered last.before hbefore (hpadding ▸ hlast) (hpadding ▸ hfits) with
      ⟨panic, hpanic, -⟩ | ⟨next, wire, hnext, -, hwrite⟩
    · rw [hframe] at hpanic
      cases hpanic
    · obtain rfl : last.after = next := Except.ok.inj (hframe.symm.trans hnext)
      constructor
      · rw [List.length_append, List.length_singleton, Meter.writes, hwrites]
        simp only [bind, Except.bind, hwrite, pure, Except.pure]
      · exact (writes_of_frame_buf hframe).setup.padding.trans hpadding

end VisionTlsStream

open VisionTlsStream

-- Two runs of equally many covered writes from one state: as long as neither copies
-- directly, the next write of each adds as many bytes to the wire as that of the other.
theorem vision_lengths_hidden {S C R : Type} [Rng R] (start : VisionTlsStream S C R)
    (hfits : start.state.padding.long_padding_len_range.stop.toNat +
      start.state.padding.long_padding_base_len.toNat ≤ 65535)
    (past past' : List (Transition (VisionTlsStream S C R) (List UInt8)))
    (st st' : VisionTlsStream S C R) (hrun : Run FrameStep start past st)
    (hrun' : Run FrameStep start past' st') (hlen : past.length = past'.length)
    (hcovers : ∀ t ∈ past, start.state.padding.Covers t.label)
    (hcovers' : ∀ t ∈ past', start.state.padding.Covers t.label)
    (hdirect : st.state.write_direct_copy = false) (hdirect' : st'.state.write_direct_copy = false)
    (buf buf' : List UInt8) (hbuf : start.state.padding.Covers buf)
    (hbuf' : start.state.padding.Covers buf') :
    (∃ panic, st.frame_buf buf = .error panic ∧ st'.frame_buf buf' = .error panic) ∨
    ∃ next next' wire wire', st.frame_buf buf = .ok next ∧ st'.frame_buf buf' = .ok next' ∧
      next.write_buf = st.write_buf ++ wire ∧ next'.write_buf = st'.write_buf ++ wire' ∧
      wire.length = wire'.length := by
  obtain ⟨hmeter, hpadding⟩ := meter_of_run hfits hrun hcovers hdirect
  obtain ⟨hmeter', hpadding'⟩ := meter_of_run hfits hrun' hcovers' hdirect'
  have hsame : meter st = meter st' := by
    rw [hlen] at hmeter
    exact Except.ok.inj (hmeter.symm.trans hmeter')
  have hfirst := frame_buf_metered st hdirect (hpadding ▸ hbuf) (hpadding ▸ hfits)
  have hsecond := frame_buf_metered st' hdirect' (hpadding' ▸ hbuf') (hpadding' ▸ hfits)
  rw [hsame] at hfirst
  rcases hfirst with ⟨panic, hpanic, hwrite⟩ | ⟨next, wire, hnext, hwire, hwrite⟩
  · rcases hsecond with ⟨panic', hpanic', hwrite'⟩ | ⟨next', wire', hnext', hwire', hwrite'⟩
    · obtain rfl : panic = panic' := Except.error.inj (hwrite.symm.trans hwrite')
      exact .inl ⟨panic, hpanic, hpanic'⟩
    · rw [hwrite] at hwrite'
      cases hwrite'
  · rcases hsecond with ⟨panic', hpanic', hwrite'⟩ | ⟨next', wire', hnext', hwire', hwrite'⟩
    · rw [hwrite] at hwrite'
      cases hwrite'
    · have hboth := Except.ok.inj (hwrite.symm.trans hwrite')
      exact .inr ⟨next, next', wire, wire', hnext, hnext', hwire, hwire',
        congrArg Prod.fst hboth⟩

-- A client that writes nothing, and one that writes two bytes twice.
def hidingClient : VisionTlsStream Scripted NullCipher Lowest :=
  .new ⟨[], []⟩ (.new false 64 64) [idOfSevens] ⟨⟩ paddingOfThree

theorem vision_lengths_hidden_two_writes : ∃ st st' next next',
    Run FrameStep hidingClient [⟨hidingClient, [], st⟩] st ∧
    Run FrameStep hidingClient [⟨hidingClient, [1, 2], st'⟩] st' ∧
    st.frame_buf [] = .ok next ∧ st'.frame_buf [3, 4] = .ok next' ∧
    ∃ wire wire', next.write_buf = st.write_buf ++ wire ∧
      next'.write_buf = st'.write_buf ++ wire' ∧ wire.length = wire'.length := by
  obtain ⟨st, st', next, next', hfirst, hfirst', hnext, hnext', hdirect, hdirect'⟩ :
      ∃ st st' next next', hidingClient.frame_buf [] = .ok st ∧
        hidingClient.frame_buf [1, 2] = .ok st' ∧ st.frame_buf [] = .ok next ∧
        st'.frame_buf [3, 4] = .ok next' ∧ st.state.write_direct_copy = false ∧
        st'.state.write_direct_copy = false :=
    ⟨_, _, _, _, rfl, rfl, rfl, rfl, rfl, rfl⟩
  have hrun : Run FrameStep hidingClient [⟨hidingClient, [], st⟩] st := Run.nil.next hfirst
  have hrun' : Run FrameStep hidingClient [⟨hidingClient, [1, 2], st'⟩] st' :=
    Run.nil.next hfirst'
  refine ⟨st, st', next, next', hrun, hrun', hnext, hnext', ?_⟩
  have hcovers : paddingOfThree.Covers [] := ⟨by decide, by decide⟩
  have hcovers' : paddingOfThree.Covers [1, 2] := ⟨by decide, by decide⟩
  have hhidden := vision_lengths_hidden hidingClient (by decide) _ _ st st' hrun hrun' rfl
    (fun t ht => List.mem_singleton.mp ht ▸ hcovers)
    (fun t ht => List.mem_singleton.mp ht ▸ hcovers')
    hdirect hdirect' [] [3, 4] ⟨by decide, by decide⟩ ⟨by decide, by decide⟩
  rcases hhidden with ⟨panic, hpanic, -⟩ | ⟨_, _, wire, wire', hok, hok', hwire, hwire', hlen⟩
  · rw [hnext] at hpanic
    cases hpanic
  · obtain rfl := Except.ok.inj (hnext.symm.trans hok)
    obtain rfl := Except.ok.inj (hnext'.symm.trans hok')
    exact ⟨wire, wire', hwire, hwire', hlen⟩

end AlphaRay
