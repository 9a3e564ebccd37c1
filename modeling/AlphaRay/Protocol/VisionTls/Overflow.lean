import AlphaRay.Protocol.VisionTls.Padding

namespace AlphaRay

open Lib

-- The ranges that can be drawn from.
structure PaddingConfig.Drawable (padding : PaddingConfig) : Prop where
  short : padding.padding_len_range.start ≤ padding.padding_len_range.stop
  long : padding.long_padding_len_range.start ≤ padding.long_padding_len_range.stop

namespace VisionTlsStream

variable {S C R : Type} [Rng R] {st next : VisionTlsStream S C R} {buf : List UInt8}

-- The write draws a long padding that is no `u16` together with the base length.
structure Overflows (st : VisionTlsStream S C R) (buf : List UInt8) : Prop where
  framed : st.state.write_direct_copy = false
  long : buf.length ≤ st.state.padding.long_padding_threshold.toNat
  sum : 65535 < (Rng.draw st.state.rng st.state.padding.long_padding_len_range).1.toNat +
    st.state.padding.long_padding_base_len.toNat

theorem draw_padding_len_ok_iff (st : VisionTlsStream S C R) (buf : List UInt8)
    (hdrawable : st.state.padding.Drawable) :
    (∃ drawn, draw_padding_len st buf = .ok drawn) ↔
      (buf.length ≤ st.state.padding.long_padding_threshold.toNat →
        (Rng.draw st.state.rng st.state.padding.long_padding_len_range).1.toNat +
          st.state.padding.long_padding_base_len.toNat ≤ 65535) := by
  simp only [draw_padding_len]
  by_cases hlong : buf.length ≤ st.state.padding.long_padding_threshold.toNat
  · simp only [hlong, if_true, Rng.u16, hdrawable.long, u16_add, bind, Except.bind, pure,
      Except.pure, true_implies]
    split_ifs with hsum
    · exact iff_of_true ⟨_, rfl⟩ hsum
    · refine iff_of_false ?_ hsum
      rintro ⟨_, h⟩
      cases h
  · simp only [hlong, if_false, Rng.u16, hdrawable.short, if_true, bind, Except.bind, pure,
      Except.pure, false_implies, iff_true]
    exact ⟨_, rfl⟩

-- No index, slice or subtraction stops a write, whatever was written before: only the sum does.
theorem frame_buf_ok_iff (st : VisionTlsStream S C R) (buf : List UInt8)
    (hids : st.state.is_server = false → st.state.ids ≠ [])
    (hdrawable : st.state.padding.Drawable) :
    (∃ next, frame_buf st buf = .ok next) ↔ ¬ Overflows st buf := by
  cases hdirect : st.state.write_direct_copy with
  | true =>
      refine iff_of_true ⟨_, frame_buf_of_direct hdirect⟩ fun h => ?_
      rw [h.framed] at hdirect
      cases hdirect
  | false =>
      obtain ⟨named, hput⟩ := put_id_ok st hids
      obtain ⟨sniffed, hhello, -⟩ := sniff_hello_ok (sniff_app_data named buf).2 buf
      have hnamed : named.state.padding = st.state.padding ∧ named.state.rng = st.state.rng := by
        rw [of_put_id hput]
        exact ⟨rfl, rfl⟩
      have hmeter := (meter_of_sniff_hello hhello).trans (meter_sniff_app_data named buf)
      have hpadding : sniffed.state.padding = st.state.padding :=
        (congrArg Meter.padding hmeter).trans hnamed.1
      have hrng : sniffed.state.rng = st.state.rng := (congrArg Meter.rng hmeter).trans hnamed.2
      have hdraw := draw_padding_len_ok_iff sniffed buf (hpadding ▸ hdrawable)
      rw [hpadding, hrng] at hdraw
      have hframe : (∃ next, frame_buf st buf = .ok next) ↔
          ∃ drawn, draw_padding_len sniffed buf = .ok drawn := by
        rw [frame_buf_eq_map hdirect hput hhello]
        cases draw_padding_len sniffed buf with
        | error panic =>
            refine iff_of_false ?_ ?_ <;> rintro ⟨_, h⟩ <;> cases h
        | ok drawn => exact iff_of_true ⟨_, rfl⟩ ⟨_, rfl⟩
      rw [hframe, hdraw]
      constructor
      · intro hsum h
        have hle := hsum h.long
        have hlt := h.sum
        omega
      · intro hno hlong
        by_contra hsum
        exact hno ⟨hdirect, hlong, by omega⟩

-- Every write of the sequence is framed, and its length is a `u16`.
def FramesAll (st : VisionTlsStream S C R) : List (List UInt8) → Prop
  | [] => True
  | buf :: bufs => (UInt16.ofNat buf.length).toNat = buf.length ∧
      ∃ next, frame_buf st buf = .ok next ∧ FramesAll next bufs

-- No write of the sequence draws a padding that is too long.
def NoneOverflows (st : VisionTlsStream S C R) : List (List UInt8) → Prop
  | [] => True
  | buf :: bufs => ¬ Overflows st buf ∧
      ∀ next, frame_buf st buf = .ok next → NoneOverflows next bufs

theorem framesAll_iff (hids : st.state.ids ≠ []) (hdrawable : st.state.padding.Drawable)
    {bufs : List (List UInt8)} (hlen : ∀ buf ∈ bufs, buf.length ≤ 65535) :
    FramesAll st bufs ↔ NoneOverflows st bufs := by
  induction bufs generalizing st with
  | nil => exact Iff.rfl
  | cons buf bufs ih =>
      have hcontent : (UInt16.ofNat buf.length).toNat = buf.length := by
        have hle := hlen buf List.mem_cons_self
        rw [UInt16.toNat_ofNat', Nat.mod_eq_of_lt (by omega)]
      have hrest : ∀ next, frame_buf st buf = .ok next →
          (FramesAll next bufs ↔ NoneOverflows next bufs) := by
        intro next hframe
        obtain ⟨_, _, _, _, _, _, _, _, rfl⟩ := writes_of_frame_buf hframe
        exact ih hids hdrawable fun buf hmem => hlen buf (List.mem_cons_of_mem _ hmem)
      have hok := frame_buf_ok_iff st buf (fun _ => hids) hdrawable
      constructor
      · rintro ⟨-, next, hframe, hall⟩
        refine ⟨hok.mp ⟨next, hframe⟩, fun next' hframe' => ?_⟩
        obtain rfl := Except.ok.inj (hframe.symm.trans hframe')
        exact (hrest next hframe).mp hall
      · rintro ⟨hno, hall⟩
        obtain ⟨next, hframe⟩ := hok.mpr hno
        exact ⟨hcontent, next, hframe, (hrest next hframe).mpr (hall next hframe)⟩

-- When every sum that can be drawn is a `u16`, no write overflows.
theorem noneOverflows_of_fits (hlong : st.state.padding.long_padding_len_range.start ≤
      st.state.padding.long_padding_len_range.stop)
    (hfits : st.state.padding.long_padding_len_range.stop.toNat +
      st.state.padding.long_padding_base_len.toNat ≤ 65535) (bufs : List (List UInt8)) :
    NoneOverflows st bufs := by
  induction bufs generalizing st with
  | nil => trivial
  | cons buf bufs ih =>
      constructor
      · intro h
        have hlt := h.sum
        have hle := UInt16.le_iff_toNat_le.mp (Rng.draw_le st.state.rng _ hlong)
        omega
      · intro next hframe
        obtain ⟨_, _, _, _, _, _, _, _, rfl⟩ := writes_of_frame_buf hframe
        exact ih hlong hfits

end VisionTlsStream

open VisionTlsStream

-- A generator that always draws the upper end of the range.
structure Highest where
  deriving DecidableEq

instance : Rng Highest where
  draw rng range := (range.stop, rng)
  le_draw _ _ h := h
  draw_le _ _ _ := UInt16.le_refl _

-- A sequence of writes is framed without a panic unless one of them draws a sum that is no
-- `u16`; a configuration that rules this out is one under which no generator can do so.
theorem vision_frame_overflow_iff (padding : PaddingConfig) (hdrawable : padding.Drawable) :
    (∀ (S C R : Type) [Connection C] [Rng R] (inner : S) (session : C) (ids : List Uuid) (rng : R)
      (bufs : List (List UInt8)), ids ≠ [] → (∀ buf ∈ bufs, buf.length ≤ 65535) →
      (FramesAll (.new inner session ids rng padding) bufs ↔
        NoneOverflows (.new inner session ids rng padding) bufs)) ∧
    ((∀ (S C R : Type) [Connection C] [Rng R] (inner : S) (session : C) (ids : List Uuid) (rng : R)
      (bufs : List (List UInt8)), ids ≠ [] → (∀ buf ∈ bufs, buf.length ≤ 65535) →
      FramesAll (.new inner session ids rng padding) bufs) ↔
    padding.long_padding_len_range.stop.toNat + padding.long_padding_base_len.toNat ≤ 65535) := by
  constructor
  · intro S C R _ _ inner session ids rng bufs hids hlen
    exact framesAll_iff hids hdrawable hlen
  · constructor
    · intro hall
      by_contra hsum
      have hframes := hall Scripted NullCipher Highest ⟨[], []⟩ (.new false 64 64) [idOfSevens] ⟨⟩
        [[]] (by simp) (by simp)
      -- even an empty write draws a long padding
      refine ((framesAll_iff (by simp [new, VisionState.new]) hdrawable (by simp)).mp hframes).1 ?_
      exact ⟨rfl, Nat.zero_le _, Nat.lt_of_not_le hsum⟩
    · intro hfits S C R _ _ inner session ids rng bufs hids hlen
      exact (framesAll_iff hids hdrawable hlen).mpr (noneOverflows_of_fits hdrawable.long hfits bufs)

theorem vision_frame_overflow_three_writes :
    FramesAll (.new (⟨[], []⟩ : Scripted) (.new false 64 64 : NullCipher) [idOfSevens] (⟨⟩ : Highest)
      paddingOfThree) [[], [9], [1, 2, 3]] :=
  (vision_frame_overflow_iff paddingOfThree ⟨by decide, by decide⟩).2.mpr (by decide) _ _ _ _ _ _ _ _
    (by simp) (by simp)

def paddingTooLong : PaddingConfig where
  padding_len_range := ⟨0, 256⟩
  long_padding_threshold := 900
  long_padding_base_len := 65500
  long_padding_len_range := ⟨0, 500⟩

-- The first byte that is written stops the program.
theorem vision_frame_overflows : paddingTooLong.Drawable ∧
    frame_buf (.new (⟨[], []⟩ : Scripted) (.new false 64 64 : NullCipher) [idOfSevens]
      (⟨⟩ : Highest) paddingTooLong) [9] = .error .Overflow ∧
    ¬ FramesAll (.new (⟨[], []⟩ : Scripted) (.new false 64 64 : NullCipher) [idOfSevens]
      (⟨⟩ : Highest) paddingTooLong) [[9]] := by
  have hstopped : frame_buf (.new (⟨[], []⟩ : Scripted) (.new false 64 64 : NullCipher) [idOfSevens]
      (⟨⟩ : Highest) paddingTooLong) [9] = .error .Overflow := rfl
  refine ⟨⟨by decide, by decide⟩, hstopped, ?_⟩
  rintro ⟨-, next, hframe, -⟩
  rw [hstopped] at hframe
  cases hframe

end AlphaRay
