import AlphaRay.Lib.Loop
import AlphaRay.Rustls
import AlphaRay.Util

namespace AlphaRay

structure RangeInclusive where
  start : UInt16
  stop : UInt16

-- The generator of fastrand, which is not part of this repository. All that is
-- known of a draw is that it lies in the range it was asked for.
class Rng (R : Type) where
  draw : R → RangeInclusive → UInt16 × R
  le_draw : ∀ rng range, range.start ≤ range.stop → range.start ≤ (draw rng range).1
  draw_le : ∀ rng range, range.start ≤ range.stop → (draw rng range).1 ≤ range.stop

-- `Rng::u16` panics on an empty range.
def Rng.u16 {R : Type} [Rng R] (rng : R) (range : RangeInclusive) : Except Panic (UInt16 × R) :=
  if range.start ≤ range.stop then .ok (Rng.draw rng range) else .error .EmptyRange

inductive VisionCommand where
  | ContinuePadding
  | EndPadding
  | StartDirectCopy
  deriving DecidableEq

namespace VisionCommand

-- `command as u8`
def as_u8 : VisionCommand → UInt8
  | ContinuePadding => 0
  | EndPadding => 1
  | StartDirectCopy => 2

def try_from (value : UInt8) : IoResult VisionCommand :=
  if value = 0 then .ok ContinuePadding
  else if value = 1 then .ok EndPadding
  else if value = 2 then .ok StartDirectCopy
  else .error ⟨.InvalidData, "invalid command"⟩

@[simp] theorem try_from_as_u8 (command : VisionCommand) :
    try_from command.as_u8 = .ok command := by
  cases command <;> rfl

end VisionCommand

inductive VisionReadingStage where
  | Id
  | Header
  | Content
  | Padding
  deriving DecidableEq

structure PaddingConfig where
  padding_len_range : RangeInclusive
  long_padding_threshold : UInt16
  long_padding_base_len : UInt16
  long_padding_len_range : RangeInclusive

structure VisionState (R : Type) where
  ids : List Uuid
  rng : R
  padding : PaddingConfig
  is_server : Bool
  has_sent_id : Bool
  is_safe_tls_ver : Bool
  has_seen_tls_app_data : Bool
  stage : VisionReadingStage
  remaining_content_len : Nat
  remaining_padding_len : Nat
  command : VisionCommand
  read_direct_copy : Bool
  write_direct_copy : Bool
  can_start_direct_copy : Bool

def VisionState.new {R : Type} (ids : List Uuid) (rng : R) (is_server : Bool)
    (padding : PaddingConfig) : VisionState R where
  ids := ids
  rng := rng
  padding := padding
  is_server := is_server
  has_sent_id := false
  is_safe_tls_ver := false
  has_seen_tls_app_data := false
  stage := .Id
  remaining_content_len := 0
  remaining_padding_len := 0
  command := .ContinuePadding
  read_direct_copy := false
  write_direct_copy := false
  can_start_direct_copy := false

structure VisionTlsStream (S C R : Type) where
  inner : S
  session : C
  state : VisionState R
  read_buf : List UInt8
  write_buf : List UInt8
  server_hello_buf : List UInt8

def MAX_TLS_SNIFFING_LEN : Nat := 128

namespace VisionTlsStream

open Lib

variable {S C R : Type}

-- The generator is seeded by the system, so its state is an argument here.
def new [Connection C] (inner : S) (session : C) (ids : List Uuid) (rng : R)
    (padding : PaddingConfig) : VisionTlsStream S C R where
  inner := inner
  session := session
  state := .new ids rng (Connection.is_server session) padding
  read_buf := []
  write_buf := []
  server_hello_buf := []

-- One pass through the loop of `unframe_read_buf`, on the stream, the caller's
-- buffer and the count `n` of bytes put into it.
def unframe_pass (pass : VisionTlsStream S C R × ReadBuf × Nat) :
    Pass (VisionTlsStream S C R × ReadBuf × Nat)
      (IoResult Nat × VisionTlsStream S C R × ReadBuf) :=
  let (st, buf, n) := pass
  if st.read_buf = [] then .leave (.ok n, st, buf)
  else if st.state.read_direct_copy then
    let len_to_write := min st.read_buf.length buf.remaining
    if len_to_write = 0 then .leave (.ok n, st, buf)
    else
      .again ({ st with read_buf := st.read_buf.drop len_to_write },
        buf.put_slice (st.read_buf.take len_to_write), n + len_to_write)
  else
    match st.state.stage with
    | .Id =>
        if st.state.is_server then
          if st.read_buf.length < 16 then .leave (.ok n, st, buf)
          else if st.read_buf.take 16 ∉ st.state.ids.map Uuid.bytes then
            .again ({ st with state := { st.state with read_direct_copy := true } }, buf, n)
          else
            .again ({ st with
              read_buf := st.read_buf.drop 16
              state := { st.state with stage := .Header } }, buf, n)
        else .again ({ st with state := { st.state with stage := .Header } }, buf, n)
    | .Header =>
        if st.read_buf.length < 5 then .leave (.ok n, st, buf)
        else
          match VisionCommand.try_from (st.read_buf.headD 0) with
          | .error e => .leave (.error e, st, buf)
          | .ok command =>
              let content_len := u16_from_be_bytes ((st.read_buf.drop 1).take 2)
              let padding_len := u16_from_be_bytes ((st.read_buf.drop 3).take 2)
              .again ({ st with
                read_buf := st.read_buf.drop 5
                state := { st.state with
                  command := command
                  remaining_content_len := content_len.toNat
                  remaining_padding_len := padding_len.toNat
                  stage := .Content } }, buf, n)
    | .Content =>
        let needed_len := st.state.remaining_content_len
        if needed_len = 0 then
          .again ({ st with state := { st.state with stage := .Padding } }, buf, n)
        else
          let len_to_process := min st.read_buf.length needed_len
          let len_to_write := min len_to_process buf.remaining
          let read_buf := st.read_buf.drop len_to_write
          let buf := buf.put_slice (st.read_buf.take len_to_write)
          let remaining := needed_len - len_to_write
          let n := n + len_to_write
          if buf.remaining = 0 ∧ 0 < remaining then
            .leave (.ok n, { st with
              read_buf := read_buf
              state := { st.state with remaining_content_len := remaining } }, buf)
          else
            .again ({ st with
              read_buf := read_buf
              state := { st.state with
                remaining_content_len := remaining
                stage := if remaining = 0 then .Padding else .Content } }, buf, n)
    | .Padding =>
        let len_to_drop := min st.read_buf.length st.state.remaining_padding_len
        let remaining := st.state.remaining_padding_len - len_to_drop
        let st := { st with
          read_buf := st.read_buf.drop len_to_drop
          state := { st.state with remaining_padding_len := remaining } }
        if remaining = 0 then
          match st.state.command with
          | .ContinuePadding =>
              .again ({ st with state := { st.state with stage := .Header } }, buf, n)
          | .EndPadding | .StartDirectCopy =>
              .again ({ st with
                state := { st.state with read_direct_copy := true, stage := .Header } }, buf, n)
        else .leave (.ok n, st, buf)

-- Every four bytes of the buffer pay for a trip through the stages, and a stage
-- that is left without eating anything lowers the rank.
def unframe_rank (st : VisionTlsStream S C R) : Nat :=
  if st.state.read_direct_copy then 0
  else
    match st.state.stage with
    | .Id => 2
    | .Header => 1
    | .Padding => 2
    | .Content => 3

def unframe_measure (pass : VisionTlsStream S C R × ReadBuf × Nat) : Nat :=
  4 * pass.1.read_buf.length + unframe_rank pass.1

theorem unframe_pass_lt (pass next : VisionTlsStream S C R × ReadBuf × Nat)
    (h : unframe_pass pass = .again next) : unframe_measure next < unframe_measure pass := by
  obtain ⟨st, buf, n⟩ := pass
  simp only [unframe_pass] at h
  split at h
  · cases h
  rename_i hne
  have hlen : 0 < st.read_buf.length := List.length_pos_of_ne_nil hne
  split at h
  · rename_i hd
    split at h <;> cases h
    simp only [unframe_measure, unframe_rank, hd, if_true, List.length_drop]
    omega
  rename_i hd
  cases hs : st.state.stage <;> simp only [hs] at h
  case Id =>
    split at h
    · split at h
      · cases h
      · split at h
        · cases h
          simp [unframe_measure, unframe_rank, hs, hd]
        · cases h
          simp only [unframe_measure, unframe_rank, hs, hd, List.length_drop, if_false,
            Bool.false_eq_true]
          omega
    · cases h
      simp [unframe_measure, unframe_rank, hs, hd]
  case Header =>
    split at h
    · cases h
    · split at h <;> cases h
      simp only [unframe_measure, unframe_rank, hs, hd, List.length_drop, if_false,
        Bool.false_eq_true]
      omega
  case Content =>
    split at h
    · cases h
      simp [unframe_measure, unframe_rank, hs, hd]
    · split at h
      · cases h
      · rename_i hcontent hmore
        rw [ReadBuf.put_slice_remaining, List.length_take] at hmore
        cases h
        simp only [unframe_measure, unframe_rank, hs, hd, List.length_drop, if_false,
          Bool.false_eq_true]
        split_ifs
        · dsimp only
          omega
        · dsimp only
          omega
  case Padding =>
    split at h
    · split at h
      · cases h
        simp only [unframe_measure, unframe_rank, hs, hd, List.length_drop, if_false,
          Bool.false_eq_true]
        omega
      all_goals
        cases h
        simp only [unframe_measure, unframe_rank, hs, hd, List.length_drop, if_false, if_true,
          Bool.false_eq_true]
        omega
    · cases h

theorem unframe_ends (st : VisionTlsStream S C R) (buf : ReadBuf) :
    (loop (fun pass => some (unframe_pass pass)) (unframe_measure (st, buf, 0) + 1)
      (st, buf, 0)).isSome := by
  have hpass : ∀ pass : VisionTlsStream S C R × ReadBuf × Nat, True →
      (∃ next, some (unframe_pass pass) = some (.again next) ∧ True ∧
        unframe_measure next < unframe_measure pass) ∨
      ∃ result, some (unframe_pass pass) = some (.leave result) ∧ True := by
    intro pass _
    cases h : unframe_pass pass with
    | again next => exact .inl ⟨next, rfl, trivial, unframe_pass_lt pass next h⟩
    | leave result => exact .inr ⟨result, rfl, trivial⟩
  obtain ⟨result, h, _⟩ := loop_ends (fun _ => True) (fun _ => True) unframe_measure hpass
    trivial (Nat.lt_succ_self (unframe_measure (st, buf, 0)))
  simp [h]

def unframe_read_buf (st : VisionTlsStream S C R) (buf : ReadBuf) :
    IoResult Nat × VisionTlsStream S C R × ReadBuf :=
  if buf.remaining = 0 then (.ok 0, st, buf)
  else (loop (fun pass => some (unframe_pass pass)) (unframe_measure (st, buf, 0) + 1)
    (st, buf, 0)).get (unframe_ends st buf)

-- The client's id goes out once, in front of its first frame.
def put_id (st : VisionTlsStream S C R) : Except Panic (VisionTlsStream S C R) :=
  if !st.state.is_server && !st.state.has_sent_id then do
    let id ← index st.state.ids 0
    return { st with
      write_buf := st.write_buf ++ id.bytes
      state := { st.state with has_sent_id := true } }
  else return st

def sniff_app_data (st : VisionTlsStream S C R) (buf : List UInt8) :
    VisionCommand × VisionTlsStream S C R :=
  if st.state.can_start_direct_copy ∧ 3 ≤ buf.length ∧ [0x17, 0x03, 0x03].isPrefixOf buf then
    (.StartDirectCopy, { st with
      state := { st.state with has_seen_tls_app_data := true, write_direct_copy := true } })
  else (.ContinuePadding, st)

-- A handshake record starts the collection; a client hello allows direct copy.
def start_hello (st : VisionTlsStream S C R) (buf : List UInt8) :
    Except Panic (VisionTlsStream S C R) :=
  if 6 ≤ buf.length ∧ [0x16, 0x03, 0x01].isPrefixOf buf then do
    let kind ← index buf 5
    let st := { st with
      server_hello_buf := st.server_hello_buf ++ buf
      state := { st.state with is_safe_tls_ver := true } }
    return if kind = 0x01 then
        { st with state := { st.state with can_start_direct_copy := true } }
      else st
  else return st

def collect_hello (st : VisionTlsStream S C R) (buf : List UInt8) :
    Except Panic (VisionTlsStream S C R) :=
  if st.server_hello_buf.length < MAX_TLS_SNIFFING_LEN then do
    let room ← usize_sub MAX_TLS_SNIFFING_LEN st.server_hello_buf.length
    let copied ← slice buf 0 (min room buf.length)
    return { st with server_hello_buf := st.server_hello_buf ++ copied }
  else return st

-- The cipher suite stands behind the session id. Direct copy may not start with
-- TLS_AES_128_CCM_8_SHA256.
def sniff_cipher_suite (st : VisionTlsStream S C R) : Except Panic (VisionTlsStream S C R) :=
  if 44 ≤ st.server_hello_buf.length then do
    let session_id_len ← index st.server_hello_buf 43
    if 47 + session_id_len.toNat ≤ st.server_hello_buf.length then
      let idx := 44 + session_id_len.toNat
      let cipher_suite ← slice st.server_hello_buf idx (idx + 2)
      return { st with
        state := { st.state with
          can_start_direct_copy := u16_from_be_bytes cipher_suite != 0x1305 }
        server_hello_buf := [] }
    else return st
  else return st

def sniff_hello (st : VisionTlsStream S C R) (buf : List UInt8) :
    Except Panic (VisionTlsStream S C R) :=
  if st.server_hello_buf = [] then start_hello st buf
  else do
    let st ← collect_hello st buf
    sniff_cipher_suite st

def draw_padding_len [Rng R] (st : VisionTlsStream S C R) (buf : List UInt8) :
    Except Panic (UInt16 × VisionTlsStream S C R) :=
  let content_len := UInt16.ofNat buf.length
  let padding := st.state.padding
  if buf.length ≤ padding.long_padding_threshold.toNat then do
    let (draw, rng) ← Rng.u16 st.state.rng padding.long_padding_len_range
    let len ← u16_add draw padding.long_padding_base_len
    return (u16_saturating_sub len content_len, { st with state := { st.state with rng := rng } })
  else do
    let (draw, rng) ← Rng.u16 st.state.rng padding.padding_len_range
    return (draw, { st with state := { st.state with rng := rng } })

def put_frame (st : VisionTlsStream S C R) (command : VisionCommand) (buf : List UInt8)
    (padding_len : UInt16) : VisionTlsStream S C R :=
  { st with
    write_buf := st.write_buf ++ [command.as_u8] ++ u16_to_be_bytes (UInt16.ofNat buf.length) ++
      u16_to_be_bytes padding_len ++ buf ++ List.replicate padding_len.toNat 0 }

def frame_buf [Rng R] (st : VisionTlsStream S C R) (buf : List UInt8) :
    Except Panic (VisionTlsStream S C R) :=
  if st.state.write_direct_copy then return { st with write_buf := st.write_buf ++ buf }
  else do
    let st ← put_id st
    let (command, st) := sniff_app_data st buf
    let st ← sniff_hello st buf
    let (padding_len, st) ← draw_padding_len st buf
    return put_frame st command buf padding_len

theorem frame_buf_eq [Rng R] (st : VisionTlsStream S C R) (buf : List UInt8)
    (hdirect : st.state.write_direct_copy = false) :
    frame_buf st buf = (do
      let named ← put_id st
      let sniffed ← sniff_hello (sniff_app_data named buf).2 buf
      let drawn ← draw_padding_len sniffed buf
      return put_frame drawn.2 (sniff_app_data named buf).1 buf drawn.1) := by
  simp only [frame_buf, hdirect, Bool.false_eq_true, if_false]

end VisionTlsStream

end AlphaRay
