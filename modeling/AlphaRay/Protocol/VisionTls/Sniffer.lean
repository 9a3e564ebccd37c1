import AlphaRay.Protocol.VisionTls.RoundTrip

namespace AlphaRay

open Lib

-- What sniffing makes of the writes of one endpoint: whether they allow direct copy, and
-- the hello that is being collected.
structure Sniffer where
  allowed : Bool
  hello : List UInt8
  deriving DecidableEq

namespace Sniffer

def new : Sniffer := ⟨false, []⟩

def isAppData (buf : List UInt8) : Prop := 3 ≤ buf.length ∧ [0x17, 0x03, 0x03].isPrefixOf buf

def isHandshake (buf : List UInt8) : Prop := 6 ≤ buf.length ∧ [0x16, 0x03, 0x01].isPrefixOf buf

instance (buf : List UInt8) : Decidable (isAppData buf) := inferInstanceAs (Decidable (_ ∧ _))

instance (buf : List UInt8) : Decidable (isHandshake buf) := inferInstanceAs (Decidable (_ ∧ _))

-- The two bytes behind the session id, when the hello is long enough.
def cipher_suite (hello : List UInt8) : Option UInt16 :=
  let idx := 44 + (hello.getD 43 0).toNat
  if 44 ≤ hello.length ∧ idx + 3 ≤ hello.length then
    some (u16_from_be_bytes ((hello.drop idx).take 2))
  else none

def collect (hello buf : List UInt8) : List UInt8 :=
  hello ++ buf.take (MAX_TLS_SNIFFING_LEN - hello.length)

def see (s : Sniffer) (buf : List UInt8) : Sniffer :=
  if s.hello = [] then
    if isHandshake buf then ⟨s.allowed || buf.getD 5 0 == 0x01, buf⟩ else s
  else
    match cipher_suite (collect s.hello buf) with
    | some suite => ⟨suite != 0x1305, []⟩
    | none => ⟨s.allowed, collect s.hello buf⟩

-- A write that starts direct copy.
def Provokes (s : Sniffer) (buf : List UInt8) : Prop := s.allowed = true ∧ isAppData buf

instance (s : Sniffer) (buf : List UInt8) : Decidable (s.Provokes buf) :=
  inferInstanceAs (Decidable (_ ∧ _))

-- Without the record of a TLS 1.0 handshake, direct copy is never allowed.
theorem foldl_see_of_no_handshake (bufs : List (List UInt8))
    (hbufs : ∀ buf ∈ bufs, ¬ isHandshake buf) : bufs.foldl see new = new := by
  induction bufs with
  | nil => rfl
  | cons buf bufs ih =>
      have hfirst : see new buf = new := by
        have hbuf := hbufs buf (by simp)
        simp [see, new, hbuf]
      rw [List.foldl_cons, hfirst]
      exact ih fun buf hmem => hbufs buf (by simp [hmem])

end Sniffer

namespace VisionTlsStream

variable {S C R : Type} {st next : VisionTlsStream S C R} {buf : List UInt8}

def sniffer (st : VisionTlsStream S C R) : Sniffer :=
  ⟨st.state.can_start_direct_copy, st.server_hello_buf⟩

theorem sniffer_sniff_app_data (st : VisionTlsStream S C R) (buf : List UInt8) :
    sniffer (sniff_app_data st buf).2 = sniffer st ∧
      (Sniffer.Provokes (sniffer st) buf ↔ (sniff_app_data st buf).1 = .StartDirectCopy) := by
  unfold sniff_app_data
  split
  · rename_i hprovokes
    exact ⟨rfl, iff_of_true hprovokes rfl⟩
  · rename_i hquiet
    exact ⟨rfl, iff_of_false hquiet (by simp)⟩

theorem sniffer_of_start_hello (hnil : st.server_hello_buf = [])
    (h : start_hello st buf = .ok next) : sniffer next = (sniffer st).see buf := by
  have hhello : (sniffer st).hello = [] := hnil
  unfold start_hello at h
  rw [Sniffer.see, if_pos hhello]
  split at h
  · rename_i hrecord
    rw [if_pos (show Sniffer.isHandshake buf from hrecord)]
    obtain ⟨kind, hkind, hnext⟩ := of_bind_ok h
    have hsixth : buf.getD 5 0 = kind := by
      unfold index at hkind
      split at hkind
      · rename_i first hfound
        cases hkind
        simp [List.getD, hfound]
      · cases hkind
    cases hnext
    rw [hsixth]
    by_cases hclient : kind = 0x01
    · simp [sniffer, hclient, hnil]
    · simp [sniffer, hclient, hnil]
  · rename_i hrecord
    rw [if_neg (show ¬ Sniffer.isHandshake buf from hrecord)]
    cases h
    rfl

theorem of_collect_hello (h : collect_hello st buf = .ok next) :
    next.server_hello_buf = Sniffer.collect st.server_hello_buf buf ∧
      next.state.can_start_direct_copy = st.state.can_start_direct_copy := by
  unfold collect_hello at h
  split at h
  · rename_i hroom
    rw [usize_sub_of_le _ _ (Nat.le_of_lt hroom)] at h
    obtain ⟨room, hsub, h⟩ := of_bind_ok h
    cases hsub
    rw [slice_of_le _ _ _ (Nat.zero_le _) (Nat.min_le_right _ _)] at h
    obtain ⟨copied, hcopied, hnext⟩ := of_bind_ok h
    cases hcopied
    cases hnext
    refine ⟨?_, rfl⟩
    simp [Sniffer.collect]
  · rename_i hfull
    cases h
    have hzero : MAX_TLS_SNIFFING_LEN - st.server_hello_buf.length = 0 := by omega
    refine ⟨?_, rfl⟩
    rw [Sniffer.collect, hzero, List.take_zero, List.append_nil]

theorem sniffer_of_sniff_cipher_suite (h : sniff_cipher_suite st = .ok next) :
    sniffer next = match Sniffer.cipher_suite st.server_hello_buf with
      | some suite => ⟨suite != 0x1305, []⟩
      | none => sniffer st := by
  unfold sniff_cipher_suite at h
  split at h
  · rename_i hlen
    rw [index_of_lt _ _ (show 43 < st.server_hello_buf.length by omega)] at h
    obtain ⟨session_id_len, hid, h⟩ := of_bind_ok h
    obtain rfl := Except.ok.inj hid
    have hget : st.server_hello_buf.getD 43 0 = st.server_hello_buf[43] := by
      simp [List.getD, show 43 < st.server_hello_buf.length by omega]
    split at h
    · rename_i hsuite
      dsimp only at h
      rw [slice_of_le _ _ _ (by omega) (by omega)] at h
      obtain ⟨cipher_suite, hslice, hnext⟩ := of_bind_ok h
      cases hslice
      cases hnext
      rw [Sniffer.cipher_suite, hget, if_pos ⟨hlen, by omega⟩]
      simp [sniffer]
    · rename_i hsuite
      cases h
      rw [Sniffer.cipher_suite, hget, if_neg (by omega)]
  · rename_i hlen
    cases h
    rw [Sniffer.cipher_suite, if_neg (by omega)]

theorem sniffer_of_sniff_hello (h : sniff_hello st buf = .ok next) :
    sniffer next = (sniffer st).see buf := by
  unfold sniff_hello at h
  split at h
  · rename_i hnil
    exact sniffer_of_start_hello hnil h
  · rename_i hne
    obtain ⟨mid, hcollect, hsuite⟩ := of_bind_ok h
    obtain ⟨hbuf, hcan⟩ := of_collect_hello hcollect
    have hnext := sniffer_of_sniff_cipher_suite hsuite
    have hhello : ¬ (sniffer st).hello = [] := hne
    rw [Sniffer.see, if_neg hhello, hnext, hbuf]
    have hmid : sniffer mid = ⟨(sniffer st).allowed, Sniffer.collect (sniffer st).hello buf⟩ := by
      simp only [sniffer, hbuf, hcan]
    rw [hmid]
    rfl

-- A frame with the command that starts direct copy is put behind what is in `write_buf`.
def Emits (st next : VisionTlsStream S C R) (buf : List UInt8) : Prop :=
  ∃ padding_len, next.write_buf =
    st.write_buf ++ pending_id st ++ frame_bytes .StartDirectCopy buf padding_len

theorem command_of_frame_bytes {command command' : VisionCommand} {buf' : List UInt8}
    {padding_len padding_len' : UInt16}
    (h : frame_bytes command buf padding_len = frame_bytes command' buf' padding_len') :
    command = command' := by
  have hhead : command.as_u8 = command'.as_u8 := by
    have hfirst := congrArg List.head? h
    simpa [frame_bytes] using hfirst
  have hcommand := congrArg VisionCommand.try_from hhead
  rw [VisionCommand.try_from_as_u8, VisionCommand.try_from_as_u8] at hcommand
  exact Except.ok.inj hcommand

-- What a framed write does to the sniffer, and when it starts direct copy.
theorem sniffer_of_frame_buf [Rng R] (hdirect : st.state.write_direct_copy = false)
    (h : frame_buf st buf = .ok next) : sniffer next = (sniffer st).see buf ∧
      (Sniffer.Provokes (sniffer st) buf ↔ next.state.write_direct_copy = true) ∧
      (Sniffer.Provokes (sniffer st) buf ↔ Emits st next buf) := by
  obtain ⟨named, padding_len, hput, hwrite⟩ := write_buf_of_frame_buf hdirect h
  obtain ⟨named', sniffed, drawn, _, hput', hhello, hdraw, hnext⟩ := of_frame_buf hdirect h
  obtain rfl : named = named' := Except.ok.inj (hput.symm.trans hput')
  have hnamed : sniffer named = sniffer st ∧ named.state.write_direct_copy = false := by
    rw [of_put_id hput]
    exact ⟨rfl, hdirect⟩
  obtain ⟨hsame, hcommand⟩ := sniffer_sniff_app_data named buf
  obtain ⟨-, -, -, hmode⟩ := sniff_app_data_spec named buf
  have hs := sniffs_of_sniff_hello hhello
  obtain ⟨rng, rfl⟩ := of_draw_padding_len hdraw
  rw [hnamed.1] at hsame hcommand
  refine ⟨?_, ?_, ?_⟩
  · have hseen := sniffer_of_sniff_hello hhello
    rw [hsame] at hseen
    rw [hnext]
    exact hseen
  · have hlast : next.state.write_direct_copy =
        (sniff_app_data named buf).2.state.write_direct_copy := by
      rw [hnext]
      exact hs.write_direct_copy
    rw [hcommand, hlast]
    rcases hmode with ⟨hcontinue, hkept⟩ | ⟨hstart, hset⟩
    · rw [hcontinue, hkept, hnamed.2]
      exact iff_of_false (by decide) (by decide)
    · exact iff_of_true hstart hset
  · rw [hcommand]
    constructor
    · intro hstart
      rw [hstart] at hwrite
      exact ⟨padding_len, hwrite⟩
    · intro hemits
      obtain ⟨padding_len', hemits⟩ := hemits
      exact command_of_frame_bytes (List.append_cancel_left (hwrite.symm.trans hemits))

end VisionTlsStream

-- The writes that an endpoint framed.
def LinkCall.framed (side : Side) : LinkCall → List (List UInt8)
  | frame other buf => if other = side then [buf] else []
  | _ => []

namespace Link

open VisionTlsStream

variable {S C R : Type} {past : List (Transition (Link S C R) LinkCall)} {link : Link S C R}

-- What sniffing makes of everything that an endpoint has written.
def sniffed (side : Side) (past : List (Transition (Link S C R) LinkCall)) : Sniffer :=
  (past.flatMap (·.label.framed side)).foldl Sniffer.see .new

theorem sniffed_concat (side : Side) (past : List (Transition (Link S C R) LinkCall))
    (last : Transition (Link S C R) LinkCall) :
    sniffed side (past ++ [last]) = (last.label.framed side).foldl Sniffer.see (sniffed side past) := by
  rw [sniffed, List.flatMap_append, List.flatMap_singleton, List.foldl_append, sniffed]

-- Neither endpoint copies directly after this call, and the call does not announce it.
structure Indirect (t : Transition (Link S C R) LinkCall) : Prop where
  modes : ∀ side, (t.after.stream side).state.write_direct_copy = false
  commands : ∀ side buf, t.label = .frame side buf →
    ¬ Emits (t.before.stream side) (t.after.stream side) buf

-- No write of application data comes where the writes before it allow direct copy.
def Unprovoked (past : List (Transition (Link S C R) LinkCall)) : Prop :=
  ∀ before t, before ++ [t] <+: past → ∀ side buf, t.label = .frame side buf →
    ¬ (sniffed side before).Provokes buf

theorem unprovoked_nil : Unprovoked ([] : List (Transition (Link S C R) LinkCall)) := by
  intro before t hfront
  have hlen := hfront.length_le
  simp at hlen

theorem unprovoked_concat (last : Transition (Link S C R) LinkCall) :
    Unprovoked (past ++ [last]) ↔ Unprovoked past ∧
      ∀ side buf, last.label = .frame side buf → ¬ (sniffed side past).Provokes buf := by
  constructor
  · intro h
    refine ⟨fun before t hfront => ?_, h past last List.prefix_rfl⟩
    exact h before t (hfront.trans (List.prefix_append _ _))
  · intro h before t hfront
    rcases List.prefix_concat_iff.mp hfront with heq | hfront
    · obtain ⟨rfl, rfl⟩ := List.append_singleton_inj.mp heq
      exact h.2
    · exact h.1 before t hfront

-- Endpoints that never write the record of a TLS 1.0 handshake never start direct copy.
theorem unprovoked_of_no_handshake
    (hpast : ∀ t ∈ past, ∀ side, ∀ buf ∈ t.label.framed side, ¬ Sniffer.isHandshake buf) :
    Unprovoked past := by
  intro before t hfront side buf _ hprovokes
  have hbefore : sniffed side before = .new := by
    apply Sniffer.foldl_see_of_no_handshake
    intro buf hmem
    obtain ⟨t', ht', hbuf⟩ := List.mem_flatMap.mp hmem
    exact hpast t' (hfront.subset (by simp [ht'])) side buf hbuf
  rw [hbefore] at hprovokes
  cases hprovokes.1

-- Both endpoints frame what they write, and sniff as they should.
structure Sniffs (past : List (Transition (Link S C R) LinkCall)) (link : Link S C R) : Prop where
  modes : ∀ side, (link.stream side).state.write_direct_copy = false
  sniffer_eq : ∀ side, (link.stream side).sniffer = sniffed side past

-- A call that frames nothing changes neither what was sniffed nor a mode.
theorem sniffs_of_same {last : Transition (Link S C R) LinkCall} (h : Sniffs past last.before)
    (hlabel : ∀ side, last.label.framed side = [])
    (hsame : ∀ side, (last.after.stream side).sniffer = (last.before.stream side).sniffer ∧
      (last.after.stream side).state.write_direct_copy =
        (last.before.stream side).state.write_direct_copy) :
    (Indirect last ↔
      ∀ side buf, last.label = .frame side buf → ¬ (sniffed side past).Provokes buf) ∧
    (Indirect last → Sniffs (past ++ [last]) last.after) := by
  have hmodes : ∀ side, (last.after.stream side).state.write_direct_copy = false := by
    intro side
    rw [(hsame side).2]
    exact h.modes side
  have hother : ∀ side buf, last.label ≠ .frame side buf := by
    intro side buf hframe
    have hframed := hlabel side
    simp [hframe, LinkCall.framed] at hframed
  refine ⟨iff_of_true ⟨hmodes, ?_⟩ ?_, fun _ => ⟨hmodes, ?_⟩⟩
  · exact fun side buf hframe => absurd hframe (hother side buf)
  · exact fun side buf hframe => absurd hframe (hother side buf)
  · intro side
    rw [sniffed_concat, hlabel side, (hsame side).1]
    exact h.sniffer_eq side

variable [Rng R]

theorem sniffs_of_frame {side : Side} {buf : List UInt8} {next : VisionTlsStream S C R}
    {after : Link S C R} (h : Sniffs past link)
    (hcall : (link.stream side).frame_buf buf = .ok next)
    (hafter : after.stream = Function.update link.stream side next) :
    (Indirect ⟨link, .frame side buf, after⟩ ↔ ¬ (sniffed side past).Provokes buf) ∧
    (Indirect ⟨link, .frame side buf, after⟩ →
      Sniffs (past ++ [⟨link, .frame side buf, after⟩]) after) := by
  obtain ⟨hseen, hmode, hemits⟩ := sniffer_of_frame_buf (h.modes side) hcall
  rw [h.sniffer_eq side] at hseen hmode hemits
  have hside : after.stream side = next := by rw [hafter, Function.update_self]
  have hpeer : after.stream side.peer = link.stream side.peer := by
    rw [hafter, Function.update_of_ne (Side.peer_ne side)]
  constructor
  · constructor
    · intro hindirect hprovokes
      have hset := hmode.mp hprovokes
      rw [← hside, hindirect.modes side] at hset
      cases hset
    · intro hquiet
      constructor
      · refine Side.forall_of side ?_ ?_
        · change (after.stream side).state.write_direct_copy = false
          rw [hside]
          exact Bool.eq_false_iff.mpr fun hset => hquiet (hmode.mpr hset)
        · change (after.stream side.peer).state.write_direct_copy = false
          rw [hpeer]
          exact h.modes side.peer
      · intro other buf' hlabel hemit
        cases hlabel
        change Emits (link.stream side) (after.stream side) buf at hemit
        rw [hside] at hemit
        exact hquiet (hemits.mpr hemit)
  · intro hindirect
    refine ⟨hindirect.modes, Side.forall_of side ?_ ?_⟩
    · rw [hside, hseen, sniffed_concat]
      simp [LinkCall.framed]
    · rw [hpeer, h.sniffer_eq side.peer, sniffed_concat]
      simp [LinkCall.framed]

theorem sniffs_of_step {last : Transition (Link S C R) LinkCall} (h : Sniffs past last.before)
    (hstep : Step last.before last.label last.after) :
    (Indirect last ↔
      ∀ side buf, last.label = .frame side buf → ¬ (sniffed side past).Provokes buf) ∧
    (Indirect last → Sniffs (past ++ [last]) last.after) := by
  obtain ⟨before, label, after⟩ := last
  dsimp only at h hstep
  cases hstep with
  | frame side buf next hlen hcall =>
      refine And.imp_left ?_ (sniffs_of_frame h hcall rfl)
      intro hiff
      rw [hiff]
      constructor
      · intro hquiet other buf' hlabel
        cases hlabel
        exact hquiet
      · exact fun hquiet => hquiet side buf rfl
  | carry side n =>
      apply sniffs_of_same h (fun _ => rfl)
      refine Side.forall_of side ?_ ?_
      · simp [sniffer]
      · simp [sniffer]
  | unframe side buf n next out hcall =>
      obtain ⟨_, _, _, _, _, _, hnext⟩ := reads_of_unframe hcall
      apply sniffs_of_same h (fun _ => rfl)
      refine Side.forall_of side ?_ ?_
      · simp [sniffer, hnext]
      · simp

theorem sniffs_of_run {start : Link S C R} (hstart : Sniffs [] start)
    (hrun : Run Step start past link) :
    ((∀ t ∈ past, Indirect t) ↔ Unprovoked past) ∧
      ((∀ t ∈ past, Indirect t) → Sniffs past link) := by
  refine hrun.rule (fun past link => ((∀ t ∈ past, Indirect t) ↔ Unprovoked past) ∧
    ((∀ t ∈ past, Indirect t) → Sniffs past link)) ?_ ?_
  · exact ⟨iff_of_true (by simp) unprovoked_nil, fun _ => hstart⟩
  · intro past last _ ih hstep
    obtain ⟨hiff, hsniffs⟩ := ih
    have hall : (∀ t ∈ past ++ [last], Indirect t) ↔ (∀ t ∈ past, Indirect t) ∧ Indirect last := by
      simp [or_imp, forall_and]
    rw [hall, unprovoked_concat, ← hiff]
    constructor
    · refine and_congr_right fun hpast => ?_
      exact (sniffs_of_step (hsniffs hpast) hstep).1
    · intro hboth
      exact (sniffs_of_step (hsniffs hboth.1) hstep).2 hboth.2

omit [Rng R] in
theorem sniffs_new [Connection C] (clientIo serverIo : S) (clientSession serverSession : C)
    (clientIds serverIds : List Uuid) (clientRng serverRng : R)
    (clientPadding serverPadding : PaddingConfig) :
    Sniffs [] (new (.new clientIo clientSession clientIds clientRng clientPadding)
      (.new serverIo serverSession serverIds serverRng serverPadding)) := by
  constructor
  · rintro (_ | _) <;> rfl
  · rintro (_ | _) <;> rfl

end Link

-- In every run of two new streams, neither endpoint announces direct copy or starts it
-- exactly when neither writes application data where its own writes so far allow it. What
-- the other endpoint writes, and so the suite that it selects, makes no difference.
theorem vision_direct_copy_iff {S C R : Type} [Connection C] [Rng R] (clientIo serverIo : S)
    (clientSession serverSession : C) (clientIds serverIds : List Uuid) (clientRng serverRng : R)
    (clientPadding serverPadding : PaddingConfig) (past : List (Transition (Link S C R) LinkCall))
    (link : Link S C R)
    (hrun : Run Link.Step (.new (.new clientIo clientSession clientIds clientRng clientPadding)
      (.new serverIo serverSession serverIds serverRng serverPadding)) past link) :
    (∀ t ∈ past, Link.Indirect t) ↔ Link.Unprovoked past := by
  have hstart := Link.sniffs_new clientIo serverIo clientSession serverSession clientIds serverIds
    clientRng serverRng clientPadding serverPadding
  exact (Link.sniffs_of_run hstart hrun).1

-- The server's first record is a ServerHello that selects TLS_AES_128_CCM_8_SHA256.
def SelectsCcm8 (written : List UInt8) : Prop :=
  written.head? = some 0x16 ∧ written[5]? = some 0x02 ∧ Sniffer.cipher_suite written = some 0x1305

instance (written : List UInt8) : Decidable (SelectsCcm8 written) :=
  inferInstanceAs (Decidable (_ ∧ _ ∧ _))

-- Both hellos have no session id. The client offers one suite, which the server selects.
def clientHello : List UInt8 :=
  [0x16, 0x03, 0x01, 0, 45, 0x01, 0, 0, 41, 0x03, 0x03] ++ List.replicate 32 9 ++
    [0, 0, 2, 0x13, 0x05, 1, 0]

def serverHello : List UInt8 :=
  [0x16, 0x03, 0x03, 0, 42, 0x02, 0, 0, 38, 0x03, 0x03] ++ List.replicate 32 9 ++
    [0, 0x13, 0x05, 0]

def applicationData : List UInt8 := [0x17, 0x03, 0x03, 0, 1, 5]

-- The hellos are exchanged, and only the server goes on to application data.
theorem vision_direct_copy_server_only :
    ∃ past, ∃ link : Link Scripted NullCipher Lowest, Run Link.Step quietLink past link ∧
      SelectsCcm8 (link.written .server) ∧ ∀ t ∈ past, Link.Indirect t := by
  have hrun := ((Run.nil : Run Link.Step quietLink [] quietLink).next
    (Link.Step.frame _ .client clientHello _ (by decide) rfl)).next
    (.frame _ .server serverHello _ (by decide) rfl)
  have hrun := hrun.next (.frame _ .server applicationData _ (by decide) rfl)
  have hsuite : SelectsCcm8 serverHello := by decide
  refine ⟨_, _, hrun, hsuite, (vision_direct_copy_iff _ _ _ _ _ _ _ _ _ _ _ _ hrun).mpr ?_⟩
  refine (Link.unprovoked_concat _).mpr ⟨(Link.unprovoked_concat _).mpr
    ⟨(Link.unprovoked_concat _).mpr ⟨Link.unprovoked_nil, ?_⟩, ?_⟩, ?_⟩
  · intro side buf hlabel
    cases hlabel
    decide
  · intro side buf hlabel
    cases hlabel
    decide
  · intro side buf hlabel
    cases hlabel
    decide

theorem vision_direct_copy_with_ccm8 :
    ¬ ∀ past, ∀ link : Link Scripted NullCipher Lowest, Run Link.Step quietLink past link →
      SelectsCcm8 (link.written .server) → ∀ t ∈ past, Link.Indirect t := by
  intro hall
  have hrun := ((Run.nil : Run Link.Step quietLink [] quietLink).next
    (Link.Step.frame _ .client clientHello _ (by decide) rfl)).next
    (.frame _ .server serverHello _ (by decide) rfl)
  have hrun := hrun.next (.frame _ .client applicationData _ (by decide) rfl)
  have hsuite : SelectsCcm8 serverHello := by decide
  have hindirect := hall _ _ hrun hsuite _ (List.mem_append_right _ (List.mem_singleton_self _))
  have hset := hindirect.modes .client
  exact absurd hset (by decide)

end AlphaRay
