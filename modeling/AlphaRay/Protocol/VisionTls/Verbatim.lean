import AlphaRay.Protocol.Peers.NullCipher
import AlphaRay.Protocol.VisionTls.Closing

namespace AlphaRay

open Lib ByteStream

namespace VisionTlsStream

variable {S C R : Type} [AsyncStream S] [ByteStream S] [Connection C] [ReceiveLaws C]
  {st : VisionTlsStream S C R} {session : C} {ids : List Uuid} {wire s given : List UInt8}

-- What is handed on is a front part of what was sent.
theorem Underway.given_le (h : Underway session ids wire given True st)
    (hpeer : Fed.Conveys session wire s) (hunknown : ∀ id ∈ ids, ¬ id.bytes <+: s) :
    given <+: s := by
  have hwire := Phase.transduce_unknown ids s hunknown
  rw [← h.ids_eq] at hwire
  by_cases hlen : s.length < 16
  · rw [if_pos hlen] at hwire
    have hnone := h.gives.given_le hwire Phase.noConfusion (h.decrypted_le hpeer)
    exact hnone.trans List.nil_prefix
  · rw [if_neg hlen] at hwire
    exact h.gives.given_le hwire Phase.noConfusion (h.decrypted_le hpeer)

-- At the end, either fewer bytes than an id were held back, or none.
theorem Underway.given_eq_iff (h : Underway session ids wire given True st)
    (hpeer : Fed.Conveys session wire s) (hunknown : ∀ id ∈ ids, ¬ id.bytes <+: s)
    (hended : Ended st) : given = s ↔ s = [] ∨ 16 ≤ s.length := by
  have hout := h.gives.given_append (h.fine hpeer hunknown)
  rw [hended.idle.decoded_eq, List.append_nil, h.decrypted_eq hpeer hended.closed_eq, h.ids_eq,
    Phase.transduce_unknown ids s hunknown] at hout
  by_cases hlen : s.length < 16
  · rw [if_pos hlen] at hout
    obtain rfl : given = [] := hout.symm
    constructor
    · exact fun hnil => .inl hnil.symm
    · intro hcase
      rcases hcase with hnil | hlong
      · exact hnil.symm
      · omega
  · rw [if_neg hlen] at hout
    exact iff_of_true hout.symm (.inr (by omega))

-- A new stream of a server has everything before it.
theorem underway_new (inner : S) (session : C) (hserver : Connection.is_server session = true)
    (hfresh : ReceiveLaws.incoming session = ⟨[], [], false, false⟩) (ids : List Uuid) (rng : R)
    (padding : PaddingConfig) : Underway session ids (pipe inner).unread [] True
      (VisionTlsStream.new inner session ids rng padding) := by
  refine ⟨rfl, ⟨[], rfl, true, .refl, fun _ => rfl⟩, fun hended => ?_, fun _ => ⟨[], ?_, ?_⟩⟩
  · change (ReceiveLaws.incoming session).ended = true at hended
    rw [hfresh] at hended
    cases hended
  · change (ReceiveLaws.incoming session).decrypted =
      [] ++ (ReceiveLaws.incoming session).plaintext
    rw [hfresh]
    rfl
  · have hphase : phase (VisionTlsStream.new inner session ids rng padding) = .id [] := by
      simp [phase, VisionTlsStream.new, VisionState.new, hserver]
    rw [hphase]
    exact .refl

end VisionTlsStream

open VisionTlsStream

-- A server to which a peer sends a stream without a known id, and closes. What was handed on is
-- always a front part of it, and a read has to wait or does not fail. Reads that go on come to
-- the end, and what was handed on when a read reports it is the stream, if and only if that is
-- empty or at least as long as an id.
theorem vision_verbatim_iff {S C R : Type} [AsyncStream S] [ByteStream S] [Connection C]
    [ReceiveLaws C] [Rng R]
    (hshutdown : ∀ io : S, (pipe (AsyncStream.poll_shutdown io).2).unread = (pipe io).unread)
    (inner : S) (session : C) (hserver : Connection.is_server session = true)
    (hfresh : ReceiveLaws.incoming session = ⟨[], [], false, false⟩) (s : List UInt8)
    (hpeer : Fed.Conveys session (pipe inner).unread s) (ids : List Uuid)
    (hunknown : ∀ id ∈ ids, ¬ id.bytes <+: s) (rng : R) (padding : PaddingConfig)
    (past : List (Transition (VisionTlsStream S C R) Call)) (st : VisionTlsStream S C R)
    (hrun : Run Step (.new inner session ids rng padding) past st) (rooms : Nat → Nat)
    (hrooms : ∀ i, 0 < rooms i) :
    past.flatMap (·.label.filled) <+: s ∧
    (∀ before t after, past = before ++ t :: after → ∀ len outcome,
      t.label = .read len outcome → outcome = .error .Pending ∨
        ∃ bytes, outcome = .ok bytes ∧ (bytes = [] → 0 < len →
          (before.flatMap (·.label.filled) = s ↔ s = [] ∨ 16 ≤ s.length))) ∧
    ∃ more last room,
      Run Step (.new inner session ids rng padding) (past ++ (more ++ [last])) last.after ∧
      Rooms rooms (more ++ [last]) ∧ last.label = .read room (.ok []) ∧
      ((past ++ more).flatMap (·.label.filled) = s ↔ s = [] ∨ 16 ≤ s.length) := by
  have hstart := underway_new inner session hserver hfresh ids rng padding
  have hreads : ∀ {before t after last},
      Run Step (.new inner session ids rng padding) (before ++ t :: after) last →
      ∀ len outcome, t.label = .read len outcome → outcome = .error .Pending ∨
        ∃ bytes, outcome = .ok bytes ∧ (bytes = [] → 0 < len →
          (before.flatMap (·.label.filled) = s ↔ s = [] ∨ 16 ≤ s.length)) := by
    intro before t after last hrun len outcome hlabel
    obtain ⟨hbefore, hstep⟩ := hrun.split
    have hunderway := underway_of_run hshutdown hpeer hunknown hstart hbefore
    obtain ⟨hafter, hanswered⟩ := answered_of_step hshutdown hpeer hunknown hunderway hstep
    cases hanswered len outcome hlabel with
    | pending _ _ => exact .inl rfl
    | data bytes _ hne _ => exact .inr ⟨bytes, rfl, fun hnil => absurd hnil hne⟩
    | full _ hlen => exact .inr ⟨[], rfl, fun _ hpos => absurd hlen (by omega)⟩
    | finished _ hended =>
        rw [hlabel, Call.filled, List.append_nil] at hafter
        exact .inr ⟨[], rfl, fun _ _ => hafter.given_eq_iff hpeer hunknown hended⟩
  have hnow := underway_of_run hshutdown hpeer hunknown hstart hrun
  refine ⟨hnow.given_le hpeer hunknown, ?_, ?_⟩
  · rintro before t after rfl
    exact hreads hrun
  · obtain ⟨more, last, room, outcome, hmore, hsized, hlabel, rfl⟩ :=
      reads_end hpeer hunknown hnow rooms hrooms
    have hall := hrun.append hmore
    have hlast : Run Step (.new inner session ids rng padding) ((past ++ more) ++ last :: [])
        last.after := by
      rw [List.append_assoc]
      exact hall
    refine ⟨more, last, room, hall, hsized, hlabel, ?_⟩
    have hpos : 0 < room := by
      obtain ⟨_, hroom⟩ := hsized more.length last (by simp)
      rw [hlabel] at hroom
      obtain ⟨rfl, -⟩ := Call.read.inj hroom
      exact hrooms _
    rcases hreads hlast room _ hlabel with hpending | ⟨bytes, hok, hiff⟩
    · cases hpending
    · exact hiff (Except.ok.inj hok).symm hpos

-- A server whose peer completes the handshake, sends one byte 7, and closes.
def shortServer : VisionTlsStream Channel NullCipher Lowest :=
  .new ⟨[0, 1, 7, 2], [], []⟩ (.new true 64 64) [idOfSevens] ⟨⟩ paddingOfThree

-- The byte is sent and decrypted, and the first read reports the end of the stream.
theorem vision_verbatim_short :
    Fed.Conveys shortServer.session (pipe shortServer.inner).unread [7] ∧
    (∀ id ∈ [idOfSevens], ¬ id.bytes <+: [7]) ∧
    ∃ ended, Step shortServer (.read 4 (.ok [])) ended ∧
      (ReceiveLaws.incoming ended.session).decrypted = [7] ∧
      (ReceiveLaws.incoming ended.session).closed = true ∧
      (Call.read 4 (.ok [])).filled ≠ [7] :=
  ⟨NullCipher.conveys_new 64 64 [7], by decide, _, ⟨8, rfl⟩, rfl, rfl, by decide⟩

-- A server whose peer sends sixteen bytes 8, which come in pieces.
def longServer : VisionTlsStream Channel NullCipher Lowest :=
  .new ⟨cipherOf (NullCipher.farewell (List.replicate 16 8)), [], [none, some 0, none, some 11]⟩
    (.new true 64 64) [idOfSevens] ⟨⟩ paddingOfThree

-- After a read that had to wait and a write, reads of ten bytes hand all of them on.
theorem vision_verbatim_sixteen_bytes : ∃ past more last room,
    past.map (·.label) = [.read 10 (.error .Pending), .write [5] (.ok 1)] ∧
    Run Step longServer (past ++ (more ++ [last])) last.after ∧
    last.label = .read room (.ok []) ∧
    (past ++ more).flatMap (·.label.filled) = List.replicate 16 8 := by
  obtain ⟨waiting, written, hwait, hwrite⟩ : ∃ waiting written,
      Step longServer (.read 10 (.error .Pending)) waiting ∧
      Step waiting (.write [5] (.ok 1)) written :=
    ⟨_, _, ⟨16, rfl⟩, ⟨16, rfl⟩⟩
  have hrun := (Run.nil.next hwait).next hwrite
  obtain ⟨-, -, more, last, room, hmore, -, hlabel, hall⟩ :=
    vision_verbatim_iff Channel.unread_poll_shutdown _ (NullCipher.new true 64 64) rfl rfl
      (List.replicate 16 8) (NullCipher.conveys_new 64 64 _) [idOfSevens] (by decide) Lowest.mk
      paddingOfThree _ written hrun (fun _ => 10) fun _ => by decide
  exact ⟨_, more, last, room, rfl, hmore, hlabel, hall.mpr (.inr (by decide))⟩

end AlphaRay
