import AlphaRay.Protocol.Vless.Theorems

namespace AlphaRay

open Lib ByteStream

-- The address behind its kind. The length of a domain name stands in front of it.
def target_len (kind : UInt8) (input : List UInt8) : Nat :=
  if kind = 1 then 4
  else if kind = 2 then 1 + (input.getD 0 0).toNat
  else if kind = 3 then 16
  else 0

-- The header that the bytes begin with, as far as it is decoded: up to the version, the
-- command or the address kind that is not a known one, else to the end of the address.
def header_len (input : List UInt8) : Nat :=
  match VlessVersion.try_from (input.getD 0 0) with
  | .error _ => 22
  | .ok _ =>
      let address := 22 + (input.getD 17 0).toNat
      match VlessCommand.try_from (input.getD 18 0) with
      | .error _ => address
      | .ok _ => address + target_len (input.getD 21 0) (input.drop address)

-- The parser takes `len` bytes, or all there are when there are fewer, and is not stopped.
def Settles {α : Type} (p : VlessParser α) (input : List UInt8) (len : Nat) : Prop :=
  (p.run input).2 = input.drop len ∧ ∀ panic, (p.run input).1 ≠ .error (.Panicked panic)

section Settles

variable {α β : Type}

theorem settles_pure (a : α) (input : List UInt8) :
    Settles (Pure.pure a : VlessParser α) input 0 :=
  ⟨rfl, fun _ => nofun⟩

theorem settles_failed (e : VlessError) (input : List UInt8) :
    Settles (MonadExcept.throw (.Failed e) : VlessParser α) input 0 :=
  ⟨rfl, fun _ => nofun⟩

theorem settles_read_exact {n m : Nat} {f : List UInt8 → VlessParser β} {input : List UInt8}
    (h : n ≤ input.length → Settles (f (input.take n)) (input.drop n) m) :
    Settles (ReadExact.read_exact n >>= f) input (n + m) := by
  unfold Settles at *
  rw [run_read_exact]
  by_cases hlen : n ≤ input.length
  · simpa only [if_pos hlen, List.drop_drop] using h hlen
  · rw [if_neg hlen]
    refine ⟨(List.drop_eq_nil_of_le (by omega)).symm, fun panic hpanic => ?_⟩
    cases hpanic

theorem settles_octets {n m : Nat} {f : Octets n → VlessParser β} {bytes input : List UInt8}
    (hlen : bytes.length = n) (h : Settles (f ⟨bytes, hlen⟩) input m) :
    Settles (checked (Octets.try_into n bytes) >>= f) input m := by
  unfold Settles at *
  simpa only [Octets.try_into, dif_pos hlen, run_checked_ok] using h

theorem settles_target (kind : UInt8) (port : UInt16) (input : List UInt8) :
    Settles (read_target kind port) input (target_len kind input) := by
  unfold read_target target_len
  split_ifs
  · exact settles_read_exact (m := 0) fun hlen =>
      settles_octets (by simp [hlen]) (settles_pure _ _)
  · refine settles_read_exact fun hlen => ?_
    obtain ⟨domain_len, rest, rfl⟩ := List.exists_cons_of_length_pos hlen
    exact settles_read_exact (m := 0) fun _ => settles_pure _ _
  · exact settles_read_exact (m := 0) fun hlen =>
      settles_octets (by simp [hlen]) (settles_pure _ _)
  · exact settles_failed _ _

-- No address is read behind a command that is not known.
theorem settles_fields (version : VlessVersion) (id : Uuid) (command high low kind : UInt8)
    (input : List UInt8) :
    Settles (read_fields version id [command, high, low, kind]) input
      (match VlessCommand.try_from command with
        | .error _ => 0
        | .ok _ => target_len kind input) := by
  obtain ⟨htarget, hpanic⟩ := settles_target kind (u16_from_be_bytes [high, low]) input
  change (parse_target _ _ input).2 = _ at htarget
  change ∀ panic, (parse_target _ _ input).1 ≠ _ at hpanic
  unfold Settles
  rw [run_read_fields]
  cases VlessCommand.try_from command with
  | error e => exact ⟨rfl, fun _ => nofun⟩
  | ok command =>
      rcases hparse : parse_target kind (u16_from_be_bytes [high, low]) input with
        ⟨e | target, rest⟩
      · rw [hparse] at htarget hpanic
        exact ⟨htarget, fun panic h => hpanic panic (congrArg Except.error (Except.error.inj h))⟩
      · rw [hparse] at htarget
        exact ⟨htarget, fun _ => nofun⟩

end Settles

section Header

variable (version : UInt8) (id : Uuid) (addons_len command high low kind : UInt8)
  (rest : List UInt8)

theorem exists_header {input : List UInt8} (hlen : 22 ≤ input.length) :
    ∃ version id addons_len command high low kind rest, input =
      [version] ++ Uuid.bytes id ++ [addons_len] ++ [command, high, low, kind] ++ rest := by
  obtain ⟨version, behind, rfl⟩ := List.exists_cons_of_length_pos (l := input) (by omega)
  rw [List.length_cons] at hlen
  obtain ⟨addons_len, rest, hrest⟩ := List.exists_cons_of_length_pos (l := behind.drop 16)
    (by rw [List.length_drop]; omega)
  have hrestlen : rest.length + 1 = behind.length - 16 := by
    rw [← List.length_drop, hrest, List.length_cons]
  obtain ⟨command, high, low, kind, hfields⟩ :
      ∃ command high low kind, rest.take 4 = [command, high, low, kind] := by
    have hfour : (rest.take 4).length = 4 := by
      rw [List.length_take]
      omega
    match rest.take 4, hfour with
    | [command, high, low, kind], _ => exact ⟨command, high, low, kind, rfl⟩
  have hid : (behind.take 16).length = 16 := by
    rw [List.length_take]
    omega
  refine ⟨version, ⟨behind.take 16, hid⟩, addons_len, command, high, low, kind, rest.drop 4, ?_⟩
  rw [← hfields, List.append_assoc, List.take_append_drop, List.append_assoc,
    List.singleton_append (x := addons_len), ← hrest, List.append_assoc, Uuid.bytes,
    List.take_append_drop]
  rfl

theorem drop_header : ([version] ++ id.bytes ++ [addons_len] ++ [command, high, low, kind] ++
    rest).drop 22 = rest := by
  have hid : id.bytes.length = 16 := id.octets.length_eq
  exact List.drop_left' (by simp [hid])

theorem header_len_front :
    header_len ([version] ++ id.bytes ++ [addons_len] ++ [command, high, low, kind] ++ rest) =
      match VlessVersion.try_from version with
      | .error _ => 22
      | .ok _ =>
          22 + (addons_len.toNat + match VlessCommand.try_from command with
            | .error _ => 0
            | .ok _ => target_len kind (rest.drop addons_len.toNat)) := by
  generalize hinput : [version] ++ id.bytes ++ [addons_len] ++ [command, high, low, kind] ++
    rest = input
  have hid : id.bytes.length = 16 := id.octets.length_eq
  have hversion : input.getD 0 0 = version := by simp [← hinput]
  have haddons : input.getD 17 0 = addons_len := by
    simp [← hinput, List.getD, hid]
  have hcommand : input.getD 18 0 = command := by
    simp [← hinput, List.getD, List.getElem?_append, hid]
  have hkind : input.getD 21 0 = kind := by
    simp [← hinput, List.getD, List.getElem?_append, hid]
  have hdrop : input.drop (22 + addons_len.toNat) = rest.drop addons_len.toNat := by
    rw [← List.drop_drop, ← hinput, drop_header]
  simp only [header_len, hversion, haddons, hcommand, hkind, hdrop]
  cases VlessVersion.try_from version with
  | error e => rfl
  | ok version =>
      cases VlessCommand.try_from command with
      | error e => rfl
      | ok command => exact Nat.add_assoc _ _ _

end Header

theorem settles_request (input : List UInt8) : Settles read_request input (header_len input) := by
  by_cases hlen : 22 ≤ input.length
  · obtain ⟨version, id, addons_len, command, high, low, kind, rest, rfl⟩ := exists_header hlen
    have hfront := parse_request_front version id addons_len [command, high, low, kind] rest rfl
    rw [parse_request] at hfront
    rw [header_len_front, Settles, hfront]
    cases VlessVersion.try_from version with
    | error e => exact ⟨(drop_header ..).symm, fun _ h => by cases h⟩
    | ok version =>
        have hfields := settles_read_exact
          (f := fun _ => read_fields version id [command, high, low, kind]) fun _ =>
          settles_fields version id command high low kind (rest.drop addons_len.toNat)
        rw [← List.drop_drop, drop_header]
        exact hfields
  · have hshort : 22 ≤ header_len input := by
      unfold header_len
      split
      · exact Nat.le_refl 22
      · dsimp only
        split <;> omega
    obtain ⟨more, hmore⟩ := Nat.exists_eq_add_of_le hshort
    rw [hmore]
    exact settles_read_exact fun h => absurd h hlen

-- What `accept` answers.
def response : Except (Fault VlessError) VlessRequest → List UInt8
  | .ok _ => [VlessVersion.Zero.as_u8, 0]
  | .error _ => []

-- Two streams of the same bytes, cut into reads of any sizes: the same outcome, the same
-- response, and of both the header is taken and nothing behind it.
theorem vless_accept_fragmentation {S S' : Type} [AsyncStream S] [ByteStream S] [AsyncStream S']
    [ByteStream S'] (io : S) (io' : S') (bytes : List UInt8) (hbytes : (pipe io).unread = bytes)
    (hbytes' : (pipe io').unread = bytes) :
    ∃ outcome after after', VlessProtocol.accept.Returns io outcome after ∧
      VlessProtocol.accept.Returns io' outcome after' ∧
      (∀ panic, outcome ≠ .error (.Panicked panic)) ∧
      pipe after = ⟨bytes.drop (header_len bytes), (pipe io).written ++ response outcome⟩ ∧
      pipe after' = ⟨bytes.drop (header_len bytes), (pipe io').written ++ response outcome⟩ := by
  obtain ⟨hrest, hpanic⟩ := settles_request bytes
  change (parse_request bytes).2 = _ at hrest
  obtain ⟨after, haccept, hpipe⟩ := VlessProtocol.accept_returns io
  obtain ⟨after', haccept', hpipe'⟩ := VlessProtocol.accept_returns io'
  rw [hbytes, hrest] at hpipe
  rw [hbytes', hrest] at hpipe'
  rw [hbytes] at haccept
  rw [hbytes'] at haccept'
  refine ⟨_, after, after', haccept, haccept', hpanic, ?_, ?_⟩
  · rw [hpipe]
    cases (parse_request bytes).1 <;> rfl
  · rw [hpipe']
    cases (parse_request bytes).1 <;> rfl

-- A request with a domain name and two bytes of payload, all at once and in small pieces.
def requestOfDomain : List UInt8 :=
  [0] ++ List.replicate 16 7 ++ [0, 1, 1, 187, 2, 1, 97] ++ [5, 6]

theorem vless_accept_fragmentation_two_plans : ∃ outcome after after',
    VlessProtocol.accept.Returns (⟨requestOfDomain, [], []⟩ : Channel) outcome after ∧
    VlessProtocol.accept.Returns (⟨requestOfDomain, [], [some 0, none, some 20]⟩ : Channel)
      outcome after' ∧
    (∀ panic, outcome ≠ .error (.Panicked panic)) ∧
    pipe after = ⟨requestOfDomain.drop (header_len requestOfDomain), [] ++ response outcome⟩ ∧
    pipe after' = ⟨requestOfDomain.drop (header_len requestOfDomain), [] ++ response outcome⟩ :=
  vless_accept_fragmentation (⟨requestOfDomain, [], []⟩ : Channel)
    (⟨requestOfDomain, [], [some 0, none, some 20]⟩ : Channel) requestOfDomain rfl rfl

-- what is left of it is the payload
example : requestOfDomain.drop (header_len requestOfDomain) = [5, 6] := by decide

end AlphaRay
