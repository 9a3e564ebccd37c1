import AlphaRay.Net.Ipv4

namespace AlphaRay

open Lib

namespace Net

open Scanner

variable {c : Char} {rest : List Char}

theorem flatMap_groups_of_octets {octets : List UInt8} (heven : octets.length % 2 = 0) :
    (groups_of_octets octets).flatMap u16_to_be_bytes = octets := by
  induction octets using groups_of_octets.induct with
  | case1 high low rest ih =>
      have hrest : rest.length % 2 = 0 := by
        simp only [List.length_cons] at heven
        omega
      rw [groups_of_octets, List.flatMap_cons, u16_to_be_bytes_from_be_bytes, ih hrest]
      rfl
  | case2 octets hshort =>
      cases octets with
      | nil => rfl
      | cons high octets =>
          cases octets with
          | nil => cases heven
          | cons low rest => exact absurd rfl (hshort high low rest)

theorem length_groups_of_octets {octets : List UInt8} (heven : octets.length % 2 = 0) :
    (groups_of_octets octets).length = octets.length / 2 := by
  have hlen := length_flatMap_to_be_bytes (groups_of_octets octets)
  rw [flatMap_groups_of_octets heven] at hlen
  omega

theorem lower_hex_ne_nil {n : Nat} : lower_hex n ≠ [] := Nat.toDigits_ne_nil

theorem to_digit_of_mem_lower_hex {n : Nat} : ∀ c ∈ lower_hex n, to_digit 16 c ≠ none :=
  to_digit_of_mem_toDigits (by decide) (by decide)

theorem dot_not_mem_lower_hex {n : Nat} : '.' ∉ lower_hex n := fun h =>
  to_digit_of_mem_lower_hex '.' h (by decide)

theorem run_read_group (index : Nat) (group : UInt16) (hrest : Stops 16 rest) :
    (read_group index).run (separator ':' index ++ (lower_hex group.toNat ++ rest)) =
      some (group, rest) := by
  have hlt : group.toNat < 65536 := group.toNat_lt
  have hvalue : digits_value 16 0 (lower_hex group.toNat) = group.toNat :=
    digits_value_toDigits (by decide) (by decide) _
  have hcount : (lower_hex group.toNat).length ≤ 4 :=
    (Nat.length_toDigits_le_iff (by decide) (by decide)).mpr (by omega)
  have hfits : digits_value 16 0 (lower_hex group.toNat) ≤ u16_MAX := by
    rw [hvalue]
    exact Nat.le_of_lt_succ hlt
  have hread := run_read_number_some true lower_hex_ne_nil to_digit_of_mem_lower_hex hrest
    (.inl rfl) hcount hfits
  rw [read_group, run_bind_some ((run_read_separator ..).trans hread), run_pure, hvalue,
    UInt16.ofNat_toNat]

-- Where groups may end: at the end of the text, or in front of a colon.
def AtColon (rest : List Char) : Prop := rest = [] ∨ ∃ more, rest = ':' :: more

theorem AtColon.stops (h : AtColon rest) : Stops 16 rest := by
  rcases h with rfl | ⟨more, rfl⟩
  · exact stops_nil 16
  · exact stops_cons (by decide)

-- A group is not taken for the beginning of an IPv4 address.
theorem run_read_ipv4_addr_group {n : Nat} (h : AtColon rest) :
    read_ipv4_addr.run (lower_hex n ++ rest) = none := by
  have hnone : read_ipv4_addr.run (lower_hex n) = none :=
    run_read_ipv4_addr_none dot_not_mem_lower_hex
  rcases h with rfl | ⟨more, rfl⟩
  · rwa [List.append_nil]
  · exact endsAt_colon_read_ipv4_addr.run_append_none hnone more

theorem run_read_groups_group (index left : Nat) (group : UInt16) (h : AtColon rest)
    {groups : List UInt16} {ipv4 : Bool} {last : List Char}
    (hmore : (read_groups (index + 1) left).run rest = some ((groups, ipv4), last)) :
    (read_groups index (left + 1)).run
        (separator ':' index ++ (lower_hex group.toNat ++ rest)) =
      some ((group :: groups, ipv4), last) := by
  have hipv4 : (read_embedded_ipv4 index (left + 1)).run
      (separator ':' index ++ (lower_hex group.toNat ++ rest)) =
        some (none, separator ':' index ++ (lower_hex group.toNat ++ rest)) := by
    unfold read_embedded_ipv4
    split_ifs
    · exact run_optional_none ((run_read_separator ..).trans (run_read_ipv4_addr_group h))
    · rfl
  rw [read_groups, run_bind_some hipv4]
  dsimp only
  rw [run_bind_some (run_optional_some (run_read_group index group h.stops))]
  dsimp only
  rw [run_bind_some hmore, run_pure]

-- Where the groups from `index` on end: behind the last one, `::` is no separator.
def AtEnd (index : Nat) (rest : List Char) : Prop :=
  rest = [] ∨ ∃ more, rest = separator ':' index ++ ':' :: more

theorem AtEnd.atColon {index : Nat} (h : AtEnd index rest) : AtColon rest := by
  rcases h with rfl | ⟨more, rfl⟩
  · exact .inl rfl
  · unfold separator
    split_ifs
    · exact .inr ⟨_, rfl⟩
    · exact .inr ⟨_, rfl⟩

theorem AtEnd.of_one (h : AtEnd 1 rest) (index : Nat) : AtEnd index rest := by
  rcases h with rfl | ⟨more, rfl⟩
  · exact .inl rfl
  · by_cases hindex : 0 < index
    · exact .inr ⟨more, by simp [separator, hindex]⟩
    · exact .inr ⟨':' :: more, by simp [separator, hindex]⟩

theorem run_read_separator_atEnd {α : Type} {inner : Scanner α} {index : Nat} (h : AtEnd index rest)
    (hnil : inner.run [] = none) (hcolon : ∀ more, inner.run (':' :: more) = none) :
    (read_separator ':' index inner).run rest = none := by
  rcases h with rfl | ⟨more, rfl⟩
  · unfold read_separator
    split_ifs
    · rfl
    · exact hnil
  · rw [run_read_separator]
    exact hcolon more

theorem run_read_groups_atEnd {index : Nat} (h : AtEnd index rest) (left : Nat) :
    (read_groups index left).run rest = some (([], false), rest) := by
  cases left with
  | zero => rfl
  | succ left =>
      have hipv4 : (read_embedded_ipv4 index (left + 1)).run rest = some (none, rest) := by
        unfold read_embedded_ipv4
        split_ifs
        · exact run_optional_none (run_read_separator_atEnd h rfl fun _ => rfl)
        · rfl
      have hgroup : (read_group index).run rest = none :=
        run_bind_none (run_read_separator_atEnd h rfl fun _ => rfl) _
      rw [read_groups, run_bind_some hipv4]
      dsimp only
      rw [run_bind_some (run_optional_none hgroup)]
      rfl

-- Groups with a separator in front of each one.
def separated (groups : List UInt16) : List Char :=
  groups.flatMap fun group => ':' :: lower_hex group.toNat

theorem AtColon.separated {groups : List UInt16} (h : AtColon rest) :
    AtColon (separated groups ++ rest) := by
  cases groups with
  | nil => exact h
  | cons group groups => exact .inr ⟨_, rfl⟩

theorem run_read_groups_separated {groups : List UInt16} (h : AtEnd 1 rest) (index : Nat)
    {left : Nat} (hindex : 0 < index) (hle : groups.length ≤ left) :
    (read_groups index left).run (separated groups ++ rest) = some ((groups, false), rest) := by
  induction groups generalizing index left with
  | nil => exact run_read_groups_atEnd (h.of_one index) left
  | cons group groups ih =>
      obtain ⟨left, rfl⟩ := Nat.exists_eq_add_one_of_ne_zero (Nat.ne_zero_of_lt hle)
      have hmore := ih (index + 1) (Nat.succ_pos index) (Nat.le_of_succ_le_succ hle)
      have hgroup := run_read_groups_group index left group h.atColon.separated hmore
      rw [separator, if_pos hindex] at hgroup
      simpa [separated] using hgroup

theorem run_read_groups_fmt_subslice {groups : List UInt16} (h : AtEnd 1 rest) {left : Nat}
    (hle : groups.length ≤ left) :
    (read_groups 0 left).run (Ipv6Addr.fmt_subslice groups ++ rest) =
      some ((groups, false), rest) := by
  cases groups with
  | nil => exact run_read_groups_atEnd (h.of_one 0) left
  | cons group groups =>
      obtain ⟨left, rfl⟩ := Nat.exists_eq_add_one_of_ne_zero (Nat.ne_zero_of_lt hle)
      have hmore := run_read_groups_separated h 1 Nat.one_pos (Nat.le_of_succ_le_succ hle)
      have hgroup := run_read_groups_group 0 left group h.atColon.separated hmore
      simpa [separated, separator, Ipv6Addr.fmt_subslice] using hgroup

-- The zeros that `::` stands for are put between what is read in front of it and behind it.
theorem run_read_ipv6_addr_compressed {head tail : List UInt16} {ipv4 : Bool}
    {more last : List Char} (hhead : head.length < 8)
    (htail : (read_groups 0 (8 - (head.length + 1))).run more = some ((tail, ipv4), last)) :
    read_ipv6_addr.run (Ipv6Addr.fmt_subslice head ++ ':' :: ':' :: more) =
      some (.from_segments (head.takeD (8 - tail.length) 0 ++ tail), last) := by
  have hend : AtEnd 1 (':' :: ':' :: more) := .inr ⟨more, rfl⟩
  have hread := run_read_groups_fmt_subslice hend hhead.le
  rw [read_ipv6_addr, run_bind_some hread]
  dsimp only
  rw [if_neg hhead.ne, if_neg Bool.false_ne_true, run_bind_some (run_given ..),
    run_bind_some (run_given ..), run_bind_some htail, run_pure]

theorem run_read_ipv6_addr_full {groups : List UInt16} (hlen : groups.length = 8) :
    read_ipv6_addr.run (Ipv6Addr.fmt_subslice groups) = some (.from_segments groups, []) := by
  have hend : AtEnd 1 [] := .inl rfl
  have hread := run_read_groups_fmt_subslice hend hlen.le
  rw [List.append_nil] at hread
  rw [read_ipv6_addr, run_bind_some hread]
  dsimp only
  rw [if_pos hlen, run_pure]

theorem run_read_groups_ipv4 (index left : Nat) (hleft : 1 < left) (ip : Ipv4Addr) :
    (read_groups index left).run (separator ':' index ++ ip.fmt) =
      some ((groups_of_octets ip.octets.bytes, true), []) := by
  obtain ⟨left, rfl⟩ := Nat.exists_eq_add_one_of_ne_zero (Nat.ne_zero_of_lt hleft)
  have hread := run_read_ipv4_addr ip (stops_nil 10)
  rw [List.append_nil] at hread
  have hipv4 : (read_embedded_ipv4 index (left + 1)).run (separator ':' index ++ ip.fmt) =
      some (some ip, []) := by
    unfold read_embedded_ipv4
    rw [if_pos hleft]
    exact run_optional_some ((run_read_separator ..).trans hread)
  rw [read_groups, run_bind_some hipv4]
  rfl

-- No part of an IPv6 address.
structure Foreign (c : Char) : Prop where
  decimal : to_digit 10 c = none
  hex : to_digit 16 c = none
  dot : c ≠ '.'
  colon : c ≠ ':'

theorem endsAt_read_groups (h : Foreign c) (index left : Nat) :
    EndsAt c (read_groups index left) := by
  induction left generalizing index with
  | zero => exact .pure _
  | succ left ih =>
      have hipv4 : EndsAt c (read_embedded_ipv4 index (left + 1)) := by
        unfold read_embedded_ipv4
        split_ifs
        · have haddr := endsAt_read_ipv4_addr h.decimal h.dot
          exact (endsAt_read_separator h.colon haddr index).optional
        · exact .pure _
      have hgroup : EndsAt c (read_group index) :=
        (endsAt_read_separator h.colon (endsAt_read_number (by decide) h.hex _ _ _) index).bind
          fun _ => .pure _
      refine hipv4.bind fun ipv4 => ?_
      cases ipv4 with
      | some ipv4 => exact .pure _
      | none =>
          refine hgroup.optional.bind fun group => ?_
          cases group with
          | some group => exact (ih (index + 1)).bind fun _ => .pure _
          | none => exact .pure _

theorem endsAt_read_ipv6_addr (h : Foreign c) : EndsAt c read_ipv6_addr := by
  refine (endsAt_read_groups h 0 8).bind fun head => ?_
  dsimp only
  split_ifs
  · exact .pure _
  · exact .fail
  · exact (EndsAt.given h.colon).bind fun _ => (EndsAt.given h.colon).bind fun _ =>
      (endsAt_read_groups h 0 _).bind fun _ => .pure _

-- How many colons an item takes.
theorem count_of_run_read_separator {α : Type} {index : Nat} {inner : Scanner α} {text : List Char}
    {a : α} (h : (read_separator ':' index inner).run text = some (a, rest)) :
    rest.count ':' + min index 1 ≤ text.count ':' := by
  unfold read_separator at h
  split_ifs at h with hindex
  · obtain ⟨_, mid, hgiven, hinner⟩ := of_run_bind h
    have hle := count_le hinner ':'
    rw [of_run_given hgiven, List.count_cons_self]
    omega
  · have hle := count_le h ':'
    omega

theorem count_of_run_read_groups {index left : Nat} {text : List Char} {groups : List UInt16}
    {ipv4 : Bool} (h : (read_groups index left).run text = some ((groups, ipv4), rest)) :
    rest.count ':' + groups.length + min index 1 ≤ text.count ':' + 1 + ipv4.toNat := by
  induction left generalizing index text groups with
  | zero =>
      cases h
      simp only [List.length_nil]
      omega
  | succ left ih =>
      obtain ⟨embedded, mid, hembedded, hthen⟩ := of_run_bind h
      have hread : (∃ ip, embedded = some ip ∧
          (read_separator ':' index read_ipv4_addr).run text = some (ip, mid)) ∨
            embedded = none ∧ mid = text := by
        unfold read_embedded_ipv4 at hembedded
        split_ifs at hembedded
        · exact of_run_optional hembedded
        · cases hembedded
          exact .inr ⟨rfl, rfl⟩
      rcases hread with ⟨ip, rfl, hip⟩ | ⟨rfl, rfl⟩
      · have hcount := count_of_run_read_separator hip
        cases hthen
        rw [length_groups_of_octets (by rw [ip.octets.length_eq]), ip.octets.length_eq,
          Bool.toNat_true]
        omega
      · obtain ⟨group, mid', hgroup, hlast⟩ := of_run_bind hthen
        rcases of_run_optional hgroup with ⟨g, rfl, hg⟩ | ⟨rfl, rfl⟩
        · obtain ⟨n, _, hnumber, hpure⟩ := of_run_bind hg
          cases hpure
          obtain ⟨⟨groups', ipv4'⟩, _, hmore, hpure⟩ := of_run_bind hlast
          cases hpure
          have hcount := count_of_run_read_separator hnumber
          have hrest := ih hmore
          simp only [List.length_cons]
          omega
        · cases hlast
          simp only [List.length_nil]
          omega

-- An IPv6 address has more than one colon.
theorem two_le_count_of_run_read_ipv6_addr {text : List Char} {ip : Ipv6Addr}
    (h : read_ipv6_addr.run text = some (ip, rest)) : 2 ≤ text.count ':' := by
  obtain ⟨⟨head, head_ipv4⟩, mid, hhead, h⟩ := of_run_bind h
  have hcount := count_of_run_read_groups hhead
  have hbool := head_ipv4.toNat_le
  dsimp only at h
  split_ifs at h with hfull hipv4
  · omega
  · cases h
  · obtain ⟨_, more, hfirst, h⟩ := of_run_bind h
    obtain ⟨_, more', hsecond, -⟩ := of_run_bind h
    have hle := count_le hhead ':'
    rw [of_run_given hfirst, of_run_given hsecond, List.count_cons_self,
      List.count_cons_self] at hle
    omega

end Net

namespace Ipv6Addr

open Net

-- The span is in the segments, and nothing in it but zeros.
def Zeroes (segments : List UInt16) (span : Span) : Prop :=
  (segments.drop span.start).take span.len = List.replicate span.len 0

-- The current run goes on to the end of what was looked at.
def Trailing (front : List UInt16) (current : Span) : Prop :=
  current.len ≠ 0 → front.drop current.start = List.replicate current.len 0

theorem Trailing.start_le {front : List UInt16} {current : Span} (h : Trailing front current)
    (hlen : current.len ≠ 0) : current.start ≤ front.length := by
  have hdrop := congrArg List.length (h hlen)
  rw [List.length_drop, List.length_replicate] at hdrop
  omega

theorem Trailing.push {front : List UInt16} {current : Span} (h : Trailing front current) :
    Trailing (front ++ [0]) (current.push front.length) := by
  intro _
  by_cases hlen : current.len = 0
  · simp [Span.push, hlen]
  · simp only [Span.push, hlen, if_false]
    rw [List.drop_append_of_le_length (h.start_le hlen), h hlen, List.replicate_succ']

theorem Trailing.zeroes {front : List UInt16} {current : Span} (h : Trailing front current)
    (hlen : current.len ≠ 0) (segments : List UInt16) : Zeroes (front ++ segments) current := by
  rw [Zeroes, List.drop_append_of_le_length (h.start_le hlen), h hlen]
  exact List.take_left' List.length_replicate

theorem zeroes_longest_zeroes (front : List UInt16) {segments : List UInt16}
    {longest current : Span} (hlongest : Zeroes (front ++ segments) longest)
    (hcurrent : Trailing front current) :
    Zeroes (front ++ segments) (longest_zeroes front.length longest current segments) := by
  induction segments generalizing front longest current with
  | nil => exact hlongest
  | cons segment segments ih =>
      have hlen : front.length + 1 = (front ++ [segment]).length := by simp
      have hsplit : front ++ segment :: segments = (front ++ [segment]) ++ segments := by simp
      rw [hsplit] at hlongest ⊢
      rw [longest_zeroes, hlen]
      by_cases hzero : segment = 0
      · subst hzero
        have hnext := hcurrent.push
        rw [if_pos rfl]
        refine ih (front ++ [0]) ?_ hnext
        split_ifs
        · exact hnext.zeroes (Nat.succ_ne_zero _) segments
        · exact hlongest
      · rw [if_neg hzero]
        exact ih (front ++ [segment]) hlongest fun h => absurd rfl h

-- The segments in front of the span, its zeros, and those behind it.
theorem Zeroes.eq_append {segments : List UInt16} {span : Span} (h : Zeroes segments span) :
    segments = segments.take span.start ++ (List.replicate span.len 0 ++
      segments.drop (span.start + span.len)) := by
  rw [← h, ← List.drop_drop, List.take_append_drop, List.take_append_drop]

theorem Zeroes.le_length {segments : List UInt16} {span : Span} (h : Zeroes segments span)
    (hlen : span.len ≠ 0) : span.start + span.len ≤ segments.length := by
  have htake := congrArg List.length h
  rw [List.length_take, List.length_drop, List.length_replicate] at htake
  omega

theorem eq_of_bytes {ip ip' : Ipv6Addr} (h : ip.octets.bytes = ip'.octets.bytes) : ip = ip' := by
  obtain ⟨⟨octets, _⟩⟩ := ip
  obtain ⟨⟨octets', _⟩⟩ := ip'
  cases h
  rfl

theorem bytes_from_segments {segments : List UInt16} (hlen : segments.length = 8) :
    (from_segments segments).octets.bytes = segments.flatMap u16_to_be_bytes := by
  have htake : segments.takeD 8 0 = segments := by
    rw [List.takeD_eq_take 0 (Nat.le_of_eq hlen.symm), List.take_of_length_le (Nat.le_of_eq hlen)]
  exact congrArg (List.flatMap u16_to_be_bytes) htake

theorem length_segments (ip : Ipv6Addr) : ip.segments.length = 8 := by
  rw [segments, length_groups_of_octets (by rw [ip.octets.length_eq]), ip.octets.length_eq]

theorem from_segments_segments (ip : Ipv6Addr) : from_segments ip.segments = ip := by
  apply eq_of_bytes
  rw [bytes_from_segments ip.length_segments]
  exact flatMap_groups_of_octets (by rw [ip.octets.length_eq])

theorem takeD_length_add {α : Type} (front : List α) (k : Nat) (a : α) :
    front.takeD (front.length + k) a = front ++ List.replicate k a := by
  induction front with
  | nil => simp
  | cons x front ih =>
      rw [List.length_cons, Nat.add_right_comm, List.takeD_succ]
      exact congrArg (x :: ·) ih

theorem run_read_ipv6_addr_mapped {ip : Ipv6Addr} {ipv4 : Ipv4Addr}
    (h : ip.to_ipv4_mapped = some ipv4) :
    read_ipv6_addr.run ("::ffff:".toList ++ ipv4.fmt) = some (ip, []) := by
  unfold to_ipv4_mapped at h
  split_ifs at h with hfront
  obtain rfl := Option.some.inj h
  have heven : (ip.octets.bytes.drop 12).length % 2 = 0 := by
    rw [List.length_drop, ip.octets.length_eq]
  have hlen : (groups_of_octets (ip.octets.bytes.drop 12)).length = 2 := by
    rw [length_groups_of_octets heven, List.length_drop, ip.octets.length_eq]
  have hread := run_read_groups_group 0 6 0xffff (.inr ⟨_, rfl⟩)
    (run_read_groups_ipv4 1 6 (by decide) ⟨⟨ip.octets.bytes.drop 12, by
      rw [List.length_drop, ip.octets.length_eq]⟩⟩)
  have hhead : ([] : List UInt16).length < 8 := by decide
  refine (run_read_ipv6_addr_compressed hhead hread).trans ?_
  congr 2
  apply eq_of_bytes
  rw [bytes_from_segments (by simp [hlen]), List.length_cons, hlen, List.takeD_nil,
    List.flatMap_append, List.flatMap_cons, flatMap_groups_of_octets heven, ← List.append_assoc]
  exact (congrArg (· ++ ip.octets.bytes.drop 12) hfront.symm).trans (List.take_append_drop ..)

theorem run_read_ipv6_addr (ip : Ipv6Addr) : read_ipv6_addr.run ip.fmt = some (ip, []) := by
  unfold fmt
  cases hmapped : ip.to_ipv4_mapped with
  | some ipv4 => exact run_read_ipv6_addr_mapped hmapped
  | none =>
      have hlen := ip.length_segments
      have hzeroes : Zeroes ip.segments (longest_zeroes 0 ⟨0, 0⟩ ⟨0, 0⟩ ip.segments) :=
        zeroes_longest_zeroes [] rfl fun h => absurd rfl h
      generalize longest_zeroes 0 ⟨0, 0⟩ ⟨0, 0⟩ ip.segments = zeroes at hzeroes ⊢
      dsimp only
      split_ifs with hmany
      · have hle := hzeroes.le_length (by omega)
        have hhead : (ip.segments.take zeroes.start).length = zeroes.start := by
          rw [List.length_take]
          omega
        have htail : (ip.segments.drop (zeroes.start + zeroes.len)).length ≤
            8 - ((ip.segments.take zeroes.start).length + 1) := by
          rw [List.length_drop, hhead]
          omega
        have hgap : 8 - (ip.segments.drop (zeroes.start + zeroes.len)).length =
            (ip.segments.take zeroes.start).length + zeroes.len := by
          rw [List.length_drop, hhead]
          omega
        have hread := run_read_groups_fmt_subslice (.inl rfl) htail
        rw [List.append_nil] at hread
        rw [List.append_assoc]
        refine (run_read_ipv6_addr_compressed (by omega) hread).trans ?_
        rw [hgap, takeD_length_add, List.append_assoc, ← hzeroes.eq_append,
          from_segments_segments]
      · rw [run_read_ipv6_addr_full hlen, from_segments_segments]

end Ipv6Addr

end AlphaRay
