import AlphaRay.Lib.Text
import AlphaRay.Net.Ipv6

namespace AlphaRay

open Lib

namespace Net

open Scanner

-- A port as it is written: decimal digits, of which the ones in front may be zeros.
structure Port (text : List Char) : Prop where
  ne_nil : text ≠ []
  digits : ∀ c ∈ text, c.isDigit
  fits : Nat.ofDigitChars 10 text 0 ≤ u16_MAX

theorem Port.colon_not_mem {text : List Char} (h : Port text) : ':' ∉ text := fun hmem =>
  absurd (h.digits ':' hmem) (by decide)

theorem run_read_port {text : List Char} (h : Port text) :
    read_port.run (':' :: text) = some (UInt16.ofNat (Nat.ofDigitChars 10 text 0), []) := by
  have hread := run_read_number_none u16_MAX (by decide)
    (fun c hc => isDigit_iff.mpr (h.digits c hc)) (stops_nil 10)
  rw [digits_value_ten h.digits, if_pos ⟨h.ne_nil, h.fits⟩, List.append_nil] at hread
  rw [read_port, run_bind_some (run_given ..), run_bind_some hread, run_pure]

theorem of_run_read_port {text : List Char} {port : UInt16}
    (h : read_port.run text = some (port, [])) : ∃ digits, text = ':' :: digits ∧ Port digits := by
  obtain ⟨_, digits, hgiven, hnumber⟩ := of_run_bind h
  obtain ⟨n, mid, hread, hpure⟩ := of_run_bind hnumber
  cases hpure
  obtain ⟨ds, hsplit, hdigits, hstop⟩ := of_run_read_number hread
  rw [List.append_nil] at hsplit
  subst hsplit
  refine ⟨digits, of_run_given hgiven, ?_⟩
  have hvalue := run_read_number_none u16_MAX (by decide) hdigits (stops_nil 10)
  rw [List.append_nil, hread] at hvalue
  split_ifs at hvalue with hok
  have hisDigit : ∀ c ∈ digits, c.isDigit := fun c hc => isDigit_iff.mp (hdigits c hc)
  rw [digits_value_ten hisDigit] at hok
  exact ⟨hok.1, hisDigit, hok.2⟩

theorem ofDigitChars_decimal (n : Nat) : Nat.ofDigitChars 10 (decimal n) 0 = n :=
  Nat.ofDigitChars_toDigits (by decide) (by decide)

theorem port_decimal (port : UInt16) : Port (decimal port.toNat) := by
  refine ⟨decimal_ne_nil, fun c hc => Nat.isDigit_of_mem_toDigits (by decide) (by decide) hc, ?_⟩
  rw [ofDigitChars_decimal]
  exact Nat.le_of_lt_succ port.toNat_lt

theorem run_read_port_decimal (port : UInt16) :
    read_port.run (':' :: decimal port.toNat) = some (port, []) := by
  rw [run_read_port (port_decimal port), ofDigitChars_decimal, UInt16.ofNat_toNat]

theorem run_read_socket_addr_v4 {host text : List Char} {ip : Ipv4Addr} {port : UInt16}
    (hhost : read_ipv4_addr.run host = some (ip, []))
    (hport : read_port.run (':' :: text) = some (port, [])) :
    read_socket_addr_v4.run (host ++ ':' :: text) = some (.V4 ip port, []) := by
  have hread := endsAt_colon_read_ipv4_addr.run_append hhost text
  rw [read_socket_addr_v4, run_bind_some hread, List.nil_append, run_bind_some hport, run_pure]

theorem of_run_read_socket_addr_v4 {text : List Char} {addr : SocketAddr}
    (h : read_socket_addr_v4.run text = some (addr, [])) :
    ∃ ip mid port, read_ipv4_addr.run text = some (ip, mid) ∧
      read_port.run mid = some (port, []) ∧ addr = .V4 ip port := by
  obtain ⟨ip, mid, hip, hmore⟩ := of_run_bind h
  obtain ⟨port, _, hport, hpure⟩ := of_run_bind hmore
  cases hpure
  exact ⟨ip, mid, port, hip, hport, rfl⟩

theorem foreign_bracket : Foreign ']' := ⟨by decide, by decide, by decide, by decide⟩

theorem foreign_percent : Foreign '%' := ⟨by decide, by decide, by decide, by decide⟩

theorem endsAt_read_scope_id : EndsAt ']' read_scope_id :=
  (EndsAt.given (by decide)).bind fun _ =>
    (endsAt_read_number (by decide) (by decide) _ _ _).bind fun _ => .pure _

-- What stands between the brackets.
def read_scoped : Scanner (Ipv6Addr × UInt32) := do
  let ip ← read_ipv6_addr
  let scope_id ← read_scope_id.optional
  return (ip, scope_id.getD 0)

theorem endsAt_read_scoped : EndsAt ']' read_scoped :=
  (endsAt_read_ipv6_addr foreign_bracket).bind fun _ => endsAt_read_scope_id.optional.bind fun _ =>
    .pure _

theorem run_read_scoped (ip : Ipv6Addr) (scope_id : UInt32) :
    read_scoped.run
        (ip.fmt ++ if scope_id = 0 then [] else '%' :: decimal scope_id.toNat) =
      some ((ip, scope_id), []) := by
  have hip := ip.run_read_ipv6_addr
  split_ifs with hzero
  · rw [List.append_nil, read_scoped, run_bind_some hip, run_bind_some (run_optional_none rfl),
      run_pure, hzero]
    rfl
  · have hfits : scope_id.toNat ≤ u32_MAX := Nat.le_of_lt_succ scope_id.toNat_lt
    have hnumber := run_read_decimal hfits (stops_nil 10)
    have hscope : read_scope_id.run ('%' :: decimal scope_id.toNat) = some (scope_id, []) := by
      rw [List.append_nil] at hnumber
      rw [read_scope_id, run_bind_some (run_given ..), run_bind_some hnumber, run_pure,
        UInt32.ofNat_toNat]
    rw [read_scoped, run_bind_some ((endsAt_read_ipv6_addr foreign_percent).run_append hip _),
      List.nil_append, run_bind_some (run_optional_some hscope), run_pure]
    rfl

theorem run_read_socket_addr_v6 {inner text : List Char} {ip : Ipv6Addr} {scope_id : UInt32}
    {port : UInt16} (hinner : read_scoped.run inner = some ((ip, scope_id), []))
    (hport : read_port.run text = some (port, [])) :
    read_socket_addr_v6.run ('[' :: inner ++ ']' :: text) =
      some (.V6 ip port 0 scope_id, []) := by
  obtain ⟨ip', mid, hip, hrest⟩ := of_run_bind (endsAt_read_scoped.run_append hinner text)
  obtain ⟨scope_id', _, hscope, hpure⟩ := of_run_bind hrest
  cases hpure
  rw [read_socket_addr_v6, List.cons_append, run_bind_some (run_given ..), run_bind_some hip,
    run_bind_some hscope, List.nil_append, run_bind_some (run_given ..), run_bind_some hport,
    run_pure]

theorem of_run_read_socket_addr_v6 {text : List Char} {addr : SocketAddr}
    (h : read_socket_addr_v6.run text = some (addr, [])) :
    ∃ inner more ip scope_id port, text = '[' :: inner ++ ']' :: more ∧
      read_scoped.run inner = some ((ip, scope_id), []) ∧
      read_port.run more = some (port, []) ∧ addr = .V6 ip port 0 scope_id := by
  obtain ⟨_, text', hopen, h⟩ := of_run_bind h
  obtain ⟨ip, mid, hip, h⟩ := of_run_bind h
  obtain ⟨scope_id, mid', hscope, h⟩ := of_run_bind h
  obtain ⟨_, more, hclose, h⟩ := of_run_bind h
  obtain ⟨port, _, hport, hpure⟩ := of_run_bind h
  cases hpure
  have hread : read_scoped.run text' = some ((ip, scope_id.getD 0), ']' :: more) := by
    rw [read_scoped, run_bind_some hip, run_bind_some hscope, run_pure, of_run_given hclose]
  obtain ⟨inner, hinner⟩ := read_scoped.suffix hread
  rw [← hinner] at hread
  obtain ⟨rest, hscoped, hrest⟩ := endsAt_read_scoped.of_run_append hread
  obtain rfl : rest = [] := List.self_eq_append_left.mp hrest
  exact ⟨inner, more, ip, _, port, by rw [of_run_given hopen, ← hinner]; rfl, hscoped, hport, rfl⟩

-- What may stand in front of the port.
inductive Host : List Char → Prop
  | ipv4 {host : List Char} {ip : Ipv4Addr} : read_ipv4_addr.run host = some (ip, []) → Host host
  | ipv6 {inner : List Char} {ip : Ipv6Addr} {scope_id : UInt32} :
      read_scoped.run inner = some ((ip, scope_id), []) → Host ('[' :: inner ++ [']'])

end Net

namespace SocketAddr

open Net Scanner

theorem from_str_eq_some {s : String} {addr : SocketAddr} :
    from_str s = some addr ↔ read_socket_addr_v4.run s.toList = some (addr, []) ∨
      read_socket_addr_v4.run s.toList = none ∧
        read_socket_addr_v6.run s.toList = some (addr, []) := by
  rw [from_str, parse_with_eq_some, or_else]
  exact Option.or_eq_some_iff

-- A bracket is no octet.
theorem from_str_bracket {s : String} {text : List Char} {addr : SocketAddr}
    (hs : s.toList = '[' :: text)
    (h : read_socket_addr_v6.run ('[' :: text) = some (addr, [])) : from_str s = some addr := by
  rw [from_str_eq_some, hs]
  exact .inr ⟨rfl, h⟩

-- What is read is printed, and read again, as the same address.
theorem from_str_fmt {s : String} {addr : SocketAddr} (h : from_str s = some addr) :
    from_str (String.ofList addr.fmt) = some addr := by
  rcases from_str_eq_some.mp h with h | ⟨-, h⟩
  · obtain ⟨ip, mid, port, -, -, rfl⟩ := of_run_read_socket_addr_v4 h
    have hip := run_read_ipv4_addr ip (stops_nil 10)
    rw [List.append_nil] at hip
    rw [from_str_eq_some, String.toList_ofList]
    exact .inl (run_read_socket_addr_v4 hip (run_read_port_decimal port))
  · obtain ⟨inner, more, ip, scope_id, port, -, -, -, rfl⟩ := of_run_read_socket_addr_v6 h
    exact from_str_bracket String.toList_ofList
      (run_read_socket_addr_v6 (run_read_scoped ip scope_id) (run_read_port_decimal port))

def IsLiteral (s : String) : Prop := ∃ addr, from_str s = some addr

-- A literal, cut at its last colon.
theorem isLiteral_iff {s : String} {host text : List Char} (hs : s.toList = host ++ ':' :: text)
    (htext : ':' ∉ text) : IsLiteral s ↔ Host host ∧ Port text := by
  constructor
  · rintro ⟨addr, h⟩
    rw [from_str_eq_some, hs] at h
    rcases h with h | ⟨-, h⟩
    · obtain ⟨ip, mid, port, hip, hport, -⟩ := of_run_read_socket_addr_v4 h
      obtain ⟨front, hhost, rfl⟩ := endsAt_colon_read_ipv4_addr.of_run_append hip
      obtain ⟨digits, hsplit, hdigits⟩ := of_run_read_port hport
      have hcut : front ++ ':' :: text = [] ++ ':' :: digits := hsplit
      obtain ⟨rfl, rfl⟩ := append_cons_inj htext hdigits.colon_not_mem hcut
      exact ⟨.ipv4 hhost, hdigits⟩
    · obtain ⟨inner, more, ip, scope_id, port, hsplit, hinner, hport, -⟩ :=
        of_run_read_socket_addr_v6 h
      obtain ⟨digits, rfl, hdigits⟩ := of_run_read_port hport
      have hcut : host ++ ':' :: text = ('[' :: inner ++ [']']) ++ ':' :: digits := by
        rw [hsplit, List.append_assoc]
        rfl
      obtain ⟨rfl, rfl⟩ := append_cons_inj htext hdigits.colon_not_mem hcut
      exact ⟨.ipv6 hinner, hdigits⟩
  · rintro ⟨hhost, hdigits⟩
    have hport := run_read_port hdigits
    cases hhost with
    | @ipv4 host ip hip =>
        have hread := run_read_socket_addr_v4 hip hport
        exact ⟨_, from_str_eq_some.mpr (.inl (hs ▸ hread))⟩
    | @ipv6 inner ip scope_id hinner =>
        have hread := run_read_socket_addr_v6 hinner hport
        have hbracket : s.toList = '[' :: (inner ++ ']' :: ':' :: text) := by
          rw [hs, List.append_assoc]
          rfl
        exact ⟨_, from_str_bracket hbracket hread⟩

-- An IPv6 address needs its brackets in front of a port.
theorem not_isLiteral_of_ipv6 {s : String} {ip : Ipv6Addr}
    (h : read_ipv6_addr.run s.toList = some (ip, [])) : ¬ IsLiteral s := by
  rintro ⟨addr, haddr⟩
  rcases from_str_eq_some.mp haddr with hread | ⟨-, hread⟩
  · obtain ⟨ipv4, mid, port, hipv4, -, -⟩ := of_run_read_socket_addr_v4 hread
    have hembedded : (read_embedded_ipv4 0 8).run s.toList = some (some ipv4, mid) :=
      run_optional_some hipv4
    have hgroups : (read_groups 0 8).run s.toList =
        some ((groups_of_octets ipv4.octets.bytes, true), mid) := by
      rw [read_groups, run_bind_some hembedded]
      rfl
    have hlen : (groups_of_octets ipv4.octets.bytes).length = 2 := by
      rw [length_groups_of_octets (by rw [ipv4.octets.length_eq]), ipv4.octets.length_eq]
    rw [read_ipv6_addr, run_bind_some hgroups] at h
    dsimp only at h
    rw [hlen] at h
    cases h
  · obtain ⟨inner, more, _, _, _, hsplit, -, -, -⟩ := of_run_read_socket_addr_v6 hread
    rw [hsplit] at h
    cases h

end SocketAddr

end AlphaRay
