import AlphaRay.Util.TargetAddr

namespace AlphaRay

open Lib Net

theorem toList_colon (host port : String) :
    (host ++ ":" ++ port).toList = host.toList ++ ':' :: port.toList := by simp

theorem toList_colon_sign (host port : String) :
    (host ++ ":+" ++ port).toList = host.toList ++ ':' :: ('+' :: port.toList) := by simp

theorem portText_signed {digits : List Char} (h : Port digits) : PortText ('+' :: digits) digits :=
  ⟨h, .inr rfl⟩

namespace TargetAddr

-- The address is printed as a text that stands for it, and for nothing else.
def RoundTrips (t : TargetAddr) : Prop :=
  from_str t.to_string = .ok t ∧
    ∀ host port, t = .Domain host port → SocketAddr.from_str t.to_string = none

theorem roundTrips_of_literal {s : String} {a : AlphaRay.SocketAddr}
    (hs : SocketAddr.from_str s = some a) : RoundTrips (.SocketAddr a) :=
  ⟨from_str_of_literal (SocketAddr.from_str_fmt hs), fun _ _ h => by cases h⟩

-- A name that is written like an address is taken for one.
theorem roundTrips_domain_iff (host : String) (port : UInt16) :
    RoundTrips (.Domain host port) ↔ ¬ Host host.toList := by
  have hcut : (to_string (.Domain host port)).toList =
      host.toList ++ ':' :: decimal port.toNat := by simp [to_string]
  have hport := port_decimal port
  have hliteral := SocketAddr.isLiteral_iff hcut hport.colon_not_mem
  constructor
  · rintro ⟨-, hdomain⟩ hhost
    obtain ⟨a, ha⟩ := hliteral.mpr ⟨hhost, hport⟩
    rw [hdomain host port rfl] at ha
    cases ha
  · intro hhost
    have hnone : SocketAddr.from_str (to_string (.Domain host port)) = none :=
      Option.eq_none_iff_forall_ne_some.mpr fun a ha => hhost (hliteral.mp ⟨a, ha⟩).1
    refine ⟨(from_str_eq_ok hnone).mpr ⟨_, _, _, hcut, ⟨hport, .inl rfl⟩, ?_⟩, fun _ _ _ => hnone⟩
    rw [String.ofList_toList, ofDigitChars_decimal, UInt16.ofNat_toNat]

-- A literal but for the sign of its port.
def SignedLiteral (s : String) : Prop :=
  ∃ host digits : String, s = host ++ ":+" ++ digits ∧ Port digits.toList ∧
    SocketAddr.IsLiteral (host ++ ":" ++ digits)

theorem not_signedLiteral_of_literal {s : String} (hs : SocketAddr.IsLiteral s) :
    ¬ SignedLiteral s := by
  rintro ⟨host, digits, rfl, hport, -⟩
  have hcolon := (portText_signed hport).colon_not_mem
  obtain ⟨-, hsigned⟩ := (SocketAddr.isLiteral_iff (toList_colon_sign host digits) hcolon).mp hs
  exact not_port_of_head (by decide) hsigned

-- Where a domain is read, the sign is all that a literal can lack.
theorem signedLiteral_iff {s : String} {host text digits : List Char}
    (hs : ¬ SocketAddr.IsLiteral s) (hsplit : s.toList = host ++ ':' :: text)
    (htext : PortText text digits) : SignedLiteral s ↔ Host host := by
  constructor
  · rintro ⟨host', digits', rfl, hport, hliteral⟩
    have hcut := hsplit.symm.trans (toList_colon_sign host' digits')
    obtain ⟨rfl, -⟩ :=
      append_cons_inj htext.colon_not_mem (portText_signed hport).colon_not_mem hcut
    have hunsigned := toList_colon host' digits'
    exact ((SocketAddr.isLiteral_iff hunsigned hport.colon_not_mem).mp hliteral).1
  · intro hhost
    obtain ⟨hport, rfl | rfl⟩ := htext
    · exact absurd ((SocketAddr.isLiteral_iff hsplit hport.colon_not_mem).mpr ⟨hhost, hport⟩) hs
    · refine ⟨String.ofList host, String.ofList digits, ?_, by simpa using hport, ?_⟩
      · apply String.toList_injective
        rw [hsplit]
        simp
      · exact (SocketAddr.isLiteral_iff (by simp) hport.colon_not_mem).mpr ⟨hhost, hport⟩

theorem from_str_to_string_iff {s : String} {t : TargetAddr} (h : from_str s = .ok t) :
    RoundTrips t ↔ ¬ SignedLiteral s := by
  cases hs : SocketAddr.from_str s with
  | some a =>
      obtain rfl : .SocketAddr a = t := Except.ok.inj ((from_str_of_literal hs).symm.trans h)
      exact iff_of_true (roundTrips_of_literal hs) (not_signedLiteral_of_literal ⟨a, hs⟩)
  | none =>
      have hliteral : ¬ SocketAddr.IsLiteral s := fun ⟨a, ha⟩ => by
        rw [hs] at ha
        cases ha
      obtain ⟨host, text, digits, hsplit, htext, rfl⟩ := (from_str_eq_ok hs).mp h
      rw [roundTrips_domain_iff, String.toList_ofList, signedLiteral_iff hliteral hsplit htext]

theorem from_str_to_string_example_com :
    RoundTrips (.Domain "example.com" 443) ↔ ¬ SignedLiteral "example.com:+0443" :=
  from_str_to_string_iff (s := "example.com:+0443") rfl

-- The sign is lost, and with it the only thing that kept the address from being a literal.
theorem from_str_signed_port :
    from_str "1.2.3.4:+80" = .ok (.Domain "1.2.3.4" 80) ∧
    to_string (.Domain "1.2.3.4" 80) = "1.2.3.4:80" ∧
    from_str "1.2.3.4:80" = .ok (.SocketAddr (.V4 ⟨⟨[1, 2, 3, 4], rfl⟩⟩ 80)) ∧
    ¬ ∀ s t, from_str s = .ok t → RoundTrips t := by
  refine ⟨rfl, rfl, rfl, fun h => ?_⟩
  have hback : from_str "1.2.3.4:80" = .ok (.Domain "1.2.3.4" 80) :=
    (h "1.2.3.4:+80" (.Domain "1.2.3.4" 80) rfl).1
  cases hback

-- A socket address, or a name and a port.
def Grammar (s : String) : Prop :=
  SocketAddr.IsLiteral s ∨ ∃ host port : String, s = host ++ ":" ++ port ∧ host ≠ "" ∧
    ':' ∉ host.toList ∧ Port port.toList

-- An IPv6 address without a port.
def BareIpv6 (s : String) : Prop := ∃ ip, read_ipv6_addr.parse_with s.toList = some ip

theorem not_grammar_of_bareIpv6 {s : String} (hs : BareIpv6 s) : ¬ Grammar s := by
  obtain ⟨ip, hip⟩ := hs
  have hread := Scanner.parse_with_eq_some.mp hip
  have hcount := two_le_count_of_run_read_ipv6_addr hread
  rintro (hliteral | ⟨host, port, rfl, -, hcolon, hport⟩)
  · exact SocketAddr.not_isLiteral_of_ipv6 hread hliteral
  · have hhost := List.count_eq_zero_of_not_mem hcolon
    have hdigits := List.count_eq_zero_of_not_mem hport.colon_not_mem
    simp only [String.toList_append, List.count_append, hhost, hdigits] at hcount
    exact absurd hcount (by decide)

-- What is accepted, and that the last group of an address is not taken for a port.
def ReadsGrammar (s : String) : Prop :=
  ((∃ t, from_str s = .ok t) ↔ Grammar s) ∧ (BareIpv6 s → ∀ t, from_str s ≠ .ok t)

-- A port is cut off a name that is empty or has a colon itself, or it is one with a sign.
def Missplit (s : String) : Prop :=
  ¬ SocketAddr.IsLiteral s ∧ ∃ host port : String, Port port.toList ∧
    (s = host ++ ":" ++ port ∧ (host = "" ∨ ':' ∈ host.toList) ∨ s = host ++ ":+" ++ port)

theorem not_grammar_of_missplit {s : String} (h : Missplit s) : ¬ Grammar s := by
  obtain ⟨hnot, host, port, hport, hshape⟩ := h
  rintro (hliteral | ⟨host', port', rfl, hne, hcolon, hport'⟩)
  · exact hnot hliteral
  · have hlist := (toList_colon host' port').symm
    rcases hshape with ⟨hs, hhost⟩ | hs <;> rw [hs] at hlist
    · have hcut := hlist.trans (toList_colon host port)
      obtain ⟨hsame, -⟩ := append_cons_inj hport'.colon_not_mem hport.colon_not_mem hcut
      obtain rfl := String.toList_injective hsame
      exact hhost.elim hne hcolon
    · have hcut := hlist.trans (toList_colon_sign host port)
      obtain ⟨-, hsame⟩ := append_cons_inj hport'.colon_not_mem
        (portText_signed hport).colon_not_mem hcut
      rw [hsame] at hport'
      exact not_port_of_head (by decide) hport'

theorem exists_from_str_iff (s : String) :
    (∃ t, from_str s = .ok t) ↔ SocketAddr.IsLiteral s ∨ ∃ host port : String,
      Port port.toList ∧ (s = host ++ ":" ++ port ∨ s = host ++ ":+" ++ port) := by
  cases hs : SocketAddr.from_str s with
  | some a => exact iff_of_true ⟨_, from_str_of_literal hs⟩ (.inl ⟨a, hs⟩)
  | none =>
      constructor
      · rintro ⟨t, h⟩
        obtain ⟨host, text, digits, hsplit, ⟨hport, hsign⟩, -⟩ := (from_str_eq_ok hs).mp h
        refine .inr ⟨String.ofList host, String.ofList digits, by simpa using hport, ?_⟩
        rcases hsign with rfl | rfl
        · exact .inl (String.toList_injective (by simp [hsplit]))
        · exact .inr (String.toList_injective (by simp [hsplit]))
      · rintro (⟨a, ha⟩ | ⟨host, port, hport, rfl | rfl⟩)
        · rw [hs] at ha
          cases ha
        · exact ⟨_, (from_str_eq_ok hs).mpr
            ⟨_, _, _, toList_colon host port, ⟨hport, .inl rfl⟩, rfl⟩⟩
        · exact ⟨_, (from_str_eq_ok hs).mpr
            ⟨_, _, _, toList_colon_sign host port, portText_signed hport, rfl⟩⟩

theorem from_str_accepts_iff (s : String) : ReadsGrammar s ↔ ¬ Missplit s := by
  constructor
  · rintro ⟨hgrammar, -⟩ hmissplit
    obtain ⟨hnot, host, port, hport, hshape⟩ := id hmissplit
    have haccepted := (exists_from_str_iff s).mpr (.inr ⟨host, port, hport, hshape.imp And.left id⟩)
    exact not_grammar_of_missplit hmissplit (hgrammar.mp haccepted)
  · intro hno
    have hgrammar : (∃ t, from_str s = .ok t) ↔ Grammar s := by
      rw [exists_from_str_iff]
      constructor
      · rintro (hliteral | ⟨host, port, hport, hshape⟩)
        · exact .inl hliteral
        · by_cases hliteral : SocketAddr.IsLiteral s
          · exact .inl hliteral
          · rcases hshape with rfl | rfl
            · refine .inr ⟨host, port, rfl, fun hempty => ?_, fun hcolon => ?_, hport⟩
              · exact hno ⟨hliteral, host, port, hport, .inl ⟨rfl, .inl hempty⟩⟩
              · exact hno ⟨hliteral, host, port, hport, .inl ⟨rfl, .inr hcolon⟩⟩
            · exact absurd ⟨hliteral, host, port, hport, .inr rfl⟩ hno
      · rintro (hliteral | ⟨host, port, rfl, -, -, hport⟩)
        · exact .inl hliteral
        · exact .inr ⟨host, port, hport, .inl rfl⟩
    exact ⟨hgrammar, fun hbare t ht => not_grammar_of_bareIpv6 hbare (hgrammar.mp ⟨t, ht⟩)⟩

-- The last group of an address without a port is taken for one.
theorem from_str_ipv6_without_port :
    BareIpv6 "::1" ∧ from_str "::1" = .ok (.Domain ":" 1) ∧ ¬ ∀ s, ReadsGrammar s := by
  have hbare : BareIpv6 "::1" := ⟨⟨⟨[0, 0, 0, 0, 0, 0, 0, 0, 0, 0, 0, 0, 0, 0, 0, 1], rfl⟩⟩, rfl⟩
  exact ⟨hbare, rfl, fun h => (h "::1").2 hbare _ rfl⟩

end TargetAddr

end AlphaRay
