import AlphaRay.Protocol.Vless.Refinement

namespace AlphaRay

open Lib

section Parsing

variable {α β : Type}

theorem run_read_exact_append (front rest : List UInt8) (n : Nat) (h : front.length = n)
    (f : List UInt8 → VlessParser β) :
    (ReadExact.read_exact n >>= f).run (front ++ rest) = (f front).run rest :=
  Parser.run_bind_ok (Parser.run_take_append front rest n VlessError.eof h) f

@[simp] theorem run_checked_ok (a : α) (f : α → VlessParser β)
    (input : List UInt8) : (checked (.ok a) >>= f).run input = (f a).run input :=
  Parser.run_bind_ok rfl f

@[simp] theorem run_fallible_ok (a : α) (f : α → VlessParser β)
    (input : List UInt8) : (fallible (.ok a) >>= f).run input = (f a).run input :=
  Parser.run_bind_ok rfl f

@[simp] theorem run_fallible_error (e : VlessError) (f : α → VlessParser β)
    (input : List UInt8) : (fallible (.error e) >>= f).run input = (.error (.Failed e), input) :=
  Parser.run_bind_error rfl f

theorem run_read_exact (n : Nat) (f : List UInt8 → VlessParser β) (input : List UInt8) :
    (ReadExact.read_exact n >>= f).run input =
      if n ≤ input.length then (f (input.take n)).run (input.drop n)
      else (.error VlessError.eof, []) := by
  by_cases hlen : n ≤ input.length
  · have htake : (ReadExact.read_exact n : VlessParser _).run input =
        (.ok (input.take n), input.drop n) := by
      simp [ReadExact.read_exact, Parser.take, Parser.run, hlen]
    rw [Parser.run_bind_ok htake, if_pos hlen]
  · rw [if_neg hlen]
    exact Parser.run_bind_error (Parser.run_take_of_lt _ _ _ (by omega)) f

-- The header is cut at 22 bytes, before the length of the addons is known: the
-- fields are the four bytes behind that length.
theorem parse_request_front (version : UInt8) (id : Uuid) (addons_len : UInt8)
    (fields rest : List UInt8) (hfields : fields.length = 4) :
    parse_request ([version] ++ id.bytes ++ [addons_len] ++ fields ++ rest) =
      match VlessVersion.try_from version with
      | .error e => (.error (.Failed e), rest)
      | .ok version => Parser.run (ReadExact.read_exact addons_len.toNat >>= fun _ =>
          read_fields version id fields) rest := by
  have hid : id.bytes.length = 16 := id.octets.length_eq
  have hheader : ([version] ++ id.bytes ++ [addons_len] ++ fields).length = 22 := by
    simp [hid, hfields]
  have hoctets : Octets.try_into 16 id.bytes = .ok id.octets := id.octets.try_into_bytes
  rw [parse_request, read_request, run_read_exact_append _ _ 22 hheader]
  simp only [List.append_assoc, List.cons_append, List.nil_append, get_u8, run_checked_ok]
  cases VlessVersion.try_from version with
  | error e => simp only [run_fallible_error]
  | ok version =>
      simp only [run_fallible_ok, copy_to_bytes_append _ _ _ hid, hoctets, run_checked_ok]
      by_cases hzero : addons_len = 0
      · simp [hzero, run_read_exact]
      · simp only [ne_eq, hzero, not_false_eq_true, if_true]

theorem parse_request_header (id : Uuid) (addons_len : UInt8) (fields skipped rest : List UInt8)
    (hfields : fields.length = 4) (hskipped : skipped.length = addons_len.toNat) :
    parse_request ([0] ++ id.bytes ++ [addons_len] ++ fields ++ skipped ++ rest) =
      Parser.run (read_fields .Zero id fields) rest := by
  have hversion : VlessVersion.try_from 0 = .ok .Zero := rfl
  rw [List.append_assoc _ skipped, parse_request_front _ _ _ _ _ hfields]
  simp only [hversion]
  rw [run_read_exact_append _ _ _ hskipped]

theorem run_read_fields (version : VlessVersion) (id : Uuid) (command high low kind : UInt8)
    (input : List UInt8) :
    (read_fields version id [command, high, low, kind] :
        VlessParser VlessRequest).run input =
      match VlessCommand.try_from command with
      | .error e => (.error (.Failed e), input)
      | .ok command =>
          match parse_target kind (u16_from_be_bytes [high, low]) input with
          | (.error e, rest) => (.error e, rest)
          | (.ok target, rest) => (.ok ⟨version, id, command, target⟩, rest) := by
  rw [read_fields]
  simp only [get_u8, run_checked_ok, get_u16]
  cases VlessCommand.try_from command with
  | error e => simp only [run_fallible_error]
  | ok command =>
      simp only [run_fallible_ok, run_checked_ok]
      rw [Parser.run_bind, parse_target]
      rcases Parser.run (read_target kind (u16_from_be_bytes [high, low])) input with ⟨_ | _, _⟩ <;>
        rfl

-- `port`, and the address kind that stands for the variant.
def TargetAddr.port : TargetAddr → UInt16
  | .SocketAddr (.V4 _ port) => port
  | .SocketAddr (.V6 _ port _ _) => port
  | .Domain _ port => port

def TargetAddr.kind : TargetAddr → UInt8
  | .SocketAddr (.V4 _ _) => 1
  | .SocketAddr (.V6 _ _ _ _) => 3
  | .Domain _ _ => 2

theorem parse_target_ipv4 (ip : Ipv4Addr) (port : UInt16) (rest : List UInt8) :
    parse_target 1 port (ip.octets.bytes ++ rest) =
      (.ok (.SocketAddr (.V4 ip port)), rest) := by
  simp only [parse_target, read_target, if_true]
  rw [run_read_exact_append _ _ _ ip.octets.length_eq]
  simp only [ip.octets.try_into_bytes, run_checked_ok]
  rfl

theorem parse_target_ipv6 (ip : Ipv6Addr) (port : UInt16) (rest : List UInt8) :
    parse_target 3 port (ip.octets.bytes ++ rest) =
      (.ok (.SocketAddr (.V6 ip port 0 0)), rest) := by
  simp only [parse_target, read_target, show (3 : UInt8) ≠ 1 by decide, show (3 : UInt8) ≠ 2 by decide,
    if_false, if_true]
  rw [run_read_exact_append _ _ _ ip.octets.length_eq]
  simp only [ip.octets.try_into_bytes, run_checked_ok]
  rfl

theorem parse_target_domain (len : UInt8) (domain rest : List UInt8) (port : UInt16)
    (hlen : domain.length = len.toNat) :
    parse_target 2 port ([len] ++ domain ++ rest) =
      (.ok (.Domain (from_utf8_lossy domain) port), rest) := by
  simp only [parse_target, read_target, show (2 : UInt8) ≠ 1 by decide, if_false, if_true]
  rw [List.append_assoc, run_read_exact_append [len] _ 1 rfl]
  simp only [get_u8, run_checked_ok]
  rw [run_read_exact_append _ _ _ hlen]
  rfl

-- A target is read only from its own kind, and keeps the port.
theorem of_parse_target {kind : UInt8} {port : UInt16} {input rest : List UInt8}
    {target : TargetAddr} (h : parse_target kind port input = (.ok target, rest)) :
    target.kind = kind ∧ target.port = port := by
  simp only [parse_target, read_target] at h
  split_ifs at h with h₁ h₂ h₃
  · obtain ⟨ip, _, _, h⟩ := Parser.of_run_bind_ok h
    obtain ⟨ip, _, _, h⟩ := Parser.of_run_bind_ok h
    cases h
    exact ⟨h₁.symm, rfl⟩
  · obtain ⟨_, _, _, h⟩ := Parser.of_run_bind_ok h
    obtain ⟨⟨_, _⟩, _, _, h⟩ := Parser.of_run_bind_ok h
    obtain ⟨_, _, _, h⟩ := Parser.of_run_bind_ok h
    cases h
    exact ⟨h₂.symm, rfl⟩
  · obtain ⟨ip, _, _, h⟩ := Parser.of_run_bind_ok h
    obtain ⟨ip, _, _, h⟩ := Parser.of_run_bind_ok h
    cases h
    exact ⟨h₃.symm, rfl⟩
  · cases h

end Parsing

section RoundTrip

-- An IPv6 socket address is compared by address and port only.
def TargetAddr.Agrees : TargetAddr → TargetAddr → Prop
  | .SocketAddr (.V6 ip port _ _), .SocketAddr (.V6 ip' port' _ _) => ip = ip' ∧ port = port'
  | target, target' => target = target'

def VlessRequest.Agrees (got sent : VlessRequest) : Prop :=
  got.version = sent.version ∧ got.id = sent.id ∧ got.command = sent.command ∧
    got.target.Agrees sent.target

-- The length of a domain name is sent in one byte.
def TargetAddr.Fits (target : TargetAddr) : Prop :=
  ∀ domain port, target = .Domain domain port → (as_bytes domain).length ≤ 255

theorem fields_eq (command : VlessCommand) (port : UInt16) (kind : UInt8) :
    [command.as_u8] ++ u16_to_be_bytes port ++ [kind] =
      [command.as_u8, UInt8.ofNat (port.toNat / 256), UInt8.ofNat (port.toNat % 256), kind] := rfl

-- Without addons the fields are where the parser takes them from.
theorem parse_request_no_addons (id : Uuid) (command : VlessCommand) (port : UInt16) (kind : UInt8)
    (rest : List UInt8) :
    parse_request ([0] ++ id.bytes ++ [0] ++
        ([command.as_u8] ++ u16_to_be_bytes port ++ [kind]) ++ rest) =
      match parse_target kind port rest with
      | (.error e, rest) => (.error e, rest)
      | (.ok target, rest) => (.ok ⟨.Zero, id, command, target⟩, rest) := by
  have hheader := parse_request_header id 0
    ([command.as_u8] ++ u16_to_be_bytes port ++ [kind]) [] rest rfl rfl
  have hport : u16_from_be_bytes [UInt8.ofNat (port.toNat / 256), UInt8.ofNat (port.toNat % 256)] =
      port := u16_from_be_bytes_to_be_bytes port
  rw [List.append_nil] at hheader
  rw [hheader, fields_eq, run_read_fields, VlessCommand.try_from_as_u8]
  simp only [hport]

theorem parse_request_to_bytes (req : VlessRequest) (payload : List UInt8)
    (hfits : req.target.Fits) :
    ∃ got, parse_request (req.to_bytes ++ payload) = (.ok got, payload) ∧ got.Agrees req := by
  obtain ⟨⟨⟩, id, command, target⟩ := req
  rcases target with (⟨ip, port⟩ | ⟨ip, port, flowinfo, scope_id⟩) | ⟨domain, port⟩
  · refine ⟨⟨.Zero, id, command, .SocketAddr (.V4 ip port)⟩, ?_, rfl, rfl, rfl, rfl⟩
    have h := parse_request_no_addons id command port 1 (ip.octets.bytes ++ payload)
    rw [parse_target_ipv4] at h
    simpa [VlessRequest.to_bytes, VlessVersion.as_u8] using h
  · refine ⟨⟨.Zero, id, command, .SocketAddr (.V6 ip port 0 0)⟩, ?_, rfl, rfl, rfl, rfl, rfl⟩
    have h := parse_request_no_addons id command port 3 (ip.octets.bytes ++ payload)
    rw [parse_target_ipv6] at h
    simpa [VlessRequest.to_bytes, VlessVersion.as_u8] using h
  · have hlen : (as_bytes domain).length ≤ 255 := hfits domain port rfl
    refine ⟨⟨.Zero, id, command, .Domain domain port⟩, ?_, rfl, rfl, rfl, rfl⟩
    have h := parse_request_no_addons id command port 2
      ([UInt8.ofNat (as_bytes domain).length] ++ as_bytes domain ++ payload)
    rw [parse_target_domain _ _ _ _ (by rw [UInt8.toNat_ofNat', Nat.mod_eq_of_lt (by omega)]),
      from_utf8_lossy_as_bytes] at h
    simpa [VlessRequest.to_bytes, VlessVersion.as_u8] using h

-- The end of a name that is too long is left in front of the payload.
theorem parse_request_long_domain (version : VlessVersion) (id : Uuid) (command : VlessCommand)
    (domain : String) (port : UInt16) (payload : List UInt8) :
    (parse_request (VlessRequest.to_bytes ⟨version, id, command, .Domain domain port⟩ ++
        payload)).2 =
      (as_bytes domain).drop ((as_bytes domain).length % 256) ++ payload := by
  cases version
  generalize hbytes : as_bytes domain = bytes
  have h := parse_request_no_addons id command port 2
    ([UInt8.ofNat bytes.length] ++ bytes.take (bytes.length % 256) ++
      (bytes.drop (bytes.length % 256) ++ payload))
  rw [parse_target_domain _ _ _ _ (by
    rw [UInt8.toNat_ofNat', List.length_take]
    omega)] at h
  have hsplit : VlessRequest.to_bytes ⟨.Zero, id, command, .Domain domain port⟩ ++ payload =
      [0] ++ id.bytes ++ [0] ++ ([command.as_u8] ++ u16_to_be_bytes port ++ [2]) ++
        ([UInt8.ofNat bytes.length] ++ bytes.take (bytes.length % 256) ++
          (bytes.drop (bytes.length % 256) ++ payload)) := by
    have hjoin : bytes.take (bytes.length % 256) ++
        (bytes.drop (bytes.length % 256) ++ payload) = bytes ++ payload := by
      rw [← List.append_assoc, List.take_append_drop]
    simp [VlessRequest.to_bytes, VlessVersion.as_u8, hbytes, hjoin]
  rw [hsplit, h]

-- `accept` on a channel that has exactly these bytes to read.
theorem accept_channel (bytes : List UInt8) (turns : List (Option Nat)) :
    ∃ after : Channel, VlessProtocol.accept.Returns ⟨bytes, [], turns⟩ (parse_request bytes).1
      after ∧ after.unread = (parse_request bytes).2 := by
  obtain ⟨after, hreturns, hpipe⟩ :=
    VlessProtocol.accept_returns (⟨bytes, [], turns⟩ : Channel)
  exact ⟨after, hreturns, congrArg Pipe.unread hpipe⟩

theorem accept_channel_eq {bytes : List UInt8} {turns : List (Option Nat)}
    {result : Except (Fault VlessError) VlessRequest} {after : Channel}
    (h : VlessProtocol.accept.Returns ⟨bytes, [], turns⟩ result after) :
    result = (parse_request bytes).1 ∧ after.unread = (parse_request bytes).2 := by
  obtain ⟨after', hreturns, hunread⟩ := accept_channel bytes turns
  obtain ⟨rfl, rfl⟩ := h.unique hreturns
  exact ⟨rfl, hunread⟩

-- Either nothing is sent, or the server makes the same request of what was sent,
-- however it is fragmented on the way, and leaves exactly the payload behind it.
def RoundTrips (req : VlessRequest) (payload : List UInt8) (client : VlessStream Channel)
    (turns : List (Option Nat)) : Prop :=
  (∃ e after, (VlessStream.connect req).Returns client (.error e) after ∧
    after.inner.written = client.inner.written) ∨
  ∃ after sent, (VlessStream.connect req).Returns client (.ok ()) after ∧
    after.inner.written = client.inner.written ++ sent ∧
    ∃ got server, VlessProtocol.accept.Returns (⟨sent ++ payload, [], turns⟩ : Channel) (.ok got)
        server ∧
      got.Agrees req ∧ server.unread = payload

theorem connect_channel (req : VlessRequest) (client : VlessStream Channel) :
    ∃ after, (VlessStream.connect req).Returns client (.ok ()) after ∧
      after.inner.written = client.inner.written ++ req.to_bytes := by
  obtain ⟨after, hconnect, hpipe⟩ := VlessStream.connect_returns client req
  exact ⟨after, hconnect, congrArg Pipe.written hpipe⟩

theorem fits_of_roundTrips {req : VlessRequest} {payload : List UInt8}
    {client : VlessStream Channel} {turns : List (Option Nat)}
    (h : RoundTrips req payload client turns) : req.target.Fits := by
  obtain ⟨after, hconnect, hwritten⟩ := connect_channel req client
  rcases h with ⟨e, after', herror, _⟩ | ⟨after', sent, hok, hsent, got, server, haccept, _, hunread⟩
  · cases (herror.unique hconnect).1
  · intro domain port htarget
    obtain rfl := (hok.unique hconnect).2
    obtain rfl : sent = req.to_bytes := List.append_cancel_left (hsent.symm.trans hwritten)
    obtain ⟨version, id, command, target⟩ := req
    obtain rfl : target = .Domain domain port := htarget
    have hrest := (accept_channel_eq haccept).2
    rw [hunread, parse_request_long_domain] at hrest
    -- what the parser leaves of the name would have to be empty
    have hlen := congrArg List.length hrest
    rw [List.length_append, List.length_drop] at hlen
    omega

theorem roundTrips_of_fits (req : VlessRequest) (payload : List UInt8)
    (client : VlessStream Channel) (turns : List (Option Nat)) (hfits : req.target.Fits) :
    RoundTrips req payload client turns := by
  obtain ⟨after, hconnect, hwritten⟩ := connect_channel req client
  obtain ⟨got, hparse, hagrees⟩ := parse_request_to_bytes req payload hfits
  obtain ⟨server, haccept, hunread⟩ := accept_channel (req.to_bytes ++ payload) turns
  rw [hparse] at haccept hunread
  exact .inr ⟨after, req.to_bytes, hconnect, hwritten, got, server, haccept, hagrees, hunread⟩

-- A request survives the way to the server exactly when its target fits.
theorem vless_round_trip_iff (req : VlessRequest) (payload : List UInt8)
    (client : VlessStream Channel) (turns : List (Option Nat)) :
    RoundTrips req payload client turns ↔ req.target.Fits :=
  ⟨fits_of_roundTrips, roundTrips_of_fits req payload client turns⟩

theorem length_as_bytes_letters (n : Nat) :
    (as_bytes (String.ofList (List.replicate n 'a'))).length = n := by
  rw [as_bytes_eq_encode, String.toList_ofList]
  have hletter : 'a'.utf8Size = 1 := rfl
  simp [Utf8.encode, hletter]

-- A name of 256 letters: its length is sent as zero, and the server takes the whole
-- name for the beginning of what is tunnelled.
theorem vless_round_trip_long_name :
    ¬ RoundTrips ⟨.Zero, ⟨⟨List.replicate 16 7, rfl⟩⟩, .Tcp,
        .Domain (String.ofList (List.replicate 256 'a')) 443⟩ [] (.new ⟨[], [], []⟩) [] := by
  intro h
  have hlen := fits_of_roundTrips h _ _ rfl
  rw [length_as_bytes_letters] at hlen
  omega

end RoundTrip

section Addons

-- An address as it is laid out, behind its kind.
inductive RawAddr where
  | ipv4 (ip : Ipv4Addr)
  | domain (name : List UInt8) (h : name.length ≤ 255)
  | ipv6 (ip : Ipv6Addr)

namespace RawAddr

def kind : RawAddr → UInt8
  | ipv4 _ => 1
  | domain _ _ => 2
  | ipv6 _ => 3

def to_bytes : RawAddr → List UInt8
  | ipv4 ip => ip.octets.bytes
  | domain name _ => [UInt8.ofNat name.length] ++ name
  | ipv6 ip => ip.octets.bytes

def target (addr : RawAddr) (port : UInt16) : TargetAddr :=
  match addr with
  | ipv4 ip => .SocketAddr (.V4 ip port)
  | domain name _ => .Domain (from_utf8_lossy name) port
  | ipv6 ip => .SocketAddr (.V6 ip port 0 0)

theorem kind_target (addr : RawAddr) (port : UInt16) : (addr.target port).kind = addr.kind := by
  cases addr <;> rfl

theorem port_target (addr : RawAddr) (port : UInt16) : (addr.target port).port = port := by
  cases addr <;> rfl

theorem parse_target_to_bytes (addr : RawAddr) (port : UInt16) (rest : List UInt8) :
    parse_target addr.kind port (addr.to_bytes ++ rest) = (.ok (addr.target port), rest) := by
  cases addr with
  | ipv4 ip => exact parse_target_ipv4 ip port rest
  | domain name h =>
      exact parse_target_domain _ name rest port
        (by rw [UInt8.toNat_ofNat', Nat.mod_eq_of_lt (by omega)])
  | ipv6 ip => exact parse_target_ipv6 ip port rest

end RawAddr

-- What stands behind the addons and in front of the address.
def request_fields (command : VlessCommand) (port : UInt16) (kind : UInt8) : List UInt8 :=
  [command.as_u8] ++ u16_to_be_bytes port ++ [kind]

def request_bytes (id : Uuid) (addons : List UInt8) (command : VlessCommand) (port : UInt16)
    (addr : RawAddr) : List UInt8 :=
  [VlessVersion.Zero.as_u8] ++ id.bytes ++ [UInt8.ofNat addons.length] ++ addons ++
    request_fields command port addr.kind ++ addr.to_bytes

-- With the addons in place the server makes the same request as without them, and
-- leaves exactly the payload, however the two streams are fragmented.
def SkipsAddons (id : Uuid) (addons : List UInt8) (command : VlessCommand) (port : UInt16)
    (addr : RawAddr) (payload : List UInt8) (turns turns' : List (Option Nat)) : Prop :=
  ∃ (req : VlessRequest) (after after' : Channel),
    VlessProtocol.accept.Returns ⟨request_bytes id [] command port addr ++ payload, [], turns⟩
      (.ok req) after ∧
    VlessProtocol.accept.Returns ⟨request_bytes id addons command port addr ++ payload, [], turns'⟩
      (.ok req) after' ∧
    after'.unread = payload

-- The parser takes the fields from the four bytes behind the length of the addons,
-- and the address from where it is.
theorem parse_request_bytes (id : Uuid) (addons : List UInt8) (command : VlessCommand)
    (port : UInt16) (addr : RawAddr) (payload : List UInt8) (haddons : addons.length ≤ 255) :
    parse_request (request_bytes id addons command port addr ++ payload) =
      Parser.run (read_fields .Zero id
        ((addons ++ request_fields command port addr.kind).take 4)) (addr.to_bytes ++ payload) := by
  have hlen : (addons ++ request_fields command port addr.kind).length = addons.length + 4 := by
    simp [request_fields]
  have hsplit : request_bytes id addons command port addr ++ payload =
      [0] ++ id.bytes ++ [UInt8.ofNat addons.length] ++
        (addons ++ request_fields command port addr.kind).take 4 ++
        (addons ++ request_fields command port addr.kind).drop 4 ++ (addr.to_bytes ++ payload) := by
    rw [List.append_assoc _ (List.take _ _), List.take_append_drop]
    simp [request_bytes, VlessVersion.as_u8]
  rw [hsplit]
  refine parse_request_header id _ _ _ _ ?_ ?_
  · rw [List.length_take]
    omega
  · rw [List.length_drop, hlen, UInt8.toNat_ofNat', Nat.mod_eq_of_lt (by omega)]
    omega

-- From the right four bytes the right request is made.
theorem run_read_fields_request_fields (id : Uuid) (command : VlessCommand) (port : UInt16)
    (addr : RawAddr) (payload : List UInt8) :
    (read_fields .Zero id (request_fields command port addr.kind) : VlessParser VlessRequest).run
        (addr.to_bytes ++ payload) =
      (.ok ⟨.Zero, id, command, addr.target port⟩, payload) := by
  have hport : u16_from_be_bytes [UInt8.ofNat (port.toNat / 256), UInt8.ofNat (port.toNat % 256)] =
      port := u16_from_be_bytes_to_be_bytes port
  rw [request_fields, fields_eq, run_read_fields, VlessCommand.try_from_as_u8]
  simp only [hport, RawAddr.parse_target_to_bytes]

-- From any other four bytes another request is made, or none.
theorem eq_request_fields_of_run (id : Uuid) (command : VlessCommand) (port : UInt16)
    (addr : RawAddr) (fields input rest : List UInt8) (hlen : fields.length = 4)
    (h : (read_fields .Zero id fields : VlessParser VlessRequest).run input =
      (.ok ⟨.Zero, id, command, addr.target port⟩, rest)) :
    fields = request_fields command port addr.kind := by
  obtain ⟨x, high, low, kind, rfl⟩ : ∃ x high low kind, fields = [x, high, low, kind] := by
    match fields, hlen with
    | [x, high, low, kind], _ => exact ⟨x, high, low, kind, rfl⟩
  rw [run_read_fields] at h
  split at h
  · cases h
  · rename_i command' hcommand
    split at h
    · cases h
    · rename_i target _ htarget
      obtain ⟨hkind, hport⟩ := of_parse_target htarget
      cases h
      rw [RawAddr.kind_target] at hkind
      rw [RawAddr.port_target] at hport
      rw [request_fields, hport, u16_to_be_bytes_from_be_bytes, hkind,
        VlessCommand.eq_as_u8_of_try_from hcommand]
      rfl

theorem parse_request_bytes_nil (id : Uuid) (command : VlessCommand) (port : UInt16)
    (addr : RawAddr) (payload : List UInt8) :
    parse_request (request_bytes id [] command port addr ++ payload) =
      (.ok ⟨.Zero, id, command, addr.target port⟩, payload) := by
  have hfields : ([] ++ request_fields command port addr.kind).take 4 =
      request_fields command port addr.kind := rfl
  rw [parse_request_bytes id [] command port addr payload (Nat.zero_le _), hfields,
    run_read_fields_request_fields]

theorem fields_of_skipsAddons {id : Uuid} {addons : List UInt8} {command : VlessCommand}
    {port : UInt16} {addr : RawAddr} {payload : List UInt8} {turns turns' : List (Option Nat)}
    (haddons : addons.length ≤ 255)
    (h : SkipsAddons id addons command port addr payload turns turns') :
    (addons ++ request_fields command port addr.kind).take 4 =
      request_fields command port addr.kind := by
  obtain ⟨req, after, after', hplain, haccept, _⟩ := h
  have hreq := (accept_channel_eq hplain).1
  have hgot := (accept_channel_eq haccept).1
  rw [parse_request_bytes_nil] at hreq
  rw [parse_request_bytes id addons command port addr payload haddons] at hgot
  obtain rfl := Except.ok.inj hreq
  exact eq_request_fields_of_run id command port addr _ _ _ (by simp [request_fields])
    (Prod.ext hgot.symm rfl)

theorem skipsAddons_of_fields (id : Uuid) (addons : List UInt8) (command : VlessCommand)
    (port : UInt16) (addr : RawAddr) (payload : List UInt8) (turns turns' : List (Option Nat))
    (haddons : addons.length ≤ 255)
    (hfields : (addons ++ request_fields command port addr.kind).take 4 =
      request_fields command port addr.kind) :
    SkipsAddons id addons command port addr payload turns turns' := by
  have hparse := parse_request_bytes id addons command port addr payload haddons
  rw [hfields, run_read_fields_request_fields] at hparse
  obtain ⟨after, haccept, _⟩ :=
    accept_channel (request_bytes id [] command port addr ++ payload) turns
  obtain ⟨after', haccept', hunread⟩ :=
    accept_channel (request_bytes id addons command port addr ++ payload) turns'
  rw [parse_request_bytes_nil] at haccept
  rw [hparse] at haccept' hunread
  exact ⟨_, after, after', haccept, haccept', hunread⟩

-- Addons are skipped exactly when their beginning looks like the fields behind them.
theorem vless_addons_iff (id : Uuid) (addons : List UInt8) (command : VlessCommand)
    (port : UInt16) (addr : RawAddr) (payload : List UInt8) (turns turns' : List (Option Nat))
    (haddons : addons.length ≤ 255) :
    SkipsAddons id addons command port addr payload turns turns' ↔
      (addons ++ request_fields command port addr.kind).take 4 =
        request_fields command port addr.kind :=
  ⟨fields_of_skipsAddons haddons,
    skipsAddons_of_fields id addons command port addr payload turns turns' haddons⟩

-- One byte of addons: the server takes it for the command.
theorem vless_addons_one_byte :
    ¬ SkipsAddons ⟨⟨List.replicate 16 7, rfl⟩⟩ [0] .Tcp 443
      (.ipv4 ⟨⟨[127, 0, 0, 1], rfl⟩⟩) [] [] [] := by
  intro h
  have hfields := fields_of_skipsAddons (by decide) h
  revert hfields
  decide

-- Addons that begin with the fields themselves.
theorem vless_addons_repeated :
    SkipsAddons ⟨⟨List.replicate 16 7, rfl⟩⟩ [1, 1, 187, 1, 9] .Tcp 443
      (.ipv4 ⟨⟨[127, 0, 0, 1], rfl⟩⟩) [] [] [] :=
  (vless_addons_iff _ _ _ _ _ _ _ _ (by decide)).mpr (by decide)

end Addons

end AlphaRay
