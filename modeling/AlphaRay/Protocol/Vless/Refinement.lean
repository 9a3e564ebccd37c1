import AlphaRay.Lib.Parser
import AlphaRay.Protocol.Vless
import AlphaRay.Util.ReadBufExact

namespace AlphaRay

open Lib ByteStream

abbrev VlessParser := Parser UInt8 (Fault VlessError)

def VlessError.eof : Fault VlessError := .Failed (.Io ErrorKind.UnexpectedEof.into)

instance : ReadExact VlessParser where
  read_exact n := .take n VlessError.eof

-- What `accept` makes of bytes that are all there, and what it leaves of them.
def parse_request : List UInt8 → Except (Fault VlessError) VlessRequest × List UInt8 :=
  Parser.run read_request

def parse_target (kind : UInt8) (port : UInt16) :
    List UInt8 → Except (Fault VlessError) TargetAddr × List UInt8 :=
  Parser.run (read_target kind port)

section Refines

variable {S α β : Type} [AsyncStream S] [ByteStream S]

-- A computation that reads refines a parser: on every stream, however it is
-- fragmented, it gives the parser's result on the unread bytes and leaves what the
-- parser leaves. It writes nothing.
def Refines (m : Async S (Fault VlessError) α) (p : VlessParser α) : Prop :=
  ∀ io, ∃ after, m.Returns io (p.run (pipe io).unread).1 after ∧
    pipe after = ⟨(p.run (pipe io).unread).2, (pipe io).written⟩

theorem Refines.pure (a : α) :
    Refines (S := S) (Pure.pure a) (Pure.pure a) :=
  fun io => ⟨io, .pure a io, rfl⟩

theorem Refines.throw (e : Fault VlessError) :
    Refines (S := S) (MonadExcept.throw e : Async S (Fault VlessError) α) (MonadExcept.throw e) :=
  fun io => ⟨io, .throw e io, rfl⟩

theorem Refines.bind {m : Async S (Fault VlessError) α} {p : VlessParser α}
    {f : α → Async S (Fault VlessError) β} {g : α → VlessParser β}
    (h : Refines m p) (h' : ∀ a, Refines (f a) (g a)) : Refines (m >>= f) (p >>= g) := by
  intro io
  obtain ⟨mid, hreturns, hmid⟩ := h io
  rw [Parser.run_bind]
  rcases hrun : p.run (pipe io).unread with ⟨e | a, rest⟩
  · rw [hrun] at hreturns hmid
    exact ⟨mid, hreturns.bind_error, hmid⟩
  · rw [hrun] at hreturns hmid
    obtain ⟨after, hreturns', hafter⟩ := h' a mid
    rw [hmid] at hreturns' hafter
    exact ⟨after, hreturns.bind hreturns', hafter⟩

theorem Refines.checked (r : Except Panic α) :
    Refines (S := S) (AlphaRay.checked r) (AlphaRay.checked r) := by
  cases r with
  | ok a => exact .pure a
  | error panic => exact .throw _

theorem Refines.fallible (r : Except VlessError α) :
    Refines (S := S) (AlphaRay.fallible r) (AlphaRay.fallible r) := by
  cases r with
  | ok a => exact .pure a
  | error e => exact .throw _

-- A buffer with room for exactly `n` bytes never takes more than `n` bytes.
theorem Refines.read_exact (n : Nat) (hn : n ≤ usize_MAX) :
    Refines (S := S) (ReadExact.read_exact n) (ReadExact.read_exact n) := by
  intro io
  have hroom : n ≤ BufMut.remaining_mut (BytesMut.with_capacity n) := hn
  have hexact : ReadsExactly io (BytesMut.with_capacity n) n :=
    (readsExactly_iff io _ hroom).mpr fun hover =>
      not_roomy_of_capacity (Nat.zero_add n) (roomy_of_overreads hover hroom)
  obtain ⟨result, after, buf, hreturns, henough, hshort⟩ := hexact
  by_cases hlen : n ≤ (pipe io).unread.length
  · obtain ⟨rfl, hbytes, hpipe⟩ := henough hlen
    have hrun : (ReadExact.read_exact n : VlessParser _).run (pipe io).unread =
        (.ok ((pipe io).unread.take n), (pipe io).unread.drop n) := by
      simp [ReadExact.read_exact, Parser.take, Parser.run, hlen]
    have hvalue : buf.bytes = (pipe io).unread.take n := hbytes
    have hfill : (fill_buf n).Returns io (.ok buf.bytes) after :=
      hreturns.with_var.bind (.pure buf.bytes after)
    rw [hrun, ← hvalue]
    exact ⟨after, hfill.map_err _, hpipe⟩
  · obtain ⟨rfl, hpipe⟩ := hshort (by omega)
    have hrun : (ReadExact.read_exact n : VlessParser _).run (pipe io).unread =
        (.error VlessError.eof, []) :=
      Parser.run_take_of_lt _ _ _ (by omega)
    have hfill : (fill_buf n).Returns io (.error ErrorKind.UnexpectedEof.into) after :=
      hreturns.with_var.bind_error
    rw [hrun]
    exact ⟨after, hfill.map_err _, hpipe⟩

theorem Refines.read_target (kind : UInt8) (port : UInt16) :
    Refines (S := S) (AlphaRay.read_target kind port) (AlphaRay.read_target kind port) := by
  unfold AlphaRay.read_target
  split_ifs
  · exact (read_exact 4 (by decide)).bind fun _ => (checked _).bind fun _ => .pure _
  · refine (read_exact 1 (by decide)).bind fun _ => (checked _).bind fun ⟨len, _⟩ => ?_
    have hlen := len.toNat_lt
    exact (read_exact len.toNat (by unfold usize_MAX; omega)).bind fun _ => .pure _
  · exact (read_exact 16 (by decide)).bind fun _ => (checked _).bind fun _ => .pure _
  · exact .throw _

theorem Refines.read_fields (version : VlessVersion) (id : Uuid) (header : List UInt8) :
    Refines (S := S) (AlphaRay.read_fields version id header)
      (AlphaRay.read_fields version id header) :=
  (checked _).bind fun _ => (fallible _).bind fun _ => (checked _).bind fun _ =>
    (checked _).bind fun _ => (read_target _ _).bind fun _ => .pure _

theorem Refines.read_request :
    Refines (S := S) AlphaRay.read_request AlphaRay.read_request := by
  refine (read_exact 22 (by decide)).bind fun _ => (checked _).bind fun ⟨_, _⟩ =>
    (fallible _).bind fun _ => (checked _).bind fun ⟨_, _⟩ => (checked _).bind fun _ =>
    (checked _).bind fun ⟨addons_len, _⟩ => ?_
  have hlen := addons_len.toNat_lt
  dsimp only
  split_ifs
  · exact (read_exact addons_len.toNat (by unfold usize_MAX; omega)).bind fun _ => read_fields _ _ _
  · exact read_fields _ _ _

end Refines

section

variable {S : Type} [AsyncStream S] [ByteStream S]

theorem write_and_flush_returns (io : S) (bytes : List UInt8) :
    ∃ after, (write_and_flush bytes).Returns io (.ok ()) after ∧
      pipe after = ⟨(pipe io).unread, (pipe io).written ++ bytes⟩ := by
  obtain ⟨mid, hwrite, hmid⟩ := write_all_buf_returns io bytes
  obtain ⟨after, hflush, hafter⟩ := flush_returns mid
  have hboth : Async.Returns (do
      write_all_buf bytes
      flush) io (.ok () : IoResult Unit) after :=
    hwrite.bind hflush
  exact ⟨after, hboth.map_err _, hafter.trans hmid⟩

-- A connection is always made, and what was written is the request.
theorem VlessStream.connect_returns (st : VlessStream S) (req : VlessRequest) :
    ∃ after, (VlessStream.connect req).Returns st (.ok ()) after ∧
      pipe after.inner = ⟨(pipe st.inner).unread, (pipe st.inner).written ++ req.to_bytes⟩ := by
  obtain ⟨inner, hreturns, hpipe⟩ := write_and_flush_returns st.inner req.to_bytes
  exact ⟨_, hreturns.zoom, hpipe⟩

-- The outcome of `accept` is that of the parser on the unread bytes, and a response
-- is written when it is a request.
theorem VlessProtocol.accept_returns (io : S) :
    ∃ after, VlessProtocol.accept.Returns io (parse_request (pipe io).unread).1 after ∧
      pipe after = ⟨(parse_request (pipe io).unread).2, (pipe io).written ++
        match (parse_request (pipe io).unread).1 with
        | .ok _ => [0, 0]
        | .error _ => []⟩ := by
  obtain ⟨mid, hread, hmid⟩ := Refines.read_request io
  change Async.Returns _ io (parse_request (pipe io).unread).1 mid at hread
  change pipe mid = ⟨(parse_request (pipe io).unread).2, _⟩ at hmid
  rcases hparse : parse_request (pipe io).unread with ⟨e | req, rest⟩
  · rw [hparse] at hread hmid
    exact ⟨mid, hread.bind_error, by simpa using hmid⟩
  · rw [hparse] at hread hmid
    obtain ⟨after, hsend, hafter⟩ := write_and_flush_returns mid [0, 0]
    exact ⟨after, hread.bind (hsend.bind (.pure _ _)), by rw [hafter, hmid]⟩

end

end AlphaRay
