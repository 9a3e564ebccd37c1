import AlphaRay.Util.ByteStream

namespace AlphaRay

open Lib ByteStream

-- `remaining_mut` goes down by what is put in, and by nothing else.
class BufMutLaws (B : Type) [BufMut B] : Prop where
  remaining_mut_chunk_mut : ∀ buf : B,
    BufMut.remaining_mut (BufMut.chunk_mut buf).2 = BufMut.remaining_mut buf
  le_remaining_mut_advance_mut : ∀ (buf : B) filled,
    BufMut.remaining_mut buf ≤ BufMut.remaining_mut (BufMut.advance_mut buf filled) + filled.length

instance : BufMutLaws BytesMut where
  remaining_mut_chunk_mut buf := by
    simp only [BufMut.remaining_mut, BytesMut.remaining_mut]
    exact congrArg (usize_MAX - ·.length) (BufMut.bytes_chunk_mut buf)
  le_remaining_mut_advance_mut buf filled := by
    simp only [BufMut.remaining_mut, BytesMut.remaining_mut, BufMut.advance_mut,
      BytesMut.advance_mut, List.length_append]
    omega

section Offered

variable {B : Type} [BufMut B]

-- The room that the buffer offers when it is asked once more after `k` reads that had to wait.
def offered (buf : B) : Nat → Nat × B
  | 0 => BufMut.chunk_mut buf
  | k + 1 => offered (BufMut.chunk_mut buf).2 k

theorem remaining_mut_offered [BufMutLaws B] (buf : B) (k : Nat) :
    BufMut.remaining_mut (offered buf k).2 = BufMut.remaining_mut buf := by
  induction k generalizing buf with
  | zero => exact BufMutLaws.remaining_mut_chunk_mut buf
  | succ k ih => exact (ih _).trans (BufMutLaws.remaining_mut_chunk_mut buf)

-- At some moment the buffer offers more room than is missing.
inductive Roomy : B → Nat → Prop
  | now {buf : B} {missing : Nat} (k : Nat) : 0 < missing → missing < (offered buf k).1 →
      Roomy buf missing
  | later {buf : B} {missing : Nat} (k : Nat) (filled : List UInt8) : filled ≠ [] →
      filled.length ≤ (offered buf k).1 → filled.length ≤ missing →
      Roomy (BufMut.advance_mut (offered buf k).2 filled) (missing - filled.length) →
      Roomy buf missing

end Offered

theorem offered_of_lt (buf : BytesMut) (h : buf.bytes.length < buf.capacity) (k : Nat) :
    offered buf k = (buf.capacity - buf.bytes.length, buf) := by
  have hchunk : BufMut.chunk_mut buf = (buf.capacity - buf.bytes.length, buf) :=
    buf.chunk_mut_of_lt h
  induction k with
  | zero => exact hchunk
  | succ k ih => rw [offered, hchunk, ih]

-- Room for exactly what is missing stays so.
theorem not_roomy_of_capacity {buf : BytesMut} {missing : Nat}
    (h : buf.bytes.length + missing = buf.capacity) : ¬ Roomy buf missing := by
  intro hroomy
  induction hroomy with
  | @now buf missing k hpos hlt =>
      rw [offered_of_lt buf (by omega)] at hlt
      dsimp only at hlt
      omega
  | @later buf missing k filled hne hroom hle _ ih =>
      have hpos := List.length_pos_of_ne_nil hne
      refine ih ?_
      rw [offered_of_lt buf (by omega)]
      simp only [BufMut.advance_mut, BytesMut.advance_mut, List.length_append]
      omega

section Reads

variable {S B : Type} [AsyncStream S] [ByteStream S] [BufMut B]

-- What a read takes from the stream is put behind what the buffer holds.
structure Takes (io : S) (buf : B) (filled : List UInt8) (after : S) (buf' : B) : Prop where
  returns : read_buf.Returns (io, buf) (.ok filled.length) (after, buf')
  pipe_eq : pipe io = ⟨filled ++ (pipe after).unread, (pipe after).written⟩
  bytes_eq : BufMut.bytes buf' = BufMut.bytes buf ++ filled
  ne_nil : (pipe io).unread ≠ [] → filled ≠ []
  offered : ∃ k, filled.length ≤ (offered buf k).1 ∧
    buf' = BufMut.advance_mut (AlphaRay.offered buf k).2 filled

theorem read_buf_takes [BufMutLaws B] (io : S) (buf : B) (hroom : 0 < BufMut.remaining_mut buf) :
    ∃ filled after buf', Takes io buf filled after buf' := by
  induction hpatience : patience io using Nat.strong_induction_on generalizing io buf with
  | _ p ih =>
      rcases hcall : AsyncStream.poll_read io (BufMut.chunk_mut buf).1 with ⟨reply | _, mid⟩
      · obtain ⟨filled, rfl, hpipe, hne⟩ := poll_read_ready io _ reply mid hcall
        have hpoll : poll_read_buf (io, buf) = (some (.ok filled.length), mid,
            BufMut.advance_mut (BufMut.chunk_mut buf).2 filled) := by
          simp only [poll_read_buf, Nat.ne_of_gt hroom, if_false, hcall]
        refine ⟨filled, mid, _, .wait_ready hpoll, hpipe, ?_, hne ?_, 0, ?_, rfl⟩
        · rw [BufMut.bytes_advance_mut, BufMut.bytes_chunk_mut]
        · exact BufMut.chunk_mut_pos buf hroom
        · exact AsyncStream.length_le_of_poll_read io _ filled (congrArg Prod.fst hcall)
      · obtain ⟨hpipe, hlt⟩ := poll_read_pending io _ mid hcall
        have hpoll : poll_read_buf (io, buf) = (none, mid, (BufMut.chunk_mut buf).2) := by
          simp only [poll_read_buf, Nat.ne_of_gt hroom, if_false, hcall]
        obtain ⟨filled, after, buf', htakes⟩ := ih (patience mid) (by omega) mid
          (BufMut.chunk_mut buf).2 (by rwa [BufMutLaws.remaining_mut_chunk_mut]) rfl
        obtain ⟨k, hle, hbuf⟩ := htakes.offered
        refine ⟨filled, after, buf', .wait_again hpoll htakes.returns, ?_, ?_, ?_, k + 1, hle, hbuf⟩
        · rw [← hpipe, htakes.pipe_eq]
        · rw [htakes.bytes_eq, BufMut.bytes_chunk_mut]
        · rw [← hpipe]
          exact htakes.ne_nil

variable {io after : S} {buf buf' : B} {filled : List UInt8}

theorem Takes.remaining_mut_le [BufMutLaws B] (h : Takes io buf filled after buf') :
    BufMut.remaining_mut buf ≤ BufMut.remaining_mut buf' + filled.length := by
  obtain ⟨k, -, rfl⟩ := h.offered
  rw [← remaining_mut_offered buf k]
  exact BufMutLaws.le_remaining_mut_advance_mut _ _

-- A read is the only one that its stream and its buffer allow.
theorem takes_of_returns [BufMutLaws B] {result : IoResult Nat} {last : S × B}
    (hroom : 0 < BufMut.remaining_mut buf) (h : read_buf.Returns (io, buf) result last) :
    ∃ filled, result = .ok filled.length ∧ Takes io buf filled last.1 last.2 := by
  obtain ⟨filled, after, buf', htakes⟩ := read_buf_takes io buf hroom
  obtain ⟨rfl, rfl⟩ := h.unique htakes.returns
  exact ⟨filled, rfl, htakes⟩

-- A round of the loop, while something is missing.
theorem Takes.round (h : Takes io buf filled after buf') (needed_len total_n : Nat)
    (hmissing : total_n < needed_len) :
    (read_more needed_len total_n).Returns (io, buf)
      (if filled = [] then .error ErrorKind.UnexpectedEof.into
        else .ok (.again (total_n + filled.length))) (after, buf') := by
  simp only [read_more, hmissing, if_true]
  refine h.returns.bind ?_
  by_cases hempty : filled = []
  · simp only [hempty, List.length_nil, if_true]
    exact .throw _ _
  · have hlen : filled.length ≠ 0 := by simpa using hempty
    simp only [hempty, hlen, if_false]
    exact .pure _ _

omit [ByteStream S] in
theorem read_more_leaves {needed_len total_n : Nat} (hfull : needed_len ≤ total_n) (st : S × B) :
    (read_more needed_len total_n).Returns st (.ok (.leave ())) st := by
  simp only [read_more, Nat.not_lt.mpr hfull, if_false]
  exact .pure _ _

-- Some read of the loop takes more than is missing.
inductive Overreads : S × B → Nat → Prop
  | now {st after : S × B} {missing n : Nat} : 0 < missing → read_buf.Returns st (.ok n) after →
      missing < n → Overreads st missing
  | later {st after : S × B} {missing n : Nat} : read_buf.Returns st (.ok n) after → 0 < n →
      n ≤ missing → Overreads after (missing - n) → Overreads st missing

-- The bytes that are needed are taken and appended, and nothing else; where there are not
-- enough, the stream is read to its end and that is reported.
def ReadsExactly (io : S) (buf : B) (needed_len : Nat) : Prop :=
  ∃ result after buf', (read_buf_exact needed_len).Returns (io, buf) result (after, buf') ∧
    (needed_len ≤ (pipe io).unread.length → result = .ok () ∧
      BufMut.bytes buf' = BufMut.bytes buf ++ (pipe io).unread.take needed_len ∧
      pipe after = ⟨(pipe io).unread.drop needed_len, (pipe io).written⟩) ∧
    ((pipe io).unread.length < needed_len → result = .error ErrorKind.UnexpectedEof.into ∧
      pipe after = ⟨[], (pipe io).written⟩)

theorem rounds_of_short [BufMutLaws B] (needed_len total_n : Nat) (io : S) (buf : B)
    (hroom : needed_len - total_n ≤ BufMut.remaining_mut buf)
    (hshort : (pipe io).unread.length < needed_len - total_n) :
    ∃ after, Async.Rounds (read_more needed_len) total_n (io, buf)
        (.error ErrorKind.UnexpectedEof.into) after ∧
      pipe after.1 = ⟨[], (pipe io).written⟩ := by
  induction hmissing : needed_len - total_n using Nat.strong_induction_on
    generalizing io buf total_n with
  | _ missing ih =>
      obtain ⟨filled, mid, buf', htakes⟩ := read_buf_takes io buf (by omega)
      have hround := htakes.round needed_len total_n (by omega)
      have hremaining := htakes.remaining_mut_le
      have hlen := congrArg (·.unread.length) htakes.pipe_eq
      have hwritten := congrArg Pipe.written htakes.pipe_eq
      simp only [List.length_append] at hlen hwritten
      by_cases hempty : filled = []
      · rw [if_pos hempty] at hround
        have hunread : (pipe io).unread = [] := by
          by_contra hmore
          exact htakes.ne_nil hmore hempty
        rw [htakes.pipe_eq, hempty, List.nil_append] at hunread
        refine ⟨_, .error hround, ?_⟩
        rw [hwritten, ← hunread]
      · rw [if_neg hempty] at hround
        have hpos := List.length_pos_of_ne_nil hempty
        obtain ⟨after, hrest, hpipe⟩ := ih (needed_len - (total_n + filled.length)) (by omega)
          (total_n + filled.length) mid buf' (by omega) (by omega) rfl
        exact ⟨after, .again hround hrest, by rw [hpipe, hwritten]⟩

theorem rounds_of_not_overreads [BufMutLaws B] (needed_len total_n : Nat) (io : S) (buf : B)
    (hroom : needed_len - total_n ≤ BufMut.remaining_mut buf)
    (hlen : needed_len - total_n ≤ (pipe io).unread.length)
    (hno : ¬ Overreads (io, buf) (needed_len - total_n)) :
    ∃ after buf', Async.Rounds (read_more needed_len) total_n (io, buf) (.ok ()) (after, buf') ∧
      BufMut.bytes buf' = BufMut.bytes buf ++ (pipe io).unread.take (needed_len - total_n) ∧
      pipe after = ⟨(pipe io).unread.drop (needed_len - total_n), (pipe io).written⟩ := by
  induction hmissing : needed_len - total_n using Nat.strong_induction_on
    generalizing io buf total_n with
  | _ missing ih =>
      by_cases hfull : missing = 0
      · refine ⟨io, buf, .leave (read_more_leaves (by omega) _), ?_, ?_⟩
        · simp [hfull]
        · simp [hfull]
      · obtain ⟨filled, mid, buf', htakes⟩ := read_buf_takes io buf (by omega)
        have hround := htakes.round needed_len total_n (by omega)
        have hremaining := htakes.remaining_mut_le
        have hunread := congrArg Pipe.unread htakes.pipe_eq
        have hwritten := congrArg Pipe.written htakes.pipe_eq
        simp only at hunread hwritten
        have hne : filled ≠ [] := htakes.ne_nil (List.ne_nil_of_length_pos (by omega))
        have hpos := List.length_pos_of_ne_nil hne
        rw [if_neg hne] at hround
        have hfits : filled.length ≤ missing := by
          by_contra hmore
          exact hno (.now (by omega) htakes.returns (by omega))
        have hstep : missing - filled.length = needed_len - (total_n + filled.length) := by omega
        obtain ⟨after, last, hrest, hbytes, hpipe⟩ := ih (missing - filled.length) (by omega)
          (total_n + filled.length) mid buf' (by omega)
          (by
            rw [hunread, List.length_append] at hlen
            omega)
          (fun hover => hno (.later htakes.returns hpos (by omega)
            (by rwa [hmissing, hstep]))) hstep.symm
        refine ⟨after, last, .again hround hrest, ?_, ?_⟩
        · rw [hbytes, htakes.bytes_eq, hunread, List.take_append, List.take_of_length_le hfits,
            List.append_assoc]
        · rw [hpipe, hunread, hwritten, List.drop_append, List.drop_of_length_le hfits,
            List.nil_append]

-- Where a read takes too much, the loop ends all the same, with too little left behind it.
theorem rounds_of_overreads [BufMutLaws B] (needed_len total_n : Nat) {missing : Nat} {st : S × B}
    (hover : Overreads st missing) (hroom : missing ≤ BufMut.remaining_mut st.2)
    (hmissing : needed_len = total_n + missing) :
    ∃ after, Async.Rounds (read_more needed_len) total_n st (.ok ()) after ∧
      (pipe after.1).unread.length + missing < (pipe st.1).unread.length := by
  induction hover generalizing total_n with
  | @now st after missing n hpos hread hlt =>
      obtain ⟨filled, hn, htakes⟩ := takes_of_returns (by omega) hread
      obtain rfl := Except.ok.inj hn
      have hround := htakes.round needed_len total_n (by omega)
      rw [if_neg (List.ne_nil_of_length_pos (by omega))] at hround
      refine ⟨after, .again hround (.leave (read_more_leaves (by omega) _)), ?_⟩
      rw [htakes.pipe_eq, List.length_append]
      omega
  | @later st mid missing n hread hpos hle _ ih =>
      obtain ⟨filled, hn, htakes⟩ := takes_of_returns (by omega) hread
      obtain rfl := Except.ok.inj hn
      have hround := htakes.round needed_len total_n (by omega)
      have hremaining := htakes.remaining_mut_le
      rw [if_neg (List.ne_nil_of_length_pos hpos)] at hround
      obtain ⟨after, hrest, hlen⟩ := ih (total_n + filled.length) (by omega) (by omega)
      refine ⟨after, .again hround hrest, ?_⟩
      rw [htakes.pipe_eq, List.length_append]
      omega

omit [ByteStream S] in
theorem read_buf_exact_of_rounds {needed_len : Nat} {st after : S × B} {result : IoResult Unit}
    (hroom : needed_len ≤ BufMut.remaining_mut st.2)
    (h : Async.Rounds (read_more needed_len) 0 st result after) :
    (read_buf_exact needed_len).Returns st result after := by
  refine (Async.Returns.peek _).bind ?_
  simp only [Nat.not_lt.mpr hroom, if_false]
  exact h.returns

theorem readsExactly_iff [BufMutLaws B] {needed_len : Nat} (io : S) (buf : B)
    (hroom : needed_len ≤ BufMut.remaining_mut buf) :
    ReadsExactly io buf needed_len ↔ ¬ Overreads (io, buf) needed_len := by
  constructor
  · rintro ⟨result, after, buf', hreturns, henough, -⟩ hover
    obtain ⟨last, hrounds, hlen⟩ := rounds_of_overreads needed_len 0 hover hroom
      (Nat.zero_add _).symm
    obtain ⟨-, hlast⟩ := (read_buf_exact_of_rounds hroom hrounds).unique hreturns
    obtain ⟨-, -, hpipe⟩ := henough (by dsimp only at hlen; omega)
    rw [hlast, hpipe, List.length_drop] at hlen
    dsimp only at hlen
    omega
  · intro hno
    by_cases hlen : needed_len ≤ (pipe io).unread.length
    · obtain ⟨after, buf', hrounds, hbytes, hpipe⟩ :=
        rounds_of_not_overreads needed_len 0 io buf hroom hlen hno
      exact ⟨_, after, buf', read_buf_exact_of_rounds hroom hrounds,
        fun _ => ⟨rfl, hbytes, hpipe⟩, fun hshort => absurd hlen (by omega)⟩
    · obtain ⟨⟨after, buf'⟩, hrounds, hpipe⟩ := rounds_of_short needed_len 0 io buf hroom
        (by rw [Nat.sub_zero]; omega)
      exact ⟨_, after, buf', read_buf_exact_of_rounds hroom hrounds,
        fun henough => absurd henough hlen, fun _ => ⟨rfl, hpipe⟩⟩

-- A read never takes more than the room that the buffer offers.
theorem roomy_of_overreads [BufMutLaws B] {missing : Nat} {st : S × B}
    (hover : Overreads st missing) (hroom : missing ≤ BufMut.remaining_mut st.2) :
    Roomy st.2 missing := by
  induction hover with
  | @now st after missing n hpos hread hlt =>
      obtain ⟨filled, hn, htakes⟩ := takes_of_returns (by omega) hread
      obtain rfl := Except.ok.inj hn
      obtain ⟨k, hle, -⟩ := htakes.offered
      exact .now k hpos (by omega)
  | @later st after missing n hread hpos hle _ ih =>
      obtain ⟨filled, hn, htakes⟩ := takes_of_returns (by omega) hread
      obtain rfl := Except.ok.inj hn
      have hremaining := htakes.remaining_mut_le
      obtain ⟨k, hfits, hbuf⟩ := htakes.offered
      rw [hbuf] at ih hremaining
      exact .later k filled (List.ne_nil_of_length_pos hpos) hfits hle (ih (by omega))

end Reads

section Channel

variable {B : Type} [BufMut B] [BufMutLaws B]

-- A channel that waits `k` times and then moves `n` bytes.
theorem read_buf_channel (k : Nat) {n : Nat} (buf : B) (unread written : List UInt8)
    (turns : List (Option Nat)) (hroom : 0 < BufMut.remaining_mut buf)
    (hoffered : n + 1 ≤ (offered buf k).1) (hlen : n + 1 ≤ unread.length) :
    read_buf.Returns ((⟨unread, written, List.replicate k none ++ some n :: turns⟩ : Channel), buf)
      (.ok (unread.take (n + 1)).length)
      (⟨unread.drop (n + 1), written, turns⟩,
        BufMut.advance_mut (offered buf k).2 (unread.take (n + 1))) := by
  induction k generalizing buf with
  | zero =>
      have hmin : min (min (BufMut.chunk_mut buf).1 unread.length) (n + 1) = n + 1 := by
        rw [offered] at hoffered
        omega
      refine .wait_ready ?_
      simp only [poll_read_buf, Nat.ne_of_gt hroom, if_false, AsyncStream.poll_read,
        Channel.poll_read, Channel.take_turn, List.replicate_zero, List.nil_append, hmin, offered]
  | succ k ih =>
      have hrest := ih (BufMut.chunk_mut buf).2
        (by rwa [BufMutLaws.remaining_mut_chunk_mut]) hoffered
      refine .wait_again ?_ hrest
      simp only [poll_read_buf, Nat.ne_of_gt hroom, if_false, AsyncStream.poll_read,
        Channel.poll_read, Channel.take_turn, List.replicate_succ, List.cons_append]

theorem overreads_of_roomy {buf : B} {missing : Nat} (hroomy : Roomy buf missing)
    (hroom : missing ≤ BufMut.remaining_mut buf) :
    ∃ unread turns, Overreads ((⟨unread, [], turns⟩ : Channel), buf) missing := by
  induction hroomy with
  | @now buf missing k hpos hlt =>
      have hread := read_buf_channel k (n := missing) buf (List.replicate (missing + 1) 0) [] []
        (by omega) hlt (by rw [List.length_replicate])
      rw [List.length_take, List.length_replicate, Nat.min_self] at hread
      exact ⟨_, _, .now hpos hread (Nat.lt_succ_self _)⟩
  | @later buf missing k filled hne hfits hle _ ih =>
      have hpos := List.length_pos_of_ne_nil hne
      obtain ⟨n, hn⟩ := Nat.exists_eq_add_one_of_ne_zero (Nat.ne_of_gt hpos)
      have hremaining := BufMutLaws.le_remaining_mut_advance_mut (offered buf k).2 filled
      rw [remaining_mut_offered] at hremaining
      obtain ⟨unread, turns, hover⟩ := ih (by omega)
      have hread := read_buf_channel k (n := n) buf (filled ++ unread) [] turns (by omega)
        (hn ▸ hfits) (by rw [List.length_append]; omega)
      rw [← hn, List.take_left, List.drop_left] at hread
      exact ⟨_, _, .later hread (by omega) hle hover⟩

end Channel

-- A stream is read exactly unless a read takes too much of it; and a buffer is one that lets
-- every stream be read exactly if it never offers more room than is missing.
theorem read_buf_exact_iff {B : Type} [BufMut B] [BufMutLaws B] (buf : B) (needed_len : Nat)
    (hroom : needed_len ≤ BufMut.remaining_mut buf) :
    (∀ (S : Type) [AsyncStream S] [ByteStream S] (io : S),
      ReadsExactly io buf needed_len ↔ ¬ Overreads (io, buf) needed_len) ∧
    ((∀ (S : Type) [AsyncStream S] [ByteStream S] (io : S), ReadsExactly io buf needed_len) ↔
      ¬ Roomy buf needed_len) := by
  constructor
  · exact fun S _ _ io => readsExactly_iff io buf hroom
  · constructor
    · intro hexact hroomy
      obtain ⟨unread, turns, hover⟩ := overreads_of_roomy hroomy hroom
      exact (readsExactly_iff _ buf hroom).mp (hexact Channel _) hover
    · intro hsnug S _ _ io
      exact (readsExactly_iff io buf hroom).mpr fun hover => hsnug (roomy_of_overreads hover hroom)

-- A buffer made for 22 bytes, as for the header of a request.
theorem read_buf_exact_with_capacity :
    ReadsExactly (⟨List.replicate 30 7, [], [some 5, none]⟩ : Channel)
      (BytesMut.with_capacity 22) 22 :=
  (read_buf_exact_iff (BytesMut.with_capacity 22) 22 (by decide)).2.mpr
    (not_roomy_of_capacity rfl) Channel _

-- Three bytes arrive at once, and a buffer with room for 64 takes the third one as well.
theorem read_buf_exact_takes_too_much :
    2 ≤ BufMut.remaining_mut (BytesMut.with_capacity 64) ∧
    (∃ after : Channel × BytesMut, (read_buf_exact 2).Returns
        ((⟨[1, 2, 3], [], [some 2]⟩ : Channel), BytesMut.with_capacity 64) (.ok ()) after ∧
      after.1.unread = [] ∧ after.2.bytes = [1, 2, 3]) ∧
    ¬ ReadsExactly (⟨[1, 2, 3], [], [some 2]⟩ : Channel) (BytesMut.with_capacity 64) 2 := by
  have hroom : 2 ≤ BufMut.remaining_mut (BytesMut.with_capacity 64) := by decide
  have hread := read_buf_channel 0 (n := 2) (BytesMut.with_capacity 64) [1, 2, 3] [] []
    (by decide) (by decide) (by decide)
  obtain ⟨filled, hn, htakes⟩ := takes_of_returns (by decide) hread
  obtain rfl : [1, 2, 3] = filled := htakes.bytes_eq
  have hround := htakes.round 2 0 (by decide)
  refine ⟨hroom, ⟨_, read_buf_exact_of_rounds hroom
    (.again hround (.leave (read_more_leaves (by decide) _))), rfl, rfl⟩, ?_⟩
  rw [readsExactly_iff _ _ hroom, not_not]
  exact .now (by decide) hread (by decide)

end AlphaRay
