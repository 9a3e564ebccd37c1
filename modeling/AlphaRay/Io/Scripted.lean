import AlphaRay.Io

namespace AlphaRay

-- A stream that follows a script, in which an error is the code of the system.
-- Without a script it has nothing to read, takes everything that is written, and
-- flushes at once.
structure Scripted where
  reads : List (Poll (Except Nat (List UInt8)))
  writes : List (Poll (Except Nat Nat))
  deriving DecidableEq

namespace Scripted

-- A piece that does not fit stays in front of the script.
def poll_read (io : Scripted) (room : Nat) : Poll (IoResult (List UInt8)) × Scripted :=
  match io.reads with
  | [] => (.Pending, io)
  | .Pending :: rest => (.Pending, { io with reads := rest })
  | .Ready (.error code) :: rest => (.Ready (.error (ErrorKind.Os code).into), { io with
      reads := rest })
  | .Ready (.ok bytes) :: rest =>
      (.Ready (.ok (bytes.take room)), { io with
        reads := if bytes.length ≤ room then rest else .Ready (.ok (bytes.drop room)) :: rest })

def poll_write (io : Scripted) (bytes : List UInt8) : Poll (IoResult Nat) × Scripted :=
  match io.writes with
  | [] => (.Ready (.ok bytes.length), io)
  | .Pending :: rest => (.Pending, { io with writes := rest })
  | .Ready (.error code) :: rest => (.Ready (.error (ErrorKind.Os code).into), { io with
      writes := rest })
  | .Ready (.ok n) :: rest => (.Ready (.ok (min n bytes.length)), { io with writes := rest })

theorem length_le_of_poll_read (io : Scripted) (room : Nat) (bytes : List UInt8)
    (h : (io.poll_read room).1 = .Ready (.ok bytes)) : bytes.length ≤ room := by
  unfold poll_read at h
  split at h
  · cases h
  · cases h
  · cases h
  · cases h
    rw [List.length_take]
    exact Nat.min_le_left _ _

theorem le_length_of_poll_write (io : Scripted) (bytes : List UInt8) (n : Nat)
    (h : (io.poll_write bytes).1 = .Ready (.ok n)) : n ≤ bytes.length := by
  unfold poll_write at h
  split at h
  · cases h
    exact Nat.le_refl _
  · cases h
  · cases h
  · cases h
    exact Nat.min_le_right _ _

instance : AsyncStream Scripted where
  poll_read := poll_read
  poll_write := poll_write
  poll_flush io := (.Ready (.ok ()), io)
  poll_shutdown io := (.Ready (.ok ()), io)
  length_le_of_poll_read := length_le_of_poll_read
  le_length_of_poll_write := le_length_of_poll_write

theorem accepting : Accepting fun io : Scripted => io.writes = [] := by
  intro io bytes hwrites hne
  refine ⟨bytes.length, io, ?_, List.length_pos_of_ne_nil hne, hwrites⟩
  change io.poll_write bytes = _
  simp only [poll_write, hwrites]

theorem neverWouldBlock : NeverWouldBlock Scripted where
  poll_read io room e h := by
    change (io.poll_read room).1 = .Ready (.error e) at h
    unfold poll_read at h
    split at h <;> cases h
    exact ErrorKind.noConfusion
  poll_write io bytes e h := by
    change (io.poll_write bytes).1 = .Ready (.error e) at h
    unfold poll_write at h
    split at h <;> cases h
    exact ErrorKind.noConfusion

end Scripted

-- A stream that takes no byte and gives none.
structure Refusing where
  deriving DecidableEq

instance : AsyncStream Refusing where
  poll_read io _ := (.Pending, io)
  poll_write io _ := (.Ready (.ok 0), io)
  poll_flush io := (.Ready (.ok ()), io)
  poll_shutdown io := (.Ready (.ok ()), io)
  length_le_of_poll_read _ _ _ h := by cases h
  le_length_of_poll_write _ _ _ h := by
    cases h
    exact Nat.zero_le _

end AlphaRay
