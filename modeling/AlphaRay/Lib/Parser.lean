import Mathlib.Data.List.Basic

namespace AlphaRay.Lib

-- A function of the input alone: a result and the input that is left.
def Parser (τ ε : Type) : Type → Type := ExceptT ε (StateM (List τ))

namespace Parser

variable {τ ε α β : Type}

instance : Monad (Parser τ ε) := inferInstanceAs (Monad (ExceptT ε (StateM (List τ))))

instance : MonadExceptOf ε (Parser τ ε) :=
  inferInstanceAs (MonadExceptOf ε (ExceptT ε (StateM (List τ))))

def run (p : Parser τ ε α) (input : List τ) : Except ε α × List τ := p input

-- The first `n` symbols. An input that is too short is used up.
def take (n : Nat) (eof : ε) : Parser τ ε (List τ) :=
  fun input => if n ≤ input.length then (.ok (input.take n), input.drop n) else (.error eof, [])

theorem run_bind (p : Parser τ ε α) (f : α → Parser τ ε β) (input : List τ) :
    (p >>= f).run input =
      match p.run input with
      | (.error e, rest) => (.error e, rest)
      | (.ok a, rest) => (f a).run rest := by
  change (StateT.bind p (ExceptT.bindCont f)) input = _
  simp only [StateT.bind, run]
  obtain ⟨result, rest⟩ := p input
  cases result <;> rfl

theorem run_bind_ok {p : Parser τ ε α} {input rest : List τ} {a : α}
    (h : p.run input = (.ok a, rest)) (f : α → Parser τ ε β) :
    (p >>= f).run input = (f a).run rest := by
  rw [run_bind, h]

theorem run_bind_error {p : Parser τ ε α} {input rest : List τ} {e : ε}
    (h : p.run input = (.error e, rest)) (f : α → Parser τ ε β) :
    (p >>= f).run input = (.error e, rest) := by
  rw [run_bind, h]

theorem of_run_bind_ok {p : Parser τ ε α} {f : α → Parser τ ε β} {input rest : List τ} {b : β}
    (h : (p >>= f).run input = (.ok b, rest)) :
    ∃ a mid, p.run input = (.ok a, mid) ∧ (f a).run mid = (.ok b, rest) := by
  rw [run_bind] at h
  rcases hrun : p.run input with ⟨e | a, mid⟩
  · rw [hrun] at h
    cases h
  · rw [hrun] at h
    exact ⟨a, mid, rfl, h⟩

theorem run_take_append (front rest : List τ) (n : Nat) (eof : ε) (h : front.length = n) :
    (take n eof : Parser τ ε (List τ)).run (front ++ rest) = (.ok front, rest) := by
  subst h
  simp [take, run]

theorem run_take_of_lt (input : List τ) (n : Nat) (eof : ε) (h : input.length < n) :
    (take n eof : Parser τ ε (List τ)).run input = (.error eof, []) := by
  simp [take, run, Nat.not_le.mpr h]

end Parser

end AlphaRay.Lib
