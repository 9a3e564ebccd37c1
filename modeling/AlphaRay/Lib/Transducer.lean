import Mathlib.Data.List.Basic

namespace AlphaRay.Lib

variable {σ α β : Type}

-- A machine that answers every input symbol with a list of output symbols.
def transduce (step : σ → α → σ × List β) : σ → List α → σ × List β
  | state, [] => (state, [])
  | state, a :: input =>
      let (next, out) := step state a
      let (last, rest) := transduce step next input
      (last, out ++ rest)

@[simp] theorem transduce_nil (step : σ → α → σ × List β) (state : σ) :
    transduce step state [] = (state, []) := rfl

theorem transduce_cons (step : σ → α → σ × List β) (state : σ) (a : α) (input : List α) :
    transduce step state (a :: input) =
      ((transduce step (step state a).1 input).1,
        (step state a).2 ++ (transduce step (step state a).1 input).2) := rfl

-- Cutting the input changes neither the state reached nor the output.
theorem transduce_append (step : σ → α → σ × List β) (state : σ) (u v : List α) :
    transduce step state (u ++ v) =
      ((transduce step (transduce step state u).1 v).1,
        (transduce step state u).2 ++ (transduce step (transduce step state u).1 v).2) := by
  induction u generalizing state with
  | nil => simp
  | cons a u ih => simp only [List.cons_append, transduce_cons, ih, List.append_assoc]

-- `Eats` relates a machine to an implementation that keeps its input in a
-- buffer. It put out `out`, and whatever input comes later, the machine makes of
-- the new buffer what it would still have made of the old one.
def Eats (step : σ → α → σ × List β) (state : σ) (buffer : List α) (next : σ) (rest : List α)
    (out : List β) : Prop :=
  ∀ later, transduce step state (buffer ++ later) =
    ((transduce step next (rest ++ later)).1, out ++ (transduce step next (rest ++ later)).2)

section Eats

variable {step : σ → α → σ × List β} {state next last : σ} {buffer rest left : List α}
  {out more : List β}

theorem Eats.refl : Eats step state buffer state buffer [] :=
  fun _ => rfl

theorem Eats.trans (h : Eats step state buffer next rest out)
    (h' : Eats step next rest last left more) :
    Eats step state buffer last left (out ++ more) := by
  intro later
  rw [h later, h' later, List.append_assoc]

-- Input that arrives later is put behind the buffer.
theorem Eats.arrive (h : Eats step state buffer next rest out) (later : List α) :
    Eats step state (buffer ++ later) next (rest ++ later) out := by
  intro last
  rw [List.append_assoc, List.append_assoc]
  exact h (later ++ last)

-- Taking a front part of the buffer through the machine.
theorem Eats.of_append {eaten : List α} (hbuffer : buffer = eaten ++ rest)
    (hout : transduce step state eaten = (next, out)) : Eats step state buffer next rest out := by
  intro later
  rw [hbuffer, List.append_assoc, transduce_append, hout]

end Eats

end AlphaRay.Lib
