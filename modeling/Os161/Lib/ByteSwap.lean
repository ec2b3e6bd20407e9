import Mathlib

/-!
# Byte reversal

A word of `n` bytes, as a bit vector of width `8 * n`, has its byte `k` in
its bits `8 * k` to `8 * k + 7`. Reversing its bytes moves byte `k` to byte
`n - 1 - k`, each bit keeping its place within its byte: bit `i` of the
reversed word is bit `revBit n i` of the word.

* `revBit_revBit`: reversing twice puts every bit back;
* `Reverses.involutive`: a function that reverses the bytes of every word is
  its own inverse;
* `Reverses.eq`: two such functions are equal.
-/

namespace ByteSwap

/-- The bit of a word of `n` bytes that bit `i` of its byte reversal reads. -/
def revBit (n i : Nat) : Nat := 8 * (n - 1 - i / 8) + i % 8

section RevBit

variable {n i : Nat}

theorem revBit_lt (hi : i < 8 * n) : revBit n i < 8 * n := by
  unfold revBit
  omega

theorem revBit_revBit (hi : i < 8 * n) : revBit n (revBit n i) = i := by
  unfold revBit
  omega

end RevBit

/-- `f` reverses the bytes of every word of `n` bytes. -/
def Reverses (n : Nat) (f : BitVec (8 * n) → BitVec (8 * n)) : Prop :=
  ∀ x i, i < 8 * n → (f x).getLsbD i = x.getLsbD (revBit n i)

section Reverses

variable {n : Nat} {f g : BitVec (8 * n) → BitVec (8 * n)}

/-- Reversing the bytes twice gives the word back. -/
theorem Reverses.involutive (hf : Reverses n f) (x : BitVec (8 * n)) : f (f x) = x := by
  apply BitVec.eq_of_getLsbD_eq
  intro i hi
  rw [hf _ _ hi, hf _ _ (revBit_lt hi), revBit_revBit hi]

/-- There is one byte reversal. -/
theorem Reverses.eq (hf : Reverses n f) (hg : Reverses n g) : f = g := by
  funext x
  apply BitVec.eq_of_getLsbD_eq
  intro i hi
  rw [hf _ _ hi, hg _ _ hi]

end Reverses

end ByteSwap
