import Mathlib

/-!
# Files as sequences of bytes

The view of a regular file that a program using `read` and `ftruncate` has:
its contents as a list. Truncation cuts the list or extends it with zeros,
and a read of `n` elements at `off` returns those of the list from `off`, at
most `n` of them.

The elements are of any type with a zero, so that a file of bytes, of words or
of records fits.

* `read_truncate_truncate`: after a file is cut to `len` and extended to
  `len'`, each position between the two reads as zero.
-/

namespace Os161.ByteFile

variable {α : Type}

/-- `read(F, off, n)`: the elements from `off`, at most `n` of them. -/
def read (F : List α) (off n : Nat) : List α := (F.drop off).take n

theorem read_one (F : List α) {k : Nat} (h : k < F.length) : read F k 1 = [F[k]] := by
  rw [read, List.drop_eq_getElem_cons h, List.take_succ_cons, List.take_zero]

variable [Zero α]

/-- `ftruncate(F, len)`: `F` cut to `len` elements or extended with zeros. -/
def truncate (F : List α) (len : Nat) : List α := F.take len ++ List.replicate (len - F.length) 0

@[simp] theorem length_truncate (F : List α) (len : Nat) : (truncate F len).length = len := by
  simp only [truncate, List.length_append, List.length_take, List.length_replicate]
  omega

theorem getElem_truncate (F : List α) (len i : Nat) (h : i < (truncate F len).length) :
    (truncate F len)[i] = if h' : i < F.length then F[i] else 0 := by
  have hi : i < len := by simpa using h
  simp only [truncate, List.getElem_append, List.getElem_take, List.getElem_replicate,
    List.length_take]
  split_ifs with h₁ h₂ h₂ <;> first | rfl | omega

/-- What is past the first truncation point and below the second reads as zero. -/
theorem read_truncate_truncate (F : List α) {len len' k : Nat} (hlen : len ≤ k) (hk : k < len') :
    read (truncate (truncate F len) len') k 1 = [0] := by
  have hk' : k < (truncate (truncate F len) len').length := by simpa using hk
  rw [read_one _ hk', getElem_truncate]
  simp only [length_truncate]
  rw [dif_neg (by omega)]

end Os161.ByteFile
