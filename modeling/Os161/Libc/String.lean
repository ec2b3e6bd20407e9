import Os161.Lib.Bytes

/-!
# Copying memory

`memcpy` and `memmove` of common/libc/string. Memory is a function from
addresses to bytes, and a region `[a, a + len)` is one that does not wrap round
the address space, as the source assumes. Both functions copy by `long` words
(four bytes on MIPS) when both pointers and the length are word-aligned, and by
bytes otherwise; one copy of a unit, a `long` or a `char`, is a load of its
bytes and a store of them (`moveUnit`).

`memcpy` copies forwards (`forward`). `memmove` leaves a destination below the
source to `memcpy`, and copies backwards otherwise (`backward`). Each loop is
correct in its own direction: a forward copy reads each source unit before any
store reaches it when the destination is at or below the source
(`forward_eq_blit`), a backward copy when it is at or above
(`backward_eq_blit`). So `memmove` is a copy of the original bytes on every
path (`memmove_copies`), overlapping or not.
-/

namespace Os161.Libc

/-- `sizeof(long)` on MIPS. -/
def longSize : Nat := 4

/-- One unit of `w` bytes moved: the bytes at `src` loaded, then stored at
    `dst`. -/
def moveUnit (w : Nat) (mem : Nat → UInt8) (dst src : Nat) : Nat → UInt8 :=
  Bytes.blit mem dst w fun j => mem (src + j)

/-- `for (i=0; i<k; i++) d[i] = s[i];` with units of `w` bytes. -/
def forward (w dst src : Nat) : Nat → (Nat → UInt8) → Nat → UInt8
  | 0, mem => mem
  | k + 1, mem => moveUnit w (forward w dst src k mem) (dst + w * k) (src + w * k)

/-- `for (i=k; i>0; i--) d[i-1] = s[i-1];` with units of `w` bytes. -/
def backward (w dst src : Nat) : Nat → (Nat → UInt8) → Nat → UInt8
  | 0, mem => mem
  | k + 1, mem => backward w dst src k (moveUnit w mem (dst + w * k) (src + w * k))

/-- Both pointers and the length word-aligned: the case copied by words. -/
def Aligned (dst src len : Nat) : Prop :=
  dst % longSize = 0 ∧ src % longSize = 0 ∧ len % longSize = 0

instance (dst src len : Nat) : Decidable (Aligned dst src len) :=
  inferInstanceAs (Decidable (_ ∧ _ ∧ _))

/-- `memcpy(dst, src, len)`. -/
def memcpy (mem : Nat → UInt8) (dst src len : Nat) : Nat → UInt8 :=
  if Aligned dst src len then forward longSize dst src (len / longSize) mem
  else forward 1 dst src len mem

/-- `memmove(dst, src, len)`. -/
def memmove (mem : Nat → UInt8) (dst src len : Nat) : Nat → UInt8 :=
  if dst < src then memcpy mem dst src len
  else if Aligned dst src len then backward longSize dst src (len / longSize) mem
  else backward 1 dst src len mem

/-- The bytes `[dst, dst + len)` replaced by the bytes `[src, src + len)` of
    the same memory as it was. -/
def copy (mem : Nat → UInt8) (dst src len : Nat) : Nat → UInt8 :=
  Bytes.blit mem dst len fun j => mem (src + j)

section Loops

variable {w dst src : Nat}

/-- A copy of `n` bytes followed by the copy of the next `m` from the memory
    it left, the source bytes read there not having been written: a copy of
    `n + m` bytes. -/
theorem copy_add_of_unread {mem : Nat → UInt8} {n m : Nat}
    (hread : ∀ j < m, ¬ (dst ≤ src + n + j ∧ src + n + j < dst + n)) :
    Bytes.blit (copy mem dst src n) (dst + n) m (fun j => copy mem dst src n (src + n + j)) =
      copy mem dst src (n + m) := by
  funext a
  simp only [copy, Bytes.blit]
  by_cases h₂ : dst + n ≤ a ∧ a < dst + n + m
  · -- a byte of the new part: its source byte was not written by the first part
    rw [if_pos h₂, if_neg (hread (a - (dst + n)) (by omega)), if_pos (by omega)]
    congr 1
    omega
  · rw [if_neg h₂]
    by_cases h₁ : dst ≤ a ∧ a < dst + n
    · rw [if_pos h₁, if_pos (by omega)]
    · rw [if_neg h₁, if_neg (by omega)]

/-- The forward loop copies the original bytes when the destination is at or
    below the source: each source unit is read before the stores reach it. -/
theorem forward_eq_blit (hle : dst ≤ src) (k : Nat) (mem : Nat → UInt8) :
    forward w dst src k mem = copy mem dst src (w * k) := by
  induction k with
  | zero =>
    funext a
    simp only [forward, copy, Bytes.blit, Nat.mul_zero, Nat.add_zero]
    rw [if_neg (by omega)]
  | succ k ih =>
    rw [forward, ih, moveUnit, Nat.mul_add_one]
    exact copy_add_of_unread fun j _ => by omega

/-- A copy of the `m` bytes above the first `n`, followed by the copy of the
    first `n` from the memory it left, the source bytes read there not having
    been written: a copy of `n + m` bytes. -/
theorem copy_add_of_unread_below {mem : Nat → UInt8} {n m : Nat}
    (hread : ∀ j < n, ¬ (dst + n ≤ src + j ∧ src + j < dst + n + m)) :
    copy (Bytes.blit mem (dst + n) m fun j => mem (src + n + j)) dst src n = copy mem dst src (n + m) := by
  funext a
  simp only [copy, Bytes.blit]
  by_cases h₁ : dst ≤ a ∧ a < dst + n
  · -- a byte of the lower part: its source byte is below the part written first
    rw [if_pos h₁, if_neg (hread (a - dst) (by omega)), if_pos (by omega)]
  · rw [if_neg h₁]
    by_cases h₂ : dst + n ≤ a ∧ a < dst + n + m
    · rw [if_pos h₂, if_pos (by omega)]
      congr 1
      omega
    · rw [if_neg h₂, if_neg (by omega)]

/-- The backward loop copies the original bytes when the destination is at or
    above the source: each source unit is read before the stores reach it. -/
theorem backward_eq_blit (hle : src ≤ dst) (k : Nat) (mem : Nat → UInt8) :
    backward w dst src k mem = copy mem dst src (w * k) := by
  -- induction on the units left, for every memory the first stores left
  induction k generalizing mem with
  | zero =>
    funext a
    simp only [backward, copy, Bytes.blit, Nat.mul_zero, Nat.add_zero]
    rw [if_neg (by omega)]
  | succ k ih =>
    rw [backward, ih, moveUnit, Nat.mul_add_one]
    exact copy_add_of_unread_below fun j _ => by omega

end Loops

/-- `memcpy` copies the original bytes when the destination is at or below the
    source, by words or by bytes. -/
theorem memcpy_copies {mem : Nat → UInt8} {dst src len : Nat} (hle : dst ≤ src) :
    memcpy mem dst src len = copy mem dst src len := by
  unfold memcpy
  split
  · next hal =>
    rw [forward_eq_blit hle, Nat.mul_div_cancel' (Nat.dvd_of_mod_eq_zero hal.2.2)]
  · rw [forward_eq_blit hle, Nat.one_mul]

/-- `memmove` replaces the bytes `[dst, dst + len)` by the bytes
    `[src, src + len)` as they were, and changes no other byte, on each of its
    four paths, whether the regions overlap or not. -/
theorem memmove_copies (mem : Nat → UInt8) (dst src len : Nat) :
    memmove mem dst src len = copy mem dst src len := by
  unfold memmove
  split
  · next hlt => exact memcpy_copies (Nat.le_of_lt hlt)
  · next hge =>
    have hle : src ≤ dst := Nat.le_of_not_lt hge
    split
    · next hal =>
      rw [backward_eq_blit hle, Nat.mul_div_cancel' (Nat.dvd_of_mod_eq_zero hal.2.2)]
    · rw [backward_eq_blit hle, Nat.one_mul]

end Os161.Libc
