import Mathlib

/-!
# Big-endian numbers in byte arrays

A byte array is a function `Nat → UInt8` from offsets to bytes, the way C code
sees a buffer or a struct in memory. `getBE b off n` is the number in the `n`
bytes at `off`, most significant first; `putBE v off n b` stores `v` there,
modulo `256 ^ n`; `blit dst off len src` copies `len` bytes of `src` to `off`.

* `getBE_putBE`: a number read back where it was stored is the number stored,
  modulo `256 ^ n`;
* `getBE_putBE_of_disjoint`, `getBE_blit_of_disjoint`: a store or a copy
  elsewhere leaves a number as it was;
* `getBE_congr`: a number depends on its own bytes only.
-/

namespace Bytes

/-- The number in the `n` bytes at `off`, most significant first. -/
def getBE (b : Nat → UInt8) (off : Nat) : Nat → Nat
  | 0 => 0
  | n + 1 => getBE b off n * 256 + (b (off + n)).toNat

/-- `v` stored in the `n` bytes at `off`, most significant first. -/
def putBE (v off n : Nat) (b : Nat → UInt8) : Nat → UInt8 := fun i =>
  if off ≤ i ∧ i < off + n then UInt8.ofNat (v / 256 ^ (off + n - 1 - i)) else b i

/-- `memcpy(dst + off, src, len)`. -/
def blit (dst : Nat → UInt8) (off len : Nat) (src : Nat → UInt8) : Nat → UInt8 := fun i =>
  if off ≤ i ∧ i < off + len then src (i - off) else dst i

/-- A character of a C string. -/
def cchar (c : Char) : UInt8 := c.toNat.toUInt8

/-- The C string at `off`, read within `n` bytes: the bytes before its NUL. -/
def cstring (b : Nat → UInt8) (off n : Nat) : List UInt8 :=
  ((List.range n).map fun i => b (off + i)).takeWhile (· != 0)

/-- `strcpy(dst + off, s)`: the bytes of `s`, then a NUL. -/
def strcpy (dst : Nat → UInt8) (off : Nat) (s : List UInt8) : Nat → UInt8 := fun i =>
  if off ≤ i ∧ i < off + s.length then s.getD (i - off) 0
  else if i = off + s.length then 0 else dst i

variable {b b' : Nat → UInt8} {off n : Nat}

theorem getBE_congr (h : ∀ k < n, b (off + k) = b' (off + k)) : getBE b off n = getBE b' off n := by
  induction n with
  | zero => rfl
  | succ n ih =>
    rw [getBE, getBE, ih fun k hk => h k (by omega), h n (by omega)]

theorem getBE_lt (b : Nat → UInt8) (off n : Nat) : getBE b off n < 256 ^ n := by
  induction n with
  | zero => simp [getBE]
  | succ n ih =>
    have hbyte : (b (off + n)).toNat < 256 := UInt8.toNat_lt _
    rw [getBE, Nat.pow_succ]
    omega

@[simp] theorem getBE_zero (off n : Nat) : getBE (fun _ => 0) off n = 0 := by
  induction n with
  | zero => rfl
  | succ n ih => simp [getBE, ih]

theorem putBE_of_not_mem {v i : Nat} (h : ¬ (off ≤ i ∧ i < off + n)) : putBE v off n b i = b i := by
  simp only [putBE, if_neg h]

theorem getBE_putBE (v : Nat) (b : Nat → UInt8) (off n : Nat) :
    getBE (putBE v off n b) off n = v % 256 ^ n := by
  induction n generalizing v with
  | zero => simp [getBE, Nat.mod_one]
  | succ n ih =>
    -- the first `n` bytes hold `v / 256`, the last one `v % 256`
    have hhigh : getBE (putBE v off (n + 1) b) off n = getBE (putBE (v / 256) off n b) off n := by
      refine getBE_congr fun k hk => ?_
      have hexp : off + (n + 1) - 1 - (off + k) = (off + n - 1 - (off + k)) + 1 := by omega
      simp only [putBE, show off ≤ off + k ∧ off + k < off + (n + 1) from ⟨by omega, by omega⟩,
        show off ≤ off + k ∧ off + k < off + n from ⟨by omega, by omega⟩, hexp,
        Nat.pow_succ', Nat.div_div_eq_div_mul]
    have hlow : (putBE v off (n + 1) b (off + n)).toNat = v % 256 := by
      rw [putBE, if_pos ⟨by omega, by omega⟩, show off + (n + 1) - 1 - (off + n) = 0 by omega,
        Nat.pow_zero, Nat.div_one, UInt8.toNat_ofNat']
    rw [getBE, hhigh, hlow, ih, Nat.pow_succ', Nat.mod_mul, Nat.add_comm, Nat.mul_comm]

theorem getBE_putBE_of_lt {v : Nat} (hv : v < 256 ^ n) (b : Nat → UInt8) (off : Nat) :
    getBE (putBE v off n b) off n = v := by
  rw [getBE_putBE, Nat.mod_eq_of_lt hv]

theorem getBE_putBE_of_disjoint {v off' n' : Nat} (h : off + n ≤ off' ∨ off' + n' ≤ off) :
    getBE (putBE v off' n' b) off n = getBE b off n :=
  getBE_congr fun k hk => putBE_of_not_mem (by omega)

theorem blit_of_not_mem {dst src : Nat → UInt8} {len i : Nat} (h : ¬ (off ≤ i ∧ i < off + len)) :
    blit dst off len src i = dst i := by
  simp only [blit, if_neg h]

theorem blit_of_mem {dst src : Nat → UInt8} {len i : Nat} (h : off ≤ i ∧ i < off + len) :
    blit dst off len src i = src (i - off) := by
  simp only [blit, if_pos h]

@[simp] theorem blit_zero (dst src : Nat → UInt8) : blit dst off 0 src = dst := by
  funext i
  exact blit_of_not_mem (by omega)

theorem getBE_blit_of_disjoint {dst src : Nat → UInt8} {len off' : Nat}
    (h : off + n ≤ off' ∨ off' + len ≤ off) : getBE (blit dst off' len src) off n = getBE dst off n :=
  getBE_congr fun k hk => blit_of_not_mem (by omega)

/-! ## C strings -/

theorem strcpy_of_not_mem {dst : Nat → UInt8} {s : List UInt8} {i : Nat}
    (h : ¬ (off ≤ i ∧ i ≤ off + s.length)) : strcpy dst off s i = dst i := by
  rw [strcpy, if_neg (by omega), if_neg (by omega)]

theorem strcpy_nul {dst : Nat → UInt8} {s : List UInt8} : strcpy dst off s (off + s.length) = 0 := by
  rw [strcpy, if_neg (by omega), if_pos rfl]

theorem strcpy_of_lt {dst : Nat → UInt8} {s : List UInt8} {k : Nat} (hk : k < s.length) :
    strcpy dst off s (off + k) = s[k] := by
  rw [strcpy, if_pos ⟨by omega, by omega⟩, Nat.add_sub_cancel_left]
  simp [hk]

theorem getBE_strcpy_of_disjoint {dst : Nat → UInt8} {s : List UInt8} {off' : Nat}
    (h : off + n ≤ off' ∨ off' + s.length < off) :
    getBE (strcpy dst off' s) off n = getBE dst off n :=
  getBE_congr fun k hk => strcpy_of_not_mem (by omega)

/-- The bytes of a C string, then its NUL, read as the first bytes of a
    buffer. -/
theorem cstring_of_nul {s : List UInt8} (h0 : ∀ c ∈ s, c ≠ 0) (hn : s.length < n)
    (hs : ∀ k (hk : k < s.length), b (off + k) = s[k]) (hnul : b (off + s.length) = 0) :
    cstring b off n = s := by
  have hprefix : (List.range s.length).map (fun i => b (off + i)) = s :=
    List.ext_getElem (by simp) fun k hk _ => by simp [hs k (by simpa using hk)]
  -- the bytes after the string start with its NUL
  rw [cstring, show n = s.length + (n - s.length - 1 + 1) by omega, List.range_add, List.map_append,
    hprefix, List.takeWhile_append_of_pos (by simpa using h0), List.range_succ_eq_map]
  simp [hnul]

theorem cstring_strcpy {dst : Nat → UInt8} {s : List UInt8} (h0 : ∀ c ∈ s, c ≠ 0) (hn : s.length < n) :
    cstring (strcpy dst off s) off n = s :=
  cstring_of_nul h0 hn (fun _ hk => strcpy_of_lt hk) strcpy_nul

end Bytes
