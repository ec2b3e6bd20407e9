import Mathlib

/-!
# Long long arithmetic on two words

A 32-bit MIPS has no instructions for 64-bit integers, so gcc turns each
operation on a `long long` into a call of a function of common/gcc-millicode,
which works on the two 32-bit words of the value, `ui[H]` and `ui[L]` of
`union uu` (longlong.h). `H` and `L` are the indices of the high and the low
word on the build's byte order, so `ui[H]` is the high word on either. Here a
`long long` is a `BitVec 64`, its words are `hi` and `lo`, and the signed views
(`si[H]`, `ll`) are the signed readings of the same bits.

What can go wrong in these functions is what passes between the words: the
carry of an addition, the borrow of a subtraction, the bits a shift moves from
one word to the other. Each function computes the 64-bit operation:

* `adddi3_eq`, `subdi3_eq`, `negdi2_eq`: a carry out of the low word is a sum
  below an operand, a borrow a difference above the minuend;
* `anddi3_eq`, `iordi3_eq`, `xordi3_eq`, `one_cmpldi2_eq`: the bitwise
  operations, word by word;
* `ashldi3_eq`, `lshldi3_eq`, `lshrdi3_eq`, `ashrdi3_eq`: the shifts, for every
  count below 64 (a larger count is undefined in C);
* `cmpdi2_eq`, `ucmpdi2_eq`: 0, 1 or 2 as the first operand is below, equal to
  or above the second, in the signed and in the unsigned order.

The halves of a word (`HHALF`, `LHALF`, `LHUP`) and `COMBINE`, which the
multiplication and the division use, are defined here too.
-/

namespace Os161.Millicode

/-! ## The two words of a long long -/

/-- `ui[H]`, the high word of a long long. -/
def hi (a : BitVec 64) : BitVec 32 := a.extractLsb' 32 32

/-- `ui[L]`, the low word of a long long. -/
def lo (a : BitVec 64) : BitVec 32 := a.extractLsb' 0 32

/-- The long long whose `ui[H]` is `h` and whose `ui[L]` is `l`. -/
def ofHalves (h l : BitVec 32) : BitVec 64 := h ++ l

section Halves

variable {a b : BitVec 64} {h l : BitVec 32}

@[simp]
theorem toNat_hi (a : BitVec 64) : (hi a).toNat = a.toNat / 2 ^ 32 := by
  have := a.isLt
  simp [hi, BitVec.extractLsb'_toNat, Nat.shiftRight_eq_div_pow]
  omega

@[simp]
theorem toNat_lo (a : BitVec 64) : (lo a).toNat = a.toNat % 2 ^ 32 := by
  simp [lo, BitVec.extractLsb'_toNat]

@[simp]
theorem toNat_ofHalves (h l : BitVec 32) : (ofHalves h l).toNat = h.toNat * 2 ^ 32 + l.toNat := by
  rw [ofHalves, BitVec.toNat_append, ← Nat.shiftLeft_add_eq_or_of_lt l.isLt, Nat.shiftLeft_eq]

@[simp]
theorem hi_ofHalves (h l : BitVec 32) : hi (ofHalves h l) = h := by
  apply BitVec.eq_of_toNat_eq
  have := l.isLt
  simp only [toNat_hi, toNat_ofHalves]
  omega

@[simp]
theorem lo_ofHalves (h l : BitVec 32) : lo (ofHalves h l) = l := by
  apply BitVec.eq_of_toNat_eq
  have := l.isLt
  simp only [toNat_lo, toNat_ofHalves]
  omega

@[simp]
theorem ofHalves_hi_lo (a : BitVec 64) : ofHalves (hi a) (lo a) = a := by
  apply BitVec.eq_of_toNat_eq
  simp only [toNat_ofHalves, toNat_hi, toNat_lo]
  omega

theorem eq_of_hi_lo (hh : hi a = hi b) (hl : lo a = lo b) : a = b := by
  rw [← ofHalves_hi_lo a, hh, hl, ofHalves_hi_lo]

theorem getLsbD_ofHalves (h l : BitVec 32) (i : ℕ) :
    (ofHalves h l).getLsbD i = if i < 32 then l.getLsbD i else h.getLsbD (i - 32) := by
  simp only [ofHalves, BitVec.getLsbD_append]

theorem getLsbD_hi (a : BitVec 64) (i : ℕ) :
    (hi a).getLsbD i = (decide (i < 32) && a.getLsbD (32 + i)) := by
  simp [hi, BitVec.getLsbD_extractLsb']

theorem getLsbD_lo (a : BitVec 64) (i : ℕ) :
    (lo a).getLsbD i = (decide (i < 32) && a.getLsbD i) := by
  simp [lo, BitVec.getLsbD_extractLsb']

end Halves

/-! ## Carries and borrows between the words -/

section Carry

variable (h l h' l' : BitVec 32)

/-- Adding two long longs word by word, with the carry out of the low word
    found as a low sum below the second low word. -/
theorem ofHalves_add_carry :
    ofHalves (h + h' + if l + l' < l' then 1 else 0) (l + l') = ofHalves h l + ofHalves h' l' := by
  apply BitVec.eq_of_toNat_eq
  have := l.isLt
  have := l'.isLt
  have := h.isLt
  have := h'.isLt
  simp only [toNat_ofHalves, BitVec.toNat_add, BitVec.lt_def]
  split <;> simp <;> omega

/-- The carry is found just as well as a low sum below the first low word. -/
theorem add_lt_left_iff : l + l' < l ↔ l + l' < l' := by
  have := l.isLt
  have := l'.isLt
  simp only [BitVec.lt_def, BitVec.toNat_add]
  omega

/-- Subtracting two long longs word by word, with the borrow out of the low
    word found as a low difference above the first low word. -/
theorem ofHalves_sub_borrow :
    ofHalves (h - h' - if l < l - l' then 1 else 0) (l - l') = ofHalves h l - ofHalves h' l' := by
  apply BitVec.eq_of_toNat_eq
  have := l.isLt
  have := l'.isLt
  have := h.isLt
  have := h'.isLt
  simp only [toNat_ofHalves, BitVec.toNat_sub, BitVec.lt_def]
  split <;> simp <;> omega

end Carry

/-! ## Addition, subtraction, negation -/

/-- `__adddi3(a, b)`: `sum.ui[H] = aa.ui[H] + bb.ui[H] + (sum.ui[L] < bb.ui[L])`. -/
def adddi3 (a b : BitVec 64) : BitVec 64 :=
  let sumL := lo a + lo b
  ofHalves (hi a + hi b + if sumL < lo b then 1 else 0) sumL

/-- `__subdi3(a, b)`: `diff.ui[H] = aa.ui[H] - bb.ui[H] - (diff.ui[L] > aa.ui[L])`. -/
def subdi3 (a b : BitVec 64) : BitVec 64 :=
  let diffL := lo a - lo b
  ofHalves (hi a - hi b - if lo a < diffL then 1 else 0) diffL

/-- `__negdi2(a)`: `res.ui[H] = -aa.ui[H] - (res.ui[L] > 0)`. -/
def negdi2 (a : BitVec 64) : BitVec 64 :=
  let resL := -lo a
  ofHalves (-hi a - if 0 < resL then 1 else 0) resL

section AddSub

variable (a b : BitVec 64)

theorem adddi3_eq : adddi3 a b = a + b := by
  rw [adddi3, ofHalves_add_carry, ofHalves_hi_lo, ofHalves_hi_lo]

theorem subdi3_eq : subdi3 a b = a - b := by
  rw [subdi3, ofHalves_sub_borrow, ofHalves_hi_lo, ofHalves_hi_lo]

/-- The negation is the subtraction from `0`, whose words are `0`. -/
theorem negdi2_eq : negdi2 a = -a := by
  have h0 : ofHalves 0 0 = 0 := by
    apply BitVec.eq_of_toNat_eq
    simp
  have hsub := ofHalves_sub_borrow 0 0 (hi a) (lo a)
  simp only [zero_sub, ofHalves_hi_lo, h0] at hsub
  rw [negdi2]
  exact hsub

end AddSub

/-! ## Bitwise operations -/

/-- The bitwise operation `op` on both words, as `__anddi3`, `__iordi3` and
    `__xordi3` do: `aa.ui[0] op= bb.ui[0]; aa.ui[1] op= bb.ui[1];`. -/
def wordwise (op : BitVec 32 → BitVec 32 → BitVec 32) (a b : BitVec 64) : BitVec 64 :=
  ofHalves (op (hi a) (hi b)) (op (lo a) (lo b))

/-- `__anddi3(a, b)`. -/
def anddi3 : BitVec 64 → BitVec 64 → BitVec 64 := wordwise (· &&& ·)

/-- `__iordi3(a, b)`. -/
def iordi3 : BitVec 64 → BitVec 64 → BitVec 64 := wordwise (· ||| ·)

/-- `__xordi3(a, b)`. -/
def xordi3 : BitVec 64 → BitVec 64 → BitVec 64 := wordwise (· ^^^ ·)

/-- `__one_cmpldi2(a)`: `aa.ui[0] = ~aa.ui[0]; aa.ui[1] = ~aa.ui[1];`. -/
def one_cmpldi2 (a : BitVec 64) : BitVec 64 := ofHalves (~~~hi a) (~~~lo a)

section Bitwise

variable (a b : BitVec 64)

/-- An operation done bit by bit by `f` on words is done by `f` on long longs,
    word by word. -/
theorem wordwise_eq {op : BitVec 32 → BitVec 32 → BitVec 32}
    {op' : BitVec 64 → BitVec 64 → BitVec 64} (f : Bool → Bool → Bool)
    (h32 : ∀ x y i, i < 32 → (op x y).getLsbD i = f (x.getLsbD i) (y.getLsbD i))
    (h64 : ∀ x y i, i < 64 → (op' x y).getLsbD i = f (x.getLsbD i) (y.getLsbD i)) :
    wordwise op a b = op' a b := by
  apply BitVec.eq_of_getLsbD_eq
  intro i hi64
  rw [wordwise, getLsbD_ofHalves, h64 a b i hi64]
  split
  · rename_i hi32
    rw [h32 _ _ i hi32, getLsbD_lo, getLsbD_lo, decide_eq_true hi32, Bool.true_and, Bool.true_and]
  · rename_i hi32
    have hlt : i - 32 < 32 := by omega
    rw [h32 _ _ _ hlt, getLsbD_hi, getLsbD_hi, decide_eq_true hlt, Bool.true_and, Bool.true_and,
      Nat.add_sub_cancel' (by omega)]

theorem anddi3_eq : anddi3 a b = a &&& b :=
  wordwise_eq a b (· && ·) (fun _ _ _ _ => BitVec.getLsbD_and ..)
    (fun _ _ _ _ => BitVec.getLsbD_and ..)

theorem iordi3_eq : iordi3 a b = a ||| b :=
  wordwise_eq a b (· || ·) (fun _ _ _ _ => BitVec.getLsbD_or ..)
    (fun _ _ _ _ => BitVec.getLsbD_or ..)

theorem xordi3_eq : xordi3 a b = a ^^^ b :=
  wordwise_eq a b (xor · ·) (fun _ _ _ _ => BitVec.getLsbD_xor ..)
    (fun _ _ _ _ => BitVec.getLsbD_xor ..)

theorem one_cmpldi2_eq : one_cmpldi2 a = ~~~a := by
  apply BitVec.eq_of_getLsbD_eq
  intro i hi64
  rw [one_cmpldi2, getLsbD_ofHalves]
  split
  · rename_i hi32
    simp only [BitVec.getLsbD_not, getLsbD_lo, decide_eq_true hi32, decide_eq_true hi64,
      Bool.true_and]
  · rename_i hi32
    have hlt : i - 32 < 32 := by omega
    simp only [BitVec.getLsbD_not, getLsbD_hi, decide_eq_true hlt, decide_eq_true hi64,
      Bool.true_and, Nat.add_sub_cancel' (show 32 ≤ i by omega)]

end Bitwise

/-! ## Shifts

A shift by a count below 32 moves bits across the words; by 32 or more it
moves one word into the other. -/

section ShiftWords

variable (a : BitVec 64) {s : ℕ}

theorem hi_shiftLeft (h0 : 0 < s) (h : s < 32) :
    hi (a <<< s) = (hi a <<< s) ||| (lo a >>> (32 - s)) := by
  apply BitVec.eq_of_getLsbD_eq
  intro i hi32
  simp only [getLsbD_hi, getLsbD_lo, BitVec.getLsbD_or, BitVec.getLsbD_shiftLeft,
    BitVec.getLsbD_ushiftRight]
  by_cases his : i < s
  · simp [his, hi32, show 32 - s + i < 32 by omega, show ¬ (32 + i < s) by omega,
      show 32 + i - s = 32 - s + i by omega, show 32 + i < 64 by omega]
  · simp [his, hi32, show ¬ (32 + i < s) by omega, show 32 + i - s = 32 + (i - s) by omega,
      show ¬ (32 - s + i < 32) by omega, show 32 + i < 64 by omega, show i - s < 32 by omega]

theorem lo_shiftLeft (h : s < 32) : lo (a <<< s) = lo a <<< s := by
  apply BitVec.eq_of_getLsbD_eq
  intro i hi32
  simp only [getLsbD_lo, BitVec.getLsbD_shiftLeft]
  by_cases his : i < s
  · simp [his, hi32]
  · simp [his, hi32, show i - s < 32 by omega, show i < 64 by omega]

theorem hi_shiftLeft_of_le (h0 : 32 ≤ s) (h : s < 64) : hi (a <<< s) = lo a <<< (s - 32) := by
  apply BitVec.eq_of_getLsbD_eq
  intro i hi32
  simp only [getLsbD_hi, getLsbD_lo, BitVec.getLsbD_shiftLeft]
  by_cases his : i < s - 32
  · simp [his, hi32, show 32 + i < s by omega]
  · simp [his, hi32, show ¬ 32 + i < s by omega, show 32 + i - s = i - (s - 32) by omega,
      show 32 + i < 64 by omega, show i - (s - 32) < 32 by omega]

theorem lo_shiftLeft_of_le (h0 : 32 ≤ s) : lo (a <<< s) = 0 := by
  apply BitVec.eq_of_getLsbD_eq
  intro i hi32
  simp [getLsbD_lo, BitVec.getLsbD_shiftLeft, show i < s by omega]

theorem hi_ushiftRight (s : ℕ) : hi (a >>> s) = hi a >>> s := by
  apply BitVec.eq_of_getLsbD_eq
  intro i hi32
  simp only [getLsbD_hi, BitVec.getLsbD_ushiftRight]
  by_cases his : s + i < 32
  · simp (disch := omega) only [decide_eq_true, Bool.true_and,
      show 32 + (s + i) = s + (32 + i) by omega]
  · simp (disch := omega) only [decide_eq_true, decide_eq_false, Bool.true_and, Bool.false_and,
      BitVec.getLsbD_of_ge]

theorem lo_ushiftRight (h0 : 0 < s) (h : s < 32) :
    lo (a >>> s) = (lo a >>> s) ||| (hi a <<< (32 - s)) := by
  apply BitVec.eq_of_getLsbD_eq
  intro i hi32
  simp only [getLsbD_hi, getLsbD_lo, BitVec.getLsbD_or, BitVec.getLsbD_shiftLeft,
    BitVec.getLsbD_ushiftRight]
  by_cases his : s + i < 32
  · simp [hi32, his, show i < 32 - s by omega]
  · simp [hi32, his, show ¬ i < 32 - s by omega, show i - (32 - s) < 32 by omega,
      show 32 + (i - (32 - s)) = s + i by omega]

theorem hi_ushiftRight_of_le (h0 : 32 ≤ s) : hi (a >>> s) = 0 := by
  apply BitVec.eq_of_getLsbD_eq
  intro i hi32
  rw [getLsbD_hi, BitVec.getLsbD_ushiftRight, BitVec.getLsbD_of_ge a _ (by omega)]
  simp

theorem lo_ushiftRight_of_le (h0 : 32 ≤ s) : lo (a >>> s) = hi a >>> (s - 32) := by
  apply BitVec.eq_of_getLsbD_eq
  intro i hi32
  simp only [getLsbD_hi, getLsbD_lo, BitVec.getLsbD_ushiftRight]
  by_cases his : s - 32 + i < 32
  · simp [hi32, his, show s + i = 32 + (s - 32 + i) by omega]
  · simp [hi32, his, BitVec.getLsbD_of_ge a (s + i) (by omega)]

theorem msb_hi : (hi a).msb = a.msb := by
  rw [BitVec.msb_eq_getLsbD_last, BitVec.msb_eq_getLsbD_last, getLsbD_hi]
  rfl

theorem hi_sshiftRight (s : ℕ) : hi (a.sshiftRight s) = (hi a).sshiftRight s := by
  apply BitVec.eq_of_getLsbD_eq
  intro i hi32
  simp only [getLsbD_hi, BitVec.getLsbD_sshiftRight, msb_hi]
  by_cases his : s + i < 32
  · simp (disch := omega) only [decide_eq_true, decide_eq_false, Bool.true_and, Bool.not_false,
      if_pos, show 32 + (s + i) = s + (32 + i) by omega]
  · simp (disch := omega) only [decide_eq_true, decide_eq_false, Bool.true_and, Bool.not_false,
      if_neg]

theorem lo_sshiftRight (h0 : 0 < s) (h : s < 32) :
    lo (a.sshiftRight s) = (lo a >>> s) ||| (hi a <<< (32 - s)) := by
  apply BitVec.eq_of_getLsbD_eq
  intro i hi32
  simp only [getLsbD_hi, getLsbD_lo, BitVec.getLsbD_or, BitVec.getLsbD_shiftLeft,
    BitVec.getLsbD_ushiftRight, BitVec.getLsbD_sshiftRight]
  by_cases his : s + i < 32
  · simp (disch := omega) only [decide_eq_true, decide_eq_false, Bool.true_and, Bool.not_false,
      Bool.not_true, Bool.false_and, Bool.or_false, if_pos]
  · simp (disch := omega) only [decide_eq_true, decide_eq_false, Bool.true_and, Bool.not_false,
      Bool.false_and, Bool.false_or, if_pos, show 32 + (i - (32 - s)) = s + i by omega]

/-- The sign word: `(aa.si[H] >> (INT_BITS - 1)) >> 1`, every bit the sign. -/
theorem getLsbD_sign (i : ℕ) (hi32 : i < 32) :
    (((hi a).sshiftRight 31).sshiftRight 1).getLsbD i = a.msb := by
  simp only [BitVec.getLsbD_sshiftRight, BitVec.msb_sshiftRight, ← msb_hi a]
  by_cases hi0 : 1 + i < 32
  · simp (disch := omega) only [decide_eq_false, Bool.not_false, Bool.true_and, if_pos, if_neg]
  · simp (disch := omega) only [decide_eq_false, Bool.not_false, Bool.true_and, if_neg]

theorem hi_sshiftRight_of_le (h0 : 32 ≤ s) :
    hi (a.sshiftRight s) = ((hi a).sshiftRight 31).sshiftRight 1 := by
  apply BitVec.eq_of_getLsbD_eq
  intro i hi32
  rw [getLsbD_sign a i hi32, getLsbD_hi, BitVec.getLsbD_sshiftRight]
  simp (disch := omega) only [decide_eq_true, decide_eq_false, Bool.true_and, Bool.not_false,
    if_neg]

theorem lo_sshiftRight_of_le (h0 : 32 ≤ s) :
    lo (a.sshiftRight s) = (hi a).sshiftRight (s - 32) := by
  apply BitVec.eq_of_getLsbD_eq
  intro i hi32
  simp only [getLsbD_hi, getLsbD_lo, BitVec.getLsbD_sshiftRight, msb_hi]
  by_cases his : s - 32 + i < 32
  · simp (disch := omega) only [decide_eq_true, decide_eq_false, Bool.true_and, Bool.not_false,
      if_pos, show 32 + (s - 32 + i) = s + i by omega]
  · simp (disch := omega) only [decide_eq_true, decide_eq_false, Bool.true_and, Bool.not_false,
      if_neg]

end ShiftWords

/-- The body of `__ashldi3` and of `__lshldi3`, which are the same: a left
    shift by `shift`, word by word. -/
def shiftLeftWords (a : BitVec 64) (shift : BitVec 32) : BitVec 64 :=
  if shift = 0 then a
  else if 32 ≤ shift then ofHalves (lo a <<< (shift - 32).toNat) 0
  else ofHalves ((hi a <<< shift.toNat) ||| (lo a >>> (32 - shift).toNat)) (lo a <<< shift.toNat)

/-- `__ashldi3(a, shift)`. -/
def ashldi3 : BitVec 64 → BitVec 32 → BitVec 64 := shiftLeftWords

/-- `__lshldi3(a, shift)`. -/
def lshldi3 : BitVec 64 → BitVec 32 → BitVec 64 := shiftLeftWords

/-- `__lshrdi3(a, shift)`. -/
def lshrdi3 (a : BitVec 64) (shift : BitVec 32) : BitVec 64 :=
  if shift = 0 then a
  else if 32 ≤ shift then ofHalves 0 (hi a >>> (shift - 32).toNat)
  else ofHalves (hi a >>> shift.toNat) ((lo a >>> shift.toNat) ||| (hi a <<< (32 - shift).toNat))

/-- `__ashrdi3(a, shift)`: the high word shifts with the machine's arithmetic
    right shift of an `int`, and a count of 32 or more fills the high word
    with the sign word `s`. -/
def ashrdi3 (a : BitVec 64) (shift : BitVec 32) : BitVec 64 :=
  if shift = 0 then a
  else if 32 ≤ shift then
    let s := ((hi a).sshiftRight 31).sshiftRight 1
    ofHalves s ((hi a).sshiftRight (shift - 32).toNat)
  else
    ofHalves ((hi a).sshiftRight shift.toNat)
      ((lo a >>> shift.toNat) ||| (hi a <<< (32 - shift).toNat))

section Shifts

variable (a : BitVec 64) {shift : BitVec 32}

/-- The three cases of a shift count: `0`, from 32 on, and between. -/
theorem shift_cases (h : shift.toNat < 64) :
    shift = 0 ∨ (32 ≤ shift ∧ (shift - 32).toNat = shift.toNat - 32 ∧ 32 ≤ shift.toNat) ∨
      (¬ 32 ≤ shift ∧ shift ≠ 0 ∧ (32 - shift).toNat = 32 - shift.toNat ∧ 0 < shift.toNat ∧
        shift.toNat < 32) := by
  by_cases h0 : shift = 0
  · exact .inl h0
  have hpos : 0 < shift.toNat := by
    rcases Nat.eq_zero_or_pos shift.toNat with h' | h'
    · exact absurd (BitVec.eq_of_toNat_eq (by simpa using h')) h0
    · exact h'
  by_cases h32 : 32 ≤ shift
  · have hle : 32 ≤ shift.toNat := by simpa [BitVec.le_def] using h32
    refine .inr (.inl ⟨h32, ?_, hle⟩)
    rw [BitVec.toNat_sub]
    simp
    omega
  · have hlt : shift.toNat < 32 := by simpa [BitVec.le_def] using h32
    refine .inr (.inr ⟨h32, h0, ?_, hpos, hlt⟩)
    rw [BitVec.toNat_sub]
    simp
    omega

theorem shiftLeftWords_eq (h : shift.toNat < 64) : shiftLeftWords a shift = a <<< shift.toNat := by
  rcases shift_cases h with h0 | ⟨h32, hsub, hle⟩ | ⟨h32, h0, hsub, hpos, hlt⟩
  · simp [shiftLeftWords, h0]
  · rw [shiftLeftWords, if_neg (by rintro rfl; simp at hle), if_pos h32, hsub]
    apply eq_of_hi_lo
    · rw [hi_ofHalves, hi_shiftLeft_of_le a hle h]
    · rw [lo_ofHalves, lo_shiftLeft_of_le a hle]
  · rw [shiftLeftWords, if_neg h0, if_neg h32, hsub]
    apply eq_of_hi_lo
    · rw [hi_ofHalves, hi_shiftLeft a hpos hlt]
    · rw [lo_ofHalves, lo_shiftLeft a hlt]

theorem ashldi3_eq (h : shift.toNat < 64) : ashldi3 a shift = a <<< shift.toNat :=
  shiftLeftWords_eq a h

/-- A shift by 40 moves the low word past the high one. -/
theorem ashldi3_eq_of_forty : (40#32).toNat < 64 ∧
    ashldi3 0x8000000000000001#64 40#32 = 0x8000000000000001#64 <<< (40#32).toNat :=
  ⟨by decide, ashldi3_eq _ (by decide)⟩

theorem lshldi3_eq (h : shift.toNat < 64) : lshldi3 a shift = a <<< shift.toNat :=
  shiftLeftWords_eq a h

theorem lshrdi3_eq (h : shift.toNat < 64) : lshrdi3 a shift = a >>> shift.toNat := by
  rcases shift_cases h with h0 | ⟨h32, hsub, hle⟩ | ⟨h32, h0, hsub, hpos, hlt⟩
  · simp [lshrdi3, h0]
  · rw [lshrdi3, if_neg (by rintro rfl; simp at hle), if_pos h32, hsub]
    apply eq_of_hi_lo
    · rw [hi_ofHalves, hi_ushiftRight_of_le a hle]
    · rw [lo_ofHalves, lo_ushiftRight_of_le a hle]
  · rw [lshrdi3, if_neg h0, if_neg h32, hsub]
    apply eq_of_hi_lo
    · rw [hi_ofHalves, hi_ushiftRight a]
    · rw [lo_ofHalves, lo_ushiftRight a hpos hlt]

/-- A shift by 12 moves bits of the high word into the low one. -/
theorem lshrdi3_eq_of_twelve : (12#32).toNat < 64 ∧
    lshrdi3 0x8000000000000001#64 12#32 = 0x8000000000000001#64 >>> (12#32).toNat :=
  ⟨by decide, lshrdi3_eq _ (by decide)⟩

theorem ashrdi3_eq (h : shift.toNat < 64) : ashrdi3 a shift = a.sshiftRight shift.toNat := by
  rcases shift_cases h with h0 | ⟨h32, hsub, hle⟩ | ⟨h32, h0, hsub, hpos, hlt⟩
  · simp [ashrdi3, h0]
  · rw [ashrdi3, if_neg (by rintro rfl; simp at hle), if_pos h32, hsub]
    apply eq_of_hi_lo
    · rw [hi_ofHalves, hi_sshiftRight_of_le a hle]
    · rw [lo_ofHalves, lo_sshiftRight_of_le a hle]
  · rw [ashrdi3, if_neg h0, if_neg h32, hsub]
    apply eq_of_hi_lo
    · rw [hi_ofHalves, hi_sshiftRight a]
    · rw [lo_ofHalves, lo_sshiftRight a hpos hlt]

/-- A negative long long shifted by 40 fills both words with its sign. -/
theorem ashrdi3_eq_of_forty : (40#32).toNat < 64 ∧
    ashrdi3 0x8000000000000001#64 40#32 = (0x8000000000000001#64).sshiftRight (40#32).toNat :=
  ⟨by decide, ashrdi3_eq _ (by decide)⟩

end Shifts

/-! ## Comparisons -/

/-- `__cmpdi2(a, b)`: the high words compare as `int`s (`si[H]`), the low ones
    as `unsigned int`s. -/
def cmpdi2 (a b : BitVec 64) : ℕ :=
  if (hi a).slt (hi b) then 0 else if (hi b).slt (hi a) then 2
  else if lo a < lo b then 0 else if lo b < lo a then 2 else 1

/-- `__ucmpdi2(a, b)`. -/
def ucmpdi2 (a b : BitVec 64) : ℕ :=
  if hi a < hi b then 0 else if hi b < hi a then 2
  else if lo a < lo b then 0 else if lo b < lo a then 2 else 1

section Compare

variable (a b : BitVec 64)

theorem toNat_eq_hi_lo : a.toNat = (hi a).toNat * 2 ^ 32 + (lo a).toNat := by
  simp only [toNat_hi, toNat_lo]
  omega

/-- The signed value of a long long is that of its high word, shifted, plus
    the unsigned value of its low word. -/
theorem toInt_eq_hi_lo : a.toInt = (hi a).toInt * 2 ^ 32 + (lo a).toNat := by
  have ha := a.isLt
  rw [BitVec.toInt_eq_toNat_cond, BitVec.toInt_eq_toNat_cond, toNat_hi, toNat_lo]
  split_ifs <;> omega

theorem ucmpdi2_eq : ucmpdi2 a b = if a < b then 0 else if a = b then 1 else 2 := by
  have hla := (lo a).isLt
  have hlb := (lo b).isLt
  have heq : a = b ↔ a.toNat = b.toNat := BitVec.toNat_inj.symm
  simp only [ucmpdi2, BitVec.lt_def, heq, toNat_eq_hi_lo a, toNat_eq_hi_lo b]
  split_ifs <;> omega

theorem cmpdi2_eq : cmpdi2 a b = if a.slt b then 0 else if a = b then 1 else 2 := by
  have hla := (lo a).isLt
  have hlb := (lo b).isLt
  have heq : a = b ↔ a.toInt = b.toInt := BitVec.toInt_inj.symm
  simp only [cmpdi2, heq, BitVec.slt_iff_toInt_lt, BitVec.lt_def, toInt_eq_hi_lo a, toInt_eq_hi_lo b]
  split_ifs <;> omega

end Compare

/-! ## Halves of a word

`HHALF`, `LHALF` and `LHUP` of longlong.h cut a word into two 16-bit halves,
the digits of the multiplication and the division. -/

/-- `HHALF(x)`: the high half of a word. -/
def hhalf (x : BitVec 32) : BitVec 32 := x >>> 16

/-- `LHALF(x)`: the low half of a word. -/
def lhalf (x : BitVec 32) : BitVec 32 := x &&& 0xffff

/-- `LHUP(x)`: the low half of a word moved up. -/
def lhup (x : BitVec 32) : BitVec 32 := x <<< 16

@[simp]
theorem toNat_hhalf (x : BitVec 32) : (hhalf x).toNat = x.toNat / 2 ^ 16 := by
  simp [hhalf, Nat.shiftRight_eq_div_pow]

@[simp]
theorem toNat_lhalf (x : BitVec 32) : (lhalf x).toNat = x.toNat % 2 ^ 16 := by
  rw [lhalf, BitVec.toNat_and, show (0xffff : BitVec 32).toNat = 2 ^ 16 - 1 from rfl,
    Nat.and_two_pow_sub_one_eq_mod]

@[simp]
theorem toNat_lhup (x : BitVec 32) : (lhup x).toNat = x.toNat % 2 ^ 16 * 2 ^ 16 := by
  rw [lhup, BitVec.toNat_shiftLeft, Nat.shiftLeft_eq]
  omega

end Os161.Millicode
