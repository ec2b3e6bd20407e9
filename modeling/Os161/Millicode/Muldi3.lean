import Mathlib
import Os161.Millicode.Longlong

/-!
# Multiplication

`__muldi3` (muldi3.c) multiplies two long longs with three multiplications
of words where the schoolbook needs four (Knuth, vol. 2, 4.3.3): for
`u = 2^32 u₁ + u₀` and `v = 2^32 v₁ + v₀`,

  `u v = (2^64 + 2^32) u₁v₁ + 2^32 (u₁ - u₀)(v₀ - v₁) + (2^32 + 1) u₀v₀`,

and modulo `2^64` only `u₀v₀` is needed in full, which `__lmulq` computes with
the same identity on the 16-bit halves of two words. The middle term may be
negative: both functions keep its sign apart (`negmid`, `neg`) and multiply
the absolute differences.

* `lmulq_eq`: `__lmulq(u, v)` is the product of the words `u` and `v`, in
  full, with the carries and borrows of its middle terms done by hand;
* `muldi3_eq`: `__muldi3(a, b)` is `a * b` for every pair of long longs.
-/

namespace Os161.Millicode

/-- `__lmulq(u, v)`: the 64-bit product of two words, from the products of
    their halves `high`, `mid` and `low`. -/
def lmulq (u v : BitVec 32) : BitVec 64 :=
  let u1 := hhalf u
  let u0 := lhalf u
  let v1 := hhalf v
  let v0 := lhalf v
  let low := u0 * v0
  -- the small-number optimization
  if u1 = 0 ∧ v1 = 0 then low.setWidth 64
  else
    let (udiff, neg) := if u0 ≤ u1 then (u1 - u0, false) else (u0 - u1, true)
    let (vdiff, neg) := if v1 ≤ v0 then (v0 - v1, neg) else (v1 - v0, !neg)
    let mid := udiff * vdiff
    let high := u1 * v1
    -- prod = (high << 2N) + (high << N)
    let prodh := high + hhalf high
    let prodl := lhup high
    -- if (neg) prod -= mid << N; else prod += mid << N
    let (prodh, prodl) :=
      if neg then
        let was := prodl
        let prodl := prodl - lhup mid
        (prodh - (hhalf mid + if was < prodl then 1 else 0), prodl)
      else
        let was := prodl
        let prodl := prodl + lhup mid
        (prodh + (hhalf mid + if prodl < was then 1 else 0), prodl)
    -- prod += low << N
    let was := prodl
    let prodl := prodl + lhup low
    let prodh := prodh + (hhalf low + if prodl < was then 1 else 0)
    -- ... + low
    let prodl := prodl + low
    let prodh := if prodl < low then prodh + 1 else prodh
    ofHalves prodh prodl

/-- The product `prod` that `__muldi3` forms of the operands it has made
    nonnegative, `u` and `v` (the block between the two sign tests and the
    final negation). -/
def muldi3Prod (u v : BitVec 64) : BitVec 64 :=
  if hi u = 0 ∧ hi v = 0 then lmulq (lo u) (lo v)
  else
    let low := lmulq (lo u) (lo v)
    let (udiff, negmid) := if lo u ≤ hi u then (hi u - lo u, false) else (lo u - hi u, true)
    let (vdiff, negmid) := if hi v ≤ lo v then (lo v - hi v, negmid) else (hi v - lo v, !negmid)
    let mid := udiff * vdiff
    let high := hi u * hi v
    ofHalves (high + (if negmid then -mid else mid) + lo low + hi low) (lo low)

/-- `__muldi3(a, b)`: the product of the absolute values, negated when the
    signs differ (`negall`). -/
def muldi3 (a b : BitVec 64) : BitVec 64 :=
  let (u, negall) := if (0 : BitVec 64).sle a then (a, false) else (-a, true)
  let (v, negall) := if (0 : BitVec 64).sle b then (b, negall) else (-b, !negall)
  let prod := muldi3Prod u v
  if negall then -prod else prod

/-! ## The carries of `__lmulq` -/

section Carries

variable (h l x : BitVec 32)

/-- `was = prodl; prodl += LHUP(x); prodh += HHALF(x) + (prodl < was)` adds
    `x << N` to the long long `prodh:prodl`. -/
theorem ofHalves_add_shifted :
    ofHalves (h + (hhalf x + if l + lhup x < l then 1 else 0)) (l + lhup x) =
      ofHalves h l + ofHalves (hhalf x) (lhup x) := by
  rw [← ofHalves_add_carry, ← add_assoc]
  simp only [add_lt_left_iff l (lhup x)]

/-- `was = prodl; prodl -= LHUP(x); prodh -= HHALF(x) + (prodl > was)`
    subtracts `x << N` from `prodh:prodl`. -/
theorem ofHalves_sub_shifted :
    ofHalves (h - (hhalf x + if l < l - lhup x then 1 else 0)) (l - lhup x) =
      ofHalves h l - ofHalves (hhalf x) (lhup x) := by
  rw [← ofHalves_sub_borrow, sub_add_eq_sub_sub]

/-- `if ((prodl += low) < low) prodh++` adds the word `x` to `prodh:prodl`. -/
theorem ofHalves_add_word :
    ofHalves (if l + x < x then h + 1 else h) (l + x) = ofHalves h l + ofHalves 0 x := by
  rw [← ofHalves_add_carry, add_zero]
  split <;> simp

@[simp]
theorem toNat_ofHalves_shifted : (ofHalves (hhalf x) (lhup x)).toNat = x.toNat * 2 ^ 16 := by
  simp only [toNat_ofHalves, toNat_hhalf, toNat_lhup]
  omega

end Carries

/-! ## The product of two words -/

section Lmulq

variable (u v : BitVec 32)

/-- A half of a word times a half of a word fits in a word. -/
theorem toNat_mul_halves {x y : BitVec 32} (hx : x.toNat < 2 ^ 16) (hy : y.toNat < 2 ^ 16) :
    (x * y).toNat = x.toNat * y.toNat := by
  rw [BitVec.toNat_mul, Nat.mod_eq_of_lt]
  calc x.toNat * y.toNat < 2 ^ 16 * 2 ^ 16 := Nat.mul_lt_mul'' hx hy
    _ = 2 ^ 32 := by norm_num

/-- A word is its two halves. -/
theorem toNat_eq_halves (x : BitVec 32) : x.toNat = (hhalf x).toNat * 2 ^ 16 + (lhalf x).toNat := by
  simp only [toNat_hhalf, toNat_lhalf]
  omega

/-- The sum `__lmulq` forms, `(high << 2N) + (high << N) ± (mid << N) + (low << N) + low`,
    is the product when `high`, `low` and the signed `mid` are the products of
    the halves that Knuth's identity asks for. -/
theorem toNat_lmulq_sum {u1 u0 v1 v0 : ℕ} (hu1 : u1 < 2 ^ 16) (hu0 : u0 < 2 ^ 16)
    (hv1 : v1 < 2 ^ 16) (hv0 : v0 < 2 ^ 16) (high mid low : BitVec 32) (neg : Bool)
    (hhigh : high.toNat = u1 * v1) (hlow : low.toNat = u0 * v0)
    (hmid : (if neg then -(mid.toNat : ℤ) else mid.toNat) = ((u1 : ℤ) - u0) * ((v0 : ℤ) - v1)) :
    ((if neg then ofHalves (high + hhalf high) (lhup high) - ofHalves (hhalf mid) (lhup mid)
      else ofHalves (high + hhalf high) (lhup high) + ofHalves (hhalf mid) (lhup mid)) +
        ofHalves (hhalf low) (lhup low) + ofHalves 0 low).toNat =
      (u1 * 2 ^ 16 + u0) * (v1 * 2 ^ 16 + v0) := by
  have hH : u1 * v1 ≤ (2 ^ 16 - 1) * (2 ^ 16 - 1) := Nat.mul_le_mul (by omega) (by omega)
  have hL : u0 * v0 ≤ (2 ^ 16 - 1) * (2 ^ 16 - 1) := Nat.mul_le_mul (by omega) (by omega)
  have hM := mid.isLt
  have h0 : (0 : BitVec 32).toNat = 0 := rfl
  have hprod : (u1 * 2 ^ 16 + u0) * (v1 * 2 ^ 16 + v0) =
      u1 * v1 * 2 ^ 32 + (u1 * v0 + u0 * v1) * 2 ^ 16 + u0 * v0 := by ring
  have hlt : (u1 * 2 ^ 16 + u0) * (v1 * 2 ^ 16 + v0) < 2 ^ 32 * 2 ^ 32 :=
    Nat.mul_lt_mul'' (by omega) (by omega)
  have hA : (ofHalves (high + hhalf high) (lhup high)).toNat = u1 * v1 * (2 ^ 32 + 2 ^ 16) := by
    simp only [toNat_ofHalves, BitVec.toNat_add, toNat_hhalf, toNat_lhup, hhigh]
    omega
  have hmid' : ((u1 * v0 + u0 * v1 : ℕ) : ℤ) = u1 * v1 + u0 * v0 +
      (if neg then -(mid.toNat : ℤ) else mid.toNat) := by
    rw [hmid]
    push_cast
    ring
  rw [hprod] at hlt ⊢
  cases neg with
  | false =>
    simp only [Bool.false_eq_true, if_false] at hmid' ⊢
    simp only [BitVec.toNat_add, hA, toNat_ofHalves, toNat_hhalf, toNat_lhup, hlow, h0]
    omega
  | true =>
    simp only [if_true] at hmid' ⊢
    simp only [BitVec.toNat_add, BitVec.toNat_sub, hA, toNat_ofHalves, toNat_hhalf,
      toNat_lhup, hlow, h0]
    omega

/-- An absolute difference of halves, as `udiff` and `vdiff` are. -/
theorem toNat_sub_halves {x y : BitVec 32} (h : y ≤ x) (hx : x.toNat < 2 ^ 16) :
    (x - y).toNat < 2 ^ 16 ∧ ((x - y).toNat : ℤ) = x.toNat - y.toNat := by
  rw [BitVec.le_def] at h
  rw [BitVec.toNat_sub_of_le (BitVec.le_def.2 h)]
  constructor
  · omega
  · push_cast [h]
    ring

theorem lmulq_eq : (lmulq u v).toNat = u.toNat * v.toNat := by
  have hu1 : (hhalf u).toNat < 2 ^ 16 := by simp only [toNat_hhalf]; omega
  have hu0 : (lhalf u).toNat < 2 ^ 16 := by simp only [toNat_lhalf]; omega
  have hv1 : (hhalf v).toNat < 2 ^ 16 := by simp only [toNat_hhalf]; omega
  have hv0 : (lhalf v).toNat < 2 ^ 16 := by simp only [toNat_lhalf]; omega
  have hlow := toNat_mul_halves hu0 hv0
  have hhigh := toNat_mul_halves hu1 hv1
  rw [toNat_eq_halves u, toNat_eq_halves v, lmulq]
  by_cases hs : hhalf u = 0 ∧ hhalf v = 0
  · -- the small-number optimization: the product of the low halves
    have h0 : (0 : BitVec 32).toNat = 0 := rfl
    rw [if_pos hs, BitVec.toNat_setWidth, hlow, hs.1, hs.2, h0]
    simp only [Nat.zero_mul, Nat.zero_add]
    exact Nat.mod_eq_of_lt (by nlinarith)
  rw [if_neg hs]
  -- the four signs of `u₁ - u₀` and `v₀ - v₁`
  by_cases h1 : lhalf u ≤ hhalf u <;> by_cases h2 : hhalf v ≤ lhalf v
  · obtain ⟨hd1, hu⟩ := toNat_sub_halves h1 hu1
    obtain ⟨hd2, hv⟩ := toNat_sub_halves h2 hv0
    simp only [h1, h2, if_true, Bool.false_eq_true, if_false]
    rw [ofHalves_add_word, ofHalves_add_shifted, ofHalves_add_shifted]
    refine toNat_lmulq_sum hu1 hu0 hv1 hv0 _ _ _ false hhigh hlow ?_
    simp only [Bool.false_eq_true, if_false, toNat_mul_halves hd1 hd2]
    push_cast
    rw [hu, hv]
  · obtain ⟨hd1, hu⟩ := toNat_sub_halves h1 hu1
    obtain ⟨hd2, hv⟩ := toNat_sub_halves (BitVec.le_of_lt (BitVec.not_le.1 h2)) hv1
    simp only [h1, h2, if_true, if_false, Bool.not_false]
    rw [ofHalves_add_word, ofHalves_add_shifted, ofHalves_sub_shifted]
    refine toNat_lmulq_sum hu1 hu0 hv1 hv0 _ _ _ true hhigh hlow ?_
    simp only [if_true, toNat_mul_halves hd1 hd2]
    push_cast
    rw [hu, hv]
    ring
  · obtain ⟨hd1, hu⟩ := toNat_sub_halves (BitVec.le_of_lt (BitVec.not_le.1 h1)) hu0
    obtain ⟨hd2, hv⟩ := toNat_sub_halves h2 hv0
    simp only [h1, h2, if_true, if_false]
    rw [ofHalves_add_word, ofHalves_add_shifted, ofHalves_sub_shifted]
    refine toNat_lmulq_sum hu1 hu0 hv1 hv0 _ _ _ true hhigh hlow ?_
    simp only [if_true, toNat_mul_halves hd1 hd2]
    push_cast
    rw [hu, hv]
    ring
  · obtain ⟨hd1, hu⟩ := toNat_sub_halves (BitVec.le_of_lt (BitVec.not_le.1 h1)) hu0
    obtain ⟨hd2, hv⟩ := toNat_sub_halves (BitVec.le_of_lt (BitVec.not_le.1 h2)) hv1
    simp only [h1, h2, if_false, Bool.not_true, Bool.false_eq_true]
    rw [ofHalves_add_word, ofHalves_add_shifted, ofHalves_add_shifted]
    refine toNat_lmulq_sum hu1 hu0 hv1 hv0 _ _ _ false hhigh hlow ?_
    simp only [Bool.false_eq_true, if_false, toNat_mul_halves hd1 hd2]
    push_cast
    rw [hu, hv]
    ring

end Lmulq

/-! ## The product of two long longs -/

section Muldi3

variable (u v : BitVec 64)

/-- The low word of a product is the low word of the product of the low words. -/
theorem lo_mul {low : BitVec 64} (hlow : low.toNat = (lo u).toNat * (lo v).toNat) :
    lo (u * v) = lo low := by
  apply BitVec.eq_of_toNat_eq
  have hexp : u.toNat * v.toNat = ((hi u).toNat * (hi v).toNat * 2 ^ 32 +
      ((hi u).toNat * (lo v).toNat + (lo u).toNat * (hi v).toNat)) * 2 ^ 32 +
        (lo u).toNat * (lo v).toNat := by
    rw [toNat_eq_hi_lo u, toNat_eq_hi_lo v]
    ring
  simp only [toNat_lo, BitVec.toNat_mul, hlow, hexp]
  omega

/-- The high word of a product: the cross products of the words, and the
    carry out of the product of the low words. -/
theorem hi_mul {low : BitVec 64} (hlow : low.toNat = (lo u).toNat * (lo v).toNat) :
    hi (u * v) = hi u * lo v + lo u * hi v + hi low := by
  apply BitVec.eq_of_toNat_eq
  have hexp : u.toNat * v.toNat = ((hi u).toNat * (hi v).toNat * 2 ^ 32 +
      ((hi u).toNat * (lo v).toNat + (lo u).toNat * (hi v).toNat)) * 2 ^ 32 +
        (lo u).toNat * (lo v).toNat := by
    rw [toNat_eq_hi_lo u, toNat_eq_hi_lo v]
    ring
  have hL := (lo u).isLt
  have hL' := (lo v).isLt
  have hLL : (lo u).toNat * (lo v).toNat < 2 ^ 32 * 2 ^ 32 := Nat.mul_lt_mul'' hL hL'
  simp only [toNat_hi, BitVec.toNat_mul, BitVec.toNat_add, hlow, hexp]
  omega

/-- The words `__muldi3` assembles, `high + mid + low.ui[L] + low.ui[H]` over
    `low.ui[L]`, make the product when `mid` is `(u₁ - u₀)(v₀ - v₁)`. -/
theorem ofHalves_muldi3 (smid : BitVec 32) (hmid : smid = (hi u - lo u) * (lo v - hi v)) :
    ofHalves (hi u * hi v + smid + lo (lmulq (lo u) (lo v)) + hi (lmulq (lo u) (lo v)))
      (lo (lmulq (lo u) (lo v))) = u * v := by
  have hlow := lmulq_eq (lo u) (lo v)
  have hll : lo (lmulq (lo u) (lo v)) = lo u * lo v := by
    apply BitVec.eq_of_toNat_eq
    simp only [toNat_lo, hlow, BitVec.toNat_mul]
  apply eq_of_hi_lo
  · rw [hi_ofHalves, hi_mul u v hlow, hmid, hll]
    ring
  · rw [lo_ofHalves, lo_mul u v hlow]

theorem muldi3Prod_eq : muldi3Prod u v = u * v := by
  by_cases hs : hi u = 0 ∧ hi v = 0
  · -- both high words `0`: the product of the low words, in full
    rw [muldi3Prod, if_pos hs]
    apply BitVec.eq_of_toNat_eq
    have h0 : (0 : BitVec 32).toNat = 0 := rfl
    have hu : u.toNat = (lo u).toNat := by rw [toNat_eq_hi_lo u, hs.1, h0, Nat.zero_mul, Nat.zero_add]
    have hv : v.toNat = (lo v).toNat := by rw [toNat_eq_hi_lo v, hs.2, h0, Nat.zero_mul, Nat.zero_add]
    have hlt : (lo u).toNat * (lo v).toNat < 2 ^ 32 * 2 ^ 32 :=
      Nat.mul_lt_mul'' (lo u).isLt (lo v).isLt
    rw [lmulq_eq, BitVec.toNat_mul, hu, hv, Nat.mod_eq_of_lt (by omega)]
  · -- the four signs of `u₁ - u₀` and `v₀ - v₁`
    rw [muldi3Prod, if_neg hs]
    by_cases h1 : lo u ≤ hi u <;> by_cases h2 : hi v ≤ lo v <;>
      simp only [h1, h2, if_true, if_false, Bool.not_false, Bool.not_true, Bool.false_eq_true] <;>
      exact ofHalves_muldi3 u v _ (by ring)

/-- Whatever the signs, the product of the absolute values, negated when the
    signs differ, is the product. -/
theorem muldi3_eq (a b : BitVec 64) : muldi3 a b = a * b := by
  rw [muldi3]
  by_cases ha : (0 : BitVec 64).sle a <;> by_cases hb : (0 : BitVec 64).sle b <;>
    simp only [ha, hb, if_true, if_false, Bool.not_false, Bool.not_true, Bool.false_eq_true,
      muldi3Prod_eq] <;>
    ring

end Muldi3

end Os161.Millicode
