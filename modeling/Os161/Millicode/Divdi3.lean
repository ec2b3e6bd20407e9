import Mathlib
import Os161.Millicode.Qdivrem

/-!
# The four divisions

`__udivdi3` and `__umoddi3` take the quotient and the remainder of
`__qdivrem`; `__divdi3` and `__moddi3` divide the magnitudes of signed
operands with it and put the sign back. All four trap on a divisor of `0`,
through `__qdivrem`.

* `udivdi3_eq`, `umoddi3_eq`: unsigned division and remainder;
* `divdi3_eq`, `moddi3_eq`: signed division and remainder, truncated toward
  zero as C has them: the quotient negated when exactly one operand is
  negative, the remainder with the sign of the dividend.
-/

namespace Os161.Millicode

/-- `__udivdi3(a, b)`: `__qdivrem(a, b, NULL)`. -/
def udivdi3 (a b : BitVec 64) : Option (BitVec 64) := (qdivrem a b).map Prod.fst

/-- `__umoddi3(a, b)`: the remainder `__qdivrem(a, b, &r)` stores. -/
def umoddi3 (a b : BitVec 64) : Option (BitVec 64) := (qdivrem a b).map Prod.snd

/-- `__divdi3(a, b)`: `ua = -ua, neg ^= 1` for `a < 0`, the same for `b`, and
    `uq = -uq` if `neg`. -/
def divdi3 (a b : BitVec 64) : Option (BitVec 64) :=
  let ua := if a.slt 0 then -a else a
  let ub := if b.slt 0 then -b else b
  let neg := xor (a.slt 0) (b.slt 0)
  (qdivrem ua ub).map fun r => if neg then -r.1 else r.1

/-- `__moddi3(a, b)`: as `__divdi3`, but only `a < 0` sets `neg`, and the
    remainder is negated. -/
def moddi3 (a b : BitVec 64) : Option (BitVec 64) :=
  let ua := if a.slt 0 then -a else a
  let ub := if b.slt 0 then -b else b
  let neg := a.slt 0
  (qdivrem ua ub).map fun r => if neg then -r.2 else r.2

/-- `a < 0` for a `long long` is its sign bit. -/
theorem slt_zero_eq_msb (a : BitVec 64) : a.slt 0 = a.msb := by
  rw [BitVec.slt_eq_decide]
  simp [BitVec.msb_eq_toInt]

theorem udivdi3_eq (a b : BitVec 64) : udivdi3 a b = if b = 0 then none else some (a / b) := by
  rw [udivdi3, qdivrem_eq]
  split_ifs <;> rfl

theorem umoddi3_eq (a b : BitVec 64) : umoddi3 a b = if b = 0 then none else some (a % b) := by
  rw [umoddi3, qdivrem_eq]
  split_ifs <;> rfl

/-- The magnitude `ub` of the divisor is `0` exactly when the divisor is. -/
theorem magnitude_eq_zero_iff (b : BitVec 64) : (if b.msb then -b else b) = 0 ↔ b = 0 := by
  split_ifs <;> simp

/-- `__divdi3` is signed division, truncated toward zero. -/
theorem divdi3_eq (a b : BitVec 64) : divdi3 a b = if b = 0 then none else some (a.sdiv b) := by
  simp only [divdi3, slt_zero_eq_msb, qdivrem_eq, magnitude_eq_zero_iff]
  by_cases hb : b = 0
  · simp only [hb, if_true, Option.map_none]
  -- one case for each pair of signs, as `BitVec.sdiv` has them
  rw [if_neg hb, if_neg hb, Option.map_some, BitVec.sdiv]
  cases a.msb <;> cases b.msb <;> rfl

/-- `__moddi3` is the signed remainder, with the sign of the dividend. -/
theorem moddi3_eq (a b : BitVec 64) : moddi3 a b = if b = 0 then none else some (a.srem b) := by
  simp only [moddi3, slt_zero_eq_msb, qdivrem_eq, magnitude_eq_zero_iff]
  by_cases hb : b = 0
  · simp only [hb, if_true, Option.map_none]
  rw [if_neg hb, if_neg hb, Option.map_some, BitVec.srem]
  cases a.msb <;> cases b.msb <;> rfl

end Os161.Millicode
