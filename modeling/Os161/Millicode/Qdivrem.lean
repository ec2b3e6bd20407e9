import Mathlib
import Os161.Lib.Digits
import Os161.Millicode.Longlong

/-!
# Division

`__qdivrem(u, v, arq)` (qdivrem.c) divides two unsigned long longs by
Knuth's Algorithm D (vol. 2, 4.3.1) in the base `B = 2 ^ 16`, in which the
product of two digits and every two-digit number fit in an `unsigned int`.
The dividend has the digits `u[1..4]` (with `u[0] = 0` above them), the
divisor `v[1..4]`; leading zero digits are skipped by moving the pointers `u`
and `v`, so that `v` has `n` digits and the quotient `m + 1`. A divisor of one
digit goes to a short division; otherwise, after shifting both left by `d`
bits (D1), each pass `j` (D2 to D7) estimates the quotient digit `qhat` from
the leading digits (D3), subtracts `qhat * v` from the digits `u[j..j+n]`
(D4) and adds `v` back if that went below zero (D5, D6). The remainder is
what is left, shifted back right by `d` bits.

Here a row of digits is a function `ℕ → Digit`, and a pointer into `uspace`,
`vspace` or `qspace` is an offset into it. `__udivdi3`, `__umoddi3`,
`__divdi3` and `__moddi3` are the four callers.
-/

namespace Os161.Millicode

/-- `digit`: an `unsigned short`, since `USHRT_MAX >= 0xffff`. -/
abbrev Digit := BitVec 16

/-- `B`, the base of the digits: `(int)1 << HALF_BITS`. -/
def base : BitVec 32 := 0x10000

/-- `COMBINE(a, b)`: the two-digit number `a b`, with `a` as an
    `unsigned int`. -/
def combine (a : BitVec 32) (b : Digit) : BitVec 32 := (a <<< 16) ||| b.setWidth 32

/-- The digits of a long long, most significant first, at `1 .. 4` of a
    row: `u[1] = (digit)HHALF(tmp.ui[H])` down to `u[4] = (digit)LHALF(tmp.ui[L])`.
    Elsewhere `0`: `u[0] = 0` is set, and `vspace[0]` is never read. -/
def digitsOf (x : BitVec 64) : ℕ → Digit
  | 1 => (hhalf (hi x)).setWidth 16
  | 2 => (lhalf (hi x)).setWidth 16
  | 3 => (hhalf (lo x)).setWidth 16
  | 4 => (lhalf (lo x)).setWidth 16
  | _ => 0

/-- Exercise 16's short division of `u[1..4]` by the one digit `t`, unrolled:
    the quotient `COMBINE(q1, q2):COMBINE(q3, q4)` and the remainder
    `rbj % t`. -/
def shortDiv (u : ℕ → Digit) (t : BitVec 32) : BitVec 64 × BitVec 64 :=
  let q1 := ((u 1).setWidth 32 / t).setWidth 16
  let rbj := combine ((u 1).setWidth 32 % t) (u 2)
  let q2 := (rbj / t).setWidth 16
  let rbj := combine (rbj % t) (u 3)
  let q3 := (rbj / t).setWidth 16
  let rbj := combine (rbj % t) (u 4)
  let q4 := (rbj / t).setWidth 16
  (ofHalves (combine (q1.setWidth 32) q2) (combine (q3.setWidth 32) q4), (rbj % t).setWidth 64)

/-- Where the loop `for (n = 4; v[1] == 0; v++) if (--n == 1) ...` leaves. -/
inductive VScan
  /-- `--n == 1` with `v` at the offset `o`: the divisor is the one digit `v[2]`. -/
  | short (o : ℕ)
  /-- `v[1] != 0` with `v` at the offset `o`: the divisor has `n` digits. -/
  | long (n o : ℕ)
  deriving DecidableEq

/-- `for (n = 4; v[1] == 0; v++) if (--n == 1) ...`, from `n` and the offset
    `o` of `v`. -/
def scanV (vs : ℕ → Digit) : ℕ → ℕ → VScan
  | n + 1, o =>
    if vs (o + 1) = 0 then (if n = 1 then .short o else scanV vs n (o + 1)) else .long (n + 1) o
  -- not reached: `n` starts at 4 and the loop leaves when it reaches 1
  | 0, o => .long 0 o

/-- `for (m = 4 - n; u[1] == 0; u++) m--;`, from `m` and the offset `o` of
    `u`. As `ull >= vll`, `u` has no more leading zero digits than `v`, and
    the loop has left by the time `m` reaches `0`. -/
def scanU (us : ℕ → Digit) : ℕ → ℕ → ℕ × ℕ
  | m + 1, o => if us (o + 1) = 0 then scanU us m (o + 1) else (m + 1, o)
  | 0, o => (0, o)

/-- `for (i = k; --i >= 0;) q[i] = 0;`. -/
def zeroDigits (qs : ℕ → Digit) : ℕ → ℕ → Digit
  | 0 => qs
  | i + 1 => zeroDigits (Function.update qs i 0) i

/-- D1: `for (t = v[1]; t < B / 2; t <<= 1) d++;`, within `k` doublings. A
    digit that is not `0` is at least `B / 2` after fewer than `HALF_BITS`. -/
def normShift : ℕ → BitVec 32 → ℕ
  | 0, _ => 0
  | k + 1, t => if t < base / 2 then normShift k (t <<< 1) + 1 else 0

/-- The loop of `shl(p, len, sh)` from `i`, `k` more passes:
    `p[i] = LHALF(p[i] << sh) | (p[i + 1] >> (HALF_BITS - sh))`, and at the
    end `p[len] = LHALF(p[len] << sh)`. -/
def shlLoop (sh p : ℕ) : ℕ → ℕ → (ℕ → Digit) → ℕ → Digit
  | 0, i, a => Function.update a (p + i) ((lhalf ((a (p + i)).setWidth 32 <<< sh)).setWidth 16)
  | k + 1, i, a =>
    shlLoop sh p k (i + 1) (Function.update a (p + i)
      ((lhalf ((a (p + i)).setWidth 32 <<< sh) ||| (a (p + i + 1)).setWidth 32 >>> (16 - sh)).setWidth 16))

/-- `shl(p, len, sh)`: the `len + 1` digits from `p` shifted left by `sh`
    bits, those that fall out of `p[0]` lost. -/
def shl (a : ℕ → Digit) (p len sh : ℕ) : ℕ → Digit := shlLoop sh p len 0 a

/-- A failing test of D3, `v2 * qhat > COMBINE(rhat, uj2)`, needs `qhat != 0`. -/
theorem ne_zero_of_combine_lt {r : BitVec 32} {x v2 : Digit} {q : BitVec 32}
    (h : combine r x < v2.setWidth 32 * q) : q ≠ 0 := by
  rintro rfl
  simp at h

set_option linter.unusedVariables false in
/-- D3 from the label `qhat_too_big`: `qhat--; if ((rhat += v1) >= B) break;`,
    then the test of the `while`. Each pass lowers `qhat`, which the test
    keeps above `0`. -/
def qhatTooBig (v1 v2 uj2 : Digit) (qhat rhat : BitVec 32) (hq : qhat ≠ 0) : BitVec 32 :=
  let qhat' := qhat - 1
  let rhat' := rhat + v1.setWidth 32
  if base ≤ rhat' then qhat'
  else if h : combine rhat' uj2 < v2.setWidth 32 * qhat' then
    qhatTooBig v1 v2 uj2 qhat' rhat' (ne_zero_of_combine_lt h)
  else qhat'
termination_by qhat.toNat
decreasing_by
  have h0 : qhat.toNat ≠ 0 := fun h' => hq (BitVec.eq_of_toNat_eq (by simpa using h'))
  rw [BitVec.toNat_sub]
  simp
  omega

/-- D3: the estimate `qhat` of the quotient digit from `u[j]`, `u[j+1]`,
    `u[j+2]`, `v[1]` and `v[2]`. -/
def estimate (uj0 uj1 uj2 v1 v2 : Digit) : BitVec 32 :=
  if uj0 = v1 then qhatTooBig v1 v2 uj2 base (uj1.setWidth 32) (by decide)
  else
    let nn := combine (uj0.setWidth 32) uj1
    let qhat := nn / v1.setWidth 32
    let rhat := nn % v1.setWidth 32
    if h : combine rhat uj2 < v2.setWidth 32 * qhat then
      qhatTooBig v1 v2 uj2 qhat rhat (ne_zero_of_combine_lt h)
    else qhat

/-- The loop of D4, `for (t = 0, i = n; i > 0; i--)`, from `i` with the borrow
    `t`: `t = u[i + j] - v[i] * qhat - t; u[i + j] = LHALF(t);
    t = (B - HHALF(t)) & (B - 1);`, `u` and `v` at the offsets `uo` and `vo`. -/
def mulsub (vs : ℕ → Digit) (vo uo j : ℕ) (qhat : BitVec 32) :
    ℕ → (ℕ → Digit) → BitVec 32 → (ℕ → Digit) × BitVec 32
  | 0, us, t => (us, t)
  | i + 1, us, t =>
    let t := (us (uo + (i + 1 + j))).setWidth 32 - (vs (vo + (i + 1))).setWidth 32 * qhat - t
    mulsub vs vo uo j qhat i (Function.update us (uo + (i + 1 + j)) ((lhalf t).setWidth 16))
      ((base - hhalf t) &&& (base - 1))

/-- The loop of D6, `for (t = 0, i = n; i > 0; i--)`, from `i` with the carry
    `t`: `t += u[i + j] + v[i]; u[i + j] = LHALF(t); t = HHALF(t);`. -/
def addback (vs : ℕ → Digit) (vo uo j : ℕ) :
    ℕ → (ℕ → Digit) → BitVec 32 → (ℕ → Digit) × BitVec 32
  | 0, us, t => (us, t)
  | i + 1, us, t =>
    let t := t + ((us (uo + (i + 1 + j))).setWidth 32 + (vs (vo + (i + 1))).setWidth 32)
    addback vs vo uo j i (Function.update us (uo + (i + 1 + j)) ((lhalf t).setWidth 16)) (hhalf t)

/-- D3 to D6 at `j`: the digits after the pass, and `(digit)qhat`. -/
def divStep (vs : ℕ → Digit) (vo uo n j : ℕ) (us : ℕ → Digit) : (ℕ → Digit) × Digit :=
  let qhat := estimate (us (uo + j)) (us (uo + (j + 1))) (us (uo + (j + 2)))
    (vs (vo + 1)) (vs (vo + 2))
  -- D4: multiply and subtract
  let (us, t) := mulsub vs vo uo j qhat n us 0
  let t := (us (uo + j)).setWidth 32 - t
  let us := Function.update us (uo + j) ((lhalf t).setWidth 16)
  -- D5: a borrow out of `u[j]` means `qhat` was one too large; D6: add back
  if hhalf t ≠ 0 then
    let qhat := qhat - 1
    let (us, t) := addback vs vo uo j n us 0
    (Function.update us (uo + j) ((lhalf ((us (uo + j)).setWidth 32 + t)).setWidth 16),
      qhat.setWidth 16)
  else (us, qhat.setWidth 16)

/-- D7: `do { ... } while (++j <= m);` from `j`, `k` more passes, each storing
    `q[j]` at the offset `qo` of `q`. -/
def divLoop (vs : ℕ → Digit) (vo uo qo n : ℕ) :
    ℕ → ℕ → (ℕ → Digit) → (ℕ → Digit) → (ℕ → Digit) × (ℕ → Digit)
  | 0, _, us, qs => (us, qs)
  | k + 1, j, us, qs =>
    let (us, qd) := divStep vs vo uo n j us
    divLoop vs vo uo qo n k (j + 1) us (Function.update qs (qo + j) qd)

/-- The remainder shifted back: `for (i = m + n; i > m; --i)
    u[i] = (u[i] >> d) | LHALF(u[i - 1] << (HALF_BITS - d)); u[i] = 0;`,
    from `i`, `k` more passes. -/
def unshift (d uo : ℕ) : ℕ → ℕ → (ℕ → Digit) → ℕ → Digit
  | 0, i, us => Function.update us (uo + i) 0
  | k + 1, i, us =>
    unshift d uo k (i - 1) (Function.update us (uo + i)
      ((((us (uo + i)).setWidth 32 >>> d) ||| lhalf ((us (uo + i - 1)).setWidth 32 <<< (16 - d))).setWidth 16))

/-- `__qdivrem(ull, vll, arq)`: the quotient, and the remainder it stores
    through `arq`. Dividing by `0` computes `1 / zero`, which traps: `none`. -/
def qdivrem (ull vll : BitVec 64) : Option (BitVec 64 × BitVec 64) :=
  if vll = 0 then none
  else if ull < vll then some (0, ull)
  else
    let us := digitsOf ull
    let vs := digitsOf vll
    match scanV vs 4 0 with
    | .short o => some (shortDiv us ((vs (o + 2)).setWidth 32))
    | .long n vo =>
      let (m, uo) := scanU us (4 - n) 0
      -- `qspace` before the loop clears it: its digits from `4 - m` on are
      -- all stored by the passes
      let qs := zeroDigits (fun _ => 0) (4 - m)
      let qo := 4 - m
      let d := normShift 16 ((vs (vo + 1)).setWidth 32)
      let (us, vs) := if 0 < d then (shl us uo (m + n) d, shl vs (vo + 1) (n - 1) d) else (us, vs)
      let (us, qs) := divLoop vs vo uo qo n (m + 1) 0 us qs
      let us := if d ≠ 0 then unshift d uo n (m + n) us else us
      some (ofHalves (combine ((qs 1).setWidth 32) (qs 2)) (combine ((qs 3).setWidth 32) (qs 4)),
        ofHalves (combine ((us 1).setWidth 32) (us 2)) (combine ((us 3).setWidth 32) (us 4)))

/-! ## Digits and words -/

section Words

@[simp]
theorem toNat_setWidth_digit (d : Digit) : (d.setWidth 32).toNat = d.toNat := by
  have := d.isLt
  rw [BitVec.toNat_setWidth]
  omega

@[simp]
theorem toNat_base : base.toNat = 2 ^ 16 := rfl

@[simp]
theorem toNat_zero_digit : (0 : Digit).toNat = 0 := rfl

@[simp]
theorem toNat_lhalf_digit (x : BitVec 32) : ((lhalf x).setWidth 16).toNat = x.toNat % 2 ^ 16 := by
  rw [BitVec.toNat_setWidth, toNat_lhalf]
  omega

theorem toNat_combine {a : BitVec 32} (b : Digit) (ha : a.toNat < 2 ^ 16) :
    (combine a b).toNat = a.toNat * 2 ^ 16 + b.toNat := by
  have hb := b.isLt
  rw [combine, BitVec.toNat_or, BitVec.toNat_shiftLeft, toNat_setWidth_digit,
    Nat.mod_eq_of_lt (by rw [Nat.shiftLeft_eq]; omega), ← Nat.shiftLeft_add_eq_or_of_lt hb,
    Nat.shiftLeft_eq]

/-- A digit of a word below `2 ^ 16` is the word. -/
theorem toNat_setWidth16 {x : BitVec 32} (hx : x.toNat < 2 ^ 16) : (x.setWidth 16).toNat = x.toNat := by
  rw [BitVec.toNat_setWidth]
  omega

end Words

/-- The number in the `n` digits of a row from `s`, most significant first. -/
def rowVal (a : ℕ → Digit) (s n : ℕ) : ℕ := Digits.val (2 ^ 16) (fun i => (a i).toNat) s n

section Rows

variable {a b : ℕ → Digit} {s n : ℕ}

theorem rowVal_lt (a : ℕ → Digit) (s n : ℕ) : rowVal a s n < (2 ^ 16) ^ n :=
  Digits.val_lt fun i _ => (a (s + i)).isLt

theorem rowVal_congr (h : ∀ i < n, a (s + i) = b (s + i)) : rowVal a s n = rowVal b s n :=
  Digits.val_congr fun i hi => by rw [h i hi]

/-- A row changed outside a window has the same number in it. -/
theorem rowVal_eq_of_frame (h : ∀ x, s ≤ x → x < s + n → b x = a x) : rowVal b s n = rowVal a s n :=
  rowVal_congr fun i hi => h (s + i) (by omega) (by omega)

theorem rowVal_update_of_notMem {i : ℕ} (hi : i < s ∨ s + n ≤ i) (d : Digit) :
    rowVal (Function.update a i d) s n = rowVal a s n :=
  rowVal_eq_of_frame fun x hx hx' => Function.update_of_ne (by omega) _ _

@[simp]
theorem rowVal_zero : rowVal a s 0 = 0 := rfl

theorem rowVal_succ : rowVal a s (n + 1) = rowVal a s n * 2 ^ 16 + (a (s + n)).toNat := rfl

theorem rowVal_succ' : rowVal a s (n + 1) = (a s).toNat * (2 ^ 16) ^ n + rowVal a (s + 1) n :=
  Digits.val_succ'

theorem rowVal_add {k : ℕ} : rowVal a s (n + k) = rowVal a s n * (2 ^ 16) ^ k + rowVal a (s + n) k :=
  Digits.val_add

theorem rowVal_eq_zero (h : ∀ i < n, a (s + i) = 0) : rowVal a s n = 0 :=
  Digits.val_eq_zero fun i hi => by simp [h i hi]

/-- A window of `k + n` digits below `B ^ n` has `k` leading zeros. -/
theorem rowVal_low_of_lt {k : ℕ} (h : rowVal a s (k + n) < (2 ^ 16) ^ n) :
    (∀ i < k, a (s + i) = 0) ∧ rowVal a (s + k) n = rowVal a s (k + n) := by
  have hz : ∀ i < k, a (s + i) = 0 := fun i hi =>
    BitVec.eq_of_toNat_eq (Digits.lead_eq_zero (a := fun i => (a i).toNat) (by norm_num) h hi)
  refine ⟨hz, ?_⟩
  rw [rowVal_add, rowVal_eq_zero hz, Nat.zero_mul, Nat.zero_add]

/-- A window with a leading `0` is below `B ^ n`. -/
theorem rowVal_lt_of_lead_zero (h : a s = 0) : rowVal a s (n + 1) < (2 ^ 16) ^ n := by
  rw [rowVal_succ', h, toNat_zero_digit, Nat.zero_mul, Nat.zero_add]
  exact rowVal_lt _ _ _

/-- A window of `n + 1` digits below `B ^ n` has a leading `0`. -/
theorem rowVal_succ_of_lt (h : rowVal a s (n + 1) < (2 ^ 16) ^ n) :
    (a s).toNat = 0 ∧ rowVal a s (n + 1) = rowVal a (s + 1) n := by
  rw [rowVal_succ'] at h ⊢
  have hlead : (a s).toNat = 0 := by
    by_contra hne
    have : (2 ^ 16) ^ n ≤ (a s).toNat * (2 ^ 16) ^ n := Nat.le_mul_of_pos_left _ (Nat.pos_of_ne_zero hne)
    omega
  rw [hlead]
  exact ⟨rfl, by ring⟩

end Rows

theorem rowVal_digitsOf (x : BitVec 64) : rowVal (digitsOf x) 1 4 = x.toNat := by
  have hx := x.isLt
  simp only [rowVal, Digits.val, digitsOf, BitVec.toNat_setWidth, toNat_hhalf, toNat_lhalf,
    toNat_hi, toNat_lo]
  omega

/-! ## Short division -/

section ShortDiv

variable {t : BitVec 32}

/-- One step of the short division: `COMBINE` of a remainder and the next
    digit, divided by `t`, gives a digit of the quotient and the next
    remainder. -/
theorem combine_div_mod (r : BitVec 32) (x : Digit) (ht0 : 0 < t.toNat) (ht : t.toNat < 2 ^ 16)
    (hr : r.toNat < t.toNat) :
    ((combine r x / t).setWidth 16).toNat = (r.toNat * 2 ^ 16 + x.toNat) / t.toNat ∧
      (combine r x % t).toNat = (r.toNat * 2 ^ 16 + x.toNat) % t.toNat := by
  have hx := x.isLt
  have hc := toNat_combine x (show r.toNat < 2 ^ 16 by omega)
  have hq : (r.toNat * 2 ^ 16 + x.toNat) / t.toNat < 2 ^ 16 :=
    (Nat.div_lt_iff_lt_mul ht0).2 (by nlinarith)
  refine ⟨?_, by rw [BitVec.toNat_umod, hc]⟩
  rw [toNat_setWidth16 (by rw [BitVec.toNat_udiv, hc]; exact hq), BitVec.toNat_udiv, hc]

theorem shortDiv_spec (u : ℕ → Digit) (ht0 : 0 < t.toNat) (ht : t.toNat < 2 ^ 16) :
    (shortDiv u t).1.toNat = rowVal u 1 4 / t.toNat ∧
      (shortDiv u t).2.toNat = rowVal u 1 4 % t.toNat := by
  have hu1 := (u 1).isLt
  have hq1' : (u 1).toNat / t.toNat < 2 ^ 16 := lt_of_le_of_lt (Nat.div_le_self _ _) hu1
  have hq1 : ((((u 1).setWidth 32) / t).setWidth 16).toNat = (u 1).toNat / t.toNat := by
    rw [toNat_setWidth16 (by rw [BitVec.toNat_udiv, toNat_setWidth_digit]; exact hq1'),
      BitVec.toNat_udiv, toNat_setWidth_digit]
  -- each remainder is that of the number in the digits so far
  have hr1 : ((u 1).setWidth 32 % t).toNat = (u 1).toNat % t.toNat := by
    rw [BitVec.toNat_umod, toNat_setWidth_digit]
  let r1 := (u 1).setWidth 32 % t
  obtain ⟨hq2, hr2⟩ := combine_div_mod r1 (u 2) ht0 ht (by rw [hr1]; exact Nat.mod_lt _ ht0)
  rw [hr1] at hq2 hr2
  rw [← Digits.mod_step] at hr2
  let r2 := combine r1 (u 2) % t
  obtain ⟨hq3, hr3⟩ := combine_div_mod r2 (u 3) ht0 ht (by rw [hr2]; exact Nat.mod_lt _ ht0)
  rw [hr2] at hq3 hr3
  rw [← Digits.mod_step] at hr3
  let r3 := combine r2 (u 3) % t
  obtain ⟨hq4, hr4⟩ := combine_div_mod r3 (u 4) ht0 ht (by rw [hr3]; exact Nat.mod_lt _ ht0)
  rw [hr3] at hq4 hr4
  rw [← Digits.mod_step] at hr4
  have hval : rowVal u 1 4 =
      (((u 1).toNat * 2 ^ 16 + (u 2).toNat) * 2 ^ 16 + (u 3).toNat) * 2 ^ 16 + (u 4).toNat := by
    simp [rowVal, Digits.val]
  have hq3' := (BitVec.isLt ((combine r2 (u 3) / t).setWidth 16))
  have e2 := Digits.div_step (u 1).toNat (u 2).toNat (2 ^ 16) t.toNat ht0
  have e3 := Digits.div_step ((u 1).toNat * 2 ^ 16 + (u 2).toNat) (u 3).toNat (2 ^ 16) t.toNat ht0
  have e4 := Digits.div_step (((u 1).toNat * 2 ^ 16 + (u 2).toNat) * 2 ^ 16 + (u 3).toNat)
    (u 4).toNat (2 ^ 16) t.toNat ht0
  refine ⟨?_, ?_⟩
  · -- the quotient, a digit at a time
    simp only [shortDiv]
    rw [toNat_ofHalves, toNat_combine _ (by rw [toNat_setWidth_digit, hq1]; exact hq1'),
      toNat_combine _ (by rw [toNat_setWidth_digit]; exact hq3'), toNat_setWidth_digit,
      toNat_setWidth_digit, hq1, hq2, hq3, hq4, hval, e4, e3, e2]
    ring
  · simp only [shortDiv]
    rw [BitVec.toNat_setWidth, hr4, hval]
    exact Nat.mod_eq_of_lt (lt_trans (Nat.mod_lt _ ht0) (by omega))

end ShortDiv

/-! ## Skipping leading zeros, clearing the quotient, the shift `d` -/

section Scan

variable {vs us : ℕ → Digit}

/-- The loop over `v` stops at a one-digit divisor after skipping zero digits
    only. -/
theorem scanV_short {n o o' : ℕ} (h : scanV vs n o = .short o') :
    ∃ k, o' = o + k ∧ n = k + 2 ∧ ∀ i ≤ k, vs (o + i + 1) = 0 := by
  induction n generalizing o with
  | zero => simp [scanV] at h
  | succ n ih =>
    rw [scanV] at h
    split_ifs at h with h0 h1
    · cases h
      exact ⟨0, rfl, by omega, fun i hi => by rw [show i = 0 by omega]; exact h0⟩
    · obtain ⟨k, rfl, hn, hz⟩ := ih h
      refine ⟨k + 1, by omega, by omega, fun i hi => ?_⟩
      rcases Nat.eq_zero_or_pos i with rfl | hpos
      · exact h0
      · have := hz (i - 1) (by omega)
        rwa [show o + 1 + (i - 1) + 1 = o + i + 1 by omega] at this

/-- The loop over `v` stops at a divisor of at least two digits, after
    skipping zero digits only. -/
theorem scanV_long {n o n' o' : ℕ} (h : scanV vs n o = .long n' o') (hn : 2 ≤ n) :
    n' + o' = n + o ∧ 2 ≤ n' ∧ vs (o' + 1) ≠ 0 ∧ ∀ i, o ≤ i → i < o' → vs (i + 1) = 0 := by
  induction n generalizing o with
  | zero => omega
  | succ n ih =>
    rw [scanV] at h
    split_ifs at h with h0 h1
    · obtain ⟨hsum, h2, hne, hz⟩ := ih h (by omega)
      refine ⟨by omega, h2, hne, fun i hi hi' => ?_⟩
      rcases Nat.eq_or_lt_of_le hi with rfl | hlt
      · exact h0
      · exact hz i (by omega) hi'
    · cases h
      exact ⟨rfl, hn, h0, fun i hi hi' => by omega⟩

/-- The loop over `u` skips zero digits only. -/
theorem scanU_spec {m o m' o' : ℕ} (h : scanU us m o = (m', o')) :
    m' + o' = m + o ∧ o ≤ o' ∧ ∀ i, o ≤ i → i < o' → us (i + 1) = 0 := by
  induction m generalizing o with
  | zero =>
    rw [scanU] at h
    cases h
    exact ⟨rfl, le_rfl, fun i hi hi' => by omega⟩
  | succ m ih =>
    rw [scanU] at h
    split_ifs at h with h0
    · obtain ⟨hsum, hle, hz⟩ := ih h
      refine ⟨by omega, by omega, fun i hi hi' => ?_⟩
      rcases Nat.eq_or_lt_of_le hi with rfl | hlt
      · exact h0
      · exact hz i (by omega) hi'
    · cases h
      exact ⟨rfl, le_rfl, fun i hi hi' => by omega⟩

theorem zeroDigits_apply (qs : ℕ → Digit) (k i : ℕ) :
    zeroDigits qs k i = if i < k then 0 else qs i := by
  induction k generalizing qs with
  | zero => simp [zeroDigits]
  | succ k ih =>
    rw [zeroDigits, ih]
    by_cases hik : i < k
    · simp [hik, show i < k + 1 by omega]
    · by_cases hi : i = k
      · simp [hi]
      · simp [hik, hi, show ¬ i < k + 1 by omega]

/-- The shift of D1 never pushes a bit out of the leading digit of `v`, and
    is below `HALF_BITS` for a digit that is not `0`. -/
theorem normShift_spec (k : ℕ) {t : BitVec 32} (ht : t.toNat < 2 ^ 16) :
    t.toNat * 2 ^ normShift k t < 2 ^ 16 := by
  induction k generalizing t with
  | zero => simpa [normShift] using ht
  | succ k ih =>
    rw [normShift]
    split_ifs with hlt
    · have hlt' : t.toNat < 2 ^ 15 := by
        rw [BitVec.lt_def] at hlt
        simpa [base] using hlt
      have hdbl : (t <<< 1).toNat = t.toNat * 2 := by
        rw [BitVec.toNat_shiftLeft, Nat.shiftLeft_eq]
        omega
      have := ih (t := t <<< 1) (by omega)
      rw [hdbl] at this
      rw [pow_succ]
      linarith
    · simpa using ht

theorem normShift_lt (k : ℕ) {t : BitVec 32} (ht : t.toNat < 2 ^ 16) (ht0 : t.toNat ≠ 0) :
    normShift k t < 16 := by
  have h := normShift_spec k ht
  by_contra hge
  have : 2 ^ 16 ≤ 2 ^ normShift k t := Nat.pow_le_pow_right (by norm_num) (by omega)
  have : 2 ^ normShift k t ≤ t.toNat * 2 ^ normShift k t :=
    Nat.le_mul_of_pos_left _ (Nat.pos_of_ne_zero ht0)
  omega

end Scan

/-! ## D3: the estimate of a quotient digit -/

/-- What D3 sees of a pass: the three leading digits `uj0 uj1 uj2` of the
    window `W` and the two leading digits `v1 v2` of the divisor `V`, each
    followed by digits worth less than `P`; `v1` is not `0`, and the digits
    of `W` above its last are below `V`, so that `W < B * V`. -/
structure Lead (uj0 uj1 uj2 v1 v2 : Digit) (W V P : ℕ) : Prop where
  w_le : ((uj0.toNat * 2 ^ 16 + uj1.toNat) * 2 ^ 16 + uj2.toNat) * P ≤ W
  w_lt : W < ((uj0.toNat * 2 ^ 16 + uj1.toNat) * 2 ^ 16 + uj2.toNat + 1) * P
  v_le : (v1.toNat * 2 ^ 16 + v2.toNat) * P ≤ V
  v_lt : V < (v1.toNat * 2 ^ 16 + v2.toNat + 1) * P
  v1_pos : 0 < v1.toNat
  w_lt_v : W < 2 ^ 16 * V

section Estimate

variable {uj0 uj1 uj2 v1 v2 : Digit} {W V P : ℕ}

theorem toNat_pred {q : BitVec 32} (h : 0 < q.toNat) : (q - 1).toNat = q.toNat - 1 := by
  rw [BitVec.toNat_sub]
  simp
  omega

/-- The test of D3 on words is the test on numbers, as long as nothing
    overflows. -/
theorem combine_lt_iff {r q : BitVec 32} (x : Digit) (hr : r.toNat < 2 ^ 16) (hq : q.toNat ≤ 2 ^ 16) :
    combine r x < v2.setWidth 32 * q ↔ r.toNat * 2 ^ 16 + x.toNat < v2.toNat * q.toNat := by
  have hv2 := v2.isLt
  have hprod : v2.toNat * q.toNat < 2 ^ 32 :=
    calc v2.toNat * q.toNat ≤ (2 ^ 16 - 1) * 2 ^ 16 := Nat.mul_le_mul (by omega) hq
      _ < 2 ^ 32 := by norm_num
  rw [BitVec.lt_def, toNat_combine x hr, BitVec.toNat_mul, toNat_setWidth_digit,
    Nat.mod_eq_of_lt hprod]

namespace Lead

variable (hL : Lead uj0 uj1 uj2 v1 v2 W V P)
include hL

theorem P_pos : 0 < P := by
  rcases Nat.eq_zero_or_pos P with h | h
  · have := hL.w_lt
    simp [h] at this
  · exact h

theorem V_pos : 0 < V := by
  have := hL.v_le
  have := hL.v1_pos
  have := hL.P_pos
  nlinarith

/-- The quotient digit is a digit. -/
theorem div_lt : W / V < 2 ^ 16 := (Nat.div_lt_iff_lt_mul hL.V_pos).2 (by linarith [hL.w_lt_v])

/-- The leading digit of the window is at most that of the divisor. -/
theorem uj0_le : uj0.toNat ≤ v1.toNat := by
  have h1 := hL.w_le
  have h2 := hL.w_lt_v
  have h3 := hL.v_lt
  have hP := hL.P_pos
  have huj1 := uj1.isLt
  have huj2 := uj2.isLt
  have hv2 := v2.isLt
  by_contra hlt
  have hge : (v1.toNat + 1) * 2 ^ 32 ≤ (uj0.toNat * 2 ^ 16 + uj1.toNat) * 2 ^ 16 + uj2.toNat := by
    rw [not_le] at hlt
    nlinarith
  have : (v1.toNat + 1) * 2 ^ 32 * P < 2 ^ 16 * ((v1.toNat * 2 ^ 16 + v2.toNat + 1) * P) := by
    nlinarith
  nlinarith

/-- An estimate that fails the test is too large. -/
theorem div_lt_of_test {q : ℕ} {r : ℕ} (hqr : q * v1.toNat + r = uj0.toNat * 2 ^ 16 + uj1.toNat)
    (htest : r * 2 ^ 16 + uj2.toNat < v2.toNat * q) : W / V < q := by
  refine Digits.div_lt_of_lead hL.w_lt hL.v_le ?_
  nlinarith

/-- An estimate below `B` that passes the test, or that is left with
    `rhat >= B`, is at most one too large. -/
theorem le_div_succ_of_test {q : ℕ} {r : ℕ} (hqr : q * v1.toNat + r = uj0.toNat * 2 ^ 16 + uj1.toNat)
    (hq : q < 2 ^ 16) (htest : v2.toNat * q ≤ r * 2 ^ 16 + uj2.toNat) : q ≤ W / V + 1 := by
  refine Digits.le_div_succ_of_lead hL.V_pos hL.w_le hL.v_lt ?_ ?_
  · nlinarith
  · have := hL.v1_pos
    nlinarith

end Lead

/-- One pass from `qhat_too_big`: `qhat - 1` and `rhat + v1` keep
    `qhat * v1 + rhat` equal to the two leading digits of the window. -/
theorem qhatTooBig_pass {qhat rhat : BitVec 32} (qhat' rhat' : BitVec 32) (hq' : qhat' = qhat - 1)
    (hr' : rhat' = rhat + v1.setWidth 32) (hq0 : 0 < qhat.toNat)
    (hqr : qhat.toNat * v1.toNat + rhat.toNat = uj0.toNat * 2 ^ 16 + uj1.toNat)
    (hr : rhat.toNat < 2 ^ 16) :
    qhat'.toNat = qhat.toNat - 1 ∧ rhat'.toNat = rhat.toNat + v1.toNat ∧
      qhat'.toNat * v1.toNat + rhat'.toNat = uj0.toNat * 2 ^ 16 + uj1.toNat := by
  have hv1 := v1.isLt
  have hpred : qhat'.toNat = qhat.toNat - 1 := hq' ▸ toNat_pred hq0
  have hadd : rhat'.toNat = rhat.toNat + v1.toNat := by
    rw [hr', BitVec.toNat_add, toNat_setWidth_digit]
    omega
  refine ⟨hpred, hadd, ?_⟩
  rw [hpred, hadd]
  obtain ⟨k, hk⟩ : ∃ k, qhat.toNat = k + 1 := ⟨qhat.toNat - 1, by omega⟩
  rw [hk] at hqr ⊢
  simp only [Nat.add_sub_cancel]
  linarith

/-- From the label `qhat_too_big`, with `qhat` known to be too large, the
    estimate comes out at most one too large, and a digit. -/
theorem qhatTooBig_spec (hL : Lead uj0 uj1 uj2 v1 v2 W V P) (qhat rhat : BitVec 32) (hq : qhat ≠ 0)
    (hbig : W / V < qhat.toNat) (hqB : qhat.toNat ≤ 2 ^ 16)
    (hqr : qhat.toNat * v1.toNat + rhat.toNat = uj0.toNat * 2 ^ 16 + uj1.toNat)
    (hr : rhat.toNat < 2 ^ 16) :
    W / V ≤ (qhatTooBig v1 v2 uj2 qhat rhat hq).toNat ∧
      (qhatTooBig v1 v2 uj2 qhat rhat hq).toNat ≤ W / V + 1 ∧
      (qhatTooBig v1 v2 uj2 qhat rhat hq).toNat < 2 ^ 16 := by
  have hv2 := v2.isLt
  have huj2 := uj2.isLt
  induction qhat, rhat, hq using qhatTooBig.induct v1 v2 uj2 with
  | case1 qhat rhat hq rhat' hbase =>
    -- `rhat >= B`: the test is not made, `qhat - 1` is the estimate
    obtain ⟨hpred, hadd, hqr'⟩ :=
      qhatTooBig_pass (qhat - 1) rhat' rfl rfl (Nat.zero_lt_of_lt hbig) hqr hr
    have hB : 2 ^ 16 ≤ rhat'.toNat := BitVec.le_def.1 hbase
    rw [qhatTooBig, if_pos hbase]
    refine ⟨by omega, hL.le_div_succ_of_test hqr' (by omega) ?_, by omega⟩
    calc v2.toNat * (qhat - 1).toNat ≤ 2 ^ 16 * 2 ^ 16 := Nat.mul_le_mul (by omega) (by omega)
      _ ≤ rhat'.toNat * 2 ^ 16 := Nat.mul_le_mul_right _ hB
      _ ≤ _ := Nat.le_add_right _ _
  | case2 qhat rhat hq qhat' rhat' hbase htest ih =>
    -- the test fails again: `qhat - 1` is still too large
    obtain ⟨hpred, hadd, hqr'⟩ :=
      qhatTooBig_pass qhat' rhat' rfl rfl (Nat.zero_lt_of_lt hbig) hqr hr
    have hr' : rhat'.toNat < 2 ^ 16 := BitVec.lt_def.1 (BitVec.not_le.1 hbase)
    have htest' := (combine_lt_iff uj2 hr' (by omega)).1 htest
    have hres : qhatTooBig v1 v2 uj2 qhat rhat hq =
        qhatTooBig v1 v2 uj2 qhat' rhat' (ne_zero_of_combine_lt htest) := by
      rw [qhatTooBig, if_neg hbase, dif_pos htest]
    rw [hres]
    exact ih (hL.div_lt_of_test hqr' htest') (by omega) hqr' hr'
  | case3 qhat rhat hq qhat' rhat' hbase htest =>
    -- the test holds: `qhat - 1` is the estimate
    obtain ⟨hpred, hadd, hqr'⟩ :=
      qhatTooBig_pass qhat' rhat' rfl rfl (Nat.zero_lt_of_lt hbig) hqr hr
    have hr' : rhat'.toNat < 2 ^ 16 := BitVec.lt_def.1 (BitVec.not_le.1 hbase)
    have htest' := mt (combine_lt_iff uj2 hr' (by omega)).2 htest
    have hres : qhatTooBig v1 v2 uj2 qhat rhat hq = qhat' := by
      rw [qhatTooBig, if_neg hbase, dif_neg htest]
    rw [hres]
    exact ⟨by omega, hL.le_div_succ_of_test hqr' (by omega) (by omega), by omega⟩

/-- D3 estimates the quotient digit to within one above, as a digit. -/
theorem estimate_spec (hL : Lead uj0 uj1 uj2 v1 v2 W V P) :
    W / V ≤ (estimate uj0 uj1 uj2 v1 v2).toNat ∧
      (estimate uj0 uj1 uj2 v1 v2).toNat ≤ W / V + 1 ∧
      (estimate uj0 uj1 uj2 v1 v2).toNat < 2 ^ 16 := by
  have hu0 := uj0.isLt
  have hu1 := uj1.isLt
  have hv1 := hL.v1_pos
  unfold estimate
  split_ifs with h0
  · -- `uj0 == v1`: `qhat = B` is too large, straight to `qhat_too_big`
    subst h0
    exact qhatTooBig_spec hL base _ _ hL.div_lt le_rfl
      (by simp only [toNat_base, toNat_setWidth_digit]; ring) (by simpa only [toNat_setWidth_digit])
  have hlt : uj0.toNat < v1.toNat :=
    lt_of_le_of_ne hL.uj0_le fun h => h0 (BitVec.eq_of_toNat_eq h)
  have hnn : (combine (uj0.setWidth 32) uj1).toNat = uj0.toNat * 2 ^ 16 + uj1.toNat := by
    rw [toNat_combine uj1 (by simpa only [toNat_setWidth_digit]), toNat_setWidth_digit]
  have hq : (combine (uj0.setWidth 32) uj1 / v1.setWidth 32).toNat =
      (uj0.toNat * 2 ^ 16 + uj1.toNat) / v1.toNat := by
    rw [BitVec.toNat_udiv, hnn, toNat_setWidth_digit]
  have hr : (combine (uj0.setWidth 32) uj1 % v1.setWidth 32).toNat =
      (uj0.toNat * 2 ^ 16 + uj1.toNat) % v1.toNat := by
    rw [BitVec.toNat_umod, hnn, toNat_setWidth_digit]
  have hqB : (uj0.toNat * 2 ^ 16 + uj1.toNat) / v1.toNat < 2 ^ 16 :=
    (Nat.div_lt_iff_lt_mul hv1).2 (by nlinarith)
  have hqr := Nat.div_add_mod' (uj0.toNat * 2 ^ 16 + uj1.toNat) v1.toNat
  have hrB := Nat.mod_lt (uj0.toNat * 2 ^ 16 + uj1.toNat) hv1
  -- the estimate from the two leading digits of `W` is never too small
  have hle : W / V ≤ (uj0.toNat * 2 ^ 16 + uj1.toNat) / v1.toNat := by
    refine Digits.div_le_of_lead (P := 2 ^ 16 * P) hv1 ?_ ?_
    · have := hL.w_lt
      have := uj2.isLt
      nlinarith
    · have := hL.v_le
      nlinarith
  have htest_iff : combine (combine (uj0.setWidth 32) uj1 % v1.setWidth 32) uj2 <
      v2.setWidth 32 * (combine (uj0.setWidth 32) uj1 / v1.setWidth 32) ↔
      (uj0.toNat * 2 ^ 16 + uj1.toNat) % v1.toNat * 2 ^ 16 + uj2.toNat <
        v2.toNat * ((uj0.toNat * 2 ^ 16 + uj1.toNat) / v1.toNat) := by
    rw [combine_lt_iff uj2 (by rw [hr]; omega) (by rw [hq]; omega), hr, hq]
  dsimp only
  split_ifs with htest
  · -- the test fails: `qhat` is too large
    refine qhatTooBig_spec hL _ _ _ ?_ (by rw [hq]; omega)
      (by rw [hq, hr]; exact hqr) (by rw [hr]; omega)
    rw [hq]
    exact hL.div_lt_of_test hqr (htest_iff.1 htest)
  · -- the test holds: `qhat` is at most one too large
    rw [hq]
    exact ⟨hle, hL.le_div_succ_of_test hqr hqB (not_lt.1 (mt htest_iff.2 htest)), hqB⟩

end Estimate

/-! ## D4 and D6: multiply and subtract, add back -/

section Loops

variable (vs : ℕ → Digit) (vo uo j : ℕ)

/-- `(B - HHALF(t)) & (B - 1)` keeps the low half of `B - HHALF(t)`. -/
theorem borrow_eq (x : BitVec 32) :
    ((base - hhalf x) &&& (base - 1)).toNat = (2 ^ 32 - x.toNat / 2 ^ 16 + 2 ^ 16) % 2 ^ 32 % 2 ^ 16 := by
  have hmask : (base - hhalf x) &&& (base - 1) = lhalf (base - hhalf x) := rfl
  have hh := toNat_hhalf x
  have hx := x.isLt
  rw [hmask, toNat_lhalf, BitVec.toNat_sub, hh, toNat_base]

/-- One digit of D4: the new digit and the borrow out `b` of
    `t = u[i + j] - v[i] * qhat - t` satisfy `d + v * qhat + t = u + B * b`,
    for a digit `qhat` and a borrow in below `B`. -/
theorem mulsub_digit (u v : Digit) {q t : BitVec 32} (hq : q.toNat < 2 ^ 16) (ht : t.toNat < 2 ^ 16) :
    ((lhalf (u.setWidth 32 - v.setWidth 32 * q - t)).setWidth 16).toNat + v.toNat * q.toNat + t.toNat =
        u.toNat + 2 ^ 16 * ((base - hhalf (u.setWidth 32 - v.setWidth 32 * q - t)) &&& (base - 1)).toNat ∧
      ((base - hhalf (u.setWidth 32 - v.setWidth 32 * q - t)) &&& (base - 1)).toNat < 2 ^ 16 := by
  have hu := u.isLt
  have hv := v.isLt
  have hvq : v.toNat * q.toNat ≤ (2 ^ 16 - 1) * (2 ^ 16 - 1) := Nat.mul_le_mul (by omega) (by omega)
  rw [borrow_eq, toNat_lhalf_digit]
  simp only [BitVec.toNat_sub, BitVec.toNat_mul, toNat_setWidth_digit]
  -- the product is below `2 ^ 32`; the rest is arithmetic modulo `2 ^ 32`
  generalize v.toNat * q.toNat = p at hvq ⊢
  omega

/-- One digit of D6: `t += u[i + j] + v[i]` with a carry in of at most one
    gives a digit and a carry out of at most one. -/
theorem addback_digit (u v : Digit) {t : BitVec 32} (ht : t.toNat ≤ 1) :
    ((lhalf (t + (u.setWidth 32 + v.setWidth 32))).setWidth 16).toNat +
        2 ^ 16 * (hhalf (t + (u.setWidth 32 + v.setWidth 32))).toNat = t.toNat + u.toNat + v.toNat ∧
      (hhalf (t + (u.setWidth 32 + v.setWidth 32))).toNat ≤ 1 := by
  have hu := u.isLt
  have hv := v.isLt
  rw [toNat_lhalf_digit, toNat_hhalf]
  simp only [BitVec.toNat_add, toNat_setWidth_digit]
  omega

/-- D4 changes the digits `u[j + 1 .. j + i]` only. -/
theorem mulsub_frame (qhat : BitVec 32) (i : ℕ) (us : ℕ → Digit) (t : BitVec 32) {x : ℕ}
    (hx : x < uo + j + 1 ∨ uo + j + 1 + i ≤ x) : (mulsub vs vo uo j qhat i us t).1 x = us x := by
  induction i generalizing us t with
  | zero => rfl
  | succ i ih =>
    rw [mulsub, ih _ _ (by omega), Function.update_of_ne (by omega)]

/-- D4 over `i` digits: the digits out, `qhat` times the digits of `v` and the
    borrow in are the digits in and the borrow out at the weight `B ^ i`. -/
theorem mulsub_spec {qhat : BitVec 32} (hq : qhat.toNat < 2 ^ 16) (i : ℕ) (us : ℕ → Digit)
    {t : BitVec 32} (ht : t.toNat < 2 ^ 16) :
    rowVal (mulsub vs vo uo j qhat i us t).1 (uo + j + 1) i + qhat.toNat * rowVal vs (vo + 1) i +
        t.toNat = rowVal us (uo + j + 1) i + (2 ^ 16) ^ i * (mulsub vs vo uo j qhat i us t).2.toNat ∧
      (mulsub vs vo uo j qhat i us t).2.toNat < 2 ^ 16 := by
  induction i generalizing us t with
  | zero => simpa [mulsub] using ht
  | succ i ih =>
    have hpos : uo + (i + 1 + j) = uo + j + 1 + i := by omega
    have hvpos : vo + (i + 1) = vo + 1 + i := by omega
    obtain ⟨hdig, hb⟩ := mulsub_digit (us (uo + (i + 1 + j))) (vs (vo + (i + 1))) hq ht
    rw [hpos, hvpos] at hdig hb
    rw [mulsub, hpos, hvpos]
    -- the step: the new digit goes to `u[j + 1 + i]`, the borrow to the digits above
    set b := (base - hhalf ((us (uo + j + 1 + i)).setWidth 32 - (vs (vo + 1 + i)).setWidth 32 * qhat - t))
      &&& (base - 1)
    set d := (lhalf ((us (uo + j + 1 + i)).setWidth 32 - (vs (vo + 1 + i)).setWidth 32 * qhat - t)).setWidth 16
    obtain ⟨hrec, hlt⟩ := ih (Function.update us (uo + j + 1 + i) d) hb
    have hlast : (mulsub vs vo uo j qhat i (Function.update us (uo + j + 1 + i) d) b).1
        (uo + j + 1 + i) = d := by
      rw [mulsub_frame _ _ _ _ _ _ _ _ (by omega), Function.update_self]
    rw [rowVal_update_of_notMem (by omega)] at hrec
    refine ⟨?_, hlt⟩
    rw [rowVal_succ, rowVal_succ, rowVal_succ, hlast, pow_succ (2 ^ 16) i]
    linarith

/-- D6 changes the digits `u[j + 1 .. j + i]` only. -/
theorem addback_frame (i : ℕ) (us : ℕ → Digit) (t : BitVec 32) {x : ℕ}
    (hx : x < uo + j + 1 ∨ uo + j + 1 + i ≤ x) : (addback vs vo uo j i us t).1 x = us x := by
  induction i generalizing us t with
  | zero => rfl
  | succ i ih =>
    rw [addback, ih _ _ (by omega), Function.update_of_ne (by omega)]

/-- D6 over `i` digits: the digits out and the carry out at the weight
    `B ^ i` are the digits in, the digits of `v` and the carry in. -/
theorem addback_spec (i : ℕ) (us : ℕ → Digit) {t : BitVec 32} (ht : t.toNat ≤ 1) :
    rowVal (addback vs vo uo j i us t).1 (uo + j + 1) i + (2 ^ 16) ^ i * (addback vs vo uo j i us t).2.toNat =
        rowVal us (uo + j + 1) i + rowVal vs (vo + 1) i + t.toNat ∧
      (addback vs vo uo j i us t).2.toNat ≤ 1 := by
  induction i generalizing us t with
  | zero => simpa [addback] using ht
  | succ i ih =>
    have hpos : uo + (i + 1 + j) = uo + j + 1 + i := by omega
    have hvpos : vo + (i + 1) = vo + 1 + i := by omega
    obtain ⟨hdig, hc⟩ := addback_digit (us (uo + (i + 1 + j))) (vs (vo + (i + 1))) ht
    rw [hpos, hvpos] at hdig hc
    rw [addback, hpos, hvpos]
    set c := hhalf (t + ((us (uo + j + 1 + i)).setWidth 32 + (vs (vo + 1 + i)).setWidth 32))
    set d := (lhalf (t + ((us (uo + j + 1 + i)).setWidth 32 + (vs (vo + 1 + i)).setWidth 32))).setWidth 16
    obtain ⟨hrec, hle⟩ := ih (Function.update us (uo + j + 1 + i) d) hc
    have hlast : (addback vs vo uo j i (Function.update us (uo + j + 1 + i) d) c).1
        (uo + j + 1 + i) = d := by
      rw [addback_frame _ _ _ _ _ _ _ (by omega), Function.update_self]
    rw [rowVal_update_of_notMem (by omega)] at hrec
    refine ⟨?_, hle⟩
    rw [rowVal_succ, rowVal_succ, rowVal_succ, hlast, pow_succ (2 ^ 16) i]
    linarith

end Loops

/-! ## D3 to D6: one quotient digit -/

section Pass

variable {vs : ℕ → Digit} {vo uo j n : ℕ}

/-- D3 sees a window `u[j..j+n]` and the divisor `v[1..n]` through their
    leading digits, at the weight of `n - 2` digits. -/
theorem lead_of_rows {us : ℕ → Digit} (hn : 2 ≤ n) (hv1 : vs (vo + 1) ≠ 0)
    (htop : rowVal us (uo + j) n < rowVal vs (vo + 1) n) :
    Lead (us (uo + j)) (us (uo + (j + 1))) (us (uo + (j + 2))) (vs (vo + 1)) (vs (vo + 2))
      (rowVal us (uo + j) (n + 1)) (rowVal vs (vo + 1) n) ((2 ^ 16) ^ (n - 2)) := by
  obtain ⟨k, rfl⟩ : ∃ k, n = k + 2 := ⟨n - 2, by omega⟩
  have hW : rowVal us (uo + j) (k + 2 + 1) =
      (((us (uo + j)).toNat * 2 ^ 16 + (us (uo + (j + 1))).toNat) * 2 ^ 16 +
        (us (uo + (j + 2))).toNat) * (2 ^ 16) ^ k + rowVal us (uo + j + 3) k := by
    rw [show k + 2 + 1 = 3 + k by omega, rowVal_add]
    simp only [rowVal_succ, rowVal_zero, Nat.zero_mul, Nat.zero_add, Nat.add_zero, Nat.add_assoc]
  have hV : rowVal vs (vo + 1) (k + 2) =
      ((vs (vo + 1)).toNat * 2 ^ 16 + (vs (vo + 2)).toNat) * (2 ^ 16) ^ k + rowVal vs (vo + 1 + 2) k := by
    rw [show k + 2 = 2 + k by omega, rowVal_add]
    simp only [rowVal_succ, rowVal_zero, Nat.zero_mul, Nat.zero_add, Nat.add_zero, Nat.add_assoc]
  have hWr := rowVal_lt us (uo + j + 3) k
  have hVr := rowVal_lt vs (vo + 1 + 2) k
  have hlast := (us (uo + j + (k + 2))).isLt
  simp only [Nat.add_sub_cancel]
  refine ⟨by omega, by rw [hW]; linarith, by omega, by rw [hV]; linarith,
    Nat.pos_of_ne_zero fun h => hv1 (BitVec.eq_of_toNat_eq (by simpa using h)), ?_⟩
  -- the leading `n` digits of the window are below `v`
  rw [rowVal_succ]
  nlinarith

/-- The last step of D4, `t = u[j] - t; u[j] = LHALF(t)`: `HHALF(t)` is the
    borrow out of the window. -/
theorem top_borrow (u0 : Digit) {t : BitVec 32} (ht : t.toNat < 2 ^ 16) :
    (hhalf (u0.setWidth 32 - t) ≠ 0 ↔ u0.toNat < t.toNat) ∧
      ((lhalf (u0.setWidth 32 - t)).setWidth 16).toNat + t.toNat =
        u0.toNat + if u0.toNat < t.toNat then 2 ^ 16 else 0 := by
  have hu := u0.isLt
  have hh : hhalf (u0.setWidth 32 - t) ≠ 0 ↔ (hhalf (u0.setWidth 32 - t)).toNat ≠ 0 := by
    simp [BitVec.toNat_eq]
  rw [hh, toNat_hhalf, toNat_lhalf_digit, BitVec.toNat_sub, toNat_setWidth_digit]
  split_ifs <;> omega

/-- D3 to D6 leave the digits outside `u[j..j+n]` as they were. -/
theorem divStep_frame (us : ℕ → Digit) {x : ℕ} (hx : x < uo + j ∨ uo + j + n + 1 ≤ x) :
    (divStep vs vo uo n j us).1 x = us x := by
  simp only [divStep]
  set qhat := estimate (us (uo + j)) (us (uo + (j + 1))) (us (uo + (j + 2))) (vs (vo + 1)) (vs (vo + 2))
  rcases hm : mulsub vs vo uo j qhat n us 0 with ⟨us1, t1⟩
  have h1 : us1 x = us x := by
    rw [← mulsub_frame vs vo uo j qhat n us 0 (x := x) (by omega), hm]
  dsimp only
  set t := (us1 (uo + j)).setWidth 32 - t1
  split_ifs
  · -- D6 changes `u[j + 1 .. j + n]` again, and `u[j]`
    rcases ha : addback vs vo uo j n (Function.update us1 (uo + j) ((lhalf t).setWidth 16)) 0
      with ⟨us2, t2⟩
    have h2 := addback_frame vs vo uo j n (Function.update us1 (uo + j) ((lhalf t).setWidth 16)) 0
      (x := x) (by omega)
    rw [ha, Function.update_of_ne (by omega)] at h2
    dsimp only at h2 ⊢
    rw [Function.update_of_ne (by omega), h2, h1]
  · dsimp only
    rw [Function.update_of_ne (by omega), h1]

/-- D4 on the window `u[j..j+n]`, its last step into `u[j]` included: the
    window after it and `qhat * v` make the window before it, and `B ^ (n + 1)`
    when `HHALF(t)` says that it borrowed. -/
theorem mulsub_window {qhat : BitVec 32} (hq : qhat.toNat < 2 ^ 16) {us us1 : ℕ → Digit}
    {t1 : BitVec 32} (hm : mulsub vs vo uo j qhat n us 0 = (us1, t1)) :
    rowVal (Function.update us1 (uo + j) ((lhalf ((us1 (uo + j)).setWidth 32 - t1)).setWidth 16))
        (uo + j) (n + 1) + qhat.toNat * rowVal vs (vo + 1) n =
      rowVal us (uo + j) (n + 1) +
        if hhalf ((us1 (uo + j)).setWidth 32 - t1) ≠ 0 then (2 ^ 16) ^ (n + 1) else 0 := by
  obtain ⟨hsub, ht1⟩ := mulsub_spec vs vo uo j hq n us (t := 0) (by simp)
  rw [hm] at hsub ht1
  dsimp only at hsub ht1
  simp only [BitVec.ofNat_eq_ofNat, BitVec.toNat_ofNat, Nat.zero_mod, Nat.add_zero] at hsub
  have hu0 : us1 (uo + j) = us (uo + j) := by
    rw [← mulsub_frame vs vo uo j qhat n us 0 (x := uo + j) (by omega), hm]
  obtain ⟨hbiff, hd0⟩ := top_borrow (us1 (uo + j)) ht1
  simp only [hbiff]
  rw [rowVal_succ', rowVal_succ' (a := us), Function.update_self,
    rowVal_update_of_notMem (by omega), pow_succ (2 ^ 16) n]
  rw [hu0] at hd0 ⊢
  -- the borrow out of `u[j]` is worth `B ^ (n + 1)`
  have hscaled := congrArg (· * (2 ^ 16) ^ n) hd0
  simp only [Nat.add_mul] at hscaled
  split_ifs at hscaled ⊢ <;> linarith

/-- D6 on the window, with `u[j] = LHALF(u[j] + t)`: the window after it, and
    `B ^ (n + 1)` when the carry falls out of `u[j]`, make the window before it
    and `v`. -/
theorem addback_window {us us1 : ℕ → Digit} {c : BitVec 32} (ha : addback vs vo uo j n us 0 = (us1, c)) :
    rowVal (Function.update us1 (uo + j) ((lhalf ((us1 (uo + j)).setWidth 32 + c)).setWidth 16))
        (uo + j) (n + 1) + (if 2 ^ 16 ≤ (us (uo + j)).toNat + c.toNat then (2 ^ 16) ^ (n + 1) else 0) =
      rowVal us (uo + j) (n + 1) + rowVal vs (vo + 1) n := by
  obtain ⟨hadd, hc⟩ := addback_spec vs vo uo j n us (t := 0) (by simp)
  rw [ha] at hadd hc
  dsimp only at hadd hc
  simp only [BitVec.ofNat_eq_ofNat, BitVec.toNat_ofNat, Nat.zero_mod, Nat.add_zero] at hadd
  have hu0 : us1 (uo + j) = us (uo + j) := by
    rw [← addback_frame vs vo uo j n us 0 (x := uo + j) (by omega), ha]
  have hu := (us (uo + j)).isLt
  have hd : ((lhalf ((us1 (uo + j)).setWidth 32 + c)).setWidth 16).toNat =
      ((us (uo + j)).toNat + c.toNat) % 2 ^ 16 := by
    rw [toNat_lhalf_digit, BitVec.toNat_add, toNat_setWidth_digit, hu0]
    omega
  rw [rowVal_succ', rowVal_succ' (a := us), Function.update_self,
    rowVal_update_of_notMem (by omega), hd]
  -- `u[j] + t` is at most `B`: the digit is `0` exactly when it carries out
  split_ifs with hcarry
  · have h0 : ((us (uo + j)).toNat + c.toNat) % 2 ^ 16 = 0 := by omega
    have hB : (us (uo + j)).toNat + c.toNat = 2 ^ 16 := by omega
    rw [h0, pow_succ (2 ^ 16) n]
    have hscaled := congrArg (· * (2 ^ 16) ^ n) hB
    simp only [Nat.add_mul] at hscaled
    linarith
  · rw [Nat.mod_eq_of_lt (by omega)]
    linarith

/-- D3 to D6 at `j`: the digit stored is the quotient of the window
    `u[j..j+n]` by `v[1..n]`, and the window is left holding the remainder. -/
theorem divStep_spec (hn : 2 ≤ n) (us : ℕ → Digit) (hv1 : vs (vo + 1) ≠ 0)
    (htop : rowVal us (uo + j) n < rowVal vs (vo + 1) n) :
    rowVal (divStep vs vo uo n j us).1 (uo + j) (n + 1) =
        rowVal us (uo + j) (n + 1) % rowVal vs (vo + 1) n ∧
      (divStep vs vo uo n j us).2.toNat = rowVal us (uo + j) (n + 1) / rowVal vs (vo + 1) n := by
  have hL := lead_of_rows hn hv1 htop
  have hV0 := hL.V_pos
  obtain ⟨hqlo, hqhi, hqB⟩ := estimate_spec hL
  simp only [divStep]
  set W := rowVal us (uo + j) (n + 1) with hW
  set V := rowVal vs (vo + 1) n with hV
  set qhat := estimate (us (uo + j)) (us (uo + (j + 1))) (us (uo + (j + 2))) (vs (vo + 1)) (vs (vo + 2))
  have hdm := Nat.div_add_mod' W V
  have hmodlt := Nat.mod_lt W hV0
  rcases hm : mulsub vs vo uo j qhat n us 0 with ⟨us1, t1⟩
  have hsub := mulsub_window hqB hm
  rw [← hW, ← hV] at hsub
  dsimp only
  set t := (us1 (uo + j)).setWidth 32 - t1
  set us2 := Function.update us1 (uo + j) ((lhalf t).setWidth 16)
  have hW2 := rowVal_lt us2 (uo + j) (n + 1)
  split_ifs at hsub ⊢ with hb
  · -- D5: it borrowed, so `qhat` was one too large; D6 adds `v` back
    have hq1 : qhat.toNat = W / V + 1 := by
      have hlt : W < qhat.toNat * V := by linarith
      have := (Nat.div_lt_iff_lt_mul hV0).2 hlt
      omega
    have hqV : qhat.toNat * V = W / V * V + V := by rw [hq1]; ring
    rcases ha : addback vs vo uo j n us2 0 with ⟨us3, c⟩
    have hadd := addback_window ha
    rw [← hV] at hadd
    have hq0 : 0 < qhat.toNat := by rw [hq1]; exact Nat.succ_pos _
    dsimp only
    refine ⟨?_, ?_⟩
    · have hW4 := rowVal_lt (Function.update us3 (uo + j)
        ((lhalf ((us3 (uo + j)).setWidth 32 + c)).setWidth 16)) (uo + j) (n + 1)
      -- the carry out of `u[j]` cancels the borrow of D4: without it the
      -- window would be above `B ^ (n + 1)`
      split_ifs at hadd
      · linarith
      · exfalso
        linarith [Nat.zero_le (W % V)]
    · rw [toNat_setWidth16 (by rw [toNat_pred hq0]; omega), toNat_pred hq0, hq1,
        Nat.add_sub_cancel]
  · -- no borrow: `qhat` was right
    have hq : qhat.toNat = W / V := by
      have := (Nat.le_div_iff_mul_le hV0).2 (show qhat.toNat * V ≤ W by linarith)
      omega
    have hqV : qhat.toNat * V = W / V * V := by rw [hq]
    exact ⟨by linarith, by rw [toNat_setWidth16 hqB, hq]⟩

end Pass

/-! ## D7: the loop on `j` -/

section Loop

variable {vs : ℕ → Digit} {vo uo qo n : ℕ}

/-- The passes from `j` on leave the digits of `u` outside `u[j..j+n+k-1]`
    as they were. -/
theorem divLoop_frame_u (k j : ℕ) (us qs : ℕ → Digit) {x : ℕ}
    (hx : x < uo + j ∨ uo + j + n + k ≤ x) : (divLoop vs vo uo qo n k j us qs).1 x = us x := by
  induction k generalizing j us qs with
  | zero => rfl
  | succ k ih =>
    rw [divLoop, ih _ _ _ (by omega), divStep_frame _ (by omega)]

/-- The passes from `j` on store `q[j..j+k-1]` only. -/
theorem divLoop_frame_q (k j : ℕ) (us qs : ℕ → Digit) {x : ℕ}
    (hx : x < qo + j ∨ qo + j + k ≤ x) : (divLoop vs vo uo qo n k j us qs).2 x = qs x := by
  induction k generalizing j us qs with
  | zero => rfl
  | succ k ih =>
    rw [divLoop, ih _ _ _ (by omega), Function.update_of_ne (by omega)]

/-- D7: `k` passes from `j`, with the first `n` digits of the dividend
    `u[j..j+n+k-1]` below `v`, store its quotient by `v` in `q[j..j+k-1]` and
    leave its remainder in its place. -/
theorem divLoop_spec (hn : 2 ≤ n) (hv1 : vs (vo + 1) ≠ 0) (k j : ℕ) (us qs : ℕ → Digit)
    (htop : rowVal us (uo + j) n < rowVal vs (vo + 1) n) :
    rowVal (divLoop vs vo uo qo n k j us qs).1 (uo + j) (n + k) =
        rowVal us (uo + j) (n + k) % rowVal vs (vo + 1) n ∧
      rowVal (divLoop vs vo uo qo n k j us qs).2 (qo + j) k =
        rowVal us (uo + j) (n + k) / rowVal vs (vo + 1) n := by
  induction k generalizing j us qs with
  | zero => simp [divLoop, Nat.mod_eq_of_lt htop, Nat.div_eq_of_lt htop]
  | succ k ih =>
    set V := rowVal vs (vo + 1) n with hV
    have hV0 : 0 < V := by
      have := lead_of_rows hn hv1 htop
      exact this.V_pos
    obtain ⟨hrem, hquo⟩ := divStep_spec hn us hv1 htop
    rw [← hV] at hrem hquo
    rw [divLoop]
    set us1 := (divStep vs vo uo n j us).1
    set qd := (divStep vs vo uo n j us).2
    -- the pass leaves `u[j] = 0` and the remainder below it, so the next
    -- window again starts below `v`
    have hVlt : V < (2 ^ 16) ^ n := rowVal_lt vs (vo + 1) n
    obtain ⟨hzero, hshift⟩ := rowVal_succ_of_lt (a := us1) (s := uo + j) (n := n)
      (by rw [hrem]; exact lt_trans (Nat.mod_lt _ hV0) hVlt)
    have htop' : rowVal us1 (uo + (j + 1)) n < V := by
      rw [← Nat.add_assoc, ← hshift, hrem]
      exact Nat.mod_lt _ hV0
    obtain ⟨ih1, ih2⟩ := ih (j + 1) us1 (Function.update qs (qo + j) qd) htop'
    rw [← Nat.add_assoc] at ih1 ih2
    -- the digits below the window are untouched by the pass
    have hlow : rowVal us1 (uo + j + (n + 1)) k = rowVal us (uo + j + (n + 1)) k :=
      rowVal_eq_of_frame fun x hx _ => divStep_frame us (by omega)
    -- the dividend of the rest of the loop
    have hR1 : rowVal us1 (uo + j + 1) (n + k) =
        rowVal us (uo + j) (n + 1) % V * (2 ^ 16) ^ k + rowVal us (uo + j + (n + 1)) k := by
      have h1 : rowVal us1 (uo + j) (n + 1 + k) = rowVal us1 (uo + j + 1) (n + k) := by
        rw [show n + 1 + k = n + k + 1 by omega, rowVal_succ', hzero, Nat.zero_mul, Nat.zero_add]
      rw [← h1, rowVal_add, hrem, hlow]
    have hR : rowVal us (uo + j) (n + (k + 1)) =
        rowVal us1 (uo + j + 1) (n + k) + rowVal us (uo + j) (n + 1) / V * (2 ^ 16) ^ k * V := by
      rw [hR1, show n + (k + 1) = n + 1 + k by omega, rowVal_add (n := n + 1)]
      have hsplit := congrArg (· * (2 ^ 16) ^ k) (Nat.div_add_mod' (rowVal us (uo + j) (n + 1)) V)
      simp only [Nat.add_mul] at hsplit
      linarith
    have hfirst_u : (divLoop vs vo uo qo n k (j + 1) us1 (Function.update qs (qo + j) qd)).1 (uo + j) =
        us1 (uo + j) := divLoop_frame_u _ _ _ _ (by omega)
    have hfirst_q : (divLoop vs vo uo qo n k (j + 1) us1 (Function.update qs (qo + j) qd)).2 (qo + j) =
        qd := by
      rw [divLoop_frame_q _ _ _ _ (by omega), Function.update_self]
    refine ⟨?_, ?_⟩
    · rw [hR, Nat.add_mul_mod_self_right, show n + (k + 1) = n + k + 1 by omega, rowVal_succ',
        hfirst_u, hzero, Nat.zero_mul, Nat.zero_add, ih1]
    · rw [rowVal_succ', hfirst_q, hquo, ih2, hR, Nat.add_mul_div_right _ _ hV0]
      exact Nat.add_comm _ _

end Loop

/-! ## D1 and the remainder: shifting the digits -/

section Shift

/-- Bits that do not overlap: `|` is `+`. -/
theorem toNat_or_of_lt {x y : BitVec 32} {s : ℕ} (hx : x.toNat % 2 ^ s = 0) (hy : y.toNat < 2 ^ s) :
    (x ||| y).toNat = x.toNat + y.toNat := by
  have hsplit : x.toNat = (x.toNat / 2 ^ s) <<< s := by
    rw [Nat.shiftLeft_eq, Nat.div_mul_cancel (Nat.dvd_of_mod_eq_zero hx)]
  rw [BitVec.toNat_or, hsplit, ← Nat.shiftLeft_add_eq_or_of_lt hy]

/-- `LHALF((unsigned int)x << sh)` for a digit `x`. -/
theorem toNat_lhalf_shiftLeft (x : Digit) {sh : ℕ} (hsh : sh ≤ 16) :
    (lhalf (x.setWidth 32 <<< sh)).toNat = x.toNat * 2 ^ sh % 2 ^ 16 := by
  have hx := x.isLt
  have hlt : x.toNat * 2 ^ sh < 2 ^ 32 :=
    calc x.toNat * 2 ^ sh < 2 ^ 16 * 2 ^ 16 :=
          Nat.mul_lt_mul_of_lt_of_le hx (Nat.pow_le_pow_right (by norm_num) hsh) (by positivity)
      _ = 2 ^ 32 := by norm_num
  rw [toNat_lhalf, BitVec.toNat_shiftLeft, toNat_setWidth_digit, Nat.shiftLeft_eq, Nat.mod_eq_of_lt hlt]

/-- The low bits of a digit moved to the top: a multiple of `2 ^ sh`. -/
theorem mul_two_pow_mod (x : ℕ) {sh : ℕ} (hsh : sh ≤ 16) :
    x * 2 ^ sh % 2 ^ 16 = x % 2 ^ (16 - sh) * 2 ^ sh := by
  rw [show (2 : ℕ) ^ 16 = 2 ^ (16 - sh) * 2 ^ sh by rw [← pow_add, Nat.sub_add_cancel hsh],
    Nat.mul_mod_mul_right]

/-- One digit of `shl`: `LHALF(p[i] << sh) | (p[i + 1] >> (HALF_BITS - sh))`. -/
theorem shl_digit (u v : Digit) {sh : ℕ} (hsh : sh ≤ 16) :
    ((lhalf (u.setWidth 32 <<< sh) ||| v.setWidth 32 >>> (16 - sh)).setWidth 16).toNat =
      u.toNat * 2 ^ sh % 2 ^ 16 + v.toNat / 2 ^ (16 - sh) := by
  have hv := v.isLt
  have hlow : (v.setWidth 32 >>> (16 - sh)).toNat = v.toNat / 2 ^ (16 - sh) := by
    rw [BitVec.toNat_ushiftRight, toNat_setWidth_digit, Nat.shiftRight_eq_div_pow]
  have hsplit : (2 : ℕ) ^ 16 = 2 ^ (16 - sh) * 2 ^ sh := by rw [← pow_add, Nat.sub_add_cancel hsh]
  have hvlt : v.toNat / 2 ^ (16 - sh) < 2 ^ sh :=
    (Nat.div_lt_iff_lt_mul (by positivity)).2 (by rw [Nat.mul_comm, ← hsplit]; exact hv)
  have hor := toNat_or_of_lt (s := sh)
    (by rw [toNat_lhalf_shiftLeft u hsh, mul_two_pow_mod _ hsh, Nat.mul_mod_left])
    (by rw [hlow]; exact hvlt)
  have hhi : u.toNat % 2 ^ (16 - sh) * 2 ^ sh ≤ (2 ^ (16 - sh) - 1) * 2 ^ sh :=
    Nat.mul_le_mul_right _ (Nat.le_sub_one_of_lt (Nat.mod_lt _ (by positivity)))
  rw [BitVec.toNat_setWidth, hor, toNat_lhalf_shiftLeft u hsh, hlow]
  apply Nat.mod_eq_of_lt
  rw [mul_two_pow_mod _ hsh, hsplit]
  rw [Nat.sub_one_mul] at hhi
  have : 2 ^ sh ≤ 2 ^ (16 - sh) * 2 ^ sh := Nat.le_mul_of_pos_left _ (by positivity)
  omega

/-- One digit of the remainder's shift back:
    `(u[i] >> d) | LHALF(u[i - 1] << (HALF_BITS - d))`. -/
theorem unshift_digit (u w : Digit) {d : ℕ} (hd : d ≤ 16) :
    ((u.setWidth 32 >>> d ||| lhalf (w.setWidth 32 <<< (16 - d))).setWidth 16).toNat =
      u.toNat / 2 ^ d + w.toNat % 2 ^ d * 2 ^ (16 - d) := by
  have hu := u.isLt
  have hhigh : u.toNat / 2 ^ d < 2 ^ (16 - d) := by
    refine (Nat.div_lt_iff_lt_mul (by positivity)).2 ?_
    rwa [← pow_add, Nat.sub_add_cancel hd]
  have hw : (lhalf (w.setWidth 32 <<< (16 - d))).toNat = w.toNat % 2 ^ d * 2 ^ (16 - d) := by
    rw [toNat_lhalf_shiftLeft w (by omega), mul_two_pow_mod _ (by omega), Nat.sub_sub_self hd]
  have hlow : (u.setWidth 32 >>> d).toNat = u.toNat / 2 ^ d := by
    rw [BitVec.toNat_ushiftRight, toNat_setWidth_digit, Nat.shiftRight_eq_div_pow]
  have hor := toNat_or_of_lt (x := lhalf (w.setWidth 32 <<< (16 - d))) (s := 16 - d)
    (by rw [hw, Nat.mul_mod_left]) (by rw [hlow]; exact hhigh)
  have hlt : w.toNat % 2 ^ d * 2 ^ (16 - d) + u.toNat / 2 ^ d < 2 ^ 16 := by
    have hm : w.toNat % 2 ^ d * 2 ^ (16 - d) ≤ (2 ^ d - 1) * 2 ^ (16 - d) :=
      Nat.mul_le_mul_right _ (Nat.le_sub_one_of_lt (Nat.mod_lt _ (by positivity)))
    have hsplit : (2 : ℕ) ^ 16 = 2 ^ d * 2 ^ (16 - d) := by rw [← pow_add, Nat.add_sub_cancel' hd]
    rw [Nat.sub_one_mul] at hm
    have : 2 ^ (16 - d) ≤ 2 ^ d * 2 ^ (16 - d) := Nat.le_mul_of_pos_left _ (by positivity)
    omega
  rw [BitVec.or_comm, BitVec.toNat_setWidth, hor, hw, hlow, Nat.mod_eq_of_lt hlt, Nat.add_comm]

variable {sh p : ℕ}

/-- The loop of `shl` from `i`, `k` more passes: every digit from `p[i]` to
    `p[i + k]` is computed from the digits before the loop, since each pass
    reads `p[i + 1]` before it is written. -/
theorem shlLoop_apply (hsh : sh ≤ 16) (k i : ℕ) (a : ℕ → Digit) (x : ℕ) :
    (shlLoop sh p k i a x).toNat =
      if p + i ≤ x ∧ x < p + i + k then (a x).toNat * 2 ^ sh % 2 ^ 16 + (a (x + 1)).toNat / 2 ^ (16 - sh)
      else if x = p + i + k then (a x).toNat * 2 ^ sh % 2 ^ 16
      else (a x).toNat := by
  induction k generalizing i a with
  | zero =>
    rw [shlLoop, if_neg (by omega)]
    by_cases hx : x = p + i
    · subst hx
      rw [Function.update_self, if_pos (by omega), toNat_setWidth16 (by
        rw [toNat_lhalf_shiftLeft _ hsh]; exact Nat.mod_lt _ (by norm_num)), toNat_lhalf_shiftLeft _ hsh]
    · rw [Function.update_of_ne hx, if_neg (by omega)]
  | succ k ih =>
    rw [shlLoop, ih]
    by_cases hx : x = p + i
    · -- the pass at `i` itself
      subst hx
      rw [if_neg (by omega), if_neg (by omega), Function.update_self, shl_digit _ _ hsh,
        if_pos (by omega)]
    · -- a digit the later passes compute, from digits this pass leaves alone
      rw [Function.update_of_ne hx]
      by_cases h1 : p + (i + 1) ≤ x ∧ x < p + (i + 1) + k
      · rw [if_pos h1, if_pos (by omega), Function.update_of_ne (by omega)]
      · have h1' : ¬(p + i ≤ x ∧ x < p + i + (k + 1)) := by omega
        rw [if_neg h1, if_neg h1', show p + (i + 1) + k = p + i + (k + 1) by omega]

/-- `shl` changes the digits `p[0..len]` only. -/
theorem shl_frame (hsh : sh ≤ 16) (a : ℕ → Digit) (len : ℕ) {x : ℕ} (hx : x < p ∨ p + len < x) :
    shl a p len sh x = a x := by
  apply BitVec.eq_of_toNat_eq
  rw [shl, shlLoop_apply hsh, if_neg (by omega), if_neg (by omega)]

/-- `shl(p, len, sh)` shifts the number in `p[0..len]` left by `sh` bits; the
    bits of `p[0]` that fall out are lost. -/
theorem shl_spec (hsh : sh ≤ 16) (a : ℕ → Digit) (len : ℕ) :
    rowVal (shl a p len sh) p (len + 1) + (a p).toNat / 2 ^ (16 - sh) * (2 ^ 16) ^ (len + 1) =
      rowVal a p (len + 1) * 2 ^ sh := by
  have hmid := Digits.val_shiftLeft (o := p) (n := len) (a := fun i => (a i).toNat)
    (b := fun i => (shl a p len sh i).toNat) hsh fun i hi => by
      rw [shl, shlLoop_apply hsh, if_pos (by omega)]
  have hlast : (shl a p len sh (p + len)).toNat = (a (p + len)).toNat * 2 ^ sh % 2 ^ 16 := by
    rw [shl, shlLoop_apply hsh, if_neg (by omega), if_pos (by omega)]
  have hdigit := Digits.mul_two_pow_eq (a (p + len)).toNat hsh
  have hscaled := congrArg (· * 2 ^ 16) hmid
  simp only [Nat.add_mul] at hscaled
  rw [rowVal_succ, rowVal_succ, hlast, pow_succ (2 ^ 16) len]
  simp only [rowVal] at hscaled ⊢
  nlinarith [hscaled, hdigit]

variable {d uo : ℕ}

/-- The shift back of the remainder from `u[i]`, `k` more passes: the
    digits `u[i - k + 1 .. i]` computed from the digits before the loop, since
    each pass reads `u[i - 1]` before it is written, and `u[i - k]` cleared. -/
theorem unshift_apply (hd : d ≤ 16) (k i : ℕ) (hk : k ≤ i) (us : ℕ → Digit) (x : ℕ) :
    (unshift d uo k i us x).toNat =
      if uo + i - k < x ∧ x ≤ uo + i then
        (us x).toNat / 2 ^ d + (us (x - 1)).toNat % 2 ^ d * 2 ^ (16 - d)
      else if x = uo + i - k then 0
      else (us x).toNat := by
  induction k generalizing i us with
  | zero =>
    rw [unshift, if_neg (by omega)]
    by_cases hx : x = uo + i
    · subst hx
      rw [Function.update_self, if_pos (by omega)]
      rfl
    · rw [Function.update_of_ne hx, if_neg (by omega)]
  | succ k ih =>
    rw [unshift, ih (i - 1) (by omega)]
    by_cases hx : x = uo + i
    · -- the pass at `i` itself
      subst hx
      rw [if_neg (by omega), if_neg (by omega), Function.update_self, unshift_digit _ _ hd,
        if_pos (by omega)]
    · -- a digit the later passes compute, from digits this pass leaves alone
      rw [Function.update_of_ne hx]
      by_cases h1 : uo + (i - 1) - k < x ∧ x ≤ uo + (i - 1)
      · rw [if_pos h1, if_pos (by omega), Function.update_of_ne (by omega)]
      · have h1' : ¬(uo + i - (k + 1) < x ∧ x ≤ uo + i) := by omega
        rw [if_neg h1, if_neg h1', show uo + (i - 1) - k = uo + i - (k + 1) by omega]

/-- The shift back changes `u[i - k .. i]` only. -/
theorem unshift_frame (hd : d ≤ 16) (k i : ℕ) (hk : k ≤ i) (us : ℕ → Digit) {x : ℕ}
    (hx : x < uo + i - k ∨ uo + i < x) : unshift d uo k i us x = us x := by
  apply BitVec.eq_of_toNat_eq
  rw [unshift_apply hd k i hk, if_neg (by omega), if_neg (by omega)]

/-- The shift back of `u[st + 1 .. st + n]` by `d` bits, filled from `u[st]`,
    and `u[st] = 0`. -/
theorem unshift_spec (hd : d ≤ 16) (st n : ℕ) (us : ℕ → Digit) :
    rowVal (unshift d uo n (st + n) us) (uo + st + 1) n * 2 ^ d + (us (uo + st + n)).toNat % 2 ^ d =
        rowVal us (uo + st + 1) n + (us (uo + st)).toNat % 2 ^ d * (2 ^ 16) ^ n ∧
      unshift d uo n (st + n) us (uo + st) = 0 := by
  refine ⟨?_, ?_⟩
  · refine Digits.val_shiftRight (a := fun i => (us i).toNat)
      (b := fun i => (unshift d uo n (st + n) us i).toNat) (h := 16) hd fun i hi => ?_
    rw [unshift_apply hd n (st + n) (by omega), if_pos (by omega),
      show uo + st + 1 + i - 1 = uo + st + i by omega]
  · apply BitVec.eq_of_toNat_eq
    rw [unshift_apply hd n (st + n) (by omega), if_neg (by omega), if_pos (by omega)]
    rfl

end Shift

/-! ## `__qdivrem` -/

section Qdivrem

/-- The result `COMBINE(x[1], x[2]):COMBINE(x[3], x[4])` is the number in the
    digits `x[1..4]`. -/
theorem toNat_result (a : ℕ → Digit) :
    (ofHalves (combine ((a 1).setWidth 32) (a 2)) (combine ((a 3).setWidth 32) (a 4))).toNat =
      rowVal a 1 4 := by
  have h1 := (a 1).isLt
  have h3 := (a 3).isLt
  rw [toNat_ofHalves, toNat_combine _ (by rw [toNat_setWidth_digit]; exact h1),
    toNat_combine _ (by rw [toNat_setWidth_digit]; exact h3)]
  simp only [rowVal, Digits.val, toNat_setWidth_digit]
  ring

/-- `uspace[1..4]` is the window `u[uo..4]` when the digits above it are `0`. -/
theorem rowVal_one_four {a : ℕ → Digit} {o k : ℕ} (hk : o + k = 5) (hz : ∀ x < o, a x = 0)
    (hlt : rowVal a o k < (2 ^ 16) ^ 4) : rowVal a 1 4 = rowVal a o k := by
  have h0 : rowVal a 0 (4 + 1) = rowVal a o k := by
    rw [show 4 + 1 = o + k by omega, rowVal_add, rowVal_eq_zero fun i hi => hz _ (by omega),
      Nat.zero_mul, Nat.zero_add, Nat.zero_add]
  rw [← h0, (rowVal_succ_of_lt (a := a) (s := 0) (n := 4) (by rw [h0]; exact hlt)).2]

variable {us vs : ℕ → Digit} {uo vo m n : ℕ}

/-- D1 shifts `u[0..m+n]` and `v[1..n]` left by the same `d` bits: no bit
    falls out of either, and `v[1]` stays not `0`. -/
theorem normalize_spec {us' vs' : ℕ → Digit} (hn : 1 ≤ n) (hv1 : vs (vo + 1) ≠ 0)
    (hlead : us uo = 0)
    (hr : (if 0 < normShift 16 ((vs (vo + 1)).setWidth 32) then
        (shl us uo (m + n) (normShift 16 ((vs (vo + 1)).setWidth 32)),
          shl vs (vo + 1) (n - 1) (normShift 16 ((vs (vo + 1)).setWidth 32)))
      else (us, vs)) = (us', vs')) :
    rowVal us' uo (m + n + 1) =
        rowVal us uo (m + n + 1) * 2 ^ normShift 16 ((vs (vo + 1)).setWidth 32) ∧
      rowVal vs' (vo + 1) n = rowVal vs (vo + 1) n * 2 ^ normShift 16 ((vs (vo + 1)).setWidth 32) ∧
      vs' (vo + 1) ≠ 0 ∧ ∀ x < uo, us' x = us x := by
  set d := normShift 16 ((vs (vo + 1)).setWidth 32) with hd
  have hv1lt : ((vs (vo + 1)).setWidth 32).toNat < 2 ^ 16 := by
    rw [toNat_setWidth_digit]; exact (vs (vo + 1)).isLt
  have hv1' : (vs (vo + 1)).toNat ≠ 0 := fun h => hv1 (BitVec.eq_of_toNat_eq (by simpa using h))
  have hdlt : d < 16 := normShift_lt 16 hv1lt (by rw [toNat_setWidth_digit]; exact hv1')
  have hv1d : (vs (vo + 1)).toNat * 2 ^ d < 2 ^ 16 := by
    have := normShift_spec 16 hv1lt
    rwa [toNat_setWidth_digit] at this
  split_ifs at hr with hpos
  · obtain ⟨rfl, rfl⟩ := Prod.mk.inj hr
    -- no bit of `v[1]` falls out of it
    have hv1top : (vs (vo + 1)).toNat / 2 ^ (16 - d) = 0 := by
      apply Nat.div_eq_of_lt
      refine Nat.lt_of_mul_lt_mul_right (a := 2 ^ d) ?_
      rwa [← pow_add, Nat.sub_add_cancel hdlt.le]
    have hu := shl_spec (p := uo) hdlt.le us (m + n)
    have hv := shl_spec (p := vo + 1) hdlt.le vs (n - 1)
    rw [hlead, toNat_zero_digit, Nat.zero_div, Nat.zero_mul, Nat.add_zero] at hu
    rw [hv1top, Nat.zero_mul, Nat.add_zero, Nat.sub_add_cancel hn] at hv
    have hlead' : (shl vs (vo + 1) (n - 1) d (vo + 1)).toNat ≠ 0 := by
      have hpos' : 0 < (vs (vo + 1)).toNat * 2 ^ d := Nat.mul_pos (Nat.pos_of_ne_zero hv1') (by positivity)
      rw [shl, shlLoop_apply hdlt.le, Nat.mod_eq_of_lt hv1d]
      split_ifs
      · exact (Nat.add_pos_left hpos' _).ne'
      · exact hpos'.ne'
      · exact hv1'
    exact ⟨hu, hv, fun h => hlead' (by rw [h]; rfl), fun x hx => shl_frame hdlt.le us _ (by omega)⟩
  · obtain ⟨rfl, rfl⟩ := Prod.mk.inj hr
    have hd0 : d = 0 := by omega
    exact ⟨by rw [hd0, pow_zero, Nat.mul_one], by rw [hd0, pow_zero, Nat.mul_one], hv1, fun _ _ => rfl⟩

/-- D1 to D8 on the digits: for a divisor `v[1..n]` of `n ≥ 2` digits, the
    first not `0`, and a dividend `u[uo..4]` under `u[0..uo] = 0`, the passes
    leave the quotient in `qspace[1..4]` and, shifted back, the remainder in
    `uspace[1..4]`. -/
theorem long_spec {us' vs' us'' qs' : ℕ → Digit} (hn : 2 ≤ n) (hsum : uo + m + n = 4)
    (hv1 : vs (vo + 1) ≠ 0) (hzu : ∀ x ≤ uo, us x = 0)
    (hr : (if 0 < normShift 16 ((vs (vo + 1)).setWidth 32) then
        (shl us uo (m + n) (normShift 16 ((vs (vo + 1)).setWidth 32)),
          shl vs (vo + 1) (n - 1) (normShift 16 ((vs (vo + 1)).setWidth 32)))
      else (us, vs)) = (us', vs'))
    (hloop : divLoop vs' vo uo (4 - m) n (m + 1) 0 us' (zeroDigits (fun _ => 0) (4 - m)) =
      (us'', qs')) :
    rowVal qs' 1 4 = rowVal us uo (m + n + 1) / rowVal vs (vo + 1) n ∧
      rowVal (if normShift 16 ((vs (vo + 1)).setWidth 32) ≠ 0 then
          unshift (normShift 16 ((vs (vo + 1)).setWidth 32)) uo n (m + n) us'' else us'') 1 4 =
        rowVal us uo (m + n + 1) % rowVal vs (vo + 1) n := by
  -- `v` has `n` digits and `u` at most `m + n`
  have hv1pos : 0 < (vs (vo + 1)).toNat :=
    Nat.pos_of_ne_zero fun h => hv1 (BitVec.eq_of_toNat_eq (by simpa using h))
  have hV0 : (2 ^ 16) ^ (n - 1) ≤ rowVal vs (vo + 1) n := by
    have hsplit := rowVal_succ' (a := vs) (s := vo + 1) (n := n - 1)
    rw [Nat.sub_add_cancel (by omega)] at hsplit
    rw [hsplit]
    nlinarith [Nat.zero_le (rowVal vs (vo + 1 + 1) (n - 1))]
  have hUlt : rowVal us uo (m + n + 1) < (2 ^ 16) ^ (m + n) := rowVal_lt_of_lead_zero (hzu uo le_rfl)
  obtain ⟨hU, hV, hv1', hfr⟩ := normalize_spec (by omega) hv1 (hzu uo le_rfl) hr
  set d := normShift 16 ((vs (vo + 1)).setWidth 32) with hd
  set U := rowVal us uo (m + n + 1)
  set V0 := rowVal vs (vo + 1) n
  have hdlt : d < 16 := normShift_lt 16 (by rw [toNat_setWidth_digit]; exact (vs (vo + 1)).isLt)
    (by rw [toNat_setWidth_digit]; exact hv1pos.ne')
  have h2d : 0 < 2 ^ d := by positivity
  have hV0pos : 0 < V0 := lt_of_lt_of_le (by positivity) hV0
  -- so the first `n` digits of the shifted `u` are below the shifted `v`
  have htop : rowVal us' (uo + 0) n < rowVal vs' (vo + 1) n := by
    have hsplit := rowVal_add (a := us') (s := uo) (n := n) (k := m + 1)
    rw [show n + (m + 1) = m + n + 1 by omega, hU] at hsplit
    have hpow : (2 ^ 16) ^ (m + n) = (2 ^ 16) ^ (n - 1) * (2 ^ 16) ^ (m + 1) := by
      rw [← pow_add]
      congr 1
      omega
    have hlt : U * 2 ^ d < V0 * 2 ^ d * (2 ^ 16) ^ (m + 1) :=
      calc U * 2 ^ d < (2 ^ 16) ^ (m + n) * 2 ^ d := Nat.mul_lt_mul_of_pos_right hUlt h2d
        _ ≤ V0 * (2 ^ 16) ^ (m + 1) * 2 ^ d := by rw [hpow]; gcongr
        _ = V0 * 2 ^ d * (2 ^ 16) ^ (m + 1) := by ring
    rw [Nat.add_zero, hV]
    refine Nat.lt_of_mul_lt_mul_right (a := (2 ^ 16) ^ (m + 1)) ?_
    calc rowVal us' uo n * (2 ^ 16) ^ (m + 1) ≤ U * 2 ^ d := by
          rw [hsplit]; exact Nat.le_add_right _ _
      _ < _ := hlt
  obtain ⟨hrem, hquo⟩ := @divLoop_spec vs' vo uo (4 - m) n hn hv1' (m + 1) 0 us'
    (zeroDigits (fun _ => 0) (4 - m)) htop
  rw [hloop] at hrem hquo
  simp only [Nat.add_zero] at hrem hquo
  rw [show n + (m + 1) = m + n + 1 by omega, hU, hV] at hrem hquo
  rw [Nat.mul_div_mul_right _ _ h2d] at hquo
  rw [Nat.mul_mod_mul_right] at hrem
  refine ⟨?_, ?_⟩
  · -- the quotient: the digits of `qspace` above the passes' are still `0`
    have hzq : ∀ x < 4 - m, qs' x = 0 := fun x hx => by
      have hx' : (divLoop vs' vo uo (4 - m) n (m + 1) 0 us' (zeroDigits (fun _ => 0) (4 - m))).2 x =
          zeroDigits (fun _ => 0) (4 - m) x := divLoop_frame_q _ _ _ _ (by omega)
      rw [hloop, zeroDigits_apply] at hx'
      simpa using hx'
    rw [show (4 : ℕ) = 3 - m + (m + 1) by omega, rowVal_add, rowVal_eq_zero fun i hi => hzq _ (by omega),
      Nat.zero_mul, Nat.zero_add, show 1 + (3 - m) = 4 - m by omega, hquo]
  · -- the remainder: the digits above it are `0`
    have hVlt : V0 < (2 ^ 16) ^ n := rowVal_lt _ _ _
    have hbound : U % V0 < (2 ^ 16) ^ 4 :=
      lt_of_lt_of_le (lt_trans (Nat.mod_lt _ hV0pos) hVlt) (Nat.pow_le_pow_right (by norm_num) (by omega))
    have hRlt : U % V0 * 2 ^ d < (2 ^ 16) ^ n := by
      rw [← Nat.mul_mod_mul_right, ← hU, ← hV]
      exact lt_trans (Nat.mod_lt _ (by rw [hV]; positivity)) (rowVal_lt _ _ _)
    obtain ⟨hz'', hlow''⟩ := rowVal_low_of_lt (a := us'') (s := uo) (k := m + 1) (n := n)
      (by rw [show m + 1 + n = m + n + 1 by omega, hrem]; exact hRlt)
    rw [show m + 1 + n = m + n + 1 by omega, hrem] at hlow''
    have habove : ∀ x < uo, us'' x = 0 := fun x hx => by
      have hx' : (divLoop vs' vo uo (4 - m) n (m + 1) 0 us' (zeroDigits (fun _ => 0) (4 - m))).1 x =
          us' x := divLoop_frame_u _ _ _ _ (by omega)
      rw [hloop] at hx'
      dsimp only at hx'
      rw [hx', hfr x hx, hzu x hx.le]
    split_ifs with hd0
    · -- `d != 0`: the remainder is shifted back right by `d` bits
      obtain ⟨hsr, hzero⟩ := @unshift_spec d uo hdlt.le m n us''
      rw [hz'' m (by omega), toNat_zero_digit, Nat.zero_mod, Nat.zero_mul,
        show uo + m + 1 = uo + (m + 1) by omega, hlow''] at hsr
      simp only [Nat.add_zero] at hsr
      have hrow : rowVal (unshift d uo n (m + n) us'') (uo + (m + 1)) n = U % V0 := by
        have hlast := Nat.mod_lt (us'' (uo + m + n)).toNat h2d
        have hdiv : (rowVal (unshift d uo n (m + n) us'') (uo + (m + 1)) n * 2 ^ d +
            (us'' (uo + m + n)).toNat % 2 ^ d) / 2 ^ d = U % V0 * 2 ^ d / 2 ^ d := by rw [hsr]
        rwa [Nat.add_comm, Nat.add_mul_div_right _ _ h2d, Nat.div_eq_of_lt hlast, Nat.zero_add,
          Nat.mul_div_cancel _ h2d] at hdiv
      have hfull : rowVal (unshift d uo n (m + n) us'') uo (m + n + 1) = U % V0 := by
        rw [show m + n + 1 = m + 1 + n by omega, rowVal_add, rowVal_eq_zero ?_, Nat.zero_mul,
          Nat.zero_add, hrow]
        -- `u[uo..uo+m-1]` are `0` from the passes, `u[uo+m]` is cleared
        intro i hi
        rcases Nat.lt_or_ge i m with him | him
        · rw [unshift_frame hdlt.le n (m + n) (by omega) us'' (by omega), hz'' i (by omega)]
        · rw [show uo + i = uo + m by omega]
          exact hzero
      rw [rowVal_one_four (o := uo) (k := m + n + 1) (by omega) (fun x hx => by
          rw [unshift_frame hdlt.le n (m + n) (by omega) us'' (by omega), habove x hx])
        (by rw [hfull]; exact hbound), hfull]
    · -- `d == 0`: the remainder is in place
      have hd0' : d = 0 := not_not.1 hd0
      have hfull : rowVal us'' uo (m + n + 1) = U % V0 := by
        rw [hrem, hd0', pow_zero, Nat.mul_one]
      rw [rowVal_one_four (o := uo) (k := m + n + 1) (by omega) habove (by rw [hfull]; exact hbound),
        hfull]

/-- `__qdivrem` divides: it computes the quotient and the remainder of
    unsigned division, and traps on a divisor of `0`. -/
theorem qdivrem_eq (u v : BitVec 64) : qdivrem u v = if v = 0 then none else some (u / v, u % v) := by
  unfold qdivrem
  split_ifs with hv hlt
  · rfl
  · -- `ull < vll`
    have hlt' : u.toNat < v.toNat := hlt
    rw [Option.some.injEq, Prod.mk.injEq]
    refine ⟨BitVec.eq_of_toNat_eq ?_, BitVec.eq_of_toNat_eq ?_⟩
    · rw [BitVec.toNat_udiv, Nat.div_eq_of_lt hlt']
      rfl
    · rw [BitVec.toNat_umod, Nat.mod_eq_of_lt hlt']
  have hv0 : 0 < v.toNat := Nat.pos_of_ne_zero fun h => hv (BitVec.eq_of_toNat_eq (by simpa using h))
  have hu := rowVal_digitsOf u
  have hvv := rowVal_digitsOf v
  dsimp only
  rcases hs : scanV (digitsOf v) 4 0 with o | ⟨n, vo⟩
  · -- a divisor of one digit: short division
    obtain ⟨k, ho, hk, hz⟩ := scanV_short hs
    obtain rfl : k = 2 := by omega
    subst ho
    have hv4 : v.toNat = (digitsOf v 4).toNat := by
      rw [← hvv, show (4 : ℕ) = 3 + 1 by rfl, rowVal_succ, rowVal_eq_zero fun i hi => by
        have := hz i (by omega)
        rwa [Nat.zero_add, Nat.add_comm] at this, Nat.zero_mul, Nat.zero_add]
    have ht : ((digitsOf v (0 + 2 + 2)).setWidth 32).toNat = v.toNat := by
      rw [toNat_setWidth_digit, hv4]
    obtain ⟨hq, hr⟩ := shortDiv_spec (digitsOf u) (t := (digitsOf v (0 + 2 + 2)).setWidth 32)
      (by rw [ht]; exact hv0) (by rw [ht, hv4]; exact (digitsOf v 4).isLt)
    rw [Option.some.injEq]
    refine Prod.ext (BitVec.eq_of_toNat_eq ?_) (BitVec.eq_of_toNat_eq ?_)
    · rw [hq, hu, ht, BitVec.toNat_udiv]
    · rw [hr, hu, ht, BitVec.toNat_umod]
  · -- Algorithm D
    obtain ⟨hsum, hn, hv1, hzv⟩ := scanV_long hs (by norm_num)
    dsimp only
    rcases hsu : scanU (digitsOf u) (4 - n) 0 with ⟨m, uo⟩
    obtain ⟨hsum', -, hzu⟩ := scanU_spec hsu
    have hzu' : ∀ x ≤ uo, digitsOf u x = 0 := fun x hx => by
      rcases Nat.eq_zero_or_pos x with rfl | hpos
      · rfl
      · rw [show x = x - 1 + 1 by omega]
        exact hzu (x - 1) (Nat.zero_le _) (by omega)
    -- the dividend and the divisor without their leading zeros
    have hU : rowVal (digitsOf u) uo (m + n + 1) = u.toNat := by
      rw [← hu, rowVal_one_four (o := uo) (k := m + n + 1) (by omega) (fun x hx => hzu' x hx.le)]
      exact lt_of_lt_of_le (rowVal_lt_of_lead_zero (hzu' uo le_rfl))
        (Nat.pow_le_pow_right (by norm_num) (by omega))
    have hV : rowVal (digitsOf v) (vo + 1) n = v.toNat := by
      have hz1 : rowVal (digitsOf v) 1 vo = 0 := rowVal_eq_zero fun i hi => by
        rw [Nat.add_comm]; exact hzv i (Nat.zero_le _) hi
      rw [← hvv, show (4 : ℕ) = vo + n by omega, rowVal_add, hz1, Nat.zero_mul, Nat.zero_add,
        Nat.add_comm 1 vo]
    dsimp only
    rcases hr : (if 0 < normShift 16 ((digitsOf v (vo + 1)).setWidth 32) then
        (shl (digitsOf u) uo (m + n) (normShift 16 ((digitsOf v (vo + 1)).setWidth 32)),
          shl (digitsOf v) (vo + 1) (n - 1) (normShift 16 ((digitsOf v (vo + 1)).setWidth 32)))
      else (digitsOf u, digitsOf v)) with ⟨us', vs'⟩
    dsimp only
    rcases hl : divLoop vs' vo uo (4 - m) n (m + 1) 0 us' (zeroDigits (fun _ => 0) (4 - m))
      with ⟨us'', qs'⟩
    dsimp only
    obtain ⟨hq, hrm⟩ := long_spec hn (by omega) hv1 hzu' hr hl
    rw [hU, hV] at hq hrm
    rw [Option.some.injEq]
    refine Prod.ext (BitVec.eq_of_toNat_eq ?_) (BitVec.eq_of_toNat_eq ?_)
    · rw [toNat_result, hq, BitVec.toNat_udiv]
    · rw [toNat_result, hrm, BitVec.toNat_umod]

end Qdivrem

end Os161.Millicode
