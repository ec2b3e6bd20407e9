import Mathlib

/-!
# Numbers in base `B`, most significant digit first

Multiprecision arithmetic keeps a number as a row of digits in a base `B`,
and long division works on windows of that row. `Digits.val B a s n` is the
number in the `n` digits `a s, a (s + 1), …, a (s + n - 1)` of a row
`a : ℕ → ℕ`, the first one the most significant.

The second part is the arithmetic of one quotient digit of long division
(Knuth, vol. 2, 4.3.1, Algorithm D): a window `W` of the dividend is divided by
the divisor `V`, with `W < B * V`, and the digit `W / V` is estimated from the
leading digits of both.

* `val_add`, `val_lt`: a window splits into an upper and a lower one, and `n`
  digits below `B` make a number below `B ^ n`;
* `val_shiftLeft`, `val_shiftRight`: in a base `2 ^ h`, shifting every digit
  by `s` bits and filling it from its neighbour shifts the number;
* `div_step`, `mod_step`: short division, one digit at a time;
* `div_le_of_lead`: the estimate from the leading digits of `W` over the
  leading digit of `V` is never too small;
* `div_lt_of_lead`, `le_div_succ_of_lead`: the test of an estimate against the
  three leading digits of `W` and the two of `V` (step D3) finds it too large
  whenever it fails, and when it holds the estimate is at most one too large.
  Neither needs the divisor to be normalised: normalisation only bounds how
  often the test fails.
-/

namespace Digits

/-- The number in the `n` digits of `a` from `s` on, most significant first. -/
def val (B : ℕ) (a : ℕ → ℕ) (s : ℕ) : ℕ → ℕ
  | 0 => 0
  | n + 1 => val B a s n * B + a (s + n)

section Val

variable {B : ℕ} {a b : ℕ → ℕ} {s n k : ℕ}

@[simp]
theorem val_zero : val B a s 0 = 0 := rfl

theorem val_succ : val B a s (n + 1) = val B a s n * B + a (s + n) := rfl

@[simp]
theorem val_one : val B a s 1 = a s := by
  simp [val]

/-- A window depends on its own digits only. -/
theorem val_congr (h : ∀ i < n, a (s + i) = b (s + i)) : val B a s n = val B b s n := by
  induction n with
  | zero => rfl
  | succ n ih =>
    rw [val_succ, val_succ, ih fun i hi => h i (by omega), h n (by omega)]

/-- A window of `n + k` digits is its first `n` digits, shifted by `k`, and its
    last `k`. -/
theorem val_add : val B a s (n + k) = val B a s n * B ^ k + val B a (s + n) k := by
  induction k with
  | zero => simp
  | succ k ih =>
    rw [← Nat.add_assoc, val_succ, ih, val_succ, pow_succ, Nat.add_assoc s n k]
    ring

/-- A window is its leading digit and the rest. -/
theorem val_succ' : val B a s (n + 1) = a s * B ^ n + val B a (s + 1) n := by
  rw [Nat.add_comm n 1, val_add, val_one]

theorem val_lt (h : ∀ i < n, a (s + i) < B) : val B a s n < B ^ n := by
  induction n with
  | zero => simp
  | succ n ih =>
    have hrest := ih fun i hi => h i (by omega)
    have hlast := h n (by omega)
    rw [val_succ, pow_succ]
    nlinarith

/-- A window whose leading digit is `0` is the window after it. -/
theorem val_succ_of_lead_zero (h : a s = 0) : val B a s (n + 1) = val B a (s + 1) n := by
  rw [val_succ', h, Nat.zero_mul, Nat.zero_add]

/-- A window whose digits are all `0` is `0`. -/
theorem val_eq_zero (h : ∀ i < n, a (s + i) = 0) : val B a s n = 0 := by
  induction n with
  | zero => rfl
  | succ n ih => rw [val_succ, ih fun i hi => h i (by omega), h n (by omega)]; simp

/-- The leading digits of a window below `B ^ k` are `0`. -/
theorem lead_eq_zero (hB : 0 < B) (h : val B a s (n + k) < B ^ k) {i : ℕ} (hi : i < n) :
    a (s + i) = 0 := by
  have hsplit : val B a s (n + k) = val B a s n * B ^ k + val B a (s + n) k := val_add
  have hlead : val B a s n = 0 := by
    by_contra hne
    have hBk : 0 < B ^ k := pow_pos hB k
    nlinarith [Nat.one_le_iff_ne_zero.2 hne]
  obtain ⟨l, rfl⟩ : ∃ l, n = i + 1 + l := ⟨n - (i + 1), by omega⟩
  rw [val_add, Nat.add_eq_zero_iff, Nat.mul_eq_zero, val_succ] at hlead
  rcases hlead.1 with h0 | h0
  · omega
  · exact absurd h0 (pow_pos hB l).ne'

end Val

/-! ## Shifts in a base `2 ^ h` -/

section Shift

variable {h s : ℕ} {a b : ℕ → ℕ} {o n : ℕ}

/-- A digit shifted left by `s ≤ h` bits: the part that stays in the digit,
    and the part that moves to the digit above. -/
theorem mul_two_pow_eq (x : ℕ) (hs : s ≤ h) :
    x * 2 ^ s = x * 2 ^ s % 2 ^ h + x / 2 ^ (h - s) * 2 ^ h := by
  have hsplit : 2 ^ h = 2 ^ (h - s) * 2 ^ s := by rw [← pow_add, Nat.sub_add_cancel hs]
  have hdiv : x * 2 ^ s / 2 ^ h = x / 2 ^ (h - s) := by
    rw [hsplit, Nat.mul_div_mul_right _ _ (by positivity)]
  rw [← hdiv]
  exact (Nat.mod_add_div' _ _).symm

/-- Shifting each digit of a window left by `s` bits and filling it with the
    top bits of the next digit shifts the number left: the top bits of the
    first digit fall out, those of the digit after the window come in. -/
theorem val_shiftLeft (hs : s ≤ h)
    (hb : ∀ i < n, b (o + i) = a (o + i) * 2 ^ s % 2 ^ h + a (o + i + 1) / 2 ^ (h - s)) :
    val (2 ^ h) b o n + a o / 2 ^ (h - s) * (2 ^ h) ^ n =
      val (2 ^ h) a o n * 2 ^ s + a (o + n) / 2 ^ (h - s) := by
  induction n with
  | zero => simp
  | succ n ih =>
    have ih' := ih fun i hi => hb i (by omega)
    have hdigit := mul_two_pow_eq (a (o + n)) hs
    rw [val_succ, val_succ, hb n (by omega), pow_succ]
    have hmul := congrArg (· * 2 ^ h) ih'
    simp only [Nat.add_mul] at hmul
    rw [Nat.add_assoc o n 1]
    nlinarith [hmul, hdigit]

/-- Shifting each digit of a window right by `s` bits and filling it with the
    low bits of the digit before shifts the number right: the low bits of the
    last digit fall out, those of the digit before the window come in. -/
theorem val_shiftRight (hs : s ≤ h)
    (hb : ∀ i < n, b (o + 1 + i) = a (o + 1 + i) / 2 ^ s + a (o + i) % 2 ^ s * 2 ^ (h - s)) :
    val (2 ^ h) b (o + 1) n * 2 ^ s + a (o + n) % 2 ^ s =
      val (2 ^ h) a (o + 1) n + a o % 2 ^ s * (2 ^ h) ^ n := by
  have hsplit : 2 ^ h = 2 ^ (h - s) * 2 ^ s := by rw [← pow_add, Nat.sub_add_cancel hs]
  induction n with
  | zero => simp
  | succ n ih =>
    have ih' := ih fun i hi => hb i (by omega)
    have hdigit := Nat.div_add_mod' (a (o + 1 + n)) (2 ^ s)
    rw [val_succ, val_succ, hb n (by omega), pow_succ]
    have hmul := congrArg (· * 2 ^ h) ih'
    simp only [Nat.add_mul] at hmul
    rw [show o + (n + 1) = o + 1 + n by omega]
    rw [hsplit] at hmul ⊢
    nlinarith [hmul, hdigit]

end Shift

/-! ## Short division -/

/-- Dividing `a` followed by a digit `x`: the quotient of `a`, shifted, and the
    quotient of the remainder of `a` followed by `x`. -/
theorem div_step (a x B t : ℕ) (ht : 0 < t) :
    (a * B + x) / t = a / t * B + (a % t * B + x) / t := by
  have h := Nat.div_add_mod a t
  conv_lhs => rw [← h]
  rw [show (t * (a / t) + a % t) * B + x = (a % t * B + x) + t * (a / t * B) by ring,
    Nat.add_mul_div_left _ _ ht]
  ring

theorem mod_step (a x B t : ℕ) : (a * B + x) % t = (a % t * B + x) % t := by
  conv_lhs => rw [← Nat.div_add_mod a t]
  rw [show (t * (a / t) + a % t) * B + x = (a % t * B + x) + t * (a / t * B) by ring,
    Nat.add_mul_mod_self_left]

/-! ## The quotient digit -/

section Quotient

variable {W V q P : ℕ}

/-- The estimate `top / v₁` of `W / V` is never too small, when `top` is the
    part of `W` above the weight `P` of the leading digit `v₁` of `V`. -/
theorem div_le_of_lead {top v₁ : ℕ} (hv₁ : 0 < v₁) (hW : W < (top + 1) * P)
    (hV : v₁ * P ≤ V) : W / V ≤ top / v₁ := by
  have hP : 0 < P := by
    rcases Nat.eq_zero_or_pos P with h | h
    · simp [h] at hW
    · exact h
  calc W / V ≤ W / (P * v₁) := Nat.div_le_div_left (by rw [Nat.mul_comm]; exact hV)
        (Nat.mul_pos hP hv₁)
    _ = W / P / v₁ := (Nat.div_div_eq_div_mul W P v₁).symm
    _ ≤ top / v₁ := Nat.div_le_div_right (Nat.lt_succ_iff.1 ((Nat.div_lt_iff_lt_mul hP).2 hW))

/-- An estimate `q` that fails the test, `W₃ < q * V₂` for the leading digits
    `W₃` of `W` and `V₂` of `V` at the weight `P`, is too large. -/
theorem div_lt_of_lead {W₃ V₂ : ℕ} (hW : W < (W₃ + 1) * P) (hV : V₂ * P ≤ V)
    (hq : W₃ < q * V₂) : W / V < q := by
  have hV0 : 0 < V := by
    rcases Nat.eq_zero_or_pos V with h | h
    · have : V₂ * P = 0 := by omega
      rcases Nat.mul_eq_zero.1 this with h' | h' <;> simp [h'] at hq hW
    · exact h
  rw [Nat.div_lt_iff_lt_mul hV0]
  calc W < (W₃ + 1) * P := hW
    _ ≤ q * V₂ * P := Nat.mul_le_mul_right P hq
    _ = q * (V₂ * P) := Nat.mul_assoc q V₂ P
    _ ≤ q * V := Nat.mul_le_mul_left q hV

/-- An estimate `q` that passes the test, `q * V₂ ≤ W₃`, is at most one too
    large, as long as it is at most `V₂ + 1`. -/
theorem le_div_succ_of_lead {W₃ V₂ : ℕ} (hV0 : 0 < V) (hW : W₃ * P ≤ W)
    (hV : V < (V₂ + 1) * P) (hq : q * V₂ ≤ W₃) (hqV : q ≤ V₂ + 1) : q ≤ W / V + 1 := by
  rcases Nat.eq_zero_or_pos q with h0 | hpos
  · rw [h0]
    exact Nat.zero_le _
  obtain ⟨r, rfl⟩ : ∃ r, q = r + 1 := ⟨q - 1, by omega⟩
  have hr : r * (V₂ + 1) ≤ (r + 1) * V₂ := by nlinarith
  have hrV : r * V ≤ W := by
    calc r * V ≤ r * ((V₂ + 1) * P) := Nat.mul_le_mul_left r hV.le
      _ = r * (V₂ + 1) * P := (Nat.mul_assoc _ _ _).symm
      _ ≤ (r + 1) * V₂ * P := Nat.mul_le_mul_right P hr
      _ ≤ W₃ * P := Nat.mul_le_mul_right P hq
      _ ≤ W := hW
  have := (Nat.le_div_iff_mul_le hV0).2 hrV
  omega

end Quotient

end Digits
