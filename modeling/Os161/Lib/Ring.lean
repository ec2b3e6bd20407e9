import Mathlib

/-!
# Circular buffers

A buffer of `size` cells, `cell : ℕ → β`, read round from a position `head`:
the cell `k` places on is `index size head k = (head + k) % size`, and
`view cell size head n` lists the `n` cells from `head` on. A ring buffer
keeps its elements as the view from its read position up to its write
position, `dist size head tail` places on.

Positions below `size` go round at most once, so every `%` here is one
subtraction or none (`mod_cases`), and `omega` finishes. The lemmas say
how the view changes when the cell past its end is written (`view_push`),
when the head moves on by one (`view_pop`), and how `dist` moves with the
two ends (`dist_succ_right`, `dist_succ_left`).
-/

namespace Ring

variable {β : Type*}

/-- The cell `k` places on from `head`, in a buffer of `size` cells. -/
def index (size head k : Nat) : Nat := (head + k) % size

/-- How many places on from `i` the position `j` is. -/
def dist (size i j : Nat) : Nat := (j + size - i) % size

/-- The `n` cells from `head` on, in order. -/
def view (cell : Nat → β) (size head : Nat) : Nat → List β
  | 0 => []
  | n + 1 => view cell size head n ++ [cell (index size head n)]

/-- Below twice the modulus, `%` subtracts it once or not at all. -/
theorem mod_cases {a n : Nat} (h : a < 2 * n) : (a < n ∧ a % n = a) ∨ (n ≤ a ∧ a % n = a - n) := by
  by_cases ha : a < n
  · exact .inl ⟨ha, Nat.mod_eq_of_lt ha⟩
  · refine .inr ⟨by omega, ?_⟩
    rw [Nat.mod_eq_sub_mod (by omega), Nat.mod_eq_of_lt (by omega)]

section Index

variable {size head : Nat}

theorem index_zero (hh : head < size) : index size head 0 = head := Nat.mod_eq_of_lt hh

/-- One step on from the cell `k` places on is the cell `k + 1` places on. -/
theorem index_next (k : Nat) : (index size head k + 1) % size = index size head (k + 1) := by
  unfold index
  rw [Nat.mod_add_mod, Nat.add_assoc]

/-- Moving the head on by one moves every cell's place back by one. -/
theorem index_head_next (k : Nat) : index size ((head + 1) % size) k = index size head (k + 1) := by
  unfold index
  rw [Nat.mod_add_mod, Nat.add_assoc, Nat.add_comm 1 k]

/-- Within one round, distinct places are distinct cells. -/
theorem index_ne (hh : head < size) {a b : Nat} (hab : a < b) (hb : b < size) :
    index size head a ≠ index size head b := by
  unfold index
  rcases mod_cases (show head + a < 2 * size by omega) with ⟨ha₁, ha⟩ | ⟨ha₁, ha⟩ <;>
    rcases mod_cases (show head + b < 2 * size by omega) with ⟨hb₁, hb'⟩ | ⟨hb₁, hb'⟩ <;> omega

end Index

section Dist

variable {size i j : Nat}

theorem dist_lt (hs : 0 < size) : dist size i j < size := Nat.mod_lt _ hs

@[simp] theorem dist_self : dist size i i = 0 := by
  unfold dist
  rw [Nat.add_sub_cancel_left, Nat.mod_self]

/-- The position `dist size i j` places on from `i` is `j`. -/
theorem index_dist (hi : i < size) (hj : j < size) : index size i (dist size i j) = j := by
  unfold index dist
  rcases mod_cases (show j + size - i < 2 * size by omega) with ⟨hd₁, hd⟩ | ⟨hd₁, hd⟩
  · rw [hd, show i + (j + size - i) = j + size by omega, Nat.add_mod_right, Nat.mod_eq_of_lt hj]
  · rw [hd, show i + (j + size - i - size) = j by omega, Nat.mod_eq_of_lt hj]

/-- Moving the far end on by one, short of the near end, adds one place. -/
theorem dist_succ_right (hi : i < size) (hj : j < size) (hne : (j + 1) % size ≠ i) :
    dist size i ((j + 1) % size) = dist size i j + 1 := by
  unfold dist
  have hA := Nat.mod_lt (j + 1) (show 0 < size by omega)
  rcases mod_cases (show j + 1 < 2 * size by omega) with ⟨h1₁, h1⟩ | ⟨h1₁, h1⟩ <;>
    rcases mod_cases (show (j + 1) % size + size - i < 2 * size by omega) with ⟨h2₁, h2⟩ | ⟨h2₁, h2⟩ <;>
    rcases mod_cases (show j + size - i < 2 * size by omega) with ⟨h3₁, h3⟩ | ⟨h3₁, h3⟩ <;> omega

/-- Moving the near end on by one, short of the far end, takes one place off. -/
theorem dist_succ_left (hi : i < size) (hj : j < size) (hne : i ≠ j) :
    dist size ((i + 1) % size) j + 1 = dist size i j := by
  unfold dist
  have hA := Nat.mod_lt (i + 1) (show 0 < size by omega)
  rcases mod_cases (show i + 1 < 2 * size by omega) with ⟨h1₁, h1⟩ | ⟨h1₁, h1⟩ <;>
    rcases mod_cases (show j + size - (i + 1) % size < 2 * size by omega) with ⟨h2₁, h2⟩ | ⟨h2₁, h2⟩ <;>
    rcases mod_cases (show j + size - i < 2 * size by omega) with ⟨h3₁, h3⟩ | ⟨h3₁, h3⟩ <;> omega

/-- The far end is one short of a full round from the near end exactly when
    one more step would bring it back to the near end. -/
theorem dist_add_one_eq_iff (hi : i < size) (hj : j < size) :
    dist size i j + 1 = size ↔ (j + 1) % size = i := by
  unfold dist
  rcases mod_cases (show j + 1 < 2 * size by omega) with ⟨h1₁, h1⟩ | ⟨h1₁, h1⟩ <;>
    rcases mod_cases (show j + size - i < 2 * size by omega) with ⟨h3₁, h3⟩ | ⟨h3₁, h3⟩ <;> omega

end Dist

section View

variable {cell : Nat → β} {size head n : Nat}

@[simp] theorem view_length (cell : Nat → β) (size head n : Nat) : (view cell size head n).length = n := by
  induction n with
  | zero => rfl
  | succ n ih => rw [view, List.length_append, ih, List.length_singleton]

/-- The view reads only its own cells. -/
theorem view_congr {cell' : Nat → β} (h : ∀ k < n, cell (index size head k) = cell' (index size head k)) :
    view cell size head n = view cell' size head n := by
  induction n with
  | zero => rfl
  | succ n ih =>
    rw [view, view, ih fun k hk => h k (by omega), h n (by omega)]

/-- Writing the cell just past the end of the view, within one round, adds it
    to the view. -/
theorem view_push (hh : head < size) (hn : n < size) (x : β) :
    view (Function.update cell (index size head n) x) size head (n + 1) = view cell size head n ++ [x] := by
  rw [view, Function.update_self]
  congr 1
  exact view_congr fun k hk => Function.update_of_ne (index_ne hh hk hn) _ _

theorem getElem_view {k : Nat} (hk : k < (view cell size head n).length) :
    (view cell size head n)[k] = cell (index size head k) := by
  induction n with
  | zero => exact absurd hk (by simp)
  | succ n ih =>
    rw [view_length] at hk
    simp only [view, List.getElem_append, view_length]
    split
    · exact ih _
    · have hkn : k = n := by omega
      subst hkn
      simp

/-- Moving the head on by one drops the first cell of the view. -/
theorem view_pop (cell : Nat → β) (size head n : Nat) :
    view cell size head (n + 1) = cell (index size head 0) :: view cell size ((head + 1) % size) n := by
  induction n with
  | zero => rfl
  | succ n ih => rw [view, ih, view, index_head_next, List.cons_append]

end View

end Ring
