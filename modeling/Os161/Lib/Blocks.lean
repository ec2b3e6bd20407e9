import Mathlib

/-!
# Blocks of memory, and what an allocator promises

A block is the run of addresses `[addr, addr + len)`. An allocator hands out
blocks and takes them back; what makes it an allocator is that the blocks it
has handed out and not yet taken back, its *live* blocks, never overlap.
`Heap` carries that as a field, so that no heap with overlapping blocks can be
built; `Heap.insert` hands out a block that overlaps none of them
(`Heap.Fresh`), and `Heap.release` takes back the block at an address.

An allocator never hands out an empty block, so no live block is empty
either (`Heap.nonempty`): taking back the block at an address then takes back
that block alone (`Heap.live_release_eq`).

The rest is the arithmetic of blocks that an allocator's proofs use:

* `Block.not_disjoint_of_contains`: blocks that share an address overlap;
* `Block.Disjoint.mono`: blocks inside disjoint blocks are disjoint;
* `Block.slot_disjoint`: the slots of a region cut into equal blocks do not
  overlap;
* `Block.within_of_aligned`: regions of whole pages, aligned to pages, overlap
  only when the one lies inside the other, and so
  `Heap.Fresh.disjoint_of_within`: a fresh region of pages overlaps no page
  that holds a live block.
-/

namespace Blocks

/-- The addresses `[addr, addr + len)`. -/
structure Block where
  addr : ℕ
  len : ℕ
  deriving DecidableEq, Repr

namespace Block

variable {a : ℕ} {b c b' c' : Block}

/-- The address `a` lies in the block. -/
def Contains (b : Block) (a : ℕ) : Prop := b.addr ≤ a ∧ a < b.addr + b.len

instance (b : Block) (a : ℕ) : Decidable (b.Contains a) := inferInstanceAs (Decidable (_ ∧ _))

/-- Two blocks share no address. -/
def Disjoint (b c : Block) : Prop := b.addr + b.len ≤ c.addr ∨ c.addr + c.len ≤ b.addr

instance : DecidableRel Disjoint := fun _ _ => inferInstanceAs (Decidable (_ ∨ _))

/-- `b` lies inside `c`. -/
def Within (b c : Block) : Prop := c.addr ≤ b.addr ∧ b.addr + b.len ≤ c.addr + c.len

theorem Disjoint.symm (h : b.Disjoint c) : c.Disjoint b := Or.symm h

theorem within_refl (b : Block) : b.Within b := ⟨le_rfl, le_rfl⟩

theorem Disjoint.mono (h : b'.Disjoint c') (hb : b.Within b') (hc : c.Within c') : b.Disjoint c := by
  unfold Disjoint Within at *
  omega

theorem not_disjoint_of_contains (hb : b.Contains a) (hc : c.Contains a) : ¬ b.Disjoint c := by
  unfold Contains Disjoint at *
  omega

/-- Addresses in disjoint blocks differ. -/
theorem ne_of_disjoint {a a' : ℕ} (h : b.Disjoint c) (hb : b.Contains a) (hc : c.Contains a') : a ≠ a' := by
  rintro rfl
  exact not_disjoint_of_contains hb hc h

theorem Contains.mono (h : b.Contains a) (hbc : b.Within c) : c.Contains a := by
  unfold Contains Within at *
  omega

/-- A block of positive length overlaps every block it lies in. -/
theorem not_disjoint_of_within (h : b.Within c) (hb : 0 < b.len) : ¬ b.Disjoint c := by
  unfold Within Disjoint at *
  omega

/-- A block of positive length inside `c` is none of the blocks apart from
    `c`. -/
theorem ne_of_within_of_disjoint (hb : b.Within c) (hb0 : 0 < b.len) (hd : b'.Disjoint c) : b ≠ b' := by
  rintro rfl
  exact not_disjoint_of_within hb hb0 hd

/-- The `i`-th of the blocks of `len` bytes that a region from `base` is cut
    into. -/
def slot (base len i : ℕ) : Block := ⟨base + i * len, len⟩

theorem slot_disjoint {base len i j : ℕ} (hij : i ≠ j) : (slot base len i).Disjoint (slot base len j) := by
  unfold slot Disjoint
  simp only
  rcases Nat.lt_or_gt_of_ne hij with h | h
  · left
    have := Nat.mul_le_mul_right len (Nat.succ_le_of_lt h)
    simp only [Nat.succ_mul] at this
    omega
  · right
    have := Nat.mul_le_mul_right len (Nat.succ_le_of_lt h)
    simp only [Nat.succ_mul] at this
    omega

theorem slot_within {base len i n : ℕ} (hi : (i + 1) * len ≤ n) : (slot base len i).Within ⟨base, n⟩ := by
  unfold slot Within
  simp only [Nat.succ_mul] at hi
  constructor <;> simp only <;> omega

/-- Regions of whole pages of `P` bytes, aligned to pages, overlap only when
    the page lies inside the region. -/
theorem within_of_aligned {P p q n : ℕ} (hp : p % P = 0) (hq : q % P = 0)
    (h : ¬ (⟨p, n * P⟩ : Block).Disjoint ⟨q, P⟩) : (⟨q, P⟩ : Block).Within ⟨p, n * P⟩ := by
  unfold Disjoint Within at *
  simp only at h ⊢
  obtain ⟨x, rfl⟩ := Nat.dvd_of_mod_eq_zero hp
  obtain ⟨y, rfl⟩ := Nat.dvd_of_mod_eq_zero hq
  -- in page numbers: `y < x + n` and `x < y + 1`
  have hy : y < x + n := by
    have : P * y < P * (x + n) := by rw [Nat.mul_add, Nat.mul_comm P n]; omega
    exact Nat.lt_of_mul_lt_mul_left this
  have hx : x < y + 1 := by
    have : P * x < P * (y + 1) := by rw [Nat.mul_add, Nat.mul_one]; omega
    exact Nat.lt_of_mul_lt_mul_left this
  constructor
  · exact Nat.mul_le_mul_left P (by omega)
  · have := Nat.mul_le_mul_left P (show y + 1 ≤ x + n by omega)
    rw [Nat.mul_add, Nat.mul_add, Nat.mul_one, Nat.mul_comm P n] at this
    exact this

end Block

open Block

/-- The live blocks of an allocator: none is empty, and they never overlap. -/
structure Heap where
  live : Set Block
  nonempty : ∀ b ∈ live, 0 < b.len
  pairwise : live.Pairwise Block.Disjoint

namespace Heap

variable {H : Heap} {a : ℕ} {b c : Block}

/-- No block handed out. -/
def empty : Heap := ⟨∅, fun _ hb => absurd hb (Set.notMem_empty _), Set.pairwise_empty _⟩

/-- A block that overlaps no live block. -/
def Fresh (H : Heap) (b : Block) : Prop := ∀ c ∈ H.live, b.Disjoint c

/-- Handing out a fresh block. -/
def insert (H : Heap) (b : Block) (hb0 : 0 < b.len) (hb : H.Fresh b) : Heap :=
  ⟨Set.insert b H.live, fun c hc => hc.elim (fun he => he ▸ hb0) (H.nonempty c),
    H.pairwise.insert fun c hc _ => ⟨hb c hc, (hb c hc).symm⟩⟩

/-- Taking back the blocks at the address `a`. -/
def release (H : Heap) (a : ℕ) : Heap :=
  ⟨{b ∈ H.live | b.addr ≠ a}, fun b hb => H.nonempty b hb.1, H.pairwise.mono fun _ hb => hb.1⟩

@[simp] theorem live_insert (hb0 : 0 < b.len) (hb : H.Fresh b) : (H.insert b hb0 hb).live = Set.insert b H.live :=
  rfl

@[simp] theorem live_release : (H.release a).live = {b ∈ H.live | b.addr ≠ a} := rfl

/-- Two live blocks that share an address are one. -/
theorem eq_of_contains (hb : b ∈ H.live) (hc : c ∈ H.live) (hab : b.Contains a) (hac : c.Contains a) :
    b = c := by
  by_contra hne
  exact not_disjoint_of_contains hab hac (H.pairwise hb hc hne)

/-- Taking back the address of a live block takes back that block alone. -/
theorem live_release_eq (hb : b ∈ H.live) :
    (H.release b.addr).live = {c ∈ H.live | c ≠ b} := by
  ext c
  simp only [live_release, Set.mem_ofPred_eq]
  constructor
  · rintro ⟨hc, hne⟩
    exact ⟨hc, fun he => hne (he ▸ rfl)⟩
  · rintro ⟨hc, hne⟩
    refine ⟨hc, fun he => hne (H.eq_of_contains hc hb ⟨he.le, ?_⟩ ⟨le_rfl, ?_⟩)⟩
    · have := H.nonempty c hc
      omega
    · have := H.nonempty b hb
      omega

/-- A fresh region of whole aligned pages overlaps no aligned page that holds
    a live block. -/
theorem Fresh.disjoint_of_within {P p q n : ℕ} (hf : H.Fresh ⟨p, n * P⟩) (hp : p % P = 0)
    (hq : q % P = 0) (hb : b ∈ H.live) (hbq : b.Within ⟨q, P⟩) (hb0 : 0 < b.len) :
    (⟨p, n * P⟩ : Block).Disjoint ⟨q, P⟩ := by
  by_contra h
  -- the page lies inside the region, so the live block does too
  have hin : b.Within ⟨p, n * P⟩ := by
    have hq' := within_of_aligned hp hq h
    unfold Within at hbq hq' ⊢
    simp only at hbq hq' ⊢
    omega
  exact not_disjoint_of_within hin hb0 (hf b hb).symm

end Heap

end Blocks
