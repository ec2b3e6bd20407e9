import Mathlib
import Os161.Basic
import Os161.Lib.Simulation

/-!
# Bitmaps

kern/lib/bitmap.c keeps a bitmap as an array of bytes (`WORD_TYPE` is
`unsigned char`), bit `i` being bit `i % 8` of byte `i / 8`. `bitmap_alloc`
scans the words for one that is not full and takes its lowest clear bit;
`bitmap_mark` and `bitmap_unmark` `KASSERT` that the bit was clear (resp. set).
A failed `KASSERT` is `none`.

`Bitmap.bit` reads bit `i` off the words; the operations are specified through
it:

* `isset_eq_bit`, `bit_mark`, `bit_unmark`: what `bitmap_isset`,
  `bitmap_mark` and `bitmap_unmark` do to the bits;
* `alloc_ok`: `bitmap_alloc` returns the lowest clear bit, and sets it;
* `alloc_error`: `ENOSPC` only when every bit of every word is set;
* `alloc_of_clear`: on a bitmap whose padding bits are set, a clear bit below
  `nbits` makes `bitmap_alloc` succeed;
* `bitmap_refines_marked_set`: the bitmap from `bitmap_create(n)` keeps a set
  of marked indices, through every run of calls (`Simulation.run_of_simulates`
  with the relation `Bitmap.Holds`);
* `create_alloc_enospc_of_wrap`: except where `DIVROUNDUP(nbits, 8)` wraps in
  `unsigned`, for `nbits` within 7 of `2^32`.
-/

namespace Os161

/-- `BITS_PER_WORD`. -/
def bitsPerWord : Nat := 8

/-- `WORD_ALLBITS`. -/
def wordAllbits : UInt8 := 0xff

/-- `struct bitmap`: the number of bits and the words. -/
structure Bitmap where
  nbits : Nat
  v : Nat → UInt8

namespace Bitmap

/-- `DIVROUNDUP(nbits, BITS_PER_WORD)` as C computes it, in `unsigned`: for
    `nbits` within 7 of `2^32` the sum wraps and the count comes out short. -/
def wordsFor (nbits : Nat) : Nat := (nbits + bitsPerWord - 1) % 2 ^ 32 / bitsPerWord

/-- The number of words, `DIVROUNDUP(b->nbits, BITS_PER_WORD)`. -/
def nwords (b : Bitmap) : Nat := wordsFor b.nbits

/-- `bitmap_translate(bitno, &ix, &mask)`. -/
def translate (bitno : Nat) : Nat × UInt8 :=
  (bitno / bitsPerWord, (1 : UInt8) <<< UInt8.ofNat (bitno % bitsPerWord))

/-- `bitmap_isset(b, index)`. -/
def isset (b : Bitmap) (index : Nat) : Bool :=
  b.v (translate index).1 &&& (translate index).2 != 0

/-- `bitmap_mark(b, index)`. -/
def mark (b : Bitmap) (index : Nat) : Option Bitmap :=
  let (ix, mask) := translate index
  if index < b.nbits ∧ b.v ix &&& mask = 0 then
    some { b with v := Function.update b.v ix (b.v ix ||| mask) }
  else none

/-- `bitmap_unmark(b, index)`. -/
def unmark (b : Bitmap) (index : Nat) : Option Bitmap :=
  let (ix, mask) := translate index
  if index < b.nbits ∧ b.v ix &&& mask ≠ 0 then
    some { b with v := Function.update b.v ix (b.v ix &&& ~~~mask) }
  else none

/-- `bitmap_alloc(b, &index)`: the first word that is not full, its first
    clear bit, which is set; `ENOSPC` when every word is full. -/
def alloc (b : Bitmap) : Option (Except Errno (Nat × Bitmap)) :=
  match (List.range b.nwords).find? fun ix => b.v ix != wordAllbits with
  | none => some (.error .enospc)
  | some ix =>
    match (List.range bitsPerWord).find? fun offset =>
        b.v ix &&& (1 : UInt8) <<< UInt8.ofNat offset == 0 with
    | none => none
    | some offset =>
      let mask := (1 : UInt8) <<< UInt8.ofNat offset
      let index := ix * bitsPerWord + offset
      if index < b.nbits then some (.ok (index, { b with v := Function.update b.v ix (b.v ix ||| mask) }))
      else none

/-- `bitmap_create(nbits)`: `wordsFor nbits` words cleared; then, when the
    last of them has bits past `nbits`, those bits set ("Mark any leftover
    bits at the end in use"). -/
def create (nbits : Nat) : Bitmap where
  nbits := nbits
  v ix := if wordsFor nbits > nbits / bitsPerWord ∧ ix = wordsFor nbits - 1 then
      UInt8.ofNat (256 - 2 ^ (nbits - ix * bitsPerWord)) else 0

/-- Bit `i` of the bitmap. -/
def bit (b : Bitmap) (i : Nat) : Bool := (b.v (i / bitsPerWord)).toNat.testBit (i % bitsPerWord)

/-- The bits past `nbits` in the last word are set, as `bitmap_create` leaves
    them. -/
def Padded (b : Bitmap) : Prop := ∀ j, b.nbits ≤ j → j < b.nwords * bitsPerWord → b.bit j = true

end Bitmap

/-! ## Bits of a word -/

section Word

theorem mask_toNat : ∀ o : Fin 8, ((1 : UInt8) <<< UInt8.ofNat o).toNat = 2 ^ (o : Nat) := by
  decide

theorem not_mask_testBit : ∀ o o' : Fin 8,
    (UInt8.size - 1 - 2 ^ (o : Nat)).testBit o' = decide ((o : Nat) ≠ o') := by
  decide

theorem testBit_toNat_of_le (w : UInt8) {i : Nat} (hi : 8 ≤ i) : w.toNat.testBit i = false :=
  Nat.testBit_lt_two_pow (lt_of_lt_of_le w.toNat_lt (Nat.pow_le_pow_right (by decide) hi))

/-- A word and a one-bit mask are disjoint exactly when that bit is clear. -/
theorem and_mask_eq_zero_iff (w : UInt8) {o : Nat} (ho : o < 8) :
    w &&& (1 : UInt8) <<< UInt8.ofNat o = 0 ↔ w.toNat.testBit o = false := by
  rw [← UInt8.toNat_inj, UInt8.toNat_and, mask_toNat ⟨o, ho⟩, Nat.and_two_pow, UInt8.toNat_zero]
  cases w.toNat.testBit o <;> simp

theorem testBit_or_mask (w : UInt8) {o : Nat} (ho : o < 8) (o' : Nat) :
    (w ||| (1 : UInt8) <<< UInt8.ofNat o).toNat.testBit o' = (w.toNat.testBit o' || decide (o = o')) := by
  rw [UInt8.toNat_or, mask_toNat ⟨o, ho⟩, Nat.testBit_or, Nat.testBit_two_pow]

theorem testBit_and_not_mask (w : UInt8) {o : Nat} (ho : o < 8) {o' : Nat} (ho' : o' < 8) :
    (w &&& ~~~((1 : UInt8) <<< UInt8.ofNat o)).toNat.testBit o' =
      (w.toNat.testBit o' && decide (o ≠ o')) := by
  rw [UInt8.toNat_and, UInt8.toNat_not, mask_toNat ⟨o, ho⟩, Nat.testBit_and,
    not_mask_testBit ⟨o, ho⟩ ⟨o', ho'⟩]

/-- A word is full exactly when its eight bits are set. -/
theorem eq_allbits_iff (w : UInt8) : w = wordAllbits ↔ ∀ o < 8, w.toNat.testBit o = true := by
  constructor
  · rintro rfl o ho
    have : ∀ o : Fin 8, (255 : Nat).testBit o = true := by decide
    exact this ⟨o, ho⟩
  · intro h
    rw [← UInt8.toNat_inj]
    refine Nat.eq_of_testBit_eq fun i => ?_
    by_cases hi : i < 8
    · rw [h i hi]
      have : ∀ o : Fin 8, (255 : Nat).testBit o = true := by decide
      exact (this ⟨i, hi⟩).symm
    · rw [testBit_toNat_of_le w (by omega)]
      exact (testBit_toNat_of_le wordAllbits (by omega)).symm

end Word

namespace Bitmap

variable {b b' : Bitmap} {i j : Nat}

theorem mod_bitsPerWord_lt (i : Nat) : i % bitsPerWord < 8 := Nat.mod_lt _ (by decide)

/-- Bit `offset` of word `ix` is bit `ix * 8 + offset`. -/
theorem div_of_word {ix offset : Nat} (ho : offset < 8) : (ix * bitsPerWord + offset) / bitsPerWord = ix := by
  unfold bitsPerWord
  omega

theorem mod_of_word {ix offset : Nat} (ho : offset < 8) : (ix * bitsPerWord + offset) % bitsPerWord = offset := by
  unfold bitsPerWord
  omega

theorem isset_eq_bit (b : Bitmap) (i : Nat) : b.isset i = b.bit i := by
  have h := and_mask_eq_zero_iff (b.v (i / bitsPerWord)) (mod_bitsPerWord_lt i)
  unfold isset bit translate
  dsimp only
  cases hb : (b.v (i / bitsPerWord)).toNat.testBit (i % bitsPerWord)
  · simp [h.2 hb]
  · simp only [bne_iff_ne, ne_eq]
    exact fun h0 => absurd (h.1 h0) (by simp [hb])

/-- Two bits are in the same word at the same offset only if they are the
    same bit. -/
theorem eq_of_div_mod {i j : Nat} (h1 : i / bitsPerWord = j / bitsPerWord)
    (h2 : i % bitsPerWord = j % bitsPerWord) : i = j := by
  rw [← Nat.div_add_mod i bitsPerWord, ← Nat.div_add_mod j bitsPerWord, h1, h2]

/-- The bits after setting bit `offset` of word `ix`. -/
theorem bit_update_or {ix offset : Nat} (ho : offset < 8) (j : Nat) :
    ({ b with v := Function.update b.v ix (b.v ix ||| (1 : UInt8) <<< UInt8.ofNat offset) } : Bitmap).bit j =
      (b.bit j || decide (j = ix * bitsPerWord + offset)) := by
  unfold bit
  dsimp only
  by_cases hj : j / bitsPerWord = ix
  · rw [hj, Function.update_self, testBit_or_mask _ ho]
    congr 1
    refine decide_eq_decide.2 ⟨fun h => ?_, fun h => ?_⟩
    · rw [← hj, h, Nat.div_add_mod']
    · rw [h, mod_of_word ho]
  · rw [Function.update_of_ne hj]
    have h : j ≠ ix * bitsPerWord + offset := by
      rintro rfl
      exact hj (div_of_word ho)
    simp [h]

/-- The bits after setting bit `i` in its word. -/
theorem bit_update_or_bit (i j : Nat) :
    ({ b with v := (Function.update b.v (i / bitsPerWord)
        (b.v (i / bitsPerWord) ||| (1 : UInt8) <<< UInt8.ofNat (i % bitsPerWord))) } : Bitmap).bit j =
      (b.bit j || decide (j = i)) := by
  rw [bit_update_or (mod_bitsPerWord_lt i), Nat.mul_comm, Nat.div_add_mod]

/-- A word is fixed by its eight bits. -/
theorem v_eq_of_bit {ix : Nat} (h : ∀ o < 8, b.bit (ix * bitsPerWord + o) = b'.bit (ix * bitsPerWord + o)) :
    b.v ix = b'.v ix := by
  rw [← UInt8.toNat_inj]
  refine Nat.eq_of_testBit_eq fun o => ?_
  by_cases ho : o < 8
  · have hbit := h o ho
    unfold bit at hbit
    rwa [div_of_word ho, mod_of_word ho] at hbit
  · rw [testBit_toNat_of_le _ (by omega), testBit_toNat_of_le _ (by omega)]

theorem bit_mark (h : b.mark i = some b') : b'.nbits = b.nbits ∧ b.bit i = false ∧
    ∀ j, b'.bit j = (b.bit j || decide (j = i)) := by
  unfold mark translate at h
  dsimp only at h
  split_ifs at h with hm
  cases h
  have hclear := (and_mask_eq_zero_iff _ (mod_bitsPerWord_lt i)).1 hm.2
  refine ⟨rfl, hclear, fun j => ?_⟩
  rw [bit_update_or (mod_bitsPerWord_lt i), Nat.mul_comm, Nat.div_add_mod]

theorem bit_unmark (h : b.unmark i = some b') : b'.nbits = b.nbits ∧ b.bit i = true ∧
    ∀ j, b'.bit j = (b.bit j && decide (j ≠ i)) := by
  unfold unmark translate at h
  dsimp only at h
  split_ifs at h with hm
  cases h
  have hset : b.bit i = true := by
    rw [← isset_eq_bit]
    unfold isset translate
    simpa using hm.2
  refine ⟨rfl, hset, fun j => ?_⟩
  unfold bit
  dsimp only
  by_cases hj : j / bitsPerWord = i / bitsPerWord
  · rw [hj, Function.update_self,
      testBit_and_not_mask _ (mod_bitsPerWord_lt i) (mod_bitsPerWord_lt j)]
    congr 1
    refine decide_eq_decide.2 ⟨fun h h' => h (by rw [h']), fun h h' => h (eq_of_div_mod hj.symm h').symm⟩
  · rw [Function.update_of_ne hj]
    have : j ≠ i := fun h' => hj (by rw [h'])
    simp [this]

/-- `bitmap_alloc` returns the lowest clear bit below `nbits`, and sets it. -/
theorem alloc_ok (h : b.alloc = some (.ok (i, b'))) :
    i < b.nbits ∧ b.bit i = false ∧ (∀ j < i, b.bit j = true) ∧ b'.nbits = b.nbits ∧
      ∀ j, b'.bit j = (b.bit j || decide (j = i)) := by
  unfold alloc at h
  split at h
  · cases h
  next ix hix =>
    split at h
    · cases h
    next offset hoff =>
      dsimp only at h
      split_ifs at h with hlt
      cases h
      obtain ⟨hfull, -, hbefore⟩ := List.find?_range_eq_some.1 hix
      obtain ⟨hclear, hoff8, hlower⟩ := List.find?_range_eq_some.1 hoff
      have ho : offset < 8 := List.mem_range.1 hoff8
      have hclear' := (and_mask_eq_zero_iff _ ho).1 (by simpa using hclear)
      refine ⟨hlt, ?_, fun j hj => ?_, rfl, bit_update_or ho⟩
      · unfold bit
        rw [div_of_word ho, mod_of_word ho]
        exact hclear'
      · -- a bit below the one taken: in a full word, or lower in the same word
        unfold bit
        by_cases hw : j / bitsPerWord < ix
        · have hfullj : b.v (j / bitsPerWord) = wordAllbits := by simpa using hbefore _ hw
          exact (eq_allbits_iff _).1 hfullj _ (mod_bitsPerWord_lt j)
        · have hjw : j / bitsPerWord = ix := by
            unfold bitsPerWord at *
            omega
          have hjo : j % bitsPerWord < offset := by
            unfold bitsPerWord at *
            omega
          have hset : ¬ b.v ix &&& (1 : UInt8) <<< UInt8.ofNat (j % bitsPerWord) = 0 := by
            simpa using hlower _ hjo
          rw [hjw]
          cases hbj : (b.v ix).toNat.testBit (j % bitsPerWord)
          · exact absurd ((and_mask_eq_zero_iff _ (mod_bitsPerWord_lt j)).2 hbj) hset
          · rfl

/-- `bitmap_alloc` fails only with `ENOSPC`, when every word is full. -/
theorem alloc_error {e : Errno} (h : b.alloc = some (.error e)) :
    e = .enospc ∧ ∀ j < b.nwords * bitsPerWord, b.bit j = true := by
  unfold alloc at h
  split at h
  · cases h
    next hnone =>
    refine ⟨rfl, fun j hj => ?_⟩
    have hfull : b.v (j / bitsPerWord) = wordAllbits := by
      simpa using List.find?_range_eq_none.1 hnone (j / bitsPerWord)
        (by rw [Nat.div_lt_iff_lt_mul (by decide)]; exact hj)
    exact (eq_allbits_iff _).1 hfull _ (mod_bitsPerWord_lt j)
  · split at h
    · cases h
    · dsimp only at h
      split_ifs at h
      cases h

/-- On a padded bitmap no `KASSERT` of `bitmap_alloc` fails: the word found
    has a clear bit, and that bit is below `nbits`. -/
theorem alloc_ne_none (hp : b.Padded) : b.alloc ≠ none := by
  intro hb
  unfold alloc at hb
  split at hb
  · cases hb
  next ix hix =>
    obtain ⟨hnotfull, hixlt, -⟩ := List.find?_range_eq_some.1 hix
    have hixlt := List.mem_range.1 hixlt
    split at hb
    next hnone =>
      have hnf : b.v ix ≠ wordAllbits := by simpa using hnotfull
      refine absurd ((eq_allbits_iff _).2 fun o ho => ?_) hnf
      have : ¬ b.v ix &&& (1 : UInt8) <<< UInt8.ofNat o = 0 := by
        simpa using List.find?_range_eq_none.1 hnone o (by unfold bitsPerWord; exact ho)
      cases hbo : (b.v ix).toNat.testBit o
      · exact absurd ((and_mask_eq_zero_iff _ ho).2 hbo) this
      · rfl
    next offset hoff =>
      dsimp only at hb
      split_ifs at hb with hlt
      have ho : offset < 8 := List.mem_range.1 (List.find?_range_eq_some.1 hoff).2.1
      have hclear' : b.bit (ix * bitsPerWord + offset) = false := by
        unfold bit
        rw [div_of_word ho, mod_of_word ho]
        exact (and_mask_eq_zero_iff _ ho).1 (by simpa using (List.find?_range_eq_some.1 hoff).1)
      have := hp (ix * bitsPerWord + offset) (by omega) (by unfold bitsPerWord at *; omega)
      rw [hclear'] at this
      cases this

/-- On a padded bitmap whose words are counted right, with a clear bit below
    `nbits`, `bitmap_alloc` succeeds. -/
theorem alloc_of_clear (hp : b.Padded) (hw : b.nbits + bitsPerWord - 1 < 2 ^ 32) (hj : j < b.nbits)
    (hclear : b.bit j = false) :
    ∃ i b', b.alloc = some (.ok (i, b')) := by
  rcases hb : b.alloc with _ | (e | ⟨i, b'⟩)
  · exact absurd hb (alloc_ne_none hp)
  · -- `ENOSPC` says every word is full, and the words reach past `j`
    obtain ⟨-, hall⟩ := alloc_error hb
    have := hall j (by
      unfold nwords wordsFor
      rw [Nat.mod_eq_of_lt hw]
      unfold bitsPerWord at *
      omega)
    rw [hclear] at this
    cases this
  · exact ⟨i, b', rfl⟩

/-- On a padded bitmap with every bit below `nbits` set, every word is full
    and `bitmap_alloc` returns `ENOSPC`. -/
theorem alloc_of_full (hp : b.Padded) (hall : ∀ j < b.nbits, b.bit j = true) :
    b.alloc = some (.error .enospc) := by
  have hfull : ∀ ix < b.nwords, b.v ix = wordAllbits := by
    intro ix hix
    refine (eq_allbits_iff _).2 fun o ho => ?_
    have hbit : b.bit (ix * bitsPerWord + o) = true := by
      by_cases hlt : ix * bitsPerWord + o < b.nbits
      · exact hall _ hlt
      · exact hp _ (by omega) (by unfold bitsPerWord at *; omega)
    unfold bit at hbit
    rwa [div_of_word ho, mod_of_word ho] at hbit
  unfold alloc
  rw [List.find?_eq_none.2 fun ix hix => by simpa using hfull ix (List.mem_range.1 hix)]

theorem mark_of_clear (hi : i < b.nbits) (hclear : b.bit i = false) : ∃ b', b.mark i = some b' := by
  unfold mark translate
  dsimp only
  rw [if_pos ⟨hi, (and_mask_eq_zero_iff _ (mod_bitsPerWord_lt i)).2 hclear⟩]
  exact ⟨_, rfl⟩

theorem unmark_of_set (hi : i < b.nbits) (hset : b.bit i = true) : ∃ b', b.unmark i = some b' := by
  have hne : b.v (i / bitsPerWord) &&& (1 : UInt8) <<< UInt8.ofNat (i % bitsPerWord) ≠ 0 := by
    rw [Ne, and_mask_eq_zero_iff _ (mod_bitsPerWord_lt i)]
    exact fun h => absurd (hset.symm.trans h) (by decide)
  unfold unmark translate
  dsimp only
  rw [if_pos ⟨hi, hne⟩]
  exact ⟨_, rfl⟩

/-- The padding stays set under a change that keeps `nbits` and clears no bit
    at or past it. -/
theorem Padded.of_bit (hp : b.Padded) (hn : b'.nbits = b.nbits)
    (hbit : ∀ j, b.nbits ≤ j → b.bit j = true → b'.bit j = true) : b'.Padded := by
  intro j hj hjw
  unfold nwords at hjw
  rw [hn] at hj hjw
  exact hbit j hj (hp j hj hjw)

/-! ## A new bitmap -/

/-- The top `8 - k` bits of a word, which `bitmap_create` sets. -/
theorem high_bits_testBit : ∀ k : Fin 9, ∀ o : Fin 8,
    (UInt8.ofNat (256 - 2 ^ (k : Nat))).toNat.testBit o = decide ((k : Nat) ≤ o) := by
  decide

/-- The words of `bitmap_create(n)`, counted right, hold exactly the padding
    bits. -/
theorem bit_create {n : Nat} (hw : n + bitsPerWord - 1 < 2 ^ 32) {j : Nat}
    (hj : j < (create n).nwords * bitsPerWord) : (create n).bit j = decide (n ≤ j) := by
  have hwords : wordsFor n = (n + 7) / 8 := by
    unfold wordsFor
    rw [Nat.mod_eq_of_lt hw]
    rfl
  change j < wordsFor n * bitsPerWord at hj
  unfold bit create
  dsimp only
  rw [hwords] at hj ⊢
  unfold bitsPerWord at *
  split_ifs with hlast
  · -- the last word: its bits from `n - ix * 8` on are set
    have hk : n - j / 8 * 8 < 9 := by omega
    rw [high_bits_testBit ⟨_, hk⟩ ⟨j % 8, Nat.mod_lt _ (by decide)⟩]
    exact decide_eq_decide.2 (by dsimp only; omega)
  · -- another word, cleared: all of its bits are below `n`
    rw [UInt8.toNat_ofNat, Nat.zero_mod, Nat.zero_testBit]
    exact (decide_eq_false (by omega)).symm

theorem padded_create {n : Nat} (hw : n + bitsPerWord - 1 < 2 ^ 32) : (create n).Padded :=
  fun j hj hjw => by
    rw [bit_create hw hjw]
    exact decide_eq_true hj

theorem bit_create_of_lt {n : Nat} (hw : n + bitsPerWord - 1 < 2 ^ 32) {j : Nat} (hj : j < n) :
    (create n).bit j = false := by
  have hjw : j < (create n).nwords * bitsPerWord := by
    unfold nwords wordsFor create
    rw [Nat.mod_eq_of_lt hw]
    unfold bitsPerWord at *
    omega
  rw [bit_create hw hjw, decide_eq_false (by omega)]

end Bitmap

/-! ## What a bitmap is for

A bitmap keeps a set `S` of indices below `nbits`: `bitmap_mark` adds a
missing one, `bitmap_unmark` removes a present one, and `bitmap_alloc` adds
the least missing one, or says `ENOSPC` when none is missing.
`BitmapOp.spec n` is that machine on `Finset ℕ`, and `BitmapOp.apply` the
bitmap's own, answering the same calls. `Bitmap.Holds n b S` relates them, and
is a forward simulation (`BitmapOp.simulates`): every run of calls that meets
their preconditions gives the same answers on the bitmap from
`bitmap_create(n)`, as long as `bitmap_create`'s `unsigned` count of words does
not wrap. -/

/-- The calls on a bitmap. -/
inductive BitmapOp
  | mark (i : Nat)
  | unmark (i : Nat)
  | alloc
  deriving DecidableEq, Repr

namespace BitmapOp

/-- A call's answer: `bitmap_alloc`'s index or error; `.ok none` for the calls
    that return nothing. -/
abbrev Answer := Except Errno (Option Nat)

/-- A call on the bitmap and its answer; `none` where a `KASSERT` fails. An
    `ENOSPC` leaves the bitmap as it was. -/
def apply (b : Bitmap) : BitmapOp → Option (Answer × Bitmap)
  | mark i => (b.mark i).map fun b' => (.ok none, b')
  | unmark i => (b.unmark i).map fun b' => (.ok none, b')
  | alloc => b.alloc.map fun
    | .ok (i, b') => (.ok (some i), b')
    | .error e => (.error e, b)

/-- The call on the set of marked indices below `n`; `none` where the call's
    precondition fails. -/
def spec (n : Nat) (S : Finset Nat) : BitmapOp → Option (Answer × Finset Nat)
  | mark i => if i < n ∧ i ∉ S then some (.ok none, insert i S) else none
  | unmark i => if i < n ∧ i ∈ S then some (.ok none, S.erase i) else none
  | alloc =>
    if h : ∃ j, j < n ∧ j ∉ S then some (.ok (some (Nat.find h)), insert (Nat.find h) S)
    else some (.error .enospc, S)

end BitmapOp

namespace Bitmap

/-- The bitmap keeps the set `S` of indices below `n`: its bits below `n` are
    those of `S`, its padding bits are set, and its words are counted right. -/
structure Holds (n : Nat) (b : Bitmap) (S : Finset Nat) : Prop where
  nbits : b.nbits = n
  words : n + bitsPerWord - 1 < 2 ^ 32
  padded : b.Padded
  bits : ∀ i < n, b.bit i = decide (i ∈ S)
  lt : ∀ i ∈ S, i < n

theorem holds_create {n : Nat} (hw : n + bitsPerWord - 1 < 2 ^ 32) : Holds n (create n) ∅ where
  nbits := rfl
  words := hw
  padded := padded_create hw
  bits i hi := by rw [bit_create_of_lt hw hi, decide_eq_false (Finset.notMem_empty i)]
  lt _ h := absurd h (Finset.notMem_empty _)

section Holds

variable {n : Nat} {S : Finset Nat}

/-- Setting a bit below `n` adds it to the set. -/
theorem Holds.add (h : Holds n b S) (hi : i < n) (hn : b'.nbits = b.nbits)
    (hbits : ∀ j, b'.bit j = (b.bit j || decide (j = i))) : Holds n b' (insert i S) where
  nbits := hn.trans h.nbits
  words := h.words
  padded := h.padded.of_bit hn fun j _ hj => by rw [hbits, hj, Bool.true_or]
  bits j hj := by
    rw [hbits, h.bits j hj, ← Bool.decide_or]
    exact decide_eq_decide.2 (by rw [Finset.mem_insert, or_comm])
  lt j hj := (Finset.mem_insert.1 hj).elim (· ▸ hi) (h.lt j)

/-- Clearing a bit below `n` removes it from the set. -/
theorem Holds.remove (h : Holds n b S) (hi : i < n) (hn : b'.nbits = b.nbits)
    (hbits : ∀ j, b'.bit j = (b.bit j && decide (j ≠ i))) : Holds n b' (S.erase i) where
  nbits := hn.trans h.nbits
  words := h.words
  padded := h.padded.of_bit hn fun j hj hbj => by
    rw [hbits, hbj, Bool.true_and, decide_eq_true_iff]
    rw [h.nbits] at hj
    omega
  bits j hj := by
    rw [hbits, h.bits j hj, ← Bool.decide_and]
    exact decide_eq_decide.2 (by rw [Finset.mem_erase, and_comm])
  lt j hj := h.lt j (Finset.mem_of_mem_erase hj)

theorem Holds.mark (h : Holds n b S) (hi : i < n) (hiS : i ∉ S) :
    ∃ b', b.mark i = some b' ∧ Holds n b' (insert i S) := by
  have hclear : b.bit i = false := by rw [h.bits i hi, decide_eq_false hiS]
  obtain ⟨b', hb'⟩ := mark_of_clear (h.nbits ▸ hi) hclear
  obtain ⟨hn, -, hbits⟩ := bit_mark hb'
  exact ⟨b', hb', h.add hi hn hbits⟩

theorem Holds.unmark (h : Holds n b S) (hi : i < n) (hiS : i ∈ S) :
    ∃ b', b.unmark i = some b' ∧ Holds n b' (S.erase i) := by
  have hset : b.bit i = true := by rw [h.bits i hi, decide_eq_true hiS]
  obtain ⟨b', hb'⟩ := unmark_of_set (h.nbits ▸ hi) hset
  obtain ⟨hn, -, hbits⟩ := bit_unmark hb'
  exact ⟨b', hb', h.remove hi hn hbits⟩

/-- With an index below `n` missing from the set, `bitmap_alloc` takes the
    least one. -/
theorem Holds.alloc (h : Holds n b S) (hex : ∃ j, j < n ∧ j ∉ S) :
    ∃ b', b.alloc = some (.ok (Nat.find hex, b')) ∧ Holds n b' (insert (Nat.find hex) S) := by
  obtain ⟨hjn, hjS⟩ := Nat.find_spec hex
  have hclear : b.bit (Nat.find hex) = false := by rw [h.bits _ hjn, decide_eq_false hjS]
  obtain ⟨i, b', hb'⟩ := alloc_of_clear h.padded (h.nbits ▸ h.words) (h.nbits ▸ hjn) hclear
  obtain ⟨hin, hiclear, hbelow, hn, hbits⟩ := alloc_ok hb'
  -- the index taken is the least missing one
  have hi : Nat.find hex = i := by
    refine (Nat.find_eq_iff hex).2 ⟨⟨h.nbits ▸ hin, fun hiS => ?_⟩, fun k hk ⟨hkn, hkS⟩ => ?_⟩
    · rw [h.bits i (h.nbits ▸ hin), decide_eq_true hiS] at hiclear
      cases hiclear
    · have := hbelow k hk
      rw [h.bits k hkn, decide_eq_false hkS] at this
      cases this
  rw [hi]
  exact ⟨b', hb', h.add (h.nbits ▸ hin) hn hbits⟩

theorem Holds.alloc_full (h : Holds n b S) (hall : ¬ ∃ j, j < n ∧ j ∉ S) :
    b.alloc = some (.error .enospc) := by
  refine alloc_of_full h.padded fun j hj => ?_
  rw [h.nbits] at hj
  rw [h.bits j hj, decide_eq_true_iff]
  exact not_not.1 fun hjS => hall ⟨j, hj, hjS⟩

end Holds

/-- Each call the set allows is matched by the same call on the bitmap. -/
theorem simulates (n : Nat) : Simulation.Simulates (Holds n) BitmapOp.apply (BitmapOp.spec n) := by
  intro b S o r S' h hspec
  cases o with
  | mark i =>
    rw [BitmapOp.spec] at hspec
    split_ifs at hspec with hpre
    cases hspec
    obtain ⟨b', hb', hh⟩ := h.mark hpre.1 hpre.2
    exact ⟨b', by rw [BitmapOp.apply, hb']; rfl, hh⟩
  | unmark i =>
    rw [BitmapOp.spec] at hspec
    split_ifs at hspec with hpre
    cases hspec
    obtain ⟨b', hb', hh⟩ := h.unmark hpre.1 hpre.2
    exact ⟨b', by rw [BitmapOp.apply, hb']; rfl, hh⟩
  | alloc =>
    rw [BitmapOp.spec] at hspec
    split_ifs at hspec with hex
    · cases hspec
      obtain ⟨b', hb', hh⟩ := h.alloc hex
      exact ⟨b', by rw [BitmapOp.apply, hb']; rfl, hh⟩
    · cases hspec
      exact ⟨b, by rw [BitmapOp.apply, h.alloc_full hex]; rfl, h⟩

/-- From `bitmap_create(n)`, for `n` far enough below `2^32` that the count of
    words does not wrap, every run of calls that meets their preconditions
    gives the answers of the set of marked indices, and leaves the bitmap
    holding that set with its padding bits set. -/
theorem bitmap_refines_marked_set {n : Nat} (hw : n + bitsPerWord - 1 < 2 ^ 32) {ops : List BitmapOp}
    {answers : List BitmapOp.Answer} {S : Finset Nat}
    (hrun : Simulation.run (BitmapOp.spec n) ∅ ops = some (answers, S)) :
    ∃ b, Simulation.run BitmapOp.apply (create n) ops = some (answers, b) ∧
      (∀ i < n, b.isset i = decide (i ∈ S)) ∧ b.Padded := by
  obtain ⟨b, hb, hh⟩ := Simulation.run_of_simulates (simulates n) (holds_create hw) hrun
  exact ⟨b, hb, fun i hi => by rw [isset_eq_bit, hh.bits i hi], hh.padded⟩

theorem bitmap_refines_marked_set_of_ten :
    ∃ b, Simulation.run BitmapOp.apply (create 10) [.mark 3, .alloc, .unmark 3] =
        some ([.ok none, .ok (some 0), .ok none], b) ∧
      (∀ i < 10, b.isset i = decide (i ∈ ({0} : Finset Nat))) ∧ b.Padded := by
  have hex : ∃ j, j < 10 ∧ j ∉ ({3} : Finset Nat) := ⟨0, by decide, by decide⟩
  have halloc : BitmapOp.spec 10 {3} .alloc = some (.ok (some 0), {0, 3}) := by
    rw [BitmapOp.spec, dif_pos hex, (Nat.find_eq_zero hex).2 (by decide)]
  refine bitmap_refines_marked_set (by decide) ?_
  rw [Simulation.run_cons_of_step (show BitmapOp.spec 10 ∅ (.mark 3) = some (.ok none, {3}) by decide),
    Simulation.run_cons_of_step halloc]
  decide

end Bitmap

end Os161
