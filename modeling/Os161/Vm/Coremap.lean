import Mathlib
import Os161.Basic

/-!
# The coremap of dumbvm

With `OPT_A3` (kern/conf/ASST3), dumbvm (kern/arch/mips/vm/dumbvm.c) manages
the physical frames with a coremap. Before `vm_bootstrap`, `getppages` steals
memory with `ram_stealmem` (kern/arch/mips/vm/ram.c). `vm_bootstrap` takes the
rest of the RAM, puts `struct coremap` and its two `int` arrays `inUse` and
`containNext` at its start, and manages the frames from the next page boundary
(`baseAddr`) on. From then on:

* `getppages(n)` looks for the first frame `i` from which `n` frames are free
  (first fit, skipping over a free run that is too short), marks them in use
  with `containNext` set on all but the last, and returns
  `baseAddr + i * PAGE_SIZE`; when there is none it returns `ENOMEM`;
* `free_kpages(a)` turns the address back into a frame index and frees frames
  along the `containNext` chain.

The arrays are modelled as functions on all `int` indices. In C an index
outside `[0, size)` reads and writes the memory around the arrays (the
`struct coremap` just below `inUse`, and the pages `ram_stealmem` handed out
before it): undefined behaviour, which the model records in the flag `wild` and
does not follow further.

* `getppages_spec`: a successful `getppages` returns the address of a run of
  `n` frames that were all free, are all in use afterwards, and no other frame
  changes;
* `getppages_first_fit`: for `1 ≤ n ≤ size`, `getppages(n)` returns `ENOMEM`
  only when no `n` consecutive frames are free, and otherwise the run that
  starts lowest; the skip over a free run too short passes over no fit
  (`not_fits_of_short`);
* `allocKpages_of_full_coremap`: once every frame is in use, `getppages`
  returns `ENOMEM`, `3`, and `alloc_kpages`, which tests for `0`, hands out the
  kernel address `0x80000003` as if it were a page;
* `freeKpages_wild_below_frames`: `free_kpages` of a page handed out by
  `ram_stealmem` before `vm_bootstrap` computes a negative frame index and
  reads `containNext` and writes `inUse` there, outside the arrays.

A run that `getppages` hands out is `Marked` until it is freed: in use, with
`containNext` on all but its last frame. Marking a free run leaves the other
runs in use as they are (`Marked.markRun`), and `free_kpages` of the kernel
address of a run's first frame (`frameIndex_frameVaddr`) frees exactly that
run (`freeKpages_marked`). `Os161.Vm.Kheap` builds the kernel heap's
invariant on these.
-/

namespace Os161.Dumbvm

/-- `struct coremap` (dumbvm.c): the first managed frame, the arrays, and the
    number of managed frames. -/
structure Coremap where
  baseAddr : Nat
  inUse : Int → Int
  containNext : Int → Int
  size : Int
  /-- set once `free_kpages` has read or written the arrays at a negative index -/
  wild : Bool

/-- The physical memory state of dumbvm: the free memory of ram.c
    (`firstpaddr`, `lastpaddr`), `iscmapCreated`, and `core_map`. -/
structure Vm where
  firstpaddr : Nat
  lastpaddr : Nat
  iscmapCreated : Bool
  coreMap : Coremap

/-! ## Before the coremap -/

/-- `ram_stealmem` (ram.c): the next `npages` pages of free memory, or `0` when
    there are not enough. -/
def ramStealmem (vm : Vm) (npages : Nat) : Nat × Vm :=
  if vm.firstpaddr + npages * pageSize > vm.lastpaddr then (0, vm)
  else (vm.firstpaddr, { vm with firstpaddr := vm.firstpaddr + npages * pageSize })

/-- `sizeof(struct coremap)`: a `paddr_t`, two pointers and an `int`. -/
def coremapStructSize : Nat := 16

/-- `(a - b) / PAGE_SIZE` on 32-bit physical addresses. -/
def pagesBetween (a b : Nat) : Nat := ((a + 2 ^ 32 - b) % 2 ^ 32) / pageSize

/-- `vm_bootstrap`: `ram_getsize` hands over the free memory `[lo, hi)`; the
    coremap and its arrays of `frameCount` entries go at `lo`, the managed
    frames start at the next page boundary, and the arrays are cleared. -/
def vmBootstrap (vm : Vm) : Vm :=
  let lo := vm.firstpaddr
  let hi := vm.lastpaddr
  let frameCount := pagesBetween hi lo
  let addrLo := lo + coremapStructSize + 4 * frameCount + 4 * frameCount
  -- `while (addr_lo % PAGE_SIZE != 0) addr_lo++;`
  let base := (addrLo + pageSize - 1) / pageSize * pageSize
  { firstpaddr := 0
    lastpaddr := 0
    iscmapCreated := true
    coreMap :=
      { baseAddr := base
        inUse := fun k => if 0 ≤ k ∧ k < frameCount then 0 else vm.coreMap.inUse k
        containNext := fun k => if 0 ≤ k ∧ k < frameCount then 0 else vm.coreMap.containNext k
        size := pagesBetween hi base
        wild := false } }

/-! ## `getppages` on the coremap -/

namespace Coremap

/-- The inner loop of `getppages`: counting the free frames from `sofar` on, up
    to `pageRequired` of them, stopping at `size` or at a frame in use. -/
def countFree (cm : Coremap) (pageRequired sofar count : Int) : Int :=
  if count < pageRequired ∧ sofar < cm.size then
    if cm.inUse sofar ≠ 0 then count
    else countFree cm pageRequired (sofar + 1) (count + 1)
  else count
termination_by (cm.size - sofar).toNat

/-- The count only grows. -/
theorem le_countFree (cm : Coremap) (pageRequired sofar count : Int) :
    count ≤ countFree cm pageRequired sofar count := by
  fun_induction countFree cm pageRequired sofar count with
  | case1 => exact le_rfl
  | case2 => omega
  | case3 => omega

/-- The outer loop of `getppages` from the frame `i`: the first free frame from
    which `pageRequired` frames are free. After a run too short, `i += count`
    and the loop's `i++` go past the frame that ended it. -/
def search (cm : Coremap) (pageRequired i : Int) : Option Int :=
  if i < cm.size then
    if cm.inUse i = 0 then
      if countFree cm pageRequired i 0 < pageRequired then
        search cm pageRequired (i + countFree cm pageRequired i 0 + 1)
      else some i
    else search cm pageRequired (i + 1)
  else none
termination_by (cm.size - i).toNat
decreasing_by
  · have := le_countFree cm pageRequired i 0
    omega
  · omega

/-- The marking loop of `getppages`: the frames `i .. i + pageRequired - 1` in
    use, with `containNext` set on all but the last. -/
def markRun (cm : Coremap) (i pageRequired : Int) : Coremap :=
  { cm with
    inUse := fun k => if i ≤ k ∧ k < i + pageRequired then 1 else cm.inUse k
    containNext := fun k =>
      if i ≤ k ∧ k < i + pageRequired then (if k ≠ i + pageRequired - 1 then 1 else 0)
      else cm.containNext k }

@[simp] theorem markRun_size (cm : Coremap) (i pageRequired : Int) :
    (cm.markRun i pageRequired).size = cm.size := rfl

@[simp] theorem markRun_baseAddr (cm : Coremap) (i pageRequired : Int) :
    (cm.markRun i pageRequired).baseAddr = cm.baseAddr := rfl

/-- The coremap branch of `getppages`: the address of the first fit, or
    `ENOMEM` when there is none; `none` when `KASSERT(core_map->size >=
    pageRequired)` fails. (The `KASSERT` on the returned address always
    holds.) -/
def getppages (cm : Coremap) (npages : Nat) : Option (Nat × Coremap) :=
  if cm.size < npages then none
  else
    match cm.search npages 0 with
    | some i => some (i.toNat * pageSize + cm.baseAddr, cm.markRun i npages)
    | none => some (Errno.enomem.toNat, cm)

/-- The frames `countFree` counts are free and managed: from `sofar`, one per
    unit the count grows by. -/
theorem countFree_free (cm : Coremap) (n sofar count : Int) :
    ∀ k, sofar ≤ k → k < sofar + (countFree cm n sofar count - count) →
      cm.inUse k = 0 ∧ k < cm.size := by
  fun_induction countFree cm n sofar count with
  | case1 sofar count _ _ =>
    intro k h₁ h₂
    omega
  | case2 sofar count hlt hfree ih =>
    intro k h₁ h₂
    rcases eq_or_lt_of_le h₁ with rfl | h₁
    · exact ⟨by simpa using hfree, hlt.2⟩
    · exact ih k (by omega) (by omega)
  | case3 sofar count _ =>
    intro k h₁ h₂
    omega

/-- The frame `search` returns comes at or after where it started, and has
    `pageRequired` free frames from it. -/
theorem search_spec {cm : Coremap} {n i j : Int} (h : cm.search n i = some j) :
    i ≤ j ∧ j < cm.size ∧ n ≤ cm.countFree n j 0 := by
  fun_induction cm.search n i with
  | case1 i _ _ _ ih =>
    have := le_countFree cm n i 0
    obtain ⟨hj, hs, hc⟩ := ih h
    exact ⟨by omega, hs, hc⟩
  | case2 i hlt _ hge =>
    cases h
    exact ⟨le_rfl, hlt, by omega⟩
  | case3 i _ _ ih =>
    obtain ⟨hj, hs, hc⟩ := ih h
    exact ⟨by omega, hs, hc⟩
  | case4 => cases h

/-- The run `search` finds is free and managed. -/
theorem search_run {cm : Coremap} {n i j : Int} (h : cm.search n i = some j) :
    i ≤ j ∧ j < cm.size ∧ ∀ k, j ≤ k → k < j + n → cm.inUse k = 0 ∧ k < cm.size := by
  obtain ⟨hij, hs, hn⟩ := search_spec h
  exact ⟨hij, hs, fun k h₁ h₂ => countFree_free cm n j 0 k h₁ (by omega)⟩

/-- With every managed frame in use, `search` finds nothing. -/
theorem search_eq_none_of_full {cm : Coremap} (hfull : ∀ k, 0 ≤ k → k < cm.size → cm.inUse k ≠ 0)
    {n i : Int} (hi : 0 ≤ i) : cm.search n i = none := by
  fun_induction cm.search n i with
  | case1 i hlt hfree _ _ => exact absurd hfree (hfull i hi hlt)
  | case2 i hlt hfree _ => exact absurd hfree (hfull i hi hlt)
  | case3 i _ _ ih => exact ih (by omega)
  | case4 => rfl

/-- Asked for no frames, `search` stops at the first free frame: the count of
    free frames from it, `0`, is never short of `0`. -/
theorem search_zero {cm : Coremap} {i k : Int} (hik : i ≤ k) (hk : k < cm.size) (hfree : cm.inUse k = 0) :
    ∃ j, cm.search 0 i = some j ∧ i ≤ j ∧ j ≤ k ∧ cm.inUse j = 0 := by
  fun_induction cm.search 0 i with
  | case1 i _ _ hshort _ =>
    have := le_countFree cm 0 i 0
    omega
  | case2 i _ hfree' _ => exact ⟨i, rfl, le_rfl, hik, hfree'⟩
  | case3 i _ hused ih =>
    -- the frame `i` is in use, so the free frame `k` lies past it
    have hik' : i + 1 ≤ k := by
      rcases lt_or_eq_of_le hik with h | rfl
      · omega
      · exact absurd hfree hused
    obtain ⟨j, hj, h₁, h₂, h₃⟩ := ih hik'
    exact ⟨j, hj, by omega, h₂, h₃⟩
  | case4 i hge => omega

theorem markRun_inUse_of_mem {cm : Coremap} {i n k : Int} (h₁ : i ≤ k) (h₂ : k < i + n) :
    (cm.markRun i n).inUse k = 1 := by
  simp [markRun, h₁, h₂]

theorem markRun_inUse_of_not_mem {cm : Coremap} {i n k : Int} (h : ¬ (i ≤ k ∧ k < i + n)) :
    (cm.markRun i n).inUse k = cm.inUse k := by
  simp only [markRun, if_neg h]

/-- Marking no frames changes no frame. -/
@[simp] theorem markRun_zero_inUse (cm : Coremap) (i : Int) : (cm.markRun i 0).inUse = cm.inUse :=
  funext fun _ => markRun_inUse_of_not_mem (by omega)

/-- A successful `getppages` of `n` frames: `ENOMEM` when no run is found, and
    otherwise the address of a run of `n` managed frames, all free before and in
    use after, every other frame keeping its `inUse` flag. -/
theorem getppages_spec {cm cm' : Coremap} {n addr : Nat} (h : cm.getppages n = some (addr, cm')) :
    (cm.search n 0 = none ∧ addr = Errno.enomem.toNat ∧ cm' = cm) ∨
    ∃ i : Int, 0 ≤ i ∧ i + n ≤ cm.size ∧ addr = i.toNat * pageSize + cm.baseAddr ∧
      (∀ k, i ≤ k → k < i + n → cm.inUse k = 0 ∧ cm'.inUse k = 1) ∧
      (∀ k, ¬ (i ≤ k ∧ k < i + n) → cm'.inUse k = cm.inUse k) := by
  unfold getppages at h
  split at h
  · cases h
  · split at h
    · next i hs =>
      cases h
      obtain ⟨hi, hsize, hrun⟩ := search_run hs
      refine .inr ⟨i, hi, ?_, rfl, fun k h₁ h₂ => ⟨(hrun k h₁ h₂).1, markRun_inUse_of_mem h₁ h₂⟩,
        fun k hk => markRun_inUse_of_not_mem hk⟩
      -- the run is managed: its last frame is below `size`, when it is not empty
      rcases Nat.eq_zero_or_pos n with hn | hn
      · subst hn
        omega
      · have := (hrun (i + n - 1) (by omega) (by omega)).2
        omega
    · next hs =>
      cases h
      exact .inl ⟨hs, rfl, rfl⟩

/-! ## First fit -/

/-- The `n` frames from `j` are managed and free. -/
def Fits (cm : Coremap) (n : Nat) (j : Int) : Prop :=
  0 ≤ j ∧ j + n ≤ cm.size ∧ ∀ d < n, cm.inUse (j + d) = 0

instance (cm : Coremap) (n : Nat) (j : Int) : Decidable (cm.Fits n j) :=
  inferInstanceAs (Decidable (_ ∧ _ ∧ _))

/-- When `countFree` stops short of `pageRequired`, the frame it stopped at is
    past the end of the coremap or in use. -/
theorem countFree_stop (cm : Coremap) (n sofar count : Int) :
    countFree cm n sofar count < n →
      cm.size ≤ sofar + (countFree cm n sofar count - count) ∨
        cm.inUse (sofar + (countFree cm n sofar count - count)) ≠ 0 := by
  fun_induction countFree cm n sofar count with
  | case1 sofar count _ hused =>
    intro _
    exact .inr (by simpa using hused)
  | case2 sofar count _ _ ih =>
    intro hshort
    rcases ih hshort with hend | hused
    · exact .inl (by omega)
    · refine .inr ?_
      rwa [show sofar + 1 + (countFree cm n (sofar + 1) (count + 1) - (count + 1)) =
        sofar + (countFree cm n (sofar + 1) (count + 1) - count) by omega] at hused
  | case3 sofar count hstop =>
    intro hshort
    exact .inl (by omega)

/-- A free run from `i` too short for `n` frames: no run of `n` free frames
    starts at `i` or after it, up to the frame that ended the run. The skip
    `i += count` of `getppages` passes over no fit. -/
theorem not_fits_of_short {cm : Coremap} {n : Nat} {i k : Int}
    (hshort : cm.countFree n i 0 < n) (hik : i ≤ k) (hk : k ≤ i + cm.countFree n i 0) :
    ¬ cm.Fits n k := by
  rintro ⟨-, hend, hfree⟩
  have hc := le_countFree cm n i 0
  rcases countFree_stop cm n i 0 hshort with hstop | hused
  · omega
  · -- the frame that ended the run lies in the run from `k`
    have hk' := hfree (i + cm.countFree n i 0 - k).toNat (by omega)
    rw [Int.toNat_of_nonneg (by omega)] at hk'
    exact hused (by rwa [show k + (i + cm.countFree n i 0 - k) = i + (cm.countFree n i 0 - 0) by omega]
      at hk')

/-- `search` from `i` finds the lowest frame from `i` on where `n` frames fit,
    and nothing when there is none. -/
theorem search_first_fit {cm : Coremap} {n : Nat} (hn : 1 ≤ n) (i : Int) :
    0 ≤ i →
      (∀ j, cm.search n i = some j → i ≤ j ∧ cm.Fits n j ∧ ∀ k, i ≤ k → k < j → ¬ cm.Fits n k) ∧
      (cm.search n i = none → ∀ k, i ≤ k → ¬ cm.Fits n k) := by
  fun_induction cm.search n i with
  | case1 i _ _ hshort ih =>
    -- a free run too short: the search goes on past the frame that ended it
    intro hi
    have hc := le_countFree cm n i 0
    obtain ⟨ih₁, ih₂⟩ := ih (by omega)
    have hskip : ∀ k, i ≤ k → k < i + cm.countFree n i 0 + 1 → ¬ cm.Fits n k :=
      fun k h₁ h₂ => not_fits_of_short hshort h₁ (by omega)
    refine ⟨fun j hj => ?_, fun hj k hk => ?_⟩
    · obtain ⟨h₁, h₂, h₃⟩ := ih₁ j hj
      refine ⟨by omega, h₂, fun k hk hkj => ?_⟩
      by_cases hkc : k < i + cm.countFree n i 0 + 1
      · exact hskip k hk hkc
      · exact h₃ k (by omega) hkj
    · by_cases hkc : k < i + cm.countFree n i 0 + 1
      · exact hskip k hk hkc
      · exact ih₂ hj k (by omega)
  | case2 i _ _ hlong =>
    -- `n` free frames from `i`
    intro hi
    refine ⟨fun j hj => ?_, fun hj => nomatch hj⟩
    cases hj
    have hrun := countFree_free cm n i 0
    have hend := (hrun (i + n - 1) (by omega) (by omega)).2
    exact ⟨le_rfl, ⟨hi, by omega, fun d hd => (hrun (i + d) (by omega) (by omega)).1⟩,
      fun k h₁ h₂ => absurd h₂ (by omega)⟩
  | case3 i _ hused ih =>
    -- the frame `i` is in use: no fit starts at `i`
    intro hi
    obtain ⟨ih₁, ih₂⟩ := ih (by omega)
    have hnot : ¬ cm.Fits n i := by
      rintro ⟨-, -, hf⟩
      exact hused (by simpa using hf 0 (by omega))
    refine ⟨fun j hj => ?_, fun hj k hk => ?_⟩
    · obtain ⟨h₁, h₂, h₃⟩ := ih₁ j hj
      refine ⟨by omega, h₂, fun k hk hkj => ?_⟩
      rcases eq_or_lt_of_le hk with rfl | hk
      · exact hnot
      · exact h₃ k (by omega) hkj
    · rcases eq_or_lt_of_le hk with rfl | hk
      · exact hnot
      · exact ih₂ hj k (by omega)
  | case4 i hend =>
    intro _
    constructor
    · intro j hj
      cases hj
    · rintro - k hk ⟨-, hk', -⟩
      omega

/-- The search from frame `0` finds the lowest fit. -/
theorem search_of_least_fit {cm : Coremap} {n : Nat} (hn : 1 ≤ n) {j : Int} (hj : cm.Fits n j)
    (hleast : ∀ k, k < j → ¬ cm.Fits n k) : cm.search n 0 = some j := by
  obtain ⟨hsome, hnone⟩ := (search_first_fit hn 0 le_rfl : _ ∧ (cm.search n 0 = none → _))
  cases h : cm.search n 0 with
  | none => exact absurd hj (hnone h j hj.1)
  | some j' =>
    obtain ⟨h₀, hj', hleast'⟩ := hsome j' h
    rcases lt_trichotomy j' j with hlt | rfl | hgt
    · exact absurd hj' (hleast j' hlt)
    · rfl
    · exact absurd hj (hleast' j hj.1 hgt)

/-- With no fit, the search from frame `0` finds nothing. -/
theorem search_of_no_fit {cm : Coremap} {n : Nat} (hn : 1 ≤ n) (hno : ∀ j, ¬ cm.Fits n j) :
    cm.search n 0 = none := by
  cases h : cm.search n 0 with
  | none => rfl
  | some j => exact absurd ((search_first_fit hn 0 le_rfl).1 j h).2.1 (hno j)

/-! ## One frame at a time -/

/-- The managed frames below `k` are in use, the others free: the coremap of
    a system that has only taken frames one at a time since `vm_bootstrap`. -/
def UsedBelow (cm : Coremap) (k : Int) : Prop :=
  ∀ j, 0 ≤ j → j < cm.size → (cm.inUse j = 0 ↔ k ≤ j)

/-- `countFree` of one frame at a free frame. -/
theorem countFree_one_of_free {cm : Coremap} {k : Int} (hk : k < cm.size) (hfree : cm.inUse k = 0) :
    cm.countFree 1 k 0 = 1 := by
  rw [countFree, if_pos ⟨by omega, hk⟩, if_neg (by simpa using hfree), countFree,
    if_neg (by omega), Int.zero_add]

/-- The first fit for one frame is the first free frame. -/
theorem search_one_usedBelow {cm : Coremap} {k : Int} (h : cm.UsedBelow k) (hk0 : 0 ≤ k)
    (hk : k < cm.size) : ∀ d : Nat, d ≤ k → cm.search 1 (k - d) = some k
  | 0, _ => by
    have hfree : cm.inUse k = 0 := (h k hk0 hk).2 le_rfl
    rw [Nat.cast_zero, Int.sub_zero, search, if_pos hk, if_pos hfree, countFree_one_of_free hk hfree,
      if_neg (by omega)]
  | d + 1, hd => by
    -- the frame `k - (d + 1)` is in use: the search moves on to `k - d`
    have hused : cm.inUse (k - (d + 1 : Nat)) ≠ 0 := fun h0 =>
      absurd ((h _ (by omega) (by omega)).1 h0) (by omega)
    rw [search, if_pos (by omega), if_neg hused, show k - ((d + 1 : Nat) : Int) + 1 = k - d by omega]
    exact search_one_usedBelow h hk0 hk d (by omega)

theorem getppages_one_usedBelow {cm : Coremap} {k : Int} (h : cm.UsedBelow k) (hk0 : 0 ≤ k)
    (hk : k < cm.size) :
    cm.getppages 1 = some (k.toNat * pageSize + cm.baseAddr, cm.markRun k 1) := by
  have hs : cm.search 1 0 = some k := by
    have := search_one_usedBelow h hk0 hk k.toNat (by omega)
    rwa [Int.toNat_of_nonneg hk0, Int.sub_self] at this
  rw [getppages, if_neg (by omega)]
  simp only [Nat.cast_one, hs]

/-- Taking the frame `k` moves the boundary on by one. -/
theorem usedBelow_markRun {cm : Coremap} {k : Int} (h : cm.UsedBelow k) :
    (cm.markRun k 1).UsedBelow (k + 1) := by
  intro j hj0 hj
  by_cases hjk : j = k
  · subst hjk
    rw [markRun_inUse_of_mem le_rfl (by omega)]
    omega
  · rw [markRun_inUse_of_not_mem (by omega)]
    have := h j hj0 hj
    omega

/-! ## `free_kpages` on the coremap -/

/-- `int targetAddr = addr - (core_map->baseAddr + MIPS_KSEG0);` and
    `targetAddr /= PAGE_SIZE;`: the 32-bit difference read as an `int`, divided
    rounding towards zero. -/
def frameIndex (cm : Coremap) (addr : Nat) : Int :=
  (BitVec.ofNat 32 addr - BitVec.ofNat 32 (cm.baseAddr + mipsKseg0)).toInt.tdiv pageSize

/-- The loop of `free_kpages` from the index `i`: frames are freed while
    `i < size` and `containNext[i] == 1`; it returns `inUse` and the index it
    stops at. -/
def freeLoop (size : Int) (containNext inUse : Int → Int) (i : Int) : (Int → Int) × Int :=
  if i < size ∧ containNext i = 1 then freeLoop size containNext (Function.update inUse i 0) (i + 1)
  else (inUse, i)
termination_by (size - i).toNat

/-- The coremap branch of `free_kpages`: the loop, then the frame it stopped at,
    if it is below `size`. The loop's first test reads `containNext` at the
    frame index whenever it is below `size`, so a negative index is an access
    outside the arrays. -/
def freeKpages (cm : Coremap) (addr : Nat) : Coremap :=
  let r := freeLoop cm.size cm.containNext cm.inUse (cm.frameIndex addr)
  { cm with inUse := if r.2 < cm.size then Function.update r.1 r.2 0 else r.1
            wild := cm.wild || decide (cm.frameIndex addr < 0 ∧ cm.frameIndex addr < cm.size) }

end Coremap

/-! ## The VM interface -/

/-- `getppages`: from the coremap once it exists, from `ram_stealmem` before. -/
def getppages (vm : Vm) (npages : Nat) : Option (Nat × Vm) :=
  if vm.iscmapCreated then
    (vm.coreMap.getppages npages).map fun r => (r.1, { vm with coreMap := r.2 })
  else some (ramStealmem vm npages)

/-- `alloc_kpages`: the kernel address of the pages, `0` when `getppages`
    returns `0`. -/
def allocKpages (vm : Vm) (npages : Nat) : Option (Nat × Vm) :=
  (getppages vm npages).map fun r => (if r.1 = 0 then 0 else paddrToKvaddr r.1, r.2)

/-- `free_kpages`: nothing before the coremap exists. -/
def freeKpages (vm : Vm) (addr : Nat) : Vm :=
  if vm.iscmapCreated then { vm with coreMap := vm.coreMap.freeKpages addr } else vm

/-- After `vm_bootstrap`, `getppages(n)` for `1 ≤ n ≤ size` is first fit: it
    returns `ENOMEM` only when no `n` consecutive frames are free, and otherwise
    takes the run that starts at the lowest frame. -/
theorem getppages_first_fit {vm : Vm} {n : Nat} (hc : vm.iscmapCreated = true) (hn : 1 ≤ n)
    (hsize : (n : Int) ≤ vm.coreMap.size) :
    ((∀ j, ¬ vm.coreMap.Fits n j) → getppages vm n = some (Errno.enomem.toNat, vm)) ∧
    ∀ j, vm.coreMap.Fits n j → (∀ k, k < j → ¬ vm.coreMap.Fits n k) →
      getppages vm n = some (j.toNat * pageSize + vm.coreMap.baseAddr,
        { vm with coreMap := vm.coreMap.markRun j n }) := by
  have hfit : ¬ vm.coreMap.size < n := by omega
  refine ⟨fun hno => ?_, fun j hj hleast => ?_⟩
  · rw [getppages, if_pos hc, Coremap.getppages, if_neg hfit, Coremap.search_of_no_fit hn hno]
    rfl
  · rw [getppages, if_pos hc, Coremap.getppages, if_neg hfit, Coremap.search_of_least_fit hn hj hleast]
    rfl

/-- A coremap of six frames with frames `1` and `4` in use. -/
def fragmented : Vm :=
  ⟨0, 0, true, ⟨0x10000, fun k => if k = 1 ∨ k = 4 then 1 else 0, fun _ => 0, 6, false⟩⟩

/-- Two frames of `fragmented` go to frames `2` and `3`, the first free run
    long enough, past the run `0` that is too short. -/
theorem fragmented_first_fit :
    getppages fragmented 2 = some (2 * pageSize + 0x10000,
      { fragmented with coreMap := fragmented.coreMap.markRun 2 2 }) := by
  have hfits : fragmented.coreMap.Fits 2 2 := by decide
  have hleast : ∀ k, k < 2 → ¬ fragmented.coreMap.Fits 2 k := by
    rintro k hk ⟨h0, -, hfree⟩
    obtain rfl | rfl : k = 0 ∨ k = 1 := by omega
    · exact absurd (hfree 1 (by decide)) (by decide)
    · exact absurd (hfree 0 (by decide)) (by decide)
  exact (getppages_first_fit rfl (by decide) (by decide)).2 2 hfits hleast

/-! ## Failure and stolen pages -/

/-- When the search finds no run, `getppages(n)` (`n ≤ size`) returns
    `ENOMEM`, and `alloc_kpages` the kernel address of the physical address
    `3`. -/
theorem allocKpages_of_search_none {vm : Vm} {n : Nat} (hc : vm.iscmapCreated = true)
    (hn : n ≤ vm.coreMap.size) (hsearch : vm.coreMap.search n 0 = none) :
    allocKpages vm n = some (0x80000003, vm) := by
  have hget : vm.coreMap.getppages n = some (Errno.enomem.toNat, vm.coreMap) := by
    simp only [Coremap.getppages, hsearch]
    rw [if_neg (by omega)]
  have hk : paddrToKvaddr Errno.enomem.toNat = 0x80000003 := by
    simp [paddrToKvaddr, mipsKseg0, Errno.toNat]
  unfold allocKpages getppages
  rw [if_pos hc, hget, Option.map_some, Option.map_some, if_neg (Errno.toNat_pos _).ne', hk]

/-- Once every managed frame is in use, `getppages(n)` (`n ≤ size`) returns
    `ENOMEM`, and `alloc_kpages`, which takes only `0` for a failure, returns the
    kernel address of the physical address `3`. -/
theorem allocKpages_of_full_coremap {vm : Vm} {n : Nat} (hc : vm.iscmapCreated = true)
    (hfull : ∀ k, 0 ≤ k → k < vm.coreMap.size → vm.coreMap.inUse k ≠ 0)
    (hn : n ≤ vm.coreMap.size) : allocKpages vm n = some (0x80000003, vm) :=
  allocKpages_of_search_none hc hn (Coremap.search_eq_none_of_full hfull (le_refl 0))

/-- A coremap of one frame, in use: what `vm_bootstrap` leaves of two pages of
    RAM at 40 KiB, after one `getppages(1)`. -/
def oneFrameInUse : Vm := ⟨0, 0, true, ⟨0xb000, fun _ => 1, fun _ => 0, 1, false⟩⟩

theorem allocKpages_one_frame_in_use : allocKpages oneFrameInUse 1 = some (0x80000003, oneFrameInUse) :=
  allocKpages_of_full_coremap rfl (fun _ _ _ => one_ne_zero) (by simp [oneFrameInUse])

/-- The difference of two kernel addresses of physical addresses below `2^31`,
    read as an `int`: the difference of the physical addresses. -/
theorem toInt_kvaddr_sub {a b : Nat} (ha : a < 2 ^ 31) (hb : b < 2 ^ 31) :
    (BitVec.ofNat 32 (a + mipsKseg0) - BitVec.ofNat 32 (b + mipsKseg0)).toInt = (a : Int) - b := by
  unfold mipsKseg0
  rw [BitVec.toInt_eq_toNat_cond, BitVec.toNat_sub, BitVec.toNat_ofNat, BitVec.toNat_ofNat,
    Nat.mod_eq_of_lt (show a + 0x80000000 < 2 ^ 32 by omega),
    Nat.mod_eq_of_lt (show b + 0x80000000 < 2 ^ 32 by omega)]
  split <;> omega

/-- The frame index of a page `pa` at least a page below the first managed
    frame is negative. -/
theorem frameIndex_neg {cm : Coremap} {pa : Nat} (hbase : pa + pageSize ≤ cm.baseAddr)
    (hlt : cm.baseAddr < 2 ^ 31) : cm.frameIndex (paddrToKvaddr pa) < 0 := by
  unfold Coremap.frameIndex paddrToKvaddr
  rw [toInt_kvaddr_sub (by omega) hlt]
  have hneg : (pa : Int) - cm.baseAddr = -((cm.baseAddr - pa : Nat) : Int) := by omega
  rw [hneg, Int.neg_tdiv, Int.natCast_tdiv_eq_ediv]
  simp only [pageSize] at hbase ⊢
  omega

/-- `free_kpages` of a page that `ram_stealmem` handed out before
    `vm_bootstrap` (a page below the free memory `vm_bootstrap` takes over)
    computes a negative frame index, and its loop reads `containNext` there,
    outside the arrays. The RAM is at most 508 MiB (`ram_bootstrap`) and starts
    on a page boundary (start.S). -/
theorem freeKpages_wild_below_frames {vm : Vm} {pa : Nat} (hpa : pa % pageSize = 0)
    (hlo : pa < vm.firstpaddr) (hhi : vm.firstpaddr ≤ vm.lastpaddr)
    (hram : vm.lastpaddr ≤ 508 * 1024 * 1024) :
    (vmBootstrap vm).coreMap.frameIndex (paddrToKvaddr pa) < 0 ∧
      (freeKpages (vmBootstrap vm) (paddrToKvaddr pa)).coreMap.wild = true := by
  -- the first managed frame is a page boundary above `pa`, and below `2^31`
  have hbetween : pagesBetween vm.lastpaddr vm.firstpaddr = (vm.lastpaddr - vm.firstpaddr) / pageSize := by
    unfold pagesBetween
    congr 1
    omega
  have hbase : pa + pageSize ≤ (vmBootstrap vm).coreMap.baseAddr ∧
      (vmBootstrap vm).coreMap.baseAddr < 2 ^ 31 := by
    simp only [vmBootstrap, hbetween, coremapStructSize, pageSize] at hpa ⊢
    omega
  have hneg := frameIndex_neg hbase.1 hbase.2
  refine ⟨hneg, ?_⟩
  have hsize : 0 ≤ (vmBootstrap vm).coreMap.size := by
    simp [vmBootstrap]
  have hc : (vmBootstrap vm).iscmapCreated = true := rfl
  rw [freeKpages, if_pos hc]
  simp only [Coremap.freeKpages, Bool.or_eq_true, decide_eq_true_eq]
  exact Or.inr ⟨hneg, by omega⟩

/-! ## Runs in use -/

namespace Coremap

variable {cm : Coremap} {i j : Int} {m n : Nat}

/-- The `n` frames from `j` as `getppages` leaves a run it hands out:
    managed, in use, with `containNext` set on all but the last. -/
def Marked (cm : Coremap) (j : Int) (n : Nat) : Prop :=
  0 ≤ j ∧ j + n ≤ cm.size ∧
    ∀ d < n, cm.inUse (j + d) = 1 ∧ cm.containNext (j + d) = if d + 1 < n then 1 else 0

/-- The kernel address of the frame `j`, as `alloc_kpages` returns it. -/
def frameVaddr (cm : Coremap) (j : Int) : Nat := paddrToKvaddr (j.toNat * pageSize + cm.baseAddr)

theorem markRun_marked (h0 : 0 ≤ j) (hn : j + n ≤ cm.size) : (cm.markRun j n).Marked j n := by
  refine ⟨h0, hn, fun d hd => ?_⟩
  simp only [markRun, if_pos (show j ≤ j + d ∧ j + d < j + n by omega), true_and]
  by_cases hlast : d + 1 < n
  · rw [if_pos hlast, if_pos (by omega)]
  · rw [if_neg hlast, if_neg (by omega)]

/-- The frame `k` of a run in use: in use, with `containNext` set unless it
    is the last. -/
theorem Marked.frame (hm : cm.Marked j n) {k : Int} (h₁ : j ≤ k) (h₂ : k < j + n) :
    cm.inUse k = 1 ∧ cm.containNext k = if k + 1 < j + n then 1 else 0 := by
  have h := hm.2.2 (k - j).toNat (by omega)
  have hk : j + ((k - j).toNat : Int) = k := by omega
  have hlast : (k - j).toNat + 1 < n ↔ k + 1 < j + n := by omega
  rw [hk, if_congr hlast rfl rfl] at h
  exact h

/-- A run in use and a run of free frames share no frame. -/
theorem Marked.not_mem_of_fits (hm : cm.Marked j n) (hf : cm.Fits m i) {k : Int} (hk₁ : j ≤ k)
    (hk₂ : k < j + n) : ¬ (i ≤ k ∧ k < i + m) := by
  rintro ⟨hi₁, hi₂⟩
  have hused := (hm.frame hk₁ hk₂).1
  have hfree := hf.2.2 (k - i).toNat (by omega)
  rw [Int.toNat_of_nonneg (by omega), show i + (k - i) = k by omega] at hfree
  omega

/-- A run in use and a run of free frames, neither empty, lie apart. -/
theorem Marked.apart_of_fits (hm : cm.Marked j n) (hf : cm.Fits m i) (hn : 0 < n) (hm0 : 0 < m) :
    j + n ≤ i ∨ i + m ≤ j := by
  by_contra hc
  -- the later of the two starts is a frame of both
  exact hm.not_mem_of_fits hf (k := max i j) (by omega) (by omega) ⟨by omega, by omega⟩

/-- Marking a run of free frames leaves a run in use as it was. -/
theorem Marked.markRun (hm : cm.Marked j n) (hf : cm.Fits m i) : (cm.markRun i m).Marked j n := by
  refine ⟨hm.1, hm.2.1, fun d hd => ?_⟩
  have hnot := hm.not_mem_of_fits hf (k := j + d) (by omega) (by omega)
  simp only [Coremap.markRun, if_neg hnot]
  exact hm.2.2 d hd

/-- From a frame of a run in use, the loop of `free_kpages` clears the frames
    up to the last of the run, where `containNext` is `0`, and stops there. -/
theorem freeLoop_marked (hm : cm.Marked j n) :
    ∀ (inUse : Int → Int) (i : Int), j ≤ i → i < j + n →
      freeLoop cm.size cm.containNext inUse i =
        (fun k => if i ≤ k ∧ k < j + n - 1 then 0 else inUse k, j + n - 1) := by
  intro inUse i
  fun_induction freeLoop cm.size cm.containNext inUse i with
  | case1 inUse i hgo ih =>
    -- `containNext[i]` is `1`: `i` is not the last frame of the run
    intro h₁ h₂
    have hcn := (hm.frame h₁ h₂).2
    rw [hgo.2] at hcn
    have hnext : i + 1 < j + n := by
      split at hcn
      · omega
      · cases hcn
    rw [ih (by omega) hnext]
    congr 1
    funext k
    by_cases hk : k = i
    · subst hk
      rw [if_neg (by omega), Function.update_self, if_pos (by omega)]
    · rw [Function.update_of_ne hk]
      congr 1
      apply propext
      omega
  | case2 inUse i hstop =>
    -- `containNext[i]` is not `1`: `i` is the last frame of the run
    intro h₁ h₂
    have hcn := (hm.frame h₁ h₂).2
    have hlast : i = j + n - 1 := by
      by_contra hne
      rw [if_pos (by omega)] at hcn
      exact hstop ⟨by have := hm.2.1; omega, hcn⟩
    subst hlast
    congr 1
    funext k
    rw [if_neg (by omega)]

/-- `free_kpages` of the first frame of a run in use frees exactly the run. -/
theorem freeKpages_marked (hm : cm.Marked j n) (hn : 0 < n) {addr : Nat} (hidx : cm.frameIndex addr = j) :
    cm.freeKpages addr = { cm with inUse := fun k => if j ≤ k ∧ k < j + n then 0 else cm.inUse k } := by
  unfold freeKpages
  rw [hidx, freeLoop_marked hm cm.inUse j le_rfl (by omega)]
  dsimp only
  -- the run starts at a managed frame: no access outside the arrays
  have hwild : (cm.wild || decide (j < 0 ∧ j < cm.size)) = cm.wild := by
    rw [decide_eq_false (fun h => absurd h.1 (not_lt.2 hm.1)), Bool.or_false]
  rw [if_pos (by have := hm.2.1; omega), hwild]
  congr 1
  funext k
  by_cases hk : k = j + n - 1
  · subst hk
    simp only [Function.update_self]
    rw [if_pos (by omega)]
  · rw [Function.update_of_ne hk]
    congr 1
    apply propext
    omega

/-- Freeing a run leaves every run in use apart from it as it was. -/
theorem Marked.freeKpages (hm : cm.Marked j n) (hm' : cm.Marked i m) (hpos : 0 < m)
    {addr : Nat} (hidx : cm.frameIndex addr = i) (happ : j + n ≤ i ∨ i + m ≤ j) :
    (cm.freeKpages addr).Marked j n := by
  rw [freeKpages_marked hm' hpos hidx]
  refine ⟨hm.1, hm.2.1, fun d hd => ?_⟩
  simp only
  rw [if_neg (by omega)]
  exact hm.2.2 d hd

/-- The frame index `free_kpages` computes from the kernel address of a
    managed frame is that frame's, when the managed frames lie below `2^31`. -/
theorem frameIndex_frameVaddr (hbelow : cm.baseAddr + cm.size.toNat * pageSize < 2 ^ 31) (h0 : 0 ≤ j)
    (hj : j < cm.size) : cm.frameIndex (cm.frameVaddr j) = j := by
  have hj' : j.toNat * pageSize + cm.baseAddr < 2 ^ 31 := by
    have : j.toNat * pageSize ≤ cm.size.toNat * pageSize := Nat.mul_le_mul_right _ (by omega)
    omega
  unfold frameIndex frameVaddr paddrToKvaddr
  rw [toInt_kvaddr_sub hj' (by omega)]
  push_cast
  rw [Int.toNat_of_nonneg h0, add_sub_cancel_right]
  exact Int.mul_tdiv_cancel _ (by decide)

end Coremap

/-- After `vm_bootstrap`, with some run of `n` free frames (`1 ≤ n`),
    `alloc_kpages(n)` returns the kernel address of such a run and marks it in
    use. -/
theorem allocKpages_of_fits {vm : Vm} {n : Nat} (hc : vm.iscmapCreated = true) (hn : 1 ≤ n)
    (hbase : 0 < vm.coreMap.baseAddr) {i : Int} (hi : vm.coreMap.Fits n i) :
    ∃ j, vm.coreMap.Fits n j ∧
      allocKpages vm n = some (vm.coreMap.frameVaddr j, { vm with coreMap := vm.coreMap.markRun j n }) := by
  obtain ⟨hsome, hnone⟩ := @Coremap.search_first_fit vm.coreMap n hn 0 le_rfl
  cases hs : vm.coreMap.search n 0 with
  | none => exact absurd hi (hnone hs i hi.1)
  | some j =>
    have hj := (hsome j hs).2.1
    refine ⟨j, hj, ?_⟩
    have hget : vm.coreMap.getppages n = some (j.toNat * pageSize + vm.coreMap.baseAddr, vm.coreMap.markRun j n) := by
      rw [Coremap.getppages, if_neg (by have := hj.1; have := hj.2.1; omega), hs]
    rw [allocKpages, getppages, if_pos hc, hget, Option.map_some, Option.map_some, if_neg (by omega)]
    rfl

end Os161.Dumbvm
