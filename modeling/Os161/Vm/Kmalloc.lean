import Mathlib
import Os161.Vm.Coremap

/-!
# Large `kmalloc`

kern/vm/kmalloc.c serves a request of `LARGEST_SUBPAGE_SIZE` bytes or more
with whole pages: `kmalloc(sz)` asks `alloc_kpages` for
`(sz + PAGE_SIZE - 1) / PAGE_SIZE` pages and returns what it gives, `NULL`
for `0`. The sum is a 32-bit `size_t`: within `PAGE_SIZE` of `2^32` it wraps,
and the page count is `0`. `getppages(0)` does not refuse it: the first free
frame has the `0` free frames asked for, so `getppages` returns that frame's
address and marks nothing in use.

* `kmallocLarge_of_first_fit`: where the sum does not wrap, the pages cover
  `sz`, and given the first run of that many free frames, `kmalloc` returns
  its kernel address with exactly those frames now in use;
* `kmalloc_wraps_to_zero_pages`: for `sz` within `PAGE_SIZE` of `2^32`, it
  returns the address of a free frame and leaves every frame as it was, so
  the frame is handed out again by the next `kmalloc`.
-/

namespace Os161.Dumbvm

/-- `LARGEST_SUBPAGE_SIZE`. -/
def largestSubpageSize : Nat := 2048

/-- `npages = (sz + PAGE_SIZE - 1)/PAGE_SIZE;`, the sum in 32-bit `size_t`. -/
def kmallocNpages (sz : Nat) : Nat := (sz + pageSize - 1) % 2 ^ 32 / pageSize

/-- The branch of `kmalloc(sz)` for `sz >= LARGEST_SUBPAGE_SIZE`: the address
    `alloc_kpages` returns, `0` being `NULL`. -/
def kmallocLarge (vm : Vm) (sz : Nat) : Option (Nat × Vm) := allocKpages vm (kmallocNpages sz)

/-- Where the sum does not wrap, the pages cover `sz`, with less than a page to
    spare. -/
theorem kmallocNpages_spec {sz : Nat} (h : sz + pageSize - 1 < 2 ^ 32) :
    sz ≤ kmallocNpages sz * pageSize ∧ kmallocNpages sz * pageSize < sz + pageSize := by
  unfold kmallocNpages
  rw [Nat.mod_eq_of_lt h]
  unfold pageSize
  omega

/-- Within `PAGE_SIZE` of `2^32`, the sum wraps below `PAGE_SIZE`: no pages. -/
theorem kmallocNpages_of_wrap {sz : Nat} (hwrap : 2 ^ 32 - pageSize < sz) (hsz : sz < 2 ^ 32) :
    kmallocNpages sz = 0 := by
  unfold kmallocNpages pageSize at *
  -- the literals first: `omega` does not evaluate `2 ^ 32` under the subtractions
  norm_num at hwrap hsz ⊢
  omega

/-- After `vm_bootstrap`, a large `kmalloc` whose page count does not wrap
    returns the kernel address of the first run of that many free frames, and
    marks exactly that run in use. -/
theorem kmallocLarge_of_first_fit {vm : Vm} {sz : Nat} (hc : vm.iscmapCreated = true)
    (hlarge : largestSubpageSize ≤ sz) (hnowrap : sz + pageSize - 1 < 2 ^ 32)
    (hbase : 0 < vm.coreMap.baseAddr) (hsize : (kmallocNpages sz : Int) ≤ vm.coreMap.size) {j : Int}
    (hj : vm.coreMap.Fits (kmallocNpages sz) j)
    (hleast : ∀ k, k < j → ¬ vm.coreMap.Fits (kmallocNpages sz) k) :
    sz ≤ kmallocNpages sz * pageSize ∧
      kmallocLarge vm sz = some (paddrToKvaddr (j.toNat * pageSize + vm.coreMap.baseAddr),
        { vm with coreMap := vm.coreMap.markRun j (kmallocNpages sz) }) := by
  have hcover := kmallocNpages_spec hnowrap
  have hn : 1 ≤ kmallocNpages sz := by
    unfold largestSubpageSize at hlarge
    unfold pageSize at hcover
    omega
  refine ⟨hcover.1, ?_⟩
  rw [kmallocLarge, allocKpages, getppages, if_pos hc, Coremap.getppages, if_neg (by omega),
    Coremap.search_of_least_fit hn hj hleast]
  simp only [Option.map_some, if_neg (show j.toNat * pageSize + vm.coreMap.baseAddr ≠ 0 by omega)]

/-- After `vm_bootstrap`, with some managed frame free, `kmalloc(sz)` for `sz`
    within `PAGE_SIZE` of `2^32` asks for no pages: it returns the kernel
    address of a free frame, at or before the given one, and marks no frame in
    use. -/
theorem kmalloc_wraps_to_zero_pages {vm : Vm} {sz : Nat} (hc : vm.iscmapCreated = true)
    (hwrap : 2 ^ 32 - pageSize < sz) (hsz : sz < 2 ^ 32) (hbase : 0 < vm.coreMap.baseAddr) {k : Int}
    (hk0 : 0 ≤ k) (hk : k < vm.coreMap.size) (hfree : vm.coreMap.inUse k = 0) :
    kmallocNpages sz = 0 ∧ ∃ j : Int, 0 ≤ j ∧ j ≤ k ∧ vm.coreMap.inUse j = 0 ∧
      ∃ vm', kmallocLarge vm sz = some (paddrToKvaddr (j.toNat * pageSize + vm.coreMap.baseAddr), vm') ∧
        vm'.coreMap.inUse = vm.coreMap.inUse := by
  have hn := kmallocNpages_of_wrap hwrap hsz
  obtain ⟨j, hs, hj0, hjk, hjfree⟩ := Coremap.search_zero hk0 hk hfree
  refine ⟨hn, j, hj0, hjk, hjfree, { vm with coreMap := vm.coreMap.markRun j 0 }, ?_,
    Coremap.markRun_zero_inUse _ _⟩
  -- `KASSERT(core_map->size >= 0)` holds, and the search stops at frame `j`
  have hget : vm.coreMap.getppages 0 = some (j.toNat * pageSize + vm.coreMap.baseAddr, vm.coreMap.markRun j 0) := by
    rw [Coremap.getppages, if_neg (by omega), Nat.cast_zero, hs]
  rw [kmallocLarge, hn, allocKpages, getppages, if_pos hc, hget]
  simp only [Option.map_some, if_neg (show j.toNat * pageSize + vm.coreMap.baseAddr ≠ 0 by omega)]

theorem kmalloc_wraps_on_fragmented :
    kmallocNpages (2 ^ 32 - 1) = 0 ∧ ∃ j : Int, 0 ≤ j ∧ j ≤ 0 ∧ fragmented.coreMap.inUse j = 0 ∧
      ∃ vm', kmallocLarge fragmented (2 ^ 32 - 1) =
          some (paddrToKvaddr (j.toNat * pageSize + fragmented.coreMap.baseAddr), vm') ∧
        vm'.coreMap.inUse = fragmented.coreMap.inUse :=
  kmalloc_wraps_to_zero_pages rfl (by decide) (by decide) (by decide) le_rfl (by decide) (by decide)

end Os161.Dumbvm
