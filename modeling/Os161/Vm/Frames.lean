import Mathlib
import Os161.Vm.HeapFree

/-!
# The frames under the kernel heap

`kmalloc.c` takes its pages from `alloc_kpages` and gives them back with
`free_kpages`; after `vm_bootstrap` these are runs of coremap frames
(`Os161.Vm.Coremap`). `Backed` ties the heap to the coremap: every page of the
subpage allocator and every large run that `kmalloc` handed out is a run of
frames the coremap holds for it (`Held`: in use, with the `containNext` marks
`getppages` set), and the frames' kernel addresses do not wrap. Then:

* a run of free frames overlaps no block in use (`Backed.fresh`): what
  `alloc_kpages` hands out is fresh;
* taking a run keeps every held run and holds the new one (`Backed.markRun`,
  `Backed.addPage`, `Backed.addLarge`);
* `free_kpages` of a page or run the heap lets go frees exactly its frames,
  keeps every other run held and stays inside the coremap's arrays
  (`Backed.dropPage`, `Backed.dropLarge`, `Backed.returnPage` for the page
  `subpage_kmalloc` gives back when no pageref is free).

`vm_bootstrap` starts the coremap with no block in use
(`backed_vmBootstrap`).
-/

namespace Os161.Kmalloc

open Blocks

/-- The `n` frames from `j`, as a block of kernel addresses. -/
def frameBlock (cm : Dumbvm.Coremap) (j : ℤ) (n : ℕ) : Block := ⟨cm.frameVaddr j, n * pageSize⟩

/-- The block `c` is a run of frames the coremap holds: in use, with the
    `containNext` marks `getppages` set. -/
def Held (cm : Dumbvm.Coremap) (c : Block) : Prop := ∃ j n, c = frameBlock cm j n ∧ cm.Marked j n

/-- The frames under the kernel heap: the coremap exists and no access has
    gone outside its arrays, its frames start at a positive page boundary and
    end below `2^31`, so that their kernel addresses do not wrap, and it holds
    every page of the subpage allocator and every large run. -/
structure Backed (vm : Dumbvm.Vm) (g : Shape) : Prop where
  created : vm.iscmapCreated = true
  tame : vm.coreMap.wild = false
  base_pos : 0 < vm.coreMap.baseAddr
  base_aligned : vm.coreMap.baseAddr % pageSize = 0
  below : vm.coreMap.baseAddr + vm.coreMap.size.toNat * pageSize < 2 ^ 31
  page : ∀ r ∈ g.all, Held vm.coreMap (pageBlock (g.page r))
  large : ∀ c ∈ g.large, Held vm.coreMap c

/-! ## Runs of frames -/

section Frames

variable {cm : Dumbvm.Coremap} {c c' : Block} {i j j' : ℤ} {m n n' : ℕ}

theorem pageBlock_len_pos (p : BitVec 32) : 0 < (pageBlock p).len := show 0 < pageSize by decide

/-- Runs of frames are apart exactly when their blocks are. -/
theorem frameBlock_disjoint_iff (hj : 0 ≤ j) (hj' : 0 ≤ j') :
    (frameBlock cm j n).Disjoint (frameBlock cm j' n') ↔ j + n ≤ j' ∨ j' + n' ≤ j := by
  simp only [frameBlock, Block.Disjoint, Dumbvm.Coremap.frameVaddr, paddrToKvaddr, pageSize]
  omega

/-- A held run lies apart from a run of free frames. -/
theorem Held.disjoint_of_fits (h : Held cm c) (hc : 0 < c.len) (hf : cm.Fits m i) (hm : 0 < m) :
    c.Disjoint (frameBlock cm i m) := by
  obtain ⟨j, n, rfl, hmk⟩ := h
  have hn : 0 < n := by
    simp only [frameBlock] at hc
    exact Nat.pos_of_mul_pos_right hc
  exact (frameBlock_disjoint_iff hmk.1 hf.1).2 (hmk.apart_of_fits hf hn hm)

/-- Taking a run of free frames keeps every held run. -/
theorem Held.markRun (h : Held cm c) (hf : cm.Fits m i) : Held (cm.markRun i m) c := by
  obtain ⟨j, n, rfl, hmk⟩ := h
  exact ⟨j, n, rfl, hmk.markRun hf⟩

/-- The run just taken is held. -/
theorem held_markRun (hf : cm.Fits m i) : Held (cm.markRun i m) (frameBlock cm i m) :=
  ⟨i, m, rfl, Dumbvm.Coremap.markRun_marked hf.1 hf.2.1⟩

/-- `free_kpages` turns the address of a run in use back into its first
    frame. -/
theorem frameIndex_frameBlock (hbelow : cm.baseAddr + cm.size.toNat * pageSize < 2 ^ 31)
    (hm : cm.Marked j n) (hn : 0 < n) : cm.frameIndex (frameBlock cm j n).addr = j :=
  Dumbvm.Coremap.frameIndex_frameVaddr hbelow hm.1 (by have := hm.2.1; omega)

/-- `free_kpages` of the start of a held run keeps every held run apart
    from it. -/
theorem Held.freeKpages (h : Held cm c) (hc : 0 < c.len) (h' : Held cm c') (hc' : 0 < c'.len)
    (hbelow : cm.baseAddr + cm.size.toNat * pageSize < 2 ^ 31) (hd : c.Disjoint c') {a : ℕ} (ha : c'.addr = a) :
    Held (cm.freeKpages a) c := by
  obtain ⟨j, n, rfl, hmk⟩ := h
  obtain ⟨j', n', rfl, hmk'⟩ := h'
  subst ha
  have hn' : 0 < n' := Nat.pos_of_mul_pos_right hc'
  exact ⟨j, n, rfl, hmk.freeKpages hmk' hn' (frameIndex_frameBlock hbelow hmk' hn')
    ((frameBlock_disjoint_iff hmk.1 hmk'.1).1 hd)⟩

/-- `free_kpages` of the start of a held run stays inside the arrays. -/
theorem Held.freeKpages_wild (h : Held cm c) (hc : 0 < c.len)
    (hbelow : cm.baseAddr + cm.size.toNat * pageSize < 2 ^ 31) {a : ℕ} (ha : c.addr = a) :
    (cm.freeKpages a).wild = cm.wild := by
  obtain ⟨j, n, rfl, hmk⟩ := h
  subst ha
  have hn : 0 < n := Nat.pos_of_mul_pos_right hc
  rw [Dumbvm.Coremap.freeKpages_marked hmk hn (frameIndex_frameBlock hbelow hmk hn)]

end Frames

/-! ## The heap's frames -/

section Backed

variable {vm : Dumbvm.Vm} {g : Shape} {h : Heap} {i : ℤ} {m : ℕ}

/-- The kernel address of a run of managed frames, and the end of the run,
    lie in the upper half of the 32-bit space. -/
theorem Backed.frameVaddr_bounds (hb : Backed vm g) (hf : vm.coreMap.Fits m i) :
    2 ^ 31 ≤ vm.coreMap.frameVaddr i ∧ vm.coreMap.frameVaddr i + m * pageSize < 2 ^ 32 := by
  have hbelow := hb.below
  have hfit := hf.2.1
  have h0 := hf.1
  simp only [Dumbvm.Coremap.frameVaddr, paddrToKvaddr, mipsKseg0, pageSize] at hbelow ⊢
  omega

/-- What `alloc_kpages` returns for a run of free frames, as a pointer: a
    page boundary with the run after it. -/
theorem Backed.pageAddr (hb : Backed vm g) (hf : vm.coreMap.Fits m i) :
    (BitVec.ofNat 32 (vm.coreMap.frameVaddr i)).toNat = vm.coreMap.frameVaddr i ∧
      PageAddr (BitVec.ofNat 32 (vm.coreMap.frameVaddr i)) m := by
  obtain ⟨hlo, hhi⟩ := hb.frameVaddr_bounds hf
  have htoNat : (BitVec.ofNat 32 (vm.coreMap.frameVaddr i)).toNat = vm.coreMap.frameVaddr i := by
    rw [BitVec.toNat_ofNat]
    exact Nat.mod_eq_of_lt (by omega)
  refine ⟨htoNat, ⟨?_, ?_, ?_⟩⟩ <;> rw [htoNat]
  · have hal := hb.base_aligned
    simp only [Dumbvm.Coremap.frameVaddr, paddrToKvaddr, mipsKseg0, pageSize] at hal ⊢
    omega
  · omega
  · exact hhi

/-- A run of free frames overlaps no block in use: what `alloc_kpages` hands
    out is fresh. -/
theorem Backed.fresh (hb : Backed vm g) (hi : Inv h g) (hf : vm.coreMap.Fits m i) (hm : 0 < m) :
    ∀ c ∈ g.live, (frameBlock vm.coreMap i m).Disjoint c := by
  rintro c (⟨r, hr, hc⟩ | hc)
  · -- a block of a page lies in the page, a held frame
    have hd := (hb.page r hr).disjoint_of_fits (pageBlock_len_pos _) hf hm
    exact hd.symm.mono (Block.within_refl _) (liveAt_within hc)
  · exact ((hb.large c hc).disjoint_of_fits (hi.live_len_pos (Or.inr hc)) hf hm).symm

/-- The frames do not depend on the free lists. -/
theorem Backed.of_frames {g' : Shape} (hb : Backed vm g) (hall : g'.all = g.all) (hpage : g'.page = g.page)
    (hlarge : g'.large = g.large) : Backed vm g' :=
  { hb with
    page := fun r hr => by
      rw [hpage]
      exact hb.page r (hall ▸ hr)
    large := fun c hc => hb.large c (hlarge ▸ hc) }

/-- Taking a run of free frames keeps the heap's frames. -/
theorem Backed.markRun (hb : Backed vm g) (hf : vm.coreMap.Fits m i) :
    Backed { vm with coreMap := vm.coreMap.markRun i m } g :=
  { hb with
    page := fun r hr => (hb.page r hr).markRun hf
    large := fun c hc => (hb.large c hc).markRun hf }

/-- A fresh page from `alloc_kpages(1)` for the pageref `r`. -/
theorem Backed.addPage (hb : Backed vm g) (hf : vm.coreMap.Fits 1 i) (r : Fin 256) (b : Fin 8) :
    Backed { vm with coreMap := vm.coreMap.markRun i (1 : ℕ) }
      (g.addPage r (BitVec.ofNat 32 (vm.coreMap.frameVaddr i)) b) :=
  { hb.markRun hf with
    page := fun r' hr' => by
      by_cases hrr : r' = r
      · -- the fresh page is the frame just taken
        subst hrr
        have hblock : pageBlock (BitVec.ofNat 32 (vm.coreMap.frameVaddr i)) = frameBlock vm.coreMap i 1 := by
          rw [pageBlock, (hb.pageAddr hf).1, frameBlock, Nat.one_mul]
        simp only [Shape.addPage, Function.update_self, hblock]
        exact held_markRun hf
      · simp only [Shape.addPage, Function.update_of_ne hrr]
        exact (hb.markRun hf).page r' ((List.mem_cons.1 hr').resolve_left hrr) }

/-- A large run from `alloc_kpages(m)`. -/
theorem Backed.addLarge (hb : Backed vm g) (hf : vm.coreMap.Fits m i) :
    Backed { vm with coreMap := vm.coreMap.markRun i m }
      { g with large := ⟨(BitVec.ofNat 32 (vm.coreMap.frameVaddr i)).toNat, m * pageSize⟩ :: g.large } :=
  { hb.markRun hf with
    large := fun c hc => by
      rcases List.mem_cons.1 hc with rfl | hc
      · rw [(hb.pageAddr hf).1]
        exact held_markRun hf
      · exact (hb.markRun hf).large c hc }

theorem Backed.freeKpages_eq (hb : Backed vm g) (a : ℕ) :
    Dumbvm.freeKpages vm a = { vm with coreMap := vm.coreMap.freeKpages a } := if_pos hb.created

/-- The page `alloc_kpages(1)` gave back at once, when no pageref is free:
    its frame is free again, and every other run as it was. -/
theorem Backed.returnPage (hb : Backed vm g) (hi : Inv h g) (hf : vm.coreMap.Fits 1 i) :
    Backed (Dumbvm.freeKpages { vm with coreMap := vm.coreMap.markRun i (1 : ℕ) } (vm.coreMap.frameVaddr i)) g := by
  have hb' := hb.markRun hf
  have hheld := held_markRun hf
  rw [hb'.freeKpages_eq]
  -- each run of the heap lies apart from the frame, which is held until the free
  have hkeep : ∀ c, Held vm.coreMap c → 0 < c.len →
      Held ((vm.coreMap.markRun i (1 : ℕ)).freeKpages (frameBlock vm.coreMap i 1).addr) c := fun c hc hc0 =>
    (hc.markRun hf).freeKpages hc0 hheld (by simp [frameBlock, pageSize]) hb.below
      (hc.disjoint_of_fits hc0 hf one_pos) rfl
  exact
    { hb' with
      tame := (hheld.freeKpages_wild (by simp [frameBlock, pageSize]) hb.below rfl).trans hb'.tame
      page := fun r hr => hkeep _ (hb.page r hr) (pageBlock_len_pos _)
      large := fun c hc => hkeep c (hb.large c hc) (hi.live_len_pos (Or.inr hc)) }

/-- `free_kpages` of a page the subpage allocator lets go. -/
theorem Backed.dropPage (hb : Backed vm g) (hi : Inv h g) {r : Fin 256} (hr : r ∈ g.all) :
    Backed (Dumbvm.freeKpages vm (g.page r).toNat) (g.dropPage r) := by
  rw [hb.freeKpages_eq]
  exact
    { hb with
      tame := ((hb.page r hr).freeKpages_wild (pageBlock_len_pos _) hb.below rfl).trans hb.tame
      page := fun r' hr' => by
        have hmem : r' ∈ (g.dropPage r).all ↔ r' ≠ r ∧ r' ∈ g.all := hi.all_chain.nodup.mem_erase_iff
        obtain ⟨hne, hr'⟩ := hmem.1 hr'
        exact (hb.page r' hr').freeKpages (pageBlock_len_pos _) (hb.page r hr) (pageBlock_len_pos _) hb.below
          (hi.pageBlock_disjoint hr' hr hne) rfl
      large := fun c hc => (hb.large c hc).freeKpages (hi.live_len_pos (Or.inr hc)) (hb.page r hr)
        (pageBlock_len_pos _) hb.below (hi.large_disjoint c hc r hr) rfl }

/-- `free_kpages` of a large run that `kfree` lets go, apart from every other
    large run. -/
theorem Backed.dropLarge (hb : Backed vm g) (hi : Inv h g) {c : Block} (hc : c ∈ g.large)
    (hd : ∀ c' ∈ g.large, c' ≠ c → c'.Disjoint c) :
    Backed (Dumbvm.freeKpages vm c.addr) { g with large := g.large.filter (· ≠ c) } := by
  rw [hb.freeKpages_eq]
  have hc0 := hi.live_len_pos (Or.inr hc)
  exact
    { hb with
      tame := ((hb.large c hc).freeKpages_wild hc0 hb.below rfl).trans hb.tame
      page := fun r hr => (hb.page r hr).freeKpages (pageBlock_len_pos _) (hb.large c hc) hc0 hb.below
        (hi.large_disjoint c hc r hr).symm rfl
      large := fun c' hc' => by
        obtain ⟨hc', hne⟩ := List.mem_filter.1 hc'
        exact (hb.large c' hc').freeKpages (hi.live_len_pos (Or.inr hc')) (hb.large c hc) hc0 hb.below
          (hd c' hc' (by simpa using hne)) rfl }

/-- `(a - b) / PAGE_SIZE` on 32-bit addresses, without a wrap. -/
theorem pagesBetween_of_le {a b : ℕ} (hb : b ≤ a) (ha : a < 2 ^ 32) :
    Dumbvm.pagesBetween a b = (a - b) / pageSize := by
  unfold Dumbvm.pagesBetween
  congr 1
  omega

/-- The first frame `vm_bootstrap` manages: past the coremap and its two
    arrays, rounded up to a page boundary. -/
theorem vmBootstrap_baseAddr (vm : Dumbvm.Vm) : (Dumbvm.vmBootstrap vm).coreMap.baseAddr =
    (vm.firstpaddr + Dumbvm.coremapStructSize + 4 * Dumbvm.pagesBetween vm.lastpaddr vm.firstpaddr +
      4 * Dumbvm.pagesBetween vm.lastpaddr vm.firstpaddr + pageSize - 1) / pageSize * pageSize := rfl

/-- `vm_bootstrap` of at least two pages of RAM, at most the 508 MiB that
    `ram_bootstrap` takes: no block in use yet. -/
theorem backed_vmBootstrap (hroom : vm.firstpaddr + 2 * pageSize ≤ vm.lastpaddr)
    (hram : vm.lastpaddr ≤ 508 * 1024 * 1024) : Backed (Dumbvm.vmBootstrap vm) Shape.empty where
  created := rfl
  tame := rfl
  base_pos := by
    rw [vmBootstrap_baseAddr]
    unfold Dumbvm.coremapStructSize pageSize
    omega
  base_aligned := by
    rw [vmBootstrap_baseAddr]
    exact Nat.mul_mod_left _ _
  below := by
    have h32 : vm.lastpaddr < 2 ^ 32 := lt_of_le_of_lt hram (by norm_num)
    have hbase := vmBootstrap_baseAddr vm
    have hsize : (Dumbvm.vmBootstrap vm).coreMap.size =
        (Dumbvm.pagesBetween vm.lastpaddr (Dumbvm.vmBootstrap vm).coreMap.baseAddr : ℤ) := rfl
    rw [hsize, Int.toNat_natCast]
    rw [pagesBetween_of_le (show vm.firstpaddr ≤ vm.lastpaddr by omega) h32] at hbase
    generalize (Dumbvm.vmBootstrap vm).coreMap.baseAddr = base at hbase ⊢
    -- the arrays take 8 bytes a frame: the managed frames start below the end of RAM
    have hle : base ≤ vm.lastpaddr := by
      unfold Dumbvm.coremapStructSize pageSize at hbase
      unfold pageSize at hroom
      omega
    rw [pagesBetween_of_le hle h32]
    unfold pageSize
    omega
  page _ hr := absurd hr List.not_mem_nil
  large _ hc := absurd hc List.not_mem_nil

end Backed

end Os161.Kmalloc
