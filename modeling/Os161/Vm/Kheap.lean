import Mathlib
import Os161.Lib.Simulation
import Os161.Vm.Frames

/-!
# The kernel heap is an allocator

The kernel uses its heap through three calls: `kmalloc(sz)`, `kfree(ptr)`, and
the writes of the callers into the blocks they hold. `HeapOp.apply` runs them
on the model of `kmalloc.c`, whose state holds the coremap of dumbvm that
`alloc_kpages` and `free_kpages` work on.

What the heap is for is an allocator (`Blocks.Heap`): a set of blocks in use
that never overlap. `HeapOp.spec` says what each call does to it:

* `kmalloc(sz)` returns `NULL` and changes nothing, or returns a block of at
  least `sz` bytes, aligned to 16, that overlaps no block in use, and puts it
  in use;
* `kfree(ptr)` takes the block at `ptr` out of use;
* a write into a block in use changes no block.

The callers keep to `HeapOp.pre`: `sz` whose page count `size_t` holds, `kfree`
of `NULL` or of a block in use, and writes inside a block in use. The
environment (`HeapOp.env`) leaves memory: the coremap has a run of free
frames for the pages `kmalloc(sz)` may ask for. Without one, `alloc_kpages`
answers `0x80000003`, and `subpage_kmalloc` panics on its first store to it
(`kmalloc_panics_on_full_coremap`).

The heap is tied to the allocator by the invariant of `Os161.Vm.HeapInv` and
to the coremap by `Backed` (`Os161.Vm.Frames`). `heap_refines` proves that
every call whose assumptions hold passes all the `KASSERT`s of `kmalloc.c`
and does what the spec says; `kheap_run` lifts it to every run from
`vm_bootstrap`.
-/

namespace Os161.Kmalloc

open Blocks

/-- A call on the kernel heap. -/
inductive HeapOp
  | kmalloc (sz : ℕ)
  | kfree (ptr : BitVec 32)
  | store (addr w : BitVec 32)

namespace HeapOp

/-- A call on the model of `kmalloc.c`: the address returned, `0` for `NULL`
    and for the calls that return nothing. -/
def apply (k : Kmem) : HeapOp → Option (BitVec 32 × Kmem)
  | kmalloc sz => Kmalloc.kmalloc k sz
  | kfree ptr => (Kmalloc.kfree k ptr).map fun k' => (0, k')
  | store addr w => some (0, { k with heap := { k.heap with mem := Function.update k.heap.mem addr w } })

/-- The pages `kmalloc(sz)` may ask `alloc_kpages` for. -/
def pagesFor (sz : ℕ) : ℕ := if Dumbvm.largestSubpageSize ≤ sz then Dumbvm.kmallocNpages sz else 1

/-- Memory left: for `kmalloc(sz)`, a run of free frames for the pages it may
    ask for. -/
def env (k : Kmem) : HeapOp → Prop
  | kmalloc sz => ∃ i, k.vm.coreMap.Fits (pagesFor sz) i
  | kfree _ => True
  | store _ _ => True

/-- The callers' side: `sz` whose page count `size_t` holds, `kfree` of `NULL`
    or of a block in use, and writes inside a block in use. -/
def pre (H : Blocks.Heap) : HeapOp → Prop
  | kmalloc sz => sz + pageSize - 1 < 2 ^ 32
  | kfree ptr => ptr = 0 ∨ ∃ c ∈ H.live, c.addr = ptr.toNat
  | store addr _ => ∃ c ∈ H.live, c.Contains addr.toNat

/-- What a call does to the blocks in use. -/
def spec (H : Blocks.Heap) : HeapOp → BitVec 32 → Blocks.Heap → Prop
  | kmalloc sz, ret, H' =>
    (ret = 0 ∧ H'.live = H.live) ∨
      (ret ≠ 0 ∧ ret.toNat % 16 = 0 ∧ ∃ len, sz ≤ len ∧ H.Fresh ⟨ret.toNat, len⟩ ∧
        H'.live = Set.insert ⟨ret.toNat, len⟩ H.live)
  | kfree ptr, _, H' => H'.live = if ptr = 0 then H.live else {c ∈ H.live | c.addr ≠ ptr.toNat}
  | store _ _, _, H' => H'.live = H.live

end HeapOp

open HeapOp

/-- The memory `k` holds the blocks in use of `H`: a ghost state ties them to
    the allocator's tables, and its pages and runs to the coremap. -/
def Implements (k : Kmem) (H : Blocks.Heap) : Prop := ∃ g, Inv k.heap g ∧ Backed k.vm g ∧ H.live = g.live

/-- After `vm_bootstrap`, with the allocator's tables as at boot, no block is
    in use. -/
theorem implements_vmBootstrap (mem : BitVec 32 → BitVec 32) {vm : Dumbvm.Vm}
    (hroom : vm.firstpaddr + 2 * pageSize ≤ vm.lastpaddr) (hram : vm.lastpaddr ≤ 508 * 1024 * 1024) :
    Implements ⟨Heap.boot mem, Dumbvm.vmBootstrap vm⟩ Blocks.Heap.empty :=
  ⟨Shape.empty, inv_boot mem, backed_vmBootstrap hroom hram, live_empty.symm⟩

/-! ## The calls under the invariant -/

section Calls

variable {k : Kmem} {g : Shape} {H : Blocks.Heap}

/-- A run of free frames overlaps no block in use. -/
theorem Backed.fresh_run (hb : Backed k.vm g) (hi : Inv k.heap g) (hH : H.live = g.live) {i : ℤ} {m : ℕ}
    (hf : k.vm.coreMap.Fits m i) (hm : 0 < m) :
    H.Fresh ⟨(BitVec.ofNat 32 (k.vm.coreMap.frameVaddr i)).toNat, m * pageSize⟩ := by
  intro c hc
  rw [(hb.pageAddr hf).1]
  exact hb.fresh hi hf hm c (hH ▸ hc)

/-- `subpage_kmalloc(sz)` with a free frame in the coremap: a block of at
    least `sz` bytes that overlaps no block in use, now in use; or `NULL`,
    changing no block, with the page from `alloc_kpages` given back when no
    pageref is free. -/
theorem Inv.subpageKmalloc (hi : Inv k.heap g) (hb : Backed k.vm g) (hH : H.live = g.live) {sz : ℕ}
    (hsz : sz < Dumbvm.largestSubpageSize) {i : ℤ} (hroom : k.vm.coreMap.Fits 1 i) :
    ∃ ret k' g', subpageKmalloc k sz = some (ret, k') ∧ Inv k'.heap g' ∧ Backed k'.vm g' ∧
      ((ret = 0 ∧ g'.live = g.live) ∨
        (ret ≠ 0 ∧ ret.toNat % 16 = 0 ∧ ∃ len, sz ≤ len ∧ 0 < len ∧ H.Fresh ⟨ret.toNat, len⟩ ∧
          g'.live = Set.insert ⟨ret.toNat, len⟩ g.live)) := by
  obtain ⟨b, hbt⟩ := Option.isSome_iff_exists.1
    (@blocktype_isSome sz (by unfold Dumbvm.largestSubpageSize at hsz; omega))
  have hszb := le_of_blocktype hbt
  rcases hfind : (g.same b).find? (fun r => decide (g.free r ≠ [])) with _ | r
  · -- no page of the size has a free block: `alloc_kpages(1)` takes a free frame
    have hf : findFree k.heap b = some none := by rw [hi.findFree_eq, hfind]
    obtain ⟨j, hj, hal⟩ := Dumbvm.allocKpages_of_fits hb.created le_rfl hb.base_pos hroom
    obtain ⟨-, hp⟩ := hb.pageAddr hj
    have hne : k.vm.coreMap.frameVaddr j ≠ 0 := by
      have := (hb.frameVaddr_bounds hj).1
      omega
    -- the frame lies apart from every block in use
    have hfr := hb.fresh_run hi hH hj one_pos
    obtain ⟨o, inuse, ha, -, hsome⟩ := allocpageref_spec k.heap.pagerefsInuse
    cases o with
    | none =>
      -- no pageref is free: the page goes back
      exact ⟨0, _, g, subpageKmalloc_of_full hbt hf hal hne ha, hi, hb.returnPage hi hj, .inl ⟨rfl, rfl⟩⟩
    | some r =>
      obtain ⟨hbit, hinuse⟩ := hsome r rfl
      have hr : r ∉ g.all := fun hr => by
        rw [hi.inuse r, decide_eq_true hr] at hbit
        cases hbit
      obtain ⟨h₂, hk, hi₂, hlive⟩ := hi.fresh hH hp hfr hr hinuse b
      have hin : nblocks b - 1 < nblocks b := by have := two_le_nblocks b; omega
      refine ⟨_, ⟨h₂, _⟩, _, ?_, hi₂, hb.addPage hj r b, .inr ⟨slot_ne_zero hp hin, slot_mod_sixteen hp hin,
        sizes b, hszb, sizes_pos b, fun c hc => ?_, by rw [hlive, slotBlock_eq hp hin]⟩⟩
      · rw [subpageKmalloc_of_new hbt hf hal hne ha]
        rcases hn : newPage { k.heap with pagerefsInuse := inuse } r
            (BitVec.ofNat 32 (k.vm.coreMap.frameVaddr j)) b with _ | h₁
        · rw [hn] at hk
          cases hk
        · rw [hn, Option.bind_some] at hk
          rw [Option.bind_some, hk]
          rfl
      · -- the block lies in the fresh page
        rw [← slotBlock_eq hp hin]
        have hd := hfr c hc
        rw [Nat.one_mul] at hd
        exact hd.mono (slotBlock_within hin) (Block.within_refl c)
  · -- the first page of the size with a free block
    have hf : findFree k.heap b = some (some r) := by rw [hi.findFree_eq, hfind]
    obtain ⟨hr, rfl, hne⟩ := hi.findFree_some hf
    obtain ⟨i, l, hfree⟩ := List.exists_cons_of_ne_nil hne
    obtain ⟨h', hd, hi', hlive⟩ := hi.doalloc hr hfree
    have hp := hi.pages r hr
    have hin : i < nblocks (g.kind r) := hp.lt i (by simp [hfree])
    refine ⟨_, { k with heap := h' }, _, by rw [subpageKmalloc_of_found hbt hf, hd]; rfl, hi',
      hb.of_frames rfl rfl rfl, .inr ⟨slot_ne_zero hp.addr hin, slot_mod_sixteen hp.addr hin, sizes (g.kind r),
        hszb, sizes_pos _, fun c hc => ?_, by rw [hlive, slotBlock_eq hp.addr hin]⟩⟩
    -- a free block overlaps no block in use
    rw [← slotBlock_eq hp.addr hin]
    exact hi.free_disjoint hr (by simp [hfree]) (hH ▸ hc)

/-- With every frame of the coremap in use and no page of the size with a
    free block, `subpage_kmalloc` takes `alloc_kpages`'s answer `0x80000003`
    for a page, and its first store to it, `fl->next = NULL` at an address
    that is not a multiple of 4, panics the kernel: a `kmalloc` that should
    fail with `NULL` stops the system. -/
theorem kmalloc_panics_on_full_coremap (hi : Inv k.heap g) (hc : k.vm.iscmapCreated = true)
    (hfull : ∀ j, 0 ≤ j → j < k.vm.coreMap.size → k.vm.coreMap.inUse j ≠ 0) (hsize : 1 ≤ k.vm.coreMap.size)
    {sz : ℕ} (hsz : sz < Dumbvm.largestSubpageSize) {b : Fin 8} (hbt : blocktype sz = some b)
    (hnofree : ∀ r ∈ g.same b, g.free r = []) {r : Fin 256} (hr : r ∉ g.all) :
    Dumbvm.allocKpages k.vm 1 = some (0x80000003, k.vm) ∧ kmalloc k sz = none := by
  have hal : Dumbvm.allocKpages k.vm 1 = some (0x80000003, k.vm) :=
    Dumbvm.allocKpages_of_search_none hc (by exact_mod_cast hsize)
      (Dumbvm.Coremap.search_eq_none_of_full hfull le_rfl)
  refine ⟨hal, ?_⟩
  have hf : findFree k.heap b = some none := by
    rw [hi.findFree_eq, List.find?_eq_none.2 fun r hr => by simp [hnofree r hr]]
  -- the pageref `r` is free, so `allocpageref` returns one
  obtain ⟨o, inuse, ha, -, -⟩ := allocpageref_spec k.heap.pagerefsInuse
  cases o with
  | none =>
    have hbit := allocpageref_none ha r
    rw [hi.inuse r, decide_eq_false hr] at hbit
    cases hbit
  | some r' =>
    rw [kmalloc, if_neg (by omega), subpageKmalloc_of_new hbt hf hal (by decide) ha,
      newPage_of_misaligned (by decide), Option.bind_none]

theorem kmalloc_panics_of_one_frame_in_use :
    Inv (Heap.boot fun _ => 0) Shape.empty ∧
      (∀ j, 0 ≤ j → j < Dumbvm.oneFrameInUse.coreMap.size → Dumbvm.oneFrameInUse.coreMap.inUse j ≠ 0) ∧
      Dumbvm.allocKpages Dumbvm.oneFrameInUse 1 = some (0x80000003, Dumbvm.oneFrameInUse) ∧
      kmalloc ⟨Heap.boot fun _ => 0, Dumbvm.oneFrameInUse⟩ 16 = none := by
  have hfull : ∀ j, 0 ≤ j → j < Dumbvm.oneFrameInUse.coreMap.size → Dumbvm.oneFrameInUse.coreMap.inUse j ≠ 0 :=
    fun _ _ _ => one_ne_zero
  exact ⟨inv_boot _, hfull, kmalloc_panics_on_full_coremap (k := ⟨_, Dumbvm.oneFrameInUse⟩) (inv_boot _) rfl
    hfull (by decide) (by decide) (b := 0) (by decide) (fun _ hr => absurd hr List.not_mem_nil)
    (r := 0) List.not_mem_nil⟩

end Calls

/-! ## The refinement -/

section Refinement

variable {k : Kmem} {g : Shape} {H : Blocks.Heap}

/-- `kmalloc(sz)` under the invariant, with room in the coremap. -/
theorem Inv.kmalloc_refines (hi : Inv k.heap g) (hb : Backed k.vm g) (hH : H.live = g.live) {sz : ℕ}
    (henv : HeapOp.env k (.kmalloc sz)) (hpre : HeapOp.pre H (.kmalloc sz)) :
    ∃ r k', HeapOp.apply k (.kmalloc sz) = some (r, k') ∧
      ∃ H', HeapOp.spec H (.kmalloc sz) r H' ∧ Implements k' H' := by
  obtain ⟨i, hroom⟩ := henv
  by_cases hlarge : Dumbvm.largestSubpageSize ≤ sz
  · -- a large request: a run of free frames that fits
    simp only [pagesFor, if_pos hlarge] at hroom
    have hcover := Dumbvm.kmallocNpages_spec hpre
    have hn : 0 < Dumbvm.kmallocNpages sz := by
      unfold Dumbvm.largestSubpageSize at hlarge
      by_contra h0
      rw [Nat.eq_zero_of_not_pos h0] at hcover
      omega
    obtain ⟨j, hj, hal⟩ := Dumbvm.allocKpages_of_fits hb.created hn hb.base_pos hroom
    obtain ⟨-, hp⟩ := hb.pageAddr hj
    have hk : HeapOp.apply k (.kmalloc sz) = some (BitVec.ofNat 32 (k.vm.coreMap.frameVaddr j),
        { k with vm := { k.vm with coreMap := k.vm.coreMap.markRun j (Dumbvm.kmallocNpages sz) } }) := by
      rw [HeapOp.apply, Kmalloc.kmalloc, if_pos hlarge, Dumbvm.kmallocLarge, hal, Option.map_some]
    have hfr := hb.fresh_run hi hH hj hn
    obtain ⟨hi', hlive⟩ := hi.addLarge hH hp hn hfr
    have hlen : 0 < Dumbvm.kmallocNpages sz * pageSize := Nat.mul_pos hn (by decide)
    have hne : BitVec.ofNat 32 (k.vm.coreMap.frameVaddr j) ≠ 0 := (BitVec.ne_of_lt (show (0 : BitVec 32) < _ from hp.pos)).symm
    refine ⟨_, _, hk, H.insert _ hlen hfr, .inr ⟨hne, ?_, _, hcover.1, hfr, rfl⟩,
      _, hi', hb.addLarge hj, by rw [Blocks.Heap.live_insert, hlive, hH]⟩
    have := hp.aligned
    unfold pageSize at this
    omega
  · -- a small request: `subpage_kmalloc`
    simp only [pagesFor, if_neg hlarge] at hroom
    obtain ⟨ret, k', g', hk, hi', hb', hret⟩ := hi.subpageKmalloc hb hH (Nat.lt_of_not_le hlarge) hroom
    have hk' : HeapOp.apply k (.kmalloc sz) = some (ret, k') := by
      rw [HeapOp.apply, Kmalloc.kmalloc, if_neg hlarge, hk]
    rcases hret with ⟨rfl, hl⟩ | ⟨hne, halign, len, hlen, hlen0, hfr, hl⟩
    · exact ⟨_, k', hk', H, .inl ⟨rfl, rfl⟩, g', hi', hb', hH.trans hl.symm⟩
    · exact ⟨_, k', hk', H.insert _ hlen0 hfr, .inr ⟨hne, halign, len, hlen, hfr, rfl⟩, g', hi', hb',
        by rw [Blocks.Heap.live_insert, hl, hH]⟩

/-- `kfree(ptr)` under the invariant, of `NULL` or of a block in use: its page
    or run goes back to `free_kpages` once nothing of it is in use. -/
theorem Inv.kfree_refines (hi : Inv k.heap g) (hb : Backed k.vm g) (hH : H.live = g.live) {ptr : BitVec 32}
    (hpre : HeapOp.pre H (.kfree ptr)) :
    ∃ r k', HeapOp.apply k (.kfree ptr) = some (r, k') ∧
      ∃ H', HeapOp.spec H (.kfree ptr) r H' ∧ Implements k' H' := by
  rcases hpre with rfl | ⟨c, hc, hptr⟩
  · exact ⟨_, k, rfl, H, by simp [HeapOp.spec], g, hi, hb, hH⟩
  have hrel := Blocks.Heap.live_release_eq hc
  rw [hptr] at hrel
  have hcg : c ∈ g.live := hH ▸ hc
  rcases hcg with ⟨r, hr, i, hin, hif, rfl⟩ | hcl
  · -- a block of a page
    have hp := (hi.pages r hr).addr
    obtain rfl : ptr = slot (g.page r) (g.kind r) i :=
      BitVec.eq_of_toNat_eq (by rw [← hptr, slotBlock_eq hp hin])
    have hspec : HeapOp.spec H (.kfree (slot (g.page r) (g.kind r) i)) 0
        (H.release (slot (g.page r) (g.kind r) i).toNat) := by
      rw [HeapOp.spec, if_neg (slot_ne_zero hp hin)]
      rfl
    obtain ⟨h', g', hi', hlive, ⟨hk, hall, hpage, hlarge⟩ | ⟨hk, rfl⟩⟩ := hi.kfree_slot (k := k) hr hin hif
    · -- the page keeps a block in use
      exact ⟨_, { k with heap := h' }, by rw [HeapOp.apply, hk]; rfl, _, hspec, g', hi',
        hb.of_frames hall hpage hlarge, by rw [hrel, hlive, hH]⟩
    · -- the page goes back to `free_kpages`
      exact ⟨_, ⟨h', Dumbvm.freeKpages k.vm (g.page r).toNat⟩, by rw [HeapOp.apply, hk]; rfl, _, hspec,
        g.dropPage r, hi', hb.dropPage hi hr, by rw [hrel, hlive, hH]⟩
  · -- a large run: it goes back to `free_kpages`, apart from every other run
    obtain ⟨hk, hi', hlive⟩ := hi.kfree_large (k := k) hcl hptr
    have hne : ptr ≠ 0 := (BitVec.ne_of_lt (BitVec.lt_def.2 (hptr ▸ (hi.large c hcl).pos))).symm
    have hd : ∀ c' ∈ g.large, c' ≠ c → c'.Disjoint c := fun c' hc' hne' =>
      H.pairwise (hH ▸ Or.inr hc') hc hne'
    refine ⟨_, { k with vm := Dumbvm.freeKpages k.vm ptr.toNat }, by rw [HeapOp.apply, hk]; rfl,
      H.release ptr.toNat, by rw [HeapOp.spec, if_neg hne]; rfl, _, hi', ?_, by rw [hrel, hlive, hH]⟩
    rw [← hptr]
    exact hb.dropLarge hi hcl hd

/-- A write inside a block in use. -/
theorem Inv.store_refines (hi : Inv k.heap g) (hb : Backed k.vm g) (hH : H.live = g.live) {addr w : BitVec 32}
    (hpre : HeapOp.pre H (.store addr w)) :
    ∃ r k', HeapOp.apply k (.store addr w) = some (r, k') ∧
      ∃ H', HeapOp.spec H (.store addr w) r H' ∧ Implements k' H' := by
  obtain ⟨c, hc, ha⟩ := hpre
  refine ⟨_, _, rfl, H, rfl, g, hi.of_mem_live (hH ▸ hc) fun a ha' => ?_, hb, hH⟩
  exact Function.update_of_ne (by rintro rfl; exact ha' ha) _ _

/-- Every call whose assumptions hold passes the `KASSERT`s of `kmalloc.c`
    and does what the allocator spec says. -/
theorem heap_refines : Simulation.RefinesUnder Implements HeapOp.apply HeapOp.env HeapOp.pre HeapOp.spec := by
  rintro k H o ⟨g, hi, hb, hH⟩ henv hpre
  cases o with
  | kmalloc sz => exact hi.kmalloc_refines hb hH henv hpre
  | kfree ptr => exact hi.kfree_refines hb hH hpre
  | store addr w => exact hi.store_refines hb hH hpre

/-- From `vm_bootstrap`, every run of calls on the kernel heap keeps to the
    allocator spec as long as memory is left and the callers keep to their
    side: the run goes through, as a run of the spec, or keeps to the spec as
    far as a call whose assumptions fail. -/
theorem kheap_run (mem : BitVec 32 → BitVec 32) {vm : Dumbvm.Vm}
    (hroom : vm.firstpaddr + 2 * pageSize ≤ vm.lastpaddr) (hram : vm.lastpaddr ≤ 508 * 1024 * 1024)
    (os : List HeapOp) :
    (∃ rs k' H', Simulation.run HeapOp.apply ⟨Heap.boot mem, Dumbvm.vmBootstrap vm⟩ os = some (rs, k') ∧
        Simulation.SpecRun HeapOp.pre HeapOp.spec Blocks.Heap.empty os rs H' ∧ Implements k' H') ∨
      (∃ os₁ o os₂ rs₁ k₁ H₁, os = os₁ ++ o :: os₂ ∧
        Simulation.run HeapOp.apply ⟨Heap.boot mem, Dumbvm.vmBootstrap vm⟩ os₁ = some (rs₁, k₁) ∧
        Simulation.SpecRun HeapOp.pre HeapOp.spec Blocks.Heap.empty os₁ rs₁ H₁ ∧ Implements k₁ H₁ ∧
        ¬ (HeapOp.env k₁ o ∧ HeapOp.pre H₁ o)) :=
  Simulation.run_of_refinesUnder heap_refines os (implements_vmBootstrap mem hroom hram)

/-- A machine with 16 MiB of RAM, of which the kernel has taken the first
    2 MiB before `vm_bootstrap`. -/
def sixteenMiB : Dumbvm.Vm := ⟨0x200000, 0x1000000, false, ⟨0, fun _ => 0, fun _ => 0, 0, false⟩⟩

theorem kheap_run_of_sixteenMiB :
    (∃ rs k' H', Simulation.run HeapOp.apply ⟨Heap.boot fun _ => 0, Dumbvm.vmBootstrap sixteenMiB⟩
          [.kmalloc 16, .kmalloc 5000, .kfree 0] = some (rs, k') ∧
        Simulation.SpecRun HeapOp.pre HeapOp.spec Blocks.Heap.empty [.kmalloc 16, .kmalloc 5000, .kfree 0] rs H' ∧
        Implements k' H') ∨
      (∃ os₁ o os₂ rs₁ k₁ H₁, [.kmalloc 16, .kmalloc 5000, .kfree 0] = os₁ ++ o :: os₂ ∧
        Simulation.run HeapOp.apply ⟨Heap.boot fun _ => 0, Dumbvm.vmBootstrap sixteenMiB⟩ os₁ = some (rs₁, k₁) ∧
        Simulation.SpecRun HeapOp.pre HeapOp.spec Blocks.Heap.empty os₁ rs₁ H₁ ∧ Implements k₁ H₁ ∧
        ¬ (HeapOp.env k₁ o ∧ HeapOp.pre H₁ o)) :=
  kheap_run _ (by decide) (by decide) _

end Refinement

end Os161.Kmalloc
