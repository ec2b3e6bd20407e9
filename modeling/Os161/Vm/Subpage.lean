import Mathlib
import Os161.Basic
import Os161.Lib.Chain
import Os161.Vm.Kmalloc

/-!
# The subpage allocator of `kmalloc`

kern/vm/kmalloc.c serves a request below `LARGEST_SUBPAGE_SIZE` from pages cut
into blocks of one of eight sizes, `sizes[]`, 16 to 2048 bytes. Each such page
has a `struct pageref`, taken from a fixed table of `NPAGEREFS` with a bitmap
`pagerefs_inuse[]` of the ones in use. A pageref records the page's address
and block type, packed in one word, and the free blocks of the page as a list
threaded through the blocks themselves: `freelist_offset` is the first free
block's offset in the page, and the first word of each free block points at
the next one. The pagerefs are kept on two lists, linked through the pagerefs:
`sizebases[blktype]` for each block type, and `allbase` for all of them.

* `subpage_kmalloc(sz)` walks the list of the block type of `sz` for a page
  with a free block; without one it asks `alloc_kpages` for a page, takes a
  pageref, threads the page's blocks into a free list and puts the pageref on
  both lists. Either way it then (at `doalloc:`) takes the first block off the
  page's free list.
* `subpage_kfree(ptr)` walks all pages for the one that holds `ptr`, fills the
  block with `0xdeadbeef` and pushes it on the free list; when the whole page is
  free, it takes the pageref off both lists (`remove_lists`), frees it and
  gives the page back with `free_kpages`.

`kmalloc` sends larger requests to `alloc_kpages`, and `kfree` a pointer that no
page of the subpage allocator holds to `free_kpages`.

The state (`Kmem`) is the allocator's own and dumbvm's physical memory
(`Os161.Vm.Coremap`): `alloc_kpages` and `free_kpages` are
`Dumbvm.allocKpages` and `Dumbvm.freeKpages`. After `vm_bootstrap`,
`alloc_kpages` answers `0x80000003` on a full coremap, which `subpage_kmalloc`
takes for a page; its first store to it, `fl->next = NULL`, is a misaligned
word store, a fatal exception in the kernel (`storeNext`,
`newPage_of_misaligned`). `subpage_kfree` releases `kmalloc_spinlock` before
its `free_kpages`: the part under the lock is `subpageKfreeLocked`.

Memory is modelled as one 32-bit word at each address, `mem`: the free-list
links and the `0xdeadbeef` fill. Pointers are indices into the tables, `NULL`
being `none`, and a failed `KASSERT` or `panic` is `none`. The loops over the
pageref lists have `NPAGEREFS` turns of fuel (`SList.walk`, `SList.unlink`).

The lemmas below are the specifications of the pieces, which the proof of the
whole allocator (`Os161.Vm.Kheap`) uses: the words `MKPAB` packs
(`prPageaddr_of_mkpab`, `prBlocktype_of_mkpab`), the bits of `pagerefs_inuse[]`
(`allocpageref_spec`, `freepageref_spec`), the free list a fresh page gets
(`initFreelist_spec`), and what `fill_deadbeef` leaves alone
(`fillDeadbeef_of_ne`).
-/

namespace Os161.Kmalloc

/-! ## The model -/

/-- `sizes[]`, the block sizes; `NSIZES` is `8`. -/
def sizes : Fin 8 → ℕ := ![16, 32, 64, 128, 256, 512, 1024, 2048]

/-- `NPAGEREFS`: a page of 16-byte `struct pageref`s, `256`. -/
def npagerefs : ℕ := pageSize / 16

/-- `INVALID_OFFSET`. -/
def invalidOffset : BitVec 16 := 0xffff

/-- `PAGE_FRAME` (vm.h): the page-number bits of an address. -/
def pageFrame : BitVec 32 := 0xfffff000

/-- `struct pageref`; the links are indices into `pagerefs[]`. -/
structure Pageref where
  nextSamesize : Option (Fin 256)
  nextAll : Option (Fin 256)
  pageaddrAndBlocktype : BitVec 32
  freelistOffset : BitVec 16
  nfree : BitVec 16

/-- `PR_PAGEADDR(pr)`. -/
def prPageaddr (pr : Pageref) : BitVec 32 := pr.pageaddrAndBlocktype &&& pageFrame

/-- `PR_BLOCKTYPE(pr)`. -/
def prBlocktype (pr : Pageref) : BitVec 32 := pr.pageaddrAndBlocktype &&& ~~~pageFrame

/-- `MKPAB(pa, blk)`. -/
def mkpab (pa blk : BitVec 32) : BitVec 32 := (pa &&& pageFrame) ||| (blk &&& ~~~pageFrame)

/-- The allocator's state: `pagerefs[]`, `pagerefs_inuse[]`, `sizebases[]`,
    `allbase`, and the memory the free lists live in. -/
structure Heap where
  pagerefs : Fin 256 → Pageref
  pagerefsInuse : Fin 8 → BitVec 32
  sizebases : Fin 8 → Option (Fin 256)
  allbase : Option (Fin 256)
  mem : BitVec 32 → BitVec 32

/-- The allocator at boot: its tables are in the BSS, all zero. -/
def Heap.boot (mem : BitVec 32 → BitVec 32) : Heap where
  pagerefs _ := ⟨none, none, 0, 0, 0⟩
  pagerefsInuse _ := 0
  sizebases _ := none
  allbase := none
  mem := mem

/-- `fl->next` of the free-list entry at `a`, `NULL` being `none`. -/
def memNext (mem : BitVec 32 → BitVec 32) (a : BitVec 32) : Option (BitVec 32) :=
  if mem a = 0 then none else some (mem a)

/-- `fill_deadbeef(ptr, 4 * n)`: the words `ptr[0]`, …, `ptr[n - 1]` set to
    `0xdeadbeef`, in that order. -/
def fillDeadbeef (mem : BitVec 32 → BitVec 32) (ptr : BitVec 32) : ℕ → BitVec 32 → BitVec 32
  | 0 => mem
  | i + 1 => Function.update (fillDeadbeef mem ptr i) (ptr + BitVec.ofNat 32 (4 * i)) 0xdeadbeef

/-- `blocktype(sz)`: the first block size that holds `sz`; `none` is the
    `panic` for a size above all of them. -/
def blocktype (sz : ℕ) : Option (Fin 8) := (List.finRange 8).find? fun i => sz ≤ sizes i

/-- The inner loop of `allocpageref`, `for (k=1,j=0; k!=0; k<<=1,j++)`, from
    bit `j`: the first clear bit of `w`. `k` is `1 << j`, which shifts out to
    `0` at `j = 32`. -/
def firstClear (w : BitVec 32) (j : ℕ) : Option (Fin 32) :=
  if hj : j < 32 then
    if w &&& 1#32 <<< j = 0 then some ⟨j, hj⟩ else firstClear w (j + 1)
  else none
termination_by 32 - j

/-- `allocpageref()` over the words `is` of `pagerefs_inuse[]`: in the first
    one that is not full, its first clear bit, set; `some (none, _)` is `NULL`,
    every pageref in use, and `none` the `KASSERT(0)` after the inner loop. -/
def allocpagerefFrom (inuse : Fin 8 → BitVec 32) :
    List (Fin 8) → Option (Option (Fin 256) × (Fin 8 → BitVec 32))
  | [] => some (none, inuse)
  | i :: is =>
    if inuse i = 0xffffffff then allocpagerefFrom inuse is
    else
      match firstClear (inuse i) 0 with
      | none => none
      | some j =>
        some (some ⟨i.val * 32 + j.val, by omega⟩,
          Function.update inuse i (inuse i ||| 1#32 <<< j.val))

/-- `allocpageref()`. -/
def allocpageref (inuse : Fin 8 → BitVec 32) : Option (Option (Fin 256) × (Fin 8 → BitVec 32)) :=
  allocpagerefFrom inuse (List.finRange 8)

/-- The word of `pagerefs_inuse[]` that holds the bit of the pageref `p`. -/
def inuseWord (p : Fin 256) : Fin 8 := ⟨p.val / 32, by omega⟩

/-- `freepageref(p)`: its bit cleared; `none` is the `KASSERT` that it was
    set. -/
def freepageref (inuse : Fin 8 → BitVec 32) (p : Fin 256) : Option (Fin 8 → BitVec 32) :=
  let i := inuseWord p
  let k := 1#32 <<< (p.val % 32)
  if inuse i &&& k ≠ 0 then some (Function.update inuse i (inuse i &&& ~~~k)) else none

/-- `pr->next_samesize = v`. -/
def setNextSamesize (refs : Fin 256 → Pageref) (r : Fin 256) (v : Option (Fin 256)) :
    Fin 256 → Pageref :=
  Function.update refs r { refs r with nextSamesize := v }

/-- `pr->next_all = v`. -/
def setNextAll (refs : Fin 256 → Pageref) (r : Fin 256) (v : Option (Fin 256)) : Fin 256 → Pageref :=
  Function.update refs r { refs r with nextAll := v }

/-- `remove_lists(pr, blktype)`: the pointer-to-pointer loop over
    `sizebases[blktype]`, then over `allbase`. -/
def removeLists (h : Heap) (pr : Fin 256) (blktype : Fin 8) : Option Heap := do
  let (sb, refs) ← SList.unlink (fun refs r => (refs r).nextSamesize) setNextSamesize pr npagerefs
    .head (h.sizebases blktype) h.pagerefs
  let (ab, refs) ← SList.unlink (fun refs r => (refs r).nextAll) setNextAll pr npagerefs
    .head h.allbase refs
  pure { h with pagerefs := refs, sizebases := Function.update h.sizebases blktype sb, allbase := ab }

/-- The loop of `subpage_kmalloc` over `sizebases[blktype]`, with its
    `KASSERT(PR_BLOCKTYPE(pr) == blktype)`: the first page with a free
    block. -/
def findFree (h : Heap) (blktype : Fin 8) : Option (Option (Fin 256)) :=
  SList.walk (fun r => (h.pagerefs r).nextSamesize)
    (fun r => if prBlocktype (h.pagerefs r) = BitVec.ofNat 32 blktype then
        some (decide (0 < (h.pagerefs r).nfree.toNat)) else none)
    npagerefs (h.sizebases blktype)

/-- The code at `doalloc:` in `subpage_kmalloc`, for the page of `pr`: the first
    block of its free list, taken off it. -/
def doalloc (h : Heap) (pr : Fin 256) : Option (BitVec 32 × Heap) :=
  let p := h.pagerefs pr
  if p.freelistOffset.toNat < pageSize then
    let prpage := prPageaddr p
    let fla := prpage + p.freelistOffset.setWidth 32
    let fl := h.mem fla
    let nfree := p.nfree - 1
    if fl ≠ 0 then
      if 0 < nfree.toNat ∧ (fl - prpage).toNat < pageSize then
        some (fla, { h with pagerefs := (Function.update h.pagerefs pr
          { p with nfree := nfree, freelistOffset := (fl - prpage).setWidth 16 }) })
      else none
    else if nfree = 0 then
      some (fla, { h with pagerefs := (Function.update h.pagerefs pr
        { p with nfree := nfree, freelistOffset := invalidOffset }) })
    else none
  else none

/-- The word store `fl->next = v` of a free-list entry at `a`. A word store to
    an address that is not a multiple of 4 is an address error, which
    `mips_trap` turns into a panic in the kernel ("Fatal exception ... in
    kernel mode"). The stores of `subpage_kfree` go to blocks of pages the
    allocator has cut, at multiples of 16 from a page boundary; only a page
    from `alloc_kpages` can be misaligned. -/
def storeNext (mem : BitVec 32 → BitVec 32) (a v : BitVec 32) : Option (BitVec 32 → BitVec 32) :=
  if a.toNat % 4 = 0 then some (Function.update mem a v) else none

/-- The loop that threads a fresh page's blocks into a free list: `fl->next =
    NULL` at the first block, then at block `i`, for `i = 1, …, k`, `fl->next`
    the block before; `none` is its `KASSERT(fl != fl->next)`, or a store at a
    misaligned address. -/
def initFreelist (mem : BitVec 32 → BitVec 32) (fla : BitVec 32) (sz : ℕ) :
    ℕ → Option (BitVec 32 → BitVec 32)
  | 0 => storeNext mem fla 0
  | i + 1 => do
    let m ← initFreelist mem fla sz i
    let fl := fla + BitVec.ofNat 32 ((i + 1) * sz)
    let next := fla + BitVec.ofNat 32 (i * sz)
    let m' ← storeNext m fl next
    if fl = next then none else some m'

/-- `subpage_kmalloc` after `alloc_kpages` gave `prpage` and `allocpageref`
    the pageref `pr`: the page cut into blocks of `sizes[blktype]`, all on its
    free list, and `pr` at the head of both lists; `none` is the `KASSERT` on
    `freelist_offset`. -/
def newPage (h : Heap) (pr : Fin 256) (prpage : BitVec 32) (blktype : Fin 8) : Option Heap := do
  let sz := sizes blktype
  let n := pageSize / sz
  let mem ← initFreelist h.mem prpage sz (n - 1)
  let fla := prpage + BitVec.ofNat 32 ((n - 1) * sz)
  let offset := (fla - prpage).setWidth 16
  if offset.toNat = (n - 1) * sz then
    some { h with
      pagerefs := (Function.update h.pagerefs pr
        { nextSamesize := h.sizebases blktype, nextAll := h.allbase,
          pageaddrAndBlocktype := mkpab prpage (BitVec.ofNat 32 blktype),
          freelistOffset := offset, nfree := BitVec.ofNat 16 n })
      sizebases := Function.update h.sizebases blktype (some pr)
      allbase := some pr
      mem := mem }
  else none

/-- The memory `kmalloc.c` works on: its own tables and the words of its
    blocks, and dumbvm's frames, which `alloc_kpages` and `free_kpages` take
    and give back. -/
structure Kmem where
  heap : Heap
  vm : Dumbvm.Vm

/-- `subpage_kmalloc(sz)`: the block returned, `0` for `NULL`. -/
def subpageKmalloc (k : Kmem) (sz : ℕ) : Option (BitVec 32 × Kmem) := do
  let blktype ← blocktype sz
  match (← findFree k.heap blktype) with
  | some pr =>
    let (ret, h) ← doalloc k.heap pr
    pure (ret, { k with heap := h })
  | none =>
    -- no page of this size has a free block: make a new one
    let (prpage, vm) ← Dumbvm.allocKpages k.vm 1
    -- "Subpage allocator couldn't get a page"
    if prpage = 0 then pure (0, { k with vm := vm })
    else
      match (← allocpageref k.heap.pagerefsInuse) with
      -- "Subpage allocator couldn't get pageref"
      | (none, _) => pure (0, { k with vm := Dumbvm.freeKpages vm prpage })
      | (some pr, inuse) =>
        let h₁ ← newPage { k.heap with pagerefsInuse := inuse } pr (BitVec.ofNat 32 prpage) blktype
        let (ret, h₂) ← doalloc h₁ pr
        pure (ret, ⟨h₂, vm⟩)

/-- The loop of `subpage_kfree` over `allbase`, with its `KASSERT` on the block
    type: the page that holds `ptr`. -/
def findPage (h : Heap) (ptr : BitVec 32) : Option (Option (Fin 256)) :=
  SList.walk (fun r => (h.pagerefs r).nextAll)
    (fun r =>
      let prpage := prPageaddr (h.pagerefs r)
      if (prBlocktype (h.pagerefs r)).toNat < 8 then
        some (decide (prpage ≤ ptr ∧ ptr < prpage + BitVec.ofNat 32 pageSize)) else none)
    npagerefs h.allbase

/-- The part of `subpage_kfree(ptr)` under `kmalloc_spinlock`: `-1` when no
    page holds `ptr`, and otherwise `0` with the page to give to `free_kpages`,
    if the block was its last one in use. -/
def subpageKfreeLocked (h : Heap) (ptr : BitVec 32) : Option ((ℤ × Option (BitVec 32)) × Heap) := do
  match (← findPage h ptr) with
  | none => pure ((-1, none), h)
  | some r =>
    let p := h.pagerefs r
    let prpage := prPageaddr p
    if hb : (prBlocktype p).toNat < 8 then
      let blktype : Fin 8 := ⟨(prBlocktype p).toNat, hb⟩
      let sz := sizes blktype
      let offset := ptr - prpage
      -- "kfree: subpage free of invalid addr"
      if pageSize ≤ offset.toNat ∨ offset.toNat % sz ≠ 0 then none
      else
        let fla := prpage + offset
        let mem := Function.update (fillDeadbeef h.mem ptr (sz / 4)) fla
          (if p.freelistOffset = invalidOffset then 0 else prpage + p.freelistOffset.setWidth 32)
        let nfree := p.nfree + 1
        let h' := { h with
          pagerefs := Function.update h.pagerefs r { p with freelistOffset := offset.setWidth 16, nfree := nfree }
          mem := mem }
        if nfree.toNat ≤ pageSize / sz then
          if nfree.toNat = pageSize / sz then
            -- the whole page is free
            let h'' ← removeLists h' r blktype
            let inuse ← freepageref h''.pagerefsInuse r
            pure ((0, some prpage), { h'' with pagerefsInuse := inuse })
          else pure ((0, none), h')
        else none
    else none

/-- `free_kpages(prpage)` of the page `subpage_kfree` gives back, if any. -/
def releasePage (vm : Dumbvm.Vm) : Option (BitVec 32) → Dumbvm.Vm
  | some prpage => Dumbvm.freeKpages vm prpage.toNat
  | none => vm

/-- `subpage_kfree(ptr)`: the part under the lock, then `free_kpages` of a
    page left with no block in use. -/
def subpageKfree (k : Kmem) (ptr : BitVec 32) : Option (ℤ × Kmem) :=
  (subpageKfreeLocked k.heap ptr).map fun ((r, freed), h) => (r, ⟨h, releasePage k.vm freed⟩)

/-- `kmalloc(sz)`: a request of `LARGEST_SUBPAGE_SIZE` or more gets whole
    pages from `alloc_kpages`, and its address (`0` for `NULL`). -/
def kmalloc (k : Kmem) (sz : ℕ) : Option (BitVec 32 × Kmem) :=
  if Dumbvm.largestSubpageSize ≤ sz then
    (Dumbvm.kmallocLarge k.vm sz).map fun (address, vm) => (BitVec.ofNat 32 address, { k with vm := vm })
  else subpageKmalloc k sz

/-- `kfree(ptr)`: a pointer that no subpage page holds must be a whole page,
    which goes to `free_kpages`. -/
def kfree (k : Kmem) (ptr : BitVec 32) : Option Kmem :=
  if ptr = 0 then some k
  else do
    let (r, k') ← subpageKfree k ptr
    if r ≠ 0 then
      if ptr.toNat % pageSize = 0 then pure { k' with vm := Dumbvm.freeKpages k'.vm ptr.toNat } else none
    else pure k'

/-! ## Block sizes -/

/-- The number of blocks a page of `blktype` is cut into. -/
def nblocks (blktype : Fin 8) : ℕ := pageSize / sizes blktype

@[simp] theorem npagerefs_eq : npagerefs = 256 := rfl

theorem nblocks_mul_sizes : ∀ b, nblocks b * sizes b = pageSize := by decide

theorem sixteen_le_sizes : ∀ b, 16 ≤ sizes b := by decide

theorem sizes_mod_sixteen : ∀ b, sizes b % 16 = 0 := by decide

theorem two_le_nblocks : ∀ b, 2 ≤ nblocks b := by decide

theorem nblocks_le : ∀ b, nblocks b ≤ 256 := by decide

/-- The block size `blocktype` picks holds the request. -/
theorem le_of_blocktype {sz : ℕ} {b : Fin 8} (h : blocktype sz = some b) : sz ≤ sizes b := by
  simpa using List.find?_some h

/-- `blocktype` panics only above the largest size. -/
theorem blocktype_isSome {sz : ℕ} (h : sz ≤ 2048) : (blocktype sz).isSome := by
  rw [blocktype, List.find?_isSome]
  exact ⟨7, List.mem_finRange 7, decide_eq_true (show sz ≤ sizes 7 from h)⟩

/-! ## Words -/

theorem not_pageFrame : ~~~pageFrame = 0xfff#32 := by decide

theorem and_not_pageFrame_toNat (x : BitVec 32) : (x &&& ~~~pageFrame).toNat = x.toNat % pageSize := by
  rw [not_pageFrame, BitVec.toNat_and, show (0xfff#32).toNat = 2 ^ 12 - 1 by decide,
    Nat.and_two_pow_sub_one_eq_mod]
  rfl

/-- `MKPAB` keeps the page bits of the address. -/
theorem and_pageFrame_mkpab (p b : BitVec 32) : mkpab p b &&& pageFrame = p &&& pageFrame := by
  ext i hi
  simp only [mkpab, BitVec.getElem_and, BitVec.getElem_or, BitVec.getElem_not]
  cases p[i] <;> cases b[i] <;> cases pageFrame[i] <;> rfl

/-- `MKPAB` keeps the offset bits of the block type. -/
theorem and_not_pageFrame_mkpab (p b : BitVec 32) : mkpab p b &&& ~~~pageFrame = b &&& ~~~pageFrame := by
  ext i hi
  simp only [mkpab, BitVec.getElem_and, BitVec.getElem_or, BitVec.getElem_not]
  cases p[i] <;> cases b[i] <;> cases pageFrame[i] <;> rfl

/-- A page-aligned address is its own page bits. -/
theorem and_pageFrame_of_aligned {p : BitVec 32} (hp : p.toNat % pageSize = 0) : p &&& pageFrame = p := by
  have hlow : p &&& ~~~pageFrame = 0 := BitVec.eq_of_toNat_eq (by rw [and_not_pageFrame_toNat, hp]; rfl)
  ext i hi
  have hi' := congrArg (fun x : BitVec 32 => x[i]) hlow
  simp only [BitVec.getElem_and, BitVec.getElem_not] at hi' ⊢
  cases hpi : p[i] <;> cases hf : pageFrame[i] <;> simp_all

/-- The page address and block type of a pageref `MKPAB` filled. -/
theorem prPageaddr_of_mkpab {pr : Pageref} {p : BitVec 32} {b : ℕ} (hpr : pr.pageaddrAndBlocktype = mkpab p (BitVec.ofNat 32 b))
    (hp : p.toNat % pageSize = 0) : prPageaddr pr = p := by
  rw [prPageaddr, hpr, and_pageFrame_mkpab, and_pageFrame_of_aligned hp]

theorem prBlocktype_of_mkpab {pr : Pageref} {p : BitVec 32} {b : ℕ} (hpr : pr.pageaddrAndBlocktype = mkpab p (BitVec.ofNat 32 b))
    (hb : b < pageSize) : prBlocktype pr = BitVec.ofNat 32 b := by
  rw [prBlocktype, hpr, and_not_pageFrame_mkpab]
  have hb' : b < 2 ^ 32 := by unfold pageSize at hb; omega
  apply BitVec.eq_of_toNat_eq
  rw [and_not_pageFrame_toNat, BitVec.toNat_ofNat, Nat.mod_eq_of_lt hb', Nat.mod_eq_of_lt hb]

/-- An address plus an offset that does not carry out of 32 bits. -/
theorem toNat_add_ofNat {a : BitVec 32} {x : ℕ} (h : a.toNat + x < 2 ^ 32) :
    (a + BitVec.ofNat 32 x).toNat = a.toNat + x := by
  rw [BitVec.toNat_add, BitVec.toNat_ofNat, Nat.mod_eq_of_lt (by omega : x < 2 ^ 32), Nat.mod_eq_of_lt h]

/-! ## The bits of `pagerefs_inuse[]` -/

/-- The bit of the pageref `r` in `pagerefs_inuse[]`. -/
def inuseBit (inuse : Fin 8 → BitVec 32) (r : Fin 256) : Bool := (inuse (inuseWord r)).getLsbD (r.val % 32)

theorem and_shiftLeft_eq_zero_iff (w : BitVec 32) {j : ℕ} (hj : j < 32) :
    w &&& 1#32 <<< j = 0 ↔ w.getLsbD j = false := by
  rw [← BitVec.twoPow_eq, BitVec.and_twoPow]
  cases hw : w.getLsbD j
  · simp
  · simp only [if_true]
    refine ⟨fun h0 => ?_, fun h => nomatch h⟩
    have := congrArg (fun x : BitVec 32 => x.getLsbD j) h0
    simp [hj] at this

/-- The inner loop finds the first clear bit from `j` on. -/
theorem firstClear_spec {w : BitVec 32} {j : ℕ} {k : Fin 32} (h : firstClear w j = some k) :
    w.getLsbD k = false := by
  induction j using firstClear.induct w with
  | case1 j hj hz =>
    rw [firstClear, dif_pos hj, if_pos hz, Option.some_inj] at h
    subst h
    exact (and_shiftLeft_eq_zero_iff w hj).1 hz
  | case2 j hj hz ih =>
    rw [firstClear, dif_pos hj, if_neg hz] at h
    exact ih h
  | case3 j hj =>
    rw [firstClear, dif_neg hj] at h
    cases h

/-- A clear bit at `k ≥ j` is found. -/
theorem firstClear_isSome {w : BitVec 32} {j k : ℕ} (hjk : j ≤ k) (hk : k < 32) (hw : w.getLsbD k = false) :
    (firstClear w j).isSome := by
  induction j using firstClear.induct w with
  | case1 j hj hz => rw [firstClear, dif_pos hj, if_pos hz]; rfl
  | case2 j hj hz ih =>
    rw [firstClear, dif_pos hj, if_neg hz]
    -- bit `j` is set, so the clear one is further on
    have hjk' : j ≠ k := by
      rintro rfl
      exact hz ((and_shiftLeft_eq_zero_iff w hj).2 hw)
    exact ih (by omega)
  | case3 j hj => omega

/-- A word that is not full has a clear bit. -/
theorem exists_clear_of_ne {w : BitVec 32} (hw : w ≠ 0xffffffff) : ∃ k < 32, w.getLsbD k = false := by
  by_contra hall
  simp only [not_exists, not_and, Bool.not_eq_false] at hall
  have hones : ∀ i < 32, (0xffffffff : BitVec 32).getLsbD i = true := by decide
  apply hw
  apply BitVec.eq_of_getLsbD_eq
  intro i hi
  rw [hall i hi, hones i hi]

theorem inuseBit_update_or {inuse : Fin 8 → BitVec 32} {i : Fin 8} {j : Fin 32} (r' : Fin 256) :
    inuseBit (Function.update inuse i (inuse i ||| 1#32 <<< j.val)) r' =
      (inuseBit inuse r' || decide (r'.val = i.val * 32 + j.val)) := by
  unfold inuseBit
  by_cases hw : inuseWord r' = i
  · rw [hw, Function.update_self, ← BitVec.twoPow_eq, BitVec.getLsbD_or, BitVec.getLsbD_twoPow]
    congr 1
    have hr' : r'.val / 32 = i.val := congrArg Fin.val hw
    simp only [j.isLt, decide_true, Bool.true_and, decide_eq_decide]
    omega
  · rw [Function.update_of_ne hw]
    have : ¬ (r'.val = i.val * 32 + j.val) := by
      intro he
      apply hw
      ext
      simp only [inuseWord]
      have := j.isLt
      omega
    simp [this]

/-- `allocpageref` returns `NULL` and changes nothing, or returns a pageref
    whose bit was clear, and sets that bit; its `KASSERT(0)` never fails. -/
theorem allocpageref_spec (inuse : Fin 8 → BitVec 32) :
    ∃ o inuse', allocpageref inuse = some (o, inuse') ∧ (o = none → inuse' = inuse) ∧
      ∀ r, o = some r → inuseBit inuse r = false ∧
        ∀ r', inuseBit inuse' r' = (inuseBit inuse r' || decide (r' = r)) := by
  unfold allocpageref
  -- induction on the words still to scan
  induction List.finRange 8 with
  | nil => exact ⟨none, inuse, rfl, fun _ => rfl, by simp⟩
  | cons i is ih =>
    rw [allocpagerefFrom]
    split_ifs with hfull
    · exact ih
    · obtain ⟨k, hk, hbit⟩ := exists_clear_of_ne hfull
      obtain ⟨j, hj⟩ := Option.isSome_iff_exists.1 (firstClear_isSome (Nat.zero_le k) hk hbit)
      rw [hj]
      refine ⟨_, _, rfl, by simp, ?_⟩
      rintro r hr
      obtain rfl := Option.some_inj.1 hr.symm
      refine ⟨?_, fun r' => ?_⟩
      · -- the pageref's bit is bit `j` of word `i`
        have hw : inuseWord ⟨i.val * 32 + j.val, by omega⟩ = i := by
          ext
          simp only [inuseWord]
          omega
        have hm : (i.val * 32 + j.val) % 32 = j.val := by omega
        unfold inuseBit
        rw [hw, hm]
        exact firstClear_spec hj
      · rw [inuseBit_update_or]
        simp [Fin.ext_iff]

/-- `allocpageref` returns `NULL` only when every pageref is in use: it skips
    only full words. -/
theorem allocpageref_none {inuse inuse' : Fin 8 → BitVec 32} (h : allocpageref inuse = some (none, inuse')) :
    ∀ r, inuseBit inuse r = true := by
  have hfull : ∀ is : List (Fin 8), allocpagerefFrom inuse is = some (none, inuse') →
      ∀ i ∈ is, inuse i = 0xffffffff := by
    intro is
    induction is with
    | nil => intro _ i hi; exact absurd hi List.not_mem_nil
    | cons i is ih =>
      intro hrun i' hi'
      rw [allocpagerefFrom] at hrun
      split_ifs at hrun with hi
      · rcases List.mem_cons.1 hi' with rfl | hi'
        · exact hi
        · exact ih hrun i' hi'
      · -- a word that is not full gives a pageref, or fails its `KASSERT`
        split at hrun <;> simp at hrun
  intro r
  have hones : ∀ k < 32, (0xffffffff : BitVec 32).getLsbD k = true := by decide
  unfold inuseBit
  rw [hfull _ h _ (List.mem_finRange _)]
  exact hones _ (Nat.mod_lt _ (by decide))

/-- `freepageref` of a pageref whose bit is set clears that bit. -/
theorem freepageref_spec {inuse : Fin 8 → BitVec 32} {r : Fin 256} (h : inuseBit inuse r = true) :
    ∃ inuse', freepageref inuse r = some inuse' ∧
      ∀ r', inuseBit inuse' r' = (inuseBit inuse r' && decide (r' ≠ r)) := by
  have hr : r.val % 32 < 32 := Nat.mod_lt _ (by norm_num)
  refine ⟨_, if_pos ?_, fun r' => ?_⟩
  · rw [ne_eq, and_shiftLeft_eq_zero_iff _ hr]
    unfold inuseBit at h
    simp [h]
  · unfold inuseBit
    by_cases hw : inuseWord r' = inuseWord r
    · rw [hw, Function.update_self, ← BitVec.twoPow_eq, BitVec.getLsbD_and, BitVec.getLsbD_not,
        BitVec.getLsbD_twoPow]
      congr 1
      have h32 : r'.val % 32 < 32 := Nat.mod_lt _ (by norm_num)
      have hw' : r'.val / 32 = r.val / 32 := congrArg Fin.val hw
      simp only [h32, decide_true, hr, Bool.true_and, ne_eq, Fin.ext_iff, decide_not]
      congr 1
      simp only [decide_eq_decide]
      omega
    · rw [Function.update_of_ne hw]
      have : r' ≠ r := fun he => hw (he ▸ rfl)
      simp [this]

/-! ## A fresh page's free list -/

section Freelist

variable {mem : BitVec 32 → BitVec 32} {fla : BitVec 32} {sz : ℕ}

/-- Two blocks of a page are at different addresses. -/
theorem add_ofNat_inj (hfla : fla.toNat + pageSize ≤ 2 ^ 32) (hsz : 0 < sz) {i j : ℕ}
    (hi : i * sz < pageSize) (hj : j * sz < pageSize)
    (h : fla + BitVec.ofNat 32 (i * sz) = fla + BitVec.ofNat 32 (j * sz)) : i = j := by
  have := congrArg BitVec.toNat h
  rw [toNat_add_ofNat (by omega), toNat_add_ofNat (by omega)] at this
  exact Nat.eq_of_mul_eq_mul_right hsz (by omega)

/-- A word store at a multiple of 4 goes through. -/
theorem storeNext_of_aligned {a : BitVec 32} (ha : a.toNat % 4 = 0) (v : BitVec 32) :
    storeNext mem a v = some (Function.update mem a v) := if_pos ha

/-- The blocks of a word-aligned page, cut at a multiple of 4, are
    word-aligned. -/
theorem aligned_add_ofNat (hfla : fla.toNat + pageSize ≤ 2 ^ 32) (hal : fla.toNat % 4 = 0) (hsz4 : sz % 4 = 0)
    {i : ℕ} (hi : i * sz < pageSize) : (fla + BitVec.ofNat 32 (i * sz)).toNat % 4 = 0 := by
  have hm : i * sz % 4 = 0 := by rw [Nat.mul_mod, hsz4, Nat.mul_zero, Nat.zero_mod]
  rw [toNat_add_ofNat (by omega)]
  omega

/-- The loop threads blocks `k, k - 1, …, 0` into a list: block `i` links to
    block `i - 1`, block `0` to `NULL`, and no other word changes. -/
theorem initFreelist_spec (hfla : fla.toNat + pageSize ≤ 2 ^ 32) (hal : fla.toNat % 4 = 0) (hsz : 0 < sz)
    (hsz4 : sz % 4 = 0) :
    ∀ {k : ℕ}, (k + 1) * sz ≤ pageSize → ∃ m, initFreelist mem fla sz k = some m ∧
      (∀ i ≤ k, m (fla + BitVec.ofNat 32 (i * sz)) =
        if i = 0 then 0 else fla + BitVec.ofNat 32 ((i - 1) * sz)) ∧
      ∀ a, (∀ i ≤ k, a ≠ fla + BitVec.ofNat 32 (i * sz)) → m a = mem a := by
  intro k
  induction k with
  | zero =>
    intro _
    refine ⟨_, storeNext_of_aligned hal 0, fun i hi => ?_,
      fun a ha => Function.update_of_ne (by simpa using ha 0 le_rfl) _ _⟩
    obtain rfl : i = 0 := by omega
    simp
  | succ k ih =>
    intro hk
    have hk₁ : (k + 1) * sz = k * sz + sz := Nat.add_one_mul k sz
    have hk₂ : (k + 1 + 1) * sz = (k + 1) * sz + sz := Nat.add_one_mul (k + 1) sz
    obtain ⟨m, hm, hslot, hframe⟩ := ih (by omega)
    have hne : fla + BitVec.ofNat 32 ((k + 1) * sz) ≠ fla + BitVec.ofNat 32 (k * sz) := by
      intro he
      have := add_ofNat_inj hfla hsz (by omega) (by omega) he
      omega
    have hstore := @storeNext_of_aligned m _ (aligned_add_ofNat hfla hal hsz4 (i := k + 1) (by omega))
      (fla + BitVec.ofNat 32 (k * sz))
    refine ⟨_, by simp only [initFreelist, hm, hstore, Option.bind_eq_bind, Option.bind_some]; exact if_neg hne,
      fun i hi => ?_, fun a ha => ?_⟩
    · rcases Nat.lt_or_ge i (k + 1) with hik | hik
      · -- an earlier block keeps its link
        have hisz : i * sz ≤ k * sz := Nat.mul_le_mul_right sz (by omega)
        have hi' : fla + BitVec.ofNat 32 (i * sz) ≠ fla + BitVec.ofNat 32 ((k + 1) * sz) := by
          intro he
          have := add_ofNat_inj hfla hsz (by omega) (by omega) he
          omega
        rw [Function.update_of_ne hi', hslot i (by omega)]
      · obtain rfl : i = k + 1 := by omega
        rw [Function.update_self, if_neg (by omega), Nat.add_sub_cancel]
    · rw [Function.update_of_ne (ha (k + 1) le_rfl), hframe a fun i hi => ha i (by omega)]

/-- At a page that is not word-aligned, the first store of the loop is an
    address error. -/
theorem initFreelist_of_misaligned (hal : fla.toNat % 4 ≠ 0) : ∀ k, initFreelist mem fla sz k = none
  | 0 => if_neg hal
  | k + 1 => by simp only [initFreelist, initFreelist_of_misaligned hal k, Option.bind_eq_bind, Option.bind_none]

/-- Cutting a page that is not word-aligned into blocks panics. -/
theorem newPage_of_misaligned {h : Heap} {pr : Fin 256} {prpage : BitVec 32} {blktype : Fin 8}
    (hal : prpage.toNat % 4 ≠ 0) : newPage h pr prpage blktype = none := by
  simp only [newPage, initFreelist_of_misaligned hal, Option.bind_eq_bind, Option.bind_none]

end Freelist

/-- `fill_deadbeef` writes only the words of the block. -/
theorem fillDeadbeef_of_ne {mem : BitVec 32 → BitVec 32} {ptr a : BitVec 32} :
    ∀ {n : ℕ}, (∀ i < n, a ≠ ptr + BitVec.ofNat 32 (4 * i)) → fillDeadbeef mem ptr n a = mem a := by
  intro n
  induction n with
  | zero => intro _; rfl
  | succ n ih =>
    intro ha
    rw [fillDeadbeef, Function.update_of_ne (ha n (by omega)), ih fun i hi => ha i (by omega)]

/-! ## The paths of `subpage_kmalloc` and `kfree` -/

section Paths

variable {k : Kmem} {sz : ℕ} {b : Fin 8}

/-- A page of the size has a free block: `doalloc:` takes it. -/
theorem subpageKmalloc_of_found {r : Fin 256} (hb : blocktype sz = some b)
    (hf : findFree k.heap b = some (some r)) :
    subpageKmalloc k sz = (doalloc k.heap r).map fun x => (x.1, { k with heap := x.2 }) := by
  simp only [subpageKmalloc, hb, hf, Option.bind_eq_bind, Option.bind_some]
  cases doalloc k.heap r <;> rfl

/-- A fresh page but no free pageref: the page goes back to `free_kpages`. -/
theorem subpageKmalloc_of_full {prpage : ℕ} {vm : Dumbvm.Vm} {inuse : Fin 8 → BitVec 32}
    (hb : blocktype sz = some b) (hf : findFree k.heap b = some none)
    (hal : Dumbvm.allocKpages k.vm 1 = some (prpage, vm)) (hp : prpage ≠ 0)
    (ha : allocpageref k.heap.pagerefsInuse = some (none, inuse)) :
    subpageKmalloc k sz = some (0, { k with vm := Dumbvm.freeKpages vm prpage }) := by
  simp only [subpageKmalloc, hb, hf, hal, ha, Option.bind_eq_bind, Option.bind_some, if_neg hp]
  rfl

/-- A fresh page and a free pageref: the page is cut into blocks, and
    `doalloc:` takes one. -/
theorem subpageKmalloc_of_new {r : Fin 256} {prpage : ℕ} {vm : Dumbvm.Vm} {inuse : Fin 8 → BitVec 32}
    (hb : blocktype sz = some b) (hf : findFree k.heap b = some none)
    (hal : Dumbvm.allocKpages k.vm 1 = some (prpage, vm)) (hp : prpage ≠ 0)
    (ha : allocpageref k.heap.pagerefsInuse = some (some r, inuse)) :
    subpageKmalloc k sz = (newPage { k.heap with pagerefsInuse := inuse } r (BitVec.ofNat 32 prpage) b).bind
      fun h₁ => (doalloc h₁ r).map fun x => (x.1, ⟨x.2, vm⟩) := by
  simp only [subpageKmalloc, hb, hf, hal, ha, Option.bind_eq_bind, Option.bind_some, if_neg hp]
  rcases newPage { k.heap with pagerefsInuse := inuse } r (BitVec.ofNat 32 prpage) b with _ | h₁
  · rfl
  · simp only [Option.bind_some]
    cases doalloc h₁ r <;> rfl

/-- `kfree` of a pointer that no subpage page holds: `subpage_kfree` answers
    `-1`, and `kfree` hands the pointer to `free_kpages` once the `KASSERT`
    that it is a whole page passes. -/
theorem kfree_of_findPage_none {ptr : BitVec 32} (hp : ptr ≠ 0) (hf : findPage k.heap ptr = some none) :
    kfree k ptr =
      if ptr.toNat % pageSize = 0 then some { k with vm := Dumbvm.freeKpages k.vm ptr.toNat } else none := by
  simp only [kfree, if_neg hp, subpageKfree, subpageKfreeLocked, hf, Option.bind_eq_bind, Option.bind_some,
    Option.pure_def, Option.map_some]
  rw [if_pos (by decide)]
  rfl

theorem kfree_of_none {ptr : BitVec 32} (hp : ptr ≠ 0) (hf : findPage k.heap ptr = some none)
    (ha : ptr.toNat % pageSize = 0) : kfree k ptr = some { k with vm := Dumbvm.freeKpages k.vm ptr.toNat } := by
  rw [kfree_of_findPage_none hp hf, if_pos ha]

/-- A pointer that no subpage page holds, and that is not a whole page,
    fails the `KASSERT`. -/
theorem kfree_of_none_misaligned {ptr : BitVec 32} (hp : ptr ≠ 0) (hf : findPage k.heap ptr = some none)
    (ha : ptr.toNat % pageSize ≠ 0) : kfree k ptr = none := by
  rw [kfree_of_findPage_none hp hf, if_neg ha]

/-- `kfree` of a pointer that a subpage page holds is `subpage_kfree`. -/
theorem kfree_of_subpage {ptr : BitVec 32} {freed : Option (BitVec 32)} {h' : Heap} (hp : ptr ≠ 0)
    (hs : subpageKfreeLocked k.heap ptr = some ((0, freed), h')) :
    kfree k ptr = some ⟨h', releasePage k.vm freed⟩ := by
  simp only [kfree, if_neg hp, subpageKfree, hs, Option.bind_eq_bind, Option.map_some, Option.bind_some,
    Option.pure_def]
  rw [if_neg (by decide)]

end Paths

end Os161.Kmalloc
