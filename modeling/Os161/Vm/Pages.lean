import Mathlib
import Os161.Lib.Blocks
import Os161.Vm.Subpage

/-!
# One page of the subpage allocator

A page the subpage allocator holds is described by its pageref and by memory:
`PageOk mem pr b page free` says that the pageref `pr` records a page at
`page` (aligned, not `NULL`, below the top of the address space) of block type
`b`, whose free blocks are `free`, in the order of its free list: `nfree`
counts them, `freelist_offset` is the offset of the first, and the first word
of each links to the next (`SList.Chain` through `memNext`).

`PageOk` leaves out that a page the allocator keeps has a block in use: a
fresh page has every block free until `doalloc:` takes one, and the invariant
of the whole allocator (`Os161.Vm.HeapInv`) adds it.

The three things the allocator does to one page are specified here:

* `doalloc_spec`: taking the first free block, `slot page b i`, off the list;
* `newPage_spec`: cutting a fresh page into blocks, all on the list, with
  block `nblocks b - 1` first;
* `PageOk.push`: putting a block back at the head, as `subpage_kfree` does;
  `subpageKfreeLocked_spec` is what `subpage_kfree` does, under its lock, to
  the page that holds the pointer.

A page reads memory only at its free blocks (`PageOk.of_mem`) and its pageref
only through the packed address, the offset and the count
(`PageOk.of_pageref`): writes elsewhere keep it.
-/

namespace Os161.Kmalloc

open Blocks

/-! ## Blocks of a page -/

/-- The address of block `i` of the page at `page`, of block type `b`. -/
def slot (page : BitVec 32) (b : Fin 8) (i : ℕ) : BitVec 32 := page + BitVec.ofNat 32 (i * sizes b)

/-- Block `i` of a page, as a block of memory. -/
def slotBlock (page : BitVec 32) (b : Fin 8) (i : ℕ) : Block := Block.slot page.toNat (sizes b) i

/-- The page at `page`, as a block of memory. -/
def pageBlock (page : BitVec 32) : Block := ⟨page.toNat, pageSize⟩

/-- `freelist_offset` of a free list: the offset of its first block, or
    `INVALID_OFFSET` when it is empty. -/
def headOffset (b : Fin 8) : List ℕ → BitVec 16
  | [] => invalidOffset
  | i :: _ => BitVec.ofNat 16 (i * sizes b)

/-- Where `alloc_kpages` may put a run of `n` pages: aligned, not `NULL`, and
    with the run ending below the top of the address space. -/
structure PageAddr (p : BitVec 32) (n : ℕ) : Prop where
  aligned : p.toNat % pageSize = 0
  pos : 0 < p.toNat
  fits : p.toNat + n * pageSize < 2 ^ 32

section Slots

variable {page : BitVec 32} {b : Fin 8} {i j : ℕ}

theorem sizes_pos (b : Fin 8) : 0 < sizes b := Nat.lt_of_lt_of_le (by norm_num) (sixteen_le_sizes b)

theorem mul_sizes_lt (hi : i < nblocks b) : i * sizes b < pageSize :=
  calc i * sizes b < nblocks b * sizes b := Nat.mul_lt_mul_of_pos_right hi (sizes_pos b)
    _ = pageSize := nblocks_mul_sizes b

theorem succ_mul_sizes_le (hi : i < nblocks b) : (i + 1) * sizes b ≤ pageSize :=
  (Nat.mul_le_mul_right _ hi).trans (nblocks_mul_sizes b).le

theorem toNat_slot (hp : PageAddr page 1) (hi : i < nblocks b) :
    (slot page b i).toNat = page.toNat + i * sizes b :=
  toNat_add_ofNat (by have := mul_sizes_lt hi; have := hp.fits; omega)

theorem slot_ne_zero (hp : PageAddr page 1) (hi : i < nblocks b) : slot page b i ≠ 0 := by
  intro h
  have := toNat_slot hp hi
  rw [h] at this
  have := hp.pos
  simp at *
  omega

theorem slot_inj (hp : PageAddr page 1) (hi : i < nblocks b) (hj : j < nblocks b)
    (h : slot page b i = slot page b j) : i = j := by
  have := congrArg BitVec.toNat h
  rw [toNat_slot hp hi, toNat_slot hp hj] at this
  exact Nat.eq_of_mul_eq_mul_right (sizes_pos b) (by omega)

/-- A block's address is aligned to 16 bytes, the largest alignment of the
    platform. -/
theorem slot_mod_sixteen (hp : PageAddr page 1) (hi : i < nblocks b) : (slot page b i).toNat % 16 = 0 := by
  rw [toNat_slot hp hi, Nat.add_mod, Nat.mul_mod, sizes_mod_sixteen b]
  have := hp.aligned
  unfold pageSize at this
  omega

theorem slotBlock_within (hi : i < nblocks b) : (slotBlock page b i).Within (pageBlock page) :=
  Block.slot_within (succ_mul_sizes_le hi)

theorem slotBlock_contains (hp : PageAddr page 1) (hi : i < nblocks b) :
    (slotBlock page b i).Contains (slot page b i).toNat := by
  rw [toNat_slot hp hi]
  have := sizes_pos b
  exact ⟨le_rfl, by simp only [slotBlock, Block.slot]; omega⟩

theorem slotBlock_eq (hp : PageAddr page 1) (hi : i < nblocks b) :
    slotBlock page b i = ⟨(slot page b i).toNat, sizes b⟩ := by
  rw [toNat_slot hp hi]
  rfl

/-- `subpage_kfree`'s `fill_deadbeef` of block `i` and its write of the
    block's first word change memory only inside the block. -/
theorem update_fillDeadbeef_of_not_contains (hp : PageAddr page 1) (hi : i < nblocks b)
    {mem : BitVec 32 → BitVec 32} {v a : BitVec 32} (ha : ¬ (slotBlock page b i).Contains a.toNat) :
    Function.update (fillDeadbeef mem (slot page b i) (sizes b / 4)) (slot page b i) v a = mem a := by
  have hc := slotBlock_contains hp hi
  have hsz := succ_mul_sizes_le hi
  have hfit := hp.fits
  rw [Function.update_of_ne (by rintro rfl; exact ha hc), fillDeadbeef_of_ne fun k hk he => ha ?_]
  -- word `k` of the block lies in the block
  rw [he, toNat_add_ofNat (by rw [toNat_slot hp hi]; rw [Nat.succ_mul] at hsz; omega), toNat_slot hp hi]
  simp only [slotBlock, Block.slot, Block.Contains]
  omega

/-- Distinct pages do not overlap. -/
theorem pageBlock_disjoint {p q : BitVec 32} (hp : PageAddr p 1) (hq : PageAddr q 1) (hne : p ≠ q) :
    (pageBlock p).Disjoint (pageBlock q) := by
  have hne' : p.toNat ≠ q.toNat := fun h => hne (BitVec.eq_of_toNat_eq h)
  have := hp.aligned
  have := hq.aligned
  unfold pageBlock Block.Disjoint
  simp only
  unfold pageSize at *
  omega

/-- Blocks of disjoint pages are at different addresses. -/
theorem slot_ne_of_disjoint {p q : BitVec 32} {b b' : Fin 8} {j : ℕ} (hp : PageAddr p 1) (hq : PageAddr q 1)
    (hd : (pageBlock p).Disjoint (pageBlock q)) (hi : i < nblocks b) (hj : j < nblocks b') :
    slot p b i ≠ slot q b' j := by
  intro he
  have := Block.ne_of_disjoint hd ((slotBlock_contains hp hi).mono (slotBlock_within hi))
    ((slotBlock_contains hq hj).mono (slotBlock_within hj))
  exact this (congrArg BitVec.toNat he)

end Slots

/-! ## Words of the pageref -/

theorem setWidth_ofNat_16 {x : ℕ} (hx : x < 2 ^ 16) : (BitVec.ofNat 16 x).setWidth 32 = BitVec.ofNat 32 x := by
  apply BitVec.eq_of_toNat_eq
  simp only [BitVec.toNat_setWidth, BitVec.toNat_ofNat]
  omega

theorem setWidth_ofNat_32 (x : ℕ) : (BitVec.ofNat 32 x).setWidth 16 = BitVec.ofNat 16 x := by
  apply BitVec.eq_of_toNat_eq
  simp only [BitVec.toNat_setWidth, BitVec.toNat_ofNat]
  omega

theorem toNat_sub_one16 {x : BitVec 16} (hx : 0 < x.toNat) : (x - 1).toNat = x.toNat - 1 := by
  have h1 : (1 : BitVec 16).toNat = 1 := rfl
  rw [BitVec.toNat_sub, h1]
  have := x.isLt
  omega

theorem toNat_add_one16 {x : BitVec 16} (hx : x.toNat + 1 < 2 ^ 16) : (x + 1).toNat = x.toNat + 1 := by
  have h1 : (1 : BitVec 16).toNat = 1 := rfl
  rw [BitVec.toNat_add, h1]
  omega

theorem headOffset_cons_toNat {b : Fin 8} {i : ℕ} {l : List ℕ} (hi : i < nblocks b) :
    (headOffset b (i :: l)).toNat = i * sizes b := by
  have := mul_sizes_lt hi
  rw [headOffset, BitVec.toNat_ofNat, Nat.mod_eq_of_lt (by unfold pageSize at this; omega)]

/-! ## The invariant of a page -/

/-- The pageref `pr` and the memory `mem` describe a page at `page` of block
    type `b` whose free blocks are `free`, in free-list order. -/
structure PageOk (mem : BitVec 32 → BitVec 32) (pr : Pageref) (b : Fin 8) (page : BitVec 32)
    (free : List ℕ) : Prop where
  blocktype : prBlocktype pr = BitVec.ofNat 32 b
  pageaddr : prPageaddr pr = page
  addr : PageAddr page 1
  nodup : free.Nodup
  lt : ∀ i ∈ free, i < nblocks b
  nfree : pr.nfree.toNat = free.length
  offset : pr.freelistOffset = headOffset b free
  chain : SList.Chain (memNext mem) (free.head?.map (slot page b)) (free.map (slot page b))

section PageOk

variable {mem mem' : BitVec 32 → BitVec 32} {pr pr' : Pageref} {b : Fin 8} {page : BitVec 32}
  {free : List ℕ} {i : ℕ}

theorem PageOk.length_le (hp : PageOk mem pr b page free) : free.length ≤ nblocks b := by
  have := hp.nodup.length_le_of_subset fun i hi => List.mem_range.2 (hp.lt i hi)
  rwa [List.length_range] at this

/-- The pageref is read only through its packed address, offset and count. -/
theorem PageOk.of_pageref (hp : PageOk mem pr b page free)
    (h₁ : pr'.pageaddrAndBlocktype = pr.pageaddrAndBlocktype) (h₂ : pr'.freelistOffset = pr.freelistOffset)
    (h₃ : pr'.nfree = pr.nfree) : PageOk mem pr' b page free where
  blocktype := by rw [prBlocktype, h₁]; exact hp.blocktype
  pageaddr := by rw [prPageaddr, h₁]; exact hp.pageaddr
  addr := hp.addr
  nodup := hp.nodup
  lt := hp.lt
  nfree := by rw [h₃]; exact hp.nfree
  offset := by rw [h₂]; exact hp.offset
  chain := hp.chain

theorem PageOk.blocktype_toNat (hp : PageOk mem pr b page free) : (prBlocktype pr).toNat = b := by
  rw [hp.blocktype, BitVec.toNat_ofNat]
  omega

/-- The fields of a pageref that its page reads: the packed address and block
    type, the offset and the count. -/
def Pageref.data (pr : Pageref) : BitVec 32 × BitVec 16 × BitVec 16 :=
  (pr.pageaddrAndBlocktype, pr.freelistOffset, pr.nfree)

theorem PageOk.of_data (hp : PageOk mem pr b page free) (hd : pr'.data = pr.data) : PageOk mem pr' b page free := by
  simp only [Pageref.data, Prod.mk.injEq] at hd
  exact hp.of_pageref hd.1 hd.2.1 hd.2.2

/-- Memory is read only at the free blocks. -/
theorem PageOk.of_mem (hp : PageOk mem pr b page free)
    (hm : ∀ i ∈ free, mem' (slot page b i) = mem (slot page b i)) : PageOk mem' pr b page free :=
  { hp with
    chain := (SList.chain_congr fun a ha => by
      obtain ⟨i, hi, rfl⟩ := List.mem_map.1 ha
      simp only [memNext, hm i hi]).2 hp.chain }

/-- The first word of a free block links to the next free block. -/
theorem PageOk.memNext_eq {l : List ℕ} (hp : PageOk mem pr b page (i :: l)) :
    memNext mem (slot page b i) = l.head?.map (slot page b) := by
  have := hp.chain.2.head_eq
  cases l <;> simpa using this

/-- `doalloc:` takes the first free block: its address is returned, the count
    drops by one, and the offset moves to the next free block. -/
theorem doalloc_spec {h : Heap} {r : Fin 256} {l : List ℕ} (hp : PageOk h.mem (h.pagerefs r) b page (i :: l)) :
    let pr' := { h.pagerefs r with nfree := (h.pagerefs r).nfree - 1, freelistOffset := headOffset b l }
    doalloc h r = some (slot page b i, { h with pagerefs := Function.update h.pagerefs r pr' }) ∧
      PageOk h.mem pr' b page l := by
  intro pr'
  have hi : i < nblocks b := hp.lt i (by simp)
  have hisz := mul_sizes_lt hi
  have hoff : (h.pagerefs r).freelistOffset.toNat = i * sizes b := by rw [hp.offset, headOffset_cons_toNat hi]
  have hfla : prPageaddr (h.pagerefs r) + (h.pagerefs r).freelistOffset.setWidth 32 = slot page b i := by
    rw [hp.pageaddr, hp.offset, headOffset, setWidth_ofNat_16 (by unfold pageSize at hisz; omega)]
    rfl
  have hnfree : ((h.pagerefs r).nfree - 1).toNat = l.length := by
    rw [toNat_sub_one16 (by rw [hp.nfree]; simp), hp.nfree]
    simp
  have hnext := hp.memNext_eq
  -- the page left with the rest of the list
  have hok : PageOk h.mem pr' b page l :=
    { blocktype := hp.blocktype
      pageaddr := hp.pageaddr
      addr := hp.addr
      nodup := (List.nodup_cons.1 hp.nodup).2
      lt := fun j hj => hp.lt j (List.mem_cons_of_mem i hj)
      nfree := hnfree
      offset := rfl
      chain := by rw [← hnext]; exact hp.chain.2 }
  refine ⟨?_, hok⟩
  unfold doalloc
  dsimp only
  rw [if_pos (by rw [hoff]; exact hisz), hfla]
  cases l with
  | nil =>
    -- the last free block: `fl->next` is `NULL`
    have h0 : h.mem (slot page b i) = 0 := by
      unfold memNext at hnext
      by_contra hne
      rw [if_neg hne] at hnext
      cases hnext
    have hn0 : (h.pagerefs r).nfree - 1 = 0 := BitVec.eq_of_toNat_eq (by rw [hnfree]; rfl)
    rw [h0]
    simp only [ne_eq, not_true_eq_false, if_false]
    rw [if_pos hn0]
    rfl
  | cons j l =>
    have hj : j < nblocks b := hp.lt j (by simp)
    have hm : h.mem (slot page b i) = slot page b j := by
      unfold memNext at hnext
      split at hnext
      · cases hnext
      · simpa using hnext
    have hjsz := mul_sizes_lt hj
    have hsub : (slot page b j - prPageaddr (h.pagerefs r)).toNat = j * sizes b := by
      rw [hp.pageaddr, slot, add_sub_cancel_left, BitVec.toNat_ofNat,
        Nat.mod_eq_of_lt (by unfold pageSize at hjsz; omega)]
    have hoff' : (slot page b j - prPageaddr (h.pagerefs r)).setWidth 16 = headOffset b (j :: l) := by
      rw [hp.pageaddr, slot, add_sub_cancel_left, setWidth_ofNat_32]
      rfl
    rw [hm, if_pos (slot_ne_zero hp.addr hj), if_pos ⟨by rw [hnfree]; simp, by rw [hsub]; exact hjsz⟩, hoff']

/-- Block `i` of the page at `page`, `k` blocks down to block `0`, as a free
    list: the order `newPage` threads them in. -/
theorem chain_descending (hp : PageAddr page 1) {m : BitVec 32 → BitVec 32}
    (hm : ∀ i < nblocks b, m (slot page b i) = if i = 0 then 0 else slot page b (i - 1)) :
    ∀ {k : ℕ}, k < nblocks b →
      SList.Chain (memNext m) (some (slot page b k)) ((List.range (k + 1)).reverse.map (slot page b)) := by
  intro k
  induction k with
  | zero =>
    intro h0
    simp [memNext, hm 0 h0]
  | succ k ih =>
    intro hk
    rw [List.range_succ, List.reverse_append, List.reverse_singleton, List.singleton_append, List.map_cons,
      SList.chain_cons]
    refine ⟨rfl, ?_⟩
    have hmk : m (slot page b (k + 1)) = slot page b k := by
      rw [hm (k + 1) hk, if_neg (Nat.succ_ne_zero k), Nat.add_sub_cancel]
    have hnext : memNext m (slot page b (k + 1)) = some (slot page b k) := by
      rw [memNext, hmk, if_neg (slot_ne_zero hp (Nat.lt_of_succ_lt hk))]
    rw [hnext]
    exact ih (by omega)

/-- A fresh page: its blocks threaded into a free list from the last one down,
    and the pageref filled and put at the head of both lists. Only the first
    words of the page's blocks change. -/
theorem newPage_spec {h : Heap} {r : Fin 256} {p : BitVec 32} (hp : PageAddr p 1) :
    let pr : Pageref :=
      { nextSamesize := h.sizebases b, nextAll := h.allbase,
        pageaddrAndBlocktype := mkpab p (BitVec.ofNat 32 b),
        freelistOffset := BitVec.ofNat 16 ((nblocks b - 1) * sizes b), nfree := BitVec.ofNat 16 (nblocks b) }
    ∃ mem', newPage h r p b = some { h with
        pagerefs := Function.update h.pagerefs r pr
        sizebases := Function.update h.sizebases b (some r)
        allbase := some r
        mem := mem' } ∧
      (∀ a, (∀ i < nblocks b, a ≠ slot p b i) → mem' a = h.mem a) ∧
      PageOk mem' pr b p (List.range (nblocks b)).reverse := by
  intro pr
  have hn := two_le_nblocks b
  have hlast : nblocks b - 1 < nblocks b := by omega
  have hlsz := mul_sizes_lt hlast
  obtain ⟨m, hm, hslot, hframe⟩ := @initFreelist_spec h.mem p (sizes b) (by have := hp.fits; omega)
    (by have := hp.aligned; unfold pageSize at this; omega) (sizes_pos b)
    (by have := sizes_mod_sixteen b; omega) (nblocks b - 1) (by rw [Nat.sub_add_cancel (by omega)]; exact (nblocks_mul_sizes b).le)
  have hoff : (p + BitVec.ofNat 32 ((nblocks b - 1) * sizes b) - p).setWidth 16 =
      BitVec.ofNat 16 ((nblocks b - 1) * sizes b) := by
    rw [add_sub_cancel_left, setWidth_ofNat_32]
  have hoffNat : (BitVec.ofNat 16 ((nblocks b - 1) * sizes b)).toNat = (nblocks b - 1) * sizes b := by
    rw [BitVec.toNat_ofNat, Nat.mod_eq_of_lt (by unfold pageSize at hlsz; omega)]
  refine ⟨m, ?_, fun a ha => hframe a fun i hi => ha i (by omega), ?_⟩
  · have hnb : pageSize / sizes b = nblocks b := rfl
    unfold newPage
    simp only [hnb, hm, Option.bind_eq_bind, Option.bind_some, hoff, hoffNat, if_true]
    rfl
  · have hrange : (List.range (nblocks b)).reverse = (List.range (nblocks b - 1 + 1)).reverse := by
      rw [Nat.sub_add_cancel (by omega)]
    have hnb : nblocks b < pageSize := by have := nblocks_le b; unfold pageSize; omega
    exact
      { blocktype := prBlocktype_of_mkpab rfl (by have := b.isLt; unfold pageSize; omega)
        pageaddr := prPageaddr_of_mkpab rfl hp.aligned
        addr := hp
        nodup := List.nodup_reverse.2 List.nodup_range
        lt := fun i hi => List.mem_range.1 (List.mem_reverse.1 hi)
        nfree := by
          rw [List.length_reverse, List.length_range, BitVec.toNat_ofNat,
            Nat.mod_eq_of_lt (by unfold pageSize at hnb; omega)]
        offset := by
          rw [hrange, List.range_succ, List.reverse_append]
          rfl
        chain := by
          rw [hrange, List.range_succ, List.reverse_append]
          simp only [List.reverse_singleton, List.singleton_append, List.head?_cons, Option.map_some]
          rw [← List.singleton_append, ← List.reverse_singleton, ← List.reverse_append, ← List.range_succ]
          exact chain_descending hp (fun i hi => hslot i (by omega)) hlast }

/-- `subpage_kfree` puts block `i` at the head of the free list: its first
    word links to the old head, the offset points at it and the count goes
    up by one. -/
theorem PageOk.push (hp : PageOk mem pr b page free) (hi : i < nblocks b) (hif : i ∉ free)
    (hm : mem' (slot page b i) =
      if pr.freelistOffset = invalidOffset then 0 else page + pr.freelistOffset.setWidth 32)
    (hframe : ∀ j ∈ free, mem' (slot page b j) = mem (slot page b j)) :
    PageOk mem' { pr with freelistOffset := headOffset b (i :: free), nfree := pr.nfree + 1 } b page
      (i :: free) := by
  have hlt : ∀ j ∈ i :: free, j < nblocks b := by
    intro j hj
    rcases List.mem_cons.1 hj with rfl | hj
    · exact hi
    · exact hp.lt j hj
  have hnd : (i :: free).Nodup := List.nodup_cons.2 ⟨hif, hp.nodup⟩
  have hlen : (i :: free).length ≤ nblocks b := by
    have := hnd.length_le_of_subset fun j hj => List.mem_range.2 (hlt j hj)
    rwa [List.length_range] at this
  -- the new first word is the old head, read back out of the offset
  have hhead : memNext mem' (slot page b i) = free.head?.map (slot page b) := by
    rw [memNext, hm, hp.offset]
    cases free with
    | nil => simp [headOffset]
    | cons j l =>
      have hj : j < nblocks b := hp.lt j (by simp)
      have hjsz := mul_sizes_lt hj
      have hne : headOffset b (j :: l) ≠ invalidOffset := by
        intro he
        have := congrArg BitVec.toNat he
        rw [headOffset_cons_toNat hj] at this
        unfold pageSize at hjsz
        simp [invalidOffset] at this
        omega
      rw [if_neg hne, headOffset, setWidth_ofNat_16 (by unfold pageSize at hjsz; omega)]
      exact if_neg (slot_ne_zero hp.addr hj)
  have hnb := nblocks_le b
  exact
    { blocktype := hp.blocktype
      pageaddr := hp.pageaddr
      addr := hp.addr
      nodup := hnd
      lt := hlt
      nfree := by
        rw [List.length_cons] at hlen
        rw [toNat_add_one16 (by rw [hp.nfree]; omega), hp.nfree, List.length_cons]
      offset := rfl
      chain := by
        refine ⟨rfl, ?_⟩
        rw [hhead, SList.chain_congr fun a ha => ?_]
        · exact hp.chain
        · obtain ⟨j, hj, rfl⟩ := List.mem_map.1 ha
          simp only [memNext, hframe j hj] }

/-- `subpage_kfree` of a pointer into the page of `r` that is not the start
    of a block: the panic "subpage free of invalid addr". -/
theorem subpageKfreeLocked_of_misaligned {h : Heap} {r : Fin 256} {ptr : BitVec 32}
    (hf : findPage h ptr = some (some r)) (hp : PageOk h.mem (h.pagerefs r) b page free)
    (hoff : (ptr - page).toNat % sizes b ≠ 0) : subpageKfreeLocked h ptr = none := by
  have hbt := hp.blocktype_toNat
  have hkind : (⟨(prBlocktype (h.pagerefs r)).toNat, by omega⟩ : Fin 8) = b := Fin.ext hbt
  simp only [subpageKfreeLocked, hf, Option.bind_eq_bind, Option.bind_some]
  rw [dif_pos (by omega), hkind, hp.pageaddr, if_pos (Or.inr hoff)]

/-- `subpage_kfree` of block `i` of the page of `r`: the block goes back at the
    head of the free list, with memory changed only inside the block and the
    pageref's links as they were. If that frees the whole page, the page comes
    off both lists, its pageref goes back, and the page goes to
    `free_kpages`. -/
theorem subpageKfreeLocked_spec {h : Heap} {r : Fin 256} {ptr : BitVec 32}
    (hf : findPage h ptr = some (some r)) (hp : PageOk h.mem (h.pagerefs r) b page free)
    (hi : i < nblocks b) (hif : i ∉ free) (hptr : ptr = slot page b i) (hlen : free.length < nblocks b) :
    ∃ pr mem, pr.nextSamesize = (h.pagerefs r).nextSamesize ∧ pr.nextAll = (h.pagerefs r).nextAll ∧
      PageOk mem pr b page (i :: free) ∧ (∀ a, ¬ (slotBlock page b i).Contains a.toNat → mem a = h.mem a) ∧
      subpageKfreeLocked h ptr =
        let h' := { h with pagerefs := Function.update h.pagerefs r pr, mem := mem }
        if free.length + 1 = nblocks b then
          (removeLists h' r b).bind fun h'' =>
            (freepageref h''.pagerefsInuse r).bind fun inuse =>
              some ((0, some page), { h'' with pagerefsInuse := inuse })
        else some ((0, none), h') := by
  have hbt := hp.blocktype_toNat
  have hisz := mul_sizes_lt hi
  have hoff : ptr - prPageaddr (h.pagerefs r) = BitVec.ofNat 32 (i * sizes b) := by
    rw [hptr, hp.pageaddr, slot, add_sub_cancel_left]
  have hoffn : (ptr - prPageaddr (h.pagerefs r)).toNat = i * sizes b := by
    rw [hoff, BitVec.toNat_ofNat, Nat.mod_eq_of_lt (by unfold pageSize at hisz; omega)]
  have hnfree : ((h.pagerefs r).nfree + 1).toNat = free.length + 1 := by
    rw [toNat_add_one16 (by rw [hp.nfree]; have := nblocks_le b; omega), hp.nfree]
  have hkind : (⟨(prBlocktype (h.pagerefs r)).toNat, by omega⟩ : Fin 8) = b := Fin.ext hbt
  have hnb : pageSize / sizes b = nblocks b := rfl
  have hsz : i * sizes b % sizes b = 0 := Nat.mul_mod_left i (sizes b)
  subst hptr
  refine ⟨{ h.pagerefs r with freelistOffset := headOffset b (i :: free), nfree := (h.pagerefs r).nfree + 1 },
    Function.update (fillDeadbeef h.mem (slot page b i) (sizes b / 4)) (slot page b i)
    (if (h.pagerefs r).freelistOffset = invalidOffset then 0
      else page + (h.pagerefs r).freelistOffset.setWidth 32), rfl, rfl,
    hp.push hi hif (Function.update_self _ _ _) fun j hj => ?_,
    fun a ha => update_fillDeadbeef_of_not_contains hp.addr hi ha, ?_⟩
  · -- the other free blocks lie outside the freed one
    refine update_fillDeadbeef_of_not_contains hp.addr hi fun ha => ?_
    have hj' := hp.lt j hj
    have hji : j ≠ i := fun he => hif (he ▸ hj)
    exact Block.not_disjoint_of_contains (slotBlock_contains hp.addr hj') ha (Block.slot_disjoint hji)
  · simp only [subpageKfreeLocked, hf, Option.bind_eq_bind, Option.bind_some]
    rw [dif_pos (by omega), hkind, hoffn, if_neg (by omega), add_sub_cancel, hoff, setWidth_ofNat_32,
      hp.pageaddr, hnfree, hnb, if_pos (by omega)]
    by_cases hc : free.length + 1 = nblocks b
    · rw [if_pos hc, if_pos hc]
      rfl
    · rw [if_neg hc, if_neg hc]
      rfl

end PageOk

end Os161.Kmalloc
