import Mathlib
import Os161.Vm.Pages

/-!
# The invariant of the subpage allocator

The allocator's tables and memory are tied to a ghost `Shape`: the pagerefs on
`allbase` in list order (`all`), those on each `sizebases[b]` (`same b`), and
for each pageref its block type, page and free blocks; and the runs of whole
pages `kmalloc` handed out for large requests (`large`), which the allocator
does not record. `Inv h g` says that the tables and memory of `h` are what `g`
describes:

* the two kinds of list are chains through the pagerefs' links, and a pageref
  is on `sizebases[b]` exactly when it is on `allbase` with block type `b`;
* a pageref's bit in `pagerefs_inuse[]` is set exactly when it is on
  `allbase`;
* each page is `PageOk`, has a block in use, and lies apart from the other
  pages and from the large runs.

The blocks in use (`Shape.live`) are then the blocks of the pages that are not
free, and the large runs. The lemmas below are what the proof that the
allocator hands out disjoint blocks (`Os161.Vm.Kheap`) needs of one call:

* `Inv.free_disjoint`: a free block overlaps no block in use, so handing it
  out keeps the blocks in use apart;
* `Inv.disjoint_of_fresh`: a run of pages that overlaps no block in use
  overlaps no page of the allocator, since each of those has a block in use;
* `Inv.doalloc`, `Inv.fresh`: the two ways `subpage_kmalloc` hands out a block
  keep the invariant, with that block added to those in use;
* `Inv.of_mem`: memory outside the free blocks is the callers'.
-/

namespace Os161.Kmalloc

open Blocks

/-- The ghost state of the allocator. -/
structure Shape where
  all : List (Fin 256)
  same : Fin 8 → List (Fin 256)
  kind : Fin 256 → Fin 8
  page : Fin 256 → BitVec 32
  free : Fin 256 → List ℕ
  large : List Block

/-- A run of whole pages that `kmalloc` returned for a large request. -/
structure LargeOk (c : Block) : Prop where
  aligned : c.addr % pageSize = 0
  pos : 0 < c.addr
  len : pageSize ≤ c.len
  whole : c.len % pageSize = 0

/-- The tables and memory of `h` are those the ghost state `g` describes. -/
structure Inv (h : Heap) (g : Shape) : Prop where
  all_chain : SList.Chain (fun r => (h.pagerefs r).nextAll) h.allbase g.all
  same_chain : ∀ b, SList.Chain (fun r => (h.pagerefs r).nextSamesize) (h.sizebases b) (g.same b)
  mem_same : ∀ b r, r ∈ g.same b ↔ r ∈ g.all ∧ g.kind r = b
  inuse : ∀ r, inuseBit h.pagerefsInuse r = decide (r ∈ g.all)
  pages : ∀ r ∈ g.all, PageOk h.mem (h.pagerefs r) (g.kind r) (g.page r) (g.free r)
  has_live : ∀ r ∈ g.all, (g.free r).length < nblocks (g.kind r)
  page_inj : ∀ r ∈ g.all, ∀ r' ∈ g.all, g.page r = g.page r' → r = r'
  large : ∀ c ∈ g.large, LargeOk c
  large_disjoint : ∀ c ∈ g.large, ∀ r ∈ g.all, c.Disjoint (pageBlock (g.page r))

/-- The blocks in use on the page of `r`. -/
def Shape.liveAt (g : Shape) (r : Fin 256) : Set Block :=
  {c | ∃ i < nblocks (g.kind r), i ∉ g.free r ∧ c = slotBlock (g.page r) (g.kind r) i}

/-- The blocks in use: those of the pages that are not free, and the large
    runs. -/
def Shape.live (g : Shape) : Set Block := {c | (∃ r ∈ g.all, c ∈ g.liveAt r) ∨ c ∈ g.large}

/-- The ghost state at boot: no pages, no large runs. -/
def Shape.empty : Shape where
  all := []
  same _ := []
  kind _ := 0
  page _ := 0
  free _ := []
  large := []

theorem inv_boot (mem : BitVec 32 → BitVec 32) : Inv (Heap.boot mem) Shape.empty where
  all_chain := rfl
  same_chain _ := rfl
  mem_same _ _ := by simp [Shape.empty]
  inuse _ := by simp [inuseBit, Heap.boot, Shape.empty]
  pages _ hr := absurd hr List.not_mem_nil
  has_live _ hr := absurd hr List.not_mem_nil
  page_inj _ hr := absurd hr List.not_mem_nil
  large _ hc := absurd hc List.not_mem_nil
  large_disjoint _ hc := absurd hc List.not_mem_nil

@[simp] theorem live_empty : Shape.empty.live = ∅ := by
  ext c
  simp [Shape.live, Shape.empty]

/-! ## What the invariant gives -/

section Consequences

variable {h : Heap} {g : Shape} {r r' : Fin 256} {c : Block}

theorem Inv.length_all (hi : Inv h g) : g.all.length ≤ npagerefs := by
  simpa using hi.all_chain.length_le_card

theorem Inv.length_same (hi : Inv h g) (b : Fin 8) : (g.same b).length ≤ npagerefs := by
  simpa using (hi.same_chain b).length_le_card

/-- Every page of the allocator has a block in use. -/
theorem Inv.exists_live (hi : Inv h g) (hr : r ∈ g.all) : ∃ i < nblocks (g.kind r), i ∉ g.free r := by
  by_contra hall
  simp only [not_exists, not_and, not_not] at hall
  -- otherwise the free list would hold all the blocks
  have := List.nodup_range.length_le_of_subset fun i hi' => hall i (List.mem_range.1 hi')
  rw [List.length_range] at this
  exact absurd (hi.has_live r hr) (by omega)

theorem Inv.pageBlock_disjoint (hi : Inv h g) (hr : r ∈ g.all) (hr' : r' ∈ g.all) (hne : r ≠ r') :
    (pageBlock (g.page r)).Disjoint (pageBlock (g.page r')) :=
  Kmalloc.pageBlock_disjoint (hi.pages r hr).addr (hi.pages r' hr').addr
    fun he => hne (hi.page_inj r hr r' hr' he)

theorem liveAt_within (hc : c ∈ g.liveAt r) : c.Within (pageBlock (g.page r)) := by
  obtain ⟨i, hi, -, rfl⟩ := hc
  exact slotBlock_within hi

/-- A free block overlaps no block in use. -/
theorem Inv.free_disjoint (hi : Inv h g) (hr : r ∈ g.all) {j : ℕ} (hj : j ∈ g.free r) (hc : c ∈ g.live) :
    (slotBlock (g.page r) (g.kind r) j).Disjoint c := by
  have hjn := (hi.pages r hr).lt j hj
  rcases hc with ⟨r', hr', i, hin, hif, rfl⟩ | hc
  · by_cases hrr : r = r'
    · -- the same page: another block
      subst hrr
      exact Block.slot_disjoint fun hji => hif (hji ▸ hj)
    · exact (hi.pageBlock_disjoint hr hr' hrr).mono (slotBlock_within hjn) (slotBlock_within hin)
  · exact ((hi.large_disjoint c hc r hr).mono (Block.within_refl c) (slotBlock_within hjn)).symm

/-- A run of whole pages that overlaps no block in use overlaps no page of
    the allocator. -/
theorem Inv.disjoint_of_fresh (hi : Inv h g) {H : Blocks.Heap} (hH : H.live = g.live) {p n : ℕ}
    (hp : p % pageSize = 0) (hf : H.Fresh ⟨p, n * pageSize⟩) (hr : r ∈ g.all) :
    (⟨p, n * pageSize⟩ : Block).Disjoint (pageBlock (g.page r)) := by
  obtain ⟨i, hin, hif⟩ := hi.exists_live hr
  have hc : slotBlock (g.page r) (g.kind r) i ∈ H.live := by
    rw [hH]
    exact Or.inl ⟨r, hr, i, hin, hif, rfl⟩
  exact hf.disjoint_of_within hp (hi.pages r hr).addr.aligned hc (slotBlock_within hin) (sizes_pos _)

/-- A block in use is not empty. -/
theorem Inv.live_len_pos (hi : Inv h g) (hc : c ∈ g.live) : 0 < c.len := by
  rcases hc with ⟨r, -, i, -, -, rfl⟩ | hc
  · exact sizes_pos _
  · have := (hi.large c hc).len
    unfold pageSize at this
    omega

end Consequences

/-! ## Frames -/

section Frame

variable {h : Heap} {g : Shape}

theorem nextAll_update {f : Fin 256 → Pageref} {r : Fin 256} {pr : Pageref} :
    (fun x => (Function.update f r pr x).nextAll) = Function.update (fun x => (f x).nextAll) r pr.nextAll := by
  funext x
  by_cases hx : x = r
  · subst hx
    simp
  · simp [Function.update_of_ne hx]

theorem nextSamesize_update {f : Fin 256 → Pageref} {r : Fin 256} {pr : Pageref} :
    (fun x => (Function.update f r pr x).nextSamesize) =
      Function.update (fun x => (f x).nextSamesize) r pr.nextSamesize := by
  funext x
  by_cases hx : x = r
  · subst hx
    simp
  · simp [Function.update_of_ne hx]

/-- The free lists live in the first words of the free blocks: a write
    anywhere else keeps the invariant. -/
theorem Inv.of_mem (hi : Inv h g) {mem : BitVec 32 → BitVec 32}
    (hm : ∀ r ∈ g.all, ∀ j ∈ g.free r, mem (slot (g.page r) (g.kind r) j) = h.mem (slot (g.page r) (g.kind r) j)) :
    Inv { h with mem := mem } g :=
  { hi with pages := fun r hr => (hi.pages r hr).of_mem (hm r hr) }

/-- An address in a block in use is not the first word of a free block. -/
theorem Inv.ne_free_of_live (hi : Inv h g) {c : Block} (hc : c ∈ g.live) {a : BitVec 32} (ha : c.Contains a.toNat)
    {r : Fin 256} (hr : r ∈ g.all) {j : ℕ} (hj : j ∈ g.free r) : a ≠ slot (g.page r) (g.kind r) j := by
  intro he
  have hjn := (hi.pages r hr).lt j hj
  exact Block.ne_of_disjoint (hi.free_disjoint hr hj hc) (slotBlock_contains (hi.pages r hr).addr hjn) ha
    (congrArg BitVec.toNat he).symm

/-- Writes inside a block in use keep the invariant. -/
theorem Inv.of_mem_live (hi : Inv h g) {c : Block} (hc : c ∈ g.live) {mem : BitVec 32 → BitVec 32}
    (hm : ∀ a, ¬ c.Contains a.toNat → mem a = h.mem a) : Inv { h with mem := mem } g :=
  hi.of_mem fun _ hr _ hj => hm _ fun ha => hi.ne_free_of_live hc ha hr hj rfl

/-- A new count, offset and free list for the page of `r`, with its links as
    they were, and memory changed only where no other page reads it: the
    invariant holds with the page's new free list, as long as the page keeps a
    block in use. -/
theorem Inv.update_page (hi : Inv h g) {r : Fin 256} (hr : r ∈ g.all) {pr : Pageref} {l : List ℕ}
    {mem : BitVec 32 → BitVec 32} (hs : pr.nextSamesize = (h.pagerefs r).nextSamesize)
    (ha : pr.nextAll = (h.pagerefs r).nextAll) (hp : PageOk mem pr (g.kind r) (g.page r) l)
    (hl : l.length < nblocks (g.kind r))
    (hm : ∀ r' ∈ g.all, r' ≠ r → ∀ j ∈ g.free r',
      mem (slot (g.page r') (g.kind r') j) = h.mem (slot (g.page r') (g.kind r') j)) :
    Inv { h with pagerefs := Function.update h.pagerefs r pr, mem := mem }
      { g with free := Function.update g.free r l } where
  all_chain := by
    rw [nextAll_update, ha, Function.update_eq_self]
    exact hi.all_chain
  same_chain b := by
    rw [nextSamesize_update, hs, Function.update_eq_self]
    exact hi.same_chain b
  mem_same := hi.mem_same
  inuse := hi.inuse
  pages r' hr' := by
    by_cases hrr : r' = r
    · subst hrr
      simpa using hp
    · simpa [Function.update_of_ne hrr] using (hi.pages r' hr').of_mem (hm r' hr' hrr)
  has_live r' hr' := by
    by_cases hrr : r' = r
    · subst hrr
      simpa using hl
    · simpa [Function.update_of_ne hrr] using hi.has_live r' hr'
  page_inj := hi.page_inj
  large := hi.large
  large_disjoint := hi.large_disjoint

end Frame

/-! ## Handing out a block -/

section Alloc

variable {h : Heap} {g : Shape} {r : Fin 256}

/-- Taking block `i` off the head of the free list of a page of the
    allocator puts it in use. -/
theorem Shape.live_take (hr : r ∈ g.all) {i : ℕ} {l : List ℕ} (hin : i < nblocks (g.kind r))
    (hfree : g.free r = i :: l) (hil : i ∉ l) :
    ({ g with free := Function.update g.free r l } : Shape).live =
      Set.insert (slotBlock (g.page r) (g.kind r) i) g.live := by
  ext c
  constructor
  · rintro (⟨r', hr', j, hj, hjf, rfl⟩ | hc)
    · by_cases hrr : r' = r
      · subst hrr
        simp only [Function.update_self] at hjf
        by_cases hji : j = i
        · exact Or.inl (by rw [hji])
        · exact Or.inr (Or.inl ⟨r', hr', j, hj, by rw [hfree]; simp [hji, hjf], rfl⟩)
      · simp only [Function.update_of_ne hrr] at hjf
        exact Or.inr (Or.inl ⟨r', hr', j, hj, hjf, rfl⟩)
    · exact Or.inr (Or.inr hc)
  · rintro (rfl | ⟨r', hr', j, hj, hjf, rfl⟩ | hc)
    · exact Or.inl ⟨r, hr, i, hin, by simpa using hil, rfl⟩
    · refine Or.inl ⟨r', hr', j, hj, ?_, rfl⟩
      by_cases hrr : r' = r
      · subst hrr
        simp only [Function.update_self]
        exact fun hjl => hjf (by rw [hfree]; exact List.mem_cons_of_mem i hjl)
      · simpa only [Function.update_of_ne hrr] using hjf
    · exact Or.inr hc

/-- `doalloc:` on a page of the allocator takes its first free block, which is
    then in use. -/
theorem Inv.doalloc (hi : Inv h g) (hr : r ∈ g.all) {i : ℕ} {l : List ℕ} (hfree : g.free r = i :: l) :
    ∃ h', doalloc h r = some (slot (g.page r) (g.kind r) i, h') ∧
      Inv h' { g with free := Function.update g.free r l } ∧
      ({ g with free := Function.update g.free r l } : Shape).live =
        Set.insert (slotBlock (g.page r) (g.kind r) i) g.live := by
  have hp := hi.pages r hr
  rw [hfree] at hp
  obtain ⟨hd, hok⟩ := doalloc_spec hp
  have hin : i < nblocks (g.kind r) := hp.lt i (by simp)
  have hil : i ∉ l := (List.nodup_cons.1 hp.nodup).1
  -- only the count and the offset of `r` change
  have hl : l.length < nblocks (g.kind r) := by
    have := hp.length_le
    simp only [List.length_cons] at this
    omega
  exact ⟨_, hd, hi.update_page hr rfl rfl hok hl fun _ _ _ _ _ => rfl, Shape.live_take hr hin hfree hil⟩

/-- The ghost state once `subpage_kmalloc` has made the page at `p`, of block
    type `b`, with the pageref `r`, and taken its block `nblocks b - 1`. -/
def Shape.addPage (g : Shape) (r : Fin 256) (p : BitVec 32) (b : Fin 8) : Shape where
  all := r :: g.all
  same := Function.update g.same b (r :: g.same b)
  kind := Function.update g.kind r b
  page := Function.update g.page r p
  free := Function.update g.free r (List.range (nblocks b - 1)).reverse
  large := g.large

/-- A fresh page that overlaps no block in use, with a pageref not in use:
    `newPage` then `doalloc:` keep the invariant, with the page's last block
    now in use. -/
theorem Inv.fresh (hi : Inv h g) {H : Blocks.Heap} (hH : H.live = g.live) {p : BitVec 32} (hp : PageAddr p 1)
    (hf : H.Fresh ⟨p.toNat, 1 * pageSize⟩) (hr : r ∉ g.all) {inuse : Fin 8 → BitVec 32}
    (hinuse : ∀ r', inuseBit inuse r' = (inuseBit h.pagerefsInuse r' || decide (r' = r))) (b : Fin 8) :
    ∃ h₂, ((newPage { h with pagerefsInuse := inuse } r p b).bind fun h₁ => Kmalloc.doalloc h₁ r) =
        some (slot p b (nblocks b - 1), h₂) ∧
      Inv h₂ (g.addPage r p b) ∧ (g.addPage r p b).live = Set.insert (slotBlock p b (nblocks b - 1)) g.live := by
  obtain ⟨mem', hnew, hframe, hok⟩ := newPage_spec (h := { h with pagerefsInuse := inuse }) (r := r) (b := b) hp
  have hn := two_le_nblocks b
  have hsplit : (List.range (nblocks b)).reverse = (nblocks b - 1) :: (List.range (nblocks b - 1)).reverse := by
    conv_lhs => rw [show nblocks b = nblocks b - 1 + 1 by omega]
    rw [List.range_succ, List.reverse_append]
    rfl
  rw [hsplit] at hok
  let pr : Pageref :=
    { nextSamesize := h.sizebases b, nextAll := h.allbase, pageaddrAndBlocktype := mkpab p (BitVec.ofNat 32 b),
      freelistOffset := BitVec.ofNat 16 ((nblocks b - 1) * sizes b), nfree := BitVec.ofNat 16 (nblocks b) }
  obtain ⟨hd, hok₂⟩ := doalloc_spec
    (h := ⟨Function.update h.pagerefs r pr, inuse, Function.update h.sizebases b (some r), some r, mem'⟩) (r := r)
    (by simpa using hok)
  refine ⟨_, by simp only [hnew, Option.bind_some]; exact hd, ?_, ?_⟩
  · -- the other pages lie apart from the fresh one
    have hpages : ∀ r' ∈ g.all, (pageBlock p).Disjoint (pageBlock (g.page r')) := fun r' hr' => by
      have := hi.disjoint_of_fresh hH hp.aligned hf hr'
      rwa [Nat.one_mul] at this
    have hne : ∀ r' ∈ g.all, r' ≠ r := fun r' hr' he => hr (he ▸ hr')
    exact
      { all_chain := by
          simp only [Function.update_idem, nextAll_update, Function.update_self, Shape.addPage]
          exact hi.all_chain.push hr
        same_chain := fun b' => by
          simp only [Function.update_idem, nextSamesize_update]
          by_cases hb : b' = b
          · subst hb
            simp only [Shape.addPage, Function.update_self]
            exact (hi.same_chain b').push fun hs => hr ((hi.mem_same b' r).1 hs).1
          · simp only [Shape.addPage, Function.update_of_ne hb]
            exact (SList.chain_update_of_notMem fun hs => hr ((hi.mem_same b' r).1 hs).1).2 (hi.same_chain b')
        mem_same := fun b' r' => by
          by_cases hrr : r' = r
          · subst hrr
            by_cases hb : b' = b
            · subst hb
              simp [Shape.addPage]
            · have : r' ∉ g.same b' := fun hs => hr ((hi.mem_same b' r').1 hs).1
              simp [Shape.addPage, Function.update_of_ne hb, this, Ne.symm hb]
          · by_cases hb : b' = b
            · subst hb
              simp [Shape.addPage, hrr, hi.mem_same]
            · simp [Shape.addPage, hrr, Function.update_of_ne hb, hi.mem_same]
        inuse := fun r' => by
          rw [hinuse, hi.inuse]
          by_cases hrr : r' = r <;> simp [Shape.addPage, hrr]
        pages := fun r' hr' => by
          rcases List.mem_cons.1 hr' with rfl | hr'
          · simpa [Shape.addPage] using hok₂
          · have hp' := hi.pages r' hr'
            refine (PageOk.of_mem (by simpa [Shape.addPage, Function.update_of_ne (hne r' hr')] using hp')
              fun j hj => ?_)
            -- the first words of the old page's free blocks are not in the fresh page
            simp only [Shape.addPage, Function.update_of_ne (hne r' hr')] at hj ⊢
            exact hframe _ fun i hi' => (slot_ne_of_disjoint hp hp'.addr (hpages r' hr') hi' (hp'.lt j hj)).symm
        has_live := fun r' hr' => by
          rcases List.mem_cons.1 hr' with rfl | hr'
          · simp [Shape.addPage]
            omega
          · simpa [Shape.addPage, Function.update_of_ne (hne r' hr')] using hi.has_live r' hr'
        page_inj := fun r₁ hr₁ r₂ hr₂ he => by
          -- a page of `g` overlaps the fresh one, so it cannot be the same page
          have hself : ∀ r' ∈ g.all, p ≠ g.page r' := fun r' hr' he =>
            Block.not_disjoint_of_within (Block.within_refl _) (by simp [pageBlock, pageSize])
              (he ▸ hpages r' hr')
          rcases List.mem_cons.1 hr₁ with rfl | g₁ <;> rcases List.mem_cons.1 hr₂ with rfl | g₂
          · rfl
          · simp only [Shape.addPage, Function.update_self, Function.update_of_ne (hne r₂ g₂)] at he
            exact absurd he (hself r₂ g₂)
          · simp only [Shape.addPage, Function.update_self, Function.update_of_ne (hne r₁ g₁)] at he
            exact absurd he.symm (hself r₁ g₁)
          · simp only [Shape.addPage, Function.update_of_ne (hne r₁ g₁), Function.update_of_ne (hne r₂ g₂)] at he
            exact hi.page_inj r₁ g₁ r₂ g₂ he
        large := hi.large
        large_disjoint := fun c hc r' hr' => by
          rcases List.mem_cons.1 hr' with rfl | hr'
          · have := hf c (by rw [hH]; exact Or.inr hc)
            rw [Nat.one_mul] at this
            simp only [Shape.addPage, Function.update_self]
            exact this.symm
          · simpa [Shape.addPage, Function.update_of_ne (hne r' hr')] using hi.large_disjoint c hc r' hr' }
  · ext c
    constructor
    · rintro (⟨r', hr', i, hin, hif, rfl⟩ | hc)
      · rcases List.mem_cons.1 hr' with rfl | hr'
        · -- on the fresh page only the last block is in use
          simp only [Shape.addPage, Function.update_self, List.mem_reverse, List.mem_range, not_lt] at hin hif ⊢
          obtain rfl : i = nblocks b - 1 := by omega
          exact Or.inl rfl
        · have hne : r' ≠ r := fun he => hr (he ▸ hr')
          simp only [Shape.addPage, Function.update_of_ne hne] at hin hif ⊢
          exact Or.inr (Or.inl ⟨r', hr', i, hin, hif, rfl⟩)
      · exact Or.inr (Or.inr hc)
    · rintro (rfl | ⟨r', hr', i, hin, hif, rfl⟩ | hc)
      · refine Or.inl ⟨r, List.mem_cons_self, nblocks b - 1, ?_, ?_, ?_⟩ <;>
          simp [Shape.addPage]
        omega
      · have hne : r' ≠ r := fun he => hr (he ▸ hr')
        refine Or.inl ⟨r', List.mem_cons_of_mem r hr', i, ?_, ?_, ?_⟩ <;>
          simp only [Shape.addPage, Function.update_of_ne hne] <;> assumption
      · exact Or.inr hc

/-- A fresh run of `n` whole pages, handed out for a large request: a large
    run in use. -/
theorem Inv.addLarge (hi : Inv h g) {H : Blocks.Heap} (hH : H.live = g.live) {p : BitVec 32} {n : ℕ}
    (hp : PageAddr p n) (hn : 0 < n) (hf : H.Fresh ⟨p.toNat, n * pageSize⟩) :
    Inv h { g with large := ⟨p.toNat, n * pageSize⟩ :: g.large } ∧
      ({ g with large := ⟨p.toNat, n * pageSize⟩ :: g.large } : Shape).live =
        Set.insert ⟨p.toNat, n * pageSize⟩ g.live := by
  refine ⟨{ hi with large := fun c hc => ?_, large_disjoint := fun c hc r hr => ?_ }, ?_⟩
  · rcases List.mem_cons.1 hc with rfl | hc
    · exact ⟨hp.aligned, hp.pos, Nat.le_mul_of_pos_left pageSize hn, Nat.mul_mod_left n pageSize⟩
    · exact hi.large c hc
  · rcases List.mem_cons.1 hc with rfl | hc
    · exact hi.disjoint_of_fresh hH hp.aligned hf hr
    · exact hi.large_disjoint c hc r hr
  · ext c
    simp only [Shape.live, List.mem_cons]
    constructor
    · rintro (hc | rfl | hc)
      · exact Or.inr (Or.inl hc)
      · exact Or.inl rfl
      · exact Or.inr (Or.inr hc)
    · rintro (rfl | hc | hc)
      · exact Or.inr (Or.inl rfl)
      · exact Or.inl hc
      · exact Or.inr (Or.inr hc)

end Alloc

end Os161.Kmalloc
