import Mathlib
import Os161.Vm.HeapInv

/-!
# Finding and freeing a block

`kfree(ptr)` walks `allbase` for the page of the subpage allocator that holds
`ptr`. Under the invariant the walk passes its `KASSERT` at every page and
finds the page whose block `ptr` is (`Inv.findPage_slot`), and no page when
`ptr` starts a large run (`Inv.findPage_large`). The walk of
`subpage_kmalloc` over `sizebases[b]` likewise finds the first page of the
size with a free block (`Inv.findFree_eq`).

Freeing block `i` of a page puts it back at the head of the page's free list
(`Inv.kfree_keep`). When that frees the whole page, `remove_lists` takes its
pageref off both lists (`removeLists_spec`), its bit in `pagerefs_inuse[]` is
cleared, and the page goes to `free_kpages` (`Inv.kfree_release`), apart from
every block still in use. `Inv.kfree_slot` puts the two together.

A pointer into the middle of a block in use fails a check of `kfree`
(`Inv.kfree_interior`), except for a page boundary inside a large run, which
`kfree` hands to `free_kpages` although the run is still in use
(`Inv.kfree_large_interior`).
-/

namespace Os161.Kmalloc

open Blocks

/-- On the page at `p`, the test of `subpage_kfree`'s loop is whether the page
    holds the pointer. -/
theorem PageAddr.contains_iff {p ptr : BitVec 32} (hp : PageAddr p 1) :
    (p ≤ ptr ∧ ptr < p + BitVec.ofNat 32 pageSize) ↔ (pageBlock p).Contains ptr.toNat := by
  have := hp.fits
  rw [BitVec.le_def, BitVec.lt_def, toNat_add_ofNat (by omega)]
  rfl

section Find

variable {h : Heap} {g : Shape} {r : Fin 256} {ptr : BitVec 32}

/-- Under the invariant the loop of `subpage_kfree` passes its `KASSERT` at
    every page, and finds the first page that holds the pointer. -/
theorem Inv.findPage_eq (hi : Inv h g) (ptr : BitVec 32) :
    findPage h ptr = some (g.all.find? fun r => decide ((pageBlock (g.page r)).Contains ptr.toNat)) := by
  unfold findPage
  rw [SList.walk_eq_find hi.all_chain hi.length_all fun r hr => ?_]
  · congr 1
    refine List.find?_congr fun r hr => ?_
    have hp := hi.pages r hr
    simp [hp.pageaddr, hp.blocktype_toNat, hp.addr.contains_iff]
  · have hp := hi.pages r hr
    simp [hp.blocktype_toNat]

/-- An address on a page of the allocator is found on that page: no other
    page holds it. -/
theorem Inv.findPage_of_contains (hi : Inv h g) (hr : r ∈ g.all)
    (hc : (pageBlock (g.page r)).Contains ptr.toNat) : findPage h ptr = some (some r) := by
  rw [hi.findPage_eq, Option.some_inj, List.find?_eq_some_iff_append]
  obtain ⟨m₁, m₂, hm⟩ := List.append_of_mem hr
  refine ⟨by simpa using hc, m₁, m₂, hm, fun r' hr' => ?_⟩
  have hne : r' ≠ r := fun he => List.disjoint_of_nodup_append (hm ▸ hi.all_chain.nodup) (he ▸ hr')
    List.mem_cons_self
  have hr'' : r' ∈ g.all := hm ▸ List.mem_append_left _ hr'
  simpa using fun hc' => Block.not_disjoint_of_contains hc' hc (hi.pageBlock_disjoint hr'' hr hne)

theorem Inv.findPage_slot (hi : Inv h g) (hr : r ∈ g.all) {i : ℕ} (hin : i < nblocks (g.kind r)) :
    findPage h (slot (g.page r) (g.kind r) i) = some (some r) :=
  hi.findPage_of_contains hr ((slotBlock_contains (hi.pages r hr).addr hin).mono (slotBlock_within hin))

/-- A large run is found on no page. -/
theorem Inv.findPage_large (hi : Inv h g) {c : Block} (hc : c ∈ g.large) (ha : c.Contains ptr.toNat) :
    findPage h ptr = some none := by
  rw [hi.findPage_eq, List.find?_eq_none.2]
  intro r hr hpr
  exact Block.not_disjoint_of_contains ha (by simpa using hpr) (hi.large_disjoint c hc r hr)

/-- Under the invariant the loop of `subpage_kmalloc` passes its `KASSERT` at
    every page of the size, and finds the first with a free block. -/
theorem Inv.findFree_eq (hi : Inv h g) (b : Fin 8) :
    findFree h b = some ((g.same b).find? fun r => decide (g.free r ≠ [])) := by
  have hpage : ∀ r ∈ g.same b, PageOk h.mem (h.pagerefs r) b (g.page r) (g.free r) := fun r hr => by
    obtain ⟨hr', rfl⟩ := (hi.mem_same b r).1 hr
    exact hi.pages r hr'
  unfold findFree
  rw [SList.walk_eq_find (hi.same_chain b) (hi.length_same b) fun r hr => ?_]
  · congr 1
    refine List.find?_congr fun r hr => ?_
    have hp := hpage r hr
    simp [hp.blocktype, hp.nfree, List.length_pos_iff]
  · have hp := hpage r hr
    simp [hp.blocktype]

/-- The page found has a free block, and is of the size. -/
theorem Inv.findFree_some (hi : Inv h g) {b : Fin 8} (hf : findFree h b = some (some r)) :
    r ∈ g.all ∧ g.kind r = b ∧ g.free r ≠ [] := by
  rw [hi.findFree_eq, Option.some_inj] at hf
  have hr := (hi.mem_same b r).1 (List.mem_of_find?_eq_some hf)
  exact ⟨hr.1, hr.2, by simpa using List.find?_some hf⟩

end Find

/-! ## Unlinking a pageref -/

section Links

variable (refs : Fin 256 → Pageref) (a : Fin 256) (v : Option (Fin 256))

theorem data_setNextSamesize (x : Fin 256) : (setNextSamesize refs a v x).data = (refs x).data := by
  by_cases hx : x = a
  · subst hx
    simp [setNextSamesize, Pageref.data]
  · simp [setNextSamesize, Function.update_of_ne hx]

theorem data_setNextAll (x : Fin 256) : (setNextAll refs a v x).data = (refs x).data := by
  by_cases hx : x = a
  · subst hx
    simp [setNextAll, Pageref.data]
  · simp [setNextAll, Function.update_of_ne hx]

theorem nextAll_setNextSamesize : (fun x => (setNextSamesize refs a v x).nextAll) = fun x => (refs x).nextAll := by
  rw [setNextSamesize, nextAll_update, Function.update_eq_self_iff]

theorem nextSamesize_setNextSamesize :
    (fun x => (setNextSamesize refs a v x).nextSamesize) = Function.update (fun x => (refs x).nextSamesize) a v := by
  rw [setNextSamesize, nextSamesize_update]

theorem nextSamesize_setNextAll :
    (fun x => (setNextAll refs a v x).nextSamesize) = fun x => (refs x).nextSamesize := by
  rw [setNextAll, nextSamesize_update, Function.update_eq_self_iff]

theorem nextAll_setNextAll :
    (fun x => (setNextAll refs a v x).nextAll) = Function.update (fun x => (refs x).nextAll) a v := by
  rw [setNextAll, nextAll_update]

end Links

/-- What `remove_lists` leaves: both lists without the pageref, and the other
    lists and every pageref's data as they were. -/
structure Unlinked (h h' : Heap) (b : Fin 8) (l₁ l₂ m₁ m₂ : List (Fin 256)) : Prop where
  same : SList.Chain (fun x => (h'.pagerefs x).nextSamesize) (h'.sizebases b) (l₁ ++ l₂)
  all : SList.Chain (fun x => (h'.pagerefs x).nextAll) h'.allbase (m₁ ++ m₂)
  sizebases : ∀ b', b' ≠ b → h'.sizebases b' = h.sizebases b'
  nextSamesize : ∀ x, x ∉ l₁ → (h'.pagerefs x).nextSamesize = (h.pagerefs x).nextSamesize
  data : ∀ x, (h'.pagerefs x).data = (h.pagerefs x).data
  inuse : h'.pagerefsInuse = h.pagerefsInuse
  mem : h'.mem = h.mem

/-- `remove_lists(pr, blktype)` on lists through `pr`: each loop rewrites the
    one link that pointed at `pr`. -/
theorem removeLists_spec {h : Heap} {r : Fin 256} {b : Fin 8} {l₁ l₂ m₁ m₂ : List (Fin 256)}
    (hs : SList.Chain (fun x => (h.pagerefs x).nextSamesize) (h.sizebases b) (l₁ ++ r :: l₂))
    (ha : SList.Chain (fun x => (h.pagerefs x).nextAll) h.allbase (m₁ ++ r :: m₂)) :
    ∃ h', removeLists h r b = some h' ∧ Unlinked h h' b l₁ l₂ m₁ m₂ := by
  have hr₁ : r ∉ l₁ := fun hm => List.disjoint_of_nodup_append hs.nodup hm List.mem_cons_self
  have hr₂ : r ∉ m₁ := fun hm => List.disjoint_of_nodup_append ha.nodup hm List.mem_cons_self
  have hl₁ : l₁.length ≤ npagerefs := by
    have := hs.length_le_card
    simp [npagerefs_eq] at this ⊢
    omega
  have hm₁ : m₁.length ≤ npagerefs := by
    have := ha.length_le_card
    simp [npagerefs_eq] at this ⊢
    omega
  rw [removeLists, SList.unlink_eq (show SList.Chain _ (SList.Loc.read _ (h.sizebases b) h.pagerefs .head) _ from hs)
    hr₁ hl₁]
  simp only [Option.bind_eq_bind, Option.bind_some]
  -- the first loop: one `next_samesize` written, at the head or in `l₁`
  have hc₁ := @SList.chain_unlink _ _ (fun refs x => (refs x).nextSamesize) setNextSamesize _
    nextSamesize_setNextSamesize r _ h.pagerefs _ _ hs hs.nodup
  have hw₁ := @SList.write_last_eq _ _ setNextSamesize l₁ (h.sizebases b) h.pagerefs (h.pagerefs r).nextSamesize
  generalize ((Option.map SList.Loc.link l₁.getLast?).getD SList.Loc.head).write setNextSamesize (h.sizebases b)
    h.pagerefs (h.pagerefs r).nextSamesize = w₁ at hc₁ hw₁ ⊢
  have hall₁ : (fun x => (w₁.2 x).nextAll) = fun x => (h.pagerefs x).nextAll := by
    rcases hw₁ with rfl | ⟨a, -, rfl⟩
    · rfl
    · exact nextAll_setNextSamesize _ _ _
  have hdata₁ : ∀ x, (w₁.2 x).data = (h.pagerefs x).data := by
    rcases hw₁ with rfl | ⟨a, -, rfl⟩
    · exact fun _ => rfl
    · exact data_setNextSamesize _ _ _
  have hsame₁ : ∀ x, x ∉ l₁ → (w₁.2 x).nextSamesize = (h.pagerefs x).nextSamesize := by
    rcases hw₁ with rfl | ⟨a, ha₁, rfl⟩
    · exact fun _ _ => rfl
    · intro x hx
      have hxa : x ≠ a := fun he => hx (he ▸ ha₁)
      simp [setNextSamesize, Function.update_of_ne hxa]
  -- the second loop, over `allbase`, in the links the first left
  have ha₁ : SList.Chain (fun x => (w₁.2 x).nextAll) h.allbase (m₁ ++ r :: m₂) := by rwa [hall₁]
  rw [SList.unlink_eq (show SList.Chain _ (SList.Loc.read _ h.allbase w₁.2 .head) _ from ha₁) hr₂ hm₁,
    Option.bind_some]
  have hc₂ := @SList.chain_unlink _ _ (fun refs x => (refs x).nextAll) setNextAll _
    nextAll_setNextAll r _ w₁.2 _ _ ha₁ ha₁.nodup
  have hw₂ := @SList.write_last_eq _ _ setNextAll m₁ h.allbase w₁.2 (w₁.2 r).nextAll
  generalize ((Option.map SList.Loc.link m₁.getLast?).getD SList.Loc.head).write setNextAll h.allbase
    w₁.2 (w₁.2 r).nextAll = w₂ at hc₂ hw₂ ⊢
  have hsame₂ : (fun x => (w₂.2 x).nextSamesize) = fun x => (w₁.2 x).nextSamesize := by
    rcases hw₂ with rfl | ⟨a, -, rfl⟩
    · rfl
    · exact nextSamesize_setNextAll _ _ _
  have hdata₂ : ∀ x, (w₂.2 x).data = (w₁.2 x).data := by
    rcases hw₂ with rfl | ⟨a, -, rfl⟩
    · exact fun _ => rfl
    · exact data_setNextAll _ _ _
  refine ⟨_, rfl, ?_⟩
  exact
    { same := by
        simp only [Function.update_self]
        rw [hsame₂]
        exact hc₁
      all := hc₂
      sizebases := fun b' hb => Function.update_of_ne hb _ _
      nextSamesize := fun x hx => by
        rw [← hsame₁ x hx]
        exact congrFun hsame₂ x
      data := fun x => (hdata₂ x).trans (hdata₁ x)
      inuse := rfl
      mem := rfl }

/-! ## Freeing a block -/

/-- The ghost state once the page of `r` has gone back: off both lists. -/
def Shape.dropPage (g : Shape) (r : Fin 256) : Shape :=
  { g with all := g.all.erase r, same := fun b => (g.same b).erase r }

/-- A list without repeats of `n` numbers below `n` holds each of them. -/
theorem mem_of_nodup_of_length {l : List ℕ} {n j : ℕ} (hnd : l.Nodup) (hl : ∀ k ∈ l, k < n)
    (hlen : l.length = n) (hj : j < n) : j ∈ l := by
  have hsub : l.toFinset ⊆ Finset.range n := fun k hk => Finset.mem_range.2 (hl k (List.mem_toFinset.1 hk))
  have heq := Finset.eq_of_subset_of_card_le hsub (by rw [List.toFinset_card_of_nodup hnd, hlen, Finset.card_range])
  rw [← List.mem_toFinset, heq]
  exact Finset.mem_range.2 hj

section Free

variable {h : Heap} {g : Shape} {r : Fin 256} {i : ℕ}

/-- Freeing a block of a page that keeps another block in use: the block goes
    back at the head of the page's free list. -/
theorem Inv.kfree_keep (hi : Inv h g) (hr : r ∈ g.all) (hin : i < nblocks (g.kind r)) (hif : i ∉ g.free r)
    (hlong : (g.free r).length + 1 < nblocks (g.kind r)) :
    ∃ h', subpageKfreeLocked h (slot (g.page r) (g.kind r) i) = some ((0, none), h') ∧
      Inv h' { g with free := Function.update g.free r (i :: g.free r) } := by
  have hc : slotBlock (g.page r) (g.kind r) i ∈ g.live := Or.inl ⟨r, hr, i, hin, hif, rfl⟩
  obtain ⟨pr, mem, hs, ha, hp, hm, hk⟩ :=
    subpageKfreeLocked_spec (hi.findPage_slot hr hin) (hi.pages r hr) hin hif rfl (hi.has_live r hr)
  dsimp only at hk
  rw [if_neg (by omega)] at hk
  refine ⟨_, hk, hi.update_page hr hs ha hp (by simpa using hlong) fun r' hr' _ j hj => ?_⟩
  -- memory changed only inside the freed block, which no free list reads
  exact hm _ fun ha' => hi.ne_free_of_live hc ha' hr' hj rfl

/-- Freeing the last block in use of a page: the page goes back. -/
theorem Inv.kfree_release (hi : Inv h g) (hr : r ∈ g.all) (hin : i < nblocks (g.kind r)) (hif : i ∉ g.free r)
    (hlast : (g.free r).length + 1 = nblocks (g.kind r)) :
    ∃ h', subpageKfreeLocked h (slot (g.page r) (g.kind r) i) = some ((0, some (g.page r)), h') ∧
      Inv h' (g.dropPage r) := by
  have hc : slotBlock (g.page r) (g.kind r) i ∈ g.live := Or.inl ⟨r, hr, i, hin, hif, rfl⟩
  obtain ⟨pr, mem, hs, ha, -, hm, hk⟩ :=
    subpageKfreeLocked_spec (hi.findPage_slot hr hin) (hi.pages r hr) hin hif rfl (hi.has_live r hr)
  dsimp only at hk
  rw [if_pos hlast] at hk
  -- the lists of the intermediate heap are those of `h`
  obtain ⟨l₁, l₂, hl⟩ := List.append_of_mem ((hi.mem_same (g.kind r) r).2 ⟨hr, rfl⟩)
  obtain ⟨m₁, m₂, hm'⟩ := List.append_of_mem hr
  have hs₁ : SList.Chain (fun x => (Function.update h.pagerefs r pr x).nextSamesize) (h.sizebases (g.kind r))
      (l₁ ++ r :: l₂) := by
    rw [nextSamesize_update, hs, Function.update_eq_self, ← hl]
    exact hi.same_chain _
  have ha₁ : SList.Chain (fun x => (Function.update h.pagerefs r pr x).nextAll) h.allbase (m₁ ++ r :: m₂) := by
    rw [nextAll_update, ha, Function.update_eq_self, ← hm']
    exact hi.all_chain
  obtain ⟨h₂, hrm, hu⟩ := removeLists_spec (h := { h with pagerefs := Function.update h.pagerefs r pr, mem := mem })
    hs₁ ha₁
  have hbit : inuseBit h₂.pagerefsInuse r = true := by
    rw [hu.inuse]
    exact (hi.inuse r).trans (decide_eq_true hr)
  obtain ⟨inuse, hfp, hbits⟩ := freepageref_spec hbit
  rw [hrm, Option.bind_some, hfp, Option.bind_some] at hk
  refine ⟨_, hk, ?_⟩
  have hnd := hi.all_chain.nodup
  have hnds := fun b => (hi.same_chain b).nodup
  have hr₁ : r ∉ m₁ := fun hx => List.disjoint_of_nodup_append (hm' ▸ hnd) hx List.mem_cons_self
  have hr₂ : r ∉ l₁ := fun hx => List.disjoint_of_nodup_append (hl ▸ hnds _) hx List.mem_cons_self
  have hmem : ∀ {r'}, r' ∈ (g.dropPage r).all ↔ r' ≠ r ∧ r' ∈ g.all := hnd.mem_erase_iff
  exact
    { all_chain := by
        simp only [Shape.dropPage, hm', List.erase_append_right _ hr₁, List.erase_cons_head]
        exact hu.all
      same_chain := fun b => by
        by_cases hb : b = g.kind r
        · subst hb
          simp only [Shape.dropPage, hl, List.erase_append_right _ hr₂, List.erase_cons_head]
          exact hu.same
        · -- another size: its list and links are untouched
          have hrb : r ∉ g.same b := fun hx => hb ((hi.mem_same b r).1 hx).2.symm
          simp only [Shape.dropPage, List.erase_of_not_mem hrb, hu.sizebases b hb]
          refine (SList.chain_congr fun y hy => ?_).2 (hi.same_chain b)
          have hyr : y ≠ r := fun he => hrb (he ▸ hy)
          have hyl : y ∉ l₁ := fun hx => hb (((hi.mem_same b y).1 hy).2.symm.trans
            ((hi.mem_same _ y).1 (hl ▸ List.mem_append_left _ hx)).2)
          rw [hu.nextSamesize y hyl]
          simp [Function.update_of_ne hyr]
      mem_same := fun b r' => by
        simp only [Shape.dropPage, (hnds b).mem_erase_iff, hnd.mem_erase_iff, hi.mem_same]
        tauto
      inuse := fun r' => by
        rw [hbits, hu.inuse]
        simp only [hi.inuse, Shape.dropPage, hnd.mem_erase_iff]
        by_cases hrr : r' = r <;> simp [hrr]
      pages := fun r' hr' => by
        obtain ⟨hne, hr'⟩ := hmem.1 hr'
        -- memory changed only inside the freed block, and the links only
        have hp : PageOk h₂.mem (h.pagerefs r') (g.kind r') (g.page r') (g.free r') := by
          rw [hu.mem]
          exact (hi.pages r' hr').of_mem fun j hj => hm _ fun ha' => hi.ne_free_of_live hc ha' hr' hj rfl
        exact hp.of_data (by rw [hu.data]; simp [Function.update_of_ne hne])
      has_live := fun r' hr' => hi.has_live r' (hmem.1 hr').2
      page_inj := fun r₁ h₁ r₂ h₂ => hi.page_inj r₁ (hmem.1 h₁).2 r₂ (hmem.1 h₂).2
      large := hi.large
      large_disjoint := fun c hc' r' hr' => hi.large_disjoint c hc' r' (hmem.1 hr').2 }

/-- Putting block `i` back on the free list of its page takes it out of use. -/
theorem Inv.live_put (hi : Inv h { g with free := Function.update g.free r (i :: g.free r) }) (hr : r ∈ g.all)
    (hin : i < nblocks (g.kind r)) (hif : i ∉ g.free r) :
    ({ g with free := Function.update g.free r (i :: g.free r) } : Shape).live =
      {c ∈ g.live | c ≠ slotBlock (g.page r) (g.kind r) i} := by
  set g' : Shape := { g with free := Function.update g.free r (i :: g.free r) } with hg'
  -- taking the block off the list again gives back `g`
  have hback : ({ g' with free := Function.update g'.free r (g.free r) } : Shape) = g := by
    simp [hg', Function.update_idem]
  have htake := Shape.live_take (g := g') hr hin (by simp [hg']) hif
  rw [hback] at htake
  -- the freed block overlaps no block in use, so it is not one of them
  have hout : slotBlock (g.page r) (g.kind r) i ∉ g'.live := fun hc =>
    Block.not_disjoint_of_within (Block.within_refl _) (sizes_pos _) (hi.free_disjoint hr (by simp [hg']) hc)
  ext c
  rw [htake]
  constructor
  · intro hc
    exact ⟨Or.inr hc, fun he => hout (he ▸ hc)⟩
  · rintro ⟨hc | hc, hne⟩
    · exact absurd hc hne
    · exact hc

/-- Once the page of `r` has gone back, the blocks in use are those of the
    other pages and the large runs: the freed block was the page's last. -/
theorem Inv.live_dropPage (hi : Inv h g) (hr : r ∈ g.all) (hin : i < nblocks (g.kind r)) (hif : i ∉ g.free r)
    (hlast : (g.free r).length + 1 = nblocks (g.kind r)) :
    (g.dropPage r).live = {c ∈ g.live | c ≠ slotBlock (g.page r) (g.kind r) i} := by
  have hp := hi.pages r hr
  have hs : (slotBlock (g.page r) (g.kind r) i).Within (pageBlock (g.page r)) := slotBlock_within hin
  -- every other block of the page is free
  have hone : ∀ j < nblocks (g.kind r), j ∉ g.free r → j = i := fun j hj hjf => by
    have hlt : ∀ k ∈ i :: g.free r, k < nblocks (g.kind r) := fun k hk => by
      rcases List.mem_cons.1 hk with rfl | hk
      · exact hin
      · exact hp.lt k hk
    have := mem_of_nodup_of_length (List.nodup_cons.2 ⟨hif, hp.nodup⟩) hlt (by simp [hlast]) hj
    simpa [hjf] using this
  have hmem : ∀ {r'}, r' ∈ (g.dropPage r).all ↔ r' ≠ r ∧ r' ∈ g.all := hi.all_chain.nodup.mem_erase_iff
  ext c
  constructor
  · rintro (⟨r', hr', hc⟩ | hc)
    · -- a block of another page
      obtain ⟨hne, hr'⟩ := hmem.1 hr'
      refine ⟨Or.inl ⟨r', hr', hc⟩, fun he => ?_⟩
      exact Block.ne_of_within_of_disjoint hs (sizes_pos _)
        ((hi.pageBlock_disjoint hr' hr hne).mono (liveAt_within hc) (Block.within_refl _)) he.symm
    · exact ⟨Or.inr hc, fun he => Block.ne_of_within_of_disjoint hs (sizes_pos _)
        (hi.large_disjoint c hc r hr) he.symm⟩
  · rintro ⟨⟨r', hr', j, hj, hjf, rfl⟩ | hc, hne⟩
    · by_cases hrr : r' = r
      · subst hrr
        exact absurd (by rw [hone j hj hjf]) hne
      · exact Or.inl ⟨r', hmem.2 ⟨hrr, hr'⟩, j, hj, hjf, rfl⟩
    · exact Or.inr hc

/-- `kfree` of a block of a page: the block goes out of use. The page stays
    with the allocator, or, once no block of it is in use, leaves it and goes
    to `free_kpages`. -/
theorem Inv.kfree_slot {k : Kmem} (hi : Inv k.heap g) (hr : r ∈ g.all) (hin : i < nblocks (g.kind r))
    (hif : i ∉ g.free r) :
    ∃ h' g', Inv h' g' ∧ g'.live = {c ∈ g.live | c ≠ slotBlock (g.page r) (g.kind r) i} ∧
      ((kfree k (slot (g.page r) (g.kind r) i) = some { k with heap := h' } ∧
          g'.all = g.all ∧ g'.page = g.page ∧ g'.large = g.large) ∨
        (kfree k (slot (g.page r) (g.kind r) i) = some ⟨h', Dumbvm.freeKpages k.vm (g.page r).toNat⟩ ∧
          g' = g.dropPage r)) := by
  have hne := slot_ne_zero (hi.pages r hr).addr hin
  by_cases hlast : (g.free r).length + 1 = nblocks (g.kind r)
  · obtain ⟨h', hk, hi'⟩ := hi.kfree_release hr hin hif hlast
    exact ⟨h', _, hi', hi.live_dropPage hr hin hif hlast, .inr ⟨kfree_of_subpage hne hk, rfl⟩⟩
  · have hlen := hi.has_live r hr
    obtain ⟨h', hk, hi'⟩ := hi.kfree_keep hr hin hif (by omega)
    exact ⟨h', _, hi', hi'.live_put hr hin hif, .inl ⟨kfree_of_subpage hne hk, rfl, rfl, rfl⟩⟩

/-- `kfree` of the start of a large run hands the pointer to `free_kpages`,
    and the run goes out of use. -/
theorem Inv.kfree_large {k : Kmem} (hi : Inv k.heap g) {c : Block} (hc : c ∈ g.large) {ptr : BitVec 32}
    (hptr : c.addr = ptr.toNat) :
    kfree k ptr = some { k with vm := Dumbvm.freeKpages k.vm ptr.toNat } ∧
      Inv k.heap { g with large := g.large.filter (· ≠ c) } ∧
      ({ g with large := g.large.filter (· ≠ c) } : Shape).live = {c' ∈ g.live | c' ≠ c} := by
  have hl := hi.large c hc
  have hpos : 0 < c.len := by
    have := hl.len
    unfold pageSize at this
    omega
  have hne : ptr ≠ 0 := (BitVec.ne_of_lt (BitVec.lt_def.2 (hptr ▸ hl.pos))).symm
  have hf := hi.findPage_large hc (show c.Contains ptr.toNat from ⟨hptr.le, by omega⟩)
  refine ⟨kfree_of_none hne hf (hptr ▸ hl.aligned), ?_, ?_⟩
  · exact
      { hi with
        large := fun c' hc' => hi.large c' (List.mem_filter.1 hc').1
        large_disjoint := fun c' hc' => hi.large_disjoint c' (List.mem_filter.1 hc').1 }
  · ext c'
    simp only [Shape.live, List.mem_filter, decide_eq_true_eq, Set.mem_ofPred_eq]
    constructor
    · rintro (⟨r, hr, hc'⟩ | ⟨hc', hne'⟩)
      · -- a block of a page is not a large run
        exact ⟨Or.inl ⟨r, hr, hc'⟩, Block.ne_of_within_of_disjoint (liveAt_within hc')
          (hi.live_len_pos (Or.inl ⟨r, hr, hc'⟩)) (hi.large_disjoint c hc r hr)⟩
      · exact ⟨Or.inr hc', hne'⟩
    · rintro ⟨hc' | hc', hne'⟩
      · exact Or.inl hc'
      · exact Or.inr ⟨hc', hne'⟩

/-- `kfree` of a pointer into the middle of a block in use fails a check: the
    panic "subpage free of invalid addr" for a block of a page, and for a large
    run the `KASSERT` that a pointer no page holds is a whole page. -/
theorem Inv.kfree_interior {k : Kmem} (hi : Inv k.heap g) {c : Block} (hc : c ∈ g.live) {a : BitVec 32}
    (ha : c.Contains a.toNat) (hne : a.toNat ≠ c.addr) (hal : a.toNat % pageSize ≠ 0 ∨ c.len < pageSize) :
    kfree k a = none := by
  -- `a` lies past the start of `c`: it is not `NULL`
  have hpos : 0 < a.toNat := by
    have := ha.1
    omega
  have ha0 : a ≠ 0 := (BitVec.ne_of_lt (show (0 : BitVec 32) < a from hpos)).symm
  rcases hc with ⟨r, hr, i, hin, -, rfl⟩ | hc
  · -- a block of a page: the offset is not a multiple of the block size
    have hp := hi.pages r hr
    have hf := hi.findPage_of_contains hr (ha.mono (slotBlock_within hin))
    have hsz := sizes_pos (g.kind r)
    have hslot : (slotBlock (g.page r) (g.kind r) i).addr = (g.page r).toNat + i * sizes (g.kind r) := rfl
    have hlen : (slotBlock (g.page r) (g.kind r) i).len = sizes (g.kind r) := rfl
    obtain ⟨ha₁, ha₂⟩ := ha
    have hoff : (a - g.page r).toNat % sizes (g.kind r) ≠ 0 := by
      rw [BitVec.toNat_sub_of_le (BitVec.le_def.2 (by omega)),
        show a.toNat - (g.page r).toNat = (a.toNat - (g.page r).toNat - i * sizes (g.kind r)) + i * sizes (g.kind r)
          by omega,
        Nat.add_mul_mod_self_right, Nat.mod_eq_of_lt (by omega)]
      omega
    rw [kfree, if_neg ha0, subpageKfree, subpageKfreeLocked_of_misaligned hf hp hoff]
    rfl
  · -- a large run: a pointer that no page holds, not a whole page
    have hl := (hi.large c hc).len
    exact kfree_of_none_misaligned ha0 (hi.findPage_large hc ha) (hal.resolve_right (by omega))

/-- At boot, a run of `n` pages at `0x1000` handed out for a large request. -/
theorem inv_boot_run {n : ℕ} (hn : 0 < n) (hfit : 0x1000 + n * pageSize < 2 ^ 32) :
    Inv (Heap.boot fun _ => 0) { Shape.empty with large := [⟨4096, n * pageSize⟩] } :=
  ((inv_boot _).addLarge (H := Blocks.Heap.empty) live_empty.symm (p := 0x1000)
    ⟨by decide, by decide, hfit⟩ hn fun c hc => absurd hc (Set.notMem_empty c)).1

theorem kfree_interior_of_block_and_run :
    (Inv (Heap.boot fun _ => 0) { Shape.empty with large := [⟨4096, pageSize⟩] } ∧
      (⟨4096, pageSize⟩ : Block) ∈ ({ Shape.empty with large := [⟨4096, pageSize⟩] } : Shape).live ∧
      (⟨4096, pageSize⟩ : Block).Contains (0x1004 : BitVec 32).toNat ∧ (0x1004 : BitVec 32).toNat ≠ 4096 ∧
      ((0x1004 : BitVec 32).toNat % pageSize ≠ 0 ∨ pageSize < pageSize) ∧
      kfree ⟨Heap.boot fun _ => 0, Dumbvm.oneFrameInUse⟩ 0x1004 = none) ∧
    ∃ h, ((newPage { Heap.boot fun _ => 0 with pagerefsInuse := Function.update (fun _ => 0) 0 1 } 0 0x1000 0).bind
        fun h₁ => doalloc h₁ 0) = some (slot 0x1000 0 255, h) ∧
      Inv h (Shape.empty.addPage 0 0x1000 0) ∧ slotBlock 0x1000 0 255 ∈ (Shape.empty.addPage 0 0x1000 0).live ∧
      (slotBlock 0x1000 0 255).Contains (0x1ff4 : BitVec 32).toNat ∧
      (0x1ff4 : BitVec 32).toNat ≠ (slotBlock 0x1000 0 255).addr ∧
      ((0x1ff4 : BitVec 32).toNat % pageSize ≠ 0 ∨ (slotBlock 0x1000 0 255).len < pageSize) ∧
      kfree ⟨h, Dumbvm.oneFrameInUse⟩ 0x1ff4 = none := by
  -- a large run of one page at `0x1000`, and a pointer 4 bytes into it
  have hi : Inv (Heap.boot fun _ => 0) { Shape.empty with large := [⟨4096, pageSize⟩] } :=
    inv_boot_run (n := 1) one_pos (by decide)
  have hc : (⟨4096, pageSize⟩ : Block) ∈ ({ Shape.empty with large := [⟨4096, pageSize⟩] } : Shape).live :=
    Or.inr (List.mem_singleton.2 rfl)
  have ha : (⟨4096, pageSize⟩ : Block).Contains (0x1004 : BitVec 32).toNat := by decide
  have hne : (0x1004 : BitVec 32).toNat ≠ 4096 := by decide
  have hal : (0x1004 : BitVec 32).toNat % pageSize ≠ 0 ∨ pageSize < pageSize := Or.inl (by decide)
  -- the first page of 16-byte blocks, at `0x1000`, its last block in use, and a pointer 4 bytes into it
  have hinuse : ∀ r', inuseBit (Function.update (fun _ => 0) 0 1) r' =
      (inuseBit (Heap.boot fun _ => 0).pagerefsInuse r' || decide (r' = 0)) := by decide +kernel
  obtain ⟨h, hk, hi₁, hlive⟩ := (inv_boot fun _ => 0).fresh (H := Blocks.Heap.empty) live_empty.symm
    (p := 0x1000) ⟨by decide, by decide, by decide⟩ (fun c hc => absurd hc (Set.notMem_empty c))
    List.not_mem_nil hinuse 0
  have hc₁ : slotBlock 0x1000 0 255 ∈ (Shape.empty.addPage 0 0x1000 0).live := by
    rw [hlive]
    exact Or.inl rfl
  have ha₁ : (slotBlock 0x1000 0 255).Contains (0x1ff4 : BitVec 32).toNat := by decide
  have hne₁ : (0x1ff4 : BitVec 32).toNat ≠ (slotBlock 0x1000 0 255).addr := by decide
  have hal₁ : (0x1ff4 : BitVec 32).toNat % pageSize ≠ 0 ∨ (slotBlock 0x1000 0 255).len < pageSize :=
    Or.inl (by decide)
  exact ⟨⟨hi, hc, ha, hne, hal, Inv.kfree_interior (k := ⟨_, Dumbvm.oneFrameInUse⟩) hi hc ha hne hal⟩,
    h, hk, hi₁, hc₁, ha₁, hne₁, hal₁, Inv.kfree_interior (k := ⟨h, Dumbvm.oneFrameInUse⟩) hi₁ hc₁ ha₁ hne₁ hal₁⟩

/-- `kfree` does not catch a pointer to a later page of a large run: it hands
    that page to `free_kpages`, though the page lies in the run, still in
    use. -/
theorem Inv.kfree_large_interior {k : Kmem} (hi : Inv k.heap g) {c : Block} (hc : c ∈ g.large) {a : BitVec 32}
    (ha : c.Contains a.toNat) (hal : a.toNat % pageSize = 0) :
    kfree k a = some { k with vm := Dumbvm.freeKpages k.vm a.toNat } ∧ (pageBlock a).Within c := by
  have hl := hi.large c hc
  have ha0 : a ≠ 0 := (BitVec.ne_of_lt (BitVec.lt_def.2 (lt_of_lt_of_le hl.pos ha.1))).symm
  refine ⟨kfree_of_none ha0 (hi.findPage_large hc ha) hal, ha.1, ?_⟩
  -- a page boundary inside a run of whole pages starts a whole page of the run
  obtain ⟨x, hx⟩ := Nat.dvd_of_mod_eq_zero hal
  obtain ⟨y, hy⟩ := Nat.dvd_of_mod_eq_zero hl.aligned
  obtain ⟨z, hz⟩ := Nat.dvd_of_mod_eq_zero hl.whole
  have := ha.2
  simp only [pageBlock]
  unfold pageSize at *
  omega

theorem kfree_large_interior_of_two_pages :
    Inv (Heap.boot fun _ => 0) { Shape.empty with large := [⟨4096, 2 * pageSize⟩] } ∧
      (⟨4096, 2 * pageSize⟩ : Block) ∈ [(⟨4096, 2 * pageSize⟩ : Block)] ∧
      (⟨4096, 2 * pageSize⟩ : Block).Contains (0x2000 : BitVec 32).toNat ∧
      (0x2000 : BitVec 32).toNat % pageSize = 0 ∧
      kfree ⟨Heap.boot fun _ => 0, Dumbvm.oneFrameInUse⟩ 0x2000 =
        some ⟨Heap.boot fun _ => 0, Dumbvm.freeKpages Dumbvm.oneFrameInUse 0x2000⟩ ∧
      (pageBlock 0x2000).Within ⟨4096, 2 * pageSize⟩ := by
  have hi : Inv (Heap.boot fun _ => 0) { Shape.empty with large := [⟨4096, 2 * pageSize⟩] } :=
    inv_boot_run two_pos (by decide)
  have hc : (⟨4096, 2 * pageSize⟩ : Block) ∈ [(⟨4096, 2 * pageSize⟩ : Block)] := List.mem_singleton.2 rfl
  have ha : (⟨4096, 2 * pageSize⟩ : Block).Contains (0x2000 : BitVec 32).toNat := by decide
  have hal : (0x2000 : BitVec 32).toNat % pageSize = 0 := by decide
  exact ⟨hi, hc, ha, hal, Inv.kfree_large_interior (k := ⟨_, Dumbvm.oneFrameInUse⟩) hi hc ha hal⟩

end Free

end Os161.Kmalloc
