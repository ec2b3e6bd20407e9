import Mathlib

/-!
# Elements on queues

A family of queues, one at each location `i : ι`, holding elements of `α`:
`q : ι → List α`. The operations move elements between queues: add one at the
tail (`pushBack`), take one off the head (`popHead`), move the head of one
queue to the tail of another (`moveHead`), or move a whole queue.

`Apart q` says that no element is on two queues, nor twice on one. The
lemmas say how each operation keeps `Apart` and which elements it leaves on
some queue (`Queued`). `bag q is` counts the elements on the queues at the
locations `is`, with their multiplicity, whether they are apart or not.
-/

namespace Queues

variable {ι α : Type*} [DecidableEq ι]

/-- No element is on two queues, nor twice on one. -/
structure Apart (q : ι → List α) : Prop where
  nodup : ∀ i, (q i).Nodup
  unique : ∀ a i j, a ∈ q i → a ∈ q j → i = j

/-- The element is on some queue. -/
def Queued (q : ι → List α) (a : α) : Prop := ∃ i, a ∈ q i

/-- The queues with `a` added at the tail of queue `i`. -/
def pushBack (q : ι → List α) (i : ι) (a : α) : ι → List α :=
  Function.update q i (q i ++ [a])

theorem mem_update {q : ι → List α} {i j : ι} {l : List α} {a : α} :
    a ∈ Function.update q i l j ↔ (j = i ∧ a ∈ l) ∨ (j ≠ i ∧ a ∈ q j) := by
  by_cases h : j = i
  · subst h
    simp
  · simp [h]

/-- Replacing one queue by a list with the same elements or fewer. -/
theorem Apart.update_sub {q : ι → List α} (h : Apart q) {i : ι} {l : List α} (hl : l.Nodup)
    (hsub : ∀ a ∈ l, a ∈ q i) : Apart (Function.update q i l) where
  nodup j := by
    by_cases hj : j = i
    · subst hj
      simpa using hl
    · simpa [hj] using h.nodup j
  unique a j k hj hk := by
    -- each membership is in the new queue `i` or in an unchanged one
    have hj' : a ∈ q j := by
      rcases mem_update.mp hj with ⟨rfl, hm⟩ | ⟨-, hm⟩
      · exact hsub a hm
      · exact hm
    have hk' : a ∈ q k := by
      rcases mem_update.mp hk with ⟨rfl, hm⟩ | ⟨-, hm⟩
      · exact hsub a hm
      · exact hm
    exact h.unique a _ _ hj' hk'

theorem mem_pushBack {q : ι → List α} {i k : ι} {a b : α} :
    b ∈ pushBack q i a k ↔ b ∈ q k ∨ (k = i ∧ b = a) := by
  by_cases hk : k = i
  · subst hk
    simp [pushBack]
  · simp [pushBack, hk]

/-- Adding an element that is on no queue. -/
theorem Apart.pushBack {q : ι → List α} (h : Apart q) {a : α} (ha : ¬ Queued q a) (i : ι) :
    Apart (pushBack q i a) where
  nodup j := by
    by_cases hj : j = i
    · subst hj
      simp only [Queues.pushBack, Function.update_self]
      exact (h.nodup j).append (List.nodup_singleton a)
        (List.disjoint_singleton.mpr fun hm => ha ⟨j, hm⟩)
    · simpa [Queues.pushBack, hj] using h.nodup j
  unique b j k hj hk := by
    -- `b` is the new element, on queue `i` only, or was on a queue before
    rcases mem_pushBack.mp hj with hj' | ⟨rfl, rfl⟩ <;>
      rcases mem_pushBack.mp hk with hk' | ⟨rfl, hb⟩
    · exact h.unique b _ _ hj' hk'
    · exact absurd ⟨_, hb ▸ hj'⟩ ha
    · exact absurd ⟨_, hk'⟩ ha
    · rfl

theorem queued_pushBack {q : ι → List α} {i : ι} {a b : α} :
    Queued (pushBack q i a) b ↔ b = a ∨ Queued q b := by
  constructor
  · rintro ⟨j, hj⟩
    rcases mem_update.mp hj with ⟨rfl, hm⟩ | ⟨-, hm⟩
    · rcases List.mem_append.mp hm with hm | hm
      · exact .inr ⟨_, hm⟩
      · exact .inl (List.mem_singleton.mp hm)
    · exact .inr ⟨j, hm⟩
  · rintro (rfl | ⟨j, hj⟩)
    · exact ⟨i, by simp [Queues.pushBack]⟩
    · by_cases hji : j = i
      · subst hji
        exact ⟨j, by simp [Queues.pushBack, hj]⟩
      · exact ⟨j, by simpa [Queues.pushBack, hji] using hj⟩

/-- Taking the head off a queue: the head is then on no queue. -/
theorem Apart.popHead {q : ι → List α} (h : Apart q) {i : ι} {a : α} {l : List α}
    (hq : q i = a :: l) : Apart (Function.update q i l) :=
  h.update_sub (List.nodup_cons.mp (hq ▸ h.nodup i)).2 fun _ hb => hq ▸ List.mem_cons_of_mem a hb

theorem mem_popHead {q : ι → List α} (h : Apart q) {i k : ι} {a b : α} {l : List α}
    (hq : q i = a :: l) : b ∈ Function.update q i l k ↔ b ≠ a ∧ b ∈ q k := by
  have hnd := List.nodup_cons.mp (hq ▸ h.nodup i)
  rw [mem_update]
  constructor
  · rintro (⟨rfl, hm⟩ | ⟨hki, hm⟩)
    · exact ⟨fun hb => hnd.1 (hb ▸ hm), hq ▸ List.mem_cons_of_mem a hm⟩
    · exact ⟨fun hb => hki (h.unique a _ _ (hb ▸ hm) (hq ▸ List.mem_cons_self)), hm⟩
  · rintro ⟨hba, hm⟩
    by_cases hki : k = i
    · subst hki
      rw [hq] at hm
      exact .inl ⟨rfl, (List.mem_cons.mp hm).resolve_left hba⟩
    · exact .inr ⟨hki, hm⟩

theorem queued_popHead {q : ι → List α} (h : Apart q) {i : ι} {a b : α} {l : List α}
    (hq : q i = a :: l) : Queued (Function.update q i l) b ↔ b ≠ a ∧ Queued q b := by
  simp only [Queued, mem_popHead h hq, exists_and_left]

/-- The head of queue `i` moved to the tail of queue `j`. -/
def moveHead (q : ι → List α) (i j : ι) (a : α) (l : List α) : ι → List α :=
  pushBack (Function.update q i l) j a

theorem Apart.moveHead {q : ι → List α} (h : Apart q) {i : ι} {a : α} {l : List α}
    (hq : q i = a :: l) (j : ι) : Apart (Queues.moveHead q i j a l) :=
  (h.popHead hq).pushBack (fun ha => ((queued_popHead h hq).mp ha).1 rfl) j

theorem mem_moveHead {q : ι → List α} (h : Apart q) {i j k : ι} {a b : α} {l : List α}
    (hq : q i = a :: l) : b ∈ Queues.moveHead q i j a l k ↔ (b ≠ a ∧ b ∈ q k) ∨ (k = j ∧ b = a) := by
  rw [Queues.moveHead, mem_pushBack, mem_popHead h hq]

theorem queued_moveHead {q : ι → List α} (h : Apart q) {i j : ι} {a b : α} {l : List α}
    (hq : q i = a :: l) : Queued (Queues.moveHead q i j a l) b ↔ Queued q b := by
  rw [Queues.moveHead, queued_pushBack, queued_popHead h hq]
  constructor
  · rintro (rfl | ⟨-, hb⟩)
    · exact ⟨i, hq ▸ List.mem_cons_self⟩
    · exact hb
  · intro hb
    by_cases hba : b = a
    · exact .inl hba
    · exact .inr ⟨hba, hb⟩

/-- Emptying a queue. -/
theorem queued_update_nil {q : ι → List α} (h : Apart q) {i : ι} {b : α} :
    Queued (Function.update q i []) b ↔ b ∉ q i ∧ Queued q b := by
  constructor
  · rintro ⟨j, hj⟩
    rcases mem_update.mp hj with ⟨-, hm⟩ | ⟨hji, hm⟩
    · exact absurd hm List.not_mem_nil
    · exact ⟨fun hb => hji (h.unique b _ _ hm hb), j, hm⟩
  · rintro ⟨hb, j, hj⟩
    by_cases hji : j = i
    · subst hji
      exact absurd hj hb
    · exact ⟨j, by simpa [hji] using hj⟩

/-- The elements of queue `i` from position `n` on, moved to the tail of
    queue `j`. -/
def moveDrop (q : ι → List α) (i j : ι) (n : Nat) : ι → List α :=
  Function.update (Function.update q i ((q i).take n)) j (q j ++ (q i).drop n)

theorem mem_moveDrop {q : ι → List α} {i j k : ι} (hij : i ≠ j) {n : Nat} {b : α} :
    b ∈ moveDrop q i j n k ↔
      (k = j ∧ (b ∈ q j ∨ b ∈ (q i).drop n)) ∨ (k = i ∧ b ∈ (q i).take n) ∨
        (k ≠ i ∧ k ≠ j ∧ b ∈ q k) := by
  unfold moveDrop
  by_cases hkj : k = j
  · subst hkj
    simp [Ne.symm hij]
  · by_cases hki : k = i
    · subst hki
      simp [hkj]
    · simp [hkj, hki]

theorem Apart.moveDrop {q : ι → List α} (h : Apart q) {i j : ι} (hij : i ≠ j) (n : Nat) :
    Apart (Queues.moveDrop q i j n) where
  nodup k := by
    have hi := h.nodup i
    rw [← List.take_append_drop n (q i)] at hi
    by_cases hkj : k = j
    · subst hkj
      simp only [Queues.moveDrop, Function.update_self]
      refine (h.nodup k).append (List.nodup_append.mp hi).2.1 fun a ha hb => ?_
      exact hij (h.unique a _ _ (List.mem_of_mem_drop hb) ha)
    · by_cases hki : k = i
      · subst hki
        simpa [Queues.moveDrop, hkj] using (List.nodup_append.mp hi).1
      · simpa [Queues.moveDrop, hkj, hki] using h.nodup k
  unique a k k' hk hk' := by
    -- every element stays on its queue, or goes from `i` to `j`
    have hdisj := List.nodup_append.mp ((List.take_append_drop n (q i)).symm ▸ h.nodup i)
    have hpos : ∀ {m}, a ∈ Queues.moveDrop q i j n m →
        (m = j ∧ a ∈ (q i).drop n) ∨ (m = i ∧ a ∈ (q i).take n) ∨ (a ∈ q m ∧ m ≠ i) := by
      intro m hm
      rcases (mem_moveDrop hij).mp hm with ⟨rfl, hm' | hm'⟩ | ⟨rfl, hm'⟩ | ⟨hmi, -, hm'⟩
      · exact .inr (.inr ⟨hm', Ne.symm hij⟩)
      · exact .inl ⟨rfl, hm'⟩
      · exact .inr (.inl ⟨rfl, hm'⟩)
      · exact .inr (.inr ⟨hm', hmi⟩)
    rcases hpos hk with ⟨rfl, ha⟩ | ⟨rfl, ha⟩ | ⟨ha, hki⟩ <;>
      rcases hpos hk' with ⟨rfl, ha'⟩ | ⟨rfl, ha'⟩ | ⟨ha', hki'⟩
    · rfl
    · exact absurd rfl (hdisj.2.2 a ha' a ha)
    · exact absurd (h.unique a _ _ (List.mem_of_mem_drop ha) ha') (Ne.symm hki')
    · exact absurd rfl (hdisj.2.2 a ha a ha')
    · rfl
    · exact absurd (h.unique a _ _ (List.mem_of_mem_take ha) ha') (Ne.symm hki')
    · exact absurd (h.unique a _ _ ha (List.mem_of_mem_drop ha')) hki
    · exact absurd (h.unique a _ _ ha (List.mem_of_mem_take ha')) hki
    · exact h.unique a _ _ ha ha'

theorem queued_moveDrop {q : ι → List α} {i j : ι} (hij : i ≠ j) (n : Nat) {b : α} :
    Queued (Queues.moveDrop q i j n) b ↔ Queued q b := by
  constructor
  · rintro ⟨k, hk⟩
    rcases (mem_moveDrop hij).mp hk with ⟨-, hm | hm⟩ | ⟨-, hm⟩ | ⟨-, -, hm⟩
    · exact ⟨j, hm⟩
    · exact ⟨i, List.mem_of_mem_drop hm⟩
    · exact ⟨i, List.mem_of_mem_take hm⟩
    · exact ⟨k, hm⟩
  · rintro ⟨k, hk⟩
    by_cases hki : k = i
    · subst hki
      rw [← List.take_append_drop n (q k)] at hk
      rcases List.mem_append.mp hk with hm | hm
      · exact ⟨k, (mem_moveDrop hij).mpr (.inr (.inl ⟨rfl, hm⟩))⟩
      · exact ⟨j, (mem_moveDrop hij).mpr (.inl ⟨rfl, .inr hm⟩)⟩
    · by_cases hkj : k = j
      · subst hkj
        exact ⟨k, (mem_moveDrop hij).mpr (.inl ⟨rfl, .inl hk⟩)⟩
      · exact ⟨k, (mem_moveDrop hij).mpr (.inr (.inr ⟨hki, hkj, hk⟩))⟩

/-! ## Counting elements -/

/-- The elements on the queues at the locations `is`, as a multiset. -/
def bag (q : ι → List α) (is : List ι) : Multiset α :=
  (is.map fun i => (q i : Multiset α)).sum

theorem bag_update_of_not_mem {q : ι → List α} {is : List ι} {i : ι} (hi : i ∉ is) (l : List α) :
    bag (Function.update q i l) is = bag q is := by
  unfold bag
  congr 1
  refine List.map_congr_left fun j hj => ?_
  have hji : j ≠ i := fun h => hi (h ▸ hj)
  rw [Function.update_of_ne hji]

/-- Replacing the queue at one of the locations `is`, each listed once. -/
theorem bag_update {q : ι → List α} {is : List ι} (hnd : is.Nodup) {i : ι} (hi : i ∈ is) (l : List α) :
    bag (Function.update q i l) is + q i = bag q is + l := by
  -- `i` first, then the other locations, where the queues are the same
  have hperm := List.perm_cons_erase hi
  have hrest : bag (Function.update q i l) (is.erase i) = bag q (is.erase i) :=
    bag_update_of_not_mem hnd.not_mem_erase l
  unfold bag at hrest ⊢
  rw [(hperm.map _).sum_eq, (hperm.map _).sum_eq, List.map_cons, List.map_cons, List.sum_cons, List.sum_cons,
    Function.update_self, hrest, add_comm, add_comm _ (l : Multiset α), ← add_assoc, ← add_assoc,
    add_comm (q i : Multiset α)]

theorem moveHead_of_ne {q : ι → List α} {i j k : ι} {a : α} {l : List α} (hki : k ≠ i) (hkj : k ≠ j) :
    moveHead q i j a l k = q k := by
  simp [moveHead, pushBack, hki, hkj]

theorem moveHead_target {q : ι → List α} {i j : ι} (hij : i ≠ j) {a : α} {l : List α} :
    moveHead q i j a l j = q j ++ [a] := by
  simp [moveHead, pushBack, Ne.symm hij]

theorem moveHead_source {q : ι → List α} {i j : ι} (hij : i ≠ j) {a : α} {l : List α} :
    moveHead q i j a l i = l := by
  simp [moveHead, pushBack, hij]

theorem moveHead_self {q : ι → List α} {i : ι} {a : α} {l : List α} :
    moveHead q i i a l = Function.update q i (l ++ [a]) := by
  simp [moveHead, pushBack]

theorem moveDrop_of_ne {q : ι → List α} {i j k : ι} {n : Nat} (hki : k ≠ i) (hkj : k ≠ j) :
    moveDrop q i j n k = q k := by
  simp [moveDrop, hki, hkj]

/-- A move from a location outside `is` to one in it: the element comes in. -/
theorem bag_moveHead_in {q : ι → List α} {is : List ι} (hnd : is.Nodup) {i j : ι} (hi : i ∉ is) (hj : j ∈ is)
    (a : α) (l : List α) : bag (moveHead q i j a l) is = bag q is + {a} := by
  have hij : i ≠ j := fun h => hi (h ▸ hj)
  have h := bag_update (q := Function.update q i l) hnd hj (Function.update q i l j ++ [a])
  rw [Function.update_of_ne (Ne.symm hij), bag_update_of_not_mem hi, ← Multiset.coe_add] at h
  rw [moveHead, pushBack, Function.update_of_ne (Ne.symm hij)]
  apply add_right_cancel (b := (q j : Multiset α))
  rw [h, Multiset.coe_singleton]
  ac_rfl

/-- A move between locations outside `is`. -/
theorem bag_moveHead_out {q : ι → List α} {is : List ι} {i j : ι} (hi : i ∉ is) (hj : j ∉ is) (a : α)
    (l : List α) : bag (moveHead q i j a l) is = bag q is := by
  rw [moveHead, pushBack, bag_update_of_not_mem hj, bag_update_of_not_mem hi]

/-- The tail of a queue in `is` moved out of `is`. -/
theorem bag_moveDrop_out {q : ι → List α} {is : List ι} (hnd : is.Nodup) {i j : ι} (hi : i ∈ is) (hj : j ∉ is)
    (n : Nat) : bag (moveDrop q i j n) is + ((q i).drop n : Multiset α) = bag q is := by
  have h := bag_update (q := q) hnd hi ((q i).take n)
  have hsplit : (q i : Multiset α) = ((q i).take n : Multiset α) + ((q i).drop n : Multiset α) := by
    rw [Multiset.coe_add, List.take_append_drop]
  rw [moveDrop, bag_update_of_not_mem hj]
  apply add_right_cancel (b := ((q i).take n : Multiset α))
  rw [← h, hsplit]
  ac_rfl

/-- The tail of a queue outside `is` moved into `is`. -/
theorem bag_moveDrop_in {q : ι → List α} {is : List ι} (hnd : is.Nodup) {i j : ι} (hi : i ∉ is) (hj : j ∈ is)
    (n : Nat) : bag (moveDrop q i j n) is = bag q is + ((q i).drop n : Multiset α) := by
  have hij : i ≠ j := fun h => hi (h ▸ hj)
  have h := bag_update (q := Function.update q i ((q i).take n)) hnd hj (q j ++ (q i).drop n)
  rw [Function.update_of_ne (Ne.symm hij), bag_update_of_not_mem hi, ← Multiset.coe_add] at h
  rw [moveDrop]
  apply add_right_cancel (b := (q j : Multiset α))
  rw [h]
  ac_rfl

end Queues
