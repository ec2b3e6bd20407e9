import Mathlib

/-!
# Doubly linked lists

Cells `ρ` with two links each, `next` and `prev : ρ → Option ρ`, a null link
being `none`. `Linked next prev l` says that the cells of `l`, in order, are
linked both ways: each one's `next` is the one after it, and that one's `prev`
points back.

A chain reads only the `next` of its cells but the last and the `prev` of its
cells but the first (`linked_congr`), so a write elsewhere leaves it linked.
The two rewirings a list makes are stated once here: putting a fresh cell
between two neighbours (`linked_splice`) and taking a cell out from between
them (`linked_unsplice`). `insertAfter` and `insertBefore` are the list
operations they implement.
-/

namespace DList

variable {ρ : Type*}

/-- Each cell of `l` but the last links forward to the next one, which links
    back. -/
def Linked (next prev : ρ → Option ρ) : List ρ → Prop
  | a :: b :: l => next a = some b ∧ prev b = some a ∧ Linked next prev (b :: l)
  | _ => True

section Linked

variable {next prev next' prev' : ρ → Option ρ} {a b x : ρ} {l l₁ l₂ : List ρ}

@[simp] theorem linked_nil : Linked next prev [] := trivial

@[simp] theorem linked_singleton (a : ρ) : Linked next prev [a] := trivial

@[simp] theorem linked_cons_cons :
    Linked next prev (a :: b :: l) ↔ next a = some b ∧ prev b = some a ∧ Linked next prev (b :: l) :=
  Iff.rfl

/-- A chain splits at any of its cells. -/
theorem linked_append :
    Linked next prev (l₁ ++ b :: l₂) ↔ Linked next prev (l₁ ++ [b]) ∧ Linked next prev (b :: l₂) := by
  induction l₁ with
  | nil => simp
  | cons a l₁ ih =>
    cases l₁ with
    | nil => simp [and_assoc]
    | cons c l₁ =>
      simp only [List.cons_append, linked_cons_cons] at ih ⊢
      rw [ih, and_assoc, and_assoc]

/-- A chain reads only the `next` of its cells but the last and the `prev` of
    its cells but the first. -/
theorem linked_congr (hn : ∀ x ∈ l.dropLast, next' x = next x) (hp : ∀ x ∈ l.tail, prev' x = prev x) :
    Linked next' prev' l ↔ Linked next prev l := by
  induction l with
  | nil => exact Iff.rfl
  | cons a l ih =>
    cases l with
    | nil => exact Iff.rfl
    | cons b l =>
      have ha : next' a = next a := hn a (by simp)
      have hb : prev' b = prev b := hp b (by simp)
      have hrest := ih (fun x hx => hn x (List.mem_cons_of_mem _ hx))
        (fun x hx => hp x (List.mem_cons_of_mem _ hx))
      rw [linked_cons_cons, linked_cons_cons, ha, hb, hrest]

/-- A write to the `next` of a cell that is not in the chain, or is its last,
    leaves it linked. -/
theorem linked_update_next {z : ρ} {v : Option ρ} (hz : z ∉ l.dropLast) [DecidableEq ρ] :
    Linked (Function.update next z v) prev l ↔ Linked next prev l :=
  linked_congr (fun y hy => Function.update_of_ne (fun h : y = z => hz (h ▸ hy)) _ _) (fun _ _ => rfl)

/-- A write to the `prev` of a cell that is not in the chain, or is its first,
    leaves it linked. -/
theorem linked_update_prev {z : ρ} {v : Option ρ} (hz : z ∉ l.tail) [DecidableEq ρ] :
    Linked next (Function.update prev z v) l ↔ Linked next prev l :=
  linked_congr (fun _ _ => rfl) (fun y hy => Function.update_of_ne (fun h : y = z => hz (h ▸ hy)) _ _)

/-- The cell after a cell of a chain is the one its `next` names. -/
theorem next_of_linked (h : Linked next prev (l₁ ++ a :: b :: l₂)) : next a = some b :=
  ((linked_append.1 h).2).1

/-- The cell before a cell of a chain is the one its `prev` names. -/
theorem prev_of_linked (h : Linked next prev (l₁ ++ a :: b :: l₂)) : prev b = some a :=
  ((linked_append.1 h).2).2.1

/-- Two neighbours in a list without repeats are apart from each other and
    from the rest. -/
theorem nodup_neighbours (hnd : (l₁ ++ a :: b :: l₂).Nodup) :
    a ≠ b ∧ a ∉ l₁ ∧ b ∉ l₁ ∧ a ∉ l₂ ∧ b ∉ l₂ := by
  have hdis := List.disjoint_of_nodup_append hnd
  have hab := List.Nodup.of_append_right hnd
  rw [List.nodup_cons, List.nodup_cons, List.mem_cons, not_or] at hab
  exact ⟨hab.1.1, fun h => hdis h (by simp), fun h => hdis h (by simp), hab.1.2, hab.2.1⟩

/-- Following `next` from the first cell of a chain reaches its last one, whose
    `next` is null, without passing any cell twice. -/
theorem nodup_of_linked {z : ρ} (h : Linked next prev (l ++ [z])) (hz : next z = none) :
    (l ++ [z]).Nodup := by
  -- induction on the cells before the last; a repeated first cell would name
  -- two different cells as its `next`
  induction l with
  | nil => exact List.nodup_singleton z
  | cons a l ih =>
    obtain ⟨c, r, hcr⟩ := List.exists_cons_of_ne_nil (show l ++ [z] ≠ [] by simp)
    rw [List.cons_append, hcr, linked_cons_cons] at h
    have hnd := ih (hcr ▸ h.2.2)
    rw [List.cons_append, List.nodup_cons]
    refine ⟨fun ha => ?_, hnd⟩
    obtain ⟨l₁, l₂, hl⟩ := List.append_of_mem ha
    cases l₂ with
    | nil =>
      -- `a` is the last cell, whose `next` is null
      obtain ⟨-, hza⟩ := List.append_inj' hl rfl
      rw [List.singleton_inj] at hza
      subst hza
      rw [hz] at h
      exact absurd h.1 (by simp)
    | cons b l₂ =>
      -- `a` is followed by `b`, and by `c`, the first cell
      have hb : next a = some b := next_of_linked (hl ▸ hcr ▸ h.2.2)
      rw [h.1, Option.some_inj] at hb
      obtain ⟨hab, ha₁, hb₁, -, -⟩ := nodup_neighbours (hl ▸ hnd)
      rw [hcr] at hl
      cases l₁ with
      | nil => exact hab (List.head_eq_of_cons_eq hl ▸ hb)
      | cons d l₁ =>
        rw [List.cons_append, List.cons.injEq] at hl
        exact hb₁ (hb ▸ hl.1 ▸ List.mem_cons_self)

variable [DecidableEq ρ]

/-- Putting a fresh cell `x` between two neighbours `a` and `b`: `x` links to
    both, and they to `x`. -/
theorem linked_splice (h : Linked next prev (l₁ ++ a :: b :: l₂)) (hnd : (l₁ ++ a :: b :: l₂).Nodup)
    (hx : x ∉ l₁ ++ a :: b :: l₂) :
    Linked (Function.update (Function.update next x (some b)) a (some x))
      (Function.update (Function.update prev x (some a)) b (some x)) (l₁ ++ a :: x :: b :: l₂) := by
  obtain ⟨hab, ha₁, hb₁, ha₂, hb₂⟩ := nodup_neighbours hnd
  have hxa : x ≠ a := fun h => hx (by simp [h])
  have hxb : x ≠ b := fun h => hx (by simp [h])
  have hx₁ : x ∉ l₁ := fun h => hx (by simp [h])
  have hx₂ : x ∉ l₂ := fun h => hx (by simp [h])
  rw [linked_append] at h ⊢
  obtain ⟨hl₁, -, -, hb⟩ := h
  refine ⟨?_, ?_⟩
  · -- the cells up to `a` read neither `a`'s `next` nor `b`'s `prev`
    have hbt : b ∉ (l₁ ++ [a]).tail := fun h => by
      rcases List.mem_append.1 (List.mem_of_mem_tail h) with h | h
      · exact hb₁ h
      · exact hab (List.mem_singleton.1 h).symm
    have hxt : x ∉ (l₁ ++ [a]).tail := fun h => by
      rcases List.mem_append.1 (List.mem_of_mem_tail h) with h | h
      · exact hx₁ h
      · exact hxa (List.mem_singleton.1 h)
    rw [linked_update_next (by rwa [List.dropLast_concat]), linked_update_next (by rwa [List.dropLast_concat]),
      linked_update_prev hbt, linked_update_prev hxt]
    exact hl₁
  · -- from `b` on, the chain reads neither `a`'s `next` nor `x`'s links
    have hbl : ∀ {y}, y ∉ b :: l₂ → y ∉ (b :: l₂).dropLast := fun h h' => h (List.dropLast_subset _ h')
    rw [linked_cons_cons, linked_cons_cons, linked_update_next (hbl (by simp [hab, ha₂])),
      linked_update_next (hbl (by simp [hxb, hx₂])), linked_update_prev (show b ∉ l₂ from hb₂),
      linked_update_prev (show x ∉ l₂ from hx₂)]
    simp [hxa, hxb, hb]

/-- Taking the cell `x` out from between its neighbours `a` and `b`: they link
    to each other, and `x`'s links are cleared. -/
theorem linked_unsplice (h : Linked next prev (l₁ ++ a :: x :: b :: l₂))
    (hnd : (l₁ ++ a :: x :: b :: l₂).Nodup) :
    Linked (Function.update (Function.update next a (some b)) x none)
      (Function.update (Function.update prev b (some a)) x none) (l₁ ++ a :: b :: l₂) := by
  obtain ⟨hax, ha₁, hx₁, ha₂, hx₂⟩ := nodup_neighbours hnd
  obtain ⟨hxb, hx₁', hb₁', -, hb₂⟩ := nodup_neighbours (show ((l₁ ++ [a]) ++ x :: b :: l₂).Nodup by simpa using hnd)
  have hab : a ≠ b := fun h => ha₂ (by simp [h])
  rw [linked_append] at h ⊢
  obtain ⟨hl₁, -, -, -, -, hb⟩ := h
  refine ⟨?_, ?_⟩
  · -- the cells up to `a` read neither `x`'s links, `a`'s `next` nor `b`'s `prev`
    have hxt : x ∉ (l₁ ++ [a]).tail := fun h => hx₁' (List.mem_of_mem_tail h)
    have hbt : b ∉ (l₁ ++ [a]).tail := fun h => hb₁' (List.mem_of_mem_tail h)
    rw [linked_update_next (by rwa [List.dropLast_concat]), linked_update_next (by rwa [List.dropLast_concat]),
      linked_update_prev hxt, linked_update_prev hbt]
    exact hl₁
  · -- from `b` on, the chain reads neither `a`'s `next` nor `x`'s links
    have hbl : ∀ {y}, y ∉ b :: l₂ → y ∉ (b :: l₂).dropLast := fun h h' => h (List.dropLast_subset _ h')
    rw [linked_cons_cons, linked_update_next (hbl hx₂),
      linked_update_next (hbl ha₂), linked_update_prev (show x ∉ l₂ from fun h => hx₂ (by simp [h])),
      linked_update_prev (show b ∉ l₂ from hb₂)]
    simp [hax, hxb.symm, hb]

end Linked

section Lists

variable [DecidableEq ρ]

/-- The list with `x` put after the first `a`. -/
def insertAfter (a x : ρ) : List ρ → List ρ
  | [] => []
  | b :: l => if b = a then b :: x :: l else b :: insertAfter a x l

/-- The list with `x` put before the first `a`. -/
def insertBefore (x a : ρ) : List ρ → List ρ
  | [] => []
  | b :: l => if b = a then x :: b :: l else b :: insertBefore x a l

variable {a x : ρ} {l₁ l₂ : List ρ}

theorem insertAfter_append (ha : a ∉ l₁) : insertAfter a x (l₁ ++ a :: l₂) = l₁ ++ a :: x :: l₂ := by
  induction l₁ with
  | nil => simp [insertAfter]
  | cons b l₁ ih =>
    rw [List.mem_cons, not_or] at ha
    rw [List.cons_append, insertAfter, if_neg (Ne.symm ha.1), ih ha.2, List.cons_append]

theorem insertBefore_append (ha : a ∉ l₁) : insertBefore x a (l₁ ++ a :: l₂) = l₁ ++ x :: a :: l₂ := by
  induction l₁ with
  | nil => simp [insertBefore]
  | cons b l₁ ih =>
    rw [List.mem_cons, not_or] at ha
    rw [List.cons_append, insertBefore, if_neg (Ne.symm ha.1), ih ha.2, List.cons_append]

theorem subset_insertAfter (l : List ρ) : l ⊆ insertAfter a x l := by
  induction l with
  | nil => exact List.Subset.refl _
  | cons b l ih =>
    rw [insertAfter]
    split
    · exact List.cons_subset_cons _ (List.subset_cons_self _ _)
    · exact List.cons_subset_cons _ ih

theorem subset_insertBefore (l : List ρ) : l ⊆ insertBefore x a l := by
  induction l with
  | nil => exact List.Subset.refl _
  | cons b l ih =>
    rw [insertBefore]
    split
    · exact List.subset_cons_self _ _
    · exact List.cons_subset_cons _ ih

end Lists

end DList
