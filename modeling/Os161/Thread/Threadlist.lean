import Os161.Lib.DList
import Os161.Lib.Simulation

/-!
# Thread lists

kern/thread/threadlist.c keeps threads on a doubly linked list through the
`t_listnode` each thread carries, between two sentinel nodes `tl_head` and
`tl_tail` of the list, with the number of threads in `tl_count`. A node is a
sentinel or a thread's (`Tln`); the list's `prev` and `next` are the
`tln_prev` and `tln_next` of every node, `none` for `NULL`, and `tln_self`
(`Tln.self`) is set once by `threadlistnode_init` and never written here.

What the code does is kept as it is written:

* `DEBUGASSERT` is compiled out, so none of its checks is made: inserting a
  thread does not look at its old links, and removing one does not check that
  it has neighbours;
* each pointer write is one `Function.update`, in the order of the source,
  and a write or read through a `NULL` link is undefined (`none`);
* `threadlist_remhead` and `threadlist_remtail` find an empty list by the
  sentinel's `NULL` link, `threadlist_isempty` by `tl_count`.

The threads a list holds are those met following `tln_next` from `tl_head`
to `tl_tail` (`Holds`, over `DList.Linked`). Every insertion puts a node
between two neighbours (`Threadlist.spliced`), every removal takes one out
(`Threadlist.unspliced`), and `Holds.spliced` and `Holds.unspliced` say how
the list of threads changes, from which `Threadlist.simulates` matches every
call with the deque operation on that list (`ThreadlistOp.spec`), and
`threadlist_refines_deque` every run of calls. A list's links say nothing of
the threads off it, which may be on other lists: the operations read only
the nodes on the list and the one they insert.
-/

namespace Os161

/-- A `struct threadlistnode`: the list's sentinels `tl_head` and `tl_tail`,
    or the `t_listnode` of a thread. -/
inductive Tln (τ : Type*)
  | head
  | tail
  | thread (t : τ)
  deriving DecidableEq

namespace Tln

variable {τ : Type*}

/-- `tln_self`: its thread for a thread's node, `NULL` for a sentinel. -/
def self : Tln τ → Option τ
  | thread t => some t
  | _ => none

end Tln

/-- `struct threadlist`, with the `tln_prev` and `tln_next` of every node. -/
structure Threadlist (τ : Type*) where
  prev : Tln τ → Option (Tln τ)
  next : Tln τ → Option (Tln τ)
  count : Nat

namespace Threadlist

variable {τ : Type*}

section Code

variable [DecidableEq τ]

/-- `threadlist_init`, every thread's node as `threadlistnode_init` leaves it. -/
def init : Threadlist τ where
  prev
    | .tail => some .head
    | _ => none
  next
    | .head => some .tail
    | _ => none
  count := 0

/-- `threadlist_isempty`. -/
def isempty (tl : Threadlist τ) : Bool := tl.count == 0

/-- `threadlist_insertafternode(onlist, t)`. -/
def insertafternode (tl : Threadlist τ) (onlist : Tln τ) (t : τ) : Option (Threadlist τ) := do
  let addee := Tln.thread t
  let prev := Function.update tl.prev addee (some onlist)
  let next := Function.update tl.next addee (tl.next onlist)
  -- `addee->tln_prev->tln_next = addee;`
  let p ← prev addee
  let next := Function.update next p (some addee)
  -- `addee->tln_next->tln_prev = addee;`
  let n ← next addee
  pure { tl with prev := Function.update prev n (some addee), next }

/-- `threadlist_insertbeforenode(t, onlist)`. -/
def insertbeforenode (tl : Threadlist τ) (t : τ) (onlist : Tln τ) : Option (Threadlist τ) := do
  let addee := Tln.thread t
  let prev := Function.update tl.prev addee (tl.prev onlist)
  let next := Function.update tl.next addee (some onlist)
  let p ← prev addee
  let next := Function.update next p (some addee)
  let n ← next addee
  pure { tl with prev := Function.update prev n (some addee), next }

/-- `threadlist_removenode(tln)`. -/
def removenode (tl : Threadlist τ) (tln : Tln τ) : Option (Threadlist τ) := do
  -- `tln->tln_prev->tln_next = tln->tln_next;`
  let p ← tl.prev tln
  let next := Function.update tl.next p (tl.next tln)
  -- `tln->tln_next->tln_prev = tln->tln_prev;`
  let n ← next tln
  let prev := Function.update tl.prev n (tl.prev tln)
  pure { tl with prev := Function.update prev tln none, next := Function.update next tln none }

/-- `threadlist_addhead`. -/
def addhead (tl : Threadlist τ) (t : τ) : Option (Threadlist τ) :=
  (tl.insertafternode .head t).map fun tl => { tl with count := tl.count + 1 }

/-- `threadlist_addtail`. -/
def addtail (tl : Threadlist τ) (t : τ) : Option (Threadlist τ) :=
  (tl.insertbeforenode t .tail).map fun tl => { tl with count := tl.count + 1 }

/-- `threadlist_remhead`: `NULL` when the first node's `tln_next` is `NULL`. -/
def remhead (tl : Threadlist τ) : Option (Option τ × Threadlist τ) := do
  let tln ← tl.next .head
  if tl.next tln = none then pure (none, tl)
  else
    let tl ← tl.removenode tln
    pure (tln.self, { tl with count := tl.count - 1 })

/-- `threadlist_remtail`: `NULL` when the last node's `tln_prev` is `NULL`. -/
def remtail (tl : Threadlist τ) : Option (Option τ × Threadlist τ) := do
  let tln ← tl.prev .tail
  if tl.prev tln = none then pure (none, tl)
  else
    let tl ← tl.removenode tln
    pure (tln.self, { tl with count := tl.count - 1 })

/-- `threadlist_insertafter(tl, onlist, addee)`. -/
def insertafter (tl : Threadlist τ) (onlist addee : τ) : Option (Threadlist τ) :=
  (tl.insertafternode (.thread onlist) addee).map fun tl => { tl with count := tl.count + 1 }

/-- `threadlist_insertbefore(tl, addee, onlist)`. -/
def insertbefore (tl : Threadlist τ) (addee onlist : τ) : Option (Threadlist τ) :=
  (tl.insertbeforenode addee (.thread onlist)).map fun tl => { tl with count := tl.count + 1 }

/-- `threadlist_remove(tl, t)`. -/
def remove (tl : Threadlist τ) (t : τ) : Option (Threadlist τ) :=
  (tl.removenode (.thread t)).map fun tl => { tl with count := tl.count - 1 }

/-- A thread's node with both links `NULL`, as `threadlistnode_init` leaves it
    and `threadlistnode_cleanup` asserts. -/
def Unlinked (tl : Threadlist τ) (t : τ) : Prop :=
  tl.next (.thread t) = none ∧ tl.prev (.thread t) = none

/-! ## Rewiring -/

/-- The links with the node of `t` put between the neighbours `a` and `b`. -/
def spliced (tl : Threadlist τ) (a : Tln τ) (t : τ) (b : Tln τ) : Threadlist τ :=
  { tl with
    next := Function.update (Function.update tl.next (.thread t) (some b)) a (some (.thread t))
    prev := Function.update (Function.update tl.prev (.thread t) (some a)) b (some (.thread t)) }

/-- The links with the node of `t` taken out from between `a` and `b`. -/
def unspliced (tl : Threadlist τ) (a : Tln τ) (t : τ) (b : Tln τ) : Threadlist τ :=
  { tl with
    next := Function.update (Function.update tl.next a (some b)) (.thread t) none
    prev := Function.update (Function.update tl.prev b (some a)) (.thread t) none }

variable {tl : Threadlist τ} {a b : Tln τ} {t : τ}

theorem insertafternode_eq (hn : tl.next a = some b) (ha : a ≠ .thread t) :
    tl.insertafternode a t = some (tl.spliced a t b) := by
  simp [insertafternode, spliced, hn, Function.update_of_ne (Ne.symm ha)]

theorem insertbeforenode_eq (hp : tl.prev b = some a) (ha : a ≠ .thread t) :
    tl.insertbeforenode t b = some (tl.spliced a t b) := by
  simp [insertbeforenode, spliced, hp, Function.update_of_ne (Ne.symm ha)]

theorem removenode_eq (hp : tl.prev (.thread t) = some a) (hn : tl.next (.thread t) = some b)
    (ha : a ≠ .thread t) : tl.removenode (.thread t) = some (tl.unspliced a t b) := by
  simp [removenode, unspliced, hp, hn, Function.update_of_ne (Ne.symm ha)]

@[simp] theorem unlinked_unspliced : (tl.unspliced a t b).Unlinked t := by
  simp [Unlinked, unspliced]

end Code

/-! ## The threads on a list -/

section Chain

variable {t : τ}

/-- The nodes met following `tln_next` from `tl_head` on a list holding `ts`. -/
def chain (ts : List τ) : List (Tln τ) := Tln.head :: (ts.map .thread ++ [.tail])

/-- The node before the threads `u` at the front of a list: the last of them,
    or `tl_head`. -/
def before (u : List τ) : Tln τ :=
  match u.getLast? with
  | some t => .thread t
  | none => .head

/-- The node after the threads `v` at the back of a list: the first of them,
    or `tl_tail`. -/
def after (v : List τ) : Tln τ :=
  match v.head? with
  | some t => .thread t
  | none => .tail

@[simp] theorem before_nil : before ([] : List τ) = .head := rfl

@[simp] theorem before_concat (u : List τ) (t : τ) : before (u ++ [t]) = .thread t := by
  simp [before]

@[simp] theorem after_nil : after ([] : List τ) = .tail := rfl

@[simp] theorem after_cons (t : τ) (v : List τ) : after (t :: v) = .thread t := rfl

@[simp] theorem before_ne_tail (u : List τ) : before u ≠ .tail := by
  unfold before
  split <;> simp

@[simp] theorem after_ne_head (v : List τ) : after v ≠ .head := by
  unfold after
  split <;> simp

theorem before_ne_thread {u : List τ} (ht : t ∉ u) : before u ≠ .thread t := by
  rcases List.eq_nil_or_concat' u with rfl | ⟨u, w, rfl⟩
  · simp
  · simp only [before_concat, ne_eq, Tln.thread.injEq]
    rintro rfl
    simp at ht

@[simp] theorem thread_mem_chain {ts : List τ} : Tln.thread t ∈ chain ts ↔ t ∈ ts := by
  simp [chain]

/-- A list holding `u ++ v` is cut between `before u` and `after v`, where a
    thread put there lands. -/
theorem chain_split (u v : List τ) :
    ∃ l₁ l₂, chain (u ++ v) = l₁ ++ before u :: after v :: l₂ ∧
      ∀ x, chain (u ++ x :: v) = l₁ ++ before u :: .thread x :: after v :: l₂ := by
  obtain ⟨l₁, h₁⟩ : ∃ l₁, Tln.head :: u.map .thread = l₁ ++ [before u] := by
    rcases List.eq_nil_or_concat' u with rfl | ⟨u, w, rfl⟩
    · exact ⟨[], rfl⟩
    · exact ⟨Tln.head :: u.map .thread, by simp⟩
  obtain ⟨l₂, h₂⟩ : ∃ l₂, v.map .thread ++ [Tln.tail] = after v :: l₂ := by
    cases v with
    | nil => exact ⟨[], rfl⟩
    | cons w v => exact ⟨v.map .thread ++ [.tail], rfl⟩
  have hc : ∀ ys : List τ, chain (u ++ ys ++ v) =
      (Tln.head :: u.map .thread) ++ ys.map .thread ++ (v.map .thread ++ [.tail]) := by
    simp [chain]
  refine ⟨l₁, l₂, ?_, fun x => ?_⟩
  · simpa [h₁, h₂] using hc []
  · simpa [h₁, h₂] using hc [x]

end Chain

/-- A list holds the threads `ts`: following `tln_next` from `tl_head` meets
    their nodes in order and then `tl_tail`, each node's `tln_prev` pointing
    back, the sentinels' outer links `NULL`, and `tl_count` their number. -/
structure Holds (tl : Threadlist τ) (ts : List τ) : Prop where
  linked : DList.Linked tl.next tl.prev (chain ts)
  head_prev : tl.prev .head = none
  tail_next : tl.next .tail = none
  count : tl.count = ts.length

section Holds

variable {tl : Threadlist τ} {t : τ} {ts u v : List τ}

theorem holds_init : Holds (init : Threadlist τ) [] where
  linked := by simp [chain, init]
  head_prev := rfl
  tail_next := rfl
  count := rfl

/-- No node is met twice. -/
theorem Holds.nodup (h : Holds tl ts) : (chain ts).Nodup :=
  DList.nodup_of_linked (l := Tln.head :: ts.map .thread) h.linked h.tail_next

/-- No thread is on the list twice. -/
theorem Holds.nodup_threads (h : Holds tl ts) : ts.Nodup := by
  have hnd := h.nodup
  simp only [chain, List.nodup_cons, List.nodup_append] at hnd
  exact List.Nodup.of_map _ hnd.2.1

/-- A thread on the list has both links set: the source's precondition on an
    inserted thread, both links `NULL`, keeps it off the list. -/
theorem Holds.not_mem_of_unlinked (h : Holds tl ts) (ht : tl.Unlinked t) : t ∉ ts := by
  intro hmem
  obtain ⟨u, v, rfl⟩ := List.append_of_mem hmem
  obtain ⟨l₁, l₂, -, hs⟩ := chain_split u v
  have hlinked := h.linked
  rw [hs t] at hlinked
  exact Option.some_ne_none _ ((DList.prev_of_linked hlinked).symm.trans ht.2)

/-- A thread is on the list once: not before its place, nor after it. -/
theorem Holds.not_mem_apart (h : Holds tl (u ++ t :: v)) : t ∉ u ∧ t ∉ v := by
  have hnd := List.nodup_middle.1 h.nodup_threads
  rw [List.nodup_cons, List.mem_append, not_or] at hnd
  exact hnd.1

/-- The neighbours of the cut between `u` and `v` link to each other. -/
theorem Holds.next_before (h : Holds tl (u ++ v)) : tl.next (before u) = some (after v) := by
  obtain ⟨l₁, l₂, hs, -⟩ := chain_split u v
  exact DList.next_of_linked (hs ▸ h.linked)

theorem Holds.prev_after (h : Holds tl (u ++ v)) : tl.prev (after v) = some (before u) := by
  obtain ⟨l₁, l₂, hs, -⟩ := chain_split u v
  exact DList.prev_of_linked (hs ▸ h.linked)

/-- A thread's node on the list links to its neighbours. -/
theorem Holds.links_thread (h : Holds tl (u ++ t :: v)) :
    tl.prev (.thread t) = some (before u) ∧ tl.next (.thread t) = some (after v) := by
  obtain ⟨l₁, l₂, -, hs⟩ := chain_split u v
  have hlinked := h.linked
  rw [hs t] at hlinked
  exact ⟨DList.prev_of_linked hlinked,
    DList.next_of_linked
      (show DList.Linked tl.next tl.prev ((l₁ ++ [before u]) ++ .thread t :: after v :: l₂) by simpa using hlinked)⟩

variable [DecidableEq τ]

/-- Putting a thread off the list between `u` and `v`. -/
theorem Holds.spliced (h : Holds tl (u ++ v)) (ht : t ∉ u ++ v) :
    Holds { tl.spliced (before u) t (after v) with count := tl.count + 1 } (u ++ t :: v) := by
  obtain ⟨l₁, l₂, hs, hs'⟩ := chain_split u v
  have hlinked := h.linked
  have hnd := h.nodup
  rw [hs] at hlinked hnd
  refine ⟨?_, ?_, ?_, ?_⟩
  · rw [hs' t]
    exact DList.linked_splice hlinked hnd (by rw [← hs, thread_mem_chain]; exact ht)
  · -- `prev` is written at the new node and at `after v`, never at `tl_head`
    show Function.update (Function.update tl.prev _ _) (after v) _ .head = none
    rw [Function.update_of_ne (after_ne_head v).symm, Function.update_of_ne (by simp)]
    exact h.head_prev
  · show Function.update (Function.update tl.next _ _) (before u) _ .tail = none
    rw [Function.update_of_ne (before_ne_tail u).symm, Function.update_of_ne (by simp)]
    exact h.tail_next
  · show tl.count + 1 = _
    simp only [h.count, List.length_append, List.length_cons]
    omega

/-- Taking the thread between `u` and `v` off the list. -/
theorem Holds.unspliced (h : Holds tl (u ++ t :: v)) :
    Holds { tl.unspliced (before u) t (after v) with count := tl.count - 1 } (u ++ v) := by
  obtain ⟨l₁, l₂, hs, hs'⟩ := chain_split u v
  have hlinked := h.linked
  have hnd := h.nodup
  rw [hs' t] at hlinked hnd
  refine ⟨?_, ?_, ?_, ?_⟩
  · rw [hs]
    exact DList.linked_unsplice hlinked hnd
  · -- `prev` is written at the node taken out and at `after v`, never at `tl_head`
    show Function.update (Function.update tl.prev (after v) (some (before u))) (.thread t) none .head = none
    rw [Function.update_of_ne (by simp), Function.update_of_ne (after_ne_head v).symm]
    exact h.head_prev
  · show Function.update (Function.update tl.next (before u) (some (after v))) (.thread t) none .tail = none
    rw [Function.update_of_ne (by simp), Function.update_of_ne (before_ne_tail u).symm]
    exact h.tail_next
  · show tl.count - 1 = _
    simp only [h.count, List.length_append, List.length_cons]
    omega

/-! ## The calls -/

theorem addhead_spec (h : Holds tl ts) (ht : t ∉ ts) :
    ∃ tl', tl.addhead t = some tl' ∧ Holds tl' (t :: ts) := by
  have h' : Holds tl ([] ++ ts) := h
  have hn : tl.next .head = some (after ts) := h'.next_before
  refine ⟨_, ?_, h'.spliced ht⟩
  rw [addhead, insertafternode_eq hn (by simp)]
  rfl

theorem addtail_spec (h : Holds tl ts) (ht : t ∉ ts) :
    ∃ tl', tl.addtail t = some tl' ∧ Holds tl' (ts ++ [t]) := by
  have h' : Holds tl (ts ++ []) := by rwa [List.append_nil]
  have hp : tl.prev .tail = some (before ts) := h'.prev_after
  refine ⟨_, ?_, h'.spliced (by simpa using ht)⟩
  rw [addtail, insertbeforenode_eq hp (before_ne_thread ht)]
  rfl

theorem insertafter_spec {onlist : τ} (h : Holds tl ts) (ho : onlist ∈ ts) (ht : t ∉ ts) :
    ∃ tl', tl.insertafter onlist t = some tl' ∧ Holds tl' (DList.insertAfter onlist t ts) := by
  obtain ⟨u, v, rfl⟩ := List.append_of_mem ho
  have h' : Holds tl ((u ++ [onlist]) ++ v) := by rwa [List.append_assoc, List.singleton_append]
  have hn : tl.next (.thread onlist) = some (after v) := by
    rw [← before_concat u onlist]
    exact h'.next_before
  have hne : Tln.thread onlist ≠ .thread t := fun he => ht (Tln.thread.inj he ▸ ho)
  have hs := h'.spliced (t := t) (by simpa using ht)
  rw [before_concat, List.append_assoc, List.singleton_append] at hs
  rw [DList.insertAfter_append h.not_mem_apart.1]
  refine ⟨_, ?_, hs⟩
  rw [insertafter, insertafternode_eq hn hne]
  rfl

theorem insertbefore_spec {onlist : τ} (h : Holds tl ts) (ho : onlist ∈ ts) (ht : t ∉ ts) :
    ∃ tl', tl.insertbefore t onlist = some tl' ∧ Holds tl' (DList.insertBefore t onlist ts) := by
  obtain ⟨u, v, rfl⟩ := List.append_of_mem ho
  have hp : tl.prev (.thread onlist) = some (before u) := h.prev_after
  have hu : t ∉ u := fun hm => ht (List.mem_append_left _ hm)
  rw [DList.insertBefore_append h.not_mem_apart.1]
  refine ⟨_, ?_, h.spliced ht⟩
  rw [insertbefore, insertbeforenode_eq hp (before_ne_thread hu)]
  rfl

theorem remove_spec (h : Holds tl ts) (ht : t ∈ ts) :
    ∃ tl', tl.remove t = some tl' ∧ Holds tl' (ts.erase t) ∧ tl'.Unlinked t := by
  obtain ⟨u, v, rfl⟩ := List.append_of_mem ht
  obtain ⟨hp, hn⟩ := h.links_thread
  obtain ⟨hu, -⟩ := h.not_mem_apart
  rw [List.erase_append_right _ hu, List.erase_cons_head]
  refine ⟨_, ?_, h.unspliced, unlinked_unspliced⟩
  rw [remove, removenode_eq hp hn (before_ne_thread hu)]
  rfl

/-- `threadlist_remhead` on an empty list finds `tl_tail`'s `tln_next` `NULL`,
    and changes nothing. -/
theorem remhead_nil (h : Holds tl []) : tl.remhead = some (none, tl) := by
  have hn : tl.next .head = some .tail := h.next_before (u := []) (v := [])
  simp [remhead, hn, h.tail_next]

theorem remhead_cons {v : List τ} (h : Holds tl (t :: v)) :
    ∃ tl', tl.remhead = some (some t, tl') ∧ Holds tl' v ∧ tl'.Unlinked t := by
  have h' : Holds tl ([] ++ t :: v) := h
  have hn : tl.next .head = some (.thread t) := h'.next_before
  obtain ⟨hp, hnt⟩ := h'.links_thread
  refine ⟨_, ?_, h'.unspliced, unlinked_unspliced⟩
  simp [remhead, hn, hnt, removenode_eq hp hnt (before_ne_thread (List.not_mem_nil))]
  exact ⟨rfl, rfl⟩

/-- `threadlist_remtail` on an empty list finds `tl_head`'s `tln_prev` `NULL`,
    and changes nothing. -/
theorem remtail_nil (h : Holds tl []) : tl.remtail = some (none, tl) := by
  have hp : tl.prev .tail = some .head := h.prev_after (u := []) (v := [])
  simp [remtail, hp, h.head_prev]

theorem remtail_concat (h : Holds tl (u ++ [t])) :
    ∃ tl', tl.remtail = some (some t, tl') ∧ Holds tl' u ∧ tl'.Unlinked t := by
  have h' : Holds tl ((u ++ [t]) ++ []) := by rwa [List.append_nil]
  have hp : tl.prev .tail = some (.thread t) := by
    rw [← before_concat u t]
    exact h'.prev_after
  obtain ⟨hpt, hn⟩ := h.links_thread
  have hs := h.unspliced
  rw [List.append_nil] at hs
  refine ⟨_, ?_, hs, unlinked_unspliced⟩
  simp [remtail, hp, hpt, removenode_eq hpt hn (before_ne_thread h.not_mem_apart.1)]
  exact ⟨rfl, rfl⟩

end Holds

end Threadlist

/-! ## What a thread list is for

A deque of threads, none twice: threads are put at either end or next to a
thread on the list, and taken off either end or from anywhere. A thread put
on the list is not on it, and a thread it is put next to or taken off is.
-/

/-- The calls on a thread list. -/
inductive ThreadlistOp (τ : Type*)
  | addhead (t : τ)
  | addtail (t : τ)
  | remhead
  | remtail
  | insertafter (onlist addee : τ)
  | insertbefore (addee onlist : τ)
  | remove (t : τ)
  | isempty

namespace ThreadlistOp

variable {τ : Type*} [DecidableEq τ]

/-- A call's answer: none, a thread (`none` for `NULL`), or whether the list is
    empty. -/
inductive Answer (τ : Type*)
  | done
  | thread (t : Option τ)
  | empty (b : Bool)
  deriving DecidableEq

/-- A call on the thread list. -/
def apply (tl : Threadlist τ) : ThreadlistOp τ → Option (Answer τ × Threadlist τ)
  | addhead t => (tl.addhead t).map fun tl' => (.done, tl')
  | addtail t => (tl.addtail t).map fun tl' => (.done, tl')
  | remhead => tl.remhead.map fun (t, tl') => (.thread t, tl')
  | remtail => tl.remtail.map fun (t, tl') => (.thread t, tl')
  | insertafter onlist addee => (tl.insertafter onlist addee).map fun tl' => (.done, tl')
  | insertbefore addee onlist => (tl.insertbefore addee onlist).map fun tl' => (.done, tl')
  | remove t => (tl.remove t).map fun tl' => (.done, tl')
  | isempty => some (.empty tl.isempty, tl)

/-- The deque: a call's answer and the threads after it, `none` where the
    caller breaks its precondition. -/
def spec (ts : List τ) : ThreadlistOp τ → Option (Answer τ × List τ)
  | addhead t => if t ∈ ts then none else some (.done, t :: ts)
  | addtail t => if t ∈ ts then none else some (.done, ts ++ [t])
  | remhead => some (.thread ts.head?, ts.tail)
  | remtail => some (.thread ts.getLast?, ts.dropLast)
  | insertafter onlist addee =>
    if onlist ∈ ts ∧ addee ∉ ts then some (.done, DList.insertAfter onlist addee ts) else none
  | insertbefore addee onlist =>
    if onlist ∈ ts ∧ addee ∉ ts then some (.done, DList.insertBefore addee onlist ts) else none
  | remove t => if t ∈ ts then some (.done, ts.erase t) else none
  | isempty => some (.empty ts.isEmpty, ts)

end ThreadlistOp

namespace Threadlist

variable {τ : Type*} [DecidableEq τ] {tl : Threadlist τ} {ts ts' : List τ}

/-- Every call the deque allows is matched by the thread list, with the same
    answer, and a thread the call takes off the list is left with both links
    `NULL`. -/
theorem step_spec {o : ThreadlistOp τ} {r : ThreadlistOp.Answer τ} (h : Holds tl ts)
    (hs : ThreadlistOp.spec ts o = some (r, ts')) :
    ∃ tl', ThreadlistOp.apply tl o = some (r, tl') ∧ Holds tl' ts' ∧
      ∀ t ∈ ts, t ∉ ts' → tl'.Unlinked t := by
  -- the insertions keep every thread on the list; each removal takes one off
  cases o with
  | addhead t =>
    by_cases ht : t ∈ ts
    · simp [ThreadlistOp.spec, ht] at hs
    · simp only [ThreadlistOp.spec, ht, if_false, Option.some_inj, Prod.mk.injEq] at hs
      obtain ⟨rfl, rfl⟩ := hs
      obtain ⟨tl', hc, h'⟩ := addhead_spec h ht
      exact ⟨tl', by rw [ThreadlistOp.apply, hc]; rfl, h', fun y hy hy' => absurd (List.mem_cons_of_mem _ hy) hy'⟩
  | addtail t =>
    by_cases ht : t ∈ ts
    · simp [ThreadlistOp.spec, ht] at hs
    · simp only [ThreadlistOp.spec, ht, if_false, Option.some_inj, Prod.mk.injEq] at hs
      obtain ⟨rfl, rfl⟩ := hs
      obtain ⟨tl', hc, h'⟩ := addtail_spec h ht
      exact ⟨tl', by rw [ThreadlistOp.apply, hc]; rfl, h', fun y hy hy' => absurd (List.mem_append_left _ hy) hy'⟩
  | remhead =>
    simp only [ThreadlistOp.spec, Option.some_inj, Prod.mk.injEq] at hs
    obtain ⟨rfl, rfl⟩ := hs
    cases ts with
    | nil => exact ⟨tl, by rw [ThreadlistOp.apply, remhead_nil h]; rfl, h, fun _ hy => absurd hy List.not_mem_nil⟩
    | cons t v =>
      obtain ⟨tl', hc, h', hu⟩ := remhead_cons h
      refine ⟨tl', by rw [ThreadlistOp.apply, hc]; rfl, h', fun y hy hy' => ?_⟩
      rcases List.mem_cons.1 hy with rfl | hy
      · exact hu
      · exact absurd hy hy'
  | remtail =>
    simp only [ThreadlistOp.spec, Option.some_inj, Prod.mk.injEq] at hs
    obtain ⟨rfl, rfl⟩ := hs
    rcases List.eq_nil_or_concat' ts with rfl | ⟨u, t, rfl⟩
    · exact ⟨tl, by rw [ThreadlistOp.apply, remtail_nil h]; rfl, h, fun _ hy => absurd hy List.not_mem_nil⟩
    · obtain ⟨tl', hc, h', hu⟩ := remtail_concat h
      refine ⟨tl', by rw [ThreadlistOp.apply, hc, List.getLast?_concat]; rfl, by rwa [List.dropLast_concat],
        fun y hy hy' => ?_⟩
      rw [List.dropLast_concat] at hy'
      rcases List.mem_append.1 hy with hy | hy
      · exact absurd hy hy'
      · rw [List.mem_singleton.1 hy]
        exact hu
  | insertafter onlist addee =>
    by_cases hpre : onlist ∈ ts ∧ addee ∉ ts
    · simp only [ThreadlistOp.spec, hpre] at hs
      obtain ⟨rfl, rfl⟩ := hs
      obtain ⟨tl', hc, h'⟩ := insertafter_spec h hpre.1 hpre.2
      exact ⟨tl', by rw [ThreadlistOp.apply, hc]; rfl, h',
        fun y hy hy' => absurd (DList.subset_insertAfter ts hy) hy'⟩
    · simp [ThreadlistOp.spec, hpre] at hs
  | insertbefore addee onlist =>
    by_cases hpre : onlist ∈ ts ∧ addee ∉ ts
    · simp only [ThreadlistOp.spec, hpre] at hs
      obtain ⟨rfl, rfl⟩ := hs
      obtain ⟨tl', hc, h'⟩ := insertbefore_spec h hpre.1 hpre.2
      exact ⟨tl', by rw [ThreadlistOp.apply, hc]; rfl, h',
        fun y hy hy' => absurd (DList.subset_insertBefore ts hy) hy'⟩
    · simp [ThreadlistOp.spec, hpre] at hs
  | remove t =>
    by_cases ht : t ∈ ts
    · simp only [ThreadlistOp.spec, ht, if_true, Option.some_inj, Prod.mk.injEq] at hs
      obtain ⟨rfl, rfl⟩ := hs
      obtain ⟨tl', hc, h', hu⟩ := remove_spec h ht
      refine ⟨tl', by rw [ThreadlistOp.apply, hc]; rfl, h', fun y hy hy' => ?_⟩
      by_cases hyt : y = t
      · exact hyt ▸ hu
      · exact absurd ((List.mem_erase_of_ne hyt).2 hy) hy'
    · simp [ThreadlistOp.spec, ht] at hs
  | isempty =>
    simp only [ThreadlistOp.spec, Option.some_inj, Prod.mk.injEq] at hs
    obtain ⟨rfl, rfl⟩ := hs
    have he : tl.isempty = ts.isEmpty := by
      cases ts <;> simp [isempty, h.count]
    exact ⟨tl, by rw [ThreadlistOp.apply, he], h, fun _ hy hy' => absurd hy hy'⟩

theorem simulates : Simulation.Simulates (Holds (τ := τ)) ThreadlistOp.apply ThreadlistOp.spec :=
  fun _ _ _ _ _ h hs =>
    let ⟨tl', hc, h', _⟩ := step_spec h hs
    ⟨tl', hc, h'⟩

/-- From a thread list holding `ts`, every run of calls that keeps to the
    deque's preconditions answers as the deque does and ends holding the
    deque's threads; each call leaves the threads it takes off with `NULL`
    links; and `threadlist_remhead` and `threadlist_remtail` on an empty list
    answer `NULL` and change nothing. -/
theorem threadlist_refines_deque (h : Holds tl ts) :
    (∀ {os : List (ThreadlistOp τ)} {rs : List (ThreadlistOp.Answer τ)} {ts' : List τ},
      Simulation.run ThreadlistOp.spec ts os = some (rs, ts') →
        ∃ tl', Simulation.run ThreadlistOp.apply tl os = some (rs, tl') ∧ Holds tl' ts') ∧
    (∀ {o : ThreadlistOp τ} {r : ThreadlistOp.Answer τ} {ts' : List τ} {tl' : Threadlist τ},
      ThreadlistOp.spec ts o = some (r, ts') → ThreadlistOp.apply tl o = some (r, tl') →
        ∀ t ∈ ts, t ∉ ts' → tl'.Unlinked t) ∧
    (ts = [] → tl.remhead = some (none, tl) ∧ tl.remtail = some (none, tl)) := by
  refine ⟨fun hrun => Simulation.run_of_simulates simulates h hrun, fun hs hc => ?_, ?_⟩
  · obtain ⟨tl'', hc', -, hu⟩ := step_spec h hs
    rw [hc, Option.some_inj, Prod.mk.injEq] at hc'
    rw [hc'.2]
    exact hu
  · rintro rfl
    exact ⟨remhead_nil h, remtail_nil h⟩

theorem threadlist_refines_deque_of_init :
    ∃ tl', Simulation.run ThreadlistOp.apply (init : Threadlist Nat)
        [.addtail 1, .addhead 2, .insertafter 2 3, .remtail, .remove 2, .isempty] =
        some ([.done, .done, .done, .thread (some 1), .done, .empty false], tl') ∧ Holds tl' [3] :=
  (threadlist_refines_deque holds_init).1 (by decide)

end Threadlist

end Os161
