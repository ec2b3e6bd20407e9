import Mathlib
import Os161.Basic
import Os161.Lib.Simulation

/-!
# Arrays of pointers

kern/lib/array.c keeps `num` pointers in a buffer with room for `max`.
`array_setsize` grows the buffer, when it must, by doubling `max`
(`newmax = newmax ? newmax*2 : 4`), allocating a new buffer and copying the
old elements across; `array_add` is `array_setsize(a, num + 1)` and a store,
and `array_remove` slides the elements after the one removed down by one.
`ARRAYS_CHECKED` is defined, so `ARRAYASSERT` is `KASSERT`.

What the code computes in `unsigned` arithmetic is kept: the doubling wraps
at `2^32`, `kmalloc(newmax * sizeof(*a->v))` gets a byte count modulo `2^32`
(`ptrSlots`), and so do the byte counts of `memcpy` and `memmove`. A slot
past the buffer is read or written only with undefined behaviour, `none`
here, like a failed `KASSERT`. The doubling loop runs at most `fuel` rounds,
and whether `kmalloc` fails is the environment's answer `oom`.

The elements are `contents`, the first `num` slots, a never-written slot being
`none`. `ArrayOp.spec` says what each call does to them; `PtrArray.refines`
proves that every call allowed by the spec refines it, and
`array_refines_list` lifts that to every run of calls. The precondition keeps
sizes to at most `2^29`, below which nothing wraps; above it
`array_setsize_overflows` shows the doubling never ending, or ending with a
buffer smaller than `max`.
-/

namespace Os161

/-- `struct array`: `num` pointers in a buffer of `max`, where `kmalloc` gave
    room for `cap`; `v i` is `none` in a slot never written. -/
structure PtrArray (α : Type*) where
  v : Nat → Option α
  num : Nat
  max : Nat
  cap : Nat

namespace PtrArray

variable {α : Type*}

/-- `array_init(a)`: no elements and no buffer. -/
def init : PtrArray α := ⟨fun _ => none, 0, 0, 0⟩

/-- `a->v[i]`: `none` past the buffer, `some none` in a slot never written. -/
def read (a : PtrArray α) (i : Nat) : Option (Option α) := if i < a.cap then some (a.v i) else none

/-- `a->v[i] = val`: `none` past the buffer. -/
def store (a : PtrArray α) (i : Nat) (val : α) : Option (PtrArray α) :=
  if i < a.cap then some { a with v := Function.update a.v i (some val) } else none

/-- `array_get(a, index)`. -/
def get (a : PtrArray α) (index : Nat) : Option (Option α) :=
  if index < a.num then a.read index else none

/-- `array_set(a, index, val)`. -/
def set (a : PtrArray α) (index : Nat) (val : α) : Option (PtrArray α) :=
  if index < a.num then a.store index val else none

/-- `newmax = newmax ? newmax*2 : 4`, in `unsigned`. -/
def nextMax (newmax : Nat) : Nat := if newmax = 0 then 4 else newmax * 2 % 2 ^ 32

/-- `while (num > newmax) { newmax = newmax ? newmax*2 : 4; }`, at most `fuel`
    rounds. -/
def growMax (fuel newmax num : Nat) : Option Nat :=
  if num > newmax then
    match fuel with
    | 0 => none
    | fuel + 1 => growMax fuel (nextMax newmax) num
  else some newmax

/-- `array_setsize(a, num)`: a new buffer of `newmax` pointers, when `num`
    is past `max`, with the first `a->num` copied across
    (`memcpy(newptr, a->v, a->num*sizeof(*a->v))`); `ENOMEM`, the array
    untouched, when `kmalloc` fails. -/
def setsize (fuel : Nat) (oom : Bool) (a : PtrArray α) (num : Nat) : Option (Except Errno Unit × PtrArray α) :=
  if num > a.max then
    match growMax fuel a.max num with
    | none => none
    | some newmax =>
      if oom then some (.error .enomem, a)
      else
        let copied := ptrSlots a.num
        if copied ≤ ptrSlots newmax ∧ copied ≤ a.cap then
          some (.ok (), ⟨fun i => if i < copied then a.v i else none, num, newmax, ptrSlots newmax⟩)
        else none
  else some (.ok (), { a with num := num })

/-- `array_add(a, val, &index)`: the index is the old `num`. -/
def add (fuel : Nat) (oom : Bool) (a : PtrArray α) (val : α) : Option (Except Errno Nat × PtrArray α) :=
  let index := a.num
  match setsize fuel oom a ((index + 1) % 2 ^ 32) with
  | some (.ok (), a') => (a'.store index val).map fun a'' => (.ok index, a'')
  | some (.error e, a') => some (.error e, a')
  | none => none

/-- `array_remove(a, index)`: `memmove` slides the `num - (index + 1)` slots
    after `index` down by one. -/
def remove (a : PtrArray α) (index : Nat) : Option (PtrArray α) :=
  if a.num ≤ a.max ∧ index < a.num then
    let moved := ptrSlots (a.num - (index + 1))
    if moved = 0 ∨ index + moved < a.cap then
      some { a with
        v := fun i => if index ≤ i ∧ i < index + moved then a.v (i + 1) else a.v i
        num := a.num - 1 }
    else none
  else none

/-- The elements: the first `num` slots. -/
def contents (a : PtrArray α) : List (Option α) := (List.range a.num).map a.v

/-- The representation invariant: `num ≤ max`, and a buffer with room for
    `max`. -/
structure Valid (a : PtrArray α) : Prop where
  num_le : a.num ≤ a.max
  max_le : a.max ≤ a.cap

variable {a : PtrArray α} {fuel num newmax : Nat}

@[simp] theorem length_contents (a : PtrArray α) : a.contents.length = a.num := by
  rw [contents, List.length_map, List.length_range]

theorem getElem_contents {i : Nat} (h : i < a.contents.length) : a.contents[i] = a.v i := by
  simp [contents]

theorem growMax_of_le (h : num ≤ newmax) : growMax fuel newmax num = some newmax := by
  rw [growMax.eq_def, if_neg (by omega)]

theorem growMax_succ (h : newmax < num) : growMax (fuel + 1) newmax num = growMax fuel (nextMax newmax) num := by
  rw [growMax.eq_def, if_pos h]

/-- Doubling a positive `newmax` towards `num ≤ 2^29`, with rounds enough,
    stops below twice `num`. -/
theorem growMax_of_pos (hnum : num ≤ 2 ^ 29) : ∀ fuel newmax, 0 < newmax → newmax < num →
    num ≤ newmax * 2 ^ fuel → ∃ m, growMax fuel newmax num = some m ∧ num ≤ m ∧ m < 2 * num
  | 0, newmax, _, hlt, hle => by
    rw [Nat.pow_zero, Nat.mul_one] at hle
    omega
  | fuel + 1, newmax, hpos, hlt, hle => by
    have hnext : nextMax newmax = newmax * 2 := by
      rw [nextMax, if_neg (by omega), Nat.mod_eq_of_lt (by omega)]
    rw [growMax_succ hlt, hnext]
    by_cases h2 : num ≤ newmax * 2
    · exact ⟨_, growMax_of_le h2, h2, by omega⟩
    · refine growMax_of_pos hnum fuel (newmax * 2) (by omega) (by omega) ?_
      rwa [Nat.pow_succ, Nat.mul_comm (2 ^ fuel) 2, ← Nat.mul_assoc] at hle

/-- With `num` past `max` and at most `2^29`, 32 rounds take `newmax` to
    between `num` and `2^30`. -/
theorem growMax_spec {max : Nat} (hlt : max < num) (hnum : num ≤ 2 ^ 29) (hfuel : 32 ≤ fuel) :
    ∃ m, growMax fuel max num = some m ∧ num ≤ m ∧ m < 2 ^ 30 := by
  have hpow : 2 ^ 31 ≤ 2 ^ (fuel - 1) := Nat.pow_le_pow_right (by decide) (by omega)
  by_cases h0 : max = 0
  · -- `0` becomes `4`, and doubling starts from there
    subst h0
    obtain ⟨f, rfl⟩ : ∃ f, fuel = f + 1 := ⟨fuel - 1, by omega⟩
    rw [growMax_succ hlt, show nextMax 0 = 4 from rfl]
    by_cases h4 : num ≤ 4
    · exact ⟨4, growMax_of_le h4, h4, by decide⟩
    · obtain ⟨m, hm, hlo, hhi⟩ := growMax_of_pos hnum f 4 (by decide) (by omega) (by
        rw [Nat.add_sub_cancel] at hpow
        omega)
      exact ⟨m, hm, hlo, by omega⟩
  · obtain ⟨m, hm, hlo, hhi⟩ := growMax_of_pos hnum fuel max (by omega) hlt (by
      have : 2 ^ (fuel - 1) ≤ 2 ^ fuel := Nat.pow_le_pow_right (by decide) (by omega)
      have : 2 ^ fuel ≤ max * 2 ^ fuel := Nat.le_mul_of_pos_left _ (by omega)
      omega)
    exact ⟨m, hm, hlo, by omega⟩


/-- Two arrays whose slots agree below both lengths agree on their common
    prefix. -/
theorem contents_take_of_agree {b : PtrArray α} (h : ∀ i < min a.num b.num, b.v i = a.v i) :
    b.contents.take a.num = a.contents.take b.num := by
  refine List.ext_getElem (by simp [Nat.min_comm]) fun i h1 h2 => ?_
  simp only [List.length_take, length_contents] at h1
  rw [List.getElem_take, List.getElem_take, getElem_contents, getElem_contents]
  exact h i h1

/-- `array_setsize` to at most `2^29` keeps the first `min num n` slots and
    has `n` elements; or `kmalloc` fails and nothing changes. -/
theorem setsize_spec (hv : a.Valid) (hnum : a.num ≤ 2 ^ 29) {n : Nat} (hn : n ≤ 2 ^ 29) (hfuel : 32 ≤ fuel)
    (oom : Bool) :
    (∃ a', a.setsize fuel oom n = some (.ok (), a') ∧ a'.Valid ∧ a'.num = n ∧
      ∀ i < min a.num n, a'.v i = a.v i) ∨
    (oom = true ∧ a.setsize fuel oom n = some (.error .enomem, a)) := by
  by_cases hgt : n > a.max
  · obtain ⟨m, hm, hlo, hhi⟩ := growMax_spec hgt hn hfuel
    have hstep : a.setsize fuel oom n = if oom then some (.error .enomem, a) else
        if ptrSlots a.num ≤ ptrSlots m ∧ ptrSlots a.num ≤ a.cap then
          some (.ok (), ⟨fun i => if i < ptrSlots a.num then a.v i else none, n, m, ptrSlots m⟩)
        else none := by
      rw [setsize, if_pos hgt, hm]
    cases oom with
    | true => exact .inr ⟨rfl, hstep⟩
    | false =>
      -- no byte count wraps: the old elements are all copied, into room for `m`
      rw [ptrSlots_of_lt (show a.num < 2 ^ 30 by omega), ptrSlots_of_lt hhi] at hstep
      have hcopy : a.num ≤ m ∧ a.num ≤ a.cap := ⟨by have := hv.num_le; omega, Nat.le_trans hv.num_le hv.max_le⟩
      rw [if_neg Bool.false_ne_true, if_pos hcopy] at hstep
      exact .inl ⟨_, hstep, ⟨hlo, Nat.le_refl m⟩, rfl, fun i hi => if_pos (by omega)⟩
  · exact .inl ⟨{ a with num := n }, by rw [setsize, if_neg hgt], ⟨show n ≤ a.max by omega, hv.max_le⟩, rfl,
    fun _ _ => rfl⟩


theorem store_spec {i : Nat} (hi : i < a.cap) (val : α) :
    a.store i val = some { a with v := Function.update a.v i (some val) } := by
  rw [store, if_pos hi]

/-- `array_add` below `2^29` elements appends `val` at index `num`; or
    `kmalloc` fails and nothing changes. -/
theorem add_spec (hv : a.Valid) (hnum : a.num + 1 ≤ 2 ^ 29) (hfuel : 32 ≤ fuel) (oom : Bool) (val : α) :
    (∃ a', a.add fuel oom val = some (.ok a.num, a') ∧ a'.Valid ∧ a'.contents = a.contents ++ [some val]) ∨
    (oom = true ∧ a.add fuel oom val = some (.error .enomem, a)) := by
  have hwrap : (a.num + 1) % 2 ^ 32 = a.num + 1 := Nat.mod_eq_of_lt (by omega)
  rcases setsize_spec hv (by omega) hnum hfuel oom with ⟨a₁, hset, hv₁, hnum₁, hagree⟩ | ⟨rfl, hset⟩
  · -- the new last slot is in the buffer, and the store fills it
    have hcap : a.num < a₁.cap := by
      have := hv₁.num_le
      have := hv₁.max_le
      omega
    refine .inl ⟨{ a₁ with v := Function.update a₁.v a.num (some val) }, ?_, ⟨hv₁.num_le, hv₁.max_le⟩, ?_⟩
    · rw [add, hwrap, hset]
      dsimp only
      rw [store_spec hcap]
      rfl
    · simp only [contents, hnum₁, List.range_succ, List.map_append, List.map_cons, List.map_nil,
        Function.update_self]
      congr 1
      refine List.map_congr_left fun i hi => ?_
      have hi := List.mem_range.1 hi
      rw [Function.update_of_ne (by omega), hagree i (by omega)]
  · refine .inr ⟨rfl, ?_⟩
    rw [add, hwrap, hset]

/-- `array_get` at an index below `num`. -/
theorem get_spec (hv : a.Valid) {i : Nat} (hi : i < a.num) : a.get i = some (a.v i) := by
  rw [get, if_pos hi, read, if_pos (by have := hv.num_le; have := hv.max_le; omega)]

/-- `array_set` at an index below `num`. -/
theorem set_spec (hv : a.Valid) {i : Nat} (hi : i < a.num) (val : α) :
    ∃ a', a.set i val = some a' ∧ a'.Valid ∧ a'.contents = a.contents.set i (some val) := by
  have hcap : i < a.cap := by
    have := hv.num_le
    have := hv.max_le
    omega
  refine ⟨{ a with v := Function.update a.v i (some val) }, by rw [set, if_pos hi, store_spec hcap],
    ⟨hv.num_le, hv.max_le⟩, ?_⟩
  refine List.ext_getElem (by simp) fun j h1 h2 => ?_
  simp only [contents, List.getElem_map, List.getElem_range, List.getElem_set]
  by_cases hj : i = j
  · subst hj
    simp
  · rw [if_neg hj, Function.update_of_ne (Ne.symm hj)]

/-- `array_remove` at an index below `num`, with at most `2^29` elements:
    the element is taken out and the others keep their order. -/
theorem remove_spec (hv : a.Valid) (hnum : a.num ≤ 2 ^ 29) {i : Nat} (hi : i < a.num) :
    ∃ a', a.remove i = some a' ∧ a'.Valid ∧ a'.contents = a.contents.eraseIdx i := by
  have hmoved : ptrSlots (a.num - (i + 1)) = a.num - (i + 1) := ptrSlots_of_lt (by omega)
  have hcap : a.num ≤ a.cap := Nat.le_trans hv.num_le hv.max_le
  refine ⟨{ a with
      v := fun j => if i ≤ j ∧ j < i + (a.num - (i + 1)) then a.v (j + 1) else a.v j
      num := a.num - 1 }, ?_, ⟨show a.num - 1 ≤ a.max by have := hv.num_le; omega, hv.max_le⟩, ?_⟩
  · rw [remove, if_pos ⟨hv.num_le, hi⟩]
    dsimp only
    rw [hmoved, if_pos (by omega)]
  · refine List.ext_getElem (by simp [List.length_eraseIdx_of_lt (show i < a.contents.length by simpa)])
      fun j h1 h2 => ?_
    simp only [length_contents] at h1
    rw [getElem_contents, List.getElem_eraseIdx]
    split
    · rw [getElem_contents]
      exact if_neg (by omega)
    · rw [getElem_contents]
      exact if_pos (by omega)


end PtrArray

/-! ## What an array is for

A list of elements, a never-written one being `none`: `array_add` appends,
`array_remove` takes one out and keeps the others in order, `array_setsize`
cuts the list to its first `n` or extends it to `n` with unspecified new
elements, and `array_get` and `array_set` read and write one. The calls that
may allocate may fail with `ENOMEM` instead, where `kmalloc` fails, and then
change nothing.
-/

/-- The calls on an array; `oom` is what `kmalloc` answers, should the call
    allocate. -/
inductive ArrayOp (α : Type*)
  | num
  | get (index : Nat)
  | set (index : Nat) (val : α)
  | setsize (num : Nat) (oom : Bool)
  | add (val : α) (oom : Bool)
  | remove (index : Nat)

namespace ArrayOp

variable {α : Type*}

/-- A call's answer. -/
inductive Answer (α : Type*)
  | count (n : Nat)
  | ptr (p : Option α)
  | status (r : Except Errno Unit)
  | index (r : Except Errno Nat)
  | done

/-- A call on the array, the doubling loop running at most `fuel` rounds. -/
def apply (fuel : Nat) (a : PtrArray α) : ArrayOp α → Option (Answer α × PtrArray α)
  | num => some (.count a.num, a)
  | get index => (a.get index).map fun p => (.ptr p, a)
  | set index val => (a.set index val).map fun a' => (.done, a')
  | setsize n oom => (a.setsize fuel oom n).map fun (r, a') => (.status r, a')
  | add val oom => (a.add fuel oom val).map fun (r, a') => (.index r, a')
  | remove index => (a.remove index).map fun a' => (.done, a')

/-- What a call does to the elements. -/
def spec : List (Option α) → ArrayOp α → Answer α → List (Option α) → Prop
  | xs, num, r, ys => r = .count xs.length ∧ ys = xs
  | xs, get index, r, ys => r = .ptr (xs.getD index none) ∧ ys = xs
  | xs, set index val, r, ys => r = .done ∧ ys = xs.set index (some val)
  | xs, setsize n oom, r, ys =>
    (r = .status (.ok ()) ∧ ys.length = n ∧ ys.take xs.length = xs.take n) ∨
      (oom = true ∧ r = .status (.error .enomem) ∧ ys = xs)
  | xs, add val oom, r, ys =>
    (r = .index (.ok xs.length) ∧ ys = xs ++ [some val]) ∨
      (oom = true ∧ r = .index (.error .enomem) ∧ ys = xs)
  | xs, remove index, r, ys => r = .done ∧ ys = xs.eraseIdx index

/-- The callers' side: the `ARRAYASSERT`s on the index, and sizes of at most
    `2^29`, below which no `unsigned` product wraps. -/
def pre : List (Option α) → ArrayOp α → Prop
  | _, num => True
  | xs, get index => index < xs.length
  | xs, set index _ => index < xs.length
  | _, setsize n _ => n ≤ 2 ^ 29
  | xs, add _ _ => xs.length + 1 ≤ 2 ^ 29
  | xs, remove index => index < xs.length

end ArrayOp

namespace PtrArray

variable {α : Type*} {a : PtrArray α} {xs : List (Option α)}

/-- The array holds the elements `xs`: it is valid, with at most `2^29`
    elements, and its first `num` slots are `xs`. -/
structure Holds (a : PtrArray α) (xs : List (Option α)) : Prop where
  valid : a.Valid
  num_le : a.num ≤ 2 ^ 29
  contents : a.contents = xs

theorem holds_init : Holds (init : PtrArray α) [] := ⟨⟨Nat.le_refl 0, Nat.le_refl 0⟩, Nat.zero_le _, rfl⟩

/-- Every call the spec allows is one the array makes, with an answer the
    spec allows. -/
theorem refines {fuel : Nat} (hfuel : 32 ≤ fuel) :
    Simulation.Refines (Holds (α := α)) (ArrayOp.apply fuel) ArrayOp.pre ArrayOp.spec := by
  intro a xs o h hpre
  obtain ⟨hv, hnum, rfl⟩ := h
  cases o with
  | num => exact ⟨_, a, rfl, _, ⟨by rw [length_contents], rfl⟩, ⟨hv, hnum, rfl⟩⟩
  | get i =>
    have hi : i < a.num := by simpa [ArrayOp.pre] using hpre
    refine ⟨_, a, by rw [ArrayOp.apply, get_spec hv hi]; rfl, _, ⟨?_, rfl⟩, ⟨hv, hnum, rfl⟩⟩
    rw [List.getD_eq_getElem?_getD, List.getElem?_eq_getElem (by simpa using hi), Option.getD_some,
      getElem_contents]
  | set i val =>
    have hi : i < a.num := by simpa [ArrayOp.pre] using hpre
    obtain ⟨a', ha', hv', hc'⟩ := set_spec hv hi val
    have hnum' : a'.num = a.num := by rw [← length_contents, hc', List.length_set, length_contents]
    exact ⟨_, a', by rw [ArrayOp.apply, ha']; rfl, _, ⟨rfl, hc'⟩, ⟨hv', hnum' ▸ hnum, rfl⟩⟩
  | setsize n oom =>
    rcases setsize_spec hv hnum hpre hfuel oom with ⟨a', ha', hv', hnum', hagree⟩ | ⟨rfl, ha'⟩
    · refine ⟨_, a', by rw [ArrayOp.apply, ha']; rfl, _, .inl ⟨rfl, by rw [length_contents, hnum'], ?_⟩,
        ⟨hv', hnum' ▸ hpre, rfl⟩⟩
      rw [length_contents, ← hnum']
      exact contents_take_of_agree (hnum' ▸ hagree)
    · exact ⟨_, a, by rw [ArrayOp.apply, ha']; rfl, _, .inr ⟨rfl, rfl, rfl⟩, ⟨hv, hnum, rfl⟩⟩
  | add val oom =>
    have hpre : a.num + 1 ≤ 2 ^ 29 := by simpa [ArrayOp.pre] using hpre
    rcases add_spec hv hpre hfuel oom val with ⟨a', ha', hv', hc'⟩ | ⟨rfl, ha'⟩
    · have hnum' : a'.num = a.num + 1 := by
        rw [← length_contents, hc', List.length_append, length_contents, List.length_singleton]
      refine ⟨_, a', by rw [ArrayOp.apply, ha']; rfl, _, .inl ⟨by rw [length_contents], hc'⟩,
        ⟨hv', by omega, rfl⟩⟩
    · exact ⟨_, a, by rw [ArrayOp.apply, ha']; rfl, _, .inr ⟨rfl, rfl, rfl⟩, ⟨hv, hnum, rfl⟩⟩
  | remove i =>
    have hi : i < a.num := by simpa [ArrayOp.pre] using hpre
    obtain ⟨a', ha', hv', hc'⟩ := remove_spec hv hnum hi
    have hnum' : a'.num ≤ a.num := by
      rw [← length_contents a', hc', List.length_eraseIdx_of_lt (by simpa using hi), length_contents]
      omega
    exact ⟨_, a', by rw [ArrayOp.apply, ha']; rfl, _, ⟨rfl, hc'⟩, ⟨hv', Nat.le_trans hnum' hnum, rfl⟩⟩

/-- From an array holding `xs`, every run of calls keeps to the list spec as
    long as the callers keep to theirs: it goes through as a run of the spec,
    or as far as a call whose precondition fails. -/
theorem array_refines_list {fuel : Nat} (hfuel : 32 ≤ fuel) (h : Holds a xs) (os : List (ArrayOp α)) :
    (∃ rs a' ys, Simulation.run (ArrayOp.apply fuel) a os = some (rs, a') ∧
        Simulation.SpecRun ArrayOp.pre ArrayOp.spec xs os rs ys ∧ Holds a' ys) ∨
      (∃ os₁ o os₂ rs₁ a₁ ys₁, os = os₁ ++ o :: os₂ ∧ Simulation.run (ArrayOp.apply fuel) a os₁ = some (rs₁, a₁) ∧
        Simulation.SpecRun ArrayOp.pre ArrayOp.spec xs os₁ rs₁ ys₁ ∧ Holds a₁ ys₁ ∧ ¬ ArrayOp.pre ys₁ o) :=
  Simulation.run_of_refines (refines hfuel) os h

theorem array_refines_list_of_init :
    (∃ rs a' ys, Simulation.run (ArrayOp.apply 32) init
        [.add 7 false, .add 8 true, .remove 0, .setsize 3 false, .get 0] = some (rs, a') ∧
        Simulation.SpecRun ArrayOp.pre ArrayOp.spec [] [.add 7 false, .add 8 true, .remove 0, .setsize 3 false, .get 0]
          rs ys ∧ Holds a' ys) ∨
      (∃ os₁ o os₂ rs₁ a₁ ys₁, [.add 7 false, .add 8 true, .remove 0, .setsize 3 false, .get 0] = os₁ ++ o :: os₂ ∧
        Simulation.run (ArrayOp.apply 32) init os₁ = some (rs₁, a₁) ∧
        Simulation.SpecRun ArrayOp.pre ArrayOp.spec [] os₁ rs₁ ys₁ ∧ Holds a₁ ys₁ ∧ ¬ ArrayOp.pre ys₁ o) :=
  array_refines_list (Nat.le_refl 32) holds_init _

/-- From `0`, `newmax` goes through the powers of two from `4` to `2^31` and
    back to `0`, as `2^31 * 2` wraps: it never passes `2^31`, and for a larger
    `num` the loop never ends. -/
theorem growMax_of_wrap {num : Nat} (hnum : 2 ^ 31 < num) :
    ∀ fuel newmax, (newmax = 0 ∨ ∃ j, 2 ≤ j ∧ j ≤ 31 ∧ newmax = 2 ^ j) → growMax fuel newmax num = none := by
  intro fuel
  induction fuel with
  | zero =>
    intro newmax h
    have hlt : newmax < num := by
      rcases h with rfl | ⟨j, -, hj, rfl⟩
      · omega
      · have := Nat.pow_le_pow_right (show 0 < 2 by decide) hj
        omega
    rw [growMax.eq_def, if_pos hlt]
  | succ fuel ih =>
    intro newmax h
    have hlt : newmax < num := by
      rcases h with rfl | ⟨j, -, hj, rfl⟩
      · omega
      · have := Nat.pow_le_pow_right (show 0 < 2 by decide) hj
        omega
    rw [growMax_succ hlt]
    refine ih _ ?_
    rcases h with rfl | ⟨j, hj2, hj31, rfl⟩
    · exact .inr ⟨2, Nat.le_refl 2, by decide, rfl⟩
    · rcases Nat.lt_or_ge j 31 with hj | hj
      · have hpow : 2 ^ j < 2 ^ 31 := Nat.pow_lt_pow_right (by decide) hj
        refine .inr ⟨j + 1, by omega, by omega, ?_⟩
        rw [nextMax, if_neg (Nat.pos_iff_ne_zero.1 (Nat.two_pow_pos j)), Nat.mod_eq_of_lt (by omega), Nat.pow_succ]
      · obtain rfl : j = 31 := by omega
        exact .inl rfl

/-- From a power of two `2^j`, `4 ≤ 2^j ≤ 2^31`, towards `num ≤ 2^31`, with
    rounds enough, the doubling ends at a power of two at most `2^31`. -/
theorem growMax_of_pow {num : Nat} (hnum : num ≤ 2 ^ 31) : ∀ fuel j, j ≤ 31 → 31 ≤ j + fuel →
    ∃ k, k ≤ 31 ∧ growMax fuel (2 ^ j) num = some (2 ^ k) ∧ num ≤ 2 ^ k := by
  intro fuel
  induction fuel with
  | zero =>
    intro j hj hfuel
    obtain rfl : j = 31 := by omega
    exact ⟨31, Nat.le_refl _, growMax_of_le hnum, hnum⟩
  | succ fuel ih =>
    intro j hj hfuel
    by_cases hle : num ≤ 2 ^ j
    · exact ⟨j, hj, growMax_of_le hle, hle⟩
    · have hj31 : j < 31 := by
        by_contra hge
        have := Nat.pow_le_pow_right (show 0 < 2 by decide) (show 31 ≤ j by omega)
        omega
      have hnext : nextMax (2 ^ j) = 2 ^ (j + 1) := by
        have hpow : 2 ^ j < 2 ^ 31 := Nat.pow_lt_pow_right (by decide) hj31
        rw [nextMax, if_neg (Nat.pos_iff_ne_zero.1 (Nat.two_pow_pos j)), Nat.mod_eq_of_lt (by omega), Nat.pow_succ]
      rw [growMax_succ (by omega), hnext]
      exact ih (j + 1) (by omega) (by omega)

/-- `array_setsize` of an empty array to `n`, `2^29 < n ≤ 2^31`: `max`
    doubles to `2^30` or `2^31`, whose byte count wraps to 0, and the call
    returns 0 with a buffer of no slots. -/
theorem setsize_init_of_wrap {n : Nat} (hlo : 2 ^ 29 < n) (hhi : n ≤ 2 ^ 31) {fuel : Nat} (hfuel : 32 ≤ fuel) :
    ∃ k, 30 ≤ k ∧ (init : PtrArray α).setsize fuel false n =
      some (.ok (), ⟨fun i => if i < ptrSlots 0 then (init : PtrArray α).v i else none, n, 2 ^ k, 0⟩) := by
  obtain ⟨f, rfl⟩ : ∃ f, fuel = f + 1 := ⟨fuel - 1, by omega⟩
  obtain ⟨k, hk, hgrow, hnk⟩ := growMax_of_pow hhi f 2 (by decide) (by omega)
  -- `num` past `2^29` puts `newmax` at `2^30` or `2^31`, whose byte counts wrap to 0
  have hk30 : 30 ≤ k := by
    by_contra hlt
    have := Nat.pow_le_pow_right (show 0 < 2 by decide) (show k ≤ 29 by omega)
    omega
  have hroom : ptrSlots (2 ^ k) = 0 := by
    rcases (show k = 30 ∨ k = 31 by omega) with rfl | rfl <;> decide
  have hg : growMax (f + 1) (init : PtrArray α).max n = some (2 ^ k) := by
    rw [growMax_succ (show (init : PtrArray α).max < n by change 0 < n; omega)]
    exact hgrow
  refine ⟨k, hk30, ?_⟩
  rw [setsize, if_pos (show n > (init : PtrArray α).max by change n > 0; omega), hg]
  simp only [Bool.false_eq_true, if_false, hroom]
  have hcopy : ptrSlots (init : PtrArray α).num ≤ 0 ∧ ptrSlots (init : PtrArray α).num ≤ (init : PtrArray α).cap := by
    simp [init, ptrSlots]
  rw [if_pos hcopy]
  rfl

/-- `array_setsize` on an empty array, for a `num` past `2^29`: past `2^31`
    the doubling never ends, whatever the fuel; up to `2^31` it returns 0
    with a `max` whose byte count wrapped, so that the buffer has room for
    fewer than `max` pointers. -/
theorem array_setsize_overflows :
    (∀ n, 2 ^ 31 < n → ∀ fuel oom, (init : PtrArray α).setsize fuel oom n = none) ∧
    (∀ n, 2 ^ 29 < n → n ≤ 2 ^ 31 → ∀ fuel, 32 ≤ fuel →
      ∃ a', (init : PtrArray α).setsize fuel false n = some (.ok (), a') ∧ a'.num = n ∧ a'.cap < a'.max) := by
  refine ⟨fun n hn fuel oom => ?_, fun n hlo hhi fuel hfuel => ?_⟩
  · rw [setsize, if_pos (show n > (init : PtrArray α).max by change n > 0; omega),
      growMax_of_wrap hn fuel (init : PtrArray α).max (.inl rfl)]
  · obtain ⟨k, -, h⟩ := setsize_init_of_wrap (α := α) hlo hhi hfuel
    exact ⟨_, h, rfl, Nat.two_pow_pos k⟩

theorem array_setsize_overflows_on_init :
    (∀ fuel oom, (init : PtrArray Nat).setsize fuel oom (2 ^ 31 + 1) = none) ∧
    ∃ a', (init : PtrArray Nat).setsize 32 false (2 ^ 30 + 1) = some (.ok (), a') ∧ a'.num = 2 ^ 30 + 1 ∧
      a'.cap < a'.max :=
  ⟨array_setsize_overflows.1 _ (by decide), array_setsize_overflows.2 _ (by decide) (by decide) 32 (Nat.le_refl _)⟩

end PtrArray
end Os161
