import Os161.Basic
import Os161.Lib.Ring
import Os161.Lib.Simulation

/-!
# Queues

kern/lib/queue.c keeps a queue of pointers in a circular buffer of `size`
slots, read at `nextread` and written at `nextwrite`. The queue is empty when
the two meet and full one slot earlier, so it holds at most `size - 1`
elements. `q_addtail` on a full queue calls `q_grow`, which doubles the size
until it reaches its target, allocates a new buffer, and adds the old elements
to it by calling `q_addtail` again.

What the code computes, and where it can go wrong, is kept:

* `q_grow`'s `nsize *= 2` is an `int` product: once it reaches `2^31` it is
  negative and `KASSERT(nsize > 0)` fails (`doubleUntil`);
* `kmalloc(nsize * sizeof(void *))` multiplies in a 32-bit `size_t`: the
  buffer has room for the bytes asked for modulo `2^32` (`ptrSlots`), and a
  slot past that room, or one never written, is read or written only with
  undefined behaviour (`none`);
* whether `kmalloc` fails is up to the environment: a call carries the answer
  `oom` that `kmalloc` would give it;
* `q_addtail` and `q_grow` call each other, and `addtail depth` stops
  (`none`) more than `depth` calls deep;
* the loops of `q_grow` and `q_len` stop after `size` rounds, by which time
  they have ended on every valid queue.

The elements are the view of the buffer from `nextread`, `count` places on
(`Queue.contents`, over `Ring.view`). `QueueOp.spec` says what each call does
to them, and `Queue.Holds` relates a queue to its elements; `Queue.refines`
proves that every call refines the spec, which `queue_refines_fifo` lifts to
every run of calls. The spec's precondition keeps the sizes below where the
`int` and `size_t` products wrap; `preallocate_past_bound` is what happens
past them.
-/

namespace Os161

/-- `struct queue`, with the room `cap` of the buffer `kmalloc` gave it. -/
structure Queue (α : Type*) where
  size : Nat
  nextwrite : Nat
  nextread : Nat
  data : Nat → Option α
  cap : Nat

namespace Queue

variable {α : Type*}

/-- `q->data[i]`: `none` past the buffer or in a slot never written. -/
def slot (q : Queue α) (i : Nat) : Option α := if i < q.cap then q.data i else none

/-- `q_create(size)`, its `kmalloc`s succeeding. -/
def create (size : Nat) : Queue α := ⟨size, 0, 0, fun _ => none, ptrSlots size⟩

/-- `while (nsize < targetsize) { nsize *= 2; KASSERT(nsize > 0); }`, in
    `int`. -/
def doubleUntil (nsize targetsize : Nat) : Option Nat :=
  if nsize < targetsize then
    if h : 0 < nsize * 2 ∧ nsize * 2 < 2 ^ 31 then doubleUntil (nsize * 2) targetsize else none
  else some nsize
termination_by 2 ^ 31 - nsize
decreasing_by omega

/-- `q->data[q->nextwrite] = ptr; q->nextwrite = nextnext; return 0;` -/
def put (q : Queue α) (ptr : α) (nextnext : Nat) : Option (Except Errno Unit × Queue α) :=
  if q.nextwrite < q.cap then
    some (.ok (), { q with data := Function.update q.data q.nextwrite (some ptr), nextwrite := nextnext })
  else none

/-- The loop of `q_grow`: `q_addtail(q, olddata[i])` for `i` from the old
    `nextread` round to the old `nextwrite`, each `KASSERT`ed to succeed; at
    most `fuel` rounds. `add` is `q_addtail`. -/
def regrow (add : Queue α → α → Option (Except Errno Unit × Queue α)) (old : Queue α) (fuel i : Nat)
    (q : Queue α) : Option (Queue α) :=
  if i = old.nextwrite then some q
  else
    match fuel, old.slot i with
    | fuel + 1, some x =>
      match add q x with
      | some (.ok (), q') => regrow add old fuel ((i + 1) % old.size) q'
      | _ => none
    | _, _ => none

/-- `q_grow(q, targetsize)`, adding the old elements to the new buffer with
    `add`; `ENOMEM`, the queue untouched, when `kmalloc` fails. -/
def grow (add : Queue α → α → Option (Except Errno Unit × Queue α)) (oom : Bool) (q : Queue α)
    (targetsize : Nat) : Option (Except Errno Unit × Queue α) :=
  match doubleUntil q.size targetsize with
  | none => none
  | some nsize =>
    if oom then some (.error .enomem, q)
    else (regrow add q q.size q.nextread ⟨nsize, 0, 0, fun _ => none, ptrSlots nsize⟩).map
      fun q' => (.ok (), q')

/-- `q_addtail(q, ptr)`, at most `depth` calls deep. -/
def addtail : Nat → Bool → Queue α → α → Option (Except Errno Unit × Queue α)
  | 0, _, _, _ => none
  | depth + 1, oom, q, ptr =>
    if q.size = 0 then none
    else if (q.nextwrite + 1) % q.size = q.nextread then
      match grow (addtail depth oom) oom q (q.size + 1) with
      | some (.ok (), q') => put q' ptr ((q'.nextwrite + 1) % q'.size)
      | r => r
    else put q ptr ((q.nextwrite + 1) % q.size)

/-- `q_preallocate(q, size)`. -/
def preallocate (depth : Nat) (oom : Bool) (q : Queue α) (size : Nat) :
    Option (Except Errno Unit × Queue α) :=
  if q.size = 0 then none
  else if size > q.size then grow (addtail depth oom) oom q size
  else some (.ok (), q)

/-- `q_remhead(q)`. -/
def remhead (q : Queue α) : Option (α × Queue α) :=
  if q.size = 0 ∨ q.nextwrite = q.nextread then none
  else (q.slot q.nextread).map fun x => (x, { q with nextread := (q.nextread + 1) % q.size })

/-- `q_peek(q)`, `NULL` being `none` inside. -/
def peek (q : Queue α) : Option (Option α) :=
  if q.size = 0 then none
  else if q.nextwrite = q.nextread then some none
  else (q.slot q.nextread).map some

/-- The loop of `q_len`, at most `fuel` rounds. -/
def lenLoop (q : Queue α) (fuel tmp count : Nat) : Option Nat :=
  if tmp = q.nextwrite then some count
  else
    match fuel with
    | 0 => none
    | fuel + 1 => lenLoop q fuel ((tmp + 1) % q.size) (count + 1)

/-- `q_len(q)`. -/
def len (q : Queue α) : Option Nat := q.lenLoop q.size q.nextread 0

/-- How many elements the queue holds: the places from `nextread` on to
    `nextwrite`. -/
def count (q : Queue α) : Nat := Ring.dist q.size q.nextread q.nextwrite

/-- The elements, oldest first: `data[nextread]`, `data[(nextread + 1) % size]`,
    and so on up to `nextwrite`. -/
def contents (q : Queue α) : List (Option α) := Ring.view q.slot q.size q.nextread q.count

/-- The representation invariant: a positive size, both positions inside it,
    and a buffer with room for all of it. -/
structure Valid (q : Queue α) : Prop where
  size_pos : 0 < q.size
  nextread_lt : q.nextread < q.size
  nextwrite_lt : q.nextwrite < q.size
  size_le_cap : q.size ≤ q.cap

variable {q : Queue α} {n t : Nat}

theorem doubleUntil_of_le (h : t ≤ n) : doubleUntil n t = some n := by
  rw [doubleUntil, if_neg (by omega)]

theorem doubleUntil_of_lt (h : n < t) (h2 : 0 < n * 2 ∧ n * 2 < 2 ^ 31) :
    doubleUntil n t = doubleUntil (n * 2) t := by
  rw [doubleUntil, if_pos h, dif_pos h2]

theorem doubleUntil_spec (hn : 0 < n) (hnt : n < t) (ht : t ≤ 2 ^ 30) :
    ∃ m, doubleUntil n t = some m ∧ t ≤ m ∧ m < 2 * t ∧ ∃ k, m = n * 2 ^ k := by
  fun_induction doubleUntil n t with
  | case1 n hlt h ih =>
    by_cases h2 : n * 2 < t
    · obtain ⟨m, hm, hlo, hhi, k, rfl⟩ := ih (by omega) h2
      exact ⟨_, hm, hlo, hhi, k + 1, by rw [Nat.pow_succ, Nat.mul_assoc, Nat.mul_comm 2]⟩
    · exact ⟨n * 2, doubleUntil_of_le (by omega), by omega, by omega, 1, by rw [Nat.pow_one]⟩
  | case2 n hlt h => exact absurd ⟨by omega, by omega⟩ h
  | case3 n hge => omega

theorem Valid.count_lt (hv : q.Valid) : q.count < q.size := Ring.dist_lt hv.size_pos

@[simp] theorem length_contents (q : Queue α) : q.contents.length = q.count := Ring.view_length ..

/-- The full test of `q_addtail`: one more element would fill the round. -/
theorem Valid.full_iff (hv : q.Valid) : (q.nextwrite + 1) % q.size = q.nextread ↔ q.count + 1 = q.size :=
  (Ring.dist_add_one_eq_iff hv.nextread_lt hv.nextwrite_lt).symm

/-- The test of `q_empty`. -/
theorem Valid.empty_iff (hv : q.Valid) : q.nextwrite = q.nextread ↔ q.count = 0 := by
  constructor
  · intro h
    unfold count
    rw [h, Ring.dist_self]
  · intro h
    have hidx : Ring.index q.size q.nextread q.count = q.nextwrite := Ring.index_dist hv.nextread_lt hv.nextwrite_lt
    rw [h, Ring.index_zero hv.nextread_lt] at hidx
    exact hidx.symm

theorem Valid.index_count (hv : q.Valid) : Ring.index q.size q.nextread q.count = q.nextwrite :=
  Ring.index_dist hv.nextread_lt hv.nextwrite_lt

/-- A queue whose elements start with `x` has `x` in its read slot, and the
    rest from the next slot on. -/
theorem contents_eq_cons (hv : q.Valid) {x : Option α} {rest : List (Option α)} (hc : q.contents = x :: rest) :
    q.slot q.nextread = x ∧ q.count = rest.length + 1 ∧ Ring.view q.slot q.size ((q.nextread + 1) % q.size) rest.length = rest := by
  have hcount : q.count = rest.length + 1 := by rw [← length_contents, hc, List.length_cons]
  unfold contents at hc
  rw [hcount, Ring.view_pop, Ring.index_zero hv.nextread_lt, List.cons.injEq] at hc
  exact ⟨hc.1, hcount, hc.2⟩

/-- `q_addtail`'s store, on a queue that is not full: the element joins the
    tail. -/
theorem put_spec (hv : q.Valid) (hnf : q.count + 1 < q.size) (ptr : α) :
    ∃ q', q.put ptr ((q.nextwrite + 1) % q.size) = some (.ok (), q') ∧ q'.Valid ∧ q'.size = q.size ∧
      q'.contents = q.contents ++ [some ptr] := by
  have hcap : q.nextwrite < q.cap := Nat.lt_of_lt_of_le hv.nextwrite_lt hv.size_le_cap
  let q' : Queue α :=
    { q with
      data := Function.update q.data q.nextwrite (some ptr)
      nextwrite := (q.nextwrite + 1) % q.size }
  refine ⟨q', by rw [put, if_pos hcap],
    ⟨hv.size_pos, hv.nextread_lt, Nat.mod_lt _ hv.size_pos, hv.size_le_cap⟩, rfl, ?_⟩
  -- the tail moves one place on, and its old slot now holds `ptr`
  have hne : (q.nextwrite + 1) % q.size ≠ q.nextread := fun h => by
    have := hv.full_iff.1 h
    omega
  have hcount : q'.count = q.count + 1 := Ring.dist_succ_right hv.nextread_lt hv.nextwrite_lt hne
  have hslot : q'.slot = Function.update q.slot q.nextwrite (some ptr) := by
    funext i
    unfold slot
    by_cases hi : i = q.nextwrite
    · subst hi
      simp [q', hcap]
    · simp [q', hi]
  unfold contents
  rw [hslot, hcount, ← hv.index_count, Ring.view_push hv.nextread_lt hv.count_lt]

/-- `q_remhead` on a queue whose elements start with `x`. -/
theorem remhead_spec (hv : q.Valid) {x : α} {rest : List (Option α)} (hc : q.contents = some x :: rest) :
    ∃ q', q.remhead = some (x, q') ∧ q'.Valid ∧ q'.size = q.size ∧ q'.contents = rest := by
  obtain ⟨hx, hcount, hrest⟩ := contents_eq_cons hv hc
  have hne : q.nextwrite ≠ q.nextread := fun h => by
    rw [hv.empty_iff, hcount] at h
    cases h
  let q' : Queue α := { q with nextread := (q.nextread + 1) % q.size }
  refine ⟨q', ?_, ⟨hv.size_pos, Nat.mod_lt _ hv.size_pos, hv.nextwrite_lt, hv.size_le_cap⟩, rfl, ?_⟩
  · have := hv.size_pos
    rw [remhead, if_neg (by omega), hx]
    rfl
  · -- the head moves one place on: one place fewer to the tail
    have hd := Ring.dist_succ_left hv.nextread_lt hv.nextwrite_lt (Ne.symm hne)
    change Ring.view q.slot q.size ((q.nextread + 1) % q.size)
      (Ring.dist q.size ((q.nextread + 1) % q.size) q.nextwrite) = rest
    rw [show Ring.dist q.size ((q.nextread + 1) % q.size) q.nextwrite = rest.length by
      unfold count at hcount
      omega]
    exact hrest

/-- `q_peek` gives the oldest element, or `NULL` on an empty queue. -/
theorem peek_spec (hv : q.Valid) {xs : List α} (hc : q.contents = xs.map some) : q.peek = some xs.head? := by
  rw [peek, if_neg (by have := hv.size_pos; omega)]
  cases xs with
  | nil =>
    have hcount : q.count = 0 := by rw [← length_contents, hc, List.map_nil, List.length_nil]
    rw [if_pos (hv.empty_iff.2 hcount)]
    rfl
  | cons x xs =>
    obtain ⟨hx, hcount, -⟩ := contents_eq_cons hv hc
    have hne : q.nextwrite ≠ q.nextread := fun h => by
      rw [hv.empty_iff, hcount] at h
      cases h
    rw [if_neg hne, hx]
    rfl

/-- The loop of `q_len` counts the places from the `k`th on to `nextwrite`. -/
theorem lenLoop_spec (hv : q.Valid) : ∀ m k fuel, k + m = q.count → m ≤ fuel →
    q.lenLoop fuel (Ring.index q.size q.nextread k) k = some q.count := by
  intro m
  induction m with
  | zero =>
    intro k fuel hk _
    rw [Nat.add_zero] at hk
    subst hk
    rw [lenLoop.eq_def, if_pos hv.index_count]
  | succ m ih =>
    intro k fuel hk hfuel
    obtain ⟨fuel, rfl⟩ : ∃ f, fuel = f + 1 := ⟨fuel - 1, by omega⟩
    have hne : Ring.index q.size q.nextread k ≠ q.nextwrite := by
      rw [← hv.index_count]
      exact Ring.index_ne hv.nextread_lt (by omega) hv.count_lt
    rw [lenLoop.eq_def, if_neg hne, Ring.index_next]
    exact ih (k + 1) fuel (by omega) (by omega)

theorem len_spec (hv : q.Valid) : q.len = some q.count := by
  have h := lenLoop_spec hv q.count 0 q.size (Nat.zero_add _) (Nat.le_of_lt hv.count_lt)
  rwa [Ring.index_zero hv.nextread_lt] at h


/-- `q_addtail` on a queue that is not full stores without growing. -/
theorem addtail_of_not_full (hv : q.Valid) (hnf : q.count + 1 < q.size) (d : Nat) (oom : Bool) (ptr : α) :
    q.addtail (d + 1) oom ptr = q.put ptr ((q.nextwrite + 1) % q.size) := by
  have hfull : ¬ (q.nextwrite + 1) % q.size = q.nextread := fun h => by
    have := hv.full_iff.1 h
    omega
  rw [addtail, if_neg (Nat.pos_iff_ne_zero.1 hv.size_pos), if_neg hfull]

theorem regrow_step {add : Queue α → α → Option (Except Errno Unit × Queue α)} {old qn : Queue α} {i fuel : Nat} {x : α}
    (hi : i ≠ old.nextwrite) (hx : old.slot i = some x) :
    regrow add old (fuel + 1) i qn =
      match add qn x with
      | some (.ok (), q') => regrow add old fuel ((i + 1) % old.size) q'
      | _ => none := by
  rw [regrow.eq_def, if_neg hi, hx]

/-- The loop of `q_grow` adds the old elements, in order, to a queue with
    room for all of them: no `q_addtail` of the loop grows again. -/
theorem regrow_spec (d : Nat) (oom : Bool) {old : Queue α} (hold : old.Valid) {xs : List α}
    (hxs : old.contents = xs.map some) :
    ∀ m k fuel (qn : Queue α), k + m = old.count → m ≤ fuel → qn.Valid → old.count < qn.size →
      qn.contents = (xs.take k).map some →
      ∃ qn', regrow (addtail (d + 1) oom) old fuel (Ring.index old.size old.nextread k) qn = some qn' ∧
        qn'.Valid ∧ qn'.size = qn.size ∧ qn'.contents = xs.map some := by
  have hlen : xs.length = old.count := by rw [← length_contents, hxs, List.length_map]
  intro m
  -- induction on the elements left to copy
  induction m with
  | zero =>
    intro k fuel qn hk _ hvn _ hcn
    rw [Nat.add_zero] at hk
    subst hk
    refine ⟨qn, by rw [regrow.eq_def, if_pos hold.index_count], hvn, rfl, ?_⟩
    rw [hcn, List.take_of_length_le (by omega)]
  | succ m ih =>
    intro k fuel qn hk hfuel hvn hroom hcn
    obtain ⟨fuel, rfl⟩ : ∃ f, fuel = f + 1 := ⟨fuel - 1, by omega⟩
    have hkx : k < xs.length := by omega
    have hne : Ring.index old.size old.nextread k ≠ old.nextwrite := by
      rw [← hold.index_count]
      exact Ring.index_ne hold.nextread_lt (by omega) hold.count_lt
    -- the `k`th old element is in the `k`th slot from `nextread`
    have hx : old.slot (Ring.index old.size old.nextread k) = some xs[k] := by
      have h := congrArg (·[k]?) hxs
      simp only [List.getElem?_map, List.getElem?_eq_getElem hkx] at h
      unfold contents at h
      rw [List.getElem?_eq_getElem (by rw [Ring.view_length]; omega), Ring.getElem_view] at h
      exact Option.some_inj.1 h
    have hcount : qn.count = k := by
      rw [← length_contents, hcn, List.length_map, List.length_take]
      omega
    obtain ⟨qn₁, hput, hvn₁, hsize₁, hcn₁⟩ := put_spec hvn (by omega) xs[k]
    rw [regrow_step hne hx, addtail_of_not_full hvn (by omega), hput]
    obtain ⟨qn', hrun, hvn', hsize', hcn'⟩ := ih (k + 1) fuel qn₁ (by omega) (by omega) hvn₁ (by omega)
      (by rw [hcn₁, hcn, List.take_add_one, List.getElem?_eq_getElem hkx, List.map_append]; rfl)
    refine ⟨qn', ?_, hvn', hsize'.trans hsize₁, hcn'⟩
    rw [Ring.index_next]
    exact hrun


/-- A failed `kmalloc` in `q_grow` leaves the queue as it was. -/
theorem grow_enomem {add : Queue α → α → Option (Except Errno Unit × Queue α)} {nsize : Nat}
    (hdbl : doubleUntil q.size t = some nsize) : grow add true q t = some (.error .enomem, q) := by
  rw [grow, hdbl]
  rfl

/-- `q_grow` to a larger size below `2^30` moves the elements, in order, into
    the new buffer. -/
theorem grow_spec (hv : q.Valid) {xs : List α} (hxs : q.contents = xs.map some) {nsize : Nat}
    (hdbl : doubleUntil q.size t = some nsize) (hgt : q.size < nsize) (hlt : nsize < 2 ^ 30) (d : Nat) (oom : Bool) :
    ∃ q', grow (addtail (d + 1) oom) false q t = some (.ok (), q') ∧ q'.Valid ∧ q'.size = nsize ∧
      q'.contents = xs.map some := by
  let qn : Queue α := ⟨nsize, 0, 0, fun _ => none, ptrSlots nsize⟩
  have hvn : qn.Valid := ⟨show 0 < nsize by omega, show 0 < nsize by omega, show 0 < nsize by omega,
    show nsize ≤ ptrSlots nsize by rw [ptrSlots_of_lt hlt]⟩
  have hcn : qn.contents = (xs.take 0).map some := by
    change Ring.view qn.slot nsize 0 (Ring.dist nsize 0 0) = _
    rw [Ring.dist_self, List.take_zero]
    rfl
  obtain ⟨q', hrun, hv', hsize', hc'⟩ := regrow_spec d oom hv hxs q.count 0 q.size qn
    (Nat.zero_add _) (Nat.le_of_lt hv.count_lt) hvn (show q.count < nsize by have := hv.count_lt; omega) hcn
  rw [Ring.index_zero hv.nextread_lt] at hrun
  refine ⟨q', ?_, hv', hsize', hc'⟩
  rw [grow, hdbl]
  simp only [Bool.false_eq_true, if_false]
  rw [hrun]
  rfl

/-- `q_addtail` on a queue with room to double: the element joins the tail,
    the buffer growing first if it is full; or `kmalloc` fails and the queue
    is left as it was. -/
theorem addtail_spec (hv : q.Valid) (hs : q.size < 2 ^ 30) {xs : List α} (hxs : q.contents = xs.map some)
    (hlen : xs.length + 2 ≤ 2 ^ 29) (d : Nat) (oom : Bool) (ptr : α) :
    (∃ q', q.addtail (d + 2) oom ptr = some (.ok (), q') ∧ q'.Valid ∧ q'.size < 2 ^ 30 ∧
      q'.contents = (xs ++ [ptr]).map some) ∨
    (oom = true ∧ q.addtail (d + 2) oom ptr = some (.error .enomem, q)) := by
  have hcount : q.count = xs.length := by rw [← length_contents, hxs, List.length_map]
  by_cases hfull : (q.nextwrite + 1) % q.size = q.nextread
  · -- full: `size - 1` elements, so the new size `2 * size` stays below `2^30`
    have hsz : q.count + 1 = q.size := hv.full_iff.1 hfull
    have hdbl : doubleUntil q.size (q.size + 1) = some (q.size * 2) := by
      rw [doubleUntil_of_lt (by omega) ⟨by omega, by omega⟩, doubleUntil_of_le (by omega)]
    have hstep : q.addtail (d + 2) oom ptr =
        match grow (addtail (d + 1) oom) oom q (q.size + 1) with
        | some (.ok (), q') => q'.put ptr ((q'.nextwrite + 1) % q'.size)
        | r => r := by
      rw [addtail, if_neg (Nat.pos_iff_ne_zero.1 hv.size_pos), if_pos hfull]
    cases oom with
    | true => exact .inr ⟨rfl, by rw [hstep, grow_enomem hdbl]⟩
    | false =>
      obtain ⟨q', hgrow, hv', hsize', hc'⟩ := grow_spec hv hxs hdbl (by omega) (by omega) d false
      have hcount' : q'.count = xs.length := by rw [← length_contents, hc', List.length_map]
      obtain ⟨q'', hput, hv'', hsize'', hc''⟩ := put_spec hv' (by omega) ptr
      refine .inl ⟨q'', ?_, hv'', by omega, by rw [hc'', hc', List.map_append]; rfl⟩
      rw [hstep, hgrow]
      exact hput
  · have hnf : q.count + 1 < q.size := by
      have := hv.count_lt
      have := mt hv.full_iff.2 hfull
      omega
    obtain ⟨q', hput, hv', hsize', hc'⟩ := put_spec hv hnf ptr
    refine .inl ⟨q', ?_, hv', by omega, by rw [hc', hxs, List.map_append]; rfl⟩
    rw [addtail_of_not_full hv hnf]
    exact hput

/-- `q_preallocate` to at most `2^29` slots keeps the elements; only a failed
    `kmalloc` gives `ENOMEM`, and then nothing changes. -/
theorem preallocate_spec (hv : q.Valid) (hs : q.size < 2 ^ 30) {xs : List α} (hxs : q.contents = xs.map some)
    {n : Nat} (hn : n ≤ 2 ^ 29) (d : Nat) (oom : Bool) :
    (∃ q', q.preallocate (d + 1) oom n = some (.ok (), q') ∧ q'.Valid ∧ q'.size < 2 ^ 30 ∧
      q'.contents = xs.map some) ∨
    (oom = true ∧ q.preallocate (d + 1) oom n = some (.error .enomem, q)) := by
  have hne : q.size ≠ 0 := Nat.pos_iff_ne_zero.1 hv.size_pos
  by_cases hgt : n > q.size
  · obtain ⟨m, hdbl, hlo, hhi, -⟩ := doubleUntil_spec hv.size_pos hgt (by omega)
    have hstep : q.preallocate (d + 1) oom n = grow (addtail (d + 1) oom) oom q n := by
      rw [preallocate, if_neg hne, if_pos hgt]
    cases oom with
    | true => exact .inr ⟨rfl, by rw [hstep, grow_enomem hdbl]⟩
    | false =>
      obtain ⟨q', hgrow, hv', hsize', hc'⟩ := grow_spec hv hxs hdbl (by omega) (by omega) d false
      exact .inl ⟨q', by rw [hstep, hgrow], hv', by omega, hc'⟩
  · exact .inl ⟨q, by rw [preallocate, if_neg hne, if_neg hgt], hv, hs, hxs⟩


end Queue

/-! ## What a queue is for

A first-in first-out list of elements: `q_addtail` appends, `q_remhead` takes
the oldest off a list that has one, `q_peek` shows it, `q_len` counts, and
`q_preallocate` changes nothing one can see. A call that may allocate may
instead fail with `ENOMEM`, where `kmalloc` fails, and then changes nothing.
-/

/-- The calls on a queue; `oom` is what `kmalloc` answers, should the call
    allocate. -/
inductive QueueOp (α : Type*)
  | addtail (ptr : α) (oom : Bool)
  | remhead
  | peek
  | preallocate (size : Nat) (oom : Bool)
  | len

namespace QueueOp

variable {α : Type*}

/-- A call's answer: a status, a pointer (`none` for `NULL`), or a count. -/
inductive Answer (α : Type*)
  | status (r : Except Errno Unit)
  | ptr (p : Option α)
  | count (n : Nat)

/-- A call on the queue, `depth` calls of `q_addtail` deep at most. -/
def apply (depth : Nat) (q : Queue α) : QueueOp α → Option (Answer α × Queue α)
  | addtail ptr oom => (q.addtail depth oom ptr).map fun (r, q') => (.status r, q')
  | remhead => q.remhead.map fun (x, q') => (.ptr (some x), q')
  | peek => q.peek.map fun p => (.ptr p, q)
  | preallocate size oom => (q.preallocate depth oom size).map fun (r, q') => (.status r, q')
  | len => q.len.map fun n => (.count n, q)

/-- What a call does to the elements, oldest first. -/
def spec : List α → QueueOp α → Answer α → List α → Prop
  | xs, addtail x oom, r, ys =>
    (r = .status (.ok ()) ∧ ys = xs ++ [x]) ∨ (oom = true ∧ r = .status (.error .enomem) ∧ ys = xs)
  | xs, remhead, r, ys => ∃ x, xs = x :: ys ∧ r = .ptr (some x)
  | xs, peek, r, ys => r = .ptr xs.head? ∧ ys = xs
  | xs, preallocate _ oom, r, ys =>
    (r = .status (.ok ()) ∨ (oom = true ∧ r = .status (.error .enomem))) ∧ ys = xs
  | xs, len, r, ys => r = .count xs.length ∧ ys = xs

/-- The callers' side: `q_remhead` only on a queue with an element, and sizes
    below where `q_grow`'s `int` and `size_t` products wrap: fewer than
    `2^29 - 1` elements before an add, and a preallocation of at most `2^29`
    slots. -/
def pre : List α → QueueOp α → Prop
  | xs, addtail _ _ => xs.length + 2 ≤ 2 ^ 29
  | xs, remhead => xs ≠ []
  | _, preallocate size _ => size ≤ 2 ^ 29
  | _, _ => True

end QueueOp

namespace Queue

variable {α : Type*} {q : Queue α} {xs : List α}

/-- The queue holds the elements `xs`: it is valid, below `2^30` slots, and
    its slots from `nextread` on are `xs`. -/
structure Holds (q : Queue α) (xs : List α) : Prop where
  valid : q.Valid
  size_lt : q.size < 2 ^ 30
  contents : q.contents = xs.map some

/-- A queue holds fewer elements than it has slots. -/
theorem Holds.length_lt (h : Holds q xs) : xs.length < q.size := by
  have hc := congrArg List.length h.contents
  rw [length_contents, List.length_map] at hc
  exact hc ▸ h.valid.count_lt

/-- Every call the spec allows is one the queue makes, with an answer the spec
    allows. -/
theorem refines {depth : Nat} (hd : 2 ≤ depth) :
    Simulation.Refines (Holds (α := α)) (QueueOp.apply depth) QueueOp.pre QueueOp.spec := by
  obtain ⟨d, rfl⟩ : ∃ d, depth = d + 2 := ⟨depth - 2, by omega⟩
  intro q xs o h hpre
  cases o with
  | addtail ptr oom =>
    rcases addtail_spec h.valid h.size_lt h.contents hpre d oom ptr with ⟨q', hq, hv', hs', hc'⟩ | ⟨rfl, hq⟩
    · exact ⟨_, q', by rw [QueueOp.apply, hq]; rfl, xs ++ [ptr], .inl ⟨rfl, rfl⟩, ⟨hv', hs', hc'⟩⟩
    · exact ⟨_, q, by rw [QueueOp.apply, hq]; rfl, xs, .inr ⟨rfl, rfl, rfl⟩, h⟩
  | remhead =>
    obtain ⟨x, rest, rfl⟩ := List.exists_cons_of_ne_nil hpre
    obtain ⟨q', hq, hv', hs', hc'⟩ := remhead_spec h.valid h.contents
    exact ⟨_, q', by rw [QueueOp.apply, hq]; rfl, rest, ⟨x, rfl, rfl⟩, ⟨hv', hs' ▸ h.size_lt, hc'⟩⟩
  | peek =>
    exact ⟨_, q, by rw [QueueOp.apply, peek_spec h.valid h.contents]; rfl, xs, ⟨rfl, rfl⟩, h⟩
  | preallocate n oom =>
    rcases preallocate_spec h.valid h.size_lt h.contents hpre (d + 1) oom with ⟨q', hq, hv', hs', hc'⟩ | ⟨rfl, hq⟩
    · exact ⟨_, q', by rw [QueueOp.apply, hq]; rfl, xs, ⟨.inl rfl, rfl⟩, ⟨hv', hs', hc'⟩⟩
    · exact ⟨_, q, by rw [QueueOp.apply, hq]; rfl, xs, ⟨.inr ⟨rfl, rfl⟩, rfl⟩, h⟩
  | len =>
    have hcount : q.count = xs.length := by rw [← length_contents, h.contents, List.length_map]
    exact ⟨_, q, by rw [QueueOp.apply, len_spec h.valid, hcount]; rfl, xs, ⟨rfl, rfl⟩, h⟩

/-- From a queue holding `xs`, every run of calls keeps to the FIFO spec as
    long as the callers keep to theirs: it goes through as a run of the spec,
    or as far as a call whose precondition fails. -/
theorem queue_refines_fifo {depth : Nat} (hd : 2 ≤ depth) (h : Holds q xs) (os : List (QueueOp α)) :
    (∃ rs q' ys, Simulation.run (QueueOp.apply depth) q os = some (rs, q') ∧
        Simulation.SpecRun QueueOp.pre QueueOp.spec xs os rs ys ∧ Holds q' ys) ∨
      (∃ os₁ o os₂ rs₁ q₁ ys₁, os = os₁ ++ o :: os₂ ∧ Simulation.run (QueueOp.apply depth) q os₁ = some (rs₁, q₁) ∧
        Simulation.SpecRun QueueOp.pre QueueOp.spec xs os₁ rs₁ ys₁ ∧ Holds q₁ ys₁ ∧ ¬ QueueOp.pre ys₁ o) :=
  Simulation.run_of_refines (refines hd) os h

theorem queue_refines_fifo_of_create :
    (∃ rs q' ys, Simulation.run (QueueOp.apply 2) (create 2)
        [.addtail 7 false, .addtail 8 true, .remhead, .len] = some (rs, q') ∧
        Simulation.SpecRun QueueOp.pre QueueOp.spec [] [.addtail 7 false, .addtail 8 true, .remhead, .len] rs ys ∧
        Holds q' ys) ∨
      (∃ os₁ o os₂ rs₁ q₁ ys₁, [.addtail 7 false, .addtail 8 true, .remhead, .len] = os₁ ++ o :: os₂ ∧
        Simulation.run (QueueOp.apply 2) (create 2) os₁ = some (rs₁, q₁) ∧
        Simulation.SpecRun QueueOp.pre QueueOp.spec [] os₁ rs₁ ys₁ ∧ Holds q₁ ys₁ ∧ ¬ QueueOp.pre ys₁ o) :=
  queue_refines_fifo (Nat.le_refl 2) ⟨⟨by decide, by decide, by decide, by decide⟩, by decide, rfl⟩ _

end Queue
end Os161
