import Mathlib
import Os161.Lib.Machine
import Os161.Lib.Ring

/-!
# Console input

kern/dev/generic/console.c passes the characters of the console from the
read-ready interrupt to the threads that read them through a ring of
`CONSOLE_INPUT_BUFFER_SIZE` slots, `cs_gotchars`: `con_input` writes at
`cs_gotchars_head` and `V`s `cs_rsem`, unless the ring is full, one slot short
of a whole round, when it drops the character; `getch_intr` `P`s `cs_rsem`,
reads the slot at `cs_gotchars_tail`, and moves the tail on.

`con_input` is one event (it runs in interrupt context), and `getch_intr` is
three: its `P`, the read of the slot at the tail, and the move of the tail. The
state keeps, beside the ring and the count of `cs_rsem`, the threads between
their `P` and their move of the tail, what each of them read, and for the
statements the characters `con_input` stored and `getch_intr` returned, in
order. `serial` is the same machine with the reader's lock
`con_userlock_read` that `con_io` holds around its calls of `getch`: a `P`
only while no other call is in `getch_intr`.

* `CountInv`: the count of `cs_rsem` and the calls past their `P` together are
  the characters in the ring, `(head - tail) mod CONSOLE_INPUT_BUFFER_SIZE`,
  below a whole round, in every interleaving (`reachable_countInv`);
* `FifoInv`: with the calls one at a time, the characters returned followed
  by those in the ring are the characters accepted (`serial_fifoInv`);
* `console_ring_fifo`: both, in every reachable state; two calls of
  `getch_intr` that overlap can read the same slot, and return one character
  twice and skip the next (`overlapping_getch_repeats`).
-/

namespace Os161.Console

/-- `CONSOLE_INPUT_BUFFER_SIZE`. -/
def consoleInputBufferSize : Nat := 32

/-- The input side of `struct con_softc`, the calls of `getch_intr` in
    progress, and the characters stored and returned so far. -/
structure State (T : Type*) where
  /-- `cs_gotchars`. -/
  gotchars : Nat → UInt8
  /-- `cs_gotchars_head`. -/
  head : Nat
  /-- `cs_gotchars_tail`. -/
  tail : Nat
  /-- `sem_count` of `cs_rsem`. -/
  rsem : Nat
  /-- The threads in `getch_intr` past their `P`, before their move of the
      tail. -/
  getters : Finset T
  /-- `ret` of each of them, once read. -/
  got : T → Option UInt8
  /-- The characters `con_input` stored, in order. -/
  accepted : List UInt8
  /-- The characters `getch_intr` returned, in order. -/
  returned : List UInt8

variable {T : Type*}

/-- The console as `config_con` leaves it: the ring empty, `cs_rsem` created
    with count 0. -/
def State.init : State T := ⟨fun _ => 0, 0, 0, 0, ∅, fun _ => none, [], []⟩

/-- `V` on the count of a semaphore: `sem_count++` on an `unsigned`, then
    `KASSERT(sem->sem_count > 0)`. -/
def semV (count : Nat) : Option Nat :=
  let c := (count + 1) % 2 ^ 32
  if c > 0 then some c else none

/-- `con_input(cs, ch)`. -/
def conInput (ch : UInt8) (s : State T) : Option (State T) :=
  let nexthead := (s.head + 1) % consoleInputBufferSize
  if nexthead = s.tail then
    -- overflow; drop character
    some s
  else
    (semV s.rsem).map fun rsem =>
      { s with
        gotchars := Function.update s.gotchars s.head ch, head := nexthead, rsem := rsem,
        accepted := s.accepted ++ [ch] }

/-- The characters in the ring, `(head - tail) mod CONSOLE_INPUT_BUFFER_SIZE`. -/
def State.used (s : State T) : Nat := Ring.dist consoleInputBufferSize s.tail s.head

/-- The characters in the ring, from the tail on. -/
def State.ring (s : State T) : List UInt8 := Ring.view s.gotchars consoleInputBufferSize s.tail s.used

/-! ## The count of `cs_rsem` -/

/-- The invariant of the count: head and tail in the ring, and the count of
    `cs_rsem` and the calls past their `P` are the characters in the ring. -/
structure CountInv (s : State T) : Prop where
  head_lt : s.head < consoleInputBufferSize
  tail_lt : s.tail < consoleInputBufferSize
  count : s.rsem + s.getters.card = s.used

theorem size_pos : 0 < consoleInputBufferSize := by decide

theorem State.used_lt (s : State T) : s.used < consoleInputBufferSize :=
  Ring.dist_lt size_pos

/-- While a call is past its `P`, the ring is not empty. -/
theorem CountInv.tail_ne_head {s : State T} (hi : CountInv s) {t : T} (ht : t ∈ s.getters) :
    s.tail ≠ s.head := by
  intro he
  have hcard := Finset.card_pos.2 ⟨t, ht⟩
  have hc := hi.count
  rw [State.used, he, Ring.dist_self] at hc
  omega

/-- `V` below `2^32 - 1` adds one. -/
theorem semV_of_lt {count : Nat} (h : count + 1 < 2 ^ 32) : semV count = some (count + 1) := by
  have hmod : (count + 1) % 2 ^ 32 = count + 1 := Nat.mod_eq_of_lt h
  simp only [semV, hmod]
  exact if_pos (Nat.succ_pos count)

/-- A character stored moves the head on by one, within the round. -/
theorem conInput_stores {ch : UInt8} {s s' : State T} (hi : CountInv s) (h : conInput ch s = some s')
    (hne : (s.head + 1) % consoleInputBufferSize ≠ s.tail) :
    s' = { s with
      gotchars := Function.update s.gotchars s.head ch, head := (s.head + 1) % consoleInputBufferSize,
      rsem := s.rsem + 1, accepted := s.accepted ++ [ch] } := by
  have hlt : s.rsem + 1 < 2 ^ 32 := by
    have := s.used_lt
    have := hi.count
    unfold consoleInputBufferSize at *
    omega
  simp only [conInput, if_neg hne, semV_of_lt hlt, Option.map_some, Option.some.injEq] at h
  exact h.symm

theorem used_conInput {s : State T} (hi : CountInv s)
    (hne : (s.head + 1) % consoleInputBufferSize ≠ s.tail) :
    Ring.dist consoleInputBufferSize s.tail ((s.head + 1) % consoleInputBufferSize) = s.used + 1 :=
  Ring.dist_succ_right hi.tail_lt hi.head_lt hne

theorem countInv_conInput {ch : UInt8} {s s' : State T} (hi : CountInv s) (h : conInput ch s = some s') :
    CountInv s' := by
  by_cases hne : (s.head + 1) % consoleInputBufferSize = s.tail
  · -- the ring is full: the character is dropped
    simp only [conInput, if_pos hne, Option.some.injEq] at h
    exact h ▸ hi
  · obtain rfl := conInput_stores hi h hne
    refine ⟨Nat.mod_lt _ size_pos, hi.tail_lt, ?_⟩
    simp only [State.used, used_conInput hi hne]
    have := hi.count
    unfold State.used at this
    omega

theorem used_getchAdvance {s : State T} (hi : CountInv s) (hne : s.tail ≠ s.head) :
    Ring.dist consoleInputBufferSize ((s.tail + 1) % consoleInputBufferSize) s.head + 1 = s.used :=
  Ring.dist_succ_left hi.tail_lt hi.head_lt hne

theorem init_countInv : CountInv (State.init : State T) :=
  ⟨size_pos, size_pos, by simp [State.init, State.used]⟩

/-! ## The order of the characters -/

/-- The invariant of the readers one at a time: at most one call past its
    `P`, whose character read is the one at the tail, and the characters
    returned followed by those in the ring are those accepted. -/
structure FifoInv (s : State T) : Prop extends CountInv s where
  one : s.getters.card ≤ 1
  read : ∀ t c, t ∈ s.getters → s.got t = some c → c = s.gotchars s.tail
  fifo : s.returned ++ s.ring = s.accepted

/-- A character stored joins the ring at its end. -/
theorem ring_conInput {ch : UInt8} {s : State T} (hi : CountInv s)
    (hne : (s.head + 1) % consoleInputBufferSize ≠ s.tail) :
    Ring.view (Function.update s.gotchars s.head ch) consoleInputBufferSize s.tail
      (Ring.dist consoleInputBufferSize s.tail ((s.head + 1) % consoleInputBufferSize)) = s.ring ++ [ch] := by
  rw [used_conInput hi hne]
  conv_lhs => rw [← Ring.index_dist hi.tail_lt hi.head_lt]
  exact Ring.view_push hi.tail_lt s.used_lt ch

/-- Moving the tail on takes the first character off the ring. -/
theorem ring_getchAdvance {s : State T} (hi : CountInv s) (hne : s.tail ≠ s.head) :
    s.ring = s.gotchars s.tail ::
      Ring.view s.gotchars consoleInputBufferSize ((s.tail + 1) % consoleInputBufferSize)
        (Ring.dist consoleInputBufferSize ((s.tail + 1) % consoleInputBufferSize) s.head) := by
  rw [State.ring, ← used_getchAdvance hi hne, Ring.view_pop, Ring.index_zero hi.tail_lt]

theorem fifoInv_conInput {ch : UInt8} {s s' : State T} (hi : FifoInv s) (h : conInput ch s = some s') :
    FifoInv s' := by
  have hc := hi.toCountInv
  by_cases hne : (s.head + 1) % consoleInputBufferSize = s.tail
  · simp only [conInput, if_pos hne, Option.some.injEq] at h
    exact h ▸ hi
  · have hcount := countInv_conInput hc h
    obtain rfl := conInput_stores hc h hne
    refine ⟨hcount, hi.one, fun t c ht hgot => ?_, ?_⟩
    · -- the slot written is the head, not the tail being read
      rw [hi.read t c ht hgot]
      exact (Function.update_of_ne (hc.tail_ne_head ht) _ _).symm
    · simp only [State.ring, State.used]
      rw [ring_conInput hc hne, ← List.append_assoc, hi.fifo]

theorem init_fifoInv : FifoInv (State.init : State T) :=
  ⟨init_countInv, by simp [State.init], fun _ _ ht => by simp [State.init] at ht,
    by simp [State.init, State.ring, State.used, Ring.view]⟩

/-! ## The calls of `getch_intr` -/

variable [DecidableEq T]

/-- `P(cs->cs_rsem)` in `getch_intr` by the thread `t`, which returns once
    the count is positive. -/
def getchP (t : T) (s : State T) : Option (State T) :=
  if t ∉ s.getters ∧ 0 < s.rsem then
    some { s with rsem := s.rsem - 1, getters := insert t s.getters, got := Function.update s.got t none }
  else none

/-- `ret = cs->cs_gotchars[cs->cs_gotchars_tail]`. -/
def getchRead (t : T) (s : State T) : Option (State T) :=
  if t ∈ s.getters ∧ s.got t = none then
    some { s with got := Function.update s.got t (some (s.gotchars s.tail)) }
  else none

/-- `cs->cs_gotchars_tail = (cs->cs_gotchars_tail + 1) % CONSOLE_INPUT_BUFFER_SIZE;
    return ret;` -/
def getchAdvance (t : T) (s : State T) : Option (State T) :=
  match s.got t with
  | some ret =>
    if t ∈ s.getters then
      some { s with
        tail := (s.tail + 1) % consoleInputBufferSize, getters := s.getters.erase t,
        got := Function.update s.got t none, returned := s.returned ++ [ret] }
    else none
  | none => none

/-- The interrupt, and the three steps of `getch_intr` by a thread. -/
inductive Event (T : Type*)
  | conInput (ch : UInt8)
  | getchP (t : T)
  | getchRead (t : T)
  | getchAdvance (t : T)

/-- One event. -/
def step (s : State T) : Event T → Option (State T)
  | .conInput ch => conInput ch s
  | .getchP t => getchP t s
  | .getchRead t => getchRead t s
  | .getchAdvance t => getchAdvance t s

/-- The console from `config_con`, its interrupts interleaved with any
    calls of `getch_intr`. -/
def machine (T : Type*) [DecidableEq T] : Machine (State T) (Event T) := ⟨State.init, step⟩

/-- One event when the readers hold `con_userlock_read` around their calls
    of `getch`, as `con_io` does: a `P` only while no other call is in
    `getch_intr`. -/
def serialStep (s : State T) : Event T → Option (State T)
  | .getchP t => if s.getters = ∅ then getchP t s else none
  | e => step s e

/-- The console with its readers one at a time. -/
def serial (T : Type*) [DecidableEq T] : Machine (State T) (Event T) := ⟨State.init, serialStep⟩

theorem serialStep_step {s s' : State T} {e : Event T} (h : serialStep s e = some s') :
    step s e = some s' := by
  cases e with
  | getchP t =>
    simp only [serialStep] at h
    split_ifs at h
    exact h
  | conInput ch => exact h
  | getchRead t => exact h
  | getchAdvance t => exact h

/-- Every state the readers reach one at a time, they reach in any
    interleaving. -/
theorem serial_reachable {s : State T} (h : (serial T).Reachable s) : (machine T).Reachable s :=
  Machine.Reachable.of_sub (M := machine T) (N := serial T) rfl (fun _ _ _ => serialStep_step) h

theorem countInv_getchP {t : T} {s s' : State T} (hi : CountInv s) (h : getchP t s = some s') :
    CountInv s' := by
  simp only [getchP] at h
  split_ifs at h with hp
  cases h
  refine ⟨hi.head_lt, hi.tail_lt, ?_⟩
  have := hi.count
  simp only [State.used, Finset.card_insert_of_notMem hp.1] at this ⊢
  omega

theorem countInv_getchRead {t : T} {s s' : State T} (hi : CountInv s) (h : getchRead t s = some s') :
    CountInv s' := by
  simp only [getchRead] at h
  split_ifs at h
  cases h
  exact ⟨hi.head_lt, hi.tail_lt, hi.count⟩

/-- The move of the tail by a call past its `P`: the returned character and
    the state after. -/
theorem getchAdvance_eq {t : T} {s s' : State T} (h : getchAdvance t s = some s') :
    ∃ ret, s.got t = some ret ∧ t ∈ s.getters ∧
      s' = { s with
        tail := (s.tail + 1) % consoleInputBufferSize, getters := s.getters.erase t,
        got := Function.update s.got t none, returned := s.returned ++ [ret] } := by
  unfold getchAdvance at h
  split at h
  · rename_i ret hret
    split_ifs at h with ht
    exact ⟨ret, hret, ht, (Option.some.inj h).symm⟩
  · cases h

theorem countInv_getchAdvance {t : T} {s s' : State T} (hi : CountInv s) (h : getchAdvance t s = some s') :
    CountInv s' := by
  obtain ⟨ret, -, ht, rfl⟩ := getchAdvance_eq h
  have hused := used_getchAdvance hi (hi.tail_ne_head ht)
  have hcard := Finset.card_erase_add_one ht
  refine ⟨hi.head_lt, Nat.mod_lt _ size_pos, ?_⟩
  have := hi.count
  simp only [State.used] at this hused ⊢
  omega

/-- Every event keeps the invariant of the count. -/
theorem step_countInv {s s' : State T} {e : Event T} (hi : CountInv s) (h : step s e = some s') :
    CountInv s' := by
  cases e with
  | conInput ch => exact countInv_conInput hi h
  | getchP t => exact countInv_getchP hi h
  | getchRead t => exact countInv_getchRead hi h
  | getchAdvance t => exact countInv_getchAdvance hi h

theorem reachable_countInv {s : State T} (h : (machine T).Reachable s) : CountInv s :=
  Machine.reachable_induction (P := CountInv) init_countInv (fun _ _ _ hi hs => step_countInv hi hs) h

theorem fifoInv_getchP {t : T} {s s' : State T} (hi : FifoInv s) (hempty : s.getters = ∅)
    (h : getchP t s = some s') : FifoInv s' := by
  have hcount := countInv_getchP hi.toCountInv h
  simp only [getchP] at h
  split_ifs at h
  cases h
  refine ⟨hcount, by simp [hempty], fun t' c ht' hgot => ?_, hi.fifo⟩
  -- the one call is `t`, which has read nothing yet
  simp only [hempty, Finset.insert_empty, Finset.mem_singleton] at ht'
  subst ht'
  simp at hgot

theorem fifoInv_getchRead {t : T} {s s' : State T} (hi : FifoInv s) (h : getchRead t s = some s') :
    FifoInv s' := by
  have hcount := countInv_getchRead hi.toCountInv h
  simp only [getchRead] at h
  split_ifs at h
  cases h
  refine ⟨hcount, hi.one, fun t' c ht' hgot => ?_, hi.fifo⟩
  dsimp only at ht' hgot ⊢
  by_cases htt : t' = t
  · subst htt
    simpa using hgot.symm
  · rw [Function.update_of_ne htt] at hgot
    exact hi.read t' c ht' hgot

theorem fifoInv_getchAdvance {t : T} {s s' : State T} (hi : FifoInv s) (h : getchAdvance t s = some s') :
    FifoInv s' := by
  have hcount := countInv_getchAdvance hi.toCountInv h
  obtain ⟨ret, hret, ht, rfl⟩ := getchAdvance_eq h
  -- the one call past its `P` is `t`, and it leaves
  have hempty : s.getters.erase t = ∅ := by
    refine Finset.eq_empty_of_forall_notMem fun x hx => ?_
    obtain ⟨hxt, hx⟩ := Finset.mem_erase.1 hx
    exact hxt (Finset.card_le_one.1 hi.one x hx t ht)
  refine ⟨hcount, by simp [hempty], fun t' c ht' _ => by simp [hempty] at ht', ?_⟩
  have hring := ring_getchAdvance hi.toCountInv (hi.toCountInv.tail_ne_head ht)
  rw [← hi.read t ret ht hret] at hring
  simp only [State.ring, State.used]
  rw [List.append_assoc, List.singleton_append, ← hi.fifo, hring]

/-- Every event of the readers one at a time keeps the invariant. -/
theorem serialStep_fifoInv {s s' : State T} {e : Event T} (hi : FifoInv s) (h : serialStep s e = some s') :
    FifoInv s' := by
  cases e with
  | conInput ch => exact fifoInv_conInput hi h
  | getchP t =>
    simp only [serialStep] at h
    split_ifs at h with hempty
    exact fifoInv_getchP hi hempty h
  | getchRead t => exact fifoInv_getchRead hi h
  | getchAdvance t => exact fifoInv_getchAdvance hi h

theorem serial_fifoInv {s : State T} (h : (serial T).Reachable s) : FifoInv s :=
  Machine.reachable_induction (P := FifoInv) init_fifoInv (fun _ _ _ hi hs => serialStep_fifoInv hi hs) h

/-- In every interleaving of `con_input` with calls of `getch_intr`, the count
    of `cs_rsem` and the calls past their `P` are the characters in the ring,
    `(head - tail) mod CONSOLE_INPUT_BUFFER_SIZE`, at most
    `CONSOLE_INPUT_BUFFER_SIZE - 1`; and with the calls one at a time, the
    characters returned are the characters accepted, in order, with those
    not yet returned in the ring. -/
theorem console_ring_fifo :
    (∀ s, (machine T).Reachable s →
      s.rsem + s.getters.card = s.used ∧ s.used ≤ consoleInputBufferSize - 1) ∧
    (∀ s, (serial T).Reachable s → s.returned ++ s.ring = s.accepted) := by
  refine ⟨fun s hs => ?_, fun s hs => (serial_fifoInv hs).fifo⟩
  have hi := reachable_countInv hs
  exact ⟨hi.count, Nat.le_sub_one_of_lt s.used_lt⟩

/-- Two characters arrive; one call of `getch_intr` passes its `P`, reads the
    slot at the tail and moves the tail on. -/
def serialTrace : List (Event Bool) :=
  [.conInput 0x61, .conInput 0x62, .getchP false, .getchRead false, .getchAdvance false]

/-- After `serialTrace`, `a` has been returned and `b` waits in the ring. -/
theorem console_ring_fifo_after_getch :
    ∃ s, (serial Bool).run serialTrace = some s ∧ s.returned = [0x61] ∧ s.ring = [0x62] ∧
      s.rsem + s.getters.card = s.used ∧ s.returned ++ s.ring = s.accepted := by
  have hrun : (serial Bool).run serialTrace = some _ := rfl
  have hs := Machine.run_reachable hrun
  exact ⟨_, hrun, rfl, rfl, (console_ring_fifo.1 _ (serial_reachable hs)).1, console_ring_fifo.2 _ hs⟩

/-- Two characters arrive; two threads pass their `P`, both read the slot at
    the tail, and both move the tail on. -/
def overlapTrace : List (Event Bool) :=
  [.conInput 0x61, .conInput 0x62, .getchP false, .getchP true, .getchRead false, .getchRead true,
    .getchAdvance false, .getchAdvance true]

/-- Overlapping calls of `getch_intr` return `a` twice and never `b`. -/
theorem overlapping_getch_repeats :
    ((machine Bool).run overlapTrace).map (fun s => (s.returned, s.accepted)) =
      some ([0x61, 0x61], [0x61, 0x62]) := by
  decide

end Os161.Console
