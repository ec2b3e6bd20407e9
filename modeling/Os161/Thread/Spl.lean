import Mathlib
import Os161.Lib.Machine

/-!
# Interrupt priority and spinlocks

One thread on its CPU, after CPU initialization, and what it keeps of the
interrupt priority (kern/thread/spl.c, kern/include/spl.h) and of its
spinlocks (kern/thread/spinlock.c). `splx` raises and lowers the thread's
level `t_curspl` between `IPL_NONE` and `IPL_HIGH`; `spinlock_acquire` raises
and `spinlock_release` lowers with no level at all; both count in the one
`t_iplhigh_count`, which turns interrupts off at the first raise and on at the
last lower. Nothing makes the two nest.

Every call of the thread is one event of `Spl.machine`, except
`spinlock_acquire`, which is two: its `splraise` and deadlock check, then the
test-and-set that finds the lock free and sets `lk_holder`. Between the two the
thread spins, with the count raised, while other CPUs take and let go of their
spinlocks (`otherAcquire`, `otherRelease`). A `KASSERT` that fails, or the
deadlock panic, disables the event.

* `Inv`: the count is one for each spinlock the thread holds or is spinning
  for, plus one for a high level, and interrupts are on exactly at 0; every
  event keeps it (`step_inv`);
* `iplhigh_count_tracks_spinlocks`: along every sequence of calls from such a
  state, the count never goes negative, interrupts are off exactly when it is
  positive, and between calls it is the number of spinlocks held plus one for
  `IPL_HIGH`.
-/

namespace Os161.Spl

/-- `IPL_NONE`. -/
def iplNone : Int := 0

/-- `IPL_HIGH`. -/
def iplHigh : Int := 1

/-- One thread and its CPU, as spl.c and spinlock.c see them. -/
structure State (L : Type*) where
  /-- `curthread->t_iplhigh_count`. -/
  iplhighCount : Int
  /-- `curthread->t_curspl`. -/
  curspl : Int
  /-- Whether the CPU takes interrupts (`cpu_irqon`, `cpu_irqoff`). -/
  irqOn : Bool
  /-- The spinlocks whose `lk_holder` is this CPU. -/
  held : Finset L
  /-- The spinlocks other CPUs hold. -/
  busy : Finset L
  /-- The spinlock the thread spins for in `spinlock_acquire`, past its
      `splraise`. -/
  spinning : Option L
  deriving DecidableEq

variable {L : Type*}

/-- `cpu_irqoff()`. -/
def cpuIrqoff (s : State L) : State L := { s with irqOn := false }

/-- `cpu_irqon()`. -/
def cpuIrqon (s : State L) : State L := { s with irqOn := true }

/-- `splraise(oldspl, newspl)`. -/
def splraise (oldspl newspl : Int) (s : State L) : Option (State L) :=
  -- only one priority level, only one valid args configuration
  if oldspl = iplNone ∧ newspl = iplHigh then
    let s := if s.iplhighCount = 0 then cpuIrqoff s else s
    some { s with iplhighCount := s.iplhighCount + 1 }
  else none

/-- `spllower(oldspl, newspl)`. -/
def spllower (oldspl newspl : Int) (s : State L) : Option (State L) :=
  if oldspl = iplHigh ∧ newspl = iplNone then
    let s := { s with iplhighCount := s.iplhighCount - 1 }
    some (if s.iplhighCount = 0 then cpuIrqon s else s)
  else none

/-- `splx(spl)`: the old level, and the thread at the level `spl`. -/
def splx (spl : Int) (s : State L) : Option (Int × State L) :=
  if s.curspl < spl then
    -- turning interrupts off
    (splraise s.curspl spl s).map fun s' => (s.curspl, { s' with curspl := spl })
  else if s.curspl > spl then
    -- turning interrupts on
    let ret := s.curspl
    (spllower ret spl { s with curspl := spl }).map fun s' => (ret, s')
  else some (spl, s)

/-- `spl0()`. -/
def spl0 (s : State L) : Option (Int × State L) := splx iplNone s

/-- `splhigh()`. -/
def splhigh (s : State L) : Option (Int × State L) := splx iplHigh s

/-- The boot thread as `thread_create` leaves it (`t_curspl = IPL_HIGH`,
    `t_iplhigh_count = 1`), with interrupts off and no spinlock taken. -/
def boot : State L := ⟨1, iplHigh, false, ∅, ∅, none⟩

/-! ## The count -/

/-- The count spl.c should keep: one for each spinlock held, one for the one
    spun for, and one for a high level. -/
def expected (s : State L) : Int :=
  s.held.card + (if s.spinning.isSome then 1 else 0) + (if s.curspl = iplHigh then 1 else 0)

/-- The invariant of `t_iplhigh_count`. -/
structure Inv (s : State L) : Prop where
  count : s.iplhighCount = expected s
  irq : s.irqOn = true ↔ s.iplhighCount = 0

theorem expected_nonneg (s : State L) : 0 ≤ expected s := by
  unfold expected
  split_ifs <;> omega

theorem Inv.count_nonneg {s : State L} (hi : Inv s) : 0 ≤ s.iplhighCount :=
  hi.count ▸ expected_nonneg s

/-- The count is positive while a spinlock is held or the level is high. -/
theorem Inv.count_pos {s : State L} (hi : Inv s) (h : s.held.Nonempty ∨ s.curspl = iplHigh) :
    0 < s.iplhighCount := by
  rw [hi.count, expected]
  rcases h with h | h
  · have := Finset.card_pos.2 h
    split_ifs <;> omega
  · rw [if_pos h]
    split_ifs <;> omega

/-- `splraise` past its `KASSERT`s: interrupts off from the first raise. -/
theorem splraise_of {oldspl newspl : Int} (h : oldspl = iplNone ∧ newspl = iplHigh) (s : State L) :
    splraise oldspl newspl s =
      some { s with irqOn := s.irqOn && s.iplhighCount != 0, iplhighCount := s.iplhighCount + 1 } := by
  by_cases h0 : s.iplhighCount = 0 <;> simp [splraise, h, cpuIrqoff, h0]

/-- `spllower` past its `KASSERT`s: interrupts on at the last lower. -/
theorem spllower_of {oldspl newspl : Int} (h : oldspl = iplHigh ∧ newspl = iplNone) (s : State L) :
    spllower oldspl newspl s =
      some { s with irqOn := s.irqOn || s.iplhighCount - 1 == 0, iplhighCount := s.iplhighCount - 1 } := by
  by_cases h0 : s.iplhighCount - 1 = 0 <;> simp [spllower, h, cpuIrqon, h0]

/-- A raise from a count the flag agrees with keeps the flag in agreement. -/
theorem irq_raise {on : Bool} {c : Int} (h : on = true ↔ c = 0) (hc : 0 ≤ c) :
    (on && c != 0) = true ↔ c + 1 = 0 := by
  cases on with
  | false =>
    simp only [Bool.false_and, Bool.false_eq_true, false_iff]
    omega
  | true => simp [h.1 rfl]

/-- So does a lower from a positive count. -/
theorem irq_lower {on : Bool} {c : Int} (h : on = true ↔ c = 0) (hc : 0 < c) :
    (on || c - 1 == 0) = true ↔ c - 1 = 0 := by
  cases on <;> simp_all

theorem boot_inv : Inv (boot : State L) := ⟨by simp [boot, expected], by simp [boot]⟩

variable [DecidableEq L]

/-- `spinlock_acquire(lk)` up to its loop: the raise, then the panic on a
    lock this CPU holds already. -/
def spinlockAcquire (l : L) (s : State L) : Option (State L) := do
  let s ← splraise iplNone iplHigh s
  if l ∈ s.held then none
  else some { s with spinning := some l }

/-- The test-and-set of `spinlock_acquire`'s loop finds the lock word 0, and
    `lk_holder` becomes this CPU. -/
def spinlockTake (s : State L) : Option (State L) :=
  match s.spinning with
  | some l => if l ∈ s.held ∨ l ∈ s.busy then none
    else some { s with held := insert l s.held, spinning := none }
  | none => none

/-- `spinlock_release(lk)`, which `KASSERT`s that this CPU holds `lk`. -/
def spinlockRelease (l : L) (s : State L) : Option (State L) :=
  if l ∈ s.held then spllower iplHigh iplNone { s with held := s.held.erase l }
  else none

/-- The calls of the thread, and the spinlock events of other CPUs. -/
inductive Event (L : Type*)
  | acquire (l : L)
  | take
  | release (l : L)
  | splhigh
  | spl0
  | splx (spl : Int)
  | otherAcquire (l : L)
  | otherRelease (l : L)

/-- One event. The thread makes no call while it spins in
    `spinlock_acquire`. -/
def step (s : State L) : Event L → Option (State L)
  | .acquire l => if s.spinning = none then spinlockAcquire l s else none
  | .take => spinlockTake s
  | .release l => if s.spinning = none then spinlockRelease l s else none
  | .splhigh => if s.spinning = none then (splhigh s).map Prod.snd else none
  | .spl0 => if s.spinning = none then (spl0 s).map Prod.snd else none
  | .splx spl => if s.spinning = none then (splx spl s).map Prod.snd else none
  | .otherAcquire l => if l ∈ s.held ∨ l ∈ s.busy then none else some { s with busy := insert l s.busy }
  | .otherRelease l => if l ∈ s.busy then some { s with busy := s.busy.erase l } else none

/-- The thread's calls from `boot`, among other CPUs. -/
def machine (L : Type*) [DecidableEq L] : Machine (State L) (Event L) := ⟨boot, step⟩

section Steps

variable {s s' : State L}

theorem inv_acquire {l : L} (hi : Inv s) (hspin : s.spinning = none)
    (h : spinlockAcquire l s = some s') : Inv s' := by
  simp only [spinlockAcquire, splraise_of ⟨rfl, rfl⟩, Option.bind_eq_bind, Option.bind_some] at h
  split_ifs at h
  cases h
  constructor
  · simp [expected, hspin, hi.count]
    omega
  · exact irq_raise hi.irq hi.count_nonneg

theorem inv_take (hi : Inv s) (h : spinlockTake s = some s') : Inv s' := by
  unfold spinlockTake at h
  split at h
  · rename_i l hl
    split_ifs at h with hfree
    cases h
    have hnot : l ∉ s.held := fun h' => hfree (.inl h')
    constructor
    · simp only [hi.count, expected, hl, Option.isSome_some, Option.isSome_none, Finset.card_insert_of_notMem hnot]
      push_cast
      omega
    · exact hi.irq
  · cases h

theorem inv_release {l : L} (hi : Inv s) (h : spinlockRelease l s = some s') : Inv s' := by
  unfold spinlockRelease at h
  split_ifs at h with hl
  rw [spllower_of ⟨rfl, rfl⟩] at h
  cases h
  have hcard : ((s.held.erase l).card : Int) = s.held.card - 1 := by
    rw [Finset.card_erase_of_mem hl]
    have := Finset.card_pos.2 ⟨l, hl⟩
    omega
  have hpos := hi.count_pos (.inl ⟨l, hl⟩)
  constructor
  · simp only [hi.count, expected, hcard] at hpos ⊢
    omega
  · exact irq_lower hi.irq hpos

omit [DecidableEq L] in
theorem inv_splx {spl : Int} {r : Int} (hi : Inv s) (h : splx spl s = some (r, s')) : Inv s' := by
  unfold splx at h
  split_ifs at h with hlt hgt
  · -- raising: `splraise` passes its `KASSERT`s only from `IPL_NONE` to `IPL_HIGH`
    by_cases hk : s.curspl = iplNone ∧ spl = iplHigh
    · rw [splraise_of hk] at h
      cases h
      constructor
      · simp only [hi.count, expected, hk, iplNone, iplHigh] at hlt ⊢
        split_ifs <;> omega
      · exact irq_raise hi.irq hi.count_nonneg
    · simp [splraise, hk] at h
  · dsimp only at h
    by_cases hk : s.curspl = iplHigh ∧ spl = iplNone
    · rw [spllower_of hk] at h
      cases h
      have hpos := hi.count_pos (.inr hk.1)
      constructor
      · simp only [hi.count, expected, hk, iplNone, iplHigh] at hpos ⊢
        split_ifs <;> omega
      · exact irq_lower hi.irq hpos
    · simp [spllower, hk] at h
  · cases h
    exact hi

/-- Every event keeps the invariant. -/
theorem step_inv {e : Event L} (hi : Inv s) (h : step s e = some s') : Inv s' := by
  cases e with
  | acquire l =>
    simp only [step] at h
    split_ifs at h with hspin
    exact inv_acquire hi hspin h
  | take => exact inv_take hi h
  | release l =>
    simp only [step] at h
    split_ifs at h
    exact inv_release hi h
  | splhigh | spl0 | splx spl =>
    simp only [step, splhigh, spl0] at h
    split_ifs at h
    obtain ⟨⟨r, t⟩, ht, rfl⟩ := Option.map_eq_some_iff.1 h
    exact inv_splx hi ht
  | otherAcquire l =>
    simp only [step] at h
    split_ifs at h
    cases h
    exact ⟨hi.count, hi.irq⟩
  | otherRelease l =>
    simp only [step] at h
    split_ifs at h
    cases h
    exact ⟨hi.count, hi.irq⟩

end Steps

/-- Every state the thread reaches from boot keeps the invariant. -/
theorem reachable_inv {s : State L} (h : (machine L).Reachable s) : Inv s :=
  Machine.reachable_induction (P := Inv) boot_inv (fun _ _ _ hi hstep => step_inv hi hstep) h

/-- From a state where the count is right, along every sequence of calls of
    the thread and of spinlock events of other CPUs: the count never goes
    negative, interrupts are off exactly when it is positive, and between the
    thread's calls it is the number of spinlocks the thread holds, plus one
    when its level is `IPL_HIGH`. -/
theorem iplhigh_count_tracks_spinlocks {s t : State L} (hs : Inv s) (es : List (Event L))
    (hrun : (machine L).runFrom s es = some t) :
    0 ≤ t.iplhighCount ∧ (t.irqOn = false ↔ 0 < t.iplhighCount) ∧
      (t.spinning = none → t.iplhighCount = t.held.card + if t.curspl = iplHigh then 1 else 0) := by
  have ht : Inv t := Machine.runFrom_induction (P := Inv) (Q := fun _ => True)
    (fun _ _ _ _ hi hstep => step_inv hi hstep) es (fun _ _ => trivial) hs hrun
  refine ⟨ht.count_nonneg, ?_, fun hspin => ?_⟩
  · have := ht.count_nonneg
    rw [← Bool.not_eq_true, ht.irq]
    omega
  · simp [ht.count, expected, hspin]

/-- The example of spl.c from the boot thread after `spl0`: `red` taken,
    `splhigh`, `blue` taken, `splx` back, `red` and `blue` let go. -/
def splExample : List (Event Bool) :=
  [.spl0, .acquire false, .take, .splhigh, .acquire true, .take, .splx iplNone, .release false,
    .release true]

/-- The thread after the example: level `IPL_NONE`, nothing held, count 0,
    interrupts on. -/
def afterExample : State Bool := ⟨0, iplNone, true, ∅, ∅, none⟩

theorem splExample_run : (machine Bool).runFrom boot splExample = some afterExample := by
  decide

/-- The example runs from boot to `afterExample`, and keeps the count. -/
theorem splExample_tracks :
    (machine Bool).runFrom boot splExample = some afterExample ∧
    0 ≤ afterExample.iplhighCount ∧ (afterExample.irqOn = false ↔ 0 < afterExample.iplhighCount) ∧
      (afterExample.spinning = none →
        afterExample.iplhighCount = afterExample.held.card + if afterExample.curspl = iplHigh then 1 else 0) :=
  ⟨splExample_run, iplhigh_count_tracks_spinlocks boot_inv splExample splExample_run⟩

end Os161.Spl
