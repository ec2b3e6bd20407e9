import Mathlib
import Os161.Lib.Machine

/-!
# Semaphores, and the cat and mouse problem

The semaphores of kern/thread/synch.c: `sem_count`, the spinlock `sem_lock`
around it, and the wait channel `sem_wchan` (its list of sleepers, first in
first out, and its spinlock). `P` tests `sem_count` under `sem_lock`; while it
is zero it locks `sem_wchan`, lets `sem_lock` go and sleeps, and tests again
once woken. `V` increments `sem_count` and wakes one sleeper.

Every section under a spinlock is one event of `Sem.machine n`, a semaphore
created with the count `n`, used by threads that each call `P`, then `V`:
the test of `P`, its `wchan_sleep`, and `V`. A `V` that would spin on the
channel's spinlock, held by a thread between its test and its sleep, waits
until that thread sleeps; as `sem_count` is read only under `sem_lock`, which
`V` holds while it spins, its increment may as well come after.

* `count_add_inside`: in every reachable state, `sem_count` and the threads
  between the return of their `P` and their `V` are `n` together, so that at
  most `n` threads are past `P`;
* `woken_of_sleeper`: no wakeup is lost: while a thread sleeps and the count
  is positive, a woken thread is on its way to take it;
* `exists_step`: with `n` positive, some thread can always move on;
* `catmouse_one_eater`: kern/synchprobs/catmouse_synch.c brackets each meal
  with `P` and `V` on a semaphore of count 1, so one creature eats at a time,
  whatever the bowls.
-/

namespace Os161.Sem

/-- Where a thread is in `P` and `V`. -/
inductive Pc
  /-- Before its `P`. -/
  | idle
  /-- Woken from `sem_wchan`, about to test `sem_count` again. -/
  | woken
  /-- In `P`, found `sem_count` zero, holds `sem_wchan`'s spinlock, has let
      `sem_lock` go. -/
  | locked
  /-- Asleep on `sem_wchan`. -/
  | asleep
  /-- Between the return of its `P` and its `V`. -/
  | inside
  deriving DecidableEq

/-- The semaphore and the threads. -/
structure State (T : Type*) where
  /-- `sem_count`. -/
  count : ℕ
  /-- The sleepers of `sem_wchan`, in order. -/
  sleepers : List T
  /-- The holder of `sem_wchan`'s spinlock. -/
  chanLock : Option T
  pc : T → Pc

variable {T : Type*} [DecidableEq T]

/-- After `sem_create(name, n)`. -/
def State.init (n : ℕ) : State T where
  count := n
  sleepers := []
  chanLock := none
  pc _ := .idle

/-- The test of `P` by `t`, under `sem_lock`: take one if `sem_count` is
    positive; else `wchan_lock`, which spins while another thread holds the
    channel's spinlock. -/
def pTest (s : State T) (t : T) : Option (State T) :=
  if s.count = 0 then
    match s.chanLock with
    | none => some { s with chanLock := some t, pc := Function.update s.pc t .locked }
    | some _ => none
  else some { s with count := s.count - 1, pc := Function.update s.pc t .inside }

/-- `wchan_sleep`, through `thread_switch`: `t` goes to the tail of the list,
    and the channel's spinlock is released. -/
def pSleep (s : State T) (t : T) : State T :=
  { s with sleepers := s.sleepers ++ [t], chanLock := none, pc := Function.update s.pc t .asleep }

/-- `V` by `t` under `sem_lock`: `sem_count++` on an `int` and
    `KASSERT(sem->sem_count > 0)`, which an increment past `INT_MAX` fails;
    then `wchan_wakeone`, which takes the head of the list off under the
    channel's spinlock. -/
def v (s : State T) (t : T) : Option (State T) :=
  if s.count + 1 < 2 ^ 31 then
    match s.chanLock with
    | some _ => none
    | none =>
      match s.sleepers with
      | [] => some { s with count := s.count + 1, pc := Function.update s.pc t .idle }
      | w :: rest =>
        some { s with count := s.count + 1, sleepers := rest,
                      pc := Function.update (Function.update s.pc t .idle) w .woken }
  else none

/-- The events: one section of one thread. -/
inductive Event (T : Type*)
  /-- The test of `sem_count` in `P`. -/
  | p (t : T)
  /-- The `wchan_sleep` of `P`. -/
  | sleep (t : T)
  /-- `V`, by a thread past its `P`. -/
  | v (t : T)

/-- The step: the event's section, if the thread is at its start. -/
def step (s : State T) : Event T → Option (State T)
  | .p t =>
    match s.pc t with
    | .idle | .woken => pTest s t
    | _ => none
  | .sleep t => if s.pc t = .locked then some (pSleep s t) else none
  | .v t => if s.pc t = .inside then v s t else none

/-- A semaphore created with the count `n`, used by the threads `T`. -/
def machine (n : ℕ) : Machine (State T) (Event T) where
  init := State.init n
  step := step

/-! ## What each section does -/

section Steps

variable {s s' : State T} {t : T} {e : Event T}

theorem pTest_eq (h : pTest s t = some s') :
    (s.count = 0 ∧ s.chanLock = none ∧
        s' = { s with chanLock := some t, pc := Function.update s.pc t .locked }) ∨
      (0 < s.count ∧ s' = { s with count := s.count - 1, pc := Function.update s.pc t .inside }) := by
  unfold pTest at h
  split_ifs at h with hc
  · split at h
    next hl => exact .inl ⟨hc, hl, (Option.some.inj h).symm⟩
    next => cases h
  · exact .inr ⟨Nat.pos_of_ne_zero hc, (Option.some.inj h).symm⟩

theorem v_eq (h : v s t = some s') :
    s.count + 1 < 2 ^ 31 ∧ s.chanLock = none ∧
      ((s.sleepers = [] ∧ s' = { s with count := s.count + 1, pc := Function.update s.pc t .idle }) ∨
        ∃ w rest, s.sleepers = w :: rest ∧
          s' = { s with count := s.count + 1, sleepers := rest,
                        pc := Function.update (Function.update s.pc t .idle) w .woken }) := by
  unfold v at h
  split_ifs at h with hc
  split at h
  next => cases h
  next hl =>
    refine ⟨hc, hl, ?_⟩
    split at h
    next hs => exact .inl ⟨hs, (Option.some.inj h).symm⟩
    next w rest hs => exact .inr ⟨w, rest, hs, (Option.some.inj h).symm⟩

theorem pTest_enabled (hl : s.chanLock = none) : ∃ s', pTest s t = some s' := by
  unfold pTest
  split_ifs
  · rw [hl]
    exact ⟨_, rfl⟩
  · exact ⟨_, rfl⟩

theorem v_enabled (hc : s.count + 1 < 2 ^ 31) (hl : s.chanLock = none) : ∃ s', v s t = some s' := by
  unfold v
  rw [if_pos hc, hl]
  cases s.sleepers <;> exact ⟨_, rfl⟩

/-- The three things a step can be. -/
theorem step_eq (h : step s e = some s') :
    (∃ t, (s.pc t = .idle ∨ s.pc t = .woken) ∧ pTest s t = some s') ∨
      (∃ t, s.pc t = .locked ∧ s' = pSleep s t) ∨
      (∃ t, s.pc t = .inside ∧ v s t = some s') := by
  cases e with
  | p t =>
    simp only [step] at h
    split at h
    next hp => exact .inl ⟨t, .inl hp, h⟩
    next hp => exact .inl ⟨t, .inr hp, h⟩
    next => cases h
  | sleep t =>
    simp only [step] at h
    split_ifs at h with hp
    exact .inr (.inl ⟨t, hp, (Option.some.inj h).symm⟩)
  | v t =>
    simp only [step] at h
    split_ifs at h with hp
    exact .inr (.inr ⟨t, hp, h⟩)

end Steps

/-! ## The invariant -/

section Invariant

variable [Fintype T]

/-- The number of threads at the place `p`. -/
def numAt (pc : T → Pc) (p : Pc) : ℕ := (Finset.univ.filter fun u => pc u = p).card

theorem numAt_update (pc : T → Pc) (t : T) (a p : Pc) :
    numAt (Function.update pc t a) p + (if pc t = p then 1 else 0) = numAt pc p + (if a = p then 1 else 0) :=
  Machine.card_filter_update pc t a (· = p)

theorem numAt_update_of_ne {pc : T → Pc} {t : T} {a p : Pc} (ht : pc t ≠ p) (ha : a ≠ p) :
    numAt (Function.update pc t a) p = numAt pc p := by
  have := numAt_update pc t a p
  rw [if_neg ht, if_neg ha] at this
  omega

/-- `t` leaves the place `p`. -/
theorem numAt_update_leave {pc : T → Pc} {t : T} {a p : Pc} (ht : pc t = p) (ha : a ≠ p) :
    numAt (Function.update pc t a) p + 1 = numAt pc p := by
  have := numAt_update pc t a p
  rw [if_pos ht, if_neg ha] at this
  omega

/-- `t` comes to the place `p`. -/
theorem numAt_update_enter {pc : T → Pc} {t : T} {p : Pc} (ht : pc t ≠ p) :
    numAt (Function.update pc t p) p = numAt pc p + 1 := by
  have := numAt_update pc t p p
  rw [if_neg ht, if_pos rfl] at this
  omega

omit [Fintype T] in
/-- Moving `t` between two places other than `p` keeps who is at `p`. -/
theorem update_eq_iff {pc : T → Pc} {t u : T} {a p : Pc} (ht : pc t ≠ p) (ha : a ≠ p) :
    Function.update pc t a u = p ↔ pc u = p := by
  rcases eq_or_ne u t with rfl | hu
  · rw [Function.update_self]
    exact iff_of_false ha ht
  · rw [Function.update_of_ne hu]

omit [DecidableEq T] in
theorem pos_numAt {pc : T → Pc} {t : T} {p : Pc} (ht : pc t = p) : 0 < numAt pc p :=
  Finset.card_pos.2 ⟨t, Finset.mem_filter.2 ⟨Finset.mem_univ t, ht⟩⟩

/-- A thread about to test `sem_count` is neither asleep nor past `P`. -/
theorem Pc.ne_of_ready {p : Pc} (hp : p = .idle ∨ p = .woken) : p ≠ .asleep ∧ p ≠ .inside := by
  rcases hp with rfl | rfl <;> exact ⟨nofun, nofun⟩

/-- The semaphore's fields agree with where the threads are: the channel's
    spinlock is held by the thread between its test and its sleep, which saw
    `sem_count` zero; the sleepers are the threads asleep, each once;
    `sem_count` and the threads past `P` are `n` together; and while a thread
    sleeps, the count is no more than the threads woken to take it. -/
structure Inv (n : ℕ) (s : State T) : Prop where
  chan_lock : ∀ t, s.chanLock = some t ↔ s.pc t = .locked
  mem_sleepers : ∀ t, t ∈ s.sleepers ↔ s.pc t = .asleep
  nodup : s.sleepers.Nodup
  count_of_locked : ∀ t, s.pc t = .locked → s.count = 0
  conserve : s.count + numAt s.pc .inside = n
  woken : s.sleepers ≠ [] → s.count ≤ numAt s.pc .woken

variable {n : ℕ} {s s' : State T} {t : T}

omit [DecidableEq T] in
theorem inv_init : Inv n (State.init n : State T) where
  chan_lock _ := iff_of_false nofun nofun
  mem_sleepers _ := iff_of_false List.not_mem_nil nofun
  nodup := List.nodup_nil
  count_of_locked _ h := by cases h
  conserve := by simp [State.init, numAt]
  woken h := absurd rfl h

omit [DecidableEq T] in
/-- No thread holds the channel's spinlock when it is free. -/
theorem Inv.not_locked (hi : Inv n s) (hl : s.chanLock = none) (u : T) : s.pc u ≠ .locked := fun hu => by
  rw [← hi.chan_lock, hl] at hu
  cases hu

/-- The test of `P` found `sem_count` zero: `t` takes the channel's spinlock. -/
theorem Inv.lockChan (hi : Inv n s) (hp : s.pc t = .idle ∨ s.pc t = .woken) (hc : s.count = 0)
    (hl : s.chanLock = none) :
    Inv n { s with chanLock := some t, pc := Function.update s.pc t .locked } := by
  obtain ⟨hna, hni⟩ := Pc.ne_of_ready hp
  refine ⟨fun u => ?_, fun u => ?_, hi.nodup, fun _ _ => hc, ?_, fun _ => by simp [hc]⟩ <;> dsimp only
  · -- `t` alone holds the spinlock now: it was free
    rcases eq_or_ne u t with rfl | hu
    · simp
    · rw [Function.update_of_ne hu]
      exact iff_of_false (fun h => hu (Option.some.inj h).symm) (hi.not_locked hl u)
  · rw [update_eq_iff (a := .locked) hna nofun]
    exact hi.mem_sleepers u
  · rw [numAt_update_of_ne (a := .locked) hni nofun]
    exact hi.conserve

/-- The test of `P` found `sem_count` positive: `t` takes one. -/
theorem Inv.take (hi : Inv n s) (hp : s.pc t = .idle ∨ s.pc t = .woken) (hc : 0 < s.count) :
    Inv n { s with count := s.count - 1, pc := Function.update s.pc t .inside } := by
  have hnl : s.pc t ≠ .locked := fun h => hc.ne' (hi.count_of_locked t h)
  obtain ⟨hna, hni⟩ := Pc.ne_of_ready hp
  refine ⟨fun u => ?_, fun u => ?_, hi.nodup, fun u hu => ?_, ?_, fun hne => ?_⟩ <;> dsimp only at *
  · rw [update_eq_iff (a := .inside) hnl nofun]
    exact hi.chan_lock u
  · rw [update_eq_iff (a := .inside) hna nofun]
    exact hi.mem_sleepers u
  · -- no thread sat between its test and its sleep: the count was positive
    exact absurd (hi.count_of_locked u ((update_eq_iff (a := .inside) hnl nofun).1 hu)) hc.ne'
  · have := hi.conserve
    rw [numAt_update_enter hni]
    omega
  · -- one fewer to take, and at most one fewer woken
    have := hi.woken hne
    rcases hp with hp | hp
    · rw [numAt_update_of_ne (a := .inside) (p := .woken) (by rw [hp]; nofun) nofun]
      omega
    · have := numAt_update_leave (a := .inside) hp nofun
      omega

/-- `t` sleeps on the channel and lets its spinlock go (`wchan_sleep`). -/
theorem Inv.sleep (hi : Inv n s) (ht : s.pc t = .locked) : Inv n (pSleep s t) := by
  have hl : s.chanLock = some t := (hi.chan_lock t).2 ht
  have hc : s.count = 0 := hi.count_of_locked t ht
  have hnt : t ∉ s.sleepers := fun h => by
    rw [hi.mem_sleepers, ht] at h
    cases h
  refine ⟨fun u => ?_, fun u => ?_, ?_, fun _ _ => hc, ?_, fun _ => by simp [pSleep, hc]⟩ <;>
    simp only [pSleep]
  · -- the spinlock is free now, and only `t` held it
    rcases eq_or_ne u t with rfl | hu
    · simp
    · rw [Function.update_of_ne hu]
      refine iff_of_false nofun fun h => hu ?_
      rw [← hi.chan_lock, hl] at h
      exact (Option.some.inj h).symm
  · rcases eq_or_ne u t with rfl | hu
    · simp
    · rw [Function.update_of_ne hu, List.mem_append, List.mem_singleton, or_iff_left hu]
      exact hi.mem_sleepers u
  · rw [← List.concat_eq_append]
    exact hi.nodup.concat hnt
  · rw [numAt_update_of_ne (a := .asleep) (p := .inside) (by rw [ht]; nofun) nofun]
    exact hi.conserve

/-- `t` leaves with no thread asleep: `sem_count` goes up. -/
theorem Inv.vEmpty (hi : Inv n s) (ht : s.pc t = .inside) (hl : s.chanLock = none) (hs : s.sleepers = []) :
    Inv n { s with count := s.count + 1, pc := Function.update s.pc t .idle } := by
  have hnl : s.pc t ≠ .locked := by rw [ht]; nofun
  have hna : s.pc t ≠ .asleep := by rw [ht]; nofun
  refine ⟨fun u => ?_, fun u => ?_, hi.nodup, fun u hu => ?_, ?_, fun h => absurd hs h⟩ <;>
    dsimp only at *
  · rw [update_eq_iff (a := .idle) hnl nofun]
    exact hi.chan_lock u
  · rw [update_eq_iff (a := .idle) hna nofun]
    exact hi.mem_sleepers u
  · exact absurd ((update_eq_iff (a := .idle) hnl nofun).1 hu) (hi.not_locked hl u)
  · have := hi.conserve
    have := numAt_update_leave (a := .idle) ht nofun
    omega

/-- `t` leaves and wakes the first sleeper `w` (`wchan_wakeone`): `sem_count`
    goes up, and `w` will take it. -/
theorem Inv.vWake {w : T} {rest : List T} (hi : Inv n s) (ht : s.pc t = .inside) (hl : s.chanLock = none)
    (hs : s.sleepers = w :: rest) :
    Inv n { s with count := s.count + 1, sleepers := rest,
                   pc := Function.update (Function.update s.pc t .idle) w .woken } := by
  have hw : s.pc w = .asleep := (hi.mem_sleepers w).1 (hs ▸ List.mem_cons_self)
  have hwt : w ≠ t := fun h => by
    rw [h, ht] at hw
    cases hw
  -- `w` is still asleep once `t` is idle
  have hw' : Function.update s.pc t .idle w = .asleep := by rw [Function.update_of_ne hwt, hw]
  have hnd := hi.nodup
  rw [hs, List.nodup_cons] at hnd
  have hnl : s.pc t ≠ .locked := by rw [ht]; nofun
  have hnl' : Function.update s.pc t .idle w ≠ .locked := by rw [hw']; nofun
  refine ⟨fun u => ?_, fun u => ?_, hnd.2, fun u hu => ?_, ?_, fun hne => ?_⟩ <;>
    dsimp only
  · rw [update_eq_iff (a := .woken) hnl' nofun, update_eq_iff (a := .idle) hnl nofun]
    exact hi.chan_lock u
  · -- `w` leaves the list woken; the others stay as they were
    rcases eq_or_ne u w with rfl | huw
    · simp [hnd.1]
    rw [Function.update_of_ne huw, update_eq_iff (a := .idle) (p := .asleep) (by rw [ht]; nofun) nofun, ← hi.mem_sleepers, hs,
      List.mem_cons, or_iff_right huw]
  · rw [update_eq_iff (a := .woken) hnl' nofun, update_eq_iff (a := .idle) hnl nofun] at hu
    exact absurd hu (hi.not_locked hl u)
  · have := hi.conserve
    have := numAt_update_leave (a := .idle) ht nofun
    rw [numAt_update_of_ne (a := .woken) (p := .inside) (by rw [hw']; nofun) nofun]
    omega
  · -- the count goes up by one, and so do the woken
    have := hi.woken (hs ▸ List.cons_ne_nil w rest)
    rw [numAt_update_enter (p := .woken) (by rw [hw']; nofun),
      numAt_update_of_ne (a := .idle) (p := .woken) (by rw [ht]; nofun) nofun]
    omega

theorem Inv.step {e : Event T} (hi : Inv n s) (h : step s e = some s') : Inv n s' := by
  rcases step_eq h with ⟨t, hp, h⟩ | ⟨t, ht, rfl⟩ | ⟨t, ht, h⟩
  · rcases pTest_eq h with ⟨hc, hl, rfl⟩ | ⟨hc, rfl⟩
    · exact hi.lockChan hp hc hl
    · exact hi.take hp hc
  · exact hi.sleep ht
  · obtain ⟨-, hl, ⟨hs, rfl⟩ | ⟨w, rest, hs, rfl⟩⟩ := v_eq h
    · exact hi.vEmpty ht hl hs
    · exact hi.vWake ht hl hs

theorem reachable_inv (h : (machine n : Machine (State T) (Event T)).Reachable s) : Inv n s :=
  Machine.reachable_induction inv_init (fun _ _ _ hi hs => hi.step hs) h

omit [DecidableEq T] in
/-- A sleeper and a positive count: some thread is woken to take it. -/
theorem Inv.exists_woken (hi : Inv n s) (ht : s.pc t = .asleep) (hc : 0 < s.count) : ∃ w, s.pc w = .woken := by
  have hw := hi.woken (List.ne_nil_of_mem ((hi.mem_sleepers t).2 ht))
  obtain ⟨w, hw⟩ := Finset.card_pos.1 (show 0 < numAt s.pc .woken by omega)
  exact ⟨w, (Finset.mem_filter.1 hw).2⟩

end Invariant

/-! ## The protocol -/

-- The numerals of `Fin 2` and `Fin 3` below take their `NeZero` instances from here.
local instance twoNeZero : NeZero (2 : Nat) := ⟨two_ne_zero⟩
local instance threeNeZero : NeZero (3 : Nat) := ⟨three_ne_zero⟩

section Protocol

variable [Fintype T] {n : ℕ} {s : State T}

/-- Over every interleaving of `P` and `V`, `sem_count` and the threads past
    `P` and not yet through `V` are together the initial count: no more than
    `n` threads are ever past `P`. -/
theorem count_add_inside (h : (machine n : Machine (State T) (Event T)).Reachable s) :
    s.count + numAt s.pc .inside = n :=
  (reachable_inv h).conserve

/-- Thread `0` takes the semaphore; thread `1` finds it taken and sleeps; `0`
    gives it back and wakes `1`, which takes it. -/
def handoffRun : List (Event (Fin 2)) := [.p 0, .p 1, .sleep 1, .v 0, .p 1]

theorem count_add_inside_handoff :
    ∃ s, (machine 1).run handoffRun = some s ∧ s.pc 1 = .inside ∧
      s.count + numAt s.pc .inside = 1 := by
  have hrun : (machine 1).run handoffRun = some _ := rfl
  exact ⟨_, hrun, rfl, count_add_inside (Machine.run_reachable hrun)⟩

/-- No lost wakeup: while a thread sleeps on the semaphore's channel and
    `sem_count` is positive, a thread has been woken to take it. -/
theorem woken_of_sleeper {t : T} (h : (machine n : Machine (State T) (Event T)).Reachable s)
    (ht : s.pc t = .asleep) (hc : 0 < s.count) : ∃ w, s.pc w = .woken :=
  (reachable_inv h).exists_woken ht hc

/-- Threads `1` and `2` sleep while `0` holds the semaphore; `0` gives it back
    and wakes `1` alone. -/
def twoSleepersRun : List (Event (Fin 3)) := [.p 0, .p 1, .sleep 1, .p 2, .sleep 2, .v 0]

theorem woken_of_sleeper_two_sleepers :
    ∃ s, (machine 1).run twoSleepersRun = some s ∧ s.pc 2 = .asleep ∧ 0 < s.count ∧
      ∃ w, s.pc w = .woken := by
  have hrun : (machine 1).run twoSleepersRun = some _ := rfl
  exact ⟨_, hrun, rfl, Nat.one_pos, woken_of_sleeper (Machine.run_reachable hrun) (t := 2) rfl Nat.one_pos⟩

/-- No deadlock: with a positive count that `V` cannot overflow, some thread
    can always move. -/
theorem exists_step [Nonempty T] (hn : 0 < n) (hn' : n < 2 ^ 31)
    (h : (machine n : Machine (State T) (Event T)).Reachable s) : ∃ e s', step s e = some s' := by
  have hi := reachable_inv h
  -- a thread between its test and its sleep can sleep
  by_cases hlk : ∃ t, s.pc t = .locked
  · obtain ⟨t, ht⟩ := hlk
    exact ⟨.sleep t, _, if_pos ht⟩
  push Not at hlk
  have hl : s.chanLock = none := by
    cases hc : s.chanLock with
    | none => rfl
    | some t => exact absurd ((hi.chan_lock t).1 hc) (hlk t)
  -- a thread past `P` can call `V`: the count is below `n`
  by_cases hin : ∃ t, s.pc t = .inside
  · obtain ⟨t, ht⟩ := hin
    have := pos_numAt ht
    have := hi.conserve
    obtain ⟨s', hs'⟩ := v_enabled (t := t) (by omega) hl
    exact ⟨.v t, s', by rw [step, if_pos ht, hs']⟩
  -- an idle or woken thread can call `P`
  by_cases hw : ∃ t, s.pc t = .idle ∨ s.pc t = .woken
  · obtain ⟨t, hp⟩ := hw
    obtain ⟨s', hs'⟩ := pTest_enabled (t := t) hl
    refine ⟨.p t, s', ?_⟩
    rcases hp with hp | hp <;> simp only [step, hp, hs']
  -- otherwise every thread sleeps: the count is all of `n`, yet none is woken
  push Not at hin hw
  obtain ⟨t⟩ := ‹Nonempty T›
  have ht : s.pc t = .asleep := by
    cases hp : s.pc t with
    | idle => exact absurd hp (hw t).1
    | woken => exact absurd hp (hw t).2
    | locked => exact absurd hp (hlk t)
    | asleep => rfl
    | inside => exact absurd hp (hin t)
  have h0 : numAt s.pc .inside = 0 :=
    Finset.card_eq_zero.2 (Finset.filter_eq_empty_iff.2 fun u _ => hin u)
  obtain ⟨w, hw'⟩ := hi.exists_woken ht (by have := hi.conserve; omega)
  exact absurd hw' (hw w).2

/-- Thread `0` is past `P`; threads `1` and `2` found the count zero and
    sleep. -/
def holderAndSleepersRun : List (Event (Fin 3)) := [.p 0, .p 1, .sleep 1, .p 2, .sleep 2]

/-- With one thread past `P` and the others asleep, a thread can still move. -/
theorem exists_step_holder_and_sleepers :
    ∃ s, (machine 1).run holderAndSleepersRun = some s ∧ s.pc 0 = .inside ∧ s.pc 1 = .asleep ∧
      s.pc 2 = .asleep ∧ ∃ e s', step s e = some s' := by
  have hrun : (machine 1).run holderAndSleepersRun = some _ := rfl
  exact ⟨_, hrun, rfl, rfl, rfl, exists_step Nat.one_pos (by decide) (Machine.run_reachable hrun)⟩

end Protocol

/-! ## The cat and mouse problem

The default `catmouse_synch.c` makes `globalCatMouseSem` a semaphore of count
one: `cat_before_eating` and `mouse_before_eating` are `P` on it, so a creature
eats while it is past `P`, and `cat_after_eating` and `mouse_after_eating` are
`V`. The bowl is not used. -/

/-- `globalCatMouseSem` as `catmouse_sync_init` creates it, with count one; the
    number of bowls is not used. -/
def catmouseSyncInit (_bowls : ℕ) : State T := State.init 1

/-- The creatures, each calling `P` before eating and `V` after, on the
    semaphore `catmouse_sync_init` made. -/
def catmouse (bowls : ℕ) : Machine (State T) (Event T) where
  init := catmouseSyncInit bowls
  step := step

/-- A creature eats between its `*_before_eating` and `*_after_eating`. -/
def Eating (s : State T) (t : T) : Prop := s.pc t = .inside

/-- One creature eats at a time, whatever the bowls. -/
theorem catmouse_one_eater [Fintype T] {bowls : ℕ} {s : State T}
    (h : (catmouse bowls : Machine (State T) (Event T)).Reachable s) {t u : T}
    (ht : Eating s t) (hu : Eating s u) : t = u := by
  -- the same machine as the semaphore's of count one
  have h1 : (machine 1 : Machine (State T) (Event T)).Reachable s := h
  have hle : numAt s.pc .inside ≤ 1 := by
    have := (reachable_inv h1).conserve
    omega
  exact Finset.card_le_one.1 hle t (Finset.mem_filter.2 ⟨Finset.mem_univ t, ht⟩) u
    (Finset.mem_filter.2 ⟨Finset.mem_univ u, hu⟩)

/-- A cat eats; a mouse finds the bowls taken and sleeps. -/
def catThenMouseRun : List (Event (Fin 2)) := [.p 0, .p 1, .sleep 1]

theorem catmouse_one_eater_cat_then_mouse :
    ∃ s, (catmouse 2).run catThenMouseRun = some s ∧ Eating s 0 ∧ s.pc 1 = .asleep ∧
      ∀ u, Eating s u → u = 0 := by
  have hrun : (catmouse 2).run catThenMouseRun = some _ := rfl
  exact ⟨_, hrun, rfl, rfl, fun u hu => catmouse_one_eater (Machine.run_reachable hrun) hu rfl⟩

end Os161.Sem
