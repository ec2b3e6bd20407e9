import Mathlib
import Os161.Lib.Machine

/-!
# Locks and condition variables

The sleep lock of kern/thread/synch.c (`hold`, `owner`, the wait channel
`lock->wc`, and the spinlock `lk_spinlock` around both) and the condition
variables that use it (`cv_wait`, `cv_signal`, `cv_broadcast`, each with its
own wait channel `cv->cv_wc`), over the wait channels of kern/thread/thread.c:
a list of sleeping threads (`wc_threads`, first in first out) and a spinlock
(`wc_lock`).

Every section under a spinlock is one event of `Synch.machine`, and so is
every wait-channel operation. A thread that would spin on a wait channel's
spinlock held by another thread has its event disabled until the holder lets
it go: this is how `lock_acquire` and `cv_wait` keep a `wchan_wakeone` from
running between their test and their sleep. `wchan_sleep` puts the thread at
the tail of the channel's list and releases the channel's spinlock in one
event (`thread_switch`). Only the calls the `KASSERT`s allow are events: a
release, a wait or a signal by the holder, an acquire by a thread that does not
hold the lock.

* `owner_iff_holds`: in every reachable state, `lock->owner` is the one thread
  between the return of `lock_acquire` (or of the one in `cv_wait`) and its
  release, and `hold` is set exactly when there is one;
* `lockWoken_of_sleeper`: while `hold` is clear, a thread asleep on
  `lock->wc` has a runnable companion woken from `lock->wc` that has not tested
  `hold` again;
* `cvSignal_wakes`, `cvBroadcast_wakes`: a signal by the holder makes runnable
  a thread that released the lock in `cv_wait` on that cv before it, a
  broadcast all of them; `signal_broadcast_enabled`: the holder can signal or
  broadcast once no thread is between that release and its sleep.
-/

namespace Os161.Synch

/-- A wait channel: the one of the lock (`lock->wc`) or of a condition
    variable (`cv->cv_wc`). -/
inductive Chan (C : Type*)
  | lock
  | cv (c : C)
  deriving DecidableEq

/-- Where a thread is in `lock_acquire`, `lock_release` and `cv_wait`. -/
inductive Pc (C : Type*)
  /-- Outside the lock's code, not holding the lock. -/
  | idle
  /-- Between the return of `lock_acquire` and the next release. -/
  | holding
  /-- Woken from `lock->wc`, about to test `hold` again. -/
  | lockWoken
  /-- Woken from a cv's channel, about to call `lock_acquire` in `cv_wait`. -/
  | acquiring
  /-- In `lock_acquire`, found `hold` set, holds `lock->wc`'s spinlock. -/
  | acqLocked
  /-- Asleep on a channel. -/
  | asleep (ch : Chan C)
  /-- In `cv_wait`, holds the cv channel's spinlock, before `lock_release`. -/
  | cvLocked (c : C)
  /-- In `cv_wait`, after `lock_release`, before `wchan_sleep`. -/
  | cvReleased (c : C)
  deriving DecidableEq

/-- Where a thread woken from a channel goes on: to the test of `hold` in the
    loop of `lock_acquire`, or from `cv_wait` into `lock_acquire`. -/
def Chan.wakeUp {C : Type*} : Chan C → Pc C
  | .lock => .lockWoken
  | .cv _ => .acquiring

/-- The wait channel whose spinlock a thread holds at its place. -/
def Pc.lockedChan {C : Type*} : Pc C → Option (Chan C)
  | .acqLocked => some .lock
  | .cvLocked c => some (.cv c)
  | .cvReleased c => some (.cv c)
  | _ => none

/-- The places where the lock is the thread's: from the return of
    `lock_acquire` to its release, by `lock_release` or within `cv_wait`. -/
def Pc.Holds {C : Type*} : Pc C → Prop
  | .holding => True
  | .cvLocked _ => True
  | _ => False

/-- The places of a thread that has released the lock within `cv_wait` on `c`
    and has not been woken. -/
def Pc.Released {C : Type*} (c : C) : Pc C → Prop
  | .cvReleased c' => c' = c
  | .asleep ch => ch = .cv c
  | _ => False

section Places

variable {C : Type*} {ch : Chan C} {p : Pc C}

@[simp]
theorem Chan.lockedChan_wakeUp : (ch.wakeUp : Pc C).lockedChan = none := by
  cases ch <;> rfl

@[simp]
theorem Chan.wakeUp_ne_asleep {ch' : Chan C} : ch.wakeUp ≠ .asleep ch' := by
  cases ch <;> simp [Chan.wakeUp]

@[simp]
theorem Chan.not_holds_wakeUp : ¬ (ch.wakeUp : Pc C).Holds := by
  cases ch <;> simp [Chan.wakeUp, Pc.Holds]

@[simp]
theorem Pc.lockedChan_eq_lock : p.lockedChan = some .lock ↔ p = .acqLocked := by
  cases p <;> simp [Pc.lockedChan]

theorem Pc.lockedChan_asleep {ch' : Chan C} : (Pc.asleep ch' : Pc C).lockedChan = none := rfl

theorem Pc.ne_asleep_of_lockedChan (h : p.lockedChan = some ch) {ch' : Chan C} :
    p ≠ .asleep ch' := by
  intro ha
  rw [ha, Pc.lockedChan_asleep] at h
  cases h

end Places

/-- The lock, the wait channels and the threads. -/
structure State (T C : Type*) where
  hold : Bool
  owner : Option T
  /-- The sleepers of each channel, in order (`wc_threads`). -/
  sleepers : Chan C → List T
  /-- The holder of each channel's spinlock (`wc_lock`). -/
  chanLock : Chan C → Option T
  pc : T → Pc C

variable {T C : Type*} [DecidableEq T] [DecidableEq C]

/-- After `lock_create` and `cv_create`: the lock is free, no one sleeps. -/
def State.init : State T C where
  hold := false
  owner := none
  sleepers := fun _ => []
  chanLock := fun _ => none
  pc := fun _ => .idle

/-- The thread `t` moves on to `p`. -/
def setPc (s : State T C) (t : T) (p : Pc C) : State T C :=
  { s with pc := Function.update s.pc t p }

/-- `wchan_lock`: spins while another thread holds the channel's spinlock. -/
def wchanLock (s : State T C) (t : T) (ch : Chan C) : Option (State T C) :=
  match s.chanLock ch with
  | none => some { s with chanLock := Function.update s.chanLock ch (some t) }
  | some _ => none

/-- `wchan_sleep`, through `thread_switch`: the thread goes to the tail of the
    channel's list, and the channel's spinlock is released. -/
def wchanSleep (s : State T C) (t : T) (ch : Chan C) : State T C :=
  { s with sleepers := Function.update s.sleepers ch (s.sleepers ch ++ [t])
           chanLock := Function.update s.chanLock ch none
           pc := Function.update s.pc t (.asleep ch) }

/-- `wchan_wakeone`: under the channel's spinlock, the head of the list is
    taken off and made runnable. -/
def wchanWakeone (s : State T C) (ch : Chan C) : Option (State T C) :=
  match s.chanLock ch with
  | some _ => none
  | none =>
    match s.sleepers ch with
    | [] => some s
    | t :: rest =>
      some { s with sleepers := Function.update s.sleepers ch rest
                    pc := Function.update s.pc t ch.wakeUp }

/-- `wchan_wakeall`: under the channel's spinlock, every sleeper is taken off
    and made runnable. -/
def wchanWakeall (s : State T C) (ch : Chan C) : Option (State T C) :=
  match s.chanLock ch with
  | some _ => none
  | none =>
    some { s with sleepers := Function.update s.sleepers ch []
                  pc := fun u => if u ∈ s.sleepers ch then ch.wakeUp else s.pc u }

/-- One section of `lock_acquire` under `lk_spinlock` by `t`: take the lock if
    it is free, else lock `lock->wc` (then `lk_spinlock` is released). -/
def lockAcquire (s : State T C) (t : T) : Option (State T C) :=
  if s.hold then wchanLock (setPc s t .acqLocked) t .lock
  else some { s with hold := true, owner := some t, pc := Function.update s.pc t .holding }

/-- `lock_release`'s section under `lk_spinlock`. -/
def lockRelease (s : State T C) : Option (State T C) :=
  wchanWakeone { s with hold := false, owner := none } .lock

/-- `lock_do_i_hold`. -/
def lockDoIHold (s : State T C) (t : T) : Bool :=
  s.hold && s.owner == some t

/-- The events: one section of one thread. -/
inductive Event (T C : Type*)
  /-- A test of `hold` in `lock_acquire`. -/
  | acquire (t : T)
  /-- The `wchan_sleep` of `lock_acquire`. -/
  | sleep (t : T)
  /-- `lock_release` by the holder. -/
  | release (t : T)
  /-- The `wchan_lock` that starts `cv_wait` on `c`, by the holder. -/
  | wait (t : T) (c : C)
  /-- The `lock_release` within `cv_wait`. -/
  | waitRelease (t : T)
  /-- The `wchan_sleep` of `cv_wait`. -/
  | waitSleep (t : T)
  /-- `cv_signal` by the holder. -/
  | signal (t : T) (c : C)
  /-- `cv_broadcast` by the holder. -/
  | broadcast (t : T) (c : C)

/-- The step: the event's section, if the thread is at its start. The thread's
    place after the section is set first, as nothing in the section reads it. -/
def step (s : State T C) : Event T C → Option (State T C)
  | .acquire t =>
    match s.pc t with
    | .idle | .lockWoken | .acquiring => lockAcquire s t
    | _ => none
  | .sleep t => if s.pc t = .acqLocked then some (wchanSleep s t .lock) else none
  | .release t => if s.pc t = .holding then lockRelease (setPc s t .idle) else none
  | .wait t c => if s.pc t = .holding then wchanLock (setPc s t (.cvLocked c)) t (.cv c) else none
  | .waitRelease t =>
    match s.pc t with
    | .cvLocked c => lockRelease (setPc s t (.cvReleased c))
    | _ => none
  | .waitSleep t =>
    match s.pc t with
    | .cvReleased c => some (wchanSleep s t (.cv c))
    | _ => none
  | .signal t c => if s.pc t = .holding then wchanWakeone s (.cv c) else none
  | .broadcast t c => if s.pc t = .holding then wchanWakeall s (.cv c) else none

/-- A lock and its condition variables, used by the threads `T`. -/
def machine : Machine (State T C) (Event T C) where
  init := State.init
  step := step

/-! ## What each section does -/

variable {s s' : State T C} {t u : T} {ch : Chan C} {c : C} {p : Pc C}

omit [DecidableEq T] in
theorem wchanLock_eq (h : wchanLock s t ch = some s') :
    s.chanLock ch = none ∧ s' = { s with chanLock := Function.update s.chanLock ch (some t) } := by
  unfold wchanLock at h
  split at h
  next hc => exact ⟨hc, (Option.some.inj h).symm⟩
  next => cases h

theorem wchanWakeone_eq (h : wchanWakeone s ch = some s') :
    s.chanLock ch = none ∧
      ((s.sleepers ch = [] ∧ s' = s) ∨
       ∃ w rest, s.sleepers ch = w :: rest ∧
         s' = { s with sleepers := Function.update s.sleepers ch rest
                       pc := Function.update s.pc w ch.wakeUp }) := by
  unfold wchanWakeone at h
  split at h
  next => cases h
  next hc =>
    refine ⟨hc, ?_⟩
    split at h
    next hl => exact .inl ⟨hl, (Option.some.inj h).symm⟩
    next w rest hl => exact .inr ⟨w, rest, hl, (Option.some.inj h).symm⟩

theorem wchanWakeall_eq (h : wchanWakeall s ch = some s') :
    s.chanLock ch = none ∧
      s' = { s with sleepers := Function.update s.sleepers ch []
                    pc := fun u => if u ∈ s.sleepers ch then ch.wakeUp else s.pc u } := by
  unfold wchanWakeall at h
  split at h
  next => cases h
  next hc => exact ⟨hc, (Option.some.inj h).symm⟩

/-! ## The invariant -/

/-- The lock's fields and the wait channels agree with where the threads are:
    `owner` is the thread that holds the lock, and `hold` says there is one;
    a channel's spinlock is held by the thread at a place that holds it; the
    sleepers of a channel are the threads asleep on it, each once; and a thread
    holds `lock->wc`'s spinlock in `lock_acquire` only while `hold` is set. -/
structure Consistent (s : State T C) : Prop where
  hold_eq : s.hold = s.owner.isSome
  owner_iff : ∀ t, s.owner = some t ↔ (s.pc t).Holds
  chan_lock : ∀ ch t, s.chanLock ch = some t ↔ (s.pc t).lockedChan = some ch
  mem_sleepers : ∀ ch t, t ∈ s.sleepers ch ↔ s.pc t = .asleep ch
  nodup : ∀ ch, (s.sleepers ch).Nodup
  hold_of_acqLocked : ∀ t, s.pc t = .acqLocked → s.hold = true

/-- No lost wakeup of the lock: while it is free, a sleeper on `lock->wc` has
    a companion woken from `lock->wc` that will test `hold` again. -/
def LockWoken (s : State T C) : Prop :=
  s.hold = false → s.sleepers .lock ≠ [] → ∃ w, s.pc w = .lockWoken

omit [DecidableEq T] [DecidableEq C] in
theorem lockWoken_of_hold (h : s.hold = true) : LockWoken s := by
  intro hf
  rw [h] at hf
  cases hf

omit [DecidableEq T] [DecidableEq C] in
theorem consistent_init : Consistent (State.init : State T C) where
  hold_eq := rfl
  owner_iff _ := iff_of_false nofun id
  chan_lock _ _ := iff_of_false nofun nofun
  mem_sleepers _ _ := iff_of_false List.not_mem_nil nofun
  nodup _ := List.nodup_nil
  hold_of_acqLocked _ h := by cases h

omit [DecidableEq T] [DecidableEq C] in
theorem Consistent.hold_of_holds (hI : Consistent s) (h : (s.pc t).Holds) : s.hold = true := by
  rw [hI.hold_eq, (hI.owner_iff t).2 h]
  rfl

omit [DecidableEq C] in
/-- A thread that takes the free lock. -/
theorem consistent_take (hI : Consistent s) (hh : s.hold = false) (hp : (s.pc t).lockedChan = none)
    (ha : ∀ ch, s.pc t ≠ .asleep ch) :
    Consistent { s with hold := true, owner := some t, pc := Function.update s.pc t .holding } := by
  have hnone : s.owner = none := by
    cases ho : s.owner
    · rfl
    · rw [hI.hold_eq, ho] at hh
      cases hh
  refine ⟨rfl, fun u => ?_, fun ch' u => ?_, fun ch' u => ?_, hI.nodup, fun _ _ => rfl⟩ <;>
    dsimp only
  · -- no one held the lock
    rcases eq_or_ne u t with rfl | hu
    · simp [Pc.Holds]
    · rw [Function.update_of_ne hu, ← hI.owner_iff, hnone]
      simp [hu.symm]
  · rcases eq_or_ne u t with rfl | hu
    · rw [Function.update_self, hI.chan_lock, hp]
      rfl
    · rw [Function.update_of_ne hu]
      exact hI.chan_lock ch' u
  · rcases eq_or_ne u t with rfl | hu
    · rw [Function.update_self, hI.mem_sleepers]
      simp [ha ch']
    · rw [Function.update_of_ne hu]
      exact hI.mem_sleepers ch' u

/-- A thread that takes a channel's spinlock, moving on to a place that holds it. -/
theorem consistent_lockChan {p' : Pc C} (h : wchanLock (setPc s t p') t ch = some s')
    (hI : Consistent s) (hp : (s.pc t).lockedChan = none) (ha : ∀ ch', s.pc t ≠ .asleep ch')
    (hp' : p'.lockedChan = some ch) (hholds : p'.Holds ↔ (s.pc t).Holds)
    (hacq : p' = .acqLocked → s.hold = true) : Consistent s' := by
  obtain ⟨hc, rfl⟩ := wchanLock_eq h
  replace hc : s.chanLock ch = none := hc
  refine ⟨hI.hold_eq, fun u => ?_, fun ch' u => ?_, fun ch' u => ?_, hI.nodup, fun u hu => ?_⟩
  · rcases eq_or_ne u t with rfl | hu
    · exact (hI.owner_iff u).trans (by simp [setPc, hholds])
    · simp only [setPc, Function.update_of_ne hu]
      exact hI.owner_iff u
  · simp only [setPc]
    rcases eq_or_ne u t with rfl | hu
    · rw [Function.update_self]
      rcases eq_or_ne ch' ch with rfl | hch
      · simp [hp']
      · rw [Function.update_of_ne hch, hI.chan_lock, hp, hp']
        simp [Ne.symm hch]
    · rw [Function.update_of_ne hu, ← hI.chan_lock]
      rcases eq_or_ne ch' ch with rfl | hch
      · rw [hc]
        simp [Ne.symm hu]
      · rw [Function.update_of_ne hch]
  · simp only [setPc]
    rcases eq_or_ne u t with rfl | hu
    · rw [Function.update_self, hI.mem_sleepers]
      refine iff_of_false (ha ch') fun h' => ?_
      rw [h', Pc.lockedChan_asleep] at hp'
      cases hp'
    · rw [Function.update_of_ne hu]
      exact hI.mem_sleepers ch' u
  · simp only [setPc] at hu
    rcases eq_or_ne u t with rfl | hne
    · exact hacq (by rwa [Function.update_self] at hu)
    · rw [Function.update_of_ne hne] at hu
      exact hI.hold_of_acqLocked u hu

/-- A thread at a place that holds a channel's spinlock goes to sleep on it. -/
theorem consistent_wchanSleep (hI : Consistent s) (hp : (s.pc t).lockedChan = some ch)
    (hh : ¬ (s.pc t).Holds) : Consistent (wchanSleep s t ch) := by
  have ht : s.chanLock ch = some t := (hI.chan_lock ch t).2 hp
  have ha : ∀ ch', s.pc t ≠ .asleep ch' := fun _ => Pc.ne_asleep_of_lockedChan hp
  refine ⟨hI.hold_eq, fun u => ?_, fun ch' u => ?_, fun ch' u => ?_, fun ch' => ?_, fun u hu => ?_⟩ <;>
    dsimp only [wchanSleep] at *
  · rcases eq_or_ne u t with rfl | hu
    · rw [Function.update_self]
      exact iff_of_false (fun h' => hh ((hI.owner_iff u).1 h')) id
    · rw [Function.update_of_ne hu]
      exact hI.owner_iff u
  · rcases eq_or_ne ch' ch with rfl | hch
    · rw [Function.update_self]
      refine iff_of_false nofun fun h' => ?_
      rcases eq_or_ne u t with rfl | hu
      · rw [Function.update_self] at h'
        cases h'
      · rw [Function.update_of_ne hu, ← hI.chan_lock, ht] at h'
        exact hu (Option.some.inj h').symm
    · rw [Function.update_of_ne hch]
      rcases eq_or_ne u t with rfl | hu
      · rw [Function.update_self, hI.chan_lock, hp]
        exact iff_of_false (fun h' => hch (Option.some.inj h').symm) nofun
      · rw [Function.update_of_ne hu]
        exact hI.chan_lock ch' u
  · rcases eq_or_ne ch' ch with rfl | hch
    · rw [Function.update_self, List.mem_append, List.mem_singleton]
      rcases eq_or_ne u t with rfl | hu
      · simp
      · rw [Function.update_of_ne hu, hI.mem_sleepers]
        simp [hu]
    · rw [Function.update_of_ne hch]
      rcases eq_or_ne u t with rfl | hu
      · rw [Function.update_self, hI.mem_sleepers]
        exact iff_of_false (ha ch') fun h' => hch (Pc.asleep.inj h').symm
      · rw [Function.update_of_ne hu]
        exact hI.mem_sleepers ch' u
  · rcases eq_or_ne ch' ch with rfl | hch
    · rw [Function.update_self, ← List.concat_eq_append]
      exact (hI.nodup ch').concat fun h' => ha ch' ((hI.mem_sleepers ch' t).1 h')
    · rw [Function.update_of_ne hch]
      exact hI.nodup ch'
  · rcases eq_or_ne u t with rfl | hne
    · rw [Function.update_self] at hu
      cases hu
    · rw [Function.update_of_ne hne] at hu
      exact hI.hold_of_acqLocked u hu

omit [DecidableEq C] in
/-- The holder leaves the lock (before the wakeup of `lock_release`), moving
    on to a place that does not hold it. -/
theorem consistent_release {p' : Pc C} (hI : Consistent s) (hh : (s.pc t).Holds)
    (hc : s.chanLock .lock = none) (hp' : p'.lockedChan = (s.pc t).lockedChan) (hnh : ¬ p'.Holds)
    (ha : ∀ ch, p' ≠ .asleep ch) :
    Consistent { setPc s t p' with hold := false, owner := none } := by
  have hown : s.owner = some t := (hI.owner_iff t).2 hh
  refine ⟨rfl, fun u => ?_, fun ch' u => ?_, fun ch' u => ?_, hI.nodup, fun u hu => ?_⟩ <;>
    dsimp only [setPc] at *
  · -- the holder was the only one
    refine iff_of_false nofun fun h' => ?_
    rcases eq_or_ne u t with rfl | hu
    · rw [Function.update_self] at h'
      exact hnh h'
    · rw [Function.update_of_ne hu, ← hI.owner_iff, hown] at h'
      exact hu (Option.some.inj h').symm
  · rcases eq_or_ne u t with rfl | hu
    · rw [Function.update_self, hp']
      exact hI.chan_lock ch' u
    · rw [Function.update_of_ne hu]
      exact hI.chan_lock ch' u
  · rcases eq_or_ne u t with rfl | hu
    · rw [Function.update_self, hI.mem_sleepers]
      refine iff_of_false (fun h' => ?_) (ha ch')
      rw [h'] at hh
      exact hh
    · rw [Function.update_of_ne hu]
      exact hI.mem_sleepers ch' u
  · -- no thread holds `lock->wc`'s spinlock in `lock_acquire`
    exfalso
    rcases eq_or_ne u t with rfl | hne
    · rw [Function.update_self] at hu
      rw [hu, Pc.lockedChan] at hp'
      rw [(Pc.lockedChan_eq_lock).1 hp'.symm] at hh
      exact hh
    · rw [Function.update_of_ne hne] at hu
      have := (hI.chan_lock .lock u).2 ((Pc.lockedChan_eq_lock).2 hu)
      rw [hc] at this
      cases this

omit [DecidableEq T] [DecidableEq C] in
/-- The facts about a sleeper that the wakeups use. -/
theorem Consistent.of_asleep (hI : Consistent s) (h : s.pc u = .asleep ch) :
    s.owner ≠ some u ∧ (∀ ch', s.chanLock ch' ≠ some u) := by
  refine ⟨fun h' => ?_, fun ch' h' => ?_⟩
  · have := (hI.owner_iff u).1 h'
    rw [h] at this
    exact this
  · have := (hI.chan_lock ch' u).1 h'
    rw [h, Pc.lockedChan_asleep] at this
    cases this

theorem consistent_wchanWakeone (hI : Consistent s) (h : wchanWakeone s ch = some s') :
    Consistent s' := by
  obtain ⟨-, ⟨-, rfl⟩ | ⟨w, rest, hl, rfl⟩⟩ := wchanWakeone_eq h
  · exact hI
  have hnd := hI.nodup ch
  rw [hl, List.nodup_cons] at hnd
  have hw : s.pc w = .asleep ch := (hI.mem_sleepers ch w).1 (by simp [hl])
  obtain ⟨hwo, hwc⟩ := hI.of_asleep hw
  refine ⟨hI.hold_eq, fun u => ?_, fun ch' u => ?_, fun ch' u => ?_, fun ch' => ?_, fun u hu => ?_⟩ <;>
    dsimp only at *
  · rcases eq_or_ne u w with rfl | hu
    · rw [Function.update_self]
      exact iff_of_false hwo Chan.not_holds_wakeUp
    · rw [Function.update_of_ne hu]
      exact hI.owner_iff u
  · rcases eq_or_ne u w with rfl | hu
    · rw [Function.update_self, Chan.lockedChan_wakeUp]
      exact iff_of_false (hwc ch') nofun
    · rw [Function.update_of_ne hu]
      exact hI.chan_lock ch' u
  · rcases eq_or_ne ch' ch with rfl | hch
    · rw [Function.update_self]
      rcases eq_or_ne u w with rfl | hu
      · rw [Function.update_self]
        exact iff_of_false hnd.1 Chan.wakeUp_ne_asleep
      · rw [Function.update_of_ne hu, ← hI.mem_sleepers, hl]
        simp [hu]
    · rw [Function.update_of_ne hch]
      rcases eq_or_ne u w with rfl | hu
      · rw [Function.update_self, hI.mem_sleepers, hw]
        exact iff_of_false (fun h' => hch (Pc.asleep.inj h').symm) Chan.wakeUp_ne_asleep
      · rw [Function.update_of_ne hu]
        exact hI.mem_sleepers ch' u
  · rcases eq_or_ne ch' ch with rfl | hch
    · rw [Function.update_self]
      exact hnd.2
    · rw [Function.update_of_ne hch]
      exact hI.nodup ch'
  · rcases eq_or_ne u w with rfl | hne
    · rw [Function.update_self] at hu
      cases ch <;> cases hu
    · rw [Function.update_of_ne hne] at hu
      exact hI.hold_of_acqLocked u hu

theorem consistent_wchanWakeall (hI : Consistent s) (h : wchanWakeall s ch = some s') :
    Consistent s' := by
  obtain ⟨-, rfl⟩ := wchanWakeall_eq h
  refine ⟨hI.hold_eq, fun u => ?_, fun ch' u => ?_, fun ch' u => ?_, fun ch' => ?_, fun u hu => ?_⟩ <;>
    dsimp only at *
  · split_ifs with hm
    · exact iff_of_false (hI.of_asleep ((hI.mem_sleepers ch u).1 hm)).1 Chan.not_holds_wakeUp
    · exact hI.owner_iff u
  · split_ifs with hm
    · rw [Chan.lockedChan_wakeUp]
      exact iff_of_false ((hI.of_asleep ((hI.mem_sleepers ch u).1 hm)).2 ch') nofun
    · exact hI.chan_lock ch' u
  · rcases eq_or_ne ch' ch with rfl | hch
    · rw [Function.update_self]
      split_ifs with hm
      · exact iff_of_false List.not_mem_nil Chan.wakeUp_ne_asleep
      · exact iff_of_false List.not_mem_nil fun h' => hm ((hI.mem_sleepers ch' u).2 h')
    · rw [Function.update_of_ne hch]
      split_ifs with hm
      · rw [hI.mem_sleepers, (hI.mem_sleepers ch u).1 hm]
        exact iff_of_false (fun h' => hch (Pc.asleep.inj h').symm) Chan.wakeUp_ne_asleep
      · exact hI.mem_sleepers ch' u
  · rcases eq_or_ne ch' ch with rfl | hch
    · rw [Function.update_self]
      exact List.nodup_nil
    · rw [Function.update_of_ne hch]
      exact hI.nodup ch'
  · split_ifs at hu with hm
    · cases ch <;> cases hu
    · exact hI.hold_of_acqLocked u hu

theorem hold_wchanWakeone (h : wchanWakeone s ch = some s') : s'.hold = s.hold := by
  obtain ⟨-, ⟨-, rfl⟩ | ⟨w, rest, -, rfl⟩⟩ := wchanWakeone_eq h <;> rfl

/-- The wakeup in `lock_release`: the lock is free, and if a sleeper is left on
    `lock->wc`, the one before it has just been woken. -/
theorem lockWoken_wchanWakeone_lock (h : wchanWakeone s .lock = some s') : LockWoken s' := by
  intro _ hne
  obtain ⟨-, ⟨hl, rfl⟩ | ⟨w, rest, -, rfl⟩⟩ := wchanWakeone_eq h
  · exact absurd hl hne
  · exact ⟨w, Function.update_self _ _ _⟩

/-- A sleep on a cv's channel leaves `lock->wc` and its woken threads as they were. -/
theorem lockWoken_wchanSleep_cv (hW : LockWoken s) (ht : s.pc t ≠ .lockWoken) :
    LockWoken (wchanSleep s t (.cv c)) := by
  intro hh hne
  obtain ⟨w, hw⟩ := hW hh hne
  refine ⟨w, ?_⟩
  have hwt : w ≠ t := by
    rintro rfl
    exact ht hw
  show Function.update s.pc t (.asleep (.cv c)) w = .lockWoken
  rw [Function.update_of_ne hwt, hw]

/-- The invariant of the reachable states. -/
structure Inv (s : State T C) : Prop where
  consistent : Consistent s
  lockWoken : LockWoken s

omit [DecidableEq T] [DecidableEq C] in
theorem inv_init : Inv (State.init : State T C) :=
  ⟨consistent_init, fun _ h => absurd rfl h⟩

/-- The sections of `lock_acquire`, from a place that does not hold the lock
    or a channel's spinlock and is not asleep. -/
theorem acquire_inv (hC : Consistent s) (hp : (s.pc t).lockedChan = none)
    (ha : ∀ ch, s.pc t ≠ .asleep ch) (hnh : ¬ (s.pc t).Holds) (h : lockAcquire s t = some s') :
    Inv s' := by
  unfold lockAcquire at h
  split_ifs at h with hh
  · -- the lock is held: take `lock->wc`'s spinlock
    refine ⟨consistent_lockChan h hC hp ha rfl (iff_of_false id hnh) (fun _ => hh),
      lockWoken_of_hold ?_⟩
    obtain ⟨-, rfl⟩ := wchanLock_eq h
    exact hh
  · cases h
    exact ⟨consistent_take hC (by simpa using hh) hp ha, lockWoken_of_hold rfl⟩

/-- `lock_release` by the holder, alone or within `cv_wait`. -/
theorem release_inv {p' : Pc C} (h : lockRelease (setPc s t p') = some s') (hC : Consistent s)
    (hh : (s.pc t).Holds) (hp' : p'.lockedChan = (s.pc t).lockedChan) (hnh : ¬ p'.Holds)
    (ha : ∀ ch, p' ≠ .asleep ch) : Inv s' :=
  ⟨consistent_wchanWakeone (consistent_release hC hh (wchanWakeone_eq h).1 hp' hnh ha) h,
    lockWoken_wchanWakeone_lock h⟩

theorem inv_step {e : Event T C} (hI : Inv s) (h : step s e = some s') : Inv s' := by
  obtain ⟨hC, hW⟩ := hI
  cases e with
  | acquire t =>
    simp only [step] at h
    split at h
    next hp => exact acquire_inv hC (by rw [hp]; rfl) (by simp [hp]) (by simp [hp, Pc.Holds]) h
    next hp => exact acquire_inv hC (by rw [hp]; rfl) (by simp [hp]) (by simp [hp, Pc.Holds]) h
    next hp => exact acquire_inv hC (by rw [hp]; rfl) (by simp [hp]) (by simp [hp, Pc.Holds]) h
    next => cases h
  | sleep t =>
    simp only [step] at h
    split_ifs at h with hp
    cases h
    exact ⟨consistent_wchanSleep hC (by rw [hp]; rfl) (by rw [hp]; exact id),
      lockWoken_of_hold (hC.hold_of_acqLocked t hp)⟩
  | release t =>
    simp only [step] at h
    split_ifs at h with hp
    exact release_inv h hC (by rw [hp]; trivial) (by rw [hp]; rfl) id (fun _ => nofun)
  | wait t c =>
    simp only [step] at h
    split_ifs at h with hp
    have hhold := hC.hold_of_holds (t := t) (by rw [hp]; trivial)
    refine ⟨consistent_lockChan h hC (by rw [hp]; rfl) (by simp [hp]) rfl
      (iff_of_true trivial (by rw [hp]; trivial)) nofun, lockWoken_of_hold ?_⟩
    obtain ⟨-, rfl⟩ := wchanLock_eq h
    exact hhold
  | waitRelease t =>
    simp only [step] at h
    split at h
    next c hp => exact release_inv h hC (by rw [hp]; trivial) (by rw [hp]; rfl) id (fun _ => nofun)
    next => cases h
  | waitSleep t =>
    simp only [step] at h
    split at h
    next c hp =>
      cases h
      exact ⟨consistent_wchanSleep hC (by rw [hp]; rfl) (by rw [hp]; exact id),
        lockWoken_wchanSleep_cv hW (by simp [hp])⟩
    next => cases h
  | signal t c =>
    simp only [step] at h
    split_ifs at h with hp
    refine ⟨consistent_wchanWakeone hC h, lockWoken_of_hold ?_⟩
    rw [hold_wchanWakeone h]
    exact hC.hold_of_holds (t := t) (by rw [hp]; trivial)
  | broadcast t c =>
    simp only [step] at h
    split_ifs at h with hp
    refine ⟨consistent_wchanWakeall hC h, lockWoken_of_hold ?_⟩
    obtain ⟨-, rfl⟩ := wchanWakeall_eq h
    show s.hold = true
    exact hC.hold_of_holds (t := t) (by rw [hp]; trivial)

theorem inv_reachable (h : machine.Reachable s) : Inv s :=
  Machine.reachable_induction inv_init (fun s e s' hI hs => inv_step hI (show step s e = some s' from hs)) h

/-! ## The protocol -/

omit [DecidableEq T] [DecidableEq C] in
/-- Mutual exclusion: `hold` is set exactly when a thread holds the lock, there
    is at most one such thread, and `owner` is that thread. -/
theorem owner_iff_holds (hC : Consistent s) :
    (s.hold = true ↔ ∃ t, (s.pc t).Holds) ∧ (∀ t u, (s.pc t).Holds → (s.pc u).Holds → t = u) ∧
      ∀ t, s.owner = some t ↔ (s.pc t).Holds := by
  refine ⟨?_, fun t u ht hu => ?_, hC.owner_iff⟩
  · rw [hC.hold_eq]
    constructor
    · intro h
      obtain ⟨t, ht⟩ := Option.isSome_iff_exists.1 h
      exact ⟨t, (hC.owner_iff t).1 ht⟩
    · rintro ⟨t, ht⟩
      rw [(hC.owner_iff t).2 ht]
      rfl
  · have h1 := (hC.owner_iff t).2 ht
    rw [(hC.owner_iff u).2 hu] at h1
    exact (Option.some.inj h1).symm

omit [DecidableEq C] in
theorem lockDoIHold_iff (hC : Consistent s) : lockDoIHold s t = true ↔ (s.pc t).Holds := by
  rw [← hC.owner_iff, lockDoIHold, hC.hold_eq]
  cases s.owner <;> simp

omit [DecidableEq T] [DecidableEq C] in
/-- No lost wakeup of the lock. -/
theorem lockWoken_of_sleeper (hI : Inv s) (hh : s.hold = false) (ht : s.pc t = .asleep .lock) :
    ∃ w, s.pc w = .lockWoken :=
  hI.lockWoken hh (List.ne_nil_of_mem ((hI.consistent.mem_sleepers .lock t).2 ht))

theorem step_signal (h : step s (.signal t c) = some s') :
    s.pc t = .holding ∧ wchanWakeone s (.cv c) = some s' := by
  simp only [step] at h
  split_ifs at h with hp
  exact ⟨hp, h⟩

theorem step_broadcast (h : step s (.broadcast t c) = some s') :
    s.pc t = .holding ∧ wchanWakeall s (.cv c) = some s' := by
  simp only [step] at h
  split_ifs at h with hp
  exact ⟨hp, h⟩

omit [DecidableEq T] [DecidableEq C] in
/-- A thread past the release of `cv_wait` on `c` is asleep on the cv's channel
    once no thread holds that channel's spinlock. -/
theorem Consistent.asleep_of_released {w : T} (hC : Consistent s) (hc : s.chanLock (.cv c) = none)
    (hw : (s.pc w).Released c) : s.pc w = .asleep (.cv c) := by
  unfold Pc.Released at hw
  split at hw
  next c' hp =>
    -- between the release and the sleep it holds the channel's spinlock
    subst hw
    have := (hC.chan_lock (.cv c') w).2 (by rw [hp]; rfl)
    rw [hc] at this
    cases this
  next ch hp => rw [hp, hw]
  next => exact hw.elim

/-- No lost signal: a `cv_signal` by the holder makes runnable one of the
    threads that have released the lock in `cv_wait` on that cv, if any has. -/
theorem cvSignal_wakes (hC : Consistent s) (h : step s (.signal t c) = some s')
    (hw : ∃ w, (s.pc w).Released c) : ∃ w, (s.pc w).Released c ∧ s'.pc w = .acquiring := by
  obtain ⟨-, h⟩ := step_signal h
  obtain ⟨hc, ⟨hl, -⟩ | ⟨v, rest, hl, rfl⟩⟩ := wchanWakeone_eq h
  · -- every such thread is asleep on the channel, which is not empty
    obtain ⟨w, hw⟩ := hw
    have := (hC.mem_sleepers _ w).2 (hC.asleep_of_released hc hw)
    rw [hl] at this
    cases this
  · have hv : s.pc v = .asleep (.cv c) := (hC.mem_sleepers _ v).1 (by rw [hl]; exact List.mem_cons_self)
    exact ⟨v, by rw [hv]; rfl, Function.update_self _ _ _⟩

/-- No lost broadcast: a `cv_broadcast` by the holder makes runnable every
    thread that has released the lock in `cv_wait` on that cv. -/
theorem cvBroadcast_wakes {w : T} (hC : Consistent s) (h : step s (.broadcast t c) = some s')
    (hw : (s.pc w).Released c) : s'.pc w = .acquiring := by
  obtain ⟨-, h⟩ := step_broadcast h
  obtain ⟨hc, rfl⟩ := wchanWakeall_eq h
  show (if w ∈ s.sleepers (.cv c) then _ else _) = _
  rw [if_pos ((hC.mem_sleepers _ w).2 (hC.asleep_of_released hc hw))]
  rfl

omit [DecidableEq T] [DecidableEq C] in
/-- The spinlock of a cv's channel is free while the lock's holder is at
    `holding` and no thread is between the release and the sleep of
    `cv_wait` on that cv. -/
theorem Consistent.chanLock_cv (hC : Consistent s) (ht : s.pc t = .holding)
    (hw : ∀ w, s.pc w ≠ .cvReleased c) : s.chanLock (.cv c) = none := by
  cases h : s.chanLock (.cv c) with
  | none => rfl
  | some u =>
    have hu := (hC.chan_lock _ u).1 h
    cases hp : s.pc u with
    | cvLocked c' =>
      -- a second thread holding the lock: it is the holder, at `holding`
      have hheld : (s.pc u).Holds := by rw [hp]; trivial
      have htu : u = t := Option.some.inj (((hC.owner_iff u).2 hheld).symm.trans ((hC.owner_iff t).2 (by rw [ht]; trivial)))
      rw [htu, ht] at hp
      cases hp
    | cvReleased c' =>
      rw [hp] at hu
      obtain rfl : c' = c := by simpa [Pc.lockedChan] using hu
      exact absurd hp (hw u)
    | _ => rw [hp] at hu; simp [Pc.lockedChan] at hu

/-- The holder can signal and broadcast on a cv once no thread is between the
    release and the sleep of `cv_wait` on it. -/
theorem signal_broadcast_enabled (hC : Consistent s) (ht : s.pc t = .holding)
    (hw : ∀ w, s.pc w ≠ .cvReleased c) :
    (∃ s', step s (.signal t c) = some s') ∧ ∃ s', step s (.broadcast t c) = some s' := by
  have hc := hC.chanLock_cv ht hw
  constructor
  · simp only [step, if_pos ht, wchanWakeone, hc]
    split <;> exact ⟨_, rfl⟩
  · simp only [step, if_pos ht, wchanWakeall, hc]
    exact ⟨_, rfl⟩

theorem lock_cv_protocol (hs : machine.Reachable s) :
    ((s.hold = true ↔ ∃ t, (s.pc t).Holds) ∧ (∀ t u, (s.pc t).Holds → (s.pc u).Holds → t = u) ∧
      (∀ t, s.owner = some t ↔ (s.pc t).Holds) ∧ (∀ t, lockDoIHold s t = true ↔ (s.pc t).Holds)) ∧
    (s.hold = false → ∀ t, s.pc t = .asleep .lock → ∃ w, s.pc w = .lockWoken) ∧
    (∀ t c s', machine.step s (.signal t c) = some s' → (∃ w, (s.pc w).Released c) →
      ∃ w, (s.pc w).Released c ∧ s'.pc w = .acquiring) ∧
    (∀ t c s', machine.step s (.broadcast t c) = some s' →
      ∀ w, (s.pc w).Released c → s'.pc w = .acquiring) ∧
    (∀ t c, s.pc t = .holding → (∀ w, s.pc w ≠ .cvReleased c) →
      (∃ s', machine.step s (.signal t c) = some s') ∧ ∃ s', machine.step s (.broadcast t c) = some s') := by
  have hI := inv_reachable hs
  obtain ⟨h1, h2, h3⟩ := owner_iff_holds hI.consistent
  exact ⟨⟨h1, h2, h3, fun _ => lockDoIHold_iff hI.consistent⟩,
    fun hh _ ht => lockWoken_of_sleeper hI hh ht,
    fun _ _ _ h hw => cvSignal_wakes hI.consistent h hw,
    fun _ _ _ h _ hw => cvBroadcast_wakes hI.consistent h hw,
    fun _ _ ht hw => signal_broadcast_enabled hI.consistent ht hw⟩

/-- Thread `0` waits on the cv; thread `1` takes the lock, signals and releases
    it; thread `0` takes it back. -/
def signalRun : List (Event (Fin 2) Unit) :=
  [.acquire 0, .wait 0 (), .waitRelease 0, .waitSleep 0, .acquire 1, .signal 1 (), .release 1,
    .acquire 0]

theorem lock_cv_protocol_run :
    ∃ s, machine.run signalRun = some s ∧ s.owner = some 0 ∧
      (∀ t, s.owner = some t ↔ (s.pc t).Holds) :=
  ⟨_, rfl, rfl, (lock_cv_protocol (@Machine.run_reachable _ _ machine signalRun _ rfl)).1.2.2.1⟩

end Os161.Synch
