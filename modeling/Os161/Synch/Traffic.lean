import Mathlib
import Os161.Lib.Machine

/-!
# The traffic intersection monitor

`intersection_before_entry` and `intersection_after_exit`
(kern/synchprobs/traffic_synch.c) let vehicles through an intersection under
one lock `lk_mutex` and one condition variable per direction. The monitor
keeps `count`, the vehicles inside; `currentTraffic`, the direction allowed in
(`-1` for none); and `waitlist`, a queue of the directions with a vehicle
waiting, of length `len_waitlist`.

* A vehicle enters at once when the intersection is empty and its direction is
  the current one or there is none; otherwise it queues its direction (if not
  queued yet) and waits on the condition variable of its origin.
* The last vehicle out pops the first queued direction into `currentTraffic`
  (or sets it to `-1`) and broadcasts on that direction's condition variable.
* A vehicle woken by the broadcast takes `lk_mutex` again, increments `count`
  and enters, *without testing `currentTraffic` again*.

Every critical section of `lk_mutex` is one event of the machine
(`Traffic.machine`): an arrival (which, in `cv_wait`, releases the lock and
blocks atomically, the cv's wait channel being locked before the lock is
released), the reacquisition by a woken vehicle, and an exit. A broadcast moves
every vehicle blocked on that cv to the woken ones, which may take the lock at
any later event.

* `sameOrigin_of_run_of_no_reacquire`: along the runs in which no woken vehicle
  takes the lock again, the vehicles inside all come from one origin: an
  arrival enters only an empty intersection, and an exit removes a vehicle;
* `intersection_admits_two_origins`: the reacquisition breaks it. A vehicle
  woken for south, overtaken by a southbound vehicle that crosses and empties
  the queue, and by a northbound one that then enters, re-enters beside it;
  the two vehicles conflict in `check_constraints` (kern/synchprobs/traffic.c);
* `blocked_direction_queued`: in every reachable state the queue is well
  formed (`WellQueued`: the entries other than `-1` are exactly those below
  `len_waitlist`, which stays in `[0, 4]`, and they are distinct directions)
  and holds the direction of every vehicle asleep in `cv_wait`, which stays
  asleep until an exit pops its direction and broadcasts on its condition
  variable; the exit of the last vehicle inside pops the first queued
  direction and wakes every vehicle asleep on it (`exit_last_wakes`). A full
  queue holds all four directions
  (`WellQueued.inQueue_of_full`), so skipping the append when `len_waitlist`
  is `4` loses no waiter.
-/

namespace Os161.Traffic

/-- The directions of `enum Directions` (kern/include/synchprobs.h). -/
inductive Direction
  | north
  | east
  | south
  | west
  deriving DecidableEq, Repr

/-- `transDir`: the number the monitor stores for a direction in
    `currentTraffic` and `waitlist`. -/
def transDir : Direction → Int
  | .north => 0
  | .east => 1
  | .south => 2
  | .west => 3

/-- A vehicle of the simulation (`struct Vehicles`, traffic.c). -/
structure Vehicle where
  origin : Direction
  destination : Direction
  deriving DecidableEq, Repr

/-! ## The constraints of the simulation -/

/-- `right_turn` (traffic.c). -/
def rightTurn (v : Vehicle) : Bool :=
  (v.origin == .west && v.destination == .south) ||
    (v.origin == .south && v.destination == .east) ||
    (v.origin == .east && v.destination == .north) ||
    (v.origin == .north && v.destination == .west)

/-- The test `check_constraints` (traffic.c) makes of the vehicle `v` that has
    just entered against a vehicle `w` inside: `true` when they may be inside
    together, `false` when it panics. -/
def compatible (w v : Vehicle) : Bool :=
  w.origin == v.origin ||
    (w.origin == v.destination && w.destination == v.origin) ||
    ((rightTurn w || rightTurn v) && v.destination != w.destination)

/-! ## The monitor -/

/-- Where a vehicle's thread is in the monitor. -/
inductive Phase
  /-- Outside the intersection, in neither function. -/
  | away
  /-- In `cv_wait` on the condition variable of its origin. -/
  | blocked (v : Vehicle)
  /-- Woken by `cv_broadcast`, not holding `lk_mutex` yet. -/
  | woken (v : Vehicle)
  /-- Inside the intersection. -/
  | inside (v : Vehicle)
  deriving DecidableEq, Repr

variable {T : Type*}

/-- The monitor's globals, and the phase of the thread of every vehicle. -/
structure State (T : Type*) where
  count : Int
  currentTraffic : Int
  waitlist : Fin 4 → Int
  lenWaitlist : Int
  phase : T → Phase

/-- The initial values of traffic_synch.c: nobody inside, no direction, an
    empty queue. -/
def State.init : State T where
  count := 0
  currentTraffic := -1
  waitlist := fun _ => -1
  lenWaitlist := 0
  phase := fun _ => .away

/-- The queueing in `intersection_before_entry`: unless `len_waitlist` is `4`,
    the direction `d` is stored at `waitlist[len_waitlist]` if no entry holds it
    yet. (An index outside the array is never reached, `len_waitlist` staying
    in `[0, 4]`; the model leaves the array as it is there.) -/
def enqueue (w : Fin 4 → Int) (len d : Int) : (Fin 4 → Int) × Int :=
  if len ≠ 4 then
    if (List.finRange 4).any (fun i => w i == d) then (w, len)
    else if h : 0 ≤ len ∧ len < 4 then
      (Function.update w ⟨len.toNat, by omega⟩ d, len + 1)
    else (w, len + 1)
  else (w, len)

/-- The loop of `intersection_after_exit` moving the queue one place up, and
    `waitlist[3] = -1`. -/
def shiftWaitlist (w : Fin 4 → Int) : Fin 4 → Int :=
  fun i => if h : i.val < 3 then w ⟨i.val + 1, by omega⟩ else -1

/-- `cv_broadcast` on the condition variable of the direction `d`: every vehicle
    blocked on it is woken. -/
def broadcast (phase : T → Phase) (d : Int) : T → Phase :=
  fun t =>
    match phase t with
    | .blocked v => if transDir v.origin = d then .woken v else .blocked v
    | p => p

/-- The hand-over of the last vehicle out: the first queued direction becomes
    the current one and leaves the queue, or there is none. -/
def popWaitlist (s : State T) : State T :=
  if s.waitlist 0 = -1 then { s with currentTraffic := -1 }
  else { s with currentTraffic := s.waitlist 0, waitlist := shiftWaitlist s.waitlist,
                lenWaitlist := s.lenWaitlist - 1 }

/-- The broadcast on the condition variable of the current direction. -/
def wakeCurrent (s : State T) : State T :=
  { s with phase := broadcast s.phase s.currentTraffic }

@[simp] theorem popWaitlist_count (s : State T) : (popWaitlist s).count = s.count := by
  unfold popWaitlist
  split <;> rfl
@[simp] theorem popWaitlist_phase (s : State T) : (popWaitlist s).phase = s.phase := by
  unfold popWaitlist
  split <;> rfl
@[simp] theorem wakeCurrent_count (s : State T) : (wakeCurrent s).count = s.count := rfl
@[simp] theorem wakeCurrent_phase (s : State T) :
    (wakeCurrent s).phase = broadcast s.phase s.currentTraffic := rfl

variable [DecidableEq T]

/-- The critical section of `intersection_before_entry` for the vehicle `v` of
    the thread `t`: it enters, or queues its direction and blocks. -/
def intersectionBeforeEntry (s : State T) (t : T) (v : Vehicle) : State T :=
  if s.count = 0 ∧ (s.currentTraffic = -1 ∨ s.currentTraffic = transDir v.origin) then
    { s with count := s.count + 1, currentTraffic := transDir v.origin,
             phase := Function.update s.phase t (.inside v) }
  else
    let q := enqueue s.waitlist s.lenWaitlist (transDir v.origin)
    { s with waitlist := q.1, lenWaitlist := q.2,
             phase := Function.update s.phase t (.blocked v) }

/-- The end of `cv_wait` in `intersection_before_entry`: the woken vehicle `v`
    holds `lk_mutex` again, increments `count` and enters. -/
def reenter (s : State T) (t : T) (v : Vehicle) : State T :=
  { s with count := s.count + 1, phase := Function.update s.phase t (.inside v) }

/-- `count--` in `intersection_after_exit`, the thread leaving. -/
def leave (s : State T) (t : T) : State T :=
  { s with count := s.count - 1, phase := Function.update s.phase t .away }

/-- The critical section of `intersection_after_exit` for the thread `t`. -/
def intersectionAfterExit (s : State T) (t : T) : State T :=
  if (leave s t).count = 0 then wakeCurrent (popWaitlist (leave s t)) else leave s t

@[simp] theorem leave_count (s : State T) (t : T) : (leave s t).count = s.count - 1 := rfl
@[simp] theorem leave_phase (s : State T) (t : T) :
    (leave s t).phase = Function.update s.phase t .away := rfl

/-- The events: one critical section of `lk_mutex` of one thread. -/
inductive Event (T : Type*)
  /-- The thread calls `intersection_before_entry` for a vehicle. -/
  | arrive (t : T) (v : Vehicle)
  /-- The woken thread takes `lk_mutex` again and returns from `cv_wait`. -/
  | reacquire (t : T)
  /-- The thread calls `intersection_after_exit`. -/
  | exit (t : T)

/-- The step of the monitor on an event, enabled by the phase of its thread. -/
def step (s : State T) : Event T → Option (State T)
  | .arrive t v => if s.phase t = .away then some (intersectionBeforeEntry s t v) else none
  | .reacquire t =>
    match s.phase t with
    | .woken v => some (reenter s t v)
    | _ => none
  | .exit t =>
    match s.phase t with
    | .inside _ => some (intersectionAfterExit s t)
    | _ => none

/-- The monitor, started from the values of traffic_synch.c. -/
def machine : Machine (State T) (Event T) where
  init := State.init
  step := step

/-- What an event can do: an arrival of an away thread, the re-entry of a
    woken one, or the exit of one inside. -/
theorem step_cases {s s' : State T} {e : Event T} (h : machine.step s e = some s') :
    (∃ t v, e = .arrive t v ∧ s.phase t = .away ∧ s' = intersectionBeforeEntry s t v) ∨
    (∃ t v, e = .reacquire t ∧ s.phase t = .woken v ∧ s' = reenter s t v) ∨
    (∃ t v, e = .exit t ∧ s.phase t = .inside v ∧ s' = intersectionAfterExit s t) := by
  cases e with
  | arrive t v =>
    simp only [machine, step] at h
    split at h
    · exact .inl ⟨t, v, rfl, ‹_›, (Option.some.inj h).symm⟩
    · cases h
  | reacquire t =>
    simp only [machine, step] at h
    split at h
    · exact .inr (.inl ⟨t, _, rfl, ‹_›, (Option.some.inj h).symm⟩)
    · cases h
  | exit t =>
    simp only [machine, step] at h
    split at h
    · exact .inr (.inr ⟨t, _, rfl, ‹_›, (Option.some.inj h).symm⟩)
    · cases h

/-! ## Counting the vehicles inside -/

/-- The thread is inside the intersection. -/
def Phase.isInside : Phase → Bool
  | .inside _ => true
  | _ => false

@[simp]
theorem Phase.isInside_inside (v : Vehicle) : (Phase.inside v).isInside = true := rfl

variable [Fintype T]

/-- The number of threads inside. -/
def insideCount (phase : T → Phase) : Nat :=
  (Finset.univ.filter fun t => (phase t).isInside = true).card

/-- Moving one thread to the phase `p` changes the count by what the thread
    leaves and what it enters. -/
theorem insideCount_update (phase : T → Phase) (t : T) (p : Phase) :
    insideCount (Function.update phase t p) + (if (phase t).isInside then 1 else 0) =
      insideCount phase + (if p.isInside then 1 else 0) := by
  unfold insideCount
  rw [Finset.card_filter, Finset.card_filter, ← Finset.add_sum_erase _ _ (Finset.mem_univ t),
    ← Finset.add_sum_erase _ (fun x => if (phase x).isInside = true then 1 else 0)
      (Finset.mem_univ t)]
  have hrest : ∀ x ∈ Finset.univ.erase t,
      (if (Function.update phase t p x).isInside = true then 1 else 0) =
        (if (phase x).isInside = true then 1 else 0) := by
    intro x hx
    rw [Function.update_of_ne (Finset.ne_of_mem_erase hx)]
  rw [Finset.sum_congr rfl hrest, Function.update_self]
  omega

omit [DecidableEq T] [Fintype T] in
theorem broadcast_isInside (phase : T → Phase) (d : Int) (t : T) :
    (broadcast phase d t).isInside = (phase t).isInside := by
  unfold broadcast
  split
  · next v hv => rw [hv]; split <;> rfl
  · rfl

omit [DecidableEq T] in
theorem insideCount_broadcast (phase : T → Phase) (d : Int) :
    insideCount (broadcast phase d) = insideCount phase := by
  simp only [insideCount, broadcast_isInside]

/-- `count` is the number of vehicles inside. -/
def Counted (s : State T) : Prop :=
  s.count = insideCount s.phase

omit [DecidableEq T] in
theorem counted_init : Counted (State.init : State T) := by
  simp [Counted, State.init, insideCount, Phase.isInside]

theorem counted_arrive {s : State T} {t : T} {v : Vehicle} (hc : Counted s)
    (ht : s.phase t = .away) : Counted (intersectionBeforeEntry s t v) := by
  unfold intersectionBeforeEntry Counted at *
  split
  · have := insideCount_update s.phase t (.inside v)
    simp only [ht, Phase.isInside, Bool.false_eq_true, if_false, if_true] at this
    simp only
    omega
  · have := insideCount_update s.phase t (.blocked v)
    simp only [ht, Phase.isInside, Bool.false_eq_true, if_false] at this
    simp only
    omega

theorem counted_reenter {s : State T} {t : T} {v : Vehicle} (hc : Counted s)
    (ht : s.phase t = .woken v) : Counted (reenter s t v) := by
  have := insideCount_update s.phase t (.inside v)
  simp only [ht, Phase.isInside, Bool.false_eq_true, if_false, if_true] at this
  unfold reenter Counted at *
  simp only
  omega

theorem counted_exit {s : State T} {t : T} {v : Vehicle} (hc : Counted s)
    (ht : s.phase t = .inside v) : Counted (intersectionAfterExit s t) := by
  have hu := insideCount_update s.phase t .away
  simp only [ht, Phase.isInside, Bool.false_eq_true, if_false, if_true] at hu
  have hleave : Counted (leave s t) := by
    unfold Counted at *
    simp only [leave_count, leave_phase]
    omega
  unfold intersectionAfterExit
  split
  · simpa [Counted, insideCount_broadcast] using hleave
  · exact hleave

/-- The counting is kept by every event. -/
theorem counted_step {s s' : State T} {e : Event T} (hc : Counted s)
    (h : machine.step s e = some s') : Counted s' := by
  obtain ⟨t, v, -, ht, rfl⟩ | ⟨t, v, -, ht, rfl⟩ | ⟨t, v, -, ht, rfl⟩ := step_cases h
  · exact counted_arrive hc ht
  · exact counted_reenter hc ht
  · exact counted_exit hc ht

/-- In every reachable state, `count` is the number of vehicles inside. -/
theorem counted_of_reachable {s : State T} (h : machine.Reachable s) : Counted s :=
  Machine.reachable_induction counted_init (fun _ _ _ hc hs => counted_step hc hs) h

/-- A northbound vehicle enters; a southbound one blocks; the first leaves and
    wakes it; a second southbound vehicle enters; the woken one takes the lock
    and enters beside it. -/
def twoInsideRun : List (Event (Fin 4)) :=
  [.arrive 0 ⟨.north, .south⟩, .arrive 1 ⟨.south, .west⟩, .exit 0, .arrive 2 ⟨.south, .north⟩, .reacquire 1]

/-- After `twoInsideRun`, two vehicles are inside and `count` is `2`. -/
theorem counted_of_reachable_two_inside :
    ∃ s, machine.run twoInsideRun = some s ∧ s.count = 2 ∧ Counted s := by
  have hrun : machine.run twoInsideRun = some _ := rfl
  exact ⟨_, hrun, rfl, counted_of_reachable (Machine.run_reachable hrun)⟩

omit [DecidableEq T] in
theorem count_ne_zero_of_inside {s : State T} (hc : Counted s) {t : T} {v : Vehicle}
    (ht : s.phase t = .inside v) : s.count ≠ 0 := by
  have hmem : t ∈ Finset.univ.filter fun t => (s.phase t).isInside = true := by
    simp [ht]
  have := Finset.card_pos.2 ⟨t, hmem⟩
  unfold Counted insideCount at hc
  omega

/-! ## One origin inside -/

/-- The vehicles inside all come from one origin. -/
def SameOrigin (s : State T) : Prop :=
  ∀ t u v w, s.phase t = .inside v → s.phase u = .inside w → v.origin = w.origin

omit [DecidableEq T] [Fintype T] in
theorem sameOrigin_init : SameOrigin (State.init : State T) := by
  intro t u v w ht
  simp [State.init] at ht

omit [DecidableEq T] [Fintype T] in
theorem broadcast_inside {phase : T → Phase} {d : Int} {t : T} {v : Vehicle} :
    broadcast phase d t = .inside v ↔ phase t = .inside v := by
  unfold broadcast
  split
  · next w hw => split <;> simp [hw]
  · rfl

omit [Fintype T] in
theorem intersectionAfterExit_inside {s : State T} {t u : T} {v : Vehicle}
    (h : (intersectionAfterExit s t).phase u = .inside v) : s.phase u = .inside v ∧ u ≠ t := by
  have key : (Function.update s.phase t Phase.away) u = .inside v := by
    unfold intersectionAfterExit at h
    split at h
    · simpa [broadcast_inside] using h
    · simpa using h
  by_cases hu : u = t
  · subst hu
    simp at key
  · exact ⟨by simpa [hu] using key, hu⟩

omit [Fintype T] in
/-- An exit keeps one origin inside: it only removes a vehicle. -/
theorem sameOrigin_exit {s : State T} {t : T} (h : SameOrigin s) :
    SameOrigin (intersectionAfterExit s t) := by
  intro a b v w ha hb
  exact h a b v w (intersectionAfterExit_inside ha).1 (intersectionAfterExit_inside hb).1

/-- An arrival keeps one origin inside: a vehicle enters at once only an
    empty intersection, as `count` is the number of vehicles inside. -/
theorem sameOrigin_arrive {s : State T} {t : T} {v : Vehicle} (h : SameOrigin s)
    (hc : Counted s) : SameOrigin (intersectionBeforeEntry s t v) := by
  unfold intersectionBeforeEntry
  split
  · next henter =>
    -- the vehicle enters: nobody else is inside, as `count` is zero
    have hnone : ∀ u w, s.phase u ≠ .inside w := fun u w hu =>
      count_ne_zero_of_inside hc hu henter.1
    intro a b x y ha hb
    by_cases hat : a = t <;> by_cases hbt : b = t
    · subst hat hbt
      simp only [Function.update_self, Phase.inside.injEq] at ha hb
      rw [← ha, ← hb]
    · simp only [Function.update_of_ne hbt] at hb
      exact absurd hb (hnone b y)
    · simp only [Function.update_of_ne hat] at ha
      exact absurd ha (hnone a x)
    · simp only [Function.update_of_ne hat] at ha
      exact absurd ha (hnone a x)
  · -- the vehicle blocks: the vehicles inside are those of `s`
    intro a b x y ha hb
    have hta : a ≠ t := by rintro rfl; simp at ha
    have htb : b ≠ t := by rintro rfl; simp at hb
    simp only [Function.update_of_ne hta, Function.update_of_ne htb] at ha hb
    exact h a b x y ha hb

/-- The event is not the reacquisition of `lk_mutex` by a woken vehicle. -/
def Event.IsReacquire : Event T → Prop
  | .reacquire _ => True
  | _ => False

/-- Along every run in which no woken vehicle takes the lock again, the
    vehicles inside come from one origin: only the reacquisition, which does
    not test `currentTraffic`, can let in a vehicle of another origin. -/
theorem sameOrigin_of_run_of_no_reacquire {es : List (Event T)} {s : State T}
    (hes : ∀ e ∈ es, ¬ e.IsReacquire) (h : machine.run es = some s) : SameOrigin s := by
  have hrun := Machine.runFrom_induction (M := machine)
    (P := fun s => Counted s ∧ SameOrigin s) (Q := fun e : Event T => ¬ e.IsReacquire)
    (fun s e s' hq ⟨hc, ho⟩ hs => by
      refine ⟨counted_step hc hs, ?_⟩
      obtain ⟨t, v, -, -, rfl⟩ | ⟨t, v, rfl, -, -⟩ | ⟨t, v, -, -, rfl⟩ := step_cases hs
      · exact sameOrigin_arrive ho hc
      · exact absurd trivial hq
      · exact sameOrigin_exit ho)
    es hes ⟨counted_init, sameOrigin_init⟩ h
  exact hrun.2

/-! ## The queue of waiting directions -/

/-- The queue `w` of length `len` is well formed: `len` is in `[0, 4]`, the
    entries other than `-1` are exactly those below it, and they are distinct
    directions. -/
structure WellQueued (w : Fin 4 → Int) (len : Int) : Prop where
  len_nonneg : 0 ≤ len
  len_le : len ≤ 4
  occupied : ∀ i : Fin 4, w i ≠ -1 ↔ (i : Int) < len
  direction : ∀ i : Fin 4, (i : Int) < len → 0 ≤ w i ∧ w i ≤ 3
  distinct : ∀ i j : Fin 4, (i : Int) < len → (j : Int) < len → w i = w j → i = j

/-- The direction `d` is among the first `len` entries of `w`. -/
def InQueue (w : Fin 4 → Int) (len d : Int) : Prop :=
  ∃ i : Fin 4, (i : Int) < len ∧ w i = d

theorem fin4_lt (i : Fin 4) : ((i : Nat) : Int) < 4 := by
  have := i.isLt
  omega

theorem transDir_range (d : Direction) : 0 ≤ transDir d ∧ transDir d ≤ 3 := by
  cases d <;> decide

theorem wellQueued_empty : WellQueued (fun _ => -1) 0 where
  len_nonneg := le_rfl
  len_le := by decide
  occupied i := by
    constructor
    · intro h
      exact absurd rfl h
    · intro h
      omega
  direction i hi := absurd hi (by omega)
  distinct i _ hi := absurd hi (by omega)

/-- A queued entry other than `-1` is below `len_waitlist`. -/
theorem WellQueued.inQueue_of_eq {w : Fin 4 → Int} {len d : Int} (h : WellQueued w len) {i : Fin 4}
    (hi : w i = d) (hd : d ≠ -1) : InQueue w len d :=
  ⟨i, (h.occupied i).1 (hi ▸ hd), hi⟩

/-- A full queue holds every direction: its four entries are distinct
    directions. -/
theorem WellQueued.inQueue_of_full {w : Fin 4 → Int} (h : WellQueued w 4) {d : Int}
    (hd : 0 ≤ d ∧ d ≤ 3) : InQueue w 4 d := by
  by_contra hno
  have hne : ∀ i : Fin 4, w i ≠ d := fun i hi => hno ⟨i, fin4_lt i, hi⟩
  have hdir : ∀ i : Fin 4, 0 ≤ w i ∧ w i ≤ 3 := fun i => h.direction i (fin4_lt i)
  have hdist : ∀ i j : Fin 4, i ≠ j → w i ≠ w j := fun i j hij e =>
    hij (h.distinct i j (fin4_lt i) (fin4_lt j) e)
  -- four distinct values in `[0, 3]`, none of them `d`
  have := hdir 0; have := hdir 1; have := hdir 2; have := hdir 3
  have := hne 0; have := hne 1; have := hne 2; have := hne 3
  have := hdist 0 1 (by decide); have := hdist 0 2 (by decide); have := hdist 0 3 (by decide)
  have := hdist 1 2 (by decide); have := hdist 1 3 (by decide); have := hdist 2 3 (by decide)
  omega


/-- The entry `len` of a queue of length `len`. -/
theorem val_eq_len_iff {len : Int} (hlen : 0 ≤ len ∧ len < 4) (i : Fin 4) :
    (i : Int) = len ↔ i = ⟨len.toNat, by omega⟩ := by
  rw [Fin.ext_iff]
  simp only
  omega

/-- Appending a direction not queued yet to a queue with room. -/
theorem wellQueued_append {w : Fin 4 → Int} {len d : Int} (h : WellQueued w len)
    (hd : 0 ≤ d ∧ d ≤ 3) (hne : ∀ i, w i ≠ d) (hlen : 0 ≤ len ∧ len < 4) :
    WellQueued (Function.update w ⟨len.toNat, by omega⟩ d) (len + 1) ∧
      InQueue (Function.update w ⟨len.toNat, by omega⟩ d) (len + 1) d ∧
      ∀ e, InQueue w len e → InQueue (Function.update w ⟨len.toNat, by omega⟩ d) (len + 1) e := by
  have hat := val_eq_len_iff hlen
  refine ⟨⟨by omega, by omega, fun i => ?_, fun i hi => ?_, fun i j hi hj hij => ?_⟩,
    ⟨_, by simp; omega, Function.update_self _ _ _⟩, fun e ⟨i, hi, he⟩ => ⟨i, by omega, ?_⟩⟩
  · by_cases hi : (i : Int) = len
    · rw [Function.update_apply, if_pos ((hat i).1 hi)]
      omega
    · rw [Function.update_apply, if_neg (fun h' => hi ((hat i).2 h')), h.occupied i]
      omega
  · by_cases hi' : (i : Int) = len
    · rw [(hat i).1 hi', Function.update_self]
      exact hd
    · rw [Function.update_of_ne (fun h' => hi' ((hat i).2 h'))]
      exact h.direction i (by omega)
  · -- the new entry differs from every old one
    by_cases hi' : (i : Int) = len <;> by_cases hj' : (j : Int) = len
    · exact Fin.ext (by omega)
    · rw [(hat i).1 hi', Function.update_self, Function.update_of_ne (fun h' => hj' ((hat j).2 h'))] at hij
      exact absurd hij.symm (hne j)
    · rw [(hat j).1 hj', Function.update_self, Function.update_of_ne (fun h' => hi' ((hat i).2 h'))] at hij
      exact absurd hij (hne i)
    · rw [Function.update_of_ne (fun h' => hi' ((hat i).2 h')),
        Function.update_of_ne (fun h' => hj' ((hat j).2 h'))] at hij
      exact h.distinct i j (by omega) (by omega) hij
  · rw [Function.update_of_ne (fun h' => by rw [← (hat i).2 h'] at hi; omega)]
    exact he

/-- Queueing `d` keeps the queue well formed, keeps what was queued, and
    leaves `d` queued: it is there already, or appended, or the queue is full
    and holds every direction. -/
theorem wellQueued_enqueue {w : Fin 4 → Int} {len d : Int} (h : WellQueued w len)
    (hd : 0 ≤ d ∧ d ≤ 3) :
    WellQueued (enqueue w len d).1 (enqueue w len d).2 ∧
      InQueue (enqueue w len d).1 (enqueue w len d).2 d ∧
      ∀ e, InQueue w len e → InQueue (enqueue w len d).1 (enqueue w len d).2 e := by
  unfold enqueue
  split
  · split
    · next hany =>
      -- `d` is queued already
      obtain ⟨i, -, hi⟩ := List.any_eq_true.1 hany
      exact ⟨h, h.inQueue_of_eq (beq_iff_eq.1 hi) (by omega), fun e he => he⟩
    · next hnone =>
      have hne : ∀ i, w i ≠ d := fun i hi =>
        hnone (List.any_eq_true.2 ⟨i, List.mem_finRange i, beq_iff_eq.2 hi⟩)
      split
      · next hlen =>
        -- `d` goes at `waitlist[len_waitlist]`
        exact wellQueued_append h hd hne hlen
      · next hlen =>
        exact absurd ⟨h.len_nonneg, by have := h.len_le; omega⟩ hlen
  · next hfull =>
    -- the queue is full
    obtain rfl : len = 4 := by simpa using hfull
    exact ⟨h, h.inQueue_of_full hd, fun e he => he⟩


/-- Taking the first entry out of a queue that has one keeps it well formed,
    and keeps every other queued direction queued. -/
theorem wellQueued_shift {w : Fin 4 → Int} {len : Int} (h : WellQueued w len) (h0 : w 0 ≠ -1) :
    WellQueued (shiftWaitlist w) (len - 1) ∧
      ∀ e, InQueue w len e → e ≠ w 0 → InQueue (shiftWaitlist w) (len - 1) e := by
  have hpos : (0 : Int) < len := by simpa using (h.occupied 0).1 h0
  have hle := h.len_le
  -- an entry below `len - 1` is one moved up from the next place
  have hmoved : ∀ i : Fin 4, (i : Int) < len - 1 →
      ∃ hi : i.val < 3, shiftWaitlist w i = w ⟨i.val + 1, by omega⟩ := fun i hi =>
    ⟨by omega, by simp [shiftWaitlist, show i.val < 3 by omega]⟩
  refine ⟨⟨by omega, by omega, fun i => ?_, fun i hi => ?_, fun i j hi hj hij => ?_⟩, ?_⟩
  · unfold shiftWaitlist
    split
    · next hi => rw [h.occupied]; simp only; omega
    · next hi => simp only [ne_eq, not_true_eq_false, false_iff]; omega
  · obtain ⟨_, hs⟩ := hmoved i hi
    rw [hs]
    exact h.direction _ (by simp only; omega)
  · obtain ⟨_, hsi⟩ := hmoved i hi
    obtain ⟨_, hsj⟩ := hmoved j hj
    rw [hsi, hsj] at hij
    have := h.distinct _ _ (by simp only; omega) (by simp only; omega) hij
    exact Fin.ext (by simpa using this)
  · rintro e ⟨i, hi, rfl⟩ hne
    -- not the first entry: it moves up one place
    have hi0 : i.val ≠ 0 := fun h' => hne (congrArg w (Fin.ext h'))
    refine ⟨⟨i.val - 1, by omega⟩, by simp only; omega, ?_⟩
    obtain ⟨_, hs⟩ := hmoved ⟨i.val - 1, by omega⟩ (by simp only; omega)
    rw [hs]
    congr 1
    exact Fin.ext (by simp only; omega)


/-- The queue of the monitor is well formed and holds the direction of every
    vehicle asleep in `cv_wait`, so that a later pop broadcasts on its
    condition variable. -/
structure Queued (s : State T) : Prop where
  well : WellQueued s.waitlist s.lenWaitlist
  /-- every blocked vehicle's direction is queued -/
  blocked : ∀ t v, s.phase t = .blocked v → InQueue s.waitlist s.lenWaitlist (transDir v.origin)

omit [DecidableEq T] [Fintype T] in
theorem queued_init : Queued (State.init : State T) where
  well := wellQueued_empty
  blocked _ _ h := by simp [State.init] at h

omit [DecidableEq T] [Fintype T] in
/-- A broadcast leaves asleep the vehicles of the other directions, and wakes
    those of its own. -/
theorem broadcast_of_blocked {phase : T → Phase} {d : Int} {t : T} {v : Vehicle}
    (h : phase t = .blocked v) :
    broadcast phase d t = if transDir v.origin = d then .woken v else .blocked v := by
  simp [broadcast, h]

omit [DecidableEq T] [Fintype T] in
theorem broadcast_blocked {phase : T → Phase} {d : Int} {t : T} {v : Vehicle}
    (h : broadcast phase d t = .blocked v) : phase t = .blocked v ∧ transDir v.origin ≠ d := by
  unfold broadcast at h
  split at h
  · next w hw =>
    split at h
    · cases h
    · cases h
      exact ⟨hw, ‹_›⟩
  · next hw => exact absurd h (hw v)

omit [Fintype T] in
/-- A thread moved to a phase other than `blocked`, the queue unchanged: the
    queue still holds the direction of every blocked vehicle. -/
theorem Queued.of_update {s s' : State T} (hq : Queued s) {t : T} {p : Phase}
    (hw : s'.waitlist = s.waitlist) (hl : s'.lenWaitlist = s.lenWaitlist)
    (hph : s'.phase = Function.update s.phase t p) (hp : ∀ v, p ≠ .blocked v) : Queued s' where
  well := hw ▸ hl ▸ hq.well
  blocked u v hu := by
    rw [hw, hl]
    rw [hph] at hu
    by_cases hut : u = t
    · subst hut
      exact absurd (by simpa using hu) (hp v)
    · exact hq.blocked u v (by simpa [hut] using hu)

omit [Fintype T] in
theorem queued_arrive {s : State T} {t : T} {v : Vehicle} (hq : Queued s) :
    Queued (intersectionBeforeEntry s t v) := by
  unfold intersectionBeforeEntry
  split
  · -- the vehicle enters
    exact hq.of_update rfl rfl rfl (by intro _ h; cases h)
  · -- the vehicle queues its direction and blocks
    obtain ⟨hwell, hin, hkeep⟩ := wellQueued_enqueue hq.well (transDir_range v.origin)
    refine ⟨hwell, fun u w hu => ?_⟩
    by_cases hut : u = t
    · subst hut
      obtain rfl : v = w := by simpa using hu
      exact hin
    · exact hkeep _ (hq.blocked u w (by simpa [hut] using hu))

omit [Fintype T] in
theorem queued_reenter {s : State T} {t : T} {v : Vehicle} (hq : Queued s) :
    Queued (reenter s t v) :=
  hq.of_update rfl rfl rfl (by intro _ h; cases h)

omit [DecidableEq T] [Fintype T] in
/-- The hand-over of the last vehicle out: the popped direction's vehicles
    are woken, the others stay queued. -/
theorem queued_wakeCurrent_popWaitlist {s : State T} (hq : Queued s) :
    Queued (wakeCurrent (popWaitlist s)) := by
  unfold popWaitlist
  split
  · -- nothing queued: no direction is broadcast to
    refine ⟨hq.well, fun u w hu => ?_⟩
    exact hq.blocked u w (broadcast_blocked hu).1
  · next h0 =>
    obtain ⟨hwell, hkeep⟩ := wellQueued_shift hq.well h0
    refine ⟨hwell, fun u w hu => ?_⟩
    obtain ⟨hu, hne⟩ := broadcast_blocked hu
    exact hkeep _ (hq.blocked u w hu) hne

omit [Fintype T] in
theorem queued_exit {s : State T} {t : T} (hq : Queued s) : Queued (intersectionAfterExit s t) := by
  have hleave : Queued (leave s t) := hq.of_update rfl rfl rfl (by intro _ h; cases h)
  unfold intersectionAfterExit
  split
  · exact queued_wakeCurrent_popWaitlist hleave
  · exact hleave

omit [Fintype T] in
theorem queued_step {s s' : State T} {e : Event T} (hq : Queued s) (h : machine.step s e = some s') :
    Queued s' := by
  obtain ⟨t, v, -, -, rfl⟩ | ⟨t, v, -, -, rfl⟩ | ⟨t, v, -, -, rfl⟩ := step_cases h
  · exact queued_arrive hq
  · exact queued_reenter hq
  · exact queued_exit hq

omit [Fintype T] in
/-- A vehicle asleep in `cv_wait` stays asleep at every event but the exit that
    makes its direction the current one and broadcasts on its condition
    variable. -/
theorem blocked_step {s s' : State T} {e : Event T} {t : T} {v : Vehicle}
    (h : machine.step s e = some s') (ht : s.phase t = .blocked v) :
    s'.phase t = .blocked v ∨ (s'.phase t = .woken v ∧ s'.currentTraffic = transDir v.origin) := by
  obtain ⟨u, w, -, hu, rfl⟩ | ⟨u, w, -, hu, rfl⟩ | ⟨u, w, -, hu, rfl⟩ := step_cases h
  all_goals have hne : t ≠ u := by rintro rfl; simp [ht] at hu
  · -- an arrival moves only its own thread
    left
    unfold intersectionBeforeEntry
    split <;> simpa [hne] using ht
  · left
    simpa [reenter, hne] using ht
  · unfold intersectionAfterExit
    split
    · -- the last vehicle out broadcasts on the popped direction
      have hleave : (popWaitlist (leave s u)).phase t = .blocked v := by simpa [hne] using ht
      simp only [wakeCurrent_phase, broadcast_of_blocked hleave]
      split
      · exact .inr ⟨rfl, by simp [wakeCurrent, *]⟩
      · exact .inl rfl
    · left
      simpa [hne] using ht

omit [Fintype T] in
/-- The exit of the last vehicle inside pops the first queued direction into
    `currentTraffic` and wakes every vehicle asleep on its condition
    variable. -/
theorem exit_last_wakes {s s' : State T} {t : T} (hc : s.count = 1) (h : machine.step s (.exit t) = some s') :
    s'.currentTraffic = s.waitlist 0 ∧
      ∀ u w, s.phase u = .blocked w → transDir w.origin = s.waitlist 0 → s'.phase u = .woken w := by
  obtain ⟨_, _, he, -⟩ | ⟨_, _, he, -⟩ | ⟨t', v, he, ht, rfl⟩ := step_cases h <;> cases he
  have hlast : (leave s t).count = 0 := by simp [hc]
  have hpop : (popWaitlist (leave s t)).currentTraffic = s.waitlist 0 := by
    unfold popWaitlist
    split
    · next h0 => exact h0.symm
    · rfl
  unfold intersectionAfterExit
  rw [if_pos hlast]
  refine ⟨hpop, fun u w hu hw => ?_⟩
  have hne : u ≠ t := by rintro rfl; simp [ht] at hu
  -- the broadcast is on the popped direction, the blocked vehicle's own
  have hleave : (popWaitlist (leave s t)).phase u = .blocked w := by simpa [hne] using hu
  rw [wakeCurrent_phase, broadcast_of_blocked hleave, if_pos (hw.trans hpop.symm)]

omit [Fintype T] in
/-- In every reachable state, the entries of `waitlist` other than `-1` are
    exactly those below `len_waitlist`, which stays in `[0, 4]`; they are
    distinct directions; the direction of every vehicle asleep in `cv_wait` is
    among them; such a vehicle stays asleep until an exit pops its direction
    and broadcasts on its condition variable; and the exit of the last vehicle
    inside, which pops the first queued direction, wakes every vehicle asleep
    on it. -/
theorem blocked_direction_queued {s : State T} (h : machine.Reachable s) :
    Queued s ∧ (∀ e s' t v, machine.step s e = some s' → s.phase t = .blocked v →
      s'.phase t = .blocked v ∨ (s'.phase t = .woken v ∧ s'.currentTraffic = transDir v.origin)) ∧
    ∀ t s', s.count = 1 → machine.step s (.exit t) = some s' →
      s'.currentTraffic = s.waitlist 0 ∧
        ∀ u w, s.phase u = .blocked w → transDir w.origin = s.waitlist 0 → s'.phase u = .woken w :=
  ⟨Machine.reachable_induction queued_init (fun _ _ _ hq hs => queued_step hq hs) h,
    fun _ _ _ _ hs ht => blocked_step hs ht, fun _ _ hc hs => exit_last_wakes hc hs⟩

-- The numerals of `Fin 2` below take their `NeZero` instance from here.
local instance twoNeZero : NeZero (2 : Nat) := ⟨two_ne_zero⟩

/-- A northbound vehicle enters; a southbound one arrives and blocks. -/
def waiterRun : List (Event (Fin 2)) :=
  [.arrive 0 ⟨.north, .south⟩, .arrive 1 ⟨.south, .west⟩]

/-- After `waiterRun`, the blocked southbound vehicle's direction is queued,
    and the exit of the northbound one, the last inside, wakes it. -/
theorem waiterRun_queued :
    ∃ s s', machine.run waiterRun = some s ∧ s.phase 1 = .blocked ⟨.south, .west⟩ ∧
      InQueue s.waitlist s.lenWaitlist (transDir .south) ∧
      machine.step s (.exit 0) = some s' ∧ s'.phase 1 = .woken ⟨.south, .west⟩ := by
  have hrun : machine.run waiterRun = some _ := rfl
  have hq := blocked_direction_queued (Machine.run_reachable hrun)
  refine ⟨_, _, hrun, rfl, hq.1.blocked 1 _ rfl, rfl, ?_⟩
  exact (hq.2.2 0 _ rfl rfl).2 1 _ rfl rfl

/-! ## A woken vehicle enters beside another origin -/

/-- The vehicles of the failing run: `A` and `D` from the north, `B` and `C`
    from the south. -/
def vehicleA : Vehicle := ⟨.north, .south⟩
def vehicleB : Vehicle := ⟨.south, .west⟩
def vehicleC : Vehicle := ⟨.south, .north⟩
def vehicleD : Vehicle := ⟨.north, .east⟩

/-- `A` enters; `B` queues south and blocks; `A` leaves and wakes `B` for
    south; `C`, from the south too, enters before `B` takes the lock, and
    leaves, finding the queue empty; `D` enters from the north; then `B`
    takes the lock and enters. -/
def failingRun : List (Event (Fin 4)) :=
  [.arrive 0 vehicleA, .arrive 1 vehicleB, .exit 0, .arrive 2 vehicleC, .exit 2,
    .arrive 3 vehicleD, .reacquire 1]

theorem intersection_admits_two_origins :
    ∃ s, machine.run failingRun = some s ∧ s.phase 1 = .inside vehicleB ∧
      s.phase 3 = .inside vehicleD ∧ vehicleB.origin ≠ vehicleD.origin ∧
      compatible vehicleD vehicleB = false :=
  ⟨_, rfl, by decide, by decide, by decide, by decide⟩

end Os161.Traffic
