import Mathlib
import Os161.Lib.Machine
import Os161.Lib.Queues

/-!
# Where the threads are

The scheduler of kern/thread/thread.c: the lists that hold threads, each
CPU's run queue (`c_runqueue`) and zombies (`c_zombies`), each wait channel's
`wc_threads`, and the two lists a thread keeps to itself between two of its
sections: the threads it has taken off a wait channel in `wchan_wakeone` or
`wchan_wakeall` and not yet made runnable (`Loc.waking`), and the `victims` of
`thread_consider_migration`. Each thread has its `t_state` and `t_cpu`, each
CPU its `c_curthread` and `c_isidle`.

Every section under a spinlock is one event of `Sched.machine`, on the CPU
that runs it. `thread_switch` is one event up to the choice of the next
thread; when the run queue is empty the CPU stays idle with its old
`c_curthread`, and each turn of the idle loop after `cpu_idle` is an event of
its own (`Event.unidle`). The lists are `Queues`, and every event moves threads
between them by the operations of that library.

`thread_make_runnable` does not touch `t_state`: a thread woken from a wait
channel sits on a run queue in `S_SLEEP` until it runs. And the current thread
of an idle CPU is wherever `thread_switch` put it, on a wait channel, a zombie
list or, once woken, a run queue. What does hold (`Placed`):

* `thread_placement`: in every reachable state no thread is on two lists or
  twice on one; a thread that exists is on a list exactly when it does not
  run; each list agrees with `t_state` and `t_cpu` (`Sched.Agrees`); a
  CPU's `c_curthread` has that CPU as its `t_cpu`, and is `S_RUN` (or, a boot
  thread, `S_READY`) while the CPU is not idle;
* `woken_thread_sleeps_on_runqueue`: a run of one CPU after which a thread is
  on the run queue in `S_SLEEP`, and the idle CPU's current thread asleep on a
  wait channel.
-/

namespace Os161.Thread

/-- `threadstate_t`. -/
inductive ThreadState
  | run
  | ready
  | sleep
  | zombie
  deriving DecidableEq

/-- The lists a thread can be on. -/
inductive Loc (T C W : Type*)
  /-- `c_runqueue` of a CPU. -/
  | runqueue (c : C)
  /-- `c_zombies` of a CPU. -/
  | zombies (c : C)
  /-- `wc_threads` of a wait channel. -/
  | wchan (w : W)
  /-- The threads taken off a wait channel by a thread in `wchan_wakeone` or
      `wchan_wakeall`, not yet passed to `thread_make_runnable`. -/
  | waking (u : T)
  /-- The `victims` of `thread_consider_migration` on a CPU. -/
  | victims (c : C)
  deriving DecidableEq

/-- The CPUs' boot threads, made by `thread_bootstrap` and `cpu_create`: each
    CPU runs its own, whose `t_cpu` is that CPU. -/
structure Boot (T C : Type*) where
  thread : C → T
  /-- The `t_cpu` of each thread at boot. -/
  home : T → C
  home_thread : ∀ c, home (thread c) = c

/-- The threads (`struct thread`), the CPUs (`struct cpu`) and the lists. -/
structure Sched (T C W : Type*) where
  /-- The threads that exist: made by `thread_create`, not yet destroyed. -/
  live : T → Bool
  tState : T → ThreadState
  tCpu : T → C
  lists : Loc T C W → List T
  curthread : C → T
  isidle : C → Bool
  /-- `to_send` of a migration under way on the CPU. -/
  toSend : C → Nat

namespace Sched

variable {T C W : Type*} [DecidableEq T] [DecidableEq C] [DecidableEq W]

/-- After boot: each CPU runs its boot thread, which `thread_create` made
    `S_READY`, and every list is empty. -/
def init (b : Boot T C) : Sched T C W where
  live t := decide (b.thread (b.home t) = t)
  tState _ := .ready
  tCpu := b.home
  lists _ := []
  curthread := b.thread
  isidle _ := false
  toSend _ := 0

/-- `thread_fork` by the current thread of `c`, whose `thread_create` gives
    `t`: `S_READY`, the caller's `t_cpu`, and `thread_make_runnable` puts it on
    that CPU's run queue. -/
def threadFork (s : Sched T C W) (c : C) (t : T) : Option (Sched T C W) :=
  if s.isidle c = false ∧ s.live t = false then
    let cpu := s.tCpu (s.curthread c)
    some { s with live := Function.update s.live t true
                  tState := Function.update s.tState t .ready
                  tCpu := Function.update s.tCpu t cpu
                  lists := Queues.pushBack s.lists (.runqueue cpu) t }
  else none

/-- The list `thread_switch` puts the current thread of `c` on for
    `newstate`; `none` for `S_RUN`, which panics. For `S_READY`,
    `thread_make_runnable` takes the run queue of the thread's `t_cpu`. -/
def placeOf (s : Sched T C W) (c : C) (w : W) : ThreadState → Option (Loc T C W)
  | .run => none
  | .ready => some (.runqueue (s.tCpu (s.curthread c)))
  | .sleep => some (.wchan w)
  | .zombie => some (.zombies c)

/-- The first section of `thread_switch` on `c`: the current thread goes to
    the tail of `l` with its new `t_state`, and `c_isidle` is set. -/
def switchOut (s : Sched T C W) (c : C) (l : Loc T C W) (newstate : ThreadState) :
    Sched T C W :=
  { s with lists := Queues.pushBack s.lists l (s.curthread c)
           tState := Function.update s.tState (s.curthread c) newstate
           isidle := Function.update s.isidle c true }

/-- The end of the loop of `thread_switch` on `c`: `next`, off the head of the
    run queue, becomes `c_curthread`, and `S_RUN` once it is back from
    `switchframe_switch` (or in `thread_startup`). -/
def runNext (s : Sched T C W) (c : C) (next : T) (rest : List T) : Sched T C W :=
  { s with lists := Function.update s.lists (.runqueue c) rest
           tState := Function.update s.tState next .run
           curthread := Function.update s.curthread c next
           isidle := Function.update s.isidle c false }

/-- `exorcise` on `c`: its zombies are destroyed. -/
def exorcise (s : Sched T C W) (c : C) : Sched T C W :=
  { s with live := fun t => s.live t && !decide (t ∈ s.lists (.zombies c))
           lists := Function.update s.lists (.zombies c) [] }

/-- One turn of the loop of `thread_switch` on `c`: the head of the run queue
    runs, or the CPU stays in `cpu_idle`. -/
def pick (s : Sched T C W) (c : C) : Sched T C W :=
  match s.lists (.runqueue c) with
  | [] => s
  | next :: rest => (s.runNext c next rest).exorcise c

/-- `thread_switch(newstate, wc)` by the current thread of `c`, up to the
    choice of the next thread. -/
def threadSwitch (s : Sched T C W) (c : C) (newstate : ThreadState) (w : W) :
    Option (Sched T C W) :=
  -- the timer interrupt of the idle loop
  if s.isidle c then some s
  else if newstate = .ready ∧ s.lists (.runqueue c) = [] then some s
  else
    match s.placeOf c w newstate with
    | none => none
    | some l => some ((s.switchOut c l newstate).pick c)

/-- The section of `wchan_wakeone` under `wc_lock`, by `u`: the head of the
    channel's threads is taken off. -/
def wchanWakeone (s : Sched T C W) (u : T) (w : W) : Sched T C W :=
  match s.lists (.wchan w) with
  | [] => s
  | t :: rest => { s with lists := Queues.moveHead s.lists (.wchan w) (.waking u) t rest }

/-- The section of `wchan_wakeall` under `wc_lock`, by `u`: all the channel's
    threads go to its private `list`. -/
def wchanWakeall (s : Sched T C W) (u : T) (w : W) : Sched T C W :=
  { s with lists := Queues.moveDrop s.lists (.wchan w) (.waking u) 0 }

/-- `thread_make_runnable` by `u` on the first thread it has taken off a wait
    channel: to the tail of the run queue of that thread's `t_cpu`, with its
    `t_state` left as it is. -/
def threadMakeRunnable (s : Sched T C W) (u : T) : Option (Sched T C W) :=
  match s.lists (.waking u) with
  | [] => none
  | t :: rest =>
    some { s with lists := Queues.moveHead s.lists (.waking u) (.runqueue (s.tCpu t)) t rest }

/-- The second section of `thread_consider_migration` on `c`: the last
    `toSend` threads of its run queue become the `victims`. The run queue
    holds `my_count` threads at least, as only `c` takes threads off it. -/
def migrateCollect (s : Sched T C W) (c : C) (toSend : Nat) : Option (Sched T C W) :=
  if s.lists (.victims c) = [] ∧ toSend ≤ (s.lists (.runqueue c)).length then
    some { s with lists := Queues.moveDrop s.lists (.runqueue c) (.victims c)
                    ((s.lists (.runqueue c)).length - toSend)
                  toSend := Function.update s.toSend c toSend }
  else none

/-- The `while` loop of `thread_consider_migration` on `c` under the run
    queue lock of `c'`; the fuel is `to_send`, which every turn lowers. The
    current thread of `c` is put back at the tail of `victims`. -/
def migrateTo (c c' : C) (oneShare : Nat) : Nat → Sched T C W → Option (Sched T C W)
  | 0, s => some s
  | fuel + 1, s =>
    if (s.lists (.runqueue c')).length < oneShare ∧ 0 < s.toSend c then
      match s.lists (.victims c) with
      -- `threadlist_remhead` gives `NULL`
      | [] => none
      | t :: rest =>
        let s' := { s with toSend := Function.update s.toSend c (s.toSend c - 1) }
        if t = s.curthread c then
          migrateTo c c' oneShare fuel
            { s' with lists := Queues.moveHead s.lists (.victims c) (.victims c) t rest }
        else
          migrateTo c c' oneShare fuel
            { s' with tCpu := Function.update s.tCpu t c'
                      lists := Queues.moveHead s.lists (.victims c) (.runqueue c') t rest }
    else some s

/-- The last section of `thread_consider_migration` on `c`: the leftover
    victims go back to the tail of its run queue. -/
def migrateLeftovers (s : Sched T C W) (c : C) : Sched T C W :=
  { s with lists := Queues.moveDrop s.lists (.victims c) (.runqueue c) 0 }

end Sched

/-- The events: one section on one CPU. -/
inductive Event (T C W : Type*)
  | fork (c : C) (t : T)
  | switch (c : C) (newstate : ThreadState) (w : W)
  /-- A turn of the idle loop of `thread_switch` after `cpu_idle` returns. -/
  | unidle (c : C)
  | wakeone (c : C) (w : W)
  | wakeall (c : C) (w : W)
  | makeRunnable (c : C)
  | migrateCollect (c : C) (toSend : Nat)
  | migrateTo (c c' : C) (oneShare : Nat)
  | migrateLeftovers (c : C)

namespace Sched

variable {T C W : Type*} [DecidableEq T] [DecidableEq C] [DecidableEq W]

/-- The step: the section runs in the thread `c_curthread` of its CPU. -/
def step (s : Sched T C W) : Event T C W → Option (Sched T C W)
  | .fork c t => s.threadFork c t
  | .switch c newstate w => s.threadSwitch c newstate w
  | .unidle c => if s.isidle c then some (s.pick c) else none
  | .wakeone c w => some (s.wchanWakeone (s.curthread c) w)
  | .wakeall c w => some (s.wchanWakeall (s.curthread c) w)
  | .makeRunnable c => s.threadMakeRunnable (s.curthread c)
  | .migrateCollect c toSend => s.migrateCollect c toSend
  -- the `continue` on `curcpu` itself
  | .migrateTo c c' oneShare => if c' = c then none else migrateTo c c' oneShare (s.toSend c) s
  | .migrateLeftovers c => some (s.migrateLeftovers c)

/-- The scheduler, from the boot threads `b`. -/
def machine (b : Boot T C) : Machine (Sched T C W) (Event T C W) where
  init := init b
  step := step

/-! ## The invariant -/

/-- The thread runs: it is `c_curthread` of a CPU that is not idle. -/
def Running (s : Sched T C W) (t : T) : Prop :=
  ∃ c, s.curthread c = t ∧ s.isidle c = false

/-- What a list says of the `t_state` and `t_cpu` of the threads on it: a run
    queue or the victims of a CPU hold threads of that CPU, ready or woken from
    a wait channel (which stay `S_SLEEP` until they run); a wait channel or a
    waker's hands, sleeping ones; the zombies of a CPU, its zombies. -/
def Agrees (s : Sched T C W) : Loc T C W → T → Prop
  | .runqueue c, t => s.tCpu t = c ∧ (s.tState t = .ready ∨ s.tState t = .sleep)
  | .victims c, t => s.tCpu t = c ∧ (s.tState t = .ready ∨ s.tState t = .sleep)
  | .zombies c, t => s.tCpu t = c ∧ s.tState t = .zombie
  | .wchan _, t => s.tState t = .sleep
  | .waking _, t => s.tState t = .sleep

/-- The placement invariant. -/
structure Placed (s : Sched T C W) : Prop where
  apart : Queues.Apart s.lists
  agrees : ∀ l t, t ∈ s.lists l → s.Agrees l t
  live_of_queued : ∀ t, Queues.Queued s.lists t → s.live t = true
  queued_iff : ∀ t, s.live t = true → (Queues.Queued s.lists t ↔ ¬ s.Running t)
  cpu_cur : ∀ c, s.tCpu (s.curthread c) = c
  live_cur : ∀ c, s.live (s.curthread c) = true
  running : ∀ c, s.isidle c = false →
    s.tState (s.curthread c) = .run ∨ s.tState (s.curthread c) = .ready

variable {s : Sched T C W}

omit [DecidableEq T] [DecidableEq C] [DecidableEq W] in
/-- Only `t_state` and `t_cpu` matter. -/
theorem Agrees.congr {s' : Sched T C W} {l : Loc T C W} {t : T} (h : s.Agrees l t)
    (hst : s'.tState t = s.tState t) (hcpu : s'.tCpu t = s.tCpu t) : s'.Agrees l t := by
  cases l <;> simpa only [Agrees, hst, hcpu] using h

omit [DecidableEq C] [DecidableEq W] in
theorem placed_init (b : Boot T C) : (init b : Sched T C W).Placed where
  apart := ⟨fun _ => List.nodup_nil, fun _ _ _ h => absurd h List.not_mem_nil⟩
  agrees _ _ h := absurd h List.not_mem_nil
  live_of_queued _ := fun ⟨_, h⟩ => absurd h List.not_mem_nil
  queued_iff t ht := by
    -- a thread that exists at boot is the boot thread of its CPU, and runs
    have hboot : b.thread (b.home t) = t := of_decide_eq_true ht
    exact iff_of_false (fun ⟨_, h⟩ => absurd h List.not_mem_nil) (not_not.mpr ⟨_, hboot, rfl⟩)
  cpu_cur := b.home_thread
  live_cur c := by simp [init, b.home_thread]
  running _ _ := .inr rfl

omit [DecidableEq T] [DecidableEq C] [DecidableEq W] in
/-- The current thread of a CPU is the current thread of no other CPU. -/
theorem Placed.cur_inj (hP : s.Placed) {c c' : C} (h : s.curthread c = s.curthread c') :
    c = c' := by
  rw [← hP.cpu_cur c, h, hP.cpu_cur c']

omit [DecidableEq T] [DecidableEq C] [DecidableEq W] in
theorem Placed.not_queued_cur (hP : s.Placed) {c : C} (hc : s.isidle c = false) :
    ¬ Queues.Queued s.lists (s.curthread c) := fun hq =>
  (hP.queued_iff _ (hP.live_cur c)).mp hq ⟨c, rfl, hc⟩

omit [DecidableEq T] [DecidableEq C] [DecidableEq W] in
/-- Moves between lists that keep every thread on a list, each on a list that
    agrees with it, keep the invariant. -/
theorem Placed.of_lists (hP : s.Placed) {lists : Loc T C W → List T}
    (happ : Queues.Apart lists) (hq : ∀ t, Queues.Queued lists t ↔ Queues.Queued s.lists t)
    (hagree : ∀ l t, t ∈ lists l → s.Agrees l t) : Placed { s with lists := lists } where
  apart := happ
  agrees := hagree
  live_of_queued t ht := hP.live_of_queued t ((hq t).mp ht)
  queued_iff t ht := (hq t).trans (hP.queued_iff t ht)
  cpu_cur := hP.cpu_cur
  live_cur := hP.live_cur
  running := hP.running

theorem Placed.moveHead (hP : s.Placed) {i j : Loc T C W} {t : T} {rest : List T}
    (hq : s.lists i = t :: rest) (ht : s.Agrees j t) :
    Placed { s with lists := Queues.moveHead s.lists i j t rest } := by
  refine hP.of_lists (hP.apart.moveHead hq j) (fun _ => Queues.queued_moveHead hP.apart hq) ?_
  intro l u hu
  rcases (Queues.mem_moveHead hP.apart hq).mp hu with ⟨-, hu⟩ | ⟨rfl, rfl⟩
  · exact hP.agrees l u hu
  · exact ht

theorem Placed.moveDrop (hP : s.Placed) {i j : Loc T C W} (hij : i ≠ j) (n : Nat)
    (ht : ∀ t ∈ (s.lists i).drop n, s.Agrees j t) :
    Placed { s with lists := Queues.moveDrop s.lists i j n } := by
  refine hP.of_lists (hP.apart.moveDrop hij n) (fun _ => Queues.queued_moveDrop hij n) ?_
  intro l u hu
  rcases (Queues.mem_moveDrop hij).mp hu with ⟨rfl, hu | hu⟩ | ⟨rfl, hu⟩ | ⟨-, -, hu⟩
  · exact hP.agrees _ u hu
  · exact ht u hu
  · exact hP.agrees _ u (List.mem_of_mem_take hu)
  · exact hP.agrees l u hu

omit [DecidableEq T] [DecidableEq C] [DecidableEq W] in
theorem Placed.setToSend (hP : s.Placed) (f : C → Nat) : Placed { s with toSend := f } :=
  ⟨hP.apart, hP.agrees, hP.live_of_queued, hP.queued_iff, hP.cpu_cur, hP.live_cur, hP.running⟩

/-! ## Each section keeps it -/

section Steps

variable {c : C}

theorem Placed.threadFork (hP : s.Placed) {t : T} {s' : Sched T C W}
    (h : s.threadFork c t = some s') : s'.Placed := by
  unfold Sched.threadFork at h
  split_ifs at h with hct
  cases h
  obtain ⟨-, hdead⟩ := hct
  -- the new thread is on no list and runs nowhere
  have hnq : ¬ Queues.Queued s.lists t := fun hq => by
    rw [hP.live_of_queued t hq] at hdead
    cases hdead
  have hncur : ∀ c', s.curthread c' ≠ t := fun c' hc' => by
    rw [← hc', hP.live_cur c'] at hdead
    cases hdead
  have hq' := fun u => Queues.queued_pushBack (i := Loc.runqueue (s.tCpu (s.curthread c)))
    (q := s.lists) (a := t) (b := u)
  refine ⟨hP.apart.pushBack hnq _, fun l u hu => ?_, fun u hu => ?_, fun u hu => ?_,
    fun c' => ?_, fun c' => ?_, fun c' hc' => ?_⟩
  · rcases Queues.mem_pushBack.mp hu with hu | ⟨rfl, rfl⟩
    · have hut : u ≠ t := fun hut => hnq ⟨l, hut ▸ hu⟩
      exact (hP.agrees l u hu).congr (Function.update_of_ne hut _ _) (Function.update_of_ne hut _ _)
    · exact ⟨Function.update_self .., .inl (Function.update_self ..)⟩
  · rcases (hq' u).mp hu with rfl | hu
    · exact Function.update_self ..
    · have hut : u ≠ t := fun hut => hnq (hut ▸ hu)
      dsimp only
      rw [Function.update_of_ne hut]
      exact hP.live_of_queued u hu
  · by_cases hut : u = t
    · subst hut
      exact iff_of_true ((hq' u).mpr (.inl rfl)) fun ⟨c', hc', _⟩ => hncur c' hc'
    · dsimp only at hu
      rw [Function.update_of_ne hut] at hu
      exact (hq' u).trans ((or_iff_right hut).trans (hP.queued_iff u hu))
  · simp only [Function.update_of_ne (hncur c'), hP.cpu_cur c']
  · simp only [Function.update_of_ne (hncur c'), hP.live_cur c']
  · simp only [Function.update_of_ne (hncur c')]
    exact hP.running c' hc'

theorem running_switchOut (hP : s.Placed) {l : Loc T C W} {newstate : ThreadState} {t : T} :
    (s.switchOut c l newstate).Running t ↔ s.Running t ∧ t ≠ s.curthread c := by
  constructor
  · rintro ⟨c', rfl, hc'⟩
    have hne : c' ≠ c := by
      rintro rfl
      simp [switchOut] at hc'
    refine ⟨⟨c', rfl, ?_⟩, fun h => hne (hP.cur_inj h)⟩
    simpa [switchOut, hne] using hc'
  · rintro ⟨⟨c', rfl, hc'⟩, hne⟩
    have hne' : c' ≠ c := by
      rintro rfl
      exact hne rfl
    exact ⟨c', rfl, by simpa [switchOut, hne'] using hc'⟩

theorem Placed.switchOut (hP : s.Placed) (hc : s.isidle c = false) {l : Loc T C W}
    {newstate : ThreadState} (hl : (s.switchOut c l newstate).Agrees l (s.curthread c)) :
    (s.switchOut c l newstate).Placed := by
  have hnq := hP.not_queued_cur hc
  have hq' : ∀ u, Queues.Queued (s.switchOut c l newstate).lists u ↔
      u = s.curthread c ∨ Queues.Queued s.lists u := fun _ => Queues.queued_pushBack
  refine ⟨hP.apart.pushBack hnq l, fun l' u hu => ?_, fun u hu => ?_, fun u hu => ?_,
    hP.cpu_cur, hP.live_cur, fun c' hc' => ?_⟩
  · rcases Queues.mem_pushBack.mp hu with hu | ⟨rfl, rfl⟩
    · have hut : u ≠ s.curthread c := fun hut => hnq ⟨l', hut ▸ hu⟩
      exact (hP.agrees l' u hu).congr (Function.update_of_ne hut _ _) rfl
    · exact hl
  · rcases (hq' u).mp hu with rfl | hu
    · exact hP.live_cur c
    · exact hP.live_of_queued u hu
  · rw [hq', running_switchOut hP]
    by_cases hut : u = s.curthread c
    · exact iff_of_true (.inl hut) fun h => h.2 hut
    · rw [or_iff_right hut, hP.queued_iff u hu]
      exact ⟨fun h h' => h h'.1, fun h h' => h ⟨h', hut⟩⟩
  · -- a CPU other than `c`, with its own current thread
    have hne : c' ≠ c := by
      rintro rfl
      simp [Sched.switchOut] at hc'
    have hc'' : s.isidle c' = false := by simpa [Sched.switchOut, hne] using hc'
    have hcur : s.curthread c' ≠ s.curthread c := fun h => hne (hP.cur_inj h)
    simp only [Sched.switchOut, Function.update_of_ne hcur]
    exact hP.running c' hc''

theorem running_runNext (hidle : s.isidle c = true) {next t : T} {rest : List T} :
    (s.runNext c next rest).Running t ↔ t = next ∨ s.Running t := by
  constructor
  · rintro ⟨c', rfl, hc'⟩
    by_cases hne : c' = c
    · subst hne
      exact .inl (Function.update_self ..)
    · refine .inr ⟨c', (Function.update_of_ne hne _ _).symm, ?_⟩
      simpa [runNext, hne] using hc'
  · rintro (rfl | ⟨c', rfl, hc'⟩)
    · exact ⟨c, Function.update_self .., Function.update_self ..⟩
    · have hne : c' ≠ c := by
        rintro rfl
        rw [hidle] at hc'
        cases hc'
      exact ⟨c', Function.update_of_ne hne _ _, by simpa [runNext, hne] using hc'⟩

theorem Placed.runNext (hP : s.Placed) (hidle : s.isidle c = true) {next : T} {rest : List T}
    (hq : s.lists (.runqueue c) = next :: rest) : (s.runNext c next rest).Placed := by
  have hnextq : Queues.Queued s.lists next := ⟨_, hq ▸ List.mem_cons_self⟩
  have hnext : ¬ s.Running next := (hP.queued_iff next (hP.live_of_queued next hnextq)).mp hnextq
  have hrq := hP.agrees _ next (hq ▸ List.mem_cons_self)
  have hq' : ∀ u, Queues.Queued (s.runNext c next rest).lists u ↔
      u ≠ next ∧ Queues.Queued s.lists u := fun _ => Queues.queued_popHead hP.apart hq
  refine ⟨hP.apart.popHead hq, fun l u hu => ?_, fun u hu => ?_, fun u hu => ?_,
    fun c' => ?_, fun c' => ?_, fun c' hc' => ?_⟩
  · obtain ⟨hun, hu⟩ := (Queues.mem_popHead hP.apart hq).mp hu
    exact (hP.agrees l u hu).congr (Function.update_of_ne hun _ _) rfl
  · exact hP.live_of_queued u ((hq' u).mp hu).2
  · rw [hq', running_runNext hidle, not_or, hP.queued_iff u hu]
  · by_cases hne : c' = c
    · subst hne
      simp only [Sched.runNext, Function.update_self]
      exact hrq.1
    · simp only [Sched.runNext, Function.update_of_ne hne]
      exact hP.cpu_cur c'
  · by_cases hne : c' = c
    · subst hne
      simp only [Sched.runNext, Function.update_self]
      exact hP.live_of_queued next hnextq
    · simp only [Sched.runNext, Function.update_of_ne hne]
      exact hP.live_cur c'
  · by_cases hne : c' = c
    · subst hne
      simp [Sched.runNext]
    · -- the current thread of a CPU that runs is not `next`, which is queued
      have hc'' : s.isidle c' = false := by simpa [Sched.runNext, hne] using hc'
      have hcur : s.curthread c' ≠ next := fun h => hnext ⟨c', h, hc''⟩
      simp only [Sched.runNext, Function.update_of_ne hne, Function.update_of_ne hcur]
      exact hP.running c' hc''

theorem Placed.exorcise (hP : s.Placed) (hc : s.isidle c = false) : (s.exorcise c).Placed := by
  -- no current thread is a zombie of `c`: its `t_cpu` would be `c`, whose
  -- current thread runs
  have hz : ∀ c', s.curthread c' ∉ s.lists (.zombies c) := by
    intro c' hm
    have hcc : c' = c := by rw [← hP.cpu_cur c']; exact (hP.agrees _ _ hm).1
    subst hcc
    exact hP.not_queued_cur hc ⟨_, hm⟩
  have hq' : ∀ u, Queues.Queued (s.exorcise c).lists u ↔
      u ∉ s.lists (.zombies c) ∧ Queues.Queued s.lists u := fun _ => Queues.queued_update_nil hP.apart
  refine ⟨hP.apart.update_sub List.nodup_nil fun _ h => absurd h List.not_mem_nil,
    fun l u hu => ?_, fun u hu => ?_, fun u hu => ?_, hP.cpu_cur, fun c' => ?_, hP.running⟩
  · rcases Queues.mem_update.mp hu with ⟨-, hu⟩ | ⟨-, hu⟩
    · exact absurd hu List.not_mem_nil
    · exact hP.agrees l u hu
  · obtain ⟨hnz, hu⟩ := (hq' u).mp hu
    simp [Sched.exorcise, hP.live_of_queued u hu, hnz]
  · have hlive : s.live u = true ∧ u ∉ s.lists (.zombies c) := by simpa [Sched.exorcise] using hu
    rw [hq']
    exact (and_iff_right hlive.2).trans (hP.queued_iff u hlive.1)
  · simp [Sched.exorcise, hP.live_cur c', hz c']

theorem Placed.pick (hP : s.Placed) (hidle : s.isidle c = true) : (s.pick c).Placed := by
  unfold Sched.pick
  split
  · exact hP
  · rename_i next rest hq
    exact (hP.runNext hidle hq).exorcise (Function.update_self ..)

theorem agrees_placeOf (hP : s.Placed) {w : W} {newstate : ThreadState} {l : Loc T C W}
    (h : s.placeOf c w newstate = some l) :
    (s.switchOut c l newstate).Agrees l (s.curthread c) := by
  cases newstate <;> simp only [placeOf, Option.some.injEq, reduceCtorEq] at h <;> subst h <;>
    simp [Agrees, Sched.switchOut, hP.cpu_cur c]

theorem Placed.threadSwitch (hP : s.Placed) {newstate : ThreadState} {w : W} {s' : Sched T C W}
    (h : s.threadSwitch c newstate w = some s') : s'.Placed := by
  unfold Sched.threadSwitch at h
  split_ifs at h with hidle hready
  · cases h
    exact hP
  · cases h
    exact hP
  · split at h
    · cases h
    · rename_i l hl
      cases h
      have hc : s.isidle c = false := by simpa using hidle
      exact (hP.switchOut hc (agrees_placeOf hP hl)).pick (Function.update_self ..)

theorem Placed.wchanWakeone (hP : s.Placed) (u : T) (w : W) : (s.wchanWakeone u w).Placed := by
  unfold Sched.wchanWakeone
  split
  · exact hP
  · rename_i t rest hq
    have hw : s.tState t = .sleep := hP.agrees (.wchan w) t (hq ▸ List.mem_cons_self)
    exact hP.moveHead hq hw

theorem Placed.wchanWakeall (hP : s.Placed) (u : T) (w : W) : (s.wchanWakeall u w).Placed :=
  hP.moveDrop (i := .wchan w) (j := .waking u) nofun 0 fun t ht =>
    hP.agrees (.wchan w) t (by rwa [List.drop_zero] at ht)

theorem Placed.threadMakeRunnable (hP : s.Placed) {u : T} {s' : Sched T C W}
    (h : s.threadMakeRunnable u = some s') : s'.Placed := by
  unfold Sched.threadMakeRunnable at h
  split at h
  · cases h
  · rename_i t rest hq
    cases h
    have hw : s.tState t = .sleep := hP.agrees (.waking u) t (hq ▸ List.mem_cons_self)
    exact hP.moveHead hq ⟨rfl, .inr hw⟩

theorem Placed.migrateCollect (hP : s.Placed) {toSend : Nat} {s' : Sched T C W}
    (h : s.migrateCollect c toSend = some s') : s'.Placed := by
  unfold Sched.migrateCollect at h
  split_ifs at h
  cases h
  exact (hP.moveDrop (i := .runqueue c) (j := .victims c) nofun _ fun t ht =>
    hP.agrees (.runqueue c) t (List.mem_of_mem_drop ht)).setToSend _

/-- A victim that is not the current thread, moved to the run queue of `c'`
    with `t_cpu` set to `c'`. -/
theorem Placed.migrateOne (hP : s.Placed) {c' : C} {t : T} {rest : List T}
    (hq : s.lists (.victims c) = t :: rest) (hcur : t ≠ s.curthread c) :
    Placed { s with tCpu := Function.update s.tCpu t c'
                    lists := Queues.moveHead s.lists (.victims c) (.runqueue c') t rest } := by
  have hvict := hP.agrees _ t (hq ▸ List.mem_cons_self)
  -- `t` is no CPU's current thread: its `t_cpu` is `c`, whose current thread it is not
  have hncur : ∀ c'', s.curthread c'' ≠ t := by
    intro c'' h
    have hcc : c'' = c := by rw [← hP.cpu_cur c'', h]; exact hvict.1
    exact hcur (hcc ▸ h.symm)
  have hq' := fun u => Queues.queued_moveHead (j := Loc.runqueue c') hP.apart hq (b := u)
  refine ⟨hP.apart.moveHead hq _, fun l u hu => ?_, fun u hu => hP.live_of_queued u ((hq' u).mp hu),
    fun u hu => (hq' u).trans (hP.queued_iff u hu), fun c'' => ?_, hP.live_cur, hP.running⟩
  · rcases (Queues.mem_moveHead hP.apart hq).mp hu with ⟨hut, hu⟩ | ⟨rfl, rfl⟩
    · exact (hP.agrees l u hu).congr rfl (Function.update_of_ne hut _ _)
    · exact ⟨Function.update_self .., hvict.2⟩
  · simp only [Function.update_of_ne (hncur c''), hP.cpu_cur c'']

/-- The loop of `thread_consider_migration` keeps the invariant, turn by turn. -/
theorem Placed.migrateTo {c' : C} {oneShare : Nat} :
    ∀ fuel {s s' : Sched T C W}, s.Placed → migrateTo c c' oneShare fuel s = some s' → s'.Placed
  | 0, _, _, hP, h => by
    cases h
    exact hP
  | fuel + 1, s, _, hP, h => by
    unfold Sched.migrateTo at h
    split_ifs at h
    · split at h
      · cases h
      · rename_i t rest hq
        have hvict := hP.agrees (.victims c) t (hq ▸ List.mem_cons_self)
        have hP' := hP.setToSend (Function.update s.toSend c (s.toSend c - 1))
        dsimp only at h
        split_ifs at h with hcur
        · exact Placed.migrateTo fuel (hP'.moveHead (j := .victims c) hq hvict) h
        · exact Placed.migrateTo fuel (hP'.migrateOne hq hcur) h
    · cases h
      exact hP

theorem Placed.migrateLeftovers (hP : s.Placed) : (s.migrateLeftovers c).Placed :=
  hP.moveDrop (i := .victims c) (j := .runqueue c) nofun 0 fun t ht =>
    hP.agrees (.victims c) t (by rwa [List.drop_zero] at ht)

end Steps

theorem placed_step (hP : s.Placed) {e : Event T C W} {s' : Sched T C W}
    (h : s.step e = some s') : s'.Placed := by
  cases e with
  | fork c t => exact hP.threadFork h
  | switch c newstate w => exact hP.threadSwitch h
  | unidle c =>
    simp only [step] at h
    split_ifs at h with hidle
    cases h
    exact hP.pick hidle
  | wakeone c w =>
    cases h
    exact hP.wchanWakeone _ w
  | wakeall c w =>
    cases h
    exact hP.wchanWakeall _ w
  | makeRunnable c => exact hP.threadMakeRunnable h
  | migrateCollect c toSend => exact hP.migrateCollect h
  | migrateTo c c' oneShare =>
    simp only [step] at h
    split_ifs at h
    exact hP.migrateTo _ h
  | migrateLeftovers c =>
    cases h
    exact hP.migrateLeftovers

theorem placed_reachable {b : Boot T C} (hs : (machine b : Machine (Sched T C W) _).Reachable s) :
    s.Placed :=
  Machine.reachable_induction (P := Placed) (placed_init b) (fun _ _ _ hP h => placed_step hP h) hs

/-! ## Where the threads are, in every run -/

/-- In every reachable state: no thread is twice on a list, and a thread that
    exists and does not run is on exactly one list; a thread on a list exists,
    does not run, and agrees with the list (`Agrees`: on the run queue or the
    victims of its `t_cpu` in `S_READY` or, woken, `S_SLEEP`; on a wait
    channel or in a waker's hands in `S_SLEEP`; on the zombies of its `t_cpu`
    in `S_ZOMBIE`); a CPU's `c_curthread` has that CPU as `t_cpu`, and is
    `S_RUN` or `S_READY` while the CPU is not idle. -/
theorem thread_placement {b : Boot T C} (hs : (machine b : Machine (Sched T C W) _).Reachable s) :
    (∀ l, (s.lists l).Nodup) ∧
    (∀ t, s.live t = true → ¬ s.Running t → ∃! l, t ∈ s.lists l) ∧
    (∀ l t, t ∈ s.lists l → s.live t = true ∧ ¬ s.Running t ∧ s.Agrees l t) ∧
    (∀ c, s.tCpu (s.curthread c) = c ∧
      (s.isidle c = false → s.tState (s.curthread c) = .run ∨ s.tState (s.curthread c) = .ready)) := by
  have hP := placed_reachable hs
  refine ⟨hP.apart.nodup, fun t ht hr => ?_, fun l t hl => ?_, fun c => ⟨hP.cpu_cur c, hP.running c⟩⟩
  · obtain ⟨l, hl⟩ := (hP.queued_iff t ht).mpr hr
    exact ⟨l, hl, fun l' hl' => hP.apart.unique t _ _ hl' hl⟩
  · have hlive := hP.live_of_queued t ⟨l, hl⟩
    exact ⟨hlive, (hP.queued_iff t hlive).mp ⟨l, hl⟩, hP.agrees l t hl⟩

-- The numerals of `Fin 2` below take their `NeZero` instance from here.
local instance twoNeZero : NeZero (2 : Nat) := ⟨two_ne_zero⟩

/-- One CPU, whose boot thread is `0`. -/
def oneCpu : Boot (Fin 2) (Fin 1) where
  thread _ := 0
  home _ := 0
  home_thread _ := Subsingleton.elim _ _

/-- The boot thread forks `1` and sleeps on channel `0`; `1` runs and sleeps
    on it too, and the CPU goes idle with `1` as its current thread; an
    interrupt on the idle CPU wakes one sleeper. -/
def wokenRun : List (Event (Fin 2) (Fin 1) (Fin 1)) :=
  [.fork 0 1, .switch 0 .sleep 0, .switch 0 .sleep 0, .wakeone 0 0, .makeRunnable 0]

/-- After `wokenRun`, thread `0` is on the run queue in `S_SLEEP`, and the idle
    CPU's current thread `1` is on the wait channel. -/
theorem woken_thread_sleeps_on_runqueue :
    ∃ s, (machine oneCpu).run wokenRun = some s ∧
      s.lists (.runqueue 0) = [0] ∧ s.tState 0 = .sleep ∧
      s.isidle 0 = true ∧ s.curthread 0 = 1 ∧ s.lists (.wchan 0) = [1] :=
  ⟨_, rfl, by decide, by decide, by decide, by decide, by decide⟩

theorem wokenRun_placement :
    ∃ s, (machine oneCpu).run wokenRun = some s ∧ 0 ∈ s.lists (.runqueue 0) ∧
      s.live 0 = true ∧ ¬ s.Running 0 ∧ s.Agrees (.runqueue 0) 0 :=
  ⟨_, rfl, by decide,
    (thread_placement (@Machine.run_reachable _ _ (machine oneCpu) wokenRun _ rfl)).2.2.1 _ _
      (by decide)⟩

end Sched

end Os161.Thread
