import Mathlib
import Os161.Basic
import Os161.Lib.Machine

/-!
# Process tables, `sys__exit` and `sys_waitpid`

With `OPT_A2`, every process gets a pid from `counter_pid`, which starts at `2`
(`proc_bootstrap`) and only grows (`proc_create_runprogram`); the global arrays
`procTable`, `exitTable` and `aliveTable` (kern/include/proc.h) of 64 entries
are indexed by `pid - 2`, and a parent records its children in its own
`childArray` of 64 entries (kern/syscall/proc_syscalls.c).

* `sys__exit`, under `lk_tb`, records the exit code in `exitTable`, clears
  `aliveTable` and broadcasts on the process's `cv_child`; `proc_destroy` then
  destroys that cv through `procTable`;
* `sys_waitpid` checks its arguments and `isExist` (the pid is among the
  caller's children), then, under `lk_tb`, waits on `procTable[pid-2]->cv_child`
  while `aliveTable[pid-2]` is set, and hands back `_MKWAIT_EXIT` of
  `exitTable[pid-2]` with `copyout`.

Every lock-protected section is one event of `Proc.machine`; a `cv_wait`
releases `lk_tb` and blocks atomically, and a woken thread takes `lk_tb` again
at a later event of its own. The outcome of the allocations in `sys_fork` and of
the `copyout` is part of the event. An index outside the 64 entries is
undefined behaviour: the machine records it (`overflow`) and stops there, as
it does at a read through a process that `proc_destroy` has freed
(`useAfterFree`).

* `counterPid_runFrom`: along every run that has not overflowed,
  `counter_pid` grows by one at each process created, exits or not: pids are
  never reused;
* `Inv`, `inv_reachable`: the invariant of every reachable state without
  overflow; in particular a thread only sleeps on the cv of the very child it
  waits for, which has not exited, so that child's exit wakes it
  (`phase_exit_of_blocked`), and a returned wait stores `_MKWAIT_EXIT` of the
  code that child passed to `sys__exit`;
* `failed_fork_use_after_free`: a `sys_fork` whose `thread_fork` fails leaves
  the child in the parent's `childArray` and its entry in `procTable` and
  `aliveTable`, though `proc_destroy` has freed it; a `sys_waitpid` of the
  parent on it then passes `isExist`, finds `aliveTable` set, and reads
  `cv_child` through the freed process.
-/

namespace Os161.Proc

/-- `_MKWAIT_EXIT` (kern/include/kern/wait.h): `_MKWVAL(x) | __WEXITED`, with
    `_MKWVAL(x) = x << 2` and `__WEXITED = 0`. -/
def mkwaitExit (x : Int32) : Int32 := (x <<< 2) ||| 0

/-- The entry of a pid in the tables, `pid - 2`, when it is one of the 64. -/
def slot (pid : Int) : Option (Fin 64) :=
  if h : 0 ≤ pid - 2 ∧ pid - 2 < 64 then some ⟨(pid - 2).toNat, by omega⟩ else none

theorem val_of_slot {pid : Int} {i : Fin 64} (h : slot pid = some i) : ((i : Nat) : Int) = pid - 2 := by
  unfold slot at h
  split at h
  next hr =>
    cases h
    exact Int.toNat_of_nonneg hr.1
  next => cases h

/-- Distinct pids have distinct entries. -/
theorem slot_inj {p q : Int} {i : Fin 64} (hp : slot p = some i) (hq : slot q = some i) : p = q := by
  have hp' := val_of_slot hp
  have hq' := val_of_slot hq
  omega

theorem slot_isSome {p : Int} (h2 : 2 ≤ p) (h66 : p < 66) : ∃ i, slot p = some i := by
  unfold slot
  rw [dif_pos ⟨by omega, by omega⟩]
  exact ⟨_, rfl⟩

theorem slot_eq_none {p : Int} (h : 66 ≤ p) : slot p = none := by
  unfold slot
  rw [dif_neg]
  omega

theorem lt_of_slot {p : Int} {i : Fin 64} (h : slot p = some i) : p < 66 := by
  have hi := val_of_slot h
  have := i.isLt
  omega

/-- The `OPT_A2` fields of `struct proc` that the system calls read: the
    children recorded by `sys_fork`. (`isAlive`, `code` and `status`, written by
    `sys__exit`, are read by nothing.) -/
structure Process where
  countChild : Int
  childArray : Fin 64 → Int

/-- A process as `proc_create_runprogram` leaves it: no children. (The entries
    of `childArray` past `countChild` are never read.) -/
def Process.fresh : Process := ⟨0, fun _ => 0⟩

/-- Where the thread of a process is. -/
inductive Phase
  /-- In user code, or in a system call the model does not look into. -/
  | running
  /-- In `sys_waitpid` on `pid`, past `isExist`, about to take `lk_tb`. -/
  | checked (pid : Int)
  /-- In `cv_wait` on the `cv_child` of the process `cv`, waiting for `pid`. -/
  | blocked (pid cv : Int)
  /-- Woken by the broadcast, not holding `lk_tb` again yet. -/
  | woken (pid : Int)
  /-- Past `lk_tb`, with `exitstatus`, about to `copyout`. -/
  | copying (pid : Int) (exitstatus : Int32)
  /-- The thread of a process that has called `sys__exit`, or of no process. -/
  | exited
  deriving DecidableEq

/-- What a `sys_waitpid` returned: the caller, the pid asked for, the result (the
    pid or an error), and the value stored at `status`. -/
structure WaitRecord where
  caller : Int
  pid : Int
  result : Except Errno Int
  stored : Option Int32

/-- The tables, the processes by pid, their threads, and two ghost records: the
    exit code each process passed to `sys__exit`, and every `sys_waitpid` that
    returned. `overflow` records an index outside the tables, `useAfterFree`
    a read through a freed process. -/
structure State where
  counterPid : Int
  procTable : Fin 64 → Option Int
  exitTable : Fin 64 → Int32
  aliveTable : Fin 64 → Bool
  procs : Int → Option Process
  phase : Int → Phase
  exitCode : Int → Option Int32
  waitLog : List WaitRecord
  overflow : Bool
  useAfterFree : Bool

/-- After `proc_bootstrap`: `counter_pid = 2`, every `aliveTable` entry set,
    no process. -/
def State.init : State where
  counterPid := 2
  procTable := fun _ => none
  exitTable := fun _ => 0
  aliveTable := fun _ => true
  procs := fun _ => none
  phase := fun _ => .exited
  exitCode := fun _ => none
  waitLog := []
  overflow := false
  useAfterFree := false

/-! ## The system calls -/

/-- The `OPT_A2` part of `proc_create_runprogram`, under `lk_pid`: the new
    process gets `counter_pid` and is stored at `procTable[counter_pid - 2]`. -/
def procCreateRunprogram (s : State) : State :=
  match slot s.counterPid with
  | some i =>
    { s with procTable := Function.update s.procTable i (some s.counterPid)
             counterPid := s.counterPid + 1
             procs := Function.update s.procs s.counterPid (some Process.fresh) }
  | none => { s with overflow := true }

/-- `proc_destroy`: `cv_destroy(procTable[pid - 2]->cv_child)`, and the process
    is freed. -/
def procDestroy (s : State) (pid : Int) : State :=
  match slot pid with
  | some _ => { s with procs := Function.update s.procs pid none }
  | none => { s with overflow := true }

/-- `curproc->childArray[curproc->countChild] = childProc->pid;` and
    `countChild++` in `sys_fork`. -/
def addChild (s : State) (p c : Int) : State :=
  match s.procs p with
  | some proc =>
    if h : 0 ≤ proc.countChild ∧ proc.countChild < 64 then
      { s with procs := Function.update s.procs p (some { proc with
          childArray := Function.update proc.childArray ⟨proc.countChild.toNat, by omega⟩ c
          countChild := proc.countChild + 1 }) }
    else { s with overflow := true }
  | none => s

/-- The thread of the process `c` starts: `thread_fork` of a program (`common_prog`)
    or of `enter_forked_process` (`sys_fork`). -/
def threadFork (s : State) (c : Int) : State :=
  { s with phase := Function.update s.phase c .running }

/-- A program run from the kernel menu (`common_prog`): `proc_create_runprogram`,
    then its thread. -/
def commonProg (s : State) : State :=
  threadFork (procCreateRunprogram s) s.counterPid

/-- How `sys_fork` goes: `proc_create_runprogram` fails before or after taking
    a pid (`cv_create`), `as_copy` fails, `thread_fork` fails, or it succeeds. -/
inductive ForkOutcome
  | createFails
  | cvCreateFails
  | asCopyFails
  | threadForkFails
  | ok

/-- `sys_fork` by the process `p`. -/
def sysFork (s : State) (p : Int) : ForkOutcome → State
  | .createFails => s
  | .cvCreateFails =>
    -- the pid and its table entry are taken, then the process is freed
    let s' := procCreateRunprogram s
    { s' with procs := Function.update s'.procs s.counterPid none }
  | .asCopyFails => procDestroy (procCreateRunprogram s) s.counterPid
  | .threadForkFails => procDestroy (addChild (procCreateRunprogram s) p s.counterPid) s.counterPid
  | .ok => threadFork (addChild (procCreateRunprogram s) p s.counterPid) s.counterPid

/-- A thread waiting on the cv of the process `cv`, after a broadcast on it. -/
def wake (cv : Int) : Phase → Phase
  | .blocked pid c => if c = cv then .woken pid else .blocked pid c
  | q => q

/-- `cv_broadcast` on the `cv_child` of the process `cv`: its waiters are woken. -/
def cvBroadcast (phase : Int → Phase) (cv : Int) : Int → Phase :=
  fun t => wake cv (phase t)

theorem cvBroadcast_apply {phase : Int → Phase} {cv t : Int} :
    cvBroadcast phase cv t = wake cv (phase t) := rfl

/-- The section of `sys__exit(code)` under `lk_tb`, by the process `p` whose
    entry is `i`. -/
def exitSection (s : State) (p : Int) (i : Fin 64) (code : Int32) : State :=
  { s with exitTable := Function.update s.exitTable i code
           aliveTable := Function.update s.aliveTable i false
           phase := Function.update (cvBroadcast s.phase p) p .exited
           exitCode := Function.update s.exitCode p (some code) }

/-- `sys__exit(code)` by the process `p`: the section under `lk_tb`, then
    `proc_destroy`. -/
def sysExit (s : State) (p : Int) (code : Int32) : State :=
  match slot p with
  | some i => procDestroy (exitSection s p i code) p
  | none => { s with overflow := true }

/-- `isExist`: the pid is among the first `countChild` entries of `childArray`. -/
def isExist (proc : Process) (pid : Int) : Bool :=
  (List.finRange 64).any fun i => decide ((i : Int) < proc.countChild) && proc.childArray i == pid

/-- `sys_waitpid` returning `r` to the caller `p` with `stored` at `status`. -/
def waitReturn (s : State) (p pid : Int) (r : Except Errno Int) (stored : Option Int32) : State :=
  { s with phase := Function.update s.phase p .running
           waitLog := s.waitLog ++ [⟨p, pid, r, stored⟩] }

/-- The start of `sys_waitpid(pid, status, options)` by `p`: the argument
    checks, then `isExist` under `lk_child`. -/
def sysWaitpid (s : State) (p pid : Int) (status : Nat) (options : Int) : State :=
  if options ≠ 0 then waitReturn s p pid (.error .einval) none
  else if status = 0 then waitReturn s p pid (.error .efault) none
  else
    match s.procs p with
    | some proc =>
      if isExist proc pid then { s with phase := Function.update s.phase p (.checked pid) }
      else waitReturn s p pid (.error .echild) none
    | none => s

/-- The test of `sys_waitpid` under `lk_tb` (first, or again after a wakeup):
    wait on `procTable[pid-2]->cv_child` while `aliveTable[pid-2]` is set, else
    take `_MKWAIT_EXIT(exitTable[pid-2])`. `procTable[pid-2]->cv_child` reads
    the process the entry names, which `proc_destroy` may have freed. -/
def waitTest (s : State) (p pid : Int) : State :=
  match slot pid with
  | some i =>
    if s.aliveTable i then
      match s.procTable i with
      | some cv =>
        if (s.procs cv).isSome then { s with phase := Function.update s.phase p (.blocked pid cv) }
        else { s with useAfterFree := true }
      | none => { s with overflow := true }
    else { s with phase := Function.update s.phase p (.copying pid (mkwaitExit (s.exitTable i))) }
  | none => { s with overflow := true }

/-- The `copyout` of `exitstatus` at the end of `sys_waitpid`: the pid is
    returned when it succeeds, its error otherwise. -/
def waitCopyout (s : State) (p pid : Int) (exitstatus : Int32) (ok : Bool) : State :=
  if ok then waitReturn s p pid (.ok pid) (some exitstatus)
  else waitReturn s p pid (.error .efault) none

/-- The events: one lock-protected section of one thread. -/
inductive Event
  /-- The kernel menu runs a program. -/
  | runprogram
  /-- `sys_fork` by a process. -/
  | fork (p : Int) (o : ForkOutcome)
  /-- `sys__exit` by a process. -/
  | exit (p : Int) (code : Int32)
  /-- `sys_waitpid` called by a process. -/
  | waitpid (p pid : Int) (status : Nat) (options : Int)
  /-- The thread takes `lk_tb` and tests `aliveTable`. -/
  | test (p : Int)
  /-- The `copyout` of `exitstatus`, succeeding or not. -/
  | copyout (p : Int) (ok : Bool)

/-- The section an event runs, enabled by the phase of its thread. -/
def dispatch (s : State) : Event → Option State
  | .runprogram => some (commonProg s)
  | .fork p o => if s.phase p = .running then some (sysFork s p o) else none
  | .exit p code => if s.phase p = .running then some (sysExit s p code) else none
  | .waitpid p pid status options =>
    if s.phase p = .running then some (sysWaitpid s p pid status options) else none
  | .test p =>
    match s.phase p with
    | .checked pid => some (waitTest s p pid)
    | .woken pid => some (waitTest s p pid)
    | _ => none
  | .copyout p ok =>
    match s.phase p with
    | .copying pid st => some (waitCopyout s p pid st ok)
    | _ => none

/-- The step on an event; nothing happens after an index overflow or a use
    after free. -/
def step (s : State) (e : Event) : Option State :=
  if s.overflow || s.useAfterFree then none else dispatch s e

/-- The processes after `proc_bootstrap`. -/
def machine : Machine State Event where
  init := State.init
  step := step

/-- The events that create a process: a program from the menu, and a `sys_fork`
    whose `proc_create_runprogram` got as far as taking a pid. -/
def Event.creates : Event → Bool
  | .runprogram => true
  | .fork _ .createFails => false
  | .fork _ _ => true
  | _ => false

/-! ## What each operation changes -/

variable {s s' : State} {e : Event} {p pid c : Int} {i : Fin 64}

/-- The step, by event: its guard and its effect. -/
theorem step_cases (h : step s e = some s') : s.overflow = false ∧
    ((e = .runprogram ∧ s' = commonProg s) ∨
     (∃ p o, e = .fork p o ∧ s.phase p = .running ∧ s' = sysFork s p o) ∨
     (∃ p code, e = .exit p code ∧ s.phase p = .running ∧ s' = sysExit s p code) ∨
     (∃ p pid status options, e = .waitpid p pid status options ∧ s.phase p = .running ∧
        s' = sysWaitpid s p pid status options) ∨
     (∃ p pid, e = .test p ∧ (s.phase p = .checked pid ∨ s.phase p = .woken pid) ∧
        s' = waitTest s p pid) ∨
     (∃ p pid st ok, e = .copyout p ok ∧ s.phase p = .copying pid st ∧
        s' = waitCopyout s p pid st ok)) := by
  unfold step at h
  split at h
  · cases h
  next ho =>
  refine ⟨Bool.eq_false_iff.2 fun h' => ho (by rw [h', Bool.true_or]), ?_⟩
  cases e with
  | runprogram => exact .inl ⟨rfl, (Option.some.inj h).symm⟩
  | fork p o =>
    simp only [dispatch] at h
    split at h
    · exact .inr (.inl ⟨p, o, rfl, ‹_›, (Option.some.inj h).symm⟩)
    · cases h
  | exit p code =>
    simp only [dispatch] at h
    split at h
    · exact .inr (.inr (.inl ⟨p, code, rfl, ‹_›, (Option.some.inj h).symm⟩))
    · cases h
  | waitpid p pid status options =>
    simp only [dispatch] at h
    split at h
    · exact .inr (.inr (.inr (.inl ⟨p, pid, status, options, rfl, ‹_›, (Option.some.inj h).symm⟩)))
    · cases h
  | test p =>
    simp only [dispatch] at h
    split at h
    next pid hp => exact .inr (.inr (.inr (.inr (.inl ⟨p, pid, rfl, .inl hp, (Option.some.inj h).symm⟩))))
    next pid hp => exact .inr (.inr (.inr (.inr (.inl ⟨p, pid, rfl, .inr hp, (Option.some.inj h).symm⟩))))
    next => cases h
  | copyout p ok =>
    simp only [dispatch] at h
    split at h
    next pid st hp => exact .inr (.inr (.inr (.inr (.inr ⟨p, pid, st, ok, rfl, hp, (Option.some.inj h).symm⟩))))
    next => cases h

theorem procCreateRunprogram_of_slot (h : slot s.counterPid = some i) :
    procCreateRunprogram s =
      { s with procTable := Function.update s.procTable i (some s.counterPid)
               counterPid := s.counterPid + 1
               procs := Function.update s.procs s.counterPid (some Process.fresh) } := by
  rw [procCreateRunprogram, h]

/-- A creation that does not overflow found an entry for its pid. -/
theorem slot_of_procCreateRunprogram (h : (procCreateRunprogram s).overflow = false) :
    ∃ i, slot s.counterPid = some i := by
  cases hi : slot s.counterPid with
  | some i => exact ⟨i, rfl⟩
  | none =>
    rw [procCreateRunprogram, hi] at h
    cases h

@[simp]
theorem exitCode_procCreateRunprogram : (procCreateRunprogram s).exitCode = s.exitCode := by
  unfold procCreateRunprogram
  split <;> rfl

theorem counterPid_procCreateRunprogram (h : slot s.counterPid = some i) :
    (procCreateRunprogram s).counterPid = s.counterPid + 1 := by
  rw [procCreateRunprogram_of_slot h]

theorem procDestroy_of_slot (h : slot pid = some i) :
    procDestroy s pid = { s with procs := Function.update s.procs pid none } := by
  rw [procDestroy, h]

/-- `proc_destroy`, with its index in range, only frees the process. -/
theorem procDestroy_frame (h : (procDestroy s pid).overflow = false) :
    ∃ f, procDestroy s pid = { s with procs := f } := by
  cases hi : slot pid with
  | some i => exact ⟨_, procDestroy_of_slot hi⟩
  | none =>
    rw [procDestroy, hi] at h
    cases h

/-- Recording a child, with its index in range, only changes the parent. -/
theorem addChild_frame (h : (addChild s p c).overflow = false) :
    ∃ f, addChild s p c = { s with procs := f } := by
  cases hp : s.procs p with
  | none => exact ⟨s.procs, by rw [addChild, hp]⟩
  | some proc =>
    by_cases hc : 0 ≤ proc.countChild ∧ proc.countChild < 64
    · simp only [addChild, hp, dif_pos hc]
      exact ⟨_, rfl⟩
    · simp [addChild, hp, hc] at h

theorem overflow_of_frame {x y : State} {f : Int → Option Process} (h : x = { y with procs := f })
    (hx : x.overflow = false) : y.overflow = false := by
  rw [h] at hx
  exact hx

/-- `sys_fork` that does not overflow: nothing happens, or a process is created,
    with or without its thread. -/
theorem sysFork_cases {o : ForkOutcome} (ho : (sysFork s p o).overflow = false) :
    (o = .createFails ∧ sysFork s p o = s) ∨
    ∃ i f, o ≠ .createFails ∧ slot s.counterPid = some i ∧
      (sysFork s p o = { procCreateRunprogram s with procs := f } ∨
       sysFork s p o = threadFork { procCreateRunprogram s with procs := f } s.counterPid) := by
  cases o with
  | createFails => exact .inl ⟨rfl, rfl⟩
  | cvCreateFails =>
    obtain ⟨i, hi⟩ := slot_of_procCreateRunprogram (s := s) ho
    exact .inr ⟨i, _, nofun, hi, .inl rfl⟩
  | asCopyFails =>
    obtain ⟨f, hf⟩ := procDestroy_frame ho
    obtain ⟨i, hi⟩ := slot_of_procCreateRunprogram (overflow_of_frame hf ho)
    exact .inr ⟨i, f, nofun, hi, .inl hf⟩
  | threadForkFails =>
    obtain ⟨f, hf⟩ := procDestroy_frame ho
    have ho1 := overflow_of_frame hf ho
    obtain ⟨g, hg⟩ := addChild_frame ho1
    obtain ⟨i, hi⟩ := slot_of_procCreateRunprogram (overflow_of_frame hg ho1)
    refine .inr ⟨i, f, nofun, hi, .inl ?_⟩
    show procDestroy _ _ = _
    rw [hf, hg]
  | ok =>
    have ho1 : (addChild (procCreateRunprogram s) p s.counterPid).overflow = false := ho
    obtain ⟨g, hg⟩ := addChild_frame ho1
    obtain ⟨i, hi⟩ := slot_of_procCreateRunprogram (overflow_of_frame hg ho1)
    refine .inr ⟨i, g, nofun, hi, .inr ?_⟩
    show threadFork (addChild _ _ _) _ = _
    rw [hg]

theorem sysExit_of_slot (h : slot p = some i) (code : Int32) :
    sysExit s p code = { exitSection s p i code with procs := Function.update s.procs p none } := by
  simp only [sysExit, h, procDestroy_of_slot h]
  rfl

@[simp]
theorem counterPid_sysExit (code : Int32) : (sysExit s p code).counterPid = s.counterPid := by
  cases h : slot p with
  | some i => rw [sysExit_of_slot h]; rfl
  | none => simp only [sysExit, h]

@[simp]
theorem counterPid_sysWaitpid (status : Nat) (options : Int) :
    (sysWaitpid s p pid status options).counterPid = s.counterPid := by
  unfold sysWaitpid
  split_ifs
  · rfl
  · rfl
  · split
    · split_ifs <;> rfl
    · rfl

@[simp]
theorem counterPid_waitTest : (waitTest s p pid).counterPid = s.counterPid := by
  unfold waitTest
  split
  · split_ifs
    · split
      · split_ifs <;> rfl
      · rfl
    · rfl
  · rfl

@[simp]
theorem counterPid_waitCopyout (st : Int32) (ok : Bool) :
    (waitCopyout s p pid st ok).counterPid = s.counterPid := by
  unfold waitCopyout
  split_ifs <;> rfl

@[simp]
theorem wake_eq_exited {cv : Int} {q : Phase} : wake cv q = .exited ↔ q = .exited := by
  cases q with
  | blocked pid c => by_cases h : c = cv <;> simp [wake, h]
  | _ => rfl

/-! ## Pids are never reused -/

/-- Each step that does not overflow moves `counter_pid` on by the processes
    it creates. -/
theorem counterPid_step (h : step s e = some s') (ho : s'.overflow = false) :
    s'.counterPid = s.counterPid + if e.creates then 1 else 0 := by
  obtain ⟨-, h⟩ := step_cases h
  rcases h with ⟨rfl, rfl⟩ | ⟨p, o, rfl, -, rfl⟩ | ⟨p, code, rfl, -, rfl⟩ |
    ⟨p, pid, status, options, rfl, -, rfl⟩ | ⟨p, pid, rfl, -, rfl⟩ | ⟨p, pid, st, ok, rfl, -, rfl⟩
  · obtain ⟨i, hi⟩ := slot_of_procCreateRunprogram (s := s) ho
    exact counterPid_procCreateRunprogram hi
  · rcases sysFork_cases ho with ⟨rfl, h⟩ | ⟨i, f, hne, hi, h | h⟩
    · rw [h]
      simp [Event.creates]
    all_goals
      have hc : (Event.fork p o).creates = true := by
        cases o
        · exact absurd rfl hne
        all_goals rfl
      rw [h, hc, if_pos rfl]
      exact counterPid_procCreateRunprogram hi
  all_goals simp [Event.creates]

theorem overflow_of_runFrom :
    ∀ (es : List Event) {s t : State}, machine.runFrom s es = some t → t.overflow = false →
      s.overflow = false
  | [], _, _, h, ho => by
    cases h
    exact ho
  | _ :: _, _, _, h, _ => by
    obtain ⟨_, hs, -⟩ := Machine.step_of_runFrom_cons h
    exact (step_cases hs).1

/-- Along a run that has not overflowed, `counter_pid` has moved on by one for
    every process created, whether it has exited since or not. -/
theorem counterPid_runFrom :
    ∀ (es : List Event) {s t : State}, machine.runFrom s es = some t → t.overflow = false →
      t.counterPid = s.counterPid + es.countP Event.creates
  | [], _, _, h, _ => by
    cases h
    simp
  | e :: es, s, t, h, ho => by
    obtain ⟨s', hs, hrest⟩ := Machine.step_of_runFrom_cons h
    have hs' := counterPid_step hs (overflow_of_runFrom es hrest ho)
    rw [counterPid_runFrom es hrest ho, hs', List.countP_cons]
    split <;> omega

/-! ## The invariant -/

/-- What a thread in `sys_waitpid` holds: a sleeper sleeps on the cv of the very
    child it waits for, which has not exited; a thread about to copy out holds
    `_MKWAIT_EXIT` of that child's exit code. -/
def PhaseOk (s : State) : Phase → Prop
  | .blocked pid cv => cv = pid ∧ s.exitCode pid = none
  | .copying pid st => ∃ c, s.exitCode pid = some c ∧ st = mkwaitExit c
  | _ => True

/-- A returned wait is right: it returned the pid it was asked for, and stored
    `_MKWAIT_EXIT` of the code that process passed to `sys__exit`. -/
def RecordOk (s : State) (r : WaitRecord) : Prop :=
  ∀ v, r.result = .ok v → v = r.pid ∧ ∃ c, s.exitCode r.pid = some c ∧ r.stored = some (mkwaitExit c)

/-- The invariant of the reachable states without overflow. -/
structure Inv (s : State) : Prop where
  counter_ge : 2 ≤ s.counterPid
  counter_le : s.counterPid ≤ 66
  /-- Only the threads of processes created so far run. -/
  live : ∀ t, s.phase t ≠ .exited → 2 ≤ t ∧ t < s.counterPid
  /-- Only processes created so far have exited. -/
  exit_range : ∀ pid c, s.exitCode pid = some c → 2 ≤ pid ∧ pid < s.counterPid
  /-- `procTable[pid - 2]`, once set, is the process `pid`. -/
  entry : ∀ pid i q, slot pid = some i → s.procTable i = some q → q = pid
  /-- `aliveTable[pid - 2]` is set until `pid` exits, ... -/
  alive : ∀ pid i, slot pid = some i → (s.aliveTable i = true ↔ s.exitCode pid = none)
  /-- ... and then `exitTable[pid - 2]` holds its code. -/
  exit_table : ∀ pid i c, slot pid = some i → s.exitCode pid = some c → s.exitTable i = c
  /-- A process that has exited has no thread. -/
  exited : ∀ pid c, s.exitCode pid = some c → s.phase pid = .exited
  phase_ok : ∀ t, PhaseOk s (s.phase t)
  log_ok : ∀ r ∈ s.waitLog, RecordOk s r

theorem inv_init : Inv State.init where
  counter_ge := by decide
  counter_le := by decide
  live _ h := absurd rfl h
  exit_range _ _ h := by cases h
  entry _ _ _ _ h := by cases h
  alive _ _ _ := iff_of_true rfl rfl
  exit_table _ _ _ _ h := by cases h
  exited _ _ h := by cases h
  phase_ok _ := trivial
  log_ok _ h := by cases h

theorem Inv.withProcs (hI : Inv s) (f : Int → Option Process) : Inv { s with procs := f } :=
  ⟨hI.1, hI.2, hI.3, hI.4, hI.5, hI.6, hI.7, hI.8, hI.9, hI.10⟩

theorem Inv.withUseAfterFree (hI : Inv s) : Inv { s with useAfterFree := true } :=
  ⟨hI.1, hI.2, hI.3, hI.4, hI.5, hI.6, hI.7, hI.8, hI.9, hI.10⟩

theorem Inv.exitCode_of_phase (hI : Inv s) (h : s.phase t ≠ .exited) : s.exitCode t = none := by
  cases hc : s.exitCode t with
  | none => rfl
  | some c => exact absurd (hI.exited t c hc) h

theorem Inv.unborn (hI : Inv s) (h : s.counterPid ≤ pid) : s.exitCode pid = none := by
  cases hc : s.exitCode pid with
  | none => rfl
  | some c =>
    have := (hI.exit_range pid c hc).2
    omega

/-- The thread `p` of a process created so far and not exited moves to `v`. -/
theorem Inv.setPhase {v : Phase} (hI : Inv s) (hlive : 2 ≤ p ∧ p < s.counterPid)
    (hnone : s.exitCode p = none) (hv : PhaseOk s v) :
    Inv { s with phase := Function.update s.phase p v } := by
  refine ⟨hI.counter_ge, hI.counter_le, ?_, hI.exit_range, hI.entry, hI.alive, hI.exit_table, ?_, ?_,
    hI.log_ok⟩
  · intro t ht
    dsimp only at ht ⊢
    rcases eq_or_ne t p with rfl | hne
    · exact hlive
    · rw [Function.update_of_ne hne] at ht
      exact hI.live t ht
  · intro pid c hc
    dsimp only at hc ⊢
    have hne : pid ≠ p := by
      rintro rfl
      rw [hnone] at hc
      cases hc
    rw [Function.update_of_ne hne]
    exact hI.exited pid c hc
  · intro t
    dsimp only
    rcases eq_or_ne t p with rfl | hne
    · rw [Function.update_self]
      exact hv
    · rw [Function.update_of_ne hne]
      exact hI.phase_ok t

theorem threadFork_inv (hI : Inv s) (hlive : 2 ≤ c ∧ c < s.counterPid) (hnone : s.exitCode c = none) :
    Inv (threadFork s c) :=
  hI.setPhase hlive hnone trivial

theorem recordOk_error {err : Errno} : RecordOk s ⟨p, pid, .error err, none⟩ := by
  intro v hv
  cases hv

/-- `sys_waitpid` returns to a thread that runs. -/
theorem waitReturn_inv {r : Except Errno Int} {stored : Option Int32} (hI : Inv s)
    (hp : s.phase p ≠ .exited) (hr : RecordOk s ⟨p, pid, r, stored⟩) :
    Inv (waitReturn s p pid r stored) := by
  have h := hI.setPhase (hI.live p hp) (hI.exitCode_of_phase hp) (v := .running) trivial
  refine { h with log_ok := ?_ }
  intro r' hr'
  rcases List.mem_append.1 hr' with hr' | hr'
  · exact hI.log_ok r' hr'
  · rw [List.mem_singleton.1 hr']
    exact hr

theorem procCreateRunprogram_inv (hI : Inv s) (hi : slot s.counterPid = some i) :
    Inv (procCreateRunprogram s) := by
  have hlt := lt_of_slot hi
  have hge := hI.counter_ge
  rw [procCreateRunprogram_of_slot hi]
  refine ⟨?_, ?_, ?_, ?_, ?_, hI.alive, hI.exit_table, hI.exited, hI.phase_ok, hI.log_ok⟩
  · dsimp only
    omega
  · dsimp only
    omega
  · intro t ht
    have := hI.live t ht
    dsimp only
    omega
  · intro pid c hc
    have := hI.exit_range pid c hc
    dsimp only
    omega
  · -- the new entry names the new pid
    intro pid j q hj hq
    dsimp only at hq
    rcases eq_or_ne j i with rfl | hne
    · rw [Function.update_self] at hq
      obtain rfl := Option.some.inj hq
      exact slot_inj hi hj
    · rw [Function.update_of_ne hne] at hq
      exact hI.entry pid j q hj hq

theorem commonProg_inv (hI : Inv s) (ho : (commonProg s).overflow = false) : Inv (commonProg s) := by
  obtain ⟨i, hi⟩ := slot_of_procCreateRunprogram (s := s) ho
  refine threadFork_inv (procCreateRunprogram_inv hI hi) ⟨hI.counter_ge, ?_⟩ ?_
  · rw [counterPid_procCreateRunprogram hi]
    omega
  · rw [exitCode_procCreateRunprogram]
    exact hI.unborn (Int.le_refl _)

theorem sysFork_inv {o : ForkOutcome} (hI : Inv s) (ho : (sysFork s p o).overflow = false) :
    Inv (sysFork s p o) := by
  rcases sysFork_cases ho with ⟨-, h⟩ | ⟨i, f, -, hi, h | h⟩ <;> rw [h]
  · exact hI
  · exact (procCreateRunprogram_inv hI hi).withProcs f
  · -- the child's thread starts
    refine threadFork_inv ((procCreateRunprogram_inv hI hi).withProcs f) ⟨hI.counter_ge, ?_⟩ ?_
    · show s.counterPid < (procCreateRunprogram s).counterPid
      rw [counterPid_procCreateRunprogram hi]
      omega
    · show (procCreateRunprogram s).exitCode s.counterPid = none
      rw [exitCode_procCreateRunprogram]
      exact hI.unborn (Int.le_refl _)

theorem update_exitCode_of_some {f : Int → Option Int32} {v : Option Int32} {c : Int32}
    (hp : f p = none) (h : f pid = some c) : Function.update f p v pid = some c := by
  have hne : pid ≠ p := by
    rintro rfl
    rw [hp] at h
    cases h
  rw [Function.update_of_ne hne]
  exact h

theorem phaseOk_exitSection {q : Phase} {code : Int32} (hnone : s.exitCode p = none)
    (h : PhaseOk s q) : PhaseOk (exitSection s p i code) (wake p q) := by
  cases q with
  | blocked pid cv =>
    obtain ⟨rfl, hc⟩ := h
    by_cases hcp : cv = p
    · simp only [wake, if_pos hcp]
      trivial
    · simp only [wake, if_neg hcp]
      refine ⟨rfl, ?_⟩
      show Function.update s.exitCode p (some code) cv = none
      rw [Function.update_of_ne hcp]
      exact hc
  | copying pid st =>
    obtain ⟨c, hc, rfl⟩ := h
    exact ⟨c, update_exitCode_of_some hnone hc, rfl⟩
  | _ => trivial

/-- The section of `sys__exit` keeps the invariant: the tables change at the
    exiting process's own entry only, and the broadcast wakes exactly the
    threads that wait for it. -/
theorem exitSection_inv {code : Int32} (hI : Inv s) (hp : s.phase p = .running)
    (hi : slot p = some i) : Inv (exitSection s p i code) := by
  have hrun : s.phase p ≠ .exited := by simp [hp]
  have hnone := hI.exitCode_of_phase hrun
  have hlive := hI.live p hrun
  -- another pid has another entry
  have hother : ∀ pid j, slot pid = some j → pid ≠ p → j ≠ i := by
    rintro pid j hj hne rfl
    exact hne (slot_inj hj hi)
  refine ⟨hI.counter_ge, hI.counter_le, ?_, ?_, hI.entry, ?_, ?_, ?_, ?_, ?_⟩
  · intro t ht
    dsimp only [exitSection, cvBroadcast] at ht
    rcases eq_or_ne t p with rfl | hne
    · exact hlive
    · rw [Function.update_of_ne hne, cvBroadcast_apply, Ne, wake_eq_exited] at ht
      exact hI.live t ht
  · intro pid c hc
    dsimp only [exitSection] at hc
    rcases eq_or_ne pid p with rfl | hne
    · exact hlive
    · rw [Function.update_of_ne hne] at hc
      exact hI.exit_range pid c hc
  · intro pid j hj
    dsimp only [exitSection]
    rcases eq_or_ne pid p with rfl | hne
    · obtain rfl := Option.some.inj (hj.symm.trans hi)
      simp
    · rw [Function.update_of_ne hne, Function.update_of_ne (hother pid j hj hne)]
      exact hI.alive pid j hj
  · intro pid j c hj hc
    dsimp only [exitSection] at hc ⊢
    rcases eq_or_ne pid p with rfl | hne
    · obtain rfl := Option.some.inj (hj.symm.trans hi)
      rw [Function.update_self] at hc
      rw [Function.update_self, Option.some.inj hc]
    · rw [Function.update_of_ne hne] at hc
      rw [Function.update_of_ne (hother pid j hj hne)]
      exact hI.exit_table pid j c hj hc
  · intro pid c hc
    dsimp only [exitSection, cvBroadcast] at hc ⊢
    rcases eq_or_ne pid p with rfl | hne
    · exact Function.update_self _ _ _
    · rw [Function.update_of_ne hne] at hc ⊢
      rw [cvBroadcast_apply, hI.exited pid c hc]
      rfl
  · intro t
    dsimp only [exitSection, cvBroadcast]
    rcases eq_or_ne t p with rfl | hne
    · rw [Function.update_self]
      trivial
    · rw [Function.update_of_ne hne, cvBroadcast_apply]
      exact phaseOk_exitSection hnone (hI.phase_ok t)
  · intro r hr v hv
    obtain ⟨hv, c, hc, hst⟩ := hI.log_ok r hr v hv
    exact ⟨hv, c, update_exitCode_of_some hnone hc, hst⟩

theorem sysExit_inv {code : Int32} (hI : Inv s) (hp : s.phase p = .running)
    (ho : (sysExit s p code).overflow = false) : Inv (sysExit s p code) := by
  cases hi : slot p with
  | none => simp [sysExit, hi] at ho
  | some i =>
    rw [sysExit_of_slot hi]
    exact (exitSection_inv hI hp hi).withProcs _

theorem sysWaitpid_inv {status : Nat} {options : Int} (hI : Inv s) (hp : s.phase p = .running) :
    Inv (sysWaitpid s p pid status options) := by
  have hrun : s.phase p ≠ .exited := by simp [hp]
  unfold sysWaitpid
  split_ifs
  · exact waitReturn_inv hI hrun recordOk_error
  · exact waitReturn_inv hI hrun recordOk_error
  · split
    · split_ifs
      · exact hI.setPhase (hI.live p hrun) (hI.exitCode_of_phase hrun) trivial
      · exact waitReturn_inv hI hrun recordOk_error
    · exact hI

/-- The test under `lk_tb`: a waiter for a live child sleeps on that child's cv,
    a waiter for an exited child takes its code from `exitTable`. -/
theorem waitTest_inv (hI : Inv s) (hp : s.phase p ≠ .exited)
    (ho : (waitTest s p pid).overflow = false) : Inv (waitTest s p pid) := by
  have hlive := hI.live p hp
  have hnone := hI.exitCode_of_phase hp
  cases hi : slot pid with
  | none => simp [waitTest, hi] at ho
  | some i =>
    cases ha : s.aliveTable i with
    | true =>
      cases hq : s.procTable i with
      | none => simp [waitTest, hi, ha, hq] at ho
      | some cv =>
        simp only [waitTest, hi, ha, hq, if_true]
        split_ifs
        · exact hI.setPhase hlive hnone ⟨hI.entry pid i cv hi hq, (hI.alive pid i hi).1 ha⟩
        · -- `cv_wait` on the cv of a freed process
          exact hI.withUseAfterFree
    | false =>
      simp only [waitTest, hi, ha, Bool.false_eq_true, if_false]
      obtain ⟨c, hc⟩ : ∃ c, s.exitCode pid = some c := by
        refine Option.ne_none_iff_exists'.1 fun h => ?_
        rw [(hI.alive pid i hi).2 h] at ha
        cases ha
      exact hI.setPhase hlive hnone ⟨c, hc, by rw [hI.exit_table pid i c hi hc]⟩

theorem waitCopyout_inv {st : Int32} {ok : Bool} (hI : Inv s) (hp : s.phase p = .copying pid st) :
    Inv (waitCopyout s p pid st ok) := by
  have hrun : s.phase p ≠ .exited := by simp [hp]
  unfold waitCopyout
  split_ifs
  · refine waitReturn_inv hI hrun fun v hv => ?_
    have h := hI.phase_ok p
    rw [hp] at h
    obtain ⟨c, hc, rfl⟩ := h
    cases hv
    exact ⟨rfl, c, hc, rfl⟩
  · exact waitReturn_inv hI hrun recordOk_error

theorem inv_step (hI : Inv s) (h : step s e = some s') (ho : s'.overflow = false) : Inv s' := by
  obtain ⟨-, h⟩ := step_cases h
  rcases h with ⟨rfl, rfl⟩ | ⟨p, o, rfl, -, rfl⟩ | ⟨p, code, rfl, hp, rfl⟩ |
    ⟨p, pid, status, options, rfl, hp, rfl⟩ | ⟨p, pid, rfl, hp, rfl⟩ | ⟨p, pid, st, ok, rfl, hp, rfl⟩
  · exact commonProg_inv hI ho
  · exact sysFork_inv hI ho
  · exact sysExit_inv hI hp ho
  · exact sysWaitpid_inv hI hp
  · exact waitTest_inv hI (by rcases hp with hp | hp <;> simp [hp]) ho
  · exact waitCopyout_inv hI hp

/-- Every reachable state without overflow satisfies the invariant. -/
theorem inv_reachable (h : machine.Reachable s) (ho : s.overflow = false) : Inv s :=
  Machine.reachable_induction (P := fun s => s.overflow = false → Inv s) (fun _ => inv_init)
    (fun _ _ _ ih hs ho' => inv_step (ih (step_cases hs).1) hs ho') h ho

/-! ## The 65th process -/

theorem step_runprogram (ho : s.overflow = false) (hu : s.useAfterFree = false) :
    machine.step s .runprogram = some (commonProg s) := by
  simp [machine, step, dispatch, ho, hu]

@[simp]
theorem useAfterFree_commonProg : (commonProg s).useAfterFree = s.useAfterFree := by
  unfold commonProg threadFork procCreateRunprogram
  split <;> rfl

/-- From `counter_pid = 66 - n`, the menu runs `n` programs and the next one
    indexes `procTable[64]`. -/
theorem runprograms_overflow :
    ∀ (n : Nat) (s : State), s.overflow = false → s.useAfterFree = false → 2 ≤ s.counterPid →
      s.counterPid + n = 66 →
      ∃ t, machine.runFrom s (List.replicate (n + 1) .runprogram) = some t ∧ t.overflow = true
  | 0, s, ho, hu, _, hc => by
    have hnone : slot s.counterPid = none := slot_eq_none (by omega)
    refine ⟨commonProg s, ?_, ?_⟩
    · rw [List.replicate_one, Machine.runFrom_cons (step_runprogram ho hu)]
      rfl
    · show (procCreateRunprogram s).overflow = true
      simp [procCreateRunprogram, hnone]
  | n + 1, s, ho, hu, h2, hc => by
    obtain ⟨i, hi⟩ := slot_isSome h2 (by omega)
    have hc' := counterPid_procCreateRunprogram hi
    have ho' : (commonProg s).overflow = false := by
      show (procCreateRunprogram s).overflow = false
      rw [procCreateRunprogram_of_slot hi]
      exact ho
    obtain ⟨t, ht, hto⟩ := runprograms_overflow n (commonProg s) ho' (by rw [useAfterFree_commonProg, hu])
      (by show 2 ≤ (procCreateRunprogram s).counterPid; omega)
      (by show (procCreateRunprogram s).counterPid + n = 66; omega)
    refine ⟨t, ?_, hto⟩
    rw [List.replicate_succ, Machine.runFrom_cons (step_runprogram ho hu)]
    exact ht

theorem proc_table_overflows_at_65th_process :
    (∃ s, machine.run (List.replicate 65 .runprogram) = some s ∧ s.overflow = true) ∧
    ∀ es s, machine.run es = some s → 65 ≤ es.countP Event.creates → s.overflow = true := by
  refine ⟨runprograms_overflow 64 State.init rfl rfl (by decide) (by decide), fun es s h h65 => ?_⟩
  -- without overflow, `counter_pid` would be past the 64 entries
  cases ho : s.overflow
  · have hle := (inv_reachable (Machine.run_reachable h) ho).counter_le
    have hc := counterPid_runFrom es h ho
    have h2 : machine.init.counterPid = 2 := rfl
    omega
  · rfl

/-! ## `sys__exit` and `sys_waitpid` -/

/-- The exit of a child wakes every thread asleep waiting for it. -/
theorem phase_exit_of_blocked {t cv : Int} {code : Int32} (hI : Inv s)
    (hb : s.phase t = .blocked pid cv) (h : machine.step s (.exit pid code) = some s') :
    s'.phase t = .woken pid := by
  obtain ⟨-, h⟩ := step_cases h
  rcases h with ⟨he, -⟩ | ⟨_, _, he, -⟩ | ⟨p, c, he, hp, rfl⟩ | ⟨_, _, _, _, he, -⟩ |
    ⟨_, _, he, -⟩ | ⟨_, _, _, _, he, -⟩ <;> cases he
  have hrun : s.phase pid ≠ .exited := by simp [hp]
  have hlive := hI.live pid hrun
  obtain ⟨i, hi⟩ := slot_isSome hlive.1 (by have := hI.counter_le; omega)
  have htp : t ≠ pid := by
    rintro rfl
    rw [hb] at hp
    cases hp
  have hok := hI.phase_ok t
  rw [hb] at hok
  obtain ⟨rfl, -⟩ := hok
  rw [sysExit_of_slot hi]
  show Function.update (cvBroadcast s.phase cv) cv .exited t = .woken cv
  rw [Function.update_of_ne htp, cvBroadcast_apply, hb]
  simp [wake]

/-- Once the child has exited, a waiter that takes `lk_tb` goes on to copy out
    `_MKWAIT_EXIT` of the child's code. -/
theorem test_of_exited {c : Int32} (hI : Inv s) (ho : s.overflow = false) (hu : s.useAfterFree = false)
    (hp : s.phase p = .checked pid ∨ s.phase p = .woken pid) (hc : s.exitCode pid = some c) :
    ∃ s', machine.step s (.test p) = some s' ∧ s'.phase p = .copying pid (mkwaitExit c) := by
  have hrange := hI.exit_range pid c hc
  obtain ⟨i, hi⟩ := slot_isSome hrange.1 (by have := hI.counter_le; omega)
  have ha : s.aliveTable i = false := by
    cases ha : s.aliveTable i
    · rfl
    · rw [(hI.alive pid i hi).1 ha] at hc
      cases hc
  refine ⟨waitTest s p pid, ?_, ?_⟩
  · show (if s.overflow || s.useAfterFree then none else dispatch s (.test p)) = _
    rw [ho, hu, Bool.false_or, if_neg Bool.false_ne_true]
    rcases hp with hp | hp <;> simp [dispatch, hp]
  · simp only [waitTest, hi, ha, Bool.false_eq_true, if_false, hI.exit_table pid i c hi hc]
    exact Function.update_self _ _ _

/-- A null `status` is turned away with `EFAULT` before `isExist` is looked at:
    here the pid `5` is no child of the process `2`. -/
theorem waitpid_null_status :
    ∃ s, machine.run [.runprogram, .waitpid 2 5 0 0] = some s ∧
      s.waitLog = [⟨2, 5, .error .efault, none⟩] :=
  ⟨_, rfl, rfl⟩

/-- In every reachable state without overflow or use after free: a
    `sys_waitpid` that returned a value returned the pid it waited for and
    stored `_MKWAIT_EXIT` of the code that very process passed to `sys__exit`;
    a sleeper sleeps on the cv of the child it waits for, which has not exited,
    and whose exit wakes it; once the child has exited, the waiter's next test
    under `lk_tb` takes that code; with `options = 0` and a non-null `status`,
    a pid that is not a child gets `ECHILD` at once; a null `status` gets
    `EFAULT`, and `options ≠ 0` gets `EINVAL`, before the children are looked at. -/
theorem waitpid_exit_agreement (hs : machine.Reachable s) (ho : s.overflow = false) (hu : s.useAfterFree = false) :
    (∀ r ∈ s.waitLog, ∀ v, r.result = .ok v →
      v = r.pid ∧ ∃ c, s.exitCode r.pid = some c ∧ r.stored = some (mkwaitExit c)) ∧
    (∀ t pid cv, s.phase t = .blocked pid cv → cv = pid ∧ s.exitCode pid = none ∧
      ∀ code s', machine.step s (.exit pid code) = some s' → s'.phase t = .woken pid) ∧
    (∀ p pid c, (s.phase p = .checked pid ∨ s.phase p = .woken pid) → s.exitCode pid = some c →
      ∃ s', machine.step s (.test p) = some s' ∧ s'.phase p = .copying pid (mkwaitExit c)) ∧
    (∀ p pid status proc, s.phase p = .running → status ≠ 0 → s.procs p = some proc →
      isExist proc pid = false →
      machine.step s (.waitpid p pid status 0) = some (waitReturn s p pid (.error .echild) none)) ∧
    (∀ p pid, s.phase p = .running →
      machine.step s (.waitpid p pid 0 0) = some (waitReturn s p pid (.error .efault) none)) ∧
    (∀ p pid status options, s.phase p = .running → options ≠ 0 →
      machine.step s (.waitpid p pid status options) = some (waitReturn s p pid (.error .einval) none)) := by
  have hI := inv_reachable hs ho
  -- a `sys_waitpid` by a running thread is the step of `sysWaitpid`
  have hwait : ∀ p pid status options, s.phase p = .running →
      machine.step s (.waitpid p pid status options) = some (sysWaitpid s p pid status options) := by
    intro p pid status options hp
    show (if s.overflow || s.useAfterFree then none else dispatch s _) = _
    simp [ho, hu, dispatch, hp]
  refine ⟨hI.log_ok, fun t pid cv hb => ?_, fun p pid c hp hc => test_of_exited hI ho hu hp hc,
    fun p pid status proc hp hst hproc hx => ?_, fun p pid hp => ?_, fun p pid status options hp hop => ?_⟩
  · have hok := hI.phase_ok t
    rw [hb] at hok
    exact ⟨hok.1, hok.2, fun _ _ h => phase_exit_of_blocked hI hb h⟩
  · rw [hwait p pid status 0 hp]
    simp [sysWaitpid, hst, hproc, hx]
  · rw [hwait p pid 0 0 hp]
    simp [sysWaitpid]
  · rw [hwait p pid status options hp]
    simp [sysWaitpid, hop]

/-- The process `2` forks `3` and waits for it; `3` exits with `7` while its
    parent sleeps. -/
def waitForChild : List Event :=
  [.runprogram, .fork 2 .ok, .waitpid 2 3 1 0, .test 2, .exit 3 7, .test 2, .copyout 2 true]

/-- The wait for the child returns `3` and stores `_MKWAIT_EXIT(7)`. -/
theorem waitpid_exit_agreement_run :
    ∃ s, machine.run waitForChild = some s ∧ s.waitLog = [⟨2, 3, .ok 3, some (mkwaitExit 7)⟩] ∧
      (∀ r ∈ s.waitLog, ∀ v, r.result = .ok v →
        v = r.pid ∧ ∃ c, s.exitCode r.pid = some c ∧ r.stored = some (mkwaitExit c)) :=
  ⟨_, rfl, rfl, (waitpid_exit_agreement (@Machine.run_reachable _ _ machine waitForChild _ rfl) rfl rfl).1⟩

/-! ## A failed `sys_fork` -/

/-- `sys_fork` whose `thread_fork` fails, by a parent with room for one more
    child: the child's pid is taken, its `procTable` entry set, and the parent
    records it in `childArray`; `proc_destroy` then frees the child, and
    nothing undoes the rest. -/
theorem sysFork_threadForkFails_spec {proc : Process} (hi : slot s.counterPid = some i)
    (hp : p ≠ s.counterPid) (hproc : s.procs p = some proc)
    (hcount : 0 ≤ proc.countChild ∧ proc.countChild < 64) :
    (sysFork s p .threadForkFails).overflow = s.overflow ∧
    (sysFork s p .threadForkFails).useAfterFree = s.useAfterFree ∧
    (sysFork s p .threadForkFails).phase = s.phase ∧
    (sysFork s p .threadForkFails).aliveTable = s.aliveTable ∧
    (sysFork s p .threadForkFails).procTable i = some s.counterPid ∧
    (sysFork s p .threadForkFails).procs s.counterPid = none ∧
    (sysFork s p .threadForkFails).procs p = some { proc with
      childArray := Function.update proc.childArray ⟨proc.countChild.toNat, by omega⟩ s.counterPid
      countChild := proc.countChild + 1 } := by
  simp [sysFork, procCreateRunprogram_of_slot hi, procDestroy_of_slot hi, addChild,
    Function.update_of_ne hp, hproc, hcount]

/-- A `sys_fork` whose `thread_fork` fails returns its error, but leaves the
    child in the parent's `childArray` (with `countChild` one more) and its
    entries in `procTable` and `aliveTable`, though `proc_destroy` has freed
    it and it will never exit. A later `sys_waitpid` of the parent on that
    pid passes `isExist`, finds `aliveTable` set, and reads `cv_child`
    through the freed process. -/
theorem failed_fork_use_after_free {proc : Process} (hs : machine.Reachable s)
    (ho : s.overflow = false) (hu : s.useAfterFree = false) (hp : s.phase p = .running)
    (hproc : s.procs p = some proc) (hcount : 0 ≤ proc.countChild ∧ proc.countChild < 64)
    (hpid : s.counterPid < 66) {status : Nat} (hstatus : status ≠ 0) :
    ∃ s₁ s₂, machine.step s (.fork p .threadForkFails) = some s₁ ∧
      (∃ proc', s₁.procs p = some proc' ∧ proc'.countChild = proc.countChild + 1 ∧
        isExist proc' s.counterPid = true) ∧
      s₁.procs s.counterPid = none ∧
      machine.runFrom s₁ [.waitpid p s.counterPid status 0, .test p] = some s₂ ∧ s₂.useAfterFree = true := by
  have hI := inv_reachable hs ho
  obtain ⟨i, hi⟩ := slot_isSome hI.counter_ge hpid
  have hplt := (hI.live p (by simp [hp])).2
  obtain ⟨ho₁, hu₁, hph₁, ha₁, ht₁, hc₁, hp₁⟩ := sysFork_threadForkFails_spec hi (by omega) hproc hcount
  -- the child has not exited
  have halive : s.aliveTable i = true := (hI.alive _ i hi).2 (hI.unborn (Int.le_refl _))
  -- the parent finds the child in `childArray`
  have hexist : isExist { proc with
      childArray := Function.update proc.childArray ⟨proc.countChild.toNat, by omega⟩ s.counterPid
      countChild := proc.countChild + 1 } s.counterPid = true := by
    simp only [isExist, List.any_eq_true]
    exact ⟨⟨proc.countChild.toNat, by omega⟩, List.mem_finRange _, by simp; omega⟩
  have h₁ : machine.step s (.fork p .threadForkFails) = some (sysFork s p .threadForkFails) := by
    show (if s.overflow || s.useAfterFree then none else dispatch s _) = _
    simp [ho, hu, dispatch, hp]
  -- `sys_waitpid` passes its checks, then `cv_wait` reads the freed child
  have h₂ : machine.runFrom (sysFork s p .threadForkFails) [.waitpid p s.counterPid status 0, .test p] =
      some { sysFork s p .threadForkFails with
        phase := Function.update (sysFork s p .threadForkFails).phase p (.checked s.counterPid),
        useAfterFree := true } := by
    simp [Machine.runFrom, machine, step, dispatch, ho₁, hu₁, ho, hu, hph₁, hp, sysWaitpid, hstatus, hp₁, hexist,
      waitTest, hi, ha₁, halive, ht₁, hc₁]
  exact ⟨_, _, h₁, ⟨_, hp₁, rfl, hexist⟩, hc₁, h₂, rfl⟩

/-- The first program of the menu, process `2`, forks; `thread_fork` fails; its
    wait for pid `3` then reads the freed process `3`. -/
theorem firstProgram_failed_fork :
    ∃ s₁ s₂, machine.step (commonProg State.init) (.fork 2 .threadForkFails) = some s₁ ∧
      (∃ proc', s₁.procs 2 = some proc' ∧ proc'.countChild = Process.fresh.countChild + 1 ∧
        isExist proc' 3 = true) ∧
      s₁.procs 3 = none ∧
      machine.runFrom s₁ [.waitpid 2 3 1 0, .test 2] = some s₂ ∧ s₂.useAfterFree = true :=
  failed_fork_use_after_free (.step .init (step_runprogram rfl rfl)) rfl rfl rfl rfl (by decide) (by decide)
    (by decide)

end Os161.Proc
