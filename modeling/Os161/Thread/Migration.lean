import Os161.Thread.Sched

/-!
# Migration

`thread_consider_migration` of kern/thread/thread.c, called from `hardclock`,
balances the run queues. The current CPU `c` counts the threads on the run
queue of each CPU of `allcpus` (`my_count` its own, `total_count` all of them),
and when it holds at least its share `one_share = DIVROUNDUP(total_count,
numcpus)` it takes the last `to_send = my_count - one_share` threads of its
run queue as `victims`. Each other CPU in turn then takes victims from their
head while its run queue is short of `one_share` and `to_send` is not `0`;
the current thread of `c`, found among the victims, goes back to their tail and
still counts against `to_send`. The leftovers return to the tail of the run
queue of `c`.

`considerMigration` is the whole function run with no other section in
between, as the sections of `Sched.machine` it is made of. Along it, the
threads of the run queues and the victims are the threads the run queues held
at the start, and there are never fewer victims than `to_send`, so that
`threadlist_remhead` never finds the victims empty (`Migrating`). Then:

* `thread_migration_conserves`: `considerMigration` returns, with the same
  threads on the run queues, counted with their multiplicity; the current
  thread of `c` keeps its `t_cpu` and goes to no other run queue; no other run
  queue grows past `one_share` unless it was longer already; and from a state
  of the placement invariant (`Sched.Placed`), every thread on the run queue
  of a CPU has that CPU as its `t_cpu`.
-/

namespace Os161.Thread

namespace Sched

variable {T C W : Type*} [DecidableEq T] [DecidableEq C] [DecidableEq W]

/-- The first loop of `thread_consider_migration` on `c`: `my_count` and
    `total_count`, over `allcpus`. -/
def countRunqueues (s : Sched T C W) (c : C) (cpus : List C) : Nat × Nat :=
  cpus.foldl (fun acc c' =>
    (if c' = c then (s.lists (.runqueue c')).length else acc.1, acc.2 + (s.lists (.runqueue c')).length))
    (0, 0)

/-- The `for` loop over `allcpus` of `thread_consider_migration` on `c`: while
    `to_send` is not `0`, each other CPU takes victims in turn. -/
def migrateLoop (c : C) (oneShare : Nat) : List C → Sched T C W → Option (Sched T C W)
  | [], s => some s
  | c' :: cpus, s =>
    if s.toSend c > 0 then
      -- the `continue` on `curcpu` itself
      if c' = c then migrateLoop c oneShare cpus s
      else (migrateTo c c' oneShare (s.toSend c) s).bind (migrateLoop c oneShare cpus)
    else some s

/-- `thread_consider_migration()` on `c`, with `allcpus` holding `cpus`, run
    with no other section in between. -/
def considerMigration (cpus : List C) (c : C) (s : Sched T C W) : Option (Sched T C W) :=
  let (myCount, totalCount) := s.countRunqueues c cpus
  -- `DIVROUNDUP(total_count, numcpus)`
  let oneShare := (totalCount + (cpus.length - 1)) / cpus.length
  if myCount < oneShare then some s
  else do
    let s ← s.migrateCollect c (myCount - oneShare)
    let s ← migrateLoop c oneShare cpus s
    pure (if s.lists (.victims c) = [] then s else s.migrateLeftovers c)

/-- The threads on the run queues of the CPUs `cpus`, as a multiset. -/
def runqueued (cpus : List C) (s : Sched T C W) : Multiset T :=
  Queues.bag s.lists (cpus.map .runqueue)

/-- What holds along a migration on `c` from `s₀`, with the share `oneShare`. -/
structure Migrating (cpus : List C) (c : C) (oneShare : Nat) (s₀ s : Sched T C W) : Prop where
  /-- The threads that were on the run queues are on a run queue or a victim. -/
  threads : runqueued cpus s + (s.lists (.victims c) : Multiset T) = runqueued cpus s₀
  toSend_le : s.toSend c ≤ (s.lists (.victims c)).length
  curthread : s.curthread = s₀.curthread
  cpu_cur : s.tCpu (s₀.curthread c) = s₀.tCpu (s₀.curthread c)
  /-- The current thread of `c` is on the run queue of no other CPU it was not on. -/
  cur_stays : ∀ c', c' ≠ c → s₀.curthread c ∈ s.lists (.runqueue c') → s₀.curthread c ∈ s₀.lists (.runqueue c')
  bound : ∀ c', c' ≠ c → (s.lists (.runqueue c')).length ≤ max (s₀.lists (.runqueue c')).length oneShare

section Steps

variable {cpus : List C} {c : C} {oneShare : Nat} {s₀ : Sched T C W}

omit [DecidableEq T] [DecidableEq C] [DecidableEq W] in
theorem nodup_runqueues (hnd : cpus.Nodup) : (cpus.map (Loc.runqueue : C → Loc T C W)).Nodup :=
  hnd.map fun _ _ h => Loc.runqueue.inj h

omit [DecidableEq T] [DecidableEq C] [DecidableEq W] in
theorem victims_not_mem_runqueues : (Loc.victims c : Loc T C W) ∉ cpus.map .runqueue := by
  simp

omit [DecidableEq T] [DecidableEq W] in
/-- `my_count` is the length of the run queue of `c`, `total_count` the sum of
    the lengths of all of them. -/
theorem countRunqueues_eq (s : Sched T C W) (hc : c ∈ cpus) :
    s.countRunqueues c cpus =
      ((s.lists (.runqueue c)).length, (cpus.map fun c' => (s.lists (.runqueue c')).length).sum) := by
  -- the loop from any counts so far, on the CPUs left
  have hloop : ∀ (cs : List C) (acc : Nat × Nat), cs.foldl (fun acc c' =>
      (if c' = c then (s.lists (.runqueue c')).length else acc.1, acc.2 + (s.lists (.runqueue c')).length)) acc =
      (if c ∈ cs then (s.lists (.runqueue c)).length else acc.1,
        acc.2 + (cs.map fun c' => (s.lists (.runqueue c')).length).sum) := by
    intro cs
    induction cs with
    | nil => simp
    | cons c' cs ih =>
      intro acc
      rw [List.foldl_cons, ih]
      by_cases hcs : c ∈ cs
      · simp [hcs, Nat.add_assoc]
      · by_cases hc' : c' = c
        · subst hc'
          simp [Nat.add_assoc]
        · simp [hcs, hc', Ne.symm hc', Nat.add_assoc]
  rw [countRunqueues, hloop, if_pos hc, Nat.zero_add]

/-- The second section: the last `toSend` threads of the run queue of `c`
    become the victims. -/
theorem migrating_collect (hnd : cpus.Nodup) (hc : c ∈ cpus) (hv : s₀.lists (.victims c) = [])
    {toSend : Nat} (hle : toSend ≤ (s₀.lists (.runqueue c)).length) :
    ∃ s, s₀.migrateCollect c toSend = some s ∧ Migrating cpus c oneShare s₀ s := by
  -- the first `my_count - to_send` threads stay, the others are the victims
  have hn : (s₀.lists (.runqueue c)).length - ((s₀.lists (.runqueue c)).length - toSend) = toSend := by omega
  refine ⟨{ s₀ with
      lists := Queues.moveDrop s₀.lists (.runqueue c) (.victims c) ((s₀.lists (.runqueue c)).length - toSend)
      toSend := Function.update s₀.toSend c toSend },
    by rw [migrateCollect, if_pos ⟨hv, hle⟩], ?_, ?_, rfl, rfl, fun c' hc' hcur => ?_, fun c' hc' => ?_⟩
  · have h := Queues.bag_moveDrop_out (q := s₀.lists) (nodup_runqueues hnd) (List.mem_map_of_mem hc)
      (victims_not_mem_runqueues (c := c)) ((s₀.lists (.runqueue c)).length - toSend)
    rw [runqueued, runqueued, ← h]
    simp only [Queues.moveDrop, Function.update_self, hv, List.nil_append]
  · simp only [Queues.moveDrop, Function.update_self, hv, List.nil_append, List.length_drop, hn, le_refl]
  · dsimp only at hcur
    rwa [Queues.moveDrop_of_ne (by simpa using hc') (by simp)] at hcur
  · dsimp only
    rw [Queues.moveDrop_of_ne (by simpa using hc') (by simp)]
    exact le_max_left _ _

omit [DecidableEq T] [DecidableEq C] [DecidableEq W] in
theorem Migrating.victims_ne_nil {s : Sched T C W} (hm : Migrating cpus c oneShare s₀ s) (hpos : 0 < s.toSend c) :
    s.lists (.victims c) ≠ [] := by
  intro h
  have := hm.toSend_le
  rw [h, List.length_nil] at this
  omega

/-- A turn of the `while` loop that meets the current thread of `c`: back to
    the tail of the victims. -/
theorem Migrating.requeue {s : Sched T C W} (hm : Migrating cpus c oneShare s₀ s) {t : T} {rest : List T}
    (hq : s.lists (.victims c) = t :: rest) (hpos : 0 < s.toSend c) :
    Migrating cpus c oneShare s₀
      { s with toSend := Function.update s.toSend c (s.toSend c - 1)
               lists := Queues.moveHead s.lists (.victims c) (.victims c) t rest } := by
  refine ⟨?_, ?_, hm.curthread, hm.cpu_cur, fun c' hc' hcur => ?_, fun c' hc' => ?_⟩
  · rw [← hm.threads]
    dsimp only [runqueued]
    rw [Queues.bag_moveHead_out victims_not_mem_runqueues victims_not_mem_runqueues, Queues.moveHead_self,
      Function.update_self, hq]
    congr 1
    exact Multiset.coe_eq_coe.2 (List.perm_append_singleton t rest)
  · have hle := hm.toSend_le
    rw [hq, List.length_cons] at hle
    dsimp only
    rw [Queues.moveHead_self, Function.update_self, Function.update_self, List.length_append, List.length_singleton]
    omega
  · dsimp only at hcur
    rw [Queues.moveHead_of_ne (by simp) (by simp)] at hcur
    exact hm.cur_stays c' hc' hcur
  · dsimp only
    rw [Queues.moveHead_of_ne (by simp) (by simp)]
    exact hm.bound c' hc'

/-- A turn of the `while` loop that hands a victim to `c'`, whose run queue is
    short of `one_share`. -/
theorem Migrating.handOut {s : Sched T C W} (hm : Migrating cpus c oneShare s₀ s) (hnd : cpus.Nodup)
    {c' : C} (hc' : c' ∈ cpus) (hcc : c' ≠ c) {t : T} {rest : List T} (hq : s.lists (.victims c) = t :: rest)
    (hpos : 0 < s.toSend c) (hshort : (s.lists (.runqueue c')).length < oneShare) (hcur : t ≠ s.curthread c) :
    Migrating cpus c oneShare s₀
      { s with toSend := Function.update s.toSend c (s.toSend c - 1)
               tCpu := Function.update s.tCpu t c'
               lists := Queues.moveHead s.lists (.victims c) (.runqueue c') t rest } := by
  have hcur₀ : t ≠ s₀.curthread c := hm.curthread ▸ hcur
  refine ⟨?_, ?_, hm.curthread, ?_, fun c'' hc'' hin => ?_, fun c'' hc'' => ?_⟩
  · -- `t` leaves the victims for a run queue
    rw [← hm.threads]
    dsimp only [runqueued]
    rw [Queues.bag_moveHead_in (nodup_runqueues hnd) victims_not_mem_runqueues (List.mem_map_of_mem hc'),
      Queues.moveHead_source (by simp), hq, ← Multiset.cons_coe, ← Multiset.singleton_add]
    ac_rfl
  · have hle := hm.toSend_le
    rw [hq, List.length_cons] at hle
    dsimp only
    rw [Queues.moveHead_source (by simp), Function.update_self]
    omega
  · dsimp only
    rw [Function.update_of_ne (Ne.symm hcur₀)]
    exact hm.cpu_cur
  · dsimp only at hin
    by_cases h : c'' = c'
    · subst h
      rw [Queues.moveHead_target (by simp)] at hin
      rcases List.mem_append.mp hin with hin | hin
      · exact hm.cur_stays c'' hc'' hin
      · exact absurd (List.mem_singleton.mp hin).symm hcur₀
    · rw [Queues.moveHead_of_ne (by simp) (by simpa using h)] at hin
      exact hm.cur_stays c'' hc'' hin
  · dsimp only
    by_cases h : c'' = c'
    · subst h
      rw [Queues.moveHead_target (by simp), List.length_append, List.length_singleton]
      omega
    · rw [Queues.moveHead_of_ne (by simp) (by simpa using h)]
      exact hm.bound c'' hc''

/-- The `while` loop for `c'` returns, and keeps the invariant. -/
theorem Migrating.migrateTo (hnd : cpus.Nodup) {c' : C} (hc' : c' ∈ cpus) (hcc : c' ≠ c) :
    ∀ fuel (s : Sched T C W), Migrating cpus c oneShare s₀ s →
      ∃ s', migrateTo c c' oneShare fuel s = some s' ∧ Migrating cpus c oneShare s₀ s'
  | 0, s, hm => ⟨s, rfl, hm⟩
  | fuel + 1, s, hm => by
    rw [Sched.migrateTo]
    split_ifs with hguard
    · -- there is a victim, as `to_send` is not `0`
      obtain ⟨t, rest, hq⟩ := List.exists_cons_of_ne_nil (hm.victims_ne_nil hguard.2)
      simp only [hq]
      split_ifs with hcur
      · exact Migrating.migrateTo hnd hc' hcc fuel _ (hm.requeue hq hguard.2)
      · exact Migrating.migrateTo hnd hc' hcc fuel _ (hm.handOut hnd hc' hcc hq hguard.2 hguard.1 hcur)
    · exact ⟨s, rfl, hm⟩

/-- The `for` loop returns, and keeps the invariant. -/
theorem Migrating.migrateLoop (hnd : cpus.Nodup) :
    ∀ (cs : List C) (s : Sched T C W), (∀ c' ∈ cs, c' ∈ cpus) → Migrating cpus c oneShare s₀ s →
      ∃ s', migrateLoop c oneShare cs s = some s' ∧ Migrating cpus c oneShare s₀ s'
  | [], s, _, hm => ⟨s, rfl, hm⟩
  | c' :: cs, s, hcs, hm => by
    rw [Sched.migrateLoop]
    have hcs' : ∀ c'' ∈ cs, c'' ∈ cpus := fun c'' h => hcs c'' (List.mem_cons_of_mem _ h)
    split_ifs with hpos hcc
    · exact Migrating.migrateLoop hnd cs s hcs' hm
    · obtain ⟨s₁, h₁, hm₁⟩ := hm.migrateTo hnd (hcs c' List.mem_cons_self) hcc _ s
      rw [h₁, Option.bind_some]
      exact Migrating.migrateLoop hnd cs s₁ hcs' hm₁
    · exact ⟨s, rfl, hm⟩

/-- The last section: the leftover victims back on the run queue of `c`. -/
theorem Migrating.leftovers {s : Sched T C W} (hm : Migrating cpus c oneShare s₀ s) (hnd : cpus.Nodup)
    (hc : c ∈ cpus) :
    runqueued cpus (s.migrateLeftovers c) = runqueued cpus s₀ ∧ (s.migrateLeftovers c).lists (.victims c) = [] ∧
      ∀ c', c' ≠ c → (s.migrateLeftovers c).lists (.runqueue c') = s.lists (.runqueue c') := by
  refine ⟨?_, by simp [migrateLeftovers, Queues.moveDrop], fun c' hc' => ?_⟩
  · rw [← hm.threads, runqueued, runqueued, migrateLeftovers,
      Queues.bag_moveDrop_in (nodup_runqueues hnd) victims_not_mem_runqueues (List.mem_map_of_mem hc),
      List.drop_zero]
  · exact Queues.moveDrop_of_ne (by simp) (by simpa using hc')

end Steps

/-! ## The whole function -/

section Whole

variable {cpus : List C} {c : C} {s : Sched T C W}

/-- `thread_consider_migration` on `c` returns. Afterwards the run queues
    hold the threads they held, there are no victims left, the current thread
    of `c` keeps its `t_cpu` and is on the run queue of no other CPU it was
    not on, and no other run queue is longer than `one_share` unless it was
    already. -/
theorem considerMigration_spec (hnd : cpus.Nodup) (hc : c ∈ cpus) (hv : s.lists (.victims c) = []) :
    ∃ s', considerMigration cpus c s = some s' ∧
      runqueued cpus s' = runqueued cpus s ∧ s'.lists (.victims c) = [] ∧
      s'.tCpu (s.curthread c) = s.tCpu (s.curthread c) ∧
      (∀ c', c' ≠ c → s.curthread c ∈ s'.lists (.runqueue c') → s.curthread c ∈ s.lists (.runqueue c')) ∧
      ∀ c', c' ≠ c → (s'.lists (.runqueue c')).length ≤ max (s.lists (.runqueue c')).length
        (((cpus.map fun c'' => (s.lists (.runqueue c'')).length).sum + (cpus.length - 1)) / cpus.length) := by
  unfold considerMigration
  rw [countRunqueues_eq s hc]
  dsimp only
  split_ifs with hlt
  · -- `my_count < one_share`: nothing moves
    exact ⟨s, rfl, rfl, hv, rfl, fun _ _ h => h, fun _ _ => le_max_left _ _⟩
  · generalize ((cpus.map fun c' => (s.lists (.runqueue c')).length).sum + (cpus.length - 1)) / cpus.length =
      oneShare at hlt ⊢
    obtain ⟨s₁, h₁, hm₁⟩ : ∃ s₁, s.migrateCollect c ((s.lists (.runqueue c)).length - oneShare) = some s₁ ∧
        Migrating cpus c oneShare s s₁ := migrating_collect hnd hc hv (Nat.sub_le _ _)
    obtain ⟨s₂, h₂, hm₂⟩ := hm₁.migrateLoop hnd cpus s₁ fun _ h => h
    have hcur := hm₂.cpu_cur
    simp only [h₁, h₂, Option.bind_eq_bind, Option.bind_some, Option.pure_def]
    split_ifs with hv₂
    · -- every victim was handed out
      have hthreads := hm₂.threads
      rw [hv₂, Multiset.coe_nil, add_zero] at hthreads
      exact ⟨s₂, rfl, hthreads, hv₂, hcur, hm₂.cur_stays, hm₂.bound⟩
    · -- the leftovers go back to the run queue of `c`
      obtain ⟨hthreads, hv₃, hsame⟩ := hm₂.leftovers hnd hc
      refine ⟨_, rfl, hthreads, hv₃, hcur, fun c' hc' hin => ?_, fun c' hc' => ?_⟩
      · rw [hsame c' hc'] at hin
        exact hm₂.cur_stays c' hc' hin
      · rw [hsame c' hc']
        exact hm₂.bound c' hc'

theorem Placed.migrateLoop {oneShare : Nat} :
    ∀ (cs : List C) {s s' : Sched T C W}, s.Placed → migrateLoop c oneShare cs s = some s' → s'.Placed
  | [], _, _, hP, h => by
    cases h
    exact hP
  | c' :: cs, s, _, hP, h => by
    rw [Sched.migrateLoop] at h
    split_ifs at h
    · exact Placed.migrateLoop cs hP h
    · obtain ⟨s₁, h₁, h⟩ := Option.bind_eq_some_iff.1 h
      exact Placed.migrateLoop cs (hP.migrateTo _ h₁) h
    · cases h
      exact hP

/-- The whole function keeps the placement invariant, as each of its sections
    does. -/
theorem Placed.considerMigration (hP : s.Placed) {s' : Sched T C W} (h : considerMigration cpus c s = some s') :
    s'.Placed := by
  unfold Sched.considerMigration at h
  dsimp only at h
  split_ifs at h
  · cases h
    exact hP
  · simp only [Option.bind_eq_bind, Option.bind_eq_some_iff, Option.pure_def, Option.some.injEq] at h
    obtain ⟨s₁, h₁, s₂, h₂, rfl⟩ := h
    have hP₂ := (hP.migrateCollect h₁).migrateLoop _ h₂
    split_ifs
    · exact hP₂
    · exact hP₂.migrateLeftovers

/-- `thread_consider_migration` on `c`, run with no other section in between,
    from any state in which no migration of `c` is under way: it returns; the
    run queues of the CPUs hold the same threads, each as many times, so that
    none is lost or duplicated; the current thread of `c` keeps its `t_cpu`
    and goes to no run queue of another CPU; no run queue of another CPU grows
    past `one_share` unless it was already longer; and when the placement
    invariant held, every thread on the run queue of a CPU has that CPU as its
    `t_cpu`. -/
theorem thread_migration_conserves (hnd : cpus.Nodup) (hc : c ∈ cpus) (hv : s.lists (.victims c) = []) :
    ∃ s', considerMigration cpus c s = some s' ∧
      runqueued cpus s' = runqueued cpus s ∧
      s'.tCpu (s.curthread c) = s.tCpu (s.curthread c) ∧
      (∀ c', c' ≠ c → s.curthread c ∈ s'.lists (.runqueue c') → s.curthread c ∈ s.lists (.runqueue c')) ∧
      (∀ c', c' ≠ c → (s'.lists (.runqueue c')).length ≤ max (s.lists (.runqueue c')).length
        (((cpus.map fun c'' => (s.lists (.runqueue c'')).length).sum + (cpus.length - 1)) / cpus.length)) ∧
      (s.Placed → ∀ c' t, t ∈ s'.lists (.runqueue c') → s'.tCpu t = c') := by
  obtain ⟨s', h, hthreads, -, hcur, hstays, hbound⟩ := considerMigration_spec hnd hc hv
  refine ⟨s', h, hthreads, hcur, hstays, hbound, fun hP c' t ht => ?_⟩
  exact ((hP.considerMigration h).agrees (.runqueue c') t ht).1

end Whole

-- The numerals of `Fin 2` and `Fin 4` below take their `NeZero` instances from here.
local instance cpusNeZero : NeZero (2 : Nat) := ⟨two_ne_zero⟩
local instance threadsNeZero : NeZero (4 : Nat) := ⟨four_ne_zero⟩

/-- Two CPUs, each with its boot thread (`0` and `1`), and two more threads. -/
def twoCpus : Boot (Fin 4) (Fin 2) where
  thread c := ⟨c.val, by omega⟩
  home t := if h : t.val < 2 then ⟨t.val, h⟩ else 0
  home_thread := by decide

/-- The threads `2` and `3` ready on the run queue of CPU `0`. -/
def busyCpu0 : Sched (Fin 4) (Fin 2) (Fin 1) :=
  { (init twoCpus : Sched (Fin 4) (Fin 2) (Fin 1)) with
    live := fun _ => true
    lists := Function.update (fun _ => []) (.runqueue 0) [2, 3] }

/-- `thread_consider_migration` on CPU `0` of `busyCpu0`, with two CPUs. -/
theorem busyCpu0_migration :
    ∃ s', considerMigration [0, 1] 0 busyCpu0 = some s' ∧
      runqueued [0, 1] s' = runqueued [0, 1] busyCpu0 ∧
      s'.tCpu (busyCpu0.curthread 0) = busyCpu0.tCpu (busyCpu0.curthread 0) ∧
      (∀ c', c' ≠ 0 → busyCpu0.curthread 0 ∈ s'.lists (.runqueue c') →
        busyCpu0.curthread 0 ∈ busyCpu0.lists (.runqueue c')) ∧
      (∀ c', c' ≠ 0 → (s'.lists (.runqueue c')).length ≤ max (busyCpu0.lists (.runqueue c')).length
        ((([0, 1].map fun c'' => (busyCpu0.lists (.runqueue c'')).length).sum + ([0, 1].length - 1)) /
          [0, 1].length)) ∧
      (busyCpu0.Placed → ∀ c' t, t ∈ s'.lists (.runqueue c') → s'.tCpu t = c') :=
  thread_migration_conserves (by decide) (by decide) rfl

end Sched

end Os161.Thread
