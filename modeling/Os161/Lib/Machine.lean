import Mathlib

/-!
# Guarded state machines

A machine is an initial state and a *guarded* step function: `step s e` is
`some s'` when the event `e` is enabled in the state `s` and leads to `s'`, and
`none` when it is not enabled. Concurrent code is modelled this way with one
event per atomic section of one thread, so that the interleavings of the
threads are the sequences of events.

The one step function serves both directions of a safety argument:

* `Machine.reachable_induction`: a property that holds initially and is kept
  by every enabled event holds in every reachable state (`Machine.Reachable`);
* `Machine.run_reachable`: the end of a replayed trace (`Machine.run`) is
  reachable, which is how a reachable state is exhibited, and a safety
  property refuted, by evaluation;
* `Machine.runFrom_induction`: the same induction along one trace, for
  properties of the runs whose events all satisfy a side condition;
* `Machine.Reachable.of_sub`: a machine whose steps are among another's
  reaches only states the other reaches.

With the threads' places a function `pc : T → ρ`, an event moves one thread
at a time: `Machine.card_filter_update` says how the number of threads at
places of one kind changes then.
-/

/-- A machine: an initial state and a guarded step function. -/
structure Machine (σ ε : Type*) where
  /-- The initial state. -/
  init : σ
  /-- The step taken on an event, `none` when the event is not enabled. -/
  step : σ → ε → Option σ

namespace Machine

variable {σ ε : Type*} (M : Machine σ ε)

/-- Replaying the events `es` from `s`: `none` as soon as one is not enabled. -/
def runFrom : σ → List ε → Option σ
  | s, [] => some s
  | s, e :: es =>
    match M.step s e with
    | some s' => runFrom s' es
    | none => none

/-- Replaying the events `es` from the initial state. -/
def run (es : List ε) : Option σ :=
  M.runFrom M.init es

/-- The states some sequence of enabled events leads to from the initial state. -/
inductive Reachable : σ → Prop
  | init : Reachable M.init
  | step {s s' : σ} {e : ε} : Reachable s → M.step s e = some s' → Reachable s'

variable {M}

@[simp]
theorem runFrom_nil (s : σ) : M.runFrom s [] = some s := rfl

theorem runFrom_cons {s s' : σ} {e : ε} (h : M.step s e = some s') (es : List ε) :
    M.runFrom s (e :: es) = M.runFrom s' es := by
  simp [runFrom, h]

/-- A replay that succeeds starts with an enabled event. -/
theorem step_of_runFrom_cons {s t : σ} {e : ε} {es : List ε}
    (h : M.runFrom s (e :: es) = some t) : ∃ s', M.step s e = some s' ∧ M.runFrom s' es = some t := by
  unfold runFrom at h
  split at h
  · exact ⟨_, ‹_›, h⟩
  · cases h

/-- An invariant holds on every reachable state once it holds initially and is
    kept by every enabled event. -/
theorem reachable_induction {P : σ → Prop} (hinit : P M.init)
    (hstep : ∀ s e s', P s → M.step s e = some s' → P s') {s : σ} (h : M.Reachable s) : P s := by
  induction h with
  | init => exact hinit
  | step _ hse ih => exact hstep _ _ _ ih hse

/-- Replaying from a reachable state never leaves the reachable states. -/
theorem runFrom_reachable {s : σ} (hs : M.Reachable s) :
    ∀ (es : List ε) {t : σ}, M.runFrom s es = some t → M.Reachable t := by
  intro es
  induction es generalizing s with
  | nil =>
    intro t h
    cases h
    exact hs
  | cons e es ih =>
    intro t h
    obtain ⟨s', hse, hrest⟩ := step_of_runFrom_cons h
    exact ih (.step hs hse) hrest

/-- The end state of a successful replay from the initial state is reachable. -/
theorem run_reachable {es : List ε} {t : σ} (h : M.run es = some t) : M.Reachable t :=
  runFrom_reachable .init es h

/-- A machine from the same initial state whose enabled events are enabled
    in `M` with the same result reaches only states `M` reaches. -/
theorem Reachable.of_sub {N : Machine σ ε} (hinit : N.init = M.init)
    (hstep : ∀ s e s', N.step s e = some s' → M.step s e = some s') {s : σ} (h : N.Reachable s) :
    M.Reachable s := by
  induction h with
  | init => exact hinit ▸ .init
  | step _ hse ih => exact .step ih (hstep _ _ _ hse)

/-- Induction along one trace: a property kept by every event of the trace that
    satisfies `Q` holds at the end of a trace whose events all satisfy `Q`. -/
theorem runFrom_induction {P : σ → Prop} {Q : ε → Prop}
    (hstep : ∀ s e s', Q e → P s → M.step s e = some s' → P s') :
    ∀ (es : List ε) {s t : σ}, (∀ e ∈ es, Q e) → P s → M.runFrom s es = some t → P t
  | [], _, _, _, hs, h => by
    cases h
    exact hs
  | e :: es, _, _, hq, hs, h => by
    obtain ⟨s', hse, hrest⟩ := step_of_runFrom_cons h
    exact runFrom_induction hstep es (fun e' he' => hq e' (List.mem_cons_of_mem _ he'))
      (hstep _ _ _ (hq e List.mem_cons_self) hs hse) hrest

/-- Moving the thread `t` to `a` changes the number of threads at places that
    satisfy `P` by what it changes at `t`. -/
theorem card_filter_update {T ρ : Type*} [Fintype T] [DecidableEq T] (f : T → ρ) (t : T) (a : ρ)
    (P : ρ → Prop) [DecidablePred P] :
    (Finset.univ.filter fun u => P (Function.update f t a u)).card + (if P (f t) then 1 else 0) =
      (Finset.univ.filter fun u => P (f u)).card + (if P a then 1 else 0) := by
  -- both sides count the threads other than `t` the same way
  have hsplit : ∀ g : T → ρ, (Finset.univ.filter fun u => P (g u)).card =
      (∑ u ∈ Finset.univ.erase t, if P (g u) then 1 else 0) + if P (g t) then 1 else 0 := fun g => by
    rw [Finset.card_filter, ← Finset.sum_erase_add _ _ (Finset.mem_univ t)]
  have hrest : (∑ u ∈ Finset.univ.erase t, if P (Function.update f t a u) then 1 else 0) =
      ∑ u ∈ Finset.univ.erase t, if P (f u) then 1 else 0 :=
    Finset.sum_congr rfl fun u hu => by rw [Function.update_of_ne (Finset.ne_of_mem_erase hu)]
  rw [hsplit, hsplit f, hrest, Function.update_self, Nat.add_right_comm]

end Machine
