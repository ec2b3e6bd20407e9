import Mathlib

/-!
# Runs of a machine, and forward simulation

A machine with a partial step `step : σ → ω → Option (ρ × σ)`: from a state,
an operation gives an answer and the next state, or `none` where the
operation is not allowed (a precondition the caller breaks, or an assertion
that fails). `run` applies a list of operations in turn and collects the
answers.

A relation `R` between the states of a concrete machine and those of an
abstract one is a *forward simulation* (`Simulates`) when every step the
abstract machine takes from a state related to a concrete one is matched by a
concrete step with the same answer, to related states. Then every run of the
abstract machine is matched (`run_of_simulates`): the concrete machine gives
the same answers, is never stuck where the abstract one goes on, and ends
related to where the abstract one ends.

Where the abstract machine is a relational spec, with a precondition `pre` on
each operation and answers it may choose among (an allocation that may fail),
`Refines` asks that each operation whose precondition holds takes a concrete
step that the spec allows. `run_of_refines` lifts it to whole runs: a run
either goes through as a run of the spec (`SpecRun`) or stops where an
operation's precondition fails, having kept to the spec until then.
`RefinesUnder` adds an assumption on the concrete state that the spec does
not see, such as memory left to allocate (`run_of_refinesUnder`).
-/

namespace Simulation

variable {σ γ α ω ρ : Type*}

/-- The answers and the final state of the operations `os` from `s`; `none`
    as soon as one of them is not allowed. -/
def run (step : σ → ω → Option (ρ × σ)) : σ → List ω → Option (List ρ × σ)
  | s, [] => some ([], s)
  | s, o :: os =>
    match step s o with
    | none => none
    | some (r, s') => (run step s' os).map fun (rs, t) => (r :: rs, t)

section Run

variable {step : σ → ω → Option (ρ × σ)} {s t : σ} {o : ω} {os : List ω} {rs : List ρ}

@[simp] theorem run_nil (step : σ → ω → Option (ρ × σ)) (s : σ) : run step s [] = some ([], s) := rfl

theorem run_cons_of_step {r : ρ} {s' : σ} (h : step s o = some (r, s')) :
    run step s (o :: os) = (run step s' os).map fun (rs, t) => (r :: rs, t) := by
  rw [run, h]

/-- A run of `o :: os` is a step of `o`, then a run of `os`. -/
theorem run_cons_eq_some :
    run step s (o :: os) = some (rs, t) ↔
      ∃ r s' rs', step s o = some (r, s') ∧ run step s' os = some (rs', t) ∧ rs = r :: rs' := by
  constructor
  · intro h
    rcases hs : step s o with _ | ⟨r, s'⟩
    · rw [run, hs] at h
      cases h
    · rw [run_cons_of_step hs, Option.map_eq_some_iff] at h
      obtain ⟨⟨rs', t'⟩, hrun, heq⟩ := h
      rw [Prod.mk.injEq] at heq
      obtain ⟨rfl, rfl⟩ := heq
      exact ⟨r, s', rs', rfl, hrun, rfl⟩
  · rintro ⟨r, s', rs', hs, hrun, rfl⟩
    rw [run_cons_of_step hs, hrun]
    rfl

end Run

/-- Every abstract step from a state `R`-related to a concrete one is matched
    by a concrete step with the same answer, to `R`-related states. -/
def Simulates (R : γ → α → Prop) (cstep : γ → ω → Option (ρ × γ)) (astep : α → ω → Option (ρ × α)) :
    Prop :=
  ∀ ⦃c a o r a'⦄, R c a → astep a o = some (r, a') → ∃ c', cstep c o = some (r, c') ∧ R c' a'

section Simulation

variable {R : γ → α → Prop} {cstep : γ → ω → Option (ρ × γ)} {astep : α → ω → Option (ρ × α)}

/-- A simulation matches whole runs: from related states, the concrete machine
    runs every list of operations the abstract one runs, with the same answers,
    to related states. -/
theorem run_of_simulates (hsim : Simulates R cstep astep) {os : List ω} :
    ∀ {c : γ} {a a' : α} {rs : List ρ}, R c a → run astep a os = some (rs, a') →
      ∃ c', run cstep c os = some (rs, c') ∧ R c' a' := by
  -- induction on the operations, the simulation carried from step to step
  induction os with
  | nil =>
    intro c a a' rs hR hrun
    rw [run_nil, Option.some_inj, Prod.mk.injEq] at hrun
    obtain ⟨rfl, rfl⟩ := hrun
    exact ⟨c, rfl, hR⟩
  | cons o os ih =>
    intro c a a' rs hR hrun
    obtain ⟨r, a₁, rs', hstep, hrest, rfl⟩ := run_cons_eq_some.1 hrun
    obtain ⟨c₁, hcstep, hR₁⟩ := hsim hR hstep
    obtain ⟨c', hcrun, hR'⟩ := ih hR₁ hrest
    exact ⟨c', run_cons_eq_some.2 ⟨r, c₁, rs', hcstep, hcrun, rfl⟩, hR'⟩

end Simulation

/-- The runs of a relational spec: each operation applied where its
    precondition holds, with an answer and a next state the spec allows. -/
inductive SpecRun (pre : α → ω → Prop) (spec : α → ω → ρ → α → Prop) : α → List ω → List ρ → α → Prop
  | nil (a : α) : SpecRun pre spec a [] [] a
  | cons {a a₁ a' : α} {o : ω} {os : List ω} {r : ρ} {rs : List ρ} :
      pre a o → spec a o r a₁ → SpecRun pre spec a₁ os rs a' → SpecRun pre spec a (o :: os) (r :: rs) a'

/-- From `R`-related states, each operation whose precondition holds takes a
    concrete step with an answer and a next state the spec allows, to
    `R`-related states. -/
def Refines (R : γ → α → Prop) (cstep : γ → ω → Option (ρ × γ)) (pre : α → ω → Prop)
    (spec : α → ω → ρ → α → Prop) : Prop :=
  ∀ ⦃c a o⦄, R c a → pre a o → ∃ r c', cstep c o = some (r, c') ∧ ∃ a', spec a o r a' ∧ R c' a'

/-- As `Refines`, where each step also needs `env`, an assumption on the
    concrete state that the spec does not see (memory left to allocate). -/
def RefinesUnder (R : γ → α → Prop) (cstep : γ → ω → Option (ρ × γ)) (env : γ → ω → Prop)
    (pre : α → ω → Prop) (spec : α → ω → ρ → α → Prop) : Prop :=
  ∀ ⦃c a o⦄, R c a → env c o → pre a o → ∃ r c', cstep c o = some (r, c') ∧ ∃ a', spec a o r a' ∧ R c' a'

/-- A refinement under an environment runs every list of operations as the
    spec does: the concrete run goes through, as a run the spec allows, or it
    keeps to the spec as far as an operation whose environment or
    precondition fails. -/
theorem run_of_refinesUnder {R : γ → α → Prop} {cstep : γ → ω → Option (ρ × γ)} {env : γ → ω → Prop}
    {pre : α → ω → Prop} {spec : α → ω → ρ → α → Prop} (href : RefinesUnder R cstep env pre spec)
    (os : List ω) :
    ∀ {c : γ} {a : α}, R c a →
      (∃ rs c' a', run cstep c os = some (rs, c') ∧ SpecRun pre spec a os rs a' ∧ R c' a') ∨
      (∃ os₁ o os₂ rs₁ c₁ a₁, os = os₁ ++ o :: os₂ ∧ run cstep c os₁ = some (rs₁, c₁) ∧
        SpecRun pre spec a os₁ rs₁ a₁ ∧ R c₁ a₁ ∧ ¬ (env c₁ o ∧ pre a₁ o)) := by
  -- induction on the operations; at each one, its assumptions hold or the run stops
  induction os with
  | nil => exact fun hR => .inl ⟨[], _, _, rfl, .nil _, hR⟩
  | cons o os ih =>
    intro c a hR
    by_cases hok : env c o ∧ pre a o
    · obtain ⟨r, c₁, hc, a₁, hs, hR₁⟩ := href hR hok.1 hok.2
      rcases ih hR₁ with ⟨rs, c', a', hrun, hspec, hR'⟩ | ⟨os₁, o', os₂, rs₁, c₂, a₂, rfl, hrun, hspec, hR₂, hnot⟩
      · exact .inl ⟨r :: rs, c', a', run_cons_eq_some.2 ⟨r, c₁, rs, hc, hrun, rfl⟩, .cons hok.2 hs hspec, hR'⟩
      · exact .inr ⟨o :: os₁, o', os₂, r :: rs₁, c₂, a₂, rfl,
          run_cons_eq_some.2 ⟨r, c₁, rs₁, hc, hrun, rfl⟩, .cons hok.2 hs hspec, hR₂, hnot⟩
    · exact .inr ⟨[], o, os, [], c, a, rfl, rfl, .nil _, hR, hok⟩

/-- A refinement runs every list of operations as the spec does: the concrete
    run goes through, as a run the spec allows, or it keeps to the spec as far
    as an operation whose precondition fails. -/
theorem run_of_refines {R : γ → α → Prop} {cstep : γ → ω → Option (ρ × γ)} {pre : α → ω → Prop}
    {spec : α → ω → ρ → α → Prop} (href : Refines R cstep pre spec) (os : List ω) :
    ∀ {c : γ} {a : α}, R c a →
      (∃ rs c' a', run cstep c os = some (rs, c') ∧ SpecRun pre spec a os rs a' ∧ R c' a') ∨
      (∃ os₁ o os₂ rs₁ c₁ a₁, os = os₁ ++ o :: os₂ ∧ run cstep c os₁ = some (rs₁, c₁) ∧
        SpecRun pre spec a os₁ rs₁ a₁ ∧ R c₁ a₁ ∧ ¬ pre a₁ o) := by
  -- a refinement is one under the environment that always holds
  intro c a hR
  have href' : RefinesUnder R cstep (fun _ _ => True) pre spec := fun _ _ _ hR _ hpre => href hR hpre
  rcases run_of_refinesUnder href' os hR with
    hrun | ⟨os₁, o, os₂, rs₁, c₁, a₁, hos, hrun, hspec, hR₁, hnot⟩
  · exact .inl hrun
  · exact .inr ⟨os₁, o, os₂, rs₁, c₁, a₁, hos, hrun, hspec, hR₁, fun hpre => hnot ⟨trivial, hpre⟩⟩

end Simulation
