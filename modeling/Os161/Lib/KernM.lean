import Mathlib

/-!
# Computations that can fail, raise an error or change a state

Kernel code in C changes its state as it goes, returns an error number that
leaves those changes in place, and may stop the machine (a panic or a failed
assertion). `KernM σ ε α` is that kind of computation on a state `σ`: it
returns a value or an error `ε`, with the state after it, or `none` for a stop.

The rules proved here are the ones the models use to read such code:

* `bind_eq_some_iff`: the outcomes of a sequence, from those of its parts;
* `Triple P m Q E`: from a state satisfying `P`, each outcome of `m` satisfies
  `Q` (a value) or `E` (an error), and its rules (`Triple.bind` for a
  sequence, `Triple.ite`, `Triple.mono` for consequence, `Triple.result` for
  the exit paths of C code).
-/

namespace Os161

/-- A computation on the state `σ` returning `α` or an error `ε`, with the
    state after it on both paths, or `none` when it stops the machine. -/
def KernM (σ ε α : Type) : Type := σ → Option (Except ε α × σ)

namespace KernM

variable {σ ε α β : Type}

/-- Return a value, leaving the state as it is. -/
protected def pure (a : α) : KernM σ ε α := fun s => some (.ok a, s)

/-- Run `m`, then `f` on its value; an error or a stop of `m` ends the run. -/
protected def bind (m : KernM σ ε α) (f : α → KernM σ ε β) : KernM σ ε β := fun s =>
  match m s with
  | none => none
  | some (.error e, s') => some (.error e, s')
  | some (.ok a, s') => f a s'

instance : Monad (KernM σ ε) where
  pure := KernM.pure
  bind := KernM.bind

/-- Read the state. -/
def get : KernM σ ε σ := fun s => some (.ok s, s)

/-- Replace the state. -/
def set (s : σ) : KernM σ ε Unit := fun _ => some (.ok (), s)

/-- Change the state. -/
def modify (f : σ → σ) : KernM σ ε Unit := fun s => some (.ok (), f s)

/-- Return the error `e`, keeping the state. -/
def throw (e : ε) : KernM σ ε α := fun s => some (.error e, s)

/-- Stop the machine: a panic or a failed assertion. -/
def fail : KernM σ ε α := fun _ => none


/-- `KASSERT(c)`. -/
def kassert (c : Prop) [Decidable c] : KernM σ ε Unit := if c then pure () else fail

/-- `for (i = a; i < a + n; i++) body`, threading the value `b` the rounds
    change (the C locals the loop assigns). -/
def forLoop (body : Nat → β → KernM σ ε β) : Nat → Nat → β → KernM σ ε β
  | _, 0, b => pure b
  | i, n + 1, b => body i b >>= forLoop body (i + 1) n

/-- Run `m` and hand back its outcome, a value or an error, as a value (the
    `goto out` of C code that must run its exit path after an error); a stop
    still stops. -/
def result (m : KernM σ ε α) : KernM σ ε (Except ε α) := fun s =>
  (m s).map fun r => (.ok r.1, r.2)

/-- Run a computation on the first part of a pair of states. -/
def onFst {τ : Type} (m : KernM σ ε α) : KernM (σ × τ) ε α := fun st =>
  (m st.1).map fun r => (r.1, (r.2, st.2))

@[simp] theorem pure_apply (a : α) (s : σ) : (pure a : KernM σ ε α) s = some (.ok a, s) := rfl

@[simp] theorem get_apply (s : σ) : (get : KernM σ ε σ) s = some (.ok s, s) := rfl

@[simp] theorem set_apply (s s' : σ) : (set s' : KernM σ ε Unit) s = some (.ok (), s') := rfl

@[simp] theorem modify_apply (f : σ → σ) (s : σ) :
    (modify f : KernM σ ε Unit) s = some (.ok (), f s) := rfl

@[simp] theorem throw_apply (e : ε) (s : σ) : (throw e : KernM σ ε α) s = some (.error e, s) := rfl

@[simp] theorem fail_apply (s : σ) : (fail : KernM σ ε α) s = none := rfl

theorem bind_apply (m : KernM σ ε α) (f : α → KernM σ ε β) (s : σ) :
    (m >>= f) s = match m s with
      | none => none
      | some (.error e, s') => some (.error e, s')
      | some (.ok a, s') => f a s' := rfl

theorem bind_of_ok {m : KernM σ ε α} {s s' : σ} {a : α} (h : m s = some (.ok a, s'))
    (f : α → KernM σ ε β) : (m >>= f) s = f a s' := by
  rw [bind_apply, h]

theorem bind_of_error {m : KernM σ ε α} {s s' : σ} {e : ε} (h : m s = some (.error e, s'))
    (f : α → KernM σ ε β) : (m >>= f) s = some (.error e, s') := by
  rw [bind_apply, h]

theorem bind_of_none {m : KernM σ ε α} {s : σ} (h : m s = none) (f : α → KernM σ ε β) :
    (m >>= f) s = none := by
  rw [bind_apply, h]

/-! The first steps of a sequence that always succeed, for running straight-line
code forward with `simp`. -/

@[simp] theorem get_bind (f : σ → KernM σ ε β) (s : σ) : (get >>= f) s = f s s := rfl

@[simp] theorem pure_bind (a : α) (f : α → KernM σ ε β) : (pure a >>= f) = f a := rfl

@[simp] theorem set_bind (s' : σ) (f : Unit → KernM σ ε β) (s : σ) :
    (set s' >>= f) s = f () s' := rfl

@[simp] theorem modify_bind (g : σ → σ) (f : Unit → KernM σ ε β) (s : σ) :
    (modify g >>= f) s = f () (g s) := rfl

@[simp] theorem throw_bind (e : ε) (f : α → KernM σ ε β) (s : σ) :
    (throw e >>= f) s = some (.error e, s) := rfl

@[simp] theorem fail_bind (f : α → KernM σ ε β) (s : σ) : (fail >>= f) s = none := rfl

@[simp] theorem bind_assoc (m : KernM σ ε α) (f : α → KernM σ ε β) {γ : Type}
    (g : β → KernM σ ε γ) : m >>= f >>= g = m >>= fun a => f a >>= g := by
  funext s
  show KernM.bind (KernM.bind m f) g s = KernM.bind m (fun a => KernM.bind (f a) g) s
  unfold KernM.bind
  rcases m s with _ | ⟨_ | _, _⟩ <;> rfl

@[simp] theorem forLoop_zero (body : Nat → β → KernM σ ε β) (i : Nat) (b : β) :
    forLoop body i 0 b = pure b := rfl

theorem forLoop_succ (body : Nat → β → KernM σ ε β) (i n : Nat) (b : β) :
    forLoop body i (n + 1) b = body i b >>= forLoop body (i + 1) n := rfl

theorem kassert_of {c : Prop} {_ : Decidable c} (h : c) : (kassert c : KernM σ ε Unit) = pure () :=
  if_pos h

theorem onFst_of_ok {τ : Type} {m : KernM σ ε α} {s s' : σ} {a : α} (h : m s = some (.ok a, s'))
    (t : τ) : onFst m (s, t) = some (.ok a, (s', t)) := by
  simp [onFst, h]

theorem onFst_of_error {τ : Type} {m : KernM σ ε α} {s s' : σ} {e : ε}
    (h : m s = some (.error e, s')) (t : τ) : onFst m (s, t) = some (.error e, (s', t)) := by
  simp [onFst, h]

theorem result_of_ok {m : KernM σ ε α} {s s' : σ} {a : α} (h : m s = some (.ok a, s')) :
    result m s = some (.ok (.ok a), s') := by
  simp [result, h]

theorem result_of_error {m : KernM σ ε α} {s s' : σ} {e : ε} (h : m s = some (.error e, s')) :
    result m s = some (.ok (.error e), s') := by
  simp [result, h]

/-- The outcomes of a sequence: an error of its first part, or the outcome of
    its second part after a value of the first. -/
theorem bind_eq_some_iff {m : KernM σ ε α} {f : α → KernM σ ε β} {s : σ}
    {r : Except ε β × σ} :
    (m >>= f) s = some r ↔
      (∃ e s', m s = some (.error e, s') ∧ r = (.error e, s')) ∨
        ∃ a s', m s = some (.ok a, s') ∧ f a s' = some r := by
  rw [bind_apply]
  rcases m s with _ | ⟨e | a, s'⟩
  · simp
  · -- an error of `m` ends the sequence
    dsimp only
    refine ⟨fun h => .inl ⟨e, s', rfl, (Option.some.inj h).symm⟩, ?_⟩
    rintro (⟨e', s'', h, rfl⟩ | ⟨a, s'', h, -⟩)
    · cases h
      rfl
    · cases h
  · dsimp only
    refine ⟨fun h => .inr ⟨a, s', rfl, h⟩, ?_⟩
    rintro (⟨e', s'', h, -⟩ | ⟨a', s'', h, hf⟩)
    · cases h
    · cases h
      exact hf

/-! ## Runs that return

`Returns m s Q`: from the state `s`, `m` returns, with a value that satisfies
`Q` together with the state after it. Its rules run code forward, one step
at a time; a loop returns when each of its rounds does. -/

/-- From the state `s`, `m` returns a value; it and the state after it
    satisfy `Q`. -/
def Returns (m : KernM σ ε α) (s : σ) (Q : α → σ → Prop) : Prop :=
  ∃ a s', m s = some (.ok a, s') ∧ Q a s'

namespace Returns

variable {Q Q' : α → σ → Prop} {s : σ}

theorem of_eq {m : KernM σ ε α} {a : α} {s' : σ} (h : m s = some (.ok a, s')) (hQ : Q a s') :
    Returns m s Q :=
  ⟨a, s', h, hQ⟩

theorem mono {m : KernM σ ε α} (h : Returns m s Q) (hQ : ∀ a s', Q a s' → Q' a s') : Returns m s Q' := by
  obtain ⟨a, s', hm, hq⟩ := h
  exact ⟨a, s', hm, hQ a s' hq⟩

@[simp] theorem pure_iff {a : α} : Returns (pure a : KernM σ ε α) s Q ↔ Q a s :=
  ⟨fun ⟨_, _, h, hq⟩ => by cases h; exact hq, fun h => ⟨a, s, rfl, h⟩⟩

@[simp] theorem modify_iff {f : σ → σ} {Q : Unit → σ → Prop} :
    Returns (modify f : KernM σ ε Unit) s Q ↔ Q () (f s) :=
  ⟨fun ⟨_, _, h, hq⟩ => by cases h; exact hq, fun h => ⟨(), f s, rfl, h⟩⟩

@[simp] theorem set_iff {s' : σ} {Q : Unit → σ → Prop} : Returns (set s' : KernM σ ε Unit) s Q ↔ Q () s' :=
  ⟨fun ⟨_, _, h, hq⟩ => by cases h; exact hq, fun h => ⟨(), s', rfl, h⟩⟩

/-- The rule of sequence. -/
protected theorem bind {m : KernM σ ε α} {f : α → KernM σ ε β} {R : α → σ → Prop} {Q : β → σ → Prop}
    (h : Returns m s R) (hf : ∀ a s', R a s' → Returns (f a) s' Q) : Returns (m >>= f) s Q := by
  obtain ⟨a, s', hm, hr⟩ := h
  obtain ⟨b, s'', hfa, hq⟩ := hf a s' hr
  exact ⟨b, s'', by rw [KernM.bind_of_ok hm, hfa], hq⟩

/-- A first step whose run is known. -/
theorem bind_of_ok {m : KernM σ ε α} {f : α → KernM σ ε β} {Q : β → σ → Prop} {a : α} {s' : σ}
    (h : m s = some (.ok a, s')) : Returns (m >>= f) s Q ↔ Returns (f a) s' Q := by
  unfold Returns
  rw [KernM.bind_of_ok h]

@[simp] theorem get_bind {f : σ → KernM σ ε β} {Q : β → σ → Prop} :
    Returns (get >>= f) s Q ↔ Returns (f s) s Q := Iff.rfl

@[simp] theorem set_bind {s' : σ} {f : Unit → KernM σ ε β} {Q : β → σ → Prop} :
    Returns (set s' >>= f) s Q ↔ Returns (f ()) s' Q := Iff.rfl

@[simp] theorem modify_bind {g : σ → σ} {f : Unit → KernM σ ε β} {Q : β → σ → Prop} :
    Returns (modify g >>= f) s Q ↔ Returns (f ()) (g s) Q := Iff.rfl

theorem kassert_bind {c : Prop} {_ : Decidable c} (hc : c) {f : Unit → KernM σ ε β} {Q : β → σ → Prop} :
    Returns (kassert c >>= f) s Q ↔ Returns (f ()) s Q := by
  rw [kassert_of hc]
  rfl

/-! The rules below take a `do` block apart where it stands: a rewrite inside
a long block makes the kernel check its join points again at every step. -/

/-- A `have`, as a `do` block's join points are: its value put in. -/
theorem have_intro {v : β} {b : β → KernM σ ε α} (h : Returns (b v) s Q) :
    Returns (have x := v; b x) s Q := h

theorem ite_pos {c : Prop} [Decidable c] {t e : KernM σ ε α} (hc : c) (h : Returns t s Q) :
    Returns (if c then t else e) s Q := by
  rwa [if_pos hc]

theorem ite_neg {c : Prop} [Decidable c] {t e : KernM σ ε α} (hc : ¬c) (h : Returns e s Q) :
    Returns (if c then t else e) s Q := by
  rwa [if_neg hc]

/-- The rule of loops: an invariant `I i` of the value and the state before
    round `i`, which each round returns with for `i + 1`. -/
protected theorem forLoop {body : Nat → β → KernM σ ε β} {I : Nat → β → σ → Prop} :
    ∀ {a n : Nat}, (∀ i b s, a ≤ i → i < a + n → I i b s → Returns (body i b) s (I (i + 1))) →
    ∀ b s, I a b s → Returns (forLoop body a n b) s (I (a + n))
  | a, 0, _, b, s, hI => ⟨b, s, rfl, hI⟩
  | a, n + 1, hbody, b, s, hI => by
    rw [forLoop_succ, show a + (n + 1) = a + 1 + n by omega]
    exact Returns.bind (hbody a b s (Nat.le_refl a) (by omega) hI) fun b' s' hI' =>
      Returns.forLoop (a := a + 1) (fun i b s hi hi' => hbody i b s (by omega) (by omega)) b' s' hI'

end Returns

/-! ## Pre- and postconditions -/

/-- What an outcome of a computation satisfies: `Q` of its value or `E` of its
    error, each with the state after it. -/
def Outcome (Q : α → σ → Prop) (E : ε → σ → Prop) : Except ε α × σ → Prop
  | (.ok a, s) => Q a s
  | (.error e, s) => E e s

@[simp] theorem outcome_ok {Q : α → σ → Prop} {E : ε → σ → Prop} (a : α) (s : σ) :
    Outcome Q E (.ok a, s) = Q a s := rfl

@[simp] theorem outcome_error {Q : α → σ → Prop} {E : ε → σ → Prop} (e : ε) (s : σ) :
    Outcome Q E (.error e, s) = E e s := rfl

/-- From every state satisfying `P`, every outcome of `m` that does not stop the
    machine satisfies `Q` (a value) or `E` (an error). Nothing is said of runs
    that stop: a panic is outside what the code promises. -/
def Triple (P : σ → Prop) (m : KernM σ ε α) (Q : α → σ → Prop) (E : ε → σ → Prop) : Prop :=
  ∀ s, P s → ∀ r, m s = some r → Outcome Q E r

namespace Triple

variable {P P' : σ → Prop} {Q Q' : α → σ → Prop} {E E' : ε → σ → Prop}

protected theorem pure {a : α} (h : ∀ s, P s → Q a s) : Triple P (pure a) Q E := by
  rintro s hs r ⟨⟩
  exact h s hs

protected theorem get {Q : σ → σ → Prop} (h : ∀ s, P s → Q s s) : Triple P get Q E := by
  rintro s hs r ⟨⟩
  exact h s hs

protected theorem set {Q : Unit → σ → Prop} {s' : σ} (h : ∀ s, P s → Q () s') :
    Triple P (set s') Q E := by
  rintro s hs r ⟨⟩
  exact h s hs

protected theorem modify {Q : Unit → σ → Prop} {f : σ → σ} (h : ∀ s, P s → Q () (f s)) :
    Triple P (modify f) Q E := by
  rintro s hs r ⟨⟩
  exact h s hs

protected theorem throw {e : ε} (h : ∀ s, P s → E e s) : Triple P (throw e) Q E := by
  rintro s hs r ⟨⟩
  exact h s hs

protected theorem fail : Triple P (fail : KernM σ ε α) Q E := by
  rintro s - r ⟨⟩

/-- The rule of sequence: what the first part leads to, for its value, is what
    the second part starts from. -/
protected theorem bind {R : α → σ → Prop} {f : α → KernM σ ε β} {Q : β → σ → Prop}
    {m : KernM σ ε α} (hm : Triple P m R E) (hf : ∀ a, Triple (R a) (f a) Q E) :
    Triple P (m >>= f) Q E := by
  intro s hs r h
  rcases bind_eq_some_iff.1 h with ⟨e, s', hms, rfl⟩ | ⟨a, s', hms, hfa⟩
  · exact hm s hs _ hms
  · exact hf a s' (hm s hs _ hms) r hfa

protected theorem ite {c : Prop} [Decidable c] {m m' : KernM σ ε α} (h : c → Triple P m Q E)
    (h' : ¬ c → Triple P m' Q E) : Triple P (if c then m else m') Q E := by
  split
  · exact h ‹_›
  · exact h' ‹_›

/-- The rule of consequence. -/
theorem mono {m : KernM σ ε α} (h : Triple P m Q E) (hP : ∀ s, P' s → P s)
    (hQ : ∀ a s, Q a s → Q' a s) (hE : ∀ e s, E e s → E' e s) : Triple P' m Q' E' := by
  intro s hs r hm
  have := h s (hP s hs) r hm
  rcases r with ⟨a | a, s'⟩
  · exact hE _ _ this
  · exact hQ _ _ this

protected theorem kassert {c : Prop} [Decidable c] {Q : Unit → σ → Prop} (h : ∀ s, P s → c → Q () s) :
    Triple P (kassert c) Q E := by
  unfold kassert
  exact Triple.ite (fun hc => Triple.pure fun s hs => h s hs hc) fun _ => Triple.fail

/-- `result` hands the outcome of `m` on as a value. -/
protected theorem result {m : KernM σ ε α} {Q' : Except ε α → σ → Prop} (h : Triple P m Q E)
    (hQ : ∀ a s, Q a s → Q' (.ok a) s) (hE : ∀ e s, E e s → Q' (.error e) s) :
    Triple P (result m) Q' E' := by
  intro s hs r hm
  simp only [KernM.result, Option.map_eq_some_iff] at hm
  obtain ⟨⟨o, s'⟩, hms, rfl⟩ := hm
  have := h s hs _ hms
  rcases o with e | a
  · exact hE _ _ this
  · exact hQ _ _ this

/-- A computation on the first part of a pair of states leaves the second. -/
protected theorem onFst {τ : Type} {m : KernM σ ε α} {P : σ × τ → Prop} {Q : α → σ × τ → Prop}
    {E : ε → σ × τ → Prop} {P₁ : σ → Prop} {Q₁ : α → σ → Prop} {E₁ : ε → σ → Prop}
    (h : Triple P₁ m Q₁ E₁) (hP : ∀ st, P st → P₁ st.1)
    (hQ : ∀ st a s, P st → Q₁ a s → Q a (s, st.2)) (hE : ∀ st e s, P st → E₁ e s → E e (s, st.2)) :
    Triple P (onFst m) Q E := by
  intro st hst r hm
  simp only [KernM.onFst, Option.map_eq_some_iff] at hm
  obtain ⟨⟨o, s'⟩, hms, rfl⟩ := hm
  have := h st.1 (hP st hst) _ hms
  rcases o with e | a
  · exact hE st _ _ hst this
  · exact hQ st _ _ hst this

/-- The rule of loops: an invariant `I i` of the value and the state before
    round `i` that each round carries to `I (i + 1)`. -/
protected theorem forLoop {body : Nat → β → KernM σ ε β} {I : Nat → β → σ → Prop} :
    ∀ {a n : Nat}, (∀ i, a ≤ i → i < a + n → ∀ b, Triple (I i b) (body i b) (I (i + 1)) E) →
    ∀ b, Triple (I a b) (forLoop body a n b) (I (a + n)) E
  | a, 0, _, b => Triple.pure fun _ hs => hs
  | a, n + 1, hbody, b => by
    rw [forLoop_succ, show a + (n + 1) = a + 1 + n by omega]
    exact Triple.bind (hbody a (Nat.le_refl a) (by omega) b) fun b' =>
      Triple.forLoop (a := a + 1) (fun i hi hi' => hbody i (by omega) (by omega)) b'

/-- A triple may be proved from each state on its own. -/
theorem of_forall {m : KernM σ ε α} (h : ∀ s₀, P s₀ → Triple (· = s₀) m Q E) : Triple P m Q E := by
  intro s hs r hm
  exact h s hs s rfl r hm

/-- A computation whose run from `s` is known. -/
theorem of_apply {m : KernM σ ε α} {s₀ : σ} {r : Except ε α × σ} (h : m s₀ = some r)
    (hr : Outcome Q E r) : Triple (· = s₀) m Q E := by
  rintro s rfl r' hm
  rw [h] at hm
  cases hm
  exact hr

end Triple

end KernM

end Os161
