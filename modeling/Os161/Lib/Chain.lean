import Mathlib

/-!
# Singly linked chains

Cells `ρ` with one link each, `next : ρ → Option ρ`, a null link being `none`.
`Chain next h l` says that following the links from `h` visits the cells of
`l` in order and then reaches null. A chain is determined by where it starts
(`Chain.unique`), so it never visits a cell twice (`Chain.nodup`), and it reads
only the links of its own cells (`chain_congr`).

Two loops over such a list are stated once here, as C writes them:

* `walk`: `for (p = h; p != NULL; p = p->next)` with a test at each cell,
  which fails an assertion, ends the loop at the cell, or goes on. Along a
  chain it finds the first cell that passes the test (`walk_eq_find`).
* `unlink`: the pointer-to-pointer loop
  `for (guy = &h; *guy; guy = &(*guy)->next) if (*guy == x) { *guy = x->next; break; }`,
  over a store `σ` of links read by `get` and written by `set`. It rewrites
  the one link that pointed at `x` (`unlink_eq`), and the chain then skips `x`
  (`chain_unlink`).

Both loops take a fuel argument: the C loops have no bound, and run forever on
a cyclic list. Along a chain, fuel of its length is enough.
-/

namespace SList

variable {ρ : Type*}

/-- Following `next` from `h` visits the cells of `l` in order, and reaches
    null after the last one. -/
def Chain (next : ρ → Option ρ) : Option ρ → List ρ → Prop
  | h, [] => h = none
  | h, a :: l => h = some a ∧ Chain next (next a) l

section Chain

variable {next next' : ρ → Option ρ} {h : Option ρ} {a x : ρ} {l l' l₁ l₂ : List ρ}

@[simp] theorem chain_nil : Chain next h [] ↔ h = none := Iff.rfl

@[simp] theorem chain_cons : Chain next h (a :: l) ↔ h = some a ∧ Chain next (next a) l := Iff.rfl

theorem chain_none_iff : Chain next none l ↔ l = [] := by
  cases l <;> simp

/-- A chain starts at its first cell. -/
theorem Chain.head_eq (hc : Chain next h l) : h = l.head? := by
  cases l with
  | nil => exact hc
  | cons a l => exact hc.1

/-- Where a chain starts determines it. -/
theorem Chain.unique (hc : Chain next h l) (hc' : Chain next h l') : l = l' := by
  induction l generalizing h l' with
  | nil =>
    rw [chain_nil] at hc
    subst hc
    exact (chain_none_iff.1 hc').symm
  | cons a l ih =>
    obtain ⟨rfl, hl⟩ := hc
    cases l' with
    | nil => simp at hc'
    | cons b l' =>
      obtain ⟨hab, hl'⟩ := hc'
      obtain rfl := Option.some_inj.1 hab
      rw [ih hl hl']

/-- The part of a chain from one of its cells on is a chain from that cell. -/
theorem Chain.of_append (hc : Chain next h (l₁ ++ a :: l₂)) : Chain next (some a) (a :: l₂) := by
  induction l₁ generalizing h with
  | nil => exact ⟨rfl, hc.2⟩
  | cons b l₁ ih => exact ih hc.2

/-- A chain visits each cell once: from a cell seen twice it would go round
    for ever. -/
theorem Chain.nodup (hc : Chain next h l) : l.Nodup := by
  induction l generalizing h with
  | nil => exact List.nodup_nil
  | cons a l ih =>
    obtain ⟨rfl, hl⟩ := hc
    refine List.nodup_cons.2 ⟨fun ha => ?_, ih hl⟩
    obtain ⟨l₁, l₂, rfl⟩ := List.append_of_mem ha
    -- from `a` the chain is both `a :: l₁ ++ a :: l₂` and `a :: l₂`
    have hlong : Chain next (some a) (a :: (l₁ ++ a :: l₂)) := ⟨rfl, hl⟩
    have hlen := congrArg List.length (hlong.unique hl.of_append)
    simp at hlen
    omega

/-- A chain reads only the links of its own cells. -/
theorem chain_congr (hn : ∀ y ∈ l, next' y = next y) : Chain next' h l ↔ Chain next h l := by
  induction l generalizing h with
  | nil => exact Iff.rfl
  | cons a l ih =>
    rw [chain_cons, chain_cons, hn a (by simp), ih fun y hy => hn y (List.mem_cons_of_mem a hy)]

theorem chain_update_of_notMem [DecidableEq ρ] {v : Option ρ} (hx : x ∉ l) :
    Chain (Function.update next x v) h l ↔ Chain next h l :=
  chain_congr fun _ hy => Function.update_of_ne (by rintro rfl; exact hx hy) _ _

/-- Pushing a cell at the front: its link set to the old head. -/
theorem Chain.push [DecidableEq ρ] (hc : Chain next h l) (hx : x ∉ l) :
    Chain (Function.update next x h) (some x) (x :: l) := by
  rw [chain_cons, Function.update_self, chain_update_of_notMem hx]
  exact ⟨rfl, hc⟩

/-- Taking the cell after `p` out of a chain: `p` links to where that cell
    linked. -/
theorem Chain.bypass [DecidableEq ρ] {p : ρ} (hc : Chain next h (l₁ ++ p :: x :: l₂))
    (hnd : (l₁ ++ p :: x :: l₂).Nodup) :
    Chain (Function.update next p (next x)) h (l₁ ++ p :: l₂) := by
  induction l₁ generalizing h with
  | nil =>
    simp only [List.nil_append, chain_cons] at hc
    obtain ⟨rfl, -, hl₂⟩ := hc
    have hp : p ∉ l₂ := fun hp => (List.nodup_cons.1 hnd).1 (by simp [hp])
    simp only [List.nil_append, chain_cons, Function.update_self, true_and]
    exact (chain_update_of_notMem hp).2 hl₂
  | cons b l₁ ih =>
    obtain ⟨rfl, hl⟩ := hc
    have hb : b ≠ p := fun he => (List.nodup_cons.1 hnd).1 (by simp [he])
    refine ⟨rfl, ?_⟩
    rw [Function.update_of_ne hb]
    exact ih hl (List.nodup_cons.1 hnd).2

/-- Fuel of a chain's length. -/
theorem Chain.length_le_card [Fintype ρ] (hc : Chain next h l) : l.length ≤ Fintype.card ρ :=
  hc.nodup.length_le_card

end Chain

/-! ## Walking a list -/

/-- `for (p = h; p != NULL; p = p->next)` with at most `n` turns, where the
    test at each cell fails an assertion (`none`), ends the loop at the cell
    (`some true`), or goes on (`some false`): the cell the loop ended at, or
    `none` (null) when it ran off the end; `none` outside when an assertion
    failed or the fuel ran out. -/
def walk (next : ρ → Option ρ) (test : ρ → Option Bool) : ℕ → Option ρ → Option (Option ρ)
  | _, none => some none
  | 0, some _ => none
  | n + 1, some a =>
    match test a with
    | none => none
    | some true => some (some a)
    | some false => walk next test n (next a)

/-- Along a chain whose cells all pass the assertions, the walk finds the
    first cell that ends it. -/
theorem walk_eq_find {next : ρ → Option ρ} {test : ρ → Option Bool} {h : Option ρ} {l : List ρ}
    {n : ℕ} (hc : Chain next h l) (hn : l.length ≤ n) (ht : ∀ a ∈ l, test a ≠ none) :
    walk next test n h = some (l.find? fun a => test a == some true) := by
  induction l generalizing h n with
  | nil =>
    rw [chain_nil] at hc
    subst hc
    cases n <;> rfl
  | cons a l ih =>
    obtain ⟨rfl, hl⟩ := hc
    obtain ⟨n, rfl⟩ : ∃ m, n = m + 1 := ⟨n - 1, by simp at hn; omega⟩
    -- the test at `a` passes its assertion; it ends the walk there or not
    rcases hta : test a with _ | _ | _
    · exact absurd hta (ht a (by simp))
    · rw [walk, hta, ih hl (by simp at hn; omega) fun b hb => ht b (by simp [hb]), List.find?_cons, hta]
      rfl
    · rw [walk, hta, List.find?_cons, hta]
      rfl

/-! ## Unlinking a cell -/

/-- Where the pointer-to-pointer `guy` of `unlink` points: at the list's head,
    or at the link of a cell. -/
inductive Loc (ρ : Type*)
  | head
  | link (a : ρ)

variable {σ : Type*} (get : σ → ρ → Option ρ) (set : σ → ρ → Option ρ → σ)

/-- `*guy`, in a list with head `h` and links `s`. -/
def Loc.read (h : Option ρ) (s : σ) : Loc ρ → Option ρ
  | .head => h
  | .link a => get s a

/-- `*guy = v`: the head and the links afterwards. -/
def Loc.write (h : Option ρ) (s : σ) (v : Option ρ) : Loc ρ → Option ρ × σ
  | .head => (v, s)
  | .link a => (h, set s a v)

/-- `for (; *guy; guy = &(*guy)->next) if (*guy == x) { *guy = x->next; break; }`
    from `guy`, with at most `n` more turns: the head and the links afterwards;
    `none` when the fuel runs out. -/
def unlink [DecidableEq ρ] (x : ρ) : ℕ → Loc ρ → Option ρ → σ → Option (Option ρ × σ)
  | n, guy, h, s =>
    match guy.read get h s with
    | none => some (h, s)
    | some a =>
      if a = x then some (guy.write set h s (get s x))
      else
        match n with
        | 0 => none
        | n + 1 => unlink x n (.link a) h s

variable {get set} [DecidableEq ρ]

/-- Along a chain through `x`, `unlink` rewrites the link that pointed at `x`:
    the head when `x` came first, otherwise the link of the cell before it. -/
theorem unlink_eq {x : ρ} {h : Option ρ} {s : σ} {l₁ l₂ : List ρ} {n : ℕ} :
    ∀ {guy : Loc ρ}, Chain (get s) (guy.read get h s) (l₁ ++ x :: l₂) → x ∉ l₁ → l₁.length ≤ n →
      unlink get set x n guy h s =
        some (((l₁.getLast?.map Loc.link).getD guy).write set h s (get s x)) := by
  -- induction on the cells before `x`, the location moving to each one's link
  induction l₁ generalizing n with
  | nil =>
    intro guy hc _ _
    rw [unlink, hc.1]
    dsimp only
    rw [if_pos rfl]
    rfl
  | cons a l₁ ih =>
    intro guy hc hx hn
    obtain ⟨n, rfl⟩ : ∃ m, n = m + 1 := ⟨n - 1, by simp at hn; omega⟩
    have hax : a ≠ x := fun he => hx (by simp [he])
    have hrest := @ih n (.link a) hc.2 (fun hm => hx (List.mem_cons_of_mem a hm))
      (by simp at hn; omega)
    rw [unlink, hc.1]
    dsimp only
    rw [if_neg hax, hrest]
    cases l₁ with
    | nil => rfl
    | cons b l₁ =>
      -- the last cell is the same, counted from `a` or from `b`
      simp only [List.getLast?_cons, Option.map_some, Option.getD_some]

/-- After `unlink`, with `set` writing one link as `Function.update` does, the
    list is the chain without `x`. -/
theorem chain_unlink (hset : ∀ s a v, get (set s a v) = Function.update (get s) a v)
    {x : ρ} {h : Option ρ} {s : σ} {l₁ l₂ : List ρ} (hc : Chain (get s) h (l₁ ++ x :: l₂))
    (hnd : (l₁ ++ x :: l₂).Nodup) :
    let r := ((l₁.getLast?.map Loc.link).getD .head).write set h s (get s x)
    Chain (get r.2) r.1 (l₁ ++ l₂) := by
  -- `x` first: the head moves on; otherwise the cell before `x` bypasses it
  rcases List.eq_nil_or_concat' l₁ with rfl | ⟨l₀, p, rfl⟩
  · exact hc.2
  · simp only [List.getLast?_concat, Option.map_some, Option.getD_some, Loc.write, hset]
    rw [List.append_assoc, List.singleton_append] at hc hnd ⊢
    exact hc.bypass hnd

omit [DecidableEq ρ] in
/-- The one write of `unlink` along a chain through `x`: the head, when `x`
    came first, or the link of a cell before `x`. -/
theorem write_last_eq (l₁ : List ρ) (h : Option ρ) (s : σ) (v : Option ρ) :
    ((l₁.getLast?.map Loc.link).getD .head).write set h s v = (v, s) ∨
      ∃ a ∈ l₁, ((l₁.getLast?.map Loc.link).getD .head).write set h s v = (h, set s a v) := by
  cases hl : l₁.getLast? with
  | none => exact Or.inl rfl
  | some a => exact Or.inr ⟨a, List.mem_of_getLast? hl, rfl⟩

end SList
