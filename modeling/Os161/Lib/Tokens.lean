import Mathlib

/-!
# Words of a list

`words seps l` are the maximal runs of elements of `l` outside `seps`, in
order: `l` split at every separator (`List.splitOnP`), with the empty pieces
left out. It is what a tokenizer that skips runs of separators returns.

* `words_sep_append`: separators before the first word change nothing;
* `words_append_cons`: a run with no separator, followed by a separator, is the
  first word, and the words after it are those of the rest;
* `words_eq_nil_iff`: there is no word exactly when every element is a
  separator;
* `words_cons_of_not_mem`: from an element that is not a separator, the first
  word is the longest run of such elements;
* `length_words_le`: there are no more words than elements.
-/

namespace Tokens

variable {α : Type*} [DecidableEq α] {seps : List α}

/-- The maximal runs of elements of `l` outside `seps`, in order. -/
def words (seps : List α) (l : List α) : List (List α) :=
  (l.splitOnP fun a => decide (a ∈ seps)).filter fun w => !w.isEmpty

@[simp] theorem words_nil : words seps [] = [] := by
  simp [words]

theorem words_cons_sep {a : α} (ha : a ∈ seps) (l : List α) :
    words seps (a :: l) = words seps l := by
  simp [words, List.splitOnP_cons_eq_if_modifyHead, ha]

theorem words_sep_append {s : List α} (hs : ∀ a ∈ s, a ∈ seps) (l : List α) :
    words seps (s ++ l) = words seps l := by
  induction s with
  | nil => rfl
  | cons a s ih =>
    rw [List.cons_append, words_cons_sep (hs a List.mem_cons_self)]
    exact ih fun b hb => hs b (List.mem_cons_of_mem _ hb)

theorem words_of_forall_mem {l : List α} (h : ∀ a ∈ l, a ∈ seps) : words seps l = [] := by
  simpa using words_sep_append h []

theorem words_append_cons {w : List α} (hw : w ≠ []) (h : ∀ a ∈ w, a ∉ seps) {c : α}
    (hc : c ∈ seps) (l : List α) : words seps (w ++ c :: l) = w :: words seps l := by
  have hsplit := List.splitOnP_append_cons_of_forall_mem (p := fun a => decide (a ∈ seps))
    (by simpa using h) c (by simpa using hc) l
  simp [words, hsplit, hw]

theorem words_of_forall_not_mem {w : List α} (hw : w ≠ []) (h : ∀ a ∈ w, a ∉ seps) :
    words seps w = [w] := by
  have hsplit : w.splitOnP (fun a => decide (a ∈ seps)) = [w] :=
    List.splitOnP_eq_singleton (by simpa using h)
  simp [words, hsplit, hw]

/-- From an element that is not a separator, the first word runs up to the
    next separator, and the rest are the words after that separator. -/
theorem words_cons_of_not_mem {a : α} (ha : a ∉ seps) (l : List α) :
    words seps (a :: l) =
      (a :: l).takeWhile (· ∉ seps) :: words seps ((a :: l).dropWhile (· ∉ seps)).tail := by
  have hw : (a :: l).takeWhile (· ∉ seps) ≠ [] := by
    rw [List.takeWhile_cons, if_pos (decide_eq_true ha)]
    exact List.cons_ne_nil _ _
  have hnot : ∀ b ∈ (a :: l).takeWhile (· ∉ seps), b ∉ seps := fun b hb =>
    of_decide_eq_true (List.mem_takeWhile_imp (p := (· ∉ seps)) hb)
  conv => lhs; rw [← List.takeWhile_append_dropWhile (l := a :: l) (p := (· ∉ seps))]
  cases hd : (a :: l).dropWhile (· ∉ seps) with
  | nil => rw [List.append_nil, words_of_forall_not_mem hw hnot, List.tail_nil, words_nil]
  | cons c r =>
    -- the run stops at `c`, so `c` is a separator
    have hc : c ∈ seps := by
      have := List.head?_dropWhile_not (· ∉ seps) (a :: l)
      rw [hd] at this
      simpa using this
    rw [words_append_cons hw hnot hc, List.tail_cons]

theorem words_eq_nil_iff {l : List α} : words seps l = [] ↔ ∀ a ∈ l, a ∈ seps := by
  refine ⟨fun h => ?_, words_of_forall_mem⟩
  induction l with
  | nil => simp
  | cons a l ih =>
    by_cases ha : a ∈ seps
    · rw [words_cons_sep ha] at h
      simpa [ha] using ih h
    · rw [words_cons_of_not_mem ha] at h
      exact absurd h (List.cons_ne_nil _ _)

theorem length_words_le (l : List α) : (words seps l).length ≤ l.length := by
  -- on a bound of the length: the words after the first are those of a
  -- suffix, not of the tail
  suffices h : ∀ n, ∀ l : List α, l.length ≤ n → (words seps l).length ≤ l.length from
    h _ l le_rfl
  intro n
  induction n with
  | zero => intro l hl; simp [List.eq_nil_of_length_eq_zero (Nat.le_zero.1 hl)]
  | succ n ih =>
    intro l hl
    cases l with
    | nil => simp
    | cons a l =>
      rw [List.length_cons] at hl ⊢
      by_cases ha : a ∈ seps
      · rw [words_cons_sep ha]
        exact Nat.le_succ_of_le (ih l (by omega))
      · have hle : ((a :: l).dropWhile (· ∉ seps)).tail.length ≤ l.length := by
          rw [List.dropWhile_cons, if_pos (decide_eq_true ha), List.length_tail]
          have := List.length_dropWhile_le (· ∉ seps) l
          omega
        rw [words_cons_of_not_mem ha, List.length_cons]
        exact Nat.succ_le_succ ((ih _ (by omega)).trans hle)

end Tokens
