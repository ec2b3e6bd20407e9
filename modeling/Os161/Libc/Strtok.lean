import Os161.Lib.Tokens

/-!
# `strtok_r`

common/libc/string/strtok_r.c splits a string, in place, into its words: the
maximal runs of characters that are not in `seps`. Each call skips the
separators at `*context`, returns the word after them, writes a NUL over the
separator that ends it, and leaves `*context` just past that NUL (or `NULL`
when the word ends the string).

The string lies in a buffer of characters (`List Char`) that holds its NUL;
pointers are offsets into it and `NULL` is `none`. A read past the buffer is
undefined behaviour, and the model gives `none` for it.

* `strtokR_of_seps`, `strtokR_of_word`: what one call computes, from the
  separators and the word at `*context`;
* `Pending`: the words still to come from a context, `Tokens.words` of the
  string it points to;
* `strtokR_next`: a call returns the first of them, with the string of that
  word NUL-terminated in place, and leaves the rest pending; it writes one
  byte at most, inside the string (`Frame`), and reads nothing past its NUL.
-/

namespace Os161.Libc

/-- `strchr(s, ch)` for a string literal `s` (its characters, without the
    NUL): the index of the first `ch`, or of the NUL when `ch` is `0`. -/
def strchr : List Char → Char → Option Nat
  | [], ch => if ch = '\x00' then some 0 else none
  | c :: s, ch => if c = ch then some 0 else (strchr s ch).map (· + 1)

theorem strchr_isSome {s : List Char} {ch : Char} (hch : ch ≠ '\x00') :
    (strchr s ch).isSome = decide (ch ∈ s) := by
  induction s with
  | nil => simp [strchr, hch]
  | cons c s ih =>
    by_cases h : c = ch
    · simp [strchr, h]
    · simp [strchr, h, ih, Ne.symm h]

/-- The C string at the start of `bytes`: the characters before its NUL, or
    `none` when the NUL is not there to be read. -/
def cstr : List Char → Option (List Char)
  | [] => none
  | c :: bytes => if c = '\x00' then some [] else (cstr bytes).map (c :: ·)

theorem cstr_append {s : List Char} (h0 : '\x00' ∉ s) (more : List Char) :
    cstr (s ++ '\x00' :: more) = some s := by
  induction s with
  | nil => simp [cstr]
  | cons c s ih =>
    have hc : c ≠ '\x00' := fun h => h0 (h ▸ List.mem_cons_self)
    simp [cstr, hc, ih fun h => h0 (List.mem_cons_of_mem _ h)]

theorem cstr_eq_some {l s : List Char} (h : cstr l = some s) :
    '\x00' ∉ s ∧ ∃ more, l = s ++ '\x00' :: more := by
  induction l generalizing s with
  | nil => simp [cstr] at h
  | cons c l ih =>
    unfold cstr at h
    split at h
    · next hc =>
      cases h
      exact ⟨List.not_mem_nil, l, by rw [hc, List.nil_append]⟩
    · next hc =>
      obtain ⟨s', hs', rfl⟩ := Option.map_eq_some_iff.1 h
      obtain ⟨h0, more, rfl⟩ := ih hs'
      exact ⟨by simp [h0, Ne.symm hc], more, rfl⟩

/-- A C string is read from its own bytes and its NUL only. -/
theorem cstr_congr {l l' s : List Char} (h : cstr l = some s)
    (h' : ∀ i ≤ s.length, l'[i]? = l[i]?) : cstr l' = some s := by
  induction s generalizing l l' with
  | nil =>
    obtain ⟨-, more, rfl⟩ := cstr_eq_some h
    cases l' with
    | nil => simpa using h' 0 le_rfl
    | cons c l' =>
      have hc : c = '\x00' := by simpa using h' 0 le_rfl
      simp [cstr, hc]
  | cons c s ih =>
    obtain ⟨h0, more, rfl⟩ := cstr_eq_some h
    have hc0 : c ≠ '\x00' := fun hc => h0 (hc ▸ List.mem_cons_self)
    have hs0 : '\x00' ∉ s := fun hs => h0 (List.mem_cons_of_mem _ hs)
    cases l' with
    | nil => simpa using h' 0 (Nat.zero_le _)
    | cons c' l' =>
      have hc : c' = c := by simpa using h' 0 (Nat.zero_le _)
      subst hc
      -- the rest of the string, one position further on
      have hrest := @ih _ l' (cstr_append hs0 more)
        fun i hi => by simpa using h' (i + 1) (by simp; omega)
      simp [cstr, hc0, hrest]

/-- `while (*p && test(*p)) p++;` with `p` at the start of `bytes`: where the
    loop stops, or `none` if it reads past the buffer. -/
def scan (test : Char → Bool) : List Char → Nat → Option Nat
  | [], _ => none
  | c :: bytes, p => if c ≠ '\x00' ∧ test c then scan test bytes (p + 1) else some p

/-- The loop passes over characters that are not NUL and pass the test. -/
theorem scan_skip {test : Char → Bool} {s : List Char} (h : ∀ c ∈ s, c ≠ '\x00' ∧ test c = true)
    (l : List Char) (p : Nat) : scan test (s ++ l) p = scan test l (p + s.length) := by
  induction s generalizing p with
  | nil => rfl
  | cons c s ih =>
    rw [List.cons_append, scan, if_pos (h c List.mem_cons_self),
      ih (fun c' hc' => h c' (List.mem_cons_of_mem _ hc')), List.length_cons]
    congr 1
    omega

/-- The loop stops at a NUL or at a character that fails the test. -/
theorem scan_stop {test : Char → Bool} {c : Char} (h : ¬ (c ≠ '\x00' ∧ test c = true))
    (l : List Char) (p : Nat) : scan test (c :: l) p = some p := by
  rw [scan, if_neg h]

/-- `strtok_r(string, seps, context)` on the buffer `buf`, with `context` the
    value of `*context`: the buffer after the call, the new `*context`, and the
    word returned. -/
def strtokR (buf : List Char) (string : Option Nat) (seps : List Char) (context : Option Nat) :
    Option (List Char × Option Nat × Option Nat) :=
  -- `if (string) *context = string;`
  match string.or context with
  | none => some (buf, none, none)
  | some head => do
    -- skip any leading separators
    let head ← scan (fun c => (strchr seps c).isSome) (buf.drop head) head
    let c ← buf[head]?
    if c = '\x00' then
      -- nothing left
      pure (buf, none, none)
    else
      -- skip over the word
      let tail ← scan (fun c => (strchr seps c).isNone) (buf.drop head) head
      let t ← buf[tail]?
      if t = '\x00' then pure (buf, none, some head)
      else pure (buf.set tail '\x00', some (tail + 1), some head)

/-- A call with a string starts from that string, whatever `*context` was. -/
theorem strtokR_or (buf : List Char) (string : Option Nat) (seps : List Char)
    (context : Option Nat) :
    strtokR buf string seps context = strtokR buf none seps (string.or context) := by
  cases string <;> rfl

section Call

variable {seps buf : List Char} {p : Nat}

/-- The byte a pointer reads is the first of the buffer from there on. -/
theorem getElem?_of_drop {n : Nat} {c : Char} {l : List Char} (h : buf.drop n = c :: l) :
    buf[n]? = some c := by
  rw [← Nat.add_zero n, ← List.getElem?_drop, h, List.getElem?_cons_zero]

/-- Only separators before the NUL: the call returns `NULL`. -/
theorem strtokR_of_seps (hseps : '\x00' ∉ seps) {s more : List Char}
    (hbuf : buf.drop p = s ++ '\x00' :: more) (hs : ∀ c ∈ s, c ∈ seps) :
    strtokR buf none seps (some p) = some (buf, none, none) := by
  have hskip : ∀ c ∈ s, c ≠ '\x00' ∧ (strchr seps c).isSome = true := fun c hc =>
    have hc0 : c ≠ '\x00' := fun h => hseps (h ▸ hs c hc)
    ⟨hc0, by rw [strchr_isSome hc0, decide_eq_true (hs c hc)]⟩
  have hhead : scan (fun c => (strchr seps c).isSome) (buf.drop p) p = some (p + s.length) := by
    rw [hbuf, scan_skip hskip, scan_stop (by simp)]
  have hnul : buf[p + s.length]? = some '\x00' :=
    getElem?_of_drop (by rw [← List.drop_drop, hbuf, List.drop_left])
  simp only [strtokR, Option.or, hhead, hnul, Option.bind_eq_bind, Option.bind_some, Option.pure_def,
    if_pos]

/-- Separators `s`, then a word `w`, then the separator or the NUL after it:
    the call returns the word, writes a NUL at its end (a NUL already, when
    the word ends the string) and points `*context` past it, or sets it to
    `NULL` when the word ends the string. -/
theorem strtokR_of_word (hseps : '\x00' ∉ seps) {s w u more : List Char}
    (hbuf : buf.drop p = s ++ w ++ u ++ '\x00' :: more) (hs : ∀ c ∈ s, c ∈ seps) (hw : w ≠ [])
    (hw0 : ∀ c ∈ w, c ≠ '\x00' ∧ c ∉ seps) (hu : ∀ c u', u = c :: u' → c ≠ '\x00' ∧ c ∈ seps) :
    strtokR buf none seps (some p) =
      some (buf.set (p + s.length + w.length) '\x00',
        (if u = [] then none else some (p + s.length + w.length + 1)), some (p + s.length)) := by
  have hsome : ∀ c, c ≠ '\x00' → (strchr seps c).isSome = decide (c ∈ seps) := fun _ hc =>
    strchr_isSome hc
  obtain ⟨x, w', rfl⟩ := List.exists_cons_of_ne_nil hw
  have hx := hw0 x List.mem_cons_self
  have hword : buf.drop (p + s.length) = (x :: w') ++ u ++ '\x00' :: more := by
    rw [← List.drop_drop, hbuf, List.append_assoc, List.append_assoc, List.drop_left,
      List.append_assoc]
  -- the scan over the separators stops at the word
  have hhead : scan (fun c => (strchr seps c).isSome) (buf.drop p) p = some (p + s.length) := by
    rw [hbuf, List.append_assoc, List.append_assoc, scan_skip (fun c hc => ⟨fun h => hseps (h ▸ hs c hc),
      by rw [hsome c fun h => hseps (h ▸ hs c hc), decide_eq_true (hs c hc)]⟩),
      List.cons_append, scan_stop (by simp [hsome x hx.1, hx.2])]
  -- the scan over the word stops at the separator after it, or at the NUL
  have htail : scan (fun c => (strchr seps c).isNone) (buf.drop (p + s.length)) (p + s.length) =
      some (p + s.length + (x :: w').length) := by
    rw [hword, List.append_assoc, scan_skip (fun c hc => ⟨(hw0 c hc).1,
      by rw [← Option.not_isSome, hsome c (hw0 c hc).1, decide_eq_false (hw0 c hc).2]; rfl⟩)]
    cases u with
    | nil => exact scan_stop (by simp) _ _
    | cons c u' =>
      have hc := hu c u' rfl
      exact scan_stop (by rw [← Option.not_isSome, hsome c hc.1, decide_eq_true hc.2]; simp) _ _
  have hend : buf.drop (p + s.length + (x :: w').length) = u ++ '\x00' :: more := by
    rw [← List.drop_drop, hword, List.append_assoc, List.drop_left]
  simp only [strtokR, Option.or, hhead, getElem?_of_drop hword, Option.bind_eq_bind, Option.bind_some,
    Option.pure_def, if_neg hx.1, htail]
  cases u with
  | nil =>
    -- the word ends the string: the NUL is already there
    have hnul := getElem?_of_drop hend
    obtain ⟨hlt, hget⟩ := List.getElem?_eq_some_iff.1 hnul
    rw [hnul, Option.bind_some, if_pos rfl, if_pos rfl]
    conv => rhs; rw [← hget, List.set_getElem_self]
  | cons c u' =>
    have hc := hu c u' rfl
    rw [getElem?_of_drop hend, Option.bind_some, if_neg hc.1, if_neg (List.cons_ne_nil _ _)]

end Call

/-- `buf'` is `buf` with at most the bytes in `[lo, hi]` changed. -/
def Frame (buf buf' : List Char) (lo hi : Nat) : Prop :=
  ∀ i, i < lo ∨ hi < i → buf'[i]? = buf[i]?

namespace Frame

variable {buf buf₁ buf₂ : List Char} {lo hi : Nat}

theorem refl (buf : List Char) (lo hi : Nat) : Frame buf buf lo hi := fun _ _ => rfl

theorem trans (h₁ : Frame buf buf₁ lo hi) (h₂ : Frame buf₁ buf₂ lo' hi) (hlo : lo ≤ lo') :
    Frame buf buf₂ lo hi := fun i hi' => (h₂ i (by omega)).trans (h₁ i hi')

theorem set {t : Nat} (hlo : lo ≤ t) (hhi : t ≤ hi) (c : Char) : Frame buf (buf.set t c) lo hi :=
  fun _ hi' => List.getElem?_set_ne (by omega)

/-- A string outside the bytes that changed reads the same. -/
theorem cstr_eq (hf : Frame buf buf' lo hi) {a : Nat} {s : List Char}
    (h : cstr (buf.drop a) = some s) (hs : a + s.length < lo ∨ hi < a) :
    cstr (buf'.drop a) = some s :=
  cstr_congr h fun i _ => by rw [List.getElem?_drop, List.getElem?_drop]; exact hf _ (by omega)

end Frame

/-- A NUL written over the character that ends a string `w`. -/
theorem cstr_set_length {w : List Char} (h0 : '\x00' ∉ w) (c : Char) (l : List Char) :
    cstr ((w ++ c :: l).set w.length '\x00') = some w := by
  rw [List.set_append_right _ _ le_rfl, Nat.sub_self, List.set_cons_zero, cstr_append h0]

/-- The words still to come from `*context`: `*context` points to a string
    whose NUL is at `e` and whose words are `ws`, or it is `NULL` and no word
    is left. -/
def Pending (seps buf : List Char) : Option Nat → Nat → List (List Char) → Prop
  | none, _, ws => ws = []
  | some q, e, ws => ∃ rest, cstr (buf.drop q) = some rest ∧ q + rest.length = e ∧
      Tokens.words seps rest = ws

/-- A change of bytes before the string leaves its words to come. -/
theorem Pending.frame {seps buf buf' : List Char} {q e lo hi : Nat} {ws : List (List Char)}
    (hP : Pending seps buf (some q) e ws) (hf : Frame buf buf' lo hi) (hq : hi < q) :
    Pending seps buf' (some q) e ws := by
  obtain ⟨rest, hrest, he, hws⟩ := hP
  exact ⟨rest, hf.cstr_eq hrest (.inr hq), he, hws⟩

/-- One call of `strtok_r` on a context with words `ws` to come. With none,
    it returns `NULL` and changes nothing. Otherwise it returns a pointer `h`
    to the first word `w`, NUL-terminated in place by the one byte it writes,
    at `h + |w|`, inside the string; the new context is `NULL` or points just
    past that byte, and has the other words to come. -/
theorem strtokR_next {seps buf : List Char} {context : Option Nat} {e : Nat} {ws : List (List Char)}
    (hseps : '\x00' ∉ seps) (hP : Pending seps buf context e ws) :
    (ws = [] ∧ strtokR buf none seps context = some (buf, none, none)) ∨
    ∃ w ws' h context', ws = w :: ws' ∧
      strtokR buf none seps context = some (buf.set (h + w.length) '\x00', context', some h) ∧
      (∀ q, context = some q → q ≤ h) ∧ h + w.length ≤ e ∧
      cstr ((buf.set (h + w.length) '\x00').drop h) = some w ∧
      (∀ q, context' = some q → q = h + w.length + 1) ∧
      Pending seps (buf.set (h + w.length) '\x00') context' e ws' := by
  cases context with
  | none => exact .inl ⟨hP, rfl⟩
  | some p =>
  obtain ⟨rest, hrest, he, rfl⟩ := hP
  obtain ⟨h0, more, hbuf⟩ := cstr_eq_some hrest
  -- the separators that lead the string, and what follows them
  obtain ⟨s, r, hsr, hs, hr⟩ : ∃ s r, rest = s ++ r ∧ (∀ c ∈ s, c ∈ seps) ∧
      r = rest.dropWhile (· ∈ seps) :=
    ⟨_, _, List.takeWhile_append_dropWhile.symm,
      fun c hc => of_decide_eq_true (List.mem_takeWhile_imp (p := (· ∈ seps)) hc), rfl⟩
  have hwords : Tokens.words seps rest = Tokens.words seps r := by
    rw [hsr, Tokens.words_sep_append hs]
  cases hr0 : r with
  | nil =>
    rw [hr0, List.append_nil] at hsr
    subst hsr
    rw [hr0] at hwords
    exact .inl ⟨hwords.trans Tokens.words_nil, strtokR_of_seps hseps hbuf hs⟩
  | cons x r' =>
  have hx : x ∉ seps := by
    have := List.head?_dropWhile_not (· ∈ seps) rest
    rw [← hr, hr0] at this
    simpa using this
  have hr0' : '\x00' ∉ r := fun h => h0 (hsr ▸ List.mem_append_right _ h)
  -- the word, and the separator or NUL after it
  obtain ⟨w, u, hwu, hw, hwsep, hu⟩ : ∃ w u, r = w ++ u ∧ w = r.takeWhile (· ∉ seps) ∧
      (∀ c ∈ w, c ∉ seps) ∧ u = r.dropWhile (· ∉ seps) :=
    ⟨_, _, List.takeWhile_append_dropWhile.symm, rfl,
      fun c hc => of_decide_eq_true (List.mem_takeWhile_imp (p := (· ∉ seps)) hc), rfl⟩
  have hwne : w ≠ [] := by
    rw [hw, hr0, List.takeWhile_cons, if_pos (decide_eq_true hx)]
    exact List.cons_ne_nil _ _
  have hu0 : ∀ c u', u = c :: u' → c ≠ '\x00' ∧ c ∈ seps := fun c u' hcu => by
    have hsep := List.head?_dropWhile_not (· ∉ seps) r
    rw [← hu, hcu] at hsep
    exact ⟨fun h => hr0' (by rw [hwu, hcu, h]; simp), by simpa using hsep⟩
  have hw0 : ∀ c ∈ w, c ≠ '\x00' ∧ c ∉ seps := fun c hc =>
    ⟨fun h => hr0' (hwu ▸ h ▸ List.mem_append_left _ hc), hwsep c hc⟩
  have hbuf' : buf.drop p = s ++ w ++ u ++ '\x00' :: more := by
    rw [hbuf, hsr, hwu]
    simp only [List.append_assoc]
  have hlen : rest.length = s.length + w.length + u.length := by
    rw [hsr, hwu, List.length_append, List.length_append, Nat.add_assoc]
  -- the words: `w`, then those after the separator that ends it
  have hws : Tokens.words seps rest = w :: Tokens.words seps u.tail := by
    rw [hwords, hr0, Tokens.words_cons_of_not_mem hx, ← hr0, hw, hu]
  have hword : buf.drop (p + s.length) = w ++ u ++ '\x00' :: more := by
    rw [← List.drop_drop, hbuf', List.append_assoc, List.append_assoc, List.drop_left,
      List.append_assoc]
  refine .inr ⟨w, _, p + s.length, _, hws, strtokR_of_word hseps hbuf' hs hwne hw0 hu0,
    fun q hq => by cases hq; omega, by omega, ?_, ?_, ?_⟩
  · -- the word reads as a string once the NUL is written
    rw [List.drop_set, if_neg (by omega), hword, Nat.add_sub_cancel_left, List.append_assoc]
    cases u with
    | nil => exact cstr_set_length (fun h => (hw0 _ h).1 rfl) '\x00' more
    | cons c u' => exact cstr_set_length (fun h => (hw0 _ h).1 rfl) c _
  · intro q hq
    split at hq
    · cases hq
    · cases hq; rfl
  · cases u with
    | nil => rfl
    | cons c u' =>
      -- the rest of the string starts past the written NUL
      refine ⟨u', ?_, ?_, rfl⟩
      · rw [List.drop_set_of_lt (by omega), show p + s.length + w.length + 1 =
            p + s.length + (w.length + 1) by omega, ← List.drop_drop, ← List.drop_drop, hword,
          List.append_assoc, List.drop_left, List.cons_append, List.drop_one, List.tail_cons]
        exact cstr_append (fun h => hr0' (by rw [hwu]; simp [h])) more
      · rw [← he, hlen, List.length_cons]
        omega


end Os161.Libc
