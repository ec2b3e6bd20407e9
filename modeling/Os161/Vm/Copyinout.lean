import Mathlib
import Os161.Basic

/-!
# Copying between user and kernel memory

kern/vm/copyinout.c moves bytes between the kernel and a user address.
`copycheck` first checks the user region `[p, p + len)` in 32-bit arithmetic;
`copyin` and `copyout` then copy it with `memcpy`, and `copyinstr` and
`copyoutstr` copy a NUL-terminated string with the loop of `copystr`. A fault
on user memory resumes in `copyfail`, and the call returns `EFAULT`.

`vaddr_t` and `size_t` are `UInt32`. User memory is a `UserMem`: its bytes, and
where a load or a store faults. The kernel side of a copy is a buffer
`Nat → UInt8`, which does not fault.

* `copycheck_eq_error_iff`, `copycheck_ok`: the region is refused exactly when
  the 32-bit `p + len - 1` falls below `p` (`Wraps`, which includes `len = 0`
  with `p > 0`) or `p` is not a user address; otherwise `stoplen` stops the
  copy at `USERSPACETOP`;
* `copyin_eq_ok_iff`, `copyout_eq_ok_iff`: a block copy succeeds exactly when
  `0 < len`, `p + len ≤ USERSPACETOP` and no byte of `[p, p + len)` faults,
  and touches no other byte;
* `copystr_of_loads`: without faults, `copystr` returns the length up to the
  first NUL within `min maxlen stoplen` bytes, else `EFAULT` when `stoplen`
  cut the copy short and `ENAMETOOLONG` when `maxlen` did;
* `copyinstr_of_readable`, `copyoutstr_of_writable`, `copyinstr_congr`,
  `copyoutstr_sameOutside`: the string copies refuse a bad region before any
  access, and otherwise touch only the user bytes `p + i` with
  `i < min len (USERSPACETOP - p)`;
* `copy_user_bounds`: all of it, for the four copy functions;
* `copystr_empty_buffer_efault`: a string copy with an empty buffer returns
  `EFAULT` at every address but `0`, where it returns `ENAMETOOLONG`: the
  wrap test of `copycheck` takes `top = p - 1` for a wrap, though the region
  is empty and lies in user space.
-/

namespace Os161.Copyinout

/-- `USERSPACETOP` as a `vaddr_t`. -/
def userspacetop32 : UInt32 := UInt32.ofNat userspacetop

/-- `copycheck(userptr, len, &stoplen)`: `EFAULT`, or `stoplen`, the length
    that may be copied, below `len` when the region runs into the kernel. -/
def copycheck (userptr len : UInt32) : Except Errno UInt32 :=
  let bot := userptr
  let top := bot + len - 1
  -- the addresses wrapped around
  if top < bot then .error .efault
  -- the region is within the kernel
  else if bot ≥ userspacetop32 then .error .efault
  -- the region overlaps the kernel: the length is cut
  else if top ≥ userspacetop32 then .ok (userspacetop32 - bot)
  else .ok len

/-- User memory as the kernel reaches it: the byte at each address, and where
    a load or a store faults (an unmapped or a read-only page). -/
structure UserMem where
  bytes : UInt32 → UInt8
  readable : UInt32 → Bool
  writable : UInt32 → Bool

namespace UserMem

/-- A load from user memory; `none` when it faults. -/
def load (um : UserMem) (a : UInt32) : Option UInt8 :=
  if um.readable a then some (um.bytes a) else none

/-- A store to user memory; `none` when it faults. -/
def store (um : UserMem) (a : UInt32) (c : UInt8) : Option UserMem :=
  if um.writable a then some { um with bytes := Function.update um.bytes a c } else none

end UserMem

/-- The `memcpy` of `copyin` from index `i` on: `d[i] = s[i]` for `n` bytes
    from `src + i`, or `none` at the first load that faults. -/
def loadBytes (um : UserMem) (src : UInt32) (i : Nat) : Nat → Option (List UInt8)
  | 0 => some []
  | n + 1 => do
    let c ← um.load (src + UInt32.ofNat i)
    let cs ← loadBytes um src (i + 1) n
    pure (c :: cs)

/-- The `memcpy` of `copyout` from index `i` on: `d[i] = s[i]` for `n` bytes
    to `dst + i`; `false` at the first store that faults, the stores before it
    done. -/
def storeBytes (src : Nat → UInt8) (dst : UInt32) (i : Nat) : Nat → UserMem → Bool × UserMem
  | 0, um => (true, um)
  | n + 1, um =>
    match um.store (dst + UInt32.ofNat i) (src i) with
    | none => (false, um)
    | some um => storeBytes src dst (i + 1) n um

/-- `copyin(usersrc, dest, len)`: the bytes copied into `dest`. -/
def copyin (um : UserMem) (usersrc len : UInt32) : Except Errno (List UInt8) :=
  match copycheck usersrc len with
  | .error e => .error e
  | .ok stoplen =>
    -- a single block cannot be truncated
    if stoplen ≠ len then .error .efault
    else match loadBytes um usersrc 0 len.toNat with
      | none => .error .efault
      | some bs => .ok bs

/-- `copyout(src, userdest, len)`, with user memory after it. -/
def copyout (src : Nat → UInt8) (um : UserMem) (userdest len : UInt32) :
    Except Errno Unit × UserMem :=
  match copycheck userdest len with
  | .error e => (.error e, um)
  | .ok stoplen =>
    if stoplen ≠ len then (.error .efault, um)
    else match storeBytes src userdest 0 len.toNat um with
      | (true, um) => (.ok (), um)
      | (false, um) => (.error .efault, um)

section Copystr

variable {σ : Type} (ld : Nat → Option UInt8) (st : σ → Nat → UInt8 → Option σ)

/-- The loop of `copystr` from index `i`, for at most `fuel` more rounds:
    `dest[i] = src[i]` while `i < maxlen && i < stoplen`, up to a NUL, where
    it returns the length `i + 1`. `ld` reads the source and `st` writes the
    destination; a fault ends the copy with `EFAULT` (`copyfail`). -/
def copystrLoop (maxlen stoplen : Nat) : Nat → Nat → σ → Except Errno (Option Nat) × σ
  | 0, _, s => (.ok none, s)
  | fuel + 1, i, s =>
    if i < maxlen ∧ i < stoplen then
      match ld i with
      | none => (.error .efault, s)
      | some c =>
        match st s i c with
        | none => (.error .efault, s)
        | some s => if c = 0 then (.ok (some (i + 1)), s) else copystrLoop maxlen stoplen fuel (i + 1) s
    else (.ok none, s)

/-- `copystr(dest, src, maxlen, stoplen, &gotlen)`: the length found, else
    `EFAULT` when the copy ran into the end of user space (`stoplen`) and
    `ENAMETOOLONG` when it ran out of room (`maxlen`). The loop has at most
    `maxlen` rounds. -/
def copystr (maxlen stoplen : Nat) (s : σ) : Except Errno Nat × σ :=
  match copystrLoop ld st maxlen stoplen maxlen 0 s with
  | (.ok (some got), s) => (.ok got, s)
  | (.ok none, s) => (if stoplen < maxlen then .error .efault else .error .enametoolong, s)
  | (.error e, s) => (.error e, s)

end Copystr

/-- `copyinstr(usersrc, dest, len, &actual)`: the length copied into `dest`,
    and `dest` after it. -/
def copyinstr (um : UserMem) (usersrc len : UInt32) (dest : Nat → UInt8) :
    Except Errno Nat × (Nat → UInt8) :=
  match copycheck usersrc len with
  | .error e => (.error e, dest)
  | .ok stoplen =>
    copystr (fun i => um.load (usersrc + UInt32.ofNat i)) (fun d i c => some (Function.update d i c))
      len.toNat stoplen.toNat dest

/-- `copyoutstr(src, userdest, len, &actual)`: the length copied, and user
    memory after it. -/
def copyoutstr (src : Nat → UInt8) (um : UserMem) (userdest len : UInt32) :
    Except Errno Nat × UserMem :=
  match copycheck userdest len with
  | .error e => (.error e, um)
  | .ok stoplen =>
    copystr (fun i => some (src i)) (fun um i c => um.store (userdest + UInt32.ofNat i) c)
      len.toNat stoplen.toNat um

/-! ## What the string copies should return -/

/-- The index of the first NUL among `b 0, ..., b (n - 1)`. -/
def firstNul (b : Nat → UInt8) (n : Nat) : Option Nat :=
  (List.range n).find? fun k => decide (b k = 0)

/-- What a string copy of the bytes `b` returns when nothing faults: the
    length up to the first NUL within `n` bytes, else `EFAULT` if the copy was
    `cut` by the end of user space and `ENAMETOOLONG` if by the buffer. -/
def strResult (b : Nat → UInt8) (n : Nat) (cut : Bool) : Except Errno Nat :=
  match firstNul b n with
  | some k => .ok (k + 1)
  | none => .error (if cut then .efault else .enametoolong)

/-- The 32-bit `p + len - 1` falls below `p`. -/
def Wraps (p len : Nat) : Prop := (len = 0 ∧ 0 < p) ∨ 2 ^ 32 < p + len

instance (p len : Nat) : Decidable (Wraps p len) :=
  inferInstanceAs (Decidable ((len = 0 ∧ 0 < p) ∨ 2 ^ 32 < p + len))

/-! ## Addresses -/

theorem add_ofNat (p : UInt32) (j : Nat) : p + UInt32.ofNat j = UInt32.ofNat (p.toNat + j) := by
  rw [UInt32.ofNat_add, UInt32.ofNat_toNat]

theorem toNat_ofNat_of_lt {a : Nat} (h : a < 2 ^ 32) : (UInt32.ofNat a).toNat = a := by
  rw [UInt32.toNat_ofNat', Nat.mod_eq_of_lt h]

theorem toNat_userspacetop32 : userspacetop32.toNat = userspacetop := rfl

theorem userspacetop_lt : userspacetop < 2 ^ 32 := by decide

/-! ## `copycheck` -/

section Copycheck

variable {p len s : UInt32}

theorem toNat_top :
    (p + len - 1).toNat = (2 ^ 32 - 1 + (p.toNat + len.toNat) % 2 ^ 32) % 2 ^ 32 := by
  rw [UInt32.toNat_sub, UInt32.toNat_add, UInt32.toNat_one]

theorem top_lt_bot_iff : p + len - 1 < p ↔ Wraps p.toNat len.toNat := by
  rw [UInt32.lt_iff_toNat_lt, toNat_top, Wraps]
  have := p.toNat_lt
  have := len.toNat_lt
  omega

/-- `copycheck` refuses a region exactly when it wraps or starts in the
    kernel, and then with `EFAULT`. -/
theorem copycheck_eq_error_iff :
    copycheck p len = .error .efault ↔ Wraps p.toNat len.toNat ∨ userspacetop ≤ p.toNat := by
  have hT : p ≥ userspacetop32 ↔ userspacetop ≤ p.toNat := by
    rw [ge_iff_le, UInt32.le_iff_toNat_le, toNat_userspacetop32]
  unfold copycheck
  dsimp only
  split_ifs with h1 h2 h3
  · exact iff_of_true rfl (.inl (top_lt_bot_iff.1 h1))
  · exact iff_of_true rfl (.inr (hT.1 h2))
  · exact iff_of_false nofun (not_or.2 ⟨mt top_lt_bot_iff.2 h1, mt hT.2 h2⟩)
  · exact iff_of_false nofun (not_or.2 ⟨mt top_lt_bot_iff.2 h1, mt hT.2 h2⟩)

theorem copycheck_error {e : Errno} (h : copycheck p len = .error e) : e = .efault := by
  unfold copycheck at h
  dsimp only at h
  split_ifs at h <;> cases h <;> rfl

/-- What `copycheck` returns for a region it accepts: the region starts in
    user space and does not wrap, and `stoplen` is the length of it that lies
    below `USERSPACETOP` (or `USERSPACETOP` itself for an empty region at
    `0`, where `p + len - 1` wraps to the top). -/
theorem copycheck_ok (h : copycheck p len = .ok s) :
    ¬ Wraps p.toNat len.toNat ∧ p.toNat < userspacetop ∧
      (0 < len.toNat → s.toNat = min len.toNat (userspacetop - p.toNat)) ∧
      (len.toNat = 0 → s.toNat = userspacetop) := by
  unfold copycheck at h
  dsimp only at h
  have hT {a : UInt32} : a ≥ userspacetop32 ↔ userspacetop ≤ a.toNat := by
    rw [ge_iff_le, UInt32.le_iff_toNat_le, toNat_userspacetop32]
  have hU := userspacetop_lt
  have hp := p.toNat_lt
  have hl := len.toNat_lt
  split_ifs at h with h1 h2 h3
  · -- the region runs into the kernel: `stoplen = USERSPACETOP - p`
    injection h with h
    subst h
    rw [top_lt_bot_iff] at h1
    rw [hT] at h2
    rw [hT, toNat_top] at h3
    rw [UInt32.toNat_sub, toNat_userspacetop32]
    refine ⟨h1, by omega, fun _ => ?_, fun _ => ?_⟩ <;> unfold Wraps at h1 <;> omega
  · injection h with h
    subst h
    rw [top_lt_bot_iff] at h1
    rw [hT] at h2
    rw [hT, toNat_top] at h3
    refine ⟨h1, by omega, fun _ => ?_, fun _ => ?_⟩ <;> unfold Wraps at h1 <;> omega

theorem copycheck_ok_of (hw : ¬ Wraps p.toNat len.toNat) (hp : p.toNat < userspacetop) :
    ∃ s, copycheck p len = .ok s := by
  rcases hc : copycheck p len with e | s
  · rw [copycheck_error hc, copycheck_eq_error_iff] at hc
    exact absurd hc (not_or.2 ⟨hw, by omega⟩)
  · exact ⟨s, rfl⟩

/-- `copystr` stops at `min len stoplen`, which is `min len (USERSPACETOP - p)`. -/
theorem copycheck_min_stoplen (h : copycheck p len = .ok s) :
    min len.toNat s.toNat = min len.toNat (userspacetop - p.toNat) := by
  obtain ⟨-, -, hpos, hzero⟩ := copycheck_ok h
  rcases Nat.eq_zero_or_pos len.toNat with h0 | h0
  · rw [h0, Nat.zero_min, Nat.zero_min]
  · rw [hpos h0]
    omega

/-- `stoplen < len` exactly when the region runs into the kernel. -/
theorem copycheck_stoplen_lt_iff (h : copycheck p len = .ok s) :
    s.toNat < len.toNat ↔ userspacetop - p.toNat < len.toNat := by
  obtain ⟨-, -, hpos, hzero⟩ := copycheck_ok h
  rcases Nat.eq_zero_or_pos len.toNat with h0 | h0
  · rw [h0]
    omega
  · rw [hpos h0]
    omega

/-- A block copy goes ahead (`stoplen == len`) exactly when the region is not
    empty and ends at or below `USERSPACETOP`. -/
theorem copycheck_stoplen_eq_iff (h : copycheck p len = .ok s) :
    s = len ↔ 0 < len.toNat ∧ p.toNat + len.toNat ≤ userspacetop := by
  obtain ⟨-, hp, hpos, hzero⟩ := copycheck_ok h
  rw [← UInt32.toNat_inj]
  rcases Nat.eq_zero_or_pos len.toNat with h0 | h0
  · rw [hzero h0, h0]
    exact iff_of_false (by decide) fun h => absurd h.1 (Nat.lt_irrefl 0)
  · rw [hpos h0]
    omega

end Copycheck

/-! ## User memory -/

namespace UserMem

variable {um um' um'' : UserMem} {a : UInt32} {c : UInt8} {lo hi : Nat}

theorem load_of_readable (h : um.readable a = true) : um.load a = some (um.bytes a) := if_pos h

theorem store_eq_some_iff :
    um.store a c = some um' ↔
      um.writable a = true ∧ um' = { um with bytes := Function.update um.bytes a c } := by
  unfold store
  split_ifs with h <;> simp [h, eq_comm]

theorem store_isSome_iff : (um.store a c).isSome ↔ um.writable a = true := by
  unfold store
  split_ifs with h <;> simp [h]

/-- `um'` is `um` but for the bytes at the addresses in `[lo, hi)`. -/
structure SameOutside (um um' : UserMem) (lo hi : Nat) : Prop where
  readable : um'.readable = um.readable
  writable : um'.writable = um.writable
  bytes : ∀ a : UInt32, (a.toNat < lo ∨ hi ≤ a.toNat) → um'.bytes a = um.bytes a

theorem SameOutside.refl (um : UserMem) (lo hi : Nat) : SameOutside um um lo hi :=
  ⟨rfl, rfl, fun _ _ => rfl⟩

theorem SameOutside.trans (h₁ : SameOutside um um' lo hi) (h₂ : SameOutside um' um'' lo hi) :
    SameOutside um um'' lo hi :=
  ⟨h₂.readable.trans h₁.readable, h₂.writable.trans h₁.writable,
    fun a ha => (h₂.bytes a ha).trans (h₁.bytes a ha)⟩

theorem SameOutside.mono {lo' hi' : Nat} (h : SameOutside um um' lo hi) (hlo : lo' ≤ lo)
    (hhi : hi ≤ hi') : SameOutside um um' lo' hi' :=
  ⟨h.readable, h.writable, fun a ha => h.bytes a (by omega)⟩

/-- A store inside `[lo, hi)` keeps the memory the same outside it. -/
theorem SameOutside.of_store (h : um.store a c = some um') (ha : lo ≤ a.toNat ∧ a.toNat < hi) :
    SameOutside um um' lo hi := by
  obtain ⟨-, rfl⟩ := store_eq_some_iff.1 h
  refine ⟨rfl, rfl, fun b hb => Function.update_of_ne ?_ _ _⟩
  rintro rfl
  omega

end UserMem

open UserMem

/-! ## `copyin` and `copyout` -/

section Block

variable {um : UserMem} {p len : UInt32}

/-- The `memcpy` of `copyin` returns the bytes at `src + i + j` for `j < n`
    when none of them faults. -/
theorem loadBytes_eq_some_iff {src : UInt32} :
    ∀ {i n : Nat} {bs : List UInt8}, loadBytes um src i n = some bs ↔
      bs.length = n ∧ ∀ j < n, um.load (src + UInt32.ofNat (i + j)) = bs[j]?
  | i, 0, bs => by
    rw [loadBytes, Option.some_inj, List.length_eq_zero_iff, eq_comm]
    exact (and_iff_left fun _ h => absurd h (Nat.not_lt_zero _)).symm
  | i, n + 1, bs => by
    simp only [loadBytes, Option.bind_eq_bind, Option.bind_eq_some_iff, Option.pure_def,
      Option.some_inj]
    constructor
    · rintro ⟨c, hc, cs, hcs, rfl⟩
      obtain ⟨hlen, hj⟩ := loadBytes_eq_some_iff.1 hcs
      refine ⟨by rw [List.length_cons, hlen], fun j hj' => ?_⟩
      rcases j with _ | j
      · rwa [Nat.add_zero]
      · rw [List.getElem?_cons_succ, ← hj j (by omega), Nat.add_right_comm, Nat.add_assoc]
    · rintro ⟨hlen, hj⟩
      obtain ⟨c, cs, rfl⟩ := List.exists_cons_of_length_eq_add_one hlen
      refine ⟨c, by simpa using hj 0 (by omega), cs, loadBytes_eq_some_iff.2 ⟨by simpa using hlen,
        fun j hj' => ?_⟩, rfl⟩
      rw [← List.getElem?_cons_succ, ← hj (j + 1) (by omega), Nat.add_right_comm, Nat.add_assoc]

/-- `copyin` succeeds exactly when the region is not empty, ends at or below
    `USERSPACETOP` and no byte of it faults, and returns those bytes. -/
theorem copyin_eq_ok_iff {bs : List UInt8} :
    copyin um p len = .ok bs ↔
      0 < len.toNat ∧ p.toNat + len.toNat ≤ userspacetop ∧ bs.length = len.toNat ∧
        ∀ j < len.toNat, um.load (UInt32.ofNat (p.toNat + j)) = bs[j]? := by
  rcases hc : copycheck p len with e | s
  · -- the region wraps or starts in the kernel
    have h := copycheck_eq_error_iff.1 (copycheck_error hc ▸ hc)
    simp only [copyin, hc, reduceCtorEq, false_iff]
    rintro ⟨h0, hle, -⟩
    unfold Wraps at h
    have := userspacetop_lt
    omega
  · simp only [copyin, hc]
    by_cases hsl : s = len
    · obtain ⟨h0, hle⟩ := (copycheck_stoplen_eq_iff hc).1 hsl
      have key : loadBytes um p 0 len.toNat = some bs ↔
          bs.length = len.toNat ∧ ∀ j < len.toNat, um.load (UInt32.ofNat (p.toNat + j)) = bs[j]? := by
        simp only [loadBytes_eq_some_iff, Nat.zero_add, add_ofNat]
      rw [if_neg (not_not.2 hsl), and_iff_right h0, and_iff_right hle, ← key]
      cases loadBytes um p 0 len.toNat <;> simp
    · rw [if_pos hsl]
      simp only [reduceCtorEq, false_iff]
      rintro ⟨h0, hle, -⟩
      exact hsl ((copycheck_stoplen_eq_iff hc).2 ⟨h0, hle⟩)

theorem copyin_error {e : Errno} (h : copyin um p len = .error e) : e = .efault := by
  unfold copyin at h
  split at h
  · cases h
    exact copycheck_error (by assumption)
  · split_ifs at h
    · cases h
      rfl
    · split at h <;> cases h
      rfl

variable {src : Nat → UInt8}

/-- Stores from index `i` on leave user memory the same outside
    `[dst + i, dst + i + n)` when that range does not wrap. -/
theorem storeBytes_sameOutside {dst : UInt32} :
    ∀ {i n : Nat} {um : UserMem}, dst.toNat + i + n ≤ 2 ^ 32 →
      SameOutside um (storeBytes src dst i n um).2 (dst.toNat + i) (dst.toNat + i + n)
  | _, 0, um, _ => SameOutside.refl um _ _
  | i, n + 1, um, h => by
    rw [storeBytes]
    rcases hs : um.store (dst + UInt32.ofNat i) (src i) with _ | um'
    · exact SameOutside.refl um _ _
    · -- the first store is at `dst + i`, the others above it
      have h₁ : SameOutside um um' (dst.toNat + i) (dst.toNat + i + (n + 1)) :=
        SameOutside.of_store hs (by rw [add_ofNat, toNat_ofNat_of_lt (by omega)]; omega)
      have h₂ : SameOutside um' (storeBytes src dst (i + 1) n um').2 (dst.toNat + (i + 1))
          (dst.toNat + (i + 1) + n) := storeBytes_sameOutside (by omega)
      exact h₁.trans (h₂.mono (by omega) (by omega))

/-- The stores of `copyout` succeed exactly when every byte is writable. -/
theorem storeBytes_fst_iff {dst : UInt32} :
    ∀ {i n : Nat} {um : UserMem}, (storeBytes src dst i n um).1 = true ↔
      ∀ j < n, um.writable (dst + UInt32.ofNat (i + j)) = true
  | _, 0, _ => iff_of_true rfl fun _ h => absurd h (Nat.not_lt_zero _)
  | i, n + 1, um => by
    rw [storeBytes]
    rcases hs : um.store (dst + UInt32.ofNat i) (src i) with _ | um'
    · -- the first store faults
      refine iff_of_false Bool.false_ne_true fun h => ?_
      have := h 0 (Nat.succ_pos n)
      rw [Nat.add_zero, ← store_isSome_iff, hs] at this
      cases this
    · obtain ⟨hw, rfl⟩ := store_eq_some_iff.1 hs
      rw [storeBytes_fst_iff]
      constructor
      · rintro h (_ | j) hj
        · rwa [Nat.add_zero]
        · rw [← Nat.add_assoc, Nat.add_right_comm i j 1]
          exact h j (by omega)
      · intro h j hj
        rw [Nat.add_right_comm, Nat.add_assoc]
        exact h (j + 1) (by omega)

/-- After stores that all succeed, the byte at `dst + i + j` is `src (i + j)`,
    when the range does not wrap. -/
theorem storeBytes_bytes {dst : UInt32} :
    ∀ {i n : Nat} {um : UserMem}, (storeBytes src dst i n um).1 = true →
      dst.toNat + i + n ≤ 2 ^ 32 →
      ∀ j < n, (storeBytes src dst i n um).2.bytes (dst + UInt32.ofNat (i + j)) = src (i + j)
  | _, 0, _, _, _, _, hj => absurd hj (Nat.not_lt_zero _)
  | i, n + 1, um, hok, hn, j, hj => by
    rw [storeBytes] at hok ⊢
    rcases hs : um.store (dst + UInt32.ofNat i) (src i) with _ | um'
    · rw [hs] at hok
      cases hok
    · rw [hs] at hok
      rcases j with _ | j
      · -- the later stores are above `dst + i`, which keeps `src i`
        have hrest : SameOutside um' (storeBytes src dst (i + 1) n um').2 (dst.toNat + (i + 1))
            (dst.toNat + (i + 1) + n) := storeBytes_sameOutside (by omega)
        obtain ⟨-, rfl⟩ := store_eq_some_iff.1 hs
        rw [Nat.add_zero, hrest.bytes _ (.inl (by rw [add_ofNat, toNat_ofNat_of_lt (by omega)]; omega))]
        exact Function.update_self _ _ _
      · rw [← Nat.add_assoc, Nat.add_right_comm i j 1]
        exact storeBytes_bytes hok (by omega) j (by omega)

variable {um : UserMem}

/-- `copyout` succeeds exactly when the region is not empty, ends at or below
    `USERSPACETOP` and every byte of it is writable. -/
theorem copyout_eq_ok_iff :
    (copyout src um p len).1 = .ok () ↔
      0 < len.toNat ∧ p.toNat + len.toNat ≤ userspacetop ∧
        ∀ j < len.toNat, um.writable (UInt32.ofNat (p.toNat + j)) = true := by
  rcases hc : copycheck p len with e | s
  · have h := copycheck_eq_error_iff.1 (copycheck_error hc ▸ hc)
    simp only [copyout, hc, reduceCtorEq, false_iff]
    rintro ⟨h0, hle, -⟩
    unfold Wraps at h
    have := userspacetop_lt
    omega
  · simp only [copyout, hc]
    by_cases hsl : s = len
    · obtain ⟨h0, hle⟩ := (copycheck_stoplen_eq_iff hc).1 hsl
      have key : (storeBytes src p 0 len.toNat um).1 = true ↔
          ∀ j < len.toNat, um.writable (p + UInt32.ofNat (0 + j)) = true := storeBytes_fst_iff
      simp only [Nat.zero_add, add_ofNat] at key
      rw [if_neg (not_not.2 hsl), and_iff_right h0, and_iff_right hle, ← key]
      rcases storeBytes src p 0 len.toNat um with ⟨_ | _, um'⟩
      · exact iff_of_false nofun Bool.false_ne_true
      · exact iff_of_true rfl rfl
    · rw [if_pos hsl]
      simp only [reduceCtorEq, false_iff]
      rintro ⟨h0, hle, -⟩
      exact hsl ((copycheck_stoplen_eq_iff hc).2 ⟨h0, hle⟩)

theorem copyout_error {e : Errno} (h : (copyout src um p len).1 = .error e) : e = .efault := by
  unfold copyout at h
  split at h
  · cases h
    exact copycheck_error (by assumption)
  · split_ifs at h
    · cases h
      rfl
    · split at h <;> cases h
      rfl

/-- A successful `copyout` leaves `src j` at `p + j` for every `j < len`. -/
theorem copyout_bytes (h : (copyout src um p len).1 = .ok ()) :
    ∀ j < len.toNat, (copyout src um p len).2.bytes (UInt32.ofNat (p.toNat + j)) = src j := by
  obtain ⟨h0, hle, -⟩ := copyout_eq_ok_iff.1 h
  have hU := userspacetop_lt
  unfold copyout at h ⊢
  rcases hc : copycheck p len with e | s
  · rw [hc] at h
    cases h
  · have hsl := (copycheck_stoplen_eq_iff hc).2 ⟨h0, hle⟩
    rw [hc] at h
    dsimp only at h ⊢
    rw [if_neg (not_not.2 hsl)] at h ⊢
    rcases hb : storeBytes src p 0 len.toNat um with ⟨_ | _, um'⟩
    · rw [hb] at h
      cases h
    · intro j hj
      have := storeBytes_bytes (by rw [hb]) (by omega) j hj
      rw [hb, Nat.zero_add, add_ofNat] at this
      exact this

/-- `copyout` changes no byte outside `[p, p + len)`, whether it succeeds or
    not. -/
theorem copyout_sameOutside :
    SameOutside um (copyout src um p len).2 p.toNat (p.toNat + len.toNat) := by
  unfold copyout
  rcases hc : copycheck p len with e | s
  · exact SameOutside.refl um _ _
  · dsimp only
    split_ifs with hsl
    · exact SameOutside.refl um _ _
    · obtain ⟨h0, hle⟩ := (copycheck_stoplen_eq_iff hc).1 (not_not.1 hsl)
      have hU := userspacetop_lt
      have h : SameOutside um (storeBytes src p 0 len.toNat um).2 (p.toNat + 0)
          (p.toNat + 0 + len.toNat) := storeBytes_sameOutside (by omega)
      rw [Nat.add_zero] at h
      rcases hb : storeBytes src p 0 len.toNat um with ⟨_ | _, um'⟩ <;> rw [hb] at h <;> exact h

end Block

/-! ## The loop of `copystr` -/

section CopystrSpec

variable {σ τ : Type} {ld ld' : Nat → Option UInt8} {st : σ → Nat → UInt8 → Option σ}
  {st' : τ → Nat → UInt8 → Option τ} {maxlen stoplen : Nat}

/-- A property of the destination that every store the loop can make keeps
    holds after the loop. -/
theorem copystrLoop_inv (Q : σ → Prop)
    (hst : ∀ s j c s', j < min maxlen stoplen → st s j c = some s' → Q s → Q s') :
    ∀ fuel i s, Q s → Q (copystrLoop ld st maxlen stoplen fuel i s).2
  | 0, _, _, hs => hs
  | fuel + 1, i, s, hs => by
    rw [copystrLoop]
    split_ifs with hi
    · rcases ld i with _ | c
      · exact hs
      · dsimp only
        rcases hs' : st s i c with _ | s'
        · exact hs
        · have hs'' := hst s i c s' (Nat.lt_min.2 hi) hs' hs
          dsimp only
          split_ifs
          · exact hs''
          · exact copystrLoop_inv Q hst fuel (i + 1) s' hs''
    · exact hs

/-- Two loops whose sources agree on the indices the loop can reach, and whose
    stores agree up to a relation `R` on the destinations, return the same
    result, with destinations related by `R`. -/
theorem copystrLoop_rel (R : σ → τ → Prop) (hld : ∀ j < min maxlen stoplen, ld j = ld' j)
    (hst : ∀ s t j c, j < min maxlen stoplen → R s t → Option.Rel R (st s j c) (st' t j c)) :
    ∀ fuel i s t, R s t →
      (copystrLoop ld st maxlen stoplen fuel i s).1 = (copystrLoop ld' st' maxlen stoplen fuel i t).1 ∧
        R (copystrLoop ld st maxlen stoplen fuel i s).2 (copystrLoop ld' st' maxlen stoplen fuel i t).2
  | 0, _, _, _, hR => ⟨rfl, hR⟩
  | fuel + 1, i, s, t, hR => by
    rw [copystrLoop, copystrLoop]
    split_ifs with hi
    · have hi' := Nat.lt_min.2 hi
      rw [hld i hi']
      rcases ld' i with _ | c
      · exact ⟨rfl, hR⟩
      · dsimp only
        have hrel := hst s t i c hi' hR
        generalize st s i c = o at hrel ⊢
        generalize st' t i c = o' at hrel ⊢
        cases hrel with
        | none => exact ⟨rfl, hR⟩
        | some hR' =>
          dsimp only
          split_ifs
          · exact ⟨rfl, hR'⟩
          · exact copystrLoop_rel R hld hst fuel (i + 1) _ _ hR'
    · exact ⟨rfl, hR⟩

/-- Without faults, the loop from index `i` returns the length up to the first
    NUL among the indices from `i` below `min maxlen stoplen`, if there is one.
    The destinations the stores reach satisfy `Q`, where no store faults. -/
theorem copystrLoop_of_loads {b : Nat → UInt8} (Q : σ → Prop)
    (hld : ∀ j < min maxlen stoplen, ld j = some (b j))
    (hst : ∀ s j c, j < min maxlen stoplen → Q s → ∃ s', st s j c = some s' ∧ Q s') :
    ∀ fuel i s, Q s → maxlen ≤ fuel + i →
      (copystrLoop ld st maxlen stoplen fuel i s).1 =
        .ok (((List.range' i (min maxlen stoplen - i)).find? fun k => decide (b k = 0)).map (· + 1))
  | 0, i, s, _, h => by
    rw [copystrLoop, show min maxlen stoplen - i = 0 by omega, List.range'_zero]
    rfl
  | fuel + 1, i, s, hs, h => by
    rw [copystrLoop]
    split_ifs with hi
    · have hi' := Nat.lt_min.2 hi
      obtain ⟨s', hs', hQ⟩ := hst s i (b i) hi' hs
      rw [show min maxlen stoplen - i = min maxlen stoplen - (i + 1) + 1 by omega, List.range'_succ,
        List.find?_cons, hld i hi']
      dsimp only
      rw [hs']
      dsimp only
      by_cases hb : b i = 0
      · rw [if_pos hb, decide_eq_true hb]
        rfl
      · rw [if_neg hb, decide_eq_false hb]
        exact copystrLoop_of_loads Q hld hst fuel (i + 1) s' hQ (by omega)
    · rw [show min maxlen stoplen - i = 0 by omega, List.range'_zero]
      rfl

theorem copystr_inv (Q : σ → Prop)
    (hst : ∀ s j c s', j < min maxlen stoplen → st s j c = some s' → Q s → Q s') {s : σ}
    (hs : Q s) : Q (copystr ld st maxlen stoplen s).2 := by
  have h : Q (copystrLoop ld st maxlen stoplen maxlen 0 s).2 := copystrLoop_inv Q hst maxlen 0 s hs
  unfold copystr
  rcases hl : copystrLoop ld st maxlen stoplen maxlen 0 s with ⟨r, s'⟩
  rw [hl] at h
  rcases r with _ | (_ | _) <;> exact h

theorem copystr_rel (R : σ → τ → Prop) (hld : ∀ j < min maxlen stoplen, ld j = ld' j)
    (hst : ∀ s t j c, j < min maxlen stoplen → R s t → Option.Rel R (st s j c) (st' t j c))
    {s : σ} {t : τ} (hR : R s t) :
    (copystr ld st maxlen stoplen s).1 = (copystr ld' st' maxlen stoplen t).1 ∧
      R (copystr ld st maxlen stoplen s).2 (copystr ld' st' maxlen stoplen t).2 := by
  obtain ⟨h1, h2⟩ := copystrLoop_rel R hld hst maxlen 0 s t hR
  unfold copystr
  rcases hl : copystrLoop ld st maxlen stoplen maxlen 0 s with ⟨r, s'⟩
  rcases hl' : copystrLoop ld' st' maxlen stoplen maxlen 0 t with ⟨r', t'⟩
  rw [hl, hl'] at h1 h2
  dsimp only at h1 h2
  subst h1
  rcases r with _ | (_ | _) <;> exact ⟨rfl, h2⟩

/-- Without faults, `copystr` returns the length up to the first NUL within
    `min maxlen stoplen` bytes, else `EFAULT` if `stoplen < maxlen` and
    `ENAMETOOLONG` otherwise. -/
theorem copystr_of_loads {b : Nat → UInt8} (Q : σ → Prop)
    (hld : ∀ j < min maxlen stoplen, ld j = some (b j))
    (hst : ∀ s j c, j < min maxlen stoplen → Q s → ∃ s', st s j c = some s' ∧ Q s') {s : σ}
    (hs : Q s) :
    (copystr ld st maxlen stoplen s).1 = strResult b (min maxlen stoplen) (decide (stoplen < maxlen)) := by
  have h := copystrLoop_of_loads Q hld hst maxlen 0 s hs (Nat.le_add_right _ _)
  rw [Nat.sub_zero, ← List.range_eq_range'] at h
  unfold copystr strResult firstNul
  rcases hl : copystrLoop ld st maxlen stoplen maxlen 0 s with ⟨r, s'⟩
  rw [hl] at h
  dsimp only at h
  subst h
  cases (List.range (min maxlen stoplen)).find? fun k => decide (b k = 0) with
  | none => by_cases hlt : stoplen < maxlen <;> simp [hlt]
  | some k => rfl

end CopystrSpec

/-! ## `copyinstr` and `copyoutstr` -/

/-- `strResult` is `0` with the length `k + 1` exactly when the first NUL is at
    `k`, within the `n` bytes. -/
theorem strResult_eq_ok_iff {b : Nat → UInt8} {n : Nat} {cut : Bool} {g : Nat} :
    strResult b n cut = .ok g ↔ ∃ k, g = k + 1 ∧ k < n ∧ b k = 0 ∧ ∀ j < k, b j ≠ 0 := by
  unfold strResult firstNul
  cases h : (List.range n).find? fun k => decide (b k = 0) with
  | none =>
    rw [List.find?_range_eq_none] at h
    simp only [reduceCtorEq, false_iff, not_exists, not_and]
    intro k _ hk hb _
    simpa [hb] using h k hk
  | some k =>
    rw [List.find?_range_eq_some] at h
    obtain ⟨hk0, hkn, hlt⟩ := h
    simp only [Except.ok.injEq]
    constructor
    · rintro rfl
      exact ⟨k, rfl, List.mem_range.1 hkn, by simpa using hk0, fun j hj => by simpa using hlt j hj⟩
    · rintro ⟨k', rfl, -, hb', hlt'⟩
      -- the first NUL is unique
      congr 1
      rcases Nat.lt_trichotomy k k' with h | h | h
      · exact absurd (by simpa using hk0) (hlt' k h)
      · exact h
      · exact absurd hb' (by simpa using hlt k' h)

/-- Without a NUL in the `n` bytes, `strResult` is the error for the cut. -/
theorem strResult_of_no_nul {b : Nat → UInt8} {n : Nat} {cut : Bool} (h : ∀ j < n, b j ≠ 0) :
    strResult b n cut = .error (if cut then .efault else .enametoolong) := by
  have hnone : firstNul b n = none :=
    List.find?_range_eq_none.2 fun j hj => by simpa using h j hj
  rw [strResult, hnone]

section Str

variable {um : UserMem} {p len : UInt32}

theorem copyinstr_of_refused (h : Wraps p.toNat len.toNat ∨ userspacetop ≤ p.toNat)
    (dest : Nat → UInt8) : copyinstr um p len dest = (.error .efault, dest) := by
  rw [copyinstr, copycheck_eq_error_iff.2 h]

theorem copyoutstr_of_refused (h : Wraps p.toNat len.toNat ∨ userspacetop ≤ p.toNat)
    (src : Nat → UInt8) : copyoutstr src um p len = (.error .efault, um) := by
  rw [copyoutstr, copycheck_eq_error_iff.2 h]

/-- Without faults, `copyinstr` returns what `strResult` says of the user
    bytes from `p`. -/
theorem copyinstr_of_readable (hw : ¬ Wraps p.toNat len.toNat) (hp : p.toNat < userspacetop)
    (hr : ∀ j < min len.toNat (userspacetop - p.toNat),
      um.readable (UInt32.ofNat (p.toNat + j)) = true) (dest : Nat → UInt8) :
    (copyinstr um p len dest).1 =
      strResult (fun j => um.bytes (UInt32.ofNat (p.toNat + j))) (min len.toNat (userspacetop - p.toNat))
        (decide (userspacetop - p.toNat < len.toNat)) := by
  obtain ⟨s, hs⟩ := copycheck_ok_of hw hp
  have hmin := copycheck_min_stoplen hs
  have hld : ∀ j < min len.toNat s.toNat,
      um.load (p + UInt32.ofNat j) = some (um.bytes (UInt32.ofNat (p.toNat + j))) := by
    intro j hj
    rw [add_ofNat]
    exact load_of_readable (hr j (hmin ▸ hj))
  have hst : ∀ (d : Nat → UInt8) j c, j < min len.toNat s.toNat → True →
      ∃ d', some (Function.update d j c) = some d' ∧ True := fun _ _ _ _ _ => ⟨_, rfl, trivial⟩
  rw [copyinstr, hs]
  dsimp only
  rw [copystr_of_loads (fun _ => True) hld hst trivial, hmin,
    decide_eq_decide.2 (copycheck_stoplen_lt_iff hs)]

/-- Without faults, `copyoutstr` returns what `strResult` says of the kernel
    string. -/
theorem copyoutstr_of_writable (hw : ¬ Wraps p.toNat len.toNat) (hp : p.toNat < userspacetop)
    (hwr : ∀ j < min len.toNat (userspacetop - p.toNat),
      um.writable (UInt32.ofNat (p.toNat + j)) = true) (src : Nat → UInt8) :
    (copyoutstr src um p len).1 =
      strResult src (min len.toNat (userspacetop - p.toNat)) (decide (userspacetop - p.toNat < len.toNat)) := by
  obtain ⟨s, hs⟩ := copycheck_ok_of hw hp
  have hmin := copycheck_min_stoplen hs
  have hld : ∀ j < min len.toNat s.toNat, some (src j) = some (src j) := fun _ _ => rfl
  -- the stores keep which bytes are writable, and the bytes they reach are
  have hst : ∀ (m : UserMem) j c, j < min len.toNat s.toNat → m.writable = um.writable →
      ∃ m', m.store (p + UInt32.ofNat j) c = some m' ∧ m'.writable = um.writable := by
    intro m j c hj hm
    refine ⟨_, store_eq_some_iff.2 ⟨?_, rfl⟩, hm⟩
    rw [hm, add_ofNat]
    exact hwr j (hmin ▸ hj)
  rw [copyoutstr, hs]
  dsimp only
  rw [copystr_of_loads (fun m => m.writable = um.writable) hld hst rfl, hmin,
    decide_eq_decide.2 (copycheck_stoplen_lt_iff hs)]

/-- `copyinstr` reads only the user bytes `p + j` with
    `j < min len (USERSPACETOP - p)`. -/
theorem copyinstr_congr {um' : UserMem}
    (h : ∀ j < min len.toNat (userspacetop - p.toNat),
      um'.load (UInt32.ofNat (p.toNat + j)) = um.load (UInt32.ofNat (p.toNat + j)))
    (dest : Nat → UInt8) : copyinstr um' p len dest = copyinstr um p len dest := by
  unfold copyinstr
  rcases hc : copycheck p len with e | s
  · rfl
  · dsimp only
    have hmin := copycheck_min_stoplen hc
    refine Prod.ext_iff.2 (copystr_rel Eq (fun j hj => ?_) (fun _ _ _ _ _ hR => ?_) rfl)
    · simp only [add_ofNat]
      exact h j (hmin ▸ hj)
    · subst hR
      exact Option.Rel.some rfl

/-- The result of `copyoutstr` depends on user memory only through which of
    the bytes `p + j` with `j < min len (USERSPACETOP - p)` are writable. -/
theorem copyoutstr_congr {um' : UserMem}
    (h : ∀ j < min len.toNat (userspacetop - p.toNat),
      um'.writable (UInt32.ofNat (p.toNat + j)) = um.writable (UInt32.ofNat (p.toNat + j)))
    (src : Nat → UInt8) : (copyoutstr src um' p len).1 = (copyoutstr src um p len).1 := by
  unfold copyoutstr
  rcases hc : copycheck p len with e | s
  · rfl
  · dsimp only
    have hmin := copycheck_min_stoplen hc
    -- the memories agree on which of the reachable bytes are writable
    refine (copystr_rel (fun m m' : UserMem => ∀ j < min len.toNat s.toNat,
      m.writable (p + UInt32.ofNat j) = m'.writable (p + UInt32.ofNat j))
        (fun _ _ => rfl) (fun m m' j c hj hR => ?_) fun j hj => ?_).1
    · unfold UserMem.store
      rw [hR j hj]
      split_ifs
      · exact Option.Rel.some fun k hk => hR k hk
      · exact Option.Rel.none
    · rw [add_ofNat]
      exact h j (hmin ▸ hj)

/-- `copyoutstr` changes no byte of user memory outside the bytes `p + j` with
    `j < min len (USERSPACETOP - p)`, whether it succeeds or not. -/
theorem copyoutstr_sameOutside (src : Nat → UInt8) :
    SameOutside um (copyoutstr src um p len).2 p.toNat (p.toNat + min len.toNat (userspacetop - p.toNat)) := by
  unfold copyoutstr
  rcases hc : copycheck p len with e | s
  · exact SameOutside.refl um _ _
  · dsimp only
    obtain ⟨-, hp, -, -⟩ := copycheck_ok hc
    have hmin := copycheck_min_stoplen hc
    have hU := userspacetop_lt
    refine copystr_inv (fun m => SameOutside um m p.toNat (p.toNat + min len.toNat (userspacetop - p.toNat)))
      (fun m j c m' hj hs hm => hm.trans (SameOutside.of_store hs ?_)) (SameOutside.refl um _ _)
    rw [add_ofNat, toNat_ofNat_of_lt (by omega)]
    omega

end Str

/-! ## The user region of the copies -/

/-- The bounds of the four copy functions. A block copy (`copyin`, `copyout`)
    fails with `EFAULT` unless its region is a non-empty range below
    `USERSPACETOP`, and then touches exactly that range. A string copy
    refuses a region that wraps in 32 bits or starts in the kernel before any
    access; otherwise it touches only the user bytes `p + j` with
    `j < min len (USERSPACETOP - p)` and, where none of them faults, returns
    `strResult` of the bytes copied. -/
theorem copy_user_bounds (um : UserMem) (p len : UInt32) (src dest : Nat → UInt8) :
    -- `copyin`
    (∀ bs, copyin um p len = .ok bs ↔
      0 < len.toNat ∧ p.toNat + len.toNat ≤ userspacetop ∧ bs.length = len.toNat ∧
        ∀ j < len.toNat, um.load (UInt32.ofNat (p.toNat + j)) = bs[j]?) ∧
    (∀ e, copyin um p len = .error e → e = .efault) ∧
    -- `copyout`
    ((copyout src um p len).1 = .ok () ↔
      0 < len.toNat ∧ p.toNat + len.toNat ≤ userspacetop ∧
        ∀ j < len.toNat, um.writable (UInt32.ofNat (p.toNat + j)) = true) ∧
    (∀ e, (copyout src um p len).1 = .error e → e = .efault) ∧
    ((copyout src um p len).1 = .ok () →
      ∀ j < len.toNat, (copyout src um p len).2.bytes (UInt32.ofNat (p.toNat + j)) = src j) ∧
    SameOutside um (copyout src um p len).2 p.toNat (p.toNat + len.toNat) ∧
    -- `copyinstr` and `copyoutstr` on a refused region
    (Wraps p.toNat len.toNat ∨ userspacetop ≤ p.toNat →
      copyinstr um p len dest = (.error .efault, dest) ∧ copyoutstr src um p len = (.error .efault, um)) ∧
    -- on an accepted region, without faults
    (¬ Wraps p.toNat len.toNat → p.toNat < userspacetop →
      ((∀ j < min len.toNat (userspacetop - p.toNat), um.readable (UInt32.ofNat (p.toNat + j)) = true) →
        (copyinstr um p len dest).1 =
          strResult (fun j => um.bytes (UInt32.ofNat (p.toNat + j))) (min len.toNat (userspacetop - p.toNat))
            (decide (userspacetop - p.toNat < len.toNat))) ∧
      ((∀ j < min len.toNat (userspacetop - p.toNat), um.writable (UInt32.ofNat (p.toNat + j)) = true) →
        (copyoutstr src um p len).1 =
          strResult src (min len.toNat (userspacetop - p.toNat)) (decide (userspacetop - p.toNat < len.toNat)))) ∧
    -- the user bytes they touch
    (∀ um' : UserMem, (∀ j < min len.toNat (userspacetop - p.toNat),
        um'.load (UInt32.ofNat (p.toNat + j)) = um.load (UInt32.ofNat (p.toNat + j))) →
      copyinstr um' p len dest = copyinstr um p len dest) ∧
    (∀ um' : UserMem, (∀ j < min len.toNat (userspacetop - p.toNat),
        um'.writable (UInt32.ofNat (p.toNat + j)) = um.writable (UInt32.ofNat (p.toNat + j))) →
      (copyoutstr src um' p len).1 = (copyoutstr src um p len).1) ∧
    SameOutside um (copyoutstr src um p len).2 p.toNat (p.toNat + min len.toNat (userspacetop - p.toNat)) :=
  ⟨fun _ => copyin_eq_ok_iff, fun _ => copyin_error, copyout_eq_ok_iff, fun _ => copyout_error,
    copyout_bytes, copyout_sameOutside,
    fun h => ⟨copyinstr_of_refused h dest, copyoutstr_of_refused h src⟩,
    fun hw hp => ⟨fun hr => copyinstr_of_readable hw hp hr dest, fun hwr => copyoutstr_of_writable hw hp hwr src⟩,
    fun _ h => copyinstr_congr h dest, fun _ h => copyoutstr_congr h src, copyoutstr_sameOutside src⟩

/-- User memory of zeros, all of it readable and writable. -/
def zeroMem : UserMem := ⟨fun _ => 0, fun _ => true, fun _ => true⟩

theorem copyinstr_reads_empty_string :
    (copyinstr zeroMem 0x1000 16 (fun _ => 0)).1 = .ok 1 := by
  rw [((copy_user_bounds zeroMem 0x1000 16 (fun _ => 0) (fun _ => 0)).2.2.2.2.2.2.2.1
    (by decide) (by decide)).1 fun _ _ => rfl]
  rfl

/-- A string copy into or out of an empty buffer, at any address other than
    `0` (a user address among them), returns `EFAULT` before any access:
    `copycheck` computes
    `top = p + 0 - 1`, which falls below `p`, and takes it for a wrap. Nothing
    is to be scanned and the end of user space cuts nothing short, so the rule
    of the other lengths gives `ENAMETOOLONG`, which is what the same calls at
    `p = 0` return, where `top` is `0xffffffff`. -/
theorem copystr_empty_buffer_efault (um : UserMem) (src dest : Nat → UInt8) {p : UInt32}
    (hp0 : p ≠ 0) :
    copyinstr um p 0 dest = (.error .efault, dest) ∧ copyoutstr src um p 0 = (.error .efault, um) ∧
      strResult (fun j => um.bytes (UInt32.ofNat (p.toNat + j))) (min 0 (userspacetop - p.toNat))
        (decide (userspacetop - p.toNat < 0)) = .error .enametoolong ∧
      (copyinstr um 0 0 dest).1 = .error .enametoolong ∧ (copyoutstr src um 0 0).1 = .error .enametoolong := by
  have hwrap : Wraps p.toNat (0 : UInt32).toNat := .inl ⟨rfl, by
    have := UInt32.toNat_inj.not.2 hp0
    simp only [UInt32.toNat_zero] at this
    omega⟩
  -- a scan of no bytes finds no NUL and is cut by nothing
  have hnone : ∀ (b : Nat → UInt8) (q : Nat), strResult b (min 0 q) (decide (q < 0)) = .error .enametoolong :=
    fun b q => by
      rw [strResult_of_no_nul fun j hj => absurd hj (by simp)]
      simp
  -- at `0` the region is accepted
  have hw0 : ¬ Wraps (0 : UInt32).toNat (0 : UInt32).toNat := by decide
  have hp00 : (0 : UInt32).toNat < userspacetop := by decide
  refine ⟨copyinstr_of_refused (.inl hwrap) dest, copyoutstr_of_refused (.inl hwrap) src, hnone _ _, ?_, ?_⟩
  · rw [copyinstr_of_readable hw0 hp00 (fun j hj => absurd hj (by simp)) dest]
    exact hnone _ _
  · rw [copyoutstr_of_writable hw0 hp00 (fun j hj => absurd hj (by simp)) src]
    exact hnone _ _

theorem copystr_empty_buffer_efault_at_page :
    (0x1000 : UInt32) ≠ 0 ∧ (0x1000 : UInt32).toNat < userspacetop ∧
      copyinstr zeroMem 0x1000 0 (fun _ => 0) = (.error .efault, fun _ => 0) ∧
      copyoutstr (fun _ => 0) zeroMem 0x1000 0 = (.error .efault, zeroMem) ∧
      (copyinstr zeroMem 0 0 (fun _ => 0)).1 = .error .enametoolong :=
  have h := copystr_empty_buffer_efault zeroMem (fun _ => 0) (fun _ => 0) (p := 0x1000) (by decide)
  ⟨by decide, by decide, h.1, h.2.1, h.2.2.2.1⟩

end Os161.Copyinout
