import Mathlib
import Os161.Vm.Fault
import Os161.Vm.Copyinout

/-!
# `execv`

`sys_execv(progname, args)` (kern/syscall/proc_syscalls.c) replaces the
program of the calling process. It counts the arguments by reading the
pointers of `args` up to the NULL one, copies the program name and each
argument into kernel buffers with `copyinstr`, opens the file, creates an
address space and switches to it, loads the executable with `load_elf` and
defines the stack. Then it builds the argument block on the new stack: the
strings from the last to the first, each at an 8-aligned `stackptr` below the
one before, then the `argc + 1` words of `argv` below them, from
`strAddr[argc] = 0` down to `strAddr[0]`. Last it destroys the old address
space and enters the new program with `enter_new_process`. `runprogram`
(kern/syscall/runprogram.c) builds the block with the same code. The
dispatcher `syscall` (kern/arch/mips/syscall/syscall.c) calls `sys_execv` for
`SYS_execv`, and panics when it returns.

The kernel reads the user's pointers and strings directly (`args[argc]`,
`strlen`) before it copies them: a load that faults there stops the machine
(`none`), as a kernel fault outside `copyin` does. The calls into the rest of
the kernel (`kmalloc`, `vfs_open`, `as_create`, `load_elf`) are given by
their results (`Calls`); `as_define_stack` is dumbvm's, which returns
`USERSTACK`.

* `sysExecv_ret`, `sysExecv_enter`: what a return of `sys_execv` leaves, and
  what its entry into the new program does;
* `sysExecv_name_refused`: a program name the kernel can read but that
  `copyinstr` refuses makes `sys_execv` return its `result` before anything
  set it;
* `loadAndEnter_strings_fail`: a return after an argument string failed to
  reach the new stack leaves the new address space installed;
* `syscall_execv_stops_or_enters`: `syscall` for `SYS_execv` never returns to
  the process: it stops the machine, or enters the new program with the new
  address space and the old one destroyed;
* `argument_passing_ignores_pointer_faults`: once the strings are on the
  stack, the code reaches `enter_new_process` whatever became of the copies
  of the pointers.
-/

namespace Os161.Execv

open Copyinout Dumbvm

/-! ## The argument block -/

/-- `ROUNDUP(a, b)` (lib.h), in `size_t`. -/
def roundup (a b : UInt32) : UInt32 := (a + b - 1) / b * b

/-- A kernel buffer holding the string `s`: its bytes, then a NUL. -/
def strBuf (s : List UInt8) : Nat → UInt8 := fun j => s.getD j 0

/-- The bytes of the word `a` as `copyout(&strAddr[i], ...)` reads them from
    memory, most significant first as on MIPS. -/
def wordBytes (a : UInt32) : Nat → UInt8 := fun j => UInt8.ofNat (a.toNat / 256 ^ (3 - j))

/-- The loop that copies the argument strings to the stack, from
    `argv[argc - 1]` down to `argv[0]`: for each, `stackptr` moves down by
    `ROUNDUP(strlen(argv[i]) + 1, 8)`, `strAddr[i] = stackptr`, and
    `copyoutstr(argv[i], stackptr, strlen(argv[i]) + 1)` copies it there,
    its error returned. The final `stackptr` and `strAddr[0..argc-1]`. -/
def copyoutStrings : List (List UInt8) → UInt32 → UserMem →
    Except Errno (UInt32 × List UInt32) × UserMem
  | [], sp, um => (.ok (sp, []), um)
  | s :: rest, sp, um =>
    -- the later arguments go first, higher on the stack
    match copyoutStrings rest sp um with
    | (.error e, um) => (.error e, um)
    | (.ok (sp, strAddr), um) =>
      let sp := sp - roundup (UInt32.ofNat (s.length + 1)) 8
      match copyoutstr (strBuf s) um sp (UInt32.ofNat (s.length + 1)) with
      | (.error e, um) => (.error e, um)
      | (.ok _, um) => (.ok (sp, sp :: strAddr), um)

/-- The loop that stores the pointers, from `strAddr[argc]` down to
    `strAddr[0]` (`addrs` is `strAddr[0..argc]`): `stackptr` moves down by
    `ROUNDUP(sizeof(vaddr_t), 4)` and `copyout` copies the word there. The
    result of `copyout` is dropped: the loop tests `result`, which holds what
    was last assigned to it before the loop (`none` for `0`). -/
def copyoutPointers (result : Option Errno) : List UInt32 → UInt32 → UserMem →
    Except Errno UInt32 × UserMem
  | [], sp, um => (.ok sp, um)
  | a :: rest, sp, um =>
    match copyoutPointers result rest sp um with
    | (.error e, um) => (.error e, um)
    | (.ok sp, um) =>
      let sp := sp - roundup 4 4
      let um := (copyout (wordBytes a) um sp (roundup 4 4)).2
      match result with
      | some e => (.error e, um)
      | none => (.ok sp, um)

/-- The argument passing of `sys_execv` and of `runprogram`: the strings, then
    the pointers with `strAddr[argc] = 0`. `result` is then the `0` of the last
    `copyoutstr`, or of `as_define_stack` when there is no argument. The final
    `stackptr`, passed to `enter_new_process`, or the error returned. -/
def argumentPassing (argv : List (List UInt8)) (stackptr : UInt32) (um : UserMem) :
    Except Errno UInt32 × UserMem :=
  match copyoutStrings argv stackptr um with
  | (.error e, um) => (.error e, um)
  | (.ok (sp, strAddr), um) => copyoutPointers none (strAddr ++ [0]) sp um

section Block

/-- Moving the stack pointer down by `m` bytes, then by `k`. -/
theorem sub_ofNat_sub_ofNat (sp : UInt32) (m k : Nat) :
    sp - UInt32.ofNat m - UInt32.ofNat k = sp - UInt32.ofNat (m + k) := by
  rw [UInt32.ofNat_add]
  grind

theorem roundup_four : roundup 4 4 = 4 := by decide

/-- The NUL after the string. -/
theorem strBuf_length (s : List UInt8) : strBuf s s.length = 0 :=
  List.getD_eq_default s 0 (Nat.le_refl _)

theorem strBuf_of_lt {s : List UInt8} {j : Nat} (h : j < s.length) : strBuf s j = s[j] :=
  List.getD_eq_getElem s 0 h

variable {argv : List (List UInt8)} {s : List UInt8} {sp sp' : UInt32} {um : UserMem} {addrs : List UInt32}

/-- `copyoutstr` of a string without NUL to a place where its `strlen + 1`
    bytes are writable below `USERSPACETOP` copies all of them. -/
theorem copyoutstr_strBuf {p : UInt32} (hs : (0 : UInt8) ∉ s) (hp : p.toNat + (s.length + 1) ≤ userspacetop)
    (hwr : ∀ j < s.length + 1, um.writable (UInt32.ofNat (p.toNat + j)) = true) :
    (copyoutstr (strBuf s) um p (UInt32.ofNat (s.length + 1))).1 = .ok (s.length + 1) := by
  have hU := userspacetop_lt
  have hlen : (UInt32.ofNat (s.length + 1)).toNat = s.length + 1 := toNat_ofNat_of_lt (by omega)
  have hmin : min (UInt32.ofNat (s.length + 1)).toNat (userspacetop - p.toNat) = s.length + 1 := by
    rw [hlen]
    omega
  rw [copyoutstr_of_writable (by rw [hlen]; unfold Wraps; omega) (by omega)
    (fun j hj => hwr j (hmin ▸ hj)), hmin]
  refine strResult_eq_ok_iff.2 ⟨s.length, rfl, Nat.lt_succ_self _, strBuf_length s, fun j hj => ?_⟩
  rw [strBuf_of_lt hj]
  exact fun h => hs (h ▸ List.getElem_mem hj)

/-- A string copy that reached the stack: the copies of the later strings
    first, then this one, below them. -/
theorem copyoutStrings_cons_ok (h : (copyoutStrings (s :: argv) sp um).1 = .ok (sp', addrs)) :
    ∃ sp₁ addrs₁ um₁, copyoutStrings argv sp um = (.ok (sp₁, addrs₁), um₁) ∧
      sp' = sp₁ - roundup (UInt32.ofNat (s.length + 1)) 8 ∧ addrs = sp' :: addrs₁ ∧
      ∃ n, (copyoutstr (strBuf s) um₁ sp' (UInt32.ofNat (s.length + 1))).1 = .ok n := by
  simp only [copyoutStrings] at h
  rcases hr : copyoutStrings argv sp um with ⟨_ | ⟨sp₁, addrs₁⟩, um₁⟩
  · simp [hr] at h
  · rw [hr] at h
    dsimp only at h
    rcases hc : copyoutstr (strBuf s) um₁ (sp₁ - roundup (UInt32.ofNat (s.length + 1)) 8)
      (UInt32.ofNat (s.length + 1)) with ⟨_ | n, um₂⟩
    · rw [hc] at h
      cases h
    · rw [hc] at h
      obtain ⟨rfl, rfl⟩ := Prod.mk.inj (Except.ok.inj h)
      exact ⟨sp₁, addrs₁, um₁, rfl, rfl, rfl, n, by rw [hc]⟩

/-- The copy of a string below the strings after it. -/
theorem copyoutStrings_cons_of_ok {sp₁ : UInt32} {addrs₁ : List UInt32} {um₁ : UserMem} {n : Nat}
    (hr : copyoutStrings argv sp um = (.ok (sp₁, addrs₁), um₁))
    (hc : (copyoutstr (strBuf s) um₁ (sp₁ - roundup (UInt32.ofNat (s.length + 1)) 8)
      (UInt32.ofNat (s.length + 1))).1 = .ok n) :
    (copyoutStrings (s :: argv) sp um).1 =
      .ok (sp₁ - roundup (UInt32.ofNat (s.length + 1)) 8,
        (sp₁ - roundup (UInt32.ofNat (s.length + 1)) 8) :: addrs₁) := by
  rw [copyoutStrings, hr]
  rcases hc' : copyoutstr (strBuf s) um₁ (sp₁ - roundup (UInt32.ofNat (s.length + 1)) 8)
    (UInt32.ofNat (s.length + 1)) with ⟨r, um₂⟩
  rw [hc'] at hc
  dsimp only at hc
  subst hc
  dsimp only
  rw [hc']

/-- `strAddr` has an entry for each argument. -/
theorem copyoutStrings_length (h : (copyoutStrings argv sp um).1 = .ok (sp', addrs)) :
    addrs.length = argv.length := by
  induction argv generalizing sp' addrs with
  | nil =>
    simp only [copyoutStrings, Except.ok.injEq, Prod.mk.injEq] at h
    rw [← h.2]
    rfl
  | cons s argv ih =>
    obtain ⟨sp₁, addrs₁, um₁, hr, -, rfl, -⟩ := copyoutStrings_cons_ok h
    rw [List.length_cons, List.length_cons, ih (by rw [hr])]

/-- The loop over the pointers with `result` at `0` always runs to its end,
    `4` bytes down for each pointer. -/
theorem copyoutPointers_none (addrs : List UInt32) (sp : UInt32) (um : UserMem) :
    (copyoutPointers none addrs sp um).1 = .ok (sp - UInt32.ofNat (4 * addrs.length)) := by
  induction addrs with
  | nil => simp [copyoutPointers]
  | cons a addrs ih =>
    rcases hr : copyoutPointers none addrs sp um with ⟨r, um₁⟩
    rw [hr] at ih
    dsimp only at ih
    subst ih
    simp only [copyoutPointers, hr, List.length_cons, roundup_four]
    rw [Nat.mul_succ, ← sub_ofNat_sub_ofNat]
    rfl

/-- A string that could not be copied ends the argument passing with its
    error. -/
theorem argumentPassing_of_strings_error {e : Errno} (h : (copyoutStrings argv sp um).1 = .error e) :
    (argumentPassing argv sp um).1 = .error e := by
  rcases hr : copyoutStrings argv sp um with ⟨r, um₁⟩
  rw [hr] at h
  dsimp only at h
  subst h
  rw [argumentPassing, hr]

/-- Once the argument strings are on the stack, the argument passing reaches
    `enter_new_process`, `4` bytes lower for each of the `argc + 1` pointers,
    whether or not their copies reached memory. -/
theorem argument_passing_ignores_pointer_faults
    (h : (copyoutStrings argv sp um).1 = .ok (sp', addrs)) :
    (argumentPassing argv sp um).1 = .ok (sp' - UInt32.ofNat (4 * (argv.length + 1))) := by
  rcases hr : copyoutStrings argv sp um with ⟨r, um₁⟩
  rw [hr] at h
  dsimp only at h
  subst h
  rw [argumentPassing, hr]
  dsimp only
  rw [copyoutPointers_none, List.length_append, copyoutStrings_length (by rw [hr]),
    List.length_singleton]

end Block

/-- User memory as dumbvm maps it for a program whose regions hold nothing:
    the `DUMBVM_STACKPAGES` pages below `USERSTACK`, and no other byte. -/
def stackOnlyMem : UserMem where
  bytes _ := 0
  readable a := decide (Addrspace.stackbase ≤ a.toNat ∧ a.toNat < userstack)
  writable a := decide (Addrspace.stackbase ≤ a.toNat ∧ a.toNat < userstack)

/-- One argument of `49151` bytes: with its NUL, it fills the stack. -/
def fullStackArgv : List (List UInt8) := [List.replicate 49151 0x41]

/-- The argument of `fullStackArgv` reaches the stack, at its base. -/
theorem fullStackArgv_strings :
    (copyoutStrings fullStackArgv (UInt32.ofNat userstack) stackOnlyMem).1 =
      .ok (UInt32.ofNat Addrspace.stackbase, [UInt32.ofNat Addrspace.stackbase]) := by
  have hlen : (List.replicate 49151 (0x41 : UInt8)).length = 49151 := List.length_replicate
  have hnul : (0 : UInt8) ∉ List.replicate 49151 0x41 := fun h =>
    absurd (List.mem_replicate.1 h).2 (by decide)
  unfold fullStackArgv
  -- the string is used through its length and its lack of a NUL only
  generalize List.replicate 49151 (0x41 : UInt8) = s at hlen hnul
  have hbase : (UInt32.ofNat Addrspace.stackbase).toNat = 2147434496 := by decide
  have htop : userspacetop = 2147483648 := by decide
  have hsp : UInt32.ofNat userstack - roundup (UInt32.ofNat (s.length + 1)) 8 =
      UInt32.ofNat Addrspace.stackbase := by
    rw [hlen]
    decide
  have hwr : ∀ j < s.length + 1,
      stackOnlyMem.writable (UInt32.ofNat ((UInt32.ofNat Addrspace.stackbase).toNat + j)) = true := by
    intro j hj
    have hsb : Addrspace.stackbase = 2147434496 := by decide
    simp only [stackOnlyMem, hbase, decide_eq_true_eq]
    rw [toNat_ofNat_of_lt (by omega), hsb, userstack, htop]
    omega
  have hcopy := copyoutstr_strBuf hnul (by rw [hbase, hlen, htop]) hwr
  rw [← hsp] at hcopy ⊢
  exact copyoutStrings_cons_of_ok rfl hcopy

/-- With one argument that fills the stack, the string reaches the stack and
    the words of both pointers, `strAddr[1] = 0` and `strAddr[0]`, fall below
    it, where no byte is writable; still the code reaches `enter_new_process`,
    with `stackptr` 8 bytes below the stack. -/
theorem fullStack_enters_unwritten :
    (argumentPassing fullStackArgv (UInt32.ofNat userstack) stackOnlyMem).1 =
        .ok (UInt32.ofNat Addrspace.stackbase - 8) ∧
      ∀ j < 8, stackOnlyMem.writable (UInt32.ofNat Addrspace.stackbase - 8 + UInt32.ofNat j) = false := by
  refine ⟨?_, by decide⟩
  rw [argument_passing_ignores_pointer_faults fullStackArgv_strings]
  rfl


/-! ## `sys_execv` -/

/-- A kernel load of the word at `a`, most significant byte first; `none`
    when a load faults. -/
def loadWord (um : UserMem) (a : UInt32) : Option UInt32 := do
  let b0 ← um.load a
  let b1 ← um.load (a + 1)
  let b2 ← um.load (a + 2)
  let b3 ← um.load (a + 3)
  pure (b0.toUInt32 <<< 24 ||| b1.toUInt32 <<< 16 ||| b2.toUInt32 <<< 8 ||| b3.toUInt32)

/-- The bytes `strlen(p)` walks over in the kernel, before the NUL, within
    `fuel` bytes; `none` when a load faults, or when no NUL comes within
    `fuel` bytes. -/
def kernelString (um : UserMem) (p : UInt32) : Nat → Option (List UInt8)
  | 0 => none
  | fuel + 1 => do
    let c ← um.load p
    if c = 0 then pure []
    else do
      let cs ← kernelString um (p + 1) fuel
      pure (c :: cs)

/-- `strlen` stops within the `2 ^ 32` bytes of the address space, or never:
    past them it reads the same bytes again. -/
def strFuel : Nat := 2 ^ 32

/-- `while (args[argc]) argc++;` from `argc = i`, for at most `fuel` more
    words: the pointers `args[i], args[i+1], ...` before the NULL one. -/
def countArgs (um : UserMem) (args : UInt32) : Nat → Nat → Option (List UInt32)
  | 0, _ => none
  | fuel + 1, i => do
    let p ← loadWord um (args + UInt32.ofNat (4 * i))
    if p = 0 then pure []
    else do
      let ps ← countArgs um args fuel (i + 1)
      pure (p :: ps)

/-- The count stops within the `2 ^ 30` words of the address space, or never. -/
def argFuel : Nat := 2 ^ 30

/-- What the calls of `sys_execv` into the rest of the kernel return. -/
structure Calls (A : Type) where
  /-- whether the `n`-th `kmalloc` returns memory: `addr_name`, `argv`, then
      `argv[0], argv[1], ...` -/
  kmalloc : Nat → Bool
  /-- the error of `vfs_open(progname, O_RDONLY, 0, &v)`, if it fails -/
  vfsOpen : Option Errno
  /-- `as_create()`: the new address space, or `NULL` -/
  asCreate : Option A
  /-- `load_elf(v, &entrypoint)` into the new space: the entry point and the
      space's user memory after the load, or the error -/
  loadElf : Except Errno (UInt32 × UserMem)

/-- The process as `sys_execv` sees it. -/
structure State (A : Type) where
  /-- `curproc->p_addrspace` -/
  addrspace : A
  /-- the user memory of each address space -/
  mem : A → UserMem
  /-- the address spaces `as_destroy` freed, the last first -/
  destroyed : List A

/-- How `sys_execv` ends: it returns `result`, or it enters the new program
    with `enter_new_process(argc, stackptr, stackptr, entrypoint)`. -/
inductive Outcome (A : Type)
  | ret (result : Int) (s : State A)
  | enter (argc : Nat) (stackptr entrypoint : UInt32) (s : State A)

/-- `as_define_stack(as, &stackptr)` of dumbvm: `0`, with `USERSTACK`. -/
def asDefineStack : Except Errno UInt32 := .ok (UInt32.ofNat userstack)

variable {A : Type}

/-- The loop that copies the arguments in, from `args[i]` on (`ptrs`):
    `argv[i] = kmalloc(strlen(args[i]) + 1)`, `ENOMEM` when it fails, then
    `copyinstr(args[i], argv[i], strlen(args[i]) + 1)`, its error returned.
    The strings copied, which are the bytes `strlen` walked over. -/
def copyinArgs (c : Calls A) (um : UserMem) : Nat → List UInt32 →
    Option (Except Errno (List (List UInt8)))
  | _, [] => some (.ok [])
  | i, p :: ps =>
    (kernelString um p strFuel).bind fun str =>
      if c.kmalloc (2 + i) = false then some (.error .enomem)
      else match (copyinstr um p (UInt32.ofNat (str.length + 1)) fun _ => 0).1 with
        | .error e => some (.error e)
        | .ok _ => (copyinArgs c um (i + 1) ps).map fun r => r.map (str :: ·)

variable [DecidableEq A]

/-- `sys_execv` from `vfs_open` on, with the arguments `argv` copied in. -/
def loadAndEnter (c : Calls A) (argv : List (List UInt8)) (s : State A) : Option (Outcome A) :=
  match c.vfsOpen with
  | some e => some (.ret e.toNat s)
  | none =>
    match c.asCreate with
    | none => some (.ret Errno.enomem.toNat s)
    | some as =>
      -- `oldAddrSpc = curproc_setas(as)`
      let old := s.addrspace
      let s := { s with addrspace := as }
      match c.loadElf with
      -- `curproc_setas(oldAddrSpc)`
      | .error e => some (.ret e.toNat { s with addrspace := old })
      | .ok (entrypoint, loaded) =>
        let s := { s with mem := Function.update s.mem as loaded }
        match asDefineStack with
        | .error e => some (.ret e.toNat { s with addrspace := old })
        | .ok stackptr =>
          match argumentPassing argv stackptr (s.mem as) with
          -- no `curproc_setas(oldAddrSpc)` on this path
          | (.error e, um) => some (.ret e.toNat { s with mem := Function.update s.mem as um })
          | (.ok sp, um) =>
            -- `as_destroy(oldAddrSpc)`
            some (.enter argv.length sp entrypoint
              { s with mem := Function.update s.mem as um, destroyed := old :: s.destroyed })

/-- `sys_execv(progname, args)`, with `uninit` the value `result` holds
    before anything is assigned to it. -/
def sysExecv (c : Calls A) (uninit : Int) (progname args : UInt32) (s : State A) :
    Option (Outcome A) :=
  let um := s.mem s.addrspace
  if progname = 0 ∨ args = 0 then some (.ret Errno.efault.toNat s)
  else
    (countArgs um args argFuel 0).bind fun ptrs =>
    (kernelString um progname strFuel).bind fun name =>
    if c.kmalloc 0 = false ∨ c.kmalloc 1 = false then some (.ret Errno.enomem.toNat s)
    else match (copyinstr um progname (UInt32.ofNat (name.length + 1)) fun _ => 0).1 with
      -- `return result;`, `result` not yet set
      | .error _ => some (.ret uninit s)
      | .ok _ =>
        (copyinArgs c um 2 ptrs).bind fun
          | .error e => some (.ret e.toNat s)
          | .ok argv => loadAndEnter c argv s

/-- The registers of the trap frame that the `SYS_execv` case reads. -/
structure Trapframe where
  a0 : UInt32
  a1 : UInt32

/-- The `SYS_execv` case of `syscall`: `err = sys_execv(tf_a0, tf_a1)`, then
    `panic`. -/
def syscallExecv (c : Calls A) (uninit : Int) (tf : Trapframe) (s : State A) :
    Option (Outcome A) :=
  match sysExecv c uninit tf.a0 tf.a1 s with
  | some (.enter argc sp entrypoint s) => some (.enter argc sp entrypoint s)
  -- `panic("sys_execv shall not return... I will just die for now...")`
  | some (.ret _ _) => none
  | none => none

section Returns

variable {c : Calls A} {uninit : Int} {s s' : State A} {argv : List (List UInt8)} {r : Int}

/-- What `sys_execv` can do from `vfs_open` on: return with the process as it
    was, when `vfs_open`, `as_create` or `load_elf` fails (the old address
    space put back), or end as the argument passing into the loaded space of
    `as` does, returning with `as` installed or entering the new program with
    the old space destroyed. -/
theorem loadAndEnter_cases {o : Outcome A} (h : loadAndEnter c argv s = some o) :
    (∃ r, o = .ret r s) ∨
      ∃ as entry loaded um, c.asCreate = some as ∧ c.loadElf = .ok (entry, loaded) ∧
        ((∃ e, argumentPassing argv (UInt32.ofNat userstack) loaded = (.error e, um) ∧
            o = .ret e.toNat ⟨as, Function.update s.mem as um, s.destroyed⟩) ∨
          ∃ sp, argumentPassing argv (UInt32.ofNat userstack) loaded = (.ok sp, um) ∧
            o = .enter argv.length sp entry ⟨as, Function.update s.mem as um, s.addrspace :: s.destroyed⟩) := by
  unfold loadAndEnter at h
  rcases hv : c.vfsOpen with _ | e
  · rcases ha : c.asCreate with _ | as
    · -- `as_create` failed
      simp only [hv, ha, Option.some.injEq] at h
      exact .inl ⟨_, h.symm⟩
    · rcases hl : c.loadElf with e | ⟨entry, loaded⟩
      · -- `load_elf` failed: the old space is put back
        simp only [hv, ha, hl, Option.some.injEq] at h
        exact .inl ⟨_, h.symm⟩
      · simp only [hv, ha, hl, asDefineStack, Function.update_self] at h
        refine .inr ⟨as, entry, loaded, ?_⟩
        rcases hp : argumentPassing argv (UInt32.ofNat userstack) loaded with ⟨_ | sp, um⟩
        · -- the argument passing failed: the new space stays
          rw [hp] at h
          simp only [Option.some.injEq] at h
          exact ⟨um, rfl, rfl, .inl ⟨_, rfl, by rw [← h, Function.update_idem]⟩⟩
        · rw [hp] at h
          simp only [Option.some.injEq] at h
          exact ⟨um, rfl, rfl, .inr ⟨sp, rfl, by rw [← h, Function.update_idem]⟩⟩
  · -- `vfs_open` failed
    simp only [hv, Option.some.injEq] at h
    exact .inl ⟨_, h.symm⟩

/-- Where `sys_execv` returns after `vfs_open`: with the process as it was,
    or with the old address space put back, or, after the argument passing
    failed, with the new one installed. No address space is destroyed, and
    only the new one's memory has changed. -/
theorem loadAndEnter_ret (h : loadAndEnter c argv s = some (.ret r s')) :
    s'.destroyed = s.destroyed ∧ (s'.addrspace = s.addrspace ∨ c.asCreate = some s'.addrspace) ∧
      ∀ a, c.asCreate ≠ some a → s'.mem a = s.mem a := by
  rcases loadAndEnter_cases h with ⟨r', hr⟩ | ⟨as, entry, loaded, um, has, -, ⟨e, -, ho⟩ | ⟨sp, -, ho⟩⟩
  · obtain ⟨-, rfl⟩ := Outcome.ret.inj hr
    exact ⟨rfl, .inl rfl, fun _ _ => rfl⟩
  · obtain ⟨-, rfl⟩ := Outcome.ret.inj ho
    refine ⟨rfl, .inr has, fun a hne => Function.update_of_ne ?_ _ _⟩
    rintro rfl
    exact hne has
  · cases ho

/-- `sys_execv` enters the new program only from the end of the argument
    passing: with the new address space installed, the argument block in its
    memory, and the old space destroyed. -/
theorem loadAndEnter_enter {argc : Nat} {sp entry : UInt32}
    (h : loadAndEnter c argv s = some (.enter argc sp entry s')) :
    ∃ as um, c.asCreate = some as ∧ argc = argv.length ∧
      s' = ⟨as, Function.update s.mem as um, s.addrspace :: s.destroyed⟩ := by
  rcases loadAndEnter_cases h with ⟨r, hr⟩ | ⟨as, entry', loaded, um, has, -, ⟨e, -, ho⟩ | ⟨sp', -, ho⟩⟩
  · cases hr
  · cases ho
  · obtain ⟨rfl, -, -, rfl⟩ := Outcome.enter.inj ho
    exact ⟨as, um, has, rfl, rfl⟩

/-- What `sys_execv` can do: return with the process as it was, before
    `vfs_open`, or do what `loadAndEnter` does with the arguments it copied
    in. -/
theorem sysExecv_cases {p args : UInt32} {o : Outcome A} (h : sysExecv c uninit p args s = some o) :
    (∃ r, o = .ret r s) ∨ ∃ argv, loadAndEnter c argv s = some o := by
  unfold sysExecv at h
  dsimp only at h
  by_cases h0 : p = 0 ∨ args = 0
  · rw [if_pos h0] at h
    exact .inl ⟨_, (Option.some.inj h).symm⟩
  rw [if_neg h0] at h
  obtain ⟨ptrs, -, h⟩ := Option.bind_eq_some_iff.1 h
  obtain ⟨name, -, h⟩ := Option.bind_eq_some_iff.1 h
  by_cases hk : c.kmalloc 0 = false ∨ c.kmalloc 1 = false
  · rw [if_pos hk] at h
    exact .inl ⟨_, (Option.some.inj h).symm⟩
  rw [if_neg hk] at h
  split at h
  · -- `copyinstr` of the name failed
    exact .inl ⟨_, (Option.some.inj h).symm⟩
  · obtain ⟨r, -, h⟩ := Option.bind_eq_some_iff.1 h
    rcases r with e | argv
    · exact .inl ⟨_, (Option.some.inj h).symm⟩
    · exact .inr ⟨argv, h⟩

/-- A return of `sys_execv` destroys no address space, changes the memory of
    the new one only, and leaves installed the old one or the new one. -/
theorem sysExecv_ret {p args : UInt32} (h : sysExecv c uninit p args s = some (.ret r s')) :
    s'.destroyed = s.destroyed ∧ (s'.addrspace = s.addrspace ∨ c.asCreate = some s'.addrspace) ∧
      ∀ a, c.asCreate ≠ some a → s'.mem a = s.mem a := by
  rcases sysExecv_cases h with ⟨r', hr⟩ | ⟨argv, hl⟩
  · obtain ⟨-, rfl⟩ := Outcome.ret.inj hr
    exact ⟨rfl, .inl rfl, fun _ _ => rfl⟩
  · exact loadAndEnter_ret hl

/-- `sys_execv` enters the new program with the new address space installed
    and the old one destroyed. -/
theorem sysExecv_enter {p args : UInt32} {argc : Nat} {sp entry : UInt32}
    (h : sysExecv c uninit p args s = some (.enter argc sp entry s')) :
    ∃ as um, c.asCreate = some as ∧ s' = ⟨as, Function.update s.mem as um, s.addrspace :: s.destroyed⟩ := by
  rcases sysExecv_cases h with ⟨r, hr⟩ | ⟨argv, hl⟩
  · cases hr
  · obtain ⟨as, um, has, -, rfl⟩ := loadAndEnter_enter hl
    exact ⟨as, um, has, rfl⟩

/-- A program name that the kernel reads but that starts in the kernel half of
    the address space: `copyinstr` refuses it, and `sys_execv` returns its
    `result`, which nothing has set. -/
theorem sysExecv_name_refused {p args : UInt32} {ptrs : List UInt32} {name : List UInt8}
    (hp : p ≠ 0) (ha : args ≠ 0) (hargs : countArgs (s.mem s.addrspace) args argFuel 0 = some ptrs)
    (hname : kernelString (s.mem s.addrspace) p strFuel = some name)
    (hk0 : c.kmalloc 0 = true) (hk1 : c.kmalloc 1 = true) (hkern : userspacetop ≤ p.toNat) :
    sysExecv c uninit p args s = some (.ret uninit s) := by
  unfold sysExecv
  dsimp only
  rw [if_neg (by simp [hp, ha]), hargs, Option.bind_some, hname, Option.bind_some,
    if_neg (by simp [hk0, hk1]), copyinstr_of_refused (.inr hkern)]

/-- After the switch to the new address space, an argument string that
    cannot be copied to its stack makes `sys_execv` return with the new space
    still installed. -/
theorem loadAndEnter_strings_fail {as : A} {entry : UInt32} {loaded : UserMem} {e : Errno}
    (hv : c.vfsOpen = none) (has : c.asCreate = some as) (hl : c.loadElf = .ok (entry, loaded))
    (hs : (copyoutStrings argv (UInt32.ofNat userstack) loaded).1 = .error e) :
    ∃ um, loadAndEnter c argv s = some (.ret e.toNat ⟨as, Function.update s.mem as um, s.destroyed⟩) := by
  have hp := argumentPassing_of_strings_error hs
  unfold loadAndEnter
  simp only [hv, has, hl, asDefineStack, Function.update_self]
  rcases hr : argumentPassing argv (UInt32.ofNat userstack) loaded with ⟨r, um⟩
  rw [hr] at hp
  dsimp only at hp
  subst hp
  exact ⟨um, by simp only [Function.update_idem]⟩

/-- `syscall` never returns to a process that called `execv`: it stops the
    machine, on every return of `sys_execv`, or it enters the new program
    with the new address space installed and the old one destroyed. -/
theorem syscall_execv_stops_or_enters (c : Calls A) (uninit : Int) (tf : Trapframe) (s : State A) :
    syscallExecv c uninit tf s = none ∨
      ∃ as um argc sp entry, c.asCreate = some as ∧
        syscallExecv c uninit tf s =
          some (.enter argc sp entry ⟨as, Function.update s.mem as um, s.addrspace :: s.destroyed⟩) := by
  unfold syscallExecv
  rcases h : sysExecv c uninit tf.a0 tf.a1 s with _ | (⟨r, s'⟩ | ⟨argc, sp, entry, s'⟩)
  · exact .inl rfl
  · exact .inl rfl
  · obtain ⟨as, um, has, rfl⟩ := sysExecv_enter h
    exact .inr ⟨as, um, argc, sp, entry, has, rfl⟩

end Returns

/-- A process with the name `"/x"` at `0x1000` and the argument vector
    `{0x1000, NULL}` at `0x2000`, all of its memory readable and writable. -/
def demoMem : UserMem where
  bytes a := if a = 0x1000 then 0x2f else if a = 0x1001 then 0x78 else if a = 0x2002 then 0x10 else 0
  readable _ := true
  writable _ := true

/-- `execv("/x", {"/x", NULL})` of a program that does not exist: `sys_execv`
    returns `ENOENT` with the process as it was, and `syscall` stops the
    machine instead of returning the error. -/
theorem execv_missing_program_stops :
    sysExecv ⟨fun _ => true, some .enoent, some 1, .error .enoexec⟩ 0 0x1000 0x2000
        ⟨0, fun _ => demoMem, []⟩ = some (.ret Errno.enoent.toNat ⟨0, fun _ => demoMem, []⟩) ∧
      syscallExecv ⟨fun _ => true, some .enoent, some 1, .error .enoexec⟩ 0 ⟨0x1000, 0x2000⟩
        ⟨0, fun _ => demoMem, []⟩ = none :=
  ⟨rfl, rfl⟩

end Os161.Execv
