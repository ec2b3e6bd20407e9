import Mathlib
import Os161.Lib.KernM

/-!
# The user-level `malloc`

malloc.c (user/lib/libc/stdlib) keeps the heap as a run of blocks from
`__heapbase` to `__heaptop`, each an 8-byte header (`struct mheader`) and the
data after it. `malloc` walks the headers from the bottom, first fit, splitting
a free block that has room to spare (`__malloc_split`), and grows the heap with
`sbrk` when no block fits; `free` marks the block free, fills its data with
`0xdeadbeef` and merges it with a free neighbour (`__malloc_trymerge`).

The model is of a 32-bit platform (`MALLOC32`): `size_t` and `uintptr_t`
wrap at `2^32`, and memory is the 32-bit words at addresses that are
multiples of 4. A header is two words; on big-endian MIPS the first bit field
of each word takes its high bits. An `errx` ends the process and the heap walk
that does not reach the top does not end: both are a stop of `KernM`. The
process's break and the answers of `sbrk` are part of the state, the answers
as a schedule indexed by the number of calls.

`Layout mem a prev bs top` says that the blocks `bs` lie in memory from the
header at `a` to `top`, the first header recording `prev` as its previous
block; a well-formed heap is laid out from `__heapbase` with `prev = 0`.

* `mallocLoop_inuse`: the first-fit walk over blocks all in use reaches the
  top and changes nothing;
* `malloc_zero_at_top`: `malloc(0)` on such a heap takes a block without data
  from `sbrk` and hands back the new `__heaptop`, past the end of the heap,
  which `free` refuses as out of range and exits.
-/

namespace Os161.Malloc

open KernM

/-- `MBLOCKSIZE` on a 32-bit platform: the size of a header. -/
def mblocksize : Nat := 8

/-- `MMAGIC`. -/
def mmagic : Nat := 2

/-- The values of a 32-bit `size_t` or `uintptr_t`: arithmetic on them is
    modulo this. -/
def wordMod : Nat := 2 ^ 32

/-- The word `__malloc_deadbeef` fills freed memory with. -/
def deadbeefWord : Nat := 0xdeadbeef

/-- `struct mheader`, field by field. -/
structure Mheader where
  prevblock : Nat
  pad : Nat
  magic1 : Nat
  nextblock : Nat
  inuse : Nat
  magic2 : Nat
  deriving DecidableEq

namespace Mheader

/-- `M_NEXTOFF(mh)`: the offset to the next header. -/
def nextoff (mh : Mheader) : Nat := mh.nextblock * mblocksize % wordMod

/-- `M_PREVOFF(mh)`: the offset back to the previous header. -/
def prevoff (mh : Mheader) : Nat := mh.prevblock * mblocksize % wordMod

/-- `M_SIZE(mh)`: the size of the data, `M_NEXTOFF(mh) - MBLOCKSIZE` as a
    `size_t`. -/
def size (mh : Mheader) : Nat := (mh.nextoff + wordMod - mblocksize) % wordMod

/-- `M_OK(mh)`: both magic numbers are right. -/
def ok (mh : Mheader) : Bool := mh.magic1 == mmagic && mh.magic2 == mmagic

end Mheader

/-- `M_MKFIELD(off)`: an offset as the value of `mh_nextblock` or
    `mh_prevblock`. -/
def mkfield (off : Nat) : Nat := off / mblocksize

/-- The header in the two words at `a`: `mh_prevblock:29`, `mh_pad:1`,
    `mh_magic1:2` in the first, `mh_nextblock:29`, `mh_inuse:1`,
    `mh_magic2:2` in the second, from the high bits down. -/
def readHeader (mem : Nat → Nat) (a : Nat) : Mheader :=
  ⟨mem a / 8, mem a / 4 % 2, mem a % 4, mem (a + 4) / 8, mem (a + 4) / 4 % 2, mem (a + 4) % 4⟩

/-- The two words of the header `mh` written at `a`. -/
def writeHeader (mem : Nat → Nat) (a : Nat) (mh : Mheader) : Nat → Nat :=
  Function.update (Function.update mem a (mh.prevblock * 8 + mh.pad * 4 + mh.magic1)) (a + 4)
    (mh.nextblock * 8 + mh.inuse * 4 + mh.magic2)

/-- The state of a process's heap: `__heapbase`, `__heaptop` and the memory,
    with the break that `sbrk` moves and its answers. -/
structure Heap where
  heapbase : Nat
  heaptop : Nat
  /-- The 32-bit word at each address that is a multiple of 4. -/
  mem : Nat → Nat
  /-- The process's break. -/
  brk : Nat
  /-- Whether the `n`-th `sbrk` fails. -/
  sbrkFail : Nat → Bool
  sbrks : Nat

/-- Computations on the heap; `malloc` and `free` throw nothing. -/
abbrev MallocM := KernM Heap Unit

/-- `sbrk(amount)`: the old break, or `none` for `(void *)-1`. The amount is
    an `intptr_t`: a `size_t` of `2^31` or more moves the break down. -/
def sbrk (amount : Nat) : MallocM (Option Nat) := do
  let h ← get
  if h.sbrkFail h.sbrks then
    set { h with sbrks := h.sbrks + 1 }
    pure none
  else
    set { h with sbrks := h.sbrks + 1, brk := (h.brk + amount) % wordMod }
    pure (some h.brk)

/-- The header at `a`. -/
def getHeader (a : Nat) : MallocM Mheader := do
  let h ← get
  pure (readHeader h.mem a)

/-- Write the header `mh` at `a`. -/
def setHeader (a : Nat) (mh : Mheader) : MallocM Unit :=
  modify fun h => { h with mem := writeHeader h.mem a mh }

/-- `__malloc_init()`. The checks of `MBLOCKSIZE` and `MBLOCKSHIFT` are on
    constants that pass. -/
def mallocInit : MallocM Unit := do
  let h ← get
  -- errx: "bad init call"
  if h.heapbase ≠ 0 ∨ h.heaptop ≠ 0 then fail
  let x ← sbrk 0
  match x with
  | none => fail
  | some x =>
    -- errx: "heap began at 0"
    if x = 0 then fail
    modify fun h => { h with heapbase := x, heaptop := x }
    if x % mblocksize ≠ 0 then do
      let adjust := mblocksize - x % mblocksize
      let y ← sbrk adjust
      match y with
      | none => fail
      | some y =>
        -- err: "heap base moved during init"
        if y ≠ x then fail
        modify fun h => { h with heapbase := x + adjust, heaptop := x + adjust }

/-- `__malloc_sbrk(size)`: memory at the top of the heap, or `none`. -/
def mallocSbrk (size : Nat) : MallocM (Option Nat) := do
  let x ← sbrk size
  match x with
  | none => pure none
  | some x => do
    let h ← get
    -- errx: "heap top moved itself"
    if x ≠ h.heaptop then fail
    set { h with heaptop := (h.heaptop + size) % wordMod }
    pure (some x)

/-- `__malloc_split(mh, size)`: leave `size` bytes of data in the block at
    `mh` and make the rest a free block, if there is room for a header and
    some data. -/
def mallocSplit (mh size : Nat) : MallocM Unit := do
  -- errx: "size passed to split"
  if size % mblocksize ≠ 0 then fail
  let hd ← getHeader mh
  if (hd.size + wordMod - size) % wordMod < 2 * mblocksize then pure ()
  else do
    let mhnext := (mh + hd.nextoff) % wordMod
    let oldsize := hd.size
    let hd' := { hd with nextblock := mkfield ((size + mblocksize) % wordMod) }
    setHeader mh hd'
    let mhnew := (mh + hd'.nextoff) % wordMod
    -- errx: "split screwed up?"
    if mhnew = mhnext then fail
    setHeader mhnew ⟨mkfield ((size + mblocksize) % wordMod), 0, mmagic,
      mkfield ((oldsize + wordMod - size) % wordMod), 0, mmagic⟩
    let h ← get
    if mhnext ≠ h.heaptop then do
      let nx ← getHeader mhnext
      setHeader mhnext { nx with prevblock := mkfield ((oldsize + wordMod - size) % wordMod) }

/-- The first-fit loop of `malloc` from the header at `i`, the previous header
    having `rightprevblock` as its `mh_nextblock`: the data of the block taken
    (`inl`), or the last `rightprevblock` at the top of the heap (`inr`).
    `fuel` bounds the headers visited. -/
def mallocLoop (size : Nat) : Nat → Nat → Nat → MallocM (Nat ⊕ Nat)
  | 0, _, _ => fail
  | fuel + 1, i, rightprevblock => do
    let h ← get
    if i < h.heaptop then do
      let mh := readHeader h.mem i
      -- errx: "bad magic bits", "bad previous-block size"
      if !mh.ok then fail
      if mh.prevblock ≠ rightprevblock then fail
      if mh.inuse ≠ 0 ∨ mh.size < size then
        mallocLoop size fuel ((i + mh.nextoff) % wordMod) mh.nextblock
      else do
        mallocSplit i size
        let hd ← getHeader i
        setHeader i { hd with inuse := 1 }
        pure (.inl ((i + mblocksize) % wordMod))
    -- errx: "ran off end"
    else if i ≠ h.heaptop then fail
    else pure (.inr rightprevblock)

/-- `malloc(size)`: the data of a block of at least `size` bytes, or `0` when
    `sbrk` fails. The loop of the heap walk has one round per 8 bytes of the
    heap and one more. -/
def malloc (size : Nat) : MallocM Nat := do
  let h ← get
  if h.heapbase = 0 then mallocInit
  let h ← get
  -- errx: "local data corrupt"
  if h.heapbase = 0 ∨ h.heaptop = 0 ∨ h.heapbase > h.heaptop then fail
  -- round the size up to a number of blocks
  let size := (size + mblocksize - 1) % wordMod / mblocksize * mblocksize
  let r ← mallocLoop size ((h.heaptop - h.heapbase) / mblocksize + 1) h.heapbase 0
  match r with
  | .inl p => pure p
  | .inr rightprevblock => do
    let x ← mallocSbrk ((size + mblocksize) % wordMod)
    match x with
    | none => pure 0
    | some mh => do
      setHeader mh ⟨rightprevblock, 0, mmagic, mkfield ((size + mblocksize) % wordMod), 1, mmagic⟩
      pure ((mh + mblocksize) % wordMod)

/-- `__malloc_deadbeef(ptr, size)`: the words of `size` bytes from `ptr` set
    to `0xdeadbeef`, one by one. -/
def deadbeef (ptr size : Nat) : MallocM Unit :=
  modify fun h => { h with
    mem := (List.range (size / 4)).foldl (fun mem i => Function.update mem (ptr + 4 * i) deadbeefWord)
      h.mem }

/-- `__malloc_trymerge(mh, mhnext)`: merge two adjacent free blocks. -/
def mallocTrymerge (mh mhnext : Nat) : MallocM Unit := do
  let a ← getHeader mh
  let b ← getHeader mhnext
  -- errx: "Heap corrupt"
  if a.nextblock ≠ b.prevblock then fail
  if a.inuse ≠ 0 ∨ b.inuse ≠ 0 then pure ()
  else do
    let mhnextnext := (mhnext + b.nextoff) % wordMod
    let merged := mkfield ((mblocksize + a.size + mblocksize + b.size) % wordMod)
    setHeader mh { a with nextblock := merged }
    let h ← get
    if mhnextnext ≠ h.heaptop then do
      let c ← getHeader mhnextnext
      setHeader mhnextnext { c with prevblock := merged }
    deadbeef mhnext mblocksize

/-- `free(x)`. -/
def free (x : Nat) : MallocM Unit := do
  if x = 0 then pure ()
  else do
    let h ← get
    -- errx: "local data corrupt"
    if h.heapbase = 0 ∨ h.heaptop = 0 ∨ h.heapbase > h.heaptop then fail
    -- errx: "Invalid pointer freed (out of range)"
    if x < h.heapbase ∨ x ≥ h.heaptop then fail
    let mh := (x + wordMod - mblocksize) % wordMod
    let hd ← getHeader mh
    -- errx: "corrupt header", "already free"
    if !hd.ok then fail
    if hd.inuse = 0 then fail
    setHeader mh { hd with inuse := 0 }
    deadbeef ((mh + mblocksize) % wordMod) hd.size
    let mhnext := (mh + hd.nextoff) % wordMod
    let h ← get
    if mhnext ≠ h.heaptop then mallocTrymerge mh mhnext
    let h ← get
    if mh ≠ h.heapbase then do
      let hd ← getHeader mh
      mallocTrymerge ((mh + wordMod - hd.prevoff) % wordMod) mh

/-! ## The blocks of a heap -/

/-- A block of the heap: the size of its data and whether it is in use. -/
structure Blk where
  size : Nat
  inuse : Bool

/-- The header at `a` is that of the block `b`, after a block whose
    `mh_nextblock` is `prev`. -/
def HeaderAt (mem : Nat → Nat) (a prev : Nat) (b : Blk) : Prop :=
  (readHeader mem a).ok = true ∧ (readHeader mem a).prevblock = prev ∧
    (readHeader mem a).nextblock * mblocksize = b.size + mblocksize ∧
    (readHeader mem a).inuse = if b.inuse then 1 else 0

/-- The blocks `bs` lie in memory from the header at `a` up to `top`, the
    block before them having `prev` as its `mh_nextblock`. -/
inductive Layout (mem : Nat → Nat) : Nat → Nat → List Blk → Nat → Prop
  | nil (a prev : Nat) : Layout mem a prev [] a
  | cons {a prev top : Nat} {b : Blk} {bs : List Blk} :
      HeaderAt mem a prev b →
      Layout mem (a + mblocksize + b.size) ((b.size + mblocksize) / mblocksize) bs top →
      Layout mem a prev (b :: bs) top

/-- Each block takes a header at least. -/
theorem Layout.le {mem : Nat → Nat} {a prev top : Nat} {bs : List Blk}
    (h : Layout mem a prev bs top) : a + mblocksize * bs.length ≤ top := by
  induction h with
  | nil => simp
  | cons _ _ ih =>
    simp only [List.length_cons]
    unfold mblocksize at *
    omega

section Loop

variable {h : Heap} {size : Nat}

/-- The first-fit walk over blocks all in use reaches the top of the heap
    and changes nothing. -/
theorem mallocLoop_inuse (htop : h.heaptop < wordMod) {a prev top : Nat} {bs : List Blk}
    (hl : Layout h.mem a prev bs top) (htopeq : top = h.heaptop) (hinuse : ∀ b ∈ bs, b.inuse = true) :
    ∀ fuel, bs.length < fuel → ∃ rpb, mallocLoop size fuel a prev h = some (.ok (.inr rpb), h) := by
  induction hl with
  | nil a prev =>
    intro fuel hfuel
    obtain ⟨fuel, rfl⟩ : ∃ f, fuel = f + 1 := ⟨fuel - 1, by simp at hfuel; omega⟩
    exact ⟨prev, by simp [mallocLoop, htopeq]⟩
  | @cons a prev top b bs hhd hrest ih =>
    intro fuel hfuel
    obtain ⟨fuel, rfl⟩ : ∃ f, fuel = f + 1 := ⟨fuel - 1, by simp at hfuel; omega⟩
    obtain ⟨hok, hprev, hnext, hused⟩ := hhd
    have hb : b.inuse = true := hinuse b List.mem_cons_self
    have hle := hrest.le
    -- the header is below the top, and the next one is where its size says
    have hlt : a < h.heaptop := by unfold mblocksize at *; omega
    have hstep : (a + (readHeader h.mem a).nextoff) % wordMod = a + mblocksize + b.size := by
      unfold Mheader.nextoff
      rw [hnext]
      unfold mblocksize at *
      rw [Nat.mod_eq_of_lt (show b.size + 8 < wordMod by omega),
        Nat.mod_eq_of_lt (show a + (b.size + 8) < wordMod by omega)]
      omega
    have hnb : (readHeader h.mem a).nextblock = (b.size + mblocksize) / mblocksize := by
      unfold mblocksize at *
      omega
    obtain ⟨rpb, hr⟩ := ih htopeq (fun b' hb' => hinuse b' (List.mem_cons_of_mem _ hb')) fuel
      (by simp at hfuel; omega)
    refine ⟨rpb, ?_⟩
    simp only [mallocLoop, get_bind, if_pos hlt, hok, hprev, hused, hb, hstep, hnb]
    simpa using hr

end Loop

/-! ## `malloc(0)` at the top of the heap -/

/-- On a heap whose blocks are all in use, a `malloc` whose size rounds to no
    blocks takes a block without data from `sbrk`, at the old top, and hands
    back the new `__heaptop`: an address past the end of the heap, which
    `free` refuses ("Invalid pointer ... (out of range)") and exits. This is
    `malloc(0)`, and `malloc(size)` for the sizes within 7 of `SIZE_MAX`,
    whose rounding wraps to `0`. -/
theorem malloc_zero_at_top {h : Heap} {bs : List Blk} {size : Nat} (hbase : h.heapbase ≠ 0)
    (hl : Layout h.mem h.heapbase 0 bs h.heaptop) (hinuse : ∀ b ∈ bs, b.inuse = true)
    (hround : (size + mblocksize - 1) % wordMod < mblocksize)
    (hbrk : h.brk = h.heaptop) (hsbrk : h.sbrkFail h.sbrks = false)
    (htop : h.heaptop + mblocksize < wordMod) :
    ∃ h', malloc size h = some (.ok h'.heaptop, h') ∧ h'.heaptop = h.heaptop + mblocksize ∧
      free h'.heaptop h' = none := by
  have hle := hl.le
  have hsize : (size + mblocksize - 1) % wordMod / mblocksize * mblocksize = 0 := by
    rw [Nat.div_eq_of_lt hround, Nat.zero_mul]
  obtain ⟨rpb, hloop⟩ : ∃ rpb, mallocLoop 0 ((h.heaptop - h.heapbase) / mblocksize + 1)
      h.heapbase 0 h = some (.ok (.inr rpb), h) :=
    mallocLoop_inuse (by omega) hl rfl hinuse _ (by unfold mblocksize at *; omega)
  have hsbrk' : mallocSbrk mblocksize h = some (.ok (some h.heaptop),
      { h with sbrks := h.sbrks + 1, brk := h.heaptop + mblocksize,
               heaptop := h.heaptop + mblocksize }) := by
    simp [mallocSbrk, sbrk, hsbrk, hbrk, Nat.mod_eq_of_lt htop]
  refine ⟨{ h with
      sbrks := h.sbrks + 1
      brk := h.heaptop + mblocksize
      heaptop := h.heaptop + mblocksize
      mem := writeHeader h.mem h.heaptop ⟨rpb, 0, mmagic, 1, 1, mmagic⟩ }, ?_, rfl, ?_⟩
  · have hcheck : ¬ (h.heaptop = 0 ∨ h.heaptop < h.heapbase) := by omega
    simp only [malloc, get_bind, hbase, if_false, false_or, gt_iff_lt, if_neg hcheck,
      hsize, bind_of_ok hloop,
      Nat.zero_add, Nat.mod_eq_of_lt (show mblocksize < wordMod by decide), bind_of_ok hsbrk']
    simp [setHeader, mkfield, mblocksize, Nat.mod_eq_of_lt (show h.heaptop + 8 < wordMod from htop)]
  · -- the pointer handed back is the top of the heap
    have hpos : h.heaptop + mblocksize ≠ 0 := by unfold mblocksize; omega
    have hcorrupt : ¬ (h.heapbase = 0 ∨ h.heaptop + mblocksize = 0 ∨
        h.heapbase > h.heaptop + mblocksize) := by omega
    have hrange : h.heaptop + mblocksize < h.heapbase ∨
        h.heaptop + mblocksize ≥ h.heaptop + mblocksize := .inr (Nat.le_refl _)
    rw [free, if_neg hpos]
    simp only [get_bind]
    rw [if_neg hcorrupt, if_pos hrange, fail_bind]

/-- A heap that `__malloc_init` has set up and nothing has grown, in a process
    whose `sbrk` always succeeds. -/
def freshHeap : Heap := ⟨0x10000000, 0x10000000, fun _ => 0, 0x10000000, fun _ => false, 1⟩

theorem freshHeap_malloc_zero :
    ∃ h', malloc 0 freshHeap = some (.ok h'.heaptop, h') ∧
      h'.heaptop = freshHeap.heaptop + mblocksize ∧ free h'.heaptop h' = none :=
  malloc_zero_at_top (by decide) (.nil _ _) (fun _ hb => by simp at hb) (by decide) rfl rfl
    (by decide)

end Os161.Malloc
