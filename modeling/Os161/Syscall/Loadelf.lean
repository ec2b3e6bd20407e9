import Os161.Vm.Fault
import Os161.Vm.Copyinout
import Os161.Sfs.Fs
import Os161.Lib.Bytes

/-!
# `load_elf`

`load_elf(v, &entrypoint)` (kern/syscall/loadelf.c) reads the executable
header, checks that the file is a 32-bit big-endian ELF executable for MIPS,
then makes two passes over the `e_phnum` program headers, each read from
`e_phoff + i*e_phentsize`. The first defines a region with
`as_define_region(as, p_vaddr, p_memsz, ...)` for each `PT_LOAD` segment
(skipping `PT_NULL`, `PT_PHDR` and `PT_MIPS_REGINFO`, and rejecting any other
type with `ENOEXEC`); then `as_prepare_load` gives every page a frame; the
second pass loads each `PT_LOAD` segment with `load_segment`, which reads
`p_filesz` bytes (at most `p_memsz`) from `p_offset` of the file into user
space at `p_vaddr`. Last, `loadCode_done = 1` makes the code read-only.

The file is a size and its bytes (`Exe`); a read transfers what the file holds
from the offset on, as `sfs_io` does, and a read that falls short is
`ENOEXEC`. A read into user space goes through `uiomove` and `copyout` in the
pieces `sfs_io` moves, up to each block boundary of the file: `copyout` checks
each piece with `copycheck` and then stores its bytes, each store reaching
the frame `vm_fault` maps its page to, or failing (`EFAULT`) where `vm_fault`
fails, or stopping the machine where `vm_fault` does. `kmalloc`, called for
each region's page table and for the stack's, returns what `tables` says for
the `n`-th call.

`as_define_region` rounds a region to whole pages in 32 bits, so a segment
whose `p_memsz` (with the offset of `p_vaddr` in its page) is `0`, or within a
page of `2^32`, gets a region of no pages (`regionPages_eq_zero_iff`). The
`KASSERT`s of `vm_fault` then fail on every fault through the space:

* `load_elf_panics_on_empty_region`: for every executable with two `PT_LOAD`
  segments, the first of no pages and no file data, the second with data to
  load in user space, `load_elf` stops the machine at its first store (when
  `kmalloc` and the coremap give it memory);
* `loadElf_of_bss`: with no file data in either segment, `load_elf` returns
  `0` with the two regions as `as_define_region` made them;
* `vm_fault_panics_after_empty_region`: when the first of those has no pages,
  every read or write fault through the space `load_elf` returned stops the
  machine.
-/

namespace Os161.Loadelf

open Dumbvm KernM Bytes

/-! ## The executable and its headers -/

/-- The executable file as `VOP_READ` reads it: its size and its bytes. -/
structure Exe where
  size : Nat
  data : Nat → UInt8

/-- How many of `len` bytes at `offset` a read transfers: `sfs_io` stops at the
    end of the file. -/
def Exe.avail (f : Exe) (offset len : Nat) : Nat := min len (f.size - offset)

/-- `sizeof(Elf_Ehdr)`. -/
def ehdrSize : Nat := 52

/-- `sizeof(Elf_Phdr)`. -/
def phdrSize : Nat := 32

/-- The fields of `Elf_Ehdr` that `load_elf` reads. -/
structure Ehdr where
  ident : Nat → UInt8
  type : Nat
  machine : Nat
  version : Nat
  entry : Nat
  phoff : Nat
  phentsize : Nat
  phnum : Nat

/-- `Elf_Ehdr` from its bytes, most significant first as on MIPS. -/
def Ehdr.decode (b : Nat → UInt8) : Ehdr where
  ident := b
  type := getBE b 16 2
  machine := getBE b 18 2
  version := getBE b 20 4
  entry := getBE b 24 4
  phoff := getBE b 28 4
  phentsize := getBE b 42 2
  phnum := getBE b 44 2

/-- The test of `load_elf` on the header: a 32-bit, big-endian, version-1 ELF
    executable for MIPS. -/
def Ehdr.Ok (eh : Ehdr) : Prop :=
  -- `ELFMAG0` to `ELFMAG3`, `ELFCLASS32`, `ELFDATA2MSB`, `EV_CURRENT`
  eh.ident 0 = 0x7f ∧ eh.ident 1 = 0x45 ∧ eh.ident 2 = 0x4c ∧ eh.ident 3 = 0x46 ∧
    eh.ident 4 = 1 ∧ eh.ident 5 = 2 ∧ eh.ident 6 = 1 ∧
    -- `EV_CURRENT`, `ET_EXEC`, `EM_MACHINE` (`EM_MIPS`)
    eh.version = 1 ∧ eh.type = 2 ∧ eh.machine = 8

instance (eh : Ehdr) : Decidable eh.Ok := inferInstanceAs (Decidable (_ ∧ _))

/-- The fields of `Elf_Phdr` that `load_elf` reads. -/
structure Phdr where
  type : Nat
  offset : Nat
  vaddr : Nat
  filesz : Nat
  memsz : Nat

/-- `Elf_Phdr` from its bytes. -/
def Phdr.decode (b : Nat → UInt8) : Phdr where
  type := getBE b 0 4
  offset := getBE b 4 4
  vaddr := getBE b 8 4
  filesz := getBE b 16 4
  memsz := getBE b 20 4

/-- `PT_NULL`. -/
def ptNull : Nat := 0

/-- `PT_LOAD`. -/
def ptLoad : Nat := 1

/-- `PT_PHDR`. -/
def ptPhdr : Nat := 6

/-- `PT_MIPS_REGINFO`. -/
def ptMipsReginfo : Nat := 0x70000000

/-! ## The run -/

/-- What `load_elf` changes: the address space, the frames and bytes of
    physical memory, and how many `kmalloc`s it has made. -/
structure LoadState where
  as : Addrspace
  ph : Phys
  kmallocs : Nat

/-- `VOP_READ` of the `len`-byte structure at `offset` of the file into the
    kernel (`uio_kinit`): its bytes, or `ENOEXEC` on a short read. -/
def readStruct (f : Exe) (offset len : Nat) : KernM LoadState Errno (Nat → UInt8) :=
  -- `ku.uio_resid != 0`
  if f.avail offset len ≠ len then throw .enoexec else pure fun i => f.data (offset + i)

/-- The program header `i`, read from `e_phoff + i*e_phentsize`: an `int`
    product (undefined past `INT_MAX`), then a 32-bit sum. -/
def readPhdr (f : Exe) (eh : Ehdr) (i : Nat) : KernM LoadState Errno Phdr := do
  if 2 ^ 31 ≤ i * eh.phentsize then fail
  let b ← readStruct f ((eh.phoff + i * eh.phentsize) % 2 ^ 32) phdrSize
  pure (Phdr.decode b)

/-- `as_define_region(as, vaddr, sz, ...)`, its page table from the next
    `kmalloc` (not called when there is no free region). -/
def defineRegion (tables : Nat → Option PageTable) (vaddr sz : Nat) : KernM LoadState Errno Unit :=
  fun s =>
    match asDefineRegion s.as vaddr sz (tables s.kmallocs) with
    | .ok as => some (.ok (), { s with as := as, kmallocs := s.kmallocs + 1 })
    | .error e => some (.error e, s)

/-- A round of the first pass: define the region of a `PT_LOAD` segment. -/
def definePhdr (f : Exe) (tables : Nat → Option PageTable) (eh : Ehdr) (i : Nat) :
    KernM LoadState Errno Unit := do
  let ph ← readPhdr f eh i
  if ph.type = ptNull ∨ ph.type = ptPhdr ∨ ph.type = ptMipsReginfo then pure ()
  else if ph.type = ptLoad then defineRegion tables ph.vaddr ph.memsz
  -- "unknown segment type"
  else throw .enoexec

/-- `as_prepare_load(as)`, the stack's page table from the next `kmalloc`. -/
def prepareLoad (tables : Nat → Option PageTable) : KernM LoadState Errno Unit := fun s =>
  (asPrepareLoad s.as (tables s.kmallocs) s.ph).map fun r =>
    (r.1, { s with as := r.2.1, ph := r.2.2, kmallocs := s.kmallocs + 1 })

/-- A store of `memcpy` into user space at `a`: into the frame `vm_fault` maps
    the page to (the TLB holds only what `vm_fault` wrote from these tables);
    `EFAULT` (`copyfail`) where `vm_fault` returns an error or the page is
    read-only, and a stop where `vm_fault` stops. -/
def userStore (as : Addrspace) (a : Nat) (c : UInt8) : KernM Mem Errno Unit := fun mem =>
  match vmTranslate as (pageFrame a) with
  | none => none
  | some (.error _) => some (.error .efault, mem)
  | some (.ok (paddr, ro)) =>
    if ro then some (.error .efault, mem)
    else some (.ok (), Function.update mem (paddr + a % pageSize) c)

/-- `copyout(src, userdest, len)` into the address space `as`. -/
def copyoutAs (as : Addrspace) (src : Nat → UInt8) (userdest len : Nat) : KernM Mem Errno Unit :=
  match Copyinout.copycheck (UInt32.ofNat userdest) (UInt32.ofNat len) with
  | .error e => throw e
  | .ok stoplen =>
    if stoplen ≠ UInt32.ofNat len then throw .efault
    else forLoop (fun j _ => userStore as (userdest + j) (src j)) 0 len ()

/-- The read of `sfs_io` into user space at `vaddr` of the `n` bytes of the
    file from `offset + pos` on: a `copyout` for each piece up to a block
    boundary of the file. One round of `fuel` a piece. -/
def readPieces (f : Exe) (as : Addrspace) (offset vaddr : Nat) : Nat → Nat → Nat → KernM Mem Errno Unit
  | 0, _, _ => fail
  | fuel + 1, pos, n =>
    if n = 0 then pure ()
    else
      let len := min (Sfs.sfsBlocksize - (offset + pos) % Sfs.sfsBlocksize) n
      copyoutAs as (fun j => f.data (offset + pos + j)) (vaddr + pos) len >>= fun _ =>
        readPieces f as offset vaddr fuel (pos + len) (n - len)

/-- A run on physical memory, inside `load_elf`. -/
def onMem (m : KernM Mem Errno Unit) : KernM LoadState Errno Unit := fun s =>
  (m s.ph.mem).map fun r => (r.1, { s with ph := { s.ph with mem := r.2 } })

/-- `load_segment(as, v, offset, vaddr, memsize, filesize, ...)`. -/
def loadSegment (f : Exe) (offset vaddr memsize filesize : Nat) : KernM LoadState Errno Unit := do
  -- "segment filesize > segment memsize": only `memsize` bytes are read
  let filesize := min filesize memsize
  let s ← get
  let n := f.avail offset filesize
  onMem (readPieces f s.as offset vaddr (n + 1) 0 n)
  -- `u.uio_resid != 0`: "short read on segment"
  if n ≠ filesize then throw .enoexec

/-- A round of the second pass: load a `PT_LOAD` segment. -/
def loadPhdr (f : Exe) (eh : Ehdr) (i : Nat) : KernM LoadState Errno Unit := do
  let ph ← readPhdr f eh i
  if ph.type = ptNull ∨ ph.type = ptPhdr ∨ ph.type = ptMipsReginfo then pure ()
  else if ph.type = ptLoad then loadSegment f ph.offset ph.vaddr ph.memsz ph.filesz
  else throw .enoexec

/-- `load_elf(v, &entrypoint)`: the entry point. -/
def loadElf (f : Exe) (tables : Nat → Option PageTable) : KernM LoadState Errno Nat := do
  let b ← readStruct f 0 ehdrSize
  let eh := Ehdr.decode b
  if ¬ eh.Ok then throw .enoexec
  forLoop (fun i _ => definePhdr f tables eh i) 0 eh.phnum ()
  prepareLoad tables
  forLoop (fun i _ => loadPhdr f eh i) 0 eh.phnum ()
  -- `as_complete_load` returns 0; then `loadCode_done = 1` (and `as_activate`)
  modify fun s => { s with as := loadElfDone s.as }
  pure eh.entry

/-! ## The headers as `load_elf` reads them -/

namespace Exe

/-- The executable header. -/
def ehdr (f : Exe) : Ehdr := Ehdr.decode f.data

/-- Where program header `i` is read from. -/
def phdrOffset (f : Exe) (i : Nat) : Nat := (f.ehdr.phoff + i * f.ehdr.phentsize) % 2 ^ 32

/-- Program header `i`. -/
def phdr (f : Exe) (i : Nat) : Phdr := Phdr.decode fun j => f.data (f.phdrOffset i + j)

/-- Program header `i` is read without undefined behaviour, and in full. -/
def PhdrReadable (f : Exe) (i : Nat) : Prop :=
  i * f.ehdr.phentsize < 2 ^ 31 ∧ f.avail (f.phdrOffset i) phdrSize = phdrSize

instance (f : Exe) (i : Nat) : Decidable (f.PhdrReadable i) := inferInstanceAs (Decidable (_ ∧ _))

end Exe

section Reads

variable {f : Exe} {s : LoadState}

theorem readStruct_of_avail {offset len : Nat} (h : f.avail offset len = len) :
    readStruct f offset len s = some (.ok fun i => f.data (offset + i), s) := by
  simp [readStruct, h]

theorem readPhdr_of {i : Nat} (h : f.PhdrReadable i) : readPhdr f f.ehdr i s = some (.ok (f.phdr i), s) := by
  unfold readPhdr
  rw [if_neg (Nat.not_le.2 h.1)]
  exact bind_of_ok (readStruct_of_avail h.2) _

/-- A `PT_LOAD` header in the first pass: its region is defined. -/
theorem definePhdr_of_load {tables : Nat → Option PageTable} {i : Nat} (h : f.PhdrReadable i)
    (ht : (f.phdr i).type = ptLoad) :
    definePhdr f tables f.ehdr i s = defineRegion tables (f.phdr i).vaddr (f.phdr i).memsz s := by
  have hskip : ¬ ((f.phdr i).type = ptNull ∨ (f.phdr i).type = ptPhdr ∨ (f.phdr i).type = ptMipsReginfo) := by
    rw [ht]
    decide
  unfold definePhdr
  rw [bind_of_ok (readPhdr_of h), if_neg hskip, if_pos ht]

/-- A `PT_LOAD` header in the second pass: its segment is loaded. -/
theorem loadPhdr_of_load {i : Nat} (h : f.PhdrReadable i) (ht : (f.phdr i).type = ptLoad) :
    loadPhdr f f.ehdr i s = loadSegment f (f.phdr i).offset (f.phdr i).vaddr (f.phdr i).memsz (f.phdr i).filesz s := by
  have hskip : ¬ ((f.phdr i).type = ptNull ∨ (f.phdr i).type = ptPhdr ∨ (f.phdr i).type = ptMipsReginfo) := by
    rw [ht]
    decide
  unfold loadPhdr
  rw [bind_of_ok (readPhdr_of h), if_neg hskip, if_pos ht]

end Reads

/-! ## The regions -/

/-- The pages of the region `as_define_region` makes for `sz` bytes at `vaddr`:
    `sz + (vaddr & ~PAGE_FRAME)` rounded up to a page, both sums in 32 bits. -/
def regionPages (vaddr sz : Nat) : Nat :=
  ((sz + vaddr % pageSize) % 2 ^ 32 + pageSize - 1) % 2 ^ 32 / pageSize * pageSize / pageSize

/-- `as_define_region` makes a region of no pages exactly when the size (with
    the offset of `vaddr` in its page) is `0` modulo `2^32`, or so close to
    `2^32` that rounding it up wraps. -/
theorem regionPages_eq_zero_iff {vaddr sz : Nat} :
    regionPages vaddr sz = 0 ↔
      (sz + vaddr % pageSize) % 2 ^ 32 = 0 ∨ 2 ^ 32 - pageSize < (sz + vaddr % pageSize) % 2 ^ 32 := by
  unfold regionPages pageSize
  have hx := Nat.mod_lt (sz + vaddr % 4096) (show 0 < 2 ^ 32 by decide)
  generalize (sz + vaddr % 4096) % 2 ^ 32 = x at hx ⊢
  rw [Nat.mul_div_cancel _ (by decide)]
  omega

section Define

variable {tables : Nat → Option PageTable} {vaddr sz : Nat} {s : LoadState}

/-- The first region defined fills the code region. -/
theorem defineRegion_first (hv : s.as.vbase1 = 0) :
    defineRegion tables vaddr sz s =
      some (.ok (), { s with
        as := { s.as with vbase1 := vaddr / pageSize * pageSize, npages1 := regionPages vaddr sz,
                          ptable1 := tables s.kmallocs }
        kmallocs := s.kmallocs + 1 }) := by
  simp [defineRegion, asDefineRegion, hv, regionPages]

/-- With the code region taken, the next region fills the data region. -/
theorem defineRegion_second (hv1 : s.as.vbase1 ≠ 0) (hv2 : s.as.vbase2 = 0) :
    defineRegion tables vaddr sz s =
      some (.ok (), { s with
        as := { s.as with vbase2 := vaddr / pageSize * pageSize, npages2 := regionPages vaddr sz,
                          ptable2 := tables s.kmallocs }
        kmallocs := s.kmallocs + 1 }) := by
  simp [defineRegion, asDefineRegion, hv1, hv2, regionPages]

end Define

/-! ## Loading a segment -/

section Segment

variable {f : Exe} {s : LoadState} {offset vaddr memsz filesz : Nat}

/-- `copycheck` passes a nonempty piece that ends in user space whole. -/
theorem copycheck_of_user {p len : Nat} (hlen : 0 < len) (h : p + len ≤ userspacetop) :
    Copyinout.copycheck (UInt32.ofNat p) (UInt32.ofNat len) = .ok (UInt32.ofNat len) := by
  have htop := Copyinout.userspacetop_lt
  have hp : (UInt32.ofNat p).toNat = p := Copyinout.toNat_ofNat_of_lt (by omega)
  have hl : (UInt32.ofNat len).toNat = len := Copyinout.toNat_ofNat_of_lt (by omega)
  obtain ⟨st, hst⟩ := @Copyinout.copycheck_ok_of (UInt32.ofNat p) (UInt32.ofNat len)
    (by rw [hp, hl]; unfold Copyinout.Wraps; omega) (by rw [hp]; omega)
  rw [hst, (Copyinout.copycheck_stoplen_eq_iff hst).2 (by rw [hp, hl]; omega)]

/-- A store through a space that fails a `KASSERT` of `vm_fault` stops. -/
theorem userStore_of_not_asserts {as : Addrspace} (hA : ¬ as.FaultAsserts) (a : Nat) (c : UInt8) (mem : Mem) :
    userStore as a c mem = none := by
  simp [userStore, vmTranslate_of_not_asserts hA]

theorem onMem_pure (s : LoadState) : onMem (pure ()) s = some (.ok (), s) := rfl

/-- A segment with no bytes to read changes nothing. -/
theorem loadSegment_of_no_data (h : min filesz memsz = 0) :
    loadSegment f offset vaddr memsz filesz s = some (.ok (), s) := by
  simp only [loadSegment, get_bind, h, Exe.avail, Nat.zero_min, readPieces, if_pos]
  rw [bind_of_ok (onMem_pure s)]
  rfl

/-- A segment with bytes to read, whose first piece lies in user space, stops
    the machine at its first store when the space fails a `KASSERT` of
    `vm_fault`. -/
theorem loadSegment_of_not_asserts (hA : ¬ s.as.FaultAsserts) (hn : 0 < f.avail offset (min filesz memsz))
    (hv : vaddr + min filesz memsz ≤ userspacetop) :
    loadSegment f offset vaddr memsz filesz s = none := by
  set n := f.avail offset (min filesz memsz) with hn_def
  have hnle : n ≤ min filesz memsz := Nat.min_le_left _ _
  set len := min (Sfs.sfsBlocksize - (offset + 0) % Sfs.sfsBlocksize) n with hlen_def
  have hlen : 0 < len := by
    have : (offset + 0) % Sfs.sfsBlocksize < Sfs.sfsBlocksize := Nat.mod_lt _ (by decide)
    omega
  -- the first piece passes `copycheck`, and its first store stops
  have hcopy : copyoutAs s.as (fun j => f.data (offset + 0 + j)) (vaddr + 0) len s.ph.mem = none := by
    obtain ⟨l, hl⟩ : ∃ l, len = l + 1 := ⟨len - 1, by omega⟩
    rw [copyoutAs, copycheck_of_user hlen (by omega)]
    simp only [ne_eq, not_true_eq_false, if_false, hl, forLoop_succ]
    exact bind_of_none (userStore_of_not_asserts hA _ _ _) _
  have hread : readPieces f s.as offset vaddr (n + 1) 0 n s.ph.mem = none := by
    rw [readPieces, if_neg (by omega)]
    exact bind_of_none hcopy _
  simp only [loadSegment, get_bind]
  rw [← hn_def]
  show (onMem _ >>= _) s = none
  simp only [bind_apply, onMem, hread, Option.map_none]

end Segment

/-! ## A run of `load_elf` -/

section Run

variable {f : Exe} {tables : Nat → Option PageTable} {s : LoadState}

/-- `load_elf` of a file with a valid header: the two passes, with
    `as_prepare_load` between them. -/
theorem loadElf_of_ehdr (hsize : ehdrSize ≤ f.size) (hok : f.ehdr.Ok) :
    loadElf f tables s =
      (forLoop (fun i _ => definePhdr f tables f.ehdr i) 0 f.ehdr.phnum () >>= fun _ =>
        prepareLoad tables >>= fun _ =>
        forLoop (fun i _ => loadPhdr f f.ehdr i) 0 f.ehdr.phnum () >>= fun _ =>
        modify (fun s : LoadState => { s with as := loadElfDone s.as }) >>= fun _ =>
        pure f.ehdr.entry) s := by
  have hhdr : readStruct f 0 ehdrSize s = some (.ok fun i => f.data (0 + i), s) :=
    readStruct_of_avail (by unfold Exe.avail; omega)
  have hdecode : Ehdr.decode (fun i => f.data (0 + i)) = f.ehdr := by
    simp only [Nat.zero_add]
    rfl
  unfold loadElf
  rw [bind_of_ok hhdr]
  dsimp only
  rw [hdecode, if_neg (not_not.2 hok)]

/-- The space the first pass makes of two `PT_LOAD` headers, with the tables
    of the `n`-th and next `kmalloc`: the code region, then the data region. -/
def twoRegions (f : Exe) (tables : Nat → Option PageTable) (n : Nat) : Addrspace :=
  { asCreate with
    vbase1 := (f.phdr 0).vaddr / pageSize * pageSize,
    npages1 := regionPages (f.phdr 0).vaddr (f.phdr 0).memsz, ptable1 := tables n,
    vbase2 := (f.phdr 1).vaddr / pageSize * pageSize,
    npages2 := regionPages (f.phdr 1).vaddr (f.phdr 1).memsz, ptable2 := tables (n + 1) }

/-- The first pass over two `PT_LOAD` headers from a fresh space: the first
    region becomes the code region, the second the data region. -/
theorem firstPass_of_two_loads (hfresh : s.as = asCreate) (hread : ∀ i < 2, f.PhdrReadable i)
    (hload : ∀ i < 2, (f.phdr i).type = ptLoad) (hbase : pageSize ≤ (f.phdr 0).vaddr) :
    forLoop (fun i _ => definePhdr f tables f.ehdr i) 0 2 () s =
      some (.ok (), { s with as := twoRegions f tables s.kmallocs, kmallocs := s.kmallocs + 2 }) := by
  have hv1 : (f.phdr 0).vaddr / pageSize * pageSize ≠ 0 := by
    unfold pageSize at *
    omega
  rw [forLoop_succ, bind_of_ok ((definePhdr_of_load (hread 0 (by decide)) (hload 0 (by decide))).trans
      (defineRegion_first (by rw [hfresh]; rfl))),
    forLoop_succ, bind_of_ok ((definePhdr_of_load (hread 1 (by decide)) (hload 1 (by decide))).trans
      (defineRegion_second hv1 (by rw [hfresh]; rfl)))]
  rw [hfresh]
  rfl

/-- `as_prepare_load` of a space with both region tables, the stack's table
    from `kmalloc` and enough free frames: it gives every table its frames and
    changes nothing else of the space. -/
theorem prepareLoad_of_freeFrom (h1 : s.as.ptable1.isSome) (h2 : s.as.ptable2.isSome)
    (h3 : (tables s.kmallocs).isSome) {k : Int} (hfree : FreeFrom s.ph.vm k)
    (hn : k + s.as.npages1 + s.as.npages2 + dumbvmStackpages ≤ s.ph.vm.coreMap.size) :
    ∃ p1 p2 p3 ph', prepareLoad tables s =
      some (.ok (), { s with
        as := { s.as with ptable1 := some p1, ptable2 := some p2, stackptable := some p3 },
        ph := ph', kmallocs := s.kmallocs + 1 }) := by
  obtain ⟨q1, hq1⟩ := Option.isSome_iff_exists.1 h1
  obtain ⟨q2, hq2⟩ := Option.isSome_iff_exists.1 h2
  obtain ⟨q3, hq3⟩ := Option.isSome_iff_exists.1 h3
  obtain ⟨as', ph', hprep⟩ := asPrepareLoad_freeFrom s.as q3 hq1 hq2 hfree hn
  obtain ⟨p1, p2, p3, has'⟩ := asPrepareLoad_ok hprep
  refine ⟨p1, p2, p3, ph', ?_⟩
  simp only [prepareLoad, hq3, hprep, Option.map_some, has']

/-- The second pass over two `PT_LOAD` headers loads the two segments. -/
theorem secondPass_of_two_loads (hread : ∀ i < 2, f.PhdrReadable i)
    (hload : ∀ i < 2, (f.phdr i).type = ptLoad) :
    forLoop (fun i _ => loadPhdr f f.ehdr i) 0 2 () =
      (loadSegment f (f.phdr 0).offset (f.phdr 0).vaddr (f.phdr 0).memsz (f.phdr 0).filesz >>= fun _ =>
        loadSegment f (f.phdr 1).offset (f.phdr 1).vaddr (f.phdr 1).memsz (f.phdr 1).filesz >>= fun _ =>
        pure ()) := by
  have hl : ∀ i < 2, loadPhdr f f.ehdr i =
      loadSegment f (f.phdr i).offset (f.phdr i).vaddr (f.phdr i).memsz (f.phdr i).filesz :=
    fun i hi => funext fun _ => loadPhdr_of_load (hread i hi) (hload i hi)
  show loadPhdr f f.ehdr 0 >>= (fun _ => loadPhdr f f.ehdr 1 >>= fun _ => pure ()) = _
  rw [hl 0 (by decide), hl 1 (by decide)]

/-- An executable with a valid header and two readable `PT_LOAD` program
    headers, the first at a nonzero page, loaded into a fresh space with
    `kmalloc` and the coremap giving memory: `load_elf` makes the first segment
    the code region and the second the data region, gives every page a frame,
    then loads the two segments. -/
theorem loadElf_two_loads (hfresh : s.as = asCreate) (hsize : ehdrSize ≤ f.size) (hok : f.ehdr.Ok)
    (hnum : f.ehdr.phnum = 2) (hread : ∀ i < 2, f.PhdrReadable i)
    (hload : ∀ i < 2, (f.phdr i).type = ptLoad) (hbase : pageSize ≤ (f.phdr 0).vaddr)
    (htables : ∀ n, (tables n).isSome) {k : Int} (hfree : FreeFrom s.ph.vm k)
    (hframes : k + regionPages (f.phdr 0).vaddr (f.phdr 0).memsz +
      regionPages (f.phdr 1).vaddr (f.phdr 1).memsz + dumbvmStackpages ≤ s.ph.vm.coreMap.size) :
    ∃ t : LoadState, t.as.vbase1 = (f.phdr 0).vaddr / pageSize * pageSize ∧
      t.as.npages1 = regionPages (f.phdr 0).vaddr (f.phdr 0).memsz ∧
      t.as.vbase2 = (f.phdr 1).vaddr / pageSize * pageSize ∧
      t.as.npages2 = regionPages (f.phdr 1).vaddr (f.phdr 1).memsz ∧
      t.as.ptable1.isSome ∧ t.as.ptable2.isSome ∧ t.as.stackptable.isSome ∧ t.as.loadCodeDone = 0 ∧
      loadElf f tables s =
        (loadSegment f (f.phdr 0).offset (f.phdr 0).vaddr (f.phdr 0).memsz (f.phdr 0).filesz >>= fun _ =>
          loadSegment f (f.phdr 1).offset (f.phdr 1).vaddr (f.phdr 1).memsz (f.phdr 1).filesz >>= fun _ =>
          modify (fun s : LoadState => { s with as := loadElfDone s.as }) >>= fun _ =>
          pure f.ehdr.entry) t := by
  have hpass1 := @firstPass_of_two_loads f tables s hfresh hread hload hbase
  -- the space after the first pass, with both region tables from `kmalloc`
  obtain ⟨p1, p2, p3, ph', hprep⟩ :=
    @prepareLoad_of_freeFrom tables { s with as := twoRegions f tables s.kmallocs, kmallocs := s.kmallocs + 2 }
      (htables s.kmallocs) (htables (s.kmallocs + 1)) (htables (s.kmallocs + 2)) k hfree hframes
  refine ⟨{ s with
    as := { twoRegions f tables s.kmallocs with
      ptable1 := some p1, ptable2 := some p2, stackptable := some p3 },
    ph := ph', kmallocs := s.kmallocs + 2 + 1 }, rfl, rfl, rfl, rfl, rfl, rfl, rfl, rfl, ?_⟩
  rw [loadElf_of_ehdr hsize hok, hnum, bind_of_ok hpass1, bind_of_ok hprep,
    secondPass_of_two_loads hread hload]
  simp only [bind_assoc, pure_bind]

/-- With no file data in either segment, `load_elf` returns the entry point,
    with the regions as `as_define_region` made them. -/
theorem loadElf_of_bss (hfresh : s.as = asCreate) (hsize : ehdrSize ≤ f.size) (hok : f.ehdr.Ok)
    (hnum : f.ehdr.phnum = 2) (hread : ∀ i < 2, f.PhdrReadable i)
    (hload : ∀ i < 2, (f.phdr i).type = ptLoad) (hbase : pageSize ≤ (f.phdr 0).vaddr)
    (hbss : ∀ i < 2, min (f.phdr i).filesz (f.phdr i).memsz = 0)
    (htables : ∀ n, (tables n).isSome) {k : Int} (hfree : FreeFrom s.ph.vm k)
    (hframes : k + regionPages (f.phdr 0).vaddr (f.phdr 0).memsz +
      regionPages (f.phdr 1).vaddr (f.phdr 1).memsz + dumbvmStackpages ≤ s.ph.vm.coreMap.size) :
    ∃ t : LoadState, loadElf f tables s = some (.ok f.ehdr.entry, t) ∧
      t.as.vbase1 = (f.phdr 0).vaddr / pageSize * pageSize ∧
      t.as.npages1 = regionPages (f.phdr 0).vaddr (f.phdr 0).memsz ∧
      t.as.vbase2 = (f.phdr 1).vaddr / pageSize * pageSize ∧
      t.as.npages2 = regionPages (f.phdr 1).vaddr (f.phdr 1).memsz ∧
      t.as.ptable1.isSome ∧ t.as.ptable2.isSome ∧ t.as.stackptable.isSome ∧ t.as.loadCodeDone = 1 := by
  obtain ⟨t, hv1, hn1, hv2, hn2, hp1, hp2, hp3, -, hrun⟩ :=
    loadElf_two_loads hfresh hsize hok hnum hread hload hbase htables hfree hframes
  refine ⟨{ t with as := loadElfDone t.as }, ?_, hv1, hn1, hv2, hn2, hp1, hp2, hp3, rfl⟩
  rw [hrun, bind_of_ok (loadSegment_of_no_data (hbss 0 (by decide))),
    bind_of_ok (loadSegment_of_no_data (hbss 1 (by decide)))]
  rfl

end Run

/-! ## A region of no pages -/

theorem load_elf_panics_on_empty_region (f : Exe) (tables : Nat → Option PageTable) (s : LoadState)
    (hfresh : s.as = asCreate) (hsize : ehdrSize ≤ f.size) (hok : f.ehdr.Ok)
    (hnum : f.ehdr.phnum = 2) (hread : ∀ i < 2, f.PhdrReadable i)
    (hload : ∀ i < 2, (f.phdr i).type = ptLoad) (hbase : pageSize ≤ (f.phdr 0).vaddr)
    (hempty : regionPages (f.phdr 0).vaddr (f.phdr 0).memsz = 0) (hbss : (f.phdr 0).filesz = 0)
    (hdata : 0 < f.avail (f.phdr 1).offset (min (f.phdr 1).filesz (f.phdr 1).memsz))
    (huser : (f.phdr 1).vaddr + min (f.phdr 1).filesz (f.phdr 1).memsz ≤ userspacetop)
    (htables : ∀ n, (tables n).isSome) {k : Int} (hfree : FreeFrom s.ph.vm k)
    (hframes : k + regionPages (f.phdr 1).vaddr (f.phdr 1).memsz + dumbvmStackpages ≤ s.ph.vm.coreMap.size) :
    loadElf f tables s = none := by
  obtain ⟨t, -, hn1, -, -, -, -, -, -, hrun⟩ :=
    loadElf_two_loads hfresh hsize hok hnum hread hload hbase htables hfree
      (by rw [hempty, Nat.cast_zero, Int.add_zero]; exact hframes)
  -- the code region has no pages: `KASSERT(as->as_npages1 != 0)` fails
  have hA : ¬ t.as.FaultAsserts := fun hA => hA.npages1 (hn1.trans hempty)
  rw [hrun, bind_of_ok (loadSegment_of_no_data (by rw [hbss, Nat.zero_min])),
    bind_of_none (loadSegment_of_not_asserts hA hdata huser)]

/-- The bytes of an executable whose two `PT_LOAD` segments are an empty one
    at `0x400000` and one of `filesz1` bytes of the file at `0x10000000`, a
    page in memory. -/
def emptyCodeBytes (filesz1 : Nat) : Nat → UInt8 :=
  -- `ELFMAG`, `ELFCLASS32`, `ELFDATA2MSB`, `EV_CURRENT`; `ET_EXEC`, `EM_MIPS`, `EV_CURRENT`
  putBE 0x7f454c46 0 4 <| putBE 0x010201 4 3 <| putBE 2 16 2 <| putBE 8 18 2 <| putBE 1 20 4 <|
  -- `e_entry`, `e_phoff`, `e_phentsize`, `e_phnum`
  putBE 0x400000 24 4 <| putBE 52 28 4 <| putBE 32 42 2 <| putBE 2 44 2 <|
  -- program header 0: `PT_LOAD` at `0x400000`, no bytes in the file or in memory
  putBE 1 52 4 <| putBE 0x400000 60 4 <|
  -- program header 1: `PT_LOAD` at `0x10000000`, from offset 116 of the file
  putBE 1 84 4 <| putBE 116 88 4 <| putBE 0x10000000 92 4 <| putBE filesz1 100 4 <|
  putBE 0x1000 104 4 fun _ => 0

/-- The executable of `emptyCodeBytes 4`, 120 bytes long. -/
def emptyCodeExe : Exe := ⟨120, emptyCodeBytes 4⟩

/-- A fresh process: the space of `as_create`, 64 free frames, no `kmalloc`s. -/
def freshLoad : LoadState := ⟨asCreate, freshPhys, 0⟩

theorem load_elf_panics_of_emptyCodeExe :
    loadElf emptyCodeExe (fun _ => some fun _ => 0) freshLoad = none :=
  load_elf_panics_on_empty_region emptyCodeExe (fun _ => some fun _ => 0) freshLoad rfl (by decide)
    (by decide) (by decide) (by decide) (by decide) (by decide) (by decide) (by decide) (by decide)
    (by decide) (fun _ => rfl) freshPhys_freeFrom (by decide)

/-- An executable with two `PT_LOAD` segments and no file data, the first of no
    pages: `load_elf` returns its entry point, and every read or write fault
    through the space it set up then stops the machine in `vm_fault`, whatever
    the address and the TLB. -/
theorem vm_fault_panics_after_empty_region (f : Exe) (tables : Nat → Option PageTable) (s : LoadState)
    (hfresh : s.as = asCreate) (hsize : ehdrSize ≤ f.size) (hok : f.ehdr.Ok)
    (hnum : f.ehdr.phnum = 2) (hread : ∀ i < 2, f.PhdrReadable i)
    (hload : ∀ i < 2, (f.phdr i).type = ptLoad) (hbase : pageSize ≤ (f.phdr 0).vaddr)
    (hempty : regionPages (f.phdr 0).vaddr (f.phdr 0).memsz = 0)
    (hbss : ∀ i < 2, min (f.phdr i).filesz (f.phdr i).memsz = 0)
    (htables : ∀ n, (tables n).isSome) {k : Int} (hfree : FreeFrom s.ph.vm k)
    (hframes : k + regionPages (f.phdr 1).vaddr (f.phdr 1).memsz + dumbvmStackpages ≤ s.ph.vm.coreMap.size) :
    ∃ t : LoadState, loadElf f tables s = some (.ok f.ehdr.entry, t) ∧
      ∀ faulttype, faulttype = vmFaultRead ∨ faulttype = vmFaultWrite →
        ∀ tlb victim faultaddress, vmFault faulttype (some t.as) tlb victim faultaddress = none := by
  obtain ⟨t, hrun, -, hn1, -⟩ :=
    loadElf_of_bss hfresh hsize hok hnum hread hload hbase hbss htables hfree
      (by rw [hempty, Nat.cast_zero, Int.add_zero]; exact hframes)
  -- the code region has no pages: `KASSERT(as->as_npages1 != 0)` fails
  have hA : ¬ t.as.FaultAsserts := fun hA => hA.npages1 (hn1.trans hempty)
  exact ⟨t, hrun, fun _ hft _ _ _ => vmFault_of_not_asserts hft hA⟩

theorem vm_fault_panics_of_bss_exe :
    ∃ t : LoadState, loadElf ⟨120, emptyCodeBytes 0⟩ (fun _ => some fun _ => 0) freshLoad =
        some (.ok 0x400000, t) ∧
      ∀ faulttype, faulttype = vmFaultRead ∨ faulttype = vmFaultWrite →
        ∀ tlb victim faultaddress, vmFault faulttype (some t.as) tlb victim faultaddress = none :=
  vm_fault_panics_after_empty_region ⟨120, emptyCodeBytes 0⟩ (fun _ => some fun _ => 0) freshLoad rfl
    (by decide) (by decide) (by decide) (by decide) (by decide) (by decide) (by decide) (by decide)
    (fun _ => rfl) freshPhys_freeFrom (by decide)

end Os161.Loadelf
