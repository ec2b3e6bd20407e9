import Os161.Vm.Coremap

/-!
# Address spaces of dumbvm

With `OPT_A3`, a dumbvm address space (kern/include/addrspace.h) has two
regions, code and data, and a stack of `DUMBVM_STACKPAGES` pages, each with a
page table: one `frameNumber` per page, in a table from `kmalloc`. Its flag
`loadCode_done`, set by `load_elf` once the program is loaded, makes
`vm_fault` map the code pages read-only.

* `as_prepare_load` takes the stack's table from `kmalloc`, returns `ENOMEM`
  if a table is `NULL`, and gives every page a frame from `getppages(1)`,
  zeroed, returning `ENOMEM` when `getppages` returns `0`;
* `as_copy` makes a new space with `as_create`, copies the regions' bases and
  sizes, takes two tables from `kmalloc`, lets `as_prepare_load` allocate the
  frames (destroying the new space with `as_destroy` when it fails) and copies
  every page;
* `as_destroy` gives back the frame of every entry of the three tables.

Physical memory is a map from addresses to bytes; the kernel reaches a frame
through `PADDR_TO_KVADDR`, which is the frame itself. What `kmalloc` returns
(`NULL`, or a table whose entries hold whatever was there) is a parameter of
the functions that call it; the pages `kmalloc` itself uses are not modelled.

* `asCopy_loadCodeDone`: a successful `as_copy` always leaves the new space's
  `loadCode_done` at the `0` of `as_create`;
* `as_copy_loses_loadCode_done`: copying a loaded program's space yields a
  space whose code pages `vm_fault` maps writable, where the original's are
  read-only;
* `asCopy_regions`: a successful `as_copy` keeps the regions' bases and sizes;
* `asCopy_freeFrom`: with `kmalloc` succeeding and enough free frames in the
  coremap, `as_copy` succeeds.
-/

namespace Os161.Dumbvm

/-- `DUMBVM_STACKPAGES` (dumbvm.c). -/
def dumbvmStackpages : Nat := 12

/-- `USERSTACK` (vm.h). -/
def userstack : Nat := userspacetop

/-- Physical memory: the byte at each address. -/
def Mem := Nat → UInt8

/-- The frames and the bytes: the state `as_copy` works on. -/
structure Phys where
  vm : Vm
  mem : Mem

/-- A page table: the `frameNumber` of each entry. -/
def PageTable := Nat → Nat

/-- `struct addrspace` with `OPT_A3`; a table is `none` for `NULL`. -/
structure Addrspace where
  vbase1 : Nat
  vbase2 : Nat
  npages1 : Nat
  npages2 : Nat
  loadCodeDone : Int
  ptable1 : Option PageTable
  ptable2 : Option PageTable
  stackptable : Option PageTable

/-- `as_create` (once its `kmalloc` has succeeded): all zero and `NULL`. -/
def asCreate : Addrspace := ⟨0, 0, 0, 0, 0, none, none, none⟩

/-- `as_define_region(as, vaddr, sz, ...)` with the table `kmalloc` gives for
    it: the region is widened to whole pages (in 32-bit arithmetic) and becomes
    the code region, else the data region, else `EUNIMP`. -/
def asDefineRegion (as : Addrspace) (vaddr sz : Nat) (table : Option PageTable) :
    Except Errno Addrspace :=
  let sz := (sz + vaddr % pageSize) % 2 ^ 32
  let vaddr := vaddr / pageSize * pageSize
  let sz := (sz + pageSize - 1) % 2 ^ 32 / pageSize * pageSize
  let npages := sz / pageSize
  if as.vbase1 = 0 then .ok { as with vbase1 := vaddr, npages1 := npages, ptable1 := table }
  else if as.vbase2 = 0 then .ok { as with vbase2 := vaddr, npages2 := npages, ptable2 := table }
  else .error .eunimp

/-- `as_zero_region(paddr, npages)`. -/
def asZeroRegion (mem : Mem) (paddr npages : Nat) : Mem :=
  fun a => if paddr ≤ a ∧ a < paddr + npages * pageSize then 0 else mem a

/-- `memmove(PADDR_TO_KVADDR(dst), PADDR_TO_KVADDR(src), len)`. -/
def memmove (mem : Mem) (dst src len : Nat) : Mem :=
  fun a => if dst ≤ a ∧ a < dst + len then mem (src + (a - dst)) else mem a

/-- A loop of `as_prepare_load` over the entries `i, i + 1, ...` of one table:
    `getppages(1)` into the entry, `ENOMEM` (`false`) if it is `0`, else the
    frame is zeroed. `none` when the `KASSERT` of `getppages` fails. -/
def allocPages (pt : PageTable) (i : Nat) : Nat → Phys → Option (Bool × PageTable × Phys)
  | 0, ph => some (true, pt, ph)
  | n + 1, ph =>
    match getppages ph.vm 1 with
    | none => none
    | some (fn, vm) =>
      let pt := Function.update pt i fn
      if fn = 0 then some (false, pt, { ph with vm := vm })
      else allocPages pt (i + 1) n ⟨vm, asZeroRegion ph.mem fn 1⟩

/-- `as_prepare_load(as)`, with the stack's table as `kmalloc` gives it. -/
def asPrepareLoad (as : Addrspace) (stack : Option PageTable) (ph : Phys) :
    Option (Except Errno Unit × Addrspace × Phys) :=
  let as := { as with stackptable := stack }
  match as.ptable1, as.ptable2, as.stackptable with
  | some p1, some p2, some p3 =>
    match allocPages p1 0 as.npages1 ph with
    | none => none
    | some (ok1, p1, ph) =>
      let as := { as with ptable1 := some p1 }
      if !ok1 then some (.error .enomem, as, ph) else
      match allocPages p2 0 as.npages2 ph with
      | none => none
      | some (ok2, p2, ph) =>
        let as := { as with ptable2 := some p2 }
        if !ok2 then some (.error .enomem, as, ph) else
        match allocPages p3 0 dumbvmStackpages ph with
        | none => none
        | some (ok3, p3, ph) =>
          let as := { as with stackptable := some p3 }
          if !ok3 then some (.error .enomem, as, ph) else some (.ok (), as, ph)
  | _, _, _ => some (.error .enomem, as, ph)

/-- A loop of `as_destroy` over the first `n` entries of a table from `i`:
    `free_kpages(PADDR_TO_KVADDR(frameNumber))`. -/
def freePages (pt : PageTable) (i : Nat) : Nat → Vm → Vm
  | 0, vm => vm
  | n + 1, vm => freePages pt (i + 1) n (freeKpages vm (paddrToKvaddr (pt i)))

/-- One loop of `as_destroy`: through a `NULL` table only if it is empty. -/
def freeTable (table : Option PageTable) (n : Nat) (vm : Vm) : Option Vm :=
  match table with
  | some pt => some (freePages pt 0 n vm)
  | none => if n = 0 then some vm else none

/-- `as_destroy(as)`: the frames of the code, data and stack tables. -/
def asDestroy (as : Addrspace) (ph : Phys) : Option Phys := do
  let vm ← freeTable as.ptable1 as.npages1 ph.vm
  let vm ← freeTable as.ptable2 as.npages2 vm
  let vm ← freeTable as.stackptable dumbvmStackpages vm
  pure { ph with vm := vm }

/-- A copy loop of `as_copy` over the first `n` pages of a table from `i`: the
    page of the old table is moved into the frame of the new one. -/
def copyPages (dst src : PageTable) (i : Nat) : Nat → Mem → Mem
  | 0, mem => mem
  | n + 1, mem => copyPages dst src (i + 1) n (memmove mem (dst i) (src i) pageSize)

/-- One copy loop of `as_copy`: through a `NULL` table only if it is empty. -/
def copyTable (dst src : Option PageTable) (n : Nat) (mem : Mem) : Option Mem :=
  match dst, src with
  | some d, some s => some (copyPages d s 0 n mem)
  | _, _ => if n = 0 then some mem else none

/-- What the `kmalloc` calls of `as_copy` return: whether `as_create`'s
    succeeds, and the code, data and stack tables (`NULL` or a table). -/
structure CopyAllocs where
  asOk : Bool
  ptable1 : Option PageTable
  ptable2 : Option PageTable
  stackptable : Option PageTable

/-- `as_copy(old, &new)`: the new space, or the error returned. -/
def asCopy (old : Addrspace) (k : CopyAllocs) (ph : Phys) : Option (Except Errno Addrspace × Phys) :=
  if !k.asOk then some (.error .enomem, ph) else
  let new := { asCreate with vbase1 := old.vbase1, npages1 := old.npages1, vbase2 := old.vbase2,
                             npages2 := old.npages2, ptable1 := k.ptable1, ptable2 := k.ptable2 }
  match asPrepareLoad new k.stackptable ph with
  | none => none
  | some (.error _, new, ph) => (asDestroy new ph).map fun ph => (.error .enomem, ph)
  | some (.ok (), new, ph) => do
    let mem ← copyTable new.ptable1 old.ptable1 old.npages1 ph.mem
    let mem ← copyTable new.ptable2 old.ptable2 old.npages2 mem
    let mem ← copyTable new.stackptable old.stackptable dumbvmStackpages mem
    pure (.ok new, { ph with mem := mem })

/-- The end of a successful `load_elf`: `as->loadCode_done = 1`. -/
def loadElfDone (as : Addrspace) : Addrspace :=
  { as with loadCodeDone := 1 }

/-- The TLB entry `vm_fault` writes for a fault at `faultaddress` (after the
    `KASSERT`s on the space): the frame, and whether `TLBLO_DIRTY` is set,
    that is, whether the page is writable; `EFAULT` outside the regions. -/
def vmFaultEntry (as : Addrspace) (faultaddress : Nat) : Option (Except Errno (Nat × Bool)) :=
  let fa := faultaddress / pageSize * pageSize
  let vtop1 := as.vbase1 + as.npages1 * pageSize
  let vtop2 := as.vbase2 + as.npages2 * pageSize
  let stackbase := userstack - dumbvmStackpages * pageSize
  -- the code pages are read-only once the program is loaded
  let dirty := !(decide (fa < vtop1 ∧ fa ≥ as.vbase1 ∧ as.loadCodeDone = 1))
  if as.vbase1 ≤ fa ∧ fa < vtop1 then
    as.ptable1.map fun pt => .ok (pt ((fa - as.vbase1) / pageSize), dirty)
  else if as.vbase2 ≤ fa ∧ fa < vtop2 then
    as.ptable2.map fun pt => .ok (pt ((fa - as.vbase2) / pageSize), dirty)
  else if stackbase ≤ fa ∧ fa < userstack then
    as.stackptable.map fun pt => .ok (pt ((fa - stackbase) / pageSize), dirty)
  else some (.error .efault)

/-! ## What a successful `as_copy` returns -/

variable {as as' old new : Addrspace} {ph ph' : Phys}

/-- A successful `as_prepare_load` only fills in the tables. -/
theorem asPrepareLoad_ok {stack : Option PageTable} (h : asPrepareLoad as stack ph = some (.ok (), as', ph')) :
    ∃ p1 p2 p3, as' = { as with ptable1 := some p1, ptable2 := some p2, stackptable := some p3 } := by
  unfold asPrepareLoad at h
  dsimp only at h
  split at h
  next =>
    split at h
    · cases h
    next ok1 q1 ph1 _ =>
      split_ifs at h
      · cases h
      split at h
      · cases h
      next ok2 q2 ph2 _ =>
        split_ifs at h
        · cases h
        split at h
        · cases h
        next ok3 q3 ph3 _ =>
          split_ifs at h
          · cases h
          cases h
          exact ⟨q1, q2, q3, rfl⟩
  next => cases h

/-- A successful `as_copy` returns the space of `as_create` with the old
    regions' bases and sizes and three tables. -/
theorem asCopy_ok {k : CopyAllocs} (h : asCopy old k ph = some (.ok new, ph')) :
    ∃ p1 p2 p3, new =
      { asCreate with
        vbase1 := old.vbase1, npages1 := old.npages1, vbase2 := old.vbase2, npages2 := old.npages2,
        ptable1 := some p1, ptable2 := some p2, stackptable := some p3 } := by
  unfold asCopy at h
  split_ifs at h
  · cases h
  dsimp only at h
  split at h
  · cases h
  · -- a failed `as_prepare_load` returns `ENOMEM`
    obtain ⟨_, -, h'⟩ := Option.map_eq_some_iff.1 h
    cases h'
  next new' ph1 hp =>
    obtain ⟨p1, p2, p3, rfl⟩ := asPrepareLoad_ok hp
    simp only [Option.bind_eq_bind, Option.bind_eq_some_iff] at h
    obtain ⟨_, -, _, -, _, -, h⟩ := h
    cases h
    exact ⟨p1, p2, p3, rfl⟩

theorem asCopy_loadCodeDone {k : CopyAllocs} (h : asCopy old k ph = some (.ok new, ph')) :
    new.loadCodeDone = 0 := by
  obtain ⟨p1, p2, p3, rfl⟩ := asCopy_ok h
  rfl

/-- A successful `as_copy` keeps the regions' bases and sizes. -/
theorem asCopy_regions {k : CopyAllocs} (h : asCopy old k ph = some (.ok new, ph')) :
    new.vbase1 = old.vbase1 ∧ new.npages1 = old.npages1 ∧ new.vbase2 = old.vbase2 ∧
      new.npages2 = old.npages2 := by
  obtain ⟨p1, p2, p3, rfl⟩ := asCopy_ok h
  exact ⟨rfl, rfl, rfl, rfl⟩

/-- The TLB entry for a page of the code region: writable unless
    `loadCode_done` is `1`. -/
theorem vmFaultEntry_code {pt : PageTable} {fa : Nat} (hpt : as.ptable1 = some pt)
    (hfa : as.vbase1 ≤ fa / pageSize * pageSize ∧ fa / pageSize * pageSize < as.vbase1 + as.npages1 * pageSize) :
    vmFaultEntry as fa =
      some (.ok (pt ((fa / pageSize * pageSize - as.vbase1) / pageSize), !decide (as.loadCodeDone = 1))) := by
  unfold vmFaultEntry
  simp only [hpt, Option.map_some, hfa, true_and, if_true]

/-! ## Allocation from free frames -/

/-- The coremap is up, its frames below `k` are in use and the others free,
    and they lie above address `0`, so no frame is read as a failed
    `getppages`. -/
structure FreeFrom (vm : Vm) (k : Int) : Prop where
  cmap : vm.iscmapCreated = true
  used : vm.coreMap.UsedBelow k
  nonneg : 0 ≤ k
  base : 0 < vm.coreMap.baseAddr

/-- `getppages(1)` takes the frame `k`. -/
theorem getppages_freeFrom {vm : Vm} {k : Int} (h : FreeFrom vm k) (hk : k < vm.coreMap.size) :
    getppages vm 1 =
      some (k.toNat * pageSize + vm.coreMap.baseAddr, { vm with coreMap := vm.coreMap.markRun k 1 }) := by
  rw [getppages, if_pos h.cmap, Coremap.getppages_one_usedBelow h.used h.nonneg hk]
  rfl

theorem FreeFrom.markRun {vm : Vm} {k : Int} (h : FreeFrom vm k) :
    FreeFrom { vm with coreMap := vm.coreMap.markRun k 1 } (k + 1) :=
  ⟨h.cmap, Coremap.usedBelow_markRun h.used, Int.le_add_one h.nonneg, h.base⟩

/-- With `n` free frames from `k`, the loop of `as_prepare_load` takes them
    all and succeeds. -/
theorem allocPages_freeFrom : ∀ (n : Nat) (pt : PageTable) (i : Nat) (ph : Phys) {k : Int},
    FreeFrom ph.vm k → k + n ≤ ph.vm.coreMap.size →
    ∃ pt' ph', allocPages pt i n ph = some (true, pt', ph') ∧ FreeFrom ph'.vm (k + n) ∧
      ph'.vm.coreMap.size = ph.vm.coreMap.size
  | 0, pt, _, ph, k, h, _ => ⟨pt, ph, rfl, by rwa [Nat.cast_zero, Int.add_zero], rfl⟩
  | n + 1, pt, i, ph, k, h, hn => by
    have hfn : k.toNat * pageSize + ph.vm.coreMap.baseAddr ≠ 0 := by
      have := h.base
      omega
    obtain ⟨pt', ph', hrec, hfree, hsize⟩ :=
      allocPages_freeFrom n (Function.update pt i (k.toNat * pageSize + ph.vm.coreMap.baseAddr)) (i + 1)
        ⟨_, asZeroRegion ph.mem (k.toNat * pageSize + ph.vm.coreMap.baseAddr) 1⟩ h.markRun
        (by rw [Coremap.markRun_size]; omega)
    refine ⟨pt', ph', ?_, ?_, hsize.trans (Coremap.markRun_size _ _ _)⟩
    · rw [allocPages, getppages_freeFrom h (by omega)]
      dsimp only
      rw [if_neg hfn]
      exact hrec
    · rwa [show k + 1 + (n : Int) = k + ((n + 1 : Nat) : Int) by omega] at hfree

/-- With enough free frames, `as_prepare_load` of a space with both region
    tables succeeds. -/
theorem asPrepareLoad_freeFrom (as : Addrspace) (stack : PageTable) {p1 p2 : PageTable} {k : Int}
    (h1 : as.ptable1 = some p1) (h2 : as.ptable2 = some p2) (h : FreeFrom ph.vm k)
    (hn : k + as.npages1 + as.npages2 + dumbvmStackpages ≤ ph.vm.coreMap.size) :
    ∃ as' ph', asPrepareLoad as (some stack) ph = some (.ok (), as', ph') := by
  obtain ⟨q1, ph1, ha1, hf1, hs1⟩ := allocPages_freeFrom as.npages1 p1 0 ph h (by omega)
  obtain ⟨q2, ph2, ha2, hf2, hs2⟩ := allocPages_freeFrom as.npages2 p2 0 ph1 hf1 (by omega)
  obtain ⟨q3, ph3, ha3, -, -⟩ := allocPages_freeFrom dumbvmStackpages stack 0 ph2 hf2 (by omega)
  simp only [asPrepareLoad, h1, h2, ha1, ha2, ha3, Bool.not_true]
  exact ⟨_, _, rfl⟩

/-- With `kmalloc` succeeding and enough free frames, `as_copy` of a space
    with its three tables succeeds. -/
theorem asCopy_freeFrom {k : CopyAllocs} {p1 p2 p3 q1 q2 q3 : PageTable} {n : Int}
    (hok : k.asOk = true) (hk : k.ptable1 = some p1 ∧ k.ptable2 = some p2 ∧ k.stackptable = some p3)
    (hold : old.ptable1 = some q1 ∧ old.ptable2 = some q2 ∧ old.stackptable = some q3)
    (h : FreeFrom ph.vm n) (hn : n + old.npages1 + old.npages2 + dumbvmStackpages ≤ ph.vm.coreMap.size) :
    ∃ new ph', asCopy old k ph = some (.ok new, ph') := by
  obtain ⟨as', ph1, hp⟩ := asPrepareLoad_freeFrom
    { asCreate with
      vbase1 := old.vbase1, npages1 := old.npages1, vbase2 := old.vbase2, npages2 := old.npages2,
      ptable1 := k.ptable1, ptable2 := k.ptable2 } p3 hk.1 hk.2.1 h hn
  obtain ⟨r1, r2, r3, rfl⟩ := asPrepareLoad_ok hp
  rw [asCopy, if_neg (by rw [hok]; decide)]
  dsimp only
  rw [hk.2.2, hp]
  simp only [copyTable, hold.1, hold.2.1, hold.2.2, Option.bind_eq_bind, Option.bind_some]
  exact ⟨_, _, rfl⟩

/-! ## The lost `loadCode_done` -/

theorem as_copy_loses_loadCode_done {k : CopyAllocs} {pt : PageTable} {fa : Nat}
    (h : asCopy old k ph = some (.ok new, ph')) (hload : old.loadCodeDone = 1)
    (hpt : old.ptable1 = some pt)
    (hfa : old.vbase1 ≤ fa / pageSize * pageSize ∧ fa / pageSize * pageSize < old.vbase1 + old.npages1 * pageSize) :
    new.loadCodeDone = 0 ∧ (∃ f, vmFaultEntry old fa = some (.ok (f, false))) ∧
      ∃ f, vmFaultEntry new fa = some (.ok (f, true)) := by
  obtain ⟨p1, p2, p3, rfl⟩ := asCopy_ok h
  have hold := vmFaultEntry_code hpt hfa
  rw [hload] at hold
  exact ⟨rfl, ⟨_, hold⟩, ⟨_, vmFaultEntry_code rfl hfa⟩⟩

/-- Physical memory of 64 free frames from `0x20000`, all bytes zero. -/
def freshPhys : Phys := ⟨⟨0, 0, true, ⟨0x20000, fun _ => 0, fun _ => 0, 64, false⟩⟩, fun _ => 0⟩

theorem freshPhys_freeFrom : FreeFrom freshPhys.vm 0 :=
  ⟨rfl, fun _ hj _ => iff_of_true rfl hj, Int.le_refl 0, by decide⟩

/-- A loaded program: one code page at `0x400000`, one data page at
    `0x10000000`, and its stack. -/
def loadedSpace : Addrspace :=
  loadElfDone
    { asCreate with
      vbase1 := 0x400000, npages1 := 1, vbase2 := 0x10000000, npages2 := 1,
      ptable1 := some fun _ => 0x1000, ptable2 := some fun _ => 0x2000,
      stackptable := some fun _ => 0x3000 }

/-- The tables `kmalloc` gives `as_copy` when it succeeds. -/
def forkAllocs : CopyAllocs := ⟨true, some fun _ => 0, some fun _ => 0, some fun _ => 0⟩

theorem forked_code_page_writable :
    ∃ new ph', asCopy loadedSpace forkAllocs freshPhys = some (.ok new, ph') ∧
      new.loadCodeDone = 0 ∧ (∃ f, vmFaultEntry loadedSpace 0x400000 = some (.ok (f, false))) ∧
      ∃ f, vmFaultEntry new 0x400000 = some (.ok (f, true)) := by
  obtain ⟨new, ph', h⟩ : ∃ new ph', asCopy loadedSpace forkAllocs freshPhys = some (.ok new, ph') :=
    asCopy_freeFrom rfl ⟨rfl, rfl, rfl⟩ ⟨rfl, rfl, rfl⟩ freshPhys_freeFrom (by decide)
  exact ⟨new, ph', h, as_copy_loses_loadCode_done h rfl rfl (by decide)⟩

end Os161.Dumbvm
