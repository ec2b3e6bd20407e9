import Os161.Vm.Addrspace

/-!
# `vm_fault` of dumbvm and the TLB

With `OPT_A3`, `vm_fault(faulttype, faultaddress)` (arch/mips/vm/dumbvm.c)
returns `EX_MOD` for a write to a read-only page and `EINVAL` for an unknown
fault type; otherwise it asserts that the current address space is set up
(both regions and the three page tables there, the bases page-aligned) and
finds the page of `faultaddress` in the code region, else the data region,
else the stack of `DUMBVM_STACKPAGES` pages below `USERSTACK`, else returns
`EFAULT`. The frame is the region's page table entry for the page; the TLB
entry maps the page to it, valid, and dirty (writable) unless the page is a
code page of a loaded program. The entry goes into the first TLB slot that is
not valid, or, when all are, into the slot `tlb_random` picks, here a
parameter (the hardware's random register).

The region tops `vtop1` and `vtop2` are 32-bit sums, and the offset of the
page in its region is an `int`: past `INT_MAX` the table index is negative,
undefined behaviour, a stop here like a failed `KASSERT`.

* `regionOf_eq_some_iff`: for regions that end below `2^32`, `vm_fault` maps
  a page by the first region (code, data, stack) that contains it;
* `vm_fault_translates`: for a space that passes the `KASSERT`s, with regions
  of at most `2^31` bytes ending below `2^32`, a read or write fault on a page
  with no valid TLB entry finds the table entry of the first region holding
  it; for a page-aligned frame it returns `0` with exactly one valid entry
  for the page, mapping it to that frame, dirty unless it is a loaded code
  page, and every other slot unchanged but at most the one `tlb_random`
  evicts, and for any other frame (such as the `0x80000003` of a failed
  `alloc_kpages`) the alignment `KASSERT` fails; `EFAULT` outside the
  regions, `EX_MOD` for a write to a read-only page, TLB unchanged;
* `vmFault_refines_vmFaultEntry`: the entry is the one `vmFaultEntry` (the
  model of `as_copy`'s claims) gives.
-/

namespace Os161.Dumbvm

/-! ## The TLB -/

/-- `NUM_TLB`. -/
def numTlb : Nat := 64

/-- `TLBLO_DIRTY`: the page may be written. -/
def tlbloDirty : Nat := 0x400

/-- `TLBLO_VALID`. -/
def tlbloValid : Nat := 0x200

/-- An entry of the TLB: its `ENTRYHI` and `ENTRYLO` words. -/
structure TlbEntry where
  ehi : Nat
  elo : Nat
  deriving DecidableEq, Repr

namespace TlbEntry

/-- `elo & TLBLO_VALID`. -/
def Valid (e : TlbEntry) : Prop := e.elo &&& tlbloValid ≠ 0

instance (e : TlbEntry) : Decidable e.Valid := inferInstanceAs (Decidable (_ ≠ _))

/-- `elo & TLBLO_DIRTY`: writes to the page do not trap. -/
def Dirty (e : TlbEntry) : Prop := e.elo &&& tlbloDirty ≠ 0

/-- The frame the entry maps its page to: `elo & TLBLO_PPAGE`. -/
def ppage (e : TlbEntry) : Nat := e.elo &&& 0xfffff000

end TlbEntry

/-- The TLB: an entry in each of its `NUM_TLB` slots. -/
def Tlb : Type := Fin numTlb → TlbEntry

/-- The scan of `vm_fault`: the first slot whose entry is not valid. -/
def firstInvalid (tlb : Tlb) : Option (Fin numTlb) :=
  (List.finRange numTlb).find? fun i => !decide (tlb i).Valid

/-- `tlb_write(ehi, elo, i)`. -/
def tlbWrite (tlb : Tlb) (i : Fin numTlb) (e : TlbEntry) : Tlb := Function.update tlb i e

/-- `as_activate`: every slot gets `TLBHI_INVALID(i)` and `TLBLO_INVALID()`. -/
def asActivate : Tlb := fun i => ⟨(0x80000 + i.val) * 2 ^ 12, 0⟩

/-! ## The regions of a fault -/

/-- The regions `vm_fault` looks in, in its order. -/
inductive Region
  | code
  | data
  | stack
  deriving DecidableEq, Repr

namespace Addrspace

/-- `stackbase`: `USERSTACK - DUMBVM_STACKPAGES * PAGE_SIZE`. -/
def stackbase : Nat := userstack - dumbvmStackpages * pageSize

/-- The base of a region. -/
def base (as : Addrspace) : Region → Nat
  | .code => as.vbase1
  | .data => as.vbase2
  | .stack => stackbase

/-- The pages of a region. -/
def npages (as : Addrspace) : Region → Nat
  | .code => as.npages1
  | .data => as.npages2
  | .stack => dumbvmStackpages

/-- The page table of a region. -/
def table (as : Addrspace) : Region → Option PageTable
  | .code => as.ptable1
  | .data => as.ptable2
  | .stack => as.stackptable

/-- The top of a region as `vm_fault` computes it: `vbase + npages * PAGE_SIZE`
    in 32 bits (`USERSTACK` for the stack). -/
def vtop (as : Addrspace) (r : Region) : Nat := (as.base r + as.npages r * pageSize) % 2 ^ 32

/-- The region `vm_fault` finds the page `fa` in: code, else data, else stack. -/
def regionOf (as : Addrspace) (fa : Nat) : Option Region :=
  if fa ≥ as.base .code ∧ fa < as.vtop .code then some .code
  else if fa ≥ as.base .data ∧ fa < as.vtop .data then some .data
  else if fa ≥ as.base .stack ∧ fa < as.vtop .stack then some .stack
  else none

/-- The `KASSERT`s of `vm_fault` on the address space. -/
structure FaultAsserts (as : Addrspace) : Prop where
  vbase1 : as.vbase1 ≠ 0
  npages1 : as.npages1 ≠ 0
  vbase2 : as.vbase2 ≠ 0
  npages2 : as.npages2 ≠ 0
  ptable1 : as.ptable1.isSome
  ptable2 : as.ptable2.isSome
  stackptable : as.stackptable.isSome
  align1 : as.vbase1 % pageSize = 0
  align2 : as.vbase2 % pageSize = 0

instance (as : Addrspace) : Decidable as.FaultAsserts :=
  decidable_of_iff (as.vbase1 ≠ 0 ∧ as.npages1 ≠ 0 ∧ as.vbase2 ≠ 0 ∧ as.npages2 ≠ 0 ∧
      as.ptable1.isSome ∧ as.ptable2.isSome ∧ as.stackptable.isSome ∧
      as.vbase1 % pageSize = 0 ∧ as.vbase2 % pageSize = 0)
    ⟨fun ⟨a, b, c, d, e, f, g, h, i⟩ => ⟨a, b, c, d, e, f, g, h, i⟩,
      fun ⟨a, b, c, d, e, f, g, h, i⟩ => ⟨a, b, c, d, e, f, g, h, i⟩⟩

/-- `paddr` for the page `fa` of region `r`: the table entry at
    `offset / PAGE_SIZE`, plus `offset % PAGE_SIZE`, with `int offset`;
    `none` past `INT_MAX` (a negative index) or for a `NULL` table. -/
def paddrOf (as : Addrspace) (r : Region) (fa : Nat) : Option Nat :=
  let offset := fa - as.base r
  if 2 ^ 31 ≤ offset then none
  else (as.table r).map fun pt => (pt (offset / pageSize) + offset % pageSize) % 2 ^ 32

/-- The code pages are read-only once the program is loaded:
    `faultaddress < vtop1 && faultaddress >= vbase1 && as->loadCode_done == 1`. -/
def readOnly (as : Addrspace) (fa : Nat) : Prop :=
  fa < as.vtop .code ∧ fa ≥ as.base .code ∧ as.loadCodeDone = 1

instance (as : Addrspace) (fa : Nat) : Decidable (as.readOnly fa) :=
  inferInstanceAs (Decidable (_ ∧ _))

end Addrspace

/-- `elo` of the entry for the frame `paddr`: `paddr | TLBLO_DIRTY | TLBLO_VALID`,
    and `elo &= ~TLBLO_DIRTY` (`~` of a 32-bit word) for a read-only page. -/
def tlbElo (paddr : Nat) (readOnly : Bool) : Nat :=
  let elo := paddr ||| tlbloDirty ||| tlbloValid
  if readOnly then elo &&& (0xffffffff ^^^ tlbloDirty) else elo

/-! ## `vm_fault` -/

/-- `faultaddress &= PAGE_FRAME`: the page of an address. -/
def pageFrame (a : Nat) : Nat := a / pageSize * pageSize

/-- `VM_FAULT_READ`. -/
def vmFaultRead : Nat := 0

/-- `VM_FAULT_WRITE`. -/
def vmFaultWrite : Nat := 1

/-- `VM_FAULT_READONLY`. -/
def vmFaultReadonly : Nat := 2

/-- `EX_MOD` (trapframe.h), which `vm_fault` returns for a write to a
    read-only page. -/
def exMod : Nat := 1

/-- What `vm_fault` finds for the page `fa` of the space `as` (the code after
    its tests on the fault type and the process): the frame and whether the
    page is read-only, or `EFAULT` outside the regions; `none` where a
    `KASSERT` fails or the offset is not an `int`. -/
def vmTranslate (as : Addrspace) (fa : Nat) : Option (Except Errno (Nat × Bool)) :=
  if ¬ as.FaultAsserts then none
  else
    match as.regionOf fa with
    | none => some (.error .efault)
    | some r =>
      match as.paddrOf r fa with
      | none => none
      | some paddr =>
        -- `KASSERT((paddr & PAGE_FRAME) == paddr)`
        if paddr % pageSize ≠ 0 then none
        else some (.ok (paddr, decide (as.readOnly fa)))

/-- `vm_fault(faulttype, faultaddress)` with the current process's address
    space (`none` when there is no process or no space) and the TLB: the
    value returned and the TLB after it; `none` is a failed `KASSERT` or
    undefined behaviour. `victim` is the slot `tlb_random` writes. -/
def vmFault (faulttype : Nat) (curas : Option Addrspace) (tlb : Tlb) (victim : Fin numTlb)
    (faultaddress : Nat) : Option (Nat × Tlb) :=
  let fa := pageFrame faultaddress
  if faulttype = vmFaultReadonly then some (exMod, tlb)
  else if faulttype ≠ vmFaultRead ∧ faulttype ≠ vmFaultWrite then some (Errno.einval.toNat, tlb)
  else
    match curas with
    | none => some (Errno.efault.toNat, tlb)
    | some as =>
      match vmTranslate as fa with
      | none => none
      | some (.error e) => some (e.toNat, tlb)
      | some (.ok (paddr, ro)) =>
        let e : TlbEntry := ⟨fa, tlbElo paddr ro⟩
        match firstInvalid tlb with
        | some i => some (0, tlbWrite tlb i e)
        -- the TLB is full: `tlb_random`
        | none => some (0, tlbWrite tlb victim e)

/-! ## The words of an entry

A frame is page-aligned, so the flags of `elo` sit below its page bits. -/

section Words

/-- An `and` with a mask below bit 12 sees only the low part of a word. -/
theorem lor_land_low {q c m : Nat} (hm : m < 2 ^ 12) :
    (2 ^ 12 * q ||| c) &&& m = c &&& m := by
  apply Nat.eq_of_testBit_eq
  intro j
  simp only [Nat.testBit_and, Nat.testBit_or, Nat.testBit_two_pow_mul]
  by_cases hj : j < 12
  · simp [show ¬ 12 ≤ j by omega]
  · have hmj : m.testBit j = false := Nat.testBit_lt_two_pow (lt_of_lt_of_le hm
      (Nat.pow_le_pow_right (by decide) (by omega)))
    simp [hmj]

/-- `& TLBLO_PPAGE` keeps the page bits of a 32-bit word. -/
theorem lor_land_ppage {q c : Nat} (hq : q < 2 ^ 20) (hc : c < 2 ^ 12) :
    (2 ^ 12 * q ||| c) &&& 0xfffff000 = 2 ^ 12 * q := by
  have hmask : (0xfffff000 : Nat) = 2 ^ 12 * (2 ^ 20 - 1) := by norm_num
  apply Nat.eq_of_testBit_eq
  intro j
  rw [hmask]
  simp only [Nat.testBit_and, Nat.testBit_or, Nat.testBit_two_pow_mul, Nat.testBit_two_pow_sub_one]
  by_cases hj : j < 12
  · simp [show ¬ j ≥ 12 by omega]
  · have h12 : j ≥ 12 := by omega
    have hcj : c.testBit j = false := Nat.testBit_lt_two_pow (lt_of_lt_of_le hc
      (Nat.pow_le_pow_right (by decide) h12))
    by_cases hj' : j - 12 < 20
    · simp [hcj, hj', h12]
    · have hqj : q.testBit (j - 12) = false := Nat.testBit_lt_two_pow (lt_of_lt_of_le hq
        (Nat.pow_le_pow_right (by decide) (by omega)))
      simp [hcj, hqj]

/-- For the frame `2^12 * q`, `elo` is the frame with the valid bit, and the
    dirty bit unless the page is read-only. -/
theorem tlbElo_eq {q : Nat} (hq : q < 2 ^ 20) (ro : Bool) :
    tlbElo (2 ^ 12 * q) ro = 2 ^ 12 * q ||| (if ro then tlbloValid else 0x600) := by
  unfold tlbElo
  rw [Nat.or_assoc, show tlbloDirty ||| tlbloValid = 0x600 by decide]
  cases ro with
  | false => rfl
  | true =>
    -- `~TLBLO_DIRTY` is the page bits and the low bits but the dirty one
    have hmask : (0xffffffff ^^^ tlbloDirty) = 0xfffff000 ||| 0xbff := by decide
    rw [if_pos rfl, if_pos rfl, hmask, Nat.and_or_distrib_left, lor_land_ppage hq (by decide),
      lor_land_low (by decide)]
    rfl

/-- A page-aligned 32-bit frame is `2^12 * q` for a 20-bit `q`. -/
theorem exists_frame {paddr : Nat} (hp : paddr % pageSize = 0) (hp32 : paddr < 2 ^ 32) :
    ∃ q, q < 2 ^ 20 ∧ paddr = 2 ^ 12 * q :=
  ⟨paddr / pageSize, by unfold pageSize at *; omega, by unfold pageSize at *; omega⟩

namespace TlbEntry

variable {paddr : Nat} (hp : paddr % pageSize = 0) (hp32 : paddr < 2 ^ 32) (ehi : Nat) (ro : Bool)
include hp hp32

theorem valid_tlbElo : (⟨ehi, tlbElo paddr ro⟩ : TlbEntry).Valid := by
  obtain ⟨q, hq, rfl⟩ := exists_frame hp hp32
  unfold Valid
  rw [tlbElo_eq hq, lor_land_low (by decide)]
  cases ro <;> decide

theorem dirty_tlbElo : (⟨ehi, tlbElo paddr ro⟩ : TlbEntry).Dirty ↔ ro = false := by
  obtain ⟨q, hq, rfl⟩ := exists_frame hp hp32
  unfold Dirty
  rw [tlbElo_eq hq, lor_land_low (by decide)]
  cases ro <;> decide

theorem ppage_tlbElo : (⟨ehi, tlbElo paddr ro⟩ : TlbEntry).ppage = paddr := by
  obtain ⟨q, hq, rfl⟩ := exists_frame hp hp32
  unfold ppage
  rw [tlbElo_eq hq, lor_land_ppage hq (by split <;> decide)]

end TlbEntry

end Words

/-! ## The slot an entry goes to -/

section Slot

variable {tlb : Tlb} {victim : Fin numTlb}

theorem firstInvalid_eq_some {i : Fin numTlb} (h : firstInvalid tlb = some i) : ¬ (tlb i).Valid := by
  simpa using List.find?_some h

theorem firstInvalid_eq_none (h : firstInvalid tlb = none) (j : Fin numTlb) : (tlb j).Valid := by
  simpa using List.find?_eq_none.1 h j (List.mem_finRange j)

/-- The slot `vm_fault` writes held no valid entry, or every slot did and
    `tlb_random` evicts one. -/
theorem getD_firstInvalid :
    ¬ (tlb ((firstInvalid tlb).getD victim)).Valid ∨ ∀ j, (tlb j).Valid := by
  cases h : firstInvalid tlb with
  | some i => exact .inl (firstInvalid_eq_some h)
  | none => exact .inr (firstInvalid_eq_none h)

theorem tlbWrite_self (i : Fin numTlb) (e : TlbEntry) : tlbWrite tlb i e i = e :=
  Function.update_self _ _ _

theorem tlbWrite_of_ne {i j : Fin numTlb} (e : TlbEntry) (h : j ≠ i) : tlbWrite tlb i e j = tlb j :=
  Function.update_of_ne h _ _

/-- After writing a valid entry for a page no valid entry mapped, it is the
    only valid entry for the page. -/
theorem tlbWrite_unique {i : Fin numTlb} {e : TlbEntry} (hmiss : ∀ j, (tlb j).Valid → (tlb j).ehi ≠ e.ehi)
    (j : Fin numTlb) (hv : (tlbWrite tlb i e j).Valid) (he : (tlbWrite tlb i e j).ehi = e.ehi) : j = i := by
  by_contra hj
  rw [tlbWrite_of_ne e hj] at hv he
  exact hmiss j hv he

end Slot

/-! ## The region of a page -/

/-- The regions `vm_fault` tries before `r`. -/
def Region.before : Region → List Region
  | .code => []
  | .data => [.code]
  | .stack => [.code, .data]

namespace Addrspace

variable {as : Addrspace} {fa : Nat} {r : Region}

/-- The page `fa` lies in region `r`. -/
def Holds (as : Addrspace) (r : Region) (fa : Nat) : Prop :=
  as.base r ≤ fa ∧ fa < as.base r + as.npages r * pageSize

instance (as : Addrspace) (r : Region) (fa : Nat) : Decidable (as.Holds r fa) :=
  inferInstanceAs (Decidable (_ ∧ _))

/-- Every region ends below `2^32` and is at most `2^31` bytes long: its top
    does not wrap and the offset of a page in it is an `int`. -/
def Fits (as : Addrspace) : Prop :=
  ∀ r, as.base r + as.npages r * pageSize < 2 ^ 32 ∧ as.npages r * pageSize ≤ 2 ^ 31

theorem vtop_of_fits (h : as.Fits) (r : Region) : as.vtop r = as.base r + as.npages r * pageSize :=
  Nat.mod_eq_of_lt (h r).1

theorem regionOf_of_fits (h : as.Fits) :
    as.regionOf fa =
      if as.Holds .code fa then some .code
      else if as.Holds .data fa then some .data
      else if as.Holds .stack fa then some .stack
      else none := by
  unfold regionOf
  simp only [vtop_of_fits h]
  rfl

/-- For regions that fit, `vm_fault` finds a page in the first region holding it. -/
theorem regionOf_eq_some_iff (h : as.Fits) :
    as.regionOf fa = some r ↔ as.Holds r fa ∧ ∀ r' ∈ r.before, ¬ as.Holds r' fa := by
  rw [regionOf_of_fits h]
  by_cases h1 : as.Holds .code fa
  · cases r <;> simp [h1, Region.before]
  by_cases h2 : as.Holds .data fa
  · cases r <;> simp [h1, h2, Region.before]
  by_cases h3 : as.Holds .stack fa
  · cases r <;> simp [h1, h2, h3, Region.before]
  · cases r <;> simp [h1, h2, h3]

theorem regionOf_eq_none_iff (h : as.Fits) : as.regionOf fa = none ↔ ∀ r, ¬ as.Holds r fa := by
  rw [regionOf_of_fits h]
  constructor
  · intro hn r
    cases r <;> intro hr <;> simp [hr] at hn <;> split_ifs at hn
  · intro hn
    simp [hn]

theorem base_aligned (hA : as.FaultAsserts) : ∀ r, as.base r % pageSize = 0
  | .code => hA.align1
  | .data => hA.align2
  | .stack => (by decide : stackbase % pageSize = 0)

/-- The frame of a page of a region that fits: the table entry for it. -/
theorem paddrOf_of_holds (hA : as.FaultAsserts) (hfit : as.Fits) (hh : as.Holds r fa)
    (hfa : fa % pageSize = 0) {pt : PageTable} (hpt : as.table r = some pt) :
    as.paddrOf r fa = some (pt ((fa - as.base r) / pageSize) % 2 ^ 32) := by
  have hb := base_aligned hA r
  have hoff : fa - as.base r < 2 ^ 31 := by
    have := (hfit r).2
    unfold Holds at hh
    omega
  have hmod : (fa - as.base r) % pageSize = 0 := by
    unfold pageSize at *
    omega
  simp only [paddrOf, if_neg (Nat.not_le.2 hoff), hpt, Option.map_some, hmod, Nat.add_zero]

/-- Only code pages are read-only, and those only once the program is loaded. -/
theorem readOnly_iff (hfit : as.Fits) (hh : as.Holds r fa) (hb : ∀ r' ∈ r.before, ¬ as.Holds r' fa) :
    as.readOnly fa ↔ r = .code ∧ as.loadCodeDone = 1 := by
  have hcode : as.readOnly fa ↔ as.Holds .code fa ∧ as.loadCodeDone = 1 := by
    simp only [readOnly, Holds, vtop_of_fits hfit, ge_iff_le]
    tauto
  rw [hcode]
  cases r with
  | code => simp [hh]
  | data => simp [hb .code (by simp [Region.before])]
  | stack => simp [hb .code (by simp [Region.before])]

theorem table_isSome (hA : as.FaultAsserts) : ∀ r, (as.table r).isSome
  | .code => hA.ptable1
  | .data => hA.ptable2
  | .stack => hA.stackptable

end Addrspace

theorem pageFrame_mod (a : Nat) : pageFrame a % pageSize = 0 :=
  Nat.mul_mod_left _ _

/-! ## What a fault does -/

section Fault

variable {as : Addrspace} {tlb : Tlb} {victim : Fin numTlb} {faulttype faultaddress : Nat}

theorem vmTranslate_of_paddr {fa : Nat} {r : Region} {paddr : Nat} (hA : as.FaultAsserts)
    (hr : as.regionOf fa = some r) (hp : as.paddrOf r fa = some paddr) (hal : paddr % pageSize = 0) :
    vmTranslate as fa = some (.ok (paddr, decide (as.readOnly fa))) := by
  simp only [vmTranslate, if_neg (not_not.2 hA), hr, hp, hal, ne_eq, not_true_eq_false, if_false]

theorem vmTranslate_of_none {fa : Nat} (hA : as.FaultAsserts) (hr : as.regionOf fa = none) :
    vmTranslate as fa = some (.error .efault) := by
  simp only [vmTranslate, if_neg (not_not.2 hA), hr]

theorem vmTranslate_of_not_asserts {fa : Nat} (hA : ¬ as.FaultAsserts) : vmTranslate as fa = none :=
  if_pos hA

/-- A frame that is not page-aligned fails `KASSERT((paddr & PAGE_FRAME) == paddr)`. -/
theorem vmTranslate_of_unaligned {fa : Nat} {r : Region} {paddr : Nat} (hA : as.FaultAsserts)
    (hr : as.regionOf fa = some r) (hp : as.paddrOf r fa = some paddr) (hal : paddr % pageSize ≠ 0) :
    vmTranslate as fa = none := by
  simp only [vmTranslate, if_neg (not_not.2 hA), hr, hp, if_pos hal]

/-- A read or write fault where `vm_fault` finds the frame `paddr`: the entry
    for the page goes into the first invalid slot, else the one of
    `tlb_random`. -/
theorem vmFault_of_translate {paddr : Nat} {ro : Bool} (hft : faulttype = vmFaultRead ∨ faulttype = vmFaultWrite)
    (ht : vmTranslate as (pageFrame faultaddress) = some (.ok (paddr, ro))) :
    vmFault faulttype (some as) tlb victim faultaddress =
      some (0, tlbWrite tlb ((firstInvalid tlb).getD victim) ⟨pageFrame faultaddress, tlbElo paddr ro⟩) := by
  have h1 : faulttype ≠ vmFaultReadonly := by rcases hft with rfl | rfl <;> decide
  have h2 : ¬ (faulttype ≠ vmFaultRead ∧ faulttype ≠ vmFaultWrite) := by tauto
  simp only [vmFault, if_neg h1, if_neg h2, ht]
  cases firstInvalid tlb <;> rfl

/-- A read or write fault outside the regions is `EFAULT`, the TLB untouched. -/
theorem vmFault_of_none (hft : faulttype = vmFaultRead ∨ faulttype = vmFaultWrite)
    (hA : as.FaultAsserts) (hr : as.regionOf (pageFrame faultaddress) = none) :
    vmFault faulttype (some as) tlb victim faultaddress = some (Errno.efault.toNat, tlb) := by
  have h1 : faulttype ≠ vmFaultReadonly := by rcases hft with rfl | rfl <;> decide
  have h2 : ¬ (faulttype ≠ vmFaultRead ∧ faulttype ≠ vmFaultWrite) := by tauto
  simp only [vmFault, if_neg h1, if_neg h2, vmTranslate_of_none hA hr]

/-- A read or write fault where `vm_fault`'s translation stops, stops. -/
theorem vmFault_of_translate_none (hft : faulttype = vmFaultRead ∨ faulttype = vmFaultWrite)
    (ht : vmTranslate as (pageFrame faultaddress) = none) : vmFault faulttype (some as) tlb victim faultaddress = none := by
  have h1 : faulttype ≠ vmFaultReadonly := by rcases hft with rfl | rfl <;> decide
  have h2 : ¬ (faulttype ≠ vmFaultRead ∧ faulttype ≠ vmFaultWrite) := by tauto
  simp only [vmFault, if_neg h1, if_neg h2, ht]

/-- A read or write fault through a space that fails a `KASSERT` stops. -/
theorem vmFault_of_not_asserts (hft : faulttype = vmFaultRead ∨ faulttype = vmFaultWrite)
    (hA : ¬ as.FaultAsserts) : vmFault faulttype (some as) tlb victim faultaddress = none :=
  vmFault_of_translate_none hft (vmTranslate_of_not_asserts hA)

theorem vm_fault_translates (as : Addrspace) (tlb : Tlb) (victim : Fin numTlb) {faulttype faultaddress : Nat}
    (hA : as.FaultAsserts) (hfit : as.Fits)
    (hframes : ∀ r pt, as.table r = some pt → ∀ i < as.npages r, pt i < 2 ^ 32)
    (hmiss : ∀ j, (tlb j).Valid → (tlb j).ehi ≠ pageFrame faultaddress) :
    (faulttype = vmFaultRead ∨ faulttype = vmFaultWrite →
      (∀ r, as.Holds r (pageFrame faultaddress) → (∀ r' ∈ r.before, ¬ as.Holds r' (pageFrame faultaddress)) →
        ∃ pt, as.table r = some pt ∧ (pageFrame faultaddress - as.base r) / pageSize < as.npages r ∧
          (pt ((pageFrame faultaddress - as.base r) / pageSize) % pageSize = 0 →
            ∃ tlb' k, vmFault faulttype (some as) tlb victim faultaddress = some (0, tlb') ∧
              (tlb' k).ehi = pageFrame faultaddress ∧ (tlb' k).Valid ∧
              (tlb' k).ppage = pt ((pageFrame faultaddress - as.base r) / pageSize) ∧
              ((tlb' k).Dirty ↔ ¬ (r = .code ∧ as.loadCodeDone = 1)) ∧
              (∀ j, (tlb' j).Valid → (tlb' j).ehi = pageFrame faultaddress → j = k) ∧
              (∀ j, j ≠ k → tlb' j = tlb j) ∧ (¬ (tlb k).Valid ∨ ∀ j, (tlb j).Valid)) ∧
          (pt ((pageFrame faultaddress - as.base r) / pageSize) % pageSize ≠ 0 →
            vmFault faulttype (some as) tlb victim faultaddress = none)) ∧
      ((∀ r, ¬ as.Holds r (pageFrame faultaddress)) →
        vmFault faulttype (some as) tlb victim faultaddress = some (Errno.efault.toNat, tlb))) ∧
    vmFault vmFaultReadonly (some as) tlb victim faultaddress = some (exMod, tlb) := by
  refine ⟨fun hft => ⟨fun r hh hb => ?_, fun hno => vmFault_of_none hft hA ((Addrspace.regionOf_eq_none_iff hfit).2 hno)⟩, rfl⟩
  obtain ⟨pt, hpt⟩ := Option.isSome_iff_exists.1 (Addrspace.table_isSome hA r)
  have hidx : (pageFrame faultaddress - as.base r) / pageSize < as.npages r := by
    obtain ⟨hlo, hhi⟩ := hh
    rw [Nat.div_lt_iff_lt_mul (by decide)]
    omega
  have h32 := hframes r pt hpt _ hidx
  have hr := (Addrspace.regionOf_eq_some_iff hfit).2 ⟨hh, hb⟩
  have hp := Addrspace.paddrOf_of_holds hA hfit hh (pageFrame_mod _) hpt
  rw [Nat.mod_eq_of_lt h32] at hp
  refine ⟨pt, hpt, hidx, fun hal => ?_, fun hal => vmFault_of_translate_none hft (vmTranslate_of_unaligned hA hr hp hal)⟩
  -- an aligned frame: the entry goes into the slot `vm_fault` picks
  refine ⟨_, (firstInvalid tlb).getD victim, vmFault_of_translate hft (vmTranslate_of_paddr hA hr hp hal),
    by rw [tlbWrite_self], ?_, ?_, ?_, tlbWrite_unique hmiss, fun j hj => tlbWrite_of_ne _ hj, getD_firstInvalid⟩
  · rw [tlbWrite_self]
    exact TlbEntry.valid_tlbElo hal h32 _ _
  · rw [tlbWrite_self]
    exact TlbEntry.ppage_tlbElo hal h32 _ _
  · rw [tlbWrite_self, TlbEntry.dirty_tlbElo hal h32, decide_eq_false_iff_not,
      Addrspace.readOnly_iff hfit hh hb]

/-- A read of a code page of `loadedSpace`, a loaded program, with the TLB
    just emptied by `as_activate`: the entry maps the page to the code
    table's frame, read-only. -/
theorem loaded_code_page_read_only :
    ∃ tlb' k, vmFault vmFaultRead (some loadedSpace) asActivate ⟨0, by decide⟩ 0x400123 = some (0, tlb') ∧
      (tlb' k).ehi = 0x400000 ∧ (tlb' k).Valid ∧ (tlb' k).ppage = 0x1000 ∧ ¬ (tlb' k).Dirty := by
  have hfit : loadedSpace.Fits := fun r => by cases r <;> decide
  have hframes : ∀ r pt, loadedSpace.table r = some pt → ∀ i < loadedSpace.npages r, pt i < 2 ^ 32 := by
    intro r pt hpt i _
    cases r <;> simp only [Addrspace.table, loadedSpace, loadElfDone] at hpt <;>
      obtain rfl := Option.some.inj hpt <;> simp
  have hmiss : ∀ j, (asActivate j).Valid → (asActivate j).ehi ≠ pageFrame 0x400123 :=
    fun j hv => absurd hv (by simp [asActivate, TlbEntry.Valid])
  obtain ⟨hrw, -⟩ :=
    @vm_fault_translates loadedSpace asActivate ⟨0, by decide⟩ vmFaultRead 0x400123 (by decide) hfit hframes
      hmiss
  obtain ⟨hmap, -⟩ := hrw (.inl rfl)
  obtain ⟨pt, hpt, -, hal, -⟩ := hmap .code (by decide) (by simp [Region.before])
  simp only [Addrspace.table, loadedSpace, loadElfDone] at hpt
  obtain rfl := Option.some.inj hpt
  obtain ⟨tlb', k, hrun, hehi, hv, hpp, hd, -⟩ := hal (by decide)
  exact ⟨tlb', k, hrun, hehi, hv, hpp, by rw [hd]; decide⟩

/-- For regions that fit, `vmFaultEntry` is what `vm_fault` finds: the table
    entry of the first region holding the page, and whether it is writable. -/
theorem vmFaultEntry_eq (hfit : as.Fits) :
    vmFaultEntry as faultaddress =
      match as.regionOf (pageFrame faultaddress) with
      | some r => (as.table r).map fun pt =>
          .ok (pt ((pageFrame faultaddress - as.base r) / pageSize),
            !decide (as.readOnly (pageFrame faultaddress)))
      | none => some (.error .efault) := by
  rw [Addrspace.regionOf_of_fits hfit]
  have htop : userstack - dumbvmStackpages * pageSize + dumbvmStackpages * pageSize = userstack := by
    decide
  simp only [vmFaultEntry, Addrspace.readOnly, Addrspace.Holds, Addrspace.vtop_of_fits hfit, pageFrame,
    Addrspace.base, Addrspace.npages, Addrspace.table, Addrspace.stackbase, htop]
  -- the same three tests on both sides
  split_ifs <;> simp only [*]

/-- Where `vmFaultEntry` gives a page-aligned frame, `vm_fault` writes the entry
    mapping the page to it, dirty as `vmFaultEntry` says. -/
theorem vmFault_refines_vmFaultEntry (hft : faulttype = vmFaultRead ∨ faulttype = vmFaultWrite)
    (hA : as.FaultAsserts) (hfit : as.Fits) {f : Nat} {dirty : Bool}
    (he : vmFaultEntry as faultaddress = some (.ok (f, dirty))) (hal : f % pageSize = 0) (h32 : f < 2 ^ 32) :
    vmFault faulttype (some as) tlb victim faultaddress =
      some (0, tlbWrite tlb ((firstInvalid tlb).getD victim) ⟨pageFrame faultaddress, tlbElo f !dirty⟩) := by
  rw [vmFaultEntry_eq hfit] at he
  cases hr : as.regionOf (pageFrame faultaddress) with
  | none => rw [hr] at he; cases he
  | some r =>
    rw [hr] at he
    obtain ⟨pt, hpt, hok⟩ := Option.map_eq_some_iff.1 he
    obtain ⟨rfl, rfl⟩ := Prod.mk.inj (Except.ok.inj hok)
    have hh := ((Addrspace.regionOf_eq_some_iff hfit).1 hr).1
    have hp := Addrspace.paddrOf_of_holds hA hfit hh (pageFrame_mod _) hpt
    rw [Nat.mod_eq_of_lt h32] at hp
    rw [vmFault_of_translate hft (vmTranslate_of_paddr hA hr hp hal), Bool.not_not]

end Fault

end Os161.Dumbvm
