import Mathlib

/-!
# Error numbers and machine constants

The error numbers of kern/include/kern/errno.h that the modelled kernel code
returns, and the constants of the MIPS memory layout
(kern/arch/mips/include/vm.h) that its address arithmetic uses.

Kernel functions that fail return an error number; the models return
`Except Errno α`. Some code returns the number itself where another value is
expected (`getppages` returns `ENOMEM` as a physical address), so `Errno.toNat`
gives the numbers of errno.h.
-/

namespace Os161

/-- The error numbers of kern/errno.h that the modelled code returns. -/
inductive Errno
  | enomem
  | efault
  | enametoolong
  | einval
  | echild
  | enotdir
  | enoent
  | eexist
  | eio
  | enospc
  | efbig
  | eunimp
  | ebusy
  | enodev
  | enxio
  | enoexec
  deriving DecidableEq, Repr

/-- The value of an error number in kern/errno.h. -/
def Errno.toNat : Errno → Nat
  | .enomem => 3
  | .efault => 6
  | .enametoolong => 7
  | .einval => 8
  | .echild => 16
  | .enotdir => 17
  | .enoent => 19
  | .eexist => 22
  | .eio => 32
  | .enospc => 36
  | .efbig => 38
  | .eunimp => 2
  | .ebusy => 27
  | .enodev => 25
  | .enxio => 26
  | .enoexec => 13

theorem Errno.toNat_pos (e : Errno) : 0 < e.toNat := by
  cases e <;> decide

/-- `PAGE_SIZE` (vm.h). -/
def pageSize : Nat := 4096

/-- `MIPS_KSEG0` (vm.h): the start of the kernel's direct-mapped segment. -/
def mipsKseg0 : Nat := 0x80000000

/-- `USERSPACETOP` (vm.h): user addresses are those below it. -/
def userspacetop : Nat := mipsKseg0

/-- `PADDR_TO_KVADDR` (vm.h). -/
def paddrToKvaddr (paddr : Nat) : Nat := paddr + mipsKseg0

/-- The pointers a buffer from `kmalloc(n * sizeof(void *))` has room for:
    pointers are 4 bytes and the byte count is a 32-bit `size_t`, so the
    product wraps from `n = 2^30` on. -/
def ptrSlots (n : Nat) : Nat := n * 4 % 2 ^ 32 / 4

theorem ptrSlots_of_lt {n : Nat} (h : n < 2 ^ 30) : ptrSlots n = n := by
  unfold ptrSlots
  rw [Nat.mod_eq_of_lt (by omega)]
  omega

end Os161
