import Mathlib
import Os161.Basic
import Os161.Klib.Bitmap
import Os161.Lib.KernM

/-!
# The Simple File System: device, freemap, inodes and block maps

The state of a mounted SFS volume (kern/include/sfs.h, kern/fs/sfs): the
superblock's block count, the freemap, the disk with its device, and the
vnodes loaded in memory.

* The disk holds, for each block, the bytes of a data block and the same block
  read as an inode or as an indirect block; the code writes a block as one of
  these and reads it back as the same one, and a cleared block reads as zeros
  in all three.
* The device answers each read and each write request by a failure schedule
  (indexed by the number of such requests made so far). `sfs_rwblock` retries
  a failed read up to ten times before returning `EIO`. A write is moved out
  of the `uio` before the request (lhd.c), so the retry of a failed write
  finds nothing left to write and returns `0`: a failed write is lost without
  an error.

The functions of sfs_vnode.c here are `sfs_balloc`, `sfs_bfree`, `sfs_bused`,
`sfs_clearblock`, `sfs_sync_inode`, `sfs_bmap` and `sfs_truncate`, in the
monad `KernM` (a panic or a failed `KASSERT` stops the run). The big lock is
left out: a run is one thread's.
-/

namespace Os161.Sfs

open KernM

/-- `SFS_BLOCKSIZE`. -/
def sfsBlocksize : Nat := 512

/-- `SFS_NDIRECT`. -/
def sfsNdirect : Nat := 15

/-- `SFS_DBPERIDB`. -/
def sfsDbperidb : Nat := 128

/-- `SFS_NAMELEN`. -/
def sfsNamelen : Nat := 60

/-- `SFS_SB_LOCATION`: the superblock. -/
def sfsSbLocation : Nat := 0

/-- `SFS_ROOT_LOCATION`. -/
def sfsRootLocation : Nat := 1

/-- `SFS_MAP_LOCATION`: the first block of the freemap. -/
def sfsMapLocation : Nat := 2

/-- `SFS_BLOCKBITS`: the bits of the freemap one block holds. -/
def sfsBlockbits : Nat := sfsBlocksize * 8

/-- `SFS_BITBLOCKS(nblocks)`: the blocks of the freemap,
    `SFS_ROUNDUP(nblocks, SFS_BLOCKBITS) / SFS_BLOCKBITS`. -/
def sfsBitblocks (nblocks : Nat) : Nat :=
  (nblocks + sfsBlockbits - 1) / sfsBlockbits * sfsBlockbits / sfsBlockbits

/-- `SFS_NOINO`. -/
def sfsNoino : Nat := 0

/-- `SFS_TYPE_*`. -/
inductive FileType
  | inval
  | file
  | dir
  deriving DecidableEq, Repr

/-- `struct sfs_inode`, without the unused `sfi_waste`. -/
structure Inode where
  size : Nat
  type : FileType
  linkcount : Nat
  /-- `sfi_direct[i]` for `i < SFS_NDIRECT`. -/
  direct : Nat → Nat
  indirect : Nat

/-- An inode read from a cleared block. -/
def Inode.zero : Inode := ⟨0, .inval, 0, fun _ => 0, 0⟩

/-- The disk: each block as data bytes, as an inode and as the entries of an
    indirect block. -/
structure Disk where
  data : Nat → Nat → UInt8
  inode : Nat → Inode
  entries : Nat → Nat → Nat

namespace Disk

/-- `sfs_clearblock`: the block reads as zeros in every way. -/
def clear (d : Disk) (b : Nat) : Disk :=
  ⟨Function.update d.data b fun _ => 0, Function.update d.inode b Inode.zero,
    Function.update d.entries b fun _ => 0⟩

def writeData (d : Disk) (b : Nat) (bytes : Nat → UInt8) : Disk :=
  { d with data := Function.update d.data b bytes }

def writeInode (d : Disk) (b : Nat) (i : Inode) : Disk :=
  { d with inode := Function.update d.inode b i }

def writeEntries (d : Disk) (b : Nat) (e : Nat → Nat) : Disk :=
  { d with entries := Function.update d.entries b e }

end Disk

/-- `struct sfs_vnode`: an inode loaded in memory, with the vnode's reference
    count. -/
structure Vnode where
  ino : Nat
  inode : Inode
  dirty : Bool
  refcount : Nat

/-- What a run on the volume meets from outside: the device's answers to read
    and write requests and the kernel heap's answers to `kmalloc`, each by a
    schedule indexed by the number of such requests made so far. -/
structure Env where
  /-- Whether the device's `n`-th read request fails. -/
  readFail : Nat → Bool
  reads : Nat
  /-- Whether the device's `n`-th write request fails. -/
  writeFail : Nat → Bool
  writes : Nat
  /-- Whether the `n`-th `kmalloc` finds no memory. -/
  kmallocFail : Nat → Bool
  kmallocs : Nat

/-- A mounted SFS volume (`struct sfs_fs`) with its disk and what its runs
    meet from outside. -/
structure Fs where
  /-- `sfs_super.sp_nblocks`. -/
  nblocks : Nat
  /-- `sfs_freemap`: blocks in use are marked. -/
  freemap : Bitmap
  disk : Disk
  env : Env
  /-- `sfs_vnodes`, in the order of the array. -/
  vnodes : List Vnode
  /-- The room of the array `sfs_vnodes` (`a->max`). -/
  vnodesMax : Nat

/-- Computations on a mounted volume. -/
abbrev SfsM := KernM Fs Errno

namespace Fs

/-- The vnode of inode `ino`, if it is loaded. -/
def vnode? (fs : Fs) (ino : Nat) : Option Vnode := fs.vnodes.find? (·.ino == ino)

/-- Change the loaded vnode of inode `ino`. -/
def updateVnode (fs : Fs) (ino : Nat) (f : Vnode → Vnode) : Fs :=
  { fs with vnodes := fs.vnodes.map fun v => if v.ino = ino then f v else v }

@[simp] theorem updateVnode_nblocks (fs : Fs) (ino : Nat) (f : Vnode → Vnode) :
    (fs.updateVnode ino f).nblocks = fs.nblocks := rfl

@[simp] theorem updateVnode_freemap (fs : Fs) (ino : Nat) (f : Vnode → Vnode) :
    (fs.updateVnode ino f).freemap = fs.freemap := rfl

@[simp] theorem updateVnode_disk (fs : Fs) (ino : Nat) (f : Vnode → Vnode) :
    (fs.updateVnode ino f).disk = fs.disk := rfl

@[simp] theorem updateVnode_env (fs : Fs) (ino : Nat) (f : Vnode → Vnode) :
    (fs.updateVnode ino f).env = fs.env := rfl

@[simp] theorem updateVnode_vnodesMax (fs : Fs) (ino : Nat) (f : Vnode → Vnode) :
    (fs.updateVnode ino f).vnodesMax = fs.vnodesMax := rfl

/-- A change that keeps each vnode's inode number changes the vnode found
    for `ino'` when that is the one changed. -/
theorem vnode?_updateVnode {fs : Fs} {ino : Nat} {f : Vnode → Vnode} (hf : ∀ v, (f v).ino = v.ino)
    (ino' : Nat) :
    (fs.updateVnode ino f).vnode? ino' =
      (fs.vnode? ino').map fun v => if v.ino = ino then f v else v := by
  have hp : ((fun v : Vnode => v.ino == ino') ∘ fun v => if v.ino = ino then f v else v) =
      fun v => v.ino == ino' := by
    funext v
    by_cases h : v.ino = ino <;> simp [h, hf]
  simp only [vnode?, updateVnode, List.find?_map, hp]

theorem vnode?_updateVnode_self {fs : Fs} {ino : Nat} {f : Vnode → Vnode}
    (hf : ∀ v, (f v).ino = v.ino) : (fs.updateVnode ino f).vnode? ino = (fs.vnode? ino).map f := by
  rw [vnode?_updateVnode hf]
  cases h : fs.vnode? ino with
  | none => rfl
  | some v =>
    -- the vnode found for `ino` has that number
    have hv : v.ino = ino := by simpa using List.find?_some h
    simp [hv]

theorem vnode?_updateVnode_ne {fs : Fs} {ino ino' : Nat} {f : Vnode → Vnode}
    (hf : ∀ v, (f v).ino = v.ino) (hne : ino' ≠ ino) :
    (fs.updateVnode ino f).vnode? ino' = fs.vnode? ino' := by
  rw [vnode?_updateVnode hf]
  cases h : fs.vnode? ino' with
  | none => rfl
  | some v =>
    have hv : v.ino = ino' := by simpa using List.find?_some h
    simp [hv, hne]

@[simp] theorem vnode?_setEnv (fs : Fs) (e : Env) : ({ fs with env := e } : Fs).vnode? = fs.vnode? :=
  rfl

@[simp] theorem vnode?_setDisk (fs : Fs) (d : Disk) : ({ fs with disk := d } : Fs).vnode? = fs.vnode? :=
  rfl

@[simp] theorem vnode?_setFreemap (fs : Fs) (m : Bitmap) :
    ({ fs with freemap := m } : Fs).vnode? = fs.vnode? := rfl

/-- The inode `ino` as the code sees it: in memory if loaded, else on disk. -/
def inodeOf (fs : Fs) (ino : Nat) : Inode :=
  match fs.vnode? ino with
  | some v => v.inode
  | none => fs.disk.inode ino

end Fs

/-! ## The device -/

/-- One read request to the device: whether it failed. -/
def readRequest : SfsM Bool := do
  let fs ← get
  set { fs with env := { fs.env with reads := fs.env.reads + 1 } }
  pure (fs.env.readFail fs.env.reads)

/-- One write request to the device: whether it failed. -/
def writeRequest : SfsM Bool := do
  let fs ← get
  set { fs with env := { fs.env with writes := fs.env.writes + 1 } }
  pure (fs.env.writeFail fs.env.writes)

/-- The retries of a read in `sfs_rwblock`, `n` requests left: `EIO` when all
    of them fail. -/
def readRetry : Nat → SfsM Unit
  | 0 => throw .eio
  | n + 1 => do
    let failed ← readRequest
    if failed then readRetry n else pure ()

/-- A read through `sfs_rwblock`: the first request and ten retries. -/
def sfsRead : SfsM Unit := readRetry 11

/-- A write through `sfs_rwblock`: one request; when it fails, the retry has
    nothing left to write and succeeds, and the block is not written. -/
def sfsWrite (write : Disk → Disk) : SfsM Unit := do
  let failed ← writeRequest
  if failed then pure () else modify fun fs => { fs with disk := write fs.disk }

/-- The volume after one write request for `write`: written unless the device
    fails the request. -/
def Fs.afterWrite (fs : Fs) (write : Disk → Disk) : Fs :=
  { fs with
    env := { fs.env with writes := fs.env.writes + 1 }
    disk := if fs.env.writeFail fs.env.writes then fs.disk else write fs.disk }

theorem sfsWrite_apply (write : Disk → Disk) (fs : Fs) :
    sfsWrite write fs = some (.ok (), fs.afterWrite write) := by
  cases h : fs.env.writeFail fs.env.writes <;> simp [sfsWrite, writeRequest, Fs.afterWrite, h]

/-- `sfs_rblock` of a data block. -/
def sfsRblockData (block : Nat) : SfsM (Nat → UInt8) := do
  sfsRead
  let fs ← get
  pure (fs.disk.data block)

/-- `sfs_rblock` of an indirect block. -/
def sfsRblockEntries (block : Nat) : SfsM (Nat → Nat) := do
  sfsRead
  let fs ← get
  pure (fs.disk.entries block)

/-- `sfs_rblock` of an inode. -/
def sfsRblockInode (block : Nat) : SfsM Inode := do
  sfsRead
  let fs ← get
  pure (fs.disk.inode block)

/-- `sfs_clearblock(sfs, block)`. -/
def sfsClearblock (block : Nat) : SfsM Unit :=
  sfsWrite fun d => d.clear block

/-! ## Loaded inodes -/

/-- `sv->sv_i` of the loaded vnode of `ino`. -/
def getInode (ino : Nat) : SfsM Inode := do
  let fs ← get
  match fs.vnode? ino with
  | some v => pure v.inode
  | none => fail

/-- A change to `sv->sv_i` that also sets `sv->sv_dirty`. -/
def modifyInode (ino : Nat) (f : Inode → Inode) : SfsM Unit :=
  modify fun fs => fs.updateVnode ino fun v => { v with inode := f v.inode, dirty := true }

/-- `sfs_sync_inode(sv)`: write a dirty inode back. -/
def sfsSyncInode (ino : Nat) : SfsM Unit := do
  let fs ← get
  match fs.vnode? ino with
  | none => fail
  | some v =>
    if v.dirty then do
      sfsWrite fun d => d.writeInode ino v.inode
      modify fun fs => fs.updateVnode ino fun v => { v with dirty := false }
    else pure ()

/-! ## Space allocation -/

/-- `sfs_balloc(sfs, &diskblock)`: take the first free block of the freemap
    and clear it. -/
def sfsBalloc : SfsM Nat := do
  let fs ← get
  match fs.freemap.alloc with
  | none => fail
  | some (.error e) => throw e
  | some (.ok (block, freemap)) =>
    set { fs with freemap := freemap }
    -- panic("sfs: balloc: invalid block")
    if block ≥ fs.nblocks then fail
    else do
      sfsClearblock block
      pure block

/-- `sfs_bfree(sfs, diskblock)`; `bitmap_unmark` asserts the block was in use. -/
def sfsBfree (block : Nat) : SfsM Unit := do
  let fs ← get
  match fs.freemap.unmark block with
  | none => fail
  | some freemap => set { fs with freemap := freemap }

/-- `sfs_bused(sfs, diskblock)`. -/
def sfsBused (block : Nat) : SfsM Bool := do
  let fs ← get
  if block ≥ fs.nblocks then fail else pure (fs.freemap.isset block)

/-! ## Block mapping -/

/-- The last check of `sfs_bmap`: a block handed back must be marked in use. -/
def checkUsed (block : Nat) : SfsM Unit :=
  if block ≠ 0 then do
    let used ← sfsBused block
    if used then pure () else fail
  else pure ()

/-- `sfs_bmap(sv, fileblock, doalloc, &diskblock)` for the loaded inode `ino`:
    the disk block of a block of the file, `0` for a hole, allocating the
    missing blocks when `doalloc`; `EFBIG` past the indirect block. -/
def sfsBmap (ino fileblock : Nat) (doalloc : Bool) : SfsM Nat := do
  let inode ← getInode ino
  if fileblock < sfsNdirect then
    let block ← if inode.direct fileblock = 0 ∧ doalloc then do
        let block ← sfsBalloc
        modifyInode ino fun i => { i with direct := Function.update i.direct fileblock block }
        pure block
      else pure (inode.direct fileblock)
    checkUsed block
    pure block
  else
    let fileblock := fileblock - sfsNdirect
    let idnum := fileblock / sfsDbperidb
    let idoff := fileblock % sfsDbperidb
    if idnum > 0 then throw .efbig
    else if inode.indirect = 0 ∧ doalloc = false then pure 0
    else do
      let (idblock, idbuf) ← if inode.indirect = 0 then do
          let idblock ← sfsBalloc
          modifyInode ino fun i => { i with indirect := idblock }
          pure (idblock, fun _ => 0)
        else do
          let idbuf ← sfsRblockEntries inode.indirect
          pure (inode.indirect, idbuf)
      let block ← if idbuf idoff = 0 ∧ doalloc then do
          let block ← sfsBalloc
          sfsWrite fun d => d.writeEntries idblock (Function.update idbuf idoff block)
          pure block
        else pure (idbuf idoff)
      checkUsed block
      pure block

/-! ## Truncation -/

/-- `DIVROUNDUP(len, SFS_BLOCKSIZE)`: the length in blocks. -/
def blocklenOf (len : Nat) : Nat := (len + sfsBlocksize - 1) / sfsBlocksize

/-- The loop of `sfs_truncate` over the direct blocks `i, i + 1, ...`: free
    those at or past `blocklen`. -/
def truncDirect (ino blocklen : Nat) : Nat → Nat → SfsM Unit
  | 0, _ => pure ()
  | n + 1, i => do
    let inode ← getInode ino
    let block := inode.direct i
    if i ≥ blocklen ∧ block ≠ 0 then do
      sfsBfree block
      modifyInode ino fun inode => { inode with direct := Function.update inode.direct i 0 }
      truncDirect ino blocklen n (i + 1)
    else truncDirect ino blocklen n (i + 1)

/-- The loop of `sfs_truncate` over the entries `j, j + 1, ...` of the
    indirect block: free those with `blocklen < baseblock + j`, and record
    whether an entry is left (`hasnonzero`) and whether one was cleared
    (`iddirty`). -/
def truncIndirect (blocklen baseblock : Nat) :
    Nat → Nat → (Nat → Nat) → Bool → Bool → SfsM ((Nat → Nat) × Bool × Bool)
  | 0, _, idbuf, hasnonzero, iddirty => pure (idbuf, hasnonzero, iddirty)
  | n + 1, j, idbuf, hasnonzero, iddirty => do
    let (idbuf, iddirty) ← if blocklen < baseblock + j ∧ idbuf j ≠ 0 then do
        sfsBfree (idbuf j)
        pure (Function.update idbuf j 0, true)
      else pure (idbuf, iddirty)
    truncIndirect blocklen baseblock n (j + 1) idbuf (hasnonzero || idbuf j != 0) iddirty

/-- `sfs_truncate(v, len)` for the loaded inode `ino`. -/
def sfsTruncate (ino len : Nat) : SfsM Unit := do
  let blocklen := blocklenOf len
  truncDirect ino blocklen sfsNdirect 0
  let inode ← getInode ino
  let idblock := inode.indirect
  let baseblock := sfsNdirect
  let highblock := baseblock + sfsDbperidb - 1
  if blocklen < highblock ∧ idblock ≠ 0 then do
    let idbuf ← sfsRblockEntries idblock
    let (idbuf, hasnonzero, iddirty) ← truncIndirect blocklen baseblock sfsDbperidb 0 idbuf false false
    if !hasnonzero then do
      -- the whole indirect block is empty now
      sfsBfree idblock
      modifyInode ino fun i => { i with indirect := 0 }
    else if iddirty then sfsWrite fun d => d.writeEntries idblock idbuf
    else pure ()
  modifyInode ino fun i => { i with size := len }

end Os161.Sfs
