import Mathlib
import Os161.Sfs.Vnode

/-!
# Directories and the vnode operations on names

A directory of SFS is a file of `struct sfs_dir` slots (kern/sfs.h): the
inode number `sfd_ino` (big-endian, as the MIPS stores it; `SFS_NOINO` for an
empty slot) and the name `sfd_name`. The directory functions of sfs_vnode.c
read and write slots through `sfs_io`: `sfs_readdir`, `sfs_writedir`,
`sfs_dir_nentries`, `sfs_dir_findname` (the slot of a name and the last empty
slot), `sfs_dir_link` (a name into the last empty slot, or a new slot at the
end), `sfs_dir_unlink` and `sfs_lookonce`.

Over them stand the vnode operations on names: `sfs_creat`, `sfs_link`,
`sfs_remove` and `sfs_rename`, with the undo paths of `sfs_rename` (its
labels `puke` and `puke_harder`).
-/

namespace Os161.Sfs

open KernM

/-- A C string: its bytes before the terminating NUL. -/
structure CStr where
  bytes : List UInt8
  no_nul : 0 ∉ bytes
  deriving DecidableEq

/-- `sizeof(struct sfs_dir)`. -/
def sfsDirSize : Nat := 4 + sfsNamelen

/-- The bytes of `struct sfs_dir` after `bzero`, `sd.sfd_ino = ino` and
    `strcpy(sd.sfd_name, name)`. -/
def encodeDir (ino : Nat) (name : List UInt8) : Nat → UInt8 := fun i =>
  if i < 4 then UInt8.ofNat (ino / 2 ^ (8 * (3 - i))) else name.getD (i - 4) 0

/-- `sfd_ino` of the bytes of a slot. -/
def decodeIno (sd : Nat → UInt8) : Nat :=
  (sd 0).toNat * 2 ^ 24 + (sd 1).toNat * 2 ^ 16 + (sd 2).toNat * 2 ^ 8 + (sd 3).toNat

/-- `sfd_name` of the bytes of a slot as a C string, after
    `tsd.sfd_name[sizeof(tsd.sfd_name)-1] = 0`. -/
def decodeName (sd : Nat → UInt8) : CStr :=
  ⟨((List.range (sfsNamelen - 1)).map fun i => sd (4 + i)).takeWhile (· ≠ 0), by
    intro h
    simpa using List.mem_takeWhile_imp h⟩

/-- A run of an I/O with the `uio` `uio`: the `uio` after it. -/
def runIo (m : IoM Unit) (uio : Uio) : SfsM Uio := fun fs =>
  (m (fs, uio)).map fun r => (r.1.map fun _ => r.2.2, r.2.1)

/-- `sfs_readdir(sv, &sd, slot)` of the directory `dir`: the bytes of the slot. -/
def sfsReaddir (dir slot : Nat) : SfsM (Nat → UInt8) := do
  let uio ← runIo (sfsIo dir) (uioKinit (fun _ => 0) sfsDirSize (slot * sfsDirSize) .read)
  -- panic("sfs: readdir: Short entry")
  if uio.resid > 0 then fail else pure uio.buf

/-- `sfs_writedir(sv, &sd, slot)`. -/
def sfsWritedir (dir slot : Nat) (sd : Nat → UInt8) : SfsM Unit := do
  let uio ← runIo (sfsIo dir) (uioKinit sd sfsDirSize (slot * sfsDirSize) .write)
  -- panic("sfs: writedir: Short write")
  if uio.resid > 0 then fail else pure ()

/-- `sfs_dir_nentries(sv)`: the number of slots. -/
def sfsDirNentries (dir : Nat) : SfsM Nat := do
  let inode ← getInode dir
  kassert (inode.type = .dir)
  -- panic("sfs: directory %u: Invalid size %llu")
  if inode.size % sfsDirSize ≠ 0 then fail else pure (inode.size / sfsDirSize)

/-- What `sfs_dir_findname` hands back: the inode and slot of the name, if
    found, and the last empty slot seen. -/
structure Found where
  found : Option (Nat × Nat)
  emptyslot : Option Nat

/-- The loop of `sfs_dir_findname` over `n` slots from `i`. -/
def findnameLoop (dir : Nat) (name : CStr) : Nat → Nat → Found → SfsM Found
  | 0, _, acc => pure acc
  | n + 1, i, acc => do
    let tsd ← sfsReaddir dir i
    if decodeIno tsd = sfsNoino then findnameLoop dir name n (i + 1) { acc with emptyslot := some i }
    else if decodeName tsd = name then do
      -- each name may appear only once
      kassert (acc.found = none)
      findnameLoop dir name n (i + 1) { acc with found := some (decodeIno tsd, i) }
    else findnameLoop dir name n (i + 1) acc

/-- `sfs_dir_findname(sv, name, &ino, &slot, &emptyslot)`; not finding the
    name is `ENOENT` to the callers. -/
def sfsDirFindname (dir : Nat) (name : CStr) : SfsM Found := do
  let nentries ← sfsDirNentries dir
  findnameLoop dir name nentries 0 ⟨none, none⟩

/-- `sfs_dir_link(sv, name, ino, &slot)`: the slot written. -/
def sfsDirLink (dir : Nat) (name : CStr) (ino : Nat) : SfsM Nat := do
  let r ← sfsDirFindname dir name
  if r.found.isSome then throw .eexist
  if name.bytes.length + 1 > sfsNamelen then throw .enametoolong
  let slot ← match r.emptyslot with
    | some s => pure s
    | none => sfsDirNentries dir
  sfsWritedir dir slot (encodeDir ino name.bytes)
  pure slot

/-- `sfs_dir_unlink(sv, slot)`. -/
def sfsDirUnlink (dir slot : Nat) : SfsM Unit :=
  sfsWritedir dir slot (encodeDir sfsNoino [])

/-- `sfs_lookonce(sv, name, &sv2, &slot)`: the inode and the slot of a name,
    with a reference to its vnode. -/
def sfsLookonce (dir : Nat) (name : CStr) : SfsM (Nat × Nat) := do
  let r ← sfsDirFindname dir name
  match r.found with
  | none => throw .enoent
  | some (ino, slot) => do
    sfsLoadvnode ino .inval
    let inode ← getInode ino
    -- panic("sfs: Link count of file %u found in dir %u is 0")
    if inode.linkcount = 0 then fail else pure (ino, slot)

/-- A change of the link count of a loaded inode. -/
def setLinkcount (ino : Nat) (f : Nat → Nat) : SfsM Unit :=
  modifyInode ino fun i => { i with linkcount := f i.linkcount }

/-- `sfs_creat(dir, name, excl, mode, &ret)`: the inode of the file, with a
    reference to its vnode. -/
def sfsCreat (dir : Nat) (name : CStr) (excl : Bool) : SfsM Nat := do
  let r ← sfsDirFindname dir name
  match r.found with
  | some (ino, _) =>
    if excl then throw .eexist
    else do
      sfsLoadvnode ino .inval
      pure ino
  | none => do
    let ino ← sfsMakeobj .file
    let r ← result (sfsDirLink dir name ino)
    match r with
    | .error e => do
      vnodeDecref ino
      throw e
    | .ok _ => do
      setLinkcount ino (· + 1)
      pure ino

/-- `sfs_link(dir, name, file)` for the loaded file `file`. -/
def sfsLink (dir : Nat) (name : CStr) (file : Nat) : SfsM Unit := do
  let _ ← sfsDirLink dir name file
  setLinkcount file (· + 1)

/-- `sfs_remove(dir, name)`. -/
def sfsRemove (dir : Nat) (name : CStr) : SfsM Unit := do
  let (victim, slot) ← sfsLookonce dir name
  let r ← result (sfsDirUnlink dir slot)
  if r matches .ok _ then do
    let inode ← getInode victim
    kassert (inode.linkcount > 0)
    setLinkcount victim (· - 1)
  vnodeDecref victim
  match r with
  | .error e => throw e
  | .ok () => pure ()

/-- `sfs_rename(d1, n1, d2, n2)` in the root directory `dir`. -/
def sfsRename (dir : Nat) (n1 n2 : CStr) : SfsM Unit := do
  kassert (dir = sfsRootLocation)
  let (g1, slot1) ← sfsLookonce dir n1
  let inode ← getInode g1
  kassert (inode.type = .file)
  let r ← result (sfsDirLink dir n2 g1)
  match r with
  | .error e => do
    -- puke:
    vnodeDecref g1
    throw e
  | .ok slot2 => do
    setLinkcount g1 (· + 1)
    let r ← result (sfsDirUnlink dir slot1)
    match r with
    | .ok () => do
      let inode ← getInode g1
      kassert (inode.linkcount > 0)
      setLinkcount g1 (· - 1)
      vnodeDecref g1
    | .error e => do
      -- puke_harder: undo the new link; the link count goes back without
      -- marking the inode dirty again
      let r2 ← result (sfsDirUnlink dir slot2)
      match r2 with
      -- panic("sfs: rename: Cannot recover")
      | .error _ => fail
      | .ok () => do
        modify fun fs => fs.updateVnode g1 fun v =>
          { v with inode := { v.inode with linkcount := v.inode.linkcount - 1 } }
        vnodeDecref g1
        throw e

end Os161.Sfs
