import Os161.Sfs.Truncate

/-!
# The table of loaded vnodes

`sfs_loadvnode` (sfs_vnode.c) finds the vnode of an inode in the table
`sfs_vnodes`, taking a reference, or reads the inode from its block and adds a
new vnode to the table. Both the vnode and the room for it in the table come
from `kmalloc`, which may find no memory. `vnode_decref` (vnode.c) drops a
reference; the last one goes through `sfs_reclaim`, which erases a file with
no links left (its blocks, then its inode block) and takes the vnode out of
the table. `sfs_makeobj` takes a block for a new inode and loads it.

A vnode is named by its inode number: the table holds one vnode per inode.

* `vnodeDecref_of_failed_reclaim`: when the device fails the read of the
  indirect block of a removed file, the last `vnode_decref` returns as usual,
  and the vnode stays in the table with a count of one that no reference
  accounts for.
-/

namespace Os161.Sfs

open KernM

/-- `kmalloc`: whether the heap had room. -/
def kmalloc : SfsM Bool := do
  let fs ← get
  set { fs with env := { fs.env with kmallocs := fs.env.kmallocs + 1 } }
  pure !(fs.env.kmallocFail fs.env.kmallocs)

/-- The loop of `array_setsize` that finds the new room for `num` entries,
    doubling from `max` (or starting at 4); `fuel` bounds the rounds. -/
def growMax : Nat → Nat → Nat → Nat
  | 0, _, max => max
  | fuel + 1, num, max => if num > max then growMax fuel num (if max = 0 then 4 else 2 * max) else max

/-- `vnodearray_add(sfs->sfs_vnodes, v, NULL)`: a bigger array from `kmalloc`
    when the table is full, then the vnode at the end. -/
def vnodearrayAdd (v : Vnode) : SfsM Unit := do
  let fs ← get
  let num := fs.vnodes.length + 1
  if num > fs.vnodesMax then do
    let ok ← kmalloc
    if !ok then throw .enomem
    modify fun fs => { fs with vnodesMax := growMax num num fs.vnodesMax }
  modify fun fs => { fs with vnodes := fs.vnodes ++ [v] }

/-- The search of `sfs_loadvnode` through the table: whether `ino` is loaded,
    taking a reference to it if so. Each vnode looked at must be in a block in
    use. -/
def loadvnodeSearch (ino : Nat) (forcetype : FileType) : List Vnode → SfsM Bool
  | [] => pure false
  | v :: vs => do
    let used ← sfsBused v.ino
    -- panic("sfs: Found inode %u in unallocated block")
    if !used then fail
    else if v.ino = ino then do
      kassert (forcetype = .inval)
      modify fun fs => fs.updateVnode ino fun v => { v with refcount := v.refcount + 1 }
      pure true
    else loadvnodeSearch ino forcetype vs

/-- `sfs_loadvnode(sfs, ino, forcetype, &sv)`: the vnode of `ino` with a new
    reference, loaded from disk if it is not in the table. A new object
    (`forcetype` not `SFS_TYPE_INVAL`) gets its type here. -/
def sfsLoadvnode (ino : Nat) (forcetype : FileType) : SfsM Unit := do
  let fs ← get
  let found ← loadvnodeSearch ino forcetype fs.vnodes
  if found then pure ()
  else do
    let ok ← kmalloc
    if !ok then throw .enomem
    let used ← sfsBused ino
    -- panic("sfs: Tried to load inode %u from unallocated block")
    if !used then fail
    let inode ← sfsRblockInode ino
    let (inode, dirty) ← if forcetype ≠ .inval then do
        kassert (inode.type = .inval)
        pure ({ inode with type := forcetype }, true)
      else pure (inode, false)
    -- panic("sfs: loadvnode: Invalid inode type")
    if inode.type = .inval then fail
    vnodearrayAdd ⟨ino, inode, dirty, 1⟩

/-- The loaded vnode of `ino`. -/
def getVnode (ino : Nat) : SfsM Vnode := do
  let fs ← get
  match fs.vnode? ino with
  | some v => pure v
  | none => fail

/-- `sfs_reclaim(v)` of the vnode of `ino`: `EBUSY` if another reference
    appeared; else a file with no links is erased, the inode written back and
    the vnode taken out of the table. -/
def sfsReclaim (ino : Nat) : SfsM Unit := do
  let v ← getVnode ino
  if v.refcount ≠ 1 then do
    kassert (v.refcount > 1)
    modify fun fs => fs.updateVnode ino fun v => { v with refcount := v.refcount - 1 }
    throw .ebusy
  else do
    if v.inode.linkcount = 0 then sfsTruncate ino 0
    sfsSyncInode ino
    let inode ← getInode ino
    if inode.linkcount = 0 then sfsBfree ino
    let fs ← get
    -- panic("sfs: reclaim vnode %u not in vnode pool")
    if fs.vnodes.any (·.ino = ino) then set { fs with vnodes := fs.vnodes.eraseP (·.ino = ino) }
    else fail

/-- `vnode_decref(v)` of the vnode of `ino`; an error of `VOP_RECLAIM` is only
    printed. -/
def vnodeDecref (ino : Nat) : SfsM Unit := do
  let v ← getVnode ino
  kassert (v.refcount > 0)
  if v.refcount > 1 then
    modify fun fs => fs.updateVnode ino fun v => { v with refcount := v.refcount - 1 }
  else do
    let _ ← result (sfsReclaim ino)
    pure ()

/-- `sfs_makeobj(sfs, type, &sv)`: a block for the inode, then its vnode. -/
def sfsMakeobj (type : FileType) : SfsM Nat := do
  let ino ← sfsBalloc
  sfsLoadvnode ino type
  pure ino

/-! ## A failed reclaim -/

section Reclaim

variable {fs : Fs} {ino : Nat} {v : Vnode}

theorem getVnode_of (hv : fs.vnode? ino = some v) : getVnode ino fs = some (.ok v, fs) := by
  simp [getVnode, hv]

/-- `sfs_reclaim` of the last reference to a file with no links, whose blocks
    are past the direct ones: erasing it reads the indirect block, and when
    the device fails the read the reclaim returns `EIO` with the vnode still
    in the table. -/
theorem sfsReclaim_of_failing_read (hv : fs.vnode? ino = some v) (hone : v.refcount = 1)
    (hlink : v.inode.linkcount = 0) (hdirect : ∀ j, v.inode.direct j = 0)
    (hind : v.inode.indirect ≠ 0) (hread : ∀ k < 11, fs.env.readFail (fs.env.reads + k) = true) :
    sfsReclaim ino fs = some (.error .eio, fs.afterReads (fs.env.reads + 11)) := by
  have htrunc := sfsTruncate_of_failing_read hv (fun j _ => hdirect j) hind
    (show blocklenOf 0 < sfsNdirect + sfsDbperidb - 1 by decide) hread
  simp only [sfsReclaim, bind_of_ok (getVnode_of hv), hone, hlink]
  rw [if_neg (by decide), if_pos trivial, bind_of_error htrunc]

/-- `vnode_decref` of the last reference to such a file returns as if the
    vnode were gone: `VOP_RECLAIM`'s `EIO` is only printed. The vnode stays in
    `sfs_vnodes` with its count of one, which no reference accounts for. -/
theorem vnodeDecref_of_failed_reclaim (hv : fs.vnode? ino = some v) (hone : v.refcount = 1)
    (hlink : v.inode.linkcount = 0) (hdirect : ∀ j, v.inode.direct j = 0)
    (hind : v.inode.indirect ≠ 0) (hread : ∀ k < 11, fs.env.readFail (fs.env.reads + k) = true) :
    ∃ fs', vnodeDecref ino fs = some (.ok (), fs') ∧
      ∃ v', fs'.vnode? ino = some v' ∧ v'.refcount = 1 := by
  have hreclaim := sfsReclaim_of_failing_read hv hone hlink hdirect hind hread
  refine ⟨fs.afterReads (fs.env.reads + 11), ?_, v, by simpa using hv, hone⟩
  simp only [vnodeDecref, bind_of_ok (getVnode_of hv), hone]
  rw [kassert_of (show v.refcount > 0 by omega), KernM.pure_bind, if_neg (by decide), bind_of_ok (result_of_error hreclaim)]
  rfl

/-- A volume whose inode 5 is a removed file with one block, block 7, past the
    direct ones (through its indirect block 6), and the last reference to its
    vnode; the device fails every read. -/
def removedSparse : Fs where
  nblocks := 16
  freemap := ⟨16, fun i => if i = 0 then 0xe7 else 0⟩
  disk := ⟨fun _ _ => 0, fun _ => Inode.zero, fun b j => if b = 6 ∧ j = 0 then 7 else 0⟩
  env := ⟨fun _ => true, 0, fun _ => false, 0, fun _ => false, 0⟩
  vnodes := [⟨5, ⟨8192, .file, 0, fun _ => 0, 6⟩, false, 1⟩]
  vnodesMax := 4

theorem removedSparse_decref :
    ∃ fs', vnodeDecref 5 removedSparse = some (.ok (), fs') ∧
      ∃ v', fs'.vnode? 5 = some v' ∧ v'.refcount = 1 :=
  vnodeDecref_of_failed_reclaim rfl rfl rfl (fun _ => rfl) (by decide) (fun _ _ => rfl)

end Reclaim

end Os161.Sfs
