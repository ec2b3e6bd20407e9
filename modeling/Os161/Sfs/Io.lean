import Os161.Sfs.Fs

/-!
# File I/O of the Simple File System

`sfs_io` (sfs_vnode.c) moves the bytes of a `uio` to or from a file: the
leading part of a block with `sfs_partialio`, whole blocks with `sfs_blockio`
(which lets the device move them straight through the `uio`), and the
trailing part of a block with `sfs_partialio` again. Reads stop at the end of
the file; writes past it move it. An error jumps to the `out:` label, which
still moves the end of the file and gives back the residue cut at the end.

A `uio` here has one `UIO_SYSSPACE` buffer (as `uio_kinit` builds it);
`uiomove` moves `min n resid` bytes between it and a kernel buffer. The I/O
runs on the volume and the `uio` together (`IoM`), as the C code changes both
through pointers.
-/

namespace Os161.Sfs

open KernM

/-- `enum uio_rw`. -/
inductive UioRw
  | read
  | write
  deriving DecidableEq, Repr

@[simp] theorem UioRw.read_beq_write : (UioRw.read == UioRw.write) = false := rfl

@[simp] theorem UioRw.write_beq_write : (UioRw.write == UioRw.write) = true := rfl

/-- `struct uio` with one kernel buffer: its bytes, how far `iov_kbase` has
    moved, `uio_offset`, `uio_resid` and `uio_rw`. -/
@[ext] structure Uio where
  buf : Nat → UInt8
  pos : Nat
  offset : Nat
  resid : Nat
  rw : UioRw

/-- `uio_kinit(iov, uio, kbuf, len, pos, rw)`. -/
def uioKinit (kbuf : Nat → UInt8) (len pos : Nat) (rw : UioRw) : Uio := ⟨kbuf, 0, pos, len, rw⟩

/-- `uiomove(ptr, n, uio)` with the kernel buffer `ptr`: `min n resid` bytes,
    from `ptr` into the uio's buffer when reading and back when writing. It
    returns `ptr` after the move, and the uio. -/
def uiomove (ptr : Nat → UInt8) (n : Nat) (uio : Uio) : (Nat → UInt8) × Uio :=
  let m := min n uio.resid
  let moved := { uio with pos := uio.pos + m, offset := uio.offset + m, resid := uio.resid - m }
  match uio.rw with
  | .read =>
    (ptr, { moved with buf := fun i => if uio.pos ≤ i ∧ i < uio.pos + m then ptr (i - uio.pos) else uio.buf i })
  | .write => (fun i => if i < m then uio.buf (uio.pos + i) else ptr i, moved)

section Uiomove

variable (ptr : Nat → UInt8) (n : Nat) (uio : Uio)

@[simp] theorem uiomove_rw : (uiomove ptr n uio).2.rw = uio.rw := by
  unfold uiomove
  split <;> rfl

@[simp] theorem uiomove_pos : (uiomove ptr n uio).2.pos = uio.pos + min n uio.resid := by
  unfold uiomove
  split <;> rfl

@[simp] theorem uiomove_offset : (uiomove ptr n uio).2.offset = uio.offset + min n uio.resid := by
  unfold uiomove
  split <;> rfl

@[simp] theorem uiomove_resid : (uiomove ptr n uio).2.resid = uio.resid - min n uio.resid := by
  unfold uiomove
  split <;> rfl

theorem uiomove_buf_of_read (h : uio.rw = .read) :
    (uiomove ptr n uio).2.buf = fun i =>
      if uio.pos ≤ i ∧ i < uio.pos + min n uio.resid then ptr (i - uio.pos) else uio.buf i := by
  simp [uiomove, h]

theorem uiomove_buf_of_write (h : uio.rw = .write) : (uiomove ptr n uio).2.buf = uio.buf := by
  simp [uiomove, h]

end Uiomove

/-- The loop of `uiomovezeros`, `k` rounds of at most 16 zeros left. -/
def uiomovezerosLoop : Nat → Nat → Uio → Uio
  | 0, _, uio => uio
  | k + 1, n, uio => uiomovezerosLoop k (n - min 16 n) (uiomove (fun _ => 0) (min 16 n) uio).2

theorem uiomove_zero (ptr : Nat → UInt8) (uio : Uio) : (uiomove ptr 0 uio).2 = uio := by
  obtain ⟨buf, pos, offset, resid, rw⟩ := uio
  cases rw with
  | read =>
    simp only [uiomove, Uio.mk.injEq]
    refine ⟨?_, by omega, by omega, by omega, trivial⟩
    funext i
    rw [if_neg (by omega)]
  | write =>
    simp only [uiomove, Uio.mk.injEq]
    exact ⟨trivial, by omega, by omega, by omega, trivial⟩

/-- Zeros moved in two parts are zeros moved at once. -/
theorem uiomove_zeros_add (a b : Nat) (uio : Uio) :
    (uiomove (fun _ => 0) b (uiomove (fun _ => 0) a uio).2).2 =
      (uiomove (fun _ => 0) (a + b) uio).2 := by
  obtain ⟨buf, pos, offset, resid, rw⟩ := uio
  have hm : min a resid + min b (resid - min a resid) = min (a + b) resid := by omega
  cases rw with
  | read =>
    simp only [uiomove, Uio.mk.injEq]
    refine ⟨?_, by omega, by omega, by omega, trivial⟩
    funext i
    split_ifs <;> first | rfl | omega
  | write =>
    simp only [uiomove, Uio.mk.injEq]
    exact ⟨trivial, by omega, by omega, by omega, trivial⟩

/-- Enough rounds of the loop move all `n` zeros. -/
theorem uiomovezerosLoop_eq (k n : Nat) (uio : Uio) (h : n ≤ 16 * k) :
    uiomovezerosLoop k n uio = (uiomove (fun _ => 0) n uio).2 := by
  induction k generalizing n uio with
  | zero =>
    obtain rfl : n = 0 := by omega
    exact (uiomove_zero _ uio).symm
  | succ k ih =>
    rw [uiomovezerosLoop, ih _ _ (by omega), uiomove_zeros_add]
    congr 2
    omega

/-- I/O on a file: the volume and the `uio`. -/
abbrev IoM := KernM (Fs × Uio) Errno

/-- Run a computation on the volume during an I/O. -/
def liftFs {α : Type} (m : SfsM α) : IoM α := onFst m

def getUio : IoM Uio := do
  let st ← get
  pure st.2

def setUio (uio : Uio) : IoM Unit := modify fun st => (st.1, uio)

@[simp] theorem getUio_bind {β : Type} (f : Uio → IoM β) (st : Fs × Uio) :
    (getUio >>= f) st = f st.2 st := rfl

@[simp] theorem setUio_apply (uio : Uio) (st : Fs × Uio) :
    setUio uio st = some (.ok (), (st.1, uio)) := rfl

@[simp] theorem setUio_bind {β : Type} (uio : Uio) (f : Unit → IoM β) (st : Fs × Uio) :
    (setUio uio >>= f) st = f () (st.1, uio) := rfl

@[simp] theorem liftFs_pure_bind {α β : Type} (a : α) (f : α → IoM β) (st : Fs × Uio) :
    (liftFs (pure a) >>= f) st = f a st := rfl

theorem liftFs_of_ok {α : Type} {m : SfsM α} {fs fs' : Fs} {a : α} (h : m fs = some (.ok a, fs'))
    (uio : Uio) : liftFs m (fs, uio) = some (.ok a, (fs', uio)) :=
  onFst_of_ok h uio

theorem liftFs_bind_of_ok {α β : Type} {m : SfsM α} {fs fs' : Fs} {a : α}
    (h : m fs = some (.ok a, fs')) (f : α → IoM β) (uio : Uio) :
    (liftFs m >>= f) (fs, uio) = f a (fs', uio) :=
  bind_of_ok (onFst_of_ok h uio) f

theorem liftFs_bind_of_error {α β : Type} {m : SfsM α} {fs fs' : Fs} {e : Errno}
    (h : m fs = some (.error e, fs')) (f : α → IoM β) (uio : Uio) :
    (liftFs m >>= f) (fs, uio) = some (.error e, (fs', uio)) :=
  bind_of_error (onFst_of_error h uio) f

/-- `uiomovezeros(n, uio)`, in rounds of the 16 bytes of its `zeros`. -/
def uiomovezeros (n : Nat) : IoM Unit := do
  let uio ← getUio
  liftFs (kassert (uio.rw = .read))
  setUio (uiomovezerosLoop ((n + 15) / 16) n uio)

theorem uiomovezeros_of_read {uio : Uio} (h : uio.rw = .read) (n : Nat) (fs : Fs) :
    uiomovezeros n (fs, uio) = some (.ok (), (fs, (uiomove (fun _ => 0) n uio).2)) := by
  simp [uiomovezeros, kassert, h, uiomovezerosLoop_eq ((n + 15) / 16) n uio (by omega)]

/-- `fileblock = uio->uio_offset / SFS_BLOCKSIZE` into a `uint32_t`. -/
def fileblockOf (offset : Nat) : Nat := offset / sfsBlocksize % 2 ^ 32

/-- `sfs_partialio(sv, uio, skipstart, len)` on the loaded inode `ino`. -/
def sfsPartialio (ino skipstart len : Nat) : IoM Unit := do
  let uio ← getUio
  -- missing blocks are allocated if and only if writing
  let doalloc := uio.rw == .write
  liftFs (kassert (skipstart + len ≤ sfsBlocksize))
  let fileblock := fileblockOf uio.offset
  let diskblock ← liftFs (sfsBmap ino fileblock doalloc)
  let iobuf ← if diskblock = 0 then do
      liftFs (kassert (uio.rw = .read))
      pure fun _ => 0
    else liftFs (sfsRblockData diskblock)
  let (moved, uio) := uiomove (fun i => iobuf (skipstart + i)) len uio
  setUio uio
  if uio.rw = .write then
    liftFs (sfsWrite fun d => d.writeData diskblock fun i =>
      if skipstart ≤ i ∧ i < skipstart + len then moved (i - skipstart) else iobuf i)
  else pure ()

/-- `sfs_rwblock(sfs, uio)` with the uio of `sfs_blockio`, moved onto the disk
    block: one block between the uio and the disk. A read moves the data after
    the device's answer, a write before it. -/
def rwblockUio (diskblock : Nat) : IoM Unit := do
  let uio ← getUio
  match uio.rw with
  | .read => do
    liftFs sfsRead
    let st ← get
    setUio (uiomove (st.1.disk.data diskblock) sfsBlocksize uio).2
  | .write => do
    let (bytes, uio) := uiomove (fun _ => 0) sfsBlocksize uio
    setUio uio
    liftFs (sfsWrite fun d => d.writeData diskblock bytes)

/-- `sfs_blockio(sv, uio)`: one whole block. The uio's offset and residue are
    changed for the device and then restored and advanced by what it moved;
    that is the uio moved through directly. -/
def sfsBlockio (ino : Nat) : IoM Unit := do
  let uio ← getUio
  let doalloc := uio.rw == .write
  let fileblock := fileblockOf uio.offset
  let diskblock ← liftFs (sfsBmap ino fileblock doalloc)
  if diskblock = 0 then do
    -- no block: zeros (only when reading, or `sfs_bmap` would have allocated one)
    liftFs (kassert (uio.rw = .read))
    uiomovezeros sfsBlocksize
  else do
    liftFs (kassert (uio.resid ≥ sfsBlocksize))
    rwblockUio diskblock

/-- The loop of `sfs_io` over `n` whole blocks. -/
def blockLoop (ino : Nat) : Nat → IoM Unit
  | 0 => pure ()
  | n + 1 => do
    sfsBlockio ino
    blockLoop ino n

/-- `sfs_io` from the leading partial block to the label `out:`. -/
def sfsIoBody (ino : Nat) : IoM Unit := do
  let uio ← getUio
  let blkoff := uio.offset % sfsBlocksize
  if blkoff ≠ 0 then
    sfsPartialio ino blkoff (min (sfsBlocksize - blkoff) uio.resid)
  let uio ← getUio
  if uio.resid = 0 then pure ()
  else do
    liftFs (kassert (uio.offset % sfsBlocksize = 0))
    blockLoop ino (uio.resid / sfsBlocksize)
    let uio ← getUio
    liftFs (kassert (uio.resid < sfsBlocksize))
    if uio.resid > 0 then sfsPartialio ino 0 uio.resid else pure ()

/-- `sfs_io(sv, uio)` on the loaded inode `ino`. -/
def sfsIo (ino : Nat) : IoM Unit := do
  let uio ← getUio
  let inode ← liftFs (getInode ino)
  -- a read at or past the end of the file returns at once
  if uio.rw = .read ∧ uio.offset ≥ inode.size then pure ()
  else do
    -- a read past the end is cut to it; the rest is given back at `out:`
    let extraresid :=
      if uio.rw = .read ∧ uio.offset + uio.resid > inode.size then uio.offset + uio.resid - inode.size
      else 0
    liftFs (kassert (extraresid = 0 ∨ uio.resid > extraresid))
    setUio { uio with resid := uio.resid - extraresid }
    let r ← result (sfsIoBody ino)
    -- out:
    let uio ← getUio
    let inode ← liftFs (getInode ino)
    if uio.rw = .write ∧ uio.offset > inode.size then
      -- `sfi_size` is a `uint32_t`
      liftFs (modifyInode ino fun i => { i with size := uio.offset % 2 ^ 32 })
    setUio { uio with resid := uio.resid + extraresid }
    match r with
    | .error e => throw e
    | .ok () => pure ()

/-- `sfs_read(v, uio)`. -/
def sfsReadVop (ino : Nat) : IoM Unit := do
  let uio ← getUio
  liftFs (kassert (uio.rw = .read))
  sfsIo ino

/-- `sfs_write(v, uio)`. -/
def sfsWriteVop (ino : Nat) : IoM Unit := do
  let uio ← getUio
  liftFs (kassert (uio.rw = .write))
  sfsIo ino

/-- A read of `n` bytes at `off` of the file `ino` into a zeroed kernel
    buffer: the bytes read and the residue left in the `uio`. -/
def readFile (ino off n : Nat) : SfsM ((Nat → UInt8) × Nat) := fun fs =>
  (sfsReadVop ino (fs, uioKinit (fun _ => 0) n off .read)).map fun r =>
    (r.1.map fun _ => (r.2.2.buf, r.2.2.resid), r.2.1)

/-- A write of the `n` bytes `data 0, ..., data (n - 1)` at `off` of the file
    `ino`. -/
def writeFile (ino off n : Nat) (data : Nat → UInt8) : SfsM Unit := fun fs =>
  (sfsWriteVop ino (fs, uioKinit data n off .write)).map fun r => (r.1, r.2.1)

end Os161.Sfs
