import Os161.Sfs.Read

/-!
# Writes past the largest file

`sfs_tryseek` lets a file's offset go anywhere from 0 on, and leaves it to
`sfs_read` and `sfs_write` to fail (its comment says so): past the block
`SFS_NDIRECT + SFS_DBPERIDB`, `sfs_bmap` fails with `EFBIG`. The error of the
first block reached jumps to the label `out:` of `sfs_io`, which moves the end
of the file to `uio_offset` whenever that is past it, whether or not a byte
was written, and stores it into the 32-bit `sfi_size`.

* `sfsIoBody_efbig`: a transfer whose first block is past the largest file
  fails with `EFBIG` on each of the paths of `sfs_io` (the leading partial
  block, the loop of whole blocks, the trailing partial block), with nothing
  moved and no block written;
* `sfs_write_efbig_sets_size`: such a write still sets the size of a shorter
  file to its start offset modulo `2^32`, a size past every byte of the file
  (the file grows by a hole it cannot hold) or below its end (the file is cut
  short, `sfs_write_efbig_truncates`).
-/

namespace Os161.Sfs

open KernM

section Efbig

variable {fs : Fs} {ino : Nat} {v : Vnode} {uio : Uio}

/-- `sfs_partialio` on a block past the largest file fails in `sfs_bmap`,
    before it moves a byte. -/
theorem sfsPartialio_efbig {skipstart len : Nat} (hv : fs.vnode? ino = some v)
    (hfb : sfsNdirect + sfsDbperidb ≤ fileblockOf uio.offset) (hk : skipstart + len ≤ sfsBlocksize) :
    sfsPartialio ino skipstart len (fs, uio) = some (.error .efbig, (fs, uio)) := by
  simp [sfsPartialio, kassert, hk, liftFs_bind_of_error (sfsBmap_efbig hv hfb _)]

/-- `sfs_blockio` on a block past the largest file fails in `sfs_bmap`. -/
theorem sfsBlockio_efbig (hv : fs.vnode? ino = some v)
    (hfb : sfsNdirect + sfsDbperidb ≤ fileblockOf uio.offset) :
    sfsBlockio ino (fs, uio) = some (.error .efbig, (fs, uio)) := by
  simp [sfsBlockio, liftFs_bind_of_error (sfsBmap_efbig hv hfb _)]

/-- The loop of whole blocks stops at its first block. -/
theorem blockLoop_efbig {k : Nat} (hv : fs.vnode? ino = some v)
    (hfb : sfsNdirect + sfsDbperidb ≤ fileblockOf uio.offset) (hk : 0 < k) :
    blockLoop ino k (fs, uio) = some (.error .efbig, (fs, uio)) := by
  obtain ⟨k, rfl⟩ := Nat.exists_eq_succ_of_ne_zero hk.ne'
  simp [blockLoop, bind_of_error (sfsBlockio_efbig hv hfb)]

/-- The body of `sfs_io` from a block past the largest file fails with
    `EFBIG` at the first piece it tries, whichever it is. -/
theorem sfsIoBody_efbig (hv : fs.vnode? ino = some v)
    (hfb : sfsNdirect + sfsDbperidb ≤ fileblockOf uio.offset) (hpos : 0 < uio.resid) :
    sfsIoBody ino (fs, uio) = some (.error .efbig, (fs, uio)) := by
  by_cases hoff : uio.offset % sfsBlocksize = 0
  · by_cases hblocks : uio.resid / sfsBlocksize = 0
    · -- less than a block: the trailing `sfs_partialio`
      have hlt : uio.resid < sfsBlocksize := by
        unfold sfsBlocksize at *
        omega
      simp [sfsIoBody, hoff, kassert, blockLoop, hblocks, Nat.pos_iff_ne_zero.1 hpos, hlt, hpos,
        sfsPartialio_efbig hv hfb (show 0 + uio.resid ≤ sfsBlocksize by omega)]
    · -- the first whole block
      simp [sfsIoBody, hoff, kassert, Nat.pos_iff_ne_zero.1 hpos,
        bind_of_error (blockLoop_efbig hv hfb (Nat.pos_of_ne_zero hblocks))]
  · -- the leading partial block
    have hk : uio.offset % sfsBlocksize + min (sfsBlocksize - uio.offset % sfsBlocksize) uio.resid ≤
        sfsBlocksize := by
      unfold sfsBlocksize
      omega
    simp [sfsIoBody, hoff, bind_of_error (sfsPartialio_efbig hv hfb hk)]

/-- The vnode `ino` after `out:` moved its size to `size`. -/
def Fs.setSize (fs : Fs) (ino size : Nat) : Fs :=
  fs.updateVnode ino fun v => { v with inode := { v.inode with size := size }, dirty := true }

/-- The size set at `out:` changes the loaded vnode only. -/
theorem liftFs_modifyInode_size_bind {β : Type} (size : Nat) (k : Unit → IoM β) (st : Fs × Uio) :
    (liftFs (modifyInode ino fun i => { i with size := size }) >>= k) st =
      k () (st.1.setSize ino size, st.2) := rfl

/-- `sfs_io` writing from a block past the largest file: `EFBIG`, the `uio`
    and every block as they were, and the size moved at `out:` to the
    offset, cut to 32 bits, when the offset is past the end of the file. -/
theorem sfsIo_efbig (hv : fs.vnode? ino = some v) (hrw : uio.rw = .write)
    (hfb : sfsNdirect + sfsDbperidb ≤ fileblockOf uio.offset) (hpos : 0 < uio.resid) :
    sfsIo ino (fs, uio) = some (.error .efbig,
      (if v.inode.size < uio.offset then fs.setSize ino (uio.offset % 2 ^ 32) else fs, uio)) := by
  have hbody := sfsIoBody_efbig hv hfb hpos
  obtain ⟨buf, pos, offset, resid, rw⟩ := uio
  subst hrw
  by_cases hpast : v.inode.size < offset
  · simp [sfsIo, liftFs_bind_of_ok (getInode_of hv), kassert, bind_of_ok (result_of_error hbody),
      hpast, liftFs_modifyInode_size_bind]
  · simp [sfsIo, liftFs_bind_of_ok (getInode_of hv), kassert, bind_of_ok (result_of_error hbody),
      hpast]

/-- A write of `n > 0` bytes at an offset whose block is past the largest
    file fails with `EFBIG` and writes no block, yet sets the size of a file
    that ends before the offset to the offset modulo `2^32`: a size that no
    byte written reaches. -/
theorem sfs_write_efbig_sets_size {off n : Nat} (data : Nat → UInt8) (hv : fs.vnode? ino = some v)
    (hpos : 0 < n) (hfb : sfsNdirect + sfsDbperidb ≤ fileblockOf off) :
    writeFile ino off n data fs =
      some (.error .efbig, if v.inode.size < off then fs.setSize ino (off % 2 ^ 32) else fs) := by
  have hio := @sfsIo_efbig fs ino v (uioKinit data n off .write) hv rfl hfb hpos
  have hrw : (uioKinit data n off .write).rw = .write := rfl
  simp only [writeFile, sfsWriteVop, getUio_bind, kassert_of hrw, liftFs_pure_bind, hio]
  rfl

end Efbig

/-- A volume with the file `5` of 1000 bytes loaded and nothing else. -/
def smallFileFs : Fs :=
  { nblocks := 0, freemap := ⟨0, fun _ => 0⟩, disk := ⟨fun _ _ => 0, fun _ => Inode.zero, fun _ _ => 0⟩,
    env := ⟨fun _ => false, 0, fun _ => false, 0, fun _ => false, 0⟩,
    vnodes := [⟨5, { Inode.zero with size := 1000 }, false, 1⟩], vnodesMax := 1 }

/-- One byte written at `2^33`, block `2^24` of the file, fails with `EFBIG`
    and cuts the file of 1000 bytes to size 0. -/
theorem sfs_write_efbig_truncates :
    writeFile 5 (2 ^ 33) 1 (fun _ => 0x41) smallFileFs =
      some (.error .efbig, smallFileFs.setSize 5 0) := by
  have hv : smallFileFs.vnode? 5 = some ⟨5, { Inode.zero with size := 1000 }, false, 1⟩ := rfl
  have hfb : sfsNdirect + sfsDbperidb ≤ fileblockOf (2 ^ 33) := by decide
  rw [sfs_write_efbig_sets_size _ hv (by decide) hfb]
  rfl

end Os161.Sfs
