import Os161.Lib.ByteFile
import Os161.Sfs.Read

/-!
# Truncation and the contents of a file

`sfs_truncate` frees the blocks of a file at and past the new length in
blocks, `DIVROUNDUP(len, SFS_BLOCKSIZE)`, and sets the size. It keeps the last
block of the shorter file whole: the bytes of that block past `len` are not
cleared. A later extension of the file (`sfs_truncate` to a greater length, or
a write past the end) moves the size over them, and a read returns them.

The file as a list of bytes (`ByteFile`) has zeros there. `Holds d inode F`
says that the disk holds `F` as the file with inode `inode`.

* `sfsTruncate_of_nothing_to_free`: with no block to free, `sfs_truncate` only
  sets the size;
* `truncate_extend_reads_stale`: a file cut inside a block and extended over
  the cut reads back its old bytes, where the list of bytes reads zeros.
-/

namespace Os161.Sfs

open KernM

/-- The disk holds the bytes `F` as the file with inode `inode`. -/
def Holds (d : Disk) (inode : Inode) (F : List UInt8) : Prop :=
  inode.size = F.length ∧ ∀ i (h : i < F.length), d.fileByte inode i = F[i]

@[simp] theorem Disk.fileByte_setSize (d : Disk) (inode : Inode) (s : Nat) :
    d.fileByte { inode with size := s } = d.fileByte inode := rfl

@[simp] theorem Disk.bmap_setSize (d : Disk) (inode : Inode) (s : Nat) :
    d.bmap { inode with size := s } = d.bmap inode := rfl

theorem blocklenOf_mono {len len' : Nat} (h : len ≤ len') : blocklenOf len ≤ blocklenOf len' :=
  Nat.div_le_div_right (by omega)

/-- The vnode of `ino` after a change of its size by `sfs_truncate`. -/
def setSize (len : Nat) (v : Vnode) : Vnode :=
  { v with inode := { v.inode with size := len }, dirty := true }

section Truncate

variable {fs : Fs} {ino : Nat} {v : Vnode}

/-- The loop over the direct blocks frees nothing when every block it would
    free is a hole. -/
theorem truncDirect_of_holes {blocklen : Nat} (hv : fs.vnode? ino = some v) :
    ∀ n i, (∀ j, i ≤ j → j < i + n → blocklen ≤ j → v.inode.direct j = 0) →
      truncDirect ino blocklen n i fs = some (.ok (), fs)
  | 0, _, _ => rfl
  | n + 1, i, h => by
    have hkeep : ¬ (i ≥ blocklen ∧ v.inode.direct i ≠ 0) := by
      rintro ⟨hi, hne⟩
      exact hne (h i le_rfl (by omega) hi)
    have hrest := truncDirect_of_holes hv n (i + 1) fun j hj hjn => h j (by omega) (by omega)
    simp only [truncDirect, bind_of_ok (getInode_of hv), if_neg hkeep, hrest]

/-- With no block to free, `sfs_truncate` only sets the size. -/
theorem sfsTruncate_of_nothing_to_free {len : Nat} (hv : fs.vnode? ino = some v)
    (hind : v.inode.indirect = 0) (hfree : ∀ j, blocklenOf len ≤ j → v.inode.direct j = 0) :
    sfsTruncate ino len fs = some (.ok (), fs.updateVnode ino (setSize len)) := by
  have hdirect := truncDirect_of_holes hv sfsNdirect 0 fun j _ _ hj => hfree j hj
  simp [sfsTruncate, bind_of_ok hdirect, bind_of_ok (getInode_of hv), hind, modifyInode, setSize,
    Fs.updateVnode]

/-- `sfs_truncate` of a file whose indirect block the device cannot read:
    `EIO`, once the loop over the direct blocks is done. -/
theorem sfsTruncate_of_failing_read {len : Nat} (hv : fs.vnode? ino = some v)
    (hfree : ∀ j, blocklenOf len ≤ j → v.inode.direct j = 0) (hind : v.inode.indirect ≠ 0)
    (hlen : blocklenOf len < sfsNdirect + sfsDbperidb - 1)
    (hread : ∀ k < 11, fs.env.readFail (fs.env.reads + k) = true) :
    sfsTruncate ino len fs = some (.error .eio, fs.afterReads (fs.env.reads + 11)) := by
  have hdirect := truncDirect_of_holes hv sfsNdirect 0 fun j _ _ hj => hfree j hj
  simp only [sfsTruncate, bind_of_ok hdirect, bind_of_ok (getInode_of hv)]
  rw [if_pos ⟨hlen, hind⟩, bind_of_error (sfsRblockEntries_of_failing _ hread)]

theorem vnode?_setSize (hv : fs.vnode? ino = some v) (len : Nat) :
    (fs.updateVnode ino (setSize len)).vnode? ino = some (setSize len v) := by
  have hf : ∀ w, (setSize len w).ino = w.ino := fun _ => rfl
  rw [Fs.vnode?_updateVnode_self hf, hv]
  rfl

end Truncate

/-- A file cut to `len` inside a block and extended to `len'` over the cut
    reads back, at each position `k` between the two, the byte it held before
    the cut; the file as a list of bytes reads zero there. -/
theorem truncate_extend_reads_stale {fs : Fs} {ino : Nat} {v : Vnode} {F : List UInt8}
    {len len' k : Nat} (hv : fs.vnode? ino = some v) (hF : Holds fs.disk v.inode F)
    (hind : v.inode.indirect = 0) (hfree : ∀ j, blocklenOf len ≤ j → v.inode.direct j = 0)
    (hm : fs.Mapped (fs.disk.bmap v.inode (k / sfsBlocksize))) (hr : fs.ReadsWork)
    (hlen : len ≤ k) (hk : k < len')
    (hmax : len' ≤ (sfsNdirect + sfsDbperidb) * sfsBlocksize) (hkF : k < F.length)
    (hstale : F[k] ≠ 0) :
    ∃ buf fs', (do sfsTruncate ino len; sfsTruncate ino len'; readFile ino k 1) fs =
        some (.ok (buf, 0), fs') ∧
      buf 0 = F[k] ∧ [buf 0] ≠ ByteFile.read (ByteFile.truncate (ByteFile.truncate F len) len') k 1 := by
  -- the first cut frees nothing past the block of `k`, the second nothing at all
  have h₁ := sfsTruncate_of_nothing_to_free hv hind hfree
  have hv₁ := vnode?_setSize hv len
  have h₂ := sfsTruncate_of_nothing_to_free hv₁ hind
    fun j hj => hfree j (le_trans (blocklenOf_mono hk.le |>.trans' (blocklenOf_mono hlen)) hj)
  have hv₂ := vnode?_setSize hv₁ len'
  -- the read finds the block of `k` as it was
  have hfb : k / sfsBlocksize < sfsNdirect + sfsDbperidb := by
    unfold sfsBlocksize sfsNdirect sfsDbperidb at *
    omega
  obtain ⟨m, h₃⟩ := readFile_block hv₂ Nat.one_pos (by simp [setSize]; omega) (by
    unfold sfsBlocksize
    omega) hfb (by simpa [setSize] using hm) hr
  have hrun : (do sfsTruncate ino len; sfsTruncate ino len'; readFile ino k 1) fs =
      readFile ino k 1 ((fs.updateVnode ino (setSize len)).updateVnode ino (setSize len')) := by
    simp [bind_of_ok h₁, bind_of_ok h₂]
  rw [hrun, h₃]
  refine ⟨_, _, rfl, ?_, ?_⟩
  · simpa [setSize] using hF.2 k hkF
  · rw [ByteFile.read_truncate_truncate F hlen hk]
    simpa [setSize] using fun h => hstale ((hF.2 k hkF).symm.trans h)

/-- A volume of 16 blocks with the root directory at block 1 and, at block 3,
    a file of 512 bytes `A` in block 4. -/
def cutExample : Fs where
  nblocks := 16
  freemap := ⟨16, fun i => if i = 0 then 0x1f else 0⟩
  disk := ⟨fun b _ => if b = 4 then 0x41 else 0, fun _ => Inode.zero, fun _ _ => 0⟩
  env := ⟨fun _ => false, 0, fun _ => false, 0, fun _ => false, 0⟩
  vnodes :=
    [⟨1, ⟨0, .dir, 1, fun _ => 0, 0⟩, false, 1⟩,
      ⟨3, ⟨512, .file, 1, fun j => if j = 0 then 4 else 0, 0⟩, false, 1⟩]
  vnodesMax := 4

/-- The file of `cutExample`, cut to 100 bytes and extended to 512 again,
    reads `A` at byte 100. -/
theorem cutExample_reads_stale :
    ∃ buf fs', (do sfsTruncate 3 100; sfsTruncate 3 512; readFile 3 100 1) cutExample =
        some (.ok (buf, 0), fs') ∧
      buf 0 = 0x41 ∧
        [buf 0] ≠ ByteFile.read (ByteFile.truncate (ByteFile.truncate (List.replicate 512 0x41) 100) 512)
          100 1 := by
  have hF : Holds cutExample.disk ⟨512, .file, 1, fun j => if j = 0 then 4 else 0, 0⟩
      (List.replicate 512 0x41) := by
    refine ⟨List.length_replicate.symm, fun i hi => ?_⟩
    have hi' : i / sfsBlocksize = 0 := by
      unfold sfsBlocksize
      simp only [List.length_replicate] at hi
      omega
    rw [List.getElem_replicate]
    simp only [Disk.fileByte, Disk.fileBlock, Disk.bmap, hi']
    rfl
  have hv : cutExample.vnode? 3 = some ⟨3, ⟨512, .file, 1, fun j => if j = 0 then 4 else 0, 0⟩, false, 1⟩ :=
    rfl
  obtain ⟨buf, fs', h, h₁, h₂⟩ := truncate_extend_reads_stale hv hF rfl
    (fun j hj => if_neg (by unfold blocklenOf sfsBlocksize at hj; omega)) (fun _ => ⟨by decide, by decide⟩)
    (fun _ => rfl) (show 100 ≤ 100 by decide) (show 100 < 512 by decide) (by decide)
    (by rw [List.length_replicate]; decide) (by rw [List.getElem_replicate]; decide)
  rw [List.getElem_replicate] at h₁
  exact ⟨buf, fs', h, h₁, h₂⟩

end Os161.Sfs
