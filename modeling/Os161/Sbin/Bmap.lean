import Os161.Sbin.Sfsck
import Os161.Sfs.Read

/-!
# sfsck's block map and the kernel's

sfsck (`dobmap`, `ibmap`) and the kernel (`sfs_bmap` without allocation) map
a block of a file to a block of the disk from the same bytes of the inode:
a direct pointer, or an entry of the indirect block, and nothing past the
indirect block (sfsck answers 0, the kernel `EFBIG`). They read the indirect
block differently: the kernel at the 64-bit offset `block * SFS_BLOCKSIZE`,
sfsck with `lseek(fd, block*BLOCKSIZE, ...)`, whose 32-bit product wraps
from block `2^23` on (`Sbin.diskBlock`).

* `dobmap_spec`: `dobmap` maps a file block as `Disk.bmap` of the disk whose
  block `b` is the image's block `diskBlock b`;
* `dobmap_reads_wrapped_disk`: the two maps side by side, which differ for an
  inode whose indirect block is numbered `2^23` or more
  (`dobmap_differs_of_bigImage`);
* `roundup32_blocks`: the count of blocks `check_inode_blocks` keeps before
  EOF is 0 for a size from `2^32 - 511` on (`checkInodeBlocks_of_hugeFile`).
-/

namespace Os161.Sbin

open Sfs Bytes KernM

/-- The disk as sfsck reads it through `diskread`: block `b` is the image's
    block `diskBlock b`. -/
def wrappedDisk (img : Image) : Disk := Disk.ofBlocks fun b => img.blocks (diskBlock b)

namespace Sfsck

variable {s : Sfsck}

/-- `ibmap` of an indirect block that the image holds, at an offset inside
    it: the entry, read through `diskread`, with nothing changed. -/
theorem ibmap_of_lt {iblock offset : Nat} (hi : iblock ≠ 0) (hsize : diskBlock iblock < s.img.size)
    (hoff : offset < sfsDbperidb) :
    ibmap iblock offset s = some (.ok ((wrappedDisk s.img).entries iblock offset), s) := by
  have hread : Sfsck.diskread iblock s = some (.ok (s.img.blocks (diskBlock iblock)), s) := by
    simp [Sfsck.diskread, Sbin.diskread, hsize]
  simp only [ibmap, if_neg hi, bind_of_ok hread, kassert_of hoff, pure_bind]
  rfl

/-- `dobmap` maps a file block as `Disk.bmap` of the disk sfsck reads, and
    every block past the indirect block to 0; it changes nothing. -/
theorem dobmap_spec (sfi : Nat → UInt8) (fb : Nat)
    (hread : (decodeInode sfi).indirect ≠ 0 → diskBlock (decodeInode sfi).indirect < s.img.size) :
    Returns (dobmap sfi fb) s fun r t => t = s ∧
      r = if fb < sfsNdirect + sfsDbperidb then (wrappedDisk s.img).bmap (decodeInode sfi) fb else 0 := by
  unfold dobmap
  by_cases hd : fb < sfsNdirect
  · -- a direct pointer
    rw [if_pos hd, if_pos (by unfold sfsNdirect at hd ⊢; omega)]
    exact ⟨_, s, rfl, rfl, by simp [Disk.bmap, decodeInode, hd]⟩
  rw [if_neg hd]
  by_cases hi : fb < sfsNdirect + sfsDbperidb
  · rw [if_pos hi, if_pos hi]
    have hoff : (fb - sfsNdirect) % sfsDbperidb = fb - sfsNdirect := by
      unfold sfsNdirect sfsDbperidb at *
      omega
    rw [hoff]
    by_cases h0 : (decodeInode sfi).indirect = 0
    · -- no indirect block: a hole
      have h0' : getBE sfi sfiIndirect 4 = 0 := h0
      refine ⟨0, s, by simp [ibmap, h0'], rfl, ?_⟩
      simp [Disk.bmap, hd, h0]
    · -- an entry of the indirect block, read at `diskBlock`
      refine ⟨_, s, ibmap_of_lt h0 (hread h0) (by unfold sfsNdirect sfsDbperidb at *; omega), rfl, ?_⟩
      simp only [Disk.bmap, if_neg hd, if_neg h0]
      rfl
  · rw [if_neg hi, if_neg hi]
    exact ⟨0, s, rfl, rfl, rfl⟩

end Sfsck

/-- sfsck's `dobmap` and the kernel's `sfs_bmap` without allocation, for an
    inode whose bytes are `sfi` on a volume whose blocks are those of the
    image sfsck reads: sfsck maps a file block as `Disk.bmap` of the disk it
    reads through `diskread`, and 0 past the indirect block; the kernel (where
    it does not panic on a block marked free) as `Disk.bmap` of the image's
    own blocks, and fails with `EFBIG` past the indirect block. -/
theorem dobmap_reads_wrapped_disk {fs : Fs} {ino : Nat} {v : Vnode} (s : Sfsck) (sfi : Nat → UInt8)
    (fb : Nat) (hv : fs.vnode? ino = some v) (hinode : v.inode = decodeInode sfi)
    (hdisk : fs.disk = Disk.ofBlocks s.img.blocks)
    (hread : (decodeInode sfi).indirect ≠ 0 → diskBlock (decodeInode sfi).indirect < s.img.size) :
    Returns (Sfsck.dobmap sfi fb) s (fun r t => t = s ∧
        r = if fb < sfsNdirect + sfsDbperidb then (wrappedDisk s.img).bmap (decodeInode sfi) fb else 0) ∧
      (fb < sfsNdirect + sfsDbperidb → fs.Mapped ((Disk.ofBlocks s.img.blocks).bmap (decodeInode sfi) fb) →
        ReadsAs (sfsBmap ino fb false) fs ((Disk.ofBlocks s.img.blocks).bmap (decodeInode sfi) fb)) ∧
      (sfsNdirect + sfsDbperidb ≤ fb → sfsBmap ino fb false fs = some (.error .efbig, fs)) := by
  refine ⟨Sfsck.dobmap_spec sfi fb hread, fun hfb hm => ?_, fun hfb => sfsBmap_efbig hv hfb false⟩
  rw [← hdisk, ← hinode] at hm ⊢
  exact sfsBmap_read hv hfb hm

/-- A volume of `2^23 + 6` blocks whose block `2^23 + 5` is an indirect block
    with block `7` as its first entry; every other block holds zeros. -/
def bigImage : Image where
  size := 2 ^ 23 + 6
  blocks b := if b = 2 ^ 23 + 5 then putBE 7 0 4 fun _ => 0 else fun _ => 0

/-- The bytes of an inode whose indirect block is block `2^23 + 5`. -/
def farIndirect : Nat → UInt8 := putBE (2 ^ 23 + 5) sfiIndirect 4 fun _ => 0

/-- On `bigImage`, block 15 of the file of `farIndirect` is block 7 for the
    kernel and 0 for sfsck, which reads block 5 as the indirect block. -/
theorem dobmap_differs_of_bigImage :
    (Disk.ofBlocks bigImage.blocks).bmap (decodeInode farIndirect) 15 = 7 ∧
      (wrappedDisk bigImage).bmap (decodeInode farIndirect) 15 = 0 := by
  decide

/-- `bigImage` mounted with every block marked in use, and the inode
    `farIndirect` loaded as inode 9. -/
def bigFs : Fs :=
  { Fs.ofImage bigImage ⟨fun _ => false, 0, fun _ => false, 0, fun _ => false, 0⟩ with
    nblocks := bigImage.size
    freemap := ⟨bigImage.size, fun _ => 0xff⟩
    vnodes := [⟨9, decodeInode farIndirect, false, 1⟩] }

/-- Block 15 of the file of `farIndirect` on `bigImage`: sfsck maps it to 0,
    the kernel to block 7. -/
theorem dobmap_reads_wrapped_disk_of_bigImage :
    Returns (Sfsck.dobmap farIndirect 15) (Sfsck.init bigImage)
        (fun r t => t = Sfsck.init bigImage ∧ r = 0) ∧
      ReadsAs (sfsBmap 9 15 false) bigFs 7 := by
  have hv : bigFs.vnode? 9 = some ⟨9, decodeInode farIndirect, false, 1⟩ := rfl
  have hread : (decodeInode farIndirect).indirect ≠ 0 →
      diskBlock (decodeInode farIndirect).indirect < (Sfsck.init bigImage).img.size := fun _ => by
    decide
  have hfb : 15 < sfsNdirect + sfsDbperidb := by decide
  obtain ⟨⟨r, t, hrun, ht, hr⟩, hk, -⟩ :=
    dobmap_reads_wrapped_disk (Sfsck.init bigImage) farIndirect 15 hv rfl rfl hread
  obtain ⟨hkernel, hsfsck⟩ := dobmap_differs_of_bigImage
  have himg : (Sfsck.init bigImage).img = bigImage := rfl
  rw [if_pos hfb, himg] at hr
  rw [himg] at hk
  refine ⟨⟨r, t, hrun, ht, hr.trans hsfsck⟩, ?_⟩
  rw [← hkernel]
  exact hk hfb (by rw [hkernel]; exact fun _ => ⟨by decide, by decide⟩)

/-- `SFS_ROUNDUP(size, SFS_BLOCKSIZE) / SFS_BLOCKSIZE` on a 32-bit size, the
    count of blocks `check_inode_blocks` keeps: `⌈size / 512⌉`, unless
    `size + 511` wraps, from `2^32 - 511` on, where it is 0. -/
theorem roundup32_blocks {size : Nat} (h : size < 2 ^ 32) :
    roundup32 size sfsBlocksize / sfsBlocksize =
      if size + sfsBlocksize - 1 < 2 ^ 32 then (size + sfsBlocksize - 1) / sfsBlocksize else 0 := by
  unfold roundup32 sfsBlocksize
  split
  · rw [Nat.mod_eq_of_lt (by omega), Nat.mul_div_cancel _ (by decide)]
  · rw [Nat.mul_div_cancel _ (by decide)]
    omega

/-- The bytes of a file inode of size `2^32 - 1`, whose first direct pointer
    is block 5. -/
def hugeFile : Nat → UInt8 := putBE 5 (sfiDirect 0) 4 (putBE (2 ^ 32 - 1) sfiSize 4 fun _ => 0)

/-- `check_inode_blocks` takes block 5, block 0 of a file of `2^23` blocks,
    for a block past the end: it reports a block after EOF and raises the
    badness to `EXIT_RECOV`. -/
theorem checkInodeBlocks_of_hugeFile :
    (Sfsck.checkInodeBlocks hugeFile false { Sfsck.init bigImage with bitblocks := 1 }).map
      (fun r => (r.1.map Prod.fst, r.2.badness)) = some (.ok true, exitRecov) := by
  decide +kernel

end Os161.Sbin
