import Os161.Lib.Bytes
import Os161.Sfs.Vnode

/-!
# Volume images and `sfs_domount`

On the device a volume is an image: its number of blocks and the bytes of each
(`Image`). The structures of kern/sfs.h lie in a block at fixed offsets,
big-endian as the MIPS stores them: `struct sfs_super` (`sp_magic`,
`sp_nblocks`, `sp_volname`), `struct sfs_inode` (size, type, link count, the
direct blocks and the indirect block) and the `struct sfs_dir` slots of a
directory block. `Disk.ofBlocks` reads the blocks the three ways the kernel's
`Disk` does: as data, as an inode, as the entries of an indirect block.

`sfs_domount` (sfs_fs.c) reads the superblock, checks `SFS_MAGIC`, creates the
freemap, a bitmap of `SFS_BITMAPSIZE(sp_nblocks)` bits, and loads it from the
`SFS_BITBLOCKS(sp_nblocks)` blocks after the root (`sfs_mapio`). Its
allocations are `kmalloc`s of the volume's heap schedule, its reads those of
the device's failure schedule.

* `sfsDomount_of`: on a device whose reads and allocations work, with the
  magic number in place, the mount keeps `sp_nblocks`, and each word of the
  freemap holds the byte of the bitmap blocks at its place.
-/

namespace Os161.Sfs

open KernM Bytes

/-- A disk image: the number of blocks of the device and the bytes of each. -/
structure Image where
  size : Nat
  blocks : Nat → Nat → UInt8

/-- `SFS_MAGIC`. -/
def sfsMagic : Nat := 0xabadf001

/-- `SFS_VOLNAME_SIZE`. -/
def sfsVolnameSize : Nat := 32

/-- `SFS_TYPE_FILE`. -/
def sfsTypeFile : Nat := 1

/-- `SFS_TYPE_DIR`. -/
def sfsTypeDir : Nat := 2

/-- `SFS_BITMAPSIZE(nblocks)`: the bits of the freemap, a whole number of
    blocks of bits. -/
def sfsBitmapsize (nblocks : Nat) : Nat :=
  (nblocks + sfsBlockbits - 1) / sfsBlockbits * sfsBlockbits

/-! ## Where the fields lie -/

/-- `sp_magic` in `struct sfs_super`. -/
def spMagic : Nat := 0

/-- `sp_nblocks`. -/
def spNblocks : Nat := 4

/-- `sp_volname`. -/
def spVolname : Nat := 8

/-- `sfi_size` in `struct sfs_inode`. -/
def sfiSize : Nat := 0

/-- `sfi_type`, 16 bits. -/
def sfiType : Nat := 4

/-- `sfi_linkcount`, 16 bits. -/
def sfiLinkcount : Nat := 6

/-- `sfi_direct[i]`. -/
def sfiDirect (i : Nat) : Nat := 8 + 4 * i

/-- `sfi_indirect`, after the direct blocks. -/
def sfiIndirect : Nat := 8 + 4 * sfsNdirect

/-- `sfd_name` in `struct sfs_dir`, after `sfd_ino`. -/
def sfdName : Nat := 4

/-- The type of an inode from its `sfi_type`. -/
def FileType.ofCode (c : Nat) : FileType :=
  if c = sfsTypeFile then .file else if c = sfsTypeDir then .dir else .inval

/-- A block read as `struct sfs_inode`. -/
def decodeInode (b : Nat → UInt8) : Inode where
  size := getBE b sfiSize 4
  type := .ofCode (getBE b sfiType 2)
  linkcount := getBE b sfiLinkcount 2
  direct i := if i < sfsNdirect then getBE b (sfiDirect i) 4 else 0
  indirect := getBE b sfiIndirect 4

/-- The blocks of an image as the kernel reads them: as data, as an inode, as
    the 32-bit entries of an indirect block. -/
def Disk.ofBlocks (blocks : Nat → Nat → UInt8) : Disk where
  data := blocks
  inode b := decodeInode (blocks b)
  entries b i := getBE (blocks b) (4 * i) 4

/-- A volume on the device holding `img`, before the mount: nothing loaded. -/
def Fs.ofImage (img : Image) (env : Env) : Fs :=
  ⟨0, Bitmap.create 0, Disk.ofBlocks img.blocks, env, [], 0⟩

/-! ## The mount -/

/-- The volume with `v` as the words of its freemap. -/
def Fs.withWords (fs : Fs) (v : Nat → UInt8) : Fs :=
  { fs with freemap := { fs.freemap with v := v } }

/-- The freemap after block `j` of its blocks is read into its words. -/
def Fs.loadMapBlock (fs : Fs) (j : Nat) (data : Nat → UInt8) : Fs :=
  fs.withWords (blit fs.freemap.v (j * sfsBlocksize) sfsBlocksize data)

/-- The words of the freemap, those of its blocks `j` to `j + n - 1` as the
    disk holds them. -/
def Fs.mapWords (fs : Fs) (j n w : Nat) : UInt8 :=
  if j * sfsBlocksize ≤ w ∧ w < (j + n) * sfsBlocksize then
    fs.disk.data (sfsMapLocation + w / sfsBlocksize) (w % sfsBlocksize)
  else fs.freemap.v w

/-- The freemap with its blocks `j` to `j + n - 1` loaded from the disk. -/
def Fs.loadMap (fs : Fs) (j n : Nat) : Fs := fs.withWords (fs.mapWords j n)

@[simp] theorem Fs.withWords_disk (fs : Fs) (v : Nat → UInt8) : (fs.withWords v).disk = fs.disk := rfl

@[simp] theorem Fs.withWords_v (fs : Fs) (v : Nat → UInt8) : (fs.withWords v).freemap.v = v := rfl

@[simp] theorem Fs.withWords_withWords (fs : Fs) (v v' : Nat → UInt8) :
    (fs.withWords v).withWords v' = fs.withWords v' := rfl

theorem Fs.loadMap_zero (fs : Fs) (j : Nat) : fs.loadMap j 0 = fs := by
  have hv : fs.mapWords j 0 = fs.freemap.v := funext fun w => if_neg (by rw [Nat.add_zero]; omega)
  rw [Fs.loadMap, hv]
  rfl

theorem Fs.afterReads_loadMapBlock (fs : Fs) (k j : Nat) (data : Nat → UInt8) :
    (fs.afterReads k).loadMapBlock j data = (fs.loadMapBlock j data).afterReads k := rfl

theorem Fs.afterReads_loadMap (fs : Fs) (k j n : Nat) :
    (fs.afterReads k).loadMap j n = (fs.loadMap j n).afterReads k := rfl

set_option maxRecDepth 2000 in
/-- Block `j` first, then the blocks after it. -/
theorem Fs.loadMap_succ (fs : Fs) (j n : Nat) :
    (fs.loadMapBlock j (fs.disk.data (sfsMapLocation + j))).loadMap (j + 1) n = fs.loadMap j (n + 1) := by
  unfold Fs.loadMap Fs.loadMapBlock
  rw [Fs.withWords_withWords]
  refine congrArg fs.withWords (funext fun w => ?_)
  unfold Fs.mapWords blit
  rw [Fs.withWords_disk, Fs.withWords_v]
  unfold sfsBlocksize
  by_cases hw : j * 512 ≤ w ∧ w < (j + 1) * 512
  · -- a word of block `j`, from the block read first
    have hlater : ¬ ((j + 1) * 512 ≤ w ∧ w < (j + 1 + n) * 512) := by omega
    have hblock : j * 512 ≤ w ∧ w < j * 512 + 512 := by omega
    have hall : j * 512 ≤ w ∧ w < (j + (n + 1)) * 512 := by omega
    rw [if_neg hlater, if_pos hblock, if_pos hall, show w / 512 = j by omega,
      show w - j * 512 = w % 512 by omega]
  · have hblock : ¬ (j * 512 ≤ w ∧ w < j * 512 + 512) := by omega
    rw [if_neg hblock]
    by_cases hw' : (j + 1) * 512 ≤ w ∧ w < (j + 1 + n) * 512
    · rw [if_pos hw', if_pos (show j * 512 ≤ w ∧ w < (j + (n + 1)) * 512 by omega)]
    · rw [if_neg hw', if_neg (show ¬ (j * 512 ≤ w ∧ w < (j + (n + 1)) * 512) by omega)]

/-- `sfs_mapio(sfs, UIO_READ)` from block `j` of the freemap on, `n` blocks
    left; a failed read stops it. -/
def sfsMapioRead : Nat → Nat → SfsM Unit
  | _, 0 => pure ()
  | j, n + 1 => do
    let data ← sfsRblockData (sfsMapLocation + j)
    modify fun fs => fs.loadMapBlock j data
    sfsMapioRead (j + 1) n

/-- `sfs_domount`: the `sfs_fs` and its vnode array from `kmalloc`, the
    superblock read and checked, and the freemap (`bitmap_create`, two
    `kmalloc`s) loaded. -/
def sfsDomount : SfsM Unit := do
  if !(← kmalloc) then throw .enomem
  if !(← kmalloc) then throw .enomem
  let sp ← sfsRblockData sfsSbLocation
  -- "sfs: Wrong magic number in superblock"
  if getBE sp spMagic 4 ≠ sfsMagic then throw .einval
  let nblocks := getBE sp spNblocks 4
  if !(← kmalloc) then throw .enomem
  if !(← kmalloc) then throw .enomem
  modify fun fs => { fs with nblocks := nblocks, freemap := Bitmap.create (sfsBitmapsize nblocks) }
  sfsMapioRead 0 (sfsBitblocks nblocks)

/-! ## What the mount loads -/

/-- Every `kmalloc` finds room. -/
def Fs.KmallocWorks (fs : Fs) : Prop := ∀ n, fs.env.kmallocFail n = false

section Load

variable {fs : Fs}

/-- The volume after one more `kmalloc`. -/
def Fs.afterKmalloc (fs : Fs) : Fs := { fs with env := { fs.env with kmallocs := fs.env.kmallocs + 1 } }

@[simp] theorem Fs.kmallocWorks_afterKmalloc : fs.afterKmalloc.KmallocWorks ↔ fs.KmallocWorks := Iff.rfl

@[simp] theorem Fs.readsWork_afterKmalloc : fs.afterKmalloc.ReadsWork ↔ fs.ReadsWork := Iff.rfl

@[simp] theorem Fs.afterKmalloc_disk : fs.afterKmalloc.disk = fs.disk := rfl

/-- `kmalloc` on a heap with room. -/
theorem kmalloc_bind {β : Type} (hk : fs.KmallocWorks) (f : Bool → SfsM β) :
    (kmalloc >>= f) fs = f true fs.afterKmalloc := by
  simp [kmalloc, hk fs.env.kmallocs, Fs.afterKmalloc]

theorem sfsRblockData_of (hr : fs.ReadsWork) (b : Nat) :
    ∃ k, sfsRblockData b fs = some (.ok (fs.disk.data b), fs.afterReads k) :=
  (sfsRblockData_readsAs fs b).run hr

/-- The loop of `sfs_mapio` copies blocks `j` to `j + n - 1` of the freemap into
    their words, and touches nothing else than the read count. -/
theorem sfsMapioRead_of : ∀ (n j : Nat) (fs : Fs), fs.ReadsWork →
    ∃ k, sfsMapioRead j n fs = some (.ok (), (fs.afterReads k).loadMap j n)
  | 0, j, fs, _ => ⟨fs.env.reads, by rw [Fs.afterReads_self, Fs.loadMap_zero]; rfl⟩
  | n + 1, j, fs, hr => by
    obtain ⟨k, hread⟩ := sfsRblockData_of hr (sfsMapLocation + j)
    obtain ⟨k', hrest⟩ := sfsMapioRead_of n (j + 1) ((fs.afterReads k).loadMapBlock j
      (fs.disk.data (sfsMapLocation + j))) hr
    refine ⟨k', ?_⟩
    simp only [sfsMapioRead]
    rw [bind_of_ok hread, modify_bind, hrest, Fs.afterReads_loadMapBlock, Fs.afterReads_afterReads,
      Fs.afterReads_loadMap, Fs.loadMap_succ, ← Fs.afterReads_loadMap]

/-- On a device whose reads and allocations work, holding a superblock with the
    magic number, the mount keeps `sp_nblocks` and loads each word of the
    freemap from its place in the blocks after the root. -/
theorem sfsDomount_of (hr : fs.ReadsWork) (hk : fs.KmallocWorks)
    (hmagic : getBE (fs.disk.data sfsSbLocation) spMagic 4 = sfsMagic) :
    ∃ fs', sfsDomount fs = some (.ok (), fs') ∧
      fs'.nblocks = getBE (fs.disk.data sfsSbLocation) spNblocks 4 ∧
      fs'.freemap.nbits = sfsBitmapsize fs'.nblocks ∧ fs'.disk = fs.disk ∧
      ∀ w < sfsBitblocks fs'.nblocks * sfsBlocksize,
        fs'.freemap.v w = fs.disk.data (sfsMapLocation + w / sfsBlocksize) (w % sfsBlocksize) := by
  obtain ⟨k, hsp⟩ := sfsRblockData_of (show (fs.afterKmalloc.afterKmalloc).ReadsWork from hr) sfsSbLocation
  let nblocks := getBE (fs.disk.data sfsSbLocation) spNblocks 4
  let fs₁ : Fs := { (fs.afterKmalloc.afterKmalloc.afterReads k).afterKmalloc.afterKmalloc with
    nblocks := nblocks, freemap := Bitmap.create (sfsBitmapsize nblocks) }
  obtain ⟨k', hmap⟩ := sfsMapioRead_of (sfsBitblocks nblocks) 0 fs₁ hr
  refine ⟨(fs₁.afterReads k').loadMap 0 (sfsBitblocks nblocks), ?_, rfl, rfl, rfl, fun w hw => ?_⟩
  · unfold sfsDomount
    -- each allocation succeeds on a heap with room, whatever was read before it
    have hk₁ : fs.afterKmalloc.KmallocWorks := hk
    have hk₂ : (fs.afterKmalloc.afterKmalloc.afterReads k).KmallocWorks := hk
    rw [kmalloc_bind hk]
    simp only [Bool.not_true, Bool.false_eq_true, if_false]
    rw [kmalloc_bind hk₁]
    simp only [Bool.not_true, Bool.false_eq_true, if_false]
    rw [bind_of_ok hsp]
    -- the superblock is read from the device the allocations left alone
    have hgood : ¬ (getBE (fs.afterKmalloc.afterKmalloc.disk.data sfsSbLocation) spMagic 4 ≠ sfsMagic) :=
      fun h => h hmagic
    rw [if_neg hgood]
    rw [kmalloc_bind hk₂]
    simp only [Bool.not_true, Bool.false_eq_true, if_false]
    rw [kmalloc_bind (Fs.kmallocWorks_afterKmalloc.2 hk₂)]
    simp only [Bool.not_true, Bool.false_eq_true, if_false, modify_bind]
    exact hmap
  · have hw' : w < sfsBitblocks nblocks * sfsBlocksize := hw
    simp only [Fs.loadMap, Fs.withWords_v, Fs.mapWords]
    rw [if_pos ⟨by simp, by simpa using hw'⟩]
    rfl

end Load

end Os161.Sfs
