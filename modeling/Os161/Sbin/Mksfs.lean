import Os161.Sfs.Mount

/-!
# mksfs

mksfs (user/sbin/mksfs) writes a fresh volume onto a device, block by block
through disk.c: the superblock (`writesuper`), an empty root directory
(`writerootdir`) and the freemap (`writebitmap`), whose bits it sets one at a
time with `doallocbit` in the static buffer `bitbuf` of `MAXBITBLOCKS`
blocks. The device is an `Image`. In the OS/161 build (no `HOST`) there is no
byte swapping and no disk header, and the arithmetic is on `uint32_t`.

* `mksfs_of`: for a name mksfs accepts and a device of `N` blocks with
  `SFS_BITBLOCKS(N) ≤ MAXBITBLOCKS` and room for the freemap, mksfs writes the
  superblock, the root inode and the freemap blocks, and the bits of the
  freemap are exactly those of the superblock, the root, the freemap's own
  blocks and the blocks past `N` (`freshBit`).
-/

namespace Os161.Sbin

open Sfs Bytes KernM

/-! ## disk.c -/

/-- The block `lseek(fd, block*BLOCKSIZE, SEEK_SET)` reaches: the offset is a
    `uint32_t` product, so a block number of `2^23` or more wraps. -/
def diskBlock (block : Nat) : Nat := block * sfsBlocksize % 2 ^ 32 / sfsBlocksize

/-- `diskread(data, block)`: the block, or `err(1, ...)` when the image ends
    before it ("unexpected EOF in mid-sector"). -/
def diskread (img : Image) (block : Nat) : Except Nat (Nat → UInt8) :=
  if diskBlock block < img.size then .ok (img.blocks (diskBlock block)) else .error 1

/-- `diskwrite(data, block)`: the block's bytes replaced; a write past the end
    grows the image, and the blocks it skips read as zeros. -/
def diskwrite (img : Image) (block : Nat) (data : Nat → UInt8) : Image where
  size := max img.size (diskBlock block + 1)
  blocks k := if k = diskBlock block then data else if img.size ≤ k then fun _ => 0 else img.blocks k

/-- `SFS_ROUNDUP(a, b)` on `uint32_t`: the sum `a + b - 1` wraps. -/
def roundup32 (a b : Nat) : Nat := (a + b - 1) % 2 ^ 32 / b * b

theorem diskBlock_of_lt {block : Nat} (h : block < 2 ^ 23) : diskBlock block = block := by
  unfold diskBlock sfsBlocksize
  rw [Nat.mod_eq_of_lt (by omega), Nat.mul_div_cancel _ (by decide)]

theorem diskread_of_lt {img : Image} {block : Nat} (h : block < 2 ^ 23) (hs : block < img.size) :
    diskread img block = .ok (img.blocks block) := by
  rw [diskread, diskBlock_of_lt h, if_pos hs]

@[simp] theorem diskwrite_size {img : Image} {block : Nat} {data : Nat → UInt8} (h : block < 2 ^ 23)
    (hs : block < img.size) : (diskwrite img block data).size = img.size := by
  rw [diskwrite, diskBlock_of_lt h]
  exact Nat.max_eq_left hs

theorem diskwrite_blocks {img : Image} {block : Nat} {data : Nat → UInt8} (h : block < 2 ^ 23)
    {k : Nat} (hk : k < img.size) :
    (diskwrite img block data).blocks k = if k = block then data else img.blocks k := by
  simp only [diskwrite, diskBlock_of_lt h, if_neg (Nat.not_le.2 hk)]

theorem roundup32_of_lt {a b : Nat} (h : a + b - 1 < 2 ^ 32) :
    roundup32 a b = (a + b - 1) / b * b := by
  rw [roundup32, Nat.mod_eq_of_lt h]

/-- `SFS_BITBLOCKS(nblocks)`, the blocks of bits that cover `nblocks`. -/
theorem sfsBitblocks_eq (nblocks : Nat) : sfsBitblocks nblocks = (nblocks + 4095) / 4096 := by
  unfold sfsBitblocks sfsBlockbits sfsBlocksize
  exact Nat.mul_div_cancel _ (by decide)

theorem sfsBitmapsize_eq (nblocks : Nat) : sfsBitmapsize nblocks = sfsBitblocks nblocks * sfsBlockbits := by
  rw [sfsBitblocks_eq, sfsBitmapsize]
  rfl

/-- The bits set in the freemap of a fresh volume of `N` blocks: the
    superblock, the root inode, the freemap's own blocks, and the blocks past
    the end, up to `SFS_BITMAPSIZE(N)`. -/
def freshBit (N j : Nat) : Bool :=
  decide (j = sfsSbLocation ∨ j = sfsRootLocation ∨
    sfsMapLocation ≤ j ∧ j < sfsMapLocation + sfsBitblocks N ∨ N ≤ j ∧ j < sfsBitmapsize N)

/-! ## mksfs.c -/

/-- `MAXBITBLOCKS`. -/
def maxbitblocks : Nat := 32

/-- What mksfs works on: the device and its static `bitbuf`. -/
structure Mksfs where
  img : Image
  /-- `bitbuf[MAXBITBLOCKS*SFS_BLOCKSIZE]`, zero at the start. -/
  bitbuf : Nat → UInt8

/-- Computations of mksfs; an error is the status it exits with (`errx`). -/
abbrev MksfsM := KernM Mksfs Nat

namespace Mksfs

/-- mksfs on a device, before it writes. -/
def init (img : Image) : Mksfs := ⟨img, fun _ => 0⟩

/-- `bitbuf`, read as a bitmap of `MAXBITBLOCKS` blocks. -/
def bitbufMap (s : Mksfs) : Bitmap := ⟨maxbitblocks * sfsBlockbits, s.bitbuf⟩

/-- `diskwrite` of a block of mksfs. -/
def diskwrite (block : Nat) (data : Nat → UInt8) : MksfsM Unit :=
  modify fun s => { s with img := Sbin.diskwrite s.img block data }

/-- The superblock `writesuper` builds: zeros, then `SFS_MAGIC`, the size and
    the name. -/
def superblock (volname : List UInt8) (nblocks : Nat) : Nat → UInt8 :=
  strcpy (putBE nblocks spNblocks 4 (putBE sfsMagic spMagic 4 fun _ => 0)) spVolname volname

/-- `writesuper(volname, nblocks)`. -/
def writesuper (volname : List UInt8) (nblocks : Nat) : MksfsM Unit :=
  -- "Volume name %s too long"
  if volname.length ≥ sfsVolnameSize then throw 1
  else diskwrite sfsSbLocation (superblock volname nblocks)

/-- The inode `writerootdir` builds: a directory of size 0 with one link. -/
def rootInode : Nat → UInt8 :=
  putBE 1 sfiLinkcount 2 (putBE sfsTypeDir sfiType 2 (putBE 0 sfiSize 4 fun _ => 0))

/-- `writerootdir()`. -/
def writerootdir : MksfsM Unit := diskwrite sfsRootLocation rootInode

/-- `doallocbit(bit)`: the bit must be clear in `bitbuf`; it is set. -/
def doallocbit (bit : Nat) : MksfsM Unit := do
  let s ← get
  let byte := bit / bitsPerWord
  let mask : UInt8 := 1 <<< UInt8.ofNat (bit % bitsPerWord)
  kassert (s.bitbuf byte &&& mask = 0)
  set { s with bitbuf := Function.update s.bitbuf byte (s.bitbuf byte ||| mask) }

/-- Block `i` of the freemap in `bitbuf`: `bitbuf + i*SFS_BLOCKSIZE`. -/
def bitbufBlock (bitbuf : Nat → UInt8) (i : Nat) : Nat → UInt8 := fun j => bitbuf (i * sfsBlocksize + j)

/-- `writebitmap(fsblocks)`. -/
def writebitmap (fsblocks : Nat) : MksfsM Unit := do
  let nbits := roundup32 fsblocks sfsBlockbits
  let nblocks := nbits / sfsBlockbits
  -- "Filesystem too large - increase MAXBITBLOCKS and recompile"
  if nblocks > maxbitblocks then throw 1
  doallocbit sfsSbLocation
  doallocbit sfsRootLocation
  forLoop (fun i _ => doallocbit (sfsMapLocation + i)) 0 nblocks ()
  forLoop (fun i _ => doallocbit i) fsblocks (nbits - fsblocks) ()
  forLoop (fun i _ => do diskwrite (sfsMapLocation + i) (bitbufBlock (← get).bitbuf i)) 0 nblocks ()

/-- The volume name as `main` leaves it, one trailing colon removed; `none` for
    the names it rejects ("Illegal volume name %s"): a colon before the end,
    or a slash. -/
def volnameOf (volname : List UInt8) : Option (List UInt8) := do
  let volname ← match volname.idxOf? (cchar ':') with
    | some k => if volname.length - k ≠ 1 then none else some (volname.take k)
    | none => some volname
  if cchar '/' ∈ volname then none else some volname

/-- `main` of mksfs on the device, given the volume name of its command line. -/
def mksfs (volname : List UInt8) : MksfsM Unit := do
  match volnameOf volname with
  | none => throw 1
  | some volname =>
    -- `diskblocks()`: the size of the image in blocks, as a `uint32_t`
    let size := (← get).img.size % 2 ^ 32
    writesuper volname size
    writerootdir
    writebitmap size

/-! ## What mksfs writes -/

variable {s : Mksfs}

section Fields

variable {name : List UInt8} {N : Nat}

theorem superblock_magic :
    getBE (superblock name N) spMagic 4 = sfsMagic := by
  rw [superblock, getBE_strcpy_of_disjoint (by unfold spMagic spVolname; omega),
    getBE_putBE_of_disjoint (by unfold spMagic spNblocks; omega), getBE_putBE_of_lt (by decide)]

theorem superblock_nblocks (hN : N < 2 ^ 32) :
    getBE (superblock name N) spNblocks 4 = N := by
  rw [superblock, getBE_strcpy_of_disjoint (by unfold spNblocks spVolname; omega),
    getBE_putBE_of_lt (by simpa using hN)]

theorem superblock_volname :
    (superblock name N) (spVolname + name.length) = 0 := strcpy_nul

theorem superblock_volname_of_lt {k : Nat} (hk : k < name.length) :
    (superblock name N) (spVolname + k) = name[k] := strcpy_of_lt hk

theorem rootInode_size : getBE rootInode sfiSize 4 = 0 := by
  rw [rootInode, getBE_putBE_of_disjoint (by unfold sfiSize sfiLinkcount; omega),
    getBE_putBE_of_disjoint (by unfold sfiSize sfiType; omega), getBE_putBE_of_lt (by decide)]

theorem rootInode_type : getBE rootInode sfiType 2 = sfsTypeDir := by
  rw [rootInode, getBE_putBE_of_disjoint (by unfold sfiType sfiLinkcount; omega), getBE_putBE_of_lt (by decide)]

theorem rootInode_linkcount : getBE rootInode sfiLinkcount 2 = 1 := by
  rw [rootInode, getBE_putBE_of_lt (by decide)]

/-- The root's block pointers, direct and indirect, are all zero. -/
theorem rootInode_blocks {off : Nat} (h : sfiDirect 0 ≤ off) : getBE rootInode off 4 = 0 := by
  unfold sfiDirect at h
  rw [rootInode, getBE_putBE_of_disjoint (by unfold sfiLinkcount; omega),
    getBE_putBE_of_disjoint (by unfold sfiType; omega), getBE_putBE_of_disjoint (by unfold sfiSize; omega),
    getBE_zero]

end Fields

/-- `doallocbit` on a clear bit sets it, and nothing else. -/
theorem doallocbit_of {bit : Nat} (h : s.bitbufMap.bit bit = false) :
    Returns (doallocbit bit) s fun _ s' => s'.img = s.img ∧
      ∀ j, s'.bitbufMap.bit j = (s.bitbufMap.bit j || decide (j = bit)) := by
  have hclear : s.bitbuf (bit / bitsPerWord) &&& (1 : UInt8) <<< UInt8.ofNat (bit % bitsPerWord) = 0 :=
    (and_mask_eq_zero_iff _ (Bitmap.mod_bitsPerWord_lt bit)).2 h
  let byte := bit / bitsPerWord
  let s' : Mksfs := { s with bitbuf := Function.update s.bitbuf byte (s.bitbuf byte ||| 1 <<< UInt8.ofNat (bit % bitsPerWord)) }
  refine Returns.of_eq (a := ()) (show doallocbit bit s = some (.ok (), s') from ?_) ⟨rfl, fun j => ?_⟩
  · simp only [doallocbit, get_bind]
    rw [kassert_of hclear]
    rfl
  · exact Bitmap.bit_update_or_bit (b := s.bitbufMap) bit j

/-- The loop of `doallocbit` over the bits `c + a` to `c + a + n - 1`, all of
    them clear, sets them. -/
theorem allocRange (c : Nat) {a n : Nat} (h : ∀ k, a ≤ k → k < a + n → s.bitbufMap.bit (c + k) = false) :
    Returns (forLoop (fun i _ => doallocbit (c + i)) a n ()) s fun _ s' => s'.img = s.img ∧
      ∀ j, s'.bitbufMap.bit j = (s.bitbufMap.bit j || decide (c + a ≤ j ∧ j < c + a + n)) := by
  -- the invariant: the bits from `c + a` to before `c + i` are set
  refine (Returns.forLoop (a := a) (n := n)
    (I := fun i _ s' => s'.img = s.img ∧
      ∀ j, s'.bitbufMap.bit j = (s.bitbufMap.bit j || decide (c + a ≤ j ∧ j < c + i)))
    (fun i _ t hi hi' ⟨himg, hbits⟩ => by
      have hclear : t.bitbufMap.bit (c + i) = false := by
        rw [hbits, h i hi hi']
        simp
      refine (doallocbit_of hclear).mono fun _ t' ⟨himg', hbits'⟩ => ⟨himg'.trans himg, fun j => ?_⟩
      rw [hbits', hbits, Bool.or_assoc]
      congr 1
      rw [← Bool.decide_or, decide_eq_decide]
      omega)
    () s ⟨rfl, fun j => by simp⟩).mono fun _ s' ⟨himg, hbits⟩ => ⟨himg, fun j => by rw [hbits, Nat.add_assoc]⟩

/-- The last loop of `writebitmap` copies block `i` of `bitbuf` to block
    `SFS_MAP_LOCATION + i`, for each of the `nblocks` blocks. -/
theorem writeRange {nblocks : Nat} (hfit : sfsMapLocation + nblocks ≤ s.img.size)
    (hsmall : sfsMapLocation + nblocks ≤ 2 ^ 23) :
    Returns (forLoop (fun i _ => do diskwrite (sfsMapLocation + i) (bitbufBlock (← get).bitbuf i)) 0 nblocks ()) s
      fun _ s' => s'.bitbuf = s.bitbuf ∧ s'.img.size = s.img.size ∧
        ∀ k < s.img.size, s'.img.blocks k = if sfsMapLocation ≤ k ∧ k < sfsMapLocation + nblocks then
          bitbufBlock s.bitbuf (k - sfsMapLocation) else s.img.blocks k := by
  -- the invariant: the blocks before `SFS_MAP_LOCATION + i` are written
  refine (Returns.forLoop (a := 0) (n := nblocks)
    (I := fun i _ t => t.bitbuf = s.bitbuf ∧ t.img.size = s.img.size ∧ ∀ k < s.img.size,
      t.img.blocks k = if sfsMapLocation ≤ k ∧ k < sfsMapLocation + i then
        bitbufBlock s.bitbuf (k - sfsMapLocation) else s.img.blocks k)
    (fun i _ t _ hi ⟨hbuf, hsize, hblocks⟩ => by
      have hlt : sfsMapLocation + i < 2 ^ 23 := by omega
      have hin : sfsMapLocation + i < t.img.size := by omega
      refine Returns.of_eq (show (KernM.get >>= fun st => diskwrite (sfsMapLocation + i) (bitbufBlock st.bitbuf i) :
          MksfsM Unit) t = some (.ok (), { t with img := Sbin.diskwrite t.img (sfsMapLocation + i) (bitbufBlock t.bitbuf i) })
          from rfl) ⟨hbuf, (diskwrite_size hlt hin).trans hsize, fun k hk => ?_⟩
      rw [diskwrite_blocks hlt (hsize ▸ hk), hblocks k hk, hbuf]
      by_cases hki : k = sfsMapLocation + i
      · rw [if_pos hki, if_pos ⟨by omega, by omega⟩, hki, Nat.add_sub_cancel_left]
      · rw [if_neg hki]
        by_cases hr : sfsMapLocation ≤ k ∧ k < sfsMapLocation + i
        · rw [if_pos hr, if_pos ⟨hr.1, by omega⟩]
        · rw [if_neg hr, if_neg (by omega)])
    () s ⟨rfl, rfl, fun k _ => by rw [if_neg (by omega)]⟩).mono fun _ s' ⟨hbuf, hsize, hblocks⟩ =>
      ⟨hbuf, hsize, fun k hk => by rw [hblocks k hk, Nat.zero_add]⟩

/-- `writebitmap(N)` on a device of `N` blocks, with a clear `bitbuf`: it sets
    the bits of `freshBit N` and writes the blocks of bits after the root. -/
theorem writebitmap_of {N : Nat} (hzero : ∀ j, s.bitbufMap.bit j = false)
    (hbb : sfsBitblocks N ≤ maxbitblocks) (hfit : sfsMapLocation + sfsBitblocks N ≤ N)
    (hsize : N ≤ s.img.size) :
    ∃ s', writebitmap N s = some (.ok (), s') ∧ s'.img.size = s.img.size ∧
      (∀ k < s.img.size, s'.img.blocks k = if sfsMapLocation ≤ k ∧ k < sfsMapLocation + sfsBitblocks N then
        bitbufBlock s'.bitbuf (k - sfsMapLocation) else s.img.blocks k) ∧
      ∀ j, s'.bitbufMap.bit j = freshBit N j := by
  have hbits := sfsBitblocks_eq N
  unfold maxbitblocks at hbb
  have hnbits : roundup32 N sfsBlockbits = sfsBitmapsize N := by
    rw [roundup32_of_lt (by unfold sfsBlockbits sfsBlocksize; omega)]
    rfl
  have hnblocks : sfsBitmapsize N / sfsBlockbits = sfsBitblocks N := by
    rw [sfsBitmapsize_eq, Nat.mul_div_cancel _ (by decide)]
  have hmapsize : N ≤ sfsBitmapsize N := by
    rw [sfsBitmapsize_eq, sfsBitblocks_eq]
    unfold sfsBlockbits sfsBlocksize
    omega
  -- the two bits of the superblock and the root
  obtain ⟨_, s₁, h₁, himg₁, hbits₁⟩ := doallocbit_of (hzero sfsSbLocation)
  obtain ⟨_, s₂, h₂, himg₂, hbits₂⟩ := doallocbit_of
    (show s₁.bitbufMap.bit sfsRootLocation = false by rw [hbits₁, hzero]; decide)
  -- the freemap's own blocks, then the blocks past the end
  obtain ⟨_, s₃, h₃, himg₃, hbits₃⟩ := allocRange (s := s₂) sfsMapLocation (a := 0) (n := sfsBitblocks N)
    (fun k _ _ => by
      rw [hbits₂, hbits₁, hzero]
      simp only [Bool.false_or, Bool.or_eq_false_iff, decide_eq_false_iff_not]
      unfold sfsMapLocation sfsSbLocation sfsRootLocation
      omega)
  obtain ⟨_, s₄, h₄, himg₄, hbits₄⟩ := allocRange (s := s₃) 0 (a := N) (n := sfsBitmapsize N - N)
    (fun k hk _ => by
      rw [hbits₃, hbits₂, hbits₁, hzero]
      simp only [Bool.false_or, Bool.or_eq_false_iff, decide_eq_false_iff_not]
      refine ⟨⟨?_, ?_⟩, ?_⟩ <;> unfold sfsMapLocation sfsSbLocation sfsRootLocation at * <;> omega)
  simp only [Nat.zero_add] at h₄ hbits₄
  obtain ⟨_, s₅, h₅, hbuf₅, hsize₅, hblocks₅⟩ := writeRange
    (show sfsMapLocation + sfsBitblocks N ≤ s₄.img.size by rw [himg₄, himg₃, himg₂, himg₁]; omega)
    (by unfold sfsMapLocation; omega)
  refine ⟨s₅, ?_, ?_, fun k hk => ?_, fun j => ?_⟩
  · simp only [writebitmap, hnbits, hnblocks]
    rw [if_neg (by unfold maxbitblocks; omega), bind_of_ok h₁, bind_of_ok h₂, bind_of_ok h₃, bind_of_ok h₄, h₅]
  · rw [hsize₅, himg₄, himg₃, himg₂, himg₁]
  · rw [hblocks₅ k (by rw [himg₄, himg₃, himg₂, himg₁]; exact hk), hbuf₅, himg₄, himg₃, himg₂, himg₁]
  · -- the bits set, in the order `writebitmap` sets them
    have hbuf : s₅.bitbufMap = s₄.bitbufMap := by rw [bitbufMap, bitbufMap, hbuf₅]
    rw [hbuf, hbits₄, hbits₃, hbits₂, hbits₁, hzero, freshBit]
    simp only [Bool.false_or, ← Bool.decide_or, decide_eq_decide]
    unfold sfsMapLocation sfsSbLocation sfsRootLocation
    omega

/-- mksfs on a device of `N` blocks, for a name it accepts, with
    `SFS_BITBLOCKS(N) ≤ MAXBITBLOCKS` and the freemap inside the device: it
    writes the superblock, the root inode and the blocks of the freemap, leaves
    the other blocks, and the freemap's bits are `freshBit N`. -/
theorem mksfs_of {img : Image} {volname name : List UInt8} (hname : volnameOf volname = some name)
    (hlen : name.length < sfsVolnameSize) (hbb : sfsBitblocks img.size ≤ maxbitblocks)
    (hfit : sfsMapLocation + sfsBitblocks img.size ≤ img.size) :
    ∃ s, mksfs volname (init img) = some (.ok (), s) ∧ s.img.size = img.size ∧
      s.img.blocks sfsSbLocation = superblock name img.size ∧ s.img.blocks sfsRootLocation = rootInode ∧
      (∀ i < sfsBitblocks img.size, s.img.blocks (sfsMapLocation + i) = bitbufBlock s.bitbuf i) ∧
      (∀ k < img.size, sfsMapLocation + sfsBitblocks img.size ≤ k → s.img.blocks k = img.blocks k) ∧
      ∀ j, s.bitbufMap.bit j = freshBit img.size j := by
  have hsmall : img.size < 2 ^ 32 := by
    rw [sfsBitblocks_eq] at hbb
    unfold maxbitblocks at hbb
    omega
  have hsb : sfsSbLocation < img.size := by unfold sfsSbLocation sfsMapLocation at *; omega
  have hroot : sfsRootLocation < img.size := by unfold sfsRootLocation sfsMapLocation at *; omega
  have hsb' : sfsSbLocation < 2 ^ 23 := by decide
  have hroot' : sfsRootLocation < 2 ^ 23 := by decide
  -- the superblock and the root are written first
  let img₁ := Sbin.diskwrite img sfsSbLocation (superblock name img.size)
  let img₂ := Sbin.diskwrite img₁ sfsRootLocation rootInode
  have hsize₁ : img₁.size = img.size := diskwrite_size hsb' hsb
  have hsize₂ : img₂.size = img.size := (diskwrite_size hroot' (hsize₁ ▸ hroot)).trans hsize₁
  have hblocks₂ : ∀ k < img.size, img₂.blocks k = if k = sfsRootLocation then rootInode
      else if k = sfsSbLocation then superblock name img.size else img.blocks k := fun k hk => by
    rw [diskwrite_blocks hroot' (hsize₁ ▸ hk), diskwrite_blocks hsb' hk]
  obtain ⟨s, hrun, hsize, hblocks, hbits⟩ := writebitmap_of (s := ⟨img₂, fun _ => 0⟩) (N := img.size)
    (fun j => by simp [bitbufMap, Bitmap.bit]) hbb hfit hsize₂.ge
  have hblocks' : ∀ k < img.size, s.img.blocks k = if sfsMapLocation ≤ k ∧ k < sfsMapLocation + sfsBitblocks img.size
      then bitbufBlock s.bitbuf (k - sfsMapLocation) else img₂.blocks k := fun k hk => hblocks k (hsize₂ ▸ hk)
  refine ⟨s, ?_, hsize.trans hsize₂, ?_, ?_, fun i hi => ?_, fun k hk hk' => ?_, hbits⟩
  · simp only [mksfs, hname, get_bind, init]
    rw [Nat.mod_eq_of_lt hsmall, writesuper, if_neg (by omega)]
    exact hrun
  · rw [hblocks' _ hsb, if_neg (by unfold sfsSbLocation sfsMapLocation; omega), hblocks₂ _ hsb, if_neg (by decide),
      if_pos rfl]
  · rw [hblocks' _ hroot, if_neg (by unfold sfsRootLocation sfsMapLocation; omega), hblocks₂ _ hroot, if_pos rfl]
  · rw [hblocks' _ (by omega), if_pos ⟨by omega, by omega⟩, Nat.add_sub_cancel_left]
  · rw [hblocks' _ hk, if_neg (by omega), hblocks₂ _ hk, if_neg (by unfold sfsRootLocation sfsMapLocation at *; omega),
      if_neg (by unfold sfsSbLocation sfsMapLocation at *; omega)]

/-- The name mksfs keeps is a prefix of the one it is given, with no colon
    and no slash. -/
theorem volnameOf_spec {volname name : List UInt8} (h : volnameOf volname = some name) :
    name <+: volname ∧ cchar ':' ∉ name ∧ cchar '/' ∉ name := by
  unfold volnameOf at h
  cases hk : volname.idxOf? (cchar ':') with
  | none =>
    simp only [hk, Option.bind_eq_bind, Option.bind_some] at h
    split at h
    · cases h
    · cases h
      exact ⟨List.prefix_refl _, List.idxOf?_eq_none_iff.1 hk, ‹_›⟩
  | some k =>
    -- the name stops before the first colon
    obtain ⟨hlt, -, hbefore⟩ := List.idxOf?_eq_some_iff.1 hk
    simp only [hk] at h
    split at h
    · simp at h
    · simp only [Option.bind_eq_bind, Option.bind_some] at h
      split at h
      · cases h
      · cases h
        refine ⟨List.take_prefix _ _, fun hc => ?_, ‹_›⟩
        obtain ⟨j, hj, hjc⟩ := List.getElem_of_mem hc
        rw [List.length_take] at hj
        exact hbefore j (by omega) (by rw [← hjc, List.getElem_take])

end Mksfs

end Os161.Sbin
