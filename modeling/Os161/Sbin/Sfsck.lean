import Os161.Sbin.Mksfs
import Os161.Sfs.Dir

/-!
# sfsck

sfsck (user/sbin/sfsck) checks a volume and repairs what it can. `check_sb`
reads the superblock and marks the superblock, the freemap's blocks and the
bits past the end as used; `check_root_dir` and the recursive `check_dir`
walk the tree from the root, marking each inode and block they reach and
fixing directory entries, `.` and `..`, link counts of directories, and block
pointers past the end of a file; `check_bitmap` compares the freemap on the
disk with what was found and rewrites it; `adjust_filelinks` fixes the link
counts of files. The exit status is the worst `badness` met: `EXIT_CLEAN`,
`EXIT_RECOV` (repaired) or `EXIT_UNRECOV`.

The model is of the OS/161 build: `NO_QSORT` (a bubble sort) and
`NO_REALLOC`, no byte swapping, and the single indirect block of this SFS.
The messages are left out. `check_dir` recurses once per level of the tree,
which `fuel` bounds: a run out of fuel is a stop, as a C stack that overflows.

The steps are read with the `Returns` rules of `KernM`, which take each
`do` block apart where it stands:

* `checkDirBody_empty`: `check_dir` of a directory of size 0 cannot add `.`
  and `..` (`EXIT_UNRECOV`) and rewrites the inode with its link count set;
* `checkBitmap_of_agree`: a freemap that shows used what was found is left
  alone;
* `runCalls_ninodes`: whatever `remember_dir` and `observe_filelink` calls
  the walk makes, `ninodes` stays 0, as `addmemory` never counts what it
  adds; so `remember_dir` never finds a directory twice and
  `adjust_filelinks` has nothing to go over;
* `sfsck_rerun_repairs_again`: a block pointer past the end of a file is
  freed in the freemap but left in the inode, and a second run repairs it
  again.
-/

namespace Os161.Sbin

open Sfs Bytes KernM

/-- `EXIT_CLEAN`. -/
def exitClean : Nat := 0

/-- `EXIT_RECOV`. -/
def exitRecov : Nat := 1

/-- `EXIT_UNRECOV`. -/
def exitUnrecov : Nat := 2

/-- `blockusage_t`: what a block is found used as. -/
inductive BlockUsage
  | superblock | bitblock | inode | iblock | dirdata | data | tofree | pastend
  deriving DecidableEq, Repr

/-- `struct inodememory`. -/
structure InodeMemory where
  ino : Nat
  /-- Files only; 0 for directories. -/
  linkcount : Nat

/-- The globals of sfsck, with the device it checks. -/
structure Sfsck where
  img : Image
  /-- The blocks `diskwrite` wrote, in order. -/
  writes : List Nat
  badness : Nat
  nblocks : Nat
  bitblocks : Nat
  uniquecounter : Nat
  /-- The blocks found in use, a bit each. -/
  bitmapdata : Nat → UInt8
  /-- The blocks to release. -/
  tofreedata : Nat → UInt8
  inodes : Nat → InodeMemory
  ninodes : Nat
  maxinodes : Nat

/-- Computations of sfsck; an error is the status it exits with (`errx`,
    `err`). -/
abbrev SfsckM := KernM Sfsck Nat

namespace Sfsck

/-- sfsck on a device, before it starts. -/
def init (img : Image) : Sfsck := ⟨img, [], exitClean, 0, 0, 1, fun _ => 0, fun _ => 0, fun _ => ⟨0, 0⟩, 0, 0⟩

/-- `bitmapdata`, read as a bitmap of `bitblocks` blocks of bits. -/
def found (s : Sfsck) : Bitmap := ⟨s.bitblocks * sfsBlockbits, s.bitmapdata⟩

/-- `tofreedata`, read the same way. -/
def tofree (s : Sfsck) : Bitmap := ⟨s.bitblocks * sfsBlockbits, s.tofreedata⟩

/-! ## Blocks, badness and the two bitmaps -/

/-- `diskread(data, block)`. -/
def diskread (block : Nat) : SfsckM (Nat → UInt8) := do
  match Sbin.diskread (← get).img block with
  | .ok data => pure data
  | .error code => throw code

/-- `diskwrite(data, block)`. -/
def diskwrite (block : Nat) (data : Nat → UInt8) : SfsckM Unit :=
  modify fun s => { s with img := Sbin.diskwrite s.img block data, writes := s.writes ++ [block] }

/-- The globals after `setbadness(code)`. -/
def raise (s : Sfsck) (code : Nat) : Sfsck := if s.badness < code then { s with badness := code } else s

/-- `setbadness(code)`. -/
def setbadness (code : Nat) : SfsckM Unit := modify (·.raise code)

/-- What `bitmap_mark` does at byte `index` and bit `mask` of the two bitmaps. -/
def mark (s : Sfsck) (index : Nat) (mask : UInt8) (how : BlockUsage) : Sfsck :=
  if how = .tofree then
    -- already marked to free once, or used elsewhere: ignore
    if s.tofreedata index &&& mask ≠ 0 ∨ s.bitmapdata index &&& mask ≠ 0 then s
    else { s with tofreedata := Function.update s.tofreedata index (s.tofreedata index ||| mask) }
  else
    -- really using the block, don't free it
    let s := if s.tofreedata index &&& mask ≠ 0 then
      { s with tofreedata := Function.update s.tofreedata index (s.tofreedata index &&& ~~~mask) } else s
    -- "Block %lu (used as %s) already in use! (NOT FIXED)"
    let s := if s.bitmapdata index &&& mask ≠ 0 then s.raise exitUnrecov else s
    { s with bitmapdata := Function.update s.bitmapdata index (s.bitmapdata index ||| mask) }

/-- `bitmap_mark(block, how, howdesc)`. The arrays hold `bitblocks *
    SFS_BLOCKSIZE` bytes and C indexes them without a check: an index past
    them is a stop. -/
def bitmapMark (block : Nat) (how : BlockUsage) : SfsckM Unit := do
  let s ← get
  let index := block / bitsPerWord
  let mask : UInt8 := 1 <<< UInt8.ofNat (block % bitsPerWord)
  kassert (index < s.bitblocks * sfsBlocksize)
  set (s.mark index mask how)

/-! ## Strings -/

/-- `"."`. -/
def dot : List UInt8 := [cchar '.']

/-- `".."`. -/
def dotdot : List UInt8 := [cchar '.', cchar '.']

/-- `checknullstring(buf + off, maxlen)`: whether the string has no NUL in its
    `maxlen` bytes, in which case its last byte becomes one. -/
def checknullstring (buf : Nat → UInt8) (off maxlen : Nat) : Bool × (Nat → UInt8) :=
  if (List.range maxlen).any fun i => buf (off + i) == 0 then (false, buf)
  else (true, Function.update buf (off + maxlen - 1) 0)

/-- `checkbadstring(buf + off)`: each `:` and `/` before the NUL becomes `_`;
    whether there was one. The C loop runs to the NUL, which
    `checknullstring` has placed within the `n` bytes read here. -/
def checkbadstring (buf : Nat → UInt8) (off : Nat) : Nat → Bool × (Nat → UInt8)
  | 0 => (false, buf)
  | n + 1 =>
    if buf off = 0 then (false, buf)
    else
      let bad := buf off = cchar ':' ∨ buf off = cchar '/'
      let r := checkbadstring (if bad then Function.update buf off (cchar '_') else buf) (off + 1) n
      (decide bad || r.1, r.2)

/-! ## `check_sb` -/

/-- `check_sb()`. -/
def checkSb : SfsckM Unit := do
  let sp ← diskread sfsSbLocation
  -- "Not an sfs filesystem"
  if getBE sp spMagic 4 ≠ sfsMagic then throw exitUnrecov
  let s ← get
  kassert (s.nblocks = 0)
  kassert (s.bitblocks = 0)
  let nblocks := getBE sp spNblocks 4
  let bitblocks := roundup32 nblocks sfsBlockbits / sfsBlockbits
  kassert (nblocks > 0)
  kassert (bitblocks > 0)
  -- `bitmap_init(bitblocks)`
  set { s with nblocks, bitblocks, bitmapdata := fun _ => 0, tofreedata := fun _ => 0 }
  forLoop (fun i _ => bitmapMark i .pastend) nblocks (bitblocks * sfsBlockbits - nblocks) ()
  -- "Volume name not null-terminated (fixed)"
  let (nul, sp) := checknullstring sp spVolname sfsVolnameSize
  if nul then setbadness exitRecov
  -- "Volume name contains illegal characters (fixed)"
  let (bad, sp) := checkbadstring sp spVolname sfsVolnameSize
  if bad then setbadness exitRecov
  if nul || bad then diskwrite sfsSbLocation sp
  bitmapMark sfsSbLocation .superblock
  forLoop (fun i _ => bitmapMark (sfsMapLocation + i) .bitblock) 0 bitblocks ()

/-! ## Blocks of an inode -/

/-- `check_indirect_block(ino, ientry, blockp, nblocks, badcountp, isdir, 1)`
    for the single indirect block of this SFS, whose first entry is file
    block `blockp`: the bad count and the indirect entry after it. Entries
    past the end are marked used, then zeroed. -/
def checkIndirectBlock (ientry blockp nblocks badcount : Nat) (isdir : Bool) : SfsckM (Nat × Nat) := do
  let how := if isdir then BlockUsage.dirdata else .data
  let entries ← if ientry ≠ 0 then do
      let entries ← diskread ientry
      bitmapMark ientry .iblock
      pure entries
    else pure fun _ => 0
  let (entries, badcount) ← forLoop (fun i (acc : (Nat → UInt8) × Nat) =>
      let e := getBE acc.1 (4 * i) 4
      if blockp + i < nblocks then do
        if e ≠ 0 then bitmapMark e how
        pure acc
      else if e ≠ 0 then do
        bitmapMark e how
        pure (putBE 0 (4 * i) 4 acc.1, acc.2 + 1)
      else pure acc) 0 sfsDbperidb (entries, badcount)
  if (List.range sfsDbperidb).all fun i => getBE entries (4 * i) 4 == 0 then
    if ientry ≠ 0 then do
      bitmapMark ientry .tofree
      pure (badcount + 1, 0)
    else pure (badcount, ientry)
  else do
    kassert (ientry ≠ 0)
    if badcount > 0 then diskwrite ientry entries
    pure (badcount, ientry)

/-- `check_inode_blocks(ino, sfi, isdir)`: whether blocks past the end of the
    file were found, and the inode with the indirect entry
    `check_indirect_block` leaves. A direct block past the end is marked to
    free, and its pointer left in the inode. -/
def checkInodeBlocks (sfi : Nat → UInt8) (isdir : Bool) : SfsckM (Bool × (Nat → UInt8)) := do
  let nblocks := roundup32 (getBE sfi sfiSize 4) sfsBlocksize / sfsBlocksize
  let how := if isdir then BlockUsage.dirdata else .data
  let badcount ← forLoop (fun block badcount =>
      let b := getBE sfi (sfiDirect block) 4
      if block < nblocks then do
        if b ≠ 0 then bitmapMark b how
        pure badcount
      else if b ≠ 0 then do
        bitmapMark b .tofree
        pure (badcount + 1)
      else pure badcount) 0 sfsNdirect 0
  let (badcount, ientry) ← checkIndirectBlock (getBE sfi sfiIndirect 4) sfsNdirect nblocks badcount isdir
  let sfi := putBE ientry sfiIndirect 4 sfi
  if badcount > 0 then do
    -- "Inode %lu: %lu blocks after EOF (freed)"
    setbadness exitRecov
    pure (true, sfi)
  else pure (false, sfi)

/-- `ibmap(iblock, offset, 1)`. -/
def ibmap (iblock offset : Nat) : SfsckM Nat :=
  if iblock = 0 then pure 0
  else do
    let entries ← diskread iblock
    kassert (offset < sfsDbperidb)
    pure (getBE entries (4 * offset) 4)

/-- `dobmap(sfi, fileblock)`: the disk block of a file block, 0 for none. -/
def dobmap (sfi : Nat → UInt8) (fileblock : Nat) : SfsckM Nat :=
  if fileblock < sfsNdirect then pure (getBE sfi (sfiDirect fileblock) 4)
  else if fileblock < sfsNdirect + sfsDbperidb then
    ibmap (getBE sfi sfiIndirect 4) ((fileblock - sfsNdirect) % sfsDbperidb)
  else pure 0

/-! ## Directory entries -/

/-- Entries in a block: `SFS_BLOCKSIZE/sizeof(struct sfs_dir)`. -/
def atonce : Nat := sfsBlocksize / sfsDirSize

/-- `sfd_ino` of entry `i` of an array of `struct sfs_dir`. -/
def entIno (d : Nat → UInt8) (i : Nat) : Nat := getBE d (sfsDirSize * i) 4

/-- Where `sfd_name` of entry `i` starts. -/
def nameOff (i : Nat) : Nat := sfsDirSize * i + sfdName

/-- `sfd_name` of entry `i`, as `strcmp` reads it. -/
def entName (d : Nat → UInt8) (i : Nat) : List UInt8 := cstring d (nameOff i) sfsNamelen

/-- `sfd_ino` of entry `i` set to `ino`. -/
def setEntIno (d : Nat → UInt8) (i ino : Nat) : Nat → UInt8 := putBE ino (sfsDirSize * i) 4 d

/-- `dirread(sfi, d, nd)`: the blocks holding the first `nd` entries; a
    block missing from the directory reads as zeros ("Warning: sparse
    directory found"). -/
def dirread (sfi : Nat → UInt8) (nd : Nat) : SfsckM (Nat → UInt8) :=
  forLoop (fun i d => do
      let block ← dobmap sfi i
      if block ≠ 0 then do
        let data ← diskread block
        pure (blit d (i * sfsBlocksize) sfsBlocksize data)
      else pure (blit d (i * sfsBlocksize) sfsBlocksize fun _ => 0))
    0 (roundup32 nd atonce / atonce) fun _ => 0

/-- `dirwrite(sfi, d, nd)`. -/
def dirwrite (sfi d : Nat → UInt8) (nd : Nat) : SfsckM Unit :=
  forLoop (fun i _ => do
      let block ← dobmap sfi i
      if block ≠ 0 then diskwrite block fun j => d (i * sfsBlocksize + j)
      -- "Cannot write to missing block in sparse directory (ERROR)"
      else if (List.range atonce).any (fun j => entIno d (i * atonce + j) != sfsNoino ||
          d (nameOff (i * atonce + j)) != 0) then setbadness exitUnrecov
      else pure ())
    0 (roundup32 nd atonce / atonce) ()

/-- The name sfsck gives an entry, `FSCK.<ino>.<uniquecounter>`, as `snprintf`
    leaves it in `sfd_name`. -/
def fsckName (ino counter : Nat) : List UInt8 :=
  (("FSCK." ++ toString ino ++ "." ++ toString counter).toList.map cchar).take (sfsNamelen - 1)

/-- Entry `i` renamed `FSCK.<ino>.<uniquecounter++>`. -/
def renameEntry (i : Nat) (d : Nat → UInt8) : SfsckM (Nat → UInt8) := do
  let s ← get
  set { s with uniquecounter := (s.uniquecounter + 1) % 2 ^ 32 }
  pure (strcpy d (nameOff i) (fsckName (entIno d i) s.uniquecounter))

/-- `check_dir_entry(pathsofar, index, sfd)`: whether the entry changed. -/
def checkDirEntry (i : Nat) (d : Nat → UInt8) : SfsckM (Bool × (Nat → UInt8)) :=
  if entIno d i = sfsNoino then
    if d (nameOff i) ≠ 0 then do
      -- "Directory /%s entry %lu has name but no file"
      setbadness exitRecov
      pure (true, Function.update d (nameOff i) 0)
    else pure (false, d)
  else do
    let (named, d) ← if d (nameOff i) = 0 then do
        let d ← renameEntry i d
        -- "Directory /%s entry %lu has file but no name (fixed: %s)"
        setbadness exitRecov
        pure (true, d)
      else pure (false, d)
    -- "Directory /%s entry %lu not null-terminated (fixed)"
    let (nul, d) := checknullstring d (nameOff i) sfsNamelen
    if nul then setbadness exitRecov
    -- "Directory /%s entry %lu contains invalid characters (fixed)"
    let (bad, d) := checkbadstring d (nameOff i) sfsNamelen
    if bad then setbadness exitRecov
    pure (named || nul || bad, d)

/-- The `qsort` of the OS/161 build (`NO_QSORT`), a bubble sort: `data[i]` and
    `data[j]` are swapped when `f(&data[i], &data[j]) < 0`. -/
def bubbleSort (lt : Nat → Nat → Bool) (num : Nat) (data : Nat → Nat) : Nat → Nat :=
  (List.range (num - 1)).foldl (fun data i =>
    (List.range' (i + 1) (num - (i + 1))).foldl (fun data j =>
      if lt (data i) (data j) then Function.update (Function.update data i (data j)) j (data i) else data)
      data) data

/-- `sortdir(vector, d, nd)` on `vector[i] = i`: the entries in the order of
    the bubble sort by `strcmp` of their names (`dirsortfunc`). -/
def sortdir (d : Nat → UInt8) (nd : Nat) : Nat → Nat :=
  bubbleSort (fun a b => decide (entName d a < entName d b)) nd id

/-- `dir_tryadd(d, nd, name, ino)`: the first free slot of the first `nd`
    takes the entry. -/
def dirTryadd (d : Nat → UInt8) (nd : Nat) (name : List UInt8) (ino : Nat) : Option (Nat → UInt8) :=
  ((List.range nd).find? fun i => entIno d i = sfsNoino).map fun i =>
    strcpy (setEntIno d i ino) (nameOff i) name

/-! ## Inodes remembered -/

/-- `addmemory(ino, linkcount)`. With `NO_REALLOC` a full array is replaced by
    a new one of `(maxinodes+1)*2` entries into which `memcpy` copies
    `ninodes` bytes; `maxinodes` stays, and `ninodes` is not moved on. -/
def addmemory (ino linkcount : Nat) : SfsckM Unit := do
  let s ← get
  kassert (s.ninodes ≤ s.maxinodes)
  let inodes := if s.ninodes = s.maxinodes then
      fun i => if (i + 1) * 8 ≤ s.ninodes then s.inodes i else ⟨0, 0⟩
    else s.inodes
  set { s with inodes := Function.update inodes s.ninodes ⟨ino, linkcount⟩ }

/-- The first of the `ninodes` remembered inodes that is `ino`. -/
def findMemory (s : Sfsck) (ino : Nat) : Option Nat :=
  (List.range s.ninodes).find? fun i => (s.inodes i).ino = ino

/-- `remember_dir(ino, pathsofar)`: whether the directory was remembered
    already. -/
def rememberDir (ino : Nat) : SfsckM Bool := do
  let s ← get
  match findMemory s ino with
  | some i => do
    kassert ((s.inodes i).linkcount = 0)
    pure true
  | none => do
    addmemory ino 0
    pure false

/-- `observe_filelink(ino)`. -/
def observeFilelink (ino : Nat) : SfsckM Unit := do
  let s ← get
  match findMemory s ino with
  | some i => do
    kassert ((s.inodes i).linkcount > 0)
    set { s with inodes := Function.update s.inodes i ⟨ino, (s.inodes i).linkcount + 1⟩ }
  | none => do
    bitmapMark ino .inode
    addmemory ino 1

/-- `adjust_filelinks()`. -/
def adjustFilelinks : SfsckM Unit := do
  let s ← get
  forLoop (fun i _ => do
      let m := (← get).inodes i
      -- a directory
      if m.linkcount = 0 then pure ()
      else do
        let sfi ← diskread m.ino
        kassert (getBE sfi sfiType 2 = sfsTypeFile)
        if getBE sfi sfiLinkcount 2 ≠ m.linkcount then do
          -- "File %lu link count %lu should be %lu (fixed)"
          setbadness exitRecov
          diskwrite m.ino (putBE m.linkcount sfiLinkcount 2 sfi))
    0 s.ninodes ()

/-! ## `check_dir` -/

/-- The locals of `check_dir` from one of its loops to the next. -/
structure Dir where
  ino : Nat
  parentino : Nat
  /-- The directory's inode. -/
  sfi : Nat → UInt8
  /-- `direntries`: `maxd` entries of `struct sfs_dir`. -/
  d : Nat → UInt8
  /-- `ndirentries`. -/
  nd : Nat
  /-- `maxdirentries`. -/
  maxd : Nat
  ichanged : Bool
  dchanged : Bool

/-- Entry `i` emptied: no inode, no name. -/
def Dir.clearEntry (dir : Dir) (i : Nat) : Dir :=
  { dir with d := Function.update (setEntIno dir.d i sfsNoino) (nameOff i) 0, dchanged := true }

/-- `check_dir` up to its entries read: the inode read, remembered and
    marked, its size and blocks checked, the entries read and the slots past
    the last one cleared; `none` for a directory remembered already. -/
def dirOpen (ino parentino : Nat) : SfsckM (Option Dir) := do
  let sfi ← diskread ino
  -- crosslinked dir
  if ← rememberDir ino then return none
  bitmapMark ino .inode
  let size := getBE sfi sfiSize 4
  let sized := size % sfsDirSize ≠ 0
  -- "Directory /%s has illegal size %lu (fixed)"
  if sized then setbadness exitRecov
  let sfi := if sized then putBE (roundup32 size sfsDirSize) sfiSize 4 sfi else sfi
  let (blocks, sfi) ← checkInodeBlocks sfi true
  let nd := getBE sfi sfiSize 4 / sfsDirSize
  let maxd := roundup32 nd atonce
  let d ← dirread sfi nd
  let d := blit d (sfsDirSize * nd) (sfsDirSize * (maxd - nd)) fun _ => 0
  return some ⟨ino, parentino, sfi, d, nd, maxd, decide sized || blocks, false⟩

/-- The `check_dir_entry` loop. -/
def checkEntries (dir : Dir) : SfsckM Dir :=
  forLoop (fun i dir => do
      let (changed, d) ← checkDirEntry i dir.d
      pure { dir with d, dchanged := dir.dchanged || changed })
    0 dir.nd dir

/-- The loop over neighbours in the sorted order `sv`: a duplicate entry is
    merged ("Duplicate entries for %s (merged)"), a duplicate name renamed
    ("Duplicate names %s (one renamed: %s)"). -/
def dupLoop (sv : Nat → Nat) (dir : Dir) : SfsckM Dir :=
  forLoop (fun i dir => do
      let a := sv i
      let b := sv (i + 1)
      kassert (a ≠ b)
      if entIno dir.d a = sfsNoino then pure dir
      else if entName dir.d a = entName dir.d b then
        if entIno dir.d a = entIno dir.d b then do
          setbadness exitRecov
          pure (dir.clearEntry a)
        else do
          let d ← renameEntry a dir.d
          setbadness exitRecov
          pure { dir with d, dchanged := true }
      else pure dir)
    0 (dir.nd - 1) dir

/-- Entry `i`, a `.` or a `..`, made to name `target` ("Incorrect entry
    (fixed)"). -/
def fixDot (i target : Nat) (dir : Dir) : SfsckM Dir :=
  if entIno dir.d i ≠ target then do
    setbadness exitRecov
    pure { dir with d := setEntIno dir.d i target, dchanged := true }
  else pure dir

/-- The loop over the `.` and `..` entries: whether each was seen. -/
def dotLoop (dir : Dir) : SfsckM (Dir × Bool × Bool) :=
  forLoop (fun i (acc : Dir × Bool × Bool) =>
      if entName acc.1.d i = dot then do
        let dir ← fixDot i acc.1.ino acc.1
        -- due to duplicate checking
        kassert (acc.2.1 = false)
        pure (dir, true, acc.2.2)
      else if entName acc.1.d i = dotdot then do
        let dir ← fixDot i acc.1.parentino acc.1
        kassert (acc.2.2 = false)
        pure (dir, acc.2.1, true)
      else pure acc)
    0 dir.nd (dir, false, false)

/-- A missing `.` or `..` added ("No entry (added)"): in a free slot, or else
    in a slot past the last entry of the last block, the directory growing
    by one entry; or not at all ("(NOT FIXED)"). -/
def addDot (name : List UInt8) (target : Nat) (dir : Dir) : SfsckM Dir :=
  match dirTryadd dir.d dir.nd name target with
  | some d => do
    setbadness exitRecov
    pure { dir with d, dchanged := true }
  | none =>
    match dirTryadd dir.d dir.maxd name target with
    | some d => do
      setbadness exitRecov
      pure { dir with d, nd := dir.nd + 1, dchanged := true, ichanged := true,
                      sfi := putBE (getBE dir.sfi sfiSize 4 + sfsDirSize) sfiSize 4 dir.sfi }
    | none => do
      setbadness exitUnrecov
      pure dir

/-- The loop over the other entries: a file's blocks are checked and its link
    observed, a directory checked by `checkDir` (an entry for a directory
    remembered already is removed), an entry of another type removed; and
    the subdirectories counted. -/
def subdirLoop (checkDir : Nat → Nat → SfsckM Bool) (dir : Dir) : SfsckM (Dir × Nat) :=
  forLoop (fun i (acc : Dir × Nat) =>
      let ino := entIno acc.1.d i
      if entName acc.1.d i = dot ∨ entName acc.1.d i = dotdot ∨ ino = sfsNoino then pure acc
      else do
        let subsfi ← diskread ino
        let t := getBE subsfi sfiType 2
        if t = sfsTypeFile then do
          let (changed, subsfi) ← checkInodeBlocks subsfi false
          if changed then diskwrite ino subsfi
          observeFilelink ino
          pure acc
        else if t = sfsTypeDir then do
          if ← checkDir ino acc.1.ino then do
            -- "Directory /%s: Crosslink to other directory (removed)"
            setbadness exitRecov
            pure (acc.1.clearEntry i, acc.2)
          else pure (acc.1, acc.2 + 1)
        else do
          -- "Object /%s: Invalid inode type (removed)"
          setbadness exitRecov
          pure (acc.1.clearEntry i, acc.2))
    0 dir.nd (dir, 0)

/-- The end of `check_dir`: the directory's link count set to its
    subdirectories and two, the entries and the inode written if changed. -/
def dirClose (dir : Dir) (subdircount : Nat) : SfsckM Unit := do
  let relink := getBE dir.sfi sfiLinkcount 2 ≠ subdircount + 2
  -- "Directory /%s: Link count %lu should be %lu (fixed)"
  if relink then setbadness exitRecov
  let sfi := if relink then putBE (subdircount + 2) sfiLinkcount 2 dir.sfi else dir.sfi
  if dir.dchanged then dirwrite sfi dir.d dir.nd
  if dir.ichanged || decide relink then diskwrite dir.ino sfi

/-- `check_dir(ino, parentino, pathsofar)`, with `checkDir` for the calls it
    makes on subdirectories: whether the directory was remembered already. -/
def checkDirBody (checkDir : Nat → Nat → SfsckM Bool) (ino parentino : Nat) : SfsckM Bool := do
  match ← dirOpen ino parentino with
  | none => pure true
  | some dir =>
    let dir ← checkEntries dir
    let dir ← dupLoop (sortdir dir.d dir.nd) dir
    let (dir, dotseen, dotdotseen) ← dotLoop dir
    let dir ← if dotseen then pure dir else addDot dot dir.ino dir
    let dir ← if dotdotseen then pure dir else addDot dotdot dir.parentino dir
    let (dir, subdircount) ← subdirLoop checkDir dir
    dirClose dir subdircount
    pure false

/-- `check_dir`, for trees up to `fuel` levels deep. -/
def checkDir : Nat → Nat → Nat → SfsckM Bool
  | 0, _, _ => fail
  | fuel + 1, ino, parentino => checkDirBody (checkDir fuel) ino parentino

/-- `check_root_dir()`: the root made a directory, then checked. -/
def checkRootDir (fuel : Nat) : SfsckM Unit := do
  let sfi ← diskread sfsRootLocation
  -- "Root directory inode is a regular file (fixed)", "... has invalid type"
  if getBE sfi sfiType 2 ≠ sfsTypeDir then do
    setbadness exitRecov
    diskwrite sfsRootLocation (putBE sfsTypeDir sfiType 2 sfi)
  let _ ← checkDir fuel sfsRootLocation sfsRootLocation

/-! ## `check_bitmap` -/

/-- `countbits(val)`. -/
def countbits (val : UInt8) : Nat := (List.range 8).countP fun o => val.toNat.testBit o

/-- A byte of the freemap that differs from what was found: the byte to
    write, and the blocks it shows free that are used and shown used that
    are free. -/
def bitmapByte (b found tofree : UInt8) : UInt8 × Nat × Nat :=
  if b = found ||| tofree then (found, 0, 0)
  else
    -- free the ones we're freeing
    let b := b &&& ~~~tofree
    (found, countbits (found &&& ~~~b), countbits (b &&& ~~~found))

/-- `check_bitmap()`. -/
def checkBitmap : SfsckM Unit := do
  let s ← get
  let (alloccount, freecount) ← forLoop (fun i (acc : Nat × Nat) => do
      let bits ← diskread (sfsMapLocation + i)
      let s ← get
      let (bits', bchanged, ac, fc) ← forLoop (fun j (acc : (Nat → UInt8) × Bool × Nat × Nat) => do
          let found := s.bitmapdata (i * sfsBlocksize + j)
          let tofree := s.tofreedata (i * sfsBlocksize + j)
          -- we shouldn't have blocks marked both ways
          kassert (found &&& tofree = 0)
          if bits j = found then pure acc
          else
            let r := bitmapByte (bits j) found tofree
            pure (Function.update acc.1 j r.1, true, acc.2.2.1 + r.2.1, acc.2.2.2 + r.2.2))
        0 sfsBlocksize (bits, false, 0, 0)
      if bchanged then diskwrite (sfsMapLocation + i) bits'
      pure (acc.1 + ac, acc.2 + fc))
    0 s.bitblocks (0, 0)
  -- "%lu blocks erroneously shown free in bitmap (fixed)"
  if alloccount > 0 then setbadness exitRecov
  -- "%lu blocks erroneously shown used in bitmap (fixed)"
  if freecount > 0 then setbadness exitRecov

/-! ## `main` -/

/-- `main` of sfsck on the device; the value is its exit status. -/
def sfsck (fuel : Nat) : SfsckM Nat := do
  checkSb
  checkRootDir fuel
  checkBitmap
  adjustFilelinks
  let badness := (← get).badness
  -- `EXIT_USAGE`, `EXIT_FATAL` and any other value: `assert(0)`
  kassert (badness ≤ exitUnrecov)
  pure badness

/-- The exit status of a run: `main`'s value, or the status of an `errx` or
    `err` on the way. -/
def exitStatus : Except Nat Nat → Nat
  | .ok badness => badness
  | .error code => code

/-- sfsck run on a device: its exit status and the globals it ends with (the
    device and the blocks written among them); `none` for a stop. -/
def run (fuel : Nat) (img : Image) : Option (Nat × Sfsck) :=
  (sfsck fuel (init img)).map fun r => (exitStatus r.1, r.2)

/-! ## Reading the steps -/

variable {s : Sfsck}

theorem diskread_of {block : Nat} (h : block < 2 ^ 23) (hs : block < s.img.size) :
    diskread block s = some (.ok (s.img.blocks block), s) := by
  simp only [diskread, get_bind, diskread_of_lt h hs]
  rfl

/-- The globals with bit `block` of `bitmapdata` set. -/
def setFound (s : Sfsck) (block : Nat) : Sfsck :=
  { s with bitmapdata := (Function.update s.bitmapdata (block / bitsPerWord)
      (s.bitmapdata (block / bitsPerWord) ||| 1 <<< UInt8.ofNat (block % bitsPerWord))) }

@[simp] theorem bitblocks_setFound (block : Nat) : (s.setFound block).bitblocks = s.bitblocks := rfl

@[simp] theorem tofree_setFound (block : Nat) : (s.setFound block).tofree = s.tofree := rfl

@[simp] theorem found_setFound (block j : Nat) : (s.setFound block).found.bit j = (s.found.bit j || decide (j = block)) :=
  Bitmap.bit_update_or_bit (b := s.found) block j

/-- `bitmap_mark` of a block used as anything but `B_TOFREE`, neither found
    nor to be freed yet: its bit is set in `bitmapdata`, and nothing else
    changes. -/
theorem bitmapMark_of_clear {block : Nat} {how : BlockUsage} (hhow : how ≠ .tofree)
    (hidx : block < s.bitblocks * sfsBlockbits) (hfound : s.found.bit block = false)
    (htofree : s.tofree.bit block = false) :
    bitmapMark block how s = some (.ok (), s.setFound block) := by
  have hf := (and_mask_eq_zero_iff (s.bitmapdata _) (Bitmap.mod_bitsPerWord_lt block)).2 hfound
  have ht := (and_mask_eq_zero_iff (s.tofreedata _) (Bitmap.mod_bitsPerWord_lt block)).2 htofree
  have hindex : block / bitsPerWord < s.bitblocks * sfsBlocksize := by
    rw [sfsBlockbits, ← Nat.mul_assoc] at hidx
    unfold bitsPerWord
    omega
  simp only [bitmapMark, get_bind]
  rw [kassert_of hindex]
  simp only [mark, if_neg hhow, hf, ht, ne_eq, not_true_eq_false, if_false]
  rfl

/-- `bitmap_mark` over the blocks `c + a` to `c + a + n - 1`, none of them
    found or to be freed: their bits are set in `bitmapdata`, and nothing else
    changes. -/
theorem markRange (c : Nat) {how : BlockUsage} (hhow : how ≠ .tofree) {a n : Nat}
    (hidx : c + a + n ≤ s.bitblocks * sfsBlockbits)
    (hclear : ∀ k, a ≤ k → k < a + n → s.found.bit (c + k) = false)
    (htofree : ∀ k, a ≤ k → k < a + n → s.tofree.bit (c + k) = false) :
    Returns (forLoop (fun i _ => bitmapMark (c + i) how) a n ()) s fun _ t =>
      ∃ v, t = { s with bitmapdata := v } ∧ ∀ j, t.found.bit j = (s.found.bit j || decide (c + a ≤ j ∧ j < c + a + n)) := by
  -- the invariant: the blocks from `c + a` to before `c + i` are set
  refine (Returns.forLoop (a := a) (n := n)
    (I := fun i _ t => ∃ v, t = { s with bitmapdata := v } ∧
      ∀ j, t.found.bit j = (s.found.bit j || decide (c + a ≤ j ∧ j < c + i)))
    (fun i _ t hi hi' ⟨v, ht, hbits⟩ => by
      subst ht
      have hclear' : (Sfsck.found { s with bitmapdata := v }).bit (c + i) = false := by
        rw [hbits, hclear i hi hi']
        simp
      refine Returns.of_eq (a := ()) (bitmapMark_of_clear hhow (show c + i < s.bitblocks * sfsBlockbits by omega)
        hclear' (htofree i hi hi')) ⟨_, rfl, fun j => ?_⟩
      rw [found_setFound, hbits, Bool.or_assoc, ← Bool.decide_or]
      congr 2
      exact propext ⟨fun h => by omega, fun h => by omega⟩)
    () s ⟨s.bitmapdata, rfl, fun j => by simp⟩).mono fun _ t ⟨v, ht, hbits⟩ =>
      ⟨v, ht, fun j => by rw [hbits, Nat.add_assoc]⟩

/-- A string with a NUL in its field passes `checknullstring` unchanged. -/
theorem checknullstring_of_nul {buf : Nat → UInt8} {off maxlen k : Nat} (hk : k < maxlen)
    (h : buf (off + k) = 0) : checknullstring buf off maxlen = (false, buf) := by
  rw [checknullstring, if_pos (List.any_eq_true.2 ⟨k, List.mem_range.2 hk, by simp [h]⟩)]

/-- A string of no `:` and no `/`, then its NUL, passes `checkbadstring`
    unchanged. -/
theorem checkbadstring_of_clean {buf : Nat → UInt8} :
    ∀ (name : List UInt8) (off n : Nat), name.length < n →
      (∀ c ∈ name, c ≠ 0 ∧ c ≠ cchar ':' ∧ c ≠ cchar '/') →
      (∀ k (hk : k < name.length), buf (off + k) = name[k]) → buf (off + name.length) = 0 →
      checkbadstring buf off n = (false, buf)
  | [], off, n + 1, _, _, _, hnul => by
    rw [checkbadstring, if_pos (by simpa using hnul)]
  | c :: name, off, n + 1, hn, hclean, hs, hnul => by
    have hc : buf off = c := hs 0 (by simp)
    obtain ⟨h0, hcolon, hslash⟩ := hclean c List.mem_cons_self
    have hlen : off + 1 + name.length = off + (c :: name).length := by
      rw [List.length_cons]
      omega
    have hrest := @checkbadstring_of_clean buf name (off + 1) n (by simp at hn; omega)
      (fun c' hc' => hclean c' (List.mem_cons_of_mem _ hc'))
      (fun k hk => by rw [Nat.add_assoc, Nat.add_comm 1 k, hs (k + 1) (by simp; omega)]; rfl)
      (hlen ▸ hnul)
    rw [checkbadstring, if_neg (by rw [hc]; exact h0)]
    simp only [hc, hcolon, hslash, or_self, if_false, hrest, decide_false, Bool.false_or]

/-! ## The badness and the remembered inodes -/

theorem raise_eq (code : Nat) : s.raise code = { s with badness := max s.badness code } := by
  unfold raise
  split
  · rw [Nat.max_eq_right (by omega)]
  · rw [Nat.max_eq_left (by omega)]

/-- `addmemory` fills slot `ninodes` and leaves the count where it was. -/
theorem addmemory_of (h : s.ninodes ≤ s.maxinodes) (ino linkcount : Nat) :
    ∃ ins, addmemory ino linkcount s = some (.ok (), { s with inodes := ins }) := by
  simp only [addmemory, get_bind, kassert_of h, pure_bind, set_apply]
  exact ⟨_, rfl⟩

theorem findMemory_of_zero (h : s.ninodes = 0) (ino : Nat) : findMemory s ino = none := by
  simp [findMemory, h]

/-- With no inode remembered, `remember_dir` remembers `ino` and finds it new. -/
theorem rememberDir_of_zero {ino : Nat} (h : s.ninodes = 0) :
    ∃ ins, rememberDir ino s = some (.ok false, { s with inodes := ins }) := by
  obtain ⟨ins, hadd⟩ := addmemory_of (s := s) (by omega) ino 0
  refine ⟨ins, ?_⟩
  simp only [rememberDir, get_bind, findMemory_of_zero h]
  rw [bind_of_ok hadd]
  rfl

/-! ## An empty directory -/

/-- `check_indirect_block` of no indirect block: nothing marked or changed. -/
theorem checkIndirectBlock_zero {ientry : Nat} (h : ientry = 0) (blockp nblocks badcount : Nat) (isdir : Bool) :
    Returns (checkIndirectBlock ientry blockp nblocks badcount isdir) s fun r t => r = (badcount, 0) ∧ t = s := by
  subst h
  unfold checkIndirectBlock
  refine Returns.have_intro (Returns.have_intro (Returns.ite_neg (not_not_intro rfl) ?_))
  refine (Returns.bind_of_ok rfl).2 ?_
  beta_reduce
  -- every entry is zero: each round leaves the pair and the state alone
  refine Returns.bind (R := fun acc t => acc = ((fun _ => 0), badcount) ∧ t = s)
    ((Returns.forLoop (I := fun _ acc t => acc = ((fun _ => 0), badcount) ∧ t = s) ?_ _ s ⟨rfl, rfl⟩).mono
      fun _ _ h => h) ?_
  · rintro i _ _ - - ⟨rfl, rfl⟩
    have he : ¬getBE ((fun _ => (0 : UInt8)), badcount).1 (4 * i) 4 ≠ 0 := by simp
    refine Returns.have_intro ?_
    by_cases hi : blockp + i < nblocks
    · refine Returns.ite_pos hi (Returns.have_intro (Returns.ite_neg he ?_))
      beta_reduce
      exact Returns.pure_iff.2 ⟨rfl, rfl⟩
    · exact Returns.ite_neg hi (Returns.ite_neg he (Returns.pure_iff.2 ⟨rfl, rfl⟩))
  rintro _ _ ⟨rfl, rfl⟩
  split
  next entries bc heq =>
  rw [Prod.mk.injEq] at heq
  obtain ⟨rfl, rfl⟩ := heq
  exact Returns.ite_pos (by simp) (Returns.ite_neg (not_not_intro rfl) (Returns.pure_iff.2 ⟨rfl, rfl⟩))

/-- `check_inode_blocks` of an inode of size 0 with no block: nothing marked
    or changed, but the indirect entry written back. -/
theorem checkInodeBlocks_empty {sfi : Nat → UInt8} (isdir : Bool) (hsize : getBE sfi sfiSize 4 = 0)
    (hdirect : ∀ k < sfsNdirect, getBE sfi (sfiDirect k) 4 = 0) (hind : getBE sfi sfiIndirect 4 = 0) :
    Returns (checkInodeBlocks sfi isdir) s fun r t => r = (false, putBE 0 sfiIndirect 4 sfi) ∧ t = s := by
  have hnblocks : roundup32 (getBE sfi sfiSize 4) sfsBlocksize / sfsBlocksize = 0 := by
    rw [hsize]
    rfl
  rw [checkInodeBlocks]
  -- no direct block is inside the file, and none is set
  refine Returns.bind (R := fun bc t => bc = 0 ∧ t = s)
    ((Returns.forLoop (I := fun _ bc t => bc = 0 ∧ t = s) ?_ 0 s ⟨rfl, rfl⟩).mono fun _ _ h => h) ?_
  · rintro k _ _ - hk ⟨rfl, rfl⟩
    exact Returns.have_intro (Returns.ite_neg (by rw [hnblocks]; exact Nat.not_lt_zero k)
      (Returns.ite_neg (not_not_intro (hdirect k hk)) (Returns.pure_iff.2 ⟨rfl, rfl⟩)))
  rintro _ _ ⟨rfl, rfl⟩
  refine Returns.bind (checkIndirectBlock_zero hind _ _ _ _) ?_
  rintro _ _ ⟨rfl, rfl⟩
  split
  next bc ientry heq =>
  rw [Prod.mk.injEq] at heq
  obtain ⟨rfl, rfl⟩ := heq
  exact Returns.have_intro (Returns.ite_neg (Nat.lt_irrefl 0) (Returns.pure_iff.2 ⟨rfl, rfl⟩))


/-- `dirread` of no entry. -/
theorem dirread_of_zero {sfi : Nat → UInt8} {nd : Nat} (h : nd = 0) : dirread sfi nd s = some (.ok fun _ => 0, s) := by
  subst h
  rfl

/-- A directory of size 0 as `dirOpen` leaves it: no entry and no slot. -/
def emptyDir (ino parentino : Nat) (sfi : Nat → UInt8) : Dir :=
  ⟨ino, parentino, sfi, fun _ => 0, 0, 0, false, false⟩

/-- `check_dir`'s start on a directory of size 0 with no block, with no inode
    remembered: the inode marked, remembered, and the indirect entry written
    back. -/
theorem dirOpen_empty {ino parentino : Nat} {sfi : Nat → UInt8} (hread : diskread ino s = some (.ok sfi, s))
    (hn : s.ninodes = 0) (hidx : ino < s.bitblocks * sfsBlockbits) (hfound : s.found.bit ino = false)
    (htofree : s.tofree.bit ino = false) (hsize : getBE sfi sfiSize 4 = 0)
    (hdirect : ∀ k < sfsNdirect, getBE sfi (sfiDirect k) 4 = 0) (hind : getBE sfi sfiIndirect 4 = 0) :
    Returns (dirOpen ino parentino) s fun r t =>
      r = some (emptyDir ino parentino (putBE 0 sfiIndirect 4 sfi)) ∧
        ∃ ins, t = { s.setFound ino with inodes := ins } := by
  obtain ⟨ins, hrem⟩ : ∃ ins, rememberDir ino s = some (.ok false, { s with inodes := ins }) :=
    rememberDir_of_zero hn
  have hsized : ¬getBE sfi sfiSize 4 % sfsDirSize ≠ 0 := by
    rw [hsize]
    exact not_not_intro rfl
  unfold dirOpen
  rw [Returns.bind_of_ok hread, Returns.bind_of_ok hrem]
  refine Returns.ite_neg Bool.false_ne_true ?_
  rw [Returns.bind_of_ok (bitmapMark_of_clear (s := { s with inodes := ins }) (by decide) hidx hfound htofree)]
  refine Returns.have_intro (Returns.have_intro (Returns.have_intro (Returns.ite_neg hsized ?_)))
  beta_reduce
  -- the size is a multiple of an entry's: the inode goes on as it was read
  refine Returns.have_intro (Returns.bind (checkInodeBlocks_empty true (by rw [if_neg hsized]; exact hsize)
    (by rw [if_neg hsized]; exact hdirect) (by rw [if_neg hsized]; exact hind)) ?_)
  rintro _ _ ⟨rfl, rfl⟩
  split
  next blocks sfi' heq =>
  rw [Prod.mk.injEq] at heq
  obtain ⟨rfl, rfl⟩ := heq
  have hnd : getBE (putBE 0 sfiIndirect 4 sfi) sfiSize 4 / sfsDirSize = 0 := by
    rw [getBE_putBE_of_disjoint (by unfold sfiSize sfiIndirect; omega), hsize]
    rfl
  refine Returns.have_intro (Returns.have_intro ((Returns.bind_of_ok (dirread_of_zero (by
    rw [if_neg hsized]; exact hnd))).2 ?_))
  refine Returns.have_intro (Returns.pure_iff.2 ⟨?_, ins, rfl⟩)
  simp only [if_neg hsized, hnd, show roundup32 0 atonce = 0 from rfl, Nat.mul_zero, Nat.sub_zero, blit_zero,
    decide_eq_false hsized, Bool.or_false]
  rfl

/-- A directory with no slot takes no `.` or `..`: "(NOT FIXED)". -/
theorem addDot_of_full {dir : Dir} (hnd : dir.nd = 0) (hmaxd : dir.maxd = 0) (name : List UInt8) (target : Nat) :
    addDot name target dir s = some (.ok dir, s.raise exitUnrecov) := by
  simp only [addDot, dirTryadd, hnd, hmaxd, List.range_zero, List.find?_nil, Option.map_none]
  rfl

/-- `check_dir`'s end on a directory whose entries did not change and whose
    link count is wrong: the count set and the inode written. -/
theorem dirClose_relink {dir : Dir} {n : Nat} (hd : dir.dchanged = false)
    (hlc : getBE dir.sfi sfiLinkcount 2 ≠ n + 2) :
    Returns (dirClose dir n) s fun _ t => t = { s.raise exitRecov with
      img := Sbin.diskwrite s.img dir.ino (putBE (n + 2) sfiLinkcount 2 dir.sfi), writes := s.writes ++ [dir.ino] } := by
  unfold dirClose
  refine Returns.have_intro (Returns.have_intro (Returns.ite_pos hlc ?_))
  refine (Returns.bind_of_ok rfl).2 ?_
  beta_reduce
  refine Returns.have_intro (Returns.have_intro (Returns.ite_neg (by rw [hd]; exact Bool.false_ne_true) ?_))
  beta_reduce
  exact Returns.ite_pos (by simp [hlc]) (Returns.modify_iff.2 (by rw [if_pos hlc, raise_eq]))

/-- `check_dir` of a directory of size 0 with no block and a link count other
    than 2, with no inode remembered: it cannot add `.` or `..` to it
    (`EXIT_UNRECOV`), and rewrites the inode with the count set to 2. -/
theorem checkDirBody_empty (checkDir : Nat → Nat → SfsckM Bool) {ino parentino : Nat} {sfi : Nat → UInt8}
    (hread : diskread ino s = some (.ok sfi, s))
    (hn : s.ninodes = 0) (hidx : ino < s.bitblocks * sfsBlockbits) (hfound : s.found.bit ino = false)
    (htofree : s.tofree.bit ino = false) (hsize : getBE sfi sfiSize 4 = 0)
    (hdirect : ∀ k < sfsNdirect, getBE sfi (sfiDirect k) 4 = 0) (hind : getBE sfi sfiIndirect 4 = 0)
    (hlc : getBE sfi sfiLinkcount 2 ≠ 2) :
    Returns (checkDirBody checkDir ino parentino) s fun r t => r = false ∧ ∃ ins,
      t = { s.setFound ino with
        inodes := ins
        badness := max s.badness exitUnrecov
        img := Sbin.diskwrite s.img ino (putBE 2 sfiLinkcount 2 (putBE 0 sfiIndirect 4 sfi))
        writes := s.writes ++ [ino] } := by
  unfold checkDirBody
  refine Returns.bind (dirOpen_empty hread hn hidx hfound htofree hsize hdirect hind) ?_
  rintro _ _ ⟨rfl, ins, rfl⟩
  split
  next heq => cases heq
  next dir heq =>
  cases heq
  -- no entry to check, no duplicate, no `.` or `..` seen
  refine (Returns.bind_of_ok rfl).2 ?_
  refine (Returns.bind_of_ok rfl).2 ?_
  refine (Returns.bind_of_ok rfl).2 ?_
  split
  next dir' dotseen dotdotseen heq =>
  rw [Prod.mk.injEq, Prod.mk.injEq] at heq
  obtain ⟨rfl, rfl, rfl⟩ := heq
  -- neither can be added
  refine Returns.have_intro (Returns.ite_neg Bool.false_ne_true ?_)
  rw [Returns.bind_of_ok (addDot_of_full rfl rfl _ _)]
  beta_reduce
  refine Returns.have_intro (Returns.ite_neg Bool.false_ne_true ?_)
  rw [Returns.bind_of_ok (addDot_of_full rfl rfl _ _)]
  beta_reduce
  refine (Returns.bind_of_ok rfl).2 ?_
  split
  next dir'' n heq =>
  rw [Prod.mk.injEq] at heq
  obtain ⟨rfl, rfl⟩ := heq
  have hlc' : getBE (emptyDir ino parentino (putBE 0 sfiIndirect 4 sfi)).sfi sfiLinkcount 2 ≠ 0 + 2 := by
    rw [emptyDir, getBE_putBE_of_disjoint (by unfold sfiLinkcount sfiIndirect; omega)]
    exact hlc
  refine Returns.bind (dirClose_relink rfl hlc') ?_
  rintro _ _ rfl
  refine Returns.pure_iff.2 ⟨rfl, ins, ?_⟩
  simp only [raise_eq, setFound, emptyDir, Nat.zero_add]
  congr 1
  unfold exitUnrecov exitRecov
  omega

/-! ## The freemap and the link counts -/

/-- `check_bitmap` on a freemap that shows used exactly the blocks found,
    with none to free: nothing written, nothing changed. -/
theorem checkBitmap_of_agree
    (hread : ∀ i < s.bitblocks, sfsMapLocation + i < 2 ^ 23 ∧ sfsMapLocation + i < s.img.size)
    (hagree : ∀ i < s.bitblocks, ∀ j < sfsBlocksize,
      s.img.blocks (sfsMapLocation + i) j = s.bitmapdata (i * sfsBlocksize + j))
    (htofree : ∀ w, s.tofreedata w = 0) :
    Returns checkBitmap s fun _ t => t = s := by
  unfold checkBitmap
  rw [Returns.get_bind]
  -- each freemap block: read, found equal byte by byte, not written
  refine Returns.bind (R := fun acc t => acc = (0, 0) ∧ t = s)
    ((Returns.forLoop (I := fun _ acc t => acc = (0, 0) ∧ t = s) ?_ _ s ⟨rfl, rfl⟩).mono fun _ _ h => h) ?_
  · rintro i _ t - hi ⟨rfl, ht⟩
    subst t
    have hi : i < s.bitblocks := by omega
    obtain ⟨hi23, hisize⟩ := hread i hi
    rw [Returns.bind_of_ok (diskread_of hi23 hisize), Returns.get_bind]
    refine Returns.bind (R := fun r t => r = (s.img.blocks (sfsMapLocation + i), false, 0, 0) ∧ t = s)
      ((Returns.forLoop (I := fun _ acc t => acc = (s.img.blocks (sfsMapLocation + i), false, 0, 0) ∧ t = s)
        ?_ _ s ⟨rfl, rfl⟩).mono fun _ _ h => h) ?_
    · rintro j _ t - hj ⟨rfl, ht⟩
      subst t
      refine Returns.have_intro (Returns.have_intro ?_)
      rw [Returns.kassert_bind (by rw [htofree]; exact UInt8.and_zero)]
      exact Returns.ite_pos (hagree i hi j (by omega)) (Returns.pure_iff.2 ⟨rfl, rfl⟩)
    rintro _ t ⟨rfl, ht⟩
    subst t
    split
    next bits' bchanged ac fc heq =>
    rw [Prod.mk.injEq, Prod.mk.injEq, Prod.mk.injEq] at heq
    obtain ⟨rfl, rfl, rfl, rfl⟩ := heq
    refine Returns.have_intro (Returns.ite_neg Bool.false_ne_true ?_)
    exact Returns.pure_iff.2 ⟨rfl, rfl⟩
  rintro _ t ⟨rfl, ht⟩
  subst t
  split
  next ac fc heq =>
  rw [Prod.mk.injEq] at heq
  obtain ⟨rfl, rfl⟩ := heq
  exact Returns.have_intro (Returns.ite_neg (Nat.lt_irrefl 0) (Returns.ite_neg (Nat.lt_irrefl 0) (Returns.pure_iff.2 rfl)))

/-- `adjust_filelinks` with no inode remembered does nothing. -/
theorem adjustFilelinks_of_zero (h : s.ninodes = 0) : adjustFilelinks s = some (.ok (), s) := by
  simp only [adjustFilelinks, get_bind, h, forLoop_zero, pure_apply]

/-! ## The table of inodes seen -/

/-- A call the directory walk makes on the table of inodes seen. -/
inductive MemCall
  | rememberDir (ino : Nat)
  | observeFilelink (ino : Nat)

/-- The call made: `remember_dir`'s answer, or nothing for `observe_filelink`. -/
def MemCall.run : MemCall → SfsckM (Option Bool)
  | .rememberDir ino => do
    let b ← Sfsck.rememberDir ino
    pure (some b)
  | .observeFilelink ino => do
    Sfsck.observeFilelink ino
    pure none

/-- The calls made one after the other, with their answers. -/
def runCalls : List MemCall → SfsckM (List (Option Bool))
  | [] => pure []
  | c :: cs => do
    let a ← c.run
    let as ← runCalls cs
    pure (a :: as)

@[simp] theorem ninodes_mark (index : Nat) (mask : UInt8) (how : BlockUsage) :
    (s.mark index mask how).ninodes = s.ninodes := by
  unfold mark raise
  dsimp only
  split_ifs <;> rfl

theorem bitmapMark_ninodes {E : Nat → Sfsck → Prop} (n block : Nat) (how : BlockUsage) :
    Triple (fun s => s.ninodes = n) (bitmapMark block how) (fun _ t => t.ninodes = n) E :=
  Triple.bind (R := fun s t => t = s ∧ s.ninodes = n) (Triple.get fun _ hs => ⟨rfl, hs⟩) fun s =>
    Triple.bind (R := fun _ _ => s.ninodes = n) (Triple.kassert fun _ h _ => h.2) fun _ =>
      Triple.set fun _ hs => by rw [ninodes_mark]; exact hs

/-- `addmemory` never moves `ninodes` on. -/
theorem addmemory_ninodes {E : Nat → Sfsck → Prop} (n ino linkcount : Nat) :
    Triple (fun s => s.ninodes = n) (addmemory ino linkcount) (fun _ t => t.ninodes = n) E := by
  refine Triple.of_forall fun s hs => ?_
  by_cases h : s.ninodes ≤ s.maxinodes
  · obtain ⟨ins, hadd⟩ := addmemory_of h ino linkcount
    exact Triple.of_apply hadd hs
  · -- the `assert` stops the run
    rintro _ rfl r hr
    simp only [addmemory, get_bind, kassert, if_neg h, fail_bind] at hr
    cases hr

/-- With no inode in the table, `observe_filelink` marks the inode and
    writes it in the table at slot 0, again. -/
theorem observeFilelink_of_zero (h : s.ninodes = 0) (ino : Nat) :
    observeFilelink ino s = (bitmapMark ino .inode >>= fun _ => addmemory ino 1) s := by
  simp only [observeFilelink, get_bind, findMemory_of_zero h]

/-- With no inode in the table, `observe_filelink` leaves it empty. -/
theorem observeFilelink_ninodes {E : Nat → Sfsck → Prop} (ino : Nat) :
    Triple (fun s => s.ninodes = 0) (observeFilelink ino) (fun _ t => t.ninodes = 0) E := by
  refine Triple.of_forall fun _ hs => ?_
  rintro t rfl r hr
  rw [observeFilelink_of_zero hs] at hr
  exact Triple.bind (bitmapMark_ninodes 0 ino .inode) (fun _ => addmemory_ninodes 0 ino 1) t hs r hr

theorem MemCall.run_ninodes {E : Nat → Sfsck → Prop} (c : MemCall) :
    Triple (fun s => s.ninodes = 0) c.run (fun a t => a ≠ some true ∧ t.ninodes = 0) E := by
  cases c with
  | rememberDir ino =>
    refine Triple.of_forall ?_
    intro t ht
    obtain ⟨ins, hrem⟩ : ∃ ins, Sfsck.rememberDir ino t = some (.ok false, { t with inodes := ins }) :=
      rememberDir_of_zero ht
    exact Triple.of_apply (r := (.ok (some false), { t with inodes := ins }))
      (by rw [MemCall.run, bind_of_ok hrem]; rfl) ⟨by simp, ht⟩
  | observeFilelink ino =>
    exact Triple.bind (observeFilelink_ninodes ino) fun _ => Triple.pure fun _ h => ⟨by simp, h⟩

/-- The run lemma: from an empty table, whatever calls the walk makes, the
    table stays empty and `remember_dir` never answers 1. -/
theorem runCalls_ninodes {E : Nat → Sfsck → Prop} (calls : List MemCall) :
    Triple (fun s => s.ninodes = 0) (runCalls calls) (fun as t => (∀ a ∈ as, a ≠ some true) ∧ t.ninodes = 0) E := by
  induction calls with
  | nil => exact Triple.pure fun _ hs => ⟨by simp, hs⟩
  | cons c cs ih =>
    refine Triple.bind c.run_ninodes fun a => ?_
    -- the first answer is carried past the rest of the calls
    refine Triple.bind (R := fun as t => a ≠ some true ∧ (∀ a ∈ as, a ≠ some true) ∧ t.ninodes = 0)
      (Triple.of_forall fun t ⟨ha, ht⟩ => ih.mono (fun _ h => h ▸ ht) (fun _ _ h => ⟨ha, h⟩) fun _ _ h => h)
      fun as => Triple.pure fun _ ⟨ha, has, hn⟩ => ⟨?_, hn⟩
    intro a' ha'
    rcases List.mem_cons.1 ha' with rfl | ha'
    · exact ha
    · exact has a' ha'

/-- `addmemory` never moves `ninodes` on, so the table of inodes seen stays
    empty whatever the walk does: `remember_dir` never answers 1, not even for
    a directory met twice, and `adjust_filelinks` checks no link count. -/
theorem remember_dir_forgets (calls : List MemCall) :
    Triple (fun s => s.ninodes = 0) (runCalls calls)
      (fun answers t => (∀ a ∈ answers, a ≠ some true) ∧ t.ninodes = 0 ∧ adjustFilelinks t = some (.ok (), t))
      (fun _ _ => False) ∧
    ∀ (img : Image) (ino : Nat), ∃ t,
      runCalls [.rememberDir ino, .rememberDir ino] (init img) = some (.ok [some false, some false], t) := by
  refine ⟨(runCalls_ninodes calls).mono (fun _ h => h) (fun _ _ h => ⟨h.1, h.2, adjustFilelinks_of_zero h.2⟩)
    fun _ _ h => h, fun img ino => ?_⟩
  obtain ⟨ins, h1⟩ : ∃ ins, Sfsck.rememberDir ino (init img) = some (.ok false, { init img with inodes := ins }) :=
    rememberDir_of_zero rfl
  obtain ⟨ins', h2⟩ : ∃ ins', Sfsck.rememberDir ino { init img with inodes := ins } =
      some (.ok false, { init img with inodes := ins' }) := rememberDir_of_zero rfl
  refine ⟨{ init img with inodes := ins' }, ?_⟩
  simp only [runCalls, MemCall.run, bind_assoc]
  rw [bind_of_ok h1, pure_bind, bind_of_ok h2]
  rfl

/-! ## A repair that a second run repeats -/

/-- A volume of 4096 blocks: the root (inode 1, its entries in block 3) holds
    `.`, `..` and `f`, the file of inode 4. The file has size 0, its first
    direct pointer names block 5 all the same, and its link count is 2 for
    its one name. The freemap marks blocks 0 to 5. -/
def pastEofImage : Image where
  size := 4096
  blocks b :=
    if b = sfsSbLocation then Mksfs.superblock [cchar 'v'] 4096
    else if b = sfsRootLocation then
      putBE 3 (sfiDirect 0) 4 (putBE 2 sfiLinkcount 2 (putBE sfsTypeDir sfiType 2
        (putBE (3 * sfsDirSize) sfiSize 4 fun _ => 0)))
    else if b = sfsMapLocation then fun j => if j = 0 then 0x3f else 0
    else if b = 3 then
      strcpy (setEntIno (strcpy (setEntIno (strcpy (setEntIno (fun _ => 0) 0 1) (nameOff 0) dot) 1 1)
        (nameOff 1) dotdot) 2 4) (nameOff 2) [cchar 'f']
    else if b = 4 then
      putBE 5 (sfiDirect 0) 4 (putBE 2 sfiLinkcount 2 (putBE sfsTypeFile sfiType 2 fun _ => 0))
    else fun _ => 0

/-- On `pastEofImage` sfsck frees block 5 in the freemap and rewrites inode 4
    as it was, with its pointer to block 5, and leaves its link count 2; it
    exits with `EXIT_RECOV`. Run again on the device it left, it finds the
    same pointer, rewrites inode 4 again and exits with `EXIT_RECOV` again. -/
theorem sfsck_rerun_repairs_again :
    (run 2 pastEofImage).map (fun r => (r.1, r.2.writes, getBE (r.2.img.blocks 4) (sfiDirect 0) 4,
        getBE (r.2.img.blocks 4) sfiLinkcount 2)) = some (exitRecov, [4, sfsMapLocation], 5, 2) ∧
      ((run 2 pastEofImage).bind fun r => run 2 r.2.img).map (fun r => (r.1, r.2.writes)) =
        some (exitRecov, [4]) := by
  decide +kernel

end Sfsck

end Os161.Sbin
