import Os161.Sbin.Sfsck

/-!
# A fresh volume: mksfs, the mount and sfsck

mksfs, the kernel's mount and sfsck each encode the on-disk format. On the
volume mksfs writes (`Fresh`: the superblock with its name, the root inode
of a directory of size 0 with one link, and the freemap of `freshBit`) they
agree on the freemap, and disagree on the root:

* `mount_fresh`: `sfs_domount` loads a freemap whose set bits are the
  superblock, the root, the freemap's own blocks and those past the end;
* `checkSb_fresh`: `check_sb` finds the same blocks in use, but the root;
* `sfsck_fresh`: `check_dir` finds the root without `.` and `..`, which it
  cannot add to a directory with no slots (`EXIT_UNRECOV`), and with one link
  where it counts two, which it fixes by rewriting the root; the freemap it
  finds the same as the disk's, so it writes nothing else.
-/

namespace Os161.Sbin

open Sfs Bytes KernM

/-- The freemap of a volume of `img.size` blocks as its blocks after the root
    hold it. -/
def diskFreemap (img : Image) : Bitmap :=
  ⟨sfsBitmapsize img.size, fun w => img.blocks (sfsMapLocation + w / sfsBlocksize) (w % sfsBlocksize)⟩

/-- A volume as mksfs leaves it on a device of `img.size` blocks. -/
structure Fresh (img : Image) : Prop where
  bitblocks : sfsBitblocks img.size ≤ maxbitblocks
  fit : sfsMapLocation + sfsBitblocks img.size < img.size
  super : ∃ name : List UInt8, name.length < sfsVolnameSize ∧
    (∀ c ∈ name, c ≠ 0 ∧ c ≠ cchar ':' ∧ c ≠ cchar '/') ∧
    img.blocks sfsSbLocation = Mksfs.superblock name img.size
  root : img.blocks sfsRootLocation = Mksfs.rootInode
  map : ∀ k < sfsBitmapsize img.size, (diskFreemap img).bit k = freshBit img.size k

namespace Fresh

variable {img : Image} (hf : Fresh img)
include hf

theorem size_lt : img.size < 2 ^ 23 := by
  have h := hf.bitblocks
  rw [sfsBitblocks_eq] at h
  unfold maxbitblocks at h
  omega

theorem bitblocks_pos : 0 < sfsBitblocks img.size := by
  have h := hf.fit
  rw [sfsBitblocks_eq] at h ⊢
  unfold sfsMapLocation at h
  omega

end Fresh

/-- mksfs, given a name it accepts with no NUL in it and a device whose
    freemap fits, writes a fresh volume. -/
theorem mksfs_fresh {img : Image} {volname name : List UInt8} (hname : Mksfs.volnameOf volname = some name)
    (hlen : name.length < sfsVolnameSize) (hnul : (0 : UInt8) ∉ volname)
    (hbb : sfsBitblocks img.size ≤ maxbitblocks) (hfit : sfsMapLocation + sfsBitblocks img.size < img.size) :
    ∃ s, Mksfs.mksfs volname (Mksfs.init img) = some (.ok (), s) ∧ s.img.size = img.size ∧ Fresh s.img := by
  obtain ⟨s, hrun, hsize, hsb, hroot, hmap, -, hbits⟩ := Mksfs.mksfs_of hname hlen hbb (Nat.le_of_lt hfit)
  obtain ⟨hpre, hcolon, hslash⟩ := Mksfs.volnameOf_spec hname
  refine ⟨s, hrun, hsize, ⟨by rwa [hsize], by rwa [hsize], ⟨name, hlen, fun c hc => ⟨?_, ?_, ?_⟩, by rw [hsb, hsize]⟩,
    hroot, fun k hk => ?_⟩⟩
  · rintro rfl
    exact hnul (hpre.subset hc)
  · rintro rfl
    exact hcolon hc
  · rintro rfl
    exact hslash hc
  -- a bit of the freemap on disk is the bit of `bitbuf` mksfs set
  · rw [hsize, sfsBitmapsize_eq] at hk
    rw [hsize, ← hbits k]
    have hw : k / bitsPerWord / sfsBlocksize < sfsBitblocks img.size := by
      rw [show sfsBlockbits = 4096 from rfl] at hk
      unfold bitsPerWord sfsBlocksize
      omega
    unfold Bitmap.bit
    congr 2
    show s.img.blocks (sfsMapLocation + k / bitsPerWord / sfsBlocksize) (k / bitsPerWord % sfsBlocksize) =
      s.bitbuf (k / bitsPerWord)
    rw [hmap _ hw, Mksfs.bitbufBlock, Nat.mul_comm, Nat.div_add_mod]

/-- The kernel mounts a fresh volume with the freemap mksfs meant: the
    superblock, the root, the freemap's own blocks and those past the end. -/
theorem mount_fresh {img : Image} (hf : Fresh img) {env : Env} (hr : ∀ n, env.readFail n = false)
    (hk : ∀ n, env.kmallocFail n = false) :
    ∃ fs, sfsDomount (Fs.ofImage img env) = some (.ok (), fs) ∧ fs.nblocks = img.size ∧
      fs.freemap.nbits = sfsBitmapsize img.size ∧
      ∀ k < sfsBitmapsize img.size, fs.freemap.bit k = freshBit img.size k := by
  obtain ⟨name, -, -, hsb⟩ := hf.super
  have hsize := hf.size_lt
  have hsb' : (Fs.ofImage img env).disk.data sfsSbLocation = Mksfs.superblock name img.size := hsb
  obtain ⟨fs, hmount, hn, hnbits, -, hv⟩ := sfsDomount_of (show (Fs.ofImage img env).ReadsWork from hr) hk
    (by rw [hsb']; exact Mksfs.superblock_magic)
  rw [hsb', Mksfs.superblock_nblocks (by omega)] at hn
  refine ⟨fs, hmount, hn, by rw [hnbits, hn], fun k hk => ?_⟩
  -- the word holding bit `k` is loaded from where mksfs wrote it
  have hw : k / bitsPerWord < sfsBitblocks fs.nblocks * sfsBlocksize := by
    rw [hn]
    rw [sfsBitmapsize_eq, show sfsBlockbits = 4096 from rfl] at hk
    unfold bitsPerWord sfsBlocksize
    omega
  rw [← hf.map k hk]
  unfold Bitmap.bit
  rw [hv _ hw]
  rfl

namespace Sfsck

/-- sfsck's globals on a fresh volume once `check_sb` has run: as at the start,
    but for the size, the number of freemap blocks and the blocks found. -/
def afterSb (img : Image) (v : Nat → UInt8) : Sfsck :=
  { init img with nblocks := img.size, bitblocks := sfsBitblocks img.size, bitmapdata := v }

@[simp] theorem afterSb_bitblocks (img : Image) (v : Nat → UInt8) :
    (afterSb img v).bitblocks = sfsBitblocks img.size := rfl

@[simp] theorem afterSb_tofree (img : Image) (v : Nat → UInt8) :
    (afterSb img v).tofree = ⟨sfsBitblocks img.size * sfsBlockbits, fun _ => 0⟩ := rfl

/-- The blocks `check_sb` finds in use on a volume of `N` blocks: the
    superblock, the freemap's blocks and those past the end. -/
def sbBit (N j : Nat) : Bool :=
  decide (j = sfsSbLocation ∨ sfsMapLocation ≤ j ∧ j < sfsMapLocation + sfsBitblocks N ∨
    N ≤ j ∧ j < sfsBitblocks N * sfsBlockbits)

variable {img : Image}

/-- The blocks of a bitmap that is all zero are clear. -/
theorem bit_zero (n j : Nat) : Bitmap.bit ⟨n, fun _ => 0⟩ j = false := by
  simp [Bitmap.bit]

theorem checkSb_fresh (hf : Fresh img) :
    Returns checkSb (init img) fun _ t => ∃ v, t = afterSb img v ∧ ∀ j, t.found.bit j = sbBit img.size j := by
  obtain ⟨name, hlen, hclean, hsb⟩ := hf.super
  have hsize := hf.size_lt
  have hbb := hf.bitblocks_pos
  have hfit := hf.fit
  have hbits : roundup32 img.size sfsBlockbits / sfsBlockbits = sfsBitblocks img.size := by
    rw [roundup32_of_lt (by unfold sfsBlockbits sfsBlocksize; omega), sfsBitblocks_eq]
    unfold sfsBlockbits sfsBlocksize
    exact Nat.mul_div_cancel _ (by decide)
  have hcover : img.size ≤ sfsBitblocks img.size * sfsBlockbits := by
    rw [sfsBitblocks_eq]
    unfold sfsBlockbits sfsBlocksize
    omega
  have hsb0 : sfsSbLocation < img.size := by unfold sfsSbLocation sfsMapLocation at *; omega
  -- the superblock as read, with what `check_sb` finds in it
  have hread : diskread sfsSbLocation (init img) =
      some (.ok (Mksfs.superblock name img.size), init img) := by
    rw [diskread_of (by decide) hsb0, ← hsb]
    rfl
  have hn : getBE (Mksfs.superblock name img.size) spNblocks 4 = img.size :=
    Mksfs.superblock_nblocks (by omega)
  have hnul : checknullstring (Mksfs.superblock name img.size) spVolname sfsVolnameSize =
      (false, Mksfs.superblock name img.size) :=
    checknullstring_of_nul hlen Mksfs.superblock_volname
  have hbad : checkbadstring (Mksfs.superblock name img.size) spVolname sfsVolnameSize =
      (false, Mksfs.superblock name img.size) :=
    checkbadstring_of_clean name spVolname sfsVolnameSize hlen hclean
      (fun _ hk => Mksfs.superblock_volname_of_lt hk) Mksfs.superblock_volname
  unfold checkSb
  rw [Returns.bind_of_ok hread]
  refine Returns.have_intro (Returns.ite_neg (not_not_intro Mksfs.superblock_magic) ?_)
  beta_reduce
  rw [Returns.get_bind, Returns.kassert_bind (show (init img).nblocks = 0 from rfl),
    Returns.kassert_bind (show (init img).bitblocks = 0 from rfl)]
  refine Returns.have_intro (Returns.have_intro ?_)
  rw [Returns.kassert_bind (by rw [hn]; omega), Returns.kassert_bind (by rw [hn, hbits]; exact hbb),
    Returns.set_bind]
  -- `bitmap_init`, then the blocks past the end of the volume
  have hpast := markRange (s := { init img with
      nblocks := (getBE (Mksfs.superblock name img.size) spNblocks 4)
      bitblocks := (roundup32 (getBE (Mksfs.superblock name img.size) spNblocks 4) sfsBlockbits / sfsBlockbits)
      bitmapdata := fun _ => 0, tofreedata := fun _ => 0 }) 0 (by decide : BlockUsage.pastend ≠ .tofree)
    (a := getBE (Mksfs.superblock name img.size) spNblocks 4)
    (n := roundup32 (getBE (Mksfs.superblock name img.size) spNblocks 4) sfsBlockbits / sfsBlockbits *
      sfsBlockbits - getBE (Mksfs.superblock name img.size) spNblocks 4)
    (by simp only [hn, hbits]; omega) (fun _ _ _ => bit_zero _ _) (fun _ _ _ => bit_zero _ _)
  simp only [Nat.zero_add] at hpast
  refine Returns.bind hpast ?_
  rintro _ t ⟨v, rfl, hv⟩
  -- the volume name: terminated, and with no bad character
  split
  next nul sp heq =>
  rw [hnul, Prod.mk.injEq] at heq
  obtain ⟨rfl, rfl⟩ := heq
  refine Returns.have_intro (Returns.ite_neg Bool.false_ne_true ?_)
  beta_reduce
  split
  next bad sp heq =>
  rw [hbad, Prod.mk.injEq] at heq
  obtain ⟨rfl, rfl⟩ := heq
  refine Returns.have_intro (Returns.ite_neg Bool.false_ne_true ?_)
  beta_reduce
  refine Returns.have_intro (Returns.ite_neg Bool.false_ne_true ?_)
  beta_reduce
  -- what is left runs on `afterSb img v`, with the blocks past the end found
  simp only [hn, hbits] at hv ⊢
  show Returns _ (afterSb img v) _
  have hpastBits : ∀ j, (afterSb img v).found.bit j =
      decide (img.size ≤ j ∧ j < sfsBitblocks img.size * sfsBlockbits) := by
    intro j
    rw [show (afterSb img v).found.bit j = _ from hv j]
    simp only [found, bit_zero, Bool.false_or, decide_eq_decide]
    omega
  -- the superblock, then the freemap's own blocks
  rw [Returns.bind_of_ok (bitmapMark_of_clear (by decide)
    (by rw [afterSb_bitblocks]; unfold sfsSbLocation at *; omega)
    (by rw [hpastBits]; unfold sfsSbLocation at *; simp only [decide_eq_false_iff_not]; omega)
    (by rw [afterSb_tofree]; exact bit_zero _ _))]
  refine (markRange sfsMapLocation (by decide : BlockUsage.bitblock ≠ .tofree) (a := 0)
    (by rw [bitblocks_setFound, afterSb_bitblocks]; unfold sfsMapLocation sfsBlockbits sfsBlocksize at *; omega)
    (fun k _ hk => ?_) (fun _ _ _ => by rw [tofree_setFound, afterSb_tofree]; exact bit_zero _ _)).mono ?_
  · rw [found_setFound, hpastBits]
    unfold sfsSbLocation sfsMapLocation at *
    simp only [Bool.or_eq_false_iff, decide_eq_false_iff_not]
    omega
  rintro _ t ⟨w, rfl, hw⟩
  refine ⟨w, rfl, fun j => ?_⟩
  rw [hw, found_setFound, hpastBits]
  simp only [sbBit, ← Bool.decide_or, decide_eq_decide]
  unfold sfsSbLocation sfsMapLocation
  omega

/-- The root inode of a fresh volume as sfsck writes it back: its indirect
    entry rewritten, and its link count set to 2. -/
def fixedRoot : Nat → UInt8 := putBE 2 sfiLinkcount 2 (putBE 0 sfiIndirect 4 Mksfs.rootInode)

/-- sfsck's globals on a fresh volume once `check_root_dir` has run: the root
    found, remembered and written back, and the run unrecoverable. -/
def afterRoot (img : Image) (v : Nat → UInt8) (ins : Nat → InodeMemory) : Sfsck :=
  { (afterSb img v).setFound sfsRootLocation with
    inodes := ins
    badness := exitUnrecov
    img := Sbin.diskwrite img sfsRootLocation fixedRoot
    writes := [sfsRootLocation] }

theorem checkRootDir_fresh (hf : Fresh img) {v : Nat → UInt8}
    (hv : ∀ j, (afterSb img v).found.bit j = sbBit img.size j) (fuel : Nat) :
    Returns (checkRootDir (fuel + 1)) (afterSb img v) fun _ t => ∃ ins, t = afterRoot img v ins := by
  have hfit := hf.fit
  have hbb := hf.bitblocks_pos
  have hroot : sfsRootLocation < img.size := by unfold sfsRootLocation sfsMapLocation at *; omega
  have hread : diskread sfsRootLocation (afterSb img v) = some (.ok Mksfs.rootInode, afterSb img v) := by
    rw [diskread_of (by decide) hroot, ← hf.root]
    rfl
  have hfound : (afterSb img v).found.bit sfsRootLocation = false := by
    rw [hv]
    unfold sbBit sfsSbLocation sfsRootLocation sfsMapLocation at *
    simp only [decide_eq_false_iff_not]
    omega
  have hblocks {off : Nat} (h : sfiDirect 0 ≤ off) : getBE Mksfs.rootInode off 4 = 0 := Mksfs.rootInode_blocks h
  unfold checkRootDir
  rw [Returns.bind_of_ok hread]
  -- the root is a directory: `check_dir` on it, as on any empty directory
  refine Returns.have_intro (Returns.ite_neg (not_not_intro Mksfs.rootInode_type) ?_)
  beta_reduce
  refine Returns.bind (checkDirBody_empty (checkDir fuel) hread rfl
    (by rw [afterSb_bitblocks]; unfold sfsRootLocation sfsBlockbits sfsBlocksize; omega) hfound
    (by rw [afterSb_tofree]; exact bit_zero _ _) Mksfs.rootInode_size
    (fun k _ => hblocks (by unfold sfiDirect; omega)) (hblocks (by unfold sfiDirect sfiIndirect; omega))
    (by rw [Mksfs.rootInode_linkcount]; decide)) ?_
  rintro _ _ ⟨-, ins, rfl⟩
  exact Returns.pure_iff.2 ⟨ins, rfl⟩

/-- The freemap mksfs wrote is, bit for bit, what `check_sb` and `check_dir`
    found: `check_bitmap` writes nothing. -/
theorem checkBitmap_fresh (hf : Fresh img) {v : Nat → UInt8}
    (hv : ∀ j, (afterSb img v).found.bit j = sbBit img.size j) (ins : Nat → InodeMemory) :
    Returns checkBitmap (afterRoot img v ins) fun _ t => t = afterRoot img v ins := by
  have hfit := hf.fit
  have hsize := hf.size_lt
  have hroot : sfsRootLocation < img.size := by unfold sfsRootLocation sfsMapLocation at *; omega
  -- the two bitmaps agree bit by bit, so byte by byte
  have hbit : ∀ k < sfsBitmapsize img.size,
      (diskFreemap img).bit k = ((afterSb img v).setFound sfsRootLocation).found.bit k := by
    intro k hk
    rw [hf.map k hk, found_setFound, hv]
    rw [sfsBitmapsize_eq] at hk
    simp only [freshBit, sbBit, sfsBitmapsize_eq, ← Bool.decide_or, decide_eq_decide]
    unfold sfsSbLocation sfsRootLocation sfsMapLocation
    omega
  have hbyte : ∀ w < sfsBitblocks img.size * sfsBlocksize,
      (diskFreemap img).v w = (afterRoot img v ins).bitmapdata w := fun w hw =>
    Bitmap.v_eq_of_bit fun o ho => hbit _ (by
      rw [sfsBitmapsize_eq]
      unfold sfsBlockbits sfsBlocksize bitsPerWord at *
      omega)
  refine checkBitmap_of_agree (fun i hi => ?_) (fun i hi j hj => ?_) fun _ => rfl
  · have hi' : i < sfsBitblocks img.size := hi
    rw [afterRoot, diskwrite_size (by decide) hroot]
    unfold sfsMapLocation at *
    omega
  · have hi' : i < sfsBitblocks img.size := hi
    have hk : sfsMapLocation + i < img.size := by unfold sfsMapLocation at *; omega
    rw [← hbyte _ (by unfold sfsBlocksize at *; omega)]
    show (Sbin.diskwrite img sfsRootLocation fixedRoot).blocks (sfsMapLocation + i) j = _
    rw [diskwrite_blocks (by decide) hk, if_neg (by unfold sfsMapLocation sfsRootLocation; omega)]
    have hdiv : (i * sfsBlocksize + j) / sfsBlocksize = i := by unfold sfsBlocksize at *; omega
    have hmod : (i * sfsBlocksize + j) % sfsBlocksize = j := by unfold sfsBlocksize at *; omega
    unfold diskFreemap
    dsimp only
    rw [hdiv, hmod]

/-- sfsck on a fresh volume finds the freemap right, and the root without `.`
    and `..`, which it cannot add, and with one link where it counts two: it
    exits `EXIT_UNRECOV`, having written the root back and nothing else. -/
theorem sfsck_fresh (hf : Fresh img) (fuel : Nat) :
    ∃ t, run (fuel + 1) img = some (exitUnrecov, t) ∧ t.writes = [sfsRootLocation] ∧
      t.img = Sbin.diskwrite img sfsRootLocation fixedRoot := by
  have hsfsck : Returns (sfsck (fuel + 1)) (init img) fun r t =>
      r = exitUnrecov ∧ ∃ v ins, t = afterRoot img v ins := by
    unfold sfsck
    refine Returns.bind (checkSb_fresh hf) ?_
    rintro _ _ ⟨v, rfl, hv⟩
    refine Returns.bind (checkRootDir_fresh hf hv fuel) ?_
    rintro _ _ ⟨ins, rfl⟩
    refine Returns.bind (checkBitmap_fresh hf hv ins) ?_
    rintro _ _ rfl
    -- no inode was counted, so `adjust_filelinks` has nothing to do
    rw [Returns.bind_of_ok (adjustFilelinks_of_zero rfl), Returns.get_bind]
    exact Returns.have_intro ((Returns.kassert_bind (Nat.le_refl _)).2 (Returns.pure_iff.2 ⟨rfl, v, ins, rfl⟩))
  obtain ⟨r, t, hrun, rfl, v, ins, rfl⟩ := hsfsck
  exact ⟨_, by rw [run, hrun]; rfl, rfl, rfl⟩

end Sfsck

/-- What mksfs, the mount and sfsck make of a fresh volume, on every device
    whose freemap fits: the mount loads the freemap mksfs meant, but sfsck
    exits `EXIT_UNRECOV`, having written the root. -/
theorem sfsck_rejects_fresh_volume {img : Image} {volname name : List UInt8}
    (hname : Mksfs.volnameOf volname = some name) (hlen : name.length < sfsVolnameSize)
    (hnul : (0 : UInt8) ∉ volname) (hbb : sfsBitblocks img.size ≤ maxbitblocks)
    (hfit : sfsMapLocation + sfsBitblocks img.size < img.size)
    {env : Env} (hr : ∀ n, env.readFail n = false) (hk : ∀ n, env.kmallocFail n = false) (fuel : Nat) :
    ∃ s, Mksfs.mksfs volname (Mksfs.init img) = some (.ok (), s) ∧
      (∃ fs, sfsDomount (Fs.ofImage s.img env) = some (.ok (), fs) ∧
        ∀ k < sfsBitmapsize img.size, fs.freemap.bit k = freshBit img.size k) ∧
      ∃ t, Sfsck.run (fuel + 1) s.img = some (exitUnrecov, t) ∧ t.writes = [sfsRootLocation] := by
  obtain ⟨s, hrun, hsize, hf⟩ := mksfs_fresh hname hlen hnul hbb hfit
  obtain ⟨fs, hmount, -, -, hbits⟩ := mount_fresh hf hr hk
  obtain ⟨t, hsfsck, hwrites, -⟩ := Sfsck.sfsck_fresh hf fuel
  exact ⟨s, hrun, ⟨fs, hmount, hsize ▸ hbits⟩, t, hsfsck, hwrites⟩

/-- A volume `v` of eight blocks, on a device and a heap that never fail. -/
theorem sfsck_rejects_fresh_volume_of_eight :
    ∃ s, Mksfs.mksfs [cchar 'v'] (Mksfs.init ⟨8, fun _ _ => 0⟩) = some (.ok (), s) ∧
      (∃ fs, sfsDomount (Fs.ofImage s.img ⟨fun _ => false, 0, fun _ => false, 0, fun _ => false, 0⟩) =
          some (.ok (), fs) ∧ ∀ k < sfsBitmapsize 8, fs.freemap.bit k = freshBit 8 k) ∧
      ∃ t, Sfsck.run 1 s.img = some (exitUnrecov, t) ∧ t.writes = [sfsRootLocation] :=
  sfsck_rejects_fresh_volume (rfl : Mksfs.volnameOf [cchar 'v'] = some [cchar 'v']) (by decide) (by decide)
    (by decide) (by decide) (fun _ => rfl) (fun _ => rfl) 0

end Os161.Sbin
