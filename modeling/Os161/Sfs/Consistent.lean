import Os161.Sfs.Lookup

/-!
# Which blocks of a volume are in use

A mounted volume is consistent when its freemap marks exactly the blocks in
use: the superblock, the freemap's own blocks, the block of each live inode
(the root directory, the inodes its slots name, and those loaded), and each
block a live inode refers to, at one of its places (a direct block, the
indirect block, an entry of the indirect block); and when no block is used
twice.

`sfs_makeobj` takes a block from the freemap for the inode of a new object
and then loads its vnode. When `sfs_loadvnode` fails there (`kmalloc` finds no
memory for the vnode, the inode cannot be read, or the table cannot grow),
nothing gives the block back: it stays marked, and no live inode is in it or
refers to it.

* `ClearedAt.not_consistent`: a free block marked in use, and at most
  cleared, with nothing live in it or referring to it, makes a consistent
  volume inconsistent (`Disk.slots_clear` keeps the root directory's slots);
* `sfsBalloc_of`: `sfs_balloc` takes the first free block and clears it;
* `sfsLoadvnode_enomem`: `sfs_loadvnode` of a block no vnode has, when
  `kmalloc` fails;
* `creat_enomem_leaks_block`: from every consistent volume, an `sfs_creat` of a
  new name whose vnode `kmalloc` cannot allocate returns `ENOMEM` and leaves
  the volume inconsistent.
-/

namespace Os161.Sfs

open KernM

/-- The places of an inode that hold block numbers. -/
inductive Place
  | direct (i : Fin sfsNdirect)
  | indirect
  | entry (j : Fin sfsDbperidb)
  deriving DecidableEq

/-- The block number at a place of the inode `inode`; the entries of an
    indirect block count only when the inode has one. -/
def Disk.blockAt (d : Disk) (inode : Inode) : Place → Nat
  | .direct i => inode.direct i
  | .indirect => inode.indirect
  | .entry j => if inode.indirect = 0 then 0 else d.entries inode.indirect j

namespace Fs

/-- The device writes every block it is asked to. -/
def WritesWork (fs : Fs) : Prop := ∀ n, fs.env.writeFail n = false

/-- A block of the freemap. -/
def IsFreemapBlock (fs : Fs) (b : Nat) : Prop :=
  sfsMapLocation ≤ b ∧ b < sfsMapLocation + sfsBitblocks fs.nblocks

/-- A live inode: the root directory, an inode a slot of it names, or a loaded
    one. -/
def Live (fs : Fs) (ino : Nat) : Prop :=
  ino = sfsRootLocation ∨ (∃ n, some (ino, n) ∈ fs.disk.slots (fs.inodeOf sfsRootLocation)) ∨
    ∃ w ∈ fs.vnodes, w.ino = ino

/-- A block in use: marked in the freemap, below the end of the volume. -/
def Used (fs : Fs) (b : Nat) : Prop := b < fs.nblocks ∧ fs.freemap.isset b = true

end Fs

/-- The freemap marks exactly the blocks in use, and no block is used twice. -/
structure Consistent (fs : Fs) : Prop where
  freemap_size : fs.freemap.nbits = fs.nblocks
  freemap_padded : fs.freemap.Padded
  /-- `bitmap_create`'s `unsigned` count of the freemap's words does not wrap -/
  freemap_words : fs.freemap.nbits + bitsPerWord - 1 < 2 ^ 32
  /-- the superblock and the freemap are never handed out -/
  reserved_used : ∀ b, b = sfsSbLocation ∨ fs.IsFreemapBlock b → fs.Used b
  live_used : ∀ ino, fs.Live ino → fs.Used ino
  ref_used : ∀ ino p, fs.Live ino → fs.disk.blockAt (fs.inodeOf ino) p ≠ 0 →
    fs.Used (fs.disk.blockAt (fs.inodeOf ino) p)
  live_not_reserved : ∀ ino, fs.Live ino → ino ≠ sfsSbLocation ∧ ¬ fs.IsFreemapBlock ino
  ref_not_reserved : ∀ ino p, fs.Live ino → fs.disk.blockAt (fs.inodeOf ino) p ≠ 0 →
    ¬ fs.IsFreemapBlock (fs.disk.blockAt (fs.inodeOf ino) p)
  /-- no block number is referenced from two places -/
  ref_unique : ∀ ino ino' p p', fs.Live ino → fs.Live ino' → fs.disk.blockAt (fs.inodeOf ino) p ≠ 0 →
    fs.disk.blockAt (fs.inodeOf ino) p = fs.disk.blockAt (fs.inodeOf ino') p' → ino = ino' ∧ p = p'
  ref_not_live : ∀ ino ino' p, fs.Live ino → fs.Live ino' → fs.disk.blockAt (fs.inodeOf ino) p ≠ ino'
  /-- every block marked in use is one of those -/
  no_leak : ∀ b, fs.Used b → b = sfsSbLocation ∨ fs.IsFreemapBlock b ∨ fs.Live b ∨
    ∃ ino p, fs.Live ino ∧ fs.disk.blockAt (fs.inodeOf ino) p = b

/-! ## Clearing a block nothing uses -/

namespace Disk

variable {d : Disk} {inode : Inode} {b : Nat}

theorem blockAt_clear (hind : inode.indirect ≠ b) (p : Place) :
    (d.clear b).blockAt inode p = d.blockAt inode p := by
  cases p <;> simp [blockAt, clear, Function.update_of_ne hind]

/-- A block of a file below the largest size is at a place of its inode. -/
theorem bmap_eq_blockAt (d : Disk) (inode : Inode) {fb : Nat}
    (hfb : fb < sfsNdirect + sfsDbperidb) : ∃ p, d.bmap inode fb = d.blockAt inode p := by
  by_cases hd : fb < sfsNdirect
  · exact ⟨.direct ⟨fb, hd⟩, by simp [bmap, hd, blockAt]⟩
  · refine ⟨.entry ⟨fb - sfsNdirect, by omega⟩, ?_⟩
    by_cases h0 : inode.indirect = 0 <;> simp [bmap, hd, h0, blockAt]

theorem bmap_clear (hind : inode.indirect ≠ b) (fb : Nat) :
    (d.clear b).bmap inode fb = d.bmap inode fb := by
  simp [bmap, clear, Function.update_of_ne hind]

theorem fileBlock_clear (hind : inode.indirect ≠ b) {fb : Nat} (hfb : d.bmap inode fb ≠ b) :
    (d.clear b).fileBlock inode fb = d.fileBlock inode fb := by
  have hdata : (d.clear b).data (d.bmap inode fb) = d.data (d.bmap inode fb) :=
    Function.update_of_ne hfb _ _
  simp only [fileBlock, bmap_clear hind, hdata]

/-- Clearing a block that a directory does not use leaves its slots as they
    were. -/
theorem slots_clear (hmax : inode.size ≤ sfsMaxSize) (hind : inode.indirect ≠ b)
    (hblocks : ∀ p, d.blockAt inode p ≠ b) : (d.clear b).slots inode = d.slots inode := by
  unfold slots
  refine List.map_congr_left fun s hs => congrArg decodeSlot (funext fun i => ?_)
  unfold slotBytes
  split
  · rename_i hi
    -- the byte is inside the directory, so in a block below the largest size
    have hs' := List.mem_range.mp hs
    have hfb : (s * sfsDirSize + i) / sfsBlocksize < sfsNdirect + sfsDbperidb := by
      unfold sfsMaxSize at hmax
      unfold sfsDirSize sfsNamelen at hs' hi ⊢
      unfold sfsNdirect sfsDbperidb sfsBlocksize at hmax ⊢
      omega
    obtain ⟨p, hp⟩ := bmap_eq_blockAt d inode hfb
    have hne : d.bmap inode ((s * sfsDirSize + i) / sfsBlocksize) ≠ b := hp ▸ hblocks p
    simp only [fileByte, fileBlock_clear hind hne]
  · rfl

end Disk

section Free

variable {fs : Fs} {b ino : Nat}

/-- A block the freemap leaves free is not the superblock. -/
theorem Consistent.ne_zero_of_free (hc : Consistent fs) (hb : ¬ fs.Used b) : b ≠ 0 :=
  fun h => hb (hc.reserved_used b (.inl h))

theorem Consistent.live_ne_of_free (hc : Consistent fs) (hb : ¬ fs.Used b) (hlive : fs.Live ino) :
    ino ≠ b :=
  fun h => hb (h ▸ hc.live_used ino hlive)

/-- No live inode refers to a free block. -/
theorem Consistent.blockAt_ne_of_free (hc : Consistent fs) (hb : ¬ fs.Used b)
    (hlive : fs.Live ino) (p : Place) : fs.disk.blockAt (fs.inodeOf ino) p ≠ b := by
  intro h
  by_cases h0 : fs.disk.blockAt (fs.inodeOf ino) p = 0
  · exact hc.ne_zero_of_free hb (h ▸ h0)
  · exact hb (h ▸ hc.ref_used ino p hlive h0)

theorem Consistent.indirect_ne_of_free (hc : Consistent fs) (hb : ¬ fs.Used b)
    (hlive : fs.Live ino) : (fs.inodeOf ino).indirect ≠ b :=
  hc.blockAt_ne_of_free hb hlive .indirect

/-- Every block of a live file is one `sfs_bmap` may hand back. -/
theorem Consistent.mapsFile (hc : Consistent fs) (hlive : fs.Live ino) :
    fs.MapsFile (fs.inodeOf ino) := by
  intro fb hfb hne
  obtain ⟨p, hp⟩ := Disk.bmap_eq_blockAt fs.disk (fs.inodeOf ino) hfb
  rw [hp] at hne ⊢
  exact hc.ref_used ino p hlive hne

end Free

/-- `fs'` is `fs` with nothing changed that decides which blocks are in use,
    but the block `b`, which may have been cleared. -/
structure ClearedAt (fs fs' : Fs) (b : Nat) : Prop where
  nblocks : fs'.nblocks = fs.nblocks
  vnodes : fs'.vnodes = fs.vnodes
  disk : fs'.disk = fs.disk ∨ fs'.disk = fs.disk.clear b

namespace ClearedAt

variable {fs fs' : Fs} {b ino : Nat} {inode : Inode}

theorem inodeOf (h : ClearedAt fs fs' b) (hino : ino ≠ b) : fs'.inodeOf ino = fs.inodeOf ino := by
  have hv : fs'.vnode? ino = fs.vnode? ino := by simp [Fs.vnode?, h.vnodes]
  unfold Fs.inodeOf
  rw [hv]
  cases fs.vnode? ino with
  | some v => rfl
  | none => rcases h.disk with hd | hd <;> simp [hd, Disk.clear, Function.update_of_ne hino]

theorem blockAt (h : ClearedAt fs fs' b) (hind : inode.indirect ≠ b) (p : Place) :
    fs'.disk.blockAt inode p = fs.disk.blockAt inode p := by
  rcases h.disk with hd | hd
  · rw [hd]
  · rw [hd, Disk.blockAt_clear hind]

theorem slots (h : ClearedAt fs fs' b) (hmax : inode.size ≤ sfsMaxSize)
    (hind : inode.indirect ≠ b) (hblocks : ∀ p, fs.disk.blockAt inode p ≠ b) :
    fs'.disk.slots inode = fs.disk.slots inode := by
  rcases h.disk with hd | hd
  · rw [hd]
  · rw [hd, Disk.slots_clear hmax hind hblocks]

/-- An inode live after the change was live before: the root directory's
    slots are not in the cleared block. -/
theorem live_of (h : ClearedAt fs fs' b) (hc : Consistent fs) (hb : ¬ fs.Used b)
    (hroot : (fs.inodeOf sfsRootLocation).size ≤ sfsMaxSize) (hlive : fs'.Live ino) :
    fs.Live ino := by
  have hrootLive : fs.Live sfsRootLocation := .inl rfl
  rcases hlive with hr | ⟨n, hn⟩ | ⟨w, hw, hwi⟩
  · exact .inl hr
  · rw [h.inodeOf (hc.live_ne_of_free hb hrootLive),
      h.slots hroot (hc.indirect_ne_of_free hb hrootLive) (hc.blockAt_ne_of_free hb hrootLive)] at hn
    exact .inr (.inl ⟨n, hn⟩)
  · exact .inr (.inr ⟨w, h.vnodes ▸ hw, hwi⟩)

/-- A free block marked in use, that nothing live is in or refers to, is a
    leak: the volume is no longer consistent. -/
theorem not_consistent (h : ClearedAt fs fs' b) (hc : Consistent fs) (hb : ¬ fs.Used b)
    (hroot : (fs.inodeOf sfsRootLocation).size ≤ sfsMaxSize) (hb' : fs'.Used b) :
    ¬ Consistent fs' := by
  intro hc'
  rcases hc'.no_leak b hb' with hsb | hfm | hlive | ⟨ino, p, hino, hp⟩
  · exact hb (hc.reserved_used b (.inl hsb))
  · have hfm' : fs.IsFreemapBlock b := by simpa [Fs.IsFreemapBlock, h.nblocks] using hfm
    exact hb (hc.reserved_used b (.inr hfm'))
  · exact hb (hc.live_used b (h.live_of hc hb hroot hlive))
  · -- the block is referred to from an inode that was live, at the same place
    have hino' := h.live_of hc hb hroot hino
    rw [h.inodeOf (hc.live_ne_of_free hb hino'), h.blockAt (hc.indirect_ne_of_free hb hino')] at hp
    exact hc.blockAt_ne_of_free hb hino' p hp

end ClearedAt

/-! ## `sfs_creat` when the vnode cannot be allocated -/

section Creat

variable {fs : Fs}

/-- `sfs_balloc` takes the first free block, marks it and clears it. -/
theorem sfsBalloc_of {i : Nat} {m : Bitmap} (halloc : fs.freemap.alloc = some (.ok (i, m)))
    (hi : i < fs.nblocks) :
    sfsBalloc fs = some (.ok i, ({ fs with freemap := m } : Fs).afterWrite fun d => d.clear i) := by
  simp only [sfsBalloc, get_bind, halloc, set_bind, Nat.not_le.mpr hi, if_false]
  exact bind_of_ok (sfsWrite_apply _ _) _

/-- The search of `sfs_loadvnode` through vnodes of blocks in use, none of them
    `ino`, finds nothing and changes nothing. -/
theorem loadvnodeSearch_absent {ino : Nat} {forcetype : FileType} :
    ∀ vs : List Vnode, (∀ w ∈ vs, w.ino < fs.nblocks ∧ fs.freemap.isset w.ino = true ∧ w.ino ≠ ino) →
      loadvnodeSearch ino forcetype vs fs = some (.ok false, fs)
  | [], _ => rfl
  | w :: vs, h => by
    obtain ⟨hlt, hset, hne⟩ := h w List.mem_cons_self
    have hused : sfsBused w.ino fs = some (.ok true, fs) := by
      simp [sfsBused, Nat.not_le.mpr hlt, hset]
    rw [loadvnodeSearch, bind_of_ok hused]
    simp only [Bool.not_true, Bool.false_eq_true, if_false, if_neg hne]
    exact loadvnodeSearch_absent vs fun w' hw' => h w' (List.mem_cons_of_mem _ hw')

/-- `sfs_loadvnode` of a block no vnode has, when `kmalloc` finds no memory:
    `ENOMEM`, with one more `kmalloc` counted and nothing else changed. -/
theorem sfsLoadvnode_enomem {ino : Nat} {forcetype : FileType}
    (hvs : ∀ w ∈ fs.vnodes, w.ino < fs.nblocks ∧ fs.freemap.isset w.ino = true ∧ w.ino ≠ ino)
    (hkm : fs.env.kmallocFail fs.env.kmallocs = true) :
    sfsLoadvnode ino forcetype fs =
      some (.error .enomem, { fs with env := { fs.env with kmallocs := fs.env.kmallocs + 1 } }) := by
  simp only [sfsLoadvnode, get_bind, bind_of_ok (loadvnodeSearch_absent fs.vnodes hvs)]
  simp [kmalloc, hkm]

/-- From a consistent volume, `sfs_creat` of a name not in the root directory,
    when `kmalloc` finds no memory for the new vnode, returns `ENOMEM` and
    leaves the volume inconsistent: `sfs_makeobj` took a block for the inode,
    and nothing gives it back. -/
theorem creat_enomem_leaks_block {v : Vnode} {name : CStr} {excl : Bool} (hc : Consistent fs)
    (hr : fs.ReadsWork) (hv : fs.vnode? sfsRootLocation = some v) (htype : v.inode.type = .dir)
    (hsize : v.inode.size % sfsDirSize = 0) (hmax : v.inode.size ≤ sfsMaxSize)
    (habsent : ∀ ino, some (ino, name) ∉ fs.disk.slots v.inode)
    (hfree : ∃ b < fs.nblocks, fs.freemap.isset b = false)
    (hkm : fs.env.kmallocFail fs.env.kmallocs = true) :
    ∃ fs', sfsCreat sfsRootLocation name excl fs = some (.error .enomem, fs') ∧
      ¬ Consistent fs' := by
  have hroot : fs.inodeOf sfsRootLocation = v.inode := by simp [Fs.inodeOf, hv]
  -- the search of the root directory does not find the name
  have hmap : fs.MapsFile v.inode := hroot ▸ hc.mapsFile (.inl rfl)
  obtain ⟨F, hF, hfound⟩ := findnameSlots_of_absent _ 0 ⟨none, none⟩ habsent
  obtain ⟨k, hfind⟩ := (sfsDirFindname_read hv htype hsize hmax hmap hF).run hr
  -- the freemap has a free block, and `sfs_balloc` takes the first one
  obtain ⟨b, hbn, hbset⟩ := hfree
  rw [Bitmap.isset_eq_bit] at hbset
  obtain ⟨i, m, halloc⟩ := Bitmap.alloc_of_clear hc.freemap_padded hc.freemap_words (hc.freemap_size ▸ hbn) hbset
  obtain ⟨hi, hbit, -, -, hm⟩ := Bitmap.alloc_ok halloc
  have hi' : i < fs.nblocks := hc.freemap_size ▸ hi
  have hfree_i : ¬ fs.Used i := fun hu => by
    rw [Fs.Used, Bitmap.isset_eq_bit, hbit] at hu
    exact Bool.false_ne_true hu.2
  have hballoc :=
    sfsBalloc_of (show (fs.afterReads k).freemap.alloc = some (.ok (i, m)) from halloc) hi'
  obtain ⟨fs₂, hfs₂⟩ : ∃ fs₂ : Fs,
      fs₂ = ({ fs.afterReads k with freemap := m } : Fs).afterWrite fun d => d.clear i := ⟨_, rfl⟩
  rw [← hfs₂] at hballoc
  -- the loaded vnodes are of blocks in use, which the new block is not
  have hvs : ∀ w ∈ fs₂.vnodes, w.ino < fs₂.nblocks ∧ fs₂.freemap.isset w.ino = true ∧ w.ino ≠ i := by
    intro w hw
    rw [hfs₂] at hw ⊢
    have hlive : fs.Live w.ino := .inr (.inr ⟨w, hw, rfl⟩)
    obtain ⟨hlt, hset⟩ := hc.live_used w.ino hlive
    rw [Bitmap.isset_eq_bit] at hset ⊢
    exact ⟨hlt, by simp [Fs.afterWrite, hm, hset], hc.live_ne_of_free hfree_i hlive⟩
  have hload : sfsLoadvnode i .file fs₂ = _ := sfsLoadvnode_enomem hvs
    (by simpa [hfs₂, Fs.afterWrite, Fs.afterReads] using hkm)
  refine ⟨{ fs₂ with env := { fs₂.env with kmallocs := fs₂.env.kmallocs + 1 } }, ?_,
    ClearedAt.not_consistent ?_ hc hfree_i (hroot ▸ hmax) ?_⟩
  · simp only [sfsCreat, bind_of_ok hfind, hfound, sfsMakeobj, bind_apply, hballoc, hload]
  · refine ⟨by simp [hfs₂, Fs.afterWrite], by simp [hfs₂, Fs.afterWrite], ?_⟩
    by_cases hw : fs.env.writeFail fs.env.writes <;> simp [hfs₂, Fs.afterWrite, Fs.afterReads, hw]
  · refine ⟨by simpa [hfs₂, Fs.afterWrite] using hi', ?_⟩
    simp [hfs₂, Fs.afterWrite, Bitmap.isset_eq_bit, hm]

/-- A volume of eight blocks with an empty root directory at block 1 and the
    freemap in block 2, the root's vnode loaded; the heap has no memory left
    for `kmalloc`. -/
def rootOnly : Fs where
  nblocks := 8
  freemap := ⟨8, fun ix => if ix = 0 then 0x07 else 0⟩
  disk := ⟨fun _ _ => 0, fun _ => Inode.zero, fun _ _ => 0⟩
  env := ⟨fun _ => false, 0, fun _ => false, 0, fun _ => true, 0⟩
  vnodes := [⟨1, ⟨0, .dir, 1, fun _ => 0, 0⟩, false, 1⟩]
  vnodesMax := 4

theorem rootOnly_inodeOf : rootOnly.inodeOf sfsRootLocation = ⟨0, .dir, 1, fun _ => 0, 0⟩ := rfl

theorem rootOnly_live {ino : Nat} : rootOnly.Live ino ↔ ino = sfsRootLocation := by
  refine ⟨fun h => ?_, .inl⟩
  rcases h with h | ⟨n, hn⟩ | ⟨w, hw, rfl⟩
  · exact h
  · -- the root directory has no slots
    simp [rootOnly_inodeOf, Disk.slots] at hn
  · simp only [rootOnly, List.mem_singleton] at hw
    rw [hw]
    rfl

theorem rootOnly_blockAt (p : Place) : rootOnly.disk.blockAt (rootOnly.inodeOf sfsRootLocation) p = 0 := by
  cases p <;> rfl

theorem consistent_rootOnly : Consistent rootOnly where
  freemap_size := rfl
  freemap_padded := by
    intro j h1 h2
    have : rootOnly.freemap.nwords * bitsPerWord = 8 := by decide
    exact absurd h1 (by change ¬ 8 ≤ j; omega)
  freemap_words := by decide
  reserved_used := by
    have hbits : sfsBitblocks 8 = 1 := by decide
    rintro b (rfl | ⟨h1, h2⟩)
    · exact ⟨by decide, by decide⟩
    · change 2 ≤ b at h1
      change b < 2 + sfsBitblocks 8 at h2
      obtain rfl : b = 2 := by omega
      exact ⟨by decide, by decide⟩
  live_used := by
    intro ino h
    rw [rootOnly_live.mp h]
    exact ⟨by decide, by decide⟩
  ref_used := by
    intro ino p h h0
    rw [rootOnly_live.mp h] at h0
    exact absurd (rootOnly_blockAt p) h0
  live_not_reserved := by
    intro ino h
    rw [rootOnly_live.mp h]
    exact ⟨by decide, fun hfm => absurd hfm.1 (by decide)⟩
  ref_not_reserved := by
    intro ino p h h0
    rw [rootOnly_live.mp h] at h0
    exact absurd (rootOnly_blockAt p) h0
  ref_unique := by
    intro ino ino' p p' h _ h0
    rw [rootOnly_live.mp h] at h0
    exact absurd (rootOnly_blockAt p) h0
  ref_not_live := by
    intro ino ino' p h h'
    rw [rootOnly_live.mp h, rootOnly_live.mp h', rootOnly_blockAt]
    decide
  no_leak := by
    rintro b ⟨hlt, hset⟩
    have hmarked : ∀ b < 8, rootOnly.freemap.isset b = true → b = 0 ∨ b = 1 ∨ b = 2 := by decide
    rcases hmarked b hlt hset with rfl | rfl | rfl
    · exact .inl rfl
    · exact .inr (.inr (.inl (.inl rfl)))
    · exact .inr (.inl ⟨le_rfl, by decide⟩)

theorem rootOnly_creat_enomem :
    ∃ fs', sfsCreat sfsRootLocation ⟨[0x61], by decide⟩ false rootOnly =
      some (.error .enomem, fs') ∧ ¬ Consistent fs' :=
  creat_enomem_leaks_block consistent_rootOnly (fun _ => rfl) rfl rfl rfl (by decide)
    (fun _ h => by simp [rootOnly, Disk.slots] at h) ⟨3, by decide, by decide⟩ rfl

end Creat

end Os161.Sfs
