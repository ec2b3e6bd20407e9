import Os161.Sfs.Dir

/-!
# Reading a directory

The slots of a directory as the disk holds them (`Disk.slots`): each one empty
or an inode number with a name, decoded from the bytes `sfs_readdir` reads.
`findnameSlots` is the search of `sfs_dir_findname` over that list, with the
`KASSERT` that a name is found at most once.

* `sfsReaddir_read`: `sfs_readdir` reads the bytes of the slot;
* `sfsDirFindname_read`: `sfs_dir_findname` gives what `findnameSlots` finds,
  or `EIO` when the device fails;
* `findnameSlots_of_absent`: a name in no slot is not found, and nothing
  stops the search.
-/

namespace Os161.Sfs

open KernM

namespace Disk

/-- The bytes of slot `s` of the directory with inode `inode`. -/
def slotBytes (d : Disk) (inode : Inode) (s : Nat) : Nat → UInt8 := fun i =>
  if i < sfsDirSize then d.fileByte inode (s * sfsDirSize + i) else 0

end Disk

/-- A slot as `sfs_dir_findname` sees it: empty, or an inode and a name. -/
def decodeSlot (sd : Nat → UInt8) : Option (Nat × CStr) :=
  if decodeIno sd = sfsNoino then none else some (decodeIno sd, decodeName sd)

/-- The slots of the directory with inode `inode`. -/
def Disk.slots (d : Disk) (inode : Inode) : List (Option (Nat × CStr)) :=
  (List.range (inode.size / sfsDirSize)).map fun s => decodeSlot (d.slotBytes inode s)

/-- The search of `sfs_dir_findname` through slots numbered from `i`; `none`
    when the name is found a second time. -/
def findnameSlots (name : CStr) : List (Option (Nat × CStr)) → Nat → Found → Option Found
  | [], _, acc => some acc
  | none :: ss, i, acc => findnameSlots name ss (i + 1) { acc with emptyslot := some i }
  | some (ino, n) :: ss, i, acc =>
    if n = name then
      if acc.found = none then findnameSlots name ss (i + 1) { acc with found := some (ino, i) }
      else none
    else findnameSlots name ss (i + 1) acc

/-- The largest size of a file: its direct blocks and those of its indirect
    block. -/
def sfsMaxSize : Nat := (sfsNdirect + sfsDbperidb) * sfsBlocksize

/-- Every block the file with inode `inode` maps is one `sfs_bmap` may hand
    back. -/
def Fs.MapsFile (fs : Fs) (inode : Inode) : Prop :=
  ∀ fb, fb < sfsNdirect + sfsDbperidb → fs.Mapped (fs.disk.bmap inode fb)

@[simp] theorem Fs.mapsFile_afterReads (fs : Fs) (n : Nat) :
    (fs.afterReads n).MapsFile = fs.MapsFile := rfl

@[simp] theorem Disk.length_slots (d : Disk) (inode : Inode) :
    (d.slots inode).length = inode.size / sfsDirSize := by
  simp [Disk.slots]

theorem Disk.getElem_slots (d : Disk) (inode : Inode) {s : Nat} (h : s < (d.slots inode).length) :
    (d.slots inode)[s] = decodeSlot (d.slotBytes inode s) := by
  simp [Disk.slots]

section Format

/-- The inode number `sfs_dir_link` writes into a slot reads back. -/
theorem decodeIno_encodeDir {ino : Nat} (h : ino < 2 ^ 32) (name : List UInt8) :
    decodeIno (encodeDir ino name) = ino := by
  simp [decodeIno, encodeDir]
  omega

/-- The name `sfs_dir_link` writes into a slot reads back, when it fits with
    its NUL. -/
theorem decodeName_encodeDir (ino : Nat) {name : List UInt8} (h0 : 0 ∉ name)
    (hlen : name.length + 1 ≤ sfsNamelen) : decodeName (encodeDir ino name) = ⟨name, h0⟩ := by
  -- the field holds the name, then NULs to its end
  have hbytes : ((List.range (sfsNamelen - 1)).map fun i => encodeDir ino name (4 + i)) =
      name ++ List.replicate (sfsNamelen - 1 - name.length) 0 := by
    refine List.ext_getElem (by simp; omega) fun i h1 h2 => ?_
    have henc : encodeDir ino name (4 + i) = name.getD i 0 := by
      rw [encodeDir, if_neg (by omega), Nat.add_sub_cancel_left]
    rw [List.getElem_map, List.getElem_range, henc, List.getElem_append]
    split_ifs with hi
    · exact List.getD_eq_getElem _ _ hi
    · rw [List.getD_eq_default _ _ (Nat.le_of_not_lt hi), List.getElem_replicate]
  have hpos : ∀ a ∈ name, decide (a ≠ 0) = true := fun a ha =>
    decide_eq_true fun h => h0 (h ▸ ha)
  simp only [decodeName, hbytes, List.takeWhile_append_of_pos hpos, List.takeWhile_replicate]
  simp

/-- A slot `sfs_dir_link` writes for an inode other than `SFS_NOINO`. -/
theorem decodeSlot_encodeDir {ino : Nat} (hne : ino ≠ sfsNoino) (h : ino < 2 ^ 32)
    {name : List UInt8} (h0 : 0 ∉ name) (hlen : name.length + 1 ≤ sfsNamelen) :
    decodeSlot (encodeDir ino name) = some (ino, ⟨name, h0⟩) := by
  simp [decodeSlot, decodeIno_encodeDir h, hne, decodeName_encodeDir ino h0 hlen]

/-- A slot reads only its own bytes. -/
theorem decodeSlot_congr {sd sd' : Nat → UInt8} (h : ∀ i < sfsDirSize, sd i = sd' i) :
    decodeSlot sd = decodeSlot sd' := by
  have hino : decodeIno sd = decodeIno sd' := by
    simp only [decodeIno, h 0 (by decide), h 1 (by decide), h 2 (by decide), h 3 (by decide)]
  have hl : ((List.range (sfsNamelen - 1)).map fun i => sd (4 + i)) =
      (List.range (sfsNamelen - 1)).map fun i => sd' (4 + i) :=
    List.map_congr_left fun i hi => h _ (by
      rw [List.mem_range] at hi
      unfold sfsDirSize
      omega)
  have hname : decodeName sd = decodeName sd' := by simp only [decodeName, hl]
  simp only [decodeSlot, hino, hname]

/-- A slot of zeros is empty. -/
theorem decodeSlot_zero : decodeSlot (fun _ => 0) = none := by
  simp [decodeSlot, decodeIno, sfsNoino]

end Format

section Lookup

variable {fs : Fs} {dir : Nat} {v : Vnode}

/-- A run of an I/O that only reads is a read of the volume giving the `uio`
    after it. -/
theorem runIo_readsAs {m : IoM Unit} {uio uio' : Uio} (h : IoReadsAs m fs uio uio') :
    ReadsAs (runIo m uio) fs uio' := by
  obtain ⟨k, h | ⟨h, hbad⟩⟩ := h
  · exact ⟨k, .ok uio', by simp [runIo, h, Except.map], .inl rfl⟩
  · exact ⟨k, .error .eio, by simp [runIo, h, Except.map], .inr ⟨rfl, hbad⟩⟩

/-- A slot lies inside one block. -/
theorem slot_in_block (slot : Nat) : slot * sfsDirSize % sfsBlocksize + sfsDirSize ≤ sfsBlocksize := by
  unfold sfsDirSize sfsNamelen sfsBlocksize
  omega

/-- `sfs_readdir` reads the bytes of a slot inside the directory. -/
theorem sfsReaddir_read {slot : Nat} (hv : fs.vnode? dir = some v)
    (hslot : slot < v.inode.size / sfsDirSize) (hmax : v.inode.size ≤ sfsMaxSize)
    (hmap : fs.MapsFile v.inode) :
    ReadsAs (sfsReaddir dir slot) fs (fs.disk.slotBytes v.inode slot) := by
  have hend : slot * sfsDirSize + sfsDirSize ≤ v.inode.size := by
    unfold sfsDirSize sfsNamelen at *
    omega
  have hfb : slot * sfsDirSize / sfsBlocksize < sfsNdirect + sfsDbperidb := by
    unfold sfsMaxSize sfsDirSize sfsNamelen sfsBlocksize sfsNdirect sfsDbperidb at *
    omega
  have hio := sfsIo_read_kinit (fun _ => 0) hv (show 0 < sfsDirSize by decide) hend (slot_in_block slot)
    hfb (hmap _ hfb)
  exact (runIo_readsAs hio).bind fun k => .of_eq rfl

/-- The loop of `sfs_dir_findname` reads the slots from `i` on and finds what
    `findnameSlots` finds. -/
theorem findnameLoop_read {name : CStr} (hv : fs.vnode? dir = some v)
    (hmax : v.inode.size ≤ sfsMaxSize) (hmap : fs.MapsFile v.inode) :
    ∀ (l : List (Option (Nat × CStr))) (i : Nat) (acc F : Found) (k : Nat),
      l = (fs.disk.slots v.inode).drop i → findnameSlots name l i acc = some F →
      ReadsAs (findnameLoop dir name l.length i acc) (fs.afterReads k) F
  | [], i, acc, F, k, _, hF => by
    simp only [findnameSlots, Option.some.injEq] at hF
    subst hF
    exact .of_eq rfl
  | x :: l, i, acc, F, k, hl, hF => by
    -- the list is slot `i` and the slots after it
    have hi : i < (fs.disk.slots v.inode).length := by
      by_contra h
      rw [List.drop_eq_nil_of_le (by omega)] at hl
      cases hl
    rw [List.drop_eq_getElem_cons hi, Disk.getElem_slots] at hl
    obtain ⟨rfl, hrest⟩ := List.cons.inj hl
    have hslot : i < v.inode.size / sfsDirSize := by simpa using hi
    rw [List.length_cons, findnameLoop]
    refine (sfsReaddir_read (by simpa using hv) hslot hmax (by simpa using hmap)).bind fun k' => ?_
    simp only [Fs.afterReads_afterReads, Fs.afterReads_disk]
    have ih := fun acc' F' (h : findnameSlots name l (i + 1) acc' = some F') =>
      findnameLoop_read hv hmax hmap l (i + 1) acc' F' k' hrest h
    unfold decodeSlot at hF
    by_cases h0 : decodeIno (fs.disk.slotBytes v.inode i) = sfsNoino
    · -- an empty slot
      simp only [h0, if_true, findnameSlots] at hF ⊢
      exact ih _ _ hF
    · simp only [h0, if_false, findnameSlots] at hF ⊢
      by_cases hn : decodeName (fs.disk.slotBytes v.inode i) = name
      · -- the name: the first time it is found
        simp only [hn, if_true] at hF ⊢
        split_ifs at hF with hfound
        refine ReadsAs.of_run_eq ?_ (ih _ _ hF)
        simp [kassert, hfound]
      · simp only [hn, if_false] at hF ⊢
        exact ih _ _ hF

theorem sfsDirNentries_of (hv : fs.vnode? dir = some v) (htype : v.inode.type = .dir)
    (hsize : v.inode.size % sfsDirSize = 0) :
    sfsDirNentries dir fs = some (.ok (v.inode.size / sfsDirSize), fs) := by
  simp [sfsDirNentries, bind_of_ok (getInode_of hv), kassert, htype, hsize]

/-- `sfs_dir_findname` reads the slots of the directory and finds what
    `findnameSlots` finds. -/
theorem sfsDirFindname_read {name : CStr} {F : Found} (hv : fs.vnode? dir = some v)
    (htype : v.inode.type = .dir) (hsize : v.inode.size % sfsDirSize = 0)
    (hmax : v.inode.size ≤ sfsMaxSize) (hmap : fs.MapsFile v.inode)
    (hF : findnameSlots name (fs.disk.slots v.inode) 0 ⟨none, none⟩ = some F) :
    ReadsAs (sfsDirFindname dir name) fs F := by
  have h := findnameLoop_read hv hmax hmap _ 0 _ F fs.env.reads List.drop_zero.symm hF
  rw [Fs.afterReads_self, Disk.length_slots] at h
  exact ReadsAs.of_run_eq (by simp [sfsDirFindname, bind_of_ok (sfsDirNentries_of hv htype hsize)]) h

end Lookup

/-- A name in no slot is not found, and the search does not stop. -/
theorem findnameSlots_of_absent {name : CStr} :
    ∀ (l : List (Option (Nat × CStr))) (i : Nat) (acc : Found), (∀ ino, some (ino, name) ∉ l) →
      ∃ F, findnameSlots name l i acc = some F ∧ F.found = acc.found
  | [], _, acc, _ => ⟨acc, rfl, rfl⟩
  | none :: l, i, acc, h => by
    obtain ⟨F, hF, hfound⟩ := findnameSlots_of_absent l (i + 1) { acc with emptyslot := some i }
      fun ino hm => h ino (List.mem_cons_of_mem _ hm)
    exact ⟨F, hF, hfound⟩
  | some (ino, n) :: l, i, acc, h => by
    have hn : n ≠ name := fun hn => h ino (hn ▸ List.mem_cons_self)
    obtain ⟨F, hF, hfound⟩ := findnameSlots_of_absent l (i + 1) acc
      fun ino hm => h ino (List.mem_cons_of_mem _ hm)
    exact ⟨F, by simp [findnameSlots, hn, hF], hfound⟩

end Os161.Sfs
