import Mathlib
import Os161.Sfs.Lookup

/-!
# Links on a device that loses writes

`sfs_rwblock` (sfs_io.c) hands a failed write to the device once more, but
the device moved the block out of the `uio` before it failed (lhd.c): the
retry has nothing left to write and succeeds, and the write is lost with `0`
returned (`sfsWrite`). On a device that answers reads and fails every write,
the write path of `sfs_writedir` changes nothing on the volume but the
numbers of requests made, and neither does `sfs_dir_link` of a new name into
an empty slot; `sfs_link` then raises the link count of a file it has not
linked.

* `Untouched m fs a`: from `fs`, `m` gives `a` and changes nothing but the
  numbers of requests made; `Untouched.bind` chains such steps;
* `sfsPartialio_write_dropped`, `sfsIo_write_dropped`, `sfsWritedir_dropped`,
  `sfsDirLink_dropped`: the write path, one lemma per function, each from the
  one below;
* `DirInv`: no two slots of the directory carry one name, and the link count
  of every file is the number of slots naming it;
* `sfs_link_breaks_link_counts`: from every volume where `DirInv` holds, on
  such a device, `sfs_link` of a new name with an empty slot to take it
  succeeds and leaves the file's link count one above the slots naming it.
-/

namespace Os161.Sfs

open KernM

namespace Fs

/-- The device fails every write request. -/
def WritesFail (fs : Fs) : Prop := ∀ n, fs.env.writeFail n = true

/-- The volume after `r` read and `w` write requests in all, which changed
    nothing else. -/
def afterRequests (fs : Fs) (r w : Nat) : Fs :=
  { fs with env := { fs.env with reads := r, writes := w } }

variable (fs : Fs) (r w r' w' : Nat)

@[simp] theorem afterRequests_nblocks : (fs.afterRequests r w).nblocks = fs.nblocks := rfl

@[simp] theorem afterRequests_freemap : (fs.afterRequests r w).freemap = fs.freemap := rfl

@[simp] theorem afterRequests_disk : (fs.afterRequests r w).disk = fs.disk := rfl

@[simp] theorem afterRequests_vnodes : (fs.afterRequests r w).vnodes = fs.vnodes := rfl

@[simp] theorem afterRequests_reads : (fs.afterRequests r w).env.reads = r := rfl

@[simp] theorem afterRequests_writes : (fs.afterRequests r w).env.writes = w := rfl

@[simp] theorem afterRequests_afterRequests :
    (fs.afterRequests r w).afterRequests r' w' = fs.afterRequests r' w' := rfl

@[simp] theorem afterReads_afterRequests (n : Nat) :
    (fs.afterRequests r w).afterReads n = fs.afterRequests n w := rfl

@[simp] theorem vnode?_afterRequests : (fs.afterRequests r w).vnode? = fs.vnode? := rfl

@[simp] theorem inodeOf_afterRequests : (fs.afterRequests r w).inodeOf = fs.inodeOf := rfl

@[simp] theorem mapped_afterRequests : (fs.afterRequests r w).Mapped = fs.Mapped := rfl

@[simp] theorem mapsFile_afterRequests : (fs.afterRequests r w).MapsFile = fs.MapsFile := rfl

@[simp] theorem readsWork_afterRequests : (fs.afterRequests r w).ReadsWork ↔ fs.ReadsWork := Iff.rfl

@[simp] theorem writesFail_afterRequests : (fs.afterRequests r w).WritesFail ↔ fs.WritesFail :=
  Iff.rfl

theorem afterReads_eq_afterRequests (n : Nat) : fs.afterReads n = fs.afterRequests n fs.env.writes :=
  rfl

/-- A write the device fails leaves the disk as it was. -/
theorem afterWrite_of_writesFail (hwf : fs.WritesFail) (write : Disk → Disk) :
    fs.afterWrite write = fs.afterRequests fs.env.reads (fs.env.writes + 1) := by
  simp only [afterWrite, hwf fs.env.writes, if_true]
  rfl

end Fs

section Untouched

variable {α β : Type} {fs : Fs} {m : SfsM α} {a : α}

/-- From `fs`, `m` gives `a` and changes nothing but the numbers of requests
    made to the device. -/
def Untouched (m : SfsM α) (fs : Fs) (a : α) : Prop :=
  ∃ r w, m fs = some (.ok a, fs.afterRequests r w)

/-- From `(fs, uio)`, the I/O `m` leaves the `uio` as `uio'` and changes
    nothing on the volume but the numbers of requests made. -/
def IoUntouched (m : IoM Unit) (fs : Fs) (uio uio' : Uio) : Prop :=
  ∃ r w, m (fs, uio) = some (.ok (), (fs.afterRequests r w, uio'))

theorem Untouched.of_eq (h : m fs = some (.ok a, fs)) : Untouched m fs a :=
  ⟨fs.env.reads, fs.env.writes, h⟩

/-- On a device that answers, a read is untouched. -/
theorem Untouched.of_readsAs (h : ReadsAs m fs a) (hr : fs.ReadsWork) : Untouched m fs a := by
  obtain ⟨k, hk⟩ := h.run hr
  exact ⟨k, fs.env.writes, hk⟩

theorem Untouched.bind {f : α → SfsM β} {b : β} (hm : Untouched m fs a)
    (hf : ∀ r w, Untouched (f a) (fs.afterRequests r w) b) : Untouched (m >>= f) fs b := by
  obtain ⟨r, w, h⟩ := hm
  obtain ⟨r', w', h'⟩ := hf r w
  exact ⟨r', w', by rw [bind_of_ok h, h', Fs.afterRequests_afterRequests]⟩

theorem Untouched.liftFs_bind {f : α → IoM Unit} {uio uio' : Uio} (hm : Untouched m fs a)
    (hf : ∀ r w, IoUntouched (f a) (fs.afterRequests r w) uio uio') :
    IoUntouched (liftFs m >>= f) fs uio uio' := by
  obtain ⟨r, w, h⟩ := hm
  obtain ⟨r', w', h'⟩ := hf r w
  exact ⟨r', w', by rw [liftFs_bind_of_ok h, h', Fs.afterRequests_afterRequests]⟩

/-- The write the device fails. -/
theorem sfsWrite_of_writesFail (hwf : fs.WritesFail) (write : Disk → Disk) :
    sfsWrite write fs = some (.ok (), fs.afterRequests fs.env.reads (fs.env.writes + 1)) := by
  rw [sfsWrite_apply, Fs.afterWrite_of_writesFail fs hwf]

end Untouched

section WritePath

variable {fs : Fs} {ino : Nat} {v : Vnode} {uio : Uio}

/-- `sfs_bmap` allocating finds a block of the file that is on the disk and
    allocates nothing. -/
theorem sfsBmap_alloc_of_mapped {fb : Nat} (hv : fs.vnode? ino = some v)
    (hfb : fb < sfsNdirect + sfsDbperidb) (hm : fs.Mapped (fs.disk.bmap v.inode fb))
    (h0 : fs.disk.bmap v.inode fb ≠ 0) (hr : fs.ReadsWork) :
    Untouched (sfsBmap ino fb true) fs (fs.disk.bmap v.inode fb) := by
  by_cases hd : fb < sfsNdirect
  · -- a direct block
    have hdir : v.inode.direct fb ≠ 0 := by simpa [Disk.bmap, hd] using h0
    have hm' : fs.Mapped (v.inode.direct fb) := by simpa [Disk.bmap, hd] using hm
    exact .of_eq (by
      simp [sfsBmap, bind_of_ok (getInode_of hv), hd, hdir, bind_of_ok (checkUsed_of hm'), Disk.bmap])
  · -- an entry of the indirect block, which is there
    have hidnum : (fb - sfsNdirect) / sfsDbperidb = 0 := by
      unfold sfsNdirect sfsDbperidb at *
      omega
    have hmod : (fb - sfsNdirect) % sfsDbperidb = fb - sfsNdirect := by
      unfold sfsNdirect sfsDbperidb at *
      omega
    have hi : v.inode.indirect ≠ 0 := fun hi => h0 (by simp [Disk.bmap, hd, hi])
    have he : fs.disk.entries v.inode.indirect (fb - sfsNdirect) ≠ 0 := by
      simpa [Disk.bmap, hd, hi] using h0
    have hm' : fs.Mapped (fs.disk.entries v.inode.indirect (fb - sfsNdirect)) := by
      simpa [Disk.bmap, hd, hi] using hm
    obtain ⟨k, hread⟩ := (sfsRblockEntries_readsAs fs v.inode.indirect).run hr
    have hused := checkUsed_of (show (fs.afterReads k).Mapped _ from hm')
    refine ⟨k, fs.env.writes, ?_⟩
    rw [← Fs.afterReads_eq_afterRequests]
    simp [sfsBmap, bind_of_ok (getInode_of hv), hd, hidnum, hi, hmod, bind_of_ok hread, he,
      bind_of_ok hused, Disk.bmap]

/-- A write moves no bytes into the `uio`: what it leaves does not depend on
    the kernel buffer. -/
theorem uiomove_snd_of_write (h : uio.rw = .write) (p q : Nat → UInt8) (n : Nat) :
    (uiomove p n uio).2 = (uiomove q n uio).2 := by
  simp [uiomove, h]

/-- `sfs_partialio` writing into a block of the file that is on the disk:
    the device loses the write. -/
theorem sfsPartialio_write_dropped (skipstart len : Nat) (hv : fs.vnode? ino = some v)
    (hrw : uio.rw = .write) (hk : skipstart + len ≤ sfsBlocksize)
    (hfb : uio.offset / sfsBlocksize < sfsNdirect + sfsDbperidb)
    (hm : fs.Mapped (fs.disk.bmap v.inode (uio.offset / sfsBlocksize)))
    (h0 : fs.disk.bmap v.inode (uio.offset / sfsBlocksize) ≠ 0) (hr : fs.ReadsWork)
    (hwf : fs.WritesFail) :
    IoUntouched (sfsPartialio ino skipstart len) fs uio (uiomove (fun _ => 0) len uio).2 := by
  have hmod := fileblockOf_of_lt hfb
  obtain ⟨r, w, hb⟩ := sfsBmap_alloc_of_mapped hv hfb hm h0 hr
  obtain ⟨k, hd⟩ := (sfsRblockData_readsAs (fs.afterRequests r w)
    (fs.disk.bmap v.inode (uio.offset / sfsBlocksize))).run (by simpa using hr)
  have hwrite := sfsWrite_of_writesFail (show (fs.afterRequests k w).WritesFail by simpa using hwf)
  refine ⟨k, w + 1, ?_⟩
  simp [sfsPartialio, hmod, kassert, hk, hrw, liftFs_bind_of_ok hb, h0, liftFs_bind_of_ok hd,
    liftFs_of_ok (hwrite _), uiomove_snd_of_write hrw _ (fun _ => 0)]

/-- The body of `sfs_io` writing inside one block of the file: one
    `sfs_partialio`, the leading one or the trailing one. -/
theorem sfsIoBody_write_dropped (hv : fs.vnode? ino = some v) (hrw : uio.rw = .write)
    (hpos : 0 < uio.resid) (hlt : uio.resid < sfsBlocksize)
    (hin : uio.offset % sfsBlocksize + uio.resid ≤ sfsBlocksize)
    (hfb : uio.offset / sfsBlocksize < sfsNdirect + sfsDbperidb)
    (hm : fs.Mapped (fs.disk.bmap v.inode (uio.offset / sfsBlocksize)))
    (h0 : fs.disk.bmap v.inode (uio.offset / sfsBlocksize) ≠ 0) (hr : fs.ReadsWork)
    (hwf : fs.WritesFail) :
    IoUntouched (sfsIoBody ino) fs uio (uiomove (fun _ => 0) uio.resid uio).2 := by
  by_cases hoff : uio.offset % sfsBlocksize = 0
  · -- the start of a block: the trailing `sfs_partialio` only
    have hblocks : uio.resid / sfsBlocksize = 0 := Nat.div_eq_of_lt hlt
    obtain ⟨r, w, h⟩ := sfsPartialio_write_dropped 0 uio.resid hv hrw (by omega) hfb hm h0 hr hwf
    exact ⟨r, w, by
      simp [sfsIoBody, hoff, kassert, blockLoop, hblocks, Nat.pos_iff_ne_zero.1 hpos, hlt, hpos, h]⟩
  · -- the leading `sfs_partialio` takes it all
    have hlen : min (sfsBlocksize - uio.offset % sfsBlocksize) uio.resid = uio.resid := by omega
    obtain ⟨r, w, h⟩ := sfsPartialio_write_dropped (uio.offset % sfsBlocksize) uio.resid hv hrw
      (by omega) hfb hm h0 hr hwf
    exact ⟨r, w, by simp [sfsIoBody, hoff, hlen, bind_of_ok h]⟩

/-- `sfs_io` writing inside one block and inside the file: the device loses
    the write, and the end of the file stays where it was. -/
theorem sfsIo_write_dropped (hv : fs.vnode? ino = some v) (hrw : uio.rw = .write)
    (hpos : 0 < uio.resid) (hlt : uio.resid < sfsBlocksize)
    (hend : uio.offset + uio.resid ≤ v.inode.size)
    (hin : uio.offset % sfsBlocksize + uio.resid ≤ sfsBlocksize)
    (hfb : uio.offset / sfsBlocksize < sfsNdirect + sfsDbperidb)
    (hm : fs.Mapped (fs.disk.bmap v.inode (uio.offset / sfsBlocksize)))
    (h0 : fs.disk.bmap v.inode (uio.offset / sfsBlocksize) ≠ 0) (hr : fs.ReadsWork)
    (hwf : fs.WritesFail) :
    IoUntouched (sfsIo ino) fs uio (uiomove (fun _ => 0) uio.resid uio).2 := by
  obtain ⟨r, w, h⟩ := sfsIoBody_write_dropped hv hrw hpos hlt hin hfb hm h0 hr hwf
  have hv' : (fs.afterRequests r w).vnode? ino = some v := hv
  -- the write ends inside the file, so `out:` does not move its end
  have hout : ¬ v.inode.size < uio.offset + uio.resid := by omega
  refine ⟨r, w, ?_⟩
  obtain ⟨buf, pos, offset, resid, rw⟩ := uio
  subst hrw
  simp [sfsIo, liftFs_bind_of_ok (getInode_of hv), kassert, bind_of_ok (result_of_ok h),
    liftFs_bind_of_ok (getInode_of hv'), hout]
  ext <;> simp

end WritePath

/-- The directory `dir` is loaded as `v` and holds a whole number of slots
    within the largest file, every byte of it in a block of the disk: its
    slots can be read and written in place. -/
structure WritableDir (fs : Fs) (dir : Nat) (v : Vnode) : Prop where
  loaded : fs.vnode? dir = some v
  type : v.inode.type = .dir
  size_mod : v.inode.size % sfsDirSize = 0
  size_le : v.inode.size ≤ sfsMaxSize
  maps : fs.MapsFile v.inode
  no_hole : ∀ i < v.inode.size, fs.disk.bmap v.inode (i / sfsBlocksize) ≠ 0

/-- The search hands back the empty slot it started with when it saw none,
    and otherwise one it saw. -/
theorem findnameSlots_emptyslot {name : CStr} :
    ∀ (l : List (Option (Nat × CStr))) (i : Nat) (acc F : Found), findnameSlots name l i acc = some F →
      (F.emptyslot = acc.emptyslot ∧ none ∉ l) ∨
        ∃ s, F.emptyslot = some s ∧ i ≤ s ∧ s < i + l.length
  | [], _, acc, F, hF => by
    simp only [findnameSlots, Option.some.injEq] at hF
    exact .inl ⟨hF ▸ rfl, List.not_mem_nil⟩
  | none :: l, i, acc, F, hF => by
    -- this slot is empty: the search goes on with it
    rw [findnameSlots] at hF
    rcases findnameSlots_emptyslot l (i + 1) _ F hF with ⟨he, -⟩ | ⟨s, hs, his, hsl⟩
    · exact .inr ⟨i, he, le_rfl, by simp⟩
    · exact .inr ⟨s, hs, by omega, by simp; omega⟩
  | some (ino, n) :: l, i, acc, F, hF => by
    -- this slot is not empty: the empty slot carried on is the same
    obtain ⟨acc', hacc', hF'⟩ : ∃ acc' : Found, acc'.emptyslot = acc.emptyslot ∧
        findnameSlots name l (i + 1) acc' = some F := by
      rw [findnameSlots] at hF
      split_ifs at hF
      · exact ⟨{ acc with found := some (ino, i) }, rfl, hF⟩
      · exact ⟨acc, rfl, hF⟩
    rcases findnameSlots_emptyslot l (i + 1) acc' F hF' with ⟨he, hno⟩ | ⟨s, hs, his, hsl⟩
    · exact .inl ⟨he.trans hacc', by simpa using hno⟩
    · exact .inr ⟨s, hs, by omega, by simp; omega⟩

section Dropped

variable {fs : Fs} {dir : Nat} {v : Vnode}

/-- `sfs_writedir` of a slot inside the directory: the device loses the
    write. -/
theorem sfsWritedir_dropped {slot : Nat} (sd : Nat → UInt8) (hd : WritableDir fs dir v)
    (hslot : slot < v.inode.size / sfsDirSize) (hr : fs.ReadsWork) (hwf : fs.WritesFail) :
    Untouched (sfsWritedir dir slot sd) fs () := by
  have hend : slot * sfsDirSize + sfsDirSize ≤ v.inode.size := by
    unfold sfsDirSize sfsNamelen at *
    omega
  have hfb : slot * sfsDirSize / sfsBlocksize < sfsNdirect + sfsDbperidb := by
    have := hd.size_le
    unfold sfsMaxSize sfsDirSize sfsNamelen sfsBlocksize sfsNdirect sfsDbperidb at *
    omega
  have h0 := hd.no_hole (slot * sfsDirSize) (by unfold sfsDirSize at *; omega)
  obtain ⟨r, w, h⟩ : IoUntouched (sfsIo dir) fs (uioKinit sd sfsDirSize (slot * sfsDirSize) .write) _ :=
    sfsIo_write_dropped hd.loaded rfl (show 0 < sfsDirSize by decide)
      (show sfsDirSize < sfsBlocksize by decide) hend (slot_in_block slot) hfb (hd.maps _ hfb) h0 hr hwf
  have hrun : runIo (sfsIo dir) (uioKinit sd sfsDirSize (slot * sfsDirSize) .write) fs =
      some (.ok (uiomove (fun _ => 0) sfsDirSize (uioKinit sd sfsDirSize (slot * sfsDirSize) .write)).2,
        fs.afterRequests r w) := by
    rw [runIo, h]
    rfl
  refine ⟨r, w, ?_⟩
  rw [sfsWritedir, bind_of_ok hrun]
  simp [uioKinit]

/-- `sfs_dir_link` of a name in no slot, into an empty slot of the
    directory: the device loses the write of the slot. -/
theorem sfsDirLink_dropped {name : CStr} (ino : Nat) (hd : WritableDir fs dir v)
    (habsent : ∀ ino', some (ino', name) ∉ fs.disk.slots v.inode)
    (hempty : none ∈ fs.disk.slots v.inode) (hlen : name.bytes.length + 1 ≤ sfsNamelen)
    (hr : fs.ReadsWork) (hwf : fs.WritesFail) :
    ∃ slot, Untouched (sfsDirLink dir name ino) fs slot := by
  -- the search finds no such name, and an empty slot inside the directory
  obtain ⟨F, hF, hfound⟩ := findnameSlots_of_absent _ 0 ⟨none, none⟩ habsent
  obtain ⟨s, hs, -, hslt⟩ : ∃ s, F.emptyslot = some s ∧ 0 ≤ s ∧
      s < 0 + (fs.disk.slots v.inode).length := by
    rcases findnameSlots_emptyslot _ 0 _ F hF with ⟨-, hno⟩ | h
    · exact absurd hempty hno
    · exact h
  have hslot : s < v.inode.size / sfsDirSize := by simpa using hslt
  obtain ⟨r, w, hfind⟩ := Untouched.of_readsAs
    (sfsDirFindname_read hd.loaded hd.type hd.size_mod hd.size_le hd.maps hF) hr
  have hd' : WritableDir (fs.afterRequests r w) dir v :=
    ⟨hd.loaded, hd.type, hd.size_mod, hd.size_le, hd.maps, hd.no_hole⟩
  obtain ⟨r', w', hwrite⟩ := sfsWritedir_dropped (encodeDir ino name.bytes) hd' hslot
    (by simpa using hr) (by simpa using hwf)
  refine ⟨s, r', w', ?_⟩
  have hlen' : ¬ sfsNamelen < name.bytes.length + 1 := by omega
  simp [sfsDirLink, bind_of_ok hfind, hfound, hlen', hs, bind_of_ok hwrite]

/-- `sfs_link` after the device lost the write of the slot: the disk and
    every other inode are as they were, and the file's link count is raised
    all the same. -/
theorem sfsLink_dropped {name : CStr} (file : Nat) {vf : Vnode} (hd : WritableDir fs dir v)
    (hf : fs.vnode? file = some vf) (habsent : ∀ ino', some (ino', name) ∉ fs.disk.slots v.inode)
    (hempty : none ∈ fs.disk.slots v.inode) (hlen : name.bytes.length + 1 ≤ sfsNamelen)
    (hr : fs.ReadsWork) (hwf : fs.WritesFail) :
    ∃ fs', sfsLink dir name file fs = some (.ok (), fs') ∧ fs'.disk = fs.disk ∧
      (∀ ino ≠ file, fs'.inodeOf ino = fs.inodeOf ino) ∧
      fs'.inodeOf file = { vf.inode with linkcount := vf.inode.linkcount + 1 } := by
  obtain ⟨s, r, w, h⟩ := sfsDirLink_dropped file hd habsent hempty hlen hr hwf
  -- `sfs_link` raises the count in the vnode, which keeps its inode number
  have hid : ∀ f : Vnode,
      ({ f with inode := { f.inode with linkcount := f.inode.linkcount + 1 }, dirty := true } : Vnode).ino =
        f.ino := fun _ => rfl
  have hlink : sfsLink dir name file fs = some (.ok (), (fs.afterRequests r w).updateVnode file fun f =>
      { f with inode := { f.inode with linkcount := f.inode.linkcount + 1 }, dirty := true }) := by
    simp [sfsLink, bind_of_ok h, setLinkcount, modifyInode]
  refine ⟨_, hlink, rfl, ?_, ?_⟩
  · intro ino hne
    simp [Fs.inodeOf, Fs.vnode?_updateVnode_ne hid hne]
  · simp [Fs.inodeOf, Fs.vnode?_updateVnode_self hid, hf]

end Dropped

/-- The number of slots naming the inode `ino`. -/
def linksTo (slots : List (Option (Nat × CStr))) (ino : Nat) : Nat :=
  slots.countP fun s => s.map Prod.fst == some ino

/-- What the name operations of sfs_vnode.c are to keep of the directory
    `dir`, as the disk holds it. -/
structure DirInv (fs : Fs) (dir : Nat) : Prop where
  /-- No two non-empty slots carry one name. -/
  names_nodup : ((fs.disk.slots (fs.inodeOf dir)).filterMap fun s => s.map Prod.snd).Nodup
  /-- The link count of every file is the number of slots naming it. -/
  links : ∀ ino, (fs.inodeOf ino).type = .file →
    (fs.inodeOf ino).linkcount = linksTo (fs.disk.slots (fs.inodeOf dir)) ino

section Link

variable {fs : Fs} {dir : Nat} {v : Vnode}

/-- From every volume where `DirInv` holds, on a device that answers reads
    and fails every write, `sfs_link` of a new name to a loaded file, with an
    empty slot in the directory to take it, returns `0` and leaves the file's
    link count one above the slots naming it: `DirInv` is lost. -/
theorem sfs_link_breaks_link_counts {name : CStr} {file : Nat} {vf : Vnode} (hinv : DirInv fs dir)
    (hd : WritableDir fs dir v) (hf : fs.vnode? file = some vf) (hfile : vf.inode.type = .file)
    (habsent : ∀ ino, some (ino, name) ∉ fs.disk.slots v.inode)
    (hempty : none ∈ fs.disk.slots v.inode) (hlen : name.bytes.length + 1 ≤ sfsNamelen)
    (hr : fs.ReadsWork) (hwf : fs.WritesFail) :
    ∃ fs', sfsLink dir name file fs = some (.ok (), fs') ∧
      (fs'.inodeOf file).linkcount = linksTo (fs'.disk.slots (fs'.inodeOf dir)) file + 1 ∧
      ¬ DirInv fs' dir := by
  -- the file is not the directory, whose type differs
  have hne : dir ≠ file := by
    rintro rfl
    rw [hd.loaded, Option.some.injEq] at hf
    rw [← hf, hd.type] at hfile
    cases hfile
  have hdir : fs.inodeOf dir = v.inode := by simp [Fs.inodeOf, hd.loaded]
  have hfile₀ : fs.inodeOf file = vf.inode := by simp [Fs.inodeOf, hf]
  -- before the link, the file's count was the number of slots naming it
  have hcount : vf.inode.linkcount = linksTo (fs.disk.slots v.inode) file := by
    have h := hinv.links file (by rw [hfile₀]; exact hfile)
    rwa [hfile₀, hdir] at h
  obtain ⟨fs', h, hdisk, hframe, hfile'⟩ := sfsLink_dropped file hd hf habsent hempty hlen hr hwf
  have hafter : (fs'.inodeOf file).linkcount = linksTo (fs'.disk.slots (fs'.inodeOf dir)) file + 1 := by
    rw [hfile', hframe dir hne, hdir, hdisk, ← hcount]
  refine ⟨fs', h, hafter, fun hinv' => ?_⟩
  have h' := hinv'.links file (by rw [hfile']; exact hfile)
  omega

/-- The root directory of `lostLinkFs`: two slots, in block 3. -/
def twoSlotRoot : Inode := ⟨2 * sfsDirSize, .dir, 1, fun i => if i = 0 then 3 else 0, 0⟩

/-- A volume of eight blocks whose root directory (inode 1, `twoSlotRoot`)
    names the file `a`, inode 5 with one link, and has an empty slot after
    it; both vnodes are loaded, and the device answers every read and fails
    every write. -/
def lostLinkFs : Fs where
  nblocks := 8
  freemap := ⟨8, fun ix => if ix = 0 then 0x2f else 0⟩
  disk := ⟨fun b i => if b = 3 ∧ i < sfsDirSize then encodeDir 5 [0x61] i else 0, fun _ => Inode.zero,
    fun _ _ => 0⟩
  env := ⟨fun _ => false, 0, fun _ => true, 0, fun _ => false, 0⟩
  vnodes := [⟨1, twoSlotRoot, false, 1⟩, ⟨5, ⟨0, .file, 1, fun _ => 0, 0⟩, false, 1⟩]
  vnodesMax := 4

/-- The bytes of the first block of the root, by slot: slot 0 is the entry
    of `a`, and the rest of the block zeros. -/
theorem lostLinkFs_slotBytes (s : Nat) {i : Nat} (hs : s < 2) (hi : i < sfsDirSize) :
    lostLinkFs.disk.slotBytes twoSlotRoot s i = if s = 0 then encodeDir 5 [0x61] i else 0 := by
  have hdiv : (s * sfsDirSize + i) / sfsBlocksize = 0 := by
    unfold sfsDirSize sfsNamelen sfsBlocksize at *
    omega
  have hmod : (s * sfsDirSize + i) % sfsBlocksize = s * sfsDirSize + i := by
    unfold sfsDirSize sfsNamelen sfsBlocksize at *
    omega
  simp only [Disk.slotBytes, if_pos hi, Disk.fileByte, Disk.fileBlock, Disk.bmap, hdiv, hmod]
  interval_cases s
  · simp [lostLinkFs, twoSlotRoot, sfsNdirect, hi]
  · simp [lostLinkFs, twoSlotRoot, sfsNdirect]

theorem lostLinkFs_slots :
    lostLinkFs.disk.slots twoSlotRoot = [some (5, ⟨[0x61], by decide⟩), none] := by
  have h0 : decodeSlot (lostLinkFs.disk.slotBytes twoSlotRoot 0) = some (5, ⟨[0x61], by decide⟩) :=
    (decodeSlot_congr fun i hi => by rw [lostLinkFs_slotBytes 0 (by decide) hi, if_pos rfl]).trans
      (decodeSlot_encodeDir (by decide) (by decide) (by decide) (by decide))
  have h1 : decodeSlot (lostLinkFs.disk.slotBytes twoSlotRoot 1) = none :=
    (decodeSlot_congr fun i hi => by rw [lostLinkFs_slotBytes 1 (by decide) hi, if_neg one_ne_zero]).trans
      decodeSlot_zero
  rw [Disk.slots, show twoSlotRoot.size / sfsDirSize = 2 from rfl]
  simp [List.range_succ, h0, h1]

theorem lostLinkFs_inodeOf {ino : Nat} (h1 : ino ≠ 1) (h5 : ino ≠ 5) :
    lostLinkFs.inodeOf ino = Inode.zero := by
  have hnone : lostLinkFs.vnode? ino = none := by
    rw [Fs.vnode?, List.find?_eq_none]
    simp [lostLinkFs, Ne.symm h1, Ne.symm h5]
  rw [Fs.inodeOf, hnone]
  rfl

theorem dirInv_lostLinkFs : DirInv lostLinkFs 1 where
  names_nodup := by
    rw [show lostLinkFs.inodeOf 1 = twoSlotRoot from rfl, lostLinkFs_slots]
    decide
  links := by
    intro ino h
    rw [show lostLinkFs.inodeOf 1 = twoSlotRoot from rfl, lostLinkFs_slots]
    by_cases h5 : ino = 5
    · subst h5
      rfl
    · by_cases h1 : ino = 1
      · subst h1
        exact absurd h (by decide)
      · rw [lostLinkFs_inodeOf h1 h5] at h
        cases h

theorem writableDir_lostLinkFs : WritableDir lostLinkFs 1 ⟨1, twoSlotRoot, false, 1⟩ where
  loaded := rfl
  type := rfl
  size_mod := by decide
  size_le := by decide
  maps := by
    unfold Fs.MapsFile Fs.Mapped
    decide
  no_hole := by decide

/-- On `lostLinkFs`, `sfs_link` of the name `b` to the file `a` returns `0`
    with the file at two links and one slot naming it. -/
theorem lostLinkFs_link_breaks :
    DirInv lostLinkFs 1 ∧ ∃ fs', sfsLink 1 ⟨[0x62], by decide⟩ 5 lostLinkFs = some (.ok (), fs') ∧
      (fs'.inodeOf 5).linkcount = linksTo (fs'.disk.slots (fs'.inodeOf 1)) 5 + 1 ∧ ¬ DirInv fs' 1 :=
  ⟨dirInv_lostLinkFs, sfs_link_breaks_link_counts dirInv_lostLinkFs writableDir_lostLinkFs rfl rfl
    (by rw [lostLinkFs_slots]; simp) (by rw [lostLinkFs_slots]; simp) (by decide) (fun _ => rfl)
    (fun _ => rfl)⟩

end Link

end Os161.Sfs
