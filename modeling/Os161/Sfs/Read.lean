import Os161.Sfs.Io

/-!
# Reads of a file

What a read through `sfs_io` returns: the bytes the disk holds for the file,
zeros in its holes, or `EIO` when the device failed a request ten retries
over. The disk's view of a file is `Disk.bmap` (the block `sfs_bmap` finds for
a block of the file without allocating) and `Disk.fileByte`.

`ReadsAs m fs a` says that `m` run from `fs` changes nothing but the number of
read requests made and gives `a`, or `EIO` if the device fails on the way;
`ReadsAs.bind` chains such steps. The lemmas run the read path forward, one
per function of it, each from the one below: `sfsBmap_read`,
`sfsPartialio_read`, `sfsBlockio_read`, then `sfsIo_read_block` for a read
inside one block of the file and `readFile_block` for the read of `n` bytes at
`off` on a device that answers.
-/

namespace Os161.Sfs

open KernM

namespace Disk

/-- The disk block holding block `fb` of the file with inode `inode`, `0` for a
    hole: what `sfs_bmap` finds without allocating, below `EFBIG`. -/
def bmap (d : Disk) (inode : Inode) (fb : Nat) : Nat :=
  if fb < sfsNdirect then inode.direct fb
  else if inode.indirect = 0 then 0
  else d.entries inode.indirect (fb - sfsNdirect)

/-- The bytes of block `fb` of the file, zeros for a hole. -/
def fileBlock (d : Disk) (inode : Inode) (fb : Nat) : Nat → UInt8 :=
  if d.bmap inode fb = 0 then fun _ => 0 else d.data (d.bmap inode fb)

/-- The byte `i` of the file with inode `inode`. -/
def fileByte (d : Disk) (inode : Inode) (i : Nat) : UInt8 :=
  d.fileBlock inode (i / sfsBlocksize) (i % sfsBlocksize)

end Disk

/-- A block that `sfs_bmap` may hand back without a panic: a hole, or a block
    of the volume marked in the freemap. -/
def Fs.Mapped (fs : Fs) (b : Nat) : Prop := b ≠ 0 → b < fs.nblocks ∧ fs.freemap.isset b = true

@[simp] theorem Fs.mapped_setEnv (fs : Fs) (e : Env) : ({ fs with env := e } : Fs).Mapped = fs.Mapped :=
  rfl

namespace Fs

/-- The device answers every read request. -/
def ReadsWork (fs : Fs) : Prop := ∀ n, fs.env.readFail n = false

/-- The volume after `n` read requests in all. -/
def afterReads (fs : Fs) (n : Nat) : Fs := { fs with env := { fs.env with reads := n } }

variable (fs : Fs) (n m : Nat)

@[simp] theorem afterReads_nblocks : (fs.afterReads n).nblocks = fs.nblocks := rfl

@[simp] theorem afterReads_freemap : (fs.afterReads n).freemap = fs.freemap := rfl

@[simp] theorem afterReads_disk : (fs.afterReads n).disk = fs.disk := rfl

@[simp] theorem afterReads_vnodes : (fs.afterReads n).vnodes = fs.vnodes := rfl

@[simp] theorem afterReads_readFail : (fs.afterReads n).env.readFail = fs.env.readFail := rfl

@[simp] theorem afterReads_reads : (fs.afterReads n).env.reads = n := rfl

@[simp] theorem afterReads_afterReads : (fs.afterReads n).afterReads m = fs.afterReads m := rfl

@[simp] theorem afterReads_self : fs.afterReads fs.env.reads = fs := rfl

@[simp] theorem vnode?_afterReads : (fs.afterReads n).vnode? = fs.vnode? := rfl

@[simp] theorem mapped_afterReads : (fs.afterReads n).Mapped = fs.Mapped := rfl

@[simp] theorem readsWork_afterReads : (fs.afterReads n).ReadsWork ↔ fs.ReadsWork := Iff.rfl

end Fs

/-- The outcomes of a read meant to give `a`: `a`, or `EIO` when the device
    failed on the way. -/
def ReadOk {α : Type} (fs : Fs) (a : α) (o : Except Errno α) : Prop :=
  o = .ok a ∨ (o = .error .eio ∧ ¬ fs.ReadsWork)

/-- From `fs`, `m` changes nothing but the number of read requests made, and
    gives `a` or `EIO`. -/
def ReadsAs {α : Type} (m : SfsM α) (fs : Fs) (a : α) : Prop :=
  ∃ k o, m fs = some (o, fs.afterReads k) ∧ ReadOk fs a o

/-- From `(fs, uio)`, the I/O `m` changes nothing but the number of read
    requests made and leaves the `uio` as `uio'`; or it returns `EIO` with the
    `uio` as it was. -/
def IoReadsAs (m : IoM Unit) (fs : Fs) (uio uio' : Uio) : Prop :=
  ∃ k, m (fs, uio) = some (.ok (), (fs.afterReads k, uio')) ∨
    (m (fs, uio) = some (.error .eio, (fs.afterReads k, uio)) ∧ ¬ fs.ReadsWork)

section ReadsAs

variable {α β : Type} {fs : Fs} {m : SfsM α} {a : α}

@[simp] theorem readOk_afterReads (n : Nat) (o : Except Errno α) :
    ReadOk (fs.afterReads n) a o ↔ ReadOk fs a o := Iff.rfl

/-- On a device that answers, a read gives its value. -/
theorem ReadsAs.run (h : ReadsAs m fs a) (hw : fs.ReadsWork) :
    ∃ k, m fs = some (.ok a, fs.afterReads k) := by
  obtain ⟨k, o, hm, rfl | ⟨-, hbad⟩⟩ := h
  · exact ⟨k, hm⟩
  · exact absurd hw hbad

theorem ReadsAs.of_eq (h : m fs = some (.ok a, fs)) : ReadsAs m fs a :=
  ⟨fs.env.reads, .ok a, by rwa [Fs.afterReads_self], .inl rfl⟩

theorem ReadsAs.of_run_eq {m' : SfsM α} (h : m fs = m' fs) (h' : ReadsAs m' fs a) : ReadsAs m fs a := by
  rwa [ReadsAs, h]

/-- Reads in sequence. -/
theorem ReadsAs.bind {f : α → SfsM β} {b : β} (hm : ReadsAs m fs a)
    (hf : ∀ k, ReadsAs (f a) (fs.afterReads k) b) : ReadsAs (m >>= f) fs b := by
  obtain ⟨k, o, h, rfl | ⟨rfl, hbad⟩⟩ := hm
  · obtain ⟨k', o', h', ho'⟩ := hf k
    exact ⟨k', o', by rw [bind_of_ok h, h', Fs.afterReads_afterReads], ho'⟩
  · exact ⟨k, .error .eio, bind_of_error h f, .inr ⟨rfl, hbad⟩⟩

/-- A read of the volume during an I/O, then the rest of the I/O. -/
theorem ReadsAs.liftFs_bind {f : α → IoM Unit} {uio uio' : Uio} (hm : ReadsAs m fs a)
    (hf : ∀ k, IoReadsAs (f a) (fs.afterReads k) uio uio') : IoReadsAs (liftFs m >>= f) fs uio uio' := by
  obtain ⟨k, o, h, rfl | ⟨rfl, hbad⟩⟩ := hm
  · obtain ⟨k', h'⟩ := hf k
    refine ⟨k', ?_⟩
    rw [liftFs_bind_of_ok h, Fs.afterReads_afterReads] at *
    exact h'
  · exact ⟨k, .inr ⟨bind_of_error (onFst_of_error h uio) f, hbad⟩⟩

theorem IoReadsAs.of_eq {io : IoM Unit} {uio uio' : Uio} (h : io (fs, uio) = some (.ok (), (fs, uio'))) :
    IoReadsAs io fs uio uio' :=
  ⟨fs.env.reads, .inl (by rwa [Fs.afterReads_self])⟩

end ReadsAs

@[simp] theorem Fs.mapped_updateVnode (fs : Fs) (ino : Nat) (f : Vnode → Vnode) :
    (fs.updateVnode ino f).Mapped = fs.Mapped := rfl

section ReadPath

variable {fs : Fs} {ino : Nat} {v : Vnode}

theorem getInode_of (hv : fs.vnode? ino = some v) : getInode ino fs = some (.ok v.inode, fs) := by
  simp [getInode, hv]

/-- The retries of a read: a success, or `EIO` after the device failed. -/
theorem readRetry_readsAs : ∀ (n : Nat) (fs : Fs), ReadsAs (readRetry (n + 1)) fs ()
  | n, fs => by
    by_cases hf : fs.env.readFail fs.env.reads = true
    · cases n with
      | zero =>
        -- the last request failed too
        refine ⟨fs.env.reads + 1, .error .eio, ?_, .inr ⟨rfl, fun hw => by rw [hw] at hf; cases hf⟩⟩
        simp [readRetry, readRequest, hf, Fs.afterReads]
      | succ n =>
        obtain ⟨k, o, h, ho⟩ := readRetry_readsAs n (fs.afterReads (fs.env.reads + 1))
        refine ⟨k, o, ?_, ho⟩
        rw [← Fs.afterReads_afterReads fs (fs.env.reads + 1) k, ← h]
        simp [readRetry, readRequest, hf, Fs.afterReads]
    · exact ⟨fs.env.reads + 1, .ok (), by simp [readRetry, readRequest, hf, Fs.afterReads], .inl rfl⟩

theorem sfsRead_readsAs (fs : Fs) : ReadsAs sfsRead fs () := readRetry_readsAs 10 fs

/-- A device that fails each of the next `n` requests: `EIO` after them. -/
theorem readRetry_of_failing : ∀ (n : Nat) (fs : Fs),
    (∀ k < n, fs.env.readFail (fs.env.reads + k) = true) →
      readRetry n fs = some (.error .eio, fs.afterReads (fs.env.reads + n))
  | 0, fs, _ => rfl
  | n + 1, fs, h => by
    have hf : fs.env.readFail fs.env.reads = true := h 0 (Nat.succ_pos n)
    -- the retries start one request later
    have hrest := readRetry_of_failing n (fs.afterReads (fs.env.reads + 1)) fun k hk => by
      simpa [Nat.add_assoc, Nat.add_comm 1 k] using h (k + 1) (by omega)
    have hreq : readRequest fs = some (.ok true, fs.afterReads (fs.env.reads + 1)) := by
      simp [readRequest, hf, Fs.afterReads]
    rw [readRetry, bind_of_ok hreq, if_pos rfl, hrest]
    simp [Nat.add_assoc, Nat.add_comm 1 n]

theorem sfsRblockEntries_of_failing {fs : Fs} (b : Nat)
    (h : ∀ k < 11, fs.env.readFail (fs.env.reads + k) = true) :
    sfsRblockEntries b fs = some (.error .eio, fs.afterReads (fs.env.reads + 11)) :=
  bind_of_error (readRetry_of_failing 11 fs h) _

theorem sfsRblockData_readsAs (fs : Fs) (b : Nat) : ReadsAs (sfsRblockData b) fs (fs.disk.data b) :=
  (sfsRead_readsAs fs).bind fun k => .of_eq (by simp [Fs.afterReads])

theorem sfsRblockEntries_readsAs (fs : Fs) (b : Nat) :
    ReadsAs (sfsRblockEntries b) fs (fs.disk.entries b) :=
  (sfsRead_readsAs fs).bind fun k => .of_eq (by simp [Fs.afterReads])

theorem sfsRblockInode_readsAs (fs : Fs) (b : Nat) : ReadsAs (sfsRblockInode b) fs (fs.disk.inode b) :=
  (sfsRead_readsAs fs).bind fun k => .of_eq (by simp [Fs.afterReads])

theorem checkUsed_of {b : Nat} (h : fs.Mapped b) : checkUsed b fs = some (.ok (), fs) := by
  by_cases hb : b = 0
  · simp [checkUsed, hb]
  · obtain ⟨hlt, hset⟩ := h hb
    simp [checkUsed, hb, sfsBused, Nat.not_le.2 hlt, hset]

/-- `sfs_bmap` fails with `EFBIG` past the indirect block, changing nothing. -/
theorem sfsBmap_efbig {fb : Nat} (hv : fs.vnode? ino = some v) (hfb : sfsNdirect + sfsDbperidb ≤ fb)
    (doalloc : Bool) : sfsBmap ino fb doalloc fs = some (.error .efbig, fs) := by
  have hd : ¬ fb < sfsNdirect := by unfold sfsNdirect sfsDbperidb at *; omega
  have hidnum : (fb - sfsNdirect) / sfsDbperidb > 0 := by
    unfold sfsNdirect sfsDbperidb at *
    omega
  simp [sfsBmap, bind_of_ok (getInode_of hv), hd, hidnum]

/-- `sfs_bmap` without allocation finds `Disk.bmap`, reading the indirect block
    when it needs it. -/
theorem sfsBmap_read {fb : Nat} (hv : fs.vnode? ino = some v) (hfb : fb < sfsNdirect + sfsDbperidb)
    (hm : fs.Mapped (fs.disk.bmap v.inode fb)) :
    ReadsAs (sfsBmap ino fb false) fs (fs.disk.bmap v.inode fb) := by
  by_cases hd : fb < sfsNdirect
  · -- a direct block: no read
    have hm' : fs.Mapped (v.inode.direct fb) := by simpa [Disk.bmap, hd] using hm
    exact .of_eq (by
      simp [sfsBmap, bind_of_ok (getInode_of hv), hd, bind_of_ok (checkUsed_of hm'), Disk.bmap])
  · have hidnum : (fb - sfsNdirect) / sfsDbperidb = 0 := by
      unfold sfsNdirect sfsDbperidb at *
      omega
    by_cases hi : v.inode.indirect = 0
    · exact .of_eq (by simp [sfsBmap, bind_of_ok (getInode_of hv), hd, hidnum, hi, Disk.bmap])
    · -- an entry of the indirect block, read once
      have hm' : fs.Mapped (fs.disk.entries v.inode.indirect (fb - sfsNdirect)) := by
        simpa [Disk.bmap, hd, hi] using hm
      have hmod : (fb - sfsNdirect) % sfsDbperidb = fb - sfsNdirect := by
        unfold sfsNdirect sfsDbperidb at *
        omega
      have hrun : sfsBmap ino fb false fs = (sfsRblockEntries v.inode.indirect >>= fun idbuf =>
          checkUsed (idbuf (fb - sfsNdirect)) >>= fun _ => pure (idbuf (fb - sfsNdirect))) fs := by
        simp [sfsBmap, bind_of_ok (getInode_of hv), hd, hidnum, hi, hmod]
      refine ReadsAs.of_run_eq hrun ((sfsRblockEntries_readsAs fs _).bind fun k => .of_eq ?_)
      simp [bind_of_ok (checkUsed_of (show (fs.afterReads k).Mapped _ from hm')), Disk.bmap, hd, hi]

variable {uio : Uio}

/-- The block index of an offset inside the largest file fits its `uint32_t`. -/
theorem fileblockOf_of_lt {off : Nat} (hfb : off / sfsBlocksize < sfsNdirect + sfsDbperidb) :
    fileblockOf off = off / sfsBlocksize :=
  Nat.mod_eq_of_lt (lt_of_lt_of_le hfb (by decide))

/-- `sfs_partialio` reading moves bytes of the file's block into the `uio`. -/
theorem sfsPartialio_read (skipstart len : Nat) (hv : fs.vnode? ino = some v)
    (hrw : uio.rw = .read) (hk : skipstart + len ≤ sfsBlocksize)
    (hfb : uio.offset / sfsBlocksize < sfsNdirect + sfsDbperidb)
    (hm : fs.Mapped (fs.disk.bmap v.inode (uio.offset / sfsBlocksize))) :
    IoReadsAs (sfsPartialio ino skipstart len) fs uio
      (uiomove (fun i => fs.disk.fileBlock v.inode (uio.offset / sfsBlocksize) (skipstart + i))
        len uio).2 := by
  have hmod := fileblockOf_of_lt hfb
  obtain ⟨k, o, hb, rfl | ⟨rfl, hbad⟩⟩ := sfsBmap_read hv hfb hm
  · by_cases h0 : fs.disk.bmap v.inode (uio.offset / sfsBlocksize) = 0
    · -- a hole reads as zeros, with no request
      exact ⟨k, .inl (by
        simp [sfsPartialio, hmod, kassert, hk, hrw, liftFs_bind_of_ok hb, h0, Disk.fileBlock])⟩
    · obtain ⟨k', o', hd, rfl | ⟨rfl, hbad⟩⟩ := sfsRblockData_readsAs (fs.afterReads k)
        (fs.disk.bmap v.inode (uio.offset / sfsBlocksize))
      · exact ⟨k', .inl (by
          simp [sfsPartialio, hmod, kassert, hk, hrw, liftFs_bind_of_ok hb, h0, Disk.fileBlock,
            liftFs_bind_of_ok hd])⟩
      · exact ⟨k', .inr ⟨by
          simp [sfsPartialio, hmod, kassert, hk, hrw, liftFs_bind_of_ok hb, h0, liftFs_bind_of_error hd],
          hbad⟩⟩
  · exact ⟨k, .inr ⟨by simp [sfsPartialio, hmod, kassert, hk, hrw, liftFs_bind_of_error hb], hbad⟩⟩

/-- `sfs_blockio` reading moves the file's whole block into the `uio`. -/
theorem sfsBlockio_read (hv : fs.vnode? ino = some v) (hrw : uio.rw = .read)
    (hres : sfsBlocksize ≤ uio.resid) (hfb : uio.offset / sfsBlocksize < sfsNdirect + sfsDbperidb)
    (hm : fs.Mapped (fs.disk.bmap v.inode (uio.offset / sfsBlocksize))) :
    IoReadsAs (sfsBlockio ino) fs uio
      (uiomove (fs.disk.fileBlock v.inode (uio.offset / sfsBlocksize)) sfsBlocksize uio).2 := by
  have hmod := fileblockOf_of_lt hfb
  obtain ⟨k, o, hb, rfl | ⟨rfl, hbad⟩⟩ := sfsBmap_read hv hfb hm
  · by_cases h0 : fs.disk.bmap v.inode (uio.offset / sfsBlocksize) = 0
    · exact ⟨k, .inl (by
        simp [sfsBlockio, hmod, hrw, liftFs_bind_of_ok hb, h0, kassert, Disk.fileBlock,
          uiomovezeros_of_read hrw])⟩
    · obtain ⟨k', o', hd, rfl | ⟨rfl, hbad⟩⟩ := sfsRead_readsAs (fs.afterReads k)
      · exact ⟨k', .inl (by
          simp [sfsBlockio, hmod, hrw, liftFs_bind_of_ok hb, h0, kassert, hres, Disk.fileBlock, rwblockUio,
            liftFs_bind_of_ok hd])⟩
      · exact ⟨k', .inr ⟨by
          simp [sfsBlockio, hmod, hrw, liftFs_bind_of_ok hb, h0, kassert, hres, rwblockUio,
            liftFs_bind_of_error hd], hbad⟩⟩
  · exact ⟨k, .inr ⟨by simp [sfsBlockio, hmod, hrw, liftFs_bind_of_error hb], hbad⟩⟩

/-- The body of `sfs_io` reading inside one block of the file. -/
theorem sfsIoBody_read_block (hv : fs.vnode? ino = some v) (hrw : uio.rw = .read)
    (hpos : 0 < uio.resid) (hin : uio.offset % sfsBlocksize + uio.resid ≤ sfsBlocksize)
    (hfb : uio.offset / sfsBlocksize < sfsNdirect + sfsDbperidb)
    (hm : fs.Mapped (fs.disk.bmap v.inode (uio.offset / sfsBlocksize))) :
    IoReadsAs (sfsIoBody ino) fs uio
      (uiomove (fun i => fs.disk.fileBlock v.inode (uio.offset / sfsBlocksize)
        (uio.offset % sfsBlocksize + i)) uio.resid uio).2 := by
  by_cases hoff : uio.offset % sfsBlocksize = 0
  · by_cases hwhole : uio.resid = sfsBlocksize
    · -- the whole block, through `sfs_blockio`
      have hbs : 0 < sfsBlocksize := by decide
      obtain ⟨k, h | ⟨h, hbad⟩⟩ := sfsBlockio_read hv hrw (by omega) hfb hm
      · exact ⟨k, .inl (by
          simp [sfsIoBody, hoff, hwhole, kassert, Nat.div_self hbs, hbs, Nat.pos_iff_ne_zero.1 hbs,
            blockLoop, bind_of_ok h])⟩
      · exact ⟨k, .inr ⟨by
          simp [sfsIoBody, hoff, hwhole, kassert, Nat.div_self hbs, Nat.pos_iff_ne_zero.1 hbs,
            blockLoop, bind_of_error h], hbad⟩⟩
    · -- the start of a block: the trailing `sfs_partialio` only
      have hblocks : uio.resid / sfsBlocksize = 0 := by
        unfold sfsBlocksize at *
        omega
      have hlt : uio.resid < sfsBlocksize := by omega
      obtain ⟨k, h | ⟨h, hbad⟩⟩ := sfsPartialio_read 0 uio.resid hv hrw (by omega) hfb hm
      · exact ⟨k, .inl (by
          simp [sfsIoBody, hoff, kassert, blockLoop, hblocks, Nat.pos_iff_ne_zero.1 hpos, hlt, hpos, h])⟩
      · exact ⟨k, .inr ⟨by
          simp [sfsIoBody, hoff, kassert, blockLoop, hblocks, Nat.pos_iff_ne_zero.1 hpos, hlt, hpos, h],
          hbad⟩⟩
  · -- the leading `sfs_partialio` takes it all
    have hlen : min (sfsBlocksize - uio.offset % sfsBlocksize) uio.resid = uio.resid := by omega
    obtain ⟨k, h | ⟨h, hbad⟩⟩ := sfsPartialio_read (uio.offset % sfsBlocksize) uio.resid hv hrw
      (by omega) hfb hm
    · exact ⟨k, .inl (by simp [sfsIoBody, hoff, hlen, bind_of_ok h])⟩
    · exact ⟨k, .inr ⟨by simp [sfsIoBody, hoff, hlen, bind_of_error h], hbad⟩⟩

/-- `sfs_io` reading inside one block and inside the file moves the file's
    bytes into the `uio`. -/
theorem sfsIo_read_block (hv : fs.vnode? ino = some v) (hrw : uio.rw = .read)
    (hpos : 0 < uio.resid) (hend : uio.offset + uio.resid ≤ v.inode.size)
    (hin : uio.offset % sfsBlocksize + uio.resid ≤ sfsBlocksize)
    (hfb : uio.offset / sfsBlocksize < sfsNdirect + sfsDbperidb)
    (hm : fs.Mapped (fs.disk.bmap v.inode (uio.offset / sfsBlocksize))) :
    IoReadsAs (sfsIo ino) fs uio
      (uiomove (fun i => fs.disk.fileBlock v.inode (uio.offset / sfsBlocksize)
        (uio.offset % sfsBlocksize + i)) uio.resid uio).2 := by
  have hnoteof : ¬ v.inode.size ≤ uio.offset := by omega
  have hnocut : ¬ v.inode.size < uio.offset + uio.resid := by omega
  obtain ⟨k, h | ⟨h, hbad⟩⟩ := sfsIoBody_read_block hv hrw hpos hin hfb hm
  all_goals
    refine ⟨k, ?_⟩
    obtain ⟨buf, pos, offset, resid, rw⟩ := uio
    subst hrw
    have hv' : (fs.afterReads k).vnode? ino = some v := hv
  · refine .inl ?_
    simp [sfsIo, liftFs_bind_of_ok (getInode_of hv), kassert, hnoteof, hnocut,
      bind_of_ok (result_of_ok h), liftFs_bind_of_ok (getInode_of hv')]
    -- the residue given back at `out:` is none, so the `uio` is the body's
    ext <;> simp
  · refine .inr ⟨?_, hbad⟩
    simp [sfsIo, liftFs_bind_of_ok (getInode_of hv), kassert, hnoteof, hnocut,
      bind_of_ok (result_of_error h), liftFs_bind_of_ok (getInode_of hv')]

/-- Within one block, byte `i` of the block of byte `off` is byte `off + i` of
    the file. -/
theorem fileBlock_eq_fileByte (d : Disk) (inode : Inode) {off i : Nat}
    (h : off % sfsBlocksize + i < sfsBlocksize) :
    d.fileBlock inode (off / sfsBlocksize) (off % sfsBlocksize + i) = d.fileByte inode (off + i) := by
  have hdiv : (off + i) / sfsBlocksize = off / sfsBlocksize := by
    unfold sfsBlocksize at *
    omega
  have hmod : (off + i) % sfsBlocksize = off % sfsBlocksize + i := by
    unfold sfsBlocksize at *
    omega
  rw [Disk.fileByte, hdiv, hmod]

/-- A fresh `uio` that read `n` bytes at `off` inside one block holds the
    file's bytes. -/
theorem uiomove_kinit_read (d : Disk) (inode : Inode) (z : Nat → UInt8) {off n : Nat}
    (hin : off % sfsBlocksize + n ≤ sfsBlocksize) :
    (uiomove (fun i => d.fileBlock inode (off / sfsBlocksize) (off % sfsBlocksize + i)) n
      (uioKinit z n off .read)).2 =
      ⟨fun i => if i < n then d.fileByte inode (off + i) else z i, n, off + n, 0, .read⟩ := by
  refine Uio.ext ?_ ?_ ?_ ?_ ?_
  · funext i
    rw [uiomove_buf_of_read _ _ _ rfl]
    simp only [uioKinit, Nat.zero_le, true_and, zero_add, min_self, Nat.sub_zero]
    split_ifs with hi
    · exact fileBlock_eq_fileByte _ _ (by omega)
    · rfl
  all_goals simp [uioKinit]

/-- `sfs_io` reading `n` bytes at `off` inside one block and inside the file,
    through a fresh `uio`, leaves the file's bytes in its buffer. -/
theorem sfsIo_read_kinit {off n : Nat} (z : Nat → UInt8) (hv : fs.vnode? ino = some v) (hpos : 0 < n)
    (hend : off + n ≤ v.inode.size) (hin : off % sfsBlocksize + n ≤ sfsBlocksize)
    (hfb : off / sfsBlocksize < sfsNdirect + sfsDbperidb)
    (hm : fs.Mapped (fs.disk.bmap v.inode (off / sfsBlocksize))) :
    IoReadsAs (sfsIo ino) fs (uioKinit z n off .read)
      ⟨fun i => if i < n then fs.disk.fileByte v.inode (off + i) else z i, n, off + n, 0, .read⟩ := by
  rw [← uiomove_kinit_read _ _ _ hin]
  exact sfsIo_read_block hv rfl hpos hend hin hfb hm

/-- A read of `n` bytes inside one block and inside the file, on a device that
    answers, returns the file's bytes and leaves no residue. -/
theorem readFile_block {off n : Nat} (hv : fs.vnode? ino = some v) (hpos : 0 < n)
    (hend : off + n ≤ v.inode.size) (hin : off % sfsBlocksize + n ≤ sfsBlocksize)
    (hfb : off / sfsBlocksize < sfsNdirect + sfsDbperidb)
    (hm : fs.Mapped (fs.disk.bmap v.inode (off / sfsBlocksize))) (hw : fs.ReadsWork) :
    ∃ m, readFile ino off n fs =
      some (.ok (fun i => if i < n then fs.disk.fileByte v.inode (off + i) else 0, 0),
        fs.afterReads m) := by
  have hrw : (uioKinit (fun _ => 0) n off .read).rw = .read := rfl
  obtain ⟨m, h | ⟨-, hbad⟩⟩ := sfsIo_read_kinit (fun _ => 0) hv hpos hend hin hfb hm
  · exact ⟨m, by simp [readFile, sfsReadVop, kassert, hrw, h, Except.map]⟩
  · exact absurd hw hbad

end ReadPath

end Os161.Sfs
