import Mathlib
import Os161.Basic
import Os161.Lib.Machine

/-!
# The table of known devices

vfslist.c keeps `knowndevs`, an array of `struct knowndev`: the name of a
device, the name of its raw device when it is mountable (`mkrawname`: the name
followed by `raw`), and the filesystem mounted on it, or added with it by
`vfs_addfs`. `vfs_getroot` resolves a name by the first entry that carries it,
as its name, its raw name or the volume name of its filesystem
(`FSOP_GETVOLNAME`).

`vfs_adddev` and `vfs_addfs` (both `vfs_doadd`) refuse a new entry one of whose
names is already a name of the table (`badnames`). `vfs_mount` puts a
filesystem on a device with no such check, although the volume name the
filesystem brings (for SFS, the one `mksfs` wrote on the disk) is a new name of
the table. Every call runs under the big lock: one event of `Vfs.machine`. A
filesystem is named by the type `F`; its volume name is `volname`.

* `vfsDoadd_unique`, `vfsAdddev_unique`: adding an entry keeps the names
  distinct when the entry's own names are, as a device's are;
* `vfsUnmount_unique`, `vfsUnmountall_unique`: unmounting only drops names;
* `run_unique`: so every table reached without a mount carries each name once;
* `vfsGetroot_perm`: in such a table `vfs_getroot` resolves a name by the one
  entry carrying it, whatever the order of the table;
* `mount_duplicates_name`: mounting a filesystem whose volume name is already
  a name of the table succeeds, and the table then carries that name twice;
  `vfs_getroot` resolves it by whichever entry comes first.
-/

namespace Os161.Vfs

variable {F : Type*}

/-- `struct knowndev`: the name, the raw name of a mountable device, and the
    filesystem on it. (`kd_device` and `kd_vnode` only back the vnode that
    `vfs_getroot` hands out for a device, named here by its entry.) -/
structure Knowndev (F : Type*) where
  name : String
  rawname : Option String
  fs : Option F

/-- `mkrawname(name)`: the name followed by `raw`. -/
def mkrawname (name : String) : String := name ++ "raw"

/-- `samestring(a, b)`: both names present and equal. -/
def samestring : Option String → Option String → Bool
  | some a, some b => a == b
  | _, _ => false

/-- `samestring3(a, b, c, d)`. -/
def samestring3 (a b c d : Option String) : Bool :=
  samestring a b || samestring a c || samestring a d

/-- `badnames(n1, n2, n3)`: one of the names is a name of an entry, the volume
    name of its filesystem included. -/
def badnames (volname : F → Option String) (kds : List (Knowndev F)) (n1 n2 n3 : Option String) :
    Bool :=
  kds.any fun kd =>
    (match kd.fs with
      | some fs => samestring3 (volname fs) n1 n2 n3
      | none => false) ||
    samestring3 kd.rawname n1 n2 n3 || samestring3 (some kd.name) n1 n2 n3

/-- `vfs_doadd(dname, mountable, dev, fs)`: `ENOMEM` when one of its
    allocations fails (`allocOk` false), `EEXIST` when one of the new names is
    taken, `ENOMEM` again when `knowndevarray_add` cannot grow the array
    (`addOk` false); else the entry goes at the end. -/
def vfsDoadd (volname : F → Option String) (kds : List (Knowndev F)) (dname : String)
    (mountable : Bool) (fs : Option F) (allocOk addOk : Bool) : Except Errno (List (Knowndev F)) :=
  if !allocOk then .error .enomem
  else
    let rawname := if mountable then some (mkrawname dname) else none
    if badnames volname kds (some dname) rawname (fs.bind volname) then .error .eexist
    else if !addOk then .error .enomem
    else .ok (kds ++ [⟨dname, rawname, fs⟩])

/-- `vfs_adddev(devname, dev, mountable)`. -/
def vfsAdddev (volname : F → Option String) (kds : List (Knowndev F)) (devname : String)
    (mountable allocOk addOk : Bool) : Except Errno (List (Knowndev F)) :=
  vfsDoadd volname kds devname mountable none allocOk addOk

/-- `vfs_addfs(devname, fs)`. -/
def vfsAddfs (volname : F → Option String) (kds : List (Knowndev F)) (devname : String) (fs : F)
    (allocOk addOk : Bool) : Except Errno (List (Knowndev F)) :=
  vfsDoadd volname kds devname false (some fs) allocOk addOk

/-- `findmount(devname, &kd)`: the first mountable device of that name. -/
def findmount (kds : List (Knowndev F)) (devname : String) : Option (Fin kds.length) :=
  (List.finRange kds.length).find? fun i => kds[i].rawname.isSome && kds[i].name == devname

/-- `vfs_mount(devname, data, mountfunc)`, the mount function handing back a
    filesystem or an error. -/
def vfsMount (kds : List (Knowndev F)) (devname : String) (mountfunc : Except Errno F) :
    Except Errno (List (Knowndev F)) :=
  match findmount kds devname with
  | none => .error .enodev
  | some i =>
    if kds[i].fs.isSome then .error .ebusy
    else
      match mountfunc with
      | .error e => .error e
      | .ok fs => .ok (kds.set i { kds[i] with fs := some fs })

/-- `vfs_unmount(devname)`, with the results of `FSOP_SYNC` and
    `FSOP_UNMOUNT`. -/
def vfsUnmount (kds : List (Knowndev F)) (devname : String) (sync unmount : Except Errno Unit) :
    Except Errno (List (Knowndev F)) :=
  match findmount kds devname with
  | none => .error .enodev
  | some i =>
    if kds[i].fs.isNone then .error .einval
    else
      match sync, unmount with
      | .error e, _ => .error e
      | .ok (), .error e => .error e
      | .ok (), .ok () => .ok (kds.set i { kds[i] with fs := none })

/-- Whether `vfs_unmountall` drops a filesystem: one of two `FSOP_SYNC`s and
    then `FSOP_UNMOUNT` succeed. -/
def unmountsOk (sync₁ sync₂ unmount : Except Errno Unit) : Bool :=
  (sync₁.isOk || sync₂.isOk) && unmount.isOk

/-- The loop of `vfs_unmountall` from the entry `i`, with the results of the
    filesystem operations of each entry. -/
def unmountallFrom (outcome : Nat → Except Errno Unit × Except Errno Unit × Except Errno Unit) :
    Nat → List (Knowndev F) → List (Knowndev F)
  | _, [] => []
  | i, kd :: kds =>
    (if kd.rawname.isSome && kd.fs.isSome &&
        unmountsOk (outcome i).1 (outcome i).2.1 (outcome i).2.2 then { kd with fs := none }
      else kd) :: unmountallFrom outcome (i + 1) kds

/-- `vfs_unmountall()`. -/
def vfsUnmountall (kds : List (Knowndev F))
    (outcome : Nat → Except Errno Unit × Except Errno Unit × Except Errno Unit) : List (Knowndev F) :=
  unmountallFrom outcome 0 kds

/-- What `vfs_getroot` hands back: the root of a filesystem (`FSOP_GETROOT`),
    or the vnode of the device of the entry of that name. -/
inductive Root (F : Type*)
  | fsRoot (fs : F)
  | device (name : String)
  deriving DecidableEq

/-- What one entry of `vfs_getroot`'s loop answers for `devname`, or `none` to
    go on to the next entry. -/
def Knowndev.getroot (volname : F → Option String) (devname : String) (kd : Knowndev F) :
    Option (Except Errno (Root F)) :=
  -- a mounted filesystem answers to its device's name and its volume name;
  -- an unmounted mountable device to neither
  let first : Option (Except Errno (Root F)) :=
    match kd.fs with
    | some fs =>
      if kd.name = devname ∨ volname fs = some devname then some (.ok (.fsRoot fs)) else none
    | none => if kd.rawname.isSome ∧ kd.name = devname then some (.error .enxio) else none
  match first with
  | some r => some r
  | none =>
    if kd.name = devname then some (.ok (.device kd.name))
    else if kd.rawname = some devname then some (.ok (.device kd.name))
    else none

/-- `vfs_getroot(devname, &result)`: the answer of the first entry that has
    one. -/
def vfsGetroot (volname : F → Option String) (kds : List (Knowndev F)) (devname : String) :
    Except Errno (Root F) :=
  match kds with
  | [] => .error .enodev
  | kd :: kds =>
    match kd.getroot volname devname with
    | some r => r
    | none => vfsGetroot volname kds devname

/-! ## The calls as a machine -/

/-- A call on the table, with what it meets from outside. -/
inductive Event (F : Type*)
  | adddev (devname : String) (mountable allocOk addOk : Bool)
  | addfs (devname : String) (fs : F) (allocOk addOk : Bool)
  | mount (devname : String) (mountfunc : Except Errno F)
  | unmount (devname : String) (sync unmount : Except Errno Unit)
  | unmountall (outcome : Nat → Except Errno Unit × Except Errno Unit × Except Errno Unit)

/-- The table after a call: a failed call leaves it as it was. -/
def keep (kds : List (Knowndev F)) : Except Errno (List (Knowndev F)) → List (Knowndev F)
  | .ok kds' => kds'
  | .error _ => kds

/-- One call under the big lock. -/
def step (volname : F → Option String) (kds : List (Knowndev F)) : Event F → List (Knowndev F)
  | .adddev devname mountable allocOk addOk => keep kds (vfsAdddev volname kds devname mountable allocOk addOk)
  | .addfs devname fs allocOk addOk => keep kds (vfsAddfs volname kds devname fs allocOk addOk)
  | .mount devname mountfunc => keep kds (vfsMount kds devname mountfunc)
  | .unmount devname sync unmount => keep kds (vfsUnmount kds devname sync unmount)
  | .unmountall outcome => vfsUnmountall kds outcome

/-- The table from `vfs_bootstrap`, empty. -/
def machine (volname : F → Option String) : Machine (List (Knowndev F)) (Event F) where
  init := []
  step kds e := some (step volname kds e)

/-! ## The names of the table -/

/-- The names an entry carries: its name, its raw name, and the volume name of
    its filesystem. -/
def Knowndev.names (volname : F → Option String) (kd : Knowndev F) : List String :=
  kd.name :: (kd.rawname.toList ++ (kd.fs.bind volname).toList)

/-- The names of the table are pairwise distinct. -/
def UniqueNames (volname : F → Option String) (kds : List (Knowndev F)) : Prop :=
  (kds.flatMap (Knowndev.names volname)).Nodup

instance (volname : F → Option String) (kds : List (Knowndev F)) [DecidableEq String] :
    Decidable (UniqueNames volname kds) :=
  inferInstanceAs (Decidable (List.Nodup _))

section Names

variable (volname : F → Option String)

theorem mem_names {kd : Knowndev F} {x : String} :
    x ∈ kd.names volname ↔ kd.name = x ∨ kd.rawname = some x ∨ kd.fs.bind volname = some x := by
  simp only [Knowndev.names, List.mem_cons, List.mem_append, Option.mem_toList]
  grind

/-- A device's own names are distinct: `mkrawname` adds a suffix. -/
theorem names_device_nodup (dname : String) (mountable : Bool) :
    (Knowndev.names volname
      (⟨dname, if mountable then some (mkrawname dname) else none, none⟩ : Knowndev F)).Nodup := by
  have hraw : dname ≠ mkrawname dname := by
    intro h
    have hlen := congrArg String.length h
    simp [mkrawname] at hlen
  cases mountable <;> simp [Knowndev.names, hraw]

/-- Mounting adds the volume name after the entry's other names. -/
theorem names_mount {kd : Knowndev F} (hfs : kd.fs = none) (fs : F) :
    Knowndev.names volname { kd with fs := some fs } = kd.names volname ++ (volname fs).toList := by
  simp [Knowndev.names, hfs]

theorem names_unmount_sublist (kd : Knowndev F) :
    (Knowndev.names volname { kd with fs := none }).Sublist (kd.names volname) := by
  simp only [Knowndev.names, Option.bind_none, Option.toList_none, List.append_nil]
  exact (List.sublist_append_left _ _).cons_cons _

/-- The names of a table with one entry replaced: those of the entries before
    it, of the new entry, and of the entries after it. -/
theorem flatMap_names_set {kds : List (Knowndev F)} {i : Nat} (hi : i < kds.length)
    (kd : Knowndev F) :
    ∃ A B, kds.flatMap (Knowndev.names volname) = A ++ kds[i].names volname ++ B ∧
      (kds.set i kd).flatMap (Knowndev.names volname) = A ++ kd.names volname ++ B := by
  refine ⟨(kds.take i).flatMap (Knowndev.names volname),
    (kds.drop (i + 1)).flatMap (Knowndev.names volname), ?_, ?_⟩
  · rw [List.append_assoc, ← List.flatMap_cons, ← List.flatMap_append, List.getElem_cons_drop,
      List.take_append_drop]
  · rw [List.set_eq_take_append_cons_drop, if_pos hi, List.flatMap_append, List.flatMap_cons,
      List.append_assoc]

theorem unique_set_of_sublist {kds : List (Knowndev F)} {i : Nat} (hi : i < kds.length)
    {kd : Knowndev F} (hsub : (kd.names volname).Sublist (kds[i].names volname))
    (h : UniqueNames volname kds) : UniqueNames volname (kds.set i kd) := by
  obtain ⟨A, B, hkds, hset⟩ := flatMap_names_set volname hi kd
  unfold UniqueNames at h ⊢
  rw [hkds] at h
  rw [hset]
  exact h.sublist (((List.Sublist.refl A).append hsub).append (List.Sublist.refl B))

theorem samestring_some {x : String} {n : Option String} :
    samestring (some x) n = true ↔ n = some x := by
  cases n with
  | none => simp [samestring]
  | some y =>
    simp only [samestring, beq_iff_eq, Option.some.injEq]
    exact eq_comm

theorem samestring3_some_eq_false {x : String} {n1 n2 n3 : Option String} :
    samestring3 (some x) n1 n2 n3 = false ↔ n1 ≠ some x ∧ n2 ≠ some x ∧ n3 ≠ some x := by
  rw [samestring3, Bool.or_eq_false_iff, Bool.or_eq_false_iff]
  simp only [Bool.eq_false_iff, ne_eq, samestring_some, and_assoc]

/-- `badnames` fails exactly when none of the names is a name of an entry. -/
theorem badnames_eq_false {kds : List (Knowndev F)} {n1 n2 n3 : Option String} :
    badnames volname kds n1 n2 n3 = false ↔
      ∀ x ∈ kds.flatMap (Knowndev.names volname), n1 ≠ some x ∧ n2 ≠ some x ∧ n3 ≠ some x := by
  simp only [badnames, List.any_eq_false, Bool.not_eq_true, Bool.or_eq_false_iff,
    List.mem_flatMap, mem_names]
  constructor
  · rintro h x ⟨kd, hkd, hx⟩
    obtain ⟨⟨hvol, hraw⟩, hname⟩ := h kd hkd
    rcases hx with rfl | hr | hv
    · exact samestring3_some_eq_false.mp hname
    · rw [hr] at hraw
      exact samestring3_some_eq_false.mp hraw
    · obtain ⟨fs, hfs, hfv⟩ := Option.bind_eq_some_iff.mp hv
      simp only [hfs, hfv] at hvol
      exact samestring3_some_eq_false.mp hvol
  · intro h kd hkd
    refine ⟨⟨?_, ?_⟩, samestring3_some_eq_false.mpr (h kd.name ⟨kd, hkd, .inl rfl⟩)⟩
    · -- the volume name of a mounted filesystem, when it has one
      cases hf : kd.fs with
      | none => rfl
      | some fs =>
        show samestring3 (volname fs) n1 n2 n3 = false
        cases hv : volname fs with
        | none => rfl
        | some v =>
          exact samestring3_some_eq_false.mpr (h v ⟨kd, hkd, .inr (.inr (by simp [hf, hv]))⟩)
    · cases hr : kd.rawname with
      | none => rfl
      | some r => exact samestring3_some_eq_false.mpr (h r ⟨kd, hkd, .inr (.inl hr)⟩)

end Names

/-! ## Adding and unmounting keep the names distinct -/

section Unique

variable {volname : F → Option String}

theorem vfsDoadd_eq_ok {kds kds' : List (Knowndev F)} {dname : String} {mountable : Bool}
    {fs : Option F} {allocOk addOk : Bool}
    (h : vfsDoadd volname kds dname mountable fs allocOk addOk = .ok kds') :
    badnames volname kds (some dname) (if mountable then some (mkrawname dname) else none)
        (fs.bind volname) = false ∧
      kds' = kds ++ [⟨dname, if mountable then some (mkrawname dname) else none, fs⟩] := by
  unfold vfsDoadd at h
  simp only at h
  -- the raw name is fixed before the checks
  generalize (if mountable then some (mkrawname dname) else none) = rawname at h ⊢
  split_ifs at h with halloc hbad haddr
  injection h with h
  exact ⟨by simpa using hbad, h.symm⟩

/-- `vfs_doadd` keeps the names distinct when the new entry's own names are:
    `badnames` keeps them apart from the table's. -/
theorem vfsDoadd_unique {kds kds' : List (Knowndev F)} {dname : String} {mountable : Bool}
    {fs : Option F} {allocOk addOk : Bool} (hkds : UniqueNames volname kds)
    (hnew : (Knowndev.names volname
      ⟨dname, if mountable then some (mkrawname dname) else none, fs⟩).Nodup)
    (h : vfsDoadd volname kds dname mountable fs allocOk addOk = .ok kds') :
    UniqueNames volname kds' := by
  obtain ⟨hbad, rfl⟩ := vfsDoadd_eq_ok h
  have hapart := (badnames_eq_false volname).mp hbad
  unfold UniqueNames at hkds ⊢
  rw [List.flatMap_append, List.flatMap_singleton, List.nodup_append]
  refine ⟨hkds, hnew, fun x hx y hy hxy => ?_⟩
  subst hxy
  obtain ⟨h1, h2, h3⟩ := hapart x hx
  rcases (mem_names volname).mp hy with hn | hr | hv
  · exact h1 (congrArg some hn)
  · exact h2 hr
  · exact h3 hv

theorem vfsAdddev_unique {kds kds' : List (Knowndev F)} {devname : String}
    {mountable allocOk addOk : Bool} (hkds : UniqueNames volname kds)
    (h : vfsAdddev volname kds devname mountable allocOk addOk = .ok kds') :
    UniqueNames volname kds' :=
  vfsDoadd_unique hkds (names_device_nodup volname devname mountable) h

/-- `vfs_addfs` keeps the names distinct unless the filesystem's volume name is
    the name it is added under, which `badnames` does not compare. -/
theorem vfsAddfs_unique {kds kds' : List (Knowndev F)} {devname : String} {fs : F}
    {allocOk addOk : Bool} (hkds : UniqueNames volname kds) (hvol : volname fs ≠ some devname)
    (h : vfsAddfs volname kds devname fs allocOk addOk = .ok kds') :
    UniqueNames volname kds' := by
  refine vfsDoadd_unique hkds ?_ h
  cases hv : volname fs with
  | none => simp [Knowndev.names, hv]
  | some v =>
    have hne : devname ≠ v := fun he => hvol (by rw [hv, he])
    simp [Knowndev.names, hv, hne]

theorem vfsUnmount_unique {kds kds' : List (Knowndev F)} {devname : String}
    {sync unmount : Except Errno Unit} (hkds : UniqueNames volname kds)
    (h : vfsUnmount kds devname sync unmount = .ok kds') : UniqueNames volname kds' := by
  unfold vfsUnmount at h
  split at h
  · cases h
  · rename_i i _
    split at h
    · cases h
    · split at h
      · cases h
      · cases h
      · injection h with h
        rw [← h]
        exact unique_set_of_sublist volname i.isLt (names_unmount_sublist volname _) hkds

theorem unmountallFrom_sublist
    (outcome : Nat → Except Errno Unit × Except Errno Unit × Except Errno Unit) (i : Nat)
    (kds : List (Knowndev F)) :
    ((unmountallFrom outcome i kds).flatMap (Knowndev.names volname)).Sublist
      (kds.flatMap (Knowndev.names volname)) := by
  induction kds generalizing i with
  | nil => exact List.Sublist.slnil
  | cons kd kds ih =>
    rw [unmountallFrom, List.flatMap_cons, List.flatMap_cons]
    refine List.Sublist.append ?_ (ih (i + 1))
    split
    · exact names_unmount_sublist volname kd
    · exact List.Sublist.refl _

theorem vfsUnmountall_unique {kds : List (Knowndev F)}
    (outcome : Nat → Except Errno Unit × Except Errno Unit × Except Errno Unit)
    (hkds : UniqueNames volname kds) : UniqueNames volname (vfsUnmountall kds outcome) :=
  hkds.sublist (unmountallFrom_sublist outcome 0 kds)

end Unique

/-! ## Runs without a mount keep the names distinct -/

section Run

variable {volname : F → Option String}

/-- The calls that `badnames` guards: every call but `vfs_mount`, with
    `vfs_addfs` of a filesystem not named like the device it is added as. -/
def Guarded (volname : F → Option String) : Event F → Prop
  | .mount _ _ => False
  | .addfs devname fs _ _ => volname fs ≠ some devname
  | _ => True

theorem keep_unique {kds : List (Knowndev F)} {r : Except Errno (List (Knowndev F))}
    (hkds : UniqueNames volname kds) (hr : ∀ kds', r = .ok kds' → UniqueNames volname kds') :
    UniqueNames volname (keep kds r) := by
  cases r with
  | error => exact hkds
  | ok kds' => exact hr kds' rfl

theorem step_unique {kds : List (Knowndev F)} {e : Event F} (he : Guarded volname e)
    (hkds : UniqueNames volname kds) : UniqueNames volname (step volname kds e) := by
  cases e with
  | adddev => exact keep_unique hkds fun _ h => vfsAdddev_unique hkds h
  | addfs => exact keep_unique hkds fun _ h => vfsAddfs_unique hkds he h
  | mount => exact he.elim
  | unmount => exact keep_unique hkds fun _ h => vfsUnmount_unique hkds h
  | unmountall outcome => exact vfsUnmountall_unique outcome hkds

/-- Every table reached by calls that `badnames` guards carries each name once. -/
theorem run_unique {es : List (Event F)} {kds : List (Knowndev F)}
    (hes : ∀ e ∈ es, Guarded volname e) (h : (machine volname).run es = some kds) :
    UniqueNames volname kds :=
  Machine.runFrom_induction (P := UniqueNames volname) (Q := Guarded volname)
    (fun _ _ _ he hs hstep => by
      cases hstep
      exact step_unique he hs)
    es hes (show UniqueNames volname [] from List.nodup_nil) h

end Run

/-! ## Resolving a name -/

section Getroot

variable (volname : F → Option String)

/-- An entry answers for exactly the names it carries. -/
theorem getroot_eq_none {kd : Knowndev F} {devname : String} :
    kd.getroot volname devname = none ↔ devname ∉ kd.names volname := by
  rcases kd with ⟨name, rawname, fs⟩
  by_cases hname : name = devname
  · subst hname
    cases fs <;> cases rawname <;> simp [Knowndev.getroot, Knowndev.names]
  · have hname' : devname ≠ name := Ne.symm hname
    cases fs with
    | none =>
      cases rawname with
      | none => simp [Knowndev.getroot, Knowndev.names, hname, hname']
      | some r =>
        by_cases hr : r = devname
        · subst hr
          simp [Knowndev.getroot, Knowndev.names, hname, hname']
        · simp [Knowndev.getroot, Knowndev.names, hname, hname', hr, Ne.symm hr]
    | some fs =>
      by_cases hvol : volname fs = some devname
      · cases rawname <;> simp [Knowndev.getroot, Knowndev.names, hname, hvol]
      · cases rawname with
        | none => simp [Knowndev.getroot, Knowndev.names, hname, hname', hvol]
        | some r =>
          by_cases hr : r = devname
          · subst hr
            simp [Knowndev.getroot, Knowndev.names, hname, hvol]
          · simp [Knowndev.getroot, Knowndev.names, hname, hname', hvol, hr, Ne.symm hr]

/-- `vfs_getroot` passes over the entries that do not carry the name. -/
theorem vfsGetroot_append {pre kds : List (Knowndev F)} {devname : String}
    (hpre : ∀ kd ∈ pre, devname ∉ kd.names volname) :
    vfsGetroot volname (pre ++ kds) devname = vfsGetroot volname kds devname := by
  induction pre with
  | nil => rfl
  | cons kd pre ih =>
    rw [List.cons_append, vfsGetroot, (getroot_eq_none volname).mpr (hpre kd List.mem_cons_self)]
    exact ih fun kd' h => hpre kd' (List.mem_cons_of_mem _ h)

/-- A name no entry carries is no device: `ENODEV`. -/
theorem vfsGetroot_of_none {kds : List (Knowndev F)} {devname : String}
    (h : ∀ kd ∈ kds, devname ∉ kd.names volname) :
    vfsGetroot volname kds devname = .error .enodev := by
  rw [← List.append_nil kds, vfsGetroot_append volname h]
  rfl

/-- A name carried by one entry only resolves by that entry, wherever it stands. -/
theorem vfsGetroot_of_carrier {kds : List (Knowndev F)} {kd : Knowndev F} {devname : String}
    (hkd : kd ∈ kds) (hn : devname ∈ kd.names volname)
    (honly : ∀ kd' ∈ kds, devname ∈ kd'.names volname → kd' = kd) :
    vfsGetroot volname kds devname = vfsGetroot volname [kd] devname := by
  induction kds with
  | nil => cases hkd
  | cons k kds ih =>
    by_cases hk : devname ∈ k.names volname
    · obtain rfl := honly k List.mem_cons_self hk
      obtain ⟨r, hr⟩ := Option.ne_none_iff_exists'.mp (mt (getroot_eq_none volname).mp (not_not.mpr hk))
      simp [vfsGetroot, hr]
    · have hkd' : kd ∈ kds := by
        rcases List.mem_cons.mp hkd with rfl | h
        · exact absurd hn hk
        · exact h
      rw [← List.singleton_append, vfsGetroot_append volname (by simpa using hk)]
      exact ih hkd' fun kd' h => honly kd' (List.mem_cons_of_mem _ h)

/-- In a table whose names are distinct, at most one entry carries a name. -/
theorem UniqueNames.carrier_eq {kds : List (Knowndev F)} (hu : UniqueNames volname kds)
    {kd kd' : Knowndev F} (hkd : kd ∈ kds) (hkd' : kd' ∈ kds) {n : String}
    (hn : n ∈ kd.names volname) (hn' : n ∈ kd'.names volname) : kd' = kd := by
  by_contra hne
  have : Std.Symm (Function.onFun List.Disjoint (Knowndev.names volname)) := ⟨fun _ _ h _ ha hb => h hb ha⟩
  exact List.disjoint_left.mp ((List.nodup_flatMap.mp hu).2.forall hkd hkd' (Ne.symm hne)) hn hn'

/-- The order of the entries only matters when two of them share a name: in
    a table whose names are distinct, `vfs_getroot` resolves every name alike
    in any order of the table. -/
theorem vfsGetroot_perm {kds kds' : List (Knowndev F)} (hperm : kds.Perm kds')
    (hu : UniqueNames volname kds) (devname : String) :
    vfsGetroot volname kds devname = vfsGetroot volname kds' devname := by
  by_cases hcarried : ∃ kd ∈ kds, devname ∈ kd.names volname
  · obtain ⟨kd, hkd, hn⟩ := hcarried
    have honly : ∀ kd' ∈ kds, devname ∈ kd'.names volname → kd' = kd :=
      fun kd' hkd' hn' => hu.carrier_eq volname hkd hkd' hn hn'
    rw [vfsGetroot_of_carrier volname hkd hn honly,
      vfsGetroot_of_carrier volname (hperm.subset hkd) hn
        fun kd' hkd' => honly kd' (hperm.symm.subset hkd')]
  · push Not at hcarried
    have hcarried' : ∀ kd ∈ kds', devname ∉ kd.names volname :=
      fun kd hkd => hcarried kd (hperm.symm.subset hkd)
    rw [vfsGetroot_of_none volname hcarried, vfsGetroot_of_none volname hcarried']

end Getroot

/-! ## A mount brings a name `badnames` never saw -/

section Mount

variable {volname : F → Option String}

theorem vfsMount_of_free {kds : List (Knowndev F)} {devname : String} {i : Fin kds.length}
    (hfind : findmount kds devname = some i) (hfree : kds[i].fs = none) (fs : F) :
    vfsMount kds devname (.ok fs) = .ok (kds.set i { kds[i] with fs := some fs }) := by
  have hfree' : kds[(i : Nat)].fs = none := hfree
  simp [vfsMount, hfind, hfree']

/-- `vfs_mount` checks the device, not the names: mounting on a free device a
    filesystem whose volume name is already a name of the table succeeds, and
    the table then carries that name twice. -/
theorem mount_duplicates_name {kds : List (Knowndev F)} {devname : String} {i : Fin kds.length}
    (hfind : findmount kds devname = some i) (hfree : kds[i].fs = none) {fs : F} {n : String}
    (hvol : volname fs = some n) (hn : n ∈ kds.flatMap (Knowndev.names volname)) :
    vfsMount kds devname (.ok fs) = .ok (kds.set i { kds[i] with fs := some fs }) ∧
      ¬ UniqueNames volname (kds.set i { kds[i] with fs := some fs }) := by
  refine ⟨vfsMount_of_free hfind hfree fs, fun huniq => ?_⟩
  obtain ⟨A, B, hkds, hset⟩ := flatMap_names_set volname i.isLt { kds[i] with fs := some fs }
  rw [UniqueNames, hset, names_mount volname hfree, hvol] at huniq
  rw [hkds] at hn
  -- the mount counts the name once more than the table did
  have hcount : (A ++ (kds[(i : Nat)].names volname ++ [n]) ++ B).count n =
      (A ++ kds[(i : Nat)].names volname ++ B).count n + 1 := by
    simp only [List.count_append, List.count_singleton_self]
    omega
  have hpos := List.count_pos_iff.mpr hn
  have hle := List.nodup_iff_count_le_one.mp huniq n
  simp only [Option.toList_some, Fin.getElem_fin] at hle
  omega

/-- Two disks formatted with one volume name. -/
def sameVolume : Fin 2 → Option String := fun _ => some "mydisk"

-- The numerals of `Fin 2` below take their `NeZero` instance from here.
local instance twoNeZero : NeZero (2 : Nat) := ⟨two_ne_zero⟩

/-- `lhd0` and `lhd1` attached, in this order, and the first one mounted. -/
def lhdMounted : List (Knowndev (Fin 2)) :=
  [⟨"lhd0", some "lhd0raw", some 0⟩, ⟨"lhd1", some "lhd1raw", none⟩]

theorem lhd1_mount_same_volume :
    (machine sameVolume).run
        [.adddev "lhd0" true true true, .adddev "lhd1" true true true, .mount "lhd0" (.ok 0)] =
      some lhdMounted ∧
    vfsMount lhdMounted "lhd1" (.ok 1) =
      .ok (lhdMounted.set 1 { lhdMounted[1] with fs := some 1 }) ∧
    ¬ UniqueNames sameVolume (lhdMounted.set 1 { lhdMounted[1] with fs := some 1 }) ∧
    vfsGetroot sameVolume (lhdMounted.set 1 { lhdMounted[1] with fs := some 1 }) "mydisk" =
      .ok (.fsRoot 0) ∧
    vfsGetroot sameVolume (lhdMounted.set 1 { lhdMounted[1] with fs := some 1 }).reverse "mydisk" =
      .ok (.fsRoot 1) := by
  obtain ⟨hmount, hdup⟩ := mount_duplicates_name
    (show findmount lhdMounted "lhd1" = some ⟨1, by decide⟩ from rfl) rfl
    (show sameVolume 1 = some "mydisk" from rfl) (by decide)
  exact ⟨rfl, hmount, hdup, rfl, rfl⟩

end Mount

end Os161.Vfs
