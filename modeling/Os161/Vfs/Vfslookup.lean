import Os161.Vfs.Knowndevs
import Os161.Libc.Strtok

/-!
# Where path translation starts

vfslookup.c translates a path from a vnode that `getdevice` picks by the
path's first `:` or `/`:

* `device:path`: the root of the device's filesystem, from `vfs_getroot`;
* `/path`: `bootfs_vnode`, the root of the boot filesystem;
* `:path`: the root of the filesystem of the current directory;
* otherwise: the current directory, with the whole path.

It strips the slashes that follow the `:` or the leading `/`, and writes a NUL
over the `:` after a device name. Vnodes are values of a type `V` with
reference counts `refs`, which `VOP_INCREF`, `VOP_DECREF`, `FSOP_GETROOT`,
`vfs_getroot` and `vfs_getcurdir` change. The path lies at the start of a
buffer of characters that holds its NUL (`Libc.cstr`); a `KASSERT` that fails,
or a read past the buffer, is `none`.

* `splitPath`: where a path says translation starts, and the subpath;
* `startsAtSplit`: by the shape of the path (a device name and `:`, a
  leading `/` or `:`, or a relative path), `getdevice` does what `splitPath`
  says (`StartsAtSplit`);
* `getdevice_start`: for every path, with a boot filesystem and a current
  directory, `getdevice` starts where `splitPath` says, with its subpath, which
  never begins with `/`; on success it hands the caller one new reference to
  the start vnode and changes no other count, on failure it changes none.
-/

namespace Os161.Vfs

open Libc

variable {V F : Type} [DecidableEq V]

/-- `VOP_INCREF(vn)`. -/
def incref (refs : V → Nat) (vn : V) : V → Nat :=
  Function.update refs vn (refs vn + 1)

/-- `VOP_DECREF(vn)` on a vnode that keeps another reference. -/
def decref (refs : V → Nat) (vn : V) : V → Nat :=
  Function.update refs vn (refs vn - 1)

/-- A reference taken on `a`, one on `r`, then the one on `a` dropped: one
    more reference on `r`, whether or not `r` is `a`. -/
theorem decref_incref_incref (refs : V → Nat) (a r : V) :
    decref (incref (incref refs a) r) a = incref refs r := by
  funext x
  by_cases hxa : x = a
  · subst hxa
    by_cases hxr : x = r
    · subst hxr
      simp [decref, incref]
    · simp [decref, incref, Function.update_apply, hxr]
  · by_cases hxr : x = r
    · subst hxr
      simp [decref, incref, Function.update_apply, hxa]
    · simp [decref, incref, Function.update_apply, hxa, hxr]

/-- What `getdevice` reads of the rest of the VFS layer. -/
structure PathEnv (V F : Type) where
  /-- `FSOP_GETVOLNAME`. -/
  volname : F → Option String
  /-- `knowndevs`. -/
  kds : List (Knowndev F)
  /-- `FSOP_GETROOT`: the root vnode of a filesystem. -/
  fsRoot : F → V
  /-- `kd_vnode` of the device of a name. -/
  devVnode : String → V
  /-- `vn_fs`: the filesystem of a vnode, none for a device's. -/
  vnFs : V → Option F
  /-- `bootfs_vnode`. -/
  bootfs : Option V
  /-- `curproc->p_cwd`. -/
  cwd : Option V

namespace PathEnv

/-- The vnode of what `vfs_getroot` resolves. -/
def rootVnode (env : PathEnv V F) : Root F → V
  | .fsRoot fs => env.fsRoot fs
  | .device name => env.devVnode name

end PathEnv

/-- `vfs_getcurdir(&vn)`: a new reference to the current directory. -/
def vfsGetcurdir (env : PathEnv V F) (refs : V → Nat) : Except Errno ((V → Nat) × V) :=
  match env.cwd with
  | some vn => .ok (incref refs vn, vn)
  | none => .error .enoent

/-- `for (i=0; path[i]; i++)`, stopping at the first `:` (`colon`) or `/`
    (`slash`), from `i` over the bytes at `i`: `(colon, slash)`, with `none`
    for `-1`. -/
def locate : List Char → Nat → Option (Option Nat × Option Nat)
  | [], _ => none
  | c :: bytes, i =>
    if c = '\x00' then some (none, none)
    else if c = ':' then some (some i, none)
    else if c = '/' then some (none, some i)
    else locate bytes (i + 1)

/-- `while (path[i+1]=='/') i++;` from `i`, over the bytes at `i + 1`: the
    last `i`. -/
def skipSlashes : List Char → Nat → Option Nat
  | [], _ => none
  | c :: bytes, i => if c = '/' then skipSlashes bytes (i + 1) else some i

/-- `getdevice(path, &subpath, &startvn)` with the path at the start of `buf`:
    the buffer after it, the reference counts, and the offset of the subpath
    with the start vnode, or the error. -/
def getdevice (env : PathEnv V F) (refs : V → Nat) (buf : List Char) :
    Option (List Char × (V → Nat) × Except Errno (Nat × V)) := do
  let (colon, slash) ← locate buf 0
  if colon = none ∧ slash ≠ some 0 then
    -- no device name and no leading slash: the whole path, from the current
    -- directory
    match vfsGetcurdir env refs with
    | .ok (refs, vn) => pure (buf, refs, .ok (0, vn))
    | .error e => pure (buf, refs, .error e)
  else
    match colon with
    | some (c + 1) =>
      -- `device:path`: the root of the device's filesystem
      let buf := buf.set (c + 1) '\x00'
      let colon ← skipSlashes (buf.drop (c + 2)) (c + 1)
      let devname ← cstr buf
      match vfsGetroot env.volname env.kds (String.ofList devname) with
      | .ok r => pure (buf, incref refs (env.rootVnode r), .ok (colon + 1, env.rootVnode r))
      | .error e => pure (buf, refs, .error e)
    | _ =>
      -- `/path` or `:path`
      let c ← buf[0]?
      let start : Option ((V → Nat) × Except Errno V) :=
        if c = '/' then
          match env.bootfs with
          | some b => some (incref refs b, .ok b)
          | none => some (refs, .error .enoent)
        -- `KASSERT(path[0]==':')`
        else if c ≠ ':' then none
        else
          match vfsGetcurdir env refs with
          | .error e => some (refs, .error e)
          | .ok (refs, vn) =>
            match env.vnFs vn with
            -- `KASSERT(vn->vn_fs!=NULL)`
            | none => none
            | some fs => some (decref (incref refs (env.fsRoot fs)) vn, .ok (env.fsRoot fs))
      let (refs, start) ← start
      match start with
      | .error e => pure (buf, refs, .error e)
      | .ok vn =>
        let p ← skipSlashes (buf.drop 1) 0
        pure (buf, refs, .ok (p + 1, vn))

/-- Where a path says translation starts. -/
inductive StartAt
  | device (name : List Char)
  | bootfs
  | curfsRoot
  | curdir
  deriving DecidableEq

/-- A path split at its first `:` or `/`: where translation starts, and the
    subpath from there. -/
def splitPath (path : List Char) : StartAt × List Char :=
  let name := path.takeWhile fun c => c ≠ ':' ∧ c ≠ '/'
  match path.dropWhile fun c => c ≠ ':' ∧ c ≠ '/' with
  | ':' :: rest => (if name = [] then .curfsRoot else .device name, rest.dropWhile (· = '/'))
  | '/' :: rest => if name = [] then (.bootfs, rest.dropWhile (· = '/')) else (.curdir, path)
  | _ => (.curdir, path)

namespace PathEnv

/-- The start vnode a `StartAt` names, or the error of `vfs_getroot`, with `b`
    the boot filesystem's root and `cw` the current directory, a directory of
    the filesystem `fs`. -/
def startOf (env : PathEnv V F) (b cw : V) (fs : F) : StartAt → Except Errno V
  | .device name => (vfsGetroot env.volname env.kds (String.ofList name)).map env.rootVnode
  | .bootfs => .ok b
  | .curfsRoot => .ok (env.fsRoot fs)
  | .curdir => .ok cw

end PathEnv

section Scans

/-- The scan passes over characters that are neither NUL, `:` nor `/`. -/
theorem locate_append {pre : List Char} (h : ∀ c ∈ pre, c ≠ '\x00' ∧ c ≠ ':' ∧ c ≠ '/')
    (l : List Char) (i : Nat) : locate (pre ++ l) i = locate l (i + pre.length) := by
  induction pre generalizing i with
  | nil => rfl
  | cons c pre ih =>
    obtain ⟨h0, hc, hs⟩ := h c List.mem_cons_self
    rw [List.cons_append, locate, if_neg h0, if_neg hc, if_neg hs,
      ih (fun c' hc' => h c' (List.mem_cons_of_mem _ hc')), List.length_cons]
    congr 1
    omega

/-- After `i`, the slashes that lead the string `rest` are skipped: the
    subpath starts past them. -/
theorem skipSlashes_spec {buf rest more : List Char} {i : Nat}
    (hbuf : buf.drop (i + 1) = rest ++ '\x00' :: more) (h0 : '\x00' ∉ rest) :
    ∃ j, skipSlashes (buf.drop (i + 1)) i = some j ∧
      cstr (buf.drop (j + 1)) = some (rest.dropWhile (· = '/')) := by
  induction rest generalizing i with
  | nil => exact ⟨i, by rw [hbuf]; rfl, by rw [hbuf]; rfl⟩
  | cons c rest ih =>
    have hc0 : c ≠ '\x00' := fun h => h0 (h ▸ List.mem_cons_self)
    have hrest : buf.drop (i + 1 + 1) = rest ++ '\x00' :: more := by
      rw [← List.drop_drop, hbuf]
      rfl
    by_cases hc : c = '/'
    · -- one more slash
      obtain ⟨j, hj, hsub⟩ := ih hrest (fun h => h0 (List.mem_cons_of_mem _ h))
      refine ⟨j, ?_, ?_⟩
      · rw [hbuf, List.cons_append, skipSlashes, if_pos hc, ← hrest, hj]
      · rw [hsub, List.dropWhile_cons, if_pos (decide_eq_true hc)]
    · refine ⟨i, by rw [hbuf, List.cons_append, skipSlashes, if_neg hc], ?_⟩
      rw [hbuf, List.dropWhile_cons, if_neg (by simpa using hc)]
      exact cstr_append h0 more

end Scans

/-- The subpath past the slashes does not begin with one. -/
theorem head?_dropWhile_slash (rest : List Char) : (rest.dropWhile (· = '/')).head? ≠ some '/' := by
  intro h
  have := List.head?_dropWhile_not (· = '/') rest
  rw [h] at this
  simp at this

section Cases

variable (env : PathEnv V F) (refs : V → Nat) {buf : List Char}

/-- No `:` and no leading `/`: the whole path, from the current directory. -/
theorem getdevice_of_relative {colon slash : Option Nat} {cw : V}
    (hloc : locate buf 0 = some (colon, slash)) (hrel : colon = none ∧ slash ≠ some 0)
    (hcw : env.cwd = some cw) :
    getdevice env refs buf = some (buf, incref refs cw, .ok (0, cw)) := by
  simp only [getdevice, hloc, Option.bind_eq_bind, Option.bind_some, if_pos hrel, vfsGetcurdir, hcw]
  rfl

/-- `name:rest`, with a device name: the NUL is written over the `:`, and
    `vfs_getroot` resolves the name. -/
theorem getdevice_of_device {name rest more : List Char}
    (hbuf : buf = name ++ ':' :: rest ++ '\x00' :: more) (hne : name ≠ [])
    (hname : ∀ c ∈ name, c ≠ '\x00' ∧ c ≠ ':' ∧ c ≠ '/') (hrest : '\x00' ∉ rest) :
    ∃ j, cstr ((buf.set name.length '\x00').drop (j + 1)) = some (rest.dropWhile (· = '/')) ∧
      getdevice env refs buf = some (buf.set name.length '\x00',
        match vfsGetroot env.volname env.kds (String.ofList name) with
        | .ok r => (incref refs (env.rootVnode r), .ok (j + 1, env.rootVnode r))
        | .error e => (refs, .error e)) := by
  obtain ⟨c, hc⟩ : ∃ c, name.length = c + 1 := ⟨name.length - 1, by
    have := List.length_pos_of_ne_nil hne
    omega⟩
  have hloc : locate buf 0 = some (some (c + 1), none) := by
    rw [hbuf, List.append_assoc, locate_append hname, Nat.zero_add, hc, List.cons_append, locate,
      if_neg (by decide), if_pos rfl]
  -- the buffer with the NUL over the `:`
  have hset : buf.set (c + 1) '\x00' = name ++ '\x00' :: (rest ++ '\x00' :: more) := by
    rw [hbuf, List.append_assoc, ← hc, List.set_append_right _ _ le_rfl, Nat.sub_self,
      List.cons_append, List.set_cons_zero]
  have hdrop : (buf.set (c + 1) '\x00').drop (c + 1 + 1) = rest ++ '\x00' :: more := by
    rw [hset, ← List.drop_drop, ← hc, List.drop_left]
    rfl
  have h0 : '\x00' ∉ name := fun h => (hname _ h).1 rfl
  obtain ⟨j, hj, hsub⟩ := skipSlashes_spec hdrop hrest
  refine ⟨j, by rw [hc]; exact hsub, ?_⟩
  simp only [getdevice, hloc, Option.bind_eq_bind, Option.bind_some, reduceCtorEq, false_and,
    if_false]
  rw [show c + 2 = c + 1 + 1 from rfl, hj, Option.bind_some, hset, cstr_append h0, Option.bind_some,
    ← hset, ← hc]
  cases vfsGetroot env.volname env.kds (String.ofList name) <;> rfl

/-- A leading `/` or `:`: the root of the boot filesystem, or of the current
    directory's, then the subpath past the slashes after it. -/
theorem getdevice_of_root {c : Char} {rest more : List Char} {b cw : V} {fs : F}
    (hbuf : buf = c :: rest ++ '\x00' :: more) (hc : c = '/' ∨ c = ':') (hrest : '\x00' ∉ rest)
    (hb : env.bootfs = some b) (hcw : env.cwd = some cw) (hfs : env.vnFs cw = some fs) :
    ∃ j, cstr (buf.drop (j + 1)) = some (rest.dropWhile (· = '/')) ∧
      getdevice env refs buf = some (buf, incref refs (if c = '/' then b else env.fsRoot fs),
        .ok (j + 1, if c = '/' then b else env.fsRoot fs)) := by
  have hdrop : buf.drop (0 + 1) = rest ++ '\x00' :: more := by rw [hbuf]; rfl
  obtain ⟨j, hj, hsub⟩ := skipSlashes_spec hdrop hrest
  refine ⟨j, hsub, ?_⟩
  have hj' : skipSlashes (buf.drop 1) 0 = some j := hj
  rcases hc with rfl | rfl
  · have hloc : locate buf 0 = some (none, some 0) := by rw [hbuf]; rfl
    have hget : buf[0]? = some '/' := by rw [hbuf]; rfl
    simp only [getdevice, hloc, Option.bind_eq_bind, Option.bind_some, ne_eq, not_true_eq_false,
      and_false, if_false, hget, if_pos, hb, hj']
    rfl
  · -- `:path`: the root of the current directory's filesystem, and the
    -- reference taken on the current directory dropped
    have hloc : locate buf 0 = some (some 0, none) := by rw [hbuf]; rfl
    have hget : buf[0]? = some ':' := by rw [hbuf]; rfl
    simp only [getdevice, hloc, Option.bind_eq_bind, Option.bind_some, reduceCtorEq, false_and,
      if_false, hget, vfsGetcurdir, hcw, hfs, hj', decref_incref_incref]
    rfl

end Cases

section Split

/-- The subpath is the whole path, or what follows the slashes after a `:` or
    a `/`. -/
theorem splitPath_sub (path : List Char) :
    (splitPath path).2 = path ∨
      ∃ rest : List Char, (splitPath path).2 = rest.dropWhile (· = '/') := by
  dsimp only [splitPath]
  split
  · exact .inr ⟨_, rfl⟩
  · split_ifs
    · exact .inr ⟨_, rfl⟩
    · exact .inl rfl
  · exact .inl rfl

/-- A path that starts with `/` or `:` names no device. -/
theorem splitPath_of_root {c : Char} {rest : List Char} (hc : c = '/' ∨ c = ':') :
    splitPath (c :: rest) =
      (if c = '/' then .bootfs else .curfsRoot, rest.dropWhile (· = '/')) := by
  rcases hc with rfl | rfl <;> rfl

/-- The subpath `splitPath` hands back never begins with `/`. -/
theorem splitPath_head?_ne (path : List Char) : (splitPath path).2.head? ≠ some '/' := by
  cases path with
  | nil => exact nofun
  | cons c rest =>
    by_cases hc : c = '/'
    · subst hc
      rw [splitPath_of_root (.inl rfl)]
      exact head?_dropWhile_slash rest
    · rcases splitPath_sub (c :: rest) with h | ⟨r, h⟩
      · rw [h, List.head?_cons]
        exact fun h' => hc (Option.some.inj h')
      · rw [h]
        exact head?_dropWhile_slash r

section Named

variable {name : List Char} (hname : ∀ c ∈ name, c ≠ ':' ∧ c ≠ '/')
include hname

/-- A name before a `:` is a device name. -/
theorem splitPath_of_device {rest : List Char} (hne : name ≠ []) :
    splitPath (name ++ ':' :: rest) = (.device name, rest.dropWhile (· = '/')) := by
  have hp : ∀ c ∈ name, decide (c ≠ ':' ∧ c ≠ '/') = true := fun c hc =>
    decide_eq_true (hname c hc)
  rw [splitPath, List.takeWhile_append_of_pos hp, List.dropWhile_append_of_pos hp]
  simp [hne]

/-- A path with no `:`, or with a `/` after a first name, is relative: the
    whole of it, from the current directory. -/
theorem splitPath_of_relative {after : List Char}
    (hafter : after = [] ∨ name ≠ [] ∧ after.head? = some '/') :
    splitPath (name ++ after) = (.curdir, name ++ after) := by
  have hp : ∀ c ∈ name, decide (c ≠ ':' ∧ c ≠ '/') = true := fun c hc =>
    decide_eq_true (hname c hc)
  rcases hafter with rfl | ⟨hne, hh⟩
  · rw [splitPath, List.takeWhile_append_of_pos hp, List.dropWhile_append_of_pos hp]
    rfl
  · obtain ⟨rest, rfl⟩ : ∃ rest, after = '/' :: rest := by
      cases after with
      | nil => exact absurd hh nofun
      | cons c rest => exact ⟨rest, by rw [Option.some.inj hh]⟩
    rw [splitPath, List.takeWhile_append_of_pos hp, List.dropWhile_append_of_pos hp]
    simp [hne]

end Named

end Split

section Start

variable (env : PathEnv V F) (refs : V → Nat) (b cw : V) (fs : F) (more : List Char)

/-- `getdevice` on the buffer of `path` starts where `splitPath` says, or
    fails as `vfs_getroot` does; on success the subpath is the split's and the
    caller gets one new reference to the start vnode, on failure no count
    changes. -/
def StartsAtSplit (path : List Char) : Prop :=
  ∃ buf' refs' res, getdevice env refs (path ++ '\x00' :: more) = some (buf', refs', res) ∧
    res.map Prod.snd = env.startOf b cw fs (splitPath path).1 ∧
    (∀ sub vn, res = .ok (sub, vn) →
      cstr (buf'.drop sub) = some (splitPath path).2 ∧ refs' = incref refs vn) ∧
    (∀ e, res = .error e → refs' = refs)

variable {env refs b cw fs more}

theorem startsAtSplit_of_relative {path : List Char} (hpath : '\x00' ∉ path) {slash : Option Nat}
    (hloc : locate (path ++ '\x00' :: more) 0 = some (none, slash)) (hslash : slash ≠ some 0)
    (hsplit : splitPath path = (.curdir, path)) (hcw : env.cwd = some cw) :
    StartsAtSplit env refs b cw fs more path := by
  refine ⟨_, _, _, getdevice_of_relative env refs hloc ⟨rfl, hslash⟩ hcw, by rw [hsplit]; rfl, ?_,
    nofun⟩
  rintro sub vn ⟨⟩
  exact ⟨by rw [hsplit, List.drop_zero, cstr_append hpath], rfl⟩

/-- `/path` and `:path` share one argument: `getdevice_of_root`. -/
theorem startsAtSplit_of_root {c : Char} {rest : List Char} (hc : c = '/' ∨ c = ':')
    (hrest : '\x00' ∉ rest) (hb : env.bootfs = some b) (hcw : env.cwd = some cw)
    (hfs : env.vnFs cw = some fs) :
    StartsAtSplit env refs b cw fs more (c :: rest) := by
  obtain ⟨j, hsub, hcall⟩ := getdevice_of_root env refs rfl hc hrest hb hcw hfs
  refine ⟨_, _, _, hcall, ?_, ?_, nofun⟩
  · rw [splitPath_of_root hc]
    rcases hc with rfl | rfl <;> rfl
  · rintro sub vn ⟨⟩
    exact ⟨by rw [splitPath_of_root hc]; exact hsub, rfl⟩

theorem startsAtSplit_of_device {name rest : List Char} (hne : name ≠ [])
    (hname : ∀ c ∈ name, c ≠ '\x00' ∧ c ≠ ':' ∧ c ≠ '/') (hrest : '\x00' ∉ rest) :
    StartsAtSplit env refs b cw fs more (name ++ ':' :: rest) := by
  obtain ⟨j, hsub, hcall⟩ := getdevice_of_device env refs
    (show name ++ ':' :: rest ++ '\x00' :: more = _ by rw [List.append_assoc, List.cons_append])
    hne hname hrest
  have hsplit : splitPath (name ++ ':' :: rest) = _ :=
    splitPath_of_device (fun c hc => (hname c hc).2) hne
  -- the start is what `vfs_getroot` resolves the name to, or its error
  cases hr : vfsGetroot env.volname env.kds (String.ofList name) with
  | ok r =>
    rw [hr] at hcall
    refine ⟨_, _, _, hcall, by rw [hsplit, PathEnv.startOf, hr]; rfl, ?_, nofun⟩
    rintro sub vn ⟨⟩
    exact ⟨by rw [hsplit]; exact hsub, rfl⟩
  | error e =>
    rw [hr] at hcall
    exact ⟨_, _, _, hcall, by rw [hsplit, PathEnv.startOf, hr]; rfl, nofun, fun _ _ => rfl⟩

/-- Every path that holds no NUL, with a boot filesystem and a current
    directory: by the first `:` or `/` of the path. -/
theorem startsAtSplit {path : List Char} (hpath : '\x00' ∉ path) (hb : env.bootfs = some b)
    (hcw : env.cwd = some cw) (hfs : env.vnFs cw = some fs) :
    StartsAtSplit env refs b cw fs more path := by
  -- the name before the first `:` or `/`, and what follows it
  obtain ⟨name, after, hpa, hname, hafter⟩ : ∃ name after, path = name ++ after ∧
      name = path.takeWhile (fun c => c ≠ ':' ∧ c ≠ '/') ∧
      after = path.dropWhile (fun c => c ≠ ':' ∧ c ≠ '/') :=
    ⟨_, _, List.takeWhile_append_dropWhile.symm, rfl, rfl⟩
  have hcs : ∀ c ∈ name, c ≠ ':' ∧ c ≠ '/' := fun c hc => of_decide_eq_true
    (List.mem_takeWhile_imp (p := fun c => decide (c ≠ ':' ∧ c ≠ '/')) (hname ▸ hc))
  -- where the scan stops: at the end of the name
  have hnm : ∀ c ∈ name, c ≠ '\x00' ∧ c ≠ ':' ∧ c ≠ '/' := fun c hc =>
    ⟨fun h => hpath (hpa ▸ List.mem_append_left _ (h ▸ hc)), hcs c hc⟩
  have hloc : locate (path ++ '\x00' :: more) 0 = locate (after ++ '\x00' :: more) name.length := by
    rw [hpa, List.append_assoc, locate_append hnm, Nat.zero_add]
  have h0 : '\x00' ∉ after := fun h => hpath (hpa ▸ List.mem_append_right _ h)
  cases after with
  | nil =>
    -- no `:` and no `/`
    rw [hpa] at hloc hpath ⊢
    have hl : locate (name ++ [] ++ '\x00' :: more) 0 = some (none, none) := by rw [hloc]; rfl
    exact startsAtSplit_of_relative hpath hl nofun (splitPath_of_relative hcs (.inl rfl)) hcw
  | cons c rest =>
    have hrest : '\x00' ∉ rest := fun h => h0 (List.mem_cons_of_mem _ h)
    -- the scan stopped at `c`, a `:` or a `/`
    have hc : c = ':' ∨ c = '/' := by
      have := List.head?_dropWhile_not (fun c => c ≠ ':' ∧ c ≠ '/') path
      rw [← hafter] at this
      simpa [or_iff_not_imp_left] using this
    rw [hpa] at hloc hpath ⊢
    by_cases hne : name = []
    · -- `:path` or `/path`
      subst hne
      exact startsAtSplit_of_root hc.symm hrest hb hcw hfs
    · rcases hc with rfl | rfl
      · -- `device:path`
        exact startsAtSplit_of_device hne hnm hrest
      · -- a relative path with a `/` after its first name
        have hlen : name.length ≠ 0 := fun h => hne (List.eq_nil_of_length_eq_zero h)
        have hl : locate (name ++ '/' :: rest ++ '\x00' :: more) 0 =
            some (none, some name.length) := by
          rw [hloc]; rfl
        exact startsAtSplit_of_relative hpath hl (by simpa using hlen)
          (splitPath_of_relative hcs (.inr ⟨hne, rfl⟩)) hcw

end Start

/-- `getdevice` on every path, with a boot filesystem and a current directory
    (a directory, so of a filesystem `fs`): it starts where `splitPath` says,
    or fails as `vfs_getroot` does, with the subpath of `splitPath`, which
    never begins with `/`; on success the caller gets one new reference to the
    start vnode and no other count changes, on failure none changes. -/
theorem getdevice_start (env : PathEnv V F) (refs : V → Nat) {path : List Char}
    (hpath : '\x00' ∉ path) (more : List Char) {b cw : V} {fs : F} (hb : env.bootfs = some b)
    (hcw : env.cwd = some cw) (hfs : env.vnFs cw = some fs) :
    ∃ buf' refs' res, getdevice env refs (path ++ '\x00' :: more) = some (buf', refs', res) ∧
      res.map Prod.snd = env.startOf b cw fs (splitPath path).1 ∧
      (∀ sub vn, res = .ok (sub, vn) →
        cstr (buf'.drop sub) = some (splitPath path).2 ∧ refs' = incref refs vn) ∧
      (∀ e, res = .error e → refs' = refs) ∧
      (splitPath path).2.head? ≠ some '/' := by
  obtain ⟨buf', refs', res, hcall, hstart, hok, herr⟩ :
      StartsAtSplit env refs b cw fs more path := startsAtSplit hpath hb hcw hfs
  exact ⟨buf', refs', res, hcall, hstart, hok, herr, splitPath_head?_ne path⟩

/-- A boot filesystem whose root is the vnode `0`, a current directory `1` on
    a filesystem whose root is `2`, and no known device. -/
def bootEnv : PathEnv (Fin 3) Unit where
  volname _ := none
  kds := []
  fsRoot _ := 2
  devVnode _ := 0
  vnFs _ := some ()
  bootfs := some 0
  cwd := some 1

/-- The path `//b`. -/
theorem getdevice_start_of_slashes :
    '\x00' ∉ ['/', '/', 'b'] ∧ bootEnv.bootfs = some 0 ∧ bootEnv.cwd = some 1 ∧
      bootEnv.vnFs 1 = some () ∧
      ∃ buf' refs' res, getdevice bootEnv (fun _ => 1) (['/', '/', 'b'] ++ '\x00' :: []) =
          some (buf', refs', res) ∧
        res.map Prod.snd = bootEnv.startOf 0 1 () (splitPath ['/', '/', 'b']).1 ∧
        (∀ sub vn, res = .ok (sub, vn) →
          cstr (buf'.drop sub) = some (splitPath ['/', '/', 'b']).2 ∧ refs' = incref (fun _ => 1) vn) ∧
        (∀ e, res = .error e → refs' = fun _ => 1) ∧
        (splitPath ['/', '/', 'b']).2.head? ≠ some '/' :=
  ⟨by decide, rfl, rfl, rfl, getdevice_start bootEnv (fun _ => 1) (by decide) [] rfl rfl rfl⟩

end Os161.Vfs
