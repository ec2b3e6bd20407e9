import Mathlib
import Os161.Basic
import Os161.Libc.Strtok

/-!
# The kernel menu's command lines

kern/startup/menu.c runs the commands of a line typed at the menu prompt
(`isargs = 0`) or of the kernel's boot arguments (`isargs = 1`).
`menu_execute` splits the line with `strtok_r` at `;` and hands each command
to `cmd_dispatch`, which splits it with `strtok_r` at spaces and tabs into at
most `MAXMENUARGS` words and runs the command of `cmdtable` its first word
names. With `isargs`, a command that fails is a `panic`.

The line lies at the start of a buffer of characters that holds its NUL
(`Libc.strtokR`); a `panic`, or a read past the buffer, is `none`. The commands
of `cmdtable` are values of a type `F`, and `exec` gives what each returns for
its words; what the commands do to the rest of the kernel, and what the menu
prints, are not modelled.

* `cmdDispatchArgs_run`: the word loop of `cmd_dispatch` collects pointers to
  the words of its string, NUL-terminated in place, unless there are more than
  `MAXMENUARGS`, and writes only inside the string;
* `cmdDispatch_spec`: so `cmd_dispatch` does `commandSpec` of its string;
* `menu_execute_dispatches`: `menu_execute` calls `cmd_dispatch` on each
  non-empty `;`-separated segment of the line in order, those made of spaces
  and tabs only included, whatever follows the line's NUL; with `isargs` it
  panics when one of them fails.
-/

namespace Os161.Menu

open Libc

/-- `MAXMENUARGS`. -/
def maxMenuArgs : Nat := 16

/-- `E2BIG` (kern/errno.h). -/
def e2big : Nat := 14

/-- What `cmd_dispatch` did with a command. -/
inductive Dispatch (F : Type)
  /-- "Command line has too many words": `E2BIG`, and no command runs. -/
  | tooManyWords
  /-- No word: `0`, and no command runs. -/
  | noWords
  /-- "Command not found": `EINVAL`. -/
  | notFound (args : List (List Char))
  /-- `cmdtable[i].func(nargs, args)`, with `nargs` the length of `args`. -/
  | call (func : F) (args : List (List Char))
  deriving DecidableEq

variable {F : Type}

/-- The value `cmd_dispatch` returns, given what each command returns. -/
def Dispatch.result (exec : F → List (List Char) → Int) : Dispatch F → Int
  | .tooManyWords => e2big
  | .noWords => 0
  | .notFound _ => Errno.einval.toNat
  | .call func args => exec func args

/-- `for (i=0; cmdtable[i].name; i++)`, testing
    `*cmdtable[i].name && !strcmp(args[0], cmdtable[i].name)`: the first
    command of the table named `name`. -/
def lookup (cmdtable : List (List Char × F)) (name : List Char) : Option F :=
  (cmdtable.find? fun c => !c.1.isEmpty && c.1 == name).map Prod.snd

/-- The end of `cmd_dispatch`, once its words are in `args`. -/
def dispatchArgs (cmdtable : List (List Char × F)) : List (List Char) → Dispatch F
  | [] => .noWords
  | name :: rest =>
    match lookup cmdtable name with
    | some func => .call func (name :: rest)
    | none => .notFound (name :: rest)

/-- The word loop of `cmd_dispatch`, at most `fuel` rounds: the buffer after
    it and the pointers to the words (`args`), or `none` for `E2BIG`. -/
def cmdDispatchArgs :
    Nat → List Char → Option Nat → Option Nat → List Nat → Option (List Char × Option (List Nat))
  | 0, _, _, _, _ => none
  | fuel + 1, buf, string, context, args => do
    let (buf, context, word) ← strtokR buf string [' ', '\t'] context
    match word with
    | none => pure (buf, some args)
    | some word =>
      if args.length ≥ maxMenuArgs then pure (buf, none)
      else cmdDispatchArgs fuel buf none context (args ++ [word])

/-- `cmd_dispatch(cmd)`: the buffer after it and what it did. Each round of the
    word loop moves past a character of the buffer, so `buf.length + 1` rounds
    are enough (`cmdDispatchArgs_run`). -/
def cmdDispatch (cmdtable : List (List Char × F)) (buf : List Char) (cmd : Nat) :
    Option (List Char × Dispatch F) := do
  let (buf, args) ← cmdDispatchArgs (buf.length + 1) buf (some cmd) none []
  match args with
  | none => pure (buf, .tooManyWords)
  | some args =>
    -- the words, as `strcmp` and the command read them
    let args ← args.mapM fun a => cstr (buf.drop a)
    pure (buf, dispatchArgs cmdtable args)

/-- The loop of `menu_execute`, at most `fuel` rounds: the calls of
    `cmd_dispatch` made so far, `done`, and those it makes. -/
def menuExecuteLoop (cmdtable : List (List Char × F)) (exec : F → List (List Char) → Int)
    (isargs : Bool) :
    Nat → List Char → Option Nat → Option Nat → List (Dispatch F) → Option (List (Dispatch F))
  | 0, _, _, _, _ => none
  | fuel + 1, buf, string, context, done => do
    let (buf, context, command) ← strtokR buf string [';'] context
    match command with
    | none => pure done
    | some command =>
      let (buf, d) ← cmdDispatch cmdtable buf command
      -- `panic("Failure processing kernel arguments\n")`
      if isargs ∧ d.result exec ≠ 0 then none
      else menuExecuteLoop cmdtable exec isargs fuel buf none context (done ++ [d])

/-- `menu_execute(line, isargs)` with the line at the start of `buf`: the
    calls of `cmd_dispatch` it made, in order. -/
def menuExecute (cmdtable : List (List Char × F)) (exec : F → List (List Char) → Int)
    (buf : List Char) (isargs : Bool) : Option (List (Dispatch F)) :=
  menuExecuteLoop cmdtable exec isargs (buf.length + 1) buf (some 0) none []

/-- What `cmd_dispatch` does with the command `command`: its words are the
    maximal runs of characters other than space and tab, and more than
    `MAXMENUARGS` of them are refused. -/
def commandSpec (cmdtable : List (List Char × F)) (command : List Char) : Dispatch F :=
  if maxMenuArgs < (Tokens.words [' ', '\t'] command).length then .tooManyWords
  else dispatchArgs cmdtable (Tokens.words [' ', '\t'] command)

/-- No command runs exactly for a command of spaces and tabs only. -/
theorem commandSpec_eq_noWords_iff (cmdtable : List (List Char × F)) (command : List Char) :
    commandSpec cmdtable command = .noWords ↔ ∀ c ∈ command, c ∈ [' ', '\t'] := by
  rw [← Tokens.words_eq_nil_iff, commandSpec]
  cases hw : Tokens.words [' ', '\t'] command with
  | nil => simp [maxMenuArgs, dispatchArgs]
  | cons name rest =>
    simp only [reduceCtorEq, iff_false]
    split
    · exact nofun
    · cases hl : lookup cmdtable name <;> simp [dispatchArgs, hl]

/-- The words read from pointers that each point to one. -/
theorem mapM_cstr {buf : List Char} {hs : List Nat} {ws : List (List Char)}
    (h : List.Forall₂ (fun a w => cstr (buf.drop a) = some w) hs ws) :
    hs.mapM (fun a => cstr (buf.drop a)) = some ws := by
  induction h with
  | nil => rfl
  | cons hw _ ih => simp [List.mapM_cons, hw, ih]

theorem space_tab_no_nul : '\x00' ∉ [' ', '\t'] := by decide

/-- The word loop of `cmd_dispatch` from a context with the words `ws` to
    come, `args` collected so far: it collects pointers to all of them, each
    to its word NUL-terminated in place, or stops with `E2BIG` when there are
    more than `MAXMENUARGS` words in all; and it writes only from the context
    on, up to the end of the string. The induction is on the words to come,
    for every buffer and context. -/
theorem cmdDispatchArgs_run {ws : List (List Char)} {fuel : Nat} {buf : List Char}
    {string context : Option Nat} {e lo : Nat} {args : List Nat}
    (hP : Pending [' ', '\t'] buf (string.or context) e ws)
    (hlo : ∀ q, string.or context = some q → lo ≤ q) (hfuel : ws.length < fuel)
    (hargs : args.length ≤ maxMenuArgs) :
    ∃ buf' res, cmdDispatchArgs fuel buf string context args = some (buf', res) ∧
      Frame buf buf' lo e ∧
      if args.length + ws.length ≤ maxMenuArgs then
        ∃ hs, res = some (args ++ hs) ∧ List.Forall₂ (fun h w => cstr (buf'.drop h) = some w) hs ws
      else res = none := by
  induction ws generalizing fuel buf string context lo args with
  | nil =>
    obtain ⟨fuel, rfl⟩ : ∃ f, fuel = f + 1 := ⟨fuel - 1, by simp at hfuel; omega⟩
    rcases strtokR_next space_tab_no_nul hP with ⟨-, hcall⟩ | ⟨_, _, _, _, hnil, -⟩
    · refine ⟨buf, some args, ?_, Frame.refl buf lo e, ?_⟩
      · rw [cmdDispatchArgs, strtokR_or, hcall]
        rfl
      · rw [if_pos (by simpa using hargs)]
        exact ⟨[], by simp, .nil⟩
    · exact absurd hnil (List.cons_ne_nil _ _).symm
  | cons w ws ih =>
    obtain ⟨fuel, rfl⟩ : ∃ f, fuel = f + 1 := ⟨fuel - 1, by simp at hfuel; omega⟩
    rcases strtokR_next space_tab_no_nul hP with ⟨hnil, -⟩ | ⟨w', ws', h, context', hws, hcall, hq, hhe,
      hw, hctx, hP'⟩
    · exact absurd hnil (List.cons_ne_nil _ _)
    obtain ⟨rfl, rfl⟩ := List.cons.inj hws
    -- the word lies after the context, which is not `NULL` as a word is left
    obtain ⟨q, hsc⟩ : ∃ q, string.or context = some q := by
      cases hsc : string.or context with
      | none => rw [hsc] at hP; exact absurd hP (List.cons_ne_nil _ _)
      | some q => exact ⟨q, rfl⟩
    have hlo' : lo ≤ h := (hlo q hsc).trans (hq q hsc)
    have hframe : Frame buf (buf.set (h + w.length) '\x00') lo e := Frame.set (by omega) hhe _
    have hstep : cmdDispatchArgs (fuel + 1) buf string context args =
        if args.length ≥ maxMenuArgs then some (buf.set (h + w.length) '\x00', none)
        else cmdDispatchArgs fuel (buf.set (h + w.length) '\x00') none context' (args ++ [h]) := by
      rw [cmdDispatchArgs, strtokR_or, hcall]
      rfl
    rw [hstep]
    by_cases hfull : args.length ≥ maxMenuArgs
    · -- `E2BIG`
      refine ⟨_, none, if_pos hfull, hframe, ?_⟩
      rw [if_neg (by rw [List.length_cons]; omega)]
    · obtain ⟨buf', res, hrun, hframe', hres⟩ := @ih fuel _ none context' (h + w.length + 1)
        (args ++ [h]) hP' (fun q hq => (hctx q hq).ge) (by simpa using hfuel)
        (by simp only [List.length_append, List.length_cons, List.length_nil]; omega)
      refine ⟨buf', res, by rw [if_neg hfull, hrun], hframe.trans hframe' (by omega), ?_⟩
      have hlen : (args ++ [h]).length + ws.length = args.length + (w :: ws).length := by
        simp only [List.length_append, List.length_cons, List.length_nil]
        omega
      rw [hlen] at hres
      by_cases hc : args.length + (w :: ws).length ≤ maxMenuArgs
      · -- every word is collected: `w` at `h`, written before the rest
        rw [if_pos hc] at hres ⊢
        obtain ⟨hs, rfl, hhs⟩ := hres
        exact ⟨h :: hs, by simp, .cons (hframe'.cstr_eq hw (.inl (by omega))) hhs⟩
      · rw [if_neg hc] at hres ⊢
        exact hres

/-- `cmd_dispatch` on a command string `command` does `commandSpec` of it,
    and writes only inside the string and over its NUL. -/
theorem cmdDispatch_spec (cmdtable : List (List Char × F)) {buf : List Char} {cmd : Nat}
    {command : List Char} (hcmd : cstr (buf.drop cmd) = some command) :
    ∃ buf', cmdDispatch cmdtable buf cmd = some (buf', commandSpec cmdtable command) ∧
      Frame buf buf' cmd (cmd + command.length) := by
  obtain ⟨-, more, hbuf⟩ := cstr_eq_some hcmd
  -- enough rounds: no more words than characters, fewer than in the buffer
  have hfuel : (Tokens.words [' ', '\t'] command).length < buf.length + 1 := by
    have hlen := congrArg List.length hbuf
    simp only [List.length_drop, List.length_append, List.length_cons] at hlen
    have : (Tokens.words [' ', '\t'] command).length ≤ command.length :=
      Tokens.length_words_le command
    omega
  obtain ⟨buf', res, hrun, hframe, hres⟩ := @cmdDispatchArgs_run _ _ buf (some cmd) none _ cmd []
    ⟨command, hcmd, rfl, rfl⟩ (fun q hq => by cases hq; rfl) hfuel
    (Nat.zero_le _)
  refine ⟨buf', ?_, hframe⟩
  rw [List.length_nil, Nat.zero_add] at hres
  unfold cmdDispatch commandSpec
  rw [hrun]
  by_cases hc : (Tokens.words [' ', '\t'] command).length ≤ maxMenuArgs
  · rw [if_pos hc] at hres
    obtain ⟨hs, rfl, hhs⟩ := hres
    rw [if_neg (Nat.not_lt.2 hc)]
    simp [mapM_cstr hhs]
  · rw [if_neg hc] at hres
    rw [if_pos (Nat.lt_of_not_le hc), hres]
    rfl

theorem semicolon_no_nul : '\x00' ∉ [';'] := by decide

/-- The loop of `menu_execute` from a context with the commands `ws` to come:
    it calls `cmd_dispatch` on each in turn, unless with `isargs` one of them
    fails, which is a `panic`. By induction on the commands to come: each
    call of `cmd_dispatch` writes inside its own command only, before the
    context of the loop. -/
theorem menuExecuteLoop_run (cmdtable : List (List Char × F)) (exec : F → List (List Char) → Int)
    (isargs : Bool) {ws : List (List Char)} {fuel : Nat} {buf : List Char}
    {string context : Option Nat} {e : Nat} (hP : Pending [';'] buf (string.or context) e ws)
    (hfuel : ws.length < fuel) (done : List (Dispatch F)) :
    menuExecuteLoop cmdtable exec isargs fuel buf string context done =
      if isargs ∧ ∃ c ∈ ws, (commandSpec cmdtable c).result exec ≠ 0 then none
      else some (done ++ ws.map (commandSpec cmdtable)) := by
  induction ws generalizing fuel buf string context done with
  | nil =>
    obtain ⟨fuel, rfl⟩ : ∃ f, fuel = f + 1 := ⟨fuel - 1, by simp at hfuel; omega⟩
    rcases strtokR_next semicolon_no_nul hP with ⟨-, hcall⟩ | ⟨_, _, _, _, hnil, -⟩
    · rw [menuExecuteLoop, strtokR_or, hcall]
      simp
    · exact absurd hnil (List.cons_ne_nil _ _).symm
  | cons w ws ih =>
    obtain ⟨fuel, rfl⟩ : ∃ f, fuel = f + 1 := ⟨fuel - 1, by simp at hfuel; omega⟩
    rcases strtokR_next semicolon_no_nul hP with ⟨hnil, -⟩ | ⟨w', ws', h, context', hws, hcall, -, -,
      hw, hctx, hP'⟩
    · exact absurd hnil (List.cons_ne_nil _ _)
    obtain ⟨rfl, rfl⟩ := List.cons.inj hws
    obtain ⟨buf', hdispatch, hframe⟩ := cmdDispatch_spec cmdtable hw
    -- the commands to come lie past the one dispatched
    have hP'' : Pending [';'] buf' context' e ws := by
      cases context' with
      | none => exact hP'
      | some q => exact hP'.frame hframe (by rw [hctx q rfl]; omega)
    rw [menuExecuteLoop, strtokR_or, hcall]
    simp only [Option.bind_eq_bind, Option.bind_some, hdispatch]
    by_cases hfail : isargs = true ∧ (commandSpec cmdtable w).result exec ≠ 0
    · rw [if_pos hfail, if_pos ⟨hfail.1, w, List.mem_cons_self, hfail.2⟩]
    · rw [if_neg hfail, ih hP'' (by simpa using hfuel)]
      have hcond : (isargs = true ∧ ∃ c ∈ w :: ws, (commandSpec cmdtable c).result exec ≠ 0) ↔
          (isargs = true ∧ ∃ c ∈ ws, (commandSpec cmdtable c).result exec ≠ 0) := by
        simp only [List.mem_cons, exists_eq_or_imp]
        constructor
        · rintro ⟨hi, hw | hws⟩
          · exact absurd ⟨hi, hw⟩ hfail
          · exact ⟨hi, hws⟩
        · rintro ⟨hi, hws⟩
          exact ⟨hi, .inr hws⟩
      simp only [hcond, List.map_cons, List.append_assoc, List.singleton_append]

/-- `menu_execute` on a line, whatever follows its NUL: it calls
    `cmd_dispatch` on each non-empty `;`-separated segment of the line, in
    order, and each call does `commandSpec` of its segment, unless with
    `isargs` one of them fails, which is a `panic`. A segment of spaces and
    tabs only is among them, and is the one case where no command runs. -/
theorem menu_execute_dispatches (cmdtable : List (List Char × F))
    (exec : F → List (List Char) → Int) (isargs : Bool) {line : List Char} (hline : '\x00' ∉ line)
    (more : List Char) :
    menuExecute cmdtable exec (line ++ '\x00' :: more) isargs =
        (if isargs ∧ ∃ c ∈ Tokens.words [';'] line, (commandSpec cmdtable c).result exec ≠ 0 then none
        else some ((Tokens.words [';'] line).map (commandSpec cmdtable))) ∧
      ∀ c ∈ Tokens.words [';'] line, (commandSpec cmdtable c = .noWords ↔ ∀ ch ∈ c, ch ∈ [' ', '\t']) := by
  refine ⟨?_, fun c _ => commandSpec_eq_noWords_iff cmdtable c⟩
  have hP : Pending [';'] (line ++ '\x00' :: more) ((some 0).or none) line.length
      (Tokens.words [';'] line) := ⟨line, cstr_append hline more, Nat.zero_add _, rfl⟩
  have hfuel : (Tokens.words [';'] line).length < (line ++ '\x00' :: more).length + 1 := by
    have : (Tokens.words [';'] line).length ≤ line.length := Tokens.length_words_le line
    simp only [List.length_append, List.length_cons]
    omega
  rw [menuExecute, menuExecuteLoop_run cmdtable exec isargs hP hfuel, List.nil_append]

/-- The line `ls; ` at the prompt: two segments, `ls` and a blank one. -/
theorem menu_execute_dispatches_of_ls :
    '\x00' ∉ ['l', 's', ';', ' '] ∧
    ((menuExecute [(['l', 's'], ())] (fun _ _ => 0) (['l', 's', ';', ' '] ++ '\x00' :: []) false =
        (if false = true ∧ ∃ c ∈ Tokens.words [';'] ['l', 's', ';', ' '],
            (commandSpec [(['l', 's'], ())] c).result (fun _ _ => 0) ≠ 0 then none
        else some ((Tokens.words [';'] ['l', 's', ';', ' ']).map (commandSpec [(['l', 's'], ())])))) ∧
      ∀ c ∈ Tokens.words [';'] ['l', 's', ';', ' '],
        (commandSpec [(['l', 's'], ())] c = .noWords ↔ ∀ ch ∈ c, ch ∈ [' ', '\t'])) :=
  ⟨by decide, menu_execute_dispatches [(['l', 's'], ())] (fun _ _ => 0) false (by decide) []⟩

/-- The line ` `: `menu_execute` calls `cmd_dispatch` on its one segment, a
    space, which finds no word. -/
theorem menu_execute_blank_segment :
    menuExecute ([] : List (List Char × Unit)) (fun _ _ => 0) [' ', '\x00'] false = some [.noWords] := by
  decide

end Os161.Menu
