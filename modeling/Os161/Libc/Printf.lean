import Mathlib
import Os161.Lib.Bytes

/-!
# `printf` and `snprintf`

common/libc/printf/__printf.c formats a string: `__vprintf` takes the format
one character at a time (`__pf_send`), copying plain characters through and
reading a `%`-field's flags (`#`, `-`, `l`, a leading `0`, a width) into the
state `PF`, until a conversion character prints the field. Every piece of
output goes to the callback `sendfunc` through `__pf_print`, which also counts
it in `charcount`, an `int`. `vsnprintf` (snprintf.c) is `__vprintf` with a
callback that keeps the characters that fit in the buffer.

The output is the list of strings handed to `sendfunc`, in order (`PF.sent`);
the callback sees them one after another, and nothing `__vprintf` computes
depends on what it does with them. A variadic argument is given with its C
type (`Arg`); reading one of another type is undefined (`none`), as is a
store outside the number buffer of `__pf_printnum`, and a failed `assert`.
Signed arithmetic that overflows wraps, as the MIPS code does.

* `digitLoop_spec`: the digit loop writes the base-`b` digits of the number
  (`Nat.toDigits`) right to left into the buffer, and stays inside it for
  every 64-bit number in base 8, 10 or 16 (`printnum_of_lt`);
* `vprintf_field`: a numeric field of an argument of its size sends the text
  printf.html documents (`fieldText`): the sign, the base prefix and the
  digits, padded to the width before them, with zeros after the prefixes for
  a leading `0`, or after the digits for `-`, with zeros when there is also a
  leading `0` (`%-05d` prints `42` as `42000`); the count is its length;
* `vsnprintf_spec`: `vsnprintf` stores the first `len - 1` characters of the
  output and a NUL after them, nothing at or past `buf[len]`, and returns the
  count of characters, as an `int`;
* `vsnprintf_count_wraps`: an output of `2^31` characters is counted as
  `-2^31`.
-/

namespace Os161.Libc

/-- The `int` a 32-bit two's complement result is read as. -/
def wrapInt (z : Int) : Int := z.bmod (2 ^ 32)

/-- A variadic argument with its C type. `int` and `long` are both 32 bits on
    MIPS, as are pointers; a string is its characters up to its NUL, `NULL`
    being `none`. -/
inductive Arg
  | int (v : Int32)
  | uint (v : UInt32)
  | llong (v : Int64)
  | ullong (v : UInt64)
  | ptr (v : UInt32)
  | str (s : Option (List Char))
  deriving DecidableEq, Repr

/-- The size of the integer argument: `INTSZ`, `LONGSZ`, `LLONGSZ`. -/
inductive PfSize
  | intsz
  | longsz
  | llongsz
  deriving DecidableEq, Repr

/-- `PF`, the state of a printf session: what was sent, `charcount`, the
    arguments left, and the fields of the `%`-format being read. `charcount`
    is an `int` that only ever grows and is read once, at the end: it is kept
    whole here and wrapped there. -/
structure PF where
  sent : List (List Char)
  charcount : Nat
  args : List Arg
  inPct : Bool
  size : PfSize
  num : Nat
  sign : Bool
  spacing : Int
  rightspc : Bool
  fillchar : Char
  base : Nat
  baseprefix : Bool
  altformat : Bool

namespace PF

/-- `__pf_print(pf, txt, len)`. -/
def print (pf : PF) (txt : List Char) : PF :=
  { pf with sent := pf.sent ++ [txt], charcount := pf.charcount + txt.length }

/-- `__pf_endfield(pf)`. -/
def endfield (pf : PF) : PF :=
  { pf with inPct := false, size := .intsz, num := 0, sign := false, spacing := 0, rightspc := false,
            fillchar := ' ', base := 0, baseprefix := false, altformat := false }

/-- `__pf_modifier(pf, ch)`; `none` when its `assert` fails. -/
def modifier (pf : PF) (ch : Char) : Option PF :=
  match ch with
  | '#' => some { pf with altformat := true }
  | '-' => some { pf with rightspc := true }
  | 'l' => some (if pf.size = .longsz then { pf with size := .llongsz } else { pf with size := .longsz })
  | '0' =>
    -- a `0` after digits is part of the width; a leading one asks for zero fill
    some (if pf.spacing > 0 then { pf with spacing := wrapInt (pf.spacing * 10) }
      else { pf with fillchar := '0' })
  | _ =>
    if '0' < ch ∧ ch ≤ '9' then
      some { pf with spacing := wrapInt (pf.spacing * 10 + (ch.toNat - '0'.toNat : Nat)) }
    else none

/-- `va_arg(pf->ap, ...)`: the next argument. -/
def popArg (pf : PF) : Option (Arg × PF) :=
  match pf.args with
  | [] => none
  | a :: rest => some (a, { pf with args := rest })

/-- `__pf_getnum(pf, ch)`: the number to print, its magnitude in `num` and a
    negative sign in `sign`. -/
def getnum (pf : PF) (ch : Char) : Option PF := do
  let (a, pf) ← pf.popArg
  if ch = 'p' then
    match a with
    | .ptr v => pure { pf with num := v.toNat }
    | _ => none
  else if ch = 'd' then
    let signednum ← match pf.size, a with
      | .intsz, .int v => some v.toInt
      | .longsz, .int v => some v.toInt
      | .llongsz, .llong v => some v.toInt
      | _, _ => none
    -- `pf->num = -signednum;` wraps for `LLONG_MIN` to `LLONG_MIN`, whose
    -- `unsigned long long` is its magnitude
    if signednum < 0 then pure { pf with sign := true, num := signednum.natAbs }
    else pure { pf with num := signednum.toNat }
  else
    match pf.size, a with
    | .intsz, .uint v => pure { pf with num := v.toNat }
    | .longsz, .uint v => pure { pf with num := v.toNat }
    | .llongsz, .ullong v => pure { pf with num := v.toNat }
    | _, _ => none

/-- `__pf_setbase(pf, ch)`. -/
def setbase (pf : PF) (ch : Char) : PF :=
  let base := match ch with
    | 'd' | 'u' => 10
    | 'x' | 'p' => 16
    | 'o' => 8
    | _ => pf.base
  { pf with base, baseprefix := pf.baseprefix || pf.altformat || ch = 'p' }

/-- `__pf_fill(pf, spc)`: `spc` fill characters, one `__pf_print` each. -/
def fill (pf : PF) : Nat → PF
  | 0 => pf
  | k + 1 => (pf.print [pf.fillchar]).fill k

/-- `__pf_printstuff(pf, prefix, prefix2, stuff)`. -/
def printstuff (pf : PF) (pre pre2 stuff : List Char) : PF :=
  let len := wrapInt (pre.length + pre2.length + stuff.length)
  let spc := if pf.spacing > len then wrapInt (pf.spacing - len) else 0
  -- padding on the left, not with zeros: before the prefixes
  let pf₁ := if spc > 0 ∧ pf.rightspc = false ∧ pf.fillchar ≠ '0' then pf.fill spc.toNat else pf
  let pf₂ := (pf₁.print pre).print pre2
  -- padding on the left with zeros: after the prefixes
  let pf₃ := if spc > 0 ∧ pf.rightspc = false ∧ pf.fillchar = '0' then pf₂.fill spc.toNat else pf₂
  let pf₄ := pf₃.print stuff
  -- padding on the right, with the fill character
  if spc > 0 ∧ pf.rightspc = true then pf₄.fill spc.toNat else pf₄

end PF

/-- `NUMBER_BUF_SIZE`: a `long long` in octal, a NUL and one more. -/
def numberBufSize : Nat := 8 * 8 / 3 + 2

/-- `"0123456789abcdef"`. -/
def digitChars : List Char := "0123456789abcdef".toList

/-- The `do ... while` loop of `__pf_printnum`: the digit of `xnum` stored at
    `buf[x]`, then on to the left while `xnum / base > 0`. The index of the
    first digit and the buffer; `none` for a store before the buffer. -/
def digitLoop (base : Nat) : Nat → (Nat → Char) → Nat → Option (Nat × (Nat → Char))
  | x, buf, xnum =>
    let buf := Function.update buf x (digitChars.getD (xnum % base) '*')
    if xnum / base > 0 then
      match x with
      | 0 => none
      | x + 1 => digitLoop base x buf (xnum / base)
    else some (x, buf)

namespace PF

/-- `__pf_printnum(pf)`: the digits from `buf[NUMBER_BUF_SIZE - 2]` leftwards,
    up to the NUL in the last slot, after the sign and the base prefix. -/
def printnum (pf : PF) : Option PF := do
  let (x, buf) ← digitLoop pf.base (numberBufSize - 2) (fun _ => '\x00') pf.num
  let stuff := (List.range (numberBufSize - 1 - x)).map fun i => buf (x + i)
  let bprefix :=
    if pf.baseprefix ∧ pf.base = 16 then "0x".toList
    else if pf.baseprefix ∧ pf.base = 8 then "0".toList
    else []
  let sprefix := if pf.sign then "-".toList else []
  pure (pf.printstuff sprefix bprefix stuff)

/-- `__pf_send(pf, ch)`. -/
def send (pf : PF) (ch : Char) : Option PF :=
  if ch = '\x00' then none
  else if pf.inPct = false ∧ ch ≠ '%' then some (pf.print [ch])
  else if pf.inPct = false then some { pf with inPct := true }
  else if ch ∈ "#-l0123456789".toList then pf.modifier ch
  else if ch ∈ "doupx".toList then do
    let pf ← pf.getnum ch
    let pf ← (pf.setbase ch).printnum
    pure pf.endfield
  else if ch = 's' then do
    let (a, pf) ← pf.popArg
    match a with
    | .str s => pure (pf.printstuff [] [] (s.getD "(null)".toList)).endfield
    | _ => none
  else do
    -- `%%`, `%c`, or any other character, printed as a one-character string
    let (x, pf) ← if ch = 'c' then
        match pf.popArg with
        | some (.int v, pf) => some (Char.ofNat (v.toInt % 256).toNat, pf)
        | _ => none
      else some (ch, pf)
    pure (pf.printstuff [] [] (if x = '\x00' then [] else [x])).endfield

/-- A session's first state: nothing sent, and no field being read. -/
def start (args : List Arg) : PF :=
  endfield ⟨[], 0, args, false, .intsz, 0, false, 0, false, ' ', 0, false, false⟩

end PF

/-- The loop of `__vprintf` over the format, up to its NUL. -/
def vprintfLoop : List Char → PF → Option PF
  | [], pf => some pf
  | c :: cs, pf => if c = '\x00' then some pf else (pf.send c).bind (vprintfLoop cs)

/-- `__vprintf(func, clientdata, format, ap)`: what is sent to `func`, and the
    count it returns. -/
def vprintf (fmt : List Char) (args : List Arg) : Option (List (List Char) × Int) :=
  (vprintfLoop fmt (PF.start args)).map fun pf => (pf.sent, wrapInt pf.charcount)

/-- `SNP`: the buffer, the characters it has room for before the NUL, and the
    index of the next one. -/
structure SNP where
  buf : Nat → UInt8
  buflen : Nat
  bufpos : Nat

/-- `__snprintf_send(mydata, data, len)`: each character stored while there is
    room. -/
def snprintfSend (snp : SNP) (data : List Char) : SNP :=
  data.foldl (fun snp c =>
    if snp.bufpos < snp.buflen then
      { snp with buf := Function.update snp.buf snp.bufpos (Bytes.cchar c), bufpos := snp.bufpos + 1 }
    else snp) snp

/-- `vsnprintf(buf, len, fmt, ap)`: the buffer after it, and the count it
    returns. `__vprintf` reads nothing the callback writes (the buffer is not
    the format or an argument), so the callback is run over what was sent, in
    order. -/
def vsnprintf (buf : Nat → UInt8) (len : Nat) (fmt : List Char) (args : List Arg) :
    Option ((Nat → UInt8) × Int) := do
  let snp : SNP := ⟨buf, if len = 0 then 0 else len - 1, 0⟩
  let (sent, chars) ← vprintf fmt args
  let snp := sent.foldl snprintfSend snp
  -- the NUL, in the slot kept for it
  let buf := if len > 0 then Function.update snp.buf snp.bufpos 0 else snp.buf
  pure (buf, chars)

/-! ### What is sent and what is counted -/

theorem wrapInt_of_lt {z : Int} (h0 : -2 ^ 31 ≤ z) (h : z < 2 ^ 31) : wrapInt z = z :=
  Int.bmod_eq_of_le (by omega) (by omega)

namespace PF

/-- `out` sent, one `sendfunc` call a string, and counted. -/
def emit (pf : PF) (out : List (List Char)) : PF :=
  { pf with sent := pf.sent ++ out, charcount := pf.charcount + out.flatten.length }

/-- `charcount` is the number of characters sent. -/
def Counted (pf : PF) : Prop := pf.charcount = pf.sent.flatten.length

variable {pf pf' : PF}

@[simp] theorem emit_sent (pf : PF) (out : List (List Char)) : (pf.emit out).sent = pf.sent ++ out := rfl
@[simp] theorem emit_args (pf : PF) (out : List (List Char)) : (pf.emit out).args = pf.args := rfl
@[simp] theorem emit_inPct (pf : PF) (out : List (List Char)) : (pf.emit out).inPct = pf.inPct := rfl
@[simp] theorem emit_fillchar (pf : PF) (out : List (List Char)) : (pf.emit out).fillchar = pf.fillchar := rfl
@[simp] theorem emit_rightspc (pf : PF) (out : List (List Char)) : (pf.emit out).rightspc = pf.rightspc := rfl
@[simp] theorem emit_spacing (pf : PF) (out : List (List Char)) : (pf.emit out).spacing = pf.spacing := rfl

@[simp] theorem endfield_sent (pf : PF) : pf.endfield.sent = pf.sent := rfl
@[simp] theorem endfield_charcount (pf : PF) : pf.endfield.charcount = pf.charcount := rfl

theorem emit_emit (pf : PF) (a b : List (List Char)) : (pf.emit a).emit b = pf.emit (a ++ b) := by
  simp only [emit, List.append_assoc, List.flatten_append, List.length_append, Nat.add_assoc]

theorem print_eq (pf : PF) (txt : List Char) : pf.print txt = pf.emit [txt] := by
  simp [print, emit]

/-- `__pf_fill` sends `spc` copies of the fill character, one at a time. -/
theorem fill_eq (pf : PF) (k : Nat) : pf.fill k = pf.emit (List.replicate k [pf.fillchar]) := by
  induction k generalizing pf with
  | zero => simp [fill, emit]
  | succ k ih =>
    rw [fill, ih, print_eq, emit_emit, emit_fillchar, List.replicate_succ, List.singleton_append]

/-- `__pf_printstuff` sends the padding and the three strings: the padding
    before the prefixes, between them and `stuff`, or after `stuff`, as the
    flags say. -/
theorem printstuff_eq (pf : PF) (pre pre2 stuff : List Char) {spc : Int}
    (hspc : spc = if pf.spacing > wrapInt (pre.length + pre2.length + stuff.length) then
      wrapInt (pf.spacing - wrapInt (pre.length + pre2.length + stuff.length)) else 0) :
    pf.printstuff pre pre2 stuff =
      pf.emit ((if spc > 0 ∧ pf.rightspc = false ∧ pf.fillchar ≠ '0' then List.replicate spc.toNat [pf.fillchar] else []) ++
        [pre, pre2] ++
        (if spc > 0 ∧ pf.rightspc = false ∧ pf.fillchar = '0' then List.replicate spc.toNat [pf.fillchar] else []) ++
        [stuff] ++
        (if spc > 0 ∧ pf.rightspc = true then List.replicate spc.toNat [pf.fillchar] else [])) := by
  rw [printstuff, ← hspc]
  simp only [print_eq, fill_eq]
  split_ifs <;> simp only [emit_emit, emit_fillchar, List.nil_append, List.append_nil, List.append_assoc,
    List.cons_append]

theorem Counted.emit (hc : pf.Counted) (out : List (List Char)) : (pf.emit out).Counted := by
  simp only [Counted, PF.emit, List.flatten_append, List.length_append] at hc ⊢
  omega

theorem Counted.printstuff (hc : pf.Counted) (pre pre2 stuff : List Char) :
    (pf.printstuff pre pre2 stuff).Counted := by
  rw [printstuff_eq pf pre pre2 stuff rfl]
  exact hc.emit _

/-! The field's flags, the arguments and the number are no output. -/

theorem Counted.modifier (hc : pf.Counted) {ch : Char} (h : pf.modifier ch = some pf') : pf'.Counted := by
  unfold PF.modifier at h
  split at h <;> (try split at h) <;> cases h <;> exact hc

theorem Counted.popArg (hc : pf.Counted) {a : Arg} (h : pf.popArg = some (a, pf')) : pf'.Counted := by
  unfold PF.popArg at h
  split at h <;> cases h
  exact hc

/-- `__pf_getnum` takes one argument and sets `num`, and `sign` or not. -/
theorem getnum_eq {ch : Char} (h : pf.getnum ch = some pf') :
    ∃ n s, pf' = { pf with args := pf.args.tail, num := n, sign := s } := by
  unfold PF.getnum PF.popArg at h
  cases hargs : pf.args with
  | nil => simp [hargs] at h
  | cons a rest =>
    simp only [hargs, Option.bind_eq_bind, Option.bind_some, List.tail_cons] at h ⊢
    split_ifs at h
    · split at h <;> cases h
      exact ⟨_, _, rfl⟩
    · split at h
      case h_4 => simp at h
      all_goals split_ifs at h <;> cases h <;> exact ⟨_, _, rfl⟩
    · split at h <;> cases h <;> exact ⟨_, _, rfl⟩

theorem Counted.getnum (hc : pf.Counted) {ch : Char} (h : pf.getnum ch = some pf') : pf'.Counted := by
  obtain ⟨n, s, rfl⟩ := getnum_eq h
  exact hc

theorem Counted.printnum (hc : pf.Counted) (h : pf.printnum = some pf') : pf'.Counted := by
  simp only [PF.printnum, Option.bind_eq_bind, Option.bind_eq_some_iff, Option.pure_def, Option.some.injEq] at h
  obtain ⟨_, -, rfl⟩ := h
  exact hc.printstuff _ _ _

/-- Each character of the format keeps the count: `charcount` is the number of
    characters sent. -/
theorem Counted.send (hc : pf.Counted) {ch : Char} (h : pf.send ch = some pf') : pf'.Counted := by
  unfold PF.send at h
  split_ifs at h
  · -- a plain character
    cases h
    rw [print_eq]
    exact hc.emit _
  · -- the `%` that starts a field
    cases h
    exact hc
  · exact hc.modifier h
  · -- `%d`, `%o`, `%u`, `%p`, `%x`
    simp only [Option.bind_eq_bind, Option.bind_eq_some_iff, Option.pure_def, Option.some.injEq] at h
    obtain ⟨pf₁, hget, pf₂, hnum, rfl⟩ := h
    have hc₁ : pf₁.Counted := hc.getnum hget
    have hc₂ : pf₂.Counted := @Counted.printnum (pf₁.setbase ch) pf₂ hc₁ hnum
    exact hc₂
  · -- `%s`
    simp only [Option.bind_eq_bind, Option.bind_eq_some_iff, Option.pure_def] at h
    obtain ⟨⟨a, pf₁⟩, hpop, h⟩ := h
    split at h <;> cases h
    exact (hc.popArg hpop).printstuff _ _ _
  · -- `%c`
    dsimp only at h
    split at h
    · next v pf₁ hpop =>
      simp only [Option.bind_eq_bind, Option.bind_some, Option.pure_def, Option.some.injEq] at h
      cases h
      exact (hc.popArg hpop).printstuff _ _ _
    · simp at h
  · -- `%%` and any other character, printed as it is
    dsimp only at h
    simp only [Option.bind_eq_bind, Option.bind_some, Option.pure_def, Option.some.injEq] at h
    cases h
    exact hc.printstuff _ _ _

end PF

theorem vprintfLoop_counted {fmt : List Char} {pf pf' : PF} (hc : pf.Counted)
    (h : vprintfLoop fmt pf = some pf') : pf'.Counted := by
  induction fmt generalizing pf with
  | nil =>
    cases h
    exact hc
  | cons c cs ih =>
    rw [vprintfLoop] at h
    split_ifs at h
    · cases h
      exact hc
    · obtain ⟨pf₁, hsend, h⟩ := Option.bind_eq_some_iff.1 h
      exact ih (hc.send hsend) h

/-- `__vprintf` returns the number of characters it sent, as an `int`. -/
theorem vprintf_count {fmt : List Char} {args : List Arg} {sent : List (List Char)} {c : Int}
    (h : vprintf fmt args = some (sent, c)) : c = wrapInt sent.flatten.length := by
  obtain ⟨pf, hloop, hpf⟩ := Option.map_eq_some_iff.1 h
  cases hpf
  rw [vprintfLoop_counted (show (PF.start args).Counted from rfl) hloop]

/-! ### The digit loop -/

/-- The table `digits` gives `Nat.digitChar` for every digit below 16. -/
theorem digitChars_getD {d : Nat} (h : d < 16) : digitChars.getD d '*' = Nat.digitChar d := by
  have htable : ∀ d : Fin 16, digitChars.getD d '*' = Nat.digitChar d := by decide
  exact htable ⟨d, h⟩

/-- The digit loop started at `buf[x]` on a number of at most `x + 1` digits
    stores its base-`base` digits, most significant first, in the slots that
    end at `x`, leaves the slots after `x` alone, and returns the index of the
    first digit. -/
theorem digitLoop_spec {base : Nat} (hb : 1 < base) (hb16 : base ≤ 16) (x : Nat) (buf : Nat → Char)
    (n : Nat) (hn : n < base ^ (x + 1)) :
    ∃ buf', digitLoop base x buf n = some (x + 1 - (Nat.toDigits base n).length, buf') ∧
      (∀ k, x < k → buf' k = buf k) ∧
      (List.range (Nat.toDigits base n).length).map (fun i => buf' (x + 1 - (Nat.toDigits base n).length + i)) =
        Nat.toDigits base n := by
  -- induction on the slot, for every buffer and number the earlier rounds left
  induction x generalizing buf n with
  | zero =>
    -- one slot: a single digit, and the loop stops
    have hlt : n < base := by simpa using hn
    refine ⟨Function.update buf 0 (digitChars.getD (n % base) '*'), ?_, ?_, ?_⟩
    · rw [digitLoop, if_neg (by simp [Nat.div_eq_of_lt hlt]), Nat.toDigits_of_lt_base hlt]
      rfl
    · intro k hk
      exact Function.update_of_ne (by omega) _ _
    · rw [Nat.toDigits_of_lt_base hlt, Nat.mod_eq_of_lt hlt, digitChars_getD (by omega)]
      simp
  | succ x ih =>
    rw [digitLoop]
    by_cases hlt : n < base
    · -- the last digit: the loop stops here
      rw [if_neg (by simp [Nat.div_eq_of_lt hlt]), Nat.toDigits_of_lt_base hlt]
      refine ⟨_, rfl, fun k hk => Function.update_of_ne (by omega) _ _, ?_⟩
      rw [Nat.mod_eq_of_lt hlt, digitChars_getD (by omega)]
      simp
    · -- more digits: the rest of the number, one slot to the left
      have hpos : 0 < base := by omega
      have hdiv : n / base < base ^ (x + 1) := (Nat.div_lt_iff_lt_mul hpos).2 (by rwa [← Nat.pow_succ])
      have hdigits : Nat.toDigits base n = Nat.toDigits base (n / base) ++ [Nat.digitChar (n % base)] := by
        rw [Nat.toDigits_eq_if hb, if_neg hlt]
      have hL : (Nat.toDigits base (n / base)).length ≤ x + 1 :=
        (Nat.length_toDigits_le_iff hb (by omega)).2 hdiv
      obtain ⟨buf', hloop, hframe, hstuff⟩ := ih (Function.update buf (x + 1) (digitChars.getD (n % base) '*'))
        (n / base) hdiv
      rw [if_pos (Nat.div_pos (by omega) hpos), hloop, hdigits, List.length_append, List.length_singleton]
      refine ⟨buf', by congr 2; omega, fun k hk => ?_, ?_⟩
      · rw [hframe k (by omega)]
        exact Function.update_of_ne (by omega) _ _
      · have hlast : buf' (x + 1) = Nat.digitChar (n % base) := by
          rw [hframe (x + 1) (by omega), Function.update_self, digitChars_getD (by
            have := Nat.mod_lt n hpos
            omega)]
        rw [List.range_succ, List.map_append, List.map_singleton]
        congr 1
        · refine Eq.trans (List.map_congr_left fun i _ => ?_) hstuff
          congr 1
          omega
        · rw [← hlast]
          congr 2
          omega

namespace PF

variable {pf : PF}

/-- `__pf_printnum` on a 64-bit number in base 8, 10 or 16 stays in its buffer
    and prints the sign, the base prefix and the digits of the number. -/
theorem printnum_eq (hb : pf.base = 8 ∨ pf.base = 10 ∨ pf.base = 16) (hn : pf.num < 2 ^ 64) :
    pf.printnum = some (pf.printstuff (if pf.sign then "-".toList else [])
      (if pf.baseprefix ∧ pf.base = 16 then "0x".toList
        else if pf.baseprefix ∧ pf.base = 8 then "0".toList else [])
      (Nat.toDigits pf.base pf.num)) := by
  have hb1 : 1 < pf.base := by omega
  -- 22 octal digits hold 66 bits
  have hfits : pf.num < pf.base ^ (numberBufSize - 2 + 1) := by
    have h64 : 2 ^ 64 ≤ pf.base ^ 22 := by
      rcases hb with h | h | h <;> rw [h] <;> decide
    exact Nat.lt_of_lt_of_le hn h64
  obtain ⟨buf', hloop, -, hstuff⟩ := digitLoop_spec hb1 (by omega) (numberBufSize - 2) (fun _ => '\x00') pf.num hfits
  have hL : (Nat.toDigits pf.base pf.num).length ≤ numberBufSize - 2 + 1 :=
    (Nat.length_toDigits_le_iff hb1 (by decide)).2 hfits
  simp only [printnum, hloop, Option.bind_eq_bind, Option.bind_some]
  have hlen : numberBufSize - 1 - (numberBufSize - 2 + 1 - (Nat.toDigits pf.base pf.num).length) =
      (Nat.toDigits pf.base pf.num).length := by
    simp only [numberBufSize] at hL ⊢
    omega
  rw [hlen, hstuff]
  rfl

end PF

/-! ### The documented field

What printf.html says a numeric field is, over the flags, width and size of
its format: `fieldText` is the text, for the argument `FieldArg` relates to
the conversion. -/

/-- The `PfSize` of a field with `n` `l`s, up to two. -/
def sizeOfLs : Nat → PfSize
  | 0 => .intsz
  | 1 => .longsz
  | _ => .llongsz

/-- The decimal width of a format, none for `0`. -/
def widthText (w : Nat) : List Char := if w = 0 then [] else Nat.toDigits 10 w

/-- The base of a numeric conversion. -/
def convBase (conv : Char) : Nat := if conv = 'o' then 8 else if conv = 'x' ∨ conv = 'p' then 16 else 10

/-- The base prefix: `0x` for `%p` and `%#x`, `0` for `%#o`. -/
def basePrefix (alt : Bool) (conv : Char) : List Char :=
  if conv = 'p' ∨ (alt ∧ conv = 'x') then "0x".toList else if alt ∧ conv = 'o' then "0".toList else []

/-- The arguments of a numeric conversion with `n` `l`s, and their values: an
    `int` or `long` (both 32 bits) or a `long long` for `%d`, their unsigned
    kinds for `%u`, `%o` and `%x`, a pointer for `%p`. -/
inductive FieldArg : Char → Nat → Arg → Int → Prop
  | d_int (v : Int32) {n : Nat} (hn : n ≤ 1) : FieldArg 'd' n (.int v) v.toInt
  | d_llong (v : Int64) : FieldArg 'd' 2 (.llong v) v.toInt
  | u_int {c : Char} (hc : c = 'u' ∨ c = 'o' ∨ c = 'x') (v : UInt32) {n : Nat} (hn : n ≤ 1) :
      FieldArg c n (.uint v) v.toNat
  | u_llong {c : Char} (hc : c = 'u' ∨ c = 'o' ∨ c = 'x') (v : UInt64) : FieldArg c 2 (.ullong v) v.toNat
  | p (v : UInt32) {n : Nat} (hn : n ≤ 2) : FieldArg 'p' n (.ptr v) v.toNat

/-- The text of a numeric field of width `w`: the sign, the base prefix and the
    digits of the magnitude, padded to `w` characters with spaces before them,
    with zeros after the prefixes for a leading `0`, or after the digits for
    `-`, with the fill character the leading `0` chooses. -/
def fieldText (flags : List Char) (w : Nat) (conv : Char) (x : Int) : List Char :=
  let sgn := if x < 0 then "-".toList else []
  let pre := basePrefix (decide ('#' ∈ flags)) conv
  let digits := Nat.toDigits (convBase conv) x.natAbs
  let pad (c : Char) := List.replicate (w - (sgn.length + pre.length + digits.length)) c
  if '-' ∈ flags then sgn ++ pre ++ digits ++ pad (if '0' ∈ flags then '0' else ' ')
  else if '0' ∈ flags then sgn ++ pre ++ pad '0' ++ digits
  else pad ' ' ++ sgn ++ pre ++ digits

namespace FieldArg

variable {conv : Char} {n : Nat} {a : Arg} {x : Int}

theorem conv_mem (h : FieldArg conv n a x) : conv = 'd' ∨ conv = 'u' ∨ conv = 'o' ∨ conv = 'x' ∨ conv = 'p' := by
  cases h with
  | d_int | d_llong => exact .inl rfl
  | u_int hc | u_llong hc => rcases hc with rfl | rfl | rfl <;> simp
  | p => simp

theorem le_two (h : FieldArg conv n a x) : n ≤ 2 := by
  cases h <;> omega

theorem natAbs_lt (h : FieldArg conv n a x) : x.natAbs < 2 ^ 64 := by
  cases h with
  | d_int v =>
    have := Int32.le_toInt v
    have := Int32.toInt_lt v
    omega
  | d_llong v =>
    have := Int64.le_toInt v
    have := Int64.toInt_lt v
    omega
  | u_int _ v =>
    have := UInt32.toNat_lt v
    omega
  | u_llong _ v => exact Int.natAbs_natCast _ ▸ UInt64.toNat_lt v
  | p v =>
    have := UInt32.toNat_lt v
    omega

/-- A field's text is short: at most a sign, two prefix characters and the 22
    octal digits of a 64-bit number. -/
theorem length_le (h : FieldArg conv n a x) (alt : Bool) :
    (if x < 0 then "-".toList else []).length + (basePrefix alt conv).length +
      (Nat.toDigits (convBase conv) x.natAbs).length ≤ 25 := by
  have hb : 8 ≤ convBase conv ∧ convBase conv ≤ 16 := by unfold convBase; split_ifs <;> omega
  have hdig : (Nat.toDigits (convBase conv) x.natAbs).length ≤ 22 := by
    rw [Nat.length_toDigits_le_iff (by omega) (by decide)]
    calc x.natAbs < 2 ^ 64 := h.natAbs_lt
      _ ≤ 8 ^ 22 := by decide
      _ ≤ convBase conv ^ 22 := Nat.pow_le_pow_left hb.1 22
  have hpre : (basePrefix alt conv).length ≤ 2 := by unfold basePrefix; split_ifs <;> simp
  have hsgn : (if x < 0 then "-".toList else []).length ≤ 1 := by split_ifs <;> simp
  omega

end FieldArg

/-! ### A field -/

theorem vprintfLoop_cons {c : Char} {cs : List Char} {pf pf' : PF} (hc : c ≠ '\x00')
    (h : pf.send c = some pf') : vprintfLoop (c :: cs) pf = vprintfLoop cs pf' := by
  rw [vprintfLoop, if_neg hc, h, Option.bind_some]

/-- The padding `__pf_printstuff` computes for a width and a text length
    that fit in an `int`. -/
theorem spc_eq {w L : Nat} (hw : w < 2 ^ 31) (hL : L < 2 ^ 31) :
    (if (w : Int) > wrapInt L then wrapInt (w - wrapInt L) else 0) = ((w - L : Nat) : Int) := by
  rw [wrapInt_of_lt (z := L) (by omega) (by omega)]
  split_ifs with hlt
  · rw [wrapInt_of_lt (by omega) (by omega)]
    omega
  · omega

namespace PF

variable {pf : PF}

/-- The padding of a field whose width and text fit in an `int`: `w - len`
    fill characters (none if the text is as wide), before the prefixes, between
    them and the text, or after it. -/
theorem printstuff_flatten {pre pre2 stuff : List Char} {w : Nat} (hsp : pf.spacing = w) (hw : w < 2 ^ 31)
    (hL : pre.length + pre2.length + stuff.length < 2 ^ 31) :
    (pf.printstuff pre pre2 stuff).sent.flatten = pf.sent.flatten ++
      ((if pf.rightspc = false ∧ pf.fillchar ≠ '0' then
          List.replicate (w - (pre.length + pre2.length + stuff.length)) pf.fillchar else []) ++
        pre ++ pre2 ++
        (if pf.rightspc = false ∧ pf.fillchar = '0' then
          List.replicate (w - (pre.length + pre2.length + stuff.length)) pf.fillchar else []) ++
        stuff ++
        (if pf.rightspc = true then
          List.replicate (w - (pre.length + pre2.length + stuff.length)) pf.fillchar else [])) := by
  rw [printstuff_eq pf pre pre2 stuff rfl, hsp, ← Int.natCast_add, ← Int.natCast_add, spc_eq hw hL,
    Int.toNat_natCast]
  by_cases hlt : pre.length + pre2.length + stuff.length < w
  · -- `spc = w - len` fill characters
    have hpos : ((w - (pre.length + pre2.length + stuff.length) : Nat) : Int) > 0 := by omega
    simp only [hpos, true_and, emit_sent, List.flatten_append]
    split_ifs <;> simp_all
  · -- no padding
    have hzero : w - (pre.length + pre2.length + stuff.length) = 0 := by omega
    simp [hzero]

/-- A field is as wide as its width, or as its text if that is wider. -/
theorem printstuff_length {pre pre2 stuff : List Char} {w : Nat} (hsp : pf.spacing = w) (hw : w < 2 ^ 31)
    (hL : pre.length + pre2.length + stuff.length < 2 ^ 31) :
    (pf.printstuff pre pre2 stuff).sent.flatten.length =
      pf.sent.flatten.length + max w (pre.length + pre2.length + stuff.length) := by
  rw [printstuff_flatten hsp hw hL]
  -- exactly one of the three paddings is there
  split_ifs <;> simp_all <;> omega

theorem send_pct (hpct : pf.inPct = false) : pf.send '%' = some { pf with inPct := true } := by
  rw [send, if_neg (by decide), if_neg (by simp), if_pos hpct]

theorem send_plain {c : Char} (hpct : pf.inPct = false) (hc : c ≠ '\x00') (hpc : c ≠ '%') :
    pf.send c = some (pf.print [c]) := by
  rw [send, if_neg hc, if_pos ⟨hpct, hpc⟩]

theorem send_minus (hpct : pf.inPct = true) : pf.send '-' = some { pf with rightspc := true } := by
  rw [send, if_neg (by decide), if_neg (by simp [hpct]), if_neg (by simp [hpct]), if_pos (by decide)]
  rfl

/-- A `0` before any digit of the width sets zero fill. -/
theorem send_lead_zero (hpct : pf.inPct = true) (hs : pf.spacing = 0) : pf.send '0' = some { pf with fillchar := '0' } := by
  rw [send, if_neg (by decide), if_neg (by simp [hpct]), if_neg (by simp [hpct]), if_pos (by decide)]
  simp [modifier, hs]

/-- A digit of the width, other than a leading `0`, adds a decimal digit to
    the width. -/
theorem modifier_digitChar {d : Nat} (hd : d < 10) (hpos : 0 < pf.spacing ∨ 0 < d) :
    pf.modifier (Nat.digitChar d) = some { pf with spacing := wrapInt (pf.spacing * 10 + d) } := by
  have hval : (Nat.digitChar d).toNat - '0'.toNat = d := by
    have hzero : '0'.toNat = 48 := rfl
    rw [Nat.toNat_digitChar_of_lt_ten hd, hzero]
    omega
  rcases Nat.eq_zero_or_pos d with rfl | hd0
  · -- `0` after digits
    have hs : pf.spacing > 0 := by omega
    have hzero : Nat.digitChar 0 = '0' := rfl
    simp [modifier, hzero, hs]
  · have hrange : ∀ d : Fin 10, 0 < d.val →
        Nat.digitChar d ≠ '#' ∧ Nat.digitChar d ≠ '-' ∧ Nat.digitChar d ≠ 'l' ∧ Nat.digitChar d ≠ '0' ∧
          '0' < Nat.digitChar d ∧ Nat.digitChar d ≤ '9' := by decide
    obtain ⟨h1, h2, h3, h4, h5, h6⟩ := hrange ⟨d, hd⟩ hd0
    unfold modifier
    split
    all_goals first
      | (exfalso; contradiction)
      | rw [if_pos ⟨h5, h6⟩, hval]

theorem send_digit {d : Nat} (hpct : pf.inPct = true) (hd : d < 10) (hs : 0 ≤ pf.spacing)
    (hpos : 0 < pf.spacing ∨ 0 < d) (hlt : pf.spacing * 10 + d < 2 ^ 31) :
    pf.send (Nat.digitChar d) = some { pf with spacing := pf.spacing * 10 + d } := by
  have hchar : ∀ d : Fin 10, Nat.digitChar d ≠ '\x00' ∧ Nat.digitChar d ≠ '%' ∧
      Nat.digitChar d ∈ "#-l0123456789".toList := by decide
  obtain ⟨hne, hpc, hmem⟩ := hchar ⟨d, hd⟩
  rw [send, if_neg hne, if_neg (by simp [hpct]), if_neg (by simp [hpct]), if_pos hmem,
    modifier_digitChar hd hpos, wrapInt_of_lt (by omega) hlt]

/-- The width read from its decimal digits. -/
theorem vprintfLoop_width {w : Nat} (hw : 0 < w) (hw' : w < 2 ^ 31) (rest : List Char) (hpct : pf.inPct = true)
    (hs : pf.spacing = 0) : vprintfLoop (Nat.toDigits 10 w ++ rest) pf = vprintfLoop rest { pf with spacing := w } := by
  have hne : ∀ d, d < 10 → Nat.digitChar d ≠ '\x00' := by
    intro d hd
    have hchar : ∀ d : Fin 10, Nat.digitChar d ≠ '\x00' := by decide
    exact hchar ⟨d, hd⟩
  -- on the number: its last digit is read after all the others
  induction w using Nat.strongRecOn generalizing rest with
  | _ w ih =>
    by_cases hlt : w < 10
    · rw [Nat.toDigits_of_lt_base hlt, List.singleton_append,
        vprintfLoop_cons (hne w hlt) (send_digit hpct hlt (by omega) (.inr hw) (by omega))]
      simp [hs]
    · have hdiv : 0 < w / 10 := Nat.div_pos (by omega) (by decide)
      rw [Nat.toDigits_eq_if (by decide), if_neg hlt, List.append_assoc,
        ih (w / 10) (by omega) hdiv (by omega), List.singleton_append,
        vprintfLoop_cons (hne _ (Nat.mod_lt _ (by decide)))
          (@send_digit { pf with spacing := (w / 10 : Nat) } (w % 10) hpct (Nat.mod_lt _ (by decide))
            (by dsimp only; omega) (.inl (by dsimp only; omega)) (by dsimp only; omega))]
      congr 2
      simp only
      omega

/-- The `l`s of a field, from `INTSZ`: one for `LONGSZ`, two for `LLONGSZ`. -/
theorem vprintfLoop_ls {n : Nat} (hn : n ≤ 2) (rest : List Char) (hpct : pf.inPct = true) (hsz : pf.size = .intsz) :
    vprintfLoop (List.replicate n 'l' ++ rest) pf = vprintfLoop rest { pf with size := sizeOfLs n } := by
  have hl : ∀ pf : PF, pf.inPct = true → pf.send 'l' =
      some (if pf.size = .longsz then { pf with size := .llongsz } else { pf with size := .longsz }) := by
    intro pf hpct
    rw [send, if_neg (by decide), if_neg (by simp [hpct]), if_neg (by simp [hpct]), if_pos (by decide)]
    rfl
  rcases (show n = 0 ∨ n = 1 ∨ n = 2 by omega) with rfl | rfl | rfl
  · simp only [List.replicate_zero, List.nil_append, sizeOfLs, ← hsz]
  · rw [List.replicate_one, List.singleton_append, vprintfLoop_cons (by decide) (hl pf hpct), if_neg (by simp [hsz])]
    rfl
  · rw [List.replicate_succ, List.replicate_one, List.cons_append, List.singleton_append,
      vprintfLoop_cons (by decide) (hl pf hpct), if_neg (by simp [hsz]),
      vprintfLoop_cons (by decide) (hl { pf with size := .longsz } hpct), if_pos rfl]
    rfl

/-- The flags of a field before its width: `#` asks for the base prefix, `-`
    for padding on the right, and `0`, with no width read yet, for zero fill. -/
theorem vprintfLoop_flags {flags : List Char} (hf : ∀ c ∈ flags, c = '#' ∨ c = '-' ∨ c = '0')
    (rest : List Char) (hpct : pf.inPct = true) (hs : pf.spacing = 0) :
    vprintfLoop (flags ++ rest) pf = vprintfLoop rest
      { pf with altformat := pf.altformat || decide ('#' ∈ flags), rightspc := pf.rightspc || decide ('-' ∈ flags),
                fillchar := if '0' ∈ flags then '0' else pf.fillchar } := by
  -- on the flags, each setting its field of `pf` and keeping the others
  induction flags generalizing pf with
  | nil => simp
  | cons c cs ih =>
    have hcs : ∀ c ∈ cs, c = '#' ∨ c = '-' ∨ c = '0' := fun c hc => hf c (List.mem_cons_of_mem _ hc)
    rcases hf c List.mem_cons_self with rfl | rfl | rfl
    · have hsend : pf.send '#' = some { pf with altformat := true } := by
        rw [send, if_neg (by decide), if_neg (by simp [hpct]), if_neg (by simp [hpct]), if_pos (by decide)]
        rfl
      rw [List.cons_append, vprintfLoop_cons (by decide) hsend, ih hcs (show ({ pf with altformat := true } : PF).inPct = true from hpct) hs]
      congr 2
      all_goals simp
    · rw [List.cons_append, vprintfLoop_cons (by decide) (send_minus hpct),
        ih hcs (show ({ pf with rightspc := true } : PF).inPct = true from hpct) hs]
      congr 2
      all_goals simp
    · rw [List.cons_append, vprintfLoop_cons (by decide) (send_lead_zero hpct hs),
        ih hcs (show ({ pf with fillchar := '0' } : PF).inPct = true from hpct) hs]
      congr 2
      all_goals simp

/-- The width of a field, `0` being none. -/
theorem vprintfLoop_widthText {w : Nat} (hw : w < 2 ^ 31) (rest : List Char) (hpct : pf.inPct = true)
    (hs : pf.spacing = 0) : vprintfLoop (widthText w ++ rest) pf = vprintfLoop rest { pf with spacing := w } := by
  by_cases h0 : w = 0
  · subst h0
    rw [widthText, if_pos rfl, List.nil_append, Nat.cast_zero, ← hs]
  · rw [widthText, if_neg h0, vprintfLoop_width (Nat.pos_of_ne_zero h0) hw rest hpct hs]

/-- `__pf_getnum` of an argument of the field's size and conversion: its
    magnitude, and whether it is negative. -/
theorem getnum_of_fieldArg {conv : Char} {n : Nat} {a : Arg} {x : Int} {rest : List Arg}
    (harg : FieldArg conv n a x) (hargs : pf.args = a :: rest) (hsz : pf.size = sizeOfLs n)
    (hsign : pf.sign = false) :
    pf.getnum conv = some { pf with args := rest, num := x.natAbs, sign := decide (x < 0) } := by
  simp only [getnum, popArg, hargs, Option.bind_eq_bind, Option.bind_some, Option.pure_def]
  cases harg with
  | d_int v hn =>
    have hsz' : pf.size = .intsz ∨ pf.size = .longsz := by
      rcases (show n = 0 ∨ n = 1 by omega) with rfl | rfl <;> simp [hsz, sizeOfLs]
    -- `%d`'s sign test
    by_cases hneg : v.toInt < 0
    · rcases hsz' with h | h <;> simp [h, hneg]
    · have hnum : v.toInt.toNat = v.toInt.natAbs := by omega
      rcases hsz' with h | h <;>
        simp only [h, if_neg (by decide : ¬ 'd' = 'p'), if_true, hneg, if_false, hnum, hsign, decide_false]
  | d_llong v =>
    by_cases hneg : v.toInt < 0
    · simp [hsz, sizeOfLs, hneg]
    · have hnum : v.toInt.toNat = v.toInt.natAbs := by omega
      simp only [hsz, sizeOfLs, if_neg (by decide : ¬ 'd' = 'p'), if_true, hneg, if_false, hnum, hsign,
        decide_false]
  | u_int hc v hn =>
    have hsz' : pf.size = .intsz ∨ pf.size = .longsz := by
      rcases (show n = 0 ∨ n = 1 by omega) with rfl | rfl <;> simp [hsz, sizeOfLs]
    have hp : ¬ conv = 'p' := by rcases hc with rfl | rfl | rfl <;> decide
    have hd : ¬ conv = 'd' := by rcases hc with rfl | rfl | rfl <;> decide
    rcases hsz' with h | h <;> simp [h, hp, hd, hsign]
  | u_llong hc v =>
    have hp : ¬ conv = 'p' := by rcases hc with rfl | rfl | rfl <;> decide
    have hd : ¬ conv = 'd' := by rcases hc with rfl | rfl | rfl <;> decide
    simp [hsz, sizeOfLs, hp, hd, hsign]
  | p v hn => simp [hsign]

/-- A numeric conversion of an argument of its size: the sign, the base prefix
    and the digits of the magnitude, in the field the flags say. -/
theorem send_conv {conv : Char} {n : Nat} {a : Arg} {x : Int} {rest : List Arg}
    (harg : FieldArg conv n a x) (hpct : pf.inPct = true) (hargs : pf.args = a :: rest) (hsz : pf.size = sizeOfLs n)
    (hsign : pf.sign = false) (hpre : pf.baseprefix = false) :
    pf.send conv = some (({ pf with args := rest, num := x.natAbs, sign := decide (x < 0) }.setbase conv).printstuff
      (if x < 0 then "-".toList else []) (basePrefix pf.altformat conv)
      (Nat.toDigits (convBase conv) x.natAbs)).endfield := by
  have hconv := harg.conv_mem
  have hnum : x.natAbs < 2 ^ 64 := harg.natAbs_lt
  -- `__pf_setbase`: the base and the prefix of the conversion
  have hbase : ({ pf with args := rest, num := x.natAbs, sign := decide (x < 0) }.setbase conv).base = convBase conv := by
    rcases hconv with rfl | rfl | rfl | rfl | rfl <;> rfl
  have hprefix : (if PF.baseprefix ({ pf with args := rest, num := x.natAbs, sign := decide (x < 0) }.setbase conv) ∧
        ({ pf with args := rest, num := x.natAbs, sign := decide (x < 0) }.setbase conv).base = 16 then "0x".toList
      else if PF.baseprefix ({ pf with args := rest, num := x.natAbs, sign := decide (x < 0) }.setbase conv) ∧
        ({ pf with args := rest, num := x.natAbs, sign := decide (x < 0) }.setbase conv).base = 8 then "0".toList
      else []) = basePrefix pf.altformat conv := by
    rw [hbase]
    rcases hconv with rfl | rfl | rfl | rfl | rfl <;> cases pf.altformat <;> simp [setbase, hpre, convBase, basePrefix]
  have hmem : conv ∈ "doupx".toList := by
    rcases hconv with rfl | rfl | rfl | rfl | rfl <;> decide
  have hnot : conv ∉ "#-l0123456789".toList := by
    rcases hconv with rfl | rfl | rfl | rfl | rfl <;> decide
  rw [send, if_neg (by rcases hconv with rfl | rfl | rfl | rfl | rfl <;> decide), if_neg (by simp [hpct]),
    if_neg (by simp [hpct]), if_neg hnot, if_pos hmem, getnum_of_fieldArg harg hargs hsz hsign]
  simp only [Option.bind_eq_bind, Option.bind_some]
  rw [printnum_eq (by rw [hbase]; rcases hconv with rfl | rfl | rfl | rfl | rfl <;> simp [convBase])
    (by exact hnum), hprefix, hbase]
  simp only [Option.bind_some, Option.pure_def, setbase, decide_eq_true_eq]

end PF

theorem vprintf_of_loop {fmt : List Char} {args : List Arg} {pf : PF} (h : vprintfLoop fmt (PF.start args) = some pf) :
    vprintf fmt args = some (pf.sent, wrapInt pf.charcount) := by
  rw [vprintf, h, Option.map_some]

/-- A field is as wide as its width, or as its text if that is wider: less
    than `2^31` characters, so the count is an `int`. -/
theorem fieldText_length_lt {flags : List Char} {w : Nat} (hw : w < 2 ^ 31) {conv : Char} {n : Nat} {a : Arg}
    {x : Int} (harg : FieldArg conv n a x) : (fieldText flags w conv x).length < 2 ^ 31 := by
  have hL := harg.length_le (decide ('#' ∈ flags))
  simp only [fieldText]
  generalize (if x < 0 then "-".toList else []) = sgn at hL ⊢
  generalize basePrefix (decide ('#' ∈ flags)) conv = pre at hL ⊢
  generalize Nat.toDigits (convBase conv) x.natAbs = digits at hL ⊢
  split_ifs <;> simp only [List.length_append, List.length_replicate] <;> omega

/-- A numeric field, `%[#-0][w][l|ll]c` for `c` among `d`, `u`, `o`, `x` and
    `p`, of an argument of its size: the text sent is the documented one,
    and the count returned is its length. -/
theorem vprintf_field {flags : List Char} (hf : ∀ c ∈ flags, c = '#' ∨ c = '-' ∨ c = '0') {w : Nat}
    (hw : w < 2 ^ 31) {conv : Char} {n : Nat} {a : Arg} {x : Int} (harg : FieldArg conv n a x) :
    ∃ sent, vprintf ('%' :: flags ++ widthText w ++ List.replicate n 'l' ++ [conv]) [a] =
        some (sent, ((fieldText flags w conv x).length : Int)) ∧ sent.flatten = fieldText flags w conv x := by
  have hnul : conv ≠ '\x00' := by rcases harg.conv_mem with rfl | rfl | rfl | rfl | rfl <;> decide
  obtain ⟨pf, hloop, hsent⟩ : ∃ pf, vprintfLoop ('%' :: flags ++ widthText w ++ List.replicate n 'l' ++ [conv])
      (PF.start [a]) = some pf ∧ pf.sent.flatten = fieldText flags w conv x := by
    refine ⟨?pf, ?loop, ?text⟩
    case loop =>
      -- the format, one part after another
      simp only [PF.start, PF.endfield, List.cons_append, List.append_assoc]
      rw [vprintfLoop_cons (by decide) (PF.send_pct rfl)]
      dsimp only
      rw [PF.vprintfLoop_flags hf _ rfl rfl]
      dsimp only
      rw [PF.vprintfLoop_widthText hw _ rfl rfl]
      dsimp only
      rw [PF.vprintfLoop_ls harg.le_two _ rfl rfl]
      dsimp only
      rw [vprintfLoop_cons hnul (PF.send_conv harg rfl rfl rfl rfl rfl), vprintfLoop]
    case text =>
      rw [PF.endfield_sent, PF.printstuff_flatten rfl hw (by have := harg.length_le (decide ('#' ∈ flags)); simp_all; omega)]
      -- the three layouts of the padding
      by_cases hm : '-' ∈ flags <;> by_cases hz : '0' ∈ flags <;> simp [fieldText, PF.setbase, hm, hz]
  have hcount : wrapInt pf.charcount = (fieldText flags w conv x).length := by
    rw [vprintf_count (vprintf_of_loop hloop), hsent, wrapInt_of_lt (by omega) (by exact_mod_cast fieldText_length_lt hw harg)]
  exact ⟨pf.sent, by rw [vprintf_of_loop hloop, hcount], hsent⟩

theorem vprintf_field_of_alt_hex :
    ∃ sent, vprintf ('%' :: ['#', '-'] ++ widthText 8 ++ List.replicate 0 'l' ++ ['x']) [.uint 0xbeef] =
        some (sent, ((fieldText ['#', '-'] 8 'x' (0xbeef : UInt32).toNat).length : Int)) ∧
      sent.flatten = fieldText ['#', '-'] 8 'x' (0xbeef : UInt32).toNat :=
  vprintf_field (by simp) (by norm_num) (.u_int (.inr (.inr rfl)) 0xbeef (Nat.zero_le 1))

example : fieldText ['#', '-'] 8 'x' (0xbeef : UInt32).toNat = "0xbeef  ".toList := by decide +kernel

/-- `%-05d` of `42` sends `42000`: the `-` field is padded after the digits
    with the `0` the leading `0` chose. -/
theorem vprintf_left_zero_fill_of_42 :
    (vprintf ['%', '-', '0', '5', 'd'] [.int 42]).map (fun r => r.1.flatten) = some "42000".toList := by
  decide +kernel

/-! ### `vsnprintf` -/

/-- `__snprintf_send` stores the characters that fit before `buflen`, from
    `bufpos` on, and moves `bufpos` past them. -/
theorem snprintfSend_spec (snp : SNP) (data : List Char) (hpos : snp.bufpos ≤ snp.buflen) :
    (snprintfSend snp data).bufpos = snp.bufpos + min data.length (snp.buflen - snp.bufpos) ∧
      (snprintfSend snp data).buf = Bytes.blit snp.buf snp.bufpos (min data.length (snp.buflen - snp.bufpos))
        (fun j => Bytes.cchar (data.getD j '\x00')) := by
  -- induction on the characters, for every state the earlier ones left
  induction data generalizing snp with
  | nil => simp [snprintfSend]
  | cons c data ih =>
    have hstep : snprintfSend snp (c :: data) = snprintfSend
        (if snp.bufpos < snp.buflen then
          { snp with buf := Function.update snp.buf snp.bufpos (Bytes.cchar c), bufpos := snp.bufpos + 1 }
        else snp) data := rfl
    rw [hstep]
    split_ifs with hlt
    · -- room for `c`: stored at `bufpos`, and the rest after it
      obtain ⟨hpos', hbuf'⟩ := ih
        { snp with buf := Function.update snp.buf snp.bufpos (Bytes.cchar c), bufpos := snp.bufpos + 1 }
        (show snp.bufpos + 1 ≤ snp.buflen by omega)
      refine ⟨by rw [hpos']; simp only [List.length_cons]; omega, ?_⟩
      rw [hbuf']
      funext i
      simp only [Bytes.blit, List.length_cons]
      by_cases hi : snp.bufpos = i
      · subst hi
        rw [if_neg (by omega), if_pos (by omega), Function.update_self, Nat.sub_self, List.getD_cons_zero]
      · rw [Function.update_of_ne (Ne.symm hi)]
        by_cases hin : snp.bufpos + 1 ≤ i ∧ i < snp.bufpos + 1 + min data.length (snp.buflen - (snp.bufpos + 1))
        · rw [if_pos hin, if_pos (by omega), show i - snp.bufpos = i - (snp.bufpos + 1) + 1 by omega,
            List.getD_cons_succ]
        · rw [if_neg hin, if_neg (by omega)]
    · -- no room: nothing is stored, now or later
      obtain ⟨hpos', hbuf'⟩ := ih snp hpos
      have hfull : snp.buflen - snp.bufpos = 0 := by omega
      rw [hfull, Nat.min_zero] at hpos' hbuf'
      rw [hpos', hbuf', hfull, Nat.min_zero]
      simp

theorem snprintfSend_append (snp : SNP) (a b : List Char) :
    snprintfSend snp (a ++ b) = snprintfSend (snprintfSend snp a) b := by
  simp only [snprintfSend, List.foldl_append]

/-- The callback run on each string sent is the callback run once on all of
    them. -/
theorem foldl_snprintfSend (sent : List (List Char)) (snp : SNP) :
    sent.foldl snprintfSend snp = snprintfSend snp sent.flatten := by
  induction sent generalizing snp with
  | nil => rfl
  | cons a sent ih => rw [List.foldl_cons, ih, List.flatten_cons, snprintfSend_append]

/-- `vsnprintf` leaves the buffer as it was for a length of `0`, and otherwise
    copies in the first `len - 1` characters of the output, as a C string. -/
theorem vsnprintf_eq {fmt : List Char} {args : List Arg} {sent : List (List Char)} {c : Int}
    (h : vprintf fmt args = some (sent, c)) (buf : Nat → UInt8) (len : Nat) :
    vsnprintf buf len fmt args =
      some (if len = 0 then buf else Bytes.strcpy buf 0 ((sent.flatten.take (len - 1)).map Bytes.cchar), c) := by
  simp only [vsnprintf, h, Option.bind_eq_bind, Option.bind_some, foldl_snprintfSend, Option.pure_def,
    Option.some.injEq, Prod.mk.injEq, and_true]
  rcases Nat.eq_zero_or_pos len with rfl | hlen
  · -- no room at all: nothing stored, not even the NUL
    obtain ⟨-, hbuf⟩ := snprintfSend_spec ⟨buf, 0, 0⟩ sent.flatten (Nat.le_refl 0)
    simp only [gt_iff_lt, Nat.lt_irrefl, ↓reduceIte]
    rw [hbuf]
    simp
  · obtain ⟨hpos, hbuf⟩ := snprintfSend_spec ⟨buf, len - 1, 0⟩ sent.flatten (Nat.zero_le _)
    simp only [if_neg (Nat.pos_iff_ne_zero.1 hlen), if_pos hlen] at hpos hbuf ⊢
    rw [hbuf, hpos]
    funext i
    have hm : min (len - 1) sent.flatten.length = min sent.flatten.length (len - 1) := Nat.min_comm _ _
    have hnul : (0 : UInt8) = Bytes.cchar '\x00' := rfl
    simp only [Bytes.blit, Bytes.strcpy, Function.update_apply, Nat.zero_add, Nat.sub_zero, List.length_map,
      List.length_take, Nat.zero_le, true_and, hm]
    by_cases hlt : i < min sent.flatten.length (len - 1)
    · -- a character that fits
      rw [if_neg (by omega), if_pos hlt, if_pos hlt, hnul]
      rw [List.getD_eq_getElem?_getD, List.getD_eq_getElem?_getD, List.getElem?_map, List.getElem?_take,
        if_pos (by omega), Option.getD_map]
    · by_cases heq : i = min sent.flatten.length (len - 1)
      · -- the NUL
        rw [if_pos heq, if_neg hlt, if_pos heq]
      · rw [if_neg heq, if_neg hlt, if_neg hlt, if_neg heq]

/-- `vsnprintf` writes nothing for a length of `0`. Otherwise it writes the
    first `len - 1` characters of the output (all of it if it is shorter), a
    NUL after them and nothing after the NUL, so nothing at or past `buf[len]`.
    It returns the number of characters of the output, as an `int`. -/
theorem vsnprintf_truncates {fmt : List Char} {args : List Arg} {sent : List (List Char)} {c : Int}
    (h : vprintf fmt args = some (sent, c)) (buf : Nat → UInt8) (len : Nat) :
    ∃ buf', vsnprintf buf len fmt args = some (buf', wrapInt sent.flatten.length) ∧
      (len = 0 → buf' = buf) ∧
      (0 < len →
        (∀ k < min sent.flatten.length (len - 1), buf' k = Bytes.cchar (sent.flatten.getD k '\x00')) ∧
        buf' (min sent.flatten.length (len - 1)) = 0 ∧
        ∀ k, min sent.flatten.length (len - 1) < k → buf' k = buf k) := by
  refine ⟨if len = 0 then buf else Bytes.strcpy buf 0 ((sent.flatten.take (len - 1)).map Bytes.cchar),
    by rw [vsnprintf_eq h, vprintf_count h], fun hlen => by simp [hlen], fun hlen => ?_⟩
  have hm : min (len - 1) sent.flatten.length = min sent.flatten.length (len - 1) := Nat.min_comm _ _
  simp only [if_neg (Nat.pos_iff_ne_zero.1 hlen), Bytes.strcpy, List.length_map, List.length_take, Nat.zero_add,
    Nat.sub_zero, Nat.zero_le, true_and, hm]
  refine ⟨fun k hk => ?_, by rw [if_neg (Nat.lt_irrefl _), if_pos trivial],
    fun k hk => by rw [if_neg (by omega), if_neg (by omega)]⟩
  -- a character of the output that fits
  rw [if_pos hk, List.getD_eq_getElem?_getD, List.getD_eq_getElem?_getD, List.getElem?_map, List.getElem?_take,
    if_pos (by omega), show (0 : UInt8) = Bytes.cchar '\x00' from rfl, Option.getD_map]

/-- `snprintf(buf, 4, "hello")`: `hel` and a NUL. -/
theorem vsnprintf_truncates_of_hello :
    ∃ buf', vsnprintf (fun _ => 7) 4 ['h', 'e', 'l', 'l', 'o'] [] =
        some (buf', wrapInt [['h'], ['e'], ['l'], ['l'], ['o']].flatten.length) ∧
      (4 = 0 → buf' = fun _ => 7) ∧
      (0 < 4 →
        (∀ k < min [['h'], ['e'], ['l'], ['l'], ['o']].flatten.length (4 - 1),
          buf' k = Bytes.cchar ([['h'], ['e'], ['l'], ['l'], ['o']].flatten.getD k '\x00')) ∧
        buf' (min [['h'], ['e'], ['l'], ['l'], ['o']].flatten.length (4 - 1)) = 0 ∧
        ∀ k, min [['h'], ['e'], ['l'], ['l'], ['o']].flatten.length (4 - 1) < k → buf' k = 7) :=
  vsnprintf_truncates (by rfl) (fun _ => 7) 4

/-- A `%d` field `2^31 - 1` wide and one more character: `2^31` characters are
    sent, and `__vprintf`, and so `vsnprintf`, count them as `-2^31`. -/
theorem vsnprintf_count_wraps :
    ∃ sent, vprintf ('%' :: Nat.toDigits 10 (2 ^ 31 - 1) ++ ['d', 'x']) [.int 0] = some (sent, -2 ^ 31) ∧
      sent.flatten.length = 2 ^ 31 ∧
      vsnprintf (fun _ => 0) 0 ('%' :: Nat.toDigits 10 (2 ^ 31 - 1) ++ ['d', 'x']) [.int 0] =
        some (fun _ => 0, -2 ^ 31) := by
  obtain ⟨pf, hloop, hlen⟩ : ∃ pf, vprintfLoop ('%' :: Nat.toDigits 10 (2 ^ 31 - 1) ++ ['d', 'x'])
      (PF.start [.int 0]) = some pf ∧ pf.sent.flatten.length = 2 ^ 31 := by
    refine ⟨?pf, ?loop, ?count⟩
    case loop =>
      simp only [PF.start, PF.endfield, List.cons_append]
      rw [vprintfLoop_cons (by decide) (PF.send_pct rfl)]
      dsimp only
      rw [PF.vprintfLoop_width (by decide) (by decide) _ rfl rfl]
      dsimp only
      rw [vprintfLoop_cons (by decide) (PF.send_conv (.d_int 0 (n := 0) (by decide)) rfl rfl rfl rfl rfl)]
      rw [vprintfLoop_cons (by decide) (PF.send_plain rfl (by decide) (by decide)), vprintfLoop]
    case count =>
      -- `2^31 - 2` spaces, the digit `0`, then `x`
      rw [PF.print_eq, PF.emit_sent, List.flatten_append, List.length_append, PF.endfield_sent,
        PF.printstuff_length rfl (by decide) (by decide)]
      decide
  -- the count, wrapped to an `int`
  have hcount : wrapInt pf.charcount = -2 ^ 31 := by
    rw [vprintf_count (vprintf_of_loop hloop), hlen]
    decide
  refine ⟨pf.sent, by rw [vprintf_of_loop hloop, hcount], hlen, ?_⟩
  rw [vsnprintf_eq (vprintf_of_loop hloop), if_pos rfl, hcount]

end Os161.Libc
