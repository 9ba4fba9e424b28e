/-
# The format scanner of `uart_printf`

`uart_printf` of `kernel/drivers/uart/uart_core.c`, read by read.  A pointer into the format is
the bytes of its object from there on, and a read at the end of the object is `none`.  So a run
on the object that ends with the terminator has a result only if nothing behind the terminator
is read.

After a `%` the scanner consumes another character without looking whether there is one.  If the
`%` was the last character of the format it prints the terminator and goes on behind it.  This
happens exactly for the formats that end in an odd number of `%` (`printf_stops_iff`).

What the scanner does with the first piece of a format is stated once (`Piece`), and everything
about whole formats follows by induction on the pieces (`scan_induct`).
-/
import Mathlib.Algebra.Group.Nat.Even
import Mathlib.Data.List.DropRight
import RingNova.Kernel.Numerals

namespace RingNova

/-! ### `uart_printf` -/

/-- The conversions that take an argument. -/
inductive Conv
  /-- `%c`. -/
  | char
  /-- `%s`. -/
  | string
  /-- `%d`. -/
  | int
  /-- `%u`. -/
  | unsigned
  /-- `%x`. -/
  | hex
  /-- `%p`. -/
  | pointer
  /-- `%08x`. -/
  | hex8
deriving DecidableEq

/-- The cases of the `switch` that take an argument. -/
def Conv.ofChar (d : Byte) : Option Conv :=
  if d = 0x63#8 then some .char
  else if d = 0x73#8 then some .string
  else if d = 0x64#8 then some .int
  else if d = 0x75#8 then some .unsigned
  else if d = 0x78#8 then some .hex
  else if d = 0x70#8 then some .pointer
  else none

/-- An argument is of the right kind: a C string for `%s`, and a number for the others. -/
def Conv.takes : Conv → PrintfArg → Bool
  | .string, .str s => 0#8 ∉ s
  | .string, .num _ => false
  | _, .str _ => false
  | _, .num _ => true

/-- `va_arg`: the next argument, and the others. -/
def vaArg (k : Conv) : List PrintfArg → Option (PrintfArg × List PrintfArg)
  | [] => none
  | a :: args => if k.takes a then some (a, args) else none

/-- What is emitted for a piece of the format. -/
inductive Emitted
  /-- An ordinary character. -/
  | ordinary (c : Byte)
  /-- A conversion of an argument. -/
  | value (k : Conv) (a : PrintfArg)
  /-- The `%` for `%%`. -/
  | percent
  /-- The default case: the `%` and the character behind it. -/
  | other (d : Byte)

/-- The bytes that reach the chip driver. -/
def Emitted.bytes : Emitted → List Byte
  | .ordinary c => uartPutc c
  | .value .char (.num v) => uartPutc (v.setWidth 8)
  | .value .string (.str s) => uartPuts s
  | .value .int (.num v) => uartPrintInt v
  | .value .unsigned (.num v) => uartPrintDec v
  | .value .hex (.num v) => hexShort v
  | .value .pointer (.num v) => uartPuts (cstr "0x") ++ RingNova.hex8 v
  | .value .hex8 (.num v) => RingNova.hex8 v
  | .value _ _ => []
  | .percent => uartPutc 0x25#8
  | .other d => uartPutc 0x25#8 ++ uartPutc d

/-- What a call of `uart_printf` has done. -/
structure Printed where
  emitted : List Emitted
  /-- The arguments that are left. -/
  args : List PrintfArg

/-- Something is emitted first. -/
def Printed.after (e : Emitted) (p : Printed) : Printed := ⟨e :: p.emitted, p.args⟩

/-- `fmt[0] == '0' && fmt[1] == '8' && fmt[2] == 'x'`: a character is read only if those before
it are right. -/
def is08x (fmt : List Byte) : Option Bool := do
  let c0 ← fmt[0]?
  if c0 ≠ 0x30#8 then return false
  let c1 ← fmt[1]?
  if c1 ≠ 0x38#8 then return false
  let c2 ← fmt[2]?
  return c2 = 0x78#8

/-- `uart_printf`, from a pointer into its format on. -/
def printfScan (s : List Byte) (args : List PrintfArg) : Option Printed :=
  match s with
  | [] => none
  | c :: fmt =>
    if c = 0#8 then some ⟨[], args⟩
    else if c ≠ 0x25#8 then (printfScan fmt args).map (.after (.ordinary c))
    else
      match is08x fmt with
      | none => none
      | some true =>
        (vaArg .hex8 args).bind fun (a, args) =>
          (printfScan (fmt.drop 3) args).map (.after (.value .hex8 a))
      | some false =>
        match fmt with
        | [] => none
        | d :: rest =>
          -- the shared `fmt++` is behind the `switch`
          match Conv.ofChar d with
          | some k =>
            (vaArg k args).bind fun (a, args) => (printfScan rest args).map (.after (.value k a))
          | none =>
            (printfScan rest args).map (.after (if d = 0x25#8 then .percent else .other d))
termination_by s.length
decreasing_by all_goals simp only [List.length_cons, List.length_drop]; omega

/-! ### Formats -/

/-- The recognised conversions of a format, from left to right. -/
def convs (text : List Byte) : List Conv :=
  match text with
  | [] => []
  | c :: fmt =>
    if c ≠ 0x25#8 then convs fmt
    else if [0x30#8, 0x38#8, 0x78#8] <+: fmt then .hex8 :: convs (fmt.drop 3)
    else
      match fmt with
      | [] => []
      | d :: rest => (Conv.ofChar d).toList ++ convs rest
termination_by text.length
decreasing_by all_goals simp only [List.length_cons, List.length_drop]; omega

/-- Sufficiently many arguments of the right kinds. -/
def Supplies : List Conv → List PrintfArg → Prop
  | [], _ => True
  | _ :: _, [] => False
  | k :: ks, a :: args => k.takes a = true ∧ Supplies ks args

/-- The characters of a conversion behind the `%`. -/
def Conv.chars : Conv → List Byte
  | .char => [0x63#8]
  | .string => [0x73#8]
  | .int => [0x64#8]
  | .unsigned => [0x75#8]
  | .hex => [0x78#8]
  | .pointer => [0x70#8]
  | .hex8 => [0x30#8, 0x38#8, 0x78#8]

/-- The piece of the format that something was emitted for. -/
def Emitted.piece : Emitted → List Byte
  | .ordinary c => [c]
  | .value k _ => 0x25#8 :: k.chars
  | .percent => [0x25#8, 0x25#8]
  | .other d => [0x25#8, d]

/-- The conversion and its argument. -/
def Emitted.value? : Emitted → Option (Conv × PrintfArg)
  | .value k a => some (k, a)
  | _ => none

/-- The number of `%` at the end of a format. -/
def trailing (text : List Byte) : ℕ := (text.rtakeWhile fun c => c = 0x25#8).length

/-- **Induction on a format**, by its first piece. -/
lemma format_induct {P : List Byte → Prop} (nil : P [])
    (ordinary : ∀ c text, c ≠ 0x25#8 → P text → P (c :: text)) (lone : P [0x25#8])
    (hex8 : ∀ text, P text → P (0x25#8 :: 0x30#8 :: 0x38#8 :: 0x78#8 :: text))
    (switch : ∀ d text, ¬ [0x30#8, 0x38#8, 0x78#8] <+: d :: text → P text →
      P (0x25#8 :: d :: text)) (text : List Byte) : P text := by
  induction hn : text.length using Nat.strong_induction_on generalizing text with
  | _ n ih =>
    subst hn
    cases text with
    | nil => exact nil
    | cons c fmt =>
      by_cases hc : c = 0x25#8
      · subst hc
        cases fmt with
        | nil => exact lone
        | cons d rest =>
          by_cases hpre : [0x30#8, 0x38#8, 0x78#8] <+: d :: rest
          · obtain ⟨tail, htail⟩ := hpre
            rw [← htail]
            refine hex8 tail (ih _ ?_ tail rfl)
            rw [← htail]
            simp only [List.length_append, List.length_cons, List.length_nil]
            omega
          · exact switch d rest hpre (ih _ (by simp only [List.length_cons]; omega) rest rfl)
      · exact ordinary c fmt hc (ih _ (by simp only [List.length_cons]; omega) fmt rfl)

/-! ### The scanner, piece by piece -/

section Scan

variable {c d : Byte} {k : Conv} {a : PrintfArg} {args : List PrintfArg} {s text junk : List Byte}

lemma printfScan_nul (junk : List Byte) (args : List PrintfArg) :
    printfScan (0#8 :: junk) args = some ⟨[], args⟩ := by
  rw [printfScan.eq_def]
  exact if_pos rfl

lemma printfScan_ordinary (h0 : c ≠ 0#8) (hc : c ≠ 0x25#8) (s : List Byte)
    (args : List PrintfArg) :
    printfScan (c :: s) args = (printfScan s args).map (.after (.ordinary c)) := by
  rw [printfScan.eq_def]
  exact (if_neg h0).trans (if_pos hc)

lemma vaArg_of_takes (h : k.takes a = true) (args : List PrintfArg) :
    vaArg k (a :: args) = some (a, args) := by
  rw [vaArg, if_pos h]

lemma printfScan_hex8 (s : List Byte) (args : List PrintfArg) :
    printfScan (0x25#8 :: 0x30#8 :: 0x38#8 :: 0x78#8 :: s) args =
      (vaArg .hex8 args).bind fun (a, args) =>
        (printfScan s args).map (.after (.value .hex8 a)) := by
  rw [printfScan.eq_def]
  rfl

/-- The test for `%08x` does not read behind the terminator. -/
lemma is08x_eq_false (h : ¬ [0x30#8, 0x38#8, 0x78#8] <+: d :: text) (junk : List Byte) :
    is08x (d :: (text ++ 0#8 :: junk)) = some false := by
  by_cases hd : d = 0x30#8
  · subst hd
    cases text with
    | nil => rfl
    | cons e text =>
      by_cases he : e = 0x38#8
      · subst he
        cases text with
        | nil => rfl
        | cons f text =>
          have hf : f ≠ 0x78#8 := by
            rintro rfl
            exact h ⟨text, rfl⟩
          simp [is08x, hf]
      · simp [is08x, he]
  · simp [is08x, hd]

/-- The `switch`. -/
lemma printfScan_switch (h : is08x (d :: s) = some false) (args : List PrintfArg) :
    printfScan (0x25#8 :: d :: s) args =
      match Conv.ofChar d with
      | some k => (vaArg k args).bind fun (a, args) => (printfScan s args).map (.after (.value k a))
      | none => (printfScan s args).map (.after (if d = 0x25#8 then .percent else .other d)) := by
  rw [printfScan.eq_def]
  dsimp only
  rw [if_neg (by decide), if_neg (by decide), h]

lemma convs_ordinary (hc : c ≠ 0x25#8) (text : List Byte) : convs (c :: text) = convs text := by
  rw [convs.eq_def]
  exact if_pos hc

lemma convs_hex8 (text : List Byte) :
    convs (0x25#8 :: 0x30#8 :: 0x38#8 :: 0x78#8 :: text) = .hex8 :: convs text := by
  rw [convs.eq_def]
  dsimp only
  rw [if_neg (by simp), if_pos ⟨text, rfl⟩]
  rfl

lemma convs_switch (h : ¬ [0x30#8, 0x38#8, 0x78#8] <+: d :: text) :
    convs (0x25#8 :: d :: text) = (Conv.ofChar d).toList ++ convs text := by
  rw [convs.eq_def]
  dsimp only
  rw [if_neg (by simp), if_neg h]

/-! ### The end of a format -/

lemma trailing_le (text : List Byte) : trailing text ≤ text.length := by
  rw [trailing, List.rtakeWhile, List.length_reverse]
  exact (List.takeWhile_prefix _).length_le.trans List.length_reverse.le

/-- A character in front counts only if it is a `%` in front of nothing but `%`. -/
lemma trailing_cons (c : Byte) (text : List Byte) : trailing (c :: text) =
    if c = 0x25#8 ∧ trailing text = text.length then text.length + 1 else trailing text := by
  simp only [trailing, List.rtakeWhile, List.length_reverse, List.reverse_cons,
    List.takeWhile_append]
  by_cases hall : (text.reverse.takeWhile fun c => c = 0x25#8).length = text.length
  · by_cases hc : c = 0x25#8
    · simp [hall, hc]
    · simp [hall, hc]
  · simp [hall]

lemma trailing_ordinary (hc : c ≠ 0x25#8) (text : List Byte) :
    trailing (c :: text) = trailing text := by
  rw [trailing_cons, if_neg fun h => hc h.1]

/-- A `%` and the character behind it do not change the parity. -/
lemma even_trailing_switch (d : Byte) (text : List Byte) :
    Even (trailing (0x25#8 :: d :: text)) ↔ Even (trailing text) := by
  have hle := trailing_le text
  rw [trailing_cons, trailing_cons, List.length_cons]
  by_cases hd : d = 0x25#8 ∧ trailing text = text.length
  · rw [if_pos hd, if_pos ⟨rfl, rfl⟩, hd.2, Nat.even_add_one, Nat.even_add_one, not_not]
  · rw [if_neg hd, if_neg (by omega)]

lemma trailing_hex8 (text : List Byte) :
    trailing (0x25#8 :: 0x30#8 :: 0x38#8 :: 0x78#8 :: text) = trailing text := by
  have hle := trailing_le text
  rw [trailing_cons, trailing_ordinary (by decide), trailing_ordinary (by decide),
    trailing_ordinary (by decide)]
  simp only [List.length_cons]
  rw [if_neg (by omega)]

end Scan

/-! ### NUL bytes -/

section Nul

variable {c : Byte} {s : List Byte}

lemma nul_notMem_uartPutc (h : c ≠ 0#8) : 0#8 ∉ uartPutc c := by
  rw [uartPutc]
  split_ifs <;> simp [h.symm]

lemma nul_notMem_uartPuts (h : 0#8 ∉ s) : 0#8 ∉ uartPuts s := by
  intro hmem
  obtain ⟨c, hc, hmem⟩ := List.mem_flatMap.1 hmem
  refine nul_notMem_uartPutc ?_ hmem
  rintro rfl
  exact h hc

lemma nul_notMem_numeral {b : ℕ} (hb : 1 < b) (hb16 : b ≤ 16) (n : ℕ) : 0#8 ∉ numeral b n :=
  fun h => absurd (le_toNat_of_mem_numeral hb hb16 h) (by decide)

lemma nul_notMem_uartPrintDec (v : Word) : 0#8 ∉ uartPrintDec v := by
  rw [uartPrintDec_eq]
  exact nul_notMem_numeral (by decide) (by decide) _

lemma nul_notMem_uartPrintInt (v : Word) : 0#8 ∉ uartPrintInt v := by
  rw [uartPrintInt_eq, signedNumeral]
  split_ifs
  · rw [List.mem_cons, not_or]
    exact ⟨by decide, nul_notMem_numeral (by decide) (by decide) _⟩
  · exact nul_notMem_numeral (by decide) (by decide) _

lemma nul_notMem_hexShort (v : Word) : 0#8 ∉ hexShort v := by
  rw [hexShort_eq]
  exact nul_notMem_numeral (by decide) (by decide) _

lemma nul_notMem_hex8 (v : Word) : 0#8 ∉ hex8 v := by
  rw [hex8_eq, List.leftpad, List.mem_append, not_or]
  refine ⟨fun h => ?_, nul_notMem_numeral (by decide) (by decide) _⟩
  exact absurd (List.eq_of_mem_replicate h) (by decide)

end Nul

/-! ### What is emitted for a piece -/

/-- The bytes emitted. -/
def Printed.out (p : Printed) : List Byte := p.emitted.flatMap Emitted.bytes

/-- What is emitted for a piece of a C string. -/
def Emitted.Fits : Emitted → Prop
  | .ordinary c => c ≠ 0#8 ∧ c ≠ 0x25#8
  | .value k a => k.takes a = true
  | .percent => True
  | .other d => d ≠ 0#8 ∧ d ≠ 0x25#8 ∧ Conv.ofChar d = none

/-- The only NUL that is emitted is one that was given for a `%c`. -/
lemma Emitted.Fits.nul_mem {e : Emitted} (he : e.Fits) (h : 0#8 ∈ e.bytes) :
    ∃ v : Word, e = .value .char (.num v) ∧ v.setWidth 8 = 0#8 := by
  cases e with
  | ordinary c => exact absurd h (nul_notMem_uartPutc he.1)
  | percent => exact absurd h (by decide)
  | other d =>
    rw [Emitted.bytes, List.mem_append] at h
    exact absurd h (not_or.2 ⟨by decide, nul_notMem_uartPutc he.1⟩)
  | value k a =>
    cases k <;> cases a
    case char.num v =>
      by_contra hv
      refine nul_notMem_uartPutc (fun h0 => hv ⟨v, rfl, h0⟩) h
    case string.str s => exact absurd h (nul_notMem_uartPuts (of_decide_eq_true he))
    case int.num v => exact absurd h (nul_notMem_uartPrintInt v)
    case unsigned.num v => exact absurd h (nul_notMem_uartPrintDec v)
    case hex.num v => exact absurd h (nul_notMem_hexShort v)
    case hex8.num v => exact absurd h (nul_notMem_hex8 v)
    case pointer.num v =>
      rw [Emitted.bytes, List.mem_append] at h
      exact absurd h (not_or.2 ⟨by decide, nul_notMem_hex8 v⟩)
    all_goals exact absurd he Bool.false_ne_true

/-! ### The first piece of a format -/

section Piece

variable {c d : Byte} {k : Conv} {a : PrintfArg} {e : Emitted} {args args' : List PrintfArg}
  {text rest : List Byte}

lemma chars_of_ofChar (h : Conv.ofChar d = some k) : k.chars = [d] := by
  unfold Conv.ofChar at h
  split_ifs at h
  all_goals
    cases h
    subst_vars
    rfl

/-- A conversion that is supplied has an argument of its kind. -/
lemma Supplies.cons {ks : List Conv} (h : Supplies (k :: ks) args) :
    ∃ a args', args = a :: args' ∧ k.takes a = true ∧ Supplies ks args' := by
  cases args with
  | nil => exact h.elim
  | cons a args' => exact ⟨a, args', rfl, h.1, h.2⟩

lemma printfConv_of_ofChar (h : Conv.ofChar d = some k) (ha : k.takes a = true) :
    printfConv d (a :: args) = ((Emitted.value k a).bytes, args) := by
  unfold Conv.ofChar at h
  split_ifs at h
  all_goals
    cases h
    subst_vars
    cases a
  all_goals first
    | rfl
    | exact absurd ha Bool.false_ne_true

lemma printfConv_of_ofChar_none (h : Conv.ofChar d = none) :
    printfConv d args = ((if d = 0x25#8 then Emitted.percent else .other d).bytes, args) := by
  unfold Conv.ofChar at h
  split_ifs at h
  simp only [printfConv, *, if_false]
  split_ifs <;> rfl

lemma uartPrintf_ordinary (hc : c ≠ 0x25#8) :
    uartPrintf (c :: text) args = (uartPrintf text args).after (uartPutc c) := by
  rw [uartPrintf.eq_def]
  exact if_pos hc

lemma uartPrintf_hex8 (v : Word) :
    uartPrintf (0x25#8 :: 0x30#8 :: 0x38#8 :: 0x78#8 :: text) (.num v :: args) =
      (uartPrintf text args).after (hex8 v) := by
  rw [uartPrintf]
  exact if_neg (not_not.2 rfl)

lemma uartPrintf_switch (hpre : ¬ [0x30#8, 0x38#8, 0x78#8] <+: d :: text) :
    uartPrintf (0x25#8 :: d :: text) args =
      (uartPrintf text (printfConv d args).2).after (printfConv d args).1 := by
  rw [uartPrintf]
  · exact if_neg (not_not.2 rfl)
  · rintro rest rfl rfl
    exact hpre ⟨rest, rfl⟩

/-- The scanner emits `e` for the first piece of `text`, and goes on with `rest` and the arguments
`args'`. -/
structure Piece (text rest : List Byte) (args args' : List PrintfArg) (e : Emitted) : Prop where
  spells : text = e.piece ++ rest
  fits : e.Fits
  scan : ∀ junk, printfScan (text ++ 0#8 :: junk) args =
    (printfScan (rest ++ 0#8 :: junk) args').map (.after e)
  values : (convs text).zip args = e.value?.toList ++ (convs rest).zip args'
  left : args.drop (convs text).length = args'.drop (convs rest).length
  even : Even (trailing text) ↔ Even (trailing rest)
  out : uartPrintf text args = (uartPrintf rest args').after e.bytes

lemma piece_ordinary (h0 : c ≠ 0#8) (hc : c ≠ 0x25#8) (text : List Byte)
    (args : List PrintfArg) : Piece (c :: text) text args args (.ordinary c) where
  spells := rfl
  fits := ⟨h0, hc⟩
  scan junk := printfScan_ordinary h0 hc _ args
  values := by
    rw [convs_ordinary hc]
    rfl
  left := by rw [convs_ordinary hc]
  even := by rw [trailing_ordinary hc]
  out := uartPrintf_ordinary hc

lemma piece_hex8 (ha : Conv.hex8.takes a = true) (text : List Byte) (args : List PrintfArg) :
    Piece (0x25#8 :: 0x30#8 :: 0x38#8 :: 0x78#8 :: text) text (a :: args) args
      (.value .hex8 a) where
  spells := rfl
  fits := ha
  scan junk := by
    refine (printfScan_hex8 _ _).trans ?_
    rw [vaArg_of_takes ha]
    rfl
  values := by
    rw [convs_hex8]
    rfl
  left := by
    rw [convs_hex8]
    rfl
  even := by rw [trailing_hex8]
  out := by
    cases a with
    | str s => exact absurd ha Bool.false_ne_true
    | num v => exact uartPrintf_hex8 v

lemma piece_value (hpre : ¬ [0x30#8, 0x38#8, 0x78#8] <+: d :: text)
    (hd : Conv.ofChar d = some k) (ha : k.takes a = true) (args : List PrintfArg) :
    Piece (0x25#8 :: d :: text) text (a :: args) args (.value k a) where
  spells := by
    rw [Emitted.piece, chars_of_ofChar hd]
    rfl
  fits := ha
  scan junk := by
    refine (printfScan_switch (is08x_eq_false hpre junk) _).trans ?_
    simp only [hd, vaArg_of_takes ha, Option.bind_some]
  values := by
    rw [convs_switch hpre, hd]
    rfl
  left := by
    rw [convs_switch hpre, hd]
    rfl
  even := even_trailing_switch d text
  out := by rw [uartPrintf_switch hpre, printfConv_of_ofChar hd ha]

lemma piece_none (hpre : ¬ [0x30#8, 0x38#8, 0x78#8] <+: d :: text) (h0 : d ≠ 0#8)
    (hd : Conv.ofChar d = none) (args : List PrintfArg) :
    Piece (0x25#8 :: d :: text) text args args
      (if d = 0x25#8 then .percent else .other d) where
  spells := by
    split_ifs with hpct
    · rw [hpct]
      rfl
    · rfl
  fits := by
    split_ifs with hpct
    · trivial
    · exact ⟨h0, hpct, hd⟩
  scan junk := by
    refine (printfScan_switch (is08x_eq_false hpre junk) _).trans ?_
    simp only [hd]
  values := by
    rw [convs_switch hpre, hd]
    split_ifs <;> rfl
  left := by
    rw [convs_switch hpre, hd]
    rfl
  even := even_trailing_switch d text
  out := by rw [uartPrintf_switch hpre, printfConv_of_ofChar_none hd]

/-- **Induction on a format that is supplied with arguments**, by its first piece. -/
lemma scan_induct {P : List Byte → List PrintfArg → Prop} (nil : ∀ args, P [] args)
    (lone : ∀ args, P [0x25#8] args)
    (piece : ∀ {text rest args args' e}, Piece text rest args args' e → P rest args' →
      P text args)
    (h0 : 0#8 ∉ text) (hargs : Supplies (convs text) args) : P text args := by
  induction text using format_induct generalizing args with
  | nil => exact nil args
  | lone => exact lone args
  | ordinary c text hc ih =>
    rw [List.mem_cons, not_or] at h0
    rw [convs_ordinary hc] at hargs
    exact piece (piece_ordinary (Ne.symm h0.1) hc text args) (ih h0.2 hargs)
  | hex8 text ih =>
    have htext : 0#8 ∉ text :=
      fun h => h0 (List.mem_append_right [0x25#8, 0x30#8, 0x38#8, 0x78#8] h)
    rw [convs_hex8] at hargs
    obtain ⟨a, args, rfl, ha, hargs⟩ := hargs.cons
    exact piece (piece_hex8 ha text args) (ih htext hargs)
  | switch d text hpre ih =>
    rw [List.mem_cons, List.mem_cons, not_or, not_or] at h0
    rw [convs_switch hpre] at hargs
    cases hd : Conv.ofChar d with
    | some k =>
      rw [hd] at hargs
      obtain ⟨a, args, rfl, ha, hargs⟩ := Supplies.cons hargs
      exact piece (piece_value hpre hd ha args) (ih h0.2.2 hargs)
    | none =>
      rw [hd] at hargs
      exact piece (piece_none hpre (Ne.symm h0.2.1) hd args) (ih h0.2.2 hargs)

end Piece

/-! ### Where the scan stops -/

section Stops

variable {e : Emitted} {p : Printed} {args args' : List PrintfArg} {text rest : List Byte}

/-- The scan of the format `text` has stopped at its terminator. -/
structure Scanned (text : List Byte) (args : List PrintfArg) (p : Printed) : Prop where
  /-- Nothing behind the terminator is read, and the scan ends. -/
  run : ∀ junk, printfScan (text ++ 0#8 :: junk) args = some p
  /-- The format has been emitted piece by piece, in order. -/
  pieces : p.emitted.flatMap Emitted.piece = text
  /-- What is not an ordinary character is a conversion, a `%%` or an unknown conversion. -/
  fits : ∀ e ∈ p.emitted, e.Fits
  /-- Each recognised conversion has got its own argument. -/
  values : p.emitted.filterMap Emitted.value? = (convs text).zip args
  /-- No other argument was consumed. -/
  args_eq : p.args = args.drop (convs text).length
  /-- A NUL is emitted only if it is the argument of a `%c`. -/
  noNul : 0#8 ∈ p.out →
    ∃ v : Word, (Conv.char, PrintfArg.num v) ∈ (convs text).zip args ∧ v.setWidth 8 = 0#8

lemma nul_mem_out {kas : List (Conv × PrintfArg)} (hfits : ∀ e ∈ p.emitted, e.Fits)
    (hvalues : p.emitted.filterMap Emitted.value? = kas) (h : 0#8 ∈ p.out) :
    ∃ v : Word, (Conv.char, PrintfArg.num v) ∈ kas ∧ v.setWidth 8 = 0#8 := by
  obtain ⟨e, he, hmem⟩ := List.mem_flatMap.1 h
  obtain ⟨v, rfl, hv⟩ := (hfits e he).nul_mem hmem
  refine ⟨v, ?_, hv⟩
  rw [← hvalues]
  exact List.mem_filterMap.2 ⟨_, he, rfl⟩

lemma Scanned.nil (args : List PrintfArg) : Scanned [] args ⟨[], args⟩ := by
  refine ⟨fun junk => printfScan_nul junk args, rfl, by simp, ?_, ?_, by simp [Printed.out]⟩
  · simp [convs]
  · simp [convs]

lemma Scanned.cons (hp : Piece text rest args args' e) (h : Scanned rest args' p) :
    Scanned text args (p.after e) := by
  have hfits : ∀ e' ∈ (p.after e).emitted, e'.Fits := List.forall_mem_cons.2 ⟨hp.fits, h.fits⟩
  have hvalues : (p.after e).emitted.filterMap Emitted.value? = (convs text).zip args := by
    rw [hp.values, ← h.values, Printed.after]
    cases hv : e.value? with
    | none => rw [List.filterMap_cons_none hv, Option.toList_none, List.nil_append]
    | some ka => rw [List.filterMap_cons_some hv, Option.toList_some, List.singleton_append]
  refine ⟨fun junk => ?_, ?_, hfits, hvalues, ?_, nul_mem_out hfits hvalues⟩
  · rw [hp.scan, h.run]
    rfl
  · rw [Printed.after, List.flatMap_cons, h.pieces, ← hp.spells]
  · exact h.args_eq.trans hp.left.symm

/-- A format with an even number of `%` at its end is scanned up to its terminator. -/
lemma exists_scanned (h0 : 0#8 ∉ text) (hargs : Supplies (convs text) args) :
    Even (trailing text) → ∃ p, Scanned text args p := by
  refine scan_induct (P := fun text args => Even (trailing text) → ∃ p, Scanned text args p)
    ?_ ?_ ?_ h0 hargs
  · intro args _
    exact ⟨_, Scanned.nil args⟩
  · intro args heven
    exact absurd heven (by decide)
  · intro text rest args args' e hp ih heven
    obtain ⟨p, hscanned⟩ := ih (hp.even.1 heven)
    exact ⟨_, hscanned.cons hp⟩

/-- The scan emits the terminator of the format and goes on behind it. -/
def Overruns (text : List Byte) (args : List PrintfArg) : Prop :=
  ∃ es args', ∀ junk, printfScan (text ++ 0#8 :: junk) args =
    (printfScan junk args').map fun q => ⟨es ++ .other 0#8 :: q.emitted, q.args⟩

/-- A format with an odd number of `%` at its end is scanned beyond its terminator. -/
lemma overruns_of_odd (h0 : 0#8 ∉ text) (hargs : Supplies (convs text) args) :
    ¬ Even (trailing text) → Overruns text args := by
  refine scan_induct (P := fun text args => ¬ Even (trailing text) → Overruns text args)
    ?_ ?_ ?_ h0 hargs
  · intro args hodd
    exact absurd (by decide) hodd
  · intro args _
    exact ⟨[], args, fun junk => printfScan_switch rfl args⟩
  · intro text rest args args' e hp ih hodd
    obtain ⟨es, args'', hes⟩ := ih (mt hp.even.2 hodd)
    refine ⟨e :: es, args'', fun junk => ?_⟩
    rw [hp.scan, hes, Option.map_map]
    rfl

lemma not_scanned (h0 : 0#8 ∉ text) (hargs : Supplies (convs text) args)
    (hodd : ¬ Even (trailing text)) : ¬ ∃ p, Scanned text args p := by
  rintro ⟨p, hp⟩
  obtain ⟨es, args', hes⟩ := overruns_of_odd h0 hargs hodd
  -- the object that ends with the terminator
  have hrun := hp.run []
  rw [hes, printfScan, Option.map_none] at hrun
  cases hrun

/-- **`uart_printf` stops at the terminator of its format if and only if** the number of `%` in
front of the terminator is even. -/
theorem printf_stops_iff (h0 : 0#8 ∉ text) (hargs : Supplies (convs text) args) :
    (∃ p, Scanned text args p) ↔ Even (trailing text) := by
  constructor
  · intro h
    by_contra hodd
    exact not_scanned h0 hargs hodd h
  · exact exists_scanned h0 hargs

/-- `uart_printf("%u%%", 100)`. -/
theorem printf_stops_percent : Even (trailing [0x25#8, 0x75#8, 0x25#8, 0x25#8]) ∧
    ∃ p, Scanned [0x25#8, 0x75#8, 0x25#8, 0x25#8] [.num 100#32] p := by
  have heven : Even (trailing [0x25#8, 0x75#8, 0x25#8, 0x25#8]) := by decide
  refine ⟨heven, (printf_stops_iff (by decide) ?_).2 heven⟩
  rw [convs_switch (by decide)]
  exact ⟨rfl, by simp [convs_switch, convs, Conv.ofChar, Supplies]⟩

/-- `uart_printf("100%")`: the terminator is emitted, and what follows it is scanned. -/
theorem printf_runs_over : ¬ ∀ (text : List Byte) (args : List PrintfArg), 0#8 ∉ text →
    Supplies (convs text) args → ∃ p, Scanned text args p := by
  intro h
  have h0 : 0#8 ∉ [0x31#8, 0x30#8, 0x30#8, 0x25#8] := by decide
  have hargs : Supplies (convs [0x31#8, 0x30#8, 0x30#8, 0x25#8]) [] := by simp [convs, Supplies]
  exact not_scanned h0 hargs (by decide) (h _ _ h0 hargs)

/-- What a scan that stops has emitted is the output of `uart_printf` in the kernel model. -/
lemma uartPrintf_of_scan (h0 : 0#8 ∉ text) (hargs : Supplies (convs text) args) :
    ∀ p, printfScan (text ++ [0#8]) args = some p → uartPrintf text args = ⟨p.out, false⟩ := by
  refine scan_induct (P := fun text args => ∀ p, printfScan (text ++ [0#8]) args = some p →
    uartPrintf text args = ⟨p.out, false⟩) ?_ ?_ ?_ h0 hargs
  · intro args p h
    rw [List.nil_append, printfScan_nul] at h
    cases h
    rfl
  · intro args p h
    rw [List.singleton_append, printfScan_switch rfl, printfScan] at h
    cases h
  · intro text rest args args' e hp ih p h
    rw [hp.scan] at h
    obtain ⟨q, hq, rfl⟩ := Option.map_eq_some_iff.1 h
    rw [hp.out, ih q hq]
    rfl

end Stops

end RingNova
