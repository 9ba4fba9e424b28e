/-
# Printing and parsing numbers

`ulib_putu` has the loops of `uart_print_dec` over a buffer of its own, and so it prints the same
numerals (`RingNova.Kernel.Numerals`).  `ulib_atoi` is an inverse below `2 ^ 31`, where its `int`
does not overflow.
-/
import RingNova.Kernel.Printf
import RingNova.User.Shell

namespace RingNova

/-! ### `ulib_putu` -/

/-- `ulib_putc`. -/
def ulibPutc (c : Byte) (next : Prog) : Prog := .write [c] next

/-- `ulib_putu`, with what is in its buffer before. -/
def ulibPutu (buf : Vector Byte 11) (v : Word) (next : Prog) : Option Prog :=
  (emitDigits buf v).map (·.foldr ulibPutc next)

/-! ### The value of a numeral -/

lemma isDigit_of_mem_numeral {m : ℕ} {c : Byte} (h : c ∈ numeral 10 m) : isDigit c = true := by
  obtain ⟨d, hd, rfl⟩ := exists_digit_of_mem_numeral (by decide) h
  have hall : ∀ d : Fin 10, isDigit (digit d) = true := by decide
  exact hall ⟨d, hd⟩

lemma decValue_append_singleton (ds : List Byte) (c : Byte) :
    decValue (ds ++ [c]) = appendDigit (decValue ds) c := by
  rw [decValue, decValue, List.foldl_append]
  rfl

lemma appendDigit_digit (v : ℕ) {d : ℕ} (h : d < 10) : appendDigit v (digit d) = v * 10 + d := by
  rw [appendDigit, digit_eq (by omega), if_pos h, BitVec.toNat_ofNat]
  omega

lemma decValue_numeral (m : ℕ) : decValue (numeral 10 m) = m := by
  induction m using numeral_induct (b := 10) (by decide) with
  | lt m hlt =>
    rw [numeral_of_lt hlt]
    exact (appendDigit_digit 0 hlt).trans (by omega)
  | le m hle ih =>
    rw [numeral_of_le (by decide) hle, decValue_append_singleton, ih,
      appendDigit_digit _ (Nat.mod_lt _ (by decide)), Nat.div_add_mod']

lemma le_foldl_appendDigit (v : ℕ) (ds : List Byte) : v ≤ ds.foldl appendDigit v := by
  induction ds generalizing v with
  | nil => exact Nat.le_refl v
  | cons c ds ih =>
    have hv : v ≤ appendDigit v c := by
      rw [appendDigit]
      omega
    exact hv.trans (ih _)

/-- What `ulib_atoi` has read of a numeral is not larger. -/
lemma decValue_le_of_isPrefix {m : ℕ} {ds : List Byte} (h : ds <+: numeral 10 m) :
    decValue ds ≤ m := by
  obtain ⟨ds', hds'⟩ := h
  calc decValue ds ≤ ds'.foldl appendDigit (decValue ds) := le_foldl_appendDigit _ ds'
    _ = decValue (numeral 10 m) := by rw [decValue, decValue, ← List.foldl_append, hds']
    _ = m := decValue_numeral m

/-! ### Numbers print and parse back -/

lemma run_foldr_ulibPutc {N : ℕ} (k : Kernel N) (cs : List Byte) (next : Prog) :
    (cs.foldr ulibPutc next).run k = ((next.run k).1, cs ++ (next.run k).2) := by
  induction cs with
  | nil => rfl
  | cons c cs ih =>
    rw [List.foldr_cons, ulibPutc, Prog.run, ih]
    rfl

/-- A numeral and what follows it. -/
lemma takeWhile_isDigit_numeral (m : ℕ) {rest : List Byte}
    (hrest : ∀ c ∈ rest.head?, isDigit c = false) :
    (numeral 10 m ++ rest).takeWhile isDigit = numeral 10 m := by
  have hnil : rest.takeWhile isDigit = [] := by
    cases rest with
    | nil => rfl
    | cons c rest => exact List.takeWhile_cons_of_neg (by simp [hrest c rfl])
  rw [List.takeWhile_append_of_pos fun c hc => isDigit_of_mem_numeral hc, hnil, List.append_nil]

/-- **`ulib_atoi` reads a numeral**, whatever text follows it that does not begin with a digit. -/
lemma ulibAtoi_numeral (v : Word) {rest s : List Byte}
    (hrest : ∀ c ∈ rest.head?, isDigit c = false) (hs : CString (numeral 10 v.toNat ++ rest) s) :
    ulibAtoi s = some v := by
  rw [ulibAtoi_eq hs, takeWhile_isDigit_numeral _ hrest, decValue_numeral, BitVec.ofNat_toNat,
    BitVec.setWidth_eq]

/-- How a number is printed and parsed. -/
structure PrintedAndParsed (v : Word) : Prop where
  /-- `uart_print_dec` stays inside its buffer and emits the decimal numeral. -/
  dec : ∀ buf, uartPrintDecBuf buf v = some (numeral 10 v.toNat)
  /-- What the other functions of the kernel emit through it is the same numeral. -/
  plain : uartPrintDec v = numeral 10 v.toNat
  /-- `ulib_putu` does so too, and the program goes on. -/
  putu : ∀ buf next, ∃ p, ulibPutu buf v next = some p ∧ ∀ {N : ℕ} (k : Kernel N),
    p.run k = ((next.run k).1, numeral 10 v.toNat ++ (next.run k).2)
  /-- There is no leading zero. -/
  head : (numeral 10 v.toNat).head? = some 0x30#8 → v = 0#32
  /-- `uart_print_int` emits the signed numeral. -/
  int : uartPrintInt v = signedNumeral v.toInt
  /-- Its negation does not overflow. -/
  neg : v.toInt < 0 →
    (v + 1#32).toInt = v.toInt + 1 ∧ (-(v + 1#32)).toInt = -(v.toInt + 1)
  /-- `%x` emits the hexadecimal numeral. -/
  hex : ∀ fmt args, uartPrintf (0x25#8 :: 0x78#8 :: fmt) (.num v :: args) =
    (uartPrintf fmt args).after (numeral 16 v.toNat)
  /-- `%08x` pads it with zeros to eight digits. -/
  hex8 : ∀ fmt args,
    uartPrintf (0x25#8 :: 0x30#8 :: 0x38#8 :: 0x78#8 :: fmt) (.num v :: args) =
      (uartPrintf fmt args).after ((numeral 16 v.toNat).leftpad 8 0x30#8)
  /-- The padded numeral has eight digits. -/
  width : ((numeral 16 v.toNat).leftpad 8 0x30#8).length = 8
  /-- `ulib_atoi` returns the number, whatever text follows its numeral. -/
  atoi : v.toNat < 2 ^ 31 → ∀ rest s, (∀ c ∈ rest.head?, isDigit c = false) →
    CString (numeral 10 v.toNat ++ rest) s → ulibAtoi s = some v
  /-- Its `int` does not overflow on the way. -/
  reads : v.toNat < 2 ^ 31 → ∀ ds, ds <+: numeral 10 v.toNat → decValue ds < 2 ^ 31

/-- **Numbers print and parse back**: every 32-bit value. -/
theorem numbers_print_and_parse (v : Word) : PrintedAndParsed v where
  dec buf := uartPrintDecBuf_eq buf v
  plain := uartPrintDec_eq v
  putu buf next := by
    refine ⟨(numeral 10 v.toNat).foldr ulibPutc next, ?_, fun k => run_foldr_ulibPutc k _ next⟩
    rw [ulibPutu, emitDigits_eq (by decide), Option.map_some]
  head h := BitVec.eq_of_toNat_eq (head_numeral (by decide) (by decide) h)
  int := uartPrintInt_eq v
  neg h := toInt_neg_succ h
  hex fmt args := by
    have hpre : ¬ [0x30#8, 0x38#8, 0x78#8] <+: 0x78#8 :: fmt := by simp
    rw [uartPrintf_switch hpre, ← hexShort_eq]
    rfl
  hex8 fmt args := by rw [uartPrintf_hex8, hex8_eq]
  width := by
    have hlen : (numeral 16 v.toNat).length ≤ 8 :=
      (length_numeral_le_iff (by decide) (by decide)).2 v.isLt
    rw [List.length_leftpad, Nat.max_eq_left hlen]
  atoi _ rest s hrest hs := ulibAtoi_numeral v hrest hs
  reads hv ds hds := (decValue_le_of_isPrefix hds).trans_lt hv

end RingNova
