/-
# The numerals that the kernel prints

`uart_print_dec`, `uart_print_int` and the hexadecimal loops of `uart_printf` emit numerals
(`RingNova.Lib.Numeral`).

`uart_print_dec` fills a buffer with the digits, the last one first, and then emits them in the
opposite order.  A number below `2 ^ 32` has at most ten digits, so its buffer of ten characters
is just large enough (`emitDigits_eq`).  The hexadecimal loops go over the eight nibbles of a
word, and `%x` skips those at the beginning that are zero.
-/
import RingNova.Kernel.Uart
import RingNova.Lib.Numeral

namespace RingNova

/-! ### The two decimal loops -/

section Buffer

variable {n : ℕ}

/-- `while (val > 0) { buf[i++] = '0' + (val % 10); val /= 10; }`.  An index outside of the
buffer is `none`. -/
def fillDigits (buf : Vector Byte n) (i : ℕ) (val : Word) : Option (Vector Byte n × ℕ) :=
  if hval : val = 0#32 then some (buf, i)
  else if h : i < n then
    fillDigits (buf.set i ((0x30#32 + val % 10#32).setWidth 8)) (i + 1) (val / 10#32)
  else none
termination_by val.toNat
decreasing_by
  have hpos : 0 < val.toNat := Nat.pos_of_ne_zero fun h0 => hval (BitVec.eq_of_toNat_eq h0)
  rw [BitVec.toNat_udiv]
  exact Nat.div_lt_self hpos (by decide)

/-- `while (--i >= 0)`: the characters `buf[i]` in the order in which they are emitted. -/
def flipDigits (buf : Vector Byte n) : ℕ → Option (List Byte)
  | 0 => some []
  | i + 1 => do
    let c ← buf[i]?
    return c :: (← flipDigits buf i)

/-- The characters that are emitted for `val` with the help of a buffer. -/
def emitDigits (buf : Vector Byte n) (val : Word) : Option (List Byte) :=
  if val = 0#32 then some [0x30#8]
  else do
    let (buf, i) ← fillDigits buf 0 val
    flipDigits buf i

end Buffer

/-- `uart_print_dec`, with what is in its buffer before. -/
def uartPrintDecBuf (buf : Vector Byte 10) (val : Word) : Option (List Byte) :=
  (emitDigits buf val).map (·.flatMap uartPutc)

/-! ### Decimal numerals -/

/-- The digits of the first loop. -/
lemma reverse_printDecLoop {m : ℕ} (hm : m ≠ 0) : (printDecLoop m).reverse = numeral 10 m := by
  induction m using numeral_induct (b := 10) (by decide) with
  | lt m hlt =>
    rw [numeral_of_lt hlt, printDecLoop, dif_neg hm, Nat.div_eq_of_lt hlt, printDecLoop,
      dif_pos rfl, Nat.mod_eq_of_lt hlt, digit_eq (by omega), if_pos hlt]
    rfl
  | le m hle ih =>
    have hdiv : m / 10 ≠ 0 := by omega
    rw [numeral_of_le (by decide) hle, printDecLoop, dif_neg hm, List.reverse_cons, ih hdiv,
      digit_eq (by omega), if_pos (by omega)]

/-! ### The buffers -/

section Buffer

variable {n : ℕ}

/-- What the first loop stores. -/
lemma setWidth_digit (val : Word) :
    (0x30#32 + val % 10#32).setWidth 8 = BitVec.ofNat 8 (0x30 + val.toNat % 10) := by
  have h10 : (10#32).toNat = 10 := rfl
  have h30 : (0x30#32).toNat = 0x30 := rfl
  apply BitVec.eq_of_toNat_eq
  rw [BitVec.toNat_setWidth, BitVec.toNat_add, BitVec.toNat_umod, h10, h30, BitVec.toNat_ofNat]
  omega

lemma take_set (buf : Vector Byte n) {i : ℕ} (h : i < n) (c : Byte) :
    (buf.set i c).toList.take (i + 1) = buf.toList.take i ++ [c] := by
  have hi : i < buf.toList.length := by rwa [Vector.length_toList]
  rw [Vector.toList_set, List.take_add_one, List.take_set_of_le (Nat.le_refl i),
    List.getElem?_set_self hi]
  rfl

/-- The first loop appends the digits to what it has stored already. -/
lemma fillDigits_eq (buf : Vector Byte n) (i : ℕ) (val : Word)
    (h : i + (printDecLoop val.toNat).length ≤ n) :
    ∃ buf', fillDigits buf i val = some (buf', i + (printDecLoop val.toNat).length) ∧
      buf'.toList.take (i + (printDecLoop val.toNat).length) =
        buf.toList.take i ++ printDecLoop val.toNat := by
  induction buf, i, val using fillDigits.induct with
  | case1 buf i =>
    have hnil : printDecLoop (0#32).toNat = [] := by simp [printDecLoop]
    rw [hnil, fillDigits, dif_pos rfl]
    exact ⟨buf, rfl, (List.append_nil _).symm⟩
  | case2 buf i val hval hi ih =>
    have hpos : val.toNat ≠ 0 := fun h0 => hval (BitVec.eq_of_toNat_eq h0)
    have hdiv : (val / 10#32).toNat = val.toNat / 10 := BitVec.toNat_udiv
    rw [printDecLoop, dif_neg hpos] at h ⊢
    rw [List.length_cons] at h ⊢
    rw [hdiv] at ih
    obtain ⟨buf', hrun, htake⟩ := ih (by omega)
    rw [take_set buf hi, setWidth_digit, List.append_assoc, List.singleton_append] at htake
    refine ⟨buf', ?_, ?_⟩
    · rw [fillDigits, dif_neg hval, dif_pos hi, hrun, Nat.add_assoc, Nat.add_comm 1]
    · rw [← htake, Nat.add_assoc, Nat.add_comm 1]
  | case3 buf i val hval hi =>
    have hpos : val.toNat ≠ 0 := fun h0 => hval (BitVec.eq_of_toNat_eq h0)
    rw [printDecLoop, dif_neg hpos, List.length_cons] at h
    omega

lemma flipDigits_eq (buf : Vector Byte n) {i : ℕ} (h : i ≤ n) :
    flipDigits buf i = some (buf.toList.take i).reverse := by
  induction i with
  | zero => rfl
  | succ i ih =>
    have hi : i < buf.toList.length := by rwa [Vector.length_toList]
    rw [flipDigits, ih (by omega), ← Vector.getElem?_toList, List.getElem?_eq_getElem hi,
      List.take_succ_eq_append_getElem hi, List.reverse_append]
    rfl

lemma length_printDecLoop_le (val : Word) : (printDecLoop val.toNat).length ≤ 10 := by
  by_cases hval : val.toNat = 0
  · simp [hval, printDecLoop]
  · rw [← List.length_reverse, reverse_printDecLoop hval,
      length_numeral_le_iff (by decide) (by decide)]
    exact val.isLt.trans (by decide)

/-- **Ten characters suffice**, and what is emitted is the numeral. -/
lemma emitDigits_eq (hn : 10 ≤ n) (buf : Vector Byte n) (val : Word) :
    emitDigits buf val = some (numeral 10 val.toNat) := by
  rw [emitDigits]
  split_ifs with hval
  · subst hval
    rfl
  · have hpos : val.toNat ≠ 0 := fun h0 => hval (BitVec.eq_of_toNat_eq h0)
    have hlen := length_printDecLoop_le val
    obtain ⟨buf', hfill, htake⟩ := fillDigits_eq buf 0 val (by omega)
    have hflip := flipDigits_eq buf' (i := 0 + (printDecLoop val.toNat).length) (by omega)
    rw [htake, List.take_zero, List.nil_append, reverse_printDecLoop hpos] at hflip
    rw [hfill]
    exact hflip

end Buffer

/-! ### The decimal numerals of the kernel -/

lemma uartPutc_of_ne {c : Byte} (h : c ≠ 0x0A#8) : uartPutc c = [c] := if_neg h

lemma flatMap_uartPutc {s : List Byte} (h : 0x0A#8 ∉ s) : s.flatMap uartPutc = s := by
  induction s with
  | nil => rfl
  | cons c s ih =>
    rw [List.mem_cons, not_or] at h
    rw [List.flatMap_cons, uartPutc_of_ne (Ne.symm h.1), ih h.2, List.singleton_append]

lemma flatMap_uartPutc_numeral (m : ℕ) : (numeral 10 m).flatMap uartPutc = numeral 10 m := by
  refine flatMap_uartPutc fun h => ?_
  exact absurd (le_toNat_of_mem_numeral (by decide) (by decide) h) (by decide)

lemma uartPrintDecBuf_eq (buf : Vector Byte 10) (v : Word) :
    uartPrintDecBuf buf v = some (numeral 10 v.toNat) := by
  rw [uartPrintDecBuf, emitDigits_eq (Nat.le_refl 10), Option.map_some, flatMap_uartPutc_numeral]

/-- The kernel's own `uart_print_dec` is the one with a buffer. -/
lemma uartPrintDec_eq (v : Word) : uartPrintDec v = numeral 10 v.toNat := by
  rw [uartPrintDec]
  split_ifs with hv
  · subst hv
    rfl
  · have hpos : v.toNat ≠ 0 := fun h0 => hv (BitVec.eq_of_toNat_eq h0)
    rw [reverse_printDecLoop hpos, flatMap_uartPutc_numeral]

/-- The numeral of an integer. -/
def signedNumeral (z : ℤ) : List Byte :=
  if z < 0 then 0x2D#8 :: numeral 10 z.natAbs else numeral 10 z.natAbs

/-- The negation of `uart_print_int` does not overflow. -/
lemma toInt_neg_succ {v : Word} (h : v.toInt < 0) :
    (v + 1#32).toInt = v.toInt + 1 ∧ (-(v + 1#32)).toInt = -(v.toInt + 1) := by
  have h1 : (1#32).toNat = 1 := rfl
  have hlt := v.isLt
  simp only [BitVec.toInt_eq_toNat_cond, BitVec.toNat_neg, BitVec.toNat_add, h1] at h ⊢
  split_ifs at h ⊢ <;> omega

lemma toNat_neg_succ {v : Word} (h : v.toInt < 0) :
    (-(v + 1#32) + 1#32).toNat = v.toInt.natAbs := by
  have h1 : (1#32).toNat = 1 := rfl
  have hlt := v.isLt
  simp only [BitVec.toInt_eq_toNat_cond, BitVec.toNat_neg, BitVec.toNat_add, h1] at h ⊢
  split_ifs at h ⊢ <;> omega

lemma uartPrintInt_eq (v : Word) : uartPrintInt v = signedNumeral v.toInt := by
  have hslt : v.slt 0#32 = true ↔ v.toInt < 0 := by
    rw [BitVec.slt_eq_decide, decide_eq_true_iff]
    rfl
  rw [uartPrintInt, signedNumeral]
  by_cases hneg : v.toInt < 0
  · rw [if_pos hneg, if_pos (hslt.2 hneg), uartPrintDec_eq, toNat_neg_succ hneg]
    rfl
  · have habs : v.toInt.natAbs = v.toNat := by
      have hlt := v.isLt
      rw [BitVec.toInt_eq_toNat_cond] at hneg ⊢
      split_ifs at hneg ⊢ <;> omega
    rw [if_neg hneg, if_neg (fun h => hneg (hslt.1 h)), uartPrintDec_eq, habs]

/-! ### Hexadecimal numerals -/

lemma toNat_nibble (v : Word) (i : ℕ) : (nibble v i).toNat = v.toNat / 2 ^ i % 16 := by
  rw [nibble, BitVec.toNat_and, BitVec.toNat_ushiftRight, Nat.shiftRight_eq_div_pow]
  exact Nat.and_two_pow_sub_one_eq_mod _ 4

lemma hexDigit_nibble (v : Word) (i : ℕ) :
    hexDigit (nibble v i) = digit (v.toNat / 2 ^ i % 16) := by
  rw [hexDigit, toNat_nibble, digit_eq (Nat.mod_lt _ (by decide))]
  split_ifs <;> rfl

lemma uartPutc_hexDigit (v : Word) (i : ℕ) :
    uartPutc (hexDigit (nibble v i)) = [digit (v.toNat / 2 ^ i % 16)] := by
  rw [hexDigit_nibble]
  refine uartPutc_of_ne fun h => ?_
  have hle := le_toNat_digit (d := v.toNat / 2 ^ i % 16) (Nat.mod_lt _ (by decide))
  rw [h] at hle
  exact absurd hle (by decide)

lemma flatMap_hexDigits (v : Word) (is : List ℕ) :
    is.flatMap (fun i => uartPutc (hexDigit (nibble v i))) =
      is.map fun i => digit (v.toNat / 2 ^ i % 16) := by
  rw [List.map_eq_flatMap]
  simp only [uartPutc_hexDigit]

/-- **`%08x`** emits eight digits. -/
lemma hex8_eq (v : Word) : hex8 v = (numeral 16 v.toNat).leftpad 8 0x30#8 := by
  have hlt : v.toNat < 16 ^ 8 := v.isLt
  rw [hex8, flatMap_hexDigits, ← padded_eq (by decide) (by decide) hlt]
  simp [hexShifts, padded, Nat.div_div_eq_div_mul]

lemma nibble_eq_zero_iff (v : Word) (i : ℕ) :
    nibble v i = 0#32 ↔ digit (v.toNat / 2 ^ i % 16) = 0x30#8 := by
  rw [digit_eq_zero_iff (Nat.mod_lt _ (by decide)), ← toNat_nibble, ← BitVec.toNat_inj]
  rfl

/-- The first loop of `%x` skips the zeros before the last digit. -/
lemma map_dropWhile_shifts (v : Word) {is : List ℕ} (h : 0 ∉ is) :
    ((is ++ [0]).dropWhile fun i => nibble v i = 0#32 ∧ i ≠ 0).map
        (fun i => digit (v.toNat / 2 ^ i % 16)) =
      (is.map fun i => digit (v.toNat / 2 ^ i % 16)).dropWhile (fun c => c = 0x30#8) ++
        [digit (v.toNat % 16)] := by
  induction is with
  | nil => simp
  | cons i is ih =>
    rw [List.mem_cons, not_or] at h
    rw [List.cons_append, List.map_cons]
    by_cases hzero : nibble v i = 0#32
    · have hdigit := (nibble_eq_zero_iff v i).1 hzero
      rw [List.dropWhile_cons_of_pos (by simp [hzero, Ne.symm h.1]),
        List.dropWhile_cons_of_pos (by simp [hdigit]), ih h.2]
    · have hdigit := mt (nibble_eq_zero_iff v i).2 hzero
      rw [List.dropWhile_cons_of_neg (by simp [hzero]),
        List.dropWhile_cons_of_neg (by simp [hdigit])]
      simp

/-- **`%x`** emits the numeral. -/
lemma hexShort_eq (v : Word) : hexShort v = numeral 16 v.toNat := by
  have hinit : [28, 24, 20, 16, 12, 8, 4].map (fun i => digit (v.toNat / 2 ^ i % 16)) =
      padded 16 7 (v.toNat / 16) := by
    simp [padded, Nat.div_div_eq_div_mul]
  have hsplit : hexShifts = [28, 24, 20, 16, 12, 8, 4] ++ [0] := rfl
  have hlt : v.toNat < 16 ^ 8 := v.isLt
  rw [hexShort, flatMap_hexDigits, hsplit, map_dropWhile_shifts v (by decide), hinit,
    dropWhile_padded (by decide) (by decide) (by decide) hlt]

end RingNova
