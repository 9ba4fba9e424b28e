/-
# Strings of user programs

The functions of `user/libc/ulib.c` on C strings.  A pointer is modelled by the bytes of its
object from there on; a read at the end of the object is `none`.  A C string is an object that
has a terminator (`CString`), and what the functions compute depends on the text before it
only.

`ulib_atoi` reads the leading digits, whatever follows them, and computes their value modulo
`2 ^ 32` (`ulibAtoi_eq`).
-/
import Mathlib.Data.List.TakeWhile
import RingNova.Kernel.Uart

namespace RingNova

/-! ### C strings -/

/-- A pointer to the C string `text`. -/
def CString (text s : List Byte) : Prop := 0#8 ∉ text ∧ ∃ junk, s = text ++ 0#8 :: junk

/-- A string literal. -/
def literal (s : String) : List Byte := cstr s ++ [0#8]

lemma cString_literal (str : String) (h : 0#8 ∉ cstr str) : CString (cstr str) (literal str) :=
  ⟨h, [], rfl⟩

lemma CString.nil {s : List Byte} (h : CString [] s) : s.head? = some 0#8 := by
  obtain ⟨-, junk, rfl⟩ := h
  rfl

lemma CString.cons {c : Byte} {text s : List Byte} (h : CString (c :: text) s) :
    c ≠ 0#8 ∧ ∃ s', s = c :: s' ∧ CString text s' := by
  obtain ⟨hmem, junk, rfl⟩ := h
  rw [List.mem_cons, not_or] at hmem
  exact ⟨Ne.symm hmem.1, _, rfl, hmem.2, junk, rfl⟩

lemma CString.drop {text s : List Byte} (h : CString text s) {n : ℕ} (hn : n ≤ text.length) :
    CString (text.drop n) (s.drop n) := by
  obtain ⟨hmem, junk, rfl⟩ := h
  refine ⟨fun h0 => hmem (List.mem_of_mem_drop h0), junk, ?_⟩
  rw [List.drop_append_of_le_length hn]

/-- The text of a string is determined. -/
lemma CString.unique {text text' s : List Byte} (h : CString text s) (h' : CString text' s) :
    text = text' := by
  induction text generalizing text' s with
  | nil =>
    cases text' with
    | nil => rfl
    | cons c text' =>
      obtain ⟨hc, s', rfl, -⟩ := h'.cons
      exact absurd (Option.some.inj h.nil) hc
  | cons c text ih =>
    obtain ⟨hc, s', rfl, hs'⟩ := h.cons
    cases text' with
    | nil => exact absurd (Option.some.inj h'.nil) hc
    | cons c' text' =>
      obtain ⟨-, s'', heq, hs''⟩ := h'.cons
      obtain ⟨rfl, rfl⟩ := List.cons.inj heq
      rw [ih hs' hs'']

/-! ### `ulib.c` -/

/-- The loop of `ulib_strlen`. -/
def strlenLoop (n : Word) : List Byte → Option Word
  | [] => none
  | c :: s => if c = 0#8 then some n else strlenLoop (n + 1#32) s

/-- `ulib_strlen`. -/
def ulibStrlen (s : List Byte) : Option Word := strlenLoop 0#32 s

/-- `ulib_strncmp`. -/
def ulibStrncmp : List Byte → List Byte → Word → Option ℤ
  | ca :: a, cb :: b, n =>
    if n = 0#32 then some 0
    else if ca ≠ 0#8 ∧ ca = cb then ulibStrncmp a b (n - 1#32)
    else some ((ca.toNat : ℤ) - cb.toNat)
  | _, _, n => if n = 0#32 then some 0 else none

/-- A decimal digit. -/
def isDigit (c : Byte) : Bool := 0x30#8 ≤ c && c ≤ 0x39#8

/-- The loop of `ulib_atoi`.  The `int` overflows as the target's multiplication and addition
do. -/
def atoiLoop (v : Word) : List Byte → Option Word
  | [] => none
  | c :: s =>
    if isDigit c then atoiLoop (v * 10#32 + (c.setWidth 32 - 0x30#32)) s else some v

/-- `ulib_atoi`. -/
def ulibAtoi (s : List Byte) : Option Word := atoiLoop 0#32 s

/-! ### What they compute -/

/-- The number that follows from another one by appending a digit. -/
def appendDigit (v : ℕ) (c : Byte) : ℕ := v * 10 + (c.toNat - 0x30)

/-- The value of a sequence of decimal digits. -/
def decValue (ds : List Byte) : ℕ := ds.foldl appendDigit 0

lemma strlenLoop_eq {text s : List Byte} (h : CString text s) (n : ℕ) :
    strlenLoop (BitVec.ofNat 32 n) s = some (BitVec.ofNat 32 (n + text.length)) := by
  induction text generalizing s n with
  | nil =>
    obtain ⟨-, junk, rfl⟩ := h
    rfl
  | cons c text ih =>
    obtain ⟨hc, s', rfl, hs'⟩ := h.cons
    have hn : BitVec.ofNat 32 n + 1#32 = BitVec.ofNat 32 (n + 1) := (BitVec.ofNat_add n 1).symm
    rw [strlenLoop, if_neg hc, hn, ih hs', List.length_cons, Nat.add_assoc, Nat.add_comm 1]

lemma ulibStrlen_eq {text s : List Byte} (h : CString text s) :
    ulibStrlen s = some (BitVec.ofNat 32 text.length) := by
  have hlen := strlenLoop_eq h 0
  rwa [Nat.zero_add] at hlen

lemma ulibStrncmp_zero (a b : List Byte) : ulibStrncmp a b 0#32 = some 0 := by
  cases a with
  | nil => rfl
  | cons ca a => cases b <;> rfl

/-- **`ulib_strncmp` with the length of a word** compares a string's beginning with it. -/
lemma ulibStrncmp_eq {text s word w : List Byte} (h : CString text s) (hw : CString word w)
    (hlen : word.length < 2 ^ 32) :
    ∃ d, ulibStrncmp s w (BitVec.ofNat 32 word.length) = some d ∧ (d = 0 ↔ word <+: text) := by
  -- by induction on the word: the string ends, differs, or goes on like it
  induction word generalizing text s w with
  | nil => exact ⟨0, ulibStrncmp_zero s w, by simp⟩
  | cons x word ih =>
    obtain ⟨hx, w', rfl, hw'⟩ := hw.cons
    have hn : BitVec.ofNat 32 (x :: word).length ≠ 0#32 := by
      rw [List.length_cons] at hlen ⊢
      intro h0
      have h1 := congrArg BitVec.toNat h0
      rw [BitVec.toNat_ofNat, Nat.mod_eq_of_lt hlen] at h1
      exact absurd h1 (Nat.succ_ne_zero _)
    have hdiff : ∀ {c : Byte}, c ≠ x → ((c.toNat : ℤ) - x.toNat ≠ 0) := by
      intro c hc h0
      exact hc (BitVec.eq_of_toNat_eq (by omega))
    cases text with
    | nil =>
      -- the string ends before the word does
      obtain ⟨-, junk, rfl⟩ := h
      refine ⟨_, by rw [List.nil_append, ulibStrncmp, if_neg hn, if_neg (by simp)], ?_⟩
      simpa using hdiff (c := 0#8) hx.symm
    | cons c text =>
      obtain ⟨hc, s', rfl, hs'⟩ := h.cons
      by_cases hcx : c = x
      · subst hcx
        have hpred : BitVec.ofNat 32 (c :: word).length - 1#32 = BitVec.ofNat 32 word.length := by
          rw [List.length_cons, BitVec.ofNat_add, BitVec.add_sub_cancel]
        obtain ⟨d, hd, hiff⟩ := ih hs' hw' (by rw [List.length_cons] at hlen; omega)
        refine ⟨d, ?_, by rw [hiff, List.cons_prefix_cons]; simp⟩
        rw [ulibStrncmp, if_neg hn, if_pos ⟨hc, rfl⟩, hpred, hd]
      · refine ⟨_, by rw [ulibStrncmp, if_neg hn, if_neg (by simp [hcx])], ?_⟩
        rw [List.cons_prefix_cons]
        simp [hdiff hcx, Ne.symm hcx]

lemma toNat_digit {c : Byte} (h : isDigit c = true) :
    0x30 ≤ c.toNat ∧ c.toNat ≤ 0x39 := by
  rw [isDigit, Bool.and_eq_true, decide_eq_true_iff, decide_eq_true_iff] at h
  exact h

/-- One round of the loop of `ulib_atoi`. -/
lemma ofNat_appendDigit (v : ℕ) {c : Byte} (h : isDigit c = true) :
    BitVec.ofNat 32 v * 10#32 + (c.setWidth 32 - 0x30#32) = BitVec.ofNat 32 (appendDigit v c) := by
  obtain ⟨h1, h2⟩ := toNat_digit h
  have hc : c.setWidth 32 - 0x30#32 = BitVec.ofNat 32 (c.toNat - 0x30) := by
    apply BitVec.eq_of_toNat_eq
    rw [BitVec.toNat_sub, BitVec.toNat_setWidth, BitVec.toNat_ofNat, BitVec.toNat_ofNat]
    omega
  rw [hc, appendDigit, BitVec.ofNat_add, BitVec.ofNat_mul]

lemma atoiLoop_eq {text s : List Byte} (h : CString text s) (v : ℕ) :
    atoiLoop (BitVec.ofNat 32 v) s =
      some (BitVec.ofNat 32 ((text.takeWhile isDigit).foldl appendDigit v)) := by
  induction text generalizing s v with
  | nil =>
    obtain ⟨-, junk, rfl⟩ := h
    rfl
  | cons c text ih =>
    obtain ⟨-, s', rfl, hs'⟩ := h.cons
    rw [atoiLoop]
    by_cases hd : isDigit c = true
    · rw [if_pos hd, ofNat_appendDigit v hd, ih hs', List.takeWhile_cons_of_pos hd,
        List.foldl_cons]
    · rw [if_neg hd, List.takeWhile_cons_of_neg hd, List.foldl_nil]

/-- **`ulib_atoi` computes the value of the leading digits**, modulo `2 ^ 32`. -/
theorem ulibAtoi_eq {text s : List Byte} (h : CString text s) :
    ulibAtoi s = some (BitVec.ofNat 32 (decValue (text.takeWhile isDigit))) :=
  atoiLoop_eq h 0

end RingNova
