/-
# Numerals

The numeral of a number in a base up to sixteen, as ASCII characters with the most significant
digit first.  This is `Nat.toDigits`, so that there is no leading zero (`head_numeral`).

There are two ways to compute it.  Dividing by the base gives the last digit and the number that
the other ones denote (`numeral_of_lt`, `numeral_of_le`).  A fixed number of digits gives the
numeral with zeros in front (`padded_eq`), and the numeral itself is what remains after the zeros
before the last digit have been dropped (`dropWhile_padded`).
-/
import Mathlib.Algebra.Group.Nat.Defs
import Mathlib.Data.List.Basic

namespace RingNova

/-- The character of a digit. -/
def digit (d : ℕ) : BitVec 8 := BitVec.ofNat 8 d.digitChar.toNat

/-- The numeral of `n` in base `b`. -/
def numeral (b n : ℕ) : List (BitVec 8) :=
  (Nat.toDigits b n).map fun c => BitVec.ofNat 8 c.toNat

/-- The last `k` digits of `n` in base `b`. -/
def padded (b : ℕ) : ℕ → ℕ → List (BitVec 8)
  | 0, _ => []
  | k + 1, n => padded b k (n / b) ++ [digit (n % b)]

variable {b n k d : ℕ}

/-! ### Digits -/

lemma digit_eq (h : d < 16) :
    digit d = BitVec.ofNat 8 (if d < 10 then 0x30 + d else 0x57 + d) := by
  have hall : ∀ d : Fin 16,
      digit d = BitVec.ofNat 8 (if (d : ℕ) < 10 then 0x30 + d else 0x57 + d) := by decide
  exact hall ⟨d, h⟩

lemma digit_eq_zero_iff (h : d < 16) : digit d = 0x30#8 ↔ d = 0 := by
  have hall : ∀ d : Fin 16, digit d = 0x30#8 ↔ (d : ℕ) = 0 := by decide
  exact hall ⟨d, h⟩

/-- No digit is a control character. -/
lemma le_toNat_digit (h : d < 16) : 0x30 ≤ (digit d).toNat := by
  rw [digit_eq h, BitVec.toNat_ofNat]
  split_ifs <;> omega

/-! ### The numeral by division -/

lemma numeral_of_lt (h : n < b) : numeral b n = [digit n] := by
  rw [numeral, Nat.toDigits_of_lt_base h]
  rfl

lemma numeral_of_le (hb : 1 < b) (h : b ≤ n) :
    numeral b n = numeral b (n / b) ++ [digit (n % b)] := by
  rw [numeral, Nat.toDigits_of_base_le hb h, List.map_append]
  rfl

lemma length_numeral_le_iff (hb : 1 < b) (hk : 0 < k) :
    (numeral b n).length ≤ k ↔ n < b ^ k := by
  rw [numeral, List.length_map, Nat.length_toDigits_le_iff hb hk]

lemma numeral_ne_nil (b n : ℕ) : numeral b n ≠ [] := by
  rw [numeral, Ne, List.map_eq_nil_iff]
  exact Nat.toDigits_ne_nil

/-- **Induction on a numeral**: one digit, or a digit behind the numeral of `n / b`. -/
lemma numeral_induct (hb : 1 < b) {P : ℕ → Prop} (lt : ∀ n < b, P n)
    (le : ∀ n, b ≤ n → P (n / b) → P n) (n : ℕ) : P n := by
  induction n using Nat.strongRecOn with
  | ind n ih =>
    by_cases hn : n < b
    · exact lt n hn
    · exact le n (Nat.le_of_not_lt hn) (ih (n / b) (Nat.div_lt_self (by omega) hb))

lemma exists_digit_of_mem_numeral (hb : 1 < b) {c : BitVec 8} (h : c ∈ numeral b n) :
    ∃ d < b, c = digit d := by
  induction n using numeral_induct hb with
  | lt n hn =>
    rw [numeral_of_lt hn, List.mem_singleton] at h
    exact ⟨n, hn, h⟩
  | le n hn ih =>
    rw [numeral_of_le hb hn, List.mem_append, List.mem_singleton] at h
    rcases h with h | h
    · exact ih h
    · exact ⟨n % b, Nat.mod_lt n (by omega), h⟩

lemma le_toNat_of_mem_numeral (hb : 1 < b) (hb16 : b ≤ 16) {c : BitVec 8}
    (h : c ∈ numeral b n) : 0x30 ≤ c.toNat := by
  obtain ⟨d, hd, rfl⟩ := exists_digit_of_mem_numeral hb h
  exact le_toNat_digit (Nat.lt_of_lt_of_le hd hb16)

/-- **There is no leading zero** except in the numeral of zero. -/
lemma head_numeral (hb : 1 < b) (hb16 : b ≤ 16) (h : (numeral b n).head? = some 0x30#8) :
    n = 0 := by
  induction n using numeral_induct hb with
  | lt n hn =>
    rw [numeral_of_lt hn] at h
    exact (digit_eq_zero_iff (Nat.lt_of_lt_of_le hn hb16)).1 (Option.some.inj h)
  | le n hn ih =>
    rw [numeral_of_le hb hn, List.head?_append_of_ne_nil _ (numeral_ne_nil b _)] at h
    -- the first digit is the one of `n / b`, which is not zero
    have hdiv := ih h
    rw [Nat.div_eq_zero_iff] at hdiv
    omega

/-! ### A fixed number of digits -/

section Leftpad

variable {α : Type*} (a x : α) (l : List α)

lemma leftpad_append_singleton (k : ℕ) :
    l.leftpad k a ++ [x] = (l ++ [x]).leftpad (k + 1) a := by
  simp only [List.leftpad, List.length_append, List.length_singleton, Nat.add_sub_add_right,
    List.append_assoc]

/-- A list that begins with the padding. -/
lemma leftpad_cons_self (h : l.length < k) : (a :: l).leftpad k a = l.leftpad k a := by
  obtain ⟨j, hj⟩ : ∃ j, k - l.length = j + 1 := ⟨k - l.length - 1, by omega⟩
  have hj' : k - (l.length + 1) = j := by omega
  rw [List.leftpad, List.leftpad, List.length_cons, hj, hj', List.replicate_succ',
    List.append_assoc, List.singleton_append]

end Leftpad

lemma div_lt_pow (hn : n < b ^ (k + 1)) : n / b < b ^ k :=
  Nat.div_lt_of_lt_mul (by rwa [Nat.mul_comm, ← Nat.pow_succ])

/-- A numeral with zeros in front. -/
lemma padded_eq (hb : 1 < b) (hk : 0 < k) (hn : n < b ^ k) :
    padded b k n = (numeral b n).leftpad k 0x30#8 := by
  induction k generalizing n with
  | zero => exact absurd hk (Nat.lt_irrefl 0)
  | succ k ih =>
    rcases Nat.eq_zero_or_pos k with rfl | hk
    · rw [Nat.zero_add, Nat.pow_one] at hn
      rw [numeral_of_lt hn, padded, Nat.mod_eq_of_lt hn]
      rfl
    · rw [padded, ih hk (div_lt_pow hn), leftpad_append_singleton]
      by_cases hlt : n < b
      · -- one digit, with zeros only in front of it
        have hzero : numeral b 0 = [0x30#8] := numeral_of_lt (by omega)
        rw [Nat.div_eq_of_lt hlt, Nat.mod_eq_of_lt hlt, numeral_of_lt hlt, hzero,
          List.singleton_append, leftpad_cons_self _ _ (by simpa using hk)]
      · rw [← numeral_of_le hb (Nat.le_of_not_lt hlt)]

/-- The digits before the last one, without the zeros at their beginning. -/
lemma dropWhile_padded (hb : 1 < b) (hb16 : b ≤ 16) (hk : 0 < k) (hn : n < b ^ (k + 1)) :
    (padded b k (n / b)).dropWhile (fun c => c = 0x30#8) ++ [digit (n % b)] = numeral b n := by
  have hdrop : ((numeral b (n / b)).leftpad k 0x30#8).dropWhile (fun c => c = 0x30#8) =
      (numeral b (n / b)).dropWhile fun c => c = 0x30#8 := by
    refine List.dropWhile_append_of_pos ?_
    intro c hc
    rw [List.eq_of_mem_replicate hc]
    rfl
  rw [padded_eq hb hk (div_lt_pow hn), hdrop]
  by_cases hlt : n < b
  · rw [Nat.div_eq_of_lt hlt, Nat.mod_eq_of_lt hlt, numeral_of_lt hlt, numeral_of_lt (by omega)]
    rfl
  · have hle : b ≤ n := Nat.le_of_not_lt hlt
    have hpos : n / b ≠ 0 := Nat.ne_of_gt (Nat.div_pos hle (by omega))
    have hhead : (numeral b (n / b)).dropWhile (fun c => c = 0x30#8) = numeral b (n / b) := by
      cases hnum : numeral b (n / b) with
      | nil => rfl
      | cons c cs =>
        refine List.dropWhile_cons_of_neg ?_
        intro hc
        refine hpos (head_numeral hb hb16 ?_)
        rw [hnum, List.head?_cons, of_decide_eq_true hc]
    rw [hhead, ← numeral_of_le hb hle]

end RingNova
