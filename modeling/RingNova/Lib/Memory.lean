/-
# Byte-addressed memory with little-endian words

Memory is a function from addresses to bytes.  Words are stored lowest byte first, and
`storeWords` stores a list of words upwards from an address, as a store-multiple
instruction does.  Regions are intervals of addresses; what a write can change is stated
by the region it goes to, and what a fact depends on by the region on which two memories
have to agree.
-/
import Mathlib.Data.Nat.Notation
import Mathlib.Logic.Function.Basic
import Mathlib.Tactic.Common

namespace RingNova

/-! ### Regions -/

/-- An interval of addresses. -/
structure Region where
  base : ℕ
  size : ℕ

namespace Region

variable {R S T : Region} {a : ℕ}

/-- Membership of an address. -/
def Mem (R : Region) (a : ℕ) : Prop := R.base ≤ a ∧ a < R.base + R.size

instance (R : Region) (a : ℕ) : Decidable (R.Mem a) := inferInstanceAs (Decidable (_ ∧ _))

/-- One region lies inside another. -/
def Within (R S : Region) : Prop := S.base ≤ R.base ∧ R.base + R.size ≤ S.base + S.size

/-- Two regions have no address in common. -/
def Apart (R S : Region) : Prop := R.base + R.size ≤ S.base ∨ S.base + S.size ≤ R.base

instance (R S : Region) : Decidable (R.Within S) := inferInstanceAs (Decidable (_ ∧ _))

instance (R S : Region) : Decidable (R.Apart S) := inferInstanceAs (Decidable (_ ∨ _))

lemma Within.trans (h : R.Within S) (h' : S.Within T) : R.Within T := by
  unfold Within at *
  omega

lemma Within.mem (h : R.Within S) (ha : R.Mem a) : S.Mem a := by
  unfold Within Mem at *
  omega

lemma Apart.symm (h : R.Apart S) : S.Apart R := Or.symm h

lemma Apart.mono (h : R.Apart S) {R' S' : Region} (hR : R'.Within R) (hS : S'.Within S) :
    R'.Apart S' := by
  unfold Apart Within at *
  omega

lemma Apart.not_mem (h : R.Apart S) (ha : R.Mem a) : ¬ S.Mem a := by
  unfold Apart Mem at *
  omega

end Region

/-! ### Memory -/

/-- Contents of the physical address space. -/
abbrev Memory := ℕ → BitVec 8

namespace Memory

variable {m m' m'' : Memory} {R S : Region} {a : ℕ}

/-- Two memories agree on a region. -/
def Agree (R : Region) (m m' : Memory) : Prop := ∀ x, R.Mem x → m x = m' x

/-- A memory differs from another one at most in a region. -/
def Within (R : Region) (m m' : Memory) : Prop := ∀ x, ¬ R.Mem x → m' x = m x

lemma Agree.refl (R : Region) (m : Memory) : Agree R m m := fun _ _ => rfl

lemma Agree.trans (h : Agree R m m') (h' : Agree R m' m'') : Agree R m m'' := fun x hx =>
  (h x hx).trans (h' x hx)

lemma Agree.mono (h : Agree R m m') (hS : S.Within R) : Agree S m m' := fun x hx =>
  h x (hS.mem hx)

lemma Within.refl (R : Region) (m : Memory) : Within R m m := fun _ _ => rfl

lemma Within.trans (h : Within R m m') (h' : Within R m' m'') : Within R m m'' := fun x hx =>
  (h' x hx).trans (h x hx)

lemma Within.mono (h : Within S m m') (hS : S.Within R) : Within R m m' := fun x hx =>
  h x fun hx' => hx (hS.mem hx')

/-- A write to a region is not seen from another one. -/
lemma Within.agree (h : Within R m m') (hRS : S.Apart R) : Agree S m m' := fun x hx =>
  (h x (hRS.not_mem hx)).symm

/-- Write a byte. -/
def store8 (m : Memory) (a : ℕ) (v : BitVec 8) : Memory := Function.update m a v

lemma store8_within (m : Memory) (a : ℕ) (v : BitVec 8) : Within ⟨a, 1⟩ m (m.store8 a v) := by
  intro x hx
  have hxa : x ≠ a := by
    rintro rfl
    exact hx ⟨Nat.le_refl _, Nat.lt_succ_self _⟩
  exact Function.update_of_ne hxa _ _

/-- The word at an address. -/
def load32 (m : Memory) (a : ℕ) : BitVec 32 := m (a + 3) ++ m (a + 2) ++ m (a + 1) ++ m a

/-- Write a word. -/
def store32 (m : Memory) (a : ℕ) (w : BitVec 32) : Memory := fun x =>
  if x = a then w.extractLsb' 0 8
  else if x = a + 1 then w.extractLsb' 8 8
  else if x = a + 2 then w.extractLsb' 16 8
  else if x = a + 3 then w.extractLsb' 24 8
  else m x

lemma store32_within (m : Memory) (a : ℕ) (w : BitVec 32) :
    Within ⟨a, 4⟩ m (m.store32 a w) := by
  intro x hx
  simp only [Region.Mem] at hx
  rw [store32, if_neg (by omega), if_neg (by omega), if_neg (by omega), if_neg (by omega)]

/-- A word is put together from its bytes. -/
lemma append_extractLsb' (w : BitVec 32) :
    w.extractLsb' 24 8 ++ w.extractLsb' 16 8 ++ w.extractLsb' 8 8 ++ w.extractLsb' 0 8 = w := by
  apply BitVec.eq_of_getLsbD_eq
  intro i hi
  simp only [BitVec.getLsbD_append, BitVec.getLsbD_extractLsb']
  -- the byte that holds bit `i`
  have hbyte : i < 8 ∨ (8 ≤ i ∧ i < 16) ∨ (16 ≤ i ∧ i < 24) ∨ 24 ≤ i := by omega
  rcases hbyte with h | ⟨h, h'⟩ | ⟨h, h'⟩ | h
  · simp [h]
  · simp [show ¬ i < 8 by omega, show i - 8 < 8 by omega, show 8 + (i - 8) = i by omega]
  · simp [show ¬ i < 8 by omega, show ¬ i - 8 < 8 by omega, show i - 8 - 8 < 8 by omega,
      show 16 + (i - 8 - 8) = i by omega]
  · simp [show ¬ i < 8 by omega, show ¬ i - 8 < 8 by omega, show ¬ i - 8 - 8 < 8 by omega,
      show i - 8 - 8 - 8 < 8 by omega, show 24 + (i - 8 - 8 - 8) = i by omega]

@[simp] lemma load32_store32 (m : Memory) (a : ℕ) (w : BitVec 32) :
    (m.store32 a w).load32 a = w := by
  have h0 : m.store32 a w a = w.extractLsb' 0 8 := by simp [store32]
  have h1 : m.store32 a w (a + 1) = w.extractLsb' 8 8 := by simp [store32]
  have h2 : m.store32 a w (a + 2) = w.extractLsb' 16 8 := by simp [store32]
  have h3 : m.store32 a w (a + 3) = w.extractLsb' 24 8 := by simp [store32]
  rw [load32, h0, h1, h2, h3, append_extractLsb']

lemma load32_congr (h : Agree ⟨a, 4⟩ m m') : m.load32 a = m'.load32 a := by
  have hx : ∀ i < 4, m (a + i) = m' (a + i) := fun i hi =>
    h (a + i) ⟨Nat.le_add_right _ _, Nat.add_lt_add_left hi _⟩
  rw [load32, load32, hx 3 (by omega), hx 2 (by omega), hx 1 (by omega),
    show m a = m' a from hx 0 (by omega)]

lemma Agree.load32 (h : Agree R m m') {a : ℕ} (ha : Region.Within ⟨a, 4⟩ R) :
    m'.load32 a = m.load32 a :=
  (load32_congr (h.mono ha)).symm

/-- Write words upwards from an address. -/
def storeWords (m : Memory) : ℕ → List (BitVec 32) → Memory
  | _, [] => m
  | a, w :: ws => (m.storeWords (a + 4) ws).store32 a w

lemma storeWords_within (m : Memory) (a : ℕ) (ws : List (BitVec 32)) :
    Within ⟨a, 4 * ws.length⟩ m (m.storeWords a ws) := by
  induction ws generalizing a with
  | nil => exact Within.refl _ m
  | cons w ws ih =>
    refine ((ih (a + 4)).mono ?_).trans ((store32_within _ a w).mono ?_)
    · simp only [Region.Within, List.length_cons]
      omega
    · simp only [Region.Within, List.length_cons]
      omega

/-- The words come back. -/
lemma load32_storeWords (m : Memory) (a : ℕ) (ws : List (BitVec 32)) {i : ℕ}
    (hi : i < ws.length) : (m.storeWords a ws).load32 (a + 4 * i) = ws.get ⟨i, hi⟩ := by
  induction ws generalizing a i with
  | nil => simp at hi
  | cons w ws ih =>
    cases i with
    | zero => exact load32_store32 _ a w
    | succ i =>
      have hi' : i < ws.length := by simpa using hi
      have hfar : ((m.storeWords (a + 4) ws).store32 a w).load32 (a + 4 * (i + 1)) =
          (m.storeWords (a + 4) ws).load32 (a + 4 + 4 * i) := by
        rw [show a + 4 * (i + 1) = a + 4 + 4 * i by omega]
        refine (load32_congr ((store32_within _ a w).agree ?_)).symm
        right
        simp only
        omega
      rw [storeWords, hfar, ih (a + 4) hi']
      rfl

/-- The bytes from an address on. -/
def bytes (m : Memory) (a n : ℕ) : List (BitVec 8) := (List.range n).map fun i => m (a + i)

@[simp] lemma length_bytes (m : Memory) (a n : ℕ) : (m.bytes a n).length = n := by
  simp [bytes]

@[simp] lemma getElem_bytes (m : Memory) {a n i : ℕ} (h : i < (m.bytes a n).length) :
    (m.bytes a n)[i] = m (a + i) := by
  simp [bytes]

lemma bytes_congr {n : ℕ} (h : Agree ⟨a, n⟩ m m') : m.bytes a n = m'.bytes a n := by
  refine List.map_congr_left fun i hi => h (a + i) ⟨Nat.le_add_right _ _, ?_⟩
  exact Nat.add_lt_add_left (List.mem_range.1 hi) _

/-- Replace the contents of a region. -/
def overwrite (m : Memory) (R : Region) (f : Memory) : Memory := fun x =>
  if R.Mem x then f x else m x

lemma overwrite_within (m : Memory) (R : Region) (f : Memory) : Within R m (m.overwrite R f) := by
  intro x hx
  rw [overwrite, if_neg hx]

lemma overwrite_of_mem (m : Memory) {R : Region} (f : Memory) {x : ℕ} (h : R.Mem x) :
    m.overwrite R f x = f x := by
  rw [overwrite, if_pos h]

/-! ### Loops that write bytes -/

/-- A loop that writes to a region only. -/
lemma foldl_store8_within {l : List ℕ} {addr : ℕ → ℕ} (v : Memory → ℕ → BitVec 8)
    (h : ∀ i ∈ l, R.Mem (addr i)) (m : Memory) :
    Within R m (l.foldl (fun m i => m.store8 (addr i) (v m i)) m) := by
  induction l generalizing m with
  | nil => exact Within.refl R m
  | cons i l ih =>
    have hi := h i List.mem_cons_self
    refine ((store8_within m (addr i) (v m i)).mono ?_).trans
      (ih (fun j hj => h j (List.mem_cons_of_mem _ hj)) _)
    simp only [Region.Mem, Region.Within] at hi ⊢
    omega

/-- A loop that writes a region upwards replaces its contents, if the bytes do not depend on
what it has written. -/
lemma foldl_store8_eq {a n : ℕ} {addr : ℕ → ℕ} {v : Memory → ℕ → BitVec 8}
    (haddr : ∀ i < n, addr i = a + i)
    (hv : ∀ m', Within ⟨a, n⟩ m m' → ∀ i < n, v m' i = v m i) :
    (List.range n).foldl (fun m i => m.store8 (addr i) (v m i)) m =
      m.overwrite ⟨a, n⟩ fun x => v m (x - a) := by
  -- after `k` rounds the first `k` bytes are written
  have hloop : ∀ k ≤ n, (List.range k).foldl (fun m i => m.store8 (addr i) (v m i)) m =
      m.overwrite ⟨a, k⟩ fun x => v m (x - a) := by
    intro k hk
    induction k with
    | zero =>
      funext x
      rw [overwrite, if_neg (by simp [Region.Mem])]
      rfl
    | succ k ih =>
      have hw : Within ⟨a, n⟩ m (m.overwrite ⟨a, k⟩ fun x => v m (x - a)) :=
        (overwrite_within m _ _).mono ⟨Nat.le_refl _, Nat.add_le_add_left (Nat.le_of_succ_le hk) a⟩
      rw [List.range_succ, List.foldl_append, ih (Nat.le_of_succ_le hk), List.foldl_cons,
        List.foldl_nil, haddr k hk, hv _ hw k hk]
      funext x
      by_cases hx : x = a + k
      · subst hx
        rw [store8, Function.update_self, overwrite_of_mem _ _ ⟨by simp, by simp⟩,
          Nat.add_sub_cancel_left]
      · rw [store8, Function.update_of_ne hx]
        have hiff : Region.Mem ⟨a, k + 1⟩ x ↔ Region.Mem ⟨a, k⟩ x := by
          simp only [Region.Mem]
          omega
        simp only [overwrite, hiff]
  exact hloop n (Nat.le_refl n)

/-! ### The same write to two memories -/

lemma Within.store8 (h : Within R m m') (a : ℕ) (v : BitVec 8) :
    Within R (m.store8 a v) (m'.store8 a v) := by
  intro x hx
  by_cases hxa : x = a
  · subst hxa
    simp [Memory.store8]
  · simpa [Memory.store8, hxa] using h x hx

lemma Within.store32 (h : Within R m m') (a : ℕ) (w : BitVec 32) :
    Within R (m.store32 a w) (m'.store32 a w) := by
  intro x hx
  simp only [Memory.store32]
  rw [h x hx]

lemma Within.storeWords (h : Within R m m') (a : ℕ) (ws : List (BitVec 32)) :
    Within R (m.storeWords a ws) (m'.storeWords a ws) := by
  induction ws generalizing a with
  | nil => exact h
  | cons w ws ih => exact (ih (a + 4)).store32 a w

lemma Within.overwrite (h : Within R m m') (S : Region) (f : Memory) :
    Within R (m.overwrite S f) (m'.overwrite S f) := by
  intro x hx
  simp only [Memory.overwrite]
  rw [h x hx]

end Memory

end RingNova
