/-
# Memory with 32-bit addresses

The address space as a CPU sees it: addresses are machine words and wrap around.  A span is an
interval of addresses that may wrap around as well, so that no bound on its base is needed.
Otherwise this follows `RingNova.Lib.Memory`: what a write can change is stated by the span it
goes to, and what a load depends on by the span on which two memories have to agree.
-/
import Mathlib.Algebra.Group.Nat.Defs
import RingNova.Lib.Memory

namespace RingNova

/-! ### Spans -/

/-- An interval of machine addresses. -/
structure Span where
  base : BitVec 32
  size : ℕ

namespace Span

variable {S T : Span} {a x : BitVec 32}

/-- Membership of an address. -/
def Mem (S : Span) (x : BitVec 32) : Prop := (x - S.base).toNat < S.size

/-- Two spans have no address in common. -/
def Apart (S T : Span) : Prop := ∀ x, S.Mem x → ¬ T.Mem x

/-- One span lies inside another. -/
def Within (S T : Span) : Prop := ∀ x, S.Mem x → T.Mem x

lemma Apart.symm (h : S.Apart T) : T.Apart S := fun x hT hS => h x hS hT

lemma Apart.mono (h : S.Apart T) {S' T' : Span} (hS : S'.Within S) (hT : T'.Within T) :
    S'.Apart T' := fun x hx hx' => h x (hS x hx) (hT x hx')

/-- The distance to the base of a part of a span. -/
lemma toNat_sub_add (a x : BitVec 32) {k : ℕ} (hk : k < 2 ^ 32) :
    (x - (a + BitVec.ofNat 32 k)).toNat = ((x - a).toNat + 2 ^ 32 - k) % 2 ^ 32 := by
  have hx := x.isLt
  have ha := a.isLt
  simp only [BitVec.toNat_sub, BitVec.toNat_add, BitVec.toNat_ofNat]
  omega

/-- A part of a span. -/
lemma within_add (a : BitVec 32) {k m n : ℕ} (hk : k < 2 ^ 32) (h : k + m ≤ n) :
    Within ⟨a + BitVec.ofNat 32 k, m⟩ ⟨a, n⟩ := by
  intro x hx
  have hlt := (x - a).isLt
  simp only [Mem, toNat_sub_add a x hk] at hx ⊢
  omega

/-- Two parts of a span. -/
lemma apart_add (a : BitVec 32) {k m l n : ℕ} (hl : l < 2 ^ 32) (h : k + m ≤ l)
    (h' : l + n ≤ 2 ^ 32) :
    Apart ⟨a + BitVec.ofNat 32 k, m⟩ ⟨a + BitVec.ofNat 32 l, n⟩ := by
  intro x hx hx'
  have hlt := (x - a).isLt
  simp only [Mem, toNat_sub_add a x (by omega : k < 2 ^ 32), toNat_sub_add a x hl] at hx hx'
  omega

/-- Spans that do not wrap around. -/
lemma apart_of_le (h : S.base.toNat + S.size ≤ T.base.toNat)
    (hT : T.base.toNat + T.size ≤ 2 ^ 32) : S.Apart T := by
  intro x hx hx'
  have hlt := x.isLt
  simp only [Mem, BitVec.toNat_sub] at hx hx'
  omega

end Span

/-! ### Memory -/

/-- Contents of the address space of a CPU. -/
abbrev Memory32 := BitVec 32 → BitVec 8

namespace Memory32

variable {m m' m'' : Memory32} {S T : Span} {a : BitVec 32}

/-- Two memories agree on a span. -/
def Agree (S : Span) (m m' : Memory32) : Prop := ∀ x, S.Mem x → m x = m' x

/-- A memory differs from another one at most in a span. -/
def Within (S : Span) (m m' : Memory32) : Prop := ∀ x, ¬ S.Mem x → m' x = m x

lemma Agree.refl (S : Span) (m : Memory32) : Agree S m m := fun _ _ => rfl

lemma Agree.trans (h : Agree S m m') (h' : Agree S m' m'') : Agree S m m'' := fun x hx =>
  (h x hx).trans (h' x hx)

lemma Agree.mono (h : Agree S m m') (hT : T.Within S) : Agree T m m' := fun x hx =>
  h x (hT x hx)

lemma Within.refl (S : Span) (m : Memory32) : Within S m m := fun _ _ => rfl

lemma Within.trans (h : Within S m m') (h' : Within S m' m'') : Within S m m'' := fun x hx =>
  (h' x hx).trans (h x hx)

lemma Within.mono (h : Within T m m') (hT : T.Within S) : Within S m m' := fun x hx =>
  h x fun hx' => hx (hT x hx')

/-- A write to a span is not seen from another one. -/
lemma Within.agree (h : Within S m m') (hST : T.Apart S) : Agree T m m' := fun x hx =>
  (h x (hST x hx)).symm

/-- The word at an address. -/
def load32 (m : Memory32) (a : BitVec 32) : BitVec 32 :=
  m (a + 3#32) ++ m (a + 2#32) ++ m (a + 1#32) ++ m a

/-- Write a word. -/
def store32 (m : Memory32) (a w : BitVec 32) : Memory32 := fun x =>
  if x = a then w.extractLsb' 0 8
  else if x = a + 1#32 then w.extractLsb' 8 8
  else if x = a + 2#32 then w.extractLsb' 16 8
  else if x = a + 3#32 then w.extractLsb' 24 8
  else m x

lemma mem_word (a : BitVec 32) {i : ℕ} (hi : i < 4) : Span.Mem ⟨a, 4⟩ (a + BitVec.ofNat 32 i) := by
  rw [Span.Mem, BitVec.add_comm, BitVec.add_sub_cancel, BitVec.toNat_ofNat]
  simp only
  omega

lemma store32_within (m : Memory32) (a w : BitVec 32) : Within ⟨a, 4⟩ m (m.store32 a w) := by
  intro x hx
  have hne : ∀ i < 4, x ≠ a + BitVec.ofNat 32 i := by
    rintro i hi rfl
    exact hx (mem_word a hi)
  have h0 : x ≠ a := by simpa using hne 0 (by omega)
  rw [store32, if_neg h0, if_neg (hne 1 (by omega)), if_neg (hne 2 (by omega)),
    if_neg (hne 3 (by omega))]

lemma add_ne_add (a : BitVec 32) {i j : ℕ} (hi : i < 2 ^ 32) (hj : j < 2 ^ 32) (h : i ≠ j) :
    a + BitVec.ofNat 32 i ≠ a + BitVec.ofNat 32 j := by
  intro heq
  have h' := congrArg BitVec.toNat ((BitVec.add_right_inj a).1 heq)
  rw [BitVec.toNat_ofNat, BitVec.toNat_ofNat, Nat.mod_eq_of_lt hi, Nat.mod_eq_of_lt hj] at h'
  exact h h'

@[simp] lemma load32_store32 (m : Memory32) (a w : BitVec 32) : (m.store32 a w).load32 a = w := by
  have hne : ∀ i j, i < 4 → j < 4 → i ≠ j → a + BitVec.ofNat 32 i ≠ a + BitVec.ofNat 32 j :=
    fun i j hi hj h => add_ne_add a (by omega) (by omega) h
  have h10 : a + 1#32 ≠ a := by simp
  have h20 : a + 2#32 ≠ a := by simp
  have h30 : a + 3#32 ≠ a := by simp
  have h0 : m.store32 a w a = w.extractLsb' 0 8 := if_pos rfl
  have h1 : m.store32 a w (a + 1#32) = w.extractLsb' 8 8 := by
    rw [store32, if_neg h10, if_pos rfl]
  have h2 : m.store32 a w (a + 2#32) = w.extractLsb' 16 8 := by
    rw [store32, if_neg h20, if_neg (hne 2 1 (by omega) (by omega) (by omega)), if_pos rfl]
  have h3 : m.store32 a w (a + 3#32) = w.extractLsb' 24 8 := by
    rw [store32, if_neg h30, if_neg (hne 3 1 (by omega) (by omega) (by omega)),
      if_neg (hne 3 2 (by omega) (by omega) (by omega)), if_pos rfl]
  rw [load32, h0, h1, h2, h3, Memory.append_extractLsb']

lemma load32_congr (h : Agree ⟨a, 4⟩ m m') : m.load32 a = m'.load32 a := by
  have hx : ∀ i < 4, m (a + BitVec.ofNat 32 i) = m' (a + BitVec.ofNat 32 i) := fun i hi =>
    h _ (mem_word a hi)
  have h0 : m a = m' a := by simpa using hx 0 (by omega)
  rw [load32, load32, hx 3 (by omega), hx 2 (by omega), hx 1 (by omega), h0]

/-- A write to a span leaves the words outside of it. -/
lemma Within.load32 (h : Within S m m') (ha : Span.Apart ⟨a, 4⟩ S) :
    m'.load32 a = m.load32 a :=
  (load32_congr (h.agree ha)).symm

/-- Write words upwards from an address. -/
def storeWords (m : Memory32) : BitVec 32 → List (BitVec 32) → Memory32
  | _, [] => m
  | a, w :: ws => (m.storeWords (a + 4#32) ws).store32 a w

lemma storeWords_within (m : Memory32) (a : BitVec 32) (ws : List (BitVec 32))
    (h : 4 * ws.length ≤ 2 ^ 32) : Within ⟨a, 4 * ws.length⟩ m (m.storeWords a ws) := by
  induction ws generalizing a with
  | nil => exact Within.refl _ m
  | cons w ws ih =>
    rw [List.length_cons] at h ⊢
    refine ((ih (a + 4#32) (by omega)).mono ?_).trans ((store32_within _ a w).mono ?_)
    · exact Span.within_add a (k := 4) (by omega) (by omega)
    · simpa using Span.within_add a (k := 0) (m := 4) (by omega) (by omega)

/-- The words come back. -/
lemma load32_storeWords (m : Memory32) (a : BitVec 32) (ws : List (BitVec 32))
    (h : 4 * ws.length ≤ 2 ^ 32) {i : ℕ} (hi : i < ws.length) :
    (m.storeWords a ws).load32 (a + BitVec.ofNat 32 (4 * i)) = ws.get ⟨i, hi⟩ := by
  induction ws generalizing a i with
  | nil => simp at hi
  | cons w ws ih =>
    rw [List.length_cons] at h hi
    cases i with
    | zero => simp [storeWords]
    | succ i =>
      have haddr : a + BitVec.ofNat 32 (4 * (i + 1)) = a + 4#32 + BitVec.ofNat 32 (4 * i) := by
        rw [BitVec.add_assoc, ← BitVec.ofNat_add, Nat.mul_succ, Nat.add_comm]
      have hapart : Span.Apart ⟨a + BitVec.ofNat 32 (4 * (i + 1)), 4⟩ ⟨a, 4⟩ := by
        have hap := Span.apart_add a (k := 0) (m := 4) (l := 4 * (i + 1)) (n := 4)
          (by omega) (by omega) (by omega)
        simpa using hap.symm
      rw [storeWords, (store32_within _ a w).load32 hapart, haddr, ih (a + 4#32) (by omega)
        (by omega)]
      rfl

end Memory32

end RingNova
