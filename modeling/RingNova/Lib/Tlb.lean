/-
# A cache of table entries

A TLB keeps entries of a translation table.  What it keeps and for how long is up to the
hardware (`refill`), so an entry may be older than the table.  `Coherent P` says that it is not,
for the entries in `P`; then a lookup gives what the table gives (`Coherent.lookup`).  The
hardware keeps a coherent cache coherent, a flush makes any cache coherent, and a change of
the table keeps it coherent where the table stays the same.
-/
import Mathlib.Data.Nat.Notation
import Mathlib.Tactic.Common

namespace RingNova

/-- Cached table entries, by their number. -/
abbrev Tlb (δ : Type) := ℕ → Option δ

namespace Tlb

variable {δ : Type}

/-- The entry that a translation uses. -/
def lookup (c : Tlb δ) (t : ℕ → δ) (i : ℕ) : δ := (c i).getD (t i)

/-- What the hardware decides at one time: which entries it drops, and which it caches. -/
structure Refill where
  drop : ℕ → Bool
  fill : ℕ → Bool

/-- The hardware drops entries, and caches entries of the current table. -/
def refill (c : Tlb δ) (t : ℕ → δ) (h : Refill) : Tlb δ := fun i =>
  if h.drop i then none else if h.fill i then some (c.lookup t i) else c i

/-- No entry is cached. -/
def flush : Tlb δ := fun _ => none

/-- The cached entries in `P` are those of the table. -/
def Coherent (P : ℕ → Prop) (c : Tlb δ) (t : ℕ → δ) : Prop := ∀ i, P i → ∀ d, c i = some d → d = t i

variable {P : ℕ → Prop} {c : Tlb δ} {t t' : ℕ → δ}

lemma Coherent.lookup (h : Coherent P c t) {i : ℕ} (hi : P i) : c.lookup t i = t i := by
  rw [Tlb.lookup]
  cases hc : c i with
  | none => rfl
  | some d => exact h i hi d hc

lemma Coherent.refill (h : Coherent P c t) (r : Refill) : Coherent P (c.refill t r) t := by
  intro i hi d hd
  rw [Tlb.refill] at hd
  split at hd
  · exact absurd hd (by simp)
  · split at hd
    · exact (Option.some.inj hd).symm.trans (h.lookup hi)
    · exact h i hi d hd

lemma coherent_flush (P : ℕ → Prop) (t : ℕ → δ) : Coherent P flush t := by
  intro i _ d hd
  exact absurd hd (by simp [flush])

lemma Coherent.congr (h : Coherent P c t) (ht : ∀ i, P i → t' i = t i) : Coherent P c t' := by
  intro i hi d hd
  rw [ht i hi]
  exact h i hi d hd

end Tlb

end RingNova
