/-
# Bounded queues

A first-in first-out queue of fixed capacity that silently drops what does not fit, and
what it means for an implementation to behave like one.  An implementation is given by its
two operations; `Impl.exec` runs a list of calls and collects what the calls of `pop` return.
`Refines.exec` lifts a relation that every single call keeps to whole histories, and
`exec_conserves` says what the abstract queue does with the values it accepts.
-/
import Mathlib.Data.List.ReduceOption

namespace RingNova.Queue

variable {σ α ρ : Type}

/-- A call. -/
inductive Op (α : Type)
  | push (x : α)
  | pop

/-- An implementation of a queue of `α`; `ρ` is what `pop` returns. -/
structure Impl (σ α ρ : Type) where
  push : σ → α → σ
  pop : σ → ρ × σ

/-- The values returned by the calls of `pop` in a list of calls, and the last state. -/
def Impl.exec (I : Impl σ α ρ) : σ → List (Op α) → List ρ × σ
  | s, [] => ([], s)
  | s, .push x :: ops => I.exec (I.push s x) ops
  | s, .pop :: ops => ((I.pop s).1 :: (I.exec (I.pop s).2 ops).1, (I.exec (I.pop s).2 ops).2)

/-- The queue of a given capacity, oldest element first. -/
def bounded (cap : ℕ) : Impl (List α) α (Option α) where
  push q x := if q.length < cap then q ++ [x] else q
  pop q := (q.head?, q.tail)

/-- The values of a list of calls that find room. -/
def accepted (cap : ℕ) : List α → List (Op α) → List α
  | _, [] => []
  | q, .push x :: ops =>
    (if q.length < cap then [x] else []) ++ accepted cap ((bounded cap).push q x) ops
  | q, .pop :: ops => accepted cap q.tail ops

/-- What was queued or accepted is returned in order, or still queued. -/
theorem exec_conserves (cap : ℕ) (q : List α) (ops : List (Op α)) :
    q ++ accepted cap q ops =
      ((bounded cap).exec q ops).1.reduceOption ++ ((bounded cap).exec q ops).2 := by
  induction ops generalizing q with
  | nil => simp [accepted, Impl.exec]
  | cons op ops ih =>
    cases op with
    | push x =>
      rw [accepted, Impl.exec, ← ih]
      simp only [bounded]
      split <;> simp
    | pop =>
      rw [accepted, Impl.exec]
      simp only [bounded]
      cases q with
      | nil => exact ih []
      | cons y q =>
        rw [List.head?_cons, List.tail_cons, List.reduceOption_cons_of_some, List.cons_append,
          List.cons_append]
        exact congrArg (y :: ·) (ih q)

/-- An implementation whose calls behave like those of a bounded queue, along a relation of
the states; `enc` is how `pop` returns an element, or says that there is none. -/
structure Refines (I : Impl σ α ρ) (cap : ℕ) (enc : Option α → ρ) (R : σ → List α → Prop) :
    Prop where
  push : ∀ {s q} x, R s q → R (I.push s x) ((bounded cap).push q x)
  pop : ∀ {s q}, R s q → (I.pop s).1 = enc q.head? ∧ R (I.pop s).2 q.tail

/-- **Refinement of whole histories.** -/
theorem Refines.exec {I : Impl σ α ρ} {cap : ℕ} {enc : Option α → ρ} {R : σ → List α → Prop}
    (h : Refines I cap enc R) {s : σ} {q : List α} (hR : R s q) (ops : List (Op α)) :
    (I.exec s ops).1 = ((bounded cap).exec q ops).1.map enc ∧
      R (I.exec s ops).2 ((bounded cap).exec q ops).2 := by
  induction ops generalizing s q with
  | nil => exact ⟨rfl, hR⟩
  | cons op ops ih =>
    cases op with
    | push x => exact ih (h.push x hR)
    | pop =>
      obtain ⟨hout, hR'⟩ := h.pop hR
      obtain ⟨hrest, hlast⟩ := ih hR'
      refine ⟨?_, hlast⟩
      rw [Impl.exec, Impl.exec, hout, hrest]
      rfl

end RingNova.Queue
