/-
# The receive ring is a bounded queue

`uart_rx_push` and `uart_rx_pop`, called in any order and any number of times, behave like a
queue of capacity 127, also after the free-running indices have wrapped around.  The
representation invariant is `RxRing.Wf`; one call keeps it and does what the queue does
(`rx_refines`), and the library lifts this to every history.
-/
import RingNova.Kernel.Uart
import RingNova.Lib.Queue

namespace RingNova

/-- The calls of the ring. -/
def rxImpl : Queue.Impl RxRing Byte ℤ := ⟨RxRing.uartRxPush, RxRing.uartRxPop⟩

/-- An element of the queue as the `int` that `uart_rx_pop` returns. -/
def popValue : Option Byte → ℤ
  | some c => c.toNat
  | none => -1

/-- A ring represents a queue. -/
def Represents (r : RxRing) (q : List Byte) : Prop := r.Wf ∧ r.contents = q

lemma popValue_some (c : Byte) : 0 ≤ popValue (some c) ∧ popValue (some c) ≤ 255 := by
  have hc := c.isLt
  simp only [popValue]
  omega

lemma Represents.push {r : RxRing} {q : List Byte} (h : Represents r q) (c : Byte) :
    Represents (r.uartRxPush c) ((Queue.bounded 127).push q c) := by
  obtain ⟨hwf, rfl⟩ := h
  refine ⟨RxRing.wf_push c hwf, ?_⟩
  simp only [Queue.bounded, RxRing.length_contents]
  by_cases hroom : r.hasRoom = true
  · rw [if_pos ((RxRing.hasRoom_iff hwf).1 hroom), RxRing.contents_push_of_room c hwf hroom]
  · rw [if_neg fun hlt => hroom ((RxRing.hasRoom_iff hwf).2 hlt),
      RxRing.push_of_full c (by simpa using hroom)]

lemma Represents.pop {r : RxRing} {q : List Byte} (h : Represents r q) :
    r.uartRxPop.1 = popValue q.head? ∧ Represents r.uartRxPop.2 q.tail := by
  obtain ⟨hwf, rfl⟩ := h
  rcases hc : r.contents with _ | ⟨c, cs⟩
  · rw [RxRing.pop_of_empty hc]
    exact ⟨rfl, hwf, hc⟩
  · obtain ⟨hval, hrest, hwf'⟩ := RxRing.pop_of_contents_cons hwf hc
    exact ⟨hval, hwf', hrest⟩

/-- One call. -/
lemma rx_refines : Queue.Refines rxImpl 127 popValue Represents where
  push c h := h.push c
  pop h := h.pop

/-- **The receive ring refines a queue of capacity 127.**  After every history of calls the
indices are at most 127 apart; the calls of `uart_rx_pop` have returned what the queue
returns, with `-1` for an empty queue and a value in `0 .. 255` for a byte; and every accepted
byte has been returned, in order of arrival, or is still in the ring. -/
theorem rx_ring_refines_queue (ops : List (Queue.Op Byte)) :
    ((rxImpl.exec .zero ops).2.rxHead - (rxImpl.exec .zero ops).2.rxTail).toNat ≤ 127 ∧
      (rxImpl.exec .zero ops).1 = ((Queue.bounded 127).exec [] ops).1.map popValue ∧
      (rxImpl.exec .zero ops).2.contents = ((Queue.bounded 127).exec [] ops).2 ∧
      ((rxImpl.exec .zero ops).2.uartRxEmpty = true ↔
        ((Queue.bounded 127).exec [] ops).2 = []) ∧
      Queue.accepted 127 [] ops =
        ((Queue.bounded 127).exec [] ops).1.reduceOption ++ ((Queue.bounded 127).exec [] ops).2 ∧
      (∀ x, popValue x = -1 ↔ x = none) ∧
      ∀ c, 0 ≤ popValue (some c) ∧ popValue (some c) ≤ 255 := by
  obtain ⟨hout, hwf, hcont⟩ :=
    rx_refines.exec (s := .zero) (q := []) ⟨RxRing.wf_zero, RxRing.contents_zero⟩ ops
  refine ⟨hwf, hout, hcont, ?_, Queue.exec_conserves 127 [] ops, ?_, popValue_some⟩
  · rw [RxRing.uartRxEmpty, decide_eq_true_iff, ← RxRing.contents_eq_nil_iff, hcont]
  · intro x
    constructor
    · intro hx
      cases x with
      | none => rfl
      | some c =>
        have hc := (popValue_some c).1
        omega
    · rintro rfl
      rfl

end RingNova
