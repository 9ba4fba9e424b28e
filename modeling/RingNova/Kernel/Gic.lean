/-
# Acknowledge and end of interrupt on the GIC

`irq_dispatch` through the gicv1 driver (`kernel/drivers/intc/gicv1.c`), access by access, for
handlers of any kind.  The GIC remembers which interrupts have been acknowledged and not ended;
one that is never ended stays active.

The driver answers `MAX_IRQS` for a spurious acknowledge, and writes the spurious ID back for
everything from `MAX_IRQS` on.  This is the identity on the IDs of the kernel's table and on the
spurious ID, and on no other (`eoi_matches_iff`).
-/
import RingNova.Kernel.Process

namespace RingNova

variable {H : Type}

/-! ### `irq_dispatch`, access by access -/

/-- `irq_table`, for handlers of type `H`. -/
abbrev IrqTable (H : Type) := Fin maxIrqs.toNat → Option H

/-- `irq_register`. -/
def irqRegister (table : IrqTable H) (irq : Word) (fn : H) : IrqTable H :=
  if h : irq < maxIrqs then Function.update table ⟨irq.toNat, h⟩ (some fn) else table

/-- The handler registered for an interrupt ID. -/
def registered (table : IrqTable H) (n : Word) : Option H :=
  if h : n < maxIrqs then table ⟨n.toNat, h⟩ else none

/-- What `irq_dispatch` does: accesses to the GIC, and calls of handlers. -/
inductive IntcEvent (H : Type)
  | readIar (iar : Word)
  | call (fn : H)
  | writeEoir (v : Word)

/-- `irq_dispatch` through `gicv1_get_active` and `gicv1_eoi`, with the value that the GIC returns
from `GICC_IAR`. -/
def gicDispatch (table : IrqTable H) (iar : Word) : List (IntcEvent H) :=
  let n := gicv1GetActive iar
  [.readIar iar] ++ (registered table n).toList.map .call ++ [.writeEoir (gicv1Eoi n)]

lemma registered_irqRegister (table : IrqTable H) (irq n : Word) (fn : H) :
    registered (irqRegister table irq fn) n =
      if n = irq ∧ n < maxIrqs then some fn else registered table n := by
  by_cases hn : n < maxIrqs
  · by_cases heq : n = irq
    · subst heq
      simp [registered, irqRegister, hn]
    · have hne : n.toNat ≠ irq.toNat := fun h => heq (BitVec.eq_of_toNat_eq h)
      by_cases hirq : irq < maxIrqs <;> simp [registered, irqRegister, hn, hirq, heq, hne]
  · simp [registered, hn]

/-- `irq_table` after `irq_init` and the two registrations of `kmain`. -/
lemma registered_boot (b : Board) :
    registered (irqRegister (irqRegister (fun _ => none) b.irqTimer IrqHandler.timerIrq) b.irqUart0
      .uartRxIrq) = bootIrqTable b := by
  have hlt : b.irqUart0 < maxIrqs ∧ b.irqTimer < maxIrqs := by cases b <;> decide
  ext n : 1
  rw [registered_irqRegister, registered_irqRegister, bootIrqTable]
  have hnone : registered (fun _ => none : IrqTable IrqHandler) n = none := by simp [registered]
  rw [hnone]
  by_cases h1 : n = b.irqUart0
  · simp [h1, hlt.1]
  · by_cases h2 : n = b.irqTimer <;> simp [h1, h2, hlt.2]

namespace Kernel

variable {N : ℕ}

/-- An event of `irq_dispatch`, on the globals. -/
def intcEvent (rx : List Byte) (k : Kernel N) : IntcEvent IrqHandler → Kernel N
  | .readIar _ => k
  | .call fn => k.runIrqHandler rx fn
  | .writeEoir v => k.emit [.eoi v]

/-- On the QEMU board `irq_dispatch` is this sequence. -/
lemma irqDispatch_gic (k : Kernel N) (ack : Word) (rx : List Byte) :
    k.irqDispatch .qemu ack rx =
      (gicDispatch (fun i => k.irqTable (BitVec.ofNat 32 i)) ack).foldl (intcEvent rx) k := by
  have hof : BitVec.ofNat 32 (gicv1GetActive ack).toNat = gicv1GetActive ack := by simp
  rw [gicDispatch, List.foldl_append, List.foldl_append, irqDispatch]
  show (emit _ _) = emit _ _
  congr 1
  show (if gicv1GetActive ack < maxIrqs then _ else k) = _
  by_cases hn : gicv1GetActive ack < maxIrqs
  · rw [if_pos hn]
    simp only [registered, dif_pos hn, hof]
    cases h : k.irqTable (gicv1GetActive ack) with
    | none => simp only [Board.getActive, h]; rfl
    | some fn => simp only [Board.getActive, h]; rfl
  · rw [if_neg hn]
    simp only [registered, dif_neg hn]
    rfl

end Kernel

/-! ### Interrupts that are active -/

/-- The interrupt ID that a value of `GICC_IAR` acknowledges. -/
def acknowledged (iar : Word) : Word := iar &&& 0x3FF#32

/-- Which interrupts are active: acknowledged and not ended. -/
structure Gic where
  active : Word → Bool

/-- The GIC's side of an event.  Reading the spurious ID activates nothing, and handlers do not
touch the GIC. -/
def Gic.after (g : Gic) : IntcEvent H → Gic
  | .readIar iar =>
    if acknowledged iar = gicSpurious then g
    else ⟨Function.update g.active (acknowledged iar) true⟩
  | .call _ => g
  | .writeEoir v => ⟨Function.update g.active v false⟩

/-- At most one handler is called, the one registered for the acknowledged ID, then this very ID
is ended; and nothing stays active that was not active before. -/
structure EoiMatches (table : IrqTable H) (iar : Word) (events : List (IntcEvent H)) : Prop where
  events_eq : events = [.readIar iar] ++ (registered table (acknowledged iar)).toList.map .call ++
    [.writeEoir (acknowledged iar)]
  inactive : ∀ (g : Gic) (id : Word), (events.foldl Gic.after g).active id = true →
    g.active id = true

lemma toNat_acknowledged (iar : Word) : (acknowledged iar).toNat ≤ 1023 := by
  rw [acknowledged, BitVec.toNat_and]
  exact Nat.and_le_right

lemma gicv1GetActive_of_lt {iar : Word} (h : (acknowledged iar).toNat < 1023) :
    gicv1GetActive iar = acknowledged iar := by
  have hnot : ¬ gicSpurious ≤ acknowledged iar := by
    rw [BitVec.le_def, show gicSpurious.toNat = 1023 from rfl]
    omega
  exact if_neg hnot

/-- The handlers do not touch the GIC. -/
lemma foldl_after_call (g : Gic) (fns : List H) :
    (fns.map IntcEvent.call).foldl Gic.after g = g := by
  induction fns with
  | nil => rfl
  | cons fn fns ih => exact ih

/-- An interrupt that is ended under the ID it was acknowledged with is not active any more. -/
lemma inactive_of_eoi (g : Gic) (iar : Word) (fns : List H) {id : Word}
    (h : (([IntcEvent.readIar iar] ++ fns.map IntcEvent.call ++
      [IntcEvent.writeEoir (acknowledged iar)]).foldl Gic.after g).active id = true) :
    g.active id = true := by
  rw [List.foldl_append, List.foldl_append, foldl_after_call] at h
  simp only [List.foldl_cons, List.foldl_nil, Gic.after] at h
  by_cases hid : id = acknowledged iar
  · subst hid
    simp at h
  · rw [Function.update_of_ne hid] at h
    split at h
    · exact h
    · exact (Function.update_of_ne hid true g.active).symm.trans h

/-- **When acknowledge and end of interrupt match.**  For every table and every value of
`GICC_IAR`: exactly for the IDs that the table covers, and for the spurious one. -/
theorem eoi_matches_iff (table : IrqTable H) (iar : Word) :
    EoiMatches table iar (gicDispatch table iar) ↔
      acknowledged iar < maxIrqs ∨ acknowledged iar = gicSpurious := by
  have hle := toNat_acknowledged iar
  have hmax : maxIrqs.toNat = 128 := rfl
  have hspur : gicSpurious.toNat = 1023 := rfl
  constructor
  · intro h
    have hlast := (List.append_inj' h.events_eq rfl).2
    have heoi : gicv1Eoi (gicv1GetActive iar) = acknowledged iar := by simpa using hlast
    by_cases hs : (acknowledged iar).toNat = 1023
    · exact Or.inr (BitVec.eq_of_toNat_eq (hs.trans hspur.symm))
    · -- the driver has passed the ID on, and writes it back only if the table covers it
      left
      rw [gicv1GetActive_of_lt (by omega), gicv1Eoi] at heoi
      by_contra hn
      rw [BitVec.not_lt] at hn
      rw [if_pos hn] at heoi
      exact hs (by rw [← heoi, hspur])
  · intro h
    have hevents : gicDispatch table iar = [.readIar iar] ++
        (registered table (acknowledged iar)).toList.map .call ++
          [.writeEoir (acknowledged iar)] := by
      rcases h with hlt | heq
      · rw [BitVec.lt_def, hmax] at hlt
        have hnot : ¬ maxIrqs ≤ acknowledged iar := by
          rw [BitVec.le_def, hmax]
          omega
        have hact : gicv1GetActive iar = acknowledged iar := gicv1GetActive_of_lt (by omega)
        simp only [gicDispatch, hact, gicv1Eoi, if_neg hnot]
      · -- no handler is called for `MAX_IRQS`, and none for the spurious ID
        have hact : gicv1GetActive iar = maxIrqs := by
          rw [gicv1GetActive, show iar &&& 0x3FF#32 = gicSpurious from heq]
          rfl
        simp only [gicDispatch, hact, heq]
        rfl
    refine ⟨hevents, ?_⟩
    intro g id hid
    rw [hevents] at hid
    exact inactive_of_eoi g iar _ hid

/-- Interrupt 200 is acknowledged, and the spurious ID is written back: it stays active. -/
theorem eoi_mismatch :
    gicDispatch (fun _ => none : IrqTable IrqHandler) 200#32 =
        [.readIar 200#32, .writeEoir 1023#32] ∧
      ((gicDispatch (fun _ => none : IrqTable IrqHandler) 200#32).foldl Gic.after
        ⟨fun _ => false⟩).active 200#32 = true ∧
      ¬ EoiMatches (fun _ => none : IrqTable IrqHandler) 200#32
        (gicDispatch (fun _ => none : IrqTable IrqHandler) 200#32) := by
  refine ⟨rfl, by decide, ?_⟩
  intro h
  exact absurd (h.inactive ⟨fun _ => false⟩ 200#32 (by decide)) (by decide)

end RingNova
