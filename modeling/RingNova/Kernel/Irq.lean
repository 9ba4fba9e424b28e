/-
# Interrupts

The interrupt path from `irq_dispatch` (`kernel/drivers/intc/intc_core.c`) through the
two controller drivers, the timer core (`timer_core.c`) and the UART drivers' receive
handlers (`pl011.c`, `ns16550.c`).

What the devices decide is a parameter: `ack` is the value read from the controller's
acknowledge register (`GICC_IAR` or `INTC_SIR_IRQ`), and `rx` are the bytes that the
receive loop reads before it sees the FIFO empty.
-/
import RingNova.Kernel.Scheduler

namespace RingNova

/-- `MAX_IRQS`. -/
def maxIrqs : Word := 128#32

/-- `GIC_SPURIOUS`. -/
def gicSpurious : Word := 1023#32

/-- `gicv1_get_active` on the value of `GICC_IAR`. -/
def gicv1GetActive (iar : Word) : Word :=
  let id := iar &&& 0x3FF#32
  if gicSpurious ≤ id then maxIrqs else id

/-- The value `gicv1_eoi` writes to `GICC_EOIR`. -/
def gicv1Eoi (irq : Word) : Word := if maxIrqs ≤ irq then gicSpurious else irq

/-- `am335x_intc_get_active` on the value of `INTC_SIR_IRQ`. -/
def am335xIntcGetActive (sir : Word) : Word :=
  if sir &&& 0xFFFFFF80#32 ≠ 0#32 then maxIrqs else sir &&& 0x7F#32

/-- The value `am335x_intc_eoi` writes to `INTC_CONTROL`: `INTC_CONTROL_NEWIRQAGR`. -/
def am335xIntcEoi (_irq : Word) : Word := 1#32

/-- `active_intc->ops->get_active`. -/
def Board.getActive : Board → Word → Word
  | qemu => gicv1GetActive
  | bbb => am335xIntcGetActive

/-- `active_intc->ops->eoi`. -/
def Board.eoi : Board → Word → Word
  | qemu => gicv1Eoi
  | bbb => am335xIntcEoi

namespace Kernel

variable {N : ℕ}

/-- `uart_rx_push`, recording the byte if it is accepted. -/
def uartRxPush (k : Kernel N) (c : Byte) : Kernel N :=
  { k.emit (if k.rx.hasRoom then [.rxAccept c] else []) with rx := k.rx.uartRxPush c }

/-- `pl011_rx_irq` and `ns16550_rx_irq`: drain the FIFO, then wake the reader. -/
def uartRxIrq (k : Kernel N) (rx : List Byte) : Kernel N :=
  (rx.foldl uartRxPush k).schedulerWakeReader

/-- `timer_tick`, called by both timer drivers after they have acknowledged the device. -/
def timerTick (k : Kernel N) : Kernel N :=
  let k := { k with tickCount := k.tickCount + 1#32 }
  match k.userHandler with
  | some .schedulerTick => k.schedulerTick
  | none => k

/-- The handler registered for a line. -/
def runIrqHandler (k : Kernel N) (rx : List Byte) : IrqHandler → Kernel N
  | .timerIrq => k.timerTick
  | .uartRxIrq => k.uartRxIrq rx

/-- `irq_dispatch`: at most one handler, then always an end-of-interrupt. -/
def irqDispatch (b : Board) (k : Kernel N) (ack : Word) (rx : List Byte) : Kernel N :=
  let n := b.getActive ack
  let k :=
    if n < maxIrqs then
      match k.irqTable n with
      | some h => k.runIrqHandler rx h
      | none => k
    else k
  k.emit [.eoi (b.eoi n)]

/-! ### Fields after the handlers -/

section RxPush

variable (k : Kernel N) (c : Byte)

@[simp] lemma processes_uartRxPush : (k.uartRxPush c).processes = k.processes := rfl
@[simp] lemma st_uartRxPush (p : Fin N) : (k.uartRxPush c).st p = k.st p := rfl
@[simp] lemma current_uartRxPush : (k.uartRxPush c).current = k.current := rfl
@[simp] lemma needReschedule_uartRxPush :
    (k.uartRxPush c).needReschedule = k.needReschedule := rfl
@[simp] lemma blockedReader_uartRxPush : (k.uartRxPush c).blockedReader = k.blockedReader := rfl
@[simp] lemma wakeHint_uartRxPush : (k.uartRxPush c).wakeHint = k.wakeHint := rfl
@[simp] lemma irqTable_uartRxPush : (k.uartRxPush c).irqTable = k.irqTable := rfl
@[simp] lemma userHandler_uartRxPush : (k.uartRxPush c).userHandler = k.userHandler := rfl
@[simp] lemma rx_uartRxPush : (k.uartRxPush c).rx = k.rx.uartRxPush c := rfl

end RxPush

/-- A field that one push leaves alone is left alone by the receive loop. -/
lemma foldl_uartRxPush_eq {α : Type} {f : Kernel N → α} (hf : ∀ k c, f (k.uartRxPush c) = f k)
    (k : Kernel N) (rx : List Byte) : f (rx.foldl uartRxPush k) = f k := by
  induction rx generalizing k with
  | nil => rfl
  | cons c rx ih => exact (ih (k.uartRxPush c)).trans (hf k c)

end Kernel

end RingNova
