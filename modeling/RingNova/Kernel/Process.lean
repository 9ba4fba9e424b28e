/-
# The process table at boot

The C part of `process_init_all` (`kernel/proc/process.c`) that fills the PCBs, and the
globals as `kmain` leaves them when it enters the first process.
-/
import RingNova.Kernel.Syscall
import RingNova.Link

namespace RingNova

/-- The names in `user_images`. -/
def userImageName : Pid → List Byte
  | 0 => cstr "counter"
  | 1 => cstr "runaway"
  | 2 => cstr "shell"

/-- The PCB that `process_init_all` builds for process `i`. -/
def initPcb {b : Board} (L : Layout b) (i : Pid) : Pcb where
  pid := BitVec.ofNat 32 i
  state := .ready
  name := userImageName i
  pgd := L.pgd i
  pgdPa := L.pgd i - b.physOffset
  kstackBase := L.kstack i
  kstackSize := kstackSize
  userEntry := userVirtBase
  userStackTop := userStackTop
  userPhysBase := b.slotBase i

/-- `irq_table` after the two calls of `irq_register` in `kmain`. -/
def bootIrqTable (b : Board) (n : Word) : Option IrqHandler :=
  if n = b.irqUart0 then some .uartRxIrq
  else if n = b.irqTimer then some .timerIrq
  else none

/-- The globals when `kmain` calls `process_first_run`.  The history starts here. -/
def bootKernel {b : Board} (L : Layout b) : Kernel numProcesses where
  processes := initPcb L
  current := some 0
  needReschedule := false
  switchCount := 0#32
  blockedReader := none
  wakeHint := none
  rx := RxRing.zero
  tickCount := 0#32
  userHandler := some .schedulerTick
  irqTable := bootIrqTable b
  log := []

end RingNova
