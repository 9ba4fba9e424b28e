/-
# The kernel's global state

The C globals that the kernel reads and writes after boot: the process table and the
`current` cursor (`proc.h`, `process.c`), the scheduler's flag, slot and hint
(`scheduler.c`), the RX ring (`uart_core.c`), the tick counter and its callback
(`timer_core.c`) and the interrupt table (`intc_core.c`).  Pointers into `processes` are
indices, a null pointer is `none`.

`log` is a history variable: it records, in order, what leaves the kernel (console bytes,
end-of-interrupt writes, syscall results) and the moments that the properties of this
development speak about.  No function of the kernel reads it.
-/
import RingNova.Kernel.Uart

namespace RingNova

/-- `task_state_t`. -/
inductive TaskState
  | ready
  | running
  | blocked
  | dead
deriving DecidableEq, Repr

/-- `process_t` without its `ctx` part: the saved banked registers are only touched by
assembly and live beside the CPU. -/
structure Pcb where
  pid : Word
  state : TaskState
  name : List Byte
  /-- Virtual address of the process's L1 table. -/
  pgd : Word
  /-- Its physical address, written into TTBR0 on a switch. -/
  pgdPa : Word
  kstackBase : Word
  kstackSize : Word
  userEntry : Word
  userStackTop : Word
  userPhysBase : Word

/-- A PCB with its only mutable field forgotten. -/
def Pcb.fixed (p : Pcb) : Pcb := { p with state := .ready }

/-- What the history variable records. -/
inductive Obs (N : ℕ)
  /-- A byte handed to the console's chip driver. -/
  | tx (c : Byte)
  /-- `uart_rx_push` stored a byte in the ring. -/
  | rxAccept (c : Byte)
  /-- `sys_read` of a process returned, having stored these bytes in its buffer. -/
  | readDone (p : Fin N) (bytes : List Byte)
  /-- `syscall_dispatch` stored a result in the caller's `ctx->r[0]`. -/
  | sysret (p : Fin N) (v : Word)
  /-- `scheduler_block_on_input` put a process to sleep. -/
  | block (p : Fin N)
  /-- `scheduler_wake_reader` moved a process out of `TASK_BLOCKED`. -/
  | wake (p : Fin N)
  /-- `perform_switch` gave the CPU to a process, by the wake hint or by the ring walk. -/
  | dispatch (p : Fin N) (byHint : Bool)
  /-- A value written to the interrupt controller's end-of-interrupt register. -/
  | eoi (v : Word)
deriving DecidableEq

/-- The handlers that `kmain` registers in `irq_table`. -/
inductive IrqHandler
  | timerIrq
  | uartRxIrq
deriving DecidableEq, Repr

/-- The callback that `kmain` hands to `timer_set_handler`. -/
inductive TimerHandler
  | schedulerTick
deriving DecidableEq, Repr

/-- The kernel's globals, for a process table of `N` entries. -/
structure Kernel (N : ℕ) where
  processes : Fin N → Pcb
  current : Option (Fin N)
  needReschedule : Bool
  switchCount : Word
  blockedReader : Option (Fin N)
  wakeHint : Option (Fin N)
  rx : RxRing
  tickCount : Word
  userHandler : Option TimerHandler
  irqTable : Word → Option IrqHandler
  log : List (Obs N)

namespace Kernel

variable {N : ℕ}

/-- `processes[p].state`. -/
def st (k : Kernel N) (p : Fin N) : TaskState := (k.processes p).state

/-- `processes[p].state = s`. -/
def setState (k : Kernel N) (p : Fin N) (s : TaskState) : Kernel N :=
  { k with processes := Function.update k.processes p { k.processes p with state := s } }

/-- Extend the history. -/
def emit (k : Kernel N) (os : List (Obs N)) : Kernel N := { k with log := k.log ++ os }

/-- Bytes leaving through the console. -/
def print (k : Kernel N) (bs : List Byte) : Kernel N := k.emit (bs.map Obs.tx)

/-- A call of `uart_printf` with a literal format. -/
def printf (k : Kernel N) (fmt : String) (args : List PrintfArg) : Kernel N :=
  k.print (uartPrintf (cstr fmt) args).out

/-- `TASK_READY` or `TASK_RUNNING`: the states that `schedule` may dispatch. -/
def Runnable (k : Kernel N) (p : Fin N) : Prop := k.st p = .ready ∨ k.st p = .running

instance (k : Kernel N) (p : Fin N) : Decidable (k.Runnable p) :=
  inferInstanceAs (Decidable (_ ∨ _))

/-! ### Reading updated fields -/

lemma st_setState (k : Kernel N) (p q : Fin N) (s : TaskState) :
    (k.setState p s).st q = if q = p then s else k.st q := by
  by_cases h : q = p
  · subst h
    simp [setState, st]
  · simp [setState, st, h]

@[simp] lemma st_setState_self (k : Kernel N) (p : Fin N) (s : TaskState) :
    (k.setState p s).st p = s := by
  simp [st_setState]

lemma st_setState_of_ne (k : Kernel N) {p q : Fin N} (s : TaskState) (h : q ≠ p) :
    (k.setState p s).st q = k.st q := by
  simp [st_setState, h]

@[simp] lemma fixed_setState (k : Kernel N) (p q : Fin N) (s : TaskState) :
    ((k.setState p s).processes q).fixed = (k.processes q).fixed := by
  by_cases h : q = p
  · subst h
    simp [setState, Pcb.fixed]
  · simp [setState, h]

section SetState

variable (k : Kernel N) (p : Fin N) (s : TaskState)

@[simp] lemma current_setState : (k.setState p s).current = k.current := rfl
@[simp] lemma needReschedule_setState : (k.setState p s).needReschedule = k.needReschedule := rfl
@[simp] lemma blockedReader_setState : (k.setState p s).blockedReader = k.blockedReader := rfl
@[simp] lemma wakeHint_setState : (k.setState p s).wakeHint = k.wakeHint := rfl
@[simp] lemma rx_setState : (k.setState p s).rx = k.rx := rfl
@[simp] lemma log_setState : (k.setState p s).log = k.log := rfl
@[simp] lemma irqTable_setState : (k.setState p s).irqTable = k.irqTable := rfl
@[simp] lemma userHandler_setState : (k.setState p s).userHandler = k.userHandler := rfl

end SetState

section Emit

variable (k : Kernel N) (os : List (Obs N))

@[simp] lemma processes_emit : (k.emit os).processes = k.processes := rfl
@[simp] lemma st_emit (q : Fin N) : (k.emit os).st q = k.st q := rfl
@[simp] lemma current_emit : (k.emit os).current = k.current := rfl
@[simp] lemma needReschedule_emit : (k.emit os).needReschedule = k.needReschedule := rfl
@[simp] lemma blockedReader_emit : (k.emit os).blockedReader = k.blockedReader := rfl
@[simp] lemma wakeHint_emit : (k.emit os).wakeHint = k.wakeHint := rfl
@[simp] lemma rx_emit : (k.emit os).rx = k.rx := rfl
@[simp] lemma log_emit : (k.emit os).log = k.log ++ os := rfl
@[simp] lemma irqTable_emit : (k.emit os).irqTable = k.irqTable := rfl
@[simp] lemma userHandler_emit : (k.emit os).userHandler = k.userHandler := rfl
@[simp] lemma runnable_emit (q : Fin N) : (k.emit os).Runnable q ↔ k.Runnable q := Iff.rfl

end Emit

end Kernel

end RingNova
