/-
# Syscall handlers

The handlers of `kernel/syscall/syscall.c` as far as they only touch the kernel's globals.
A handler's `long` result is 32 bits wide on this target and is stored in the caller's
`r0` as it is.  `sys_write`, `sys_read` and `sys_ps` also touch user memory; what they
compute before or after doing so is here, the accesses are in the system's step function.
-/
import RingNova.Kernel.Irq

namespace RingNova

/-- `E_BADCALL`. -/
def eBadcall : Word := -1#32

/-- `E_FAULT`. -/
def eFault : Word := -2#32

/-- The entries of `syscall_table`. -/
inductive Syscall
  | write
  | getpid
  | yield
  | exit
  | read
  | ps
  | kill
  | ticks
deriving DecidableEq, Repr

/-- `syscall_table`, indexed by the number in `r7`; `none` from `NR_SYSCALLS` on. -/
def Syscall.ofNum (num : Word) : Option Syscall :=
  [write, getpid, yield, exit, read, ps, kill, ticks][num.toNat]?

/-- `valid_user_ptr`. -/
def validUserPtr (addr len : Word) : Bool :=
  let stop := addr + len
  if stop < addr then false
  else if addr < userVirtBase then false
  else if stop > userVirtBase + userRegionSize then false
  else true

/-- The `state_name` table of `sys_ps`. -/
def stateName : TaskState → List Byte
  | .ready => cstr "READY  "
  | .running => cstr "RUNNING"
  | .blocked => cstr "BLOCKED"
  | .dead => cstr "DEAD   "

/-- The inner copy loops of `sys_ps`: they stop at the end of the string or when one byte
of the buffer is left. -/
def psCopy (size : ℕ) : List Byte → List Byte → List Byte
  | [], out => out
  | c :: s, out => if out.length + 1 < size then psCopy size s (out ++ [c]) else out

/-- One iteration of `sys_ps`: the bytes written so far, and `false` after a `break`. -/
def psEntry (size : ℕ) (p : Pcb) (out : List Byte) : List Byte × Bool :=
  if out.length + 1 ≥ size then (out, false)
  else
    let out := out ++ [0x30#8 + p.pid.setWidth 8]
    if out.length + 1 ≥ size then (out, false)
    else
      let out := psCopy size p.name (out ++ [0x20#8])
      if out.length + 1 ≥ size then (out, false)
      else
        let out := psCopy size (stateName p.state) (out ++ [0x20#8])
        if out.length + 1 ≥ size then (out, false)
        else (out ++ [0x0A#8], true)

/-- The outer loop of `sys_ps`. -/
def psLoop (size : ℕ) : List Pcb → List Byte → List Byte
  | [], out => out
  | p :: ps, out =>
    match psEntry size p out with
    | (out, true) => psLoop size ps out
    | (out, false) => out

namespace Kernel

variable {N : ℕ}

/-- The bytes that `sys_ps` stores from the start of the caller's buffer on. -/
def sysPsBytes (k : Kernel N) (size : Word) : List Byte :=
  psLoop size.toNat ((List.finRange N).map k.processes) []

/-- `sys_getpid`. -/
def sysGetpid (k : Kernel N) : Word :=
  match k.current with
  | some c => (k.processes c).pid
  | none => -1#32

/-- `sys_yield`. -/
def sysYield (k : Kernel N) : Kernel N × Word := (k.schedulerRequestResched, 0#32)

/-- `sys_exit`. -/
def sysExit (k : Kernel N) : Kernel N × Word :=
  let k :=
    match k.current with
    | some c =>
      (k.printf "[EXIT]  pid=%u name=%s\n"
        [.num (k.processes c).pid, .str (k.processes c).name]).setState c .dead
    | none => k
  (k.schedulerRequestResched, 0#32)

/-- `sys_kill`. -/
def sysKill (k : Kernel N) (pid : Word) : Kernel N × Word :=
  if h : pid.toNat < N then
    let p : Fin N := ⟨pid.toNat, h⟩
    if k.st p = .dead then (k, 0#32)
    else
      let by' : Word := match k.current with
        | some c => (k.processes c).pid
        | none => 99#32
      let k := k.printf "[KILL] pid=%u name=%s killed by pid=%u via sys_kill\n"
        [.num (k.processes p).pid, .str (k.processes p).name, .num by']
      ((k.setState p .dead).schedulerRequestResched, 0#32)
  else (k, eBadcall)

/-- `sys_ticks`. -/
def sysTicks (k : Kernel N) : Word := k.tickCount

/-- `user_fault_kill` up to its call of `schedule`. -/
def userFaultKill (k : Kernel N) (kind : String) : Kernel N :=
  let k :=
    match k.current with
    | some c =>
      (k.printf "[KILL] pid=%u name=%s killed by %s\n"
        [.num (k.processes c).pid, .str (k.processes c).name, .str (cstr kind)]).setState c .dead
    | none => k
  k.schedulerRequestResched

/-- `halt_forever`, up to its endless loop. -/
def haltForever (k : Kernel N) : Kernel N := k.printf "[PANIC] system halted.\n" []

/-- `sys_kill` refuses numbers that are no process's. -/
lemma sysKill_of_le {k : Kernel N} {pid : Word} (h : N ≤ pid.toNat) :
    k.sysKill pid = (k, eBadcall) := by
  rw [sysKill, dif_neg (Nat.not_lt.2 h)]

/-- Otherwise it succeeds, and only the state of that process can change. -/
lemma sysKill_of_lt {k : Kernel N} {pid : Word} (h : pid.toNat < N) :
    (k.sysKill pid).2 = 0#32 ∧
      ∀ p : Fin N, (k.sysKill pid).1.st p ≠ k.st p → (p : ℕ) = pid.toNat := by
  rw [sysKill, dif_pos h]
  dsimp only
  split
  · exact ⟨rfl, fun p hp => absurd rfl hp⟩
  · refine ⟨rfl, ?_⟩
    intro p hp
    by_contra hne
    have hp' : p ≠ ⟨pid.toNat, h⟩ := fun heq => hne (congrArg Fin.val heq)
    exact hp (st_setState_of_ne _ .dead hp')

end Kernel

end RingNova
