/-
# The machine at the level of instructions

Here the assembly of the kernel is not summarised, as in `RingNova.Arm.Machine`, but executed:
an exception is taken by the CPU, the vector and the entry are fetched and run on the memory
system with its TLB, up to the first instruction of the C handler, and so are the exits and
`context_switch`.  The PCBs are in memory.

C code is still not instructions.  When it runs it may leave anything in the registers, in the
flags and on its part of the stack (`CompiledAbi`); it is called in SVC mode with interrupts
masked, returns to the address in `lr`, and continues after a call if the callee has kept the
AAPCS.  Where the machine would do something else (an instruction aborts, a handler is called in
another mode, `context_switch` returns to somewhere else or with other registers), it is lost,
which is `none`.
-/
import RingNova.Arm.SwitchCode

namespace RingNova.Isa

/-! ### State -/

/-- What the compiler decides, with what C code leaves in the registers. -/
structure CompiledAbi extends CompiledC where
  /-- `r0` to `r12` after C code has run. -/
  scratch : ℕ → Fin 13 → Word
  /-- The link register after C code has run. -/
  link : ℕ → Word
  /-- The flags after C code has run. -/
  flags : ℕ → Word
  depth_aligned : ∀ t, depth t % 4 = 0

/-- Compiled code that clears all registers. -/
def CompiledAbi.zeroed : CompiledAbi where
  toCompiledC := CompiledC.zeroed
  scratch := fun _ _ => 0#32
  link := fun _ => 0#32
  flags := fun _ => 0#32
  depth_aligned := fun _ => by simp [CompiledC.zeroed]

/-- A state of the machine. -/
structure Machine where
  core : Core
  sys : Mmu
  /-- The argument that the C handler of a process has been called with. -/
  arg : Pid → Word
  /-- What the C code of a process that waits in `context_switch` relies on. -/
  frames : Pid → Option Frames
  /-- How often C code has run. -/
  time : ℕ

namespace Core

/-- The registers that user code sees. -/
def userRegs (c : Core) : UserRegs := ⟨c.r, c.sp .usr, c.lr .usr, c.pc, c.cpsr⟩

/-- Replace the registers that user code sees. -/
def setUserRegs (c : Core) (u : UserRegs) : Core :=
  { c with
    r := u.r
    sp := Function.update c.sp .usr u.sp
    lr := Function.update c.lr .usr u.lr
    pc := u.pc
    cpsr := u.cpsr }

end Core

/-- The flags `N`, `Z`, `C`, `V`, `Q` and `GE`. -/
def flagBits : Word := 0xF80F0000#32

/-- A status register with other flags. -/
def withFlags (psr flags : Word) : Word := (psr &&& ~~~flagBits) ||| (flags &&& flagBits)

lemma kernelMode_withFlags {psr : Word} (h : KernelMode psr) (flags : Word) :
    KernelMode (withFlags psr flags) := by
  have hmask : (~~~flagBits) &&& 0xBF#32 = 0xBF#32 ∧ flagBits &&& 0xBF#32 = 0#32 := by decide
  rw [KernelMode, withFlags, BitVec.and_or_distrib_right, BitVec.and_assoc, hmask.1,
    BitVec.and_assoc, hmask.2, BitVec.and_zero, BitVec.or_zero]
  exact h

section

variable {b : Board} {L : Layout b} (T : Text L) (cc : CompiledAbi) (hw : ℕ → Tlb.Refill)

namespace Machine

/-- Some instructions are fetched and executed. -/
def runCode (n : ℕ) (m : Machine) : Option Machine :=
  (run (mmuBus T.code hw) n ⟨m.core, m.sys⟩).map fun s => { m with core := s.core, sys := s.sys }

/-! ### User code -/

/-- Instructions of the user program that only compute. -/
def exec (m : Machine) (f : UserRegs → UserRegs) : Option Machine :=
  if (f m.core.userRegs).cpsr &&& privBits = m.core.cpsr &&& privBits then
    some { m with core := m.core.setUserRegs (f m.core.userRegs) }
  else none

/-- A load of a byte. -/
def load (m : Machine) (va : Word) : Option Byte :=
  (m.sys.translate va (privileged m.core.cpsr) .read).map m.sys.mem

/-- A store of a byte. -/
def store (m : Machine) (va : Word) (ch : Byte) : Option Machine :=
  (m.sys.translate va (privileged m.core.cpsr) .write).map fun pa =>
    { m with sys := { m.sys with mem := m.sys.mem.store8 pa ch } }

/-- The hardware changes the TLB. -/
def refill (m : Machine) : Machine := { m with sys := m.sys.refill hw }

/-! ### Exceptions -/

/-- The CPU takes an exception, and the code of the kernel calls the C handler. -/
def enter (m : Machine) (c : Pid) (x : Exn) : Option Machine := do
  let m ← runCode T hw (1 + (entryCode x 0#32).length)
    { m with core := takeException m.core x m.sys.vbar }
  if m.core.pc = T.handler x ∧ m.core.lr .svc = T.returnTo x ∧ KernelMode m.core.cpsr then
    return { m with arg := Function.update m.arg c (m.core.r 0) }
  else none

/-- A word that C code reads. -/
def word (m : Machine) (va : Word) : Word :=
  ((m.sys.translate va true .read).map m.sys.mem.load32).getD 0#32

/-- `*ctx`, for the argument of the handler of a process. -/
def context (m : Machine) (c : Pid) : ExceptionContext :=
  ⟨m.word (m.arg c), fun i => m.word (m.arg c + BitVec.ofNat 32 (4 + 4 * i)),
    m.word (m.arg c + BitVec.ofNat 32 56)⟩

/-- `ctx->r[0] = ret`. -/
def setRet (m : Machine) (c : Pid) (v : Word) : Option Machine :=
  (m.sys.translate (m.arg c + 4#32) true .write).map fun pa =>
    { m with sys := { m.sys with mem := m.sys.mem.store32 pa v } }

/-- C code has run on the kernel stack of a process, below its stack pointer, and goes on to an
address. -/
def ranC (L : Layout b) (m : Machine) (p : Pid) (pc : Word) : Machine :=
  { m with
    core :=
      { m.core with
        r := cc.scratch m.time
        lr := Function.update m.core.lr .svc (cc.link m.time)
        cpsr := withFlags m.core.cpsr (cc.flags m.time)
        pc := pc }
    sys :=
      { m.sys with
        mem := m.sys.mem.overwrite (ArmMachine.freeStack L p (m.core.sp .svc)) (cc.stack m.time) }
    time := m.time + 1 }

/-- The return to USR mode: the C handler returns, and the code behind its call is run. -/
def leave (m : Machine) (c : Pid) : Exit → Option Machine
  | .first =>
    runCode T hw exceptionExitIrq.length { m with core := m.core.goto L.retFromFirstEntry }
  | .irq => runCode T hw exceptionExitIrq.length (ranC cc L m c (T.returnTo .irq))
  | .svc => runCode T hw exceptionExitSvc.length (ranC cc L m c (T.returnTo .svc))

/-! ### `context_switch` -/

lemma callee_index {i : Fin 13} (h : 4 ≤ i.val ∧ i.val < 12) : i.val - 4 < 8 := by
  omega

/-- C code of a process has called `context_switch(&processes[prev], &processes[next])`. -/
def callSwitch (m : Machine) (prev next : Pid) (site : Cont) : Machine :=
  let ran := ranC cc L m prev T.contextSwitch
  let sp := m.core.sp .svc - BitVec.ofNat 32 (cc.depth m.time)
  { ran with
    core :=
      { ran.core with
        r := fun i =>
          if i = 0 then T.pcb prev
          else if i = 1 then T.pcb next
          else if h : 4 ≤ i.val ∧ i.val < 12 then cc.callee m.time ⟨i - 4, callee_index h⟩
          else cc.scratch m.time i
        sp := Function.update m.core.sp .svc sp
        lr := Function.update m.core.lr .svc L.switchReturn }
    frames := Function.update m.frames prev (some ⟨site, sp, cc.callee m.time,
      ran.sys.mem.bytes (b.pa sp) (cc.depth m.time)⟩) }

/-- Control has left `context_switch`, on the stack of a process. -/
def resumeC (L : Layout b) (m : Machine) (next : Pid) : Option (Machine × Cont) :=
  let sp := m.core.sp .svc
  if KernelMode m.core.cpsr then
    if m.core.pc = L.retFromFirstEntry then some (m, .firstEntry)
    else if m.core.pc = L.switchReturn then
      match m.frames next with
      | none => none
      | some f =>
        if sp = f.sp ∧ (∀ i : Fin 8, m.core.r ⟨4 + i, by omega⟩ = f.callee i) ∧
            m.sys.mem.bytes (b.pa sp) f.frames.length = f.frames then
          -- the C functions return one after the other, up to the handler's caller
          some ({ m with core := m.core.withSp .svc (sp + BitVec.ofNat 32 f.frames.length) },
            f.cont)
        else none
    else none
  else none

/-- `context_switch`, called from C code of process `prev`. -/
def switch (m : Machine) (prev next : Pid) (site : Cont) : Option (Machine × Cont) := do
  let m ← runCode T hw (contextSwitchCode.length) (callSwitch T cc m prev next site)
  resumeC L m next

/-- `process_first_run`: the call of `context_switch` with `prev == NULL` skips the save side. -/
def firstRun (m : Machine) (first : Pid) : Option (Machine × Cont) := do
  let m ← runCode T hw (contextSwitchCode.length - saveSide.length)
    { m with core :=
      { m.core with
        r := Function.update (Function.update m.core.r 0 0#32) 1 (T.pcb first)
        pc := T.contextSwitch } }
  resumeC L m first

end Machine

open Machine in
/-- The machine as an implementation of the interface; `none` is a machine that is lost. -/
def isaArch : Arch (Option Machine) where
  exec s _ f := s.bind fun m => (m.exec f).map some
  uload s _ va rd := s.bind fun m =>
    ((m.refill hw).load va).map fun ch => some { m.refill hw with
      core := { m.core with r := Function.update m.core.r rd (ch.setWidth 32) } }
  ustore s _ va ch := s.bind fun m => ((m.refill hw).store va ch).map some
  enter s c x := s.bind fun m => m.enter T hw c x
  ctx s c _ := (s.map fun m => m.context c).getD ⟨0#32, fun _ => 0#32, 0#32⟩
  setRet s c v := s.bind fun m => m.setRet c v
  kload s _ va := s.bind fun m => (m.refill hw).load va
  kstore s _ va ch := s.bind fun m => ((m.refill hw).store va ch).map some
  leave s c x := s.bind fun m => m.leave T cc hw c x
  switch _ s prev next site := s.bind fun m =>
    (m.switch T cc hw prev next site).map fun r => (some r.1, r.2)

end

end RingNova.Isa
