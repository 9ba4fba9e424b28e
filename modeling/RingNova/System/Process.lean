/-
# The process-level machine

The machine that the kernel is meant to provide: every process has registers and a 1 MB
memory of its own, an exception leaves them alone, and a context switch only changes who
runs.  Isolation and transparent preemption are built in here; that the ARM machine
behaves like this one is proved in `RingNova.Arm.Refinement`.
-/
import RingNova.Kernel.Process
import RingNova.Kernel.Window
import RingNova.Lib.Trace
import RingNova.System.Step

namespace RingNova

/-- The mode, `A`, `I` and `F` bits of the CPSR: user code cannot change them. -/
def privBits : Word := 0x1DF#32

/-- The size of the `svc` instruction in the instruction set state of a CPSR. -/
def svcSize (cpsr : Word) : Word := if cpsr &&& 0x20#32 = 0#32 then 4#32 else 2#32

/-- `LR_und - 4`: the undefined instruction, off by two in Thumb state. -/
def undefinedPc (u : UserRegs) : Word := u.pc + svcSize u.cpsr - 4#32

/-- A state of the process-level machine. -/
structure ProcMachine where
  /-- The registers of each process, as its user code sees them when it runs next. -/
  regs : Pid → UserRegs
  /-- The memory of each process, by virtual address. -/
  umem : Pid → Word → Byte
  /-- Where a process that is not running continues. -/
  cont : Pid → Cont

namespace ProcMachine

/-- Replace the registers of a process. -/
def setRegs (a : ProcMachine) (c : Pid) (u : UserRegs) : ProcMachine :=
  { a with regs := Function.update a.regs c u }

/-- Write a byte of a process's memory. -/
def setByte (a : ProcMachine) (c : Pid) (va : Word) (ch : Byte) : ProcMachine :=
  { a with umem := Function.update a.umem c (Function.update (a.umem c) va ch) }

/-- Entering the kernel: an `svc` continues after the instruction. -/
def enter (a : ProcMachine) (c : Pid) : Exn → ProcMachine
  | .svc => a.setRegs c
      { a.regs c with pc := (a.regs c).pc + svcSize (a.regs c).cpsr }
  | _ => a

/-- The frame of an exception. -/
def ctx (a : ProcMachine) (c : Pid) : Exn → ExceptionContext
  | .undefined => ⟨(a.regs c).cpsr, (a.regs c).r, undefinedPc (a.regs c)⟩
  | _ => ⟨(a.regs c).cpsr, (a.regs c).r, (a.regs c).pc⟩

end ProcMachine

open ProcMachine in
/-- The process-level machine as an implementation of the interface. -/
def procArch : Arch ProcMachine where
  exec a c f :=
    if (f (a.regs c)).cpsr &&& privBits = (a.regs c).cpsr &&& privBits then
      some (a.setRegs c (f (a.regs c)))
    else none
  uload a c va rd :=
    if inWindow va then
      some (a.setRegs c
        { a.regs c with r := Function.update (a.regs c).r rd ((a.umem c va).setWidth 32) })
    else none
  ustore a c va ch := if inWindow va then some (a.setByte c va ch) else none
  enter := ProcMachine.enter
  ctx := ProcMachine.ctx
  setRet a c v :=
    a.setRegs c { a.regs c with r := Function.update (a.regs c).r 0 v }
  kload a c va := if inWindow va then some (a.umem c va) else none
  kstore a c va ch := if inWindow va then some (a.setByte c va ch) else none
  leave a _ _ := a
  switch _ a prev next site :=
    some ({ a with cont := Function.update a.cont prev site }, a.cont next)

/-- The registers `process_build_initial_frame` prepares. -/
def initRegs : UserRegs := ⟨fun _ => 0#32, userStackTop, 0#32, userVirtBase, 0x10#32⟩

/-- The process-level machine at the first user instruction, on any memory contents. -/
def procBoot (umem : Pid → Word → Byte) : ProcMachine :=
  ⟨fun _ => initRegs, umem, fun _ => .firstEntry⟩

/-- The system at the first user instruction. -/
def procSys {b : Board} (L : Layout b) (umem : Pid → Word → Byte) : Sys ProcMachine :=
  ⟨bootKernel L, procBoot umem, .user⟩

/-! ### Loops over an accepted range do not abort -/

/-- The bytes that `sys_write` sends for a range of a process's memory. -/
def writeOut (a : ProcMachine) (c : Pid) : ℕ → Word → List Byte
  | 0, _ => []
  | n + 1, addr => uartPutc (a.umem c addr) ++ writeOut a c n (addr + 1#32)

lemma print_append {N : ℕ} (k : Kernel N) (bs bs' : List Byte) :
    (k.print bs).print bs' = k.print (bs ++ bs') := by
  simp [Kernel.print, Kernel.emit]

lemma print_nil {N : ℕ} (k : Kernel N) : k.print [] = k := by
  simp [Kernel.print, Kernel.emit]

lemma writeLoop_proc (a : ProcMachine) (c : Pid) (n : ℕ) (addr : Word)
    (k : Kernel numProcesses)
    (h : 0x40000000 ≤ addr.toNat ∧ addr.toNat + n ≤ 0x40100000) :
    writeLoop procArch a c n addr k = (k.print (writeOut a c n addr), true) := by
  induction n generalizing addr k with
  | zero => simp [writeLoop, writeOut, print_nil]
  | succ n ih =>
    obtain ⟨hw, h'⟩ := window_succ h
    have hl : procArch.kload a c addr = some (a.umem c addr) := by simp [procArch, hw]
    rw [writeLoop, hl]
    simp only [ih (addr + 1#32) _ h', print_append, writeOut]

/-- Bytes stored one after the other in a process's memory. -/
def storeOut (a : ProcMachine) (c : Pid) : List Byte → Word → ProcMachine
  | [], _ => a
  | ch :: bs, addr => storeOut (a.setByte c addr ch) c bs (addr + 1#32)

lemma storeLoop_proc (c : Pid) (bs : List Byte) (addr : Word) (a : ProcMachine)
    (h : 0x40000000 ≤ addr.toNat ∧ addr.toNat + bs.length ≤ 0x40100000) :
    storeLoop procArch c bs addr a = (storeOut a c bs addr, true) := by
  induction bs generalizing addr a with
  | nil => rfl
  | cons ch bs ih =>
    obtain ⟨hw, h'⟩ := window_succ h
    have hs : procArch.kstore a c addr ch = some (a.setByte c addr ch) := by
      simp [procArch, hw]
    rw [storeLoop, hs, storeOut]
    exact ih (addr + 1#32) _ h'

lemma storeOut_frame (c : Pid) (bs : List Byte) (addr : Word) (a : ProcMachine) :
    (storeOut a c bs addr).regs = a.regs ∧ (storeOut a c bs addr).cont = a.cont ∧
      ∀ p, p ≠ c → (storeOut a c bs addr).umem p = a.umem p := by
  induction bs generalizing addr a with
  | nil => exact ⟨rfl, rfl, fun _ _ => rfl⟩
  | cons ch bs ih =>
    obtain ⟨h1, h2, h3⟩ := ih (addr + 1#32) (a.setByte c addr ch)
    refine ⟨h1, h2, fun p hp => (h3 p hp).trans ?_⟩
    simp [ProcMachine.setByte, hp]

end RingNova
