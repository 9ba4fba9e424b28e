/-
# The ARM machine

The CPU with its banked registers, physical memory behind the MMU, and the assembly of the
kernel: the exception entries and exits (`exception_entry.S`), `context_switch`
(`context_switch.S`) and what `kmain` prepares before the first process runs
(`process_init_all`, `mmu_drop_identity`, `process_first_run`).

The C code between an exception entry and its exit, or a call of `context_switch`, is
compiled code; what it does to the globals is the subject of `RingNova.Kernel`, and what it
does to its stack is left open by a `CompiledC`.  It follows the AAPCS: it leaves alone what is
above its stack pointer, and it continues after a call if the callee has brought back its
stack pointer, `r4` to `r11`, and the stack frames it had.  The machine therefore remembers,
for every process that waits in `context_switch`, what these were (`Frames`), and if they
are not what `context_switch` finds, control is lost.
-/
import RingNova.Arm.Mmu
import RingNova.System.Process

namespace RingNova

/-! ### State -/

/-- The registers of the CPU; `r` are `r0` to `r12`, which are not banked. -/
structure Cpu where
  r : Fin 13 → Word
  pc : Word
  cpsr : Word
  spUsr : Word
  lrUsr : Word
  spSvc : Word
  lrSvc : Word
  spsrSvc : Word
  lrIrq : Word
  spsrIrq : Word
  spAbt : Word
  lrAbt : Word
  spsrAbt : Word
  spUnd : Word
  lrUnd : Word
  spsrUnd : Word
  ttbr0 : Word

/-- The part of `proc_context_t` that is used. -/
structure ProcContext where
  spSvc : Word
  lrSvc : Word
  spsr : Word
  spUsr : Word
  lrUsr : Word

/-- What the C code of a process relies on when `context_switch` returns to it: where it
continues, its stack pointer, `r4` to `r11` and the contents of its stack frames. -/
structure Frames where
  cont : Cont
  sp : Word
  callee : Fin 8 → Word
  frames : List Byte

/-- A state of the ARM machine. -/
structure ArmMachine where
  cpu : Cpu
  /-- Physical memory: page tables, kernel stacks and user slots. -/
  mem : Memory
  /-- The `ctx` part of the PCBs. -/
  ctx : Pid → ProcContext
  /-- What the C code of a process that waits in `context_switch` relies on. -/
  frames : Pid → Option Frames
  /-- How often C code has run. -/
  time : ℕ

/-- What the compiler decides, for every run of C code. -/
structure CompiledC where
  /-- The stack space in use when `context_switch` is called. -/
  depth : ℕ → ℕ
  /-- `r4` to `r11` at that moment. -/
  callee : ℕ → Fin 8 → Word
  /-- What the code leaves in the stack space it has used. -/
  stack : ℕ → Memory
  /-- The kernel stack is not overflowed: there is room for an exception frame, the C frames
  and the frame of `context_switch`. -/
  depth_le : ∀ t, 64 + depth t + 36 ≤ 8192

/-- Compiled code with 200 bytes of zeroed stack frames. -/
def CompiledC.zeroed : CompiledC where
  depth := fun _ => 200
  callee := fun _ _ => 0#32
  stack := fun _ _ => 0#8
  depth_le := fun _ => by decide

/-- The CPSR of the kernel: SVC mode with interrupts masked.  The flags are not modelled. -/
def svcMode : Word := 0x93#32

/-- The CPU with all registers cleared. -/
def Cpu.zero : Cpu :=
  ⟨fun _ => 0#32, 0#32, 0#32, 0#32, 0#32, 0#32, 0#32, 0#32, 0#32, 0#32, 0#32, 0#32, 0#32, 0#32,
    0#32, 0#32, 0#32⟩

namespace Cpu

/-- Any mode but USR. -/
def privileged (cpu : Cpu) : Bool := cpu.cpsr &&& 0x1F#32 ≠ 0x10#32

/-- The registers that user code sees. -/
def userRegs (cpu : Cpu) : UserRegs := ⟨cpu.r, cpu.spUsr, cpu.lrUsr, cpu.pc, cpu.cpsr⟩

/-- Replace the registers that user code sees. -/
def setUserRegs (cpu : Cpu) (u : UserRegs) : Cpu :=
  { cpu with r := u.r, spUsr := u.sp, lrUsr := u.lr, pc := u.pc, cpsr := u.cpsr }

end Cpu

/-! ### Exception entries -/

/-- The stack pointer after `stmfd sp!` of some words. -/
def below (sp : Word) (ws : List Word) : Word := sp - BitVec.ofNat 32 (4 * ws.length)

/-- The memory after `stmfd sp!` of some words, the first one lowest. -/
def stmfd (b : Board) (m : Memory) (sp : Word) (ws : List Word) : Memory :=
  m.storeWords (b.pa (below sp ws)) ws

/-- `{r0-r12, lr}`. -/
def gprsAnd (r : Fin 13 → Word) (lr : Word) : List Word := List.ofFn r ++ [lr]

namespace ArmMachine

variable (b : Board) (a : ArmMachine)

/-- `exception_entry_irq`. -/
def exceptionEntryIrq : ArmMachine :=
  -- LR_irq = PC + 4, and `sub lr, lr, #4`
  let lr := a.cpu.pc + 4#32 - 4#32
  let spsr := a.cpu.cpsr
  -- `srsdb sp!, #0x13`
  let mem := stmfd b a.mem a.cpu.spSvc [lr, spsr]
  let sp := below a.cpu.spSvc [lr, spsr]
  -- `cps #0x13`, `stmfd sp!, {r0-r12, lr}`
  let regs := gprsAnd a.cpu.r a.cpu.lrSvc
  { a with
    cpu := { a.cpu with cpsr := svcMode, spSvc := below sp regs, lrIrq := lr, spsrIrq := spsr }
    mem := stmfd b mem sp regs }

/-- `exception_entry_svc`. -/
def exceptionEntrySvc : ArmMachine :=
  let lr := a.cpu.pc + svcSize a.cpu.cpsr
  let spsr := a.cpu.cpsr
  let regs := gprsAnd a.cpu.r lr
  let mem := stmfd b a.mem a.cpu.spSvc regs
  let sp := below a.cpu.spSvc regs
  { a with
    cpu := { a.cpu with cpsr := svcMode, spSvc := below sp [spsr], lrSvc := lr, spsrSvc := spsr }
    mem := stmfd b mem sp [spsr] }

/-- `exception_entry_dabort` and `exception_entry_pabort`: LR_abt is the PC plus an offset,
which the entry subtracts. -/
def exceptionEntryAbort (offset : Word) : ArmMachine :=
  let lr := a.cpu.pc + offset - offset
  let spsr := a.cpu.cpsr
  let regs := gprsAnd a.cpu.r lr
  let mem := stmfd b a.mem a.cpu.spAbt regs
  let sp := below a.cpu.spAbt regs
  { a with
    cpu := { a.cpu with cpsr := svcMode, spAbt := below sp [spsr], lrAbt := lr, spsrAbt := spsr }
    mem := stmfd b mem sp [spsr] }

/-- `exception_entry_undef`: LR_und is the address of the next instruction. -/
def exceptionEntryUndef : ArmMachine :=
  let lr := a.cpu.pc + svcSize a.cpu.cpsr - 4#32
  let spsr := a.cpu.cpsr
  let regs := gprsAnd a.cpu.r lr
  let mem := stmfd b a.mem a.cpu.spUnd regs
  let sp := below a.cpu.spUnd regs
  { a with
    cpu := { a.cpu with cpsr := svcMode, spUnd := below sp [spsr], lrUnd := lr, spsrUnd := spsr }
    mem := stmfd b mem sp [spsr] }

/-- The exception entries, up to the call of the C handler. -/
def enter : Exn → ArmMachine
  | .irq => a.exceptionEntryIrq b
  | .svc => a.exceptionEntrySvc b
  | .dataAbort => a.exceptionEntryAbort b 8#32
  | .prefetchAbort => a.exceptionEntryAbort b 4#32
  | .undefined => a.exceptionEntryUndef b

/-- The `exception_context_t` at an address. -/
def contextAt (m : Memory) (addr : ℕ) : ExceptionContext :=
  ⟨m.load32 addr, fun i => m.load32 (addr + 4 + 4 * i), m.load32 (addr + 56)⟩

/-- The stack pointer that an entry passes to its handler in `r0`; `handle_irq` has no
argument. -/
def contextPtr : Exn → Word
  | .dataAbort => a.cpu.spAbt
  | .prefetchAbort => a.cpu.spAbt
  | .undefined => a.cpu.spUnd
  | _ => a.cpu.spSvc

/-! ### Exception exits -/

/-- The stack of a process below a stack pointer, in physical memory: free for C code. -/
def freeStack {b : Board} (L : Layout b) (p : Pid) (sp : Word) : Region :=
  ⟨(L.stack p).base, b.pa sp - (L.stack p).base⟩

/-- C code of process `p` has run on its kernel stack, below the stack pointer. -/
def ranC {b : Board} (L : Layout b) (cc : CompiledC) (a : ArmMachine) (p : Pid) : ArmMachine :=
  { a with
    mem := a.mem.overwrite (freeStack L p a.cpu.spSvc) (cc.stack a.time)
    time := a.time + 1 }

@[simp] lemma cpu_ranC {b : Board} (L : Layout b) (cc : CompiledC) (a : ArmMachine) (p : Pid) :
    (a.ranC L cc p).cpu = a.cpu := by
  rw [ranC]

@[simp] lemma ctx_ranC {b : Board} (L : Layout b) (cc : CompiledC) (a : ArmMachine) (p : Pid) :
    (a.ranC L cc p).ctx = a.ctx := by
  rw [ranC]

@[simp] lemma frames_ranC {b : Board} (L : Layout b) (cc : CompiledC) (a : ArmMachine) (p : Pid) :
    (a.ranC L cc p).frames = a.frames := by
  rw [ranC]

/-- `ldmfd sp!, {r0-r12, lr}` and `rfefd sp!`: the end of `exception_entry_irq`, and
`ret_from_first_entry`. -/
def exitIrq : ArmMachine :=
  let addr := b.pa a.cpu.spSvc
  { a with cpu := { a.cpu with
      r := fun i => a.mem.load32 (addr + 4 * i)
      lrSvc := a.mem.load32 (addr + 52)
      pc := a.mem.load32 (addr + 56)
      cpsr := a.mem.load32 (addr + 60)
      spSvc := a.cpu.spSvc + 64#32 } }

/-- The end of `exception_entry_svc`. -/
def exitSvc : ArmMachine :=
  let addr := b.pa a.cpu.spSvc
  -- `ldmfd sp!, {r0}`, `msr spsr_cxsf, r0`
  let spsr := a.mem.load32 addr
  -- `ldmfd sp!, {r0-r12, pc}^`
  { a with cpu := { a.cpu with
      r := fun i => a.mem.load32 (addr + 4 + 4 * i)
      pc := a.mem.load32 (addr + 56)
      cpsr := spsr
      spsrSvc := spsr
      spSvc := a.cpu.spSvc + 60#32 } }

/-! ### `context_switch` -/

/-- The second half of `context_switch`, from `.Lload_next` on, up to the point where
control is back in C code or at `ret_from_first_entry`. -/
def loadNext {b : Board} (L : Layout b) (k : Kernel numProcesses) (a : ArmMachine) (next : Pid) :
    Option (ArmMachine × Cont) :=
  let ctx := a.ctx next
  let addr := b.pa ctx.spSvc
  -- `pop {r4-r11, lr}`
  let callee : Fin 8 → Word := fun i => a.mem.load32 (addr + 4 * i)
  let lr := a.mem.load32 (addr + 32)
  let sp := ctx.spSvc + 36#32
  let cpu := { a.cpu with
    ttbr0 := ttbr0For (k.processes next).pgdPa
    spUsr := ctx.spUsr
    lrUsr := ctx.lrUsr
    r := fun i => if h : 4 ≤ i.val ∧ i.val < 12 then callee ⟨i - 4, by omega⟩ else a.cpu.r i
    lrSvc := lr
    spSvc := sp }
  -- `bx lr`
  if lr = L.retFromFirstEntry then some ({ a with cpu := cpu }, .firstEntry)
  else if lr = L.switchReturn then
    match a.frames next with
    | none => none
    | some f =>
      if sp = f.sp ∧ (∀ i, callee i = f.callee i) ∧
          a.mem.bytes (b.pa sp) f.frames.length = f.frames then
        -- the C functions return one after the other, up to the handler's caller
        some ({ a with cpu := { cpu with spSvc := sp + BitVec.ofNat 32 f.frames.length } }, f.cont)
      else none
  else none

/-- The first half of `context_switch`, as called from C code of process `prev`. -/
def savePrev {b : Board} (L : Layout b) (cc : CompiledC) (a : ArmMachine) (prev : Pid)
    (site : Cont) : ArmMachine :=
  let callee := cc.callee a.time
  let sp := a.cpu.spSvc - BitVec.ofNat 32 (cc.depth a.time)
  let ran := a.ranC L cc prev
  -- `push {r4-r11, lr}`
  let regs := List.ofFn callee ++ [L.switchReturn]
  { ran with
    mem := stmfd b ran.mem sp regs
    ctx := Function.update a.ctx prev { a.ctx prev with
      spSvc := below sp regs, spUsr := a.cpu.spUsr, lrUsr := a.cpu.lrUsr }
    frames := Function.update a.frames prev
      (some ⟨site, sp, callee, ran.mem.bytes (b.pa sp) (cc.depth a.time)⟩) }

/-- `context_switch`. -/
def contextSwitch {b : Board} (L : Layout b) (cc : CompiledC) (k : Kernel numProcesses)
    (a : ArmMachine) (prev next : Pid) (site : Cont) : Option (ArmMachine × Cont) :=
  loadNext L k (savePrev L cc a prev site) next

end ArmMachine

open ArmMachine in
/-- The ARM machine as an implementation of the interface.  A user access is translated with
the rights of the CPU's mode. -/
def armArch {b : Board} (L : Layout b) (cc : CompiledC) : Arch ArmMachine where
  exec a _ f :=
    if (f a.cpu.userRegs).cpsr &&& privBits = a.cpu.userRegs.cpsr &&& privBits then
      some { a with cpu := a.cpu.setUserRegs (f a.cpu.userRegs) }
    else none
  uload a _ va rd :=
    (translate a.mem a.cpu.ttbr0 va a.cpu.privileged false).map fun pa =>
      { a with cpu := { a.cpu with r := Function.update a.cpu.r rd ((a.mem pa).setWidth 32) } }
  ustore a _ va ch :=
    (translate a.mem a.cpu.ttbr0 va a.cpu.privileged true).map fun pa =>
      { a with mem := a.mem.store8 pa ch }
  enter a _ x := a.enter b x
  ctx a _ x := contextAt a.mem (b.pa (a.contextPtr x))
  setRet a _ v := { a with mem := a.mem.store32 (b.pa a.cpu.spSvc + 4) v }
  kload a _ va := (translate a.mem a.cpu.ttbr0 va a.cpu.privileged false).map a.mem
  kstore a _ va ch :=
    (translate a.mem a.cpu.ttbr0 va a.cpu.privileged true).map fun pa =>
      { a with mem := a.mem.store8 pa ch }
  leave a c
    | .first => a.exitIrq b
    | .irq => (a.ranC L cc c).exitIrq b
    | .svc => (a.ranC L cc c).exitSvc b
  switch k a prev next site := contextSwitch L cc k a prev next site

/-! ### Boot -/

/-- Write a page table to memory. -/
def Memory.storeTable (m : Memory) (base : ℕ) (t : Table) : Memory :=
  m.storeWords base ((List.range pgdEntries).map t)

/-- `kmemset`, on an address of the kernel. -/
def kmemset (b : Board) (m : Memory) (dst : Word) (v : Byte) (n : Word) : Memory :=
  (List.range n.toNat).foldl (fun m i => m.store8 (b.pa (dst + BitVec.ofNat 32 i)) v) m

/-- `kmemcpy`, on addresses of the kernel. -/
def kmemcpy (b : Board) (m : Memory) (dst src n : Word) : Memory :=
  (List.range n.toNat).foldl
    (fun m i => m.store8 (b.pa (dst + BitVec.ofNat 32 i)) (m (b.pa (src + BitVec.ofNat 32 i)))) m

/-- The frame of `process_build_initial_frame`: for `context_switch`, which returns to `ret`, and
for `ret_from_first_entry`, which returns to `entry`. -/
def frameWords (ret entry : Word) : List Word :=
  List.replicate 8 0#32 ++ [ret] ++ (List.replicate 13 0#32 ++ [0#32, entry, 0x10#32])

section Boot

variable {b : Board} (L : Layout b)

/-- The user image is copied to its slot, which is reached through the high alias. -/
def loadImage (m : Memory) (p : Pid) : Memory :=
  let userVa := b.slotBase p + b.physOffset
  let m := kmemset b m userVa 0#8 userRegionSize
  kmemcpy b m userVa (L.imgStart p) (L.imgEnd p - L.imgStart p)

/-- The words that `process_build_initial_frame` writes. -/
def initialFrame : List Word := frameWords L.retFromFirstEntry userVirtBase

/-- `p->ctx` after `process_build_initial_frame`. -/
def initialContext (p : Pid) : ProcContext :=
  ⟨L.kstackTop p - 100#32, 0#32, 0x10#32, userStackTop, 0#32⟩

/-- What `process_init_all` does to memory for one process. -/
def initProcess (m : Memory) (p : Pid) : Memory :=
  let m := loadImage L m p
  let m := m.storeTable (L.table p).base
    (pgtableBuildForProc b (Table.ofMemory m L.bootTable.base)
      (Table.ofMemory m (L.table p).base) (b.slotBase p))
  m.storeWords (b.pa (L.kstackTop p - 100#32)) (initialFrame L)

/-- Memory when `process_first_run` is called: `mmu_init` has built the boot table in
zeroed memory, `process_init_all` the processes, and `mmu_drop_identity` has removed the
identity map. -/
def bootMemory (m : Memory) : Memory :=
  let m := m.storeTable L.bootTable.base (mmuBuildBootPgd b fun _ => 0#32)
  let m := (List.finRange numProcesses).foldl (initProcess L) m
  m.storeTable L.bootTable.base (mmuDropIdentity b (Table.ofMemory m L.bootTable.base))

/-- The machine when `process_first_run` is called, with its memory and registers; `start.S`
has set the stack pointers of the abort and undefined modes. -/
def bootMachine (m : Memory) (cpu : Cpu) : ArmMachine where
  cpu := { cpu with spAbt := L.abtStackTop, spUnd := L.undStackTop, cpsr := svcMode }
  mem := m
  ctx := initialContext L
  frames := fun _ => none
  time := 0

/-- `process_first_run`: `context_switch` without its first half. -/
def processFirstRun (cc : CompiledC) (k : Kernel numProcesses) (a : ArmMachine) (first : Pid) :
    Sys ArmMachine :=
  match ArmMachine.loadNext L k a first with
  | some (a', cont) => resume (armArch L cc) k a' first cont
  | none => ⟨k, a, .wild⟩

/-- The system at the first user instruction, after a boot on any memory and registers. -/
def armSys (cc : CompiledC) (m : Memory) (cpu : Cpu) : Sys ArmMachine :=
  processFirstRun L cc (bootKernel L) (bootMachine L (bootMemory L m) cpu) 0

end Boot

end RingNova
