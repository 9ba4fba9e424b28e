/-
# The assembly of the kernel in memory

The instructions of `vectors.S`, `exception_entry.S` and `context_switch.S`, and where they
stand.  A `Text` carries the addresses that the linker has given to the code and to the PCBs,
next to those of a `Layout`, with what the linker scripts guarantee: the code is in RAM, at
addresses that are multiples of four, and the PCBs do not overlap the other objects.

`context_switch` and `ret_from_first_entry` are the listings of `RingNova.Arm.Assembly`.
-/
import RingNova.Arm.AddressSpace
import RingNova.Arm.FirstEntry

namespace RingNova

/-- The offset of an exception's vector. -/
def Exn.vector : Exn → Word
  | undefined => 0x04#32
  | svc => 0x08#32
  | prefetchAbort => 0x0C#32
  | dataAbort => 0x10#32
  | irq => 0x18#32

/-- The mode that an exception is taken to. -/
def Exn.mode : Exn → Word
  | irq => 0x12#32
  | svc => 0x13#32
  | dataAbort => 0x17#32
  | prefetchAbort => 0x17#32
  | undefined => 0x1B#32

/-- The registers of that mode. -/
def Exn.bank : Exn → Isa.Bank
  | irq => .irq
  | svc => .svc
  | dataAbort => .abt
  | prefetchAbort => .abt
  | undefined => .und

/-- The stack that the entry of an exception pushes its frame on. -/
def Exn.stackBank : Exn → Isa.Bank
  | irq => .svc
  | svc => .svc
  | dataAbort => .abt
  | prefetchAbort => .abt
  | undefined => .und

/-- The size of that frame. -/
def Exn.frameBytes : Exn → ℕ
  | irq => 64
  | _ => 60

/-- What the link register of that mode is set to. -/
def Exn.link (x : Exn) (pc cpsr : Word) : Word :=
  match x with
  | irq => pc + 4#32
  | svc => pc + svcSize cpsr
  | dataAbort => pc + 8#32
  | prefetchAbort => pc + 4#32
  | undefined => pc + svcSize cpsr

/-- The interrupts that the CPU masks: `I`, and for some exceptions `A`. -/
def Exn.masks : Exn → Word
  | svc => 0x80#32
  | undefined => 0x80#32
  | _ => 0x180#32

/-- The addresses of all translation tables. -/
def Layout.tableBases {b : Board} (L : Layout b) : List ℕ :=
  L.bootTable.base :: (List.finRange numProcesses).map fun p => (L.table p).base

namespace Isa

/-! ### Listings -/

/-- `_vectors_start`, with the addresses of its literal pool. -/
def vectorTable (reset fiq : Word) (entry : Exn → Word) : List Instr :=
  [.ldrPc reset,
    .ldrPc (entry .undefined),
    .ldrPc (entry .svc),
    .ldrPc (entry .prefetchAbort),
    .ldrPc (entry .dataAbort),
    .nop,
    .ldrPc (entry .irq),
    .ldrPc fiq]

/-- The entry of a fault, which subtracts an offset from the return address and calls a C
handler at a distance. -/
def faultEntry (adjust call : Word) : List Instr :=
  [.sub .lr .lr adjust,
    .push (gprs ++ [.lr]),
    .mrsSpsr (.r 0),
    .push [.r 0],
    .movReg (.r 0) .sp,
    .cps 0x13#32,
    .bl call]

/-- `exception_entry_dabort`, up to its call. -/
def exceptionEntryDabort : Word → List Instr := faultEntry 8#32

/-- `exception_entry_pabort`, up to its call. -/
def exceptionEntryPabort : Word → List Instr := faultEntry 4#32

/-- `exception_entry_undef`, up to its call. -/
def exceptionEntryUndef : Word → List Instr := faultEntry 4#32

/-- `exception_entry_svc`, up to its call. -/
def exceptionEntrySvc (call : Word) : List Instr :=
  [.push (gprs ++ [.lr]),
    .mrsSpsr (.r 0),
    .push [.r 0],
    .movReg (.r 0) .sp,
    .bl call]

/-- `exception_entry_irq`, up to its call. -/
def exceptionEntryIrq (call : Word) : List Instr :=
  [.sub .lr .lr 4#32,
    .srsdb 0x13#32,
    .cps 0x13#32,
    .push (gprs ++ [.lr]),
    .bl call]

/-- `exception_entry_svc` after its call. -/
def exceptionExitSvc : List Instr :=
  [.pop [.r 0],
    .msrSpsr (.r 0),
    .popReturn gprs]

/-- `exception_entry_irq` after its call. -/
def exceptionExitIrq : List Instr :=
  [.pop (gprs ++ [.lr]),
    .rfefd]

/-- The code of an entry up to its call of the C handler. -/
def entryCode : Exn → Word → List Instr
  | .irq => exceptionEntryIrq
  | .svc => exceptionEntrySvc
  | .dataAbort => exceptionEntryDabort
  | .prefetchAbort => exceptionEntryPabort
  | .undefined => exceptionEntryUndef

/-- The code of an entry after its call; a fault handler does not return. -/
def exitCode : Exn → List Instr
  | .irq => exceptionExitIrq
  | .svc => exceptionExitSvc
  | _ => [.b .al 0#32]

/-- `ret_from_first_entry` drains its frame as the end of `exception_entry_irq` does. -/
lemma retFromFirstEntryCode_eq : retFromFirstEntryCode = exceptionExitIrq := rfl

/-! ### Exceptions -/

/-- The CPSR after an exception has been taken to ARM state: the new mode, interrupts masked, and
the state bits `J`, `IT`, `E` and `T` cleared. -/
def exceptionCpsr (x : Exn) (cpsr : Word) : Word :=
  withMode ((cpsr &&& ~~~0x0700FE3F#32) ||| x.masks) x.mode

/-- The CPU takes an exception. -/
def takeException (c : Core) (x : Exn) (vbar : Word) : Core :=
  { c with
    lr := Function.update c.lr x.bank (x.link c.pc c.cpsr)
    spsr := Function.update c.spsr x.bank c.cpsr
    cpsr := exceptionCpsr x c.cpsr
    pc := vbar + x.vector }

/-! ### Where the code stands -/

/-- Where an entry calls its handler from. -/
def callSite (entry : Exn → Word) (x : Exn) : Word :=
  entry x + BitVec.ofNat 32 (4 * ((entryCode x 0#32).length - 1))

/-- Some instructions stand at an address of the kernel's alias of RAM. -/
def Placed (b : Board) (code : ℕ → Option Instr) : Word → List Instr → Prop
  | _, [] => True
  | a, i :: is => (a &&& 3#32 = 0#32 ∧ b.ram.Mem (b.pa a) ∧ code (b.pa a) = some i) ∧
      Placed b code (a + 4#32) is

/-- The size of a `process_t`. -/
def sizeofProcess : ℕ := 4 * (ctxFields.length + procFields.length)

/-- Where the linker has put the code and the PCBs. -/
structure Text {b : Board} (L : Layout b) where
  /-- The instructions, by physical address. -/
  code : ℕ → Option Instr
  /-- `_vectors_start`. -/
  vectors : Word
  /-- `_start`. -/
  start : Word
  /-- `exception_entry_fiq`. -/
  entryFiq : Word
  /-- The other exception entries. -/
  entry : Exn → Word
  /-- The C handlers. -/
  handler : Exn → Word
  /-- `context_switch`. -/
  contextSwitch : Word
  /-- `processes`. -/
  processes : Word
  vectors_placed : Placed b code vectors (vectorTable start entryFiq entry)
  entry_placed : ∀ x, Placed b code (entry x)
    (entryCode x (handler x - callSite entry x) ++ exitCode x)
  contextSwitch_placed : Placed b code contextSwitch contextSwitchCode
  first_placed : Placed b code L.retFromFirstEntry retFromFirstEntryCode
  switchReturn_aligned : L.switchReturn &&& 3#32 = 0#32
  /-- The stacks are aligned to eight bytes. -/
  stacks_aligned : L.abtStackTop.toNat % 8 = 0 ∧ L.undStackTop.toNat % 8 = 0
  processes_aligned : processes.toNat % 4 = 0
  pcbs_in_ram : Region.Within ⟨b.pa processes, numProcesses * sizeofProcess⟩ b.ram
  pcbs_apart : ∀ R ∈ [b.slots, L.bootTable, L.tables, L.kstacks, L.abtStack, L.undStack],
    Region.Apart ⟨b.pa processes, numProcesses * sizeofProcess⟩ R

namespace Text

variable {b : Board} {L : Layout b} (T : Text L)

/-- Where a handler returns to. -/
def returnTo (x : Exn) : Word := callSite T.entry x + 4#32

/-- `&processes[p]`. -/
def pcb (p : Pid) : Word := T.processes + BitVec.ofNat 32 (p * sizeofProcess)

/-- All PCBs, in physical memory. -/
def pcbs : Region := ⟨b.pa T.processes, numProcesses * sizeofProcess⟩

/-- The objects that the assembly writes to. -/
def data : List Region := [L.kstacks, L.abtStack, L.undStack, T.pcbs]

/-- A word of these objects. -/
def Writable (a : ℕ) : Prop := ∃ R ∈ T.data, Region.Within ⟨a, 4⟩ R

instance (a : ℕ) : Decidable (T.Writable a) :=
  inferInstanceAs (Decidable (∃ R ∈ T.data, Region.Within ⟨a, 4⟩ R))
end Text

end Isa

end RingNova
