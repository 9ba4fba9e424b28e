/-
# From reset to `kmain`

`start.S` and `mmu_enable.S`, instruction by instruction.  The kernel is linked at the high alias
of RAM but starts at physical addresses with the MMU off; `_start` finds out how far the two are
apart, clears `.bss`, and has `mmu_init` build the boot table and turn the MMU on.  The
instruction behind the write to SCTLR is fetched through the identity map, and so is everything
up to the jump to `_start_va`.

`mmu_init` is C code around the call of `mmu_enable`: it may leave anything in the registers that
a C function need not keep and on its part of the stack (`InitAbi`).  It continues behind the
call if `mmu_enable` has kept the AAPCS and the MMU still translates its code and its stack to
themselves.
-/
import RingNova.Arm.Execution

namespace RingNova.Isa

/-! ### Listings -/

/-- `_start` to `.Lhalt`, with the addresses of its literal pool. -/
def startCode {b : Board} (L : Layout b) (start fiqStackTop irqStackTop svcStackTop bssStart bssEnd
    mmuInit kmain : Word) : List Instr :=
  [.b .al 4#32,
    -- _reset
    .cpsid 0xC0#32,
    .adr (.r 0) (-8#32),
    .ldrLit (.r 4) start,
    .subReg (.r 4) (.r 4) (.r 0),
    .cps 0x13#32,
    .ldrLit (.r 1) svcStackTop,
    .subReg .sp (.r 1) (.r 4),
    .ldrLit (.r 1) bssStart,
    .ldrLit (.r 2) bssEnd,
    .subReg (.r 1) (.r 1) (.r 4),
    .subReg (.r 2) (.r 2) (.r 4),
    .mov (.r 3) 0#32,
    -- .Lzero_bss
    .cmpReg (.r 1) (.r 2),
    .strPost .lo (.r 3) (.r 1) 4#32,
    .b .lo (-8#32),
    .movReg (.r 0) (.r 4),
    .bl (mmuInit - (start + 68#32)),
    .ldrPc (start + 76#32),
    -- _start_va
    .cps 0x11#32,
    .ldrLit .sp fiqStackTop,
    .cps 0x12#32,
    .ldrLit .sp irqStackTop,
    .cps 0x17#32,
    .ldrLit .sp L.abtStackTop,
    .cps 0x1B#32,
    .ldrLit .sp L.undStackTop,
    .cps 0x13#32,
    .ldrLit .sp svcStackTop,
    .bl (kmain - (start + 116#32)),
    -- .Lhalt
    .wfi,
    .b .al (-4#32)]

/-- `mmu_enable`, up to the last instruction that runs with the MMU off. -/
def beforeSctlr : List Instr :=
  [.dsb,
    .mov (.r 1) 0#32,
    .mcr (.r 1) .iciallu,
    .dsb,
    .isb,
    .orr (.r 0) (.r 0) 0x4A#32,
    .mcr (.r 0) .ttbr0,
    .mov (.r 1) 0#32,
    .mcr (.r 1) .ttbcr,
    .mov (.r 1) 1#32,
    .mcr (.r 1) .dacr,
    .mov (.r 1) 0#32,
    .mcr (.r 1) .tlbiall,
    .dsb,
    .isb,
    .mrc (.r 1) .sctlr,
    .orr (.r 1) (.r 1) 0x1#32,
    .orr (.r 1) (.r 1) 0x4#32,
    .orr (.r 1) (.r 1) 0x800#32,
    .orr (.r 1) (.r 1) 0x1000#32]

/-- `mmu_enable`. -/
def mmuEnableCode : List Instr := beforeSctlr ++ [.mcr (.r 1) .sctlr, .isb, .bx .lr]

/-- Where the linker has put the boot code, `.bss` and the stacks that only `start.S` uses. -/
structure BootText {b : Board} {L : Layout b} (T : Text L) where
  /-- `_fiq_stack_top`. -/
  fiqStackTop : Word
  /-- `_irq_stack_top`. -/
  irqStackTop : Word
  /-- `_svc_stack_top`. -/
  svcStackTop : Word
  /-- `_bss_start`. -/
  bssStart : Word
  /-- `_bss_end`. -/
  bssEnd : Word
  /-- `mmu_init`. -/
  mmuInit : Word
  /-- Behind the call of `mmu_enable` in `mmu_init`. -/
  enabled : Word
  /-- `mmu_enable`. -/
  mmuEnable : Word
  /-- `kmain`. -/
  kmain : Word
  start_placed : Placed b T.code T.start
    (startCode L T.start fiqStackTop irqStackTop svcStackTop bssStart bssEnd mmuInit kmain)
  mmuEnable_placed : Placed b T.code mmuEnable mmuEnableCode
  enabled_placed : enabled &&& 3#32 = 0#32 ∧ b.ram.Mem (b.pa enabled)
  bss_aligned : bssStart.toNat % 4 = 0 ∧ bssEnd.toNat % 4 = 0
  bss_le : b.pa bssStart ≤ b.pa bssEnd
  bss_in_ram : Region.Within ⟨b.pa bssStart, b.pa bssEnd - b.pa bssStart⟩ b.ram
  /-- `boot_pgd` is in `.bss`. -/
  bootTable_in_bss : Region.Within L.bootTable ⟨b.pa bssStart, b.pa bssEnd - b.pa bssStart⟩
  svcStack_in_ram : Region.Within ⟨b.pa svcStackTop - 8192, 8192⟩ b.ram
  /-- The stacks are behind `.bss`. -/
  svcStack_apart : Region.Apart ⟨b.pa bssStart, b.pa bssEnd - b.pa bssStart⟩
    ⟨b.pa svcStackTop - 8192, 8192⟩

namespace BootText

variable {b : Board} {L : Layout b} {T : Text L} (R : BootText T)

/-- `.bss`, in physical memory. -/
def bss : Region := ⟨b.pa R.bssStart, b.pa R.bssEnd - b.pa R.bssStart⟩

/-- The SVC stack that `kmain` runs on. -/
def svcStack : Region := ⟨b.pa R.svcStackTop - 8192, 8192⟩

end BootText

/-! ### `mmu_init` -/

/-- What the compiler has made of `mmu_init`. -/
structure InitAbi where
  /-- How much stack it uses. -/
  depth : ℕ
  /-- The registers, the flags and its part of the stack when it calls `mmu_enable`. -/
  callRegs : Fin 13 → Word
  callFlags : Word
  callStack : Memory
  /-- What it leaves when it returns. -/
  regs : Fin 13 → Word
  flags : Word
  stack : Memory
  link : Word
  depth_le : depth ≤ 8192

/-- A function that leaves zeros. -/
def InitAbi.zeroed : InitAbi :=
  ⟨0, fun _ => 0#32, 0#32, fun _ => 0#8, fun _ => 0#32, 0#32, fun _ => 0#8, 0#32, Nat.zero_le _⟩

section

variable {b : Board} {L : Layout b} {T : Text L} (R : BootText T) (cc : InitAbi)
  (hw : ℕ → Tlb.Refill)

/-- The stack pointer below the part of the stack that `mmu_init` uses. -/
def initSp (s : St Mmu) : Word := s.core.sp .svc - BitVec.ofNat 32 cc.depth

/-- That part of the stack. -/
def initStack (s : St Mmu) : Region := ⟨(initSp cc s).toNat, cc.depth⟩

/-- `mmu_init` has built the boot table through the physical address of `boot_pgd`, and calls
`mmu_enable`. -/
def callEnable (s : St Mmu) : St Mmu :=
  let pgdPa := L.bootPgd - s.core.r 0
  let mem := s.sys.mem.overwrite (initStack cc s) cc.callStack
  { core :=
      { s.core with
        r := Function.update cc.callRegs 0 pgdPa
        sp := Function.update s.core.sp .svc (initSp cc s)
        lr := Function.update s.core.lr .svc (s.core.pc + (R.enabled - R.mmuInit))
        cpsr := withFlags s.core.cpsr cc.callFlags
        pc := s.core.pc + (R.mmuEnable - R.mmuInit) }
    sys :=
      { s.sys with
        mem := mem.storeTable pgdPa.toNat
          (mmuBuildBootPgd b (Table.ofMemory mem pgdPa.toNat)) } }

/-- `mmu_enable` has returned, and `mmu_init` can run to its end. -/
structure Enabled (s call ret : St Mmu) : Prop where
  pc : ret.core.pc = call.core.lr .svc
  mode : ret.core.cpsr &&& 0x1F#32 = 0x13#32
  sp : ret.core.sp .svc = initSp cc s
  callee : ∀ i : Fin 13, 4 ≤ i.val → i.val < 12 → ret.core.r i = call.core.r i
  code : ret.sys.translate ret.core.pc true .fetch = some ret.core.pc.toNat
  stack : ∀ i < cc.depth, ret.sys.translate (initSp cc s + BitVec.ofNat 32 i) true .write =
    some ((initSp cc s).toNat + i)

instance (s call ret : St Mmu) : Decidable (Enabled cc s call ret) :=
  decidable_of_iff (ret.core.pc = call.core.lr .svc ∧ ret.core.cpsr &&& 0x1F#32 = 0x13#32 ∧
      ret.core.sp .svc = initSp cc s ∧
      (∀ i : Fin 13, 4 ≤ i.val → i.val < 12 → ret.core.r i = call.core.r i) ∧
      ret.sys.translate ret.core.pc true .fetch = some ret.core.pc.toNat ∧
      ∀ i < cc.depth, ret.sys.translate (initSp cc s + BitVec.ofNat 32 i) true .write =
        some ((initSp cc s).toNat + i))
    ⟨fun ⟨h1, h2, h3, h4, h5, h6⟩ => ⟨h1, h2, h3, h4, h5, h6⟩,
      fun h => ⟨h.pc, h.mode, h.sp, h.callee, h.code, h.stack⟩⟩

/-- `mmu_init` returns. -/
def initReturn (s ret : St Mmu) : St Mmu where
  core :=
    { ret.core with
      r := fun i => if 4 ≤ i.val ∧ i.val < 12 then s.core.r i else cc.regs i
      sp := Function.update ret.core.sp .svc (s.core.sp .svc)
      lr := Function.update ret.core.lr .svc cc.link
      cpsr := withFlags ret.core.cpsr cc.flags
      pc := s.core.lr .svc }
  sys := { ret.sys.refill hw with mem := ret.sys.mem.overwrite (initStack cc s) cc.stack }

/-- `mmu_init`, called at its physical address with the MMU off. -/
def mmuInit (s : St Mmu) : Option (St Mmu) :=
  if s.core.pc = R.mmuInit - b.physOffset ∧ s.core.cpsr &&& 0x1F#32 = 0x13#32 ∧
      s.sys.on = false then do
    let ret ← run (mmuBus T.code hw) mmuEnableCode.length (callEnable R cc s)
    if Enabled cc s (callEnable R cc s) ret then some (initReturn cc hw s ret) else none
  else none

/-- The machine gets from one state to another, through `mmu_init`. -/
def Boots (s s' : St Mmu) : Prop :=
  ∃ s₁ s₂, Leads (mmuBus T.code hw) s s₁ ∧ mmuInit R cc hw s₁ = some s₂ ∧
    Leads (mmuBus T.code hw) s₂ s'

end

/-! ### Reset and `kmain` -/

section

variable {b : Board} {L : Layout b} {T : Text L}

/-- The bootloader has jumped to `_start`: with privilege, in ARM state, with the MMU off, and
anything in the registers, in memory and in the TLB. -/
structure AtReset (T : Text L) (s : St Mmu) : Prop where
  pc : s.core.pc = T.start - b.physOffset
  priv : privileged s.core.cpsr = true
  arm : s.core.cpsr.getLsbD 5 = false
  off : s.sys.on = false

/-- The boot table. -/
def bootTable (b : Board) : Table := mmuBuildBootPgd b fun _ => 0#32

/-- `kmain` has been called, after a start in some state. -/
structure AtKmain (R : BootText T) (s s' : St Mmu) : Prop where
  /-- At the high alias, with a return address there. -/
  pc : s'.core.pc = R.kmain
  lr : s'.core.lr .svc = T.start + 120#32
  /-- In SVC mode, with IRQ and FIQ masked. -/
  mode : KernelMode s'.core.cpsr
  fiq : s'.core.cpsr.getLsbD 6 = true
  /-- Every mode has its stack. -/
  sp : s'.core.sp .fiq = R.fiqStackTop ∧ s'.core.sp .irq = R.irqStackTop ∧
    s'.core.sp .abt = L.abtStackTop ∧ s'.core.sp .und = L.undStackTop ∧
    s'.core.sp .svc = R.svcStackTop
  /-- The MMU is on, with the boot table. -/
  sctlr : s'.sys.sctlr = s.sys.sctlr ||| 0x1805#32
  ttbr0 : s'.sys.ttbr0 = ttbr0For (L.bootPgd - b.physOffset)
  ttbcr : s'.sys.ttbcr = 0#32
  dacr : s'.sys.dacr = 1#32
  vbar : s'.sys.vbar = s.sys.vbar
  table : ∀ i < pgdEntries, s'.sys.table i = bootTable b i
  /-- Nothing that the bootloader has left in the TLB is used. -/
  tlb : Tlb.Coherent (· < pgdEntries) s'.sys.tlb s'.sys.table
  /-- The rest of `.bss` is zero... -/
  bss : ∀ a, R.bss.Mem a → ¬ L.bootTable.Mem a → s'.sys.mem a = 0#8
  /-- ...and only `.bss` and the stack have been written. -/
  frame : ∀ a, ¬ R.bss.Mem a → ¬ R.svcStack.Mem a → s'.sys.mem a = s.sys.mem a

end

/-! ### One way to place the code on the QEMU board -/

/-- Some listings, at their addresses. -/
def listings (b : Board) (segs : List (Word × List Instr)) (a : ℕ) : Option Instr :=
  segs.findSome? fun s => if b.pa s.1 ≤ a then s.2[(a - b.pa s.1) / 4]? else none

/-- The exception entries, one behind the other. -/
def qemuEntry : Exn → Word
  | .undefined => 0xC0100400#32
  | .svc => 0xC0100440#32
  | .prefetchAbort => 0xC0100480#32
  | .dataAbort => 0xC01004C0#32
  | .irq => 0xC0100500#32

/-- The C handlers. -/
def qemuHandler : Exn → Word
  | .undefined => 0xC0101000#32
  | .svc => 0xC0101100#32
  | .prefetchAbort => 0xC0101200#32
  | .dataAbort => 0xC0101300#32
  | .irq => 0xC0101400#32

/-- The code of an entry that calls its handler. -/
def qemuEntryCode (x : Exn) : List Instr :=
  entryCode x (qemuHandler x - callSite qemuEntry x) ++ exitCode x

/-- `start.S`. -/
def qemuStartCode : List Instr :=
  startCode qemuLayout 0xC0100000#32 0xC0158200#32 0xC0158600#32 0xC015A600#32 0xC013F000#32
    0xC0156000#32 0xC0100700#32 0xC0100800#32

/-- All of the assembly. -/
def qemuCode : ℕ → Option Instr :=
  listings .qemu
    [(0xC0100000#32, qemuStartCode),
      (0xC0100080#32, vectorTable 0xC0100000#32 0xC0100540#32 qemuEntry),
      (0xC0100100#32, retFromFirstEntryCode),
      (0xC0100300#32, contextSwitchCode),
      (qemuEntry .undefined, qemuEntryCode .undefined),
      (qemuEntry .svc, qemuEntryCode .svc),
      (qemuEntry .prefetchAbort, qemuEntryCode .prefetchAbort),
      (qemuEntry .dataAbort, qemuEntryCode .dataAbort),
      (qemuEntry .irq, qemuEntryCode .irq),
      (0xC0100600#32, mmuEnableCode)]

lemma qemu_vectors_placed :
    Placed .qemu qemuCode 0xC0100080#32 (vectorTable 0xC0100000#32 0xC0100540#32 qemuEntry) := by
  repeat' first | exact trivial | refine ⟨⟨by decide, by decide, rfl⟩, ?_⟩

lemma qemu_entry_placed (x : Exn) : Placed .qemu qemuCode (qemuEntry x) (qemuEntryCode x) := by
  cases x <;> repeat' first | exact trivial | refine ⟨⟨by decide, by decide, rfl⟩, ?_⟩

lemma qemu_contextSwitch_placed : Placed .qemu qemuCode 0xC0100300#32 contextSwitchCode := by
  repeat' first | exact trivial | refine ⟨⟨by decide, by decide, rfl⟩, ?_⟩

lemma qemu_first_placed : Placed .qemu qemuCode 0xC0100100#32 retFromFirstEntryCode := by
  repeat' first | exact trivial | refine ⟨⟨by decide, by decide, rfl⟩, ?_⟩

lemma qemu_start_placed : Placed .qemu qemuCode 0xC0100000#32 qemuStartCode := by
  repeat' first | exact trivial | refine ⟨⟨by decide, by decide, rfl⟩, ?_⟩

lemma qemu_mmuEnable_placed : Placed .qemu qemuCode 0xC0100600#32 mmuEnableCode := by
  repeat' first | exact trivial | refine ⟨⟨by decide, by decide, rfl⟩, ?_⟩

/-- The code and the PCBs. -/
def qemuText : Text qemuLayout where
  code := qemuCode
  vectors := 0xC0100080#32
  start := 0xC0100000#32
  entryFiq := 0xC0100540#32
  entry := qemuEntry
  handler := qemuHandler
  contextSwitch := 0xC0100300#32
  processes := 0xC013F000#32
  vectors_placed := qemu_vectors_placed
  entry_placed := qemu_entry_placed
  contextSwitch_placed := qemu_contextSwitch_placed
  first_placed := qemu_first_placed
  switchReturn_aligned := by decide
  stacks_aligned := by decide
  processes_aligned := by decide
  pcbs_in_ram := by decide
  pcbs_apart := by decide

/-- The boot code. -/
def qemuBoot : BootText qemuText where
  fiqStackTop := 0xC0158200#32
  irqStackTop := 0xC0158600#32
  svcStackTop := 0xC015A600#32
  bssStart := 0xC013F000#32
  bssEnd := 0xC0156000#32
  mmuInit := 0xC0100700#32
  enabled := 0xC0100740#32
  mmuEnable := 0xC0100600#32
  kmain := 0xC0100800#32
  start_placed := qemu_start_placed
  mmuEnable_placed := qemu_mmuEnable_placed
  enabled_placed := by decide
  bss_aligned := by decide
  bss_le := by decide
  bss_in_ram := by decide
  bootTable_in_bss := by decide
  svcStack_in_ram := by decide
  svcStack_apart := by decide

/-- The bootloader has left zeros, but for the program counter and SVC mode. -/
def qemuReset : St Mmu where
  core := ⟨fun _ => 0#32, fun _ => 0#32, fun _ => 0#32, fun _ => 0#32, 0x70100000#32, 0xD3#32⟩
  sys := ⟨fun _ => 0#8, fun _ => none, 0#32, 0#32, 0#32, 0#32, 0#32, 0⟩

lemma atReset_qemu : AtReset qemuText qemuReset :=
  ⟨by decide, by decide, by decide, by decide⟩

end RingNova.Isa
