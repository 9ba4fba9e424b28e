/-
# The machine at the level of instructions, and the ARM machine

The machine of `RingNova.Arm.Execution` seen as an `ArmMachine`: the banked registers are those
of the core, and the `ctx` part of the PCBs is read from memory (`Machine.toArm`).  `IsaRel` says
that what is seen so represents the processes, that the memory system is as the kernel sees it
(`View`), and that the C handlers have been given the right argument.

The assembly of the kernel does to this machine what its summary does to the ARM machine, so
everything that was proved about the summaries carries over.
-/
import RingNova.Arm.Execution
import RingNova.Arm.Switch

namespace RingNova

/-! ### What the representation depends on -/

/-- The registers that matter in a phase. -/
structure SameCpu (ph : Phase) (cpu cpu' : Cpu) : Prop where
  ttbr0 : cpu'.ttbr0 = cpu.ttbr0
  spSvc : cpu'.spSvc = cpu.spSvc
  spAbt : cpu'.spAbt = cpu.spAbt
  spUnd : cpu'.spUnd = cpu.spUnd
  spUsr : cpu'.spUsr = cpu.spUsr
  lrUsr : cpu'.lrUsr = cpu.lrUsr
  cpsr : cpu'.cpsr = cpu.cpsr
  user : ph = .user → cpu'.r = cpu.r ∧ cpu'.pc = cpu.pc

/-- Two machines represent the same processes if they have these registers, the PCBs, and the
tables, slots and kernel stacks in common. -/
lemma ArmRel.congr {b : Board} {L : Layout b} {c : Pid} {ph : Phase} {a a' : ArmMachine}
    {m : ProcMachine} (h : ArmRel L c ph a m) (hcpu : SameCpu ph a.cpu a'.cpu)
    (hmem : Undisturbed L c a.mem a'.mem) (hstack : Memory.Agree (L.stack c) a.mem a'.mem)
    (hctx : a'.ctx = a.ctx) (hframes : a'.frames = a.frames) : ArmRel L c ph a' m where
  background := h.background.congr hmem (fun p _ => congrFun hctx p) (fun p _ => congrFun hframes p)
    rfl (fun _ _ => rfl) (h.background.mode c) (fun _ _ => rfl)
  ttbr0 := hcpu.ttbr0.trans h.ttbr0
  modeStacks := by
    obtain ⟨i, j, hi, hj, hij⟩ := h.modeStacks
    exact ⟨i, j, hcpu.spAbt.trans hi, hcpu.spUnd.trans hj, hij⟩
  spSvc := hcpu.spSvc.trans h.spSvc
  user := by
    intro hph
    obtain ⟨hr, hpc⟩ := hcpu.user hph
    rw [← h.user hph]
    exact UserRegs.ext hr hcpu.spUsr hcpu.lrUsr hpc hcpu.cpsr
  kernel := fun hph => hcpu.cpsr.trans (h.kernel hph)
  banked := by
    intro hph
    obtain ⟨hsp, hlr⟩ := h.banked hph
    exact ⟨hcpu.spUsr.trans hsp, hcpu.lrUsr.trans hlr⟩
  saved := h.saved.congr (hstack.mono (frame_within_stack L c ph))

namespace Isa

section

variable {b : Board} {L : Layout b} (T : Text L)

/-! ### The PCBs in memory -/

/-- A word of a PCB. -/
def pcbWord (mem : Memory) (p : Pid) (off : Word) : Word := mem.load32 (b.pa (T.pcb p + off))

/-- The `ctx` part of a PCB. -/
def procContext (mem : Memory) (p : Pid) : ProcContext where
  spSvc := pcbWord T mem p CtxField.spSvc.offset
  lrSvc := pcbWord T mem p CtxField.lrSvc.offset
  spsr := pcbWord T mem p CtxField.spsr.offset
  spUsr := pcbWord T mem p CtxField.spUsr.offset
  lrUsr := pcbWord T mem p CtxField.lrUsr.offset

/-- The CPSR without the flags that C code has left. -/
def kernelCpsr (psr : Word) : Word := if KernelMode psr then svcMode else psr

/-- The registers of the CPU. -/
def Core.toCpu (c : Core) (ttbr0 : Word) : Cpu where
  r := c.r
  pc := c.pc
  cpsr := kernelCpsr c.cpsr
  spUsr := c.sp .usr
  lrUsr := c.lr .usr
  spSvc := c.sp .svc
  lrSvc := c.lr .svc
  spsrSvc := c.spsr .svc
  lrIrq := c.lr .irq
  spsrIrq := c.spsr .irq
  spAbt := c.sp .abt
  lrAbt := c.lr .abt
  spsrAbt := c.spsr .abt
  spUnd := c.sp .und
  lrUnd := c.lr .und
  spsrUnd := c.spsr .und
  ttbr0 := ttbr0

/-- The machine, without the TLB and with the PCBs apart from memory. -/
def Machine.toArm (m : Machine) : ArmMachine where
  cpu := m.core.toCpu m.sys.ttbr0
  mem := m.sys.mem
  ctx := procContext T m.sys.mem
  frames := m.frames
  time := m.time

variable {T}

lemma pcb_addr (p : Pid) {k : ℕ} (hk : k ≤ sizeofProcess) :
    b.pa (T.pcb p + BitVec.ofNat 32 k) = b.pa T.processes + (p * sizeofProcess + k) := by
  have hp : p.val < 3 := p.isLt
  have hram := T.pcbs_in_ram
  have hlt := Layout.ram_lt b
  have hsize : sizeofProcess = 112 := rfl
  simp only [Region.Within, hsize] at hram hk ⊢
  rw [Text.pcb, BitVec.add_assoc, ← BitVec.ofNat_add, hsize, b.pa_add _ (by omega)]

/-- A PCB is among the PCBs. -/
lemma pcb_within (p : Pid) {k n : ℕ} (hk : k + n ≤ sizeofProcess) :
    Region.Within ⟨b.pa (T.pcb p + BitVec.ofNat 32 k), n⟩ T.pcbs := by
  have hp : p.val < 3 := p.isLt
  have hsize : sizeofProcess = 112 := rfl
  rw [pcb_addr p (by omega)]
  simp only [Region.Within, Text.pcbs, hsize] at hk ⊢
  omega

/-- A write elsewhere leaves the words of the PCBs. -/
lemma pcbWord_congr {mem mem' : Memory} (h : Memory.Agree T.pcbs mem mem') (p : Pid) {k : ℕ}
    (hk : k + 4 ≤ sizeofProcess) :
    pcbWord T mem' p (BitVec.ofNat 32 k) = pcbWord T mem p (BitVec.ofNat 32 k) :=
  h.load32 (pcb_within p hk)

lemma procContext_congr {mem mem' : Memory} (h : Memory.Agree T.pcbs mem mem') :
    procContext T mem' = procContext T mem := by
  have hfield : ∀ p (f : CtxField), pcbWord T mem' p f.offset = pcbWord T mem p f.offset := by
    intro p f
    refine pcbWord_congr h p ?_
    have hidx : ctxFields.idxOf f ≤ 18 := List.idxOf_le_length
    have hsize : sizeofProcess = 112 := rfl
    omega
  funext p
  simp only [procContext, hfield]

variable (T) in
/-- What the PCBs hold all the time. -/
structure PcbsOk (mem : Memory) : Prop where
  /-- `pgd_pa` is as `process_init_all` has set it. -/
  pgd : ∀ q, pcbWord T mem q procPgdPaOffset = (initPcb L q).pgdPa
  /-- `ctx.sp_svc` is aligned. -/
  aligned : ∀ q, pcbWord T mem q ctxSpSvcOffset &&& 3#32 = 0#32

lemma PcbsOk.congr {mem mem' : Memory} (h : PcbsOk T mem) (hmem : Memory.Agree T.pcbs mem mem') :
    PcbsOk T mem' where
  pgd q := (pcbWord_congr (k := 88) hmem q (by decide)).trans (h.pgd q)
  aligned q := by
    have hword : pcbWord T mem' q ctxSpSvcOffset = pcbWord T mem q ctxSpSvcOffset :=
      pcbWord_congr (k := 52) hmem q (by decide)
    rw [hword]
    exact h.aligned q

/-! ### The relation -/

variable (T) in
/-- The machine, working for process `c` in a phase, represents the processes. -/
structure IsaRel (c : Pid) (ph : Phase) (m : Machine) (p : ProcMachine) : Prop where
  arm : ArmRel L c ph (m.toArm T) p
  view : View T m.sys ⟨m.sys.mem, m.sys.ttbr0, false⟩
  pcbs : PcbsOk T m.sys.mem
  kernel : ph ≠ .user → KernelMode m.core.cpsr
  /-- A process that is in `handle_svc` has called it with the address of its frame. -/
  arg : ∀ q, (if q = c then ph else (p.cont q).phase) = .svc →
    m.arg q = L.kstackTop q - BitVec.ofNat 32 60

/-! ### Writes to memory -/

/-- A region apart from the tables and the PCBs. -/
structure Foreign (T : Text L) (R : Region) : Prop where
  tables : OffTables L R
  pcbs : T.pcbs.Apart R

lemma Foreign.mono {R S : Region} (h : Foreign T S) (hR : R.Within S) : Foreign T R :=
  ⟨⟨h.tables.1.mono ⟨le_refl _, le_refl _⟩ hR, h.tables.2.mono ⟨le_refl _, le_refl _⟩ hR⟩,
    h.pcbs.mono ⟨le_refl _, le_refl _⟩ hR⟩

lemma foreign_slot (T : Text L) (p : Pid) : Foreign T (b.slot p) := by
  have hap := L.objectsApart
  refine Foreign.mono ⟨⟨hap.slots_boot.symm, hap.slots_tables.symm⟩, ?_⟩ (b.slot_within_slots p)
  exact T.pcbs_apart _ (by simp)

lemma foreign_stack (T : Text L) (p : Pid) : Foreign T (L.stack p) :=
  Foreign.mono ⟨T.data_offTables _ (by simp [Text.data]), T.pcbs_apart _ (by simp)⟩
    (L.stack_within p)

lemma foreign_abt (T : Text L) : Foreign T L.abtStack :=
  ⟨T.data_offTables _ (by simp [Text.data]), T.pcbs_apart _ (by simp)⟩

lemma foreign_und (T : Text L) : Foreign T L.undStack :=
  ⟨T.data_offTables _ (by simp [Text.data]), T.pcbs_apart _ (by simp)⟩

variable {c : Pid} {ph ph' : Phase} {m m' : Machine} {p p' : ProcMachine}

/-- The view and the PCBs survive a write to such a region. -/
lemma Foreign.ctx {R : Region} (h : Foreign T R) {mem mem' : Memory}
    (hmem : Memory.Within R mem mem') : procContext T mem' = procContext T mem :=
  procContext_congr (hmem.agree h.pcbs)

lemma PcbsOk.write {mem mem' : Memory} (h : PcbsOk T mem) {R : Region} (hR : Foreign T R)
    (hmem : Memory.Within R mem mem') : PcbsOk T mem' :=
  h.congr (hmem.agree hR.pcbs)

/-- The hardware keeps the relation. -/
lemma IsaRel.refill (h : IsaRel T c ph m p) (hw : ℕ → Tlb.Refill) :
    IsaRel T c ph (m.refill hw) p := by
  have hsys : (m.sys.refill hw).mem = m.sys.mem ∧ (m.sys.refill hw).ttbr0 = m.sys.ttbr0 := by
    rw [Mmu.refill]
    split <;> exact ⟨rfl, rfl⟩
  have harm : (m.refill hw).toArm T = m.toArm T := by
    simp only [Machine.toArm, Machine.refill, hsys]
  refine ⟨harm ▸ h.arm, ?_, ?_, h.kernel, h.arg⟩
  · show View T (m.sys.refill hw) ⟨(m.sys.refill hw).mem, (m.sys.refill hw).ttbr0, false⟩
    rw [hsys.1, hsys.2]
    exact h.view.refill hw
  · show PcbsOk T (m.sys.refill hw).mem
    rw [hsys.1]
    exact h.pcbs

/-! ### User code -/

lemma not_kernelMode {psr : Word} (h : psr &&& 0x1F#32 = 0x10#32) : ¬ KernelMode psr := by
  intro hk
  have hmode := ((kernelMode_iff psr).1 hk).1
  rw [h] at hmode
  exact absurd hmode (by decide)

/-- In USR mode. -/
lemma IsaRel.user (h : IsaRel T c .user m p) :
    m.core.cpsr &&& 0x1F#32 = 0x10#32 ∧ m.core.userRegs = p.regs c := by
  have hregs := h.arm.user rfl
  have hmode := cpsr_and_mode (h.arm.background.mode c)
  rw [← hregs] at hmode
  have hnot : ¬ KernelMode m.core.cpsr := by
    intro hk
    have hcpsr : (m.toArm T).cpu.userRegs.cpsr = svcMode := if_pos hk
    rw [hcpsr] at hmode
    exact absurd hmode (by decide)
  have hcpsr : kernelCpsr m.core.cpsr = m.core.cpsr := if_neg hnot
  have huser : (m.toArm T).cpu.userRegs = m.core.userRegs := by
    simp only [Machine.toArm, Core.toCpu, Cpu.userRegs, Core.userRegs, hcpsr]
  rw [huser] at hregs hmode
  exact ⟨hmode, hregs⟩

/-- Replacing the registers of the current process. -/
lemma IsaRel.setUserRegs (h : IsaRel T c .user m p) {u : UserRegs}
    (hu : u.cpsr &&& privBits = 0x10#32) :
    IsaRel T c .user { m with core := m.core.setUserRegs u } (p.setRegs c u) := by
  have hcpsr : kernelCpsr u.cpsr = u.cpsr := if_neg (not_kernelMode (cpsr_and_mode hu))
  have harm : ({ m with core := m.core.setUserRegs u } : Machine).toArm T =
      { m.toArm T with cpu := (m.toArm T).cpu.setUserRegs u } := by
    simp [Machine.toArm, Core.toCpu, Cpu.setUserRegs, Core.setUserRegs, hcpsr]
  exact ⟨harm ▸ h.arm.setUserRegs hu, h.view, h.pcbs, fun hph => absurd rfl hph, h.arg⟩

/-- A translation is the walk of the table of the current process. -/
lemma IsaRel.translate (h : IsaRel T c ph m p) (va : Word) (priv write : Bool) :
    m.sys.translate va priv (if write then .write else .read) =
      RingNova.translate (m.toArm T).mem (m.toArm T).cpu.ttbr0 va priv write := by
  rw [translate_eq_walk]
  exact h.view.translate_eq rfl va priv _

/-- User accesses reach the slot of the current process and nothing else. -/
lemma IsaRel.translate_user (h : IsaRel T c .user m p) (va : Word) (write : Bool) :
    m.sys.translate va (privileged m.core.cpsr) (if write then .write else .read) =
      if inWindow va then some (slotAddr b c va) else none := by
  have hpriv : privileged m.core.cpsr = false := by
    rw [privileged, h.user.1]
    rfl
  rw [h.translate, hpriv]
  exact RingNova.translate_user h.arm.userTable va write

/-- The kernel reaches the slot of the current process through a checked pointer. -/
lemma IsaRel.translate_window (h : IsaRel T c ph m p) (hph : ph ≠ .user) {va : Word}
    (hw : inWindow va = true) (write : Bool) :
    m.sys.translate va (privileged m.core.cpsr) (if write then .write else .read) =
      some (slotAddr b c va) := by
  have hpriv : privileged m.core.cpsr = true :=
    privileged_of_and ((kernelMode_iff _).1 (h.kernel hph)).1 (by decide)
  rw [h.translate, hpriv]
  exact RingNova.translate_kernel h.arm.userTable hw write

/-- A store through the window of the current process. -/
lemma IsaRel.store (h : IsaRel T c ph m p) {va : Word} (hw : inWindow va = true) (ch : Byte) :
    IsaRel T c ph
      { m with sys := { m.sys with mem := m.sys.mem.store8 (slotAddr b c va) ch } }
      (p.setByte c va ch) := by
  have hin : Memory.Within (b.slot c) m.sys.mem (m.sys.mem.store8 (slotAddr b c va) ch) := by
    refine (Memory.store8_within _ _ _).mono ?_
    obtain ⟨h1, h2⟩ := slotAddr_mem (b := b) c hw
    exact ⟨h1, h2⟩
  have hfor := foreign_slot T c
  refine ⟨?_, h.view.write hfor.tables hin, h.pcbs.write hfor hin, h.kernel,
    h.arg⟩
  have harm := h.arm.store hw ch
  refine harm.congr ⟨rfl, rfl, rfl, rfl, rfl, rfl, rfl, fun _ => ⟨rfl, rfl⟩⟩
    (Undisturbed.refl L c _) (Memory.Agree.refl _ _) (hfor.ctx hin) rfl

/-! ### Stacks -/

lemma kstackTop_aligned (q : Pid) {k : ℕ} (hk : k % 4 = 0) :
    (L.kstackTop q - BitVec.ofNat 32 k) &&& 3#32 = 0#32 := by
  refine aligned_sub ?_ hk
  have hbase := L.procKstack_aligned
  rw [aligned_iff, Layout.kstackTop, Layout.kstack, kstackSize]
  simp only [BitVec.toNat_add, BitVec.toNat_ofNat]
  omega

/-- Words on the kernel stack of a process. -/
lemma free_stack (T : Text L) (q : Pid) {k n : ℕ} (hk : k ≤ 8192) (hn : n ≤ k) (hk4 : k % 4 = 0) :
    Free T (L.kstackTop q - BitVec.ofNat 32 k) n := by
  refine ⟨kstackTop_aligned q hk4, L.kstacks, by simp [Text.data], ?_⟩
  refine Region.Within.trans ?_ (L.stack_within q)
  have hsize : (L.stack q).size = 8192 := rfl
  rw [L.pa_below q hk]
  simp only [Region.Within, hsize]
  omega

/-- The next frame on a mode stack. -/
lemma free_modeStack (T : Text L) {top sp : Word}
    (hR : (Region.mk (b.pa top - modeStackSize) modeStackSize) ∈ T.data) (htop : top.toNat % 8 = 0)
    {i : ℕ} (hsp : sp = top - BitVec.ofNat 32 (60 * i)) (hi : i ≤ 3) :
    Region.Within ⟨b.pa (sp - BitVec.ofNat 32 60), 60⟩ ⟨b.pa top - modeStackSize, modeStackSize⟩ ∧
      Free T (sp - BitVec.ofNat 32 60) 60 := by
  have hin : Region.Within ⟨b.pa (sp - BitVec.ofNat 32 60), 60⟩
      ⟨b.pa top - modeStackSize, modeStackSize⟩ := by
    rw [hsp, sub_ofNat_sub_ofNat, pa_modeStack (T.data_in_ram _ hR) (by omega)]
    simp only [Region.Within, modeStackSize]
    omega
  refine ⟨hin, ?_, _, hR, hin⟩
  rw [hsp, sub_ofNat_sub_ofNat]
  refine aligned_sub ?_ (by omega)
  rw [aligned_iff]
  omega

/-- Where the entry of an exception pushes its frame. -/
lemma IsaRel.entryStack (h : IsaRel T c .user m p) (x : Exn) :
    (∃ R, Foreign T R ∧ Region.Within
      ⟨b.pa (m.core.sp x.stackBank - BitVec.ofNat 32 x.frameBytes), x.frameBytes⟩ R) ∧
    Free T (m.core.sp x.stackBank - BitVec.ofNat 32 x.frameBytes) x.frameBytes := by
  have hsvc : ∀ n, n ≤ 8192 → n % 4 = 0 →
      (∃ R, Foreign T R ∧ Region.Within ⟨b.pa (m.core.sp .svc - BitVec.ofNat 32 n), n⟩ R) ∧
        Free T (m.core.sp .svc - BitVec.ofNat 32 n) n := by
    intro n hn hn4
    rw [show m.core.sp .svc = L.kstackTop c from L.spSvc_user h.arm]
    have hfree := free_stack T c hn (le_refl n) hn4
    refine ⟨⟨L.stack c, foreign_stack T c, ?_⟩, hfree⟩
    have hsize : (L.stack c).size = 8192 := rfl
    rw [L.pa_below c hn]
    simp only [Region.Within, hsize]
    omega
  obtain ⟨i, j, hi, hj, hij⟩ := h.arm.modeStacks
  have hle : i + j ≤ p.faults := hij
  have hmax := p.faults_le
  have habt := free_modeStack T (by simp [Text.data, Layout.abtStack]) T.stacks_aligned.1 hi
    (by omega)
  have hund := free_modeStack T (by simp [Text.data, Layout.undStack]) T.stacks_aligned.2 hj
    (by omega)
  cases x with
  | irq => exact hsvc 64 (by omega) (by omega)
  | svc => exact hsvc 60 (by omega) (by omega)
  | dataAbort => exact ⟨⟨_, foreign_abt T, habt.1⟩, habt.2⟩
  | prefetchAbort => exact ⟨⟨_, foreign_abt T, habt.1⟩, habt.2⟩
  | undefined => exact ⟨⟨_, foreign_und T, hund.1⟩, hund.2⟩

lemma pushContext_within {mem : Memory} {sp : Word} (h : Readable b (sp - BitVec.ofNat 32 60) 60)
    (r : Fin 13 → Word) (lr spsr : Word) :
    Memory.Within ⟨b.pa (sp - BitVec.ofNat 32 60), 60⟩ mem (pushContext b mem sp r lr spsr) := by
  refine (push_context mem r lr spsr ?_ rfl).2
  have hadd := h.pa_add (k := 4) (by omega)
  rwa [sub_ofNat_add_ofNat _ (by omega)] at hadd

lemma pushInterrupted_within {mem : Memory} {sp : Word}
    (h : Readable b (sp - BitVec.ofNat 32 64) 64) (pc cpsr : Word) (r : Fin 13 → Word) (lr : Word) :
    Memory.Within ⟨b.pa (sp - BitVec.ofNat 32 64), 64⟩ mem
      (pushInterrupted b mem sp pc cpsr r lr) := by
  refine (push_irqFrame mem r lr pc cpsr ?_ rfl).2.2.2
  have hadd := h.pa_add (k := 56) (by omega)
  rwa [sub_ofNat_add_ofNat _ (by omega)] at hadd

/-- An entry writes its frame only. -/
lemma entryMem_within {core : Core} {x : Exn} {mem : Memory}
    (h : Readable b (core.sp x.stackBank - BitVec.ofNat 32 x.frameBytes) x.frameBytes) :
    Memory.Within ⟨b.pa (core.sp x.stackBank - BitVec.ofNat 32 x.frameBytes), x.frameBytes⟩ mem
      (entryMem b core mem x) := by
  cases x with
  | irq => exact pushInterrupted_within h _ _ _ _
  | svc => exact pushContext_within h _ _ _
  | dataAbort => exact pushContext_within h _ _ _
  | prefetchAbort => exact pushContext_within h _ _ _
  | undefined => exact pushContext_within h _ _ _

end

end Isa

end RingNova
