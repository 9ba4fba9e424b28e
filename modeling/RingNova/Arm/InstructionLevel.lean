/-
# The kernel at the level of instructions

The system on the machine of `RingNova.Arm.Execution`, from the call of `process_first_run` on.
It makes the runs of the process-level system, with the same globals, the same user memory and
the same user registers, whatever the compiler has made of the C code and whatever the hardware
does to the TLB (`isa_run`).  In particular no instruction of the kernel's assembly ever aborts
or is executed in the wrong mode, every exception reaches its handler and every
`context_switch` returns to where its process waits.
-/
import RingNova.Arm.Implements
import RingNova.Arm.LockstepSwitch

namespace RingNova.Isa

section

variable {b : Board} {L : Layout b} {T : Text L} {c p q : Pid} {mem mem' : Memory}

/-! ### The tables at boot -/

/-- A table in memory has the kernel's alias of RAM. -/
def KernelAlias (b : Board) (mem : Memory) (base : ℕ) : Prop :=
  ∀ i, (kernelCall b).Covers i → Table.ofMemory mem base i = kernelDesc b i

lemma KernelAlias.congr {base : ℕ} (h : KernelAlias b mem base)
    (hm : Memory.Agree ⟨base, pgdSize⟩ mem mem') : KernelAlias b mem' base := by
  intro i hi
  refine Eq.trans (hm.load32 ⟨Nat.le_add_right _ _, ?_⟩) (h i hi)
  have hlt := covers_lt hi
  simp only [pgdEntries, pgdSize] at hlt ⊢
  omega

/-- The entries of the kernel's alias are neither the window nor in the identity map. -/
lemma kernelCall_apart {i : ℕ} (h : (kernelCall b).Covers i) :
    i ≠ 0x400 ∧ ¬ b.identity i = true := by
  have hk : kernelCall b ∈ bootCalls b := by simp [bootCalls]
  obtain ⟨hwin, happ⟩ := List.pairwise_cons.1 (calls_apart b 0)
  refine ⟨?_, ?_⟩
  · rintro rfl
    exact (hwin _ hk).not_covers (windowCall_covers b 0) h
  · rw [identity_iff]
    exact fun hi => ((List.pairwise_cons.1 happ).1 _ (by simp)).not_covers hi h

lemma kernelAlias_build (b : Board) (t : Table) {i : ℕ} (h : (kernelCall b).Covers i) :
    mmuBuildBootPgd b t i = kernelDesc b i := by
  have happ := (List.pairwise_cons.1 (calls_apart b 0)).2
  rw [mmuBuildBootPgd_eq]
  exact (foldl_run_apply (bootCalls_ok b) happ t i).1 (kernelCall b) (by simp [bootCalls]) h

/-- `pgtable_build_for_proc` copies the alias. -/
lemma kernelAlias_initProcess (h : KernelAlias b mem L.bootTable.base) (p : Pid) :
    KernelAlias b (initProcess L mem p) (L.table p).base ∧
      KernelAlias b (initProcess L mem p) L.bootTable.base := by
  have hap := L.objectsApart
  have hself : L.bootTable.Within L.bootTable := ⟨le_refl _, le_refl _⟩
  have hboot : KernelAlias b (loadImage L mem p) L.bootTable.base :=
    h.congr ((loadImage_within L mem p).agree
      (hap.slots_boot.mono (b.slot_within_slots p) hself).symm)
  refine ⟨?_, h.congr (initProcess_agree L mem p ?_ ?_ ?_)⟩
  · have hstack : Memory.Within (L.stack p)
        ((loadImage L mem p).storeTable (L.table p).base
          (pgtableBuildForProc b (Table.ofMemory (loadImage L mem p) L.bootTable.base)
            (Table.ofMemory (loadImage L mem p) (L.table p).base) (b.slotBase p)))
        (initProcess L mem p) := by
      refine (Memory.storeWords_within _ _ _).mono ?_
      have hsize : (L.stack p).size = 8192 := rfl
      rw [show b.pa (L.kstackTop p - 100#32) = (L.stack p).base + 8092 from
        L.pa_below p (k := 100) (by omega), length_initialFrame]
      simp only [Region.Within, hsize]
      omega
    refine KernelAlias.congr ?_ (hstack.agree
      (hap.tables_stacks.mono (L.table_within p) (L.stack_within p)))
    intro i hi
    obtain ⟨hne, hid⟩ := kernelCall_apart hi
    rw [ofMemory_storeTable _ _ _ (covers_lt hi), pgtableBuildForProc_apply b _ _ _ (covers_lt hi),
      if_neg hne, if_neg hid]
    exact hboot i hi
  · exact (hap.slots_boot.mono (b.slot_within_slots p) hself).symm
  · exact hap.boot_tables.mono hself (L.table_within p)
  · exact hap.boot_stacks.mono hself (L.stack_within p)

/-- The loop of `process_init_all`. -/
lemma kernelAlias_foldl (l : List Pid) (h : KernelAlias b mem L.bootTable.base)
    (hdone : ∀ p, p ∉ l → KernelAlias b mem (L.table p).base) :
    KernelAlias b (l.foldl (initProcess L) mem) L.bootTable.base ∧
      ∀ p, KernelAlias b (l.foldl (initProcess L) mem) (L.table p).base := by
  have hap := L.objectsApart
  induction l generalizing mem with
  | nil => exact ⟨h, fun p => hdone p (by simp)⟩
  | cons q l ih =>
    refine ih (kernelAlias_initProcess h q).2 ?_
    intro p hp
    by_cases hpq : p = q
    · subst hpq
      exact (kernelAlias_initProcess h p).1
    · refine (hdone p (by simp [hpq, hp])).congr (initProcess_agree L mem q ?_ ?_ ?_)
      · exact (hap.slots_tables.mono (b.slot_within_slots q) (L.table_within p)).symm
      · exact L.table_apart hpq
      · exact hap.tables_stacks.mono (L.table_within p) (L.stack_within q)

/-- **Every table has the kernel's alias when the first process starts.** -/
lemma kernelAlias_bootMemory (L : Layout b) (mem : Memory) :
    ∀ x ∈ L.tableBases, KernelAlias b (bootMemory L mem) x := by
  have hap := L.objectsApart
  have hself : L.bootTable.Within L.bootTable := ⟨le_refl _, le_refl _⟩
  have hboot : KernelAlias b
      (mem.storeTable L.bootTable.base (mmuBuildBootPgd b fun _ => 0#32)) L.bootTable.base := by
    intro i hi
    rw [ofMemory_storeTable _ _ _ (covers_lt hi)]
    exact kernelAlias_build b _ hi
  obtain ⟨hb, hp⟩ := kernelAlias_foldl (List.finRange numProcesses) hboot
    (fun p hp => absurd (List.mem_finRange p) hp)
  intro x hx
  simp only [Layout.tableBases, List.mem_cons, List.mem_map, List.mem_finRange, true_and] at hx
  rcases hx with rfl | ⟨p, rfl⟩
  · intro i hi
    rw [bootMemory, ofMemory_storeTable _ _ _ (covers_lt hi), mmuDropIdentity_apply,
      if_neg (kernelCall_apart hi).2]
    exact hb i hi
  · refine (hp p).congr ((storeTable_within _ _ _).agree ?_)
    exact (hap.boot_tables.mono hself (L.table_within p)).symm

/-! ### The PCBs at boot -/

/-- The members of a PCB that the assembly uses, as `process_init_all` and
`process_build_initial_frame` set them. -/
def pcbInit (L : Layout b) (p : Pid) : List (ℕ × Word) :=
  [(88, (initPcb L p).pgdPa), (52, L.kstackTop p - 100#32), (56, 0#32), (60, 0x10#32),
    (64, userStackTop), (68, 0#32)]

/-- Fill a PCB. -/
def storePcb (T : Text L) (mem : Memory) (p : Pid) : Memory :=
  (pcbInit L p).foldl (fun mem w => mem.store32 (b.pa (T.pcb p + BitVec.ofNat 32 w.1)) w.2) mem

/-- Fill all PCBs. -/
def storePcbs (T : Text L) (mem : Memory) : Memory :=
  (List.finRange numProcesses).foldl (storePcb T) mem

lemma pcbInit_lt (L : Layout b) (p : Pid) : ∀ w ∈ pcbInit L p, w.1 + 4 ≤ sizeofProcess := by
  intro w hw
  have hsize : sizeofProcess = 112 := rfl
  simp only [pcbInit, List.mem_cons, List.not_mem_nil, or_false] at hw
  rcases hw with rfl | rfl | rfl | rfl | rfl | rfl <;> simp only [hsize] <;> omega

lemma foldl_store32_within (T : Text L) (p : Pid) (ws : List (ℕ × Word))
    (hws : ∀ w ∈ ws, w.1 + 4 ≤ sizeofProcess) (mem : Memory) :
    Memory.Within T.pcbs mem
      (ws.foldl (fun mem w => mem.store32 (b.pa (T.pcb p + BitVec.ofNat 32 w.1)) w.2) mem) := by
  induction ws generalizing mem with
  | nil => exact Memory.Within.refl _ _
  | cons w ws ih =>
    refine Memory.Within.trans ?_ (ih (fun w hw => hws w (List.mem_cons_of_mem _ hw)) _)
    exact (Memory.store32_within _ _ _).mono (pcb_within p (hws w List.mem_cons_self))

lemma storePcbs_within (T : Text L) (mem : Memory) :
    Memory.Within T.pcbs mem (storePcbs T mem) := by
  have hfold : ∀ (l : List Pid) (mem : Memory),
      Memory.Within T.pcbs mem (l.foldl (storePcb T) mem) := by
    intro l
    induction l with
    | nil => exact fun mem => Memory.Within.refl _ _
    | cons p l ih =>
      exact fun mem => (foldl_store32_within T p _ (pcbInit_lt L p) mem).trans (ih _)
  exact hfold _ mem

/-- Words of other PCBs, and other words of the PCB. -/
lemma pcbWord_foldl (ws : List (ℕ × Word)) (hws : ∀ w ∈ ws, w.1 + 4 ≤ sizeofProcess)
    {k : ℕ} (hk : k + 4 ≤ sizeofProcess)
    (hne : q = p → ∀ w ∈ ws, k + 4 ≤ w.1 ∨ w.1 + 4 ≤ k) (mem : Memory) :
    pcbWord T (ws.foldl (fun mem w => mem.store32 (b.pa (T.pcb p + BitVec.ofNat 32 w.1)) w.2) mem)
      q (BitVec.ofNat 32 k) = pcbWord T mem q (BitVec.ofNat 32 k) := by
  induction ws generalizing mem with
  | nil => rfl
  | cons w ws ih =>
    rw [List.foldl_cons, ih (fun w hw => hws w (List.mem_cons_of_mem _ hw))
      (fun hq w hw => hne hq w (List.mem_cons_of_mem _ hw))]
    exact pcbWord_store32 mem p q (hws w List.mem_cons_self) hk
      (fun hq => hne hq w List.mem_cons_self) w.2

/-- A word of a PCB that has been filled. -/
lemma pcbWord_storePcb (mem : Memory) {w : ℕ × Word} (hw : w ∈ pcbInit L p) :
    pcbWord T (storePcb T mem p) p (BitVec.ofNat 32 w.1) = w.2 := by
  obtain ⟨pre, post, hsplit⟩ := List.append_of_mem hw
  have hlt := pcbInit_lt L p
  -- the words behind it are at other offsets
  have hpair : (pcbInit L p).Pairwise fun v w => v.1 + 4 ≤ w.1 ∨ w.1 + 4 ≤ v.1 := by
    simp [pcbInit]
  rw [hsplit] at hlt hpair
  have hpost := (List.pairwise_cons.1 (List.pairwise_append.1 hpair).2.1).1
  rw [storePcb, hsplit, List.foldl_append, List.foldl_cons,
    pcbWord_foldl post (fun v hv => hlt v (by simp [hv])) (hlt w (by simp))
      (fun _ v hv => hpost v hv)]
  exact Memory.load32_store32 _ _ _

/-- **All PCBs are filled.** -/
lemma pcbWord_storePcbs (T : Text L) (mem : Memory) (p : Pid) {w : ℕ × Word}
    (hw : w ∈ pcbInit L p) :
    pcbWord T (storePcbs T mem) p (BitVec.ofNat 32 w.1) = w.2 := by
  have hother : ∀ (l : List Pid) (mem : Memory), p ∉ l →
      pcbWord T (l.foldl (storePcb T) mem) p (BitVec.ofNat 32 w.1) =
        pcbWord T mem p (BitVec.ofNat 32 w.1) := by
    intro l
    induction l with
    | nil => exact fun _ _ => rfl
    | cons q l ih =>
      intro mem hp
      rw [List.mem_cons, not_or] at hp
      rw [List.foldl_cons, ih _ hp.2]
      exact pcbWord_foldl _ (pcbInit_lt L q) (pcbInit_lt L p w hw) (fun hq => absurd hq hp.1) mem
  obtain ⟨pre, post, hsplit⟩ := List.append_of_mem (List.mem_finRange p)
  have hnodup := List.nodup_finRange numProcesses
  rw [hsplit] at hnodup
  have hpost : p ∉ post := (List.nodup_cons.1 (List.nodup_append.1 hnodup).2.1).1
  rw [storePcbs, hsplit, List.foldl_append, List.foldl_cons, hother _ _ hpost]
  exact pcbWord_storePcb _ hw

lemma pcbsOk_storePcbs (T : Text L) (mem : Memory) : PcbsOk T (storePcbs T mem) where
  pgd p := pcbWord_storePcbs T mem p (w := (88, (initPcb L p).pgdPa)) (by simp [pcbInit])
  aligned p := by
    rw [show ctxSpSvcOffset = BitVec.ofNat 32 52 from rfl,
      pcbWord_storePcbs T mem p (w := (52, L.kstackTop p - 100#32)) (by simp [pcbInit])]
    exact kstackTop_aligned p (k := 100) rfl

lemma procContext_storePcbs (T : Text L) (mem : Memory) :
    procContext T (storePcbs T mem) = initialContext L := by
  have hword := fun p w hw => pcbWord_storePcbs T mem p (w := w) hw
  have hoff : CtxField.spSvc.offset = BitVec.ofNat 32 52 ∧
      CtxField.lrSvc.offset = BitVec.ofNat 32 56 ∧ CtxField.spsr.offset = BitVec.ofNat 32 60 ∧
      CtxField.spUsr.offset = BitVec.ofNat 32 64 ∧ CtxField.lrUsr.offset = BitVec.ofNat 32 68 := by
    decide
  obtain ⟨h52, h56, h60, h64, h68⟩ := hoff
  funext p
  simp only [procContext, h52, h56, h60, h64, h68]
  rw [hword p (52, L.kstackTop p - 100#32) (by simp [pcbInit]),
    hword p (56, 0#32) (by simp [pcbInit]), hword p (60, 0x10#32) (by simp [pcbInit]),
    hword p (64, userStackTop) (by simp [pcbInit]), hword p (68, 0#32) (by simp [pcbInit])]
  rfl

/-! ### The first process -/

/-- The memory system when `process_first_run` is called: `mmu_enable` has turned the MMU on with
the boot table, `exception_init` has set VBAR, and `mmu_drop_identity` has invalidated the TLB. -/
def bootMmu (T : Text L) (mem : Memory) (sctlr : Word) : Mmu where
  mem := mem
  tlb := Tlb.flush
  sctlr := sctlr ||| 0x1805#32
  ttbr0 := ttbr0For (L.bootPgd - b.physOffset)
  ttbcr := 0#32
  dacr := 1#32
  vbar := T.vectors
  clock := 0

/-- The core at that moment: `start.S` has set the stack pointers of the abort and undefined modes,
and interrupts are masked. -/
def bootCore (L : Layout b) (core : Core) : Core :=
  { core with
    sp := Function.update (Function.update core.sp .abt L.abtStackTop) .und L.undStackTop
    cpsr := svcMode }

/-- The machine at that moment, on any memory and registers. -/
def bootIsa (T : Text L) (mem : Memory) (core : Core) (sctlr : Word) : Machine where
  core := bootCore L core
  sys := bootMmu T (storePcbs T (bootMemory L mem)) sctlr
  arg := fun _ => 0#32
  frames := fun _ => none
  time := 0

/-- The system at the first user instruction. -/
def isaSys (T : Text L) (cc : CompiledAbi) (hw : ℕ → Tlb.Refill) (mem : Memory) (core : Core)
    (sctlr : Word) : Sys (Option Machine) :=
  match (bootIsa T mem core sctlr).firstRun T hw 0 with
  | some (m, cont) => resume (isaArch T cc hw) (bootKernel L) (some m) 0 cont
  | none => ⟨bootKernel L, none, .wild⟩

/-- The kernel sees memory as it is. -/
lemma view_bootMmu (T : Text L) (mem : Memory) (sctlr : Word) :
    View T (bootMmu T (storePcbs T (bootMemory L mem)) sctlr)
      ⟨storePcbs T (bootMemory L mem), ttbr0For (L.bootPgd - b.physOffset), false⟩ := by
  have hmem := storePcbs_within T (bootMemory L mem)
  have hap : ∀ x ∈ L.tableBases, Region.Apart ⟨x, pgdSize⟩ T.pcbs := by
    intro x hx
    simp only [Layout.tableBases, List.mem_cons, List.mem_map, List.mem_finRange, true_and] at hx
    rcases hx with rfl | ⟨p, rfl⟩
    · exact (T.pcbs_apart L.bootTable (by simp)).symm
    · exact ((T.pcbs_apart L.tables (by simp)).mono ⟨le_refl _, le_refl _⟩ (L.table_within p)).symm
  refine ⟨rfl, rfl, ?_, ?_, rfl, rfl, rfl, ?_, Tlb.coherent_flush _ _, fun _ =>
    Tlb.coherent_flush _ _⟩
  · rw [ttbr0For_base L.bootTable_aligned]
    exact List.mem_cons_self
  · simp [bootMmu, Mmu.on]
  · intro x hx
    exact (kernelAlias_bootMemory L mem x hx).congr (hmem.agree (hap x hx))

/-- Every process waits for its first entry. -/
lemma suspended_bootIsa (T : Text L) (mem : Memory) (core : Core) (sctlr : Word) (p : Pid) :
    Suspended L p ((bootIsa T mem core sctlr).toArm T) initRegs .firstEntry := by
  have hmem := storePcbs_within T (bootMemory L mem)
  have hprep : Prepared L p (storePcbs T (bootMemory L mem)) := by
    refine (prepared_bootMemory L mem p).congr (hmem.agree ?_) (hmem.agree ?_)
    · exact ((T.pcbs_apart L.tables (by simp)).mono ⟨le_refl _, le_refl _⟩ (L.table_within p)).symm
    · exact (foreign_stack T p).pcbs.symm
  refine (hprep.suspended Cpu.zero).congr (Memory.Agree.refl _ _) ?_ rfl
  exact congrFun (procContext_storePcbs T _) p

/-- The code of `context_switch` enters the first process. -/
lemma run_firstRun (T : Text L) (hw : ℕ → Tlb.Refill) (mem : Memory) (core : Core) (sctlr : Word) :
    ∃ core' sys, (bootIsa T mem core sctlr).firstRun T hw 0 =
        Machine.resumeC L { bootIsa T mem core sctlr with core := core', sys := sys } 0 ∧
      View T sys ⟨storePcbs T (bootMemory L mem), ttbr0For (initPcb L 0).pgdPa, false⟩ ∧
      SwitchedTo (keptContext b (storePcbs T (bootMemory L mem)) (T.pcb 0)) core' ∧
      KernelMode core'.cpsr ∧ core'.sp .abt = L.abtStackTop ∧ core'.sp .und = L.undStackTop := by
  have hview := view_bootMmu T mem sctlr
  have hok := pcbsOk_storePcbs T (bootMemory L mem)
  have hload : Loadable L (T.pcb 0) (storePcbs T (bootMemory L mem)) :=
    loadable_of_waits (suspended_bootIsa T mem core sctlr 0).waits hok rfl
  have hcpsr : (bootCore L core).cpsr = svcMode := rfl
  obtain ⟨hsvc, harm, hirq⟩ := (kernelMode_iff svcMode).1 (by decide)
  rw [← hcpsr] at hsvc harm hirq
  have habt : (bootCore L core).sp .abt = L.abtStackTop := by simp [bootCore]
  have hund : (bootCore L core).sp .und = L.undStackTop := by simp [bootCore]
  have hm : (bootIsa T mem core sctlr).core = bootCore L core := rfl
  rw [Machine.firstRun, hm]
  generalize bootCore L core = c₀ at *
  have hr0 : Function.update (Function.update c₀.r 0 0#32) 1 (T.pcb 0) 0 = 0#32 := by
    rw [Function.update_of_ne (by decide), Function.update_self]
  have hr1 : Function.update (Function.update c₀.r 0 0#32) 1 (T.pcb 0) 1 = T.pcb 0 :=
    Function.update_self _ _ _
  obtain ⟨core', hrun, hto, hsp, hbits⟩ := run_switchCode_null (T := T)
    (c := { c₀ with r := Function.update (Function.update c₀.r 0 0#32) 1 (T.pcb 0),
                    pc := T.contextSwitch }) hsvc harm rfl hr0
    (m := ⟨storePcbs T (bootMemory L mem), ttbr0For (L.bootPgd - b.physOffset), false⟩)
    (hr1.symm ▸ hload)
  have hpgd : (storePcbs T (bootMemory L mem)).load32 (b.pa (T.pcb 0 + procPgdPaOffset)) =
      (initPcb L 0).pgdPa := hok.pgd 0
  simp only [hr1, loadedMem] at hrun hto
  rw [show (keptContext b (storePcbs T (bootMemory L mem)) (T.pcb 0)).pgdPa = _ from hpgd] at hrun
  obtain ⟨sys, hcode, hview'⟩ := View.runCode (m := { bootIsa T mem core sctlr with
    core := { c₀ with r := Function.update (Function.update c₀.r 0 0#32) 1 (T.pcb 0),
                      pc := T.contextSwitch } }) hview hw hrun
  refine ⟨core', sys, ?_, hview', hto, ?_, (hsp .abt (by decide) (by decide)).trans habt,
    (hsp .und (by decide) (by decide)).trans hund⟩
  · rw [hcode]
    rfl
  · rw [kernelMode_iff, hbits 5 (by omega) (by omega), hbits 7 (by omega) (by omega)]
    exact ⟨hto.mode, harm, hirq⟩

/-- **The first process is entered.** -/
lemma isaRel_boot (T : Text L) (hw : ℕ → Tlb.Refill) (mem : Memory) (core : Core) (sctlr : Word) :
    ∃ m, (bootIsa T mem core sctlr).firstRun T hw 0 = some (m, .firstEntry) ∧
      IsaRel T 0 .irq m (procBoot (userMemory b (bootMemory L mem))) := by
  have hok := pcbsOk_storePcbs T (bootMemory L mem)
  have hmem := storePcbs_within T (bootMemory L mem)
  have hctx := procContext_storePcbs T (bootMemory L mem)
  obtain ⟨core', sys, hfirst, hview, hto, hmode, habt, hund⟩ := run_firstRun T hw mem core sctlr
  have hsys : sys.mem = storePcbs T (bootMemory L mem) := hview.mem
  rw [← hsys] at hok hto hmem hctx
  have hagree : ∀ R, Memory.Agree R (storePcbs T (bootMemory L mem)) sys.mem := by
    intro R
    rw [hsys]
    exact Memory.Agree.refl _ _
  have hsusp : ∀ (m : Machine) p, m.sys = sys → m.frames = (fun _ => none) →
      Suspended L p (m.toArm T) initRegs .firstEntry := by
    rintro m p rfl hframes
    exact (suspended_bootIsa T mem core sctlr p).congr (hagree _)
      (congrFun (congrArg (procContext T) hsys) p) (congrFun hframes p)
  obtain ⟨core'', hresume, hres⟩ := resumeC_of_waits
    (m := { bootIsa T mem core sctlr with core := core', sys := sys })
    (hsusp _ 0 rfl rfl).waits hto hmode
  obtain ⟨m, hm, rfl, rfl, hframes⟩ : ∃ m, (bootIsa T mem core sctlr).firstRun T hw 0 =
      some (m, .firstEntry) ∧ m.core = core'' ∧ m.sys = sys ∧ m.frames = fun _ => none :=
    ⟨_, hfirst.trans hresume, rfl, rfl, rfl⟩
  have hmode' : KernelMode m.core.cpsr := by
    rw [hres.cpsr]
    exact hmode
  have hback : Background L 0 (m.toArm T) (procBoot (userMemory b (bootMemory L mem))) := by
    refine ⟨fun p => ?_, fun p va hva => ?_, procBoot_mode _, fun p _ _ => hsusp m p rfl hframes⟩
    · refine ((prepared_bootMemory L mem p).table).congr (hmem.agree ?_)
      exact ((T.pcbs_apart L.tables (by simp)).mono ⟨le_refl _, le_refl _⟩ (L.table_within p)).symm
    · have hbyte := hmem.agree (foreign_slot T p).pcbs.symm (slotAddr b p va) (slotAddr_mem p hva)
      simp only [procBoot, userMemory]
      exact hbyte.symm
  have hspUsr : m.core.sp .usr = initRegs.sp := by
    rw [hres.sp .usr (by decide), hto.spUsr]
    exact (procContext_eq T m.sys.mem 0).2.1.symm.trans
      (congrArg ProcContext.spUsr (congrFun hctx 0))
  have hlrUsr : m.core.lr .usr = initRegs.lr := by
    rw [hres.lr, hto.lrUsr]
    exact (procContext_eq T m.sys.mem 0).2.2.symm.trans
      (congrArg ProcContext.lrUsr (congrFun hctx 0))
  have hstacks : ModeStacks L ((procBoot (userMemory b (bootMemory L mem))).faultsAt .irq)
      (m.toArm T).cpu :=
    ⟨0, 0, ((hres.sp .abt (by decide)).trans habt).trans (BitVec.sub_zero _).symm,
      ((hres.sp .und (by decide)).trans hund).trans (BitVec.sub_zero _).symm, Nat.zero_le _⟩
  refine ⟨m, hm, ⟨hback, hview.ttbr0, hstacks, hres.spSvc, fun hph => absurd hph (by simp),
    fun _ => kernelCpsr_of hmode', fun _ => ⟨hspUsr, hlrUsr⟩, (hsusp m 0 rfl hframes).saved⟩,
    hview.self rfl, hok, fun _ => hmode', fun q hq => ?_⟩
  -- no process is in `handle_svc`
  by_cases hq0 : q = 0
  · rw [if_pos hq0] at hq
    exact absurd hq (by simp)
  · rw [if_neg hq0] at hq
    exact absurd hq (by simp [procBoot, Cont.phase])

/-! ### Runs -/

/-- **The code of the kernel implements the interface.** -/
theorem implements_isa (T : Text L) (cc : CompiledAbi) (hw : ℕ → Tlb.Refill) :
    Implements L (isaArch T cc hw) (fun c ph => OnMachine (IsaRel T c ph)) where
  ops := opsRel_isa T cc hw
  leave := by
    rintro c _ p x ⟨m, rfl, h⟩
    exact h.leave cc hw x rfl
  switch := by
    rintro k _ p c n site ⟨m, rfl, h⟩ hn hcont hc -
    obtain ⟨m', hsw, hrel⟩ := h.switch cc hw hn hcont hc
    refine ⟨some m', ?_, m', rfl, hrel⟩
    simp only [isaArch, Option.bind_some, hsw, Option.map_some]

/-- The two systems at the first user instruction. -/
lemma inStep_boot (T : Text L) (cc : CompiledAbi) (hw : ℕ → Tlb.Refill) (mem : Memory) (core : Core)
    (sctlr : Word) : InStep L (fun c ph => OnMachine (IsaRel T c ph))
      (isaSys T cc hw mem core sctlr) (procSys L (userMemory b (bootMemory L mem))) := by
  obtain ⟨m, hm, hrel⟩ := isaRel_boot T hw mem core sctlr
  refine ⟨?_, ⟨0, inv_procSys L _⟩, fun _ => rfl⟩
  rw [isaSys, hm]
  exact resume_rel (R := fun c ph => OnMachine (IsaRel T c ph)) (A := isaArch T cc hw)
    (B := procArch) (fun x h => (implements_isa T cc hw).leave x h) (k := bootKernel L) rfl
    ⟨m, rfl, hrel⟩

/-- What the machine holds of the processes. -/
structure Shows (b : Board) (s : Sys (Option Machine)) (t : Sys ProcMachine) : Prop where
  kern : s.kern = t.kern
  ctl : s.ctl = t.ctl
  /-- Control does not leave the code... -/
  notWild : s.ctl ≠ .wild
  /-- ...and the machine is not lost. -/
  machine : ∃ m, s.arch = some m ∧
    -- the slots hold the memory of the processes
    (∀ p va, inWindow va = true → m.sys.mem (slotAddr b p va) = t.arch.umem p va) ∧
    -- in USR mode the core holds the registers of the current process
    (∀ c, t.kern.current = some c → t.ctl = .user → m.core.userRegs = t.arch.regs c) ∧
    -- in the kernel interrupts are masked
    (t.ctl.phase = some .svc → KernelMode m.core.cpsr)

lemma shows_of_inStep {s : Sys (Option Machine)} {t : Sys ProcMachine}
    (h : InStep L (fun c ph => OnMachine (IsaRel T c ph)) s t) : Shows b s t := by
  obtain ⟨c, hinv⟩ := h.inv
  have harch := h.rel.arch c hinv.current
  obtain ⟨ph, m, hm, hrel⟩ := harch.exists
  refine ⟨h.rel.kern, h.rel.ctl, ?_, m, hm, hrel.arm.background.umem, ?_, ?_⟩
  · intro hwild
    have hat := hinv.atCtl
    rw [← h.rel.ctl, hwild] at hat
    exact hat
  · intro c' hc' hctl
    obtain rfl : c = c' := Option.some.inj (hinv.current.symm.trans hc')
    have hph : t.ctl.phase = some .user := by
      rw [hctl]
      rfl
    rw [atPoint_iff hph] at harch
    obtain ⟨m', hm', hrel'⟩ := harch
    obtain rfl : m = m' := Option.some.inj (hm.symm.trans hm')
    exact hrel'.user.2
  · intro hph
    rw [atPoint_iff hph] at harch
    obtain ⟨m', hm', hrel'⟩ := harch
    obtain rfl : m = m' := Option.some.inj (hm.symm.trans hm')
    exact hrel'.kernel (by simp)

/-- **The kernel at the level of instructions makes the runs of the process-level system.** -/
theorem isa_run (T : Text L) (cc : CompiledAbi) (hw : ℕ → Tlb.Refill) (mem : Memory) (core : Core)
    (sctlr : Word) (es : List Event) :
    Option.Rel (Shows b)
      (Trace.run (RingNova.step (isaArch T cc hw) b) (isaSys T cc hw mem core sctlr) es)
      (Trace.run (RingNova.step procArch b) (procSys L (userMemory b (bootMemory L mem))) es) := by
  have hrun := (implements_isa T cc hw).run (inStep_boot T cc hw mem core sctlr) es
  generalize Trace.run (RingNova.step (isaArch T cc hw) b) (isaSys T cc hw mem core sctlr) es = x
    at hrun
  generalize Trace.run (RingNova.step procArch b) (procSys L (userMemory b (bootMemory L mem))) es =
    y at hrun
  cases hrun with
  | none => exact .none
  | some h => exact .some (shows_of_inStep h)

end

end RingNova.Isa
