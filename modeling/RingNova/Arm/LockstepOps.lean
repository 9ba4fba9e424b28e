/-
# Entries and exits at the level of instructions

The code from a vector to the C handler, and from behind its call to USR mode, does to the
machine of `RingNova.Arm.Execution` what its summary does to the ARM machine (`IsaRel.enter`,
`IsaRel.leave`).  With the accesses of user code and of the handlers this gives `opsRel_isa`.
-/
import RingNova.Arm.Lockstep

namespace RingNova.Isa

section

variable {b : Board} {L : Layout b} {T : Text L} {c : Pid} {ph : Phase} {m : Machine}
  {p : ProcMachine}

/-! ### Entries -/

/-- An entry does to memory what its summary does. -/
lemma mem_enter (hcpsr : kernelCpsr m.core.cpsr = m.core.cpsr) (x : Exn) :
    ((m.toArm T).enter b x).mem = entryMem b m.core m.sys.mem x := by
  have ha : (m.toArm T).cpu.cpsr = m.core.cpsr := hcpsr
  cases x with
  | irq =>
    simp only [ArmMachine.enter, ArmMachine.exceptionEntryIrq, ha, entryMem, pushInterrupted]
    rfl
  | svc =>
    simp only [ArmMachine.enter, ArmMachine.exceptionEntrySvc, ha, entryMem, pushContext]
    rfl
  | dataAbort =>
    simp only [ArmMachine.enter, ArmMachine.exceptionEntryAbort, ha, entryMem, pushContext]
    rfl
  | prefetchAbort =>
    simp only [ArmMachine.enter, ArmMachine.exceptionEntryAbort, ha, entryMem, pushContext]
    rfl
  | undefined =>
    simp only [ArmMachine.enter, ArmMachine.exceptionEntryUndef, ha, entryMem, pushContext]
    rfl

/-- The stack pointers after an entry. -/
lemma sp_enter (a : ArmMachine) (x : Exn) :
    (a.enter b x).cpu.spSvc = (if x.stackBank = .svc then
      a.cpu.spSvc - BitVec.ofNat 32 x.frameBytes else a.cpu.spSvc) ∧
    (a.enter b x).cpu.spAbt = (if x.stackBank = .abt then
      a.cpu.spAbt - BitVec.ofNat 32 x.frameBytes else a.cpu.spAbt) ∧
    (a.enter b x).cpu.spUnd = (if x.stackBank = .und then
      a.cpu.spUnd - BitVec.ofNat 32 x.frameBytes else a.cpu.spUnd) := by
  have h60 : ∀ (sp : Word) r lr spsr, below (below sp (gprsAnd r lr)) [spsr] =
      sp - BitVec.ofNat 32 60 := by
    intro sp r lr spsr
    rw [below, below, length_gprsAnd, sub_ofNat_sub_ofNat]
    rfl
  have h64 : ∀ (sp : Word) r lr pc spsr, below (below sp [pc, spsr]) (gprsAnd r lr) =
      sp - BitVec.ofNat 32 64 := by
    intro sp r lr pc spsr
    rw [below, below, length_gprsAnd, sub_ofNat_sub_ofNat]
    rfl
  cases x with
  | irq => exact ⟨h64 _ _ _ _ _, rfl, rfl⟩
  | svc => exact ⟨h60 _ _ _ _, rfl, rfl⟩
  | dataAbort => exact ⟨rfl, h60 _ _ _ _, rfl⟩
  | prefetchAbort => exact ⟨rfl, h60 _ _ _ _, rfl⟩
  | undefined => exact ⟨rfl, rfl, h60 _ _ _ _⟩

lemma View.self {m : Mmu} {n : KernelMem} (h : View T m n) (hs : n.stale = false) :
    View T m ⟨m.mem, m.ttbr0, false⟩ := by
  obtain ⟨mem, ttbr0, stale⟩ := n
  obtain rfl : stale = false := hs
  rw [h.mem, h.ttbr0]
  exact h

/-- The machine in a handler of the kernel. -/
lemma kernelCpsr_of {psr : Word} (h : KernelMode psr) : kernelCpsr psr = svcMode := if_pos h

/-- The registers after an entry are those after its summary. -/
lemma Entered.sameCpu {x : Exn} {core' : Core} (h : Entered T x m.core core') {ttbr0 : Word}
    (ht : ttbr0 = m.sys.ttbr0) :
    SameCpu x.phase ((m.toArm T).enter b x).cpu (core'.toCpu ttbr0) := by
  obtain ⟨hsvc, habt, hund⟩ := sp_enter (b := b) (m.toArm T) x
  have hsp : ∀ k, core'.sp k = if x.stackBank = k then
      m.core.sp k - BitVec.ofNat 32 x.frameBytes else m.core.sp k := by
    intro k
    rw [h.sp]
    by_cases hk : x.stackBank = k
    · rw [if_pos hk, ← hk, Function.update_self]
    · rw [if_neg hk, Function.update_of_ne (Ne.symm hk)]
  refine ⟨?_, (hsp .svc).trans hsvc.symm, (hsp .abt).trans habt.symm, (hsp .und).trans hund.symm,
    ?_, ?_, (kernelCpsr_of h.mode).trans ?_, fun hph => ?_⟩
  · rw [show (core'.toCpu ttbr0).ttbr0 = ttbr0 from rfl, ht]
    cases x <;> rfl
  · refine (hsp .usr).trans ?_
    cases x <;> rfl
  · refine h.lrUsr.trans ?_
    cases x <;> rfl
  · cases x <;> rfl
  · cases x <;> exact absurd hph (by simp [Exn.phase])

/-- **Entries in step.**  The code from the vector to the handler does what its summary does. -/
lemma IsaRel.enter (h : IsaRel T c .user m p) (hw : ℕ → Tlb.Refill) (x : Exn) :
    ∃ m', m.enter T hw c x = some m' ∧ IsaRel T c x.phase m' (p.enter c x) ∧
      m'.sys.mem = ((m.toArm T).enter b x).mem ∧
      (x ≠ .irq → m'.arg c = m.core.sp x.stackBank - BitVec.ofNat 32 x.frameBytes) := by
  obtain ⟨⟨R, hfor, hin⟩, hfree⟩ := h.entryStack x
  have hcpsr : kernelCpsr m.core.cpsr = m.core.cpsr := if_neg (not_kernelMode h.user.1)
  obtain ⟨core', hrun, hentered⟩ := run_entry T x m.core ⟨m.sys.mem, m.sys.ttbr0, false⟩ hfree
  rw [← h.view.vbar] at hrun
  obtain ⟨sys', hrun', hview⟩ := (view_sim T hw).run h.view hrun
  have hmem : sys'.mem = entryMem b m.core m.sys.mem x := hview.mem
  have hwithin : Memory.Within R m.sys.mem sys'.mem := by
    rw [hmem]
    exact (entryMem_within hfree.readable).mono hin
  have henter : m.enter T hw c x = some { m with
      core := core', sys := sys', arg := Function.update m.arg c (core'.r 0) } := by
    simp only [Machine.enter, Machine.runCode, hrun', Option.map_some, Option.bind_eq_bind,
      Option.bind_some, hentered.pc, hentered.lr, hentered.mode, and_self, if_true, Option.pure_def]
  have hcont : (p.enter c x).cont = p.cont := by cases x <;> rfl
  have hphase : x.phase ≠ .user := by cases x <;> simp [Exn.phase]
  refine ⟨_, henter, ⟨?_, hview.self rfl, h.pcbs.write hfor hwithin,
    fun _ => hentered.mode, fun q hq => ?_⟩, hmem.trans (mem_enter hcpsr x).symm, fun hx => ?_⟩
  · have hmem' : sys'.mem = ((m.toArm T).enter b x).mem := hmem.trans (mem_enter hcpsr x).symm
    refine (h.arm.enter x).congr (hentered.sameCpu hview.ttbr0) ?_ ?_ ?_ ?_
    · rw [show (Machine.toArm T _).mem = sys'.mem from rfl, hmem']
      exact Undisturbed.refl L c _
    · rw [show (Machine.toArm T _).mem = sys'.mem from rfl, hmem']
      exact Memory.Agree.refl _ _
    · refine Eq.trans (hfor.ctx hwithin) ?_
      cases x <;> rfl
    · cases x <;> rfl
  · by_cases hqc : q = c
    · subst hqc
      rw [if_pos rfl] at hq
      obtain rfl : x = .svc := by cases x <;> simp_all [Exn.phase]
      have hsp : m.core.sp .svc = L.kstackTop q := L.spSvc_user h.arm
      refine (Function.update_self _ _ _).trans ((hentered.arg (by simp)).trans ?_)
      exact congrArg (· - BitVec.ofNat 32 60) hsp
    · rw [if_neg hqc, hcont] at hq
      refine (Function.update_of_ne hqc _ _).trans (h.arg q ?_)
      rw [if_neg hqc]
      exact hq
  · exact (Function.update_self _ _ _).trans (hentered.arg hx)

/-! ### In a handler -/

lemma IsaRel.word (h : IsaRel T c ph m p) {va : Word} {n : ℕ} (hread : Readable b va n) {k : ℕ}
    (hk : k < n) : m.word (va + BitVec.ofNat 32 k) = m.sys.mem.load32 (b.pa va + k) := by
  have hpa := hread.pa_add (k := k) (by omega)
  have hram := hread.ram
  have hmem : b.ram.Mem (b.pa (va + BitVec.ofNat 32 k)) := by
    rw [hpa]
    simp only [Region.Within, Region.Mem] at hram ⊢
    omega
  rw [Machine.word, h.view.translate hmem, hpa]
  rfl

/-- The frame that a handler is given. -/
lemma IsaRel.context (h : IsaRel T c ph m p) {q : Pid} (hread : Readable b (m.arg q) 60) :
    m.context q = ArmMachine.contextAt m.sys.mem (b.pa (m.arg q)) := by
  have h0 : m.word (m.arg q) = m.sys.mem.load32 (b.pa (m.arg q)) := by
    have hword := h.word hread (k := 0) (by omega)
    rwa [BitVec.add_zero, Nat.add_zero] at hword
  have hr : ∀ i : Fin 13, m.word (m.arg q + BitVec.ofNat 32 (4 + 4 * i)) =
      m.sys.mem.load32 (b.pa (m.arg q) + 4 + 4 * i) := by
    intro i
    have hi := i.isLt
    rw [h.word hread (by omega), Nat.add_assoc]
  rw [Machine.context, ArmMachine.contextAt, h0, h.word hread (by omega)]
  exact congrArg (fun r => ExceptionContext.mk _ r _) (funext hr)

/-- The frame of an `svc`. -/
lemma IsaRel.arg_svc (h : IsaRel T c .svc m p) : m.arg c = m.core.sp .svc ∧
    Readable b (m.arg c) 60 := by
  have harg := h.arg c (if_pos rfl)
  have hsp : m.core.sp .svc = L.kstackTop c - BitVec.ofNat 32 60 := h.arm.spSvc
  refine ⟨harg.trans hsp.symm, ?_⟩
  rw [harg]
  exact (free_stack T c (by omega) (le_refl 60) (by omega)).readable

/-- `ctx->r[0] = ret`. -/
lemma IsaRel.setRet (h : IsaRel T c .svc m p) (v : Word) :
    ∃ m', m.setRet c v = some m' ∧ IsaRel T c .svc m' (procArch.setRet p c v) := by
  obtain ⟨harg, hread⟩ := h.arg_svc
  have hpa : b.pa (m.arg c + 4#32) = b.pa (m.core.sp .svc) + 4 := by
    rw [← harg]
    exact hread.pa_add (k := 4) (by omega)
  have hreach := (hread.add (k := 4) (by omega) (by omega)).reaches (by omega)
  have hset : m.setRet c v = some { m with sys := { m.sys with
      mem := m.sys.mem.store32 (b.pa (m.core.sp .svc) + 4) v } } := by
    rw [Machine.setRet, show m.arg c + 4#32 = m.arg c + BitVec.ofNat 32 4 from rfl,
      h.view.translate hreach.2.2, show m.arg c + BitVec.ofNat 32 4 = m.arg c + 4#32 from rfl, hpa]
    rfl
  have hin : Memory.Within (L.stack c) m.sys.mem
      (m.sys.mem.store32 (b.pa (m.core.sp .svc) + 4) v) := by
    refine (Memory.store32_within _ _ _).mono (Region.Within.trans ?_ (frame_within_stack L c .svc))
    rw [show b.pa (m.core.sp .svc) = L.frameAddr c .svc from h.arm.pa_spSvc]
    simp only [Region.Within, Phase.frameSize]
    omega
  have hfor := foreign_stack T c
  refine ⟨_, hset, ?_, h.view.write hfor.tables hin, h.pcbs.write hfor hin,
    h.kernel, h.arg⟩
  exact (h.arm.setRet v).congr ⟨rfl, rfl, rfl, rfl, rfl, rfl, rfl, fun _ => ⟨rfl, rfl⟩⟩
    (Undisturbed.refl L c _) (Memory.Agree.refl _ _) (hfor.ctx hin) rfl

/-- The stack below the frame of the current process. -/
lemma IsaRel.freeStack_within (h : IsaRel T c ph m p) :
    (ArmMachine.freeStack L c (m.core.sp .svc)).Within (L.stack c) := by
  have hsize : (L.stack c).size = 8192 := rfl
  have hsp : b.pa (m.core.sp .svc) = L.frameAddr c ph := h.arm.pa_spSvc
  rw [ArmMachine.freeStack, hsp, Layout.frameAddr, Nat.add_sub_cancel_left]
  simp only [Region.Within, hsize]
  omega

/-- Code that keeps the stack pointers, the mode and what is not its own on the stack. -/
lemma IsaRel.ranOn (h : IsaRel T c ph m p) (hph : ph ≠ .user) (cc : CompiledAbi) {core : Core}
    (hsp : core.sp = m.core.sp) (hlr : core.lr .usr = m.core.lr .usr) (hmode : KernelMode core.cpsr)
    {mem : Memory} (hmem : mem = m.sys.mem.overwrite (ArmMachine.freeStack L c (m.core.sp .svc))
      (cc.stack m.time)) :
    IsaRel T c ph
      { m with core := core, sys := { m.sys with mem := mem }, time := m.time + 1 } p := by
  have hin : Memory.Within (L.stack c) m.sys.mem mem := by
    rw [hmem]
    exact (Memory.overwrite_within _ _ _).mono h.freeStack_within
  have hran : ((m.toArm T).ranC L cc.toCompiledC c).mem = mem := hmem.symm
  have hfor := foreign_stack T c
  have hcpsr : kernelCpsr core.cpsr = kernelCpsr m.core.cpsr :=
    (kernelCpsr_of hmode).trans (kernelCpsr_of (h.kernel hph)).symm
  have hsp' : ∀ k, core.sp k = m.core.sp k := congrFun hsp
  have hund : Undisturbed L c ((m.toArm T).ranC L cc.toCompiledC c).mem mem := by
    rw [hran]
    exact Undisturbed.refl L c _
  have hstack : Memory.Agree (L.stack c) ((m.toArm T).ranC L cc.toCompiledC c).mem mem := by
    rw [hran]
    exact Memory.Agree.refl _ _
  refine ⟨?_, h.view.write hfor.tables hin, h.pcbs.write hfor hin,
    fun _ => hmode, h.arg⟩
  exact (h.arm.ranC cc.toCompiledC).congr ⟨rfl, hsp' .svc, hsp' .abt, hsp' .und, hsp' .usr, hlr,
    hcpsr, fun hu => absurd hu hph⟩ hund hstack (hfor.ctx hin) rfl

/-- C code has run on the stack of the current process. -/
lemma IsaRel.ranC (h : IsaRel T c ph m p) (hph : ph ≠ .user) (cc : CompiledAbi) (pc : Word) :
    IsaRel T c ph (Machine.ranC cc L m c pc) p := by
  have hsp : (Machine.ranC cc L m c pc).core.sp = m.core.sp := rfl
  have hlr : (Machine.ranC cc L m c pc).core.lr .usr = m.core.lr .usr := by
    simp [Machine.ranC]
  exact h.ranOn hph cc hsp hlr (kernelMode_withFlags (h.kernel hph) _) rfl

/-! ### Exits -/

/-- The machine in USR mode. -/
lemma IsaRel.left (h : IsaRel T c ph m p) {a : ArmMachine} (harm : ArmRel L c .user a p)
    (hmem : a.mem = m.sys.mem) (hctx : a.ctx = procContext T m.sys.mem)
    (hframes : a.frames = m.frames) {core : Core} {sys : Mmu}
    (hview : View T sys ⟨m.sys.mem, m.sys.ttbr0, false⟩)
    (hcpu : SameCpu .user a.cpu { core.toCpu sys.ttbr0 with cpsr := core.cpsr }) :
    IsaRel T c .user { m with core := core, sys := sys } p := by
  have hsys : sys.mem = m.sys.mem := hview.mem
  have hcpsr : kernelCpsr core.cpsr = a.cpu.cpsr := by
    refine (if_neg (not_kernelMode (cpsr_and_mode ?_))).trans hcpu.cpsr
    rw [show core.cpsr = a.cpu.cpsr from hcpu.cpsr, (userRegs_parts harm).2.2]
    exact harm.background.mode c
  have hund : Undisturbed L c a.mem sys.mem := by
    rw [hmem, hsys]
    exact Undisturbed.refl L c _
  have hstack : Memory.Agree (L.stack c) a.mem sys.mem := by
    rw [hmem, hsys]
    exact Memory.Agree.refl _ _
  have hctx' : procContext T sys.mem = a.ctx := by rw [hctx, hsys]
  have hcpu' : SameCpu .user a.cpu (core.toCpu sys.ttbr0) := { hcpu with cpsr := hcpsr }
  refine ⟨harm.congr hcpu' hund hstack hctx' hframes.symm, hview.self rfl, hsys ▸ h.pcbs,
    fun hu => absurd rfl hu, fun q hq => h.arg q ?_⟩
  · by_cases hqc : q = c
    · rw [if_pos hqc] at hq
      exact absurd hq (by simp)
    · rwa [if_neg hqc] at hq ⊢

/-- `runCode`, on the memory that the kernel sees. -/
lemma View.runCode {n n' : KernelMem} (h : View T m.sys n) (hw : ℕ → Tlb.Refill) {k : ℕ}
    {core : Core} (hrun : run (kernelBus T) k ⟨m.core, n⟩ = some ⟨core, n'⟩) :
    ∃ sys, m.runCode T hw k = some { m with core := core, sys := sys } ∧ View T sys n' := by
  obtain ⟨sys, hrun', hview⟩ := (view_sim T hw).run h hrun
  refine ⟨sys, ?_, hview⟩
  rw [Machine.runCode, hrun']
  rfl

/-- A frame on the kernel stack of the current process. -/
lemma IsaRel.readable_frame (h : IsaRel T c ph m p) :
    Readable b (m.core.sp .svc) ph.frameSize := by
  rw [show m.core.sp .svc = L.kstackTop c - BitVec.ofNat 32 ph.frameSize from h.arm.spSvc]
  have hle := ph.frameSize_le
  exact (free_stack T c (by omega) (le_refl _) (by cases ph <;> rfl)).readable

/-- The end of `exception_entry_irq`, and `ret_from_first_entry`. -/
lemma IsaRel.exitIrq (h : IsaRel T c .irq m p) (hw : ℕ → Tlb.Refill)
    (hsits : Sits (kernelBus T) m.core.pc exceptionExitIrq) :
    ∃ m', m.runCode T hw exceptionExitIrq.length = some m' ∧ IsaRel T c .user m' p := by
  obtain ⟨core, hrun, hl⟩ := run_exitIrq (h.kernel (by simp)) hsits h.readable_frame
    ⟨m.sys.mem, m.sys.ttbr0, false⟩
  obtain ⟨sys, hcode, hview⟩ := h.view.runCode hw hrun
  have hsp : ∀ k, k ≠ .svc → core.sp k = m.core.sp k := fun k hk => by
    rw [hl.sp, Function.update_of_ne hk]
  refine ⟨_, hcode, h.left h.arm.exitIrq rfl rfl rfl hview ⟨hview.ttbr0, ?_, hsp .abt (by decide),
    hsp .und (by decide), hsp .usr (by decide), hl.lrUsr, hl.cpsr, fun _ => ⟨funext hl.r, hl.pc⟩⟩⟩
  exact (congrFun hl.sp .svc).trans (Function.update_self _ _ _)

/-- The end of `exception_entry_svc`. -/
lemma IsaRel.exitSvc (h : IsaRel T c .svc m p) (hw : ℕ → Tlb.Refill)
    (hpc : m.core.pc = T.returnTo .svc) :
    ∃ m', m.runCode T hw exceptionExitSvc.length = some m' ∧ IsaRel T c .user m' p := by
  obtain ⟨core, hrun, hl⟩ := run_exitSvc (h.kernel (by simp)) hpc h.readable_frame
    ⟨m.sys.mem, m.sys.ttbr0, false⟩
  obtain ⟨sys, hcode, hview⟩ := h.view.runCode hw hrun
  have hsp : ∀ k, k ≠ .svc → core.sp k = m.core.sp k := fun k hk => by
    rw [hl.sp, Function.update_of_ne hk]
  refine ⟨_, hcode, h.left h.arm.exitSvc rfl rfl rfl hview ⟨hview.ttbr0, ?_, hsp .abt (by decide),
    hsp .und (by decide), hsp .usr (by decide), congrFun hl.lr .usr, hl.cpsr, fun _ =>
      ⟨funext hl.r, hl.pc⟩⟩⟩
  exact (congrFun hl.sp .svc).trans (Function.update_self _ _ _)

/-- **Exits in step.** -/
lemma IsaRel.leave (h : IsaRel T c ph m p) (cc : CompiledAbi) (hw : ℕ → Tlb.Refill) (x : Exit)
    (hx : x.phase = ph) : ∃ m', m.leave T cc hw c x = some m' ∧ IsaRel T c .user m' p := by
  subst hx
  cases x with
  | first =>
    have h' : IsaRel T c .irq { m with core := m.core.goto L.retFromFirstEntry } p :=
      ⟨h.arm.congr ⟨rfl, rfl, rfl, rfl, rfl, rfl, rfl, fun hu => absurd hu (by simp [Exit.phase])⟩
        (Undisturbed.refl L c _) (Memory.Agree.refl _ _) rfl rfl, h.view, h.pcbs, h.kernel, h.arg⟩
    refine h'.exitIrq hw ?_
    rw [← retFromFirstEntryCode_eq]
    exact sits_of_placed T.first_placed
  | irq => exact (h.ranC (by simp [Exit.phase]) cc _).exitIrq hw (sits_entry T .irq).2
  | svc => exact (h.ranC (by simp [Exit.phase]) cc _).exitSvc hw rfl

/-! ### The operations -/

/-- The machine is not lost, and related. -/
def OnMachine (R : Machine → ProcMachine → Prop) (s : Option Machine) (p : ProcMachine) : Prop :=
  ∃ m, s = some m ∧ R m p

/-- **The code of the kernel works for the current process as its summary does.** -/
theorem opsRel_isa (T : Text L) (cc : CompiledAbi) (hw : ℕ → Tlb.Refill) (c : Pid) :
    OpsRel (isaArch T cc hw) procArch c (fun ph => OnMachine (IsaRel T c ph)) where
  exec := by
    rintro _ p f ⟨m, rfl, h⟩
    have hcpsr : m.core.cpsr = (p.regs c).cpsr := congrArg UserRegs.cpsr h.user.2
    simp only [isaArch, procArch, Option.bind_some, Machine.exec, h.user.2, hcpsr]
    split
    next hpriv =>
      exact .some ⟨_, rfl, h.setUserRegs (hpriv.trans (h.arm.background.mode c))⟩
    next => exact .none
  uload := by
    rintro _ p va rd ⟨m, rfl, h⟩
    have hr := h.refill hw
    have htr : (m.refill hw).sys.translate va (privileged (m.refill hw).core.cpsr) .read = _ :=
      hr.translate_user va false
    simp only [isaArch, procArch, Option.bind_some, Machine.load, htr]
    by_cases hin : inWindow va = true
    · have hset := hr.setUserRegs (u := { p.regs c with
        r := Function.update (p.regs c).r rd ((p.umem c va).setWidth 32) })
        (h.arm.background.mode c)
      have hbyte : (m.refill hw).sys.mem (slotAddr b c va) = p.umem c va :=
        hr.arm.background.umem c va hin
      rw [if_pos hin, if_pos hin, Option.map_some, Option.map_some, hbyte]
      refine .some ⟨_, rfl, ?_⟩
      rw [← h.user.2] at hset ⊢
      have hcore : Core.setUserRegs m.core { m.core.userRegs with
          r := Function.update m.core.userRegs.r rd ((p.umem c va).setWidth 32) } =
          { m.core with r := Function.update m.core.r rd ((p.umem c va).setWidth 32) } := by
        simp [Core.setUserRegs, Core.userRegs]
      exact hcore ▸ hset
    · rw [if_neg hin, if_neg hin]
      exact .none
  ustore := by
    rintro _ p va ch ⟨m, rfl, h⟩
    have hr := h.refill hw
    have htr : (m.refill hw).sys.translate va (privileged (m.refill hw).core.cpsr) .write = _ :=
      hr.translate_user va true
    simp only [isaArch, procArch, Option.bind_some, Machine.store, htr]
    by_cases hin : inWindow va = true
    · rw [if_pos hin, if_pos hin]
      exact .some ⟨_, rfl, hr.store hin ch⟩
    · rw [if_neg hin, if_neg hin]
      exact .none
  enter := by
    rintro _ p x ⟨m, rfl, h⟩
    obtain ⟨m', henter, hrel, -⟩ := h.enter hw x
    exact ⟨m', henter, hrel⟩
  ctxFault := by
    rintro _ p kind ⟨m, rfl, h⟩
    obtain ⟨m', henter, hrel, hmem, harg⟩ := h.enter hw kind.exn
    have hfree := (h.entryStack kind.exn).2
    have hread : Readable b (m'.arg c) 60 := by
      rw [harg (by cases kind <;> decide)]
      cases kind <;> exact hfree.readable
    have hptr : ((m.toArm T).enter b kind.exn).contextPtr kind.exn = m'.arg c := by
      rw [harg (by cases kind <;> decide)]
      obtain ⟨-, habt, hund⟩ := sp_enter (b := b) (m.toArm T) kind.exn
      cases kind with
      | dataAbort => exact habt
      | prefetchAbort => exact habt
      | undefined => exact hund
    have hctx : (isaArch T cc hw).ctx ((isaArch T cc hw).enter (some m) c kind.exn) c kind.exn =
        m'.context c := by
      simp only [isaArch, Option.bind_some, henter, Option.map_some, Option.getD_some]
    rw [hctx, hrel.context hread, hmem, ← hptr]
    exact h.arm.faultContext kind
  ctxSvc := by
    rintro _ p ⟨m, rfl, h⟩
    obtain ⟨harg, hread⟩ := h.arg_svc
    refine (h.context hread).trans ?_
    rw [harg]
    exact h.arm.svcContext
  setRet := by
    rintro _ p v ⟨m, rfl, h⟩
    exact h.setRet v
  kload := by
    rintro _ p va hin ⟨m, rfl, h⟩
    have hr := h.refill hw
    have htr : (m.refill hw).sys.translate va (privileged (m.refill hw).core.cpsr) .read = _ :=
      hr.translate_window (by simp) hin false
    simp only [isaArch, procArch, Option.bind_some, Machine.load, htr, Option.map_some, if_pos hin]
    exact congrArg some (hr.arm.background.umem c va hin)
  kstore := by
    rintro _ p va ch hin ⟨m, rfl, h⟩
    have hr := h.refill hw
    have htr : (m.refill hw).sys.translate va (privileged (m.refill hw).core.cpsr) .write = _ :=
      hr.translate_window (by simp) hin true
    simp only [isaArch, procArch, Option.bind_some, Machine.store, htr, Option.map_some, if_pos hin]
    exact .some ⟨_, rfl, hr.store hin ch⟩

end

end RingNova.Isa
