/-
# `context_switch` at the level of instructions

The code of `context_switch` parks the process that gives up the CPU in its PCB and on its stack,
and brings back the next one, on the memory system with its TLB and across the write to TTBR0
(`IsaRel.switch`).  In memory it leaves what its summary leaves, up to the PCBs, which the
summary keeps apart (`Parked`).
-/
import RingNova.Arm.LockstepOps

namespace RingNova.Isa

section

variable {b : Board} {L : Layout b} {T : Text L} {c n : Pid} {ph : Phase} {m : Machine}
  {p : ProcMachine} {site : Cont}

/-! ### The call -/

/-- The assembly can write to a PCB. -/
lemma free_pcb (T : Text L) (q : Pid) : Free T (T.pcb q) sizeofProcess := by
  refine ⟨?_, T.pcbs, by simp [Text.data], ?_⟩
  · have hal := T.processes_aligned
    have hsize : sizeofProcess = 112 := rfl
    rw [Text.pcb]
    exact aligned_add ((aligned_iff _).2 hal) (by rw [hsize]; omega)
  · have hin := pcb_within (T := T) q (k := 0) (n := sizeofProcess) (by omega)
    rwa [BitVec.add_zero] at hin

/-- No PCB is at address zero. -/
lemma pcb_ne_zero (T : Text L) (q : Pid) : T.pcb q ≠ 0#32 := by
  intro h0
  have hreach := (free_pcb T q).readable.reaches (by decide)
  rw [h0] at hreach
  have hram : ¬ b.ram.Mem (b.pa 0#32) := by cases b <;> decide
  exact hram hreach.2.2

/-- The stack pointer at the call of `context_switch`. -/
lemma IsaRel.sp_call (h : IsaRel T c ph m p) (d k : ℕ) :
    m.core.sp .svc - BitVec.ofNat 32 d - BitVec.ofNat 32 k =
      L.kstackTop c - BitVec.ofNat 32 (ph.frameSize + d + k) := by
  rw [show m.core.sp .svc = L.kstackTop c - BitVec.ofNat 32 ph.frameSize from h.arm.spSvc,
    sub_ofNat_sub_ofNat, sub_ofNat_sub_ofNat, Nat.add_assoc]

lemma IsaRel.free_call (h : IsaRel T c ph m p) (cc : CompiledAbi) :
    Free T (m.core.sp .svc - BitVec.ofNat 32 (cc.depth m.time) - BitVec.ofNat 32 36) 36 := by
  have hd := cc.depth_le m.time
  have hal := cc.depth_aligned m.time
  have hfs := ph.frameSize_le
  have hfs4 : ph.frameSize % 4 = 0 := by cases ph <;> rfl
  rw [h.sp_call]
  exact free_stack T c (by omega) (by omega) (by omega)

/-- The registers that `context_switch` pushes. -/
lemma calleeWords_callSwitch (T : Text L) (cc : CompiledAbi) (m : Machine) (prev next : Pid)
    (site : Cont) (lr : Word) : calleeWords (m.callSwitch T cc prev next site).core.r lr =
      List.ofFn (cc.callee m.time) ++ [lr] := by
  simp [calleeWords, Machine.callSwitch, List.ofFn_succ]

/-! ### What the save side leaves -/

/-- The words that the save side writes to a PCB. -/
def parkedMem (T : Text L) (mem : Memory) (q : Pid) (spSvc spUsr lrUsr : Word) : Memory :=
  ((mem.store32 (b.pa (T.pcb q + ctxSpSvcOffset)) spSvc).store32
    (b.pa (T.pcb q + ctxSpUsrOffset)) spUsr).store32 (b.pa (T.pcb q + ctxLrUsrOffset)) lrUsr

lemma parkedMem_within (T : Text L) (mem : Memory) (q : Pid) (spSvc spUsr lrUsr : Word) :
    Memory.Within T.pcbs mem (parkedMem T mem q spSvc spUsr lrUsr) := by
  have hin : ∀ k, k + 4 ≤ sizeofProcess → Region.Within
      ⟨b.pa (T.pcb q + BitVec.ofNat 32 k), 4⟩ T.pcbs := fun k hk => pcb_within q hk
  exact ((Memory.store32_within _ _ _).mono (hin 52 (by decide))).trans
    (((Memory.store32_within _ _ _).mono (hin 64 (by decide))).trans
      ((Memory.store32_within _ _ _).mono (hin 68 (by decide))))

/-- A word of a PCB after another one has been written. -/
lemma pcbWord_store32 (mem : Memory) (q q' : Pid) {k k' : ℕ} (hk : k + 4 ≤ sizeofProcess)
    (hk' : k' + 4 ≤ sizeofProcess) (h : q' = q → k' + 4 ≤ k ∨ k + 4 ≤ k') (w : Word) :
    pcbWord T (mem.store32 (b.pa (T.pcb q + BitVec.ofNat 32 k)) w) q' (BitVec.ofNat 32 k') =
      pcbWord T mem q' (BitVec.ofNat 32 k') := by
  have hsize : sizeofProcess = 112 := rfl
  refine ((Memory.store32_within _ _ _).agree ?_).load32 ⟨le_refl _, le_refl _⟩
  rw [pcb_addr q (by omega), pcb_addr q' (by omega)]
  simp only [Region.Apart, hsize] at *
  by_cases hq : q' = q
  · subst hq
    have := h rfl
    omega
  · have hne : (q' : ℕ) ≠ q := fun he => hq (Fin.ext he)
    omega

/-- A word of a PCB after the save side. -/
lemma pcbWord_parkedMem (mem : Memory) (q q' : Pid) (spSvc spUsr lrUsr : Word) {k : ℕ}
    (hk : k + 4 ≤ sizeofProcess) (hk4 : k % 4 = 0) :
    pcbWord T (parkedMem T mem q spSvc spUsr lrUsr) q' (BitVec.ofNat 32 k) =
      if q' = q ∧ k = 52 then spSvc
      else if q' = q ∧ k = 64 then spUsr
      else if q' = q ∧ k = 68 then lrUsr
      else pcbWord T mem q' (BitVec.ofNat 32 k) := by
  have hstore : ∀ (mem : Memory) (k₀ : ℕ) (w : Word), k₀ + 4 ≤ sizeofProcess → k₀ % 4 = 0 →
      ¬ (q' = q ∧ k = k₀) →
      pcbWord T (mem.store32 (b.pa (T.pcb q + BitVec.ofNat 32 k₀)) w) q' (BitVec.ofNat 32 k) =
        pcbWord T mem q' (BitVec.ofNat 32 k) := by
    intro mem k₀ w hk₀ hk₀4 hne
    refine pcbWord_store32 mem q q' hk₀ hk (fun hq => ?_) w
    have : k ≠ k₀ := fun hk => hne ⟨hq, hk⟩
    omega
  rw [parkedMem]
  by_cases h68 : q' = q ∧ k = 68
  · obtain ⟨rfl, rfl⟩ := h68
    simp only [Nat.reduceEqDiff, and_false, if_false, and_self, if_true]
    exact Memory.load32_store32 _ _ _
  · rw [if_neg h68, show ctxLrUsrOffset = BitVec.ofNat 32 68 from rfl,
      hstore _ 68 _ (by decide) rfl h68]
    by_cases h64 : q' = q ∧ k = 64
    · obtain ⟨rfl, rfl⟩ := h64
      simp only [Nat.reduceEqDiff, and_false, if_false, and_self, if_true]
      exact Memory.load32_store32 _ _ _
    · rw [if_neg h64, show ctxSpUsrOffset = BitVec.ofNat 32 64 from rfl,
        hstore _ 64 _ (by decide) rfl h64]
      by_cases h52 : q' = q ∧ k = 52
      · obtain ⟨rfl, rfl⟩ := h52
        simp only [and_self, if_true]
        exact Memory.load32_store32 _ _ _
      · rw [if_neg h52, show ctxSpSvcOffset = BitVec.ofNat 32 52 from rfl,
          hstore _ 52 _ (by decide) rfl h52]

/-- The members of `ctx` that `context_switch` uses, by their constants in the assembly. -/
lemma procContext_eq (T : Text L) (mem : Memory) (q : Pid) :
    (procContext T mem q).spSvc = pcbWord T mem q ctxSpSvcOffset ∧
      (procContext T mem q).spUsr = pcbWord T mem q ctxSpUsrOffset ∧
      (procContext T mem q).lrUsr = pcbWord T mem q ctxLrUsrOffset := by
  obtain ⟨h1, h2, h3, -⟩ := offsets_agree
  simp only [procContext, h1, h2, h3, and_self]

lemma procContext_parkedMem (T : Text L) (mem : Memory) (q : Pid) (spSvc spUsr lrUsr : Word) :
    procContext T (parkedMem T mem q spSvc spUsr lrUsr) =
      Function.update (procContext T mem) q { procContext T mem q with
        spSvc := spSvc, spUsr := spUsr, lrUsr := lrUsr } := by
  have hword := fun q' k hk hk4 =>
    pcbWord_parkedMem (T := T) (k := k) mem q q' spSvc spUsr lrUsr hk hk4
  have hoff : CtxField.spSvc.offset = BitVec.ofNat 32 52 ∧
      CtxField.lrSvc.offset = BitVec.ofNat 32 56 ∧ CtxField.spsr.offset = BitVec.ofNat 32 60 ∧
      CtxField.spUsr.offset = BitVec.ofNat 32 64 ∧ CtxField.lrUsr.offset = BitVec.ofNat 32 68 := by
    decide
  obtain ⟨h52, h56, h60, h64, h68⟩ := hoff
  funext q'
  simp only [procContext, h52, h56, h60, h64, h68]
  rw [hword q' 52 (by decide) rfl, hword q' 56 (by decide) rfl, hword q' 60 (by decide) rfl,
    hword q' 64 (by decide) rfl, hword q' 68 (by decide) rfl]
  by_cases hq : q' = q
  · subst hq
    simp
  · simp [hq, procContext, h52, h56, h60, h64, h68]

/-- The save side writes what its summary has in memory, and the PCB. -/
lemma savedMem_callSwitch (T : Text L) (cc : CompiledAbi) (m : Machine) (c n : Pid) (site : Cont) :
    savedMem b (m.callSwitch T cc c n site).core (m.callSwitch T cc c n site).sys.mem =
      parkedMem T ((m.toArm T).savePrev L cc.toCompiledC c site).mem c
        (m.core.sp .svc - BitVec.ofNat 32 (cc.depth m.time) - BitVec.ofNat 32 36)
        (m.core.sp .usr) (m.core.lr .usr) := by
  have hwords := calleeWords_callSwitch T cc m c n site L.switchReturn
  have hsp : (m.callSwitch T cc c n site).core.sp .svc =
      m.core.sp .svc - BitVec.ofNat 32 (cc.depth m.time) := by
    simp [Machine.callSwitch]
  have hspu : (m.callSwitch T cc c n site).core.sp .usr = m.core.sp .usr := by
    simp [Machine.callSwitch]
  have hlr : (m.callSwitch T cc c n site).core.lr .svc = L.switchReturn := by
    simp [Machine.callSwitch]
  have hlru : (m.callSwitch T cc c n site).core.lr .usr = m.core.lr .usr := by
    simp [Machine.callSwitch]
  have hr : (m.callSwitch T cc c n site).core.r 0 = T.pcb c := rfl
  have hmem : ((m.toArm T).savePrev L cc.toCompiledC c site).mem =
      stmfd b (m.callSwitch T cc c n site).sys.mem
        (m.core.sp .svc - BitVec.ofNat 32 (cc.depth m.time))
        (List.ofFn (cc.callee m.time) ++ [L.switchReturn]) :=
    mem_savePrev cc.toCompiledC (m.toArm T) c site
  rw [savedMem, parkedMem, hmem, hsp, hspu, hlr, hlru, hr, hwords]

/-- What the save side leaves in memory. -/
structure Parked (T : Text L) (a : ArmMachine) (mem : Memory) : Prop where
  within : Memory.Within T.pcbs a.mem mem
  ctx : procContext T mem = a.ctx
  ok : PcbsOk T mem

lemma IsaRel.parked (h : IsaRel T c site.phase m p) (cc : CompiledAbi) (n : Pid) :
    Parked T ((m.toArm T).savePrev L cc.toCompiledC c site)
      (savedMem b (m.callSwitch T cc c n site).core (m.callSwitch T cc c n site).sys.mem) := by
  have hst := (h.arm.savePrev cc.toCompiledC).1
  have hfor := foreign_stack T c
  have hok := h.pcbs.write hfor hst
  rw [savedMem_callSwitch]
  refine ⟨parkedMem_within _ _ _ _ _ _, ?_, fun q => ?_, fun q => ?_⟩
  · rw [procContext_parkedMem, hfor.ctx hst]
    simp [ArmMachine.savePrev, Machine.toArm, below, Core.toCpu]
  · refine (pcbWord_parkedMem _ c q _ _ _ (k := 88) (by decide) rfl).trans ?_
    simp only [Nat.reduceEqDiff, and_false, if_false]
    exact hok.pgd q
  · rw [show ctxSpSvcOffset = BitVec.ofNat 32 52 from rfl,
      pcbWord_parkedMem _ c q _ _ _ (k := 52) (by decide) rfl]
    by_cases hq : q = c
    · rw [if_pos ⟨hq, rfl⟩]
      exact (h.free_call cc).aligned
    · simp only [hq, false_and, if_false]
      exact hok.aligned q

/-! ### The next process -/

/-- Where a process waits, control goes to an aligned address. -/
lemma lr_aligned (T : Text L) {a : ArmMachine} {cont : Cont} (h : Waits L n a cont) :
    a.mem.load32 (b.pa (a.ctx n).spSvc + 32) &&& 3#32 = 0#32 := by
  cases h with
  | first hsp hlr =>
    have haddr : b.pa (a.ctx n).spSvc = L.resumeAddr n 64 := by
      rw [hsp]
      exact L.pa_below n (k := 100) (by omega)
    rw [haddr, hlr]
    exact T.first_placed.1.1
  | inC hf habove hfit hsp hfsp hcallee hlr hframes =>
    rw [hsp, L.pa_below n hfit]
    exact (congrArg (· &&& 3#32) hlr).trans T.switchReturn_aligned

/-- The load side finds what it needs. -/
lemma loadable_of_waits {a : ArmMachine} {cont : Cont} (h : Waits L n a cont)
    (hok : PcbsOk T a.mem) (hctx : a.ctx = procContext T a.mem) : Loadable L (T.pcb n) a.mem := by
  have hsp : (a.ctx n).spSvc = a.mem.load32 (b.pa (T.pcb n + ctxSpSvcOffset)) := by
    rw [hctx]
    exact (procContext_eq T a.mem n).1
  obtain ⟨above, hfit, haddr⟩ := h.addr
  have hlr := lr_aligned T h
  rw [hsp] at haddr hlr
  refine ⟨(free_pcb T n).readable, ?_, ⟨hok.aligned n, ?_⟩, hlr⟩
  · have hpgd : (keptContext b a.mem (T.pcb n)).pgdPa = (initPcb L n).pgdPa := hok.pgd n
    have hbase : (initPcb L n).pgdPa.toNat = (L.table n).base := L.pa_pgd n
    have halign : (initPcb L n).pgdPa.toNat % pgdSize = 0 := by
      rw [hbase]
      exact L.table_aligned n
    have htable : ((initPcb L n).pgdPa ||| 0x4A#32) &&& 0xFFFFC000#32 = (initPcb L n).pgdPa :=
      ttbr0For_base halign
    rw [hpgd, htable, hbase]
    simp [Layout.tableBases]
  · rw [keptContext, haddr]
    refine Region.Within.trans ?_ ((L.stack_within n).trans L.stacks_within_ram)
    have hsize : (L.stack n).size = 8192 := rfl
    simp only [Region.Within, Layout.resumeAddr, hsize]
    omega

/-- The core when C code goes on, on the stack of a process. -/
structure Resumed (L : Layout b) (n : Pid) (cont : Cont) (core core' : Core) : Prop where
  spSvc : core'.sp .svc = L.kstackTop n - BitVec.ofNat 32 cont.phase.frameSize
  sp : ∀ k, k ≠ .svc → core'.sp k = core.sp k
  lr : core'.lr = core.lr
  cpsr : core'.cpsr = core.cpsr

/-- Control goes to where the process waits. -/
lemma resumeC_of_waits {cont : Cont} (h : Waits L n (m.toArm T) cont)
    (hto : SwitchedTo (keptContext b m.sys.mem (T.pcb n)) m.core) (hmode : KernelMode m.core.cpsr) :
    ∃ core, m.resumeC L n = some ({ m with core := core }, cont) ∧
      Resumed L n cont m.core core := by
  have hctx : m.sys.mem.load32 (b.pa (T.pcb n + ctxSpSvcOffset)) = ((m.toArm T).ctx n).spSvc :=
    (procContext_eq T m.sys.mem n).1.symm
  have hspSvc := hto.spSvc
  have hpc := hto.pc
  have hreg := hto.callee
  simp only [keptContext, hctx] at hspSvc hpc hreg
  cases h with
  | first hsp hlr =>
    have haddr : b.pa ((m.toArm T).ctx n).spSvc = L.resumeAddr n 64 := by
      rw [hsp]
      exact L.pa_below n (k := 100) (by omega)
    rw [haddr] at hpc
    have hfirst : m.core.pc = L.retFromFirstEntry := hpc.trans hlr
    refine ⟨m.core, ?_, ⟨?_, fun _ _ => rfl, rfl, rfl⟩⟩
    · simp only [Machine.resumeC, if_pos hmode, if_pos hfirst]
    · rw [hspSvc, hsp]
      exact sub_ofNat_add_ofNat _ (i := 100) (j := 36) (by omega)
  | @inC f above hf habove hfit hsp hfsp hcallee hlr hframes =>
    have haddr : b.pa ((m.toArm T).ctx n).spSvc = L.resumeAddr n above := by
      rw [hsp]
      exact L.pa_below n hfit
    rw [haddr] at hpc
    simp only [haddr] at hreg
    have hret : m.core.pc = L.switchReturn := hpc.trans hlr
    have hne : m.core.pc ≠ L.retFromFirstEntry := by
      rw [hret]
      exact L.switchReturn_ne
    have hpop : m.core.sp .svc = L.kstackTop n - BitVec.ofNat 32 above := by
      rw [hspSvc, hsp, sub_ofNat_add_ofNat _ (by omega), Nat.add_sub_cancel]
    have hfine : m.core.sp .svc = f.sp ∧ (∀ i : Fin 8, m.core.r ⟨4 + i, by omega⟩ = f.callee i) ∧
        m.sys.mem.bytes (b.pa (m.core.sp .svc)) f.frames.length = f.frames := by
      refine ⟨hpop.trans hfsp.symm, fun i => (hreg i).trans (hcallee i), ?_⟩
      rw [hpop, L.pa_below n (by omega)]
      exact hframes
    have hf' : m.frames n = some f := hf
    refine ⟨m.core.withSp .svc (m.core.sp .svc + BitVec.ofNat 32 f.frames.length), ?_, ?_, ?_, rfl,
      rfl⟩
    · simp only [Machine.resumeC, if_pos hmode, if_neg hne, if_pos hret, hf', if_pos hfine]
    · simp only [Core.withSp, Function.update_self]
      rw [hpop, sub_ofNat_add_ofNat _ (by omega), habove, Nat.add_sub_cancel]
    · intro k hk
      simp only [Core.withSp, Function.update_of_ne hk]

/-! ### The switch -/

/-- The arguments of the handlers after a switch. -/
lemma IsaRel.arg_park (h : IsaRel T c site.phase m p) (hn : n ≠ c) (q : Pid)
    (hq : (if q = n then (p.cont n).phase else ((p.park c site).cont q).phase) = .svc) :
    m.arg q = L.kstackTop q - BitVec.ofNat 32 60 := by
  refine h.arg q ?_
  by_cases hqn : q = n
  · subst hqn
    rw [if_pos rfl] at hq
    rw [if_neg hn]
    exact hq
  · rw [if_neg hqn] at hq
    by_cases hqc : q = c
    · subst hqc
      rw [if_pos rfl]
      simpa [ProcMachine.park] using hq
    · rw [if_neg hqc]
      simpa [ProcMachine.park, hqc] using hq

/-- The next process waits, as it did before the save side. -/
lemma IsaRel.waits_parked (h : IsaRel T c site.phase m p) (cc : CompiledAbi) (hn : n ≠ c)
    (hcont : p.cont n ≠ .faultTail) {a : ArmMachine}
    (hpark : Parked T ((m.toArm T).savePrev L cc.toCompiledC c site) a.mem)
    (hctx : a.ctx = procContext T a.mem)
    (hframes : a.frames = ((m.toArm T).savePrev L cc.toCompiledC c site).frames) :
    Suspended L n a (p.regs n) (p.cont n) :=
  (h.arm.suspended_savePrev cc.toCompiledC hn hcont).congr
    (hpark.within.agree (foreign_stack T n).pcbs.symm)
    (congrFun (hctx.trans hpark.ctx) n) (congrFun hframes n)

/-- The code of `context_switch`, from its call to the next process. -/
lemma IsaRel.run_switch (h : IsaRel T c site.phase m p) (cc : CompiledAbi) (hw : ℕ → Tlb.Refill)
    (hn : n ≠ c) (hcont : p.cont n ≠ .faultTail) {m₁ : Machine}
    (hm₁ : m.callSwitch T cc c n site = m₁) :
    ∃ core sys, m₁.runCode T hw contextSwitchCode.length =
        some { m₁ with core := core, sys := sys } ∧
      View T sys ⟨savedMem b m₁.core m₁.sys.mem, ttbr0For (initPcb L n).pgdPa, false⟩ ∧
      SwitchedTo (keptContext b (savedMem b m₁.core m₁.sys.mem) (T.pcb n)) core ∧
      KernelMode core.cpsr ∧
      ∀ k, k ≠ .usr → k ≠ .svc → core.sp k = m.core.sp k := by
  have hpark := h.parked cc n
  have hmode₁ : KernelMode (m.callSwitch T cc c n site).core.cpsr :=
    kernelMode_withFlags (h.kernel (Cont.phase_ne_user _)) _
  have hview₁ : View T (m.callSwitch T cc c n site).sys
      ⟨(m.callSwitch T cc c n site).sys.mem, m.sys.ttbr0, false⟩ :=
    h.view.write (foreign_stack T c).tables
      ((Memory.overwrite_within _ _ _).mono h.freeStack_within)
  have hr0 : (m.callSwitch T cc c n site).core.r 0 = T.pcb c := rfl
  have hr1 : (m.callSwitch T cc c n site).core.r 1 = T.pcb n := rfl
  have hpc : (m.callSwitch T cc c n site).core.pc = T.contextSwitch := rfl
  have hspSvc : (m.callSwitch T cc c n site).core.sp .svc =
      m.core.sp .svc - BitVec.ofNat 32 (cc.depth m.time) := by simp [Machine.callSwitch]
  have hsp : ∀ k, k ≠ .svc → (m.callSwitch T cc c n site).core.sp k = m.core.sp k := by
    intro k hk
    simp [Machine.callSwitch, hk, Machine.ranC]
  rw [hm₁] at hpark hmode₁ hview₁ hr0 hr1 hpc hspSvc hsp
  have hwaits := (h.waits_parked cc hn hcont
    (a := { (m.toArm T).savePrev L cc.toCompiledC c site with
      mem := savedMem b m₁.core m₁.sys.mem }) hpark hpark.ctx.symm rfl).waits
  have hload : Loadable L (m₁.core.r 1) (savedMem b m₁.core m₁.sys.mem) := by
    rw [hr1]
    exact loadable_of_waits hwaits hpark.ok hpark.ctx.symm
  obtain ⟨hsvc, harm, hirq⟩ := (kernelMode_iff _).1 hmode₁
  have hstack : Free T (m₁.core.sp .svc - BitVec.ofNat 32 36) 36 := by
    rw [hspSvc]
    exact h.free_call cc
  have hpcb : Free T (m₁.core.r 0) sizeofProcess := by
    rw [hr0]
    exact free_pcb T c
  have hprev : m₁.core.r 0 ≠ 0#32 := by
    rw [hr0]
    exact pcb_ne_zero T c
  obtain ⟨core, hrun, hto, hsp', hbits⟩ := run_switchCode hsvc harm hpc hprev hstack hpcb
    (m := ⟨m₁.sys.mem, m.sys.ttbr0, false⟩) hload
  obtain ⟨sys, hcode, hview⟩ := hview₁.runCode hw hrun
  have hpgd : (savedMem b m₁.core m₁.sys.mem).load32 (b.pa (T.pcb n + procPgdPaOffset)) =
      (initPcb L n).pgdPa := hpark.ok.pgd n
  rw [hr1] at hview hto
  simp only [loadedMem, keptContext, hpgd] at hview
  refine ⟨core, sys, hcode, hview, hto, ?_, fun k hu hs => (hsp' k hu hs).trans (hsp k hs)⟩
  rw [kernelMode_iff, hbits 5 (by omega) (by omega), hbits 7 (by omega) (by omega)]
  exact ⟨hto.mode, harm, hirq⟩

/-- **`context_switch` in step.** -/
theorem IsaRel.switch (h : IsaRel T c site.phase m p) (cc : CompiledAbi) (hw : ℕ → Tlb.Refill)
    (hn : n ≠ c) (hcont : p.cont n ≠ .faultTail) (hc : p.cont c ≠ .faultTail) :
    ∃ m', m.switch T cc hw c n site = some (m', p.cont n) ∧
      IsaRel T n (p.cont n).phase m' (p.park c site) := by
  have hpark := h.parked cc n
  obtain ⟨core, sys, hcode, hview, hto, hmode, hsp⟩ := h.run_switch cc hw hn hcont rfl
  have hframes : (m.callSwitch T cc c n site).frames =
      ((m.toArm T).savePrev L cc.toCompiledC c site).frames := rfl
  have harg : (m.callSwitch T cc c n site).arg = m.arg := rfl
  simp only [Machine.switch]
  generalize m.callSwitch T cc c n site = m₁ at *
  generalize savedMem b m₁.core m₁.sys.mem = mem at *
  have hmem : sys.mem = mem := hview.mem
  rw [← hmem] at hpark hto hview
  have hsusp : Suspended L n (Machine.toArm T { m₁ with core := core, sys := sys }) (p.regs n)
      (p.cont n) := h.waits_parked cc hn hcont hpark rfl hframes
  obtain ⟨core', hresume, hres⟩ := resumeC_of_waits hsusp.waits hto hmode
  have hmode' : KernelMode core'.cpsr := by
    rw [hres.cpsr]
    exact hmode
  refine ⟨{ m₁ with core := core', sys := sys }, ?_, ?_, hview.self rfl, hpark.ok,
    fun _ => hmode', fun q hq => (congrFun harg q).trans (h.arg_park hn q hq)⟩
  · rw [hcode]
    exact hresume
  -- the summary has the same registers
  obtain ⟨a', hsw, hrel⟩ := h.arm.switch cc.toCompiledC hn hcont hc (k := bootKernel L) rfl
  obtain ⟨cpu, hload, hl⟩ :=
    (h.arm.suspended_savePrev cc.toCompiledC hn hcont).waits.loadNext (bootKernel L)
  obtain rfl : a' = { (m.toArm T).savePrev L cc.toCompiledC c site with cpu := cpu } :=
    (Prod.mk.inj (Option.some.inj (hsw.symm.trans hload))).1
  have hsp' : ∀ k, k ≠ .usr → k ≠ .svc → core'.sp k = m.core.sp k := fun k hu hs =>
    (hres.sp k hs).trans (hsp k hu hs)
  have hctx := congrFun hpark.ctx n
  have hcpu : SameCpu (p.cont n).phase cpu (core'.toCpu sys.ttbr0) := by
    refine ⟨hview.ttbr0.trans hl.ttbr0.symm, hres.spSvc.trans hl.spSvc.symm,
      (hsp' .abt (by decide) (by decide)).trans hl.spAbt.symm,
      (hsp' .und (by decide) (by decide)).trans hl.spUnd.symm, ?_, ?_, ?_, fun hu =>
      absurd hu (Cont.phase_ne_user _)⟩
    · refine (hres.sp .usr (by decide)).trans (hto.spUsr.trans ?_)
      rw [hl.spUsr, ← hctx]
      exact (procContext_eq T sys.mem n).2.1.symm
    · refine (congrFun hres.lr .usr).trans (hto.lrUsr.trans ?_)
      rw [hl.lrUsr, ← hctx]
      exact (procContext_eq T sys.mem n).2.2.symm
    · refine (kernelCpsr_of hmode').trans (Eq.trans ?_ hl.cpsr.symm)
      exact (kernelCpsr_of (h.kernel (Cont.phase_ne_user _))).symm
  have hoff : ∀ {R : Region}, T.pcbs.Apart R →
      Memory.Agree R ((m.toArm T).savePrev L cc.toCompiledC c site).mem sys.mem := fun hR =>
    hpark.within.agree hR.symm
  refine hrel.congr hcpu ⟨fun q => hoff ?_, fun q => hoff (foreign_slot T q).pcbs, fun q _ =>
    hoff (foreign_stack T q).pcbs⟩ (hoff (foreign_stack T n).pcbs) hpark.ctx hframes
  exact (T.pcbs_apart L.tables (by simp)).mono ⟨le_refl _, le_refl _⟩ (L.table_within q)

end

end RingNova.Isa
