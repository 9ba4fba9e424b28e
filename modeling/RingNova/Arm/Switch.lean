/-
# `context_switch`

The first half leaves the process that gives up the CPU suspended, and the second half
finds what an earlier first half, or `process_build_initial_frame`, has left: nobody else
writes to a suspended process's kernel stack.
-/
import RingNova.Arm.Exception
import RingNova.System.Invariant

namespace RingNova

lemma Cont.phase_ne_user (cont : Cont) : cont.phase ≠ .user := by
  cases cont <;> simp [Cont.phase]

lemma Cont.phase_eq_fault {cont : Cont} : cont.phase = .fault ↔ cont = .faultTail := by
  cases cont <;> simp [Cont.phase]

section Load

variable {b : Board} {L : Layout b} {p : Pid} {a : ArmMachine} {cont : Cont}

/-- The CPU after the second half of `context_switch`. -/
structure Loaded (L : Layout b) (k : Kernel numProcesses) (a : ArmMachine) (p : Pid) (cont : Cont)
    (cpu : Cpu) : Prop where
  spSvc : cpu.spSvc = L.kstackTop p - BitVec.ofNat 32 cont.phase.frameSize
  spUsr : cpu.spUsr = (a.ctx p).spUsr
  lrUsr : cpu.lrUsr = (a.ctx p).lrUsr
  ttbr0 : cpu.ttbr0 = ttbr0For (k.processes p).pgdPa
  cpsr : cpu.cpsr = a.cpu.cpsr
  spAbt : cpu.spAbt = a.cpu.spAbt
  spUnd : cpu.spUnd = a.cpu.spUnd

/-- The frame of `context_switch` is on the stack of the process. -/
lemma Waits.addr (h : Waits L p a cont) :
    ∃ above, above + 36 ≤ 8192 ∧ b.pa (a.ctx p).spSvc = L.resumeAddr p above := by
  cases h with
  | first hsp hlr =>
    refine ⟨64, by omega, ?_⟩
    rw [hsp]
    exact L.pa_below p (k := 100) (by omega)
  | @inC f above hf habove hfit hsp hfsp hcallee hlr hframes =>
    refine ⟨above, hfit, ?_⟩
    rw [hsp]
    exact L.pa_below p hfit

/-- The second half of `context_switch` continues where the process waits. -/
lemma Waits.loadNext (h : Waits L p a cont) (k : Kernel numProcesses) :
    ∃ cpu, ArmMachine.loadNext L k a p = some ({ a with cpu := cpu }, cont) ∧
      Loaded L k a p cont cpu := by
  cases h with
  | first hsp hlr =>
    have haddr : b.pa (a.ctx p).spSvc = L.resumeAddr p 64 := by
      rw [hsp]
      exact L.pa_below p (k := 100) (by omega)
    rw [← haddr] at hlr
    have hpop : (a.ctx p).spSvc + 36#32 = L.kstackTop p - BitVec.ofNat 32 64 := by
      rw [hsp]
      exact sub_ofNat_add_ofNat _ (i := 100) (j := 36) (by omega)
    rw [ArmMachine.loadNext]
    exact ⟨_, if_pos hlr, hpop, rfl, rfl, rfl, rfl, rfl, rfl⟩
  | @inC f above hf habove hfit hsp hfsp hcallee hlr hframes =>
    have haddr : b.pa (a.ctx p).spSvc = L.resumeAddr p above := by
      rw [hsp]
      exact L.pa_below p hfit
    have hpop : (a.ctx p).spSvc + 36#32 = L.kstackTop p - BitVec.ofNat 32 above := by
      rw [hsp]
      refine (sub_ofNat_add_ofNat _ (j := 36) (by omega)).trans ?_
      rw [Nat.add_sub_cancel]
    have hunwind : (a.ctx p).spSvc + 36#32 + BitVec.ofNat 32 f.frames.length =
        L.kstackTop p - BitVec.ofNat 32 f.cont.phase.frameSize := by
      rw [hpop, sub_ofNat_add_ofNat _ (by omega), habove, Nat.add_sub_cancel]
    have hlr' : a.mem.load32 (b.pa (a.ctx p).spSvc + 32) = L.switchReturn := by rw [haddr, hlr]
    have hne : a.mem.load32 (b.pa (a.ctx p).spSvc + 32) ≠ L.retFromFirstEntry := by
      rw [hlr']
      exact L.switchReturn_ne
    have hintact : (a.ctx p).spSvc + 36#32 = f.sp ∧
        (∀ i : Fin 8, a.mem.load32 (b.pa (a.ctx p).spSvc + 4 * i) = f.callee i) ∧
        a.mem.bytes (b.pa ((a.ctx p).spSvc + 36#32)) f.frames.length = f.frames := by
      refine ⟨hpop.trans hfsp.symm, ?_, ?_⟩
      · intro i
        rw [haddr]
        exact hcallee i
      · rw [hpop, L.pa_below p (by omega)]
        exact hframes
    simp only [ArmMachine.loadNext, if_neg hne, if_pos hlr', hf, if_pos hintact]
    exact ⟨_, rfl, hunwind, rfl, rfl, rfl, rfl, rfl, rfl⟩

end Load

/-! ### The process that gives up the CPU -/

section Save

variable {b : Board} {L : Layout b} {c : Pid} {a : ArmMachine} {m : ProcMachine} {site : Cont}

/-- The memory after the first half of `context_switch`. -/
lemma mem_savePrev (cc : CompiledC) (a : ArmMachine) (c : Pid) (site : Cont) :
    (a.savePrev L cc c site).mem = stmfd b (a.ranC L cc c).mem
      (a.cpu.spSvc - BitVec.ofNat 32 (cc.depth a.time))
      (List.ofFn (cc.callee a.time) ++ [L.switchReturn]) := by
  rw [ArmMachine.savePrev]

/-- The frame of `context_switch` is below the C frames. -/
lemma ArmRel.savePrev_addr (h : ArmRel L c site.phase a m) (cc : CompiledC) {k : ℕ}
    (hk : k ≤ 36) :
    b.pa (a.cpu.spSvc - BitVec.ofNat 32 (cc.depth a.time) - BitVec.ofNat 32 k) =
      (L.stack c).base + (8192 - (site.phase.frameSize + cc.depth a.time + k)) := by
  have hd := cc.depth_le a.time
  have hf := site.phase.frameSize_le
  rw [h.spSvc, sub_ofNat_sub_ofNat, sub_ofNat_sub_ofNat, L.pa_below c (by omega), Nat.add_assoc]

lemma ArmRel.savePrev_within (h : ArmRel L c site.phase a m) (cc : CompiledC) :
    Memory.Within ⟨L.resumeAddr c (site.phase.frameSize + cc.depth a.time), 36⟩
      (a.ranC L cc c).mem (a.savePrev L cc c site).mem := by
  have haddr := h.savePrev_addr cc (le_refl 36)
  have hlen : (List.ofFn (cc.callee a.time) ++ [L.switchReturn]).length = 9 := by simp
  have hsp : b.pa (below (a.cpu.spSvc - BitVec.ofNat 32 (cc.depth a.time))
      (List.ofFn (cc.callee a.time) ++ [L.switchReturn])) =
      L.resumeAddr c (site.phase.frameSize + cc.depth a.time) := by
    rw [below, hlen]
    exact haddr
  have hw := stmfd_within (a.ranC L cc c).mem _ hsp
  rw [hlen] at hw
  rw [mem_savePrev]
  exact hw

/-- What the first half of `context_switch` pushes. -/
lemma ArmRel.savePrev_words (h : ArmRel L c site.phase a m) (cc : CompiledC) :
    (∀ i : Fin 8, (a.savePrev L cc c site).mem.load32
        (L.resumeAddr c (site.phase.frameSize + cc.depth a.time) + 4 * i) = cc.callee a.time i) ∧
      (a.savePrev L cc c site).mem.load32
        (L.resumeAddr c (site.phase.frameSize + cc.depth a.time) + 32) = L.switchReturn := by
  have haddr := h.savePrev_addr cc (le_refl 36)
  have hlen : (List.ofFn (cc.callee a.time) ++ [L.switchReturn]).length = 9 := by simp
  have hword : ∀ i (hi : i < (List.ofFn (cc.callee a.time) ++ [L.switchReturn]).length),
      (a.savePrev L cc c site).mem.load32
        (L.resumeAddr c (site.phase.frameSize + cc.depth a.time) + 4 * i) =
        (List.ofFn (cc.callee a.time) ++ [L.switchReturn]).get ⟨i, hi⟩ := fun i hi => by
    rw [mem_savePrev]
    exact load32_stmfd _ _ (by rw [below, hlen]; exact haddr) hi
  constructor
  · intro i
    have hi : (i : ℕ) < (List.ofFn (cc.callee a.time)).length := by simp
    rw [hword i (by rw [hlen]; omega), List.get_eq_getElem]
    exact (List.getElem_append_left hi).trans (List.getElem_ofFn hi)
  · refine (hword 8 (by rw [hlen]; omega)).trans ?_
    simp

/-- **The process that gives up the CPU is suspended.** -/
lemma ArmRel.savePrev (h : ArmRel L c site.phase a m) (cc : CompiledC) :
    Memory.Within (L.stack c) a.mem (a.savePrev L cc c site).mem ∧
      (site ≠ .faultTail → Suspended L c (a.savePrev L cc c site) (m.regs c) site) := by
  have hd := cc.depth_le a.time
  have hf := site.phase.frameSize_le
  have hran := h.ranC cc
  have hw := h.savePrev_within cc
  obtain ⟨hcallee, hlr⟩ := h.savePrev_words cc
  have hstack : (L.stack c).size = 8192 := rfl
  have hin : Region.Within ⟨L.resumeAddr c (site.phase.frameSize + cc.depth a.time), 36⟩
      (L.stack c) := by
    simp only [Region.Within, Layout.resumeAddr, hstack]
    omega
  have hfree : Memory.Within (L.stack c) a.mem (a.ranC L cc c).mem := by
    refine (Memory.overwrite_within _ _ _).mono ?_
    rw [ArmMachine.freeStack, h.pa_spSvc, Layout.frameAddr, Nat.add_sub_cancel_left]
    simp only [Region.Within, hstack]
    omega
  refine ⟨hfree.trans (hw.mono hin), ?_⟩
  intro hsite
  have hctx : ((a.savePrev L cc c site).ctx c).spSvc =
      a.cpu.spSvc - BitVec.ofNat 32 (cc.depth a.time) - BitVec.ofNat 32 36 ∧
      ((a.savePrev L cc c site).ctx c).spUsr = a.cpu.spUsr ∧
      ((a.savePrev L cc c site).ctx c).lrUsr = a.cpu.lrUsr := by
    simp [ArmMachine.savePrev, below]
  have hframes : (a.savePrev L cc c site).frames c = some ⟨site,
      a.cpu.spSvc - BitVec.ofNat 32 (cc.depth a.time), cc.callee a.time,
      (a.ranC L cc c).mem.bytes
        (b.pa (a.cpu.spSvc - BitVec.ofNat 32 (cc.depth a.time))) (cc.depth a.time)⟩ := by
    simp [ArmMachine.savePrev]
  have hsp : b.pa (a.cpu.spSvc - BitVec.ofNat 32 (cc.depth a.time)) =
      (L.stack c).base + (8192 - (site.phase.frameSize + cc.depth a.time)) := by
    rw [h.spSvc, sub_ofNat_sub_ofNat, L.pa_below c (by omega)]
  obtain ⟨husp, hulr⟩ := h.banked fun hph => hsite (Cont.phase_eq_fault.1 hph)
  refine ⟨hran.saved.congr (hw.agree ?_), ?_, hctx.2.1.trans husp, hctx.2.2.trans hulr⟩
  · -- the exception frame is above the frame of `context_switch`
    right
    simp only [Layout.resumeAddr, Layout.frameAddr]
    omega
  · refine .inC hframes (by rw [Memory.length_bytes]) (by omega) ?_ ?_ hcallee hlr ?_
    · rw [hctx.1, h.spSvc, sub_ofNat_sub_ofNat, sub_ofNat_sub_ofNat, Nat.add_assoc]
    · exact (congrArg (· - BitVec.ofNat 32 (cc.depth a.time)) h.spSvc).trans
        (sub_ofNat_sub_ofNat _ _ _)
    · -- so are the C frames
      simp only [Memory.length_bytes, hsp]
      refine (Memory.bytes_congr (hw.agree ?_)).symm
      right
      simp only [Layout.resumeAddr]
      omega

end Save

/-! ### The switch -/

section Switch

variable {b : Board} {L : Layout b} {c n : Pid} {a : ArmMachine} {m : ProcMachine} {site : Cont}

lemma faults_park (hc : m.cont c ≠ .faultTail) :
    (m.park c site).faults = m.faultsAt site.phase := by
  have hne : ∀ p, p ≠ c → (m.park c site).cont p = m.cont p := fun p hp => by
    simp [ProcMachine.park, hp]
  have hself : (m.park c site).cont c = site := by simp [ProcMachine.park]
  by_cases hsite : site = .faultTail
  · subst hsite
    have hset : (Finset.univ.filter fun p => (m.park c .faultTail).cont p = .faultTail) =
        insert c (Finset.univ.filter fun p => m.cont p = .faultTail) := by
      ext p
      by_cases hp : p = c
      · subst hp
        simp [hself]
      · simp [hne p hp, hp]
    have hnot : c ∉ Finset.univ.filter fun p => m.cont p = .faultTail := by simp [hc]
    rw [ProcMachine.faults, hset, Finset.card_insert_of_notMem hnot]
    rfl
  · have hset : (Finset.univ.filter fun p => (m.park c site).cont p = .faultTail) =
        Finset.univ.filter fun p => m.cont p = .faultTail := by
      ext p
      by_cases hp : p = c
      · subst hp
        simp [hself, hsite, hc]
      · simp [hne p hp]
    rw [ProcMachine.faults, hset]
    cases site with
    | faultTail => exact absurd rfl hsite
    | _ => rfl

/-- The processes that wait are not disturbed by the first half of `context_switch`. -/
lemma ArmRel.suspended_savePrev (h : ArmRel L c site.phase a m) (cc : CompiledC) {p : Pid}
    (hp : p ≠ c) (hf : m.cont p ≠ .faultTail) :
    Suspended L p (a.savePrev L cc c site) (m.regs p) (m.cont p) := by
  have hund := undisturbed_of_stack (h.savePrev cc).1
  refine (h.background.others p hp hf).congr (hund.kstacks p hp) ?_ ?_
  · simp [ArmMachine.savePrev, hp]
  · simp [ArmMachine.savePrev, hp]

/-- **`context_switch` in step.** -/
theorem ArmRel.switch (h : ArmRel L c site.phase a m) (cc : CompiledC) (hn : n ≠ c)
    (hcont : m.cont n ≠ .faultTail) (hc : m.cont c ≠ .faultTail) {k : Kernel numProcesses}
    (hk : (k.processes n).pgdPa = (initPcb L n).pgdPa) :
    ∃ a', ArmMachine.contextSwitch L cc k a c n site = some (a', m.cont n) ∧
      ArmRel L n (m.cont n).phase a' (m.park c site) := by
  obtain ⟨hst, hself⟩ := h.savePrev cc
  have hund := undisturbed_of_stack hst
  have hcpu : (a.savePrev L cc c site).cpu = a.cpu := by simp [ArmMachine.savePrev]
  have hnext := h.suspended_savePrev cc hn hcont
  obtain ⟨cpu, hload, hl⟩ := hnext.waits.loadNext k
  have hregs : (m.park c site).regs = m.regs := rfl
  refine ⟨_, hload, ⟨fun p => (h.background.tables p).congr (hund.tables p), fun p va hw => ?_,
    h.background.mode, fun p hp hf => ?_⟩, ?_, ?_, hl.spSvc, ?_, fun _ => ?_, fun _ => ?_,
    hnext.saved⟩
  · exact (hund.slots p _ (slotAddr_mem p hw)).symm.trans (h.background.umem p va hw)
  · by_cases hpc : p = c
    · subst hpc
      have hsite : (m.park p site).cont p = site := by simp [ProcMachine.park]
      rw [hsite] at hf ⊢
      exact (hself hf).congr (Memory.Agree.refl _ _) rfl rfl
    · have hsite : (m.park c site).cont p = m.cont p := by simp [ProcMachine.park, hpc]
      rw [hsite] at hf ⊢
      exact (h.suspended_savePrev cc hpc hf).congr (Memory.Agree.refl _ _) rfl rfl
  · exact hl.ttbr0.trans (congrArg ttbr0For hk)
  · obtain ⟨i, j, hi, hj, hij⟩ := h.modeStacks
    have hfault : (m.park c site).faultsAt (m.cont n).phase = m.faultsAt site.phase := by
      rw [← faults_park hc]
      cases hcn : m.cont n with
      | faultTail => exact absurd hcn hcont
      | _ => rfl
    refine ⟨i, j, ?_, ?_, hij.trans (Nat.le_of_eq hfault.symm)⟩
    · exact hl.spAbt.trans ((congrArg Cpu.spAbt hcpu).trans hi)
    · exact hl.spUnd.trans ((congrArg Cpu.spUnd hcpu).trans hj)
  · exact fun hph => absurd hph (Cont.phase_ne_user _)
  · exact hl.cpsr.trans ((congrArg Cpu.cpsr hcpu).trans (h.kernel (Cont.phase_ne_user _)))
  · exact ⟨hl.spUsr.trans hnext.spUsr, hl.lrUsr.trans hnext.lrUsr⟩

end Switch

end RingNova
