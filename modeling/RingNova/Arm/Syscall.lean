/-
# Syscalls on the ARM machine

What `syscall_dispatch` touches of user memory, and what a user program gets back from a
call: the statements of `RingNova.System.Syscall` for the machine with the MMU and the
exception frames.
-/
import RingNova.Arm.Dispatch
import RingNova.Arm.Input
import RingNova.Arm.Preemption
import RingNova.System.Syscall

namespace RingNova

open Trace

section

variable {b : Board} {L : Layout b} {cc : CompiledC} {mem : Memory} {cpu : Cpu}
  {s : Sys ArmMachine} {t : Sys ProcMachine} {c : Pid} {e : Event}

/-! ### The footprint of a syscall -/

/-- In every phase the table of the current process is in use. -/
lemma Sim.translate_user (h : Sim L s t) (hc : s.kern.current = some c) (va : Word)
    (write : Bool) : translate s.arch.mem s.arch.cpu.ttbr0 va false write =
      if inWindow va then some (slotAddr b c va) else none := by
  rw [h.rel.kern] at hc
  obtain ⟨ph, hrel⟩ := (h.rel.arch c hc).exists
  exact RingNova.translate_user hrel.userTable va write

lemma Sim.syscallStep (h : Sim L s t) (he : SyscallStep s e) : SyscallStep t e := by
  cases e with
  | svc => exact h.rel.ctl.symm.trans he
  | kernel =>
    show t.ctl.Reading
    rw [← h.rel.ctl]
    exact he
  | _ => exact he

/-- The caller's registers still hold the locals of `sys_read`, and the guard does no harm. -/
lemma Sim.step_guard (h : Sim L s t) (hinv : Inv b t c) (hread : ReadInv t c)
    (he : SyscallStep s e) :
    step ((armArch L cc).guard (inFootprint (callerRegs (armArch L cc) s c))) b s e =
      step (armArch L cc) b s e := by
  have hc : s.kern.current = some c := by rw [h.rel.kern, hinv.current]
  refine RingNova.step_guard (armArch L cc) hc he ?_
  intro buf len n got hctl
  rw [h.rel.ctl] at hctl
  have hreq := (hread.running buf len n got (Or.inl hctl)).1
  exact ⟨h.requested cc hctl hinv.current hreq, (hinv.readArgs buf len n got hctl).valid⟩

/-- **The footprint of a syscall.**  A step of the kernel on behalf of a syscall is the same
on the machine that aborts on user addresses outside the caller's range, or outside the
window, and does not abort; the table of the caller maps the range for user reads and
writes; and `valid_user_ptr` is exact. -/
theorem syscall_footprint
    (hr : Reachable (step (armArch L cc) b) (armSys L cc mem cpu) s)
    (hc : s.kern.current = some c) (he : SyscallStep s e) :
    (∃ s', step (armArch L cc) b s e = some s' ∧
      step ((armArch L cc).guard (inFootprint (callerRegs (armArch L cc) s c))) b s e = some s' ∧
      s'.ctl ≠ .halted) ∧
    (∀ va, inFootprint (callerRegs (armArch L cc) s c) va = true → ∀ write,
      translate s.arch.mem s.arch.cpu.ttbr0 va false write = some (slotAddr b c va)) ∧
    ∀ addr len, validUserPtr addr len = true ↔
      userVirtBase.toNat ≤ addr.toNat ∧
        addr.toNat + len.toNat ≤ userVirtBase.toNat + userRegionSize.toNat := by
  obtain ⟨t, ht, h⟩ := sim_of_reachable hr
  obtain ⟨c', hinv, hread⟩ := readInv_of_reachable ht
  have hct : t.kern.current = some c := by rw [← h.rel.kern, hc]
  obtain rfl : c' = c := Option.some.inj (hinv.current.symm.trans hct)
  refine ⟨?_, ?_, ?_⟩
  · obtain ⟨s', hs⟩ := he.exists (A := armArch L cc) (b := b) hc
    obtain ⟨t', ht', h'⟩ := h.forth hs
    refine ⟨s', hs, ?_, ?_⟩
    · rw [h.step_guard hinv hread he, hs]
    · rw [h'.rel.ctl]
      exact hinv.syscall_not_halted (h.syscallStep he) ht'
  · intro va hva write
    have hw : inWindow va = true := (Bool.and_eq_true_iff.1 hva).1
    rw [h.translate_user hc va write, if_pos hw]
  · intro addr len
    rw [validUserPtr_iff, toNat_userVirtBase, toNat_userRegionSize]

end

/-- Process 0 writes four bytes from the start of its window. -/
theorem syscall_footprint_write :
    ∃ s s', run (step (armArch qemuLayout .zeroed) .qemu) qemuBoot
        [.exec (callRegs 0#32 1#32 0x40000000#32 4#32)] = some s ∧ SyscallStep s .svc ∧
      step ((armArch qemuLayout .zeroed).guard
        (inFootprint (callerRegs (armArch qemuLayout .zeroed) s 0))) .qemu s .svc = some s' ∧
      s'.ctl ≠ .halted := by
  have hrun : ((run (step procArch .qemu) qemuProcs
      [.exec (callRegs 0#32 1#32 0x40000000#32 4#32)]).map fun t => (t.ctl, t.kern.current)) =
      some (.user, some 0) := by decide +kernel
  obtain ⟨t, ht, hview⟩ := Option.map_eq_some_iff.1 hrun
  obtain ⟨s, hs, hsim⟩ := exists_qemu_run ht
  simp only [Prod.mk.injEq] at hview
  have hc : s.kern.current = some (0 : Pid) := by rw [hsim.rel.kern, hview.2]
  have he : SyscallStep s .svc := hsim.rel.ctl.trans hview.1
  obtain ⟨s', -, hs', hhalt⟩ := (syscall_footprint ⟨_, hs⟩ hc he).1
  exact ⟨s, s', hs, he, hs', hhalt⟩

section

variable {b : Board} {L : Layout b} {cc : CompiledC} {mem : Memory} {cpu : Cpu}
  {s : Sys ArmMachine} {t : Sys ProcMachine} {c : Pid}

/-! ### Rejected calls -/

/-- An entry, a result and the exit leave the contexts in the PCBs alone. -/
lemma ctx_roundTrip (a : ArmMachine) (c : Pid) (v : Word) :
    ((armArch L cc).leave ((armArch L cc).setRet ((armArch L cc).enter a c .svc) c v) c .svc).ctx =
      a.ctx := by
  obtain ⟨cpu, mem, ctx, frames, time⟩ := a
  show _ = ctx
  rfl

lemma Sim.r_eq (h : Sim L s t) (hu : InUser c s) : s.arch.cpu.r = (t.arch.regs c).r :=
  congrArg UserRegs.r (h.userRegs hu)

/-- The step of a refused call. -/
lemma Sim.rejected (h : Sim L s t) (cc : CompiledC) (hu : InUser c s) {v : Word}
    (hv : Rejected s.arch.cpu.r v) :
    ∃ s', step (armArch L cc) b s .svc = some s' ∧ InUser c s' ∧
      s'.kern = s.kern.emit [.sysret c v] ∧ s'.arch.ctx = s.arch.ctx ∧
      s'.arch.cpu.userRegs = s.arch.cpu.userRegs.afterSvc.ret v ∧
      ∀ p va, inWindow va = true → s'.arch.umem b p va = s.arch.umem b p va := by
  have hinv := h.inv_user hu
  have hut := (h.inUser_iff c).1 hu
  have hidle : s.kern.needReschedule = false := by rw [h.rel.kern, hinv.idle]
  -- the frame holds the user's registers, on both machines
  have hctx : (procArch.ctx (procArch.enter t.arch c .svc) c .svc).r = s.arch.cpu.r :=
    (svcFrame_r t.arch c).trans (h.r_eq hu).symm
  have hframe := h.svcContext cc hut.1 hut.2
  have hs := step_rejected (A := armArch L cc) (b := b) hu.2 hu.1 hidle
    (by rw [hframe, hctx]; exact hv)
  have ht := step_rejected (A := procArch) (b := b) hut.2 hut.1 hinv.idle
    (by rw [hctx]; exact hv)
  obtain ⟨t', ht', h'⟩ := h.forth hs
  obtain rfl := Option.some.inj (ht.symm.trans ht')
  have hu' := (h'.inUser_iff c).2 ⟨rfl, hut.2⟩
  refine ⟨_, hs, hu', rfl, ctx_roundTrip s.arch c v, ?_, ?_⟩
  · rw [h'.userRegs hu', h.userRegs hu]
    exact regs_roundTrip t.arch c v
  · intro p va hw
    rw [h'.umem p hw, h.umem p hw]
    exact congrFun (congrFun (umem_roundTrip t.arch c v) p) va

/-- **Rejected calls change nothing.**  A refused call returns to its caller with the error
code in `r0`, and the globals, the saved contexts, the other registers and all user memory
are as before; a call that is not refused returns, if at all, with a non-negative `r0`
(`sys_ticks` apart). -/
theorem rejected_calls_change_nothing
    (hr : Reachable (step (armArch L cc) b) (armSys L cc mem cpu) s) (hu : InUser c s) :
    (∀ v, Rejected s.arch.cpu.r v → ∃ s', step (armArch L cc) b s .svc = some s' ∧ InUser c s' ∧
      s'.kern = s.kern.emit [.sysret c v] ∧ s'.arch.ctx = s.arch.ctx ∧
      s'.arch.cpu.userRegs = s.arch.cpu.userRegs.afterSvc.ret v ∧
      ∀ p va, inWindow va = true → s'.arch.umem b p va = s.arch.umem b p va) ∧
    ((∀ v, ¬ Rejected s.arch.cpu.r v) → Syscall.ofNum (s.arch.cpu.r 7) ≠ some .ticks →
      ∀ s₁ es s₂, step (armArch L cc) b s .svc = some s₁ →
        FirstReach (step (armArch L cc) b) (InUser c) s₁ es s₂ →
        0 ≤ (s₂.arch.cpu.r 0).toInt) := by
  obtain ⟨t, ht, h⟩ := sim_of_reachable hr
  constructor
  · intro v hv
    exact h.rejected cc hu hv
  · intro hnot hticks s₁ es s₂ hs hes
    rw [h.r_eq hu] at hnot hticks
    obtain ⟨t₁, t₂, ht₁, ht₂, h₂, hlast⟩ := h.excursion hs hes
    have hlt := (h.inv_user hu).svc_nonneg h.built.numbered hnot hticks ht₁ ht₂
    rw [h₂.r_eq hlast, BitVec.toInt_eq_toNat_of_lt (by omega)]
    exact Int.natCast_nonneg _

end

/-- Process 0 makes a call with a number that does not exist. -/
theorem rejected_calls_change_nothing_bad_number :
    ∃ s s', run (step (armArch qemuLayout .zeroed) .qemu) qemuBoot
        [.exec (callRegs 99#32 0#32 0#32 0#32)] = some s ∧
      Rejected s.arch.cpu.r eBadcall ∧ step (armArch qemuLayout .zeroed) .qemu s .svc = some s' ∧
      s'.arch.cpu.userRegs = s.arch.cpu.userRegs.afterSvc.ret eBadcall := by
  have hrun : ((run (step procArch .qemu) qemuProcs
      [.exec (callRegs 99#32 0#32 0#32 0#32)]).map fun t =>
        (t.ctl, t.kern.current, (t.arch.regs 0).r 7)) = some (.user, some 0, 99#32) := by
    decide +kernel
  obtain ⟨t, ht, hview⟩ := Option.map_eq_some_iff.1 hrun
  obtain ⟨s, hs, hsim⟩ := exists_qemu_run ht
  simp only [Prod.mk.injEq] at hview
  obtain ⟨h1, h2, h3⟩ := hview
  have hu : InUser 0 s := (hsim.inUser_iff 0).2 ⟨h1, h2⟩
  have hr7 : s.arch.cpu.r 7 = 99#32 := by
    have hregs := congrArg (fun u => UserRegs.r u 7) (hsim.userRegs hu)
    exact hregs.trans h3
  have hrej : Rejected s.arch.cpu.r eBadcall := .badNumber (by rw [hr7]; decide)
  obtain ⟨s', hs', -, -, -, hregs, -⟩ := (rejected_calls_change_nothing ⟨_, hs⟩ hu).1 _ hrej
  exact ⟨s, s', hs, hrej, hs', hregs⟩

end RingNova
