/-
# The sign of a result

`syscall.h` says that a result is negative for errors.  Results of calls that are not refused are
small, but for the one of `sys_ticks`, which is the tick counter itself: from `2 ^ 31` ticks on it
looks like an error (`error_sign_iff`).
-/
import RingNova.Arm.Syscall
import RingNova.System.Ticks

namespace RingNova

open Trace

section

variable {b : Board} {L : Layout b} {cc : CompiledC} {mem : Memory} {cpu : Cpu}
  {s s₁ s₂ : Sys ArmMachine} {t : Sys ProcMachine} {c : Pid} {es : List Event}

lemma Sim.tickCount (h : Sim L s t) : s.kern.tickCount = t.kern.tickCount := by
  rw [h.rel.kern]

/-- The step of `sys_ticks`. -/
lemma Sim.ticks (h : Sim L s t) (cc : CompiledC) (hu : InUser c s)
    (hnum : Syscall.ofNum (s.arch.cpu.r 7) = some .ticks) :
    ∃ s', step (armArch L cc) b s .svc = some s' ∧ InUser c s' ∧
      s'.arch.cpu.r 0 = s.kern.tickCount := by
  have hut := (h.inUser_iff c).1 hu
  rw [h.r_eq hu] at hnum
  obtain ⟨s', hs', h'⟩ := h.back cc ((h.inv_user hu).step_ticks hut.1 hnum)
  have hu' : InUser c s' := (h'.inUser_iff c).2 ⟨rfl, hut.2⟩
  refine ⟨s', hs', hu', ?_⟩
  rw [h'.r_eq hu', h.tickCount]
  simp [procArch, ProcMachine.setRegs]

/-- **The counter of the machine** counts the timer interrupts since boot. -/
lemma tickCount_of_run (hs : run (step (armArch L cc) b) (armSys L cc mem cpu) es = some s) :
    (∃ t, Sim L s t) ∧ s.kern.tickCount = BitVec.ofNat 32 (tickTotal b es) := by
  have hrel := sim_run L cc mem cpu es
  cases ht : run (step procArch b) (procSys L (userMemory b (bootMemory L mem))) es with
  | none =>
    rw [hs, ht] at hrel
    cases hrel
  | some t =>
    rw [hs, ht] at hrel
    obtain ⟨hsim⟩ := hrel
    refine ⟨⟨t, hsim⟩, ?_⟩
    rw [hsim.tickCount, (inv_procSys L _).tickCount_run ht]
    exact BitVec.zero_add _

/-- After any number of ticks a user program can ask for the time. -/
lemma exists_call_ticks (L : Layout b) (cc : CompiledC) (mem : Memory) (cpu : Cpu) (n : ℕ) :
    ∃ es s c, run (step (armArch L cc) b) (armSys L cc mem cpu) es = some s ∧
      tickTotal b es = n ∧ InUser c s ∧ Syscall.ofNum (s.arch.cpu.r 7) = some .ticks := by
  obtain ⟨ack, hack⟩ : ∃ ack, b.getActive ack = b.irqTimer := by
    cases b with
    | qemu => exact ⟨36#32, rfl⟩
    | bbb => exact ⟨68#32, rfl⟩
  obtain ⟨t, c, hrun, hinv, hu, -⟩ := exists_ticks b L (userMemory b (bootMemory L mem)) hack n
  have hexec : step procArch b t (.exec (callRegs 7#32 0#32 0#32 0#32)) =
      some ⟨t.kern, t.arch.setRegs c (callRegs 7#32 0#32 0#32 0#32 (t.arch.regs c)), .user⟩ := by
    simp [step, hinv.current, handle, hu, procArch, callRegs, finish]
  have hcall : run (step procArch b) t [.exec (callRegs 7#32 0#32 0#32 0#32)] =
      some ⟨t.kern, t.arch.setRegs c (callRegs 7#32 0#32 0#32 0#32 (t.arch.regs c)), .user⟩ := by
    rw [run_cons, hexec]
    rfl
  obtain ⟨s, hs, hsim⟩ : ∃ s, run (step (armArch L cc) b) (armSys L cc mem cpu) _ = some s ∧
      Sim L s _ := exists_run (run_append_some hrun hcall)
  have hus : InUser c s := (hsim.inUser_iff c).2 ⟨rfl, hinv.current⟩
  refine ⟨_, s, c, hs, ?_, hus, ?_⟩
  · simp [tickTotal, isTick, hack, List.countP_replicate]
  · rw [hsim.r_eq hus]
    simp [ProcMachine.setRegs, callRegs]
    rfl

/-- **When the sign of a result says whether the call was refused.**  For every reachable state
and every register contents at the `svc`: always, unless the call is `sys_ticks` and the counter
has reached `2 ^ 31`. -/
theorem error_sign_iff
    (hr : Reachable (step (armArch L cc) b) (armSys L cc mem cpu) s) (hu : InUser c s)
    (hs : step (armArch L cc) b s .svc = some s₁)
    (hes : FirstReach (step (armArch L cc) b) (InUser c) s₁ es s₂) :
    ((s₂.arch.cpu.r 0).toInt < 0 ↔ ∃ v, Rejected s.arch.cpu.r v) ↔
      Syscall.ofNum (s.arch.cpu.r 7) ≠ some .ticks ∨ s.kern.tickCount.toNat < 2 ^ 31 := by
  obtain ⟨t, -, h⟩ := sim_of_reachable hr
  by_cases hticks : Syscall.ofNum (s.arch.cpu.r 7) = some .ticks
  · -- the counter is the result, and the call is not refused
    obtain ⟨s', hs', hu', hr0⟩ := h.ticks cc hu hticks
    obtain rfl := Option.some.inj (hs'.symm.trans hs)
    obtain rfl := hes.eq_of_holds hu'
    have hno : ¬ ∃ v, Rejected s.arch.cpu.r v := fun ⟨v, hv⟩ => not_rejected_ticks hticks v hv
    have hlt := s.kern.tickCount.isLt
    rw [hr0, BitVec.toInt_eq_toNat_cond]
    constructor
    · intro hiff
      right
      by_contra hge
      refine hno (hiff.1 ?_)
      rw [if_neg (by omega)]
      omega
    · rintro (hne | hsmall)
      · exact absurd hticks hne
      · refine iff_of_false ?_ hno
        rw [if_pos (by omega)]
        omega
  · refine iff_of_true ?_ (Or.inl hticks)
    by_cases hrej : ∃ v, Rejected s.arch.cpu.r v
    · -- a refused call returns its code at once
      refine iff_of_true ?_ hrej
      obtain ⟨v, hv⟩ := hrej
      obtain ⟨s', hs', hu', -, -, hregs, -⟩ := h.rejected cc hu hv
      obtain rfl := Option.some.inj (hs'.symm.trans hs)
      obtain rfl := hes.eq_of_holds hu'
      have hr0 : s'.arch.cpu.r 0 = v := by
        have hr := congrArg (fun u => UserRegs.r u 0) hregs
        exact hr.trans (by simp [UserRegs.ret])
      rw [hr0]
      exact hv.neg
    · refine iff_of_false ?_ hrej
      have hnot : ∀ v, ¬ Rejected (t.arch.regs c).r v := by
        rw [← h.r_eq hu]
        exact fun v hv => hrej ⟨v, hv⟩
      rw [h.r_eq hu] at hticks
      obtain ⟨t₁, t₂, ht₁, ht₂, h₂, hlast⟩ := h.excursion hs hes
      have hlt := (h.inv_user hu).svc_nonneg h.built.numbered hnot hticks ht₁ ht₂
      rw [h₂.r_eq hlast, BitVec.toInt_eq_toNat_of_lt (by omega)]
      omega

end

/-- Process 0 asks for the time before the first tick. -/
theorem error_sign_first :
    ∃ s s', run (step (armArch qemuLayout .zeroed) .qemu) qemuBoot
        [.exec (callRegs 7#32 0#32 0#32 0#32)] = some s ∧
      step (armArch qemuLayout .zeroed) .qemu s .svc = some s' ∧
      ((s'.arch.cpu.r 0).toInt < 0 ↔ ∃ v, Rejected s.arch.cpu.r v) := by
  have hrun : ((run (step procArch .qemu) qemuProcs [.exec (callRegs 7#32 0#32 0#32 0#32)]).map
      fun t => (t.ctl, t.kern.current, t.kern.tickCount, (t.arch.regs 0).r 7)) =
      some (.user, some 0, 0#32, 7#32) := by decide +kernel
  obtain ⟨t, ht, hview⟩ := Option.map_eq_some_iff.1 hrun
  obtain ⟨s, hs, hsim⟩ := exists_qemu_run ht
  simp only [Prod.mk.injEq] at hview
  obtain ⟨h1, h2, h3, h4⟩ := hview
  have hu : InUser 0 s := (hsim.inUser_iff 0).2 ⟨h1, h2⟩
  obtain ⟨s', hs', hu', -⟩ := hsim.ticks .zeroed hu (by rw [hsim.r_eq hu, h4]; rfl)
  have hback : FirstReach (step (armArch qemuLayout .zeroed) .qemu) (InUser 0) s' [] s' :=
    ⟨rfl, hu'⟩
  refine ⟨s, s', hs, hs', (error_sign_iff ⟨_, hs⟩ hu hs' hback).2 (Or.inr ?_)⟩
  rw [hsim.tickCount, h3]
  decide

/-- After `2 ^ 31` ticks `sys_ticks` succeeds with a negative result. -/
theorem ticks_look_like_an_error :
    ∃ s s' c, Reachable (step (armArch qemuLayout .zeroed) .qemu) qemuBoot s ∧ InUser c s ∧
      (∀ v, ¬ Rejected s.arch.cpu.r v) ∧ step (armArch qemuLayout .zeroed) .qemu s .svc = some s' ∧
      InUser c s' ∧ (s'.arch.cpu.r 0).toInt < 0 := by
  obtain ⟨es, s, c, hs, hn, hu, hnum⟩ := exists_call_ticks qemuLayout .zeroed (fun _ => 0#8)
    Cpu.zero (2 ^ 31)
  obtain ⟨⟨t, hsim⟩, hcount⟩ := tickCount_of_run hs
  obtain ⟨s', hs', hu', hr0⟩ := hsim.ticks .zeroed hu hnum
  refine ⟨s, s', c, ⟨_, hs⟩, hu, fun v => not_rejected_ticks hnum v, hs', hu', ?_⟩
  rw [hr0, hcount, hn]
  decide

end RingNova
