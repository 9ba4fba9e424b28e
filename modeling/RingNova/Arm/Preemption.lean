/-
# Preemption on the ARM machine

What a user program sees of interrupts and syscalls, and what the kernel keeps in the CPU
while a user program runs: TTBR0 points to the current process's table, and the SVC stack
pointer is at the top of its kernel stack, whatever entries, sleeps and switches there have
been before.
-/
import RingNova.Arm.Scheduling
import RingNova.System.Preemption

namespace RingNova

open Trace

section

variable {b : Board} {L : Layout b} {cc : CompiledC} {mem : Memory} {cpu : Cpu}
  {s : Sys ArmMachine} {t : Sys ProcMachine} {p : Pid}

lemma Sim.inUser_iff (h : Sim L s t) (p : Pid) : InUser p s ↔ InUser p t := by
  rw [InUser, InUser, h.rel.ctl, h.rel.kern]

/-- The relation of the machines in USR mode. -/
lemma Sim.user (h : Sim L s t) (hu : InUser p s) : ArmRel L p .user s.arch t.arch := by
  obtain ⟨hctl, hcur⟩ := (h.inUser_iff p).1 hu
  exact (atPoint_iff (by rw [hctl]; rfl)).1 (h.rel.arch p hcur)

lemma Sim.userRegs (h : Sim L s t) (hu : InUser p s) :
    s.arch.cpu.userRegs = t.arch.regs p :=
  (h.user hu).user rfl

lemma Sim.inv_user (h : Sim L s t) (hu : InUser p s) : Inv b t p := by
  obtain ⟨c, hinv⟩ := h.inv
  obtain rfl : c = p := Option.some.inj (hinv.current.symm.trans ((h.inUser_iff p).1 hu).2)
  exact hinv

/-- The way of a process through the kernel, from an exception to its next user
instruction. -/
lemma Sim.excursion (h : Sim L s t) {e : Event} {s₁ s₂ : Sys ArmMachine} {es : List Event}
    (hs : step (armArch L cc) b s e = some s₁)
    (hes : FirstReach (step (armArch L cc) b) (InUser p) s₁ es s₂) :
    ∃ t₁ t₂, step procArch b t e = some t₁ ∧ FirstReach (step procArch b) (InUser p) t₁ es t₂ ∧
      Sim L s₂ t₂ ∧ InUser p s₂ := by
  obtain ⟨t₁, ht₁, h₁⟩ := h.forth hs
  obtain ⟨t₂, ht₂, h₂⟩ := hes.rel (fun _ _ e h => h.simulates cc e)
    (fun _ _ h => h.inUser_iff p) h₁
  exact ⟨t₁, t₂, ht₁, ht₂, h₂, hes.holds⟩

/-! ### What user code sees -/

/-- After an interrupt the registers are as they were. -/
lemma Sim.irq_transparent (h : Sim L s t) (cc : CompiledC) (hu : InUser p s) {ack : Word}
    {rx : List Byte} {s₁ s₂ : Sys ArmMachine} {es : List Event}
    (hs : step (armArch L cc) b s (.irq ack rx) = some s₁)
    (hes : FirstReach (step (armArch L cc) b) (InUser p) s₁ es s₂) :
    s₂.arch.cpu.userRegs = s.arch.cpu.userRegs := by
  obtain ⟨t₁, t₂, ht₁, ht₂, h₂, hlast⟩ := h.excursion hs hes
  rw [h₂.userRegs hlast, h.userRegs hu]
  exact (h.inv_user hu).irq_transparent ht₁ ht₂

/-- After an `svc` they are the same but for the result in `r0` and the PC. -/
lemma Sim.svc_returns (h : Sim L s t) (cc : CompiledC) (hu : InUser p s)
    {s₁ s₂ : Sys ArmMachine} {es : List Event}
    (hs : step (armArch L cc) b s .svc = some s₁)
    (hes : FirstReach (step (armArch L cc) b) (InUser p) s₁ es s₂) :
    ∃ v, s₂.arch.cpu.userRegs = s.arch.cpu.userRegs.afterSvc.ret v ∧
      s₂.kern.results p = s.kern.results p ++ [v] := by
  obtain ⟨t₁, t₂, ht₁, ht₂, h₂, hlast⟩ := h.excursion hs hes
  rw [h₂.userRegs hlast, h.userRegs hu, h₂.rel.kern, h.rel.kern]
  exact (h.inv_user hu).svc_returns ht₁ ht₂

lemma cpsr_unmasked {w : Word} (h : w &&& privBits = 0x10#32) : w &&& 0x80#32 = 0#32 := by
  have hsub : w &&& 0x80#32 = (w &&& privBits) &&& 0x80#32 := by
    rw [BitVec.and_assoc]
    rfl
  rw [hsub, h]
  rfl

/-- **Transparent preemption.**  In USR mode interrupts are unmasked; when a process is back
after an interrupt, its registers are unchanged; when it is back after an `svc`, `r0` is the
one result computed for it, and it continues after the instruction. -/
theorem transparent_preemption
    (hr : Reachable (step (armArch L cc) b) (armSys L cc mem cpu) s) (hu : InUser p s) :
    (s.arch.cpu.cpsr &&& 0x1F#32 = 0x10#32 ∧ s.arch.cpu.cpsr &&& 0x80#32 = 0#32) ∧
      (∀ ack rx s₁ es s₂, step (armArch L cc) b s (.irq ack rx) = some s₁ →
        FirstReach (step (armArch L cc) b) (InUser p) s₁ es s₂ →
        s₂.arch.cpu.userRegs = s.arch.cpu.userRegs) ∧
      (∀ s₁ es s₂, step (armArch L cc) b s .svc = some s₁ →
        FirstReach (step (armArch L cc) b) (InUser p) s₁ es s₂ →
        ∃ v, s₂.arch.cpu.userRegs = s.arch.cpu.userRegs.afterSvc.ret v ∧
          s₂.kern.results p = s.kern.results p ++ [v]) := by
  obtain ⟨t, -, h⟩ := sim_of_reachable hr
  have hmode : s.arch.cpu.cpsr &&& privBits = 0x10#32 := by
    have hregs := congrArg UserRegs.cpsr (h.userRegs hu)
    rw [show s.arch.cpu.cpsr = (t.arch.regs p).cpsr from hregs]
    exact (h.inv_user hu).mode p
  exact ⟨⟨cpsr_and_mode hmode, cpsr_unmasked hmode⟩, fun _ _ _ _ _ hs hes =>
    h.irq_transparent cc hu hs hes, fun _ _ _ hs hes => h.svc_returns cc hu hs hes⟩

end

/-- Three timer ticks from the first instruction on: processes 1 and 2 get their turns, and
process 0 is back with its registers. -/
theorem transparent_preemption_round :
    ∃ s₁ s₂, step (armArch qemuLayout .zeroed) .qemu qemuBoot (.irq 36#32 []) = some s₁ ∧
      FirstReach (step (armArch qemuLayout .zeroed) .qemu) (InUser 0) s₁
        [.irq 36#32 [], .irq 36#32 []] s₂ ∧
      s₂.arch.cpu.userRegs = qemuBoot.arch.cpu.userRegs := by
  have h₀ : Sim qemuLayout qemuBoot qemuProcs := sim_boot _ _ _ _
  have hrun : ((step procArch .qemu qemuProcs (.irq 36#32 [])).bind fun t₁ =>
      (step procArch .qemu t₁ (.irq 36#32 [])).bind fun t₂ =>
      (step procArch .qemu t₂ (.irq 36#32 [])).map fun t₃ =>
        (t₁.kern.current, t₂.kern.current, t₃.kern.current, t₃.ctl)) =
      some (some 1, some 2, some 0, .user) := by decide +kernel
  obtain ⟨t₁, ht₁, hrest⟩ := Option.bind_eq_some_iff.1 hrun
  obtain ⟨t₂, ht₂, hrest⟩ := Option.bind_eq_some_iff.1 hrest
  obtain ⟨t₃, ht₃, hview⟩ := Option.map_eq_some_iff.1 hrest
  simp only [Prod.mk.injEq] at hview
  obtain ⟨hv₁, hv₂, hv₃, hv₄⟩ := hview
  obtain ⟨s₁, hs₁, h₁⟩ := h₀.back .zeroed ht₁
  obtain ⟨s₂, hs₂, h₂⟩ := h₁.back .zeroed ht₂
  obtain ⟨s₃, hs₃, h₃⟩ := h₂.back .zeroed ht₃
  have hfirst : FirstReach (step (armArch qemuLayout .zeroed) .qemu) (InUser 0) s₁
      [.irq 36#32 [], .irq 36#32 []] s₃ := by
    refine ⟨?_, s₂, hs₂, ?_, s₃, hs₃, rfl, ?_⟩
    · intro hP
      have := ((h₁.inUser_iff 0).1 hP).2
      rw [hv₁] at this
      exact absurd this (by decide)
    · intro hP
      have := ((h₂.inUser_iff 0).1 hP).2
      rw [hv₂] at this
      exact absurd this (by decide)
    · exact (h₃.inUser_iff 0).2 ⟨hv₄, hv₃⟩
  have hu : InUser 0 qemuBoot := (h₀.inUser_iff 0).2 ⟨rfl, rfl⟩
  exact ⟨s₁, s₃, hs₁, hfirst,
    (transparent_preemption (Reachable.refl qemuBoot) hu).2.1 _ _ _ _ _ hs₁ hfirst⟩

/-! ### What the kernel keeps in the CPU -/

section

variable {b : Board} {L : Layout b} {cc : CompiledC} {mem : Memory} {cpu : Cpu}
  {s : Sys ArmMachine}

lemma Built.kstackTop {k : Kernel numProcesses} (h : Built L k) (p : Pid) :
    (k.processes p).kstackBase + (k.processes p).kstackSize = L.kstackTop p := by
  have h1 : (k.processes p).kstackBase = (initPcb L p).kstackBase :=
    (congrArg Pcb.kstackBase (h p) :)
  have h2 : (k.processes p).kstackSize = (initPcb L p).kstackSize :=
    (congrArg Pcb.kstackSize (h p) :)
  rw [h1, h2]
  rfl

/-- **The machine follows `current`.**  In USR mode TTBR0 points to the current process's
table, SP_svc is the top of its kernel stack, and no other process is `TASK_RUNNING`. -/
theorem machine_follows_current
    (hr : Reachable (step (armArch L cc) b) (armSys L cc mem cpu) s) (hu : s.ctl = .user) :
    ∃ c, s.kern.current = some c ∧
      s.arch.cpu.ttbr0 = (s.kern.processes c).pgdPa ||| 0x4A#32 ∧
      s.arch.cpu.spSvc = (s.kern.processes c).kstackBase + (s.kern.processes c).kstackSize ∧
      ∀ p, p ≠ c → s.kern.st p ≠ .running := by
  obtain ⟨t, -, h⟩ := sim_of_reachable hr
  obtain ⟨c, hinv⟩ := h.inv
  have hcur : s.kern.current = some c := by rw [h.rel.kern, hinv.current]
  have hrel := h.user (p := c) ⟨hu, hcur⟩
  refine ⟨c, hcur, ?_, ?_, ?_⟩
  · rw [hrel.ttbr0, h.rel.kern, h.built.pgdPa c]
    rfl
  · rw [L.spSvc_user hrel, h.rel.kern, h.built.kstackTop c]
  · intro p hp hrun
    have hparked := hinv.parked p hp
    rw [← h.rel.kern, hrun] at hparked
    exact hparked

end

/-- Process 0 faults and process 1 yields: the machine is set up for process 2. -/
theorem machine_follows_current_yield :
    ∃ s, run (step (armArch qemuLayout .zeroed) .qemu) qemuBoot
        ([.fault .dataAbort 0#32 5#32] ++ userCall 2#32 0#32 0#32 0#32) = some s ∧
      s.kern.current = some 2 ∧
      s.arch.cpu.ttbr0 = (s.kern.processes 2).pgdPa ||| 0x4A#32 ∧
      s.arch.cpu.spSvc = (s.kern.processes 2).kstackBase + (s.kern.processes 2).kstackSize ∧
      ∀ p, p ≠ 2 → s.kern.st p ≠ .running := by
  have hrun : ((run (step procArch .qemu) qemuProcs
      ([.fault .dataAbort 0#32 5#32] ++ userCall 2#32 0#32 0#32 0#32)).map fun t =>
      (t.ctl, t.kern.current)) = some (.user, some 2) := by decide +kernel
  obtain ⟨t, ht, hview⟩ := Option.map_eq_some_iff.1 hrun
  obtain ⟨s, hs, hsim⟩ := exists_qemu_run ht
  simp only [Prod.mk.injEq] at hview
  obtain ⟨c, hc, hfollows⟩ := machine_follows_current ⟨_, hs⟩ (hsim.rel.ctl.trans hview.1)
  have hcur : s.kern.current = some 2 := by rw [hsim.rel.kern, hview.2]
  obtain rfl : c = 2 := Option.some.inj (hc.symm.trans hcur)
  exact ⟨s, hs, hcur, hfollows⟩

end RingNova
