/-
# Scheduling on the ARM machine

The results about sleeping, waking and dying, for the system on the ARM machine: any linker
layout, any compiled C code, any memory and registers before boot, any user programs and any
order of interrupts, syscalls and faults.  They are carried over from the process-level
system by the simulation.

Four of them are equivalences.  `schedule` keeps the current process when nobody else can
run, and several callers do not expect this: a process that sleeps, exits or kills itself
while it is the only one that can run goes on running.
-/
import RingNova.Arm.Refinement
import RingNova.System.Death
import RingNova.System.Reader

namespace RingNova

open Trace

section Transfer

variable {b : Board} {L : Layout b} {s : Sys ArmMachine} {t : Sys ProcMachine} {c : Pid}
  {e : Event}

/-- The registers that `syscall_dispatch` is given. -/
lemma Sim.svcContext (h : Sim L s t) (cc : CompiledC) (hu : t.ctl = .user)
    (hc : t.kern.current = some c) :
    (armArch L cc).ctx ((armArch L cc).enter s.arch c .svc) c .svc =
      procArch.ctx (procArch.enter t.arch c .svc) c .svc := by
  have hrel : ArmRel L c .user s.arch t.arch := (atPoint_iff (by rw [hu]; rfl)).1 (h.rel.arch c hc)
  have hops := opsRel_arm L cc c
  exact hops.ctxSvc (hops.enter .svc hrel)

lemma Sim.exitsSelf_iff (h : Sim L s t) (cc : CompiledC) (e : Event) :
    ExitsSelf (armArch L cc) s e ↔ ExitsSelf procArch t e := by
  rw [ExitsSelf, ExitsSelf, h.rel.kern, h.rel.ctl]
  refine exists_congr fun c => and_congr_right fun hc => and_congr_right fun hu => ?_
  rw [h.svcContext cc hu hc]

lemma Sim.issuesRead_iff (h : Sim L s t) (cc : CompiledC) (e : Event) :
    IssuesRead (armArch L cc) s e ↔ IssuesRead procArch t e := by
  rw [IssuesRead, IssuesRead, h.rel.kern, h.rel.ctl]
  refine exists_congr fun c => and_congr_right fun hc => and_congr_right fun hu => ?_
  rw [h.svcContext cc hu hc]

end Transfer

/-! ### Runs that user programs can cause -/

/-- The registers before a syscall. -/
def callRegs (num a0 a1 a2 : Word) (u : UserRegs) : UserRegs :=
  { u with r := fun i => match i with
    | 7 => num
    | 0 => a0
    | 1 => a1
    | 2 => a2
    | _ => u.r i }

/-- A user program makes a syscall. -/
def userCall (num a0 a1 a2 : Word) : List Event := [.exec (callRegs num a0 a1 a2), .svc]

/-- A boot of the QEMU build on cleared memory. -/
def qemuBoot : Sys ArmMachine := armSys qemuLayout .zeroed (fun _ => 0#8) .zero

/-- The same on the process level. -/
def qemuProcs : Sys ProcMachine :=
  procSys qemuLayout (userMemory .qemu (bootMemory qemuLayout fun _ => 0#8))

lemma exists_qemu_run {t : Sys ProcMachine} {es : List Event}
    (ht : run (step procArch .qemu) qemuProcs es = some t) :
    ∃ s, run (step (armArch qemuLayout .zeroed) .qemu) qemuBoot es = some s ∧
      Sim qemuLayout s t :=
  exists_run ht

section Runs

variable {b : Board} (L : Layout b) (cc : CompiledC) (mem : Memory) (cpu : Cpu) (es : List Event)

/-! ### Falling asleep -/

/-- **A blocked reader returns only when it has been woken**, exactly in the runs in which
somebody else can run whenever a process falls asleep. -/
theorem blockOnInput_returns_woken_iff :
    AllStates (step (armArch L cc) b) ReturnsWoken (armSys L cc mem cpu) es ↔
      AllSteps (step (armArch L cc) b) (fun s _ _ => BlocksOnInput s → OtherRunnable s.kern)
        (armSys L cc mem cpu) es := by
  have hR := fun s t e (h : Sim L s t) => h.simulates cc e
  have h₀ := sim_boot L cc mem cpu
  have hstates := allStates_rel hR (P := ReturnsWoken) (Q := ReturnsWoken) (fun s t h => by
    rw [ReturnsWoken, ReturnsWoken, h.rel.ctl, h.rel.kern]) es h₀
  have hsteps := allSteps_rel hR (C := fun s _ _ => BlocksOnInput s → OtherRunnable s.kern)
    (D := fun t _ _ => BlocksOnInput t → OtherRunnable t.kern) (fun s t e s' t' h _ => by
      rw [BlocksOnInput, BlocksOnInput, h.rel.ctl, h.rel.kern]) es h₀
  exact hstates.trans ((returnsWoken_run_iff L _ es).trans hsteps.symm)

end Runs

/-- Process 0 kills process 1, process 2 kills itself, and process 0 reads from the empty
console: it returns from `scheduler_block_on_input` still asleep. -/
theorem blockOnInput_returns_asleep :
    ¬ AllStates (step (armArch qemuLayout .zeroed) .qemu) ReturnsWoken qemuBoot
      (userCall 6#32 1#32 0#32 0#32 ++ userCall 6#32 2#32 0#32 0#32 ++
        userCall 4#32 0#32 0x40000000#32 1#32 ++ [.kernel]) := by
  have hrun : ((run (step procArch .qemu) qemuProcs
      (userCall 6#32 1#32 0#32 0#32 ++ userCall 6#32 2#32 0#32 0#32 ++
        userCall 4#32 0#32 0x40000000#32 1#32 ++ [.kernel])).map fun t =>
      (t.ctl, t.kern.current, t.kern.st 0)) =
      some (.blockRet 0x40000000#32 1#32 0#32 [], some 0, .blocked) := by decide +kernel
  obtain ⟨t, ht, hview⟩ := Option.map_eq_some_iff.1 hrun
  obtain ⟨s, hs, hsim⟩ := exists_qemu_run ht
  simp only [Prod.mk.injEq] at hview
  obtain ⟨hctl, hcur, hst⟩ := hview
  intro h
  have hlast := h.last hs
  rw [ReturnsWoken, hsim.rel.ctl, hctl, hsim.rel.kern] at hlast
  obtain ⟨p, hp, hrunning, -⟩ := hlast
  obtain rfl : 0 = p := Option.some.inj (hcur.symm.trans hp)
  rw [hst] at hrunning
  exact absurd hrunning (by simp)

section Runs

variable {b : Board} (L : Layout b) (cc : CompiledC) (mem : Memory) (cpu : Cpu) (es : List Event)

/-- **At most one process sleeps, and the slot names it**, exactly in the runs in which
nobody falls asleep and hands over the CPU while another process sleeps. -/
theorem one_sleeper_iff :
    AllStates (step (armArch L cc) b) OneSleeper (armSys L cc mem cpu) es ↔
      AllSteps (step (armArch L cc) b) (fun s _ _ => ¬ SecondSleeper s) (armSys L cc mem cpu)
        es := by
  have hR := fun s t e (h : Sim L s t) => h.simulates cc e
  have h₀ := sim_boot L cc mem cpu
  have hstates := allStates_rel hR (P := OneSleeper) (Q := OneSleeper) (fun s t h => by
    rw [OneSleeper, OneSleeper, h.rel.ctl, h.rel.kern]) es h₀
  have hsteps := allSteps_rel hR (C := fun s _ _ => ¬ SecondSleeper s)
    (D := fun t _ _ => ¬ SecondSleeper t) (fun s t e s' t' h _ => by
      rw [SecondSleeper, SecondSleeper, BlocksOnInput, BlocksOnInput, h.rel.ctl, h.rel.kern]) es h₀
  exact hstates.trans ((oneSleeper_run_iff L _ es).trans hsteps.symm)

end Runs

/-- Processes 0 and 1 read from the empty console, one after the other. -/
theorem two_sleepers :
    ¬ AllStates (step (armArch qemuLayout .zeroed) .qemu) OneSleeper qemuBoot
      (userCall 4#32 0#32 0x40000000#32 1#32 ++ [.kernel] ++
        userCall 4#32 0#32 0x40000000#32 1#32 ++ [.kernel]) := by
  have hrun : ((run (step procArch .qemu) qemuProcs
      (userCall 4#32 0#32 0x40000000#32 1#32 ++ [.kernel] ++
        userCall 4#32 0#32 0x40000000#32 1#32 ++ [.kernel])).map fun t =>
      (t.ctl, t.kern.st 0, t.kern.blockedReader)) = some (.user, .blocked, some 1) := by
    decide +kernel
  obtain ⟨t, ht, hview⟩ := Option.map_eq_some_iff.1 hrun
  obtain ⟨s, hs, hsim⟩ := exists_qemu_run ht
  simp only [Prod.mk.injEq] at hview
  obtain ⟨hctl, hst, hslot⟩ := hview
  intro h
  have hlast := h.last hs
  rw [OneSleeper, hsim.rel.ctl, hsim.rel.kern] at hlast
  have hzero := hlast hctl 0 hst
  rw [hslot] at hzero
  exact absurd hzero (by decide)

/-! ### Dying -/

section Runs

variable {b : Board} (L : Layout b) (cc : CompiledC) (mem : Memory) (cpu : Cpu) (es : List Event)

/-- **The kernel does not return to a dead process**, exactly in the runs in which somebody
else can run whenever a process exits or kills itself. -/
theorem user_alive_iff :
    AllStates (step (armArch L cc) b) UserAlive (armSys L cc mem cpu) es ↔
      AllSteps (step (armArch L cc) b)
        (fun s e _ => ExitsSelf (armArch L cc) s e → OtherRunnable s.kern)
        (armSys L cc mem cpu) es := by
  have hR := fun s t e (h : Sim L s t) => h.simulates cc e
  have h₀ := sim_boot L cc mem cpu
  have hstates := allStates_rel hR (P := UserAlive) (Q := UserAlive) (fun s t h => by
    rw [UserAlive, UserAlive, h.rel.ctl, h.rel.kern]) es h₀
  have hsteps := allSteps_rel hR
    (C := fun s e _ => ExitsSelf (armArch L cc) s e → OtherRunnable s.kern)
    (D := fun t e _ => ExitsSelf procArch t e → OtherRunnable t.kern) (fun s t e s' t' h _ => by
      rw [h.exitsSelf_iff cc e, h.rel.kern]) es h₀
  exact hstates.trans ((userAlive_run_iff L _ es).trans hsteps.symm)

/-- **Death is final**, exactly in the runs in which no dead process falls asleep. -/
theorem dead_absorbing_iff :
    (∀ p, Stable (step (armArch L cc) b) (fun s => s.kern.st p = .dead) (armSys L cc mem cpu) es) ↔
      AllSteps (step (armArch L cc) b)
        (fun s _ _ => BlocksOnInput s → ∀ c, s.kern.current = some c → s.kern.st c ≠ .dead)
        (armSys L cc mem cpu) es := by
  have hR := fun s t e (h : Sim L s t) => h.simulates cc e
  have h₀ := sim_boot L cc mem cpu
  have hkeep := allSteps_rel hR
    (C := fun s _ s' => ∀ p, s.kern.st p = .dead → s'.kern.st p = .dead)
    (D := fun t _ t' => ∀ p, t.kern.st p = .dead → t'.kern.st p = .dead)
    (fun s t e s' t' h h' => by rw [h.rel.kern, h'.rel.kern]) es h₀
  have hcond := allSteps_rel hR
    (C := fun s _ _ => BlocksOnInput s → ∀ c, s.kern.current = some c → s.kern.st c ≠ .dead)
    (D := fun t _ _ => BlocksOnInput t → ∀ c, t.kern.current = some c → t.kern.st c ≠ .dead)
    (fun s t e s' t' h _ => by
      rw [BlocksOnInput, BlocksOnInput, h.rel.ctl, h.rel.kern]) es h₀
  refine Iff.trans ?_ (hkeep.trans ((dead_run_iff L _ es).trans hcond.symm))
  rw [allSteps_forall]
  exact forall_congr' fun p => stable_iff_allSteps es

end Runs

/-- Process 0 kills process 1, process 2 kills itself, and process 0 exits. -/
theorem dead_process_returns :
    ¬ AllStates (step (armArch qemuLayout .zeroed) .qemu) UserAlive qemuBoot
      (userCall 6#32 1#32 0#32 0#32 ++ userCall 6#32 2#32 0#32 0#32 ++
        userCall 3#32 0#32 0#32 0#32) := by
  have hrun : ((run (step procArch .qemu) qemuProcs
      (userCall 6#32 1#32 0#32 0#32 ++ userCall 6#32 2#32 0#32 0#32 ++
        userCall 3#32 0#32 0#32 0#32)).map fun t => (t.ctl, t.kern.current, t.kern.st 0)) =
      some (.user, some 0, .dead) := by decide +kernel
  obtain ⟨t, ht, hview⟩ := Option.map_eq_some_iff.1 hrun
  obtain ⟨s, hs, hsim⟩ := exists_qemu_run ht
  simp only [Prod.mk.injEq] at hview
  obtain ⟨hctl, hcur, hst⟩ := hview
  intro h
  have hlast := h.last hs
  rw [UserAlive, hsim.rel.ctl, hsim.rel.kern] at hlast
  exact hlast hctl 0 hcur hst

/-- Process 0 kills process 1, and process 2 kills itself.  Then process 0 exits, goes on
running, and reads from the empty console: it is asleep and no longer dead. -/
theorem dead_process_sleeps :
    ¬ ∀ p, Stable (step (armArch qemuLayout .zeroed) .qemu) (fun s => s.kern.st p = .dead) qemuBoot
      ((userCall 6#32 1#32 0#32 0#32 ++ userCall 6#32 2#32 0#32 0#32 ++
        userCall 3#32 0#32 0#32 0#32) ++ (userCall 4#32 0#32 0x40000000#32 1#32 ++ [.kernel])) := by
  have hrun : ((run (step procArch .qemu) qemuProcs
      (userCall 6#32 1#32 0#32 0#32 ++ userCall 6#32 2#32 0#32 0#32 ++
        userCall 3#32 0#32 0#32 0#32)).bind fun t =>
      (run (step procArch .qemu) t (userCall 4#32 0#32 0x40000000#32 1#32 ++ [.kernel])).map
        fun t' => (t.kern.st 0, t'.kern.st 0)) = some (.dead, .blocked) := by decide +kernel
  obtain ⟨t, ht, hrest⟩ := Option.bind_eq_some_iff.1 hrun
  obtain ⟨t', ht', hview⟩ := Option.map_eq_some_iff.1 hrest
  obtain ⟨s, hs, hsim⟩ := exists_qemu_run ht
  obtain ⟨s', hs', hsim'⟩ := run_rel_symm (fun _ _ e h => h.simulates .zeroed e) hsim ht'
  simp only [Prod.mk.injEq] at hview
  intro h
  have hdead : s'.kern.st 0 = .dead := (h 0).later hs (by rw [hsim.rel.kern]; exact hview.1) hs'
  rw [hsim'.rel.kern, hview.2] at hdead
  exact absurd hdead (by simp)

/-! ### Faults -/

section Fault

variable {b : Board} {L : Layout b} {cc : CompiledC} {mem : Memory} {cpu : Cpu} {s : Sys ArmMachine}
  {c : Pid}

/-- **A fault kills the process that made it and nobody else.**  If somebody else can run, one
of them does; if not, the kernel stops, and the last output is the panic message. -/
theorem user_fault_outcome (hr : Reachable (step (armArch L cc) b) (armSys L cc mem cpu) s)
    (hu : s.ctl = .user) (hc : s.kern.current = some c) (kind : FaultKind) (far fsr : Word) :
    ∃ s', step (armArch L cc) b s (.fault kind far fsr) = some s' ∧ s'.kern.st c = .dead ∧
      (∀ p, p ≠ c → s.kern.st p ≠ .dead → s'.kern.st p ≠ .dead) ∧
      (OtherRunnable s.kern → s'.ctl = .user ∧
        ∃ n, n ≠ c ∧ s.kern.Runnable n ∧ s'.kern.current = some n ∧ s'.kern.st n = .running) ∧
      (¬ OtherRunnable s.kern → s'.ctl = .halted ∧
        ∃ report : List Byte,
          s'.kern.log = s.kern.log ++ (report ++ panicMessage).map Obs.tx) := by
  obtain ⟨t, ht, hsim⟩ := sim_of_reachable hr
  have hs : ∃ s', step (armArch L cc) b s (.fault kind far fsr) = some s' := by
    simp [step, hc, handle, hu]
  obtain ⟨s', hs'⟩ := hs
  obtain ⟨t', ht', hsim'⟩ := hsim.forth hs'
  obtain ⟨h1, h2, h3, h4⟩ := fault_outcome L _ ht (by rw [← hsim.rel.kern, hc]) ht'
  rw [← hsim.rel.kern] at h2 h3 h4
  rw [← hsim'.rel.kern] at h1 h2 h3 h4
  rw [← hsim'.rel.ctl] at h3 h4
  exact ⟨s', hs', h1, h2, h4, h3⟩

end Fault

/-- The first process faults at once: the next one takes over.  Process 0 faults after process
1 has been killed and process 2 has killed itself: the kernel stops with its message. -/
theorem user_fault_outcome_first :
    (∃ s', step (armArch qemuLayout .zeroed) .qemu qemuBoot (.fault .dataAbort 0#32 5#32) =
        some s' ∧ s'.kern.st 0 = .dead ∧ s'.ctl = .user) ∧
      ∃ s s', run (step (armArch qemuLayout .zeroed) .qemu) qemuBoot
          (userCall 6#32 1#32 0#32 0#32 ++ userCall 6#32 2#32 0#32 0#32) = some s ∧
        step (armArch qemuLayout .zeroed) .qemu s (.fault .dataAbort 0#32 5#32) = some s' ∧
        s'.ctl = .halted ∧ panicMessage.map Obs.tx <:+ s'.kern.log := by
  constructor
  · have hsim : Sim qemuLayout qemuBoot qemuProcs := sim_boot _ _ _ _
    have hctl : qemuBoot.ctl = .user := hsim.rel.ctl
    have hcur : qemuBoot.kern.current = some 0 := congrArg Kernel.current hsim.rel.kern
    have hother : OtherRunnable qemuBoot.kern := by
      rw [hsim.rel.kern]
      exact ⟨1, by decide, Or.inl rfl⟩
    obtain ⟨s', hs', hdead, -, hgo, -⟩ :=
      user_fault_outcome (Reachable.refl qemuBoot) hctl hcur .dataAbort 0#32 5#32
    exact ⟨s', hs', hdead, (hgo hother).1⟩
  · have hrun : ((run (step procArch .qemu) qemuProcs
        (userCall 6#32 1#32 0#32 0#32 ++ userCall 6#32 2#32 0#32 0#32)).map fun t =>
        (t.ctl, t.kern.current, decide (∀ p : Pid, p ≠ 0 → t.kern.st p = .dead))) =
        some (.user, some 0, true) := by decide +kernel
    obtain ⟨t, ht, hview⟩ := Option.map_eq_some_iff.1 hrun
    obtain ⟨s, hs, hsim⟩ := exists_qemu_run ht
    simp only [Prod.mk.injEq, decide_eq_true_iff] at hview
    obtain ⟨hctl, hcur, hdead⟩ := hview
    have hno : ¬ OtherRunnable s.kern := by
      rw [hsim.rel.kern, otherRunnable_iff hcur]
      rintro ⟨p, hp, hrunnable⟩
      rw [Kernel.Runnable, hdead p hp] at hrunnable
      simp at hrunnable
    obtain ⟨s', hs', -, -, -, hstop⟩ := user_fault_outcome ⟨_, hs⟩ (hsim.rel.ctl.trans hctl)
      (congrArg Kernel.current hsim.rel.kern |>.trans hcur) .dataAbort 0#32 5#32
    obtain ⟨hhalt, report, hlog⟩ := hstop hno
    refine ⟨s, s', hs, hs', hhalt, ?_⟩
    rw [hlog, List.map_append, ← List.append_assoc]
    exact List.suffix_append _ _

/-- Process 0 is asleep, process 1 kills process 2 and faults: the kernel stops, although
process 0 is alive. -/
theorem user_fault_halts_beside_sleeper :
    ∃ s s', run (step (armArch qemuLayout .zeroed) .qemu) qemuBoot
        (userCall 4#32 0#32 0x40000000#32 1#32 ++ [.kernel] ++ userCall 6#32 2#32 0#32 0#32) =
          some s ∧
      s.ctl = .user ∧ s.kern.current = some 1 ∧ s.kern.st 0 = .blocked ∧
      step (armArch qemuLayout .zeroed) .qemu s (.fault .dataAbort 0#32 5#32) = some s' ∧
      s'.ctl = .halted := by
  have hrun : ((run (step procArch .qemu) qemuProcs
      (userCall 4#32 0#32 0x40000000#32 1#32 ++ [.kernel] ++
        userCall 6#32 2#32 0#32 0#32)).bind fun t =>
      (step procArch .qemu t (.fault .dataAbort 0#32 5#32)).map
        fun t' => (t.ctl, t.kern.current, t.kern.st 0, t'.ctl)) =
      some (.user, some 1, .blocked, .halted) := by decide +kernel
  obtain ⟨t, ht, hrest⟩ := Option.bind_eq_some_iff.1 hrun
  obtain ⟨t', ht', hview⟩ := Option.map_eq_some_iff.1 hrest
  obtain ⟨s, hs, hsim⟩ := exists_qemu_run ht
  obtain ⟨s', hs', hsim'⟩ := hsim.back .zeroed ht'
  simp only [Prod.mk.injEq] at hview
  obtain ⟨h1, h2, h3, h4⟩ := hview
  refine ⟨s, s', hs, ?_, ?_, ?_, hs', ?_⟩
  · rw [hsim.rel.ctl, h1]
  · rw [hsim.rel.kern, h2]
  · rw [hsim.rel.kern, h3]
  · rw [hsim'.rel.ctl, h4]

/-! ### A single reader -/

lemma Sim.readerServed {b : Board} {L : Layout b} {s : Sys ArmMachine} {t : Sys ProcMachine}
    {r : Pid} (h : Sim L s t) (cc : CompiledC) (ht : ReaderServed procArch b r t) :
    ReaderServed (armArch L cc) b r s := by
  have hR := fun s t e (h : Sim L s t) => h.simulates cc e
  intro hu hst
  rw [h.rel.ctl] at hu
  rw [h.rel.kern] at hst ⊢
  obtain ⟨hempty, hslot, hirq⟩ := ht hu hst
  refine ⟨hempty, hslot, ?_⟩
  intro ack rx s' hack hs'
  obtain ⟨t', ht', h'⟩ := h.forth hs'
  obtain ⟨hcur, hrun, hctl, hdone⟩ := hirq ack rx t' hack ht'
  rw [h'.rel.kern, h'.rel.ctl]
  refine ⟨hcur, hrun, hctl, ?_⟩
  intro hrx
  obtain ⟨m, t₁, ht₁, hu₁, hcur₁, hrun₁⟩ := hdone hrx
  obtain ⟨s₁, hs₁, h₁⟩ := run_rel_symm hR h' ht₁
  refine ⟨m, s₁, hs₁, ?_⟩
  rw [h₁.rel.kern, h₁.rel.ctl]
  exact ⟨hu₁, hcur₁, hrun₁⟩

/-- **No lost wake-up with a single reader.** -/
theorem single_reader_served {b : Board} (L : Layout b) (cc : CompiledC) (mem : Memory) (cpu : Cpu)
    (r : Pid) (es : List Event)
    (hes : AllSteps (step (armArch L cc) b)
      (fun s e _ => IssuesRead (armArch L cc) s e → s.kern.current = some r)
      (armSys L cc mem cpu) es) :
    AllStates (step (armArch L cc) b) (ReaderServed (armArch L cc) b r) (armSys L cc mem cpu)
      es := by
  have hR := fun s t e (h : Sim L s t) => h.simulates cc e
  have h₀ := sim_boot L cc mem cpu
  have hsteps := allSteps_rel hR
    (C := fun s e _ => IssuesRead (armArch L cc) s e → s.kern.current = some r)
    (D := fun t e _ => IssuesRead procArch t e → t.kern.current = some r) (fun s t e s' t' h _ => by
      rw [h.issuesRead_iff cc e, h.rel.kern]) es h₀
  exact (readerServed_run L _ r es (hsteps.1 hes)).of_rel hR (fun s t h => h.readerServed cc) h₀

/-- Process 0 reads from the empty console and is asleep, served by the next interrupt. -/
theorem single_reader_served_asleep :
    ∃ s, run (step (armArch qemuLayout .zeroed) .qemu) qemuBoot
        (userCall 4#32 0#32 0x40000000#32 1#32 ++ [.kernel]) = some s ∧
      s.ctl = .user ∧ s.kern.st 0 = .blocked ∧
      ReaderServed (armArch qemuLayout .zeroed) .qemu 0 s := by
  have hrun : ((run (step procArch .qemu) qemuProcs
      (userCall 4#32 0#32 0x40000000#32 1#32 ++ [.kernel])).map fun t => (t.ctl, t.kern.st 0)) =
      some (.user, .blocked) := by decide +kernel
  have hfirst : ((step procArch .qemu qemuProcs
      (.exec (callRegs 4#32 0#32 0x40000000#32 1#32))).map fun t => t.kern.current) =
      some (some 0) := by decide +kernel
  obtain ⟨t, ht, hview⟩ := Option.map_eq_some_iff.1 hrun
  obtain ⟨s, hs, hsim⟩ := exists_qemu_run ht
  simp only [Prod.mk.injEq] at hview
  have hes : AllSteps (step (armArch qemuLayout .zeroed) .qemu)
      (fun s e _ => IssuesRead (armArch qemuLayout .zeroed) s e → s.kern.current = some 0) qemuBoot
      (userCall 4#32 0#32 0x40000000#32 1#32 ++ [.kernel]) := by
    intro s₁ hs₁
    refine ⟨?_, fun s₂ _ => ⟨?_, fun s₃ _ => ⟨?_, trivial⟩⟩⟩
    · rintro ⟨-, -, -, he, -⟩
      cases he
    · intro _
      obtain ⟨t₁, ht₁, h₁⟩ := (sim_boot qemuLayout .zeroed (fun _ => 0#8) .zero).forth hs₁
      have hcur := hfirst
      rw [show step procArch .qemu qemuProcs _ = some t₁ from ht₁] at hcur
      rw [h₁.rel.kern]
      exact Option.some.inj hcur
    · rintro ⟨-, -, -, he, -⟩
      cases he
  refine ⟨s, hs, ?_, ?_, (single_reader_served qemuLayout .zeroed _ .zero 0 _ hes).last hs⟩
  · rw [hsim.rel.ctl, hview.1]
  · rw [hsim.rel.kern, hview.2]

end RingNova
