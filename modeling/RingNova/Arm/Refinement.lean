/-
# The ARM machine refines the process-level machine

Every step of the system on the ARM machine is a step of the system on the process-level
machine, with the same globals and the same control point, and the other way round
(`Sim.simulates`).  In particular control is never lost: each `context_switch` finds what it
needs.  What is known about all runs of the process-level system therefore holds of all
runs of the ARM system.
-/
import RingNova.Arm.Boot
import RingNova.System.Outcome

namespace RingNova

/-! ### The static part of the PCBs -/

/-- The static part of the PCBs is what `process_init_all` has built. -/
def Built {b : Board} (L : Layout b) (k : Kernel numProcesses) : Prop :=
  ∀ p, (k.processes p).fixed = (initPcb L p).fixed

section Step

variable {b : Board} {L : Layout b} {cc : CompiledC} {s : Sys ArmMachine} {t : Sys ProcMachine}
  {e : Event}

lemma Built.trans {k k' : Kernel numProcesses} (h : Built L k) (hk : Keeps k k') : Built L k' :=
  fun p => (hk.fixed p).trans (h p)

lemma Built.schedule {k k' : Kernel numProcesses} {sw : Option (Pid × Pid)} (h : Built L k)
    (hsch : k.schedule = (k', sw)) : Built L k' := by
  have hkeeps := keeps_schedule k
  rw [hsch] at hkeeps
  exact h.trans hkeeps

lemma Built.pgdPa {k : Kernel numProcesses} (h : Built L k) (p : Pid) :
    (k.processes p).pgdPa = (initPcb L p).pgdPa :=
  (congrArg Pcb.pgdPa (h p) :)

/-- A switch goes to another process, and to one that is runnable. -/
lemma schedule_switch {k k' : Kernel numProcesses} {c prev n : Pid} (hc : k.current = some c)
    (h : k.schedule = (k', some (prev, n))) : n ≠ c ∧ k.Runnable n := by
  rcases hreq : k.needReschedule with _ | _
  · rw [Kernel.schedule_idle hreq] at h
    exact absurd (Prod.mk.inj h).2 (by simp)
  · rcases Kernel.schedule_cases two_numProcesses_le hc hreq with
      ⟨n', byHint, hn, hrun, -, h'⟩ | ⟨-, h'⟩
    · obtain ⟨-, h2⟩ := Prod.mk.inj (h.symm.trans h')
      obtain ⟨-, rfl⟩ := Prod.mk.inj (Option.some.inj h2)
      exact ⟨hn, hrun⟩
    · exact absurd (Prod.mk.inj (h.symm.trans h')).2 (by simp)

/-! ### One step -/

/-- The simulation: related machines, with the invariant of the process-level system. -/
structure Sim (L : Layout b) (s : Sys ArmMachine) (t : Sys ProcMachine) : Prop where
  rel : SysRel (ArmRel L) s t
  inv : ∃ c, Inv b t c
  built : Built L t.kern

/-- A switch goes to a process that has not been killed by a fault. -/
lemma CallReady.switch_cont {k k' : Kernel numProcesses} {m : ProcMachine} {c prev n : Pid}
    {site : Cont} (h : CallReady b k m c site) (hsch : k.schedule = (k', some (prev, n))) :
    n ≠ c ∧ m.cont n ≠ .faultTail := by
  obtain ⟨hn, hrun⟩ := schedule_switch h.current hsch
  refine ⟨hn, ?_⟩
  rcases (h.next hn hrun).2 with hr | ⟨hr, -⟩
  · exact hr.ne_faultTail
  · exact hr.ne_faultTail

/-- A call of `schedule` in step. -/
lemma ArmRel.callSchedule (cc : CompiledC) {k : Kernel numProcesses} {a : ArmMachine}
    {m : ProcMachine} {c : Pid} {site : Cont} (h : ArmRel L c site.phase a m)
    (hready : CallReady b k m c site) (hbuilt : Built L k) :
    SysRel (ArmRel L) (callSchedule (armArch L cc) k a c site)
      (callSchedule procArch k m c site) := by
  refine callSchedule_rel (fun x => ArmRel.leave cc x) hready.current h ?_
  intro k' n hsch
  obtain ⟨hn, hcont⟩ := hready.switch_cont hsch
  have hk' := hbuilt.schedule hsch
  obtain ⟨a', hsw, hrel⟩ := h.switch cc hn hcont hready.noFault (hk'.pgdPa n)
  exact ⟨a', m.park c site, m.cont n, hsw, rfl, hrel⟩

/-- **One step of the two systems.** -/
theorem Sim.simulates (h : Sim L s t) (cc : CompiledC) (e : Event) :
    Option.Rel (Sim L) (step (armArch L cc) b s e) (step procArch b t e) := by
  obtain ⟨c, hinv⟩ := h.inv
  have hc : s.kern.current = some c := by rw [h.rel.kern, hinv.current]
  have hhandle := handle_rel (opsRel_arm L cc c) h.rel hinv.current
    (fun buf len n got hctl => (hinv.readArgs buf len n got hctl).valid) b e
  simp only [step, hc, hinv.current]
  generalize handle (armArch L cc) b s c e = x at hhandle
  generalize hy : handle procArch b t c e = y at hhandle
  cases hhandle with
  | none => exact .none
  | @some x y hxy =>
    have hstep : step procArch b t e = some (finish procArch c y) := by
      simp [step, hinv.current, hy]
    have hinv' := hinv.preserved hstep
    refine .some ?_
    rcases handle_cases hinv.current hinv.ring (hinv.mode c) hinv.readArgs hy with
      ⟨t', rfl, hq⟩ | ⟨act, site, k, m, marks, hcall, rfl⟩
    · cases hxy with
      | point hat =>
        refine ⟨⟨rfl, rfl, ?_⟩, hinv', h.built.trans hq.keeps⟩
        intro c' hc'
        have hcur := (congrArg Core.current hq.core).trans hinv.current
        obtain rfl : c = c' := Option.some.inj (hcur.symm.trans hc')
        exact hat
    · have hready := hcall.callReady hinv
      have hbuilt := h.built.trans (hcall.keeps hinv)
      cases hxy with
      | schedule hrel =>
        exact ⟨hrel.callSchedule cc hready hbuilt, hinv', hbuilt.trans (keeps_callSchedule _ _ _ _)⟩

/-- A step of the ARM system is one of the process-level system. -/
lemma Sim.forth {s' : Sys ArmMachine} (h : Sim L s t)
    (hs : step (armArch L cc) b s e = some s') :
    ∃ t', step procArch b t e = some t' ∧ Sim L s' t' :=
  Trace.step_rel (fun _ _ e h => h.simulates cc e) h hs

/-- And the other way round. -/
lemma Sim.back {t' : Sys ProcMachine} (h : Sim L s t) (cc : CompiledC)
    (ht : step procArch b t e = some t') :
    ∃ s', step (armArch L cc) b s e = some s' ∧ Sim L s' t' :=
  Trace.step_rel_symm (fun _ _ e h => h.simulates cc e) h ht

/-! ### Runs -/

/-- The two systems at the first user instruction. -/
theorem sim_boot (L : Layout b) (cc : CompiledC) (mem : Memory) (cpu : Cpu) :
    Sim L (armSys L cc mem cpu) (procSys L (userMemory b (bootMemory L mem))) :=
  ⟨sysRel_boot L cc mem cpu, ⟨0, inv_procSys L _⟩, fun _ => rfl⟩

/-- **Refinement.** -/
theorem sim_run (L : Layout b) (cc : CompiledC) (mem : Memory) (cpu : Cpu) (es : List Event) :
    Option.Rel (Sim L) (Trace.run (step (armArch L cc) b) (armSys L cc mem cpu) es)
      (Trace.run (step procArch b) (procSys L (userMemory b (bootMemory L mem))) es) :=
  Trace.run_rel (fun _ _ e h => h.simulates cc e) es (sim_boot L cc mem cpu)

/-- Every reachable state of the ARM system represents a reachable process-level one. -/
theorem sim_of_reachable {mem : Memory} {cpu : Cpu}
    (hr : Trace.Reachable (step (armArch L cc) b) (armSys L cc mem cpu) s) :
    ∃ t, Trace.Reachable (step procArch b)
        (procSys L (userMemory b (bootMemory L mem))) t ∧ Sim L s t :=
  hr.rel (fun _ _ e h => h.simulates cc e) (sim_boot L cc mem cpu)

/-- Every process-level run is a run of the ARM system. -/
theorem exists_run {mem : Memory} {cpu : Cpu} {es : List Event}
    (ht : Trace.run (step procArch b) (procSys L (userMemory b (bootMemory L mem))) es =
      some t) :
    ∃ s, Trace.run (step (armArch L cc) b) (armSys L cc mem cpu) es = some s ∧ Sim L s t :=
  Trace.run_rel_symm (fun _ _ e h => h.simulates cc e) (sim_boot L cc mem cpu) ht

end Step

end RingNova
