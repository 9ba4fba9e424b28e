/-
# Requests, hints and turns on the ARM machine

What `RingNova.System.Dispatch` shows about the scheduler's decisions, for the system on the
ARM machine: no request and no hint outlives the step that makes it, and a ready process is
passed over by at most one round of the ring walk, as long as no wake-up moves the ring
position back behind it.
-/
import RingNova.Arm.Scheduling
import RingNova.System.Dispatch

namespace RingNova

open Trace

section Transfer

variable {b : Board} {L : Layout b} {cc : CompiledC} {mem : Memory} {cpu : Cpu}
  {s : Sys ArmMachine} {t : Sys ProcMachine} {c p : Pid} {e : Event}

lemma Built.numbered {k : Kernel numProcesses} (h : Built L k) : Numbered k := by
  intro p
  have hpid : (k.processes p).pid = (initPcb L p).pid := (congrArg Pcb.pid (h p) :)
  exact hpid

lemma Sim.wakesReader_iff (h : Sim L s t) : WakesReader b s e p ↔ WakesReader b t e p := by
  rw [WakesReader, WakesReader, h.rel.kern, h.rel.ctl]

lemma Sim.setsBack_iff (h : Sim L s t) : SetsBack b p s e ↔ SetsBack b p t e := by
  simp only [SetsBack, h.wakesReader_iff, h.rel.kern]

lemma Sim.requests (h : Sim L s t) (hc : t.kern.current = some c)
    (hreq : Requests (armArch L cc) b s c e) : Requests procArch b t c e := by
  have hu : s.ctl = .user → t.ctl = .user := fun hu => h.rel.ctl ▸ hu
  cases hreq with
  | tick ack rx hctl hack => exact .tick ack rx (hu hctl) hack
  | wake hw => exact .wake (h.wakesReader_iff.1 hw)
  | yieldOrExit hctl hnum =>
    rw [h.svcContext cc (hu hctl) hc] at hnum
    exact .yieldOrExit (hu hctl) hnum
  | kill hctl hnum hp hst =>
    rw [h.svcContext cc (hu hctl) hc] at hnum hp
    exact .kill (hu hctl) hnum hp (h.rel.kern ▸ hst)
  | fault kind far fsr hctl => exact .fault kind far fsr (hu hctl)
  | sleep hb =>
    rw [BlocksOnInput, h.rel.ctl, h.rel.kern] at hb
    exact .sleep hb

/-- **Requests are neither lost nor left over.**  In every reachable state the flag and the
hint are clear; every event that asks for a switch ends in a decision, a woken reader has
the CPU when its wake-up is over, and the hint chooses nobody else. -/
theorem requests_acted_on (hr : Reachable (step (armArch L cc) b) (armSys L cc mem cpu) s) :
    s.kern.needReschedule = false ∧ s.kern.wakeHint = none ∧
      ∀ c e s', s.kern.current = some c → step (armArch L cc) b s e = some s' →
        (Requests (armArch L cc) b s c e → Decided c s'.kern) ∧
        (∀ p, WakesReader b s e p → s'.kern.current = some p) ∧
        ∃ new, s'.kern.dispatches = s.kern.dispatches ++ new ∧
          ∀ n, (n, true) ∈ new → WakesReader b s e n := by
  obtain ⟨t, -, hsim⟩ := sim_of_reachable hr
  obtain ⟨c₀, hinv⟩ := hsim.inv
  refine ⟨?_, ?_, ?_⟩
  · rw [hsim.rel.kern]
    exact hinv.idle
  · rw [hsim.rel.kern]
    exact hinv.noHint
  · intro c e s' hc hs
    obtain ⟨t', ht', hsim'⟩ := hsim.forth hs
    rw [hsim.rel.kern] at hc
    obtain rfl : c₀ = c := Option.some.inj (hinv.current.symm.trans hc)
    obtain ⟨hdec, hwake, new, hnew, hhint⟩ := hinv.step_decided hsim.built.numbered ht'
    rw [hsim.rel.kern, hsim'.rel.kern]
    refine ⟨fun hreq => hdec (hsim.requests hc hreq), ?_, new, hnew, ?_⟩
    · intro p hw
      exact hwake p (hsim.wakesReader_iff.1 hw)
    · intro n hn
      exact hsim.wakesReader_iff.2 (hhint n hn)

end Transfer

/-- The first tick after boot is acted on. -/
theorem requests_acted_on_tick :
    ∃ s', step (armArch qemuLayout .zeroed) .qemu qemuBoot (.irq 36#32 []) = some s' ∧
      Decided 0 s'.kern ∧ qemuBoot.kern.needReschedule = false := by
  have hsim : Sim qemuLayout qemuBoot qemuProcs := sim_boot _ _ _ _
  have hctl : qemuBoot.ctl = .user := hsim.rel.ctl
  have hcur : qemuBoot.kern.current = some 0 := congrArg Kernel.current hsim.rel.kern
  have hrun : (step procArch .qemu qemuProcs (.irq 36#32 [])).isSome = true := by decide +kernel
  obtain ⟨t', ht'⟩ := Option.isSome_iff_exists.1 hrun
  obtain ⟨s', hs', -⟩ := hsim.back .zeroed ht'
  obtain ⟨hidle, -, hdec⟩ := requests_acted_on (Reachable.refl qemuBoot)
  exact ⟨s', hs', (hdec 0 _ s' hcur hs').1 (.tick _ _ hctl (by decide)), hidle⟩

/-! ### Turns -/

/-- **Bounded overtaking**, in the runs in which no wake-up moves the ring position back
behind the waiting process. -/
theorem bounded_overtaking {b : Board} (L : Layout b) (cc : CompiledC) (mem : Memory) (cpu : Cpu)
    (es : List Event) (p : Pid)
    (hes : AllSteps (step (armArch L cc) b) (fun s e _ => ¬ SetsBack b p s e)
      (armSys L cc mem cpu) es) :
    AllStates (step (armArch L cc) b)
      (fun s => s.kern.st p = .ready → s.kern.overtaken p ≤ numProcesses - 1)
      (armSys L cc mem cpu) es := by
  have hR := fun s t e (h : Sim L s t) => h.simulates cc e
  have h₀ := sim_boot L cc mem cpu
  have hsteps := allSteps_rel hR (C := fun s e _ => ¬ SetsBack b p s e)
    (D := fun t e _ => ¬ SetsBack b p t e) (fun s t e s' t' h _ => by rw [h.setsBack_iff]) es h₀
  refine (overtaken_run L _ es p (hsteps.1 hes)).of_rel hR ?_ h₀
  intro s t h
  rw [h.rel.kern]
  exact id

/-- After the first tick process 2 has been passed over once. -/
theorem bounded_overtaking_tick :
    ∃ s, run (step (armArch qemuLayout .zeroed) .qemu) qemuBoot [.irq 36#32 []] = some s ∧
      s.kern.st 2 = .ready ∧ s.kern.overtaken 2 = 1 ∧ s.kern.overtaken 2 ≤ numProcesses - 1 := by
  have hrun : ((run (step procArch .qemu) qemuProcs [.irq 36#32 []]).map fun t =>
      (t.kern.st 2, t.kern.overtaken 2)) = some (.ready, 1) := by decide +kernel
  obtain ⟨t, ht, hview⟩ := Option.map_eq_some_iff.1 hrun
  obtain ⟨s, hs, hsim⟩ := exists_qemu_run ht
  simp only [Prod.mk.injEq] at hview
  have hst : s.kern.st 2 = .ready := by rw [hsim.rel.kern, hview.1]
  have hes : AllSteps (step (armArch qemuLayout .zeroed) .qemu)
      (fun s e _ => ¬ SetsBack .qemu 2 s e) qemuBoot [.irq 36#32 []] := by
    intro s' _
    refine ⟨?_, trivial⟩
    rintro ⟨c, h, -, ⟨ack, rx, -, -, -, hslot, -⟩, -⟩
    have hboot : Sim qemuLayout qemuBoot qemuProcs := sim_boot _ _ _ _
    have hnone : qemuProcs.kern.blockedReader = none := rfl
    rw [hboot.rel.kern, hnone] at hslot
    exact absurd hslot (by simp)
  refine ⟨s, hs, hst, by rw [hsim.rel.kern, hview.2], ?_⟩
  exact (bounded_overtaking qemuLayout .zeroed _ .zero _ 2 hes).last hs hst

/-- A byte arrives for process 0, which is asleep in `sys_read`; process 0 returns with it,
reads again, and finds the console empty. -/
def readAgain : List Event := [.irq 44#32 [0x61#8], .kernel, .kernel, .kernel, .svc, .kernel]

/-- Process 0 reads from the console, byte by byte: each time it falls asleep, the ring walk
goes from 0 to 1, and process 2, which is ready all the time, is passed over. -/
theorem ring_walk_passes_over :
    ¬ AllStates (step (armArch qemuLayout .zeroed) .qemu)
      (fun s => s.kern.st 2 = .ready → s.kern.overtaken 2 ≤ numProcesses - 1) qemuBoot
      (userCall 4#32 0#32 0x40000000#32 1#32 ++ [.kernel] ++ readAgain ++ readAgain) := by
  have hrun : ((run (step procArch .qemu) qemuProcs
      (userCall 4#32 0#32 0x40000000#32 1#32 ++ [.kernel] ++ readAgain ++ readAgain)).map fun t =>
      (t.kern.st 2, t.kern.overtaken 2)) = some (.ready, 3) := by decide +kernel
  obtain ⟨t, ht, hview⟩ := Option.map_eq_some_iff.1 hrun
  obtain ⟨s, hs, hsim⟩ := exists_qemu_run ht
  simp only [Prod.mk.injEq] at hview
  intro h
  have hlast := h.last hs (by rw [hsim.rel.kern, hview.1])
  rw [hsim.rel.kern, hview.2] at hlast
  exact absurd hlast (by decide)

end RingNova
