/-
# `sys_ps` on the ARM machine

What a call of `sys_ps` leaves in the user slots, for every process table, and what it says about
its caller, for every reachable state.
-/
import RingNova.Arm.Syscall
import RingNova.System.Ps

namespace RingNova

open Trace

section

variable {b : Board} {L : Layout b} {cc : CompiledC} {mem : Memory} {cpu : Cpu}
  {s : Sys ArmMachine} {t : Sys ProcMachine} {c : Pid}

/-! ### What is written -/

/-- The machine after the loop of `sys_ps`: it represents the process-level machine after it. -/
lemma Sim.storeLoop (h : Sim L s t) (cc : CompiledC) (hu : InUser c s) {bs : List Byte}
    {buf size : Word} (hv : validUserPtr buf size = true) (hlen : bs.length ≤ size.toNat) :
    ∃ a, RingNova.storeLoop (armArch L cc) c bs buf ((armArch L cc).enter s.arch c .svc) =
        (a, true) ∧
      ∀ p va, inWindow va = true →
        a.umem b p va = (storeOut (t.arch.enter c .svc) c bs buf).umem p va := by
  obtain ⟨h1, h2⟩ := (validUserPtr_iff buf size).1 hv
  have hrange : 0x40000000 ≤ buf.toNat ∧ buf.toNat + bs.length ≤ 0x40100000 := ⟨h1, by omega⟩
  have hops := opsRel_arm L cc c
  obtain ⟨hrel, hok⟩ := storeLoop_rel hops (hops.enter .svc (h.user hu)) bs buf hrange
  have hproc := storeLoop_proc c bs buf (t.arch.enter c .svc) hrange
  rw [show procArch.enter t.arch c .svc = t.arch.enter c .svc from rfl, hproc] at hrel hok
  refine ⟨_, Prod.ext rfl hok, ?_⟩
  intro p va hw
  exact hrel.background.umem p va hw

/-- **`sys_ps` writes a beginning of the listing.**  For every process table and every valid
buffer it stores the first `size - 1` bytes of the listing from the start of the buffer on, or
all of them if they are fewer, returns their number, and touches no other byte of a user slot. -/
theorem sys_ps_prefix
    (hr : Reachable (step (armArch L cc) b) (armSys L cc mem cpu) s) (hu : InUser c s)
    (k : Kernel numProcesses) (hpid : ∀ p, (k.processes p).pid = BitVec.ofNat 32 p)
    {buf size : Word} (hv : validUserPtr buf size = true) :
    ∃ n a, n = min (psListing k).length (size.toNat - 1) ∧
      sysPs (armArch L cc) k ((armArch L cc).enter s.arch c .svc) c buf size =
        svcReturn (armArch L cc) k a c (BitVec.ofNat 32 n) ∧
      Stored (a.umem b c) buf ((psListing k).take n) ∧
      ∀ p va, inWindow va = true → ¬ (p = c ∧ InRange buf n va) →
        a.umem b p va = s.arch.umem b p va := by
  obtain ⟨t, -, h⟩ := sim_of_reachable hr
  obtain ⟨h1, h2⟩ := (validUserPtr_iff buf size).1 hv
  have hbytes := sysPsBytes_eq hpid size
  have hlen : (k.sysPsBytes size).length = min (psListing k).length (size.toNat - 1) := by
    rw [hbytes, List.length_take, Nat.min_comm]
  have htake : (psListing k).take (min (psListing k).length (size.toNat - 1)) =
      k.sysPsBytes size := by
    rw [hbytes, List.take_eq_take_iff]
    omega
  have hle : (k.sysPsBytes size).length ≤ size.toNat := length_sysPsBytes k size
  have hfit : buf.toNat + (k.sysPsBytes size).length < 2 ^ 32 := by omega
  obtain ⟨a, hloop, humem⟩ := h.storeLoop cc hu hv hle
  refine ⟨_, a, rfl, ?_, ?_, ?_⟩
  · simp only [sysPs, hv, if_true, hloop]
    rw [hlen]
  · rw [htake]
    have hstored := storeOut_stored (a := t.arch.enter c .svc) (c := c) hfit
    exact hstored.congr hv hle fun va hw => humem c va hw
  · intro p va hw hout
    rw [humem p va hw, h.umem p hw]
    by_cases hp : p = c
    · subst hp
      refine storeOut_outside hfit ?_
      intro hin
      exact hout ⟨rfl, by rwa [hlen] at hin⟩
    · exact congrFun ((storeOut_frame c _ buf _).2.2 p hp) va

end

/-- A buffer of five bytes gets the first four of the listing. -/
theorem sys_ps_prefix_five :
    ∃ a, sysPs (armArch qemuLayout .zeroed) (bootKernel qemuLayout)
        ((armArch qemuLayout .zeroed).enter qemuBoot.arch 0 .svc) 0 0x40000000#32 5#32 =
        svcReturn (armArch qemuLayout .zeroed) (bootKernel qemuLayout) a 0 4#32 ∧
      Stored (a.umem .qemu 0) 0x40000000#32 (cstr "0 co") := by
  have h₀ : Sim qemuLayout qemuBoot qemuProcs := sim_boot _ _ _ _
  have hu : InUser 0 qemuBoot := (h₀.inUser_iff 0).2 ⟨rfl, rfl⟩
  have hv : validUserPtr 0x40000000#32 5#32 = true := by decide
  obtain ⟨n, a, hn, hret, hst, -⟩ := sys_ps_prefix (s := qemuBoot) (c := 0) (Reachable.refl _) hu
    (bootKernel qemuLayout) (fun _ => rfl) hv
  obtain rfl : n = 4 := hn.trans (by decide)
  have htake : (psListing (bootKernel qemuLayout)).take 4 = cstr "0 co" := by decide
  rw [htake] at hst
  exact ⟨a, hret, hst⟩

section

variable {b : Board} {L : Layout b} {cc : CompiledC} {mem : Memory} {cpu : Cpu}
  {s : Sys ArmMachine} {t : Sys ProcMachine} {c : Pid}

/-! ### What is reported -/

/-- What a process finds in a buffer after a call that has returned a number of bytes. -/
def psOutput (b : Board) (s : Sys ArmMachine) (c : Pid) (buf : Word) : List Byte :=
  (List.range (s.arch.cpu.r 0).toNat).map fun i => s.arch.umem b c (buf + BitVec.ofNat 32 i)

lemma Stored.eq_map {m : Word → Byte} {buf : Word} {bs : List Byte} (h : Stored m buf bs) :
    ((List.range bs.length).map fun i => m (buf + BitVec.ofNat 32 i)) = bs := by
  refine List.ext_getElem (by simp) ?_
  intro i h1 h2
  rw [List.getElem_map, List.getElem_range, h i h2]
  rfl

/-- The names of the processes are those of `user_images`. -/
lemma Built.name {k : Kernel numProcesses} (h : Built L k) (p : Pid) :
    (k.processes p).name = userImageName p :=
  (congrArg Pcb.name (h p) :)

lemma newline_not_mem_name (p : Pid) : 0x0A#8 ∉ userImageName p := by
  revert p
  decide

/-- With enough room, the caller finds the whole listing. -/
lemma Sim.ps_output (h : Sim L s t) (cc : CompiledC) (hu : InUser c s)
    (hnum : Syscall.ofNum (s.arch.cpu.r 7) = some .ps)
    (hv : validUserPtr (s.arch.cpu.r 0) (s.arch.cpu.r 1) = true)
    (hsize : (psListing s.kern).length < (s.arch.cpu.r 1).toNat) :
    ∃ s', step (armArch L cc) b s .svc = some s' ∧ InUser c s' ∧
      psOutput b s' c (s.arch.cpu.r 0) = psListing s.kern := by
  have hinv := h.inv_user hu
  have hut := (h.inUser_iff c).1 hu
  obtain ⟨h1, h2⟩ := (validUserPtr_iff _ _).1 hv
  have hbytes : t.kern.sysPsBytes (s.arch.cpu.r 1) = psListing s.kern := by
    rw [sysPsBytes_eq h.built.numbered, ← h.rel.kern, List.take_of_length_le (by omega)]
  rw [h.r_eq hu] at hnum hv hsize hbytes h1 h2 ⊢
  have ht := hinv.step_ps hut.1 hnum hv
  rw [hbytes] at ht
  obtain ⟨s', hs', h'⟩ := h.back cc ht
  have hu' : InUser c s' := (h'.inUser_iff c).2 ⟨rfl, hut.2⟩
  refine ⟨s', hs', hu', ?_⟩
  have hr0 : s'.arch.cpu.r 0 = BitVec.ofNat 32 (psListing s.kern).length := by
    rw [h'.r_eq hu']
    simp [procArch, ProcMachine.setRegs]
  have hfit : ((t.arch.regs c).r 0).toNat + (psListing s.kern).length < 2 ^ 32 := by omega
  have hst := (storeOut_stored (a := t.arch.enter c .svc) (c := c) hfit).congr hv hsize.le
    fun va hw => h'.umem c hw
  rw [psOutput, hr0, BitVec.toNat_ofNat, Nat.mod_eq_of_lt (by omega)]
  exact hst.eq_map

/-- The states that the listing reports are those of the process table. -/
lemma Sim.reported_iff (h : Sim L s t) (p : Pid) :
    reportedState (psListing s.kern) p = cstr "RUNNING" ↔ t.kern.st p = .running := by
  have hnames : ∀ q, 0x0A#8 ∉ (s.kern.processes q).name := by
    intro q
    rw [h.rel.kern, h.built.name]
    exact newline_not_mem_name q
  rw [reportedState_psListing hnames, stateWord_eq_running, h.rel.kern]

/-- **When `ps` tells the truth about its caller.**  A live process that calls `sys_ps` with
enough room finds its own line, and no other, saying `RUNNING`, exactly if there has been a
dispatch since boot. -/
theorem ps_truthful_iff
    (hr : Reachable (step (armArch L cc) b) (armSys L cc mem cpu) s) (hu : InUser c s)
    (hlive : s.kern.st c ≠ .dead) (hnum : Syscall.ofNum (s.arch.cpu.r 7) = some .ps)
    (hv : validUserPtr (s.arch.cpu.r 0) (s.arch.cpu.r 1) = true)
    (hsize : (psListing s.kern).length < (s.arch.cpu.r 1).toNat) :
    ∃ s', step (armArch L cc) b s .svc = some s' ∧ InUser c s' ∧
      ((∀ p : Pid, reportedState (psOutput b s' c (s.arch.cpu.r 0)) p = cstr "RUNNING" ↔ p = c) ↔
        s.kern.dispatches ≠ []) := by
  obtain ⟨t, ht, h⟩ := sim_of_reachable hr
  obtain ⟨s', hs', hu', hout⟩ := h.ps_output cc hu hnum hv hsize
  obtain ⟨c', hinv, hm⟩ := marked_of_reachable ht
  have hut := (h.inUser_iff c).1 hu
  obtain rfl : c' = c := Option.some.inj (hinv.current.symm.trans hut.2)
  refine ⟨s', hs', hu', ?_⟩
  have hiff := hm.running_iff hinv hut.1 (by rwa [h.rel.kern] at hlive)
  rw [← h.rel.kern] at hiff
  refine Iff.trans (forall_congr' fun p => ?_) hiff
  rw [hout, h.reported_iff p, h.rel.kern]

end

/-- What is seen of a process that is about to call `sys_ps(0x40000000, 256)`. -/
def psView (c : Pid) (t : Sys ProcMachine) :
    Ctl × Option Pid × TaskState × List Word × ℕ :=
  (t.ctl, t.kern.current, t.kern.st c,
    [(t.arch.regs c).r 7, (t.arch.regs c).r 0, (t.arch.regs c).r 1], (psListing t.kern).length)

/-- Such a process on the ARM machine. -/
lemma exists_psCaller {es : List Event} {c : Pid} {st : TaskState}
    (h : (run (step procArch .qemu) qemuProcs es).map (psView c) =
      some (.user, some c, st, [5#32, 0x40000000#32, 256#32], 52)) :
    ∃ s t, run (step (armArch qemuLayout .zeroed) .qemu) qemuBoot es = some s ∧
      run (step procArch .qemu) qemuProcs es = some t ∧ Sim qemuLayout s t ∧ InUser c s ∧
      s.kern.st c = st ∧ s.arch.cpu.r 7 = 5#32 ∧ s.arch.cpu.r 0 = 0x40000000#32 ∧
      s.arch.cpu.r 1 = 256#32 ∧ (psListing s.kern).length = 52 := by
  obtain ⟨t, ht, hview⟩ := Option.map_eq_some_iff.1 h
  obtain ⟨s, hs, hsim⟩ := exists_qemu_run ht
  simp only [psView, Prod.mk.injEq, List.cons.injEq, and_true] at hview
  obtain ⟨h1, h2, h3, ⟨h4, h5, h6⟩, h7⟩ := hview
  have hu : InUser c s := (hsim.inUser_iff c).2 ⟨h1, h2⟩
  refine ⟨s, t, hs, ht, hsim, hu, ?_, ?_, ?_, ?_, ?_⟩
  · rw [hsim.rel.kern, h3]
  · rw [hsim.r_eq hu, h4]
  · rw [hsim.r_eq hu, h5]
  · rw [hsim.r_eq hu, h6]
  · rw [hsim.rel.kern, h7]

/-- After a tick, process 1 calls `ps` and is told that it is the one that runs. -/
theorem ps_truthful_tick :
    ∃ s s', run (step (armArch qemuLayout .zeroed) .qemu) qemuBoot
        [.irq 36#32 [], .exec (callRegs 5#32 0x40000000#32 256#32 0#32)] = some s ∧
      step (armArch qemuLayout .zeroed) .qemu s .svc = some s' ∧
      ∀ p : Pid,
        reportedState (psOutput .qemu s' 1 (s.arch.cpu.r 0)) p = cstr "RUNNING" ↔ p = 1 := by
  have hview : (run (step procArch .qemu) qemuProcs
      [.irq 36#32 [], .exec (callRegs 5#32 0x40000000#32 256#32 0#32)]).map (psView 1) =
      some (.user, some 1, .running, [5#32, 0x40000000#32, 256#32], 52) := by decide
  obtain ⟨s, t, hs, ht, hsim, hu, hst, h7, h0, h1, hlen⟩ := exists_psCaller hview
  have hdisp : ((run (step procArch .qemu) qemuProcs
      [.irq 36#32 [], .exec (callRegs 5#32 0x40000000#32 256#32 0#32)]).map fun t =>
      t.kern.dispatches) = some [(1, false)] := by decide
  rw [ht, Option.map_some, ← hsim.rel.kern] at hdisp
  obtain ⟨s', hs', -, hiff⟩ := ps_truthful_iff ⟨_, hs⟩ hu (by rw [hst]; simp) (by rw [h7]; rfl)
    (by rw [h0, h1]; decide) (by rw [h1, hlen]; decide)
  exact ⟨s, s', hs, hs', hiff.2 (by rw [Option.some.inj hdisp]; simp)⟩

/-- Process 0 calls `ps` before the first tick and is told that it is ready. -/
theorem ps_reports_ready :
    ∃ s s', run (step (armArch qemuLayout .zeroed) .qemu) qemuBoot
        [.exec (callRegs 5#32 0x40000000#32 256#32 0#32)] = some s ∧
      InUser 0 s ∧ s.kern.st 0 ≠ .dead ∧
      step (armArch qemuLayout .zeroed) .qemu s .svc = some s' ∧ InUser 0 s' ∧
      reportedState (psOutput .qemu s' 0 (s.arch.cpu.r 0)) 0 = cstr "READY  " ∧
      ¬ ∀ p : Pid, reportedState (psOutput .qemu s' 0 (s.arch.cpu.r 0)) p = cstr "RUNNING" ↔
        p = 0 := by
  have hview : (run (step procArch .qemu) qemuProcs
      [.exec (callRegs 5#32 0x40000000#32 256#32 0#32)]).map (psView 0) =
      some (.user, some 0, .ready, [5#32, 0x40000000#32, 256#32], 52) := by decide
  obtain ⟨s, t, hs, -, hsim, hu, hst, h7, h0, h1, hlen⟩ := exists_psCaller hview
  obtain ⟨s', hs', hu', hout⟩ := hsim.ps_output .zeroed hu (by rw [h7]; rfl)
    (by rw [h0, h1]; decide) (by rw [h1, hlen]; decide)
  have hstate : reportedState (psOutput .qemu s' 0 (s.arch.cpu.r 0)) 0 = cstr "READY  " := by
    have hnames : ∀ q, 0x0A#8 ∉ (s.kern.processes q).name := by
      intro q
      rw [hsim.rel.kern, hsim.built.name]
      exact newline_not_mem_name q
    rw [hout]
    refine (reportedState_psListing hnames (0 : Pid)).trans ?_
    rw [hst]
    decide
  refine ⟨s, s', hs, hu, by rw [hst]; simp, hs', hu', hstate, ?_⟩
  intro h
  have hrun := (h 0).2 rfl
  exact absurd (hstate.symm.trans hrun) (by decide)

end RingNova
