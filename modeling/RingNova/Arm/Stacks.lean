/-
# Stack pointers

Two facts about the kernel's stack pointers.

The stacks of the abort and undefined modes are never popped: every fault leaves 15 words
there (`run_modeStacks`).  They do not overflow, because a process that has been killed
by a fault never runs again, so there are at most as many faults as processes
(`fault_count`).

The pointer of the SVC stack when a C handler is called is the top of the kernel stack less
the frame that the entry has pushed.  The AAPCS wants it to be a multiple of 8; the 15 words
of an `svc` are not.
-/
import RingNova.Arm.Scheduling

namespace RingNova

open Trace

/-! ### What no operation changes -/

section Frame

variable {σ α : Type}

/-- A part of the machine that only exception entries may change. -/
structure Arch.KeepsPart (A : Arch σ) (f : σ → α) : Prop where
  exec : ∀ {a c g a'}, A.exec a c g = some a' → f a' = f a
  uload : ∀ {a c va rd a'}, A.uload a c va rd = some a' → f a' = f a
  ustore : ∀ {a c va ch a'}, A.ustore a c va ch = some a' → f a' = f a
  setRet : ∀ a c v, f (A.setRet a c v) = f a
  kstore : ∀ {a c va ch a'}, A.kstore a c va ch = some a' → f a' = f a
  leave : ∀ a c x, f (A.leave a c x) = f a
  switch : ∀ {k a prev next site a' cont},
    A.switch k a prev next site = some (a', cont) → f a' = f a

/-- The exception that an event is taken as. -/
def Event.exn : Event → Option Exn
  | .irq _ _ => some .irq
  | .svc => some .svc
  | .fault kind _ _ => some kind.exn
  | _ => none

/-- The machine after the exception entry of an event, if it has one. -/
def Arch.entered (A : Arch σ) (a : σ) (c : Pid) (e : Event) : σ :=
  match e.exn with
  | some x => A.enter a c x
  | none => a

/-- The machine where a handler has got to. -/
def Reached.arch : Reached σ → σ
  | .point s => s.arch
  | .schedule _ a _ => a

namespace Arch.KeepsPart

variable {A : Arch σ} {f : σ → α} {b : Board} {s s' : Sys σ} {a : σ} {c : Pid} {e : Event}

lemma storeLoop (h : A.KeepsPart f) (c : Pid) (bs : List Byte) (addr : Word) (a : σ) :
    f (RingNova.storeLoop A c bs addr a).1 = f a := by
  induction bs generalizing addr a with
  | nil => rfl
  | cons ch bs ih =>
    rw [RingNova.storeLoop]
    split
    next a' ha' => exact (ih _ a').trans (h.kstore ha')
    next => rfl

lemma svcReturn (h : A.KeepsPart f) (k : Kernel numProcesses) (a : σ) (c : Pid) (v : Word) :
    f (RingNova.svcReturn A k a c v).arch = f a :=
  h.setRet a c v

lemma handleSvc (h : A.KeepsPart f) (k : Kernel numProcesses) (a : σ) (c : Pid) :
    f (RingNova.handleSvc A k a c).arch = f a := by
  unfold RingNova.handleSvc
  dsimp only
  split
  case h_2 =>
    -- `sys_write` only reads
    unfold sysWrite
    repeat' split
    · exact h.svcReturn _ _ _ _
    · rfl
    · exact h.svcReturn _ _ _ _
  case h_6 =>
    unfold sysRead
    repeat' split
    · exact h.svcReturn _ _ _ _
    · rfl
    · exact h.svcReturn _ _ _ _
  case h_7 =>
    unfold sysPs
    split
    · have hloop := h.storeLoop c (k.sysPsBytes ((A.ctx a c .svc).r 1)) ((A.ctx a c .svc).r 0) a
      split
      next a' heq =>
        rw [heq] at hloop
        exact (h.svcReturn _ _ _ _).trans hloop
      next a' heq =>
        rw [heq] at hloop
        exact hloop
    · exact h.svcReturn _ _ _ _
  all_goals exact h.svcReturn _ _ _ _

lemma readIter (h : A.KeepsPart f) (k : Kernel numProcesses) (a : σ) (c : Pid)
    (buf len n : Word) (got : List Byte) :
    f (RingNova.readIter A k a c buf len n got).arch = f a := by
  unfold RingNova.readIter
  split
  · dsimp only
    split
    · split
      · exact h.svcReturn _ _ _ _
      · rfl
    · split
      next a' ha' => exact h.kstore ha'
      next => rfl
  · exact h.svcReturn _ _ _ _

lemma handle (h : A.KeepsPart f) {x : Reached σ} (hx : RingNova.handle A b s c e = some x) :
    f x.arch = f (A.entered s.arch c e) := by
  unfold RingNova.handle at hx
  split at hx
  · obtain ⟨a', ha', rfl⟩ := Option.map_eq_some_iff.1 hx
    exact h.exec ha'
  · obtain ⟨a', ha', rfl⟩ := Option.map_eq_some_iff.1 hx
    exact h.uload ha'
  · obtain ⟨a', ha', rfl⟩ := Option.map_eq_some_iff.1 hx
    exact h.ustore ha'
  · obtain rfl := Option.some.inj hx
    rfl
  · obtain rfl := Option.some.inj hx
    exact h.handleSvc _ _ _
  · obtain rfl := Option.some.inj hx
    unfold handleFault
    dsimp only
    split <;> rfl
  · obtain rfl := Option.some.inj hx
    exact h.readIter _ _ _ _ _ _ _
  · obtain rfl := Option.some.inj hx
    rfl
  · exact absurd hx (by simp)

lemma resume (h : A.KeepsPart f) (k : Kernel numProcesses) (a : σ) (c : Pid) (site : Cont) :
    f (RingNova.resume A k a c site).arch = f a := by
  cases site with
  | firstEntry => exact h.leave a c _
  | irqTail => exact h.leave a c _
  | svcTail => exact h.leave a c _
  | blockOnInput => rfl
  | faultTail => rfl

lemma callSchedule (h : A.KeepsPart f) (k : Kernel numProcesses) (a : σ) (c : Pid)
    (site : Cont) : f (RingNova.callSchedule A k a c site).arch = f a := by
  unfold RingNova.callSchedule
  split
  · exact h.resume _ _ _ _
  · split
    next a' cont hsw => exact (h.resume _ _ _ _).trans (h.switch hsw)
    next => rfl

/-- A step changes the part as the exception entry does, if there is one. -/
theorem step (h : A.KeepsPart f) (hc : s.kern.current = some c)
    (hs : RingNova.step A b s e = some s') : f s'.arch = f (A.entered s.arch c e) := by
  obtain ⟨x, hx, rfl⟩ := (step_eq_some hc).1 hs
  have hx' := h.handle hx
  cases x with
  | point t => exact hx'
  | schedule k a site => exact (h.callSchedule k a c site).trans hx'

end Arch.KeepsPart

end Frame

/-! ### The stacks of the abort and undefined modes -/

/-- A user fault of any kind. -/
def Event.isFault : Event → Bool
  | .fault _ _ _ => true
  | _ => false

/-- A fault that is taken in abort mode. -/
def Event.isAbort : Event → Bool
  | .fault .dataAbort _ _ => true
  | .fault .prefetchAbort _ _ => true
  | _ => false

/-- A fault that is taken in undefined mode. -/
def Event.isUndefined : Event → Bool
  | .fault .undefined _ _ => true
  | _ => false

section ModeStacks

variable {b : Board} {L : Layout b} {cc : CompiledC} {mem : Memory} {cpu : Cpu}
  {s s' : Sys ArmMachine} {a a' : ArmMachine} {c : Pid} {e : Event} {es : List Event}

lemma modeStacks_loadNext {k : Kernel numProcesses} {n : Pid} {cont : Cont}
    (h : a.loadNext L k n = some (a', cont)) :
    a'.cpu.spAbt = a.cpu.spAbt ∧ a'.cpu.spUnd = a.cpu.spUnd := by
  unfold ArmMachine.loadNext at h
  dsimp only at h
  split at h
  · obtain ⟨rfl, -⟩ := Prod.mk.inj (Option.some.inj h)
    exact ⟨rfl, rfl⟩
  · split at h
    · split at h
      · exact absurd h (by simp)
      · split at h
        · obtain ⟨rfl, -⟩ := Prod.mk.inj (Option.some.inj h)
          exact ⟨rfl, rfl⟩
        · exact absurd h (by simp)
    · exact absurd h (by simp)

/-- No code but the exception entries touches the stack pointers of the two modes. -/
lemma keepsPart_modeStacks (L : Layout b) (cc : CompiledC) :
    (armArch L cc).KeepsPart fun a => (a.cpu.spAbt, a.cpu.spUnd) where
  exec {a c g a'} h := by
    simp only [armArch] at h
    split at h
    · rw [← Option.some.inj h]
      rfl
    · exact absurd h (by simp)
  uload h := by
    obtain ⟨pa, -, rfl⟩ := Option.map_eq_some_iff.1 h
    rfl
  ustore h := by
    obtain ⟨pa, -, rfl⟩ := Option.map_eq_some_iff.1 h
    rfl
  setRet _ _ _ := rfl
  kstore h := by
    obtain ⟨pa, -, rfl⟩ := Option.map_eq_some_iff.1 h
    rfl
  leave a c x := by
    cases x with
    | first => rfl
    | irq => simp [armArch, ArmMachine.exitIrq]
    | svc => simp [armArch, ArmMachine.exitSvc]
  switch {k a prev next site a' cont} h := by
    obtain ⟨h1, h2⟩ := modeStacks_loadNext h
    have hcpu : (a.savePrev L cc prev site).cpu = a.cpu := by simp [ArmMachine.savePrev]
    rw [h1, h2, hcpu]

/-- An entry in abort or undefined mode pushes 15 words on the mode's stack. -/
lemma modeStacks_entered (L : Layout b) (cc : CompiledC) (a : ArmMachine) (c : Pid) (e : Event) :
    ((armArch L cc).entered a c e).cpu.spAbt =
        a.cpu.spAbt - BitVec.ofNat 32 (60 * if e.isAbort then 1 else 0) ∧
      ((armArch L cc).entered a c e).cpu.spUnd =
        a.cpu.spUnd - BitVec.ofNat 32 (60 * if e.isUndefined then 1 else 0) := by
  have hpush : ∀ sp : Word, ∀ regs : Fin 13 → Word, ∀ lr spsr : Word,
      below (below sp (gprsAnd regs lr)) [spsr] = sp - 60#32 := by
    intro sp regs lr spsr
    have hlen : (gprsAnd regs lr).length = 14 := by simp [gprsAnd]
    simp only [below, hlen, List.length_cons, List.length_nil]
    bv_omega
  cases e with
  | fault kind far fsr =>
    cases kind with
    | dataAbort => exact ⟨hpush _ _ _ _, (BitVec.sub_zero _).symm⟩
    | prefetchAbort => exact ⟨hpush _ _ _ _, (BitVec.sub_zero _).symm⟩
    | undefined => exact ⟨(BitVec.sub_zero _).symm, hpush _ _ _ _⟩
  | _ => exact ⟨(BitVec.sub_zero _).symm, (BitVec.sub_zero _).symm⟩

lemma sub_ofNat_add (x : Word) (m n : ℕ) :
    x - BitVec.ofNat 32 m - BitVec.ofNat 32 n = x - BitVec.ofNat 32 (n + m) := by
  rw [BitVec.ofNat_add]
  bv_omega

/-- **Faults and their frames**: every fault of a run has left its 15 words, and nothing has
removed them. -/
lemma run_modeStacks (h : run (step (armArch L cc) b) s es = some s') :
    s'.arch.cpu.spAbt = s.arch.cpu.spAbt - BitVec.ofNat 32 (60 * es.countP Event.isAbort) ∧
      s'.arch.cpu.spUnd =
        s.arch.cpu.spUnd - BitVec.ofNat 32 (60 * es.countP Event.isUndefined) := by
  induction es generalizing s with
  | nil =>
    obtain rfl : s = s' := by simpa using h
    exact ⟨(BitVec.sub_zero _).symm, (BitVec.sub_zero _).symm⟩
  | cons e es ih =>
    obtain ⟨t, ht, hrun⟩ := run_cons_some.1 h
    obtain ⟨c, hc⟩ : ∃ c, s.kern.current = some c := by
      rcases hc : s.kern.current with _ | c
      · simp [step, hc] at ht
      · exact ⟨c, rfl⟩
    -- the entry of the first step pushes its frame, and nothing after it pops one
    obtain ⟨hAbt, hUnd⟩ := modeStacks_entered L cc s.arch c e
    have hstep := (keepsPart_modeStacks L cc).step hc ht
    obtain ⟨h1, h2⟩ := Prod.mk.inj hstep
    obtain ⟨ih1, ih2⟩ := ih hrun
    rw [ih1, ih2, h1, h2, hAbt, hUnd, sub_ofNat_add, sub_ofNat_add, List.countP_cons,
      List.countP_cons, Nat.mul_add, Nat.mul_add]
    exact ⟨rfl, rfl⟩

end ModeStacks

/-! ### Counting faults -/

section Count

variable {b : Board} {s s' : Sys ProcMachine} {c p : Pid} {e : Event} {es : List Event}

/-- The faults that a state bears witness to: the processes killed by one, and the fault
that has stopped the system. -/
def faultsSeen (s : Sys ProcMachine) : ℕ := s.arch.faults + if s.ctl = .halted then 1 else 0

lemma faults_congr {m m' : ProcMachine} (h : m'.cont = m.cont) : m'.faults = m.faults := by
  rw [ProcMachine.faults, h, ProcMachine.faults]

/-- The current process has not been killed by a fault. -/
lemma Inv.faults_lt (h : Inv b s c) : s.arch.faults < numProcesses := by
  have hsub : (Finset.univ.filter fun p => s.arch.cont p = .faultTail) ⊂ Finset.univ := by
    refine Finset.filter_ssubset.2 ⟨c, Finset.mem_univ c, ?_⟩
    exact h.noFault
  have hlt := Finset.card_lt_card hsub
  rwa [Finset.card_univ, Fintype.card_fin] at hlt

lemma Inv.faultsSeen_le (h : Inv b s c) : faultsSeen s ≤ numProcesses := by
  have hlt := h.faults_lt
  unfold faultsSeen
  split <;> omega

lemma Quiet.not_fault (hq : Quiet s c e s') : e.isFault = false := by
  cases hq <;> rfl

lemma Quiet.cont (hq : Quiet s c e s') : s'.arch.cont = s.arch.cont := by
  cases hq <;> rfl

/-- A fault is what calls `schedule` from `user_fault_kill`. -/
lemma Call.isFault_iff {act : Act} {site : Cont} {k : Kernel numProcesses} {a : ProcMachine}
    {m : List (Obs numProcesses)} (hcall : Call b s c e act site k a m) :
    e.isFault = true ↔ site = .faultTail := by
  cases hcall <;> simp [Event.isFault]

/-- **A fault is seen from then on.** -/
lemma Inv.faultsSeen_step (h : Inv b s c) (hs : step procArch b s e = some s') :
    faultsSeen s + (if e.isFault then 1 else 0) ≤ faultsSeen s' := by
  have hctl : s.ctl ≠ .halted := by
    intro hh
    rw [step_halted hh] at hs
    exact absurd hs (by simp)
  have hseen : faultsSeen s = s.arch.faults := by rw [faultsSeen, if_neg hctl, Nat.add_zero]
  have hle : s'.arch.faults ≤ faultsSeen s' := Nat.le_add_right _ _
  rw [hseen]
  rcases step_cases h.current h.ring (h.mode c) h.readArgs hs with
    hq | ⟨act, site, k, a, m, hcall, rfl⟩
  · rw [hq.not_fault, ← faults_congr hq.cont]
    simpa using hle
  · have hfaults : a.faults = s.arch.faults := faults_congr hcall.cont
    have hr := hcall.callReady h
    -- while the caller goes on, a fault has stopped the system
    have hstay : ∀ k', s.arch.faults + (if e.isFault then 1 else 0) ≤
        faultsSeen (resume procArch k' a c site) := by
      intro k'
      rw [faultsSeen, arch_resume, ctl_resume, hfaults]
      by_cases hf : e.isFault = true
      · rw [if_pos hf, hcall.isFault_iff.1 hf]
        exact le_refl _
      · rw [if_neg hf]
        exact Nat.le_add_right _ _
    rcases callSchedule_cases hr.current a site with
      ⟨-, heq⟩ | ⟨-, n, byHint, hn, -, -, heq⟩ | ⟨-, -, heq⟩
    · rw [heq]
      exact hstay k
    · rw [heq] at hle ⊢
      rw [arch_resume, faults_park hr.noFault] at hle
      refine le_trans ?_ hle
      by_cases hf : e.isFault = true
      · rw [if_pos hf, hcall.isFault_iff.1 hf, ← hfaults]
        exact le_refl _
      · have hsite : site ≠ .faultTail := fun hsite => hf (hcall.isFault_iff.2 hsite)
        rw [if_neg hf, ← hfaults]
        cases site with
        | faultTail => exact absurd rfl hsite
        | _ => exact le_refl _
    · rw [heq]
      exact hstay _

/-- At most as many faults as processes. -/
theorem fault_count (h : ∃ c, Inv b s c) (hrun : run (step procArch b) s es = some s') :
    es.countP Event.isFault ≤ numProcesses := by
  obtain ⟨c', h'⟩ := run_invariant (I := fun s => ∃ c, Inv b s c)
    (fun _ _ _ hs hstep => hs.elim fun c hc => hc.preserved hstep) h hrun
  -- every fault adds to `faultsSeen`, which the invariant bounds
  have hle := run_countP_le (I := fun s => ∃ c, Inv b s c) (μ := faultsSeen) (P := Event.isFault)
    (fun _ _ _ hs hstep => hs.elim fun c hc => hc.preserved hstep)
    (fun _ _ _ hs hstep => hs.elim fun c hc => hc.faultsSeen_step hstep) h hrun
  have hbound := h'.faultsSeen_le
  omega

/-! ### A process that has died and been switched away from -/

/-- Dead, and not on the CPU. -/
def Retired {σ : Type} (p : Pid) (s : Sys σ) : Prop :=
  s.kern.st p = .dead ∧ ∀ c, s.kern.current = some c → c ≠ p

/-- **Retirement is for good.** -/
lemma Inv.retired_step (h : Inv b s c) (hp : Retired p s) (hs : step procArch b s e = some s') :
    Retired p s' := by
  obtain ⟨hdead, hne⟩ := hp
  have hpc : p ≠ c := fun he => hne c h.current he.symm
  rcases h.step_outcome hs with hq | ⟨act, site, k, a, m, l, hsw⟩
  · have hst : s'.kern.st p = s.kern.st p := congrFun (congrArg Core.st hq.core) p
    refine ⟨hst.trans hdead, fun c' hc' => hne c' ?_⟩
    exact (congrArg Core.current hq.core).symm.trans hc'
  · have hafter : (s.kern.core.after c act).st p = .dead := by
      cases act with
      | sleep => exact (Function.update_of_ne hpc _ _).trans hdead
      | _ =>
        refine hsw.call.dead_after ?_ hdead
        intro hb
        exact absurd (hsw.call.blocksOnInput_iff.1 hb) (by simp)
    -- `schedule` dispatches runnable processes only
    have hrun : ¬ (s.kern.core.after c act).Runnable p := by simp [Core.Runnable, hafter]
    refine ⟨(hsw.outcome.st_eq hrun).trans hafter, ?_⟩
    intro c' hc' hcp
    obtain ⟨c₁, h₁⟩ := h.preserved hs
    have ho := hsw.outcome
    have hcur : (s.kern.core.after c act).current = some c := by cases act <;> exact h.current
    have hc'' : s'.kern.core.current = some p := hc'.trans (by rw [hcp])
    generalize s'.kern.core = q' at ho hc''
    generalize s'.ctl = ctl at ho
    cases ho with
    | idle => exact hpc (Option.some.inj (hc''.symm.trans hcur))
    | alone => exact hpc (Option.some.inj (hc''.symm.trans hcur))
    | switch n byHint hreq hn hready =>
      obtain rfl : n = p := Option.some.inj hc''
      exact hrun (Or.inl hready)

end Count

/-! ### On the ARM machine -/

section Arm

variable {b : Board} {L : Layout b} {cc : CompiledC} {mem : Memory} {cpu : Cpu}
  {s s' : Sys ArmMachine} {t : Sys ProcMachine} {c p : Pid} {es : List Event}

lemma Sim.retired_iff (h : Sim L s t) : Retired p s ↔ Retired p t := by
  rw [Retired, Retired, h.rel.kern]

lemma Sim.retired_run (h : Sim L s t) (hp : Retired p s)
    (hrun : run (step (armArch L cc) b) s es = some s') : Retired p s' := by
  have hI : ∀ s e s', ((∃ t, Sim L s t) ∧ Retired p s) → step (armArch L cc) b s e = some s' →
      (∃ t, Sim L s' t) ∧ Retired p s' := by
    rintro s e s' ⟨⟨t, hsim⟩, hs⟩ hstep
    obtain ⟨t', ht', hsim'⟩ := hsim.forth hstep
    obtain ⟨c, hinv⟩ := hsim.inv
    refine ⟨⟨t', hsim'⟩, ?_⟩
    exact hsim'.retired_iff.2 (hinv.retired_step (hsim.retired_iff.1 hs) ht')
  exact (run_invariant hI ⟨⟨t, h⟩, hp⟩ hrun).2

lemma modeStacks_boot (L : Layout b) (cc : CompiledC) (mem : Memory) (cpu : Cpu) :
    (armSys L cc mem cpu).arch.cpu.spAbt = L.abtStackTop ∧
      (armSys L cc mem cpu).arch.cpu.spUnd = L.undStackTop := by
  have hrel : ArmRel L 0 .user (armSys L cc mem cpu).arch
      (procBoot (userMemory b (bootMemory L mem))) :=
    (atPoint_iff rfl).1 ((sim_boot L cc mem cpu).rel.arch 0 rfl)
  obtain ⟨i, j, hi, hj, hij⟩ := hrel.modeStacks
  have hfaults : (procBoot (userMemory b (bootMemory L mem))).faultsAt .user = 0 := by
    simp [ProcMachine.faultsAt, ProcMachine.faults, procBoot]
  obtain ⟨rfl, rfl⟩ : i = 0 ∧ j = 0 := by omega
  exact ⟨hi.trans (BitVec.sub_zero _), hj.trans (BitVec.sub_zero _)⟩

lemma countP_isAbort_le (es : List Event) : es.countP Event.isAbort ≤ es.countP Event.isFault := by
  refine List.countP_mono_left ?_
  intro e _ he
  cases e with
  | fault => rfl
  | _ => exact absurd he (by simp [Event.isAbort])

lemma countP_isUndefined_le (es : List Event) :
    es.countP Event.isUndefined ≤ es.countP Event.isFault := by
  refine List.countP_mono_left ?_
  intro e _ he
  cases e with
  | fault => rfl
  | _ => exact absurd he (by simp [Event.isUndefined])

/-- **The abort-mode stacks do not overflow.**  In every run there are at most as many user
faults as processes, because one that does not stop the system retires its process for good;
each has left 15 words on its stack, so both stack pointers stay in their 1 KB regions. -/
theorem abort_stacks_bounded
    (hrun : run (step (armArch L cc) b) (armSys L cc mem cpu) es = some s) :
    es.countP Event.isFault ≤ numProcesses ∧
      (∀ c kind far fsr s', s.kern.current = some c →
        step (armArch L cc) b s (.fault kind far fsr) = some s' →
          s'.ctl = .halted ∨ Retired c s') ∧
      (∀ p es' s', Retired p s → run (step (armArch L cc) b) s es' = some s' → Retired p s') ∧
      s.arch.cpu.spAbt = L.abtStackTop - BitVec.ofNat 32 (60 * es.countP Event.isAbort) ∧
      s.arch.cpu.spUnd = L.undStackTop - BitVec.ofNat 32 (60 * es.countP Event.isUndefined) ∧
      (L.abtStack.base ≤ b.pa s.arch.cpu.spAbt ∧
        b.pa s.arch.cpu.spAbt ≤ L.abtStack.base + L.abtStack.size) ∧
      (L.undStack.base ≤ b.pa s.arch.cpu.spUnd ∧
        b.pa s.arch.cpu.spUnd ≤ L.undStack.base + L.undStack.size) := by
  obtain ⟨t, ht, hsim⟩ := run_rel_some (fun _ _ e h => h.simulates cc e)
    (sim_boot L cc mem cpu) hrun
  have hcount := fault_count ⟨0, inv_procSys L _⟩ ht
  have hAbt := (run_modeStacks hrun).1
  have hUnd := (run_modeStacks hrun).2
  rw [(modeStacks_boot L cc mem cpu).1] at hAbt
  rw [(modeStacks_boot L cc mem cpu).2] at hUnd
  have h1 := countP_isAbort_le es
  have h2 := countP_isUndefined_le es
  have hN : numProcesses = 3 := rfl
  refine ⟨hcount, fun c kind far fsr s' hc hs => ?_, fun p es' s' hp hrun' => ?_, hAbt, hUnd, ?_,
    ?_⟩
  · obtain ⟨t', ht', hsim'⟩ := hsim.forth hs
    obtain ⟨hdead, -, hhalt, hgo⟩ := fault_outcome L _ ⟨es, ht⟩ (by rw [← hsim.rel.kern, hc]) ht'
    rw [hsim'.rel.ctl, hsim'.retired_iff]
    by_cases hother : OtherRunnable t.kern
    · obtain ⟨-, n, hn, -, hcur, -⟩ := hgo hother
      refine Or.inr ⟨hdead, ?_⟩
      intro c' hc'
      rw [Option.some.inj (hc'.symm.trans hcur)]
      exact hn
    · exact Or.inl (hhalt hother).1
  · exact hsim.retired_run hp hrun'
  · rw [hAbt, pa_modeStack (L.objects_in_ram _ (by simp)) (by omega)]
    simp only [Layout.abtStack, modeStackSize]
    omega
  · rw [hUnd, pa_modeStack (L.objects_in_ram _ (by simp)) (by omega)]
    simp only [Layout.undStack, modeStackSize]
    omega

end Arm

/-- The first process faults at once, and one frame is on the abort-mode stack. -/
theorem abort_stacks_bounded_first :
    ∃ s, run (step (armArch qemuLayout .zeroed) .qemu) qemuBoot [.fault .dataAbort 0#32 5#32] =
        some s ∧
      s.arch.cpu.spAbt = qemuLayout.abtStackTop - 60#32 ∧
      qemuLayout.abtStack.base ≤ Board.pa .qemu s.arch.cpu.spAbt := by
  have hrun :
      (run (step procArch .qemu) qemuProcs [.fault .dataAbort 0#32 5#32]).isSome = true := by
    decide +kernel
  obtain ⟨t, ht⟩ := Option.isSome_iff_exists.1 hrun
  obtain ⟨s, hs, -⟩ := exists_qemu_run ht
  obtain ⟨-, -, -, hsp, -, hin, -⟩ := abort_stacks_bounded hs
  exact ⟨s, hs, hsp, hin.1⟩

/-! ### The SVC stack when a handler is called -/

section Align

variable {b : Board} {L : Layout b} {cc : CompiledC} {mem : Memory} {cpu : Cpu}
  {s : Sys ArmMachine} {c : Pid}

lemma kstackTop_aligned (L : Layout b) (p : Pid) : (L.kstackTop p).toNat % 8 = 0 := by
  have h := L.procKstack_aligned
  have hs : kstackSize.toNat = 8192 := rfl
  rw [Layout.kstackTop, Layout.kstack, BitVec.toNat_add, BitVec.toNat_add, BitVec.toNat_ofNat, hs]
  omega

/-- The stack pointer at the call of the handler of an exception. -/
lemma Sim.spSvc_entered {t : Sys ProcMachine} (h : Sim L s t) (cc : CompiledC)
    (hu : s.ctl = .user) (hc : s.kern.current = some c) (x : Exn) :
    ((armArch L cc).enter s.arch c x).cpu.spSvc =
      L.kstackTop c - BitVec.ofNat 32 x.phase.frameSize := by
  rw [h.rel.ctl] at hu
  rw [h.rel.kern] at hc
  have hrel : ArmRel L c .user s.arch t.arch := (atPoint_iff (by rw [hu]; rfl)).1 (h.rel.arch c hc)
  exact (hrel.enter x).spSvc

lemma sub_frameSize_aligned {w : Word} (hw : w.toNat % 8 = 0) (x : Exn) :
    (w - BitVec.ofNat 32 x.phase.frameSize).toNat % 8 = 0 ↔ x ≠ .svc := by
  have hlt := w.isLt
  cases x <;> simp only [Exn.phase, Phase.frameSize, BitVec.toNat_sub, BitVec.toNat_ofNat, ne_eq,
    reduceCtorEq, not_false_eq_true, not_true_eq_false, iff_true, iff_false] <;> omega

/-- **The stack pointer at the call of a C handler is a multiple of 8 exactly if the
exception is not an `svc`.** -/
theorem handler_stack_aligned_iff
    (hr : Reachable (step (armArch L cc) b) (armSys L cc mem cpu) s) (hu : s.ctl = .user)
    (hc : s.kern.current = some c) (x : Exn) :
    ((armArch L cc).enter s.arch c x).cpu.spSvc.toNat % 8 = 0 ↔ x ≠ .svc := by
  obtain ⟨t, -, hsim⟩ := sim_of_reachable hr
  rw [hsim.spSvc_entered cc hu hc x]
  exact sub_frameSize_aligned (kstackTop_aligned L c) x

end Align

/-- An interrupt at the first user instruction. -/
theorem handler_stack_aligned_irq :
    ((armArch qemuLayout .zeroed).enter qemuBoot.arch 0 .irq).cpu.spSvc.toNat % 8 = 0 := by
  have hsim : Sim qemuLayout qemuBoot qemuProcs := sim_boot _ _ _ _
  have hctl : qemuBoot.ctl = .user := hsim.rel.ctl
  have hcur : qemuBoot.kern.current = some (0 : Pid) := congrArg Kernel.current hsim.rel.kern
  have hr : Reachable (step (armArch qemuLayout .zeroed) .qemu)
      (armSys qemuLayout .zeroed (fun _ => 0#8) .zero) qemuBoot := Reachable.refl qemuBoot
  have halign := handler_stack_aligned_iff hr hctl hcur .irq
  exact halign.2 (by simp)

/-- A syscall at the first user instruction: `handle_svc` is called with a stack pointer that
is 4 modulo 8. -/
theorem handle_svc_misaligned :
    ¬ ∀ x, ((armArch qemuLayout .zeroed).enter qemuBoot.arch 0 x).cpu.spSvc.toNat % 8 = 0 := by
  have hsim : Sim qemuLayout qemuBoot qemuProcs := sim_boot _ _ _ _
  have hctl : qemuBoot.ctl = .user := hsim.rel.ctl
  have hcur : qemuBoot.kern.current = some (0 : Pid) := congrArg Kernel.current hsim.rel.kern
  intro h
  have hsvc := h .svc
  rw [hsim.spSvc_entered .zeroed hctl hcur .svc] at hsvc
  exact absurd hsvc (by decide)

end RingNova
