/-
# What a process finds when it runs again

Between the moment a process enters the kernel and the moment it is back in USR mode, other
processes may run for any number of steps.  After an interrupt the process finds its
registers as they were; after an `svc` it finds the one result that `syscall_dispatch` has
computed for it in `r0`, and continues after the instruction.
-/
import RingNova.System.Outcome

namespace RingNova

/-- A process is in USR mode. -/
def InUser {σ : Type} (p : Pid) (s : Sys σ) : Prop := s.ctl = .user ∧ s.kern.current = some p

/-- The result that an entry of the history gives to a process. -/
def Obs.resultOf (p : Pid) : Obs numProcesses → List Word
  | .sysret q v => if q = p then [v] else []
  | _ => []

/-- The results that `syscall_dispatch` has stored for a process, in order. -/
def Kernel.results (k : Kernel numProcesses) (p : Pid) : List Word := k.log.flatMap (Obs.resultOf p)

lemma results_eq (k : Kernel numProcesses) (p : Pid) :
    k.results p = k.marks.flatMap (Obs.resultOf p) :=
  (flatMap_marks (fun _ => rfl) (fun _ => rfl) k).symm

section Step

variable {b : Board} {s s' : Sys ProcMachine} {c p : Pid} {e : Event} {act : Act} {site : Cont}
  {k : Kernel numProcesses} {a : ProcMachine} {m l : List (Obs numProcesses)}

/-! ### Steps of other processes -/

lemma Quiet.other (hq : Quiet s c e s') (hp : p ≠ c) :
    s'.arch.regs p = s.arch.regs p ∧ s'.arch.cont p = s.arch.cont p ∧
      s'.arch.umem p = s.arch.umem p := by
  cases hq <;> simp [ProcMachine.setRegs, ProcMachine.setByte, ProcMachine.enter, hp]

lemma Call.other (hcall : Call b s c e act site k a m) (hp : p ≠ c) :
    a.regs p = s.arch.regs p ∧ a.umem p = s.arch.umem p := by
  cases hcall with
  | irq => exact ⟨rfl, rfl⟩
  | fault => exact ⟨rfl, rfl⟩
  | block => exact ⟨rfl, rfl⟩
  | readReturn => simp [procArch, ProcMachine.setRegs, hp]
  | svc v hu hact hdone =>
    refine ⟨?_, hdone.umem p hp⟩
    simp [procArch, ProcMachine.setRegs, hp, hdone.regs, ProcMachine.enter]

lemma Call.results_other (hcall : Call b s c e act site k a m) (hp : p ≠ c) :
    m.flatMap (Obs.resultOf p) = [] := by
  cases hcall with
  | irq ack rx => exact flatMap_irqMarks (fun _ => rfl) (fun _ => rfl) b s.kern ack rx
  | fault => rfl
  | block => rfl
  | readReturn => simp [Obs.resultOf, hp.symm]
  | svc => simp [Obs.resultOf, hp.symm]

lemma Switching.results (h : Switching b s c e s' act site k a m l) (p : Pid) :
    s'.kern.results p = s.kern.results p ++ m.flatMap (Obs.resultOf p) := by
  rw [results_eq, results_eq, h.marks, List.flatMap_append, List.flatMap_append,
    h.outcome.flatMap (fun _ _ => rfl), List.append_nil]

/-- Who runs after a call of `schedule`, and where the others wait. -/
lemma Switching.resumes (h : Switching b s c e s' act site k a m l) (p : Pid) :
    (s'.kern.current = some p ∧ s'.ctl = ((a.park c site).cont p).ctl) ∨
      ∃ c', s'.kern.current = some c' ∧ c' ≠ p ∧ s'.arch.cont p = (a.park c site).cont p := by
  obtain ⟨c', hc', hctl, hcont⟩ := h.parks.cont
  by_cases hp : c' = p
  · subst hp
    exact Or.inl ⟨hc', hctl⟩
  · exact Or.inr ⟨c', hc', hp, hcont p fun h => hp h.symm⟩

/-- **A step of another process** leaves a process alone, or hands it the CPU where it
waits. -/
lemma Inv.step_other (h : Inv b s c) (hp : p ≠ c) (hs : step procArch b s e = some s') :
    s'.arch.regs p = s.arch.regs p ∧ s'.kern.results p = s.kern.results p ∧
      ((s'.kern.current = some p ∧ s'.ctl = (s.arch.cont p).ctl) ∨
        ∃ c', s'.kern.current = some c' ∧ c' ≠ p ∧ s'.arch.cont p = s.arch.cont p) := by
  rcases h.step_outcome hs with hq | ⟨act, site, k, a, m, l, hsw⟩
  · obtain ⟨hregs, hcont, -⟩ := hq.other hp
    refine ⟨hregs, by rw [results_eq, results_eq, hq.marks], Or.inr ⟨c, ?_, hp.symm, hcont⟩⟩
    exact (congrArg Core.current hq.core).trans h.current
  · have hpark : (a.park c site).cont p = s.arch.cont p := by
      simp [ProcMachine.park, hp, hsw.call.cont]
    refine ⟨?_, ?_, hpark ▸ hsw.resumes p⟩
    · rw [hsw.parks.regs]
      exact (hsw.call.other hp).1
    · rw [hsw.results, hsw.call.results_other hp, List.append_nil]

/-- Only the memory of the current process changes. -/
lemma Inv.step_umem (h : Inv b s c) (hp : p ≠ c) (hs : step procArch b s e = some s') :
    s'.arch.umem p = s.arch.umem p := by
  rcases h.step_outcome hs with hq | ⟨act, site, k, a, m, l, hsw⟩
  · exact (hq.other hp).2.2
  · rw [hsw.parks.umem]
    exact (hsw.call.other hp).2

/-! ### After an interrupt -/

/-- Interrupted and waiting, with its registers. -/
def Interrupted (b : Board) (p : Pid) (u : UserRegs) (s : Sys ProcMachine) : Prop :=
  s.arch.regs p = u ∧ s.arch.cont p = .irqTail ∧ ∃ c, Inv b s c ∧ c ≠ p

/-- Back in USR mode, with its registers. -/
def Resumed (p : Pid) (u : UserRegs) (s : Sys ProcMachine) : Prop := InUser p s ∧ s.arch.regs p = u

lemma Interrupted.step {u : UserRegs} (h : Interrupted b p u s)
    (hs : step procArch b s e = some s') : Interrupted b p u s' ∨ Resumed p u s' := by
  obtain ⟨hregs, hcont, c, hinv, hc⟩ := h
  obtain ⟨hregs', -, hres⟩ := hinv.step_other hc.symm hs
  obtain ⟨c₁, hinv'⟩ := hinv.preserved hs
  rcases hres with ⟨hcur, hctl⟩ | ⟨c', hcur, hc', hcont'⟩
  · rw [hcont] at hctl
    exact Or.inr ⟨⟨hctl, hcur⟩, hregs'.trans hregs⟩
  · obtain rfl : c₁ = c' := Option.some.inj (hinv'.current.symm.trans hcur)
    exact Or.inl ⟨hregs'.trans hregs, hcont'.trans hcont, c₁, hinv', hc'⟩

/-- The interrupt itself. -/
lemma Inv.interrupted (h : Inv b s p) {ack : Word} {rx : List Byte}
    (hs : step procArch b s (.irq ack rx) = some s') :
    Interrupted b p (s.arch.regs p) s' ∨ Resumed p (s.arch.regs p) s' := by
  rcases h.step_outcome hs with hq | ⟨act, site, k, a, m, l, hsw⟩
  · cases hq
  · have hcall := hsw.call
    have hregs : s'.arch.regs p = s.arch.regs p := by
      rw [hsw.parks.regs]
      cases hcall
      rfl
    have hsite : (a.park p site).cont p = .irqTail := by
      cases hcall
      simp [ProcMachine.park]
    obtain ⟨c₁, hinv'⟩ := h.preserved hs
    have hres := hsw.resumes p
    rw [hsite] at hres
    rcases hres with ⟨hcur, hctl⟩ | ⟨c', hcur, hc', hcont⟩
    · exact Or.inr ⟨⟨hctl, hcur⟩, hregs⟩
    · obtain rfl : c₁ = c' := Option.some.inj (hinv'.current.symm.trans hcur)
      exact Or.inl ⟨hregs, hcont, c₁, hinv', hc'⟩

/-- **Transparent preemption**, on the process-level machine. -/
theorem Inv.irq_transparent (h : Inv b s p) {ack : Word} {rx : List Byte} {es : List Event}
    {t : Sys ProcMachine} (hs : step procArch b s (.irq ack rx) = some s')
    (ht : Trace.FirstReach (step procArch b) (InUser p) s' es t) :
    t.arch.regs p = s.arch.regs p := by
  refine (ht.ends (I := Interrupted b p (s.arch.regs p)) (F := Resumed p (s.arch.regs p)) ?_ ?_ ?_
    (h.interrupted hs)).2
  · rintro s ⟨-, -, c, hinv, hc⟩ ⟨-, hcur⟩
    exact hc (Option.some.inj (hinv.current.symm.trans hcur))
  · exact fun s hF => hF.1
  · exact fun s e s' hI hs => hI.step hs

/-! ### After a syscall -/

/-- The registers with a result in `r0`. -/
def UserRegs.ret (u : UserRegs) (v : Word) : UserRegs := { u with r := Function.update u.r 0 v }

/-- Inside `sys_read`. -/
def Ctl.Reading : Ctl → Prop
  | .readLoop _ _ _ _ => True
  | .blockRet _ _ _ _ => True
  | _ => False

/-- The syscall of a process is under way: no result yet, and the process is in `sys_read`,
or asleep there; or the result is there, and the process waits at the tail of `handle_svc`. -/
inductive Serving (p : Pid) (u : UserRegs) (rs : List Word) (s : Sys ProcMachine) : Pid → Prop
  | reading (hctl : s.ctl.Reading) (hregs : s.arch.regs p = u) (hres : s.kern.results p = rs) :
    Serving p u rs s p
  | asleep {c : Pid} {buf len n : Word} {got : List Byte} (hc : c ≠ p)
    (hcont : s.arch.cont p = .blockOnInput buf len n got) (hregs : s.arch.regs p = u)
    (hres : s.kern.results p = rs) : Serving p u rs s c
  | served {c : Pid} (hc : c ≠ p) (v : Word) (hcont : s.arch.cont p = .svcTail)
    (hregs : s.arch.regs p = u.ret v) (hres : s.kern.results p = rs ++ [v]) : Serving p u rs s c

/-- Back in USR mode, with the result. -/
def Returned (p : Pid) (u : UserRegs) (rs : List Word) (s : Sys ProcMachine) : Prop :=
  InUser p s ∧ ∃ v, s.arch.regs p = u.ret v ∧ s.kern.results p = rs ++ [v]

/-- The syscall is under way, in a state with the invariant. -/
def UnderWay (b : Board) (p : Pid) (u : UserRegs) (rs : List Word) (s : Sys ProcMachine) : Prop :=
  ∃ c, Inv b s c ∧ Serving p u rs s c

variable {u : UserRegs} {rs : List Word}

lemma UnderWay.of_current (h : ∃ c, Inv b s c) (hcur : s.kern.current = some c)
    (hserv : Serving p u rs s c) : UnderWay b p u rs s := by
  obtain ⟨c', hinv⟩ := h
  obtain rfl : c' = c := Option.some.inj (hinv.current.symm.trans hcur)
  exact ⟨c', hinv, hserv⟩

/-- The result is stored, and `schedule` is called at the tail of `handle_svc`. -/
lemma Switching.served (h : Switching b s p e s' act .svcTail k a m l) (hinv : ∃ c, Inv b s' c)
    {v : Word} (hregs : a.regs p = u.ret v) (hm : m.flatMap (Obs.resultOf p) = [v])
    (hres : s.kern.results p = rs) : UnderWay b p u rs s' ∨ Returned p u rs s' := by
  have hregs' : s'.arch.regs p = u.ret v := by rw [h.parks.regs, hregs]
  have hres' : s'.kern.results p = rs ++ [v] := by rw [h.results, hm, hres]
  have hsite : (a.park p .svcTail).cont p = .svcTail := by simp [ProcMachine.park]
  have hwho := h.resumes p
  rw [hsite] at hwho
  rcases hwho with ⟨hcur, hctl⟩ | ⟨c', hcur, hc', hcont⟩
  · exact Or.inr ⟨⟨hctl, hcur⟩, v, hregs', hres'⟩
  · exact Or.inl (.of_current hinv hcur (.served hc' v hcont hregs' hres'))

/-- A step of the process itself, inside `sys_read`. -/
lemma Inv.serving_self (h : Inv b s p) (hctl : s.ctl.Reading) (hregs : s.arch.regs p = u)
    (hres : s.kern.results p = rs) (hs : step procArch b s e = some s') :
    UnderWay b p u rs s' ∨ Returned p u rs s' := by
  have hinv' := h.preserved hs
  rcases h.step_outcome hs with hq | ⟨act, site, k, a, m, l, hsw⟩
  · have hcur := (congrArg Core.current hq.core).trans h.current
    have hres' : s'.kern.results p = rs := by rw [results_eq, hq.marks, ← results_eq, hres]
    refine Or.inl (.of_current hinv' hcur (.reading ?_ ?_ hres'))
    · cases hq with
      | exec f hu => exact absurd hctl (by simp [hu, Ctl.Reading])
      | load va rd hu => exact absurd hctl (by simp [hu, Ctl.Reading])
      | store va ch hu => exact absurd hctl (by simp [hu, Ctl.Reading])
      | startRead => trivial
      | pop => trivial
      | retry => trivial
    · cases hq with
      | exec f hu => exact absurd hctl (by simp [hu, Ctl.Reading])
      | load va rd hu => exact absurd hctl (by simp [hu, Ctl.Reading])
      | store va ch hu => exact absurd hctl (by simp [hu, Ctl.Reading])
      | startRead hu => exact absurd hctl (by simp [hu, Ctl.Reading])
      | pop => exact hregs
      | retry => exact hregs
  · have hcall := hsw.call
    cases hcall with
    | irq ack rx hu => exact absurd hctl (by simp [hu, Ctl.Reading])
    | svc v hu => exact absurd hctl (by simp [hu, Ctl.Reading])
    | fault kind far fsr hu => exact absurd hctl (by simp [hu, Ctl.Reading])
    | @readReturn buf len n got =>
      refine hsw.served hinv' (v := n) ?_ (by simp [Obs.resultOf]) hres
      simp [procArch, ProcMachine.setRegs, UserRegs.ret, hregs]
    | @block buf len n got hctl' =>
      have hregs' : s'.arch.regs p = u := by rw [hsw.parks.regs, hregs]
      have hres' : s'.kern.results p = rs := by
        rw [hsw.results, hres]
        exact List.append_nil _
      have hsite : (s.arch.park p (.blockOnInput buf len n got)).cont p =
          .blockOnInput buf len n got := by simp [ProcMachine.park]
      have hwho := hsw.resumes p
      rw [hsite] at hwho
      rcases hwho with ⟨hcur, hctl₁⟩ | ⟨c', hcur, hc', hcont⟩
      · exact Or.inl (.of_current hinv' hcur (.reading (by rw [hctl₁]; trivial) hregs' hres'))
      · exact Or.inl (.of_current hinv' hcur (.asleep hc' hcont hregs' hres'))

/-- **A step while a syscall is under way.** -/
lemma UnderWay.step (h : UnderWay b p u rs s) (hs : step procArch b s e = some s') :
    UnderWay b p u rs s' ∨ Returned p u rs s' := by
  obtain ⟨c, hinv, hserv⟩ := h
  have hinv' := hinv.preserved hs
  cases hserv with
  | reading hctl hregs hres => exact hinv.serving_self hctl hregs hres hs
  | asleep hc hcont hregs hres =>
    obtain ⟨hregs', hres', hwho⟩ := hinv.step_other hc.symm hs
    rw [hcont] at hwho
    rcases hwho with ⟨hcur, hctl⟩ | ⟨c', hcur, hc', hcont'⟩
    · exact Or.inl (.of_current hinv' hcur
        (.reading (by rw [hctl]; trivial) (hregs'.trans hregs) (hres'.trans hres)))
    · exact Or.inl (.of_current hinv' hcur
        (.asleep hc' hcont' (hregs'.trans hregs) (hres'.trans hres)))
  | served hc v hcont hregs hres =>
    obtain ⟨hregs', hres', hwho⟩ := hinv.step_other hc.symm hs
    rw [hcont] at hwho
    rcases hwho with ⟨hcur, hctl⟩ | ⟨c', hcur, hc', hcont'⟩
    · exact Or.inr ⟨⟨hctl, hcur⟩, v, hregs'.trans hregs, hres'.trans hres⟩
    · exact Or.inl (.of_current hinv' hcur
        (.served hc' v hcont' (hregs'.trans hregs) (hres'.trans hres)))

/-- The registers when an `svc` enters the kernel. -/
def UserRegs.afterSvc (u : UserRegs) : UserRegs := { u with pc := u.pc + svcSize u.cpsr }

lemma regs_enter_svc (a : ProcMachine) (p : Pid) :
    (a.enter p .svc).regs p = (a.regs p).afterSvc := by
  simp [ProcMachine.enter, ProcMachine.setRegs, UserRegs.afterSvc]

/-- The `svc` itself. -/
lemma Inv.underWay (h : Inv b s p) (hs : step procArch b s .svc = some s') :
    UnderWay b p (s.arch.regs p).afterSvc (s.kern.results p) s' ∨
      Returned p (s.arch.regs p).afterSvc (s.kern.results p) s' := by
  have hinv' := h.preserved hs
  rcases h.step_outcome hs with hq | ⟨act, site, k, a, m, l, hsw⟩
  · have hcur := (congrArg Core.current hq.core).trans h.current
    have hres : s'.kern.results p = s.kern.results p := by
      rw [results_eq, hq.marks, ← results_eq]
    cases hq with
    | startRead =>
      exact Or.inl (.of_current hinv' hcur (.reading trivial (regs_enter_svc _ _) hres))
  · have hcall := hsw.call
    cases hcall with
    | svc v hu hact hdone =>
      refine hsw.served hinv' (v := v) ?_ (by simp [Obs.resultOf]) rfl
      simp [procArch, ProcMachine.setRegs, UserRegs.ret, hdone.regs, regs_enter_svc]

/-- **Syscalls return to their caller**, on the process-level machine. -/
theorem Inv.svc_returns (h : Inv b s p) {es : List Event} {t : Sys ProcMachine}
    (hs : step procArch b s .svc = some s')
    (ht : Trace.FirstReach (step procArch b) (InUser p) s' es t) :
    ∃ v, t.arch.regs p = (s.arch.regs p).afterSvc.ret v ∧
      t.kern.results p = s.kern.results p ++ [v] := by
  refine (ht.ends (I := UnderWay b p (s.arch.regs p).afterSvc (s.kern.results p))
    (F := Returned p (s.arch.regs p).afterSvc (s.kern.results p)) ?_ ?_ ?_ (h.underWay hs)).2
  · rintro s ⟨c, hinv, hserv⟩ ⟨hu, hcur⟩
    obtain rfl : c = p := Option.some.inj (hinv.current.symm.trans hcur)
    cases hserv with
    | reading hctl =>
      rw [hu] at hctl
      exact hctl
    | asleep hc => exact hc rfl
    | served hc => exact hc rfl
  · exact fun s hF => hF.1
  · exact fun s e s' hI hs => hI.step hs

end Step

end RingNova
