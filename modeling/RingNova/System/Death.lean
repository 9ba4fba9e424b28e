/-
# Death of a process

A process dies by `sys_exit`, by `sys_kill` or by a fault.  The scheduler never dispatches
a dead process, but when nobody else can run `schedule` returns to its caller, and the
callers deal with that differently: `user_fault_kill` halts the system, while `handle_svc`
returns to the dead process.  From there a dead process can call `sys_read`, and
`scheduler_block_on_input` makes it `TASK_BLOCKED`.

The results say exactly when a dead process keeps the CPU (`userAlive_run_iff`), when a
death is undone (`dead_run_iff`), and when a fault halts the system (`fault_outcome`).
-/
import RingNova.System.Outcome

namespace RingNova

section

variable {σ : Type}

/-- The next step is a `sys_exit`, or a `sys_kill` of the caller itself. -/
def ExitsSelf (A : Arch σ) (s : Sys σ) (e : Event) : Prop :=
  ∃ c, s.kern.current = some c ∧ s.ctl = .user ∧ e = .svc ∧
    (Syscall.ofNum ((A.ctx (A.enter s.arch c .svc) c .svc).r 7) = some .exit ∨
      Syscall.ofNum ((A.ctx (A.enter s.arch c .svc) c .svc).r 7) = some .kill ∧
        ((A.ctx (A.enter s.arch c .svc) c .svc).r 0).toNat = c)

/-- If the CPU is in USR mode, then not for a dead process. -/
def UserAlive (s : Sys σ) : Prop :=
  s.ctl = .user → ∀ c, s.kern.current = some c → s.kern.st c ≠ .dead

end

section Step

variable {b : Board} {s s' : Sys ProcMachine} {c : Pid} {e : Event} {act : Act} {site : Cont}
  {k : Kernel numProcesses} {a : ProcMachine} {m : List (Obs numProcesses)}

/-! ### A death that is undone -/

/-- Before `schedule` is called, only falling asleep can take a process out of
`TASK_DEAD`. -/
lemma Call.dead_after (hcall : Call b s c e act site k a m)
    (hc : BlocksOnInput s → s.kern.st c ≠ .dead) {p : Pid} (hp : s.kern.st p = .dead) :
    (s.kern.core.after c act).st p = .dead := by
  cases act with
  | nothing => exact hp
  | request => exact hp
  | wake q =>
    obtain ⟨-, -, -, hq⟩ := hcall.of_wake
    have hpq : p ≠ q := by
      rintro rfl
      rw [hp] at hq
      exact absurd hq (by simp)
    exact (Function.update_of_ne hpq _ _).trans hp
  | die q =>
    by_cases hpq : p = q
    · subst hpq
      exact Function.update_self _ _ _
    · exact (Function.update_of_ne hpq _ _).trans hp
  | sleep =>
    have hpc : p ≠ c := by
      rintro rfl
      exact hc (hcall.blocksOnInput_iff.2 rfl) hp
    exact (Function.update_of_ne hpc _ _).trans hp

/-- A step undoes a death exactly when a dead process calls `scheduler_block_on_input`. -/
lemma Inv.dead_step_iff (h : Inv b s c) (hs : step procArch b s e = some s') :
    (∀ p, s.kern.st p = .dead → s'.kern.st p = .dead) ↔
      (BlocksOnInput s → s.kern.st c ≠ .dead) := by
  rcases h.step_outcome hs with hq | ⟨act, site, k, a, m, l, hcall, ho, -, -, -⟩
  · have hst : ∀ p, s'.kern.st p = s.kern.st p := fun p =>
      congrFun (congrArg Core.st hq.core) p
    constructor
    · intro _ hb
      exact absurd hb hq.not_blocksOnInput
    · intro _ p hp
      rw [hst]
      exact hp
  · constructor
    · intro hd hb hdead
      -- the caller is now asleep, and `schedule` leaves it so
      obtain rfl := hcall.blocksOnInput_iff.1 hb
      have hafter : (s.kern.core.after c .sleep).st c = .blocked := Function.update_self _ _ _
      have hst : s'.kern.core.st c = .blocked :=
        (ho.st_eq (by simp [Core.Runnable, hafter])).trans hafter
      exact absurd ((hd c hdead).symm.trans hst) (by simp)
    · intro hc p hp
      have hafter := hcall.dead_after hc hp
      exact (ho.st_eq (by simp [Core.Runnable, hafter])).trans hafter

/-! ### A dead process that keeps the CPU -/

/-- A live process ends its own life exactly by the change `die` at the tail of
`handle_svc`. -/
lemma Call.exitsSelf_iff (hcall : Call b s c e act site k a m) (h : Inv b s c)
    (hc : s.kern.st c ≠ .dead) :
    ExitsSelf procArch s e ↔ act = .die c ∧ site = .svcTail := by
  have hregs := svcFrame_r s.arch
  constructor
  · rintro ⟨c', hc', hu, rfl, hnum⟩
    obtain rfl : c = c' := Option.some.inj (h.current.symm.trans hc')
    rw [hregs] at hnum
    cases hcall with
    | svc v hu' hact hdone =>
      refine ⟨?_, rfl⟩
      rcases hnum with hnum | ⟨hnum, h0⟩
      · simpa [svcAct, hnum, eq_comm] using hact
      · have hlt : ((s.arch.regs c).r 0).toNat < numProcesses := h0 ▸ c.isLt
        have hfin : (⟨((s.arch.regs c).r 0).toNat, hlt⟩ : Pid) = c := Fin.ext h0
        simpa [svcAct, hnum, hlt, hfin, hc, eq_comm] using hact
  · rintro ⟨rfl, rfl⟩
    generalize hdie : Act.die c = act at hcall
    generalize hsite : Cont.svcTail = site at hcall
    cases hcall with
    | svc v hu hact hdone =>
      subst hdie
      refine ⟨c, h.current, hu, rfl, ?_⟩
      rw [hregs]
      unfold svcAct at hact
      split at hact
      · exact absurd hact (by simp)
      · exact Or.inl ‹_›
      · right
        split at hact
        · split at hact
          · exact absurd hact (by simp)
          · have hp := Act.die.inj (Option.some.inj hact)
            exact ⟨‹_›, congrArg Fin.val hp⟩
        · exact absurd hact (by simp)
      · split at hact <;> exact absurd hact (by simp)
      · exact absurd hact (by simp)
    | irq => exact absurd hsite (by simp)
    | fault => exact absurd hsite (by simp)
    | block => exact absurd hsite (by simp)
    | readReturn => exact absurd hdie (by simp)

lemma Quiet.not_exitsSelf (hq : Quiet s c e s') (hc : s.kern.current = some c) :
    ¬ ExitsSelf procArch s e := by
  rintro ⟨c', hc', hu, rfl, hnum⟩
  obtain rfl : c = c' := Option.some.inj (hc.symm.trans hc')
  cases hq with
  | startRead hu' hnum' =>
    rw [svcFrame_r, hnum'] at hnum
    simp at hnum

lemma Core.after_dead_iff {q : Core} (hc : q.st c ≠ .dead) :
    (q.after c act).st c = .dead ↔ act = .die c := by
  cases act with
  | nothing => simpa [Core.after] using hc
  | request => simpa [Core.after] using hc
  | wake p =>
    by_cases hp : c = p
    · simp [Core.after, hp]
    · simpa [Core.after, hp] using hc
  | die p =>
    by_cases hp : c = p
    · simp [Core.after, hp]
    · simpa [Core.after, hp, eq_comm] using hc
  | sleep => simp [Core.after]

/-- A process that dies leaves at the tail of `handle_svc` or in `user_fault_kill`. -/
lemma Call.site_of_die {p : Pid} (hcall : Call b s c e (.die p) site k a m) :
    site = .svcTail ∨ site = .faultTail := by
  generalize hact : Act.die p = act at hcall
  cases hcall with
  | irq ack rx hu =>
    rcases irqAct_cases b s.kern ack with h | h | ⟨q, h, -⟩ <;> rw [h] at hact <;> cases hact
  | svc => exact Or.inl rfl
  | fault => exact Or.inr rfl
  | block => exact absurd hact (by simp)
  | readReturn => exact absurd hact (by simp)

/-- The current process after a step is alive, or the system has halted. -/
def CurrentAlive (s : Sys ProcMachine) : Prop :=
  s.ctl = .halted ∨ ∀ c, s.kern.current = some c → s.kern.st c ≠ .dead

lemma CurrentAlive.userAlive (h : CurrentAlive s) : UserAlive s := by
  intro hu
  rcases h with h | h
  · exact absurd (hu.symm.trans h) (by simp)
  · exact h

lemma currentAlive_of_core {q : Core} (hcore : s'.kern.core = q) (hcur : q.current = some c)
    (hst : q.st c ≠ .dead) : CurrentAlive s' := by
  right
  intro c' hc'
  have hc : s'.kern.current = some c := (congrArg Core.current hcore).trans hcur
  obtain rfl : c = c' := Option.some.inj (hc.symm.trans hc')
  exact fun hd => hst ((congrFun (congrArg Core.st hcore) c).symm.trans hd)

lemma otherRunnable_of_die (h : Inv b s c) :
    OtherRunnable s.kern ↔ ∃ n, n ≠ c ∧ (s.kern.core.after c (.die c)).Runnable n := by
  rw [otherRunnable_iff h.current]
  refine exists_congr fun n => and_congr_right fun hn => ?_
  have hst : (s.kern.core.after c (.die c)).st n = s.kern.st n := Function.update_of_ne hn _ _
  rw [Kernel.Runnable, Core.Runnable, hst]

/-- The caller of `schedule` goes on after its own death. -/
lemma userAlive_iff_of_stay {q' : Core} (hcall : Call b s c e act site k a m) (h : Inv b s c)
    (hc : s.kern.st c ≠ .dead) (hcore : s'.kern.core = q') (hctl : s'.ctl = site.ctl)
    (hcur : q'.current = some c) (hst : q'.st c = (s.kern.core.after c act).st c) :
    (UserAlive s' ↔ ¬ ExitsSelf procArch s e) ∧ (UserAlive s' → CurrentAlive s') := by
  rw [hcall.exitsSelf_iff h hc]
  by_cases hact : act = .die c
  · subst hact
    have hdead : s'.kern.st c = .dead :=
      (congrFun (congrArg Core.st hcore) c).trans (hst.trans (Function.update_self _ _ _))
    have hc' : s'.kern.current = some c := (congrArg Core.current hcore).trans hcur
    rcases hcall.site_of_die with rfl | rfl
    · have hnot : ¬ UserAlive s' := fun hu => hu hctl c hc' hdead
      simp [hnot]
    · have hhalt : CurrentAlive s' := Or.inl hctl
      simp [hhalt, hhalt.userAlive]
  · have halive : CurrentAlive s' := by
      refine currentAlive_of_core hcore hcur ?_
      rw [hst, Ne, Core.after_dead_iff hc]
      exact hact
    simp [hact, halive, halive.userAlive]

/-- From a live process, the CPU comes back to USR mode for a dead one exactly when the
process ends its own life while nobody else can run. -/
lemma Inv.alive_step_iff (h : Inv b s c) (hc : s.kern.st c ≠ .dead)
    (hs : step procArch b s e = some s') :
    (UserAlive s' ↔ (ExitsSelf procArch s e → OtherRunnable s.kern)) ∧
      (UserAlive s' → CurrentAlive s') := by
  rcases h.step_outcome hs with hq | ⟨act, site, k, a, m, l, hcall, ho, -, -, -⟩
  · have halive : CurrentAlive s' := currentAlive_of_core hq.core h.current hc
    exact ⟨⟨fun _ hx => absurd hx (hq.not_exitsSelf h.current), fun _ => halive.userAlive⟩,
      fun _ => halive⟩
  · have hcur : (s.kern.core.after c act).current = some c := by
      cases act <;> exact h.current
    generalize hq' : s'.kern.core = q' at ho
    generalize hctl : s'.ctl = ctl' at ho
    cases ho with
    | idle hreq =>
      obtain ⟨hiff, hal⟩ := userAlive_iff_of_stay hcall h hc hq' hctl hcur rfl
      refine ⟨hiff.trans ⟨fun hx hx' => absurd hx' hx, ?_⟩, hal⟩
      intro _ hx
      obtain ⟨rfl, -⟩ := (hcall.exitsSelf_iff h hc).1 hx
      exact absurd hreq (by simp [Core.after])
    | alone hreq hnone =>
      obtain ⟨hiff, hal⟩ := userAlive_iff_of_stay hcall h hc hq' hctl hcur rfl
      refine ⟨hiff.trans ⟨fun hx hx' => absurd hx' hx, ?_⟩, hal⟩
      intro hx hx'
      obtain ⟨rfl, -⟩ := (hcall.exitsSelf_iff h hc).1 hx'
      obtain ⟨n, hn, hrun⟩ := (otherRunnable_of_die h).1 (hx hx')
      exact hnone n hn hrun
    | switch n byHint hreq hn hready =>
      have halive : CurrentAlive s' :=
        currentAlive_of_core hq' (c := n) rfl (by simp [Core.switch])
      refine ⟨⟨?_, fun _ => halive.userAlive⟩, fun _ => halive⟩
      intro _ hx
      obtain ⟨rfl, -⟩ := (hcall.exitsSelf_iff h hc).1 hx
      exact (otherRunnable_of_die h).2 ⟨n, hn, Or.inl hready⟩

/-! ### A fault with nobody else to run -/

/-- What the console gets when `schedule` returns to `user_fault_kill`. -/
def panicMessage : List Byte :=
  cstr "[PANIC] no runnable process left after user fault\r\n[PANIC] system halted.\r\n"

lemma panicMessage_eq :
    (uartPrintf (cstr "[PANIC] no runnable process left after user fault\n") []).out ++
      (uartPrintf (cstr "[PANIC] system halted.\n") []).out = panicMessage := by
  decide

lemma log_resume_faultTail (k : Kernel numProcesses) (a : ProcMachine) (c : Pid) :
    (resume procArch k a c .faultTail).kern.log = k.log ++ panicMessage.map Obs.tx := by
  rw [← panicMessage_eq, List.map_append, ← List.append_assoc]
  rfl

/-- Up to its call of `schedule` a fault handler only prints a report. -/
lemma log_userFaultKill {k : Kernel numProcesses} (hc : k.current = some c)
    (ctx : ExceptionContext) (far fsr : Word) (kind : FaultKind) :
    ∃ report : List Byte, ((faultReport k ctx far fsr kind).userFaultKill kind.kindName).log =
      k.log ++ report.map Obs.tx := by
  obtain ⟨fmt, args, hrep⟩ : ∃ fmt args, faultReport k ctx far fsr kind = k.printf fmt args := by
    cases kind <;> exact ⟨_, _, rfl⟩
  rw [hrep]
  simp only [Kernel.userFaultKill, current_printf, hc]
  refine ⟨(uartPrintf (cstr fmt) args).out ++
    (uartPrintf (cstr "[KILL] pid=%u name=%s killed by %s\n") [.num (k.processes c).pid,
      .str (k.processes c).name, .str (cstr kind.kindName)]).out, ?_⟩
  rw [List.map_append, ← List.append_assoc]
  rfl

/-- **The panic of `user_fault_kill`.**  With nobody else to run, the last output of a fault is
the panic message. -/
lemma Inv.fault_panics (h : Inv b s c) {kind : FaultKind} {far fsr : Word}
    (hs : step procArch b s (.fault kind far fsr) = some s') (hno : ¬ OtherRunnable s.kern) :
    ∃ report : List Byte, s'.kern.log = s.kern.log ++ (report ++ panicMessage).map Obs.tx := by
  rcases step_cases h.current h.ring (h.mode c) h.readArgs hs with
    hq | ⟨act, site, k, a, m, hcall, rfl⟩
  · cases hq
  · have hcore := hcall.core h
    have hready := hcall.callReady h
    cases hcall with
    | fault kind far fsr hu =>
      obtain ⟨report, hlog⟩ :=
        log_userFaultKill h.current (s.arch.ctx c kind.exn) far fsr kind
      rw [otherRunnable_of_die h] at hno
      rcases callSchedule_cases hready.current s.arch .faultTail with
        ⟨hreq, -⟩ | ⟨-, n, -, hn, hrun, -, -⟩ | ⟨-, -, heq⟩
      · have hreq' := (congrArg Core.needReschedule hcore).symm.trans hreq
        exact absurd hreq' (by simp [Core.after])
      · have hrun' : (s.kern.core.after c (.die c)).Runnable n := hcore ▸ hrun
        exact absurd ⟨n, hn, hrun'⟩ hno
      · refine ⟨report, ?_⟩
        rw [heq, log_resume_faultTail, List.map_append, ← List.append_assoc, ← hlog]
        rfl

/-- Nothing happens after `halt_forever`. -/
lemma step_halted {σ : Type} {A : Arch σ} {s : Sys σ} (h : s.ctl = .halted) :
    step A b s e = none := by
  rcases hc : s.kern.current with _ | c
  · simp [step, hc]
  · cases e <;> simp [step, hc, handle, h]

end Step

/-! ### Runs -/

section Runs

variable {b : Board} (L : Layout b) (umem : Pid → Word → Byte) (es : List Event)

/-- A run never returns to a dead process exactly when every process that ends its own
life leaves somebody who can run. -/
theorem userAlive_run_iff :
    Trace.AllStates (step procArch b) UserAlive (procSys L umem) es ↔
      Trace.AllSteps (step procArch b)
        (fun s e _ => ExitsSelf procArch s e → OtherRunnable s.kern) (procSys L umem) es := by
  refine Trace.allStates_iff_allSteps (I := fun s => (∃ c, Inv b s c) ∧ CurrentAlive s)
    ?_ ?_ es ⟨⟨0, inv_procSys L umem⟩, Or.inr ?_⟩ ?_
  · rintro s e s' ⟨⟨c, h⟩, hal⟩ hs hC
    rcases hal with hhalt | hal
    · exact absurd hs (by simp [step_halted hhalt])
    obtain ⟨hiff, halive⟩ := h.alive_step_iff (hal c h.current) hs
    exact ⟨h.preserved hs, halive (hiff.2 hC)⟩
  · rintro s e s' ⟨⟨c, h⟩, hal⟩ hs
    rcases hal with hhalt | hal
    · exact absurd hs (by simp [step_halted hhalt])
    exact (h.alive_step_iff (hal c h.current) hs).1
  · exact fun c _ => by simp [procSys, Kernel.st, bootKernel, initPcb]
  · exact fun _ c _ => by simp [procSys, Kernel.st, bootKernel, initPcb]

/-- In a run every death is final exactly when no dead process falls asleep. -/
theorem dead_run_iff :
    Trace.AllSteps (step procArch b) (fun s _ s' => ∀ p, s.kern.st p = .dead → s'.kern.st p = .dead)
        (procSys L umem) es ↔
      Trace.AllSteps (step procArch b)
        (fun s _ _ => BlocksOnInput s → ∀ c, s.kern.current = some c → s.kern.st c ≠ .dead)
        (procSys L umem) es := by
  refine Trace.allSteps_congr (I := fun s => ∃ c, Inv b s c) ?_ ?_ es ⟨0, inv_procSys L umem⟩
  · rintro s e s' ⟨c, h⟩ hs
    exact h.preserved hs
  · rintro s e s' ⟨c, h⟩ hs
    rw [h.dead_step_iff hs, h.current]
    simp

/-- **A user fault.**  The process dies and nobody else does.  If somebody else can run, one of
them goes on; if not, the system halts, and the last output is the panic message. -/
theorem fault_outcome {s s' : Sys ProcMachine} {c : Pid} {kind : FaultKind} {far fsr : Word}
    (hr : Trace.Reachable (step procArch b) (procSys L umem) s) (hc : s.kern.current = some c)
    (hs : step procArch b s (.fault kind far fsr) = some s') :
    s'.kern.st c = .dead ∧ (∀ p, p ≠ c → s.kern.st p ≠ .dead → s'.kern.st p ≠ .dead) ∧
      (¬ OtherRunnable s.kern → s'.ctl = .halted ∧
        ∃ report : List Byte, s'.kern.log = s.kern.log ++ (report ++ panicMessage).map Obs.tx) ∧
      (OtherRunnable s.kern → s'.ctl = .user ∧
        ∃ n, n ≠ c ∧ s.kern.Runnable n ∧ s'.kern.current = some n ∧ s'.kern.st n = .running) := by
  obtain ⟨c', h⟩ := inv_of_reachable hr
  obtain rfl : c' = c := Option.some.inj (h.current.symm.trans hc)
  have hpanic := h.fault_panics hs
  rcases h.step_outcome hs with hq | ⟨act, site, k, a, m, l, hcall, ho, -, -, -⟩
  · cases hq
  · obtain ⟨rfl, rfl⟩ : act = .die c' ∧ site = .faultTail := by
      cases hcall
      exact ⟨rfl, rfl⟩
    have hdead : (s.kern.core.after c' (.die c')).st c' = .dead := Function.update_self _ _ _
    have hother : ∀ p, p ≠ c' → (s.kern.core.after c' (.die c')).st p = s.kern.st p :=
      fun p hp => Function.update_of_ne hp _ _
    have hst : s'.kern.core.st c' = .dead :=
      (ho.st_eq (by simp [Core.Runnable, hdead])).trans hdead
    have hiff := otherRunnable_of_die h
    generalize hq' : s'.kern.core = q' at ho hst
    generalize hctl : s'.ctl = ctl' at ho
    have hst' : ∀ p, s'.kern.st p = q'.st p := fun p => congrFun (congrArg Core.st hq') p
    rw [hst']
    cases ho with
    | idle hreq => exact absurd hreq (by simp [Core.after])
    | alone hreq hnone =>
      refine ⟨hst, ?_, fun hno => ⟨rfl, hpanic hno⟩, ?_⟩
      · intro p hp hlive
        rw [hst']
        exact fun hd => hlive ((hother p hp).symm.trans hd)
      · intro hrun
        obtain ⟨n, hn, hrun⟩ := hiff.1 hrun
        exact absurd hrun (hnone n hn)
    | switch n byHint hreq hn hready hpref hcont =>
      have hret : (s.arch.cont n).Returns := by
        rcases hcont with hret | ⟨-, hhint⟩
        · exact hret
        · exact absurd (h.noHint.symm.trans hhint) (by simp)
      refine ⟨hst, ?_, ?_, fun _ => ⟨hret.ctl_eq, n, hn, ?_, ?_, ?_⟩⟩
      · intro p hp hlive
        rw [hst']
        by_cases hpn : p = n
        · simp [Core.switch, hpn]
        · simpa [Core.switch, hpn, hp, hother p hp] using hlive
      · intro hno
        exact absurd (hiff.2 ⟨n, hn, Or.inl hready⟩) hno
      · exact Or.inl ((hother n hn).symm.trans hready)
      · exact congrArg Core.current hq'
      · rw [hst']
        simp [Core.switch]

end Runs

end RingNova
