/-
# The invariant of the system

What holds in every reachable state of the process-level system, whatever the user
programs do: nothing is left over in the scheduler's flag and hint, only the current
process can be `TASK_RUNNING`, a process that is `TASK_READY` waits at a point from which it
returns to USR mode, one that is `TASK_BLOCKED` waits inside `sys_read`, and the state of the
current process agrees with where the CPU is.

The one surprising clause is `Stuck`: if a process has put itself to sleep while nobody else
could run, it is still the current one, and nothing will ever change again.
-/
import RingNova.System.Cases

namespace RingNova

/-- The call sites of `schedule` that return to USR mode at once. -/
def Cont.Returns : Cont → Prop
  | .firstEntry => True
  | .irqTail => True
  | .svcTail => True
  | .blockOnInput _ _ _ _ => False
  | .faultTail => False

/-- Asleep in `sys_read`, before the first byte. -/
def Cont.Sleeps (cont : Cont) : Prop :=
  ∃ buf len, cont = .blockOnInput buf len 0#32 [] ∧ ReadArgs buf len 0#32 []

/-- Where a process that is not the current one may wait, by its state. -/
def Parked : TaskState → Cont → Prop
  | .ready, cont => cont.Returns
  | .running, _ => False
  | .blocked, cont => cont.Sleeps
  | .dead, _ => True

/-- Nothing to read, and nobody else to run. -/
def Stuck (k : Kernel numProcesses) (c : Pid) : Prop :=
  k.rx.contents = [] ∧ ∀ p, p ≠ c → ¬ k.Runnable p

/-- How the state of the current process agrees with where the CPU is. -/
def AtCtl (k : Kernel numProcesses) (c : Pid) : Ctl → Prop
  | .user => k.st c ≠ .blocked
  | .readLoop buf len n got =>
    ReadArgs buf len n got ∧ (k.st c = .blocked → n = 0#32 ∧ Stuck k c)
  | .blockRet buf len n got =>
    n = 0#32 ∧ got = [] ∧ ReadArgs buf len n got ∧
      (k.st c = .running ∨ k.st c = .blocked ∧ Stuck k c)
  | .halted => k.st c = .dead ∧ ∀ p, p ≠ c → ¬ k.Runnable p
  | .wild => False

/-- The invariant, with `c` the current process. -/
structure Inv (b : Board) (s : Sys ProcMachine) (c : Pid) : Prop where
  current : s.kern.current = some c
  idle : s.kern.needReschedule = false
  noHint : s.kern.wakeHint = none
  ring : s.kern.rx.Wf
  wired : Wired b s.kern
  /-- Every saved CPSR is USR mode with interrupts enabled. -/
  mode : ∀ p, (s.arch.regs p).cpsr &&& privBits = 0x10#32
  parked : ∀ p, p ≠ c → Parked (s.kern.st p) (s.arch.cont p)
  noFault : s.arch.cont c ≠ .faultTail
  atCtl : AtCtl s.kern c s.ctl

lemma Cont.Returns.ne_faultTail {cont : Cont} (h : cont.Returns) : cont ≠ .faultTail := by
  rintro rfl
  exact h

lemma Cont.Sleeps.ne_faultTail {cont : Cont} (h : cont.Sleeps) : cont ≠ .faultTail := by
  obtain ⟨buf, len, rfl, -⟩ := h
  simp

lemma Cont.Returns.ctl_eq {cont : Cont} (h : cont.Returns) : cont.ctl = .user := by
  cases cont with
  | blockOnInput => exact h.elim
  | faultTail => exact h.elim
  | _ => rfl

/-! ### At a call of `schedule` -/

/-- What the call site says about the current process. -/
def SiteOk (k : Kernel numProcesses) (c : Pid) : Cont → Prop
  | .firstEntry => False
  | .irqTail => k.st c ≠ .blocked
  | .svcTail => k.st c ≠ .blocked
  | .blockOnInput buf len n got =>
    k.st c = .blocked ∧ k.needReschedule = true ∧ n = 0#32 ∧ got = [] ∧
      ReadArgs buf len n got ∧ k.rx.contents = []
  | .faultTail => k.st c = .dead ∧ k.needReschedule = true

/-- The invariant at a call of `schedule`: a woken process may be ready although it
waits inside `sys_read`, but then the wake hint names it. -/
structure CallReady (b : Board) (k : Kernel numProcesses) (a : ProcMachine) (c : Pid)
    (site : Cont) : Prop where
  current : k.current = some c
  ring : k.rx.Wf
  wired : Wired b k
  mode : ∀ p, (a.regs p).cpsr &&& privBits = 0x10#32
  hint : ∀ h, k.wakeHint = some h →
    h ≠ c ∧ k.st h = .ready ∧ k.needReschedule = true ∧ (a.cont h).Sleeps
  parked : ∀ p, p ≠ c → k.wakeHint ≠ some p → Parked (k.st p) (a.cont p)
  noFault : a.cont c ≠ .faultTail
  site : SiteOk k c site

section CallSchedule

variable {b : Board} {k : Kernel numProcesses} {a : ProcMachine} {c n : Pid} {site : Cont}

lemma CallReady.hint_none (h : CallReady b k a c site) (hreq : k.needReschedule = false) :
    k.wakeHint = none := by
  rcases hh : k.wakeHint with _ | p
  · rfl
  · rw [(h.hint p hh).2.2.1] at hreq
    exact absurd hreq (by simp)

lemma CallReady.hint_none_of_not_runnable (h : CallReady b k a c site)
    (hnone : ∀ p, p ≠ c → ¬ k.Runnable p) : k.wakeHint = none := by
  rcases hh : k.wakeHint with _ | p
  · rfl
  · obtain ⟨hne, hst, -, -⟩ := h.hint p hh
    exact absurd (Or.inl hst) (hnone p hne)

/-- A dispatched process was ready, and waited where its state says. -/
lemma CallReady.next (h : CallReady b k a c site) (hn : n ≠ c) (hrun : k.Runnable n) :
    k.st n = .ready ∧ ((a.cont n).Returns ∨ (a.cont n).Sleeps ∧ k.wakeHint = some n) := by
  by_cases hh : k.wakeHint = some n
  · obtain ⟨-, hst, -, hsl⟩ := h.hint n hh
    exact ⟨hst, Or.inr ⟨hsl, hh⟩⟩
  · have hp := h.parked n hn hh
    rcases hrun with hst | hst
    · rw [hst] at hp
      exact ⟨hst, Or.inl hp⟩
    · rw [hst] at hp
      exact hp.elim

/-- The process that gives up the CPU is parked where its state says. -/
lemma SiteOk.parked (h : SiteOk k c site) :
    Parked (if k.st c = .running then .ready else k.st c) site := by
  cases site with
  | firstEntry => exact h.elim
  | blockOnInput buf len n got =>
    obtain ⟨hst, -, rfl, rfl, hr, -⟩ := h
    rw [if_neg (by simp [hst]), hst]
    exact ⟨buf, len, rfl, hr⟩
  | faultTail =>
    rw [if_neg (by simp [h.1]), h.1]
    trivial
  | irqTail =>
    have hb : k.st c ≠ .blocked := h
    rcases hst : k.st c <;> simp_all [Parked, Cont.Returns]
  | svcTail =>
    have hb : k.st c ≠ .blocked := h
    rcases hst : k.st c <;> simp_all [Parked, Cont.Returns]

/-- The CPU goes to another process. -/
lemma CallReady.inv_switch (h : CallReady b k a c site) (byHint : Bool) (hn : n ≠ c)
    (hrun : k.Runnable n)
    (hpref : ∀ q, k.wakeHint = some q → q ≠ c → k.Runnable q → n = q) :
    Inv b (resume procArch (k.clearRequest.performSwitch c n byHint) (a.park c site) n
      (a.cont n)) n := by
  obtain ⟨-, hcont⟩ := h.next hn hrun
  have hst : ∀ p, (k.clearRequest.performSwitch c n byHint).st p =
      if p = n then .running
      else if p = c ∧ k.st c = .running then .ready else k.st p :=
    fun p => Kernel.st_performSwitch k.clearRequest c n byHint p
  have hcore := core_resume (k.clearRequest.performSwitch c n byHint) (a.park c site) n
    (a.cont n)
  have hstr : ∀ p, (resume procArch (k.clearRequest.performSwitch c n byHint) (a.park c site) n
      (a.cont n)).kern.st p = _ :=
    fun p => (congrFun (congrArg Core.st hcore) p).trans (hst p)
  refine ⟨congrArg Core.current hcore, ?_, ?_, ?_, ?_, ?_, ?_, ?_, ?_⟩
  · exact (congrArg Core.needReschedule hcore).trans
      (Kernel.needReschedule_performSwitch k.clearRequest c n byHint)
  · exact (congrArg Core.wakeHint hcore).trans
      (Kernel.wakeHint_performSwitch k.clearRequest c n byHint)
  · rw [rx_resume, Kernel.rx_performSwitch]
    exact h.ring
  · refine (keeps_resume _ _ _ _).wired (Keeps.wired ⟨?_, ?_, ?_⟩ h.wired)
    · intro p
      exact Kernel.fixed_performSwitch k.clearRequest c n byHint p
    · exact Kernel.irqTable_performSwitch k.clearRequest c n byHint
    · exact Kernel.userHandler_performSwitch k.clearRequest c n byHint
  · rw [arch_resume]
    exact h.mode
  · intro p hp
    rw [hstr, if_neg hp, arch_resume]
    by_cases hpc : p = c
    · subst hpc
      have := h.site.parked
      simpa [ProcMachine.park] using this
    · have hph : k.wakeHint ≠ some p := by
        intro hh
        obtain ⟨-, hsth, -, -⟩ := h.hint p hh
        exact hp (hpref p hh hpc (Or.inl hsth)).symm
      simpa [ProcMachine.park, hpc] using h.parked p hpc hph
  · rw [arch_resume]
    have : (a.park c site).cont n = a.cont n := by simp [ProcMachine.park, hn]
    rw [this]
    rcases hcont with hret | ⟨hsl, -⟩
    · exact hret.ne_faultTail
    · exact hsl.ne_faultTail
  · have hrunning : (resume procArch (k.clearRequest.performSwitch c n byHint) (a.park c site) n
        (a.cont n)).kern.st n = .running := by rw [hstr, if_pos rfl]
    rw [ctl_resume]
    rcases hcont with hret | ⟨⟨buf, len, heq, hr⟩, -⟩
    · rw [hret.ctl_eq]
      show _ ≠ _
      rw [hrunning]
      simp
    · rw [heq]
      exact ⟨rfl, rfl, hr, Or.inl (heq ▸ hrunning)⟩

/-- The caller of `schedule` goes on; if it had asked for a switch, nobody could run. -/
lemma CallReady.inv_stay (h : CallReady b k a c site) {k' : Kernel numProcesses}
    (hcore : k'.core = { k.core with needReschedule := false, wakeHint := none })
    (hrx : k'.rx = k.rx) (hkeeps : Keeps k k')
    (hnone : k.needReschedule = true → ∀ p, p ≠ c → ¬ k.Runnable p) :
    Inv b (resume procArch k' a c site) c := by
  have hst : ∀ p, (resume procArch k' a c site).kern.st p = k.st p := fun p =>
    (congrFun (congrArg Core.st (core_resume k' a c site)) p).trans
      (congrFun (congrArg Core.st hcore) p)
  have hrun : ∀ p, (resume procArch k' a c site).kern.Runnable p ↔ k.Runnable p := by
    intro p
    rw [Kernel.Runnable, hst]
    rfl
  have hrx' : (resume procArch k' a c site).kern.rx = k.rx := by rw [rx_resume, hrx]
  have hh : k.wakeHint = none := by
    rcases hreq : k.needReschedule with _ | _
    · exact h.hint_none hreq
    · exact h.hint_none_of_not_runnable (hnone hreq)
  refine ⟨?_, ?_, ?_, ?_, ?_, ?_, ?_, ?_, ?_⟩
  · exact (congrArg Core.current ((core_resume k' a c site).trans hcore)).trans h.current
  · exact congrArg Core.needReschedule ((core_resume k' a c site).trans hcore)
  · exact congrArg Core.wakeHint ((core_resume k' a c site).trans hcore)
  · rw [hrx']
    exact h.ring
  · exact (keeps_resume _ _ _ _).wired (hkeeps.wired h.wired)
  · rw [arch_resume]
    exact h.mode
  · intro p hp
    rw [hst, arch_resume]
    exact h.parked p hp (by simp [hh])
  · rw [arch_resume]
    exact h.noFault
  · rw [ctl_resume]
    have hs := h.site
    cases hsite : site with
    | firstEntry =>
      rw [hsite] at hs
      exact hs.elim
    | irqTail =>
      rw [hsite] at hs hst
      show _ ≠ _
      rw [hst]
      exact hs
    | svcTail =>
      rw [hsite] at hs hst
      show _ ≠ _
      rw [hst]
      exact hs
    | blockOnInput buf len n got =>
      rw [hsite] at hs hst hrun hrx'
      obtain ⟨hb, hreq, hn0, hg, hr, hempty⟩ := hs
      refine ⟨hn0, hg, hr, Or.inr ⟨by rw [hst]; exact hb, ?_, ?_⟩⟩
      · rw [hrx']
        exact hempty
      · intro p hp
        rw [hrun]
        exact hnone hreq p hp
    | faultTail =>
      rw [hsite] at hs hst hrun
      refine ⟨by rw [hst]; exact hs.1, ?_⟩
      intro p hp
      rw [hrun]
      exact hnone hs.2 p hp

/-- A call of `schedule` re-establishes the invariant. -/
theorem CallReady.inv (h : CallReady b k a c site) :
    ∃ c', Inv b (callSchedule procArch k a c site) c' := by
  rcases callSchedule_cases h.current a site with
    ⟨hreq, heq⟩ | ⟨hreq, n, byHint, hn, hrun, hpref, heq⟩ | ⟨hreq, hnone, heq⟩
  · refine ⟨c, heq ▸ h.inv_stay ?_ rfl (Keeps.refl k) (by simp [hreq])⟩
    refine Core.ext rfl rfl hreq rfl (h.hint_none hreq)
  · exact ⟨n, heq ▸ h.inv_switch byHint hn hrun hpref⟩
  · exact ⟨c, heq ▸ h.inv_stay rfl rfl ⟨fun _ => rfl, rfl, rfl⟩ fun _ => hnone⟩

end CallSchedule

/-! ### The steps -/

section Step

variable {b : Board} {s s' : Sys ProcMachine} {c : Pid} {e : Event}

/-- The invariant transported to another state with the same scheduling state. -/
lemma Inv.congr (h : Inv b s c) (hcore : s'.kern.core = s.kern.core) (hring : s'.kern.rx.Wf)
    (hkeeps : Keeps s.kern s'.kern)
    (hmode : ∀ p, (s'.arch.regs p).cpsr &&& privBits = 0x10#32)
    (hcont : s'.arch.cont = s.arch.cont) (hctl : AtCtl s'.kern c s'.ctl) : Inv b s' c := by
  have hst : s'.kern.st = s.kern.st := congrArg Core.st hcore
  refine ⟨(congrArg Core.current hcore).trans h.current,
    (congrArg Core.needReschedule hcore).trans h.idle,
    (congrArg Core.wakeHint hcore).trans h.noHint, hring, hkeeps.wired h.wired, hmode, ?_, ?_,
    hctl⟩
  · intro p hp
    rw [hst, hcont]
    exact h.parked p hp
  · rw [hcont]
    exact h.noFault

lemma mode_setRegs {a : ProcMachine} {u : UserRegs}
    (h : ∀ p, (a.regs p).cpsr &&& privBits = 0x10#32) (hu : u.cpsr &&& privBits = 0x10#32)
    (p : Pid) : ((a.setRegs c u).regs p).cpsr &&& privBits = 0x10#32 := by
  by_cases hp : p = c
  · subst hp
    simpa [ProcMachine.setRegs] using hu
  · simpa [ProcMachine.setRegs, hp] using h p

lemma mode_enter_svc {a : ProcMachine} (h : ∀ p, (a.regs p).cpsr &&& privBits = 0x10#32)
    (p : Pid) : ((a.enter c .svc).regs p).cpsr &&& privBits = 0x10#32 :=
  mode_setRegs h (by exact h c) p

lemma atCtl_readLoop_succ {k : Kernel numProcesses} {buf len n : Word} {got : List Byte}
    {ch : Byte} {rx : RxRing} (h : AtCtl k c (.readLoop buf len n got)) (hn : n < len)
    (hne : k.rx.contents ≠ []) :
    AtCtl { k with rx := rx } c (.readLoop buf len (n + 1#32) (got ++ [ch])) := by
  obtain ⟨hr, hb⟩ := h
  have hn' : n.toNat < len.toNat := hn
  have hlen := len.isLt
  have hsucc : (n + 1#32).toNat = n.toNat + 1 := by
    rw [BitVec.toNat_add]
    have : (1#32).toNat = 1 := rfl
    omega
  refine ⟨⟨hr.valid, hr.pos, by rw [hsucc]; omega, by simp [hsucc, hr.got]⟩, ?_⟩
  intro hst
  exact absurd (hb hst).2.1 hne

lemma Quiet.inv (hq : Quiet s c e s') (h : Inv b s c) : Inv b s' c := by
  have hctl := h.atCtl
  cases hq with
  | exec f hu hpriv =>
    rw [hu] at hctl
    exact h.congr rfl h.ring (Keeps.refl _) (mode_setRegs h.mode (hpriv.trans (h.mode c))) rfl
      hctl
  | load va rd hu hw =>
    rw [hu] at hctl
    exact h.congr rfl h.ring (Keeps.refl _) (mode_setRegs h.mode (by exact h.mode c)) rfl hctl
  | store va ch hu hw =>
    rw [hu] at hctl
    exact h.congr rfl h.ring (Keeps.refl _) h.mode rfl hctl
  | startRead hu hnum hlen hv =>
    rw [hu] at hctl
    refine h.congr rfl h.ring (Keeps.refl _) (mode_enter_svc h.mode) rfl ⟨?_, ?_⟩
    · refine ⟨hv, Nat.pos_of_ne_zero fun h0 => hlen (BitVec.eq_of_toNat_eq h0), ?_, rfl⟩
      exact Nat.zero_le _
    · exact fun hst => absurd hst hctl
  | pop hctl' hn hring =>
    rw [hctl'] at hctl
    obtain ⟨-, -, hwf⟩ := RxRing.pop_of_contents_cons h.ring hring
    exact h.congr rfl hwf ⟨fun _ => rfl, rfl, rfl⟩ h.mode rfl
      (atCtl_readLoop_succ hctl hn (by simp [hring]))
  | retry hctl' =>
    rw [hctl'] at hctl
    obtain ⟨hn0, hg, hr, hst⟩ := hctl
    refine h.congr rfl h.ring (Keeps.refl _) h.mode rfl ⟨hr, fun hb => ⟨hn0, ?_⟩⟩
    rcases hst with hst | ⟨-, hstuck⟩
    · rw [hb] at hst
      exact absurd hst (by simp)
    · exact hstuck

lemma wf_irqRing {r : RxRing} (h : r.Wf) (ack : Word) (rx : List Byte) :
    (irqRing b r ack rx).Wf := by
  unfold irqRing
  split
  · exact RxRing.wf_pushAll h rx
  · exact h

/-- The invariant at a call of `schedule` after a change that wakes nobody. -/
lemma Inv.callReady (h : Inv b s c) {k : Kernel numProcesses} {a : ProcMachine} {site : Cont}
    {act : Act} (hcore : k.core = s.kern.core.after c act) (hact : ∀ p, act ≠ .wake p)
    (hring : k.rx.Wf) (hkeeps : Keeps s.kern k)
    (hmode : ∀ p, (a.regs p).cpsr &&& privBits = 0x10#32)
    (hcont : a.cont = s.arch.cont) (hsite : SiteOk k c site) : CallReady b k a c site := by
  have hhint : k.wakeHint = none := by
    have hk : k.wakeHint = (s.kern.core.after c act).wakeHint := congrArg Core.wakeHint hcore
    rw [hk, ← h.noHint]
    cases act with
    | wake p => exact absurd rfl (hact p)
    | _ => rfl
  refine ⟨?_, hring, hkeeps.wired h.wired, hmode, by simp [hhint], ?_, ?_, hsite⟩
  · have hk : k.current = (s.kern.core.after c act).current := congrArg Core.current hcore
    rw [hk, ← h.current]
    cases act <;> rfl
  · intro p hp _
    have hk : k.st p = (s.kern.core.after c act).st p := congrFun (congrArg Core.st hcore) p
    rw [hk, hcont]
    cases act with
    | wake q => exact absurd rfl (hact q)
    | nothing => exact h.parked p hp
    | request => exact h.parked p hp
    | die q =>
      by_cases hpq : p = q
      · subst hpq
        simp [Core.after, Parked]
      · simpa [Core.after, Kernel.core, hpq] using h.parked p hp
    | sleep => simpa [Core.after, Kernel.core, hp] using h.parked p hp
  · rw [hcont]
    exact h.noFault

/-- The invariant at the call of `schedule` that ends the wake-up of a reader. -/
lemma Inv.callReady_wake (h : Inv b s c) {k : Kernel numProcesses} {q : Pid}
    (hq : s.kern.st q = .blocked) (hu : s.ctl = .user)
    (hcore : k.core = s.kern.core.after c (.wake q)) (hring : k.rx.Wf)
    (hkeeps : Keeps s.kern k) : CallReady b k s.arch c .irqTail := by
  have hcb : s.kern.st c ≠ .blocked := by
    have := h.atCtl
    rwa [hu] at this
  have hqc : q ≠ c := by
    rintro rfl
    exact hcb hq
  have hst : ∀ p, k.st p = Function.update s.kern.st q .ready p := fun p =>
    congrFun (congrArg Core.st hcore) p
  have hhint : k.wakeHint = some q := congrArg Core.wakeHint hcore
  refine ⟨(congrArg Core.current hcore).trans h.current, hring, hkeeps.wired h.wired, h.mode,
    ?_, ?_, h.noFault, ?_⟩
  · intro p hp
    obtain rfl : q = p := Option.some.inj (hhint.symm.trans hp)
    refine ⟨hqc, by simp [hst], congrArg Core.needReschedule hcore, ?_⟩
    have := h.parked q hqc
    rwa [hq] at this
  · intro p hp hph
    have hpq : p ≠ q := by
      rintro rfl
      exact hph hhint
    rw [hst, Function.update_of_ne hpq]
    exact h.parked p hp
  · show _ ≠ _
    rw [hst, Function.update_of_ne hqc.symm]
    exact hcb

/-- An interrupt does nothing, requests a switch, or wakes the process in
`blocked_reader`. -/
lemma irqAct_cases (b : Board) (k : Kernel numProcesses) (ack : Word) :
    irqAct b k ack = .nothing ∨ irqAct b k ack = .request ∨
      ∃ q, irqAct b k ack = .wake q ∧ b.getActive ack = b.irqUart0 ∧
        k.blockedReader = some q ∧ k.st q = .blocked := by
  unfold irqAct wakeAct
  split
  · split
    · split
      · exact Or.inr (Or.inr ⟨_, rfl, ‹_›, ‹_›, ‹_›⟩)
      · exact Or.inl rfl
    · exact Or.inl rfl
  · split
    · exact Or.inr (Or.inl rfl)
    · exact Or.inl rfl

/-- An interrupt leaves the state of the current process alone. -/
lemma st_after_irqAct {k : Kernel numProcesses} (ack : Word) (hc : k.st c ≠ .blocked) :
    (k.core.after c (irqAct b k ack)).st c = k.st c := by
  rcases irqAct_cases b k ack with hact | hact | ⟨q, hact, -, -, hq⟩
  · rw [hact]
    rfl
  · rw [hact]
    rfl
  · rw [hact]
    have hqc : c ≠ q := by
      rintro rfl
      exact hc hq
    exact Function.update_of_ne hqc _ _

/-- A syscall that returns at once neither wakes nor sleeps. -/
lemma svcAct_cases {k : Kernel numProcesses} {r : Fin 13 → Word} {act : Act}
    (h : svcAct k c r = some act) : act = .nothing ∨ act = .request ∨ ∃ p, act = .die p := by
  unfold svcAct at h
  repeat' split at h
  all_goals simp at h
  all_goals simp [← h]

lemma Call.callReady {act : Act} {site : Cont} {k : Kernel numProcesses} {a : ProcMachine}
    {m : List (Obs numProcesses)}
    (hcall : Call b s c e act site k a m) (h : Inv b s c) : CallReady b k a c site := by
  have hctl := h.atCtl
  cases hcall with
  | irq ack rx hu =>
    rw [hu] at hctl
    have hcb : s.kern.st c ≠ .blocked := hctl
    obtain ⟨hcore, hrx, hkeeps, -⟩ := irqDispatch_spec h.wired ack rx c
    have hring : (s.kern.irqDispatch b ack rx).rx.Wf := hrx ▸ wf_irqRing h.ring ack rx
    have hst : (s.kern.irqDispatch b ack rx).st c = _ := congrFun (congrArg Core.st hcore) c
    rw [st_after_irqAct ack hcb] at hst
    have hsite : SiteOk (s.kern.irqDispatch b ack rx) c .irqTail := fun hb => hcb (hst ▸ hb)
    rcases irqAct_cases b s.kern ack with hact | hact | ⟨q, hact, -, -, hq⟩
    · exact h.callReady hcore (by simp [hact]) hring hkeeps h.mode rfl hsite
    · exact h.callReady hcore (by simp [hact]) hring hkeeps h.mode rfl hsite
    · rw [hact] at hcore
      exact h.callReady_wake hq hu hcore hring hkeeps
  | svc v hu hact hdone =>
    rw [hu] at hctl
    have hcb : s.kern.core.st c ≠ .blocked := hctl
    have hcases := svcAct_cases hact
    have hnw : ∀ p, act ≠ .wake p := by
      rintro p rfl
      simp at hcases
    refine h.callReady hdone.core hnw (hdone.rx ▸ h.ring) ?_ ?_ ?_ ?_
    · exact hdone.keeps.trans ⟨fun _ => rfl, rfl, rfl⟩
    · refine mode_setRegs ?_ ?_
      · intro p
        rw [hdone.regs]
        exact mode_enter_svc h.mode p
      · show ((_ : UserRegs).cpsr) &&& _ = _
        rw [hdone.regs]
        exact mode_enter_svc h.mode c
    · exact hdone.cont
    · show Kernel.st _ c ≠ _
      have hst : Kernel.st _ c = _ := congrFun (congrArg Core.st hdone.core) c
      rw [Kernel.st_emit, hst]
      rcases hcases with rfl | rfl | ⟨p, rfl⟩
      · exact hcb
      · exact hcb
      · by_cases hp : c = p
        · subst hp
          simp [Core.after]
        · simpa [Core.after, hp] using hcb
  | fault kind far fsr hu =>
    obtain ⟨hcore, hrx, hkeeps, -⟩ := userFaultKill_spec h.current kind far fsr
    refine h.callReady hcore (by simp) (hrx ▸ h.ring) hkeeps h.mode rfl ⟨?_, ?_⟩
    · refine (congrFun (congrArg Core.st hcore) c).trans ?_
      simp [Core.after]
    · exact congrArg Core.needReschedule hcore
  | block hctl' hn hempty h0 =>
    rw [hctl'] at hctl
    obtain ⟨hr, -⟩ := hctl
    obtain ⟨hcore, hrx, hkeeps, -⟩ := blockCurrent_spec h.current
    refine h.callReady hcore (by simp) (hrx ▸ h.ring) hkeeps h.mode rfl
      ⟨?_, ?_, h0, ?_, hr, hrx ▸ hempty⟩
    · refine (congrFun (congrArg Core.st hcore) c).trans ?_
      simp [Core.after]
    · exact congrArg Core.needReschedule hcore
    · have := hr.got
      rw [h0] at this
      exact List.length_eq_zero_iff.1 this
  | @readReturn buf len n got hctl' hn =>
    rw [hctl'] at hctl
    obtain ⟨hr, hb⟩ := hctl
    have hcore : ((s.kern.emit [.readDone c got]).emit [.sysret c n]).core =
        s.kern.core.after c .nothing := rfl
    refine h.callReady hcore (by simp) h.ring ⟨fun _ => rfl, rfl, rfl⟩
      (mode_setRegs h.mode (by exact h.mode c)) rfl ?_
    intro hst
    obtain ⟨rfl, -, -⟩ := hb hst
    rcases hn with hn | ⟨-, hn⟩
    · exact hn hr.pos
    · exact hn rfl

lemma Inv.readArgs (h : Inv b s c) (buf len n : Word) (got : List Byte)
    (hctl : s.ctl = .readLoop buf len n got) : ReadArgs buf len n got := by
  have := h.atCtl
  rw [hctl] at this
  exact this.1

/-- **The invariant is kept by every step.** -/
theorem Inv.preserved (h : Inv b s c) (hs : step procArch b s e = some s') : ∃ c', Inv b s' c' := by
  rcases step_cases h.current h.ring (h.mode c) h.readArgs hs with
    hq | ⟨act, site, k, a, m, hcall, rfl⟩
  · exact ⟨c, hq.inv h⟩
  · exact (hcall.callReady h).inv

end Step

/-- The first process is entered by `process_first_run`; the others are ready. -/
lemma inv_procSys {b : Board} (L : Layout b) (umem : Pid → Word → Byte) :
    Inv b (procSys L umem) 0 := by
  have hmode : initRegs.cpsr &&& privBits = 0x10#32 := by decide
  refine ⟨rfl, rfl, rfl, RxRing.wf_zero, ⟨rfl, rfl⟩, fun _ => hmode, fun _ _ => trivial, ?_, ?_⟩
  · simp [procSys, procBoot]
  · simp [procSys, AtCtl, Kernel.st, bootKernel, initPcb]

/-- The invariant holds in every reachable state. -/
theorem inv_of_reachable {b : Board} {L : Layout b} {umem : Pid → Word → Byte}
    {s : Sys ProcMachine} (h : Trace.Reachable (step procArch b) (procSys L umem) s) :
    ∃ c, Inv b s c := by
  refine h.induct (I := fun s => ∃ c, Inv b s c) ⟨0, inv_procSys L umem⟩ ?_
  rintro s e s' ⟨c, hc⟩ hs
  exact hc.preserved hs

end RingNova
