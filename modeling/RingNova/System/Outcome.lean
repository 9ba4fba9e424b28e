/-
# What a step does to the scheduling state

`Call.outcome` reads a step that calls `schedule` as a transition of the scheduling state
alone: the change `Act`, then either nothing, or a switch to another ready process, or the
discovery that there is none.  Together with the steps that are `Quiet` this is all the
later files need to know about the kernel's control flow.
-/
import RingNova.System.Invariant

namespace RingNova

namespace Core

/-- `TASK_READY` or `TASK_RUNNING`. -/
def Runnable (q : Core) (p : Pid) : Prop := q.st p = .ready ∨ q.st p = .running

/-- The flag and the hint are consumed. -/
def clear (q : Core) : Core := { q with needReschedule := false, wakeHint := none }

/-- `perform_switch` from `c` to `n`. -/
def switch (q : Core) (c n : Pid) : Core where
  st p := if p = n then .running else if p = c ∧ q.st c = .running then .ready else q.st p
  current := some n
  needReschedule := false
  blockedReader := q.blockedReader
  wakeHint := none

end Core

lemma core_clearRequest (k : Kernel numProcesses) : k.clearRequest.core = k.core.clear := rfl

lemma core_performSwitch (k : Kernel numProcesses) (c n : Pid) (byHint : Bool) :
    (k.clearRequest.performSwitch c n byHint).core = k.core.switch c n := by
  refine Core.ext (funext ?_) rfl ?_ ?_ ?_
  · intro p
    exact Kernel.st_performSwitch k.clearRequest c n byHint p
  · exact Kernel.needReschedule_performSwitch k.clearRequest c n byHint
  · exact Kernel.blockedReader_performSwitch k.clearRequest c n byHint
  · exact Kernel.wakeHint_performSwitch k.clearRequest c n byHint

lemma marks_performSwitch (k : Kernel numProcesses) (c n : Pid) (byHint : Bool) :
    (k.clearRequest.performSwitch c n byHint).marks = k.marks ++ [.dispatch n byHint] := by
  refine (congrArg (List.filter Obs.isMark)
    (Kernel.log_performSwitch k.clearRequest c n byHint)).trans ?_
  exact List.filter_append _ _

/-! ### Moments of a run -/

section

variable {σ : Type}

/-- The next step calls `scheduler_block_on_input`: `sys_read` has nothing yet, and the
ring is empty. -/
def BlocksOnInput (s : Sys σ) : Prop :=
  ∃ buf len n got, s.ctl = .readLoop buf len n got ∧ n < len ∧ n = 0#32 ∧
    s.kern.rx.uartRxEmpty = true

/-- Somebody else can run. -/
def OtherRunnable (k : Kernel numProcesses) : Prop :=
  ∃ p, k.current ≠ some p ∧ k.Runnable p

end

lemma otherRunnable_iff {k : Kernel numProcesses} {c : Pid} (hc : k.current = some c) :
    OtherRunnable k ↔ ∃ p, p ≠ c ∧ k.Runnable p := by
  refine exists_congr fun p => and_congr_left' ?_
  rw [hc, Ne, Option.some.injEq, eq_comm]

lemma uartRxEmpty_iff (r : RxRing) : r.uartRxEmpty = true ↔ r.contents = [] := by
  rw [RxRing.contents_eq_nil_iff, RxRing.uartRxEmpty, decide_eq_true_iff]

section Call

variable {b : Board} {s s' : Sys ProcMachine} {c : Pid} {e : Event} {act : Act} {site : Cont}
  {k : Kernel numProcesses} {a : ProcMachine} {m : List (Obs numProcesses)}

lemma Quiet.core (hq : Quiet s c e s') : s'.kern.core = s.kern.core := by
  cases hq <;> rfl

lemma Quiet.marks (hq : Quiet s c e s') : s'.kern.marks = s.kern.marks := by
  cases hq <;> rfl

lemma Call.core (hcall : Call b s c e act site k a m) (h : Inv b s c) :
    k.core = s.kern.core.after c act := by
  cases hcall with
  | irq ack rx hu => exact (irqDispatch_spec h.wired ack rx c).1
  | svc v hu hact hdone => exact hdone.core
  | fault kind far fsr hu => exact (userFaultKill_spec h.current kind far fsr).1
  | block hctl hn hempty h0 => exact (blockCurrent_spec h.current).1
  | readReturn hctl hn => rfl

lemma Call.cont (hcall : Call b s c e act site k a m) : a.cont = s.arch.cont := by
  cases hcall with
  | svc v hu hact hdone => exact hdone.cont
  | _ => rfl

lemma Call.marks (hcall : Call b s c e act site k a m) (h : Inv b s c) :
    k.marks = s.kern.marks ++ m := by
  cases hcall with
  | irq ack rx hu => exact (irqDispatch_spec h.wired ack rx c).2.2.2
  | svc v hu hact hdone => exact (marks_emit _ _).trans (by rw [hdone.marks]; rfl)
  | fault kind far fsr hu =>
    rw [List.append_nil]
    exact (userFaultKill_spec h.current kind far fsr).2.2.2
  | block => exact (blockCurrent_spec h.current).2.2.2
  | readReturn =>
    rw [marks_emit, marks_emit, List.append_assoc]
    rfl

/-- A call of `scheduler_block_on_input` is the only way to fall asleep. -/
lemma Call.blocksOnInput_iff (hcall : Call b s c e act site k a m) :
    BlocksOnInput s ↔ act = .sleep := by
  constructor
  · rintro ⟨buf, len, n, got, hctl, hn, h0, hempty⟩
    have hempty := (uartRxEmpty_iff _).1 hempty
    cases hcall with
    | block => rfl
    | readReturn hctl' hn' =>
      obtain ⟨rfl, rfl, rfl, rfl⟩ := Ctl.readLoop.inj (hctl.symm.trans hctl')
      rcases hn' with hn' | ⟨-, hn'⟩
      · exact absurd hn hn'
      · exact absurd h0 hn'
    | irq ack rx hu => exact absurd (hctl.symm.trans hu) (by simp)
    | svc v hu => exact absurd (hctl.symm.trans hu) (by simp)
    | fault kind far fsr hu => exact absurd (hctl.symm.trans hu) (by simp)
  · intro hact
    cases hcall with
    | block hctl hn hempty h0 =>
      exact ⟨_, _, _, _, hctl, hn, h0, (uartRxEmpty_iff _).2 hempty⟩
    | irq ack rx hu =>
      rcases irqAct_cases b s.kern ack with h | h | ⟨q, h, -⟩ <;> rw [h] at hact <;> cases hact
    | svc v hu hact' =>
      rcases svcAct_cases hact' with rfl | rfl | ⟨p, rfl⟩ <;> exact absurd hact (by simp)
    | fault => exact absurd hact (by simp)
    | readReturn => exact absurd hact (by simp)

lemma Quiet.not_blocksOnInput (hq : Quiet s c e s') : ¬ BlocksOnInput s := by
  rintro ⟨buf, len, n, got, hctl, hn, h0, hempty⟩
  cases hq with
  | pop hctl' hn' hring =>
    rw [(uartRxEmpty_iff _).1 hempty] at hring
    exact absurd hring (by simp)
  | retry hctl' => exact absurd (hctl.symm.trans hctl') (by simp)
  | exec f hu => exact absurd (hctl.symm.trans hu) (by simp)
  | load va rd hu => exact absurd (hctl.symm.trans hu) (by simp)
  | store va ch hu => exact absurd (hctl.symm.trans hu) (by simp)
  | startRead hu => exact absurd (hctl.symm.trans hu) (by simp)

/-- How a call of `schedule` ends, as seen on the scheduling state. -/
inductive Outcome (q : Core) (c : Pid) (site : Cont) (cont : Pid → Cont) :
    Core → Ctl → List (Obs numProcesses) → Prop
  /-- Nothing was requested. -/
  | idle (hreq : q.needReschedule = false) : Outcome q c site cont q site.ctl []
  /-- The CPU goes to another process. -/
  | switch (n : Pid) (byHint : Bool) (hreq : q.needReschedule = true) (hn : n ≠ c)
    (hready : q.st n = .ready) (hpref : ∀ h, q.wakeHint = some h → h = n)
    (hcont : (cont n).Returns ∨ (cont n).Sleeps ∧ q.wakeHint = some n) :
    Outcome q c site cont (q.switch c n) (cont n).ctl [.dispatch n byHint]
  /-- Nobody else can run. -/
  | alone (hreq : q.needReschedule = true) (hnone : ∀ n, n ≠ c → ¬ q.Runnable n) :
    Outcome q c site cont q.clear site.ctl []

lemma Call.outcome (hcall : Call b s c e act site k a m) (h : Inv b s c) :
    ∃ l, Outcome (s.kern.core.after c act) c site s.arch.cont
        (callSchedule procArch k a c site).kern.core (callSchedule procArch k a c site).ctl l ∧
      (callSchedule procArch k a c site).kern.marks = s.kern.marks ++ m ++ l := by
  have hr := hcall.callReady h
  have hcore := hcall.core h
  rw [← hcore, ← hcall.cont, ← hcall.marks h]
  rcases callSchedule_cases hr.current a site with
    ⟨hreq, heq⟩ | ⟨hreq, n, byHint, hn, hrun, hpref, heq⟩ | ⟨hreq, hnone, heq⟩
  · rw [heq, core_resume, ctl_resume, marks_resume]
    exact ⟨[], Outcome.idle hreq, (List.append_nil _).symm⟩
  · obtain ⟨hready, hcont⟩ := hr.next hn hrun
    rw [heq, core_resume, ctl_resume, marks_resume, core_performSwitch, marks_performSwitch]
    refine ⟨_, Outcome.switch n byHint hreq hn hready ?_ hcont, rfl⟩
    intro q hq
    obtain ⟨hqc, hst, -, -⟩ := hr.hint q hq
    exact (hpref q hq hqc (Or.inl hst)).symm
  · rw [heq, core_resume, ctl_resume, marks_resume, core_clearRequest]
    exact ⟨[], Outcome.alone hreq hnone, (List.append_nil _).symm⟩

lemma Quiet.keeps (hq : Quiet s c e s') : Keeps s.kern s'.kern := by
  cases hq <;> exact ⟨fun _ => rfl, rfl, rfl⟩

lemma Call.keeps (hcall : Call b s c e act site k a m) (h : Inv b s c) : Keeps s.kern k := by
  cases hcall with
  | irq ack rx hu => exact (irqDispatch_spec h.wired ack rx c).2.2.1
  | svc v hu hact hdone => exact hdone.keeps.trans ⟨fun _ => rfl, rfl, rfl⟩
  | fault kind far fsr hu => exact (userFaultKill_spec h.current kind far fsr).2.2.1
  | block => exact (blockCurrent_spec h.current).2.2.1
  | readReturn => exact ⟨fun _ => rfl, rfl, rfl⟩

lemma keeps_callSchedule (k : Kernel numProcesses) (a : ProcMachine) (c : Pid) (site : Cont) :
    Keeps k (callSchedule procArch k a c site).kern := by
  have h := keeps_schedule k
  rw [callSchedule]
  rcases hsch : k.schedule with ⟨k', _ | ⟨prev, next⟩⟩ <;> rw [hsch] at h
  · exact h.trans (keeps_resume _ _ _ _)
  · exact h.trans (keeps_resume _ _ _ _)

/-- No step touches the static part of the PCBs. -/
lemma Inv.step_keeps (h : Inv b s c) (hs : step procArch b s e = some s') :
    Keeps s.kern s'.kern := by
  rcases step_cases h.current h.ring (h.mode c) h.readArgs hs with
    hq | ⟨act, site, k, a, m, hcall, rfl⟩
  · exact hq.keeps
  · exact (hcall.keeps h).trans (keeps_callSchedule k a c site)

/-- A call of `schedule` does not touch the processes that cannot run. -/
lemma Outcome.st_eq {q q' : Core} {cont : Pid → Cont} {ctl : Ctl} {l : List (Obs numProcesses)}
    (ho : Outcome q c site cont q' ctl l) {p : Pid} (hp : ¬ q.Runnable p) :
    q'.st p = q.st p := by
  cases ho with
  | idle => rfl
  | alone => rfl
  | switch n byHint hreq hn hready =>
    have hpn : p ≠ n := by
      rintro rfl
      exact hp (Or.inl hready)
    have hpc : ¬ (p = c ∧ q.st c = .running) := by
      rintro ⟨rfl, hrun⟩
      exact hp (Or.inr hrun)
    simp only [Core.switch, if_neg hpn, if_neg hpc]

/-- A call of `schedule` leaves no mark but the dispatch. -/
lemma Outcome.flatMap {q q' : Core} {cont : Pid → Cont} {ctl : Ctl}
    {l : List (Obs numProcesses)} (ho : Outcome q c site cont q' ctl l)
    {α : Type} {f : Obs numProcesses → List α} (hf : ∀ p h, f (.dispatch p h) = []) :
    l.flatMap f = [] := by
  cases ho <;> simp [hf]

/-- Only an interrupt wakes a process, and only the sleeping one in `blocked_reader`. -/
lemma Call.of_wake {p : Pid} (hcall : Call b s c e (.wake p) site k a m) :
    (∃ ack rx, e = .irq ack rx ∧ b.getActive ack = b.irqUart0 ∧ site = .irqTail ∧
      k = s.kern.irqDispatch b ack rx) ∧ s.ctl = .user ∧ s.kern.blockedReader = some p ∧
      s.kern.st p = .blocked := by
  generalize hact : Act.wake p = act at hcall
  cases hcall with
  | irq ack rx hu =>
    rcases irqAct_cases b s.kern ack with h | h | ⟨q, h, hack, hb, hst⟩ <;> rw [h] at hact <;>
      cases hact
    exact ⟨⟨ack, rx, rfl, hack, rfl, rfl⟩, hu, hb, hst⟩
  | svc v hu hact' =>
    rcases svcAct_cases hact' with rfl | rfl | ⟨q, rfl⟩ <;> exact absurd hact (by simp)
  | fault => exact absurd hact (by simp)
  | block => exact absurd hact (by simp)
  | readReturn => exact absurd hact (by simp)

/-- The wake hint is only set by a wake-up. -/
lemma Inv.hint_after (h : Inv b s c) {p : Pid}
    (hp : (s.kern.core.after c act).wakeHint = some p) : act = .wake p := by
  have hnone : s.kern.core.wakeHint = none := h.noHint
  cases act with
  | wake q => exact congrArg Act.wake (Option.some.inj hp)
  | _ => exact absurd (hnone.symm.trans hp) (by simp)

lemma rx_callSchedule (k : Kernel numProcesses) (a : ProcMachine) (c : Pid) (site : Cont) :
    (callSchedule procArch k a c site).kern.rx = k.rx := by
  rw [callSchedule, ← rx_schedule k]
  rcases k.schedule with ⟨k', _ | ⟨prev, next⟩⟩
  · exact rx_resume _ _ _ _
  · exact rx_resume _ _ _ _

/-- The machine after a call of `schedule` by `c`: registers and memory are untouched, the
process that runs now has left the site it was parked at, and all others are parked. -/
structure Parks (a : ProcMachine) (c : Pid) (site : Cont) (s' : Sys ProcMachine) : Prop where
  regs : s'.arch.regs = a.regs
  umem : s'.arch.umem = a.umem
  cont : ∃ c', s'.kern.current = some c' ∧ s'.ctl = ((a.park c site).cont c').ctl ∧
    ∀ p, p ≠ c' → s'.arch.cont p = (a.park c site).cont p

lemma parks_resume {k : Kernel numProcesses} (hc : k.current = some c) (a : ProcMachine)
    (site : Cont) : Parks a c site (resume procArch k a c site) := by
  refine ⟨by rw [arch_resume], by rw [arch_resume], c, ?_, ?_, ?_⟩
  · exact (congrArg Core.current (core_resume k a c site)).trans hc
  · simp [ProcMachine.park]
  · intro p hp
    simp [ProcMachine.park, hp]

lemma parks_callSchedule {k : Kernel numProcesses} (hc : k.current = some c) (a : ProcMachine)
    (site : Cont) : Parks a c site (callSchedule procArch k a c site) := by
  rcases callSchedule_cases hc a site with
    ⟨-, heq⟩ | ⟨-, n, byHint, hn, -, -, heq⟩ | ⟨-, -, heq⟩
  · exact heq ▸ parks_resume hc a site
  · rw [heq]
    refine ⟨by rw [arch_resume]; rfl, by rw [arch_resume]; rfl, n, ?_, ?_, ?_⟩
    · exact congrArg Core.current (core_resume _ _ n _)
    · simp [ProcMachine.park, hn]
    · intro p _
      rw [arch_resume]
  · exact heq ▸ parks_resume (k := k.clearRequest) hc a site

/-- A step that calls `schedule`. -/
structure Switching (b : Board) (s : Sys ProcMachine) (c : Pid) (e : Event)
    (s' : Sys ProcMachine) (act : Act) (site : Cont) (k : Kernel numProcesses)
    (a : ProcMachine) (m l : List (Obs numProcesses)) : Prop where
  call : Call b s c e act site k a m
  outcome : Outcome (s.kern.core.after c act) c site s.arch.cont s'.kern.core s'.ctl l
  marks : s'.kern.marks = s.kern.marks ++ m ++ l
  rx : s'.kern.rx = k.rx
  parks : Parks a c site s'

/-- **Every step, on the scheduling state.** -/
theorem Inv.step_outcome (h : Inv b s c) (hs : step procArch b s e = some s') :
    Quiet s c e s' ∨ ∃ act site k a m l, Switching b s c e s' act site k a m l := by
  rcases step_cases h.current h.ring (h.mode c) h.readArgs hs with
    hq | ⟨act, site, k, a, m, hcall, rfl⟩
  · exact Or.inl hq
  · obtain ⟨l, ho, hm⟩ := hcall.outcome h
    exact Or.inr ⟨act, site, k, a, m, l, hcall, ho, hm, rx_callSchedule k a c site,
      parks_callSchedule (hcall.callReady h).current a site⟩

end Call

end RingNova
