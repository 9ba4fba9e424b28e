/-
# Requests and dispatches

Which process a call of `schedule` takes (`Choice`): the one in the wake hint if there is
one, and otherwise the nearest one on the ring.  Two consequences are drawn here.

Every event that asks for a switch is answered by a decision in the same step, and the
hint is used in the step that has set it or not at all (`Inv.step_decided`).

The ring walk alone passes nobody over for long: it always moves towards every ready
process, so the distance to it is a bound.  A hinted switch can move the ring position
back, and only then is the bound lost (`Turns.step`).
-/
import RingNova.System.Outcome

namespace RingNova

/-! ### Which process is taken -/

/-- The process that a call of `schedule` takes, by the mark it leaves. -/
inductive Choice (q : Core) (c : Pid) : List (Obs numProcesses) → Prop
  | stay : Choice q c []
  | hint (n : Pid) (h : q.wakeHint = some n) : Choice q c [.dispatch n true]
  | ring (n : Pid) (h : q.wakeHint = none)
    (hnear : ∀ p, p ≠ c → q.Runnable p → Kernel.ringDist c n ≤ Kernel.ringDist c p) :
    Choice q c [.dispatch n false]

/-- The `pid` fields are the indices. -/
def Numbered (k : Kernel numProcesses) : Prop :=
  ∀ p, (k.processes p).pid = BitVec.ofNat 32 p

lemma Keeps.numbered {k k' : Kernel numProcesses} (h : Keeps k k') (hk : Numbered k) :
    Numbered k' := by
  intro p
  have hpid : (k'.processes p).pid = (k.processes p).pid := (congrArg Pcb.pid (h.fixed p) :)
  rw [hpid, hk p]

section Choice

variable {b : Board} {s s' : Sys ProcMachine} {c : Pid} {e : Event} {site : Cont}
  {k : Kernel numProcesses} {a : ProcMachine}

lemma marks_callSchedule (k : Kernel numProcesses) (a : ProcMachine) (c : Pid) (site : Cont) :
    (callSchedule procArch k a c site).kern.marks = k.schedule.1.marks := by
  rw [callSchedule]
  rcases k.schedule with ⟨k', _ | ⟨prev, next⟩⟩
  · exact marks_resume _ _ _ _
  · exact marks_resume _ _ _ _

lemma CallReady.choice (h : CallReady b k a c site) (hk : Numbered k) :
    ∃ l, (callSchedule procArch k a c site).kern.marks = k.marks ++ l ∧ Choice k.core c l := by
  rw [marks_callSchedule]
  -- the history is extended only by `perform_switch`
  rcases hsch : k.schedule with ⟨k', _ | ⟨prev, n⟩⟩
  · refine ⟨[], ?_, .stay⟩
    rw [List.append_nil]
    rcases hreq : k.needReschedule with _ | _
    · rw [Kernel.schedule_idle hreq] at hsch
      rw [← (Prod.mk.inj hsch).1]
    · rcases Kernel.schedule_cases two_numProcesses_le h.current hreq with
        ⟨n, byHint, -, -, -, hsch'⟩ | ⟨-, hsch'⟩
      · exact absurd (Prod.mk.inj (hsch.symm.trans hsch')).2 (by simp)
      · rw [(Prod.mk.inj (hsch.symm.trans hsch')).1]
        rfl
  · rcases Kernel.schedule_choice h.current hsch with ⟨hhint, rfl⟩ | ⟨hnone, hwalk, rfl⟩
    · exact ⟨_, marks_performSwitch k c n true, .hint n hhint⟩
    · refine ⟨_, marks_performSwitch k c n false, .ring n ?_ ?_⟩
      · rcases hh : k.wakeHint with _ | q
        · exact hh
        · obtain ⟨hne, hst, -, -⟩ := h.hint q hh
          exact absurd (Or.inl hst) (hnone q hh hne)
      · intro p hp hrun
        exact Kernel.ringWalk_nearest two_numProcesses_le (hk c) hwalk hp hrun

/-- **Every step, with the process it takes.** -/
theorem Inv.step_choice (h : Inv b s c) (hk : Numbered s.kern)
    (hs : step procArch b s e = some s') :
    Quiet s c e s' ∨ ∃ act site k a m l, Switching b s c e s' act site k a m l ∧
      Choice (s.kern.core.after c act) c l := by
  rcases step_cases h.current h.ring (h.mode c) h.readArgs hs with
    hq | ⟨act, site, k, a, m, hcall, rfl⟩
  · exact Or.inl hq
  · obtain ⟨l, ho, hm⟩ := hcall.outcome h
    obtain ⟨l', hm', hchoice⟩ :=
      (hcall.callReady h).choice ((hcall.keeps h).numbered hk)
    -- the outcome and the choice speak of the same call of `schedule`
    obtain rfl : l = l' := by
      rw [hcall.marks h] at hm'
      exact List.append_cancel_left (hm.symm.trans hm')
    rw [hcall.core h] at hchoice
    refine Or.inr ⟨act, site, k, a, m, l, ⟨hcall, ho, hm, rx_callSchedule k a c site, ?_⟩, hchoice⟩
    exact parks_callSchedule (hcall.callReady h).current a site

/-- What an entry of the history says about dispatches: the process, and whether the hint
has chosen it. -/
def Obs.dispatchOf : Obs numProcesses → List (Pid × Bool)
  | .dispatch p byHint => [(p, byHint)]
  | _ => []

/-- The dispatches made so far, in order. -/
def Kernel.dispatches (k : Kernel numProcesses) : List (Pid × Bool) := k.log.flatMap Obs.dispatchOf

lemma dispatches_eq (k : Kernel numProcesses) : k.dispatches = k.marks.flatMap Obs.dispatchOf :=
  (flatMap_marks (fun _ => rfl) (fun _ => rfl) k).symm

lemma Quiet.dispatches (hq : Quiet s c e s') : s'.kern.dispatches = s.kern.dispatches := by
  rw [dispatches_eq, dispatches_eq, hq.marks]

/-- Nothing is dispatched before `schedule` is called. -/
lemma Switching.dispatches {act : Act} {m l : List (Obs numProcesses)}
    (h : Switching b s c e s' act site k a m l) :
    s'.kern.dispatches = s.kern.dispatches ++ l.flatMap Obs.dispatchOf := by
  have hm : m.flatMap Obs.dispatchOf = [] := by
    have hcall := h.call
    cases hcall with
    | irq ack rx => exact flatMap_irqMarks (fun _ => rfl) (fun _ => rfl) b s.kern ack rx
    | _ => rfl
  rw [dispatches_eq, dispatches_eq, h.marks, List.flatMap_append, List.flatMap_append, hm,
    List.append_nil]

end Choice

/-! ### Requests are answered at once -/

section

variable {σ : Type}

/-- The event is a receive interrupt that finds process `p` asleep in `blocked_reader`. -/
def WakesReader (b : Board) (s : Sys σ) (e : Event) (p : Pid) : Prop :=
  ∃ ack rx, e = .irq ack rx ∧ s.ctl = .user ∧ b.getActive ack = b.irqUart0 ∧
    s.kern.blockedReader = some p ∧ s.kern.st p = .blocked

/-- The event sets `need_reschedule` while process `c` is the current one. -/
inductive Requests (A : Arch σ) (b : Board) (s : Sys σ) (c : Pid) : Event → Prop
  /-- `scheduler_tick`. -/
  | tick (ack : Word) (rx : List Byte) (hu : s.ctl = .user) (h : b.getActive ack = b.irqTimer) :
    Requests A b s c (.irq ack rx)
  /-- `scheduler_wake_reader`. -/
  | wake {e : Event} {p : Pid} (h : WakesReader b s e p) : Requests A b s c e
  /-- `sys_yield` and `sys_exit`. -/
  | yieldOrExit (hu : s.ctl = .user)
    (h : Syscall.ofNum ((A.ctx (A.enter s.arch c .svc) c .svc).r 7) = some .yield ∨
      Syscall.ofNum ((A.ctx (A.enter s.arch c .svc) c .svc).r 7) = some .exit) :
    Requests A b s c .svc
  /-- `sys_kill` of a process that is not dead. -/
  | kill {p : Pid} (hu : s.ctl = .user)
    (h : Syscall.ofNum ((A.ctx (A.enter s.arch c .svc) c .svc).r 7) = some .kill)
    (hp : ((A.ctx (A.enter s.arch c .svc) c .svc).r 0).toNat = p) (hst : s.kern.st p ≠ .dead) :
    Requests A b s c .svc
  /-- `user_fault_kill`. -/
  | fault (kind : FaultKind) (far fsr : Word) (hu : s.ctl = .user) :
    Requests A b s c (.fault kind far fsr)
  /-- `scheduler_block_on_input`. -/
  | sleep (h : BlocksOnInput s) : Requests A b s c .kernel

/-- The scheduler has decided: the CPU is with another process, or there is none to give it
to. -/
def Decided (c : Pid) (k : Kernel numProcesses) : Prop :=
  (∃ n, n ≠ c ∧ k.current = some n ∧ k.st n = .running) ∨
    (k.current = some c ∧ ∀ p, p ≠ c → ¬ k.Runnable p)

end

section Requests

variable {b : Board} {s s' : Sys ProcMachine} {c p : Pid} {e : Event} {act : Act} {site : Cont}
  {k : Kernel numProcesses} {a : ProcMachine} {m l : List (Obs numProcesses)}

lemma WakesReader.irqAct {ack : Word} {rx : List Byte}
    (h : WakesReader b s (.irq ack rx) p) : irqAct b s.kern ack = .wake p := by
  obtain ⟨ack', rx', he, -, hack, hslot, hst⟩ := h
  obtain ⟨rfl, rfl⟩ := Event.irq.inj he
  rw [RingNova.irqAct, if_pos hack, wakeAct, hslot]
  exact if_pos hst

lemma WakesReader.act_eq (h : WakesReader b s e p) (hcall : Call b s c e act site k a m) :
    act = .wake p := by
  obtain ⟨ack, rx, rfl, hu, hack, hslot, hst⟩ := id h
  cases hcall
  exact h.irqAct

/-- A request changes the scheduling state. -/
lemma Requests.act_ne (h : Requests procArch b s c e) (hcall : Call b s c e act site k a m) :
    act ≠ .nothing := by
  cases h with
  | wake hw =>
    rw [hw.act_eq hcall]
    simp
  | tick ack rx hu hack =>
    cases hcall
    have hne : b.getActive ack ≠ b.irqUart0 := hack ▸ irqTimer_ne_irqUart0 b
    rw [RingNova.irqAct, if_neg hne, if_pos hack]
    simp
  | yieldOrExit hu hnum =>
    cases hcall with
    | svc v hu hact hdone =>
      rw [svcFrame_r] at hnum
      rintro rfl
      rcases hnum with hnum | hnum <;> simp [svcAct, hnum] at hact
  | @kill p hu hnum hp hst =>
    cases hcall with
    | svc v hu hact hdone =>
      rw [svcFrame_r] at hnum hp
      have hlt : ((s.arch.regs c).r 0).toNat < numProcesses := hp ▸ p.isLt
      have hpid : (⟨((s.arch.regs c).r 0).toNat, hlt⟩ : Pid) = p := Fin.ext hp
      rintro rfl
      simp [svcAct, hnum, hlt, hpid, hst] at hact
  | fault kind far fsr hu =>
    cases hcall
    simp
  | sleep hb =>
    rw [hcall.blocksOnInput_iff.1 hb]
    simp

lemma Quiet.not_requests (hq : Quiet s c e s') : ¬ Requests procArch b s c e := by
  intro h
  cases h with
  | wake hw =>
    obtain ⟨ack, rx, rfl, -⟩ := hw
    cases hq
  | tick => cases hq
  | fault => cases hq
  | sleep hb => exact hq.not_blocksOnInput hb
  | yieldOrExit hu hnum =>
    cases hq with
    | startRead hu hread =>
      rw [svcFrame_r, hread] at hnum
      simp at hnum
  | kill hu hnum =>
    cases hq with
    | startRead hu hread =>
      rw [svcFrame_r, hread] at hnum
      simp at hnum

lemma Core.after_needReschedule {q : Core} (c : Pid) (h : act ≠ .nothing) :
    (q.after c act).needReschedule = true := by
  cases act with
  | nothing => exact absurd rfl h
  | _ => rfl

lemma Core.after_current (q : Core) (c : Pid) (act : Act) :
    (q.after c act).current = q.current := by
  cases act <;> rfl

/-- After a request the scheduler has decided. -/
lemma Switching.decided (h : Switching b s c e s' act site k a m l) (hinv : Inv b s c)
    (hact : act ≠ .nothing) : Decided c s'.kern := by
  have ho := h.outcome
  have hreq := Core.after_needReschedule (q := s.kern.core) c hact
  have hcur : (s.kern.core.after c act).current = some c :=
    (Core.after_current _ _ _).trans hinv.current
  generalize hq : s.kern.core.after c act = q at ho hreq hcur
  generalize hcore : s'.kern.core = q' at ho
  generalize s'.ctl = ctl at ho
  have hst : ∀ n, s'.kern.st n = q'.st n := fun n => congrFun (congrArg Core.st hcore) n
  have hcur' : s'.kern.current = q'.current := congrArg Core.current hcore
  -- with a request pending `schedule` switches, or there is nobody to switch to
  cases ho with
  | idle hidle =>
    rw [hreq] at hidle
    exact absurd hidle (by simp)
  | switch n byHint _ hn =>
    refine Or.inl ⟨n, hn, hcur', ?_⟩
    rw [hst]
    exact if_pos rfl
  | alone _ hnone =>
    refine Or.inr ⟨hcur'.trans hcur, fun p hp hrun => hnone p hp ?_⟩
    rw [Kernel.Runnable, hst] at hrun
    exact hrun

/-- The woken reader gets the CPU in the step that wakes it. -/
lemma Switching.woken (h : Switching b s c e s' (.wake p) site k a m l) (hinv : Inv b s c) :
    s'.kern.current = some p := by
  obtain ⟨-, hu, -, hst⟩ := h.call.of_wake
  have ho := h.outcome
  have hpc : p ≠ c := by
    rintro rfl
    have := hinv.atCtl
    rw [hu] at this
    exact this hst
  have hready : (s.kern.core.after c (.wake p)).st p = .ready := Function.update_self _ _ _
  generalize hcore : s'.kern.core = q' at ho
  generalize s'.ctl = ctl at ho
  have hcur' : s'.kern.current = q'.current := congrArg Core.current hcore
  cases ho with
  | idle hidle => exact absurd hidle (by simp [Core.after])
  | switch n byHint _ _ _ hpref =>
    rw [hpref p rfl]
    exact hcur'
  | alone _ hnone => exact absurd (Or.inl hready) (hnone p hpc)

/-- **What a step does with requests and hints.** -/
theorem Inv.step_decided (h : Inv b s c) (hk : Numbered s.kern)
    (hs : step procArch b s e = some s') :
    (Requests procArch b s c e → Decided c s'.kern) ∧
      (∀ p, WakesReader b s e p → s'.kern.current = some p) ∧
      ∃ new, s'.kern.dispatches = s.kern.dispatches ++ new ∧
        ∀ n, (n, true) ∈ new → WakesReader b s e n := by
  rcases h.step_choice hk hs with hq | ⟨act, site, k, a, m, l, hsw, hchoice⟩
  · refine ⟨fun hr => absurd hr hq.not_requests, ?_, [], ?_, by simp⟩
    · intro p hw
      exact absurd (.wake hw) hq.not_requests
    · rw [hq.dispatches, List.append_nil]
  · refine ⟨fun hr => hsw.decided h (hr.act_ne hsw.call), ?_, _, hsw.dispatches, ?_⟩
    · intro p hw
      obtain rfl := hw.act_eq hsw.call
      exact hsw.woken h
    · intro n hn
      -- the hint names the process that this step has woken
      cases hchoice with
      | stay => simp at hn
      | ring n' => simp [Obs.dispatchOf] at hn
      | hint n' hhint =>
        obtain rfl : n = n' := by simpa [Obs.dispatchOf] using hn
        obtain rfl := h.hint_after hhint
        obtain ⟨⟨ack, rx, rfl, hack, -, -⟩, hu, hslot, hst⟩ := hsw.call.of_wake
        exact ⟨ack, rx, rfl, hu, hack, hslot, hst⟩

end Requests

/-! ### How often the ring walk passes a process over -/

/-- One more dispatch, as a process that waits for its turn counts it. -/
def countTurn (p : Pid) (n : ℕ) (d : Pid × Bool) : ℕ :=
  if d.1 = p then 0 else if d.2 then n else n + 1

/-- How many ring-walk dispatches have gone to other processes since process `p` was last
dispatched. -/
def Kernel.overtaken (k : Kernel numProcesses) (p : Pid) : ℕ :=
  k.dispatches.foldl (countTurn p) 0

/-- A wake-up gives the CPU to a reader from which the ring walk takes longer to reach
process `p`, which is ready. -/
def SetsBack {σ : Type} (b : Board) (p : Pid) (s : Sys σ) (e : Event) : Prop :=
  ∃ c h, s.kern.current = some c ∧ WakesReader b s e h ∧ s.kern.st p = .ready ∧
    Kernel.ringDist c p < Kernel.ringDist h p

/-- Process `p` is not passed over for long: what it has waited and the distance the ring
walk still has to go make up at most one round. -/
structure Turns (k : Kernel numProcesses) (c p : Pid) : Prop where
  running : p = c → k.overtaken p = 0
  waiting : k.st p = .ready → k.overtaken p + Kernel.ringDist c p ≤ numProcesses

section Turns

variable {b : Board} {s s' : Sys ProcMachine} {c p : Pid} {e : Event} {act : Act} {site : Cont}
  {k : Kernel numProcesses} {a : ProcMachine} {m l : List (Obs numProcesses)}

lemma Turns.of_eq {k' : Kernel numProcesses} (h : Turns k c p)
    (hst : k'.st p = .ready → k.st p = .ready) (hd : k'.dispatches = k.dispatches) :
    Turns k' c p := by
  have ho : k'.overtaken p = k.overtaken p := by rw [Kernel.overtaken, hd, Kernel.overtaken]
  refine ⟨fun hp => ho.trans (h.running hp), ?_⟩
  intro hr
  rw [ho]
  exact h.waiting (hst hr)

/-- A process that is ready at the call of `schedule` was ready before, or has just been
woken. -/
lemma Core.after_ready {q : Core} (h : (q.after c act).st p = .ready) :
    q.st p = .ready ∨ act = .wake p := by
  cases act with
  | nothing => exact Or.inl h
  | request => exact Or.inl h
  | wake r =>
    by_cases hp : p = r
    · exact Or.inr (by rw [hp])
    · exact Or.inl ((Function.update_of_ne hp _ _).symm.trans h)
  | die r =>
    by_cases hp : p = r
    · subst hp
      simp [Core.after] at h
    · exact Or.inl ((Function.update_of_ne hp _ _).symm.trans h)
  | sleep =>
    by_cases hp : p = c
    · subst hp
      simp [Core.after] at h
    · exact Or.inl ((Function.update_of_ne hp _ _).symm.trans h)

/-- A switch towards a process, or to the process itself. -/
lemma Turns.switch (ht : Turns s.kern c p) (h : Inv b s c) (hnb : ¬ SetsBack b p s e)
    (hsw : Switching b s c e s' act site k a m l) (hchoice : Choice (s.kern.core.after c act) c l)
    {n : Pid} {byHint : Bool} (hl : l = [.dispatch n byHint])
    (hst : s'.kern.st = ((s.kern.core.after c act).switch c n).st)
    (hpref : ∀ q, (s.kern.core.after c act).wakeHint = some q → q = n) : Turns s'.kern n p := by
  have hd : s'.kern.overtaken p = countTurn p (s.kern.overtaken p) (n, byHint) := by
    rw [Kernel.overtaken, hsw.dispatches, hl, List.foldl_append]
    rfl
  refine ⟨fun hp => by rw [hd, countTurn, if_pos hp.symm], ?_⟩
  intro hr
  have hpn : n ≠ p := by
    rintro rfl
    rw [hst] at hr
    exact absurd ((if_pos rfl).symm.trans hr) (by simp)
  have hle : s'.kern.overtaken p ≤ s.kern.overtaken p + 1 := by
    rw [hd, countTurn, if_neg hpn]
    split <;> omega
  by_cases hpc : p = c
  · -- the process has just given up the CPU
    have h0 := ht.running hpc
    have hlt : Kernel.ringDist n p < numProcesses :=
      Kernel.ringDist_lt_of_ne fun he => hpn he.symm
    omega
  · have hready : s.kern.st p = .ready := by
      have hq : (s.kern.core.after c act).st p = .ready := by
        rw [hst] at hr
        simpa [Core.switch, hpn.symm, hpc] using hr
      rcases Core.after_ready hq with hq | rfl
      · exact hq
      · exact absurd (hpref p rfl).symm hpn
    have hwait := ht.waiting hready
    rw [hl] at hchoice
    cases hchoice with
    | hint _ hhint =>
      -- only a set-back could increase the distance
      obtain rfl := h.hint_after hhint
      obtain ⟨⟨ack, rx, rfl, hack, -, -⟩, hu, hslot, hb⟩ := hsw.call.of_wake
      have hdist : Kernel.ringDist n p ≤ Kernel.ringDist c p := by
        by_contra hlt
        exact hnb ⟨c, n, h.current, ⟨ack, rx, rfl, hu, hack, hslot, hb⟩, hready, by omega⟩
      have : s'.kern.overtaken p = s.kern.overtaken p := by
        rw [hd, countTurn, if_neg hpn, if_pos rfl]
      omega
    | ring _ hnone hnear =>
      -- one dispatch more, and the walk has come closer by at least one
      have hq : (s.kern.core.after c act).Runnable p := by
        rw [hst] at hr
        exact Or.inl (by simpa [Core.switch, hpn.symm, hpc] using hr)
      have hadd := Kernel.ringDist_add hpn (hnear p hpc hq)
      have hpos := Kernel.ringDist_pos c n
      omega

/-- **One step without a set-back.** -/
lemma Turns.step (ht : Turns s.kern c p) (h : Inv b s c) (hk : Numbered s.kern)
    (hnb : ¬ SetsBack b p s e) (hs : step procArch b s e = some s') :
    ∃ c', Inv b s' c' ∧ Turns s'.kern c' p := by
  obtain ⟨c', hinv'⟩ := h.preserved hs
  refine ⟨c', hinv', ?_⟩
  rcases h.step_choice hk hs with hq | ⟨act, site, k, a, m, l, hsw, hchoice⟩
  · have hcur := (congrArg Core.current hq.core).trans h.current
    obtain rfl : c' = c := Option.some.inj (hinv'.current.symm.trans hcur)
    have hst : s'.kern.st = s.kern.st := congrArg Core.st hq.core
    exact ht.of_eq (fun hr => by rwa [hst] at hr) hq.dispatches
  · have ho := hsw.outcome
    have hd := hsw.dispatches
    have hcur' : s'.kern.core.current = some c' := hinv'.current
    have hcur : (s.kern.core.after c act).current = some c :=
      (Core.after_current _ _ _).trans h.current
    -- the caller goes on: nobody has been woken
    have hstay : ∀ q : Core, s'.kern.core = q → q.st = (s.kern.core.after c act).st →
        q.current = some c → act ≠ .wake p → l = [] → Turns s'.kern c' p := by
      intro q hcore hst hq hact hl
      obtain rfl : c' = c := Option.some.inj (hinv'.current.symm.trans
        ((congrArg Core.current hcore).trans hq))
      refine ht.of_eq ?_ (by rw [hd, hl]; exact List.append_nil _)
      intro hr
      have hr' : (s.kern.core.after c' act).st p = .ready := by
        rw [← hst, ← hcore]
        exact hr
      exact (Core.after_ready hr').resolve_right hact
    generalize hcore : s'.kern.core = q' at ho
    generalize s'.ctl = ctl at ho
    cases ho with
    | idle hreq =>
      refine hstay _ hcore rfl hcur ?_ rfl
      rintro rfl
      exact absurd hreq (by simp [Core.after])
    | alone hreq hnone =>
      refine hstay _ hcore rfl hcur ?_ rfl
      rintro rfl
      have hcp := hsw.woken h
      obtain rfl : c' = c := Option.some.inj (hinv'.current.symm.trans
        ((congrArg Core.current hcore).trans hcur))
      obtain rfl : c' = p := Option.some.inj (hinv'.current.symm.trans hcp)
      obtain ⟨-, hu, -, hb⟩ := hsw.call.of_wake
      have hctl := h.atCtl
      rw [hu] at hctl
      exact hctl hb
    | switch n byHint hreq hn hready hpref =>
      obtain rfl : c' = n := Option.some.inj (hinv'.current.symm.trans
        (congrArg Core.current hcore))
      exact ht.switch h hnb hsw hchoice rfl (congrArg Core.st hcore) fun q hq => hpref q hq

end Turns

/-! ### Runs -/

section Runs

variable {b : Board} (L : Layout b) (umem : Pid → Word → Byte) (es : List Event)

lemma numbered_procSys : Numbered (procSys L umem).kern := fun _ => rfl

/-- In a run without set-backs a ready process waits at most one round. -/
theorem overtaken_run (p : Pid)
    (hes : Trace.AllSteps (step procArch b) (fun s e _ => ¬ SetsBack b p s e) (procSys L umem) es) :
    Trace.AllStates (step procArch b)
      (fun s => s.kern.st p = .ready → s.kern.overtaken p ≤ numProcesses - 1) (procSys L umem)
      es := by
  refine hes.invariant
    (I := fun s => ∃ c, Inv b s c ∧ Numbered s.kern ∧ Turns s.kern c p) ?_ ?_ ?_
  · rintro s e s' ⟨c, hinv, hk, ht⟩ hs hnb
    obtain ⟨c', hinv', ht'⟩ := ht.step hinv hk hnb hs
    exact ⟨c', hinv', (hinv.step_keeps hs).numbered hk, ht'⟩
  · rintro s ⟨c, -, -, ht⟩ hr
    have hwait := ht.waiting hr
    have hpos := Kernel.ringDist_pos c p
    omega
  · refine ⟨0, inv_procSys L umem, numbered_procSys L umem, fun _ => rfl, ?_⟩
    intro _
    show 0 + _ ≤ _
    rw [Nat.zero_add]
    exact Kernel.ringDist_le 0 p

end Runs

end RingNova
