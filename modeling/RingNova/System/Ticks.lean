/-
# The tick counter

`tick_count` is a free-running 32-bit counter, and `sys_ticks` returns it as it is.  It counts
the timer interrupts, modulo `2 ^ 32` (`Inv.tickCount_run`).  Every timer interrupt that a user
program sees returns to some user program (`Inv.step_tick`), so every value of the counter
occurs (`exists_ticks`), also those that are negative as results.
-/
import RingNova.System.Syscall

namespace RingNova

open Trace

section

variable {b : Board} {s s' : Sys ProcMachine} {c : Pid}

/-! ### The counter in the kernel -/

lemma tickCount_schedule (k : Kernel numProcesses) : k.schedule.1.tickCount = k.tickCount := by
  have hperform : ∀ (k : Kernel numProcesses) (c n : Pid) (byHint : Bool),
      (k.performSwitch c n byHint).tickCount = k.tickCount := by
    intro k c n byHint
    unfold Kernel.performSwitch
    dsimp only
    split <;> rfl
  rcases hreq : k.needReschedule with _ | _
  · rw [Kernel.schedule_idle hreq]
  rcases hc : k.current with _ | c
  · simp only [Kernel.schedule, hreq, hc]
  · rcases Kernel.schedule_cases two_numProcesses_le hc hreq with
      ⟨n, byHint, -, -, -, h⟩ | ⟨-, h⟩
    · rw [h]
      exact hperform _ c n byHint
    · rw [h]
      rfl

lemma tickCount_resume {σ : Type} (A : Arch σ) (k : Kernel numProcesses) (a : σ) (c : Pid)
    (site : Cont) : (resume A k a c site).kern.tickCount = k.tickCount := by
  cases site <;> rfl

lemma tickCount_callSchedule {σ : Type} (A : Arch σ) (k : Kernel numProcesses) (a : σ) (c : Pid)
    (site : Cont) : (callSchedule A k a c site).kern.tickCount = k.tickCount := by
  rw [callSchedule, ← tickCount_schedule k]
  rcases k.schedule with ⟨k', _ | ⟨prev, next⟩⟩
  · exact tickCount_resume A _ _ _ _
  · dsimp only
    rcases A.switch k' a prev next site with _ | ⟨a', cont⟩
    · rfl
    · exact tickCount_resume A _ _ _ _

lemma tickCount_uartRxIrq (k : Kernel numProcesses) (rx : List Byte) :
    (k.uartRxIrq rx).tickCount = k.tickCount := by
  have hwake : ∀ k : Kernel numProcesses, k.schedulerWakeReader.tickCount = k.tickCount := by
    intro k
    unfold Kernel.schedulerWakeReader
    split
    · split <;> rfl
    · rfl
  rw [Kernel.uartRxIrq, hwake]
  induction rx generalizing k with
  | nil => rfl
  | cons ch rx ih => exact ih (k.uartRxPush ch)

/-- The timer's line runs `timer_tick`, the UART's does not, and no other one has a handler. -/
lemma tickCount_irqDispatch {k : Kernel numProcesses} (hw : Wired b k) (ack : Word)
    (rx : List Byte) : (k.irqDispatch b ack rx).tickCount =
      k.tickCount + BitVec.ofNat 32 (if b.getActive ack = b.irqTimer then 1 else 0) := by
  have hne := irqTimer_ne_irqUart0 b
  by_cases htimer : b.getActive ack = b.irqTimer
  · rw [if_pos htimer]
    simp [Kernel.irqDispatch, htimer, irqTimer_lt_maxIrqs, hne, hw.irqTable, bootIrqTable,
      Kernel.runIrqHandler, Kernel.timerTick, hw.userHandler, Kernel.emit, Kernel.schedulerTick]
  · rw [if_neg htimer, BitVec.add_zero]
    by_cases huart : b.getActive ack = b.irqUart0
    · simp [Kernel.irqDispatch, huart, irqUart0_lt_maxIrqs, hw.irqTable, bootIrqTable,
        Kernel.runIrqHandler, Kernel.emit, tickCount_uartRxIrq]
    · simp [Kernel.irqDispatch, htimer, huart, hw.irqTable, bootIrqTable, Kernel.emit]

/-! ### One tick -/

/-- A timer interrupt adds one to the counter, and some user program goes on. -/
lemma Inv.step_tick (h : Inv b s c) (hu : s.ctl = .user) {ack : Word}
    (hack : b.getActive ack = b.irqTimer) (rx : List Byte) :
    ∃ s', step procArch b s (.irq ack rx) = some s' ∧ s'.ctl = .user ∧
      s'.kern.tickCount = s.kern.tickCount + 1#32 := by
  have hstep : step procArch b s (.irq ack rx) =
      some (callSchedule procArch (s.kern.irqDispatch b ack rx) s.arch c .irqTail) := by
    simp only [step, h.current, handle, hu]
    rfl
  refine ⟨_, hstep, ?_, ?_⟩
  · -- whoever is dispatched was not asleep, since a tick leaves no hint
    obtain ⟨l, ho, -⟩ := (Call.irq (b := b) (s := s) (c := c) ack rx hu).outcome h
    have hact : irqAct b s.kern ack = .request := by
      rw [irqAct, hack, if_neg (irqTimer_ne_irqUart0 b), if_pos rfl]
    rw [hact] at ho
    generalize (callSchedule procArch (s.kern.irqDispatch b ack rx) s.arch c
      .irqTail).ctl = ctl at ho
    generalize (callSchedule procArch (s.kern.irqDispatch b ack rx) s.arch c
      .irqTail).kern.core = q at ho
    cases ho with
    | idle => rfl
    | alone => rfl
    | switch n byHint hreq hn hready hpref hcont =>
      rcases hcont with hret | ⟨-, hhint⟩
      · exact hret.ctl_eq
      · exact absurd (h.noHint.symm.trans hhint) (by simp)
  · rw [tickCount_callSchedule, tickCount_irqDispatch h.wired, if_pos hack]

/-- **Every value of the counter occurs** while a user program runs. -/
theorem exists_ticks (b : Board) (L : Layout b) (umem : Pid → Word → Byte) {ack : Word}
    (hack : b.getActive ack = b.irqTimer) (n : ℕ) :
    ∃ s c, run (step procArch b) (procSys L umem) (List.replicate n (.irq ack [])) = some s ∧
      Inv b s c ∧ s.ctl = .user ∧ s.kern.tickCount = BitVec.ofNat 32 n := by
  induction n with
  | zero => exact ⟨_, 0, rfl, inv_procSys L umem, rfl, rfl⟩
  | succ n ih =>
    obtain ⟨s, c, hrun, hinv, hu, hticks⟩ := ih
    obtain ⟨s', hs', hu', hticks'⟩ := hinv.step_tick hu hack []
    obtain ⟨c', hinv'⟩ := hinv.preserved hs'
    refine ⟨s', c', ?_, hinv', hu', ?_⟩
    · rw [List.replicate_succ']
      exact run_append_some hrun (run_cons_some.2 ⟨s', hs', rfl⟩)
    · rw [hticks', hticks, BitVec.ofNat_add]

/-! ### The number of ticks -/

/-- A timer interrupt. -/
def isTick (b : Board) : Event → Bool
  | .irq ack _ => b.getActive ack = b.irqTimer
  | _ => false

/-- How many timer interrupts there are among some events. -/
def tickTotal (b : Board) (es : List Event) : ℕ := es.countP (isTick b)

/-- The counter where a handler has got to. -/
def Reached.tickCount {σ : Type} : Reached σ → Word
  | .point s => s.kern.tickCount
  | .schedule k _ _ => k.tickCount

lemma tickCount_finish {σ : Type} (A : Arch σ) (c : Pid) (r : Reached σ) :
    (finish A c r).kern.tickCount = r.tickCount := by
  cases r with
  | point s => rfl
  | schedule k a site => exact tickCount_callSchedule A k a c site

lemma tickCount_writeLoop {σ : Type} (A : Arch σ) (a : σ) (c : Pid) (n : ℕ) (addr : Word)
    (k : Kernel numProcesses) : (writeLoop A a c n addr k).1.tickCount = k.tickCount := by
  induction n generalizing addr k with
  | zero => rfl
  | succ n ih =>
    rw [writeLoop]
    split
    · exact ih _ _
    · rfl

lemma tickCount_handleSvc {σ : Type} (A : Arch σ) (k : Kernel numProcesses) (a : σ) (c : Pid) :
    (handleSvc A k a c).tickCount = k.tickCount := by
  rw [handleSvc]
  cases Syscall.ofNum ((A.ctx a c .svc).r 7) with
  | none => rfl
  | some call =>
    cases call with
    | write =>
      have hloop := tickCount_writeLoop A a c ((A.ctx a c .svc).r 2).toNat ((A.ctx a c .svc).r 1) k
      dsimp only [sysWrite]
      split
      · split
        next k' heq => rw [heq] at hloop; exact hloop
        next k' heq => rw [heq] at hloop; exact hloop
      · rfl
    | getpid => rfl
    | yield => rfl
    | exit =>
      dsimp only [svcReturn, Reached.tickCount, Kernel.sysExit]
      cases k.current <;> rfl
    | read =>
      dsimp only [sysRead]
      split
      · rfl
      · split <;> rfl
    | ps =>
      dsimp only [sysPs]
      split
      · split <;> rfl
      · rfl
    | kill =>
      dsimp only [svcReturn, Reached.tickCount, Kernel.sysKill]
      split
      · split <;> rfl
      · rfl
    | ticks => rfl

lemma tickCount_handleFault {σ : Type} (A : Arch σ) (k : Kernel numProcesses) (a : σ) (c : Pid)
    (kind : FaultKind) (far fsr : Word) :
    (handleFault A k a c kind far fsr).tickCount = k.tickCount := by
  rw [handleFault]
  split
  · have hkill : ∀ (k : Kernel numProcesses) (name : String),
        (k.userFaultKill name).tickCount = k.tickCount := by
      intro k name
      unfold Kernel.userFaultKill
      dsimp only
      cases k.current <;> rfl
    refine (hkill _ _).trans ?_
    cases kind <;> rfl
  · rfl

lemma tickCount_readIter {σ : Type} (A : Arch σ) (k : Kernel numProcesses) (a : σ) (c : Pid)
    (buf len n : Word) (got : List Byte) :
    (readIter A k a c buf len n got).tickCount = k.tickCount := by
  have hblock : k.blockCurrent.tickCount = k.tickCount := by
    unfold Kernel.blockCurrent
    cases k.current <;> rfl
  rw [readIter]
  split
  · rcases k.rx.uartRxPop with ⟨ch, rx⟩
    dsimp only
    split
    · split
      · rfl
      · exact hblock
    · split <;> rfl
  · rfl

/-- What handles an event counts a timer interrupt, and nothing else. -/
lemma tickCount_handle {σ : Type} {A : Arch σ} {s : Sys σ} {c : Pid} {e : Event} {r : Reached σ}
    (hw : Wired b s.kern) (h : handle A b s c e = some r) :
    r.tickCount = s.kern.tickCount + BitVec.ofNat 32 (if isTick b e then 1 else 0) := by
  -- only an interrupt that is taken in USR mode can be a tick
  have hother : isTick b e = false → r.tickCount = s.kern.tickCount → r.tickCount =
      s.kern.tickCount + BitVec.ofNat 32 (if isTick b e then 1 else 0) := by
    intro he hr
    simp [he, hr]
  cases hctl : s.ctl with
  | user =>
    cases e with
    | exec f | load va rd | store va ch =>
      simp only [handle, hctl, Option.map_eq_some_iff] at h
      obtain ⟨a, -, rfl⟩ := h
      exact hother rfl rfl
    | irq ack rx =>
      simp only [handle, hctl, Option.some.injEq] at h
      subst h
      simp only [isTick, decide_eq_true_eq]
      exact tickCount_irqDispatch hw ack rx
    | svc =>
      simp only [handle, hctl, Option.some.injEq] at h
      subst h
      exact hother rfl (tickCount_handleSvc A _ _ _)
    | fault kind far fsr =>
      simp only [handle, hctl, Option.some.injEq] at h
      subst h
      exact hother rfl (tickCount_handleFault A _ _ _ _ _ _)
    | kernel => simp [handle, hctl] at h
  | readLoop buf len n got =>
    cases e with
    | kernel =>
      simp only [handle, hctl, Option.some.injEq] at h
      subst h
      exact hother rfl (tickCount_readIter A _ _ _ _ _ _ _)
    | _ => simp [handle, hctl] at h
  | blockRet buf len n got =>
    cases e with
    | kernel =>
      simp only [handle, hctl, Option.some.injEq] at h
      subst h
      exact hother rfl rfl
    | _ => simp [handle, hctl] at h
  | halted | wild => simp [handle, hctl] at h

/-- **One step** counts a timer interrupt, and nothing else. -/
lemma tickCount_step {σ : Type} {A : Arch σ} {s s' : Sys σ} {e : Event} (hw : Wired b s.kern)
    (h : step A b s e = some s') :
    s'.kern.tickCount = s.kern.tickCount + BitVec.ofNat 32 (if isTick b e then 1 else 0) := by
  rw [step] at h
  cases hc : s.kern.current with
  | none => simp [hc] at h
  | some c =>
    simp only [hc, Option.map_eq_some_iff] at h
    obtain ⟨r, hr, rfl⟩ := h
    rw [tickCount_finish]
    exact tickCount_handle hw hr

/-- **The counter counts the timer interrupts** of a run. -/
lemma Inv.tickCount_run {es : List Event} (h : Inv b s c)
    (hs : run (step procArch b) s es = some s') :
    s'.kern.tickCount = s.kern.tickCount + BitVec.ofNat 32 (tickTotal b es) := by
  induction es generalizing s c with
  | nil =>
    obtain rfl := Option.some.inj hs
    simp [tickTotal]
  | cons e es ih =>
    obtain ⟨s₁, hs₁, hrest⟩ := run_cons_some.1 hs
    obtain ⟨c₁, h₁⟩ := h.preserved hs₁
    rw [ih h₁ hrest, tickCount_step h.wired hs₁, tickTotal, tickTotal, List.countP_cons,
      BitVec.add_assoc, ← BitVec.ofNat_add, Nat.add_comm]

/-! ### `sys_ticks` -/

/-- The counter is returned as it is. -/
lemma Inv.step_ticks (h : Inv b s c) (hu : s.ctl = .user)
    (hnum : Syscall.ofNum ((s.arch.regs c).r 7) = some .ticks) :
    step procArch b s .svc = some ⟨s.kern.emit [.sysret c s.kern.tickCount],
      procArch.setRet (s.arch.enter c .svc) c s.kern.tickCount, .user⟩ := by
  have hsched : (s.kern.emit [.sysret c s.kern.tickCount]).schedule =
      (s.kern.emit [.sysret c s.kern.tickCount], none) := Kernel.schedule_idle h.idle
  simp only [step, h.current, handle, hu, handleSvc, svcFrame_r, hnum, svcReturn, finish,
    callSchedule, Kernel.sysTicks, hsched, Option.map_some]
  rfl

/-- A call of `sys_ticks` is never refused. -/
lemma not_rejected_ticks {r : Fin 13 → Word} (h : Syscall.ofNum (r 7) = some .ticks) (v : Word) :
    ¬ Rejected r v := by
  intro hr
  cases hr with
  | badNumber hn => exact absurd (h.symm.trans (ofNum_eq_none.2 hn)) (by simp)
  | write hn => exact absurd (h.symm.trans hn) (by simp)
  | ps hn => exact absurd (h.symm.trans hn) (by simp)
  | read hn => exact absurd (h.symm.trans hn) (by simp)
  | kill hn => exact absurd (h.symm.trans hn) (by simp)

end

/-- The codes of refused calls are negative. -/
lemma Rejected.neg {r : Fin 13 → Word} {v : Word} (h : Rejected r v) : v.toInt < 0 := by
  cases h <;> decide

end RingNova
