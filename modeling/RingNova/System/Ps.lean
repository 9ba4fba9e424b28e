/-
# `sys_ps` and the states it reports

What `sys_ps` leaves in the caller's memory, and what the state of the caller is when it calls.
`perform_switch` marks the process it dispatches as `TASK_RUNNING`, but `process_first_run` does
not: the first process runs as `TASK_READY` until it has been switched away from (`Marked`).
-/
import RingNova.Kernel.Ps
import RingNova.System.Dispatch
import RingNova.System.Input
import RingNova.System.Preemption

namespace RingNova

/-! ### What is stored -/

/-- The addresses of a range. -/
def InRange (addr : Word) (n : ℕ) (va : Word) : Prop :=
  addr.toNat ≤ va.toNat ∧ va.toNat < addr.toNat + n

section Store

variable {a : ProcMachine} {c : Pid}

lemma umem_setByte (a : ProcMachine) (c : Pid) (va : Word) (ch : Byte) :
    (a.setByte c va ch).umem c = Function.update (a.umem c) va ch := by
  simp [ProcMachine.setByte]

/-- Outside its range a store loop changes nothing. -/
lemma storeOut_outside {bs : List Byte} {addr va : Word} (h : addr.toNat + bs.length < 2 ^ 32)
    (hva : ¬ InRange addr bs.length va) : (storeOut a c bs addr).umem c va = a.umem c va := by
  induction bs generalizing a addr with
  | nil => rfl
  | cons ch bs ih =>
    rw [List.length_cons] at h hva
    have hsucc : (addr + 1#32).toNat = addr.toNat + 1 := by
      rw [BitVec.toNat_add, show (1#32).toNat = 1 from rfl]
      omega
    have hne : va ≠ addr := by
      rintro rfl
      exact hva ⟨le_refl _, by omega⟩
    rw [storeOut, ih (by omega), umem_setByte, Function.update_of_ne hne]
    rintro ⟨h1, h2⟩
    exact hva ⟨by omega, by omega⟩

/-- Inside it are the bytes. -/
lemma storeOut_stored {bs : List Byte} {addr : Word} (h : addr.toNat + bs.length < 2 ^ 32) :
    Stored ((storeOut a c bs addr).umem c) addr bs := by
  induction bs generalizing a addr with
  | nil => exact Stored.nil _ _
  | cons ch bs ih =>
    rw [List.length_cons] at h
    have hsucc : (addr + 1#32).toNat = addr.toNat + 1 := by
      rw [BitVec.toNat_add, show (1#32).toNat = 1 from rfl]
      omega
    intro i hi
    cases i with
    | zero =>
      have hout : ¬ InRange (addr + 1#32) bs.length addr := fun h' => by
        have := h'.1
        omega
      show (storeOut (a.setByte c addr ch) c bs (addr + 1#32)).umem c (addr + 0#32) = ch
      rw [BitVec.add_zero, storeOut_outside (by omega) hout, umem_setByte]
      simp
    | succ i =>
      have hstored : Stored ((storeOut (a.setByte c addr ch) c bs (addr + 1#32)).umem c)
          (addr + 1#32) bs := ih (by omega)
      have hrest := hstored i (by rw [List.length_cons] at hi; omega)
      have haddr : addr + BitVec.ofNat 32 (i + 1) = addr + 1#32 + BitVec.ofNat 32 i := by
        rw [BitVec.add_assoc, Nat.add_comm i 1, BitVec.ofNat_add]
      rw [haddr]
      exact hrest

end Store

/-! ### The step of a call -/

section Step

variable {b : Board} {s s' : Sys ProcMachine} {c : Pid} {e : Event}

/-- A call of `sys_ps` with a valid buffer returns at once; it has stored its bytes, and nothing
else has changed. -/
lemma Inv.step_ps (h : Inv b s c) (hu : s.ctl = .user)
    (hnum : Syscall.ofNum ((s.arch.regs c).r 7) = some .ps)
    (hv : validUserPtr ((s.arch.regs c).r 0) ((s.arch.regs c).r 1) = true) :
    step procArch b s .svc =
      some ⟨s.kern.emit
          [.sysret c (BitVec.ofNat 32 (s.kern.sysPsBytes ((s.arch.regs c).r 1)).length)],
        procArch.setRet (storeOut (s.arch.enter c .svc) c
          (s.kern.sysPsBytes ((s.arch.regs c).r 1)) ((s.arch.regs c).r 0)) c
          (BitVec.ofNat 32 (s.kern.sysPsBytes ((s.arch.regs c).r 1)).length), .user⟩ := by
  obtain ⟨h1, h2⟩ := (validUserPtr_iff _ _).1 hv
  have hlen := length_sysPsBytes s.kern ((s.arch.regs c).r 1)
  have hloop := storeLoop_proc c (s.kern.sysPsBytes ((s.arch.regs c).r 1)) ((s.arch.regs c).r 0)
    (s.arch.enter c .svc) ⟨h1, by omega⟩
  have hsched : ∀ v, (s.kern.emit [.sysret c v]).schedule = (s.kern.emit [.sysret c v], none) :=
    fun v => Kernel.schedule_idle h.idle
  simp only [step, h.current, handle, hu, handleSvc, svcFrame_r, hnum, sysPs, hv, if_true,
    Option.map_some]
  rw [show procArch.enter s.arch c .svc = s.arch.enter c .svc from rfl, hloop]
  simp only [svcReturn, finish, callSchedule, hsched]
  rfl

/-! ### Who is marked as running -/

/-- Since the first dispatch the current process is never `TASK_READY`; before it, it is never
`TASK_RUNNING`. -/
structure Marked (k : Kernel numProcesses) (c : Pid) : Prop where
  dispatched : k.dispatches ≠ [] → k.st c ≠ .ready
  fresh : k.dispatches = [] → k.st c ≠ .running

/-- What is done before `schedule` is called does not mark the current process as ready or
running. -/
lemma Switching.st_current {act : Act} {site : Cont} {k : Kernel numProcesses} {a : ProcMachine}
    {m l : List (Obs numProcesses)} (hsw : Switching b s c e s' act site k a m l)
    (h : Inv b s c) :
    (s.kern.core.after c act).st c = s.kern.st c ∨ (s.kern.core.after c act).st c = .dead ∨
      (s.kern.core.after c act).st c = .blocked := by
  cases act with
  | nothing => exact Or.inl rfl
  | request => exact Or.inl rfl
  | wake p =>
    -- the woken process was asleep, and the current one is in USR mode
    obtain ⟨-, hu, -, hst⟩ := hsw.call.of_wake
    have hne : c ≠ p := by
      rintro rfl
      have hat := h.atCtl
      rw [hu] at hat
      exact hat hst
    exact Or.inl (Function.update_of_ne hne _ _)
  | die p =>
    by_cases hp : c = p
    · subst hp
      exact Or.inr (Or.inl (Function.update_self _ _ _))
    · exact Or.inl (Function.update_of_ne hp _ _)
  | sleep => exact Or.inr (Or.inr (Function.update_self _ _ _))

/-- If nobody is dispatched, the mark stays right. -/
lemma Marked.stay {k' : Kernel numProcesses} (hm : Marked s.kern c)
    (hd : k'.dispatches = s.kern.dispatches)
    (hst : k'.st c = s.kern.st c ∨ k'.st c = .dead ∨ k'.st c = .blocked) : Marked k' c := by
  constructor
  · intro hne
    rw [hd] at hne
    rcases hst with h | h | h <;> rw [h]
    · exact hm.dispatched hne
    all_goals simp
  · intro heq
    rw [hd] at heq
    rcases hst with h | h | h <;> rw [h]
    · exact hm.fresh heq
    all_goals simp

lemma Marked.step (hm : Marked s.kern c) (h : Inv b s c) (hs : step procArch b s e = some s') :
    ∃ c', s'.kern.current = some c' ∧ Marked s'.kern c' := by
  rcases h.step_outcome hs with hq | ⟨act, site, k, a, m, l, hsw⟩
  · have hcur := (congrArg Core.current hq.core).trans h.current
    exact ⟨c, hcur, hm.stay hq.dispatches (Or.inl (congrFun (congrArg Core.st hq.core) c))⟩
  · have hst := hsw.st_current h
    have hcur : (s.kern.core.after c act).current = some c := by
      cases act <;> exact h.current
    have hd := hsw.dispatches
    have ho := hsw.outcome
    generalize hq : s'.kern.core = q at ho
    generalize s'.ctl = ctl at ho
    have hcurrent : s'.kern.current = q.current := congrArg Core.current hq
    have hstate : s'.kern.st = q.st := congrArg Core.st hq
    cases ho with
    | idle =>
      refine ⟨c, hcurrent.trans hcur, hm.stay (by simpa using hd) ?_⟩
      rw [hstate]
      exact hst
    | alone =>
      refine ⟨c, hcurrent.trans hcur, hm.stay (by simpa using hd) ?_⟩
      rw [hstate]
      exact hst
    | switch n byHint hreq hn hready =>
      -- the dispatched process is marked as running
      refine ⟨n, hcurrent, ?_, ?_⟩
      · intro _
        rw [hstate]
        simp [Core.switch]
      · intro hnil
        rw [hnil] at hd
        exact absurd hd.symm (by simp [Obs.dispatchOf])

variable {L : Layout b} {umem : Pid → Word → Byte} {t : Sys ProcMachine}

/-- **In every reachable state the mark is right.** -/
theorem marked_of_reachable (hr : Trace.Reachable (RingNova.step procArch b) (procSys L umem) t) :
    ∃ c, Inv b t c ∧ Marked t.kern c := by
  refine hr.induct (I := fun t => ∃ c, Inv b t c ∧ Marked t.kern c) ?_ ?_
  · exact ⟨0, inv_procSys L umem, fun h => absurd rfl h, fun _ => by simp [procSys, bootKernel,
      Kernel.st, initPcb]⟩
  · rintro s e s' ⟨c, hinv, hm⟩ hs
    obtain ⟨c', hcur, hm'⟩ := hm.step hinv hs
    obtain ⟨c'', hinv'⟩ := hinv.preserved hs
    obtain rfl : c'' = c' := Option.some.inj (hinv'.current.symm.trans hcur)
    exact ⟨c'', hinv', hm'⟩

/-- Only the current process can be marked as running; a live one in USR mode is, exactly if
there has been a dispatch. -/
lemma Marked.running_iff (hm : Marked s.kern c) (h : Inv b s c) (hu : s.ctl = .user)
    (hlive : s.kern.st c ≠ .dead) :
    (∀ p, s.kern.st p = .running ↔ p = c) ↔ s.kern.dispatches ≠ [] := by
  have hnot : s.kern.st c ≠ .blocked := by
    have hat := h.atCtl
    rw [hu] at hat
    exact hat
  constructor
  · intro hall hnil
    exact hm.fresh hnil ((hall c).2 rfl)
  · intro hne p
    constructor
    · intro hrun
      by_contra hp
      have hpark := h.parked p hp
      rw [hrun] at hpark
      exact hpark
    · rintro rfl
      have hready := hm.dispatched hne
      cases hst : s.kern.st p with
      | running => rfl
      | ready => exact absurd hst hready
      | blocked => exact absurd hst hnot
      | dead => exact absurd hst hlive

end Step

end RingNova
