/-
# Sleeping in `sys_read`

`scheduler_block_on_input` is meant to return only after a wake-up, and there is one slot,
`blocked_reader`, for the process that sleeps.  Both are promises about the rest of the
system: the first is broken when nobody else can run, because `schedule` then returns to
its caller at once, and the second when a process falls asleep while another one sleeps.
`returnsWoken_run_iff` and `oneSleeper_run_iff` say that there are no other ways to break them.
-/
import RingNova.System.Outcome

namespace RingNova

/-- The history ends with the wake-up of a process that had been put to sleep, and with
its dispatch. -/
def JustWoken (k : Kernel numProcesses) (p : Pid) : Prop :=
  ∃ l byHint, k.marks = l ++ [.wake p, .dispatch p byHint] ∧ .block p ∈ l

section

variable {σ : Type}

/-- When `scheduler_block_on_input` returns, its caller has been woken and dispatched, and
the loop of `sys_read` is never at work for a sleeping process. -/
def ReturnsWoken (s : Sys σ) : Prop :=
  match s.ctl with
  | .blockRet _ _ _ _ => ∃ p, s.kern.current = some p ∧ s.kern.st p = .running ∧ JustWoken s.kern p
  | .readLoop _ _ _ _ => ∀ p, s.kern.current = some p → s.kern.st p ≠ .blocked
  | _ => True

/-- In USR mode the only process that can be asleep is the one in `blocked_reader`. -/
def OneSleeper (s : Sys σ) : Prop :=
  s.ctl = .user → ∀ p, s.kern.st p = .blocked → s.kern.blockedReader = some p

/-- A process falls asleep while another one sleeps and a third one can run. -/
def SecondSleeper (s : Sys σ) : Prop :=
  BlocksOnInput s ∧ (∃ p, s.kern.current ≠ some p ∧ s.kern.st p = .blocked) ∧
    OtherRunnable s.kern

end

section Step

variable {b : Board} {s s' : Sys ProcMachine} {c : Pid} {e : Event} {act : Act} {site : Cont}
  {k : Kernel numProcesses} {a : ProcMachine} {m : List (Obs numProcesses)}

/-! ### The history of a sleeping process -/

/-- Every sleeping process has been put to sleep. -/
def SleepersLogged (k : Kernel numProcesses) : Prop :=
  ∀ p, k.st p = .blocked → .block p ∈ k.marks

lemma Call.block_mem (hcall : Call b s c e .sleep site k a m) : .block c ∈ m := by
  generalize hact : Act.sleep = act at hcall
  cases hcall with
  | block => simp
  | irq ack rx hu =>
    rcases irqAct_cases b s.kern ack with h | h | ⟨q, h, -⟩ <;> rw [h] at hact <;> cases hact
  | svc v hu hact' =>
    rcases svcAct_cases hact' with rfl | rfl | ⟨q, rfl⟩ <;> cases hact
  | _ => cases hact

lemma Call.wake_mem {p : Pid} (hcall : Call b s c e (.wake p) site k a m) :
    ∃ l, m = l ++ [.wake p] := by
  generalize hact : Act.wake p = act at hcall
  cases hcall with
  | irq ack rx hu =>
    rcases irqAct_cases b s.kern ack with h | h | ⟨q, h, hack, -⟩ <;> rw [h] at hact <;>
      cases hact
    have hw : wakeAct s.kern = .wake p := by rw [← h, irqAct, if_pos hack]
    exact ⟨(s.kern.rx.accepted rx).map .rxAccept, by rw [irqMarks, if_pos hack, hw]; rfl⟩
  | svc v hu hact' =>
    rcases svcAct_cases hact' with rfl | rfl | ⟨q, rfl⟩ <;> cases hact
  | _ => cases hact

/-- A process that sleeps after a call of `schedule` did so before, or has just fallen
asleep. -/
lemma Outcome.blocked {q q' : Core} {cont : Pid → Cont} {ctl : Ctl}
    {l : List (Obs numProcesses)} (ho : Outcome q c site cont q' ctl l) {p : Pid}
    (hp : q'.st p = .blocked) : q.st p = .blocked := by
  cases ho with
  | idle => exact hp
  | alone => exact hp
  | switch n byHint hreq hn hready =>
    simp only [Core.switch] at hp
    split at hp
    · exact absurd hp (by simp)
    · split at hp
      · exact absurd hp (by simp)
      · exact hp

lemma Core.after_blocked {q : Core} {p : Pid} (hp : (q.after c act).st p = .blocked) :
    q.st p = .blocked ∨ act = .sleep ∧ p = c := by
  cases act with
  | nothing => exact Or.inl hp
  | request => exact Or.inl hp
  | wake n =>
    by_cases hpn : p = n
    · simp [Core.after, hpn] at hp
    · exact Or.inl (by simpa [Core.after, hpn] using hp)
  | die n =>
    by_cases hpn : p = n
    · simp [Core.after, hpn] at hp
    · exact Or.inl (by simpa [Core.after, hpn] using hp)
  | sleep =>
    by_cases hpc : p = c
    · exact Or.inr ⟨rfl, hpc⟩
    · exact Or.inl (by simpa [Core.after, hpc] using hp)

lemma SleepersLogged.step (hl : SleepersLogged s.kern) (h : Inv b s c)
    (hs : RingNova.step procArch b s e = some s') : SleepersLogged s'.kern := by
  intro p hp
  rcases h.step_outcome hs with hq | ⟨act, site, k, a, m, l, hcall, ho, hm, -, -⟩
  · rw [hq.marks]
    exact hl p ((congrFun (congrArg Core.st hq.core) p).symm.trans hp)
  · rw [hm]
    rcases Core.after_blocked (ho.blocked hp) with hp' | ⟨rfl, rfl⟩
    · simp [hl p hp']
    · simp [hcall.block_mem]

/-! ### Returns from `scheduler_block_on_input` -/

/-- `scheduler_block_on_input` is called to fall asleep. -/
lemma Call.ctl_site (hcall : Call b s c e act site k a m) (hact : act ≠ .sleep) :
    site.ctl = .user ∨ site.ctl = .halted := by
  cases hcall with
  | irq => exact Or.inl rfl
  | svc => exact Or.inl rfl
  | fault => exact Or.inr rfl
  | block => exact absurd rfl hact
  | readReturn => exact Or.inl rfl

lemma Call.of_sleep (hcall : Call b s c e .sleep site k a m) :
    ∃ buf len n got, s.ctl = .readLoop buf len n got ∧ site = .blockOnInput buf len n got := by
  obtain ⟨buf, len, n, got, hctl, -⟩ := hcall.blocksOnInput_iff.2 rfl
  refine ⟨buf, len, n, got, hctl, ?_⟩
  generalize hact : Act.sleep = act at hcall
  cases hcall with
  | block hctl' => 
    obtain ⟨rfl, rfl, rfl, rfl⟩ := Ctl.readLoop.inj (hctl.symm.trans hctl')
    rfl
  | readReturn => exact absurd hact (by simp)
  | irq ack rx hu => exact absurd (hctl.symm.trans hu) (by simp)
  | svc v hu => exact absurd (hctl.symm.trans hu) (by simp)
  | fault kind far fsr hu => exact absurd (hctl.symm.trans hu) (by simp)

lemma returnsWoken_of_ctl (h : s.ctl = .user ∨ s.ctl = .halted) : ReturnsWoken s := by
  rcases h with h | h <;> simp [ReturnsWoken, h]

/-- A step that calls `schedule` ends in a return from `scheduler_block_on_input` by a
wake-up, or because the caller fell asleep with nobody to switch to. -/
lemma Call.returnsWoken_iff (hcall : Call b s c e act site k a m) (h : Inv b s c)
    (hl : SleepersLogged s.kern) {l : List (Obs numProcesses)}
    (ho : Outcome (s.kern.core.after c act) c site s.arch.cont s'.kern.core s'.ctl l)
    (hm : s'.kern.marks = s.kern.marks ++ m ++ l) :
    ReturnsWoken s' ↔ (BlocksOnInput s → OtherRunnable s.kern) := by
  rw [hcall.blocksOnInput_iff, otherRunnable_iff h.current]
  generalize hq' : s'.kern.core = q' at ho
  generalize hctl : s'.ctl = ctl' at ho
  have hst' : ∀ p, s'.kern.st p = q'.st p := fun p => congrFun (congrArg Core.st hq') p
  have hsleep : act = .sleep → ∀ n, n ≠ c → (s.kern.core.after c act).st n = s.kern.st n := by
    rintro rfl n hn
    exact Function.update_of_ne hn _ _
  cases ho with
  | idle hreq =>
    have hact : act ≠ .sleep := by
      rintro rfl
      exact absurd hreq (by simp [Core.after])
    have hw : ReturnsWoken s' := returnsWoken_of_ctl (hctl ▸ hcall.ctl_site hact)
    exact ⟨fun _ hx => absurd hx hact, fun _ => hw⟩
  | alone hreq hnone =>
    by_cases hact : act = .sleep
    · -- asleep, but still running
      have hnot : ¬ ∃ p, p ≠ c ∧ s.kern.Runnable p := by
        rintro ⟨p, hp, hrun⟩
        refine hnone p hp ?_
        rw [Core.Runnable, hsleep hact p hp]
        exact hrun
      refine ⟨fun hw => absurd hw ?_, fun hx => absurd (hx hact) hnot⟩
      subst hact
      have hb : s'.kern.st c = .blocked := by
        rw [hst']
        exact Function.update_self _ _ _
      have hcur : s'.kern.current = some c := (congrArg Core.current hq').trans h.current
      obtain ⟨buf, len, n, got, -, rfl⟩ := hcall.of_sleep
      have hctl' : s'.ctl = .blockRet buf len n got := hctl
      simp only [ReturnsWoken, hctl']
      rintro ⟨p, hp, hrun, -⟩
      obtain rfl : c = p := Option.some.inj (hcur.symm.trans hp)
      exact absurd (hb.symm.trans hrun) (by simp)
    · have hw : ReturnsWoken s' := returnsWoken_of_ctl (hctl ▸ hcall.ctl_site hact)
      exact ⟨fun _ hx => absurd hx hact, fun _ => hw⟩
  | switch n byHint hreq hn hready hpref hcont =>
    refine ⟨fun _ hact => ⟨n, hn, Or.inl ((hsleep hact n hn).symm.trans hready)⟩, ?_⟩
    intro _
    rcases hcont with hret | ⟨⟨buf, len, heq, -⟩, hhint⟩
    · exact returnsWoken_of_ctl (Or.inl (hctl.trans hret.ctl_eq))
    · obtain rfl := h.hint_after hhint
      obtain ⟨-, -, -, hblk⟩ := hcall.of_wake
      obtain ⟨l', rfl⟩ := hcall.wake_mem
      have hctl' : s'.ctl = .blockRet buf len 0#32 [] := by rw [hctl, heq]; rfl
      simp only [ReturnsWoken, hctl']
      refine ⟨n, congrArg Core.current hq', by rw [hst']; simp [Core.switch],
        s.kern.marks ++ l', byHint, ?_, ?_⟩
      · rw [hm]
        simp
      · simp [hl n hblk]

lemma Inv.returnsWoken_step_iff (h : Inv b s c) (hl : SleepersLogged s.kern)
    (hw : ReturnsWoken s) (hs : step procArch b s e = some s') :
    ReturnsWoken s' ↔ (BlocksOnInput s → OtherRunnable s.kern) := by
  rcases h.step_outcome hs with hq | ⟨act, site, k, a, m, l, hcall, ho, hm, -, -⟩
  · refine ⟨fun _ hx => absurd hx hq.not_blocksOnInput, ?_⟩
    intro _
    have hctl := h.atCtl
    cases hq with
    | startRead hu =>
      rw [hu] at hctl
      intro p hp
      obtain rfl : c = p := Option.some.inj (h.current.symm.trans hp)
      exact hctl
    | pop hctl' =>
      simp only [ReturnsWoken, hctl'] at hw
      exact hw
    | retry hctl' =>
      simp only [ReturnsWoken, hctl'] at hw
      obtain ⟨p, hp, hrun, -⟩ := hw
      intro q hq hb
      obtain rfl : p = q := Option.some.inj (hp.symm.trans hq)
      exact absurd (hrun.symm.trans hb) (by simp)
    | _ => trivial
  · exact hcall.returnsWoken_iff h hl ho hm

/-! ### The slot `blocked_reader` -/

/-- Only `scheduler_block_on_input` is called for a process that is asleep. -/
lemma Call.not_blocked (hcall : Call b s c e act site k a m) (h : Inv b s c)
    (hact : act ≠ .sleep) : s.kern.st c ≠ .blocked := by
  have hctl := h.atCtl
  have hsite := (hcall.callReady h).site
  cases hcall with
  | irq ack rx hu => rwa [hu] at hctl
  | svc v hu => rwa [hu] at hctl
  | fault kind far fsr hu => rwa [hu] at hctl
  | block => exact absurd rfl hact
  | readReturn => exact hsite

/-- Every sleeping process is the one in `blocked_reader`. -/
def SlotHolds (q : Core) : Prop := ∀ p, q.st p = .blocked → q.blockedReader = some p

lemma Outcome.blockedReader {q q' : Core} {cont : Pid → Cont} {ctl : Ctl}
    {l : List (Obs numProcesses)} (ho : Outcome q c site cont q' ctl l) :
    q'.blockedReader = q.blockedReader := by
  cases ho <;> rfl

lemma Outcome.slotHolds {q q' : Core} {cont : Pid → Cont} {ctl : Ctl}
    {l : List (Obs numProcesses)} (ho : Outcome q c site cont q' ctl l) (hq : SlotHolds q) :
    SlotHolds q' := by
  intro p hp
  rw [ho.blockedReader]
  exact hq p (ho.blocked hp)

/-- A change other than falling asleep keeps the slot right. -/
lemma Call.slotHolds_after (hcall : Call b s c e act site k a m) (hact : act ≠ .sleep)
    (hslot : SlotHolds s.kern.core) : SlotHolds (s.kern.core.after c act) := by
  intro p hp
  rcases Core.after_blocked hp with hp' | ⟨hsl, -⟩
  · have hb := hslot p hp'
    cases act with
    | wake q =>
      obtain ⟨-, -, hq, -⟩ := hcall.of_wake
      obtain rfl : q = p := Option.some.inj (hq.symm.trans hb)
      simp [Core.after] at hp
    | sleep => exact absurd rfl hact
    | _ => exact hb
  · exact absurd hsl hact

/-- The slot is right, or the current process sleeps and keeps the CPU for ever. -/
def SlotInv (s : Sys ProcMachine) (c : Pid) : Prop :=
  s.kern.st c = .blocked ∨ SlotHolds s.kern.core

/-- A process falls asleep and the CPU goes to another one: the slot is right afterwards
exactly when nobody slept before. -/
lemma Inv.slot_sleep_switch (h : Inv b s c) {s' : Sys ProcMachine} {ctl : Ctl}
    {l : List (Obs numProcesses)}
    (ho : Outcome (s.kern.core.after c .sleep) c site s.arch.cont s'.kern.core ctl l) :
    SlotHolds s'.kern.core ↔ ¬ ∃ p, s.kern.current ≠ some p ∧ s.kern.st p = .blocked := by
  have hb : s'.kern.core.blockedReader = some c := ho.blockedReader
  have hother : ∀ p, p ≠ c → (s.kern.core.after c .sleep).st p = s.kern.st p := fun p hp =>
    Function.update_of_ne hp _ _
  constructor
  · rintro hslot ⟨p, hp, hst⟩
    have hpc : p ≠ c := by
      rintro rfl
      exact hp h.current
    have hst' : s'.kern.core.st p = .blocked := by
      rw [ho.st_eq (by simp [Core.Runnable, hother p hpc, hst]), hother p hpc, hst]
    exact hpc (Option.some.inj (hb.symm.trans (hslot p hst'))).symm
  · intro hnone p hp
    rw [hb]
    rcases Core.after_blocked (ho.blocked hp) with hp' | ⟨-, rfl⟩
    · by_cases hpc : p = c
      · rw [hpc]
      · exact absurd ⟨p, by rw [h.current]; simpa [eq_comm] using hpc, hp'⟩ hnone
    · rfl

/-- After falling asleep: nobody can run and the caller keeps the CPU, or somebody else
is back in USR mode. -/
lemma Call.sleep_cases (hcall : Call b s c e .sleep site k a m) (h : Inv b s c) {q' : Core}
    {ctl : Ctl} {l : List (Obs numProcesses)}
    (ho : Outcome (s.kern.core.after c .sleep) c site s.arch.cont q' ctl l) :
    (ctl ≠ .user ∧ q'.current = some c ∧ ¬ OtherRunnable s.kern) ∨
      (ctl = .user ∧ OtherRunnable s.kern) := by
  have hrun : ∀ p, p ≠ c → ((s.kern.core.after c .sleep).Runnable p ↔ s.kern.Runnable p) := by
    intro p hp
    have hst : (s.kern.core.after c .sleep).st p = s.kern.st p := Function.update_of_ne hp _ _
    rw [Kernel.Runnable, Core.Runnable, hst]
  rw [otherRunnable_iff h.current]
  cases ho with
  | idle hreq => exact absurd hreq (by simp [Core.after])
  | alone hreq hnone =>
    obtain ⟨buf, len, n, got, -, rfl⟩ := hcall.of_sleep
    refine Or.inl ⟨by simp [Cont.ctl], h.current, ?_⟩
    rintro ⟨p, hp, hr⟩
    exact hnone p hp ((hrun p hp).2 hr)
  | switch n byHint hreq hn hready hpref hcont =>
    refine Or.inr ⟨?_, n, hn, (hrun n hn).1 (Or.inl hready)⟩
    rcases hcont with hret | ⟨-, hhint⟩
    · exact hret.ctl_eq
    · exact absurd (h.hint_after hhint) (by simp)

lemma Inv.oneSleeper_step_iff (h : Inv b s c) (hslot : SlotInv s c)
    (hs : step procArch b s e = some s') :
    (OneSleeper s' ↔ ¬ SecondSleeper s) ∧
      (OneSleeper s' → ∃ c', Inv b s' c' ∧ SlotInv s' c') := by
  obtain ⟨c', h'⟩ := h.preserved hs
  rcases h.step_outcome hs with hq | ⟨act, site, k, a, m, l, hcall, ho, -, -, -⟩
  · -- the scheduling state is untouched
    have hcc : c' = c := Option.some.inj (h'.current.symm.trans
      ((congrArg Core.current hq.core).trans h.current))
    subst hcc
    have hinv : SlotInv s' c' := by
      rw [SlotInv, hq.core]
      refine hslot.imp_left ?_
      intro hb
      exact (congrFun (congrArg Core.st hq.core) c').trans hb
    refine ⟨⟨fun _ hx => hq.not_blocksOnInput hx.1, ?_⟩, fun _ => ⟨c', h', hinv⟩⟩
    intro _ hu
    have hnb := h'.atCtl
    rw [hu] at hnb
    exact hinv.resolve_left hnb
  · by_cases hact : act = .sleep
    · subst hact
      have hblk := hcall.blocksOnInput_iff.2 rfl
      have hiff := h.slot_sleep_switch ho
      rcases hcall.sleep_cases h ho with ⟨hctl, hcur, hnone⟩ | ⟨hctl, hrun⟩
      · -- stuck: USR mode is never reached again
        refine ⟨⟨fun _ hx => hnone hx.2.2, fun _ hu => absurd hu hctl⟩, fun _ => ⟨c', h', ?_⟩⟩
        obtain rfl : c = c' := Option.some.inj (hcur.symm.trans h'.current)
        have hafter : (s.kern.core.after c .sleep).st c = .blocked := Function.update_self _ _ _
        exact Or.inl ((ho.st_eq (by simp [Core.Runnable, hafter])).trans hafter)
      · have hone : OneSleeper s' ↔ SlotHolds s'.kern.core :=
          ⟨fun hx => hx hctl, fun hx _ => hx⟩
        refine ⟨?_, fun hx => ⟨c', h', Or.inr (hone.1 hx)⟩⟩
        rw [hone, hiff, SecondSleeper]
        simp [hblk, hrun]
    · have hnb := hcall.not_blocked h hact
      have hs' : SlotHolds s'.kern.core :=
        ho.slotHolds (hcall.slotHolds_after hact (hslot.resolve_left hnb))
      exact ⟨⟨fun _ hx => hact (hcall.blocksOnInput_iff.1 hx.1), fun _ _ => hs'⟩,
        fun _ => ⟨c', h', Or.inr hs'⟩⟩

end Step

/-! ### Runs -/

section Runs

variable {b : Board} (L : Layout b) (umem : Pid → Word → Byte) (es : List Event)

/-- A run returns from `scheduler_block_on_input` only after wake-ups exactly when every
process that falls asleep leaves somebody who can run. -/
theorem returnsWoken_run_iff :
    Trace.AllStates (step procArch b) ReturnsWoken (procSys L umem) es ↔
      Trace.AllSteps (step procArch b) (fun s _ _ => BlocksOnInput s → OtherRunnable s.kern)
        (procSys L umem) es := by
  refine Trace.allStates_iff_allSteps
    (I := fun s => (∃ c, Inv b s c) ∧ SleepersLogged s.kern ∧ ReturnsWoken s) ?_ ?_ es
    ⟨⟨0, inv_procSys L umem⟩, ?_, trivial⟩ trivial
  · rintro s e s' ⟨⟨c, h⟩, hl, hw⟩ hs hC
    exact ⟨h.preserved hs, hl.step h hs, (h.returnsWoken_step_iff hl hw hs).2 hC⟩
  · rintro s e s' ⟨⟨c, h⟩, hl, hw⟩ hs
    exact h.returnsWoken_step_iff hl hw hs
  · exact fun p hp => absurd hp (by simp [procSys, Kernel.st, bootKernel, initPcb])

/-- In USR mode the slot always names the one sleeping process exactly when nobody falls
asleep as a second sleeper. -/
theorem oneSleeper_run_iff :
    Trace.AllStates (step procArch b) OneSleeper (procSys L umem) es ↔
      Trace.AllSteps (step procArch b) (fun s _ _ => ¬ SecondSleeper s) (procSys L umem) es := by
  have hready : ∀ p, (procSys L umem).kern.st p ≠ .blocked := fun p => by
    simp [procSys, Kernel.st, bootKernel, initPcb]
  refine Trace.allStates_iff_allSteps (I := fun s => ∃ c, Inv b s c ∧ SlotInv s c) ?_ ?_ es
    ⟨0, inv_procSys L umem, Or.inr fun p hp => absurd hp (hready p)⟩
    fun _ p hp => absurd hp (hready p)
  · rintro s e s' ⟨c, h, hslot⟩ hs hC
    obtain ⟨hiff, hinv⟩ := h.oneSleeper_step_iff hslot hs
    exact hinv (hiff.2 hC)
  · rintro s e s' ⟨c, h, hslot⟩ hs
    exact (h.oneSleeper_step_iff hslot hs).1

end Runs

end RingNova
