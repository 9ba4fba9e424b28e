/-
# A single reader

The system as it is documented: only one process, the shell, calls `sys_read`.  Then the
slot `blocked_reader` is enough.  Whenever the CPU is in USR mode and the reader is asleep,
there is nothing to read and the slot names it, so that the next receive interrupt gives it
the CPU, ahead of everybody else (`ReaderInv.irq`); and with at least one byte in the ring
its `sys_read` returns (`Inv.read_finishes`).
-/
import RingNova.System.Sleep

namespace RingNova

/-- The next step is a `sys_read`. -/
def IssuesRead {σ : Type} (A : Arch σ) (s : Sys σ) (e : Event) : Prop :=
  ∃ c, s.kern.current = some c ∧ s.ctl = .user ∧ e = .svc ∧
    Syscall.ofNum ((A.ctx (A.enter s.arch c .svc) c .svc).r 7) = some .read

section Step

variable {b : Board} {s s' : Sys ProcMachine} {c : Pid} {e : Event} {act : Act} {site : Cont}
  {k : Kernel numProcesses} {a : ProcMachine} {m : List (Obs numProcesses)}

/-- With `r` the only process that reads: `r` is the only one in `sys_read`, and the only
one that sleeps, with nothing to read and its name in the slot. -/
structure ReaderInv (b : Board) (r : Pid) (s : Sys ProcMachine) (c : Pid) : Prop where
  inv : Inv b s c
  reading : ∀ buf len n got,
    s.ctl = .readLoop buf len n got ∨ s.ctl = .blockRet buf len n got → c = r
  sleeping : ∀ p, s.kern.st p = .blocked →
    p = r ∧ s.kern.blockedReader = some r ∧ s.kern.rx.contents = []

variable {r : Pid}

lemma ReaderInv.quiet (h : ReaderInv b r s c) (hq : Quiet s c e s')
    (hread : IssuesRead procArch s e → s.kern.current = some r) : ReaderInv b r s' c := by
  refine ⟨hq.inv h.inv, ?_, ?_⟩
  · intro buf len n got hctl
    cases hq with
    | startRead hu hnum =>
      have hr := hread ⟨c, h.inv.current, hu, rfl, by rw [svcFrame_r, hnum]⟩
      exact Option.some.inj (h.inv.current.symm.trans hr)
    | pop hctl' => exact h.reading _ _ _ _ (Or.inl hctl')
    | retry hctl' => exact h.reading _ _ _ _ (Or.inr hctl')
    | _ => simp at hctl
  · intro p hp
    have hst : s.kern.st p = .blocked := (congrFun (congrArg Core.st hq.core) p).symm.trans hp
    obtain ⟨rfl, hb, hempty⟩ := h.sleeping p hst
    refine ⟨rfl, (congrArg Core.blockedReader hq.core).trans hb, ?_⟩
    cases hq with
    | pop hctl' hn hring => exact absurd (hempty.symm.trans hring) (by simp)
    | _ => exact hempty

/-- The ring changes only in the receive interrupt, which also tries to wake a reader. -/
lemma Call.rx_cases (hcall : Call b s c e act site k a m) (h : Inv b s c) :
    k.rx = s.kern.rx ∨
      ∃ ack rx, e = .irq ack rx ∧ k.rx = s.kern.rx.pushAll rx ∧ act = wakeAct s.kern := by
  cases hcall with
  | irq ack rx hu =>
    have hrx := (irqDispatch_spec h.wired ack rx c).2.1
    by_cases hack : b.getActive ack = b.irqUart0
    · rw [irqRing, if_pos hack] at hrx
      exact Or.inr ⟨ack, rx, rfl, hrx, by rw [irqAct, if_pos hack]⟩
    · rw [irqRing, if_neg hack] at hrx
      exact Or.inl hrx
  | svc v hu hact hdone => exact Or.inl hdone.rx
  | fault kind far fsr hu => exact Or.inl (userFaultKill_spec h.current kind far fsr).2.1
  | block => exact Or.inl (blockCurrent_spec h.current).2.1
  | readReturn => exact Or.inl rfl

lemma wakeAct_of_blocked {k : Kernel numProcesses} {p : Pid} (hb : k.blockedReader = some p)
    (hp : k.st p = .blocked) : wakeAct k = .wake p := by
  simp [wakeAct, hb, hp]

/-- The ring and the slot at a call of `schedule`. -/
lemma ReaderInv.sleeping_call (h : ReaderInv b r s c) (hcall : Call b s c e act site k a m)
    {p : Pid} (hp : (s.kern.core.after c act).st p = .blocked) :
    p = r ∧ (s.kern.core.after c act).blockedReader = some r ∧ k.rx.contents = [] := by
  by_cases hact : act = .sleep
  · subst hact
    obtain ⟨buf, len, n, got, hctl, -⟩ := hcall.of_sleep
    obtain rfl := h.reading buf len n got (Or.inl hctl)
    have hempty : k.rx.contents = [] := by
      obtain ⟨_, _, _, _, _, _, _, hempty⟩ := hcall.blocksOnInput_iff.2 rfl
      rcases hcall.rx_cases h.inv with hrx | ⟨ack, rx, -, -, hwake⟩
      · rw [hrx]
        exact (uartRxEmpty_iff _).1 hempty
      · unfold wakeAct at hwake
        split at hwake
        · split at hwake <;> exact absurd hwake (by simp)
        · exact absurd hwake (by simp)
    rcases Core.after_blocked hp with hp' | ⟨-, rfl⟩
    · exact ⟨(h.sleeping p hp').1, rfl, hempty⟩
    · exact ⟨rfl, rfl, hempty⟩
  · have hp' := (Core.after_blocked hp).resolve_right fun hx => hact hx.1
    obtain ⟨rfl, hb, hempty⟩ := h.sleeping p hp'
    have hnw : ∀ q, act ≠ .wake q := by
      rintro q rfl
      obtain ⟨-, -, hq, -⟩ := hcall.of_wake
      obtain rfl : q = p := Option.some.inj (hq.symm.trans hb)
      simp [Core.after] at hp
    refine ⟨rfl, ?_, ?_⟩
    · cases act with
      | wake q => exact absurd rfl (hnw q)
      | sleep => exact absurd rfl hact
      | _ => exact hb
    · rcases hcall.rx_cases h.inv with hrx | ⟨ack, rx, -, -, hwake⟩
      · rw [hrx]
        exact hempty
      · exact absurd (hwake.trans (wakeAct_of_blocked hb hp')) (hnw p)

/-- A switch to a process inside `sys_read` is a wake-up of the reader. -/
lemma ReaderInv.reading_switch (h : ReaderInv b r s c) (hcall : Call b s c e act site k a m)
    {q' : Core} {ctl : Ctl} {l : List (Obs numProcesses)}
    (ho : Outcome (s.kern.core.after c act) c site s.arch.cont q' ctl l)
    {buf len n : Word} {got : List Byte}
    (hctl : ctl = .readLoop buf len n got ∨ ctl = .blockRet buf len n got) :
    q'.current = some r := by
  have hstay : site.ctl = .readLoop buf len n got ∨ site.ctl = .blockRet buf len n got →
      (s.kern.core.after c act).current = some r := by
    intro hsite
    by_cases hact : act = .sleep
    · subst hact
      obtain ⟨buf', len', n', got', hctl', -⟩ := hcall.of_sleep
      rw [← h.reading buf' len' n' got' (Or.inl hctl')]
      exact h.inv.current
    · rcases hcall.ctl_site hact with hu | hu <;> simp [hu] at hsite
  cases ho with
  | idle => exact hstay hctl
  | alone => exact hstay hctl
  | switch m byHint hreq hn hready hpref hcont =>
    rcases hcont with hret | ⟨-, hhint⟩
    · simp [hret.ctl_eq] at hctl
    · obtain rfl := h.inv.hint_after hhint
      obtain ⟨-, -, -, hm⟩ := hcall.of_wake
      rw [← (h.sleeping m hm).1]
      rfl

/-- The invariant of a single reader. -/
lemma ReaderInv.preserved (h : ReaderInv b r s c) (hs : step procArch b s e = some s')
    (hread : IssuesRead procArch s e → s.kern.current = some r) :
    ∃ c', ReaderInv b r s' c' := by
  rcases h.inv.step_outcome hs with hq | ⟨act, site, k, a, m, l, hcall, ho, -, hrx, -⟩
  · exact ⟨c, h.quiet hq hread⟩
  · obtain ⟨c', h'⟩ := h.inv.preserved hs
    refine ⟨c', h', ?_, ?_⟩
    · intro buf len n got hctl
      exact Option.some.inj (h'.current.symm.trans (h.reading_switch hcall ho hctl))
    · intro p hp
      rw [hrx]
      obtain ⟨rfl, hb, hempty⟩ := h.sleeping_call hcall (ho.blocked hp)
      exact ⟨rfl, ho.blockedReader.trans hb, hempty⟩

/-- A receive interrupt gives the CPU to the sleeping reader, inside its `sys_read`. -/
lemma ReaderInv.irq (h : ReaderInv b r s c) (hu : s.ctl = .user) (hb : s.kern.st r = .blocked)
    {ack : Word} {rx : List Byte} (hack : b.getActive ack = b.irqUart0)
    (hs : step procArch b s (.irq ack rx) = some s') :
    s'.kern.current = some r ∧ s'.kern.st r = .running ∧
      (∃ buf len, s'.ctl = .blockRet buf len 0#32 []) ∧
      s'.kern.rx = s.kern.rx.pushAll rx := by
  obtain ⟨-, hslot, -⟩ := h.sleeping r hb
  have hrc : r ≠ c := by
    rintro rfl
    have := h.inv.atCtl
    rw [hu] at this
    exact this hb
  rcases h.inv.step_outcome hs with hq | ⟨act, site, k, a, m, l, hcall, ho, -, hrx, -⟩
  · cases hq
  · obtain ⟨rfl, hk⟩ : act = .wake r ∧ k = s.kern.irqDispatch b ack rx := by
      cases hcall with
      | irq => exact ⟨by rw [irqAct, if_pos hack, wakeAct_of_blocked hslot hb], rfl⟩
    generalize hq' : s'.kern.core = q' at ho
    generalize hctl : s'.ctl = ctl' at ho
    cases ho with
    | idle hreq => exact absurd hreq (by simp [Core.after])
    | alone hreq hnone => exact absurd (Or.inl (Function.update_self _ _ _)) (hnone r hrc)
    | switch n byHint hreq hn hready hpref hcont =>
      obtain rfl : r = n := hpref r rfl
      refine ⟨congrArg Core.current hq', ?_, ?_, ?_⟩
      · exact (congrFun (congrArg Core.st hq') r).trans (by simp [Core.switch])
      · have hp := h.inv.parked r hrc
        rw [hb] at hp
        obtain ⟨buf, len, heq, -⟩ := hp
        exact ⟨buf, len, by rw [heq]; rfl⟩
      · rw [hrx, hk, (irqDispatch_spec h.inv.wired ack rx c).2.1, irqRing, if_pos hack]

/-- One iteration of a `sys_read` that has something to deliver. -/
lemma Inv.read_step (h : Inv b s c) {buf len n : Word} {got : List Byte}
    (hctl : s.ctl = .readLoop buf len n got) (hsome : n ≠ 0#32 ∨ s.kern.rx.contents ≠ []) :
    ∃ s', step procArch b s .kernel = some s' ∧ s'.kern.core = s.kern.core ∧
      (s'.ctl = .user ∨ Inv b s' c ∧ n + 1#32 ≠ 0#32 ∧
        (∃ got', s'.ctl = .readLoop buf len (n + 1#32) got') ∧
        s'.kern.rx.contents.length + 1 = s.kern.rx.contents.length) := by
  obtain ⟨s', hs⟩ : ∃ s', step procArch b s .kernel = some s' :=
    ⟨_, (step_eq_some h.current).2 ⟨_, by simp only [handle, hctl]; rfl, rfl⟩⟩
  refine ⟨s', hs, ?_⟩
  rcases h.step_outcome hs with hq | ⟨act, site, k, a, m, l, hcall, ho, -, -, -⟩
  · refine ⟨hq.core, Or.inr ⟨hq.inv h, ?_⟩⟩
    cases hq with
    | pop hctl' hn hring =>
      obtain ⟨rfl, rfl, rfl, rfl⟩ := Ctl.readLoop.inj (hctl.symm.trans hctl')
      obtain ⟨-, hrest, -⟩ := RxRing.pop_of_contents_cons h.ring hring
      refine ⟨?_, ⟨_, rfl⟩, ?_⟩
      · have hlt : n.toNat < len.toNat := hn
        have := len.isLt
        intro h0
        have h1 := congrArg BitVec.toNat h0
        rw [BitVec.toNat_add, show (1#32).toNat = 1 from rfl,
          show (0#32).toNat = 0 from rfl] at h1
        omega
      · rw [hring, List.length_cons]
        exact congrArg (·.length + 1) hrest
    | retry hctl' => exact absurd (hctl.symm.trans hctl') (by simp)
  · generalize hev : Event.kernel = e at hcall
    cases hcall with
    | block hctl' hn hempty h0 =>
      obtain ⟨rfl, rfl, rfl, rfl⟩ := Ctl.readLoop.inj (hctl.symm.trans hctl')
      rcases hsome with hx | hx
      · exact absurd h0 hx
      · exact absurd hempty hx
    | readReturn hctl' hn =>
      generalize hq' : s'.kern.core = q' at ho
      generalize hctl'' : s'.ctl = ctl' at ho
      cases ho with
      | idle hreq => exact ⟨rfl, Or.inl rfl⟩
      | alone hreq => exact absurd (h.idle.symm.trans hreq) (by simp)
      | switch n byHint hreq => exact absurd (h.idle.symm.trans hreq) (by simp)
    | irq => cases hev
    | svc => cases hev
    | fault => cases hev

/-- A `sys_read` that has something to deliver returns to its caller. -/
lemma Inv.read_finishes (h : Inv b s c) {buf len n : Word} {got : List Byte}
    (hctl : s.ctl = .readLoop buf len n got) (hsome : n ≠ 0#32 ∨ s.kern.rx.contents ≠ []) :
    ∃ m t, Trace.run (step procArch b) s (List.replicate m .kernel) = some t ∧
      t.ctl = .user ∧ t.kern.core = s.kern.core := by
  -- by induction on the number of bytes in the ring
  generalize hlen : s.kern.rx.contents.length = N
  induction N generalizing s n got with
  | zero =>
    obtain ⟨s', hs, hcore, hu | ⟨-, -, -, hlen'⟩⟩ := h.read_step hctl hsome
    · exact ⟨1, s', by simp [Trace.run_cons, hs], hu, hcore⟩
    · omega
  | succ N ih =>
    obtain ⟨s', hs, hcore, hu | ⟨h', hn, ⟨got', hctl'⟩, hlen'⟩⟩ := h.read_step hctl hsome
    · exact ⟨1, s', by simp [Trace.run_cons, hs], hu, hcore⟩
    · obtain ⟨m, t, hrun, hu, hcore'⟩ := ih h' hctl' (Or.inl hn) (by omega)
      refine ⟨m + 1, t, ?_, hu, hcore'.trans hcore⟩
      rw [List.replicate_succ, Trace.run_cons, hs]
      exact hrun

end Step

/-! ### Runs -/

section Runs

variable {σ : Type}

/-- What a sleeping reader can rely on, in USR mode: there is nothing to read, the slot
names it, and a receive interrupt gives it the CPU at once.  If the interrupt brings a byte,
then the kernel goes on to return to it. -/
def ReaderServed (A : Arch σ) (b : Board) (r : Pid) (s : Sys σ) : Prop :=
  s.ctl = .user → s.kern.st r = .blocked →
    s.kern.rx.uartRxEmpty = true ∧ s.kern.blockedReader = some r ∧
      ∀ ack rx s', b.getActive ack = b.irqUart0 → step A b s (.irq ack rx) = some s' →
        s'.kern.current = some r ∧ s'.kern.st r = .running ∧
          (∃ buf len, s'.ctl = .blockRet buf len 0#32 []) ∧
          (rx ≠ [] → ∃ m t, Trace.run (step A b) s' (List.replicate m .kernel) = some t ∧
            t.ctl = .user ∧ t.kern.current = some r ∧ t.kern.st r = .running)

end Runs

lemma ReaderInv.served {b : Board} {r c : Pid} {s : Sys ProcMachine} (h : ReaderInv b r s c) :
    ReaderServed procArch b r s := by
  intro hu hb
  obtain ⟨-, hslot, hempty⟩ := h.sleeping r hb
  refine ⟨(uartRxEmpty_iff _).2 hempty, hslot, ?_⟩
  intro ack rx s' hack hs
  obtain ⟨hcur, hrun, ⟨buf, len, hctl⟩, hring⟩ := h.irq hu hb hack hs
  refine ⟨hcur, hrun, ⟨buf, len, hctl⟩, ?_⟩
  intro hrx
  obtain ⟨c', h'⟩ := h.inv.preserved hs
  have hs'' : step procArch b s' .kernel = some ⟨s'.kern, s'.arch, .readLoop buf len 0#32 []⟩ := by
    simp [step, hcur, handle, hctl, finish]
  have hq : Quiet s' c' .kernel ⟨s'.kern, s'.arch, .readLoop buf len 0#32 []⟩ :=
    Quiet.retry hctl
  have hne : s'.kern.rx.contents ≠ [] := by
    rw [hring]
    exact RxRing.contents_pushAll_ne_nil h.inv.ring hempty hrx
  obtain ⟨m, t, hrun', hu', hcore⟩ := (hq.inv h').read_finishes rfl (Or.inr hne)
  refine ⟨m + 1, t, ?_, hu', (congrArg Core.current hcore).trans hcur,
    (congrFun (congrArg Core.st hcore) r).trans hrun⟩
  rw [List.replicate_succ, Trace.run_cons, hs'']
  exact hrun'

/-- In a run where only `r` reads, the reader is always served. -/
theorem readerServed_run {b : Board} (L : Layout b) (umem : Pid → Word → Byte) (r : Pid)
    (es : List Event)
    (hes : Trace.AllSteps (step procArch b)
      (fun s e _ => IssuesRead procArch s e → s.kern.current = some r) (procSys L umem) es) :
    Trace.AllStates (step procArch b) (ReaderServed procArch b r) (procSys L umem) es := by
  refine Trace.AllSteps.invariant (I := fun s => ∃ c, ReaderInv b r s c) ?_ ?_ hes ⟨0, ?_⟩
  · rintro s e s' ⟨c, h⟩ hs hread
    exact h.preserved hs hread
  · rintro s ⟨c, h⟩
    exact h.served
  · refine ⟨inv_procSys L umem, ?_, ?_⟩
    · intro buf len n got hctl
      simp [procSys] at hctl
    · intro p hp
      exact absurd hp (by simp [procSys, Kernel.st, bootKernel, initPcb])

end RingNova
