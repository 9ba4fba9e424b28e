/-
# Console input

Bytes move from the receive interrupt through the ring into the buffers of the processes
that call `sys_read`.  Nothing is lost, duplicated or reordered on the way: the bytes that
completed calls have delivered, then those a call in progress has taken, then those in the
ring, are the accepted bytes in order of arrival (`input_conserved`).  A call that completes
returns the number of bytes it has stored at the start of its caller's buffer
(`read_delivers`).
-/
import RingNova.System.Outcome

namespace RingNova

/-! ### Bookkeeping on the history -/

/-- The bytes an entry of the history delivers. -/
def Obs.delivered : Obs numProcesses → List Byte
  | .readDone _ bytes => bytes
  | _ => []

/-- The byte an entry of the history accepts. -/
def Obs.accepted : Obs numProcesses → List Byte
  | .rxAccept c => [c]
  | _ => []

/-- The bytes delivered by completed calls of `sys_read`, in order of completion. -/
def Kernel.delivered (k : Kernel numProcesses) : List Byte := k.log.flatMap Obs.delivered

/-- The bytes accepted by `uart_rx_push`, in order of arrival. -/
def Kernel.accepted (k : Kernel numProcesses) : List Byte := k.log.flatMap Obs.accepted

/-- The bytes that the `sys_read` in progress has taken from the ring. -/
def Ctl.inFlight : Ctl → List Byte
  | .readLoop _ _ _ got => got
  | .blockRet _ _ _ got => got
  | _ => []

lemma delivered_eq (k : Kernel numProcesses) : k.delivered = k.marks.flatMap Obs.delivered :=
  (flatMap_marks (fun _ => rfl) (fun _ => rfl) k).symm

lemma accepted_eq (k : Kernel numProcesses) : k.accepted = k.marks.flatMap Obs.accepted :=
  (flatMap_marks (fun _ => rfl) (fun _ => rfl) k).symm

lemma flatMap_accepted_rxAccept (bs : List Byte) :
    (bs.map (Obs.rxAccept (N := numProcesses))).flatMap Obs.accepted = bs := by
  induction bs with
  | nil => rfl
  | cons c bs ih => simpa [Obs.accepted] using ih

lemma flatMap_delivered_rxAccept (bs : List Byte) :
    (bs.map (Obs.rxAccept (N := numProcesses))).flatMap Obs.delivered = [] := by
  induction bs with
  | nil => rfl
  | cons c bs ih => simp [Obs.delivered]

/-! ### Conservation -/

section Step

variable {b : Board} {s s' : Sys ProcMachine} {c : Pid} {e : Event} {act : Act} {site : Cont}
  {k : Kernel numProcesses} {a : ProcMachine} {m : List (Obs numProcesses)}

/-- Nothing is lost, duplicated or reordered. -/
def Conserved {σ : Type} (s : Sys σ) : Prop :=
  s.kern.delivered ++ s.ctl.inFlight ++ s.kern.rx.contents = s.kern.accepted

lemma Outcome.readDone_not_mem {q q' : Core} {cont : Pid → Cont} {ctl : Ctl}
    {l : List (Obs numProcesses)} (ho : Outcome q c site cont q' ctl l) (p : Pid)
    (bytes : List Byte) : .readDone p bytes ∉ l := by
  cases ho <;> simp

lemma Outcome.sysret_not_mem {q q' : Core} {cont : Pid → Cont} {ctl : Ctl}
    {l : List (Obs numProcesses)} (ho : Outcome q c site cont q' ctl l) (p : Pid) (v : Word) :
    .sysret p v ∉ l := by
  cases ho <;> simp

/-- No call of `schedule` ends in the middle of the loop of `sys_read`. -/
lemma Outcome.ctl_ne_readLoop {q q' : Core} {cont : Pid → Cont} {ctl : Ctl}
    {l : List (Obs numProcesses)} (ho : Outcome q c site cont q' ctl l)
    (buf len n : Word) (got : List Byte) : ctl ≠ .readLoop buf len n got := by
  have hne : ∀ cont : Cont, cont.ctl ≠ .readLoop buf len n got := by
    intro cont
    cases cont <;> simp [Cont.ctl]
  cases ho <;> exact hne _

/-- After a call of `schedule` no `sys_read` is in the middle of its work. -/
lemma Inv.inFlight_eq_nil (h' : Inv b s' c)
    (hne : ∀ buf len n got, s'.ctl ≠ .readLoop buf len n got) : s'.ctl.inFlight = [] := by
  have hctl := h'.atCtl
  rcases hc : s'.ctl with _ | ⟨buf, len, n, got⟩ | ⟨buf, len, n, got⟩ | _ | _
  case readLoop => exact absurd hc (hne buf len n got)
  case blockRet =>
    rw [hc] at hctl
    exact hctl.2.1
  all_goals rfl

/-- What the kernel has delivered, accepted and queued when it calls `schedule`. -/
lemma Call.conserved (hcall : Call b s c e act site k a m) (h : Inv b s c) (hs : Conserved s) :
    (s.kern.marks ++ m).flatMap Obs.delivered ++ k.rx.contents =
      (s.kern.marks ++ m).flatMap Obs.accepted := by
  rw [Conserved, delivered_eq, accepted_eq] at hs
  rw [List.flatMap_append, List.flatMap_append]
  cases hcall with
  | irq ack rx hu =>
    rw [hu] at hs
    simp only [Ctl.inFlight, List.append_nil] at hs
    rw [(irqDispatch_spec h.wired ack rx c).2.1, irqRing, irqMarks]
    split
    · rw [RxRing.contents_pushAll h.ring, List.flatMap_append, List.flatMap_append,
        flatMap_accepted_rxAccept, flatMap_delivered_rxAccept, flatMap_wakeMark (fun _ => rfl),
        flatMap_wakeMark (fun _ => rfl), ← hs]
      simp
    · simpa using hs
  | svc v hu hact hdone =>
    rw [hu] at hs
    simp only [Ctl.inFlight, List.append_nil] at hs
    rw [Kernel.rx_emit, hdone.rx]
    simpa [Obs.delivered, Obs.accepted] using hs
  | fault kind far fsr hu =>
    rw [hu] at hs
    rw [(userFaultKill_spec h.current kind far fsr).2.1]
    simpa [Ctl.inFlight] using hs
  | block hctl hn hempty h0 =>
    have hgot := (h.readArgs _ _ _ _ hctl).got
    rw [h0] at hgot
    rw [hctl, Ctl.inFlight, List.length_eq_zero_iff.1 hgot] at hs
    rw [(blockCurrent_spec h.current).2.1]
    simpa [Obs.delivered, Obs.accepted] using hs
  | readReturn hctl hn =>
    rw [hctl] at hs
    simpa [Obs.delivered, Obs.accepted, Ctl.inFlight] using hs

lemma Quiet.conserved (hq : Quiet s c e s') (h : Inv b s c) (hs : Conserved s) :
    Conserved s' := by
  rw [Conserved, delivered_eq, accepted_eq] at hs ⊢
  rw [hq.marks]
  cases hq with
  | exec f hu => rwa [hu] at hs
  | load va rd hu => rwa [hu] at hs
  | store va ch hu => rwa [hu] at hs
  | startRead hu => rwa [hu] at hs
  | pop hctl hn hring =>
    obtain ⟨-, hrest, -⟩ := RxRing.pop_of_contents_cons h.ring hring
    rw [hctl, hring] at hs
    simp only [Ctl.inFlight] at hs ⊢
    rw [hrest, ← hs]
    simp
  | retry hctl => rwa [hctl] at hs

lemma Inv.conserved_step (h : Inv b s c) (hs : Conserved s)
    (hstep : step procArch b s e = some s') : Conserved s' := by
  rcases h.step_outcome hstep with hq | ⟨act, site, k, a, m, l, hcall, ho, hm, hrx, -⟩
  · exact hq.conserved h hs
  · obtain ⟨c', h'⟩ := h.preserved hstep
    have hdel : (s.kern.marks ++ m ++ l).flatMap Obs.delivered =
        (s.kern.marks ++ m).flatMap Obs.delivered := by
      rw [List.flatMap_append, ho.flatMap (fun _ _ => rfl), List.append_nil]
    have hacc : (s.kern.marks ++ m ++ l).flatMap Obs.accepted =
        (s.kern.marks ++ m).flatMap Obs.accepted := by
      rw [List.flatMap_append, ho.flatMap (fun _ _ => rfl), List.append_nil]
    rw [Conserved, delivered_eq, accepted_eq, hm, hrx, h'.inFlight_eq_nil ho.ctl_ne_readLoop,
      hdel, hacc, List.append_nil]
    exact hcall.conserved h hs

/-! ### What a completed call has stored -/

/-- A process is in `sys_read` with these arguments: they stand in its saved registers. -/
structure Requested {σ : Type} (A : Arch σ) (a : σ) (p : Pid) (buf len : Word) : Prop where
  num : Syscall.ofNum ((A.ctx a p .svc).r 7) = some .read
  buf : (A.ctx a p .svc).r 1 = buf
  len : (A.ctx a p .svc).r 2 = len

/-- The bytes stand in memory from an address on. -/
def Stored (m : Word → Byte) (buf : Word) (bytes : List Byte) : Prop :=
  ∀ i (h : i < bytes.length), m (buf + BitVec.ofNat 32 i) = bytes.get ⟨i, h⟩

/-- In a step from `s` to `s'` the current process `p` completes a `sys_read` with these
arguments and this result: it delivers some bytes, at least one and at most as many as asked
for, and they stand at the start of the buffer, in the memory of `p`. -/
structure Delivers {σ : Type} (A : Arch σ) (umem : σ → Pid → Word → Byte) (s s' : Sys σ) (p : Pid)
    (bytes : List Byte) (buf len n : Word) : Prop where
  current : s.kern.current = some p
  ctl : s.ctl = .readLoop buf len n bytes
  requested : Requested A s.arch p buf len
  pos : 0 < len.toNat
  valid : validUserPtr buf len = true
  one_le : 1 ≤ n.toNat
  le : n.toNat ≤ len.toNat
  length : bytes.length = n.toNat
  stored : Stored (umem s'.arch p) buf bytes

lemma Stored.nil (m : Word → Byte) (buf : Word) : Stored m buf [] := by
  intro i h
  simp at h

/-- Storing one more byte behind the others. -/
lemma Stored.snoc {m : Word → Byte} {buf n : Word} {bytes : List Byte} (h : Stored m buf bytes)
    (hlen : bytes.length = n.toNat) (ch : Byte) :
    Stored (Function.update m (buf + n) ch) buf (bytes ++ [ch]) := by
  intro i hi
  have hn := n.isLt
  rw [List.length_append, List.length_singleton] at hi
  by_cases hin : i = n.toNat
  · subst hin
    rw [BitVec.ofNat_toNat, BitVec.setWidth_eq, Function.update_self]
    simp [← hlen]
  · have hne : buf + BitVec.ofNat 32 i ≠ buf + n := by
      intro heq
      have h' : BitVec.ofNat 32 i = n := by simpa using heq
      apply hin
      rw [← h', BitVec.toNat_ofNat]
      omega
    rw [Function.update_of_ne hne, h i (by omega)]
    simp [List.getElem_append_left (show i < bytes.length by omega)]

/-- The arguments of every `sys_read` in progress are the ones in its caller's registers,
and what it has taken from the ring stands in its caller's buffer. -/
structure ReadInv (s : Sys ProcMachine) (c : Pid) : Prop where
  running : ∀ buf len n got, s.ctl = .readLoop buf len n got ∨ s.ctl = .blockRet buf len n got →
    Requested procArch s.arch c buf len ∧ Stored (s.arch.umem c) buf got
  parked : ∀ p, p ≠ c → ∀ buf len n got, s.arch.cont p = .blockOnInput buf len n got →
    Requested procArch s.arch p buf len

lemma Requested.congr {a a' : ProcMachine} {p : Pid} {buf len : Word}
    (h : Requested procArch a p buf len) (hr : (a'.regs p).r = (a.regs p).r) :
    Requested procArch a' p buf len := by
  have hctx : (procArch.ctx a' p .svc).r = (procArch.ctx a p .svc).r := hr
  exact ⟨by rw [hctx]; exact h.num, by rw [hctx]; exact h.buf, by rw [hctx]; exact h.len⟩

lemma regs_setRegs_of_ne {p : Pid} (a : ProcMachine) (u : UserRegs) (hp : p ≠ c) :
    (a.setRegs c u).regs p = a.regs p := by
  simp [ProcMachine.setRegs, hp]

lemma Quiet.readInv (hq : Quiet s c e s') (h : Inv b s c) (hr : ReadInv s c) :
    ReadInv s' c := by
  have hregs : ∀ p, p ≠ c → s'.arch.regs p = s.arch.regs p := by
    intro p hp
    cases hq with
    | exec => exact regs_setRegs_of_ne _ _ hp
    | load => exact regs_setRegs_of_ne _ _ hp
    | startRead => exact regs_setRegs_of_ne _ _ hp
    | _ => rfl
  have hcont : s'.arch.cont = s.arch.cont := by cases hq <;> rfl
  constructor
  · intro buf len n got hctl
    cases hq with
    | startRead hu hnum hlen hv =>
      obtain ⟨rfl, rfl, rfl, rfl⟩ := Ctl.readLoop.inj (hctl.resolve_right (by simp))
      have hctx : (procArch.ctx (s.arch.enter c .svc) c .svc).r = (s.arch.regs c).r :=
        ctx_r_enter_svc s.arch c
      exact ⟨⟨by rw [hctx]; exact hnum, by rw [hctx], by rw [hctx]⟩, Stored.nil _ _⟩
    | pop hctl' hn hring =>
      obtain ⟨rfl, rfl, rfl, rfl⟩ := Ctl.readLoop.inj (hctl.resolve_right (by simp))
      obtain ⟨hreq, hst⟩ := hr.running _ _ _ _ (Or.inl hctl')
      refine ⟨hreq.congr rfl, ?_⟩
      have := hst.snoc (h.readArgs _ _ _ _ hctl').got
      simpa [ProcMachine.setByte] using this _
    | retry hctl' =>
      obtain ⟨rfl, rfl, rfl, rfl⟩ := Ctl.readLoop.inj (hctl.resolve_right (by simp))
      exact hr.running _ _ _ _ (Or.inr hctl')
    | _ => simp at hctl
  · intro p hp buf len n got hc
    rw [hcont] at hc
    exact (hr.parked p hp buf len n got hc).congr (by rw [hregs p hp])

/-- Registers of the other processes at a call of `schedule`. -/
lemma Call.regs (hcall : Call b s c e act site k a m) {p : Pid} (hp : p ≠ c) :
    a.regs p = s.arch.regs p := by
  cases hcall with
  | svc v hu hact hdone =>
    refine (regs_setRegs_of_ne _ _ hp).trans ?_
    rw [hdone.regs]
    exact regs_setRegs_of_ne _ _ hp
  | readReturn => exact regs_setRegs_of_ne _ _ hp
  | _ => rfl

/-- Everybody who is parked in `sys_read` at a call of `schedule` is there on request. -/
lemma Call.requested (hcall : Call b s c e act site k a m) (hr : ReadInv s c) {p : Pid}
    {buf len n : Word} {got : List Byte}
    (hp : (a.park c site).cont p = .blockOnInput buf len n got) :
    Requested procArch a p buf len := by
  by_cases hpc : p = c
  · subst hpc
    have hsite : site = .blockOnInput buf len n got := by simpa [ProcMachine.park] using hp
    cases hcall with
    | block hctl =>
      obtain ⟨rfl, rfl, rfl, rfl⟩ := Cont.blockOnInput.inj hsite
      exact (hr.running _ _ _ _ (Or.inl hctl)).1
    | _ => exact absurd hsite (by simp)
  · have hcont : s.arch.cont p = .blockOnInput buf len n got := by
      rw [← hcall.cont]
      simpa [ProcMachine.park, hpc] using hp
    exact (hr.parked p hpc buf len n got hcont).congr (by rw [hcall.regs hpc])

lemma ReadInv.preserved (hr : ReadInv s c) (h : Inv b s c)
    (hs : step procArch b s e = some s') : ∃ c', Inv b s' c' ∧ ReadInv s' c' := by
  rcases h.step_outcome hs with hq | ⟨act, site, k, a, m, l, hcall, ho, -, -, hpark⟩
  · exact ⟨c, hq.inv h, hq.readInv h hr⟩
  · obtain ⟨c', h'⟩ := h.preserved hs
    obtain ⟨c'', hc', hctl, hcont⟩ := hpark.cont
    obtain rfl : c' = c'' := Option.some.inj (h'.current.symm.trans hc')
    refine ⟨c', h', ?_, ?_⟩
    · intro buf len n got hat
      have hat := hat.resolve_left (ho.ctl_ne_readLoop buf len n got)
      have hgot : got = [] := by
        have := h'.atCtl
        rw [hat] at this
        exact this.2.1
      subst hgot
      have hsite : (a.park c site).cont c' = .blockOnInput buf len n [] := by
        rw [hctl] at hat
        generalize (a.park c site).cont c' = cont at hat ⊢
        cases cont with
        | blockOnInput =>
          obtain ⟨rfl, rfl, rfl, rfl⟩ := Ctl.blockRet.inj hat
          rfl
        | _ => exact absurd hat (by simp [Cont.ctl])
      exact ⟨(hcall.requested hr hsite).congr (by rw [hpark.regs]), Stored.nil _ _⟩
    · intro p hp buf len n got hc
      rw [hcont p hp] at hc
      exact (hcall.requested hr hc).congr (by rw [hpark.regs])

/-- Only the return of `sys_read` leaves a record of delivered bytes. -/
lemma Call.of_readDone (hcall : Call b s c e act site k a m) {p : Pid} {bytes : List Byte}
    (hp : .readDone p bytes ∈ m) :
    p = c ∧ ∃ buf len n, s.ctl = .readLoop buf len n bytes ∧
      (¬ n < len ∨ s.kern.rx.contents = [] ∧ n ≠ 0#32) ∧ .sysret c n ∈ m ∧
      a = procArch.setRet s.arch c n := by
  cases hcall with
  | irq ack rx hu =>
    rw [irqMarks] at hp
    split at hp
    · cases hw : wakeAct s.kern <;> simp [Act.wakeMark, hw] at hp
    · simp at hp
  | readReturn hctl hn =>
    obtain ⟨rfl, rfl⟩ : p = c ∧ bytes = _ := by simpa using hp
    exact ⟨rfl, _, _, _, hctl, hn, by simp, rfl⟩
  | _ => simp at hp

/-- Inside the kernel only a `sys_read` with bytes to deliver returns. -/
lemma Call.of_sysret (hcall : Call b s c e act site k a m) {p : Pid} {v : Word}
    (hp : .sysret p v ∈ m) (hctl : s.ctl ≠ .user) : ∃ bytes, .readDone p bytes ∈ m := by
  cases hcall with
  | irq ack rx hu => exact absurd hu hctl
  | svc v hu => exact absurd hu hctl
  | readReturn =>
    obtain ⟨rfl, rfl⟩ : p = c ∧ v = _ := by simpa using hp
    exact ⟨_, List.mem_cons_self⟩
  | _ => simp at hp

end Step

/-- The loop of `sys_read` is where every valid call with something to read gets to. -/
lemma step_read {σ : Type} {A : Arch σ} {b : Board} {s : Sys σ} {c : Pid} {buf len : Word}
    (hu : s.ctl = .user) (hc : s.kern.current = some c)
    (hreq : Requested A (A.enter s.arch c .svc) c buf len) (hlen : 0 < len.toNat)
    (hv : validUserPtr buf len = true) :
    step A b s .svc = some ⟨s.kern, A.enter s.arch c .svc, .readLoop buf len 0#32 []⟩ := by
  have hne : len ≠ 0#32 := by
    rintro rfl
    simp at hlen
  simp only [step, hc, handle, hu, handleSvc, hreq.num, hreq.buf, hreq.len, sysRead, hne, hv,
    if_true, if_false]
  rfl

/-! ### Runs -/

section Runs

variable {b : Board} {L : Layout b} {umem : Pid → Word → Byte} {s s' : Sys ProcMachine}
  {e : Event}

/-- Every byte that was accepted is delivered, about to be delivered, or in the ring. -/
theorem input_conserved (hr : Trace.Reachable (step procArch b) (procSys L umem) s) :
    Conserved s := by
  refine (hr.induct (I := fun s => (∃ c, Inv b s c) ∧ Conserved s)
    ⟨⟨0, inv_procSys L umem⟩, ?_⟩ ?_).2
  · simp [Conserved, procSys, bootKernel, Kernel.delivered, Kernel.accepted, Ctl.inFlight]
  · rintro s e s' ⟨⟨c, h⟩, hs⟩ hstep
    exact ⟨h.preserved hstep, h.conserved_step hs hstep⟩

lemma readInv_of_reachable (hr : Trace.Reachable (step procArch b) (procSys L umem) s) :
    ∃ c, Inv b s c ∧ ReadInv s c := by
  refine hr.induct (I := fun s => ∃ c, Inv b s c ∧ ReadInv s c) ⟨0, inv_procSys L umem, ?_⟩ ?_
  · exact ⟨fun buf len n got h => by simp [procSys] at h,
      fun p _ buf len n got h => by simp [procSys, procBoot] at h⟩
  · rintro s e s' ⟨c, h, hr⟩ hstep
    exact hr.preserved h hstep

/-- What a step records, and what a `sys_read` that completes in it has delivered. -/
theorem read_delivers (hr : Trace.Reachable (step procArch b) (procSys L umem) s)
    (hs : step procArch b s e = some s') :
    ∃ new, s'.kern.marks = s.kern.marks ++ new ∧
      (∀ p bytes, .readDone p bytes ∈ new → ∃ buf len n, .sysret p n ∈ new ∧
        Delivers procArch ProcMachine.umem s s' p bytes buf len n) ∧
      (∀ p v, .sysret p v ∈ new → s.ctl ≠ .user → ∃ bytes, .readDone p bytes ∈ new) := by
  obtain ⟨c, h, hri⟩ := readInv_of_reachable hr
  rcases h.step_outcome hs with hq | ⟨act, site, k, a, m, l, hcall, ho, hm, -, hpark⟩
  · exact ⟨[], by simp [hq.marks], by simp, by simp⟩
  refine ⟨m ++ l, by rw [hm, List.append_assoc], ?_, ?_⟩
  · intro p bytes hp
    have hpm := (List.mem_append.1 hp).resolve_right (ho.readDone_not_mem p bytes)
    obtain ⟨rfl, buf, len, n, hctl, hn, hret, rfl⟩ := hcall.of_readDone hpm
    obtain ⟨hreq, hst⟩ := hri.running _ _ _ _ (Or.inl hctl)
    have hargs := h.readArgs _ _ _ _ hctl
    refine ⟨buf, len, n, List.mem_append_left _ hret, h.current, hctl, hreq, hargs.pos, hargs.valid,
      ?_, hargs.le, hargs.got, ?_⟩
    · have hpos := hargs.pos
      rcases hn with hn | ⟨-, hn⟩
      · have : ¬ n.toNat < len.toNat := hn
        omega
      · have : n.toNat ≠ 0 := fun h0 => hn (BitVec.eq_of_toNat_eq h0)
        omega
    · rw [hpark.umem]
      exact hst
  · intro p v hp hctl
    have hpm := (List.mem_append.1 hp).resolve_right (ho.sysret_not_mem p v)
    obtain ⟨bytes, hb⟩ := hcall.of_sysret hpm hctl
    exact ⟨bytes, List.mem_append_left _ hb⟩

end Runs

end RingNova
