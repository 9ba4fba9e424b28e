/-
# Console input on the ARM machine

Exactly-once, in-order delivery of console input, for any interleaving of receive
interrupts, ticks, switches, kills and reads.  The bytes that a completed `sys_read` delivers
are in its caller's slot of physical memory when it returns.
-/
import RingNova.Arm.Scheduling
import RingNova.System.Input

namespace RingNova

open Trace

section

variable {b : Board} {L : Layout b} {cc : CompiledC} {mem : Memory} {cpu : Cpu}
  {s s' : Sys ArmMachine} {t t' : Sys ProcMachine} {p : Pid} {bytes : List Byte}
  {buf len n : Word}

/-- The memory of the processes, by their virtual addresses. -/
def ArmMachine.umem (b : Board) (a : ArmMachine) : Pid → Word → Byte := userMemory b a.mem

/-- Every process's slot holds its memory, also when the machine has stopped. -/
lemma Sim.umem (h : Sim L s t) (p : Pid) {va : Word} (hw : inWindow va = true) :
    s.arch.umem b p va = t.arch.umem p va := by
  obtain ⟨c, hinv⟩ := h.inv
  obtain ⟨ph, hrel⟩ := (h.rel.arch c hinv.current).exists
  exact hrel.background.umem p va hw

lemma Sim.requested (h : Sim L s t) (cc : CompiledC) (hctl : t.ctl = .readLoop buf len n bytes)
    (hc : t.kern.current = some p) (hreq : Requested procArch t.arch p buf len) :
    Requested (armArch L cc) s.arch p buf len := by
  have hrel : ArmRel L p .svc s.arch t.arch :=
    (atPoint_iff (by rw [hctl]; rfl)).1 (h.rel.arch p hc)
  have hctx := (opsRel_arm L cc p).ctxSvc hrel
  exact ⟨by rw [hctx]; exact hreq.num, by rw [hctx]; exact hreq.buf, by rw [hctx]; exact hreq.len⟩

lemma Stored.congr {m m' : Word → Byte} (h : Stored m buf bytes)
    (hv : validUserPtr buf len = true) (hle : bytes.length ≤ len.toNat)
    (hm : ∀ va, inWindow va = true → m' va = m va) : Stored m' buf bytes := by
  intro i hi
  have hlen := len.isLt
  rw [hm _ (inWindow_of_valid hv ?_)]
  · exact h i hi
  · rw [BitVec.toNat_ofNat]
    omega

/-- What is delivered to a process is delivered to its slot. -/
lemma Delivers.transfer (h : Sim L s t) (h' : Sim L s' t') (cc : CompiledC)
    (hd : Delivers procArch ProcMachine.umem t t' p bytes buf len n) :
    Delivers (armArch L cc) (ArmMachine.umem b) s s' p bytes buf len n where
  current := by rw [h.rel.kern, hd.current]
  ctl := by rw [h.rel.ctl, hd.ctl]
  requested := h.requested cc hd.ctl hd.current hd.requested
  pos := hd.pos
  valid := hd.valid
  one_le := hd.one_le
  le := hd.le
  length := hd.length
  stored := hd.stored.congr hd.valid (hd.length.trans_le hd.le) fun _ hw => h'.umem p hw

/-- **Console input is delivered exactly once and in order.**  In every reachable state the
bytes delivered by completed calls of `sys_read`, then those that a call in progress has taken
from the ring, then those in the ring, are the accepted bytes; a call in progress has taken
some only in the middle of its loop.  A valid call with a positive length gets to the loop,
and a call that returns from there delivers its bytes to its caller. -/
theorem console_input_exactly_once
    (hr : Reachable (step (armArch L cc) b) (armSys L cc mem cpu) s) :
    s.kern.delivered ++ s.ctl.inFlight ++ s.kern.rx.contents = s.kern.accepted ∧
      ((∀ buf len n got, s.ctl ≠ .readLoop buf len n got) →
        s.kern.delivered ++ s.kern.rx.contents = s.kern.accepted) ∧
      (∀ c buf len, s.ctl = .user → s.kern.current = some c →
        Requested (armArch L cc) ((armArch L cc).enter s.arch c .svc) c buf len →
        0 < len.toNat → validUserPtr buf len = true →
        step (armArch L cc) b s .svc =
          some ⟨s.kern, (armArch L cc).enter s.arch c .svc, .readLoop buf len 0#32 []⟩) ∧
      ∀ e s', step (armArch L cc) b s e = some s' →
        ∃ new, s'.kern.marks = s.kern.marks ++ new ∧
          (∀ p bytes, .readDone p bytes ∈ new → ∃ buf len n, .sysret p n ∈ new ∧
            Delivers (armArch L cc) (ArmMachine.umem b) s s' p bytes buf len n) ∧
          (∀ p v, .sysret p v ∈ new → s.ctl ≠ .user → ∃ bytes, .readDone p bytes ∈ new) := by
  obtain ⟨t, ht, h⟩ := sim_of_reachable hr
  have hcons : Conserved t := input_conserved ht
  have hs : s.kern.delivered ++ s.ctl.inFlight ++ s.kern.rx.contents = s.kern.accepted := by
    rw [h.rel.kern, h.rel.ctl]
    exact hcons
  refine ⟨hs, fun hne => ?_, fun c buf len hu hc hreq hlen hv => step_read hu hc hreq hlen hv,
    fun e s' hstep => ?_⟩
  · obtain ⟨c, hinv⟩ := h.inv
    have hnil : s.ctl.inFlight = [] := by
      rw [h.rel.ctl]
      exact hinv.inFlight_eq_nil fun buf len n got hctl => hne buf len n got (h.rel.ctl.trans hctl)
    rwa [hnil, List.append_nil] at hs
  · obtain ⟨t', ht', h'⟩ := h.forth hstep
    obtain ⟨new, hnew, hdone, hret⟩ := read_delivers ht ht'
    rw [← h.rel.kern, ← h'.rel.kern] at hnew
    refine ⟨new, hnew, ?_, ?_⟩
    · intro p bytes hp
      obtain ⟨buf, len, n, hsys, hd⟩ := hdone p bytes hp
      exact ⟨buf, len, n, hsys, hd.transfer h h' cc⟩
    · intro p v hp hctl
      exact hret p v hp (by rwa [← h.rel.ctl])

end

/-- A byte arrives, process 0 reads it, and it stands in process 0's buffer. -/
theorem console_input_one_byte :
    ∃ s s', run (step (armArch qemuLayout .zeroed) .qemu) qemuBoot
        ([.irq 44#32 [0x61#8]] ++ userCall 4#32 0#32 0x40000000#32 1#32 ++ [.kernel]) = some s ∧
      step (armArch qemuLayout .zeroed) .qemu s .kernel = some s' ∧
      s'.kern.delivered = [0x61#8] ∧ s'.arch.umem .qemu 0 0x40000000#32 = 0x61#8 := by
  have hrun : ((run (step procArch .qemu) qemuProcs
      ([.irq 44#32 [0x61#8]] ++ userCall 4#32 0#32 0x40000000#32 1#32 ++ [.kernel])).bind fun t =>
      (step procArch .qemu t .kernel).map fun t' =>
        (t.ctl, t.kern.marks, t'.kern.marks, t'.kern.delivered)) =
      some (.readLoop 0x40000000#32 1#32 1#32 [0x61#8], [.rxAccept 0x61#8],
        [.rxAccept 0x61#8, .readDone 0 [0x61#8], .sysret 0 1#32], [0x61#8]) := by decide +kernel
  obtain ⟨t, ht, hrest⟩ := Option.bind_eq_some_iff.1 hrun
  obtain ⟨t', ht', hview⟩ := Option.map_eq_some_iff.1 hrest
  obtain ⟨s, hs, hsim⟩ := exists_qemu_run ht
  obtain ⟨s', hs', hsim'⟩ := hsim.back .zeroed ht'
  simp only [Prod.mk.injEq] at hview
  obtain ⟨hctl, hm, hm', hd⟩ := hview
  refine ⟨s, s', hs, hs', by rw [hsim'.rel.kern, hd], ?_⟩
  obtain ⟨new, hnew, hdone, -⟩ := (console_input_exactly_once ⟨_, hs⟩).2.2.2 .kernel s' hs'
  rw [hsim.rel.kern, hsim'.rel.kern, hm, hm'] at hnew
  have hmem : .readDone 0 [0x61#8] ∈ new := by
    have htail : [.readDone 0 [0x61#8], .sysret 0 1#32] = new := (List.cons.inj hnew).2
    rw [← htail]
    exact List.mem_cons_self
  obtain ⟨buf, len, n, -, hdel⟩ := hdone 0 [0x61#8] hmem
  have hbuf : buf = 0x40000000#32 := by
    have heq := hdel.ctl.symm.trans (hsim.rel.ctl.trans hctl)
    exact (Ctl.readLoop.inj heq).1
  subst hbuf
  exact hdel.stored 0 (by decide)

end RingNova
