/-
# Memory isolation

While a process `i` is current, nothing the machine does depends on or changes another
process's slot `j`: neither user code behind the MMU, nor the kernel, which reads and writes
page tables, kernel stacks, mode stacks, and user memory only through checked pointers and
the table of the current process.  Changes are excluded directly (`Sim.slot_unchanged`);
reads are excluded by running two machines side by side that differ in slot `j` only
(`Twins`): they take the same steps until `j` becomes current.
-/
import RingNova.Arm.Input
import RingNova.System.Preemption

namespace RingNova

open Trace

/-! ### Machines that differ in a region -/

/-- The machines are the same but for the contents of a region. -/
structure EqOutside (R : Region) (a a' : ArmMachine) : Prop where
  cpu : a'.cpu = a.cpu
  ctx : a'.ctx = a.ctx
  frames : a'.frames = a.frames
  time : a'.time = a.time
  mem : Memory.Within R a.mem a'.mem

namespace EqOutside

variable {b : Board} {L : Layout b} {R : Region} {a a' : ArmMachine}

/-- The second machine is the first one with another memory. -/
lemma eq_set (h : EqOutside R a a') : a' = { a with mem := a'.mem } := by
  obtain ⟨cpu, mem, ctx, frames, time⟩ := a'
  obtain ⟨rfl, rfl, rfl, rfl, -⟩ := h
  rfl

lemma of_mem {mem' : Memory} (h : Memory.Within R a.mem mem') :
    EqOutside R a { a with mem := mem' } := ⟨rfl, rfl, rfl, rfl, h⟩

/-- A change of the registers, and the same write to both memories. -/
lemma set (h : EqOutside R a a') (cpu : Cpu) {mem mem' : Memory} (hm : Memory.Within R mem mem') :
    EqOutside R { a with cpu := cpu, mem := mem } { a' with cpu := cpu, mem := mem' } :=
  ⟨rfl, h.ctx, h.frames, h.time, hm⟩

lemma enter (h : EqOutside R a a') (b : Board) (x : Exn) :
    EqOutside R (a.enter b x) (a'.enter b x) := by
  have hm := h.mem
  rw [h.eq_set]
  cases x with
  | irq => exact (of_mem hm).set _ ((hm.storeWords _ _).storeWords _ _)
  | svc => exact (of_mem hm).set _ ((hm.storeWords _ _).storeWords _ _)
  | dataAbort => exact (of_mem hm).set _ ((hm.storeWords _ _).storeWords _ _)
  | prefetchAbort => exact (of_mem hm).set _ ((hm.storeWords _ _).storeWords _ _)
  | undefined => exact (of_mem hm).set _ ((hm.storeWords _ _).storeWords _ _)

lemma store8 (h : EqOutside R a a') (x : ℕ) (ch : Byte) :
    EqOutside R { a with mem := a.mem.store8 x ch } { a' with mem := a'.mem.store8 x ch } :=
  ⟨h.cpu, h.ctx, h.frames, h.time, h.mem.store8 x ch⟩

lemma ranC (h : EqOutside R a a') (L : Layout b) (cc : CompiledC) (c : Pid) :
    EqOutside R (a.ranC L cc c) (a'.ranC L cc c) := by
  rw [ArmMachine.ranC, ArmMachine.ranC, h.cpu, h.time]
  exact ⟨rfl, h.ctx, h.frames, rfl, h.mem.overwrite _ _⟩

/-- The end of `exception_entry_irq` reads the exception frame. -/
lemma exitIrq (h : EqOutside R a a')
    (hload : ∀ k, k + 4 ≤ 64 →
      a'.mem.load32 (b.pa a.cpu.spSvc + k) = a.mem.load32 (b.pa a.cpu.spSvc + k)) :
    EqOutside R (a.exitIrq b) (a'.exitIrq b) := by
  have hr : (fun i : Fin 13 => a'.mem.load32 (b.pa a.cpu.spSvc + 4 * i)) =
      fun i : Fin 13 => a.mem.load32 (b.pa a.cpu.spSvc + 4 * i) := by
    funext i
    have := i.isLt
    exact hload _ (by omega)
  simp only [ArmMachine.exitIrq, h.cpu, hr, hload 52 (by omega), hload 56 (by omega),
    hload 60 (by omega)]
  exact ⟨rfl, h.ctx, h.frames, h.time, h.mem⟩

/-- So does the end of `exception_entry_svc`. -/
lemma exitSvc (h : EqOutside R a a')
    (hload : ∀ k, k + 4 ≤ 60 →
      a'.mem.load32 (b.pa a.cpu.spSvc + k) = a.mem.load32 (b.pa a.cpu.spSvc + k)) :
    EqOutside R (a.exitSvc b) (a'.exitSvc b) := by
  have hr : (fun i : Fin 13 => a'.mem.load32 (b.pa a.cpu.spSvc + 4 + 4 * i)) =
      fun i : Fin 13 => a.mem.load32 (b.pa a.cpu.spSvc + 4 + 4 * i) := by
    funext i
    have := i.isLt
    rw [Nat.add_assoc]
    exact hload _ (by omega)
  have h0 : a'.mem.load32 (b.pa a.cpu.spSvc) = a.mem.load32 (b.pa a.cpu.spSvc) := by
    have := hload 0 (by omega)
    rwa [Nat.add_zero] at this
  simp only [ArmMachine.exitSvc, h.cpu, hr, h0, hload 56 (by omega)]
  exact ⟨rfl, h.ctx, h.frames, h.time, h.mem⟩

/-- The second half of `context_switch` reads the stack of the next process. -/
lemma loadNext (h : EqOutside R a a') {p : Pid} {cont : Cont} (hw : Waits L p a cont)
    (hm : Memory.Agree (L.stack p) a.mem a'.mem) (k : Kernel numProcesses) {x : ArmMachine}
    (hx : ArmMachine.loadNext L k a p = some (x, cont)) :
    ∃ x', ArmMachine.loadNext L k a' p = some (x', cont) ∧ EqOutside R x x' := by
  obtain ⟨above, hfit, haddr⟩ :
      ∃ above, above + 36 ≤ 8192 ∧ b.pa (a.ctx p).spSvc = L.resumeAddr p above := hw.addr
  have hword : ∀ i, i + 4 ≤ 36 → a'.mem.load32 (b.pa (a.ctx p).spSvc + i) =
      a.mem.load32 (b.pa (a.ctx p).spSvc + i) := by
    intro i hi
    rw [haddr]
    refine hm.load32 ?_
    have hs : (L.stack p).size = 8192 := rfl
    simp only [Region.Within, Layout.resumeAddr, hs]
    omega
  have hcallee : ∀ i : Fin 8, a'.mem.load32 (b.pa (a.ctx p).spSvc + 4 * i) =
      a.mem.load32 (b.pa (a.ctx p).spSvc + 4 * i) := fun i => hword _ (by omega)
  have hr : (fun i : Fin 13 => if 4 ≤ i.val ∧ i.val < 12 then
        a'.mem.load32 (b.pa (a.ctx p).spSvc + 4 * (i - 4)) else a.cpu.r i) =
      fun i : Fin 13 => if 4 ≤ i.val ∧ i.val < 12 then
        a.mem.load32 (b.pa (a.ctx p).spSvc + 4 * (i - 4)) else a.cpu.r i := by
    funext i
    split
    · exact hword _ (by omega)
    · rfl
  have hl := hword 32 (by omega)
  rw [h.eq_set]
  cases hw with
  | first hsp hlr =>
    have haddr : b.pa (a.ctx p).spSvc = L.resumeAddr p 64 := by
      rw [hsp]
      exact L.pa_below p (k := 100) (by omega)
    rw [← haddr] at hlr
    simp only [ArmMachine.loadNext, dite_eq_ite, hr, hl] at hx ⊢
    rw [if_pos hlr] at hx ⊢
    obtain rfl := congrArg Prod.fst (Option.some.inj hx)
    exact ⟨_, rfl, (of_mem h.mem).set _ h.mem⟩
  | @inC f above hf habove hfit hsp hfsp hcallee' hlr hframes =>
    have haddr : b.pa (a.ctx p).spSvc = L.resumeAddr p above := by
      rw [hsp]
      exact L.pa_below p hfit
    rw [← haddr] at hlr
    have hne : a.mem.load32 (b.pa (a.ctx p).spSvc + 32) ≠ L.retFromFirstEntry := by
      rw [hlr]
      exact L.switchReturn_ne
    have hpop : (a.ctx p).spSvc + 36#32 = L.kstackTop p - BitVec.ofNat 32 above := by
      rw [hsp]
      refine (sub_ofNat_add_ofNat _ (j := 36) (by omega)).trans ?_
      rw [Nat.add_sub_cancel]
    have hbytes : a'.mem.bytes (b.pa ((a.ctx p).spSvc + 36#32)) f.frames.length =
        a.mem.bytes (b.pa ((a.ctx p).spSvc + 36#32)) f.frames.length := by
      rw [hpop, L.pa_below p (by omega)]
      refine (Memory.bytes_congr (hm.mono ?_)).symm
      have hs : (L.stack p).size = 8192 := rfl
      simp only [Region.Within, hs]
      omega
    simp only [ArmMachine.loadNext, dite_eq_ite, hr, hl, hcallee, hbytes, if_neg hne, if_pos hlr,
      hf] at hx ⊢
    split at hx
    next hintact =>
      rw [if_pos hintact]
      obtain rfl := congrArg Prod.fst (Option.some.inj hx)
      exact ⟨_, rfl, (of_mem h.mem).set _ h.mem⟩
    next => cases hx

end EqOutside

/-! ### On behalf of a process with another slot -/

section Slot

variable {b : Board} {L : Layout b} {c j n : Pid} {a a' : ArmMachine} {m : ProcMachine} {ph : Phase}
  {site : Cont}

lemma EqOutside.stack (h : EqOutside (b.slot j) a a') (L : Layout b) (p : Pid) :
    Memory.Agree (L.stack p) a.mem a'.mem := by
  refine h.mem.agree (L.objectsApart.slots_stacks.mono (b.slot_within_slots j) ?_).symm
  exact L.stack_within p

/-- Two machines that differ in a slot represent the same processes, but for the memory. -/
lemma ArmRel.of_eqOutside (h : ArmRel L c ph a m) (he : EqOutside (b.slot j) a a') :
    ArmRel L c ph a' { m with umem := userMemory b a'.mem } := by
  have hst := he.stack L
  have hback : Background L c a' { m with umem := userMemory b a'.mem } := by
    refine ⟨fun p => (h.background.tables p).congr (he.mem.agree ?_), fun p va _ => rfl,
      h.background.mode, fun p hp hf => ?_⟩
    · exact (L.objectsApart.slots_tables.mono (b.slot_within_slots j) (L.table_within p)).symm
    · exact (h.background.others p hp hf).congr (hst p) (by rw [he.ctx]) (by rw [he.frames])
  have hsaved := h.saved.congr ((hst c).mono (frame_within_stack L c ph))
  refine ⟨hback, ?_, ?_, ?_, ?_, ?_, ?_, hsaved⟩ <;> rw [he.cpu]
  · exact h.ttbr0
  · exact h.modeStacks
  · exact h.spSvc
  · exact h.user
  · exact h.kernel
  · exact h.banked

/-- The exception frame is not in a slot. -/
lemma ArmRel.frame_word (h : ArmRel L c ph a m) (he : EqOutside (b.slot j) a a') {k : ℕ}
    (hk : k + 4 ≤ ph.frameSize) :
    a'.mem.load32 (b.pa a.cpu.spSvc + k) = a.mem.load32 (b.pa a.cpu.spSvc + k) := by
  rw [h.pa_spSvc]
  refine ((he.stack L c).mono (frame_within_stack L c ph)).load32 ?_
  simp only [Region.Within]
  omega

lemma ArmRel.leave_eqOutside (h : ArmRel L c ph a m) (he : EqOutside (b.slot j) a a')
    (cc : CompiledC) {x : Exit} (hx : ph = x.phase) :
    EqOutside (b.slot j) ((armArch L cc).leave a c x) ((armArch L cc).leave a' c x) := by
  subst hx
  cases x with
  | first => exact he.exitIrq fun k hk => h.frame_word he hk
  | irq => exact (he.ranC L cc c).exitIrq fun k hk => (h.ranC cc).frame_word (he.ranC L cc c) hk
  | svc => exact (he.ranC L cc c).exitSvc fun k hk => (h.ranC cc).frame_word (he.ranC L cc c) hk

/-- The first half of `context_switch` reads the stack of the process that gives up the CPU. -/
lemma ArmRel.savePrev_eqOutside (h : ArmRel L c site.phase a m) (he : EqOutside (b.slot j) a a')
    (cc : CompiledC) :
    EqOutside (b.slot j) (a.savePrev L cc c site) (a'.savePrev L cc c site) := by
  have hran := he.ranC L cc c
  have hd := cc.depth_le a.time
  have hf := site.phase.frameSize_le
  have hbytes : (a'.ranC L cc c).mem.bytes
        (b.pa (a.cpu.spSvc - BitVec.ofNat 32 (cc.depth a.time))) (cc.depth a.time) =
      (a.ranC L cc c).mem.bytes
        (b.pa (a.cpu.spSvc - BitVec.ofNat 32 (cc.depth a.time))) (cc.depth a.time) := by
    rw [h.spSvc, sub_ofNat_sub_ofNat, L.pa_below c (by omega)]
    refine (Memory.bytes_congr ((hran.stack L c).mono ?_)).symm
    have hs : (L.stack c).size = 8192 := rfl
    simp only [Region.Within, hs]
    omega
  refine ⟨?_, ?_, ?_, ?_, ?_⟩
  · simp [ArmMachine.savePrev, he.cpu]
  · simp only [ArmMachine.savePrev, he.cpu, he.ctx, he.time]
  · simp only [ArmMachine.savePrev, he.cpu, he.frames, he.time, hbytes]
  · simp only [ArmMachine.savePrev]
    exact hran.time
  · rw [mem_savePrev, mem_savePrev, he.cpu, he.time]
    exact hran.mem.storeWords _ _

/-- **`context_switch` of two machines that differ in a slot.** -/
lemma ArmRel.switch_eqOutside (h : ArmRel L c site.phase a m) (he : EqOutside (b.slot j) a a')
    (cc : CompiledC) (hn : n ≠ c) (hcont : m.cont n ≠ .faultTail) {k : Kernel numProcesses}
    {x : ArmMachine} (hx : ArmMachine.contextSwitch L cc k a c n site = some (x, m.cont n)) :
    ∃ x', ArmMachine.contextSwitch L cc k a' c n site = some (x', m.cont n) ∧
      EqOutside (b.slot j) x x' := by
  have hsave := h.savePrev_eqOutside he cc
  exact hsave.loadNext (h.suspended_savePrev cc hn hcont).waits (hsave.stack L n) k hx

/-- Two machines that differ in a slot, the first of which represents processes. -/
def Twin (L : Layout b) (j c : Pid) (ph : Phase) (a a' : ArmMachine) : Prop :=
  EqOutside (b.slot j) a a' ∧ ∃ m, ArmRel L c ph a m

lemma Twin.ofRel {x x' : Option ArmMachine} {y : Option ProcMachine}
    (h : Option.Rel (EqOutside (b.slot j)) x x') (hrel : Option.Rel (ArmRel L c ph) x y) :
    Option.Rel (Twin L j c ph) x x' := by
  cases h with
  | none => exact .none
  | some he =>
    cases hrel with
    | some hm => exact .some ⟨he, _, hm⟩

/-- The memory behind another process's window. -/
lemma EqOutside.slotAddr (h : EqOutside (b.slot j) a a') (hcj : c ≠ j) {va : Word}
    (hw : inWindow va = true) : a'.mem (slotAddr b c va) = a.mem (slotAddr b c va) :=
  h.mem _ ((b.slot_apart hcj).not_mem (slotAddr_mem c hw))

/-- **The operations on behalf of a process do not depend on another one's slot.** -/
theorem opsRel_twin (L : Layout b) (cc : CompiledC) (hcj : c ≠ j) :
    OpsRel (armArch L cc) (armArch L cc) c (Twin L j c) where
  exec {a a'} f := by
    rintro ⟨he, m, h⟩
    refine Twin.ofRel ?_ ((opsRel_arm L cc c).exec f h)
    simp only [armArch, he.cpu]
    split
    · exact .some ⟨rfl, he.ctx, he.frames, he.time, he.mem⟩
    · exact .none
  uload {a a'} va rd := by
    rintro ⟨he, m, h⟩
    refine Twin.ofRel ?_ ((opsRel_arm L cc c).uload va rd h)
    simp only [armArch, h.translate_user, (h.of_eqOutside he).translate_user]
    by_cases hw : inWindow va = true
    · rw [if_pos hw, Option.map_some, Option.map_some, he.slotAddr hcj hw, he.cpu]
      exact .some ⟨rfl, he.ctx, he.frames, he.time, he.mem⟩
    · rw [if_neg hw]
      exact .none
  ustore {a a'} va ch := by
    rintro ⟨he, m, h⟩
    refine Twin.ofRel ?_ ((opsRel_arm L cc c).ustore va ch h)
    simp only [armArch, h.translate_user, (h.of_eqOutside he).translate_user]
    by_cases hw : inWindow va = true
    · rw [if_pos hw]
      exact .some (he.store8 _ ch)
    · rw [if_neg hw]
      exact .none
  enter {a a'} x := by
    rintro ⟨he, m, h⟩
    exact ⟨he.enter b x, _, h.enter x⟩
  ctxFault {a a'} kind := by
    rintro ⟨he, m, h⟩
    have h' := (opsRel_arm L cc c).ctxFault kind (h.of_eqOutside he)
    refine ((opsRel_arm L cc c).ctxFault kind h).trans (Eq.trans ?_ h'.symm)
    cases kind <;> rfl
  ctxSvc {a a'} := by
    rintro ⟨he, m, h⟩
    have h' := h.of_eqOutside he
    exact ((opsRel_arm L cc c).ctxSvc h).trans ((opsRel_arm L cc c).ctxSvc h').symm
  setRet {a a'} v := by
    rintro ⟨he, m, h⟩
    refine ⟨?_, _, h.setRet v⟩
    simp only [armArch, he.cpu]
    exact ⟨rfl, he.ctx, he.frames, he.time, he.mem.store32 _ v⟩
  kload {a a'} va hw := by
    rintro ⟨he, m, h⟩
    simp only [armArch, h.translate_kernel hw, (h.of_eqOutside he).translate_kernel hw,
      Option.map_some, he.slotAddr hcj hw]
  kstore {a a'} va ch hw := by
    rintro ⟨he, m, h⟩
    refine Twin.ofRel ?_ ((opsRel_arm L cc c).kstore va ch hw h)
    simp only [armArch, h.translate_kernel hw, (h.of_eqOutside he).translate_kernel hw]
    exact .some (he.store8 _ ch)

end Slot

/-! ### The system -/

/-- Two systems that differ in the slot of `j` only. -/
structure Twins (b : Board) (j : Pid) (s s' : Sys ArmMachine) : Prop where
  kern : s'.kern = s.kern
  ctl : s'.ctl = s.ctl
  arch : EqOutside (b.slot j) s.arch s'.arch

section Step

variable {b : Board} {L : Layout b} {cc : CompiledC} {s s' s₂ : Sys ArmMachine}
  {t : Sys ProcMachine} {c j : Pid} {e : Event}

lemma Sim.sysRel_twin (h : Sim L s t) (ht : Twins b j s s₂) : SysRel (Twin L j) s s₂ := by
  refine ⟨ht.kern.symm, ht.ctl.symm, ?_⟩
  intro c hc
  have hat := h.rel.arch c (by rw [← h.rel.kern, ← ht.kern, hc])
  rw [← h.rel.ctl] at hat
  rw [ht.ctl]
  exact hat.imp fun ph hrel => ⟨ht.arch, _, hrel⟩

lemma SysRel.twins (h : SysRel (Twin L j) s s₂) (hc : s.kern.current = some c) :
    Twins b j s s₂ := by
  obtain ⟨ph, he, -⟩ := (h.arch c (by rw [← h.kern, hc])).exists
  exact ⟨h.kern.symm, h.ctl.symm, he⟩

/-- A call of `schedule` by two machines that differ in a slot. -/
lemma sysRel_callSchedule_twin {k : Kernel numProcesses} {a a₂ : ArmMachine} {m : ProcMachine}
    {site : Cont} (h : ArmRel L c site.phase a m) (he : EqOutside (b.slot j) a a₂)
    (hready : CallReady b k m c site) (hbuilt : Built L k) :
    SysRel (Twin L j) (callSchedule (armArch L cc) k a c site)
      (callSchedule (armArch L cc) k a₂ c site) := by
  have hleave : ∀ {c a a₂} (x : Exit), Twin L j c x.phase a a₂ →
      Twin L j c .user ((armArch L cc).leave a c x) ((armArch L cc).leave a₂ c x) := by
    rintro c a a₂ x ⟨he, m, h⟩
    exact ⟨h.leave_eqOutside he cc rfl, m, h.leave cc x⟩
  refine callSchedule_rel hleave hready.current ⟨he, m, h⟩ ?_
  intro k' n hsch
  obtain ⟨hn, hcont⟩ := hready.switch_cont hsch
  have hk' := hbuilt.schedule hsch
  obtain ⟨x, hx, hrel⟩ := h.switch cc hn hcont hready.noFault (hk'.pgdPa n)
  obtain ⟨x₂, hx₂, hxe⟩ := h.switch_eqOutside he cc hn hcont hx
  exact ⟨x, x₂, m.cont n, hx, hx₂, hxe, _, hrel⟩

/-- **One step of two systems that differ in a slot**, while another process is current. -/
theorem Sim.twins_step (h : Sim L s t) (cc : CompiledC) (ht : Twins b j s s₂)
    (hj : s.kern.current ≠ some j) (e : Event) :
    Option.Rel (Twins b j) (step (armArch L cc) b s e) (step (armArch L cc) b s₂ e) := by
  obtain ⟨c, hinv⟩ := h.inv
  have hc : s.kern.current = some c := by rw [h.rel.kern, hinv.current]
  have hc₂ : s₂.kern.current = some c := by rw [ht.kern, hc]
  have hcj : c ≠ j := fun hcj => hj (hcj ▸ hc)
  have hv : ∀ buf len n got, t.ctl = .readLoop buf len n got → validUserPtr buf len = true :=
    fun buf len n got hctl => (hinv.readArgs buf len n got hctl).valid
  have hproc := handle_rel (opsRel_arm L cc c) h.rel hinv.current hv b e
  have htwin := handle_rel (opsRel_twin L cc hcj) (h.sysRel_twin ht) hc₂
    (fun buf len n got hctl => hv buf len n got (by rw [← h.rel.ctl, ← ht.ctl, hctl])) b e
  simp only [step, hc, hc₂]
  generalize handle (armArch L cc) b s c e = x at hproc htwin
  generalize handle (armArch L cc) b s₂ c e = x₂ at htwin
  generalize hy : handle procArch b t c e = y at hproc
  cases htwin with
  | none => exact .none
  | @some x x₂ hxx =>
    cases hproc with
    | @some _ y hxy =>
      refine .some ?_
      obtain ⟨c', hinv'⟩ : ∃ c', Inv b (finish procArch c y) c' :=
        hinv.preserved (e := e) (by simp [step, hinv.current, hy])
      rcases handle_cases hinv.current hinv.ring (hinv.mode c) hinv.readArgs hy with
        ⟨t', rfl, hq⟩ | ⟨act, site, k, m, marks, hcall, rfl⟩
      · cases hxy with
        | point hat =>
          cases hxx with
          | point hat₂ =>
            obtain ⟨ph, he, -⟩ := hat₂.exists
            exact ⟨rfl, rfl, he⟩
      · have hready := hcall.callReady hinv
        have hbuilt := h.built.trans (hcall.keeps hinv)
        cases hxy with
        | schedule hrel =>
          cases hxx with
          | schedule htw =>
            have hcur : (callSchedule procArch k m c site).kern.current = some c' := hinv'.current
            refine (sysRel_callSchedule_twin hrel htw.1 hready hbuilt).twins (c := c') ?_
            have hkern := (ArmRel.callSchedule cc hrel hready hbuilt).kern
            rw [hkern, hcur]

/-- **Two systems that differ in a slot take the same steps** until its process becomes
current. -/
theorem Sim.twins_run (h : Sim L s t) (cc : CompiledC) (ht : Twins b j s s₂) {es : List Event}
    (hes : AllBefore (step (armArch L cc) b) (fun s => s.kern.current ≠ some j) s es) :
    Option.Rel (Twins b j) (run (step (armArch L cc) b) s es)
      (run (step (armArch L cc) b) s₂ es) := by
  refine run_rel_while (I := fun s => ∃ t, Sim L s t) ?_ ?_ hes ⟨t, h⟩ ht
  · rintro s e s' ⟨t, h⟩ hs
    obtain ⟨t', -, h'⟩ := h.forth hs
    exact ⟨t', h'⟩
  · rintro s s₂ e ⟨t, h⟩ hj ht
    exact h.twins_step cc ht hj e

/-- Every byte of a slot is behind the window. -/
lemma exists_slotAddr {x : ℕ} (hx : (b.slot j).Mem x) :
    ∃ va, inWindow va = true ∧ slotAddr b j va = x := by
  obtain ⟨h1, h2⟩ := hx
  have hsize : (b.slot j).size = 0x100000 := toNat_userRegionSize
  rw [hsize] at h2
  have hbase : (b.slot j).base = (b.slotBase j).toNat := rfl
  rw [hbase] at h1 h2
  have hva : (BitVec.ofNat 32 (0x40000000 + (x - (b.slotBase j).toNat))).toNat =
      0x40000000 + (x - (b.slotBase j).toNat) := by
    rw [BitVec.toNat_ofNat]
    omega
  refine ⟨BitVec.ofNat 32 (0x40000000 + (x - (b.slotBase j).toNat)), ?_, ?_⟩
  · rw [inWindow_iff, hva]
    omega
  · rw [slotAddr, BitVec.toNat_sub, hva, toNat_userVirtBase]
    omega

/-- A step changes no slot but the current process's. -/
lemma Sim.slot_unchanged (h : Sim L s t) (hj : s.kern.current ≠ some j)
    (hs : step (armArch L cc) b s e = some s') :
    Memory.Agree (b.slot j) s.arch.mem s'.arch.mem := by
  obtain ⟨c, hinv⟩ := h.inv
  obtain ⟨t', ht', h'⟩ := h.forth hs
  have hjc : j ≠ c := by
    rintro rfl
    exact hj (by rw [h.rel.kern, hinv.current])
  intro x hx
  obtain ⟨va, hw, rfl⟩ := exists_slotAddr hx
  have hbefore : s.arch.mem (slotAddr b j va) = t.arch.umem j va := h.umem j hw
  have hafter : s'.arch.mem (slotAddr b j va) = t'.arch.umem j va := h'.umem j hw
  rw [hbefore, hafter, hinv.step_umem hjc ht']

/-- **Memory isolation.**  While `i` is current, user code reaches slot `i` and nothing else,
no step changes another slot `j`, and no step depends on it: a system that differs in slot
`j` takes the same steps, with the same effect elsewhere, until `j` becomes current. -/
theorem memory_isolation {mem : Memory} {cpu : Cpu} {i : Pid}
    (hr : Reachable (step (armArch L cc) b) (armSys L cc mem cpu) s)
    (hi : s.kern.current = some i) (hij : i ≠ j) :
    (∀ va write pa, s.ctl = .user →
        translate s.arch.mem s.arch.cpu.ttbr0 va s.arch.cpu.privileged write = some pa →
        (b.slot i).Mem pa) ∧
      (∀ e s', step (armArch L cc) b s e = some s' →
        Memory.Agree (b.slot j) s.arch.mem s'.arch.mem) ∧
      (∀ s₂ es, Twins b j s s₂ →
        AllBefore (step (armArch L cc) b) (fun s => s.kern.current ≠ some j) s es →
        Option.Rel (Twins b j) (run (step (armArch L cc) b) s es)
          (run (step (armArch L cc) b) s₂ es)) := by
  obtain ⟨t, -, h⟩ := sim_of_reachable hr
  have hj : s.kern.current ≠ some j := by
    rw [hi]
    exact fun heq => hij (Option.some.inj heq)
  refine ⟨fun va write pa hu hpa => ?_, fun e s' hs => h.slot_unchanged hj hs,
    fun s₂ es ht hes => h.twins_run cc ht hes⟩
  have hrel : ArmRel L i .user s.arch t.arch :=
    (atPoint_iff (by rw [← h.rel.ctl, hu]; rfl)).1 (h.rel.arch i (by rw [← h.rel.kern, hi]))
  rw [hrel.translate_user] at hpa
  split at hpa
  next hw =>
    obtain rfl := Option.some.inj hpa
    exact slotAddr_mem i hw
  next => cases hpa

end Step

/-- A system with another byte in a slot. -/
lemma Twins.ofStore {b : Board} {j : Pid} (s : Sys ArmMachine) {va : Word} (hw : inWindow va = true)
    (ch : Byte) :
    Twins b j s ⟨s.kern, { s.arch with mem := s.arch.mem.store8 (slotAddr b j va) ch }, s.ctl⟩ := by
  obtain ⟨h1, h2⟩ := slotAddr_mem (b := b) j hw
  exact ⟨rfl, rfl, EqOutside.of_mem ((Memory.store8_within _ _ _).mono ⟨h1, h2⟩)⟩

lemma byte_add_one_ne (v : Byte) : v + 1#8 ≠ v := by
  revert v
  decide

/-- Process 0 stores a byte and is preempted by a tick; another byte in slot 1 makes no
difference. -/
theorem memory_isolation_tick :
    ∃ s₂, s₂.arch.mem (slotAddr .qemu 1 0x40000000#32) ≠
        qemuBoot.arch.mem (slotAddr .qemu 1 0x40000000#32) ∧
      Option.Rel (Twins .qemu 1)
        (run (step (armArch qemuLayout .zeroed) .qemu) qemuBoot
          [.store 0x40000000#32 7#8, .irq 36#32 []])
        (run (step (armArch qemuLayout .zeroed) .qemu) s₂
          [.store 0x40000000#32 7#8, .irq 36#32 []]) := by
  have h₀ : Sim qemuLayout qemuBoot qemuProcs := sim_boot _ _ _ _
  have hcur : qemuBoot.kern.current = some 0 := congrArg Kernel.current h₀.rel.kern
  have hes : AllBefore (step (armArch qemuLayout .zeroed) .qemu) (fun s => s.kern.current ≠ some 1)
      qemuBoot [.store 0x40000000#32 7#8, .irq 36#32 []] := by
    refine ⟨?_, fun s' hs' => ⟨?_, fun _ _ => trivial⟩⟩
    · exact fun h => absurd (hcur.symm.trans h) (by decide)
    · obtain ⟨t', ht', h'⟩ := h₀.forth hs'
      have hstore : ((step procArch .qemu qemuProcs (.store 0x40000000#32 7#8)).map
          fun t => t.kern.current) = some (some 0) := by decide +kernel
      have hcur' : t'.kern.current = some 0 := by simpa [ht'] using hstore
      have hs₁ : s'.kern.current = some 0 := by rw [h'.rel.kern, hcur']
      exact fun h => absurd (hs₁.symm.trans h) (by decide)
  have hwindow : inWindow 0x40000000#32 = true := by decide
  have hsame := Twins.ofStore (b := .qemu) (j := 1) qemuBoot hwindow
      (qemuBoot.arch.mem (slotAddr .qemu 1 0x40000000#32) + 1#8)
  refine ⟨_, ?_, (memory_isolation (Reachable.refl qemuBoot) hcur (j := 1) (by decide)).2.2 _ _
    hsame hes⟩
  simp only [Memory.store8, Function.update_self]
  exact byte_add_one_ne _

end RingNova
