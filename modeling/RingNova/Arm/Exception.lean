/-
# Exception entries and exits

What the entries push is what the exits, and the C handlers, find: after an entry the
registers of the interrupted process are in its exception frame, and an exit brings them
back.  Together with the user's own loads and stores this gives `opsRel_arm`: on behalf of the
current process, the ARM machine does what the process-level machine does.
-/
import RingNova.Arm.Relation

namespace RingNova

/-! ### Stack addresses -/

lemma sub_ofNat_sub_ofNat (x : Word) (i j : ℕ) :
    x - BitVec.ofNat 32 i - BitVec.ofNat 32 j = x - BitVec.ofNat 32 (i + j) := by
  rw [BitVec.ofNat_add, BitVec.sub_sub]

lemma sub_ofNat_add_ofNat (x : Word) {i j : ℕ} (h : j ≤ i) :
    x - BitVec.ofNat 32 i + BitVec.ofNat 32 j = x - BitVec.ofNat 32 (i - j) := by
  obtain ⟨k, rfl⟩ := Nat.exists_eq_add_of_le' h
  rw [Nat.add_sub_cancel, BitVec.ofNat_add, ← BitVec.sub_sub, BitVec.sub_add_cancel]

/-- No wrap-around below an address of the high alias. -/
lemma Board.pa_sub (b : Board) (va : Word) {i : ℕ} (h : i ≤ b.pa va) :
    b.pa (va - BitVec.ofNat 32 i) = b.pa va - i := by
  have hlt : b.pa va < 2 ^ 32 := (va - b.physOffset).isLt
  have hswap : va - BitVec.ofNat 32 i - b.physOffset = (va - b.physOffset) - BitVec.ofNat 32 i := by
    rw [BitVec.sub_sub, BitVec.sub_sub, BitVec.add_comm]
  have hi : (BitVec.ofNat 32 i).toNat = i := by
    rw [BitVec.toNat_ofNat, Nat.mod_eq_of_lt (by omega)]
  rw [Board.pa, hswap, BitVec.toNat_sub_of_le, hi]
  · rfl
  · rw [BitVec.le_def, hi]
    exact h

lemma length_gprsAnd (r : Fin 13 → Word) (lr : Word) : (gprsAnd r lr).length = 14 := by
  simp [gprsAnd]

section Push

variable {b : Board} {sp : Word} {x : ℕ}

lemma stmfd_within (mem : Memory) (ws : List Word) (h : b.pa (below sp ws) = x) :
    Memory.Within ⟨x, 4 * ws.length⟩ mem (stmfd b mem sp ws) := by
  subst h
  exact Memory.storeWords_within _ _ _

lemma load32_stmfd (mem : Memory) (ws : List Word) (h : b.pa (below sp ws) = x) {i : ℕ}
    (hi : i < ws.length) :
    (stmfd b mem sp ws).load32 (x + 4 * i) = ws.get ⟨i, hi⟩ := by
  subst h
  exact Memory.load32_storeWords _ _ _ hi

variable (mem : Memory) (r : Fin 13 → Word) (lr : Word)

lemma load32_gprsAnd (h : b.pa (below sp (gprsAnd r lr)) = x) :
    (∀ i : Fin 13, (stmfd b mem sp (gprsAnd r lr)).load32 (x + 4 * i) = r i) ∧
      (stmfd b mem sp (gprsAnd r lr)).load32 (x + 52) = lr := by
  constructor
  · intro i
    have hi : (i : ℕ) < (gprsAnd r lr).length := by
      rw [length_gprsAnd]
      omega
    have hi' : (i : ℕ) < (List.ofFn r).length := by simp
    rw [load32_stmfd mem _ h hi, List.get_eq_getElem]
    exact (List.getElem_append_left hi').trans (List.getElem_ofFn hi')
  · have h13 : 13 < (gprsAnd r lr).length := by
      rw [length_gprsAnd]
      omega
    rw [show x + 52 = x + 4 * 13 from rfl, load32_stmfd mem _ h h13]
    simp [gprsAnd]

/-- The 15-word frame: `{r0-r12, lr}`, then the SPSR below. -/
lemma push_context (spsr : Word) (h : b.pa (sp - BitVec.ofNat 32 56) = x + 4)
    (h' : b.pa (sp - BitVec.ofNat 32 60) = x) :
    ArmMachine.contextAt
        (stmfd b (stmfd b mem sp (gprsAnd r lr)) (below sp (gprsAnd r lr)) [spsr]) x =
        ⟨spsr, r, lr⟩ ∧
      Memory.Within ⟨x, 60⟩ mem
        (stmfd b (stmfd b mem sp (gprsAnd r lr)) (below sp (gprsAnd r lr)) [spsr]) := by
  have hsp1 : b.pa (below sp (gprsAnd r lr)) = x + 4 := by
    rw [below, length_gprsAnd]
    exact h
  have hsp2 : b.pa (below (below sp (gprsAnd r lr)) [spsr]) = x := by
    rw [below, below, length_gprsAnd, sub_ofNat_sub_ofNat]
    exact h'
  have hw1 : Memory.Within ⟨x + 4, 56⟩ mem (stmfd b mem sp (gprsAnd r lr)) := by
    have := stmfd_within mem _ hsp1
    rwa [length_gprsAnd] at this
  have hw2 := stmfd_within (stmfd b mem sp (gprsAnd r lr)) _ hsp2
  obtain ⟨hr, hlr⟩ := load32_gprsAnd mem r lr hsp1
  have hkeep : ∀ k, k + 4 ≤ 56 →
      (stmfd b (stmfd b mem sp (gprsAnd r lr)) (below sp (gprsAnd r lr)) [spsr]).load32
          (x + 4 + k) =
        (stmfd b mem sp (gprsAnd r lr)).load32 (x + 4 + k) := fun k hk => by
    refine (hw2.agree (S := ⟨x + 4, 56⟩) ?_).load32 ?_
    · right
      simp
    · exact ⟨Nat.le_add_right _ _, by simp only; omega⟩
  refine ⟨?_, (hw1.mono ?_).trans (hw2.mono ?_)⟩
  · have hspsr := load32_stmfd (stmfd b mem sp (gprsAnd r lr)) _ hsp2 (i := 0) (by simp)
    have hr' : (fun i : Fin 13 => (stmfd b (stmfd b mem sp (gprsAnd r lr))
        (below sp (gprsAnd r lr)) [spsr]).load32 (x + 4 + 4 * i)) = r := by
      funext i
      have := i.isLt
      exact (hkeep (4 * i) (by omega)).trans (hr i)
    simp only [ArmMachine.contextAt]
    rw [hr', show x + 56 = x + 4 + 52 from rfl, hkeep 52 (by omega), hlr]
    congr 1
  · exact ⟨Nat.le_add_right _ _, by simp only; omega⟩
  · exact ⟨Nat.le_refl _, by simp⟩

/-- The 16-word frame: PC and CPSR first, then `{r0-r12, lr}` below. -/
lemma push_irqFrame (pc cpsr : Word) (h : b.pa (sp - BitVec.ofNat 32 8) = x + 56)
    (h' : b.pa (sp - BitVec.ofNat 32 64) = x) :
    let mem' := stmfd b (stmfd b mem sp [pc, cpsr]) (below sp [pc, cpsr]) (gprsAnd r lr)
    (∀ i : Fin 13, mem'.load32 (x + 4 * i) = r i) ∧ mem'.load32 (x + 56) = pc ∧
      mem'.load32 (x + 60) = cpsr ∧ Memory.Within ⟨x, 64⟩ mem mem' := by
  have hsp2 : b.pa (below (below sp [pc, cpsr]) (gprsAnd r lr)) = x := by
    rw [below, below, length_gprsAnd, sub_ofNat_sub_ofNat]
    exact h'
  have hw1 := stmfd_within mem [pc, cpsr] h
  have hw2 : Memory.Within ⟨x, 56⟩ (stmfd b mem sp [pc, cpsr])
      (stmfd b (stmfd b mem sp [pc, cpsr]) (below sp [pc, cpsr]) (gprsAnd r lr)) := by
    have := stmfd_within (stmfd b mem sp [pc, cpsr]) _ hsp2
    rwa [length_gprsAnd] at this
  have hkeep := hw2.agree (S := ⟨x + 56, 8⟩) (Or.inr (le_refl _))
  refine ⟨(load32_gprsAnd _ r lr hsp2).1, ?_, ?_, (hw1.mono ?_).trans (hw2.mono ?_)⟩
  · rw [hkeep.load32 ⟨le_refl _, by simp⟩]
    exact load32_stmfd mem [pc, cpsr] h (i := 0) (by simp)
  · rw [hkeep.load32 ⟨by simp, by simp⟩]
    exact load32_stmfd mem [pc, cpsr] h (i := 1) (by simp)
  · exact ⟨Nat.le_add_right _ _, by simp⟩
  · exact ⟨le_refl _, by simp only; omega⟩

end Push

/-! ### Entries -/

section Entry

variable {b : Board} {L : Layout b} {c : Pid} {a : ArmMachine} {m : ProcMachine}

lemma Layout.spSvc_user (h : ArmRel L c .user a m) : a.cpu.spSvc = L.kstackTop c := by
  rw [h.spSvc]
  exact BitVec.sub_zero _

lemma userRegs_parts (h : ArmRel L c .user a m) :
    a.cpu.r = (m.regs c).r ∧ a.cpu.pc = (m.regs c).pc ∧ a.cpu.cpsr = (m.regs c).cpsr := by
  rw [← h.user rfl]
  exact ⟨rfl, rfl, rfl⟩

/-- The entry of an interrupt. -/
lemma ArmRel.enterIrq (h : ArmRel L c .user a m) :
    ArmRel L c .irq (a.exceptionEntryIrq b) (m.enter c .irq) := by
  obtain ⟨hr, hpc, hcpsr⟩ := userRegs_parts h
  have hpc' : a.cpu.pc + 4#32 - 4#32 = a.cpu.pc := BitVec.add_sub_cancel _ _
  have hx1 : b.pa (a.cpu.spSvc - BitVec.ofNat 32 8) = L.frameAddr c .irq + 56 := by
    rw [L.spSvc_user h]
    exact L.pa_below c (by omega)
  have hx2 : b.pa (a.cpu.spSvc - BitVec.ofNat 32 64) = L.frameAddr c .irq := by
    rw [L.spSvc_user h]
    exact L.pa_below c (by omega)
  obtain ⟨h1, h2, h3, h4⟩ := push_irqFrame a.mem a.cpu.r a.cpu.lrSvc
    (a.cpu.pc + 4#32 - 4#32) a.cpu.cpsr hx1 hx2
  have hst := h4.mono (frame_within_stack L c .irq)
  refine ⟨h.background.congr (undisturbed_of_stack hst) (fun _ _ => rfl) (fun _ _ => rfl) rfl
    (fun _ _ => rfl) (h.background.mode c) (fun _ _ => rfl), h.ttbr0, h.modeStacks, ?_,
    fun hph => absurd hph (by simp), fun _ => rfl, fun _ => h.banked (by simp), ?_⟩
  · show below (below a.cpu.spSvc _) _ = _
    rw [below, below, length_gprsAnd, sub_ofNat_sub_ofNat, L.spSvc_user h]
    rfl
  · exact ⟨fun i => (h1 i).trans (congrFun hr i), h2.trans (hpc'.trans hpc), h3.trans hcpsr⟩

/-- The entry of an `svc`. -/
lemma ArmRel.enterSvc (h : ArmRel L c .user a m) :
    ArmRel L c .svc (a.exceptionEntrySvc b) (m.enter c .svc) := by
  obtain ⟨hr, hpc, hcpsr⟩ := userRegs_parts h
  have hx1 : b.pa (a.cpu.spSvc - BitVec.ofNat 32 56) = L.frameAddr c .svc + 4 := by
    rw [L.spSvc_user h]
    exact L.pa_below c (by omega)
  have hx2 : b.pa (a.cpu.spSvc - BitVec.ofNat 32 60) = L.frameAddr c .svc := by
    rw [L.spSvc_user h]
    exact L.pa_below c (by omega)
  obtain ⟨h1, h2⟩ := push_context a.mem a.cpu.r (a.cpu.pc + svcSize a.cpu.cpsr)
    a.cpu.cpsr hx1 hx2
  have hst := h2.mono (frame_within_stack L c .svc)
  have hregs : (m.enter c .svc).regs c =
      { m.regs c with pc := (m.regs c).pc + svcSize (m.regs c).cpsr } := by
    simp [ProcMachine.enter, ProcMachine.setRegs]
  refine ⟨h.background.congr (undisturbed_of_stack hst) (fun _ _ => rfl) (fun _ _ => rfl) rfl
    (fun p hp => ?_) ?_ (fun _ _ => rfl), h.ttbr0, h.modeStacks, ?_,
    fun hph => absurd hph (by simp), fun _ => rfl, fun _ => ?_, ?_⟩
  · simp [ProcMachine.enter, ProcMachine.setRegs, hp]
  · rw [hregs]
    exact h.background.mode c
  · show below (below a.cpu.spSvc _) _ = _
    rw [below, below, length_gprsAnd, sub_ofNat_sub_ofNat, L.spSvc_user h]
    rfl
  · rw [hregs]
    exact h.banked (by simp)
  · rw [hregs]
    refine Eq.trans h1 ?_
    rw [hr, hpc, hcpsr]

lemma ProcMachine.faults_le (m : ProcMachine) : m.faults ≤ 3 :=
  Finset.card_le_univ _

/-- The address `k` bytes below the top of a mode stack. -/
lemma pa_modeStack {top : Word}
    (h : (Region.mk (b.pa top - modeStackSize) modeStackSize).Within b.ram) {k : ℕ}
    (hk : k ≤ 1024) :
    b.pa (top - BitVec.ofNat 32 k) = b.pa top - modeStackSize + (1024 - k) := by
  have hbase : 2048 ≤ b.ram.base := by cases b <;> decide
  obtain ⟨h1, -⟩ := h
  simp only [modeStackSize] at h1 ⊢
  rw [b.pa_sub _ (by omega)]
  omega

/-- A 15-word frame on a mode stack that holds at most three. -/
lemma push_modeFrame {top sp : Word} {i : ℕ} (hsp : sp = top - BitVec.ofNat 32 (60 * i))
    (hi : i ≤ 3) (h : (Region.mk (b.pa top - modeStackSize) modeStackSize).Within b.ram)
    (mem : Memory) (r : Fin 13 → Word) (lr spsr : Word) :
    let sp' := below (below sp (gprsAnd r lr)) [spsr]
    let mem' := stmfd b (stmfd b mem sp (gprsAnd r lr)) (below sp (gprsAnd r lr)) [spsr]
    sp' = top - BitVec.ofNat 32 (60 * (i + 1)) ∧
      ArmMachine.contextAt mem' (b.pa sp') = ⟨spsr, r, lr⟩ ∧
      Memory.Within ⟨b.pa top - modeStackSize, modeStackSize⟩ mem mem' := by
  have hsub : ∀ k, sp - BitVec.ofNat 32 k = top - BitVec.ofNat 32 (60 * i + k) := fun k => by
    rw [hsp, sub_ofNat_sub_ofNat]
  have hsp' : below (below sp (gprsAnd r lr)) [spsr] = sp - BitVec.ofNat 32 60 := by
    rw [below, below, length_gprsAnd, sub_ofNat_sub_ofNat]
    rfl
  have hx1 : b.pa (sp - BitVec.ofNat 32 56) =
      b.pa top - modeStackSize + (1024 - (60 * i + 60)) + 4 := by
    rw [hsub, pa_modeStack h (by omega)]
    omega
  have hx2 : b.pa (sp - BitVec.ofNat 32 60) =
      b.pa top - modeStackSize + (1024 - (60 * i + 60)) := by
    rw [hsub, pa_modeStack h (by omega)]
  obtain ⟨h1, h2⟩ := push_context mem r lr spsr hx1 hx2
  refine ⟨hsp'.trans (hsub 60), ?_, h2.mono ⟨Nat.le_add_right _ _, ?_⟩⟩
  · rw [hsp', hx2]
    exact h1
  · simp only [modeStackSize]
    omega

/-- After a fault nothing is known about the registers of the current process. -/
lemma ArmRel.fault (h : ArmRel L c .user a m) {a' : ArmMachine}
    (hm : Undisturbed L c a.mem a'.mem) (hctx : a'.ctx = a.ctx) (hf : a'.frames = a.frames)
    (ht : a'.cpu.ttbr0 = a.cpu.ttbr0) (hsp : a'.cpu.spSvc = a.cpu.spSvc)
    (hcpsr : a'.cpu.cpsr = svcMode) (hst : ModeStacks L (m.faults + 1) a'.cpu) :
    ArmRel L c .fault a' m :=
  ⟨h.background.congr hm (fun p _ => congrFun hctx p) (fun p _ => congrFun hf p) rfl
    (fun _ _ => rfl) (h.background.mode c) (fun _ _ => rfl), ht.trans h.ttbr0, hst,
    hsp.trans h.spSvc, fun hph => absurd hph (by simp), fun _ => hcpsr,
    fun hph => absurd rfl hph, trivial⟩

/-- The entry of a data or prefetch abort, and the frame it leaves on the abort stack. -/
lemma ArmRel.enterAbort (h : ArmRel L c .user a m) (offset : Word) :
    ArmRel L c .fault (a.exceptionEntryAbort b offset) m ∧
      ArmMachine.contextAt (a.exceptionEntryAbort b offset).mem
        (b.pa (a.exceptionEntryAbort b offset).cpu.spAbt) =
        ⟨(m.regs c).cpsr, (m.regs c).r, (m.regs c).pc⟩ := by
  obtain ⟨hr, hpc, hcpsr⟩ := userRegs_parts h
  obtain ⟨i, j, hi, hj, hij⟩ := h.modeStacks
  have hle : i + j ≤ m.faults := hij
  have hmax := m.faults_le
  obtain ⟨h1, h2, h3⟩ := push_modeFrame hi (by omega) (L.objects_in_ram _ (by simp)) a.mem
    a.cpu.r (a.cpu.pc + offset - offset) a.cpu.cpsr
  refine ⟨h.fault (undisturbed_of_abt h3) rfl rfl rfl rfl rfl ⟨i + 1, j, h1, hj, by omega⟩,
    Eq.trans h2 ?_⟩
  rw [hr, hcpsr, BitVec.add_sub_cancel, hpc]

/-- The entry of an undefined instruction, and the frame it leaves on its mode's stack. -/
lemma ArmRel.enterUndef (h : ArmRel L c .user a m) :
    ArmRel L c .fault (a.exceptionEntryUndef b) m ∧
      ArmMachine.contextAt (a.exceptionEntryUndef b).mem
        (b.pa (a.exceptionEntryUndef b).cpu.spUnd) =
        ⟨(m.regs c).cpsr, (m.regs c).r, undefinedPc (m.regs c)⟩ := by
  obtain ⟨hr, hpc, hcpsr⟩ := userRegs_parts h
  obtain ⟨i, j, hi, hj, hij⟩ := h.modeStacks
  have hle : i + j ≤ m.faults := hij
  have hmax := m.faults_le
  obtain ⟨h1, h2, h3⟩ := push_modeFrame hj (by omega) (L.objects_in_ram _ (by simp)) a.mem
    a.cpu.r (a.cpu.pc + svcSize a.cpu.cpsr - 4#32) a.cpu.cpsr
  refine ⟨h.fault (undisturbed_of_und h3) rfl rfl rfl rfl rfl ⟨i, j + 1, hi, h1, by omega⟩,
    Eq.trans h2 ?_⟩
  rw [hr, hcpsr, hpc]
  rfl

/-- **Entries in step.** -/
lemma ArmRel.enter (h : ArmRel L c .user a m) (x : Exn) :
    ArmRel L c x.phase (a.enter b x) (m.enter c x) := by
  cases x with
  | irq => exact h.enterIrq
  | svc => exact h.enterSvc
  | dataAbort => exact (h.enterAbort _).1
  | prefetchAbort => exact (h.enterAbort _).1
  | undefined => exact h.enterUndef.1

/-- The frame a fault handler is given. -/
lemma ArmRel.faultContext (h : ArmRel L c .user a m) (kind : FaultKind) :
    ArmMachine.contextAt (a.enter b kind.exn).mem
        (b.pa ((a.enter b kind.exn).contextPtr kind.exn)) =
      (m.enter c kind.exn).ctx c kind.exn := by
  cases kind with
  | dataAbort => exact (h.enterAbort _).2
  | prefetchAbort => exact (h.enterAbort _).2
  | undefined => exact h.enterUndef.2

/-! ### In the handler of an `svc` -/

lemma ArmRel.pa_spSvc {ph : Phase} (h : ArmRel L c ph a m) :
    b.pa a.cpu.spSvc = L.frameAddr c ph := by
  rw [h.spSvc]
  exact L.pa_below c (by cases ph <;> decide)

/-- The frame `syscall_dispatch` is given. -/
lemma ArmRel.svcContext (h : ArmRel L c .svc a m) :
    ArmMachine.contextAt a.mem (b.pa (a.contextPtr .svc)) = m.ctx c .svc := by
  have hsp : a.contextPtr .svc = a.cpu.spSvc := rfl
  rw [hsp, h.pa_spSvc]
  exact h.saved

lemma contextAt_store32_ret (mem : Memory) (x : ℕ) (v : Word) :
    ArmMachine.contextAt (mem.store32 (x + 4) v) x =
      { ArmMachine.contextAt mem x with
        r := Function.update (ArmMachine.contextAt mem x).r 0 v } := by
  have hw := Memory.store32_within mem (x + 4) v
  have hspsr : (mem.store32 (x + 4) v).load32 x = mem.load32 x :=
    (hw.agree (S := ⟨x, 4⟩) (Or.inl (le_refl _))).load32 ⟨le_refl _, le_refl _⟩
  have hkeep : ∀ k, 8 ≤ k → (mem.store32 (x + 4) v).load32 (x + k) = mem.load32 (x + k) :=
    fun k hk => by
      refine (hw.agree (S := ⟨x + k, 4⟩) (Or.inr ?_)).load32 ⟨le_refl _, le_refl _⟩
      simp only
      omega
  have hr : (fun i : Fin 13 => (mem.store32 (x + 4) v).load32 (x + 4 + 4 * i)) =
      Function.update (fun i : Fin 13 => mem.load32 (x + 4 + 4 * i)) 0 v := by
    funext i
    by_cases hi : i = 0
    · subst hi
      rw [Function.update_self]
      exact Memory.load32_store32 _ _ _
    · have hpos : 1 ≤ (i : ℕ) := Nat.one_le_iff_ne_zero.2 fun h0 => hi (Fin.ext h0)
      rw [Function.update_of_ne hi, Nat.add_assoc]
      exact hkeep (4 + 4 * i) (by omega)
  simp only [ArmMachine.contextAt, hspsr, hr, hkeep 56 (by omega)]

/-- `ctx->r[0] = ret`. -/
lemma ArmRel.setRet (h : ArmRel L c .svc a m) (v : Word) :
    ArmRel L c .svc { a with mem := a.mem.store32 (b.pa a.cpu.spSvc + 4) v }
      (procArch.setRet m c v) := by
  have hregs : (procArch.setRet m c v).regs c =
      { m.regs c with r := Function.update (m.regs c).r 0 v } := by
    simp [procArch, ProcMachine.setRegs]
  have hst : Memory.Within (L.stack c) a.mem (a.mem.store32 (b.pa a.cpu.spSvc + 4) v) := by
    refine (Memory.store32_within _ _ _).mono (Region.Within.trans ?_ (frame_within_stack L c .svc))
    rw [h.pa_spSvc]
    exact ⟨Nat.le_add_right _ _, by simp only [Phase.frameSize]; omega⟩
  refine ⟨h.background.congr (undisturbed_of_stack hst) (fun _ _ => rfl) (fun _ _ => rfl) rfl
    (fun p hp => ?_) ?_ (fun _ _ => rfl), h.ttbr0, h.modeStacks, h.spSvc,
    fun hph => absurd hph (by simp), h.kernel, fun _ => ?_, ?_⟩
  · simp [procArch, ProcMachine.setRegs, hp]
  · rw [hregs]
    exact h.background.mode c
  · rw [hregs]
    exact h.banked (by simp)
  · have hsaved : ArmMachine.contextAt a.mem (L.frameAddr c .svc) = _ := h.saved
    show ArmMachine.contextAt (a.mem.store32 (b.pa a.cpu.spSvc + 4) v) (L.frameAddr c .svc) = _
    rw [h.pa_spSvc, contextAt_store32_ret, hsaved, hregs]

end Entry

/-! ### Accesses to user memory -/

section Access

variable {b : Board} {L : Layout b} {c : Pid} {a : ArmMachine} {m : ProcMachine} {ph : Phase}

/-- TTBR0 points to the table of the current process. -/
lemma ArmRel.userTable (h : ArmRel L c ph a m) :
    UserTable b c (Table.ofMemory a.mem (a.cpu.ttbr0 &&& 0xFFFFC000#32).toNat) := by
  have hbase : (initPcb L c).pgdPa.toNat = (L.table c).base := L.pa_pgd c
  have halign : (initPcb L c).pgdPa.toNat % pgdSize = 0 := by
    rw [hbase]
    exact L.table_aligned c
  rw [h.ttbr0, ttbr0For_base halign, hbase]
  exact h.background.tables c

lemma cpsr_and_mode {w : Word} (h : w &&& privBits = 0x10#32) : w &&& 0x1F#32 = 0x10#32 := by
  have hsub : w &&& 0x1F#32 = (w &&& privBits) &&& 0x1F#32 := by
    rw [BitVec.and_assoc]
    rfl
  rw [hsub, h]
  rfl

lemma ArmRel.not_privileged (h : ArmRel L c .user a m) : a.cpu.privileged = false := by
  have hmode := h.background.mode c
  rw [← (userRegs_parts h).2.2] at hmode
  simp [Cpu.privileged, cpsr_and_mode hmode]

lemma ArmRel.privileged (h : ArmRel L c ph a m) (hph : ph ≠ .user) : a.cpu.privileged = true := by
  rw [Cpu.privileged, h.kernel hph]
  decide

/-- User accesses reach the current process's slot and nothing else. -/
lemma ArmRel.translate_user (h : ArmRel L c .user a m) (va : Word) (write : Bool) :
    translate a.mem a.cpu.ttbr0 va a.cpu.privileged write =
      if inWindow va then some (slotAddr b c va) else none := by
  rw [h.not_privileged]
  exact RingNova.translate_user h.userTable va write

/-- The kernel reaches the current process's slot through a checked pointer. -/
lemma ArmRel.translate_kernel (h : ArmRel L c .svc a m) {va : Word} (hw : inWindow va = true)
    (write : Bool) :
    translate a.mem a.cpu.ttbr0 va a.cpu.privileged write = some (slotAddr b c va) := by
  rw [h.privileged (by simp)]
  exact RingNova.translate_kernel h.userTable hw write

/-- Replacing the registers of the current process. -/
lemma ArmRel.setUserRegs (h : ArmRel L c .user a m) {u : UserRegs}
    (hu : u.cpsr &&& privBits = 0x10#32) :
    ArmRel L c .user { a with cpu := a.cpu.setUserRegs u } (m.setRegs c u) := by
  have hregs : (m.setRegs c u).regs c = u := by simp [ProcMachine.setRegs]
  refine ⟨h.background.congr (Undisturbed.refl L c a.mem) (fun _ _ => rfl) (fun _ _ => rfl) rfl
    (fun p hp => ?_) ?_ (fun _ _ => rfl), h.ttbr0, h.modeStacks, h.spSvc, fun _ => ?_,
    fun hph => absurd rfl hph, fun _ => ?_, trivial⟩
  · simp [ProcMachine.setRegs, hp]
  · rw [hregs]
    exact hu
  · rw [hregs]
    rfl
  · rw [hregs]
    exact ⟨rfl, rfl⟩

/-- A store through the window of the current process. -/
lemma ArmRel.store (h : ArmRel L c ph a m) {va : Word} (hw : inWindow va = true) (ch : Byte) :
    ArmRel L c ph { a with mem := a.mem.store8 (slotAddr b c va) ch } (m.setByte c va ch) := by
  have hst : Memory.Within (b.slot c) a.mem (a.mem.store8 (slotAddr b c va) ch) := by
    refine (Memory.store8_within _ _ _).mono ?_
    obtain ⟨h1, h2⟩ := slotAddr_mem (b := b) c hw
    exact ⟨h1, h2⟩
  refine ⟨h.background.store hw ch, h.ttbr0, h.modeStacks, h.spSvc, h.user, h.kernel, h.banked,
    h.saved.congr (hst.agree ?_)⟩
  refine (L.objectsApart.slots_stacks.mono (b.slot_within_slots c) ?_).symm
  exact (frame_within_stack L c ph).trans (L.stack_within c)

end Access

/-! ### Exits -/

section Leave

variable {b : Board} {L : Layout b} {c : Pid} {a : ArmMachine} {m : ProcMachine} {ph : Phase}

lemma ArmRel.of_background (h : ArmRel L c ph a m) {a' : ArmMachine} (hcpu : a'.cpu = a.cpu)
    (hback : Background L c a' m) (hsaved : Saved L c a'.mem (m.regs c) ph) :
    ArmRel L c ph a' m := by
  refine ⟨hback, ?_, ?_, ?_, ?_, ?_, ?_, hsaved⟩ <;> rw [hcpu]
  · exact h.ttbr0
  · exact h.modeStacks
  · exact h.spSvc
  · exact h.user
  · exact h.kernel
  · exact h.banked

/-- C code leaves the exception frame alone. -/
lemma ArmRel.ranC (h : ArmRel L c ph a m) (cc : CompiledC) : ArmRel L c ph (a.ranC L cc c) m := by
  have hw : Memory.Within (ArmMachine.freeStack L c a.cpu.spSvc) a.mem (a.ranC L cc c).mem :=
    Memory.overwrite_within _ _ _
  have hfree : ArmMachine.freeStack L c a.cpu.spSvc =
      ⟨(L.stack c).base, 8192 - ph.frameSize⟩ := by
    rw [ArmMachine.freeStack, h.pa_spSvc, Layout.frameAddr, Nat.add_sub_cancel_left]
  rw [hfree] at hw
  have hst : Memory.Within (L.stack c) a.mem (a.ranC L cc c).mem := by
    refine hw.mono ⟨le_refl _, ?_⟩
    have hs : (L.stack c).size = 8192 := rfl
    rw [hs]
    simp only
    omega
  have hapart : Region.Apart ⟨L.frameAddr c ph, ph.frameSize⟩
      ⟨(L.stack c).base, 8192 - ph.frameSize⟩ := by
    right
    simp only [Layout.frameAddr]
    omega
  have hback : Background L c (a.ranC L cc c) m :=
    h.background.congr (undisturbed_of_stack hst) (fun p _ => by rw [ArmMachine.ctx_ranC])
      (fun p _ => by rw [ArmMachine.frames_ranC]) rfl (fun _ _ => rfl) (h.background.mode c)
      (fun _ _ => rfl)
  exact h.of_background (ArmMachine.cpu_ranC L cc a c) hback (h.saved.congr (hw.agree hapart))

/-- The end of `exception_entry_irq`, and `ret_from_first_entry`. -/
lemma ArmRel.exitIrq (h : ArmRel L c .irq a m) : ArmRel L c .user (a.exitIrq b) m := by
  obtain ⟨h1, h2, h3⟩ := h.saved
  obtain ⟨hsp, hlr⟩ := h.banked (by simp)
  refine ⟨h.background.congr (Undisturbed.refl L c a.mem) (fun _ _ => rfl) (fun _ _ => rfl) rfl
    (fun _ _ => rfl) (h.background.mode c) (fun _ _ => rfl), h.ttbr0, h.modeStacks, ?_,
    fun _ => ?_, fun hph => absurd rfl hph, fun _ => ⟨hsp, hlr⟩, trivial⟩
  · show a.cpu.spSvc + 64#32 = _
    rw [h.spSvc]
    exact sub_ofNat_add_ofNat _ (le_refl 64)
  · refine UserRegs.ext (funext ?_) hsp hlr ?_ ?_
    · intro i
      exact (congrArg (fun x => a.mem.load32 (x + 4 * i)) h.pa_spSvc).trans (h1 i)
    · exact (congrArg (fun x => a.mem.load32 (x + 56)) h.pa_spSvc).trans h2
    · exact (congrArg (fun x => a.mem.load32 (x + 60)) h.pa_spSvc).trans h3

/-- The end of `exception_entry_svc`. -/
lemma ArmRel.exitSvc (h : ArmRel L c .svc a m) : ArmRel L c .user (a.exitSvc b) m := by
  have hctx : ArmMachine.contextAt a.mem (b.pa a.cpu.spSvc) = _ := h.svcContext
  obtain ⟨hsp, hlr⟩ := h.banked (by simp)
  refine ⟨h.background.congr (Undisturbed.refl L c a.mem) (fun _ _ => rfl) (fun _ _ => rfl) rfl
    (fun _ _ => rfl) (h.background.mode c) (fun _ _ => rfl), h.ttbr0, h.modeStacks, ?_,
    fun _ => ?_, fun hph => absurd rfl hph, fun _ => ⟨hsp, hlr⟩, trivial⟩
  · show a.cpu.spSvc + 60#32 = _
    rw [h.spSvc]
    exact sub_ofNat_add_ofNat _ (le_refl 60)
  · refine UserRegs.ext ?_ hsp hlr ?_ ?_
    · exact congrArg ExceptionContext.r hctx
    · exact congrArg ExceptionContext.lr hctx
    · exact congrArg ExceptionContext.spsr hctx

/-- **Exits in step.** -/
lemma ArmRel.leave (cc : CompiledC) (x : Exit) (h : ArmRel L c x.phase a m) :
    ArmRel L c .user ((armArch L cc).leave a c x) (procArch.leave m c x) := by
  cases x with
  | first => exact h.exitIrq
  | irq => exact (h.ranC cc).exitIrq
  | svc => exact (h.ranC cc).exitSvc

end Leave

/-- **The ARM machine works for the current process as the process-level one does.** -/
theorem opsRel_arm {b : Board} (L : Layout b) (cc : CompiledC) (c : Pid) :
    OpsRel (armArch L cc) procArch c (ArmRel L c) where
  exec {a m} f h := by
    have hu := h.user rfl
    simp only [armArch, procArch, hu]
    split
    next hpriv => exact .some (h.setUserRegs (hpriv.trans (h.background.mode c)))
    next => exact .none
  uload {a m} va rd h := by
    simp only [armArch, procArch, h.translate_user]
    by_cases hw : inWindow va = true
    · have hset := h.setUserRegs (u := { m.regs c with
        r := Function.update (m.regs c).r rd ((m.umem c va).setWidth 32) }) (h.background.mode c)
      rw [if_pos hw, if_pos hw, Option.map_some, h.background.umem c va hw]
      rw [← h.user rfl] at hset ⊢
      exact .some hset
    · rw [if_neg hw, if_neg hw]
      exact .none
  ustore {a m} va ch h := by
    simp only [armArch, procArch, h.translate_user]
    by_cases hw : inWindow va = true
    · rw [if_pos hw, if_pos hw]
      exact .some (h.store hw ch)
    · rw [if_neg hw, if_neg hw]
      exact .none
  enter x h := h.enter x
  ctxFault kind h := h.faultContext kind
  ctxSvc h := h.svcContext
  setRet v h := h.setRet v
  kload {a m} va hw h := by
    simp only [armArch, procArch, h.translate_kernel hw, if_pos hw, Option.map_some]
    rw [h.background.umem c va hw]
  kstore {a m} va ch hw h := by
    simp only [armArch, procArch, h.translate_kernel hw, if_pos hw, Option.map_some]
    exact .some (h.store hw ch)

end RingNova
