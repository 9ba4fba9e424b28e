/-
# The exception entries and exits, instruction by instruction

Each of the entries runs from the vector to the first instruction of its C handler, and what it
leaves in the registers and on the stack is what the machine of `RingNova.Arm.Machine` has after
`enter`; each of the exits runs from behind the call to USR mode, as `exitIrq` and `exitSvc` do.
The code runs on the memory that the kernel sees (`RingNova.Arm.Bus`).
-/
import RingNova.Arm.Bus
import RingNova.Arm.Exception

namespace RingNova.Isa

/-! ### Stacks -/

section

variable {b : Board} {L : Layout b} {T : Text L}

lemma aligned_iff (a : Word) : a &&& 3#32 = 0#32 ↔ a.toNat % 4 = 0 := by
  rw [← BitVec.toNat_inj, BitVec.toNat_and]
  exact (Nat.and_two_pow_sub_one_eq_mod a.toNat 2) ▸ Iff.rfl

lemma aligned_add {a : Word} (h : a &&& 3#32 = 0#32) {k : ℕ} (hk : k % 4 = 0) :
    (a + BitVec.ofNat 32 k) &&& 3#32 = 0#32 := by
  rw [aligned_iff] at h ⊢
  rw [BitVec.toNat_add, BitVec.toNat_ofNat]
  omega

lemma aligned_sub {a : Word} (h : a &&& 3#32 = 0#32) {k : ℕ} (hk : k % 4 = 0) :
    (a - BitVec.ofNat 32 k) &&& 3#32 = 0#32 := by
  rw [aligned_iff] at h ⊢
  rw [BitVec.toNat_sub, BitVec.toNat_ofNat]
  omega

/-- Some bytes from an address on are in the kernel's alias of RAM. -/
structure Readable (b : Board) (a : Word) (n : ℕ) : Prop where
  aligned : a &&& 3#32 = 0#32
  ram : Region.Within ⟨b.pa a, n⟩ b.ram

/-- Some bytes from an address on are in an object that the assembly writes to. -/
structure Free (T : Text L) (a : Word) (n : ℕ) : Prop where
  aligned : a &&& 3#32 = 0#32
  data : ∃ R ∈ T.data, Region.Within ⟨b.pa a, n⟩ R

variable {a : Word} {n k : ℕ}

lemma Readable.pa_add (h : Readable b a n) (hk : k ≤ n) :
    b.pa (a + BitVec.ofNat 32 k) = b.pa a + k := by
  have hram := h.ram
  have hlt := Layout.ram_lt b
  simp only [Region.Within] at hram
  exact b.pa_add a (by omega)

lemma Readable.add (h : Readable b a n) (hk : k ≤ n) (hk4 : k % 4 = 0) :
    Readable b (a + BitVec.ofNat 32 k) (n - k) := by
  have hram := h.ram
  refine ⟨aligned_add h.aligned hk4, ?_⟩
  rw [h.pa_add hk]
  simp only [Region.Within] at hram ⊢
  omega

lemma Readable.reaches (h : Readable b a n) (hn : 0 < n) : Reaches b true a := by
  have hram := h.ram
  refine ⟨rfl, h.aligned, ?_⟩
  simp only [Region.Within, Region.Mem] at hram ⊢
  omega

lemma Readable.mono (h : Readable b a n) (hk : k ≤ n) : Readable b a k := by
  have hram := h.ram
  refine ⟨h.aligned, ?_⟩
  simp only [Region.Within] at hram ⊢
  omega

lemma Free.readable (h : Free T a n) : Readable b a n := by
  obtain ⟨R, hR, hin⟩ := h.data
  exact ⟨h.aligned, hin.trans (T.data_in_ram R hR)⟩

lemma Free.add (h : Free T a n) (hk : k ≤ n) (hk4 : k % 4 = 0) :
    Free T (a + BitVec.ofNat 32 k) (n - k) := by
  obtain ⟨R, hR, hin⟩ := h.data
  refine ⟨aligned_add h.aligned hk4, R, hR, ?_⟩
  rw [h.readable.pa_add hk]
  simp only [Region.Within] at hin ⊢
  omega

lemma Free.mono (h : Free T a n) (hk : k ≤ n) : Free T a k := by
  obtain ⟨R, hR, hin⟩ := h.data
  refine ⟨h.aligned, R, hR, ?_⟩
  simp only [Region.Within] at hin ⊢
  omega

lemma load_kernel (h : Readable b a 4) (m : KernelMem) :
    (kernelBus T).load m true a = some (m.mem.load32 (b.pa a), m) := by
  rw [kernelBus]
  exact if_pos (h.reaches (by omega))

lemma store_kernel (h : Free T a 4) (m : KernelMem) (w : Word) :
    (kernelBus T).store m true a w = some { m with mem := m.mem.store32 (b.pa a) w } := by
  rw [kernelBus]
  exact if_pos ⟨h.readable.reaches (by omega), h.data⟩

/-- The word at an address and those behind it. -/
lemma map_load32_succ (mem : Memory) (x k : ℕ) :
    mem.load32 x :: (List.range k).map (fun i => mem.load32 (x + 4 * (i + 1))) =
      (List.range (k + 1)).map fun i => mem.load32 (x + 4 * i) := by
  rw [List.range_succ_eq_map, List.map_cons, List.map_map]
  rfl

lemma loads_kernel (h : Readable b a (4 * k)) (m : KernelMem) :
    (kernelBus T).loads m true a k =
      some ((List.range k).map fun i => m.mem.load32 (b.pa a + 4 * i), m) := by
  induction k generalizing a with
  | zero => rfl
  | succ k ih =>
    have hrest := ih ((h.add (k := 4) (by omega) (by omega)).mono (by omega))
    have hpa : b.pa (a + 4#32) = b.pa a + 4 := h.pa_add (k := 4) (by omega)
    have hload := load_kernel (T := T) (h.mono (k := 4) (by omega)) m
    have haddr : ∀ i, b.pa (a + 4#32) + 4 * i = b.pa a + 4 * (i + 1) := by
      intro i
      rw [hpa]
      omega
    simp only [Bus.loads, hload, hrest, haddr, Option.bind_eq_bind, Option.bind_some,
      Option.pure_def]
    rw [map_load32_succ]

lemma stores_kernel {ws : List Word} (h : Free T a (4 * ws.length)) (m : KernelMem) :
    (kernelBus T).stores m true a ws = some { m with mem := m.mem.storeWords (b.pa a) ws } := by
  induction ws generalizing a with
  | nil => rfl
  | cons w ws ih =>
    rw [List.length_cons] at h
    have hpa : b.pa (a + 4#32) = b.pa a + 4 := h.readable.pa_add (k := 4) (by omega)
    have hrest := ih ((h.add (k := 4) (by omega) (by omega)).mono (by omega))
    rw [Bus.stores]
    show ((kernelBus T).stores m true (a + 4#32) ws).bind _ = _
    rw [hrest, Option.bind_some, store_kernel (h.mono (by omega)), hpa]
    rfl

lemma sits_of_placed {is : List Instr} (h : Placed b T.code a is) : Sits (kernelBus T) a is := by
  induction is generalizing a with
  | nil => trivial
  | cons i is ih =>
    obtain ⟨⟨hal, hram, hcode⟩, hrest⟩ := h
    refine ⟨fun m => ?_, ih hrest⟩
    exact (if_pos ⟨rfl, hal, hram⟩).trans hcode

/-! ### The entries -/

/-- `{r0-r12, lr}`. -/
lemma mapM_gprs (c : Core) :
    (gprs ++ [Reg.lr]).mapM c.get = c.bank.map fun k => gprsAnd c.r (c.lr k) := by
  cases hk : c.bank <;> simp [gprs, Core.get, hk, gprsAnd, List.ofFn_succ]

/-- The core when an entry has called a handler, and what it was when the entry started. -/
structure Calls (c c' : Core) (site target : Word) : Prop where
  pc : c'.pc = target
  lr : c'.lr .svc = site + 4#32
  mode : c'.cpsr &&& 0x1F#32 = 0x13#32
  bits : ∀ i, 5 ≤ i → i < 8 → c'.cpsr.getLsbD i = c.cpsr.getLsbD i
  lrUsr : c'.lr .usr = c.lr .usr

variable {c : Core} {k : Bank}

/-- Memory after `{r0-r12, lr}` and then the SPSR have been pushed. -/
def pushContext (b : Board) (mem : Memory) (sp : Word) (r : Fin 13 → Word) (lr spsr : Word) :
    Memory :=
  stmfd b (stmfd b mem sp (gprsAnd r lr)) (below sp (gprsAnd r lr)) [spsr]

/-- Memory after the return state of an interrupt and then `{r0-r12, lr}` have been pushed. -/
def pushInterrupted (b : Board) (mem : Memory) (sp pc cpsr : Word) (r : Fin 13 → Word) (lr : Word) :
    Memory :=
  stmfd b (stmfd b mem sp [pc, cpsr]) (below sp [pc, cpsr]) (gprsAnd r lr)

lemma idle_kernelBus (m : KernelMem) : (kernelBus T).idle m = m := rfl

/-- Pushing `{r0-r12, lr}` and then the SPSR. -/
lemma stores_context (sp : Word) (hfree : Free T (sp - BitVec.ofNat 32 60) 60) (r : Fin 13 → Word)
    (lr spsr : Word) (m : KernelMem) :
    (kernelBus T).stores m true (pushed sp (gprsAnd r lr)) (gprsAnd r lr) =
        some { m with mem := stmfd b m.mem sp (gprsAnd r lr) } ∧
      (kernelBus T).stores { m with mem := stmfd b m.mem sp (gprsAnd r lr) } true
        (pushed (pushed sp (gprsAnd r lr)) [spsr]) [spsr] =
          some { m with mem := pushContext b m.mem sp r lr spsr } ∧
      pushed (pushed sp (gprsAnd r lr)) [spsr] = sp - BitVec.ofNat 32 60 := by
  have h1 : pushed sp (gprsAnd r lr) = sp - BitVec.ofNat 32 56 := by
    rw [pushed, length_gprsAnd]
  have h2 : pushed (pushed sp (gprsAnd r lr)) [spsr] = sp - BitVec.ofNat 32 60 := by
    rw [h1]
    exact sub_ofNat_sub_ofNat _ _ _
  have hfree1 : Free T (pushed sp (gprsAnd r lr)) (4 * (gprsAnd r lr).length) := by
    have hadd := hfree.add (k := 4) (by omega) (by omega)
    rw [sub_ofNat_add_ofNat _ (by omega), ← h1] at hadd
    rw [length_gprsAnd]
    exact hadd
  have hfree2 : Free T (pushed (pushed sp (gprsAnd r lr)) [spsr]) (4 * [spsr].length) := by
    rw [h2]
    exact hfree.mono (by simp)
  exact ⟨stores_kernel hfree1 m, stores_kernel hfree2 _, h2⟩

/-- Pushing the return state of an interrupt and then `{r0-r12, lr}`. -/
lemma stores_interrupted (sp : Word) (hfree : Free T (sp - BitVec.ofNat 32 64) 64) (pc cpsr : Word)
    (r : Fin 13 → Word) (lr : Word) (m : KernelMem) :
    (kernelBus T).stores m true (pushed sp [pc, cpsr]) [pc, cpsr] =
        some { m with mem := stmfd b m.mem sp [pc, cpsr] } ∧
      (kernelBus T).stores { m with mem := stmfd b m.mem sp [pc, cpsr] } true
        (pushed (pushed sp [pc, cpsr]) (gprsAnd r lr)) (gprsAnd r lr) =
          some { m with mem := pushInterrupted b m.mem sp pc cpsr r lr } ∧
      pushed (pushed sp [pc, cpsr]) (gprsAnd r lr) = sp - BitVec.ofNat 32 64 := by
  have h1 : pushed sp [pc, cpsr] = sp - BitVec.ofNat 32 8 := rfl
  have h2 : pushed (pushed sp [pc, cpsr]) (gprsAnd r lr) = sp - BitVec.ofNat 32 64 := by
    rw [h1, pushed, length_gprsAnd]
    exact sub_ofNat_sub_ofNat _ _ _
  have hfree1 : Free T (pushed sp [pc, cpsr]) (4 * [pc, cpsr].length) := by
    have hadd := hfree.add (k := 56) (by omega) (by omega)
    rw [sub_ofNat_add_ofNat _ (by omega)] at hadd
    exact hadd
  have hfree2 : Free T (pushed (pushed sp [pc, cpsr]) (gprsAnd r lr))
      (4 * (gprsAnd r lr).length) := by
    rw [h2, length_gprsAnd]
    exact hfree.mono (by omega)
  exact ⟨stores_kernel hfree1 m, stores_kernel hfree2 _, h2⟩

/-- The entry of a fault. -/
lemma execAll_faultEntry (hk : bankOf c.cpsr = some k) (hne : k ≠ .usr)
    (hp : privileged c.cpsr = true) (harm : c.cpsr.getLsbD 5 = false)
    (hfree : Free T (c.sp k - BitVec.ofNat 32 60) 60) (adjust call : Word) (m : KernelMem) :
    ∃ c', execAll (kernelBus T) ⟨c, m⟩ (faultEntry adjust call) = some
        ⟨c', { m with mem := pushContext b m.mem (c.sp k) c.r (c.lr k - adjust) (c.spsr k) }⟩ ∧
      Calls c c' (c.pc + 24#32) (c.pc + 24#32 + call) ∧
      c'.sp = Function.update c.sp k (c.sp k - BitVec.ofNat 32 60) ∧
      c'.r 0 = c.sp k - BitVec.ofNat 32 60 := by
  obtain ⟨hst1, hst2, hsp⟩ := stores_context (c.sp k) hfree c.r (c.lr k - adjust) (c.spsr k) m
  simp only [faultEntry, execAll, exec, idle_kernelBus, Core.get, Core.set, Core.bank,
    Core.excBank, Core.withSp, Core.withLr, Core.next, Core.goto, mapM_gprs, List.mapM_cons,
    List.mapM_nil, hk, hp, harm, hne, bankOf_svc, privileged_svc, arm_svc, Option.map_some,
    Option.bind_eq_bind, Option.bind_some, Option.pure_def, Function.update_self,
    Function.update_idem, Bool.not_false, Bool.and_self, if_true, if_false, hst1, hst2]
  rw [hsp]
  refine ⟨_, rfl, ⟨?_, ?_, withMode_and _ _, ?_, ?_⟩, rfl, by simp⟩
  · simp [BitVec.add_assoc]
  · simp [BitVec.add_assoc]
  · intro i h5 h8
    exact getLsbD_withMode _ h5 (by omega) (by interval_cases i <;> rfl)
  · simp [Ne.symm hne]

/-- The entry of an `svc`. -/
lemma execAll_entrySvc (hk : bankOf c.cpsr = some .svc) (hmode : c.cpsr &&& 0x1F#32 = 0x13#32)
    (harm : c.cpsr.getLsbD 5 = false)
    (hfree : Free T (c.sp .svc - BitVec.ofNat 32 60) 60) (call : Word) (m : KernelMem) :
    ∃ c', execAll (kernelBus T) ⟨c, m⟩ (exceptionEntrySvc call) = some
        ⟨c', { m with mem := pushContext b m.mem (c.sp .svc) c.r (c.lr .svc) (c.spsr .svc) }⟩ ∧
      Calls c c' (c.pc + 16#32) (c.pc + 16#32 + call) ∧
      c'.sp = Function.update c.sp .svc (c.sp .svc - BitVec.ofNat 32 60) ∧
      c'.r 0 = c.sp .svc - BitVec.ofNat 32 60 := by
  have hp := privileged_of_and hmode (by decide)
  obtain ⟨hst1, hst2, hsp⟩ :=
    stores_context (c.sp .svc) hfree c.r (c.lr .svc) (c.spsr .svc) m
  simp only [exceptionEntrySvc, execAll, exec, idle_kernelBus, Core.get, Core.set, Core.bank,
    Core.excBank, Core.withSp, Core.withLr, Core.next, Core.goto, mapM_gprs, List.mapM_cons,
    List.mapM_nil, hk, hp, harm, Option.map_some, reduceCtorEq,
    Option.bind_eq_bind, Option.bind_some, Option.pure_def, Function.update_self,
    Function.update_idem, Bool.not_false, Bool.and_self, if_true, if_false, hst1, hst2]
  rw [hsp]
  refine ⟨_, rfl, ⟨?_, ?_, hmode, fun _ _ _ => rfl, ?_⟩, rfl, by simp⟩
  · simp [BitVec.add_assoc]
  · simp [BitVec.add_assoc]
  · simp

/-- The entry of an interrupt. -/
lemma execAll_entryIrq (hk : bankOf c.cpsr = some .irq) (hp : privileged c.cpsr = true)
    (harm : c.cpsr.getLsbD 5 = false)
    (hfree : Free T (c.sp .svc - BitVec.ofNat 32 64) 64) (call : Word) (m : KernelMem) :
    ∃ c', execAll (kernelBus T) ⟨c, m⟩ (exceptionEntryIrq call) = some
        ⟨c', { m with
          mem := pushInterrupted b m.mem (c.sp .svc) (c.lr .irq - 4#32) (c.spsr .irq) c.r
            (c.lr .svc) }⟩ ∧
      Calls c c' (c.pc + 16#32) (c.pc + 16#32 + call) ∧
      c'.sp = Function.update c.sp .svc (c.sp .svc - BitVec.ofNat 32 64) := by
  obtain ⟨hst1, hst2, hsp⟩ := stores_interrupted (c.sp .svc) hfree (c.lr .irq - 4#32)
    (c.spsr .irq) c.r (c.lr .svc) m
  have hbank : bankOf 0x13#32 = some .svc := by decide
  simp only [exceptionEntryIrq, execAll, exec, idle_kernelBus, Core.get, Core.set, Core.bank,
    Core.excBank, Core.withSp, Core.withLr, Core.next, Core.goto, mapM_gprs, hk, hp, harm,
    bankOf_svc, privileged_svc, arm_svc, hbank, Option.map_some, reduceCtorEq,
    Option.bind_eq_bind, Option.bind_some, Option.pure_def, Function.update_self,
    Function.update_idem, Bool.not_false, Bool.and_self, if_true, if_false, ne_eq,
    not_false_eq_true, Function.update_of_ne, hst1, hst2]
  rw [hsp]
  refine ⟨_, rfl, ⟨?_, ?_, withMode_and _ _, ?_, ?_⟩, rfl⟩
  · simp [BitVec.add_assoc]
  · simp [BitVec.add_assoc]
  · intro i h5 h8
    exact getLsbD_withMode _ h5 (by omega) (by interval_cases i <;> rfl)
  · simp

/-! ### The exits -/

/-- The end of `exception_entry_svc`. -/
lemma execAll_exitSvc (hmode : c.cpsr &&& 0x1F#32 = 0x13#32) (harm : c.cpsr.getLsbD 5 = false)
    (hread : Readable b (c.sp .svc) 60) (m : KernelMem) :
    ∃ c', execAll (kernelBus T) ⟨c, m⟩ exceptionExitSvc = some ⟨c', m⟩ ∧
      (∀ i : Fin 13, c'.r i = m.mem.load32 (b.pa (c.sp .svc) + 4 + 4 * i)) ∧
      c'.pc = m.mem.load32 (b.pa (c.sp .svc) + 56) ∧ c'.cpsr = m.mem.load32 (b.pa (c.sp .svc)) ∧
      c'.sp = Function.update c.sp .svc (c.sp .svc + BitVec.ofNat 32 60) ∧ c'.lr = c.lr := by
  have hp := privileged_of_and hmode (by decide)
  have hk : bankOf c.cpsr = some .svc := bankOf_of_and hmode (by decide)
  have hrest := hread.add (k := 4) (by omega) (by omega)
  have hlast := hread.add (k := 56) (by omega) (by omega)
  have hld1 : (kernelBus T).loads m true (c.sp .svc) 1 =
      some ([m.mem.load32 (b.pa (c.sp .svc))], m) := by
    simp only [Bus.loads, load_kernel (hread.mono (by omega)), Option.bind_eq_bind,
      Option.bind_some, Option.pure_def]
  have hld2 := loads_kernel (T := T) (k := 13) (hrest.mono (by omega)) m
  have hld3 := load_kernel (T := T) (hlast.mono (by omega)) m
  have hpa1 := hread.pa_add (k := 4) (by omega)
  have hpa2 := hread.pa_add (k := 56) (by omega)
  have hadd : c.sp .svc + BitVec.ofNat 32 4 + BitVec.ofNat 32 52 =
      c.sp .svc + BitVec.ofNat 32 56 := BitVec.add_assoc _ _ _
  have hadd' : c.sp .svc + BitVec.ofNat 32 4 + BitVec.ofNat 32 56 =
      c.sp .svc + BitVec.ofNat 32 60 := BitVec.add_assoc _ _ _
  have hlen : gprs.length = 13 := rfl
  rw [hpa1] at hld2
  rw [hpa2] at hld3
  simp only [exceptionExitSvc, execAll, exec, idle_kernelBus, Core.get, Core.set, Core.bank,
    Core.excBank, Core.withSp, Core.next, Core.goto, hk, hp, harm, Option.map_some, reduceCtorEq,
    Option.bind_eq_bind, Option.bind_some, Option.pure_def, Function.update_self, hlen,
    List.length_cons, List.length_nil, Core.setAll, Nat.zero_add, Nat.mul_one, Nat.reduceAdd,
    Nat.reduceMul, Function.update_idem, Bool.not_false, Bool.and_self, if_true, if_false, hld1,
    hld2, hld3, hadd, hadd', setAll_gprs]
  exact ⟨_, rfl, fun _ => rfl, rfl, rfl, rfl, rfl⟩

/-- The end of `exception_entry_irq`, and `ret_from_first_entry`. -/
lemma execAll_exitIrq (hmode : c.cpsr &&& 0x1F#32 = 0x13#32) (harm : c.cpsr.getLsbD 5 = false)
    (hread : Readable b (c.sp .svc) 64) (m : KernelMem) :
    ∃ c', execAll (kernelBus T) ⟨c, m⟩ exceptionExitIrq = some ⟨c', m⟩ ∧
      (∀ i : Fin 13, c'.r i = m.mem.load32 (b.pa (c.sp .svc) + 4 * i)) ∧
      c'.pc = m.mem.load32 (b.pa (c.sp .svc) + 56) ∧
      c'.cpsr = m.mem.load32 (b.pa (c.sp .svc) + 60) ∧
      c'.sp = Function.update c.sp .svc (c.sp .svc + BitVec.ofNat 32 64) ∧
      c'.lr .usr = c.lr .usr := by
  have hregs := loads_kernel (T := T) (k := 14) (hread.mono (by omega)) m
  have hpc := load_kernel (T := T) ((hread.add (k := 56) (by omega) (by omega)).mono (by omega)) m
  have hcpsr := load_kernel (T := T) ((hread.add (k := 60) (by omega) (by omega)).mono (by omega)) m
  rw [hread.pa_add (k := 56) (by omega)] at hpc
  rw [hread.pa_add (k := 60) (by omega)] at hcpsr
  have hexec := execAll_retFromFirstEntry idle_kernelBus hmode harm hregs hpc hcpsr
  rw [retFromFirstEntryCode_eq] at hexec
  exact ⟨_, hexec, fun _ => rfl, rfl, rfl, rfl, by simp⟩

/-! ### From the vector to the handler -/

/-- SVC mode, in ARM state, with interrupts masked: what the C code of the kernel runs in. -/
def KernelMode (psr : Word) : Prop := psr &&& 0xBF#32 = 0x93#32

instance (psr : Word) : Decidable (KernelMode psr) := inferInstanceAs (Decidable (_ = _))

lemma kernelMode_iff (psr : Word) : KernelMode psr ↔
    psr &&& 0x1F#32 = 0x13#32 ∧ psr.getLsbD 5 = false ∧ psr.getLsbD 7 = true := by
  have hbits : ∀ mask v : Word, psr &&& mask = v ↔
      ∀ i < 32, (psr.getLsbD i && mask.getLsbD i) = v.getLsbD i := by
    intro mask v
    refine ⟨fun h i _ => ?_, fun h => BitVec.eq_of_getLsbD_eq fun i hi => ?_⟩
    · rw [← h, BitVec.getLsbD_and]
    · rw [BitVec.getLsbD_and]
      exact h i hi
  rw [KernelMode, hbits, hbits]
  constructor
  · intro h
    refine ⟨fun i hi => ?_, by simpa using h 5 (by omega), by simpa using h 7 (by omega)⟩
    have hi' := h i hi
    interval_cases i <;> simp_all
  · rintro ⟨h, h5, h7⟩ i hi
    have hi' := h i hi
    interval_cases i <;> simp_all

/-- An exception is taken to its mode, in ARM state, with interrupts masked. -/
lemma exceptionCpsr_and (psr : Word) (x : Exn) :
    exceptionCpsr x psr &&& 0xBF#32 = 0x80#32 ||| x.mode := by
  apply BitVec.eq_of_getLsbD_eq
  intro i hi
  simp only [exceptionCpsr, withMode, BitVec.getLsbD_or, BitVec.getLsbD_and]
  interval_cases i <;> cases x <;> simp [Exn.masks, Exn.mode]

/-- A vector loads the address of its entry. -/
lemma sits_vector (T : Text L) (x : Exn) :
    Sits (kernelBus T) (T.vectors + x.vector) [.ldrPc (T.entry x)] := by
  have h := sits_of_placed T.vectors_placed
  simp only [vectorTable, Sits, and_true, BitVec.add_assoc, BitVec.reduceAdd] at h ⊢
  obtain ⟨-, h1, h2, h3, h4, -, h6, -⟩ := h
  cases x with
  | irq => exact h6
  | svc => exact h2
  | dataAbort => exact h4
  | prefetchAbort => exact h3
  | undefined => exact h1

/-- An entry stands where the linker has put it. -/
lemma sits_entry (T : Text L) (x : Exn) :
    Sits (kernelBus T) (T.entry x) (entryCode x (T.handler x - callSite T.entry x)) ∧
      Sits (kernelBus T) (T.returnTo x) (exitCode x) := by
  have h := sits_append.1 (sits_of_placed (T.entry_placed x))
  refine ⟨h.1, ?_⟩
  have hlen : ∀ call, (entryCode x call).length = (entryCode x 0#32).length - 1 + 1 := by
    intro call
    cases x <;> rfl
  have haddr : T.returnTo x =
      T.entry x +
        BitVec.ofNat 32 (4 * (entryCode x (T.handler x - callSite T.entry x)).length) := by
    rw [hlen, Text.returnTo, callSite, BitVec.add_assoc, Nat.mul_succ, BitVec.ofNat_add]
  exact haddr ▸ h.2

/-- Memory after an exception has been taken and its entry has pushed a frame. -/
def entryMem (b : Board) (c : Core) (mem : Memory) : Exn → Memory
  | .irq => pushInterrupted b mem (c.sp .svc) (c.pc + 4#32 - 4#32) c.cpsr c.r (c.lr .svc)
  | .svc => pushContext b mem (c.sp .svc) c.r (c.pc + svcSize c.cpsr) c.cpsr
  | .dataAbort => pushContext b mem (c.sp .abt) c.r (c.pc + 8#32 - 8#32) c.cpsr
  | .prefetchAbort => pushContext b mem (c.sp .abt) c.r (c.pc + 4#32 - 4#32) c.cpsr
  | .undefined => pushContext b mem (c.sp .und) c.r (c.pc + svcSize c.cpsr - 4#32) c.cpsr

/-- The core when a C handler is called, and what it was when the exception was taken. -/
structure Entered (T : Text L) (x : Exn) (c c' : Core) : Prop where
  pc : c'.pc = T.handler x
  lr : c'.lr .svc = T.returnTo x
  mode : KernelMode c'.cpsr
  sp : c'.sp = Function.update c.sp x.stackBank
    (c.sp x.stackBank - BitVec.ofNat 32 x.frameBytes)
  lrUsr : c'.lr .usr = c.lr .usr
  /-- The handlers that have an argument are given the address of the frame. -/
  arg : x ≠ .irq → c'.r 0 = c.sp x.stackBank - BitVec.ofNat 32 x.frameBytes

lemma Calls.entered {x : Exn} {c₁ c' : Core} {site : Word}
    (h : Calls c₁ c' site (site + (T.handler x - callSite T.entry x)))
    (hsite : site = callSite T.entry x) (hcpsr : c₁.cpsr = exceptionCpsr x c.cpsr)
    (hlr : c₁.lr .usr = c.lr .usr) (hsp : c'.sp = Function.update c.sp x.stackBank
      (c.sp x.stackBank - BitVec.ofNat 32 x.frameBytes))
    (harg : x ≠ .irq → c'.r 0 = c.sp x.stackBank - BitVec.ofNat 32 x.frameBytes) :
    Entered T x c c' := by
  have hpc : site + (T.handler x - callSite T.entry x) = T.handler x := by
    rw [hsite, BitVec.add_comm, BitVec.sub_add_cancel]
  refine ⟨h.pc.trans hpc, h.lr.trans (by rw [hsite]; rfl), ?_, hsp, h.lrUsr.trans hlr, harg⟩
  have hand := exceptionCpsr_and c.cpsr x
  have hbit : ∀ i < 32, (0xBF#32).getLsbD i = true →
      (exceptionCpsr x c.cpsr).getLsbD i = (0x80#32 ||| x.mode).getLsbD i := by
    intro i hi hmask
    rw [← hand, BitVec.getLsbD_and, hmask, Bool.and_true]
  rw [kernelMode_iff, h.bits 5 (by omega) (by omega), h.bits 7 (by omega) (by omega), hcpsr,
    hbit 5 (by omega) (by decide), hbit 7 (by omega) (by decide)]
  exact ⟨h.mode, by cases x <;> decide, by cases x <;> decide⟩

/-- **An exception reaches its C handler.**  From the vector on, the code of the kernel pushes
the frame of the exception and calls the handler, in SVC mode with interrupts masked. -/
theorem run_entry (T : Text L) (x : Exn) (c : Core) (m : KernelMem)
    (hfree : Free T (c.sp x.stackBank - BitVec.ofNat 32 x.frameBytes) x.frameBytes) :
    ∃ c', run (kernelBus T) (1 + (entryCode x 0#32).length) ⟨takeException c x T.vectors, m⟩ =
        some ⟨c', { m with mem := entryMem b c m.mem x }⟩ ∧ Entered T x c c' := by
  have hcpsr : (takeException c x T.vectors).cpsr = exceptionCpsr x c.cpsr := rfl
  have hmode : exceptionCpsr x c.cpsr &&& 0x1F#32 = x.mode := by
    rw [exceptionCpsr, withMode_and]
    cases x <;> rfl
  have hp : privileged (exceptionCpsr x c.cpsr) = true :=
    privileged_of_and hmode (by cases x <;> decide)
  have hk : bankOf (exceptionCpsr x c.cpsr) = some x.bank := by
    rw [bankOf_of_and hmode (by cases x <;> decide)]
    cases x <;> rfl
  have harm : (exceptionCpsr x c.cpsr).getLsbD 5 = false := by
    have hand := congrArg (fun w : Word => w.getLsbD 5) (exceptionCpsr_and c.cpsr x)
    simp only [BitVec.getLsbD_and] at hand
    cases x <;> simpa [Exn.mode] using hand
  have hstep : step (kernelBus T) ⟨takeException c x T.vectors, m⟩ =
      some ⟨(takeException c x T.vectors).goto (T.entry x), m⟩ :=
    step_of_sits (s := ⟨takeException c x T.vectors, m⟩) (sits_vector T x) hp harm
  have hline : ∀ call, ∀ i ∈ (entryCode x call).dropLast, i.straight = true := by
    intro call i hi
    cases x <;> simp [entryCode, exceptionEntryIrq, exceptionEntrySvc, exceptionEntryDabort,
      exceptionEntryPabort, exceptionEntryUndef, faultEntry, gprs] at hi <;>
      rcases hi with rfl | rfl | rfl | rfl | rfl | rfl <;> rfl
  have hlen : ∀ call, (entryCode x call).length = (entryCode x 0#32).length := by
    intro call
    cases x <;> rfl
  have hsite : ∀ k, (entryCode x 0#32).length - 1 = k →
      T.entry x + BitVec.ofNat 32 (4 * k) = callSite T.entry x := by
    rintro k rfl
    rfl
  -- it remains to execute the entry
  obtain ⟨c', hexec, hentered⟩ : ∃ c', execAll (kernelBus T)
      ⟨(takeException c x T.vectors).goto (T.entry x), m⟩
        (entryCode x (T.handler x - callSite T.entry x)) =
        some ⟨c', { m with mem := entryMem b c m.mem x }⟩ ∧ Entered T x c c' := by
    cases x with
    | irq =>
      obtain ⟨c', hexec, hcalls, hsp⟩ := execAll_entryIrq
        (c := (takeException c .irq T.vectors).goto (T.entry .irq)) hk hp harm hfree
        (T.handler .irq - callSite T.entry .irq) m
      exact ⟨c', hexec, hcalls.entered (hsite 4 rfl) rfl rfl hsp fun h => absurd rfl h⟩
    | svc =>
      obtain ⟨c', hexec, hcalls, hsp, harg⟩ := execAll_entrySvc
        (c := (takeException c .svc T.vectors).goto (T.entry .svc)) hk hmode harm hfree
        (T.handler .svc - callSite T.entry .svc) m
      exact ⟨c', hexec, hcalls.entered (hsite 4 rfl) rfl rfl hsp fun _ => harg⟩
    | dataAbort =>
      obtain ⟨c', hexec, hcalls, hsp, harg⟩ := execAll_faultEntry
        (c := (takeException c .dataAbort T.vectors).goto (T.entry .dataAbort)) hk (by decide) hp
        harm hfree 8#32 (T.handler .dataAbort - callSite T.entry .dataAbort) m
      exact ⟨c', hexec, hcalls.entered (hsite 6 rfl) rfl rfl hsp fun _ => harg⟩
    | prefetchAbort =>
      obtain ⟨c', hexec, hcalls, hsp, harg⟩ := execAll_faultEntry
        (c := (takeException c .prefetchAbort T.vectors).goto (T.entry .prefetchAbort)) hk
        (by decide) hp harm hfree 4#32
        (T.handler .prefetchAbort - callSite T.entry .prefetchAbort) m
      exact ⟨c', hexec, hcalls.entered (hsite 6 rfl) rfl rfl hsp fun _ => harg⟩
    | undefined =>
      obtain ⟨c', hexec, hcalls, hsp, harg⟩ := execAll_faultEntry
        (c := (takeException c .undefined T.vectors).goto (T.entry .undefined)) hk (by decide) hp
        harm hfree 4#32 (T.handler .undefined - callSite T.entry .undefined) m
      exact ⟨c', hexec, hcalls.entered (hsite 6 rfl) rfl rfl hsp fun _ => harg⟩
  have hrun := run_of_sits (s := ⟨(takeException c x T.vectors).goto (T.entry x), m⟩)
    (sits_entry T x).1 (hline _) hexec
  rw [hlen] at hrun
  refine ⟨c', ?_, hentered⟩
  rw [Nat.add_comm, run, hstep]
  exact hrun

/-! ### From behind the call to USR mode -/

/-- The registers that the end of `exception_entry_irq` has loaded. -/
structure LeftIrq (b : Board) (c : Core) (mem : Memory) (c' : Core) : Prop where
  r : ∀ i : Fin 13, c'.r i = mem.load32 (b.pa (c.sp .svc) + 4 * i)
  pc : c'.pc = mem.load32 (b.pa (c.sp .svc) + 56)
  cpsr : c'.cpsr = mem.load32 (b.pa (c.sp .svc) + 60)
  sp : c'.sp = Function.update c.sp .svc (c.sp .svc + BitVec.ofNat 32 64)
  lrUsr : c'.lr .usr = c.lr .usr

/-- The registers that the end of `exception_entry_svc` has loaded. -/
structure LeftSvc (b : Board) (c : Core) (mem : Memory) (c' : Core) : Prop where
  r : ∀ i : Fin 13, c'.r i = mem.load32 (b.pa (c.sp .svc) + 4 + 4 * i)
  pc : c'.pc = mem.load32 (b.pa (c.sp .svc) + 56)
  cpsr : c'.cpsr = mem.load32 (b.pa (c.sp .svc))
  sp : c'.sp = Function.update c.sp .svc (c.sp .svc + BitVec.ofNat 32 60)
  lr : c'.lr = c.lr

/-- The end of `exception_entry_irq`, wherever it stands. -/
lemma run_exitIrq (hmode : KernelMode c.cpsr) (hsits : Sits (kernelBus T) c.pc exceptionExitIrq)
    (hread : Readable b (c.sp .svc) 64) (m : KernelMem) :
    ∃ c', run (kernelBus T) 2 ⟨c, m⟩ = some ⟨c', m⟩ ∧ LeftIrq b c m.mem c' := by
  obtain ⟨hsvc, harm, -⟩ := (kernelMode_iff _).1 hmode
  obtain ⟨c', hexec, hr, hpc, hcpsr, hsp, hlr⟩ := execAll_exitIrq (T := T) hsvc harm hread m
  refine ⟨c', ?_, hr, hpc, hcpsr, hsp, hlr⟩
  refine run_of_sits (s := ⟨c, m⟩) hsits (fun i hi => ?_) hexec
  simp only [exceptionExitIrq, List.dropLast_cons_cons, List.dropLast_singleton,
    List.mem_singleton] at hi
  rw [hi]
  rfl

/-- The end of `exception_entry_svc`. -/
lemma run_exitSvc (hmode : KernelMode c.cpsr) (hpc : c.pc = T.returnTo .svc)
    (hread : Readable b (c.sp .svc) 60) (m : KernelMem) :
    ∃ c', run (kernelBus T) 3 ⟨c, m⟩ = some ⟨c', m⟩ ∧ LeftSvc b c m.mem c' := by
  obtain ⟨hsvc, harm, -⟩ := (kernelMode_iff _).1 hmode
  obtain ⟨c', hexec, hr, hpc', hcpsr, hsp, hlr⟩ := execAll_exitSvc (T := T) hsvc harm hread m
  refine ⟨c', ?_, hr, hpc', hcpsr, hsp, hlr⟩
  refine run_of_sits (s := ⟨c, m⟩) (hpc ▸ (sits_entry T .svc).2) (fun i hi => ?_) hexec
  simp only [exceptionExitSvc, List.dropLast_cons_cons, List.dropLast_singleton, List.mem_cons,
    List.not_mem_nil, or_false] at hi
  rcases hi with rfl | rfl <;> rfl

end

end RingNova.Isa
