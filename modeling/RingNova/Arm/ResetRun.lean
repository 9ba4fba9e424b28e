/-
# The boot code runs

Every machine at reset gets to `kmain` (`reset_kmain`), whatever the bootloader has left in the
registers, in memory and in the TLB, and whatever the compiler has made of `mmu_init`.

The code runs on three simpler memory systems one after the other.  While the MMU is off it is
physical memory (`physBus`).  From the write to SCTLR on the code only fetches: first through
the identity map, and after the jump to `_start_va` through the high alias; both are `fetchBus`,
which finds the code at a physical address that does not depend on the TLB.
-/
import RingNova.Arm.Boot
import RingNova.Arm.Reset

namespace RingNova.Isa

/-! ### With the MMU off -/

/-- The memory system while the MMU is off. -/
def physBus (code : ℕ → Option Instr) : Bus Mmu where
  idle m := m
  fetch _ _ a := if a &&& 3#32 = 0#32 then code a.toNat else none
  load m _ a := if a &&& 3#32 = 0#32 then some (m.mem.load32 a.toNat, m) else none
  store m _ a w :=
    if a &&& 3#32 = 0#32 then some { m with mem := m.mem.store32 a.toNat w } else none
  mcr m reg x := if reg = .sctlr then none else some (m.write x reg)
  mrc m reg := m.read reg

lemma Mmu.translate_off {m : Mmu} (h : m.on = false) (va : Word) (priv : Bool) (x : Access) :
    m.translate va priv x = some va.toNat := by
  rw [Mmu.translate, h]
  rfl

lemma Mmu.refill_off {m : Mmu} (h : m.on = false) (hw : ℕ → Tlb.Refill) : m.refill hw = m := by
  rw [Mmu.refill, h]
  rfl

lemma phys_sim (code : ℕ → Option Instr) (hw : ℕ → Tlb.Refill) :
    Bus.Sim (mmuBus code hw) (physBus code) (fun m n => m = n ∧ m.on = false) where
  idle := by
    rintro m _ ⟨rfl, h⟩
    have hidle : (mmuBus code hw).idle m = m := Mmu.refill_off h hw
    exact ⟨hidle, hidle.symm ▸ h⟩
  fetch := by
    rintro m _ priv a i ⟨rfl, h⟩ hf
    simp only [physBus, mmuBus, Mmu.translate_off h, Option.bind_some] at hf ⊢
    exact hf
  load := by
    rintro m _ priv a w n' ⟨rfl, h⟩ hf
    simp only [physBus, Option.ite_none_right_eq_some, Option.some.injEq, Prod.mk.injEq] at hf
    obtain ⟨hal, rfl, rfl⟩ := hf
    refine ⟨m, ?_, rfl, h⟩
    simp only [mmuBus, if_pos hal, Mmu.translate_off h, Option.map_some]
  store := by
    rintro m _ priv a w n' ⟨rfl, h⟩ hf
    simp only [physBus, Option.ite_none_right_eq_some, Option.some.injEq] at hf
    obtain ⟨hal, rfl⟩ := hf
    refine ⟨{ m with mem := m.mem.store32 a.toNat w }, ?_, rfl, h⟩
    simp only [mmuBus, if_pos hal, Mmu.translate_off h, Option.map_some]
  mcr := by
    rintro m _ reg x n' ⟨rfl, h⟩ hf
    simp only [physBus, Option.ite_none_left_eq_some, Option.some.injEq] at hf
    obtain ⟨hne, rfl⟩ := hf
    refine ⟨m.write x reg, rfl, rfl, ?_⟩
    cases reg with
    | sctlr => exact absurd rfl hne
    | _ => exact h
  mrc := by
    rintro m _ reg x ⟨rfl, h⟩ hf
    exact hf

/-! ### With the MMU on -/

section

variable {b : Board} {tr : Word → ℕ} {m n : Mmu}

/-- A memory system from which code is fetched, at the physical addresses `tr`, and nothing
else. -/
def fetchBus (b : Board) (code : ℕ → Option Instr) (tr : Word → ℕ) : Bus Mmu where
  idle m := m
  fetch _ priv a :=
    if priv = true ∧ a &&& 3#32 = 0#32 ∧ b.ram.Mem (tr a) then code (tr a) else none
  load _ _ _ := none
  store _ _ _ _ := none
  mcr _ _ _ := none
  mrc _ _ := none

/-- The MMU is on, and its table translates to `tr` wherever that is in RAM. -/
structure Maps (b : Board) (tr : Word → ℕ) (m : Mmu) : Prop where
  on : m.on = true
  ttbcr : m.ttbcr = 0#32
  dacr : m.dacr = 1#32
  walk : ∀ a x, b.ram.Mem (tr a) → m.table.walk a true x = some (tr a)

/-- A memory system that differs from another one in its TLB, which is up to date. -/
structure Fresh (m n : Mmu) : Prop where
  mem : m.mem = n.mem
  sctlr : m.sctlr = n.sctlr
  ttbr0 : m.ttbr0 = n.ttbr0
  ttbcr : m.ttbcr = n.ttbcr
  dacr : m.dacr = n.dacr
  vbar : m.vbar = n.vbar
  tlb : Tlb.Coherent (· < pgdEntries) m.tlb m.table

lemma Fresh.table (h : Fresh m n) : m.table = n.table := by
  rw [Mmu.table, Mmu.table, h.mem, h.ttbr0]

lemma Maps.fresh (h : Maps b tr n) (hf : Fresh m n) : Maps b tr m := by
  refine ⟨?_, hf.ttbcr.trans h.ttbcr, hf.dacr.trans h.dacr, ?_⟩
  · rw [Mmu.on, hf.sctlr]
    exact h.on
  · rw [hf.table]
    exact h.walk

/-- With an up-to-date TLB every translation is the walk of the table. -/
lemma Maps.translate_eq (h : Maps b tr m) (ht : Tlb.Coherent (· < pgdEntries) m.tlb m.table)
    (va : Word) (priv : Bool) (x : Access) : m.translate va priv x = m.table.walk va priv x := by
  have hentry : m.tlb.lookup m.table (va >>> 20).toNat = m.table (va >>> 20).toNat :=
    ht.lookup (entry_lt va)
  rw [Mmu.translate, if_pos h.on, if_pos ⟨h.ttbcr, h.dacr⟩]
  simp only [Table.walk, hentry]

lemma Fresh.refill (h : Fresh m n) (hw : ℕ → Tlb.Refill) : Fresh (m.refill hw) n := by
  rw [Mmu.refill]
  split
  · exact { h with tlb := h.tlb.refill _ }
  · exact h

lemma fetch_sim (code : ℕ → Option Instr) (hw : ℕ → Tlb.Refill) :
    Bus.Sim (mmuBus code hw) (fetchBus b code tr) (fun m n => Fresh m n ∧ Maps b tr n) where
  idle h := ⟨h.1.refill hw, h.2⟩
  fetch := by
    rintro m n priv a i ⟨h, hn⟩ hf
    simp only [fetchBus, Option.ite_none_right_eq_some] at hf
    obtain ⟨⟨rfl, hal, hram⟩, hf⟩ := hf
    have hm := hn.fresh h
    have htr : m.translate a true .fetch = some (tr a) :=
      (hm.translate_eq h.tlb a true .fetch).trans (hm.walk a .fetch hram)
    simp only [mmuBus, if_pos hal, htr, Option.bind_some, hf]
  load _ hf := absurd hf (by simp [fetchBus])
  store _ hf := absurd hf (by simp [fetchBus])
  mcr _ hf := absurd hf (by simp [fetchBus])
  mrc _ hf := absurd hf (by simp [fetchBus])

end

/-! ### Where the code stands -/

section

variable {b : Board} {L : Layout b} {T : Text L} {code : ℕ → Option Instr} {va : Word}
  {is : List Instr}

/-- The physical address behind an address of the high alias, as a program counter. -/
lemma toNat_sub_physOffset (va : Word) : (va - b.physOffset).toNat = b.pa va := rfl

lemma physOffset_aligned (b : Board) : b.physOffset &&& 3#32 = 0#32 := by
  cases b <;> decide

lemma sub_physOffset_aligned (h : va &&& 3#32 = 0#32) : (va - b.physOffset) &&& 3#32 = 0#32 := by
  have ho := (aligned_iff _).1 (physOffset_aligned b)
  have hv := (aligned_iff va).1 h
  rw [aligned_iff, BitVec.toNat_sub]
  omega

lemma sub_physOffset_add (va w : Word) : va - b.physOffset + w = va + w - b.physOffset := by
  rw [BitVec.sub_eq_add_neg, BitVec.sub_eq_add_neg, BitVec.add_assoc, BitVec.add_assoc,
    BitVec.add_comm w]

/-- With the MMU off, code stands at its physical address. -/
lemma sits_phys (h : Placed b code va is) : Sits (physBus code) (va - b.physOffset) is := by
  induction is generalizing va with
  | nil => trivial
  | cons i is ih =>
    obtain ⟨⟨hal, -, hcode⟩, hrest⟩ := h
    refine ⟨fun m => ?_, ?_⟩
    · exact (if_pos (sub_physOffset_aligned hal)).trans hcode
    · rw [sub_physOffset_add]
      exact ih hrest

/-- Through the identity map, too. -/
lemma sits_identity (h : Placed b code va is) :
    Sits (fetchBus b code BitVec.toNat) (va - b.physOffset) is := by
  induction is generalizing va with
  | nil => trivial
  | cons i is ih =>
    obtain ⟨⟨hal, hram, hcode⟩, hrest⟩ := h
    refine ⟨fun m => ?_, ?_⟩
    · exact (if_pos ⟨rfl, sub_physOffset_aligned hal, hram⟩).trans hcode
    · rw [sub_physOffset_add]
      exact ih hrest

/-- Through the high alias it stands where it is linked. -/
lemma sits_alias (h : Placed b code va is) : Sits (fetchBus b code b.pa) va is := by
  induction is generalizing va with
  | nil => trivial
  | cons i is ih =>
    obtain ⟨⟨hal, hram, hcode⟩, hrest⟩ := h
    exact ⟨fun m => (if_pos ⟨rfl, hal, hram⟩).trans hcode, ih hrest⟩

/-! ### The boot table -/

lemma bootTable_of_call {m : MapCall} (hm : m ∈ bootCalls b) {i : ℕ} (hi : m.Covers i)
    (t : Table) : mmuBuildBootPgd b t i = sectionDesc (m.frame i) m.attrs := by
  have happ := (List.pairwise_cons.1 (calls_apart b 0)).2
  rw [mmuBuildBootPgd_eq]
  exact (foldl_run_apply (bootCalls_ok b) happ t i).1 m hm hi

/-- What the boot table is does not depend on entries that it overwrites. -/
lemma mmuBuildBootPgd_congr (b : Board) {t t' : Table} {i : ℕ} (h : t i = t' i) :
    mmuBuildBootPgd b t i = mmuBuildBootPgd b t' i := by
  have happ := (List.pairwise_cons.1 (calls_apart b 0)).2
  rw [mmuBuildBootPgd_eq, mmuBuildBootPgd_eq]
  by_cases hex : ∃ m ∈ bootCalls b, m.Covers i
  · obtain ⟨m, hm, hi⟩ := hex
    rw [(foldl_run_apply (bootCalls_ok b) happ t i).1 m hm hi,
      (foldl_run_apply (bootCalls_ok b) happ t' i).1 m hm hi]
  · have hnone : ∀ m ∈ bootCalls b, ¬ m.Covers i := fun m hm hi => hex ⟨m, hm, hi⟩
    rw [(foldl_run_apply (bootCalls_ok b) happ t i).2 hnone,
      (foldl_run_apply (bootCalls_ok b) happ t' i).2 hnone, h]

/-- RAM is mapped to itself. -/
lemma walk_identity {t : Table} (ht : ∀ i < pgdEntries, t i = bootTable b i) {a : Word}
    (h : b.ram.Mem a.toNat) (x : Access) : t.walk a true x = some a.toNat := by
  have hmem : identityCall b ∈ bootCalls b := by simp [bootCalls]
  have hok := bootCalls_ok b _ hmem
  have hva : (identityCall b).va.toNat ≤ a.toNat ∧
      a.toNat < (identityCall b).va.toNat + (identityCall b).size.toNat := h
  have hdesc := (ht _ (entry_lt a)).trans (bootTable_of_call hmem ((hok.covers_iff a).2 hva) _)
  have hattrs : (identityCall b).attrs = pdeKernelMem := rfl
  have hperm : (isSection pdeKernelMem && allows pdeKernelMem true x) = true := by
    cases x <;> decide
  have hpa : (identityCall b).pa.toNat + (a.toNat - (identityCall b).va.toNat) = a.toNat := by
    have hsame : (identityCall b).pa = (identityCall b).va := rfl
    rw [hsame]
    omega
  rw [walk_of_call hok (by rw [hattrs]; decide) hva hdesc true x, hattrs, hperm, hpa, if_pos rfl]

/-- The high alias is mapped, too. -/
lemma walk_alias {t : Table} (ht : ∀ i < pgdEntries, t i = bootTable b i) {a : Word}
    (h : b.ram.Mem (b.pa a)) (x : Access) : t.walk a true x = some (b.pa a) := by
  refine walk_ram ((ht _ (entry_lt a)).trans ?_) h x
  have hmem : kernelCall b ∈ bootCalls b := by simp [bootCalls]
  exact bootTable_of_call hmem (((bootCalls_ok b _ hmem).covers_iff a).2 (covers_of_ram h)) _

end

/-! ### `start.S`, up to the loop -/

section

variable {b : Board} {L : Layout b} {T : Text L} {R : BootText T} {c : Core} {m : Mmu}

/-- `_reset`, up to the loop. -/
def headCode (R : BootText T) : List Instr :=
  [.cpsid 0xC0#32, .adr (.r 0) (-8#32), .ldrLit (.r 4) T.start, .subReg (.r 4) (.r 4) (.r 0),
    .cps 0x13#32, .ldrLit (.r 1) R.svcStackTop, .subReg .sp (.r 1) (.r 4),
    .ldrLit (.r 1) R.bssStart, .ldrLit (.r 2) R.bssEnd, .subReg (.r 1) (.r 1) (.r 4),
    .subReg (.r 2) (.r 2) (.r 4), .mov (.r 3) 0#32]

/-- `.Lzero_bss`. -/
def zeroBss : List Instr :=
  [.cmpReg (.r 1) (.r 2), .strPost .lo (.r 3) (.r 1) 4#32, .b .lo (-8#32)]

/-- The call of `mmu_init`. -/
def callInit (R : BootText T) : List Instr :=
  [.movReg (.r 0) (.r 4), .bl (R.mmuInit - (T.start + 68#32))]

/-- `_start_va`. -/
def startVa (R : BootText T) : List Instr :=
  [.cps 0x11#32, .ldrLit .sp R.fiqStackTop, .cps 0x12#32, .ldrLit .sp R.irqStackTop,
    .cps 0x17#32, .ldrLit .sp L.abtStackTop, .cps 0x1B#32, .ldrLit .sp L.undStackTop,
    .cps 0x13#32, .ldrLit .sp R.svcStackTop, .bl (R.kmain - (T.start + 116#32))]

lemma startCode_eq (R : BootText T) : startCode L T.start R.fiqStackTop R.irqStackTop R.svcStackTop
    R.bssStart R.bssEnd R.mmuInit R.kmain =
      [.b .al 4#32] ++ (headCode R ++ (zeroBss ++ (callInit R ++ ([.ldrPc (T.start + 76#32)] ++
        (startVa R ++ [.wfi, .b .al (-4#32)]))))) := rfl

/-- SVC mode, with IRQ and FIQ masked. -/
structure Masked (psr : Word) : Prop where
  kernel : KernelMode psr
  fiq : psr.getLsbD 6 = true

lemma getLsbD_cpsid (psr : Word) : (psr ||| 0xC0#32).getLsbD 5 = psr.getLsbD 5 ∧
    (psr ||| 0xC0#32).getLsbD 6 = true ∧ (psr ||| 0xC0#32).getLsbD 7 = true := by
  simp

lemma mode_cpsid (psr : Word) : (psr ||| 0xC0#32) &&& 0x1F#32 = psr &&& 0x1F#32 := by
  apply BitVec.eq_of_getLsbD_eq
  intro i hi
  simp only [BitVec.getLsbD_and, BitVec.getLsbD_or]
  interval_cases i <;> simp

lemma masked_withMode {psr : Word} (h5 : psr.getLsbD 5 = false) (h6 : psr.getLsbD 6 = true)
    (h7 : psr.getLsbD 7 = true) : Masked (withMode psr 0x13#32) := by
  have hbit : ∀ i, 5 ≤ i → i < 8 → (withMode psr 0x13#32).getLsbD i = psr.getLsbD i :=
    fun i h h' => getLsbD_withMode psr h (by omega) (by interval_cases i <;> rfl)
  refine ⟨(kernelMode_iff _).2 ⟨withMode_and psr _, ?_, ?_⟩, ?_⟩
  · exact (hbit 5 (by omega) (by omega)).trans h5
  · exact (hbit 7 (by omega) (by omega)).trans h7
  · exact (hbit 6 (by omega) (by omega)).trans h6

/-- Before the loop: the distance of the two address spaces is in `r4`, and the bounds of `.bss`
in `r1` and `r2`. -/
structure HeadDone (R : BootText T) (c : Core) : Prop where
  r4 : c.r 4 = b.physOffset
  r1 : c.r 1 = R.bssStart - b.physOffset
  r2 : c.r 2 = R.bssEnd - b.physOffset
  r3 : c.r 3 = 0#32
  sp : c.sp .svc = R.svcStackTop - b.physOffset
  masked : Masked c.cpsr

lemma execAll_head (hp : privileged c.cpsr = true) (harm : c.cpsr.getLsbD 5 = false)
    (hpc : c.pc = T.start - b.physOffset + 4#32) (code : ℕ → Option Instr) :
    ∃ c', execAll (physBus code) ⟨c, m⟩ (headCode R) = some ⟨c', m⟩ ∧ HeadDone R c' ∧
      c'.pc = T.start - b.physOffset + 52#32 := by
  have hp' : privileged (c.cpsr ||| 0xC0#32) = true := by
    rw [privileged, mode_cpsid]
    exact hp
  obtain ⟨hb5, hb6, hb7⟩ := getLsbD_cpsid c.cpsr
  have hoff : T.start - (c.pc + 4#32 + 0xFFFFFFF8#32) = b.physOffset := by
    rw [hpc]
    bv_omega
  simp only [headCode, execAll, exec, physBus, Core.get, Core.set, Core.bank, Core.withSp,
    Core.next, Core.goto, hp, hp', harm, hb5, bankOf_svc, privileged_svc, arm_svc, Option.map_some,
    Option.bind_eq_bind, Option.bind_some, Option.pure_def, Bool.not_false, Bool.and_self, if_true]
  refine ⟨_, rfl, ⟨?_, ?_, ?_, ?_, ?_, ?_⟩, ?_⟩
  · simp [hoff]
  · simp [hoff]
  · simp [hoff]
  · simp
  · simp [hoff]
  · exact masked_withMode (hb5.trans harm) hb6 hb7
  · simp [hpc, BitVec.add_assoc]

/-! ### The loop -/

lemma lo_compare (c : Core) (x y : Word) : (c.compare x y).holds .lo = decide (x < y) := by
  have hbit : (c.compare x y).cpsr.getLsbD 29 = decide (y ≤ x) := by
    simp only [Core.compare, BitVec.getLsbD_append]
    simp
  rw [Core.holds, hbit, ← decide_not]
  exact decide_eq_decide.2 BitVec.not_le

lemma Masked.compare (h : Masked c.cpsr) (x y : Word) : Masked (c.compare x y).cpsr := by
  obtain ⟨hmode, harm, hirq⟩ := (kernelMode_iff _).1 h.kernel
  refine ⟨(kernelMode_iff _).2 ⟨(c.mode_compare x y).trans hmode, ?_, ?_⟩, ?_⟩
  · exact (c.getLsbD_compare x y (by omega)).trans harm
  · exact (c.getLsbD_compare x y (by omega)).trans hirq
  · exact (c.getLsbD_compare x y (by omega)).trans h.fiq

lemma Masked.privileged {psr : Word} (h : Masked psr) : privileged psr = true :=
  privileged_of_and ((kernelMode_iff _).1 h.kernel).1 (by decide)

lemma Masked.arm {psr : Word} (h : Masked psr) : psr.getLsbD 5 = false :=
  ((kernelMode_iff _).1 h.kernel).2.1

/-- The core after a round of the loop that has cleared a word. -/
def cleared (c : Core) : Core :=
  { c.compare (c.r 1) (c.r 2) with r := Function.update c.r 1 (c.r 1 + 4#32) }

/-- A round of the loop. -/
lemma leads_cleared {code : ℕ → Option Instr} (hs : Sits (physBus code) c.pc zeroBss)
    (hc : Masked c.cpsr) (hal : c.r 1 &&& 3#32 = 0#32) (hlt : c.r 1 < c.r 2) :
    Leads (physBus code) ⟨c, m⟩
      ⟨cleared c, { m with mem := m.mem.store32 (c.r 1).toNat (c.r 3) }⟩ := by
  have hcmp := hc.compare (c.r 1) (c.r 2)
  have hlo : (!(c.compare (c.r 1) (c.r 2)).cpsr.getLsbD 29) = true :=
    (lo_compare c _ _).trans (decide_eq_true hlt)
  refine leads_of_sits (s := ⟨c, m⟩) hs (by decide) ?_
  have h1 : exec (physBus code) ⟨c, m⟩ (.cmpReg (.r 1) (.r 2)) =
      some ⟨(c.compare (c.r 1) (c.r 2)).next, m⟩ := rfl
  have hr : (c.compare (c.r 1) (c.r 2)).r = c.r := rfl
  rw [zeroBss, execAll_cons (s := ⟨c, m⟩) hc.privileged hc.arm h1, cleared]
  generalize c.compare (c.r 1) (c.r 2) = d at *
  simp only [execAll, exec, physBus, Core.get, Core.set, Core.holds, Core.next, Core.goto,
    hcmp.privileged, hcmp.arm, hlo, hal, hr, Option.bind_eq_bind, Option.bind_some,
    Option.pure_def, Bool.not_false, Bool.and_self, if_true]
  simp [BitVec.add_assoc]

/-- The loop ends. -/
lemma leads_zeroBss_done {code : ℕ → Option Instr} (hs : Sits (physBus code) c.pc zeroBss)
    (hc : Masked c.cpsr) (hlt : ¬ c.r 1 < c.r 2) :
    Leads (physBus code) ⟨c, m⟩ ⟨(c.compare (c.r 1) (c.r 2)).goto (c.pc + 12#32), m⟩ := by
  have hcmp := hc.compare (c.r 1) (c.r 2)
  have hlo : (!(c.compare (c.r 1) (c.r 2)).cpsr.getLsbD 29) = false :=
    (lo_compare c _ _).trans (decide_eq_false hlt)
  refine leads_of_sits (s := ⟨c, m⟩) hs (by decide) ?_
  have h1 : exec (physBus code) ⟨c, m⟩ (.cmpReg (.r 1) (.r 2)) =
      some ⟨(c.compare (c.r 1) (c.r 2)).next, m⟩ := rfl
  have hpc : (c.compare (c.r 1) (c.r 2)).pc = c.pc := rfl
  rw [zeroBss, execAll_cons (s := ⟨c, m⟩) hc.privileged hc.arm h1]
  generalize c.compare (c.r 1) (c.r 2) = d at *
  simp only [execAll, exec, physBus, Core.holds, Core.next, Core.goto, hcmp.privileged, hcmp.arm,
    hlo, hpc, Option.bind_eq_bind, Option.bind_some, Bool.not_false, Bool.and_self, if_true,
    Bool.false_eq_true, if_false]
  simp [BitVec.add_assoc]

/-- Clearing a word and then those behind it. -/
lemma overwrite_store32 (mem : Memory) (x n : ℕ) :
    (mem.store32 x 0#32).overwrite ⟨x + 4, 4 * n⟩ (fun _ => 0#8) =
      mem.overwrite ⟨x, 4 * (n + 1)⟩ fun _ => 0#8 := by
  funext a
  by_cases hrest : Region.Mem ⟨x + 4, 4 * n⟩ a
  · have hall : Region.Mem ⟨x, 4 * (n + 1)⟩ a := by
      simp only [Region.Mem] at hrest ⊢
      omega
    rw [Memory.overwrite_of_mem _ _ hrest, Memory.overwrite_of_mem _ _ hall]
  · rw [Memory.overwrite, if_neg hrest]
    by_cases hword : Region.Mem ⟨x, 4⟩ a
    · have hall : Region.Mem ⟨x, 4 * (n + 1)⟩ a := by
        simp only [Region.Mem] at hword ⊢
        omega
      rw [Memory.overwrite_of_mem _ _ hall, Memory.store32]
      simp only [Region.Mem] at hword
      split_ifs <;> first | simp | omega
    · rw [Memory.store32_within mem x 0#32 a hword, Memory.overwrite, if_neg]
      simp only [Region.Mem] at hrest hword ⊢
      omega

/-- **The loop clears `.bss`.** -/
lemma leads_zeroBss {code : ℕ → Option Instr} (n : ℕ) (hs : Sits (physBus code) c.pc zeroBss)
    (hc : Masked c.cpsr) (hal : c.r 1 &&& 3#32 = 0#32) (h3 : c.r 3 = 0#32)
    (hn : (c.r 1).toNat + 4 * n = (c.r 2).toNat) :
    ∃ c', Leads (physBus code) ⟨c, m⟩
        ⟨c', { m with mem := m.mem.overwrite ⟨(c.r 1).toNat, 4 * n⟩ fun _ => 0#8 }⟩ ∧
      c'.pc = c.pc + 12#32 ∧ c'.r 4 = c.r 4 ∧ c'.sp = c.sp ∧ Masked c'.cpsr := by
  induction n generalizing c m with
  | zero =>
    have hlt : ¬ c.r 1 < c.r 2 := by
      rw [BitVec.lt_def]
      omega
    have hnone : m.mem.overwrite ⟨(c.r 1).toNat, 4 * 0⟩ (fun _ => 0#8) = m.mem := by
      funext a
      rw [Memory.overwrite, if_neg (by simp [Region.Mem])]
    rw [hnone]
    exact ⟨_, leads_zeroBss_done hs hc hlt, rfl, rfl, rfl, hc.compare _ _⟩
  | succ n ih =>
    have hlt : c.r 1 < c.r 2 := by
      rw [BitVec.lt_def]
      omega
    have hnext : (c.r 1 + 4#32).toNat = (c.r 1).toNat + 4 := by
      have hle := (c.r 2).isLt
      rw [BitVec.toNat_add, BitVec.toNat_ofNat]
      omega
    have h1 : (cleared c).r 1 = c.r 1 + 4#32 := by simp [cleared]
    have hround := leads_cleared (m := m) hs hc hal hlt
    obtain ⟨c', hrun, hpc, hr4, hsp, hmask⟩ := ih (c := cleared c)
      (m := { m with mem := m.mem.store32 (c.r 1).toNat (c.r 3) }) hs (hc.compare _ _)
      (h1 ▸ aligned_add hal (k := 4) (by omega)) h3
      (by rw [h1, hnext]; show _ = (c.r 2).toNat; omega)
    rw [h1, hnext, h3, overwrite_store32] at hrun
    rw [h3] at hround
    exact ⟨c', hround.trans hrun, hpc, hr4, hsp, hmask⟩

/-! ### `start.S`, up to the call of `mmu_init` -/

/-- Where the parts of `start.S` stand. -/
structure SitsStart (B : Bus Mmu) (a : Word) (R : BootText T) : Prop where
  entry : Sits B a [.b .al 4#32]
  head : Sits B (a + 4#32) (headCode R)
  loop : Sits B (a + 52#32) zeroBss
  call : Sits B (a + 64#32) (callInit R)
  jump : Sits B (a + 72#32) [.ldrPc (T.start + 76#32)]
  modes : Sits B (a + 76#32) (startVa R)

lemma sitsStart {B : Bus Mmu} {a : Word} (h : Sits B a (startCode L T.start R.fiqStackTop
    R.irqStackTop R.svcStackTop R.bssStart R.bssEnd R.mmuInit R.kmain)) : SitsStart B a R := by
  rw [startCode_eq, sits_append, sits_append, sits_append, sits_append, sits_append, sits_append]
    at h
  have h₁ : (headCode R).length = 12 := rfl
  have h₂ : zeroBss.length = 3 := rfl
  have h₃ : (callInit R).length = 2 := rfl
  simp only [List.length_singleton, h₁, h₂, h₃, BitVec.add_assoc, Nat.reduceMul,
    BitVec.reduceAdd] at h
  exact ⟨h.1, h.2.1, h.2.2.1, h.2.2.2.1, h.2.2.2.2.1, h.2.2.2.2.2.1⟩

/-- `mmu_init` is called, with the distance of the two address spaces. -/
structure InitCalled (R : BootText T) (m : Mmu) (s : St Mmu) : Prop where
  pc : s.core.pc = R.mmuInit - b.physOffset
  lr : s.core.lr .svc = T.start - b.physOffset + 72#32
  r0 : s.core.r 0 = b.physOffset
  sp : s.core.sp .svc = R.svcStackTop - b.physOffset
  masked : Masked s.core.cpsr
  sys : s.sys = { m with mem := m.mem.overwrite R.bss fun _ => 0#8 }

lemma execAll_callInit (hc : Masked c.cpsr) (code : ℕ → Option Instr) :
    execAll (physBus code) ⟨c, m⟩ (callInit R) = some
      ⟨{ c with
          r := Function.update c.r 0 (c.r 4)
          lr := Function.update c.lr .svc (c.pc + 8#32)
          pc := c.pc + 4#32 + (R.mmuInit - (T.start + 68#32)) }, m⟩ := by
  have hk : bankOf c.cpsr = some .svc :=
    bankOf_of_and ((kernelMode_iff _).1 hc.kernel).1 (by decide)
  simp only [callInit, execAll, exec, physBus, Core.get, Core.set, Core.bank, Core.withLr,
    Core.next, Core.goto, hc.privileged, hc.arm, hk, Option.map_some, Option.bind_eq_bind,
    Option.bind_some, Option.pure_def, Bool.not_false, Bool.and_self, if_true, BitVec.add_assoc,
    BitVec.reduceAdd]

/-- **The boot code calls `mmu_init`**, with `.bss` cleared. -/
lemma leads_callInit (R : BootText T) {s : St Mmu} (hs : AtReset T s) :
    ∃ s', Leads (physBus T.code) s s' ∧ InitCalled R s.sys s' := by
  obtain ⟨c, m⟩ := s
  obtain ⟨hpc, hp, harm, -⟩ := hs
  simp only at hpc hp harm
  have hsits := sitsStart (sits_phys R.start_placed)
  -- `b _reset`
  have h₁ : Leads (physBus T.code) ⟨c, m⟩ ⟨c.goto (c.pc + 4#32), m⟩ := by
    refine leads_of_sits (s := ⟨c, m⟩) (hpc ▸ hsits.entry) (by simp) ?_
    rw [execAll_cons (s := ⟨c, m⟩) hp harm rfl]
    rfl
  obtain ⟨c₂, hexec₂, hdone, hpc₂⟩ := execAll_head (R := R) (m := m) (c := c.goto (c.pc + 4#32))
    hp harm (by rw [← hpc]; rfl) T.code
  have h₂ : Leads (physBus T.code) ⟨c.goto (c.pc + 4#32), m⟩ ⟨c₂, m⟩ :=
    leads_of_sits (s := ⟨c.goto (c.pc + 4#32), m⟩) (hpc ▸ hsits.head)
      (by simp [headCode, Instr.straight]) hexec₂
  -- the loop
  have hstart : (c₂.r 1).toNat = b.pa R.bssStart := by rw [hdone.r1, toNat_sub_physOffset]
  have hend : (c₂.r 2).toNat = b.pa R.bssEnd := by rw [hdone.r2, toNat_sub_physOffset]
  have hal₁ : c₂.r 1 &&& 3#32 = 0#32 := by
    rw [hdone.r1]
    exact sub_physOffset_aligned ((aligned_iff _).2 R.bss_aligned.1)
  have hal₂ : c₂.r 2 &&& 3#32 = 0#32 := by
    rw [hdone.r2]
    exact sub_physOffset_aligned ((aligned_iff _).2 R.bss_aligned.2)
  have hle := R.bss_le
  rw [aligned_iff] at hal₁ hal₂
  obtain ⟨n, hn⟩ : ∃ n, b.pa R.bssEnd - b.pa R.bssStart = 4 * n :=
    ⟨(b.pa R.bssEnd - b.pa R.bssStart) / 4, by omega⟩
  obtain ⟨c₃, h₃, hpc₃, hr₃, hsp₃, hmask₃⟩ := leads_zeroBss (m := m) n (hpc₂ ▸ hsits.loop)
    hdone.masked ((aligned_iff _).2 hal₁) hdone.r3 (by omega)
  have hbss : R.bss = ⟨(c₂.r 1).toNat, 4 * n⟩ := by rw [BootText.bss, hstart, hn]
  rw [← hbss] at h₃
  rw [hpc₂, BitVec.add_assoc] at hpc₃
  -- the call
  have h₄ := leads_of_sits
    (s := ⟨c₃, { m with mem := m.mem.overwrite R.bss fun _ => 0#8 }⟩) (hpc₃ ▸ hsits.call)
    (by simp [callInit, Instr.straight]) (execAll_callInit hmask₃ T.code)
  refine ⟨_, h₁.trans (h₂.trans (h₃.trans h₄)), ?_, ?_, ?_, ?_, hmask₃, rfl⟩
  · simp only [hpc₃]
    bv_omega
  · simp [hpc₃, BitVec.add_assoc]
  · simp [hr₃, hdone.r4]
  · simp [hsp₃, hdone.sp]

/-! ### `mmu_enable` -/

/-- The MMU after `mmu_enable`, with this table. -/
def enabledMmu (m : Mmu) (pgdPa : Word) : Mmu :=
  { m with
    tlb := Tlb.flush
    sctlr := m.sctlr ||| 0x1805#32
    ttbr0 := pgdPa ||| 0x4A#32
    ttbcr := 0#32
    dacr := 1#32 }

@[simp] lemma mem_enabledMmu (m : Mmu) (pgdPa : Word) : (enabledMmu m pgdPa).mem = m.mem := rfl

/-- Up to the write to SCTLR. -/
lemma execAll_beforeSctlr (hp : privileged c.cpsr = true) (harm : c.cpsr.getLsbD 5 = false)
    (m : Mmu) (code : ℕ → Option Instr) :
    ∃ r, execAll (physBus code) ⟨c, m⟩ beforeSctlr = some
        ⟨{ c with r := r, pc := c.pc + 80#32 },
          { enabledMmu m (c.r 0) with sctlr := m.sctlr }⟩ ∧
      r 1 = m.sctlr ||| 0x1805#32 ∧ ∀ i : Fin 13, 4 ≤ i.val → r i = c.r i := by
  have hne : (0 : Fin 13) ≠ 1 := by decide
  simp only [beforeSctlr, execAll, exec, physBus, Core.get, Core.set, Core.next, Core.goto, hp,
    harm, Mmu.write, Mmu.read, reduceCtorEq, Option.bind_eq_bind, Option.bind_some,
    Option.pure_def, Bool.not_false, Bool.and_self, if_true, if_false, Function.update_self,
    Function.update_idem, Function.update_of_ne, ne_eq, hne, not_false_eq_true, BitVec.add_assoc,
    BitVec.reduceAdd, BitVec.or_assoc, BitVec.reduceOr]
  refine ⟨_, rfl, by simp, ?_⟩
  intro i hi
  have h0 : i ≠ 0 := by rintro rfl; exact absurd hi (by decide)
  have h1 : i ≠ 1 := by rintro rfl; exact absurd hi (by decide)
  simp [h0, h1]

/-- With the MMU off, an instruction at the program counter is executed. -/
lemma step_off {code : ℕ → Option Instr} {i : Instr} {is : List Instr}
    (hs : Sits (physBus code) c.pc (i :: is)) (hoff : m.on = false)
    (hp : privileged c.cpsr = true) (harm : c.cpsr.getLsbD 5 = false) (hw : ℕ → Tlb.Refill) :
    step (mmuBus code hw) ⟨c, m⟩ = exec (mmuBus code hw) ⟨c, m⟩ i := by
  have hidle : (mmuBus code hw).idle m = m := Mmu.refill_off hoff hw
  have hfetch : (mmuBus code hw).fetch m true c.pc = some i :=
    (phys_sim code hw).fetch ⟨rfl, hoff⟩ (hs.1 m)
  rw [step, harm]
  simp only [Bool.false_eq_true, if_false, hidle, hp, hfetch, Option.bind_eq_bind,
    Option.bind_some]

/-- The write to SCTLR turns the MMU on. -/
lemma exec_mcrSctlr {r : Fin 13 → Word} {pc pgdPa : Word} (hp : privileged c.cpsr = true)
    (hr : r 1 = m.sctlr ||| 0x1805#32) (code : ℕ → Option Instr) (hw : ℕ → Tlb.Refill) :
    exec (mmuBus code hw) ⟨{ c with r := r, pc := pc },
        { enabledMmu m pgdPa with sctlr := m.sctlr }⟩ (.mcr (.r 1) .sctlr) =
      some ⟨{ c with r := r, pc := pc + 4#32 }, enabledMmu m pgdPa⟩ := by
  simp only [exec, mmuBus, Core.get, Core.next, Core.goto, hp, hr, Mmu.write, enabledMmu,
    Option.bind_eq_bind, Option.bind_some, Option.pure_def, if_true]

/-- What stands behind the write is fetched through the identity map. -/
lemma run_afterSctlr (code : ℕ → Option Instr) (hw : ℕ → Tlb.Refill)
    (hs : Sits (fetchBus b code BitVec.toNat) c.pc [.isb, .bx .lr])
    (hmode : c.cpsr &&& 0x1F#32 = 0x13#32) (harm : c.cpsr.getLsbD 5 = false)
    (hlr : c.lr .svc &&& 3#32 = 0#32) {pgdPa : Word}
    (hmaps : Maps b BitVec.toNat (enabledMmu m pgdPa)) :
    ∃ m', run (mmuBus code hw) 2 ⟨c, enabledMmu m pgdPa⟩ =
        some ⟨{ c with pc := c.lr .svc }, m'⟩ ∧ Fresh m' (enabledMmu m pgdPa) := by
  have hp := privileged_of_and hmode (by decide)
  have hk : bankOf c.cpsr = some .svc := bankOf_of_and hmode (by decide)
  have hexec : execAll (fetchBus b code BitVec.toNat) ⟨c, enabledMmu m pgdPa⟩ [.isb, .bx .lr] =
      some ⟨{ c with pc := c.lr .svc }, enabledMmu m pgdPa⟩ := by
    simp only [execAll, exec, fetchBus, Core.get, Core.bank, Core.next, Core.goto, hp, harm, hk,
      hlr, Option.map_some, Option.bind_eq_bind, Option.bind_some, Option.pure_def, Bool.not_false,
      Bool.and_self, if_true]
  have hrun := run_of_sits (s := ⟨c, enabledMmu m pgdPa⟩) hs (by simp [Instr.straight]) hexec
  have hflush : Fresh (enabledMmu m pgdPa) (enabledMmu m pgdPa) :=
    ⟨rfl, rfl, rfl, rfl, rfl, rfl, Tlb.coherent_flush _ _⟩
  obtain ⟨m', hrun', hfresh, -⟩ := (fetch_sim code hw).run ⟨hflush, hmaps⟩ hrun
  exact ⟨m', hrun', hfresh⟩

/-- **`mmu_enable` turns the MMU on** and returns through the identity map. -/
lemma run_mmuEnable (R : BootText T) (hw : ℕ → Tlb.Refill)
    (hpc : c.pc = R.mmuEnable - b.physOffset) (hmode : c.cpsr &&& 0x1F#32 = 0x13#32)
    (harm : c.cpsr.getLsbD 5 = false) (hlr : c.lr .svc &&& 3#32 = 0#32) (hoff : m.on = false)
    (hmaps : Maps b BitVec.toNat (enabledMmu m (c.r 0))) :
    ∃ r m', run (mmuBus T.code hw) mmuEnableCode.length ⟨c, m⟩ =
        some ⟨{ c with r := r, pc := c.lr .svc }, m'⟩ ∧
      Fresh m' (enabledMmu m (c.r 0)) ∧ ∀ i : Fin 13, 4 ≤ i.val → r i = c.r i := by
  have hp := privileged_of_and hmode (by decide)
  have hlen : beforeSctlr.length = 20 := rfl
  have hsits := sits_phys R.mmuEnable_placed
  have hsits' := sits_identity R.mmuEnable_placed
  rw [mmuEnableCode, sits_append] at hsits hsits'
  rw [hlen] at hsits hsits'
  -- with the MMU off
  obtain ⟨r, hexec, hr₁, hr⟩ := execAll_beforeSctlr hp harm m T.code
  have hbefore := run_of_sits (s := ⟨c, m⟩) (hpc ▸ hsits.1)
    (by simp [beforeSctlr, Instr.straight]) hexec
  obtain ⟨m₁, hrun₁, rfl, hoff₁⟩ := (phys_sim T.code hw).run ⟨rfl, hoff⟩ hbefore
  -- the write to SCTLR
  have hstep := step_off (c := { c with r := r, pc := c.pc + 80#32 })
    (m := { enabledMmu m (c.r 0) with sctlr := m.sctlr })
    (by simpa [hpc] using hsits.2) hoff₁ hp harm hw
  rw [exec_mcrSctlr hp hr₁] at hstep
  -- with the MMU on
  obtain ⟨m', hrun₃, hfresh⟩ := run_afterSctlr (c := { c with r := r, pc := c.pc + 80#32 + 4#32 })
    T.code hw (by simpa [hpc] using hsits'.2.2) hmode harm hlr hmaps
  refine ⟨r, m', ?_, hfresh, hr⟩
  rw [show mmuEnableCode.length = beforeSctlr.length + (1 + 2) from rfl, run_add, hrun₁,
    Option.bind_some, run_add, run, hstep, Option.bind_eq_bind, Option.bind_some, run,
    Option.bind_some]
  exact hrun₃

/-! ### `_start_va` -/

/-- A mode has been entered and been given its stack. -/
def setStack (c : Core) (mode : Word) (k : Bank) (top : Word) : Core :=
  { c.withSp k top with cpsr := withMode c.cpsr mode, pc := c.pc + 8#32 }

/-- `cps` to a privileged mode and `ldr sp, =top`. -/
lemma execAll_setStack {B : Bus Mmu} {n : Mmu} {mode : Word} {k : Bank} (top : Word)
    (hidle : ∀ m, B.idle m = m) (hp : privileged c.cpsr = true) (harm : c.cpsr.getLsbD 5 = false)
    (hmode : mode &&& 0x1F#32 = mode) (hne : mode ≠ 0x10#32) (hk : bankOf mode = some k)
    (rest : List Instr) :
    execAll B ⟨c, n⟩ (.cps mode :: .ldrLit .sp top :: rest) =
        execAll B ⟨setStack c mode k top, n⟩ rest ∧
      privileged (setStack c mode k top).cpsr = true ∧
      ∀ i, 5 ≤ i → i < 8 → (setStack c mode k top).cpsr.getLsbD i = c.cpsr.getLsbD i := by
  have hbank : bankOf (withMode c.cpsr mode) = some k := by
    rw [bankOf_of_and ((withMode_and _ mode).trans hmode) hmode, hk]
  have hpriv : privileged (withMode c.cpsr mode) = true :=
    privileged_of_and ((withMode_and _ mode).trans hmode) hne
  have hbits : ∀ i, 5 ≤ i → i < 8 →
      (withMode c.cpsr mode).getLsbD i = c.cpsr.getLsbD i := by
    intro i h5 h8
    refine getLsbD_withMode _ h5 (by omega) ?_
    rw [← hmode, BitVec.getLsbD_and]
    interval_cases i <;> simp
  refine ⟨?_, hpriv, hbits⟩
  simp only [execAll, exec, hidle, Core.set, Core.bank, Core.withSp, Core.next, Core.goto, hp, harm,
    hbank, hpriv, (hbits 5 (by omega) (by omega)).trans harm, setStack, Option.map_some,
    Option.bind_eq_bind, Option.bind_some, Option.pure_def, Bool.not_false, Bool.and_self,
    if_true, BitVec.add_assoc, BitVec.reduceAdd]

/-- Some modes, with their banks and the tops of their stacks, one after the other. -/
def setStacks (c : Core) : List (Word × Bank × Word) → Core
  | [] => c
  | (mode, k, top) :: rest => setStacks (setStack c mode k top) rest

lemma execAll_setStacks {B : Bus Mmu} {n : Mmu} (hidle : ∀ m, B.idle m = m)
    (ks : List (Word × Bank × Word)) (hks : ∀ k ∈ ks,
      k.1 &&& 0x1F#32 = k.1 ∧ k.1 ≠ 0x10#32 ∧ bankOf k.1 = some k.2.1)
    (hp : privileged c.cpsr = true) (harm : c.cpsr.getLsbD 5 = false) (rest : List Instr) :
    execAll B ⟨c, n⟩ ((ks.flatMap fun k => [.cps k.1, .ldrLit .sp k.2.2]) ++ rest) =
        execAll B ⟨setStacks c ks, n⟩ rest ∧
      privileged (setStacks c ks).cpsr = true ∧
      ∀ i, 5 ≤ i → i < 8 → (setStacks c ks).cpsr.getLsbD i = c.cpsr.getLsbD i := by
  induction ks generalizing c with
  | nil => exact ⟨rfl, hp, fun _ _ _ => rfl⟩
  | cons k ks ih =>
    obtain ⟨hmode, hne, hk⟩ := hks k List.mem_cons_self
    obtain ⟨hfirst, hp', hbits⟩ := execAll_setStack (n := n) k.2.2 hidle hp harm hmode hne hk
      ((ks.flatMap fun k => [.cps k.1, .ldrLit .sp k.2.2]) ++ rest)
    obtain ⟨hothers, hp'', hbits'⟩ := ih (fun k' hk' => hks k' (List.mem_cons_of_mem k hk')) hp'
      ((hbits 5 (by omega) (by omega)).trans harm)
    exact ⟨hfirst.trans hothers, hp'', fun i h5 h8 => (hbits' i h5 h8).trans (hbits i h5 h8)⟩

/-- The stacks of `_start_va`. -/
def bootStacks (R : BootText T) : List (Word × Bank × Word) :=
  [(0x11#32, .fiq, R.fiqStackTop), (0x12#32, .irq, R.irqStackTop),
    (0x17#32, .abt, L.abtStackTop), (0x1B#32, .und, L.undStackTop), (0x13#32, .svc, R.svcStackTop)]

/-- Every mode gets its stack, and `kmain` is called. -/
lemma execAll_startVa (hc : Masked c.cpsr) (hpc : c.pc = T.start + 76#32)
    (code : ℕ → Option Instr) (tr : Word → ℕ) (n : Mmu) :
    ∃ c', execAll (fetchBus b code tr) ⟨c, n⟩ (startVa R) = some ⟨c', n⟩ ∧
      c'.pc = R.kmain ∧ c'.lr .svc = T.start + 120#32 ∧ Masked c'.cpsr ∧
      c'.sp .fiq = R.fiqStackTop ∧ c'.sp .irq = R.irqStackTop ∧ c'.sp .abt = L.abtStackTop ∧
      c'.sp .und = L.undStackTop ∧ c'.sp .svc = R.svcStackTop := by
  have hidle : ∀ m, (fetchBus b code tr).idle m = m := fun _ => rfl
  have hmodes : ∀ k ∈ bootStacks R,
      k.1 &&& 0x1F#32 = k.1 ∧ k.1 ≠ 0x10#32 ∧ bankOf k.1 = some k.2.1 := by
    simp [bootStacks, bankOf]
  obtain ⟨hexec, hp, hbits⟩ := execAll_setStacks (n := n) hidle (bootStacks R) hmodes hc.privileged
    hc.arm [.bl (R.kmain - (T.start + 116#32))]
  obtain ⟨d, hd⟩ : ∃ d, d = setStacks c (bootStacks R) := ⟨_, rfl⟩
  rw [← hd] at hexec hp hbits
  have harm : d.cpsr.getLsbD 5 = false := (hbits 5 (by omega) (by omega)).trans hc.arm
  have hmode : d.cpsr &&& 0x1F#32 = 0x13#32 := by
    rw [hd]
    exact withMode_and _ _
  have hk : bankOf d.cpsr = some .svc := bankOf_of_and hmode (by decide)
  have hmask : Masked d.cpsr := by
    obtain ⟨-, -, hirq⟩ := (kernelMode_iff _).1 hc.kernel
    refine ⟨(kernelMode_iff _).2 ⟨hmode, harm, ?_⟩, ?_⟩
    · exact (hbits 7 (by omega) (by omega)).trans hirq
    · exact (hbits 6 (by omega) (by omega)).trans hc.fiq
  have hpc' : d.pc = T.start + 116#32 := by
    simp [hd, bootStacks, setStacks, setStack, hpc, BitVec.add_assoc]
  have hcall : execAll (fetchBus b code tr) ⟨d, n⟩ [.bl (R.kmain - (T.start + 116#32))] = some
      ⟨{ d with lr := Function.update d.lr .svc (T.start + 120#32), pc := R.kmain }, n⟩ := by
    have htarget : T.start + 116#32 + (R.kmain - (T.start + 116#32)) = R.kmain := by bv_omega
    simp only [execAll, exec, hidle, Core.set, Core.bank, Core.withLr, Core.goto, hp, harm, hk,
      hpc', htarget, Option.map_some, Option.bind_eq_bind, Option.bind_some, Option.pure_def,
      Bool.not_false, Bool.and_self, if_true, BitVec.add_assoc, BitVec.reduceAdd]
  refine ⟨_, hexec.trans hcall, rfl, by simp, hmask, ?_⟩
  simp [hd, bootStacks, setStacks, setStack, Core.withSp]

/-! ### `mmu_init` -/

variable {cc : InitAbi} {hw : ℕ → Tlb.Refill} {s : St Mmu}

/-- The top of the SVC stack, in physical memory. -/
lemma svcStackTop_ge (R : BootText T) : 8192 ≤ b.pa R.svcStackTop ∧
    b.pa R.svcStackTop ≤ b.ram.base + b.ram.size := by
  have hbase : 8192 < b.ram.base := by cases b <;> decide
  have hin := R.svcStack_in_ram
  simp only [Region.Within] at hin
  omega

/-- `mmu_init` has the stack below the top. -/
lemma InitCalled.toNat_initSp (h : InitCalled R m s) (cc : InitAbi) :
    (initSp cc s).toNat = b.pa R.svcStackTop - cc.depth := by
  have hd := cc.depth_le
  have htop := (svcStackTop_ge R).1
  rw [initSp, h.sp, BitVec.toNat_sub_of_le, toNat_sub_physOffset, BitVec.toNat_ofNat,
    Nat.mod_eq_of_lt (by omega)]
  rw [BitVec.le_def, toNat_sub_physOffset, BitVec.toNat_ofNat, Nat.mod_eq_of_lt (by omega)]
  omega

lemma InitCalled.initStack_within (h : InitCalled R m s) (cc : InitAbi) :
    (initStack cc s).Within R.svcStack := by
  have hd := cc.depth_le
  have htop := (svcStackTop_ge R).1
  have hsp := h.toNat_initSp cc
  constructor
  · show b.pa R.svcStackTop - 8192 ≤ (initSp cc s).toNat
    omega
  · show (initSp cc s).toNat + cc.depth ≤ b.pa R.svcStackTop - 8192 + 8192
    omega

/-- The table that `mmu_init` has built, at the physical address of `boot_pgd`. -/
lemma InitCalled.pgdPa (h : InitCalled R m s) :
    (L.bootPgd - s.core.r 0).toNat = L.bootTable.base := by
  rw [h.r0]
  rfl

/-- Zeroed memory has a zero table. -/
lemma ofMemory_zero {mem : Memory} {x i : ℕ} (hi : i < pgdEntries)
    (h : ∀ a, Region.Mem ⟨x, pgdSize⟩ a → mem a = 0#8) : Table.ofMemory mem x i = 0#32 := by
  have hzero : ∀ k < 4, mem (x + 4 * i + k) = 0#8 := by
    intro k hk
    refine h _ ⟨Nat.le_add_right_of_le (Nat.le_add_right _ _), ?_⟩
    simp only [pgdEntries, pgdSize] at hi ⊢
    omega
  have h0 : mem (x + 4 * i) = 0#8 := hzero 0 (by omega)
  rw [Table.ofMemory, Memory.load32, hzero 3 (by omega), hzero 2 (by omega), hzero 1 (by omega),
    h0]
  rfl

/-- `mmu_enable` is called, with the boot table built. -/
structure EnableCalled (R : BootText T) (cc : InitAbi) (s call : St Mmu) : Prop where
  pc : call.core.pc = R.mmuEnable - b.physOffset
  lr : call.core.lr .svc = R.enabled - b.physOffset
  sp : call.core.sp .svc = initSp cc s
  r0 : call.core.r 0 = L.bootPgd - b.physOffset
  masked : Masked call.core.cpsr
  sctlr : call.sys.sctlr = s.sys.sctlr
  vbar : call.sys.vbar = s.sys.vbar
  table : ∀ i < pgdEntries, Table.ofMemory call.sys.mem L.bootTable.base i = bootTable b i
  mem : ∀ a, ¬ R.svcStack.Mem a → ¬ L.bootTable.Mem a → call.sys.mem a = s.sys.mem a

lemma Masked.withFlags {psr : Word} (h : Masked psr) (flags : Word) :
    Masked (withFlags psr flags) := by
  refine ⟨kernelMode_withFlags h.kernel flags, ?_⟩
  have hmask : flagBits.getLsbD 6 = false := by decide
  rw [Isa.withFlags, BitVec.getLsbD_or, BitVec.getLsbD_and, BitVec.getLsbD_and,
    BitVec.getLsbD_not, hmask, h.fiq]
  rfl

/-- **`mmu_init` calls `mmu_enable` with the boot table.** -/
lemma InitCalled.enableCalled (h : InitCalled R m s) (cc : InitAbi) :
    EnableCalled R cc s (callEnable R cc s) := by
  have hbase : (L.bootPgd - s.core.r 0).toNat = L.bootTable.base := by
    rw [h.r0]
    rfl
  have hwithin := h.initStack_within cc
  have hmem : (callEnable R cc s).sys.mem = (s.sys.mem.overwrite (initStack cc s)
      cc.callStack).storeTable L.bootTable.base (mmuBuildBootPgd b (Table.ofMemory
        (s.sys.mem.overwrite (initStack cc s) cc.callStack) L.bootTable.base)) := by
    simp only [callEnable, hbase]
  refine ⟨?_, ?_, ?_, ?_, h.masked.withFlags cc.callFlags, ?_, ?_, ?_, ?_⟩
  · simp only [callEnable, h.pc]
    bv_omega
  · simp only [callEnable, Function.update_self, h.pc]
    bv_omega
  · simp only [callEnable, Function.update_self]
  · simp only [callEnable, Function.update_self, h.r0]
  · simp only [callEnable]
  · simp only [callEnable]
  · intro i hi
    rw [hmem, ofMemory_storeTable _ _ _ hi, bootTable]
    refine mmuBuildBootPgd_congr b (ofMemory_zero hi fun a ha => ?_)
    have hbss : R.bss.Mem a := R.bootTable_in_bss.mem ha
    have hstack : ¬ (initStack cc s).Mem a := fun hs =>
      R.svcStack_apart.not_mem hbss (hwithin.mem hs)
    rw [Memory.overwrite_within _ _ _ a hstack, h.sys]
    exact Memory.overwrite_of_mem m.mem (fun _ => 0#8) hbss
  · intro a hstack htable
    rw [hmem]
    exact (storeTable_within _ _ _ a htable).trans
      (Memory.overwrite_within _ _ _ a fun hs => hstack (hwithin.mem hs))

/-- RAM is mapped to itself, and to the high alias. -/
lemma maps_of_table {n : Mmu} (hon : n.on = true) (hcr : n.ttbcr = 0#32) (hd : n.dacr = 1#32)
    (ht : ∀ i < pgdEntries, n.table i = bootTable b i) : Maps b BitVec.toNat n ∧ Maps b b.pa n :=
  ⟨⟨hon, hcr, hd, fun _ x ha => walk_identity ht ha x⟩,
    ⟨hon, hcr, hd, fun _ x ha => walk_alias ht ha x⟩⟩

section

variable {call : St Mmu} {mem : Memory}

/-- The memory system after `mmu_enable`, up to its TLB, with this memory. -/
def booted (call : St Mmu) (mem : Memory) : Mmu :=
  { enabledMmu call.sys (call.core.r 0) with mem := mem }

lemma on_booted (call : St Mmu) (mem : Memory) : (booted call mem).on = true := by
  simp [booted, enabledMmu, Mmu.on]

lemma EnableCalled.ttbr0 (h : EnableCalled R cc s call) :
    (booted call mem).ttbr0 = ttbr0For (L.bootPgd - b.physOffset) := by
  simp only [booted, enabledMmu, h.r0, ttbr0For]

/-- Memory that has the boot table. -/
lemma EnableCalled.booted_table (h : EnableCalled R cc s call)
    (hmem : ∀ i < pgdEntries, Table.ofMemory mem L.bootTable.base i = bootTable b i) :
    ∀ i < pgdEntries, (booted call mem).table i = bootTable b i := by
  intro i hi
  have hbase : (L.bootPgd - b.physOffset).toNat = L.bootTable.base := rfl
  rw [Mmu.table, h.ttbr0, ttbr0For_base L.bootTable_aligned, hbase]
  exact hmem i hi

lemma EnableCalled.maps (h : EnableCalled R cc s call)
    (hmem : ∀ i < pgdEntries, Table.ofMemory mem L.bootTable.base i = bootTable b i) :
    Maps b BitVec.toNat (booted call mem) ∧ Maps b b.pa (booted call mem) :=
  maps_of_table (on_booted call mem) rfl rfl (h.booted_table hmem)

/-- What `mmu_init` needs to return. -/
lemma EnableCalled.enabled (h : EnableCalled R cc s call) (hs : InitCalled R m s)
    {r : Fin 13 → Word} {m' : Mmu} (hfresh : Fresh m' (booted call call.sys.mem))
    (hr : ∀ i : Fin 13, 4 ≤ i.val → r i = call.core.r i) :
    Enabled cc s call ⟨{ call.core with r := r, pc := call.core.lr .svc }, m'⟩ := by
  have hmaps := (h.maps h.table).1.fresh hfresh
  have hreach : ∀ a x, b.ram.Mem a.toNat → m'.translate a true x = some a.toNat := fun a x ha =>
    (hmaps.translate_eq hfresh.tlb a true x).trans (hmaps.walk a x ha)
  refine ⟨rfl, ((kernelMode_iff _).1 h.masked.kernel).1, h.sp, fun i h4 _ => hr i h4, ?_, ?_⟩
  · refine hreach _ _ ?_
    rw [h.lr]
    exact R.enabled_placed.2
  · intro i hi
    have hd := cc.depth_le
    have htop := svcStackTop_ge R
    have hlt := Layout.ram_lt b
    have hsp := hs.toNat_initSp cc
    have haddr : (initSp cc s + BitVec.ofNat 32 i).toNat = (initSp cc s).toNat + i := by
      rw [BitVec.toNat_add, BitVec.toNat_ofNat]
      omega
    rw [← haddr]
    refine hreach _ _ ?_
    have hin := R.svcStack_in_ram
    simp only [Region.Within] at hin
    simp only [Region.Mem]
    omega

/-- A memory system whose memory has changed, but not the table. -/
lemma Fresh.withMem {n : Mmu} (h : Fresh m n) {mem' : Memory}
    (ht : ∀ i < pgdEntries, Table.ofMemory mem' (m.ttbr0 &&& 0xFFFFC000#32).toNat i = m.table i) :
    Fresh { m with mem := mem' } { n with mem := mem' } :=
  { h with mem := rfl, tlb := h.tlb.congr ht }

/-- The stack is apart from the boot table. -/
lemma InitCalled.overwrite_table (h : InitCalled R m s) (cc : InitAbi) (mem : Memory) {i : ℕ}
    (hi : i < pgdEntries) :
    Table.ofMemory (mem.overwrite (initStack cc s) cc.stack) L.bootTable.base i =
      Table.ofMemory mem L.bootTable.base i := by
  have hap : Region.Apart L.bootTable (initStack cc s) :=
    R.svcStack_apart.mono R.bootTable_in_bss (h.initStack_within cc)
  refine ((Memory.overwrite_within mem _ _).agree hap).load32 ⟨Nat.le_add_right _ _, ?_⟩
  have hs : L.bootTable.size = 16384 := rfl
  simp only [pgdEntries] at hi
  simp only [hs]
  omega

/-- **`mmu_init` returns**, with the MMU on. -/
lemma EnableCalled.returns (h : EnableCalled R cc s call) (hs : InitCalled R m s)
    (hcall : callEnable R cc s = call) (hoff : m.on = false) (hw : ℕ → Tlb.Refill) :
    ∃ s', mmuInit R cc hw s = some s' ∧ s'.core.pc = s.core.lr .svc ∧ Masked s'.core.cpsr ∧
      Fresh s'.sys (booted call (call.sys.mem.overwrite (initStack cc s) cc.stack)) := by
  have hsvc := ((kernelMode_iff _).1 hs.masked.kernel).1
  have hsctlr : s.sys.sctlr = m.sctlr := by rw [hs.sys]
  have hon : s.sys.on = false := by
    rw [Mmu.on, hsctlr]
    exact hoff
  have hon' : call.sys.on = false := by
    rw [Mmu.on, h.sctlr]
    exact hon
  have hlr : call.core.lr .svc &&& 3#32 = 0#32 := by
    rw [h.lr]
    exact sub_physOffset_aligned R.enabled_placed.1
  obtain ⟨r, m', hrun, hfresh, hr⟩ := run_mmuEnable R hw h.pc
    ((kernelMode_iff _).1 h.masked.kernel).1 h.masked.arm hlr hon' (h.maps h.table).1
  replace hfresh : Fresh m' (booted call call.sys.mem) := hfresh
  have hret := h.enabled hs hfresh hr
  have hinit : mmuInit R cc hw s = some (initReturn cc hw s
      ⟨{ call.core with r := r, pc := call.core.lr .svc }, m'⟩) := by
    rw [mmuInit, if_pos ⟨hs.pc, hsvc, hon⟩, hcall]
    exact Option.bind_eq_some_iff.2 ⟨_, hrun, if_pos hret⟩
  refine ⟨_, hinit, rfl, h.masked.withFlags cc.flags, ?_⟩
  have hfresh' := hfresh.refill hw
  have hsame : m'.mem = call.sys.mem := hfresh.mem
  have hbase : (L.bootPgd - b.physOffset).toNat = L.bootTable.base := rfl
  have htable : ∀ i < pgdEntries, Table.ofMemory (m'.mem.overwrite (initStack cc s) cc.stack)
      ((m'.refill hw).ttbr0 &&& 0xFFFFC000#32).toNat i = (m'.refill hw).table i := by
    intro i hi
    rw [hfresh'.table, h.booted_table h.table i hi, hfresh'.ttbr0, h.ttbr0,
      ttbr0For_base L.bootTable_aligned, hbase, hsame, hs.overwrite_table cc _ hi]
    exact h.table i hi
  rw [← hsame]
  exact hfresh'.withMem htable

end

/-! ### To `kmain` -/

/-- With the MMU on, the boot code gets from `mmu_init` to `kmain`. -/
lemma leads_kmain (R : BootText T) (hw : ℕ → Tlb.Refill) {n : Mmu} (hfresh : Fresh m n)
    (hid : Maps b BitVec.toNat n) (hhigh : Maps b b.pa n)
    (hpc : c.pc = T.start - b.physOffset + 72#32) (hc : Masked c.cpsr) :
    ∃ c' m', Leads (mmuBus T.code hw) ⟨c, m⟩ ⟨c', m'⟩ ∧ Fresh m' n ∧ c'.pc = R.kmain ∧
      c'.lr .svc = T.start + 120#32 ∧ Masked c'.cpsr ∧ c'.sp .fiq = R.fiqStackTop ∧
      c'.sp .irq = R.irqStackTop ∧ c'.sp .abt = L.abtStackTop ∧ c'.sp .und = L.undStackTop ∧
      c'.sp .svc = R.svcStackTop := by
  -- `ldr pc, =_start_va` is fetched through the identity map
  have hjump : Leads (fetchBus b T.code BitVec.toNat) ⟨c, n⟩ ⟨c.goto (T.start + 76#32), n⟩ := by
    refine leads_of_sits (s := ⟨c, n⟩) (hpc ▸ (sitsStart (sits_identity R.start_placed)).jump)
      (by simp) ?_
    rw [execAll_cons (s := ⟨c, n⟩) hc.privileged hc.arm rfl]
    rfl
  obtain ⟨m₁, h₁, hfresh₁, -⟩ := (fetch_sim T.code hw).leads ⟨hfresh, hid⟩ hjump
  -- and the rest through the high alias
  obtain ⟨c', hexec, hspec⟩ := execAll_startVa (R := R) (c := c.goto (T.start + 76#32)) hc rfl
    T.code b.pa n
  have hstacks : Leads (fetchBus b T.code b.pa) ⟨c.goto (T.start + 76#32), n⟩ ⟨c', n⟩ :=
    leads_of_sits (s := ⟨c.goto (T.start + 76#32), n⟩) (sitsStart (sits_alias R.start_placed)).modes
      (by simp [startVa, Instr.straight]) hexec
  obtain ⟨m', h₂, hfresh', -⟩ := (fetch_sim T.code hw).leads ⟨hfresh₁, hhigh⟩ hstacks
  exact ⟨c', m', h₁.trans h₂, hfresh', hspec⟩

/-- **Every machine at reset gets to `kmain`**, whatever the bootloader has left in the
registers, in memory and in the TLB, and whatever the hardware does to the TLB. -/
theorem reset_kmain (R : BootText T) (cc : InitAbi) (hw : ℕ → Tlb.Refill) (hs : AtReset T s) :
    ∃ s', Boots R cc hw s s' ∧ AtKmain R s s' := by
  obtain ⟨s₁, hlead, hcalled⟩ := leads_callInit R hs
  obtain ⟨m₁, hlead₁, hsys, -⟩ := (phys_sim T.code hw).leads ⟨rfl, hs.off⟩ hlead
  obtain ⟨call, hcall⟩ : ∃ call, callEnable R cc s₁ = call := ⟨_, rfl⟩
  have henable : EnableCalled R cc s₁ call := hcall ▸ hcalled.enableCalled cc
  obtain ⟨s₂, hinit, hpc, hmask, hfresh⟩ := henable.returns hcalled hcall hs.off hw
  have htable : ∀ i < pgdEntries, Table.ofMemory (call.sys.mem.overwrite (initStack cc s₁) cc.stack)
      L.bootTable.base i = bootTable b i := fun i hi =>
    (hcalled.overwrite_table cc _ hi).trans (henable.table i hi)
  obtain ⟨hid, hhigh⟩ := henable.maps htable
  obtain ⟨c', m', hlead₂, hfresh', hpc', hlr, hmask', hfiq, hirq, habt, hund, hsvc⟩ :=
    leads_kmain R hw hfresh hid hhigh (hpc.trans hcalled.lr) hmask
  have hbss : ∀ a, R.bss.Mem a → ¬ R.svcStack.Mem a := fun a ha => R.svcStack_apart.not_mem ha
  -- outside of the stack and of the table, memory is as it was when `mmu_init` was called
  have hmem : ∀ a, ¬ R.svcStack.Mem a → ¬ L.bootTable.Mem a →
      m'.mem a = s.sys.mem.overwrite R.bss (fun _ => 0#8) a := by
    intro a hstack htab
    rw [hfresh'.mem]
    refine (Memory.overwrite_within _ _ _ a fun hin =>
      hstack ((hcalled.initStack_within cc).mem hin)).trans ?_
    rw [henable.mem a hstack htab, hcalled.sys]
  have hsctlr : s₁.sys.sctlr = s.sys.sctlr := by rw [hcalled.sys]
  have hvbar : s₁.sys.vbar = s.sys.vbar := by rw [hcalled.sys]
  rw [hsys] at hlead₁
  refine ⟨⟨c', m'⟩, ⟨s₁, s₂, hlead₁, hinit, hlead₂⟩, ?_⟩
  refine ⟨hpc', hlr, hmask'.kernel, hmask'.fiq, ⟨hfiq, hirq, habt, hund, hsvc⟩, ?_,
    hfresh'.ttbr0.trans henable.ttbr0, hfresh'.ttbcr, hfresh'.dacr, ?_, ?_, hfresh'.tlb, ?_, ?_⟩
  · rw [hfresh'.sctlr, ← hsctlr, ← henable.sctlr]
    rfl
  · rw [hfresh'.vbar, ← hvbar, ← henable.vbar]
    rfl
  · intro i hi
    rw [hfresh'.table]
    exact henable.booted_table htable i hi
  · intro a ha htab
    rw [hmem a (hbss a ha) htab]
    exact Memory.overwrite_of_mem s.sys.mem (fun _ => 0#8) ha
  · intro a ha hstack
    rw [hmem a hstack fun htab => ha (R.bootTable_in_bss.mem htab)]
    exact Memory.overwrite_within _ _ _ a ha

end

/-- The QEMU board boots. -/
theorem reset_kmain_qemu :
    ∃ s', Boots qemuBoot .zeroed (fun _ => ⟨fun _ => false, fun _ => false⟩) qemuReset s' ∧
      s'.core.pc = 0xC0100800#32 ∧ s'.sys.sctlr = 0x1805#32 := by
  obtain ⟨s', hboots, hk⟩ := reset_kmain qemuBoot .zeroed
    (fun _ => ⟨fun _ => false, fun _ => false⟩) atReset_qemu
  exact ⟨s', hboots, hk.pc, hk.sctlr⟩

end RingNova.Isa
