/-
# The state at the first user instruction

`process_init_all` prepares every process the same way, in its own slot, page table and
kernel stack, so that preparing one does not disturb another (`prepared_bootMemory`).  The
machine that `process_first_run` then starts represents the process-level machine at boot
(`sysRel_boot`).
-/
import RingNova.Arm.Switch

namespace RingNova

section

variable {b : Board} {L : Layout b} {p q : Pid} {mem mem' : Memory}

/-! ### Page tables in memory -/

lemma storeTable_within (mem : Memory) (base : ℕ) (t : Table) :
    Memory.Within ⟨base, pgdSize⟩ mem (mem.storeTable base t) := by
  have h := Memory.storeWords_within mem base ((List.range pgdEntries).map t)
  rw [List.length_map, List.length_range] at h
  exact h

lemma ofMemory_storeTable (mem : Memory) (base : ℕ) (t : Table) {i : ℕ} (hi : i < pgdEntries) :
    Table.ofMemory (mem.storeTable base t) base i = t i := by
  have hi' : i < ((List.range pgdEntries).map t).length := by
    rw [List.length_map, List.length_range]
    exact hi
  rw [Table.ofMemory, Memory.storeTable, Memory.load32_storeWords _ _ _ hi', List.get_eq_getElem,
    List.getElem_map, List.getElem_range]

lemma UserTable.of_eq {t t' : Table} (h : UserTable b p t) (heq : ∀ i < pgdEntries, t' i = t i) :
    UserTable b p t' := by
  constructor
  · rw [heq _ (by decide)]
    exact h.window
  · intro i hi hne
    rw [heq i hi]
    exact h.others i hi hne

/-- The boot table in memory gives nothing to user code. -/
def BootTable (L : Layout b) (mem : Memory) : Prop :=
  ∀ i, i < pgdEntries → KernelOnly (Table.ofMemory mem L.bootTable.base i)

lemma BootTable.congr (h : BootTable L mem) (hm : Memory.Agree L.bootTable mem mem') :
    BootTable L mem' := by
  intro i hi
  have heq : Table.ofMemory mem' L.bootTable.base i = Table.ofMemory mem L.bootTable.base i := by
    refine hm.load32 ⟨Nat.le_add_right _ _, ?_⟩
    have hs : L.bootTable.size = 16384 := rfl
    simp only [pgdEntries] at hi
    simp only [hs]
    omega
  rw [heq]
  exact h i hi

/-! ### One process -/

/-- What `process_init_all` leaves for a process in memory. -/
structure Prepared (L : Layout b) (p : Pid) (mem : Memory) : Prop where
  table : UserTable b p (Table.ofMemory mem (L.table p).base)
  frame : ∀ i (hi : i < (initialFrame L).length),
    mem.load32 ((L.stack p).base + 8092 + 4 * i) = (initialFrame L).get ⟨i, hi⟩

lemma length_initialFrame (L : Layout b) : (initialFrame L).length = 25 := rfl

lemma Prepared.congr (h : Prepared L p mem) (ht : Memory.Agree (L.table p) mem mem')
    (hs : Memory.Agree (L.stack p) mem mem') : Prepared L p mem' := by
  refine ⟨h.table.congr ht, ?_⟩
  intro i hi
  rw [hs.load32, h.frame i hi]
  rw [length_initialFrame] at hi
  have hsize : (L.stack p).size = 8192 := rfl
  simp only [Region.Within, hsize]
  omega

/-- The high alias of a slot. -/
lemma pa_slotBase (b : Board) (p : Pid) : b.pa (b.slotBase p + b.physOffset) = (b.slot p).base := by
  rw [Board.pa, BitVec.add_sub_cancel]
  rfl

lemma slot_le (b : Board) (p : Pid) : (b.slot p).base + userRegionSize.toNat ≤ 2 ^ 32 := by
  revert p
  cases b <;> decide

/-- An address in the high alias of a slot. -/
lemma pa_slot (b : Board) (p : Pid) {i : ℕ} (hi : i < userRegionSize.toNat) :
    b.pa (b.slotBase p + b.physOffset + BitVec.ofNat 32 i) = (b.slot p).base + i := by
  have hle := slot_le b p
  rw [b.pa_add _ (by rw [pa_slotBase]; omega), pa_slotBase]

/-- The user image stays in its slot. -/
lemma loadImage_within (L : Layout b) (mem : Memory) (p : Pid) :
    Memory.Within (b.slot p) mem (loadImage L mem p) := by
  have haddr : ∀ i < userRegionSize.toNat,
      (b.slot p).Mem (b.pa (b.slotBase p + b.physOffset + BitVec.ofNat 32 i)) := by
    intro i hi
    rw [pa_slot b p hi]
    exact ⟨Nat.le_add_right _ _, Nat.add_lt_add_left hi _⟩
  refine (Memory.foldl_store8_within _ ?_ mem).trans (Memory.foldl_store8_within _ ?_ _)
  · intro i hi
    exact haddr i (List.mem_range.1 hi)
  · intro i hi
    exact haddr i (Nat.lt_of_lt_of_le (List.mem_range.1 hi) (L.images_fit p))

/-- After its image, the table and the first stack frame of a process are written. -/
lemma loadImage_agree (L : Layout b) (mem : Memory) (p : Pid) {R : Region}
    (htable : R.Apart (L.table p)) (hstack : R.Apart (L.stack p)) :
    Memory.Agree R (loadImage L mem p) (initProcess L mem p) := by
  have h := (storeTable_within (loadImage L mem p) (L.table p).base
    (pgtableBuildForProc b (Table.ofMemory (loadImage L mem p) L.bootTable.base)
      (Table.ofMemory (loadImage L mem p) (L.table p).base) (b.slotBase p))).agree htable
  refine h.trans ((Memory.storeWords_within _ _ _).agree (hstack.mono ⟨le_refl _, le_refl _⟩ ?_))
  have haddr : b.pa (L.kstackTop p - 100#32) = (L.stack p).base + 8092 :=
    L.pa_below p (k := 100) (by omega)
  have hsize : (L.stack p).size = 8192 := rfl
  rw [haddr, length_initialFrame]
  simp only [Region.Within, hsize]
  omega

/-- Preparing a process writes to its own slot, table and stack only. -/
lemma initProcess_agree (L : Layout b) (mem : Memory) (p : Pid) {R : Region}
    (hslot : R.Apart (b.slot p)) (htable : R.Apart (L.table p)) (hstack : R.Apart (L.stack p)) :
    Memory.Agree R mem (initProcess L mem p) :=
  ((loadImage_within L mem p).agree hslot).trans (loadImage_agree L mem p htable hstack)

lemma initProcess_bootTable (h : BootTable L mem) (p : Pid) :
    BootTable L (initProcess L mem p) := by
  have hap := L.objectsApart
  have hself : L.bootTable.Within L.bootTable := ⟨le_refl _, le_refl _⟩
  refine h.congr (initProcess_agree L mem p ?_ ?_ ?_)
  · exact (hap.slots_boot.mono (b.slot_within_slots p) hself).symm
  · exact hap.boot_tables.mono hself (L.table_within p)
  · exact hap.boot_stacks.mono hself (L.stack_within p)

lemma Prepared.initProcess (h : Prepared L p mem) (hpq : p ≠ q) :
    Prepared L p (initProcess L mem q) := by
  have hap := L.objectsApart
  refine h.congr (initProcess_agree L mem q ?_ (L.table_apart hpq) ?_)
    (initProcess_agree L mem q ?_ ?_ (L.stack_apart hpq))
  · exact (hap.slots_tables.mono (b.slot_within_slots q) (L.table_within p)).symm
  · exact hap.tables_stacks.mono (L.table_within p) (L.stack_within q)
  · exact (hap.slots_stacks.mono (b.slot_within_slots q) (L.stack_within p)).symm
  · exact (hap.tables_stacks.mono (L.table_within q) (L.stack_within p)).symm

lemma prepared_initProcess (h : BootTable L mem) (p : Pid) :
    Prepared L p (initProcess L mem p) := by
  have hap := L.objectsApart
  have haddr : b.pa (L.kstackTop p - 100#32) = (L.stack p).base + 8092 :=
    L.pa_below p (k := 100) (by omega)
  have hboot : BootTable L (loadImage L mem p) :=
    h.congr ((loadImage_within L mem p).agree
      (hap.slots_boot.mono (b.slot_within_slots p) ⟨le_refl _, le_refl _⟩).symm)
  have htable := userTable_build b p (Table.ofMemory (loadImage L mem p) (L.table p).base) hboot
  constructor
  · refine UserTable.congr (UserTable.of_eq htable fun i hi => ofMemory_storeTable _ _ _ hi)
      ((Memory.storeWords_within _ _ _).agree (hap.tables_stacks.mono (L.table_within p) ?_))
    refine Region.Within.trans ?_ (L.stack_within p)
    have hsize : (L.stack p).size = 8192 := rfl
    rw [haddr, length_initialFrame]
    simp only [Region.Within, hsize]
    omega
  · intro i hi
    rw [initProcess, haddr]
    exact Memory.load32_storeWords _ _ _ hi

/-! ### All processes -/

/-- The loop of `process_init_all`. -/
lemma prepared_foldl (l : List Pid) (h : BootTable L mem)
    (hdone : ∀ p, p ∉ l → Prepared L p mem) (p : Pid) :
    Prepared L p (l.foldl (initProcess L) mem) := by
  induction l generalizing mem with
  | nil => exact hdone p (by simp)
  | cons q l ih =>
    refine ih (initProcess_bootTable h q) ?_
    intro p hp
    by_cases hpq : p = q
    · subst hpq
      exact prepared_initProcess h p
    · exact (hdone p (by simp [hpq, hp])).initProcess hpq

/-- **Every process is prepared when the first one starts.** -/
theorem prepared_bootMemory (L : Layout b) (mem : Memory) (p : Pid) :
    Prepared L p (bootMemory L mem) := by
  have hap := L.objectsApart
  have hself : L.bootTable.Within L.bootTable := ⟨le_refl _, le_refl _⟩
  have hboot : BootTable L (mem.storeTable L.bootTable.base (mmuBuildBootPgd b fun _ => 0#32)) := by
    intro i hi
    rw [ofMemory_storeTable _ _ _ hi]
    exact kernelOnly_mmuBuildBootPgd b i
  have hall := prepared_foldl (List.finRange numProcesses) hboot
    (fun p hp => absurd (List.mem_finRange p) hp) p
  have hw := storeTable_within ((List.finRange numProcesses).foldl (initProcess L)
    (mem.storeTable L.bootTable.base (mmuBuildBootPgd b fun _ => 0#32))) L.bootTable.base
    (mmuDropIdentity b (Table.ofMemory ((List.finRange numProcesses).foldl (initProcess L)
      (mem.storeTable L.bootTable.base (mmuBuildBootPgd b fun _ => 0#32))) L.bootTable.base))
  refine hall.congr (hw.agree ?_) (hw.agree ?_)
  · exact (hap.boot_tables.mono hself (L.table_within p)).symm
  · exact (hap.boot_stacks.mono hself (L.stack_within p)).symm

/-! ### The first process -/

/-- A prepared process is suspended before its first instruction. -/
lemma Prepared.suspended (h : Prepared L p mem) (cpu : Cpu) :
    Suspended L p (bootMachine L mem cpu) initRegs .firstEntry := by
  have hword : ∀ i (hi : i < 25) (x : ℕ), x = 8092 + 4 * i →
      mem.load32 ((L.stack p).base + x) = (initialFrame L).get ⟨i, hi⟩ := by
    intro i hi x hx
    rw [hx, ← Nat.add_assoc]
    exact h.frame i hi
  refine ⟨⟨?_, ?_, ?_⟩, .first rfl ?_, rfl, rfl⟩
  · intro i
    have hi := i.isLt
    have hx : L.frameAddr p .irq + 4 * i = (L.stack p).base + (8128 + 4 * i) := Nat.add_assoc _ _ _
    have hget : ∀ i : Fin 13, (initialFrame L).get ⟨9 + i, by rw [length_initialFrame]; omega⟩ =
        0#32 := by
      intro i
      fin_cases i <;> rfl
    show mem.load32 (L.frameAddr p .irq + 4 * i) = _
    rw [hx]
    exact (hword (9 + i) (by omega) _ (by omega)).trans (hget i)
  · exact hword 23 (by omega) 8184 rfl
  · exact hword 24 (by omega) 8188 rfl
  · exact hword 8 (by omega) 8124 rfl

/-- The memory of a process, as its slot holds it. -/
def userMemory (b : Board) (mem : Memory) (p : Pid) (va : Word) : Byte := mem (slotAddr b p va)

lemma procBoot_mode (umem : Pid → Word → Byte) (p : Pid) :
    ((procBoot umem).regs p).cpsr &&& privBits = 0x10#32 := by
  show initRegs.cpsr &&& privBits = 0x10#32
  decide

/-- `process_first_run` on prepared memory. -/
lemma sysRel_processFirstRun (h : ∀ p, Prepared L p mem) (cc : CompiledC) (cpu : Cpu) :
    SysRel (ArmRel L) (processFirstRun L cc (bootKernel L) (bootMachine L mem cpu) 0)
      (procSys L (userMemory b mem)) := by
  have hsusp := fun p => (h p).suspended cpu
  obtain ⟨cpu', hload, hl⟩ := (hsusp 0).waits.loadNext (bootKernel L)
  have hback : Background L 0 { bootMachine L mem cpu with cpu := cpu' }
      (procBoot (userMemory b mem)) :=
    ⟨fun p => (h p).table, fun _ _ _ => rfl, procBoot_mode _,
      fun p _ _ => (hsusp p).congr (Memory.Agree.refl _ _) rfl rfl⟩
  have hstacks : ModeStacks L ((procBoot (userMemory b mem)).faultsAt .irq) cpu' :=
    ⟨0, 0, hl.spAbt.trans (BitVec.sub_zero _).symm, hl.spUnd.trans (BitVec.sub_zero _).symm,
      Nat.zero_le _⟩
  have hrel : ArmRel L 0 Cont.firstEntry.phase { bootMachine L mem cpu with cpu := cpu' }
      (procBoot (userMemory b mem)) :=
    ⟨hback, hl.ttbr0, hstacks, hl.spSvc, fun hph => absurd hph (Cont.phase_ne_user _),
      fun _ => hl.cpsr, fun _ => ⟨hl.spUsr, hl.lrUsr⟩, (hsusp 0).saved⟩
  rw [processFirstRun, hload]
  exact resume_rel (fun x => ArmRel.leave cc x) rfl hrel

/-- **The machine at the first user instruction.** -/
theorem sysRel_boot (L : Layout b) (cc : CompiledC) (mem : Memory) (cpu : Cpu) :
    SysRel (ArmRel L) (armSys L cc mem cpu) (procSys L (userMemory b (bootMemory L mem))) := by
  rw [armSys]
  exact sysRel_processFirstRun (prepared_bootMemory L mem) cc cpu

end

end RingNova
