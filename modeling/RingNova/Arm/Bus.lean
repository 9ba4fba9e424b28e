/-
# The memory system, and what kernel code sees of it

The memory system of the CPU is physical memory behind the MMU.  A translation uses an entry of
the TLB if there is one, and otherwise walks the table that TTBR0 points to; what is cached, and
when, is up to the hardware.  Code of the kernel sees none of this: at every address of its
alias of RAM it finds the byte of physical memory a fixed distance below, under every page table
and with every TLB (`view_sim`).

This rests on two facts.  The tables of all processes and the boot table agree on the kernel's
alias, so neither a switch of TTBR0 nor a TLB entry of the previous table makes a difference
there; and the assembly writes to stacks and PCBs only, which are apart from the tables.  The
other entries of the TLB may be out of date between the write to TTBR0 and the invalidation of
the TLB in `context_switch`, which is what `stale` records.
-/
import RingNova.Arm.Text
import RingNova.Lib.Tlb

namespace RingNova.Isa

/-! ### The MMU -/

/-- Physical memory, the TLB and the registers of the MMU. -/
structure Mmu where
  mem : Memory
  tlb : Tlb Word
  sctlr : Word
  ttbr0 : Word
  ttbcr : Word
  dacr : Word
  vbar : Word
  /-- How often the hardware has changed the TLB. -/
  clock : ℕ

namespace Mmu

variable (m : Mmu)

/-- `SCTLR.M`. -/
def on : Bool := m.sctlr.getLsbD 0

/-- The table that TTBR0 points to. -/
def table : Table := Table.ofMemory m.mem (m.ttbr0 &&& 0xFFFFC000#32).toNat

/-- The translation of an address; `none` is an abort.  Other settings of TTBCR and DACR than
those of `mmu_enable` are not modelled. -/
def translate (va : Word) (priv : Bool) (x : Access) : Option ℕ :=
  if m.on then
    if m.ttbcr = 0#32 ∧ m.dacr = 1#32 then Table.walk (m.tlb.lookup m.table) va priv x else none
  else some va.toNat

/-- The hardware changes the TLB. -/
def refill (hw : ℕ → Tlb.Refill) : Mmu :=
  if m.on then { m with tlb := m.tlb.refill m.table (hw m.clock), clock := m.clock + 1 } else m

/-- A write to coprocessor 15. -/
def write (x : Word) : Cp15 → Mmu
  | .sctlr => { m with sctlr := x }
  | .ttbr0 => { m with ttbr0 := x }
  | .ttbcr => { m with ttbcr := x }
  | .dacr => { m with dacr := x }
  | .vbar => { m with vbar := x }
  | .tlbiall => { m with tlb := Tlb.flush }
  | .iciallu => m

/-- A read from coprocessor 15. -/
def read : Cp15 → Option Word
  | .sctlr => some m.sctlr
  | .ttbr0 => some m.ttbr0
  | .ttbcr => some m.ttbcr
  | .dacr => some m.dacr
  | .vbar => some m.vbar
  | .tlbiall | .iciallu => none

end Mmu

/-- The memory system of the CPU.  A word that is not aligned faults. -/
def mmuBus (code : ℕ → Option Instr) (hw : ℕ → Tlb.Refill) : Bus Mmu where
  idle m := m.refill hw
  fetch m priv a := if a &&& 3#32 = 0#32 then (m.translate a priv .fetch).bind code else none
  load m priv a :=
    if a &&& 3#32 = 0#32 then (m.translate a priv .read).map fun pa => (m.mem.load32 pa, m)
    else none
  store m priv a w :=
    if a &&& 3#32 = 0#32 then
      (m.translate a priv .write).map fun pa => { m with mem := m.mem.store32 pa w }
    else none
  mcr m reg x := some (m.write x reg)
  mrc m reg := m.read reg

/-! ### The kernel's view -/

/-- What kernel code sees of the memory system. -/
structure KernelMem where
  mem : Memory
  ttbr0 : Word
  /-- TTBR0 has been written, and the TLB not invalidated since. -/
  stale : Bool

section

variable {b : Board} {L : Layout b}

/-- A word that the kernel reaches. -/
def Reaches (b : Board) (priv : Bool) (a : Word) : Prop :=
  priv = true ∧ a &&& 3#32 = 0#32 ∧ b.ram.Mem (b.pa a)

instance (b : Board) (priv : Bool) (a : Word) : Decidable (Reaches b priv a) :=
  inferInstanceAs (Decidable (_ ∧ _))

/-- The memory system in the eyes of the kernel's assembly. -/
def kernelBus (T : Text L) : Bus KernelMem where
  idle m := m
  fetch _ priv a := if Reaches b priv a then T.code (b.pa a) else none
  load m priv a := if Reaches b priv a then some (m.mem.load32 (b.pa a), m) else none
  store m priv a w :=
    if Reaches b priv a ∧ T.Writable (b.pa a) then
      some { m with mem := m.mem.store32 (b.pa a) w }
    else none
  mcr m reg x :=
    match reg with
    | .ttbr0 =>
      if (x &&& 0xFFFFC000#32).toNat ∈ L.tableBases then
        some { m with ttbr0 := x, stale := true }
      else none
    | .tlbiall => some { m with stale := false }
    | .iciallu => some m
    | _ => none
  mrc _ _ := none

/-- The descriptor of the kernel's alias in an entry. -/
def kernelDesc (b : Board) (i : ℕ) : Word := sectionDesc ((kernelCall b).frame i) pdeKernelMem

/-- An address of the kernel's alias is behind the entries that `mmu_build_boot_pgd` has made for
it. -/
lemma covers_of_ram {va : Word} (h : b.ram.Mem (b.pa va)) :
    (kernelCall b).va.toNat ≤ va.toNat ∧
      va.toNat < (kernelCall b).va.toNat + (kernelCall b).size.toNat := by
  have hlt := va.isLt
  obtain ⟨h1, h2⟩ := h
  have hpa : b.pa va = (2 ^ 32 - b.physOffset.toNat + va.toNat) % 2 ^ 32 := BitVec.toNat_sub _ _
  rw [hpa] at h1 h2
  cases b
  · have ho : Board.physOffset .qemu = 0x50000000#32 := rfl
    simp only [ho, Board.ram, Board.ramBase, Board.ramSize, kernelCall, vaKernelBase,
      BitVec.toNat_ofNat] at h1 h2 ⊢
    omega
  · have ho : Board.physOffset .bbb = 0x40000000#32 := rfl
    simp only [ho, Board.ram, Board.ramBase, Board.ramSize, kernelCall, vaKernelBase,
      BitVec.toNat_ofNat] at h1 h2 ⊢
    omega

/-- The walk of a table that has the kernel's alias. -/
lemma walk_ram {t : Table} {va : Word} (ht : t (va >>> 20).toNat = kernelDesc b (va >>> 20).toNat)
    (h : b.ram.Mem (b.pa va)) (x : Access) : t.walk va true x = some (b.pa va) := by
  have hva := covers_of_ram h
  have hok := bootCalls_ok b (kernelCall b) (by simp [bootCalls])
  have hattrs : (kernelCall b).attrs = pdeKernelMem := rfl
  have hperm : (isSection pdeKernelMem && allows pdeKernelMem true x) = true := by
    cases x <;> decide
  have hpa : (kernelCall b).pa.toNat + (va.toNat - (kernelCall b).va.toNat) = b.pa va := by
    have hlt := va.isLt
    have hram : (kernelCall b).pa = b.ramBase := rfl
    have ho : b.physOffset.toNat + b.ramBase.toNat = 0xC0000000 := by cases b <;> decide
    rw [va_kernelCall] at hva ⊢
    rw [Board.pa, BitVec.toNat_sub, hram]
    omega
  rw [walk_of_call hok (by rw [hattrs]; decide) hva ht true x, hattrs, hperm, hpa, if_pos rfl]

/-- The memory system agrees with what the kernel sees of it. -/
structure View (T : Text L) (m : Mmu) (n : KernelMem) : Prop where
  mem : m.mem = n.mem
  ttbr0 : m.ttbr0 = n.ttbr0
  base : (n.ttbr0 &&& 0xFFFFC000#32).toNat ∈ L.tableBases
  on : m.on = true
  ttbcr : m.ttbcr = 0#32
  dacr : m.dacr = 1#32
  vbar : m.vbar = T.vectors
  /-- All tables have the kernel's alias. -/
  tables : ∀ x ∈ L.tableBases, ∀ i, (kernelCall b).Covers i →
    Table.ofMemory n.mem x i = kernelDesc b i
  /-- The TLB is up to date for the kernel's alias... -/
  kernel : Tlb.Coherent (kernelCall b).Covers m.tlb m.table
  /-- ...and altogether, unless TTBR0 has just been written. -/
  all : n.stale = false → Tlb.Coherent (· < pgdEntries) m.tlb m.table

variable {T : Text L} {m : Mmu} {n : KernelMem}

lemma View.table_eq (h : View T m n) :
    m.table = Table.ofMemory n.mem (n.ttbr0 &&& 0xFFFFC000#32).toNat := by
  rw [Mmu.table, h.mem, h.ttbr0]

/-- **Kernel code reaches RAM at a fixed distance.** -/
lemma View.translate (h : View T m n) {va : Word} (hva : b.ram.Mem (b.pa va)) (x : Access) :
    m.translate va true x = some (b.pa va) := by
  have hcov : (kernelCall b).Covers (va >>> 20).toNat :=
    ((bootCalls_ok b (kernelCall b) (by simp [bootCalls])).covers_iff va).2 (covers_of_ram hva)
  rw [Mmu.translate, if_pos h.on, if_pos ⟨h.ttbcr, h.dacr⟩]
  refine walk_ram ?_ hva x
  rw [h.kernel.lookup hcov, h.table_eq]
  exact h.tables _ h.base _ hcov

/-- When the TLB is up to date, every translation is the walk of the current table. -/
lemma View.translate_eq (h : View T m n) (hs : n.stale = false) (va : Word) (priv : Bool)
    (x : Access) : m.translate va priv x =
      (Table.ofMemory n.mem (n.ttbr0 &&& 0xFFFFC000#32).toNat).walk va priv x := by
  have hentry : m.tlb.lookup m.table (va >>> 20).toNat = m.table (va >>> 20).toNat :=
    (h.all hs).lookup (entry_lt va)
  rw [Mmu.translate, if_pos h.on, if_pos ⟨h.ttbcr, h.dacr⟩, ← h.table_eq]
  simp only [Table.walk, hentry]

lemma Text.data_in_ram (T : Text L) : ∀ R ∈ T.data, R.Within b.ram := by
  intro R hR
  simp only [Text.data, List.mem_cons, List.not_mem_nil, or_false] at hR
  rcases hR with rfl | rfl | rfl | rfl
  · exact L.stacks_within_ram
  · exact L.objects_in_ram _ (by simp [Layout.abtStack])
  · exact L.objects_in_ram _ (by simp [Layout.undStack])
  · exact T.pcbs_in_ram

/-- Apart from all tables. -/
def OffTables (L : Layout b) (R : Region) : Prop := L.bootTable.Apart R ∧ L.tables.Apart R

/-- The tables are apart from what the assembly writes to. -/
lemma Text.data_offTables (T : Text L) : ∀ R ∈ T.data, OffTables L R := by
  have hap := L.objectsApart
  have hpw := L.objects_apart
  simp only [List.pairwise_cons, List.mem_cons, List.not_mem_nil, or_false, forall_eq_or_imp,
    forall_eq] at hpw
  intro R hR
  simp only [Text.data, List.mem_cons, List.not_mem_nil, or_false] at hR
  rcases hR with rfl | rfl | rfl | rfl
  · exact ⟨hap.boot_stacks, hap.tables_stacks⟩
  · exact ⟨hpw.2.1.2.2.1, hap.tables_abt⟩
  · exact ⟨hpw.2.1.2.2.2, hap.tables_und⟩
  · exact ⟨(T.pcbs_apart _ (by simp)).symm, (T.pcbs_apart _ (by simp)).symm⟩

/-- No table is changed by a write elsewhere. -/
lemma OffTables.ofMemory {R : Region} (hR : OffTables L R) {mem mem' : Memory}
    (hw : Memory.Within R mem mem') {x : ℕ} (hx : x ∈ L.tableBases) {i : ℕ} (hi : i < pgdEntries) :
    Table.ofMemory mem' x i = Table.ofMemory mem x i := by
  have hap : Region.Apart ⟨x, pgdSize⟩ R := by
    simp only [Layout.tableBases, List.mem_cons, List.mem_map, List.mem_finRange, true_and] at hx
    rcases hx with rfl | ⟨p, rfl⟩
    · exact hR.1
    · exact hR.2.mono (L.table_within p) ⟨le_refl _, le_refl _⟩
  refine (hw.agree hap).load32 ⟨Nat.le_add_right _ _, ?_⟩
  simp only [pgdEntries, pgdSize] at hi ⊢
  omega

lemma covers_lt {i : ℕ} (h : (kernelCall b).Covers i) : i < pgdEntries :=
  (bootCalls_ok b (kernelCall b) (by simp [bootCalls])).covers_lt h

/-- A write that leaves the tables alone keeps the view. -/
lemma View.write (h : View T m n) {R : Region} (hR : OffTables L R) {mem' : Memory}
    (hw : Memory.Within R n.mem mem') :
    View T { m with mem := mem' } { n with mem := mem' } := by
  have htable : ∀ i < pgdEntries, Table.ofMemory mem' (m.ttbr0 &&& 0xFFFFC000#32).toNat i =
      m.table i := by
    intro i hi
    rw [h.table_eq, h.ttbr0]
    exact hR.ofMemory hw h.base hi
  exact
    { h with
      mem := rfl
      tables := fun x hx i hi => (hR.ofMemory hw hx (covers_lt hi)).trans (h.tables x hx i hi)
      kernel := h.kernel.congr fun i hi => htable i (covers_lt hi)
      all := fun hs => (h.all hs).congr htable }

/-- The hardware keeps the view. -/
lemma View.refill (h : View T m n) (hw : ℕ → Tlb.Refill) : View T (m.refill hw) n := by
  rw [Mmu.refill, if_pos h.on]
  exact { h with kernel := h.kernel.refill _, all := fun hs => (h.all hs).refill _ }

/-- **The kernel's view is right.**  Everything that the kernel's assembly does on the memory it
sees, it does on the real one, whatever the hardware does to the TLB. -/
theorem view_sim (T : Text L) (hw : ℕ → Tlb.Refill) :
    Bus.Sim (mmuBus T.code hw) (kernelBus T) (View T) where
  idle h := h.refill hw
  fetch := by
    intro m n priv a i h hf
    simp only [kernelBus, Option.ite_none_right_eq_some] at hf
    obtain ⟨⟨rfl, hal, hram⟩, hf⟩ := hf
    rw [mmuBus]
    simp only [hal, if_true, h.translate hram, Option.bind_some, hf]
  load := by
    intro m n priv a w n' h hf
    simp only [kernelBus, Option.ite_none_right_eq_some, Option.some.injEq, Prod.mk.injEq] at hf
    obtain ⟨⟨rfl, hal, hram⟩, rfl, rfl⟩ := hf
    refine ⟨m, ?_, h⟩
    rw [mmuBus]
    simp only [hal, if_true, h.translate hram, Option.map_some, h.mem]
  store := by
    intro m n priv a w n' h hf
    simp only [kernelBus, Option.ite_none_right_eq_some, Option.some.injEq] at hf
    obtain ⟨⟨⟨rfl, hal, hram⟩, R, hR, hin⟩, rfl⟩ := hf
    refine ⟨{ m with mem := n.mem.store32 (b.pa a) w }, ?_, ?_⟩
    · rw [mmuBus]
      simp only [hal, if_true, h.translate hram, Option.map_some, h.mem]
    · exact h.write (T.data_offTables R hR) ((Memory.store32_within _ _ _).mono hin)
  mcr := by
    intro m n reg x n' h hf
    refine ⟨m.write x reg, rfl, ?_⟩
    cases reg with
    | ttbr0 =>
      simp only [kernelBus, Option.ite_none_right_eq_some, Option.some.injEq] at hf
      obtain ⟨hx, rfl⟩ := hf
      refine
        { h with
          ttbr0 := rfl
          base := hx
          kernel := h.kernel.congr fun i hi => ?_
          all := fun hs => absurd hs (by simp) }
      -- both tables have the kernel's alias
      rw [h.table_eq, h.tables _ h.base i hi]
      show Table.ofMemory m.mem _ i = _
      rw [h.mem]
      exact h.tables _ hx i hi
    | tlbiall =>
      obtain rfl := Option.some.inj hf
      exact { h with kernel := Tlb.coherent_flush _ _, all := fun _ => Tlb.coherent_flush _ _ }
    | iciallu =>
      obtain rfl := Option.some.inj hf
      exact h
    | sctlr | ttbcr | dacr | vbar => exact absurd hf (by simp [kernelBus])
  mrc := by
    intro m n reg x _ hf
    exact absurd hf (by simp [kernelBus])

end

end RingNova.Isa
