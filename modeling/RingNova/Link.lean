/-
# Addresses chosen by the linker

The kernel is linked at the high alias of RAM.  Which addresses its objects get is decided
by the linker scripts and the compiler, so a `Layout` carries them together with what the
scripts guarantee: the page tables are 16 KB aligned, the kernel stacks 8 byte aligned,
every object lies in RAM, and no two of the objects that are written at run time overlap
each other or the user slots.
-/
import RingNova.Lib.Memory
import RingNova.Platform

namespace RingNova

namespace Board

/-- The physical address behind an address of the kernel's high alias. -/
def pa (b : Board) (va : Word) : ℕ := (va - b.physOffset).toNat

/-- RAM. -/
def ram (b : Board) : Region := ⟨b.ramBase.toNat, b.ramSize.toNat⟩

/-- The physical base of a process's slot: `USER_PHYS_BASE + i * USER_PHYS_STRIDE`. -/
def slotBase (b : Board) (p : Pid) : Word :=
  b.userPhysBase + BitVec.ofNat 32 p * userPhysStride

/-- A process's 1 MB slot of physical memory. -/
def slot (b : Board) (p : Pid) : Region := ⟨(b.slotBase p).toNat, userRegionSize.toNat⟩

/-- The three slots together. -/
def slots (b : Board) : Region := ⟨b.userPhysBase.toNat, numProcesses * userRegionSize.toNat⟩

lemma slot_within_slots (b : Board) (p : Pid) : (b.slot p).Within b.slots := by
  revert p
  cases b <;> decide

lemma slot_apart (b : Board) {p q : Pid} (h : p ≠ q) : (b.slot p).Apart (b.slot q) := by
  revert p q
  cases b <;> decide

end Board

/-- `PGD_SIZE`. -/
def pgdSize : ℕ := 16384

/-- The linker region of an exception-mode stack. -/
def modeStackSize : ℕ := 1024

/-- Where the linker has put the kernel's objects. -/
structure Layout (b : Board) where
  /-- `boot_pgd`. -/
  bootPgd : Word
  /-- `proc_pgd`. -/
  procPgd : Word
  /-- `proc_kstack`. -/
  procKstack : Word
  /-- `_abt_stack_top`. -/
  abtStackTop : Word
  /-- `_und_stack_top`. -/
  undStackTop : Word
  /-- `_counter_img_start`, `_runaway_img_start`, `_shell_img_start`. -/
  imgStart : Pid → Word
  /-- The ends of the user images. -/
  imgEnd : Pid → Word
  /-- The address of `ret_from_first_entry`. -/
  retFromFirstEntry : Word
  /-- The return address of the call of `context_switch` in `perform_switch`. -/
  switchReturn : Word
  bootPgd_aligned : bootPgd.toNat % pgdSize = 0
  procPgd_aligned : procPgd.toNat % pgdSize = 0
  procKstack_aligned : procKstack.toNat % 8 = 0
  /-- A user image fits its slot: `user.ld` links it into 1 MB. -/
  images_fit : ∀ p, (imgEnd p - imgStart p).toNat ≤ userRegionSize.toNat
  /-- The objects written at run time, in physical memory, are in RAM... -/
  objects_in_ram : ∀ R ∈ [Region.mk (b.pa bootPgd) pgdSize,
      ⟨b.pa procPgd, numProcesses * pgdSize⟩,
      ⟨b.pa procKstack, numProcesses * kstackSize.toNat⟩,
      ⟨b.pa abtStackTop - modeStackSize, modeStackSize⟩,
      ⟨b.pa undStackTop - modeStackSize, modeStackSize⟩], R.Within b.ram
  /-- ...and do not overlap each other or the user slots. -/
  objects_apart : [b.slots, Region.mk (b.pa bootPgd) pgdSize,
      ⟨b.pa procPgd, numProcesses * pgdSize⟩,
      ⟨b.pa procKstack, numProcesses * kstackSize.toNat⟩,
      ⟨b.pa abtStackTop - modeStackSize, modeStackSize⟩,
      ⟨b.pa undStackTop - modeStackSize, modeStackSize⟩].Pairwise Region.Apart
  switchReturn_ne : switchReturn ≠ retFromFirstEntry

/-- One way to place the objects on the QEMU board. -/
def qemuLayout : Layout .qemu where
  bootPgd := 0xC0140000#32
  procPgd := 0xC0144000#32
  procKstack := 0xC0150000#32
  abtStackTop := 0xC0157000#32
  undStackTop := 0xC0158000#32
  imgStart := fun _ => 0xC0120000#32
  imgEnd := fun _ => 0xC0121000#32
  retFromFirstEntry := 0xC0100100#32
  switchReturn := 0xC0100200#32
  bootPgd_aligned := by decide
  procPgd_aligned := by decide
  procKstack_aligned := by decide
  images_fit := by decide
  objects_in_ram := by decide
  objects_apart := by decide
  switchReturn_ne := by decide

namespace Layout

variable {b : Board} (L : Layout b)

/-- `proc_pgd[p]`. -/
def pgd (p : Pid) : Word := L.procPgd + BitVec.ofNat 32 (p * pgdSize)

/-- `proc_kstack[p]`. -/
def kstack (p : Pid) : Word := L.procKstack + BitVec.ofNat 32 (p * 8192)

/-- The top of a process's kernel stack. -/
def kstackTop (p : Pid) : Word := L.kstack p + kstackSize

/-! ### The objects in physical memory -/

/-- `boot_pgd`. -/
def bootTable : Region := ⟨b.pa L.bootPgd, pgdSize⟩

/-- All of `proc_pgd`. -/
def tables : Region := ⟨b.pa L.procPgd, numProcesses * pgdSize⟩

/-- All of `proc_kstack`. -/
def kstacks : Region := ⟨b.pa L.procKstack, numProcesses * kstackSize.toNat⟩

/-- The abort-mode stack. -/
def abtStack : Region := ⟨b.pa L.abtStackTop - modeStackSize, modeStackSize⟩

/-- The undefined-mode stack. -/
def undStack : Region := ⟨b.pa L.undStackTop - modeStackSize, modeStackSize⟩

/-- One process's L1 table. -/
def table (p : Pid) : Region := ⟨b.pa L.procPgd + p * pgdSize, pgdSize⟩

/-- One process's kernel stack. -/
def stack (p : Pid) : Region := ⟨b.pa L.procKstack + p * 8192, 8192⟩

lemma table_within (p : Pid) : (L.table p).Within L.tables := by
  have := p.isLt
  simp only [Region.Within, table, tables, pgdSize]
  omega

lemma stack_within (p : Pid) : (L.stack p).Within L.kstacks := by
  have := p.isLt
  have hk : kstackSize.toNat = 8192 := rfl
  simp only [Region.Within, stack, kstacks, hk]
  omega

lemma table_apart {p q : Pid} (h : p ≠ q) : (L.table p).Apart (L.table q) := by
  have : (p : ℕ) ≠ q := fun h' => h (Fin.ext h')
  simp only [Region.Apart, table, pgdSize]
  omega

lemma stack_apart {p q : Pid} (h : p ≠ q) : (L.stack p).Apart (L.stack q) := by
  have : (p : ℕ) ≠ q := fun h' => h (Fin.ext h')
  simp only [Region.Apart, stack]
  omega

/-- The kernel's objects are pairwise apart, and apart from the slots. -/
structure ObjectsApart : Prop where
  slots_boot : b.slots.Apart L.bootTable
  slots_tables : b.slots.Apart L.tables
  slots_stacks : b.slots.Apart L.kstacks
  slots_abt : b.slots.Apart L.abtStack
  slots_und : b.slots.Apart L.undStack
  boot_tables : L.bootTable.Apart L.tables
  boot_stacks : L.bootTable.Apart L.kstacks
  tables_stacks : L.tables.Apart L.kstacks
  tables_abt : L.tables.Apart L.abtStack
  tables_und : L.tables.Apart L.undStack
  stacks_abt : L.kstacks.Apart L.abtStack
  stacks_und : L.kstacks.Apart L.undStack
  abt_und : L.abtStack.Apart L.undStack

lemma objectsApart : L.ObjectsApart := by
  have h := L.objects_apart
  simp only [List.pairwise_cons, List.mem_cons, List.not_mem_nil, or_false, forall_eq_or_imp,
    forall_eq, List.Pairwise.nil] at h
  obtain ⟨⟨h1, h2, h3, h4, h5⟩, ⟨h6, h7, -, -⟩, ⟨h8, h9, h10⟩, ⟨h11, h12⟩, h13, -⟩ := h
  exact ⟨h1, h2, h3, h4, h5, h6, h7, h8, h9, h10, h11, h12, h13⟩

/-! ### Physical addresses -/

lemma ram_lt (b : Board) : b.ram.base + b.ram.size < 2 ^ 32 := by
  cases b <;> decide

end Layout

/-- No wrap-around inside the physical address space. -/
lemma Board.pa_add (b : Board) (va : Word) {i : ℕ} (h : b.pa va + i < 2 ^ 32) :
    b.pa (va + BitVec.ofNat 32 i) = b.pa va + i := by
  have hadd : va + BitVec.ofNat 32 i - b.physOffset = (va - b.physOffset) + BitVec.ofNat 32 i := by
    rw [BitVec.sub_eq_add_neg, BitVec.sub_eq_add_neg, BitVec.add_assoc, BitVec.add_assoc,
      BitVec.add_comm (BitVec.ofNat 32 i)]
  have hi : i % 2 ^ 32 = i := Nat.mod_eq_of_lt (by omega)
  rw [Board.pa, hadd, BitVec.toNat_add, BitVec.toNat_ofNat, hi]
  exact Nat.mod_eq_of_lt h

namespace Layout

variable {b : Board} (L : Layout b)

lemma tables_within_ram : L.tables.Within b.ram :=
  L.objects_in_ram _ (by simp [tables])

lemma stacks_within_ram : L.kstacks.Within b.ram :=
  L.objects_in_ram _ (by simp [kstacks])

lemma pa_pgd (p : Pid) : b.pa (L.pgd p) = (L.table p).base := by
  have hp := p.isLt
  have hram := L.tables_within_ram
  have hlt := ram_lt b
  simp only [Region.Within, tables] at hram
  refine b.pa_add _ ?_
  simp only [pgdSize] at hram ⊢
  omega

/-- The high alias keeps the alignment of tables. -/
lemma pa_aligned {va : Word} (h : va.toNat % pgdSize = 0) : b.pa va % pgdSize = 0 := by
  have ho : b.physOffset.toNat % 16384 = 0 ∧ b.physOffset.toNat ≤ 2 ^ 32 := by
    cases b <;> decide
  rw [Board.pa, BitVec.toNat_sub]
  simp only [pgdSize] at h ⊢
  omega

lemma bootTable_aligned : (L.bootPgd - b.physOffset).toNat % pgdSize = 0 :=
  pa_aligned L.bootPgd_aligned

lemma table_aligned (p : Pid) : (L.table p).base % pgdSize = 0 := by
  have hpa := pa_aligned (b := b) L.procPgd_aligned
  simp only [table, pgdSize] at hpa ⊢
  omega

/-- The address `k` bytes below the top of a kernel stack. -/
lemma pa_below (p : Pid) {k : ℕ} (hk : k ≤ 8192) :
    b.pa (L.kstackTop p - BitVec.ofNat 32 k) = (L.stack p).base + (8192 - k) := by
  have hp := p.isLt
  have hram := L.stacks_within_ram
  have hlt := ram_lt b
  have hks : kstackSize.toNat = 8192 := rfl
  simp only [Region.Within, kstacks, hks] at hram
  have heq : L.kstackTop p - BitVec.ofNat 32 k =
      L.procKstack + BitVec.ofNat 32 (p * 8192 + (8192 - k)) := by
    apply BitVec.eq_of_toNat_eq
    simp only [kstackTop, kstack, BitVec.toNat_sub, BitVec.toNat_add, BitVec.toNat_ofNat, hks]
    have := L.procKstack.isLt
    omega
  rw [heq, b.pa_add _ (by omega)]
  simp only [stack]
  omega

end Layout

end RingNova
