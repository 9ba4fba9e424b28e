/-
# Page tables and address translation

The builders of `kernel/arch/arm/mm/pgtable.c` and `platform/<board>/periph_map.c`, and the
hardware side: the walk of an L1 table of section descriptors with the access permissions
enforced, as `mmu_enable` sets it up (`DACR` makes domain 0 a client domain and gives no
access to the others).

A table is a function from entry numbers to descriptors.  The result about the builders is
`userTable_build`: in the table of a process the only descriptor that user code can use is
the one of the 1 MB window, and it points to the process's slot.
-/
import RingNova.Kernel.Window
import RingNova.Link

namespace RingNova

/-! ### `mmu.h` -/

def pdeTypeSection : Word := 0x2#32
def pdeB : Word := 1#32 <<< 2
def pdeC : Word := 1#32 <<< 3
def pdeXN : Word := 1#32 <<< 4
def pdeAp0 : Word := 1#32 <<< 10
def pdeAp1 : Word := 1#32 <<< 11

/-- `PDE_DOMAIN(n)`. -/
def pdeDomain (n : Word) : Word := n <<< 5

def pdeApKernRw : Word := pdeAp0
def pdeApKernUserRw : Word := pdeAp0 ||| pdeAp1

/-- `PDE_KERNEL_MEM`. -/
def pdeKernelMem : Word := pdeTypeSection ||| pdeC ||| pdeB ||| pdeApKernRw ||| pdeDomain 0#32

/-- `PDE_DEVICE`. -/
def pdeDevice : Word := pdeTypeSection ||| pdeApKernRw ||| pdeDomain 0#32 ||| pdeXN

/-- `PDE_USER_TEXT`. -/
def pdeUserText : Word := pdeTypeSection ||| pdeC ||| pdeB ||| pdeApKernUserRw ||| pdeDomain 0#32

/-- `PGD_ENTRIES`. -/
def pgdEntries : ℕ := 4096

/-! ### `pgtable.c` -/

/-- An L1 table. -/
abbrev Table := ℕ → Word

/-- The descriptor that `map_section` writes. -/
def sectionDesc (pa attrs : Word) : Word := (pa &&& 0xFFF00000#32) ||| attrs

/-- `map_section`. -/
def mapSection (pgd : Table) (va pa attrs : Word) : Table :=
  Function.update pgd (va >>> 20).toNat (sectionDesc pa attrs)

/-- `pgtable_map_range`. -/
def pgtableMapRange (pgd : Table) (va pa sizeBytes attrs : Word) : Table :=
  (List.range (sizeBytes >>> 20).toNat).foldl (fun pgd i =>
    mapSection pgd (va + BitVec.ofNat 32 i <<< 20) (pa + BitVec.ofNat 32 i <<< 20) attrs) pgd

/-- `platform_map_peripherals`. -/
def platformMapPeripherals (b : Board) (pgd : Table) : Table :=
  match b with
  | .qemu =>
    pgtableMapRange
      (pgtableMapRange pgd 0x10000000#32 0x10000000#32 (2#32 <<< 20) pdeDevice)
      0x1E000000#32 0x1E000000#32 (1#32 <<< 20) pdeDevice
  | .bbb =>
    pgtableMapRange
      (pgtableMapRange pgd 0x44E00000#32 0x44E00000#32 (1#32 <<< 20) pdeDevice)
      0x48000000#32 0x48000000#32 (16#32 <<< 20) pdeDevice

/-- `mmu_build_boot_pgd`. -/
def mmuBuildBootPgd (b : Board) (pgd : Table) : Table :=
  let pgd := pgtableMapRange pgd b.ramBase b.ramBase b.ramSize pdeKernelMem
  let pgd := pgtableMapRange pgd vaKernelBase b.ramBase b.ramSize pdeKernelMem
  platformMapPeripherals b pgd

/-- `pgtable_build_for_proc`, with `boot_pgd` as an argument. -/
def pgtableBuildForProc (b : Board) (bootPgd pgd : Table) (userPa : Word) : Table :=
  let identLo := (b.ramBase >>> 20).toNat
  let identHi := ((b.ramBase + b.ramSize) >>> 20).toNat
  let pgd := (List.range pgdEntries).foldl (fun pgd i => Function.update pgd i 0#32) pgd
  let pgd := (List.range pgdEntries).foldl (fun pgd i =>
    if bootPgd i = 0#32 then pgd
    else if i ≥ identLo ∧ i < identHi then pgd
    else Function.update pgd i (bootPgd i)) pgd
  Function.update pgd (userVirtBase >>> 20).toNat (sectionDesc userPa pdeUserText)

/-- The loop of `mmu_drop_identity`, from `start_idx` up to `end_idx`. -/
def mmuDropIdentity (b : Board) (bootPgd : Table) : Table :=
  let startIdx := (b.ramBase >>> 20).toNat
  let endIdx := ((b.ramBase + b.ramSize) >>> 20).toNat
  (List.range' startIdx (endIdx - startIdx)).foldl (fun pgd i => Function.update pgd i 0#32) bootPgd

/-- The entry numbers of the identity map of RAM. -/
def Board.identity (b : Board) (i : ℕ) : Bool :=
  (b.ramBase >>> 20).toNat ≤ i ∧ i < ((b.ramBase + b.ramSize) >>> 20).toNat

/-! ### The walk -/

/-- The access permissions of a section descriptor under a client domain. -/
def permits (desc : Word) (privileged write : Bool) : Bool :=
  let ap := desc &&& 0x8C00#32
  if ap = 0x0400#32 then privileged
  else if ap = 0x0800#32 then privileged || !write
  else if ap = 0x0C00#32 then true
  else if ap = 0x8400#32 then privileged && !write
  else if ap = 0x8800#32 ∨ ap = 0x8C00#32 then !write
  else false

/-- A section of domain 0, and not a supersection. -/
def isSection (desc : Word) : Bool := desc &&& 0x401E3#32 = 0x2#32

/-- The translation of a virtual address through the table in physical memory that `ttbr0`
points to; `none` is an abort. -/
def translate (m : Memory) (ttbr0 va : Word) (privileged write : Bool) : Option ℕ :=
  let desc := m.load32 ((ttbr0 &&& 0xFFFFC000#32).toNat + 4 * (va >>> 20).toNat)
  if isSection desc && permits desc privileged write then
    some ((desc &&& 0xFFF00000#32) ||| (va &&& 0x000FFFFF#32)).toNat
  else none

/-! ### Loops that fill a table -/

/-- A loop over the first entries that writes those that meet a condition. -/
lemma foldl_range_update (p : ℕ → Bool) (v : ℕ → Word) (n : ℕ) (t : Table) (i : ℕ) :
    (List.range n).foldl (fun t j => if p j then Function.update t j (v j) else t) t i =
      if i < n ∧ p i then v i else t i := by
  induction n with
  | zero => simp
  | succ n ih =>
    rw [List.range_succ, List.foldl_append, List.foldl_cons, List.foldl_nil]
    by_cases hin : i = n
    · subst hin
      by_cases hp : p i = true
      · simp [hp]
      · rw [if_neg hp, ih]
        simp [hp]
    · have hlt : i < n + 1 ↔ i < n := by omega
      by_cases hp : p n = true
      · rw [if_pos hp, Function.update_of_ne hin, ih]
        simp only [hlt]
      · rw [if_neg hp, ih]
        simp only [hlt]

/-- The entries of a process's table. -/
lemma pgtableBuildForProc_apply (b : Board) (bootPgd pgd : Table) (userPa : Word) {i : ℕ}
    (hi : i < pgdEntries) :
    pgtableBuildForProc b bootPgd pgd userPa i =
      if i = 0x400 then sectionDesc userPa pdeUserText
      else if b.identity i then 0#32 else bootPgd i := by
  have hidx : (userVirtBase >>> 20).toNat = 0x400 := by decide
  have hzero : ∀ t : Table, (List.range pgdEntries).foldl
      (fun pgd i => Function.update pgd i 0#32) t i = 0#32 := by
    intro t
    have := foldl_range_update (fun _ => true) (fun _ => 0#32) pgdEntries t i
    simpa [hi] using this
  have hident : ∀ j, (j ≥ (b.ramBase >>> 20).toNat ∧ j < ((b.ramBase + b.ramSize) >>> 20).toNat) =
      (b.identity j = true) := by
    intro j
    simp only [Board.identity, decide_eq_true_eq, ge_iff_le]
  have hcopy : ∀ t : Table, (List.range pgdEntries).foldl (fun pgd i =>
      if bootPgd i = 0#32 then pgd
      else if b.identity i then pgd
      else Function.update pgd i (bootPgd i)) t i =
      if bootPgd i = 0#32 ∨ b.identity i then t i else bootPgd i := by
    intro t
    have hfun : (fun (pgd : Table) i => if bootPgd i = 0#32 then pgd
        else if b.identity i then pgd else Function.update pgd i (bootPgd i)) =
        fun pgd i => if !(decide (bootPgd i = 0#32) || b.identity i)
          then Function.update pgd i (bootPgd i) else pgd := by
      funext pgd j
      by_cases h1 : bootPgd j = 0#32 <;> by_cases h2 : b.identity j = true <;> simp [h1, h2]
    rw [hfun, foldl_range_update]
    by_cases h1 : bootPgd i = 0#32 <;> by_cases h2 : b.identity i = true <;> simp [h1, h2, hi]
  simp only [pgtableBuildForProc, hidx, hident]
  by_cases h : i = 0x400
  · subst h
    simp
  · rw [Function.update_of_ne h, if_neg h, hcopy, hzero]
    by_cases h1 : bootPgd i = 0#32 <;> by_cases h2 : b.identity i = true <;> simp [h1, h2]

/-! ### Two parallel maps -/

/-- A loop that clears some entries. -/
lemma foldl_clear (l : List ℕ) (t : Table) (i : ℕ) :
    l.foldl (fun t j => Function.update t j 0#32) t i = if i ∈ l then 0#32 else t i := by
  induction l generalizing t with
  | nil => simp
  | cons j l ih =>
    rw [List.foldl_cons, ih]
    by_cases hl : i ∈ l
    · simp [hl]
    · by_cases hij : i = j
      · subst hij
        simp
      · simp [hl, hij]

/-- `mmu_drop_identity` clears the identity map and nothing else. -/
lemma mmuDropIdentity_apply (b : Board) (bootPgd : Table) (i : ℕ) :
    mmuDropIdentity b bootPgd i = if b.identity i then 0#32 else bootPgd i := by
  have hle : (b.ramBase >>> 20).toNat ≤ ((b.ramBase + b.ramSize) >>> 20).toNat := by
    cases b <;> decide
  have hmem : i ∈ List.range' (b.ramBase >>> 20).toNat
      (((b.ramBase + b.ramSize) >>> 20).toNat - (b.ramBase >>> 20).toNat) ↔
      b.identity i = true := by
    rw [List.mem_range'_1, Board.identity, decide_eq_true_iff]
    omega
  simp only [mmuDropIdentity, foldl_clear, hmem]

/-- **Two parallel maps.**  Whatever `boot_pgd` and the destination hold, the table that
`pgtable_build_for_proc` builds and `boot_pgd` after `mmu_drop_identity` differ at most in the
entry of the user window; and the order of the two calls does not matter. -/
theorem tables_agree (b : Board) (bootPgd pgd : Table) (userPa : Word) :
    (∀ i < pgdEntries, i ≠ (userVirtBase >>> 20).toNat →
      pgtableBuildForProc b bootPgd pgd userPa i = mmuDropIdentity b bootPgd i) ∧
    ∀ i < pgdEntries, pgtableBuildForProc b (mmuDropIdentity b bootPgd) pgd userPa i =
      pgtableBuildForProc b bootPgd pgd userPa i := by
  have hidx : (userVirtBase >>> 20).toNat = 0x400 := by decide
  constructor
  · intro i hi hne
    rw [hidx] at hne
    rw [pgtableBuildForProc_apply b bootPgd pgd userPa hi, if_neg hne, mmuDropIdentity_apply]
  · intro i hi
    rw [pgtableBuildForProc_apply b _ pgd userPa hi, pgtableBuildForProc_apply b _ pgd userPa hi,
      mmuDropIdentity_apply]
    by_cases h : b.identity i = true <;> simp [h]

/-! ### What user code can reach -/

/-- A descriptor that user code cannot use. -/
def KernelOnly (desc : Word) : Prop := ∀ write, (isSection desc && permits desc false write) = false

lemma kernelOnly_zero : KernelOnly 0#32 := by
  intro write
  cases write <;> decide

/-- The attribute bits of a descriptor do not depend on its address. -/
lemma sectionDesc_and (pa attrs : Word) {mask : Word} (h : 0xFFF00000#32 &&& mask = 0#32) :
    sectionDesc pa attrs &&& mask = attrs &&& mask := by
  have hd : sectionDesc pa attrs &&& mask =
      (pa &&& (0xFFF00000#32 &&& mask)) ||| (attrs &&& mask) := by
    apply BitVec.eq_of_getLsbD_eq
    intro i hi
    simp only [sectionDesc, BitVec.getLsbD_and, BitVec.getLsbD_or]
    cases pa.getLsbD i <;> cases (0xFFF00000#32).getLsbD i <;> cases attrs.getLsbD i <;>
      cases mask.getLsbD i <;> rfl
  rw [hd, h, BitVec.and_zero, BitVec.zero_or]

/-- The address of a descriptor does not depend on its attributes. -/
lemma sectionDesc_base (pa : Word) {attrs : Word} (h : attrs &&& 0xFFF00000#32 = 0#32) :
    sectionDesc pa attrs &&& 0xFFF00000#32 = pa &&& 0xFFF00000#32 := by
  have hd : sectionDesc pa attrs &&& 0xFFF00000#32 =
      (pa &&& 0xFFF00000#32) ||| (attrs &&& 0xFFF00000#32) := by
    apply BitVec.eq_of_getLsbD_eq
    intro i hi
    simp only [sectionDesc, BitVec.getLsbD_and, BitVec.getLsbD_or]
    cases pa.getLsbD i <;> cases (0xFFF00000#32).getLsbD i <;> cases attrs.getLsbD i <;> rfl
  rw [hd, h, BitVec.or_zero]

lemma isSection_sectionDesc (pa attrs : Word) :
    isSection (sectionDesc pa attrs) = isSection attrs := by
  rw [isSection, isSection, sectionDesc_and pa attrs (by decide)]

lemma permits_sectionDesc (pa attrs : Word) (privileged write : Bool) :
    permits (sectionDesc pa attrs) privileged write = permits attrs privileged write := by
  simp only [permits, sectionDesc_and pa attrs (show 0xFFF00000#32 &&& 0x8C00#32 = 0#32 by decide)]

lemma KernelOnly.sectionDesc {attrs : Word} (h : KernelOnly attrs) (pa : Word) :
    KernelOnly (sectionDesc pa attrs) := by
  intro write
  rw [isSection_sectionDesc, permits_sectionDesc]
  exact h write

lemma kernelOnly_pdeKernelMem : KernelOnly pdeKernelMem := by
  intro write
  cases write <;> decide

lemma kernelOnly_pdeDevice : KernelOnly pdeDevice := by
  intro write
  cases write <;> decide

lemma kernelOnly_mapRange {t : Table} {attrs : Word} (ht : ∀ i, KernelOnly (t i))
    (ha : KernelOnly attrs) (va pa size : Word) (i : ℕ) :
    KernelOnly (pgtableMapRange t va pa size attrs i) := by
  unfold pgtableMapRange
  induction (List.range (size >>> 20).toNat) generalizing t with
  | nil => exact ht i
  | cons j js ih =>
    refine ih ?_
    intro i
    simp only [mapSection, Function.update_apply]
    split
    · exact ha.sectionDesc _
    · exact ht i

/-- The boot table gives nothing to user code. -/
lemma kernelOnly_mmuBuildBootPgd (b : Board) (i : ℕ) :
    KernelOnly (mmuBuildBootPgd b (fun _ => 0#32) i) := by
  have hmap : ∀ i, KernelOnly (pgtableMapRange (pgtableMapRange (fun _ => 0#32) b.ramBase
      b.ramBase b.ramSize pdeKernelMem) vaKernelBase b.ramBase b.ramSize pdeKernelMem i) :=
    kernelOnly_mapRange (kernelOnly_mapRange (fun _ => kernelOnly_zero) kernelOnly_pdeKernelMem
      _ _ _) kernelOnly_pdeKernelMem _ _ _
  cases b with
  | qemu =>
    exact kernelOnly_mapRange (kernelOnly_mapRange hmap kernelOnly_pdeDevice _ _ _)
      kernelOnly_pdeDevice _ _ _ i
  | bbb =>
    exact kernelOnly_mapRange (kernelOnly_mapRange hmap kernelOnly_pdeDevice _ _ _)
      kernelOnly_pdeDevice _ _ _ i

/-- What a process's table has to satisfy: the window belongs to the slot, and user code
can use nothing else. -/
structure UserTable (b : Board) (p : Pid) (t : Table) : Prop where
  window : t 0x400 = sectionDesc (b.slotBase p) pdeUserText
  others : ∀ i, i < pgdEntries → i ≠ 0x400 → KernelOnly (t i)

/-- The table that `pgtable_build_for_proc` builds. -/
theorem userTable_build (b : Board) (p : Pid) {bootPgd : Table} (pgd : Table)
    (hboot : ∀ i, i < pgdEntries → KernelOnly (bootPgd i)) :
    UserTable b p (pgtableBuildForProc b bootPgd pgd (b.slotBase p)) := by
  constructor
  · rw [pgtableBuildForProc_apply b bootPgd pgd _ (by decide), if_pos rfl]
  · intro i hi hne
    rw [pgtableBuildForProc_apply b bootPgd pgd _ hi, if_neg hne]
    split
    · exact kernelOnly_zero
    · exact hboot i hi

/-! ### Translation for a process -/

/-- The table at an address of physical memory. -/
def Table.ofMemory (m : Memory) (base : ℕ) : Table := fun i => m.load32 (base + 4 * i)

/-- The physical address behind an address of a process's window. -/
def slotAddr (b : Board) (p : Pid) (va : Word) : ℕ :=
  (b.slotBase p).toNat + (va - userVirtBase).toNat

lemma toNat_sub_userVirtBase {va : Word} (h : inWindow va = true) :
    (va - userVirtBase).toNat + 0x40000000 = va.toNat ∧ (va - userVirtBase).toNat < 0x100000 := by
  obtain ⟨h1, h2⟩ := (inWindow_iff va).1 h
  rw [BitVec.toNat_sub, toNat_userVirtBase]
  omega

lemma slotAddr_mem {b : Board} {va : Word} (p : Pid) (h : inWindow va = true) :
    (b.slot p).Mem (slotAddr b p va) := by
  obtain ⟨-, hlt⟩ := toNat_sub_userVirtBase h
  refine ⟨Nat.le_add_right _ _, ?_⟩
  have hsize : (b.slot p).size = 0x100000 := toNat_userRegionSize
  rw [hsize]
  exact Nat.add_lt_add_left hlt _

lemma slotAddr_inj {b : Board} {p : Pid} {va va' : Word} (h : inWindow va = true)
    (h' : inWindow va' = true) (heq : slotAddr b p va = slotAddr b p va') : va = va' := by
  obtain ⟨h1, -⟩ := toNat_sub_userVirtBase h
  obtain ⟨h2, -⟩ := toNat_sub_userVirtBase h'
  have := Nat.add_left_cancel heq
  exact BitVec.eq_of_toNat_eq (by omega)

lemma toNat_shiftRight_twenty (va : Word) : (va >>> 20).toNat = va.toNat / 2 ^ 20 := by
  rw [BitVec.toNat_ushiftRight, Nat.shiftRight_eq_div_pow]

/-- An address is in the window exactly if it uses the window's entry. -/
lemma inWindow_iff_entry (va : Word) : inWindow va = true ↔ (va >>> 20).toNat = 0x400 := by
  rw [inWindow_iff, toNat_shiftRight_twenty]
  omega

/-- The base of a section, without the bits below it. -/
lemma and_sectionMask {pa : Word} (h : pa.toNat % 2 ^ 20 = 0) : pa &&& 0xFFF00000#32 = pa := by
  have hlow : ∀ i < 20, pa.getLsbD i = false := by
    intro i hi
    obtain ⟨k, hk⟩ := Nat.dvd_of_mod_eq_zero h
    rw [← BitVec.testBit_toNat, hk, Nat.testBit_two_pow_mul]
    simp
    omega
  apply BitVec.eq_of_getLsbD_eq
  intro i hi
  rw [BitVec.getLsbD_and]
  by_cases h20 : i < 20
  · rw [hlow i h20]
    rfl
  · have hmask : (0xFFF00000#32).getLsbD i = true := by interval_cases i <;> rfl
    rw [hmask, Bool.and_true]

/-- The output address of a section descriptor. -/
lemma section_output {pa attrs : Word} (hpa : pa.toNat % 2 ^ 20 = 0)
    (ha : attrs &&& 0xFFF00000#32 = 0#32) (va : Word) :
    ((sectionDesc pa attrs &&& 0xFFF00000#32) ||| (va &&& 0x000FFFFF#32)).toNat =
      pa.toNat + va.toNat % 2 ^ 20 := by
  have hoff : (va &&& 0x000FFFFF#32).toNat = va.toNat % 2 ^ 20 := by
    rw [BitVec.toNat_and]
    exact Nat.and_two_pow_sub_one_eq_mod va.toNat 20
  have hbase : pa.toNat = 2 ^ 20 * (pa.toNat / 2 ^ 20) := by omega
  rw [sectionDesc_base _ ha, and_sectionMask hpa, BitVec.toNat_or, hoff, hbase,
    ← Nat.two_pow_add_eq_or_of_lt (Nat.mod_lt _ (by decide)), ← hbase]

lemma slotBase_aligned (b : Board) (p : Pid) : (b.slotBase p).toNat % 2 ^ 20 = 0 := by
  revert p
  cases b <;> decide

/-- The output address of the window's descriptor. -/
lemma window_output (b : Board) (p : Pid) {va : Word} (h : inWindow va = true) :
    ((sectionDesc (b.slotBase p) pdeUserText &&& 0xFFF00000#32) ||| (va &&& 0x000FFFFF#32)).toNat =
      slotAddr b p va := by
  obtain ⟨h1, h2⟩ := toNat_sub_userVirtBase h
  rw [section_output (slotBase_aligned b p) (by decide)]
  refine congrArg ((b.slotBase p).toNat + ·) ?_
  omega

section Translate

variable {b : Board} {p : Pid} {m : Memory} {ttbr0 : Word}

/-- **User accesses reach the own slot and nothing else.** -/
theorem translate_user (h : UserTable b p (Table.ofMemory m (ttbr0 &&& 0xFFFFC000#32).toNat))
    (va : Word) (write : Bool) :
    translate m ttbr0 va false write = if inWindow va then some (slotAddr b p va) else none := by
  have hidx : (va >>> 20).toNat < pgdEntries := by
    have := va.isLt
    rw [toNat_shiftRight_twenty, pgdEntries]
    omega
  by_cases hw : inWindow va = true
  · have hentry := (inWindow_iff_entry va).1 hw
    have hdesc : m.load32 ((ttbr0 &&& 0xFFFFC000#32).toNat + 4 * (va >>> 20).toNat) =
        sectionDesc (b.slotBase p) pdeUserText := by
      rw [hentry]
      exact h.window
    have hperm : (isSection (sectionDesc (b.slotBase p) pdeUserText) &&
        permits (sectionDesc (b.slotBase p) pdeUserText) false write) = true := by
      rw [isSection_sectionDesc, permits_sectionDesc]
      cases write <;> decide
    rw [translate, hdesc, if_pos hperm, if_pos hw, window_output b p hw]
  · have hentry : (va >>> 20).toNat ≠ 0x400 := fun he => hw ((inWindow_iff_entry va).2 he)
    have hdesc := h.others _ hidx hentry write
    rw [translate, if_neg hw]
    exact if_neg (by simpa [Table.ofMemory] using hdesc)

/-- The kernel reaches the slot of the current process through the window. -/
theorem translate_kernel (h : UserTable b p (Table.ofMemory m (ttbr0 &&& 0xFFFFC000#32).toNat))
    {va : Word} (hw : inWindow va = true) (write : Bool) :
    translate m ttbr0 va true write = some (slotAddr b p va) := by
  have hentry := (inWindow_iff_entry va).1 hw
  have hdesc : m.load32 ((ttbr0 &&& 0xFFFFC000#32).toNat + 4 * (va >>> 20).toNat) =
      sectionDesc (b.slotBase p) pdeUserText := by
    rw [hentry]
    exact h.window
  have hperm : (isSection (sectionDesc (b.slotBase p) pdeUserText) &&
      permits (sectionDesc (b.slotBase p) pdeUserText) true write) = true := by
    rw [isSection_sectionDesc, permits_sectionDesc]
    cases write <;> decide
  rw [translate, hdesc, if_pos hperm, window_output b p hw]

end Translate

/-- The value of TTBR0 for a process: its table's address and the walk attributes. -/
def ttbr0For (pgdPa : Word) : Word := pgdPa ||| 0x4A#32

lemma ttbr0For_base {pgdPa : Word} (h : pgdPa.toNat % pgdSize = 0) :
    ttbr0For pgdPa &&& 0xFFFFC000#32 = pgdPa := by
  have hlow : ∀ i < 14, pgdPa.getLsbD i = false := by
    intro i hi
    obtain ⟨k, hk⟩ := Nat.dvd_of_mod_eq_zero h
    have hk' : pgdPa.toNat = 2 ^ 14 * k := hk
    rw [← BitVec.testBit_toNat, hk', Nat.testBit_two_pow_mul]
    simp
    omega
  apply BitVec.eq_of_getLsbD_eq
  intro i hi
  simp only [ttbr0For, BitVec.getLsbD_and, BitVec.getLsbD_or]
  by_cases h14 : i < 14
  · rw [hlow i h14]
    interval_cases i <;> simp
  · interval_cases i <;> simp_all

end RingNova
