/-
# The address space of a process

What the table that `mmu_build_boot_pgd` and `pgtable_build_for_proc` build translates every
virtual address to.  `AddressSpace` is the specification, in terms of address ranges; the
table meets it on all 2^32 addresses, for every kind of access and in both privilege levels
(`walk_process`).

The boot table is made by a few calls of `pgtable_map_range`.  Each fills a range of entries
(`MapCall.run_apply`), the ranges do not overlap (`calls_apart`), and so every entry is the
one that its call has written (`foldl_run_apply`).  What such a call does to an arbitrary table
is `map_range_spec`.
-/
import RingNova.Arm.Mmu

namespace RingNova

/-! ### The walk of a table -/

/-- What an instruction wants from an address. -/
inductive Access
  | read
  | write
  | fetch
deriving DecidableEq, Repr

/-- The rights of a section descriptor, with its execute-never bit. -/
def allows (desc : Word) (privileged : Bool) : Access → Bool
  | .read => permits desc privileged false
  | .write => permits desc privileged true
  | .fetch => permits desc privileged false && decide (desc &&& pdeXN = 0#32)

/-- The translation of an address through a table; `none` is an abort. -/
def Table.walk (t : Table) (va : Word) (privileged : Bool) (x : Access) : Option ℕ :=
  let desc := t (va >>> 20).toNat
  if isSection desc && allows desc privileged x then
    some ((desc &&& 0xFFF00000#32) ||| (va &&& 0x000FFFFF#32)).toNat
  else none

/-- The data accesses of the machine. -/
lemma translate_eq_walk (m : Memory) (ttbr0 va : Word) (privileged write : Bool) :
    translate m ttbr0 va privileged write =
      (Table.ofMemory m (ttbr0 &&& 0xFFFFC000#32).toNat).walk va privileged
        (if write then .write else .read) := by
  cases write <;> rfl

/-! ### Ranges of sections -/

/-- The arguments of a call of `pgtable_map_range`. -/
structure MapCall where
  va : Word
  pa : Word
  size : Word
  attrs : Word

namespace MapCall

/-- The call. -/
def run (m : MapCall) (t : Table) : Table := pgtableMapRange t m.va m.pa m.size m.attrs

/-- The first entry that the call writes. -/
def first (m : MapCall) : ℕ := (m.va >>> 20).toNat

/-- How many entries the call writes. -/
def count (m : MapCall) : ℕ := (m.size >>> 20).toNat

/-- The call writes an entry. -/
def Covers (m : MapCall) (i : ℕ) : Prop := m.first ≤ i ∧ i < m.first + m.count

instance (m : MapCall) (i : ℕ) : Decidable (m.Covers i) := inferInstanceAs (Decidable (_ ∧ _))

/-- Two calls write different entries. -/
def Apart (m m' : MapCall) : Prop := m.first + m.count ≤ m'.first ∨ m'.first + m'.count ≤ m.first

instance (m m' : MapCall) : Decidable (m.Apart m') := inferInstanceAs (Decidable (_ ∨ _))

/-- Whole megabytes, without wrap-around. -/
structure Ok (m : MapCall) : Prop where
  va_aligned : m.va.toNat % 2 ^ 20 = 0
  pa_aligned : m.pa.toNat % 2 ^ 20 = 0
  size_aligned : m.size.toNat % 2 ^ 20 = 0
  va_fits : m.va.toNat + m.size.toNat ≤ 2 ^ 32
  pa_fits : m.pa.toNat + m.size.toNat ≤ 2 ^ 32

/-- The section that an entry is mapped to. -/
def frame (m : MapCall) (i : ℕ) : Word := m.pa + BitVec.ofNat 32 (i - m.first) <<< 20

variable {m m' : MapCall} {i : ℕ}

lemma Apart.not_covers (h : m.Apart m') (hi : m.Covers i) : ¬ m'.Covers i := by
  rintro ⟨h1, h2⟩
  obtain ⟨h3, h4⟩ := hi
  rcases h with h | h <;> omega

lemma toNat_shiftLeft_twenty {j : ℕ} (hj : j < 4096) :
    (BitVec.ofNat 32 j <<< 20).toNat = j * 2 ^ 20 := by
  rw [BitVec.toNat_shiftLeft, BitVec.toNat_ofNat, Nat.shiftLeft_eq]
  omega

lemma Ok.first_mul (h : m.Ok) : m.first * 2 ^ 20 = m.va.toNat := by
  have := h.va_aligned
  rw [first, toNat_shiftRight_twenty]
  omega

lemma Ok.count_mul (h : m.Ok) : m.count * 2 ^ 20 = m.size.toNat := by
  have := h.size_aligned
  rw [count, toNat_shiftRight_twenty]
  omega

/-- The call covers the entry of an address exactly if the address is in its range. -/
lemma Ok.covers_iff (h : m.Ok) (va : Word) :
    m.Covers (va >>> 20).toNat ↔ m.va.toNat ≤ va.toNat ∧ va.toNat < m.va.toNat + m.size.toNat := by
  have h1 := h.first_mul
  have h2 := h.count_mul
  rw [Covers, toNat_shiftRight_twenty]
  omega

/-- The entry number of an iteration of `pgtable_map_range`. -/
lemma Ok.index (h : m.Ok) {j : ℕ} (hj : j < m.count) :
    ((m.va + BitVec.ofNat 32 j <<< 20) >>> 20).toNat = m.first + j := by
  have h1 := h.first_mul
  have h2 := h.count_mul
  have h3 := h.va_fits
  have h4 := m.size.isLt
  rw [toNat_shiftRight_twenty, BitVec.toNat_add, toNat_shiftLeft_twenty (by omega)]
  omega

lemma Ok.toNat_frame (h : m.Ok) (hi : m.Covers i) :
    (m.frame i).toNat = m.pa.toNat + (i - m.first) * 2 ^ 20 := by
  have h1 := h.count_mul
  have h2 := h.pa_fits
  have h3 := m.size.isLt
  have h4 := m.pa.isLt
  obtain ⟨h5, h6⟩ := hi
  rw [frame, BitVec.toNat_add, toNat_shiftLeft_twenty (by omega)]
  omega

lemma Ok.frame_aligned (h : m.Ok) (hi : m.Covers i) : (m.frame i).toNat % 2 ^ 20 = 0 := by
  have hpa := h.pa_aligned
  rw [h.toNat_frame hi]
  omega

/-- The address at the same distance from `pa`. -/
lemma Ok.frame_add (h : m.Ok) {va : Word}
    (hva : m.va.toNat ≤ va.toNat ∧ va.toNat < m.va.toNat + m.size.toNat) :
    (m.frame (va >>> 20).toNat).toNat + va.toNat % 2 ^ 20 =
      m.pa.toNat + (va.toNat - m.va.toNat) := by
  have hfirst := h.first_mul
  rw [h.toNat_frame ((h.covers_iff va).2 hva), toNat_shiftRight_twenty]
  omega

/-- **What `pgtable_map_range` writes.** -/
lemma Ok.run_apply (h : m.Ok) (t : Table) (i : ℕ) :
    m.run t i = if m.Covers i then sectionDesc (m.frame i) m.attrs else t i := by
  have hloop : ∀ n ≤ m.count, (List.range n).foldl (fun pgd j =>
      mapSection pgd (m.va + BitVec.ofNat 32 j <<< 20) (m.pa + BitVec.ofNat 32 j <<< 20) m.attrs) t
        i = if m.first ≤ i ∧ i < m.first + n then sectionDesc (m.frame i) m.attrs else t i := by
    intro n
    induction n with
    | zero =>
      intro _
      exact (if_neg (by omega)).symm
    | succ n ih =>
      intro hn
      rw [List.range_succ, List.foldl_append, List.foldl_cons, List.foldl_nil, mapSection,
        h.index (by omega)]
      by_cases hi : i = m.first + n
      · -- the entry of the last iteration
        have hf : m.pa + BitVec.ofNat 32 n <<< 20 = m.frame i := by
          rw [frame, hi, Nat.add_sub_cancel_left]
        rw [hi, Function.update_self, if_pos (by omega), ← hi, hf]
      · rw [Function.update_of_ne hi, ih (by omega)]
        have hiff : (m.first ≤ i ∧ i < m.first + n) ↔ (m.first ≤ i ∧ i < m.first + (n + 1)) := by
          omega
        simp only [hiff]
  exact hloop m.count (le_refl _)

end MapCall

/-- A sequence of calls that do not overlap: each entry is written by at most one of them. -/
lemma foldl_run_apply {calls : List MapCall} (hok : ∀ m ∈ calls, m.Ok)
    (hapart : calls.Pairwise MapCall.Apart) (t : Table) (i : ℕ) :
    (∀ m ∈ calls, m.Covers i →
        calls.foldl (fun t m => m.run t) t i = sectionDesc (m.frame i) m.attrs) ∧
      ((∀ m ∈ calls, ¬ m.Covers i) → calls.foldl (fun t m => m.run t) t i = t i) := by
  induction calls generalizing t with
  | nil => simp
  | cons m calls ih =>
    obtain ⟨hm, hrest⟩ := List.pairwise_cons.1 hapart
    obtain ⟨ih1, ih2⟩ := ih (fun m' hm' => hok m' (List.mem_cons_of_mem m hm')) hrest (m.run t)
    have hrun := (hok m List.mem_cons_self).run_apply t i
    rw [List.foldl_cons]
    constructor
    · intro m' hm' hi
      rcases List.mem_cons.1 hm' with rfl | hm'
      · -- no later call writes the entry
        rw [ih2 fun m'' hm'' => (hm m'' hm'').not_covers hi, hrun, if_pos hi]
      · exact ih1 m' hm' hi
    · intro hnone
      rw [ih2 fun m' hm' => hnone m' (List.mem_cons_of_mem m hm'), hrun,
        if_neg (hnone m List.mem_cons_self)]

/-! ### The calls of `mmu_build_boot_pgd` -/

/-- The calls of `platform_map_peripherals`. -/
def deviceCalls : Board → List MapCall
  | .qemu => [⟨0x10000000#32, 0x10000000#32, 2#32 <<< 20, pdeDevice⟩,
      ⟨0x1E000000#32, 0x1E000000#32, 1#32 <<< 20, pdeDevice⟩]
  | .bbb => [⟨0x44E00000#32, 0x44E00000#32, 1#32 <<< 20, pdeDevice⟩,
      ⟨0x48000000#32, 0x48000000#32, 16#32 <<< 20, pdeDevice⟩]

/-- The identity map of RAM. -/
def identityCall (b : Board) : MapCall := ⟨b.ramBase, b.ramBase, b.ramSize, pdeKernelMem⟩

/-- The kernel's alias of RAM. -/
def kernelCall (b : Board) : MapCall := ⟨vaKernelBase, b.ramBase, b.ramSize, pdeKernelMem⟩

/-- All calls of `pgtable_map_range`, in order. -/
def bootCalls (b : Board) : List MapCall := identityCall b :: kernelCall b :: deviceCalls b

/-- The section that `pgtable_build_for_proc` installs, as a call. -/
def windowCall (b : Board) (p : Pid) : MapCall :=
  ⟨userVirtBase, b.slotBase p, userRegionSize, pdeUserText⟩

lemma mmuBuildBootPgd_eq (b : Board) (t : Table) :
    mmuBuildBootPgd b t = (bootCalls b).foldl (fun t m => m.run t) t := by
  cases b <;> rfl

lemma bootCalls_ok (b : Board) : ∀ m ∈ bootCalls b, m.Ok := by
  have hall : ∀ m ∈ bootCalls b, m.va.toNat % 2 ^ 20 = 0 ∧ m.pa.toNat % 2 ^ 20 = 0 ∧
      m.size.toNat % 2 ^ 20 = 0 ∧ m.va.toNat + m.size.toNat ≤ 2 ^ 32 ∧
      m.pa.toNat + m.size.toNat ≤ 2 ^ 32 := by
    cases b <;> decide
  intro m hm
  obtain ⟨h1, h2, h3, h4, h5⟩ := hall m hm
  exact ⟨h1, h2, h3, h4, h5⟩

/-- No call writes an entry that another one writes. -/
lemma calls_apart (b : Board) (p : Pid) :
    (windowCall b p :: bootCalls b).Pairwise MapCall.Apart := by
  revert p
  cases b <;> decide

lemma windowCall_covers (b : Board) (p : Pid) : (windowCall b p).Covers 0x400 := by
  have hfirst : (windowCall b p).first = 0x400 := (by decide : (userVirtBase >>> 20).toNat = 0x400)
  have hcount : (windowCall b p).count = 1 := (by decide : (userRegionSize >>> 20).toNat = 1)
  rw [MapCall.Covers, hfirst, hcount]
  omega

lemma va_kernelCall (b : Board) : (kernelCall b).va.toNat = 0xC0000000 := by
  cases b <;> decide

lemma identity_iff (b : Board) (i : ℕ) : b.identity i = true ↔ (identityCall b).Covers i := by
  have hend : ((b.ramBase + b.ramSize) >>> 20).toNat = (identityCall b).first +
      (identityCall b).count := by
    cases b <;> decide
  rw [Board.identity, decide_eq_true_iff, hend]
  rfl

/-! ### The specification -/

/-- The peripheral windows: first address and size. -/
def Board.peripherals : Board → List (ℕ × ℕ)
  | .qemu => [(0x10000000, 2 * 2 ^ 20), (0x1E000000, 2 ^ 20)]
  | .bbb => [(0x44E00000, 2 ^ 20), (0x48000000, 16 * 2 ^ 20)]

/-- An address in one of the peripheral windows. -/
def Board.Peripheral (b : Board) (va : Word) : Prop :=
  ∃ w ∈ b.peripherals, w.1 ≤ va.toNat ∧ va.toNat < w.1 + w.2

/-- What is behind a virtual address. -/
inductive Backing
  /-- Memory of the process. -/
  | user (pa : ℕ)
  /-- Memory of the kernel. -/
  | kernel (pa : ℕ)
  /-- A register of a device. -/
  | device (pa : ℕ)
  | nothing

/-- The translation that an access through a backing gets. -/
def Backing.walk : Backing → Bool → Access → Option ℕ
  | .user pa, _, _ => some pa
  | .kernel pa, privileged, _ => if privileged then some pa else none
  | .device pa, privileged, x => if privileged && x != .fetch then some pa else none
  | .nothing, _, _ => none

/-- The address space of process `p`, by ranges. -/
inductive AddressSpace (b : Board) (p : Pid) (va : Word) : Backing → Prop
  | window (h1 : 0x40000000 ≤ va.toNat) (h2 : va.toNat < 0x40100000) :
    AddressSpace b p va (.user ((b.slotBase p).toNat + (va.toNat - 0x40000000)))
  | ram (h1 : 0xC0000000 ≤ va.toNat) (h2 : va.toNat < 0xC0000000 + b.ramSize.toNat) :
    AddressSpace b p va (.kernel (va - b.physOffset).toNat)
  | peripheral (h : b.Peripheral va) : AddressSpace b p va (.device va.toNat)
  | fault (h1 : ¬ (0x40000000 ≤ va.toNat ∧ va.toNat < 0x40100000))
    (h2 : ¬ (0xC0000000 ≤ va.toNat ∧ va.toNat < 0xC0000000 + b.ramSize.toNat))
    (h3 : ¬ b.Peripheral va) : AddressSpace b p va .nothing

section Walk

variable {b : Board} {p : Pid} {va : Word}

lemma allows_sectionDesc (pa attrs : Word) (privileged : Bool) (x : Access) :
    allows (sectionDesc pa attrs) privileged x = allows attrs privileged x := by
  cases x with
  | read => exact permits_sectionDesc pa attrs privileged false
  | write => exact permits_sectionDesc pa attrs privileged true
  | fetch =>
    rw [allows, allows, permits_sectionDesc, sectionDesc_and pa attrs (by decide)]

/-- The walk through an entry that a call has written. -/
lemma walk_of_call {t : Table} {m : MapCall} (hok : m.Ok) (ha : m.attrs &&& 0xFFF00000#32 = 0#32)
    (hva : m.va.toNat ≤ va.toNat ∧ va.toNat < m.va.toNat + m.size.toNat)
    (hdesc : t (va >>> 20).toNat = sectionDesc (m.frame (va >>> 20).toNat) m.attrs)
    (privileged : Bool) (x : Access) :
    t.walk va privileged x = if isSection m.attrs && allows m.attrs privileged x then
      some (m.pa.toNat + (va.toNat - m.va.toNat)) else none := by
  have hout := section_output (hok.frame_aligned ((hok.covers_iff va).2 hva)) ha va
  simp only [Table.walk, hdesc, isSection_sectionDesc, allows_sectionDesc, hout, hok.frame_add hva]

lemma walk_of_zero {t : Table} (hdesc : t (va >>> 20).toNat = 0#32) (privileged : Bool)
    (x : Access) : t.walk va privileged x = none := by
  have hs : isSection 0#32 = false := by decide
  rw [Table.walk]
  simp only [hdesc, hs, Bool.false_and, Bool.false_eq_true, if_false]

/-- The table of process `p` when `process_init_all` has built it. -/
def processTable (b : Board) (p : Pid) (pgd : Table) : Table :=
  pgtableBuildForProc b (mmuBuildBootPgd b fun _ => 0#32) pgd (b.slotBase p)

lemma entry_lt (va : Word) : (va >>> 20).toNat < pgdEntries := by
  have := va.isLt
  rw [toNat_shiftRight_twenty, pgdEntries]
  omega

/-- The entries of the table are those of the calls, without the identity map. -/
lemma processTable_of_call {m : MapCall} (hm : m ∈ kernelCall b :: deviceCalls b)
    (hva : m.va.toNat ≤ va.toNat ∧ va.toNat < m.va.toNat + m.size.toNat) (pgd : Table) :
    processTable b p pgd (va >>> 20).toNat = sectionDesc (m.frame (va >>> 20).toNat) m.attrs := by
  have hmem : m ∈ bootCalls b := List.mem_cons_of_mem _ hm
  have hcov := ((bootCalls_ok b m hmem).covers_iff va).2 hva
  obtain ⟨hwin, happ⟩ := List.pairwise_cons.1 (calls_apart b p)
  -- neither the window nor the identity map uses the entry
  have hne : (va >>> 20).toNat ≠ 0x400 := by
    intro he
    refine (hwin m hmem).not_covers ?_ hcov
    rw [he]
    exact windowCall_covers b p
  have hid : ¬ b.identity (va >>> 20).toNat = true := by
    rw [identity_iff]
    exact fun hi => ((List.pairwise_cons.1 happ).1 m hm).not_covers hi hcov
  rw [processTable, pgtableBuildForProc_apply b _ _ _ (entry_lt va), if_neg hne, if_neg hid,
    mmuBuildBootPgd_eq]
  exact (foldl_run_apply (bootCalls_ok b) happ _ _).1 m hmem hcov

/-- An address that no call covers, or only the identity map. -/
lemma processTable_of_none (hw : ¬ inWindow va = true)
    (hnone : ∀ m ∈ kernelCall b :: deviceCalls b,
      ¬ (m.va.toNat ≤ va.toNat ∧ va.toNat < m.va.toNat + m.size.toNat)) (pgd : Table) :
    processTable b p pgd (va >>> 20).toNat = 0#32 := by
  have hne : (va >>> 20).toNat ≠ 0x400 := fun he => hw ((inWindow_iff_entry va).2 he)
  rw [processTable, pgtableBuildForProc_apply b _ _ _ (entry_lt va), if_neg hne]
  split
  next => rfl
  next hid =>
    rw [mmuBuildBootPgd_eq]
    -- the boot table was zero, and the process table has dropped the identity map
    refine (foldl_run_apply (bootCalls_ok b) (List.pairwise_cons.1 (calls_apart b p)).2 _ _).2 ?_
    intro m hm hcov
    rcases List.mem_cons.1 hm with rfl | hm'
    · exact hid ((identity_iff b _).2 hcov)
    · exact hnone m hm' (((bootCalls_ok b m hm).covers_iff va).1 hcov)

lemma deviceCalls_spec (b : Board) :
    ∀ m ∈ deviceCalls b, m.attrs = pdeDevice ∧ m.pa = m.va ∧
      (m.va.toNat, m.size.toNat) ∈ b.peripherals := by
  cases b <;> decide

lemma peripherals_spec (b : Board) :
    ∀ w ∈ b.peripherals, ∃ m ∈ deviceCalls b, m.va.toNat = w.1 ∧ m.size.toNat = w.2 := by
  cases b <;> decide

/-- **The table implements the address space.** -/
theorem walk_process {bk : Backing} (h : AddressSpace b p va bk) (pgd : Table)
    (privileged : Bool) (x : Access) :
    (processTable b p pgd).walk va privileged x = bk.walk privileged x := by
  cases h with
  | window h1 h2 =>
    have hw : inWindow va = true := (inWindow_iff va).2 ⟨h1, h2⟩
    have hentry := (inWindow_iff_entry va).1 hw
    have hdesc : processTable b p pgd (va >>> 20).toNat =
        sectionDesc (b.slotBase p) pdeUserText := by
      rw [processTable, pgtableBuildForProc_apply b _ _ _ (entry_lt va), if_pos hentry]
    have hperm : (isSection pdeUserText && allows pdeUserText privileged x) = true := by
      cases privileged <;> cases x <;> decide
    have hattrs : pdeUserText &&& 0xFFF00000#32 = 0#32 := by decide
    have hout := section_output (slotBase_aligned b p) hattrs va
    have hoff : va.toNat % 2 ^ 20 = va.toNat - 0x40000000 := by omega
    simp only [Table.walk, hdesc, isSection_sectionDesc, allows_sectionDesc, hperm, hout, hoff,
      if_true, Backing.walk]
  | ram h1 h2 =>
    have hok := bootCalls_ok b (kernelCall b) (by simp [bootCalls])
    have hva : (kernelCall b).va.toNat ≤ va.toNat ∧
        va.toNat < (kernelCall b).va.toNat + (kernelCall b).size.toNat := by
      rw [va_kernelCall]
      exact ⟨h1, h2⟩
    have hdesc := processTable_of_call (p := p) (List.mem_cons_self (a := kernelCall b)
      (l := deviceCalls b)) hva pgd
    have hpa : (kernelCall b).pa.toNat + (va.toNat - 0xC0000000) = (va - b.physOffset).toNat := by
      have hlt := va.isLt
      have hram : (kernelCall b).pa = b.ramBase := rfl
      have ho : b.physOffset.toNat + b.ramBase.toNat = 0xC0000000 := by cases b <;> decide
      rw [BitVec.toNat_sub, hram]
      omega
    have hattrs : (kernelCall b).attrs = pdeKernelMem := rfl
    have hperm : (isSection pdeKernelMem && allows pdeKernelMem privileged x) = privileged := by
      cases privileged <;> cases x <;> decide
    rw [walk_of_call hok (by rw [hattrs]; decide) hva hdesc privileged x, va_kernelCall, hpa,
      hattrs, hperm, Backing.walk]
  | peripheral hper =>
    obtain ⟨w, hw, hva⟩ := hper
    obtain ⟨m, hm, hbase, hsize⟩ := peripherals_spec b w hw
    rw [← hbase, ← hsize] at hva
    obtain ⟨hattrs, hpa, -⟩ := deviceCalls_spec b m hm
    have hok := bootCalls_ok b m (List.mem_cons_of_mem _ (List.mem_cons_of_mem _ hm))
    have hdesc := processTable_of_call (p := p) (List.mem_cons_of_mem _ hm) hva pgd
    have haddr : m.va.toNat + (va.toNat - m.va.toNat) = va.toNat := by omega
    have hperm : (isSection pdeDevice && allows pdeDevice privileged x) =
        (privileged && x != .fetch) := by
      cases privileged <;> cases x <;> decide
    rw [walk_of_call hok (by rw [hattrs]; decide) hva hdesc privileged x, hattrs, hpa, haddr,
      hperm, Backing.walk]
  | fault h1 h2 h3 =>
    refine walk_of_zero (processTable_of_none (fun hw => h1 ((inWindow_iff va).1 hw)) ?_ pgd)
      privileged x
    intro m hm hva
    rcases List.mem_cons.1 hm with rfl | hm
    · rw [va_kernelCall] at hva
      exact h2 hva
    · obtain ⟨-, -, hper⟩ := deviceCalls_spec b m hm
      exact h3 ⟨_, hper, hva⟩

/-- Every address has a backing. -/
lemma addressSpace_total (b : Board) (p : Pid) (va : Word) : ∃ bk, AddressSpace b p va bk := by
  by_cases h1 : 0x40000000 ≤ va.toNat ∧ va.toNat < 0x40100000
  · exact ⟨_, .window h1.1 h1.2⟩
  by_cases h2 : 0xC0000000 ≤ va.toNat ∧ va.toNat < 0xC0000000 + b.ramSize.toNat
  · exact ⟨_, .ram h2.1 h2.2⟩
  by_cases h3 : b.Peripheral va
  · exact ⟨_, .peripheral h3⟩
  · exact ⟨_, .fault h1 h2 h3⟩

/-- What user code reaches. -/
lemma walk_user {pgd : Table} {x : Access} {pa : ℕ}
    (h : (processTable b p pgd).walk va false x = some pa) : (b.slot p).Mem pa := by
  obtain ⟨bk, hbk⟩ := addressSpace_total b p va
  rw [walk_process hbk] at h
  cases hbk with
  | window h1 h2 =>
    obtain rfl := Option.some.inj h
    refine ⟨Nat.le_add_right _ _, ?_⟩
    have hsize : (b.slot p).size = 0x100000 := toNat_userRegionSize
    rw [hsize]
    show (b.slotBase p).toNat + _ < (b.slotBase p).toNat + _
    omega
  | ram => exact absurd h (by simp [Backing.walk])
  | peripheral => exact absurd h (by simp [Backing.walk])
  | fault => exact absurd h (by simp [Backing.walk])

end Walk

/-- **The address space of a process.**  On both boards, every process and every virtual
address: the table translates as the specification says; user code reaches the bytes of the
own slot and no others; the slots are disjoint; no mapping call overwrites an entry of
another. -/
theorem address_space_spec (b : Board) (p : Pid) (pgd : Table) :
    (∀ va, (∃ bk, AddressSpace b p va bk) ∧ ∀ bk, AddressSpace b p va bk → ∀ privileged x,
        (processTable b p pgd).walk va privileged x = bk.walk privileged x) ∧
      (∀ pa, (∃ va x, (processTable b p pgd).walk va false x = some pa) ↔ (b.slot p).Mem pa) ∧
      (∀ q, q ≠ p → (b.slot q).Apart (b.slot p)) ∧
      (windowCall b p :: bootCalls b).Pairwise MapCall.Apart := by
  refine ⟨fun va => ⟨addressSpace_total b p va, fun bk hbk privileged x => ?_⟩, fun pa => ?_,
    fun q hq => b.slot_apart hq, calls_apart b p⟩
  · exact walk_process hbk pgd privileged x
  · constructor
    · rintro ⟨va, x, h⟩
      exact walk_user h
    · rintro ⟨h1, h2⟩
      have hsize : (b.slot p).size = 0x100000 := toNat_userRegionSize
      have hbase : (b.slot p).base = (b.slotBase p).toNat := rfl
      rw [hsize, hbase] at h2
      rw [hbase] at h1
      have hva : (BitVec.ofNat 32 (0x40000000 + (pa - (b.slotBase p).toNat))).toNat =
          0x40000000 + (pa - (b.slotBase p).toNat) := by
        rw [BitVec.toNat_ofNat]
        exact Nat.mod_eq_of_lt (by omega)
      refine ⟨BitVec.ofNat 32 (0x40000000 + (pa - (b.slotBase p).toNat)), .read, ?_⟩
      rw [walk_process (.window (by omega) (by omega)) pgd false .read, Backing.walk, hva]
      refine congrArg some ?_
      omega

/-! ### Any range -/

namespace MapCall

variable {m m' : MapCall}

/-- The attributes are in the low 20 bits... -/
lemma attrs_and_low (h : m.attrs.toNat < 2 ^ 20) : m.attrs &&& 0x000FFFFF#32 = m.attrs := by
  apply BitVec.eq_of_toNat_eq
  rw [BitVec.toNat_and]
  exact (Nat.and_two_pow_sub_one_eq_mod m.attrs.toNat 20).trans (Nat.mod_eq_of_lt h)

/-- ...and do not reach into the address. -/
lemma attrs_and_high (h : m.attrs.toNat < 2 ^ 20) : m.attrs &&& 0xFFF00000#32 = 0#32 := by
  have hmask : 0x000FFFFF#32 &&& 0xFFF00000#32 = 0#32 := by decide
  rw [← attrs_and_low h, BitVec.and_assoc, hmask, BitVec.and_zero]

/-- A call writes entries of the table only. -/
lemma Ok.covers_lt (h : m.Ok) {i : ℕ} (hi : m.Covers i) : i < pgdEntries := by
  have h1 := h.first_mul
  have h2 := h.count_mul
  have h3 := h.va_fits
  obtain ⟨-, hlt⟩ := hi
  rw [pgdEntries]
  omega

/-- Calls on disjoint virtual ranges write different entries. -/
lemma Ok.apart_of_disjoint (h : m.Ok) (h' : m'.Ok)
    (hdisj : m.va.toNat + m.size.toNat ≤ m'.va.toNat ∨ m'.va.toNat + m'.size.toNat ≤ m.va.toNat) :
    m.Apart m' := by
  have h1 := h.first_mul
  have h2 := h.count_mul
  have h3 := h'.first_mul
  have h4 := h'.count_mul
  rw [Apart]
  omega

/-- Calls that write different entries commute. -/
lemma Apart.run_comm (hapart : m.Apart m') (h : m.Ok) (h' : m'.Ok) (t : Table) :
    m.run (m'.run t) = m'.run (m.run t) := by
  ext i : 1
  rw [h.run_apply, h'.run_apply, h'.run_apply, h.run_apply]
  by_cases hi : m.Covers i
  · rw [if_pos hi, if_pos hi, if_neg (hapart.not_covers hi)]
  · rw [if_neg hi, if_neg hi]

end MapCall

/-- **`pgtable_map_range`.**  For every table and every range of whole megabytes: an address of
the range is translated to the address at the same distance from `pa`, with exactly the given
attributes; all other entries are unchanged, and there is no write outside of the table; and
calls on disjoint virtual ranges commute. -/
theorem map_range_spec (t : Table) {m : MapCall} (h : m.Ok) (ha : m.attrs.toNat < 2 ^ 20) :
    (∀ x : Word, m.va.toNat ≤ x.toNat → x.toNat < m.va.toNat + m.size.toNat →
      ((m.run t (x >>> 20).toNat &&& 0xFFF00000#32) ||| (x &&& 0x000FFFFF#32)).toNat =
          m.pa.toNat + (x.toNat - m.va.toNat) ∧
        m.run t (x >>> 20).toNat &&& 0x000FFFFF#32 = m.attrs ∧
        ∀ privileged access, (m.run t).walk x privileged access =
          if isSection m.attrs && allows m.attrs privileged access then
            some (m.pa.toNat + (x.toNat - m.va.toNat)) else none) ∧
      (∀ i, ¬ m.Covers i → m.run t i = t i) ∧
      (∀ i, m.Covers i → i < pgdEntries) ∧
      ∀ m' : MapCall, m'.Ok → m'.attrs.toNat < 2 ^ 20 →
        (m.va.toNat + m.size.toNat ≤ m'.va.toNat ∨ m'.va.toNat + m'.size.toNat ≤ m.va.toNat) →
        m.run (m'.run t) = m'.run (m.run t) := by
  refine ⟨?_, ?_, fun i hi => h.covers_lt hi, ?_⟩
  · intro x h1 h2
    have hcov := (h.covers_iff x).2 ⟨h1, h2⟩
    have hdesc : m.run t (x >>> 20).toNat = sectionDesc (m.frame (x >>> 20).toNat) m.attrs := by
      rw [h.run_apply, if_pos hcov]
    have hhigh := MapCall.attrs_and_high ha
    refine ⟨?_, ?_, fun privileged access =>
      walk_of_call h hhigh ⟨h1, h2⟩ hdesc privileged access⟩
    · rw [hdesc, section_output (h.frame_aligned hcov) hhigh]
      exact h.frame_add ⟨h1, h2⟩
    · rw [hdesc, sectionDesc_and _ _ (by decide), MapCall.attrs_and_low ha]
  · intro i hi
    rw [h.run_apply, if_neg hi]
  · intro m' h' _ hdisj
    exact (h.apart_of_disjoint h' hdisj).run_comm h h' t

/-- The last megabyte of the address space, mapped to the one before it. -/
theorem map_range_spec_top :
    (MapCall.run ⟨0xFFF00000#32, 0xFFE00000#32, 0x100000#32, pdeDevice⟩ fun _ => 0#32).walk
      0xFFFFFFFF#32 true .read = some 0xFFEFFFFF := by
  have hok : MapCall.Ok ⟨0xFFF00000#32, 0xFFE00000#32, 0x100000#32, pdeDevice⟩ := by
    constructor <;> decide
  have hwalk := ((map_range_spec (fun _ => 0#32) hok (by decide)).1 0xFFFFFFFF#32 (by decide)
    (by decide)).2.2 true .read
  exact hwalk.trans (by decide)

end RingNova
