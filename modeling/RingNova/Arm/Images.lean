/-
# Loading the user images

`process_init_all` as a whole: the process table, the page tables, the first stack frames and
the user images, from any state of the globals and of memory.  Each round clears the slot of
its process and copies the image into it, byte by byte and through the high alias.

The images may have any contents, and any size up to that of a slot.  They are stored outside of
what the loop writes (`Layout.ImagesPlaced`), so that no round destroys an image that is still
to be copied; and no round reaches into the slot of another process, because slots are as far
apart as they are long.
-/
import RingNova.Arm.Boot

namespace RingNova

/-! ### `process_init_all` -/

/-- What `process_init_all` works on: the globals, memory, and the `ctx` part of the PCBs. -/
structure InitState where
  k : Kernel numProcesses
  mem : Memory
  ctx : Pid → ProcContext

section

variable {b : Board} (L : Layout b)

/-- One round of the loop of `process_init_all`. -/
def processInitOne (s : InitState) (i : Pid) : InitState where
  k := Kernel.printf { s.k with processes := Function.update s.k.processes i (initPcb L i) }
    ("[PROC] pid=%u name=%s pgd=0x%08x " ++
      "kstack=0x%08x user_pa=0x%08x img=%u bytes\n")
    [.num (initPcb L i).pid, .str (initPcb L i).name, .num (initPcb L i).pgd,
      .num (initPcb L i).kstackBase, .num (initPcb L i).userPhysBase,
      .num (L.imgEnd i - L.imgStart i)]
  mem := initProcess L s.mem i
  ctx := Function.update s.ctx i (initialContext L i)

/-- `process_init_all`. -/
def processInitAll (s : InitState) : InitState :=
  let s := (List.finRange numProcesses).foldl (processInitOne L) s
  { s with k := { s.k with current := some 0 } }

/-! ### Images -/

/-- Where an image is stored. -/
def Layout.imageSource (p : Pid) : Region :=
  ⟨b.pa (L.imgStart p), (L.imgEnd p - L.imgStart p).toNat⟩

/-- The bytes of an image. -/
def Layout.image (m : Memory) (p : Pid) : List Byte :=
  m.bytes (L.imageSource p).base (L.imageSource p).size

/-- The images are stored outside of the user slots, and, as the linker sees to it, outside of
the page tables and the kernel stacks. -/
structure Layout.ImagesPlaced : Prop where
  fits : ∀ p, (L.imageSource p).base + (L.imageSource p).size ≤ 2 ^ 32
  apart_slots : ∀ p q, (L.imageSource p).Apart (b.slot q)
  apart_tables : ∀ p q, (L.imageSource p).Apart (L.table q)
  apart_stacks : ∀ p q, (L.imageSource p).Apart (L.stack q)

end

section

variable {b : Board} {L : Layout b} {p q : Pid} {mem mem' : Memory}

@[simp] lemma length_image (L : Layout b) (mem : Memory) (p : Pid) :
    (L.image mem p).length = (L.imageSource p).size :=
  Memory.length_bytes _ _ _

lemma getElem_image (L : Layout b) (mem : Memory) (p : Pid) {i : ℕ}
    (h : i < (L.image mem p).length) : (L.image mem p)[i] = mem ((L.imageSource p).base + i) :=
  Memory.getElem_bytes mem h

/-- A slot holds an image and then zeros. -/
def HoldsImage (L : Layout b) (p : Pid) (mem mem' : Memory) : Prop :=
  mem'.bytes (b.slot p).base userRegionSize.toNat =
    L.image mem p ++ List.replicate (userRegionSize.toNat - (L.imageSource p).size) 0#8

lemma HoldsImage.congr {mem'' : Memory} (h : HoldsImage L p mem mem')
    (hm : Memory.Agree (b.slot p) mem' mem'') : HoldsImage L p mem mem'' := by
  have heq : mem'.bytes (b.slot p).base userRegionSize.toNat =
      mem''.bytes (b.slot p).base userRegionSize.toNat := Memory.bytes_congr hm
  rw [HoldsImage, ← heq]
  exact h

/-- `kmemset` clears a slot. -/
lemma kmemset_slot (b : Board) (mem : Memory) (p : Pid) :
    kmemset b mem (b.slotBase p + b.physOffset) 0#8 userRegionSize =
      mem.overwrite (b.slot p) fun _ => 0#8 :=
  Memory.foldl_store8_eq (fun _ hi => pa_slot b p hi) fun _ _ _ _ => rfl

/-- `kmemcpy` copies an image to a slot. -/
lemma kmemcpy_slot (hL : L.ImagesPlaced) (mem : Memory) (p : Pid) :
    kmemcpy b mem (b.slotBase p + b.physOffset) (L.imgStart p) (L.imgEnd p - L.imgStart p) =
      mem.overwrite ⟨(b.slot p).base, (L.imageSource p).size⟩
        fun x => mem ((L.imageSource p).base + (x - (b.slot p).base)) := by
  have hfit : (L.imageSource p).size ≤ userRegionSize.toNat := L.images_fit p
  have hsrc : ∀ i < (L.imageSource p).size,
      b.pa (L.imgStart p + BitVec.ofNat 32 i) = (L.imageSource p).base + i := by
    intro i hi
    have hle := hL.fits p
    exact b.pa_add _ (Nat.lt_of_lt_of_le (Nat.add_lt_add_left hi _) hle)
  have hcopy := Memory.foldl_store8_eq (m := mem) (a := (b.slot p).base)
    (n := (L.imageSource p).size) (v := fun m i => m (b.pa (L.imgStart p + BitVec.ofNat 32 i)))
    (fun i hi => pa_slot b p (Nat.lt_of_lt_of_le hi hfit)) ?_
  · refine hcopy.trans ?_
    funext x
    by_cases hx : Region.Mem ⟨(b.slot p).base, (L.imageSource p).size⟩ x
    · rw [Memory.overwrite_of_mem _ _ hx, Memory.overwrite_of_mem _ _ hx, hsrc]
      simp only [Region.Mem] at hx
      omega
    · rw [Memory.overwrite, Memory.overwrite, if_neg hx, if_neg hx]
  · -- the image is not in the slot
    intro m' hm' i hi
    rw [hsrc i hi]
    refine hm' _ (Region.Apart.not_mem ?_ ⟨Nat.le_add_right _ _, Nat.add_lt_add_left hi _⟩)
    exact (hL.apart_slots p p).mono ⟨le_refl _, le_refl _⟩ ⟨le_refl _, Nat.add_le_add_left hfit _⟩

/-- **One image.** -/
lemma holdsImage_loadImage (hL : L.ImagesPlaced) (mem : Memory) (p : Pid) :
    HoldsImage L p mem (loadImage L mem p) := by
  have hfit : (L.imageSource p).size ≤ userRegionSize.toNat := L.images_fit p
  rw [HoldsImage, loadImage, kmemset_slot, kmemcpy_slot hL]
  apply List.ext_getElem
  · rw [Memory.length_bytes, List.length_append, length_image, List.length_replicate]
    omega
  · intro i hi hi'
    rw [Memory.length_bytes] at hi
    have hslot : (b.slot p).Mem ((b.slot p).base + i) :=
      ⟨Nat.le_add_right _ _, Nat.add_lt_add_left hi _⟩
    rw [Memory.getElem_bytes]
    by_cases him : i < (L.imageSource p).size
    · have hcopied : Region.Mem ⟨(b.slot p).base, (L.imageSource p).size⟩ ((b.slot p).base + i) :=
        ⟨Nat.le_add_right _ _, Nat.add_lt_add_left him _⟩
      rw [List.getElem_append_left (by rwa [length_image]), getElem_image,
        Memory.overwrite_of_mem _ _ hcopied, Nat.add_sub_cancel_left]
      refine Memory.overwrite_within mem _ _ _ ((hL.apart_slots p p).not_mem ?_)
      exact ⟨Nat.le_add_right _ _, Nat.add_lt_add_left him _⟩
    · have hzero : ¬ Region.Mem ⟨(b.slot p).base, (L.imageSource p).size⟩ ((b.slot p).base + i) :=
        fun h => him (Nat.lt_of_add_lt_add_left h.2)
      rw [List.getElem_append_right (by rw [length_image]; omega), List.getElem_replicate,
        Memory.overwrite, if_neg hzero, Memory.overwrite_of_mem _ _ hslot]

/-! ### All images -/

/-- A round leaves the image of another process where it is. -/
lemma HoldsImage.initProcess (h : HoldsImage L p mem mem') (hpq : p ≠ q) :
    HoldsImage L p mem (initProcess L mem' q) := by
  have hap := L.objectsApart
  refine h.congr (initProcess_agree L mem' q (b.slot_apart hpq) ?_ ?_)
  · exact hap.slots_tables.mono (b.slot_within_slots p) (L.table_within q)
  · exact hap.slots_stacks.mono (b.slot_within_slots p) (L.stack_within q)

/-- A round loads the image of its own process. -/
lemma holdsImage_initProcess (hL : L.ImagesPlaced) (mem : Memory) (p : Pid) :
    HoldsImage L p mem (initProcess L mem p) := by
  have hap := L.objectsApart
  refine (holdsImage_loadImage hL mem p).congr (loadImage_agree L mem p ?_ ?_)
  · exact hap.slots_tables.mono (b.slot_within_slots p) (L.table_within p)
  · exact hap.slots_stacks.mono (b.slot_within_slots p) (L.stack_within p)

/-- A round does not touch the sources. -/
lemma imageSource_initProcess (hL : L.ImagesPlaced) (mem : Memory) (p q : Pid) :
    Memory.Agree (L.imageSource p) mem (initProcess L mem q) :=
  initProcess_agree L mem q (hL.apart_slots p q) (hL.apart_tables p q) (hL.apart_stacks p q)

lemma image_congr (h : Memory.Agree (L.imageSource p) mem mem') :
    L.image mem' p = L.image mem p :=
  (Memory.bytes_congr h).symm

/-- The loop: what has been loaded stays, and what is to be loaded is still there. -/
lemma holdsImage_foldl (hL : L.ImagesPlaced) (l : List Pid)
    (hsrc : ∀ p, Memory.Agree (L.imageSource p) mem mem')
    (hdone : ∀ p, p ∉ l → HoldsImage L p mem mem') (p : Pid) :
    HoldsImage L p mem (l.foldl (initProcess L) mem') ∧
      Memory.Agree (L.imageSource p) mem (l.foldl (initProcess L) mem') := by
  induction l generalizing mem' with
  | nil => exact ⟨hdone p (by simp), hsrc p⟩
  | cons q l ih =>
    refine ih (fun p => (hsrc p).trans (imageSource_initProcess hL mem' p q)) ?_
    intro p hp
    by_cases hpq : p = q
    · subst hpq
      have h := holdsImage_initProcess hL mem' p
      rw [HoldsImage, image_congr (hsrc p)] at h
      exact h
    · exact (hdone p (by simp [hpq, hp])).initProcess hpq

/-! ### The process table -/

lemma mem_foldl_processInitOne (L : Layout b) (l : List Pid) (s : InitState) :
    (l.foldl (processInitOne L) s).mem = l.foldl (initProcess L) s.mem := by
  induction l generalizing s with
  | nil => rfl
  | cons i l ih => exact ih (processInitOne L s i)

lemma mem_processInitAll (L : Layout b) (s : InitState) :
    (processInitAll L s).mem = (List.finRange numProcesses).foldl (initProcess L) s.mem :=
  mem_foldl_processInitOne L _ s

/-- `process_init_all` loads every image, and leaves the sources alone. -/
lemma holdsImage_processInitAll (hL : L.ImagesPlaced) (s : InitState) (p : Pid) :
    HoldsImage L p s.mem (processInitAll L s).mem ∧
      Memory.Agree (L.imageSource p) s.mem (processInitAll L s).mem := by
  rw [mem_processInitAll]
  exact holdsImage_foldl hL (List.finRange numProcesses)
    (fun p => Memory.Agree.refl (L.imageSource p) s.mem)
    (fun p hp => absurd (List.mem_finRange p) hp) p

/-- A PCB is built in the round of its process, and stays. -/
lemma processes_foldl_processInitOne (L : Layout b) (l : List Pid) (s : InitState)
    (hdone : ∀ p, p ∉ l → s.k.processes p = initPcb L p) (p : Pid) :
    (l.foldl (processInitOne L) s).k.processes p = initPcb L p := by
  induction l generalizing s with
  | nil => exact hdone p (by simp)
  | cons i l ih =>
    refine ih (processInitOne L s i) ?_
    intro p hp
    show Function.update s.k.processes i (initPcb L i) p = initPcb L p
    by_cases hpi : p = i
    · subst hpi
      exact Function.update_self _ _ _
    · rw [Function.update_of_ne hpi]
      exact hdone p (by simp [hpi, hp])

lemma processes_processInitAll (L : Layout b) (s : InitState) (p : Pid) :
    (processInitAll L s).k.processes p = initPcb L p :=
  processes_foldl_processInitOne L _ s (fun p hp => absurd (List.mem_finRange p) hp) p

/-- The page table, the kernel stack and the slot of a process, in physical memory. -/
def Pcb.regions (b : Board) (pcb : Pcb) : List Region :=
  [⟨pcb.pgdPa.toNat, pgdSize⟩, ⟨b.pa pcb.kstackBase, pcb.kstackSize.toNat⟩,
    ⟨pcb.userPhysBase.toNat, userRegionSize.toNat⟩]

lemma regions_initPcb (L : Layout b) (p : Pid) :
    (initPcb L p).regions b = [L.table p, L.stack p, b.slot p] := by
  have htable : (initPcb L p).pgdPa.toNat = (L.table p).base := L.pa_pgd p
  have hstack : b.pa (initPcb L p).kstackBase = (L.stack p).base := by
    have h := L.pa_below p (k := 8192) (le_refl _)
    rwa [Nat.sub_self, Nat.add_zero, Layout.kstackTop, kstackSize, BitVec.add_sub_cancel] at h
  rw [Pcb.regions, htable, hstack]
  rfl

/-- The regions of all processes are apart. -/
lemma regions_apart (L : Layout b) :
    ((List.finRange numProcesses).flatMap fun i => (initPcb L i).regions b).Pairwise
      Region.Apart := by
  have hap := L.objectsApart
  have htables : ∀ p q, (L.table p).Apart (L.stack q) := fun p q =>
    hap.tables_stacks.mono (L.table_within p) (L.stack_within q)
  have hslots : ∀ p q, (b.slot p).Apart (L.table q) ∧ (b.slot p).Apart (L.stack q) := fun p q =>
    ⟨hap.slots_tables.mono (b.slot_within_slots p) (L.table_within q),
      hap.slots_stacks.mono (b.slot_within_slots p) (L.stack_within q)⟩
  rw [List.pairwise_flatMap]
  constructor
  · intro p _
    rw [regions_initPcb]
    simp [htables p p, (hslots p p).1.symm, (hslots p p).2.symm]
  · refine (List.nodup_finRange numProcesses).imp ?_
    intro p q hpq
    rw [regions_initPcb, regions_initPcb]
    simp [L.table_apart hpq, L.stack_apart hpq, b.slot_apart hpq, htables p q, (htables q p).symm,
      (hslots q p).1.symm, (hslots q p).2.symm, hslots p q]

/-- **`process_init_all`.**  From any state, for images of any contents: every slot holds the
image of its process and then zeros, the images are where they were, and the process table
describes three processes whose page tables, kernel stacks and slots are apart. -/
theorem process_init_all_spec (L : Layout b) (hL : L.ImagesPlaced) (s : InitState) :
    (∀ i, (processInitAll L s).mem.bytes (b.slot i).base userRegionSize.toNat =
        L.image s.mem i ++ List.replicate (userRegionSize.toNat - (L.image s.mem i).length) 0#8) ∧
      (∀ i, L.image (processInitAll L s).mem i = L.image s.mem i) ∧
      (∀ i, ((processInitAll L s).k.processes i).pid = BitVec.ofNat 32 i ∧
        ((processInitAll L s).k.processes i).state = .ready ∧
        ((processInitAll L s).k.processes i).pgdPa =
          ((processInitAll L s).k.processes i).pgd - b.physOffset) ∧
      ((List.finRange numProcesses).flatMap fun i =>
        ((processInitAll L s).k.processes i).regions b).Pairwise Region.Apart := by
  have hloaded := holdsImage_processInitAll hL s
  simp only [processes_processInitAll]
  refine ⟨?_, ?_, ?_, regions_apart L⟩
  · intro i
    rw [length_image]
    exact (hloaded i).1
  · intro i
    exact image_congr (hloaded i).2
  · intro i
    exact ⟨rfl, rfl, rfl⟩

lemma imagesPlaced_qemuLayout : qemuLayout.ImagesPlaced where
  fits := by decide
  apart_slots := by decide
  apart_tables := by decide
  apart_stacks := by decide

/-- A slot on the QEMU board, with an image of 4096 bytes `0xFF`. -/
theorem process_init_all_spec_qemu :
    (processInitAll qemuLayout ⟨bootKernel qemuLayout, fun _ => 0xFF#8,
        initialContext qemuLayout⟩).mem.bytes (Board.qemu.slot 1).base userRegionSize.toNat =
      List.replicate 4096 0xFF#8 ++ List.replicate (userRegionSize.toNat - 4096) 0#8 := by
  have himage : qemuLayout.image (fun _ => 0xFF#8) 1 = List.replicate 4096 0xFF#8 := by
    have hsize : (qemuLayout.imageSource 1).size = 4096 := by decide
    rw [Layout.image, Memory.bytes, List.map_const', List.length_range, hsize]
  have h := (process_init_all_spec qemuLayout imagesPlaced_qemuLayout
    ⟨bootKernel qemuLayout, fun _ => 0xFF#8, initialContext qemuLayout⟩).1 1
  have hlen : (qemuLayout.image (fun _ => 0xFF#8) 1).length = 4096 := by
    rw [himage, List.length_replicate]
  refine h.trans (congrArg₂ (· ++ ·) himage ?_)
  exact congrArg (fun n => List.replicate (userRegionSize.toNat - n) 0#8) hlen

/-! ### At the first user instruction -/

end

end RingNova
