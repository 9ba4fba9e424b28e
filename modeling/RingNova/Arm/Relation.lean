/-
# How the ARM machine represents the processes

`ArmRel L c ph a m` says that the ARM machine `a`, working for process `c` in phase `ph`,
represents the process-level machine `m`: every process's memory is its slot, the registers
of the current process are in the CPU or in the exception frame on its kernel stack, and
the registers of every other process are in the exception frame on its own kernel stack,
below which `context_switch` finds what it needs to continue (`Suspended`).

The frames are fixed by the phase: 16 words after an interrupt, 15 words after an `svc`,
nothing on the SVC stack after a fault, whose frame is on the stack of the abort or the
undefined mode and is never removed (`ModeStacks`).
-/
import RingNova.Arm.Machine
import RingNova.System.Parallel

namespace RingNova

/-- The size of the exception frame on the kernel stack. -/
def Phase.frameSize : Phase → ℕ
  | .user => 0
  | .irq => 64
  | .svc => 60
  | .fault => 0

lemma Phase.frameSize_le (ph : Phase) : ph.frameSize ≤ 64 := by
  cases ph <;> decide

/-- The address of the exception frame of a process. -/
def Layout.frameAddr {b : Board} (L : Layout b) (p : Pid) (ph : Phase) : ℕ :=
  (L.stack p).base + (8192 - ph.frameSize)

section

variable {b : Board} (L : Layout b)

/-- The exception frame of a process holds its registers. -/
def Saved (p : Pid) (mem : Memory) (u : UserRegs) : Phase → Prop
  | .irq => (∀ i : Fin 13, mem.load32 (L.frameAddr p .irq + 4 * i) = u.r i) ∧
      mem.load32 (L.frameAddr p .irq + 56) = u.pc ∧ mem.load32 (L.frameAddr p .irq + 60) = u.cpsr
  | .svc => ArmMachine.contextAt mem (L.frameAddr p .svc) = ⟨u.cpsr, u.r, u.pc⟩
  | _ => True

/-- The address of the frame of `context_switch`, for a process whose frames above it take
some space. -/
def Layout.resumeAddr (p : Pid) (above : ℕ) : ℕ := (L.stack p).base + (8192 - (above + 36))

/-- `context_switch` finds on the stack of a process what it needs to continue at a site. -/
inductive Waits (p : Pid) (a : ArmMachine) : Cont → Prop
  /-- The frame of `process_build_initial_frame`. -/
  | first (hsp : (a.ctx p).spSvc = L.kstackTop p - 100#32)
    (hlr : a.mem.load32 (L.resumeAddr p 64 + 32) = L.retFromFirstEntry) : Waits p a .firstEntry
  /-- The frame of an earlier call of `context_switch`, below the frames of C functions. -/
  | inC {f : Frames} {above : ℕ} (hf : a.frames p = some f)
    (habove : above = f.cont.phase.frameSize + f.frames.length) (hfit : above + 36 ≤ 8192)
    (hsp : (a.ctx p).spSvc = L.kstackTop p - BitVec.ofNat 32 (above + 36))
    (hfsp : f.sp = L.kstackTop p - BitVec.ofNat 32 above)
    (hcallee : ∀ i : Fin 8, a.mem.load32 (L.resumeAddr p above + 4 * i) = f.callee i)
    (hlr : a.mem.load32 (L.resumeAddr p above + 32) = L.switchReturn)
    (hframes : a.mem.bytes ((L.stack p).base + (8192 - above)) f.frames.length = f.frames) :
    Waits p a f.cont

/-- A process that does not run, and will continue at a site. -/
structure Suspended (p : Pid) (a : ArmMachine) (u : UserRegs) (cont : Cont) : Prop where
  saved : Saved L p a.mem u cont.phase
  waits : Waits L p a cont
  spUsr : (a.ctx p).spUsr = u.sp
  lrUsr : (a.ctx p).lrUsr = u.lr

/-- The abort and undefined mode stacks hold a frame for each of at most `n` faults. -/
def ModeStacks (n : ℕ) (cpu : Cpu) : Prop :=
  ∃ i j, cpu.spAbt = L.abtStackTop - BitVec.ofNat 32 (60 * i) ∧
    cpu.spUnd = L.undStackTop - BitVec.ofNat 32 (60 * j) ∧ i + j ≤ n

/-- How many processes have been killed by a fault. -/
def ProcMachine.faults (m : ProcMachine) : ℕ :=
  (Finset.univ.filter fun p => m.cont p = .faultTail).card

/-- The faults whose frames are on the mode stacks. -/
def ProcMachine.faultsAt (m : ProcMachine) : Phase → ℕ
  | .fault => m.faults + 1
  | _ => m.faults

/-- Everything but the registers of the current process. -/
structure Background (c : Pid) (a : ArmMachine) (m : ProcMachine) : Prop where
  tables : ∀ p, UserTable b p (Table.ofMemory a.mem (L.table p).base)
  umem : ∀ p va, inWindow va = true → a.mem (slotAddr b p va) = m.umem p va
  mode : ∀ p, (m.regs p).cpsr &&& privBits = 0x10#32
  others : ∀ p, p ≠ c → m.cont p ≠ .faultTail → Suspended L p a (m.regs p) (m.cont p)

/-- The ARM machine represents the process-level one. -/
structure ArmRel (c : Pid) (ph : Phase) (a : ArmMachine) (m : ProcMachine) : Prop where
  background : Background L c a m
  ttbr0 : a.cpu.ttbr0 = ttbr0For (initPcb L c).pgdPa
  modeStacks : ModeStacks L (m.faultsAt ph) a.cpu
  spSvc : a.cpu.spSvc = L.kstackTop c - BitVec.ofNat 32 ph.frameSize
  user : ph = .user → a.cpu.userRegs = m.regs c
  kernel : ph ≠ .user → a.cpu.cpsr = svcMode
  banked : ph ≠ .fault → a.cpu.spUsr = (m.regs c).sp ∧ a.cpu.lrUsr = (m.regs c).lr
  saved : Saved L c a.mem (m.regs c) ph

/-- The memory of every process but `c`'s kernel stack is the same. -/
structure Undisturbed (c : Pid) (mem mem' : Memory) : Prop where
  tables : ∀ p, Memory.Agree (L.table p) mem mem'
  slots : ∀ p, Memory.Agree (b.slot p) mem mem'
  kstacks : ∀ p, p ≠ c → Memory.Agree (L.stack p) mem mem'

end

/-! ### Which memory each part depends on -/

section Congr

variable {b : Board} {L : Layout b} {c p : Pid} {a a' : ArmMachine} {m m' : ProcMachine}
  {mem mem' : Memory} {u : UserRegs} {ph : Phase} {cont : Cont}

lemma contextAt_congr {x : ℕ} (h : Memory.Agree ⟨x, 60⟩ mem mem') :
    ArmMachine.contextAt mem' x = ArmMachine.contextAt mem x := by
  have hw : ∀ k, k + 4 ≤ 60 → mem'.load32 (x + k) = mem.load32 (x + k) := fun k hk => by
    refine h.load32 ⟨?_, ?_⟩
    · simp only
      omega
    · simp only
      omega
  have hr : ∀ i : Fin 13, mem'.load32 (x + 4 + 4 * i) = mem.load32 (x + 4 + 4 * i) := fun i => by
    have := i.isLt
    rw [show x + 4 + 4 * (i : ℕ) = x + (4 + 4 * i) by omega]
    exact hw _ (by omega)
  have h0 : mem'.load32 x = mem.load32 x := hw 0 (by omega)
  simp only [ArmMachine.contextAt, h0, hr, hw 56 (by omega)]

lemma Saved.congr (h : Saved L p mem u ph)
    (hm : Memory.Agree ⟨L.frameAddr p ph, ph.frameSize⟩ mem mem') : Saved L p mem' u ph := by
  cases ph with
  | user => trivial
  | fault => trivial
  | irq =>
    have hw : ∀ k, k + 4 ≤ 64 →
        mem'.load32 (L.frameAddr p .irq + k) = mem.load32 (L.frameAddr p .irq + k) := fun k hk => by
      refine hm.load32 ⟨?_, ?_⟩
      · simp only
        omega
      · simp only [Phase.frameSize]
        omega
    obtain ⟨h1, h2, h3⟩ := h
    refine ⟨?_, (hw 56 (by omega)).trans h2, (hw 60 (by omega)).trans h3⟩
    intro i
    have := i.isLt
    exact (hw (4 * i) (by omega)).trans (h1 i)
  | svc => exact (contextAt_congr hm).trans h

/-- The frame is at the top of the stack. -/
lemma frame_within_stack (L : Layout b) (p : Pid) (ph : Phase) :
    Region.Within ⟨L.frameAddr p ph, ph.frameSize⟩ (L.stack p) := by
  cases ph <;> simp only [Region.Within, Layout.frameAddr, Layout.stack, Phase.frameSize] <;> omega

lemma Waits.congr (h : Waits L p a cont) (hm : Memory.Agree (L.stack p) a.mem a'.mem)
    (hctx : a'.ctx p = a.ctx p) (hf : a'.frames p = a.frames p) : Waits L p a' cont := by
  have hw : ∀ above k, above + 36 ≤ 8192 → k + 4 ≤ 36 →
      a'.mem.load32 (L.resumeAddr p above + k) = a.mem.load32 (L.resumeAddr p above + k) :=
    fun above k hfit hk => by
      refine hm.load32 ⟨?_, ?_⟩
      · simp only [Layout.resumeAddr]
        omega
      · have hs : (L.stack p).size = 8192 := rfl
        simp only [Layout.resumeAddr, hs]
        omega
  cases h with
  | first hsp hlr =>
    exact .first (by rw [hctx, hsp]) ((hw 64 32 (by omega) (by omega)).trans hlr)
  | inC hf' habove hfit hsp hfsp hcallee hlr hframes =>
    refine .inC (hf.trans hf') habove hfit (by rw [hctx, hsp]) hfsp (fun i => ?_)
      ((hw _ 32 hfit (by omega)).trans hlr) ?_
    · have := i.isLt
      exact (hw _ (4 * i) hfit (by omega)).trans (hcallee i)
    · refine (Memory.bytes_congr (hm.mono ?_)).symm.trans hframes
      have hs : (L.stack p).size = 8192 := rfl
      simp only [Region.Within, hs]
      omega

lemma Suspended.congr (h : Suspended L p a u cont) (hm : Memory.Agree (L.stack p) a.mem a'.mem)
    (hctx : a'.ctx p = a.ctx p) (hf : a'.frames p = a.frames p) : Suspended L p a' u cont :=
  ⟨h.saved.congr (hm.mono (frame_within_stack L p _)), h.waits.congr hm hctx hf,
    by rw [hctx]; exact h.spUsr, by rw [hctx]; exact h.lrUsr⟩

lemma UserTable.congr (h : UserTable b p (Table.ofMemory mem (L.table p).base))
    (hm : Memory.Agree (L.table p) mem mem') :
    UserTable b p (Table.ofMemory mem' (L.table p).base) := by
  have hw : ∀ i < pgdEntries, Table.ofMemory mem' (L.table p).base i =
      Table.ofMemory mem (L.table p).base i := fun i hi => by
    refine hm.load32 ⟨?_, ?_⟩
    · simp only
      omega
    · have hs : (L.table p).size = 16384 := rfl
      simp only [pgdEntries] at hi
      simp only [hs]
      omega
  constructor
  · rw [hw _ (by decide)]
    exact h.window
  · intro i hi hne
    rw [hw i hi]
    exact h.others i hi hne

lemma Undisturbed.refl (L : Layout b) (c : Pid) (mem : Memory) : Undisturbed L c mem mem :=
  ⟨fun _ => Memory.Agree.refl _ _, fun _ => Memory.Agree.refl _ _, fun _ _ =>
    Memory.Agree.refl _ _⟩

/-- A write to the kernel stack of the current process. -/
lemma undisturbed_of_stack (h : Memory.Within (L.stack c) mem mem') : Undisturbed L c mem mem' := by
  have hap := L.objectsApart
  refine ⟨fun p => h.agree ?_, fun p => h.agree ?_, fun p hp => h.agree (L.stack_apart hp)⟩
  · exact hap.tables_stacks.mono (L.table_within p) (L.stack_within c)
  · exact hap.slots_stacks.mono (b.slot_within_slots p) (L.stack_within c)

/-- A write to the abort-mode stack. -/
lemma undisturbed_of_abt (h : Memory.Within L.abtStack mem mem') : Undisturbed L c mem mem' := by
  have hap := L.objectsApart
  have hself : L.abtStack.Within L.abtStack := ⟨le_refl _, le_refl _⟩
  refine ⟨fun p => h.agree ?_, fun p => h.agree ?_, fun p _ => h.agree ?_⟩
  · exact hap.tables_abt.mono (L.table_within p) hself
  · exact hap.slots_abt.mono (b.slot_within_slots p) hself
  · exact hap.stacks_abt.mono (L.stack_within p) hself

/-- A write to the undefined-mode stack. -/
lemma undisturbed_of_und (h : Memory.Within L.undStack mem mem') : Undisturbed L c mem mem' := by
  have hap := L.objectsApart
  have hself : L.undStack.Within L.undStack := ⟨le_refl _, le_refl _⟩
  refine ⟨fun p => h.agree ?_, fun p => h.agree ?_, fun p _ => h.agree ?_⟩
  · exact hap.tables_und.mono (L.table_within p) hself
  · exact hap.slots_und.mono (b.slot_within_slots p) hself
  · exact hap.stacks_und.mono (L.stack_within p) hself

/-- The background survives what only concerns the current process. -/
lemma Background.congr (h : Background L c a m) (hm : Undisturbed L c a.mem a'.mem)
    (hctx : ∀ p, p ≠ c → a'.ctx p = a.ctx p) (hf : ∀ p, p ≠ c → a'.frames p = a.frames p)
    (humem : m'.umem = m.umem) (hregs : ∀ p, p ≠ c → m'.regs p = m.regs p)
    (hmode : (m'.regs c).cpsr &&& privBits = 0x10#32)
    (hcont : ∀ p, p ≠ c → m'.cont p = m.cont p) : Background L c a' m' where
  tables p := (h.tables p).congr (hm.tables p)
  umem p va hw := by
    rw [humem, ← hm.slots p _ (slotAddr_mem p hw)]
    exact h.umem p va hw
  mode p := by
    by_cases hp : p = c
    · exact hp ▸ hmode
    · rw [hregs p hp]
      exact h.mode p
  others p hp hc := by
    rw [hregs p hp, hcont p hp]
    rw [hcont p hp] at hc
    exact (h.others p hp hc).congr (hm.kstacks p hp) (hctx p hp) (hf p hp)

/-- A write through the window of the current process. -/
lemma Background.store (h : Background L c a m) {va : Word} (hw : inWindow va = true) (ch : Byte) :
    Background L c { a with mem := a.mem.store8 (slotAddr b c va) ch } (m.setByte c va ch) := by
  have hin : Memory.Within (b.slot c) a.mem (a.mem.store8 (slotAddr b c va) ch) := by
    refine (Memory.store8_within _ _ _).mono ?_
    obtain ⟨h1, h2⟩ := slotAddr_mem (b := b) c hw
    exact ⟨h1, h2⟩
  have hap := L.objectsApart
  have hslot := b.slot_within_slots c
  refine ⟨fun p => (h.tables p).congr (hin.agree ?_), fun p va' hw' => ?_, h.mode, fun p hp hc =>
    (h.others p hp hc).congr (hin.agree ?_) rfl rfl⟩
  · exact (hap.slots_tables.mono hslot (L.table_within p)).symm
  · by_cases hp : p = c
    · subst hp
      by_cases hva : va' = va
      · subst hva
        simp [Memory.store8, ProcMachine.setByte]
      · have hne : slotAddr b p va' ≠ slotAddr b p va := fun he => hva (slotAddr_inj hw' hw he)
        simp only [Memory.store8, ProcMachine.setByte, Function.update_self,
          Function.update_of_ne hne, Function.update_of_ne hva]
        exact h.umem p va' hw'
    · have hsame := hin.agree (b.slot_apart hp) _ (slotAddr_mem p hw')
      simp only [ProcMachine.setByte, Function.update_of_ne hp]
      exact hsame.symm.trans (h.umem p va' hw')
  · exact (hap.slots_stacks.mono hslot (L.stack_within p)).symm

end Congr

end RingNova
