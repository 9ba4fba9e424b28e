/-
# `context_switch` on the memory of the kernel

The code of `context_switch.S` where the linker has put it.  The stores of the save side go to
the kernel stack and to the PCB of the previous process (`saveContext_kernel`), and the load side
finds what it reads in the PCB and on the stack of the next one (`restores_kernel`); with that,
`context_switch` does what `RingNova.Arm.Assembly` says.  The code keeps running across the write
to TTBR0 since it is seen through the kernel's alias.
-/
import RingNova.Arm.Stubs

namespace RingNova.Isa

section

variable {b : Board} {L : Layout b} {T : Text L} {c : Core} {m : KernelMem}

/-- Memory after the save side. -/
def savedMem (b : Board) (c : Core) (mem : Memory) : Memory :=
  (((stmfd b mem (c.sp .svc) (calleeWords c.r (c.lr .svc))).store32
    (b.pa (c.r 0 + ctxSpSvcOffset)) (c.sp .svc - BitVec.ofNat 32 36)).store32
    (b.pa (c.r 0 + ctxSpUsrOffset)) (c.sp .usr)).store32
    (b.pa (c.r 0 + ctxLrUsrOffset)) (c.lr .usr)

/-- The save side stores to the stack and to the PCB. -/
lemma saveContext_kernel (hstack : Free T (c.sp .svc - BitVec.ofNat 32 36) 36)
    (hpcb : Free T (c.r 0) sizeofProcess) (m : KernelMem) :
    saveContext (kernelBus T) c m = some { m with mem := savedMem b c m.mem } := by
  have hpush : (kernelBus T).stores m true (c.sp .svc - 36#32) (calleeWords c.r (c.lr .svc)) =
      some { m with mem := stmfd b m.mem (c.sp .svc) (calleeWords c.r (c.lr .svc)) } :=
    stores_kernel hstack m
  have hword : ∀ k, k + 4 ≤ 112 → k % 4 = 0 → ∀ (m : KernelMem) (w : Word),
      (kernelBus T).store m true (c.r 0 + BitVec.ofNat 32 k) w =
        some { m with mem := m.mem.store32 (b.pa (c.r 0 + BitVec.ofNat 32 k)) w } := by
    intro k hk hk4
    have hsize : sizeofProcess = 112 := rfl
    exact store_kernel ((hpcb.add (k := k) (by omega) hk4).mono (by omega))
  rw [saveContext, hpush]
  simp only [Option.bind_eq_bind, Option.bind_some, ctxSpSvcOffset, ctxSpUsrOffset, ctxLrUsrOffset,
    hword 52 (by omega) rfl, hword 64 (by omega) rfl, hword 68 (by omega) rfl, savedMem]

/-- The words of a process that has switched away, in memory. -/
def keptContext (b : Board) (mem : Memory) (next : Word) : Context where
  pgdPa := mem.load32 (b.pa (next + procPgdPaOffset))
  spSvc := mem.load32 (b.pa (next + ctxSpSvcOffset))
  spUsr := mem.load32 (b.pa (next + ctxSpUsrOffset))
  lrUsr := mem.load32 (b.pa (next + ctxLrUsrOffset))
  frame i := mem.load32 (b.pa (mem.load32 (b.pa (next + ctxSpSvcOffset))) + 4 * i)

/-- What the load side needs from the memory that it finds. -/
structure Loadable (L : Layout b) (next : Word) (mem : Memory) : Prop where
  pcb : Readable b next sizeofProcess
  base : (((keptContext b mem next).pgdPa ||| 0x4A#32) &&& 0xFFFFC000#32).toNat ∈ L.tableBases
  frame : Readable b (keptContext b mem next).spSvc 36
  lr : (keptContext b mem next).frame 8 &&& 3#32 = 0#32

/-- What is seen of memory after the load side. -/
def loadedMem (b : Board) (mem : Memory) (next : Word) : KernelMem :=
  ⟨mem, (keptContext b mem next).pgdPa ||| 0x4A#32, false⟩

/-- The load side finds what it reads. -/
lemma restores_kernel {next : Word} (h : Loadable L next m.mem) :
    Restores (kernelBus T) next (keptContext b m.mem next) m (loadedMem b m.mem next) := by
  have hword : ∀ k, k + 4 ≤ 112 → k % 4 = 0 → ∀ m : KernelMem,
      (kernelBus T).load m true (next + BitVec.ofNat 32 k) =
        some (m.mem.load32 (b.pa (next + BitVec.ofNat 32 k)), m) := by
    intro k hk hk4
    have hsize : sizeofProcess = 112 := rfl
    exact load_kernel ((h.pcb.add (k := k) (by omega) hk4).mono (by omega))
  exact ⟨_, _, _, _, _, _, _, hword 88 (by omega) rfl m, if_pos h.base, rfl, rfl,
    hword 64 (by omega) rfl _, hword 68 (by omega) rfl _, hword 52 (by omega) rfl _,
    loads_kernel (k := 9) h.frame _⟩

/-- **`context_switch` from one process to another.** -/
theorem run_switchCode (hmode : c.cpsr &&& 0x1F#32 = 0x13#32) (harm : c.cpsr.getLsbD 5 = false)
    (hpc : c.pc = T.contextSwitch) (hprev : c.r 0 ≠ 0#32)
    (hstack : Free T (c.sp .svc - BitVec.ofNat 32 36) 36) (hpcb : Free T (c.r 0) sizeofProcess)
    (h : Loadable L (c.r 1) (savedMem b c m.mem)) :
    ∃ c', run (kernelBus T) contextSwitchCode.length ⟨c, m⟩ =
        some ⟨c', loadedMem b (savedMem b c m.mem) (c.r 1)⟩ ∧
      SwitchedTo (keptContext b (savedMem b c m.mem) (c.r 1)) c' ∧ KeepsBanks c c' :=
  run_contextSwitch idle_kernelBus (hpc ▸ sits_of_placed T.contextSwitch_placed) hmode harm hprev
    (saveContext_kernel hstack hpcb m)
    (restores_kernel (m := { m with mem := savedMem b c m.mem }) h) h.lr

/-- **`context_switch` to the first process.** -/
theorem run_switchCode_null (hmode : c.cpsr &&& 0x1F#32 = 0x13#32)
    (harm : c.cpsr.getLsbD 5 = false) (hpc : c.pc = T.contextSwitch) (hprev : c.r 0 = 0#32)
    (h : Loadable L (c.r 1) m.mem) :
    ∃ c', run (kernelBus T) (contextSwitchCode.length - saveSide.length) ⟨c, m⟩ =
        some ⟨c', loadedMem b m.mem (c.r 1)⟩ ∧
      SwitchedTo (keptContext b m.mem (c.r 1)) c' ∧ KeepsBanks c c' :=
  run_contextSwitch_null idle_kernelBus (hpc ▸ sits_of_placed T.contextSwitch_placed)
    (privileged_of_and hmode (by decide)) harm hprev (restores_kernel h) h.lr

end

end RingNova.Isa
