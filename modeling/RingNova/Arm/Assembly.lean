/-
# The assembly of the context switch

The instructions of `context_switch.S` and of `ret_from_first_entry` (`exception_entry.S`), and
what they do on a memory system that does nothing by itself.  All that they need of it is that
their own accesses succeed: the stores of the save side (`saveContext`) and the loads of the load
side (`Restores`).

There are two entries to `context_switch`: with a previous process both sides run
(`run_contextSwitch`), without one the save side is skipped (`run_contextSwitch_null`).
-/
import Mathlib.Tactic.IntervalCases
import RingNova.Lib.Isa
import RingNova.Platform

namespace RingNova.Isa

/-! ### The two routines -/

/-- `{r0-r12}`. -/
def gprs : List Reg :=
  [.r 0, .r 1, .r 2, .r 3, .r 4, .r 5, .r 6, .r 7, .r 8, .r 9, .r 10, .r 11, .r 12]

/-- `{r4-r11, lr}`. -/
def calleeSaved : List Reg := [.r 4, .r 5, .r 6, .r 7, .r 8, .r 9, .r 10, .r 11, .lr]

/-- `CTX_SP_SVC_OFFSET` in `context_switch.S`. -/
def ctxSpSvcOffset : Word := 52#32

/-- `CTX_SP_USR_OFFSET` in `context_switch.S`. -/
def ctxSpUsrOffset : Word := 64#32

/-- `CTX_LR_USR_OFFSET` in `context_switch.S`. -/
def ctxLrUsrOffset : Word := 68#32

/-- `PROC_PGD_PA_OFFSET` in `context_switch.S`. -/
def procPgdPaOffset : Word := 88#32

/-- The save side of `context_switch`. -/
def saveSide : List Instr :=
  [.push calleeSaved,
    .str .sp (.r 0) ctxSpSvcOffset,
    .cps 0x1F#32,
    .str .sp (.r 0) ctxSpUsrOffset,
    .str .lr (.r 0) ctxLrUsrOffset,
    .cps 0x13#32]

/-- The load side of `context_switch`, from `.Lload_next` on. -/
def loadSide : List Instr :=
  [.ldr (.r 2) (.r 1) procPgdPaOffset,
    .orr (.r 2) (.r 2) 0x4A#32,
    .mcr (.r 2) .ttbr0,
    .mov (.r 2) 0#32,
    .mcr (.r 2) .tlbiall,
    .mcr (.r 2) .iciallu,
    .dsb,
    .isb,
    .cps 0x1F#32,
    .ldr .sp (.r 1) ctxSpUsrOffset,
    .ldr .lr (.r 1) ctxLrUsrOffset,
    .cps 0x13#32,
    .ldr .sp (.r 1) ctxSpSvcOffset,
    .pop calleeSaved,
    .bx .lr]

/-- `context_switch`: without a previous process the save side is skipped. -/
def contextSwitchCode : List Instr :=
  [.cmp (.r 0) 0#32, .b .eq 28#32] ++ (saveSide ++ loadSide)

/-- `ret_from_first_entry`. -/
def retFromFirstEntryCode : List Instr := [.pop (gprs ++ [.lr]), .rfefd]

/-! ### Several registers at once -/

/-- The words of `{r4-r11, lr}`. -/
def calleeWords (r : Fin 13 → Word) (lr : Word) : List Word :=
  [r 4, r 5, r 6, r 7, r 8, r 9, r 10, r 11, lr]

lemma mapM_calleeSaved (c : Core) :
    calleeSaved.mapM c.get = c.bank.map fun k => calleeWords c.r (c.lr k) := by
  cases hk : c.bank <;> simp [calleeSaved, Core.get, hk, calleeWords]

/-- `{r4-r11, lr}` after a load-multiple. -/
lemma setAll_calleeSaved (c : Core) (f : ℕ → Word) :
    c.setAll calleeSaved ((List.range 9).map f) = c.bank.map fun k =>
      Core.withLr { c with r := fun i => if 4 ≤ i.val ∧ i.val < 12 then f (i.val - 4) else c.r i }
        k (f 8) := by
  have hr : Function.update (Function.update (Function.update (Function.update (Function.update
      (Function.update (Function.update (Function.update c.r 4 (f 0)) 5 (f 1)) 6 (f 2)) 7 (f 3))
      8 (f 4)) 9 (f 5)) 10 (f 6)) 11 (f 7) =
      fun i : Fin 13 => if 4 ≤ i.val ∧ i.val < 12 then f (i.val - 4) else c.r i := by
    funext i
    fin_cases i <;> simp
  cases hk : c.bank <;> simp [calleeSaved, List.range, List.range.loop, Core.setAll, Core.set,
    Core.bank, show bankOf c.cpsr = _ from hk, hr]

/-- `{r0-r12}` after a load-multiple. -/
lemma setAll_gprs (c : Core) (f : ℕ → Word) :
    c.setAll gprs ((List.range 13).map f) = some { c with r := fun i => f i } := by
  have hr : Function.update (Function.update (Function.update (Function.update (Function.update
      (Function.update (Function.update (Function.update (Function.update (Function.update
      (Function.update (Function.update (Function.update c.r 0 (f 0)) 1 (f 1)) 2 (f 2)) 3 (f 3))
      4 (f 4)) 5 (f 5)) 6 (f 6)) 7 (f 7)) 8 (f 8)) 9 (f 9)) 10 (f 10)) 11 (f 11)) 12 (f 12) =
      fun i : Fin 13 => f i := by
    funext i
    fin_cases i <;> simp
  simp only [gprs, List.range, List.range.loop, List.map_cons, List.map_nil, Core.setAll, Core.set,
    Option.bind_eq_bind, Option.bind_some, hr]

/-- `{r0-r12, lr}` after a load-multiple. -/
lemma setAll_gprsLr (c : Core) (f : ℕ → Word) :
    c.setAll (gprs ++ [.lr]) ((List.range 14).map f) =
      c.bank.map fun k => Core.withLr { c with r := fun i => f i } k (f 13) := by
  rw [List.range_succ, List.map_append, Core.setAll_append (by simp [gprs]), setAll_gprs,
    Option.bind_some]
  cases hk : c.bank with
  | none => simp [Core.setAll, Core.set, Core.bank, show bankOf c.cpsr = none from hk]
  | some k => simp [Core.setAll, Core.set, Core.bank, show bankOf c.cpsr = some k from hk]

section

variable {μ : Type} {B : Bus μ} {c : Core} {m m' : μ}

/-! ### The save side -/

/-- The stores of the save side. -/
def saveContext (B : Bus μ) (c : Core) (m : μ) : Option μ := do
  let m ← B.stores m true (c.sp .svc - 36#32) (calleeWords c.r (c.lr .svc))
  let m ← B.store m true (c.r 0 + ctxSpSvcOffset) (c.sp .svc - 36#32)
  let m ← B.store m true (c.r 0 + ctxSpUsrOffset) (c.sp .usr)
  B.store m true (c.r 0 + ctxLrUsrOffset) (c.lr .usr)

/-- The core after the save side. -/
structure SavedCore (c c' : Core) : Prop where
  r : c'.r = c.r
  sp : c'.sp = Function.update c.sp .svc (c.sp .svc - 36#32)
  pc : c'.pc = c.pc + 24#32
  mode : c'.cpsr &&& 0x1F#32 = 0x13#32
  bits : ∀ i, 5 ≤ i → i < 8 → c'.cpsr.getLsbD i = c.cpsr.getLsbD i

/-- The save side does what its stores do. -/
lemma execAll_saveSide (hidle : ∀ m, B.idle m = m) (hmode : c.cpsr &&& 0x1F#32 = 0x13#32)
    (harm : c.cpsr.getLsbD 5 = false) (h : saveContext B c m = some m') :
    ∃ c', execAll B ⟨c, m⟩ saveSide = some ⟨c', m'⟩ ∧ SavedCore c c' := by
  have hp := privileged_of_and hmode (by decide)
  have hk : bankOf c.cpsr = some .svc := bankOf_of_and hmode (by decide)
  have hpush : pushed (c.sp .svc) (calleeWords c.r (c.lr .svc)) = c.sp .svc - 36#32 := rfl
  simp only [saveContext, Option.bind_eq_bind, Option.bind_eq_some_iff] at h
  obtain ⟨m₁, h₁, m₂, h₂, m₃, h₃, h₄⟩ := h
  simp only [saveSide, execAll, exec, hidle, Core.get, Core.set, Core.bank, Core.withSp, Core.next,
    Core.goto, mapM_calleeSaved, hk, hp, harm, bankOf_sys, privileged_sys, arm_sys,
    Option.map_some, Option.bind_eq_bind, Option.bind_some, Option.pure_def, Function.update_self,
    Bool.not_false, Bool.and_self, if_true, ne_eq, reduceCtorEq, not_false_eq_true,
    Function.update_of_ne, hpush, h₁, h₂, h₃, h₄]
  refine ⟨_, rfl, rfl, rfl, by simp [BitVec.add_assoc], withMode_and _ _, ?_⟩
  intro i h5 h8
  rw [getLsbD_withMode _ h5 (by omega) (by interval_cases i <;> rfl),
    getLsbD_withMode _ h5 (by omega) (by interval_cases i <;> rfl)]

/-! ### The load side -/

/-- What is kept of a process that has switched away. -/
structure Context where
  pgdPa : Word
  spSvc : Word
  spUsr : Word
  lrUsr : Word
  /-- The words at `spSvc`. -/
  frame : ℕ → Word

/-- The load side reads these words. -/
def Restores (B : Bus μ) (next : Word) (w : Context) (m m' : μ) : Prop :=
  ∃ m₁ m₂ m₃ m₄ m₅ m₆ m₇,
    B.load m true (next + procPgdPaOffset) = some (w.pgdPa, m₁) ∧
    B.mcr m₁ .ttbr0 (w.pgdPa ||| 0x4A#32) = some m₂ ∧
    B.mcr m₂ .tlbiall 0#32 = some m₃ ∧
    B.mcr m₃ .iciallu 0#32 = some m₄ ∧
    B.load m₄ true (next + ctxSpUsrOffset) = some (w.spUsr, m₅) ∧
    B.load m₅ true (next + ctxLrUsrOffset) = some (w.lrUsr, m₆) ∧
    B.load m₆ true (next + ctxSpSvcOffset) = some (w.spSvc, m₇) ∧
    B.loads m₇ true w.spSvc 9 = some ((List.range 9).map w.frame, m')

/-- A process has been switched to: its registers are the ones kept. -/
structure SwitchedTo (w : Context) (c : Core) : Prop where
  spSvc : c.sp .svc = w.spSvc + 36#32
  spUsr : c.sp .usr = w.spUsr
  lrUsr : c.lr .usr = w.lrUsr
  callee : ∀ i : Fin 8, c.r ⟨4 + i, by omega⟩ = w.frame i
  lrSvc : c.lr .svc = w.frame 8
  pc : c.pc = w.frame 8
  mode : c.cpsr &&& 0x1F#32 = 0x13#32

/-- The registers that a switch does not touch. -/
structure KeepsBanks (c c' : Core) : Prop where
  sp : ∀ k, k ≠ .usr → k ≠ .svc → c'.sp k = c.sp k
  bits : ∀ i, 5 ≤ i → i < 8 → c'.cpsr.getLsbD i = c.cpsr.getLsbD i

/-- The load side brings back the next process, wherever it finds what it reads. -/
lemma execAll_loadSide (hidle : ∀ m, B.idle m = m) (hp : privileged c.cpsr = true)
    (harm : c.cpsr.getLsbD 5 = false) {w : Context} (h : Restores B (c.r 1) w m m')
    (hlr : w.frame 8 &&& 3#32 = 0#32) :
    ∃ c', execAll B ⟨c, m⟩ loadSide = some ⟨c', m'⟩ ∧ SwitchedTo w c' ∧ KeepsBanks c c' := by
  obtain ⟨m₁, m₂, m₃, m₄, m₅, m₆, m₇, h₁, h₂, h₃, h₄, h₅, h₆, h₇, h₈⟩ := h
  have hlen : calleeSaved.length = 9 := rfl
  have hne : (1 : Fin 13) ≠ 2 := by decide
  simp only [loadSide, execAll, exec, hidle, Core.get, Core.set, Core.bank, Core.withSp,
    Core.withLr, Core.next, Core.goto, hp, harm, bankOf_svc, privileged_svc, arm_svc, bankOf_sys,
    privileged_sys, arm_sys, Option.map_some, Option.bind_eq_bind, Option.bind_some,
    Option.pure_def, Function.update_self, Function.update_idem, Bool.not_false, Bool.and_self,
    if_true, ne_eq, not_false_eq_true, Function.update_of_ne, hne, h₁, h₂, h₃, h₄, h₅, h₆, h₇, h₈,
    hlen, setAll_calleeSaved, Nat.reduceMul, hlr]
  refine ⟨_, rfl, ⟨?_, ?_, ?_, ?_, ?_, ?_, withMode_and _ _⟩, ?_, ?_⟩
  · simp
  · simp
  · simp
  · intro i
    have hi : 4 + i.val < 12 := by omega
    simp [hi]
  · simp
  · simp
  · intro k hu hs
    simp [hu, hs]
  · intro i h5 h8
    rw [getLsbD_withMode _ h5 (by omega) (by interval_cases i <;> rfl),
      getLsbD_withMode _ h5 (by omega) (by interval_cases i <;> rfl)]

/-! ### The whole of it -/

/-- Where the two sides stand. -/
lemma sits_sides {a : Word} (h : Sits B a contextSwitchCode) :
    Sits B (a + 8#32) saveSide ∧ Sits B (a + 32#32) loadSide := by
  rw [contextSwitchCode, sits_append, sits_append, BitVec.add_assoc] at h
  exact h.2

/-- The test for a previous process. -/
lemma run_test (hidle : ∀ m, B.idle m = m) (hsits : Sits B c.pc contextSwitchCode)
    (hp : privileged c.cpsr = true) (harm : c.cpsr.getLsbD 5 = false) (m : μ) :
    run B 2 ⟨c, m⟩ = some ⟨(c.compare (c.r 0) 0#32).goto
      (c.pc + if c.r 0 = 0#32 then 32#32 else 8#32), m⟩ := by
  have h₁ : step B ⟨c, m⟩ = some ⟨(c.compare (c.r 0) 0#32).next, m⟩ := by
    rw [step_of_sits (s := ⟨c, m⟩) hsits hp harm, hidle]
    rfl
  have h₂ := step_of_sits (s := ⟨(c.compare (c.r 0) 0#32).next, m⟩) hsits.2
    ((c.privileged_compare _ _).trans hp) ((c.getLsbD_compare _ _ (by omega)).trans harm)
  have hholds : (c.compare (c.r 0) 0#32).next.holds .eq = decide (c.r 0 = 0#32) :=
    c.holds_eq_compare _
  rw [run, h₁, Option.bind_eq_bind, Option.bind_some, run, h₂, exec, hholds]
  by_cases h : c.r 0 = 0#32
  · simp [h, run, Core.goto, Core.next, hidle, BitVec.add_assoc]
  · simp [h, run, Core.goto, Core.next, hidle, BitVec.add_assoc]

lemma straight_saveSide : ∀ i ∈ saveSide.dropLast, i.straight = true := by
  simp [saveSide, Instr.straight]

lemma straight_loadSide : ∀ i ∈ loadSide.dropLast, i.straight = true := by
  simp [loadSide, Instr.straight]

/-- **`context_switch` without a previous process.** -/
theorem run_contextSwitch_null (hidle : ∀ m, B.idle m = m) (hsits : Sits B c.pc contextSwitchCode)
    (hp : privileged c.cpsr = true) (harm : c.cpsr.getLsbD 5 = false) (hprev : c.r 0 = 0#32)
    {w : Context} (h : Restores B (c.r 1) w m m') (hlr : w.frame 8 &&& 3#32 = 0#32) :
    ∃ c', run B 17 ⟨c, m⟩ = some ⟨c', m'⟩ ∧ SwitchedTo w c' ∧ KeepsBanks c c' := by
  have htest := run_test hidle hsits hp harm m
  rw [if_pos hprev] at htest
  have hbits := fun i (hi : i < 8) => c.getLsbD_compare (c.r 0) 0#32 (i := i) (by omega)
  obtain ⟨c', hexec, hto, hkeeps⟩ := execAll_loadSide
    (c := (c.compare (c.r 0) 0#32).goto (c.pc + 32#32)) hidle
    ((c.privileged_compare _ _).trans hp) ((hbits 5 (by omega)).trans harm) h hlr
  have hload := run_of_sits (s := ⟨(c.compare (c.r 0) 0#32).goto (c.pc + 32#32), m⟩)
    (sits_sides hsits).2 straight_loadSide hexec
  refine ⟨c', ?_, hto, hkeeps.sp, fun i h5 h8 => (hkeeps.bits i h5 h8).trans (hbits i h8)⟩
  rw [show 17 = 2 + loadSide.length from rfl, run_add, htest, Option.bind_some, hload]

/-- **`context_switch` from one process to another.** -/
theorem run_contextSwitch (hidle : ∀ m, B.idle m = m) (hsits : Sits B c.pc contextSwitchCode)
    (hmode : c.cpsr &&& 0x1F#32 = 0x13#32) (harm : c.cpsr.getLsbD 5 = false)
    (hprev : c.r 0 ≠ 0#32) {m₁ : μ} (hsave : saveContext B c m = some m₁) {w : Context}
    (h : Restores B (c.r 1) w m₁ m') (hlr : w.frame 8 &&& 3#32 = 0#32) :
    ∃ c', run B 23 ⟨c, m⟩ = some ⟨c', m'⟩ ∧ SwitchedTo w c' ∧ KeepsBanks c c' := by
  have htest := run_test hidle hsits (privileged_of_and hmode (by decide)) harm m
  rw [if_neg hprev] at htest
  have hbits₁ := fun i (hi : i < 8) => c.getLsbD_compare (c.r 0) 0#32 (i := i) (by omega)
  -- the flags are not stored
  obtain ⟨c₂, hexec₂, hsaved⟩ := execAll_saveSide
    (c := (c.compare (c.r 0) 0#32).goto (c.pc + 8#32)) hidle ((c.mode_compare _ _).trans hmode)
    ((hbits₁ 5 (by omega)).trans harm) hsave
  have hrun₂ := run_of_sits (s := ⟨(c.compare (c.r 0) 0#32).goto (c.pc + 8#32), m⟩)
    (sits_sides hsits).1 straight_saveSide hexec₂
  have hbits₂ : ∀ i, 5 ≤ i → i < 8 → c₂.cpsr.getLsbD i = c.cpsr.getLsbD i := fun i h5 h8 =>
    (hsaved.bits i h5 h8).trans (hbits₁ i h8)
  have hr₂ : c₂.r 1 = c.r 1 := congrFun hsaved.r 1
  have hpc₂ : c₂.pc = c.pc + 32#32 := by
    rw [hsaved.pc, Core.goto, BitVec.add_assoc]
    rfl
  obtain ⟨c', hexec', hto, hkeeps⟩ := execAll_loadSide (c := c₂) hidle
    (privileged_of_and hsaved.mode (by decide)) ((hbits₂ 5 (by omega) (by omega)).trans harm)
    (hr₂ ▸ h) hlr
  have hrun' := run_of_sits (s := ⟨c₂, m₁⟩) (hpc₂ ▸ (sits_sides hsits).2) straight_loadSide hexec'
  refine ⟨c', ?_, hto, fun k hu hs => (hkeeps.sp k hu hs).trans ?_, fun i h5 h8 =>
    (hkeeps.bits i h5 h8).trans (hbits₂ i h5 h8)⟩
  · rw [show 23 = 2 + (saveSide.length + loadSide.length) from rfl, run_add, htest,
      Option.bind_some, run_add, hrun₂, Option.bind_some, hrun']
  · rw [hsaved.sp, Function.update_of_ne hs]
    rfl

/-! ### `ret_from_first_entry` -/

/-- All registers come from the frame at the stack pointer. -/
lemma execAll_retFromFirstEntry (hidle : ∀ m, B.idle m = m)
    (hmode : c.cpsr &&& 0x1F#32 = 0x13#32) (harm : c.cpsr.getLsbD 5 = false) {f : ℕ → Word}
    {pc cpsr : Word} {m₁ m₂ m₃ : μ}
    (hregs : B.loads m true (c.sp .svc) 14 = some ((List.range 14).map f, m₁))
    (hpc : B.load m₁ true (c.sp .svc + 56#32) = some (pc, m₂))
    (hcpsr : B.load m₂ true (c.sp .svc + 60#32) = some (cpsr, m₃)) :
    execAll B ⟨c, m⟩ retFromFirstEntryCode = some
      ⟨{ c with
          r := fun i => f i
          sp := Function.update c.sp .svc (c.sp .svc + 64#32)
          lr := Function.update c.lr .svc (f 13)
          pc := pc
          cpsr := cpsr }, m₃⟩ := by
  have hp := privileged_of_and hmode (by decide)
  have hk : bankOf c.cpsr = some .svc := bankOf_of_and hmode (by decide)
  have hlen : (gprs ++ [Reg.lr]).length = 14 := rfl
  have h60 : c.sp .svc + 56#32 + 4#32 = c.sp .svc + 60#32 := BitVec.add_assoc _ _ _
  have h64 : c.sp .svc + 56#32 + 8#32 = c.sp .svc + 64#32 := BitVec.add_assoc _ _ _
  simp only [retFromFirstEntryCode, execAll, exec, hidle, Core.get, Core.set, Core.bank,
    Core.excBank, Core.withSp, Core.withLr, Core.next, Core.goto, hk, hp, harm, Option.map_some,
    reduceCtorEq, Option.bind_eq_bind, Option.bind_some, Option.pure_def, Function.update_self,
    hlen, Nat.reduceMul, Function.update_idem, Bool.not_false, Bool.and_self, if_true, if_false,
    hregs, hpc, hcpsr, h60, h64, setAll_gprsLr]

end

end RingNova.Isa
