/-
# A fragment of the ARM instruction set

The instructions that the low-level code of an ARMv7-A kernel is made of, in ARM state, with the
banked registers of every mode.  The memory system behind the core is abstract: a `Bus` fetches,
loads and stores by virtual address, and holds the registers of coprocessor 15.  Whatever it
does by itself, such as filling or dropping entries of a TLB, happens between two instructions.

One memory system can be simpler than another and stand for it as long as nothing aborts
(`Bus.Sim`); then everything that code does on the simple one it does on the other
(`Bus.Sim.run`).  Straight-line code that stands at an address is run by executing its
instructions one after the other (`run_of_sits`).

FIQ mode banks `r8` to `r12` as well; these are not modelled.
-/
import Mathlib.Data.Fin.VecNotation
import Mathlib.Data.Nat.Notation
import Mathlib.Logic.Function.Basic
import Mathlib.Tactic.Common

namespace RingNova.Isa

/-! ### Registers -/

/-- The banks of `sp`, `lr` and `spsr`; SYS mode uses the registers of USR mode. -/
inductive Bank
  | usr
  | fiq
  | irq
  | svc
  | abt
  | und
deriving DecidableEq, Repr

/-- The bank that the mode bits of a status register select. -/
def bankOf (psr : BitVec 32) : Option Bank :=
  let mode := psr &&& 0x1F#32
  if mode = 0x10#32 ∨ mode = 0x1F#32 then some .usr
  else if mode = 0x11#32 then some .fiq
  else if mode = 0x12#32 then some .irq
  else if mode = 0x13#32 then some .svc
  else if mode = 0x17#32 then some .abt
  else if mode = 0x1B#32 then some .und
  else none

/-- Any mode but USR. -/
def privileged (psr : BitVec 32) : Bool := psr &&& 0x1F#32 ≠ 0x10#32

/-- A status register with other mode bits. -/
def withMode (psr mode : BitVec 32) : BitVec 32 := (psr &&& ~~~0x1F#32) ||| mode

/-- A register operand. -/
inductive Reg
  | r (i : Fin 13)
  | sp
  | lr
deriving DecidableEq

/-- The registers of the core. -/
structure Core where
  /-- `r0` to `r12`. -/
  r : Fin 13 → BitVec 32
  sp : Bank → BitVec 32
  lr : Bank → BitVec 32
  spsr : Bank → BitVec 32
  pc : BitVec 32
  cpsr : BitVec 32

namespace Core

variable (c : Core)

/-- The current bank. -/
def bank : Option Bank := bankOf c.cpsr

/-- The current bank, in a mode that has an SPSR. -/
def excBank : Option Bank := c.bank.bind fun k => if k = .usr then none else some k

/-- Another stack pointer in a bank. -/
def withSp (k : Bank) (v : BitVec 32) : Core := { c with sp := Function.update c.sp k v }

/-- Another link register in a bank. -/
def withLr (k : Bank) (v : BitVec 32) : Core := { c with lr := Function.update c.lr k v }

/-- The value of a register. -/
def get : Reg → Option (BitVec 32)
  | .r i => some (c.r i)
  | .sp => c.bank.map c.sp
  | .lr => c.bank.map c.lr

/-- A write to a register. -/
def set (v : BitVec 32) : Reg → Option Core
  | .r i => some { c with r := Function.update c.r i v }
  | .sp => c.bank.map fun k => c.withSp k v
  | .lr => c.bank.map fun k => c.withLr k v

/-- Writes to several registers. -/
def setAll (c : Core) : List Reg → List (BitVec 32) → Option Core
  | reg :: regs, w :: ws => do
    let c ← c.set w reg
    c.setAll regs ws
  | _, _ => some c

/-- The flags N, Z, C and V of a comparison. -/
def compare (x y : BitVec 32) : Core :=
  let d := x - y
  let overflow := x.msb != y.msb && d.msb != x.msb
  { c with cpsr := BitVec.ofBool d.msb ++ BitVec.ofBool (d = 0#32) ++ BitVec.ofBool (y ≤ x) ++
      BitVec.ofBool overflow ++ c.cpsr.setWidth 28 }

/-- Continue at an address. -/
def goto (a : BitVec 32) : Core := { c with pc := a }

/-- Continue with the next instruction. -/
def next : Core := c.goto (c.pc + 4#32)

end Core

/-! ### Instructions -/

/-- Conditions: always, equal, unsigned lower. -/
inductive Cond
  | al
  | eq
  | lo

/-- The condition holds. -/
def Core.holds (c : Core) : Cond → Bool
  | .al => true
  | .eq => c.cpsr.getLsbD 30
  | .lo => !c.cpsr.getLsbD 29

/-- Registers and operations of coprocessor 15. -/
inductive Cp15
  | sctlr
  | ttbr0
  | ttbcr
  | dacr
  | vbar
  | tlbiall
  | iciallu
deriving DecidableEq

/-- Instructions.  The targets of branches are distances from the branch itself, and a literal
that is loaded from a literal pool is part of the instruction. -/
inductive Instr
  | b (cond : Cond) (off : BitVec 32)
  | bl (off : BitVec 32)
  | bx (rm : Reg)
  | adr (rd : Reg) (off : BitVec 32)
  /-- `ldr rd, =w`. -/
  | ldrLit (rd : Reg) (w : BitVec 32)
  /-- `ldr pc, =w`. -/
  | ldrPc (w : BitVec 32)
  | mov (rd : Reg) (imm : BitVec 32)
  | movReg (rd rm : Reg)
  | orr (rd rn : Reg) (imm : BitVec 32)
  | sub (rd rn : Reg) (imm : BitVec 32)
  | subReg (rd rn rm : Reg)
  | cmp (rn : Reg) (imm : BitVec 32)
  | cmpReg (rn rm : Reg)
  | ldr (rt rn : Reg) (off : BitVec 32)
  | str (rt rn : Reg) (off : BitVec 32)
  /-- `str<cond> rt, [rn], #imm`. -/
  | strPost (cond : Cond) (rt rn : Reg) (imm : BitVec 32)
  /-- `stmfd sp!`. -/
  | push (regs : List Reg)
  /-- `ldmfd sp!`. -/
  | pop (regs : List Reg)
  /-- `ldmfd sp!, {regs, pc}^`. -/
  | popReturn (regs : List Reg)
  /-- `srsdb sp!, #mode`. -/
  | srsdb (mode : BitVec 32)
  /-- `rfefd sp!`. -/
  | rfefd
  | cps (mode : BitVec 32)
  /-- `cpsid`, with the mask bits to set. -/
  | cpsid (mask : BitVec 32)
  /-- `mrs rd, spsr`. -/
  | mrsSpsr (rd : Reg)
  /-- `msr spsr_cxsf, rm`. -/
  | msrSpsr (rm : Reg)
  | mcr (rt : Reg) (reg : Cp15)
  | mrc (rt : Reg) (reg : Cp15)
  | dsb
  | isb
  | wfi
  | nop

/-! ### Memory systems -/

/-- A memory system with states `μ`.  An access is made with or without privilege; `none` is an
abort.  A load can have an effect, as it has in a device. -/
structure Bus (μ : Type) where
  /-- What the memory system does by itself, between two instructions. -/
  idle : μ → μ
  fetch : μ → Bool → BitVec 32 → Option Instr
  load : μ → Bool → BitVec 32 → Option (BitVec 32 × μ)
  store : μ → Bool → BitVec 32 → BitVec 32 → Option μ
  mcr : μ → Cp15 → BitVec 32 → Option μ
  mrc : μ → Cp15 → Option (BitVec 32)

namespace Bus

variable {μ : Type} (B : Bus μ)

/-- The words from an address on. -/
def loads (m : μ) (priv : Bool) (a : BitVec 32) : ℕ → Option (List (BitVec 32) × μ)
  | 0 => some ([], m)
  | n + 1 => do
    let x ← B.load m priv a
    let xs ← loads x.2 priv (a + 4#32) n
    return (x.1 :: xs.1, xs.2)

/-- Words stored from an address on; the order of the accesses is up to the core. -/
def stores (m : μ) (priv : Bool) : BitVec 32 → List (BitVec 32) → Option μ
  | _, [] => some m
  | a, w :: ws => do
    let m ← stores m priv (a + 4#32) ws
    B.store m priv a w

end Bus

/-- A core with its memory system. -/
structure St (μ : Type) where
  core : Core
  sys : μ

section Exec

variable {μ : Type} (B : Bus μ)

/-- The stack pointer after words have been pushed. -/
def pushed (sp : BitVec 32) (ws : List (BitVec 32)) : BitVec 32 :=
  sp - BitVec.ofNat 32 (4 * ws.length)

/-- One instruction.  What is undefined in the current mode, unpredictable or aborts is
`none`. -/
def exec (s : St μ) : Instr → Option (St μ)
  | .b cond off =>
    some { s with core := if s.core.holds cond then s.core.goto (s.core.pc + off)
      else s.core.next }
  | .bl off => do
    let core ← s.core.set (s.core.pc + 4#32) .lr
    return { s with core := core.goto (s.core.pc + off) }
  | .bx rm => do
    let a ← s.core.get rm
    -- the code stays in ARM state
    if a &&& 3#32 = 0#32 then return { s with core := s.core.goto a } else none
  | .adr rd off => do
    let core ← s.core.set (s.core.pc + off) rd
    return { s with core := core.next }
  | .ldrLit rd w => do
    let core ← s.core.set w rd
    return { s with core := core.next }
  | .ldrPc w => some { s with core := s.core.goto w }
  | .mov rd imm => do
    let core ← s.core.set imm rd
    return { s with core := core.next }
  | .movReg rd rm => do
    let x ← s.core.get rm
    let core ← s.core.set x rd
    return { s with core := core.next }
  | .orr rd rn imm => do
    let x ← s.core.get rn
    let core ← s.core.set (x ||| imm) rd
    return { s with core := core.next }
  | .sub rd rn imm => do
    let x ← s.core.get rn
    let core ← s.core.set (x - imm) rd
    return { s with core := core.next }
  | .subReg rd rn rm => do
    let x ← s.core.get rn
    let y ← s.core.get rm
    let core ← s.core.set (x - y) rd
    return { s with core := core.next }
  | .cmp rn imm => do
    let x ← s.core.get rn
    return { s with core := (s.core.compare x imm).next }
  | .cmpReg rn rm => do
    let x ← s.core.get rn
    let y ← s.core.get rm
    return { s with core := (s.core.compare x y).next }
  | .ldr rt rn off => do
    let a ← s.core.get rn
    let x ← B.load s.sys (privileged s.core.cpsr) (a + off)
    let core ← s.core.set x.1 rt
    return ⟨core.next, x.2⟩
  | .str rt rn off => do
    let w ← s.core.get rt
    let a ← s.core.get rn
    let sys ← B.store s.sys (privileged s.core.cpsr) (a + off) w
    return ⟨s.core.next, sys⟩
  | .strPost cond rt rn imm =>
    if s.core.holds cond then do
      let w ← s.core.get rt
      let a ← s.core.get rn
      let sys ← B.store s.sys (privileged s.core.cpsr) a w
      let core ← s.core.set (a + imm) rn
      return ⟨core.next, sys⟩
    else some { s with core := s.core.next }
  | .push regs => do
    let sp ← s.core.get .sp
    let ws ← regs.mapM s.core.get
    let sys ← B.stores s.sys (privileged s.core.cpsr) (pushed sp ws) ws
    let core ← s.core.set (pushed sp ws) .sp
    return ⟨core.next, sys⟩
  | .pop regs => do
    let sp ← s.core.get .sp
    let xs ← B.loads s.sys (privileged s.core.cpsr) sp regs.length
    let core ← s.core.set (sp + BitVec.ofNat 32 (4 * regs.length)) .sp
    let core ← core.setAll regs xs.1
    return ⟨core.next, xs.2⟩
  | .popReturn regs => do
    let k ← s.core.excBank
    let sp := s.core.sp k
    let xs ← B.loads s.sys (privileged s.core.cpsr) sp regs.length
    let x ← B.load xs.2 (privileged s.core.cpsr) (sp + BitVec.ofNat 32 (4 * regs.length))
    let core ← s.core.set (sp + BitVec.ofNat 32 (4 * (regs.length + 1))) .sp
    let core ← core.setAll regs xs.1
    return ⟨{ core with pc := x.1, cpsr := s.core.spsr k }, x.2⟩
  | .srsdb mode => do
    let k ← s.core.excBank
    let k' ← bankOf mode
    let ws := [s.core.lr k, s.core.spsr k]
    let sp := pushed (s.core.sp k') ws
    let sys ← B.stores s.sys (privileged s.core.cpsr) sp ws
    return ⟨(s.core.withSp k' sp).next, sys⟩
  | .rfefd => do
    let k ← s.core.excBank
    let sp := s.core.sp k
    let x ← B.load s.sys (privileged s.core.cpsr) sp
    let y ← B.load x.2 (privileged s.core.cpsr) (sp + 4#32)
    return ⟨{ s.core.withSp k (sp + 8#32) with pc := x.1, cpsr := y.1 }, y.2⟩
  | .cps mode =>
    some { s with core := (if privileged s.core.cpsr then
      { s.core with cpsr := withMode s.core.cpsr mode } else s.core).next }
  | .cpsid mask =>
    some { s with core := (if privileged s.core.cpsr then
      { s.core with cpsr := s.core.cpsr ||| mask } else s.core).next }
  | .mrsSpsr rd => do
    let k ← s.core.excBank
    let core ← s.core.set (s.core.spsr k) rd
    return { s with core := core.next }
  | .msrSpsr rm => do
    let k ← s.core.excBank
    let x ← s.core.get rm
    return { s with core := Core.next { s.core with spsr := Function.update s.core.spsr k x } }
  | .mcr rt reg =>
    if privileged s.core.cpsr then do
      let x ← s.core.get rt
      let sys ← B.mcr s.sys reg x
      return ⟨s.core.next, sys⟩
    else none
  | .mrc rt reg =>
    if privileged s.core.cpsr then do
      let x ← B.mrc s.sys reg
      let core ← s.core.set x rt
      return { s with core := core.next }
    else none
  | .dsb | .isb | .wfi | .nop => some { s with core := s.core.next }

/-- One instruction is fetched and executed, in ARM state. -/
def step (s : St μ) : Option (St μ) :=
  if s.core.cpsr.getLsbD 5 then none
  else do
    let s : St μ := { s with sys := B.idle s.sys }
    let i ← B.fetch s.sys (privileged s.core.cpsr) s.core.pc
    exec B s i

/-- Some instructions are fetched and executed. -/
def run : ℕ → St μ → Option (St μ)
  | 0, s => some s
  | n + 1, s => do
    let s' ← step B s
    run n s'

end Exec

/-! ### One memory system for another -/

/-- What succeeds on the second memory system succeeds on the first one, with the same
result. -/
structure Bus.Sim {μ ν : Type} (B : Bus μ) (B' : Bus ν) (R : μ → ν → Prop) : Prop where
  idle : ∀ {m n}, R m n → R (B.idle m) (B'.idle n)
  fetch : ∀ {m n priv a i}, R m n → B'.fetch n priv a = some i → B.fetch m priv a = some i
  load : ∀ {m n priv a w n'}, R m n → B'.load n priv a = some (w, n') →
    ∃ m', B.load m priv a = some (w, m') ∧ R m' n'
  store : ∀ {m n priv a w n'}, R m n → B'.store n priv a w = some n' →
    ∃ m', B.store m priv a w = some m' ∧ R m' n'
  mcr : ∀ {m n reg x n'}, R m n → B'.mcr n reg x = some n' →
    ∃ m', B.mcr m reg x = some m' ∧ R m' n'
  mrc : ∀ {m n reg x}, R m n → B'.mrc n reg = some x → B.mrc m reg = some x

namespace Bus.Sim

variable {μ ν : Type} {B : Bus μ} {B' : Bus ν} {R : μ → ν → Prop} {m : μ} {n : ν}

lemma loads (h : Sim B B' R) (hR : R m n) {priv : Bool} {a : BitVec 32} {k : ℕ}
    {ws : List (BitVec 32)} {n' : ν} (hl : B'.loads n priv a k = some (ws, n')) :
    ∃ m', B.loads m priv a k = some (ws, m') ∧ R m' n' := by
  induction k generalizing m n a ws with
  | zero =>
    obtain ⟨rfl, rfl⟩ := Prod.mk.inj (Option.some.inj hl)
    exact ⟨m, rfl, hR⟩
  | succ k ih =>
    simp only [Bus.loads, Option.bind_eq_bind, Option.bind_eq_some_iff, Option.pure_def,
      Option.some.injEq, Prod.mk.injEq] at hl
    obtain ⟨⟨w, n₁⟩, hw, ⟨ws', n₂⟩, hws, rfl, rfl⟩ := hl
    obtain ⟨m₁, hm₁, hR₁⟩ := h.load hR hw
    obtain ⟨m₂, hm₂, hR₂⟩ := ih hR₁ hws
    exact ⟨m₂, by simp [Bus.loads, hm₁, hm₂], hR₂⟩

lemma stores (h : Sim B B' R) (hR : R m n) {priv : Bool} {a : BitVec 32} {ws : List (BitVec 32)}
    {n' : ν} (hs : B'.stores n priv a ws = some n') :
    ∃ m', B.stores m priv a ws = some m' ∧ R m' n' := by
  induction ws generalizing a n' with
  | nil =>
    obtain rfl : n = n' := Option.some.inj hs
    exact ⟨m, rfl, hR⟩
  | cons w ws ih =>
    simp only [Bus.stores, Option.bind_eq_bind, Option.bind_eq_some_iff] at hs
    obtain ⟨n₁, hn₁, hn'⟩ := hs
    obtain ⟨m₁, hm₁, hR₁⟩ := ih hn₁
    obtain ⟨m', hm', hR'⟩ := h.store hR₁ hn'
    refine ⟨m', ?_, hR'⟩
    rw [Bus.stores, hm₁]
    exact hm'

/-- One instruction. -/
theorem exec (h : Sim B B' R) (hR : R m n) {core core' : Core} {i : Instr} {n' : ν}
    (he : Isa.exec B' ⟨core, n⟩ i = some ⟨core', n'⟩) :
    ∃ m', Isa.exec B ⟨core, m⟩ i = some ⟨core', m'⟩ ∧ R m' n' := by
  cases i <;> simp only [Isa.exec, Option.bind_eq_bind, Option.bind_eq_some_iff, Option.pure_def,
    Option.some.injEq, St.mk.injEq] at he ⊢
  case ldr =>
    obtain ⟨a, ha, ⟨w, n₁⟩, hw, c, hc, rfl, rfl⟩ := he
    obtain ⟨m', hm', hR'⟩ := h.load hR hw
    exact ⟨m', ⟨a, ha, (w, m'), hm', c, hc, rfl, rfl⟩, hR'⟩
  case str =>
    obtain ⟨w, hw, a, ha, n₁, hn₁, rfl, rfl⟩ := he
    obtain ⟨m', hm', hR'⟩ := h.store hR hn₁
    exact ⟨m', ⟨w, hw, a, ha, m', hm', rfl, rfl⟩, hR'⟩
  case strPost =>
    split at he
    next hc =>
      simp only [Option.bind_eq_some_iff, Option.some.injEq, St.mk.injEq] at he
      obtain ⟨w, hw, a, ha, n₁, hn₁, c, hset, rfl, rfl⟩ := he
      obtain ⟨m', hm', hR'⟩ := h.store hR hn₁
      refine ⟨m', ?_, hR'⟩
      simp [hc, hw, ha, hm', hset]
    next hc =>
      simp only [Option.some.injEq, St.mk.injEq] at he
      obtain ⟨rfl, rfl⟩ := he
      refine ⟨m, ?_, hR⟩
      simp [hc]
  case push =>
    obtain ⟨sp, hsp, ws, hws, n₁, hn₁, c, hc, rfl, rfl⟩ := he
    obtain ⟨m', hm', hR'⟩ := h.stores hR hn₁
    exact ⟨m', ⟨sp, hsp, ws, hws, m', hm', c, hc, rfl, rfl⟩, hR'⟩
  case pop =>
    obtain ⟨sp, hsp, ⟨ws, n₁⟩, hws, c, hc, c', hc', rfl, rfl⟩ := he
    obtain ⟨m', hm', hR'⟩ := h.loads hR hws
    exact ⟨m', ⟨sp, hsp, (ws, m'), hm', c, hc, c', hc', rfl, rfl⟩, hR'⟩
  case popReturn =>
    obtain ⟨k, hk, ⟨ws, n₁⟩, hws, ⟨pc, n₂⟩, hpc, c, hc, c', hc', rfl, rfl⟩ := he
    obtain ⟨m₁, hm₁, hR₁⟩ := h.loads hR hws
    obtain ⟨m', hm', hR'⟩ := h.load hR₁ hpc
    exact ⟨m', ⟨k, hk, (ws, m₁), hm₁, (pc, m'), hm', c, hc, c', hc', rfl, rfl⟩, hR'⟩
  case srsdb =>
    obtain ⟨k, hk, k', hk', n₁, hn₁, rfl, rfl⟩ := he
    obtain ⟨m', hm', hR'⟩ := h.stores hR hn₁
    exact ⟨m', ⟨k, hk, k', hk', m', hm', rfl, rfl⟩, hR'⟩
  case rfefd =>
    obtain ⟨k, hk, ⟨pc, n₁⟩, hpc, ⟨cpsr, n₂⟩, hcpsr, rfl, rfl⟩ := he
    obtain ⟨m₁, hm₁, hR₁⟩ := h.load hR hpc
    obtain ⟨m', hm', hR'⟩ := h.load hR₁ hcpsr
    exact ⟨m', ⟨k, hk, (pc, m₁), hm₁, (cpsr, m'), hm', rfl, rfl⟩, hR'⟩
  case mcr =>
    split at he
    next hp =>
      simp only [Option.bind_eq_some_iff, Option.some.injEq, St.mk.injEq] at he
      obtain ⟨x, hx, n₁, hn₁, rfl, rfl⟩ := he
      obtain ⟨m', hm', hR'⟩ := h.mcr hR hn₁
      refine ⟨m', ?_, hR'⟩
      simp [hp, hx, hm']
    next => exact absurd he (by simp)
  case mrc =>
    split at he
    next hp =>
      simp only [Option.bind_eq_some_iff, Option.some.injEq, St.mk.injEq] at he
      obtain ⟨x, hx, c, hc, rfl, rfl⟩ := he
      refine ⟨m, ?_, hR⟩
      simp [hp, h.mrc hR hx, hc]
    next => exact absurd he (by simp)
  case bx =>
    obtain ⟨a, ha, he⟩ := he
    split at he
    next hal =>
      obtain ⟨rfl, rfl⟩ := St.mk.inj (Option.some.inj he)
      exact ⟨m, ⟨a, ha, by rw [if_pos hal]⟩, hR⟩
    next => exact absurd he (by simp)
  -- the others do not touch the memory system
  case b | ldrPc | cps | cpsid | dsb | isb | wfi | nop =>
    obtain ⟨rfl, rfl⟩ := he
    exact ⟨m, ⟨rfl, rfl⟩, hR⟩
  case bl | adr | ldrLit | mov =>
    obtain ⟨c, hc, rfl, rfl⟩ := he
    exact ⟨m, ⟨c, hc, rfl, rfl⟩, hR⟩
  case cmp =>
    obtain ⟨x, hx, rfl, rfl⟩ := he
    exact ⟨m, ⟨x, hx, rfl, rfl⟩, hR⟩
  case movReg | orr | sub | cmpReg | mrsSpsr | msrSpsr =>
    obtain ⟨x, hx, y, hy, rfl, rfl⟩ := he
    exact ⟨m, ⟨x, hx, y, hy, rfl, rfl⟩, hR⟩
  case subReg =>
    obtain ⟨x, hx, y, hy, c, hc, rfl, rfl⟩ := he
    exact ⟨m, ⟨x, hx, y, hy, c, hc, rfl, rfl⟩, hR⟩

/-- One fetched instruction. -/
theorem step (h : Sim B B' R) (hR : R m n) {core core' : Core} {n' : ν}
    (hs : Isa.step B' ⟨core, n⟩ = some ⟨core', n'⟩) :
    ∃ m', Isa.step B ⟨core, m⟩ = some ⟨core', m'⟩ ∧ R m' n' := by
  rw [Isa.step] at hs ⊢
  split at hs
  next => exact absurd hs (by simp)
  next hthumb =>
    simp only [Option.bind_eq_bind, Option.bind_eq_some_iff] at hs
    obtain ⟨i, hi, he⟩ := hs
    obtain ⟨m', hm', hR'⟩ := h.exec (h.idle hR) he
    refine ⟨m', ?_, hR'⟩
    simp only [if_neg hthumb, Option.bind_eq_bind, Option.bind_eq_some_iff]
    exact ⟨i, h.fetch (h.idle hR) hi, hm'⟩

/-- **Code runs on the one memory system as on the other.** -/
theorem run (h : Sim B B' R) (hR : R m n) {k : ℕ} {core core' : Core} {n' : ν}
    (hs : Isa.run B' k ⟨core, n⟩ = some ⟨core', n'⟩) :
    ∃ m', Isa.run B k ⟨core, m⟩ = some ⟨core', m'⟩ ∧ R m' n' := by
  induction k generalizing core m n with
  | zero =>
    obtain ⟨rfl, rfl⟩ := St.mk.inj (Option.some.inj hs)
    exact ⟨m, rfl, hR⟩
  | succ k ih =>
    rw [Isa.run, Option.bind_eq_bind, Option.bind_eq_some_iff] at hs
    obtain ⟨⟨core₁, n₁⟩, hn₁, hrest⟩ := hs
    obtain ⟨m₁, hm₁, hR₁⟩ := h.step hR hn₁
    obtain ⟨m', hm', hR'⟩ := ih hR₁ hrest
    refine ⟨m', ?_, hR'⟩
    rw [Isa.run, hm₁]
    exact hm'

end Bus.Sim

/-! ### Straight-line code -/

/-- An instruction that does not branch. -/
def Instr.straight : Instr → Bool
  | .b _ _ | .bl _ | .bx _ | .ldrPc _ | .popReturn _ | .rfefd => false
  | _ => true

namespace Core

variable {c c' : Core}

@[simp] lemma pc_next (c : Core) : c.next.pc = c.pc + 4#32 := rfl

lemma pc_set {v : BitVec 32} {reg : Reg} (h : c.set v reg = some c') : c'.pc = c.pc := by
  cases reg with
  | r i =>
    obtain rfl := Option.some.inj h
    rfl
  | sp =>
    rw [set, Option.map_eq_some_iff] at h
    obtain ⟨k, -, rfl⟩ := h
    rfl
  | lr =>
    rw [set, Option.map_eq_some_iff] at h
    obtain ⟨k, -, rfl⟩ := h
    rfl

lemma pc_setAll {regs : List Reg} {ws : List (BitVec 32)} (h : c.setAll regs ws = some c') :
    c'.pc = c.pc := by
  induction regs generalizing c ws with
  | nil =>
    obtain rfl : c = c' := by simpa [setAll] using h
    rfl
  | cons reg regs ih =>
    cases ws with
    | nil =>
      obtain rfl : c = c' := by simpa [setAll] using h
      rfl
    | cons w ws =>
      rw [setAll, Option.bind_eq_bind, Option.bind_eq_some_iff] at h
      obtain ⟨c₁, h₁, h⟩ := h
      rw [ih h, pc_set h₁]

end Core

section Blocks

variable {μ : Type} {B : Bus μ} {s s' : St μ}

/-- Only a branch leaves the sequence of instructions. -/
lemma pc_exec {i : Instr} (hi : i.straight = true) (h : exec B s i = some s') :
    s'.core.pc = s.core.pc + 4#32 := by
  cases i <;> simp only [exec, Option.bind_eq_bind, Option.bind_eq_some_iff, Option.pure_def,
    Option.some.injEq, Instr.straight, Bool.false_eq_true] at h hi
  case adr | ldrLit | mov =>
    obtain ⟨c, hc, rfl⟩ := h
    rw [Core.pc_next, Core.pc_set hc]
  case movReg | orr | sub =>
    obtain ⟨x, -, c, hc, rfl⟩ := h
    rw [Core.pc_next, Core.pc_set hc]
  case subReg =>
    obtain ⟨x, -, y, -, c, hc, rfl⟩ := h
    rw [Core.pc_next, Core.pc_set hc]
  case cmp =>
    obtain ⟨x, -, rfl⟩ := h
    rfl
  case cmpReg =>
    obtain ⟨x, -, y, -, rfl⟩ := h
    rfl
  case ldr =>
    obtain ⟨a, -, w, -, c, hc, rfl⟩ := h
    rw [Core.pc_next, Core.pc_set hc]
  case str =>
    obtain ⟨w, -, a, -, sys, -, rfl⟩ := h
    rfl
  case strPost =>
    split at h
    · simp only [Option.bind_eq_some_iff, Option.some.injEq] at h
      obtain ⟨w, -, a, -, sys, -, c, hc, rfl⟩ := h
      rw [Core.pc_next, Core.pc_set hc]
    · obtain rfl := Option.some.inj h
      rfl
  case push =>
    obtain ⟨sp, -, ws, -, sys, -, c, hc, rfl⟩ := h
    rw [Core.pc_next, Core.pc_set hc]
  case pop =>
    obtain ⟨sp, -, ws, -, c, hc, c', hc', rfl⟩ := h
    rw [Core.pc_next, Core.pc_setAll hc', Core.pc_set hc]
  case srsdb =>
    obtain ⟨k, -, k', -, sys, -, rfl⟩ := h
    rfl
  case cps | cpsid =>
    obtain rfl := h
    split <;> rfl
  case mrsSpsr =>
    obtain ⟨k, -, c, hc, rfl⟩ := h
    rw [Core.pc_next, Core.pc_set hc]
  case msrSpsr =>
    obtain ⟨k, -, x, -, rfl⟩ := h
    rfl
  case mcr =>
    split at h
    · simp only [Option.bind_eq_some_iff, Option.some.injEq] at h
      obtain ⟨x, -, sys, -, rfl⟩ := h
      rfl
    · exact absurd h (by simp)
  case mrc =>
    split at h
    · simp only [Option.bind_eq_some_iff, Option.some.injEq] at h
      obtain ⟨x, -, c, hc, rfl⟩ := h
      rw [Core.pc_next, Core.pc_set hc]
    · exact absurd h (by simp)
  case dsb | isb | wfi | nop =>
    obtain rfl := h
    rfl

/-- Some instructions stand at an address, whatever the memory system does. -/
def Sits (B : Bus μ) (a : BitVec 32) : List Instr → Prop
  | [] => True
  | i :: is => (∀ m, B.fetch m true a = some i) ∧ Sits B (a + 4#32) is

lemma sits_append {a : BitVec 32} {is js : List Instr} :
    Sits B a (is ++ js) ↔ Sits B a is ∧ Sits B (a + BitVec.ofNat 32 (4 * is.length)) js := by
  induction is generalizing a with
  | nil => simp [Sits]
  | cons i is ih =>
    have haddr : a + 4#32 + BitVec.ofNat 32 (4 * is.length) =
        a + BitVec.ofNat 32 (4 * (is.length + 1)) := by
      rw [BitVec.add_assoc, ← BitVec.ofNat_add, Nat.mul_succ, Nat.add_comm]
    rw [List.cons_append, Sits, Sits, ih, haddr, List.length_cons, and_assoc]

/-- The instruction that stands at the program counter is executed. -/
lemma step_of_sits {i : Instr} {is : List Instr} (hs : Sits B s.core.pc (i :: is))
    (hp : privileged s.core.cpsr = true) (harm : s.core.cpsr.getLsbD 5 = false) :
    step B s = exec B { s with sys := B.idle s.sys } i := by
  rw [step, harm]
  simp only [Bool.false_eq_true, if_false, hp, hs.1, Option.bind_eq_bind, Option.bind_some]

/-- Some instructions, one after the other, with privilege and in ARM state. -/
def execAll (B : Bus μ) (s : St μ) : List Instr → Option (St μ)
  | [] => some s
  | i :: is =>
    if privileged s.core.cpsr && !s.core.cpsr.getLsbD 5 then do
      let s' ← exec B { s with sys := B.idle s.sys } i
      execAll B s' is
    else none

lemma execAll_cons {i : Instr} {is : List Instr} (hp : privileged s.core.cpsr = true)
    (harm : s.core.cpsr.getLsbD 5 = false)
    (h : exec B { s with sys := B.idle s.sys } i = some s') :
    execAll B s (i :: is) = execAll B s' is := by
  rw [execAll, hp, harm, h]
  rfl

/-- **Straight-line code runs from its first to its last instruction**, which may be a
branch. -/
theorem run_of_sits {is : List Instr} (hs : Sits B s.core.pc is)
    (hline : ∀ i ∈ is.dropLast, i.straight = true) (h : execAll B s is = some s') :
    run B is.length s = some s' := by
  induction is generalizing s with
  | nil => exact h
  | cons i is ih =>
    rw [execAll] at h
    split at h
    next hcpsr =>
      simp only [Bool.and_eq_true, Bool.not_eq_true'] at hcpsr
      rw [Option.bind_eq_bind, Option.bind_eq_some_iff] at h
      obtain ⟨s₁, h₁, h⟩ := h
      have hstep : step B s = some s₁ := (step_of_sits hs hcpsr.1 hcpsr.2).trans h₁
      rw [List.length_cons, run, hstep]
      cases is with
      | nil => exact h
      | cons j is =>
        have hpc := pc_exec (hline i (by simp)) h₁
        refine ih (hpc ▸ hs.2) (fun i hi => hline i ?_) h
        rw [List.dropLast_cons_of_ne_nil (by simp)]
        exact List.mem_cons_of_mem _ hi
    next => exact absurd h (by simp)

lemma run_add (j k : ℕ) : run B (j + k) s = (run B j s).bind fun s' => run B k s' := by
  induction j generalizing s with
  | zero => rw [Nat.zero_add]; rfl
  | succ j ih =>
    rw [Nat.succ_add, run, run, Option.bind_eq_bind, Option.bind_assoc]
    exact congrArg _ (funext fun s' => ih)

/-- The core reaches a state. -/
def Leads (B : Bus μ) (s s' : St μ) : Prop := ∃ n, run B n s = some s'

lemma Leads.trans {s'' : St μ} (h : Leads B s s') (h' : Leads B s' s'') : Leads B s s'' := by
  obtain ⟨j, hj⟩ := h
  obtain ⟨k, hk⟩ := h'
  refine ⟨j + k, ?_⟩
  rw [run_add, hj, Option.bind_some, hk]

/-- Straight-line code is left behind. -/
lemma leads_of_sits {is : List Instr} (hs : Sits B s.core.pc is)
    (hline : ∀ i ∈ is.dropLast, i.straight = true) (h : execAll B s is = some s') :
    Leads B s s' := ⟨is.length, run_of_sits hs hline h⟩

/-- What the core reaches on the one memory system, it reaches on the other. -/
lemma Bus.Sim.leads {ν : Type} {B' : Bus ν} {R : μ → ν → Prop} (h : Bus.Sim B B' R) {m : μ}
    {n n' : ν} (hR : R m n) {core core' : Core} (hr : Leads B' ⟨core, n⟩ ⟨core', n'⟩) :
    ∃ m', Leads B ⟨core, m⟩ ⟨core', m'⟩ ∧ R m' n' := by
  obtain ⟨k, hk⟩ := hr
  obtain ⟨m', hm', hR'⟩ := h.run hR hk
  exact ⟨m', ⟨k, hm'⟩, hR'⟩

end Blocks

/-! ### Modes and flags -/

section Modes

variable (psr : BitVec 32) {mode : BitVec 32}

lemma withMode_and (psr mode : BitVec 32) : withMode psr mode &&& 0x1F#32 = mode &&& 0x1F#32 := by
  rw [withMode]
  ext i hi
  simp only [BitVec.getElem_and, BitVec.getElem_or, BitVec.getElem_not]
  cases psr[i] <;> cases mode[i] <;> cases (0x1F#32)[i] <;> rfl

/-- Changing the mode leaves the other bits. -/
lemma getLsbD_withMode {i : ℕ} (hi : 5 ≤ i) (hi' : i < 32) (hm : mode.getLsbD i = false) :
    (withMode psr mode).getLsbD i = psr.getLsbD i := by
  have hmask : ∀ i < 32, 5 ≤ i → (~~~0x1F#32).getLsbD i = true := by decide
  rw [withMode, BitVec.getLsbD_or, BitVec.getLsbD_and, hm, hmask i hi' hi, Bool.and_true,
    Bool.or_false]

variable {psr} in
lemma bankOf_of_and (h : psr &&& 0x1F#32 = mode) (hm : mode &&& 0x1F#32 = mode) :
    bankOf psr = bankOf mode := by
  simp only [bankOf, h, hm]

variable {psr} in
lemma privileged_of_and (h : psr &&& 0x1F#32 = mode) (hm : mode ≠ 0x10#32) :
    privileged psr = true := by
  simp only [privileged, h, ne_eq, hm, not_false_eq_true, decide_true]

lemma bankOf_svc : bankOf (withMode psr 0x13#32) = some .svc :=
  bankOf_of_and (withMode_and psr 0x13#32) (by decide)

lemma privileged_svc : privileged (withMode psr 0x13#32) = true :=
  privileged_of_and (withMode_and psr 0x13#32) (by decide)

lemma arm_svc : (withMode psr 0x13#32).getLsbD 5 = psr.getLsbD 5 :=
  getLsbD_withMode psr (by omega) (by omega) (by decide)

lemma bankOf_sys : bankOf (withMode psr 0x1F#32) = some .usr :=
  bankOf_of_and (withMode_and psr 0x1F#32) (by decide)

lemma privileged_sys : privileged (withMode psr 0x1F#32) = true :=
  privileged_of_and (withMode_and psr 0x1F#32) (by decide)

lemma arm_sys : (withMode psr 0x1F#32).getLsbD 5 = psr.getLsbD 5 :=
  getLsbD_withMode psr (by omega) (by omega) (by decide)

end Modes

namespace Core

variable (c : Core)

@[simp] lemma pc_compare (x y : BitVec 32) : (c.compare x y).pc = c.pc := rfl

/-- A comparison changes the flags only. -/
lemma getLsbD_compare (x y : BitVec 32) {i : ℕ} (hi : i < 28) :
    (c.compare x y).cpsr.getLsbD i = c.cpsr.getLsbD i := by
  simp only [compare, BitVec.getLsbD_append, hi, if_true, decide_true, BitVec.getLsbD_setWidth,
    Bool.true_and]

lemma mode_compare (x y : BitVec 32) :
    (c.compare x y).cpsr &&& 0x1F#32 = c.cpsr &&& 0x1F#32 := by
  have hmask : ∀ i < 32, 28 ≤ i → (0x1F#32).getLsbD i = false := by decide
  apply BitVec.eq_of_getLsbD_eq
  intro i hi
  rw [BitVec.getLsbD_and, BitVec.getLsbD_and]
  by_cases h : i < 28
  · rw [c.getLsbD_compare x y h]
  · rw [hmask i hi (by omega), Bool.and_false, Bool.and_false]

lemma privileged_compare (x y : BitVec 32) :
    privileged (c.compare x y).cpsr = privileged c.cpsr := by
  simp only [privileged, mode_compare]

lemma holds_eq_compare (x : BitVec 32) : (c.compare x 0#32).holds .eq = decide (x = 0#32) := by
  simp only [holds, compare, BitVec.getLsbD_append]
  simp

variable {c}

lemma setAll_append {regs : List Reg} {ws : List (BitVec 32)} (h : regs.length = ws.length)
    (regs' : List Reg) (ws' : List (BitVec 32)) :
    c.setAll (regs ++ regs') (ws ++ ws') =
      (c.setAll regs ws).bind fun c' => c'.setAll regs' ws' := by
  induction regs generalizing c ws with
  | nil =>
    obtain rfl : ws = [] := List.length_eq_zero_iff.1 h.symm
    rfl
  | cons reg regs ih =>
    cases ws with
    | nil => exact absurd h (by simp)
    | cons w ws =>
      simp only [List.cons_append, setAll, Option.bind_eq_bind, Option.bind_assoc]
      exact congrArg _ (funext fun c' => ih (by simpa using h))

end Core

end RingNova.Isa
