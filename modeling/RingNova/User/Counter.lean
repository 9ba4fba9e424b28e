/-
# The delay loop of the counter

`delay_wall` of `user/apps/counter/counter.c`.  It reads the tick counter, and then polls it until
the difference to the first reading is large enough.  Both readings come through `sys_ticks`, so
they are the numbers of ticks since boot modulo `2 ^ 32` (`Poll.eq`).  The `long` in between has
32 bits, so the conversions to it and back keep the register as it is.

The difference is taken modulo `2 ^ 32` as well.  As long as less than a wrap-around can pass
unseen it is the true one (`toNat_sub_of_lt`), whatever the first reading was, and so the loop
ends with the first poll that is late enough (`delay_wall_returns`).
-/
import RingNova.Arm.Ticks

namespace RingNova

open Trace

/-! ### `delay_wall` -/

/-- The loop of `delay_wall`, with what its calls of `sys_ticks` return.  The result is the
number of the call after which the loop ends.  Between two calls there is one of `sys_yield`. -/
def delayLoop (ticks start : Word) : List Word → Option ℕ
  | [] => none
  | now :: polls =>
    if now - start < ticks then (delayLoop ticks start polls).map (· + 1) else some 0

/-- `delay_wall`: the first call of `sys_ticks` is the reading before the loop. -/
def delayWall (ticks : Word) : List Word → Option ℕ
  | [] => none
  | start :: polls => delayLoop ticks start polls

/-! ### Readings -/

section

variable {b : Board} (L : Layout b) (cc : CompiledC) (mem : Memory) (cpu : Cpu)

/-- A call of `sys_ticks` by a user program delivers `v`, after this number of timer interrupts
since boot. -/
def Poll (total : ℕ) (v : Word) : Prop :=
  ∃ es s s' c, run (step (armArch L cc) b) (armSys L cc mem cpu) es = some s ∧
    tickTotal b es = total ∧ InUser c s ∧ Syscall.ofNum (s.arch.cpu.r 7) = some .ticks ∧
    step (armArch L cc) b s .svc = some s' ∧ s'.arch.cpu.r 0 = v

variable {L cc mem cpu} {total : ℕ} {v : Word}

/-- **A reading is the true number of ticks**, modulo `2 ^ 32`. -/
lemma Poll.eq (h : Poll L cc mem cpu total v) : v = BitVec.ofNat 32 total := by
  obtain ⟨es, s, s', c, hs, rfl, hu, hnum, hs', rfl⟩ := h
  obtain ⟨⟨t, hsim⟩, hcount⟩ := tickCount_of_run hs
  obtain ⟨s'', hs'', -, hr0⟩ := hsim.ticks cc hu hnum
  obtain rfl := Option.some.inj (hs''.symm.trans hs')
  rw [hr0, hcount]

/-- There is a reading after every number of ticks. -/
lemma exists_poll (L : Layout b) (cc : CompiledC) (mem : Memory) (cpu : Cpu) (total : ℕ) :
    Poll L cc mem cpu total (BitVec.ofNat 32 total) := by
  obtain ⟨es, s, c, hs, htotal, hu, hnum⟩ := exists_call_ticks L cc mem cpu total
  obtain ⟨⟨t, hsim⟩, hcount⟩ := tickCount_of_run hs
  obtain ⟨s', hs', -, hr0⟩ := hsim.ticks cc hu hnum
  exact ⟨es, s, s', c, hs, htotal, hu, hnum, hs', by rw [hr0, hcount, htotal]⟩

end

/-! ### The difference of two readings -/

/-- Below a wrap-around the difference of two wrapped numbers is the true one. -/
lemma toNat_sub_of_lt {x y : ℕ} (hle : x ≤ y) (hlt : y - x < 2 ^ 32) :
    (BitVec.ofNat 32 y - BitVec.ofNat 32 x).toNat = y - x := by
  rw [BitVec.toNat_sub, BitVec.toNat_ofNat, BitVec.toNat_ofNat]
  omega

/-- Consecutive readings are in order, and less than a wrap-around apart, with `ticks` to
spare. -/
def Close (ticks : Word) (x y : ℕ) : Prop := x ≤ y ∧ y - x < 2 ^ 32 - ticks.toNat

/-- The loop, from a reading on that was not late enough, or was the first one. -/
lemma delayLoop_eq (ticks : Word) {start last : ℕ} {totals : List ℕ} (hle : start ≤ last)
    (hlast : last = start ∨ last - start < ticks.toNat)
    (hclose : (last :: totals).IsChain (Close ticks)) :
    delayLoop ticks (BitVec.ofNat 32 start) (totals.map (BitVec.ofNat 32)) =
      totals.findIdx? fun x => ticks.toNat ≤ x - start := by
  have hticks := ticks.isLt
  induction totals generalizing last with
  | nil => rfl
  | cons x totals ih =>
    obtain ⟨⟨hx, hgap⟩, hrest⟩ := List.isChain_cons_cons.1 hclose
    -- no wrap-around has passed since the first reading
    have hlt : x - start < 2 ^ 32 := by omega
    have hiff : BitVec.ofNat 32 x - BitVec.ofNat 32 start < ticks ↔ x - start < ticks.toNat := by
      rw [BitVec.lt_def, toNat_sub_of_lt (hle.trans hx) hlt]
    rw [List.map_cons, delayLoop, List.findIdx?_cons]
    by_cases hearly : x - start < ticks.toNat
    · rw [if_pos (hiff.2 hearly), ih (hle.trans hx) (Or.inr hearly) hrest,
        if_neg (by simpa using hearly)]
    · rw [if_neg (mt hiff.1 hearly), if_pos (by simpa using hearly)]

section

variable {b : Board} {L : Layout b} {cc : CompiledC} {mem : Memory} {cpu : Cpu}

lemma forall₂_poll {totals : List ℕ} {vs : List Word}
    (h : List.Forall₂ (Poll L cc mem cpu) totals vs) : vs = totals.map (BitVec.ofNat 32) := by
  induction h with
  | nil => rfl
  | cons hv _ ih => rw [List.map_cons, ih, hv.eq]

/-- **The delay.**  For every number of ticks, every total at the first reading, and every
sequence of totals at the later ones in which less than `2 ^ 32 - ticks` pass between two
readings: the loop ends with the first reading at which at least `ticks` have passed. -/
theorem delay_wall_returns (ticks : Word) {total : ℕ} {totals : List ℕ} {v : Word}
    {vs : List Word} (hclose : (total :: totals).IsChain (Close ticks))
    (hpolls : List.Forall₂ (Poll L cc mem cpu) (total :: totals) (v :: vs)) :
    delayWall ticks (v :: vs) = totals.findIdx? fun x => ticks.toNat ≤ x - total := by
  rw [forall₂_poll hpolls, List.map_cons, delayWall]
  exact delayLoop_eq ticks (le_refl _) (Or.inl rfl) hclose

end

/-- Three ticks, over a wrap-around of the counter. -/
theorem delay_wall_returns_wrap :
    delayWall 3#32 [0xFFFFFFFF#32, 0#32, 2#32, 5#32] = some 1 := by
  have hpolls : List.Forall₂ (Poll qemuLayout .zeroed (fun _ => 0#8) .zero)
      [2 ^ 32 - 1, 2 ^ 32, 2 ^ 32 + 2, 2 ^ 32 + 5] [0xFFFFFFFF#32, 0#32, 2#32, 5#32] := by
    refine .cons ?_ (.cons ?_ (.cons ?_ (.cons ?_ .nil))) <;> exact exists_poll _ _ _ _ _
  have hclose : [2 ^ 32 - 1, 2 ^ 32, 2 ^ 32 + 2, 2 ^ 32 + 5].IsChain (Close 3#32) := by
    simp [Close]
  rw [delay_wall_returns 3#32 hclose hpolls]
  rfl

end RingNova
