/-
# User ranges and the user window

What `valid_user_ptr` accepts, and why the loops of `sys_write` and `sys_ps` never leave
an accepted range: `validUserPtr_iff` removes the 32-bit arithmetic, and
`length_sysPsBytes` bounds what `sys_ps` writes.
-/
import RingNova.Kernel.Syscall

namespace RingNova

/-- The user window of the virtual address space. -/
def inWindow (va : Word) : Bool := userVirtBase ≤ va ∧ va < userVirtBase + userRegionSize

lemma toNat_userVirtBase : userVirtBase.toNat = 0x40000000 := rfl

lemma toNat_userRegionSize : userRegionSize.toNat = 0x100000 := rfl

lemma toNat_windowEnd : (userVirtBase + userRegionSize).toNat = 0x40100000 := rfl

/-- `valid_user_ptr` over unbounded integers. -/
lemma validUserPtr_iff (addr len : Word) :
    validUserPtr addr len = true ↔
      0x40000000 ≤ addr.toNat ∧ addr.toNat + len.toNat ≤ 0x40100000 := by
  have hs : (addr + len).toNat = (addr.toNat + len.toNat) % 2 ^ 32 := BitVec.toNat_add _ _
  have ha := addr.isLt
  have hl := len.isLt
  simp only [validUserPtr, BitVec.lt_def, toNat_windowEnd, toNat_userVirtBase, hs, gt_iff_lt]
  constructor
  · intro h
    split at h
    · exact absurd h (by simp)
    split at h
    · exact absurd h (by simp)
    split at h
    · exact absurd h (by simp)
    omega
  · rintro ⟨h1, h2⟩
    rw [if_neg (by omega), if_neg (by omega), if_neg (by omega)]

lemma inWindow_iff (va : Word) :
    inWindow va = true ↔ 0x40000000 ≤ va.toNat ∧ va.toNat < 0x40100000 := by
  rw [inWindow, decide_eq_true_iff, BitVec.le_def, BitVec.lt_def, toNat_windowEnd,
    toNat_userVirtBase]

/-- Every address of an accepted range is in the window. -/
lemma inWindow_of_valid {addr len : Word} (h : validUserPtr addr len = true) {i : Word}
    (hi : i.toNat < len.toNat) : inWindow (addr + i) = true := by
  obtain ⟨h1, h2⟩ := (validUserPtr_iff addr len).1 h
  rw [inWindow_iff, BitVec.toNat_add]
  omega

/-- A range of the window without its first address. -/
lemma window_succ {addr : Word} {n : ℕ}
    (h : 0x40000000 ≤ addr.toNat ∧ addr.toNat + (n + 1) ≤ 0x40100000) :
    inWindow addr = true ∧
      (0x40000000 ≤ (addr + 1#32).toNat ∧ (addr + 1#32).toNat + n ≤ 0x40100000) := by
  refine ⟨(inWindow_iff addr).2 (by omega), ?_⟩
  rw [BitVec.toNat_add]
  have : (1#32).toNat = 1 := rfl
  omega

/-! ### `sys_ps` stays inside the buffer -/

lemma length_psCopy {size : ℕ} (s out : List Byte) (h : out.length < size) :
    (psCopy size s out).length < size := by
  induction s generalizing out with
  | nil => exact h
  | cons c s ih =>
    rw [psCopy]
    split
    · exact ih (out ++ [c]) (by simpa using by assumption)
    · exact h

lemma length_psEntry {size : ℕ} (p : Pcb) (out : List Byte) (h : out.length ≤ size) :
    (psEntry size p out).1.length ≤ size := by
  unfold psEntry
  split
  · exact h
  next h1 =>
    dsimp only
    split
    · simp
      omega
    next h2 =>
      have h3 : ((out ++ [0x30#8 + p.pid.setWidth 8]) ++ [0x20#8]).length < size := by
        simp only [List.length_append, List.length_cons, List.length_nil] at h2 ⊢
        omega
      have h4 := length_psCopy p.name _ h3
      split
      · exact h4.le
      next h5 =>
        have h6 : (psCopy size p.name
            (out ++ [0x30#8 + p.pid.setWidth 8] ++ [0x20#8]) ++ [0x20#8]).length < size := by
          simp only [List.length_append, List.length_cons, List.length_nil] at h5 ⊢
          omega
        have h7 := length_psCopy (stateName p.state) _ h6
        split
        · exact h7.le
        next h8 =>
          simp only [List.length_append, List.length_cons, List.length_nil] at h8 ⊢
          omega

lemma length_psLoop {size : ℕ} (ps : List Pcb) (out : List Byte) (h : out.length ≤ size) :
    (psLoop size ps out).length ≤ size := by
  induction ps generalizing out with
  | nil => exact h
  | cons p ps ih =>
    have hp := length_psEntry p out h
    rw [psLoop]
    split
    next out' heq => exact ih out' (by rw [heq] at hp; exact hp)
    next out' heq => rw [heq] at hp; exact hp

lemma length_sysPsBytes (k : Kernel numProcesses) (size : Word) :
    (k.sysPsBytes size).length ≤ size.toNat :=
  length_psLoop _ _ (Nat.zero_le _)

end RingNova
