/-
# What `schedule` does

The specification of a call of `schedule` with a request pending, for a process table of any
size: whom it dispatches (`Chosen`), and what it does to the states of the processes, the flag
and the hint (`ScheduleSpec`).

The walk adds a start index and a loop counter in 32 bits, so it needs that this sum does not
wrap around.  It cannot: a table of `N` entries of 112 bytes fits into the address space.
-/
import RingNova.Kernel.Process

namespace RingNova

/-- `sizeof(process_t)`: the 18 words of `ctx` and ten more. -/
def sizeofProcess : ℕ := 112

namespace Kernel

variable {N : ℕ}

/-! ### Cyclic order -/

/-- The process `d` places after `c` in cyclic order. -/
def after (c : Fin N) (d : ℕ) : Fin N := ⟨(c + d) % N, Nat.mod_lt _ c.pos⟩

/-- The first process strictly after `c` in cyclic order that meets `P`. -/
def FirstAfter (P : Fin N → Prop) (c n : Fin N) : Prop :=
  ∃ d, 0 < d ∧ d < N ∧ n = after c d ∧ P n ∧ ∀ e, 0 < e → e < d → ¬ P (after c e)

lemma after_ringDist (c n : Fin N) : after c (ringDist c n) = n := by
  have hc := c.isLt
  have hn := n.isLt
  ext
  show (c + ringDist c n) % N = n
  unfold ringDist
  split
  · have hlt : (c : ℕ) < n := ‹c < n›
    rw [show (c : ℕ) + (n - c) = n by omega, Nat.mod_eq_of_lt hn]
  · rw [show (c : ℕ) + (n + N - c) = n + N by omega, Nat.add_mod_right, Nat.mod_eq_of_lt hn]

lemma ringDist_after (c : Fin N) {d : ℕ} (h0 : 0 < d) (hd : d < N) :
    ringDist c (after c d) = d := by
  have hc := c.isLt
  have hval : (after c d : ℕ) = (c + d) % N := rfl
  by_cases h : c + d < N
  · rw [Nat.mod_eq_of_lt h] at hval
    rw [ringDist, if_pos (by rw [Fin.lt_def]; omega), hval]
    omega
  · rw [Nat.mod_eq_sub_mod (by omega), Nat.mod_eq_of_lt (by omega)] at hval
    rw [ringDist, if_neg (by rw [Fin.lt_def]; omega), hval]
    omega

lemma after_ne (c : Fin N) {d : ℕ} (h0 : 0 < d) (hd : d < N) : after c d ≠ c := by
  intro h
  have hdist := ringDist_after c h0 hd
  rw [h, ringDist, if_neg (lt_irrefl c)] at hdist
  omega

lemma FirstAfter.ne {P : Fin N → Prop} {c n : Fin N} (h : FirstAfter P c n) : n ≠ c := by
  obtain ⟨d, h0, hd, rfl, -, -⟩ := h
  exact after_ne c h0 hd

lemma FirstAfter.unique {P : Fin N → Prop} {c n n' : Fin N} (h : FirstAfter P c n)
    (h' : FirstAfter P c n') : n = n' := by
  obtain ⟨d, h0, -, rfl, hP, hmin⟩ := h
  obtain ⟨d', h0', -, rfl, hP', hmin'⟩ := h'
  rcases Nat.lt_trichotomy d d' with hlt | rfl | hlt
  · exact absurd hP (hmin' d h0 hlt)
  · rfl
  · exact absurd hP' (hmin d' h0' hlt)

/-- What the ring walk finds is the first one. -/
lemma firstAfter_of_nearest {P : Fin N → Prop} {c n : Fin N} (hn : n ≠ c) (hP : P n)
    (hmin : ∀ p, p ≠ c → P p → ringDist c n ≤ ringDist c p) : FirstAfter P c n := by
  refine ⟨ringDist c n, ringDist_pos c n, ringDist_lt_of_ne hn, (after_ringDist c n).symm, hP, ?_⟩
  intro e h0 he hPe
  have heN : e < N := he.trans (ringDist_lt_of_ne hn)
  have hle := hmin _ (after_ne c h0 heN) hPe
  rw [ringDist_after c h0 heN] at hle
  omega

/-! ### The specification -/

/-- Whom a call of `schedule` is to dispatch while `c` is the current process. -/
inductive Chosen (k : Kernel N) (c : Fin N) : Option (Fin N) → Prop
  /-- The hinted process, if it can run. -/
  | hint (h : Fin N) (hh : k.wakeHint = some h) (hne : h ≠ c) (hrun : k.Runnable h) :
    Chosen k c (some h)
  /-- Otherwise the first runnable process after the current one. -/
  | ring (n : Fin N) (hno : ∀ h, k.wakeHint = some h → h ≠ c → ¬ k.Runnable h)
    (hn : FirstAfter k.Runnable c n) : Chosen k c (some n)
  /-- Otherwise nobody. -/
  | nobody (hnone : ∀ n, n ≠ c → ¬ k.Runnable n) : Chosen k c none

/-- What a call of `schedule` that dispatches `d` does to the globals. -/
structure ScheduleSpec (k k' : Kernel N) (c : Fin N) (d : Option (Fin N)) : Prop where
  current : k'.current = some (d.getD c)
  /-- The dispatched process is running... -/
  dispatched : ∀ n, d = some n → k'.st n = .running
  /-- ...the previous one is demoted exactly if it was running... -/
  demoted : ∀ n, d = some n → k'.st c = if k.st c = .running then .ready else k.st c
  /-- ...and nobody else is touched; nobody at all without a dispatch. -/
  others : ∀ p, d ≠ some p → (p = c → d = none) → k'.st p = k.st p
  needReschedule : k'.needReschedule = false
  wakeHint : k'.wakeHint = none

lemma Chosen.unique {k : Kernel N} {c : Fin N} {d d' : Option (Fin N)} (h : Chosen k c d)
    (h' : Chosen k c d') : d = d' := by
  have hring : ∀ {n}, FirstAfter k.Runnable c n → n ≠ c ∧ k.Runnable n := by
    intro n hn
    obtain ⟨e, -, -, -, hrun, -⟩ := id hn
    exact ⟨hn.ne, hrun⟩
  cases h with
  | hint n hh hne hrun =>
    cases h' with
    | hint n' hh' => exact hh.symm.trans hh'
    | ring n' hno => exact absurd hrun (hno n hh hne)
    | nobody hnone => exact absurd hrun (hnone n hne)
  | ring n hno hn =>
    cases h' with
    | hint n' hh' hne' hrun' => exact absurd hrun' (hno n' hh' hne')
    | ring n' hno' hn' => exact congrArg some (hn.unique hn')
    | nobody hnone => exact absurd (hring hn).2 (hnone n (hring hn).1)
  | nobody hnone =>
    cases h' with
    | hint n' hh' hne' hrun' => exact absurd hrun' (hnone n' hne')
    | ring n' hno' hn' => exact absurd (hring hn').2 (hnone n' (hring hn').1)
    | nobody => rfl

/-- The choice that `schedule` makes. -/
lemma schedule_chosen {k : Kernel N} {c : Fin N} (hN : 2 * N ≤ 2 ^ 32)
    (hpid : ∀ p, (k.processes p).pid = BitVec.ofNat 32 p) (hc : k.current = some c)
    (hreq : k.needReschedule = true) :
    ∃ d, Chosen k c d ∧ k.schedule.2 = d.map (fun n => (c, n)) ∧
      (d = none ∧ k.schedule.1 = k.clearRequest ∨
        ∃ n byHint, d = some n ∧ n ≠ c ∧
          k.schedule.1 = k.clearRequest.performSwitch c n byHint) := by
  rcases schedule_cases hN hc hreq with ⟨n, byHint, hn, hrun, -, heq⟩ | ⟨hnone, heq⟩
  · have hchosen : Chosen k c (some n) := by
      rcases schedule_choice hc heq with ⟨hh, -⟩ | ⟨hno, hwalk, -⟩
      · exact .hint n hh hn hrun
      · -- no usable hint: the walk has found the nearest
        refine .ring n hno (firstAfter_of_nearest hn hrun ?_)
        intro p hp hrunp
        exact ringWalk_nearest hN (hpid c) hwalk hp hrunp
    exact ⟨some n, hchosen, by rw [heq]; rfl, Or.inr ⟨n, byHint, rfl, hn, by rw [heq]⟩⟩
  · exact ⟨none, .nobody hnone, by rw [heq]; rfl, Or.inl ⟨rfl, by rw [heq]⟩⟩

/-- The globals after `perform_switch`. -/
lemma performSwitch_spec (k : Kernel N) {c n : Fin N} (hn : n ≠ c) (byHint : Bool) :
    ScheduleSpec k (k.clearRequest.performSwitch c n byHint) c (some n) := by
  have hst := fun p => st_performSwitch k.clearRequest c n byHint p
  refine ⟨current_performSwitch _ _ _ _, ?_, ?_, ?_, ?_, ?_⟩
  · rintro m hm
    obtain rfl := Option.some.inj hm
    rw [hst, if_pos rfl]
  · rintro m -
    rw [hst, if_neg hn.symm]
    by_cases hrun : k.st c = .running
    · exact (if_pos ⟨rfl, hrun⟩).trans (if_pos hrun).symm
    · exact (if_neg fun h => hrun h.2).trans (if_neg hrun).symm
  · intro p hp hpc
    have hpn : p ≠ n := fun h => hp (by rw [h])
    rw [hst, if_neg hpn, if_neg fun h => absurd (hpc h.1) (by simp)]
    rfl
  · rw [needReschedule_performSwitch]
    rfl
  · rw [wakeHint_performSwitch]
    rfl

/-- **What `schedule` does**, for every number of processes and every state of them.  Called
with a request, it dispatches exactly the one that is to be chosen, changes the states
accordingly, and leaves neither a request nor a hint; and it switches whenever anybody else can
run. -/
theorem schedule_spec (hN : N * sizeofProcess ≤ 2 ^ 32) (k : Kernel N) {c : Fin N}
    (hpid : ∀ p, (k.processes p).pid = BitVec.ofNat 32 p) (hc : k.current = some c)
    (hreq : k.needReschedule = true) :
    (∃ d, k.schedule.2 = d.map (fun n => (c, n)) ∧ ScheduleSpec k k.schedule.1 c d) ∧
      (∀ d : Option (Fin N), k.schedule.2 = d.map (fun n => (c, n)) ↔ Chosen k c d) ∧
      ((∃ p, p ≠ c ∧ k.Runnable p) → ∃ n, k.schedule.2 = some (c, n)) := by
  have hN' : 2 * N ≤ 2 ^ 32 := by
    rw [sizeofProcess] at hN
    omega
  obtain ⟨d, hchosen, hsw, hglobals⟩ := schedule_chosen hN' hpid hc hreq
  refine ⟨⟨d, hsw, ?_⟩, ?_, ?_⟩
  · rcases hglobals with ⟨rfl, hk⟩ | ⟨n, byHint, rfl, hn, hk⟩
    · rw [hk]
      refine ⟨hc, ?_, ?_, fun _ _ _ => rfl, rfl, rfl⟩ <;> exact fun _ h => absurd h (by simp)
    · rw [hk]
      exact performSwitch_spec k hn byHint
  · intro d'
    constructor
    · intro h
      have hinj : Function.Injective fun n : Fin N => (c, n) := fun _ _ h => (Prod.mk.inj h).2
      obtain rfl := Option.map_injective hinj (hsw.symm.trans h)
      exact hchosen
    · intro h
      rw [hsw, hchosen.unique h]
  · rintro ⟨p, hp, hrun⟩
    cases hchosen with
    | hint n => exact ⟨n, hsw⟩
    | ring n => exact ⟨n, hsw⟩
    | nobody hnone => exact absurd hrun (hnone p hp)

end Kernel

/-- After boot, a request hands the CPU from process 0 to process 1. -/
theorem schedule_spec_boot :
    ({ bootKernel qemuLayout with needReschedule := true } : Kernel numProcesses).schedule.2 =
      some (0, 1) := by
  have h := (Kernel.schedule_spec (by decide)
    { bootKernel qemuLayout with needReschedule := true } (c := 0) (fun _ => rfl) rfl rfl).2.1
  refine (h (some 1)).2 (.ring 1 (by simp [bootKernel])
    ⟨1, by decide, by decide, rfl, Or.inl rfl, ?_⟩)
  intro e h0 he
  omega

end RingNova
