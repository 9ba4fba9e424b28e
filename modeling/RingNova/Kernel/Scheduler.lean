/-
# The scheduler

`kernel/sched/scheduler.c`.  `schedule` ends, when it switches, with a call of the
assembly routine `context_switch`; here it returns the pair of processes that the call is
made with, and the machine below does the rest.

`schedule_cases` says everything a call of `schedule` can do.  That the ring walk misses
nobody is a fact about the indices `(start + i) % N` alone (`exists_ringIndex`).
-/
import RingNova.Kernel.State

namespace RingNova

namespace Kernel

variable {N : ℕ}

/-- `scheduler_tick`: the timer callback. -/
def schedulerTick (k : Kernel N) : Kernel N := { k with needReschedule := true }

/-- `scheduler_request_resched`. -/
def schedulerRequestResched (k : Kernel N) : Kernel N := { k with needReschedule := true }

/-- `scheduler_wake_reader`. -/
def schedulerWakeReader (k : Kernel N) : Kernel N :=
  match k.blockedReader with
  | some p =>
    if k.st p = .blocked then
      { (k.setState p .ready).emit [.wake p] with
        blockedReader := none
        wakeHint := some p
        needReschedule := true }
    else k
  | none => k

/-- `perform_switch` up to its call of `context_switch`. -/
def performSwitch (k : Kernel N) (prev cand : Fin N) (byHint : Bool) : Kernel N :=
  let k := { k with switchCount := k.switchCount + 1#32 }
  let k := if k.st prev = .running then k.setState prev .ready else k
  { (k.setState cand .running).emit [.dispatch cand byHint] with current := some cand }

/-- The index visited by iteration `i` of the ring walk, in 32-bit arithmetic. -/
def ringIndex (start : ℕ) (h : 0 < N) (i : ℕ) : Fin N :=
  ⟨(start + i) % 2 ^ 32 % N, Nat.mod_lt _ h⟩

/-- `(prev->pid + 1U) % NUM_PROCESSES`. -/
def ringStart (k : Kernel N) (prev : Fin N) : ℕ :=
  ((k.processes prev).pid + 1#32).toNat % N

/-- The `for` loop of `schedule`: the first candidate that is not `prev` and can run. -/
def ringWalk (k : Kernel N) (prev : Fin N) : Option (Fin N) :=
  ((List.range N).map (ringIndex (k.ringStart prev) prev.pos)).find?
    fun cand => decide (cand ≠ prev ∧ k.Runnable cand)

/-- `schedule`: the new globals, and the arguments of `context_switch` if it is called. -/
def schedule (k : Kernel N) : Kernel N × Option (Fin N × Fin N) :=
  match k.needReschedule, k.current with
  | false, _ => (k, none)
  | true, none => (k, none)
  | true, some prev =>
    let hint := k.wakeHint
    let k := { k with needReschedule := false, wakeHint := none }
    match hint.filter fun h => decide (h ≠ prev ∧ k.Runnable h) with
    | some h => (k.performSwitch prev h true, some (prev, h))
    | none =>
      match k.ringWalk prev with
      | some cand => (k.performSwitch prev cand false, some (prev, cand))
      | none => (k, none)

/-- `scheduler_block_on_input` up to its call of `schedule`; nothing without a current
process. -/
def blockCurrent (k : Kernel N) : Kernel N :=
  match k.current with
  | none => k
  | some c =>
    { (k.setState c .blocked).emit [.block c] with
      blockedReader := some c
      needReschedule := true }

/-! ### The ring walk visits everybody -/

lemma exists_ringIndex {start : ℕ} (hN : 2 * N ≤ 2 ^ 32) (hs : start < N) (p : Fin N) :
    ∃ i < N, ringIndex start p.pos i = p := by
  have hp := p.isLt
  refine ⟨(p + N - start) % N, Nat.mod_lt _ p.pos, Fin.ext ?_⟩
  have hlt : (p + N - start) % N < N := Nat.mod_lt _ p.pos
  show (start + (p + N - start) % N) % 2 ^ 32 % N = p
  rw [Nat.mod_eq_of_lt (a := start + _) (by omega), Nat.add_mod_mod,
    show start + (p + N - start) = p + N by omega, Nat.add_mod_right, Nat.mod_eq_of_lt hp]

lemma ringWalk_some {k : Kernel N} {prev cand : Fin N} (h : k.ringWalk prev = some cand) :
    cand ≠ prev ∧ k.Runnable cand := by
  have := List.find?_some h
  simpa using this

lemma ringWalk_none {k : Kernel N} {prev : Fin N} (hN : 2 * N ≤ 2 ^ 32)
    (h : k.ringWalk prev = none) (p : Fin N) (hp : p ≠ prev) : ¬ k.Runnable p := by
  have hs : k.ringStart prev < N := Nat.mod_lt _ prev.pos
  obtain ⟨i, hi, hidx⟩ := exists_ringIndex hN hs p
  have hmem : p ∈ (List.range N).map (ringIndex (k.ringStart prev) prev.pos) :=
    List.mem_map.2 ⟨i, List.mem_range.2 hi, hidx⟩
  have := List.find?_eq_none.1 h p hmem
  simpa [hp] using this

/-! ### The ring walk takes the nearest -/

/-- How many steps the ring walk takes from one process to another; `N` to itself. -/
def ringDist (c p : Fin N) : ℕ := if c < p then p - c else p + N - c

lemma ringDist_pos (c p : Fin N) : 0 < ringDist c p := by
  have hc := c.isLt
  unfold ringDist
  split
  · have : (c : ℕ) < p := ‹c < p›
    omega
  · omega

lemma ringDist_le (c p : Fin N) : ringDist c p ≤ N := by
  have hp := p.isLt
  unfold ringDist
  split
  · omega
  · have : ¬ (c : ℕ) < p := ‹¬ c < p›
    omega

lemma ringDist_lt_of_ne {c p : Fin N} (h : p ≠ c) : ringDist c p < N := by
  have hp := p.isLt
  have hne : (p : ℕ) ≠ c := fun he => h (Fin.ext he)
  unfold ringDist
  split
  · omega
  · have : ¬ (c : ℕ) < p := ‹¬ c < p›
    omega

/-- On the way to a process, a stop in between. -/
lemma ringDist_add {c n p : Fin N} (hne : n ≠ p) (hle : ringDist c n ≤ ringDist c p) :
    ringDist c n + ringDist n p = ringDist c p := by
  have hne' : (n : ℕ) ≠ p := fun he => hne (Fin.ext he)
  have hc := c.isLt
  have hn := n.isLt
  have hp := p.isLt
  simp only [ringDist, Fin.lt_def] at hle ⊢
  split_ifs at hle ⊢ <;> omega

/-- The distance of the process that iteration `i` of the walk visits. -/
lemma ringDist_ringIndex (hN : 2 * N ≤ 2 ^ 32) (c : Fin N) {i : ℕ} (hi : i < N) :
    ringDist c (ringIndex ((c + 1) % N) c.pos i) = i + 1 := by
  have hc := c.isLt
  have hlt : (c + 1) % N < N := Nat.mod_lt _ c.pos
  have hval : (ringIndex ((c + 1) % N) c.pos i : ℕ) = (c + 1 + i) % N := by
    show ((c + 1) % N + i) % 2 ^ 32 % N = (c + 1 + i) % N
    rw [Nat.mod_eq_of_lt (a := (c + 1) % N + i) (by omega), Nat.mod_add_mod]
  have hcases : (c + 1 + i) % N = c + 1 + i ∧ c + 1 + i < N ∨
      (c + 1 + i) % N + N = c + 1 + i := by
    by_cases h : c + 1 + i < N
    · exact Or.inl ⟨Nat.mod_eq_of_lt h, h⟩
    · right
      rw [Nat.mod_eq_sub_mod (by omega), Nat.mod_eq_of_lt (by omega)]
      omega
  simp only [ringDist, Fin.lt_def, hval]
  rcases hcases with ⟨h1, h2⟩ | h <;> split_ifs <;> omega

/-- The walk finds the first process after `prev` that can run. -/
lemma ringWalk_nearest {k : Kernel N} {prev cand p : Fin N} (hN : 2 * N ≤ 2 ^ 32)
    (hpid : (k.processes prev).pid = BitVec.ofNat 32 prev) (h : k.ringWalk prev = some cand)
    (hp : p ≠ prev) (hrun : k.Runnable p) : ringDist prev cand ≤ ringDist prev p := by
  have hprev := prev.isLt
  have hstart : k.ringStart prev = (prev + 1) % N := by
    have : (BitVec.ofNat 32 prev + 1#32).toNat = prev + 1 := by
      rw [BitVec.toNat_add, BitVec.toNat_ofNat, Nat.mod_eq_of_lt (a := (prev : ℕ)) (by omega)]
      exact Nat.mod_eq_of_lt (show (prev : ℕ) + 1 < 2 ^ 32 by omega)
    rw [ringStart, hpid, this]
  obtain ⟨j, hj, hpj⟩ := exists_ringIndex hN (Nat.mod_lt (prev + 1) prev.pos) p
  have hdist : ringDist prev p = j + 1 := by
    rw [← hpj]
    exact ringDist_ringIndex hN prev hj
  rw [ringWalk, List.find?_map, Option.map_eq_some_iff] at h
  obtain ⟨i, hfind, rfl⟩ := h
  obtain ⟨-, hi, hfirst⟩ := List.find?_range_eq_some.1 hfind
  rw [hstart] at hfirst ⊢
  rw [ringDist_ringIndex hN prev (List.mem_range.1 hi), hdist]
  -- an earlier iteration would have taken `p`
  by_contra hlt
  have hskip := hfirst j (by omega)
  have hpj' : ringIndex ((prev + 1) % N) prev.pos j = p := hpj
  simp [hpj', hp, hrun] at hskip

/-! ### What a call of `schedule` does -/

/-- The globals after the flag and the hint have been consumed. -/
def clearRequest (k : Kernel N) : Kernel N := { k with needReschedule := false, wakeHint := none }

lemma schedule_idle {k : Kernel N} (h : k.needReschedule = false) : k.schedule = (k, none) := by
  simp [schedule, h]

/-- With a request pending, `schedule` either switches to a runnable process other than
the current one, and then to the hinted one if that is possible, or there is none. -/
theorem schedule_cases {k : Kernel N} {c : Fin N} (hN : 2 * N ≤ 2 ^ 32)
    (hc : k.current = some c) (hreq : k.needReschedule = true) :
    (∃ n byHint, n ≠ c ∧ k.Runnable n ∧
        (∀ h, k.wakeHint = some h → h ≠ c → k.Runnable h → n = h) ∧
        k.schedule = (k.clearRequest.performSwitch c n byHint, some (c, n))) ∨
      ((∀ n, n ≠ c → ¬ k.Runnable n) ∧ k.schedule = (k.clearRequest, none)) := by
  have hrun : ∀ p, k.clearRequest.Runnable p ↔ k.Runnable p := fun _ => Iff.rfl
  have hsch : k.schedule =
      match k.wakeHint.filter fun h => decide (h ≠ c ∧ k.clearRequest.Runnable h) with
      | some h => (k.clearRequest.performSwitch c h true, some (c, h))
      | none =>
        match k.clearRequest.ringWalk c with
        | some cand => (k.clearRequest.performSwitch c cand false, some (c, cand))
        | none => (k.clearRequest, none) := by
    simp [schedule, hreq, hc, clearRequest]
  rw [hsch]
  rcases hh : k.wakeHint.filter fun h => decide (h ≠ c ∧ k.clearRequest.Runnable h) with _ | h
  · -- no usable hint: the ring walk decides
    have hnohint : ∀ h, k.wakeHint = some h → h ≠ c → ¬ k.Runnable h := by
      intro h hw hne hr
      rw [hw, Option.filter_some, if_pos (by simp [hne, hrun, hr])] at hh
      exact absurd hh (by simp)
    rcases hw : k.clearRequest.ringWalk c with _ | cand
    · exact Or.inr ⟨fun n hn => ringWalk_none hN hw n hn, rfl⟩
    · obtain ⟨hne, hr⟩ := ringWalk_some hw
      exact Or.inl ⟨cand, false, hne, hr, fun h hw' hne' hr' => absurd hr' (hnohint h hw' hne'),
        rfl⟩
  · obtain ⟨hw, hp⟩ := Option.filter_eq_some_iff.1 hh
    obtain ⟨hne, hr⟩ : h ≠ c ∧ k.clearRequest.Runnable h := by simpa using hp
    refine Or.inl ⟨h, true, hne, hr, ?_, rfl⟩
    intro h' hw' _ _
    rw [hw] at hw'
    exact Option.some.inj hw'

/-- Which of its two ways `schedule` takes when it switches. -/
lemma schedule_choice {k k' : Kernel N} {c prev n : Fin N} (hc : k.current = some c)
    (h : k.schedule = (k', some (prev, n))) :
    (k.wakeHint = some n ∧ k' = k.clearRequest.performSwitch c n true) ∨
      ((∀ q, k.wakeHint = some q → q ≠ c → ¬ k.Runnable q) ∧
        k.clearRequest.ringWalk c = some n ∧ k' = k.clearRequest.performSwitch c n false) := by
  unfold schedule at h
  split at h
  · exact absurd (Prod.mk.inj h).2 (by simp)
  · exact absurd (Prod.mk.inj h).2 (by simp)
  · rename_i hcur
    obtain rfl := Option.some.inj (hc.symm.trans hcur)
    dsimp only at h
    split at h
    · rename_i q hq
      left
      obtain ⟨rfl, h2⟩ := Prod.mk.inj h
      obtain ⟨-, rfl⟩ := Prod.mk.inj (Option.some.inj h2)
      exact ⟨(Option.filter_eq_some_iff.1 hq).1, rfl⟩
    · rename_i hnone
      right
      split at h
      · rename_i cand hwalk
        obtain ⟨rfl, h2⟩ := Prod.mk.inj h
        obtain ⟨-, rfl⟩ := Prod.mk.inj (Option.some.inj h2)
        refine ⟨?_, hwalk, rfl⟩
        intro q hq hne hrun
        rw [hq, Option.filter_some, if_pos] at hnone
        · exact absurd hnone (by simp)
        · exact decide_eq_true ⟨hne, hrun⟩
      · exact absurd (Prod.mk.inj h).2 (by simp)

/-- If `schedule` does not switch, then the current process stays. -/
lemma current_of_schedule (k : Kernel N) {k' : Kernel N} (h : k.schedule = (k', none)) :
    k'.current = k.current := by
  unfold schedule at h
  split at h
  · rw [← (Prod.mk.inj h).1]
  · rw [← (Prod.mk.inj h).1]
  · dsimp only at h
    split at h
    · exact absurd (Prod.mk.inj h).2 (by simp)
    · split at h
      · exact absurd (Prod.mk.inj h).2 (by simp)
      · rw [← (Prod.mk.inj h).1]

/-- If `schedule` switches, then from the current process, and the other one is current
when `context_switch` is called. -/
lemma current_of_schedule_switch (k : Kernel N) {k' : Kernel N} {c prev next : Fin N}
    (hc : k.current = some c) (h : k.schedule = (k', some (prev, next))) :
    c = prev ∧ k'.current = some next := by
  unfold schedule at h
  split at h
  · exact absurd (Prod.mk.inj h).2 (by simp)
  · exact absurd (Prod.mk.inj h).2 (by simp)
  · rename_i hcur
    obtain rfl := Option.some.inj (hc.symm.trans hcur)
    dsimp only at h
    split at h
    · obtain ⟨rfl, h2⟩ := Prod.mk.inj h
      obtain ⟨rfl, rfl⟩ := Prod.mk.inj (Option.some.inj h2)
      exact ⟨rfl, rfl⟩
    · split at h
      · obtain ⟨rfl, h2⟩ := Prod.mk.inj h
        obtain ⟨rfl, rfl⟩ := Prod.mk.inj (Option.some.inj h2)
        exact ⟨rfl, rfl⟩
      · exact absurd (Prod.mk.inj h).2 (by simp)

/-! ### Fields after `performSwitch` -/

section PerformSwitch

variable (k : Kernel N) (prev cand : Fin N) (b : Bool)

lemma st_performSwitch (p : Fin N) :
    (k.performSwitch prev cand b).st p =
      if p = cand then .running
      else if p = prev ∧ k.st prev = .running then .ready else k.st p := by
  have hsc : ∀ k' : Kernel N, ({ k' with current := some cand } : Kernel N).st p = k'.st p :=
    fun _ => rfl
  have hst : ∀ q, ({ k with switchCount := k.switchCount + 1#32 } : Kernel N).st q = k.st q :=
    fun _ => rfl
  rw [performSwitch, hsc, st_emit, st_setState]
  by_cases hp : p = cand
  · rw [if_pos hp, if_pos hp]
  · rw [if_neg hp, if_neg hp]
    by_cases hr : k.st prev = .running
    · rw [if_pos (by rw [hst]; exact hr), st_setState, hst]
      simp [hr]
    · rw [if_neg (by rw [hst]; exact hr), hst]
      simp [hr]

@[simp] lemma current_performSwitch : (k.performSwitch prev cand b).current = some cand := rfl

@[simp] lemma needReschedule_performSwitch :
    (k.performSwitch prev cand b).needReschedule = k.needReschedule := by
  unfold performSwitch
  dsimp only
  split <;> rfl

@[simp] lemma blockedReader_performSwitch :
    (k.performSwitch prev cand b).blockedReader = k.blockedReader := by
  unfold performSwitch
  dsimp only
  split <;> rfl

@[simp] lemma wakeHint_performSwitch : (k.performSwitch prev cand b).wakeHint = k.wakeHint := by
  unfold performSwitch
  dsimp only
  split <;> rfl

@[simp] lemma rx_performSwitch : (k.performSwitch prev cand b).rx = k.rx := by
  unfold performSwitch
  dsimp only
  split <;> rfl

@[simp] lemma irqTable_performSwitch : (k.performSwitch prev cand b).irqTable = k.irqTable := by
  unfold performSwitch
  dsimp only
  split <;> rfl

@[simp] lemma userHandler_performSwitch :
    (k.performSwitch prev cand b).userHandler = k.userHandler := by
  unfold performSwitch
  dsimp only
  split <;> rfl

@[simp] lemma log_performSwitch :
    (k.performSwitch prev cand b).log = k.log ++ [.dispatch cand b] := by
  unfold performSwitch
  dsimp only
  split <;> rfl

@[simp] lemma fixed_performSwitch (q : Fin N) :
    ((k.performSwitch prev cand b).processes q).fixed = (k.processes q).fixed := by
  have hsc : ∀ k' : Kernel N, ({ k' with current := some cand } : Kernel N).processes
      = k'.processes := fun _ => rfl
  unfold performSwitch
  dsimp only [emit]
  split <;> simp [fixed_setState]

end PerformSwitch

end Kernel

end RingNova
