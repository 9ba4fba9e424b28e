/-
# What a syscall touches and returns

The memory that the kernel reaches through a caller's pointer is bounded with a guard:
`Arch.guard A P` is the machine `A` with a data abort on every access of the kernel to a user
address outside `P`.  A syscall takes the same step on the guarded machine as on the machine
itself if `P` is the part of the user window in the range that the caller has passed
(`step_guard`).  For `sys_read` this needs that its locals are still the caller's registers
when it goes on after a sleep (`ReadInv`).

The result of a syscall that returns at once is `svcResult`; the results of the rejected
ones are the error codes, and all others are non-negative (`Inv.svc_nonneg`).
-/
import RingNova.System.Dispatch
import RingNova.System.Input
import RingNova.System.Preemption

namespace RingNova

/-! ### The guarded machine -/

section Guard

variable {σ : Type}

/-- The machine on which the kernel's accesses to user addresses outside `P` abort. -/
def Arch.guard (A : Arch σ) (P : Word → Bool) : Arch σ :=
  { A with
    kload := fun a c va => if P va then A.kload a c va else none
    kstore := fun a c va ch => if P va then A.kstore a c va ch else none }

variable (A : Arch σ) {P : Word → Bool} {a : σ} {c : Pid} {k : Kernel numProcesses}
  {buf len : Word}

/-- A range of guarded addresses without its first one. -/
lemma guarded_succ {n : ℕ} {addr : Word}
    (h : ∀ i < n + 1, P (addr + BitVec.ofNat 32 i) = true) :
    P addr = true ∧ ∀ i < n, P (addr + 1#32 + BitVec.ofNat 32 i) = true := by
  refine ⟨by simpa using h 0 (Nat.succ_pos n), ?_⟩
  intro i hi
  have hi' := h (i + 1) (Nat.succ_lt_succ hi)
  rwa [Nat.add_comm, BitVec.ofNat_add, ← BitVec.add_assoc] at hi'

lemma writeLoop_guard (n : ℕ) (addr : Word) (k : Kernel numProcesses)
    (h : ∀ i < n, P (addr + BitVec.ofNat 32 i) = true) :
    writeLoop (A.guard P) a c n addr k = writeLoop A a c n addr k := by
  induction n generalizing addr k with
  | zero => rfl
  | succ n ih =>
    obtain ⟨h0, hrest⟩ := guarded_succ h
    have hload : (A.guard P).kload a c addr = A.kload a c addr := if_pos h0
    rw [writeLoop, writeLoop, hload]
    rcases A.kload a c addr with _ | ch
    · rfl
    · exact ih _ _ hrest

lemma storeLoop_guard (bs : List Byte) (addr : Word) (a : σ)
    (h : ∀ i < bs.length, P (addr + BitVec.ofNat 32 i) = true) :
    storeLoop (A.guard P) c bs addr a = storeLoop A c bs addr a := by
  induction bs generalizing addr a with
  | nil => rfl
  | cons ch bs ih =>
    obtain ⟨h0, hrest⟩ := guarded_succ h
    have hstore : (A.guard P).kstore a c addr ch = A.kstore a c addr ch := if_pos h0
    rw [storeLoop, storeLoop, hstore]
    rcases A.kstore a c addr ch with _ | a'
    · rfl
    · exact ih _ _ hrest

lemma sysWrite_guard (h : validUserPtr buf len = true →
    ∀ i < len.toNat, P (buf + BitVec.ofNat 32 i) = true) :
    sysWrite (A.guard P) k a c buf len = sysWrite A k a c buf len := by
  rw [sysWrite, sysWrite]
  split
  next hv =>
    rw [writeLoop_guard A _ _ _ (h hv)]
    rfl
  next => rfl

lemma sysPs_guard (h : validUserPtr buf len = true →
    ∀ i < len.toNat, P (buf + BitVec.ofNat 32 i) = true) :
    sysPs (A.guard P) k a c buf len = sysPs A k a c buf len := by
  rw [sysPs, sysPs]
  split
  next hv =>
    have hlen := length_sysPsBytes k len
    rw [storeLoop_guard A _ _ _ fun i hi => h hv i (by omega)]
    rfl
  next => rfl

lemma readIter_guard {n : Word} {got : List Byte} (h : n < len → P (buf + n) = true) :
    readIter (A.guard P) k a c buf len n got = readIter A k a c buf len n got := by
  rw [readIter, readIter]
  split
  next hn =>
    have hstore : ∀ ch, (A.guard P).kstore a c (buf + n) ch = A.kstore a c (buf + n) ch :=
      fun ch => if_pos (h hn)
    rcases k.rx.uartRxPop with ⟨ch, rx⟩
    simp only [hstore]
    rfl
  next => rfl

lemma callSchedule_guard (k : Kernel numProcesses) (a : σ) (c : Pid) (site : Cont) :
    callSchedule (A.guard P) k a c site = callSchedule A k a c site := by
  have hresume : ∀ k a c cont, resume (A.guard P) k a c cont = resume A k a c cont := by
    intro k a c cont
    cases cont <;> rfl
  rw [callSchedule, callSchedule]
  rcases k.schedule with ⟨k', _ | ⟨prev, next⟩⟩
  · exact hresume _ _ _ _
  · have hsw : (A.guard P).switch k' a prev next site = A.switch k' a prev next site := rfl
    simp only [hsw, hresume]

/-! ### The range that a caller passes -/

/-- The buffer and its length among the saved registers. -/
def syscallRange (r : Fin 13 → Word) : Word × Word :=
  match Syscall.ofNum (r 7) with
  | some .write => (r 1, r 2)
  | some .read => (r 1, r 2)
  | some .ps => (r 0, r 1)
  | _ => (0#32, 0#32)

/-- The addresses that a caller allows the kernel to touch: in the user window, and in the
range it has passed, without wrap-around. -/
def inFootprint (r : Fin 13 → Word) (va : Word) : Bool :=
  inWindow va && decide ((syscallRange r).1.toNat ≤ va.toNat ∧
    va.toNat < (syscallRange r).1.toNat + (syscallRange r).2.toNat)

lemma inFootprint_of_valid {r : Fin 13 → Word} (hr : syscallRange r = (buf, len))
    (hv : validUserPtr buf len = true) {i : Word} (hi : i.toNat < len.toNat) :
    inFootprint r (buf + i) = true := by
  obtain ⟨h1, h2⟩ := (validUserPtr_iff buf len).1 hv
  have hadd : (buf + i).toNat = buf.toNat + i.toNat := by
    rw [BitVec.toNat_add]
    omega
  rw [inFootprint, inWindow_of_valid hv hi, hr, hadd, Bool.true_and, decide_eq_true_iff]
  dsimp only
  omega

/-- The registers of the caller: in the frame that the entry is about to push, or in the one
it has pushed. -/
def callerRegs (A : Arch σ) (s : Sys σ) (c : Pid) : Fin 13 → Word :=
  match s.ctl with
  | .user => (A.ctx (A.enter s.arch c .svc) c .svc).r
  | _ => (A.ctx s.arch c .svc).r

/-- A step of the kernel on behalf of a syscall. -/
def SyscallStep (s : Sys σ) : Event → Prop
  | .svc => s.ctl = .user
  | .kernel => s.ctl.Reading
  | _ => False

lemma handleSvc_guard :
    handleSvc (A.guard (inFootprint (A.ctx a c .svc).r)) k a c = handleSvc A k a c := by
  -- the handlers that touch user memory have checked the range before
  have hall : ∀ {buf len : Word}, syscallRange (A.ctx a c .svc).r = (buf, len) →
      validUserPtr buf len = true →
      ∀ i < len.toNat, inFootprint (A.ctx a c .svc).r (buf + BitVec.ofNat 32 i) = true := by
    intro buf len hr hv i hi
    refine inFootprint_of_valid hr hv ?_
    have := len.isLt
    rw [BitVec.toNat_ofNat]
    omega
  have hctx : (A.guard (inFootprint (A.ctx a c .svc).r)).ctx a c .svc = A.ctx a c .svc := rfl
  unfold handleSvc
  rw [hctx]
  dsimp only
  split
  case h_2 heq => exact sysWrite_guard A (hall (by simp [syscallRange, heq]))
  case h_6 heq => rfl
  case h_7 heq => exact sysPs_guard A (hall (by simp [syscallRange, heq]))
  all_goals rfl

lemma Requested.range {A : Arch σ} (h : Requested A a c buf len) :
    syscallRange (A.ctx a c .svc).r = (buf, len) := by
  rw [syscallRange, h.num, h.buf, h.len]

/-- **The same step on the guarded machine**, if the locals of `sys_read` are still the
caller's. -/
theorem step_guard {b : Board} {s : Sys σ} {e : Event} (hc : s.kern.current = some c)
    (he : SyscallStep s e)
    (hlocals : ∀ buf len n got, s.ctl = .readLoop buf len n got →
      Requested A s.arch c buf len ∧ validUserPtr buf len = true) :
    step (A.guard (inFootprint (callerRegs A s c))) b s e = step A b s e := by
  -- a call of `schedule` and the way back do not touch user memory
  have hfinish : ∀ P x, finish (A.guard P) c x = finish A c x := by
    intro P x
    cases x with
    | point => rfl
    | schedule k a site => exact callSchedule_guard A k a c site
  have hhandle : handle (A.guard (inFootprint (callerRegs A s c))) b s c e = handle A b s c e := by
    cases e with
    | svc =>
      have hu : s.ctl = .user := he
      simp only [handle, hu, callerRegs]
      exact congrArg some (handleSvc_guard A)
    | kernel =>
      rcases hctl : s.ctl with _ | ⟨buf, len, n, got⟩ | ⟨buf, len, n, got⟩ | _ | _
      case readLoop =>
        obtain ⟨hreq, hv⟩ := hlocals buf len n got hctl
        have hr : syscallRange (callerRegs A s c) = (buf, len) := by
          rw [callerRegs, hctl]
          exact hreq.range
        simp only [handle, hctl]
        exact congrArg some (readIter_guard A fun hn => inFootprint_of_valid hr hv hn)
      all_goals simp only [handle, hctl]
    | _ => exact he.elim
  simp only [step, hc, hhandle]
  cases handle A b s c e with
  | none => rfl
  | some x => exact congrArg some (hfinish _ x)

end Guard

/-! ### The step of a syscall -/

/-- The kernel goes on with a syscall whatever its arguments are. -/
lemma SyscallStep.exists {σ : Type} {A : Arch σ} {b : Board} {s : Sys σ} {c : Pid} {e : Event}
    (he : SyscallStep s e) (hc : s.kern.current = some c) : ∃ s', step A b s e = some s' := by
  cases e with
  | svc =>
    have hu : s.ctl = .user := he
    simp [step, hc, handle, hu]
  | kernel =>
    have hctl : s.ctl.Reading := he
    rcases hs : s.ctl with _ | _ | _ | _ | _ <;> simp_all [step, handle, Ctl.Reading]
  | _ => exact he.elim

/-- A syscall never stops the system. -/
lemma Inv.syscall_not_halted {b : Board} {s s' : Sys ProcMachine} {c : Pid} {e : Event}
    (h : Inv b s c) (he : SyscallStep s e) (hs : step procArch b s e = some s') :
    s'.ctl ≠ .halted := by
  rcases h.step_outcome hs with hq | ⟨act, site, k, a, m, l, hsw⟩
  · cases hq <;> simp
  · -- only `user_fault_kill` halts when `schedule` returns to it
    have hsite : site.ctl ≠ .halted := by
      have hcall := hsw.call
      cases hcall with
      | irq => exact he.elim
      | fault => exact he.elim
      | _ => simp [Cont.ctl]
    have ho := hsw.outcome
    generalize s'.kern.core = q' at ho
    generalize s'.ctl = ctl at ho
    cases ho with
    | idle => exact hsite
    | alone => exact hsite
    | switch n byHint hreq hn hready hpref hcont =>
      rcases hcont with hret | ⟨⟨buf, len, heq, -⟩, -⟩
      · rw [hret.ctl_eq]
        simp
      · rw [heq]
        simp [Cont.ctl]

/-! ### Rejected calls -/

/-- `NR_SYSCALLS`. -/
def nrSyscalls : ℕ := 8

/-- A range that is not in the user window, over unbounded integers. -/
def BadRange (addr len : Word) : Prop :=
  ¬ (userVirtBase.toNat ≤ addr.toNat ∧
    addr.toNat + len.toNat ≤ userVirtBase.toNat + userRegionSize.toNat)

/-- The calls that are refused, with their error codes. -/
inductive Rejected (r : Fin 13 → Word) : Word → Prop
  | badNumber (h : nrSyscalls ≤ (r 7).toNat) : Rejected r eBadcall
  | write (h : Syscall.ofNum (r 7) = some .write) (hr : BadRange (r 1) (r 2)) : Rejected r eFault
  | ps (h : Syscall.ofNum (r 7) = some .ps) (hr : BadRange (r 0) (r 1)) : Rejected r eFault
  | read (h : Syscall.ofNum (r 7) = some .read) (hlen : r 2 ≠ 0#32) (hr : BadRange (r 1) (r 2)) :
    Rejected r eFault
  | kill (h : Syscall.ofNum (r 7) = some .kill) (hp : numProcesses ≤ (r 0).toNat) :
    Rejected r eBadcall

lemma badRange_iff (addr len : Word) : BadRange addr len ↔ ¬ validUserPtr addr len = true := by
  rw [validUserPtr_iff, BadRange, toNat_userVirtBase, toNat_userRegionSize]

lemma ofNum_eq_none {num : Word} : Syscall.ofNum num = none ↔ nrSyscalls ≤ num.toNat := by
  rw [Syscall.ofNum, List.getElem?_eq_none_iff]
  rfl

/-- A rejected call returns its error code at once, and has done nothing. -/
lemma handleSvc_rejected {σ : Type} {A : Arch σ} {k : Kernel numProcesses} {a : σ} {c : Pid}
    {v : Word} (h : Rejected (A.ctx a c .svc).r v) : handleSvc A k a c = svcReturn A k a c v := by
  cases h with
  | badNumber h => simp only [handleSvc, ofNum_eq_none.2 h]
  | write h hr =>
    have hv := (badRange_iff _ _).1 hr
    simp only [handleSvc, h, sysWrite, if_neg hv]
  | ps h hr =>
    have hv := (badRange_iff _ _).1 hr
    simp only [handleSvc, h, sysPs, if_neg hv]
  | read h hlen hr =>
    have hv := (badRange_iff _ _).1 hr
    simp only [handleSvc, h, sysRead, if_neg hlen, if_neg hv]
  | kill h hp =>
    simp only [handleSvc, h, Kernel.sysKill_of_le hp]

/-- **A rejected call** returns to its caller at once, and the globals are as before. -/
lemma step_rejected {σ : Type} {A : Arch σ} {b : Board} {s : Sys σ} {c : Pid} {v : Word}
    (hc : s.kern.current = some c) (hu : s.ctl = .user) (hidle : s.kern.needReschedule = false)
    (h : Rejected (A.ctx (A.enter s.arch c .svc) c .svc).r v) :
    step A b s .svc = some ⟨s.kern.emit [.sysret c v],
      A.leave (A.setRet (A.enter s.arch c .svc) c v) c .svc, .user⟩ := by
  have hsched : (s.kern.emit [.sysret c v]).schedule = (s.kern.emit [.sysret c v], none) :=
    Kernel.schedule_idle hidle
  simp only [step, hc, handle, hu, handleSvc_rejected h, svcReturn, finish, callSchedule, hsched,
    Option.map_some]
  rfl

/-- The registers of the caller after an entry, a result and the exit. -/
lemma regs_roundTrip (a : ProcMachine) (c : Pid) (v : Word) :
    (procArch.leave (procArch.setRet (procArch.enter a c .svc) c v) c .svc).regs c =
      (a.regs c).afterSvc.ret v := by
  simp [procArch, ProcMachine.setRegs, ProcMachine.enter, UserRegs.afterSvc, UserRegs.ret]

lemma umem_roundTrip (a : ProcMachine) (c : Pid) (v : Word) :
    (procArch.leave (procArch.setRet (procArch.enter a c .svc) c v) c .svc).umem = a.umem := rfl

/-! ### Results -/

/-- The result of a syscall that does not enter the loop of `sys_read`. -/
def svcResult (k : Kernel numProcesses) (r : Fin 13 → Word) : Option Word :=
  match Syscall.ofNum (r 7) with
  | none => some eBadcall
  | some .write => some (if validUserPtr (r 1) (r 2) then r 2 else eFault)
  | some .getpid => some k.sysGetpid
  | some .yield => some 0#32
  | some .exit => some 0#32
  | some .read =>
    if r 2 = 0#32 then some 0#32 else if validUserPtr (r 1) (r 2) then none else some eFault
  | some .ps =>
    some (if validUserPtr (r 0) (r 1) then BitVec.ofNat 32 (k.sysPsBytes (r 1)).length else eFault)
  | some .kill => some (k.sysKill (r 0)).2
  | some .ticks => some k.sysTicks

/-- The value that a handler returns to `syscall_dispatch`. -/
lemma handleSvc_value {σ : Type} (A : Arch σ) (k : Kernel numProcesses) (a : σ) (c : Pid) :
    (∃ s, handleSvc A k a c = .point s) ∨
      ∃ k' a' v, handleSvc A k a c = svcReturn A k' a' c v ∧
        svcResult k (A.ctx a c .svc).r = some v := by
  rcases hn : Syscall.ofNum ((A.ctx a c .svc).r 7) with _ | num
  · simp only [handleSvc, svcResult, hn]
    exact Or.inr ⟨_, _, _, rfl, rfl⟩
  · cases num with
    | write =>
      simp only [handleSvc, svcResult, hn, sysWrite]
      by_cases hv : validUserPtr ((A.ctx a c .svc).r 1) ((A.ctx a c .svc).r 2) = true
      · simp only [if_pos hv]
        split
        · exact Or.inr ⟨_, _, _, rfl, rfl⟩
        · exact Or.inl ⟨_, rfl⟩
      · simp only [if_neg hv]
        exact Or.inr ⟨_, _, _, rfl, rfl⟩
    | read =>
      simp only [handleSvc, svcResult, hn, sysRead]
      by_cases hl : (A.ctx a c .svc).r 2 = 0#32
      · simp only [if_pos hl]
        exact Or.inr ⟨_, _, _, rfl, rfl⟩
      · by_cases hv : validUserPtr ((A.ctx a c .svc).r 1) ((A.ctx a c .svc).r 2) = true
        · simp only [if_neg hl, if_pos hv]
          exact Or.inl ⟨_, rfl⟩
        · simp only [if_neg hl, if_neg hv]
          exact Or.inr ⟨_, _, _, rfl, rfl⟩
    | ps =>
      simp only [handleSvc, svcResult, hn, sysPs]
      by_cases hv : validUserPtr ((A.ctx a c .svc).r 0) ((A.ctx a c .svc).r 1) = true
      · simp only [if_pos hv]
        split
        · exact Or.inr ⟨_, _, _, rfl, rfl⟩
        · exact Or.inl ⟨_, rfl⟩
      · simp only [if_neg hv]
        exact Or.inr ⟨_, _, _, rfl, rfl⟩
    | _ =>
      simp only [handleSvc, svcResult, hn]
      exact Or.inr ⟨_, _, _, rfl, rfl⟩

/-- **Every call that is not refused has a non-negative result**, `sys_ticks` apart. -/
lemma svcResult_nonneg {k : Kernel numProcesses} {c : Pid} {r : Fin 13 → Word} {v : Word}
    (hc : k.current = some c) (hk : Numbered k) (hv : svcResult k r = some v)
    (hr : ∀ w, ¬ Rejected r w) (ht : Syscall.ofNum (r 7) ≠ some .ticks) : v.toNat < 2 ^ 31 := by
  have hvalid : ∀ {addr len : Word}, validUserPtr addr len = true → len.toNat < 2 ^ 31 := by
    intro addr len h
    obtain ⟨h1, h2⟩ := (validUserPtr_iff addr len).1 h
    omega
  unfold svcResult at hv
  split at hv
  next hnum => exact absurd (.badNumber (ofNum_eq_none.1 hnum)) (hr eBadcall)
  next hnum =>
    obtain rfl := Option.some.inj hv
    split
    next h => exact hvalid h
    next h => exact absurd (.write hnum ((badRange_iff _ _).2 h)) (hr eFault)
  next =>
    obtain rfl := Option.some.inj hv
    have hlt : (c : ℕ) < 3 := c.isLt
    simp only [Kernel.sysGetpid, hc, hk c, BitVec.toNat_ofNat]
    omega
  next =>
    obtain rfl := Option.some.inj hv
    decide
  next =>
    obtain rfl := Option.some.inj hv
    decide
  next hnum =>
    split at hv
    · obtain rfl := Option.some.inj hv
      decide
    next hlen =>
      split at hv
      · exact absurd hv (by simp)
      next h => exact absurd (.read hnum hlen ((badRange_iff _ _).2 h)) (hr eFault)
  next hnum =>
    obtain rfl := Option.some.inj hv
    split
    next h =>
      have hlen := length_sysPsBytes k (r 1)
      have hsize := hvalid h
      rw [BitVec.toNat_ofNat]
      omega
    next h => exact absurd (.ps hnum ((badRange_iff _ _).2 h)) (hr eFault)
  next hnum =>
    obtain rfl := Option.some.inj hv
    have hp : (r 0).toNat < numProcesses := by
      by_contra hp
      exact hr eBadcall (.kill hnum (Nat.not_lt.1 hp))
    rw [(Kernel.sysKill_of_lt hp).1]
    decide
  next hnum => exact absurd hnum ht

/-! ### What a caller finds in `r0` -/

section Result

variable {b : Board} {s s' t : Sys ProcMachine} {c p : Pid} {e : Event} {es : List Event}

lemma results_emit_sysret (k : Kernel numProcesses) (p : Pid) (v : Word) :
    (k.emit [.sysret p v]).results p = k.results p ++ [v] := by
  rw [Kernel.results, Kernel.log_emit, List.flatMap_append]
  simp [Kernel.results, Obs.resultOf]

lemma results_callSchedule (k : Kernel numProcesses) (a : ProcMachine) (c : Pid) (site : Cont)
    (p : Pid) : (callSchedule procArch k a c site).kern.results p = k.results p := by
  rw [results_eq, results_eq, marks_callSchedule]
  rcases hreq : k.needReschedule with _ | _
  · rw [Kernel.schedule_idle hreq]
  rcases hc : k.current with _ | prev
  · simp only [Kernel.schedule, hreq, hc]
  · rcases Kernel.schedule_cases two_numProcesses_le hc hreq with
      ⟨n, byHint, -, -, -, h⟩ | ⟨-, h⟩
    · rw [h]
      simp [marks_performSwitch, Obs.resultOf]
    · rw [h]
      rfl

lemma svcReturn_ret {σ : Type} {A : Arch σ} {k k' : Kernel numProcesses} {a a' : σ} {v v' : Word}
    (h : svcReturn A k a c v = svcReturn A k' a' c v') : v = v' := by
  have hkern := (Reached.schedule.inj h).1
  have hlog := congrArg Kernel.log hkern
  rw [Kernel.log_emit, Kernel.log_emit] at hlog
  have hlast := (List.append_inj' hlog rfl).2
  simpa using hlast

/-- The results after an `svc`: one more, if it returns at once. -/
lemma Inv.results_svc (h : Inv b s p) (hs : step procArch b s .svc = some s') :
    s'.kern.results p = s.kern.results p ++ (svcResult s.kern (s.arch.regs p).r).toList := by
  obtain ⟨x, hx, rfl⟩ := (step_eq_some h.current).1 hs
  have hu : s.ctl = .user := by
    rcases hctl : s.ctl <;> simp [handle, hctl] at hx
    rfl
  simp only [handle, hu, Option.some.injEq] at hx
  have hvalue := handleSvc_value procArch s.kern (procArch.enter s.arch p .svc) p
  rw [svcFrame_r] at hvalue
  rcases handleSvc_cases (a := s.arch.enter p .svc) h.current with
    ⟨-, hnum, hlen, hv, heq⟩ | ⟨act, k', a', v, -, hdone, heq⟩
  · -- the loop of `sys_read` has begun
    rw [ctx_r_enter_svc] at hnum hlen hv heq
    have hnone : svcResult s.kern (s.arch.regs p).r = none := by
      simp only [svcResult, hnum, if_neg hlen, if_pos hv]
    obtain rfl := hx.symm.trans heq
    rw [hnone]
    exact (List.append_nil _).symm
  · -- both descriptions of the handler name the value in the history's last entry
    have hret : svcResult s.kern (s.arch.regs p).r = some v := by
      rcases hvalue with ⟨s'', hpoint⟩ | ⟨k'', a'', v', heq', hres⟩
      · exact absurd (heq.symm.trans hpoint) (by simp [svcReturn])
      · rw [svcReturn_ret (heq.symm.trans heq')]
        exact hres
    obtain rfl := hx.symm.trans heq
    have hmarks : k'.results p = s.kern.results p := by
      rw [results_eq, results_eq, hdone.marks]
    rw [hret, svcReturn, finish, results_callSchedule, results_emit_sysret, hmarks]
    rfl

/-- The results of a process since some moment are non-negative. -/
def Grown (p : Pid) (rs : List Word) (s : Sys ProcMachine) : Prop :=
  ∃ vs, s.kern.results p = rs ++ vs ∧ ∀ v ∈ vs, v.toNat < 2 ^ 31

variable {rs : List Word}

lemma Grown.append (h : Grown p rs s) {vs : List Word}
    (hres : s'.kern.results p = s.kern.results p ++ vs) (hvs : ∀ v ∈ vs, v.toNat < 2 ^ 31) :
    Grown p rs s' := by
  obtain ⟨ws, hws, hall⟩ := h
  refine ⟨ws ++ vs, by rw [hres, hws, List.append_assoc], ?_⟩
  intro v hv
  rcases List.mem_append.1 hv with hv | hv
  · exact hall v hv
  · exact hvs v hv

lemma Grown.same (h : Grown p rs s) (hres : s'.kern.results p = s.kern.results p) :
    Grown p rs s' := by
  rw [Grown, hres]
  exact h

/-- While a process is in the kernel, only the loop of `sys_read` gives it a result. -/
lemma Inv.grown_step (h : Inv b s c) (hp : ¬ InUser p s) (hg : Grown p rs s)
    (hs : step procArch b s e = some s') : Grown p rs s' := by
  by_cases hc : p = c
  · subst hc
    have hu : s.ctl ≠ .user := fun hu => hp ⟨hu, h.current⟩
    rcases h.step_outcome hs with hq | ⟨act, site, k, a, m, l, hsw⟩
    · exact hg.same (by rw [results_eq, results_eq, hq.marks])
    · refine hg.append (hsw.results p) ?_
      have hcall := hsw.call
      cases hcall with
      | irq ack rx hctl => exact absurd hctl hu
      | svc v hctl => exact absurd hctl hu
      | fault kind far fsr hctl => exact absurd hctl hu
      | block => simp [Obs.resultOf]
      | @readReturn buf len n got hctl hn =>
        have hargs := h.readArgs buf len n got hctl
        obtain ⟨h1, h2⟩ := (validUserPtr_iff buf len).1 hargs.valid
        have hle := hargs.le
        have hn' : n.toNat < 2 ^ 31 := by omega
        simpa [Obs.resultOf] using hn'
  · exact hg.same (h.step_other hc hs).2.1

/-- **A call that is not refused and returns gives a non-negative result**, `sys_ticks`
apart. -/
theorem Inv.svc_nonneg (h : Inv b s p) (hk : Numbered s.kern)
    (hr : ∀ w, ¬ Rejected (s.arch.regs p).r w)
    (ht : Syscall.ofNum ((s.arch.regs p).r 7) ≠ some .ticks)
    (hs : step procArch b s .svc = some s')
    (hes : Trace.FirstReach (step procArch b) (InUser p) s' es t) :
    ((t.arch.regs p).r 0).toNat < 2 ^ 31 := by
  have hstart : Grown p (s.kern.results p) s' := by
    refine ⟨_, h.results_svc hs, ?_⟩
    intro v hv
    exact svcResult_nonneg h.current hk (Option.mem_toList.1 hv) hr ht
  -- on the way back to USR mode at most the loop of `sys_read` adds a result
  have hend : Grown p (s.kern.results p) t := by
    refine (hes.ends (I := fun s₁ => (Grown p (s.kern.results p) s₁ ∧ ∃ c, Inv b s₁ c) ∧
      ¬ InUser p s₁) (F := fun s₁ => (Grown p (s.kern.results p) s₁ ∧ ∃ c, Inv b s₁ c) ∧
      InUser p s₁) (fun _ h => h.2) (fun _ h => h.2) ?_ ?_).1.1
    · rintro s₁ e s₂ ⟨⟨hg, c, hinv⟩, hp⟩ hs₂
      have hg' := hinv.grown_step hp hg hs₂
      have hinv' := hinv.preserved hs₂
      by_cases hp' : InUser p s₂
      · exact Or.inr ⟨⟨hg', hinv'⟩, hp'⟩
      · exact Or.inl ⟨⟨hg', hinv'⟩, hp'⟩
    · have hinv' := h.preserved hs
      by_cases hp' : InUser p s'
      · exact Or.inr ⟨⟨hstart, hinv'⟩, hp'⟩
      · exact Or.inl ⟨⟨hstart, hinv'⟩, hp'⟩
  -- there is exactly one, and it is in `r0`
  obtain ⟨v, hregs, hres⟩ := h.svc_returns hs hes
  obtain ⟨vs, hvs, hall⟩ := hend
  have hv : vs = [v] := List.append_cancel_left (hvs.symm.trans hres)
  have hr0 : (t.arch.regs p).r 0 = v := by
    rw [hregs]
    simp [UserRegs.ret]
  rw [hr0]
  exact hall v (by simp [hv])

end Result

end RingNova
