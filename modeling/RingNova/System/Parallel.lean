/-
# Two machines in step

The C code is written over the interface `Arch`, so two machines that implement it can be
run side by side.  If every operation of the interface takes related machine states to
related machine states and returns the same data, then so does the whole system
(`handle_rel`, `callSchedule_rel`).  This is used twice: to relate the ARM machine to the
process-level one, and to relate two ARM machines that differ in a foreign slot.
-/
import RingNova.Kernel.Window
import RingNova.System.Step

namespace RingNova

/-- What the machine is doing for the current process. -/
inductive Phase
  /-- Running user code. -/
  | user
  /-- In `handle_irq`, or about to enter a process for the first time. -/
  | irq
  /-- In `handle_svc`. -/
  | svc
  /-- In a fault handler. -/
  | fault
deriving DecidableEq, Repr

/-- The phase after an exception entry. -/
def Exn.phase : Exn → Phase
  | irq => .irq
  | svc => .svc
  | _ => .fault

/-- The phase at a call site of `schedule`. -/
def Cont.phase : Cont → Phase
  | .firstEntry => .irq
  | .irqTail => .irq
  | .svcTail => .svc
  | .blockOnInput _ _ _ _ => .svc
  | .faultTail => .fault

/-- The phase before a return to USR mode. -/
def Exit.phase : Exit → Phase
  | .first => .irq
  | .irq => .irq
  | .svc => .svc

/-- The phase at a control point; none after the end. -/
def Ctl.phase : Ctl → Option Phase
  | .user => some .user
  | .readLoop _ _ _ _ => some .svc
  | .blockRet _ _ _ _ => some .svc
  | .halted => none
  | .wild => none

section

variable {σ τ : Type}

/-- The operations of two machines on behalf of the current process `c` keep a relation
between their states, and return the same data.  The kernel uses user pointers only after
it has checked them. -/
structure OpsRel (A : Arch σ) (B : Arch τ) (c : Pid) (R : Phase → σ → τ → Prop) : Prop where
  exec : ∀ {a m} f, R .user a m → Option.Rel (R .user) (A.exec a c f) (B.exec m c f)
  uload : ∀ {a m} va rd, R .user a m → Option.Rel (R .user) (A.uload a c va rd) (B.uload m c va rd)
  ustore : ∀ {a m} va ch, R .user a m →
    Option.Rel (R .user) (A.ustore a c va ch) (B.ustore m c va ch)
  enter : ∀ {a m} x, R .user a m → R x.phase (A.enter a c x) (B.enter m c x)
  ctxFault : ∀ {a m} (kind : FaultKind), R .user a m →
    A.ctx (A.enter a c kind.exn) c kind.exn = B.ctx (B.enter m c kind.exn) c kind.exn
  ctxSvc : ∀ {a m}, R .svc a m → A.ctx a c .svc = B.ctx m c .svc
  setRet : ∀ {a m} v, R .svc a m → R .svc (A.setRet a c v) (B.setRet m c v)
  kload : ∀ {a m} va, inWindow va = true → R .svc a m → A.kload a c va = B.kload m c va
  kstore : ∀ {a m} va ch, inWindow va = true → R .svc a m →
    Option.Rel (R .svc) (A.kstore a c va ch) (B.kstore m c va ch)

/-- The relation at a control point; after the end, the one that held last. -/
def AtPoint (R : Phase → σ → τ → Prop) (ctl : Ctl) (a : σ) (m : τ) : Prop :=
  match ctl.phase with
  | some ph => R ph a m
  | none => ∃ ph, R ph a m

/-- The same globals, the same control point, and related machines. -/
structure SysRel (R : Pid → Phase → σ → τ → Prop) (s : Sys σ) (t : Sys τ) : Prop where
  kern : s.kern = t.kern
  ctl : s.ctl = t.ctl
  arch : ∀ c, t.kern.current = some c → AtPoint (R c) t.ctl s.arch t.arch

/-- Handlers get equally far. -/
inductive ReachedRel (R : Phase → σ → τ → Prop) : Reached σ → Reached τ → Prop
  | point {k : Kernel numProcesses} {ctl : Ctl} {a : σ} {m : τ} (h : AtPoint R ctl a m) :
    ReachedRel R (.point ⟨k, a, ctl⟩) (.point ⟨k, m, ctl⟩)
  | schedule {k : Kernel numProcesses} {site : Cont} {a : σ} {m : τ} (h : R site.phase a m) :
    ReachedRel R (.schedule k a site) (.schedule k m site)

variable {A : Arch σ} {B : Arch τ} {c : Pid} {R : Phase → σ → τ → Prop} {a : σ} {m : τ}

lemma atPoint_iff {ctl : Ctl} {ph : Phase} (hctl : ctl.phase = some ph) :
    AtPoint R ctl a m ↔ R ph a m := by
  rw [AtPoint, hctl]

/-- At every control point the machines are related in some phase. -/
lemma AtPoint.exists {ctl : Ctl} (h : AtPoint R ctl a m) : ∃ ph, R ph a m := by
  rw [AtPoint] at h
  split at h
  next ph _ => exact ⟨ph, h⟩
  next => exact h

lemma AtPoint.imp {υ : Type} {S : Phase → σ → υ → Prop} {x : υ} {ctl : Ctl}
    (h : AtPoint R ctl a m) (hRS : ∀ ph, R ph a m → S ph a x) : AtPoint S ctl a x := by
  rw [AtPoint] at h ⊢
  split at h
  next ph _ => exact hRS ph h
  next =>
    obtain ⟨ph, h⟩ := h
    exact ⟨ph, hRS ph h⟩

lemma ReachedRel.at {ph : Phase} (h : R ph a m) (k : Kernel numProcesses) {ctl : Ctl}
    (hctl : ctl.phase = some ph) : ReachedRel R (.point ⟨k, a, ctl⟩) (.point ⟨k, m, ctl⟩) :=
  .point ((atPoint_iff hctl).2 h)

lemma svcReturn_rel (hops : OpsRel A B c R) (h : R .svc a m) (k : Kernel numProcesses)
    (v : Word) : ReachedRel R (svcReturn A k a c v) (svcReturn B k m c v) :=
  .schedule (hops.setRet v h)

lemma kernelPanic_rel {ph : Phase} (h : R ph a m) (k : Kernel numProcesses) (kind : FaultKind) :
    ReachedRel R (kernelPanic k a kind) (kernelPanic k m kind) :=
  .point ⟨ph, h⟩

lemma writeLoop_rel (hops : OpsRel A B c R) (h : R .svc a m) (n : ℕ) (addr : Word)
    (hw : 0x40000000 ≤ addr.toNat ∧ addr.toNat + n ≤ 0x40100000) (k : Kernel numProcesses) :
    writeLoop A a c n addr k = writeLoop B m c n addr k := by
  induction n generalizing addr k with
  | zero => rfl
  | succ n ih =>
    obtain ⟨hin, hw'⟩ := window_succ hw
    rw [writeLoop, writeLoop, hops.kload addr hin h]
    rcases B.kload m c addr with _ | ch
    · rfl
    · exact ih _ hw' _

lemma storeLoop_rel (hops : OpsRel A B c R) (h : R .svc a m) (bs : List Byte) (addr : Word)
    (hw : 0x40000000 ≤ addr.toNat ∧ addr.toNat + bs.length ≤ 0x40100000) :
    R .svc (storeLoop A c bs addr a).1 (storeLoop B c bs addr m).1 ∧
      (storeLoop A c bs addr a).2 = (storeLoop B c bs addr m).2 := by
  induction bs generalizing addr a m with
  | nil => exact ⟨h, rfl⟩
  | cons ch bs ih =>
    obtain ⟨hin, hw'⟩ := window_succ hw
    have hst := hops.kstore addr ch hin h
    rw [storeLoop, storeLoop]
    generalize A.kstore a c addr ch = x at hst
    generalize B.kstore m c addr ch = y at hst
    cases hst with
    | none => exact ⟨h, rfl⟩
    | some h' => exact ih h' _ hw'

lemma sysWrite_rel (hops : OpsRel A B c R) (h : R .svc a m) (k : Kernel numProcesses)
    (buf len : Word) : ReachedRel R (sysWrite A k a c buf len) (sysWrite B k m c buf len) := by
  rw [sysWrite, sysWrite]
  split
  next hv =>
    rw [writeLoop_rel hops h _ _ ((validUserPtr_iff buf len).1 hv)]
    rcases writeLoop B m c len.toNat buf k with ⟨k', _ | _⟩
    · exact kernelPanic_rel h k' _
    · exact svcReturn_rel hops h k' _
  next => exact svcReturn_rel hops h k _

lemma sysPs_rel (hops : OpsRel A B c R) (h : R .svc a m) (k : Kernel numProcesses)
    (buf size : Word) : ReachedRel R (sysPs A k a c buf size) (sysPs B k m c buf size) := by
  rw [sysPs, sysPs]
  split
  next hv =>
    have hw := (validUserPtr_iff buf size).1 hv
    have hlen := length_sysPsBytes k size
    obtain ⟨h1, h2⟩ := storeLoop_rel hops h (k.sysPsBytes size) buf ⟨hw.1, by omega⟩
    generalize storeLoop A c (k.sysPsBytes size) buf a = x at h1 h2
    generalize storeLoop B c (k.sysPsBytes size) buf m = y at h1 h2
    obtain ⟨a', ok⟩ := x
    obtain ⟨m', ok'⟩ := y
    obtain rfl : ok = ok' := h2
    cases ok with
    | false => exact kernelPanic_rel h1 k _
    | true => exact svcReturn_rel hops h1 k _
  next => exact svcReturn_rel hops h k _

lemma sysRead_rel (hops : OpsRel A B c R) (h : R .svc a m) (k : Kernel numProcesses)
    (buf len : Word) : ReachedRel R (sysRead A k a c buf len) (sysRead B k m c buf len) := by
  rw [sysRead, sysRead]
  split
  · exact svcReturn_rel hops h k _
  · split
    · exact ReachedRel.at h k rfl
    · exact svcReturn_rel hops h k _

lemma readIter_rel (hops : OpsRel A B c R) (h : R .svc a m) (k : Kernel numProcesses)
    {buf len : Word} (hv : validUserPtr buf len = true) (n : Word) (got : List Byte) :
    ReachedRel R (readIter A k a c buf len n got) (readIter B k m c buf len n got) := by
  rw [readIter, readIter]
  split
  next hn =>
    rcases k.rx.uartRxPop with ⟨ch, rx⟩
    dsimp only
    split
    · split
      · exact svcReturn_rel hops h _ _
      · exact .schedule h
    · have hst := hops.kstore (buf + n) (BitVec.ofInt 8 ch) (inWindow_of_valid hv hn) h
      generalize A.kstore a c (buf + n) (BitVec.ofInt 8 ch) = x at hst
      generalize B.kstore m c (buf + n) (BitVec.ofInt 8 ch) = y at hst
      cases hst with
      | none => exact kernelPanic_rel h _ _
      | some h' => exact ReachedRel.at h' _ rfl
  next => exact svcReturn_rel hops h _ _

lemma handleSvc_rel (hops : OpsRel A B c R) (h : R .svc a m) (k : Kernel numProcesses) :
    ReachedRel R (handleSvc A k a c) (handleSvc B k m c) := by
  simp only [handleSvc, hops.ctxSvc h]
  split
  · exact svcReturn_rel hops h _ _
  · exact sysWrite_rel hops h _ _ _
  · exact svcReturn_rel hops h _ _
  · exact svcReturn_rel hops h _ _
  · exact svcReturn_rel hops h _ _
  · exact sysRead_rel hops h _ _ _
  · exact sysPs_rel hops h _ _ _
  · exact svcReturn_rel hops h _ _
  · exact svcReturn_rel hops h _ _

lemma handleFault_rel (hops : OpsRel A B c R) (h : R .user a m) (k : Kernel numProcesses)
    (kind : FaultKind) (far fsr : Word) :
    ReachedRel R (handleFault A k (A.enter a c kind.exn) c kind far fsr)
      (handleFault B k (B.enter m c kind.exn) c kind far fsr) := by
  simp only [handleFault, hops.ctxFault kind h]
  split
  · refine .schedule ?_
    have h' := hops.enter kind.exn h
    cases kind <;> exact h'
  · exact kernelPanic_rel (hops.enter kind.exn h) k kind

/-- A user step that the machines take, or do not take, together. -/
lemma map_point_rel {x : Option σ} {y : Option τ} (h : Option.Rel (R .user) x y)
    (k : Kernel numProcesses) :
    Option.Rel (ReachedRel R) (x.map fun a => .point ⟨k, a, .user⟩)
      (y.map fun m => .point ⟨k, m, .user⟩) := by
  cases h with
  | none => exact .none
  | some h => exact .some (ReachedRel.at h k rfl)

/-- **Handlers in step.** -/
theorem handle_rel {R : Pid → Phase → σ → τ → Prop} {s : Sys σ} {t : Sys τ}
    (hops : OpsRel A B c (R c)) (h : SysRel R s t) (hc : t.kern.current = some c)
    (hv : ∀ buf len n got, t.ctl = .readLoop buf len n got → validUserPtr buf len = true)
    (b : Board) (e : Event) :
    Option.Rel (ReachedRel (R c)) (handle A b s c e) (handle B b t c e) := by
  have harch := h.arch c hc
  rcases hctl : t.ctl with _ | ⟨buf, len, n, got⟩ | ⟨buf, len, n, got⟩ | _ | _
  case user =>
    have hu : R c .user s.arch t.arch := (atPoint_iff (by rw [hctl]; rfl)).1 harch
    cases e with
    | exec f =>
      simp only [handle, h.ctl, h.kern, hctl]
      exact map_point_rel (hops.exec f hu) _
    | load va rd =>
      simp only [handle, h.ctl, h.kern, hctl]
      exact map_point_rel (hops.uload va rd hu) _
    | store va ch =>
      simp only [handle, h.ctl, h.kern, hctl]
      exact map_point_rel (hops.ustore va ch hu) _
    | irq ack rx =>
      simp only [handle, h.ctl, h.kern, hctl]
      exact .some (.schedule (hops.enter .irq hu))
    | svc =>
      simp only [handle, h.ctl, h.kern, hctl]
      exact .some (handleSvc_rel hops (hops.enter .svc hu) _)
    | fault kind far fsr =>
      simp only [handle, h.ctl, h.kern, hctl]
      exact .some (handleFault_rel hops hu _ kind far fsr)
    | kernel =>
      simp only [handle, h.ctl, hctl]
      exact .none
  case readLoop =>
    have hsvc : R c .svc s.arch t.arch := (atPoint_iff (by rw [hctl]; rfl)).1 harch
    cases e with
    | kernel =>
      simp only [handle, h.ctl, h.kern, hctl]
      exact .some (readIter_rel hops hsvc _ (hv _ _ _ _ hctl) _ _)
    | _ =>
      simp only [handle, h.ctl, hctl]
      exact .none
  case blockRet =>
    have hsvc : R c .svc s.arch t.arch := (atPoint_iff (by rw [hctl]; rfl)).1 harch
    cases e with
    | kernel =>
      simp only [handle, h.ctl, h.kern, hctl]
      exact .some (ReachedRel.at hsvc _ rfl)
    | _ =>
      simp only [handle, h.ctl, hctl]
      exact .none
  case halted =>
    cases e <;> simp only [handle, h.ctl, hctl] <;> exact .none
  case wild =>
    cases e <;> simp only [handle, h.ctl, hctl] <;> exact .none

/-! ### Calls of `schedule` -/

variable {R : Pid → Phase → σ → τ → Prop}

lemma resume_rel
    (hleave : ∀ {a m} (x : Exit), R c x.phase a m → R c .user (A.leave a c x) (B.leave m c x))
    {k : Kernel numProcesses} (hc : k.current = some c) {site : Cont} (h : R c site.phase a m) :
    SysRel R (resume A k a c site) (resume B k m c site) := by
  have hat : ∀ {a' m' ph ctl}, R c ph a' m' → ctl.phase = some ph →
      SysRel R ⟨k, a', ctl⟩ ⟨k, m', ctl⟩ := by
    intro a' m' ph ctl h' hctl
    refine ⟨rfl, rfl, ?_⟩
    intro c' hc'
    obtain rfl : c = c' := Option.some.inj (hc.symm.trans hc')
    exact (atPoint_iff hctl).2 h'
  cases site with
  | firstEntry => exact hat (hleave .first h) rfl
  | irqTail => exact hat (hleave .irq h) rfl
  | svcTail => exact hat (hleave .svc h) rfl
  | blockOnInput buf len n got => exact hat h rfl
  | faultTail =>
    refine ⟨rfl, rfl, ?_⟩
    intro c' hc'
    obtain rfl : c = c' := Option.some.inj (hc.symm.trans hc')
    exact ⟨.fault, h⟩

/-- **Calls of `schedule` in step.**  What `context_switch` does is asked only for the pair
of processes that `schedule` decides on. -/
theorem callSchedule_rel
    (hleave : ∀ {c a m} (x : Exit), R c x.phase a m → R c .user (A.leave a c x) (B.leave m c x))
    {k : Kernel numProcesses} (hc : k.current = some c) {site : Cont} (h : R c site.phase a m)
    (hswitch : ∀ k' n, k.schedule = (k', some (c, n)) → ∃ a' m' cont,
      A.switch k' a c n site = some (a', cont) ∧ B.switch k' m c n site = some (m', cont) ∧
        R n cont.phase a' m') :
    SysRel R (callSchedule A k a c site) (callSchedule B k m c site) := by
  rw [callSchedule, callSchedule]
  rcases hsch : k.schedule with ⟨k', _ | ⟨prev, next⟩⟩
  · refine resume_rel (fun x => hleave x) ?_ h
    exact (k.current_of_schedule hsch).trans hc
  · obtain ⟨rfl, hnext⟩ := k.current_of_schedule_switch hc hsch
    obtain ⟨a', m', cont, ha, hm, h'⟩ := hswitch k' next hsch
    simp only [ha, hm]
    exact resume_rel (fun x => hleave x) hnext h'

end

end RingNova
