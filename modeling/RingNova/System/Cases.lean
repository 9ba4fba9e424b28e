/-
# What one step of the system can do

Inversion of the step function on the process-level machine.  A step either leaves the
scheduling state alone (`Quiet`), or it makes one change to it (`Act`), recorded together
with the globals and the machine at that moment (`Call`), and then calls `schedule` from
one of the four sites.  `step_cases` says that there is nothing else; every invariant of the
system is derived from it and from `callSchedule_cases`.
-/
import RingNova.System.Process

namespace RingNova

/-! ### The scheduling state -/

/-- The part of the globals that decides who runs. -/
@[ext] structure Core where
  st : Pid → TaskState
  current : Option Pid
  needReschedule : Bool
  blockedReader : Option Pid
  wakeHint : Option Pid

/-- The scheduling state of the globals. -/
def Kernel.core (k : Kernel numProcesses) : Core :=
  ⟨k.st, k.current, k.needReschedule, k.blockedReader, k.wakeHint⟩

/-- The change that an event makes to the scheduling state before `schedule` is called. -/
inductive Act
  | nothing
  /-- A tick or `sys_yield`. -/
  | request
  /-- `scheduler_wake_reader` finds its process asleep. -/
  | wake (p : Pid)
  /-- `sys_exit`, `sys_kill` or a fault. -/
  | die (p : Pid)
  /-- `scheduler_block_on_input`. -/
  | sleep
deriving DecidableEq

/-- The scheduling state after a change made while `c` is the current process. -/
def Core.after (q : Core) (c : Pid) : Act → Core
  | .nothing => q
  | .request => { q with needReschedule := true }
  | .wake p =>
    ⟨Function.update q.st p .ready, q.current, true, none, some p⟩
  | .die p => { q with st := Function.update q.st p .dead, needReschedule := true }
  | .sleep => ⟨Function.update q.st c .blocked, q.current, true, some c, q.wakeHint⟩

/-- What `scheduler_wake_reader` does. -/
def wakeAct (k : Kernel numProcesses) : Act :=
  match k.blockedReader with
  | some p => if k.st p = .blocked then .wake p else .nothing
  | none => .nothing

/-- What an interrupt does. -/
def irqAct (b : Board) (k : Kernel numProcesses) (ack : Word) : Act :=
  if b.getActive ack = b.irqUart0 then wakeAct k
  else if b.getActive ack = b.irqTimer then .request
  else .nothing

/-- What a syscall that does not enter the loop of `sys_read` does. -/
def svcAct (k : Kernel numProcesses) (c : Pid) (r : Fin 13 → Word) : Option Act :=
  match Syscall.ofNum (r 7) with
  | some .yield => some .request
  | some .exit => some (.die c)
  | some .kill =>
    if h : (r 0).toNat < numProcesses then
      if k.st ⟨(r 0).toNat, h⟩ = .dead then some .nothing else some (.die ⟨(r 0).toNat, h⟩)
    else some .nothing
  | some .read => if r 2 ≠ 0#32 ∧ validUserPtr (r 1) (r 2) then none else some .nothing
  | _ => some .nothing

/-- An entry of the history other than console output and end-of-interrupt writes. -/
def Obs.isMark : Obs numProcesses → Bool
  | .tx _ => false
  | .eoi _ => false
  | _ => true

/-- The history without console output and end-of-interrupt writes. -/
def Kernel.marks (k : Kernel numProcesses) : List (Obs numProcesses) := k.log.filter Obs.isMark

lemma marks_emit (k : Kernel numProcesses) (os : List (Obs numProcesses)) :
    (k.emit os).marks = k.marks ++ os.filter Obs.isMark :=
  List.filter_append _ _

/-- What is read off the marks can be read off the whole history. -/
lemma flatMap_marks {α : Type} {f : Obs numProcesses → List α} (htx : ∀ c, f (.tx c) = [])
    (heoi : ∀ v, f (.eoi v) = []) (k : Kernel numProcesses) :
    k.marks.flatMap f = k.log.flatMap f := by
  rw [Kernel.marks]
  induction k.log with
  | nil => rfl
  | cons o l ih =>
    rw [List.flatMap_cons, List.filter_cons, ← ih]
    cases o with
    | tx c => simp [htx, Obs.isMark]
    | eoi v => simp [heoi, Obs.isMark]
    | _ => simp [Obs.isMark]

/-! ### Globals that a console message does not change -/

section Print

variable (k : Kernel numProcesses) (bs : List Byte)

@[simp] lemma core_print : (k.print bs).core = k.core := rfl
@[simp] lemma rx_print : (k.print bs).rx = k.rx := rfl
@[simp] lemma processes_print : (k.print bs).processes = k.processes := rfl
@[simp] lemma irqTable_print : (k.print bs).irqTable = k.irqTable := rfl
@[simp] lemma userHandler_print : (k.print bs).userHandler = k.userHandler := rfl

@[simp] lemma marks_print : (k.print bs).marks = k.marks := by
  have h : (bs.map Obs.tx).filter Obs.isMark = [] := by simp [List.filter_eq_nil_iff, Obs.isMark]
  rw [Kernel.print, marks_emit, h, List.append_nil]

variable (fmt : String) (args : List PrintfArg)

@[simp] lemma core_printf : (k.printf fmt args).core = k.core := rfl
@[simp] lemma st_printf (p : Pid) : (k.printf fmt args).st p = k.st p := rfl
@[simp] lemma current_printf : (k.printf fmt args).current = k.current := rfl
@[simp] lemma rx_printf : (k.printf fmt args).rx = k.rx := rfl
@[simp] lemma processes_printf : (k.printf fmt args).processes = k.processes := rfl
@[simp] lemma irqTable_printf : (k.printf fmt args).irqTable = k.irqTable := rfl
@[simp] lemma userHandler_printf : (k.printf fmt args).userHandler = k.userHandler := rfl
@[simp] lemma marks_printf : (k.printf fmt args).marks = k.marks := marks_print k _

end Print

lemma core_setState (k : Kernel numProcesses) (p : Pid) (s : TaskState) :
    (k.setState p s).core = { k.core with st := Function.update k.st p s } := by
  refine Core.ext (funext ?_) rfl rfl rfl rfl
  intro q
  by_cases h : q = p
  · subst h
    simp [Kernel.core]
  · simp [Kernel.core, Kernel.st_setState, h]

@[simp] lemma marks_setState (k : Kernel numProcesses) (p : Pid) (s : TaskState) :
    (k.setState p s).marks = k.marks := rfl

/-! ### Globals kept by the handlers -/

/-- What every handler keeps: the static part of the PCBs, the interrupt table and the
timer callback. -/
structure Keeps (k k' : Kernel numProcesses) : Prop where
  fixed : ∀ p, (k'.processes p).fixed = (k.processes p).fixed
  irqTable : k'.irqTable = k.irqTable
  userHandler : k'.userHandler = k.userHandler

lemma Keeps.refl (k : Kernel numProcesses) : Keeps k k := ⟨fun _ => rfl, rfl, rfl⟩

lemma Keeps.trans {k k' k'' : Kernel numProcesses} (h : Keeps k k') (h' : Keeps k' k'') :
    Keeps k k'' :=
  ⟨fun p => (h'.fixed p).trans (h.fixed p), h'.irqTable.trans h.irqTable,
    h'.userHandler.trans h.userHandler⟩

/-! ### `schedule` -/

lemma two_numProcesses_le : 2 * numProcesses ≤ 2 ^ 32 := by decide

lemma keeps_schedule (k : Kernel numProcesses) : Keeps k k.schedule.1 := by
  rcases hreq : k.needReschedule with _ | _
  · rw [Kernel.schedule_idle hreq]
    exact Keeps.refl k
  rcases hc : k.current with _ | c
  · simp only [Kernel.schedule, hreq, hc]
    exact Keeps.refl k
  · rcases Kernel.schedule_cases two_numProcesses_le hc hreq with
      ⟨n, byHint, -, -, -, h⟩ | ⟨-, h⟩
    · rw [h]
      exact ⟨fun p => Kernel.fixed_performSwitch _ c n byHint p,
        Kernel.irqTable_performSwitch _ c n byHint,
        Kernel.userHandler_performSwitch _ c n byHint⟩
    · rw [h]
      exact ⟨fun _ => rfl, rfl, rfl⟩

lemma rx_schedule (k : Kernel numProcesses) : k.schedule.1.rx = k.rx := by
  rcases hreq : k.needReschedule with _ | _
  · rw [Kernel.schedule_idle hreq]
  rcases hc : k.current with _ | c
  · simp only [Kernel.schedule, hreq, hc]
  · rcases Kernel.schedule_cases two_numProcesses_le hc hreq with
      ⟨n, byHint, -, -, -, h⟩ | ⟨-, h⟩
    · rw [h]
      exact Kernel.rx_performSwitch _ c n byHint
    · rw [h]
      rfl

/-- The control point at which a call site of `schedule` continues. -/
def Cont.ctl : Cont → Ctl
  | .firstEntry => .user
  | .irqTail => .user
  | .svcTail => .user
  | .blockOnInput buf len n got => .blockRet buf len n got
  | .faultTail => .halted

section Resume

variable (k : Kernel numProcesses) (a : ProcMachine) (c : Pid) (site : Cont)

@[simp] lemma ctl_resume : (resume procArch k a c site).ctl = site.ctl := by
  cases site <;> rfl

@[simp] lemma arch_resume : (resume procArch k a c site).arch = a := by
  cases site <;> rfl

@[simp] lemma core_resume : (resume procArch k a c site).kern.core = k.core := by
  cases site <;> rfl

@[simp] lemma rx_resume : (resume procArch k a c site).kern.rx = k.rx := by
  cases site <;> rfl

lemma keeps_resume : Keeps k (resume procArch k a c site).kern := by
  cases site <;> exact ⟨fun _ => rfl, rfl, rfl⟩

@[simp] lemma marks_resume : (resume procArch k a c site).kern.marks = k.marks := by
  cases site with
  | faultTail => exact (marks_printf _ _ _).trans (marks_printf _ _ _)
  | _ => rfl

end Resume

/-- The process-level machine with `c` parked at a site. -/
def ProcMachine.park (a : ProcMachine) (c : Pid) (site : Cont) : ProcMachine :=
  { a with cont := Function.update a.cont c site }

/-- A call of `schedule`: nothing was requested, or the CPU goes to another runnable
process, or there is none and the caller goes on. -/
theorem callSchedule_cases {k : Kernel numProcesses} {c : Pid} (hc : k.current = some c)
    (a : ProcMachine) (site : Cont) :
    (k.needReschedule = false ∧
        callSchedule procArch k a c site = resume procArch k a c site) ∨
      (k.needReschedule = true ∧ ∃ n byHint, n ≠ c ∧ k.Runnable n ∧
        (∀ h, k.wakeHint = some h → h ≠ c → k.Runnable h → n = h) ∧
        callSchedule procArch k a c site =
          resume procArch (k.clearRequest.performSwitch c n byHint) (a.park c site) n
            (a.cont n)) ∨
      (k.needReschedule = true ∧ (∀ n, n ≠ c → ¬ k.Runnable n) ∧
        callSchedule procArch k a c site = resume procArch k.clearRequest a c site) := by
  rcases hreq : k.needReschedule with _ | _
  · left
    refine ⟨rfl, ?_⟩
    rw [callSchedule, Kernel.schedule_idle hreq]
  · right
    rcases Kernel.schedule_cases two_numProcesses_le hc hreq with
      ⟨n, byHint, hn, hrun, hhint, h⟩ | ⟨hnone, h⟩
    · left
      refine ⟨rfl, n, byHint, hn, hrun, hhint, ?_⟩
      rw [callSchedule, h]
      rfl
    · right
      refine ⟨rfl, hnone, ?_⟩
      rw [callSchedule, h]

/-! ### Interrupts -/

lemma rx_foldl_uartRxPush (k : Kernel numProcesses) (rx : List Byte) :
    (rx.foldl Kernel.uartRxPush k).rx = k.rx.pushAll rx := by
  induction rx generalizing k with
  | nil => rfl
  | cons c rx ih => exact ih (k.uartRxPush c)

lemma marks_uartRxPush (k : Kernel numProcesses) (c : Byte) :
    (k.uartRxPush c).marks = k.marks ++ if k.rx.hasRoom then [.rxAccept c] else [] := by
  refine (List.filter_append _ _).trans (congrArg (k.marks ++ ·) ?_)
  by_cases h : k.rx.hasRoom = true <;> simp [h, Obs.isMark]

lemma marks_foldl_uartRxPush (k : Kernel numProcesses) (rx : List Byte) :
    (rx.foldl Kernel.uartRxPush k).marks = k.marks ++ (k.rx.accepted rx).map .rxAccept := by
  induction rx generalizing k with
  | nil => simp [RxRing.accepted]
  | cons c rx ih =>
    rw [List.foldl_cons, ih, marks_uartRxPush, RxRing.accepted, List.map_append,
      List.append_assoc]
    congr 2
    by_cases h : k.rx.hasRoom = true <;> simp [h]

/-- The mark left by `scheduler_wake_reader`. -/
def Act.wakeMark : Act → List (Obs numProcesses)
  | .wake p => [.wake p]
  | _ => []

lemma flatMap_wakeMark {α : Type} {f : Obs numProcesses → List α} (hf : ∀ p, f (.wake p) = [])
    (act : Act) : act.wakeMark.flatMap f = [] := by
  cases act <;> simp [Act.wakeMark, hf]

lemma schedulerWakeReader_spec (k : Kernel numProcesses) (c : Pid) :
    k.schedulerWakeReader.core = k.core.after c (wakeAct k) ∧
      k.schedulerWakeReader.rx = k.rx ∧ Keeps k k.schedulerWakeReader ∧
      k.schedulerWakeReader.marks = k.marks ++ (wakeAct k).wakeMark := by
  rcases hb : k.blockedReader with _ | p
  · have hk : k.schedulerWakeReader = k := by rw [Kernel.schedulerWakeReader, hb]
    have ha : wakeAct k = .nothing := by rw [wakeAct, hb]
    rw [hk, ha]
    exact ⟨rfl, rfl, Keeps.refl k, (List.append_nil _).symm⟩
  · by_cases hs : k.st p = .blocked
    · have ha : wakeAct k = .wake p := by simp [wakeAct, hb, hs]
      rw [ha]
      have hk : k.schedulerWakeReader =
          { (k.setState p .ready).emit [.wake p] with
            blockedReader := none, wakeHint := some p, needReschedule := true } := by
        simp [Kernel.schedulerWakeReader, hb, hs]
      refine ⟨?_, by rw [hk]; rfl, ?_, ?_⟩
      · have h := congrArg Core.st (core_setState k p .ready)
        rw [hk]
        exact Core.ext h rfl rfl rfl rfl
      · rw [hk]
        exact ⟨fun q => Kernel.fixed_setState k p q .ready, rfl, rfl⟩
      · rw [hk]
        exact marks_emit k [.wake p]
    · have hk : k.schedulerWakeReader = k := by simp [Kernel.schedulerWakeReader, hb, hs]
      have ha : wakeAct k = .nothing := by simp [wakeAct, hb, hs]
      rw [hk, ha]
      exact ⟨rfl, rfl, Keeps.refl k, (List.append_nil _).symm⟩

lemma keeps_foldl_uartRxPush (k : Kernel numProcesses) (rx : List Byte) :
    Keeps k (rx.foldl Kernel.uartRxPush k) :=
  ⟨fun p => Kernel.foldl_uartRxPush_eq (f := fun k => (k.processes p).fixed)
      (fun _ _ => rfl) k rx,
    Kernel.foldl_uartRxPush_eq (f := fun k => k.irqTable) (fun _ _ => rfl) k rx,
    Kernel.foldl_uartRxPush_eq (f := fun k => k.userHandler) (fun _ _ => rfl) k rx⟩

/-- The receive interrupt: bytes enter the ring, then the reader is woken. -/
lemma uartRxIrq_spec (k : Kernel numProcesses) (rx : List Byte) (c : Pid) :
    (k.uartRxIrq rx).core = k.core.after c (wakeAct k) ∧
      (k.uartRxIrq rx).rx = k.rx.pushAll rx ∧ Keeps k (k.uartRxIrq rx) ∧
      (k.uartRxIrq rx).marks =
        k.marks ++ ((k.rx.accepted rx).map .rxAccept ++ (wakeAct k).wakeMark) := by
  have hcore : (rx.foldl Kernel.uartRxPush k).core = k.core :=
    Kernel.foldl_uartRxPush_eq (f := Kernel.core) (fun _ _ => rfl) k rx
  have hact : wakeAct (rx.foldl Kernel.uartRxPush k) = wakeAct k := by
    have hb := congrArg Core.blockedReader hcore
    have hs := congrArg Core.st hcore
    simp only [Kernel.core] at hb hs
    simp only [wakeAct, hb, hs]
  obtain ⟨h1, h2, h3, h4⟩ := schedulerWakeReader_spec (rx.foldl Kernel.uartRxPush k) c
  rw [hact, hcore] at h1
  rw [hact, marks_foldl_uartRxPush, List.append_assoc] at h4
  exact ⟨h1, h2.trans (rx_foldl_uartRxPush k rx), (keeps_foldl_uartRxPush k rx).trans h3, h4⟩

/-- The interrupt table and the timer callback are the ones `kmain` installs. -/
structure Wired (b : Board) (k : Kernel numProcesses) : Prop where
  irqTable : k.irqTable = bootIrqTable b
  userHandler : k.userHandler = some .schedulerTick

lemma Keeps.wired {b : Board} {k k' : Kernel numProcesses} (h : Keeps k k') (hw : Wired b k) :
    Wired b k' :=
  ⟨h.irqTable.trans hw.irqTable, h.userHandler.trans hw.userHandler⟩

lemma irqUart0_lt_maxIrqs (b : Board) : b.irqUart0 < maxIrqs := by
  cases b <;> decide

lemma irqTimer_lt_maxIrqs (b : Board) : b.irqTimer < maxIrqs := by
  cases b <;> decide

lemma irqTimer_ne_irqUart0 (b : Board) : b.irqTimer ≠ b.irqUart0 := by
  cases b <;> decide

/-- The ring after an interrupt. -/
def irqRing (b : Board) (r : RxRing) (ack : Word) (rx : List Byte) : RxRing :=
  if b.getActive ack = b.irqUart0 then r.pushAll rx else r

/-- The marks of an interrupt. -/
def irqMarks (b : Board) (k : Kernel numProcesses) (ack : Word) (rx : List Byte) :
    List (Obs numProcesses) :=
  if b.getActive ack = b.irqUart0 then
    (k.rx.accepted rx).map .rxAccept ++ (wakeAct k).wakeMark
  else []

lemma flatMap_irqMarks {α : Type} {f : Obs numProcesses → List α} (hrx : ∀ c, f (.rxAccept c) = [])
    (hwake : ∀ p, f (.wake p) = []) (b : Board) (k : Kernel numProcesses) (ack : Word)
    (rx : List Byte) : (irqMarks b k ack rx).flatMap f = [] := by
  rw [irqMarks]
  split
  · rw [List.flatMap_append, flatMap_wakeMark hwake, List.append_nil, List.flatMap_map]
    simp [hrx]
  · rfl

lemma marks_emit_eoi (k : Kernel numProcesses) (v : Word) : (k.emit [.eoi v]).marks = k.marks := by
  rw [marks_emit]
  exact List.append_nil _

/-- `irq_dispatch` with the handlers of `kmain`. -/
lemma irqDispatch_spec {b : Board} {k : Kernel numProcesses} (hw : Wired b k) (ack : Word)
    (rx : List Byte) (c : Pid) :
    (k.irqDispatch b ack rx).core = k.core.after c (irqAct b k ack) ∧
      (k.irqDispatch b ack rx).rx = irqRing b k.rx ack rx ∧
      Keeps k (k.irqDispatch b ack rx) ∧
      (k.irqDispatch b ack rx).marks = k.marks ++ irqMarks b k ack rx := by
  by_cases hu : b.getActive ack = b.irqUart0
  · -- the console's line
    have hk : k.irqDispatch b ack rx = (k.uartRxIrq rx).emit [.eoi (b.eoi b.irqUart0)] := by
      simp [Kernel.irqDispatch, hu, irqUart0_lt_maxIrqs, hw.irqTable, bootIrqTable,
        Kernel.runIrqHandler]
    obtain ⟨h1, h2, h3, h4⟩ := uartRxIrq_spec k rx c
    have ha : irqAct b k ack = wakeAct k := by rw [irqAct, if_pos hu]
    rw [hk, ha, irqRing, if_pos hu, irqMarks, if_pos hu, marks_emit_eoi]
    exact ⟨h1, h2, h3.trans ⟨fun _ => rfl, rfl, rfl⟩, h4⟩
  · rw [irqRing, if_neg hu, irqMarks, if_neg hu, List.append_nil, irqAct, if_neg hu]
    by_cases ht : b.getActive ack = b.irqTimer
    · -- the tick
      have hk : k.irqDispatch b ack rx =
          ({ k with tickCount := k.tickCount + 1#32 }.schedulerTick).emit
            [.eoi (b.eoi b.irqTimer)] := by
        simp [Kernel.irqDispatch, ht, irqTimer_lt_maxIrqs, irqTimer_ne_irqUart0, hw.irqTable,
          bootIrqTable, Kernel.runIrqHandler, Kernel.timerTick, hw.userHandler]
      rw [hk, if_pos ht, marks_emit_eoi]
      exact ⟨rfl, rfl, ⟨fun _ => rfl, rfl, rfl⟩, rfl⟩
    · -- a line nobody has registered, or a spurious interrupt
      have hk : k.irqDispatch b ack rx = k.emit [.eoi (b.eoi (b.getActive ack))] := by
        simp [Kernel.irqDispatch, hw.irqTable, bootIrqTable, hu, ht]
      rw [hk, if_neg ht, marks_emit_eoi]
      exact ⟨rfl, rfl, ⟨fun _ => rfl, rfl, rfl⟩, rfl⟩

/-! ### Syscalls -/

/-- What a syscall handler of process `c` has done when it returns `v` to
`syscall_dispatch`: a change of the scheduling state, console output, and writes to the
caller's memory. -/
structure SvcDone (k : Kernel numProcesses) (a : ProcMachine) (c : Pid) (act : Act)
    (k' : Kernel numProcesses) (a' : ProcMachine) : Prop where
  core : k'.core = k.core.after c act
  rx : k'.rx = k.rx
  marks : k'.marks = k.marks
  keeps : Keeps k k'
  regs : a'.regs = a.regs
  cont : a'.cont = a.cont
  umem : ∀ p, p ≠ c → a'.umem p = a.umem p

lemma SvcDone.quiet (k : Kernel numProcesses) (a : ProcMachine) (c : Pid) :
    SvcDone k a c .nothing k a :=
  ⟨rfl, rfl, rfl, Keeps.refl k, rfl, rfl, fun _ _ => rfl⟩

lemma SvcDone.ofKernel {k k' : Kernel numProcesses} {a : ProcMachine} {c : Pid} {act : Act}
    (hcore : k'.core = k.core.after c act) (hrx : k'.rx = k.rx) (hm : k'.marks = k.marks)
    (hk : Keeps k k') : SvcDone k a c act k' a :=
  ⟨hcore, hrx, hm, hk, rfl, rfl, fun _ _ => rfl⟩

lemma svcDone_die (k : Kernel numProcesses) (a : ProcMachine) (c p : Pid) (fmt : String)
    (args : List PrintfArg) :
    SvcDone k a c (.die p) ((k.printf fmt args).setState p .dead).schedulerRequestResched a := by
  refine SvcDone.ofKernel ?_ rfl (marks_printf k fmt args) ?_
  · have h := congrArg Core.st (core_setState (k.printf fmt args) p .dead)
    exact Core.ext h rfl rfl rfl rfl
  · exact ⟨fun q => Kernel.fixed_setState _ p q .dead, rfl, rfl⟩

/-- A syscall enters the loop of `sys_read`, or its handler returns. -/
lemma handleSvc_cases {k : Kernel numProcesses} {a : ProcMachine} {c : Pid}
    (hc : k.current = some c) :
    (svcAct k c (a.regs c).r = none ∧ Syscall.ofNum ((a.regs c).r 7) = some .read ∧
        (a.regs c).r 2 ≠ 0#32 ∧ validUserPtr ((a.regs c).r 1) ((a.regs c).r 2) = true ∧
        handleSvc procArch k a c =
          .point ⟨k, a, .readLoop ((a.regs c).r 1) ((a.regs c).r 2) 0#32 []⟩) ∨
      (∃ act k' a' v, svcAct k c (a.regs c).r = some act ∧ SvcDone k a c act k' a' ∧
        handleSvc procArch k a c = svcReturn procArch k' a' c v) := by
  have hr : (procArch.ctx a c .svc).r = (a.regs c).r := rfl
  rcases hn : Syscall.ofNum ((a.regs c).r 7) with _ | num
  · right
    exact ⟨.nothing, k, a, eBadcall, by simp [svcAct, hn], SvcDone.quiet k a c,
      by simp only [handleSvc, hr, hn]⟩
  · cases num with
    | write =>
      right
      by_cases hv : validUserPtr ((a.regs c).r 1) ((a.regs c).r 2) = true
      · have hloop := writeLoop_proc a c _ _ k ((validUserPtr_iff _ _).1 hv)
        refine ⟨.nothing, k.print (writeOut a c ((a.regs c).r 2).toNat ((a.regs c).r 1)), a,
          (a.regs c).r 2, by simp [svcAct, hn],
          SvcDone.ofKernel rfl rfl (marks_print k _) ⟨fun _ => rfl, rfl, rfl⟩, ?_⟩
        simp only [handleSvc, hr, hn, sysWrite, hv, if_true, hloop]
      · exact ⟨.nothing, k, a, eFault, by simp [svcAct, hn], SvcDone.quiet k a c,
          by simp only [handleSvc, hr, hn, sysWrite, hv, Bool.false_eq_true, if_false]⟩
    | getpid =>
      right
      exact ⟨.nothing, k, a, k.sysGetpid, by simp [svcAct, hn], SvcDone.quiet k a c,
        by simp only [handleSvc, hr, hn]⟩
    | yield =>
      right
      refine ⟨.request, k.sysYield.1, a, k.sysYield.2, by simp [svcAct, hn], ?_,
        by simp only [handleSvc, hr, hn]⟩
      exact SvcDone.ofKernel rfl rfl rfl ⟨fun _ => rfl, rfl, rfl⟩
    | exit =>
      right
      refine ⟨.die c, k.sysExit.1, a, k.sysExit.2, by simp [svcAct, hn], ?_,
        by simp only [handleSvc, hr, hn]⟩
      simp only [Kernel.sysExit, hc]
      exact svcDone_die k a c c _ _
    | read =>
      by_cases hl : (a.regs c).r 2 = 0#32
      · right
        exact ⟨.nothing, k, a, 0#32, by simp [svcAct, hn, hl], SvcDone.quiet k a c,
          by simp only [handleSvc, hr, hn, sysRead, hl, if_true]⟩
      · by_cases hv : validUserPtr ((a.regs c).r 1) ((a.regs c).r 2) = true
        · left
          exact ⟨by simp [svcAct, hn, hl, hv], rfl, hl, hv,
            by simp only [handleSvc, hr, hn, sysRead, hl, hv, if_true, if_false]⟩
        · right
          exact ⟨.nothing, k, a, eFault, by simp [svcAct, hn, hv], SvcDone.quiet k a c,
            by simp only [handleSvc, hr, hn, sysRead, hl, hv, Bool.false_eq_true, if_false]⟩
    | ps =>
      right
      by_cases hv : validUserPtr ((a.regs c).r 0) ((a.regs c).r 1) = true
      · obtain ⟨h1, h2⟩ := (validUserPtr_iff _ _).1 hv
        have hlen := length_sysPsBytes k ((a.regs c).r 1)
        have hloop := storeLoop_proc c (k.sysPsBytes ((a.regs c).r 1)) ((a.regs c).r 0) a
          ⟨h1, by omega⟩
        obtain ⟨f1, f2, f3⟩ := storeOut_frame c (k.sysPsBytes ((a.regs c).r 1))
          ((a.regs c).r 0) a
        refine ⟨.nothing, k, _, BitVec.ofNat 32 (k.sysPsBytes ((a.regs c).r 1)).length,
          by simp [svcAct, hn], ⟨rfl, rfl, rfl, Keeps.refl k, f1, f2, f3⟩, ?_⟩
        simp only [handleSvc, hr, hn, sysPs, hv, if_true, hloop]
      · exact ⟨.nothing, k, a, eFault, by simp [svcAct, hn], SvcDone.quiet k a c,
          by simp only [handleSvc, hr, hn, sysPs, hv, Bool.false_eq_true, if_false]⟩
    | kill =>
      right
      by_cases hp : ((a.regs c).r 0).toNat < numProcesses
      · by_cases hd : k.st ⟨((a.regs c).r 0).toNat, hp⟩ = .dead
        · refine ⟨.nothing, k, a, 0#32, by simp [svcAct, hn, hp, hd], SvcDone.quiet k a c, ?_⟩
          simp only [handleSvc, hr, hn, Kernel.sysKill, hp, hd, dif_pos, if_true]
        · refine ⟨.die ⟨((a.regs c).r 0).toNat, hp⟩, (k.sysKill ((a.regs c).r 0)).1, a,
            (k.sysKill ((a.regs c).r 0)).2, by simp [svcAct, hn, hp, hd], ?_,
            by simp only [handleSvc, hr, hn]⟩
          simp only [Kernel.sysKill, hp, hd, dif_pos, if_false]
          exact svcDone_die k a c _ _ _
      · refine ⟨.nothing, k, a, eBadcall, by simp [svcAct, hn, hp], SvcDone.quiet k a c, ?_⟩
        simp only [handleSvc, hr, hn, Kernel.sysKill, hp, dif_neg, not_false_eq_true]
    | ticks =>
      right
      exact ⟨.nothing, k, a, k.sysTicks, by simp [svcAct, hn], SvcDone.quiet k a c,
        by simp only [handleSvc, hr, hn]⟩

/-! ### Dying and falling asleep -/

/-- A fault handler up to its call of `schedule`. -/
lemma userFaultKill_spec {k : Kernel numProcesses} {c : Pid} (hc : k.current = some c)
    {ctx : ExceptionContext} (kind : FaultKind) (far fsr : Word) :
    ((faultReport k ctx far fsr kind).userFaultKill kind.kindName).core =
        k.core.after c (.die c) ∧
      ((faultReport k ctx far fsr kind).userFaultKill kind.kindName).rx = k.rx ∧
      Keeps k ((faultReport k ctx far fsr kind).userFaultKill kind.kindName) ∧
      ((faultReport k ctx far fsr kind).userFaultKill kind.kindName).marks = k.marks := by
  obtain ⟨fmt, args, hrep⟩ : ∃ fmt args, faultReport k ctx far fsr kind = k.printf fmt args := by
    cases kind <;> exact ⟨_, _, rfl⟩
  rw [hrep]
  simp only [Kernel.userFaultKill, current_printf, hc]
  refine ⟨?_, rfl, ⟨fun q => Kernel.fixed_setState _ c q .dead, rfl, rfl⟩, ?_⟩
  · have h := congrArg Core.st (core_setState k c .dead)
    exact Core.ext h rfl rfl rfl rfl
  · exact (marks_printf _ _ _).trans (marks_printf _ _ _)

/-- `scheduler_block_on_input` up to its call of `schedule`. -/
lemma blockCurrent_spec {k : Kernel numProcesses} {c : Pid} (hc : k.current = some c) :
    k.blockCurrent.core = k.core.after c .sleep ∧ k.blockCurrent.rx = k.rx ∧
      Keeps k k.blockCurrent ∧ k.blockCurrent.marks = k.marks ++ [.block c] := by
  have hk : k.blockCurrent = { (k.setState c .blocked).emit [.block c] with
      blockedReader := some c, needReschedule := true } := by
    simp only [Kernel.blockCurrent, hc]
  rw [hk]
  refine ⟨?_, rfl, ⟨fun q => Kernel.fixed_setState k c q .blocked, rfl, rfl⟩, ?_⟩
  · have h := congrArg Core.st (core_setState k c .blocked)
    exact Core.ext h rfl rfl rfl rfl
  · exact marks_emit k [.block c]

/-! ### The steps -/

/-- The event that makes the kernel call `schedule`, the change it has made to the
scheduling state by then, the call site, the globals and the machine at the call, and the
marks left so far. -/
inductive Call (b : Board) (s : Sys ProcMachine) (c : Pid) :
    Event → Act → Cont → Kernel numProcesses → ProcMachine → List (Obs numProcesses) → Prop
  /-- The tail of `handle_irq`. -/
  | irq (ack : Word) (rx : List Byte) (hu : s.ctl = .user) :
    Call b s c (.irq ack rx) (irqAct b s.kern ack) .irqTail (s.kern.irqDispatch b ack rx) s.arch
      (irqMarks b s.kern ack rx)
  /-- The tail of `handle_svc`, from USR mode. -/
  | svc {act : Act} {k : Kernel numProcesses} {a : ProcMachine} (v : Word)
    (hu : s.ctl = .user) (hact : svcAct s.kern c (s.arch.regs c).r = some act)
    (hdone : SvcDone s.kern (s.arch.enter c .svc) c act k a) :
    Call b s c .svc act .svcTail (k.emit [.sysret c v]) (procArch.setRet a c v) [.sysret c v]
  /-- `user_fault_kill`. -/
  | fault (kind : FaultKind) (far fsr : Word) (hu : s.ctl = .user) :
    Call b s c (.fault kind far fsr) (.die c) .faultTail
      ((faultReport s.kern (s.arch.ctx c kind.exn) far fsr kind).userFaultKill kind.kindName)
      s.arch []
  /-- `scheduler_block_on_input`. -/
  | block {buf len n : Word} {got : List Byte} (hctl : s.ctl = .readLoop buf len n got)
    (hn : n < len) (hempty : s.kern.rx.contents = []) (h0 : n = 0#32) :
    Call b s c .kernel .sleep (.blockOnInput buf len n got) s.kern.blockCurrent s.arch [.block c]
  /-- The tail of `handle_svc`, after the loop of `sys_read`. -/
  | readReturn {buf len n : Word} {got : List Byte} (hctl : s.ctl = .readLoop buf len n got)
    (hn : ¬ n < len ∨ s.kern.rx.contents = [] ∧ n ≠ 0#32) :
    Call b s c .kernel .nothing .svcTail
      ((s.kern.emit [.readDone c got]).emit [.sysret c n]) (procArch.setRet s.arch c n)
      [.readDone c got, .sysret c n]

/-- A step that does not call `schedule`. -/
inductive Quiet (s : Sys ProcMachine) (c : Pid) : Event → Sys ProcMachine → Prop
  /-- The user program computes. -/
  | exec (f : UserRegs → UserRegs) (hu : s.ctl = .user)
    (hpriv : (f (s.arch.regs c)).cpsr &&& privBits = (s.arch.regs c).cpsr &&& privBits) :
    Quiet s c (.exec f) ⟨s.kern, s.arch.setRegs c (f (s.arch.regs c)), .user⟩
  /-- The user program loads a byte of its memory. -/
  | load (va : Word) (rd : Fin 13) (hu : s.ctl = .user) (hw : inWindow va = true) :
    Quiet s c (.load va rd) ⟨s.kern, s.arch.setRegs c { s.arch.regs c with
      r := Function.update (s.arch.regs c).r rd ((s.arch.umem c va).setWidth 32) }, .user⟩
  /-- The user program stores a byte in its memory. -/
  | store (va : Word) (ch : Byte) (hu : s.ctl = .user) (hw : inWindow va = true) :
    Quiet s c (.store va ch) ⟨s.kern, s.arch.setByte c va ch, .user⟩
  /-- `sys_read` accepts its arguments. -/
  | startRead (hu : s.ctl = .user) (hnum : Syscall.ofNum ((s.arch.regs c).r 7) = some .read)
    (hlen : (s.arch.regs c).r 2 ≠ 0#32)
    (hv : validUserPtr ((s.arch.regs c).r 1) ((s.arch.regs c).r 2) = true) :
    Quiet s c .svc ⟨s.kern, s.arch.enter c .svc,
      .readLoop ((s.arch.regs c).r 1) ((s.arch.regs c).r 2) 0#32 []⟩
  /-- The loop of `sys_read` moves a byte from the ring to the buffer. -/
  | pop {buf len n : Word} {got : List Byte} {ch : Byte} {rest : List Byte}
    (hctl : s.ctl = .readLoop buf len n got) (hn : n < len)
    (hring : s.kern.rx.contents = ch :: rest) :
    Quiet s c .kernel ⟨{ s.kern with rx := s.kern.rx.uartRxPop.2 },
      s.arch.setByte c (buf + n) ch, .readLoop buf len (n + 1#32) (got ++ [ch])⟩
  /-- The loop of `sys_read` tries again. -/
  | retry {buf len n : Word} {got : List Byte} (hctl : s.ctl = .blockRet buf len n got) :
    Quiet s c .kernel ⟨s.kern, s.arch, .readLoop buf len n got⟩

/-- The locals of `sys_read` fit together. -/
structure ReadArgs (buf len n : Word) (got : List Byte) : Prop where
  valid : validUserPtr buf len = true
  pos : 0 < len.toNat
  le : n.toNat ≤ len.toNat
  got : got.length = n.toNat

lemma ctx_r_enter_svc (a : ProcMachine) (c : Pid) :
    ((a.enter c .svc).regs c).r = (a.regs c).r := by
  simp [ProcMachine.enter, ProcMachine.setRegs]

/-- The registers that `syscall_dispatch` finds in the frame are the caller's. -/
lemma svcFrame_r (a : ProcMachine) (c : Pid) :
    (procArch.ctx (procArch.enter a c .svc) c .svc).r = (a.regs c).r :=
  ctx_r_enter_svc a c

lemma faultFromUser_proc {a : ProcMachine} {c : Pid} (kind : FaultKind)
    (hm : (a.regs c).cpsr &&& privBits = 0x10#32) :
    faultFromUser (a.ctx c kind.exn) = true := by
  have hs : (a.ctx c kind.exn).spsr = (a.regs c).cpsr := by cases kind <;> rfl
  have h : (a.regs c).cpsr &&& 0x1F#32 = ((a.regs c).cpsr &&& privBits) &&& 0x1F#32 := by
    rw [BitVec.and_assoc]
    rfl
  rw [faultFromUser, hs, h, hm]
  rfl

/-- An iteration of the loop of `sys_read`. -/
lemma readIter_cases {b : Board} {s : Sys ProcMachine} {c : Pid} {buf len n : Word}
    {got : List Byte} (hctl : s.ctl = .readLoop buf len n got) (hwf : s.kern.rx.Wf)
    (hr : ReadArgs buf len n got) :
    (∃ s', readIter procArch s.kern s.arch c buf len n got = .point s' ∧ Quiet s c .kernel s') ∨
      ∃ act site k a m, Call b s c .kernel act site k a m ∧
        readIter procArch s.kern s.arch c buf len n got = .schedule k a site := by
  by_cases hn : n < len
  · rcases hring : s.kern.rx.contents with _ | ⟨ch, rest⟩
    · -- the ring is empty
      right
      have hpop : s.kern.rx.uartRxPop = (-1, s.kern.rx) := RxRing.pop_of_empty hring
      by_cases h0 : n = 0#32
      · refine ⟨_, _, _, _, _, Call.block hctl hn hring h0, ?_⟩
        subst h0
        simp only [readIter, hn, hpop, if_true]
        rfl
      · refine ⟨_, _, _, _, _, Call.readReturn hctl (Or.inr ⟨hring, h0⟩), ?_⟩
        have hpos : 0#32 < n := by
          rw [BitVec.lt_def]
          have : n.toNat ≠ 0 := fun h => h0 (BitVec.eq_of_toNat_eq h)
          show 0 < n.toNat
          omega
        simp only [readIter, hn, hpop, hpos, if_true]
        rfl
    · -- a byte is there, and the address is in the window
      left
      obtain ⟨hval, -, -⟩ := RxRing.pop_of_contents_cons hwf hring
      have hw : inWindow (buf + n) = true := inWindow_of_valid hr.valid hn
      have hst : procArch.kstore s.arch c (buf + n) ch = some (s.arch.setByte c (buf + n) ch) := by
        simp [procArch, hw]
      have hch : BitVec.ofInt 8 (ch.toNat : ℤ) = ch := by
        rw [BitVec.ofInt_natCast]
        simp
      refine ⟨_, ?_, Quiet.pop hctl hn hring⟩
      have hneg : ¬ (ch.toNat : ℤ) < 0 := by omega
      simp only [readIter, hn, hneg, if_true, if_false, hval, hch, hst]
  · right
    refine ⟨_, _, _, _, _, Call.readReturn hctl (Or.inl hn), ?_⟩
    simp only [readIter, hn, if_false]
    rfl

/-- **What a handler can do.**  The hypotheses are part of the system's invariant. -/
theorem handle_cases {b : Board} {s : Sys ProcMachine} {c : Pid} {e : Event}
    {x : Reached ProcMachine} (hc : s.kern.current = some c) (hwf : s.kern.rx.Wf)
    (hm : (s.arch.regs c).cpsr &&& privBits = 0x10#32)
    (hr : ∀ buf len n got, s.ctl = .readLoop buf len n got → ReadArgs buf len n got)
    (h : handle procArch b s c e = some x) :
    (∃ s', x = .point s' ∧ Quiet s c e s') ∨
      ∃ act site k a m, Call b s c e act site k a m ∧ x = .schedule k a site := by
  rcases hctl : s.ctl with _ | ⟨buf, len, n, got⟩ | ⟨buf, len, n, got⟩ | _ | _
  case user =>
    cases e with
    | exec f =>
      left
      by_cases hpriv : (f (s.arch.regs c)).cpsr &&& privBits = (s.arch.regs c).cpsr &&& privBits
      · obtain rfl : _ = x := by simpa [handle, hctl, procArch, hpriv] using h
        exact ⟨_, rfl, Quiet.exec f hctl hpriv⟩
      · simp [handle, hctl, procArch, hpriv] at h
    | load va rd =>
      left
      by_cases hw : inWindow va = true
      · obtain rfl : _ = x := by simpa [handle, hctl, procArch, hw] using h
        exact ⟨_, rfl, Quiet.load va rd hctl hw⟩
      · simp [handle, hctl, procArch, hw] at h
    | store va ch =>
      left
      by_cases hw : inWindow va = true
      · obtain rfl : _ = x := by simpa [handle, hctl, procArch, hw] using h
        exact ⟨_, rfl, Quiet.store va ch hctl hw⟩
      · simp [handle, hctl, procArch, hw] at h
    | irq ack rx =>
      right
      simp only [handle, hctl, Option.some.injEq] at h
      exact ⟨_, _, _, _, _, Call.irq ack rx hctl, h.symm⟩
    | svc =>
      simp only [handle, hctl, Option.some.injEq] at h
      have hregs := ctx_r_enter_svc s.arch c
      rcases handleSvc_cases (a := s.arch.enter c .svc) hc with
        ⟨-, hnum, hlen, hv, heq⟩ | ⟨act, k, a, v, hact, hdone, heq⟩
      · left
        rw [hregs] at hnum hlen hv heq
        exact ⟨_, h.symm.trans heq, Quiet.startRead hctl hnum hlen hv⟩
      · right
        rw [hregs] at hact
        exact ⟨_, _, _, _, _, Call.svc v hctl hact hdone, h.symm.trans heq⟩
    | fault kind far fsr =>
      right
      simp only [handle, hctl, Option.some.injEq] at h
      have hent : procArch.enter s.arch c kind.exn = s.arch := by cases kind <;> rfl
      have hf : faultFromUser (procArch.ctx s.arch c kind.exn) = true := faultFromUser_proc kind hm
      rw [hent, handleFault] at h
      simp only [hf, if_true] at h
      exact ⟨_, _, _, _, _, Call.fault kind far fsr hctl, h.symm⟩
    | kernel => simp [handle, hctl] at h
  case readLoop =>
    cases e with
    | kernel =>
      simp only [handle, hctl, Option.some.injEq] at h
      subst h
      exact readIter_cases hctl hwf (hr buf len n got hctl)
    | _ => simp [handle, hctl] at h
  case blockRet =>
    cases e with
    | kernel =>
      simp only [handle, hctl, Option.some.injEq] at h
      subst h
      exact Or.inl ⟨_, rfl, Quiet.retry hctl⟩
    | _ => simp [handle, hctl] at h
  case halted => cases e <;> simp [handle, hctl] at h
  case wild => cases e <;> simp [handle, hctl] at h

lemma step_eq_some {σ : Type} {A : Arch σ} {b : Board} {s s' : Sys σ} {c : Pid} {e : Event}
    (hc : s.kern.current = some c) :
    step A b s e = some s' ↔ ∃ x, handle A b s c e = some x ∧ finish A c x = s' := by
  simp [step, hc]

/-- **What a step can do.** -/
theorem step_cases {b : Board} {s s' : Sys ProcMachine} {c : Pid} {e : Event}
    (hc : s.kern.current = some c) (hwf : s.kern.rx.Wf)
    (hm : (s.arch.regs c).cpsr &&& privBits = 0x10#32)
    (hr : ∀ buf len n got, s.ctl = .readLoop buf len n got → ReadArgs buf len n got)
    (h : step procArch b s e = some s') :
    Quiet s c e s' ∨
      ∃ act site k a m, Call b s c e act site k a m ∧ s' = callSchedule procArch k a c site := by
  obtain ⟨x, hx, rfl⟩ := (step_eq_some hc).1 h
  rcases handle_cases hc hwf hm hr hx with ⟨s', rfl, hq⟩ | ⟨act, site, k, a, m, hcall, rfl⟩
  · exact Or.inl hq
  · exact Or.inr ⟨act, site, k, a, m, hcall, rfl⟩

end RingNova
