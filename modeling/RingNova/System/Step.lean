/-
# The system's step function

The C control flow of the kernel, from every exception vector to the return to USR mode,
written once over an interface `Arch σ` of what the assembly and the MMU do: entering and
leaving the kernel, the saved exception frame, accesses to user memory, and
`context_switch`.  Two machines implement the interface: one where every process simply
has its own registers and memory (`RingNova.System.Process`), and the ARM machine
(`RingNova.Arm.Machine`).

The kernel runs with interrupts masked, so between two user instructions it is
sequential.  It gives up the CPU only in `schedule`, which is called at the tail of
`handle_irq`, at the tail of `handle_svc`, in `scheduler_block_on_input` (inside the loop of
`sys_read`) and in `user_fault_kill`; `Cont` lists these call sites, with the locals that are
alive there.  The loop of `sys_read` is the only unbounded one, so its iterations are steps
of their own and the states in between are the control points `Ctl.readLoop` and
`Ctl.blockRet`.
-/
import RingNova.Kernel.Syscall

namespace RingNova

/-! ### Interface to the machine -/

/-- There are 13 general registers. -/
instance neZero_gprs : NeZero 13 := ⟨by decide⟩

/-- The registers a user program sees. -/
@[ext] structure UserRegs where
  /-- `r0` to `r12`. -/
  r : Fin 13 → Word
  sp : Word
  lr : Word
  pc : Word
  cpsr : Word

/-- The exceptions that are taken from USR mode. -/
inductive Exn
  | irq
  | svc
  | dataAbort
  | prefetchAbort
  | undefined
deriving DecidableEq, Repr

/-- `exception_context_t`: the frame that the C handlers see. -/
structure ExceptionContext where
  spsr : Word
  r : Fin 13 → Word
  /-- The adjusted return address. -/
  lr : Word

/-- Where a suspended process continues when `context_switch` returns on its stack. -/
inductive Cont
  /-- `ret_from_first_entry`. -/
  | firstEntry
  /-- The tail of `handle_irq`. -/
  | irqTail
  /-- The tail of `handle_svc`. -/
  | svcTail
  /-- `scheduler_block_on_input` in `sys_read`, with the locals of `sys_read`; `got` is a
  history variable, the bytes stored so far. -/
  | blockOnInput (buf len n : Word) (got : List Byte)
  /-- `user_fault_kill`. -/
  | faultTail
deriving DecidableEq

/-- The three code paths that return to USR mode. -/
inductive Exit
  /-- `ret_from_first_entry`. -/
  | first
  /-- The second half of `exception_entry_irq`. -/
  | irq
  /-- The second half of `exception_entry_svc`. -/
  | svc
deriving DecidableEq, Repr

/-- What the C code needs from the machine; the process is the current one. -/
structure Arch (σ : Type) where
  /-- User instructions that only compute. -/
  exec : σ → Pid → (UserRegs → UserRegs) → Option σ
  /-- A user load of the byte at an address into a register. -/
  uload : σ → Pid → Word → Fin 13 → Option σ
  /-- A user store of a byte. -/
  ustore : σ → Pid → Word → Byte → Option σ
  /-- The exception entry, up to the call of the C handler. -/
  enter : σ → Pid → Exn → σ
  /-- The frame the handler is given. -/
  ctx : σ → Pid → Exn → ExceptionContext
  /-- `ctx->r[0] = ret`. -/
  setRet : σ → Pid → Word → σ
  /-- A load of the kernel through a user pointer; `none` is a data abort. -/
  kload : σ → Pid → Word → Option Byte
  /-- A store of the kernel through a user pointer; `none` is a data abort. -/
  kstore : σ → Pid → Word → Byte → Option σ
  /-- The return to USR mode. -/
  leave : σ → Pid → Exit → σ
  /-- `context_switch(prev, next)`, called from a site, up to the point where control is
  back in C code, or at `ret_from_first_entry`: the site to continue at. -/
  switch : Kernel numProcesses → σ → Pid → Pid → Cont → Option (σ × Cont)

/-! ### The system -/

/-- Where the CPU is. -/
inductive Ctl
  /-- In USR mode. -/
  | user
  /-- At the test of the loop of `sys_read`. -/
  | readLoop (buf len n : Word) (got : List Byte)
  /-- `scheduler_block_on_input` has just returned to `sys_read`. -/
  | blockRet (buf len n : Word) (got : List Byte)
  /-- In the endless loop of `halt_forever`. -/
  | halted
  /-- Control has left the code. -/
  | wild
deriving DecidableEq

/-- A state of the system over a machine with states `σ`. -/
structure Sys (σ : Type) where
  kern : Kernel numProcesses
  arch : σ
  ctl : Ctl

/-- The three kinds of user faults. -/
inductive FaultKind
  | dataAbort
  | prefetchAbort
  | undefined
deriving DecidableEq, Repr

/-- The title of the panic message of a fault taken inside the kernel. -/
def FaultKind.panicTitle : FaultKind → String
  | dataAbort => "\n[PANIC] *** DATA ABORT (kernel) ***\n"
  | prefetchAbort => "\n[PANIC] *** PREFETCH ABORT (kernel) ***\n"
  | undefined => "\n[PANIC] *** UNDEFINED INSTRUCTION (kernel) ***\n"

/-- The exception of a fault. -/
def FaultKind.exn : FaultKind → Exn
  | dataAbort => .dataAbort
  | prefetchAbort => .prefetchAbort
  | undefined => .undefined

/-- What happens next.  In USR mode the user program or the outside world decides; inside
the kernel there is only `kernel`. -/
inductive Event
  /-- The user program computes. -/
  | exec (f : UserRegs → UserRegs)
  /-- The user program loads a byte. -/
  | load (va : Word) (rd : Fin 13)
  /-- The user program stores a byte. -/
  | store (va : Word) (c : Byte)
  /-- An interrupt, with what the controller and the UART deliver. -/
  | irq (ack : Word) (rx : List Byte)
  /-- The user program executes `svc`. -/
  | svc
  /-- The user program faults; the fault address and status registers. -/
  | fault (kind : FaultKind) (far fsr : Word)
  /-- The kernel goes on. -/
  | kernel

/-- How far a handler gets by itself: to a control point, or to a call of `schedule` from
one of the sites. -/
inductive Reached (σ : Type)
  | point (s : Sys σ)
  | schedule (k : Kernel numProcesses) (a : σ) (site : Cont)

section

variable {σ : Type} (A : Arch σ)

/-! ### Handlers up to their call of `schedule` -/

/-- The end of `syscall_dispatch`, up to the call of `schedule` at the tail of
`handle_svc`. -/
def svcReturn (k : Kernel numProcesses) (a : σ) (c : Pid) (ret : Word) : Reached σ :=
  .schedule (k.emit [.sysret c ret]) (A.setRet a c ret) .svcTail

/-- The panic of a fault handler for a fault that was not taken from USR mode, without
its register dump. -/
def kernelPanic (k : Kernel numProcesses) (a : σ) (kind : FaultKind) : Reached σ :=
  .point ⟨(k.printf kind.panicTitle []).haltForever, a, .halted⟩

/-- The loop of `sys_write`; `false` if a load aborts. -/
def writeLoop (a : σ) (c : Pid) :
    ℕ → Word → Kernel numProcesses → Kernel numProcesses × Bool
  | 0, _, k => (k, true)
  | n + 1, addr, k =>
    match A.kload a c addr with
    | some ch => writeLoop a c n (addr + 1#32) (k.print (uartPutc ch))
    | none => (k, false)

/-- Storing bytes one after the other; `false` if a store aborts. -/
def storeLoop (c : Pid) : List Byte → Word → σ → σ × Bool
  | [], _, a => (a, true)
  | ch :: bs, addr, a =>
    match A.kstore a c addr ch with
    | some a' => storeLoop c bs (addr + 1#32) a'
    | none => (a, false)

/-- `sys_write`. -/
def sysWrite (k : Kernel numProcesses) (a : σ) (c : Pid) (buf len : Word) : Reached σ :=
  if validUserPtr buf len then
    match writeLoop A a c len.toNat buf k with
    | (k', true) => svcReturn A k' a c len
    | (k', false) => kernelPanic k' a .dataAbort
  else svcReturn A k a c eFault

/-- `sys_ps`. -/
def sysPs (k : Kernel numProcesses) (a : σ) (c : Pid) (buf size : Word) : Reached σ :=
  if validUserPtr buf size then
    match storeLoop A c (k.sysPsBytes size) buf a with
    | (a', true) => svcReturn A k a' c (BitVec.ofNat 32 (k.sysPsBytes size).length)
    | (a', false) => kernelPanic k a' .dataAbort
  else svcReturn A k a c eFault

/-- `sys_read` up to its loop. -/
def sysRead (k : Kernel numProcesses) (a : σ) (c : Pid) (buf len : Word) : Reached σ :=
  if len = 0#32 then svcReturn A k a c 0#32
  else if validUserPtr buf len then .point ⟨k, a, .readLoop buf len 0#32 []⟩
  else svcReturn A k a c eFault

/-- The return of `sys_read` from its loop. -/
def readReturn (k : Kernel numProcesses) (a : σ) (c : Pid) (n : Word) (got : List Byte) :
    Reached σ :=
  svcReturn A (k.emit [.readDone c got]) a c n

/-- One iteration of the loop of `sys_read`. -/
def readIter (k : Kernel numProcesses) (a : σ) (c : Pid) (buf len n : Word)
    (got : List Byte) : Reached σ :=
  if n < len then
    match k.rx.uartRxPop with
    | (ch, rx) =>
      if ch < 0 then
        if 0#32 < n then readReturn A k a c n got
        else .schedule k.blockCurrent a (.blockOnInput buf len n got)
      else
        match A.kstore a c (buf + n) (BitVec.ofInt 8 ch) with
        | some a' =>
          .point ⟨{ k with rx := rx }, a',
            .readLoop buf len (n + 1#32) (got ++ [BitVec.ofInt 8 ch])⟩
        | none => kernelPanic { k with rx := rx } a .dataAbort
  else readReturn A k a c n got

/-- `syscall_dispatch`. -/
def handleSvc (k : Kernel numProcesses) (a : σ) (c : Pid) : Reached σ :=
  let r := (A.ctx a c .svc).r
  match Syscall.ofNum (r 7) with
  | none => svcReturn A k a c eBadcall
  | some .write => sysWrite A k a c (r 1) (r 2)
  | some .getpid => svcReturn A k a c k.sysGetpid
  | some .yield => svcReturn A k.sysYield.1 a c k.sysYield.2
  | some .exit => svcReturn A k.sysExit.1 a c k.sysExit.2
  | some .read => sysRead A k a c (r 1) (r 2)
  | some .ps => sysPs A k a c (r 0) (r 1)
  | some .kill => svcReturn A (k.sysKill (r 0)).1 a c (k.sysKill (r 0)).2
  | some .ticks => svcReturn A k a c k.sysTicks

/-- `handle_irq`. -/
def handleIrq (b : Board) (k : Kernel numProcesses) (a : σ) (ack : Word)
    (rx : List Byte) : Reached σ :=
  .schedule (k.irqDispatch b ack rx) a .irqTail

/-- The first message of a fault handler. -/
def faultReport (k : Kernel numProcesses) (ctx : ExceptionContext) (far fsr : Word) :
    FaultKind → Kernel numProcesses
  | .dataAbort => k.printf "[FAULT] data abort  DFAR=0x%08x DFSR=0x%08x PC=0x%08x\n"
      [.num far, .num fsr, .num ctx.lr]
  | .prefetchAbort => k.printf "[FAULT] prefetch abort  IFAR=0x%08x IFSR=0x%08x\n"
      [.num far, .num fsr]
  | .undefined => k.printf "[FAULT] undefined instr at PC=0x%08x\n" [.num ctx.lr]

/-- The name a fault handler passes to `user_fault_kill`. -/
def FaultKind.kindName : FaultKind → String
  | dataAbort => "data abort"
  | prefetchAbort => "prefetch abort"
  | undefined => "undefined instruction"

/-- `fault_from_user`. -/
def faultFromUser (ctx : ExceptionContext) : Bool := ctx.spsr &&& 0x1F#32 = 0x10#32

/-- `handle_data_abort`, `handle_prefetch_abort` and `handle_undefined`. -/
def handleFault (k : Kernel numProcesses) (a : σ) (c : Pid) (kind : FaultKind)
    (far fsr : Word) : Reached σ :=
  let ctx := A.ctx a c kind.exn
  if faultFromUser ctx then
    .schedule ((faultReport k ctx far fsr kind).userFaultKill kind.kindName) a .faultTail
  else kernelPanic k a kind

/-- What happens up to a control point or a call of `schedule`, with `c` the current
process. -/
def handle (b : Board) (s : Sys σ) (c : Pid) (e : Event) : Option (Reached σ) :=
  match s.ctl, e with
  | .user, .exec f => (A.exec s.arch c f).map fun a => .point ⟨s.kern, a, .user⟩
  | .user, .load va rd => (A.uload s.arch c va rd).map fun a => .point ⟨s.kern, a, .user⟩
  | .user, .store va ch => (A.ustore s.arch c va ch).map fun a => .point ⟨s.kern, a, .user⟩
  | .user, .irq ack rx => some (handleIrq b s.kern (A.enter s.arch c .irq) ack rx)
  | .user, .svc => some (handleSvc A s.kern (A.enter s.arch c .svc) c)
  | .user, .fault kind far fsr =>
    some (handleFault A s.kern (A.enter s.arch c kind.exn) c kind far fsr)
  | .readLoop buf len n got, .kernel => some (readIter A s.kern s.arch c buf len n got)
  | .blockRet buf len n got, .kernel => some (.point ⟨s.kern, s.arch, .readLoop buf len n got⟩)
  | _, _ => none

/-! ### Calls of `schedule` -/

/-- Control is back at a call site of `schedule`, on the stack of process `c`. -/
def resume (k : Kernel numProcesses) (a : σ) (c : Pid) : Cont → Sys σ
  | .firstEntry => ⟨k, A.leave a c .first, .user⟩
  | .irqTail => ⟨k, A.leave a c .irq, .user⟩
  | .svcTail => ⟨k, A.leave a c .svc, .user⟩
  | .blockOnInput buf len n got => ⟨k, a, .blockRet buf len n got⟩
  | .faultTail =>
    ⟨(k.printf "[PANIC] no runnable process left after user fault\n" []).haltForever, a,
      .halted⟩

/-- A call of `schedule` from a site, on the stack of process `c`. -/
def callSchedule (k : Kernel numProcesses) (a : σ) (c : Pid) (site : Cont) : Sys σ :=
  match k.schedule with
  | (k', none) => resume A k' a c site
  | (k', some (prev, next)) =>
    match A.switch k' a prev next site with
    | some (a', cont) => resume A k' a' next cont
    | none => ⟨k', a, .wild⟩

/-- The rest of a step. -/
def finish (c : Pid) : Reached σ → Sys σ
  | .point s => s
  | .schedule k a site => callSchedule A k a c site

/-- One step of the system. -/
def step (b : Board) (s : Sys σ) (e : Event) : Option (Sys σ) :=
  match s.kern.current with
  | none => none
  | some c => (handle A b s c e).map (finish A c)

end

end RingNova
