/-
# The receive interrupt of the PL011

`pl011_rx_irq` (`kernel/drivers/uart/pl011.c`), one register access at a time, against a
device that goes on receiving.  The device appends an arriving byte to its FIFO and latches
the receive flag; the handler drains the FIFO until it sees it empty, then clears the latched
flags, then wakes the reader.

On the globals a run of the handler is `Kernel.uartRxIrq` with the bytes that it has read
(`pl011_rx_irq_refines`), so what `RingNova.Kernel.Irq` takes as one step is one. On the
device it is not: what is in the FIFO afterwards came after the handler had seen it empty,
and only what came after the write to `PL011_ICR` has an interrupt pending (`rx_run_dev`).
-/
import RingNova.Kernel.Irq
import RingNova.Kernel.Process
import RingNova.Lib.Trace

namespace RingNova

open Trace

/-! ### The device -/

/-- `PL011_FR_RXFE`. -/
def pl011FrRxfe : Word := 1#32 <<< 4

/-- `PL011_INT_RX`. -/
def pl011IntRx : Word := 1#32 <<< 4

/-- `PL011_INT_RT`. -/
def pl011IntRt : Word := 1#32 <<< 6

/-- The receive side of the device. -/
structure Pl011 where
  /-- The receive FIFO, oldest byte first. -/
  rxFifo : List Byte
  /-- The latched interrupt flags. -/
  ris : Word

namespace Pl011

/-- A byte arrives. -/
def arrive (d : Pl011) (c : Byte) : Pl011 := ⟨d.rxFifo ++ [c], d.ris ||| pl011IntRx⟩

/-- A read of `PL011_FR`; of its flags only `PL011_FR_RXFE` is modelled. -/
def readFr (d : Pl011) : Word := if d.rxFifo = [] then pl011FrRxfe else 0#32

/-- A read of `PL011_DR` takes the oldest byte from the FIFO. -/
def readDr (d : Pl011) : Word × Pl011 :=
  match d.rxFifo with
  | [] => (0#32, d)
  | c :: cs => (c.setWidth 32, { d with rxFifo := cs })

/-- A write to `PL011_ICR` clears latched flags, whatever the FIFO holds. -/
def writeIcr (d : Pl011) (v : Word) : Pl011 := { d with ris := d.ris &&& ~~~v }

/-- An interrupt is pending: a flag is latched that `pl011_init` has enabled in
`PL011_IMSC`. -/
def pending (d : Pl011) : Bool := d.ris &&& (pl011IntRx ||| pl011IntRt) ≠ 0#32

@[simp] lemma rxFifo_arrive (d : Pl011) (c : Byte) : (d.arrive c).rxFifo = d.rxFifo ++ [c] := rfl

@[simp] lemma rxFifo_writeIcr (d : Pl011) (v : Word) : (d.writeIcr v).rxFifo = d.rxFifo := rfl

@[simp] lemma pending_arrive (d : Pl011) (c : Byte) : (d.arrive c).pending = true := by
  rw [pending, decide_eq_true_iff]
  intro h0
  have hbit := congrArg (fun w => w.getLsbD 4) h0
  simp [arrive, pl011IntRx, pl011IntRt] at hbit

lemma readFr_and_rxfe (d : Pl011) : d.readFr &&& pl011FrRxfe = 0#32 ↔ d.rxFifo ≠ [] := by
  by_cases h : d.rxFifo = []
  · rw [readFr, if_pos h]
    simp [h, pl011FrRxfe]
  · rw [readFr, if_neg h]
    simp [h]

@[simp] lemma pending_writeIcr (d : Pl011) :
    (d.writeIcr (pl011IntRx ||| pl011IntRt)).pending = false := by
  simp [pending, writeIcr, BitVec.and_assoc]

end Pl011

/-! ### The handler against the device -/

/-- Where `pl011_rx_irq` is: before a register access or a call. -/
inductive RxPc
  /-- The test of the loop. -/
  | readFr
  /-- The loop's body, and its call of `uart_rx_push`. -/
  | readDr
  | push (c : Byte)
  /-- After the loop. -/
  | writeIcr
  | wakeReader
  | done
deriving DecidableEq

/-- The device, the globals and the handler. -/
structure RxRun (N : ℕ) where
  dev : Pl011
  kern : Kernel N
  pc : RxPc

/-- What can happen next. -/
inductive RxEvent
  | arrive (c : Byte)
  | handler

variable {N : ℕ}

/-- The next access or call of `pl011_rx_irq`. -/
def pl011RxIrq (s : RxRun N) : Option (RxRun N) :=
  match s.pc with
  | .readFr =>
    some { s with pc := if s.dev.readFr &&& pl011FrRxfe = 0#32 then .readDr else .writeIcr }
  | .readDr =>
    some { s with dev := s.dev.readDr.2, pc := .push ((s.dev.readDr.1 &&& 0xFF#32).setWidth 8) }
  | .push c => some { s with kern := s.kern.uartRxPush c, pc := .readFr }
  | .writeIcr =>
    some { s with dev := s.dev.writeIcr (pl011IntRx ||| pl011IntRt), pc := .wakeReader }
  | .wakeReader => some { s with kern := s.kern.schedulerWakeReader, pc := .done }
  | .done => none

/-- One step. -/
def rxStep (s : RxRun N) : RxEvent → Option (RxRun N)
  | .arrive c => some { s with dev := s.dev.arrive c }
  | .handler => pl011RxIrq s

/-- The byte that arrives in a step, if the handler is at one of these places. -/
def arrivesAt (P : RxPc → Bool) (s : RxRun N) : RxEvent → List Byte
  | .arrive c => if P s.pc then [c] else []
  | .handler => []

/-- The byte that the handler passes to `uart_rx_push` in a step. -/
def pushes (s : RxRun N) : RxEvent → List Byte
  | .arrive _ => []
  | .handler => match s.pc with
    | .push c => [c]
    | _ => []

/-- In the loop. -/
def RxPc.draining : RxPc → Bool
  | readFr | readDr | push _ => true
  | _ => false

/-- Between the read of `PL011_FR` that finds the FIFO empty and the write to `PL011_ICR`. -/
def RxPc.beforeClear (pc : RxPc) : Bool := pc = .writeIcr

/-- After the write to `PL011_ICR`. -/
def RxPc.afterClear (pc : RxPc) : Bool := pc = .wakeReader || pc = .done

/-! ### What a run of the handler does -/

section Run

variable {s t : RxRun N} {es : List RxEvent}

/-- The bytes that arrive while the handler is at one of some places. -/
abbrev arrivals (P : RxPc → Bool) (s : RxRun N) (es : List RxEvent) : List Byte :=
  yields rxStep (arrivesAt P) s es

lemma arrivals_handler (P : RxPc → Bool) {s' : RxRun N} (hs : rxStep s .handler = some s')
    (es : List RxEvent) : arrivals P s (.handler :: es) = arrivals P s' es :=
  (yields_cons hs es).trans (List.nil_append _)

lemma arrivals_arrive (P : RxPc → Bool) (s : RxRun N) (c : Byte) (es : List RxEvent) :
    arrivals P s (.arrive c :: es) =
      (if P s.pc then [c] else []) ++ arrivals P { s with dev := s.dev.arrive c } es :=
  yields_cons rfl es

/-- After the flags have been cleared, only arrivals latch them again. -/
lemma run_afterClear (h : s.pc.afterClear = true) (hrun : run rxStep s es = some t) :
    t.dev.rxFifo = s.dev.rxFifo ++ arrivals RxPc.afterClear s es ∧
      arrivals RxPc.beforeClear s es = [] ∧
      (t.dev.pending = true ↔
        s.dev.pending = true ∨ arrivals RxPc.afterClear s es ≠ []) := by
  induction es generalizing s with
  | nil =>
    obtain rfl : s = t := by simpa using hrun
    simp [yields]
  | cons e es ih =>
    obtain ⟨s', hs, hrest⟩ := run_cons_some.1 hrun
    cases e with
    | arrive c =>
      obtain rfl : _ = s' := Option.some.inj hs
      obtain ⟨h1, h2, h3⟩ := ih (s := { s with dev := s.dev.arrive c }) h hrest
      have hbefore : s.pc.beforeClear = false := by
        rcases hpc : s.pc <;> simp_all [RxPc.afterClear, RxPc.beforeClear]
      rw [arrivals_arrive, arrivals_arrive, h, hbefore]
      refine ⟨?_, h2, ?_⟩
      · rw [h1]
        simp
      · rw [h3]
        simp
    | handler =>
      rw [arrivals_handler _ hs, arrivals_handler _ hs]
      have hs : pl011RxIrq s = some s' := hs
      rcases hpc : s.pc with _ | _ | c | _ | _ | _ <;>
        simp [pl011RxIrq, hpc, RxPc.afterClear] at hs h
      subst hs
      exact ih (s := { s with kern := s.kern.schedulerWakeReader, pc := .done }) rfl hrest

/-- Bytes that arrive before the flags are cleared stay, and their flag is cleared. -/
lemma run_beforeClear (h : s.pc = .writeIcr) (hrun : run rxStep s es = some t)
    (ht : t.pc.afterClear = true) :
    t.dev.rxFifo = s.dev.rxFifo ++ arrivals RxPc.beforeClear s es ++
        arrivals RxPc.afterClear s es ∧
      (t.dev.pending = true ↔ arrivals RxPc.afterClear s es ≠ []) := by
  induction es generalizing s with
  | nil =>
    obtain rfl : s = t := by simpa using hrun
    rw [h] at ht
    exact absurd ht (by decide)
  | cons e es ih =>
    obtain ⟨s', hs, hrest⟩ := run_cons_some.1 hrun
    cases e with
    | arrive c =>
      obtain rfl : _ = s' := Option.some.inj hs
      obtain ⟨h1, h2⟩ := ih (s := { s with dev := s.dev.arrive c }) h hrest
      have hat : s.pc.beforeClear = true ∧ s.pc.afterClear = false := by
        rw [h]
        decide
      rw [arrivals_arrive, arrivals_arrive, hat.1, hat.2, h1, h2]
      simp
    | handler =>
      rw [arrivals_handler _ hs, arrivals_handler _ hs]
      have hs : pl011RxIrq s = some s' := hs
      -- the write clears the flag of every byte that has arrived so far
      obtain rfl : _ = s' := by simpa [pl011RxIrq, h] using hs
      obtain ⟨h1, h2, h3⟩ := run_afterClear rfl hrest
      rw [h1, h2, h3]
      simp

/-- **What a run of the handler leaves on the device**: the bytes that arrived after it had
seen the FIFO empty; and an interrupt for those that arrived after it had cleared the
flags. -/
theorem rx_run_dev (h : s.pc.draining = true) (hrun : run rxStep s es = some t)
    (ht : t.pc.afterClear = true) :
    t.dev.rxFifo = arrivals RxPc.beforeClear s es ++ arrivals RxPc.afterClear s es ∧
      (t.dev.pending = true ↔ arrivals RxPc.afterClear s es ≠ []) := by
  -- by induction on the run; the invariant is that the handler is in its loop
  induction es generalizing s with
  | nil =>
    obtain rfl : s = t := by simpa using hrun
    rcases hpc : s.pc <;> simp_all [RxPc.draining, RxPc.afterClear]
  | cons e es ih =>
    obtain ⟨s', hs, hrest⟩ := run_cons_some.1 hrun
    cases e with
    | arrive c =>
      obtain rfl : _ = s' := Option.some.inj hs
      have hat : s.pc.beforeClear = false ∧ s.pc.afterClear = false := by
        rcases hpc : s.pc <;> simp_all [RxPc.draining, RxPc.afterClear, RxPc.beforeClear]
      rw [arrivals_arrive, arrivals_arrive, hat.1, hat.2]
      exact ih (s := { s with dev := s.dev.arrive c }) h hrest
    | handler =>
      rw [arrivals_handler _ hs, arrivals_handler _ hs]
      have hs : pl011RxIrq s = some s' := hs
      rcases hpc : s.pc with _ | _ | c | _ | _ | _
      case readFr =>
        simp only [pl011RxIrq, hpc, Option.some.injEq, Pl011.readFr_and_rxfe] at hs
        subst hs
        by_cases hempty : s.dev.rxFifo = []
        · -- the loop ends, with nothing in the FIFO
          have hdev := run_beforeClear (by simp [hempty]) hrest ht
          simpa [hempty] using hdev
        · exact ih (by simp [hempty, RxPc.draining]) hrest
      case readDr =>
        obtain rfl : _ = s' := by simpa [pl011RxIrq, hpc] using hs
        exact ih rfl hrest
      case push =>
        obtain rfl : _ = s' := by simpa [pl011RxIrq, hpc] using hs
        exact ih rfl hrest
      all_goals
        rw [hpc] at h
        exact absurd h (by decide)

/-! ### The handler as one step on the globals -/

/-- The bytes that the handler passes to `uart_rx_push`. -/
abbrev pushed (s : RxRun N) (es : List RxEvent) : List Byte := yields rxStep pushes s es

lemma pushed_arrive (s : RxRun N) (c : Byte) (es : List RxEvent) :
    pushed s (.arrive c :: es) = pushed { s with dev := s.dev.arrive c } es :=
  (yields_cons rfl es).trans (List.nil_append _)

lemma pushed_handler {s' : RxRun N} (hs : rxStep s .handler = some s') (es : List RxEvent) :
    pushed s (.handler :: es) = pushes s .handler ++ pushed s' es :=
  yields_cons hs es

/-- Nothing but arrivals happens once the handler is done. -/
lemma run_done (h : s.pc = .done) (hrun : run rxStep s es = some t) :
    t.kern = s.kern ∧ pushed s es = [] := by
  induction es generalizing s with
  | nil =>
    obtain rfl : s = t := by simpa using hrun
    exact ⟨rfl, rfl⟩
  | cons e es ih =>
    obtain ⟨s', hs, hrest⟩ := run_cons_some.1 hrun
    cases e with
    | arrive c =>
      obtain rfl : _ = s' := Option.some.inj hs
      rw [pushed_arrive]
      exact ih (s := { s with dev := s.dev.arrive c }) h hrest
    | handler =>
      have hs : pl011RxIrq s = some s' := hs
      simp [pl011RxIrq, h] at hs

/-- **On the globals a run of the handler is `Kernel.uartRxIrq`** with the bytes it has
read. -/
theorem rx_run_kern (h : s.pc ≠ .done) (hrun : run rxStep s es = some t) (ht : t.pc = .done) :
    t.kern = s.kern.uartRxIrq (pushed s es) := by
  induction es generalizing s with
  | nil =>
    obtain rfl : s = t := by simpa using hrun
    exact absurd ht h
  | cons e es ih =>
    obtain ⟨s', hs, hrest⟩ := run_cons_some.1 hrun
    cases e with
    | arrive c =>
      obtain rfl : _ = s' := Option.some.inj hs
      rw [pushed_arrive]
      exact ih (s := { s with dev := s.dev.arrive c }) h hrest
    | handler =>
      rw [pushed_handler hs]
      have hs : pl011RxIrq s = some s' := hs
      rcases hpc : s.pc with _ | _ | c | _ | _ | _
      case readFr =>
        -- both branches leave the globals alone
        simp only [pl011RxIrq, hpc, Option.some.injEq] at hs
        subst hs
        refine (ih ?_ hrest).trans (by simp [pushes, hpc])
        split <;> simp
      case done => exact absurd hpc h
      case wakeReader =>
        obtain rfl : _ = s' := by simpa [pl011RxIrq, hpc] using hs
        obtain ⟨hkern, hnil⟩ := run_done rfl hrest
        rw [hkern, hnil]
        simp [pushes, hpc, Kernel.uartRxIrq]
      all_goals
        obtain rfl : _ = s' := by simpa [pl011RxIrq, hpc] using hs
        refine (ih (by simp) hrest).trans ?_
        simp [pushes, hpc, Kernel.uartRxIrq]

/-- The byte that has left the FIFO and has not reached the ring. -/
def RxPc.held : RxPc → List Byte
  | push c => [c]
  | _ => []

/-- `PL011_DR` is read only if there is something to read. -/
def RxRun.Ready (s : RxRun N) : Prop := s.pc = .readDr → s.dev.rxFifo ≠ []

lemma setWidth_and_ff (c : Byte) : (c.setWidth 32 &&& 0xFF#32).setWidth 8 = c := by
  ext i hi
  simp only [BitVec.getElem_setWidth, BitVec.getLsbD_and, BitVec.getLsbD_setWidth]
  have h255 : (255#32).getLsbD i = true := by
    interval_cases i <;> rfl
  simp [h255, BitVec.getLsbD_eq_getElem hi]
  omega

/-- A step of the handler moves a byte on, or leaves all where they are. -/
lemma RxRun.Ready.step {s' : RxRun N} (h : s.Ready) (hs : pl011RxIrq s = some s') :
    s'.Ready ∧
      s.pc.held ++ s.dev.rxFifo = pushes s .handler ++ (s'.pc.held ++ s'.dev.rxFifo) := by
  rcases hpc : s.pc with _ | _ | c | _ | _ | _
  case readFr =>
    simp only [pl011RxIrq, hpc, Option.some.injEq, Pl011.readFr_and_rxfe] at hs
    subst hs
    by_cases hempty : s.dev.rxFifo = [] <;> simp [RxRun.Ready, pushes, hpc, hempty, RxPc.held]
  case readDr =>
    obtain ⟨c, cs, hfifo⟩ := List.exists_cons_of_ne_nil (h hpc)
    have hread : s.dev.readDr = (c.setWidth 32, { s.dev with rxFifo := cs }) := by
      simp only [Pl011.readDr, hfifo]
    simp only [pl011RxIrq, hpc, hread, setWidth_and_ff, Option.some.injEq] at hs
    subst hs
    simp [RxRun.Ready, pushes, hpc, RxPc.held, hfifo]
  case done => simp [pl011RxIrq, hpc] at hs
  all_goals
    obtain rfl : _ = s' := by simpa [pl011RxIrq, hpc] using hs
    simp [RxRun.Ready, pushes, hpc, RxPc.held]

/-- **Bytes leave the FIFO in the order of their arrival**, and all of them reach
`uart_rx_push`. -/
theorem rx_run_bytes (h : s.Ready) (hrun : run rxStep s es = some t) :
    s.pc.held ++ s.dev.rxFifo ++ arrivals (fun _ => true) s es =
      pushed s es ++ (t.pc.held ++ t.dev.rxFifo) := by
  induction es generalizing s with
  | nil =>
    obtain rfl : s = t := by simpa using hrun
    simp [yields]
  | cons e es ih =>
    obtain ⟨s', hs, hrest⟩ := run_cons_some.1 hrun
    cases e with
    | arrive c =>
      obtain rfl : _ = s' := Option.some.inj hs
      have hnext := ih (s := { s with dev := s.dev.arrive c }) (fun _ => by simp) hrest
      rw [arrivals_arrive, pushed_arrive, ← hnext]
      simp
    | handler =>
      obtain ⟨hready, hmove⟩ := h.step hs
      rw [arrivals_handler _ hs, pushed_handler hs, hmove, List.append_assoc, ih hready hrest,
        List.append_assoc]

/-- **The handler of the source is the one-step handler.**  However the accesses of
`pl011_rx_irq` and the arrival of bytes interleave, the globals change as `Kernel.uartRxIrq` says
for some bytes; these, and behind them what is left in the FIFO, are the bytes that were in the
FIFO and those that have arrived, in order; and what is left has arrived after the handler had
seen the FIFO empty. -/
theorem pl011_rx_irq_refines (h : s.pc = .readFr) (hrun : run rxStep s es = some t)
    (ht : t.pc = .done) :
    ∃ rx, t.kern = s.kern.uartRxIrq rx ∧
      rx ++ t.dev.rxFifo = s.dev.rxFifo ++ arrivals (fun _ => true) s es ∧
      t.dev.rxFifo = arrivals RxPc.beforeClear s es ++ arrivals RxPc.afterClear s es := by
  have hready : s.Ready := fun hdr => by simp [h] at hdr
  have hbytes := rx_run_bytes hready hrun
  rw [h, ht] at hbytes
  refine ⟨pushed s es, rx_run_kern (by simp [h]) hrun ht, hbytes.symm, ?_⟩
  exact (rx_run_dev (by rw [h]; rfl) hrun (by rw [ht]; rfl)).1

/-! ### Bytes that nobody is told about -/

/-- **When no byte is stranded.**  When the handler is done, a non-empty FIFO has its
interrupt pending exactly if no byte arrived between the read of `PL011_FR` that ended the
loop and the write to `PL011_ICR`, or another one arrived after the write. -/
theorem pl011_pending_iff (h : s.pc = .readFr) (hrun : run rxStep s es = some t)
    (ht : t.pc = .done) :
    (t.dev.rxFifo ≠ [] → t.dev.pending = true) ↔
      arrivals RxPc.beforeClear s es = [] ∨ arrivals RxPc.afterClear s es ≠ [] := by
  -- what is left came in the gap or after it, and only the latter has an interrupt
  obtain ⟨hfifo, hpend⟩ := rx_run_dev (by rw [h]; rfl) hrun (by rw [ht]; rfl)
  rw [hfifo, hpend, Ne, List.append_eq_nil_iff]
  tauto

end Run

/-- The handler starts because a byte has arrived. -/
def rxStart : RxRun numProcesses := ⟨⟨[0x61#8], pl011IntRx⟩, bootKernel qemuLayout, .readFr⟩

/-- Of two bytes that arrive while the handler runs, it takes the first with the one it has
started for. -/
theorem pl011_rx_irq_refines_late :
    ∃ t, run rxStep rxStart ([.handler, .arrive 0x62#8] ++ List.replicate 6 .handler ++
        [.arrive 0x63#8, .handler, .handler]) = some t ∧
      t.kern = rxStart.kern.uartRxIrq [0x61#8, 0x62#8] ∧ t.dev.rxFifo = [0x63#8] := by
  have hview : ((run rxStep rxStart ([.handler, .arrive 0x62#8] ++ List.replicate 6 .handler ++
      [.arrive 0x63#8, .handler, .handler])).map fun t => (t.pc, t.dev.rxFifo)) =
      some (.done, [0x63#8]) := by decide
  obtain ⟨t, ht, hpair⟩ := Option.map_eq_some_iff.1 hview
  obtain ⟨hpc, hfifo⟩ := Prod.mk.inj hpair
  obtain ⟨rx, hkern, hbytes, -⟩ := pl011_rx_irq_refines rfl ht hpc
  have hall : arrivals (fun _ => true) rxStart ([.handler, .arrive 0x62#8] ++
      List.replicate 6 .handler ++ [.arrive 0x63#8, .handler, .handler]) =
      [0x62#8, 0x63#8] := by decide
  rw [hfifo, hall] at hbytes
  have hrx : rx ++ [0x63#8] = [0x61#8, 0x62#8] ++ [0x63#8] := hbytes
  rw [List.append_cancel_right hrx] at hkern
  exact ⟨t, ht, hkern, hfifo⟩

/-- A byte that arrives after the write has its interrupt. -/
theorem pl011_pending_after_clear :
    ∃ t, run rxStep rxStart [.handler, .handler, .handler, .handler, .handler, .arrive 0x62#8,
        .handler] = some t ∧ t.pc = .done ∧ t.dev.rxFifo = [0x62#8] ∧ t.dev.pending = true := by
  have hview : ((run rxStep rxStart [.handler, .handler, .handler, .handler, .handler,
      .arrive 0x62#8, .handler]).map fun t => (t.pc, t.dev.rxFifo)) =
      some (.done, [0x62#8]) := by decide
  obtain ⟨t, ht, hpair⟩ := Option.map_eq_some_iff.1 hview
  obtain ⟨hpc, hfifo⟩ := Prod.mk.inj hpair
  refine ⟨t, ht, hpc, hfifo, ?_⟩
  exact (pl011_pending_iff rfl ht hpc).2 (Or.inr (by decide)) (by simp [hfifo])

/-- One that arrives just before it stays in the FIFO without one. -/
theorem pl011_strands_byte :
    ∃ t, run rxStep rxStart [.handler, .handler, .handler, .handler, .arrive 0x62#8, .handler,
        .handler] = some t ∧ t.pc = .done ∧ t.dev.rxFifo = [0x62#8] ∧ t.dev.pending = false := by
  have hview : ((run rxStep rxStart [.handler, .handler, .handler, .handler, .arrive 0x62#8,
      .handler, .handler]).map fun t => (t.pc, t.dev.rxFifo, t.dev.pending)) =
      some (.done, [0x62#8], false) := by decide
  obtain ⟨t, ht, hview⟩ := Option.map_eq_some_iff.1 hview
  simp only [Prod.mk.injEq] at hview
  exact ⟨t, ht, hview⟩

end RingNova
