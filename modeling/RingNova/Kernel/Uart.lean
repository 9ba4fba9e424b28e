/-
# The console: RX ring and formatted output

`kernel/drivers/uart/uart_core.c`.  The receive ring is an array of 128 bytes with two
free-running 32-bit indices that are masked only when the array is accessed; the output
side is the byte stream that reaches the chip driver's `putc`.

The ring is proved to be a queue of at most 127 bytes (`RxRing.contents_push_of_room`,
`RxRing.pop_of_contents_cons`): `RxRing.Wf` bounds the distance of the indices, and since
128 divides `2 ^ 32` the bound survives their wrapping around.
-/
import Mathlib.Data.List.Range
import Mathlib.Logic.Function.Basic
import Mathlib.Tactic.Ring
import RingNova.Platform

namespace RingNova

/-! ### The receive ring -/

/-- `UART_RX_MASK`. -/
def uartRxMask : Word := 127#32

/-- `rx_buf`, `rx_head` and `rx_tail`. -/
structure RxRing where
  /-- The array; only the indices below 128 are used. -/
  rxBuf : ℕ → Byte
  /-- Advanced by the interrupt side. -/
  rxHead : Word
  /-- Advanced by the reading side. -/
  rxTail : Word

namespace RxRing

/-- The ring after `.bss` has been zeroed. -/
def zero : RxRing := ⟨fun _ => 0, 0, 0⟩

/-- The test of `uart_rx_push`: there is room for one more byte. -/
def hasRoom (r : RxRing) : Bool :=
  (r.rxHead + 1#32) &&& uartRxMask ≠ r.rxTail &&& uartRxMask

/-- `uart_rx_push`: a byte that does not fit is dropped silently. -/
def uartRxPush (r : RxRing) (c : Byte) : RxRing :=
  if r.hasRoom then
    { r with
      rxBuf := Function.update r.rxBuf (r.rxHead &&& uartRxMask).toNat c
      rxHead := r.rxHead + 1#32 }
  else r

/-- `uart_rx_empty`. -/
def uartRxEmpty (r : RxRing) : Bool := r.rxHead = r.rxTail

/-- `uart_rx_pop`: the oldest byte as an `int` in `0 .. 255`, or `-1`. -/
def uartRxPop (r : RxRing) : ℤ × RxRing :=
  if r.rxHead = r.rxTail then (-1, r)
  else ((r.rxBuf (r.rxTail &&& uartRxMask).toNat).toNat, { r with rxTail := r.rxTail + 1#32 })

/-! ### The ring as a queue -/

/-- The number of bytes between the two indices. -/
def count (r : RxRing) : ℕ := (r.rxHead - r.rxTail).toNat

/-- The indices are never more than 127 apart. -/
def Wf (r : RxRing) : Prop := r.count ≤ 127

/-- The bytes in the ring, oldest first. -/
def contents (r : RxRing) : List Byte :=
  (List.range r.count).map fun i => r.rxBuf ((r.rxTail.toNat + i) % 128)

@[simp] lemma length_contents (r : RxRing) : r.contents.length = r.count := by
  simp [contents]

lemma toNat_and_uartRxMask (w : Word) : (w &&& uartRxMask).toNat = w.toNat % 128 := by
  rw [uartRxMask, BitVec.toNat_and]
  exact Nat.and_two_pow_sub_one_eq_mod w.toNat 7

lemma wf_zero : zero.Wf := by
  show zero.count ≤ 127
  decide

@[simp] lemma contents_zero : zero.contents = [] := by decide

lemma rxHead_toNat (r : RxRing) : r.rxHead.toNat = (r.rxTail.toNat + r.count) % 2 ^ 32 := by
  have h : r.rxHead = r.rxTail + (r.rxHead - r.rxTail) := by
    rw [BitVec.add_comm, BitVec.sub_add_cancel]
  have h' := congrArg BitVec.toNat h
  rwa [BitVec.toNat_add] at h'

lemma rxHead_mod (r : RxRing) : r.rxHead.toNat % 128 = (r.rxTail.toNat + r.count) % 128 := by
  rw [rxHead_toNat]
  omega

/-- Fullness is tested on the masked indices, but it is a statement about the distance. -/
lemma hasRoom_iff {r : RxRing} (h : r.Wf) : r.hasRoom = true ↔ r.count < 127 := by
  have hc : r.count ≤ 127 := h
  have hm := rxHead_mod r
  have hadd : (r.rxHead + 1#32).toNat % 128 = (r.rxTail.toNat + r.count + 1) % 128 := by
    rw [BitVec.toNat_add]
    have : (1#32).toNat = 1 := rfl
    omega
  rw [hasRoom, decide_eq_true_iff, Ne, ← BitVec.toNat_inj, toNat_and_uartRxMask,
    toNat_and_uartRxMask, hadd]
  omega

lemma count_eq_zero_iff (r : RxRing) : r.count = 0 ↔ r.rxHead = r.rxTail := by
  constructor
  · intro h
    have h0 : r.rxHead - r.rxTail = 0#32 := BitVec.eq_of_toNat_eq (by simpa [count] using h)
    have h1 : r.rxHead = (r.rxHead - r.rxTail) + r.rxTail := (BitVec.sub_add_cancel _ _).symm
    rw [h1, h0, BitVec.zero_add]
  · intro h
    simp [count, h]

lemma contents_eq_nil_iff (r : RxRing) : r.contents = [] ↔ r.rxHead = r.rxTail := by
  rw [← List.length_eq_zero_iff, length_contents, count_eq_zero_iff]

lemma count_push {r : RxRing} (c : Byte) (h : r.Wf) (hr : r.hasRoom = true) :
    (r.uartRxPush c).count = r.count + 1 := by
  have hc := (hasRoom_iff h).1 hr
  rw [uartRxPush, if_pos hr]
  simp only [count] at hc ⊢
  have : r.rxHead + 1#32 - r.rxTail = (r.rxHead - r.rxTail) + 1#32 := by
    rw [BitVec.sub_eq_add_neg, BitVec.sub_eq_add_neg, BitVec.add_assoc, BitVec.add_assoc,
      BitVec.add_comm 1#32]
  rw [this, BitVec.toNat_add]
  have : (1#32).toNat = 1 := rfl
  omega

lemma wf_push {r : RxRing} (c : Byte) (h : r.Wf) : (r.uartRxPush c).Wf := by
  by_cases hr : r.hasRoom = true
  · have hc := (hasRoom_iff h).1 hr
    have := count_push c h hr
    simp only [Wf] at *
    omega
  · rw [uartRxPush, if_neg hr]
    exact h

/-- A push appends its byte if fewer than 127 are queued. -/
lemma contents_push_of_room {r : RxRing} (c : Byte) (h : r.Wf) (hr : r.hasRoom = true) :
    (r.uartRxPush c).contents = r.contents ++ [c] := by
  have hc := (hasRoom_iff h).1 hr
  have hcnt := count_push c h hr
  rw [contents, hcnt, List.range_succ, List.map_append, List.map_singleton]
  have hm := rxHead_mod r
  rw [uartRxPush, if_pos hr, toNat_and_uartRxMask]
  congr 1
  · apply List.map_congr_left
    intro i hi
    have hi' : i < r.count := List.mem_range.1 hi
    have hne : (r.rxTail.toNat + i) % 128 ≠ r.rxHead.toNat % 128 := by omega
    exact Function.update_of_ne hne _ _
  · simp only [hm, Function.update_self]

lemma push_of_full {r : RxRing} (c : Byte) (hr : r.hasRoom = false) : r.uartRxPush c = r := by
  simp [uartRxPush, hr]

/-- The ring after a burst of pushes. -/
def pushAll (r : RxRing) (rx : List Byte) : RxRing := rx.foldl uartRxPush r

/-- The bytes of a burst that find room. -/
def accepted : RxRing → List Byte → List Byte
  | _, [] => []
  | r, c :: cs => (if r.hasRoom then [c] else []) ++ accepted (r.uartRxPush c) cs

lemma wf_pushAll {r : RxRing} (h : r.Wf) (rx : List Byte) : (r.pushAll rx).Wf := by
  induction rx generalizing r with
  | nil => exact h
  | cons c rx ih => exact ih (wf_push c h)

/-- A burst appends the bytes that find room. -/
lemma contents_pushAll {r : RxRing} (h : r.Wf) (rx : List Byte) :
    (r.pushAll rx).contents = r.contents ++ r.accepted rx := by
  induction rx generalizing r with
  | nil => exact (List.append_nil _).symm
  | cons c rx ih =>
    have hstep : (r.pushAll (c :: rx)).contents = _ := ih (wf_push c h)
    rw [hstep, accepted]
    by_cases hr : r.hasRoom = true
    · rw [contents_push_of_room c h hr, if_pos hr, List.append_assoc]
    · rw [push_of_full c (by simpa using hr), if_neg hr, List.nil_append]

/-- An empty ring takes at least the first byte. -/
lemma contents_pushAll_ne_nil {r : RxRing} (h : r.Wf) (hempty : r.contents = [])
    {rx : List Byte} (hrx : rx ≠ []) : (r.pushAll rx).contents ≠ [] := by
  rcases rx with _ | ⟨c, rx⟩
  · exact absurd rfl hrx
  · have hcount : r.count = 0 := by rw [← length_contents, hempty, List.length_nil]
    have hroom : r.hasRoom = true := (hasRoom_iff h).2 (by omega)
    simp [contents_pushAll h, accepted, hroom]

lemma pop_of_empty {r : RxRing} (h : r.contents = []) : r.uartRxPop = (-1, r) := by
  rw [uartRxPop, if_pos ((contents_eq_nil_iff r).1 h)]

/-- A pop removes the oldest byte and returns its value. -/
lemma pop_of_contents_cons {r : RxRing} {c : Byte} {cs : List Byte} (h : r.Wf)
    (hc : r.contents = c :: cs) :
    r.uartRxPop.1 = c.toNat ∧ r.uartRxPop.2.contents = cs ∧ r.uartRxPop.2.Wf := by
  have hne : r.rxHead ≠ r.rxTail := by
    rw [Ne, ← contents_eq_nil_iff, hc]
    simp
  have hpos : 0 < r.count := by
    rw [← length_contents, hc]
    simp
  have hle : r.count ≤ 127 := h
  obtain ⟨n, hn⟩ : ∃ n, r.count = n + 1 := ⟨r.count - 1, by omega⟩
  rw [contents, hn, List.range_succ_eq_map, List.map_cons, List.map_map] at hc
  obtain ⟨hhead, htail⟩ := List.cons.inj hc
  have hcnt : (r.rxHead - (r.rxTail + 1#32)).toNat = n := by
    have : r.rxHead - (r.rxTail + 1#32) = (r.rxHead - r.rxTail) - 1#32 := by
      rw [BitVec.sub_eq_add_neg, BitVec.sub_eq_add_neg, BitVec.sub_eq_add_neg, BitVec.neg_add,
        BitVec.sub_eq_add_neg, BitVec.add_assoc]
    rw [this, BitVec.toNat_sub]
    have h1 : (1#32).toNat = 1 := rfl
    have h2 : (r.rxHead - r.rxTail).toNat = n + 1 := hn
    omega
  rw [uartRxPop, if_neg hne, toNat_and_uartRxMask]
  refine ⟨by rw [← hhead]; simp, ?_, ?_⟩
  · rw [← htail, contents, count, hcnt]
    apply List.map_congr_left
    intro i _
    have hidx : (((r.rxTail + 1#32).toNat + i) % 128) = (r.rxTail.toNat + (i + 1)) % 128 := by
      rw [BitVec.toNat_add]
      have : (1#32).toNat = 1 := rfl
      omega
    simp only [hidx, Function.comp, Nat.succ_eq_add_one]
  · show _ ≤ 127
    rw [count, hcnt]
    omega

end RxRing

/-! ### Formatted output -/

/-- The bytes of a string literal, without its terminator. -/
def cstr (s : String) : List Byte := s.toByteArray.data.toList.map UInt8.toBitVec

/-- `uart_putc`: what reaches the chip driver for one character. -/
def uartPutc (c : Byte) : List Byte :=
  if c = 0x0A#8 then [0x0D#8, c] else [c]

/-- `uart_puts`. -/
def uartPuts (s : List Byte) : List Byte := s.flatMap uartPutc

/-- The digit loop of `uart_print_dec`, least significant digit first. -/
def printDecLoop (val : ℕ) : List Byte :=
  if _h : val = 0 then [] else BitVec.ofNat 8 (0x30 + val % 10) :: printDecLoop (val / 10)
termination_by val

/-- `uart_print_dec`. -/
def uartPrintDec (val : Word) : List Byte :=
  if val = 0#32 then uartPutc 0x30#8
  else (printDecLoop val.toNat).reverse.flatMap uartPutc

/-- `uart_print_int`. -/
def uartPrintInt (val : Word) : List Byte :=
  if val.slt 0#32 then uartPutc 0x2D#8 ++ uartPrintDec (-(val + 1#32) + 1#32)
  else uartPrintDec val

/-- An entry of the lower-case digit table. -/
def hexDigit (d : Word) : Byte :=
  if d.toNat < 10 then BitVec.ofNat 8 (0x30 + d.toNat) else BitVec.ofNat 8 (0x57 + d.toNat)

/-- The shift counts `28, 24, .., 0` of the hexadecimal loops. -/
def hexShifts : List ℕ := [28, 24, 20, 16, 12, 8, 4, 0]

/-- The nibble of `v` at a shift. -/
def nibble (v : Word) (i : ℕ) : Word := (v >>> i) &&& 0xF#32

/-- `%08x` and the digits of `%p`. -/
def hex8 (v : Word) : List Byte := hexShifts.flatMap fun i => uartPutc (hexDigit (nibble v i))

/-- `%x`: the first loop stops at the first nonzero nibble, or at the last one. -/
def hexShort (v : Word) : List Byte :=
  (hexShifts.dropWhile fun i => nibble v i = 0#32 ∧ i ≠ 0).flatMap
    fun i => uartPutc (hexDigit (nibble v i))

/-- One variadic argument of `uart_printf`. -/
inductive PrintfArg
  | num (v : Word)
  | str (s : List Byte)

/-- `va_arg(ap, uint32_t)`. -/
def vaNum : List PrintfArg → Word
  | .num v :: _ => v
  | _ => 0#32

/-- `va_arg(ap, const char *)`. -/
def vaStr : List PrintfArg → List Byte
  | .str s :: _ => s
  | _ => []

/-- What `uart_printf` has emitted, and whether its scan has stepped over the terminating
NUL of the format. -/
structure PrintfOut where
  out : List Byte
  overrun : Bool

/-- Emit some bytes, then go on. -/
def PrintfOut.after (bs : List Byte) (p : PrintfOut) : PrintfOut := ⟨bs ++ p.out, p.overrun⟩

/-- The `switch` of `uart_printf` on the conversion character: the bytes it emits and the
arguments that are left. -/
def printfConv (d : Byte) (args : List PrintfArg) : List Byte × List PrintfArg :=
  if d = 0x63#8 then (uartPutc ((vaNum args).setWidth 8), args.tail)
  else if d = 0x73#8 then (uartPuts (vaStr args), args.tail)
  else if d = 0x64#8 then (uartPrintInt (vaNum args), args.tail)
  else if d = 0x75#8 then (uartPrintDec (vaNum args), args.tail)
  else if d = 0x78#8 then (hexShort (vaNum args), args.tail)
  else if d = 0x70#8 then (uartPuts (cstr "0x") ++ hex8 (vaNum args), args.tail)
  else if d = 0x25#8 then (uartPutc 0x25#8, args)
  else (uartPutc 0x25#8 ++ uartPutc d, args)

/-- `uart_printf` on the bytes of a format before its terminator. -/
def uartPrintf : List Byte → List PrintfArg → PrintfOut
  | [], _ => ⟨[], false⟩
  | c :: fmt, args =>
    if c ≠ 0x25#8 then (uartPrintf fmt args).after (uartPutc c)
    else
      match fmt with
      -- the `%` is the last character: the default case prints the terminator and the
      -- shared increment steps over it
      | [] => ⟨(printfConv 0#8 args).1, true⟩
      | d :: rest =>
        match d, rest with
        | 0x30#8, 0x38#8 :: 0x78#8 :: rest' =>
          (uartPrintf rest' args.tail).after (hex8 (vaNum args))
        | d, rest => (uartPrintf rest (printfConv d args).2).after (printfConv d args).1

end RingNova
