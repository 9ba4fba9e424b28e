/-
# Boards and the shared address layout

The constants of `kernel/include/platform.h` (virtual layout, process table and kernel
stack sizes) and of the two `board.h` files.  A `Board` is one of the two build targets;
a statement over every `b : Board` is a statement about both builds.
-/
import Mathlib.Data.Fintype.Card
import Mathlib.Tactic.FinCases
import Mathlib.Tactic.IntervalCases
import Mathlib.Tactic.Ring

namespace RingNova

/-- A 32-bit register, address or `uint32_t`. -/
abbrev Word := BitVec 32

/-- A byte of memory or of the console, `uint8_t` or `char`. -/
abbrev Byte := BitVec 8

/-! ### `platform.h` -/

/-- `USER_VIRT_BASE`. -/
def userVirtBase : Word := 0x40000000#32

/-- `USER_REGION_SIZE`: 1 MB. -/
def userRegionSize : Word := 0x00100000#32

/-- `USER_STACK_TOP`. -/
def userStackTop : Word := userVirtBase + userRegionSize

/-- `VA_KERNEL_BASE`. -/
def vaKernelBase : Word := 0xC0000000#32

/-- `NUM_PROCESSES`. -/
abbrev numProcesses : ℕ := 3

instance : NeZero numProcesses := ⟨by decide⟩

/-- `KSTACK_SIZE`. -/
def kstackSize : Word := 8192#32

/-- A process identifier is an index of the `processes` array. -/
abbrev Pid := Fin numProcesses

/-! ### `board.h` -/

/-- The two build targets: QEMU realview-pb-a8 and BeagleBone Black. -/
inductive Board
  | qemu
  | bbb
deriving DecidableEq, Repr

namespace Board

/-- `RAM_BASE`. -/
def ramBase : Board → Word
  | qemu => 0x70000000#32
  | bbb => 0x80000000#32

/-- `RAM_SIZE`. -/
def ramSize : Board → Word
  | qemu => 0x08000000#32
  | bbb => 0x20000000#32

/-- `PHYS_OFFSET = 0xC0000000U - RAM_BASE`. -/
def physOffset (b : Board) : Word := 0xC0000000#32 - b.ramBase

/-- `USER_PHYS_BASE`. -/
def userPhysBase (b : Board) : Word := b.ramBase + 0x00200000#32

/-- `USER_PHYS_STRIDE`. -/
def userPhysStride : Word := 0x00100000#32

/-- `IRQ_TIMER`. -/
def irqTimer : Board → Word
  | qemu => 36#32
  | bbb => 68#32

/-- `IRQ_UART0`. -/
def irqUart0 : Board → Word
  | qemu => 44#32
  | bbb => 72#32

end Board

end RingNova
