import RingNova.Arm.AddressSpace
import RingNova.Arm.Dispatch
import RingNova.Arm.Input
import RingNova.Arm.Isolation
import RingNova.Arm.Preemption
import RingNova.Arm.Stacks
import RingNova.Arm.Syscall
import RingNova.Kernel.Pl011
import RingNova.Kernel.RxQueue
import RingNova.User.Shell
import RingNova.Kernel.Gic
import RingNova.Kernel.Ps
import RingNova.Kernel.Schedule
import RingNova.System.Ps
import RingNova.Arm.Ps
import RingNova.Arm.Ticks
import RingNova.User.Grammar
import RingNova.User.LineEditor
import RingNova.Arm.Images
import RingNova.Lib.Memory32
import RingNova.Arm.Assembly
import RingNova.Arm.FirstEntry
import RingNova.User.Counter
import RingNova.User.Numbers
import RingNova.Arm.InstructionLevel
import RingNova.Arm.ResetRun
