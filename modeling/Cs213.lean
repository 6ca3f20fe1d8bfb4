import Cs213.Library.Runs
import Cs213.Library.Placement
import Cs213.SM213.Cycle
import Cs213.SM213.Coherence
import Cs213.SM213.Failure
import Cs213.SM213.Modes
import Cs213.SM213.Instruction
import Cs213.SM213.Undefined
import Cs213.SM213.Copy
import Cs213.SM213.Sums
import Cs213.SM213.Largest
import Cs213.SM213.Smallest
import Cs213.SM213.Switch
import Cs213.SM213.SwitchFunction
import Cs213.SM213.StackCalls
import Cs213.Uthread.Spinlock
import Cs213.Uthread.Scheduler
import Cs213.Uthread.SpinCycle
import Cs213.Uthread.OneProcessor
import Cs213.Uthread.JoinLaw
import Cs213.Uthread.FreedBlocks
import Cs213.Uthread.Monitor
import Cs213.ReaderWriter.MonitorMode
import Cs213.Queues.BoundedBuffer
import Cs213.Queues.CompletionQueue
import Cs213.Queues.Interrupts
import Cs213.Uthread.StackArea
import Cs213.Uthread.Queues
import Cs213.Uthread.QueueLists
import Cs213.FunWithThreads.Packing
import Cs213.FunWithThreads.CommandLine
import Cs213.Uthread.Linearized
import Cs213.Uthread.Turns
import Cs213.Uthread.Frames
import Cs213.Uthread.ForkJoin
import Cs213.Uthread.JoinValues
import Cs213.PingPong.Result
import Cs213.Uthread.ContextSwitch
import Cs213.Uthread.Progress
import Cs213.Uthread.Leaks
import Cs213.SM213.Overflow
import Cs213.Uthread.CriticalSections
import Cs213.Queues.Expression
import Cs213.SM213.Capacity
import Cs213.ReaderWriter.Modes
