import ElephantOS.Thread.Semaphore
import ElephantOS.Thread.Lock
import ElephantOS.Device.IoQueue
import ElephantOS.Kernel.List
import ElephantOS.Thread.Sched
import ElephantOS.Thread.SchedInv
import ElephantOS.Kernel.Bitmap
import ElephantOS.Kernel.Memory
import ElephantOS.Kernel.Malloc
import ElephantOS.Lib.Ledger
import ElephantOS.Memory.Spaces
import ElephantOS.Memory.PageInv
import ElephantOS.Memory.PageOps
import ElephantOS.Memory.PageRange
import ElephantOS.Memory.PageCalls
import ElephantOS.Memory.Processes
import ElephantOS.Memory.Heap
import ElephantOS.Memory.HeapOps
import ElephantOS.Memory.HeapCalls
import ElephantOS.Memory.System
import ElephantOS.Memory.Guarantees
import ElephantOS.Device.IoFifo
import ElephantOS.Memory.Directories
import ElephantOS.Thread.Pid
import ElephantOS.Thread.Progress
import ElephantOS.Lib.Bytes
import ElephantOS.Thread.Switch
import ElephantOS.Lib.Masking
import ElephantOS.Thread.Interrupts
import ElephantOS.Thread.Enlist
import ElephantOS.Kernel.Traced
import ElephantOS.Lib.Tlb
import ElephantOS.Memory.Translations
import ElephantOS.Memory.TlbRuns
import ElephantOS.Memory.HeapContract
import ElephantOS.Memory.MallocStops
import ElephantOS.Device.Keyboard
import ElephantOS.Device.KeyStream
import ElephantOS.Device.Console
import ElephantOS.Memory.ScanBounds
import ElephantOS.Memory.MachineSize
import ElephantOS.Kernel.IntEntry
import ElephantOS.Thread.StartProcess
import ElephantOS.Memory.Exhaustion
import ElephantOS.Lib.Guarded
import ElephantOS.Memory.Locking
import ElephantOS.Kernel.Descriptors
import ElephantOS.Kernel.Syscall
import ElephantOS.Memory.Walks
import ElephantOS.Boot.Machine
import ElephantOS.Boot.ReadDisk
import ElephantOS.Boot.SetupPage
import ElephantOS.Boot.KernelInit
import ElephantOS.Lib.RoundRobin
import ElephantOS.Thread.RoundRobin
import ElephantOS.Kernel.Strings
import ElephantOS.Lib.Numeral
import ElephantOS.Device.Print
import ElephantOS.Lib.Tally
import ElephantOS.Thread.Ticks
import ElephantOS.Lib.Resumption
import ElephantOS.Device.ConsoleCalls
import ElephantOS.Device.KeyboardOutput
import ElephantOS.Kernel.StringWrites
import ElephantOS.Thread.PcbBytes
import ElephantOS.Boot.Loader
