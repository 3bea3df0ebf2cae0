import Ktux.Kmalloc
import Ktux.AddressSpace
import Ktux.InitBounds
import Ktux.HeapBooks
import Ktux.HeapSpace
import Ktux.DemandPaging
import Ktux.PageAccounting
import Ktux.UnmapPage
import Ktux.MemoryMap
import Ktux.Timeslice
import Ktux.ThreadIds
import Ktux.BootSector
import Ktux.PrepareKernel
import Ktux.FileLoading
import Ktux.ConsoleBounds
import Ktux.Pic
import Ktux.PageFault
import Ktux.RegisterDump
import Ktux.KeyboardStatus
import Ktux.CommandBuffer
import Ktux.InterruptTable
import Ktux.EscapeSequences
import Ktux.ConsoleBytes
import Ktux.HardwareCursor
import Ktux.FormatEnd
import Ktux.WideNumbers
import Ktux.Shell
import Ktux.PageWindow
import Ktux.DiskArithmetic
import Ktux.ConsoleScroll
import Ktux.DiskRetry
import Ktux.DirectoryLookup
import Ktux.BootConsole
import Ktux.ListFamilies
import Ktux.KernelLists
import Ktux.BoundedWait
import Ktux.ProcessList
import Ktux.EnableA20
import Ktux.PageCalls
import Ktux.StaleTranslations
import Ktux.Typing
import Ktux.Terminals
import Ktux.ConsoleTerminals
import Ktux.BootLoading
import Ktux.KernelEntry
import Ktux.Preemption
import Ktux.Acknowledge
