import OsDev.Boot.E820
import OsDev.Kernel.AcpiTables
import OsDev.Kernel.Coroutines
import OsDev.Kernel.CriticalSections
import OsDev.Kernel.EntryPaging
import OsDev.Kernel.FirstProcess
import OsDev.Kernel.FreelistReport
import OsDev.Kernel.Gdt
import OsDev.Kernel.HeapRam
import OsDev.Kernel.Ide
import OsDev.Kernel.Kbd
import OsDev.Kernel.KfreeBounds
import OsDev.Kernel.LockRuns
import OsDev.Kernel.PageLedger
import OsDev.Kernel.PageLookup
import OsDev.Kernel.Pids
import OsDev.Kernel.SchedulerRuns
import OsDev.Kernel.Screen
import OsDev.Kernel.SpaceRuns
import OsDev.Kernel.Strings
import OsDev.Kernel.SyscallLeaks
import OsDev.Kernel.SyscallRuns
import OsDev.Kernel.Traps
