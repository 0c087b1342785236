import ToeS.Kheap.Safety
import ToeS.Kheap.Coalesce
import ToeS.Kheap.Aligned
import ToeS.Kheap.Fit
import ToeS.Kheap.Page
import ToeS.Kheap.Inside
import ToeS.Kheap.BinRun
import ToeS.Kheap.History
import ToeS.Kheap.Requests
import ToeS.Sched.Runs
import ToeS.Vmm.Ownership
import ToeS.Vmm.Walk
import ToeS.Vmm.Copy
import ToeS.Vmm.Physical
import ToeS.Boot.Mapping
import ToeS.Boot.Multiboot
import ToeS.Boot.Capacity
import ToeS.Boot.MapWalk
import ToeS.Boot.Leftover
import ToeS.Boot.Entry
import ToeS.Vmm.Stack
import ToeS.Vmm.Relocate
import ToeS.Sched.Resume
import ToeS.Sched.Private
import ToeS.Trap.Irq
import ToeS.Trap.Isr
import ToeS.Trap.Timer
import ToeS.Trap.Tables
import ToeS.Vga.Display
import ToeS.Klib.Itoa
import ToeS.V1.Release
import ToeS.V1.Fail
import ToeS.V1.Return
import ToeS.V1.Paging
import ToeS.V1.Keyboard
