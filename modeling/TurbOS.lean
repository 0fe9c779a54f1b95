import TurbOS.Lib.ByteMemory
import TurbOS.Lib.Fuel
import TurbOS.Lib.Word64
import TurbOS.Lib.LeastPower
import TurbOS.Lib.LastWrite
import TurbOS.Lib.Tiling
import TurbOS.Lib.Buddies
import TurbOS.Lib.Store
import TurbOS.Lib.Rotation
import TurbOS.Lib.LinkedTrie
import TurbOS.Lib.Runs
import TurbOS.Lib.Collect
import TurbOS.Lib.SaveUnder
import TurbOS.Lib.Counting
import TurbOS.Lib.Occurrences
import TurbOS.Lib.Searching
import TurbOS.Lib.Calendar
import TurbOS.Lib.Waiting
import TurbOS.Lib.MappedMemory
import TurbOS.Lib.Decimal
import TurbOS.Lib.Nearest
import TurbOS.Lib.Grid
import TurbOS.Lib.Sinks
import TurbOS.Lib.Numeral
import TurbOS.Lib.X86
import TurbOS.Lib.X86String
import TurbOS.Lib.X86Stack
import TurbOS.Memory.Bitmap
import TurbOS.Memory.PageSet
import TurbOS.Memory.Math
import TurbOS.Memory.PMemory
import TurbOS.Memory.Extents
import TurbOS.Memory.Boot
import TurbOS.Memory.Requests
import TurbOS.Memory.FreeMap
import TurbOS.Memory.Moving
import TurbOS.Memory.Accounting
import TurbOS.Memory.Coverage
import TurbOS.Memory.VMemory
import TurbOS.Memory.PageTree
import TurbOS.Memory.Translation
import TurbOS.Memory.Mapping
import TurbOS.Memory.Flags
import TurbOS.Memory.AddressSpaces
import TurbOS.Heap.Model
import TurbOS.Heap.Rounding
import TurbOS.Heap.Tiles
import TurbOS.Heap.Search
import TurbOS.Heap.Arena
import TurbOS.Heap.Malloc
import TurbOS.Heap.Client
import TurbOS.Heap.Growth
import TurbOS.Heap.Lock
import TurbOS.Heap.Layout
import TurbOS.Heap.Coalescence
import TurbOS.Heap.Steps
import TurbOS.Heap.Serve
import TurbOS.Heap.Restore
import TurbOS.Heap.Room
import TurbOS.Heap.Retry
import TurbOS.Heap.Relocate
import TurbOS.Heap.Buddies
import TurbOS.Scheduler.TurboVector
import TurbOS.Scheduler.Model
import TurbOS.Scheduler.Switch
import TurbOS.Scheduler.Create
import TurbOS.Scheduler.Dangling
import TurbOS.Scheduler.Exclusive
import TurbOS.Scheduler.Contexts
import TurbOS.Scheduler.RoundRobin
import TurbOS.Scheduler.Cleaning
import TurbOS.Scheduler.Calls
import TurbOS.Scheduler.Release
import TurbOS.Scheduler.Unblock
import TurbOS.Scheduler.LifeCycle
import TurbOS.Scheduler.InitProcess
import TurbOS.Scheduler.Locks
import TurbOS.Str.Split
import TurbOS.Str.Buffer
import TurbOS.Str.Integers
import TurbOS.Str.Search
import TurbOS.Str.Strsplit
import TurbOS.Str.Strrm
import TurbOS.Str.Strcat
import TurbOS.Str.Compare
import TurbOS.Vfs.Model
import TurbOS.Vfs.Tree
import TurbOS.Vfs.Open
import TurbOS.Vfs.Resolve
import TurbOS.Vfs.Slashes
import TurbOS.Vfs.Directory
import TurbOS.Vfs.NameMap
import TurbOS.Vfs.Create
import TurbOS.Vfs.Lock
import TurbOS.Vfs.Mount
import TurbOS.Vfs.Normalise
import TurbOS.Vfs.Paths
import TurbOS.Vector.Storage
import TurbOS.Vector.Heap
import TurbOS.Vector.Remove
import TurbOS.Vector.Backed
import TurbOS.Vector.Pushes
import TurbOS.Acpi.Madt
import TurbOS.Acpi.Malformed
import TurbOS.Acpi.Tables
import TurbOS.Acpi.Dsdt
import TurbOS.Pci.Model
import TurbOS.Pci.Enumerate
import TurbOS.Pci.Search
import TurbOS.Apic.IoApic
import TurbOS.Time.Rtc
import TurbOS.Time.Epoch
import TurbOS.Time.Midnight
import TurbOS.Time.Delays
import TurbOS.Time.Pit
import TurbOS.Smp.Model
import TurbOS.Smp.Tss
import TurbOS.Shell.Model
import TurbOS.Shell.Dispatch
import TurbOS.Shell.Run
import TurbOS.Shell.Cd
import TurbOS.Display.Terminal
import TurbOS.Display.Framebuffer
import TurbOS.Display.Circle
import TurbOS.Display.Diagonal
import TurbOS.Display.Clipping
import TurbOS.Display.Joining
import TurbOS.Display.Mouse
import TurbOS.Display.Cursor
import TurbOS.Display.Packets
import TurbOS.Keyboard.Model
import TurbOS.Keyboard.Handler
import TurbOS.Keyboard.Bounds
import TurbOS.Keyboard.Line
import TurbOS.Keyboard.Mirror
import TurbOS.Printf.Model
import TurbOS.Printf.Output
import TurbOS.Printf.Format
import TurbOS.Printf.Family
import TurbOS.Printf.Standard
import TurbOS.Printf.Integer
import TurbOS.Printf.Formats
import TurbOS.Printf.Reading
import TurbOS.Time.GetTime
import TurbOS.Cpu.MemoryFunctions
import TurbOS.Cpu.Interrupt
import TurbOS.Lib.SpinLock
import TurbOS.Display.Serial
import TurbOS.Scheduler.Identifiers
import TurbOS.Smp.BringUp
import TurbOS.Cpu.SchedulerStack
import TurbOS.Cpu.Idt
import TurbOS.Apic.Timer
