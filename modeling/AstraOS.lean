import AstraOS.Memory.Multiboot
import AstraOS.Foundation.Loop
import AstraOS.Foundation.Run
import AstraOS.Foundation.WordBitmap
import AstraOS.Memory.Pmm
import AstraOS.Memory.PmmInvariant
import AstraOS.Memory.MapWalk
import AstraOS.Memory.FreeMap
import AstraOS.Memory.FrameCount
import AstraOS.Memory.Ownership
import AstraOS.Foundation.Mask
import AstraOS.Memory.Heap
import AstraOS.Foundation.Ring
import AstraOS.Drivers.Keyboard
import AstraOS.Drivers.KeyboardQueue
import AstraOS.Drivers.Vga
import AstraOS.Drivers.Terminal
import AstraOS.Interrupts.Dispatch
import AstraOS.Memory.Allocator
import AstraOS.Memory.MapEquivalence
import AstraOS.Foundation.Orbit
import AstraOS.Memory.WalkBounds
import AstraOS.Memory.WalkReads
import AstraOS.Drivers.Pit
import AstraOS.Foundation.CString
import AstraOS.Interrupts.Masks
import AstraOS.Kernel.Kprintf
import AstraOS.Kernel.Format
import AstraOS.Kernel.FormatBounds
import AstraOS.Foundation.Stack
import AstraOS.Interrupts.Machine
import AstraOS.Interrupts.Stubs
import AstraOS.Drivers.Scancodes
import AstraOS.Kernel.FormatRendering
import AstraOS.Kernel.Numerals
import AstraOS.Kernel.Uptime
import AstraOS.Kernel.IdleLoop
import AstraOS.Kernel.Descriptors
import AstraOS.Interrupts.Frames
import AstraOS.Foundation.Polling
import AstraOS.Drivers.Serial
import AstraOS.Kernel.Console
import AstraOS.Memory.Summary
import AstraOS.Foundation.Polls
import AstraOS.Foundation.StringTable
import AstraOS.Kernel.Strings
import AstraOS.Kernel.Transcript
import AstraOS.Kernel.Panic
import AstraOS.Kernel.DescriptorTables
import AstraOS.Kernel.InterruptPath
import AstraOS.Kernel.LiveInterrupts
import AstraOS.Kernel.EchoLoop
import AstraOS.Kernel.EchoProgress
import AstraOS.Kernel.EchoRefinement
import AstraOS.Kernel.Boot
import AstraOS.Kernel.BootState
import AstraOS.Kernel.SelfTest
import AstraOS.Memory.AllocationRun
import AstraOS.Kernel.BootToLoop

