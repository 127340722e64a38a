import KernelOs.HeapSafety
import KernelOs.HeapHistory
import KernelOs.PmmOwnership
import KernelOs.PmmAccounting
import KernelOs.FixedMemory
import KernelOs.ElfContents
import KernelOs.Isolation
import KernelOs.ReadyQueue
import KernelOs.Interleaving
import KernelOs.AddressSpaces
import KernelOs.EffectiveRights
import KernelOs.Tlb
import KernelOs.IdentityMap
import KernelOs.UserMappings
import KernelOs.FailedSetup
import KernelOs.LoaderSafety
import KernelOs.Lib.Cpu
import KernelOs.Interrupts
import KernelOs.InterruptLemmas
import KernelOs.Preemption
import KernelOs.KernelThreads
import KernelOs.PmmExact
import KernelOs.PmmRelease
import KernelOs.HeapExact
import KernelOs.Lib.WriteOnce
import KernelOs.RamfsMap
import KernelOs.Keyboard
import KernelOs.KeyboardBuffer
import KernelOs.Console
import KernelOs.Lib.Terminal
import KernelOs.ConsoleWindow
import KernelOs.TaskPool
import KernelOs.HeapCoalesce
import KernelOs.FailedCreation
import KernelOs.Lib.Numeral
import KernelOs.Printk
import KernelOs.PrintkNumbers
import KernelOs.PrintkFormat
import KernelOs.KeyboardExtended
import KernelOs.Lib.StackWords
import KernelOs.Stubs
import KernelOs.StubFrames
import KernelOs.CopyLoop
import KernelOs.TableFrames
import KernelOs.TableRuns
import KernelOs.Lib.Pic8259
import KernelOs.Pic
import KernelOs.Irq
import KernelOs.Lib.Segments
import KernelOs.Gdt
import KernelOs.UserMode
import KernelOs.Lib.Uart
import KernelOs.Serial
import KernelOs.PrintkText
import KernelOs.Screen
import KernelOs.Lib.Protected
import KernelOs.BootCode
import KernelOs.BootRoutines
import KernelOs.Boot
import KernelOs.UserMemory
