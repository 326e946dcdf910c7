import Modern05.Framework.LTS
import Modern05.Framework.Prog
import Modern05.Framework.Ring
import Modern05.Framework.HeapTree
import Modern05.Lib.Utils
import Modern05.Mm.BuddyAllocator
import Modern05.Mm.BuddyLists
import Modern05.Mm.BuddyTree
import Modern05.Mm.BuddyOps
import Modern05.Mm.BuddyRuns
import Modern05.Mm.BuddyRegion
import Modern05.Mm.BuddyUsage
import Modern05.Mm.BuddyAddresses
import Modern05.Mm.BuddyMisuse
import Modern05.Mm.BuddyInterrupts
import Modern05.Common.SmallVec
import Modern05.Mm.PageAllocatorInit
import Modern05.Framework.Memory
import Modern05.Framework.PageTable
import Modern05.Mm.PageAlloc
import Modern05.Mm.Kmalloc
import Modern05.Mm.SmallestBlocks
import Modern05.Kernel.Process
import Modern05.Kernel.UserTables
import Modern05.Kernel.Isolation
import Modern05.Mm.BuddySafety
import Modern05.Kernel.Entry
import Modern05.Kernel.Interrupts
import Modern05.Kernel.HandlerTables
import Modern05.Framework.Loop
import Modern05.Framework.Rotation
import Modern05.Kernel.Schedule
import Modern05.Kernel.ContextSwitch
import Modern05.Common.SSQueue
import Modern05.Device.Rtl8139
import Modern05.Device.Receive
import Modern05.Net.Arp
import Modern05.Device.Transmit
import Modern05.Device.TxAsync
import Modern05.Kernel.UserMappings
import Modern05.Mm.KernelTables
import Modern05.Mm.StrayMappings
import Modern05.Kernel.AnonMemory
import Modern05.Kernel.UserPointers
import Modern05.Device.Ahci
import Modern05.Net.ArpReply
import Modern05.Net.Frames
import Modern05.Device.Loopback
import Modern05.Fs.MemFs
import Modern05.Fs.MemFile
import Modern05.Framework.AddressSpace
import Modern05.Elf.Format
import Modern05.Kernel.LoadElf
import Modern05.Boot.LoadKernel
import Modern05.Device.BounceBuffer
import Modern05.Device.Gpt
import Modern05.Device.GptVector
import Modern05.Device.GptRounds
import Modern05.Device.GptBounds
import Modern05.Device.GptListing
import Modern05.Framework.Crc
import Modern05.Device.Checksum
import Modern05.Common.Unwind
import Modern05.Lib.String
import Modern05.Device.Madt
import Modern05.Device.PciBar
import Modern05.Device.Pci
import Modern05.Device.PciCoverage
import Modern05.Mm.RegionChoice
import Modern05.Kernel.Kyield
import Modern05.Kernel.ProcessMemory
import Modern05.Kernel.ProcessTable
import Modern05.Lib.Memory
import Modern05.Framework.Path
import Modern05.Mm.FixedBlockAllocator
import Modern05.Lib.SerialPort
import Modern05.Framework.Lock
import Modern05.Net.ArpThreads
import Modern05.Device.IoApic
import Modern05.Device.Apic
import Modern05.Kernel.ExecMain
import Modern05.Net.ArpService
import Modern05.Boot.EfiMain
import Modern05.Device.AhciCommand
import Modern05.Device.AhciPort
import Modern05.Device.AhciRuns
