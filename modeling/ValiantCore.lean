import ValiantCore.SchedulerAccounting
import ValiantCore.SchedulerCopies
import ValiantCore.SchedulerReuse
import ValiantCore.SchedulerWakeup
import ValiantCore.TaskEntry
import ValiantCore.TimerInterrupt
import ValiantCore.Paging
import ValiantCore.VefLoader
import ValiantCore.Fat32Read
import ValiantCore.SharedDisk
import ValiantCore.VfsTables
import ValiantCore.SecurityLedger
import ValiantCore.VefLoading
import ValiantCore.Kheap
import ValiantCore.SafeDisk
import ValiantCore.Ahci
import ValiantCore.SchedulerRounds
import ValiantCore.TaskNames
import ValiantCore.SchedulerSleep
import ValiantCore.Keyboard
import ValiantCore.AtaStatus
import ValiantCore.VfsSync
import ValiantCore.VfsErrors
import ValiantCore.VfsListing
import ValiantCore.Fat32Turns
import ValiantCore.Fat32Retry
import ValiantCore.Fat32Links
import ValiantCore.Fat32Walk
import ValiantCore.Fat32Scans
import ValiantCore.Fat32Cover
import ValiantCore.Fat32Names
import ValiantCore.Fat32Alloc
import ValiantCore.Rtl8111
import ValiantCore.Rtl8111Transmit
import ValiantCore.Fat32Exclusive
import ValiantCore.KheapBounds
import ValiantCore.SafeDiskChecksum
import ValiantCore.SecurityScan
import ValiantCore.PagingRights
import ValiantCore.AhciCommand
import ValiantCore.Rtl8111Polls
import ValiantCore.Rtl8111Frames
import ValiantCore.KeyboardShift
import ValiantCore.Reading
import ValiantCore.Pci
import ValiantCore.PciEnumeration
import ValiantCore.PitSleep
import ValiantCore.Multiboot2
import ValiantCore.Stdio
import ValiantCore.Framebuffer
import ValiantCore.PsfFont
import ValiantCore.Console
import ValiantCore.LoaderWindow
import ValiantCore.LineWalk
import ValiantCore.FramebufferLine
import ValiantCore.FramebufferLine64
import ValiantCore.FramebufferCircle
import ValiantCore.PaddedFields
import ValiantCore.Fat32ShortNames
import ValiantCore.Interruption
import ValiantCore.AArch64System
import ValiantCore.ExceptionVectors
import ValiantCore.X86Stack
import ValiantCore.Descriptors
import ValiantCore.InterruptStubs
import ValiantCore.PriorityService
import ValiantCore.I8259
import ValiantCore.Raster
import ValiantCore.FramebufferPicture
import ValiantCore.BootScreen
import ValiantCore.ConsoleText
import ValiantCore.LineInput
import ValiantCore.Uart
import ValiantCore.Panic
import ValiantCore.Timer64
import ValiantCore.Gic64
import ValiantCore.AhciInit
import ValiantCore.AArch64Cores
import ValiantCore.Boot
import ValiantCore.VfsOnAta
import ValiantCore.KernelPanic
import ValiantCore.PitClock
import ValiantCore.Rtl8111Init
