import Nachos.Proofs.Filesys.SynchDisk
import Nachos.Threads.Semaphore
import Nachos.Proofs.Threads.Semaphore
import Nachos.Lib.Bitmap
import Nachos.Proofs.Lib.Bitmap
import Nachos.Machine.Tlb
import Nachos.Machine.Translate
import Nachos.Proofs.Vm.PageFault
import Nachos.Proofs.Vm.FrameTable
import Nachos.Proofs.Machine.Tlb
import Nachos.Proofs.Vm.OwnWrites
import Nachos.Proofs.Vm.Isolation
import Nachos.Filesys.FileHeader
import Nachos.Filesys.Directory
import Nachos.Filesys.FileSystem
import Nachos.Proofs.Filesys.Kernel
import Nachos.Proofs.Filesys.FileHeader
import Nachos.Proofs.Filesys.Layout
import Nachos.Proofs.Filesys.OpenFile
import Nachos.Proofs.Filesys.Allocate
import Nachos.Proofs.Filesys.WriteAt
import Nachos.Proofs.Threads.Lock
import Nachos.Threads.Condition
import Nachos.Proofs.Threads.Condition
import Nachos.Lib.List
import Nachos.Proofs.Lib.List
import Nachos.Threads.SynchList
import Nachos.Proofs.Threads.SynchList
import Nachos.Machine.Interrupt
import Nachos.Machine.Console
import Nachos.Proofs.Machine.Console
import Nachos.Userprog.SynchConsole
import Nachos.Proofs.Userprog.SynchConsole
import Nachos.Proofs.Machine.Interrupt
import Nachos.Threads.Scheduler
import Nachos.Proofs.Threads.Scheduler
import Nachos.Filesys.SynchDiskSystem
import Nachos.Proofs.Filesys.SynchDiskSystem
import Nachos.Coff2noff.Coff2noff
import Nachos.Proofs.Vm.DemandPaging
import Nachos.Machine.Instruction
import Nachos.Machine.Mipssim
import Nachos.Proofs.Machine.Mipssim
import Nachos.Network.Packet
import Nachos.Proofs.Network.Packet
import Nachos.Network.PostOffice
import Nachos.Proofs.Network.Steps
import Nachos.Proofs.Network.PostOffice
import Nachos.Proofs.Filesys.Contents
import Nachos.Proofs.Filesys.Sequential
import Nachos.Theory.Ownership
import Nachos.Proofs.Filesys.Directory
import Nachos.Proofs.Filesys.Sound
import Nachos.Proofs.Filesys.Paths
import Nachos.Proofs.Filesys.Deallocate
import Nachos.Proofs.Filesys.Remove
import Nachos.Proofs.Filesys.Create
import Nachos.Proofs.Filesys.Preserve
import Nachos.Proofs.Filesys.Format
import Nachos.Filesys.Session
import Nachos.Proofs.Filesys.Session
import Nachos.Proofs.Filesys.SectorOwnership
import Nachos.Proofs.Filesys.Removal
import Nachos.Proofs.Filesys.TreeWalk
import Nachos.Proofs.Filesys.DirectoryTree
import Nachos.Proofs.Filesys.FailedCreate
import Nachos.Filesys.Restart
import Nachos.Proofs.Filesys.Restart
import Nachos.Threads.Main
import Nachos.Proofs.Vm.BackingStore
import Nachos.Proofs.Vm.LoadedPage
import Nachos.Proofs.Threads.Dispatch
import Nachos.Proofs.Threads.UserState
import Nachos.Threads.IntLevel
import Nachos.Proofs.Threads.IntLevel
import Nachos.Filesys.Sharing
import Nachos.Proofs.Filesys.Sharing
import Nachos.Proofs.Threads.Main
import Nachos.Proofs.Vm.TlbRuns
import Nachos.Proofs.Vm.TlbShortcut
import Nachos.Proofs.Vm.Shape
import Nachos.Proofs.Vm.Resolve
import Nachos.Proofs.Vm.Stale
import Nachos.Proofs.Vm.Quota
import Nachos.Proofs.Network.Harmless
import Nachos.Proofs.Machine.Effect
import Nachos.Proofs.Machine.WellFormed
import Nachos.Proofs.Machine.Precise
import Nachos.Proofs.Vm.VirtualMemory
import Nachos.Proofs.Machine.Invisible
import Nachos.Proofs.Machine.Reaches
import Nachos.Threads.ThreadManager
import Nachos.Proofs.Threads.ThreadManager
import Nachos.Threads.Children
import Nachos.Proofs.Threads.Children
import Nachos.Proofs.Threads.Parents
import Nachos.Proofs.Threads.RoundRobin
import Nachos.Proofs.Filesys.BlockMap
import Nachos.Proofs.Filesys.Counts
import Nachos.Filesys.CheckedFile
import Nachos.Proofs.Filesys.CheckedFile
import Nachos.Proofs.Filesys.CacheReplacement
import Nachos.Theory.Least
import Nachos.Proofs.Vm.PageReplacement
import Nachos.Proofs.Machine.TlbReplacement
import Nachos.Userprog.Translate
import Nachos.Proofs.Userprog.Translate
import Nachos.Proofs.Coff2noff.Sections
import Nachos.Proofs.Vm.CreateSpace
import Nachos.Proofs.Coff2noff.Faithful
import Nachos.Proofs.Coff2noff.Uninit
import Nachos.Theory.Interval
import Nachos.Proofs.Userprog.Covers
import Nachos.Filesys.CheckedPath
import Nachos.Proofs.Filesys.NoComponent
import Nachos.Proofs.Filesys.Pipe
import Nachos.Proofs.Machine.Mult
import Nachos.Proofs.Machine.Arithmetic
import Nachos.Theory.Lanes
import Nachos.Proofs.Machine.Unaligned
import Nachos.Machine.DiskLatency
import Nachos.Proofs.Machine.DiskLatency
import Nachos.Theory.Linked
import Nachos.Lib.LinkedList
import Nachos.Proofs.Lib.LinkedList
import Nachos.Proofs.Lib.SortedList
import Nachos.Lib.HashTable
import Nachos.Proofs.Lib.HashTable
import Nachos.Theory.Pool
import Nachos.Proofs.Lib.BitmapSet
import Nachos.Filesys.Listing
import Nachos.Proofs.Filesys.Listing
import Nachos.Proofs.Filesys.StoredNames
import Nachos.Theory.Linearizable
import Nachos.Proofs.Filesys.AtomicDisk
import Nachos.Proofs.Threads.AtomicList
import Nachos.Userprog.SynchConsoleOutput
import Nachos.Proofs.Userprog.SynchConsoleOutput
import Nachos.Proofs.Threads.SemaphoreRefinement
import Nachos.Machine.Timer
import Nachos.Proofs.Machine.Timer
import Nachos.Threads.Switch
import Nachos.Proofs.Threads.Switch
import Nachos.Theory.FileTree
import Nachos.Proofs.Filesys.TreeSystem
import Nachos.Proofs.Filesys.TreeRefinement
import Nachos.Theory.Backward
import Nachos.Proofs.Vm.FlatMemory
import Nachos.Proofs.Vm.FlatMachine
import Nachos.Theory.Progress
import Nachos.Proofs.Threads.LockProgress
import Nachos.Proofs.Network.Sending
import Nachos.Proofs.Network.Calls
import Nachos.Threads.NetworkTest
import Nachos.Proofs.Threads.NetworkTest
import Nachos.Threads.ConsoleTest
import Nachos.Proofs.Userprog.ConsoleCalls
import Nachos.Proofs.Threads.ConsoleTest
import Nachos.Proofs.Vm.ConvertedProgram
