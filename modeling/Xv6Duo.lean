import Xv6Duo.Bcache.Exclusion
import Xv6Duo.Bcache.Model
import Xv6Duo.Buddy.BestFit
import Xv6Duo.Buddy.Calls
import Xv6Duo.Buddy.Concurrent
import Xv6Duo.Buddy.FirstPage
import Xv6Duo.Buddy.Invariant
import Xv6Duo.Buddy.Model
import Xv6Duo.Buddy.Runs
import Xv6Duo.Descriptor.Duplicate
import Xv6Duo.Descriptor.Model
import Xv6Duo.Descriptor.Pipes
import Xv6Duo.Dir.Access
import Xv6Duo.Dir.Alike
import Xv6Duo.Dir.Counts
import Xv6Duo.Dir.Create
import Xv6Duo.Dir.Edits
import Xv6Duo.Dir.Failure
import Xv6Duo.Dir.Follow
import Xv6Duo.Dir.Getcwd
import Xv6Duo.Dir.Holds
import Xv6Duo.Dir.Links
import Xv6Duo.Dir.Lookup
import Xv6Duo.Dir.Mkfs
import Xv6Duo.Dir.Model
import Xv6Duo.Dir.Namex
import Xv6Duo.Dir.Open
import Xv6Duo.Dir.Pass
import Xv6Duo.Dir.Processes
import Xv6Duo.Dir.Readlink
import Xv6Duo.Dir.Runs
import Xv6Duo.Dir.Sound
import Xv6Duo.Dir.Syscalls
import Xv6Duo.Dir.Terminate
import Xv6Duo.Dir.Unlink
import Xv6Duo.Dir.Walk
import Xv6Duo.Errno
import Xv6Duo.Exec.Heap
import Xv6Duo.Exec.Model
import Xv6Duo.Exec.Segments
import Xv6Duo.Exec.Stack
import Xv6Duo.Fault
import Xv6Duo.Fs.Allocation
import Xv6Duo.Fs.Bio
import Xv6Duo.Fs.Blocks
import Xv6Duo.Fs.BusyBuffer
import Xv6Duo.Fs.Cache
import Xv6Duo.Fs.CacheRuns
import Xv6Duo.Fs.Coherence
import Xv6Duo.Fs.Content
import Xv6Duo.Fs.Directory
import Xv6Duo.Fs.Dirent
import Xv6Duo.Fs.Eviction
import Xv6Duo.Fs.FileArray
import Xv6Duo.Fs.FileRuns
import Xv6Duo.Fs.Getdents
import Xv6Duo.Fs.Inode
import Xv6Duo.Fs.Mapping
import Xv6Duo.Fs.NameMap
import Xv6Duo.Fs.ReadWrite
import Xv6Duo.Fs.Report
import Xv6Duo.Fs.ShortWrite
import Xv6Duo.Fs.Shortage
import Xv6Duo.Fs.TornWrite
import Xv6Duo.Fs.Tree
import Xv6Duo.Fs.Truncate
import Xv6Duo.Fs.Volume
import Xv6Duo.Kmalloc.Blocks
import Xv6Duo.Kmalloc.Model
import Xv6Duo.Kmalloc.Ring
import Xv6Duo.Kmalloc.Runs
import Xv6Duo.Library.ByteBlock
import Xv6Duo.Library.Cycle
import Xv6Duo.Library.DyadicPartition
import Xv6Duo.Library.Ensures
import Xv6Duo.Library.Gregorian
import Xv6Duo.Library.GuardedRun
import Xv6Duo.Library.IntervalMap
import Xv6Duo.Library.Longs
import Xv6Duo.Library.Packing
import Xv6Duo.Library.PointerChain
import Xv6Duo.Library.RadixTree
import Xv6Duo.Library.Ring
import Xv6Duo.Library.RingBuffer
import Xv6Duo.Library.SlotTable
import Xv6Duo.Library.SwapReverse
import Xv6Duo.Library.Trail
import Xv6Duo.Library.Words
import Xv6Duo.Mapping.Brk
import Xv6Duo.Mapping.Contents
import Xv6Duo.Mapping.CopyOnWrite
import Xv6Duo.Mapping.Copyout
import Xv6Duo.Mapping.Files
import Xv6Duo.Mapping.Fixed
import Xv6Duo.Mapping.Load
import Xv6Duo.Mapping.Model
import Xv6Duo.Mapping.Outcome
import Xv6Duo.Mapping.PageFault
import Xv6Duo.Mapping.Pages
import Xv6Duo.Mapping.Position
import Xv6Duo.Mapping.Regions
import Xv6Duo.Mapping.UserCopy
import Xv6Duo.Mapping.Writeback
import Xv6Duo.Mmap.Fixed
import Xv6Duo.Mmap.Model
import Xv6Duo.Mmap.Select
import Xv6Duo.Mmap.Unmap
import Xv6Duo.Process.Credentials
import Xv6Duo.Process.Family
import Xv6Duo.Process.Fork
import Xv6Duo.Process.Groups
import Xv6Duo.Process.Handover
import Xv6Duo.Process.History
import Xv6Duo.Process.Setpgid
import Xv6Duo.Process.Setuid
import Xv6Duo.Process.Table
import Xv6Duo.Process.Wait
import Xv6Duo.Rtc.Calendar
import Xv6Duo.Rtc.Model
import Xv6Duo.Signal.Blocking
import Xv6Duo.Signal.Calls
import Xv6Duo.Signal.Kill
import Xv6Duo.Signal.Machine
import Xv6Duo.Signal.Model
import Xv6Duo.Signal.Return
import Xv6Duo.Signal.Sets
import Xv6Duo.Signal.Targets
import Xv6Duo.Slab.Backing
import Xv6Duo.Slab.Layout
import Xv6Duo.Slab.Locks
import Xv6Duo.Slab.Model
import Xv6Duo.Slab.Runs
import Xv6Duo.Stream.Console
import Xv6Duo.Stream.Delivery
import Xv6Duo.Stream.Pipe
import Xv6Duo.Stream.Uart
import Xv6Duo.Sync.Balance
import Xv6Duo.Sync.Discipline
import Xv6Duo.Sync.Exclusion
import Xv6Duo.Sync.Kernel
import Xv6Duo.Sync.Model
import Xv6Duo.Sync.Runs
import Xv6Duo.Sync.Safety
import Xv6Duo.Sync.Sleeping
import Xv6Duo.Sync.Sleeplock
import Xv6Duo.Usr.Grep
import Xv6Duo.Usr.Mysh.Grammar
import Xv6Duo.Usr.Mysh.Model
import Xv6Duo.Usr.Mysh.Print
import Xv6Duo.Usr.Mysh.Run
import Xv6Duo.Usr.Mysh.Strings
import Xv6Duo.Usr.Mysh.Tokens
import Xv6Duo.Vfs.Append
import Xv6Duo.Vfs.Files
import Xv6Duo.Vfs.Model
import Xv6Duo.Vfs.Relative
import Xv6Duo.Vfs.Report
import Xv6Duo.Vfs.Seek
import Xv6Duo.Vfs.Sendfile
import Xv6Duo.Vfs.Syscalls
import Xv6Duo.Vfs.Vectored
import Xv6Duo.Vm.Copy
import Xv6Duo.Vm.CopyModel
import Xv6Duo.Vm.Map
import Xv6Duo.Vm.Model
import Xv6Duo.Vm.Pte
import Xv6Duo.Vm.Runs
import Xv6Duo.Vm.Tree
