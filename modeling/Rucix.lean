import Rucix.Ipc.Pipe.Stream
import Rucix.Memory.Pmm.Accounting
import Rucix.Memory.Heap.Order
import Rucix.Memory.Vmm.Refinement
import Rucix.Lib.RadixTree.Shape
import Rucix.Sched.Mlfq
import Rucix.Security.Seccomp.Narrowing
import Rucix.Process.References.Sharing
import Rucix.Fs.Filemap.Contents
import Rucix.Fs.Buffer.Read
import Rucix.Fs.Ramfs.Runs
import Rucix.Sched.SleepOn
import Rucix.Sync.RwLock
import Rucix.Sync.Semaphore
import Rucix.Sync.Barrier
import Rucix.Ipc.Msg.Mailbox
import Rucix.Ipc.Msg.Receive
import Rucix.Sched.RtRuns
import Rucix.Fs.Buffer.Accounting
import Rucix.Block.Bookkeeping
import Rucix.Fs.Filemap.Counts
import Rucix.Fs.Ramfs.Holes
import Rucix.Fs.OpenFiles.PipeEnds
import Rucix.Fs.Dcache.Liveness
import Rucix.Ipc.Signal.Trampoline
import Rucix.Net.Frames
import Rucix.Net.Ownership
import Rucix.Drivers.Xhci
import Rucix.Drivers.Binding
import Rucix.Time.Hrtimer.Expiry
import Rucix.Process.Creation
import Rucix.Sched.Sleepers
import Rucix.Block.Ahci
import Rucix.Block.Ramdisk
import Rucix.Fs.Buffer.Sync
import Rucix.Fs.EndOfFile
import Rucix.Fs.Fat32.Mount
import Rucix.Fs.Fat32.Contents
import Rucix.Fs.Ramfs.Bounds
import Rucix.Fs.Ramfs.Paths
import Rucix.Fs.Ramfs.Splitters
import Rucix.Fs.SuperBlock
import Rucix.Ipc.Msg.Sizes
import Rucix.Net.Checksum
import Rucix.Net.Layout
import Rucix.Time.Clock
import Rucix.Ipc.Signal.Nesting
import Rucix.Lib.Memory
import Rucix.Sched.RtPriority
import Rucix.Security.Seccomp.Verdicts
import Rucix.Sync.Boosts
