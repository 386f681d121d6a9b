import Xv6.Bcache.Basic
import Xv6.Bcache.BlockStore
import Xv6.Bcache.Coherence
import Xv6.Bcache.Commit
import Xv6.Bcache.CommitLines
import Xv6.Bcache.Impl
import Xv6.Bcache.Lemmas
import Xv6.Bcache.LogSteps
import Xv6.Bcache.Lru
import Xv6.Bcache.Representation
import Xv6.Boot.Mp
import Xv6.Console.Impl
import Xv6.Console.LineDiscipline
import Xv6.Disk.Basic
import Xv6.Disk.Memide
import Xv6.Exec.AllOrNothing
import Xv6.Exec.Atomic
import Xv6.Exec.Copyout
import Xv6.Exec.Impl
import Xv6.Exec.Stack
import Xv6.Fs.Basic
import Xv6.Fs.Bitmap
import Xv6.Fs.ByteArray
import Xv6.Fs.ChunkCost
import Xv6.Fs.Content
import Xv6.Fs.Directory
import Xv6.Fs.FileWrite
import Xv6.Fs.Icache
import Xv6.Fs.Impl.Block
import Xv6.Fs.Impl.Calls
import Xv6.Fs.Impl.Dir
import Xv6.Fs.Impl.Inode
import Xv6.Fs.Layout
import Xv6.Fs.Lemmas.Block
import Xv6.Fs.Lemmas.Calls
import Xv6.Fs.Lemmas.Inode
import Xv6.Fs.Lemmas.Intact
import Xv6.Fs.Lemmas.Proper
import Xv6.Fs.Lemmas.Refs
import Xv6.Fs.Lemmas.Truncate
import Xv6.Fs.Ownership
import Xv6.Fs.Path
import Xv6.Fs.SharedFile
import Xv6.Grep.Lines
import Xv6.Grep.Match
import Xv6.Ide.Controller
import Xv6.Ide.Impl
import Xv6.Ide.Lemmas
import Xv6.Ide.Refinement
import Xv6.Lib.Bytes
import Xv6.Lib.Chunks
import Xv6.Lib.Circle
import Xv6.Lib.Copy
import Xv6.Lib.Count
import Xv6.Lib.Cursor
import Xv6.Lib.Extent
import Xv6.Lib.Fifo
import Xv6.Lib.Guard
import Xv6.Lib.Machine
import Xv6.Lib.Outcome
import Xv6.Lib.Owners
import Xv6.Lib.Probe
import Xv6.Lib.Reach
import Xv6.Lib.Ring
import Xv6.Lib.Slots
import Xv6.Lib.SpinLock
import Xv6.Lib.Tally
import Xv6.Lib.TwoLevel
import Xv6.Lib.Writes
import Xv6.LifeCycle.Basic
import Xv6.LifeCycle.Family
import Xv6.LifeCycle.OneCpu
import Xv6.LifeCycle.Pids
import Xv6.Lock.Deadlock
import Xv6.Lock.Interrupts
import Xv6.Lock.Paths
import Xv6.Log.Basic
import Xv6.Log.Crash
import Xv6.Log.GroupCommit
import Xv6.Log.Impl.Commit
import Xv6.Log.Impl.Transaction
import Xv6.Log.Lemmas.Transaction
import Xv6.Log.Reservation
import Xv6.Mem.Memmove
import Xv6.Pipe.Impl
import Xv6.Pipe.Stream
import Xv6.Pipe.Wakeups
import Xv6.Proc.Aging
import Xv6.Proc.Basic
import Xv6.Proc.Change
import Xv6.Proc.DeadPid
import Xv6.Proc.HandOff
import Xv6.Proc.Impl.Proc
import Xv6.Proc.Impl.Queue
import Xv6.Proc.Impl.Scheduler
import Xv6.Proc.Impl.Step
import Xv6.Proc.Lemmas.Core
import Xv6.Proc.Lemmas.Effect
import Xv6.Proc.Lemmas.Holding
import Xv6.Proc.Lemmas.Lists
import Xv6.Proc.Lemmas.Pick
import Xv6.Proc.Lemmas.Queue
import Xv6.Proc.Lemmas.Refine
import Xv6.Proc.Lemmas.Scheduler
import Xv6.Proc.Lemmas.Step
import Xv6.Proc.Listing
import Xv6.Proc.Members
import Xv6.Proc.Queues
import Xv6.Proc.Ratios
import Xv6.Proc.Recycle
import Xv6.Proc.Removal
import Xv6.Proc.Room
import Xv6.Proc.RoundRobin
import Xv6.Proc.Selection
import Xv6.Proc.TimeSlot
import Xv6.Proc.WorkConservation
import Xv6.Sh.Grammar
import Xv6.Sh.Impl
import Xv6.Sh.Lemmas
import Xv6.Sh.Parser
import Xv6.Sh.Run
import Xv6.Sleep.Impl
import Xv6.Sleep.Lemmas
import Xv6.Sleep.LostWakeup
import Xv6.Sleep.SleepLock
import Xv6.Syscall.Args
import Xv6.Sysfile.Counts
import Xv6.Sysfile.Impl
import Xv6.Sysfile.InodeRefs
import Xv6.Sysfile.OpenFiles
import Xv6.Sysfile.WriteThrough
import Xv6.Umalloc.Allocator
import Xv6.Umalloc.Free
import Xv6.Umalloc.Impl
import Xv6.Umalloc.Lemmas
import Xv6.Umalloc.Sizes
import Xv6.Vm.Boot
import Xv6.Vm.Calls
import Xv6.Vm.CopyUvm
import Xv6.Vm.Impl
import Xv6.Vm.Ownership
import Xv6.Vm.Pages
import Xv6.Vm.Resize
import Xv6.Vm.Sbrk
import Xv6.Vm.Tables
import Xv6.Vm.Words
