import FeaturesOS.Machine
import FeaturesOS.CString
import FeaturesOS.LittleEndian
import FeaturesOS.Stack
import FeaturesOS.FileSystem.Superblock
import FeaturesOS.FileSystem.Fisopfs
import FeaturesOS.FileSystem.Table
import FeaturesOS.FileSystem.Contents
import FeaturesOS.FileSystem.Directory
import FeaturesOS.FileSystem.Path
import FeaturesOS.FileSystem.Namespace
import FeaturesOS.FileSystem.Image
import FeaturesOS.FileSystem.Persistence
import FeaturesOS.FileSystem.Loading
import FeaturesOS.FileSystem.Mounts
import FeaturesOS.FileSystem.Terminators
import FeaturesOS.FileSystem.Lines
import FeaturesOS.FileSystem.Creation
import FeaturesOS.FileSystem.PathArrays
import FeaturesOS.FileSystem.Volume
import FeaturesOS.FileSystem.Exchanges
import FeaturesOS.FileSystem.Answering
import FeaturesOS.FileSystem.Drives
import FeaturesOS.Shell.Parsing
import FeaturesOS.Shell.Pipeline
import FeaturesOS.Shell.Processes
import FeaturesOS.Shell.Plumbing
import FeaturesOS.Shell.Waiting
import FeaturesOS.Shell.Jobs
import FeaturesOS.Shell.Reaping
import FeaturesOS.Control
import FeaturesOS.Interleaving
import FeaturesOS.LinkedList
import FeaturesOS.References
import FeaturesOS.Sharing
import FeaturesOS.Simulation
import FeaturesOS.Ring
import FeaturesOS.Copying
import FeaturesOS.Sieve
import FeaturesOS.Scheduler.Layout
import FeaturesOS.Scheduler.Pmap
import FeaturesOS.Scheduler.Env
import FeaturesOS.Scheduler.Roster
import FeaturesOS.Scheduler.Sched
import FeaturesOS.Scheduler.Syscall
import FeaturesOS.Scheduler.Trap
import FeaturesOS.Scheduler.Frames
import FeaturesOS.Scheduler.CurrentEnv
import FeaturesOS.Scheduler.CurrentEnvTrap
import FeaturesOS.Scheduler.Boot
import FeaturesOS.Scheduler.Multiprocessor
import FeaturesOS.Scheduler.KernelLock
import FeaturesOS.Scheduler.LockRuns
import FeaturesOS.Scheduler.Printfmt
import FeaturesOS.Scheduler.Printf
import FeaturesOS.Scheduler.Strtol
import FeaturesOS.Scheduler.Kdebug
import FeaturesOS.Scheduler.Blocks
import FeaturesOS.Scheduler.Primes
import FeaturesOS.Scheduler.Cola
import FeaturesOS.Scheduler.Ledger
import FeaturesOS.Scheduler.Queues
import FeaturesOS.Scheduler.QueueCalls
import FeaturesOS.Scheduler.QueueRuns
import FeaturesOS.Scheduler.EnvIds
import FeaturesOS.Scheduler.Priorities
import FeaturesOS.Scheduler.Yields
import FeaturesOS.Scheduler.Selection
import FeaturesOS.Scheduler.ColaRuns
import FeaturesOS.Scheduler.Overtaking
import FeaturesOS.Scheduler.Deeds
import FeaturesOS.Scheduler.DeedsTrap
import FeaturesOS.Scheduler.Orderly
import FeaturesOS.Scheduler.Bystanders
import FeaturesOS.Scheduler.Mail
import FeaturesOS.Scheduler.Rendezvous
import FeaturesOS.Scheduler.PrimesCalls
import FeaturesOS.Scheduler.Zombies
import FeaturesOS.Scheduler.RoundRobin
import FeaturesOS.Scheduler.Counters
import FeaturesOS.Scheduler.UserMemory
import FeaturesOS.Scheduler.PageFault
import FeaturesOS.Scheduler.Upcall
import FeaturesOS.Scheduler.FaultRuns
import FeaturesOS.Scheduler.TrapEntry
import FeaturesOS.Scheduler.Books
import FeaturesOS.Scheduler.PageTree
import FeaturesOS.Scheduler.Accounts
import FeaturesOS.Scheduler.PageMaps
import FeaturesOS.Scheduler.AddressSpaces
import FeaturesOS.Scheduler.MapUpdate
import FeaturesOS.Scheduler.PageCalls
import FeaturesOS.Scheduler.Spaces
import FeaturesOS.Scheduler.Entries
import FeaturesOS.Scheduler.AccountCalls
import FeaturesOS.Scheduler.Transfers
import FeaturesOS.Scheduler.AccountRuns
import FeaturesOS.Scheduler.Isolation
import FeaturesOS.Scheduler.PageMessages
import FeaturesOS.Scheduler.PageRuns
import FeaturesOS.Scheduler.UserChecks
import FeaturesOS.Scheduler.ExceptionStack
import FeaturesOS.Scheduler.CopyOnWrite
import FeaturesOS.Scheduler.PageContents
import FeaturesOS.Scheduler.PageCopies
import FeaturesOS.Scheduler.EntryChanges
import FeaturesOS.Scheduler.FaultEntries
import FeaturesOS.Scheduler.Fork
import FeaturesOS.Scheduler.Windows
import FeaturesOS.Scheduler.ForkSteps
import FeaturesOS.Scheduler.Severed
import FeaturesOS.Scheduler.Spawning
import FeaturesOS.Scheduler.ForkIsolation
import FeaturesOS.Scheduler.ForkRuns
import FeaturesOS.Scheduler.QueueSteps
import FeaturesOS.Scheduler.Removal
import FeaturesOS.Scheduler.Assignment
import FeaturesOS.Shell.Words
import FeaturesOS.Shell.Background
import FeaturesOS.Shell.Commands
import FeaturesOS.Shell.Buffers
import FeaturesOS.Shell.Environment
import FeaturesOS.Shell.Redirections
import FeaturesOS.Scheduler.BootMap
import FeaturesOS.Scheduler.LargePages
