import HwrunOs.Library.Bytes
import HwrunOs.Library.Paths
import HwrunOs.Library.Runs
import HwrunOs.Library.Cbc
import HwrunOs.Library.Shell
import HwrunOs.Library.Loops
import HwrunOs.Library.Transducers
import HwrunOs.Bus.Started
import HwrunOs.Bus.Lifecycle
import HwrunOs.Bus.BootChain
import HwrunOs.Bus.RouteMap
import HwrunOs.Bus.KernelRoute
import HwrunOs.Storage.Restart
import HwrunOs.Storage.Overlap
import HwrunOs.Storage.SnapshotRace
import HwrunOs.Audit.Retained
import HwrunOs.Sp.Authenticated
import HwrunOs.Sp.Disabled
import HwrunOs.Sp.Reload
import HwrunOs.Sp.Accounts
import HwrunOs.Bus.Exclusion
import HwrunOs.Bus.Runtime
import HwrunOs.Audit.Export
import HwrunOs.Library.KeyTree
import HwrunOs.Param.Tree
import HwrunOs.Param.File
import HwrunOs.Param.RoundTrip
import HwrunOs.Bus.Configure
import HwrunOs.Bus.ConfigureRace
import HwrunOs.Storage.Rollback
import HwrunOs.Library.Files
import HwrunOs.Storage.CopyTree
import HwrunOs.Storage.CopySpec
import HwrunOs.Storage.CopyImage
import HwrunOs.Storage.SnapshotFiles
import HwrunOs.Storage.SnapshotRestore
import HwrunOs.Permission.Load
import HwrunOs.Permission.Decision
import HwrunOs.Audit.Sequence
import HwrunOs.Crypto.Operations
import HwrunOs.Crypto.Bounds
import HwrunOs.Git.Executor
import HwrunOs.Git.Commit
import HwrunOs.Git.Audit
import HwrunOs.Compress.Buffer
import HwrunOs.Compress.Termination
import HwrunOs.Library.Machines
import HwrunOs.Compress.Stored
import HwrunOs.Compress.File
import HwrunOs.Compress.FileLoops
import HwrunOs.Compress.DataLoss
import HwrunOs.Compress.RoundTrip
import HwrunOs.Sp.SaveRace
import HwrunOs.Bus.Yml
import HwrunOs.Library.Endian
import HwrunOs.Loader.ElfFields
import HwrunOs.Loader.ElfReads
import HwrunOs.Permission.SaveRace
import HwrunOs.Library.Positions
import HwrunOs.Param.Walk
import HwrunOs.Bus.Revision
import HwrunOs.Bus.Subscribe
import HwrunOs.Param.FiniteMap
import HwrunOs.Console.Session
import HwrunOs.Console.Queue
import HwrunOs.Audit.Query
import HwrunOs.Pmp.Task
import HwrunOs.Pmp.Settled
import HwrunOs.Pmp.Report
import HwrunOs.Storage.SnapshotNames
import HwrunOs.Storage.VolumeNames
import HwrunOs.Bus.Dependencies
import HwrunOs.Bus.RegistryRace
import HwrunOs.Library.Leases
import HwrunOs.Terminal.Session
import HwrunOs.Terminal.Reach
import HwrunOs.Kernel.Protocols
import HwrunOs.Permission.Stability
import HwrunOs.Np.Conn
import HwrunOs.Pmp.Cancel
import HwrunOs.Sp.Keys
import HwrunOs.Np.Threads
import HwrunOs.Storage.RootGuard
import HwrunOs.Library.Words
import HwrunOs.Shell.Line
import HwrunOs.Shell.Arguments
import HwrunOs.Bus.StartResult
import HwrunOs.Bus.Routes
import HwrunOs.Loader.Run
import HwrunOs.Sp.MacLength
import HwrunOs.Library.Rings
import HwrunOs.Permission.Glob
import HwrunOs.Shell.History
import HwrunOs.Library.Tables
import HwrunOs.Np.ConnTable
import HwrunOs.Loader.Interp
import HwrunOs.Loader.Shebang
import HwrunOs.Fsp.Path
import HwrunOs.Fsp.Parent
import HwrunOs.Audit.Failures
import HwrunOs.Bus.YmlItems
import HwrunOs.Library.ShellText
import HwrunOs.Library.SimpleCommands
import HwrunOs.Shell.Handed
import HwrunOs.Git.Blame
import HwrunOs.Sp.Quote
import HwrunOs.Param.Delivered
import HwrunOs.Bus.Versions
import HwrunOs.Storage.SnapshotPaths
import HwrunOs.Console.Status
import HwrunOs.Sp.RoundTrip
import HwrunOs.Audit.Accepted
import HwrunOs.Compress.Capacity
import HwrunOs.Library.Numbers
import HwrunOs.Audit.Size
import HwrunOs.Library.Lines
import HwrunOs.Library.Scanf
import HwrunOs.Hap.Cpu
import HwrunOs.Git.Log
import HwrunOs.Np.NetDev
import HwrunOs.Hap.Net
import HwrunOs.Np.Gateway
import HwrunOs.Hap.System
import HwrunOs.Fsp.MountNames
import HwrunOs.Fsp.Mounts
import HwrunOs.Crypto.Reverse
import HwrunOs.Np.Stats
import HwrunOs.Library.FirstFit
import HwrunOs.Hap.Disk
import HwrunOs.Hap.DiskMounts
import HwrunOs.Pmp.ProcessInfo
import HwrunOs.Hap.LineValue
import HwrunOs.Hap.Memory
import HwrunOs.Library.Sections
import HwrunOs.Bus.Lock
import HwrunOs.Bus.LogLines
import HwrunOs.Param.Linear
import HwrunOs.Library.Replace
import HwrunOs.Permission.Crash
import HwrunOs.Library.Roles
import HwrunOs.Permission.Refine
import HwrunOs.Shell.Eval
import HwrunOs.Shell.Session
import HwrunOs.Library.Answering
import HwrunOs.Kernel.Client
import HwrunOs.Library.QuotedWords
import HwrunOs.Git.Operations
import HwrunOs.Param.Cli
import HwrunOs.Console.Board
import HwrunOs.Git.Config
import HwrunOs.Sp.Durable
