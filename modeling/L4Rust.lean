import L4Rust.Library.Exec
import L4Rust.Library.Unsigned
import L4Rust.Library.Memory
import L4Rust.Library.Alignment
import L4Rust.Library.LittleEndian
import L4Rust.Library.Cursor
import L4Rust.Library.Records
import L4Rust.Library.Footprint
import L4Rust.Library.Lists
import L4Rust.Library.Blocks
import L4Rust.Library.BinarySearch
import L4Rust.Library.Machine
import L4Rust.Library.Simulation
import L4Rust.Library.Service
import L4Rust.Library.History
import L4Rust.Library.Chains
import L4Rust.Library.Occupancy
import L4Rust.Library.Holdings
import L4Rust.Library.Ledger
import L4Rust.Library.Counters
import L4Rust.Library.Slab
import L4Rust.Library.VirtualTime
import L4Rust.Library.Paths
import L4Rust.Library.Text
import L4Rust.Library.Codes
import L4Rust.Library.Words
import L4Rust.Library.Sorting
import L4Rust.Library.Shell
import L4Rust.Library.Files
import L4Rust.Library.Regex
import L4Rust.Library.FreshNames
import L4Rust.L4Sys.IpcBasic
import L4Rust.L4Sys.Utcb
import L4Rust.L4Sys.SndFpage
import L4Rust.L4Sys.Factory
import L4Rust.L4Sys.Factory.Arguments
import L4Rust.L4.Error
import L4Rust.L4.MsgTag
import L4Rust.L4.ErrorReply
import L4Rust.L4.Registers
import L4Rust.L4.Registers.Steps
import L4Rust.L4.Registers.Bounds
import L4Rust.L4.Registers.Failures
import L4Rust.L4.Registers.RoundTrip
import L4Rust.L4.Registers.Strings
import L4Rust.L4.Utcb
import L4Rust.L4.Ipc.Serialise
import L4Rust.L4.Ipc.Iface
import L4Rust.L4.Ipc.Arguments
import L4Rust.L4.Ipc.Messages
import L4Rust.L4.Ipc.RequestFormat
import L4Rust.L4.Ipc.TypedItems
import L4Rust.L4.Ipc.ShortMessages
import L4Rust.L4.Ipc.Accounting
import L4Rust.L4.Ipc.RoundTrip
import L4Rust.L4.Ipc.Buffers
import L4Rust.L4.Ipc.ReceiveWindow
import L4Rust.L4.Ipc.ReceivedCaps
import L4Rust.L4.Ipc.Slots
import L4Rust.L4.Ipc.SlotCalls
import L4Rust.L4.Ipc.BufStr
import L4Rust.L4.Ipc.Server
import L4Rust.L4.Ipc.Rpc
import L4Rust.L4.Ipc.Rpc.Replies
import L4Rust.L4.Ipc.Rpc.Dispatch
import L4Rust.L4.Ipc.Rpc.Atomic
import L4Rust.L4.Scheduler.Autosar
import L4Rust.L4.Scheduler.Autosar.Queue
import L4Rust.L4.Scheduler.Autosar.Mutexes
import L4Rust.L4.Scheduler.Autosar.MostUrgent
import L4Rust.L4.Scheduler.Autosar.Inheritance
import L4Rust.L4.Scheduler.Autosar.Waiters
import L4Rust.L4.Scheduler.Autosar.ReadyQueue
import L4Rust.L4.Scheduler.Autosar.Places
import L4Rust.L4.Scheduler.Autosar.Ownership
import L4Rust.L4.Scheduler.Autosar.Boosts
import L4Rust.L4.Scheduler.Autosar.Deadlock
import L4Rust.L4.Scheduler.LinuxLike
import L4Rust.L4.Scheduler.LinuxLike.Queue
import L4Rust.L4.Scheduler.LinuxLike.Fairness
import L4Rust.L4.Scheduler.LinuxLike.Shares
import L4Rust.L4.Scheduler.LinuxLike.Arithmetic
import L4Rust.L4.Scheduler.LinuxLike.Waiting
import L4Rust.L4Derive.Iface
import L4Rust.L4Derive.Demand
import L4Rust.L4Derive.Export.ExternalIface
import L4Rust.L4Derive.Export.RpcMethod
import L4Rust.L4Derive.Export.ParameterList
import L4Rust.L4Derive.Export.Usage
import L4Rust.L4Derive.Export.Lifetimes
import L4Rust.L4Derive.Export.Declarations
import L4Rust.L4Derive.Export.Interface
import L4Rust.VirtioFrontend.Queue
import L4Rust.VirtioFrontend.Requests
import L4Rust.VirtioFrontend.Transport
import L4Rust.FdServer
import L4Rust.FdServer.Handlers
import L4Rust.FdServer.Descriptors
import L4Rust.FdServer.Counters
import L4Rust.FdServer.Replies
import L4Rust.FdServer.WatchPaths
import L4Rust.EpollServer
import L4Rust.EpollServer.Replies
import L4Rust.EpollServer.Descriptors
import L4Rust.L4reLibc.Lp64
import L4Rust.AioServer
import L4Rust.AioServer.Replies
import L4Rust.AioServer.Validation
import L4Rust.AioServer.ReadBuffers
import L4Rust.L4reLibc.Aio
import L4Rust.L4reLibc.Aio.Exchange
import L4Rust.L4reLibc.Aio.WriteRequest
import L4Rust.L4reLibc.Aio.Handles
import L4Rust.L4reLibc.Aio.Delivery
import L4Rust.L4reLibc.Aio.Failures
import L4Rust.L4reLibc.Aio.Completed
import L4Rust.L4reLibc.Aio.ListIo
import L4Rust.FsServer
import L4Rust.FsServer.Replies
import L4Rust.FsServer.VirtioDisk
import L4Rust.FsServer.FlatDisk
import L4Rust.FsServer.VirtioBlk
import L4Rust.FsServer.DiskErrors
import L4Rust.FsServer.DiskStack
import L4Rust.FsServer.Confinement
import L4Rust.FsServer.OpenFiles
import L4Rust.Servers.Replies
import L4Rust.Servers.Payloads
import L4Rust.NetClient
import L4Rust.NetServer
import L4Rust.NetServer.Protocol
import L4Rust.NetServer.Virtio
import L4Rust.NetServer.Frames
import L4Rust.DriverServer
import L4Rust.L4re.Sys
import L4Rust.LinuxShims
import L4Rust.LinuxShims.Handlers
import L4Rust.DriverPicker
import L4Rust.DriverPicker.Catalog
import L4Rust.DriverPicker.Menu
import L4Rust.L4.Cap
import L4Rust.L4re.Custody
