import MyHttp.Lib.Run
import MyHttp.Lib.Chunks
import MyHttp.ByteArray
import MyHttp.Theorems.ByteArray.Invariant
import MyHttp.Theorems.ByteArray.Capacity
import MyHttp.ByteArray.Flat
import MyHttp.Theorems.ByteArray.Refine
import MyHttp.Stream
import MyHttp.Theorems.Stream
import MyHttp.Config
import MyHttp.Theorems.Config
import MyHttp.Lib.Updates
import MyHttp.Log.Formatter
import MyHttp.Log.Logger
import MyHttp.Theorems.Log.Reconfigure
import MyHttp.Fiber
import MyHttp.Lib.Machine
import MyHttp.Timer
import MyHttp.IOManager.Workers
import MyHttp.Theorems.IOManager.WorkerSteps
import MyHttp.Theorems.IOManager.Shutdown
import MyHttp.Theorems.IOManager.Wakeup
import MyHttp.Scheduler
import MyHttp.Scheduler.Active
import MyHttp.Scheduler.Affinity
import MyHttp.Theorems.Scheduler.Steps
import MyHttp.Theorems.Scheduler.Exclusive
import MyHttp.Lib.Count
import MyHttp.Theorems.Scheduler.Once
import MyHttp.Theorems.Scheduler.Active
import MyHttp.Theorems.Scheduler.Affinity
import MyHttp.IOManager.Events
import MyHttp.Theorems.IOManager.Dispatch
import MyHttp.Http.Message
import MyHttp.Theorems.Http.Methods
import MyHttp.Lib.Scan
import MyHttp.Lib.Segments
import MyHttp.Lib.Lines
import MyHttp.Theorems.Http.Serializers
import MyHttp.Theorems.Http.RequestText
import MyHttp.Theorems.Http.RoundTrip
import MyHttp.Http.ClientParser
import MyHttp.Http.Connection
import MyHttp.Theorems.Http.ResponseBounds
import MyHttp.Lib.Marks
import MyHttp.Http.Framing
import MyHttp.Theorems.Http.HeadCuts
import MyHttp.Theorems.Http.ChunkHeader
import MyHttp.Theorems.Http.ResponseFraming
import MyHttp.Http.ChunkLine
import MyHttp.Theorems.Http.ChunkFrame
import MyHttp.UriTable
import MyHttp.Uri
import MyHttp.IOManager.FdTable
import MyHttp.Theorems.IOManager.TableGrowth
import MyHttp.Theorems.IOManager.Registration
import MyHttp.Lib.OrderedSet
import MyHttp.TimerObjects
import MyHttp.Theorems.TimerSet
import MyHttp.Theorems.TimerExpiry
import MyHttp.TimerWorkers
import MyHttp.Theorems.TimerWorkers
import MyHttp.TimerSleeper
import MyHttp.Theorems.TimerSleeper
import MyHttp.Theorems.TimerView
import MyHttp.FdManager
import MyHttp.Theorems.FdManager.Nonblock
import MyHttp.Hook
import MyHttp.Theorems.Hook.Steps
import MyHttp.Theorems.Hook.ClosedCalls
import MyHttp.Theorems.IOManager.Waiting
import MyHttp.Theorems.Hook.Timeouts
import MyHttp.Http.Http11Parser
import MyHttp.Lib.Pieces
import MyHttp.Http.Session
import MyHttp.Theorems.Http.RequestLimits
import MyHttp.Http.HttpServer
import MyHttp.Http.ConnectionPool
import MyHttp.Theorems.Http.PoolAccounting
import MyHttp.Theorems.Http.PoolLimits
import MyHttp.Theorems.Http.PoolLifetimes
import MyHttp.Http.PoolClient
import MyHttp.Theorems.Http.KeepAlive
import MyHttp.Http.Requests
import MyHttp.Theorems.Http.RequestCuts
import MyHttp.Theorems.Http.RequestFraming
import MyHttp.Theorems.Http.BackToBack
import MyHttp.Theorems.Http.PoolReplies
import MyHttp.Lib.Regions
import MyHttp.Theorems.Uri.Scanner
import MyHttp.Theorems.Uri.Texts
import MyHttp.Theorems.Uri.Paths
import MyHttp.Theorems.Uri.Schemes
import MyHttp.Theorems.Uri.Hosts
import MyHttp.Theorems.Uri.Ports
import MyHttp.Theorems.Uri.Literals
import MyHttp.Theorems.Uri.Authorities
import MyHttp.Theorems.Uri.Create
import MyHttp.Theorems.Uri.Components
import MyHttp.Theorems.Uri.RoundTrip
import MyHttp.Theorems.Uri.ControlBytes
import MyHttp.Theorems.Uri.Groups
import MyHttp.Theorems.TimerArming
import MyHttp.Theorems.TimerHandles
import MyHttp.Theorems.ByteArray.Varints
import MyHttp.ByteArray.Values
import MyHttp.Theorems.ByteArray.Strings
import MyHttp.Theorems.ByteArray.FixedWidth
import MyHttp.Theorems.ByteArray.PositionedReads
import MyHttp.Theorems.ByteArray.Views
import MyHttp.ByteArray.Files
import MyHttp.Theorems.ByteArray.Files
import MyHttp.FdManager.Calls
import MyHttp.Theorems.FdManager.Table
import MyHttp.Theorems.FdManager.Racing
import MyHttp.IOManager.Idle
import MyHttp.Theorems.IOManager.IdleWait
import MyHttp.Hook.Sleeps
import MyHttp.Theorems.Hook.Sleeps
import MyHttp.Log.FormatItems
import MyHttp.Theorems.Log.Scanner
import MyHttp.Theorems.Log.Patterns
import MyHttp.Config.Casts
import MyHttp.Theorems.Config.Casts
import MyHttp.Config.FromString
import MyHttp.Theorems.Config.FromString
import MyHttp.Config.LoadFromYaml
import MyHttp.Theorems.Config.LoadFromYaml
import MyHttp.Config.ConfDir
import MyHttp.Theorems.Config.ConfDir
import MyHttp.Http.Limits
import MyHttp.Theorems.Http.Limits
import MyHttp.Http.ServletDispatch
import MyHttp.Theorems.Http.ServletDispatch
import MyHttp.TcpServer
import MyHttp.Theorems.TcpServer
import MyHttp.Address
import MyHttp.Theorems.Address.IPv4Prefix
import MyHttp.Theorems.Address.IPv6Prefix
import MyHttp.Theorems.Address.IPv6Text
import MyHttp.Theorems.Address.Lookup
import MyHttp.Http.DoRequest
import MyHttp.Theorems.Http.DoRequest
import MyHttp.Theorems.Http.ResponseTrip
import MyHttp.Http.Serve
import MyHttp.Theorems.Http.Serve
import MyHttp.Theorems.Http.Exchange
import MyHttp.Env
import MyHttp.Theorems.Env
import MyHttp.Config.Containers
import MyHttp.Theorems.Config.Containers
import MyHttp.Config.Registry
import MyHttp.Theorems.Config.Registry
import MyHttp.Thread
import MyHttp.Theorems.Thread
import MyHttp.TcpServer.Accept
import MyHttp.Theorems.TcpServer.Accept
import MyHttp.Util
import MyHttp.Theorems.Util
import MyHttp.Log.FileLogAppender
import MyHttp.Theorems.Log.FileLogAppender
import MyHttp.Socket
import MyHttp.Theorems.Socket
import MyHttp.Log.Calls
import MyHttp.Theorems.Log.Calls
import MyHttp.Lib.BitCount
import MyHttp.Address.Interfaces
import MyHttp.Theorems.Address.Interfaces
import MyHttp.Application
import MyHttp.Theorems.Application
import MyHttp.Hook.Connect
import MyHttp.Theorems.Hook.Slots
import MyHttp.Theorems.Hook.Connect
