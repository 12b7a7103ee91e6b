import CppServerFramework.Misc.CInt
import CppServerFramework.Misc.Machine
import CppServerFramework.Misc.OrderedSet
import CppServerFramework.Misc.Blocks
import CppServerFramework.Misc.Bits
import CppServerFramework.Misc.Regex
import CppServerFramework.Misc.RegexExact
import CppServerFramework.HTTP.RequestTable
import CppServerFramework.HTTP.RequestGrammar
import CppServerFramework.HTTP.UriTable
import CppServerFramework.HTTP.Uri
import CppServerFramework.HTTP.UriGrammar
import CppServerFramework.HTTP.UriParts
import CppServerFramework.HTTP.UriRun
import CppServerFramework.HTTP.UriAuthority
import CppServerFramework.HTTP.UriProps
import CppServerFramework.HTTP.UriRoundTrip
import CppServerFramework.HTTP.IpLiteral
import CppServerFramework.HTTP.UriReference
import CppServerFramework.Stream.FixSize
import CppServerFramework.Socket.ByteArray
import CppServerFramework.Socket.ByteArrayChain
import CppServerFramework.Socket.ByteArrayFlat
import CppServerFramework.Socket.ByteArrayTyped
import CppServerFramework.Socket.ByteArrayTypedProps
import CppServerFramework.Async.FdContext
import CppServerFramework.Async.FdContextProps
import CppServerFramework.Async.Waiters
import CppServerFramework.Async.FdTable
import CppServerFramework.Async.Epoll
import CppServerFramework.Async.Fiber
import CppServerFramework.Async.FiberProps
import CppServerFramework.Async.Scheduler
import CppServerFramework.Async.SchedulerProps
import CppServerFramework.Async.CallbacksProps
import CppServerFramework.Async.StoppingProps
import CppServerFramework.Async.TickleProps
import CppServerFramework.Async.IOHookProps
import CppServerFramework.HTTP.RequestParser
import CppServerFramework.HTTP.RequestParserProps
import CppServerFramework.Stream.SocketStream
import CppServerFramework.HTTP.Session
import CppServerFramework.HTTP.SessionProps
import CppServerFramework.HTTP.Pipeline
import CppServerFramework.HTTP.RequestSpans
import CppServerFramework.HTTP.Limits
import CppServerFramework.HTTP.Server
import CppServerFramework.Log.FileLogAppender
import CppServerFramework.Log.LogIniter
import CppServerFramework.Async.TimerProps
import CppServerFramework.Async.TimerSetProps
import CppServerFramework.Async.IdleTimeout
import CppServerFramework.Async.LookingWorkers
import CppServerFramework.Async.TimerWakeup
import CppServerFramework.Async.TimerWakeupProps
import CppServerFramework.Async.Affinity
import CppServerFramework.HTTP.ResponseTable
import CppServerFramework.Misc.Ownership
import CppServerFramework.HTTP.ConnectionPoolProps
import CppServerFramework.Async.FdCtx
import CppServerFramework.Log.LogConfig
import CppServerFramework.Socket.ByteArrayTransfer
import CppServerFramework.Socket.ByteArrayString
import CppServerFramework.HTTP.RequestRoundTrip
import CppServerFramework.HTTP.ResponseParser
import CppServerFramework.HTTP.ResponseParserProps
import CppServerFramework.HTTP.Built
import CppServerFramework.HTTP.Framing
import CppServerFramework.HTTP.Connection
import CppServerFramework.HTTP.ResponseSpans
import CppServerFramework.HTTP.ResponseCuts
import CppServerFramework.HTTP.ConnectionProps
import CppServerFramework.Servlet.Servlet
import CppServerFramework.Config.ConfigVar
import CppServerFramework.Config.Lookup
import CppServerFramework.Async.ClockRollover
import CppServerFramework.Async.DeadTimers
import CppServerFramework.Async.HookSleep
import CppServerFramework.HTTP.MethodNames
import CppServerFramework.Socket.IpAddress
import CppServerFramework.Socket.ByteArrayReach
import CppServerFramework.Socket.ByteArrayPositioned
import CppServerFramework.Socket.ByteArrayFile
import CppServerFramework.Socket.ByteArrayRetry
import CppServerFramework.Socket.ByteArrayNull
import CppServerFramework.Stream.TcpServer
import CppServerFramework.Config.FromString
import CppServerFramework.Config.LoadFromYaml
import CppServerFramework.HTTP.Accessors
import CppServerFramework.HTTP.DoRequest
import CppServerFramework.Async.FdManager
import CppServerFramework.Socket.HostLookup
import CppServerFramework.Socket.Ipv6Text
import CppServerFramework.Log.FormatterInheritance
import CppServerFramework.Log.PatternGrammar
import CppServerFramework.HTTP.PoolCapacity
import CppServerFramework.Socket.AddressOrder
import CppServerFramework.Socket.ByteArrayVarint
import CppServerFramework.Stream.Segments
import CppServerFramework.HTTP.HeadParts
import CppServerFramework.HTTP.ChunkLines
import CppServerFramework.HTTP.Chunked
import CppServerFramework.HTTP.ChunkedResponse
import CppServerFramework.Async.DescriptorLife
import CppServerFramework.Socket.AsyncSocket
import CppServerFramework.Socket.AsyncSocketProps
import CppServerFramework.HTTP.ResponseGrammar
import CppServerFramework.HTTP.ResponseRoundTrip
import CppServerFramework.HTTP.Exchange
import CppServerFramework.Socket.AddressText
import CppServerFramework.HTTP.PoolReuse
import CppServerFramework.Async.HookedRead
import CppServerFramework.Stream.ServerRunProps
import CppServerFramework.Async.Multithread
import CppServerFramework.HTTP.UriAddress
import CppServerFramework.Socket.UnixPath
import CppServerFramework.Socket.ByteArrayHex
import CppServerFramework.Misc.MultiMap
import CppServerFramework.Socket.Interfaces
