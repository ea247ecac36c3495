import Flux.Lib.Run
import Flux.Lib.Scan
import Flux.Lib.Fifo
import Flux.Lib.Lexical
import Flux.Lib.Incremental
import Flux.Lib.Percent
import Flux.Lib.Regex
import Flux.Lib.Ownership
import Flux.Reactor.Buffer
import Flux.Reactor.Capacity
import Flux.Reactor.ByteQueue
import Flux.Http.Request
import Flux.Http.Util
import Flux.Http.Url
import Flux.Http.Static
import Flux.Http.Context
import Flux.Http.Reader
import Flux.Http.Stream
import Flux.Http.Framing
import Flux.Http.RequestLine
import Flux.Http.Grammar
import Flux.Http.ContentLength
import Flux.Reactor.Channel
import Flux.Reactor.Connection
import Flux.Reactor.ConnectionRun
import Flux.Reactor.ShutdownNesting
import Flux.Reactor.Output
import Flux.Reactor.Closing
import Flux.Reactor.Poller
import Flux.Reactor.Enrollment
import Flux.Reactor.EpollFailure
import Flux.Reactor.Isolation
import Flux.Reactor.Release
import Flux.Reactor.TcpServer
import Flux.Reactor.ConnTable
import Flux.Reactor.Members
import Flux.Reactor.LoopThreadPool
import Flux.Reactor.Calls
import Flux.Reactor.Sending
import Flux.Reactor.Graceful
import Flux.Reactor.Descriptors
import Flux.Reactor.CallbackOrder
import Flux.Reactor.Any
import Flux.Reactor.Socket
import Flux.Reactor.TaskQueue
import Flux.Reactor.Rounds
import Flux.Reactor.LoopThread
import Flux.Reactor.PoolStart
import Flux.Reactor.TimerWheel
import Flux.Reactor.TimerHistory
import Flux.Reactor.TimerEarly
import Flux.Reactor.OnTime
import Flux.Reactor.Inactivity
import Flux.Reactor.StaleTimer
import Flux.Reactor.Idle
import Flux.Http.Response
import Flux.Http.Server
import Flux.Http.Ending
import Flux.Http.Serving
import Flux.Http.ServerRun
import Flux.Http.KeepAlive
import Flux.Http.Client
import Flux.Http.Delimiting
import Flux.Http.HeaderCase
import Flux.Http.Consistent
import Flux.Http.WholeFile
import Flux.Http.Statuses
import Flux.Http.Refinement
import Flux.Http.Delivery
import Flux.Http.Draining
import Flux.Http.RoundTrip
