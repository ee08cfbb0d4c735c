import Workplace.Lib.Incremental
import Workplace.Lib.Runs
import Workplace.Lib.OrderedSet
import Workplace.Lib.Window
import Workplace.Lib.Restoring
import Workplace.Lib.Throwing
import Workplace.Lib.AlphaBeta
import Workplace.Lib.CheckedSum
import Workplace.Lib.Arrivals
import Workplace.Lib.SplitUpdate
import Workplace.Lib.Custody
import Workplace.Lib.CondVar
import Workplace.Lib.Potential
import Workplace.Lib.Registry
import Workplace.Lib.Regex
import Workplace.Lib.SqlText
import Workplace.Http.Text
import Workplace.Http.RegexText
import Workplace.Http.Request
import Workplace.Http.Context
import Workplace.Http.RequestLine
import Workplace.Http.Grammar
import Workplace.Http.Chunking
import Workplace.Http.Rendering
import Workplace.Http.BodyLength
import Workplace.Http.DeclaredLength
import Workplace.Http.KeepAlive
import Workplace.Http.Connection
import Workplace.Http.Pipelining
import Workplace.Http.SslConnection
import Workplace.Http.SslStreams
import Workplace.Http.Response
import Workplace.Http.ResponseGrammar
import Workplace.Http.ResponseStream
import Workplace.Http.Conversations
import Workplace.Http.Session
import Workplace.Http.Browsers
import Workplace.Http.Cookies
import Workplace.Http.SessionRuns
import Workplace.Http.Server
import Workplace.Http.Routes
import Workplace.Http.RoutePatterns
import Workplace.Http.Middlewares
import Workplace.Http.Cors
import Workplace.Http.DbConnectionPool
import Workplace.Http.DbPoolInit
import Workplace.Http.PoolWaits
import Workplace.Coroutine.ThreadStart
import Workplace.Coroutine.TaskQueue
import Workplace.Coroutine.TaskWaits
import Workplace.Coroutine.Wakeups
import Workplace.Coroutine.Timer
import Workplace.Coroutine.TimerLoop
import Workplace.Coroutine.TimerRuns
import Workplace.Coroutine.TimerThreads
import Workplace.Coroutine.TimerFirings
import Workplace.Coroutine.TimerCancel
import Workplace.Coroutine.Event
import Workplace.Coroutine.EventRuns
import Workplace.Coroutine.EventTriggers
import Workplace.Coroutine.EventFailures
import Workplace.Coroutine.FdTable
import Workplace.Coroutine.FdManager
import Workplace.Coroutine.FdThreads
import Workplace.Coroutine.InterestList
import Workplace.Coroutine.SleepDelays
import Workplace.Coroutine.SocketTimeouts
import Workplace.Gomoku.Board
import Workplace.Gomoku.Search
import Workplace.Gomoku.Game
import Workplace.Gomoku.Minimax
import Workplace.Gomoku.EvaluationRange
import Workplace.Gomoku.Symmetry
import Workplace.Gomoku.Leaves
import Workplace.Gomoku.Threats
import Workplace.Gomoku.BestMoves
import Workplace.Gomoku.Live
import Workplace.Gomoku.Json
import Workplace.Gomoku.JsonText
import Workplace.Gomoku.Server
import Workplace.Gomoku.Queries
import Workplace.Gomoku.Table
import Workplace.Gomoku.PrivateGames
import Workplace.Gomoku.Page
import Workplace.Gomoku.Responses
import Workplace.Gomoku.Logins
import Workplace.Gomoku.OnlineUsers
import Workplace.Gomoku.Refusals
import Workplace.Gomoku.Authentication
import Workplace.Gomoku.PeakOnline
import Workplace.Gomoku.Traffic
import Workplace.Gomoku.MoveThreads
import Workplace.Coroutine.Pool
import Workplace.Coroutine.PoolRuns
import Workplace.Coroutine.Worker
import Workplace.Coroutine.WorkerRuns
import Workplace.Coroutine.FiberStates
import Workplace.Coroutine.Shutdown
