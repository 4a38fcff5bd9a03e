import BunnyDs.Bytes
import BunnyDs.Err
import BunnyDs.Executor.Delivery
import BunnyDs.Executor.Join
import BunnyDs.Executor.Polls
import BunnyDs.Executor.Progress
import BunnyDs.Executor.Refinement
import BunnyDs.Executor.Run
import BunnyDs.Executor.Tokens
import BunnyDs.Fs.AsyncFile
import BunnyDs.Fs.Cancellation
import BunnyDs.Fs.Futures
import BunnyDs.Fs.FuturesRun
import BunnyDs.Fs.Moves
import BunnyDs.Fs.Pool
import BunnyDs.Kernel.Basic
import BunnyDs.Kernel.Channel
import BunnyDs.LTS.Allocation
import BunnyDs.LTS.Basic
import BunnyDs.LTS.Count
import BunnyDs.LTS.Guarded
import BunnyDs.LTS.Leaves
import BunnyDs.LTS.Log
import BunnyDs.LTS.OnceCells
import BunnyDs.LTS.Ranking
import BunnyDs.LTS.Scheduler
import BunnyDs.Net.Connect
import BunnyDs.Net.Descriptors
import BunnyDs.Net.Interests
import BunnyDs.Net.Lifetime
import BunnyDs.Net.Receive
import BunnyDs.Net.Service
import BunnyDs.Net.SockAddr
import BunnyDs.Net.Stream
import BunnyDs.Order
import BunnyDs.Reactor.Handler
import BunnyDs.Reactor.Sleep
import BunnyDs.Reactor.SleepRun
import BunnyDs.Runtime.App
import BunnyDs.Runtime.BlockOn
import BunnyDs.Runtime.Channels
import BunnyDs.Runtime.Files
import BunnyDs.Runtime.Sockets
import BunnyDs.Runtime.Startup
import BunnyDs.Runtime.System
import BunnyDs.Runtime.Timers
import BunnyDs.Sync.Cancellation
import BunnyDs.Sync.DsLock
import BunnyDs.Sync.Guarded
import BunnyDs.Sync.Notification
import BunnyDs.Sync.Oneshot
import BunnyDs.Sync.Ownership
import BunnyDs.Sync.Preemption
import BunnyDs.Sync.Wakeup
import BunnyDs.Thread.Blocking
import BunnyDs.Thread.Join
import BunnyDs.Wakers
