import LpNet.Buffer.RingQueue
import LpNet.Buffer.Queue
import LpNet.Buffer.Socket
import LpNet.Buffer.Reset
import LpNet.Buffer.Reader
import LpNet.Buffer.Writer
import LpNet.Buffer.LeastRecent
import LpNet.Buffer.Capacity
import LpNet.Timer.Interchange
import LpNet.Timer.Firing
import LpNet.Mm.Arena
import LpNet.Logger.Config
import LpNet.Logger.Rotation
import LpNet.Logger.Pattern
import LpNet.Logger.Content
import LpNet.Logger.Inherit
import LpNet.Logger.Manager
import LpNet.Strings.Split
import LpNet.Strings.FindCase
import LpNet.Strings.Match
import LpNet.Strings.UrlParams
import LpNet.Net.Acceptor
import LpNet.Net.Trigger
import LpNet.Net.Pollers
import LpNet.Net.EventLoop
import LpNet.Net.Tcp.Shutdown
import LpNet.Net.Tcp.Reuse
import LpNet.Net.Tcp.Ownership
import LpNet.Net.Tcp.Senders
import LpNet.Net.Tcp.CloseOnce
import LpNet.Thread.Startup
import LpNet.Thread.Wakeup
import LpNet.Thread.Stop
import LpNet.Thread.Accounting
import LpNet.Buffer.Fields
import LpNet.Net.Connector
import LpNet.Net.LoopWakeup
import LpNet.Timer.Rearm
import LpNet.Timer.Comparator
import LpNet.Timer.Evolution
import LpNet.Timer.Due
import LpNet.Fiber.Scheduler
import LpNet.Buffer.Framing
import LpNet.Buffer.Transfer
import LpNet.Net.Retry
import LpNet.Net.EpollLock
import LpNet.Net.SelectBound
import LpNet.Mm.ArenaLimit
import LpNet.Timer.Insertion
import LpNet.Fiber.Stack
import LpNet.Fiber.RoundRobin
import LpNet.Fiber.Resume
import LpNet.Buffer.RingPush
import LpNet.Net.Multicast
import LpNet.Net.Host
import LpNet.Net.Tcp.Client
import LpNet.Fiber.Moves
import LpNet.Logger.Delivery
import LpNet.Logger.Order
import LpNet.Logger.Threads
import LpNet.Logger.Files
import LpNet.Buffer.RingThreads
import LpNet.Mm.ArenaUsage
import LpNet.Net.Listening
import LpNet.Net.Tcp.Relay
import LpNet.Logger.Colors
import LpNet.Timer.Worker
import LpNet.Strings.Trim
import LpNet.Net.LoopServe
import LpNet.Singleton
