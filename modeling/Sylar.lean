import Sylar.Lib.Runs
import Sylar.Lib.OrdSet
import Sylar.Lib.Tally
import Sylar.Lib.Amortised
import Sylar.TimerModel
import Sylar.TimerInv
import Sylar.TimerExpiry
import Sylar.FiberModel
import Sylar.IoModel
import Sylar.EventTable
import Sylar.EventOps
import Sylar.IoInv
import Sylar.Waiters
import Sylar.Batch
import Sylar.ContextTable
import Sylar.SchedulerModel
import Sylar.SchedulerSteps
import Sylar.RunQueue
import Sylar.Tickle
import Sylar.SwapIn
import Sylar.Stopping
import Sylar.TimerNotify
import Sylar.HookModel
import Sylar.Nonblock
import Sylar.Timeouts
import Sylar.FdVector
import Sylar.Transparent
import Sylar.FdLifetime
import Sylar.CloseFd
import Sylar.Pinned
import Sylar.TimedWait
import Sylar.DoIo
import Sylar.Connect
import Sylar.LogPattern
import Sylar.ConfigListeners
import Sylar.Appenders
import Sylar.LogConfig
import Sylar.Yaml
import Sylar.LogText
import Sylar.ConfigModel
import Sylar.ConfigLookup
import Sylar.LexicalCast
import Sylar.SocketModel
import Sylar.SslSession
import Sylar.TimerReset
import Sylar.TimerEarly
import Sylar.Intervals
import Sylar.FdRange
import Sylar.FromString
import Sylar.WorkerLoop
import Sylar.CallbackStarts
import Sylar.Recycled
import Sylar.Accounts
import Sylar.Drain
import Sylar.OneFiber
import Sylar.FiberPlace
import Sylar.SwitchSystem
import Sylar.SwitchTo
import Sylar.Trim
import Sylar.UrlCode
import Sylar.StreamSpeed
import Sylar.SslVec
import Sylar.BinarySearch
import Sylar.Subnet
import Sylar.JsonEscape
import Sylar.ConfDir
import Sylar.LogFormat
import Sylar.AddressText
import Sylar.HostSplit
import Sylar.AddressCreate
import Sylar.RemoveTree
import Sylar.MoveTree
import Sylar.YamlJson
import Sylar.EnvArgs
import Sylar.AddressOrder
import Sylar.UnixPath
import Sylar.OwnAddress
import Sylar.Interfaces
import Sylar.ScopedLock
import Sylar.ManualSwitch
import Sylar.HookedWorkers
import Sylar.PathWalk
import Sylar.MakeDir
import Sylar.TimerAgenda
import Sylar.Bypass
import Sylar.Locks
import Sylar.FileAppender
import Sylar.Descriptors
import Sylar.SocketTimeouts
import Sylar.AddressLookup
import Sylar.LogDump
import Sylar.JsonGetters
import Sylar.ThreadStart
import Sylar.FiberLifetime
import Sylar.MessageJson
import Sylar.StartStop
import Sylar.OpenFile
import Sylar.FileCalls
