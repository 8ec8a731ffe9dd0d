import Dxian.Lib.Transition
import Dxian.Lib.OrderedSet
import Dxian.Lib.SwapRemove
import Dxian.Lib.CInt
import Dxian.Lib.Gregorian
import Dxian.Lib.BinarySearch
import Dxian.Lib.LocalClock
import Dxian.Lib.BigEndian
import Dxian.Lib.ByteFile
import Dxian.Lib.Numeral
import Dxian.Lib.Overwrite
import Dxian.Lib.Rounding
import Dxian.Lib.Monitor
import Dxian.Lib.Mask
import Dxian.Base.Fault
import Dxian.Base.Timestamp
import Dxian.Base.Date
import Dxian.Base.DateTime
import Dxian.Base.TimeZone.Data
import Dxian.Base.TimeZone.LocalTime
import Dxian.Base.TimeZone.Conversion
import Dxian.Base.TimeZone.File
import Dxian.Base.TimeZone.Reader
import Dxian.Base.TimeZone.Tables
import Dxian.Base.TimeZone.DataBlock
import Dxian.Base.TimeZone.ZoneFile
import Dxian.Base.TimeZone.Safety
import Dxian.Base.TimeZone.Format
import Dxian.Base.TimeZone.Decode
import Dxian.Base.TimeZone.Versions
import Dxian.Base.Logging.FixedBuffer
import Dxian.Base.Logging.Convert
import Dxian.Base.Logging.LogStream
import Dxian.Base.Logging.Integers
import Dxian.Base.Logging.Logger
import Dxian.Base.Logging.LogTime
import Dxian.Base.Logging.Format
import Dxian.Base.Calendar
import Dxian.Base.Mutex
import Dxian.Base.CountDownLatch
import Dxian.Base.CriticalSections
import Dxian.Base.ThreadStart
import Dxian.Base.ThreadObject
import Dxian.Net.Timer
import Dxian.Net.TimerQueue.Defs
import Dxian.Net.TimerQueue.Consistency
import Dxian.Net.TimerQueue.Machine
import Dxian.Net.TimerQueue.Ownership
import Dxian.Net.TimerQueue.Alarm
import Dxian.Net.TimerQueue.Cancellation
import Dxian.Net.TimerQueue.Firing
import Dxian.Net.TimerQueue.Identity
import Dxian.Net.EventLoop
import Dxian.Net.EventLoopThread
import Dxian.Net.EventLoopThread.StartLoop
import Dxian.Net.EventLoopThread.FirstPoll
import Dxian.Net.Reactor.Defs
import Dxian.Net.Reactor.Invariant
import Dxian.Net.Reactor.Cancel
import Dxian.Net.Reactor.AddTimer
import Dxian.Net.TimerQueue.Timerfd
import Dxian.Net.Reactor.Due
import Dxian.Net.Channel
import Dxian.Net.HandleEvent
import Dxian.Net.Poller.EPoll
import Dxian.Net.Poller.Poll
import Dxian.Net.Poller.Interchange
import Dxian.Net.Poller.Watching
import Dxian.Net.Dispatch.Defs
import Dxian.Net.Dispatch.Invariant
import Dxian.Net.Dispatch.Pollers
import Dxian.Net.Poller.Slots
import Dxian.Net.Dispatch.Events
import Dxian.Net.Dispatch.Lifecycle
import Dxian.Net.Dispatch.Tie
import Dxian.Net.Dispatch.KQueue
import Dxian.Net.Poller.KQueue
import Dxian.Net.TimerQueue.Destruct
import Dxian.Net.Reactor.Destruct
import Dxian.Base.CurrentThread
import Dxian.Net.LoopRegistry
import Dxian.Net.EventLoopThread.Destructor
import Dxian.Lib.Padded
import Dxian.Base.Gmtime
import Dxian.Base.TimeText
import Dxian.Base.TimeZone.ZoneClock
import Dxian.Base.Logging.SteadyZone
import Dxian.Net.EventLoop.Locked
import Dxian.Net.EventLoop.Quit
import Dxian.Base.Logging.LogLines
import Dxian.Base.TimeDifference
import Dxian.Base.ThreadNames
