import LibDispatch.Interleaving.Pool
import LibDispatch.Interleaving.TailList
import LibDispatch.Interleaving.Batches
import LibDispatch.Interleaving.Refinement
import LibDispatch.Semaphore.Model
import LibDispatch.Semaphore.Exact
import LibDispatch.Group.Model
import LibDispatch.Group.Steps
import LibDispatch.Group.Members
import LibDispatch.Group.Wait
import LibDispatch.Group.Notify
import LibDispatch.Group.Early
import LibDispatch.Queue.Items
import LibDispatch.RootQueue.Model
import LibDispatch.RootQueue.ExactlyOnce
import LibDispatch.RootQueue.Loop
import LibDispatch.RootQueue.Workers
import LibDispatch.SerialQueue.Model
import LibDispatch.SerialQueue.Fifo
import LibDispatch.Queue.Model
import LibDispatch.Queue.Steps
import LibDispatch.Queue.Accounting
import LibDispatch.Queue.Exclusion
import LibDispatch.Queue.Suspend
import LibDispatch.Queue.Wakeup
import LibDispatch.Queue.Order
import LibDispatch.Source.Model
import LibDispatch.Source.Steps
import LibDispatch.Source.Accounting
import LibDispatch.Source.Cancel
import LibDispatch.Source.Wakeup
import LibDispatch.Source.Data
import LibDispatch.Redirect.Model
import LibDispatch.Redirect.Owned
import LibDispatch.Redirect.Intact
import LibDispatch.Lists.Buckets
import LibDispatch.Lists.Ordered
import LibDispatch.Kevent.Model
import LibDispatch.Kevent.Manager
import LibDispatch.Kevent.Registry
import LibDispatch.Kevent.Steps
import LibDispatch.Kevent.Frame
import LibDispatch.Kevent.Invariant
import LibDispatch.Kevent.Timers
import LibDispatch.Kevent.RunTimers
import LibDispatch.Kevent.Descriptors
import LibDispatch.Apply.Model
import LibDispatch.Apply.Parallel
import LibDispatch.Apply.Exact
import LibDispatch.Object.Model
import LibDispatch.Object.Lifetime
import LibDispatch.TimerLoop.Model
import LibDispatch.TimerLoop.Steps
import LibDispatch.TimerLoop.Sleep
import LibDispatch.Kqueue.Model
import LibDispatch.Kqueue.Masks
import LibDispatch.Kqueue.Receipt
import LibDispatch.Interleaving.Sequence
import LibDispatch.Wrapper.Handles
import LibDispatch.Wrapper.Ownership
import LibDispatch.Wrapper.Alternation
import LibDispatch.Wrapper.Handlers
import LibDispatch.Wrapper.Cancellation
import LibDispatch.Wrapper.Callbacks
import LibDispatch.Wrapper.NativeCancel
import LibDispatch.Source.Handlers
import LibDispatch.After.Model
import LibDispatch.After.Steps
import LibDispatch.After.Once
import LibDispatch.After.Clean
import LibDispatch.Time.Timeout
import LibDispatch.Kevent.SetTimer
import LibDispatch.RootQueue.ThreadPool
import LibDispatch.Queue.Width
import LibDispatch.Queue.Target
import LibDispatch.Interleaving.CallStack
import LibDispatch.CurrentQueue.Model
import LibDispatch.CurrentQueue.Discipline
import LibDispatch.Source.Settle
import LibDispatch.Source.MergeData
import LibDispatch.TimerLoop.NextFire
import LibDispatch.Kevent.Fallback
import LibDispatch.Kevent.NativeTimer
import LibDispatch.Wrapper.Gate
import LibDispatch.Wrapper.Delay
import LibDispatch.Wrapper.Timer
import LibDispatch.Calendar.LocalTime
import LibDispatch.Wrapper.Calendar
import LibDispatch.Interleaving.Monitor
import LibDispatch.Lists.Served
import LibDispatch.Workqueue.Mask
import LibDispatch.Workqueue.Overcommit
import LibDispatch.Workqueue.Provision
import LibDispatch.Workqueue.Order
import LibDispatch.Workqueue.Wqlist
import LibDispatch.Workqueue.Scoreboard
import LibDispatch.Workqueue.Accounting
import LibDispatch.Workqueue.Growth
import LibDispatch.Workqueue.Items
import LibDispatch.Workqueue.Wakeup
