import DataProxy.Lib.Run
import DataProxy.Lib.Multimap
import DataProxy.Lib.Bag
import DataProxy.Lib.Mailbox
import DataProxy.Lib.Slot
import DataProxy.Lib.CondVar
import DataProxy.Lib.Guard
import DataProxy.Lib.Tickets
import DataProxy.Lib.Lanes
import DataProxy.Mqtt
import DataProxy.Ros2
import DataProxy.Basic
import DataProxy.World
import DataProxy.Step
import DataProxy.Trans
import DataProxy.Registry
import DataProxy.Handles
import DataProxy.Schedule
import DataProxy.Wake
import DataProxy.Solo
import DataProxy.Delivery
import DataProxy.Backed
import DataProxy.Stranded
import DataProxy.Consumers
import DataProxy.Shared
import DataProxy.Iteration
import DataProxy.FanOut
import DataProxy.Dispatches
import DataProxy.BusThreads
import DataProxy.DispatchLoop
import DataProxy.Drain
import DataProxy.Executor
import DataProxy.Lifecycle
import DataProxy.Timers
import DataProxy.Timeout
import DataProxy.Cancel
import DataProxy.TimerUse
import DataProxy.Removal
import DataProxy.WayOut
import DataProxy.Ownership
import DataProxy.FirstMatch
import DataProxy.Leak
import DataProxy.Requests
import DataProxy.ConcurrentQueue
import DataProxy.QueueIndex
import DataProxy.QueueInvariant
import DataProxy.QueueMoves
import DataProxy.QueueConsumer
import DataProxy.QueueProducer
import DataProxy.QueueSafety
import DataProxy.QueueDelivery
import DataProxy.TryDequeue
import DataProxy.FreeList
import DataProxy.FreePool
import DataProxy.BusQueue
import DataProxy.TestLogic
import DataProxy.TestAsserts
import DataProxy.ProducerHash
import DataProxy.HashInvariant
import DataProxy.HashSteps
import DataProxy.HashOwners
import DataProxy.HashSafety
import DataProxy.ThreadQueue
