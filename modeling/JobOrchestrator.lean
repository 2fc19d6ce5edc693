import JobOrchestrator.Util.OrderedDict
import JobOrchestrator.Util.GuardedRun
import JobOrchestrator.Util.IterationOrder
import JobOrchestrator.Util.LockMachine
import JobOrchestrator.Util.History
import JobOrchestrator.Util.Quorum
import JobOrchestrator.Util.FileLocks
import JobOrchestrator.Util.InfiniteRun
import JobOrchestrator.Util.Backoff
import JobOrchestrator.Util.Chains
import JobOrchestrator.Util.DepthFirst
import JobOrchestrator.Core.Job
import JobOrchestrator.Core.Config
import JobOrchestrator.Core.State
import JobOrchestrator.Core.StateMachine
import JobOrchestrator.Core.Codec
import JobOrchestrator.Core.OrchestratorConfig
import JobOrchestrator.Core.DAG
import JobOrchestrator.Core.Cycles
import JobOrchestrator.Core.Dependencies
import JobOrchestrator.Core.DAGBuilder
import JobOrchestrator.Core.TopologicalSort
import JobOrchestrator.Core.ExecutionPlan
import JobOrchestrator.Core.CycleDetection
import JobOrchestrator.Queue.PriorityQueue
import JobOrchestrator.Queue.JobQueue
import JobOrchestrator.Queue.Order
import JobOrchestrator.Queue.Drain
import JobOrchestrator.Queue.Removal
import JobOrchestrator.Queue.Reprioritising
import JobOrchestrator.Queue.Waiting
import JobOrchestrator.Queue.Peeking
import JobOrchestrator.Queue.Popping
import JobOrchestrator.Scheduler.LockOrder
import JobOrchestrator.Scheduler.DAGExecutor
import JobOrchestrator.Scheduler.DAGFinality
import JobOrchestrator.Scheduler.DAGRelease
import JobOrchestrator.Scheduler.DAGCompleteness
import JobOrchestrator.Scheduler.DAGPartition
import JobOrchestrator.Scheduler.DAGAccounting
import JobOrchestrator.Scheduler.Core
import JobOrchestrator.Scheduler.DeadLetterQueue
import JobOrchestrator.Scheduler.Retry
import JobOrchestrator.Scheduler.Runner
import JobOrchestrator.Scheduler.Preservation
import JobOrchestrator.Scheduler.RunControl
import JobOrchestrator.Scheduler.Workers
import JobOrchestrator.Scheduler.Dispatch
import JobOrchestrator.Scheduler.NoJobLost
import JobOrchestrator.Scheduler.CancelFinal
import JobOrchestrator.Scheduler.DeadLettering
import JobOrchestrator.Scheduler.Reports
import JobOrchestrator.Scheduler.DAGProgress
import JobOrchestrator.Scheduler.Kept
import JobOrchestrator.Scheduler.Operations
import JobOrchestrator.Scheduler.TerminalStates
import JobOrchestrator.Scheduler.Parallelism
import JobOrchestrator.Scheduler.FailFast
import JobOrchestrator.Scheduler.AllOrNothing
import JobOrchestrator.Scheduler.Requeueing
import JobOrchestrator.Scheduler.Restart
import JobOrchestrator.Scheduler.DLQTables
import JobOrchestrator.Scheduler.DLQRun
import JobOrchestrator.Scheduler.DLQRequeue
import JobOrchestrator.Scheduler.DLQCapacity
import JobOrchestrator.Scheduler.DLQLookup
import JobOrchestrator.Scheduler.DLQRetention
import JobOrchestrator.Scheduler.Persistence
import JobOrchestrator.Scheduler.RetryDecision
import JobOrchestrator.Scheduler.RetryRecord
import JobOrchestrator.Scheduler.RetryAccounting
import JobOrchestrator.Scheduler.RetryDefaults
import JobOrchestrator.Scheduler.Bystander
import JobOrchestrator.Scheduler.RetryStages
import JobOrchestrator.Scheduler.RetryTurns
import JobOrchestrator.Scheduler.LoneWorker
import JobOrchestrator.Scheduler.RetryBudget
import JobOrchestrator.Scheduler.RetryProgress
import JobOrchestrator.Scheduler.RetryDelay
import JobOrchestrator.Locking.Memory
import JobOrchestrator.Locking.RedisLock
import JobOrchestrator.Locking.RedisAgreement
import JobOrchestrator.Locking.Scopes
import JobOrchestrator.Locking.FileLock
import JobOrchestrator.Locking.FileLockExclusion
import JobOrchestrator.Workers.PoolBounds
import JobOrchestrator.Workers.WorkerPool
import JobOrchestrator.Workers.Workplace
import JobOrchestrator.Workers.ProcessWorker
import JobOrchestrator.Workers.AsyncWorker
import JobOrchestrator.Workers.NoJobLeft
import JobOrchestrator.Queue.Accounting
import JobOrchestrator.Queue.Timestamps
import JobOrchestrator.Locking.MemoryLease
import JobOrchestrator.Locking.FileLockOwners
import JobOrchestrator.Locking.FileLockNames
import JobOrchestrator.Locking.RedisRollback
import JobOrchestrator.Locking.RedisLease
import JobOrchestrator.Workers.Coordinator
import JobOrchestrator.Workers.HealthCheck
import JobOrchestrator.Locking.RedisTimed
import JobOrchestrator.Locking.RedisExclusion
import JobOrchestrator.Scheduler.Outcomes
import JobOrchestrator.Workers.ThreadWorker
import JobOrchestrator.Workers.ThreadFleet
import JobOrchestrator.Scheduler.DependencyOrder
import JobOrchestrator.Scheduler.DAGReports
import JobOrchestrator.Util.Refinement
import JobOrchestrator.Queue.Reading
import JobOrchestrator.Queue.WaitingRoom
import JobOrchestrator.Scheduler.Census
import JobOrchestrator.Core.ReadyJobs
import JobOrchestrator.Util.Listing
import JobOrchestrator.Scheduler.DLQListing
import JobOrchestrator.Scheduler.Urgency
import JobOrchestrator.Util.Expiring
import JobOrchestrator.Locking.LeaseTable
import JobOrchestrator.Core.FluentBuild
import JobOrchestrator.Locking.RedisAvailability
import JobOrchestrator.Scheduler.BoundedWork
