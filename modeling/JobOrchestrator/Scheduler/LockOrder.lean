import JobOrchestrator.Util.LockMachine

/-!
# The order in which the scheduler takes its locks

`Scheduler._lock` and `DAGExecutor._lock` are re-entrant, and the two
objects call each other: completing a job under the scheduler's lock tells
the executor, and the executor submits the jobs that became ready. Each
public operation is given here by its locking alone, as the `with` blocks
of its body and of the bodies it calls, with the branches that depend on
data left open. The queue, the store and the state machine have locks of
their own, under which neither of these two is ever taken.

Two orders are in use. `submit_dag`, `complete_job`, `fail_job` and
`get_stats` take the executor's lock inside the scheduler's; `run_job` and
`cancel_dag` take the scheduler's inside the executor's. So two threads can
block each other, and `deadlockFree_iff` says for which calls they can:
exactly where two different threads make calls that nest the locks in
opposite orders.
-/

namespace JobOrchestrator

/-- The two locks. -/
inductive SchedulerLock
  /-- `Scheduler._lock`. -/
  | scheduler
  /-- `DAGExecutor._lock`. -/
  | executor
  deriving DecidableEq

/-! ## The bodies -/

namespace Locking

open Skeleton SchedulerLock

/-- `Scheduler.submit`. -/
def submit : Skeleton SchedulerLock := withLock scheduler skip

/-- `Scheduler.cancel_job`. -/
def cancelJob : Skeleton SchedulerLock := withLock scheduler skip

/-- `DAGExecutor._queue_job`: one `submit`, whatever becomes of it. -/
def queueJob : Skeleton SchedulerLock := submit

/-- `DAGExecutor._check_dag_completion`: it may queue jobs that are ready. -/
def checkDagCompletion : Skeleton SchedulerLock := many queueJob

/-- `DAGExecutor.get_dag_for_job`. -/
def getDagForJob : Skeleton SchedulerLock := withLock executor skip

/-- `DAGExecutor.start_dag`: the roots are queued. -/
def startDag : Skeleton SchedulerLock := withLock executor (many queueJob)

/-- `DAGExecutor.on_job_complete`: an unknown job, or the dependents that
became ready and the completion check. -/
def onJobComplete : Skeleton SchedulerLock :=
  withLock executor (alt skip (seq (many queueJob) checkDagCompletion))

/-- `DAGExecutor.on_job_failed`: an unknown job, `_fail_dag`, or the
completion check. -/
def onJobFailed : Skeleton SchedulerLock :=
  withLock executor (alt skip checkDagCompletion)

/-- `DAGExecutor.cancel_dag`: every job that is not finished is cancelled. -/
def cancelDag : Skeleton SchedulerLock := withLock executor (many cancelJob)

/-- `Scheduler.submit_dag`: `validate` raises, or the DAG is started. -/
def submitDag : Skeleton SchedulerLock := withLock scheduler (alt skip startDag)

/-- `Scheduler.get_next_job`: the queue's lock only. -/
def getNextJob : Skeleton SchedulerLock := skip

/-- `Scheduler.complete_job`: the job is unknown or its transition refused, or
the executor is asked for its DAG, and told if there is one. -/
def completeJob : Skeleton SchedulerLock :=
  withLock scheduler (alt skip (seq getDagForJob (alt skip onJobComplete)))

/-- `Scheduler.fail_job`: the job is unknown, its transition refused or it is
retried, or the executor is asked for its DAG, and told if there is one. -/
def failJob : Skeleton SchedulerLock :=
  withLock scheduler (alt skip (seq getDagForJob (alt skip onJobFailed)))

/-- `Scheduler.run_job`, which does not take the scheduler's lock: a transition
is refused or the job is retried, or the executor is asked for its DAG, and
told of the success or the failure if there is one. -/
def runJob : Skeleton SchedulerLock :=
  alt skip (seq getDagForJob (alt skip (alt onJobComplete onJobFailed)))

/-- `Scheduler.get_stats`: the executor's `get_stats` is one of its parts. -/
def getStats : Skeleton SchedulerLock := withLock scheduler (withLock executor skip)

end Locking

/-- The public operations. -/
inductive Operation
  | submit | submitDag | getNextJob | completeJob | failJob | runJob | cancelJob
  | cancelDag | getStats
  deriving DecidableEq

namespace Operation

open SchedulerLock

/-- The locking of an operation. Calls of other operations are put in with their own locking. -/
def skeleton : Operation → Skeleton SchedulerLock
  | submit => Locking.submit
  | submitDag => Locking.submitDag
  | getNextJob => Locking.getNextJob
  | completeJob => Locking.completeJob
  | failJob => Locking.failJob
  | runJob => Locking.runJob
  | cancelJob => Locking.cancelJob
  | cancelDag => Locking.cancelDag
  | getStats => Locking.getStats

/-- **Each operation keeps one order**: it takes the executor's lock inside
the scheduler's only, or the scheduler's inside the executor's only. -/
theorem within_or (op : Operation) :
    op.skeleton.within scheduler executor = true
      ∨ op.skeleton.within executor scheduler = true := by
  cases op <;> decide

end Operation

/-- **A call**: an operation and the lock actions it made, which are among
those its body can make. -/
structure Call where
  /-- The operation called. -/
  op : Operation
  /-- The actions the call makes on the two locks. -/
  trace : List (LockOp SchedulerLock)
  /-- They are a trace of the operation's body. -/
  isTrace : op.skeleton.Trace trace

namespace Call

open SchedulerLock

/-- The program of a thread: its calls, one after the other. -/
def program (calls : List Call) : List (LockOp SchedulerLock) :=
  (calls.map Call.trace).flatten

theorem balanced_traces (calls : List Call) :
    ∀ t ∈ calls.map Call.trace, ∀ l, lockDepth l t = 0 := by
  intro t ht l
  obtain ⟨c, -, rfl⟩ := List.mem_map.mp ht
  exact c.isTrace.balanced l

theorem balanced_program (calls : List Call) (l : SchedulerLock) :
    lockDepth l (program calls) = 0 := by
  induction calls with
  | nil => rfl
  | cons c calls ih =>
    show lockDepth l (c.trace ++ program calls) = 0
    rw [lockDepth_append, c.isTrace.balanced, ih]
    rfl

/-- A call that takes one lock inside the other comes, in its thread's
program, after balanced work, and begins with a stretch on the outer lock
that leads to the inner acquisition. -/
theorem exists_section {calls : List Call} {c : Call} (hc : c ∈ calls)
    {a b : SchedulerLock} (hab : a ≠ b) (hn : LockNests a b c.trace) :
    ∃ w q r, program calls = w ++ (q ++ .acquire b :: r)
      ∧ (∀ l, lockDepth l w = 0) ∧ (∀ op ∈ q, op.lock = a) ∧ 0 < lockDepth a q := by
  have hw : c.op.skeleton.within a b = true := by
    have horder := c.op.within_or
    have hother : c.op.skeleton.within b a ≠ true :=
      fun h => c.isTrace.not_nests_of_within h hn
    cases a <;> cases b
    · exact absurd rfl hab
    · exact horder.resolve_right hother
    · exact horder.resolve_left hother
    · exact absurd rfl hab
  have honly : ∀ l : SchedulerLock, l = a ∨ l = b := by
    intro l
    cases l <;> cases a <;> cases b <;> simp_all
  obtain ⟨q, r, ht, hq, hd⟩ := c.isTrace.first_nested hab honly hw hn
  obtain ⟨before, after, rfl⟩ := List.append_of_mem hc
  refine ⟨program before, q, r ++ program after, ?_, balanced_program before, hq, hd⟩
  show ((before ++ c :: after).map Call.trace).flatten = _
  rw [List.map_append, List.flatten_append, List.map_cons, List.flatten_cons, ht,
    List.append_assoc]
  rfl

end Call

section Deadlock

open SchedulerLock LockState

variable {ι : Type*} [DecidableEq ι]

/-- **A family of threads is free of deadlock** if no interleaving of their
calls reaches a state in which one holds the scheduler's lock and waits for
the executor's while another holds the executor's and waits for the
scheduler's. -/
def DeadlockFree (calls : ι → List Call) : Prop :=
  ∀ s, Reachable (fun i => Call.program (calls i)) s → ¬ s.Deadlock scheduler executor

/-- **Threads are free of deadlock exactly when no two of them nest the two
locks in opposite orders**: none makes a call that takes the executor's lock
while it holds the scheduler's, where a different one makes a call that takes
the scheduler's while it holds the executor's. -/
theorem deadlockFree_iff (calls : ι → List Call) :
    DeadlockFree calls ↔
      ¬ ∃ i j, i ≠ j ∧ (∃ c ∈ calls i, LockNests scheduler executor c.trace)
        ∧ (∃ c ∈ calls j, LockNests executor scheduler c.trace) := by
  constructor
  · rintro free ⟨i, j, hij, ⟨c, hc, hn⟩, ⟨c', hc', hn'⟩⟩
    obtain ⟨wi, qi, ri, hi, bi, oi, di⟩ := Call.exists_section hc (by decide) hn
    obtain ⟨wj, qj, rj, hj, bj, oj, dj⟩ := Call.exists_section hc' (by decide) hn'
    obtain ⟨s, hs, dead⟩ := deadlock_of_sections (p := fun i => Call.program (calls i))
      (by decide) hij hi hj bi bj oi oj di dj
    exact free s hs dead
  · intro none s hs dead
    obtain ⟨i, j, hij, hi, hj⟩ := dead.nests hs
    obtain ⟨t, ht, hn⟩ := hi.of_flatten (Call.balanced_traces (calls i))
    obtain ⟨u, hu, hn'⟩ := hj.of_flatten (Call.balanced_traces (calls j))
    obtain ⟨c, hc, rfl⟩ := List.mem_map.mp ht
    obtain ⟨c', hc', rfl⟩ := List.mem_map.mp hu
    exact none ⟨i, j, hij, ⟨c, hc, hn⟩, ⟨c', hc', hn'⟩⟩

/-- `complete_job` of a job that belongs to a DAG and releases nothing. -/
def completeJobOfDag : Call where
  op := .completeJob
  trace := [LockOp.acquire scheduler, LockOp.acquire executor, LockOp.release executor,
    LockOp.acquire executor, LockOp.release executor, LockOp.release scheduler]
  isTrace := .withLock (.right (.seq (.withLock .skip)
    (.right (.withLock (.right (.seq .none .none))))))

/-- `cancel_dag` of a DAG with one unfinished job. -/
def cancelDagOfOne : Call where
  op := .cancelDag
  trace := [LockOp.acquire executor, LockOp.acquire scheduler, LockOp.release scheduler,
    LockOp.release executor]
  isTrace := .withLock (.once (.withLock .skip) .none)

/-- **Two threads can deadlock**: one completes a job of a DAG while another
cancels a DAG. -/
theorem deadlock_completeJob_cancelDag :
    ¬ ∀ calls : Bool → List Call, DeadlockFree calls := by
  intro free
  have h := (deadlockFree_iff
    (fun i : Bool => if i then [completeJobOfDag] else [cancelDagOfOne])).mp (free _)
  refine h ⟨true, false, by decide, ⟨completeJobOfDag, List.mem_singleton_self _, ?_⟩,
    ⟨cancelDagOfOne, List.mem_singleton_self _, ?_⟩⟩
  · exact ⟨[.acquire scheduler], _, rfl, by decide, by decide⟩
  · exact ⟨[.acquire executor], _, rfl, by decide, by decide⟩

end Deadlock

end JobOrchestrator
