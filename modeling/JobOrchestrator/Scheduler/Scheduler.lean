import JobOrchestrator.Core.Cycles
import JobOrchestrator.Scheduler.Core
import JobOrchestrator.Scheduler.DeadLetterQueue
import JobOrchestrator.Scheduler.Retry

/-!
# The scheduler

`scheduler/scheduler.py` over its parts. `complete_job`, `fail_job`,
`submit_dag` and `cancel_job` hold the scheduler's lock for what they do,
`cancel_dag` that of the executor, and `get_next_job` that of the queue, after a
look at `_running`. Each is one function here, as are the dead letter
operations, one after the other as they are called.
`run_job` holds none: it is given as the steps of `Runner.lean`. They do not wait
for any of these locks, so that in the program one of them may fall between two
writes of `cancel_job`, say, or between a pop and the return of `get_next_job`.
That each of these is one step is an abstraction of the model.

The callbacks for completed and failed jobs are user code. They are numbered
in the order they were registered, and their calls are recorded.
-/

namespace JobOrchestrator

/-- `prepare_for_retry` on the object of a job. -/
def SchedulerCore.prepareForRetry (handler : Retry.RetryHandler) (now : Time) (draw : ℚ)
    (job : UUID) (c : SchedulerCore) : Except OrchestratorError SchedulerCore :=
  match handler.prepareForRetry now draw (c.jobs.get job) with
  | .error error => .error error
  | .ok j => .ok (c.modifyJob job (fun _ => j))

namespace SchedulerCore

variable {handler : Retry.RetryHandler} {now : Time} {draw : ℚ} {job : UUID}
  {c prepared : SchedulerCore} {error : OrchestratorError}

/-- **It writes two fields of the job**, where nothing overflows. -/
theorem prepareForRetry_of_fits (h : handler.Fits now draw (c.jobs.get job)) :
    c.prepareForRetry handler now draw job = .ok (c.modifyJob job (handler.prepared now draw)) := by
  unfold prepareForRetry
  rw [Retry.RetryHandler.prepareForRetry_of_fits h]
  rfl

theorem prepareForRetry_of_not_fits (h : ¬ handler.Fits now draw (c.jobs.get job)) :
    ∃ text, c.prepareForRetry handler now draw job = .error (.overflow text) := by
  obtain ⟨text, hraised⟩ := Retry.RetryHandler.prepareForRetry_of_not_fits h
  unfold prepareForRetry
  rw [hraised]
  exact ⟨text, rfl⟩

theorem prepareForRetry_ok (h : c.prepareForRetry handler now draw job = .ok prepared) :
    handler.Fits now draw (c.jobs.get job)
      ∧ prepared = c.modifyJob job (handler.prepared now draw) := by
  by_cases hfits : handler.Fits now draw (c.jobs.get job)
  · rw [prepareForRetry_of_fits hfits, Except.ok.injEq] at h
    exact ⟨hfits, h.symm⟩
  · obtain ⟨text, hraised⟩ := prepareForRetry_of_not_fits hfits
    rw [hraised] at h
    cases h

theorem prepareForRetry_error (h : c.prepareForRetry handler now draw job = .error error) :
    ¬ handler.Fits now draw (c.jobs.get job) ∧ ∃ text, error = .overflow text := by
  by_cases hfits : handler.Fits now draw (c.jobs.get job)
  · rw [prepareForRetry_of_fits hfits] at h
    cases h
  · obtain ⟨text, hraised⟩ := prepareForRetry_of_not_fits hfits
    rw [hraised, Except.error.injEq] at h
    exact ⟨hfits, text, h.symm⟩

end SchedulerCore

/-- One call of a callback. -/
structure CallbackCall where
  callback : ℕ
  job : UUID
  result : JobResult

/-- **`Scheduler`**. Hooks and logging are left out; what the callbacks are called with is
recorded, for it is all that callers see of them. -/
structure Scheduler where
  core : SchedulerCore
  executor : DAGExecutor
  dlq : DeadLetterQueue
  retryHandler : Retry.RetryHandler
  /-- `_running`. -/
  running : Bool
  /-- `_on_job_complete_callbacks`. -/
  onJobCompleteCallbacks : List ℕ
  /-- `_on_job_failed_callbacks`. -/
  onJobFailedCallbacks : List ℕ
  /-- The calls made to callbacks, oldest first. -/
  calls : List CallbackCall

namespace Scheduler

/-- **A scheduler that was started**, over job objects of any content. -/
def new (jobs : JobTable) (maxSize maxEntries : Option ℕ) (retryHandler : Retry.RetryHandler)
    (onJobCompleteCallbacks onJobFailedCallbacks : List ℕ) : Scheduler where
  core := ⟨jobs, ∅, .new maxSize, maxSize, {}⟩
  executor := {}
  dlq := { maxEntries := maxEntries }
  retryHandler := retryHandler
  running := true
  onJobCompleteCallbacks := onJobCompleteCallbacks
  onJobFailedCallbacks := onJobFailedCallbacks
  calls := []

variable (order : IterationOrder UUID) (now : Time)

/-- Replace the part below the executor. -/
def withCore (s : Scheduler) (core : SchedulerCore) : Scheduler := { s with core := core }

/-- Change the statistics. -/
def count (f : SchedulerStats → SchedulerStats) (s : Scheduler) : Scheduler :=
  s.withCore { s.core with stats := f s.core.stats }

/-! ## Submitting and dequeuing -/

/-- `submit`. -/
def submit (job : UUID) (s : Scheduler) : Scheduler × Except OrchestratorError String :=
  let r := s.core.submit job
  (s.withCore r.1, r.2)

/-- The DAG object after `submit_dag` wrote to it. -/
def scheduledDag (g : DAG) : DAG :=
  { g with state := .scheduled, startedAt := some (.utcnow now) }

/-- **`submit_dag`**. The graph is validated, and given to the executor. -/
def submitDag (g : DAG) (s : Scheduler) : Scheduler × Except OrchestratorError String :=
  match g.validate order with
  | .error error => (s, .error error)
  | .ok _ =>
    let r := s.executor.startDag (SchedulerCore.host now) now (scheduledDag now g) s.core
    (({ s with executor := r.2.1, core := r.2.2 } : Scheduler).count
      (fun st => { st with dagsSubmitted := st.dagsSubmitted + 1 }), .ok g.id.str)

/-- **`get_next_job`**, as one iteration of the queue's `pop`. -/
def getNextJob (s : Scheduler) : Option UUID × Scheduler :=
  if s.running = false ∨ s.core.queue.shutdown = true then (none, s)
  else
    let r := s.core.queue.dequeue now
    (r.1, s.withCore { s.core with queue := r.2 })

/-! ## Cancelling -/

/-- `cancel_job`. -/
def cancelJob (job : UUID) (s : Scheduler) : Scheduler × Except OrchestratorError Bool :=
  let r := s.core.cancelJob now job
  (s.withCore r.1, r.2)

/-- `cancel_dag`. -/
def cancelDag (dagId : UUID) (s : Scheduler) : Scheduler × Bool :=
  let r := s.executor.cancelDag (SchedulerCore.host now) now dagId s.core
  ({ s with executor := r.2.1, core := r.2.2 }, r.1)

/-! ## The parts of a report

What completing and failing a job have in common between `run_job` and the
two operations the other workers call. -/

/-- Ask the executor for the job's DAG, and tell it of the completion if there is
one. -/
def notifyComplete (job : UUID) (s : Scheduler) : Scheduler :=
  match s.executor.getDagForJob job with
  | none => s
  | some _ =>
    let r := s.executor.onJobComplete order (SchedulerCore.host now) now job s.core
    { s with executor := r.2.1, core := r.2.2 }

/-- Ask the executor for the job's DAG, and tell it of the failure if there is
one. -/
def notifyFailed (job : UUID) (error : String) (s : Scheduler) : Scheduler :=
  match s.executor.getDagForJob job with
  | none => s
  | some _ =>
    let r := s.executor.onJobFailed (SchedulerCore.host now) now job error s.core
    { s with executor := r.1, core := r.2 }

/-- Call a list of callbacks with a job and a result. -/
def call (callbacks : List ℕ) (job : UUID) (result : JobResult) (s : Scheduler) : Scheduler :=
  { s with calls := s.calls ++ callbacks.map (fun cb => ⟨cb, job, result⟩) }

/-- The last part of a retry: the error is cleared and the job pushed. What
`push` answers is returned here; no caller looks at it. -/
def pushRetry (job : UUID) (s : Scheduler) : Bool × Scheduler :=
  let core := s.core.modifyJob job (fun j => { j with error := none, traceback := none })
  let r := core.queue.push (core.jobs.get job)
  (r.1, s.withCore { core with queue := r.2 })

/-! ## `complete_job` and `fail_job` -/

/-- **`complete_job`**. The result is written before the transition, which may raise. -/
def completeJob (job : UUID) (result : Value) (s : Scheduler) :
    Scheduler × Except OrchestratorError Unit :=
  if job ∉ s.core.store then (s, .error (.jobNotFound job))
  else
    let updated := s.core.modifyJob job
      (fun j => { j with result := result, completedAt := some (.utcnow now) })
    match updated.transition job .completed with
    | .error error => (s.withCore updated, .error error)
    | .ok completed =>
      (((s.withCore completed).count
        (fun st => { st with jobsCompleted := st.jobsCompleted + 1 })).notifyComplete order now
          job, .ok ())

/-- The retry branch of `fail_job`. `prepare_for_retry` counts the attempt before the first
transition. -/
def failJobRetry (draw : ℚ) (job : UUID) (s : Scheduler) :
    Scheduler × Except OrchestratorError Unit :=
  match s.core.prepareForRetry s.retryHandler now draw job with
  | .error error => (s, .error error)
  | .ok prepared =>
    match prepared.transition job .retrying with
    | .error error => (s.withCore prepared, .error error)
    | .ok retrying =>
      match retrying.transition job .scheduled with
      | .error error => (s.withCore retrying, .error error)
      | .ok scheduled =>
        ((((s.withCore scheduled).pushRetry job).2).count
          (fun st => { st with jobsRetried := st.jobsRetried + 1 }), .ok ())

/-- The branch of `fail_job` for a job that is not retried. -/
def failJobFinally (traceback : String) (job : UUID) (error : PyException) (s : Scheduler) :
    Scheduler × Except OrchestratorError Unit :=
  match s.core.transition job .failed with
  | .error refused => (s, .error refused)
  | .ok failed =>
    let core := failed.modifyJob job (fun j => { j with completedAt := some (.utcnow now) })
    let dead : Scheduler :=
      { s.withCore core with dlq := s.dlq.add now (core.jobs.get job) error traceback }
    let counted := dead.count (fun st =>
      { st with jobsFailed := st.jobsFailed + 1, jobsSentToDlq := st.jobsSentToDlq + 1 })
    let called := counted.call counted.onJobFailedCallbacks job
      { jobId := job, success := false, error := some error.message, traceback := some traceback }
    (called.notifyFailed now job error.message, .ok ())

/-- **`fail_job`**. The error is written first; the policy decides between the retry branch and
the end, where the dead letter queue gets an entry. -/
def failJob (draw : ℚ) (traceback : String) (job : UUID) (error : PyException)
    (s : Scheduler) : Scheduler × Except OrchestratorError Unit :=
  if job ∉ s.core.store then (s, .error (.jobNotFound job))
  else
    let noted := s.withCore (s.core.modifyJob job
      (fun j => { j with error := some error.message, traceback := some traceback }))
    if noted.retryHandler.shouldRetry (noted.core.jobs.get job) (some error) then
      noted.failJobRetry now draw job
    else noted.failJobFinally now traceback job error

/-! ## The dead letter operations -/

/-- A modifier of `requeue`, which changes a job in place: the job as it leaves it, and
what it raises. -/
abbrev Modifier := Job → Job × Option PyException

/-- What `requeue` answers: nothing, whether the job was submitted, or the job. -/
inductive Requeued
  | nothing
  | submitted (yes : Bool)
  | job (id : UUID)

/-- **`DeadLetterQueue.requeue`** on the queue of this scheduler, which it is given as
well where the job is to be submitted: the entry is taken out and its job reset;
where the submission raises, the entry is put back. -/
def requeue (identifier : DLQIdentifier) (resubmit resetRetryCount : Bool)
    (resolvedBy : Option String) (modifier : Option Modifier) (s : Scheduler) :
    Scheduler × Except PyException Requeued :=
  match s.dlq.getEntry identifier with
  | none => (s, .ok (if resubmit then .submitted false else .nothing))
  | some entry =>
    let reset := s.core.modifyJob entry.job (fun j =>
      { j with
        retryCount := if resetRetryCount then 0 else j.retryCount
        state := .pending
        error := none
        traceback := none })
    let modify : Modifier := modifier.getD (fun j => (j, none))
    let modified := s.withCore (reset.modifyJob entry.job (fun j => (modify j).1))
    match (modify (reset.jobs.get entry.job)).2 with
    | some error => (modified, .error error)
    | none =>
      let marked := DeadLetterQueue.requeued now resolvedBy entry
      let taken : Scheduler :=
        { modified with dlq := (s.dlq.update marked).removeEntry entry.entryId }
      if resubmit then
        match taken.submit entry.job with
        | (submitted, .ok _) => (submitted, .ok (.submitted true))
        | (refused, .error _) =>
          ({ refused with dlq := refused.dlq.registerEntry marked }, .ok (.submitted false))
      else (taken, .ok (.job entry.job))

/-- **A call of a method of the dead letter queue with `entry_id=`.** The parameter
is called `identifier` there, so the call raises a `TypeError`. -/
def callWithEntryId (method : String) (s : Scheduler) : Scheduler × Except PyException Bool :=
  (s, .error ⟨["TypeError"], "DeadLetterQueue." ++ method
    ++ "() got an unexpected keyword argument 'entry_id'"⟩)

/-- `requeue_dlq_entry`. It calls `requeue` with a keyword that this does not have, so nothing of
it is ever carried out. -/
def requeueDlqEntry (_entryId : DLQIdentifier) (_resetRetryCount : Bool)
    (_resolvedBy : Option String) : Scheduler → Scheduler × Except PyException Bool :=
  callWithEntryId "requeue"

/-- `discard_dlq_entry`. -/
def discardDlqEntry (_entryId : DLQIdentifier) (_notes : String)
    (_resolvedBy : Option String) : Scheduler → Scheduler × Except PyException Bool :=
  callWithEntryId "discard"

/-- `resolve_dlq_entry`. -/
def resolveDlqEntry (_entryId : DLQIdentifier) (_notes : String)
    (_resolvedBy : Option String) : Scheduler → Scheduler × Except PyException Bool :=
  callWithEntryId "resolve"

end Scheduler

end JobOrchestrator
