import JobOrchestrator.Core.State
import JobOrchestrator.Queue.PriorityQueue
import JobOrchestrator.Scheduler.DAGExecutor

/-!
# The scheduler below the DAG executor

The part of `scheduler/scheduler.py` that the DAG executor calls back into:
the job objects, the job store, the queue and the statistics, with `submit`
and `cancel_job`. These two never call the executor, so they are functions
of this part alone, and it is the state of the executor's host.

An operation that raises keeps what it had done before, so each returns the
state together with the answer or the exception.
-/

namespace JobOrchestrator

/-- `_stats`. -/
structure SchedulerStats where
  jobsSubmitted : ℕ := 0
  jobsCompleted : ℕ := 0
  jobsFailed : ℕ := 0
  jobsRetried : ℕ := 0
  jobsSentToDlq : ℕ := 0
  dagsSubmitted : ℕ := 0
  dagsCompleted : ℕ := 0
  dagsFailed : ℕ := 0
  deriving DecidableEq

/-- **The job objects, the store, the queue and the statistics.** These are what the operations
on single jobs work on; graphs, the dead letter queue and the callbacks come in only where a job
ends. -/
structure SchedulerCore where
  jobs : JobTable
  /-- The ids in the job store. -/
  store : Finset UUID
  queue : ThreadSafePriorityQueue
  /-- `config.queue.max_size`. -/
  maxSize : Option ℕ
  stats : SchedulerStats

namespace SchedulerCore

/-- The state of a job object. -/
def state (c : SchedulerCore) (job : UUID) : JobState := (c.jobs.get job).state

/-- Assign fields of a job object. -/
def modifyJob (job : UUID) (f : Job → Job) (c : SchedulerCore) : SchedulerCore :=
  { c with jobs := c.jobs.modify job f }

/-- Assign the state of a job object. -/
def setState (job : UUID) (target : JobState) (c : SchedulerCore) : SchedulerCore :=
  c.modifyJob job (fun j => { j with state := target })

/-- **`StateMachine.transition`**, without hooks. The store is asked to update the
job only where it holds some job: an empty store counts as no store. -/
def transition (job : UUID) (target : JobState) (c : SchedulerCore) :
    Except OrchestratorError SchedulerCore :=
  if canTransition (c.state job) target then
    .ok { c.setState job target with
      store := if c.store.Nonempty then insert job c.store else c.store }
  else .error (.invalidStateTransition job (c.state job) target)

/-- The check of `submit` that the queue has room. -/
def atCapacity (c : SchedulerCore) : Bool :=
  match c.maxSize with
  | none => false
  | some m => decide ((m : ℤ) ≤ c.queue.len)

/-- The last part of `submit`: the job is pushed, and where the queue does not take
it, it is pending again and taken out of the store. -/
def enqueue (job : UUID) (c : SchedulerCore) :
    SchedulerCore × Except OrchestratorError String :=
  match c.queue.push (c.jobs.get job) with
  | (false, _) =>
    ({ c.setState job .pending with store := c.store.erase job },
      .error (.queueFull c.queue.len (c.maxSize.getD 0)))
  | (true, queue) =>
    ({ c with
        queue := queue
        stats := { c.stats with jobsSubmitted := c.stats.jobsSubmitted + 1 } },
      .ok job.str)

/-- `submit` past its checks: the job is stored, scheduled and pushed. -/
def storeAndPush (job : UUID) (c : SchedulerCore) :
    SchedulerCore × Except OrchestratorError String :=
  match ({ c with store := insert job c.store } : SchedulerCore).transition job .scheduled with
  | .error error => ({ c with store := insert job c.store }, .error error)
  | .ok scheduled => scheduled.enqueue job

/-- **`submit`**. The job is stored before its state is checked, which is why a refusal by the
state leaves it in the store. -/
def submit (job : UUID) (c : SchedulerCore) :
    SchedulerCore × Except OrchestratorError String :=
  if job ∈ c.store then (c, .error (.jobAlreadyExists job))
  else if c.atCapacity then (c, .error (.queueFull c.queue.len (c.maxSize.getD 0)))
  else c.storeAndPush job

/-- The states in which a job can be cancelled. -/
def cancellable (s : JobState) : Bool :=
  decide (s = .pending ∨ s = .scheduled ∨ s = .retrying)

/-- **`cancel_job`**. A job that is PENDING, SCHEDULED or RETRYING is taken out of the queue and
cancelled; any other one is left alone. -/
def cancelJob (now : Time) (job : UUID) (c : SchedulerCore) :
    SchedulerCore × Except OrchestratorError Bool :=
  if job ∉ c.store then (c, .error (.jobNotFound job))
  else if cancellable (c.state job) = false then (c, .ok false)
  else
    let dequeued := { c with queue := (c.queue.remove job).2 }
    match dequeued.transition job .cancelled with
    | .error error => (dequeued, .error error)
    | .ok cancelled =>
      (cancelled.modifyJob job (fun j => { j with completedAt := some (.utcnow now) }), .ok true)

/-- **The scheduler as the executor's host**: its callbacks count the DAGs that
ended. -/
def host (now : Time) : Host SchedulerCore where
  submit _ job c := c.submit job
  cancelJob job c := c.cancelJob now job
  onDagComplete _ _ c :=
    { c with stats := { c.stats with dagsCompleted := c.stats.dagsCompleted + 1 } }
  onDagFailed _ _ c :=
    { c with stats := { c.stats with dagsFailed := c.stats.dagsFailed + 1 } }

/-! ## What the operations do -/

variable {c : SchedulerCore} {job k : UUID}

theorem state_modifyJob_of_ne (f : Job → Job) (h : k ≠ job) :
    (c.modifyJob job f).state k = c.state k := by
  unfold state modifyJob
  rw [JobTable.get_modify_of_ne _ h]

theorem state_modifyJob_self (f : Job → Job) :
    (c.modifyJob job f).state job = (f (c.jobs.get job)).state := by
  unfold state modifyJob
  rw [JobTable.get_modify_self]

/-- Assigning fields other than the state leaves every state as it is. -/
theorem state_modifyJob {f : Job → Job} (h : ∀ j, (f j).state = j.state) (k : UUID) :
    (c.modifyJob job f).state k = c.state k := by
  by_cases hk : k = job
  · rw [hk, state_modifyJob_self, h]
    rfl
  · exact state_modifyJob_of_ne f hk

theorem state_setState (target : JobState) (k : UUID) :
    (c.setState job target).state k = if k = job then target else c.state k := by
  by_cases hk : k = job
  · rw [if_pos hk, hk]
    exact state_modifyJob_self _
  · rw [if_neg hk]
    exact state_modifyJob_of_ne _ hk

/-- Giving a job the state it had changes nothing. -/
theorem setState_setState (c : SchedulerCore) (job : UUID) (target : JobState) :
    (c.setState job target).setState job (c.state job) = c := by
  have hjobs : (c.jobs.modify job (fun j => { j with state := target })).modify job
      (fun j => { j with state := c.state job }) = c.jobs := by
    refine JobTable.modify_modify_eq ?_
    exact c.jobs.with_id job
  unfold setState modifyJob
  rw [hjobs]

/-- **A transition that succeeds** was possible, and writes one state and the
store. -/
theorem transition_ok {target : JobState} {c' : SchedulerCore}
    (h : c.transition job target = .ok c') :
    canTransition (c.state job) target = true
      ∧ c' = { c.setState job target with
          store := if c.store.Nonempty then insert job c.store else c.store } := by
  unfold transition at h
  split at h
  · rename_i hcan
    exact ⟨hcan, (Except.ok.inj h).symm⟩
  · cases h

theorem transition_error {target : JobState} {error : OrchestratorError}
    (h : c.transition job target = .error error) :
    canTransition (c.state job) target = false := by
  unfold transition at h
  split at h
  · cases h
  · rename_i hcan
    exact Bool.eq_false_iff.mpr hcan

theorem transition_of_can {target : JobState} (h : canTransition (c.state job) target = true) :
    c.transition job target = .ok { c.setState job target with
      store := if c.store.Nonempty then insert job c.store else c.store } :=
  if_pos h

/-- What a successful transition makes of the states. It assigns one state and leaves those of
all other jobs. -/
theorem state_transition {target : JobState} {c' : SchedulerCore}
    (h : c.transition job target = .ok c') (k : UUID) :
    c'.state k = if k = job then target else c.state k := by
  rw [(transition_ok h).2]
  exact state_setState target k

/-- A successful transition of a stored job leaves the store as it is. -/
theorem store_transition {target : JobState} {c' : SchedulerCore}
    (h : c.transition job target = .ok c') (stored : job ∈ c.store) : c'.store = c.store := by
  rw [(transition_ok h).2]
  show (if c.store.Nonempty then insert job c.store else c.store) = c.store
  split
  · exact Finset.insert_eq_of_mem stored
  · rfl

theorem queue_transition {target : JobState} {c' : SchedulerCore}
    (h : c.transition job target = .ok c') : c'.queue = c.queue := by
  rw [(transition_ok h).2]
  rfl

/-- **The four ways `submit` ends.** Only the last one answers; the second one raises, but leaves
behind what it has stored. -/
inductive Submitted (c : SchedulerCore) (job : UUID) :
    SchedulerCore × Except OrchestratorError String → Prop
  /-- The job is known, or there is no room: nothing is changed. -/
  | refused (reason : job ∈ c.store ∨ c.atCapacity = true) (error : OrchestratorError) :
    Submitted c job (c, .error error)
  /-- The state of the job does not allow it: the job stays in the store. -/
  | stranded (fresh : job ∉ c.store) (room : c.atCapacity = false)
      (state : canTransition (c.state job) .scheduled = false) (error : OrchestratorError) :
    Submitted c job ({ c with store := insert job c.store }, .error error)
  /-- The queue does not take it: the job is pending again, and not stored. -/
  | undone (fresh : job ∉ c.store) (room : c.atCapacity = false)
      (state : canTransition (c.state job) .scheduled = true) (full : c.queue.full = true)
      (c' : SchedulerCore) (states : ∀ k, c'.state k = if k = job then .pending else c.state k)
      (store : c'.store = c.store) (queue : c'.queue = c.queue) (error : OrchestratorError) :
    Submitted c job (c', .error error)
  /-- The job is scheduled, and in the queue. -/
  | accepted (fresh : job ∉ c.store) (room : c.atCapacity = false)
      (state : canTransition (c.state job) .scheduled = true) (notFull : c.queue.full = false)
      (c' : SchedulerCore) (states : ∀ k, c'.state k = if k = job then .scheduled else c.state k)
      (store : c'.store = insert job c.store)
      (queue : ∃ j : Job, j.id = job ∧ c'.queue = c.queue.insert j)
      (maxSize : c'.maxSize = c.maxSize) (text : String) :
    Submitted c job (c', .ok text)

theorem submit_cases (c : SchedulerCore) (job : UUID) : Submitted c job (c.submit job) := by
  unfold submit
  split
  · rename_i hknown
    exact .refused (Or.inl hknown) _
  · rename_i hfresh
    split
    · rename_i hcap
      exact .refused (Or.inr hcap) _
    · rename_i hroom
      rw [Bool.not_eq_true] at hroom
      unfold storeAndPush
      split
      · rename_i error hrefused
        have hcannot := transition_error hrefused
        exact .stranded hfresh hroom hcannot error
      · rename_i scheduled hscheduled
        obtain ⟨hcan, heq⟩ := transition_ok hscheduled
        have hstore : scheduled.store = insert job c.store :=
          store_transition hscheduled (Finset.mem_insert_self job c.store)
        have hqueue := queue_transition hscheduled
        have hstate := state_transition hscheduled
        unfold enqueue ThreadSafePriorityQueue.push
        rw [show scheduled.queue = c.queue from hqueue]
        cases hfull : c.queue.full with
        | true =>
          -- "Rollback": the state and the store are put back, the queue was not touched
          refine .undone hfresh hroom hcan hfull _ ?_ ?_ ?_ _
          · intro k
            show (scheduled.setState job .pending).state k = _
            rw [state_setState, hstate]
            by_cases hk : k = job
            · rw [if_pos hk, if_pos hk]
            · rw [if_neg hk, if_neg hk, if_neg hk]
              rfl
          · show scheduled.store.erase job = _
            rw [hstore, Finset.erase_insert hfresh]
          · exact hqueue
        | false =>
          refine .accepted hfresh hroom hcan hfull _ ?_ ?_ ?_ ?_ _
          · exact hstate
          · exact hstore
          · exact ⟨scheduled.jobs.get job, JobTable.id_get _ job, rfl⟩
          · rw [heq]
            rfl

/-- What holds of the four ways holds of `submit`. -/
@[elab_as_elim]
theorem submit_elim {motive : SchedulerCore × Except OrchestratorError String → Prop}
    (h : ∀ r, Submitted c job r → motive r) : motive (c.submit job) :=
  h _ (submit_cases c job)

/-- **The two ways `cancel_job` ends.** -/
inductive Cancelled (c : SchedulerCore) (job : UUID) :
    SchedulerCore × Except OrchestratorError Bool → Prop
  /-- The job is unknown, or not in a state to be cancelled: nothing is changed. -/
  | unchanged (reason : job ∉ c.store ∨ cancellable (c.state job) = false)
      (answer : Except OrchestratorError Bool) (no : answer ≠ .ok true) :
    Cancelled c job (c, answer)
  /-- The job is cancelled, and marked in the queue. -/
  | done (stored : job ∈ c.store) (state : cancellable (c.state job) = true)
      (c' : SchedulerCore) (states : ∀ k, c'.state k = if k = job then .cancelled else c.state k)
      (store : c'.store = c.store) (queue : c'.queue = (c.queue.remove job).2)
      (maxSize : c'.maxSize = c.maxSize) :
    Cancelled c job (c', .ok true)

theorem canTransition_of_cancellable {s : JobState} (h : cancellable s = true) :
    canTransition s .cancelled = true := by
  cases s <;> first | rfl | exact absurd h (by decide)

theorem cancelJob_cases (c : SchedulerCore) (now : Time) (job : UUID) :
    Cancelled c job (c.cancelJob now job) := by
  unfold cancelJob
  split
  · rename_i hunknown
    exact .unchanged (Or.inl hunknown) _ (by simp)
  · rename_i hstored
    rw [not_not] at hstored
    split
    · rename_i hstate
      exact .unchanged (Or.inr hstate) _ (by simp)
    · rename_i hstate
      rw [Bool.not_eq_false] at hstate
      have hcan : canTransition (({ c with queue := (c.queue.remove job).2 } :
          SchedulerCore).state job) .cancelled = true := canTransition_of_cancellable hstate
      simp only [transition_of_can hcan]
      refine .done hstored hstate _ (fun k => ?_) ?_ rfl rfl
      · rw [state_modifyJob (fun _ => by rfl)]
        exact state_setState .cancelled k
      · show (if c.store.Nonempty then insert job c.store else c.store) = c.store
        rw [if_pos ⟨job, hstored⟩, Finset.insert_eq_of_mem hstored]

/-- What holds of the two ways holds of `cancel_job`. -/
@[elab_as_elim]
theorem cancelJob_elim {now : Time}
    {motive : SchedulerCore × Except OrchestratorError Bool → Prop}
    (h : ∀ r, Cancelled c job r → motive r) : motive (c.cancelJob now job) :=
  h _ (cancelJob_cases c now job)

end SchedulerCore

end JobOrchestrator
