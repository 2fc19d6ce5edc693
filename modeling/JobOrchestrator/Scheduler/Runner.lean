import JobOrchestrator.Scheduler.Scheduler

/-!
# Running a job, step by step

`Scheduler.run_job` with `JobRunner.run` inside it. Neither holds the
scheduler's lock, so other threads can act between any two of their steps.
Each check of the job's state, each transition, the call of the job's
function, the push of a retry and the report to the executor is a step of
its own here, named by a program counter. `Task.step` is one of them.

`Scheduler.runJob` takes the steps one after the other with nothing in
between. `runJob_finished` proves that it comes to an end.
-/

namespace JobOrchestrator

/-- **Where a worker is with a job.** The later ones carry the `JobResult` that `JobRunner.run`
returned. No lock is held between two of them, so each test, each transition and each counter is
a step of its own. -/
inductive RunPc
  /-- The job was returned by `get_next_job`. -/
  | dequeued
  /-- `if job.state == JobState.PENDING`. -/
  | checkPending
  /-- The transition of a pending job to SCHEDULED. -/
  | toScheduled
  /-- `if job.state == JobState.SCHEDULED`. -/
  | checkScheduled
  /-- The transition to RUNNING. -/
  | toRunning
  /-- `elif job.state != JobState.RUNNING`. -/
  | checkRunning
  /-- `if job.state == JobState.RETRYING`. -/
  | checkRetrying
  /-- The transition of a retrying job to SCHEDULED. -/
  | retryToScheduled
  /-- `if self._state_machine.can_transition(job.state, JobState.RUNNING)`. -/
  | checkCanRun
  /-- The job's function is called. -/
  | invoke
  /-- `run_job` looks at the result. -/
  | handle (result : JobResult)
  /-- The transition to COMPLETED. -/
  | toCompleted (result : JobResult)
  /-- `self._stats["jobs_completed"] += 1`, which no lock guards. -/
  | countCompleted (result : JobResult)
  | notifyComplete (result : JobResult)
  | callComplete (result : JobResult)
  /-- The transition to RETRYING. -/
  | toRetrying (result : JobResult)
  /-- The transition back to SCHEDULED. -/
  | backToScheduled (result : JobResult)
  /-- The retry is pushed. -/
  | push (result : JobResult)
  /-- The retry was pushed. Whether the queue took it is not looked at. -/
  | countRetry (pushed : Bool) (result : JobResult)
  /-- The transition to FAILED. -/
  | toFailed (result : JobResult)
  /-- `self._stats["jobs_failed"] += 1`. -/
  | countFailed (result : JobResult)
  | notifyFailed (result : JobResult)
  | callFailed (result : JobResult)

/-- **A job in a worker's hands.** What the worker has found out so far is in the place it has
come to. -/
structure Task where
  job : UUID
  startedAt : DateTime := ⟨0, none⟩
  pc : RunPc := .dequeued

/-- What a step reads from outside: the clock when the run started, when the
function ended and afterwards, the random draw of the retry's delay, what the
function does, and the text of its traceback. -/
structure RunInput where
  started : Time
  completed : Time
  handled : Time
  draw : ℚ
  outcome : Outcome
  traceback : String

/-- A function that returns. -/
def RunInput.returning : RunInput := ⟨0, 0, 0, 0, .returned .none, ""⟩

/-- A function that raises an exception. -/
def RunInput.raising : RunInput := ⟨0, 0, 0, 0, .raised (.plain "error"), "Traceback"⟩

/-- How a run stands after a step. -/
inductive RunStatus
  | running (task : Task)
  | returned (result : JobResult)
  | raised (error : OrchestratorError)

namespace Task

/-- Go on at another place. -/
def goto (task : Task) (pc : RunPc) : RunStatus := .running { task with pc := pc }

/-- The result `JobRunner.run` makes of an exception. -/
def failure (input : RunInput) (task : Task) (message : String) : JobResult where
  jobId := task.job
  success := false
  error := some message
  traceback := some input.traceback
  startedAt := some task.startedAt
  completedAt := some (.utcnow input.completed)

/-- The result of a function that returned. -/
def success (input : RunInput) (task : Task) (value : Value) : JobResult where
  jobId := task.job
  success := true
  result := value
  startedAt := some task.startedAt
  completedAt := some (.utcnow input.completed)

/-- A transition inside `JobRunner.run`, where an exception ends the run of the
function. -/
def transit (input : RunInput) (task : Task) (target : JobState) (next : RunPc)
    (s : Scheduler) : Scheduler × RunStatus :=
  match s.core.transition task.job target with
  | .ok core => (s.withCore core, task.goto next)
  | .error error => (s, task.goto (.handle (task.failure input error.message)))

/-- A transition of `run_job` itself, with what is done after it; an exception is
raised. -/
def transitOrRaise (task : Task) (target : JobState) (next : RunPc)
    (after : Scheduler → Scheduler) (s : Scheduler) : Scheduler × RunStatus :=
  match s.core.transition task.job target with
  | .ok core => (after (s.withCore core), task.goto next)
  | .error error => (s, .raised error)

/-- `error or default`, of an optional text. -/
def orText (error : Option String) (default : String) : String :=
  match error with
  | none => default
  | some text => if text = "" then default else text

/-- **One step of `run_job`.** The places are those of `RunPc`, and each step does what the
source does there and no more. -/
def step (order : IterationOrder UUID) (input : RunInput) (task : Task) (s : Scheduler) :
    Scheduler × RunStatus :=
  match task.pc with
  | .dequeued =>
    (s, .running { task with startedAt := .utcnow input.started, pc := .checkPending })
  | .checkPending =>
    (s, task.goto (if s.core.state task.job = .pending then .toScheduled else .checkScheduled))
  | .toScheduled => task.transit input .scheduled .checkScheduled s
  | .checkScheduled =>
    (s, task.goto (if s.core.state task.job = .scheduled then .toRunning else .checkRunning))
  | .toRunning => task.transit input .running .invoke s
  | .checkRunning =>
    (s, task.goto (if s.core.state task.job ≠ .running then .checkRetrying else .invoke))
  | .checkRetrying =>
    (s, task.goto (if s.core.state task.job = .retrying then .retryToScheduled else .checkCanRun))
  | .retryToScheduled => task.transit input .scheduled .toRunning s
  | .checkCanRun =>
    -- where the transition is not possible, the function is called all the same
    (s, task.goto (if canTransition (s.core.state task.job) .running then .toRunning else .invoke))
  | .invoke =>
    let started := s.core.modifyJob task.job (fun j => { j with startedAt := some task.startedAt })
    (s.withCore started, task.goto (.handle
      (match input.outcome with
      | .returned value => task.success input value
      | .raised error => task.failure input error.message)))
  | .handle r =>
    if r.success then
      (s.withCore (s.core.modifyJob task.job
        (fun j => { j with result := r.result, completedAt := r.completedAt })),
        task.goto (.toCompleted r))
    else
      let noted := s.core.modifyJob task.job
        (fun j => { j with error := r.error, traceback := r.traceback })
      if s.retryHandler.shouldRetry (noted.jobs.get task.job)
          (some (.plain (orText r.error "Unknown"))) then
        match noted.prepareForRetry s.retryHandler input.handled input.draw task.job with
        | .error error => (s.withCore noted, .raised error)
        | .ok prepared => (s.withCore prepared, task.goto (.toRetrying r))
      else (s.withCore noted, task.goto (.toFailed r))
  | .toCompleted r => task.transitOrRaise .completed (.countCompleted r) id s
  | .countCompleted r =>
    (s.count (fun st => { st with jobsCompleted := st.jobsCompleted + 1 }),
      task.goto (.notifyComplete r))
  | .notifyComplete r =>
    (s.notifyComplete order input.handled task.job, task.goto (.callComplete r))
  | .callComplete r => (s.call s.onJobCompleteCallbacks task.job r, .returned r)
  | .toRetrying r => task.transitOrRaise .retrying (.backToScheduled r) id s
  | .backToScheduled r => task.transitOrRaise .scheduled (.push r) id s
  | .push r => ((s.pushRetry task.job).2, task.goto (.countRetry (s.pushRetry task.job).1 r))
  | .countRetry _ r =>
    (s.count (fun st => { st with jobsRetried := st.jobsRetried + 1 }), .returned r)
  | .toFailed r =>
    task.transitOrRaise .failed (.countFailed r) (fun s =>
      s.withCore (s.core.modifyJob task.job (fun j => { j with completedAt := r.completedAt }))) s
  | .countFailed r =>
    (s.count (fun st => { st with jobsFailed := st.jobsFailed + 1 }), task.goto (.notifyFailed r))
  | .notifyFailed r =>
    (s.notifyFailed input.handled task.job (orText r.error "Unknown error"),
      task.goto (.callFailed r))
  | .callFailed r => (s.call s.onJobFailedCallbacks task.job r, .returned r)

/-- Step after step, with nothing in between. -/
def drive (order : IterationOrder UUID) (input : RunInput) :
    ℕ → Task → Scheduler → Scheduler × RunStatus
  | 0, task, s => (s, .running task)
  | fuel + 1, task, s =>
    match task.step order input s with
    | (s', .running task') => drive order input fuel task' s'
    | (s', status) => (s', status)

end Task

/-- **`run_job`** without interference. All the steps of one run, as if nobody else did anything
meanwhile. -/
def Scheduler.runJob (order : IterationOrder UUID) (input : RunInput) (job : UUID)
    (s : Scheduler) : Scheduler × RunStatus :=
  Task.drive order input 16 { job := job } s

/-! ## Every run ends -/

/-- How many steps are left at most, not counting the last. -/
def RunPc.rank : RunPc → ℕ
  | dequeued => 15
  | checkPending => 14
  | toScheduled => 13
  | checkScheduled => 12
  | checkRunning => 11
  | checkRetrying => 10
  | retryToScheduled => 9
  | checkCanRun => 9
  | toRunning => 8
  | invoke => 7
  | handle _ => 6
  | toRetrying _ => 5
  | backToScheduled _ => 4
  | push _ => 3
  | toCompleted _ => 4
  | toFailed _ => 4
  | countCompleted _ => 3
  | countFailed _ => 3
  | notifyComplete _ => 2
  | notifyFailed _ => 2
  | countRetry _ _ => 1
  | callComplete _ => 1
  | callFailed _ => 1

/-- No place is further from the end than the start. -/
theorem RunPc.rank_le (pc : RunPc) : pc.rank ≤ 15 := by
  cases pc <;> simp [rank]

namespace Task

variable {order : IterationOrder UUID} {input : RunInput}

theorem transit_running {task task' : Task} {target : JobState} {next : RunPc}
    {s : Scheduler} (h : (task.transit input target next s).2 = .running task') :
    task' = { task with pc := next } ∨ ∃ r, task' = { task with pc := .handle r } := by
  unfold transit at h
  split at h
  · exact Or.inl (RunStatus.running.inj h).symm
  · exact Or.inr ⟨_, (RunStatus.running.inj h).symm⟩

theorem transitOrRaise_running {task task' : Task} {target : JobState} {next : RunPc}
    {after : Scheduler → Scheduler} {s : Scheduler}
    (h : (task.transitOrRaise target next after s).2 = .running task') :
    task' = { task with pc := next } := by
  unfold transitOrRaise at h
  split at h
  · exact (RunStatus.running.inj h).symm
  · cases h

/-- **A step stays with its job, and comes nearer to the end.** -/
theorem step_running {task task' : Task} {s : Scheduler}
    (h : (task.step order input s).2 = .running task') :
    task'.job = task.job ∧ task'.pc.rank < task.pc.rank := by
  obtain ⟨job, startedAt, pc⟩ := task
  cases pc with
  | dequeued => cases h; exact ⟨rfl, by simp [RunPc.rank]⟩
  | checkPending =>
    cases h
    refine ⟨rfl, ?_⟩
    show RunPc.rank (ite _ _ _) < 14
    split <;> simp [RunPc.rank]
  | checkScheduled =>
    cases h
    refine ⟨rfl, ?_⟩
    show RunPc.rank (ite _ _ _) < 12
    split <;> simp [RunPc.rank]
  | checkRunning =>
    cases h
    refine ⟨rfl, ?_⟩
    show RunPc.rank (ite _ _ _) < 11
    split <;> simp [RunPc.rank]
  | checkRetrying =>
    cases h
    refine ⟨rfl, ?_⟩
    show RunPc.rank (ite _ _ _) < 10
    split <;> simp [RunPc.rank]
  | checkCanRun =>
    cases h
    refine ⟨rfl, ?_⟩
    show RunPc.rank (ite _ _ _) < 9
    split <;> simp [RunPc.rank]
  | toScheduled | toRunning | retryToScheduled =>
    -- a transition that raises goes on to `handle`, further down than its own target
    rcases transit_running h with rfl | ⟨r, rfl⟩ <;> exact ⟨rfl, by simp [RunPc.rank]⟩
  | toCompleted r | toRetrying r | backToScheduled r | toFailed r =>
    rw [transitOrRaise_running h]
    exact ⟨rfl, by simp [RunPc.rank]⟩
  | handle r =>
    simp only [step] at h
    split at h
    · cases h; exact ⟨rfl, by simp [RunPc.rank]⟩
    · split at h
      · split at h <;> cases h
        exact ⟨rfl, by simp [RunPc.rank]⟩
      · cases h; exact ⟨rfl, by simp [RunPc.rank]⟩
  | invoke | countCompleted r | countFailed r | notifyComplete r | push r | notifyFailed r =>
    cases h
    exact ⟨rfl, by simp [RunPc.rank]⟩
  | callComplete r | countRetry pushed r | callFailed r => cases h

theorem drive_finished {fuel : ℕ} {task : Task} {s : Scheduler} (h : task.pc.rank < fuel) :
    ∀ task', (task.drive order input fuel s).2 ≠ .running task' := by
  induction fuel generalizing task s with
  | zero => exact absurd h (Nat.not_lt_zero _)
  | succ fuel ih =>
    intro task'
    rw [drive]
    cases hstep : task.step order input s with
    | mk s' status =>
      cases status with
      | running next =>
        have hnext := step_running (show (task.step order input s).2 = _ by rw [hstep])
        exact ih (by omega) task'
      | returned result => exact fun h => nomatch h
      | raised error => exact fun h => nomatch h

end Task

/-- **`run_job` returns or raises**: the steps it is given are enough. -/
theorem Scheduler.runJob_finished (order : IterationOrder UUID) (input : RunInput) (job : UUID)
    (s : Scheduler) : ∀ task, (s.runJob order input job).2 ≠ .running task :=
  Task.drive_finished (Nat.lt_succ_self 15)

end JobOrchestrator
