import JobOrchestrator.Workers.WorkerPool
import JobOrchestrator.Workers.Workplace

/-!
# The async worker

`AsyncWorker` of `workers/async_worker.py`, from its start on: the event loop with the
coroutine that gets the jobs and the tasks that execute them, the executor, in which the
scheduler is called, and any number of callers of `stop`, the pool among them.

A task that was cancelled gets a `CancelledError` where it is. Before its function runs
that ends it; the function may catch it; and a report that the executor has not begun
with is not made, while one that it has begun with is made behind the task's back. So
the jobs in the worker's hands are those of the tasks that have not ended, and the one
that a task is about to be created for, until the loop is closed.
-/

namespace JobOrchestrator

/-- The exception that the scheduler raises. -/
def OrchestratorError.exception (error : OrchestratorError) : PyException :=
  let classes := match error with
    | .jobNotFound _ => ["JobNotFoundError", "JobOrchestratorError"]
    | .jobAlreadyExists _ => ["JobAlreadyExistsError", "JobOrchestratorError"]
    | .invalidStateTransition _ _ _ => ["InvalidStateTransitionError", "JobOrchestratorError"]
    | .queueFull _ _ => ["QueueFullError", "JobOrchestratorError"]
    | .dagValidation _ _ => ["DAGValidationError", "JobOrchestratorError"]
    | .overflow _ => ["OverflowError", "ArithmeticError"]
  ⟨classes, error.message⟩

/-- **Where a task is**, in `_execute_job_with_semaphore`. A task that is cancelled while the
executor has its report ends without waiting for it: that is what `detached` is for. -/
inductive AsyncTaskPc
  /-- It has not begun. -/
  | created
  /-- `async with self._semaphore`. -/
  | waiting
  /-- The function is awaited. -/
  | executing
  /-- `complete_job` or `fail_job` is to be called in the executor, and awaited. -/
  | reporting (outcome : Outcome)
  /-- `complete_job` has raised. -/
  | refused (error : PyException)
  /-- The task has ended, and the executor is about to make its report. -/
  | detached (outcome : Outcome)
  | ended

/-- **A task.** -/
structure AsyncTask where
  job : UUID
  pc : AsyncTaskPc := .created
  /-- `cancel` was called: the task is to get a `CancelledError`. -/
  cancelled : Bool := false

/-- What a step of a task reads from outside. -/
structure AsyncTaskInput where
  now : Time := 0
  draw : ℚ := 0
  traceback : String := ""
  /-- What the function comes to, if it does not itself raise a `CancelledError`. -/
  outcome : Option Outcome := none
  /-- The function catches the `CancelledError`. -/
  caught : Bool := false
  /-- The executor has begun with the report. -/
  begun : Bool := false

namespace AsyncTask

/-- The task is over, or the executor goes on without it. -/
def done (task : AsyncTask) : Bool :=
  match task.pc with
  | .detached _ | .ended => true
  | _ => false

/-- The job of a task that somebody still has in hands. -/
def held (task : AsyncTask) : Option UUID :=
  match task.pc with
  | .ended => none
  | _ => some task.job

/-- It has passed the semaphore. -/
def inside (task : AsyncTask) : Bool :=
  match task.pc with
  | .executing | .reporting _ | .refused _ => true
  | _ => false

/-- `cancel`, of a task that is not done. -/
def cancel (task : AsyncTask) : AsyncTask :=
  if task.done then task else { task with cancelled := true }

/-- **The task is dropped** by its next step: it ends, and nothing was reported, nor will be. -/
def dropped (task : AsyncTask) (input : AsyncTaskInput) : Bool :=
  match task.pc with
  | .created | .waiting | .refused _ => task.cancelled
  | .executing => if task.cancelled then !input.caught else input.outcome.isNone
  | .reporting _ => task.cancelled && !input.begun
  | .detached _ | .ended => false

theorem job_of_held {task : AsyncTask} {k : UUID} (h : task.held = some k) : task.job = k := by
  unfold held at h
  split at h
  · cases h
  · exact Option.some.inj h

/-- The task is elsewhere. -/
def goto (task : AsyncTask) (pc : AsyncTaskPc) : AsyncTask := { task with pc := pc }

end AsyncTask

/-- **Where the event loop is**, in `_run_event_loop` and `_run_loop_async`. -/
inductive AsyncLoopPc
  /-- The loop does not run yet. -/
  | starting
  /-- `while not self._should_stop`. -/
  | head
  /-- `if self._state == WorkerState.STOPPING`. -/
  | checking
  /-- `_get_next_job_async`. -/
  | polling
  /-- `asyncio.create_task(..)`. -/
  | creating (job : UUID)
  /-- The active tasks are awaited. -/
  | gathering
  /-- `self._loop.close()`. -/
  | closing
  | closed
  deriving DecidableEq

/-- **Where a caller of `stop` is.** -/
inductive AsyncStopPc
  | idle
  /-- `self._state = WorkerState.STOPPING`. -/
  | entering (wait timed : Bool)
  /-- `self._should_stop = True`. -/
  | flagging (wait timed : Bool)
  /-- `asyncio.run_coroutine_threadsafe(self._cancel_all_tasks(), self._loop)`. -/
  | cancelling (wait timed : Bool)
  /-- `self._thread.join(timeout=timeout)`. -/
  | joining (timed : Bool)

/-- **The worker.** Tasks, loop and the callers of `stop` share what is here, and no lock. -/
structure AsyncWorker where
  state : WorkerState := .idle
  shouldStop : Bool := false
  maxConcurrentJobs : ℕ := 10
  loop : AsyncLoopPc := .starting
  /-- The tasks, in the order of their creation. -/
  tasks : List AsyncTask := []
  /-- How often `_cancel_all_tasks` was scheduled that has not run yet. -/
  cancellations : ℕ := 0
  stops : ℕ → AsyncStopPc := fun _ => .idle

/-- **A step of the worker.** The event loop runs one coroutine at a time, up to its next
`await`. -/
inductive AsyncStep
  /-- A call of `stop`, with or without a timeout. -/
  | stop (caller : ℕ) (wait timed : Bool)
  /-- A caller of `stop` goes on. -/
  | stopping (caller : ℕ)
  /-- The coroutine that gets the jobs goes on. -/
  | loop (now : Time) (again : Bool)
  /-- `_cancel_all_tasks` runs. -/
  | cancelAll
  /-- A task goes on, or the executor with its report. -/
  | task (i : ℕ) (input : AsyncTaskInput)

namespace AsyncWorker

/-- The loop goes on elsewhere. -/
def goto (w : AsyncWorker) (pc : AsyncLoopPc) : AsyncWorker := { w with loop := pc }

/-- A caller of `stop` goes on elsewhere. -/
def gotoStop (w : AsyncWorker) (caller : ℕ) (pc : AsyncStopPc) : AsyncWorker :=
  { w with stops := Function.update w.stops caller pc }

/-- A task is another one now. -/
def setTask (w : AsyncWorker) (i : ℕ) (task : AsyncTask) : AsyncWorker :=
  { w with tasks := w.tasks.set i task }

/-- A task leaves `_execute_job_async`: its `finally`. -/
def leave (w : AsyncWorker) (i : ℕ) (task : AsyncTask) (pc : AsyncTaskPc) : AsyncWorker :=
  { w.setTask i (task.goto pc) with state := .idle }

/-- The loop is running. -/
def isRunning (w : AsyncWorker) : Bool :=
  match w.loop with
  | .starting | .closed => false
  | _ => true

/-- **The next step of the coroutine that gets the jobs.** -/
def loopStep (w : AsyncWorker) (now : Time) (again : Bool) : Option (WorkerAction AsyncWorker) :=
  match w.loop with
  | .starting => some (.silent (w.goto .head))
  | .head => some (.silent (w.goto (if w.shouldStop then .gathering else .checking)))
  | .checking => some (.silent (w.goto (if w.state = .stopping then .gathering else .polling)))
  | .polling =>
    some (.getNextJob now (fun answer =>
      match answer with
      | none => w.goto (if again then .polling else .head)
      | some job => w.goto (.creating job)))
  | .creating job =>
    some (.silent { w with tasks := w.tasks ++ [{ job := job }], loop := .head })
  | .gathering => if w.tasks.all AsyncTask.done then some (.silent (w.goto .closing)) else none
  | .closing => some (.silent { w with loop := .closed, state := .stopped })
  | .closed => none

/-- The executor makes a report for a task, which goes on with the answer. -/
def report (task : AsyncTask) (input : AsyncTaskInput)
    (next : Except OrchestratorError Unit → AsyncWorker) : Outcome → WorkerAction AsyncWorker
  | .returned result => .completeJob task.job result input.now next
  | .raised error => .failJob task.job error input.now input.draw input.traceback next

/-- What a task does with the answer to its report: where `complete_job` raises, it is going to
call `fail_job`. -/
def afterReport (w : AsyncWorker) (i : ℕ) (task : AsyncTask) :
    Outcome → Except OrchestratorError Unit → AsyncWorker
  | .returned _, .error error => w.setTask i (task.goto (.refused error.exception))
  | _, _ => w.leave i task .ended

/-- **A task's next step.** It is what the coroutine does up to its next `await`; a cancellation
that was asked for is raised there. -/
def taskStep (w : AsyncWorker) (i : ℕ) (input : AsyncTaskInput) :
    Option (WorkerAction AsyncWorker) :=
  match w.tasks[i]? with
  | none => none
  | some task =>
    match task.pc with
    | .created =>
      some (.silent (w.setTask i (task.goto (if task.cancelled then .ended else .waiting))))
    | .waiting =>
      if task.cancelled then some (.silent (w.setTask i (task.goto .ended)))
      else if w.tasks.countP AsyncTask.inside < w.maxConcurrentJobs then
        some (.silent { w.setTask i (task.goto .executing) with state := .busy })
      else none
    | .executing =>
      if task.cancelled then
        if input.caught then some (.silent (w.setTask i { task with cancelled := false }))
        else some (.silent (w.leave i task .ended))
      else
        match input.outcome with
        | some outcome => some (.silent (w.setTask i (task.goto (.reporting outcome))))
        | none => some (.silent (w.leave i task .ended))
    | .reporting outcome =>
      if task.cancelled then
        some (.silent (w.leave i task (if input.begun then .detached outcome else .ended)))
      else some (report task input (w.afterReport i task outcome) outcome)
    | .refused error =>
      if task.cancelled then some (.silent (w.leave i task .ended))
      else some (.silent (w.setTask i (task.goto (.reporting (.raised error)))))
    | .detached outcome =>
      some (report task input (fun _ => w.setTask i (task.goto .ended)) outcome)
    | .ended => none

/-- **The next step of a caller of `stop`.** -/
def stopping (w : AsyncWorker) (caller : ℕ) : Option AsyncWorker :=
  match w.stops caller with
  | .idle => none
  | .entering wait timed =>
    some { w.gotoStop caller (.flagging wait timed) with state := .stopping }
  | .flagging wait timed =>
    some { w.gotoStop caller (.cancelling wait timed) with shouldStop := true }
  | .cancelling wait timed =>
    some { w.gotoStop caller (if wait then .joining timed else .idle) with
      cancellations := if w.isRunning then w.cancellations + 1 else w.cancellations }
  | .joining timed =>
    match w.loop with
    | .closed => some { w.gotoStop caller .idle with state := .stopped }
    | _ => if timed then some (w.gotoStop caller .idle) else none

/-- **`stop`**: a worker that is stopped already is left alone. -/
def stop (w : AsyncWorker) (caller : ℕ) (wait timed : Bool) : Option AsyncWorker :=
  match w.stops caller with
  | .idle => some (if w.state = .stopped then w else w.gotoStop caller (.entering wait timed))
  | _ => none

/-- `_cancel_all_tasks`. It asks every active task to be cancelled; that it then awaits them
holds up nobody else. -/
def cancelAll (w : AsyncWorker) : Option AsyncWorker :=
  if 0 < w.cancellations ∧ w.isRunning = true then
    some { w with
      tasks := w.tasks.map AsyncTask.cancel
      cancellations := w.cancellations - 1 }
  else none

/-- **One step.** -/
def step (w : AsyncWorker) : AsyncStep → Option (WorkerAction AsyncWorker)
  | .stop caller wait timed => (w.stop caller wait timed).map .silent
  | .stopping caller => (w.stopping caller).map .silent
  | .loop now again => w.loopStep now again
  | .cancelAll => w.cancelAll.map .silent
  | .task i input => w.taskStep i input

/-- The job that a task is about to be created for. -/
def creatingFor (w : AsyncWorker) : Option UUID :=
  match w.loop with
  | .creating job => some job
  | _ => none

/-- The event loop is closed. -/
def hasEnded (w : AsyncWorker) : Bool :=
  match w.loop with
  | .closed => true
  | _ => false

/-- **The jobs in the worker's hands**, as long as its loop is not closed. -/
def hands (w : AsyncWorker) : List UUID :=
  if w.hasEnded then [] else w.creatingFor.toList ++ w.tasks.filterMap AsyncTask.held

/-! ## What a step does to the hands -/

variable {w next : AsyncWorker} {k : UUID} {i : ℕ} {task task' : AsyncTask} {l : AsyncStep}

theorem mem_hands : k ∈ w.hands
    ↔ w.hasEnded = false ∧ (w.creatingFor = some k ∨ ∃ task ∈ w.tasks, task.held = some k) := by
  unfold hands
  cases w.hasEnded with
  | true => simp
  | false => simp

/-- The other tasks hold what they held, and this one does if it still holds its job. -/
theorem held_set (has : w.tasks[i]? = some task) (held : ∃ t ∈ w.tasks, t.held = some k)
    (still : task.held = some k → task'.held = some k) :
    ∃ t ∈ w.tasks.set i task', t.held = some k := by
  obtain ⟨t, hmem, ht⟩ := held
  obtain ⟨j, hj⟩ := List.getElem?_of_mem hmem
  by_cases hij : i = j
  · rw [hij, hj, Option.some.injEq] at has
    refine ⟨task', ?_, still (has ▸ ht)⟩
    have hlt : j < w.tasks.length := (List.getElem?_eq_some_iff.mp hj).1
    exact List.mem_of_getElem? (by rw [hij, List.getElem?_set_self hlt])
  · exact ⟨t, List.mem_of_getElem? (by rw [List.getElem?_set_ne hij, hj]), ht⟩

/-- A step of a task keeps the other jobs in the hands, and its own job if the task keeps it. -/
theorem hands_set (has : w.tasks[i]? = some task) (held : k ∈ w.hands)
    (still : task.held = some k → task'.held = some k) : k ∈ (w.setTask i task').hands := by
  obtain ⟨hended, hcreating | hheld⟩ := mem_hands.mp held
  · exact mem_hands.mpr ⟨hended, Or.inl hcreating⟩
  · exact mem_hands.mpr ⟨hended, Or.inr (held_set has hheld still)⟩

/-- **What a step lets go of** other than by reporting it: the job of a task that is dropped, and
at the end of the loop whatever the executor has yet to report. -/
def LetsGo (w : AsyncWorker) : AsyncStep → UUID → Prop
  | .task i input, k => ∃ task, w.tasks[i]? = some task ∧ task.job = k ∧ task.dropped input = true
  | .loop _ _, _ => w.loop = .closing
  | _, _ => False

/-- A step of a task that does not reach the scheduler. -/
theorem keeps_or_lets_go (has : w.tasks[i]? = some task) {input : AsyncTaskInput}
    (keeps : task.dropped input = false → task'.held = some task.job) (held : k ∈ w.hands) :
    k ∈ (w.setTask i task').hands ∨ w.LetsGo (.task i input) k := by
  by_cases hjob : task.job = k
  · cases hdropped : task.dropped input with
    | true => exact Or.inr ⟨task, has, hjob, hdropped⟩
    | false =>
      have hkeeps := keeps hdropped
      rw [hjob] at hkeeps
      exact Or.inl (hands_set has held (fun _ => hkeeps))
  · exact Or.inl (hands_set has held (fun h => absurd (AsyncTask.job_of_held h) hjob))

/-- The step is one of that task. -/
def StepOf (w : AsyncWorker) (l : AsyncStep) (task : AsyncTask) : Prop :=
  ∃ i input, l = .task i input ∧ w.tasks[i]? = some task

/-- **What a step does**: it keeps what it does not let go of, it gets a job into the hands, or it
reports the job of a task and keeps the others – and that one as well where `complete_job`
refuses it, unless the task is gone. -/
inductive Advanced (w : AsyncWorker) (l : AsyncStep) : WorkerAction AsyncWorker → Prop
  | silent (next : AsyncWorker) (hands : ∀ k ∈ w.hands, k ∈ next.hands ∨ w.LetsGo l k) :
    Advanced w l (.silent next)
  | gets (now : Time) (next : Option UUID → AsyncWorker)
      (got : ∀ job, job ∈ (next (some job)).hands)
      (keeps : ∀ answer, ∀ k ∈ w.hands, k ∈ (next answer).hands) :
    Advanced w l (.getNextJob now next)
  | completes (task : AsyncTask) (result : Value) (now : Time)
      (next : Except OrchestratorError Unit → AsyncWorker) (step : w.StepOf l task)
      (others : ∀ answer, ∀ k ∈ w.hands, k ≠ task.job → k ∈ (next answer).hands)
      (refused : (∀ error, ∀ k ∈ w.hands, k ∈ (next (.error error)).hands)
        ∨ task.pc = .detached (.returned result)) :
    Advanced w l (.completeJob task.job result now next)
  | fails (task : AsyncTask) (error : PyException) (i : ℕ) (input : AsyncTaskInput)
      (next : Except OrchestratorError Unit → AsyncWorker) (step : l = .task i input)
      (has : w.tasks[i]? = some task)
      (others : ∀ answer, ∀ k ∈ w.hands, k ≠ task.job → k ∈ (next answer).hands)
      (reports : task.pc = .reporting (.raised error) ∧ task.cancelled = false
        ∨ task.pc = .detached (.raised error)) :
    Advanced w l (.failJob task.job error input.now input.draw input.traceback next)

/-- A task goes on without reaching the scheduler. It keeps its job unless the step drops it, and
then the condition has to say so. -/
theorem Advanced.of_task (has : w.tasks[i]? = some task) {input : AsyncTaskInput}
    (keeps : task.dropped input = false → task'.held = some task.job) :
    w.Advanced (.task i input) (.silent (w.setTask i task')) :=
  .silent _ (fun _ hk => keeps_or_lets_go has keeps hk)

/-- So does one that leaves the semaphore. -/
theorem Advanced.of_leave (has : w.tasks[i]? = some task) {input : AsyncTaskInput}
    {pc : AsyncTaskPc} (keeps : task.dropped input = false → (task.goto pc).held = some task.job) :
    w.Advanced (.task i input) (.silent (w.leave i task pc)) :=
  .silent _ (fun _ hk => keeps_or_lets_go has keeps hk)

/-- Whatever becomes of a task, the other jobs stay in the hands. -/
theorem others_set (has : w.tasks[i]? = some task) (task' : AsyncTask) (held : k ∈ w.hands)
    (other : k ≠ task.job) : k ∈ (w.setTask i task').hands :=
  hands_set has held (fun h => absurd (AsyncTask.job_of_held h).symm other)

theorem taskStep_cases {input : AsyncTaskInput} {action : WorkerAction AsyncWorker}
    (taken : w.taskStep i input = some action) : w.Advanced (.task i input) action := by
  unfold taskStep at taken
  cases has : w.tasks[i]? with
  | none =>
    rw [has] at taken
    cases taken
  | some task =>
    simp only [has] at taken
    -- where the task is says what a cancellation does to it, and `dropped` says the same
    cases hpc : task.pc with
    | created =>
      simp only [hpc] at taken
      cases taken
      refine .of_task has (fun hdropped => ?_)
      rw [AsyncTask.dropped, hpc] at hdropped
      rw [if_neg (by simp [hdropped])]
      rfl
    | waiting =>
      simp only [hpc] at taken
      split at taken
      · rename_i hcancelled
        cases taken
        refine .of_task has (fun hdropped => ?_)
        rw [AsyncTask.dropped, hpc] at hdropped
        exact absurd (hcancelled.symm.trans hdropped) (by decide)
      · split at taken <;> cases taken
        exact .silent _ (fun k hk => keeps_or_lets_go has (fun _ => rfl) hk)
    | executing =>
      simp only [hpc] at taken
      split at taken
      · rename_i hcancelled
        split at taken <;> cases taken
        · exact .of_task has (fun _ => rfl)
        · rename_i hcaught
          -- a cancelled function that lets the cancellation through is dropped
          refine .of_leave has (fun hdropped => ?_)
          rw [AsyncTask.dropped, hpc] at hdropped
          simp [hcancelled, hcaught] at hdropped
      · rename_i hcancelled
        split at taken <;> cases taken
        · exact .of_task has (fun _ => rfl)
        · rename_i hnone
          refine .of_leave has (fun hdropped => ?_)
          rw [AsyncTask.dropped, hpc] at hdropped
          simp [hcancelled, hnone] at hdropped
    | reporting outcome =>
      simp only [hpc] at taken
      split at taken
      · rename_i hcancelled
        cases taken
        refine .of_leave has (fun hdropped => ?_)
        rw [AsyncTask.dropped, hpc] at hdropped
        have hbegun : input.begun = true := by simpa [hcancelled] using hdropped
        rw [if_pos hbegun]
        rfl
      · rename_i hnot
        have hstep : w.StepOf (.task i input) task := ⟨i, input, rfl, has⟩
        cases taken
        cases outcome with
        | returned result =>
          refine .completes task result _ _ hstep (fun answer k hk hne => ?_) (Or.inl ?_)
          · unfold afterReport
            split <;> exact others_set has _ hk hne
          · refine fun error k hk => hands_set has hk (fun h => ?_)
            show some task.job = some k
            rw [AsyncTask.job_of_held h]
        | raised error =>
          refine .fails task error i input _ rfl has (fun answer k hk hne => ?_)
            (Or.inl ⟨hpc, by simpa using hnot⟩)
          exact others_set has _ hk hne
    | refused error =>
      simp only [hpc] at taken
      split at taken
      · rename_i hcancelled
        -- a report that the executor has begun with goes on without its task
        cases taken
        refine .of_leave has (fun hdropped => ?_)
        rw [AsyncTask.dropped, hpc] at hdropped
        exact absurd (hcancelled.symm.trans hdropped) (by decide)
      · cases taken
        exact .of_task has (fun _ => rfl)
    | detached outcome =>
      simp only [hpc] at taken
      have hstep : w.StepOf (.task i input) task := ⟨i, input, rfl, has⟩
      cases taken
      -- nobody waits for the answer, so that a refused success is lost with the job
      cases outcome with
      | returned result =>
        exact .completes task result _ _ hstep (fun _ k hk hne => others_set has _ hk hne)
          (Or.inr hpc)
      | raised error =>
        exact .fails task error i input _ rfl has (fun _ k hk hne => others_set has _ hk hne)
          (Or.inr hpc)
    | ended =>
      simp only [hpc] at taken
      cases taken

/-- The loop goes on, and has not got a job that no task was created for. -/
theorem hands_goto {pc : AsyncLoopPc} (runs : (w.goto pc).hasEnded = false)
    (free : w.creatingFor = none) (held : k ∈ w.hands) : k ∈ (w.goto pc).hands := by
  obtain ⟨-, hcreating | hheld⟩ := mem_hands.mp held
  · rw [free] at hcreating
    cases hcreating
  · exact mem_hands.mpr ⟨runs, Or.inr hheld⟩

theorem loopStep_cases {now : Time} {again : Bool} {action : WorkerAction AsyncWorker}
    (taken : w.loopStep now again = some action) : w.Advanced (.loop now again) action := by
  unfold loopStep at taken
  cases hpc : w.loop with
  | starting =>
    simp only [hpc] at taken
    cases taken
    have hfree : w.creatingFor = none := by rw [creatingFor, hpc]
    exact .silent _ (fun k hk => Or.inl (hands_goto rfl hfree hk))
  | head | checking =>
    simp only [hpc] at taken
    cases taken
    have hfree : w.creatingFor = none := by rw [creatingFor, hpc]
    refine .silent _ (fun k hk => Or.inl (hands_goto ?_ hfree hk))
    split <;> rfl
  | polling =>
    simp only [hpc] at taken
    cases taken
    have hfree : w.creatingFor = none := by rw [creatingFor, hpc]
    refine .gets _ _ (fun job => mem_hands.mpr ⟨rfl, Or.inl rfl⟩) (fun answer k hk => ?_)
    cases answer with
    | none =>
      refine hands_goto ?_ hfree hk
      split <;> rfl
    | some job => exact hands_goto rfl hfree hk
  | creating job =>
    simp only [hpc] at taken
    cases taken
    refine .silent _ (fun k hk => Or.inl (mem_hands.mpr ⟨rfl, Or.inr ?_⟩))
    -- the job goes over to its task
    obtain ⟨-, hcreating | ⟨task, hmem, hheld⟩⟩ := mem_hands.mp hk
    · rw [creatingFor, hpc] at hcreating
      exact ⟨_, List.mem_append_right _ List.mem_cons_self, hcreating⟩
    · exact ⟨task, List.mem_append_left _ hmem, hheld⟩
  | gathering =>
    simp only [hpc] at taken
    have hfree : w.creatingFor = none := by rw [creatingFor, hpc]
    split at taken <;> cases taken
    exact .silent _ (fun k hk => Or.inl (hands_goto rfl hfree hk))
  | closing =>
    simp only [hpc] at taken
    cases taken
    exact .silent _ (fun k _ => Or.inr hpc)
  | closed =>
    simp only [hpc] at taken
    cases taken

/-- A caller of `stop` changes nothing in the loop. -/
theorem hands_stopping {caller : ℕ} (taken : w.stopping caller = some next) :
    next.hands = w.hands := by
  unfold stopping at taken
  cases hpc : w.stops caller with
  | idle =>
    rw [hpc] at taken
    cases taken
  | joining timed =>
    simp only [hpc] at taken
    split at taken
    · cases taken
      rfl
    · split at taken <;> cases taken
      rfl
  | _ =>
    simp only [hpc] at taken
    cases taken
    rfl

theorem hands_stop {caller : ℕ} {wait timed : Bool} (taken : w.stop caller wait timed = some next) :
    next.hands = w.hands := by
  unfold stop at taken
  split at taken
  · cases taken
    split <;> rfl
  · cases taken

/-- A task that was cancelled is still held. -/
theorem AsyncTask.held_cancel (task : AsyncTask) : task.cancel.held = task.held := by
  unfold AsyncTask.cancel
  split <;> rfl

theorem hands_cancelAll (taken : w.cancelAll = some next) : next.hands = w.hands := by
  unfold cancelAll at taken
  split at taken <;> cases taken
  unfold hands
  have hheld : (w.tasks.map AsyncTask.cancel).filterMap AsyncTask.held
      = w.tasks.filterMap AsyncTask.held := by
    rw [List.filterMap_map]
    exact List.filterMap_congr (fun task _ => AsyncTask.held_cancel task)
  rw [hheld]
  rfl

theorem step_cases {action : WorkerAction AsyncWorker} (taken : w.step l = some action) :
    w.Advanced l action := by
  cases l with
  | stop caller wait timed =>
    obtain ⟨next, hnext, rfl⟩ := Option.map_eq_some_iff.mp taken
    exact .silent next (fun k hk => Or.inl ((hands_stop hnext).symm ▸ hk))
  | stopping caller =>
    obtain ⟨next, hnext, rfl⟩ := Option.map_eq_some_iff.mp taken
    exact .silent next (fun k hk => Or.inl ((hands_stopping hnext).symm ▸ hk))
  | loop now again => exact loopStep_cases taken
  | cancelAll =>
    obtain ⟨next, hnext, rfl⟩ := Option.map_eq_some_iff.mp taken
    exact .silent next (fun k hk => Or.inl ((hands_cancelAll hnext).symm ▸ hk))
  | task i input => exact taskStep_cases taken

/-- **The async worker as a machine.** Its hands are the tasks that hold a job, and the job that
the loop has just got. -/
def machine : WorkerMachine AsyncWorker AsyncStep where
  step := step
  hands := hands
  ended := hasEnded
  got w l now next taken := by
    cases step_cases taken with
    | gets _ _ hgot hkeeps => exact ⟨hgot, hkeeps⟩
  completed w l job result now next taken k hk hne := by
    cases step_cases taken with
    | completes _ _ _ _ _ hothers => exact hothers _ k hk hne
  failed w l job error now draw traceback next taken k hk hne := by
    cases step_cases taken with
    | fails _ _ _ _ _ _ _ hothers => exact hothers _ k hk hne
  none_at_end w hended := by
    unfold hands
    rw [if_pos hended]

/-- **The condition on a step of a task**: it is not dropped; a failure that it reports settles the
job; and so does a success that is reported behind its back. Or the job is settled. -/
def CarefulTask (w : Workplace AsyncWorker) (task : AsyncTask) (input : AsyncTaskInput) : Prop :=
  w.Settled task.job ∨ task.dropped input = false
    ∧ match task.pc with
      | .reporting (.raised error) =>
        task.cancelled = false →
          w.world.sched.SettlesFailure input.now input.draw task.job error
      | .detached (.returned _) => w.world.sched.TakesCompletion task.job
      | .detached (.raised error) =>
        w.world.sched.SettlesFailure input.now input.draw task.job error
      | _ => True

/-- **The condition on its steps**: those of its tasks are careful, and the loop is closed when
the jobs that the executor has yet to report are settled. -/
def Careful (w : Workplace AsyncWorker) : AsyncStep → Prop
  | .task i input => ∀ task ∈ w.worker.tasks[i]?, CarefulTask w task input
  | .loop _ _ => w.worker.loop = .closing → ∀ k ∈ w.worker.hands, w.Settled k
  | _ => True

instance (w : Workplace AsyncWorker) (task : AsyncTask) (input : AsyncTaskInput) :
    Decidable (CarefulTask w task input) := by
  unfold CarefulTask
  split <;> infer_instance

instance (w : Workplace AsyncWorker) (l : AsyncStep) : Decidable (Careful w l) := by
  unfold Careful
  split <;> infer_instance

/-- What a careful step lets go of without a report is settled. -/
theorem settled_of_letsGo {w : Workplace AsyncWorker} {l : AsyncStep} (careful : Careful w l)
    (held : k ∈ w.worker.hands) (letsGo : w.worker.LetsGo l k) : w.Settled k := by
  cases l with
  | task i input =>
    obtain ⟨task, has, rfl, hdropped⟩ := letsGo
    refine (careful task has).resolve_right (fun h => ?_)
    exact absurd (h.1.symm.trans hdropped) (by decide)
  | loop now again => exact careful letsGo k held
  | stop | stopping | cancelAll => exact letsGo.elim

/-- A worker that keeps the other jobs lets go of the one only. -/
theorem letsGoSettled {w : Workplace AsyncWorker} {job : UUID} {next : AsyncWorker}
    (others : ∀ k ∈ w.worker.hands, k ≠ job → k ∈ next.hands) (settled : w.Settled job) :
    w.LetsGoSettled machine next := by
  intro k hheld hgone
  by_cases hjob : k = job
  · rw [hjob]
    exact settled
  · exact absurd (others k hheld hjob) hgone

/-- **This is enough**: a worker whose steps are all careful leaves no job behind. -/
theorem enough_careful : Workplace.Enough machine Careful := by
  intro w l action careful taken
  cases step_cases taken with
  | silent next hhands =>
    intro k hheld hgone
    exact settled_of_letsGo careful hheld ((hhands k hheld).resolve_left hgone)
  | gets => exact trivial
  | completes task result now next hstep hothers hrefused =>
    intro hnot error
    rcases hrefused with hkeeps | hdetached
    · exact fun k hheld hgone => absurd (hkeeps error k hheld) hgone
    · obtain ⟨i, input, rfl, has⟩ := hstep
      refine letsGoSettled (hothers _) ?_
      refine (careful task has).resolve_right (fun h => ?_)
      rw [hdetached] at h
      exact hnot h.2
  | fails task error i input next hstep has hothers hreports =>
    subst hstep
    rcases careful task has with hsettled | ⟨-, hcareful⟩
    · exact ⟨fun _ => Or.inr (letsGoSettled (hothers _) hsettled),
        fun _ _ => letsGoSettled (hothers _) hsettled⟩
    · have hsettles : w.world.sched.SettlesFailure input.now input.draw task.job error := by
        rcases hreports with ⟨hpc, hnot⟩ | hpc
        · rw [hpc] at hcareful
          exact hcareful hnot
        · rw [hpc] at hcareful
          exact hcareful
      exact ⟨fun _ => Or.inl hsettles.2, fun hnot => absurd hsettles.1 hnot⟩

end AsyncWorker

end JobOrchestrator
