import JobOrchestrator.Scheduler.RunControl

/-!
# `run_job` without interference, in one piece

Where nothing comes between its steps, `run_job` is two functions one after
the other: `JobRunner.run`, which brings the job to RUNNING where the state
machine allows it and calls its function all the same where it does not –
`Scheduler.execute` – and what `run_job` makes of the result –
`Scheduler.handleResult`. That the steps of `Runner.lean`, taken one after
the other, come to exactly this is `Scheduler.runJob_eq`.
-/

namespace JobOrchestrator

namespace JobTable

/-- Two assignments to one object are one, with the id set back in between. -/
theorem modify_modify (t : JobTable) (id : UUID) (f g : Job → Job) :
    (t.modify id f).modify id g = t.modify id (fun j => g { f j with id := id }) := by
  have hget : ((t.modify id f).modify id g).get
      = (t.modify id (fun j => g { f j with id := id })).get := by
    funext k
    by_cases hk : k = id
    · rw [hk, get_modify_self, get_modify_self, get_modify_self]
    · rw [get_modify_of_ne _ hk, get_modify_of_ne _ hk, get_modify_of_ne _ hk]
  cases h : (t.modify id f).modify id g with
  | mk get id_get =>
    cases h' : t.modify id (fun j => g { f j with id := id }) with
    | mk get' id_get' =>
      rw [h, h'] at hget
      cases hget
      rfl

end JobTable

namespace SchedulerCore

/-- The states from which `JobRunner.run` brings a job to RUNNING. -/
def enterable (st : JobState) : Bool :=
  decide (st = .pending ∨ st = .scheduled ∨ st = .retrying)

theorem enterable_of_isTerminal {st : JobState} (h : st.isTerminal = true) :
    enterable st = false := by
  cases st <;> first | rfl | cases h

/-- The transitions of `JobRunner.run`, as one. -/
def enter (job : UUID) (c : SchedulerCore) : SchedulerCore :=
  if enterable (c.state job) then
    { c.setState job .running with
      store := if c.store.Nonempty then insert job c.store else c.store }
  else c

/-- The second of two transitions is all that is seen of them. -/
theorem transition_transition {c c' c'' : SchedulerCore} {job : UUID} {middle target : JobState}
    (h : c.transition job middle = .ok c') (h' : c'.transition job target = .ok c'') :
    c'' = { c.setState job target with
      store := if c.store.Nonempty then insert job c.store else c.store } := by
  rw [(transition_ok h').2, (transition_ok h).2]
  unfold setState modifyJob
  simp only [JobTable.modify_modify]
  congr 1
  by_cases hstore : c.store.Nonempty
  · simp [hstore]
  · simp [hstore]

end SchedulerCore

namespace Scheduler

/-- The worker's task during `JobRunner.run`. -/
def started (input : RunInput) (job : UUID) : Task :=
  { job := job, startedAt := .utcnow input.started }

/-- What `JobRunner.run` returns, once the function was called. -/
def resultOf (input : RunInput) (job : UUID) : JobResult :=
  match input.outcome with
  | .returned value => (started input job).success input value
  | .raised error => (started input job).failure input error.message

/-- **`JobRunner.run`**. -/
def execute (input : RunInput) (job : UUID) (s : Scheduler) : Scheduler :=
  s.withCore ((s.core.enter job).modifyJob job
    (fun j => { j with startedAt := some (.utcnow input.started) }))

/-- A job that can be brought to RUNNING is. -/
theorem state_execute (input : RunInput) (job : UUID) (s : Scheduler) :
    (s.execute input job).core.state job
      = if SchedulerCore.enterable (s.core.state job) then .running else s.core.state job := by
  have hstart : (s.execute input job).core.state job = (s.core.enter job).state job :=
    SchedulerCore.state_modifyJob (c := s.core.enter job)
      (f := fun j => { j with startedAt := some (.utcnow input.started) }) (fun _ => rfl) job
  rw [hstart]
  unfold SchedulerCore.enter
  split
  · exact (SchedulerCore.state_setState .running job).trans (if_pos rfl)
  · rfl

/-- A job that has ended is only started. `JobRunner.run` tests the state first and finds none
that it can start from. -/
theorem state_execute_of_isTerminal {s : Scheduler} {job : UUID}
    (h : (s.core.state job).isTerminal = true) (input : RunInput) :
    (s.execute input job).core.state job = s.core.state job := by
  rw [state_execute, SchedulerCore.enterable_of_isTerminal h, if_neg Bool.false_ne_true]

variable (order : IterationOrder UUID)

/-- `run_job` with the result of a function that returned. -/
def handleSuccess (now : Time) (job : UUID) (r : JobResult) (s : Scheduler) :
    Scheduler × RunStatus :=
  let noted := s.withCore (s.core.modifyJob job
    (fun j => { j with result := r.result, completedAt := r.completedAt }))
  match noted.core.transition job .completed with
  | .error error => (noted, .raised error)
  | .ok core =>
    let notified := ((noted.withCore core).count
      (fun st => { st with jobsCompleted := st.jobsCompleted + 1 })).notifyComplete order now job
    (notified.call notified.onJobCompleteCallbacks job r, .returned r)

/-- The retry branch of `run_job`. The attempt is counted first, then come the two transitions,
the push and the counter. -/
def handleRetry (now : Time) (draw : ℚ) (job : UUID) (r : JobResult) (s : Scheduler) :
    Scheduler × RunStatus :=
  match s.core.prepareForRetry s.retryHandler now draw job with
  | .error error => (s, .raised error)
  | .ok prepared =>
    match prepared.transition job .retrying with
    | .error error => (s.withCore prepared, .raised error)
    | .ok retrying =>
      match retrying.transition job .scheduled with
      | .error error => (s.withCore retrying, .raised error)
      | .ok scheduled =>
        ((((s.withCore scheduled).pushRetry job).2).count
          (fun st => { st with jobsRetried := st.jobsRetried + 1 }), .returned r)

/-- The branch of `run_job` for a job that is not retried. -/
def handleFinally (now : Time) (job : UUID) (r : JobResult) (s : Scheduler) :
    Scheduler × RunStatus :=
  match s.core.transition job .failed with
  | .error error => (s, .raised error)
  | .ok failed =>
    let counted := (s.withCore (failed.modifyJob job
      (fun j => { j with completedAt := r.completedAt }))).count
        (fun st => { st with jobsFailed := st.jobsFailed + 1 })
    let notified := counted.notifyFailed now job (Task.orText r.error "Unknown error")
    (notified.call notified.onJobFailedCallbacks job r, .returned r)

/-- `run_job` with the result of a function that did not return. -/
def handleFailure (now : Time) (draw : ℚ) (job : UUID) (r : JobResult) (s : Scheduler) :
    Scheduler × RunStatus :=
  let noted := s.withCore (s.core.modifyJob job
    (fun j => { j with error := r.error, traceback := r.traceback }))
  if noted.retryHandler.shouldRetry (noted.core.jobs.get job)
      (some (.plain (Task.orText r.error "Unknown"))) then
    noted.handleRetry now draw job r
  else noted.handleFinally now job r

/-- **`run_job`, once `JobRunner.run` has returned.** The success or the failure is handled and
the callbacks are called, but the dead letter queue is not. -/
def handleResult (input : RunInput) (job : UUID) (r : JobResult) (s : Scheduler) :
    Scheduler × RunStatus :=
  if r.success then s.handleSuccess order input.handled job r
  else s.handleFailure input.handled input.draw job r

end Scheduler

namespace Task

variable {order : IterationOrder UUID} {input : RunInput}

/-- A step that goes on uses up one unit of fuel. -/
theorem drive_running {fuel : ℕ} {task task' : Task} {s s' : Scheduler}
    (h : task.step order input s = (s', .running task')) :
    drive order input (fuel + 1) task s = drive order input fuel task' s' := by
  rw [drive, h]

/-- A step that returns ends the run, whatever fuel is left. -/
theorem drive_returned {fuel : ℕ} {task : Task} {s s' : Scheduler} {r : JobResult}
    (h : task.step order input s = (s', .returned r)) :
    drive order input (fuel + 1) task s = (s', .returned r) := by
  rw [drive, h]

/-- A step that raises ends the run, and what was written before it stays. -/
theorem drive_raised {fuel : ℕ} {task : Task} {s s' : Scheduler} {error : OrchestratorError}
    (h : task.step order input s = (s', .raised error)) :
    drive order input (fuel + 1) task s = (s', .raised error) := by
  rw [drive, h]

variable {job : UUID} {startedAt : DateTime} {s : Scheduler}

/-- **From the result on**, where the function has returned: the transition, the counter, the
report and the callbacks. -/
theorem drive_handle_success {fuel : ℕ} {r : JobResult} (h : r.success = true) :
    drive order input (fuel + 5) ⟨job, startedAt, .handle r⟩ s
      = s.handleSuccess order input.handled job r := by
  rw [drive_running (by simp only [step, h, if_true]; rfl)]
  unfold Scheduler.handleSuccess
  simp only
  split
  · rename_i error herror
    exact drive_raised (by simp only [step, transitOrRaise, herror])
  · rename_i core hok
    rw [drive_running (by simp only [step, transitOrRaise, hok]; rfl), drive_running rfl,
      drive_running rfl]
    exact drive_returned rfl

/-- The retry branch, once the retry is prepared. -/
theorem drive_toRetrying {fuel : ℕ} {r : JobResult} {prepared : SchedulerCore}
    (ok : s.core.prepareForRetry s.retryHandler input.handled input.draw job = .ok prepared) :
    drive order input (fuel + 4) ⟨job, startedAt, .toRetrying r⟩ (s.withCore prepared)
      = s.handleRetry input.handled input.draw job r := by
  unfold Scheduler.handleRetry
  rw [ok]
  simp only
  split
  · rename_i error herror
    exact drive_raised (by simp only [step, transitOrRaise, Scheduler.withCore, herror])
  · rename_i retrying hok
    rw [drive_running (by simp only [step, transitOrRaise, Scheduler.withCore, hok]; rfl)]
    split
    · rename_i error herror
      exact drive_raised (by
        simp only [step, transitOrRaise, id, Scheduler.withCore, herror])
    · rename_i scheduled hok'
      rw [drive_running (by simp only [step, transitOrRaise, id, Scheduler.withCore, hok']; rfl),
        drive_running rfl]
      exact drive_returned rfl

/-- The branch for a job that is not retried. -/
theorem drive_toFailed {fuel : ℕ} {r : JobResult} :
    drive order input (fuel + 4) ⟨job, startedAt, .toFailed r⟩ s
      = s.handleFinally input.handled job r := by
  unfold Scheduler.handleFinally
  split
  · rename_i error herror
    exact drive_raised (by simp only [step, transitOrRaise, herror])
  · rename_i failed hok
    rw [drive_running (by simp only [step, transitOrRaise, hok]; rfl), drive_running rfl,
      drive_running rfl]
    exact drive_returned rfl

/-- **From the result on**, where it has raised: the error is noted, then comes the retry or the
end. -/
theorem drive_handle_failure {fuel : ℕ} {r : JobResult} (h : r.success = false) :
    drive order input (fuel + 5) ⟨job, startedAt, .handle r⟩ s
      = s.handleFailure input.handled input.draw job r := by
  unfold Scheduler.handleFailure
  simp only
  generalize hnoted : s.withCore (s.core.modifyJob job
    (fun j => { j with error := r.error, traceback := r.traceback })) = noted
  have hstep : step order input ⟨job, startedAt, .handle r⟩ s
      = if noted.retryHandler.shouldRetry (noted.core.jobs.get job)
            (some (.plain (orText r.error "Unknown"))) then
          match noted.core.prepareForRetry noted.retryHandler input.handled input.draw job with
          | .error error => (noted, .raised error)
          | .ok prepared =>
            (noted.withCore prepared, goto ⟨job, startedAt, .handle r⟩ (.toRetrying r))
        else (noted, goto ⟨job, startedAt, .handle r⟩ (.toFailed r)) := by
    rw [← hnoted]
    simp only [step, h, Bool.false_eq_true, if_false]
    rfl
  by_cases hretry : noted.retryHandler.shouldRetry (noted.core.jobs.get job)
      (some (.plain (orText r.error "Unknown"))) = true
  · rw [if_pos hretry] at hstep ⊢
    cases hprepare : noted.core.prepareForRetry noted.retryHandler input.handled input.draw job with
    | error error =>
      rw [hprepare] at hstep
      rw [drive_raised hstep]
      unfold Scheduler.handleRetry
      rw [hprepare]
    | ok prepared =>
      rw [hprepare] at hstep
      rw [drive_running hstep]
      exact drive_toRetrying hprepare
  · rw [if_neg hretry] at hstep ⊢
    rw [drive_running hstep]
    exact drive_toFailed

theorem drive_handle {fuel : ℕ} {r : JobResult} :
    drive order input (fuel + 5) ⟨job, startedAt, .handle r⟩ s
      = s.handleResult order input job r := by
  unfold Scheduler.handleResult
  cases h : r.success with
  | true => exact drive_handle_success h
  | false => exact drive_handle_failure h

/-- **From the call of the function on.** -/
theorem drive_invoke {fuel : ℕ} :
    drive order input (fuel + 6) ⟨job, .utcnow input.started, .invoke⟩ s
      = (s.withCore (s.core.modifyJob job
          (fun j => { j with startedAt := some (.utcnow input.started) }))).handleResult order
          input job (Scheduler.resultOf input job) := by
  rw [drive_running rfl]
  unfold Scheduler.resultOf
  cases input.outcome with
  | returned value => exact drive_handle
  | raised error => exact drive_handle

/-- A transition of `JobRunner.run` that is possible. It is the same for each of the three, so
one lemma does for them. -/
theorem drive_inner {fuel : ℕ} {pc next : RunPc} {target : JobState} {core : SchedulerCore}
    (h : pc.Inner target next) (ok : s.core.transition job target = .ok core) :
    drive order input (fuel + 1) ⟨job, startedAt, pc⟩ s
      = drive order input fuel ⟨job, startedAt, next⟩ (s.withCore core) := by
  refine drive_running ?_
  cases h <;> simp only [step, transit, ok] <;> rfl

/-- From the transition to RUNNING on. -/
theorem drive_toRunning {fuel : ℕ} {core : SchedulerCore}
    (ok : s.core.transition job .running = .ok core) :
    drive order input (fuel + 7) ⟨job, .utcnow input.started, .toRunning⟩ s
      = ((s.withCore core).withCore (core.modifyJob job
          (fun j => { j with startedAt := some (.utcnow input.started) }))).handleResult order
          input job (Scheduler.resultOf input job) := by
  rw [drive_inner .toRunning ok]
  exact drive_invoke

/-- From the first check of the state to the second, unless the job is PENDING. -/
theorem drive_checkPending {fuel : ℕ} (h : s.core.state job ≠ .pending) :
    drive order input (fuel + 1) ⟨job, startedAt, .checkPending⟩ s
      = drive order input fuel ⟨job, startedAt, .checkScheduled⟩ s :=
  drive_running (by simp only [step, goto, if_neg h])

theorem drive_checkScheduled {fuel : ℕ} (h : s.core.state job = .scheduled) :
    drive order input (fuel + 1) ⟨job, startedAt, .checkScheduled⟩ s
      = drive order input fuel ⟨job, startedAt, .toRunning⟩ s :=
  drive_running (by simp only [step, goto, if_pos h])

/-- To the third check, where the job is not SCHEDULED either. -/
theorem drive_checkRunning {fuel : ℕ} (h : s.core.state job ≠ .pending)
    (h' : s.core.state job ≠ .scheduled) :
    drive order input (fuel + 2) ⟨job, startedAt, .checkPending⟩ s
      = drive order input fuel ⟨job, startedAt, .checkRunning⟩ s := by
  rw [drive_checkPending h]
  exact drive_running (by simp only [step, goto, if_neg h'])

/-- To the fourth, where it is not RUNNING. -/
theorem drive_checkRetrying {fuel : ℕ} (h : s.core.state job ≠ .running) :
    drive order input (fuel + 1) ⟨job, startedAt, .checkRunning⟩ s
      = drive order input fuel ⟨job, startedAt, .checkRetrying⟩ s :=
  drive_running (by simp only [step, goto, if_pos h])

/-- **The fall-through**: the function of a job that cannot be brought to RUNNING is
called all the same. -/
theorem drive_unexpected {fuel : ℕ} (running : s.core.state job ≠ .running)
    (retrying : s.core.state job ≠ .retrying)
    (cannot : canTransition (s.core.state job) .running = false) :
    drive order input (fuel + 3) ⟨job, startedAt, .checkRunning⟩ s
      = drive order input fuel ⟨job, startedAt, .invoke⟩ s := by
  have hcanRun : step order input ⟨job, startedAt, .checkRetrying⟩ s
      = (s, .running ⟨job, startedAt, .checkCanRun⟩) := by
    simp only [step, goto, if_neg retrying]
  have hinvoke : step order input ⟨job, startedAt, .checkCanRun⟩ s
      = (s, .running ⟨job, startedAt, .invoke⟩) := by
    simp only [step, goto, cannot, Bool.false_eq_true, if_false]
  rw [drive_checkRetrying running, drive_running hcanRun, drive_running hinvoke]

end Task

namespace Scheduler

variable (order : IterationOrder UUID) (input : RunInput) (job : UUID) (s : Scheduler)

/-- Two transitions, the second to RUNNING, are what `enter` does. -/
theorem enter_of_transitions {c c' : SchedulerCore} {middle : JobState}
    (h : SchedulerCore.enterable (s.core.state job) = true)
    (first : s.core.transition job middle = .ok c)
    (second : c.transition job .running = .ok c') : c' = s.core.enter job := by
  rw [SchedulerCore.transition_transition first second, SchedulerCore.enter, if_pos h]

/-- Where the first is allowed, the second is. -/
theorem exists_transitions (can : canTransition (s.core.state job) .scheduled = true) :
    ∃ c c', s.core.transition job .scheduled = .ok c
      ∧ (s.withCore c).core.state job = .scheduled
      ∧ (s.withCore c).core.transition job .running = .ok c' := by
  obtain ⟨c, hc⟩ : ∃ c, s.core.transition job .scheduled = .ok c :=
    ⟨_, SchedulerCore.transition_of_can can⟩
  have hstate : (s.withCore c).core.state job = .scheduled :=
    (SchedulerCore.state_transition hc job).trans (if_pos rfl)
  exact ⟨c, _, hc, hstate, SchedulerCore.transition_of_can (by rw [hstate]; rfl)⟩

/-- One transition to RUNNING is too. -/
theorem enter_of_transition {c : SchedulerCore}
    (h : SchedulerCore.enterable (s.core.state job) = true)
    (ok : s.core.transition job .running = .ok c) : c = s.core.enter job := by
  rw [(SchedulerCore.transition_ok ok).2, SchedulerCore.enter, if_pos h]

/-- **`run_job` is `JobRunner.run`, and then what is made of its result.** -/
theorem runJob_eq :
    s.runJob order input job
      = (s.execute input job).handleResult order input job (resultOf input job) := by
  have hstart : s.runJob order input job
      = Task.drive order input 15 ⟨job, .utcnow input.started, .checkPending⟩ s :=
    Task.drive_running rfl
  -- where the job cannot be brought to RUNNING, it is left as it is
  have hunexpected : SchedulerCore.enterable (s.core.state job) = false →
      canTransition (s.core.state job) .running = false → s.core.state job ≠ .running →
      s.runJob order input job
        = (s.execute input job).handleResult order input job (resultOf input job) := by
    intro hnot hcannot hrunning
    have hne : ∀ st, SchedulerCore.enterable st = true → s.core.state job ≠ st := by
      rintro st hst rfl
      exact absurd (hnot.symm.trans hst) (by decide)
    rw [hstart, Task.drive_checkRunning (hne .pending rfl) (hne .scheduled rfl),
      Task.drive_unexpected hrunning (hne .retrying rfl) hcannot, Task.drive_invoke]
    unfold execute SchedulerCore.enter
    rw [hnot]
    rfl
  cases hst : s.core.state job with
  | pending =>
    -- two transitions, which cannot be refused when nothing interferes
    obtain ⟨c, c', hc, hstate, hc'⟩ := exists_transitions job s (by rw [hst]; rfl)
    have hpending : Task.step order input ⟨job, .utcnow input.started, .checkPending⟩ s
        = (s, .running ⟨job, .utcnow input.started, .toScheduled⟩) := by
      simp only [Task.step, Task.goto, if_pos hst]
    rw [hstart, Task.drive_running hpending, Task.drive_inner .toScheduled hc,
      Task.drive_checkScheduled hstate, Task.drive_toRunning hc',
      enter_of_transitions job s (by rw [hst]; rfl) hc hc']
    rfl
  | scheduled =>
    obtain ⟨c, hc⟩ : ∃ c, s.core.transition job .running = .ok c :=
      ⟨_, SchedulerCore.transition_of_can (by rw [hst]; rfl)⟩
    rw [hstart, Task.drive_checkPending (by rw [hst]; decide), Task.drive_checkScheduled hst,
      Task.drive_toRunning hc, enter_of_transition job s (by rw [hst]; rfl) hc]
    rfl
  | running =>
    have hrunning : Task.step order input ⟨job, .utcnow input.started, .checkRunning⟩ s
        = (s, .running ⟨job, .utcnow input.started, .invoke⟩) := by
      simp only [Task.step, Task.goto, hst, ne_eq, not_true_eq_false, if_false]
    rw [hstart, Task.drive_checkRunning (by rw [hst]; decide) (by rw [hst]; decide),
      Task.drive_running hrunning, Task.drive_invoke]
    unfold execute SchedulerCore.enter
    rw [hst]
    rfl
  | retrying =>
    obtain ⟨c, c', hc, hstate, hc'⟩ := exists_transitions job s (by rw [hst]; rfl)
    have hretrying : Task.step order input ⟨job, .utcnow input.started, .checkRetrying⟩ s
        = (s, .running ⟨job, .utcnow input.started, .retryToScheduled⟩) := by
      simp only [Task.step, Task.goto, if_pos hst]
    rw [hstart, Task.drive_checkRunning (by rw [hst]; decide) (by rw [hst]; decide),
      Task.drive_checkRetrying (by rw [hst]; decide), Task.drive_running hretrying,
      Task.drive_inner .retryToScheduled hc, Task.drive_toRunning hc',
      enter_of_transitions job s (by rw [hst]; rfl) hc hc']
    rfl
  | completed | failed | cancelled | timeout =>
    -- "try to proceed": the function is called in the state the job is in
    exact hunexpected (by rw [hst]; rfl) (by rw [hst]; rfl) (by rw [hst]; decide)

end Scheduler

end JobOrchestrator
