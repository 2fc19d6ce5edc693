import JobOrchestrator.Scheduler.Alike
import JobOrchestrator.Scheduler.DeadLettering

/-!
# The two ways to report an execution

A thread worker calls `run_job`; the process and async workers run the
function themselves and then call `complete_job` or `fail_job`. The two
ways are compared from every state, for every outcome of the function, and
`Scheduler.PathsAgree` is the exact condition under which they lead to the
same. They differ for a job that is SCHEDULED, as a job from
`get_next_job` is: only `run_job` brings it to RUNNING.

Where they agree the schedulers reached are `Alike`. Where they do not, the
proof names what differs: a state, an attempt, an error, a count of the
dead letter queue, or the calls of the callbacks.
-/

namespace JobOrchestrator

namespace Scheduler

/-! ## The comparison -/

/-- **The report of a process or async worker**, once the function has ended. -/
def report (order : IterationOrder UUID) (input : RunInput) (job : UUID) (s : Scheduler) :
    Scheduler :=
  match input.outcome with
  | .returned value => (s.completeJob order input.handled job value).1
  | .raised error => (s.failJob input.handled input.draw input.traceback job error).1

end Scheduler

/-- An entry without its id and its times. -/
def DLQEntry.anonymous (e : DLQEntry) : DLQEntry :=
  { e with entryId := 0, addedAt := ⟨0, none⟩, resolvedAt := e.resolvedAt.map (fun _ => ⟨0, none⟩) }

namespace Scheduler

/-- **What the two ways are to agree on.** Times and the text of the traceback are left out: they
differ between any two reports. -/
structure SameReport (job : UUID) (a b : Scheduler) : Prop where
  state : a.core.state job = b.core.state job
  attempt : (a.core.jobs.get job).attempt = (b.core.jobs.get job).attempt
  result : (a.core.jobs.get job).result = (b.core.jobs.get job).result
  error : (a.core.jobs.get job).error = (b.core.jobs.get job).error
  queue : a.core.queue = b.core.queue
  dlq : a.dlq.entries.values.map DLQEntry.anonymous = b.dlq.entries.values.map DLQEntry.anonymous
  stats : a.core.stats = b.core.stats
  executor : a.executor = b.executor
  calls : a.calls = b.calls

/-- Alike schedulers agree on all of it: a report does not compare the times. -/
theorem Alike.sameReport {job : UUID} {s s' : Scheduler} (h : Alike job s s') :
    SameReport job s' s where
  state := h.core.state job
  attempt := h.core.field Job.attempt (fun _ => rfl) job
  result := h.core.field Job.result (fun _ => rfl) job
  error := h.core.field Job.error (fun _ => rfl) job
  queue := h.core.queue
  dlq := by rw [h.dlq]
  stats := h.core.stats
  executor := h.executor
  calls := h.calls

end Scheduler

/-! ## What stays through a report to the executor -/

namespace SchedulerCore

/-- Neither submitting nor cancelling changes a terminal state. -/
theorem stable_terminal {st : JobState} (h : st.isTerminal = true) (k : UUID) :
    Stable (fun c => c.state k = st) where
  stats _ _ hc := hc
  submit c job hc := by
    refine submit_elim (fun r hcases => ?_)
    cases hcases with
    | refused | stranded => exact hc
    | undone _ _ can _ c' states | accepted _ _ can _ c' states =>
      show c'.state k = st
      rw [states]
      split
      · rename_i hk
        rw [← hk, hc, canTransition_of_isTerminal h] at can
        cases can
      · exact hc
  cancelJob c now job hc := by
    refine cancelJob_elim (fun r hcases => ?_)
    cases hcases with
    | unchanged => exact hc
    | done _ can c' states =>
      show c'.state k = st
      rw [states]
      split
      · rename_i hk
        have hcan := canTransition_of_cancellable can
        rw [← hk, hc, canTransition_of_isTerminal h] at hcan
        cases hcan
      · exact hc

/-- A transition counts nothing. -/
theorem stats_transition {c c' : SchedulerCore} {job : UUID} {target : JobState}
    (h : c.transition job target = .ok c') : c'.stats = c.stats := by
  rw [(transition_ok h).2]
  rfl

/-- Nor do they count anything but submissions and DAGs. -/
theorem keeps_stat {g : SchedulerStats → ℕ}
    (other : ∀ st submitted completed failed, g { st with
      jobsSubmitted := submitted, dagsCompleted := completed, dagsFailed := failed } = g st)
    (n : ℕ) (now : Time) : (host now).Keeps (fun c => g c.stats = n) where
  submit _ k c hc := by
    show g (c.submit k).1.stats = n
    unfold submit
    split
    · exact hc
    · split
      · exact hc
      · unfold storeAndPush
        split
        · exact hc
        · rename_i scheduled hok
          have hstats : scheduled.stats = c.stats := by rw [stats_transition hok]
          unfold enqueue
          split
          · show g scheduled.stats = n
            rw [hstats]
            exact hc
          · refine (other scheduled.stats _ _ _).trans ?_
            rw [hstats]
            exact hc
  onDagComplete _ _ c hc := (other c.stats _ _ _).trans hc
  onDagFailed _ _ c hc := (other c.stats _ _ _).trans hc

/-- Nor jobs that were sent to the dead letter queue. -/
theorem keeps_jobsSentToDlq (n : ℕ) (now : Time) :
    (host now).Keeps (fun c => c.stats.jobsSentToDlq = n) :=
  keeps_stat (fun _ _ _ _ => rfl) n now

/-- Nor does it count retries. -/
theorem keeps_jobsRetried (n : ℕ) (now : Time) :
    (host now).Keeps (fun c => c.stats.jobsRetried = n) :=
  keeps_stat (fun _ _ _ _ => rfl) n now

/-- A transition that is possible succeeds. -/
theorem exists_transition {c : SchedulerCore} {job : UUID} {target : JobState}
    (h : canTransition (c.state job) target = true) : ∃ c', c.transition job target = .ok c' :=
  ⟨_, transition_of_can h⟩

/-- A transition writes the state of the job only. -/
theorem field_transition {α : Type*} {c c' : SchedulerCore} {job : UUID} {target : JobState}
    (f : Job → α) (hf : ∀ j : Job, f { j with state := target, id := job } = f j)
    (h : c.transition job target = .ok c') : f (c'.jobs.get job) = f (c.jobs.get job) := by
  rw [(transition_ok h).2]
  unfold setState modifyJob
  simp only [JobTable.get_modify_self]
  exact hf _

end SchedulerCore

namespace Scheduler

open SchedulerCore

variable {order : IterationOrder UUID} {s : Scheduler} {job : UUID} {input : RunInput}

theorem jobsSentToDlq_notifyFailed (now : Time) (job : UUID) (error : String) (s : Scheduler) :
    (s.notifyFailed now job error).core.stats.jobsSentToDlq = s.core.stats.jobsSentToDlq := by
  unfold notifyFailed
  split
  · rfl
  · exact (keeps_jobsSentToDlq s.core.stats.jobsSentToDlq now).onJobFailed now job error
      s.executor rfl

theorem jobsRetried_notifyFailed (now : Time) (job : UUID) (error : String) (s : Scheduler) :
    (s.notifyFailed now job error).core.stats.jobsRetried = s.core.stats.jobsRetried := by
  unfold notifyFailed
  split
  · rfl
  · exact (keeps_jobsRetried s.core.stats.jobsRetried now).onJobFailed now job error s.executor rfl

theorem jobsRetried_notifyComplete (order : IterationOrder UUID) (now : Time) (job : UUID)
    (s : Scheduler) :
    (s.notifyComplete order now job).core.stats.jobsRetried = s.core.stats.jobsRetried := by
  unfold notifyComplete
  split
  · rfl
  · exact (keeps_jobsRetried s.core.stats.jobsRetried now).onJobComplete order now job s.executor
      rfl

/-! ## The branches of both ways -/

/-- The retry branches are one and the same in `run_job` and `fail_job`, once the job is what it
is before them. -/
theorem handleRetry_fst (now : Time) (draw : ℚ) (job : UUID) (r : JobResult) (s : Scheduler) :
    (s.handleRetry now draw job r).1 = (s.failJobRetry now draw job).1 := by
  unfold handleRetry failJobRetry
  cases s.core.prepareForRetry s.retryHandler now draw job with
  | error error => rfl
  | ok prepared =>
    simp only [withCore]
    cases prepared.transition job .retrying with
    | error error => rfl
    | ok retrying =>
      simp only
      cases retrying.transition job .scheduled <;> rfl

/-- The job object after the push of its retry. -/
theorem get_pushRetry (job : UUID) (s : Scheduler) :
    (s.pushRetry job).2.core.jobs.get job
      = { s.core.jobs.get job with id := job, error := none, traceback := none } :=
  JobTable.get_modify_self s.core.jobs job (fun j => { j with error := none, traceback := none })

/-- The two transitions of a retry that the state allows. -/
theorem exists_retry_transitions (now : Time) (draw : ℚ)
    (can : canTransition (s.core.state job) .retrying = true) :
    ∃ retrying scheduled : SchedulerCore,
      (s.core.modifyJob job (s.retryHandler.prepared now draw)).transition job .retrying
          = .ok retrying
        ∧ retrying.transition job .scheduled = .ok scheduled := by
  have hprepared : (s.core.modifyJob job (s.retryHandler.prepared now draw)).state job
      = s.core.state job := state_modifyJob (fun _ => by rfl) job
  obtain ⟨retrying, hretrying⟩ := exists_transition
    (show canTransition ((s.core.modifyJob job
      (s.retryHandler.prepared now draw)).state job) .retrying = true by
        rw [hprepared]; exact can)
  have hstate : retrying.state job = .retrying :=
    (state_transition hretrying job).trans (if_pos rfl)
  obtain ⟨scheduled, hscheduled⟩ := exists_transition
    (show canTransition (retrying.state job) .scheduled = true by rw [hstate]; rfl)
  exact ⟨retrying, scheduled, hretrying, hscheduled⟩

/-- The next attempt of the job can be scheduled: nothing overflows. -/
def RetryFits (now : Time) (draw : ℚ) (job : UUID) (s : Scheduler) : Prop :=
  s.retryHandler.Fits now draw (s.core.jobs.get job)

instance (now : Time) (draw : ℚ) (job : UUID) (s : Scheduler) :
    Decidable (s.RetryFits now draw job) :=
  inferInstanceAs (Decidable (s.retryHandler.Fits now draw _))

/-- **A retry that overflows** is given up before it has changed anything. -/
theorem failJobRetry_of_not_fits {now : Time} {draw : ℚ} (overflows : ¬ s.RetryFits now draw job) :
    ∃ text, s.failJobRetry now draw job = (s, .error (.overflow text)) := by
  obtain ⟨text, hraised⟩ := SchedulerCore.prepareForRetry_of_not_fits overflows
  unfold failJobRetry
  rw [hraised]
  exact ⟨text, rfl⟩

/-- **A retry that the state allows**: the job is SCHEDULED, and pushed. -/
theorem exists_retried {now : Time} {draw : ℚ} (fits : s.RetryFits now draw job)
    (can : canTransition (s.core.state job) .retrying = true) :
    ∃ scheduled : SchedulerCore, scheduled.state job = .scheduled
      ∧ scheduled.queue = s.core.queue
      ∧ (scheduled.jobs.get job).attempt = (s.core.jobs.get job).attempt + 1
      ∧ s.failJobRetry now draw job = (((s.withCore scheduled).pushRetry job).2.count
        (fun st => { st with jobsRetried := st.jobsRetried + 1 }), .ok ()) := by
  obtain ⟨retrying, scheduled, hretrying, hscheduled⟩ := exists_retry_transitions now draw can
  refine ⟨scheduled, (state_transition hscheduled job).trans (if_pos rfl), ?_, ?_, ?_⟩
  · exact (queue_transition hscheduled).trans ((queue_transition hretrying).trans rfl)
  · rw [field_transition Job.attempt (fun _ => rfl) hscheduled,
      field_transition Job.attempt (fun _ => rfl) hretrying]
    unfold SchedulerCore.modifyJob
    simp only [JobTable.get_modify_self]
    rfl
  · unfold failJobRetry
    simp only [SchedulerCore.prepareForRetry_of_fits fits, hretrying, hscheduled]

/-- **A retry that is possible**: the job is SCHEDULED, its attempt counted and its
error cleared. -/
theorem failJobRetry_of_can {now : Time} {draw : ℚ} (fits : s.RetryFits now draw job)
    (can : canTransition (s.core.state job) .retrying = true) :
    (s.failJobRetry now draw job).1.core.state job = .scheduled
      ∧ ((s.failJobRetry now draw job).1.core.jobs.get job).attempt
        = (s.core.jobs.get job).attempt + 1
      ∧ ((s.failJobRetry now draw job).1.core.jobs.get job).error = none := by
  obtain ⟨scheduled, hstate, -, hattempt, hretried⟩ := exists_retried fits can
  rw [hretried]
  refine ⟨?_, ?_, ?_⟩
  · show ((s.withCore scheduled).pushRetry job).2.core.state job = _
    rw [(repushed job _).states]
    exact hstate
  · show (((s.withCore scheduled).pushRetry job).2.core.jobs.get job).attempt = _
    rw [get_pushRetry]
    exact hattempt
  · show (((s.withCore scheduled).pushRetry job).2.core.jobs.get job).error = _
    rw [get_pushRetry]

/-- **A retry that is refused** is left half done. -/
theorem failJobRetry_of_cannot {now : Time} {draw : ℚ} (fits : s.RetryFits now draw job)
    (cannot : canTransition (s.core.state job) .retrying = false) :
    s.failJobRetry now draw job
      = (s.withCore (s.core.modifyJob job (s.retryHandler.prepared now draw)),
        .error (.invalidStateTransition job
          ((s.core.modifyJob job (s.retryHandler.prepared now draw)).state job)
          .retrying)) := by
  have hrefused : canTransition ((s.core.modifyJob job
      (s.retryHandler.prepared now draw)).state job) .retrying = false := by
    rw [state_modifyJob (f := s.retryHandler.prepared now draw) (fun _ => rfl)]
    exact cannot
  unfold failJobRetry SchedulerCore.transition
  simp only [SchedulerCore.prepareForRetry_of_fits fits, hrefused, Bool.false_eq_true, if_false]

/-- The refused retry leaves the state and the error, whether it overflows or not. -/
theorem fields_failJobRetry_of_cannot (now : Time) (draw : ℚ)
    (cannot : canTransition (s.core.state job) .retrying = false) :
    (s.failJobRetry now draw job).1.core.state job = s.core.state job
      ∧ ((s.failJobRetry now draw job).1.core.jobs.get job).error
        = (s.core.jobs.get job).error := by
  by_cases hfits : s.RetryFits now draw job
  · rw [failJobRetry_of_cannot hfits cannot]
    unfold withCore SchedulerCore.state SchedulerCore.modifyJob
    simp only [JobTable.get_modify_self]
    exact ⟨rfl, rfl⟩
  · obtain ⟨text, hraised⟩ := failJobRetry_of_not_fits hfits
    rw [hraised]
    exact ⟨rfl, rfl⟩

/-- **A retry counts the attempt**, whether it is refused or not, unless it overflows. -/
theorem attempt_failJobRetry {now : Time} {draw : ℚ} (fits : s.RetryFits now draw job) :
    ((s.failJobRetry now draw job).1.core.jobs.get job).attempt
      = (s.core.jobs.get job).attempt + 1 := by
  cases hretry : canTransition (s.core.state job) .retrying with
  | true => exact (failJobRetry_of_can fits hretry).2.1
  | false =>
    rw [failJobRetry_of_cannot fits hretry]
    unfold withCore SchedulerCore.modifyJob
    simp only [JobTable.get_modify_self]
    rfl

/-- **`run_job` fails a job for good**, and sends it nowhere. -/
theorem handleFinally_of_can (now : Time) (r : JobResult)
    (can : canTransition (s.core.state job) .failed = true) :
    (s.handleFinally now job r).1.core.state job = .failed
      ∧ (s.handleFinally now job r).1.core.stats.jobsSentToDlq
        = s.core.stats.jobsSentToDlq := by
  obtain ⟨failed, hfailed⟩ := exists_transition can
  have hstate : (failed.modifyJob job (fun j => { j with completedAt := r.completedAt })).state job
      = .failed :=
    (state_modifyJob (fun _ => by rfl) job).trans
      ((state_transition hfailed job).trans (if_pos rfl))
  unfold handleFinally
  simp only [hfailed]
  refine ⟨stable_notifyFailed (stable_terminal rfl job) now job _ hstate, ?_⟩
  refine (jobsSentToDlq_notifyFailed now job _ _).trans ?_
  show failed.stats.jobsSentToDlq = _
  rw [stats_transition hfailed]

theorem handleFinally_of_cannot (now : Time) (r : JobResult)
    (cannot : canTransition (s.core.state job) .failed = false) :
    (s.handleFinally now job r).1 = s := by
  unfold handleFinally SchedulerCore.transition
  simp only [cannot, Bool.false_eq_true, if_false]

/-- **`fail_job` fails a job for good**, and sends it to the dead letter queue. -/
theorem failJobFinally_of_can (now : Time) (traceback : String) (error : PyException)
    (can : canTransition (s.core.state job) .failed = true) :
    (s.failJobFinally now traceback job error).1.core.state job = .failed
      ∧ (s.failJobFinally now traceback job error).1.core.stats.jobsSentToDlq
        = s.core.stats.jobsSentToDlq + 1 := by
  obtain ⟨failed, hfailed⟩ := exists_transition can
  have hstate : (failed.modifyJob job
      (fun j => { j with completedAt := some (.utcnow now) })).state job = .failed :=
    (state_modifyJob (fun _ => by rfl) job).trans
      ((state_transition hfailed job).trans (if_pos rfl))
  unfold failJobFinally
  simp only [hfailed]
  refine ⟨stable_notifyFailed (stable_terminal rfl job) now job _ hstate, ?_⟩
  refine (jobsSentToDlq_notifyFailed now job _ _).trans ?_
  show failed.stats.jobsSentToDlq + 1 = _
  rw [stats_transition hfailed]

theorem failJobFinally_of_cannot (now : Time) (traceback : String) (error : PyException)
    (cannot : canTransition (s.core.state job) .failed = false) :
    (s.failJobFinally now traceback job error).1 = s := by
  unfold failJobFinally SchedulerCore.transition
  simp only [cannot, Bool.false_eq_true, if_false]

/-- What both ways write to a job whose function returned. -/
def completedWith (result : Value) (completedAt : Option DateTime) (job : UUID) (s : Scheduler) :
    Scheduler :=
  s.withCore (s.core.modifyJob job
    (fun j => { j with result := result, completedAt := completedAt }))

theorem state_completedWith (result : Value) (completedAt : Option DateTime) (job : UUID)
    (s : Scheduler) : (s.completedWith result completedAt job).core.state job = s.core.state job :=
  state_modifyJob (c := s.core)
    (f := fun j => { j with result := result, completedAt := completedAt }) (fun _ => rfl) job

variable (order) in
/-- **`run_job` completes a job** that is RUNNING. The transition is allowed from there, and
nothing after it changes the state again. -/
theorem state_handleSuccess (now : Time) (r : JobResult) (running : s.core.state job = .running) :
    (s.handleSuccess order now job r).1.core.state job = .completed := by
  obtain ⟨completed, hcompleted⟩ := exists_transition
    (show canTransition ((s.completedWith r.result r.completedAt job).core.state job)
      .completed = true by rw [state_completedWith, running]; rfl)
  have hstate : completed.state job = .completed :=
    (state_transition hcompleted job).trans (if_pos rfl)
  unfold completedWith at hcompleted
  unfold handleSuccess
  simp only [hcompleted]
  exact stable_notifyComplete (stable_terminal rfl job) order now job hstate

theorem canTransition_completed {st : JobState} (h : st ≠ .running) :
    canTransition st .completed = false := by
  cases st <;> first | rfl | exact absurd rfl h

/-- The transition to COMPLETED is refused from every other state. -/
theorem handleSuccess_of_ne (now : Time) (r : JobResult) (h : s.core.state job ≠ .running) :
    (s.handleSuccess order now job r).1 = s.completedWith r.result r.completedAt job := by
  have hrefused : canTransition ((s.completedWith r.result r.completedAt job).core.state job)
      .completed = false := by
    rw [state_completedWith]
    exact canTransition_completed h
  unfold completedWith at hrefused ⊢
  unfold handleSuccess SchedulerCore.transition
  simp only [hrefused, Bool.false_eq_true, if_false]

theorem completeJob_of_ne (now : Time) (result : Value) (stored : job ∈ s.core.store)
    (h : s.core.state job ≠ .running) :
    (s.completeJob order now job result).1
      = s.completedWith result (some (.utcnow now)) job := by
  have hrefused : canTransition ((s.completedWith result (some (.utcnow now)) job).core.state job)
      .completed = false := by
    rw [state_completedWith]
    exact canTransition_completed h
  unfold completedWith withCore at hrefused
  unfold completeJob completedWith
  rw [if_neg (not_not.mpr stored)]
  unfold SchedulerCore.transition
  simp only [hrefused, Bool.false_eq_true, if_false]

/-- What both ways write to a job whose function raised. -/
def failedWith (error : PyException) (traceback : String) (job : UUID) (s : Scheduler) :
    Scheduler :=
  s.withCore (s.core.modifyJob job
    (fun j => { j with error := some error.message, traceback := some traceback }))

theorem state_failedWith (error : PyException) (traceback : String) (job : UUID)
    (s : Scheduler) : (s.failedWith error traceback job).core.state job = s.core.state job :=
  state_modifyJob (c := s.core)
    (f := fun j => { j with error := some error.message, traceback := some traceback })
    (fun _ => rfl) job

theorem error_failedWith (error : PyException) (traceback : String) (job : UUID) (s : Scheduler) :
    ((s.failedWith error traceback job).core.jobs.get job).error = some error.message := by
  unfold failedWith withCore SchedulerCore.modifyJob
  simp only [JobTable.get_modify_self]

theorem attempt_failedWith (error : PyException) (traceback : String) (job : UUID)
    (s : Scheduler) : ((s.failedWith error traceback job).core.jobs.get job).attempt
      = (s.core.jobs.get job).attempt := by
  unfold failedWith withCore SchedulerCore.modifyJob
  simp only [JobTable.get_modify_self]

/-- What they write has nothing to do with the next attempt. -/
theorem retryFits_failedWith (error : PyException) (traceback : String) (now : Time) (draw : ℚ)
    (job : UUID) (s : Scheduler) :
    (s.failedWith error traceback job).RetryFits now draw job ↔ s.RetryFits now draw job := by
  refine Retry.RetryHandler.fits_congr _ ?_ (attempt_failedWith error traceback job s) now draw
  unfold failedWith withCore SchedulerCore.modifyJob
  simp only [JobTable.get_modify_self]

/-- The retry handler's answer for an exception itself, as `fail_job` asks. -/
def retries (job : UUID) (error : PyException) (s : Scheduler) : Bool :=
  s.retryHandler.shouldRetry (s.core.jobs.get job) (some error)

/-- Its answer for the plain `Exception` that `run_job` makes of the message. -/
def retriesPlain (job : UUID) (error : PyException) (s : Scheduler) : Bool :=
  s.retryHandler.shouldRetry (s.core.jobs.get job)
    (some (.plain (Task.orText (some error.message) "Unknown")))

/-- What `run_job` retries, `fail_job` retries: an `Exception` made of the text is of no class
that the exception itself is not of. -/
theorem retries_of_retriesPlain {error : PyException} (h : s.retriesPlain job error = true) :
    s.retries job error = true :=
  Retry.RetryHandler.shouldRetry_of_plain h

/-! ## Both ways, by their outcome -/

theorem runJob_returned {value : Value} (h : input.outcome = .returned value) :
    (s.runJob order input job).1 = ((s.execute input job).handleSuccess order input.handled job
      ((started input job).success input value)).1 := by
  rw [runJob_eq]
  unfold handleResult resultOf
  rw [h]
  rfl

theorem runJob_raised {error : PyException} (h : input.outcome = .raised error) :
    (s.runJob order input job).1
      = if s.retriesPlain job error then
          (((s.execute input job).failedWith error input.traceback job).failJobRetry input.handled
            input.draw job).1
        else (((s.execute input job).failedWith error input.traceback job).handleFinally
          input.handled job ((started input job).failure input error.message)).1 := by
  have hasked :
      ((s.execute input job).failedWith error input.traceback job).retryHandler.shouldRetry
      (((s.execute input job).failedWith error input.traceback job).core.jobs.get job)
      (some (.plain (Task.orText (some error.message) "Unknown"))) = s.retriesPlain job error :=
    shouldRetry_execute input job s (fun j => { j with
      error := some error.message
      traceback := some input.traceback }) (fun _ => ⟨rfl, rfl⟩) _
  rw [← hasked, runJob_eq]
  unfold handleResult resultOf
  rw [h]
  show (handleFailure _ _ _ _ _).1 = _
  unfold handleFailure
  by_cases hretry : ((s.execute input job).failedWith error input.traceback
      job).retryHandler.shouldRetry
      (((s.execute input job).failedWith error input.traceback job).core.jobs.get job)
      (some (.plain (Task.orText (some error.message) "Unknown"))) = true
  · rw [if_pos hretry]
    exact (congrArg Prod.fst (if_pos hretry)).trans (handleRetry_fst _ _ _ _ _)
  · rw [if_neg hretry]
    exact congrArg Prod.fst (if_neg hretry)

/-- **`fail_job`** of a job that is stored. It asks about the exception that was raised, with its
own classes. -/
theorem failJob_stored (now : Time) (draw : ℚ) (traceback : String) (error : PyException)
    (stored : job ∈ s.core.store) :
    (s.failJob now draw traceback job error).1
      = if s.retries job error then
          ((s.failedWith error traceback job).failJobRetry now draw job).1
        else ((s.failedWith error traceback job).failJobFinally now traceback job error).1 := by
  have hasked : (s.failedWith error traceback job).retryHandler.shouldRetry
      ((s.failedWith error traceback job).core.jobs.get job) (some error)
        = s.retries job error := by
    unfold failedWith withCore SchedulerCore.modifyJob retries
    simp only [JobTable.get_modify_self]
    exact Retry.RetryHandler.shouldRetry_congr _ rfl rfl _
  unfold failJob
  rw [if_neg (not_not.mpr stored), ← hasked]
  unfold failedWith
  simp only
  split <;> rfl

theorem report_raised {error : PyException} (h : input.outcome = .raised error)
    (stored : job ∈ s.core.store) :
    s.report order input job
      = if s.retries job error then
          ((s.failedWith error input.traceback job).failJobRetry input.handled input.draw job).1
        else ((s.failedWith error input.traceback job).failJobFinally input.handled
          input.traceback job error).1 := by
  unfold report
  rw [h]
  exact failJob_stored _ _ _ _ stored

/-! ## `JobRunner.run`, seen from the job -/

theorem attempt_execute (input : RunInput) (job : UUID) (s : Scheduler) :
    ((s.execute input job).core.jobs.get job).attempt = (s.core.jobs.get job).attempt := by
  unfold execute withCore SchedulerCore.enter setState SchedulerCore.modifyJob
  simp only [JobTable.get_modify_self]
  split <;> simp

/-- Nor has what `JobRunner.run` writes to do with it: whether a retry overflows is settled
before the run. -/
theorem retryFits_execute (now : Time) (draw : ℚ) (input : RunInput) (job : UUID) (s : Scheduler) :
    (s.execute input job).RetryFits now draw job ↔ s.RetryFits now draw job := by
  refine Retry.RetryHandler.fits_congr _ ?_ (attempt_execute input job s) now draw
  unfold execute withCore SchedulerCore.enter setState SchedulerCore.modifyJob
  simp only [JobTable.get_modify_self]
  split <;> simp

/-- The retry of a job that was executed fits where that of the job before does. -/
theorem retryFits_executed (error : PyException) (traceback : String) (now : Time) (draw : ℚ)
    (input : RunInput) (job : UUID) (s : Scheduler) :
    ((s.execute input job).failedWith error traceback job).RetryFits now draw job
      ↔ s.RetryFits now draw job :=
  (retryFits_failedWith _ _ _ _ _ _).trans (retryFits_execute _ _ _ _ _)

theorem stats_execute (input : RunInput) (job : UUID) (s : Scheduler) :
    (s.execute input job).core.stats = s.core.stats := by
  unfold execute withCore SchedulerCore.enter setState SchedulerCore.modifyJob
  simp only
  split <;> rfl

/-- Assigning fields that are blurred, or hold the value already. -/
theorem alike_modifyJob (s : Scheduler) (job : UUID) {f : Job → Job}
    (h : (f (s.core.jobs.get job)).blurred = (s.core.jobs.get job).blurred) :
    Alike job s (s.withCore (s.core.modifyJob job f)) := by
  refine ⟨⟨fun k hk => ?_, ?_, rfl, rfl, rfl, rfl⟩, rfl, rfl, rfl, rfl⟩
  · exact JobTable.get_modify_of_ne _ hk f
  · show ((s.core.jobs.modify job f).get job).blurred = _
    rw [JobTable.get_modify_self]
    have hid := s.core.jobs.id_get job
    calc ({ f (s.core.jobs.get job) with id := job } : Job).blurred
        = { (f (s.core.jobs.get job)).blurred with id := job } := rfl
      _ = { (s.core.jobs.get job).blurred with id := job } := by rw [h]
      _ = (s.core.jobs.get job).blurred := by
          unfold Job.blurred
          simp only [hid]

/-- A job that cannot be brought to RUNNING is only started. -/
theorem alike_execute (h : enterable (s.core.state job) = false) (input : RunInput) :
    Alike job s (s.execute input job) := by
  unfold execute SchedulerCore.enter
  rw [h, if_neg Bool.false_ne_true]
  exact alike_modifyJob s job rfl

theorem Alike.completedWith {s s' : Scheduler} (h : Alike job s s') (result : Value)
    (at₁ at₂ : Option DateTime) :
    Alike job (s.completedWith result at₁ job) (s'.completedWith result at₂ job) :=
  h.withCore (h.core.modifyJob (fun _ _ hj =>
    congrArg (fun j : Job => { j with result := result }) hj))

theorem Alike.failedWith {s s' : Scheduler} (h : Alike job s s') (error : PyException)
    (traceback : String) :
    Alike job (s.failedWith error traceback job) (s'.failedWith error traceback job) :=
  h.withCore (h.core.modifyJob (fun _ _ hj =>
    congrArg (fun j : Job => { j with error := some error.message }) hj))

theorem Alike.trans {s s' s'' : Scheduler} (h : Alike job s s') (h' : Alike job s' s'') :
    Alike job s s'' where
  core := h.core.trans h'.core
  executor := h'.executor.trans h.executor
  dlq := h'.dlq.trans h.dlq
  retryHandler := h'.retryHandler.trans h.retryHandler
  calls := h'.calls.trans h.calls

/-! ## The comparison, by its cases -/

/-- **The condition under which the two ways agree.** -/
def PathsAgree (s : Scheduler) (job : UUID) (input : RunInput) : Prop :=
  match input.outcome with
  | .returned value =>
    if job ∈ s.core.store then
      enterable (s.core.state job) = false
        ∧ (s.core.state job = .running → s.onJobCompleteCallbacks = [])
    else
      enterable (s.core.state job) = false ∧ s.core.state job ≠ .running
        ∧ (s.core.jobs.get job).result = value
  | .raised error =>
    if job ∈ s.core.store then
      enterable (s.core.state job) = false
        ∧ (s.retriesPlain job error = true
          ∨ (s.core.state job).isTerminal = true
            ∧ (s.retries job error = true → ¬ s.RetryFits input.handled input.draw job))
    else
      (s.core.jobs.get job).error = some error.message
        ∧ if s.retriesPlain job error then
            enterable (s.core.state job) = false ∧ ¬ s.RetryFits input.handled input.draw job
          else (s.core.state job).isTerminal = true

/-- The transition to COMPLETED, counted and reported. -/
def completion (order : IterationOrder UUID) (now : Time) (job : UUID) (s : Scheduler) :
    Scheduler :=
  match s.core.transition job .completed with
  | .error _ => s
  | .ok core =>
    ((s.withCore core).count
      (fun st => { st with jobsCompleted := st.jobsCompleted + 1 })).notifyComplete order now job

theorem Alike.completion {s s' : Scheduler} (h : Alike job s s') (order : IterationOrder UUID)
    (now : Time) : Alike job (s.completion order now job) (s'.completion order now job) := by
  unfold Scheduler.completion
  rcases h.core.transition job .completed with ⟨d, d', hd, hd', hcore⟩ | ⟨error, hd, hd'⟩
  · simp only [hd, hd']
    exact ((h.withCore hcore).count _).notifyComplete order now job
  · simp only [hd, hd']
    exact h

/-- The two completions of a job that is RUNNING differ in the callbacks. -/
theorem handleSuccess_of_running (now : Time) (r : JobResult)
    (running : s.core.state job = .running) :
    (s.handleSuccess order now job r).1
      = ((s.completedWith r.result r.completedAt job).completion order now job).call
        s.onJobCompleteCallbacks job r := by
  obtain ⟨completed, hcompleted⟩ := exists_transition
    (show canTransition ((s.completedWith r.result r.completedAt job).core.state job)
      .completed = true by rw [state_completedWith, running]; rfl)
  have hcallbacks : ∀ s' : Scheduler,
      (s'.notifyComplete order now job).onJobCompleteCallbacks = s'.onJobCompleteCallbacks := by
    intro s'
    unfold notifyComplete
    split <;> rfl
  unfold completion
  simp only [hcompleted]
  unfold completedWith at hcompleted
  unfold handleSuccess
  simp only [hcompleted]
  rw [hcallbacks]
  rfl

/-- **A completion that the state allows.** -/
theorem exists_completed (order : IterationOrder UUID) (now : Time) (result : Value)
    (stored : job ∈ s.core.store) (can : canTransition (s.core.state job) .completed = true) :
    ∃ completed : SchedulerCore,
      (s.completedWith result (some (.utcnow now)) job).core.transition job .completed
          = .ok completed
        ∧ completed.state job = .completed
        ∧ s.completeJob order now job result = (((s.withCore completed).count
          (fun st => { st with jobsCompleted := st.jobsCompleted + 1 })).notifyComplete order now
            job, .ok ()) := by
  obtain ⟨completed, hcompleted⟩ := exists_transition
    (show canTransition ((s.completedWith result (some (.utcnow now)) job).core.state job)
      .completed = true by rw [state_completedWith]; exact can)
  refine ⟨completed, hcompleted, (state_transition hcompleted job).trans (if_pos rfl), ?_⟩
  unfold completedWith withCore at hcompleted
  unfold completeJob
  rw [if_neg (not_not.mpr stored)]
  simp only [hcompleted]

theorem completeJob_of_running (now : Time) (result : Value) (stored : job ∈ s.core.store)
    (running : s.core.state job = .running) :
    (s.completeJob order now job result).1
      = (s.completedWith result (some (.utcnow now)) job).completion order now job := by
  obtain ⟨completed, hcompleted, -, heq⟩ := exists_completed order now result stored
    (show canTransition (s.core.state job) .completed = true by rw [running]; rfl)
  rw [heq]
  unfold completion
  simp only [hcompleted]
  rfl

/-- Calls of callbacks are seen: `run_job` makes them, the two reports do not. -/
theorem sameReport_call {a b : Scheduler} (h : Alike job a b) (callbacks : List ℕ)
    (r : JobResult) : SameReport job (b.call callbacks job r) a ↔ callbacks = [] := by
  constructor
  · intro hsame
    have hcalls : b.calls ++ callbacks.map (fun cb => ⟨cb, job, r⟩) = b.calls :=
      hsame.calls.trans h.calls.symm
    exact List.map_eq_nil_iff.mp (List.append_right_eq_self.mp hcalls)
  · rintro rfl
    have hcall : b.call [] job r = b := by
      unfold call
      rw [List.map_nil, List.append_nil]
    rw [hcall]
    exact h.sameReport

theorem report_returned {value : Value} (h : input.outcome = .returned value) :
    s.report order input job = (s.completeJob order input.handled job value).1 := by
  unfold report
  rw [h]

/-- `complete_job` does not know a job that is not in the store. -/
theorem completeJob_of_unknown (now : Time) (value : Value) (unknown : job ∉ s.core.store) :
    (s.completeJob order now job value).1 = s := by
  unfold completeJob
  rw [if_pos unknown]

/-- **A job that `run_job` brought to RUNNING** is completed by it only. -/
theorem not_sameReport_entered {value : Value} (h : input.outcome = .returned value)
    (entered : enterable (s.core.state job) = true) :
    ¬ SameReport job (s.runJob order input job).1 (s.report order input job) := by
  rw [runJob_returned h, report_returned h]
  have hstate := state_execute input job s
  rw [entered, if_pos rfl] at hstate
  have hrun := state_handleSuccess order input.handled ((started input job).success input value)
    hstate
  have hne : s.core.state job ≠ .running ∧ s.core.state job ≠ .completed := by
    revert entered
    cases s.core.state job <;> decide
  have hother : (s.completeJob order input.handled job value).1.core.state job
      = s.core.state job := by
    by_cases hstored : job ∈ s.core.store
    · rw [completeJob_of_ne _ _ hstored hne.1, state_completedWith]
    · rw [completeJob_of_unknown _ _ hstored]
  exact fun hsame => hne.2 (hother.symm.trans (hsame.state.symm.trans hrun))

/-- **A job that was RUNNING** is completed by both, but `complete_job` has to know it, and
does not call the callbacks. -/
theorem sameReport_running {value : Value} (h : input.outcome = .returned value)
    (running : s.core.state job = .running) :
    SameReport job (s.runJob order input job).1 (s.report order input job)
      ↔ job ∈ s.core.store ∧ s.onJobCompleteCallbacks = [] := by
  rw [runJob_returned h, report_returned h]
  have hent : enterable (s.core.state job) = false := by rw [running]; rfl
  have hstate := state_execute input job s
  rw [hent, if_neg Bool.false_ne_true, running] at hstate
  by_cases hstored : job ∈ s.core.store
  · have halike := ((alike_execute hent input).completedWith value
      (some (.utcnow input.handled)) (some (.utcnow input.completed))).completion order
        input.handled
    rw [handleSuccess_of_running _ _ hstate, completeJob_of_running _ _ hstored running]
    exact (sameReport_call halike _ _).trans ⟨fun hnone => ⟨hstored, hnone⟩, And.right⟩
  · have hrun := state_handleSuccess order input.handled
      ((started input job).success input value) hstate
    rw [completeJob_of_unknown _ _ hstored]
    refine ⟨fun hsame => ?_, fun hagree => absurd hagree.1 hstored⟩
    have hcompleted := hrun.symm.trans hsame.state
    rw [running] at hcompleted
    cases hcompleted

/-- **A job that is not completed**, because its state does not allow it, is only given
its result. -/
theorem sameReport_refused {value : Value} (h : input.outcome = .returned value)
    (refused : enterable (s.core.state job) = false) (idle : s.core.state job ≠ .running) :
    SameReport job (s.runJob order input job).1 (s.report order input job)
      ↔ job ∈ s.core.store ∨ (s.core.jobs.get job).result = value := by
  rw [runJob_returned h, report_returned h]
  have hstate := state_execute input job s
  rw [refused, if_neg Bool.false_ne_true] at hstate
  have halike := (alike_execute refused input).completedWith value
    (some (.utcnow input.handled)) (some (.utcnow input.completed))
  rw [handleSuccess_of_ne _ _ (hstate ▸ idle)]
  by_cases hstored : job ∈ s.core.store
  · -- both set the result before the transition is refused
    rw [completeJob_of_ne _ _ hstored idle]
    exact ⟨fun _ => Or.inl hstored, fun _ => halike.sameReport⟩
  · rw [completeJob_of_unknown _ _ hstored]
    constructor
    · intro hsame
      have hresult := hsame.result
      unfold completedWith withCore SchedulerCore.modifyJob at hresult
      simp only [JobTable.get_modify_self] at hresult
      exact Or.inr hresult.symm
    · intro hagree
      have hresult := hagree.resolve_left hstored
      refine Alike.sameReport ((alike_modifyJob s job (f := fun j => { j with
        result := value
        completedAt := some (.utcnow input.handled) }) ?_).trans halike)
      rw [← hresult]
      rfl

/-- **The function returned.** `complete_job` and `run_job` then do the same, up to the
callbacks. -/
theorem sameReport_returned {value : Value} (h : input.outcome = .returned value) :
    SameReport job (s.runJob order input job).1 (s.report order input job)
      ↔ s.PathsAgree job input := by
  unfold PathsAgree
  rw [h]
  simp only
  cases hent : enterable (s.core.state job) with
  | true =>
    refine ⟨fun hsame => absurd hsame (not_sameReport_entered h hent), fun hagree => ?_⟩
    split at hagree <;> cases hagree.1
  | false =>
    by_cases hrunning : s.core.state job = .running
    · rw [sameReport_running h hrunning]
      by_cases hstored : job ∈ s.core.store
      · rw [if_pos hstored]
        exact ⟨fun hagree => ⟨rfl, fun _ => hagree.2⟩, fun hagree => ⟨hstored, hagree.2 hrunning⟩⟩
      · rw [if_neg hstored]
        exact ⟨fun hagree => absurd hagree.1 hstored, fun hagree => absurd hrunning hagree.2.1⟩
    · rw [sameReport_refused h hent hrunning]
      by_cases hstored : job ∈ s.core.store
      · rw [if_pos hstored]
        exact ⟨fun _ => ⟨rfl, fun hyes => absurd hyes hrunning⟩, fun _ => Or.inl hstored⟩
      · rw [if_neg hstored]
        exact ⟨fun hagree => ⟨rfl, hrunning, hagree.resolve_left hstored⟩,
          fun hagree => Or.inr hagree.2.2⟩

/-- Where `run_job` tries again for a stored job, the two ways agree unless it had to
bring the job to RUNNING. -/
theorem sameReport_retried {error : PyException} (h : input.outcome = .raised error)
    (stored : job ∈ s.core.store) (plain : s.retriesPlain job error = true) :
    SameReport job (s.runJob order input job).1 (s.report order input job)
      ↔ enterable (s.core.state job) = false := by
  rw [runJob_raised h, if_pos plain, report_raised h stored,
    if_pos (retries_of_retriesPlain plain)]
  have hstate := state_execute input job s
  rw [← state_failedWith error input.traceback] at hstate
  cases hent : enterable (s.core.state job) with
  | false =>
    have halike := (alike_execute hent input).failedWith error input.traceback
    exact ⟨fun _ => rfl, fun _ => (halike.failJobRetry input.handled input.draw).sameReport⟩
  | true =>
    rw [hent, if_pos rfl] at hstate
    have hcannot : canTransition ((s.failedWith error input.traceback job).core.state job)
        .retrying = false := by
      rw [state_failedWith]
      revert hent
      cases s.core.state job <;> decide
    obtain ⟨hother, hkept⟩ := fields_failJobRetry_of_cannot input.handled input.draw hcannot
    refine ⟨fun hsame => ?_, fun hno => by cases hno⟩
    by_cases hfits : ((s.execute input job).failedWith error input.traceback job).RetryFits
        input.handled input.draw job
    · -- the error is cleared where the retry is possible
      obtain ⟨-, -, hcleared⟩ := failJobRetry_of_can hfits
        (show canTransition (((s.execute input job).failedWith error input.traceback
          job).core.state job) .retrying = true by rw [hstate]; rfl)
      rw [error_failedWith] at hkept
      cases hcleared.symm.trans (hsame.error.trans hkept)
    · -- where it overflows, the job is left RUNNING
      obtain ⟨text, hraised⟩ := failJobRetry_of_not_fits hfits
      have hleft := hsame.state
      rw [hraised, hstate, hother, state_failedWith] at hleft
      rw [← hleft] at hent
      cases hent

/-- A state that is not terminal, or what `JobRunner.run` makes of it, allows a job to
fail. -/
theorem canTransition_failed_execute (h : (s.core.state job).isTerminal = false)
    (input : RunInput) :
    canTransition ((s.execute input job).core.state job) .failed = true := by
  rw [state_execute]
  revert h
  cases s.core.state job <;> decide

/-- A job that had ended stays as it is, unless `fail_job` tries again. -/
theorem sameReport_ended {error : PyException} (h : input.outcome = .raised error)
    (stored : job ∈ s.core.store) (plain : s.retriesPlain job error = false)
    (ended : (s.core.state job).isTerminal = true) :
    SameReport job (s.runJob order input job).1 (s.report order input job)
      ↔ (s.retries job error = true → ¬ s.RetryFits input.handled input.draw job) := by
  rw [runJob_raised h, plain, if_neg Bool.false_ne_true, report_raised h stored]
  have hstate : ((s.execute input job).failedWith error input.traceback job).core.state job
      = s.core.state job :=
    (state_failedWith _ _ _ _).trans (state_execute_of_isTerminal ended input)
  have hcannot : ∀ target, canTransition (s.core.state job) target = false :=
    canTransition_of_isTerminal ended
  rw [handleFinally_of_cannot _ _ (by rw [hstate]; exact hcannot .failed)]
  have halike := (alike_execute (enterable_of_isTerminal ended) input).failedWith error
    input.traceback
  cases hretries : s.retries job error with
  | true =>
    rw [if_pos rfl]
    by_cases hfits : s.RetryFits input.handled input.draw job
    · -- `fail_job` counts an attempt before it is refused
      refine ⟨fun hsame => ?_, fun hno => absurd hfits (hno rfl)⟩
      have hcounted := hsame.attempt
      rw [attempt_failJobRetry ((retryFits_failedWith _ _ _ _ _ _).mpr hfits), attempt_failedWith,
        attempt_failedWith, attempt_execute] at hcounted
      omega
    · obtain ⟨text, hraised⟩ := failJobRetry_of_not_fits
        (mt (retryFits_failedWith error input.traceback _ _ _ _).mp hfits)
      rw [hraised]
      exact ⟨fun _ _ => hfits, fun _ => halike.sameReport⟩
  | false =>
    rw [if_neg Bool.false_ne_true, failJobFinally_of_cannot _ _ _ (by
      rw [state_failedWith]; exact hcannot .failed)]
    exact ⟨fun _ hno => (by cases hno), fun _ => halike.sameReport⟩

/-- **A job that `run_job` fails for good** is not the same after `fail_job`: it is in
another state there, or it was sent to the dead letter queue. -/
theorem not_sameReport_failed {error : PyException} (h : input.outcome = .raised error)
    (stored : job ∈ s.core.store) (plain : s.retriesPlain job error = false)
    (active : (s.core.state job).isTerminal = false) :
    ¬ SameReport job (s.runJob order input job).1 (s.report order input job) := by
  rw [runJob_raised h, plain, if_neg Bool.false_ne_true, report_raised h stored]
  have hcan := canTransition_failed_execute active input
  rw [← state_failedWith error input.traceback] at hcan
  obtain ⟨hfailed, hsent⟩ := handleFinally_of_can input.handled
    ((started input job).failure input error.message) hcan
  have hactive : s.core.state job ≠ .failed := by
    intro hst
    rw [hst] at active
    cases active
  intro hsame
  have hother := hsame.state.symm.trans hfailed
  have hstats := congrArg SchedulerStats.jobsSentToDlq hsame.stats
  rw [hsent, show ((s.execute input job).failedWith error input.traceback job).core.stats
    = s.core.stats from stats_execute input job s] at hstats
  cases hretries : s.retries job error with
  | true =>
    -- `fail_job` does not fail the job
    rw [hretries, if_pos rfl] at hother
    by_cases hfits : (s.failedWith error input.traceback job).RetryFits input.handled input.draw
        job
    · cases hretry : canTransition ((s.failedWith error input.traceback job).core.state job)
          .retrying with
      | true =>
        have hscheduled := (failJobRetry_of_can hfits hretry).1
        cases hscheduled.symm.trans hother
      | false =>
        have hkept := (fields_failJobRetry_of_cannot input.handled input.draw hretry).1
        rw [state_failedWith] at hkept
        exact hactive (hkept.symm.trans hother)
    · obtain ⟨text, hraised⟩ := failJobRetry_of_not_fits hfits
      rw [hraised, state_failedWith] at hother
      exact hactive hother
  | false =>
    rw [hretries, if_neg Bool.false_ne_true] at hother hstats
    cases hfail : canTransition ((s.failedWith error input.traceback job).core.state job)
        .failed with
    | true =>
      -- only `fail_job` counts the job as sent to the dead letter queue
      have hcounted := (failJobFinally_of_can input.handled input.traceback error hfail).2
      rw [show (s.failedWith error input.traceback job).core.stats = s.core.stats from rfl]
        at hcounted
      omega
    | false =>
      rw [failJobFinally_of_cannot _ _ _ hfail, state_failedWith] at hother
      exact hactive hother

/-- Where `run_job` tries again, the attempt is counted. -/
theorem attempt_retried {input : RunInput} (error : PyException)
    (fits : s.RetryFits input.handled input.draw job) :
    ((((s.execute input job).failedWith error input.traceback job).failJobRetry input.handled
      input.draw job).1.core.jobs.get job).attempt = (s.core.jobs.get job).attempt + 1 := by
  rw [attempt_failJobRetry ((retryFits_executed _ _ _ _ _ _ _).mpr fits), attempt_failedWith,
    attempt_execute]

/-- `fail_job` does not know a job that is not in the store. -/
theorem sameReport_unknown {error : PyException} (h : input.outcome = .raised error)
    (unknown : job ∉ s.core.store) :
    SameReport job (s.runJob order input job).1 (s.report order input job)
      ↔ (s.core.jobs.get job).error = some error.message
        ∧ if s.retriesPlain job error then
            enterable (s.core.state job) = false ∧ ¬ s.RetryFits input.handled input.draw job
          else (s.core.state job).isTerminal = true := by
  have hother : s.report order input job = s := by
    unfold report
    rw [h]
    simp only
    unfold failJob
    rw [if_pos unknown]
  rw [hother, runJob_raised h]
  have hnoted : enterable (s.core.state job) = false →
      (s.core.jobs.get job).error = some error.message →
      SameReport job ((s.execute input job).failedWith error input.traceback job) s := by
    intro hent herror
    refine Alike.sameReport ((alike_modifyJob s job (f := fun j => { j with
      error := some error.message
      traceback := some input.traceback }) ?_).trans
      ((alike_execute hent input).failedWith error input.traceback))
    rw [← herror]
    rfl
  cases hplain : s.retriesPlain job error with
  | true =>
    rw [if_pos rfl, if_pos rfl]
    by_cases hfits : s.RetryFits input.handled input.draw job
    · -- `run_job` counts an attempt, for a job it does not look up in the store
      refine ⟨fun hsame => ?_, fun hno => absurd hfits hno.2.2⟩
      have hcounted := hsame.attempt
      rw [attempt_retried error hfits] at hcounted
      omega
    · obtain ⟨text, hraised⟩ := failJobRetry_of_not_fits
        (mt (retryFits_executed error input.traceback _ _ input _ _).mp hfits)
      rw [hraised]
      refine ⟨fun hsame => ?_, fun hagree => hnoted hagree.2.1 hagree.1⟩
      have herror := hsame.error
      rw [error_failedWith] at herror
      refine ⟨herror.symm, ?_, hfits⟩
      -- a job that was brought to RUNNING was not so before
      have hstate := (state_failedWith error input.traceback job (s.execute input job)).symm.trans
        hsame.state
      rw [state_execute] at hstate
      cases hent : enterable (s.core.state job) with
      | false => rfl
      | true =>
        rw [hent, if_pos rfl] at hstate
        rw [← hstate] at hent
        cases hent
  | false =>
    rw [if_neg Bool.false_ne_true, if_neg Bool.false_ne_true]
    cases hterminal : (s.core.state job).isTerminal with
    | true =>
      have hent := enterable_of_isTerminal hterminal
      have hstate : ((s.execute input job).failedWith error input.traceback job).core.state job
          = s.core.state job :=
        (state_failedWith _ _ _ _).trans (state_execute_of_isTerminal hterminal input)
      rw [handleFinally_of_cannot _ _ (by
        rw [hstate]
        exact canTransition_of_isTerminal hterminal .failed)]
      constructor
      · intro hsame
        have herror := hsame.error
        rw [error_failedWith] at herror
        exact ⟨herror.symm, rfl⟩
      · exact fun hagree => hnoted hent hagree.1
    | false =>
      have hcan := canTransition_failed_execute hterminal input
      rw [← state_failedWith error input.traceback] at hcan
      have hfailed := (handleFinally_of_can input.handled
        ((started input job).failure input error.message) hcan).1
      refine ⟨fun hsame => ?_, fun hno => by cases hno.2⟩
      rw [← hsame.state, hfailed] at hterminal
      cases hterminal

/-- **The two ways to report an execution agree exactly where `PathsAgree` holds**: from
every state, for every job and every outcome of its function. -/
theorem sameReport_iff (order : IterationOrder UUID) (s : Scheduler) (job : UUID)
    (input : RunInput) :
    SameReport job (s.runJob order input job).1 (s.report order input job)
      ↔ s.PathsAgree job input := by
  cases houtcome : input.outcome with
  | returned value => exact sameReport_returned houtcome
  | raised error =>
    unfold PathsAgree
    rw [houtcome]
    simp only
    by_cases hstored : job ∈ s.core.store
    · rw [if_pos hstored]
      cases hplain : s.retriesPlain job error with
      | true =>
        rw [sameReport_retried houtcome hstored hplain]
        exact ⟨fun hent => ⟨hent, Or.inl rfl⟩, And.left⟩
      | false =>
        cases hterminal : (s.core.state job).isTerminal with
        | true =>
          rw [sameReport_ended houtcome hstored hplain hterminal]
          have hent := enterable_of_isTerminal hterminal
          exact ⟨fun hretries => ⟨hent, Or.inr ⟨rfl, hretries⟩⟩,
            fun hagree => (hagree.2.resolve_left Bool.false_ne_true).2⟩
        | false =>
          refine ⟨fun hsame => ?_, fun hagree => ?_⟩
          · exact absurd hsame (not_sameReport_failed houtcome hstored hplain hterminal)
          · cases (hagree.2.resolve_left Bool.false_ne_true).1
    · rw [if_neg hstored]
      exact sameReport_unknown houtcome hstored

/-- **They do not agree on a job that `get_next_job` returned**: it is SCHEDULED, which
only `run_job` ends. -/
theorem reports_differ :
    ∃ s s' : Scheduler,
      GuardedRun (perform .increasing) (fun _ _ => True)
        (.new JobTable.fresh none none {} [] []) [.submit 1] s
      ∧ s.getNextJob 0 = (some 1, s')
      ∧ (s'.runJob .increasing .returning 1).1.core.state 1 = .completed
      ∧ (s'.report .increasing .returning 1).core.state 1 = .scheduled
      ∧ ¬ SameReport 1 (s'.runJob .increasing .returning 1).1
          (s'.report .increasing .returning 1) := by
  have hrun : (((Scheduler.new JobTable.fresh none none {} [] []).submit 1).1.getNextJob 0).2.runJob
      .increasing .returning 1 |>.1.core.state 1 = .completed := by decide +kernel
  have hreport : ((((Scheduler.new JobTable.fresh none none {} [] []).submit 1).1.getNextJob
      0).2.report .increasing .returning 1).core.state 1 = .scheduled := by decide +kernel
  refine ⟨((Scheduler.new JobTable.fresh none none {} [] []).submit 1).1, _,
    .single trivial rfl, Prod.ext ?_ rfl, hrun, hreport, fun hsame => ?_⟩
  · show (((Scheduler.new JobTable.fresh none none {} [] []).submit 1).1.getNextJob 0).1 = some 1
    decide +kernel
  · cases hrun.symm.trans (hsame.state.trans hreport)

end Scheduler

end JobOrchestrator
