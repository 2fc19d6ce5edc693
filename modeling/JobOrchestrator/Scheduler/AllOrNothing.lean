import JobOrchestrator.Scheduler.Reports

/-!
# What an operation that raises leaves behind

`submit` adds the job to the store before the transition that can refuse it, and
`complete_job` and `fail_job` write to the job before the transition that
validates its state. Each module function is compared here with the state before
the call, for every scheduler, every job and every state of it:
`Scheduler.SubmitSafe`, `Scheduler.CompletionSafe` and `Scheduler.FailureSafe` are
the exact conditions under which a call that raises has done nothing.

A call refused before the first write – the job is known, the queue is at
capacity – is harmless. A call refused by the state machine is not: the job
stays in the store, where a second submission finds it, or keeps the result, the
error or the attempt of a report that was rejected.
-/

namespace JobOrchestrator

namespace Scheduler

open SchedulerCore

variable {order : IterationOrder UUID} {now : Time} {s : Scheduler} {job : UUID}

/-! ## Submitting -/

/-- **What a refused report is to leave as it was.** The state is not among them, for it is the
transition that raises. -/
structure Untouched (job : UUID) (s s' : Scheduler) : Prop where
  result : (s'.core.jobs.get job).result = (s.core.jobs.get job).result
  error : (s'.core.jobs.get job).error = (s.core.jobs.get job).error
  traceback : (s'.core.jobs.get job).traceback = (s.core.jobs.get job).traceback
  completedAt : (s'.core.jobs.get job).completedAt = (s.core.jobs.get job).completedAt
  attempt : (s'.core.jobs.get job).attempt = (s.core.jobs.get job).attempt
  scheduledAt : (s'.core.jobs.get job).scheduledAt = (s.core.jobs.get job).scheduledAt
  queue : s'.core.queue = s.core.queue
  dlq : s'.dlq = s.dlq
  executor : s'.executor = s.executor
  stats : s'.core.stats = s.core.stats

/-- The call raised an `InvalidStateTransitionError`. -/
def RefusedByState {α : Type} (answer : Except OrchestratorError α) : Prop :=
  ∃ id current target, answer = .error (.invalidStateTransition id current target)

/-- **A report is all or nothing**: where the state machine refuses it, nothing of the job
and of the scheduler has changed. -/
def ReportAllOrNothing (job : UUID) (s : Scheduler)
    (r : Scheduler × Except OrchestratorError Unit) : Prop :=
  RefusedByState r.2 → Untouched job s r.1

/-- **The condition for `complete_job`**: the job is RUNNING, or it has the result and the
time of completion that the call writes. -/
def CompletionSafe (now : Time) (job : UUID) (result : Value) (s : Scheduler) : Prop :=
  canTransition (s.core.state job) .completed = true
    ∨ (s.core.jobs.get job).result = result
      ∧ (s.core.jobs.get job).completedAt = some (.utcnow now)

/-- **The condition for `fail_job`**: a job to be retried may be retried, or the retry
overflows before anything of it is written; and one that is not may fail, or has the error
and the traceback that the call writes. -/
def FailureSafe (now : Time) (draw : ℚ) (traceback : String) (job : UUID) (error : PyException)
    (s : Scheduler) : Prop :=
  if s.retries job error then
    canTransition (s.core.state job) .retrying = true ∨ ¬ s.RetryFits now draw job
  else canTransition (s.core.state job) .failed = true
    ∨ (s.core.jobs.get job).error = some error.message
      ∧ (s.core.jobs.get job).traceback = some traceback

theorem get_withCore_modifyJob (s : Scheduler) (job : UUID) (f : Job → Job) :
    (s.withCore (s.core.modifyJob job f)).core.jobs.get job
      = { f (s.core.jobs.get job) with id := job } :=
  JobTable.get_modify_self s.core.jobs job f

/-- **A report that only wrote to the job** leaves it untouched where it wrote what was
there. -/
theorem untouched_modifyJob_iff (s : Scheduler) (job : UUID) (f : Job → Job) :
    Untouched job s (s.withCore (s.core.modifyJob job f))
      ↔ (f (s.core.jobs.get job)).result = (s.core.jobs.get job).result
        ∧ (f (s.core.jobs.get job)).error = (s.core.jobs.get job).error
        ∧ (f (s.core.jobs.get job)).traceback = (s.core.jobs.get job).traceback
        ∧ (f (s.core.jobs.get job)).completedAt = (s.core.jobs.get job).completedAt
        ∧ (f (s.core.jobs.get job)).attempt = (s.core.jobs.get job).attempt
        ∧ (f (s.core.jobs.get job)).scheduledAt = (s.core.jobs.get job).scheduledAt := by
  constructor
  · intro h
    have hget := get_withCore_modifyJob s job f
    have hresult := h.result
    have herror := h.error
    have htraceback := h.traceback
    have hcompletedAt := h.completedAt
    have hattempt := h.attempt
    have hscheduledAt := h.scheduledAt
    rw [hget] at hresult herror htraceback hcompletedAt hattempt hscheduledAt
    exact ⟨hresult, herror, htraceback, hcompletedAt, hattempt, hscheduledAt⟩
  · rintro ⟨hresult, herror, htraceback, hcompletedAt, hattempt, hscheduledAt⟩
    have hget := get_withCore_modifyJob s job f
    exact {
      result := by rw [hget]; exact hresult
      error := by rw [hget]; exact herror
      traceback := by rw [hget]; exact htraceback
      completedAt := by rw [hget]; exact hcompletedAt
      attempt := by rw [hget]; exact hattempt
      scheduledAt := by rw [hget]; exact hscheduledAt
      queue := rfl
      dlq := rfl
      executor := rfl
      stats := rfl }

/-- A call that does not raise is all or nothing. -/
theorem reportAllOrNothing_of_ok {r : Scheduler × Except OrchestratorError Unit}
    (h : r.2 = .ok ()) : ReportAllOrNothing job s r := by
  rintro ⟨id, current, target, herror⟩
  rw [h] at herror
  cases herror

/-! ### `complete_job` -/

theorem completeJob_of_can (result : Value) (stored : job ∈ s.core.store)
    (can : canTransition (s.core.state job) .completed = true) :
    (s.completeJob order now job result).2 = .ok () := by
  obtain ⟨completed, -, -, heq⟩ := exists_completed order now result stored can
  rw [heq]

theorem completeJob_of_cannot (result : Value) (stored : job ∈ s.core.store)
    (cannot : canTransition (s.core.state job) .completed = false) :
    s.completeJob order now job result = (s.completedWith result (some (.utcnow now)) job,
      .error (.invalidStateTransition job (s.core.state job) .completed)) := by
  have hwritten := state_completedWith result (some (.utcnow now)) job s
  unfold completedWith withCore at hwritten
  unfold completeJob completedWith
  rw [if_neg (not_not.mpr stored)]
  unfold SchedulerCore.transition
  simp only [hwritten, cannot, Bool.false_eq_true, if_false]

/-- **`complete_job` is all or nothing exactly where the condition holds.** -/
theorem completeJob_allOrNothing_iff (order : IterationOrder UUID) (now : Time) (s : Scheduler)
    (job : UUID) (stored : job ∈ s.core.store) (result : Value) :
    ReportAllOrNothing job s (s.completeJob order now job result)
      ↔ CompletionSafe now job result s := by
  unfold CompletionSafe
  cases hcan : canTransition (s.core.state job) .completed with
  | true =>
    exact ⟨fun _ => Or.inl rfl,
      fun _ => reportAllOrNothing_of_ok (completeJob_of_can result stored hcan)⟩
  | false =>
    rw [completeJob_of_cannot result stored hcan]
    have hiff := untouched_modifyJob_iff s job
      (fun j => { j with result := result, completedAt := some (.utcnow now) })
    constructor
    · intro h
      obtain ⟨hresult, -, -, hcompletedAt, -, -⟩ := hiff.mp (h ⟨_, _, _, rfl⟩)
      exact Or.inr ⟨hresult.symm, hcompletedAt.symm⟩
    · rintro (h | ⟨hresult, hcompletedAt⟩) -
      · cases h
      · exact hiff.mpr ⟨hresult.symm, rfl, rfl, hcompletedAt.symm, rfl, rfl⟩

/-! ### `fail_job` -/

/-- `fail_job` asks the retry handler of a job that has its error already, which makes no
difference to the answer. -/
theorem failJob_of_stored (draw : ℚ) (traceback : String) (error : PyException)
    (stored : job ∈ s.core.store) :
    s.failJob now draw traceback job error
      = if s.retries job error then (s.failedWith error traceback job).failJobRetry now draw job
        else (s.failedWith error traceback job).failJobFinally now traceback job error := by
  have hasked : (s.failedWith error traceback job).retryHandler.shouldRetry
      ((s.failedWith error traceback job).core.jobs.get job) (some error)
      = s.retries job error := by
    refine Retry.RetryHandler.shouldRetry_congr _ ?_ ?_ _
    · unfold failedWith
      rw [get_withCore_modifyJob]
    · exact attempt_failedWith error traceback job s
  unfold failJob
  rw [if_neg (not_not.mpr stored), ← hasked]
  rfl

/-- A retry that the state allows does not raise: RETRYING leads to SCHEDULED. -/
theorem answer_failJobRetry_of_can {draw : ℚ} (fits : s.RetryFits now draw job)
    (can : canTransition (s.core.state job) .retrying = true) :
    (s.failJobRetry now draw job).2 = .ok () := by
  obtain ⟨scheduled, -, -, -, hretried⟩ := exists_retried fits can
  rw [hretried]

theorem answer_failJobRetry_of_cannot {draw : ℚ} (fits : s.RetryFits now draw job)
    (cannot : canTransition (s.core.state job) .retrying = false) :
    RefusedByState (s.failJobRetry now draw job).2 := by
  rw [failJobRetry_of_cannot fits cannot]
  exact ⟨_, _, _, rfl⟩

theorem answer_failJobFinally_of_can (traceback : String) (error : PyException)
    (can : canTransition (s.core.state job) .failed = true) :
    (s.failJobFinally now traceback job error).2 = .ok () := by
  obtain ⟨failed, hfailed⟩ := exists_transition can
  unfold failJobFinally
  simp only [hfailed]

theorem answer_failJobFinally_of_cannot (traceback : String) (error : PyException)
    (cannot : canTransition (s.core.state job) .failed = false) :
    RefusedByState (s.failJobFinally now traceback job error).2 := by
  unfold failJobFinally SchedulerCore.transition
  simp only [cannot, Bool.false_eq_true, if_false]
  exact ⟨_, _, _, rfl⟩

/-- **A refused retry has counted the attempt.** `prepare_for_retry` comes before the transition,
and writes to the job. -/
theorem allOrNothing_failJobRetry_iff (draw : ℚ) (traceback : String) (error : PyException) :
    ReportAllOrNothing job s ((s.failedWith error traceback job).failJobRetry now draw job)
      ↔ canTransition (s.core.state job) .retrying = true ∨ ¬ s.RetryFits now draw job := by
  have hstate := state_failedWith error traceback job s
  by_cases hfits : s.RetryFits now draw job
  · have hfits' := (retryFits_failedWith error traceback now draw job s).mpr hfits
    cases hcan : canTransition (s.core.state job) .retrying with
    | true =>
      rw [← hstate] at hcan
      exact ⟨fun _ => Or.inl rfl,
        fun _ => reportAllOrNothing_of_ok (answer_failJobRetry_of_can hfits' hcan)⟩
    | false =>
      rw [← hstate] at hcan
      refine ⟨fun h => ?_, fun h => absurd hfits (h.resolve_left Bool.false_ne_true)⟩
      have hattempt := (h (answer_failJobRetry_of_cannot hfits' hcan)).attempt
      rw [attempt_failJobRetry hfits', attempt_failedWith] at hattempt
      omega
  · -- an `OverflowError` is no refusal by the state machine
    obtain ⟨text, hraised⟩ := failJobRetry_of_not_fits
      (mt (retryFits_failedWith error traceback now draw job s).mp hfits)
    refine ⟨fun _ => Or.inr hfits, fun _ => ?_⟩
    rintro ⟨_, _, _, hrefused⟩
    rw [hraised] at hrefused
    cases hrefused

/-- **A refused failure has noted the error.** The two assignments come first; they leave nothing
behind only where the job had these very texts. -/
theorem allOrNothing_failJobFinally_iff (traceback : String) (error : PyException) :
    ReportAllOrNothing job s
        ((s.failedWith error traceback job).failJobFinally now traceback job error)
      ↔ canTransition (s.core.state job) .failed = true
        ∨ (s.core.jobs.get job).error = some error.message
          ∧ (s.core.jobs.get job).traceback = some traceback := by
  have hstate := state_failedWith error traceback job s
  cases hcan : canTransition (s.core.state job) .failed with
  | true =>
    rw [← hstate] at hcan
    exact ⟨fun _ => Or.inl rfl,
      fun _ => reportAllOrNothing_of_ok (answer_failJobFinally_of_can traceback error hcan)⟩
  | false =>
    rw [← hstate] at hcan
    have hleft := failJobFinally_of_cannot now traceback error hcan
    have hiff := untouched_modifyJob_iff s job
      (fun j => { j with error := some error.message, traceback := some traceback })
    constructor
    · intro h
      have huntouched := h (answer_failJobFinally_of_cannot traceback error hcan)
      rw [hleft] at huntouched
      obtain ⟨-, herror, htraceback, -, -, -⟩ := hiff.mp huntouched
      exact Or.inr ⟨herror.symm, htraceback.symm⟩
    · rintro (h | ⟨herror, htraceback⟩) -
      · cases h
      · rw [hleft]
        exact hiff.mpr ⟨rfl, herror.symm, htraceback.symm, rfl, rfl, rfl⟩

/-- **`fail_job` is all or nothing exactly where the condition holds.** -/
theorem failJob_allOrNothing_iff (now : Time) (draw : ℚ) (traceback : String) (s : Scheduler)
    (job : UUID) (stored : job ∈ s.core.store) (error : PyException) :
    ReportAllOrNothing job s (s.failJob now draw traceback job error)
      ↔ FailureSafe now draw traceback job error s := by
  unfold FailureSafe
  rw [failJob_of_stored draw traceback error stored]
  split
  · exact allOrNothing_failJobRetry_iff draw traceback error
  · exact allOrNothing_failJobFinally_iff traceback error

/-- **Both reports are all or nothing exactly where their conditions hold**, for every
scheduler, every stored job in any state, every result and every exception. -/
theorem reports_allOrNothing_iff (order : IterationOrder UUID) (now : Time) (draw : ℚ)
    (traceback : String) (s : Scheduler) (job : UUID) (stored : job ∈ s.core.store) :
    (∀ result, ReportAllOrNothing job s (s.completeJob order now job result)
        ↔ CompletionSafe now job result s)
      ∧ ∀ error, ReportAllOrNothing job s (s.failJob now draw traceback job error)
        ↔ FailureSafe now draw traceback job error s :=
  ⟨completeJob_allOrNothing_iff order now s job stored,
    failJob_allOrNothing_iff now draw traceback s job stored⟩

/-- A scheduler with a job that was submitted and then cancelled. -/
def withCancelled : Scheduler :=
  (((new JobTable.fresh none none {} [] []).submit 1).1.cancelJob 0 1).1

theorem mem_store_withCancelled : 1 ∈ withCancelled.core.store := by decide +kernel

theorem state_withCancelled : withCancelled.core.state 1 = .cancelled := by decide +kernel

theorem reports_allOrNothing_iff_cancelled :
    1 ∈ withCancelled.core.store
      ∧ (∀ result, ReportAllOrNothing 1 withCancelled
            (withCancelled.completeJob .increasing 5 1 result)
          ↔ CompletionSafe 5 1 result withCancelled)
      ∧ ∀ error, ReportAllOrNothing 1 withCancelled
            (withCancelled.failJob 5 0 "Traceback" 1 error)
          ↔ FailureSafe 5 0 "Traceback" 1 error withCancelled :=
  ⟨mem_store_withCancelled, reports_allOrNothing_iff .increasing 5 0 "Traceback" withCancelled 1
    mem_store_withCancelled⟩

/-- **A late report changes a cancelled job.** The completion is refused, and the job has
another time of completion; the failure is refused, and an attempt is counted. -/
theorem late_reports_change :
    ∃ s : Scheduler,
      GuardedRun (perform .increasing) (fun _ _ => True)
        (.new JobTable.fresh none none {} [] []) ([.submit 1] ++ [.cancelJob 1 0]) s
      ∧ 1 ∈ s.core.store ∧ s.core.state 1 = .cancelled
      ∧ (s.core.jobs.get 1).completedAt = some (.utcnow 0)
      ∧ ((s.completeJob .increasing 5 1 (.int 7)).1.core.jobs.get 1).completedAt
        = some (.utcnow 5)
      ∧ ¬ ReportAllOrNothing 1 s (s.completeJob .increasing 5 1 (.int 7))
      ∧ (s.core.jobs.get 1).attempt = 0
      ∧ ((s.failJob 5 0 "Traceback" 1 (.plain "boom")).1.core.jobs.get 1).attempt = 1
      ∧ ¬ ReportAllOrNothing 1 s (s.failJob 5 0 "Traceback" 1 (.plain "boom")) := by
  have hcompletedAt : (withCancelled.core.jobs.get 1).completedAt = some (.utcnow 0) := by
    decide +kernel
  have hretries : withCancelled.retries 1 (.plain "boom") = true := by decide +kernel
  refine ⟨withCancelled, .append (.single trivial rfl) (.single trivial rfl),
    mem_store_withCancelled, state_withCancelled, hcompletedAt, by decide +kernel, fun h => ?_,
    by decide +kernel, by decide +kernel, fun h => ?_⟩
  · rw [completeJob_allOrNothing_iff _ _ _ _ mem_store_withCancelled] at h
    unfold CompletionSafe at h
    rw [state_withCancelled, hcompletedAt] at h
    exact absurd (h.resolve_left (by decide)).2 (by decide)
  · rw [failJob_allOrNothing_iff _ _ _ _ _ mem_store_withCancelled] at h
    unfold FailureSafe at h
    rw [if_pos hretries, state_withCancelled] at h
    exact h.resolve_left (by decide) (by decide +kernel)

end Scheduler

end JobOrchestrator
