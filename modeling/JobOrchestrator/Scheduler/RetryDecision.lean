import JobOrchestrator.Scheduler.Reports

/-!
# Which failures `run_job` retries

`JobRunner.run` turns an exception into a `JobResult`, which has its text and not its
type. `run_job` asks the retry handler about a plain `Exception` with that text. So a
policy that names the exception raised, and neither `Exception` nor a class above it, is
not honoured: the job fails for good.

A retry that the policy asks for is not scheduled either where its delay or its date
overflows: `run_job` ends in the `OverflowError`.

`Scheduler.retriedFrom_runJob_iff` says when `run_job` retries, from every state, and
`Scheduler.retryOn_honoured_iff` when that is what the policy says.
-/

namespace JobOrchestrator

/-- The types name a class of which a plain `Exception` is an instance. -/
def PyException.nameException (types : List String) : Bool := (plain "").isInstance types

namespace Retry

/-- **The policy's answer**: retries are left, and the error is of a type it names. -/
theorem RetryHandler.shouldRetry_iff {handler : RetryHandler} {job : Job} {error : PyException} :
    handler.shouldRetry job (some error) = true
      ↔ (job.attempt : ℤ) < (handler.getPolicyForJob job).maxRetries
        ∧ error.isInstance (handler.getPolicyForJob job).retryOn = true := by
  unfold shouldRetry RetryPolicy.shouldRetry
  split
  · rename_i hle
    exact iff_of_false Bool.false_ne_true (fun h => not_lt.mpr hle h.1)
  · rename_i hlt
    exact (and_iff_right (not_le.mp hlt)).symm

end Retry

namespace Scheduler

open SchedulerCore

variable {order : IterationOrder UUID} {input : RunInput} {job : UUID} {s : Scheduler}

/-- **The job is scheduled for a retry**: SCHEDULED, with one more attempt counted. -/
def RetriedFrom (job : UUID) (s s' : Scheduler) : Prop :=
  s'.core.state job = .scheduled
    ∧ (s'.core.jobs.get job).attempt = (s.core.jobs.get job).attempt + 1

/-- Where `JobRunner.run` leaves a job: RUNNING, TIMEOUT or where it had ended. -/
theorem state_execute_cases (input : RunInput) (job : UUID) (s : Scheduler) :
    (s.core.state job).isTerminal = true
        ∧ (s.execute input job).core.state job = s.core.state job
      ∨ (s.core.state job).isTerminal = false
        ∧ ((s.execute input job).core.state job = .running
          ∨ (s.execute input job).core.state job = .timeout) := by
  rw [state_execute]
  cases s.core.state job with
  | pending | scheduled | running | retrying => exact Or.inr ⟨rfl, Or.inl rfl⟩
  | timeout => exact Or.inr ⟨rfl, Or.inr rfl⟩
  | completed | failed | cancelled => exact Or.inl ⟨rfl, rfl⟩

/-- **When `run_job` retries**: where the handler would retry a plain `Exception`, nothing
overflows, and the job had not ended. -/
theorem retriedFrom_runJob_iff {error : PyException} (raises : input.outcome = .raised error) :
    RetriedFrom job s (s.runJob order input job).1
      ↔ s.retriesPlain job error = true ∧ s.RetryFits input.handled input.draw job
        ∧ (s.core.state job).isTerminal = false := by
  have hstate := state_failedWith error input.traceback job (s.execute input job)
  unfold RetriedFrom
  rw [runJob_raised raises]
  cases hretry : s.retriesPlain job error with
  | true =>
    rw [if_pos rfl]
    by_cases hfits : s.RetryFits input.handled input.draw job
    · have hfits' := (retryFits_executed error input.traceback _ _ input _ _).mpr hfits
      rw [attempt_retried error hfits]
      -- a job that had ended is left as it is, which is not SCHEDULED; any other is RUNNING by now
      rcases state_execute_cases input job s with ⟨hended, hsame⟩ | ⟨hactive, hrunning⟩
      · have hcannot : canTransition (((s.execute input job).failedWith error input.traceback
            job).core.state job) .retrying = false := by
          rw [hstate, hsame]
          exact canTransition_of_isTerminal hended _
        rw [(fields_failJobRetry_of_cannot input.handled input.draw hcannot).1, hstate, hsame,
          hended]
        refine iff_of_false (fun h => ?_) (fun h => Bool.noConfusion h.2.2)
        rw [h.1] at hended
        cases hended
      · have hcan : canTransition (((s.execute input job).failedWith error input.traceback
            job).core.state job) .retrying = true := by
          rw [hstate]
          rcases hrunning with h | h <;> rw [h] <;> rfl
        exact iff_of_true ⟨(failJobRetry_of_can hfits' hcan).1, rfl⟩ ⟨rfl, hfits, hactive⟩
    · -- the `OverflowError` leaves the attempt as it was
      obtain ⟨text, hraised⟩ := failJobRetry_of_not_fits
        (mt (retryFits_executed error input.traceback _ _ input _ _).mp hfits)
      rw [hraised, attempt_failedWith, attempt_execute]
      exact iff_of_false (fun h => absurd h.2 (Nat.ne_of_lt (Nat.lt_succ_self _)))
        (fun h => hfits h.2.1)
  | false =>
    refine iff_of_false (fun h => ?_) (fun h => Bool.noConfusion h.1)
    -- no retry: the job is FAILED, or as it was when it had ended
    have hscheduled := h.1
    rw [if_neg Bool.false_ne_true] at hscheduled
    rcases state_execute_cases input job s with ⟨hended, hsame⟩ | ⟨-, hrunning⟩
    · have hcannot : canTransition (((s.execute input job).failedWith error input.traceback
          job).core.state job) .failed = false := by
        rw [hstate, hsame]
        exact canTransition_of_isTerminal hended _
      rw [handleFinally_of_cannot _ _ hcannot, hstate, hsame] at hscheduled
      rw [hscheduled] at hended
      cases hended
    · have hcan : canTransition (((s.execute input job).failedWith error input.traceback
          job).core.state job) .failed = true := by
        rw [hstate]
        rcases hrunning with h | h <;> rw [h] <;> rfl
      rw [(handleFinally_of_can _ _ hcan).1] at hscheduled
      cases hscheduled

/-- **`retry_on` is honoured** by `run_job` exactly where each failure that the policy asks to
retry is one of a job that had not ended, under a policy that names `Exception` itself or a
class above it, and with a delay and a date that do not overflow. -/
theorem retryOn_honoured_iff {p : RetryPolicy} {error : PyException}
    (policy : (s.core.jobs.get job).retryPolicy = some p)
    (raises : input.outcome = .raised error) :
    (RetriedFrom job s (s.runJob order input job).1
        ↔ ((s.core.jobs.get job).attempt : ℤ) < p.maxRetries
          ∧ error.isInstance p.retryOn = true)
      ↔ (((s.core.jobs.get job).attempt : ℤ) < p.maxRetries → error.isInstance p.retryOn = true →
        (s.core.state job).isTerminal = false ∧ PyException.nameException p.retryOn = true
          ∧ s.RetryFits input.handled input.draw job) := by
  have hplain : s.retriesPlain job error = true
      ↔ ((s.core.jobs.get job).attempt : ℤ) < p.maxRetries
        ∧ PyException.nameException p.retryOn = true := by
    unfold retriesPlain
    rw [Retry.RetryHandler.shouldRetry_iff]
    unfold Retry.RetryHandler.getPolicyForJob
    rw [policy]
    exact Iff.rfl
  have hinstance : PyException.nameException p.retryOn = true → error.isInstance p.retryOn = true :=
    PyException.isInstance_of_plain
  rw [retriedFrom_runJob_iff raises, hplain]
  constructor
  · intro h hleft herror
    obtain ⟨⟨-, hnames⟩, hfits, hactive⟩ := h.mpr ⟨hleft, herror⟩
    exact ⟨hactive, hnames, hfits⟩
  · intro h
    constructor
    · rintro ⟨⟨hleft, hnames⟩, -⟩
      exact ⟨hleft, hinstance hnames⟩
    · rintro ⟨hleft, herror⟩
      obtain ⟨hactive, hnames, hfits⟩ := h hleft herror
      exact ⟨⟨hleft, hnames⟩, hfits, hactive⟩

/-- A scheduler to which a job was submitted that is to be retried after a `ValueError`. -/
def restricted : Scheduler :=
  ((Scheduler.new
    (JobTable.fresh.modify 1
      (fun j => { j with retryPolicy := some { retryOn := ["ValueError"] } }))
    none none {} [] []).submit 1).1

/-- An execution that raises a `ValueError`. -/
def raisingValueError : RunInput where
  started := 0
  completed := 0
  handled := 0
  draw := 0
  outcome := .raised ⟨["ValueError"], "no"⟩
  traceback := "Traceback"

theorem retryOn_honoured_iff_restricted :
    (RetriedFrom 1 restricted (restricted.runJob .increasing raisingValueError 1).1
        ↔ ((restricted.core.jobs.get 1).attempt : ℤ) < 3
          ∧ (⟨["ValueError"], "no"⟩ : PyException).isInstance ["ValueError"] = true)
      ↔ (((restricted.core.jobs.get 1).attempt : ℤ) < 3 →
        (⟨["ValueError"], "no"⟩ : PyException).isInstance ["ValueError"] = true →
        (restricted.core.state 1).isTerminal = false
          ∧ PyException.nameException ["ValueError"] = true ∧ restricted.RetryFits 0 0 1) :=
  retryOn_honoured_iff (p := { retryOn := ["ValueError"] }) rfl rfl

/-- **A job that is to be retried after a `ValueError` is not**: its first execution raises one,
and the job is FAILED. -/
theorem retryOn_not_honoured :
    (restricted.core.jobs.get 1).attempt = 0
      ∧ (⟨["ValueError"], "no"⟩ : PyException).isInstance ["ValueError"] = true
      ∧ (restricted.runJob .increasing raisingValueError 1).1.core.state 1 = .failed
      ∧ ¬ RetriedFrom 1 restricted (restricted.runJob .increasing raisingValueError 1).1 := by
  have hfailed : (restricted.runJob .increasing raisingValueError 1).1.core.state 1 = .failed := by
    decide +kernel
  refine ⟨rfl, by decide, hfailed, fun h => ?_⟩
  have hscheduled := h.1
  rw [hfailed] at hscheduled
  cases hscheduled

end Scheduler

end JobOrchestrator
