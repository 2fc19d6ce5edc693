import Mathlib.Tactic.IntervalCases
import Mathlib.Tactic.Linarith
import Mathlib.Tactic.NormNum
import JobOrchestrator.Core.Config
import JobOrchestrator.Scheduler.RetryRecord

/-!
# The configured retry defaults

The scheduler makes a policy of its configuration, for the jobs that have none. But a `Job`
always has one: the field is filled when the job is constructed, with the built-in defaults.
So the configuration is read for no job, and what it says is done only where it says what the
built-in defaults do.

`Scheduler.retriedAs_run` is the retry law of one job under the policy the handler has for it,
over any failures of its executions, by either way of reporting and with others at work in
between. `Scheduler.defaults_apply_iff` compares it with the configuration.
-/

namespace JobOrchestrator

namespace RetryConfig

/-- The policy that `Scheduler.__init__` makes of the configuration. -/
def policy (c : RetryConfig) : Retry.RetryPolicy where
  maxRetries := c.maxRetries
  initialDelay := c.baseDelay
  maxDelay := c.maxDelay
  exponentialBase := c.exponentialBase
  jitter := c.jitter

/-- The retry handler of a scheduler with this configuration. -/
def retryHandler (c : RetryConfig) : Retry.RetryHandler := { defaultPolicy := c.policy }

end RetryConfig

namespace Scheduler

open SchedulerCore

variable {order : IterationOrder UUID} {job : UUID} {s s' : Scheduler}

/-! ## One failed execution -/

theorem retryRecord_execute (input : RunInput) (job k : UUID) (s : Scheduler) :
    (s.execute input job).core.retryRecord k = s.core.retryRecord k := by
  refine (retryRecord_modifyJob (c := s.core.enter job)
    (f := fun j => { j with startedAt := some (.utcnow input.started) }) (fun _ => rfl) job k).trans
    ?_
  unfold SchedulerCore.enter
  split
  · exact retryRecord_setState .running job k
  · rfl

theorem retryRecord_failedWith (error : PyException) (traceback : String) (job k : UUID)
    (s : Scheduler) :
    (s.failedWith error traceback job).core.retryRecord k = s.core.retryRecord k :=
  retryRecord_modifyJob (c := s.core)
    (f := fun j => { j with error := some error.message, traceback := some traceback })
    (fun _ => rfl) job k

/-- **A retry that is possible**, in the accounts of its job. -/
theorem retryRecord_failJobRetry {now : Time} {draw : ℚ} (fits : s.RetryFits now draw job)
    (can : canTransition (s.core.state job) .retrying = true) :
    (s.failJobRetry now draw job).1.core.retryRecord job
      = { s.core.retryRecord job with
          attempt := (s.core.jobs.get job).attempt + 1
          scheduledAt := some (s.retryHandler.retryAt now draw (s.core.jobs.get job)) } := by
  obtain ⟨retrying, scheduled, hretrying, hscheduled⟩ := exists_retry_transitions now draw can
  unfold failJobRetry
  simp only [SchedulerCore.prepareForRetry_of_fits fits, hretrying, hscheduled]
  refine (retryRecord_modifyJob (c := scheduled)
    (f := fun j => { j with error := none, traceback := none }) (fun _ => rfl) job job).trans ?_
  rw [retryRecord_transition hscheduled, retryRecord_transition hretrying]
  unfold retryRecord SchedulerCore.modifyJob
  rw [JobTable.get_modify_self]
  rfl

theorem retryRecord_handleFinally (now : Time) (r : JobResult) (k : UUID) :
    (s.handleFinally now job r).1.core.retryRecord k = s.core.retryRecord k := by
  unfold handleFinally
  split
  · rfl
  · rename_i failed hok
    have hended : (failed.modifyJob job (fun j =>
        { j with completedAt := r.completedAt })).retryRecord k = s.core.retryRecord k :=
      (retryRecord_modifyJob (fun _ => by rfl) job k).trans (retryRecord_transition hok k)
    exact stable_notifyFailed (stable_retryRecord k _) now job _ hended

theorem retryRecord_failJobFinally (now : Time) (traceback : String) (error : PyException)
    (k : UUID) : (s.failJobFinally now traceback job error).1.core.retryRecord k
      = s.core.retryRecord k := by
  unfold failJobFinally
  split
  · rfl
  · rename_i failed hok
    have hended : (failed.modifyJob job (fun j =>
        { j with completedAt := some (.utcnow now) })).retryRecord k = s.core.retryRecord k :=
      (retryRecord_modifyJob (fun _ => by rfl) job k).trans (retryRecord_transition hok k)
    exact stable_notifyFailed (stable_retryRecord k _) now job _ hended

/-- **Where a failed execution leaves a job**: SCHEDULED for the next one, as long as its policy
has retries left, and FAILED from then on. It is the same for both ways to report a failure, so a
sequence of failures may use either at each turn. -/
structure FailedOnce (job : UUID) (handled : Time) (draw : ℚ) (s s' : Scheduler) : Prop where
  retryHandler : s'.retryHandler = s.retryHandler
  retried : ((s.core.jobs.get job).attempt : ℤ)
      < (s.retryHandler.getPolicyForJob (s.core.jobs.get job)).maxRetries →
    s'.core.state job = .scheduled ∧ s'.core.retryRecord job
      = { s.core.retryRecord job with
          attempt := (s.core.jobs.get job).attempt + 1
          scheduledAt := some (s.retryHandler.retryAt handled draw (s.core.jobs.get job)) }
  ended : (s.retryHandler.getPolicyForJob (s.core.jobs.get job)).maxRetries
      ≤ ((s.core.jobs.get job).attempt : ℤ) →
    s'.core.state job = .failed ∧ s'.core.retryRecord job = s.core.retryRecord job

/-- Every exception is one that the default `retry_on` names. -/
theorem isInstance_exception (e : PyException) : e.isInstance ["Exception"] = true := by
  unfold PyException.isInstance
  rw [List.any_eq_true]
  refine ⟨"Exception", List.mem_singleton_self _, decide_eq_true ?_⟩
  exact List.mem_append_right _ List.mem_cons_self

/-- The decision is about the retries left, where the policy names `Exception`. -/
theorem shouldRetry_of_exception {handler : Retry.RetryHandler} {j : Job} (e : PyException)
    (names : (handler.getPolicyForJob j).retryOn = ["Exception"]) :
    handler.shouldRetry j (some e) = true
      ↔ (j.attempt : ℤ) < (handler.getPolicyForJob j).maxRetries := by
  rw [Retry.RetryHandler.shouldRetry_iff, names]
  exact and_iff_left (isInstance_exception e)

/-- A retry of a job that is RUNNING, as it was before the failure was noted. -/
theorem retried_of_running {failed : Scheduler} (running : failed.core.state job = .running)
    (record : failed.core.retryRecord job = s.core.retryRecord job)
    (retryHandler : failed.retryHandler = s.retryHandler) {handled : Time} {draw : ℚ}
    (fits : s.RetryFits handled draw job) :
    (failed.failJobRetry handled draw job).1.core.state job = .scheduled
      ∧ (failed.failJobRetry handled draw job).1.core.retryRecord job
        = { s.core.retryRecord job with
            attempt := (s.core.jobs.get job).attempt + 1
            scheduledAt := some (s.retryHandler.retryAt handled draw (s.core.jobs.get job)) } := by
  have hcan : canTransition (failed.core.state job) .retrying = true := by
    rw [running]
    rfl
  have hattempt : (failed.core.jobs.get job).attempt = (s.core.jobs.get job).attempt :=
    congrArg RetryRecord.attempt record
  have hfits : failed.RetryFits handled draw job := by
    unfold RetryFits
    rw [retryHandler]
    exact (RetryRecord.fits_congr record handled draw).mpr fits
  refine ⟨(failJobRetry_of_can hfits hcan).1, ?_⟩
  rw [retryRecord_failJobRetry hfits hcan, record, hattempt, retryHandler,
    RetryRecord.retryAt_congr record]

/-- **`run_job`** of a job that is SCHEDULED or RUNNING. -/
theorem failedOnce_runJob {input : RunInput} {error : PyException}
    (raises : input.outcome = .raised error)
    (active : s.core.state job = .scheduled ∨ s.core.state job = .running)
    (fits : s.RetryFits input.handled input.draw job)
    (names : (s.retryHandler.getPolicyForJob (s.core.jobs.get job)).retryOn = ["Exception"]) :
    FailedOnce job input.handled input.draw s (s.runJob order input job).1 := by
  let failed := (s.execute input job).failedWith error input.traceback job
  have hstate : failed.core.state job = .running := by
    rw [state_failedWith, state_execute]
    rcases active with h | h <;> rw [h] <;> rfl
  have hrecord : failed.core.retryRecord job = s.core.retryRecord job :=
    (retryRecord_failedWith error input.traceback job job _).trans
      (retryRecord_execute input job job s)
  have hretries : s.retriesPlain job error = true
      ↔ ((s.core.jobs.get job).attempt : ℤ)
        < (s.retryHandler.getPolicyForJob (s.core.jobs.get job)).maxRetries :=
    shouldRetry_of_exception _ names
  refine ⟨(accounted_runJob (k := job) input job).retryHandler, fun hleft => ?_, fun hnone => ?_⟩
  · rw [runJob_raised raises, if_pos (hretries.mpr hleft)]
    exact retried_of_running hstate hrecord rfl fits
  · rw [runJob_raised raises, if_neg (fun h => not_lt.mpr hnone (hretries.mp h))]
    have hcan : canTransition (failed.core.state job) .failed = true := by
      rw [hstate]
      rfl
    exact ⟨(handleFinally_of_can _ _ hcan).1, (retryRecord_handleFinally _ _ _).trans hrecord⟩

/-- **`fail_job`** of a job that is RUNNING. Its policy is asked first; the transitions that
follow are all allowed from RUNNING. -/
theorem failedOnce_failJob {now : Time} {draw : ℚ} (traceback : String) (error : PyException)
    (stored : job ∈ s.core.store) (running : s.core.state job = .running)
    (fits : s.RetryFits now draw job)
    (names : (s.retryHandler.getPolicyForJob (s.core.jobs.get job)).retryOn = ["Exception"]) :
    FailedOnce job now draw s (s.failJob now draw traceback job error).1 := by
  let failed := s.failedWith error traceback job
  have hstate : failed.core.state job = .running := (state_failedWith _ _ _ _).trans running
  have hrecord : failed.core.retryRecord job = s.core.retryRecord job :=
    retryRecord_failedWith error traceback job job s
  have hretries : s.retries job error = true
      ↔ ((s.core.jobs.get job).attempt : ℤ)
        < (s.retryHandler.getPolicyForJob (s.core.jobs.get job)).maxRetries :=
    shouldRetry_of_exception _ names
  have hfail := failJob_stored now draw traceback error stored
  refine ⟨(accounted_failJob (k := job) now draw traceback error).retryHandler, fun hleft => ?_,
    fun hnone => ?_⟩
  · rw [hfail, if_pos (hretries.mpr hleft)]
    exact retried_of_running hstate hrecord rfl fits
  · rw [hfail, if_neg (fun h => not_lt.mpr hnone (hretries.mp h))]
    have hcan : canTransition (failed.core.state job) .failed = true := by
      rw [hstate]
      rfl
    exact ⟨(failJobFinally_of_can _ _ _ hcan).1,
      (retryRecord_failJobFinally _ _ _ _).trans hrecord⟩

/-! ## Failure after failure -/

/-- **What others do meanwhile**: they leave the accounts of the job alone, and bring it to
RUNNING at most. -/
structure Meanwhile (job : UUID) (s s' : Scheduler) : Prop where
  retryHandler : s'.retryHandler = s.retryHandler
  record : s'.core.retryRecord job = s.core.retryRecord job
  state : s'.core.state job = s.core.state job
    ∨ s.core.state job = .scheduled ∧ s'.core.state job = .running

theorem Meanwhile.refl (job : UUID) (s : Scheduler) : Meanwhile job s s := ⟨rfl, rfl, Or.inl rfl⟩

/-- **An execution that fails**, noted at this time and with this draw, and reported either
way. -/
inductive Fails (order : IterationOrder UUID) (job : UUID) :
    Time × ℚ → Scheduler → Scheduler → Prop
  | runJob {s : Scheduler} {input : RunInput} {error : PyException}
      (raises : input.outcome = .raised error)
      (active : s.core.state job = .scheduled ∨ s.core.state job = .running) :
    Fails order job (input.handled, input.draw) s (s.runJob order input job).1
  | failJob {s : Scheduler} (now : Time) (draw : ℚ) (traceback : String) (error : PyException)
      (stored : job ∈ s.core.store) (running : s.core.state job = .running) :
    Fails order job (now, draw) s (s.failJob now draw traceback job error).1

/-- **Failure after failure** of a job, the latest first, each at a reading of the clock from
which the date of a retry does not overflow. Anything may happen between two failures, as long as
the accounts of the job are left alone. -/
inductive FailsRepeatedly (order : IterationOrder UUID) (job : UUID) (s₀ : Scheduler) :
    List (Time × ℚ) → Scheduler → Prop
  | start : FailsRepeatedly order job s₀ [] s₀
  | again {failures : List (Time × ℚ)} {f : Time × ℚ} {s s₁ s₂ : Scheduler}
      (before : FailsRepeatedly order job s₀ failures s) (meanwhile : Meanwhile job s s₁)
      (draw : 0 ≤ f.2 ∧ f.2 < 1) (fits : s₁.RetryFits f.1 f.2 job)
      (fails : Fails order job f s₁ s₂) :
    FailsRepeatedly order job s₀ (f :: failures) s₂

/-- **The job is retried as a policy says**, after so many failures: SCHEDULED with the delay of
the policy, until the retries of the policy are made, and FAILED then. -/
def RetriedAs (policy : Retry.RetryPolicy) (job : UUID) : List (Time × ℚ) → Scheduler → Prop
  | [], _ => True
  | f :: failures, s =>
    ((failures.length : ℤ) < policy.maxRetries →
      s.core.state job = .scheduled ∧ (s.core.jobs.get job).attempt = failures.length + 1
        ∧ (s.core.jobs.get job).scheduledAt = some ((DateTime.utcnow f.1).addSeconds
          (policy.calculateDelay failures.length f.2)))
    ∧ (policy.maxRetries ≤ (failures.length : ℤ) →
      s.core.state job = .failed ∧ (s.core.jobs.get job).attempt = failures.length)

/-- Whether the job is retried tells whether the policy has a retry left. -/
theorem RetriedAs.scheduled_iff {policy : Retry.RetryPolicy} {f : Time × ℚ}
    {failures : List (Time × ℚ)} (h : RetriedAs policy job (f :: failures) s) :
    s.core.state job = .scheduled ↔ (failures.length : ℤ) < policy.maxRetries := by
  refine ⟨fun hscheduled => ?_, fun hleft => (h.1 hleft).1⟩
  by_contra hnone
  have hfailed := (h.2 (not_lt.mp hnone)).1
  rw [hscheduled] at hfailed
  cases hfailed

/-- A job as it is ready for its first execution, under a policy that retries any exception. -/
structure Ready (policy : Retry.RetryPolicy) (job : UUID) (s : Scheduler) : Prop where
  state : s.core.state job = .scheduled
  attempt : (s.core.jobs.get job).attempt = 0
  policyFor : s.retryHandler.getPolicyForJob (s.core.jobs.get job) = policy
  retryOn : policy.retryOn = ["Exception"]

/-- What a job looks like after so many failures. -/
structure AfterFailures (policy : Retry.RetryPolicy) (job : UUID) (failures : List (Time × ℚ))
    (s : Scheduler) : Prop where
  policyFor : (s.core.retryRecord job).policyFor s.retryHandler = policy
  waiting : (failures.length : ℤ) ≤ policy.maxRetries → s.core.state job = .scheduled
    ∧ (s.core.retryRecord job).attempt = failures.length
  exhausted : policy.maxRetries < (failures.length : ℤ) → s.core.state job = .failed
  retriedAs : RetriedAs policy job failures s

theorem Fails.active {f : Time × ℚ} (h : Fails order job f s s') :
    s.core.state job = .scheduled ∨ s.core.state job = .running := by
  cases h with
  | runJob raises active => exact active
  | failJob now draw traceback error stored running => exact Or.inr running

theorem Fails.failedOnce {f : Time × ℚ} (h : Fails order job f s s')
    (fits : s.RetryFits f.1 f.2 job)
    (names : (s.retryHandler.getPolicyForJob (s.core.jobs.get job)).retryOn = ["Exception"]) :
    FailedOnce job f.1 f.2 s s' := by
  cases h with
  | runJob raises active => exact failedOnce_runJob raises active fits names
  | failJob now draw traceback error stored running =>
    exact failedOnce_failJob traceback error stored running fits names

/-- **The retry law of one job**: whatever its failures and however they are reported, the job is
retried as the policy says that the handler has for it. -/
theorem retriedAs_run {policy : Retry.RetryPolicy} (limit : 0 ≤ policy.maxRetries)
    {s₀ : Scheduler} (ready : Ready policy job s₀) {failures : List (Time × ℚ)}
    (run : FailsRepeatedly order job s₀ failures s) : AfterFailures policy job failures s := by
  induction run with
  | start =>
    exact ⟨ready.policyFor, fun _ => ⟨ready.state, ready.attempt⟩,
      fun hover => absurd hover (not_lt.mpr limit), trivial⟩
  | @again failures f s s₁ s₂ _ meanwhile _ fits fails ih =>
    have hwaiting : (failures.length : ℤ) ≤ policy.maxRetries := by
      -- a job that is FAILED is not executed
      by_contra hover
      have hfailed := ih.exhausted (not_le.mp hover)
      rcases meanwhile.state with hsame | ⟨hscheduled, -⟩
      · have hactive := fails.active
        rw [hsame, hfailed] at hactive
        exact hactive.elim (fun h => by cases h) (fun h => by cases h)
      · exact JobState.noConfusion (hfailed.symm.trans hscheduled)
    obtain ⟨-, hattempt⟩ := ih.waiting hwaiting
    rw [← meanwhile.record] at hattempt
    have hpolicy : (s₁.core.retryRecord job).policyFor s₁.retryHandler = policy := by
      rw [meanwhile.record, meanwhile.retryHandler]
      exact ih.policyFor
    have honce := fails.failedOnce fits (show (s₁.retryHandler.getPolicyForJob
      (s₁.core.jobs.get job)).retryOn = _ from (congrArg _ hpolicy).trans ready.retryOn)
    have hretried := honce.retried
    have hended := honce.ended
    rw [show s₁.retryHandler.getPolicyForJob (s₁.core.jobs.get job) = policy from hpolicy,
      show (s₁.core.jobs.get job).attempt = failures.length from hattempt] at hretried hended
    have hat : s₁.retryHandler.retryAt f.1 f.2 (s₁.core.jobs.get job)
        = (DateTime.utcnow f.1).addSeconds (policy.calculateDelay failures.length f.2) := by
      unfold Retry.RetryHandler.retryAt
      rw [show s₁.retryHandler.getPolicyForJob (s₁.core.jobs.get job) = policy from hpolicy,
        show (s₁.core.jobs.get job).attempt = failures.length from hattempt]
    rw [hat] at hretried
    refine ⟨?_, fun hle => ?_, fun hover => ?_, fun hleft => ?_, fun hnone => ?_⟩
    · rw [honce.retryHandler]
      rcases lt_or_ge (failures.length : ℤ) policy.maxRetries with hleft | hnone
      · rw [(hretried hleft).2]
        exact hpolicy
      · rw [(hended hnone).2]
        exact hpolicy
    · obtain ⟨hstate, hrecord⟩ := hretried (by
        rw [List.length_cons, Nat.cast_succ] at hle
        exact Int.lt_of_add_one_le hle)
      exact ⟨hstate, congrArg RetryRecord.attempt hrecord⟩
    · refine (hended ?_).1
      rw [List.length_cons, Nat.cast_succ] at hover
      exact Int.le_of_lt_add_one hover
    · obtain ⟨hstate, hrecord⟩ := hretried hleft
      exact ⟨hstate, congrArg RetryRecord.attempt hrecord, congrArg RetryRecord.scheduledAt hrecord⟩
    · obtain ⟨hstate, hrecord⟩ := hended hnone
      exact ⟨hstate, (congrArg RetryRecord.attempt hrecord).trans hattempt⟩

/-- A `run_job` that raises, with its failure noted at this time and with this draw. -/
def raisingAt (f : Time × ℚ) : RunInput :=
  ⟨0, 0, f.1, f.2, .raised (.plain "error"), "Traceback"⟩

/-- The policy alone decides whether the retry after so many failures overflows. -/
def FitsAfter (policy : Retry.RetryPolicy) (n : ℕ) (f : Time × ℚ) : Prop :=
  policy.PowerFits n ∧ DateTime.Spans (policy.calculateDelay n f.2)
    ∧ ((DateTime.utcnow f.1).addSeconds (policy.calculateDelay n f.2)).Dated

theorem retryFits_iff {policy : Retry.RetryPolicy}
    (policyFor : s.retryHandler.getPolicyForJob (s.core.jobs.get job) = policy) (f : Time × ℚ) :
    s.RetryFits f.1 f.2 job ↔ FitsAfter policy (s.core.jobs.get job).attempt f := by
  unfold RetryFits
  rw [Retry.RetryHandler.fits_iff]
  unfold Retry.RetryHandler.retryAt
  rw [policyFor]
  exact Iff.rfl

theorem AfterFailures.fits {policy : Retry.RetryPolicy} {failures : List (Time × ℚ)}
    {f : Time × ℚ} (h : AfterFailures policy job failures s)
    (left : (failures.length : ℤ) ≤ policy.maxRetries)
    (after : FitsAfter policy failures.length f) : s.RetryFits f.1 f.2 job := by
  obtain ⟨-, hattempt⟩ := h.waiting left
  rw [retryFits_iff (show s.retryHandler.getPolicyForJob (s.core.jobs.get job) = policy from
      h.policyFor), show (s.core.jobs.get job).attempt = failures.length from hattempt]
  exact after

/-- **Every such sequence of failures occurs**, until the job is FAILED. -/
theorem exists_failsRepeatedly (order : IterationOrder UUID) {policy : Retry.RetryPolicy}
    (limit : 0 ≤ policy.maxRetries) {s₀ : Scheduler} (ready : Ready policy job s₀)
    (failures : List (Time × ℚ)) (draws : ∀ f ∈ failures, 0 ≤ f.2 ∧ f.2 < 1)
    (fits : ∀ f ∈ failures, ∀ n < failures.length, FitsAfter policy n f)
    (few : (failures.length : ℤ) ≤ policy.maxRetries + 1) :
    ∃ s, FailsRepeatedly order job s₀ failures s := by
  induction failures with
  | nil => exact ⟨s₀, .start⟩
  | cons f failures ih =>
    rw [List.length_cons, Nat.cast_succ] at few
    obtain ⟨s, hrun⟩ := ih (fun g hg => draws g (List.mem_cons_of_mem f hg))
      (fun g hg n hn => fits g (List.mem_cons_of_mem f hg) n (Nat.lt_succ_of_lt hn)) (by omega)
    have hafter := retriedAs_run limit ready hrun
    obtain ⟨hscheduled, -⟩ := hafter.waiting (by omega)
    exact ⟨_, hrun.again (.refl job s) (draws f List.mem_cons_self)
      (hafter.fits (by omega) (fits f List.mem_cons_self _ (Nat.lt_succ_self _)))
      (.runJob (show (raisingAt f).outcome = _ from rfl) (Or.inl hscheduled))⟩

end Scheduler

/-! ## The built-in policy and the configured one -/

/-- The built-in delays before the cap: one second, two and four, times the jitter. -/
theorem Retry.RetryPolicy.calculateDelay_builtin {n : ℕ} (hn : n < 3) (draw : ℚ) :
    RetryPolicy.calculateDelay {} n draw = 2 ^ n * (1 / 2 + draw) := by
  show min (1 * 2 ^ n) 300 * (1 / 2 + draw) = _
  rw [one_mul, min_eq_left]
  interval_cases n <;> norm_num

/-- The built-in retries do not overflow when the clock is at its start. -/
theorem Scheduler.fitsAfter_builtin {n : ℕ} (hn : n ≤ 3) {draw : ℚ} (low : 0 ≤ draw)
    (high : draw < 1) : FitsAfter {} n (0, draw) := by
  have hbase : (0 : ℚ) ≤ 2 ^ n ∧ (2 : ℚ) ^ n ≤ 8 := by interval_cases n <;> norm_num
  have hdelay : Retry.RetryPolicy.calculateDelay {} n draw = 2 ^ n * (1 / 2 + draw) := by
    show min (1 * 2 ^ n) 300 * (1 / 2 + draw) = _
    rw [one_mul, min_eq_left (by linarith)]
  have hbounds : 0 ≤ (2 : ℚ) ^ n * (1 / 2 + draw) ∧ (2 : ℚ) ^ n * (1 / 2 + draw) ≤ 12 := by
    constructor <;> nlinarith
  refine ⟨by interval_cases n <;> decide +kernel, ?_, ?_⟩
  · rw [hdelay]
    exact DateTime.spans_of_lt_day hbounds.1 (lt_of_le_of_lt hbounds.2 (by norm_num))
  · rw [hdelay]
    show (-62135596800 : ℚ) ≤ 0 + _ ∧ (0 : ℚ) + _ < 253402300800
    constructor <;> linarith

/-- **The first three delays agree** with the built-in ones, for every draw, only where the
configuration is the built-in one but for a cap that none of them reaches. -/
theorem RetryConfig.delays_agree_iff {c : RetryConfig} (valid : c.validate = .ok ()) :
    (∀ n < 3, ∀ draw : ℚ, 0 ≤ draw → draw < 1 →
        c.policy.calculateDelay n draw = Retry.RetryPolicy.calculateDelay {} n draw)
      ↔ c.baseDelay = 1 ∧ c.exponentialBase = 2 ∧ 4 ≤ c.maxDelay ∧ c.jitter = true := by
  obtain ⟨-, -, hcap, -⟩ := validate_eq_ok_iff.mp valid
  have hjitter : c.jitter = true → ∀ n draw, c.policy.calculateDelay n draw
      = min (c.baseDelay * c.exponentialBase ^ n) c.maxDelay * (1 / 2 + draw) :=
    fun h n draw => if_pos h
  constructor
  · intro h
    have hjittered : c.jitter = true := by
      -- without jitter the delay is the same for every draw
      by_contra hplain
      have hfixed : ∀ draw, c.policy.calculateDelay 0 draw
          = min (c.baseDelay * c.exponentialBase ^ 0) c.maxDelay := fun _ => if_neg hplain
      have hlow := h 0 (by omega) 0 (by norm_num) (by norm_num)
      have hmid := h 0 (by omega) (1 / 2) (by norm_num) (by norm_num)
      rw [hfixed, Retry.RetryPolicy.calculateDelay_builtin (by omega)] at hlow hmid
      rw [hlow] at hmid
      norm_num at hmid
    have hdelay : ∀ n < 3, min (c.baseDelay * c.exponentialBase ^ n) c.maxDelay = 2 ^ n := by
      intro n hn
      have hmid := h n hn (1 / 2) (by norm_num) (by norm_num)
      rw [hjitter hjittered, Retry.RetryPolicy.calculateDelay_builtin hn] at hmid
      norm_num at hmid
      exact hmid
    have hbase : c.baseDelay = 1 := by
      have hfirst := hdelay 0 (by omega)
      rw [pow_zero, mul_one, min_eq_left hcap] at hfirst
      exact hfirst
    have hmax : 4 ≤ c.maxDelay := by
      have hthird := min_le_right (c.baseDelay * c.exponentialBase ^ 2) c.maxDelay
      rw [hdelay 2 (by omega)] at hthird
      norm_num at hthird
      exact hthird
    have hexponential : c.exponentialBase = 2 := by
      have hsecond := hdelay 1 (by omega)
      rw [hbase, one_mul, pow_one, pow_one] at hsecond
      rcases min_choice c.exponentialBase c.maxDelay with hmin | hmin
      · rw [← hmin, hsecond]
      · rw [hmin] at hsecond
        linarith
    exact ⟨hbase, hexponential, hmax, hjittered⟩
  · rintro ⟨hbase, hexponential, hmax, hjittered⟩ n hn draw - -
    rw [hjitter hjittered, Retry.RetryPolicy.calculateDelay_builtin hn, hbase, hexponential,
      one_mul, min_eq_left]
    refine le_trans ?_ hmax
    interval_cases n <;> norm_num

namespace Scheduler

open SchedulerCore

variable {order : IterationOrder UUID} {job : UUID} {s : Scheduler}

/-- A job that was submitted is SCHEDULED. -/
theorem state_submit_of_ok {text : String} (h : (s.submit job).2 = .ok text) :
    (s.submit job).1.core.state job = .scheduled := by
  show (s.core.submit job).1.state job = .scheduled
  have hcore : (s.core.submit job).2 = .ok text := h
  revert hcore
  refine submit_elim (fun r hcases => ?_)
  cases hcases with
  | refused | stranded | undone => exact fun h => by cases h
  | accepted _ _ _ _ c' states =>
    intro _
    rw [states, if_pos rfl]

/-- **A job is constructed without a policy**: it has the built-in one. -/
structure Constructed (j : Job) : Prop where
  attempt : j.attempt = 0
  retryPolicy : j.retryPolicy = some {}

/-- Such a job is ready for its first execution once it is submitted, under the built-in
policy. -/
theorem Constructed.ready {text : String} (h : Constructed (s.core.jobs.get job))
    (submitted : (s.submit job).2 = .ok text) : Ready {} job (s.submit job).1 := by
  have hrecord : (s.submit job).1.core.retryRecord job = s.core.retryRecord job :=
    stable_submit (stable_retryRecord job _) job rfl
  have hpolicy : ((s.submit job).1.core.jobs.get job).retryPolicy = some {} :=
    (congrArg RetryRecord.retryPolicy hrecord).trans h.retryPolicy
  refine ⟨state_submit_of_ok submitted, ?_, ?_, rfl⟩
  · exact (congrArg RetryRecord.attempt hrecord).trans h.attempt
  · unfold Retry.RetryHandler.getPolicyForJob
    rw [hpolicy]

/-- **The scheduler, built with a retry configuration.** -/
def configured (c : RetryConfig) (s : Scheduler) : Scheduler :=
  { s with retryHandler := c.retryHandler }

/-- **The configured defaults apply** to a job without a policy of its own exactly where they
retry as often and after the same delays as the built-in ones. -/
theorem defaults_apply_iff {c : RetryConfig} (valid : c.validate = .ok ())
    (constructed : Constructed ((s.configured c).core.jobs.get job)) {text : String}
    (submitted : ((s.configured c).submit job).2 = .ok text) :
    (∀ failures s', FailsRepeatedly order job ((s.configured c).submit job).1 failures s' →
        RetriedAs c.policy job failures s')
      ↔ c.maxRetries = 3 ∧ c.baseDelay = 1 ∧ c.exponentialBase = 2 ∧ 4 ≤ c.maxDelay
        ∧ c.jitter = true := by
  have hready := constructed.ready submitted
  have hlimit : (0 : ℤ) ≤ ({} : Retry.RetryPolicy).maxRetries := by decide
  have hlaw : ∀ failures s',
      FailsRepeatedly order job ((s.configured c).submit job).1 failures s' →
      RetriedAs {} job failures s' :=
    fun _ _ run => (retriedAs_run hlimit hready run).retriedAs
  rw [← RetryConfig.delays_agree_iff valid]
  constructor
  · intro h
    have hboth : ∀ (draw : ℚ) (n : ℕ), 0 ≤ draw → draw < 1 → n ≤ 3 →
        ∃ s', RetriedAs c.policy job ((0, draw) :: List.replicate n (0, 0)) s'
          ∧ RetriedAs {} job ((0, draw) :: List.replicate n (0, 0)) s' := by
      intro draw n hlow hhigh hn
      obtain ⟨s', hrun⟩ := exists_failsRepeatedly order hlimit hready
        ((0, draw) :: List.replicate n (0, 0)) (by
          intro g hg
          rcases List.mem_cons.mp hg with rfl | hg
          · exact ⟨hlow, hhigh⟩
          · rw [List.eq_of_mem_replicate hg]
            norm_num)
        (by
          intro g hg m hm
          rw [List.length_cons, List.length_replicate] at hm
          rcases List.mem_cons.mp hg with rfl | hg
          · exact fitsAfter_builtin (by omega) hlow hhigh
          · rw [List.eq_of_mem_replicate hg]
            exact fitsAfter_builtin (by omega) (le_refl 0) (by norm_num))
        (by
          rw [List.length_cons, List.length_replicate]
          show ((n + 1 : ℕ) : ℤ) ≤ 3 + 1
          omega)
      exact ⟨s', h _ _ hrun, hlaw _ _ hrun⟩
    have hretries : c.maxRetries = 3 := by
      obtain ⟨hpositive, -⟩ := RetryConfig.validate_eq_ok_iff.mp valid
      -- after so many failures both have a retry left, or none
      have hagree : ∀ n : ℕ, n ≤ 3 → ((n : ℤ) < c.maxRetries ↔ (n : ℤ) < 3) := by
        intro n hn
        obtain ⟨s', hconfigured, hbuiltin⟩ := hboth 0 n (by norm_num) (by norm_num) hn
        have hiff := hconfigured.scheduled_iff.symm.trans hbuiltin.scheduled_iff
        rwa [List.length_replicate] at hiff
      have hsecond := hagree 2 (by omega)
      have hthird := hagree 3 (le_refl 3)
      omega
    refine ⟨hretries, fun n hn draw hlow hhigh => ?_⟩
    obtain ⟨s', hconfigured, hbuiltin⟩ := hboth draw n hlow hhigh (by omega)
    rw [RetriedAs] at hconfigured hbuiltin
    rw [List.length_replicate] at hconfigured hbuiltin
    have hleft : (n : ℤ) < 3 := by omega
    obtain ⟨-, -, hat⟩ := hconfigured.1 (lt_of_lt_of_eq hleft hretries.symm)
    rw [(hbuiltin.1 hleft).2.2] at hat
    exact (add_left_cancel (congrArg DateTime.clock (Option.some.inj hat))).symm
  · rintro ⟨hretries, hdelays⟩ failures s' run
    have hbuiltin := hlaw failures s' run
    cases run with
    | start => trivial
    | @again failures f _ _ _ _ _ draw _ _ =>
      refine ⟨fun hleft => ?_, fun hnone => hbuiltin.2 (hretries ▸ hnone)⟩
      have hthree : (failures.length : ℤ) < 3 := lt_of_lt_of_eq hleft hretries
      rw [hdelays failures.length (by omega) f.2 draw.1 draw.2]
      exact hbuiltin.1 hthree

/-- A configuration without retries. -/
def noRetries : RetryConfig := { maxRetries := 0 }

theorem defaults_apply_noRetries :
    (∀ failures s', FailsRepeatedly .increasing 1
        (((bare none).configured noRetries).submit 1).1 failures s' →
          RetriedAs noRetries.policy 1 failures s')
      ↔ noRetries.maxRetries = 3 ∧ noRetries.baseDelay = 1 ∧ noRetries.exponentialBase = 2
        ∧ 4 ≤ noRetries.maxDelay ∧ noRetries.jitter = true :=
  defaults_apply_iff (by decide +kernel) ⟨rfl, rfl⟩
    (show (((bare none).configured noRetries).submit 1).2 = .ok (UUID.str 1) by decide +kernel)

/-- **The configuration is not read**: a job submitted to a scheduler configured without retries
is retried after its first failure. -/
theorem defaults_not_applied :
    noRetries.validate = .ok ()
      ∧ ((((bare none).configured noRetries).submit 1).1.runJob .increasing (raisingAt (5, 0))
        1).1.core.state 1 = .scheduled
      ∧ ¬ ∀ failures s', FailsRepeatedly .increasing 1
        (((bare none).configured noRetries).submit 1).1 failures s' →
          RetriedAs noRetries.policy 1 failures s' := by
  have hscheduled : ((((bare none).configured noRetries).submit 1).1.runJob .increasing
      (raisingAt (5, 0)) 1).1.core.state 1 = .scheduled := by
    decide +kernel
  refine ⟨by decide +kernel, hscheduled, fun h => ?_⟩
  have hrun : FailsRepeatedly .increasing 1 (((bare none).configured noRetries).submit 1).1
      [(5, 0)] _ :=
    .again .start (.refl 1 _) (by norm_num)
      (show RetryFits 5 0 1 _ by decide +kernel)
      (.runJob (show (raisingAt (5, 0)).outcome = _ from rfl) (Or.inl (by decide +kernel)))
  have hfailed := ((h _ _ hrun).2 (le_refl _)).1
  rw [hscheduled] at hfailed
  cases hfailed

end Scheduler

end JobOrchestrator
