import JobOrchestrator.Core.State

/-!
# Retry policies

`scheduler/retry.py`. The scheduler has a policy class of its own, into
which a job's policy is converted. The random draw of the jitter and the
clock are arguments.

Delays are exact numbers here. What floats and dates cannot hold is where they
raise: `exponential_base ** retry_count` beyond the greatest float, a delay
that is no `timedelta`, a date beyond the year 9999. `calculateDelay` is the
value alone, `checkedDelay` is `calculate_delay` as it is called, and
`prepareForRetry` raises before it writes anything to the job. `Fits` says
that it does not raise.
-/

namespace JobOrchestrator

/-- What a float cannot be any more: half a step beyond the greatest one. -/
def floatLimit : ℚ := ((2 ^ 1024 - 2 ^ 970 : ℕ) : ℚ)

/-- `value + timedelta(seconds=delay)`, which raises where there is no such delay or no such
date. -/
def DateTime.checkedAdd (t : DateTime) (delay : Time) : Except OrchestratorError DateTime :=
  if ¬ Spans delay then
    .error (.overflow ("days=" ++ toString ⌊delay / 86400⌋
      ++ "; must have magnitude <= 999999999"))
  else if ¬ (t.addSeconds delay).Dated then .error (.overflow "date value out of range")
  else .ok (t.addSeconds delay)

namespace Retry

/-- `scheduler.retry.RetryPolicy`. -/
structure RetryPolicy where
  maxRetries : ℤ := 3
  initialDelay : ℚ := 1
  maxDelay : ℚ := 300
  exponentialBase : ℚ := 2
  jitter : Bool := true
  /-- The exception types that trigger a retry. -/
  retryOn : List String := ["Exception"]

namespace RetryPolicy

/-- The value of `calculate_delay`, with the draw of `random.random()`. -/
def calculateDelay (p : RetryPolicy) (retryCount : ℕ) (draw : ℚ) : ℚ :=
  let delay := min (p.initialDelay * p.exponentialBase ^ retryCount) p.maxDelay
  if p.jitter then delay * (1 / 2 + draw) else delay

/-- `exponential_base ** retry_count` is a float. Python raises an `OverflowError` for the
others, before the cap is applied. -/
def PowerFits (p : RetryPolicy) (retryCount : ℕ) : Prop :=
  |p.exponentialBase ^ retryCount| < floatLimit

instance (p : RetryPolicy) (retryCount : ℕ) : Decidable (p.PowerFits retryCount) :=
  inferInstanceAs (Decidable (_ < _))

/-- **`calculate_delay`**: the power is taken before the cap. -/
def checkedDelay (p : RetryPolicy) (retryCount : ℕ) (draw : ℚ) : Except OrchestratorError ℚ :=
  if p.PowerFits retryCount then .ok (p.calculateDelay retryCount draw)
  else .error (.overflow "(34, 'Numerical result out of range')")

/-- `should_retry`. -/
def shouldRetry (p : RetryPolicy) (retryCount : ℕ) (error : Option PyException) : Bool :=
  if p.maxRetries ≤ (retryCount : ℤ) then false
  else
    match error with
    | some e => e.isInstance p.retryOn
    | none => true

end RetryPolicy

/-- `RetryHandler`. The default policy is for jobs without one, but a `Job` is constructed with
one. -/
structure RetryHandler where
  defaultPolicy : RetryPolicy := {}

namespace RetryHandler

/-- `get_policy_for_job`. -/
def getPolicyForJob (handler : RetryHandler) (job : Job) : RetryPolicy :=
  match job.retryPolicy with
  | none => handler.defaultPolicy
  | some core =>
    { maxRetries := core.maxRetries
      initialDelay := core.baseDelay
      maxDelay := core.maxDelay
      exponentialBase := core.exponentialBase
      jitter := core.jitter
      retryOn := core.retryOn }

/-- `should_retry`. -/
def shouldRetry (handler : RetryHandler) (job : Job) (error : Option PyException) : Bool :=
  (handler.getPolicyForJob job).shouldRetry job.attempt error

/-- **`prepare_for_retry`**, as what it makes of the job. Both computations come before the two
writes. -/
def prepareForRetry (handler : RetryHandler) (now : Time) (draw : ℚ) (job : Job) :
    Except OrchestratorError Job :=
  match (handler.getPolicyForJob job).checkedDelay job.attempt draw with
  | .error error => .error error
  | .ok delay =>
    match (DateTime.utcnow now).checkedAdd delay with
    | .error error => .error error
    | .ok scheduledAt =>
      .ok { job with attempt := job.attempt + 1, scheduledAt := some scheduledAt }

/-! ## What `prepare_for_retry` comes to -/

/-- When `prepare_for_retry` schedules the next attempt. -/
def retryAt (handler : RetryHandler) (now : Time) (draw : ℚ) (job : Job) : DateTime :=
  (DateTime.utcnow now).addSeconds
    ((handler.getPolicyForJob job).calculateDelay job.attempt draw)

/-- The job that `prepare_for_retry` leaves, where it does not raise. -/
def prepared (handler : RetryHandler) (now : Time) (draw : ℚ) (job : Job) : Job :=
  { job with
    attempt := job.attempt + 1
    scheduledAt := some (handler.retryAt now draw job) }

/-- **Nothing overflows** where the next attempt is scheduled: the power is a float, the delay a
`timedelta`, and the sum a date. Where one of the three fails Python raises an `OverflowError`,
out of `prepare_for_retry` and out of its caller. -/
structure Fits (handler : RetryHandler) (now : Time) (draw : ℚ) (job : Job) : Prop where
  power : (handler.getPolicyForJob job).PowerFits job.attempt
  span : DateTime.Spans ((handler.getPolicyForJob job).calculateDelay job.attempt draw)
  date : (handler.retryAt now draw job).Dated

theorem fits_iff {handler : RetryHandler} {now : Time} {draw : ℚ} {job : Job} :
    handler.Fits now draw job ↔ (handler.getPolicyForJob job).PowerFits job.attempt
      ∧ DateTime.Spans ((handler.getPolicyForJob job).calculateDelay job.attempt draw)
      ∧ (handler.retryAt now draw job).Dated :=
  ⟨fun h => ⟨h.power, h.span, h.date⟩, fun h => ⟨h.1, h.2.1, h.2.2⟩⟩

instance (handler : RetryHandler) (now : Time) (draw : ℚ) (job : Job) :
    Decidable (handler.Fits now draw job) :=
  decidable_of_iff _ fits_iff.symm

/-- **`prepare_for_retry` returns** where nothing overflows. The job it returns has one attempt
more and is scheduled for the delay from now. -/
theorem prepareForRetry_of_fits {handler : RetryHandler} {now : Time} {draw : ℚ} {job : Job}
    (h : handler.Fits now draw job) :
    handler.prepareForRetry now draw job = .ok (handler.prepared now draw job) := by
  have hdelay : (handler.getPolicyForJob job).checkedDelay job.attempt draw
      = .ok ((handler.getPolicyForJob job).calculateDelay job.attempt draw) := if_pos h.power
  have hdate : (DateTime.utcnow now).checkedAdd
      ((handler.getPolicyForJob job).calculateDelay job.attempt draw)
        = .ok (handler.retryAt now draw job) :=
    (if_neg (not_not.mpr h.span)).trans (if_neg (not_not.mpr h.date))
  unfold prepareForRetry
  simp only [hdelay, hdate]
  rfl

/-- **It raises an `OverflowError`** where something does. Which of the three has failed is in
the text. -/
theorem prepareForRetry_of_not_fits {handler : RetryHandler} {now : Time} {draw : ℚ} {job : Job}
    (h : ¬ handler.Fits now draw job) :
    ∃ text, handler.prepareForRetry now draw job = .error (.overflow text) := by
  unfold prepareForRetry RetryPolicy.checkedDelay
  by_cases hpower : (handler.getPolicyForJob job).PowerFits job.attempt
  · simp only [if_pos hpower]
    unfold DateTime.checkedAdd
    by_cases hspan : DateTime.Spans ((handler.getPolicyForJob job).calculateDelay job.attempt draw)
    · have hdate : ¬ ((DateTime.utcnow now).addSeconds
          ((handler.getPolicyForJob job).calculateDelay job.attempt draw)).Dated :=
        fun hdate => h ⟨hpower, hspan, hdate⟩
      rw [if_neg (not_not.mpr hspan), if_pos hdate]
      exact ⟨_, rfl⟩
    · rw [if_pos hspan]
      exact ⟨_, rfl⟩
  · simp only [if_neg hpower]
    exact ⟨_, rfl⟩

/-- Whether anything overflows is said by two fields of the job. -/
theorem fits_congr (handler : RetryHandler) {job job' : Job}
    (retryPolicy : job'.retryPolicy = job.retryPolicy) (attempt : job'.attempt = job.attempt)
    (now : Time) (draw : ℚ) : handler.Fits now draw job' ↔ handler.Fits now draw job := by
  rw [fits_iff, fits_iff]
  unfold retryAt getPolicyForJob
  rw [retryPolicy, attempt]

/-- The policy looks at two fields of the job. -/
theorem shouldRetry_congr (handler : RetryHandler) {job job' : Job}
    (retryPolicy : job'.retryPolicy = job.retryPolicy) (attempt : job'.attempt = job.attempt)
    (error : Option PyException) :
    handler.shouldRetry job' error = handler.shouldRetry job error := by
  unfold shouldRetry getPolicyForJob
  rw [retryPolicy, attempt]

/-- **An error that a plain exception stands in for** is retried wherever the plain
one is. -/
theorem shouldRetry_of_plain {handler : RetryHandler} {job : Job} {e : PyException}
    {message : String} (h : handler.shouldRetry job (some (.plain message)) = true) :
    handler.shouldRetry job (some e) = true := by
  unfold shouldRetry RetryPolicy.shouldRetry at *
  split at h
  · exact absurd h (by decide)
  · rename_i hlt
    rw [if_neg hlt]
    exact PyException.isInstance_of_plain h

end RetryHandler

end Retry

end JobOrchestrator
