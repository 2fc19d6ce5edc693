import JobOrchestrator.Core.Job

/-!
# The retry configuration

`RetryConfig` of `core/config.py`: the defaults "for jobs without explicit retry policies",
and their validation.
-/

namespace JobOrchestrator

/-- **`RetryConfig`**. By its comment it is what jobs without a policy of their own are retried
by. -/
structure RetryConfig where
  maxRetries : ℤ := 3
  baseDelay : ℚ := 1
  maxDelay : ℚ := 300
  exponentialBase : ℚ := 2
  jitter : Bool := true

namespace RetryConfig

/-- `validate`, with the text of the `ValueError`. -/
def validate (c : RetryConfig) : Except String Unit :=
  if c.maxRetries < 0 then .error "max_retries must be >= 0"
  else if c.baseDelay ≤ 0 then .error "base_delay must be > 0"
  else if c.maxDelay < c.baseDelay then .error "max_delay must be >= base_delay"
  else if c.exponentialBase < 1 then .error "exponential_base must be >= 1"
  else .ok ()

/-- **What a valid configuration satisfies.** `validate` raises at the first of its tests that
fails; a configuration passes it where none does. -/
theorem validate_eq_ok_iff {c : RetryConfig} : c.validate = .ok ()
    ↔ 0 ≤ c.maxRetries ∧ 0 < c.baseDelay ∧ c.baseDelay ≤ c.maxDelay
      ∧ 1 ≤ c.exponentialBase := by
  unfold validate
  split
  · rename_i h
    exact iff_of_false (by simp) (fun hall => not_lt.mpr hall.1 h)
  · rename_i hretries
    split
    · rename_i h
      exact iff_of_false (by simp) (fun hall => not_le.mpr hall.2.1 h)
    · rename_i hbase
      split
      · rename_i h
        exact iff_of_false (by simp) (fun hall => not_lt.mpr hall.2.2.1 h)
      · rename_i hmax
        split
        · rename_i h
          exact iff_of_false (by simp) (fun hall => not_lt.mpr hall.2.2.2 h)
        · rename_i hexponential
          exact iff_of_true rfl ⟨not_lt.mp hretries, not_le.mp hbase, not_lt.mp hmax,
            not_lt.mp hexponential⟩

/-- The built-in configuration is valid. -/
example : ({} : RetryConfig).validate = .ok () := by decide +kernel

end RetryConfig

end JobOrchestrator
