import Mathlib.Tactic.Linarith
import Mathlib.Tactic.NormNum
import JobOrchestrator.Core.Config
import JobOrchestrator.Scheduler.Retry
import JobOrchestrator.Util.Backoff

/-!
# Retry delays

Both policy classes compute the delay of an attempt, `core/job.py` and `scheduler/retry.py` each
for itself, and in the same order: the exponential, the cap, the jitter. The jitter comes last
and may be a factor of nearly 3/2, so that `max_delay` is no maximum of what is returned.

`RetryPolicy.delayLaw_iff` says for which policies every delay keeps within its bounds, and for
the others at which attempts and draws it does not.
-/

namespace JobOrchestrator

namespace RetryPolicy

/-- **`calculate_delay`** of the core policy, with the draw of `random.random()`. -/
def calculateDelay (p : RetryPolicy) (attempt : ℕ) (draw : ℚ) : ℚ :=
  let delay := min (p.baseDelay * p.exponentialBase ^ attempt) p.maxDelay
  if p.jitter then delay * (1 / 2 + draw) else delay

/-- The policy's parameters as a configuration, which is where they are validated. -/
def config (p : RetryPolicy) : RetryConfig where
  maxRetries := p.maxRetries
  baseDelay := p.baseDelay
  maxDelay := p.maxDelay
  exponentialBase := p.exponentialBase
  jitter := p.jitter

/-- **Equal parameters** of the two classes, as far as the delay reads them. The two classes have
the same fields under different names, and each has a method of its own for the delay. -/
structure SameDelays (p : RetryPolicy) (q : Retry.RetryPolicy) : Prop where
  initialDelay : q.initialDelay = p.baseDelay
  maxDelay : q.maxDelay = p.maxDelay
  exponentialBase : q.exponentialBase = p.exponentialBase
  jitter : q.jitter = p.jitter

/-- What the scheduler makes of a job's policy has its parameters. -/
theorem sameDelays_getPolicyForJob {handler : Retry.RetryHandler} {job : Job} {p : RetryPolicy}
    (h : job.retryPolicy = some p) : SameDelays p (handler.getPolicyForJob job) := by
  unfold Retry.RetryHandler.getPolicyForJob
  rw [h]
  exact ⟨rfl, rfl, rfl, rfl⟩

variable {p : RetryPolicy} {q : Retry.RetryPolicy} {n : ℕ} {draw : ℚ}

/-- **The two calculations agree.** Both multiply, cap and add the jitter, in this order. -/
theorem SameDelays.calculateDelay_eq (same : SameDelays p q) (n : ℕ) (draw : ℚ) :
    q.calculateDelay n draw = p.calculateDelay n draw := by
  unfold Retry.RetryPolicy.calculateDelay calculateDelay
  rw [same.initialDelay, same.maxDelay, same.exponentialBase, same.jitter]

/-! ## The delay as a capped backoff -/

theorem calculateDelay_of_jitter (h : p.jitter = true) (n : ℕ) (draw : ℚ) :
    p.calculateDelay n draw
      = backoff p.baseDelay p.maxDelay p.exponentialBase n * (1 / 2 + draw) := by
  simp only [calculateDelay, backoff, h, if_true]

theorem calculateDelay_of_plain (h : p.jitter = false) (n : ℕ) (draw : ℚ) :
    p.calculateDelay n draw = backoff p.baseDelay p.maxDelay p.exponentialBase n := by
  simp [calculateDelay, backoff, h]

/-- What validation leaves of the parameters. -/
structure Valid (p : RetryPolicy) : Prop where
  baseDelay_pos : 0 < p.baseDelay
  baseDelay_le : p.baseDelay ≤ p.maxDelay
  one_le_base : 1 ≤ p.exponentialBase

theorem valid_of_validate (h : p.config.validate = .ok ()) : p.Valid := by
  obtain ⟨-, hbase, hcap, hexponential⟩ := RetryConfig.validate_eq_ok_iff.mp h
  exact ⟨hbase, hcap, hexponential⟩

theorem Valid.maxDelay_pos (h : p.Valid) : 0 < p.maxDelay :=
  h.baseDelay_pos.trans_le h.baseDelay_le

theorem Valid.capped_pos (h : p.Valid) (n : ℕ) :
    0 < backoff p.baseDelay p.maxDelay p.exponentialBase n :=
  backoff_pos h.baseDelay_pos h.maxDelay_pos (zero_lt_one.trans_le h.one_le_base) n

theorem Valid.calculateDelay_pos (h : p.Valid) (hdraw : 0 ≤ draw) :
    0 < p.calculateDelay n draw := by
  cases hjitter : p.jitter with
  | false =>
    rw [calculateDelay_of_plain hjitter]
    exact h.capped_pos n
  | true =>
    rw [calculateDelay_of_jitter hjitter]
    exact mul_pos (h.capped_pos n) (by linarith)

/-- **Within the cap**: without jitter always, and with jitter where the draw makes the delay no
longer, or where it would have been within the cap in any case. -/
theorem Valid.calculateDelay_le_iff (h : p.Valid) (hdraw : 0 ≤ draw) :
    p.calculateDelay n draw ≤ p.maxDelay
      ↔ p.jitter = false ∨ draw ≤ 1 / 2
        ∨ p.baseDelay * p.exponentialBase ^ n * (1 / 2 + draw) ≤ p.maxDelay := by
  cases hjitter : p.jitter with
  | false =>
    rw [calculateDelay_of_plain hjitter]
    simp [backoff_le_cap]
  | true =>
    have hfactor : 1 / 2 + draw ≤ 1 ↔ draw ≤ 1 / 2 := by
      constructor <;> intro hle <;> linarith
    rw [calculateDelay_of_jitter hjitter, backoff_mul_le_iff h.maxDelay_pos (by linarith), hfactor]
    simp

/-! ## The law of the delays -/

/-- **One delay keeps its bounds**, by both calculations, and they agree on it. -/
structure DelayKept (p : RetryPolicy) (q : Retry.RetryPolicy) (n : ℕ) (draw : ℚ) : Prop where
  core_pos : 0 < p.calculateDelay n draw
  core_le : p.calculateDelay n draw ≤ p.maxDelay
  scheduler_pos : 0 < q.calculateDelay n draw
  scheduler_le : q.calculateDelay n draw ≤ q.maxDelay
  agree : q.calculateDelay n draw = p.calculateDelay n draw

/-- **The delays grow to the maximum and stay there**, for one way to compute them. -/
structure Growing (delay : ℕ → ℚ → ℚ) (maxDelay base : ℚ) : Prop where
  monotone : ∀ draw, Monotone (fun n => delay n draw)
  reaches : 1 < base → ∃ N, ∀ n draw, N ≤ n → delay n draw = maxDelay

/-- **The law of the delays**: at every attempt and draw within the bounds, and without jitter
growing to the maximum. Both classes are to keep it, with the same draw at the same attempt. -/
structure DelayLaw (p : RetryPolicy) (q : Retry.RetryPolicy) : Prop where
  kept : ∀ n draw, 0 ≤ draw → draw < 1 → DelayKept p q n draw
  core_growing : p.jitter = false → Growing p.calculateDelay p.maxDelay p.exponentialBase
  scheduler_growing : q.jitter = false → Growing q.calculateDelay q.maxDelay q.exponentialBase

theorem Valid.growing (h : p.Valid) (hjitter : p.jitter = false) :
    Growing p.calculateDelay p.maxDelay p.exponentialBase := by
  refine ⟨fun draw => ?_, fun hbase => ?_⟩
  · simp only [calculateDelay_of_plain hjitter]
    exact backoff_monotone h.baseDelay_pos.le h.one_le_base
  · obtain ⟨N, hN⟩ : ∃ N, ∀ n, N ≤ n →
        backoff p.baseDelay p.maxDelay p.exponentialBase n = p.maxDelay :=
      exists_backoff_eq_cap h.baseDelay_pos hbase
    refine ⟨N, fun n draw hn => ?_⟩
    rw [calculateDelay_of_plain hjitter, hN n hn]

theorem SameDelays.growing (same : SameDelays p q)
    (h : Growing p.calculateDelay p.maxDelay p.exponentialBase) :
    Growing q.calculateDelay q.maxDelay q.exponentialBase := by
  have hdelay : q.calculateDelay = p.calculateDelay := by
    ext n draw
    exact same.calculateDelay_eq n draw
  rw [hdelay, same.maxDelay, same.exponentialBase]
  exact h

/-- What both do for one attempt and one draw comes down to the cap of the one. -/
theorem SameDelays.delayKept_iff (same : SameDelays p q) (h : p.Valid) (hdraw : 0 ≤ draw) :
    DelayKept p q n draw ↔ p.calculateDelay n draw ≤ p.maxDelay := by
  refine ⟨DelayKept.core_le, fun hle => ?_⟩
  have heq := same.calculateDelay_eq n draw
  have hpos : 0 < p.calculateDelay n draw := h.calculateDelay_pos hdraw
  refine ⟨hpos, hle, ?_, ?_, heq⟩
  · rw [heq]
    exact hpos
  · rw [heq, same.maxDelay]
    exact hle

section Jittered

variable (h : p.Valid) (hwithin : ∀ n draw, 1 / 2 < draw → draw < 1 →
  p.baseDelay * p.exponentialBase ^ n * (1 / 2 + draw) ≤ p.maxDelay)
include h hwithin

/-- A base above one passes the cap in the end, and any factor above one with it. -/
theorem Valid.base_eq_one : p.exponentialBase = 1 := by
  by_contra hne
  have hbase : 1 < p.exponentialBase := lt_of_le_of_ne h.one_le_base (Ne.symm hne)
  obtain ⟨N, hN⟩ := pow_unbounded_of_one_lt (p.maxDelay / p.baseDelay) hbase
  have hpassed : p.maxDelay < p.baseDelay * p.exponentialBase ^ N := by
    rw [div_lt_iff₀ h.baseDelay_pos] at hN
    linarith
  have hdelay := hwithin N (3 / 4) (by norm_num) (by norm_num)
  have hcap := h.maxDelay_pos
  linarith

/-- The draws come as close to one as one likes, so that there is room for the longest jitter. -/
theorem Valid.room : 3 / 2 * p.baseDelay ≤ p.maxDelay := by
  by_contra hlt
  have hbase := h.baseDelay_pos
  have hcap := h.baseDelay_le
  obtain ⟨factor, hlow, hhigh⟩ := exists_between
    (show max 1 (p.maxDelay / p.baseDelay) < 3 / 2 by
      refine max_lt (by norm_num) ?_
      rw [div_lt_iff₀ hbase]
      linarith)
  have hlong : p.maxDelay < factor * p.baseDelay :=
    (div_lt_iff₀ hbase).mp ((le_max_right _ _).trans_lt hlow)
  have hone : 1 < factor := (le_max_left _ _).trans_lt hlow
  have hdelay : p.baseDelay * (1 / 2 + (factor - 1 / 2)) ≤ p.maxDelay := by
    simpa using hwithin 0 (factor - 1 / 2) (by linarith) (by linarith)
  have hsum : 1 / 2 + (factor - 1 / 2) = factor := by ring
  rw [hsum] at hdelay
  linarith [mul_comm factor p.baseDelay]

end Jittered

/-- **Always within the cap**: without jitter, or where the delays do not grow and the longest
jitter of them is within the cap. -/
theorem Valid.forall_calculateDelay_le_iff (h : p.Valid) :
    (∀ n draw, 0 ≤ draw → draw < 1 → p.calculateDelay n draw ≤ p.maxDelay)
      ↔ p.jitter = false ∨ (p.exponentialBase = 1 ∧ 3 / 2 * p.baseDelay ≤ p.maxDelay) := by
  constructor
  · intro hall
    by_cases hjitter : p.jitter = false
    · exact Or.inl hjitter
    have hwithin : ∀ n draw, 1 / 2 < draw → draw < 1 →
        p.baseDelay * p.exponentialBase ^ n * (1 / 2 + draw) ≤ p.maxDelay := by
      intro n draw hlow hhigh
      have hcases := (h.calculateDelay_le_iff (n := n) (by linarith)).mp
        (hall n draw (by linarith) hhigh)
      rcases hcases with hplain | hdraw | hle
      · exact absurd hplain hjitter
      · exact absurd hdraw (not_le.mpr hlow)
      · exact hle
    exact Or.inr ⟨h.base_eq_one hwithin, h.room hwithin⟩
  · rintro hcases n draw hlow hhigh
    rw [h.calculateDelay_le_iff hlow]
    refine hcases.imp_right ?_
    rintro ⟨hbase, hcap⟩
    have hjittered : p.baseDelay * (1 / 2 + draw) ≤ p.baseDelay * (3 / 2) :=
      mul_le_mul_of_nonneg_left (by linarith) h.baseDelay_pos.le
    rw [hbase, one_pow, mul_one]
    right
    linarith

/-- **Which delays keep within their bounds**: of one attempt with one draw, those where there is
no jitter, or it does not make the delay longer, or there is room for it below the cap; and all
the delays of a policy, where it has no jitter, or does not let them grow and has room for the
longest. -/
theorem delayLaw_iff (same : SameDelays p q) (valid : p.config.validate = .ok ()) :
    (∀ n draw, 0 ≤ draw → draw < 1 →
        (DelayKept p q n draw ↔ p.jitter = false ∨ draw ≤ 1 / 2
          ∨ p.baseDelay * p.exponentialBase ^ n * (1 / 2 + draw) ≤ p.maxDelay))
      ∧ (DelayLaw p q
        ↔ p.jitter = false ∨ (p.exponentialBase = 1 ∧ 3 / 2 * p.baseDelay ≤ p.maxDelay)) := by
  have h := valid_of_validate valid
  refine ⟨fun n draw hlow _ => ?_, ?_⟩
  · rw [same.delayKept_iff h hlow, h.calculateDelay_le_iff hlow]
  · rw [← h.forall_calculateDelay_le_iff]
    constructor
    · intro law n draw hlow hhigh
      exact (law.kept n draw hlow hhigh).core_le
    · intro hall
      refine ⟨fun n draw hlow hhigh => ?_, h.growing, fun hjitter => ?_⟩
      · exact (same.delayKept_iff h hlow).mpr (hall n draw hlow hhigh)
      · exact same.growing (h.growing (same.jitter.symm.trans hjitter))

/-- The built-in policies, in both classes. -/
theorem sameDelays_default : SameDelays {} {} := ⟨rfl, rfl, rfl, rfl⟩

/-- Without jitter the built-in policies keep the law. -/
theorem delayLaw_iff_plain : DelayLaw { jitter := false } { jitter := false } := by
  have h := (delayLaw_iff (p := { jitter := false }) (q := { jitter := false })
    ⟨rfl, rfl, rfl, rfl⟩ (by decide +kernel)).2
  exact h.mpr (Or.inl rfl)

/-- **The built-in policies do not keep it**: attempt 9 with a draw of 3/4 is 375 seconds
away, and the maximum is 300. -/
theorem not_delayLaw_default :
    (RetryPolicy.config {}).validate = .ok () ∧ SameDelays {} {}
      ∧ RetryPolicy.calculateDelay {} 9 (3 / 4) = 375 ∧ ¬ DelayLaw {} {} := by
  have hdelay : RetryPolicy.calculateDelay {} 9 (3 / 4) = 375 := by
    show min (1 * 2 ^ 9 : ℚ) 300 * (1 / 2 + 3 / 4) = 375
    norm_num
  refine ⟨by decide +kernel, sameDelays_default, hdelay, fun law => ?_⟩
  have hkept := (law.kept 9 (3 / 4) (by norm_num) (by norm_num)).core_le
  rw [hdelay] at hkept
  exact absurd hkept (by norm_num)

end RetryPolicy

end JobOrchestrator
