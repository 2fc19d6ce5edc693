import Mathlib.Algebra.Order.Archimedean.Basic
import Mathlib.Tactic.Linarith
import Mathlib.Tactic.Positivity

/-!
# Exponential backoff with a cap

The `n`-th delay is `first * base ^ n`, and never more than `cap`. It grows with `n`, and where
`base` is more than one it stays at the cap from some `n` on.

Jitter multiplies it by a factor. Where the factor is taken after the cap the cap no longer
bounds what comes out: a factor above one leaves the delay within the cap only where it would
have left the delay without a cap there (`backoff_mul_le_iff`).
-/

variable {K : Type*} [Field K] [LinearOrder K]

/-- **The capped delay**. The power grows without a bound, the cap keeps the delay below the
maximum. -/
def backoff (first cap base : K) (n : ℕ) : K := min (first * base ^ n) cap

variable {first cap base factor : K}

theorem backoff_le_cap (n : ℕ) : backoff first cap base n ≤ cap := min_le_right _ _

variable [IsStrictOrderedRing K]

theorem backoff_pos (hfirst : 0 < first) (hcap : 0 < cap) (hbase : 0 < base) (n : ℕ) :
    0 < backoff first cap base n :=
  lt_min (mul_pos hfirst (pow_pos hbase n)) hcap

theorem backoff_monotone (hfirst : 0 ≤ first) (hbase : 1 ≤ base) :
    Monotone (backoff first cap base) := by
  intro m n hmn
  refine min_le_min_right cap ?_
  exact mul_le_mul_of_nonneg_left (pow_le_pow_right₀ hbase hmn) hfirst

/-- **The cap is reached, and the delay stays there.** -/
theorem exists_backoff_eq_cap [Archimedean K] (hfirst : 0 < first) (hbase : 1 < base) :
    ∃ N, ∀ n, N ≤ n → backoff first cap base n = cap := by
  obtain ⟨N, hN⟩ := pow_unbounded_of_one_lt (cap / first) hbase
  refine ⟨N, fun n hn => min_eq_right ?_⟩
  calc cap = first * (cap / first) := by field_simp
    _ ≤ first * base ^ N := mul_le_mul_of_nonneg_left hN.le hfirst.le
    _ ≤ first * base ^ n :=
      mul_le_mul_of_nonneg_left (pow_le_pow_right₀ hbase.le hn) hfirst.le

/-- **A factor after the cap**: it leaves the delay within the cap just where it is at most one,
or where even the delay without a cap would be within it. -/
theorem backoff_mul_le_iff (hcap : 0 < cap) (hfactor : 0 ≤ factor) (n : ℕ) :
    backoff first cap base n * factor ≤ cap
      ↔ factor ≤ 1 ∨ first * base ^ n * factor ≤ cap := by
  constructor
  · intro h
    rcases min_choice (first * base ^ n) cap with hmin | hmin
    · right
      simpa only [backoff, hmin] using h
    · left
      have hscaled : cap * factor ≤ cap * 1 := by
        simpa only [backoff, hmin, mul_one] using h
      exact le_of_mul_le_mul_left hscaled hcap
  · rintro (h | h)
    · calc backoff first cap base n * factor ≤ cap * factor :=
          mul_le_mul_of_nonneg_right (backoff_le_cap n) hfactor
        _ ≤ cap * 1 := mul_le_mul_of_nonneg_left h hcap.le
        _ = cap := mul_one cap
    · exact (mul_le_mul_of_nonneg_right (min_le_left _ _) hfactor).trans h
