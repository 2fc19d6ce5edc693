import JobOrchestrator.Scheduler.RetryAccounting

/-!
# What the scheduler counts of a run

A run of a job's function ends in one of three ways that the scheduler counts: the job is
completed, fails, or is retried. The first is what `run_job` returns as a success, the other
two as a failure; where a transition is refused or a retry overflows it raises, and counts
nothing.

`SchedulerStats.outcomes` is the one number or the other. A step of `run_job` changes it
exactly by what it makes of the run – `RunPc.counted` before, `RunStatus.counted`
afterwards – and nothing else changes it that reports no run.
-/

namespace JobOrchestrator

/-- **The runs that were counted**, as successes or as failures. -/
def SchedulerStats.outcomes (success : Bool) (st : SchedulerStats) : ℕ :=
  if success then st.jobsCompleted else st.jobsFailed + st.jobsRetried

/-- One run, counted among those of its kind. -/
def JobResult.counted (success : Bool) (r : JobResult) : ℕ :=
  if r.success = success then 1 else 0

/-- **What the scheduler has counted of a run**, of which the worker knows nothing yet. -/
def RunPc.counted (success : Bool) : RunPc → ℕ
  | notifyComplete r | callComplete r | notifyFailed r | callFailed r => r.counted success
  | _ => 0

/-- And what the worker is told of it. -/
def RunStatus.counted (success : Bool) : RunStatus → ℕ
  | running task => task.pc.counted success
  | returned r => r.counted success
  | raised _ => 0

/-- **The place fits the result.** -/
def RunPc.Fits : RunPc → Prop
  | toCompleted r | countCompleted r | notifyComplete r | callComplete r => r.success = true
  | toRetrying r | backToScheduled r | push r | countRetry _ r | toFailed r | countFailed r
  | notifyFailed r | callFailed r => r.success = false
  | _ => True

/-- The operation reports a run, or is one. -/
def SchedulerCall.reports : SchedulerCall → Bool
  | .runJob _ _ | .completeJob _ _ _ | .failJob _ _ _ _ _ => true
  | _ => false

/-! ## What counts nothing -/

namespace SchedulerCore

variable {c : SchedulerCore} {job : UUID}

/-- `submit` counts submissions only. -/
theorem stats_submit (job : UUID) (c : SchedulerCore) :
    ∃ n, (c.submit job).1.stats = { c.stats with jobsSubmitted := n } := by
  unfold submit
  split
  · exact ⟨_, rfl⟩
  split
  · exact ⟨_, rfl⟩
  unfold storeAndPush
  split
  · exact ⟨_, rfl⟩
  · rename_i scheduled hok
    have hstats : scheduled.stats = c.stats := by rw [stats_transition hok]
    unfold enqueue
    split
    · exact ⟨_, hstats⟩
    · refine ⟨scheduled.stats.jobsSubmitted + 1, ?_⟩
      simp only [hstats]

/-- `cancel_job` counts nothing. -/
theorem stats_cancelJob (now : Time) (job : UUID) (c : SchedulerCore) :
    (c.cancelJob now job).1.stats = c.stats := by
  unfold cancelJob
  split
  · rfl
  split
  · rfl
  · simp only
    split
    · rfl
    · rename_i cancelled hok
      show cancelled.stats = c.stats
      rw [stats_transition hok]

theorem outcomes_submit (success : Bool) (job : UUID) (c : SchedulerCore) :
    (c.submit job).1.stats.outcomes success = c.stats.outcomes success := by
  obtain ⟨n, hstats⟩ := stats_submit job c
  rw [hstats]
  rfl

/-- **What the executor does counts no run.** It submits jobs, and a submission is counted
elsewhere. -/
theorem keeps_outcomes (success : Bool) (n : ℕ) (now : Time) :
    (host now).Keeps (fun c => c.stats.outcomes success = n) :=
  keeps_stat (fun _ _ _ _ => rfl) n now

end SchedulerCore

namespace Scheduler

open SchedulerCore

variable {order : IterationOrder UUID} {success : Bool} {s s' : Scheduler}

/-- **An operation that reports no run counts none.** -/
theorem outcomes_perform {op : SchedulerCall} (unreported : op.reports = false)
    (taken : s.perform order op = some s') :
    s'.core.stats.outcomes success = s.core.stats.outcomes success := by
  cases op with
  | submit job =>
    cases taken
    exact outcomes_submit success job s.core
  | submitDag g now =>
    cases taken
    unfold submitDag
    split
    · rfl
    · exact (keeps_outcomes success _ now).startDag now _ s.executor rfl
  | getNextJob now =>
    cases taken
    unfold getNextJob
    split <;> rfl
  | runJob | completeJob | failJob => cases unreported
  | cancelJob job now =>
    cases taken
    exact congrArg (SchedulerStats.outcomes success) (stats_cancelJob now job s.core)
  | cancelDag dagId now =>
    cases taken
    have hkept : ∀ k c, c.stats.outcomes success = s.core.stats.outcomes success →
        ((host now).cancelJob k c).1.stats.outcomes success = s.core.stats.outcomes success :=
      fun k c hc => (congrArg (SchedulerStats.outcomes success) (stats_cancelJob now k c)).trans hc
    exact DAGExecutor.cancelDag_invariant now (fun _ _ k _ c hc => hkept k c hc) rfl
  | requeue identifier resubmit resetRetryCount resolvedBy modifier now =>
    cases taken
    -- a requeue may submit its job, which counts neither a success nor a failure
    unfold requeue
    split
    · rfl
    · simp only
      split
      · rfl
      · split
        · split
          · rename_i submitted _ heq
            have hsubmit := congrArg Prod.fst heq
            rw [← show _ = submitted from hsubmit]
            exact outcomes_submit success _ _
          · rename_i refused _ heq
            have hsubmit := congrArg Prod.fst heq
            show refused.core.stats.outcomes success = _
            rw [← show _ = refused from hsubmit]
            exact outcomes_submit success _ _
        · rfl
  | discard | resolve | requeueDlqEntry | discardDlqEntry | resolveDlqEntry =>
    cases taken
    rfl

theorem outcomes_notifyComplete (now : Time) (job : UUID) :
    (s.notifyComplete order now job).core.stats.outcomes success
      = s.core.stats.outcomes success := by
  unfold notifyComplete
  split
  · rfl
  · exact (keeps_outcomes success _ now).onJobComplete order now job s.executor rfl

theorem outcomes_notifyFailed (now : Time) (job : UUID) (error : String) :
    (s.notifyFailed now job error).core.stats.outcomes success
      = s.core.stats.outcomes success := by
  unfold notifyFailed
  split
  · rfl
  · exact (keeps_outcomes success _ now).onJobFailed now job error s.executor rfl

end Scheduler

/-! ## What a run counts -/

namespace Task

variable {order : IterationOrder UUID} {input : RunInput} {success : Bool} {s : Scheduler}
  {task : Task}

/-- **A step makes of the run what it counts**, and goes on to a place that fits the result. What
is still to be counted for a run is known from its place, so the sum of both stays what it is. -/
structure Accounts (success : Bool) (task : Task) (s : Scheduler)
    (r : Scheduler × RunStatus) : Prop where
  counted : r.1.core.stats.outcomes success + task.pc.counted success
    = s.core.stats.outcomes success + r.2.counted success
  fits : ∀ next, r.2 = .running next → next.pc.Fits

theorem accounts_transit {target : JobState} {next : RunPc} (none : task.pc.counted success = 0)
    (next_none : next.counted success = 0) (fits : next.Fits) :
    Accounts success task s (task.transit input target next s) := by
  unfold transit
  split
  · rename_i core hok
    refine ⟨?_, fun _ h => (by cases h; exact fits)⟩
    show core.stats.outcomes success + _ = _ + next.counted success
    rw [SchedulerCore.stats_transition hok, none, next_none]
  · refine ⟨?_, fun _ h => (by cases h; exact trivial)⟩
    rw [none]
    rfl

theorem accounts_transitOrRaise (task : Task) {target : JobState} {next : RunPc}
    {after : Scheduler → Scheduler} (none : task.pc.counted success = 0)
    (next_none : next.counted success = 0) (fits : next.Fits)
    (same : ∀ core, (after (s.withCore core)).core.stats = core.stats) :
    Accounts success task s (task.transitOrRaise target next after s) := by
  unfold transitOrRaise
  split
  · rename_i core hok
    refine ⟨?_, fun _ h => (by cases h; exact fits)⟩
    show (after (s.withCore core)).core.stats.outcomes success + _ = _ + next.counted success
    rw [same core, SchedulerCore.stats_transition hok, none, next_none]
  · refine ⟨?_, fun _ h => (by cases h)⟩
    rw [none]
    rfl

/-- A step that changes no count, where neither the old place nor the new one has something to
count. -/
theorem accounts_goto {s' : Scheduler} {next : RunPc}
    (same : s'.core.stats.outcomes success = s.core.stats.outcomes success)
    (counted : next.counted success = task.pc.counted success) (fits : next.Fits) :
    Accounts success task s (s', task.goto next) := by
  refine ⟨?_, fun _ h => (by cases h; exact fits)⟩
  show _ = s.core.stats.outcomes success + next.counted success
  rw [same, counted]

theorem counted_of_success {r : JobResult} (h : r.success = true) (success : Bool) :
    r.counted success = if success then 1 else 0 := by
  unfold JobResult.counted
  rw [h]
  cases success <;> rfl

theorem counted_of_failure {r : JobResult} (h : r.success = false) (success : Bool) :
    r.counted success = if success then 0 else 1 := by
  unfold JobResult.counted
  rw [h]
  cases success <;> rfl

/-- **A step of `run_job` counts what it makes of the run.** -/
theorem step_accounts (fits : task.pc.Fits) (input : RunInput) (s : Scheduler) :
    Accounts success task s (task.step order input s) := by
  obtain ⟨job, startedAt, pc⟩ := task
  -- what a step adds to a counter, the result at hand had still to count
  cases pc with
  | dequeued => exact ⟨rfl, fun _ h => (by cases h; exact trivial)⟩
  | checkPending | checkScheduled | checkRunning | checkRetrying | checkCanRun =>
    simp only [step]
    split <;> exact accounts_goto rfl rfl trivial
  | toScheduled | toRunning | retryToScheduled => exact accounts_transit rfl rfl trivial
  | invoke => exact accounts_goto rfl rfl trivial
  | handle r =>
    simp only [step]
    split
    · rename_i hsuccess
      exact accounts_goto rfl rfl hsuccess
    · rename_i hfailure
      have hfailed : r.success = false := Bool.eq_false_iff.mpr hfailure
      split
      · split
        · exact ⟨rfl, fun _ h => (by cases h)⟩
        · rename_i prepared hok
          refine accounts_goto ?_ rfl hfailed
          rw [(SchedulerCore.prepareForRetry_ok hok).2]
          rfl
      · exact accounts_goto rfl rfl hfailed
  | toCompleted r | toRetrying r | backToScheduled r =>
    exact accounts_transitOrRaise _ rfl rfl fits (fun _ => rfl)
  | toFailed r =>
    simp only [step]
    exact accounts_transitOrRaise _ rfl rfl fits (fun _ => rfl)
  | countCompleted r =>
    refine ⟨?_, fun _ h => (by cases h; exact fits)⟩
    show _ = _ + r.counted success
    rw [counted_of_success fits]
    cases success <;> rfl
  | countFailed r =>
    refine ⟨?_, fun _ h => (by cases h; exact fits)⟩
    show _ = _ + r.counted success
    rw [counted_of_failure fits]
    cases success
    · exact Nat.add_right_comm _ 1 _
    · rfl
  | notifyComplete r =>
    exact accounts_goto (Scheduler.outcomes_notifyComplete _ _) rfl fits
  | notifyFailed r =>
    exact accounts_goto (Scheduler.outcomes_notifyFailed _ _ _) rfl fits
  | push r => exact accounts_goto rfl rfl fits
  | countRetry pushed r =>
    refine ⟨?_, fun _ h => (by cases h)⟩
    show _ = s.core.stats.outcomes success + r.counted success
    rw [counted_of_failure fits]
    cases success <;> rfl
  | callComplete r | callFailed r => exact ⟨rfl, fun _ h => (by cases h)⟩

end Task

end JobOrchestrator
