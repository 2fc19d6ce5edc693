import JobOrchestrator.Scheduler.RetryRecord

/-!
# Retry accounting across the dead letter queue

Two fields of a job count its retries. `prepare_for_retry` counts in `attempt`, and the retry
decision reads it there; the dead letter queue copies `retry_count`, and `requeue` sets that
back. Nothing counts in `retry_count`, and nothing sets `attempt` back.

`Scheduler.retries_accounted_iff`: the entry and the requeued job agree with the retries that
were made exactly where none ever was.
-/

namespace JobOrchestrator

/-- The places of a run from the decision to retry on. -/
def RunPc.retrying : RunPc → Bool
  | toRetrying _ | backToScheduled _ | push _ | countRetry _ _ => true
  | _ => false

/-- A retry is begun where the result is looked at, and nowhere else. -/
theorem RunPc.Moves.unretried {pc pc' : RunPc} {st st' : JobState} (h : Moves pc st (some pc') st')
    (other : ∀ r, pc ≠ .handle r) (before : pc.retrying = false) : pc'.retrying = false := by
  cases h with
  | inner hpc | innerRefused hpc => cases hpc <;> rfl
  | outer hpc => cases hpc <;> first | rfl | cases before
  | handled => exact absurd rfl (other _)
  | _ => rfl

namespace Scheduler

open SchedulerCore

variable {order : IterationOrder UUID} {input : RunInput} {job k : UUID} {s : Scheduler}

/-! ## Retries and attempts -/

theorem attempt_prepared (c : SchedulerCore) (job : UUID) (handler : Retry.RetryHandler)
    (now : Time) (draw : ℚ) :
    ((c.modifyJob job (handler.prepared now draw)).jobs.get job).attempt
      = (c.jobs.get job).attempt + 1 := by
  unfold SchedulerCore.modifyJob
  rw [JobTable.get_modify_self]
  rfl

/-- Only at one place of a run is a retry counted. -/
theorem jobsRetried_step {task : Task} (other : ∀ pushed r, task.pc ≠ .countRetry pushed r)
    (input : RunInput) :
    (task.step order input s).1.core.stats.jobsRetried = s.core.stats.jobsRetried := by
  have hkept : Task.StepKept order task.job
      (fun s' => s'.core.stats.jobsRetried = s.core.stats.jobsRetried) :=
    { transition := fun hok h =>
        (congrArg SchedulerStats.jobsRetried (stats_transition hok)).trans h
      modifyJob := fun _ _ h => h
      count := fun f hf h => (hf _).trans h
      notifyComplete := fun now h => (jobsRetried_notifyComplete order now task.job _).trans h
      notifyFailed := fun now error h => (jobsRetried_notifyFailed now task.job error _).trans h
      pushRetry := fun h => h
      call := fun _ _ h => h }
  exact hkept.step (fun _ _ {_ _} _ _ _ _ h => h)
    (fun pushed r hpc => absurd hpc (other pushed r)) rfl input

/-- **A step that counts no attempt** comes to no place where a retry is made, and leaves none. -/
theorem unretried_step {task : Task} (before : task.pc.retrying = false)
    (zero : ((task.step order input s).1.core.jobs.get task.job).attempt = 0) :
    (task.step order input s).1.core.stats.jobsRetried = s.core.stats.jobsRetried
      ∧ ∀ next, (task.step order input s).2 = .running next → next.pc.retrying = false := by
  refine ⟨jobsRetried_step ?_ input, ?_⟩
  · intro pushed r hpc
    rw [hpc] at before
    cases before
  have hcases := Task.step_cases order input task s
  have hdecided : ∀ r, task.pc = .handle r → ∀ next, (task.step order input s).2 = .running next →
      next.pc.retrying = false := by
    obtain ⟨job, startedAt, pc⟩ := task
    rintro r rfl
    simp only [Task.step] at zero ⊢
    split at zero
    · rename_i hsuccess
      rw [if_pos hsuccess]
      rintro next ⟨⟩
      rfl
    · rename_i hfailure
      rw [if_neg hfailure]
      split at zero
      · rename_i hretry
        rw [if_pos hretry]
        split at zero
        · -- the run ended in an `OverflowError`
          exact fun _ hnext => by cases hnext
        · -- the attempt was counted
          rename_i core hok
          rw [(SchedulerCore.prepareForRetry_ok hok).2] at zero
          exact absurd ((attempt_prepared _ job _ _ _).symm.trans zero) (Nat.succ_ne_zero _)
      · rename_i hlast
        rw [if_neg hlast]
        rintro next ⟨⟩
        rfl
  generalize task.step order input s = r at hcases hdecided
  cases hcases with
  | own own stays moves =>
    rintro next ⟨⟩
    by_cases hhandle : ∃ r, task.pc = .handle r
    · obtain ⟨r, hr⟩ := hhandle
      exact hdecided r hr next rfl
    · exact moves.unretried (not_exists.mp hhandle) before
  | notifyComplete r here | notifyFailed r here =>
    rintro next ⟨⟩
    rfl
  | push r here =>
    rw [here] at before
    cases before

/-- **A `run_job` that counts no attempt** retries nothing. Counting the attempt comes first, and
one that was counted is never taken back. -/
theorem unretried_drive {fuel : ℕ} {task : Task} (before : task.pc.retrying = false)
    (zero : ((task.drive order input fuel s).1.core.retryRecord task.job).attempt = 0) :
    (task.drive order input fuel s).1.core.stats.jobsRetried = s.core.stats.jobsRetried := by
  induction fuel generalizing s task with
  | zero => rfl
  | succ fuel ih =>
    have hstep : ((task.step order input s).1.core.jobs.get task.job).attempt = 0 → _ :=
      unretried_step before
    rw [Task.drive] at zero ⊢
    cases heq : task.step order input s with
    | mk s' status =>
      rw [heq] at hstep zero
      cases status with
      | running next =>
        have hnext : next.job = task.job :=
          (Task.step_running (show (task.step order input s).2 = _ by rw [heq])).1
        rw [← hnext] at zero hstep
        obtain ⟨hsame, hpc⟩ := hstep ((accounted_drive input fuel next).attempt_eq_zero zero)
        exact (ih (hpc next rfl) zero).trans hsame
      | returned | raised => exact (hstep zero).1

theorem unretried_failJob {now : Time} {draw : ℚ} {traceback : String} {error : PyException}
    (zero : ((s.failJob now draw traceback job error).1.core.retryRecord job).attempt = 0) :
    (s.failJob now draw traceback job error).1.core.stats.jobsRetried
      = s.core.stats.jobsRetried := by
  unfold failJob at zero ⊢
  split at zero
  · rename_i hunknown
    rw [if_pos hunknown]
  · rename_i hknown
    rw [if_neg hknown]
    simp only at zero ⊢
    split at zero
    · rename_i hretry
      rw [if_pos hretry]
      by_cases hfits : (s.withCore (s.core.modifyJob job (fun j =>
          { j with error := some error.message, traceback := some traceback }))).RetryFits now draw
          job
      · exact absurd ((attempt_failJobRetry hfits).symm.trans zero) (Nat.succ_ne_zero _)
      · obtain ⟨text, hraised⟩ := failJobRetry_of_not_fits hfits
        rw [hraised]
        rfl
    · rename_i hlast
      rw [if_neg hlast]
      unfold failJobFinally
      split
      · rfl
      · rename_i failed hok
        have hstats := congrArg SchedulerStats.jobsRetried (stats_transition hok)
        exact (jobsRetried_notifyFailed now job error.message _).trans hstats

/-- **`fail_job` dead-letters** a job with its accounts as they were, and leaves them so. -/
theorem failJob_sent {now : Time} {draw : ℚ} {traceback : String} {error : PyException}
    (sent : (s.failJob now draw traceback job error).1.dlq ≠ s.dlq) :
    ∃ j : Job, j.id = job ∧ j.retryRecord = s.core.retryRecord job
      ∧ (s.failJob now draw traceback job error).1.dlq = s.dlq.add now j error traceback
      ∧ (s.failJob now draw traceback job error).1.core.retryRecord job
        = s.core.retryRecord job := by
  unfold failJob at sent ⊢
  split at sent
  · exact absurd rfl sent
  · rename_i hknown
    rw [if_neg hknown]
    have hnoted : (s.core.modifyJob job (fun j =>
        { j with error := some error.message, traceback := some traceback })).retryRecord job
          = s.core.retryRecord job := retryRecord_modifyJob (fun _ => by rfl) job job
    simp only at sent ⊢
    split at sent
    · -- a retry sends nothing
      refine absurd ?_ sent
      unfold failJobRetry
      split
      · rfl
      · split
        · rfl
        · split <;> rfl
    · rename_i hlast
      rw [if_neg hlast]
      unfold failJobFinally at sent ⊢
      split at sent
      · exact absurd rfl sent
      · rename_i failed hok
        have hdead : (failed.modifyJob job (fun j =>
            { j with completedAt := some (.utcnow now) })).retryRecord job
              = s.core.retryRecord job :=
          (retryRecord_modifyJob (fun _ => by rfl) job job).trans
            ((retryRecord_transition hok job).trans hnoted)
        refine ⟨(failed.modifyJob job (fun j =>
          { j with completedAt := some (.utcnow now) })).jobs.get job, JobTable.id_get _ job,
          hdead, dlq_notifyFailed _ _ _ _, ?_⟩
        exact stable_notifyFailed (stable_retryRecord job _) now job error.message hdead

/-! ## What is renewed -/

/-- The job object after failures that were retried, at these times and with these draws. -/
def retriedThrough (handler : Retry.RetryHandler) (failures : List (Time × ℚ)) (j : Job) : Job :=
  failures.foldl (fun j f => handler.prepared f.1 f.2 j) j

/-- **All retries are left**: a failure that the policy retries is retried exactly if fewer than
`max_retries` came before it. -/
def Renewed (k : UUID) (s : Scheduler) : Prop :=
  ∀ (failures : List (Time × ℚ)) (error : PyException),
    error.isInstance (s.retryHandler.getPolicyForJob (s.core.jobs.get k)).retryOn = true →
      (s.retryHandler.shouldRetry (retriedThrough s.retryHandler failures (s.core.jobs.get k))
          (some error) = true
        ↔ (failures.length : ℤ)
          < (s.retryHandler.getPolicyForJob (s.core.jobs.get k)).maxRetries)

theorem retriedThrough_spec (handler : Retry.RetryHandler) (failures : List (Time × ℚ)) (j : Job) :
    (retriedThrough handler failures j).attempt = j.attempt + failures.length
      ∧ (retriedThrough handler failures j).retryPolicy = j.retryPolicy := by
  induction failures generalizing j with
  | nil => exact ⟨rfl, rfl⟩
  | cons f failures ih =>
    obtain ⟨hattempt, hpolicy⟩ := ih (handler.prepared f.1 f.2 j)
    refine ⟨hattempt.trans ?_, hpolicy⟩
    show j.attempt + 1 + failures.length = j.attempt + (failures.length + 1)
    omega

/-- **Retries are left as long as no attempt was counted**, under a policy that retries anything
at all. -/
theorem renewed_iff : s.Renewed k
    ↔ ∀ error : PyException,
      error.isInstance (s.retryHandler.getPolicyForJob (s.core.jobs.get k)).retryOn = true →
        (s.core.jobs.get k).attempt = 0
          ∨ (s.retryHandler.getPolicyForJob (s.core.jobs.get k)).maxRetries ≤ 0 := by
  generalize hpolicy : s.retryHandler.getPolicyForJob (s.core.jobs.get k) = policy
  have hasked : ∀ (failures : List (Time × ℚ)) (error : PyException),
      error.isInstance policy.retryOn = true →
      (s.retryHandler.shouldRetry (retriedThrough s.retryHandler failures (s.core.jobs.get k))
          (some error) = true
        ↔ ((s.core.jobs.get k).attempt : ℤ) + failures.length < policy.maxRetries) := by
    intro failures error hinstance
    obtain ⟨hattempt, hsame⟩ := retriedThrough_spec s.retryHandler failures (s.core.jobs.get k)
    have hfor : s.retryHandler.getPolicyForJob
        (retriedThrough s.retryHandler failures (s.core.jobs.get k)) = policy := by
      rw [← hpolicy]
      unfold Retry.RetryHandler.getPolicyForJob
      rw [hsame]
    rw [Retry.RetryHandler.shouldRetry_iff, hfor, hattempt, Nat.cast_add]
    exact and_iff_left hinstance
  unfold Renewed
  rw [hpolicy]
  constructor
  · intro h error hinstance
    by_contra hnot
    rw [not_or, not_le] at hnot
    obtain ⟨hcounted, hsome⟩ := hnot
    -- the last of the retries is refused
    have hlast := ((hasked (List.replicate (policy.maxRetries.toNat - 1) (0, 0)) error
      hinstance).symm.trans (h _ error hinstance)).mpr
    rw [List.length_replicate] at hlast
    omega
  · intro h failures error hinstance
    rw [hasked failures error hinstance]
    rcases h error hinstance with hzero | hnone
    · rw [hzero, Nat.cast_zero, zero_add]
    · constructor <;> intro hlt <;> omega

end Scheduler

/-! ## Along a run -/

namespace World

open Scheduler SchedulerCore

variable {order : IterationOrder UUID} {k : UUID} {w w' : World} {ls : List OperationStep}

/-- The step is about the job. -/
def concerns (k : UUID) (w : World) : OperationStep → Bool
  | .call (.failJob job _ _ _ _) | .call (.runJob job _) => decide (job = k)
  | .run worker _ => (w.workers worker).any (fun task => decide (task.job = k))
  | _ => false

/-- **A retry of the job is made**: a step about it counts one. -/
def makesRetry (k : UUID) (w : World) (l : OperationStep) (w' : World) : Bool :=
  w.concerns k l && decide (w'.sched.core.stats.jobsRetried ≠ w.sched.core.stats.jobsRetried)

/-- **The retries made** of a job in a run. -/
def retriesMade (order : IterationOrder UUID) (k : UUID) (w : World) (ls : List OperationStep) :
    ℕ :=
  GuardedRun.tally (operate order) (makesRetry k) w ls

/-- No worker is making a retry of the job. -/
def NoneRetrying (k : UUID) (w : World) : Prop :=
  ∀ i task, w.workers i = some task → task.job = k → task.pc.retrying = false

/-- **A step that counts no attempt** of a job makes no retry of it. -/
theorem unretried_operate (before : w.NoneRetrying k) {l : OperationStep}
    (taken : w.operate order l = some w') (zero : (w'.sched.core.retryRecord k).attempt = 0) :
    w.makesRetry k l w' = false ∧ w'.NoneRetrying k := by
  -- a step makes a retry of the job if it is about the job and the counter moves
  have hsame : w'.sched.core.stats.jobsRetried = w.sched.core.stats.jobsRetried →
      w.makesRetry k l w' = false := by
    intro h
    unfold makesRetry
    rw [h]
    simp
  have helse : w.concerns k l = false → w.makesRetry k l w' = false := by
    intro h
    unfold makesRetry
    rw [h]
    rfl
  cases l with
  | call op =>
    obtain ⟨sched, hperform, rfl⟩ := operate_call taken
    refine ⟨?_, before⟩
    -- of the calls only a report of a failure and a whole run can count a retry
    cases op with
    | failJob job error now draw traceback =>
      cases hperform
      by_cases hjob : job = k
      · subst hjob
        exact hsame (unretried_failJob zero)
      · exact helse (decide_eq_false hjob)
    | runJob job input =>
      cases hperform
      by_cases hjob : job = k
      · subst hjob
        exact hsame (unretried_drive rfl zero)
      · exact helse (decide_eq_false hjob)
    | _ => exact helse rfl
  | start worker job =>
    obtain ⟨-, rfl⟩ := operate_start taken
    refine ⟨helse rfl, fun i t ht hk => ?_⟩
    rcases workers_assign ht with ⟨-, hassigned⟩ | ⟨-, hold⟩
    · cases hassigned
      rfl
    · exact before i t hold hk
  | run worker input =>
    obtain ⟨task, has, rfl⟩ := operate_run taken
    -- a step of another worker at the same job would be one of this kind too
    by_cases hjob : task.job = k
    · subst hjob
      obtain ⟨hstats, hpc⟩ := unretried_step (before worker task has rfl) zero
      refine ⟨hsame hstats, fun i t ht hk => ?_⟩
      rcases workers_assign ht with ⟨-, hassigned⟩ | ⟨-, hold⟩
      · exact hpc t (RunStatus.task?_eq_some.mp hassigned)
      · exact before i t hold hk
    · refine ⟨helse ?_, fun i t ht hk => ?_⟩
      · show (w.workers worker).any _ = false
        rw [has]
        exact decide_eq_false hjob
      · rcases workers_assign ht with ⟨-, hassigned⟩ | ⟨-, hold⟩
        · refine absurd ?_ hjob
          rw [← hk]
          exact (Task.step_running (RunStatus.task?_eq_some.mp hassigned)).1.symm
        · exact before i t hold hk

/-- **As long as no attempt is counted, no retry is made.** -/
theorem unretried_run {sched : Scheduler} (run : GuardedRun (operate order) PlainCalls
      (init sched) ls w) (zero : (w.sched.core.retryRecord k).attempt = 0) :
    retriesMade order k (init sched) ls = 0 ∧ w.NoneRetrying k := by
  induction run with
  | nil => exact ⟨rfl, fun i task h => by cases h⟩
  | snoc run plain taken ih =>
    obtain ⟨hnone, hbefore⟩ := ih ((accounted_operate plain k taken).attempt_eq_zero zero)
    obtain ⟨hnot, hafter⟩ := unretried_operate hbefore taken zero
    refine ⟨?_, hafter⟩
    unfold retriesMade at hnone ⊢
    rw [GuardedRun.tally_snoc run taken, hnone, hnot]
    rfl

/-- **The accounts of a job that was constructed**, in any run: `retry_count` is zero, and a
counted attempt was allowed. -/
theorem accounts_run {sched : Scheduler} (run : GuardedRun (operate order) PlainCalls
      (init sched) ls w) (attempt : (sched.core.jobs.get k).attempt = 0)
    (retryCount : (sched.core.jobs.get k).retryCount = 0) :
    (w.sched.core.retryRecord k).retryCount = 0
      ∧ (w.sched.core.retryRecord k).Allowed w.sched.retryHandler := by
  have hstart : (sched.core.retryRecord k).Allowed sched.retryHandler :=
    fun hcounted => absurd attempt (Nat.pos_iff_ne_zero.mp hcounted)
  refine run.invariant (P := fun w => (w.sched.core.retryRecord k).retryCount = 0
    ∧ (w.sched.core.retryRecord k).Allowed w.sched.retryHandler) ⟨retryCount, hstart⟩ ?_
  rintro w l w' ⟨hcount, hallowed⟩ plain taken
  have haccounted := accounted_operate plain k taken
  rw [haccounted.retryHandler]
  exact haccounted.invariant (P := fun r => r.retryCount = 0 ∧ r.Allowed w.sched.retryHandler)
    (fun _ _ entry h => ⟨entry.retryCount h.1, entry.allowed h.2⟩) ⟨hcount, hallowed⟩

end World

namespace Scheduler

variable {order : IterationOrder UUID} {k : UUID}

/-- **The retries are accounted for** across the dead letter queue: the entry has the number of
retries made, and `requeue` renews them all. A requeued job is to have as many retries before it
as a new one. -/
structure RetriesAccounted (k : UUID) (retries : ℕ) (entryId : EntryId) (s : Scheduler) :
    Prop where
  entry : ∃ entry, s.dlq.getEntry (.entry entryId) = some entry ∧ entry.job = k
    ∧ entry.retryCount = retries
  renewed : ∀ resubmit resolvedBy now,
    (s.requeue now (.entry entryId) resubmit true resolvedBy none).1.Renewed k

/-- **The accounts survive the dead letter queue** exactly where no attempt was ever counted for
the job that is dead-lettered: for every job as it is constructed, and every run of operations
and workers' steps after which `fail_job` sends it there. -/
theorem retries_accounted_iff {jobs : JobTable} (attempt : (jobs.get k).attempt = 0)
    (retryCount : (jobs.get k).retryCount = 0) {maxSize maxEntries : Option ℕ}
    {retryHandler : Retry.RetryHandler} {completeCallbacks failedCallbacks : List ℕ}
    {ls : List OperationStep} {w : World}
    (run : GuardedRun (World.operate order) World.PlainCalls
      (.init (.new jobs maxSize maxEntries retryHandler completeCallbacks failedCallbacks)) ls w)
    {now : Time} {draw : ℚ} {traceback : String} {error : PyException}
    (sent : (w.sched.failJob now draw traceback k error).1.dlq ≠ w.sched.dlq) :
    RetriesAccounted k (World.retriesMade order k
        (.init (.new jobs maxSize maxEntries retryHandler completeCallbacks failedCallbacks)) ls)
      w.sched.dlq.nextId (w.sched.failJob now draw traceback k error).1
      ↔ (w.sched.core.jobs.get k).attempt = 0 := by
  obtain ⟨hcount, hallowed⟩ := World.accounts_run (k := k) run attempt retryCount
  obtain ⟨j, hid, hrecord, hdlq, hafter⟩ := failJob_sent sent
  have hhandler : (w.sched.failJob now draw traceback k error).1.retryHandler
      = w.sched.retryHandler := (accounted_failJob (k := k) now draw traceback error).retryHandler
  generalize (w.sched.failJob now draw traceback k error).1 = failed at hdlq hafter hhandler ⊢
  have hfound : failed.dlq.getEntry (.entry w.sched.dlq.nextId)
      = some (w.sched.dlq.entryFor now j error traceback) := by
    rw [hdlq]
    exact OrderedDict.get?_set_self _ _ _
  have hentry : (w.sched.dlq.entryFor now j error traceback).retryCount = 0 :=
    (congrArg RetryRecord.retryCount hrecord).trans hcount
  -- `requeue` sets back what is not counted in
  have hnone : ∀ modify : Modifier, none = some modify → modify.Plain := fun _ h => by cases h
  have hrequeued : ∀ resubmit resolvedBy at₁,
      let s := (failed.requeue at₁ (.entry w.sched.dlq.nextId) resubmit true resolvedBy none).1
      s.retryHandler = w.sched.retryHandler
        ∧ (s.core.retryRecord k).attempt = (w.sched.core.retryRecord k).attempt
        ∧ (s.core.retryRecord k).retryPolicy = (w.sched.core.retryRecord k).retryPolicy := by
    intro resubmit resolvedBy at₁ s
    obtain ⟨hsame, hleft⟩ := retryRecord_requeue (s := failed) (k := k) at₁
      (.entry w.sched.dlq.nextId) resubmit true resolvedBy hnone
    refine ⟨hsame.trans hhandler, ?_⟩
    rw [← hafter]
    rcases hleft with h | h <;> rw [h] <;> exact ⟨rfl, rfl⟩
  constructor
  · intro h
    by_contra hcounted
    obtain ⟨hsome, tried, hinstance⟩ := hallowed (Nat.pos_of_ne_zero hcounted)
    obtain ⟨hsame, hattempt, hpolicy⟩ := hrequeued false none 0
    have hrenewed := renewed_iff.mp (h.renewed false none 0)
    generalize (failed.requeue 0 (.entry w.sched.dlq.nextId) false true none none).1 = s
      at hsame hattempt hpolicy hrenewed
    have hfor : s.retryHandler.getPolicyForJob (s.core.jobs.get k)
        = (w.sched.core.retryRecord k).policyFor w.sched.retryHandler := by
      rw [hsame]
      show (s.core.retryRecord k).policyFor _ = _
      unfold RetryRecord.policyFor
      rw [hpolicy]
    rw [hfor] at hrenewed
    rcases hrenewed tried hinstance with hzero | hnone
    · exact hcounted (hattempt.symm.trans hzero)
    · exact absurd hsome (not_lt.mpr hnone)
  · intro hzero
    refine ⟨⟨_, hfound, hid, ?_⟩, fun resubmit resolvedBy at₁ => ?_⟩
    · rw [hentry, (World.unretried_run run hzero).1]
    · exact renewed_iff.mpr (fun _ _ =>
        Or.inl ((hrequeued resubmit resolvedBy at₁).2.1.trans hzero))

/-- The operations that are methods of the scheduler take no modifiers. -/
theorem World.PlainCalls.of_throughScheduler {w : World} {l : OperationStep}
    (through : w.ThroughScheduler l) : w.PlainCalls l := by
  cases l with
  | call op =>
    cases op with
    | requeue => cases through
    | _ => trivial
  | start | run => trivial

/-- A job that is retried once. -/
def retriedOnce : JobTable :=
  JobTable.fresh.modify 1 (fun j => { j with retryPolicy := some { maxRetries := 1 } })

/-- A worker brings the job to RUNNING. -/
def dispatched (now : Time) : List OperationStep :=
  [.call (.getNextJob now), .start 0 1, .run 0 .raising, .run 0 .raising, .run 0 .raising,
    .run 0 .raising]

theorem retries_accounted_onlyOnce :
    ∃ w : World, GuardedRun (World.operate .increasing) World.PlainCalls
        (.init (.new (onlyOnce .pending) none none {} [] [])) (.call (.submit 1) :: dispatched 0) w
      ∧ (RetriesAccounted 1
          (World.retriesMade .increasing 1 (.init (.new (onlyOnce .pending) none none {} [] []))
            (.call (.submit 1) :: dispatched 0))
          w.sched.dlq.nextId (w.sched.failJob 0 0 "Traceback" 1 (.plain "error")).1
        ↔ (w.sched.core.jobs.get 1).attempt = 0) := by
  have hreplay : (GuardedRun.replay (World.operate .increasing) (fun w l => w.ThroughScheduler l)
      (.init (.new (onlyOnce .pending) none none {} [] []))
      (.call (.submit 1) :: dispatched 0)).any
      (fun w => (w.sched.failJob 0 0 "Traceback" 1 (.plain "error")).1.dlq.nextId
        ≠ w.sched.dlq.nextId) = true := by
    decide +kernel
  obtain ⟨w, run, htest⟩ := GuardedRun.exists_of_replay
    (fun _ _ h => World.PlainCalls.of_throughScheduler (of_decide_eq_true h)) hreplay
  exact ⟨w, run, retries_accounted_iff rfl rfl run
    (fun h => of_decide_eq_true htest (congrArg DeadLetterQueue.nextId h))⟩

/-- **A retry that is not accounted for**: a job with one retry fails, is retried, and fails
again. Its entry has a `retry_count` of 0, and requeueing it renews nothing. -/
theorem retries_not_accounted :
    ∃ w : World, GuardedRun (World.operate .increasing) World.PlainCalls
        (.init (.new retriedOnce none none {} [] []))
        (.call (.submit 1) :: dispatched 0 ++ List.replicate 6 (.run 0 .raising)
          ++ dispatched 10) w
      ∧ World.retriesMade .increasing 1 (.init (.new retriedOnce none none {} [] []))
        (.call (.submit 1) :: dispatched 0 ++ List.replicate 6 (.run 0 .raising)
          ++ dispatched 10) = 1
      ∧ ((w.sched.failJob 10 0 "Traceback" 1 (.plain "error")).1.dlq.getEntry (.entry 0)).map
        DLQEntry.retryCount = some 0
      ∧ ¬ RetriesAccounted 1 1 0 (w.sched.failJob 10 0 "Traceback" 1 (.plain "error")).1 := by
  have hreplay : (GuardedRun.replay (World.operate .increasing) (fun w l => w.ThroughScheduler l)
      (.init (.new retriedOnce none none {} [] []))
      (.call (.submit 1) :: dispatched 0 ++ List.replicate 6 (.run 0 .raising)
        ++ dispatched 10)).any
      (fun w => ((w.sched.failJob 10 0 "Traceback" 1 (.plain "error")).1.dlq.getEntry
        (.entry 0)).map DLQEntry.retryCount = some 0) = true := by
    decide +kernel
  obtain ⟨w, run, htest⟩ := GuardedRun.exists_of_replay
    (fun _ _ h => World.PlainCalls.of_throughScheduler (of_decide_eq_true h)) hreplay
  have hzero := of_decide_eq_true htest
  refine ⟨w, run, by decide +kernel, hzero, fun h => ?_⟩
  obtain ⟨entry, hentry, -, hcount⟩ := h.entry
  rw [hentry, Option.map_some, hcount] at hzero
  cases hzero

end Scheduler

end JobOrchestrator
