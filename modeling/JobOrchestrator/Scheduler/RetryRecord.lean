import Mathlib.Logic.Relation
import JobOrchestrator.Scheduler.Operations
import JobOrchestrator.Scheduler.RetryDecision

/-!
# What is written to the accounts of a job

Four fields of a job are read or written where retries are counted: the attempt, the time it
is scheduled at, its policy and `retry_count`. Each operation of the scheduler leaves those of
any job alone, counts an attempt that the policy allowed, or sets `retry_count` back. That
this is all is said once for each operation, as `Scheduler.Accounted`.
-/

namespace JobOrchestrator

/-- **The accounts of a job.** -/
structure RetryRecord where
  attempt : ℕ
  scheduledAt : Option DateTime
  retryPolicy : Option RetryPolicy
  retryCount : ℕ

/-- The accounts of a job. -/
def Job.retryRecord (j : Job) : RetryRecord :=
  ⟨j.attempt, j.scheduledAt, j.retryPolicy, j.retryCount⟩

namespace RetryRecord

/-- **One entry in the accounts**: an attempt that the policy allowed and that did not overflow, or
`retry_count` set back. -/
inductive Entry (handler : Retry.RetryHandler) : RetryRecord → RetryRecord → Prop
  | prepared (job : Job) (now : Time) (draw : ℚ) (error : PyException)
      (allowed : handler.shouldRetry job (some error) = true)
      (fits : handler.Fits now draw job) :
    Entry handler job.retryRecord (handler.prepared now draw job).retryRecord
  | reset (r : RetryRecord) : Entry handler r { r with retryCount := 0 }

variable {handler : Retry.RetryHandler} {r r' : RetryRecord}

/-- Attempts are only counted, never taken back. -/
theorem Entry.attempt_le (h : Entry handler r r') : r.attempt ≤ r'.attempt := by
  cases h with
  | prepared => exact Nat.le_succ _
  | reset => exact le_refl _

theorem Entry.retryPolicy (h : Entry handler r r') : r'.retryPolicy = r.retryPolicy := by
  cases h with
  | prepared | reset => rfl

/-- **`retry_count` is never counted.** It is set back to zero, and no function ever adds to it.
-/
theorem Entry.retryCount (h : Entry handler r r') (zero : r.retryCount = 0) :
    r'.retryCount = 0 := by
  cases h with
  | prepared => exact zero
  | reset => rfl

/-- The policy that the handler has for a job with these accounts. -/
def policyFor (handler : Retry.RetryHandler) (r : RetryRecord) : Retry.RetryPolicy :=
  handler.getPolicyForJob { id := 0, retryPolicy := r.retryPolicy }

/-- **A counted attempt was allowed**: the policy has retries, and retries some exception. -/
def Allowed (handler : Retry.RetryHandler) (r : RetryRecord) : Prop :=
  0 < r.attempt → 0 < (r.policyFor handler).maxRetries
    ∧ ∃ error : PyException, error.isInstance (r.policyFor handler).retryOn = true

/-- What the handler decides on is in the accounts. -/
theorem retryAt_congr {j j' : Job} (h : j'.retryRecord = j.retryRecord) (now : Time) (draw : ℚ) :
    handler.retryAt now draw j' = handler.retryAt now draw j := by
  have hpolicy : j'.retryPolicy = j.retryPolicy := congrArg RetryRecord.retryPolicy h
  have hattempt : j'.attempt = j.attempt := congrArg RetryRecord.attempt h
  unfold Retry.RetryHandler.retryAt Retry.RetryHandler.getPolicyForJob
  rw [hpolicy, hattempt]

/-- So is what makes a retry overflow. -/
theorem fits_congr {j j' : Job} (h : j'.retryRecord = j.retryRecord) (now : Time) (draw : ℚ) :
    handler.Fits now draw j' ↔ handler.Fits now draw j :=
  handler.fits_congr (congrArg RetryRecord.retryPolicy h) (congrArg RetryRecord.attempt h) now draw

theorem Entry.allowed (h : Entry handler r r') (before : r.Allowed handler) :
    r'.Allowed handler := by
  cases h with
  | prepared job now draw error allowed fits =>
    intro _
    obtain ⟨hleft, hinstance⟩ := Retry.RetryHandler.shouldRetry_iff.mp allowed
    exact ⟨lt_of_le_of_lt (Int.natCast_nonneg _) hleft, error, hinstance⟩
  | reset => exact before

end RetryRecord

namespace SchedulerCore

variable {c c' : SchedulerCore} {job k : UUID}

/-- The accounts of a job object. -/
def retryRecord (c : SchedulerCore) (k : UUID) : RetryRecord := (c.jobs.get k).retryRecord

/-- Assigning fields that are not in the accounts leaves these as they are. -/
theorem retryRecord_modifyJob {f : Job → Job} (h : ∀ j, (f j).retryRecord = j.retryRecord)
    (job k : UUID) : (c.modifyJob job f).retryRecord k = c.retryRecord k := by
  unfold retryRecord modifyJob
  by_cases hk : k = job
  · rw [hk, JobTable.get_modify_self]
    exact h _
  · rw [JobTable.get_modify_of_ne _ hk]

/-- Assigning any fields of another job leaves the accounts of this one. -/
theorem retryRecord_modifyJob_of_ne (f : Job → Job) (h : k ≠ job) :
    (c.modifyJob job f).retryRecord k = c.retryRecord k := by
  unfold retryRecord modifyJob
  rw [JobTable.get_modify_of_ne _ h]

theorem retryRecord_setState (target : JobState) (job k : UUID) :
    (c.setState job target).retryRecord k = c.retryRecord k :=
  retryRecord_modifyJob (fun _ => by rfl) job k

theorem retryRecord_transition {target : JobState} (h : c.transition job target = .ok c')
    (k : UUID) : c'.retryRecord k = c.retryRecord k := by
  rw [(transition_ok h).2]
  exact retryRecord_setState target job k

/-- **`submit` and `cancel_job` leave the accounts alone.** They assign a state, and take the job
in and out of the queue. -/
theorem stable_retryRecord (k : UUID) (r : RetryRecord) :
    Stable (fun c => c.retryRecord k = r) where
  stats _ _ h := h
  submit c job h := by
    unfold submit
    split
    · exact h
    · split
      · exact h
      · unfold storeAndPush
        split
        · exact h
        · rename_i scheduled hok
          have hscheduled : scheduled.retryRecord k = r :=
            (retryRecord_transition hok k).trans h
          unfold enqueue
          split
          · exact (retryRecord_setState _ job k).trans hscheduled
          · exact hscheduled
  cancelJob c now job h := by
    unfold cancelJob
    split
    · exact h
    · split
      · exact h
      · simp only
        split
        · exact h
        · rename_i cancelled hok
          exact (retryRecord_modifyJob (fun _ => by rfl) job k).trans
            ((retryRecord_transition hok k).trans h)

end SchedulerCore

/-- **What the parts of a step keep**, of a run of this job: all but the attempt that is counted
and the retry that is. Each field is one part that steps are made of; `Task.StepKept.step` puts
them together. -/
structure Task.StepKept (order : IterationOrder UUID) (job : UUID) (P : Scheduler → Prop) :
    Prop where
  transition : ∀ {s target core}, s.core.transition job target = .ok core → P s →
    P (s.withCore core)
  modifyJob : ∀ {s} (f : Job → Job), (∀ j, (f j).retryRecord = j.retryRecord) → P s →
    P (s.withCore (s.core.modifyJob job f))
  count : ∀ {s : Scheduler} f, (∀ st, (f st).jobsRetried = st.jobsRetried) → P s → P (s.count f)
  notifyComplete : ∀ {s : Scheduler} now, P s → P (s.notifyComplete order now job)
  notifyFailed : ∀ {s : Scheduler} now error, P s → P (s.notifyFailed now job error)
  pushRetry : ∀ {s : Scheduler}, P s → P (s.pushRetry job).2
  call : ∀ {s : Scheduler} callbacks r, P s → P (s.call callbacks job r)

namespace Task.StepKept

variable {order : IterationOrder UUID} {job : UUID} {P : Scheduler → Prop} {s : Scheduler}
  {task : Task}

theorem transit (h : StepKept order task.job P) (hs : P s) (input : RunInput) (target : JobState)
    (next : RunPc) : P (task.transit input target next s).1 := by
  unfold Task.transit
  split
  · rename_i core hok
    exact h.transition hok hs
  · exact hs

theorem transitOrRaise (h : StepKept order task.job P) {after : Scheduler → Scheduler}
    (hafter : ∀ s, P s → P (after s)) (hs : P s) (target : JobState) (next : RunPc) :
    P (task.transitOrRaise target next after s).1 := by
  unfold Task.transitOrRaise
  split
  · rename_i core hok
    exact hafter _ (h.transition hok hs)
  · exact hs

/-- **A step keeps what its parts keep**, and what the attempt and the retry it may count do. -/
theorem step (h : StepKept order task.job P)
    (prepared : ∀ r, task.pc = .handle r → ∀ {s : Scheduler} {error} now draw,
      s.retryHandler.shouldRetry (s.core.jobs.get task.job) (some error) = true →
      s.retryHandler.Fits now draw (s.core.jobs.get task.job) → P s →
        P (s.withCore (s.core.modifyJob task.job (s.retryHandler.prepared now draw))))
    (counted : ∀ pushed r, task.pc = .countRetry pushed r → ∀ {s : Scheduler}, P s →
      P (s.count (fun st => { st with jobsRetried := st.jobsRetried + 1 })))
    (hs : P s) (input : RunInput) : P (task.step order input s).1 := by
  obtain ⟨job, startedAt, pc⟩ := task
  cases pc with
  | dequeued | checkPending | checkScheduled | checkRunning | checkRetrying | checkCanRun =>
    exact hs
  | toScheduled | toRunning | retryToScheduled => exact h.transit hs _ _ _
  | invoke => exact h.modifyJob _ (fun _ => rfl) hs
  | handle r =>
    simp only [Task.step]
    split
    · exact h.modifyJob _ (fun _ => rfl) hs
    · have hnoted := h.modifyJob
        (fun j => { j with error := r.error, traceback := r.traceback }) (fun _ => rfl) hs
      split
      · rename_i hretry
        split
        · exact hnoted
        · rename_i core hok
          obtain ⟨hfits, rfl⟩ := SchedulerCore.prepareForRetry_ok hok
          -- the write that the caller has to answer for
          exact prepared r rfl _ _ hretry hfits hnoted
      · exact hnoted
  | toCompleted r | toRetrying r | backToScheduled r =>
    exact h.transitOrRaise (fun _ hs' => hs') hs _ _
  | toFailed r =>
    refine h.transitOrRaise (fun s' hs' => ?_) hs _ _
    exact h.modifyJob _ (fun _ => by rfl) hs'
  | countCompleted r =>
    exact h.count (fun st => { st with jobsCompleted := st.jobsCompleted + 1 }) (fun _ => rfl) hs
  | countFailed r =>
    exact h.count (fun st => { st with jobsFailed := st.jobsFailed + 1 }) (fun _ => rfl) hs
  | notifyComplete r => exact h.notifyComplete _ hs
  | notifyFailed r => exact h.notifyFailed _ _ hs
  | push r => exact h.pushRetry hs
  | countRetry pushed r => exact counted pushed r rfl hs
  | callComplete r | callFailed r => exact h.call _ r hs

end Task.StepKept

namespace Scheduler

open SchedulerCore

/-- **What an operation does to the accounts of a job**: any number of entries, under the same
retry handler. So `attempt` goes up by one at a time, and only with what the policy has allowed.
-/
structure Accounted (k : UUID) (s s' : Scheduler) : Prop where
  retryHandler : s'.retryHandler = s.retryHandler
  entries : Relation.ReflTransGen (RetryRecord.Entry s.retryHandler) (s.core.retryRecord k)
    (s'.core.retryRecord k)

namespace Accounted

variable {k : UUID} {s s' s'' : Scheduler}

theorem refl (k : UUID) (s : Scheduler) : Accounted k s s := ⟨rfl, .refl⟩

theorem trans (h : Accounted k s s') (h' : Accounted k s' s'') : Accounted k s s'' where
  retryHandler := h'.retryHandler.trans h.retryHandler
  entries := by
    have hlater := h'.entries
    rw [h.retryHandler] at hlater
    exact h.entries.trans hlater

/-- What every entry keeps holds of the accounts afterwards. -/
theorem invariant (h : Accounted k s s') {P : RetryRecord → Prop}
    (kept : ∀ r r', RetryRecord.Entry s.retryHandler r r' → P r → P r')
    (before : P (s.core.retryRecord k)) : P (s'.core.retryRecord k) := by
  have hall : ∀ r, Relation.ReflTransGen (RetryRecord.Entry s.retryHandler)
      (s.core.retryRecord k) r → P r := by
    intro r hr
    induction hr with
    | refl => exact before
    | tail _ entry ih => exact kept _ _ entry ih
  exact hall _ h.entries

theorem attempt_le (h : Accounted k s s') :
    (s.core.retryRecord k).attempt ≤ (s'.core.retryRecord k).attempt :=
  h.invariant (P := fun r => (s.core.retryRecord k).attempt ≤ r.attempt)
    (fun _ _ entry hle => hle.trans entry.attempt_le) (le_refl _)

/-- No attempt is counted before one that is not. -/
theorem attempt_eq_zero (h : Accounted k s s') (zero : (s'.core.retryRecord k).attempt = 0) :
    (s.core.retryRecord k).attempt = 0 :=
  Nat.le_zero.mp (zero ▸ h.attempt_le)

/-- The accounts are left alone. -/
theorem same (retryHandler : s'.retryHandler = s.retryHandler)
    (record : s'.core.retryRecord k = s.core.retryRecord k) : Accounted k s s' where
  retryHandler := retryHandler
  entries := by rw [record]

theorem withCore {core : SchedulerCore} (record : core.retryRecord k = s.core.retryRecord k) :
    Accounted k s (s.withCore core) :=
  same rfl record

theorem modifyJob {f : Job → Job} (h : ∀ j, (f j).retryRecord = j.retryRecord) (job : UUID) :
    Accounted k s (s.withCore (s.core.modifyJob job f)) :=
  withCore (retryRecord_modifyJob h job k)

theorem transition {job : UUID} {target : JobState} {core : SchedulerCore}
    (h : s.core.transition job target = .ok core) : Accounted k s (s.withCore core) :=
  withCore (retryRecord_transition h k)

theorem notifyComplete (order : IterationOrder UUID) (now : Time) (job : UUID) :
    Accounted k s (s.notifyComplete order now job) := by
  refine same ?_ (stable_notifyComplete (stable_retryRecord k _) order now job rfl)
  unfold Scheduler.notifyComplete
  split <;> rfl

theorem notifyFailed (now : Time) (job : UUID) (error : String) :
    Accounted k s (s.notifyFailed now job error) := by
  refine same ?_ (stable_notifyFailed (stable_retryRecord k _) now job error rfl)
  unfold Scheduler.notifyFailed
  split <;> rfl

/-- **A retry that the policy allowed** is an entry in the accounts of its job. -/
theorem prepared {job : UUID} {error : PyException}
    (allowed : s.retryHandler.shouldRetry (s.core.jobs.get job) (some error) = true)
    {now : Time} {draw : ℚ} (fits : s.retryHandler.Fits now draw (s.core.jobs.get job)) :
    Accounted k s (s.withCore (s.core.modifyJob job (s.retryHandler.prepared now draw))) := by
  by_cases hk : k = job
  · subst hk
    refine ⟨rfl, .single ?_⟩
    have hwritten : (s.core.modifyJob k (s.retryHandler.prepared now draw)).retryRecord k
        = (s.retryHandler.prepared now draw (s.core.jobs.get k)).retryRecord := by
      unfold retryRecord SchedulerCore.modifyJob
      rw [JobTable.get_modify_self]
      rfl
    show RetryRecord.Entry _ _ ((s.core.modifyJob k _).retryRecord k)
    rw [hwritten]
    exact .prepared _ now draw error allowed fits
  · exact withCore (retryRecord_modifyJob_of_ne _ hk)

theorem pushRetry (job : UUID) : Accounted k s (s.pushRetry job).2 :=
  same rfl (retryRecord_modifyJob (c := s.core)
    (f := fun j => { j with error := none, traceback := none }) (fun _ => rfl) job k)

end Accounted

variable {k job : UUID} {s : Scheduler} {order : IterationOrder UUID}

theorem accounted_completeJob (now : Time) (result : Value) :
    Accounted k s (s.completeJob order now job result).1 := by
  unfold completeJob
  split
  · exact .refl k s
  · have hnoted : Accounted k s (s.withCore (s.core.modifyJob job
        (fun j => { j with result := result, completedAt := some (.utcnow now) }))) :=
      .modifyJob (fun _ => by rfl) job
    simp only
    split
    · exact hnoted
    · rename_i completed hok
      exact hnoted.trans ((Accounted.transition (s := s.withCore _) hok).trans
        ((Accounted.same (by rfl) (by rfl)).trans (.notifyComplete order now job)))

theorem accounted_failJobRetry {error : PyException}
    (allowed : s.retryHandler.shouldRetry (s.core.jobs.get job) (some error) = true)
    (now : Time) (draw : ℚ) : Accounted k s (s.failJobRetry now draw job).1 := by
  unfold failJobRetry
  split
  · exact .refl k s
  · rename_i prepared hraises
    obtain ⟨hfits, rfl⟩ := SchedulerCore.prepareForRetry_ok hraises
    have hprepared := Accounted.prepared (k := k) allowed hfits
    split
    · exact hprepared
    · rename_i retrying hok
      have hretrying := hprepared.trans (.transition (s := s.withCore _) hok)
      split
      · exact hretrying
      · rename_i scheduled hok'
        exact hretrying.trans ((Accounted.transition (s := s.withCore retrying) hok').trans
          ((Accounted.pushRetry job).trans (.same (by rfl) (by rfl))))

theorem accounted_failJobFinally (now : Time) (traceback : String) (error : PyException) :
    Accounted k s (s.failJobFinally now traceback job error).1 := by
  unfold failJobFinally
  split
  · exact .refl k s
  · rename_i failed hok
    have hended : Accounted k s (s.withCore (failed.modifyJob job
        (fun j => { j with completedAt := some (.utcnow now) }))) :=
      (Accounted.transition hok).trans
        (.modifyJob (s := s.withCore failed) (fun _ => by rfl) job)
    refine hended.trans ?_
    simp only
    exact (Accounted.same (by rfl) (by rfl)).trans (.notifyFailed now job error.message)

theorem accounted_failJob (now : Time) (draw : ℚ) (traceback : String) (error : PyException) :
    Accounted k s (s.failJob now draw traceback job error).1 := by
  unfold failJob
  split
  · exact .refl k s
  · have hnoted : Accounted k s (s.withCore (s.core.modifyJob job
        (fun j => { j with error := some error.message, traceback := some traceback }))) :=
      .modifyJob (fun _ => by rfl) job
    simp only
    split
    · rename_i hretry
      exact hnoted.trans (accounted_failJobRetry (s := s.withCore _) hretry now draw)
    · exact hnoted.trans (accounted_failJobFinally (s := s.withCore _) now traceback error)

theorem stepKept_accounted (order : IterationOrder UUID) (k job : UUID) (s : Scheduler) :
    Task.StepKept order job (Accounted k s) where
  transition hok h := h.trans (.transition hok)
  modifyJob _ record h := h.trans (.modifyJob record job)
  count _ _ h := h.trans (.same rfl rfl)
  notifyComplete now h := h.trans (.notifyComplete order now job)
  notifyFailed now error h := h.trans (.notifyFailed now job error)
  pushRetry h := h.trans (.pushRetry job)
  call _ _ h := h.trans (.same rfl rfl)

/-- **A step of `run_job`**, on any job. Where it is another job nothing is entered. -/
theorem accounted_step (input : RunInput) (task : Task) :
    Accounted k s (task.step order input s).1 :=
  (stepKept_accounted order k task.job s).step
    (fun _ _ {_ _} _ _ allowed fits h => h.trans (.prepared allowed fits))
    (fun _ _ _ {_} h => h.trans (.same rfl rfl)) (.refl k s) input

theorem accounted_drive (input : RunInput) (fuel : ℕ) (task : Task) :
    Accounted k s (task.drive order input fuel s).1 := by
  induction fuel generalizing s task with
  | zero => exact .refl k s
  | succ fuel ih =>
    have hstep : Accounted k s (task.step order input s).1 := accounted_step input task
    rw [Task.drive]
    cases heq : task.step order input s with
    | mk s' status =>
      rw [heq] at hstep
      cases status with
      | running next => exact hstep.trans (ih next)
      | returned | raised => exact hstep

theorem accounted_runJob (input : RunInput) (job : UUID) :
    Accounted k s (s.runJob order input job).1 :=
  accounted_drive input 16 { job := job }

/-- **A modifier that leaves the accounts alone.** -/
def Modifier.Plain (modify : Modifier) : Prop := ∀ j, (modify j).1.retryRecord = j.retryRecord

/-- **`requeue`** sets `retry_count` back, or leaves the accounts alone. -/
theorem retryRecord_requeue (now : Time) (identifier : DLQIdentifier)
    (resubmit resetRetryCount : Bool) (resolvedBy : Option String) {modifier : Option Modifier}
    (plain : ∀ modify, modifier = some modify → modify.Plain) :
    let s' := (s.requeue now identifier resubmit resetRetryCount resolvedBy modifier).1
    s'.retryHandler = s.retryHandler
      ∧ (s'.core.retryRecord k = s.core.retryRecord k
        ∨ s'.core.retryRecord k = { s.core.retryRecord k with retryCount := 0 }) := by
  intro s'
  have hplain : ∀ j, ((modifier.getD (fun j => (j, none)) j).1).retryRecord = j.retryRecord := by
    cases modifier with
    | none => exact fun _ => rfl
    | some modify => exact plain modify rfl
  have hreset : ∀ job,
      (resetForRequeue job resetRetryCount modifier s.core).retryRecord k = s.core.retryRecord k
        ∨ (resetForRequeue job resetRetryCount modifier s.core).retryRecord k
          = { s.core.retryRecord k with retryCount := 0 } := by
    intro job
    unfold resetForRequeue
    rw [retryRecord_modifyJob hplain job k]
    by_cases hk : k = job
    · rw [hk]
      unfold retryRecord SchedulerCore.modifyJob
      rw [JobTable.get_modify_self]
      cases resetRetryCount with
      | false => exact Or.inl rfl
      | true => exact Or.inr rfl
    · exact Or.inl (retryRecord_modifyJob_of_ne _ hk)
  have hends : RequeueEnds now identifier resetRetryCount resolvedBy modifier s s' :=
    requeue_ends now identifier resubmit resetRetryCount resolvedBy modifier s
  generalize s' = s' at hends ⊢
  cases hends with
  | notFound => exact ⟨rfl, Or.inl rfl⟩
  | raised entry | takenOut entry => exact ⟨rfl, hreset entry.job⟩
  | submitted entry | refused entry =>
    have hsame : ((resetForRequeue entry.job resetRetryCount modifier s.core).submit
        entry.job).1.retryRecord k
          = (resetForRequeue entry.job resetRetryCount modifier s.core).retryRecord k :=
      (stable_retryRecord k _).submit _ entry.job rfl
    exact ⟨rfl, (hreset entry.job).imp hsame.trans hsame.trans⟩

theorem accounted_requeue (now : Time) (identifier : DLQIdentifier)
    (resubmit resetRetryCount : Bool) (resolvedBy : Option String) {modifier : Option Modifier}
    (plain : ∀ modify, modifier = some modify → modify.Plain) :
    Accounted k s
      (s.requeue now identifier resubmit resetRetryCount resolvedBy modifier).1 := by
  obtain ⟨hhandler, hsame | hreset⟩ := retryRecord_requeue (s := s) (k := k) now identifier resubmit
    resetRetryCount resolvedBy plain
  · exact .same hhandler hsame
  · refine ⟨hhandler, ?_⟩
    rw [hreset]
    exact .single (.reset _)

end Scheduler

/-- The modifiers of `requeue` leave the accounts alone. -/
def SchedulerCall.Plain : SchedulerCall → Prop
  | .requeue _ _ _ _ modifier _ => ∀ modify, modifier = some modify → modify.Plain
  | _ => True

/-- **Every operation**, on any job: those that are plain leave the accounts to `run_job`,
`fail_job` and `requeue`. -/
theorem Scheduler.accounted_perform {order : IterationOrder UUID} {s s' : Scheduler}
    {op : SchedulerCall} (plain : op.Plain) (k : UUID) (taken : s.perform order op = some s') :
    Accounted k s s' := by
  cases op with
  | submit job =>
    cases taken
    exact .same rfl (stable_submit (SchedulerCore.stable_retryRecord k _) job rfl)
  | submitDag g now =>
    cases taken
    refine .same ?_ (stable_submitDag (SchedulerCore.stable_retryRecord k _) order now g rfl)
    unfold submitDag
    split <;> rfl
  | getNextJob now =>
    cases taken
    rcases getNextJob_cases now s with h | h <;> rw [h]
    · exact .refl k s
    · exact .same rfl rfl
  | runJob job input =>
    cases taken
    exact accounted_runJob input job
  | completeJob job result now =>
    cases taken
    exact accounted_completeJob now result
  | failJob job error now draw traceback =>
    cases taken
    exact accounted_failJob now draw traceback error
  | cancelJob job now =>
    cases taken
    exact .same rfl (stable_cancelJob (SchedulerCore.stable_retryRecord k _) now job rfl)
  | cancelDag dagId now =>
    cases taken
    exact .same rfl (stable_cancelDag (SchedulerCore.stable_retryRecord k _) now dagId rfl)
  | requeue identifier resubmit resetRetryCount resolvedBy modifier now =>
    cases taken
    exact accounted_requeue now identifier resubmit resetRetryCount resolvedBy plain
  | discard | resolve | requeueDlqEntry | discardDlqEntry | resolveDlqEntry =>
    cases taken
    exact .same rfl rfl

/-- The modifiers of `requeue` leave the accounts alone. -/
def World.PlainCalls (_ : World) : OperationStep → Prop
  | .call op => op.Plain
  | .start _ _ | .run _ _ => True

/-- **Every step of clients and workers.** -/
theorem World.accounted_operate {order : IterationOrder UUID} {w w' : World} {l : OperationStep}
    (plain : w.PlainCalls l) (k : UUID) (taken : w.operate order l = some w') :
    Scheduler.Accounted k w.sched w'.sched := by
  cases l with
  | call op =>
    obtain ⟨sched, hperform, rfl⟩ := operate_call taken
    exact Scheduler.accounted_perform plain k hperform
  | start worker job =>
    obtain ⟨-, rfl⟩ := operate_start taken
    exact .refl k _
  | run worker input =>
    obtain ⟨task, -, rfl⟩ := operate_run taken
    exact Scheduler.accounted_step input task

end JobOrchestrator
