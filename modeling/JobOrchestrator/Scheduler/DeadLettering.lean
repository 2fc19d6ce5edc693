import JobOrchestrator.Scheduler.Kept
import JobOrchestrator.Scheduler.RunJob
import JobOrchestrator.Util.GuardedRun

/-!
# Dead-lettering

The operations of the scheduler, one after the other, and the entries of
the dead letter queue. A job becomes FAILED through `fail_job` or through
`run_job`, and only the first of them adds an entry. So every job that
became FAILED has a pending entry, until the entry is requeued, discarded
or resolved, in the runs in which no `run_job` fails a job for good –
`SchedulerCall.Reported` says when that is.
-/

namespace JobOrchestrator

/-- **An operation of the scheduler**, with what it reads from outside. The calls of its dead
letter queue are among them. -/
inductive SchedulerCall
  | submit (job : UUID)
  | submitDag (g : DAG) (now : Time)
  | getNextJob (now : Time)
  | runJob (job : UUID) (input : RunInput)
  | completeJob (job : UUID) (result : Value) (now : Time)
  | failJob (job : UUID) (error : PyException) (now : Time) (draw : ℚ) (traceback : String)
  | cancelJob (job : UUID) (now : Time)
  | cancelDag (dagId : UUID) (now : Time)
  | requeue (identifier : DLQIdentifier) (resubmit resetRetryCount : Bool)
      (resolvedBy : Option String) (modifier : Option Scheduler.Modifier) (now : Time)
  | discard (identifier : DLQIdentifier) (notes : String) (resolvedBy : Option String)
      (now : Time)
  | resolve (identifier : DLQIdentifier) (notes : String) (resolvedBy : Option String)
      (keepInHistory : Bool) (now : Time)
  | requeueDlqEntry (entryId : DLQIdentifier) (resetRetryCount : Bool)
      (resolvedBy : Option String)
  | discardDlqEntry (entryId : DLQIdentifier) (notes : String) (resolvedBy : Option String)
  | resolveDlqEntry (entryId : DLQIdentifier) (notes : String) (resolvedBy : Option String)

/-- **Perform an operation**. What it answers or raises is dropped. -/
def Scheduler.perform (order : IterationOrder UUID) (s : Scheduler) :
    SchedulerCall → Option Scheduler
  | .submit job => some (s.submit job).1
  | .submitDag g now => some (s.submitDag order now g).1
  | .getNextJob now => some (s.getNextJob now).2
  | .runJob job input => some (s.runJob order input job).1
  | .completeJob job result now => some (s.completeJob order now job result).1
  | .failJob job error now draw traceback => some (s.failJob now draw traceback job error).1
  | .cancelJob job now => some (s.cancelJob now job).1
  | .cancelDag dagId now => some (s.cancelDag now dagId).1
  | .requeue identifier resubmit resetRetryCount resolvedBy modifier now =>
    some (s.requeue now identifier resubmit resetRetryCount resolvedBy modifier).1
  | .discard identifier notes resolvedBy now =>
    some { s with dlq := (s.dlq.discard now notes resolvedBy identifier).2 }
  | .resolve identifier notes resolvedBy keepInHistory now =>
    some { s with dlq := (s.dlq.resolve now notes resolvedBy keepInHistory identifier).2 }
  | .requeueDlqEntry entryId resetRetryCount resolvedBy =>
    some (s.requeueDlqEntry entryId resetRetryCount resolvedBy).1
  | .discardDlqEntry entryId notes resolvedBy =>
    some (s.discardDlqEntry entryId notes resolvedBy).1
  | .resolveDlqEntry entryId notes resolvedBy =>
    some (s.resolveDlqEntry entryId notes resolvedBy).1

/-! ## Which jobs become FAILED -/

namespace SchedulerCore

/-- The job is not FAILED. -/
def Unfailed (k : UUID) (c : SchedulerCore) : Prop := c.state k ≠ .failed

variable {k job : UUID} {c c' : SchedulerCore}

/-- **Nothing makes a job FAILED but the transition to FAILED.** -/
theorem kept_unfailed (k : UUID) : Kept (· ≠ .failed) (Unfailed k) :=
  kept_stateOf (Q := (· ≠ .failed))
    { scheduled := fun _ _ _ => by decide
      cancelled := fun _ _ _ => by decide
      undone := fun _ _ _ => by decide }
    (fun _ hne _ _ _ => hne) k

theorem stable_unfailed (k : UUID) : Stable (Unfailed k) := (kept_unfailed k).stable

theorem Unfailed.modifyJob (h : c.Unfailed k) (job : UUID) {f : Job → Job}
    (hf : ∀ j, (f j).state = j.state) : (c.modifyJob job f).Unfailed k :=
  (kept_unfailed k).modifyJob c job f hf h

/-- A job for which FAILED is not the target does not become FAILED. -/
theorem Unfailed.transition (h : c.Unfailed k) {target : JobState} (ht : k = job → target ≠ .failed)
    (ok : c.transition job target = .ok c') : c'.Unfailed k := by
  unfold Unfailed
  rw [state_transition ok]
  split
  · rename_i hk
    exact ht hk
  · exact h

/-- Entering a run does not fail a job either: it leads to RUNNING. -/
theorem Unfailed.enter (h : c.Unfailed k) (job : UUID) : (c.enter job).Unfailed k := by
  unfold SchedulerCore.enter
  split
  · show (c.setState job .running).state k ≠ .failed
    rw [state_setState]
    split
    · decide
    · exact h
  · exact h

end SchedulerCore

namespace Scheduler

open SchedulerCore

variable {order : IterationOrder UUID} {s s' : Scheduler} {k : UUID}

/-- A job as `requeue` resets it, and the modifier leaves it. -/
def resetForRequeue (job : UUID) (resetRetryCount : Bool) (modifier : Option Modifier)
    (c : SchedulerCore) : SchedulerCore :=
  (c.modifyJob job (fun j =>
    { j with
      retryCount := if resetRetryCount then 0 else j.retryCount
      state := .pending
      error := none
      traceback := none })).modifyJob job (fun j => (modifier.getD (fun j => (j, none)) j).1)

/-- **The ways `requeue` ends.** -/
inductive RequeueEnds (now : Time) (identifier : DLQIdentifier) (resetRetryCount : Bool)
    (resolvedBy : Option String) (modifier : Option Modifier) (s : Scheduler) : Scheduler → Prop
  | notFound (none : s.dlq.getEntry identifier = none) :
    RequeueEnds now identifier resetRetryCount resolvedBy modifier s s
  /-- The modifier raises: the job is reset, and its entry is where it was. -/
  | raised (entry : DLQEntry) (found : s.dlq.getEntry identifier = some entry) :
    RequeueEnds now identifier resetRetryCount resolvedBy modifier s
      (s.withCore (resetForRequeue entry.job resetRetryCount modifier s.core))
  /-- The job is the caller's. -/
  | takenOut (entry : DLQEntry) (found : s.dlq.getEntry identifier = some entry) :
    RequeueEnds now identifier resetRetryCount resolvedBy modifier s
      { s with
        core := resetForRequeue entry.job resetRetryCount modifier s.core
        dlq := (s.dlq.update (DeadLetterQueue.requeued now resolvedBy entry)).removeEntry
          entry.entryId }
  | submitted (entry : DLQEntry) (found : s.dlq.getEntry identifier = some entry) :
    RequeueEnds now identifier resetRetryCount resolvedBy modifier s
      { s with
        core := ((resetForRequeue entry.job resetRetryCount modifier s.core).submit entry.job).1
        dlq := (s.dlq.update (DeadLetterQueue.requeued now resolvedBy entry)).removeEntry
          entry.entryId }
  /-- The submission is refused: the entry is put back, changed as it is by then. -/
  | refused (entry : DLQEntry) (found : s.dlq.getEntry identifier = some entry) :
    RequeueEnds now identifier resetRetryCount resolvedBy modifier s
      { s with
        core := ((resetForRequeue entry.job resetRetryCount modifier s.core).submit entry.job).1
        dlq := ((s.dlq.update (DeadLetterQueue.requeued now resolvedBy entry)).removeEntry
          entry.entryId).registerEntry (DeadLetterQueue.requeued now resolvedBy entry) }

theorem requeue_ends (now : Time) (identifier : DLQIdentifier) (resubmit resetRetryCount : Bool)
    (resolvedBy : Option String) (modifier : Option Modifier) (s : Scheduler) :
    RequeueEnds now identifier resetRetryCount resolvedBy modifier s
      (s.requeue now identifier resubmit resetRetryCount resolvedBy modifier).1 := by
  unfold requeue
  split
  · rename_i hnone
    exact .notFound hnone
  · rename_i entry hfound
    simp only
    split
    · exact .raised entry hfound
    · split
      · split
        · rename_i submitted _ hsubmit
          rw [show submitted = (Scheduler.submit _ _).1 from (congrArg Prod.fst hsubmit).symm]
          exact .submitted entry hfound
        · rename_i refused _ hsubmit
          rw [show refused = (Scheduler.submit _ _).1 from (congrArg Prod.fst hsubmit).symm]
          exact .refused entry hfound
      · exact .takenOut entry hfound

/-- **A modifier fails no job.** -/
def Spares (modifier : Modifier) : Prop :=
  ∀ j : Job, j.state ≠ .failed → (modifier j).1.state ≠ .failed

theorem unfailed_requeue (h : s.core.Unfailed k) (now : Time) (identifier : DLQIdentifier)
    (resubmit resetRetryCount : Bool) (resolvedBy : Option String) {modifier : Option Modifier}
    (spares : ∀ f, modifier = some f → Spares f) :
    (s.requeue now identifier resubmit resetRetryCount resolvedBy modifier).1.core.Unfailed k := by
  have hmodify : ∀ j : Job, j.state ≠ .failed →
      (modifier.getD (fun j => (j, none)) j).1.state ≠ .failed := by
    cases modifier with
    | none => exact fun _ hj => hj
    | some f => exact spares f rfl
  have hreset : ∀ job, (resetForRequeue job resetRetryCount modifier s.core).Unfailed k := by
    intro job
    unfold Unfailed resetForRequeue
    by_cases hk : k = job
    · -- the job is PENDING when the modifier gets it
      rw [hk, state_modifyJob_self]
      refine hmodify _ ?_
      show state _ job ≠ .failed
      rw [state_modifyJob_self]
      exact fun hfailed => by cases hfailed
    · rw [state_modifyJob_of_ne _ hk, state_modifyJob_of_ne _ hk]
      exact h
  have hends := requeue_ends now identifier resubmit resetRetryCount resolvedBy modifier s
  generalize (s.requeue now identifier resubmit resetRetryCount resolvedBy modifier).1 = s'
    at hends ⊢
  cases hends with
  | notFound => exact h
  | raised entry | takenOut entry => exact hreset entry.job
  | submitted entry | refused entry =>
    exact (stable_unfailed k).submit _ entry.job (hreset entry.job)

/-- **`run_job` fails a job for good**: its function raises an exception which, read
as a plain `Exception`, the policy does not retry, and the job is not in a
terminal state. -/
def FailsForGood (s : Scheduler) (job : UUID) (input : RunInput) : Prop :=
  (s.core.state job).isTerminal = false ∧ ∃ error, input.outcome = .raised error
    ∧ s.retryHandler.shouldRetry (s.core.jobs.get job)
      (some (.plain (Task.orText (some error.message) "Unknown"))) = false

theorem unfailed_handleSuccess (h : s.core.Unfailed k) (now : Time) (job : UUID) (r : JobResult) :
    (s.handleSuccess order now job r).1.core.Unfailed k := by
  unfold handleSuccess
  have hnoted := h.modifyJob job
    (f := fun j => { j with result := r.result, completedAt := r.completedAt }) (fun _ => rfl)
  simp only
  split
  · exact hnoted
  · rename_i completed hok
    have hcompleted : completed.Unfailed k := hnoted.transition (fun _ => by decide) hok
    exact stable_notifyComplete (stable_unfailed k) order now job hcompleted

theorem unfailed_handleRetry (h : s.core.Unfailed k) (now : Time) (draw : ℚ) (job : UUID)
    (r : JobResult) : (s.handleRetry now draw job r).1.core.Unfailed k := by
  unfold handleRetry
  split
  · exact h
  · rename_i prepared hfits
    have hprepared : prepared.Unfailed k := by
      rw [(SchedulerCore.prepareForRetry_ok hfits).2]
      exact h.modifyJob job (fun _ => rfl)
    split
    · exact hprepared
    · rename_i retrying hok
      have hretrying := hprepared.transition (fun _ => by decide) hok
      split
      · exact hretrying
      · rename_i scheduled hok'
        have hscheduled := hretrying.transition (fun _ => by decide) hok'
        exact retained_pushRetry (s := s.withCore scheduled) (kept_unfailed k).retained hscheduled
          job

/-- Where the job is another one, or cannot be made FAILED, it does not become it. -/
theorem unfailed_handleFinally (h : s.core.Unfailed k) (now : Time) {job : UUID} (r : JobResult)
    (cannot : k = job → canTransition (s.core.state job) .failed = false) :
    (s.handleFinally now job r).1.core.Unfailed k := by
  unfold handleFinally
  split
  · exact h
  · rename_i failed hok
    have hcan := (transition_ok hok).1
    have hfailed : failed.Unfailed k := h.transition (fun hk =>
      absurd ((cannot hk).symm.trans hcan) (by decide)) hok
    exact stable_notifyFailed (stable_unfailed k) now job _
      (hfailed.modifyJob job (f := fun j => { j with completedAt := r.completedAt }) (fun _ => rfl))

/-- What the retry policy looks at is not touched by `JobRunner.run`. -/
theorem shouldRetry_execute (input : RunInput) (job : UUID) (s : Scheduler)
    (f : Job → Job) (hf : ∀ j, (f j).retryPolicy = j.retryPolicy ∧ (f j).attempt = j.attempt)
    (error : Option PyException) :
    s.retryHandler.shouldRetry (((s.execute input job).core.modifyJob job f).jobs.get job) error
      = s.retryHandler.shouldRetry (s.core.jobs.get job) error := by
  have hsame : ∀ j : Job, j.retryPolicy = (s.core.jobs.get job).retryPolicy →
      j.attempt = (s.core.jobs.get job).attempt → s.retryHandler.shouldRetry j error
        = s.retryHandler.shouldRetry (s.core.jobs.get job) error :=
    fun j hp ha => Retry.RetryHandler.shouldRetry_congr _ hp ha error
  have hentered : ((s.core.enter job).jobs.get job).retryPolicy
        = (s.core.jobs.get job).retryPolicy
      ∧ ((s.core.enter job).jobs.get job).attempt = (s.core.jobs.get job).attempt := by
    unfold SchedulerCore.enter setState SchedulerCore.modifyJob
    split
    · simp
    · exact ⟨rfl, rfl⟩
  refine hsame _ ?_ ?_
  · unfold execute SchedulerCore.modifyJob withCore
    simp only [JobTable.get_modify_self, (hf _).1]
    exact hentered.1
  · unfold execute SchedulerCore.modifyJob withCore
    simp only [JobTable.get_modify_self, (hf _).2]
    exact hentered.2

/-- **`run_job` does not make a job FAILED, unless it fails it for good.** -/
theorem unfailed_runJob (h : s.core.Unfailed k) {job : UUID} {input : RunInput}
    (reported : ¬ s.FailsForGood job input) :
    (s.runJob order input job).1.core.Unfailed k := by
  rw [runJob_eq]
  have hexecuted : (s.execute input job).core.Unfailed k :=
    (h.enter job).modifyJob job
      (f := fun j => { j with startedAt := some (.utcnow input.started) }) (fun _ => rfl)
  unfold handleResult
  split
  · exact unfailed_handleSuccess hexecuted _ _ _
  · rename_i hfailure
    unfold handleFailure
    have hnoted := hexecuted.modifyJob job (f := fun j => { j with
      error := (resultOf input job).error
      traceback := (resultOf input job).traceback }) (fun _ => rfl)
    simp only
    split
    · exact unfailed_handleRetry hnoted _ _ _ _
    · rename_i hretry
      -- the failure is final, so the job had ended before: FAILED is out of reach
      refine unfailed_handleFinally hnoted _ _ ?_
      rintro -
      cases houtcome : input.outcome with
      | returned value => simp [resultOf, houtcome, Task.success] at hfailure
      | raised error =>
        have herror : (resultOf input job).error = some error.message := by
          simp [resultOf, houtcome, Task.failure]
        have hterminal : (s.core.state job).isTerminal = true := by
          rw [← Bool.not_eq_false]
          intro hactive
          refine reported ⟨hactive, error, houtcome, ?_⟩
          rw [← Bool.not_eq_true, ← herror, ← shouldRetry_execute input job s (fun j => { j with
            error := (resultOf input job).error
            traceback := (resultOf input job).traceback }) (fun _ => ⟨rfl, rfl⟩)]
          exact hretry
        have hstate : ((s.execute input job).core.modifyJob job (fun j => { j with
            error := (resultOf input job).error
            traceback := (resultOf input job).traceback })).state job = s.core.state job :=
          (state_modifyJob (fun _ => by rfl) job).trans
            (state_execute_of_isTerminal hterminal input)
        exact (congrArg (fun st => canTransition st .failed) hstate).trans
          (canTransition_of_isTerminal hterminal _)

/-! ## What the operations do to the dead letter queue -/

theorem dlq_notifyComplete (now : Time) (job : UUID) (s : Scheduler) :
    (s.notifyComplete order now job).dlq = s.dlq := by
  unfold notifyComplete
  split <;> rfl

theorem dlq_notifyFailed (now : Time) (job : UUID) (error : String) (s : Scheduler) :
    (s.notifyFailed now job error).dlq = s.dlq := by
  unfold notifyFailed
  split <;> rfl

theorem dlq_submitDag (g : DAG) (now : Time) (s : Scheduler) :
    (s.submitDag order now g).1.dlq = s.dlq := by
  unfold submitDag
  split <;> rfl

theorem dlq_getNextJob (now : Time) (s : Scheduler) : (s.getNextJob now).2.dlq = s.dlq := by
  unfold getNextJob
  split <;> rfl

theorem dlq_completeJob (now : Time) (job : UUID) (result : Value) (s : Scheduler) :
    (s.completeJob order now job result).1.dlq = s.dlq := by
  unfold completeJob
  split
  · rfl
  · simp only
    split
    · rfl
    · exact dlq_notifyComplete now job _

/-- **`run_job` adds no entry**, whatever becomes of the job. -/
theorem dlq_runJob (job : UUID) (input : RunInput) (s : Scheduler) :
    (s.runJob order input job).1.dlq = s.dlq := by
  rw [runJob_eq]
  unfold handleResult
  split
  · unfold handleSuccess
    simp only
    split
    · rfl
    · exact dlq_notifyComplete _ _ _
  · unfold handleFailure
    simp only
    split
    · unfold handleRetry
      split
      · rfl
      · split
        · rfl
        · split <;> rfl
    · unfold handleFinally
      split
      · rfl
      · exact dlq_notifyFailed _ _ _ _

/-- **`fail_job` either adds an entry of the job, or leaves every job that is not
FAILED so.** -/
theorem failJob_cases (now : Time) (draw : ℚ) (traceback : String) (job : UUID)
    (error : PyException) (s : Scheduler) :
    let s' := (s.failJob now draw traceback job error).1
    s'.dlq = s.dlq ∧ (∀ k, s.core.Unfailed k → s'.core.Unfailed k)
    ∨ (∃ j : Job, j.id = job ∧ s'.dlq = s.dlq.add now j error traceback)
      ∧ ∀ k, k ≠ job → s.core.Unfailed k → s'.core.Unfailed k := by
  intro s'
  have hs' : s' = (s.failJob now draw traceback job error).1 := rfl
  unfold failJob at hs'
  split at hs'
  · exact Or.inl ⟨by rw [hs'], fun k hk => by rw [hs']; exact hk⟩
  · have hnoted : ∀ k, s.core.Unfailed k → (s.core.modifyJob job (fun j =>
        { j with error := some error.message, traceback := some traceback })).Unfailed k :=
      fun k hk => hk.modifyJob job (fun _ => rfl)
    simp only at hs'
    split at hs'
    · -- the retry adds no entry, wherever it is given up
      refine Or.inl ⟨?_, fun k hk => ?_⟩
      · rw [hs']
        unfold failJobRetry
        split
        · rfl
        · split
          · rfl
          · split <;> rfl
      · rw [hs']
        exact retained_failJobRetry (s := s.withCore _) (kept_unfailed k).retained
          (by decide) (by decide) (hnoted k hk) now draw job
    · unfold failJobFinally at hs'
      split at hs'
      · exact Or.inl ⟨by rw [hs']; rfl, fun k hk => by rw [hs']; exact hnoted k hk⟩
      · rename_i failed hok
        let dead := failed.modifyJob job (fun j => { j with completedAt := some (.utcnow now) })
        refine Or.inr ⟨⟨dead.jobs.get job, JobTable.id_get _ job, ?_⟩, fun k hne hk => ?_⟩
        · rw [hs']
          exact dlq_notifyFailed _ _ _ _
        · rw [hs']
          have hfailed : failed.Unfailed k :=
            (hnoted k hk).transition (fun heq => absurd heq hne) hok
          exact stable_notifyFailed (stable_unfailed k) now job _
            (hfailed.modifyJob job (f := fun j => { j with completedAt := some (.utcnow now) })
              (fun _ => rfl))

/-- **`requeue`** touches the entry it finds, if any. It is taken out, and comes back where the
submission raises. -/
theorem touches_requeue (now : Time) (identifier : DLQIdentifier)
    (resubmit resetRetryCount : Bool) (resolvedBy : Option String) (modifier : Option Modifier)
    (s : Scheduler) :
    s.dlq.getEntry identifier = none
        ∧ (s.requeue now identifier resubmit resetRetryCount resolvedBy modifier).1.dlq = s.dlq
      ∨ ∃ entry, s.dlq.getEntry identifier = some entry
        ∧ DeadLetterQueue.Touches entry.entryId s.dlq
          (s.requeue now identifier resubmit resetRetryCount resolvedBy modifier).1.dlq := by
  have htaken : ∀ entry : DLQEntry, DeadLetterQueue.Touches entry.entryId s.dlq
      ((s.dlq.update (DeadLetterQueue.requeued now resolvedBy entry)).removeEntry
        entry.entryId) := fun entry =>
    (DeadLetterQueue.Touches.update (DeadLetterQueue.requeued now resolvedBy entry)
      s.dlq).trans (DeadLetterQueue.Touches.removeEntry _ _)
  have hends := requeue_ends now identifier resubmit resetRetryCount resolvedBy modifier s
  generalize (s.requeue now identifier resubmit resetRetryCount resolvedBy modifier).1 = s'
    at hends ⊢
  cases hends with
  | notFound none => exact Or.inl ⟨none, rfl⟩
  | raised entry found => exact Or.inr ⟨entry, found, .refl _ _⟩
  | takenOut entry found | submitted entry found =>
    exact Or.inr ⟨entry, found, htaken entry⟩
  | refused entry found =>
    exact Or.inr ⟨entry, found, (htaken entry).trans (DeadLetterQueue.Touches.registerEntry
      (DeadLetterQueue.requeued now resolvedBy entry) _)⟩

end Scheduler

namespace SchedulerCall

open SchedulerCore

/-- The entry a dead letter operation is about. -/
def finds (d : DeadLetterQueue) : SchedulerCall → Option DLQEntry
  | requeue identifier _ _ _ _ _ | discard identifier _ _ _ | resolve identifier _ _ _ _ =>
    d.getEntry identifier
  | _ => none

/-- **The condition of the theorem**: no `run_job` fails a job for good, in a run in which the
dead letter queue has room, and no modifier fails a job. `run_job` fails a job without an entry,
and a full queue pushes an older one out: these are the ways in which a failure goes unreported.
-/
structure Reported (s : Scheduler) (op : SchedulerCall) : Prop where
  room : s.dlq.atCapacity = false
  spares : ∀ identifier resubmit resetRetryCount resolvedBy modifier now,
    op = .requeue identifier resubmit resetRetryCount resolvedBy (some modifier) now →
      Scheduler.Spares modifier
  reported : ∀ job input, op = .runJob job input → ¬ s.FailsForGood job input

/-- **What an operation does to the entries and to the jobs that are not FAILED.** It is what the
theorem needs of each operation, and all that it needs. -/
inductive Performed (s : Scheduler) (op : SchedulerCall) (s' : Scheduler) : Prop
  /-- The entries stay, and no job becomes FAILED. -/
  | quiet (dlq : s'.dlq = s.dlq) (unfailed : ∀ k, s.core.Unfailed k → s'.core.Unfailed k)
  /-- One entry is found and touched, and no job becomes FAILED. -/
  | touched (entry : DLQEntry) (found : op.finds s.dlq = some entry)
      (touches : DeadLetterQueue.Touches entry.entryId s.dlq s'.dlq)
      (unfailed : ∀ k, s.core.Unfailed k → s'.core.Unfailed k)
  /-- One job may become FAILED, and an entry of it is added. -/
  | added (job : Job) (error : PyException) (now : Time) (traceback : String)
      (dlq : s'.dlq = s.dlq.add now job error traceback)
      (unfailed : ∀ k, k ≠ job.id → s.core.Unfailed k → s'.core.Unfailed k)

theorem performed {order : IterationOrder UUID} {s s' : Scheduler} {op : SchedulerCall}
    (reported : op.Reported s) (taken : s.perform order op = some s') : Performed s op s' := by
  cases op with
  | submit job =>
    cases taken
    exact .quiet rfl (fun k hk => Scheduler.stable_submit (stable_unfailed k) job hk)
  | submitDag g now =>
    cases taken
    exact .quiet (Scheduler.dlq_submitDag g now s)
      (fun k hk => Scheduler.stable_submitDag (stable_unfailed k) order now g hk)
  | getNextJob now =>
    cases taken
    exact .quiet (Scheduler.dlq_getNextJob now s)
      (fun k hk => Scheduler.kept_getNextJob (kept_unfailed k) hk now)
  | runJob job input =>
    cases taken
    exact .quiet (Scheduler.dlq_runJob job input s)
      (fun k hk => Scheduler.unfailed_runJob hk (reported.reported job input rfl))
  | completeJob job result now =>
    cases taken
    exact .quiet (Scheduler.dlq_completeJob now job result s)
      (fun k hk => Scheduler.retained_completeJob (kept_unfailed k).retained
        (by decide) hk now job result)
  | failJob job error now draw traceback =>
    cases taken
    rcases Scheduler.failJob_cases now draw traceback job error s with
      ⟨hdlq, hunfailed⟩ | ⟨⟨j, rfl, hdlq⟩, hunfailed⟩
    · exact .quiet hdlq hunfailed
    · -- the one operation that dead-letters
      exact .added j error now traceback hdlq hunfailed
  | cancelJob job now =>
    cases taken
    exact .quiet rfl (fun k hk => Scheduler.stable_cancelJob (stable_unfailed k) now job hk)
  | cancelDag dagId now =>
    cases taken
    exact .quiet rfl (fun k hk => Scheduler.stable_cancelDag (stable_unfailed k) now dagId hk)
  | requeue identifier resubmit resetRetryCount resolvedBy modifier now =>
    cases taken
    -- a requeue writes to its job, and its modifier may to others; `Reported` bounds what that one
    -- does
    have hunfailed : ∀ k, s.core.Unfailed k → _ := fun k hk =>
      Scheduler.unfailed_requeue hk now identifier resubmit resetRetryCount resolvedBy
        (fun f hf => reported.spares identifier resubmit resetRetryCount resolvedBy f now
          (hf ▸ rfl))
    rcases Scheduler.touches_requeue now identifier resubmit resetRetryCount resolvedBy modifier
      s with ⟨-, hdlq⟩ | ⟨entry, hfound, htouches⟩
    · exact .quiet hdlq hunfailed
    · exact .touched entry hfound htouches hunfailed
  | discard identifier notes resolvedBy now =>
    cases taken
    rcases DeadLetterQueue.touches_discard now notes resolvedBy identifier s.dlq with
      ⟨-, hdlq⟩ | ⟨entry, hfound, htouches⟩
    · exact .quiet hdlq (fun _ hk => hk)
    · exact .touched entry hfound htouches (fun _ hk => hk)
  | resolve identifier notes resolvedBy keepInHistory now =>
    cases taken
    rcases DeadLetterQueue.touches_resolve now notes resolvedBy keepInHistory identifier s.dlq
      with ⟨-, hdlq⟩ | ⟨entry, hfound, htouches⟩
    · exact .quiet hdlq (fun _ hk => hk)
    · exact .touched entry hfound htouches (fun _ hk => hk)
  | requeueDlqEntry | discardDlqEntry | resolveDlqEntry =>
    cases taken
    exact .quiet rfl (fun _ hk => hk)

end SchedulerCall

namespace Scheduler

variable {order : IterationOrder UUID} {s s' : Scheduler} {op : SchedulerCall}

/-- **The entries stay under their ids.** What is touched stays under its id or goes, and what is
added has a new one. -/
theorem keyed_perform (h : s.dlq.Keyed) (reported : op.Reported s)
    (taken : s.perform order op = some s') : s'.dlq.Keyed := by
  cases SchedulerCall.performed reported taken with
  | quiet dlq => rwa [dlq]
  | touched entry found touches =>
    cases op with
    | requeue | discard | resolve => exact touches.keyed h (h.getEntry found).2
    | _ => cases found
  | added job error now traceback dlq =>
    rw [dlq]
    exact h.add reported.room

/-- **An entry stays as it is**, unless a dead letter operation finds it. -/
theorem get?_perform (h : s.dlq.Keyed) (reported : op.Reported s)
    (taken : s.perform order op = some s') {entry : DLQEntry}
    (stored : s.dlq.entries.get? entry.entryId = some entry)
    (other : ∀ found, op.finds s.dlq = some found → found.entryId ≠ entry.entryId) :
    s'.dlq.entries.get? entry.entryId = some entry := by
  cases SchedulerCall.performed reported taken with
  | quiet dlq => rwa [dlq]
  | touched found hfound touches =>
    rw [touches.others _ (Ne.symm (other found hfound))]
    exact stored
  | added job error now traceback dlq =>
    rw [dlq, DeadLetterQueue.get?_add reported.room,
      if_neg (Nat.ne_of_lt (h _ entry stored).2)]
    exact stored

/-- **Dead-lettering is complete**, in every run in which no `run_job` fails a job for
good: a job that becomes FAILED has a pending entry, which stays until it is
requeued, discarded or resolved. -/
theorem failed_dead_lettered {jobs : JobTable} {maxSize maxEntries : Option ℕ}
    {retryHandler : Retry.RetryHandler} {completeCallbacks failedCallbacks : List ℕ}
    {ls : List SchedulerCall} {k : UUID}
    (run : GuardedRun (perform order) (fun s op => op.Reported s)
      (.new jobs maxSize maxEntries retryHandler completeCallbacks failedCallbacks) ls s)
    (reported : op.Reported s) (taken : s.perform order op = some s')
    (before : s.core.state k ≠ .failed) (after : s'.core.state k = .failed) :
    ∃ entry : DLQEntry, entry.job = k ∧ entry.status = .pending
      ∧ ∀ ls' s'', GuardedRun (perform order) (fun s op => op.Reported s
          ∧ ∀ found, op.finds s.dlq = some found → found.entryId ≠ entry.entryId) s' ls' s'' →
        s''.dlq.entries.get? entry.entryId = some entry := by
  have hkeyed : s.dlq.Keyed := by
    refine run.invariant (P := fun s => s.dlq.Keyed) ?_
      (fun _ _ _ h reported taken => keyed_perform h reported taken)
    intro i e he
    cases he
  cases hperformed : SchedulerCall.performed reported taken with
  | quiet _ unfailed => exact absurd after (unfailed k before)
  | touched _ _ _ unfailed => exact absurd after (unfailed k before)
  | added job error now traceback dlq unfailed =>
    have hk : k = job.id := by
      by_contra hne
      exact unfailed k hne before after
    refine ⟨s.dlq.entryFor now job error traceback, hk.symm, rfl, ?_⟩
    intro ls' s'' onward
    have hinv := onward.invariant (P := fun t => t.dlq.Keyed
        ∧ t.dlq.entries.get? s.dlq.nextId = some (s.dlq.entryFor now job error traceback))
      ⟨keyed_perform hkeyed reported taken, by
        rw [dlq, DeadLetterQueue.get?_add reported.room, if_pos rfl]⟩
      (fun _ _ _ h ok taken => ⟨keyed_perform h.1 ok.1 taken,
        get?_perform h.1 ok.1 taken h.2 ok.2⟩)
    exact hinv.2

/-- A job that is not retried, in a given state. -/
def onlyOnce (state : JobState) : JobTable :=
  JobTable.fresh.modify 1
    (fun j => { j with state := state, retryPolicy := some { maxRetries := 0 } })

/-- A job that is RUNNING is failed by `fail_job`. -/
theorem failed_dead_lettered_failJob :
    ∃ s : Scheduler, s.core.state 1 = .failed ∧ ∃ entry : DLQEntry, entry.job = 1
      ∧ entry.status = .pending ∧ s.dlq.entries.get? entry.entryId = some entry := by
  have hreported : ∀ job,
      (SchedulerCall.submit job).Reported (.new (onlyOnce .running) none none {} [] []) :=
    fun _ => ⟨rfl, fun _ _ _ _ _ _ h => (by cases h), fun _ _ h => by cases h⟩
  have hrun : GuardedRun (perform .increasing) (fun s op => op.Reported s)
      (.new (onlyOnce .running) none none {} [] []) _ _ :=
    .single (hreported 1) (l := .submit 1) rfl
  obtain ⟨entry, hjob, hpending, hstored⟩ := failed_dead_lettered hrun (k := 1)
    ⟨by decide +kernel, fun _ _ _ _ _ _ h => (by cases h), fun _ _ h => by cases h⟩
    (show perform .increasing _ (.failJob 1 (.plain "error") 0 0 "Traceback") = some _ from rfl)
    (by decide +kernel) (by decide +kernel)
  exact ⟨_, by decide +kernel, entry, hjob, hpending, hstored [] _ (.nil _)⟩

/-- **`run_job` fails a job without an entry.** -/
theorem failed_without_entry :
    ∃ s, GuardedRun (perform .increasing) (fun s _ => s.dlq.atCapacity = false)
        (.new (onlyOnce .pending) none none {} [] [])
        [.submit 1, .getNextJob 0, .runJob 1 .raising] s
      ∧ s.core.state 1 = .failed ∧ ∀ entryId, s.dlq.entries.get? entryId = none := by
  have hreplay : (GuardedRun.replay (perform .increasing) (fun s _ => !s.dlq.atCapacity)
      (.new (onlyOnce .pending) none none {} [] [])
      [.submit 1, .getNextJob 0, .runJob 1 .raising]).any
      (fun s => s.core.state 1 = .failed ∧ s.dlq.entries.keys = []) = true := by
    decide +kernel
  obtain ⟨s, run, htest⟩ := GuardedRun.exists_of_replay
    (fun _ _ h => (Bool.not_eq_true' _).mp h) hreplay
  obtain ⟨hfailed, hkeys⟩ := of_decide_eq_true htest
  refine ⟨s, run, hfailed, fun entryId => ?_⟩
  rw [OrderedDict.get?_eq_none_iff, hkeys]
  exact List.not_mem_nil

end Scheduler

end JobOrchestrator
