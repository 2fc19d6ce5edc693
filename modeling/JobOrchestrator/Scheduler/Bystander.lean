import JobOrchestrator.Queue.Waiting
import JobOrchestrator.Scheduler.NoJobLost
import JobOrchestrator.Scheduler.RetryRecord

/-!
# What other jobs' operations leave alone

The operations on other jobs leave a job as it is: its object, whether it is stored, and its
entry in the queue. Where the job is stored, submitting it again is refused, so a DAG it is in
may be submitted, and may release its other jobs. This is said once for every operation and
every step of a worker, as `Scheduler.Spared`.
-/

namespace JobOrchestrator

namespace SchedulerCore

open ThreadSafePriorityQueue

/-- **A job is left alone**, and only other ids move in the queue. The queue may be rearranged by
others meanwhile, but never so as to move an entry of this job. -/
structure Spared (k : UUID) (c c' : SchedulerCore) : Prop where
  job : c'.jobs.get k = c.jobs.get k
  stored : k ∈ c'.store ↔ k ∈ c.store
  queue : Relation.ReflTransGen (OthersMove k) c.queue c'.queue

namespace Spared

variable {k job : UUID} {c c' c'' : SchedulerCore}

theorem refl (k : UUID) (c : SchedulerCore) : Spared k c c := ⟨rfl, Iff.rfl, .refl⟩

theorem trans (h : Spared k c c') (h' : Spared k c' c'') : Spared k c c'' where
  job := h'.job.trans h.job
  stored := h'.stored.trans h.stored
  queue := h.queue.trans h'.queue

theorem state (h : Spared k c c') : c'.state k = c.state k := congrArg Job.state h.job

theorem modifyJob (other : job ≠ k) (f : Job → Job) : Spared k c (c.modifyJob job f) :=
  ⟨JobTable.get_modify_of_ne _ (Ne.symm other) f, Iff.rfl, .refl⟩

theorem setState (other : job ≠ k) (target : JobState) : Spared k c (c.setState job target) :=
  modifyJob other _

theorem transition (other : job ≠ k) {target : JobState}
    (h : c.transition job target = .ok c') : Spared k c c' := by
  rw [(transition_ok h).2]
  refine ⟨(setState (c := c) other target).job, ?_, .refl⟩
  show k ∈ (if c.store.Nonempty then insert job c.store else c.store) ↔ k ∈ c.store
  split
  · exact Finset.mem_insert.trans (or_iff_right (Ne.symm other))
  · exact Iff.rfl

theorem push (other : job ≠ k) :
    Spared k c { c with queue := (c.queue.push (c.jobs.get job)).2 } := by
  refine ⟨rfl, Iff.rfl, ?_⟩
  unfold ThreadSafePriorityQueue.push
  split
  · exact .refl
  · exact .single (.insert _ (fun heq => other ((c.jobs.id_get job).symm.trans heq)))

/-- **`submit`**, of another job, or of any where this one is refused. -/
theorem submit (job : UUID) (h : k ∈ c.store ∨ job ≠ k) : Spared k c (c.submit job).1 := by
  unfold SchedulerCore.submit
  split
  · exact refl k c
  · rename_i hunknown
    have hother : job ≠ k := h.elim (fun stored heq => hunknown (heq ▸ stored)) id
    split
    · exact refl k c
    · have hinserted : Spared k c { c with store := insert job c.store } :=
        ⟨rfl, Finset.mem_insert.trans (or_iff_right (Ne.symm hother)), .refl⟩
      unfold storeAndPush
      split
      · exact hinserted
      · rename_i scheduled hok
        have hscheduled := hinserted.trans (transition hother hok)
        have hpushed := hscheduled.trans (push hother)
        unfold enqueue
        split
        · -- the submission is undone
          refine hscheduled.trans ((setState hother .pending).trans ⟨rfl, ?_, .refl⟩)
          exact Finset.mem_erase.trans (and_iff_right (Ne.symm hother))
        · rename_i queue hpush
          rw [hpush] at hpushed
          exact ⟨hpushed.job, hpushed.stored, hpushed.queue⟩

theorem cancelJob (other : job ≠ k) (now : Time) : Spared k c (c.cancelJob now job).1 := by
  unfold SchedulerCore.cancelJob
  split
  · exact refl k c
  · split
    · exact refl k c
    · have hdequeued : Spared k c { c with queue := (c.queue.remove job).2 } :=
        ⟨rfl, Iff.rfl, .single (.remove job other)⟩
      simp only
      split
      · exact hdequeued
      · rename_i cancelled hok
        exact hdequeued.trans ((transition other hok).trans (modifyJob other _))

/-- **Whatever the executor is told**: it submits jobs, and this one is refused. -/
theorem host_keeps (stored : k ∈ c.store) (now : Time) : (host now).Keeps (Spared k c) where
  submit _ job _ h := h.trans (submit job (Or.inl (h.stored.mpr stored)))
  onDagComplete _ _ _ h := ⟨h.job, h.stored, h.queue⟩
  onDagFailed _ _ _ h := ⟨h.job, h.stored, h.queue⟩

end Spared

end SchedulerCore

namespace Scheduler

open SchedulerCore ThreadSafePriorityQueue

/-- **A job is left alone** by an operation of the scheduler. -/
structure Spared (k : UUID) (s s' : Scheduler) : Prop where
  core : s.core.Spared k s'.core
  running : s'.running = s.running
  retryHandler : s'.retryHandler = s.retryHandler

namespace Spared

variable {k job : UUID} {s s' s'' : Scheduler} {order : IterationOrder UUID}

theorem refl (k : UUID) (s : Scheduler) : Spared k s s := ⟨.refl k _, rfl, rfl⟩

theorem trans (h : Spared k s s') (h' : Spared k s' s'') : Spared k s s'' :=
  ⟨h.core.trans h'.core, h'.running.trans h.running, h'.retryHandler.trans h.retryHandler⟩

theorem withCore {core : SchedulerCore} (h : s.core.Spared k core) : Spared k s (s.withCore core) :=
  ⟨h, rfl, rfl⟩

/-- What is counted, called or dead-lettered is no matter. -/
theorem of_parts (h : Spared k s s') (jobs : s''.core.jobs = s'.core.jobs)
    (store : s''.core.store = s'.core.store) (queue : s''.core.queue = s'.core.queue)
    (running : s''.running = s'.running) (retryHandler : s''.retryHandler = s'.retryHandler) :
    Spared k s s'' where
  core := by
    refine ⟨?_, ?_, ?_⟩
    · rw [jobs]
      exact h.core.job
    · rw [store]
      exact h.core.stored
    · rw [queue]
      exact h.core.queue
  running := running.trans h.running
  retryHandler := retryHandler.trans h.retryHandler

theorem notifyComplete (h : k ∈ s.core.store ∨ s.executor = {}) (order : IterationOrder UUID)
    (now : Time) (job : UUID) : Spared k s (s.notifyComplete order now job) := by
  rcases h with stored | nobody
  · unfold Scheduler.notifyComplete
    split
    · exact refl k s
    · exact ⟨(Spared.host_keeps stored now).onJobComplete order now job s.executor (.refl k _),
        rfl, rfl⟩
  · rw [World.notifyComplete_of_noDags nobody]
    exact refl k s

theorem notifyFailed (h : k ∈ s.core.store ∨ s.executor = {}) (now : Time) (job : UUID)
    (error : String) : Spared k s (s.notifyFailed now job error) := by
  rcases h with stored | nobody
  · unfold Scheduler.notifyFailed
    split
    · exact refl k s
    · exact ⟨(Spared.host_keeps stored now).onJobFailed now job error s.executor (.refl k _),
        rfl, rfl⟩
  · rw [World.notifyFailed_of_noDags nobody]
    exact refl k s

theorem pushRetry (other : job ≠ k) : Spared k s (s.pushRetry job).2 :=
  .withCore ((SchedulerCore.Spared.modifyJob other _).trans (SchedulerCore.Spared.push other))

theorem completeJob (stored : k ∈ s.core.store) (other : job ≠ k) (now : Time) (result : Value) :
    Spared k s (s.completeJob order now job result).1 := by
  unfold Scheduler.completeJob
  split
  · exact refl k s
  · have hnoted := SchedulerCore.Spared.modifyJob (c := s.core) other
      (fun j => { j with result := result, completedAt := some (.utcnow now) })
    simp only
    split
    · exact .withCore hnoted
    · rename_i completed hok
      have hcompleted := hnoted.trans (.transition other hok)
      refine Spared.trans ?_ (.notifyComplete ?_ order now job)
      · exact (Spared.withCore hcompleted).of_parts rfl rfl rfl rfl rfl
      · exact Or.inl (hcompleted.stored.mpr stored)

theorem failJob (stored : k ∈ s.core.store) (other : job ≠ k) (now : Time) (draw : ℚ)
    (traceback : String) (error : PyException) :
    Spared k s (s.failJob now draw traceback job error).1 := by
  unfold Scheduler.failJob
  split
  · exact refl k s
  · have hnoted : Spared k s (s.withCore (s.core.modifyJob job
        (fun j => { j with error := some error.message, traceback := some traceback }))) :=
      .withCore (.modifyJob other _)
    simp only
    generalize s.withCore (s.core.modifyJob job
      (fun j => { j with error := some error.message, traceback := some traceback })) = noted
      at hnoted ⊢
    split
    · unfold failJobRetry
      split
      · exact hnoted
      · rename_i prepared hfits
        have hprepared : SchedulerCore.Spared k noted.core prepared := by
          rw [(SchedulerCore.prepareForRetry_ok hfits).2]
          exact .modifyJob other _
        split
        · exact hnoted.trans (.withCore hprepared)
        · rename_i retrying hok
          have hretrying := hprepared.trans (.transition other hok)
          split
          · exact hnoted.trans (.withCore hretrying)
          · rename_i scheduled hok'
            have hscheduled := hretrying.trans (.transition other hok')
            exact (hnoted.trans ((Spared.withCore hscheduled).trans (.pushRetry other))).of_parts
              rfl rfl rfl rfl rfl
    · unfold failJobFinally
      split
      · exact hnoted
      · rename_i failed hok
        have hfailed := (SchedulerCore.Spared.transition other hok).trans (.modifyJob other
          (fun j => { j with completedAt := some (.utcnow now) }))
        refine Spared.trans ?_ (.notifyFailed ?_ now job error.message)
        · exact (hnoted.trans (.withCore hfailed)).of_parts rfl rfl rfl rfl rfl
        · exact Or.inl (hfailed.stored.mpr (hnoted.core.stored.mpr stored))

/-- What is kept along is whether the reports reach nobody, or find the job stored. -/
theorem stepKept (order : IterationOrder UUID) (other : job ≠ k) (s : Scheduler) :
    Task.StepKept order job
      (fun s' => Spared k s s' ∧ (k ∈ s'.core.store ∨ s'.executor = {})) where
  transition hok h := by
    have hspared := SchedulerCore.Spared.transition other hok
    exact ⟨h.1.trans (.withCore hspared), h.2.imp_left hspared.stored.mpr⟩
  modifyJob f _ h := ⟨h.1.trans (.withCore (.modifyJob other f)), h.2⟩
  count _ _ h := ⟨h.1.trans ((Spared.refl k _).of_parts rfl rfl rfl rfl rfl), h.2⟩
  notifyComplete now h := by
    have hspared := notifyComplete h.2 order now job
    refine ⟨h.1.trans hspared, ?_⟩
    rcases h.2 with stored | nobody
    · exact Or.inl (hspared.core.stored.mpr stored)
    · rw [World.notifyComplete_of_noDags nobody]
      exact Or.inr nobody
  notifyFailed now error h := by
    have hspared := notifyFailed h.2 now job error
    refine ⟨h.1.trans hspared, ?_⟩
    rcases h.2 with stored | nobody
    · exact Or.inl (hspared.core.stored.mpr stored)
    · rw [World.notifyFailed_of_noDags nobody]
      exact Or.inr nobody
  pushRetry h := ⟨h.1.trans (.pushRetry other), h.2⟩
  call _ _ h := ⟨h.1.trans ((Spared.refl k _).of_parts rfl rfl rfl rfl rfl), h.2⟩

/-- **A step of `run_job`** on another job. It works on its own job and, at its end, on the
executor, which submits only jobs that are new to the store. -/
theorem step (h : k ∈ s.core.store ∨ s.executor = {}) {task : Task} (other : task.job ≠ k)
    (input : RunInput) : Spared k s (task.step order input s).1 :=
  ((stepKept order other s).step
    (fun _ _ {_ _} _ _ _ _ h' => ⟨h'.1.trans (.withCore (.modifyJob other _)), h'.2⟩)
    (fun _ _ _ {_} h' => ⟨h'.1.trans ((Spared.refl k _).of_parts rfl rfl rfl rfl rfl), h'.2⟩)
    ⟨.refl k s, h⟩ input).1

theorem drive (stored : k ∈ s.core.store) {task : Task} (other : task.job ≠ k)
    (input : RunInput) (fuel : ℕ) : Spared k s (task.drive order input fuel s).1 := by
  induction fuel generalizing s task with
  | zero => exact .refl k s
  | succ fuel ih =>
    have hstep : Spared k s (task.step order input s).1 := step (Or.inl stored) other input
    rw [Task.drive]
    cases heq : task.step order input s with
    | mk s' status =>
      rw [heq] at hstep
      cases status with
      | running next =>
        have hnext : next.job = task.job :=
          (Task.step_running (show (task.step order input s).2 = _ by rw [heq])).1
        exact hstep.trans (ih (hstep.core.stored.mpr stored) (hnext ▸ other))
      | returned | raised => exact hstep

theorem cancelDag {dagId : UUID}
    (other : ∀ e, s.executor.activeDags.get? dagId = some e → k ∉ e.unfinished) (now : Time) :
    Spared k s (s.cancelDag now dagId).1 where
  core := DAGExecutor.cancelDag_invariant (P := s.core.Spared k) now
    (fun e found job hjob c h => h.trans (.cancelJob (fun heq => other e found (by
      rw [← heq]
      exact hjob)) now))
    (.refl k _)
  running := rfl
  retryHandler := rfl

theorem submitDag (stored : k ∈ s.core.store) (g : DAG) (now : Time) :
    Spared k s (s.submitDag order now g).1 := by
  unfold Scheduler.submitDag
  split
  · exact .refl k s
  · have hstarted := (SchedulerCore.Spared.host_keeps stored now).startDag now (scheduledDag now g)
      s.executor (.refl k _)
    exact ⟨⟨hstarted.job, hstarted.stored, hstarted.queue⟩, rfl, rfl⟩

theorem getNextJob {now : Time} (other : (s.getNextJob now).1 ≠ some k) :
    Spared k s (s.getNextJob now).2 := by
  rcases getNextJob_cases now s with h | h <;> rw [h] at other ⊢
  · exact .refl k s
  · exact .withCore ⟨rfl, Iff.rfl, .single (.dequeue now other)⟩

theorem requeue (stored : k ∈ s.core.store) {identifier : DLQIdentifier}
    (other : ∀ entry, s.dlq.getEntry identifier = some entry → entry.job ≠ k) (now : Time)
    (resubmit resetRetryCount : Bool) (resolvedBy : Option String) (modifier : Option Modifier) :
    Spared k s (s.requeue now identifier resubmit resetRetryCount resolvedBy modifier).1 := by
  have hreset : ∀ entry, s.dlq.getEntry identifier = some entry → SchedulerCore.Spared k s.core
      (resetForRequeue entry.job resetRetryCount modifier s.core) := fun entry found =>
    (SchedulerCore.Spared.modifyJob (other entry found) _).trans (.modifyJob (other entry found) _)
  have hsubmitted : ∀ entry, s.dlq.getEntry identifier = some entry → SchedulerCore.Spared k s.core
      ((resetForRequeue entry.job resetRetryCount modifier s.core).submit entry.job).1 :=
    fun entry found => (hreset entry found).trans
      (.submit entry.job (Or.inl ((hreset entry found).stored.mpr stored)))
  have hends := requeue_ends now identifier resubmit resetRetryCount resolvedBy modifier s
  generalize (s.requeue now identifier resubmit resetRetryCount resolvedBy modifier).1 = s'
    at hends ⊢
  cases hends with
  | notFound => exact .refl k s
  | raised entry found | takenOut entry found => exact ⟨hreset entry found, rfl, rfl⟩
  | submitted entry found | refused entry found => exact ⟨hsubmitted entry found, rfl, rfl⟩

end Spared

end Scheduler

/-- **An operation on other jobs**: it does not name this one, hand it out, cancel it with its
DAG or requeue it. -/
def SchedulerCall.Elsewhere (k : UUID) (s : Scheduler) : SchedulerCall → Prop
  | .getNextJob now => (s.getNextJob now).1 ≠ some k
  | .runJob job _ | .completeJob job _ _ | .failJob job _ _ _ _ | .cancelJob job _ => job ≠ k
  | .cancelDag dagId _ => ∀ e, s.executor.activeDags.get? dagId = some e → k ∉ e.unfinished
  | .requeue identifier _ _ _ _ _ => ∀ entry, s.dlq.getEntry identifier = some entry → entry.job ≠ k
  | _ => True

/-- **Every operation on other jobs** leaves this one alone. -/
theorem Scheduler.spared_perform {order : IterationOrder UUID} {k : UUID} {s s' : Scheduler}
    (stored : k ∈ s.core.store) {op : SchedulerCall} (elsewhere : op.Elsewhere k s)
    (taken : s.perform order op = some s') : Spared k s s' := by
  cases op with
  | submit job =>
    cases taken
    exact .withCore (.submit job (Or.inl stored))
  | submitDag g now =>
    cases taken
    exact .submitDag stored g now
  | getNextJob now =>
    cases taken
    exact .getNextJob elsewhere
  | runJob job input =>
    cases taken
    exact .drive stored (show ({ job := job } : Task).job ≠ k from elsewhere) input 16
  | completeJob job result now =>
    cases taken
    exact .completeJob stored elsewhere now result
  | failJob job error now draw traceback =>
    cases taken
    exact .failJob stored elsewhere now draw traceback error
  | cancelJob job now =>
    cases taken
    exact .withCore (.cancelJob elsewhere now)
  | cancelDag dagId now =>
    cases taken
    exact .cancelDag elsewhere now
  | requeue identifier resubmit resetRetryCount resolvedBy modifier now =>
    cases taken
    exact .requeue stored elsewhere now resubmit resetRetryCount resolvedBy modifier
  | discard | resolve | requeueDlqEntry | discardDlqEntry | resolveDlqEntry =>
    cases taken
    exact (Spared.refl k s).of_parts rfl rfl rfl rfl rfl

end JobOrchestrator
