import JobOrchestrator.Scheduler.Preservation
import JobOrchestrator.Scheduler.RunControl

/-!
# What the operations keep

The operations of the scheduler change what is below the executor in few ways:
`submit` and `cancel_job`, writing to a job, transitions, pushing a job and popping
one. So a property that each of these keeps is kept by each operation, and the
operations need to be looked at once, for all properties – `Kept`. Two kinds of
property are of this form: those of the state of one job, if they survive the
transitions that are made, and those of the queue.
-/

namespace JobOrchestrator

namespace SchedulerCore

/-- **A property that the parts of the operations keep** that take no job out of the queue,
transitions to the given states among them. It is `Kept` without the dequeue. -/
structure Retained (targets : JobState → Prop) (P : SchedulerCore → Prop) : Prop where
  stable : Stable P
  /-- Fields of a job other than its state are assigned. -/
  modifyJob : ∀ c job f, (∀ j : Job, (f j).state = j.state) → P c → P (c.modifyJob job f)
  transition : ∀ c c' job target, targets target → c.transition job target = .ok c' → P c → P c'
  push : ∀ c job, P c → P { c with queue := (c.queue.push (c.jobs.get job)).2 }

/-- **A property that the parts of the operations keep**, transitions to the given states among
them. It is checked part by part, and holds after every operation and every step of `run_job` by
one induction. -/
structure Kept (targets : JobState → Prop) (P : SchedulerCore → Prop) : Prop where
  stable : Stable P
  /-- Fields of a job other than its state are assigned. -/
  modifyJob : ∀ c job f, (∀ j : Job, (f j).state = j.state) → P c → P (c.modifyJob job f)
  transition : ∀ c c' job target, targets target → c.transition job target = .ok c' → P c → P c'
  push : ∀ c job, P c → P { c with queue := (c.queue.push (c.jobs.get job)).2 }
  dequeue : ∀ c now, P c → P { c with queue := (c.queue.dequeue now).2 }

theorem Kept.retained {targets : JobState → Prop} {P : SchedulerCore → Prop}
    (h : Kept targets P) : Retained targets P :=
  ⟨h.stable, h.modifyJob, h.transition, h.push⟩

end SchedulerCore

/-! ## The operations -/

namespace Scheduler

open SchedulerCore

variable {targets : JobState → Prop} {P : SchedulerCore → Prop} {order : IterationOrder UUID}
  {s : Scheduler}

theorem kept_getNextJob (h : Kept targets P) (hs : P s.core) (now : Time) :
    P (s.getNextJob now).2.core := by
  unfold getNextJob
  split
  · exact hs
  · exact h.dequeue _ now hs

section Operations

variable (h : Retained targets P)
include h

theorem retained_pushRetry (hs : P s.core) (job : UUID) : P (s.pushRetry job).2.core :=
  h.push _ job (h.modifyJob _ job _ (fun _ => rfl) hs)

theorem retained_completeJob (completed : targets .completed) (hs : P s.core) (now : Time)
    (job : UUID) (result : Value) : P (s.completeJob order now job result).1.core := by
  unfold completeJob
  split
  · exact hs
  · have hnoted := h.modifyJob _ job
      (fun j => { j with result := result, completedAt := some (.utcnow now) }) (fun _ => rfl) hs
    simp only
    split
    · exact hnoted
    · rename_i core hok
      have hcompleted : P core := h.transition _ _ job _ completed hok hnoted
      exact stable_notifyComplete h.stable order now job (h.stable.stats _ _ hcompleted)

theorem retained_failJobRetry (retrying : targets .retrying) (scheduled : targets .scheduled)
    (hs : P s.core) (now : Time) (draw : ℚ) (job : UUID) :
    P (s.failJobRetry now draw job).1.core := by
  unfold failJobRetry
  split
  · exact hs
  · rename_i prepared hfits
    have hprepared : P prepared := by
      rw [(prepareForRetry_ok hfits).2]
      exact h.modifyJob _ job _ (fun _ => rfl) hs
    split
    · exact hprepared
    · rename_i core hok
      have hretrying := h.transition _ _ job _ retrying hok hprepared
      split
      · exact hretrying
      · rename_i core' hok'
        have hscheduled : P core' := h.transition _ _ job _ scheduled hok' hretrying
        exact h.stable.stats _ _ (retained_pushRetry (s := s.withCore core') h hscheduled job)

theorem retained_failJobFinally (failed : targets .failed) (hs : P s.core) (now : Time)
    (traceback : String) (job : UUID) (error : PyException) :
    P (s.failJobFinally now traceback job error).1.core := by
  unfold failJobFinally
  split
  · exact hs
  · rename_i core hok
    have hended := h.modifyJob _ job (fun j => { j with completedAt := some (.utcnow now) })
      (fun _ => rfl) (h.transition _ _ job _ failed hok hs)
    exact stable_notifyFailed h.stable now job _ (h.stable.stats _ _ hended)

theorem retained_failJob (retrying : targets .retrying) (scheduled : targets .scheduled)
    (failed : targets .failed) (hs : P s.core) (now : Time) (draw : ℚ) (traceback : String)
    (job : UUID) (error : PyException) : P (s.failJob now draw traceback job error).1.core := by
  unfold failJob
  split
  · exact hs
  · have hnoted := h.modifyJob _ job
      (fun j => { j with error := some error.message, traceback := some traceback })
      (fun _ => rfl) hs
    simp only
    split
    · exact retained_failJobRetry (s := s.withCore _) h retrying scheduled hnoted now draw job
    · exact retained_failJobFinally (s := s.withCore _) h failed hnoted now traceback job error

end Operations

/-! ## The steps of a run -/

section Steps

variable (h : Retained targets P) (all : ∀ target, targets target)
include h all

theorem retained_transit (hs : P s.core) (task : Task) (input : RunInput) (target : JobState)
    (next : RunPc) : P (task.transit input target next s).1.core := by
  unfold Task.transit
  split
  · rename_i core hok
    exact h.transition _ _ task.job target (all target) hok hs
  · exact hs

theorem retained_transitOrRaise {after : Scheduler → Scheduler}
    (afterwards : ∀ s, P s.core → P (after s).core) (hs : P s.core) (task : Task)
    (target : JobState) (next : RunPc) :
    P (task.transitOrRaise target next after s).1.core := by
  unfold Task.transitOrRaise
  split
  · rename_i core hok
    exact afterwards (s.withCore core) (h.transition _ _ task.job target (all target) hok hs)
  · exact hs

/-- **A step of `run_job`** keeps it. A step is one of the parts, or several of them. -/
theorem retained_step (hs : P s.core) (input : RunInput) (task : Task) :
    P (task.step order input s).1.core := by
  obtain ⟨job, startedAt, pc⟩ := task
  cases pc with
  | dequeued | checkPending | checkScheduled | checkRunning | checkRetrying | checkCanRun =>
    exact hs
  | toScheduled | toRunning | retryToScheduled => exact retained_transit h all hs _ input _ _
  | invoke => exact h.modifyJob _ job _ (fun _ => rfl) hs
  | handle r =>
    simp only [Task.step]
    split
    · exact h.modifyJob _ job _ (fun _ => rfl) hs
    · have hnoted := h.modifyJob _ job
        (fun j => { j with error := r.error, traceback := r.traceback }) (fun _ => rfl) hs
      split
      · split
        · exact hnoted
        · rename_i prepared hok
          rw [(prepareForRetry_ok hok).2]
          exact h.modifyJob _ job _ (fun _ => rfl) hnoted
      · exact hnoted
  | toCompleted r | toRetrying r | backToScheduled r =>
    exact retained_transitOrRaise h all (fun _ hs => hs) hs _ _ _
  | toFailed r =>
    refine retained_transitOrRaise h all (fun s hs => ?_) hs _ _ _
    exact h.modifyJob _ job _ (fun _ => rfl) hs
  | countCompleted r | countFailed r => exact stable_count h.stable _ hs
  | notifyComplete r => exact stable_notifyComplete h.stable order _ _ hs
  | notifyFailed r => exact stable_notifyFailed h.stable _ _ _ hs
  | push r => exact retained_pushRetry h hs job
  | countRetry pushed r => exact stable_count h.stable _ hs
  | callComplete r | callFailed r => exact hs

/-- Step after step. -/
theorem retained_drive (hs : P s.core) (input : RunInput) (fuel : ℕ) (task : Task) :
    P (task.drive order input fuel s).1.core := by
  induction fuel generalizing s task with
  | zero => exact hs
  | succ fuel ih =>
    have hstep : P (task.step order input s).1.core := retained_step h all hs input task
    rw [Task.drive]
    cases heq : task.step order input s with
    | mk s' status =>
      rw [heq] at hstep
      cases status with
      | running next => exact ih hstep next
      | returned | raised => exact hstep

end Steps

end Scheduler

/-! ## Properties of the state of a job -/

/-- **A property of states survives the transitions to a state.** -/
def Survives (Q : JobState → Prop) (target : JobState) : Prop :=
  ∀ st, Q st → canTransition st target = true → Q target

/-- It survives what `submit` and `cancel_job` do. -/
structure SurvivesClients (Q : JobState → Prop) : Prop where
  scheduled : Survives Q .scheduled
  cancelled : Survives Q .cancelled
  /-- A `submit` that is undone leaves pending what it had scheduled. -/
  undone : ∀ st, Q st → canTransition st .scheduled = true → Q .pending

namespace SchedulerCore

variable {targets : JobState → Prop} {Q : JobState → Prop} {k job : UUID} {c c' : SchedulerCore}

/-- The state of a job has a property. -/
def StateOf (Q : JobState → Prop) (k : UUID) (c : SchedulerCore) : Prop := Q (c.state k)

/-- A write to one state, which has the property if that state had it. -/
theorem StateOf.write (h : c.StateOf Q k) {target : JobState}
    (states : ∀ k, c'.state k = if k = job then target else c.state k)
    (survives : Q (c.state job) → Q target) : c'.StateOf Q k := by
  unfold StateOf
  rw [states]
  split
  · rename_i hk
    exact survives (hk ▸ h)
  · exact h

/-- **Submitting and cancelling keep it.** They bring a job to SCHEDULED, to PENDING or to
CANCELLED, from where that is allowed. -/
theorem stable_stateOf (clients : SurvivesClients Q) (k : UUID) : Stable (StateOf Q k) where
  stats _ _ h := h
  submit c job h := by
    refine submit_elim (fun r hcases => ?_)
    cases hcases with
    | refused | stranded => exact h
    | undone _ _ can _ c' states => exact h.write states (fun hQ => clients.undone _ hQ can)
    | accepted _ _ can _ c' states => exact h.write states (fun hQ => clients.scheduled _ hQ can)
  cancelJob c now job h := by
    refine cancelJob_elim (fun r hcases => ?_)
    cases hcases with
    | unchanged => exact h
    | done _ state c' states =>
      exact h.write states (fun hQ => clients.cancelled _ hQ (canTransition_of_cancellable state))

/-- **The parts of the operations keep it**, if it survives the transitions. -/
theorem kept_stateOf (clients : SurvivesClients Q)
    (survives : ∀ target, targets target → Survives Q target) (k : UUID) :
    Kept targets (StateOf Q k) where
  stable := stable_stateOf clients k
  modifyJob c job f hf h := by
    unfold StateOf
    rw [state_modifyJob hf]
    exact h
  transition c c' job target ht hok h :=
    h.write (state_transition hok) (fun hQ => survives target ht _ hQ (transition_ok hok).1)
  push _ _ h := h
  dequeue _ _ h := h

/-! ## Properties of the queue -/

/-- **What pushing, marking and popping keep**, the operations keep. -/
theorem kept_queue {P : ThreadSafePriorityQueue → Prop}
    (insert : ∀ q job, P q → P (q.insert job)) (remove : ∀ q job, P q → P (q.remove job).2)
    (dequeue : ∀ q now, P q → P (q.dequeue now).2) (targets : JobState → Prop) :
    Kept targets (fun c => P c.queue) where
  stable :=
    { stats _ _ h := h
      submit c job h := by
        refine submit_elim (fun r hcases => ?_)
        cases hcases with
        | refused | stranded => exact h
        | undone _ _ _ _ c' _ _ queue =>
          show P c'.queue
          rw [queue]
          exact h
        | accepted _ _ _ _ c' _ _ queue =>
          obtain ⟨j, -, hqueue⟩ := queue
          show P c'.queue
          rw [hqueue]
          exact insert _ j h
      cancelJob c now job h := by
        refine cancelJob_elim (fun r hcases => ?_)
        cases hcases with
        | unchanged => exact h
        | done _ _ c' _ _ queue =>
          show P c'.queue
          rw [queue]
          exact remove _ job h }
  modifyJob _ _ _ _ h := h
  transition c c' job target _ hok h := by
    show P c'.queue
    rw [queue_transition hok]
    exact h
  push c job h := by
    show P (c.queue.push (c.jobs.get job)).2
    unfold ThreadSafePriorityQueue.push
    split
    · exact h
    · exact insert _ _ h
  dequeue c now h := dequeue _ now h

end SchedulerCore

end JobOrchestrator
