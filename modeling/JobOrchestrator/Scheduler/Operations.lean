import JobOrchestrator.Scheduler.DeadLettering
import JobOrchestrator.Scheduler.Kept
import JobOrchestrator.Scheduler.Workers

/-!
# Operations and runs, interleaved

The operations that hold the scheduler's lock are one step each. `run_job`, which
holds none, is any number of workers' steps in between, on any jobs. What clients
and workers do that take their jobs from `get_next_job` – `World.step` – is done by
such steps.
-/

namespace JobOrchestrator

/-- Whether the operation is a method of the scheduler. The others are called on its dead
letter queue. -/
def SchedulerCall.ofScheduler : SchedulerCall → Bool
  | .requeue _ _ _ _ _ _ | .discard _ _ _ _ | .resolve _ _ _ _ _ => false
  | _ => true

namespace Scheduler

open SchedulerCore

variable {targets : JobState → Prop} {P : SchedulerCore → Prop} {order : IterationOrder UUID}
  {s s' : Scheduler}

/-- **Every operation of the scheduler** but `get_next_job` keeps what its parts keep that
take no job out of the queue, if `run_job` does, which alone makes a job RUNNING. -/
theorem retained_perform (h : Retained targets P)
    (others : ∀ target, target ≠ .running → targets target) {op : SchedulerCall}
    (runs : ∀ job input, op = .runJob job input → P s.core → P (s.runJob order input job).1.core)
    (hs : P s.core) (own : op.ofScheduler = true) (pops : ∀ now, op ≠ .getNextJob now)
    (taken : s.perform order op = some s') : P s'.core := by
  cases op with
  | submit job =>
    cases taken
    exact stable_submit h.stable job hs
  | submitDag g now =>
    cases taken
    exact stable_submitDag h.stable order now g hs
  | getNextJob now => exact absurd rfl (pops now)
  | runJob job input =>
    cases taken
    exact runs job input rfl hs
  | completeJob job result now =>
    cases taken
    exact retained_completeJob h (others _ (by decide)) hs now job result
  | failJob job error now draw traceback =>
    cases taken
    exact retained_failJob h (others _ (by decide)) (others _ (by decide)) (others _ (by decide))
      hs now draw traceback job error
  | cancelJob job now =>
    cases taken
    exact stable_cancelJob h.stable now job hs
  | cancelDag dagId now =>
    cases taken
    exact stable_cancelDag h.stable now dagId hs
  | requeue | discard | resolve => cases own
  | requeueDlqEntry | discardDlqEntry | resolveDlqEntry =>
    -- a `TypeError`, with nothing done
    cases taken
    exact hs

/-- **Every operation of the scheduler** keeps what its parts keep. -/
theorem kept_perform (h : Kept targets P) (others : ∀ target, target ≠ .running → targets target)
    {op : SchedulerCall}
    (runs : ∀ job input, op = .runJob job input → P s.core → P (s.runJob order input job).1.core)
    (hs : P s.core) (own : op.ofScheduler = true) (taken : s.perform order op = some s') :
    P s'.core := by
  by_cases hpops : ∀ now, op ≠ .getNextJob now
  · exact retained_perform h.retained others runs hs own hpops taken
  · obtain ⟨now, hpop⟩ := not_forall_not.mp hpops
    subst hpop
    cases taken
    exact kept_getNextJob h hs now

end Scheduler

/-- **A step of a run of operations**: an operation, or a call of `run_job`, on any job and by
any worker that is free, or a step of one. An operation is taken as one step; `run_job` is not,
and others come between its steps. -/
inductive OperationStep
  | call (op : SchedulerCall)
  | start (worker : ℕ) (job : UUID)
  | run (worker : ℕ) (input : RunInput)

namespace World

variable {order : IterationOrder UUID} {w w' : World}

/-- **One step.** An operation that raises is a step, too; it leaves whatever it has written. -/
def operate (order : IterationOrder UUID) (w : World) : OperationStep → Option World
  | .call op => (w.sched.perform order op).map w.withSched
  | .start worker job =>
    match w.workers worker with
    | some _ => none
    | none => some (w.assign worker w.sched (some { job := job }))
  | .run worker input => w.step order (.run worker input)

/-- The operations are those of the scheduler. -/
def ThroughScheduler (_ : World) : OperationStep → Prop
  | .call op => op.ofScheduler = true
  | .start _ _ | .run _ _ => True

instance (w : World) : (l : OperationStep) → Decidable (w.ThroughScheduler l)
  | .call op => inferInstanceAs (Decidable (op.ofScheduler = true))
  | .start _ _ | .run _ _ => isTrue trivial

/-- A start assigns the job. -/
theorem operate_start {worker : ℕ} {job : UUID}
    (taken : w.operate order (.start worker job) = some w') :
    w.workers worker = none ∧ w' = w.assign worker w.sched (some { job := job }) := by
  unfold operate at taken
  cases hfree : w.workers worker with
  | some task => simp [hfree] at taken
  | none =>
    simp only [hfree, Option.some.injEq] at taken
    exact ⟨rfl, taken.symm⟩

/-- A call leaves the workers alone, and changes the scheduler as the operation does. -/
theorem operate_call {op : SchedulerCall} (taken : w.operate order (.call op) = some w') :
    ∃ sched, w.sched.perform order op = some sched ∧ w' = w.withSched sched := by
  obtain ⟨sched, hperform, heq⟩ := Option.map_eq_some_iff.mp taken
  exact ⟨sched, hperform, heq.symm⟩

/-- A worker that takes a step of `run_job` has a task. -/
theorem operate_run {worker : ℕ} {input : RunInput}
    (taken : w.operate order (.run worker input) = some w') :
    ∃ task, w.workers worker = some task
      ∧ w' = w.assign worker (task.step order input w.sched).1
        (task.step order input w.sched).2.task? := by
  unfold operate step at taken
  cases has : w.workers worker with
  | none => simp [has] at taken
  | some task =>
    simp only [has, Option.some.injEq] at taken
    exact ⟨task, rfl, taken.symm⟩

/-- **What clients and workers do are operations**: a worker that is handed a job calls
`run_job` with it. -/
theorem operations_of_step {l : WorldStep} (taken : w.step order l = some w') :
    ∃ ls, GuardedRun (operate order) ThroughScheduler w ls w' := by
  have hcall : ∀ (op : SchedulerCall) {sched}, op.ofScheduler = true →
      w.sched.perform order op = some sched →
      GuardedRun (operate order) ThroughScheduler w [.call op] (w.withSched sched) :=
    fun _ _ own hperform => .single own (congrArg (Option.map w.withSched) hperform)
  cases l with
  | submit job => cases taken; exact ⟨_, hcall (.submit job) rfl rfl⟩
  | submitDag g now => cases taken; exact ⟨_, hcall (.submitDag g now) rfl rfl⟩
  | cancelJob job now => cases taken; exact ⟨_, hcall (.cancelJob job now) rfl rfl⟩
  | cancelDag dagId now => cases taken; exact ⟨_, hcall (.cancelDag dagId now) rfl rfl⟩
  | getNextJob worker now =>
    obtain ⟨hfree, rfl⟩ := step_getNextJob taken
    have hpop := hcall (.getNextJob now) rfl rfl
    cases hjob : (w.sched.getNextJob now).1 with
    | none =>
      have hsame : w.assign worker (w.sched.getNextJob now).2 none
          = w.withSched (w.sched.getNextJob now).2 := by
        rw [assign, ← hfree, Function.update_eq_self]
        rfl
      exact ⟨_, hsame ▸ hpop⟩
    | some job =>
      have hstart : (w.withSched (w.sched.getNextJob now).2).operate order (.start worker job)
          = some (w.assign worker (w.sched.getNextJob now).2 (some { job := job })) := by
        show (match w.workers worker with | some _ => none | none => some _) = _
        rw [hfree]
        rfl
      exact ⟨_, hpop.snoc (show ThroughScheduler _ (.start worker job) from trivial) hstart⟩
  | run worker input =>
    exact ⟨_, .single (show w.ThroughScheduler (.run worker input) from trivial) taken⟩

theorem operations_of_run {ok : World → WorldStep → Prop} {ls : List WorldStep}
    (run : GuardedRun (step order) ok w ls w') :
    ∃ ls', GuardedRun (operate order) ThroughScheduler w ls' w' := by
  induction run with
  | nil => exact ⟨[], .nil _⟩
  | snoc _ _ taken ih =>
    obtain ⟨ls, hrun⟩ := ih
    obtain ⟨ls', hstep⟩ := operations_of_step taken
    exact ⟨ls ++ ls', hrun.append hstep⟩

/-- **Every step** but a `get_next_job` keeps what the parts of the operations keep that take
no job out of the queue. -/
theorem retained_operate {targets : JobState → Prop} {P : SchedulerCore → Prop}
    (h : SchedulerCore.Retained targets P) (all : ∀ target, targets target) (hw : P w.sched.core)
    {l : OperationStep} (through : w.ThroughScheduler l)
    (pops : ∀ now, l ≠ .call (.getNextJob now)) (taken : w.operate order l = some w') :
    P w'.sched.core := by
  cases l with
  | call op =>
    obtain ⟨sched, hperform, rfl⟩ := operate_call taken
    exact Scheduler.retained_perform h (fun target _ => all target)
      (fun job input _ hs => Scheduler.retained_drive h all hs input 16 { job := job }) hw through
      (fun now hpop => pops now (congrArg OperationStep.call hpop)) hperform
  | start worker job =>
    obtain ⟨-, rfl⟩ := operate_start taken
    exact hw
  | run worker input =>
    obtain ⟨task, -, rfl⟩ := operate_run taken
    exact Scheduler.retained_step h all hw input task

/-- **Every step keeps** what the parts of the operations keep. -/
theorem kept_operate {targets : JobState → Prop} {P : SchedulerCore → Prop}
    (h : SchedulerCore.Kept targets P) (all : ∀ target, targets target) (hw : P w.sched.core)
    {l : OperationStep} (through : w.ThroughScheduler l) (taken : w.operate order l = some w') :
    P w'.sched.core := by
  by_cases hpops : ∀ now, l ≠ .call (.getNextJob now)
  · exact retained_operate h.retained all hw through hpops taken
  · obtain ⟨now, hpop⟩ := not_forall_not.mp hpops
    subst hpop
    obtain ⟨sched, hperform, rfl⟩ := operate_call taken
    cases hperform
    exact Scheduler.kept_getNextJob h hw now

/-- And so does every run. -/
theorem kept_run {targets : JobState → Prop} {P : SchedulerCore → Prop}
    (h : SchedulerCore.Kept targets P) (all : ∀ target, targets target) (hw : P w.sched.core)
    {ls : List OperationStep} (run : GuardedRun (operate order) ThroughScheduler w ls w') :
    P w'.sched.core :=
  run.invariant (P := fun w => P w.sched.core) hw
    (fun _ _ _ hw through taken => kept_operate h all hw through taken)

end World

end JobOrchestrator
