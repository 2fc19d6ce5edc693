import JobOrchestrator.Scheduler.Runner

/-!
# The control of a run

What a step of `run_job` does to the scheduler, said once. Most steps touch
one job object and nothing else – `OwnJob` – and what they do to its state
is an automaton over the program counters, `RunPc.Moves`, in which the
function's outcome and the retry policy are left open. The steps that reach
further are the two reports to the executor and the push of a retry. That
this is all is `Task.step_cases`.

Two tables over the program counters complete the picture: where a worker
still holds its job – `RunPc.holds` – and in which states its job can be
there when nobody but cancellation interferes – `RunPc.states`. The
automaton keeps both.
-/

namespace JobOrchestrator

namespace RunPc

/-- The transitions of `JobRunner.run`, with what follows them. -/
inductive Inner : RunPc → JobState → RunPc → Prop
  | toScheduled : Inner .toScheduled .scheduled .checkScheduled
  | toRunning : Inner .toRunning .running .invoke
  | retryToScheduled : Inner .retryToScheduled .scheduled .toRunning

/-- The transitions of `run_job` itself, with what follows them. -/
inductive Outer : RunPc → JobState → RunPc → Prop
  | toCompleted (r : JobResult) : Outer (.toCompleted r) .completed (.countCompleted r)
  | toRetrying (r : JobResult) : Outer (.toRetrying r) .retrying (.backToScheduled r)
  | backToScheduled (r : JobResult) : Outer (.backToScheduled r) .scheduled (.push r)
  | toFailed (r : JobResult) : Outer (.toFailed r) .failed (.countFailed r)

/-- **The automaton of a run**: from a place and a state of the job to a place, or the end of the
run, and a state. It is read off `run_job` and `JobRunner.run` line by line, so that what a run
can do is settled without the scheduler around it. -/
inductive Moves : RunPc → JobState → Option RunPc → JobState → Prop
  | start (st : JobState) : Moves .dequeued st (some .checkPending) st
  | pending : Moves .checkPending .pending (some .toScheduled) .pending
  | notPending {st : JobState} (h : st ≠ .pending) :
    Moves .checkPending st (some .checkScheduled) st
  | scheduled : Moves .checkScheduled .scheduled (some .toRunning) .scheduled
  | notScheduled {st : JobState} (h : st ≠ .scheduled) :
    Moves .checkScheduled st (some .checkRunning) st
  | running : Moves .checkRunning .running (some .invoke) .running
  | notRunning {st : JobState} (h : st ≠ .running) :
    Moves .checkRunning st (some .checkRetrying) st
  | retrying : Moves .checkRetrying .retrying (some .retryToScheduled) .retrying
  | notRetrying {st : JobState} (h : st ≠ .retrying) :
    Moves .checkRetrying st (some .checkCanRun) st
  | canRun {st : JobState} (h : canTransition st .running = true) :
    Moves .checkCanRun st (some .toRunning) st
  | cannotRun {st : JobState} (h : canTransition st .running = false) :
    Moves .checkCanRun st (some .invoke) st
  | invoked (st : JobState) (r : JobResult) : Moves .invoke st (some (.handle r)) st
  | inner {pc next : RunPc} {st target : JobState} (h : pc.Inner target next)
      (can : canTransition st target = true) : Moves pc st (some next) target
  | innerRefused {pc next : RunPc} {st target : JobState} (h : pc.Inner target next)
      (cannot : canTransition st target = false) (r : JobResult) :
    Moves pc st (some (.handle r)) st
  | handled {r : JobResult} {next : RunPc} (st : JobState)
      (h : next = .toCompleted r ∨ next = .toRetrying r ∨ next = .toFailed r) :
    Moves (.handle r) st (some next) st
  | overflowed (r : JobResult) (st : JobState) : Moves (.handle r) st none st
  | outer {pc next : RunPc} {st target : JobState} (h : pc.Outer target next)
      (can : canTransition st target = true) : Moves pc st (some next) target
  | outerRefused {pc next : RunPc} {st target : JobState} (h : pc.Outer target next)
      (cannot : canTransition st target = false) : Moves pc st none st
  | completedCounted (r : JobResult) (st : JobState) :
    Moves (.countCompleted r) st (some (.notifyComplete r)) st
  | failedCounted (r : JobResult) (st : JobState) :
    Moves (.countFailed r) st (some (.notifyFailed r)) st
  | completed (r : JobResult) (st : JobState) : Moves (.callComplete r) st none st
  | failed (r : JobResult) (st : JobState) : Moves (.callFailed r) st none st
  | retried (pushed : Bool) (r : JobResult) (st : JobState) :
    Moves (.countRetry pushed r) st none st

/-- Whether the worker still holds the job: until a retry is pushed, or the run
ends. -/
def holds : RunPc → Bool
  | countRetry pushed _ => !pushed
  | _ => true

/-- The states a held job can be in. At two places it cannot be in any. -/
def states : RunPc → List JobState
  | dequeued | checkPending | checkScheduled | toRunning => [.scheduled, .cancelled]
  | toScheduled | retryToScheduled => []
  | checkRunning | checkRetrying | checkCanRun => [.cancelled]
  | invoke | handle _ | toCompleted _ | toRetrying _ | toFailed _ => [.running, .cancelled]
  | backToScheduled _ => [.retrying, .cancelled]
  | push _ | countRetry _ _ => [.scheduled, .cancelled]
  | countCompleted _ | notifyComplete _ | callComplete _ => [.completed]
  | countFailed _ | notifyFailed _ | callFailed _ => [.failed]

/-- Where the job is no longer held, the run ends with the next step. -/
theorem Moves.of_not_holds {pc : RunPc} {st st' : JobState} {next : Option RunPc}
    (h : Moves pc st next st') (free : pc.holds = false) : next = none ∧ st' = st := by
  cases h with
  | retried => exact ⟨rfl, rfl⟩
  | inner hpc | innerRefused hpc | outer hpc | outerRefused hpc =>
    cases hpc <;> simp [holds] at free
  | _ => simp [holds] at free

/-- **The automaton keeps to the table of states**, and to held jobs. -/
theorem Moves.states {pc pc' : RunPc} {st st' : JobState} (h : Moves pc st (some pc') st')
    (inside : st ∈ pc.states) : st' ∈ pc'.states ∧ pc'.holds = true := by
  cases h with
  | inner hpc can | innerRefused hpc can | outer hpc can =>
    cases hpc <;> simp_all [RunPc.states, holds]
    all_goals
      rcases inside with rfl | rfl <;> simp_all [canTransition, validTransitions]
  | handled _ hnext =>
    rcases hnext with rfl | rfl | rfl <;> exact ⟨inside, rfl⟩
  | _ => simp_all [RunPc.states, holds, canTransition, validTransitions]

/-- Cancelling a held job does not leave the table. -/
theorem cancelled_mem_states {pc : RunPc} {st : JobState} (inside : st ∈ pc.states)
    (h : SchedulerCore.cancellable st = true) : .cancelled ∈ pc.states := by
  cases pc <;> simp_all [RunPc.states, SchedulerCore.cancellable]

end RunPc

/-! ## What a step does to the scheduler -/

/-- **Only one job object is touched**: the queue, the executor and the states of the other jobs
are as before, and so is the store where the job is in it. Most steps of a run are of this kind,
and all of them up to the result. -/
structure OwnJob (job : UUID) (s s' : Scheduler) : Prop where
  queue : s'.core.queue = s.core.queue
  maxSize : s'.core.maxSize = s.core.maxSize
  store : job ∈ s.core.store → s'.core.store = s.core.store
  others : ∀ k, k ≠ job → s'.core.state k = s.core.state k
  executor : s'.executor = s.executor

namespace OwnJob

variable {job : UUID} {s s' s'' : Scheduler}

theorem refl (job : UUID) (s : Scheduler) : OwnJob job s s :=
  ⟨rfl, rfl, fun _ => rfl, fun _ _ => rfl, rfl⟩

theorem trans (h : OwnJob job s s') (h' : OwnJob job s' s'') : OwnJob job s s'' where
  queue := h'.queue.trans h.queue
  maxSize := h'.maxSize.trans h.maxSize
  store hk := (h'.store (by rwa [h.store hk])).trans (h.store hk)
  others k hk := (h'.others k hk).trans (h.others k hk)
  executor := h'.executor.trans h.executor

theorem modifyJob (job : UUID) (f : Job → Job) (s : Scheduler) :
    OwnJob job s (s.withCore (s.core.modifyJob job f)) :=
  ⟨rfl, rfl, fun _ => rfl, fun _ hk => SchedulerCore.state_modifyJob_of_ne f hk, rfl⟩

theorem count (job : UUID) (f : SchedulerStats → SchedulerStats) (s : Scheduler) :
    OwnJob job s (s.count f) :=
  ⟨rfl, rfl, fun _ => rfl, fun _ _ => rfl, rfl⟩

theorem call (job : UUID) (callbacks : List ℕ) (r : JobResult) (s : Scheduler) :
    OwnJob job s (s.call callbacks job r) :=
  ⟨rfl, rfl, fun _ => rfl, fun _ _ => rfl, rfl⟩

theorem transition {target : JobState} {core : SchedulerCore}
    (h : s.core.transition job target = .ok core) : OwnJob job s (s.withCore core) where
  queue := SchedulerCore.queue_transition h
  maxSize := by
    rw [(SchedulerCore.transition_ok h).2]
    rfl
  store := SchedulerCore.store_transition h
  others k hk := (SchedulerCore.state_transition h k).trans (if_neg hk)
  executor := rfl

end OwnJob

/-- **The push of a retry** leaves the store, the states and the executor alone; the
queue takes the job, or is full. -/
structure Repushed (job : UUID) (s : Scheduler) (r : Bool × Scheduler) : Prop where
  store : r.2.core.store = s.core.store
  states : ∀ k, r.2.core.state k = s.core.state k
  maxSize : r.2.core.maxSize = s.core.maxSize
  executor : r.2.executor = s.executor
  queue : s.core.queue.full = false ∧ r.1 = true
      ∧ (∃ j : Job, j.id = job ∧ r.2.core.queue = s.core.queue.insert j)
    ∨ s.core.queue.full = true ∧ r.1 = false ∧ r.2.core.queue = s.core.queue

theorem repushed (job : UUID) (s : Scheduler) : Repushed job s (s.pushRetry job) where
  store := rfl
  states k := SchedulerCore.state_modifyJob (c := s.core)
    (f := fun j => { j with error := none, traceback := none }) (fun _ => rfl) k
  maxSize := rfl
  executor := rfl
  queue := by
    unfold Scheduler.pushRetry ThreadSafePriorityQueue.push
    cases hfull : s.core.queue.full with
    | true =>
      refine Or.inr ⟨rfl, ?_⟩
      simp [SchedulerCore.modifyJob, Scheduler.withCore, hfull]
    | false =>
      refine Or.inl ⟨rfl, ?_⟩
      simp only [SchedulerCore.modifyJob, Scheduler.withCore, hfull, Bool.false_eq_true, if_false]
      exact ⟨trivial, _, JobTable.id_get _ job, rfl⟩

/-- The task a step goes on with, if the run goes on. -/
def RunStatus.task? : RunStatus → Option Task
  | running task => some task
  | returned _ => none
  | raised _ => none

theorem RunStatus.task?_eq_some {status : RunStatus} {task : Task} :
    status.task? = some task ↔ status = .running task := by
  constructor <;> intro h
  · cases status with
    | running t => exact congrArg running (Option.some.inj h)
    | returned | raised => cases h
  · rw [h]
    rfl

namespace Task

variable {order : IterationOrder UUID} {input : RunInput}

/-- **The retry overflows**: the job has failed and is to be retried, and the delay or the date of
the retry is out of range. -/
def Overflows (task : Task) (input : RunInput) (s : Scheduler) : Prop :=
  ∃ r, task.pc = .handle r ∧ r.success = false
    ∧ s.retryHandler.shouldRetry (s.core.jobs.get task.job)
      (some (.plain (orText r.error "Unknown"))) = true
    ∧ ¬ s.retryHandler.Fits input.handled input.draw (s.core.jobs.get task.job)

/-- **What a step of a run can do.** Only at the last places does a step reach beyond its own
job: to the executor, the queue and the callbacks. -/
inductive Stepped (order : IterationOrder UUID) (input : RunInput) (task : Task) (s : Scheduler) :
    Scheduler × RunStatus → Prop
  /-- It touches its own job, as the automaton says. Where a result is handled, only an overflow
  ends the run. -/
  | own {s' : Scheduler} {status : RunStatus} (own : OwnJob task.job s s')
      (stays : ∀ next, status.task? = some next → next.job = task.job)
      (moves : task.pc.Moves (s.core.state task.job) (status.task?.map Task.pc)
        (s'.core.state task.job))
      (overflows : ∀ r, task.pc = .handle r → status.task? = none → task.Overflows input s) :
    Stepped order input task s (s', status)
  /-- It tells the executor of the completion. -/
  | notifyComplete (r : JobResult) (here : task.pc = .notifyComplete r) :
    Stepped order input task s
      (s.notifyComplete order input.handled task.job, task.goto (.callComplete r))
  /-- It tells the executor of the failure. -/
  | notifyFailed (r : JobResult) (here : task.pc = .notifyFailed r) :
    Stepped order input task s
      (s.notifyFailed input.handled task.job (orText r.error "Unknown error"),
        task.goto (.callFailed r))
  /-- It pushes the retry. -/
  | push (r : JobResult) (here : task.pc = .push r) :
    Stepped order input task s
      ((s.pushRetry task.job).2, task.goto (.countRetry (s.pushRetry task.job).1 r))

/-- A step to another place that leaves the state of the job alone. -/
theorem Stepped.goto {task : Task} {s s' : Scheduler} {pc : RunPc} (own : OwnJob task.job s s')
    (state : s'.core.state task.job = s.core.state task.job)
    (moves : task.pc.Moves (s.core.state task.job) (some pc) (s.core.state task.job)) :
    Stepped order input task s (s', task.goto pc) := by
  refine .own own ?_ ?_ (fun _ _ ends => by cases ends)
  · rintro next ⟨⟩
    rfl
  · rw [state]
    exact moves

theorem transit_cases {task : Task} {target : JobState} {next : RunPc} (s : Scheduler)
    (h : task.pc.Inner target next) :
    Stepped order input task s (task.transit input target next s) := by
  unfold transit
  split
  · rename_i core hok
    refine .own (.transition hok) ?_ ?_ (fun _ _ ends => by cases ends)
    · rintro t ⟨⟩
      rfl
    · rw [show (s.withCore core).core.state task.job = target from
        (SchedulerCore.state_transition hok _).trans (if_pos rfl)]
      exact .inner h (SchedulerCore.transition_ok hok).1
  · rename_i error herror
    exact .goto (.refl _ _) rfl (.innerRefused h (SchedulerCore.transition_error herror) _)

theorem transitOrRaise_cases (task : Task) {target : JobState} {next : RunPc}
    {after : Scheduler → Scheduler} (s : Scheduler) (h : task.pc.Outer target next)
    (own : ∀ s, OwnJob task.job s (after s))
    (state : ∀ s, (after s).core.state task.job = s.core.state task.job) :
    Stepped order input task s (task.transitOrRaise target next after s) := by
  unfold transitOrRaise
  split
  · rename_i core hok
    refine .own ((OwnJob.transition hok).trans (own _)) ?_ ?_ (fun _ _ ends => by cases ends)
    · rintro t ⟨⟩
      rfl
    · rw [state, show (s.withCore core).core.state task.job = target from
        (SchedulerCore.state_transition hok _).trans (if_pos rfl)]
      exact .outer h (SchedulerCore.transition_ok hok).1
  · rename_i error herror
    refine .own (.refl _ _) (fun _ hnext => by cases hnext)
      (.outerRefused h (SchedulerCore.transition_error herror)) (fun r here _ => ?_)
    rw [here] at h
    cases h

/-- The steps that end a run without a result: the test that fails, the transition that is
refused, and the overflow. -/
theorem Stepped.last {task : Task} {s s' : Scheduler} {status : RunStatus}
    (ends : status.task? = none) (own : OwnJob task.job s s')
    (state : s'.core.state task.job = s.core.state task.job)
    (moves : task.pc.Moves (s.core.state task.job) none (s.core.state task.job))
    (overflows : ∀ r, task.pc = .handle r → task.Overflows input s) :
    Stepped order input task s (s', status) := by
  refine .own own (fun _ hnext => ?_) ?_ (fun r here _ => overflows r here)
  · rw [ends] at hnext
    cases hnext
  · rw [ends, state]
    exact moves

/-- **Every step is one of these.** The run invariants go through these cases and not through the
code. -/
theorem step_cases (order : IterationOrder UUID) (input : RunInput) (task : Task)
    (s : Scheduler) : Stepped order input task s (task.step order input s) := by
  obtain ⟨job, startedAt, pc⟩ := task
  have look : ∀ {pc' : RunPc}, pc.Moves (s.core.state job) (some pc') (s.core.state job) →
      Stepped order input ⟨job, startedAt, pc⟩ s (s, Task.goto ⟨job, startedAt, pc⟩ pc') :=
    fun moves => .goto (.refl job s) rfl moves
  cases pc with
  | dequeued =>
    refine .own (.refl job s) ?_ (.start _) (fun r here => by cases here)
    rintro next ⟨⟩
    rfl
  | checkPending =>
    -- the checks read the state and change nothing: only the position moves
    refine look ?_
    split
    · rename_i h
      rw [show s.core.state job = .pending from h]
      exact .pending
    · rename_i h
      exact .notPending h
  | checkScheduled =>
    refine look ?_
    split
    · rename_i h
      rw [show s.core.state job = .scheduled from h]
      exact .scheduled
    · rename_i h
      exact .notScheduled h
  | checkRunning =>
    refine look ?_
    split
    · rename_i h
      exact .notRunning h
    · rename_i h
      rw [not_not] at h
      rw [show s.core.state job = .running from h]
      exact .running
  | checkRetrying =>
    refine look ?_
    split
    · rename_i h
      rw [show s.core.state job = .retrying from h]
      exact .retrying
    · rename_i h
      exact .notRetrying h
  | checkCanRun =>
    refine look ?_
    split
    · rename_i h
      exact .canRun h
    · rename_i h
      exact .cannotRun (Bool.eq_false_iff.mpr h)
  | toScheduled => exact transit_cases s .toScheduled
  | toRunning => exact transit_cases s .toRunning
  | retryToScheduled => exact transit_cases s .retryToScheduled
  | invoke =>
    exact .goto (.modifyJob job _ s) (SchedulerCore.state_modifyJob (fun _ => by rfl) job)
      (.invoked _ _)
  | handle r =>
    -- `result.success`, then a failure that is retried, then one that is not
    unfold step
    simp only
    split
    · exact .goto (.modifyJob job _ s) (SchedulerCore.state_modifyJob (fun _ => by rfl) job)
        (.handled _ (Or.inl rfl))
    · rename_i hfailed
      split
      · rename_i hretry
        split
        · rename_i error herror
          refine .last rfl (.modifyJob job _ s)
            (SchedulerCore.state_modifyJob (fun _ => by rfl) job) (.overflowed r _) ?_
          intro r' here
          cases here
          rw [Bool.not_eq_true] at hfailed
          have hnoted := JobTable.get_modify_self s.core.jobs job
            (fun j => { j with error := r.error, traceback := r.traceback })
          have hpolicy : ((s.core.jobs.modify job (fun j =>
              { j with error := r.error, traceback := r.traceback })).get job).retryPolicy
                = (s.core.jobs.get job).retryPolicy :=
            (congrArg Job.retryPolicy hnoted).trans rfl
          have hattempt : ((s.core.jobs.modify job (fun j =>
              { j with error := r.error, traceback := r.traceback })).get job).attempt
                = (s.core.jobs.get job).attempt :=
            (congrArg Job.attempt hnoted).trans rfl
          have hnot := (SchedulerCore.prepareForRetry_error herror).1
          exact ⟨r, rfl, hfailed,
            (s.retryHandler.shouldRetry_congr hpolicy hattempt _).symm.trans hretry,
            fun hfits => hnot ((s.retryHandler.fits_congr hpolicy hattempt _ _).mpr hfits)⟩
        · rename_i prepared hok
          rw [(SchedulerCore.prepareForRetry_ok hok).2]
          refine .goto ((OwnJob.modifyJob job _ s).trans (OwnJob.modifyJob job _ (s.withCore _)))
            ?_ (.handled _ (Or.inr (Or.inl rfl)))
          exact (SchedulerCore.state_modifyJob (fun _ => by rfl) job).trans
            (SchedulerCore.state_modifyJob (fun _ => by rfl) job)
      · exact .goto (.modifyJob job _ s) (SchedulerCore.state_modifyJob (fun _ => by rfl) job)
          (.handled _ (Or.inr (Or.inr rfl)))
  | toCompleted r =>
    exact transitOrRaise_cases _ s (.toCompleted r) (OwnJob.refl job) (fun _ => rfl)
  | countCompleted r => exact .goto (.count job _ s) rfl (.completedCounted r _)
  | countFailed r => exact .goto (.count job _ s) rfl (.failedCounted r _)
  | toRetrying r => exact transitOrRaise_cases _ s (.toRetrying r) (OwnJob.refl job) (fun _ => rfl)
  | backToScheduled r =>
    exact transitOrRaise_cases _ s (.backToScheduled r) (OwnJob.refl job) (fun _ => rfl)
  | toFailed r =>
    unfold step
    refine transitOrRaise_cases ⟨job, startedAt, .toFailed r⟩ s (.toFailed r) ?_ ?_
    · exact fun s => OwnJob.modifyJob job _ s
    · exact fun s => SchedulerCore.state_modifyJob (c := s.core)
        (f := fun j => { j with completedAt := r.completedAt }) (fun _ => rfl) job
  | notifyComplete r => exact .notifyComplete r rfl
  | notifyFailed r => exact .notifyFailed r rfl
  | push r => exact .push r rfl
  | callComplete r =>
    exact .last rfl (.call job _ r s) rfl (.completed r _) (fun _ here => by cases here)
  | callFailed r =>
    exact .last rfl (.call job _ r s) rfl (.failed r _) (fun _ here => by cases here)
  | countRetry pushed r =>
    exact .last rfl (.count job _ s) rfl (.retried pushed r _) (fun _ here => by cases here)

end Task

end JobOrchestrator
