import JobOrchestrator.Scheduler.RetryStages

/-!
# Others at work on other jobs

A run of everything that can happen to a scheduler, in which one job is left to the workers:
they are handed it by `get_next_job` and take the steps of `run_job` on it. Everything else –
every operation, every call of `run_job`, every other job a worker is handed – is about other
jobs. `World.happens` says what a step of such a run means for the job: nothing, or a worker
is handed it, or its worker takes a step.
-/

namespace JobOrchestrator

/-- **A step of clients, of callers of operations and of workers**: an operation or a step of
`run_job`, or a worker that asks for a job and calls `run_job` with it. Asking for a job and
beginning with it are one step: nobody else can be handed it in between. -/
inductive WorkStep
  | operation (l : OperationStep)
  | getNextJob (worker : ℕ) (now : Time)

namespace World

open Scheduler SchedulerCore ThreadSafePriorityQueue

variable {order : IterationOrder UUID} {k : UUID} {w w' : World} {l : WorkStep}

/-- **One step.** -/
def work (order : IterationOrder UUID) (w : World) : WorkStep → Option World
  | .operation l => w.operate order l
  | .getNextJob worker now => w.step order (.getNextJob worker now)

/-- A worker with a job can take a step. -/
theorem work_run {worker : ℕ} {task : Task} (has : w.workers worker = some task)
    (order : IterationOrder UUID) (input : RunInput) :
    w.work order (.operation (.run worker input)) = some (w.assign worker
      (task.step order input w.sched).1 (task.step order input w.sched).2.task?) := by
  simp only [work, operate, step, has]

/-- A worker without one can ask for one. -/
theorem work_getNextJob {worker : ℕ} (free : w.workers worker = none)
    (order : IterationOrder UUID) (now : Time) :
    w.work order (.getNextJob worker now) = some (w.assign worker (w.sched.getNextJob now).2
      ((w.sched.getNextJob now).1.map (fun job => { job := job }))) := by
  simp only [work, step, free]

/-- **The operations are on other jobs**, and whoever calls `run_job` with a job that no worker
was handed, calls it with another one. -/
def Others (k : UUID) (w : World) : WorkStep → Prop
  | .operation (.call op) => op.Elsewhere k w.sched
  | .operation (.start _ job) => job ≠ k
  | .operation (.run _ _) | .getNextJob _ _ => True

/-- What the queue lacks is not handed out, whatever the time is. -/
theorem not_popped (lacks : w.sched.core.queue.Lacks k) (now : Time) :
    (w.sched.getNextJob now).1 ≠ some k := by
  rcases getNextJob_cases now w.sched with h | h <;> rw [h]
  · exact fun hnone => by cases hnone
  · exact lacks.dequeue_ne now

theorem getNextJob_popped {now : Time} (popped : (w.sched.getNextJob now).1 = some k) :
    (w.sched.core.queue.dequeue now).1 = some k
      ∧ (w.sched.getNextJob now).2
        = w.sched.withCore { w.sched.core with queue := (w.sched.core.queue.dequeue now).2 } := by
  rcases getNextJob_cases now w.sched with h | h <;> rw [h] at popped ⊢
  · cases popped
  · exact ⟨popped, rfl⟩

/-- The worker is at such a place of a run of the job. -/
def isAt (k : UUID) (place : RunPc → Bool) (w : World) (worker : ℕ) : Bool :=
  (w.workers worker).any (fun task => decide (task.job = k) && place task.pc)

/-- **An execution of the job**: its function is called, with this outcome. -/
def execution? (k : UUID) (w : World) : WorkStep → Option Outcome
  | .operation (.run worker input) =>
    if w.isAt k RunPc.calls worker then some input.outcome else none
  | _ => none

/-- **A failure of the job is handled**, at this reading of the clock and with this draw. -/
def failure? (k : UUID) (w : World) : WorkStep → Option (Time × ℚ)
  | .operation (.run worker input) =>
    if w.isAt k RunPc.failing worker then some (input.handled, input.draw) else none
  | _ => none

/-- The job is executed. -/
def executes (k : UUID) (w : World) (l : WorkStep) (_ : World) : Bool := (w.execution? k l).isSome

/-- A retry of the job is counted in `jobs_retried`. -/
def retries (k : UUID) (w : World) (l : WorkStep) (w' : World) : Bool :=
  match l with
  | .operation l => w.makesRetry k l w'
  | .getNextJob _ _ => false

/-- **So many workers are at such a place** of a run of the job. -/
def JobCrew (k : UUID) (place : RunPc → Bool) (n : ℕ) (w : World) : Prop :=
  w.Crew (fun task => decide (task.job = k) && place task.pc) n

theorem isAt_of_has {place : RunPc → Bool} {worker : ℕ} {task : Task}
    (has : w.workers worker = some task) (job : task.job = k) :
    w.isAt k place worker = place task.pc := by
  unfold isAt
  rw [has, Option.any_some, decide_eq_true job]
  rfl

theorem exists_task_of_isAt {place : RunPc → Bool} {worker : ℕ}
    (h : w.isAt k place worker = true) :
    ∃ task, w.workers worker = some task ∧ task.job = k ∧ place task.pc = true := by
  obtain ⟨task, has, hat⟩ := (Option.any_eq_true _ _).mp h
  rw [Bool.and_eq_true, decide_eq_true_eq] at hat
  exact ⟨task, has, hat⟩

theorem isAt_of_other {place : RunPc → Bool} {worker : ℕ}
    (other : ∀ task, w.workers worker = some task → task.job ≠ k) :
    w.isAt k place worker = false := by
  unfold isAt
  cases has : w.workers worker with
  | none => rfl
  | some task =>
    rw [Option.any_some, decide_eq_false (other task has)]
    rfl

/-- A worker goes on with the job. The number goes up or down with whether it is at such a place
before and after. -/
theorem JobCrew.assign {place : RunPc → Bool} {n n' worker : ℕ} {sched : Scheduler}
    {next : Option Task} (h : JobCrew k place n w)
    (count : n' + (w.isAt k place worker).toNat
      = n + ((w.assign worker sched next).isAt k place worker).toNat) :
    JobCrew k place n' (w.assign worker sched next) := by
  refine Crew.assign h (count.trans ?_)
  unfold isAt
  rw [workers_assign_self]

theorem JobCrew.toNat_le {place : RunPc → Bool} {n : ℕ} (h : JobCrew k place n w) (worker : ℕ) :
    (w.isAt k place worker).toNat ≤ n :=
  Crew.toNat_le h worker

/-- A step about other jobs counts no retry of this one. -/
theorem retries_of_unconcerned {l : OperationStep} (h : w.concerns k l = false) (w' : World) :
    w.retries k (.operation l) w' = false := by
  show (w.concerns k l && _) = false
  rw [h]
  rfl

/-- **A settled worker counts a retry** exactly where it is to. -/
theorem retries_of_settled {worker : ℕ} {input : RunInput} {task : Task}
    (has : w.workers worker = some task) (job : task.job = k) (settled : task.pc.settled = true)
    (next : Option Task) :
    w.retries k (.operation (.run worker input))
      (w.assign worker (task.step order input w.sched).1 next) = task.pc.retrying := by
  have hconcerns : w.concerns k (.run worker input) = true := by
    show (w.workers worker).any _ = true
    rw [has]
    exact decide_eq_true job
  show (w.concerns k (.run worker input) && decide
    ((task.step order input w.sched).1.core.stats.jobsRetried ≠ _)) = _
  rw [hconcerns, Bool.true_and]
  cases hpc : task.pc with
  | countRetry pushed r =>
    refine decide_eq_true ?_
    unfold Task.step
    rw [hpc]
    exact Nat.succ_ne_self _
  | countCompleted r | countFailed r | notifyComplete r | callComplete r | notifyFailed r
  | callFailed r =>
    refine decide_eq_false (not_not.mpr (jobsRetried_step (fun pushed r' h => ?_) input))
    rw [hpc] at h
    cases h
  | _ =>
    rw [hpc] at settled
    cases settled

/-- **What a step means for the job.** -/
inductive Happens (order : IterationOrder UUID) (k : UUID) (w : World) : WorkStep → World → Prop
  /-- It is left alone, by others or by a worker that is done with it. -/
  | idle {l : WorkStep} {w' : World} (spared : w.sched.Spared k w'.sched)
      (busy : ∀ i task, task.job = k → task.pc.settled = false →
        (w'.workers i = some task ↔ w.workers i = some task))
      (rests : ∀ i input task, l = .operation (.run i input) → w.workers i = some task →
        task.job = k → task.pc.settled = true)
      (execution : w.execution? k l = none) (failure : w.failure? k l = none)
      (counted : ∀ n, JobCrew k RunPc.retrying n w →
        ∃ n', n' + (w.retries k l w').toNat = n ∧ JobCrew k RunPc.retrying n' w') :
    Happens order k w l w'
  /-- A worker is handed it. -/
  | handedOut {worker : ℕ} {now : Time} (free : w.workers worker = none)
      (popped : (w.sched.getNextJob now).1 = some k) :
    Happens order k w (.getNextJob worker now)
      (w.assign worker (w.sched.getNextJob now).2 (some { job := k }))
  /-- The worker that has it takes a step. -/
  | own {worker : ℕ} {input : RunInput} {task : Task} (has : w.workers worker = some task)
      (job : task.job = k) (unsettled : task.pc.settled = false) :
    Happens order k w (.operation (.run worker input))
      (w.assign worker (task.step order input w.sched).1
        (task.step order input w.sched).2.task?)

/-- **The accounts of the job** are written by its own worker. -/
theorem Happens.accounted (h : w.Happens order k l w') :
    Scheduler.Accounted k w.sched w'.sched := by
  cases h with
  | idle spared => exact .same spared.retryHandler spared.core.retryRecord
  | handedOut free popped =>
    rw [(getNextJob_popped popped).2]
    exact .same rfl rfl
  | @own _ input task => exact Scheduler.accounted_step input task

/-- What is stored stays so. -/
theorem Happens.stored (h : w.Happens order k l w') (stored : k ∈ w.sched.core.store) :
    k ∈ w'.sched.core.store := by
  cases h with
  | idle spared => exact spared.core.stored.mpr stored
  | handedOut free popped =>
    rw [(getNextJob_popped popped).2]
    exact stored
  | @own worker input task has job unsettled =>
    subst job
    by_cases hpush : ∃ r, task.pc = .push r
    · obtain ⟨job, startedAt, pc⟩ := task
      obtain ⟨r, rfl⟩ := hpush
      exact stored
    · obtain ⟨hown, -⟩ : OwnJob task.job w.sched (task.step order input w.sched).1 ∧ _ :=
        Task.own_step unsettled (not_exists.mp hpush) input
      show task.job ∈ (task.step order input w.sched).1.core.store
      rw [hown.store stored]
      exact stored

/-- A worker that has another job, before and after, is no matter. -/
theorem Happens.of_other {worker : ℕ} {sched : Scheduler} {next : Option Task}
    (spared : w.sched.Spared k sched)
    (before : ∀ task, w.workers worker = some task → task.job ≠ k)
    (after : ∀ task, next = some task → task.job ≠ k)
    (runs : ∀ i input, l = .operation (.run i input) → i = worker)
    (execution : w.execution? k l = none) (failure : w.failure? k l = none)
    (retries : w.retries k l (w.assign worker sched next) = false) :
    Happens order k w l (w.assign worker sched next) := by
  have hafter : ∀ task, (w.assign worker sched next).workers worker = some task →
      task.job ≠ k := by
    intro task htask
    rw [workers_assign_self] at htask
    exact after task htask
  refine .idle spared (fun i task hjob _ => ?_) (fun i input task hl htask hjob => ?_) execution
    failure (fun n hcrew => ⟨n, ?_, ?_⟩)
  · by_cases hi : i = worker
    · rw [hi]
      exact iff_of_false (fun h => hafter task h hjob) (fun h => before task h hjob)
    · rw [workers_assign_of_ne hi]
  · exact absurd hjob (before task (runs i input hl ▸ htask))
  · rw [retries]
    rfl
  · refine hcrew.assign ?_
    rw [isAt_of_other before, isAt_of_other hafter]

/-- An operation leaves the workers alone. -/
theorem Happens.of_call {sched : Scheduler} {op : SchedulerCall}
    (spared : w.sched.Spared k sched)
    (retries : w.concerns k (.call op) = false) :
    Happens order k w (.operation (.call op)) (w.withSched sched) := by
  refine .idle spared (fun _ _ _ _ => Iff.rfl) (fun _ _ _ hl => by cases hl) rfl rfl
    (fun n hcrew => ⟨n, ?_, hcrew⟩)
  rw [retries_of_unconcerned retries]
  rfl

/-- **A worker that is done with the job** reports, or counts the retry. -/
theorem Happens.of_settled {worker : ℕ} {task : Task} (stored : k ∈ w.sched.core.store)
    (has : w.workers worker = some task) (job : task.job = k) (settled : task.pc.settled = true)
    (input : RunInput) :
    Happens order k w (.operation (.run worker input)) (w.assign worker
      (task.step order input w.sched).1 (task.step order input w.sched).2.task?) := by
  have hat : ∀ place, w.isAt k place worker = place task.pc := fun place => isAt_of_has has job
  obtain ⟨hspared, hnext⟩ : Scheduler.Spared task.job w.sched (task.step order input w.sched).1
      ∧ _ := Task.settled_step (job ▸ stored) settled input
  refine .idle (job ▸ hspared) (fun i t hjob hbusy => ?_) (fun i _ t hl ht _ => ?_) (if_neg ?_)
    (if_neg ?_) (fun n hcrew => ?_)
  · -- a settled task is not a busy one, before the step and after it
    by_cases hi : i = worker
    · subst hi
      rw [workers_assign_self, has]
      refine iff_of_false (fun h => ?_) (fun h => ?_)
      · rw [(hnext t h).2.1] at hbusy
        cases hbusy
      · cases h
        rw [settled] at hbusy
        cases hbusy
    · rw [workers_assign_of_ne hi]
  · cases hl
    cases has.symm.trans ht
    exact settled
  · rw [hat]
    cases hpc : task.pc <;> first | exact Bool.false_ne_true | (rw [hpc] at settled; cases settled)
  · rw [hat]
    cases hpc : task.pc <;> first | exact Bool.false_ne_true | (rw [hpc] at settled; cases settled)
  · -- the worker was not about to retry the job before the step, and is not after it
    have hafter : (w.assign worker (task.step order input w.sched).1
        (task.step order input w.sched).2.task?).isAt k RunPc.retrying worker = false := by
      unfold isAt
      rw [workers_assign_self]
      cases hstatus : (task.step order input w.sched).2.task? with
      | none => rfl
      | some t =>
        rw [Option.any_some, (hnext t hstatus).2.2]
        exact Bool.and_false _
    have hle := hcrew.toNat_le worker
    rw [retries_of_settled has job settled]
    refine ⟨n - task.pc.retrying.toNat, ?_, hcrew.assign ?_⟩
    · rw [hat] at hle
      omega
    · rw [hafter, hat]
      rw [hat] at hle
      exact Nat.sub_add_cancel hle

/-- **Every step is one of these.** So what is to be shown of all steps is shown of these four.
-/
theorem happens (stored : k ∈ w.sched.core.store) (others : w.Others k l)
    (taken : w.work order l = some w') : w.Happens order k l w' := by
  cases l with
  | getNextJob worker now =>
    obtain ⟨hfree, rfl⟩ := step_getNextJob (show w.step order _ = some w' from taken)
    -- a worker asks for a job: it gets `k`, or another one or none
    by_cases hpopped : (w.sched.getNextJob now).1 = some k
    · rw [hpopped]
      exact .handedOut hfree hpopped
    · refine .of_other (.getNextJob hpopped) (fun task h => ?_) (fun task h => ?_)
        (fun _ _ hl => by cases hl) rfl rfl rfl
      · rw [hfree] at h
        cases h
      · rintro rfl
        obtain ⟨job, hjob, rfl⟩ := Option.map_eq_some_iff.mp h
        exact hpopped hjob
  | operation l =>
    cases l with
    | call op =>
      obtain ⟨sched, hperform, rfl⟩ := operate_call taken
      refine .of_call (Scheduler.spared_perform stored others hperform) ?_
      cases op with
      | failJob job | runJob job => exact decide_eq_false others
      | _ => rfl
    | start worker job =>
      obtain ⟨hfree, rfl⟩ := operate_start (show w.operate order _ = some w' from taken)
      refine .of_other (.refl k _) (fun task h => ?_) (fun task h => ?_)
        (fun _ _ hl => by cases hl) rfl rfl rfl
      · rw [hfree] at h
        cases h
      · cases h
        exact others
    | run worker input =>
      obtain ⟨task, has, rfl⟩ := operate_run taken
      -- a step of `run_job`: at `k` with its outcome open, at `k` with it settled, or at another
      -- job
      by_cases hjob : task.job = k
      · cases hsettled : task.pc.settled with
        | false => exact .own has hjob hsettled
        | true => exact .of_settled stored has hjob hsettled input
      · have hother : ∀ t, w.workers worker = some t → t.job ≠ k := by
          intro t ht
          rw [has] at ht
          cases ht
          exact hjob
        refine .of_other (.step (Or.inl stored) hjob input) hother (fun t ht => ?_)
          (fun _ _ hl => by cases hl; rfl) ?_ ?_ ?_
        · rw [(Task.step_running (RunStatus.task?_eq_some.mp ht)).1]
          exact hjob
        · exact if_neg (by rw [isAt_of_other hother]; exact Bool.false_ne_true)
        · exact if_neg (by rw [isAt_of_other hother]; exact Bool.false_ne_true)
        · refine retries_of_unconcerned ?_ _
          show (w.workers worker).any _ = false
          rw [has]
          exact decide_eq_false hjob

end World

end JobOrchestrator
