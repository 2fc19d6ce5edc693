import JobOrchestrator.Scheduler.TerminalStates

/-!
# How many jobs of a DAG run at once

A DAG has a field `max_parallel`, the "Maximum number of jobs to run in
parallel", and `with_max_parallel` sets it. Neither the executor, which queues
every job that is ready, nor `get_next_job` or `run_job` reads it: as many jobs
run as there are workers.

What does bound the number is who calls `run_job`, since the one transition to
RUNNING is in `JobRunner.run`. Every way out of a run leaves RUNNING first, but
for one: a retry that overflows ends the run with its job RUNNING. A job is in
progress where a worker is inside a run of it, or where it is RUNNING, and the
limit is kept by workers that themselves start no further job of the DAG while
so many are in progress.
-/

namespace JobOrchestrator

/-! ## A job is RUNNING inside a run of it -/

namespace RunPc

/-- **Inside the run**: the places of a worker up to the transition that takes the job out
of RUNNING again. -/
def inside : RunPc → Bool
  | countCompleted _ | notifyComplete _ | callComplete _ | backToScheduled _ | push _
  | countRetry _ _ | countFailed _ | notifyFailed _ | callFailed _ => false
  | _ => true

/-- There is no way back inside: a run that has left the function does not come to it again. -/
theorem Moves.inside_of_next {pc next : RunPc} {st st' : JobState}
    (h : Moves pc st (some next) st') (inside : next.inside = true) : pc.inside = true := by
  cases h with
  | inner hpc | innerRefused hpc | outer hpc =>
    cases hpc <;> first | rfl | exact inside
  | completedCounted | failedCounted => cases inside
  | _ => rfl

/-- **A job that is RUNNING after a step** is so inside the run, or was so before. -/
theorem Moves.inside_of_running {pc : RunPc} {st st' : JobState} {next : Option RunPc}
    (h : Moves pc st next st') (running : st' = .running) :
    (∃ pc', next = some pc' ∧ pc'.inside = true) ∨ st = .running := by
  cases h with
  | inner hpc => cases hpc <;> exact Or.inl ⟨_, rfl, rfl⟩
  | outer hpc =>
    -- these transitions do not lead to RUNNING
    cases hpc <;> cases running
  | _ => exact Or.inr running

end RunPc

/-- Nothing but the transition to RUNNING makes a job RUNNING. -/
theorem survives_ne_running {target : JobState} (h : target ≠ .running) :
    Survives (· ≠ .running) target :=
  fun _ _ _ => h

theorem survivesClients_ne_running : SurvivesClients (· ≠ .running) where
  scheduled := survives_ne_running (by decide)
  cancelled := survives_ne_running (by decide)
  undone _ _ _ := by decide

namespace Scheduler

open SchedulerCore

variable {order : IterationOrder UUID} {s s' : Scheduler} {k : UUID}

/-- But for the transition to RUNNING, the parts of the operations make no job RUNNING. -/
theorem kept_notRunning (k : UUID) : Kept (· ≠ .running) (StateOf (· ≠ .running) k) :=
  kept_stateOf survivesClients_ne_running (fun _ h => survives_ne_running h) k

/-- **A job that is RUNNING after a step of a run** is inside it, or was RUNNING before. -/
theorem running_of_stepped {input : RunInput} {task : Task} {r : Scheduler × RunStatus}
    (stepped : Task.Stepped order input task s r) (running : r.1.core.state k = .running) :
    (∃ next, r.2.task? = some next ∧ next.job = k ∧ task.job = k ∧ next.pc.inside = true)
      ∨ s.core.state k = .running := by
  have hreport : ∀ {sched : Scheduler},
      (s.core.StateOf (· ≠ .running) k → sched.core.StateOf (· ≠ .running) k) →
      sched.core.state k = .running → s.core.state k = .running :=
    fun kept hrunning => by_contra (fun hne => kept hne hrunning)
  cases stepped with
  | @own s' status own stays moves =>
    by_cases hk : k = task.job
    · subst hk
      refine (moves.inside_of_running running).imp_left ?_
      rintro ⟨pc, hnext, hinside⟩
      obtain ⟨next, htask, rfl⟩ := Option.map_eq_some_iff.mp hnext
      exact ⟨next, htask, stays next htask, rfl, hinside⟩
    · exact Or.inr ((own.others k hk).symm.trans running)
  | notifyComplete r here =>
    exact Or.inr (hreport (stable_notifyComplete (kept_notRunning k).stable order _ _) running)
  | notifyFailed r here =>
    exact Or.inr (hreport (stable_notifyFailed (kept_notRunning k).stable _ _ _) running)
  | push r here =>
    exact Or.inr (hreport
      (fun h => retained_pushRetry (kept_notRunning k).retained h task.job) running)

/-- **A run makes no other job RUNNING** than its own. -/
theorem running_of_drive {input : RunInput} {fuel : ℕ} {task : Task}
    (running : (task.drive order input fuel s).1.core.state k = .running) :
    task.job = k ∨ s.core.state k = .running := by
  induction fuel generalizing s task with
  | zero => exact Or.inr running
  | succ fuel ih =>
    have hstep := Task.step_cases order input task s
    have hsame : ∀ next, (task.step order input s).2 = .running next → next.job = task.job :=
      fun _ hnext => (Task.step_running hnext).1
    rw [Task.drive] at running
    revert running hstep hsame
    generalize task.step order input s = r
    obtain ⟨s', status⟩ := r
    intro running hstep hsame
    have hbefore : s'.core.state k = .running → task.job = k ∨ s.core.state k = .running := by
      intro hrunning
      refine (running_of_stepped hstep hrunning).imp_left ?_
      rintro ⟨-, -, -, hjob, -⟩
      exact hjob
    cases status with
    | running next =>
      rcases ih running with hjob | hrunning
      · exact Or.inl ((hsame next rfl).symm.trans hjob)
      · exact hbefore hrunning
    | returned | raised => exact hbefore running

/-- **No operation of the scheduler makes a job RUNNING** that was not, but a call of
`run_job` on it. -/
theorem running_of_perform {op : SchedulerCall} (own : op.ofScheduler = true)
    (taken : s.perform order op = some s') (running : s'.core.state k = .running) :
    (∃ input, op = .runJob k input) ∨ s.core.state k = .running := by
  by_contra hnot
  obtain ⟨hcall, hbefore⟩ := not_or.mp hnot
  refine kept_perform (kept_notRunning k) (fun _ h => h) (fun job input hop _ hrunning => ?_)
    hbefore own taken running
  rcases running_of_drive hrunning with hjob | hwas
  · exact hcall ⟨input, hop.trans (congrArg (SchedulerCall.runJob · input) hjob)⟩
  · exact hbefore hwas

end Scheduler

/-! ## The jobs in the workers' hands -/

namespace World

variable {order : IterationOrder UUID} {w w' : World} {k : UUID} {g : DAG}

/-- **A job in progress**: it has not ended, and it is RUNNING or some worker is inside a run
of it. -/
def InProgress (w : World) (k : UUID) : Prop :=
  (w.sched.core.state k).isTerminal = false
    ∧ (w.sched.core.state k = .running
      ∨ ∃ worker task, w.workers worker = some task ∧ task.job = k ∧ task.pc.inside = true)

/-- A job that is RUNNING is in progress, whoever runs it. -/
theorem inProgress_of_running (h : w.sched.core.state k = .running) : w.InProgress k :=
  ⟨by rw [h]; rfl, Or.inl h⟩

open Classical in
/-- The jobs of a DAG in progress. -/
noncomputable def inProgress (g : DAG) (w : World) : Finset UUID :=
  g.jobs.toFinset.filter (fun k => w.InProgress k)

/-- The jobs of a DAG that are RUNNING. -/
def runningOf (g : DAG) (w : World) : Finset UUID :=
  g.jobs.toFinset.filter (fun k => w.sched.core.state k = .running)

theorem mem_inProgress : k ∈ w.inProgress g ↔ k ∈ g.jobs ∧ w.InProgress k := by
  classical
  rw [inProgress, Finset.mem_filter, List.mem_toFinset]

theorem mem_runningOf : k ∈ w.runningOf g ↔ k ∈ g.jobs ∧ w.sched.core.state k = .running := by
  rw [runningOf, Finset.mem_filter, List.mem_toFinset]

/-- The job that `run_job` is called on, step by step or as one operation. -/
def called? : OperationStep → Option UUID
  | .start _ job => some job
  | .call (.runJob job _) => some job
  | _ => none

/-- **The condition**: `run_job` is called on a job of the DAG that has not ended and is not
in progress only while fewer jobs of the DAG are in progress than its limit. -/
def Sparing (g : DAG) (w : World) (l : OperationStep) : Prop :=
  w.ThroughScheduler l ∧ ∀ limit, g.maxParallel = some limit → ∀ job, called? l = some job →
    job ∈ g.jobs → (w.sched.core.state job).isTerminal = false → ¬ w.InProgress job →
    (w.inProgress g).card < limit

/-- **A job that comes to be in progress was called** in this step. -/
theorem InProgress.of_operate {l : OperationStep} (through : w.ThroughScheduler l)
    (taken : w.operate order l = some w') (h : w'.InProgress k) :
    w.InProgress k ∨ called? l = some k := by
  obtain ⟨hopen, hprogress⟩ := h
  have hopen' : (w.sched.core.state k).isTerminal = false := by
    refine Bool.eq_false_iff.mpr (fun hterminal => ?_)
    have hrests := rests_operate hterminal rfl through taken
    exact absurd (hopen.symm.trans ((congrArg JobState.isTerminal hrests).trans hterminal))
      (by decide)
  cases l with
  | call op =>
    obtain ⟨sched, hperform, rfl⟩ := operate_call taken
    rcases hprogress with hrunning | hworker
    · rcases Scheduler.running_of_perform through hperform hrunning with ⟨input, rfl⟩ | hwas
      · exact Or.inr rfl
      · exact Or.inl (inProgress_of_running hwas)
    · exact Or.inl ⟨hopen', Or.inr hworker⟩
  | start i job =>
    obtain ⟨-, rfl⟩ := operate_start taken
    rcases hprogress with hrunning | ⟨worker, task, has, hjob, hinside⟩
    · exact Or.inl (inProgress_of_running hrunning)
    · rcases workers_assign has with ⟨-, hnew⟩ | ⟨-, hold⟩
      · cases hnew
        exact Or.inr (congrArg some hjob)
      · exact Or.inl ⟨hopen', Or.inr ⟨worker, task, hold, hjob, hinside⟩⟩
  | run i input =>
    obtain ⟨before, r, hbefore, hstep, rfl⟩ := step_run taken
    -- a worker that is inside after its step was so before
    have hback : ∀ {next : Task}, r.2.task? = some next → next.job = k →
        next.pc.inside = true → w.InProgress k := by
      intro next hnext hjob hinside
      refine ⟨hopen', Or.inr ⟨i, before, hbefore, ?_⟩⟩
      cases hstep with
      | own own stays moves =>
        rw [hnext] at moves
        exact ⟨(stays next hnext).symm.trans hjob, moves.inside_of_next hinside⟩
      | notifyComplete | notifyFailed | push =>
        cases hnext
        cases hinside
    rcases hprogress with hrunning | ⟨worker, task, has, hjob, hinside⟩
    · rcases Scheduler.running_of_stepped hstep hrunning with ⟨next, hnext, hjob, -, hinside⟩ | hwas
      · exact Or.inl (hback hnext hjob hinside)
      · exact Or.inl (inProgress_of_running hwas)
    · rcases workers_assign has with ⟨-, hnext⟩ | ⟨-, hold⟩
      · exact Or.inl (hback hnext hjob hinside)
      · exact Or.inl ⟨hopen', Or.inr ⟨worker, task, hold, hjob, hinside⟩⟩

/-- **A step that meets the condition keeps to the limit.** -/
theorem card_inProgress_step {limit : ℕ} (hlimit : g.maxParallel = some (limit : ℤ))
    {l : OperationStep} (h : (w.inProgress g).card ≤ limit) (sparing : w.Sparing g l)
    (taken : w.operate order l = some w') : (w'.inProgress g).card ≤ limit := by
  by_cases hnew : w'.inProgress g ⊆ w.inProgress g
  · exact (Finset.card_le_card hnew).trans h
  · obtain ⟨job, hjob, hfresh⟩ := Finset.not_subset.mp hnew
    rw [mem_inProgress] at hjob hfresh
    have hnot : ¬ w.InProgress job := fun hin => hfresh ⟨hjob.1, hin⟩
    rcases hjob.2.of_operate sparing.1 taken with hin | hcalled
    · exact absurd hin hnot
    · have hopen : (w.sched.core.state job).isTerminal = false := by
        refine Bool.eq_false_iff.mpr (fun hterminal => ?_)
        have hrests := rests_operate hterminal rfl sparing.1 taken
        exact absurd (hjob.2.1.symm.trans ((congrArg JobState.isTerminal hrests).trans hterminal))
          (by decide)
      have hroom : ((w.inProgress g).card : ℤ) < limit :=
        sparing.2 limit hlimit job hcalled hjob.1 hopen hnot
      have hsub : w'.inProgress g ⊆ insert job (w.inProgress g) := by
        intro k hk
        rw [mem_inProgress] at hk
        rw [Finset.mem_insert, mem_inProgress]
        rcases hk.2.of_operate sparing.1 taken with hin | hcalled'
        · exact Or.inr ⟨hk.1, hin⟩
        · exact Or.inl (Option.some.inj (hcalled'.symm.trans hcalled))
      calc (w'.inProgress g).card
          ≤ (insert job (w.inProgress g)).card := Finset.card_le_card hsub
        _ ≤ (w.inProgress g).card + 1 := Finset.card_insert_le job _
        _ ≤ limit := by omega

/-- **The limit is kept**, in every run of operations of the scheduler and steps of
`run_job`, by any number of workers, that meets the condition. -/
theorem running_le_maxParallel {jobs : JobTable} {maxSize maxEntries : Option ℕ}
    {retryHandler : Retry.RetryHandler} {completeCallbacks failedCallbacks : List ℕ}
    {limit : ℕ} (hlimit : g.maxParallel = some (limit : ℤ))
    (idle : ∀ k ∈ g.jobs, (jobs.get k).state ≠ .running) {ls : List OperationStep}
    (run : GuardedRun (operate order) (Sparing g)
      (init (.new jobs maxSize maxEntries retryHandler completeCallbacks failedCallbacks)) ls w) :
    (w.runningOf g).card ≤ limit := by
  have hinit : ∀ k ∈ g.jobs, ¬ (init (.new jobs maxSize maxEntries retryHandler
      completeCallbacks failedCallbacks)).InProgress k := by
    rintro k hk ⟨-, hrunning | ⟨worker, task, has, -⟩⟩
    · exact idle k hk hrunning
    · cases has
  have hbound : (w.inProgress g).card ≤ limit := by
    refine run.invariant (P := fun w => (w.inProgress g).card ≤ limit) ?_
      (fun w l w' h sparing taken => card_inProgress_step hlimit h sparing taken)
    rw [Finset.card_eq_zero.mpr (Finset.eq_empty_of_forall_notMem (fun k hk =>
      hinit k (mem_inProgress.mp hk).1 (mem_inProgress.mp hk).2))]
    exact Nat.zero_le limit
  refine le_trans (Finset.card_le_card (fun k hk => ?_)) hbound
  rw [mem_runningOf] at hk
  exact mem_inProgress.mpr ⟨hk.1, inProgress_of_running hk.2⟩

/-! ## One worker, and two -/

/-- `run_job` is called by this worker only, step by step, and with no job of the DAG left
RUNNING. -/
def alone (worker : ℕ) (g : DAG) (w : World) : OperationStep → Bool
  | .start i _ => decide (i = worker ∧ ∀ k ∈ g.jobs, w.sched.core.state k ≠ .running)
  | .call op => op.ofScheduler && (called? (.call op)).isNone
  | .run _ _ => true

/-- **One worker alone keeps to any limit**: it calls `run_job` only when it has no job. -/
theorem sparing_of_alone {sched : Scheduler} (worker : ℕ) {ls : List OperationStep}
    (run : GuardedRun (operate order) (fun w l => alone worker g w l = true) (init sched) ls w)
    (positive : ∀ limit, g.maxParallel = some limit → 0 < limit) :
    GuardedRun (operate order) (Sparing g) (init sched) ls w
      ∧ ∀ i task, w.workers i = some task → i = worker := by
  induction run with
  | nil => exact ⟨.nil _, fun _ _ h => by cases h⟩
  | @snoc v u ls l run through taken ih =>
    obtain ⟨hrun, honly⟩ := ih
    cases l with
    | call op =>
      obtain ⟨hown, hcalled⟩ := Bool.and_eq_true_iff.mp through
      obtain ⟨sched, -, rfl⟩ := operate_call taken
      refine ⟨hrun.snoc ⟨hown, fun _ _ job hjob => ?_⟩ taken, honly⟩
      rw [hjob] at hcalled
      cases hcalled
    | start i job =>
      obtain ⟨rfl, hidle⟩ := of_decide_eq_true through
      obtain ⟨hfree, hnext⟩ := operate_start taken
      -- the only worker is idle, so no job of the graph is in progress
      have hnone : ∀ k ∈ g.jobs, ¬ v.InProgress k := by
        rintro k hk ⟨-, hrunning | ⟨j, task, has, -⟩⟩
        · exact hidle k hk hrunning
        · cases honly j task has
          cases hfree.symm.trans has
      refine ⟨hrun.snoc ⟨trivial, fun limit hlimit _ _ _ _ _ => ?_⟩ taken, ?_⟩
      · rw [Finset.card_eq_zero.mpr (Finset.eq_empty_of_forall_notMem (fun k hk =>
          hnone k (mem_inProgress.mp hk).1 (mem_inProgress.mp hk).2))]
        exact positive limit hlimit
      · subst hnext
        intro i' task has
        rcases workers_assign has with ⟨hi, -⟩ | ⟨-, hold⟩
        · exact hi
        · exact honly i' task hold
    | run j input =>
      refine ⟨hrun.snoc ⟨trivial, fun _ _ job hjob => by cases hjob⟩ taken, ?_⟩
      obtain ⟨before, r, hbefore, -, rfl⟩ := step_run taken
      intro i task has
      rcases workers_assign has with ⟨hi, -⟩ | ⟨-, hold⟩
      · exact hi.trans (honly j before hbefore)
      · exact honly i task hold

/-- Two independent jobs, of which one at a time may run. -/
def oneAtATime : DAG := (DAG.addNode 2 (DAG.addNode 1 { id := 8 })).withMaxParallel 1

/-- One worker runs them both. -/
theorem running_le_maxParallel_alone :
    ∃ w : World, w.sched.core.state 1 = .completed ∧ w.sched.core.state 2 = .running
      ∧ (w.runningOf oneAtATime).card ≤ 1 := by
  have hreplay : (GuardedRun.replay (operate .increasing) (alone 0 oneAtATime)
      (init (.bare none)) ([.call (.submitDag oneAtATime 0), .call (.getNextJob 0), .start 0 1]
        ++ List.replicate 10 (.run 0 .returning) ++ [.call (.getNextJob 0), .start 0 2]
        ++ List.replicate 4 (.run 0 .returning))).any
      (fun w => w.sched.core.state 1 = .completed ∧ w.sched.core.state 2 = .running) = true := by
    decide +kernel
  obtain ⟨w, run, htest⟩ := GuardedRun.exists_of_replay (fun _ _ h => h) hreplay
  obtain ⟨hcompleted, hrunning⟩ := of_decide_eq_true htest
  have hsparing := (sparing_of_alone 0 run (fun limit h => by cases h; decide)).1
  exact ⟨w, hcompleted, hrunning, running_le_maxParallel
    (show oneAtATime.maxParallel = some ((1 : ℕ) : ℤ) from rfl)
    (fun k _ => (by decide : JobState.pending ≠ .running)) hsparing⟩

/-- **Two workers run both at once**, each of which was handed its job by `get_next_job`. -/
theorem running_exceeds_maxParallel :
    ∃ ls w, GuardedRun (step .increasing) (fun _ _ => True) (init (.bare none)) ls w
      ∧ (∃ ls', GuardedRun (operate .increasing) ThroughScheduler (init (.bare none)) ls' w)
      ∧ oneAtATime.maxParallel = some 1 ∧ ¬ (w.runningOf oneAtATime).card ≤ 1 := by
  have hreplay : (GuardedRun.replay (step .increasing) (fun _ _ => true) (init (.bare none))
      ([.submitDag oneAtATime 0, .getNextJob 0 0, .getNextJob 1 0]
        ++ WorldStep.runs 0 4 .returning ++ WorldStep.runs 1 4 .returning)).any
      (fun w => decide ((w.runningOf oneAtATime).card = 2)) = true := by
    decide +kernel
  obtain ⟨w, run, hboth⟩ := GuardedRun.exists_of_replay (fun _ _ _ => trivial) hreplay
  refine ⟨_, w, run, operations_of_run run, rfl, ?_⟩
  rw [of_decide_eq_true hboth]
  decide

end World

end JobOrchestrator
