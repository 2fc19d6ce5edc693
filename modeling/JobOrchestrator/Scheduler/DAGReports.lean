import JobOrchestrator.Core.CycleDetection
import JobOrchestrator.Scheduler.DAGCompleteness
import JobOrchestrator.Scheduler.DAGPartition
import JobOrchestrator.Scheduler.DependencyOrder

/-!
# What `get_dag_status` can be believed

A report names a status, counts, and the state of each job. The status and the counts are
the executor's, the states are those of the job objects, and nothing but the reports of the
jobs connects the two.

The connection holds all the same: what is counted as completed is COMPLETED, and a DAG that
is reported COMPLETED has no job that is not. The one operation that breaks this is
`cancel_dag`, after which a job that still ran may complete the DAG (`DAGFinality.lean`).
-/

namespace JobOrchestrator

/-! ## One execution -/

namespace DAGExecution

variable {σ : Type*} {order : IterationOrder UUID} {host : Host σ} {now : Time} {g : DAG}
  {e e' : DAGExecution} {j : UUID}

/-- **Status and sets agree** in an execution that was not cancelled. -/
structure Counts (g : DAG) (e : DAGExecution) : Prop where
  nodes : e.dag.nodes = g.nodes
  jobs : e.dag.jobs = g.jobs
  completedJobs : ∀ k ∈ e.completedJobs, k ∈ g.jobs
  cancelledJobs : e.cancelledJobs.Nonempty → e.status = .failed
  failed : e.status = .failed → e.failedJobs.Nonempty
  finished : e.status = .completed → ∀ k ∈ g.jobs, k ∈ e.completedJobs

theorem Counts.wellFormed (h : e.Counts g) (hg : g.WellFormed) : e.dag.WellFormed where
  jobId {k n} hn := by
    rw [h.nodes] at hn
    exact hg.jobId hn
  jobs := by rw [h.jobs, h.nodes, hg.jobs]
  mirrored {u v} := by
    unfold DAG.DependsOn DAG.Releases
    rw [h.nodes]
    exact hg.mirrored

/-- Queueing touches neither the completed jobs nor the cancelled ones, nor the status. -/
theorem Counts.queued (h : e.Counts g) (queued : Queued e e') : e'.Counts g where
  nodes := by rw [queued.dag, h.nodes]
  jobs := by rw [queued.dag, h.jobs]
  completedJobs := by
    rw [queued.completedJobs]
    exact h.completedJobs
  cancelledJobs := by
    rw [queued.cancelledJobs, queued.status]
    exact h.cancelledJobs
  failed hstatus := (h.failed (queued.status.symm.trans hstatus)).mono queued.failedJobs
  finished := by
    rw [queued.status, queued.completedJobs]
    exact h.finished

/-- **Where nothing runs and nothing is left to release**, an execution without a failure has
completed every job. -/
theorem Counts.all_completed (h : e.Counts g) (hg : g.WellFormed) (acyclic : g.Acyclic)
    (none : e.NoneReady) (runningJobs : e.runningJobs = ∅) (failedJobs : e.failedJobs = ∅)
    {k : UUID} (hk : k ∈ g.jobs) : k ∈ e.completedJobs := by
  have hcancelled : e.cancelledJobs = ∅ := by
    rw [← Finset.not_nonempty_iff_eq_empty]
    intro hsome
    have hfailed := h.failed (h.cancelledJobs hsome)
    rw [failedJobs] at hfailed
    exact Finset.not_nonempty_empty hfailed
  refine DAG.acyclic_induction hg acyclic (P := fun k => k ∈ e.completedJobs) ?_ hk
  intro k hk hdeps
  obtain ⟨n, hn⟩ := (DAG.mem_jobs_iff hg).mp hk
  have htaken : e.Taken k := by
    refine dispatched_of_noneReady none hcancelled k n ?_ (fun u hu => hdeps u ⟨n, hn, hu⟩)
    rw [h.nodes, hn]
  rw [Taken, runningJobs, failedJobs] at htaken
  simpa using htaken

theorem Counts.failDag (h : e.Counts g) (failedJobs : e.failedJobs.Nonempty) (error : String)
    (s : σ) : (e.failDag host now error s).1.Counts g := by
  unfold DAGExecution.failDag
  split
  · exact h
  · exact ⟨h.nodes, h.jobs, h.completedJobs, fun _ => rfl, fun _ => failedJobs,
      fun hstatus => (by cases hstatus)⟩

/-- **The completion check** ends an execution as it should. -/
theorem Counts.checkDagCompletion (h : e.Counts g) (hg : g.WellFormed) (acyclic : g.Acyclic)
    (none : e.NoneReady) (s : σ) : (e.checkDagCompletion host now s).1.Counts g := by
  rw [checkDagCompletion_of_noneReady none]
  split
  · exact h
  · rename_i hidle
    rw [Finset.not_nonempty_iff_eq_empty] at hidle
    unfold conclude
    split
    · rename_i hfailed
      exact h.failDag hfailed _ s
    · rename_i hfailed
      rw [Finset.not_nonempty_iff_eq_empty] at hfailed
      refine ⟨h.nodes, h.jobs, h.completedJobs, fun hsome => ?_, fun hstatus => (by cases hstatus),
        fun _ k hk => h.all_completed hg acyclic none hidle hfailed hk⟩
      have hnonempty := h.failed (h.cancelledJobs hsome)
      rw [hfailed] at hnonempty
      exact absurd hnonempty Finset.not_nonempty_empty

theorem Counts.onJobComplete (h : e.Counts g) (hg : g.WellFormed) (acyclic : g.Acyclic)
    (none : e.NoneReady) (job : j ∈ g.jobs) (s : σ) :
    (e.onJobComplete order host now j s).2.1.Counts g := by
  have hmarked : (e.markCompleted j).Counts g := by
    refine ⟨h.nodes, h.jobs, fun k hk => ?_, h.cancelledJobs, h.failed,
      fun hstatus k hk => Finset.mem_insert_of_mem (h.finished hstatus k hk)⟩
    rcases Finset.mem_insert.mp hk with rfl | hk
    · exact job
    · exact h.completedJobs k hk
  have hreleased := noneReady_release order host (h.wellFormed hg) none j s
  exact (hmarked.queued (queued_queueReady host _ _ s)).checkDagCompletion hg acyclic hreleased _

theorem Counts.onJobFailed (h : e.Counts g) (hg : g.WellFormed) (acyclic : g.Acyclic)
    (none : e.NoneReady) (error : String) (s : σ) :
    (e.onJobFailed host now j error s).1.Counts g := by
  have hfailed : (e.markFailed j).failedJobs.Nonempty := Finset.insert_nonempty _ _
  have hmarked : (e.markFailed j).Counts g :=
    ⟨h.nodes, h.jobs, h.completedJobs, h.cancelledJobs, fun _ => hfailed, h.finished⟩
  unfold DAGExecution.onJobFailed
  split
  · exact hmarked.failDag hfailed _ s
  · exact hmarked.checkDagCompletion hg acyclic (noneReady_markFailed none j) s

/-- A DAG that starts. -/
theorem counts_started (host : Host σ) (now : Time) {g' : DAG} (nodes : g'.nodes = g.nodes)
    (jobs : g'.jobs = g.jobs) (s : σ) :
    ((started now g').queueAll host g'.getRootNodes s).1.Counts g := by
  refine Counts.queued ?_ (queued_queueAll host _ _ s)
  refine ⟨nodes, jobs, fun k hk => absurd hk (Finset.notMem_empty k), ?_, ?_, ?_⟩
  · exact fun hsome => absurd hsome Finset.not_nonempty_empty
  · exact fun hstatus => by cases hstatus
  · exact fun hstatus => by cases hstatus

end DAGExecution

/-! ## The executor -/

namespace DAGExecutor

variable {σ : Type*} {order : IterationOrder UUID} {host : Host σ} {now : Time} {g : DAG}
  {x : DAGExecutor}

/-- **The execution of a DAG is as it says.** -/
structure Truthful (g : DAG) (x : DAGExecutor) : Prop where
  acyclic : ∀ e, x.activeDags.get? g.id = some e → g.Acyclic
  counts : ∀ e, x.activeDags.get? g.id = some e → e.Counts g
  noneReady : ∀ e, x.activeDags.get? g.id = some e → e.NoneReady
  owner : ∀ k, x.jobToDag.get? k = some g.id → k ∈ g.jobs

namespace Truthful

/-- An execution is put back, of this DAG as it should be. -/
theorem put (h : x.Truthful g) {dagId : UUID} {e e' : DAGExecution}
    (active : x.activeDags.get? dagId = some e)
    (kept : dagId = g.id → e'.Counts g ∧ e'.NoneReady) : (x.put dagId e').Truthful g where
  acyclic e₁ he₁ := by
    rcases OrderedDict.get?_set_eq_some he₁ with ⟨hid, -⟩ | ⟨-, hold⟩
    · exact h.acyclic e (by rw [hid]; exact active)
    · exact h.acyclic e₁ hold
  counts e₁ he₁ := by
    rcases OrderedDict.get?_set_eq_some he₁ with ⟨hid, rfl⟩ | ⟨-, hold⟩
    · exact (kept hid.symm).1
    · exact h.counts e₁ hold
  noneReady e₁ he₁ := by
    rcases OrderedDict.get?_set_eq_some he₁ with ⟨hid, rfl⟩ | ⟨-, hold⟩
    · exact (kept hid.symm).2
    · exact h.noneReady e₁ hold
  owner := h.owner

/-- Cancelling another DAG leaves this one and its report alone. -/
theorem cancelDag (h : x.Truthful g) {dagId : UUID} (other : dagId ≠ g.id) (s : σ) :
    (x.cancelDag host now dagId s).2.1.Truthful g := by
  unfold DAGExecutor.cancelDag
  cases hfound : x.activeDags.get? dagId with
  | none => exact h
  | some e => exact h.put hfound (fun hid => absurd hid other)

/-- **A DAG is started**: this one, if it is acyclic, or one with another id. -/
theorem startDag (h : x.Truthful g) (g' : DAG) (s : σ)
    (own : g'.id = g.id → g'.nodes = g.nodes ∧ g'.jobs = g.jobs ∧ g'.WellFormed ∧ g.Acyclic) :
    (x.startDag host now g' s).2.1.Truthful g where
  acyclic e he := by
    rcases OrderedDict.get?_set_eq_some he with ⟨hid, -⟩ | ⟨-, hold⟩
    · exact (own hid.symm).2.2.2
    · exact h.acyclic e hold
  counts e he := by
    rcases OrderedDict.get?_set_eq_some he with ⟨hid, rfl⟩ | ⟨-, hold⟩
    · exact DAGExecution.counts_started host now (own hid.symm).1 (own hid.symm).2.1 s
    · exact h.counts e hold
  noneReady e he := by
    rcases OrderedDict.get?_set_eq_some he with ⟨hid, rfl⟩ | ⟨-, hold⟩
    · exact DAGExecution.noneReady_started host now (own hid.symm).2.2.1 s
    · exact h.noneReady e hold
  owner k hk := by
    have howner : (if k ∈ g'.jobs then some g'.id else x.jobToDag.get? k) = some g.id :=
      (get?_foldl_set g'.jobs x.jobToDag k).symm.trans hk
    split at howner
    · rename_i hjob
      rw [← (own (Option.some.inj howner)).2.1]
      exact hjob
    · exact h.owner k howner

end Truthful

end DAGExecutor

/-! ## What reports do to the executor -/

namespace Scheduler

variable {order : IterationOrder UUID} {s s' : Scheduler} {X : DAGExecutor → Prop} {g : DAG}

/-- **A property of the executor that both reports keep.** -/
structure HeardKept (order : IterationOrder UUID) (X : DAGExecutor → Prop) : Prop where
  complete : ∀ (s : Scheduler) now job, X s.executor → X (s.notifyComplete order now job).executor
  failed : ∀ (s : Scheduler) now job error, X s.executor → X (s.notifyFailed now job error).executor

namespace HeardKept

theorem step (h : HeardKept order X) (input : RunInput) (task : Task) (hs : X s.executor) :
    X (task.step order input s).1.executor := by
  have hcases := Task.step_cases order input task s
  generalize task.step order input s = r at hcases ⊢
  cases hcases with
  | own own =>
    rw [own.executor]
    exact hs
  | notifyComplete => exact h.complete s _ _ hs
  | notifyFailed => exact h.failed s _ _ _ hs
  | push =>
    rw [(repushed task.job s).executor]
    exact hs

theorem drive (h : HeardKept order X) (input : RunInput) (fuel : ℕ) (task : Task)
    (hs : X s.executor) : X (task.drive order input fuel s).1.executor := by
  induction fuel generalizing s task with
  | zero => exact hs
  | succ fuel ih =>
    have hstep := h.step input task hs
    rw [Task.drive]
    cases heq : task.step order input s with
    | mk s' status =>
      rw [heq] at hstep
      cases status with
      | running next => exact ih next hstep
      | returned | raised => exact hstep

theorem completeJob (h : HeardKept order X) (now : Time) (job : UUID) (result : Value)
    (hs : X s.executor) : X (s.completeJob order now job result).1.executor := by
  unfold Scheduler.completeJob
  split
  · exact hs
  · simp only
    split
    · exact hs
    · exact h.complete _ _ _ hs

theorem failJob (h : HeardKept order X) (now : Time) (draw : ℚ) (traceback : String) (job : UUID)
    (error : PyException) (hs : X s.executor) :
    X (s.failJob now draw traceback job error).1.executor := by
  unfold Scheduler.failJob
  split
  · exact hs
  · simp only
    split
    · unfold failJobRetry
      split
      · exact hs
      · split
        · exact hs
        · split <;> exact hs
    · unfold failJobFinally
      split
      · exact hs
      · exact h.failed _ _ _ _ hs

/-- **Every operation** keeps it that neither starts nor cancels a DAG. -/
theorem perform (h : HeardKept order X) {op : SchedulerCall} (own : op.ofScheduler = true)
    (starts : ∀ g now, op ≠ .submitDag g now) (cancels : ∀ dagId now, op ≠ .cancelDag dagId now)
    (taken : s.perform order op = some s') (hs : X s.executor) : X s'.executor := by
  cases op with
  | submitDag g now => exact absurd rfl (starts g now)
  | cancelDag dagId now => exact absurd rfl (cancels dagId now)
  | getNextJob now =>
    cases taken
    rcases getNextJob_cases now s with heq | heq <;> rw [heq] <;> exact hs
  | runJob job input =>
    cases taken
    exact h.drive input 16 { job := job } hs
  | completeJob job result now =>
    cases taken
    exact h.completeJob now job result hs
  | failJob job error now draw traceback =>
    cases taken
    exact h.failJob now draw traceback job error hs
  | requeue | discard | resolve => cases own
  | submit | cancelJob | requeueDlqEntry | discardDlqEntry | resolveDlqEntry =>
    cases taken
    exact hs

end HeardKept

/-- **A report of a job** keeps the execution as it should be. -/
theorem Heard.truthful {job : UUID} {hears : DAGExecution → DAGExecution × SchedulerCore}
    (h : s.Heard job hears s') (before : s.executor.Truthful g)
    (kept : job ∈ g.jobs → g.Acyclic → ∀ e : DAGExecution, e.Counts g → e.NoneReady →
      (hears e).1.Counts g ∧ (hears e).1.NoneReady) : s'.executor.Truthful g := by
  cases h with
  | nobody => exact before
  | execution dagId e owner active =>
    refine before.put active (fun hid => ?_)
    subst hid
    exact kept (before.owner job owner) (before.acyclic e active) e (before.counts e active)
      (before.noneReady e active)

theorem heardKept_truthful (order : IterationOrder UUID) (hg : g.WellFormed) :
    HeardKept order (DAGExecutor.Truthful g) where
  complete s now job hs :=
    (heard_notifyComplete order now job s).truthful hs (fun hjob acyclic _ hcounts none =>
      ⟨hcounts.onJobComplete hg acyclic none hjob s.core,
        DAGExecution.noneReady_onJobComplete (hcounts.wellFormed hg) none job s.core⟩)
  failed s now job error hs :=
    (heard_notifyFailed now job error s).truthful hs (fun _ acyclic _ hcounts none =>
      ⟨hcounts.onJobFailed hg acyclic none error s.core,
        DAGExecution.noneReady_onJobFailed none job error s.core⟩)

/-- `submit_dag` starts only what is acyclic. A second DAG with the id of this one would take its
place, so it has to be the same graph. -/
theorem truthful_submitDag (before : s.executor.Truthful g) (now : Time) {g' : DAG}
    (built : g'.WellFormed) (own : g'.id = g.id → g' = g) :
    (s.submitDag order now g').1.executor.Truthful g := by
  unfold submitDag
  cases hvalid : g'.validate order with
  | error error => exact before
  | ok valid =>
    refine before.startDag (scheduledDag now g') s.core (fun hid => ?_)
    have hsame : g' = g := own hid
    subst hsame
    refine ⟨rfl, rfl, ⟨built.jobId, built.jobs, built.mirrored⟩, ?_⟩
    rw [← built.not_cyclic_iff, ← DAG.validateIn_error_iff built (.of order g') order,
      ← DAG.validate_eq, hvalid]
    rintro ⟨error, herror⟩
    cases herror

end Scheduler

/-! ## Runs -/

namespace World

variable {g : DAG} {order : IterationOrder UUID} {w w' : World}

/-- **What callers keep to**: the id is that of one DAG, which is not cancelled, and only
submitted jobs are run. -/
def LeavesAlone (g : DAG) (w : World) : OperationStep → Prop
  | .call (.submitDag g' _) => (∃ t, g'.Built t) ∧ (g'.id = g.id → g' = g)
  | .call (.cancelDag dagId _) => dagId ≠ g.id
  | .call (.runJob job _) | .start _ job => job ∈ w.sched.core.store
  | .call op => op.ofScheduler = true
  | .run _ _ => True

theorem LeavesAlone.throughScheduler {l : OperationStep} (h : w.LeavesAlone g l) :
    w.ThroughScheduler l := by
  cases l with
  | start | run => trivial
  | call op => cases op <;> first | rfl | exact h

/-- It is more than the dependency order asks of a DAG without jobs. -/
theorem LeavesAlone.respects {l : OperationStep} (h : w.LeavesAlone g l) {g₀ : DAG}
    (empty : g₀.jobs = []) : w.Respects g₀ l := by
  have hnone : ∀ k, k ∉ g₀.jobs := fun k => by rw [empty]; exact List.not_mem_nil
  cases l with
  | start worker job => exact h
  | run worker input => trivial
  | call op =>
    cases op with
    | submit job => exact hnone job
    | submitDag g' now => exact ⟨h.1, Or.inr (fun k _ => hnone k)⟩
    | cancelDag dagId now => rfl
    | runJob job input => exact h
    | _ => exact h

theorem truthful_operate (hg : g.WellFormed) (before : w.sched.executor.Truthful g)
    {l : OperationStep} (leaves : w.LeavesAlone g l) (taken : w.operate order l = some w') :
    w'.sched.executor.Truthful g := by
  cases l with
  | start worker job =>
    obtain ⟨-, rfl⟩ := operate_start taken
    exact before
  | run worker input =>
    obtain ⟨task, -, rfl⟩ := operate_run taken
    exact (Scheduler.heardKept_truthful order hg).step input task before
  | call op =>
    obtain ⟨sched, hperform, rfl⟩ := operate_call taken
    by_cases hdag : (∃ g' now, op = .submitDag g' now) ∨ ∃ dagId now, op = .cancelDag dagId now
    · rcases hdag with ⟨g', now, rfl⟩ | ⟨dagId, now, rfl⟩
      · cases hperform
        obtain ⟨⟨t, hbuilt⟩, hown⟩ := leaves
        exact Scheduler.truthful_submitDag before now hbuilt.wellFormed hown
      · cases hperform
        exact before.cancelDag leaves w.sched.core
    · rw [not_or] at hdag
      exact (Scheduler.heardKept_truthful order hg).perform leaves.throughScheduler
        (fun g' now heq => hdag.1 ⟨g', now, heq⟩)
        (fun dagId now heq => hdag.2 ⟨dagId, now, heq⟩) hperform before

/-- **What is reported is so**: every job counted as completed is COMPLETED, a COMPLETED DAG
has completed every job, and a FAILED one counts a failure. -/
structure ReportTrue (report : DAGReport) : Prop where
  completed : report.completed
    ≤ (report.jobs.filter (fun j => decide (j.state = .completed))).length
  finished : report.status = .completed →
    report.completed = report.total ∧ report.progress = 1
      ∧ ∀ j ∈ report.jobs, j.state = .completed
  failed : report.status = .failed → 0 < report.failed

/-- What the executor and the scheduler keep makes the report true. -/
theorem reportTrue (hg : g.WellFormed) {jobs : JobTable} {e : DAGExecution} (counts : e.Counts g)
    (completed : ∀ k ∈ e.completedJobs, (jobs.get k).state = .completed) {report : DAGReport}
    {x : DAGExecutor} (active : x.getStatus g.id = some e)
    (found : x.getDagStatus jobs g.id = some report) : ReportTrue report := by
  unfold DAGExecutor.getDagStatus at found
  rw [active] at found
  obtain rfl := Option.some.inj found
  have hnodup : e.dag.jobs.Nodup := by
    rw [counts.jobs, hg.jobs]
    exact g.nodes.nodup_keys
  have hcard : ∀ C : Finset UUID, (∀ k ∈ g.jobs, k ∈ C) → (∀ k ∈ C, k ∈ g.jobs) →
      C.card = e.dag.jobs.length := by
    intro C hin hout
    rw [← List.toFinset_card_of_nodup hnodup]
    congr 1
    ext k
    rw [List.mem_toFinset, counts.jobs]
    exact ⟨hout k, hin k⟩
  refine ⟨?_, fun hstatus => ?_, fun hstatus => ?_⟩
  · show e.completedJobs.card ≤ ((e.dag.jobs.map _).filter _).length
    rw [List.filter_map, List.length_map, ← List.toFinset_card_of_nodup (hnodup.filter _)]
    refine Finset.card_le_card (fun k hk => ?_)
    rw [List.mem_toFinset, List.mem_filter, counts.jobs]
    exact ⟨counts.completedJobs k hk, decide_eq_true (completed k hk)⟩
  · have hfull : e.completedJobs.card = e.totalJobs :=
      hcard e.completedJobs (counts.finished hstatus) counts.completedJobs
    refine ⟨hfull, ?_, ?_⟩
    · show e.progress = 1
      unfold DAGExecution.progress
      split
      · rfl
      · rename_i hpos
        rw [hfull]
        exact div_self (Nat.cast_ne_zero.mpr hpos)
    · intro j hj
      obtain ⟨k, hk, rfl⟩ := List.mem_map.mp hj
      rw [counts.jobs] at hk
      exact completed k (counts.finished hstatus k hk)
  · exact Finset.card_pos.mpr (counts.failed hstatus)

/-- **`get_dag_status` can be believed.** For every DAG and every run of operations of the
scheduler and steps of `run_job` in which its id is the id of no other DAG, it is not
cancelled, and only submitted jobs are run: what `get_dag_status` reports of it is so. -/
theorem dag_report_true {jobs : JobTable} {maxSize maxEntries : Option ℕ}
    {retryHandler : Retry.RetryHandler} {onComplete onFailed : List ℕ} {t : JobTable}
    {ls : List OperationStep} (built : g.Built t)
    (run : GuardedRun (operate order) (LeavesAlone g)
      (init (.new jobs maxSize maxEntries retryHandler onComplete onFailed)) ls w)
    {report : DAGReport}
    (found : w.sched.executor.getDagStatus w.sched.core.jobs g.id = some report) :
    ReportTrue report := by
  have hinit : (init (.new jobs maxSize maxEntries retryHandler onComplete onFailed)).KeepsOrder
      { id := 0 } :=
    ⟨⟨fun _ hk => absurd hk List.not_mem_nil, fun _ _ he => by cases he⟩,
      fun _ _ has => by cases has⟩
  have htruthful : (init (.new jobs maxSize maxEntries retryHandler onComplete
      onFailed)).sched.executor.Truthful g :=
    ⟨fun _ he => (by cases he), fun _ he => (by cases he), fun _ he => (by cases he),
      fun _ hk => (by cases hk)⟩
  obtain ⟨hkeeps, htrue⟩ := run.invariant
    (P := fun w => w.KeepsOrder { id := 0 } ∧ w.sched.executor.Truthful g) ⟨hinit, htruthful⟩
    (fun _ _ _ h leaves taken => ⟨h.1.operate (leaves.respects rfl) taken,
      truthful_operate built.wellFormed h.2 leaves taken⟩)
  cases hactive : w.sched.executor.getStatus g.id with
  | none =>
    unfold DAGExecutor.getDagStatus at found
    rw [hactive] at found
    cases found
  | some e =>
    exact reportTrue built.wellFormed (htrue.counts e hactive)
      (fun k hk => ((hkeeps.orderly.executions g.id e hactive).completed k hk).2) hactive found

theorem leavesAlone_of_byWorker {l : OperationStep} (h : w.byWorker l = true) :
    w.LeavesAlone g l := by
  cases l with
  | call op => cases op <;> first | rfl | cases h
  | start worker job =>
    show job ∈ w.sched.core.store
    exact of_decide_eq_true h
  | run worker input => trivial

/-- A worker runs both jobs of a chain, and the chain is reported COMPLETED. -/
theorem dag_report_true_chain :
    ∃ (w : World) (report : DAGReport),
      w.sched.executor.getDagStatus w.sched.core.jobs chainDag.id = some report
        ∧ report.status = .completed ∧ ReportTrue report := by
  obtain ⟨t, built⟩ := built_chainDag
  have hreplay : (GuardedRun.replay (operate .increasing) byWorker
      ((init (.bare none)).withSched ((Scheduler.bare none).submitDag .increasing 0 chainDag).1)
      ([.call (.getNextJob 0), .start 0 1] ++ List.replicate 10 (.run 0 .returning)
        ++ [.call (.getNextJob 0), .start 0 2] ++ List.replicate 9 (.run 0 .returning))).any
      (fun w => (w.sched.executor.getDagStatus w.sched.core.jobs chainDag.id).any
        (fun report => report.status = .completed)) = true := by
    decide +kernel
  obtain ⟨w, run, htest⟩ :=
    GuardedRun.exists_of_replay (fun w l h => leavesAlone_of_byWorker (g := chainDag) h) hreplay
  have hstart : GuardedRun (operate .increasing) (LeavesAlone chainDag) (init (.bare none))
      [.call (.submitDag chainDag 0)]
      ((init (.bare none)).withSched ((Scheduler.bare none).submitDag .increasing 0 chainDag).1) :=
    .single ⟨⟨t, built⟩, fun _ => rfl⟩ rfl
  obtain ⟨report, hreport, hcompleted⟩ := (Option.any_eq_true _ _).mp htest
  exact ⟨w, report, hreport, of_decide_eq_true hcompleted,
    dag_report_true built (hstart.append run) hreport⟩

end World

end JobOrchestrator
