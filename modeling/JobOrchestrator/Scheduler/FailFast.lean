import JobOrchestrator.Queue.Drain
import JobOrchestrator.Scheduler.DAGProgress
import JobOrchestrator.Scheduler.Operations

/-!
# After a DAG has failed

With `fail_fast` a DAG is to "stop execution on first failure". `_fail_dag` puts
its unfinished jobs into `cancelled_jobs`, which keeps the executor from queueing
them. But it does not cancel them in the scheduler, as `cancel_dag` does, so those
that wait in the queue already go on waiting there, and are handed out and run.

Whatever the queue has gone through, what it contains can be popped. So from the
moment a DAG fails, every job that `_fail_dag` calls cancelled and that the queue
contains is one `get_next_job` can return.
-/

namespace JobOrchestrator

/-! ## What failing does to an execution -/

namespace DAGExecution

variable {σ : Type*} {order : IterationOrder UUID} {host : Host σ} {now : Time}

/-- **Where an execution becomes FAILED**, its unfinished jobs are cancelled jobs, and no
others that were not before. -/
def FailsInto (e e' : DAGExecution) : Prop :=
  e.status ≠ .failed → e'.status = .failed →
    e'.cancelledJobs = e.cancelledJobs ∪ e'.unfinished.toFinset

theorem FailsInto.of_eq {e e₀ e' : DAGExecution} (h : e₀.FailsInto e')
    (status : e₀.status = e.status) (cancelledJobs : e₀.cancelledJobs = e.cancelledJobs) :
    e.FailsInto e' := by
  unfold FailsInto
  rw [← status, ← cancelledJobs]
  exact h

theorem failsInto_failDag (error : String) (e : DAGExecution) (s : σ) :
    e.FailsInto (e.failDag host now error s).1 := by
  intro halive hfailed
  unfold failDag at hfailed ⊢
  split
  · rename_i hended
    rw [if_pos hended] at hfailed
    exact absurd hfailed halive
  · rfl

theorem failsInto_conclude (e : DAGExecution) (s : σ) :
    e.FailsInto (e.conclude host now s).1 := by
  unfold conclude
  split
  · exact failsInto_failDag _ e s
  · exact fun _ hfailed => by cases hfailed

theorem failsInto_checkDagCompletion (e : DAGExecution) (s : σ) :
    e.FailsInto (e.checkDagCompletion host now s).1 := by
  rcases checkDagCompletion_cases host now e s with ⟨ks, heq⟩ | ⟨-, heq⟩
  · rw [heq]
    have hqueued := queued_queueReady host ks e s
    exact fun halive hfailed => absurd (hqueued.status.symm.trans hfailed) halive
  · rw [heq]
    exact failsInto_conclude e s

theorem failsInto_onJobComplete (jobId : UUID) (e : DAGExecution) (s : σ) :
    e.FailsInto (e.onJobComplete order host now jobId s).2.1 := by
  have hqueued := queued_queueReady host ((e.markCompleted jobId).dependentsOf order jobId)
    (e.markCompleted jobId) s
  exact (failsInto_checkDagCompletion _ _).of_eq hqueued.status hqueued.cancelledJobs

theorem failsInto_onJobFailed (jobId : UUID) (error : String) (e : DAGExecution) (s : σ) :
    e.FailsInto (e.onJobFailed host now jobId error s).1 := by
  unfold onJobFailed
  simp only
  split
  · exact (failsInto_failDag _ (e.markFailed jobId) s).of_eq rfl rfl
  · exact (failsInto_checkDagCompletion (e.markFailed jobId) s).of_eq rfl rfl

/-- Cancelling a DAG does not make it FAILED, so nothing is told from it about `fail_fast`. -/
theorem failsInto_cancelDag (e : DAGExecution) (s : σ) :
    e.FailsInto (e.cancelDag host now s).1 :=
  fun _ hfailed => by cases hfailed

end DAGExecution

/-! ## What the operations do to the executor -/

/-- **What an operation does to the executor**: nothing, or a DAG is started, or one execution
hears of something. Whether `fail_fast` stops a DAG is seen from the one execution that hears of
a failure. -/
inductive DAGExecutor.Advances (x : DAGExecutor) : DAGExecutor → Prop
  | same : Advances x x
  | started (dagId : UUID) (e : DAGExecution) (running : e.status = .running)
      (jobToDag : OrderedDict UUID UUID) :
    Advances x { activeDags := x.activeDags.set dagId e, jobToDag := jobToDag }
  | heard (dagId : UUID) (e e' : DAGExecution) (active : x.activeDags.get? dagId = some e)
      (fails : e.FailsInto e') : Advances x (x.put dagId e')

/-- An execution that becomes FAILED does so as it should. -/
theorem DAGExecutor.Advances.failsInto {x x' : DAGExecutor} (h : x.Advances x') {dagId : UUID}
    {e e' : DAGExecution} (before : x.activeDags.get? dagId = some e)
    (after : x'.activeDags.get? dagId = some e') : e.FailsInto e' := by
  have hsame : x.activeDags.get? dagId = some e' → e.FailsInto e' := by
    intro hold halive hfailed
    cases before.symm.trans hold
    exact absurd hfailed halive
  cases h with
  | same => exact hsame after
  | started d₀ e₀ running jobToDag =>
    rcases OrderedDict.get?_set_eq_some after with ⟨-, rfl⟩ | ⟨-, hold⟩
    · exact fun _ hfailed => by cases running.symm.trans hfailed
    · exact hsame hold
  | heard d₀ e₀ e₁ active fails =>
    rcases OrderedDict.get?_set_eq_some after with ⟨rfl, rfl⟩ | ⟨-, hold⟩
    · cases active.symm.trans before
      exact fails
    · exact hsame hold

namespace Scheduler

variable {order : IterationOrder UUID} {s s' t : Scheduler}

/-- **An operation does not stop the scheduler**, and does one thing to the executor. -/
structure Advances (s s' : Scheduler) : Prop where
  running : s'.running = s.running
  executor : s.executor.Advances s'.executor

/-- What leaves the executor alone may come before it, and after it. -/
theorem Advances.congr {t' : Scheduler} (h : t.Advances t') (running' : s'.running = t'.running)
    (executor' : s'.executor = t'.executor) (running : t.running = s.running)
    (executor : t.executor = s.executor) : s.Advances s' where
  running := running'.trans (h.running.trans running)
  executor := by
    rw [executor', ← executor]
    exact h.executor

theorem Advances.refl (s : Scheduler) : s.Advances s := ⟨rfl, .same⟩

theorem advances_submitDag (g : DAG) (now : Time) :
    s.Advances (s.submitDag order now g).1 := by
  unfold submitDag
  split
  · exact .refl s
  · refine ⟨rfl, .started _ _ ?_ _⟩
    exact (DAGExecution.queued_queueAll (SchedulerCore.host now) _ _ s.core).status

theorem advances_getNextJob (now : Time) : s.Advances (s.getNextJob now).2 := by
  unfold getNextJob
  split
  · exact .refl s
  · exact ⟨rfl, .same⟩

theorem advances_cancelDag (dagId : UUID) (now : Time) :
    s.Advances (s.cancelDag now dagId).1 := by
  refine ⟨rfl, ?_⟩
  show s.executor.Advances (s.executor.cancelDag (SchedulerCore.host now) now dagId s.core).2.1
  unfold DAGExecutor.cancelDag
  split
  · exact .same
  · rename_i e hactive
    exact .heard dagId e _ hactive (DAGExecution.failsInto_cancelDag e s.core)

/-- A report that one execution hears. A job leads to one graph at most, so no second execution
hears of it. -/
theorem Heard.advances {job : UUID} {hears : DAGExecution → DAGExecution × SchedulerCore}
    (h : s.Heard job hears s') (fails : ∀ e : DAGExecution, e.FailsInto (hears e).1) :
    s.Advances s' := by
  cases h with
  | nobody => exact .refl s
  | execution dagId e owner active => exact ⟨rfl, .heard dagId e _ active (fails e)⟩

theorem advances_notifyComplete (now : Time) (job : UUID) (s : Scheduler) :
    s.Advances (s.notifyComplete order now job) :=
  (heard_notifyComplete order now job s).advances
    (fun e => DAGExecution.failsInto_onJobComplete job e s.core)

theorem advances_notifyFailed (now : Time) (job : UUID) (error : String) (s : Scheduler) :
    s.Advances (s.notifyFailed now job error) :=
  (heard_notifyFailed now job error s).advances
    (fun e => DAGExecution.failsInto_onJobFailed job error e s.core)

theorem advances_completeJob (job : UUID) (result : Value) (now : Time) :
    s.Advances (s.completeJob order now job result).1 := by
  unfold completeJob
  split
  · exact .refl s
  · simp only
    split
    · exact ⟨rfl, .same⟩
    · exact (advances_notifyComplete now job _).congr rfl rfl rfl rfl

theorem advances_failJob (job : UUID) (error : PyException) (now : Time) (draw : ℚ)
    (traceback : String) : s.Advances (s.failJob now draw traceback job error).1 := by
  unfold failJob
  split
  · exact .refl s
  · simp only
    split
    · unfold failJobRetry
      split
      · exact ⟨rfl, .same⟩
      · split
        · exact ⟨rfl, .same⟩
        · split <;> exact ⟨rfl, .same⟩
    · unfold failJobFinally
      split
      · exact ⟨rfl, .same⟩
      · exact (advances_notifyFailed now job _ _).congr rfl rfl rfl rfl

theorem advances_runJob (job : UUID) (input : RunInput) :
    s.Advances (s.runJob order input job).1 := by
  rw [runJob_eq]
  unfold handleResult
  split
  · unfold handleSuccess
    simp only
    split
    · exact ⟨rfl, .same⟩
    · exact (advances_notifyComplete input.handled job _).congr rfl rfl rfl rfl
  · unfold handleFailure
    simp only
    split
    · unfold handleRetry
      split
      · exact ⟨rfl, .same⟩
      · split
        · exact ⟨rfl, .same⟩
        · split <;> exact ⟨rfl, .same⟩
    · unfold handleFinally
      split
      · exact ⟨rfl, .same⟩
      · exact (advances_notifyFailed input.handled job _ _).congr rfl rfl rfl rfl

theorem advances_perform {op : SchedulerCall} (own : op.ofScheduler = true)
    (taken : s.perform order op = some s') : s.Advances s' := by
  cases op with
  | submit job => cases taken; exact ⟨rfl, .same⟩
  | submitDag g now => cases taken; exact advances_submitDag g now
  | getNextJob now => cases taken; exact advances_getNextJob now
  | runJob job input => cases taken; exact advances_runJob job input
  | completeJob job result now => cases taken; exact advances_completeJob job result now
  | failJob job error now draw traceback =>
    cases taken
    exact advances_failJob job error now draw traceback
  | cancelJob job now => cases taken; exact ⟨rfl, .same⟩
  | cancelDag dagId now => cases taken; exact advances_cancelDag dagId now
  | requeue | discard | resolve => cases own
  | requeueDlqEntry | discardDlqEntry | resolveDlqEntry => cases taken; exact .refl s

/-- **A step of `run_job`.** Only the two reports at its end reach the executor. -/
theorem advances_step (input : RunInput) (task : Task) (s : Scheduler) :
    s.Advances (task.step order input s).1 := by
  obtain ⟨job, startedAt, pc⟩ := task
  cases pc with
  | toScheduled | toRunning | retryToScheduled =>
    simp only [Task.step, Task.transit]
    split <;> exact ⟨rfl, .same⟩
  | toCompleted | toRetrying | backToScheduled | toFailed =>
    simp only [Task.step, Task.transitOrRaise]
    split <;> exact ⟨rfl, .same⟩
  | handle r =>
    simp only [Task.step]
    split
    · exact ⟨rfl, .same⟩
    · split
      · split <;> exact ⟨rfl, .same⟩
      · exact ⟨rfl, .same⟩
  | notifyComplete r => exact advances_notifyComplete _ _ s
  | notifyFailed r => exact advances_notifyFailed _ _ _ s
  | _ => exact ⟨rfl, .same⟩

end Scheduler

/-! ## What the queue can still hand out -/

namespace World

open ThreadSafePriorityQueue

variable {order : IterationOrder UUID} {w w' : World} {k : UUID}

theorem advances_operate {l : OperationStep} (through : w.ThroughScheduler l)
    (taken : w.operate order l = some w') : w.sched.Advances w'.sched := by
  cases l with
  | call op =>
    obtain ⟨sched, hperform, rfl⟩ := operate_call taken
    exact Scheduler.advances_perform through hperform
  | start worker job =>
    obtain ⟨-, rfl⟩ := operate_start taken
    exact .refl w.sched
  | run worker input =>
    obtain ⟨task, -, rfl⟩ := operate_run taken
    exact Scheduler.advances_step input task w.sched

/-- **The scheduler hands out jobs**: it is running, and so is its queue, whose map is to its
heap. Then a job that is queued and due is handed out, whatever has become of its DAG. -/
structure Serving (w : World) : Prop where
  running : w.sched.running = true
  opened : w.sched.core.queue.shutdown = false
  mapped : MapsToHeap w.sched.core.queue.heap w.sched.core.queue.entryMap

/-- Pushing, marking and popping leave the queue open and its map to its heap. -/
theorem kept_serving : SchedulerCore.Kept (fun _ => True) (fun c =>
    c.queue.shutdown = false ∧ MapsToHeap c.queue.heap c.queue.entryMap) := by
  refine SchedulerCore.kept_queue (P := fun q =>
    q.shutdown = false ∧ MapsToHeap q.heap q.entryMap) ?_ ?_ ?_ _
  · exact fun q job h => ⟨h.1, h.2.insert job⟩
  · refine fun q job h => ⟨?_, h.2.remove job⟩
    rcases remove_cases q job with ⟨-, heq⟩ | ⟨-, heq⟩ <;> rw [heq] <;> exact h.1
  · exact fun q now h => ⟨h.1, h.2.dequeue now⟩

theorem Serving.operate (h : w.Serving) {l : OperationStep} (through : w.ThroughScheduler l)
    (taken : w.operate order l = some w') : w'.Serving where
  running := (advances_operate through taken).running.trans h.running
  opened := (kept_operate kept_serving (fun _ => trivial) ⟨h.opened, h.mapped⟩ through taken).1
  mapped := (kept_operate kept_serving (fun _ => trivial) ⟨h.opened, h.mapped⟩ through taken).2

/-- A scheduler that was started is serving. Nothing but `stop` ends it, and that is no operation
of these runs. -/
theorem serving_run {jobs : JobTable} {maxSize maxEntries : Option ℕ}
    {retryHandler : Retry.RetryHandler} {completeCallbacks failedCallbacks : List ℕ}
    {ls : List OperationStep}
    (run : GuardedRun (operate order) ThroughScheduler
      (init (.new jobs maxSize maxEntries retryHandler completeCallbacks failedCallbacks)) ls w) :
    w.Serving := by
  refine run.invariant (P := Serving) ⟨rfl, rfl, ?_⟩ (fun _ _ _ h => h.operate)
  intro k e he
  cases he

/-- A call of `get_next_job` pops once, since the queue is open and the scheduler running. -/
theorem Serving.getNextJob (h : w.Serving) (now : Time) :
    w.sched.getNextJob now = ((w.sched.core.queue.dequeue now).1,
      w.sched.withCore { w.sched.core with queue := (w.sched.core.queue.dequeue now).2 }) := by
  unfold Scheduler.getNextJob
  rw [if_neg]
  rw [h.running, h.opened]
  decide

variable (order) in
/-- **Calls of `get_next_job` are pops**, one after the other. -/
theorem Serving.pops (h : w.Serving) (now : Time) (n : ℕ) :
    ∃ w'', GuardedRun (World.operate order) ThroughScheduler w
        (List.replicate n (.call (.getNextJob now))) w''
      ∧ w''.Serving
      ∧ w''.sched.core.queue = (History.after JobQueue.step
        ⟨w.sched.core.jobs, w.sched.core.queue⟩ (List.replicate n (.pop now))).queue := by
  induction n generalizing w with
  | zero => exact ⟨w, .nil w, h, rfl⟩
  | succ n ih =>
    have htaken : w.operate order (.call (.getNextJob now))
        = some (w.withSched (w.sched.getNextJob now).2) := rfl
    have hthrough : w.ThroughScheduler (.call (.getNextJob now)) := rfl
    obtain ⟨w'', hrun, hserving, hqueue⟩ := ih (h.operate hthrough htaken)
    refine ⟨w'', (GuardedRun.single hthrough htaken).append hrun, hserving, ?_⟩
    rw [hqueue, List.replicate_succ, History.after_cons]
    show (History.after JobQueue.step ⟨(w.sched.getNextJob now).2.core.jobs,
      (w.sched.getNextJob now).2.core.queue⟩ _).queue = _
    rw [h.getNextJob]
    rfl

variable (order) in
/-- **What the queue contains can be handed out.** Workers only have to keep asking, at a time at
which everything is due. -/
theorem Serving.exists_handed (h : w.Serving) (waits : w.sched.core.queue.contains k = true) :
    ∃ ls w'' now, GuardedRun (World.operate order) ThroughScheduler w ls w''
      ∧ (w''.sched.getNextJob now).1 = some k := by
  obtain ⟨now, hdue⟩ := exists_allDue w.sched.core.queue
  obtain ⟨hunmarked, honHeap⟩ := h.mapped.of_contains waits
  obtain ⟨n, hpop, -⟩ := JobQueue.exists_pops ⟨w.sched.core.jobs, w.sched.core.queue⟩ hdue
    hunmarked honHeap
  obtain ⟨w'', hrun, hserving, hqueue⟩ := h.pops order now n
  refine ⟨_, w'', now, hrun, ?_⟩
  rw [hserving.getNextJob, hqueue]
  exact of_decide_eq_true hpop

/-! ## Dispatch after the failure -/

/-- **Dispatch is stopped** by a failure that made an execution of another: what it
cancelled, of the jobs that waited in the queue, `get_next_job` never returns. -/
def StopsDispatch (order : IterationOrder UUID) (e e' : DAGExecution) (w : World) : Prop :=
  ∀ ls w'' now k, GuardedRun (operate order) ThroughScheduler w ls w'' →
    k ∈ e'.cancelledJobs → k ∉ e.cancelledJobs → w.sched.core.queue.contains k = true →
    (w''.sched.getNextJob now).1 ≠ some k

/-- **After a DAG has failed**, at whatever step of whatever run, dispatch is stopped just
where there was nothing to stop: none of its unfinished jobs waited in the queue. -/
theorem stopsDispatch_iff {jobs : JobTable} {maxSize maxEntries : Option ℕ}
    {retryHandler : Retry.RetryHandler} {completeCallbacks failedCallbacks : List ℕ}
    {ls : List OperationStep} {l : OperationStep} {dagId : UUID} {e e' : DAGExecution}
    (run : GuardedRun (operate order) ThroughScheduler
      (init (.new jobs maxSize maxEntries retryHandler completeCallbacks failedCallbacks)) ls w)
    (through : w.ThroughScheduler l) (taken : w.operate order l = some w')
    (before : w.sched.executor.activeDags.get? dagId = some e)
    (after : w'.sched.executor.activeDags.get? dagId = some e')
    (alive : e.status ≠ .failed) (failed : e'.status = .failed) :
    StopsDispatch order e e' w'
      ↔ ∀ k ∈ e'.unfinished, k ∉ e.cancelledJobs →
        w'.sched.core.queue.contains k = false := by
  have hcancelled : e'.cancelledJobs = e.cancelledJobs ∪ e'.unfinished.toFinset :=
    (advances_operate through taken).executor.failsInto before after alive failed
  have hmem : ∀ k, k ∈ e'.cancelledJobs ↔ k ∈ e.cancelledJobs ∨ k ∈ e'.unfinished := by
    intro k
    rw [hcancelled, Finset.mem_union, List.mem_toFinset]
  constructor
  · intro hstops k hk hfresh
    refine Bool.eq_false_iff.mpr (fun hwaits => ?_)
    have hserving := (serving_run run).operate through taken
    obtain ⟨ls', w'', now, hrun, hhanded⟩ := hserving.exists_handed order hwaits
    exact hstops ls' w'' now k hrun ((hmem k).mpr (Or.inr hk)) hfresh hwaits hhanded
  · intro hnone ls' w'' now k _ hk hfresh hwaits
    have hunfinished := ((hmem k).mp hk).resolve_left hfresh
    exact absurd (hwaits.symm.trans (hnone k hunfinished hfresh)) (by decide)

/-! ### Two independent jobs -/

/-- A scheduler that does not retry job 1. -/
def onceScheduler : Scheduler := .new (Scheduler.onlyOnce .pending) none none {} [] []

/-- Both jobs were queued, and job 1 was handed out. -/
def pairStarted : World := init ((onceScheduler.submitDag .increasing 0 pairDag).1.getNextJob 0).2

/-- Job 1 failed. -/
def pairFailed : World :=
  pairStarted.withSched (pairStarted.sched.runJob .increasing .raising 1).1

theorem run_pairStarted : GuardedRun (operate .increasing) ThroughScheduler (init onceScheduler)
    [.call (.submitDag pairDag 0), .call (.getNextJob 0)] pairStarted := by
  have hsubmit : GuardedRun (operate .increasing) ThroughScheduler (init onceScheduler)
      [.call (.submitDag pairDag 0)] (init (onceScheduler.submitDag .increasing 0 pairDag).1) :=
    .single rfl rfl
  exact hsubmit.append (.single rfl rfl)

theorem executions_pair : ∃ e e', pairStarted.sched.executor.activeDags.get? 8 = some e
    ∧ pairFailed.sched.executor.activeDags.get? 8 = some e'
    ∧ e.status ≠ .failed ∧ 2 ∉ e.cancelledJobs
    ∧ e'.dag.failFast = true ∧ e'.status = .failed ∧ 2 ∈ e'.cancelledJobs := by
  have hbefore : (pairStarted.sched.executor.activeDags.get? 8).any
      (fun e => e.status ≠ .failed ∧ 2 ∉ e.cancelledJobs) = true := by decide +kernel
  have hafter : (pairFailed.sched.executor.activeDags.get? 8).any
      (fun e => e.dag.failFast = true ∧ e.status = .failed ∧ 2 ∈ e.cancelledJobs) = true := by
    decide +kernel
  obtain ⟨e, he, htest⟩ := (Option.any_eq_true _ _).mp hbefore
  obtain ⟨e', he', htest'⟩ := (Option.any_eq_true _ _).mp hafter
  obtain ⟨halive, hfresh⟩ := of_decide_eq_true htest
  exact ⟨e, e', he, he', halive, hfresh, of_decide_eq_true htest'⟩

/-- The DAG has failed, and what holds of it. -/
theorem stopsDispatch_iff_pair : ∃ e e', pairStarted.sched.executor.activeDags.get? 8 = some e
    ∧ pairFailed.sched.executor.activeDags.get? 8 = some e'
    ∧ (StopsDispatch .increasing e e' pairFailed
      ↔ ∀ k ∈ e'.unfinished, k ∉ e.cancelledJobs →
        pairFailed.sched.core.queue.contains k = false) := by
  obtain ⟨e, e', he, he', halive, -, -, hfailed, -⟩ := executions_pair
  exact ⟨e, e', he, he', stopsDispatch_iff run_pairStarted
    (l := .call (.runJob 1 .raising)) rfl rfl he he' halive hfailed⟩

/-- **Job 2 is handed out** after job 1 has failed and the DAG with it. -/
theorem cancelled_handed_out :
    GuardedRun (operate .increasing) ThroughScheduler (init onceScheduler)
        [.call (.submitDag pairDag 0), .call (.getNextJob 0)] pairStarted
      ∧ pairStarted.operate .increasing (.call (.runJob 1 .raising)) = some pairFailed
      ∧ ∃ e e', pairStarted.sched.executor.activeDags.get? 8 = some e
        ∧ pairFailed.sched.executor.activeDags.get? 8 = some e'
        ∧ e.status ≠ .failed ∧ e'.dag.failFast = true ∧ e'.status = .failed
        ∧ 2 ∈ e'.cancelledJobs ∧ (pairFailed.sched.getNextJob 0).1 = some 2
        ∧ ¬ StopsDispatch .increasing e e' pairFailed := by
  obtain ⟨e, e', he, he', halive, hfresh, hfast, hfailed, hcancelled⟩ := executions_pair
  have hhanded : (pairFailed.sched.getNextJob 0).1 = some 2 := by decide +kernel
  refine ⟨run_pairStarted, rfl, e, e', he, he', halive, hfast, hfailed, hcancelled, hhanded, ?_⟩
  exact fun hstops => hstops [] pairFailed 0 2 (.nil _) hcancelled hfresh (by decide +kernel)
    hhanded

end World

end JobOrchestrator
