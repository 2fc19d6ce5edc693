import JobOrchestrator.Core.DAG

/-!
# The DAG executor

`scheduler/dag_executor.py`. The executor holds one `DAGExecution` for each
DAG it was given, and calls back into the scheduler to submit and to cancel
jobs. The scheduler appears here as a `Host` over an arbitrary state: what
is proved for every host holds whatever `submit` does, and the scheduler's
own host is one instance.

Jobs are released from two loops, the one over the dependents of a
completed job and the re-scan in `_check_dag_completion`. Both are
`queueReady` over a list of candidates. That the second never finds
anything is `checkDagCompletion_of_noneReady`, and it is why the first
alone decides what runs.
-/

namespace JobOrchestrator

/-- `DAGStatus`. -/
inductive DAGStatus
  | pending | running | completed | failed | cancelled
  deriving DecidableEq, Repr

/-- **`DAGExecution`**: how far the execution of a DAG has come. -/
structure DAGExecution where
  dag : DAG
  status : DAGStatus := .pending
  startedAt : Option DateTime := none
  completedAt : Option DateTime := none
  completedJobs : Finset UUID := ∅
  failedJobs : Finset UUID := ∅
  runningJobs : Finset UUID := ∅
  cancelledJobs : Finset UUID := ∅
  error : Option String := none

/-- **What the executor calls**: `submit` and `cancel_job` of its scheduler, and
its two callbacks, over a host state. An optional callback that is absent does
nothing, and an exception in one is swallowed. The execution a job is submitted
from is handed to `submit` for observers only. -/
structure Host (σ : Type*) where
  submit : DAGExecution → UUID → σ → σ × Except OrchestratorError String
  cancelJob : UUID → σ → σ × Except OrchestratorError Bool
  onDagComplete : UUID → DAGStatus → σ → σ
  onDagFailed : UUID → String → σ → σ

namespace DAGExecution

variable {σ : Type*} (order : IterationOrder UUID) (host : Host σ) (now : Time)

/-- `total_jobs`. -/
def totalJobs (e : DAGExecution) : ℕ := e.dag.jobs.length

/-- The jobs that are neither completed nor failed, in the order of the DAG. -/
def unfinished (e : DAGExecution) : List UUID :=
  e.dag.jobs.filter (fun k => k ∉ e.completedJobs ∧ k ∉ e.failedJobs)

/-- `_queue_job`: a job whose submission raises counts as failed. -/
def queueJob (job : UUID) (e : DAGExecution) (s : σ) : DAGExecution × σ :=
  match host.submit e job s with
  | (s', .ok _) => ({ e with runningJobs := insert job e.runningJobs }, s')
  | (s', .error _) => ({ e with failedJobs := insert job e.failedJobs }, s')

/-- `_is_job_ready`. It is not known to have started or ended, and all it depends on are among
the completed jobs. -/
def isJobReady (jobId : UUID) (e : DAGExecution) : Bool :=
  match e.dag.nodes.get? jobId with
  | none => false
  | some n => decide (jobId ∉ e.runningJobs ∧ jobId ∉ e.completedJobs ∧ jobId ∉ e.failedJobs
      ∧ jobId ∉ e.cancelledJobs ∧ n.dependencies ⊆ e.completedJobs)

/-- Queue those of the candidates that are ready, each looked at when its turn
comes; the ones queued are returned. -/
def queueReady : List UUID → DAGExecution → σ → List UUID × DAGExecution × σ
  | [], e, s => ([], e, s)
  | k :: ks, e, s =>
    if e.isJobReady k then
      let x := e.queueJob host k s
      let r := queueReady ks x.1 x.2
      (k :: r.1, r.2)
    else queueReady ks e s

/-- `_fail_dag`. The jobs that have not ended are added to the cancelled ones, though nothing is
done to them. -/
def failDag (error : String) (e : DAGExecution) (s : σ) : DAGExecution × σ :=
  if e.status = .failed ∨ e.status = .cancelled then (e, s)
  else
    ({ e with
        status := .failed
        completedAt := some (.utcnow now)
        error := some error
        cancelledJobs := e.cancelledJobs ∪ e.unfinished.toFinset },
      host.onDagFailed e.dag.id error s)

/-- The last part of `_check_dag_completion`, where nothing runs and nothing was
queued: the DAG ends. -/
def conclude (e : DAGExecution) (s : σ) : DAGExecution × σ :=
  if e.failedJobs.Nonempty then
    e.failDag host now (toString e.failedJobs.card ++ " job(s) failed") s
  else
    ({ e with status := .completed, completedAt := some (.utcnow now) },
      host.onDagComplete e.dag.id .completed s)

/-- **`_check_dag_completion`**. As long as jobs are running nothing happens; then what is ready
is queued, and where nothing is the execution is concluded. -/
def checkDagCompletion (e : DAGExecution) (s : σ) : DAGExecution × σ :=
  if e.runningJobs.Nonempty then (e, s)
  else
    let accounted := e.completedJobs.card + e.failedJobs.card + e.cancelledJobs.card
    let r := if accounted < e.totalJobs then e.queueReady host e.dag.jobs s else ([], e, s)
    if r.1 ≠ [] then r.2 else r.2.1.conclude host now r.2.2

/-- `execution.running_jobs.discard(job_id)` with
`execution.completed_jobs.add(job_id)`. -/
def markCompleted (jobId : UUID) (e : DAGExecution) : DAGExecution :=
  { e with
    runningJobs := e.runningJobs.erase jobId
    completedJobs := insert jobId e.completedJobs }

/-- `execution.running_jobs.discard(job_id)` with
`execution.failed_jobs.add(job_id)`. -/
def markFailed (jobId : UUID) (e : DAGExecution) : DAGExecution :=
  { e with
    runningJobs := e.runningJobs.erase jobId
    failedJobs := insert jobId e.failedJobs }

/-- The dependents of a job's node, in the order they are visited. -/
def dependentsOf (jobId : UUID) (e : DAGExecution) : List UUID :=
  match e.dag.nodes.get? jobId with
  | none => []
  | some n => order.list n.dependents

/-- **The body of `on_job_complete`**, once the execution is found. Its dependents are looked
through, and those that are ready are queued. -/
def onJobComplete (jobId : UUID) (e : DAGExecution) (s : σ) : List UUID × DAGExecution × σ :=
  let marked := e.markCompleted jobId
  let r := marked.queueReady host (marked.dependentsOf order jobId) s
  (r.1, r.2.1.checkDagCompletion host now r.2.2)

/-- **The body of `on_job_failed`**, once the execution is found. Under `fail_fast` the execution
fails, otherwise it is checked for its end. -/
def onJobFailed (jobId : UUID) (error : String) (e : DAGExecution) (s : σ) :
    DAGExecution × σ :=
  let marked := e.markFailed jobId
  if e.dag.failFast then
    marked.failDag host now ("Job " ++ jobId.str ++ " failed: " ++ error) s
  else marked.checkDagCompletion host now s

/-- **The body of `cancel_dag`**, once the execution is found. What `cancel_job` answers or
raises makes no difference. What has not ended is cancelled one by one, and the status is set,
whatever it was. -/
def cancelDag (e : DAGExecution) (s : σ) : DAGExecution × σ :=
  ({ e with
      status := .cancelled
      completedAt := some (.utcnow now)
      cancelledJobs := e.cancelledJobs ∪ e.unfinished.toFinset },
    e.unfinished.foldl (fun s k => (host.cancelJob k s).1) s)

/-- The execution `start_dag` makes, before any job is queued. -/
def started (g : DAG) : DAGExecution :=
  { dag := g, status := .running, startedAt := some (.utcnow now) }

/-- Queue every job of a list. A submission that raises is logged, and the job counts as failed.
-/
def queueAll (jobs : List UUID) (e : DAGExecution) (s : σ) : DAGExecution × σ :=
  jobs.foldl (fun x k => x.1.queueJob host k x.2) (e, s)

end DAGExecution

/-- **`DAGExecutor`**: the executions, and to which DAG each job belongs. -/
structure DAGExecutor where
  activeDags : OrderedDict UUID DAGExecution := OrderedDict.empty
  jobToDag : OrderedDict UUID UUID := OrderedDict.empty

namespace DAGExecutor

variable {σ : Type*} (order : IterationOrder UUID) (host : Host σ) (now : Time)

/-- `get_dag_for_job`. -/
def getDagForJob (jobId : UUID) (x : DAGExecutor) : Option UUID := x.jobToDag.get? jobId

/-- Put an execution back under the id it was found. -/
def put (dagId : UUID) (e : DAGExecution) (x : DAGExecutor) : DAGExecutor :=
  { x with activeDags := x.activeDags.set dagId e }

/-- **`start_dag`**. Its roots are queued, all in one go. -/
def startDag (g : DAG) (x : DAGExecutor) (s : σ) : UUID × DAGExecutor × σ :=
  let jobToDag := g.jobs.foldl (fun m k => m.set k g.id) x.jobToDag
  let r := (DAGExecution.started now g).queueAll host g.getRootNodes s
  (g.id, { activeDags := x.activeDags.set g.id r.1, jobToDag := jobToDag }, r.2)

/-- **`on_job_complete`**: the jobs newly queued are returned. -/
def onJobComplete (jobId : UUID) (x : DAGExecutor) (s : σ) : List UUID × DAGExecutor × σ :=
  match x.jobToDag.get? jobId with
  | none => ([], x, s)
  | some dagId =>
    match x.activeDags.get? dagId with
    | none => ([], x, s)
    | some e =>
      let r := e.onJobComplete order host now jobId s
      (r.1, x.put dagId r.2.1, r.2.2)

/-- **`on_job_failed`**. -/
def onJobFailed (jobId : UUID) (error : String) (x : DAGExecutor) (s : σ) :
    DAGExecutor × σ :=
  match x.jobToDag.get? jobId with
  | none => (x, s)
  | some dagId =>
    match x.activeDags.get? dagId with
    | none => (x, s)
    | some e =>
      let r := e.onJobFailed host now jobId error s
      (x.put dagId r.1, r.2)

/-- **`cancel_dag`**: whether the DAG was found. -/
def cancelDag (dagId : UUID) (x : DAGExecutor) (s : σ) : Bool × DAGExecutor × σ :=
  match x.activeDags.get? dagId with
  | none => (false, x, s)
  | some e =>
    let r := e.cancelDag host now s
    (true, x.put dagId r.1, r.2)

end DAGExecutor

/-! ## What the steps do -/

namespace DAGExecution

variable {σ : Type*} {order : IterationOrder UUID} {host : Host σ} {now : Time}

/-- **`_queue_job` adds the job to one of two sets**, after one `submit`. -/
theorem queueJob_cases (host : Host σ) (k : UUID) (e : DAGExecution) (s : σ) :
    (∃ text, (host.submit e k s).2 = .ok text
      ∧ e.queueJob host k s
        = ({ e with runningJobs := insert k e.runningJobs }, (host.submit e k s).1))
    ∨ ∃ error, (host.submit e k s).2 = .error error
      ∧ e.queueJob host k s
        = ({ e with failedJobs := insert k e.failedJobs }, (host.submit e k s).1) := by
  rw [queueJob]
  cases h : host.submit e k s with
  | mk s' answer =>
    cases answer with
    | ok text => exact Or.inl ⟨text, rfl, rfl⟩
    | error error => exact Or.inr ⟨error, rfl, rfl⟩

/-- Ready means: a node not yet in any of the four sets, whose dependencies are
all completed. -/
theorem isJobReady_iff {k : UUID} {e : DAGExecution} :
    e.isJobReady k = true ↔ ∃ n, e.dag.nodes.get? k = some n
      ∧ k ∉ e.runningJobs ∧ k ∉ e.completedJobs ∧ k ∉ e.failedJobs ∧ k ∉ e.cancelledJobs
      ∧ n.dependencies ⊆ e.completedJobs := by
  rw [isJobReady]
  cases e.dag.nodes.get? k with
  | none => simp
  | some n => simp

theorem mem_unfinished {k : UUID} {e : DAGExecution} :
    k ∈ e.unfinished ↔ k ∈ e.dag.jobs ∧ k ∉ e.completedJobs ∧ k ∉ e.failedJobs := by
  rw [unfinished, List.mem_filter, decide_eq_true_eq]

/-- **One loop step keeps it, so the loop keeps it.** -/
theorem queueReady_invariant {I : DAGExecution → σ → Prop}
    (kept : ∀ k e s, I e s → e.isJobReady k = true →
      I (e.queueJob host k s).1 (e.queueJob host k s).2)
    (ks : List UUID) {e : DAGExecution} {s : σ} (start : I e s) :
    I (e.queueReady host ks s).2.1 (e.queueReady host ks s).2.2 := by
  induction ks generalizing e s with
  | nil => exact start
  | cons k ks ih =>
    rw [queueReady]
    split
    · rename_i hready
      exact ih (kept k e s start hready)
    · exact ih start

theorem queueAll_cons (k : UUID) (ks : List UUID) (e : DAGExecution) (s : σ) :
    e.queueAll host (k :: ks) s
      = (e.queueJob host k s).1.queueAll host ks (e.queueJob host k s).2 := rfl

/-- What is kept by queueing any job is kept by queueing a list. -/
theorem queueAll_invariant {I : DAGExecution → σ → Prop}
    (kept : ∀ k e s, I e s → I (e.queueJob host k s).1 (e.queueJob host k s).2)
    (ks : List UUID) {e : DAGExecution} {s : σ} (start : I e s) :
    I (e.queueAll host ks s).1 (e.queueAll host ks s).2 := by
  induction ks generalizing e s with
  | nil => exact start
  | cons k ks ih =>
    rw [queueAll_cons]
    exact ih (kept k e s start)

/-! ### Queueing touches two sets only -/

/-- What `_queue_job` leaves alone, and that its two sets only grow. -/
structure Queued (e e' : DAGExecution) : Prop where
  dag : e'.dag = e.dag
  status : e'.status = e.status
  completedJobs : e'.completedJobs = e.completedJobs
  cancelledJobs : e'.cancelledJobs = e.cancelledJobs
  runningJobs : e.runningJobs ⊆ e'.runningJobs
  failedJobs : e.failedJobs ⊆ e'.failedJobs

namespace Queued

theorem refl (e : DAGExecution) : Queued e e :=
  ⟨rfl, rfl, rfl, rfl, Finset.Subset.refl _, Finset.Subset.refl _⟩

theorem trans {e e' e'' : DAGExecution} (h : Queued e e') (h' : Queued e' e'') :
    Queued e e'' where
  dag := h'.dag.trans h.dag
  status := h'.status.trans h.status
  completedJobs := h'.completedJobs.trans h.completedJobs
  cancelledJobs := h'.cancelledJobs.trans h.cancelledJobs
  runningJobs := h.runningJobs.trans h'.runningJobs
  failedJobs := h.failedJobs.trans h'.failedJobs

/-- A job that is ready after some queueing was ready before. -/
theorem isJobReady {e e' : DAGExecution} (h : Queued e e') {k : UUID}
    (hready : e'.isJobReady k = true) : e.isJobReady k = true := by
  rw [isJobReady_iff] at hready ⊢
  obtain ⟨n, hn, hrun, hcomp, hfail, hcanc, hdeps⟩ := hready
  rw [h.dag] at hn
  rw [h.completedJobs] at hcomp hdeps
  rw [h.cancelledJobs] at hcanc
  exact ⟨n, hn, fun hk => hrun (h.runningJobs hk), hcomp, fun hk => hfail (h.failedJobs hk),
    hcanc, hdeps⟩

end Queued

theorem queued_queueJob (host : Host σ) (k : UUID) (e : DAGExecution) (s : σ) :
    Queued e (e.queueJob host k s).1 := by
  rcases queueJob_cases host k e s with ⟨_, -, h⟩ | ⟨_, -, h⟩
  · rw [h]
    exact ⟨rfl, rfl, rfl, rfl, Finset.subset_insert _ _, Finset.Subset.refl _⟩
  · rw [h]
    exact ⟨rfl, rfl, rfl, rfl, Finset.Subset.refl _, Finset.subset_insert _ _⟩

theorem queued_queueReady (host : Host σ) (ks : List UUID) (e : DAGExecution) (s : σ) :
    Queued e (e.queueReady host ks s).2.1 :=
  queueReady_invariant (I := fun e' _ => Queued e e')
    (fun k e' s' h _ => h.trans (queued_queueJob host k e' s')) ks (Queued.refl e)

theorem queued_queueAll (host : Host σ) (ks : List UUID) (e : DAGExecution) (s : σ) :
    Queued e (e.queueAll host ks s).1 :=
  queueAll_invariant (I := fun e' _ => Queued e e')
    (fun k e' s' h => h.trans (queued_queueJob host k e' s')) ks (Queued.refl e)

/-- A job is taken up by queueing it, whatever `submit` answers. -/
theorem mem_queueJob (k : UUID) (e : DAGExecution) (s : σ) :
    k ∈ (e.queueJob host k s).1.runningJobs ∨ k ∈ (e.queueJob host k s).1.failedJobs := by
  rcases queueJob_cases host k e s with ⟨_, -, h⟩ | ⟨_, -, h⟩
  · rw [h]
    exact Or.inl (Finset.mem_insert_self _ _)
  · rw [h]
    exact Or.inr (Finset.mem_insert_self _ _)

/-- A job that was queued is not ready any more: it is running, or failed if the scheduler
refused it. -/
theorem isJobReady_queueJob_self (k : UUID) (e : DAGExecution) (s : σ) :
    (e.queueJob host k s).1.isJobReady k = false := by
  rw [Bool.eq_false_iff]
  intro hready
  obtain ⟨n, -, hrun, -, hfail, -⟩ := isJobReady_iff.mp hready
  exact (mem_queueJob k e s).elim hrun hfail

/-- **After the loop none of its candidates is ready.** -/
theorem isJobReady_queueReady {k : UUID} {ks : List UUID} (hk : k ∈ ks) (e : DAGExecution)
    (s : σ) : (e.queueReady host ks s).2.1.isJobReady k = false := by
  induction ks generalizing e s with
  | nil => exact absurd hk List.not_mem_nil
  | cons k' ks ih =>
    rw [queueReady]
    by_cases hmem : k ∈ ks
    · split
      · exact ih hmem _ _
      · exact ih hmem _ _
    · have heq : k = k' := (List.mem_cons.mp hk).resolve_right hmem
      subst heq
      split
      · rw [Bool.eq_false_iff]
        intro hready
        have hbefore := (queued_queueReady host ks _ _).isJobReady hready
        exact absurd hbefore (by rw [isJobReady_queueJob_self]; exact Bool.false_ne_true)
      · rename_i hnot
        rw [Bool.eq_false_iff]
        exact fun hready => hnot ((queued_queueReady host ks _ _).isJobReady hready)

/-- The loop does nothing where no candidate is ready. -/
theorem queueReady_of_forall {ks : List UUID} {e : DAGExecution} {s : σ}
    (h : ∀ k ∈ ks, e.isJobReady k = false) : e.queueReady host ks s = ([], e, s) := by
  induction ks with
  | nil => rfl
  | cons k ks ih =>
    rw [queueReady, h k List.mem_cons_self]
    exact ih (fun k' hk' => h k' (List.mem_cons_of_mem k hk'))

/-- A loop that queued nothing changed nothing. This is how the loop of the completion check
comes to its end. -/
theorem queueReady_eq_nil {ks : List UUID} {e : DAGExecution} {s : σ}
    (h : (e.queueReady host ks s).1 = []) : (e.queueReady host ks s).2 = (e, s) := by
  induction ks with
  | nil => rfl
  | cons k ks ih =>
    rw [queueReady] at h ⊢
    split at h
    · exact absurd h (List.cons_ne_nil _ _)
    · rename_i hnot
      rw [if_neg hnot]
      exact ih h

/-- **The completion check** waits, or queues some jobs, or ends the DAG; the last
only where nothing runs. -/
theorem checkDagCompletion_cases (host : Host σ) (now : Time) (e : DAGExecution) (s : σ) :
    (∃ ks, e.checkDagCompletion host now s = (e.queueReady host ks s).2)
    ∨ e.runningJobs = ∅ ∧ e.checkDagCompletion host now s = e.conclude host now s := by
  rw [checkDagCompletion]
  split
  · exact Or.inl ⟨[], rfl⟩
  · rename_i hrun
    rw [Finset.not_nonempty_iff_eq_empty] at hrun
    simp only
    split
    · split
      · exact Or.inl ⟨_, rfl⟩
      · rename_i hqueued
        rw [not_not] at hqueued
        refine Or.inr ⟨hrun, ?_⟩
        rw [queueReady_eq_nil hqueued]
    · exact Or.inr ⟨hrun, rfl⟩

/-! ### Nothing is left to release between two operations -/

/-- No job is ready. -/
def NoneReady (e : DAGExecution) : Prop := ∀ k, e.isJobReady k = false

/-- **The re-scan finds nothing** where no job is ready: the completion check
waits for the running jobs, and then ends the DAG. -/
theorem checkDagCompletion_of_noneReady {e : DAGExecution} (h : e.NoneReady) (s : σ) :
    e.checkDagCompletion host now s
      = if e.runningJobs.Nonempty then (e, s) else e.conclude host now s := by
  rw [checkDagCompletion, queueReady_of_forall (fun k _ => h k)]
  by_cases hrun : e.runningJobs.Nonempty
  · rw [if_pos hrun, if_pos hrun]
  · rw [if_neg hrun, if_neg hrun]
    simp

/-- Growing sets leave nothing ready where the completed jobs stay. -/
theorem NoneReady.of_subset {e e' : DAGExecution} (h : e.NoneReady) (dag : e'.dag = e.dag)
    (completedJobs : e'.completedJobs = e.completedJobs)
    (grown : ∀ k, k ∈ e.runningJobs ∨ k ∈ e.failedJobs ∨ k ∈ e.cancelledJobs →
      k ∈ e'.runningJobs ∨ k ∈ e'.failedJobs ∨ k ∈ e'.cancelledJobs) : e'.NoneReady := by
  intro k
  rw [Bool.eq_false_iff]
  intro hready
  obtain ⟨n, hn, hrun, hcomp, hfail, hcanc, hdeps⟩ := isJobReady_iff.mp hready
  have hnot : ¬ (k ∈ e.runningJobs ∨ k ∈ e.failedJobs ∨ k ∈ e.cancelledJobs) := by
    intro hk
    rcases grown k hk with hk | hk | hk
    · exact hrun hk
    · exact hfail hk
    · exact hcanc hk
  rw [not_or, not_or] at hnot
  have hbefore : e.isJobReady k = true := by
    rw [isJobReady_iff]
    exact ⟨n, by rw [← dag]; exact hn, hnot.1, by rw [← completedJobs]; exact hcomp, hnot.2.1,
      hnot.2.2, by rw [← completedJobs]; exact hdeps⟩
  rw [h k] at hbefore
  exact Bool.false_ne_true hbefore

/-- **The dependents loop leaves nothing ready.** A job that becomes ready when
`j` completes has `j` among its dependencies, so it is a dependent of `j`. -/
theorem noneReady_release (order : IterationOrder UUID) (host : Host σ) {e : DAGExecution}
    (hg : e.dag.WellFormed) (h : e.NoneReady)
    (j : UUID) (s : σ) : ((e.markCompleted j).queueReady host
      ((e.markCompleted j).dependentsOf order j) s).2.1.NoneReady := by
  intro k
  by_cases hk : k ∈ (e.markCompleted j).dependentsOf order j
  · exact isJobReady_queueReady hk _ _
  · rw [Bool.eq_false_iff]
    intro hready
    obtain ⟨n, hn, hrun, hcomp, hfail, hcanc, hdeps⟩ :=
      isJobReady_iff.mp ((queued_queueReady host _ _ _).isJobReady hready)
    have hkj : k ≠ j := fun hkj => hcomp (hkj ▸ Finset.mem_insert_self _ _)
    have hj : j ∉ n.dependencies := by
      intro hj
      obtain ⟨m, hm, hmem⟩ := hg.mirrored.mp ⟨n, hn, hj⟩
      have hdep : (e.markCompleted j).dependentsOf order j = order.list m.dependents := by
        show (match e.dag.nodes.get? j with
          | none => []
          | some n => order.list n.dependents) = _
        rw [hm]
      exact hk (hdep ▸ order.mem_list.mpr hmem)
    have hbefore : e.isJobReady k = true := by
      rw [isJobReady_iff]
      refine ⟨n, hn, fun hk' => hrun (Finset.mem_erase.mpr ⟨hkj, hk'⟩),
        fun hk' => hcomp (Finset.mem_insert_of_mem hk'), hfail, hcanc, ?_⟩
      intro d hd
      refine (Finset.mem_insert.mp (hdeps hd)).resolve_left ?_
      rintro rfl
      exact hj hd
    rw [h k] at hbefore
    exact Bool.false_ne_true hbefore

theorem noneReady_markFailed {e : DAGExecution} (h : e.NoneReady) (j : UUID) :
    (e.markFailed j).NoneReady := by
  refine h.of_subset rfl rfl ?_
  intro k hk
  by_cases hkj : k = j
  · exact Or.inr (Or.inl (hkj ▸ Finset.mem_insert_self _ _))
  · rcases hk with hk | hk | hk
    · exact Or.inl (Finset.mem_erase.mpr ⟨hkj, hk⟩)
    · exact Or.inr (Or.inl (Finset.mem_insert_of_mem hk))
    · exact Or.inr (Or.inr hk)

/-- **Starting a DAG leaves nothing ready**: a job is ready at the start only if
it is a root. -/
theorem noneReady_started (host : Host σ) (now : Time) {g : DAG} (hg : g.WellFormed) (s : σ) :
    ((started now g).queueAll host g.getRootNodes s).1.NoneReady := by
  have taken : ∀ (ks : List UUID) (e : DAGExecution) (s : σ) (k : UUID), k ∈ ks →
      k ∈ (e.queueAll host ks s).1.runningJobs ∨ k ∈ (e.queueAll host ks s).1.failedJobs := by
    intro ks
    induction ks with
    | nil => exact fun _ _ k hk => absurd hk List.not_mem_nil
    | cons k' ks ih =>
      intro e s k hk
      rw [queueAll_cons]
      rcases List.mem_cons.mp hk with rfl | hk
      · have hlater := queued_queueAll host ks (e.queueJob host k s).1
          (e.queueJob host k s).2
        exact (mem_queueJob k e s).imp (fun h => hlater.runningJobs h)
          (fun h => hlater.failedJobs h)
      · exact ih _ _ k hk
  intro k
  rw [Bool.eq_false_iff]
  intro hready
  obtain ⟨n, hn, hrun, -, hfail, -, hdeps⟩ := isJobReady_iff.mp hready
  have hq := queued_queueAll host g.getRootNodes (started now g) s
  rw [hq.dag] at hn
  rw [hq.completedJobs] at hdeps
  have hroot : k ∈ g.getRootNodes :=
    (DAG.mem_getRootNodes hg).mpr ⟨n, hn, Finset.subset_empty.mp hdeps⟩
  exact (taken g.getRootNodes _ _ k hroot).elim hrun hfail

/-! ### Ending -/

theorem failDag_of_ended {e : DAGExecution} (h : e.status = .failed ∨ e.status = .cancelled)
    (error : String) (s : σ) : e.failDag host now error s = (e, s) :=
  if_pos h

/-- What ending an execution leaves alone. -/
structure SameProgress (e e' : DAGExecution) : Prop where
  dag : e'.dag = e.dag
  completedJobs : e'.completedJobs = e.completedJobs
  failedJobs : e'.failedJobs = e.failedJobs
  runningJobs : e'.runningJobs = e.runningJobs
  cancelledJobs : e.cancelledJobs ⊆ e'.cancelledJobs

namespace SameProgress

theorem refl (e : DAGExecution) : SameProgress e e :=
  ⟨rfl, rfl, rfl, rfl, Finset.Subset.refl _⟩

theorem noneReady {e e' : DAGExecution} (h : SameProgress e e') (hnone : e.NoneReady) :
    e'.NoneReady := by
  refine hnone.of_subset h.dag h.completedJobs ?_
  rw [h.runningJobs, h.failedJobs]
  exact fun k hk => hk.imp_right (fun hk => hk.imp_right (fun hk => h.cancelledJobs hk))

end SameProgress

theorem sameProgress_failDag (host : Host σ) (now : Time) (error : String) (e : DAGExecution)
    (s : σ) :
    SameProgress e (e.failDag host now error s).1 := by
  rw [failDag]
  split
  · exact .refl e
  · exact ⟨rfl, rfl, rfl, rfl, Finset.subset_union_left⟩

theorem sameProgress_conclude (e : DAGExecution) (s : σ) :
    SameProgress e (e.conclude host now s).1 := by
  rw [conclude]
  split
  · exact sameProgress_failDag host now _ e s
  · exact ⟨rfl, rfl, rfl, rfl, Finset.Subset.refl _⟩

theorem sameProgress_cancelDag (e : DAGExecution) (s : σ) :
    SameProgress e (e.cancelDag host now s).1 :=
  ⟨rfl, rfl, rfl, rfl, Finset.subset_union_left⟩

/-- The completion check, where no job is ready, changes neither the graph nor
the progress. -/
theorem sameProgress_checkDagCompletion {e : DAGExecution} (h : e.NoneReady) (s : σ) :
    SameProgress e (e.checkDagCompletion host now s).1 := by
  rw [checkDagCompletion_of_noneReady h]
  split
  · exact .refl e
  · exact sameProgress_conclude e s

/-- **Between two operations no job is ready**: every operation keeps it. -/
theorem noneReady_onJobComplete {e : DAGExecution} (hg : e.dag.WellFormed) (h : e.NoneReady)
    (j : UUID) (s : σ) : (e.onJobComplete order host now j s).2.1.NoneReady := by
  have hrel := noneReady_release order host hg h j s
  exact (sameProgress_checkDagCompletion hrel _).noneReady hrel

theorem noneReady_onJobFailed {e : DAGExecution} (h : e.NoneReady) (j : UUID)
    (error : String) (s : σ) : (e.onJobFailed host now j error s).1.NoneReady := by
  have hmark := noneReady_markFailed h j
  rw [onJobFailed]
  split
  · exact (sameProgress_failDag host now _ _ s).noneReady hmark
  · exact (sameProgress_checkDagCompletion hmark s).noneReady hmark

theorem noneReady_cancelDag {e : DAGExecution} (h : e.NoneReady) (s : σ) :
    (e.cancelDag host now s).1.NoneReady :=
  (sameProgress_cancelDag e s).noneReady h

end DAGExecution

end JobOrchestrator
