import JobOrchestrator.Scheduler.DAGExecutor
import JobOrchestrator.Util.GuardedRun

/-!
# Runs of the DAG executor

The events an executor hears of a DAG after `start_dag`: a job completed, a
job failed, the DAG was cancelled. A run is any sequence of them, and
`run_tracked` turns what each event does to the one execution into what a
run does to it.

`Host.recording` writes down every call the executor makes. A submission is
recorded with the completed jobs at that moment.
-/

namespace JobOrchestrator

/-- **An event the executor hears.** -/
inductive DAGEvent
  /-- `on_job_complete(job_id)`. -/
  | complete (jobId : UUID) (now : Time)
  /-- `on_job_failed(job_id, error)`. -/
  | failed (jobId : UUID) (error : String) (now : Time)
  /-- `cancel_dag(dag_id)`. -/
  | cancel (dagId : UUID) (now : Time)

namespace DAGEvent

/-- The event is about a DAG or one of its jobs. -/
def Concerns (g : DAG) : DAGEvent → Prop
  | complete jobId _ => jobId ∈ g.jobs
  | failed jobId _ _ => jobId ∈ g.jobs
  | cancel dagId _ => dagId = g.id

end DAGEvent

/-! ## Recording the calls -/

/-- A call the executor made. -/
inductive DAGCall
  /-- `submit`, and the completed jobs when it was called. -/
  | submit (jobId : UUID) (completedJobs : Finset UUID)
  /-- The completion callback. -/
  | complete (dagId : UUID) (status : DAGStatus)
  /-- The failure callback. -/
  | failed (dagId : UUID) (error : String)
  deriving DecidableEq

namespace DAGCall

/-- The job a call submits, and the completed jobs it is submitted with. -/
def submitted? : DAGCall → Option (UUID × Finset UUID)
  | submit jobId completedJobs => some (jobId, completedJobs)
  | _ => none

/-- The call announces the end of a DAG. -/
def announces (dagId : UUID) : DAGCall → Bool
  | submit _ _ => false
  | complete d _ => decide (d = dagId)
  | failed d _ => decide (d = dagId)

/-- The submissions of a log, oldest first. -/
def submitCalls (log : List DAGCall) : List (UUID × Finset UUID) := log.filterMap submitted?

/-- The jobs a log submits, oldest first. -/
def submissions (log : List DAGCall) : List UUID := (submitCalls log).map Prod.fst

/-- How many calls of a log announce the end of a DAG. -/
def announcements (dagId : UUID) (log : List DAGCall) : ℕ := log.countP (announces dagId)

end DAGCall

/-- **The host that also writes down its calls**, oldest first. -/
def Host.recording {σ : Type*} (host : Host σ) : Host (σ × List DAGCall) where
  submit e k x :=
    let r := host.submit e k x.1
    ((r.1, x.2 ++ [.submit k e.completedJobs]), r.2)
  cancelJob k x :=
    let r := host.cancelJob k x.1
    ((r.1, x.2), r.2)
  onDagComplete d status x := (host.onDagComplete d status x.1, x.2 ++ [.complete d status])
  onDagFailed d error x := (host.onDagFailed d error x.1, x.2 ++ [.failed d error])

/-- A host without a state that accepts every submission. -/
def Host.accepting : Host Unit where
  submit _ k _ := ((), .ok k.str)
  cancelJob _ _ := ((), .ok true)
  onDagComplete _ _ _ := ()
  onDagFailed _ _ _ := ()

/-- DAG 7, with job 1 only. -/
def oneJobDag : DAG := DAG.addNode 1 { id := 7 }

/-- DAG 7, in which job 2 depends on job 1, without failing fast. -/
def chainDag : DAG := (DAG.addNode 2 (DAG.addNode 1 { id := 7, failFast := false })).link 1 2

theorem built_chainDag : ∃ t, chainDag.Built t := by
  have hnodes : (DAG.addNode 2 (DAG.addNode 1 { id := 7, failFast := false })).Built .fresh :=
    .addNode 2 (.addNode 1 (.new _ _ rfl rfl))
  exact ⟨_, DAG.Built.addEdge hnodes (show DAG.addEdge 1 2 _ _ = _ from rfl)⟩

theorem acyclic_chainDag : chainDag.Acyclic := by
  refine DAG.acyclic_of_lt ?_
  intro u v h
  rw [chainDag, DAG.dependsOn_link (by decide), DAG.dependsOn_addNode, DAG.dependsOn_addNode] at h
  rcases h with ⟨n, hn, -⟩ | ⟨rfl, rfl⟩
  · exact absurd hn (by simp)
  · decide

variable {σ : Type*} {order : IterationOrder UUID} {host : Host σ}

/-! ## One execution -/

/-- What an event does to the execution it is about. -/
def DAGExecution.event (order : IterationOrder UUID) (host : Host σ) (e : DAGExecution)
    (s : σ) : DAGEvent → DAGExecution × σ
  | .complete jobId now => (e.onJobComplete order host now jobId s).2
  | .failed jobId error now => e.onJobFailed host now jobId error s
  | .cancel _ now => e.cancelDag host now s

/-- **No event makes a job ready and leaves it.** -/
theorem DAGExecution.noneReady_event {e : DAGExecution} (hg : e.dag.WellFormed)
    (h : e.NoneReady) (s : σ) (ev : DAGEvent) : (e.event order host s ev).1.NoneReady := by
  cases ev with
  | complete j now => exact noneReady_onJobComplete hg h j s
  | failed j error now => exact noneReady_onJobFailed h j error s
  | cancel d now => exact noneReady_cancelDag h s

/-- A failure is announced without submitting anything. -/
theorem DAGExecution.submitCalls_failDag (now : Time) (error : String) (e : DAGExecution)
    (s : σ × List DAGCall) : DAGCall.submitCalls (e.failDag host.recording now error s).2.2
      = DAGCall.submitCalls s.2 := by
  rw [failDag]
  split
  · rfl
  · show (s.2 ++ [DAGCall.failed _ _]).filterMap DAGCall.submitted? = _
    rw [List.filterMap_append]
    exact List.append_nil _

/-- So is an end. -/
theorem DAGExecution.submitCalls_conclude (now : Time) (e : DAGExecution)
    (s : σ × List DAGCall) : DAGCall.submitCalls (e.conclude host.recording now s).2.2
      = DAGCall.submitCalls s.2 := by
  rw [conclude]
  split
  · exact submitCalls_failDag now _ e s
  · show (s.2 ++ [DAGCall.complete _ _]).filterMap DAGCall.submitted? = _
    rw [List.filterMap_append]
    exact List.append_nil _

/-- Cancelling a DAG submits and announces nothing. -/
theorem DAGExecution.log_cancelDag (now : Time) (e : DAGExecution) (s : σ × List DAGCall) :
    (e.cancelDag host.recording now s).2.2 = s.2 := by
  show (e.unfinished.foldl (fun s k => (host.recording.cancelJob k s).1) s).2 = s.2
  induction e.unfinished generalizing s with
  | nil => rfl
  | cons k ks ih =>
    rw [List.foldl_cons]
    exact ih (host.recording.cancelJob k s).1

namespace DAGExecutor

/-! ## The executor -/

/-- One event, heard by the executor. -/
def step (order : IterationOrder UUID) (host : Host σ) :
    DAGExecutor × σ → DAGEvent → Option (DAGExecutor × σ)
  | (x, s), .complete jobId now => some (x.onJobComplete order host now jobId s).2
  | (x, s), .failed jobId error now => some (x.onJobFailed host now jobId error s)
  | (x, s), .cancel dagId now => some (x.cancelDag host now dagId s).2

/-- The guard of a run in which each event is admitted by the execution of one
DAG. -/
def During (g : DAG) (ok : DAGExecution → DAGEvent → Prop) (xs : DAGExecutor × σ)
    (ev : DAGEvent) : Prop :=
  ∃ e, xs.1.activeDags.get? g.id = some e ∧ ok e ev

/-- The executor holds this execution of a DAG, and its jobs belong to it. -/
structure Tracks (g : DAG) (x : DAGExecutor) (e : DAGExecution) : Prop where
  active : x.activeDags.get? g.id = some e
  owner : ∀ k ∈ g.jobs, x.jobToDag.get? k = some g.id

theorem get?_foldl_set {dagId : UUID} (ks : List UUID) (m : OrderedDict UUID UUID) (k : UUID) :
    (ks.foldl (fun m k => m.set k dagId) m).get? k
      = if k ∈ ks then some dagId else m.get? k := by
  induction ks generalizing m with
  | nil => rfl
  | cons k' ks ih =>
    rw [List.foldl_cons, ih, OrderedDict.get?_set]
    by_cases hk : k = k'
    · simp [hk]
    · simp [hk]

/-- The execution `start_dag` leaves. -/
def startedExecution (host : Host σ) (now : Time) (g : DAG) (s : σ) : DAGExecution × σ :=
  (DAGExecution.started now g).queueAll host g.getRootNodes s

theorem tracks_startDag (now : Time) (g : DAG) (x : DAGExecutor) (s : σ) :
    Tracks g (x.startDag host now g s).2.1 (startedExecution host now g s).1 where
  active := OrderedDict.get?_set_self _ _ _
  owner k hk := by
    show (g.jobs.foldl _ x.jobToDag).get? k = _
    rw [get?_foldl_set, if_pos hk]

/-- **An event about a tracked DAG** does to the executor what it does to the
execution. -/
theorem Tracks.step {g : DAG} {x : DAGExecutor} {e : DAGExecution} (h : Tracks g x e)
    {ev : DAGEvent} (concerns : ev.Concerns g) (s : σ) :
    DAGExecutor.step order host (x, s) ev
      = some (x.put g.id (e.event order host s ev).1, (e.event order host s ev).2) := by
  cases ev with
  | complete j now =>
    show some (x.onJobComplete order host now j s).2 = _
    rw [onJobComplete, h.owner j concerns]
    simp only [h.active]
    rfl
  | failed j error now =>
    show some (x.onJobFailed host now j error s) = _
    rw [onJobFailed, h.owner j concerns]
    simp only [h.active]
    rfl
  | cancel d now =>
    have hd : d = g.id := concerns
    show some (x.cancelDag host now d s).2 = _
    rw [cancelDag, hd, h.active]
    rfl

theorem Tracks.put {g : DAG} {x : DAGExecutor} {e : DAGExecution} (h : Tracks g x e)
    (e' : DAGExecution) : Tracks g (x.put g.id e') e' where
  active := OrderedDict.get?_set_self _ _ _
  owner := h.owner

/-- **What every admitted event does to the execution, a run does to it.** -/
theorem run_tracked {g : DAG} {ok : DAGExecution → DAGEvent → Prop}
    {P : List DAGEvent → DAGExecution → σ → Prop} {x x' : DAGExecutor} {s s' : σ}
    {e : DAGExecution} {ls : List DAGEvent} (tracks : Tracks g x e) (start : P [] e s)
    (kept : ∀ ls e s ev, P ls e s → ok e ev → ev.Concerns g
      ∧ P (ls ++ [ev]) (e.event order host s ev).1 (e.event order host s ev).2)
    (run : GuardedRun (step order host) (During g ok) (x, s) ls (x', s')) :
    ∃ e', Tracks g x' e' ∧ P ls e' s' := by
  refine run.invariant_labels (P := fun ls xs => ∃ e', Tracks g xs.1 e' ∧ P ls e' xs.2)
    ⟨e, tracks, start⟩ ?_
  rintro ls ⟨y, t⟩ ev u ⟨e', htracks, hP⟩ ⟨e'', hactive, hok⟩ hstep
  rw [htracks.active, Option.some.injEq] at hactive
  subst hactive
  obtain ⟨hconcerns, hP'⟩ := kept ls e' t ev hP hok
  rw [htracks.step hconcerns, Option.some.injEq] at hstep
  subst hstep
  exact ⟨_, htracks.put _, hP'⟩

end DAGExecutor

end JobOrchestrator
