import JobOrchestrator.Scheduler.DAGPartition
import JobOrchestrator.Util.History

/-!
# The counts of an executor

An executor is called to start graphs, and hears of their jobs. `accounted_iff_keepsApart` says
for every sequence of calls when the four sets of every execution are disjoint throughout it, so
that the counts that `get_dag_status` reports add up: just when no call cancels a job that runs,
and no report is one of a job that is in another set already.

The second is no condition where each graph is started once and only jobs report that were
submitted and have not reported yet. There `accounted_iff_cancelsNoneRunning` says that the
first is all.
-/

namespace JobOrchestrator

/-! ## The executor -/

/-- **A call of the executor**: a graph is started, or something is heard of one. -/
inductive ExecutorCall
  /-- `start_dag(dag)`, of a graph as the building operations make them. -/
  | start (g : DAG) (wellFormed : g.WellFormed) (now : Time)
  | event (ev : DAGEvent)

namespace DAGExecutor

variable {σ : Type*} {order : IterationOrder UUID} {host : Host σ}

/-- **The executor after a call.** -/
def call (order : IterationOrder UUID) (host : Host σ) :
    DAGExecutor × σ → ExecutorCall → DAGExecutor × σ
  | (x, s), .start g _ now => (x.startDag host now g s).2
  | (x, s), .event (.complete jobId now) => (x.onJobComplete order host now jobId s).2
  | (x, s), .event (.failed jobId error now) => x.onJobFailed host now jobId error s
  | (x, s), .event (.cancel dagId now) => (x.cancelDag host now dagId s).2

/-- The id under which an event looks for an execution. -/
def dagIdOf (x : DAGExecutor) : DAGEvent → Option UUID
  | .complete jobId _ => x.getDagForJob jobId
  | .failed jobId _ _ => x.getDagForJob jobId
  | .cancel dagId _ => some dagId

/-- The execution that an event finds. -/
def concerned (x : DAGExecutor) (ev : DAGEvent) : Option DAGExecution :=
  (x.dagIdOf ev).bind x.getStatus

/-- **The four sets of every execution are disjoint**, and the counts that are reported add up
to no more than the total. -/
structure Accounted (x : DAGExecutor) : Prop where
  partitioned : ∀ dagId e, x.getStatus dagId = some e → e.Partitioned
  counts : ∀ jobs dagId report, x.getDagStatus jobs dagId = some report →
    report.completed + report.failed + report.running + report.cancelled ≤ report.total

/-- **The calls that keep the four sets apart.** -/
def KeepsApart (x : DAGExecutor) : ExecutorCall → Prop
  | .start _ _ _ => True
  | .event ev => ∀ e, x.concerned ev = some e → e.KeepsApart ev

/-- The counts that are reported are those of the sets, so they add up where the sets part the
jobs. -/
theorem accounted_iff {x : DAGExecutor} :
    x.Accounted ↔ ∀ dagId e, x.getStatus dagId = some e → e.Partitioned := by
  refine ⟨Accounted.partitioned, fun h => ⟨h, ?_⟩⟩
  intro jobs dagId report hreport
  obtain ⟨e, he, rfl⟩ := Option.map_eq_some_iff.mp hreport
  exact (h dagId e he).card_le

/-- **What an event does**: nothing, or what it does to the execution it finds. -/
theorem call_event_cases (order : IterationOrder UUID) (host : Host σ) (x : DAGExecutor) (s : σ)
    (ev : DAGEvent) :
    (x.concerned ev = none ∧ call order host (x, s) (.event ev) = (x, s))
    ∨ ∃ dagId e, x.getStatus dagId = some e ∧ x.concerned ev = some e
      ∧ call order host (x, s) (.event ev)
        = (x.put dagId (e.event order host s ev).1, (e.event order host s ev).2) := by
  cases hd : x.dagIdOf ev with
  -- a job of no graph, or a graph that is not active
  | none =>
    refine Or.inl ⟨by simp [concerned, hd], ?_⟩
    cases ev with
    | complete j now =>
      have hown : x.jobToDag.get? j = none := hd
      simp [call, onJobComplete, hown]
    | failed j error now =>
      have hown : x.jobToDag.get? j = none := hd
      simp [call, onJobFailed, hown]
    | cancel d now => cases hd
  | some d =>
    cases he : x.getStatus d with
    | none =>
      have hget : x.activeDags.get? d = none := he
      refine Or.inl ⟨by simp [concerned, hd, he], ?_⟩
      cases ev with
      | complete j now =>
        have hown : x.jobToDag.get? j = some d := hd
        simp [call, onJobComplete, hown, hget]
      | failed j error now =>
        have hown : x.jobToDag.get? j = some d := hd
        simp [call, onJobFailed, hown, hget]
      | cancel d' now =>
        obtain rfl := Option.some.inj hd
        simp [call, cancelDag, hget]
    | some e =>
      have hget : x.activeDags.get? d = some e := he
      refine Or.inr ⟨d, e, he, by simp [concerned, hd, he], ?_⟩
      cases ev with
      | complete j now =>
        have hown : x.jobToDag.get? j = some d := hd
        simp [call, onJobComplete, hown, hget, DAGExecution.event]
      | failed j error now =>
        have hown : x.jobToDag.get? j = some d := hd
        simp [call, onJobFailed, hown, hget, DAGExecution.event]
      | cancel d' now =>
        obtain rfl := Option.some.inj hd
        simp [call, cancelDag, hget, DAGExecution.event]

/-- The graphs that were started are well formed. -/
def WellFormed (x : DAGExecutor) : Prop :=
  ∀ dagId e, x.getStatus dagId = some e → e.dag.WellFormed

theorem getStatus_put (dagId dagId' : UUID) (e : DAGExecution) (x : DAGExecutor) :
    (x.put dagId e).getStatus dagId' = if dagId' = dagId then some e else x.getStatus dagId' :=
  OrderedDict.get?_set _ _ _ _

theorem getStatus_startDag (now : Time) (g : DAG) (x : DAGExecutor) (s : σ) (dagId : UUID) :
    (x.startDag host now g s).2.1.getStatus dagId
      = if dagId = g.id then some (startedExecution host now g s).1 else x.getStatus dagId :=
  OrderedDict.get?_set _ _ _ _

theorem WellFormed.call {x : DAGExecutor} (h : x.WellFormed) (s : σ) (c : ExecutorCall) :
    (call order host (x, s) c).1.WellFormed := by
  intro d e he
  cases c with
  | start g wellFormed now =>
    rw [show DAGExecutor.call order host (x, s) (.start g wellFormed now)
      = (x.startDag host now g s).2 from rfl, getStatus_startDag] at he
    split at he
    · obtain rfl := Option.some.inj he
      rw [startedExecution, (DAGExecution.queued_queueAll host _ _ s).dag]
      exact wellFormed
    · exact h d e he
  | event ev =>
    rcases call_event_cases order host x s ev with ⟨-, heq⟩ | ⟨d', e', he', -, heq⟩
    · rw [heq] at he
      exact h d e he
    · rw [heq, getStatus_put] at he
      split at he
      · obtain rfl := Option.some.inj he
        rw [DAGExecution.dag_event]
        exact h d' e' he'
      · exact h d e he

/-- **One call** keeps the accounts exactly where it adds no job to a second set. -/
theorem accounted_call_iff {x : DAGExecutor} (hg : x.WellFormed) (h : x.Accounted) (s : σ)
    (c : ExecutorCall) : (call order host (x, s) c).1.Accounted ↔ x.KeepsApart c := by
  rw [accounted_iff] at h ⊢
  cases c with
  | start g wellFormed now =>
    refine iff_of_true (fun d e he => ?_) trivial
    rw [show call order host (x, s) (.start g wellFormed now) = (x.startDag host now g s).2
      from rfl, getStatus_startDag] at he
    split at he
    · obtain rfl := Option.some.inj he
      exact DAGExecution.partitioned_started wellFormed host now s
    · exact h d e he
  | event ev =>
    rcases call_event_cases order host x s ev with ⟨hnone, heq⟩ | ⟨d, e, he, hsome, heq⟩
    · rw [heq]
      refine iff_of_true h (fun e he => ?_)
      rw [hnone] at he
      exact absurd he (by simp)
    · have hevent : (e.event order host s ev).1.Partitioned ↔ e.KeepsApart ev :=
        DAGExecution.partitioned_event_iff (hg d e he) (h d e he) s ev
      rw [heq]
      constructor
      · intro h' e' he'
        obtain rfl := Option.some.inj (hsome.symm.trans he')
        refine hevent.mp (h' d _ ?_)
        rw [getStatus_put, if_pos rfl]
      · intro hkeeps d' e' he'
        rw [getStatus_put] at he'
        split at he'
        · obtain rfl := Option.some.inj he'
          exact hevent.mpr (hkeeps e hsome)
        · exact h d' e' he'

/-- **When the progress sets stay apart**, for every sequence of calls on any graphs and any
scheduler below the executor: throughout the sequences of which every call keeps them apart, and
throughout no others. -/
theorem accounted_iff_keepsApart (order : IterationOrder UUID) (host : Host σ) (s : σ)
    (cs : List ExecutorCall) :
    (∀ ds, ds <+: cs → (History.after (call order host) ({}, s) ds).1.Accounted)
      ↔ History.Admitted (call order host) (fun xs c => xs.1.KeepsApart c) ({}, s) cs :=
  History.throughout_iff_admitted (P := fun xs : DAGExecutor × σ => xs.1.Accounted)
    (I := fun xs => xs.1.WellFormed) (fun xs c hg h => accounted_call_iff hg h xs.2 c)
    (fun xs c hg => hg.call xs.2 c) (fun _ _ he => absurd he (by simp [getStatus]))
    (accounted_iff.mpr (fun _ _ he => absurd he (by simp [getStatus]))) cs

end DAGExecutor

/-! ## Reports of jobs that are executing -/

/-- **The host that also keeps which jobs are executing**: a job is from when it is accepted. -/
def Host.tracking {σ : Type*} (host : Host σ) : Host (σ × Finset UUID) where
  submit e k x :=
    let r := host.submit e k x.1
    ((r.1, match r.2 with
      | .ok _ => insert k x.2
      | .error _ => x.2), r.2)
  cancelJob k x :=
    let r := host.cancelJob k x.1
    ((r.1, x.2), r.2)
  onDagComplete d status x := (host.onDagComplete d status x.1, x.2)
  onDagFailed d error x := (host.onDagFailed d error x.1, x.2)

/-- A job that reports is executing no longer. -/
def DAGEvent.reported (executing : Finset UUID) : DAGEvent → Finset UUID
  | .complete j _ => executing.erase j
  | .failed j _ _ => executing.erase j
  | .cancel _ _ => executing

namespace DAGExecution

variable {σ : Type*} {order : IterationOrder UUID} {host : Host σ} {e e' : DAGExecution}
  {s s' : σ × Finset UUID}

/-- **What releasing jobs does to those that are executing**: the jobs that come to execute are
jobs of the DAG, and run. -/
structure Executes (e : DAGExecution) (s : σ × Finset UUID) (e' : DAGExecution)
    (s' : σ × Finset UUID) : Prop where
  dag : e'.dag = e.dag
  runningJobs : e.runningJobs ⊆ e'.runningJobs
  executing : ∀ k ∈ s'.2, k ∈ s.2 ∨ k ∈ e'.runningJobs ∧ k ∈ e.dag.jobs

namespace Executes

theorem refl (e : DAGExecution) (s : σ × Finset UUID) : Executes e s e s :=
  ⟨rfl, Finset.Subset.refl _, fun _ hk => Or.inl hk⟩

theorem trans {e'' : DAGExecution} {s'' : σ × Finset UUID} (h : Executes e s e' s')
    (h' : Executes e' s' e'' s'') : Executes e s e'' s'' where
  dag := h'.dag.trans h.dag
  runningJobs := h.runningJobs.trans h'.runningJobs
  executing k hk := by
    rcases h'.executing k hk with hold | ⟨hrun, hjob⟩
    · exact (h.executing k hold).imp_right (fun hk => ⟨h'.runningJobs hk.1, hk.2⟩)
    · rw [h.dag] at hjob
      exact Or.inr ⟨hrun, hjob⟩

/-- An ending that submits nothing leaves every set and every executing job as it was. -/
theorem of_sameProgress (h : SameProgress e e') (executing : s'.2 = s.2) : Executes e s e' s' :=
  ⟨h.dag, by rw [h.runningJobs], fun k hk => Or.inl (executing ▸ hk)⟩

end Executes

theorem executes_queueJob (host : Host σ) {k : UUID} (hk : k ∈ e.dag.jobs) (s : σ × Finset UUID) :
    Executes e s (e.queueJob host.tracking k s).1 (e.queueJob host.tracking k s).2 := by
  have hsubmit : (host.tracking.submit e k s).1.2 = match (host.tracking.submit e k s).2 with
      | .ok _ => insert k s.2
      | .error _ => s.2 := rfl
  rcases queueJob_cases host.tracking k e s with ⟨text, htext, heq⟩ | ⟨error, herror, heq⟩
  · rw [htext] at hsubmit
    rw [heq]
    refine ⟨rfl, Finset.subset_insert _ _, fun k' hk' => ?_⟩
    rw [hsubmit] at hk'
    rcases Finset.mem_insert.mp hk' with rfl | hold
    · exact Or.inr ⟨Finset.mem_insert_self _ _, hk⟩
    · exact Or.inl hold
  · rw [herror] at hsubmit
    rw [heq]
    refine ⟨rfl, Finset.Subset.refl _, fun k' hk' => ?_⟩
    rw [hsubmit] at hk'
    exact Or.inl hk'

theorem executes_queueReady (hg : e.dag.WellFormed) (host : Host σ) (ks : List UUID)
    (s : σ × Finset UUID) : Executes e s (e.queueReady host.tracking ks s).2.1
      (e.queueReady host.tracking ks s).2.2 := by
  refine queueReady_invariant (I := fun e' s' => Executes e s e' s') ?_ ks (.refl e s)
  intro k e' s' h hready
  obtain ⟨n, hn, -⟩ := isJobReady_iff.mp hready
  refine h.trans (executes_queueJob host ?_ s')
  rw [h.dag] at hn ⊢
  exact (DAG.mem_jobs_iff hg).mpr ⟨n, hn⟩

theorem executes_queueAll (host : Host σ) (ks : List UUID) (hks : ∀ k ∈ ks, k ∈ e.dag.jobs)
    (s : σ × Finset UUID) : Executes e s (e.queueAll host.tracking ks s).1
      (e.queueAll host.tracking ks s).2 := by
  induction ks generalizing e s with
  | nil => exact .refl e s
  | cons k ks ih =>
    rw [queueAll_cons]
    have hfirst := executes_queueJob host (hks k List.mem_cons_self) s
    refine hfirst.trans (ih ?_ _)
    rw [hfirst.dag]
    exact fun k' hk' => hks k' (List.mem_cons_of_mem k hk')

theorem executes_failDag (host : Host σ) (now : Time) (error : String) (e : DAGExecution)
    (s : σ × Finset UUID) : Executes e s (e.failDag host.tracking now error s).1
      (e.failDag host.tracking now error s).2 := by
  refine .of_sameProgress (sameProgress_failDag _ now error e s) ?_
  rw [failDag]
  split <;> rfl

theorem executes_checkDagCompletion (hg : e.dag.WellFormed) (host : Host σ) (now : Time)
    (s : σ × Finset UUID) : Executes e s (e.checkDagCompletion host.tracking now s).1
      (e.checkDagCompletion host.tracking now s).2 := by
  rcases checkDagCompletion_cases host.tracking now e s with ⟨ks, heq⟩ | ⟨-, heq⟩
  · rw [heq]
    exact executes_queueReady hg host ks s
  · rw [heq, conclude]
    split
    · exact executes_failDag host now _ e s
    · exact ⟨rfl, Finset.Subset.refl _, fun k hk => Or.inl hk⟩

/-- The job that an event is a report of does not run any longer, the others do. -/
def without (e : DAGExecution) : DAGEvent → DAGExecution
  | .complete j _ => e.markCompleted j
  | .failed j _ _ => e.markFailed j
  | .cancel _ _ => e

/-- What follows a report: the job is out of the running ones already, and whatever executes from
then on was submitted by it. -/
theorem executes_event (hg : e.dag.WellFormed) (s : σ × Finset UUID) (ev : DAGEvent) :
    Executes (e.without ev) s (e.event order host.tracking s ev).1
      (e.event order host.tracking s ev).2 := by
  cases ev with
  | complete j now =>
    have hrel := executes_queueReady (e := e.markCompleted j) hg host
      ((e.markCompleted j).dependentsOf order j) s
    exact hrel.trans (executes_checkDagCompletion (by rw [hrel.dag]; exact hg) host now _)
  | failed j error now =>
    show Executes (e.markFailed j) s (e.onJobFailed host.tracking now j error s).1
      (e.onJobFailed host.tracking now j error s).2
    rw [onJobFailed]
    split
    · exact executes_failDag host now _ (e.markFailed j) s
    · exact executes_checkDagCompletion (e := e.markFailed j) hg host now s
  | cancel d now =>
    refine .of_sameProgress (sameProgress_cancelDag e s) ?_
    show (e.unfinished.foldl (fun s k => (host.tracking.cancelJob k s).1) s).2 = s.2
    induction e.unfinished generalizing s with
    | nil => rfl
    | cons k ks ih =>
      rw [List.foldl_cons]
      exact ih (host.tracking.cancelJob k s).1

/-- **The events that cancel no job that runs.** -/
def CancelsNoneRunning (e : DAGExecution) : DAGEvent → Prop
  | .complete _ _ => True
  | .failed j _ _ => e.dag.failFast = true → e.Ended ∨ ∀ k ∈ e.runningJobs, k = j
  | .cancel _ _ => e.runningJobs = ∅

end DAGExecution

namespace DAGExecutor

variable {σ : Type*} {order : IterationOrder UUID} {host : Host σ}

/-- **The executor after a call**, and the jobs that are executing then. -/
def trackedCall (order : IterationOrder UUID) (host : Host σ) :
    DAGExecutor × (σ × Finset UUID) → ExecutorCall → DAGExecutor × (σ × Finset UUID)
  | xs, .start g wellFormed now => call order host.tracking xs (.start g wellFormed now)
  | (x, s, executing), .event ev =>
    call order host.tracking (x, s, ev.reported executing) (.event ev)

/-- **The calls that keep to the protocol**: a graph is started once, and shares no job with
another, and the jobs that report are executing. -/
def InTurn (xs : DAGExecutor × (σ × Finset UUID)) : ExecutorCall → Prop
  | .start g _ _ => xs.1.getStatus g.id = none ∧ ∀ k ∈ g.jobs, xs.1.getDagForJob k = none
  | .event (.complete j _) => j ∈ xs.2.2
  | .event (.failed j _ _) => j ∈ xs.2.2
  | .event (.cancel _ _) => True

/-- **The calls that cancel no job that runs.** -/
def CancelsNoneRunning (x : DAGExecutor) : ExecutorCall → Prop
  | .start _ _ _ => True
  | .event ev => ∀ e, x.concerned ev = some e → e.CancelsNoneRunning ev

/-- **Every job that is executing runs** in the execution of its DAG. -/
structure Tracked (x : DAGExecutor) (executing : Finset UUID) : Prop where
  wellFormed : x.WellFormed
  owner : ∀ dagId e, x.getStatus dagId = some e → ∀ k ∈ e.dag.jobs, x.getDagForJob k = some dagId
  running : ∀ k ∈ executing, ∃ dagId e, x.getDagForJob k = some dagId
    ∧ x.getStatus dagId = some e ∧ k ∈ e.runningJobs

theorem getDagForJob_startDag (now : Time) (g : DAG) (x : DAGExecutor) (s : σ) (k : UUID) :
    (x.startDag host now g s).2.1.getDagForJob k
      = if k ∈ g.jobs then some g.id else x.getDagForJob k :=
  get?_foldl_set g.jobs x.jobToDag k

/-- A graph that is started is tracked from then on. -/
theorem Tracked.start {x : DAGExecutor} {s : σ × Finset UUID} (h : Tracked x s.2) {g : DAG}
    (hg : g.WellFormed) (now : Time) (unknown : x.getStatus g.id = none)
    (unowned : ∀ k ∈ g.jobs, x.getDagForJob k = none) :
    Tracked (x.startDag host.tracking now g s).2.1 (x.startDag host.tracking now g s).2.2.2 := by
  have hroots : ∀ k ∈ g.getRootNodes, k ∈ g.jobs := by
    intro k hk
    obtain ⟨n, hn, -⟩ := (DAG.mem_getRootNodes hg).mp hk
    exact (DAG.mem_jobs_iff hg).mpr ⟨n, hn⟩
  have hexec : DAGExecution.Executes (.started now g) s (startedExecution host.tracking now g s).1
      (startedExecution host.tracking now g s).2 :=
    DAGExecution.executes_queueAll host g.getRootNodes hroots s
  have hdag : (startedExecution host.tracking now g s).1.dag = g := hexec.dag
  have hwf : (call .increasing host.tracking (x, s) (.start g hg now)).1.WellFormed :=
    h.wellFormed.call s _
  refine ⟨hwf, ?_, ?_⟩
  · intro d e he k hk
    rw [getStatus_startDag] at he
    rw [getDagForJob_startDag]
    split at he
    · rename_i hd
      obtain rfl := Option.some.inj he
      rw [hdag] at hk
      rw [if_pos hk, hd]
    · have hown := h.owner d e he k hk
      have hnot : k ∉ g.jobs := fun hmem => by simp [unowned k hmem] at hown
      rw [if_neg hnot, hown]
  · intro k hk
    rcases hexec.executing k hk with hold | ⟨hrun, hjob⟩
    · obtain ⟨d, e, hown, he, hrun⟩ := h.running k hold
      refine ⟨d, e, ?_, ?_, hrun⟩
      · have hnot : k ∉ g.jobs := fun hmem => by simp [unowned k hmem] at hown
        rw [getDagForJob_startDag, if_neg hnot, hown]
      · have hne : d ≠ g.id := by
          rintro rfl
          simp [unknown] at he
        rw [getStatus_startDag, if_neg hne, he]
    · have hmem : k ∈ g.jobs := hjob
      refine ⟨g.id, _, ?_, ?_, hrun⟩
      · rw [getDagForJob_startDag, if_pos hmem]
      · rw [getStatus_startDag, if_pos rfl]

theorem getDagForJob_put (dagId k : UUID) (e : DAGExecution) (x : DAGExecutor) :
    (x.put dagId e).getDagForJob k = x.getDagForJob k := rfl

/-- A job that goes on executing has not reported, so that its execution still runs it. -/
theorem mem_running_without {e : DAGExecution} {ev : DAGEvent} {executing : Finset UUID} {k : UUID}
    (hk : k ∈ ev.reported executing) (hrun : k ∈ e.runningJobs) :
    k ∈ (e.without ev).runningJobs := by
  cases ev with
  | complete j now => exact Finset.mem_erase.mpr ⟨(Finset.mem_erase.mp hk).1, hrun⟩
  | failed j error now => exact Finset.mem_erase.mpr ⟨(Finset.mem_erase.mp hk).1, hrun⟩
  | cancel d now => exact hrun

theorem mem_of_mem_reported {ev : DAGEvent} {executing : Finset UUID} {k : UUID}
    (hk : k ∈ ev.reported executing) : k ∈ executing := by
  cases ev with
  | complete j now => exact Finset.mem_of_mem_erase hk
  | failed j error now => exact Finset.mem_of_mem_erase hk
  | cancel d now => exact hk

/-- An event leaves every job that is executing running in its own execution. -/
theorem Tracked.event {x : DAGExecutor} {s : σ} {executing : Finset UUID}
    (h : Tracked x executing) (ev : DAGEvent) :
    Tracked (trackedCall order host (x, s, executing) (.event ev)).1
      (trackedCall order host (x, s, executing) (.event ev)).2.2 := by
  have hwf : (trackedCall order host (x, s, executing) (.event ev)).1.WellFormed :=
    h.wellFormed.call (s, ev.reported executing) (.event ev)
  have hold : Tracked x (ev.reported executing) :=
    ⟨h.wellFormed, h.owner, fun k hk => h.running k (mem_of_mem_reported hk)⟩
  rcases call_event_cases order host.tracking x (s, ev.reported executing) ev with
    ⟨-, heq⟩ | ⟨d, e, he, -, heq⟩
  · rw [trackedCall, heq]
    exact hold
  · have hexec : DAGExecution.Executes (e.without ev) (s, ev.reported executing)
        (e.event order host.tracking (s, ev.reported executing) ev).1
        (e.event order host.tracking (s, ev.reported executing) ev).2 :=
      DAGExecution.executes_event (h.wellFormed d e he) _ ev
    have hdag : (e.event order host.tracking (s, ev.reported executing) ev).1.dag = e.dag :=
      DAGExecution.dag_event e _ ev
    rw [trackedCall, heq] at hwf ⊢
    refine ⟨hwf, ?_, ?_⟩
    · intro d' e' he' k hk
      rw [getStatus_put] at he'
      rw [getDagForJob_put]
      split at he'
      · rename_i hd
        obtain rfl := Option.some.inj he'
        rw [hdag] at hk
        rw [hd]
        exact h.owner d e he k hk
      · exact h.owner d' e' he' k hk
    · intro k hk
      -- a job that executes was executing before, or this event has submitted it
      rcases hexec.executing k hk with hgoes | ⟨hrun, hjob⟩
      · obtain ⟨d', e', hown, he', hrun⟩ := hold.running k hgoes
        by_cases hd : d' = d
        · subst hd
          obtain rfl := Option.some.inj (he.symm.trans he')
          refine ⟨d', _, hown, by rw [getStatus_put, if_pos rfl], ?_⟩
          exact hexec.runningJobs (mem_running_without hgoes hrun)
        · exact ⟨d', e', hown, by rw [getStatus_put, if_neg hd, he'], hrun⟩
      · have hjob' : k ∈ e.dag.jobs := by
          cases ev <;> exact hjob
        exact ⟨d, _, h.owner d e he k hjob', by rw [getStatus_put, if_pos rfl], hrun⟩

theorem Tracked.call {xs : DAGExecutor × (σ × Finset UUID)} (h : Tracked xs.1 xs.2.2)
    {c : ExecutorCall} (inTurn : InTurn xs c) :
    Tracked (trackedCall order host xs c).1 (trackedCall order host xs c).2.2 := by
  obtain ⟨x, s, executing⟩ := xs
  cases c with
  | start g wellFormed now => exact h.start wellFormed now inTurn.1 inTurn.2
  | event ev => exact h.event ev

/-- **A job that reports runs** in the execution that its report finds, so that the report is no
condition. -/
theorem Tracked.keepsApart_iff {xs : DAGExecutor × (σ × Finset UUID)} (h : Tracked xs.1 xs.2.2)
    (accounted : xs.1.Accounted) {c : ExecutorCall} (inTurn : InTurn xs c) :
    xs.1.KeepsApart c ↔ xs.1.CancelsNoneRunning c := by
  obtain ⟨x, s, executing⟩ := xs
  -- the execution that a report of an executing job finds
  have hfound : ∀ {j e}, j ∈ executing → (x.getDagForJob j).bind x.getStatus = some e →
      j ∈ e.dag.jobs ∧ j ∉ e.completedJobs ∧ j ∉ e.failedJobs ∧ j ∉ e.cancelledJobs := by
    intro j e hj he
    obtain ⟨d, e', hown, he', hrun⟩ := h.running j hj
    rw [hown, Option.bind_some, he', Option.some.injEq] at he
    subst he
    have hparts := DAGExecution.partitioned_iff_forall.mp (accounted.partitioned d e' he') j
    have hrunning := hparts.2.2.1 hrun
    exact ⟨hrunning.1, fun hk => (hparts.1 hk).2.2.1 hrun, fun hk => (hparts.2.1 hk).2.1 hrun,
      hrunning.2⟩
  cases c with
  | start g wellFormed now => exact Iff.rfl
  | event ev =>
    refine forall_congr' (fun e => imp_congr_right (fun he => ?_))
    cases ev with
    | complete j now =>
      obtain ⟨hjob, -, hfail, hcanc⟩ := hfound inTurn he
      exact iff_of_true ⟨hjob, hfail, hcanc⟩ trivial
    | failed j error now =>
      obtain ⟨hjob, hcomp, -, hcanc⟩ := hfound inTurn he
      exact and_iff_right ⟨hjob, hcomp, hcanc⟩
    | cancel d now => exact Iff.rfl

/-- **Where each graph is started once and only executing jobs report**, the progress sets stay
apart throughout the sequences of which no call cancels a job that runs, and throughout no
others. -/
theorem accounted_iff_cancelsNoneRunning (order : IterationOrder UUID) (host : Host σ) (s : σ)
    {cs : List ExecutorCall}
    (inTurn : History.Admitted (trackedCall order host) InTurn ({}, s, ∅) cs) :
    (∀ ds, ds <+: cs → (History.after (trackedCall order host) ({}, s, ∅) ds).1.Accounted)
      ↔ History.Admitted (trackedCall order host) (fun xs c => xs.1.CancelsNoneRunning c)
        ({}, s, ∅) cs := by
  refine History.throughout_iff_of_admitted (P := fun xs => xs.1.Accounted)
    (I := fun xs => Tracked xs.1 xs.2.2) ?_ (fun xs c h hturn => h.call hturn) inTurn ?_ ?_
  · rintro ⟨x, s, executing⟩ c h hturn haccounted
    rw [← h.keepsApart_iff haccounted hturn]
    cases c with
    | start g wellFormed now => exact accounted_call_iff h.wellFormed haccounted _ _
    | event ev => exact accounted_call_iff h.wellFormed haccounted _ _
  · refine ⟨fun _ _ he => ?_, fun _ _ he => ?_, fun k hk => absurd hk (Finset.notMem_empty k)⟩
    · exact absurd he (by simp [getStatus])
    · exact absurd he (by simp [getStatus])
  · exact accounted_iff.mpr (fun _ _ he => absurd he (by simp [getStatus]))

/-- A DAG of two jobs without dependencies, which fails fast. -/
def twoRoots : DAG := DAG.addNode 2 (DAG.addNode 1 { id := 7 })

theorem wellFormed_twoRoots : twoRoots.WellFormed :=
  ((DAG.WellFormed.of_new rfl rfl).addNode 1).addNode 2

/-- It is started, and an event of it is heard. -/
def twoRootsCalls (ev : DAGEvent) : List ExecutorCall :=
  [.start twoRoots wellFormed_twoRoots 0, .event ev]

/-- The executor then. -/
def twoRootsAfter (ev : DAGEvent) : DAGExecutor :=
  (History.after (trackedCall .increasing .accepting) ({}, (), ∅) (twoRootsCalls ev)).1

/-- The counts of a report, and its total. -/
def countsOf (dagId : UUID) (x : DAGExecutor) : Option (ℕ × ℕ × ℕ × ℕ × ℕ) :=
  (x.getDagStatus .fresh dagId).map
    (fun r => (r.completed, r.failed, r.running, r.cancelled, r.total))

/-- **The sets of an execution overlap** where one of two jobs that are executing fails: the other
is counted as running and as cancelled, so that the counts add up to three of two jobs. Where the
DAG is cancelled, both jobs are. -/
theorem not_accounted_twoRoots :
    (History.Admitted (trackedCall .increasing .accepting) InTurn ({}, (), ∅)
        (twoRootsCalls (.failed 1 "no" 1))
      ∧ (twoRootsAfter (.failed 1 "no" 1)).countsOf 7 = some (0, 1, 1, 1, 2)
      ∧ ¬ (twoRootsAfter (.failed 1 "no" 1)).Accounted)
    ∧ History.Admitted (trackedCall .increasing .accepting) InTurn ({}, (), ∅)
        (twoRootsCalls (.cancel 7 1))
      ∧ (twoRootsAfter (.cancel 7 1)).countsOf 7 = some (0, 0, 2, 2, 2)
      ∧ ¬ (twoRootsAfter (.cancel 7 1)).Accounted := by
  have hsum : ∀ {x : DAGExecutor} {a b c d n : ℕ}, x.countsOf 7 = some (a, b, c, d, n) →
      n < a + b + c + d → ¬ x.Accounted := by
    intro x a b c d n hcounts hlt h
    obtain ⟨r, hr, heq⟩ := Option.map_eq_some_iff.mp hcounts
    simp only [Prod.mk.injEq] at heq
    have hle := h.counts .fresh 7 r hr
    omega
  have hfailed : (twoRootsAfter (.failed 1 "no" 1)).countsOf 7 = some (0, 1, 1, 1, 2) := by
    decide +kernel
  have hcancelled : (twoRootsAfter (.cancel 7 1)).countsOf 7 = some (0, 0, 2, 2, 2) := by
    decide +kernel
  have hstarted : InTurn (({}, (), ∅) : DAGExecutor × (Unit × Finset UUID))
      (.start twoRoots wellFormed_twoRoots 0) := ⟨rfl, fun _ _ => rfl⟩
  have hexecuting : 1 ∈ (trackedCall .increasing .accepting ({}, (), ∅)
      (.start twoRoots wellFormed_twoRoots 0)).2.2 := by decide +kernel
  exact ⟨⟨⟨hstarted, hexecuting, trivial⟩, hfailed, hsum hfailed (by decide)⟩,
    ⟨hstarted, trivial, trivial⟩, hcancelled, hsum hcancelled (by decide)⟩

end DAGExecutor

end JobOrchestrator
