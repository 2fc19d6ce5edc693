import Mathlib.Data.Rat.Defs
import JobOrchestrator.Scheduler.DAGRun

/-!
# The four sets of an execution

An execution keeps its jobs in four sets, and `get_dag_status` reports how many are in each. A
job enters `running_jobs` or `failed_jobs` when it is submitted, and moves to `completed_jobs` or
`failed_jobs` when it reports. `_fail_dag` and `cancel_dag` put every job that has not ended into
`cancelled_jobs`. A job that runs has not ended, and stays in `running_jobs` all the same.

`partitioned_event_iff` says when the sets are disjoint after an event, provided that they were
before it. Two facts carry it: what releases jobs takes only those that are in none of the sets,
and what follows a report takes none out of the sets of those that have ended.
-/

namespace JobOrchestrator

/-! ## The report -/

/-- What `get_dag_status` says of a job. -/
structure JobReport where
  jobId : UUID
  name : String
  state : JobState

/-- **What `get_dag_status` says of a DAG** that is found. -/
structure DAGReport where
  dagId : UUID
  name : String
  status : DAGStatus
  /-- The quotient, before it is rounded. -/
  progress : ℚ
  startedAt : Option DateTime
  completedAt : Option DateTime
  jobs : List JobReport
  completed : ℕ
  failed : ℕ
  running : ℕ
  cancelled : ℕ
  total : ℕ
  error : Option String

/-- `progress`. -/
def DAGExecution.progress (e : DAGExecution) : ℚ :=
  if e.totalJobs = 0 then 1 else e.completedJobs.card / e.totalJobs

namespace DAGExecutor

/-- `get_status`. -/
def getStatus (dagId : UUID) (x : DAGExecutor) : Option DAGExecution := x.activeDags.get? dagId

/-- **`get_dag_status`** of the scheduler, over its job objects. -/
def getDagStatus (jobs : JobTable) (dagId : UUID) (x : DAGExecutor) : Option DAGReport :=
  (x.getStatus dagId).map (fun e =>
    { dagId := dagId
      name := e.dag.name
      status := e.status
      progress := e.progress
      startedAt := e.startedAt
      completedAt := e.completedAt
      jobs := e.dag.jobs.map (fun k => ⟨k, (jobs.get k).name, (jobs.get k).state⟩)
      completed := e.completedJobs.card
      failed := e.failedJobs.card
      running := e.runningJobs.card
      cancelled := e.cancelledJobs.card
      total := e.totalJobs
      error := e.error })

end DAGExecutor

/-! ## One execution -/

namespace DAGExecution

/-- **The four sets are disjoint**, and sets of jobs of the DAG. -/
structure Partitioned (e : DAGExecution) : Prop where
  completed_failed : Disjoint e.completedJobs e.failedJobs
  completed_running : Disjoint e.completedJobs e.runningJobs
  completed_cancelled : Disjoint e.completedJobs e.cancelledJobs
  failed_running : Disjoint e.failedJobs e.runningJobs
  failed_cancelled : Disjoint e.failedJobs e.cancelledJobs
  running_cancelled : Disjoint e.runningJobs e.cancelledJobs
  jobs : e.completedJobs ∪ e.failedJobs ∪ e.runningJobs ∪ e.cancelledJobs ⊆ e.dag.jobs.toFinset

/-- The status in which `_fail_dag` does nothing. -/
def Ended (e : DAGExecution) : Prop := e.status = .failed ∨ e.status = .cancelled

/-- **The events that keep the four sets apart.** A report is one of a job of the DAG that has
not ended otherwise, a failure that ends the DAG leaves no other job running, and a DAG that is
cancelled has none. -/
def KeepsApart (e : DAGExecution) : DAGEvent → Prop
  | .complete j _ => j ∈ e.dag.jobs ∧ j ∉ e.failedJobs ∧ j ∉ e.cancelledJobs
  | .failed j _ _ => (j ∈ e.dag.jobs ∧ j ∉ e.completedJobs ∧ j ∉ e.cancelledJobs)
      ∧ (e.dag.failFast = true → e.Ended ∨ ∀ k ∈ e.runningJobs, k = j)
  | .cancel _ _ => e.runningJobs = ∅

variable {σ : Type*} {order : IterationOrder UUID} {host : Host σ} {now : Time}
  {e e' : DAGExecution}

/-- The same, said of each job: which of the sets it may be in when it is in one of them. -/
theorem partitioned_iff_forall : e.Partitioned ↔ ∀ k,
    (k ∈ e.completedJobs → k ∈ e.dag.jobs ∧ k ∉ e.failedJobs ∧ k ∉ e.runningJobs
      ∧ k ∉ e.cancelledJobs)
    ∧ (k ∈ e.failedJobs → k ∈ e.dag.jobs ∧ k ∉ e.runningJobs ∧ k ∉ e.cancelledJobs)
    ∧ (k ∈ e.runningJobs → k ∈ e.dag.jobs ∧ k ∉ e.cancelledJobs)
    ∧ (k ∈ e.cancelledJobs → k ∈ e.dag.jobs) := by
  constructor
  · rintro ⟨hcf, hcr, hcx, hfr, hfx, hrx, hjobs⟩ k
    rw [Finset.disjoint_left] at hcf hcr hcx hfr hfx hrx
    have hk := @hjobs k
    simp only [Finset.mem_union, List.mem_toFinset] at hk
    exact ⟨fun h => ⟨hk (by simp [h]), hcf h, hcr h, hcx h⟩,
      fun h => ⟨hk (by simp [h]), hfr h, hfx h⟩, fun h => ⟨hk (by simp [h]), hrx h⟩,
      fun h => hk (by simp [h])⟩
  · intro h
    refine ⟨?_, ?_, ?_, ?_, ?_, ?_, ?_⟩
    · exact Finset.disjoint_left.mpr (fun k hk => ((h k).1 hk).2.1)
    · exact Finset.disjoint_left.mpr (fun k hk => ((h k).1 hk).2.2.1)
    · exact Finset.disjoint_left.mpr (fun k hk => ((h k).1 hk).2.2.2)
    · exact Finset.disjoint_left.mpr (fun k hk => ((h k).2.1 hk).2.1)
    · exact Finset.disjoint_left.mpr (fun k hk => ((h k).2.1 hk).2.2)
    · exact Finset.disjoint_left.mpr (fun k hk => ((h k).2.2.1 hk).2)
    · intro k hk
      simp only [Finset.mem_union] at hk
      rw [List.mem_toFinset]
      rcases hk with ((hk | hk) | hk) | hk
      · exact ((h k).1 hk).1
      · exact ((h k).2.1 hk).1
      · exact ((h k).2.2.1 hk).1
      · exact (h k).2.2.2 hk

/-- **The four counts add up to no more than the total.** -/
theorem Partitioned.card_le (h : e.Partitioned) :
    e.completedJobs.card + e.failedJobs.card + e.runningJobs.card + e.cancelledJobs.card
      ≤ e.totalJobs := by
  have hcancelled : Disjoint (e.completedJobs ∪ e.failedJobs ∪ e.runningJobs) e.cancelledJobs := by
    rw [Finset.disjoint_union_left, Finset.disjoint_union_left]
    exact ⟨⟨h.completed_cancelled, h.failed_cancelled⟩, h.running_cancelled⟩
  have hrunning : Disjoint (e.completedJobs ∪ e.failedJobs) e.runningJobs :=
    Finset.disjoint_union_left.mpr ⟨h.completed_running, h.failed_running⟩
  calc e.completedJobs.card + e.failedJobs.card + e.runningJobs.card + e.cancelledJobs.card
      = (e.completedJobs ∪ e.failedJobs ∪ e.runningJobs ∪ e.cancelledJobs).card := by
        rw [Finset.card_union_of_disjoint hcancelled, Finset.card_union_of_disjoint hrunning,
          Finset.card_union_of_disjoint h.completed_failed]
    _ ≤ e.dag.jobs.toFinset.card := Finset.card_le_card h.jobs
    _ ≤ e.totalJobs := List.toFinset_card_le _

/-! ### Submitting -/

/-- A job of the DAG that is in none of the four sets may be submitted. -/
theorem Partitioned.queueJob (h : e.Partitioned) {k : UUID} (job : k ∈ e.dag.jobs)
    (fresh : k ∉ e.runningJobs ∧ k ∉ e.completedJobs ∧ k ∉ e.failedJobs ∧ k ∉ e.cancelledJobs)
    (host : Host σ) (s : σ) : (e.queueJob host k s).1.Partitioned := by
  rw [partitioned_iff_forall] at h ⊢
  obtain ⟨hrun, hcomp, hfail, hcanc⟩ := fresh
  rcases queueJob_cases host k e s with ⟨_, -, heq⟩ | ⟨_, -, heq⟩
  · rw [heq]
    intro k'
    have hk' := h k'
    simp only [Finset.mem_insert]
    grind
  · rw [heq]
    intro k'
    have hk' := h k'
    simp only [Finset.mem_insert]
    grind

/-- **The loops that release jobs** keep the sets apart. -/
theorem Partitioned.queueReady (h : e.Partitioned) (hg : e.dag.WellFormed) (host : Host σ)
    (ks : List UUID) (s : σ) : (e.queueReady host ks s).2.1.Partitioned := by
  refine (queueReady_invariant (I := fun e' _ => e'.Partitioned ∧ e'.dag = e.dag) ?_ ks
    ⟨h, rfl⟩).1
  rintro k e' s' ⟨h', hdag⟩ hready
  obtain ⟨n, hn, hrun, hcomp, hfail, hcanc, -⟩ := isJobReady_iff.mp hready
  have hjob : k ∈ e'.dag.jobs := by
    rw [hdag] at hn ⊢
    exact (DAG.mem_jobs_iff hg).mpr ⟨n, hn⟩
  exact ⟨h'.queueJob hjob ⟨hrun, hcomp, hfail, hcanc⟩ host s',
    (queued_queueJob host k e' s').dag.trans hdag⟩

/-- **`start_dag`** leaves every root in one of two sets. -/
theorem partitioned_started {g : DAG} (hg : g.WellFormed) (host : Host σ) (now : Time) (s : σ) :
    ((started now g).queueAll host g.getRootNodes s).1.Partitioned := by
  have hqueue : ∀ (ks : List UUID) (e : DAGExecution) (s : σ), ks.Nodup → e.dag = g →
      e.Partitioned → (∀ k ∈ ks, k ∈ g.jobs ∧ k ∉ e.runningJobs ∧ k ∉ e.completedJobs
        ∧ k ∉ e.failedJobs ∧ k ∉ e.cancelledJobs) → (e.queueAll host ks s).1.Partitioned := by
    intro ks
    induction ks with
    | nil => exact fun e s _ _ h _ => h
    | cons k ks ih =>
      intro e s hnodup hdag h hfresh
      rw [List.nodup_cons] at hnodup
      obtain ⟨hjob, hk⟩ := hfresh k List.mem_cons_self
      rw [queueAll_cons]
      have hqueued := queued_queueJob host k e s
      refine ih _ _ hnodup.2 (hqueued.dag.trans hdag)
        (h.queueJob (by rw [hdag]; exact hjob) hk host s) ?_
      intro k' hk'
      have hne : k' ≠ k := fun heq => hnodup.1 (heq ▸ hk')
      obtain ⟨hjob', hrun, hcomp, hfail, hcanc⟩ := hfresh k' (List.mem_cons_of_mem k hk')
      rcases queueJob_cases host k e s with ⟨_, -, heq⟩ | ⟨_, -, heq⟩
      · rw [heq]
        simp [hjob', hrun, hcomp, hfail, hcanc, hne]
      · rw [heq]
        simp [hjob', hrun, hcomp, hfail, hcanc, hne]
  refine hqueue _ _ s (DAG.nodup_getRootNodes hg) rfl ?_ ?_
  · rw [partitioned_iff_forall]
    simp [started]
  · intro k hk
    obtain ⟨n, hn, -⟩ := (DAG.mem_getRootNodes hg).mp hk
    refine ⟨(DAG.mem_jobs_iff hg).mpr ⟨n, hn⟩, ?_⟩
    simp [started]

/-! ### Ending -/

/-- **To cancel what has not ended** keeps the sets apart just when nothing runs. -/
theorem partitioned_cancelUnfinished (h : e.Partitioned)
    (dag : e'.dag = e.dag) (completedJobs : e'.completedJobs = e.completedJobs)
    (failedJobs : e'.failedJobs = e.failedJobs) (runningJobs : e'.runningJobs = e.runningJobs)
    (cancelledJobs : e'.cancelledJobs = e.cancelledJobs ∪ e.unfinished.toFinset) :
    e'.Partitioned ↔ e.runningJobs = ∅ := by
  rw [partitioned_iff_forall] at h ⊢
  simp only [dag, completedJobs, failedJobs, runningJobs, cancelledJobs, Finset.mem_union,
    List.mem_toFinset, mem_unfinished]
  constructor
  · intro h'
    refine Finset.eq_empty_of_forall_notMem (fun k hrun => ?_)
    obtain ⟨hcomp, hfail, hrunning, -⟩ := h k
    exact ((h' k).2.2.1 hrun).2 (Or.inr ⟨(hrunning hrun).1, fun hk => (hcomp hk).2.2.1 hrun,
      fun hk => (hfail hk).2.1 hrun⟩)
  · intro hempty k
    have hk := h k
    rw [hempty]
    simp only [Finset.notMem_empty]
    grind

/-- `_fail_dag` cancels the jobs that run, where it does anything. -/
theorem partitioned_failDag (h : e.Partitioned) (host : Host σ) (now : Time) (error : String)
    (s : σ) : (e.failDag host now error s).1.Partitioned ↔ e.Ended ∨ e.runningJobs = ∅ := by
  rw [failDag]
  split
  · rename_i hended
    exact iff_of_true h (Or.inl hended)
  · rename_i hnot
    have hrun : Partitioned { e with
        status := .failed
        completedAt := some (.utcnow now)
        error := some error
        cancelledJobs := e.cancelledJobs ∪ e.unfinished.toFinset } ↔ e.runningJobs = ∅ :=
      partitioned_cancelUnfinished h rfl rfl rfl rfl rfl
    exact hrun.trans (or_iff_right hnot).symm

/-- The completion check looks for running jobs first, and cancels what is left only where there
is none. -/
theorem Partitioned.checkDagCompletion (h : e.Partitioned) (hg : e.dag.WellFormed) (host : Host σ)
    (now : Time) (s : σ) : (e.checkDagCompletion host now s).1.Partitioned := by
  rcases checkDagCompletion_cases host now e s with ⟨ks, heq⟩ | ⟨hrun, heq⟩
  · rw [heq]
    exact h.queueReady hg host ks s
  · rw [heq, conclude]
    split
    · exact (partitioned_failDag h host now _ s).mpr (Or.inr hrun)
    · exact ⟨h.completed_failed, h.completed_running, h.completed_cancelled, h.failed_running,
        h.failed_cancelled, h.running_cancelled, h.jobs⟩

/-! ### Reports -/

theorem partitioned_markCompleted (h : e.Partitioned) (j : UUID) :
    (e.markCompleted j).Partitioned
      ↔ j ∈ e.dag.jobs ∧ j ∉ e.failedJobs ∧ j ∉ e.cancelledJobs := by
  rw [partitioned_iff_forall] at h ⊢
  simp only [markCompleted, Finset.mem_insert, Finset.mem_erase]
  constructor
  · intro h'
    obtain ⟨hjob, hfail, -, hcanc⟩ := (h' j).1 (Or.inl rfl)
    exact ⟨hjob, hfail, hcanc⟩
  · intro hj k
    have hk := h k
    grind

theorem partitioned_markFailed (h : e.Partitioned) (j : UUID) :
    (e.markFailed j).Partitioned
      ↔ j ∈ e.dag.jobs ∧ j ∉ e.completedJobs ∧ j ∉ e.cancelledJobs := by
  rw [partitioned_iff_forall] at h ⊢
  simp only [markFailed, Finset.mem_insert, Finset.mem_erase]
  constructor
  · intro h'
    obtain ⟨hjob, -, hcanc⟩ := (h' j).2.1 (Or.inl rfl)
    exact ⟨hjob, fun hcomp => ((h' j).1 hcomp).2.1 (Or.inl rfl), hcanc⟩
  · intro hj k
    have hk := h k
    grind

/-- **What follows a report** takes no job out of the sets of those that have ended. -/
structure Advanced (e e' : DAGExecution) : Prop where
  dag : e'.dag = e.dag
  completedJobs : e'.completedJobs = e.completedJobs
  failedJobs : e.failedJobs ⊆ e'.failedJobs
  cancelledJobs : e.cancelledJobs ⊆ e'.cancelledJobs

namespace Advanced

theorem trans {e'' : DAGExecution} (h : Advanced e e') (h' : Advanced e' e'') :
    Advanced e e'' where
  dag := h'.dag.trans h.dag
  completedJobs := h'.completedJobs.trans h.completedJobs
  failedJobs := h.failedJobs.trans h'.failedJobs
  cancelledJobs := h.cancelledJobs.trans h'.cancelledJobs

end Advanced

theorem Queued.advanced (h : Queued e e') : Advanced e e' :=
  ⟨h.dag, h.completedJobs, h.failedJobs, by rw [h.cancelledJobs]⟩

theorem SameProgress.advanced (h : SameProgress e e') : Advanced e e' :=
  ⟨h.dag, h.completedJobs, by rw [h.failedJobs], h.cancelledJobs⟩

theorem advanced_checkDagCompletion (host : Host σ) (now : Time) (e : DAGExecution) (s : σ) :
    Advanced e (e.checkDagCompletion host now s).1 := by
  rcases checkDagCompletion_cases host now e s with ⟨ks, heq⟩ | ⟨-, heq⟩
  · rw [heq]
    exact (queued_queueReady host ks e s).advanced
  · rw [heq]
    exact (sameProgress_conclude e s).advanced

/-- Sets that are apart after what follows a completion were apart before. -/
theorem Advanced.of_markCompleted (h : e.Partitioned) {j : UUID}
    (adv : Advanced (e.markCompleted j) e') (h' : e'.Partitioned) :
    (e.markCompleted j).Partitioned := by
  rw [partitioned_markCompleted h]
  rw [partitioned_iff_forall] at h'
  have hmem : j ∈ e'.completedJobs := by
    rw [adv.completedJobs]
    exact Finset.mem_insert_self j _
  obtain ⟨hjob, hfail, -, hcanc⟩ := (h' j).1 hmem
  rw [adv.dag] at hjob
  exact ⟨hjob, fun hk => hfail (adv.failedJobs hk), fun hk => hcanc (adv.cancelledJobs hk)⟩

theorem Advanced.of_markFailed (h : e.Partitioned) {j : UUID}
    (adv : Advanced (e.markFailed j) e') (h' : e'.Partitioned) :
    (e.markFailed j).Partitioned := by
  rw [partitioned_markFailed h]
  rw [partitioned_iff_forall] at h'
  have hmem : j ∈ e'.failedJobs := adv.failedJobs (Finset.mem_insert_self j _)
  obtain ⟨hjob, -, hcanc⟩ := (h' j).2.1 hmem
  rw [adv.dag] at hjob
  refine ⟨hjob, fun hk => ?_, fun hk => hcanc (adv.cancelledJobs hk)⟩
  have hcomp : j ∈ e'.completedJobs := by
    rw [adv.completedJobs]
    exact hk
  exact ((h' j).1 hcomp).2.1 hmem

/-- An event does not change the graph. -/
theorem dag_event (e : DAGExecution) (s : σ) (ev : DAGEvent) :
    (e.event order host s ev).1.dag = e.dag := by
  cases ev with
  | complete j now =>
    exact (advanced_checkDagCompletion host now _ _).dag.trans
      (queued_queueReady host ((e.markCompleted j).dependentsOf order j) (e.markCompleted j) s).dag
  | failed j error now =>
    show (e.onJobFailed host now j error s).1.dag = e.dag
    rw [onJobFailed]
    split
    · exact (sameProgress_failDag host now _ (e.markFailed j) s).dag
    · exact (advanced_checkDagCompletion host now (e.markFailed j) s).dag
  | cancel d now => rfl

/-- **When an event keeps the four sets apart.** A failure under `fail_fast` and a cancellation
count as cancelled whatever has not ended, the running jobs among it. -/
theorem partitioned_event_iff (hg : e.dag.WellFormed) (h : e.Partitioned) (s : σ)
    (ev : DAGEvent) : (e.event order host s ev).1.Partitioned ↔ e.KeepsApart ev := by
  cases ev with
  | complete j now =>
    have hqueued := queued_queueReady host ((e.markCompleted j).dependentsOf order j)
      (e.markCompleted j) s
    rw [KeepsApart, ← partitioned_markCompleted h]
    constructor
    · exact (hqueued.advanced.trans (advanced_checkDagCompletion host now _ _)).of_markCompleted h
    · intro hmark
      exact (hmark.queueReady hg host _ s).checkDagCompletion
        (by rw [hqueued.dag]; exact hg) host now _
  | failed j error now =>
    show (e.onJobFailed host now j error s).1.Partitioned ↔ _
    rw [KeepsApart, ← partitioned_markFailed h, onJobFailed]
    by_cases hfast : e.dag.failFast = true
    · simp only [hfast, if_true, forall_const]
      -- the jobs that still run are those that ran, without the one that failed
      have hothers : (e.markFailed j).runningJobs = ∅ ↔ ∀ k ∈ e.runningJobs, k = j := by
        show e.runningJobs.erase j = ∅ ↔ _
        rw [Finset.erase_eq_empty_iff, Finset.eq_empty_iff_forall_notMem,
          Finset.eq_singleton_iff_unique_mem]
        grind
      rw [← hothers]
      constructor
      · intro h'
        have hmark := (sameProgress_failDag host now _ _ s).advanced.of_markFailed h h'
        exact ⟨hmark, (partitioned_failDag hmark host now _ s).mp h'⟩
      · rintro ⟨hmark, hrest⟩
        exact (partitioned_failDag hmark host now _ s).mpr hrest
    · simp only [hfast]
      constructor
      · intro h'
        exact ⟨(advanced_checkDagCompletion host now _ s).of_markFailed h h',
          fun hfast' => absurd hfast' (by simp)⟩
      · exact fun hmark => hmark.1.checkDagCompletion hg host now s
  | cancel d now => exact partitioned_cancelUnfinished h rfl rfl rfl rfl rfl

end DAGExecution

end JobOrchestrator
