import JobOrchestrator.Scheduler.DAGRelease

/-!
# What a DAG has done when it stops

Where every submission is accepted and nothing is cancelled, an execution
stops with everything done that its failures allow. The invariant has two
halves. `Sets` says how the sets of an execution are related to the graph,
to the events and to the submissions. `Stage` says, for each status, what
the sets look like there; in the stages where nothing more will run it
carries that no job is left waiting. The graph being acyclic turns "no job
is left waiting" into "every job without a failed ancestor has completed".
-/

namespace JobOrchestrator

namespace DAGExecution

open DAGCall DAGEvent

variable {σ : Type*} {order : IterationOrder UUID} {host : Host σ} {now : Time}

/-- Every submission is accepted. Otherwise a job that the scheduler refuses counts as failed at
once. -/
def Accepts (host : Host σ) : Prop := ∀ e k s, ∃ text, (host.submit e k s).2 = .ok text

theorem queueJob_of_accepts (accepts : Accepts host) (k : UUID) (e : DAGExecution)
    (s : σ × List DAGCall) : e.queueJob host.recording k s
      = ({ e with runningJobs := insert k e.runningJobs },
          ((host.submit e k s.1).1, s.2 ++ [.submit k e.completedJobs])) := by
  obtain ⟨text, htext⟩ := accepts e k s.1
  rcases queueJob_cases host.recording k e s with ⟨_, -, heq⟩ | ⟨error, herr, -⟩
  · exact heq
  · have : (host.submit e k s.1).2 = .error error := herr
    rw [htext] at this
    exact absurd this (by simp)

/-! ## The sets -/

/-- **How the sets of an execution are related** to the graph, to the events heard
and to the jobs submitted. -/
structure Sets (g : DAG) (ls : List DAGEvent) (e : DAGExecution) (submitted : List UUID) :
    Prop where
  dag : e.dag = g
  jobs : ∀ k, e.Taken k → k ∈ g.jobs
  dependencies : ∀ k, e.Taken k → ∀ u, g.DependsOn k u → u ∈ e.completedJobs
  running_completed : Disjoint e.runningJobs e.completedJobs
  running_failed : Disjoint e.runningJobs e.failedJobs
  completed_failed : Disjoint e.completedJobs e.failedJobs
  failures : ∀ k, k ∈ e.failedJobs ↔ Fails k ls
  submitted : ∀ k, k ∈ submitted ↔ e.Taken k

theorem fails_append_complete {k j : UUID} {ls : List DAGEvent} :
    Fails k (ls ++ [.complete j now]) ↔ Fails k ls := by
  unfold Fails
  simp

theorem fails_append_failed {k j : UUID} {error : String} {ls : List DAGEvent} :
    Fails k (ls ++ [.failed j error now]) ↔ Fails k ls ∨ k = j := by
  unfold Fails
  simp only [List.mem_append, List.mem_singleton, DAGEvent.failed.injEq]
  constructor
  · rintro ⟨er, nw, h | ⟨h, -, -⟩⟩
    · exact Or.inl ⟨er, nw, h⟩
    · exact Or.inr h
  · rintro (⟨er, nw, h⟩ | h)
    · exact ⟨er, nw, Or.inl h⟩
    · exact ⟨error, now, Or.inr ⟨h, rfl, rfl⟩⟩

namespace Sets

variable {g : DAG} {ls : List DAGEvent} {e e' : DAGExecution} {s : σ × List DAGCall}
  {submitted : List UUID}

/-- A job not taken yet, with its dependencies completed, starts to run. -/
theorem run (h : Sets g ls e submitted) {k : UUID} (job : k ∈ g.jobs) (fresh : ¬ e.Taken k)
    (dependencies : ∀ u, g.DependsOn k u → u ∈ e.completedJobs) :
    Sets g ls { e with runningJobs := insert k e.runningJobs } (submitted ++ [k]) := by
  have htaken : ∀ k', Taken { e with runningJobs := insert k e.runningJobs } k'
      ↔ k' = k ∨ e.Taken k' := by
    intro k'
    rw [Taken, Finset.mem_insert, or_assoc]
    rfl
  rw [Taken, not_or, not_or] at fresh
  refine ⟨h.dag, ?_, ?_, ?_, ?_, h.completed_failed, h.failures, ?_⟩
  · intro k' hk'
    rcases (htaken k').mp hk' with rfl | hk'
    · exact job
    · exact h.jobs k' hk'
  · intro k' hk'
    rcases (htaken k').mp hk' with rfl | hk'
    · exact dependencies
    · exact h.dependencies k' hk'
  · exact Finset.disjoint_insert_left.mpr ⟨fresh.2.1, h.running_completed⟩
  · exact Finset.disjoint_insert_left.mpr ⟨fresh.2.2, h.running_failed⟩
  · intro k'
    rw [htaken, List.mem_append, List.mem_singleton, h.submitted, or_comm]

theorem queueReady (accepts : Accepts host) (hg : g.WellFormed)
    (h : Sets g ls e (submissions s.2)) (ks : List UUID) :
    Sets g ls (e.queueReady host.recording ks s).2.1
      (submissions (e.queueReady host.recording ks s).2.2.2) := by
  refine queueReady_invariant
    (I := fun e (s : σ × List DAGCall) => Sets g ls e (submissions s.2)) ?_ ks h
  intro k e s h hready
  obtain ⟨n, hn, hrun, hcomp, hfail, -, hdeps⟩ := isJobReady_iff.mp hready
  rw [h.dag] at hn
  have hrunning := h.run ((DAG.mem_jobs_iff hg).mpr ⟨n, hn⟩)
    (by
      rintro (hk | hk | hk)
      · exact hrun hk
      · exact hcomp hk
      · exact hfail hk)
    (by
      rintro u ⟨m, hm, hu⟩
      rw [hn, Option.some.injEq] at hm
      exact hdeps (hm ▸ hu))
  rw [queueJob_of_accepts accepts]
  show Sets g ls _ ((submitCalls (s.2 ++ [.submit k e.completedJobs])).map Prod.fst)
  rw [submitCalls_append, List.map_append]
  exact hrunning

/-- A running job completes: it moves from one set to another, and the event is the reason. -/
theorem markCompleted (now : Time) (h : Sets g ls e submitted) {j : UUID}
    (running : j ∈ e.runningJobs) :
    Sets g (ls ++ [.complete j now]) (e.markCompleted j) submitted := by
  have htaken : ∀ k, (e.markCompleted j).Taken k ↔ e.Taken k := by
    intro k
    unfold Taken DAGExecution.markCompleted
    simp only [Finset.mem_erase, Finset.mem_insert]
    by_cases hk : k = j
    · simp [hk, running]
    · simp [hk]
  have hfail : j ∉ e.failedJobs := Finset.disjoint_left.mp h.running_failed running
  refine ⟨h.dag, fun k hk => h.jobs k ((htaken k).mp hk), ?_, ?_, ?_, ?_, ?_, ?_⟩
  · intro k hk u hu
    exact Finset.mem_insert_of_mem (h.dependencies k ((htaken k).mp hk) u hu)
  · exact Finset.disjoint_insert_right.mpr ⟨Finset.notMem_erase j _,
      h.running_completed.mono_left (Finset.erase_subset _ _)⟩
  · exact h.running_failed.mono_left (Finset.erase_subset _ _)
  · exact Finset.disjoint_insert_left.mpr ⟨hfail, h.completed_failed⟩
  · intro k
    rw [fails_append_complete]
    exact h.failures k
  · intro k
    rw [htaken]
    exact h.submitted k

/-- A running job fails, and from then on none of its descendants is ever to be submitted. -/
theorem markFailed (now : Time) (h : Sets g ls e submitted) {j : UUID} (running : j ∈ e.runningJobs)
    (error : String) :
    Sets g (ls ++ [.failed j error now]) (e.markFailed j) submitted := by
  have htaken : ∀ k, (e.markFailed j).Taken k ↔ e.Taken k := by
    intro k
    unfold Taken DAGExecution.markFailed
    simp only [Finset.mem_erase, Finset.mem_insert]
    by_cases hk : k = j
    · simp [hk, running]
    · simp [hk]
  have hcomp : j ∉ e.completedJobs := Finset.disjoint_left.mp h.running_completed running
  refine ⟨h.dag, fun k hk => h.jobs k ((htaken k).mp hk), ?_, ?_, ?_, ?_, ?_, ?_⟩
  · exact fun k hk => h.dependencies k ((htaken k).mp hk)
  · exact h.running_completed.mono_left (Finset.erase_subset _ _)
  · exact Finset.disjoint_insert_right.mpr ⟨Finset.notMem_erase j _,
      h.running_failed.mono_left (Finset.erase_subset _ _)⟩
  · exact Finset.disjoint_insert_right.mpr ⟨hcomp, h.completed_failed⟩
  · intro k
    rw [fails_append_failed, ← h.failures k, or_comm]
    exact Finset.mem_insert
  · intro k
    rw [htaken]
    exact h.submitted k

theorem sameProgress (h : Sets g ls e submitted) (same : SameProgress e e') :
    Sets g ls e' submitted := by
  have htaken : ∀ k, e'.Taken k ↔ e.Taken k := by
    intro k
    rw [Taken, Taken, same.runningJobs, same.completedJobs, same.failedJobs]
  refine ⟨same.dag.trans h.dag, fun k hk => h.jobs k ((htaken k).mp hk), ?_, ?_, ?_, ?_, ?_, ?_⟩
  · rw [same.completedJobs]
    exact fun k hk => h.dependencies k ((htaken k).mp hk)
  · rw [same.runningJobs, same.completedJobs]
    exact h.running_completed
  · rw [same.runningJobs, same.failedJobs]
    exact h.running_failed
  · rw [same.completedJobs, same.failedJobs]
    exact h.completed_failed
  · rw [same.failedJobs]
    exact h.failures
  · intro k
    rw [htaken]
    exact h.submitted k

/-- The ancestors of a taken job have completed. By induction along the dependencies: a job is
taken only when all it depends on have completed. -/
theorem completed_of_ancestor (h : Sets g ls e submitted) {k u : UUID} (taken : e.Taken k)
    (ancestor : g.Ancestor u k) : u ∈ e.completedJobs := by
  induction ancestor with
  | single hu => exact h.dependencies k taken _ hu
  | tail _ hu ih => exact h.dependencies _ (Or.inr (Or.inl ih)) _ hu

end Sets

/-! ## The stages -/

/-- Every job whose dependencies have completed was taken up. -/
def Dispatched (e : DAGExecution) : Prop :=
  ∀ k n, e.dag.nodes.get? k = some n → n.dependencies ⊆ e.completedJobs → e.Taken k

/-- Where no job is ready and none was cancelled, all that could be was taken up. -/
theorem dispatched_of_noneReady {e : DAGExecution} (h : e.NoneReady)
    (cancelledJobs : e.cancelledJobs = ∅) : e.Dispatched := by
  intro k n hn hdeps
  by_contra hnot
  rw [Taken, not_or, not_or] at hnot
  have hready : e.isJobReady k = true := by
    rw [isJobReady_iff, cancelledJobs]
    exact ⟨n, hn, hnot.1, hnot.2.1, hnot.2.2, Finset.notMem_empty k, hdeps⟩
  rw [h k] at hready
  exact Bool.false_ne_true hready

/-- **Where an execution is between two events.** -/
inductive Stage (e : DAGExecution) : Prop
  /-- Jobs are running. -/
  | running (status : e.status = .running) (cancelledJobs : e.cancelledJobs = ∅)
      (runningJobs : e.runningJobs.Nonempty)
  /-- Everything is done. -/
  | completed (status : e.status = .completed) (runningJobs : e.runningJobs = ∅)
      (failedJobs : e.failedJobs = ∅) (dispatched : e.Dispatched)
  /-- A job failed, and the DAG did not wait for the others. -/
  | stopped (status : e.status = .failed) (failFast : e.dag.failFast = true)
      (failedJobs : e.failedJobs.Nonempty)
  /-- A job failed, and the others are done as far as they can be. -/
  | failed (status : e.status = .failed) (runningJobs : e.runningJobs = ∅)
      (failedJobs : e.failedJobs.Nonempty) (dispatched : e.Dispatched)

/-- A stage in which some job runs is one of two. -/
theorem Stage.of_mem_runningJobs {e : DAGExecution} (h : e.Stage) {j : UUID}
    (hj : j ∈ e.runningJobs) : e.status = .running ∧ e.cancelledJobs = ∅
      ∨ e.status = .failed ∧ e.dag.failFast = true ∧ e.failedJobs.Nonempty := by
  cases h with
  | running status cancelledJobs _ => exact Or.inl ⟨status, cancelledJobs⟩
  | completed _ runningJobs => exact absurd (runningJobs ▸ hj) (Finset.notMem_empty j)
  | stopped status failFast failedJobs => exact Or.inr ⟨status, failFast, failedJobs⟩
  | failed _ runningJobs => exact absurd (runningJobs ▸ hj) (Finset.notMem_empty j)

/-- Failing a running execution: the progress stays, and the status is failed. -/
theorem failDag_of_running {e : DAGExecution} (status : e.status = .running) (error : String)
    (s : σ) : (e.failDag host now error s).1.status = .failed := by
  rw [failDag, if_neg (by rw [status]; decide)]

/-- **The completion check leads to a stage**, from a running execution or from one
that stopped at a failure. -/
theorem stage_checkDagCompletion {e : DAGExecution} (none : e.NoneReady)
    (before : e.status = .running ∧ e.cancelledJobs = ∅
      ∨ e.status = .failed ∧ e.dag.failFast = true ∧ e.failedJobs.Nonempty) (s : σ) :
    (e.checkDagCompletion host now s).1.Stage := by
  rw [checkDagCompletion_of_noneReady none]
  split
  · rename_i hrun
    rcases before with ⟨hstatus, hcanc⟩ | ⟨hstatus, hfast, hfail⟩
    · exact .running hstatus hcanc hrun
    · exact .stopped hstatus hfast hfail
  · rename_i hrun
    rw [Finset.not_nonempty_iff_eq_empty] at hrun
    rcases before with ⟨hstatus, hcanc⟩ | ⟨hstatus, hfast, hfail⟩
    · have hdisp := dispatched_of_noneReady none hcanc
      rw [conclude]
      split
      · rename_i hfail
        have hsame := sameProgress_failDag host now
          (toString e.failedJobs.card ++ " job(s) failed") e s
        refine .failed (failDag_of_running hstatus _ s) (hsame.runningJobs.trans hrun)
          (hsame.failedJobs.symm ▸ hfail) ?_
        intro k n hn hdeps
        rw [hsame.dag] at hn
        rw [hsame.completedJobs] at hdeps
        rw [Taken, hsame.runningJobs, hsame.completedJobs, hsame.failedJobs]
        exact hdisp k n hn hdeps
      · rename_i hfail
        exact .completed rfl hrun (Finset.not_nonempty_iff_eq_empty.mp hfail) hdisp
    · rw [conclude, if_pos hfail, failDag_of_ended (Or.inl hstatus)]
      exact .stopped hstatus hfast hfail

/-- **The completeness invariant.** -/
structure Complete (g : DAG) (ls : List DAGEvent) (e : DAGExecution)
    (submitted : List UUID) : Prop where
  sets : Sets g ls e submitted
  noneReady : e.NoneReady
  stage : e.Stage

/-- **The events of an undisturbed run**: a running job completes or fails. -/
def Reports (e : DAGExecution) : DAGEvent → Prop
  | .complete jobId _ => jobId ∈ e.runningJobs
  | .failed jobId _ _ => jobId ∈ e.runningJobs
  | .cancel _ _ => False

namespace Complete

variable {g : DAG} {ls : List DAGEvent} {e : DAGExecution} {s : σ × List DAGCall}

theorem submissions_eq {log log' : List DAGCall} (h : submitCalls log = submitCalls log') :
    submissions log = submissions log' :=
  congrArg (List.map Prod.fst) h

/-- The completion check submits nothing where no job is ready. -/
theorem submissions_checkDagCompletion (none : e.NoneReady) (s : σ × List DAGCall) :
    submissions (e.checkDagCompletion host.recording now s).2.2 = submissions s.2 := by
  rw [checkDagCompletion_of_noneReady none]
  split
  · rfl
  · exact submissions_eq (submitCalls_conclude now e s)

/-- **One reported event keeps the completeness invariant.** The event has moved its job; what
became ready by it is queued in the same step. -/
theorem event (accepts : Accepts host) (hg : g.WellFormed)
    (h : Complete g ls e (submissions s.2)) {ev : DAGEvent} (reported : e.Reports ev) :
    Complete g (ls ++ [ev]) (e.event order host.recording s ev).1
      (submissions (e.event order host.recording s ev).2.2) := by
  have hnone : (e.event order host.recording s ev).1.NoneReady :=
    noneReady_event (h.sets.dag.symm ▸ hg) h.noneReady s ev
  cases ev with
  | complete j now =>
    have hj : j ∈ e.runningJobs := reported
    have hrelease := noneReady_release order host.recording
      (h.sets.dag.symm ▸ hg) h.noneReady j s
    have hsets := (h.sets.markCompleted now hj).queueReady accepts hg
      ((e.markCompleted j).dependentsOf order j)
    have hq := queued_queueReady host.recording
      ((e.markCompleted j).dependentsOf order j) (e.markCompleted j) s
    refine ⟨?_, hnone, ?_⟩
    · show Sets g _ _ (submissions (DAGExecution.checkDagCompletion host.recording now _ _).2.2)
      rw [submissions_checkDagCompletion hrelease]
      exact hsets.sameProgress (sameProgress_checkDagCompletion hrelease _)
    · -- releasing jobs changes neither status nor graph, and failed jobs only grow
      refine stage_checkDagCompletion hrelease ?_ _
      rw [hq.status, hq.cancelledJobs, hq.dag]
      exact (h.stage.of_mem_runningJobs hj).imp_right
        (fun hf => ⟨hf.1, hf.2.1, hf.2.2.mono hq.failedJobs⟩)
  | failed j error now =>
    have hj : j ∈ e.runningJobs := reported
    have hmark := noneReady_markFailed h.noneReady j
    have hsets := h.sets.markFailed now hj error
    have hfail : (e.markFailed j).failedJobs.Nonempty := Finset.insert_nonempty _ _
    refine ⟨?_, hnone, ?_⟩
    · show Sets g _ (e.onJobFailed host.recording now j error s).1
        (submissions (e.onJobFailed host.recording now j error s).2.2)
      rw [onJobFailed]
      split
      · rw [submissions_eq (submitCalls_failDag now _ _ s)]
        exact hsets.sameProgress (sameProgress_failDag host.recording now _ _ s)
      · rw [submissions_checkDagCompletion hmark]
        exact hsets.sameProgress (sameProgress_checkDagCompletion hmark s)
    · -- with fail_fast the execution fails at once, else its end is looked for
      show (e.onJobFailed host.recording now j error s).1.Stage
      rw [onJobFailed]
      split
      · rename_i hfast
        have hsame := sameProgress_failDag host.recording now
          ("Job " ++ j.str ++ " failed: " ++ error) (e.markFailed j) s
        refine .stopped ?_ (hsame.dag.symm ▸ hfast) (hsame.failedJobs.symm ▸ hfail)
        rcases h.stage.of_mem_runningJobs hj with ⟨hstatus, -⟩ | ⟨hstatus, -⟩
        · exact failDag_of_running (e := e.markFailed j) hstatus _ s
        · rw [failDag_of_ended (e := e.markFailed j) (Or.inl hstatus)]
          exact hstatus
      · exact stage_checkDagCompletion hmark ((h.stage.of_mem_runningJobs hj).imp_right
          (fun hf => ⟨hf.1, hf.2.1, hfail⟩)) s
  | cancel d now => exact reported.elim

/-- Queueing the roots runs them. They have no dependencies to wait for, so it needs no event. -/
theorem sets_queueAll_roots (accepts : Accepts host) (hg : g.WellFormed) {roots : List UUID}
    (nodup : roots.Nodup) (isRoot : ∀ k ∈ roots, k ∈ g.getRootNodes)
    (h : Sets g ls e (submissions s.2)) (fresh : ∀ k ∈ roots, ¬ e.Taken k) :
    Sets g ls (e.queueAll host.recording roots s).1
      (submissions (e.queueAll host.recording roots s).2.2) := by
  induction roots generalizing e s with
  | nil => exact h
  | cons k ks ih =>
    rw [List.nodup_cons] at nodup
    obtain ⟨n, hn, hroot⟩ := (DAG.mem_getRootNodes hg).mp (isRoot k List.mem_cons_self)
    have hrunning := h.run ((DAG.mem_jobs_iff hg).mpr ⟨n, hn⟩) (fresh k List.mem_cons_self)
      (by
        rintro u ⟨m, hm, hu⟩
        rw [hn, Option.some.injEq] at hm
        rw [← hm, hroot] at hu
        exact absurd hu (Finset.notMem_empty u))
    rw [queueAll_cons, queueJob_of_accepts accepts]
    refine ih nodup.2 (fun k' hk' => isRoot k' (List.mem_cons_of_mem k hk')) ?_ ?_
    · show Sets g ls _ ((submitCalls (s.2 ++ [.submit k e.completedJobs])).map Prod.fst)
      rw [submitCalls_append, List.map_append]
      exact hrunning
    · intro k' hk' htaken
      have hne : k' ≠ k := fun heq => nodup.1 (heq ▸ hk')
      exact fresh k' (List.mem_cons_of_mem k hk')
        (htaken.imp_left (fun hk => Finset.mem_of_mem_insert_of_ne hk hne))

/-- **Starting a non-empty acyclic DAG establishes it**: some job is a root. -/
theorem start (accepts : Accepts host) (hg : g.WellFormed) (acyclic : g.Acyclic)
    (nonempty : g.jobs ≠ []) (now : Time) (s : σ) :
    Complete g [] (DAGExecutor.startedExecution host.recording now g (s, [])).1
      (submissions (DAGExecutor.startedExecution host.recording now g (s, [])).2.2) := by
  have hempty : ∀ k, ¬ (started now g).Taken k := by
    rintro k (hk | hk | hk) <;> exact absurd hk (Finset.notMem_empty k)
  have hstart : Sets g [] (started now g) (submissions ((s, []) : σ × List DAGCall).2) :=
    ⟨rfl, fun k hk => absurd hk (hempty k), fun k hk => absurd hk (hempty k),
      Finset.disjoint_empty_left _, Finset.disjoint_empty_left _, Finset.disjoint_empty_left _,
      fun k => ⟨fun hk => absurd hk (Finset.notMem_empty k), by rintro ⟨_, _, hk⟩; cases hk⟩,
      fun k => ⟨fun hk => absurd hk List.not_mem_nil, fun hk => absurd hk (hempty k)⟩⟩
  have hsets := sets_queueAll_roots accepts hg (DAG.nodup_getRootNodes hg) (fun _ hk => hk)
    hstart (fun k _ => hempty k)
  have hnone := noneReady_started host.recording now hg (s, [])
  have hq := queued_queueAll host.recording g.getRootNodes (started now g) (s, [])
  refine ⟨hsets, hnone, .running hq.status hq.cancelledJobs ?_⟩
  by_contra hrunning
  have hrun : ((started now g).queueAll host.recording g.getRootNodes (s, [])).1.runningJobs = ∅ :=
    Finset.not_nonempty_iff_eq_empty.mp hrunning
  obtain ⟨k, hk⟩ := List.exists_mem_of_ne_nil _ nonempty
  have hdisp := dispatched_of_noneReady hnone hq.cancelledJobs
  refine DAG.acyclic_induction hg acyclic (P := fun _ => False) ?_ hk
  intro k hk hdeps
  obtain ⟨n, hn⟩ := (DAG.mem_jobs_iff hg).mp hk
  have htaken := hdisp k n (by rw [hq.dag]; exact hn) (fun u hu => (hdeps u ⟨n, hn, hu⟩).elim)
  rcases htaken with htaken | htaken | htaken
  · rw [hrun] at htaken
    exact absurd htaken (Finset.notMem_empty k)
  · rw [hq.completedJobs] at htaken
    exact absurd htaken (Finset.notMem_empty k)
  · obtain ⟨_, _, hmem⟩ := (hsets.failures k).mp htaken
    cases hmem

/-- **Where nothing runs and all that could be was taken up**, a job without a
failure on its way has completed. -/
theorem mem_completedJobs (h : Sets g ls e (submissions s.2)) (hg : g.WellFormed)
    (acyclic : g.Acyclic) (runningJobs : e.runningJobs = ∅) (dispatched : e.Dispatched)
    {k : UUID} (hk : k ∈ g.jobs) (self : ¬ Fails k ls)
    (ancestors : ∀ u, g.Ancestor u k → ¬ Fails u ls) : k ∈ e.completedJobs := by
  refine DAG.acyclic_induction hg acyclic
    (P := fun k => ¬ Fails k ls → (∀ u, g.Ancestor u k → ¬ Fails u ls) → k ∈ e.completedJobs)
    ?_ hk self ancestors
  intro k hk ih self ancestors
  obtain ⟨n, hn⟩ := (DAG.mem_jobs_iff hg).mp hk
  have hdeps : n.dependencies ⊆ e.completedJobs := by
    intro u hu
    have hdep : g.DependsOn k u := ⟨n, hn, hu⟩
    exact ih u hdep (ancestors u (.single hdep))
      (fun w hw => ancestors w (Relation.TransGen.head hdep hw))
  rcases dispatched k n (h.dag.symm ▸ hn) hdeps with htaken | htaken | htaken
  · rw [runningJobs] at htaken
    exact absurd htaken (Finset.notMem_empty k)
  · exact htaken
  · exact absurd ((h.failures k).mp htaken) self

/-- Where nothing runs, the execution is completed or failed, and what could be
was taken up unless it stopped at a failure. -/
theorem stopped_of_idle (h : e.Stage) (runningJobs : e.runningJobs = ∅) :
    (e.status = .completed ∧ e.failedJobs = ∅ ∨ e.status = .failed ∧ e.failedJobs.Nonempty)
      ∧ (e.dag.failFast = false → e.Dispatched) := by
  cases h with
  | running _ _ hrun => exact absurd runningJobs hrun.ne_empty
  | completed status _ failedJobs dispatched =>
    exact ⟨Or.inl ⟨status, failedJobs⟩, fun _ => dispatched⟩
  | stopped status failFast failedJobs =>
    exact ⟨Or.inr ⟨status, failedJobs⟩, fun hslow => absurd (failFast.symm.trans hslow) (by decide)⟩
  | failed status _ failedJobs dispatched =>
    exact ⟨Or.inr ⟨status, failedJobs⟩, fun _ => dispatched⟩

end Complete

end DAGExecution

namespace DAGExecutor

open DAGExecution DAGCall DAGEvent

variable {σ : Type*} {order : IterationOrder UUID} {host : Host σ} {g : DAG} {t : JobTable}

/-- **A DAG that stops has done what its failures allow.** A completed one has
completed exactly its jobs; one in which nothing runs is completed or failed,
the second exactly if some job failed; and if it does not fail fast, every job
without a failure on its way has completed, and every other one failed itself or
was never submitted. -/
theorem dag_completeness (accepts : Accepts host) (built : g.Built t) (acyclic : g.Acyclic)
    (nonempty : g.jobs ≠ []) {now : Time} {x x' : DAGExecutor} {s s' : σ}
    {log : List DAGCall} {ls : List DAGEvent}
    (run : GuardedRun (step order host.recording) (During g DAGExecution.Reports)
      (x.startDag host.recording now g (s, [])).2 ls (x', s', log)) :
    ∃ e, x'.activeDags.get? g.id = some e
      ∧ (e.status = .completed → ∀ k, k ∈ e.completedJobs ↔ k ∈ g.jobs)
      ∧ (e.runningJobs = ∅ → (e.status = .completed ∨ e.status = .failed)
        ∧ (e.status = .failed ↔ ∃ k, Fails k ls))
      ∧ (g.failFast = false → e.runningJobs = ∅ → ∀ k ∈ g.jobs,
        (¬ Fails k ls ∧ (∀ u, g.Ancestor u k → ¬ Fails u ls) → k ∈ e.completedJobs)
        ∧ (¬ (¬ Fails k ls ∧ ∀ u, g.Ancestor u k → ¬ Fails u ls) →
          Fails k ls ∨ k ∉ submissions log)) := by
  have hg := built.wellFormed
  obtain ⟨e, htracks, h⟩ := run_tracked
    (P := fun ls e (s : σ × List DAGCall) => Complete g ls e (submissions s.2))
    (tracks_startDag now g x _) (Complete.start accepts hg acyclic nonempty now s)
    (by
      intro ls e s ev h reported
      refine ⟨?_, h.event accepts hg reported⟩
      cases ev with
      | complete j now => exact h.sets.jobs j (Or.inl reported)
      | failed j error now => exact h.sets.jobs j (Or.inl reported)
      | cancel d now => exact reported.elim) run
  refine ⟨e, htracks.active, ?_, ?_, ?_⟩
  · -- (a) a COMPLETED execution has no failed job, so no event was a failure
    intro hstatus k
    refine ⟨fun hk => h.sets.jobs k (Or.inr (Or.inl hk)), fun hk => ?_⟩
    cases h.stage with
    | running status => rw [hstatus] at status; cases status
    | stopped status => rw [hstatus] at status; cases status
    | failed status => rw [hstatus] at status; cases status
    | completed _ runningJobs failedJobs dispatched =>
      have hnever : ∀ u, ¬ Fails u ls := by
        intro u hu
        have hmem := (h.sets.failures u).mpr hu
        rw [failedJobs] at hmem
        exact Finset.notMem_empty u hmem
      exact Complete.mem_completedJobs h.sets hg acyclic runningJobs dispatched hk (hnever k)
        (fun u _ => hnever u)
  · -- (b) an idle execution has ended, one way or the other
    intro hidle
    rcases (Complete.stopped_of_idle h.stage hidle).1 with ⟨hstatus, hfailed⟩ | ⟨hstatus, hfailed⟩
    · refine ⟨Or.inl hstatus, fun hf => absurd (hstatus.symm.trans hf) (by decide), ?_⟩
      rintro ⟨k, hk⟩
      have hmem := (h.sets.failures k).mpr hk
      rw [hfailed] at hmem
      exact absurd hmem (Finset.notMem_empty k)
    · obtain ⟨k, hk⟩ := hfailed
      exact ⟨Or.inr hstatus, fun _ => ⟨k, (h.sets.failures k).mp hk⟩, fun _ => hstatus⟩
  · -- (c) without fail_fast everything ready has been dispatched
    intro hslow hidle k hk
    have hdisp := (Complete.stopped_of_idle h.stage hidle).2 (h.sets.dag.symm ▸ hslow)
    refine ⟨fun hgood => Complete.mem_completedJobs h.sets hg acyclic hidle hdisp hk hgood.1
      hgood.2, ?_⟩
    intro hbad
    by_cases hself : Fails k ls
    · exact Or.inl hself
    · refine Or.inr (fun hsub => hbad ⟨hself, ?_⟩)
      intro u hu hfail
      have hcomp := h.sets.completed_of_ancestor ((h.sets.submitted k).mp hsub) hu
      exact Finset.disjoint_left.mp h.sets.completed_failed hcomp ((h.sets.failures u).mpr hfail)

/-- Job 1 of a chain fails: job 2 is never submitted, and the DAG fails. -/
theorem dag_completeness_chainDag :
    ∃ e, (({} : DAGExecutor).startDag Host.accepting.recording 0 chainDag
        ((), [])).2.1.onJobFailed Host.accepting.recording 1 1 "boom"
          ((), [.submit 1 ∅]) |>.1.activeDags.get? 7 = some e
      ∧ (e.status = .failed ↔ ∃ k, Fails k [.failed 1 "boom" 1])
      ∧ (Fails 2 [.failed 1 "boom" 1]
        ∨ 2 ∉ submissions [.submit 1 ∅, .failed 7 "1 job(s) failed"]) := by
  obtain ⟨t, built⟩ := built_chainDag
  have reported : During chainDag DAGExecution.Reports
      (({} : DAGExecutor).startDag Host.accepting.recording 0 chainDag ((), [])).2
      (.failed 1 "boom" 1) :=
    ⟨_, rfl, Finset.mem_insert_self 1 ∅⟩
  obtain ⟨e, he, -, hfailed, hslow⟩ := dag_completeness
    (fun _ k _ => ⟨k.str, rfl⟩) built acyclic_chainDag (by decide)
    (show GuardedRun (step .increasing Host.accepting.recording) _ _ _ _ from
      .single reported rfl)
  have hidle : e.runningJobs = ∅ := by
    rw [← Option.some.inj he]
    decide
  refine ⟨e, he, (hfailed hidle).2, ((hslow rfl hidle) 2 (by decide)).2 ?_⟩
  rintro ⟨-, hanc⟩
  refine hanc 1 (.single ?_) ⟨"boom", 1, List.mem_cons_self⟩
  exact ⟨_, rfl, by decide⟩

end DAGExecutor

end JobOrchestrator
