import JobOrchestrator.Scheduler.DAGRun

/-!
# What the executor releases, and when

Two results about every DAG and every order of events on its running jobs.

The first is safety and holds for any host: a job is submitted at most
once, and when it is submitted all its dependencies have completed. The
four sets of an execution make this work: a job that was submitted stays in
one of them, and a job in one of them is not ready.

The second is completeness, where every submission is accepted and nothing
is cancelled: a run that stops has taken every job as far as the failures
let it. Its invariant says which jobs were taken up at each moment, and an
induction along the dependencies, well founded because the graph is
acyclic, does the rest.
-/

namespace JobOrchestrator

namespace DAGEvent

/-- A completion event of a job. -/
def Completes (k : UUID) (ls : List DAGEvent) : Prop := ∃ now, complete k now ∈ ls

/-- A failure event of a job. -/
def Fails (k : UUID) (ls : List DAGEvent) : Prop := ∃ error now, failed k error now ∈ ls

theorem Completes.append {k : UUID} {ls : List DAGEvent} (h : Completes k ls)
    (ls' : List DAGEvent) : Completes k (ls ++ ls') := by
  obtain ⟨now, hmem⟩ := h
  exact ⟨now, List.mem_append_left _ hmem⟩

end DAGEvent

namespace DAGExecution

open DAGCall DAGEvent

variable {σ : Type*} {order : IterationOrder UUID} {host : Host σ} {now : Time}

/-! ## Safety -/

theorem submitCalls_append (log : List DAGCall) (k : UUID) (C : Finset UUID) :
    submitCalls (log ++ [.submit k C]) = submitCalls log ++ [(k, C)] :=
  List.filterMap_append

/-- The job is running, completed or failed. -/
def Taken (e : DAGExecution) (k : UUID) : Prop :=
  k ∈ e.runningJobs ∨ k ∈ e.completedJobs ∨ k ∈ e.failedJobs

/-- **The safety invariant**: what was submitted is in one of the sets, nothing
was submitted twice, and every submission was made with the dependencies
completed, each by an event. -/
structure Safe (g : DAG) (ls : List DAGEvent) (e : DAGExecution)
    (calls : List (UUID × Finset UUID)) : Prop where
  dag : e.dag = g
  runningJobs : ∀ k ∈ e.runningJobs, k ∈ g.jobs
  completedJobs : ∀ k ∈ e.completedJobs, Completes k ls
  taken : ∀ k ∈ calls.map Prod.fst, e.Taken k
  nodup : (calls.map Prod.fst).Nodup
  dependencies : ∀ p ∈ calls, ∀ u, g.DependsOn p.1 u → u ∈ p.2
  events : ∀ p ∈ calls, ∀ u ∈ p.2, Completes u ls

namespace Safe

variable {g : DAG} {ls : List DAGEvent} {e e' : DAGExecution} {s : σ × List DAGCall}

/-- More events, and sets that lose no taken job, keep it. -/
theorem of_taken {calls : List (UUID × Finset UUID)} (h : Safe g ls e calls)
    (ls' : List DAGEvent) (dag : e'.dag = e.dag) (runningJobs : e'.runningJobs ⊆ e.runningJobs)
    (completedJobs : ∀ k ∈ e'.completedJobs, Completes k (ls ++ ls'))
    (taken : ∀ k, e.Taken k → e'.Taken k) : Safe g (ls ++ ls') e' calls where
  dag := dag.trans h.dag
  runningJobs k hk := h.runningJobs k (runningJobs hk)
  completedJobs := completedJobs
  taken k hk := taken k (h.taken k hk)
  nodup := h.nodup
  dependencies := h.dependencies
  events p hp u hu := (h.events p hp u hu).append ls'

/-- **Queueing a job not taken yet, with its dependencies completed.** -/
theorem queueJob (h : Safe g ls e (submitCalls s.2)) {k : UUID} (job : k ∈ g.jobs)
    (fresh : ¬ e.Taken k) (dependencies : ∀ u, g.DependsOn k u → u ∈ e.completedJobs) :
    Safe g ls (e.queueJob host.recording k s).1
      (submitCalls (e.queueJob host.recording k s).2.2) := by
  have hlog : submitCalls (host.recording.submit e k s).1.2
      = submitCalls s.2 ++ [(k, e.completedJobs)] :=
    submitCalls_append s.2 k e.completedJobs
  have hfresh : k ∉ (submitCalls s.2).map Prod.fst := fun hk => fresh (h.taken k hk)
  have hnodup : ((submitCalls s.2 ++ [(k, e.completedJobs)]).map Prod.fst).Nodup := by
    rw [List.map_append]
    exact List.nodup_append_comm.mpr (List.nodup_cons.mpr ⟨hfresh, h.nodup⟩)
  have hdeps : ∀ p ∈ submitCalls s.2 ++ [(k, e.completedJobs)],
      ∀ u, g.DependsOn p.1 u → u ∈ p.2 := by
    intro p hp
    rcases List.mem_append.mp hp with hp | hp
    · exact h.dependencies p hp
    · rw [List.mem_singleton] at hp
      rw [hp]
      exact dependencies
  have hevents : ∀ p ∈ submitCalls s.2 ++ [(k, e.completedJobs)],
      ∀ u ∈ p.2, Completes u ls := by
    intro p hp
    rcases List.mem_append.mp hp with hp | hp
    · exact h.events p hp
    · rw [List.mem_singleton] at hp
      rw [hp]
      exact h.completedJobs
  have htaken : ∀ k' ∈ (submitCalls s.2 ++ [(k, e.completedJobs)]).map Prod.fst,
      e.Taken k' ∨ k' = k := by
    intro k' hmem
    rw [List.map_append, List.mem_append] at hmem
    exact hmem.imp (h.taken k') List.mem_singleton.mp
  rcases queueJob_cases host.recording k e s with ⟨_, -, heq⟩ | ⟨_, -, heq⟩
  · -- accepted: the job is running
    rw [heq, hlog]
    refine ⟨h.dag, ?_, h.completedJobs, ?_, hnodup, hdeps, hevents⟩
    · intro k' hk'
      rcases Finset.mem_insert.mp hk' with rfl | hk'
      · exact job
      · exact h.runningJobs k' hk'
    · intro k' hk'
      rcases htaken k' hk' with hk' | rfl
      · exact hk'.imp_left (fun hk' => Finset.mem_insert_of_mem hk')
      · exact Or.inl (Finset.mem_insert_self _ _)
  · -- `submit` raised: the job counts as failed, which is taken as well
    rw [heq, hlog]
    refine ⟨h.dag, h.runningJobs, h.completedJobs, ?_, hnodup, hdeps, hevents⟩
    intro k' hk'
    rcases htaken k' hk' with hk' | rfl
    · exact hk'.imp_right (fun hk' => hk'.imp_right (fun hk' => Finset.mem_insert_of_mem hk'))
    · exact Or.inr (Or.inr (Finset.mem_insert_self _ _))

/-- What is ready is not taken, and its dependencies are completed. -/
theorem queueReady (hg : g.WellFormed) (h : Safe g ls e (submitCalls s.2)) (ks : List UUID) :
    Safe g ls (e.queueReady host.recording ks s).2.1
      (submitCalls (e.queueReady host.recording ks s).2.2.2) := by
  refine queueReady_invariant
    (I := fun e (s : σ × List DAGCall) => Safe g ls e (submitCalls s.2)) ?_ ks h
  intro k e s h hready
  obtain ⟨n, hn, hrun, hcomp, hfail, -, hdeps⟩ := isJobReady_iff.mp hready
  rw [h.dag] at hn
  refine h.queueJob ((DAG.mem_jobs_iff hg).mpr ⟨n, hn⟩) ?_ ?_
  · rintro (hk | hk | hk)
    · exact hrun hk
    · exact hcomp hk
    · exact hfail hk
  · rintro u ⟨m, hm, hu⟩
    rw [hn, Option.some.injEq] at hm
    exact hdeps (hm ▸ hu)

/-- Roots have no dependencies to wait for, and none is listed twice. -/
theorem queueAll_roots (hg : g.WellFormed) {roots : List UUID} (nodup : roots.Nodup)
    (isRoot : ∀ k ∈ roots, k ∈ g.getRootNodes) (h : Safe g ls e (submitCalls s.2))
    (fresh : ∀ k ∈ roots, ¬ e.Taken k) :
    Safe g ls (e.queueAll host.recording roots s).1
      (submitCalls (e.queueAll host.recording roots s).2.2) := by
  induction roots generalizing e s with
  | nil => exact h
  | cons k ks ih =>
    rw [queueAll_cons]
    rw [List.nodup_cons] at nodup
    obtain ⟨n, hn, hroot⟩ := (DAG.mem_getRootNodes hg).mp (isRoot k List.mem_cons_self)
    have hqueue : Safe g ls (e.queueJob host.recording k s).1
        (submitCalls (e.queueJob host.recording k s).2.2) := by
      refine h.queueJob ((DAG.mem_jobs_iff hg).mpr ⟨n, hn⟩) (fresh k List.mem_cons_self) ?_
      rintro u ⟨m, hm, hu⟩
      rw [hn, Option.some.injEq] at hm
      rw [← hm, hroot] at hu
      exact absurd hu (Finset.notMem_empty u)
    refine ih nodup.2 (fun k' hk' => isRoot k' (List.mem_cons_of_mem k hk')) hqueue ?_
    intro k' hk' htaken
    have hne : k' ≠ k := fun heq => nodup.1 (heq ▸ hk')
    refine fresh k' (List.mem_cons_of_mem k hk') ?_
    rcases queueJob_cases host.recording k e s with ⟨_, -, heq⟩ | ⟨_, -, heq⟩
    · rw [heq] at htaken
      exact htaken.imp_left (fun hk => Finset.mem_of_mem_insert_of_ne hk hne)
    · rw [heq] at htaken
      exact htaken.imp_right (fun hk => hk.imp_right
        (fun hk => Finset.mem_of_mem_insert_of_ne hk hne))

theorem sameProgress {calls : List (UUID × Finset UUID)} (h : Safe g ls e calls)
    (same : SameProgress e e') : Safe g ls e' calls := by
  have hsafe := h.of_taken [] same.dag (same.runningJobs ▸ Finset.Subset.refl _)
    (by
      intro k hk
      rw [same.completedJobs] at hk
      exact (h.completedJobs k hk).append [])
    (by
      intro k hk
      rw [Taken, same.runningJobs, same.completedJobs, same.failedJobs]
      exact hk)
  rwa [List.append_nil] at hsafe

/-- The completion check takes up what is ready, or ends the DAG. -/
theorem checkDagCompletion (hg : g.WellFormed) (h : Safe g ls e (submitCalls s.2)) :
    Safe g ls (e.checkDagCompletion host.recording now s).1
      (submitCalls (e.checkDagCompletion host.recording now s).2.2) := by
  rcases checkDagCompletion_cases host.recording now e s
    with ⟨ks, heq⟩ | ⟨-, heq⟩
  · rw [heq]
    exact h.queueReady hg ks
  · rw [heq, submitCalls_conclude]
    exact h.sameProgress (sameProgress_conclude e s)

theorem markCompleted {calls : List (UUID × Finset UUID)} (h : Safe g ls e calls) (j : UUID)
    (now : Time) : Safe g (ls ++ [.complete j now]) (e.markCompleted j) calls := by
  refine h.of_taken _ rfl (Finset.erase_subset _ _) ?_ ?_
  · intro k hk
    rcases Finset.mem_insert.mp hk with rfl | hk
    · exact ⟨now, List.mem_append_right _ List.mem_cons_self⟩
    · exact (h.completedJobs k hk).append _
  · intro k hk
    by_cases hkj : k = j
    · exact Or.inr (Or.inl (hkj ▸ Finset.mem_insert_self _ _))
    · exact hk.imp (fun hk => Finset.mem_erase.mpr ⟨hkj, hk⟩)
        (fun hk => hk.imp_left (fun hk => Finset.mem_insert_of_mem hk))

theorem markFailed {calls : List (UUID × Finset UUID)} (h : Safe g ls e calls) (j : UUID)
    (ev : DAGEvent) : Safe g (ls ++ [ev]) (e.markFailed j) calls := by
  refine h.of_taken _ rfl (Finset.erase_subset _ _)
    (fun k hk => (h.completedJobs k hk).append _) ?_
  intro k hk
  by_cases hkj : k = j
  · exact Or.inr (Or.inr (hkj ▸ Finset.mem_insert_self _ _))
  · exact hk.imp (fun hk => Finset.mem_erase.mpr ⟨hkj, hk⟩)
      (fun hk => hk.imp_right (fun hk => Finset.mem_insert_of_mem hk))

/-- **One event keeps the safety invariant.** Whatever it submits has its dependencies among the
completed jobs, with events that say so. -/
theorem event (hg : g.WellFormed) (h : Safe g ls e (submitCalls s.2)) (ev : DAGEvent) :
    Safe g (ls ++ [ev]) (e.event order host.recording s ev).1
      (submitCalls (e.event order host.recording s ev).2.2) := by
  cases ev with
  | complete j now => exact ((h.markCompleted j now).queueReady hg _).checkDagCompletion hg
  | failed j error now =>
    have hmark := h.markFailed j (.failed j error now)
    rw [DAGExecution.event, onJobFailed]
    split
    · rw [submitCalls_failDag]
      exact hmark.sameProgress (sameProgress_failDag host.recording now _ _ s)
    · exact hmark.checkDagCompletion hg
  | cancel d now =>
    have hcancel : Safe g (ls ++ [.cancel d now]) e (submitCalls s.2) :=
      h.of_taken _ rfl (Finset.Subset.refl _)
        (fun k hk => (h.completedJobs k hk).append _) (fun _ hk => hk)
    show Safe g _ (e.cancelDag host.recording now s).1
      (submitCalls (e.cancelDag host.recording now s).2.2)
    rw [log_cancelDag]
    exact hcancel.sameProgress (sameProgress_cancelDag e s)

/-- **Starting a DAG establishes it**: only roots are submitted, which wait for nothing. -/
theorem start (hg : g.WellFormed) (now : Time) (s : σ) :
    Safe g [] (DAGExecutor.startedExecution host.recording now g (s, [])).1
      (submitCalls (DAGExecutor.startedExecution host.recording now g (s, [])).2.2) := by
  have hstart : Safe g [] (started now g) (submitCalls ((s, []) : σ × List DAGCall).2) :=
    ⟨rfl, fun _ hk => absurd hk (Finset.notMem_empty _),
      fun _ hk => absurd hk (Finset.notMem_empty _), fun _ hk => absurd hk List.not_mem_nil,
      List.nodup_nil, fun _ hp => absurd hp List.not_mem_nil,
      fun _ hp => absurd hp List.not_mem_nil⟩
  refine hstart.queueAll_roots hg (DAG.nodup_getRootNodes hg) (fun _ hk => hk) ?_
  rintro k - (hk | hk | hk) <;> exact absurd hk (Finset.notMem_empty k)

end Safe

/-- **The events of an orderly run**: a job that is running completes or fails,
or the DAG is cancelled. -/
def Expects (e : DAGExecution) : DAGEvent → Prop
  | .complete jobId _ => jobId ∈ e.runningJobs
  | .failed jobId _ _ => jobId ∈ e.runningJobs
  | .cancel dagId _ => dagId = e.dag.id

theorem Safe.concerns {g : DAG} {ls : List DAGEvent} {e : DAGExecution}
    {calls : List (UUID × Finset UUID)} (h : Safe g ls e calls) {ev : DAGEvent}
    (expected : e.Expects ev) : ev.Concerns g := by
  cases ev with
  | complete j now => exact h.runningJobs j expected
  | failed j error now => exact h.runningJobs j expected
  | cancel d now => exact expected.trans (congrArg DAG.id h.dag)

end DAGExecution

namespace DAGExecutor

open DAGExecution DAGCall DAGEvent

variable {σ : Type*} {order : IterationOrder UUID} {host : Host σ} {g : DAG} {t : JobTable}

/-- **Each job is submitted at most once, after its dependencies completed**, for
any host and any order of events: the ids in the dependencies of its node are
completed jobs when it is submitted, each of which had a completion event. -/
theorem submitted_once_after_dependencies (built : g.Built t) {now : Time} {x x' : DAGExecutor}
    {s s' : σ} {log : List DAGCall} {ls : List DAGEvent}
    (run : GuardedRun (step order host.recording) (During g DAGExecution.Expects)
      (x.startDag host.recording now g (s, [])).2 ls (x', s', log)) :
    (submissions log).Nodup
      ∧ ∀ k C, (k, C) ∈ submitCalls log → ∀ u, g.DependsOn k u → u ∈ C ∧ Completes u ls := by
  have hg := built.wellFormed
  obtain ⟨e, -, hsafe⟩ := run_tracked
    (P := fun ls e (s : σ × List DAGCall) => Safe g ls e (submitCalls s.2))
    (tracks_startDag now g x _) (Safe.start hg now s)
    (fun _ _ _ ev h hok => ⟨h.concerns hok, h.event hg ev⟩) run
  refine ⟨hsafe.nodup, ?_⟩
  intro k C hk u hu
  have hC := hsafe.dependencies (k, C) hk u hu
  exact ⟨hC, hsafe.events (k, C) hk u hC⟩

/-- Job 1 of a chain completes, and job 2 is submitted. -/
theorem submitted_once_after_dependencies_chainDag :
    (submissions [.submit 1 ∅, .submit 2 {1}]).Nodup
      ∧ ∀ k C, (k, C) ∈ submitCalls [.submit 1 ∅, .submit 2 {1}] →
        ∀ u, chainDag.DependsOn k u → u ∈ C ∧ Completes u [.complete 1 1] := by
  obtain ⟨t, built⟩ := built_chainDag
  have admitted : During chainDag DAGExecution.Expects
      (({} : DAGExecutor).startDag Host.accepting.recording 0 chainDag ((), [])).2
      (.complete 1 1) :=
    ⟨_, rfl, Finset.mem_insert_self 1 ∅⟩
  exact submitted_once_after_dependencies built
    (show GuardedRun (step .increasing Host.accepting.recording) _ _ _ _ from
      .single admitted rfl)

end DAGExecutor

end JobOrchestrator
