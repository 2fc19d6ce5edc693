import JobOrchestrator.Scheduler.Bystander
import JobOrchestrator.Scheduler.DAGProgress
import JobOrchestrator.Scheduler.TerminalStates

/-!
# Dependencies, through the scheduler

The executor submits a job when the dependencies are in `completed_jobs`. What a worker
relies on is more: that they are COMPLETED in the job store, and stay so, whatever other
workers and clients do meanwhile.

A job of the DAG that nobody has submitted is PENDING and not stored. That it leaves this
only through the executor is the invariant, and it needs two things of the callers: that
they do not submit the DAG's jobs themselves, and that they run no job that was never
submitted. Everything else is free: further DAGs, the same DAG again, cancellations, reports
by either way, and retries.
-/

namespace JobOrchestrator

namespace SchedulerCore

variable {g : DAG} {c c' c'' : SchedulerCore} {job v : UUID}

/-- The job is COMPLETED in the job store. -/
def Done (u : UUID) (c : SchedulerCore) : Prop := u ∈ c.store ∧ c.state u = .completed

/-- **The dependencies of a job are COMPLETED.** The states of the stored jobs are meant, not the
sets of the executor. -/
def DependenciesCompleted (g : DAG) (v : UUID) (c : SchedulerCore) : Prop :=
  ∀ u, g.DependsOn v u → c.Done u

/-- A job that nobody has submitted. -/
structure Unsubmitted (v : UUID) (c : SchedulerCore) : Prop where
  pending : c.state v = .pending
  unknown : v ∉ c.store

/-- **The invariant** below the executor. -/
def InOrder (g : DAG) (c : SchedulerCore) : Prop :=
  ∀ v ∈ g.jobs, c.Unsubmitted v ∨ c.DependenciesCompleted g v

/-- **Onward**: no job is forgotten, and none that is COMPLETED changes. COMPLETED has no way
out, so whatever rests on a completed dependency keeps its ground. -/
structure Onward (c c' : SchedulerCore) : Prop where
  store : c.store ⊆ c'.store
  completed : ∀ k, c.state k = .completed → c'.state k = .completed

theorem Onward.refl (c : SchedulerCore) : c.Onward c := ⟨Finset.Subset.refl _, fun _ hk => hk⟩

theorem Onward.trans (h : c.Onward c') (h' : c'.Onward c'') : c.Onward c'' :=
  ⟨h.store.trans h'.store, fun k hk => h'.completed k (h.completed k hk)⟩

/-- **Every part of the operations goes onward.** The transitions of the table never leave
COMPLETED, and nothing is taken out of the store. -/
theorem kept_onward (c : SchedulerCore) : Kept (fun _ => True) (Onward c) := by
  have hstate := World.kept_rests (show JobState.isTerminal .completed = true from rfl)
  have hstore := World.stable_subset_store c.store
  refine ⟨⟨?_, ?_, ?_⟩, ?_, ?_, ?_, ?_⟩
  · exact fun _ _ h => ⟨h.store, h.completed⟩
  · exact fun d job h => ⟨hstore.submit d job h.store,
      fun k hk => (hstate k).stable.submit d job (h.completed k hk)⟩
  · exact fun d now job h => ⟨hstore.cancelJob d now job h.store,
      fun k hk => (hstate k).stable.cancelJob d now job (h.completed k hk)⟩
  · exact fun d job f hf h => ⟨h.store,
      fun k hk => (hstate k).modifyJob d job f hf (h.completed k hk)⟩
  · intro d d' job target _ hok h
    refine ⟨h.store.trans ?_, fun k hk => (hstate k).transition d d' job target trivial hok
      (h.completed k hk)⟩
    rw [(transition_ok hok).2]
    show d.store ⊆ if d.store.Nonempty then insert job d.store else d.store
    split
    · exact Finset.subset_insert job d.store
    · exact Finset.Subset.refl _
  · exact fun _ _ h => ⟨h.store, h.completed⟩
  · exact fun _ _ h => ⟨h.store, h.completed⟩

theorem Onward.submit (job : UUID) (c : SchedulerCore) : c.Onward (c.submit job).1 :=
  (kept_onward c).stable.submit c job (.refl c)

theorem Onward.cancelJob (now : Time) (job : UUID) (c : SchedulerCore) :
    c.Onward (c.cancelJob now job).1 :=
  (kept_onward c).stable.cancelJob c now job (.refl c)

theorem Onward.transition {target : JobState} (hok : c.transition job target = .ok c') :
    c.Onward c' :=
  (kept_onward c).transition c c' job target trivial hok (.refl c)

theorem Done.onward {u : UUID} (h : c.Done u) (onward : c.Onward c') : c'.Done u :=
  ⟨onward.store h.1, onward.completed u h.2⟩

theorem DependenciesCompleted.onward (h : c.DependenciesCompleted g v) (onward : c.Onward c') :
    c'.DependenciesCompleted g v :=
  fun u hu => (h u hu).onward onward

namespace InOrder

/-- A job of the DAG that is stored was released. -/
theorem released (h : c.InOrder g) (job : v ∈ g.jobs) (stored : v ∈ c.store) :
    c.DependenciesCompleted g v :=
  (h v job).resolve_left (fun hnew => hnew.unknown stored)

/-- Where states and store are the same, nothing is lost. -/
theorem congr (h : c.InOrder g) (states : ∀ k, c'.state k = c.state k)
    (store : c'.store = c.store) : c'.InOrder g := by
  intro v hv
  refine (h v hv).imp (fun hnew => ?_) (fun hdone u hu => ?_)
  · exact ⟨by rw [states, hnew.pending], by rw [store]; exact hnew.unknown⟩
  · exact ⟨by rw [store]; exact (hdone u hu).1, by rw [states, (hdone u hu).2]⟩

/-- **A step on one job**, which was submitted or may be. -/
theorem step (h : c.InOrder g) (onward : c.Onward c') (others : ∀ k, job ≠ k → c.Spared k c')
    (own : job ∈ g.jobs → job ∈ c.store ∨ c.DependenciesCompleted g job) : c'.InOrder g := by
  intro v hv
  by_cases hjob : job = v
  · subst hjob
    have hdone : c.DependenciesCompleted g job := (own hv).elim (h.released hv) id
    exact Or.inr (hdone.onward onward)
  · have hspared := others v hjob
    refine (h v hv).imp (fun hnew => ?_) (fun hdone => hdone.onward onward)
    exact ⟨by rw [hspared.state, hnew.pending], fun hin => hnew.unknown (hspared.stored.mp hin)⟩

theorem modifyJob (h : c.InOrder g) {f : Job → Job} (hf : ∀ j, (f j).state = j.state) :
    (c.modifyJob job f).InOrder g :=
  h.congr (state_modifyJob hf) rfl

theorem transition (h : c.InOrder g) (stored : job ∈ c.store) {target : JobState}
    (hok : c.transition job target = .ok c') : c'.InOrder g :=
  h.step (.transition hok) (fun _ other => Spared.transition other hok) (fun _ => Or.inl stored)

/-- **`submit`** of a job that is not the DAG's, or whose dependencies are COMPLETED. -/
theorem submit (h : c.InOrder g) (ready : job ∈ g.jobs → c.DependenciesCompleted g job) :
    (c.submit job).1.InOrder g :=
  h.step (.submit job c) (fun _ other => Spared.submit job (Or.inr other))
    (fun hjob => Or.inr (ready hjob))

/-- **`cancel_job`** finds only what is stored. -/
theorem cancelJob (h : c.InOrder g) (now : Time) (job : UUID) :
    (c.cancelJob now job).1.InOrder g := by
  by_cases hstored : job ∈ c.store
  · exact h.step (.cancelJob now job c) (fun _ other => Spared.cancelJob other now)
      (fun _ => Or.inl hstored)
  · unfold SchedulerCore.cancelJob
    rw [if_pos hstored]
    exact h

end InOrder

end SchedulerCore

/-! ## An execution in step with the scheduler -/

namespace DAGExecution

open SchedulerCore

variable {g : DAG} {e e' : DAGExecution} {c c' : SchedulerCore} {now : Time} {k : UUID}

/-- **What the executor knows is so**: the execution is one of the DAG, or shares no job with it,
and its completed jobs are COMPLETED in the store. The executor is told of completions by the
scheduler, so its sets can only lag behind the states of the jobs. -/
structure Follows (g : DAG) (e : DAGExecution) (c : SchedulerCore) : Prop where
  graph : e.dag.nodes = g.nodes ∨ ∀ k ∈ g.jobs, e.dag.nodes.get? k = none
  completed : ∀ k ∈ e.completedJobs, c.Done k

theorem Follows.onward (h : e.Follows g c) (onward : c.Onward c') : e.Follows g c' :=
  ⟨h.graph, fun k hk => (h.completed k hk).onward onward⟩

/-- Both sides of the invariant, while the executor works on the execution. -/
structure Paced (g : DAG) (e : DAGExecution) (c : SchedulerCore) : Prop extends Follows g e c where
  inOrder : c.InOrder g

namespace Paced

/-- Ending an execution counts it, and leaves the jobs alone. -/
theorem congr (h : e.Paced g c) (dag : e'.dag = e.dag)
    (completedJobs : e'.completedJobs = e.completedJobs) (states : ∀ k, c'.state k = c.state k)
    (store : c'.store = c.store) : e'.Paced g c' where
  graph := by
    rw [dag]
    exact h.graph
  completed k hk := by
    rw [completedJobs] at hk
    obtain ⟨hstored, hstate⟩ := h.completed k hk
    exact ⟨by rw [store]; exact hstored, by rw [states, hstate]⟩
  inOrder := h.inOrder.congr states store

/-- **`_queue_job`** of a job whose dependencies are COMPLETED. It submits the job, which is all
that the order of the DAG asks about. -/
theorem queueJob (h : e.Paced g c) (ready : k ∈ g.jobs → c.DependenciesCompleted g k) :
    (e.queueJob (host now) k c).1.Paced g (e.queueJob (host now) k c).2 := by
  have hqueued := queued_queueJob (host now) k e c
  have hcore : (e.queueJob (host now) k c).2 = (c.submit k).1 := by
    rcases queueJob_cases (host now) k e c with ⟨_, -, heq⟩ | ⟨_, -, heq⟩ <;> rw [heq] <;> rfl
  rw [hcore]
  refine ⟨⟨?_, fun k' hk' => ?_⟩, h.inOrder.submit ready⟩
  · rw [hqueued.dag]
    exact h.graph
  · rw [hqueued.completedJobs] at hk'
    exact (h.completed k' hk').onward (.submit k c)

/-- **What is ready has its dependencies COMPLETED.** The executor looks at its completed set,
and what is in there is COMPLETED. -/
theorem of_isJobReady (h : e.Paced g c) (ready : e.isJobReady k = true) (job : k ∈ g.jobs) :
    c.DependenciesCompleted g k := by
  obtain ⟨n, hn, -, -, -, -, hdeps⟩ := isJobReady_iff.mp ready
  rcases h.graph with hsame | hapart
  · rintro u ⟨m, hm, hu⟩
    rw [hsame, hm, Option.some.injEq] at hn
    exact h.completed u (hdeps (hn ▸ hu))
  · cases (hapart k job).symm.trans hn

theorem queueReady (h : e.Paced g c) (ks : List UUID) :
    (e.queueReady (host now) ks c).2.1.Paced g (e.queueReady (host now) ks c).2.2 :=
  queueReady_invariant (I := fun e c => e.Paced g c)
    (fun _ _ _ h hready => h.queueJob (h.of_isJobReady hready)) ks h

/-- The roots depend on no job, so the loop at the start may submit them all. -/
theorem queueAll (h : e.Paced g c) (now : Time) (ks : List UUID)
    (roots : ∀ k ∈ ks, k ∈ g.jobs → ∀ u, ¬ g.DependsOn k u) :
    (e.queueAll (host now) ks c).1.Paced g (e.queueAll (host now) ks c).2 := by
  induction ks generalizing e c with
  | nil => exact h
  | cons k ks ih =>
    rw [queueAll_cons]
    refine ih (h.queueJob (fun hk u hu => ?_)) (fun k' hk' => roots k' (List.mem_cons_of_mem k hk'))
    exact absurd hu (roots k List.mem_cons_self hk u)

theorem failDag (h : e.Paced g c) (error : String) :
    (e.failDag (host now) now error c).1.Paced g (e.failDag (host now) now error c).2 := by
  unfold DAGExecution.failDag
  split
  · exact h
  · exact h.congr rfl rfl (fun _ => rfl) rfl

theorem checkDagCompletion (h : e.Paced g c) :
    (e.checkDagCompletion (host now) now c).1.Paced g
      (e.checkDagCompletion (host now) now c).2 := by
  rcases checkDagCompletion_cases (host now) now e c with ⟨ks, heq⟩ | ⟨-, heq⟩
  · rw [heq]
    exact h.queueReady ks
  · rw [heq]
    unfold conclude
    split
    · exact h.failDag _
    · exact h.congr rfl rfl (fun _ => rfl) rfl

/-- **A completion is heard**, of a job that is COMPLETED. -/
theorem onJobComplete (h : e.Paced g c) (order : IterationOrder UUID)
    (done : c.Done k) :
    (e.onJobComplete order (host now) now k c).2.1.Paced g
      (e.onJobComplete order (host now) now k c).2.2 := by
  have hmarked : (e.markCompleted k).Paced g c := by
    refine ⟨⟨h.graph, fun k' hk' => ?_⟩, h.inOrder⟩
    rcases Finset.mem_insert.mp hk' with rfl | hk'
    · exact done
    · exact h.completed k' hk'
  exact (hmarked.queueReady _).checkDagCompletion

theorem onJobFailed (h : e.Paced g c) (error : String) :
    (e.onJobFailed (host now) now k error c).1.Paced g
      (e.onJobFailed (host now) now k error c).2 := by
  have hmarked : (e.markFailed k).Paced g c := ⟨⟨h.graph, h.completed⟩, h.inOrder⟩
  unfold DAGExecution.onJobFailed
  split
  · exact hmarked.failDag _
  · exact hmarked.checkDagCompletion

end Paced

end DAGExecution

/-! ## The operations -/

namespace Scheduler

open SchedulerCore

variable {g : DAG} {order : IterationOrder UUID} {s s' : Scheduler} {job : UUID}

/-- **The scheduler keeps to the dependencies** of the DAG. A job of the DAG is stored only when
those it depends on are completed. -/
structure Orderly (g : DAG) (s : Scheduler) : Prop where
  inOrder : s.core.InOrder g
  executions : ∀ dagId e, s.executor.activeDags.get? dagId = some e → e.Follows g s.core

namespace Orderly

/-- Where the executor hears nothing only the states may have moved, and these move onward. -/
theorem unheard (h : s.Orderly g) (executor : s'.executor = s.executor)
    (onward : s.core.Onward s'.core) (inOrder : s'.core.InOrder g) : s'.Orderly g where
  inOrder := inOrder
  executions dagId e he := by
    rw [executor] at he
    exact (h.executions dagId e he).onward onward

theorem congr (h : s.Orderly g) (executor : s'.executor = s.executor)
    (states : ∀ k, s'.core.state k = s.core.state k) (store : s'.core.store = s.core.store) :
    s'.Orderly g :=
  h.unheard executor ⟨Finset.subset_of_eq store.symm, fun k hk => (states k).trans hk⟩
    (h.inOrder.congr states store)

/-- **A report**, which one execution hears. Whichever execution it is, the jobs it submits have
their dependencies completed. -/
theorem heard (h : s.Orderly g) {hears : DAGExecution → DAGExecution × SchedulerCore}
    (heard : s.Heard job hears s') (onward : ∀ e, s.core.Onward (hears e).2)
    (paced : ∀ e : DAGExecution, e.Paced g s.core → (hears e).1.Paced g (hears e).2) :
    s'.Orderly g := by
  cases heard with
  | nobody => exact h
  | execution dagId e owner active =>
    have hpaced := paced e ⟨h.executions dagId e active, h.inOrder⟩
    refine ⟨hpaced.inOrder, fun d e' he' => ?_⟩
    rcases OrderedDict.get?_set_eq_some he' with ⟨-, rfl⟩ | ⟨-, hold⟩
    · exact hpaced.toFollows
    · exact (h.executions d e' hold).onward (onward e)

theorem notifyComplete (h : s.Orderly g) (done : s.core.Done job)
    (order : IterationOrder UUID) (now : Time) : (s.notifyComplete order now job).Orderly g :=
  h.heard (heard_notifyComplete order now job s)
    (fun e => ((kept_onward s.core).stable.host now).executionOnJobComplete order now job e
      (.refl _))
    (fun _ hpaced => hpaced.onJobComplete order done)

theorem notifyFailed (h : s.Orderly g) (now : Time) (job : UUID) (error : String) :
    (s.notifyFailed now job error).Orderly g :=
  h.heard (heard_notifyFailed now job error s)
    (fun e => ((kept_onward s.core).stable.host now).executionOnJobFailed now job error e
      (.refl _))
    (fun _ hpaced => hpaced.onJobFailed error)

theorem modifyJob (h : s.Orderly g) (job : UUID) (f : Job → Job) (hf : ∀ j, (f j).state = j.state) :
    (s.withCore (s.core.modifyJob job f)).Orderly g :=
  h.congr rfl (state_modifyJob hf) rfl

theorem transition (h : s.Orderly g) (stored : job ∈ s.core.store) {target : JobState}
    {core : SchedulerCore} (hok : s.core.transition job target = .ok core) :
    (s.withCore core).Orderly g :=
  h.unheard rfl (.transition hok) (h.inOrder.transition stored hok)

theorem pushRetry (h : s.Orderly g) (job : UUID) : (s.pushRetry job).2.Orderly g :=
  h.congr (repushed job s).executor (repushed job s).states (repushed job s).store

/-- **`complete_job`** makes the job COMPLETED before it tells the executor. -/
theorem completeJob (h : s.Orderly g) (order : IterationOrder UUID) (now : Time) (job : UUID)
    (result : Value) : (s.completeJob order now job result).1.Orderly g := by
  unfold Scheduler.completeJob
  split
  · exact h
  · rename_i hstored
    rw [not_not] at hstored
    have hnoted := h.modifyJob job
      (fun j => { j with result := result, completedAt := some (.utcnow now) }) (fun _ => rfl)
    simp only
    split
    · exact hnoted
    · rename_i completed hok
      have hcompleted := hnoted.transition hstored hok
      refine Orderly.notifyComplete ?_ ?_ order now
      · exact hcompleted.congr rfl (fun _ => rfl) rfl
      · exact ⟨(Onward.transition hok).store hstored, (state_transition hok job).trans (if_pos rfl)⟩

/-- **`fail_job`** completes nothing, so it can only stop what would have followed. -/
theorem failJob (h : s.Orderly g) (now : Time) (draw : ℚ) (traceback : String) (job : UUID)
    (error : PyException) : (s.failJob now draw traceback job error).1.Orderly g := by
  unfold Scheduler.failJob
  split
  · exact h
  · rename_i hstored
    rw [not_not] at hstored
    have hnoted := h.modifyJob job
      (fun j => { j with error := some error.message, traceback := some traceback })
      (fun _ => rfl)
    simp only
    split
    · unfold failJobRetry
      split
      · exact hnoted
      · rename_i prepared hfits
        have hprepared := hnoted.modifyJob job (s.retryHandler.prepared now draw) (fun _ => rfl)
        rw [(SchedulerCore.prepareForRetry_ok hfits).2]
        split
        · exact hprepared
        · rename_i retrying hok
          have hretrying := hprepared.transition hstored hok
          split
          · exact hretrying
          · rename_i scheduled hok'
            have hscheduled := hretrying.transition ((Onward.transition hok).store hstored) hok'
            exact (hscheduled.pushRetry job).congr rfl (fun _ => rfl) rfl
    · unfold failJobFinally
      split
      · exact hnoted
      · rename_i failed hok
        have hfailed := (hnoted.transition hstored hok).modifyJob job
          (fun j => { j with completedAt := some (.utcnow now) }) (fun _ => rfl)
        refine Orderly.notifyFailed ?_ now job error.message
        exact hfailed.congr rfl (fun _ => rfl) rfl

theorem cancelDag (h : s.Orderly g) (now : Time) (dagId : UUID) :
    (s.cancelDag now dagId).1.Orderly g := by
  have hkept : (s.cancelDag now dagId).1.core.InOrder g
      ∧ s.core.Onward (s.cancelDag now dagId).1.core :=
    DAGExecutor.cancelDag_invariant (P := fun c => c.InOrder g ∧ s.core.Onward c) now
      (fun _ _ k _ c hc => ⟨hc.1.cancelJob now k, hc.2.trans (.cancelJob now k c)⟩)
      ⟨h.inOrder, .refl _⟩
  refine ⟨hkept.1, fun d e he => ?_⟩
  unfold Scheduler.cancelDag DAGExecutor.cancelDag at he
  cases hfound : s.executor.activeDags.get? dagId with
  | none =>
    rw [hfound] at he
    exact (h.executions d e he).onward hkept.2
  | some e₀ =>
    rw [hfound] at he
    rcases OrderedDict.get?_set_eq_some he with ⟨-, rfl⟩ | ⟨-, hold⟩
    · have hfollows := (h.executions dagId e₀ hfound).onward hkept.2
      exact ⟨hfollows.graph, hfollows.completed⟩
    · exact (h.executions d e hold).onward hkept.2

/-- **`submit_dag`** of this DAG, or of one without its jobs. -/
theorem submitDag (h : s.Orderly g) (order : IterationOrder UUID) (now : Time) {g' : DAG}
    (built : g'.WellFormed) (graph : g' = g ∨ ∀ k ∈ g'.jobs, k ∉ g.jobs) :
    (s.submitDag order now g').1.Orderly g := by
  unfold Scheduler.submitDag
  cases g'.validate order with
  | error error => exact h
  | ok valid =>
    have hstarted : (DAGExecution.started now (scheduledDag now g')).Paced g s.core := by
      refine ⟨⟨graph.imp (fun heq => by rw [heq]; rfl) (fun hapart k hk => ?_),
        fun k hk => absurd hk (Finset.notMem_empty k)⟩, h.inOrder⟩
      show g'.nodes.get? k = none
      rw [OrderedDict.get?_eq_none_iff, ← built.jobs]
      exact fun hin => hapart k hin hk
    have hpaced := hstarted.queueAll now (scheduledDag now g').getRootNodes
      (fun k hroot hk u hu => by
        obtain ⟨n, hn, hempty⟩ := (DAG.mem_getRootNodes built).mp hroot
        rcases graph with rfl | hapart
        · obtain ⟨m, hm, hu⟩ := hu
          rw [hn, Option.some.injEq] at hm
          rw [← hm, hempty] at hu
          exact absurd hu (Finset.notMem_empty u)
        · refine hapart k ?_ hk
          rw [built.jobs]
          exact OrderedDict.mem_keys_iff.mpr ⟨n, hn⟩)
    have honward := ((kept_onward s.core).stable.host now).queueAll
      (scheduledDag now g').getRootNodes (DAGExecution.started now (scheduledDag now g')) (.refl _)
    refine ⟨hpaced.inOrder.congr (fun _ => rfl) rfl, fun d e he => ?_⟩
    rcases OrderedDict.get?_set_eq_some he with ⟨-, rfl⟩ | ⟨-, hold⟩
    · exact ⟨hpaced.graph, hpaced.completed⟩
    · have hfollows := (h.executions d e hold).onward honward
      exact ⟨hfollows.graph, hfollows.completed⟩

end Orderly

/-! ## The steps of a run -/

/-- **What a run stands on**: its job was submitted, and is COMPLETED where that is counted and
reported. Between the transition to COMPLETED and the report the worker holds a fact that is
still news to the executor. -/
structure Entitled (s : Scheduler) (task : Task) : Prop where
  stored : task.job ∈ s.core.store
  completed : ∀ r, task.pc = .countCompleted r ∨ task.pc = .notifyComplete r →
    s.core.state task.job = .completed

theorem Entitled.onward {task : Task} (h : s.Entitled task) (onward : s.core.Onward s'.core) :
    s'.Entitled task :=
  ⟨onward.store h.stored, fun r hr => onward.completed _ (h.completed r hr)⟩

/-- A run that begins. It has nothing to report yet. -/
theorem entitled_start (stored : job ∈ s.core.store) : s.Entitled { job := job } :=
  ⟨stored, fun _ hr => by rcases hr with h | h <;> cases h⟩

end Scheduler

/-- A run comes to count a completion when it has made the job COMPLETED, and to report it when
it has counted it. -/
theorem RunPc.Moves.completed_of_next {pc next : RunPc} {st st' : JobState} {r : JobResult}
    (h : Moves pc st (some next) st') (later : next = .countCompleted r ∨ next = .notifyComplete r)
    (before : pc = .countCompleted r → st = .completed) : st' = .completed := by
  cases h with
  | inner hpc | outer hpc =>
    rcases later with rfl | rfl <;> cases hpc <;> rfl
  | completedCounted r' =>
    rcases later with heq | heq
    · cases heq
    · cases heq
      exact before rfl
  | handled _ hpc =>
    rcases later with rfl | rfl <;> simp at hpc
  | _ => rcases later with heq | heq <;> cases heq

namespace Scheduler

open SchedulerCore

variable {g : DAG} {order : IterationOrder UUID} {s s' : Scheduler}

theorem onward_step (order : IterationOrder UUID) (input : RunInput) (task : Task)
    (s : Scheduler) : s.core.Onward (task.step order input s).1.core :=
  retained_step (kept_onward s.core).retained (fun _ => trivial) (.refl _) input task

/-- **A step of `run_job`** keeps to the dependencies, and what the run stands on. -/
theorem Orderly.step (h : s.Orderly g) (order : IterationOrder UUID) {task : Task}
    (entitled : s.Entitled task) (input : RunInput) : (task.step order input s).1.Orderly g
      ∧ ∀ next, (task.step order input s).2.task? = some next →
        (task.step order input s).1.Entitled next := by
  have honward := onward_step order input task s
  have hcases := Task.step_cases order input task s
  generalize task.step order input s = r at honward hcases ⊢
  cases hcases with
  | own own stays moves =>
    have hstore := own.store entitled.stored
    refine ⟨h.unheard own.executor honward ?_, fun next hnext => ?_⟩
    · intro v hv
      by_cases hjob : v = task.job
      · exact Or.inr ((h.inOrder.released hv (hjob ▸ entitled.stored)).onward honward)
      · refine (h.inOrder v hv).imp (fun hnew => ?_) (fun hdone => hdone.onward honward)
        exact ⟨by rw [own.others v hjob, hnew.pending], by rw [hstore]; exact hnew.unknown⟩
    · have hjob := stays next hnext
      refine ⟨honward.store (hjob ▸ entitled.stored), fun r hr => ?_⟩
      rw [hnext, Option.map_some] at moves
      rw [hjob]
      exact moves.completed_of_next hr (fun here => entitled.completed r (Or.inl here))
  | notifyComplete r here =>
    refine ⟨h.notifyComplete ⟨entitled.stored, entitled.completed r (Or.inr here)⟩ order _,
      fun next hnext => ?_⟩
    cases hnext
    exact ⟨honward.store entitled.stored, fun _ hr => by rcases hr with h | h <;> cases h⟩
  | notifyFailed r here =>
    refine ⟨h.notifyFailed _ _ _, fun next hnext => ?_⟩
    cases hnext
    exact ⟨honward.store entitled.stored, fun _ hr => by rcases hr with h | h <;> cases h⟩
  | push r here =>
    refine ⟨h.pushRetry task.job, fun next hnext => ?_⟩
    cases hnext
    exact ⟨honward.store entitled.stored, fun _ hr => by rcases hr with h | h <;> cases h⟩

/-- A whole run in one step: the induction is on the fuel, and the run stays entitled to what it
reports. -/
theorem Orderly.drive (h : s.Orderly g) {task : Task} (entitled : s.Entitled task)
    (input : RunInput) (fuel : ℕ) : (task.drive order input fuel s).1.Orderly g := by
  induction fuel generalizing s task with
  | zero => exact h
  | succ fuel ih =>
    obtain ⟨horderly, hnext⟩ := h.step order entitled input
    rw [Task.drive]
    cases heq : task.step order input s with
    | mk s' status =>
      rw [heq] at horderly hnext
      cases status with
      | running next => exact ih horderly (hnext next rfl)
      | returned | raised => exact horderly

end Scheduler

/-! ## Runs -/

namespace World

open SchedulerCore

variable {g : DAG} {order : IterationOrder UUID} {w w' : World}

/-- **What callers keep to**: the jobs of the DAG are submitted through `submit_dag` only, and
only submitted jobs are run. -/
def Respects (g : DAG) (w : World) : OperationStep → Prop
  | .call (.submit job) => job ∉ g.jobs
  | .call (.submitDag g' _) => (∃ t, g'.Built t) ∧ (g' = g ∨ ∀ k ∈ g'.jobs, k ∉ g.jobs)
  | .call (.runJob job _) | .start _ job => job ∈ w.sched.core.store
  | .call op => op.ofScheduler = true
  | .run _ _ => True

theorem Respects.throughScheduler {l : OperationStep} (h : w.Respects g l) :
    w.ThroughScheduler l := by
  cases l with
  | start | run => trivial
  | call op => cases op <;> first | rfl | exact h

/-- **The invariant.** -/
structure KeepsOrder (g : DAG) (w : World) : Prop where
  orderly : w.sched.Orderly g
  entitled : ∀ i task, w.workers i = some task → w.sched.Entitled task

/-- A call of the scheduler. The condition is that nobody submits a job of the DAG past the
executor. -/
theorem KeepsOrder.call (h : w.KeepsOrder g) {op : SchedulerCall} {sched : Scheduler}
    (respects : w.Respects g (.call op)) (taken : w.sched.perform order op = some sched) :
    sched.Orderly g := by
  have horderly := h.orderly
  cases op with
  | submit job =>
    cases taken
    exact horderly.unheard rfl (.submit job _)
      (horderly.inOrder.submit (fun hjob => absurd hjob respects))
  | submitDag g' now =>
    cases taken
    obtain ⟨⟨t, hbuilt⟩, hgraph⟩ := respects
    exact horderly.submitDag order now hbuilt.wellFormed hgraph
  | getNextJob now =>
    cases taken
    rcases Scheduler.getNextJob_cases now w.sched with heq | heq <;> rw [heq]
    · exact horderly
    · exact horderly.congr rfl (fun _ => rfl) rfl
  | runJob job input =>
    cases taken
    exact horderly.drive (Scheduler.entitled_start respects) input 16
  | completeJob job result now =>
    cases taken
    exact horderly.completeJob order now job result
  | failJob job error now draw traceback =>
    cases taken
    exact horderly.failJob now draw traceback job error
  | cancelJob job now =>
    cases taken
    exact horderly.unheard rfl (.cancelJob now job _) (horderly.inOrder.cancelJob now job)
  | cancelDag dagId now =>
    cases taken
    exact horderly.cancelDag now dagId
  | requeue | discard | resolve => cases respects
  | requeueDlqEntry | discardDlqEntry | resolveDlqEntry =>
    cases taken
    exact horderly

/-- **Every step keeps it.** From it the order follows for every state that a run reaches. -/
theorem KeepsOrder.operate (h : w.KeepsOrder g) {l : OperationStep} (respects : w.Respects g l)
    (taken : w.operate order l = some w') : w'.KeepsOrder g := by
  have honward : w.sched.core.Onward w'.sched.core :=
    kept_operate (kept_onward w.sched.core) (fun _ => trivial) (.refl _)
      respects.throughScheduler taken
  cases l with
  | call op =>
    obtain ⟨sched, hperform, rfl⟩ := operate_call taken
    exact ⟨h.call respects hperform, fun i task has => (h.entitled i task has).onward honward⟩
  | start worker job =>
    obtain ⟨-, rfl⟩ := operate_start taken
    refine ⟨h.orderly, fun i task has => ?_⟩
    rcases workers_assign has with ⟨-, hnew⟩ | ⟨-, hold⟩
    · cases hnew
      exact Scheduler.entitled_start respects
    · exact h.entitled i task hold
  | run worker input =>
    obtain ⟨task, has, rfl⟩ := operate_run taken
    obtain ⟨horderly, hnext⟩ := h.orderly.step order (h.entitled worker task has) input
    refine ⟨horderly, fun i t ht => ?_⟩
    rcases workers_assign ht with ⟨-, hnew⟩ | ⟨-, hold⟩
    · exact hnext t hnew
    · exact (h.entitled i t hold).onward honward

/-- **Dependencies are COMPLETED before a job is touched.** For every DAG that was built, and
every run of operations of the scheduler and steps of `run_job` that leaves the submission of
the DAG's jobs to `submit_dag` and runs only submitted jobs: where a job is stored, is in
another state than PENDING, or is in a worker's hands, each of its dependencies is
COMPLETED in the job store. -/
theorem dependencies_completed {jobs : JobTable} {maxSize maxEntries : Option ℕ}
    {retryHandler : Retry.RetryHandler} {onComplete onFailed : List ℕ} {t : JobTable}
    {ls : List OperationStep} (built : g.Built t)
    (pending : ∀ v ∈ g.jobs, (jobs.get v).state = .pending)
    (run : GuardedRun (operate order) (Respects g)
      (init (.new jobs maxSize maxEntries retryHandler onComplete onFailed)) ls w)
    {u v : UUID} (depends : g.DependsOn v u)
    (touched : v ∈ w.sched.core.store ∨ w.sched.core.state v ≠ .pending
      ∨ ∃ worker task, w.workers worker = some task ∧ task.job = v) :
    u ∈ w.sched.core.store ∧ w.sched.core.state u = .completed := by
  have hinit :
      (init (.new jobs maxSize maxEntries retryHandler onComplete onFailed)).KeepsOrder g := by
    refine ⟨⟨fun k hk => Or.inl ⟨pending k hk, Finset.notMem_empty k⟩, fun d e he => ?_⟩,
      fun _ _ has => by cases has⟩
    cases he
  have hkeeps := run.invariant (P := fun w => w.KeepsOrder g) hinit
    (fun _ _ _ h respects taken => h.operate respects taken)
  have hjob : v ∈ g.jobs := by
    obtain ⟨n, hn, -⟩ := depends
    exact (DAG.mem_jobs_iff built.wellFormed).mpr ⟨n, hn⟩
  refine (hkeeps.orderly.inOrder v hjob).elim (fun hnew => ?_) (fun hdone => hdone u depends)
  rcases touched with hstored | hstate | ⟨worker, task, has, rfl⟩
  · exact absurd hstored hnew.unknown
  · exact absurd hnew.pending hstate
  · exact absurd (hkeeps.entitled worker task has).stored hnew.unknown

/-- A worker's own step: it asks for a job, starts one that was submitted, or goes on. -/
def byWorker (w : World) : OperationStep → Bool
  | .call (.getNextJob _) | .run _ _ => true
  | .start _ job => decide (job ∈ w.sched.core.store)
  | _ => false

theorem respects_of_byWorker {l : OperationStep} (h : w.byWorker l = true) : w.Respects g l := by
  cases l with
  | call op => cases op <;> first | rfl | cases h
  | start worker job =>
    show job ∈ w.sched.core.store
    exact of_decide_eq_true h
  | run worker input => trivial

/-- A worker runs job 1 of a chain, and job 2 is scheduled. -/
theorem dependencies_completed_chain :
    ∃ w : World, w.sched.core.state 2 = .scheduled
      ∧ 1 ∈ w.sched.core.store ∧ w.sched.core.state 1 = .completed := by
  obtain ⟨t, built⟩ := built_chainDag
  have hreplay : (GuardedRun.replay (operate .increasing) byWorker
      ((init (.bare none)).withSched ((Scheduler.bare none).submitDag .increasing 0 chainDag).1)
      ([.call (.getNextJob 0), .start 0 1] ++ List.replicate 9 (.run 0 .returning))).any
      (fun w => w.sched.core.state 2 = .scheduled) = true := by
    decide +kernel
  obtain ⟨w, run, htest⟩ :=
    GuardedRun.exists_of_replay (fun w l h => respects_of_byWorker (g := chainDag) h) hreplay
  have hscheduled : w.sched.core.state 2 = .scheduled := of_decide_eq_true htest
  have hstart : GuardedRun (operate .increasing) (Respects chainDag) (init (.bare none))
      [.call (.submitDag chainDag 0)]
      ((init (.bare none)).withSched ((Scheduler.bare none).submitDag .increasing 0 chainDag).1) :=
    .single ⟨⟨t, built⟩, Or.inl rfl⟩ rfl
  have hdepends : chainDag.DependsOn 2 1 :=
    (DAG.dependsOn_link (by decide)).mpr (Or.inr ⟨rfl, rfl⟩)
  exact ⟨w, hscheduled, dependencies_completed built (fun _ _ => rfl) (hstart.append run) hdepends
    (Or.inr (Or.inl (by rw [hscheduled]; decide)))⟩

end World

end JobOrchestrator
