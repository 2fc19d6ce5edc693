import JobOrchestrator.Scheduler.Preservation

/-!
# What drives an execution

An execution ends when `_check_dag_completion` finds `running_jobs` empty,
and it looks only when a job is reported. So a RUNNING execution needs a
job in `running_jobs` that somebody will still report. `Driven` says that
it has one, over an arbitrary notion of a job that is alive, and that the
reports of its jobs come to it; a report keeps it, since the jobs it
releases are in the queue and the others are as they were.

What `submit` keeps of the scheduler below the executor is `Grown`, and
what it makes of a job that it accepts is `Enqueued`.
-/

namespace JobOrchestrator

namespace SchedulerCore

/-- **What submitting keeps**: the stored jobs stay stored and in their states, and
what is queued stays queued. -/
structure Grown (c c' : SchedulerCore) : Prop where
  store : c.store ⊆ c'.store
  states : ∀ k ∈ c.store, c'.state k = c.state k
  queue : ∀ k, c.queue.contains k = true → c'.queue.contains k = true

/-- A job that was accepted: stored, SCHEDULED and in the queue. -/
structure Enqueued (c : SchedulerCore) (k : UUID) : Prop where
  stored : k ∈ c.store
  state : c.state k = .scheduled
  queued : c.queue.contains k = true

/-- The queue has room, both as `submit` checks it and as the push does. -/
def HasRoom (c : SchedulerCore) : Prop := c.atCapacity = false ∧ c.queue.full = false

/-- The job is one that `submit` accepts where there is room: unknown, and in a state
from which it can be SCHEDULED. -/
def Acceptable (c : SchedulerCore) (k : UUID) : Prop :=
  k ∉ c.store ∧ canTransition (c.state k) .scheduled = true

variable {c c' : SchedulerCore} {job k : UUID}

namespace Grown

theorem refl (c : SchedulerCore) : Grown c c :=
  ⟨Finset.Subset.refl _, fun _ _ => rfl, fun _ hk => hk⟩

theorem trans {c'' : SchedulerCore} (h : Grown c c') (h' : Grown c' c'') : Grown c c'' where
  store := h.store.trans h'.store
  states k hk := (h'.states k (h.store hk)).trans (h.states k hk)
  queue k hk := h'.queue k (h.queue k hk)

/-- **`submit`** does not touch the stored jobs. It writes to the job that it is called with, if
that is new. -/
theorem submit (c : SchedulerCore) (job : UUID) : Grown c (c.submit job).1 := by
  refine submit_elim (fun r hcases => ?_)
  cases hcases with
  | refused => exact refl c
  | stranded => exact ⟨Finset.subset_insert _ _, fun _ _ => rfl, fun _ hk => hk⟩
  | undone fresh _ _ _ c' states store queue =>
    refine ⟨Finset.subset_of_eq store.symm, fun k hk => ?_, fun k hk => ?_⟩
    · show c'.state k = _
      rw [states, if_neg (fun heq : k = job => fresh (heq ▸ hk))]
    · show c'.queue.contains k = true
      rw [queue]
      exact hk
  | accepted fresh _ _ _ c' states store queue =>
    obtain ⟨j, -, hqueue⟩ := queue
    refine ⟨?_, fun k hk => ?_, fun k hk => ?_⟩
    · show c.store ⊆ c'.store
      rw [store]
      exact Finset.subset_insert _ _
    · show c'.state k = _
      rw [states, if_neg (fun heq : k = job => fresh (heq ▸ hk))]
    · show c'.queue.contains k = true
      rw [hqueue, ThreadSafePriorityQueue.contains_insert]
      exact Or.inr hk

/-- **So starting a DAG and reporting to the executor do not either.** -/
theorem keeps (c : SchedulerCore) (now : Time) : (host now).Keeps (Grown c) where
  submit _ k c' h := h.trans (submit c' k)
  onDagComplete _ _ _ h := ⟨h.store, h.states, h.queue⟩
  onDagFailed _ _ _ h := ⟨h.store, h.states, h.queue⟩

theorem enqueued (h : Grown c c') (hk : c.Enqueued k) : c'.Enqueued k :=
  ⟨h.store hk.stored, (h.states k hk.stored).trans hk.state, h.queue k hk.queued⟩

end Grown

/-- **What `submit` accepts is enqueued.** An answer that is no error means that the push has
succeeded. -/
theorem enqueued_submit {text : String} (h : (c.submit job).2 = .ok text) :
    (c.submit job).1.Enqueued job := by
  revert h
  refine submit_elim (fun r hcases => ?_)
  intro h
  cases hcases with
  | refused | stranded | undone => cases h
  | accepted _ _ _ _ c' states store queue =>
    obtain ⟨j, hid, hqueue⟩ := queue
    refine ⟨?_, (states job).trans (if_pos rfl), ?_⟩
    · show job ∈ c'.store
      rw [store]
      exact Finset.mem_insert_self _ _
    · show c'.queue.contains job = true
      rw [hqueue, ThreadSafePriorityQueue.contains_insert]
      exact Or.inl hid.symm

/-- **A job that `submit` rejects** takes no room, and leaves the others acceptable. -/
theorem submit_rejected {error : OrchestratorError} (h : (c.submit job).2 = .error error)
    (room : c.HasRoom) : (c.submit job).1.HasRoom
      ∧ ∀ k, c.Acceptable k → k ≠ job ∧ (c.submit job).1.Acceptable k := by
  revert h
  refine submit_elim (fun r hcases => ?_)
  intro h
  cases hcases with
  | refused reason =>
    refine ⟨room, fun k hk => ⟨?_, hk⟩⟩
    rintro rfl
    rcases reason with hstored | hfull
    · exact hk.1 hstored
    · exact absurd (room.1.symm.trans hfull) (by decide)
  | stranded _ _ state =>
    refine ⟨room, fun k hk => ?_⟩
    have hne : k ≠ job := by
      rintro rfl
      exact absurd (state.symm.trans hk.2) (by decide)
    exact ⟨hne, fun hmem => (Finset.mem_insert.mp hmem).elim hne hk.1, hk.2⟩
  | undone _ _ _ full => exact absurd (room.2.symm.trans full) (by decide)
  | accepted => cases h

end SchedulerCore

/-! ## Queueing jobs for an execution -/

namespace DAGExecution

open SchedulerCore

variable {e : DAGExecution} {c : SchedulerCore} {now : Time}

/-- **`_queue_job`** adds to the running jobs only what was accepted. -/
theorem enqueued_queueJob (now : Time) (j : UUID) (e : DAGExecution) (c : SchedulerCore)
    {k : UUID} (hk : k ∈ (e.queueJob (host now) j c).1.runningJobs) :
    k ∈ e.runningJobs ∨ k = j ∧ (e.queueJob (host now) j c).2.Enqueued j := by
  rcases queueJob_cases (host now) j e c with ⟨text, hok, heq⟩ | ⟨error, -, heq⟩
  · rw [heq] at hk ⊢
    rcases Finset.mem_insert.mp hk with rfl | hk
    · exact Or.inr ⟨rfl, enqueued_submit hok⟩
    · exact Or.inl hk
  · rw [heq] at hk
    exact Or.inl hk

/-- **The jobs a loop releases** were unfinished, and are enqueued after it. -/
theorem enqueued_queueReady (hg : e.dag.WellFormed) (now : Time) (ks : List UUID)
    (c : SchedulerCore) {k : UUID}
    (hk : k ∈ (e.queueReady (host now) ks c).2.1.runningJobs) :
    k ∈ e.runningJobs
      ∨ k ∈ e.unfinished ∧ (e.queueReady (host now) ks c).2.2.Enqueued k := by
  let released : DAGExecution → SchedulerCore → Prop := fun e' c' => Queued e e'
    ∧ ∀ k ∈ e'.runningJobs, k ∈ e.runningJobs ∨ k ∈ e.unfinished ∧ c'.Enqueued k
  have hstep : ∀ j e' c', released e' c' → e'.isJobReady j = true →
      released (e'.queueJob (host now) j c').1 (e'.queueJob (host now) j c').2 := by
    intro j e' c' h hready
    refine ⟨h.1.trans (queued_queueJob _ j e' c'), fun k hk => ?_⟩
    have hgrown := (Grown.keeps c' now).queueJob j e' (Grown.refl c')
    rcases enqueued_queueJob now j e' c' hk with hold | ⟨rfl, hnew⟩
    · exact (h.2 k hold).imp_right (fun hk => ⟨hk.1, hgrown.enqueued hk.2⟩)
    · obtain ⟨n, hn, -, hcomp, hfail, -, -⟩ := isJobReady_iff.mp (h.1.isJobReady hready)
      exact Or.inr ⟨mem_unfinished.mpr ⟨(DAG.mem_jobs_iff hg).mpr ⟨n, hn⟩, hcomp, hfail⟩, hnew⟩
  have hstart : released e c := ⟨.refl e, fun _ hk => Or.inl hk⟩
  exact (queueReady_invariant hstep ks hstart).2 k hk

/-- The same of the loop over the roots. -/
theorem enqueued_queueAll (now : Time) (ks : List UUID) (e : DAGExecution) (c : SchedulerCore)
    {k : UUID} (hk : k ∈ (e.queueAll (host now) ks c).1.runningJobs) :
    k ∈ e.runningJobs ∨ k ∈ ks ∧ (e.queueAll (host now) ks c).2.Enqueued k := by
  induction ks generalizing e c with
  | nil => exact Or.inl hk
  | cons j ks ih =>
    rw [queueAll_cons] at hk ⊢
    rcases ih _ _ hk with hfirst | ⟨hmem, hlater⟩
    · rcases enqueued_queueJob now j e c hfirst with hold | ⟨rfl, hnew⟩
      · exact Or.inl hold
      · have hgrown := (Grown.keeps (e.queueJob (host now) k c).2 now).queueAll ks
          (e.queueJob (host now) k c).1 (Grown.refl _)
        exact Or.inr ⟨List.mem_cons_self, hgrown.enqueued hnew⟩
    · exact Or.inr ⟨List.mem_cons_of_mem j hmem, hlater⟩

/-- **A DAG with an acceptable root starts to run**, where there is room. -/
theorem nonempty_queueAll {k : UUID} {ks : List UUID} (hk : k ∈ ks) (e : DAGExecution)
    (room : c.HasRoom) (acceptable : c.Acceptable k) :
    (e.queueAll (host now) ks c).1.runningJobs.Nonempty := by
  induction ks generalizing e c with
  | nil => exact absurd hk List.not_mem_nil
  | cons j ks ih =>
    rw [queueAll_cons]
    rcases queueJob_cases (host now) j e c with ⟨text, -, heq⟩ | ⟨error, herror, heq⟩
    · have hlater := queued_queueAll (host now) ks (e.queueJob (host now) j c).1
        (e.queueJob (host now) j c).2
      refine Finset.Nonempty.mono hlater.runningJobs ?_
      rw [heq]
      exact Finset.insert_nonempty _ _
    · -- a rejected job leaves the room to the others
      obtain ⟨hroom, hothers⟩ := submit_rejected herror room
      obtain ⟨hne, hacceptable⟩ := hothers k acceptable
      rw [heq]
      exact ih ((List.mem_cons.mp hk).resolve_left hne) _ hroom hacceptable

/-! ## Executions that go on -/

section Events

variable {σ : Type*} {order : IterationOrder UUID} {host : Host σ}

theorem status_failDag (now : Time) (error : String) (e : DAGExecution) (s : σ) :
    (e.failDag host now error s).1.status ≠ .running := by
  unfold failDag
  split
  · rename_i hended
    intro hrun
    rw [hrun] at hended
    exact hended.elim (fun h => by cases h) (fun h => by cases h)
  · exact fun hrun => by cases hrun

/-- An execution that is concluded runs no longer, so nothing has to drive it. -/
theorem status_conclude (now : Time) (e : DAGExecution) (s : σ) :
    (e.conclude host now s).1.status ≠ .running := by
  unfold conclude
  split
  · exact status_failDag now _ e s
  · exact fun hrun => by cases hrun

/-- A completion check after which the execution is RUNNING has waited. -/
theorem checkDagCompletion_of_running (none : e.NoneReady) {s : σ}
    (h : (e.checkDagCompletion host now s).1.status = .running) :
    e.runningJobs.Nonempty ∧ e.checkDagCompletion host now s = (e, s) := by
  rw [checkDagCompletion_of_noneReady none] at h ⊢
  by_cases hrun : e.runningJobs.Nonempty
  · exact ⟨hrun, if_pos hrun⟩
  · rw [if_neg hrun] at h
    exact absurd h (status_conclude now e s)

/-- **After a completion** a RUNNING execution has released the dependents, and some
job runs. -/
theorem onJobComplete_of_running (hg : e.dag.WellFormed) (none : e.NoneReady) {j : UUID} {s : σ}
    (h : (e.onJobComplete order host now j s).2.1.status = .running) :
    e.status = .running
      ∧ (e.onJobComplete order host now j s).2.1.runningJobs.Nonempty
      ∧ (e.onJobComplete order host now j s).2
        = ((e.markCompleted j).queueReady host ((e.markCompleted j).dependentsOf order j) s).2 := by
  obtain ⟨hrun, heq⟩ := checkDagCompletion_of_running
    (noneReady_release order host hg none j s) h
  have hsame : (e.onJobComplete order host now j s).2
      = ((e.markCompleted j).queueReady host ((e.markCompleted j).dependentsOf order j) s).2 := heq
  rw [hsame] at h ⊢
  have hqueued := queued_queueReady host ((e.markCompleted j).dependentsOf order j)
    (e.markCompleted j) s
  exact ⟨hqueued.status.symm.trans h, hrun, rfl⟩

/-- **After a failure** a RUNNING execution has nothing released, and some job runs. -/
theorem onJobFailed_of_running (none : e.NoneReady) {j : UUID} {error : String} {s : σ}
    (h : (e.onJobFailed host now j error s).1.status = .running) :
    e.status = .running ∧ (e.markFailed j).runningJobs.Nonempty
      ∧ e.onJobFailed host now j error s = (e.markFailed j, s) := by
  unfold onJobFailed at h ⊢
  simp only at h ⊢
  split at h
  · exact absurd h (status_failDag now _ _ s)
  · rename_i hslow
    obtain ⟨hrun, heq⟩ := checkDagCompletion_of_running (noneReady_markFailed none j) h
    rw [if_neg hslow, heq]
    rw [heq] at h
    exact ⟨h, hrun, rfl⟩

/-- A report does not change the graph. Where nothing was ready before, only the dependents of
this job can be. -/
theorem dag_onJobComplete (hg : e.dag.WellFormed) (none : e.NoneReady) (j : UUID) (s : σ) :
    (e.onJobComplete order host now j s).2.1.dag = e.dag :=
  (sameProgress_checkDagCompletion (noneReady_release order host hg none j s) _).dag.trans
    (queued_queueReady host ((e.markCompleted j).dependentsOf order j) (e.markCompleted j) s).dag

theorem dag_onJobFailed (none : e.NoneReady) (j : UUID) (error : String) (s : σ) :
    (e.onJobFailed host now j error s).1.dag = e.dag := by
  unfold onJobFailed
  simp only
  split
  · exact (sameProgress_failDag host now _ (e.markFailed j) s).dag
  · exact (sameProgress_checkDagCompletion (noneReady_markFailed none j) s).dag

end Events

/-- **An execution that its running jobs drive**: there is one, each of them is alive,
and what they and the jobs to come report is reported to it. -/
structure Driven (owner : UUID → Option UUID) (alive : UUID → Prop) (dagId : UUID)
    (e : DAGExecution) : Prop where
  nonempty : e.runningJobs.Nonempty
  unfinished : ∀ k ∈ e.unfinished, owner k = some dagId
  running : ∀ k ∈ e.runningJobs, owner k = some dagId ∧ alive k

namespace Driven

variable {owner owner' : UUID → Option UUID} {alive alive' : UUID → Prop} {dagId j : UUID}
  {order : IterationOrder UUID}

/-- The jobs may change as long as those of the execution stay its own and alive. -/
theorem mono (h : e.Driven owner alive dagId)
    (owned : ∀ k, k ∈ e.unfinished ∨ k ∈ e.runningJobs → owner' k = owner k)
    (lives : ∀ k ∈ e.runningJobs, owner k = some dagId → alive k → alive' k) :
    e.Driven owner' alive' dagId where
  nonempty := h.nonempty
  unfinished k hk := (owned k (Or.inl hk)).trans (h.unfinished k hk)
  running k hk := by
    obtain ⟨howner, halive⟩ := h.running k hk
    exact ⟨(owned k (Or.inr hk)).trans howner, lives k hk howner halive⟩

/-- **The start of a DAG**: the roots that are accepted drive the execution. -/
theorem start {g : DAG} (hg : g.WellFormed) (room : c.HasRoom)
    (root : ∃ k ∈ g.getRootNodes, c.Acceptable k) (owned : ∀ k ∈ g.jobs, owner k = some dagId)
    (accepted : ∀ k, ((started now g).queueAll (host now) g.getRootNodes c).2.Enqueued k →
      alive k) :
    ((started now g).queueAll (host now) g.getRootNodes c).1.Driven owner alive dagId := by
  obtain ⟨k, hroot, hacceptable⟩ := root
  refine ⟨nonempty_queueAll hroot _ room hacceptable, fun k hk => ?_, fun k hk => ?_⟩
  · have hjob := (mem_unfinished.mp hk).1
    rw [(queued_queueAll (host now) g.getRootNodes (started now g) c).dag] at hjob
    exact owned k hjob
  · rcases enqueued_queueAll now _ _ _ hk with hnone | ⟨hmem, hnew⟩
    · exact absurd hnone (Finset.notMem_empty k)
    · obtain ⟨n, hn, -⟩ := (DAG.mem_getRootNodes hg).mp hmem
      exact ⟨owned k ((DAG.mem_jobs_iff hg).mpr ⟨n, hn⟩), accepted k hnew⟩

/-- **A completion**: the others drive the execution on, or the jobs it releases. -/
theorem onJobComplete (h : e.status = .running → e.Driven owner alive dagId)
    (hg : e.dag.WellFormed) (none : e.NoneReady)
    (status : (e.onJobComplete order (host now) now j c).2.1.status = .running)
    (lives : ∀ k ≠ j, alive k → alive' k)
    (released : ∀ k, (e.onJobComplete order (host now) now j c).2.2.Enqueued k → alive' k) :
    (e.onJobComplete order (host now) now j c).2.1.Driven owner alive' dagId := by
  obtain ⟨hstatus, hnonempty, heq⟩ := onJobComplete_of_running hg none status
  have hdriven := h hstatus
  have hqueued := queued_queueReady (host now) ((e.markCompleted j).dependentsOf order j)
    (e.markCompleted j) c
  have hunfinished : ∀ k ∈ (e.markCompleted j).unfinished, owner k = some dagId := by
    intro k hk
    obtain ⟨hjob, hcomp, hfail⟩ := mem_unfinished.mp hk
    exact hdriven.unfinished k
      (mem_unfinished.mpr ⟨hjob, fun hk => hcomp (Finset.mem_insert_of_mem hk), hfail⟩)
  refine ⟨hnonempty, fun k hk => ?_, fun k hk => ?_⟩
  · rw [heq] at hk
    obtain ⟨hjob, hcomp, hfail⟩ := mem_unfinished.mp hk
    rw [hqueued.dag] at hjob
    rw [hqueued.completedJobs] at hcomp
    exact hunfinished k
      (mem_unfinished.mpr ⟨hjob, hcomp, fun hk => hfail (hqueued.failedJobs hk)⟩)
  · rw [heq] at hk released
    rcases enqueued_queueReady (e := e.markCompleted j) hg now _ c hk with
      hold | ⟨hmem, hnew⟩
    · obtain ⟨hne, hrun⟩ := Finset.mem_erase.mp hold
      obtain ⟨howner, halive⟩ := hdriven.running k hrun
      exact ⟨howner, lives k hne halive⟩
    · exact ⟨hunfinished k hmem, released k hnew⟩

/-- **A failure**: the others drive the execution on. If it still runs then a job of it does, and
that one will be reported in its turn. -/
theorem onJobFailed {error : String} (h : e.status = .running → e.Driven owner alive dagId)
    (none : e.NoneReady) (status : (e.onJobFailed (host now) now j error c).1.status = .running)
    (lives : ∀ k ≠ j, alive k → alive' k) :
    (e.onJobFailed (host now) now j error c).1.Driven owner alive' dagId := by
  obtain ⟨hstatus, hnonempty, heq⟩ := onJobFailed_of_running none status
  have hdriven := h hstatus
  rw [heq]
  refine ⟨hnonempty, fun k hk => ?_, fun k hk => ?_⟩
  · obtain ⟨hjob, hcomp, hfail⟩ := mem_unfinished.mp hk
    exact hdriven.unfinished k
      (mem_unfinished.mpr ⟨hjob, hcomp, fun hk => hfail (Finset.mem_insert_of_mem hk)⟩)
  · obtain ⟨hne, hrun⟩ := Finset.mem_erase.mp hk
    obtain ⟨howner, halive⟩ := hdriven.running k hrun
    exact ⟨howner, lives k hne halive⟩

end Driven

end DAGExecution

end JobOrchestrator
