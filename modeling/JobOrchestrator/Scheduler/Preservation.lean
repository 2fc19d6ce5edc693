import JobOrchestrator.Scheduler.Scheduler

/-!
# What the executor's calls keep

The executor changes the scheduler only through its host: `submit` and two
callbacks that count, and `cancel_job` where a DAG is cancelled. A property
of the host state that the first three keep is therefore kept by every
start of a DAG and every report, whatever the graph and the order of
iteration – `Host.Keeps` – and one that all four keep by every operation of
the scheduler that reaches its job store and its queue only through them –
`SchedulerCore.Stable`.
-/

namespace JobOrchestrator

/-- **A property of the host state that submitting and both callbacks keep.** The executor calls
its host in the middle of its own work, so this is what its invariants need of the host. -/
structure Host.Keeps {σ : Type*} (host : Host σ) (P : σ → Prop) : Prop where
  submit : ∀ e k s, P s → P (host.submit e k s).1
  onDagComplete : ∀ dagId status s, P s → P (host.onDagComplete dagId status s)
  onDagFailed : ∀ dagId error s, P s → P (host.onDagFailed dagId error s)

namespace Host.Keeps

variable {σ : Type*} {host : Host σ} {P : σ → Prop} (h : host.Keeps P)
  (order : IterationOrder UUID) (now : Time)

include h

theorem queueJob (k : UUID) (e : DAGExecution) {s : σ} (hs : P s) :
    P (e.queueJob host k s).2 := by
  have hsubmit := h.submit e k s hs
  rcases DAGExecution.queueJob_cases host k e s with ⟨_, -, heq⟩ | ⟨_, -, heq⟩ <;> rwa [heq]

theorem queueReady (ks : List UUID) (e : DAGExecution) {s : σ} (hs : P s) :
    P (e.queueReady host ks s).2.2 :=
  DAGExecution.queueReady_invariant (I := fun _ s => P s)
    (fun k e _ hs _ => h.queueJob k e hs) ks hs

theorem queueAll (ks : List UUID) (e : DAGExecution) {s : σ} (hs : P s) :
    P (e.queueAll host ks s).2 :=
  DAGExecution.queueAll_invariant (I := fun _ s => P s)
    (fun k e _ hs => h.queueJob k e hs) ks hs

theorem failDag (error : String) (e : DAGExecution) {s : σ} (hs : P s) :
    P (e.failDag host now error s).2 := by
  unfold DAGExecution.failDag
  split
  · exact hs
  · exact h.onDagFailed _ _ _ hs

theorem conclude (e : DAGExecution) {s : σ} (hs : P s) : P (e.conclude host now s).2 := by
  unfold DAGExecution.conclude
  split
  · exact h.failDag now _ e hs
  · exact h.onDagComplete _ _ _ hs

theorem checkDagCompletion (e : DAGExecution) {s : σ} (hs : P s) :
    P (e.checkDagCompletion host now s).2 := by
  rcases DAGExecution.checkDagCompletion_cases host now e s with ⟨ks, heq⟩ | ⟨-, heq⟩
  · rw [heq]
    exact h.queueReady ks e hs
  · rw [heq]
    exact h.conclude now e hs

theorem executionOnJobComplete (jobId : UUID) (e : DAGExecution) {s : σ} (hs : P s) :
    P (e.onJobComplete order host now jobId s).2.2 :=
  h.checkDagCompletion now _ (h.queueReady _ _ hs)

theorem executionOnJobFailed (jobId : UUID) (error : String) (e : DAGExecution) {s : σ}
    (hs : P s) : P (e.onJobFailed host now jobId error s).2 := by
  unfold DAGExecution.onJobFailed
  split
  · exact h.failDag now _ _ hs
  · exact h.checkDagCompletion now _ hs

theorem startDag (g : DAG) (x : DAGExecutor) {s : σ} (hs : P s) :
    P (x.startDag host now g s).2.2 :=
  h.queueAll _ _ hs

theorem onJobComplete (jobId : UUID) (x : DAGExecutor) {s : σ} (hs : P s) :
    P (x.onJobComplete order host now jobId s).2.2 := by
  unfold DAGExecutor.onJobComplete
  split
  · exact hs
  · split
    · exact hs
    · exact h.executionOnJobComplete order now jobId _ hs

theorem onJobFailed (jobId : UUID) (error : String) (x : DAGExecutor) {s : σ} (hs : P s) :
    P (x.onJobFailed host now jobId error s).2 := by
  unfold DAGExecutor.onJobFailed
  split
  · exact hs
  · split
    · exact hs
    · exact h.executionOnJobFailed now jobId error _ hs

end Host.Keeps

/-- **A property of the host state that submitting any other job keeps**, and both
callbacks. -/
structure Host.KeepsBut {σ : Type*} (host : Host σ) (job : UUID) (P : σ → Prop) : Prop where
  submit : ∀ e k s, k ≠ job → P s → P (host.submit e k s).1
  onDagComplete : ∀ dagId status s, P s → P (host.onDagComplete dagId status s)
  onDagFailed : ∀ dagId error s, P s → P (host.onDagFailed dagId error s)

/-- A job that is not submitted again. -/
def DAGExecution.Settled (job : UUID) (e : DAGExecution) : Prop :=
  job ∈ e.completedJobs ∨ job ∈ e.failedJobs

namespace Host.KeepsBut

variable {σ : Type*} {host : Host σ} {job : UUID} {P : σ → Prop} (h : host.KeepsBut job P)
  (now : Time)

include h

/-- The loops queue the same jobs, since they get the same answers. -/
theorem queueReady (ks : List UUID) {e : DAGExecution} {s : σ} (settled : e.Settled job)
    (hs : P s) : (e.queueReady host ks s).2.1.Settled job ∧ P (e.queueReady host ks s).2.2 := by
  refine DAGExecution.queueReady_invariant (I := fun e s => e.Settled job ∧ P s) ?_ ks
    ⟨settled, hs⟩
  rintro k e s ⟨hsettled, hs⟩ hready
  obtain ⟨n, -, -, hcompleted, hfailed, -⟩ := DAGExecution.isJobReady_iff.mp hready
  have hne : k ≠ job := by
    rintro rfl
    exact hsettled.elim hcompleted hfailed
  have hqueued := DAGExecution.queued_queueJob host k e s
  refine ⟨hsettled.imp (fun hk => by rwa [hqueued.completedJobs])
    (fun hk => hqueued.failedJobs hk), ?_⟩
  have hsubmit := h.submit e k s hne hs
  rcases DAGExecution.queueJob_cases host k e s with ⟨_, -, heq⟩ | ⟨_, -, heq⟩ <;> rwa [heq]

theorem failDag (error : String) (e : DAGExecution) {s : σ} (hs : P s) :
    P (e.failDag host now error s).2 := by
  unfold DAGExecution.failDag
  split
  · exact hs
  · exact h.onDagFailed _ _ _ hs

theorem checkDagCompletion {e : DAGExecution} {s : σ} (settled : e.Settled job) (hs : P s) :
    P (e.checkDagCompletion host now s).2 := by
  rcases DAGExecution.checkDagCompletion_cases host now e s with ⟨ks, heq⟩ | ⟨-, heq⟩
  · rw [heq]
    exact (h.queueReady ks settled hs).2
  · rw [heq]
    unfold DAGExecution.conclude
    split
    · exact h.failDag now _ e hs
    · exact h.onDagComplete _ _ _ hs

/-- **The report of a job's completion does not submit the job.** The executor goes by its own
sets and by those answers. -/
theorem onJobComplete (order : IterationOrder UUID) (x : DAGExecutor) {s : σ} (hs : P s) :
    P (x.onJobComplete order host now job s).2.2 := by
  unfold DAGExecutor.onJobComplete
  split
  · exact hs
  · split
    · exact hs
    · rename_i e _
      obtain ⟨hsettled, hqueued⟩ := h.queueReady
        ((e.markCompleted job).dependentsOf order job) (e := e.markCompleted job)
        (Or.inl (Finset.mem_insert_self _ _)) hs
      exact h.checkDagCompletion now hsettled hqueued

/-- **Nor does the report of its failure.** -/
theorem onJobFailed (error : String) (x : DAGExecutor) {s : σ} (hs : P s) :
    P (x.onJobFailed host now job error s).2 := by
  unfold DAGExecutor.onJobFailed
  split
  · exact hs
  · split
    · exact hs
    · rename_i e _
      show P (e.onJobFailed host now job error s).2
      unfold DAGExecution.onJobFailed
      split
      · exact h.failDag now _ _ hs
      · exact h.checkDagCompletion now (Or.inr (Finset.mem_insert_self _ _)) hs

end Host.KeepsBut

/-- **What `cancel_job` of its unfinished jobs keeps, cancelling a DAG keeps.** -/
theorem DAGExecutor.cancelDag_invariant {σ : Type*} {host : Host σ} {P : σ → Prop} (now : Time)
    {dagId : UUID} {x : DAGExecutor}
    (kept : ∀ e, x.activeDags.get? dagId = some e → ∀ k ∈ e.unfinished,
      ∀ s, P s → P (host.cancelJob k s).1)
    {s : σ} (hs : P s) : P (x.cancelDag host now dagId s).2.2 := by
  have hjobs : ∀ (ks : List UUID), (∀ k ∈ ks, ∀ s, P s → P (host.cancelJob k s).1) →
      ∀ {s : σ}, P s → P (ks.foldl (fun s k => (host.cancelJob k s).1) s) := by
    intro ks
    induction ks with
    | nil => exact fun _ _ hs => hs
    | cons k ks ih =>
      intro hkept s hs
      exact ih (fun k' hk' => hkept k' (List.mem_cons_of_mem k hk'))
        (hkept k List.mem_cons_self s hs)
  unfold DAGExecutor.cancelDag
  split
  · exact hs
  · rename_i e hfound
    exact hjobs _ (kept e hfound) hs

/-- **A relation between host states that the calls of an event keep**, with the same
answers. -/
structure Host.Respects {σ : Type*} (host : Host σ) (R : σ → σ → Prop) : Prop where
  submit : ∀ e k s s', R s s' →
    (host.submit e k s').2 = (host.submit e k s).2 ∧ R (host.submit e k s).1 (host.submit e k s').1
  onDagComplete : ∀ dagId status s s', R s s' →
    R (host.onDagComplete dagId status s) (host.onDagComplete dagId status s')
  onDagFailed : ∀ dagId error s s', R s s' →
    R (host.onDagFailed dagId error s) (host.onDagFailed dagId error s')

namespace Host.Respects

variable {σ : Type*} {host : Host σ} {R : σ → σ → Prop} (h : host.Respects R)
  (order : IterationOrder UUID) (now : Time) {s s' : σ}

include h

theorem queueJob (k : UUID) (e : DAGExecution) (hs : R s s') :
    (e.queueJob host k s').1 = (e.queueJob host k s).1
      ∧ R (e.queueJob host k s).2 (e.queueJob host k s').2 := by
  obtain ⟨hanswer, hstate⟩ := h.submit e k s s' hs
  unfold DAGExecution.queueJob
  revert hanswer hstate
  generalize host.submit e k s = x
  generalize host.submit e k s' = x'
  obtain ⟨t, answer⟩ := x
  obtain ⟨t', answer'⟩ := x'
  rintro rfl hstate
  cases answer' with
  | ok text => exact ⟨rfl, hstate⟩
  | error error => exact ⟨rfl, hstate⟩

/-- The loops queue the same jobs. -/
theorem queueReady (ks : List UUID) (e : DAGExecution) (hs : R s s') :
    (e.queueReady host ks s').1 = (e.queueReady host ks s).1
      ∧ (e.queueReady host ks s').2.1 = (e.queueReady host ks s).2.1
      ∧ R (e.queueReady host ks s).2.2 (e.queueReady host ks s').2.2 := by
  induction ks generalizing e s s' with
  | nil => exact ⟨rfl, rfl, hs⟩
  | cons k ks ih =>
    obtain ⟨hexec, hstate⟩ := h.queueJob k e hs
    rw [DAGExecution.queueReady, DAGExecution.queueReady]
    split
    · obtain ⟨hqueued, hrest⟩ := ih (e.queueJob host k s).1 hstate
      simp only [hexec, hqueued]
      exact ⟨trivial, hrest⟩
    · exact ih e hs

theorem failDag (error : String) (e : DAGExecution) (hs : R s s') :
    (e.failDag host now error s').1 = (e.failDag host now error s).1
      ∧ R (e.failDag host now error s).2 (e.failDag host now error s').2 := by
  unfold DAGExecution.failDag
  split
  · exact ⟨rfl, hs⟩
  · exact ⟨rfl, h.onDagFailed _ _ _ _ hs⟩

theorem conclude (e : DAGExecution) (hs : R s s') :
    (e.conclude host now s').1 = (e.conclude host now s).1
      ∧ R (e.conclude host now s).2 (e.conclude host now s').2 := by
  unfold DAGExecution.conclude
  split
  · exact h.failDag now _ e hs
  · exact ⟨rfl, h.onDagComplete _ _ _ _ hs⟩

theorem checkDagCompletion (e : DAGExecution) (hs : R s s') :
    (e.checkDagCompletion host now s').1 = (e.checkDagCompletion host now s).1
      ∧ R (e.checkDagCompletion host now s).2 (e.checkDagCompletion host now s').2 := by
  have hready := h.queueReady e.dag.jobs e hs
  have hend : ∀ r r' : List UUID × DAGExecution × σ,
      r'.1 = r.1 ∧ r'.2.1 = r.2.1 ∧ R r.2.2 r'.2.2 →
      (if r'.1 ≠ [] then r'.2 else r'.2.1.conclude host now r'.2.2).1
          = (if r.1 ≠ [] then r.2 else r.2.1.conclude host now r.2.2).1
        ∧ R (if r.1 ≠ [] then r.2 else r.2.1.conclude host now r.2.2).2
          (if r'.1 ≠ [] then r'.2 else r'.2.1.conclude host now r'.2.2).2 := by
    rintro r r' ⟨hqueued, hexec, hstate⟩
    rw [hqueued]
    split
    · exact ⟨hexec, hstate⟩
    · rw [hexec]
      exact h.conclude now r.2.1 hstate
  unfold DAGExecution.checkDagCompletion
  split
  · exact ⟨rfl, hs⟩
  · simp only
    split
    · exact hend _ _ hready
    · exact hend ([], e, s) ([], e, s') ⟨rfl, rfl, hs⟩

/-- **A completion is heard alike.** -/
theorem onJobComplete (jobId : UUID) (x : DAGExecutor) (hs : R s s') :
    (x.onJobComplete order host now jobId s').2.1 = (x.onJobComplete order host now jobId s).2.1
      ∧ R (x.onJobComplete order host now jobId s).2.2
        (x.onJobComplete order host now jobId s').2.2 := by
  unfold DAGExecutor.onJobComplete
  split
  · exact ⟨rfl, hs⟩
  · split
    · exact ⟨rfl, hs⟩
    · rename_i dagId _ _ e _
      obtain ⟨-, hexec, hstate⟩ := h.queueReady
        ((e.markCompleted jobId).dependentsOf order jobId) (e.markCompleted jobId) hs
      unfold DAGExecution.onJobComplete
      simp only [hexec]
      obtain ⟨hcheck, hend⟩ := h.checkDagCompletion now
        ((e.markCompleted jobId).queueReady host
          ((e.markCompleted jobId).dependentsOf order jobId) s).2.1 hstate
      exact ⟨by rw [hcheck], hend⟩

end Host.Respects

namespace SchedulerCore

/-- **A property of the core that `submit`, `cancel_job` and counting keep.** From it the same
follows of every event that the executor hears of. -/
structure Stable (P : SchedulerCore → Prop) : Prop where
  stats : ∀ c st, P c → P { c with stats := st }
  submit : ∀ c job, P c → P (c.submit job).1
  cancelJob : ∀ c now job, P c → P (c.cancelJob now job).1

variable {P : SchedulerCore → Prop}

/-- The host of the executor keeps it. Submitting is all that the executor asks of the core; the
announcements move counters. -/
theorem Stable.host (h : Stable P) (now : Time) : (host now).Keeps P where
  submit _ k c hc := h.submit c k hc
  onDagComplete _ _ c hc := h.stats c _ hc
  onDagFailed _ _ c hc := h.stats c _ hc

end SchedulerCore

namespace Scheduler

variable {P : SchedulerCore → Prop} (h : SchedulerCore.Stable P) (order : IterationOrder UUID)
  (now : Time)

include h

theorem stable_count (f : SchedulerStats → SchedulerStats) {s : Scheduler} (hs : P s.core) :
    P (s.count f).core :=
  h.stats _ _ hs

theorem stable_submit (job : UUID) {s : Scheduler} (hs : P s.core) : P (s.submit job).1.core :=
  h.submit _ job hs

theorem stable_submitDag (g : DAG) {s : Scheduler} (hs : P s.core) :
    P (s.submitDag order now g).1.core := by
  unfold submitDag
  split
  · exact hs
  · exact stable_count h _ ((h.host now).startDag now _ s.executor hs)

theorem stable_cancelJob (job : UUID) {s : Scheduler} (hs : P s.core) :
    P (s.cancelJob now job).1.core :=
  h.cancelJob _ now job hs

theorem stable_cancelDag (dagId : UUID) {s : Scheduler} (hs : P s.core) :
    P (s.cancelDag now dagId).1.core :=
  DAGExecutor.cancelDag_invariant now (fun _ _ k _ c hc => h.cancelJob c now k hc) hs

theorem stable_notifyComplete (job : UUID) {s : Scheduler} (hs : P s.core) :
    P (s.notifyComplete order now job).core := by
  unfold notifyComplete
  split
  · exact hs
  · exact (h.host now).onJobComplete order now job _ hs

theorem stable_notifyFailed (job : UUID) (error : String) {s : Scheduler} (hs : P s.core) :
    P (s.notifyFailed now job error).core := by
  unfold notifyFailed
  split
  · exact hs
  · exact (h.host now).onJobFailed now job error _ hs

end Scheduler

end JobOrchestrator
