import JobOrchestrator.Scheduler.DAGDriven
import JobOrchestrator.Scheduler.DAGRun
import JobOrchestrator.Scheduler.Dispatch

/-!
# A running DAG can make progress

A job of a RUNNING DAG will be reported if it is in the queue or in a
worker's hands, and not cancelled: `World.Alive`. `World.Advancing` is the
invariant that such jobs drive every RUNNING execution.

Five things break it, and `World.Considerate` rules out just these: a DAG
none of whose roots is accepted, which nobody concludes; `cancel_job`, which
does not tell the executor; the push of a retry, which nobody checks; a
second DAG with a job that is unfinished in the first, since the executor
holds one DAG for each job; and a retry whose delay or date overflows, which
ends `run_job` with the job RUNNING. `running_dag_stuck` has a run for each
of the first four.
-/

namespace JobOrchestrator

namespace Scheduler

/-- **Who hears a report of a job**: nobody, or the one execution that the job belongs to. -/
inductive Heard (s : Scheduler) (job : UUID)
    (hears : DAGExecution → DAGExecution × SchedulerCore) : Scheduler → Prop
  | nobody (unknown : ∀ dagId, s.executor.jobToDag.get? job = some dagId →
      s.executor.activeDags.get? dagId = none) : Heard s job hears s
  | execution (dagId : UUID) (e : DAGExecution)
      (owner : s.executor.jobToDag.get? job = some dagId)
      (active : s.executor.activeDags.get? dagId = some e) :
    Heard s job hears { s with executor := s.executor.put dagId (hears e).1, core := (hears e).2 }

theorem heard_notifyComplete (order : IterationOrder UUID) (now : Time) (job : UUID)
    (s : Scheduler) :
    s.Heard job (fun e => (e.onJobComplete order (SchedulerCore.host now) now job s.core).2)
      (s.notifyComplete order now job) := by
  unfold notifyComplete DAGExecutor.getDagForJob DAGExecutor.onJobComplete
  cases howner : s.executor.jobToDag.get? job with
  | none => exact .nobody (fun _ hd => by cases howner.symm.trans hd)
  | some dagId =>
    simp only
    cases hexec : s.executor.activeDags.get? dagId with
    | none => exact .nobody (fun d hd => by rwa [← Option.some.inj (howner.symm.trans hd)])
    | some e => exact .execution dagId e howner hexec

theorem heard_notifyFailed (now : Time) (job : UUID) (error : String) (s : Scheduler) :
    s.Heard job (fun e => e.onJobFailed (SchedulerCore.host now) now job error s.core)
      (s.notifyFailed now job error) := by
  unfold notifyFailed DAGExecutor.getDagForJob DAGExecutor.onJobFailed
  cases howner : s.executor.jobToDag.get? job with
  | none => exact .nobody (fun _ hd => by cases howner.symm.trans hd)
  | some dagId =>
    simp only
    cases hexec : s.executor.activeDags.get? dagId with
    | none => exact .nobody (fun d hd => by rwa [← Option.some.inj (howner.symm.trans hd)])
    | some e => exact .execution dagId e howner hexec

end Scheduler

/-! ## Jobs that will be reported -/

namespace RunPc

/-- The places from which a run still comes to a report, or to the push of a retry. -/
def unreported : RunPc → Bool
  | countRetry _ _ | callComplete _ | callFailed _ => false
  | _ => true

theorem holds_of_unreported {pc : RunPc} (h : pc.unreported = true) : pc.holds = true := by
  cases pc <;> first | rfl | cases h

/-- **A run of a job that is not cancelled** does not end before the report, unless
a result is handled and the retry overflows. -/
theorem Moves.unreported {pc : RunPc} {st st' : JobState} {next : Option RunPc}
    (h : Moves pc st next st') (inside : st ∈ pc.states) (live : st ≠ .cancelled)
    (here : pc.unreported = true) (goesOn : ∀ r, pc = .handle r → next ≠ none) :
    st' ≠ .cancelled ∧ ∃ pc', next = some pc' ∧ pc'.unreported = true := by
  cases h with
  | inner hpc | outer hpc =>
    cases hpc <;> exact ⟨by decide, _, rfl, rfl⟩
  | outerRefused hpc cannot =>
    -- a transition is refused only where the job is cancelled
    cases hpc <;> simp_all [RunPc.states, canTransition, validTransitions]
  | handled _ hnext => rcases hnext with rfl | rfl | rfl <;> exact ⟨live, _, rfl, rfl⟩
  | overflowed r => exact absurd rfl (goesOn r rfl)
  | completed | failed | retried => cases here
  | _ => exact ⟨live, _, rfl, rfl⟩

end RunPc

namespace World

variable {order : IterationOrder UUID} {w w' : World} {k : UUID}

/-- **The job will be reported, or retried**: it is not cancelled, and it is in the queue
or a worker has it on the way there. -/
def Alive (w : World) (k : UUID) : Prop :=
  w.sched.core.state k ≠ .cancelled
    ∧ (w.sched.core.queue.contains k = true
      ∨ ∃ i task, w.workers i = some task ∧ task.job = k ∧ task.pc.unreported = true)

/-- A job that was accepted is alive: it is in the queue, and will come into the hands of a
worker. -/
theorem alive_of_enqueued (h : w.sched.core.Enqueued k) : w.Alive k := by
  refine ⟨?_, Or.inl h.queued⟩
  rw [h.state]
  decide

/-- The jobs that are alive are stored. -/
theorem Alive.stored (h : w.Alive k) (sound : w.Sound) : k ∈ w.sched.core.store := by
  rcases h.2 with hc | ⟨i, task, htask, rfl, -⟩
  · exact sound.custody.stored k
      (ThreadSafePriorityQueue.onHeap_of_contains sound.custody.coherent hc)
  · exact sound.known i task htask

/-- **A job stays alive** where its state and its place in the queue stay, and the
workers that have it stay on the way. -/
theorem Alive.of_kept (h : w.Alive k) (state : w'.sched.core.state k = w.sched.core.state k)
    (queue : w.sched.core.queue.contains k = true → w'.sched.core.queue.contains k = true)
    (workers : ∀ i task, w.workers i = some task → task.job = k → task.pc.unreported = true →
      ∃ i' task', w'.workers i' = some task' ∧ task'.job = k ∧ task'.pc.unreported = true) :
    w'.Alive k := by
  refine ⟨fun hst => h.1 (state.symm.trans hst), ?_⟩
  rcases h.2 with hc | ⟨i, task, htask, hjob, hpc⟩
  · exact Or.inl (queue hc)
  · exact Or.inr (workers i task htask hjob hpc)

/-- A client's call that only submits leaves it alive. -/
theorem Alive.grown (h : w.Alive k) (sound : w.Sound) {sched : Scheduler}
    (grown : w.sched.core.Grown sched.core) : (w.withSched sched).Alive k :=
  h.of_kept (grown.states k (h.stored sound)) (grown.queue k)
    (fun i task htask hjob hpc => ⟨i, task, htask, hjob, hpc⟩)

/-- A step of a worker with another job leaves it alive. -/
theorem Alive.assign (h : w.Alive k) {worker : ℕ} {task : Task} {sched : Scheduler}
    {next : Option Task} (has : w.workers worker = some task) (other : k ≠ task.job)
    (state : sched.core.state k = w.sched.core.state k)
    (queue : w.sched.core.queue.contains k = true → sched.core.queue.contains k = true) :
    (w.assign worker sched next).Alive k := by
  refine h.of_kept state queue (fun i t ht hjob hpc => ?_)
  have hi : i ≠ worker := by
    rintro rfl
    rw [has, Option.some.injEq] at ht
    exact other (hjob.symm.trans (congrArg Task.job ht.symm))
  exact ⟨i, t, by rwa [workers_assign_of_ne hi], hjob, hpc⟩

/-! ## The condition -/

/-- The job is one of the running jobs of a RUNNING execution. -/
def RunsInDag (w : World) (k : UUID) : Prop :=
  ∃ dagId e, w.sched.executor.activeDags.get? dagId = some e ∧ e.status = .running
    ∧ k ∈ e.runningJobs

/-- **`submit_dag` starts the DAG**: one of its roots is accepted, and no job of it runs in
another RUNNING DAG or is still to be released there. -/
structure Starts (w : World) (g : DAG) : Prop where
  built : ∃ t, g.Built t
  room : w.sched.core.HasRoom
  root : ∃ k ∈ g.getRootNodes, w.sched.core.Acceptable k
  unshared : ∀ dagId e, w.sched.executor.activeDags.get? dagId = some e → dagId ≠ g.id →
    e.status = .running → ∀ k ∈ g.jobs, k ∉ e.unfinished ∧ k ∉ e.runningJobs

/-- **The condition of the theorem.** A DAG that is valid is started, `cancel_job` does
not cancel a running job of a RUNNING DAG, and the retry of such a job finds room and does
not overflow. -/
def Considerate (order : IterationOrder UUID) (w : World) : WorldStep → Prop
  | .submit _ => True
  | .submitDag g _ => (∃ valid, g.validate order = .ok valid) → w.Starts g
  | .cancelJob job _ => job ∈ w.sched.core.store →
    SchedulerCore.cancellable (w.sched.core.state job) = true → ¬ w.RunsInDag job
  | .cancelDag _ _ => False
  | .getNextJob _ _ => True
  | .run worker input => ∀ task, w.workers worker = some task → w.RunsInDag task.job →
    (∀ r, task.pc = .push r → w.sched.core.queue.full = false)
      ∧ ¬ task.Overflows input w.sched

/-- **The invariant.** -/
structure Advancing (w : World) : Prop where
  sound : w.Sound
  graph : ∀ dagId e, w.sched.executor.activeDags.get? dagId = some e →
    e.dag.WellFormed ∧ e.NoneReady
  driven : ∀ dagId e, w.sched.executor.activeDags.get? dagId = some e → e.status = .running →
    e.Driven w.sched.executor.jobToDag.get? w.Alive dagId

namespace Advancing

/-- **Where the executor hears nothing**, its running jobs have to stay alive. -/
theorem unheard (h : w.Advancing) (sound : w'.Sound)
    (executor : w'.sched.executor = w.sched.executor)
    (lives : ∀ k, w.RunsInDag k → w.Alive k → w'.Alive k) : w'.Advancing where
  sound := sound
  graph := by
    rw [executor]
    exact h.graph
  driven dagId e he hstatus := by
    rw [executor] at he ⊢
    exact (h.driven dagId e he hstatus).mono (fun _ _ => rfl)
      (fun k hk _ halive => lives k ⟨dagId, e, he, hstatus, hk⟩ halive)

/-- **`submit`** makes a job alive, or leaves everything as it is; no job that is alive dies of
it. -/
theorem submit (h : w.Advancing) (order : IterationOrder UUID) (job : UUID) :
    (w.withSched (w.sched.submit job).1).Advancing := by
  refine h.unheard (h.sound.step (show w.step order (.submit job) = some _ from rfl)) rfl ?_
  intro k _ halive
  exact halive.grown h.sound (SchedulerCore.Grown.submit w.sched.core job)

/-- **`cancel_job`**, of a job that runs in no RUNNING DAG. -/
theorem cancelJob (h : w.Advancing) {job : UUID} {now : Time}
    (considerate : w.Considerate order (.cancelJob job now)) :
    (w.withSched (w.sched.cancelJob now job).1).Advancing := by
  have hsound := h.sound.step (show w.step order (.cancelJob job now) = some _ from rfl)
  revert hsound
  unfold Scheduler.cancelJob
  refine SchedulerCore.cancelJob_elim (fun r hcases => ?_)
  intro hsound
  cases hcases with
  | unchanged => exact h
  | done stored state c' states _ queue =>
    refine h.unheard hsound rfl ?_
    intro k hruns halive
    have hk : k ≠ job := by
      rintro rfl
      exact considerate stored state hruns
    refine halive.of_kept ((states k).trans (if_neg hk)) (fun hc => ?_)
      (fun i task htask hjob hpc => ⟨i, task, htask, hjob, hpc⟩)
    show c'.queue.contains k = true
    rw [queue, ThreadSafePriorityQueue.contains_remove]
    exact ⟨hc, hk⟩

/-- **A worker asks for a job**: what it gets is on its way. -/
theorem getNextJob (h : w.Advancing) {worker : ℕ} {now : Time}
    (taken : w.step order (.getNextJob worker now) = some w') : w'.Advancing := by
  have hsound := h.sound.step taken
  obtain ⟨hfree, rfl⟩ := step_getNextJob taken
  have hothers : ∀ {sched next} {k}, ∀ i task, w.workers i = some task → task.job = k →
      task.pc.unreported = true → ∃ i' task', (w.assign worker sched next).workers i' = some task'
        ∧ task'.job = k ∧ task'.pc.unreported = true := by
    intro sched next k i task htask hjob hpc
    exact ⟨i, task, workers_assign_of_free hfree htask sched next, hjob, hpc⟩
  revert hsound
  rcases Scheduler.getNextJob_cases now w.sched with hnone | hsome
  · rw [hnone]
    intro hsound
    exact h.unheard hsound rfl (fun k _ halive => halive.of_kept rfl id hothers)
  · rw [hsome]
    intro hsound
    refine h.unheard hsound rfl (fun k _ halive => ?_)
    refine ⟨halive.1, ?_⟩
    rcases halive.2 with hc | ⟨i, task, htask, hjob, hpc⟩
    · by_cases hget : (w.sched.core.queue.dequeue now).1 = some k
      · refine Or.inr ⟨worker, { job := k }, ?_, rfl, rfl⟩
        rw [workers_assign_self, hget]
        rfl
      · exact Or.inl (((h.sound.custody.coherent.dequeue now).2.1 k).mpr ⟨hc, hget⟩)
    · exact Or.inr (hothers i task htask hjob hpc)

/-- **A step on the worker's own job.** In the middle of a run the job stays alive by its worker;
where the run ends early, the condition has ruled it out. -/
theorem own (h : w.Advancing) {worker : ℕ} {input : RunInput} {task : Task} {sched : Scheduler}
    {status : RunStatus} (has : w.workers worker = some task)
    (own : OwnJob task.job w.sched sched)
    (stays : ∀ next, status.task? = some next → next.job = task.job)
    (moves : task.pc.Moves (w.sched.core.state task.job) (status.task?.map Task.pc)
      (sched.core.state task.job))
    (overflows : ∀ r, task.pc = .handle r → status.task? = none → task.Overflows input w.sched)
    (considerate : w.Considerate order (.run worker input)) :
    (w.assign worker sched status.task?).Advancing := by
  refine h.unheard (h.sound.own has own stays moves) own.executor ?_
  intro k hruns halive
  have hqueue : w.sched.core.queue.contains k = true → sched.core.queue.contains k = true := by
    rw [own.queue]
    exact id
  by_cases hk : k = task.job
  · subst hk
    cases hpc : task.pc.unreported with
    | true =>
      -- the run goes on, towards its report
      have hholds := RunPc.holds_of_unreported hpc
      have hfits := (considerate task has hruns).2
      obtain ⟨hst, pc', hnext, hpc'⟩ := moves.unreported
        (h.sound.custody.inside task ⟨worker, has, hholds⟩) halive.1 hpc
        (fun r here ends => hfits (overflows r here (Option.map_eq_none_iff.mp ends)))
      obtain ⟨t, ht, rfl⟩ := Option.map_eq_some_iff.mp hnext
      exact ⟨hst, Or.inr ⟨worker, t, (workers_assign_self w worker sched _).trans ht,
        stays t ht, hpc'⟩⟩
    | false =>
      -- the job is somewhere else: the worker does not hold it, so nothing is changed
      have hplace : w.sched.core.queue.contains task.job = true
          ∨ ∃ i t, i ≠ worker ∧ w.workers i = some t ∧ t.job = task.job
            ∧ t.pc.unreported = true := by
        refine halive.2.imp_right ?_
        rintro ⟨i, t, ht, hjob, htpc⟩
        refine ⟨i, t, ?_, ht, hjob, htpc⟩
        rintro rfl
        rw [has, Option.some.injEq] at ht
        subst ht
        exact absurd (hpc.symm.trans htpc) (by decide)
      have hfree : task.pc.holds = false := by
        rw [Bool.eq_false_iff]
        intro hholds
        rcases hplace with hc | ⟨i, t, hi, ht, hjob, htpc⟩
        · exact h.sound.custody.offHeap task ⟨worker, has, hholds⟩
            (ThreadSafePriorityQueue.onHeap_of_contains h.sound.custody.coherent hc)
        · exact h.sound.apart has hholds ht hi (RunPc.holds_of_unreported htpc) hjob
      obtain ⟨-, hst⟩ := moves.of_not_holds hfree
      refine ⟨fun hcancelled => halive.1 (hst.symm.trans hcancelled), ?_⟩
      refine hplace.imp hqueue ?_
      rintro ⟨i, t, hi, ht, hjob, htpc⟩
      exact ⟨i, t, by rwa [workers_assign_of_ne hi], hjob, htpc⟩
  · exact halive.assign has hk (own.others k hk) hqueue

/-- **The push of a retry**, which finds room where it matters. -/
theorem push (h : w.Advancing) {worker : ℕ} {input : RunInput} {task : Task} {r : JobResult}
    (has : w.workers worker = some task) (here : task.pc = .push r)
    (considerate : w.Considerate order (.run worker input)) :
    (w.assign worker (w.sched.pushRetry task.job).2 (some { task with
      pc := .countRetry (w.sched.pushRetry task.job).1 r })).Advancing := by
  have hpushed := repushed task.job w.sched
  refine h.unheard (h.sound.push has here) hpushed.executor ?_
  intro k hruns halive
  by_cases hk : k = task.job
  · -- the worker gives the job up, so the push has to find room
    subst hk
    refine ⟨fun hst => halive.1 ((hpushed.states _).symm.trans hst), Or.inl ?_⟩
    show (w.sched.pushRetry task.job).2.core.queue.contains task.job = true
    rcases hpushed.queue with ⟨-, -, j, hid, hqueue⟩ | ⟨hfull, -⟩
    · rw [hqueue, ThreadSafePriorityQueue.contains_insert]
      exact Or.inl hid.symm
    · exact absurd (((considerate task has hruns).1 r here).symm.trans hfull) (by decide)
  · refine halive.assign has hk (hpushed.states k) (fun hc => ?_)
    rcases hpushed.queue with ⟨-, -, j, -, hqueue⟩ | ⟨-, -, hqueue⟩
    · rw [hqueue, ThreadSafePriorityQueue.contains_insert]
      exact Or.inr hc
    · rwa [hqueue]

/-- **A report to the executor.** It is the moment at which the job dies and the executor goes on
to the next ones, or ends. -/
theorem report (h : w.Advancing) {worker : ℕ} {task : Task} {sched : Scheduler}
    {next : Option Task} {hears : DAGExecution → DAGExecution × SchedulerCore}
    (has : w.workers worker = some task) (heard : w.sched.Heard task.job hears sched)
    (sound : (w.assign worker sched next).Sound)
    (grown : ∀ e, w.sched.core.Grown (hears e).2)
    (graph : ∀ e : DAGExecution, e.dag.WellFormed → e.NoneReady →
      (hears e).1.dag = e.dag ∧ (hears e).1.NoneReady)
    (driven : ∀ dagId e owner (alive alive' : UUID → Prop),
      (e.status = .running → e.Driven owner alive dagId) → e.dag.WellFormed → e.NoneReady →
      (hears e).1.status = .running → (∀ k ≠ task.job, alive k → alive' k) →
      (∀ k, (hears e).2.Enqueued k → alive' k) → (hears e).1.Driven owner alive' dagId) :
    (w.assign worker sched next).Advancing := by
  have hlives : w.sched.core.Grown sched.core → ∀ k ≠ task.job, w.Alive k →
      (w.assign worker sched next).Alive k := by
    intro hgrown k hk halive
    exact halive.assign has hk (hgrown.states k (halive.stored h.sound)) (hgrown.queue k)
  cases heard with
  | nobody unknown =>
    -- a job of a RUNNING execution has an owner, so the report is about another job
    refine h.unheard sound rfl ?_
    rintro k ⟨dagId, e, he, hstatus, hk⟩ halive
    refine hlives (.refl _) k ?_ halive
    rintro rfl
    cases (unknown dagId ((h.driven dagId e he hstatus).running _ hk).1).symm.trans he
  | execution dagId e howner he =>
    obtain ⟨hg, hnone⟩ := h.graph dagId e he
    obtain ⟨hdag, hnone'⟩ := graph e hg hnone
    refine ⟨sound, fun d e' he' => ?_, fun d e' he' hstatus => ?_⟩
    · rcases OrderedDict.get?_set_eq_some he' with ⟨rfl, rfl⟩ | ⟨-, hold⟩
      · exact ⟨by rwa [hdag], hnone'⟩
      · exact h.graph d e' hold
    · rcases OrderedDict.get?_set_eq_some he' with ⟨rfl, rfl⟩ | ⟨hd, hold⟩
      · exact driven d e _ w.Alive _ (h.driven d e he) hg hnone hstatus (hlives (grown e))
          (fun k hk => alive_of_enqueued hk)
      · refine (h.driven d e' hold hstatus).mono (fun _ _ => rfl) (fun k _ hk halive => ?_)
        refine hlives (grown e) k ?_ halive
        rintro rfl
        exact hd (Option.some.inj (hk.symm.trans howner))

/-- **A completion is reported.** The graph it belongs to is driven on by what becomes ready, or
concluded. -/
theorem notifyComplete (h : w.Advancing) (order : IterationOrder UUID) {worker : ℕ} {task : Task}
    {next : Option Task} (now : Time) (has : w.workers worker = some task)
    (sound : (w.assign worker (w.sched.notifyComplete order now task.job) next).Sound) :
    (w.assign worker (w.sched.notifyComplete order now task.job) next).Advancing := by
  refine h.report has (Scheduler.heard_notifyComplete order now task.job w.sched) sound
    (fun e => ?_) (fun e hg hnone => ?_) ?_
  · exact (SchedulerCore.Grown.keeps w.sched.core now).executionOnJobComplete order now task.job e
      (.refl _)
  · exact ⟨DAGExecution.dag_onJobComplete hg hnone task.job _,
      DAGExecution.noneReady_onJobComplete hg hnone task.job _⟩
  · intro dagId e owner alive alive' hdriven hg hnone hstatus hlives hreleased
    exact .onJobComplete hdriven hg hnone hstatus hlives hreleased

/-- **A failure is reported.** Under `fail_fast` the graph ends with it; otherwise what depends
on it is not waited for. -/
theorem notifyFailed (h : w.Advancing) {worker : ℕ} {task : Task} {next : Option Task}
    (now : Time) (error : String) (has : w.workers worker = some task)
    (sound : (w.assign worker (w.sched.notifyFailed now task.job error) next).Sound) :
    (w.assign worker (w.sched.notifyFailed now task.job error) next).Advancing := by
  refine h.report has (Scheduler.heard_notifyFailed now task.job error w.sched) sound
    (fun e => ?_) (fun e hg hnone => ?_) ?_
  · exact (SchedulerCore.Grown.keeps w.sched.core now).executionOnJobFailed now task.job error e
      (.refl _)
  · exact ⟨DAGExecution.dag_onJobFailed hnone task.job error _,
      DAGExecution.noneReady_onJobFailed hnone task.job error _⟩
  · intro dagId e owner alive alive' hdriven _ hnone hstatus hlives _
    exact .onJobFailed hdriven hnone hstatus hlives

/-- **`submit_dag`**: the new execution is driven by the roots that were accepted. -/
theorem submitDag (h : w.Advancing) {g : DAG} {now : Time}
    (considerate : w.Considerate order (.submitDag g now)) :
    (w.withSched (w.sched.submitDag order now g).1).Advancing := by
  have hsound := h.sound.step (show w.step order (.submitDag g now) = some _ from rfl)
  revert hsound
  unfold Scheduler.submitDag
  cases hvalid : g.validate order with
  | error error => exact fun _ => h
  | ok valid =>
    obtain ⟨⟨t, built⟩, room, root, unshared⟩ := considerate ⟨valid, hvalid⟩
    have hg : (Scheduler.scheduledDag now g).WellFormed :=
      ⟨built.wellFormed.jobId, built.wellFormed.jobs, built.wellFormed.mirrored⟩
    have hqueued := DAGExecution.queued_queueAll (SchedulerCore.host now)
      (Scheduler.scheduledDag now g).getRootNodes
      (DAGExecution.started now (Scheduler.scheduledDag now g)) w.sched.core
    have hgrown := (SchedulerCore.Grown.keeps w.sched.core now).queueAll
      (Scheduler.scheduledDag now g).getRootNodes
      (DAGExecution.started now (Scheduler.scheduledDag now g)) (.refl _)
    have howner : ∀ k, (g.jobs.foldl (fun m k => m.set k g.id) w.sched.executor.jobToDag).get? k
        = if k ∈ g.jobs then some g.id else w.sched.executor.jobToDag.get? k :=
      DAGExecutor.get?_foldl_set g.jobs w.sched.executor.jobToDag
    intro hsound
    refine ⟨hsound, fun d e he => ?_, fun d e he hstatus => ?_⟩
    · rcases OrderedDict.get?_set_eq_some he with ⟨-, rfl⟩ | ⟨-, hold⟩
      · exact ⟨by rw [hqueued.dag]; exact hg, DAGExecution.noneReady_started _ now hg _⟩
      · exact h.graph d e hold
    · rcases OrderedDict.get?_set_eq_some he with ⟨rfl, rfl⟩ | ⟨hd, hold⟩
      · exact .start hg room root (fun k hk => (howner k).trans (if_pos hk))
          (fun k hk => alive_of_enqueued ⟨hk.stored, hk.state, hk.queued⟩)
      · -- no job of the other executions is taken over
        refine (h.driven d e hold hstatus).mono (fun k hk => ?_) (fun k _ _ halive => ?_)
        · refine (howner k).trans (if_neg fun hjob => ?_)
          obtain ⟨hunfinished, hrunning⟩ := unshared d e hold hd hstatus k hjob
          exact hk.elim hunfinished hrunning
        · exact halive.grown h.sound ⟨hgrown.store, hgrown.states, hgrown.queue⟩

/-- **Every step that is considerate keeps it.** The cases are those of the invariant: what is
alive, and what drives each running graph. -/
theorem step (h : w.Advancing) {l : WorldStep} (considerate : w.Considerate order l)
    (taken : w.step order l = some w') : w'.Advancing := by
  cases l with
  | submit job =>
    cases taken
    exact h.submit order job
  | submitDag g now =>
    cases taken
    exact h.submitDag considerate
  | cancelJob job now =>
    cases taken
    exact h.cancelJob considerate
  | cancelDag dagId now => exact considerate.elim
  | getNextJob worker now => exact h.getNextJob taken
  | run worker input =>
    have hsound := h.sound.step taken
    obtain ⟨task, r, has, hstep, rfl⟩ := step_run taken
    cases hstep with
    | own own stays moves overflows => exact h.own has own stays moves overflows considerate
    | notifyComplete r here => exact h.notifyComplete order _ has hsound
    | notifyFailed r here => exact h.notifyFailed _ _ has hsound
    | push r here => exact h.push has here considerate

end Advancing

/-- **No operation is in progress**: a worker with a job has not begun to run it. -/
def Idle (w : World) : Prop := ∀ i task, w.workers i = some task → task.pc = .dequeued

/-- Between two operations a job that is alive is SCHEDULED. -/
theorem Alive.progress (h : w.Alive k) (sound : w.Sound) (idle : w.Idle) :
    w.sched.core.state k = .scheduled ∧ (w.sched.core.queue.contains k = true ∨ w.Held k) := by
  rcases h.2 with hc | ⟨i, task, htask, rfl, hpc⟩
  · exact ⟨(sound.custody.waiting k hc).resolve_right h.1, Or.inl hc⟩
  · have hholds := RunPc.holds_of_unreported hpc
    have hin := sound.custody.inside task ⟨i, htask, hholds⟩
    rw [idle i task htask] at hin
    simp only [RunPc.states, List.mem_cons, List.not_mem_nil, or_false] at hin
    exact ⟨hin.resolve_right h.1, Or.inr ⟨i, task, htask, rfl, hholds⟩⟩

/-- DAG 8, with jobs 1 and 2. -/
def pairDag : DAG := DAG.addNode 2 (DAG.addNode 1 { id := 8 })

end World

end JobOrchestrator
