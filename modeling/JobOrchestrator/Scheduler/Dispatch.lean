import JobOrchestrator.Scheduler.Workers

/-!
# No duplicated dispatch

`World.Sound` is custody of the tasks that hold their jobs, together with:
two workers never hold one job. Every step of a client or of a worker keeps
it, whatever the clients do. So a job is never given out twice: an id has
at most one entry that a pop could still return, at most one worker holds
it, and never both.

The queue alone would allow it. Removing a job only marks its id, and a
mark stands for one entry: were an id pushed while an entry of it is on the
heap, the pop would throw away one entry and return the other. What rules
this out is that the store never forgets a job that was accepted, so that
the one way back into the queue is the push of a retry, by the worker that
holds the job.
-/

namespace JobOrchestrator

namespace ThreadSafePriorityQueue

/-- **The entries of an id that a pop could still return.** A mark makes the pop
throw away the first of them, and goes with it. -/
def poppable (jobId : UUID) (q : ThreadSafePriorityQueue) : List QueueEntry :=
  let entries := q.heap.filter (fun e => e.jobId = jobId)
  if jobId ∈ q.removed then entries.tail else entries

theorem mem_poppable {jobId : UUID} {q : ThreadSafePriorityQueue} {e : QueueEntry}
    (h : e ∈ q.poppable jobId) : e ∈ q.heap ∧ e.jobId = jobId := by
  have hmem : e ∈ q.heap.filter (fun e => e.jobId = jobId) := by
    unfold poppable at h
    simp only at h
    split at h
    · exact List.mem_of_mem_tail h
    · exact h
  rw [List.mem_filter, decide_eq_true_eq] at hmem
  exact hmem

/-- In a coherent queue there is at most one. -/
theorem Coherent.length_poppable {q : ThreadSafePriorityQueue} (h : q.Coherent) (jobId : UUID) :
    (q.poppable jobId).length ≤ 1 := by
  have hpairwise : q.heap.Pairwise (fun a b => a.jobId ≠ b.jobId) :=
    List.pairwise_map.mp h.nodup
  have hfilter : (q.heap.filter (fun e => e.jobId = jobId)).length ≤ 1 := by
    have hsub := hpairwise.sublist (List.filter_sublist (p := fun e => e.jobId = jobId))
    cases hes : q.heap.filter (fun e => e.jobId = jobId) with
    | nil => exact Nat.zero_le 1
    | cons a rest =>
      cases rest with
      | nil => exact Nat.le_refl 1
      | cons b rest =>
        have hid : ∀ e ∈ q.heap.filter (fun e => e.jobId = jobId), e.jobId = jobId :=
          fun e he => of_decide_eq_true (List.mem_filter.mp he).2
        rw [hes] at hsub hid
        have hne := (List.pairwise_cons.mp hsub).1 b List.mem_cons_self
        exact absurd ((hid a (by simp)).trans (hid b (by simp)).symm) hne
  unfold poppable
  simp only
  split
  · rw [List.length_tail]
    omega
  · exact hfilter

end ThreadSafePriorityQueue

namespace World

variable {order : IterationOrder UUID}

/-- The tasks of workers that hold their job. -/
def Holding (w : World) (task : Task) : Prop :=
  ∃ worker, w.workers worker = some task ∧ task.pc.holds = true

/-- **The invariant of scheduler and workers.** No two workers hold the same job, nor does one
hold a job that is still in the queue. -/
structure Sound (w : World) : Prop where
  custody : Custody w.Holding w.sched.core
  known : ∀ i task, w.workers i = some task → task.job ∈ w.sched.core.store
  exclusive : ∀ i j ti tj, w.workers i = some ti → w.workers j = some tj →
    ti.pc.holds = true → tj.pc.holds = true → ti.job = tj.job → i = j

/-! ## The steps keep the invariant -/

section Steps

variable {w w' : World}

/-- The store keeps every job a worker has, through whatever a client calls. -/
theorem stable_subset_store (store : Finset UUID) :
    SchedulerCore.Stable (fun c => store ⊆ c.store) where
  stats _ _ h := h
  submit c job h := by
    refine SchedulerCore.submit_elim (fun r hcases => ?_)
    cases hcases with
    | refused => exact h
    | stranded => exact h.trans (Finset.subset_insert job c.store)
    | undone _ _ _ _ c' _ hstore =>
      show store ⊆ c'.store
      rw [hstore]
      exact h
    | accepted _ _ _ _ c' _ hstore =>
      show store ⊆ c'.store
      rw [hstore]
      exact h.trans (Finset.subset_insert job c.store)
  cancelJob c now job h := by
    refine SchedulerCore.cancelJob_elim (fun r hcases => ?_)
    cases hcases with
    | unchanged => exact h
    | done _ _ c' _ hstore =>
      show store ⊆ c'.store
      rw [hstore]
      exact h

/-- **A client's call**, which reaches the core only through what is stable. -/
theorem Sound.client (h : w.Sound) {sched : Scheduler}
    (stable : ∀ {P : SchedulerCore → Prop}, SchedulerCore.Stable P → P w.sched.core →
      P sched.core) : (w.withSched sched).Sound where
  custody := stable (Custody.stable w.Holding) h.custody
  known i task htask :=
    stable (stable_subset_store w.sched.core.store) (Finset.Subset.refl _) (h.known i task htask)
  exclusive := h.exclusive

/-- **A worker with a job**: its steps keep the store, and keep workers apart as long
as the task stays with its job and does not come to hold it again. -/
theorem Sound.assign (h : w.Sound) {worker : ℕ} {task : Task} {sched : Scheduler}
    {next : Option Task} (has : w.workers worker = some task)
    (store : w.sched.core.store ⊆ sched.core.store)
    (stays : ∀ t, next = some t → t.job = task.job ∧ (t.pc.holds = true → task.pc.holds = true))
    (custody : Custody (w.assign worker sched next).Holding sched.core) :
    (w.assign worker sched next).Sound where
  custody := custody
  known i t ht := by
    rcases workers_assign ht with ⟨-, hnext⟩ | ⟨-, hold⟩
    · rw [(stays t hnext).1]
      exact store (h.known worker task has)
    · exact store (h.known i t hold)
  exclusive i j ti tj hi hj holdi holdj heq := by
    rcases workers_assign hi with ⟨rfl, hnexti⟩ | ⟨hnei, holdi'⟩
    · rcases workers_assign hj with ⟨rfl, -⟩ | ⟨-, holdj'⟩
      · rfl
      · obtain ⟨hjob, hholds⟩ := stays ti hnexti
        exact h.exclusive i j task tj has holdj' (hholds holdi) holdj (hjob.symm.trans heq)
    · rcases workers_assign hj with ⟨rfl, hnextj⟩ | ⟨-, holdj'⟩
      · obtain ⟨hjob, hholds⟩ := stays tj hnextj
        exact h.exclusive i j ti task holdi' has holdi (hholds holdj) (heq.trans hjob)
      · exact h.exclusive i j ti tj holdi' holdj' holdi holdj heq

/-- The other tasks that hold a job hold another one. -/
theorem Sound.apart (h : w.Sound) {worker i : ℕ} {task t : Task}
    (has : w.workers worker = some task) (holds : task.pc.holds = true)
    (ht : w.workers i = some t) (hi : i ≠ worker) (holdst : t.pc.holds = true) :
    t.job ≠ task.job :=
  fun heq => hi (h.exclusive i worker t task ht has holdst holds heq)

/-- **A step on the worker's own job.** Its new place and the new state of the job fit as the
automaton says. -/
theorem Sound.own (h : w.Sound) {worker : ℕ} {task : Task} {sched : Scheduler}
    {status : RunStatus} (has : w.workers worker = some task)
    (own : OwnJob task.job w.sched sched)
    (stays : ∀ next, status.task? = some next → next.job = task.job)
    (moves : task.pc.Moves (w.sched.core.state task.job) (status.task?.map Task.pc)
      (sched.core.state task.job)) :
    (w.assign worker sched status.task?).Sound := by
  have hstore := own.store (h.known worker task has)
  cases hholds : task.pc.holds with
  | false =>
    -- the run ends, and nothing that matters has changed
    obtain ⟨hnext, hstate⟩ := moves.of_not_holds hholds
    rw [Option.map_eq_none_iff] at hnext
    rw [hnext]
    have hstates : ∀ k, sched.core.state k = w.sched.core.state k := by
      intro k
      by_cases hk : k = task.job
      · rw [hk, hstate]
      · exact own.others k hk
    refine h.assign has (Finset.subset_of_eq hstore.symm) (fun _ hn => by cases hn) ?_
    refine (h.custody.congr own.queue hstore hstates).mono ?_
    rintro t ⟨i, hi, holdst⟩
    rcases workers_assign hi with ⟨-, hn⟩ | ⟨-, hold⟩
    · cases hn
    · exact ⟨t, ⟨i, hold, holdst⟩, rfl, List.Subset.refl _⟩
  | true =>
    have hin := h.custody.inside task ⟨worker, has, hholds⟩
    refine h.assign has (Finset.subset_of_eq hstore.symm)
      (fun t ht => ⟨stays t ht, fun _ => hholds⟩) ?_
    refine h.custody.own own.queue hstore own.others
      (h.custody.offHeap task ⟨worker, has, hholds⟩) (h.known worker task has) ?_
    rintro t ⟨i, hi, holdst⟩
    rcases workers_assign hi with ⟨-, hn⟩ | ⟨hne, hold⟩
    · refine Or.inr ⟨stays t hn, ?_⟩
      rw [hn] at moves
      exact (moves.states hin).1
    · exact Or.inl ⟨⟨i, hold, holdst⟩, h.apart has hholds hold hne holdst⟩

/-- **A report to the executor**, after which the job is in the same states. -/
theorem Sound.notify (h : w.Sound) {worker : ℕ} {task : Task} {sched : Scheduler} {pc : RunPc}
    (has : w.workers worker = some task) (holds : task.pc.holds = true)
    (states : task.pc.states ⊆ pc.states)
    (stable : ∀ {P : SchedulerCore → Prop}, SchedulerCore.Stable P → P w.sched.core →
      P sched.core) :
    (w.assign worker sched (some { task with pc := pc })).Sound := by
  refine h.assign has (stable (stable_subset_store w.sched.core.store) (Finset.Subset.refl _))
    ?_ ?_
  · rintro t ⟨⟩
    exact ⟨rfl, fun _ => holds⟩
  · refine (stable (Custody.stable w.Holding) h.custody).mono ?_
    rintro t ⟨i, hi, holdst⟩
    rcases workers_assign hi with ⟨-, hn⟩ | ⟨-, hold⟩
    · cases hn
      exact ⟨task, ⟨worker, has, holds⟩, rfl, states⟩
    · exact ⟨t, ⟨i, hold, holdst⟩, rfl, List.Subset.refl _⟩

/-- **The push of a retry**: the worker gives the job back, or goes on holding it. -/
theorem Sound.push (h : w.Sound) {worker : ℕ} {task : Task} {r : JobResult}
    (has : w.workers worker = some task) (here : task.pc = .push r) :
    (w.assign worker (w.sched.pushRetry task.job).2 (some { task with
      pc := .countRetry (w.sched.pushRetry task.job).1 r })).Sound := by
  have hholds : task.pc.holds = true := by rw [here]; rfl
  have hholding : w.Holding task := ⟨worker, has, hholds⟩
  have hpushed := repushed task.job w.sched
  refine h.assign has (Finset.subset_of_eq hpushed.store.symm) ?_ ?_
  · rintro t ⟨⟩
    exact ⟨rfl, fun _ => hholds⟩
  · rcases hpushed.queue with ⟨-, hyes, j, hid, hqueue⟩ | ⟨-, hno, hqueue⟩
    · -- the job is in the queue, and the worker holds it no longer
      have hrest : Custody (fun t => w.Holding t ∧ t.job ≠ task.job) w.sched.core :=
        h.custody.mono (fun t ht => ⟨t, ht.1, rfl, List.Subset.refl _⟩)
      rw [← hid] at hrest
      have hin := h.custody.inside task hholding
      rw [here] at hin
      refine (hrest.insert hqueue ?_ (fun t ht => ht.2) ?_ ?_ (fun k _ => hpushed.states k)
        ?_).mono ?_
      · rw [hid]
        exact h.custody.offHeap task hholding
      · exact Finset.subset_of_eq hpushed.store.symm
      · rw [hpushed.store, hid]
        exact h.known worker task has
      · rw [hpushed.states, hid]
        simpa [RunPc.states] using hin
      · rintro t ⟨i, hi, holdst⟩
        rcases workers_assign hi with ⟨-, hn⟩ | ⟨hne, hold⟩
        · cases hn
          rw [hyes] at holdst
          cases holdst
        · exact ⟨t, ⟨⟨i, hold, holdst⟩, by
            rw [hid]; exact h.apart has hholds hold hne holdst⟩, rfl, List.Subset.refl _⟩
    · -- the queue is full, and the worker holds the job until the run ends
      refine (h.custody.congr hqueue hpushed.store hpushed.states).mono ?_
      rintro t ⟨i, hi, holdst⟩
      rcases workers_assign hi with ⟨-, hn⟩ | ⟨-, hold⟩
      · cases hn
        refine ⟨task, hholding, rfl, ?_⟩
        rw [here]
        exact List.Subset.refl _
      · exact ⟨t, ⟨i, hold, holdst⟩, rfl, List.Subset.refl _⟩

/-- **A worker asks for a job.** The job leaves the queue at the moment at which it comes into
the hands. -/
theorem Sound.getNextJob (h : w.Sound) {worker : ℕ} (free : w.workers worker = none)
    (now : Time) :
    (w.assign worker (w.sched.getNextJob now).2
      ((w.sched.getNextJob now).1.map (fun job => { job := job }))).Sound := by
  rcases Scheduler.getNextJob_cases now w.sched with hnone | hsome
  · -- nothing is dequeued
    rw [hnone]
    show (w.assign worker w.sched none).Sound
    have hsame : w.assign worker w.sched none = w := by
      unfold World.assign
      rw [← free, Function.update_eq_self]
    rw [hsame]
    exact h
  · -- the worker holds what it was handed, and the others what they held
    rw [hsome]
    obtain ⟨-, -, hheap, htaken⟩ := h.custody.coherent.dequeue now
    have hhanded : ∀ {i t}, (w.assign worker w.sched ((w.sched.core.queue.dequeue now).1.map
        (fun job => ({ job := job } : Task)))).workers i = some t →
        i = worker ∧ (w.sched.core.queue.dequeue now).1 = some t.job ∧ t.pc = .dequeued
          ∨ i ≠ worker ∧ w.workers i = some t := by
      intro i t ht
      rcases workers_assign ht with ⟨hi, hn⟩ | hold
      · obtain ⟨job, hjob, rfl⟩ := Option.map_eq_some_iff.mp hn
        exact Or.inl ⟨hi, hjob, rfl⟩
      · exact Or.inr hold
    have honHeap : ∀ k, (w.sched.core.queue.dequeue now).1 = some k →
        w.sched.core.queue.OnHeap k :=
      fun k hk => ThreadSafePriorityQueue.onHeap_of_contains h.custody.coherent (htaken k hk).1
    refine ⟨?_, ?_, ?_⟩
    · refine h.custody.dequeue now rfl rfl (fun _ => rfl) ?_
      rintro t ⟨i, hi, holdst⟩
      rcases hhanded hi with ⟨-, hjob, hpc⟩ | ⟨-, hold⟩
      · exact Or.inr ⟨hjob, hpc⟩
      · exact Or.inl ⟨i, hold, holdst⟩
    · intro i t ht
      rcases hhanded ht with ⟨-, hjob, -⟩ | ⟨-, hold⟩
      · exact h.custody.stored _ (honHeap _ hjob)
      · exact h.known i t hold
    · -- a job that was on the heap was held by nobody
      intro i j ti tj hi hj holdi holdj heq
      rcases hhanded hi with ⟨rfl, hjobi, -⟩ | ⟨-, oldi⟩
      · rcases hhanded hj with ⟨rfl, -⟩ | ⟨-, oldj⟩
        · rfl
        · exact absurd (heq ▸ honHeap _ hjobi) (h.custody.offHeap tj ⟨j, oldj, holdj⟩)
      · rcases hhanded hj with ⟨rfl, hjobj, -⟩ | ⟨-, oldj⟩
        · exact absurd (heq ▸ honHeap _ hjobj) (h.custody.offHeap ti ⟨i, oldi, holdi⟩)
        · exact h.exclusive i j ti tj oldi oldj holdi holdj heq

/-- **Every step keeps the invariant.** A retry comes back into the queue from hands that no
longer hold it, a cancelled job leaves it. -/
theorem Sound.step (h : w.Sound) {l : WorldStep} (taken : w.step order l = some w') :
    w'.Sound := by
  cases l with
  | submit job =>
    cases taken
    exact h.client (fun stable hP => Scheduler.stable_submit stable job hP)
  | submitDag g now =>
    cases taken
    exact h.client (fun stable hP => Scheduler.stable_submitDag stable order now g hP)
  | cancelJob job now =>
    cases taken
    exact h.client (fun stable hP => Scheduler.stable_cancelJob stable now job hP)
  | cancelDag dagId now =>
    cases taken
    exact h.client (fun stable hP => Scheduler.stable_cancelDag stable now dagId hP)
  | getNextJob worker now =>
    obtain ⟨hfree, rfl⟩ := step_getNextJob taken
    exact h.getNextJob hfree now
  | run worker input =>
    obtain ⟨task, r, has, hstep, rfl⟩ := step_run taken
    cases hstep with
    | own own stays moves => exact h.own has own stays moves
    | notifyComplete r here =>
      refine h.notify has (by rw [here]; rfl) (by rw [here]; exact List.Subset.refl _) ?_
      exact fun stable hP => Scheduler.stable_notifyComplete stable order _ _ hP
    | notifyFailed r here =>
      refine h.notify has (by rw [here]; rfl) (by rw [here]; exact List.Subset.refl _) ?_
      exact fun stable hP => Scheduler.stable_notifyFailed stable _ _ _ hP
    | push r here => exact h.push has here

end Steps

/-- A new scheduler without workers. Nothing is queued and nothing is held. -/
theorem sound_init (jobs : JobTable) (maxSize maxEntries : Option ℕ)
    (retryHandler : Retry.RetryHandler) (completeCallbacks failedCallbacks : List ℕ) :
    (init (.new jobs maxSize maxEntries retryHandler completeCallbacks
      failedCallbacks)).Sound where
  custody :=
    { coherent := ThreadSafePriorityQueue.coherent_new maxSize
      stored := fun _ hk => absurd hk List.not_mem_nil
      waiting := fun k hk => by
        have honHeap := ThreadSafePriorityQueue.onHeap_of_contains
          (ThreadSafePriorityQueue.coherent_new maxSize) hk
        exact absurd honHeap List.not_mem_nil
      known := by
        rintro task ⟨i, hi, -⟩
        cases hi
      offHeap := by
        rintro task ⟨i, hi, -⟩
        cases hi
      inside := by
        rintro task ⟨i, hi, -⟩
        cases hi }
  known i task h := by cases h
  exclusive i j ti tj h := by cases h

/-- **Every reachable state is sound**, whatever the guard. -/
theorem Sound.run {w w' : World} {ok : World → WorldStep → Prop} {ls : List WorldStep}
    (h : w.Sound) (run : GuardedRun (World.step order) ok w ls w') : w'.Sound :=
  run.invariant h (fun _ _ _ hs _ taken => hs.step taken)

/-- **No job is dispatched twice.** In every reachable state an id has at most one
entry that a pop could still return, at most one worker holds it, and it is
not both. -/
theorem dispatched_once {jobs : JobTable} {maxSize maxEntries : Option ℕ}
    {retryHandler : Retry.RetryHandler} {completeCallbacks failedCallbacks : List ℕ} {w : World}
    {ls : List WorldStep}
    (run : GuardedRun (step order) (fun _ _ => True)
      (init (.new jobs maxSize maxEntries retryHandler completeCallbacks failedCallbacks)) ls w)
    (k : UUID) :
    (w.sched.core.queue.poppable k).length ≤ 1
      ∧ (∀ i j, w.HeldBy k i → w.HeldBy k j → i = j)
      ∧ ¬ (w.sched.core.queue.poppable k ≠ [] ∧ w.Held k) := by
  have hsound := (sound_init jobs maxSize maxEntries retryHandler completeCallbacks
    failedCallbacks).run run
  refine ⟨hsound.custody.coherent.length_poppable k, ?_, ?_⟩
  · rintro i j ⟨ti, hi, rfl, holdi⟩ ⟨tj, hj, heq, holdj⟩
    exact hsound.exclusive i j ti tj hi hj holdi holdj heq.symm
  · rintro ⟨hpop, i, task, htask, rfl, hholds⟩
    obtain ⟨e, he⟩ := List.exists_mem_of_ne_nil _ hpop
    obtain ⟨hmem, hid⟩ := ThreadSafePriorityQueue.mem_poppable he
    exact hsound.custody.offHeap task ⟨i, htask, hholds⟩
      (ThreadSafePriorityQueue.mem_ids.mpr ⟨e, hmem, hid⟩)

/-- Job 1 fails, is pushed back by worker 0, and is given to worker 1. -/
theorem dispatched_once_retried :
    ∃ w : World, (w.workers 1).isSome = true ∧ (w.sched.core.queue.poppable 1).length ≤ 1
      ∧ (∀ i j, w.HeldBy 1 i → w.HeldBy 1 j → i = j)
      ∧ ¬ (w.sched.core.queue.poppable 1 ≠ [] ∧ w.Held 1) := by
  have hreplay : (GuardedRun.replay (step .increasing) (fun _ _ => true) (init (.bare none))
      ([.submit 1, .getNextJob 0 0] ++ WorldStep.runs 0 9 .raising ++ [.getNextJob 1 10])).any
      (fun w => (w.workers 1).isSome) = true := by decide +kernel
  obtain ⟨w, run, htaken⟩ := GuardedRun.exists_of_replay (fun _ _ _ => trivial) hreplay
  exact ⟨w, htaken, dispatched_once run 1⟩

end World

end JobOrchestrator
