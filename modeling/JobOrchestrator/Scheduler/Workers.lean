import JobOrchestrator.Scheduler.Preservation
import JobOrchestrator.Scheduler.RunControl
import JobOrchestrator.Util.GuardedRun

/-!
# Workers and clients

Any number of workers, each with at most one job in its hands, and clients
that submit and cancel, in any interleaving. A worker's step is one step of
`run_job` on the job it was given; the operations that hold the scheduler's
lock are one step each.

The invariant `World.Sound` says where a job can be. It is **in the queue**,
or **held** by one worker, or neither, and the store knows it in each case;
what is queued is SCHEDULED, or CANCELLED when a worker pushed it back too
late, and what is held is in one of the states its worker's program counter
allows. The part of it that speaks of the scheduler alone is `Custody`,
over the set of tasks that hold their job.
-/

namespace JobOrchestrator

/-- **A scheduler and its workers**, each with the job it has in its hands. A worker without a
job is free to ask for one; nothing limits how many there are. -/
structure World where
  sched : Scheduler
  workers : ℕ → Option Task

/-- **A step of a client or of a worker.** -/
inductive WorldStep
  | submit (job : UUID)
  | submitDag (g : DAG) (now : Time)
  | cancelJob (job : UUID) (now : Time)
  | cancelDag (dagId : UUID) (now : Time)
  /-- A worker without a job asks for one. -/
  | getNextJob (worker : ℕ) (now : Time)
  /-- A worker takes one step of `run_job`. -/
  | run (worker : ℕ) (input : RunInput)

namespace WorldStep

end WorldStep

namespace World

variable (order : IterationOrder UUID)

/-- No worker has a job yet. -/
def init (sched : Scheduler) : World := ⟨sched, fun _ => none⟩

/-- A client's call: the workers keep what they have. -/
def withSched (w : World) (sched : Scheduler) : World := { w with sched := sched }

/-- A worker's call: what it has afterwards. -/
def assign (w : World) (worker : ℕ) (sched : Scheduler) (task : Option Task) : World :=
  ⟨sched, Function.update w.workers worker task⟩

/-- **One step.** An operation is one step; a worker without a job may be handed one, and a
worker with one takes a step of its run. -/
def step (w : World) : WorldStep → Option World
  | .submit job => some (w.withSched (w.sched.submit job).1)
  | .submitDag g now => some (w.withSched (w.sched.submitDag order now g).1)
  | .cancelJob job now => some (w.withSched (w.sched.cancelJob now job).1)
  | .cancelDag dagId now => some (w.withSched (w.sched.cancelDag now dagId).1)
  | .getNextJob worker now =>
    match w.workers worker with
    | some _ => none
    | none =>
      let r := w.sched.getNextJob now
      some (w.assign worker r.2 (r.1.map (fun job => { job := job })))
  | .run worker input =>
    match w.workers worker with
    | none => none
    | some task =>
      let r := task.step order input w.sched
      some (w.assign worker r.1 r.2.task?)

/-- The job is in the hands of the worker, which has not pushed it back. -/
def HeldBy (w : World) (job : UUID) (worker : ℕ) : Prop :=
  ∃ task, w.workers worker = some task ∧ task.job = job ∧ task.pc.holds = true

/-- The job is in the hands of some worker. -/
def Held (w : World) (job : UUID) : Prop := ∃ worker, w.HeldBy job worker

variable {order : IterationOrder UUID} {w w' : World}

/-- A worker that asks for a job has none. -/
theorem step_getNextJob {worker : ℕ} {now : Time}
    (taken : w.step order (.getNextJob worker now) = some w') :
    w.workers worker = none ∧ w' = w.assign worker (w.sched.getNextJob now).2
      ((w.sched.getNextJob now).1.map (fun job => { job := job })) := by
  unfold step at taken
  cases hfree : w.workers worker with
  | some task => simp [hfree] at taken
  | none =>
    simp only [hfree, Option.some.injEq] at taken
    exact ⟨rfl, taken.symm⟩

/-- A worker that takes a step has a job. -/
theorem step_run {worker : ℕ} {input : RunInput}
    (taken : w.step order (.run worker input) = some w') :
    ∃ task r, w.workers worker = some task ∧ Task.Stepped order input task w.sched r
      ∧ w' = w.assign worker r.1 r.2.task? := by
  unfold step at taken
  cases has : w.workers worker with
  | none => simp [has] at taken
  | some task =>
    simp only [has, Option.some.injEq] at taken
    exact ⟨task, _, rfl, Task.step_cases order input task w.sched, taken.symm⟩

/-- What the workers have after one of them was assigned a task. -/
theorem workers_assign {worker i : ℕ} {sched : Scheduler} {task : Option Task} {t : Task}
    (h : (w.assign worker sched task).workers i = some t) :
    i = worker ∧ task = some t ∨ i ≠ worker ∧ w.workers i = some t := by
  by_cases hi : i = worker
  · subst hi
    exact Or.inl ⟨rfl, by simpa [assign] using h⟩
  · exact Or.inr ⟨hi, by simpa [assign, hi] using h⟩

/-- The worker has what it was assigned. -/
theorem workers_assign_self (w : World) (worker : ℕ) (sched : Scheduler) (task : Option Task) :
    (w.assign worker sched task).workers worker = task := by
  simp [assign]

/-- The others have what they had. -/
theorem workers_assign_of_ne {worker i : ℕ} (hi : i ≠ worker) (sched : Scheduler)
    (task : Option Task) : (w.assign worker sched task).workers i = w.workers i := by
  simp [assign, hi]

/-- **So many workers have such a task.** It is what the tallies of a run are weighed against,
since what a worker has begun is not counted yet. -/
def Crew (such : Task → Bool) (n : ℕ) (w : World) : Prop :=
  ∃ crew : Finset ℕ, crew.card = n ∧ ∀ i, i ∈ crew ↔ (w.workers i).any such = true

/-- **A worker goes on**: it leaves the crew, or joins it, or does not. -/
theorem Crew.assign {such : Task → Bool} {n n' worker : ℕ} {sched : Scheduler}
    {next : Option Task} (h : w.Crew such n)
    (count : n' + ((w.workers worker).any such).toNat = n + (next.any such).toNat) :
    (w.assign worker sched next).Crew such n' := by
  obtain ⟨crew, hcard, hcrew⟩ := h
  have hothers : ∀ i, i ≠ worker →
      (((w.assign worker sched next).workers i).any such = true ↔ i ∈ crew) := by
    intro i hi
    rw [hcrew, workers_assign_of_ne hi]
  have herase : (crew.erase worker).card + ((w.workers worker).any such).toNat = n := by
    cases hbefore : (w.workers worker).any such with
    | true => rw [← hcard, Bool.toNat_true, Finset.card_erase_add_one ((hcrew worker).mpr hbefore)]
    | false =>
      have hout : worker ∉ crew := fun h => by
        rw [(hcrew worker).mp h] at hbefore
        cases hbefore
      rw [← hcard, Finset.erase_eq_of_notMem hout]
      rfl
  cases hafter : next.any such with
  | true =>
    rw [hafter, Bool.toNat_true] at count
    refine ⟨insert worker (crew.erase worker), ?_, fun i => ?_⟩
    · rw [Finset.card_insert_of_notMem (Finset.notMem_erase worker crew)]
      omega
    · rw [Finset.mem_insert, Finset.mem_erase]
      by_cases hi : i = worker
      · rw [hi, workers_assign_self, hafter]
        exact iff_of_true (Or.inl rfl) rfl
      · rw [hothers i hi, or_iff_right hi]
        exact and_iff_right hi
  | false =>
    rw [hafter, Bool.toNat_false] at count
    refine ⟨crew.erase worker, by omega, fun i => ?_⟩
    rw [Finset.mem_erase]
    by_cases hi : i = worker
    · rw [hi, workers_assign_self, hafter]
      exact iff_of_false (fun h => h.1 rfl) Bool.false_ne_true
    · rw [hothers i hi]
      exact and_iff_right hi

/-- A crew has its workers. So each of them is counted. -/
theorem Crew.toNat_le {such : Task → Bool} {n : ℕ} (h : w.Crew such n) (worker : ℕ) :
    ((w.workers worker).any such).toNat ≤ n := by
  obtain ⟨crew, hcard, hcrew⟩ := h
  cases hat : (w.workers worker).any such with
  | false => exact Nat.zero_le n
  | true => exact hcard ▸ Finset.card_pos.mpr ⟨worker, (hcrew worker).mpr hat⟩

/-- A worker keeps its task where one that has none gets something. -/
theorem workers_assign_of_free {worker i : ℕ} {task : Task} (free : w.workers worker = none)
    (has : w.workers i = some task) (sched : Scheduler) (next : Option Task) :
    (w.assign worker sched next).workers i = some task := by
  have hi : i ≠ worker := by
    rintro rfl
    cases free.symm.trans has
  rw [workers_assign_of_ne hi, has]

end World

/-- A pop finds a job, or the scheduler is not running. -/
theorem Scheduler.getNextJob_cases (now : Time) (s : Scheduler) :
    s.getNextJob now = (none, s)
      ∨ s.getNextJob now = ((s.core.queue.dequeue now).1,
        s.withCore { s.core with queue := (s.core.queue.dequeue now).2 }) := by
  unfold getNextJob
  split
  · exact Or.inl rfl
  · exact Or.inr rfl

/-- A worker with a job takes so many steps. -/
def WorldStep.runs (worker steps : ℕ) (input : RunInput) : List WorldStep :=
  List.replicate steps (.run worker input)

/-- A scheduler over fresh jobs, without callbacks. -/
def Scheduler.bare (maxSize : Option ℕ) : Scheduler := .new .fresh maxSize none {} [] []

/-! ## Custody -/

/-- **The scheduler's side of the invariant**, over the tasks that hold their job. Queue, store
and states have to fit together for it, and the hands of the workers with all three. -/
structure Custody (tasks : Task → Prop) (c : SchedulerCore) : Prop where
  coherent : c.queue.Coherent
  stored : ∀ k, c.queue.OnHeap k → k ∈ c.store
  waiting : ∀ k, c.queue.contains k = true → c.state k = .scheduled ∨ c.state k = .cancelled
  known : ∀ task, tasks task → task.job ∈ c.store
  offHeap : ∀ task, tasks task → ¬ c.queue.OnHeap task.job
  inside : ∀ task, tasks task → c.state task.job ∈ task.pc.states

namespace Custody

open SchedulerCore ThreadSafePriorityQueue

variable {tasks tasks' : Task → Prop} {c c' : SchedulerCore}

/-- Tasks may be dropped, and may go on to a place that allows the same states. -/
theorem mono (h : Custody tasks c)
    (sub : ∀ t', tasks' t' → ∃ t, tasks t ∧ t.job = t'.job ∧ t.pc.states ⊆ t'.pc.states) :
    Custody tasks' c where
  coherent := h.coherent
  stored := h.stored
  waiting := h.waiting
  known t' ht' := by
    obtain ⟨t, ht, hjob, -⟩ := sub t' ht'
    rw [← hjob]
    exact h.known t ht
  offHeap t' ht' := by
    obtain ⟨t, ht, hjob, -⟩ := sub t' ht'
    rw [← hjob]
    exact h.offHeap t ht
  inside t' ht' := by
    obtain ⟨t, ht, hjob, hstates⟩ := sub t' ht'
    rw [← hjob]
    exact hstates (h.inside t ht)

/-- Where the queue, the store and the states are the same, nothing is lost. -/
theorem congr (h : Custody tasks c) (queue : c'.queue = c.queue) (store : c'.store = c.store)
    (states : ∀ k, c'.state k = c.state k) : Custody tasks c' where
  coherent := by rw [queue]; exact h.coherent
  stored k := by rw [queue, store]; exact h.stored k
  waiting k := by rw [queue, states]; exact h.waiting k
  known t ht := by rw [store]; exact h.known t ht
  offHeap t ht := by rw [queue]; exact h.offHeap t ht
  inside t ht := by rw [states]; exact h.inside t ht

/-- A job that is neither on the heap nor held may change its state, and enter the
store. -/
theorem elsewhere (h : Custody tasks c) {job : UUID} (queue : c'.queue = c.queue)
    (store : c.store ⊆ c'.store) (states : ∀ k, k ≠ job → c'.state k = c.state k)
    (free : job ∉ c.store) : Custody tasks c' where
  coherent := by rw [queue]; exact h.coherent
  stored k hk := store (h.stored k (by rwa [queue] at hk))
  waiting k hk := by
    rw [queue] at hk
    have hstored := h.stored k (onHeap_of_contains h.coherent hk)
    rw [states k (fun heq => free (heq ▸ hstored))]
    exact h.waiting k hk
  known t ht := store (h.known t ht)
  offHeap t ht := by rw [queue]; exact h.offHeap t ht
  inside t ht := by
    rw [states _ (fun heq => free (heq ▸ h.known t ht))]
    exact h.inside t ht

/-- **A job that nobody has is pushed.** It goes into the queue once, and is in a state that fits
there. -/
theorem insert (h : Custody tasks c) {job : Job} (queue : c'.queue = c.queue.insert job)
    (fresh : ¬ c.queue.OnHeap job.id) (free : ∀ t, tasks t → t.job ≠ job.id)
    (store : c.store ⊆ c'.store) (stored : job.id ∈ c'.store)
    (states : ∀ k, k ≠ job.id → c'.state k = c.state k)
    (state : c'.state job.id = .scheduled ∨ c'.state job.id = .cancelled) :
    Custody tasks c' where
  coherent := by
    rw [queue]
    exact h.coherent.insert fresh
  stored k hk := by
    rw [queue, onHeap_insert] at hk
    rcases hk with rfl | hk
    · exact stored
    · exact store (h.stored k hk)
  waiting k hk := by
    by_cases heq : k = job.id
    · rw [heq]
      exact state
    · rw [queue, contains_insert] at hk
      rw [states k heq]
      exact h.waiting k (hk.resolve_left heq)
  known t ht := store (h.known t ht)
  offHeap t ht := by
    rw [queue, onHeap_insert, not_or]
    exact ⟨free t ht, h.offHeap t ht⟩
  inside t ht := by
    rw [states _ (free t ht)]
    exact h.inside t ht

/-- **A job is cancelled**, wherever it is. If it was in the queue it goes from there; if a
worker has it, CANCELLED fits to every place. -/
theorem cancel (h : Custody tasks c) {job : UUID} (state : cancellable (c.state job) = true)
    (queue : c'.queue = (c.queue.remove job).2) (store : c'.store = c.store)
    (states : ∀ k, c'.state k = if k = job then .cancelled else c.state k) :
    Custody tasks c' := by
  have hheap : ∀ k, c'.queue.OnHeap k ↔ c.queue.OnHeap k := by
    intro k
    rw [queue]
    unfold OnHeap
    rw [heap_remove]
  refine ⟨?_, ?_, ?_, ?_, ?_, ?_⟩
  · rw [queue]
    exact h.coherent.remove job
  · intro k hk
    rw [store]
    exact h.stored k ((hheap k).mp hk)
  · intro k hk
    rw [queue, contains_remove] at hk
    rw [states, if_neg hk.2]
    exact h.waiting k hk.1
  · intro t ht
    rw [store]
    exact h.known t ht
  · intro t ht
    rw [hheap]
    exact h.offHeap t ht
  · -- every position of a run is ready to find its job cancelled
    intro t ht
    have hin := h.inside t ht
    rw [states]
    split
    · rename_i heq
      rw [heq] at hin
      exact RunPc.cancelled_mem_states hin state
    · exact hin

/-- **`submit`, `cancel_job` and counting keep custody.** So the events of the executor keep it,
too. -/
theorem stable (tasks : Task → Prop) : Stable (Custody tasks) where
  stats c _ h := h.congr rfl rfl (fun _ => rfl)
  submit c job h := by
    refine submit_elim (fun r hcases => ?_)
    cases hcases with
    | refused => exact h
    | stranded fresh =>
      exact h.elsewhere rfl (Finset.subset_insert job c.store) (fun _ _ => rfl) fresh
    | undone fresh _ _ _ c' states store queue =>
      refine h.elsewhere queue (Finset.subset_of_eq store.symm) (fun k hk => ?_) fresh
      rw [states, if_neg hk]
    | accepted fresh _ _ _ c' states store queue =>
      obtain ⟨j, rfl, hqueue⟩ := queue
      refine h.insert hqueue (fun hheap => fresh (h.stored _ hheap))
        (fun t ht heq => fresh (heq ▸ h.known t ht)) ?_ ?_ (fun k hk => ?_) (Or.inl ?_)
      · rw [store]
        exact Finset.subset_insert _ _
      · rw [store]
        exact Finset.mem_insert_self _ _
      · rw [states, if_neg hk]
      · rw [states, if_pos rfl]
  cancelJob c now job h := by
    refine cancelJob_elim (fun r hcases => ?_)
    cases hcases with
    | unchanged => exact h
    | done _ state c' states store queue => exact h.cancel state queue store states

/-- **A worker takes a step on its own job.** The other tasks hold other jobs. -/
theorem own (h : Custody tasks c) {job : UUID} (queue : c'.queue = c.queue)
    (store : c'.store = c.store) (states : ∀ k, k ≠ job → c'.state k = c.state k)
    (offHeap : ¬ c.queue.OnHeap job) (stored : job ∈ c.store)
    (others : ∀ t, tasks' t → tasks t ∧ t.job ≠ job
      ∨ t.job = job ∧ c'.state job ∈ t.pc.states) : Custody tasks' c' where
  coherent := by rw [queue]; exact h.coherent
  stored k := by rw [queue, store]; exact h.stored k
  waiting k hk := by
    rw [queue] at hk
    rw [states k (fun heq => offHeap (heq ▸ onHeap_of_contains h.coherent hk))]
    exact h.waiting k hk
  known t ht := by
    rw [store]
    rcases others t ht with ⟨hold, -⟩ | ⟨hjob, -⟩
    · exact h.known t hold
    · rw [hjob]
      exact stored
  offHeap t ht := by
    rw [queue]
    rcases others t ht with ⟨hold, -⟩ | ⟨hjob, -⟩
    · exact h.offHeap t hold
    · rw [hjob]
      exact offHeap
  inside t ht := by
    rcases others t ht with ⟨hold, hne⟩ | ⟨hjob, hin⟩
    · rw [states _ hne]
      exact h.inside t hold
    · rw [hjob]
      exact hin

/-- **A job is dequeued** and handed to a worker. -/
theorem dequeue (h : Custody tasks c) (now : Time) (queue : c'.queue = (c.queue.dequeue now).2)
    (store : c'.store = c.store) (states : ∀ k, c'.state k = c.state k)
    (handed : ∀ t, tasks' t → tasks t
      ∨ (c.queue.dequeue now).1 = some t.job ∧ t.pc = .dequeued) : Custody tasks' c' := by
  obtain ⟨hcoherent, hcontains, hheap, htaken⟩ := h.coherent.dequeue now
  have hstored : ∀ k, (c.queue.dequeue now).1 = some k → c.queue.OnHeap k :=
    fun k hk => onHeap_of_contains h.coherent (htaken k hk).1
  refine ⟨?_, ?_, ?_, ?_, ?_, ?_⟩
  · rw [queue]
    exact hcoherent
  · intro k hk
    rw [queue] at hk
    rw [store]
    exact h.stored k (hheap k hk)
  · intro k hk
    rw [queue, hcontains] at hk
    rw [states]
    exact h.waiting k hk.1
  · intro t ht
    rw [store]
    rcases handed t ht with hold | ⟨hjob, -⟩
    · exact h.known t hold
    · exact h.stored _ (hstored _ hjob)
  · intro t ht hk
    rw [queue] at hk
    rcases handed t ht with hold | ⟨hjob, -⟩
    · exact h.offHeap t hold (hheap _ hk)
    · exact (htaken _ hjob).2 hk
  · intro t ht
    rw [states]
    rcases handed t ht with hold | ⟨hjob, hpc⟩
    · exact h.inside t hold
    · rw [hpc]
      rcases h.waiting _ (htaken _ hjob).1 with hst | hst <;> rw [hst] <;> simp [RunPc.states]

end Custody

end JobOrchestrator
