import JobOrchestrator.Queue.Drain
import JobOrchestrator.Scheduler.Scheduler

/-!
# Starting and stopping the scheduler

`start`, `stop`, `submit` and `get_next_job`, called in any order from a
scheduler that was just constructed. The running flag is the scheduler's, the
shutdown flag is the queue's, and only one of them is ever taken back: `stop` sets
both, `start` resets the first.

`Scheduler.returns_due_iff` says what comes of it. A running scheduler with a
job that is due hands one out exactly if it was never stopped while it was
running; otherwise no `get_next_job` returns a job any more.
-/

namespace JobOrchestrator

namespace ThreadSafePriorityQueue

/-- `shutdown`: sets `_shutdown`. -/
def signalShutdown (q : ThreadSafePriorityQueue) : ThreadSafePriorityQueue :=
  { q with shutdown := true }

/-! ## A pop finds what is due -/

variable {now : Time} {e : QueueEntry}

/-- **The loop of `_get_ready_job`** finds an entry where one that is not marked is due. -/
theorem isSome_takeReady {es : List QueueEntry} {r : Finset UUID}
    (m : OrderedDict UUID QueueEntry) (mem : e ∈ unmarked r es) (due : e.scheduledTime ≤ now) :
    (takeReady now es m r).1.isSome = true := by
  induction es generalizing m r with
  | nil => exact absurd mem List.not_mem_nil
  | cons a es ih =>
    rw [takeReady]
    split
    · rename_i hmarked
      rw [unmarked_cons_of_mem hmarked] at mem
      obtain ⟨hmem, hout⟩ := mem_unmarked.mp mem
      exact ih _ (mem_unmarked.mpr ⟨hmem, fun hr => hout (Finset.mem_of_mem_erase hr)⟩)
    · split
      · rfl
      · rename_i hlate
        obtain ⟨hmem, hout⟩ := mem_unmarked.mp mem
        have hrest : e ∈ es := by
          rcases List.mem_cons.mp hmem with rfl | hrest
          · exact absurd due hlate
          · exact hrest
        exact ih m (mem_unmarked.mpr ⟨hrest, hout⟩)

/-- **The queue has a job that is due**: it contains the job, whose entry in the map is
due. -/
def HasDue (now : Time) (q : ThreadSafePriorityQueue) : Prop :=
  ∃ k e, q.contains k = true ∧ q.entryMap.get? k = some e ∧ e.scheduledTime ≤ now

/-- **An iteration of `pop` finds a job** where the map has only what is on the heap, and
a job is due. -/
theorem isSome_dequeue {q : ThreadSafePriorityQueue} (h : MapsToHeap q.heap q.entryMap)
    (due : q.HasDue now) : (q.dequeue now).1.isSome = true := by
  obtain ⟨k, e, hk, he, hdue⟩ := due
  obtain ⟨hmem, hid⟩ := h k e he
  have hunmarked : e ∈ unmarked q.removed q.heap := by
    refine mem_unmarked.mpr ⟨hmem, ?_⟩
    rw [hid]
    exact (of_decide_eq_true hk).2
  rw [dequeue_fst, Option.isSome_map]
  exact isSome_takeReady _ (mem_cleanup q.entryMap q.removed hunmarked) hdue

end ThreadSafePriorityQueue

namespace Scheduler

open ThreadSafePriorityQueue

/-- **A scheduler as it is constructed**: it is not running. -/
def constructed (jobs : JobTable) (maxSize maxEntries : Option ℕ)
    (retryHandler : Retry.RetryHandler) : Scheduler :=
  { new jobs maxSize maxEntries retryHandler [] [] with running := false }

/-- **`start`**. It does not take the shutdown of the queue back. -/
def start (s : Scheduler) : Scheduler := if s.running then s else { s with running := true }

/-- **`stop`**. It shuts the queue down and wakes whoever waits there. -/
def stop (s : Scheduler) : Scheduler :=
  if s.running then
    { s with running := false, core := { s.core with queue := s.core.queue.signalShutdown } }
  else s

/-- **`get_next_job`**, with the clock readings of the iterations of the queue's `pop`: it
returns the first job that one of them finds, and gives up after the last. -/
def getNextJobWithin : List Time → Scheduler → Option UUID × Scheduler
  | [], s => (none, s)
  | now :: later, s =>
    match s.getNextJob now with
    | (some job, s') => (some job, s')
    | (none, s') => s'.getNextJobWithin later

/-- A call. -/
inductive LifecycleCall
  | start
  | stop
  | submit (job : UUID)
  | getNextJob (readings : List Time)
  deriving DecidableEq

/-- What a call makes of the scheduler. -/
def lifecycle (s : Scheduler) : LifecycleCall → Scheduler
  | .start => s.start
  | .stop => s.stop
  | .submit job => (s.submit job).1
  | .getNextJob readings => (s.getNextJobWithin readings).2

/-! ## Histories -/

variable {s : Scheduler} {now : Time}

/-- The map of the queue has only what is on the heap. -/
def QueueMapped (s : Scheduler) : Prop := MapsToHeap s.core.queue.heap s.core.queue.entryMap

/-- The queue was shut down. -/
def ShutDown (s : Scheduler) : Prop := s.core.queue.shutdown = true

theorem queue_getNextJob (now : Time) (s : Scheduler) :
    (s.getNextJob now).2.core.queue = s.core.queue
      ∨ (s.getNextJob now).2.core.queue = (s.core.queue.dequeue now).2 := by
  unfold getNextJob
  split
  · exact Or.inl rfl
  · exact Or.inr rfl

/-- What `submit` makes of the queue: nothing, or the queue with one more entry. -/
theorem queue_submit (job : UUID) (s : Scheduler) :
    (s.submit job).1.core.queue = s.core.queue
      ∨ ∃ j : Job, (s.submit job).1.core.queue = s.core.queue.insert j := by
  show (s.core.submit job).1.queue = s.core.queue
    ∨ ∃ j : Job, (s.core.submit job).1.queue = s.core.queue.insert j
  refine SchedulerCore.submit_elim (fun r hcases => ?_)
  cases hcases with
  | refused | stranded => exact Or.inl rfl
  | undone _ _ _ _ _ _ _ queue => exact Or.inl queue
  | accepted _ _ _ _ _ _ _ queue =>
    obtain ⟨j, -, hqueue⟩ := queue
    exact Or.inr ⟨j, hqueue⟩

theorem QueueMapped.getNextJobWithin (h : s.QueueMapped) (readings : List Time) :
    (s.getNextJobWithin readings).2.QueueMapped := by
  induction readings generalizing s with
  | nil => exact h
  | cons now later ih =>
    have hnext : (s.getNextJob now).2.QueueMapped := by
      unfold QueueMapped
      rcases queue_getNextJob now s with hqueue | hqueue
      · rw [hqueue]
        exact h
      · rw [hqueue]
        exact MapsToHeap.dequeue h now
    unfold getNextJobWithin
    split
    · rename_i hpop
      rw [hpop] at hnext
      exact hnext
    · rename_i hpop
      rw [hpop] at hnext
      exact ih hnext

/-- **Every call** keeps the map to the heap. Starting and stopping do not touch the entries. -/
theorem QueueMapped.lifecycle (h : s.QueueMapped) (l : LifecycleCall) :
    (s.lifecycle l).QueueMapped := by
  cases l with
  | start =>
    show s.start.QueueMapped
    unfold Scheduler.start
    split <;> exact h
  | stop =>
    show s.stop.QueueMapped
    unfold Scheduler.stop
    split <;> exact h
  | submit job =>
    show MapsToHeap (s.submit job).1.core.queue.heap (s.submit job).1.core.queue.entryMap
    rcases queue_submit job s with hqueue | ⟨j, hqueue⟩
    · rw [hqueue]
      exact h
    · rw [hqueue]
      exact MapsToHeap.insert h j
  | getNextJob readings => exact h.getNextJobWithin readings

/-- A `get_next_job` neither shuts the queue down nor opens it again. -/
theorem shutdown_getNextJobWithin (readings : List Time) (s : Scheduler) :
    (s.getNextJobWithin readings).2.core.queue.shutdown = s.core.queue.shutdown := by
  induction readings generalizing s with
  | nil => rfl
  | cons now later ih =>
    have hnext : (s.getNextJob now).2.core.queue.shutdown = s.core.queue.shutdown := by
      rcases queue_getNextJob now s with hqueue | hqueue
      · rw [hqueue]
      · rw [hqueue]
        rfl
    unfold getNextJobWithin
    split
    · rename_i hpop
      rw [hpop] at hnext
      exact hnext
    · rename_i hpop
      rw [hpop] at hnext
      exact (ih _).trans hnext

/-- **What a call makes of the shutdown flag**: a `stop` of a running scheduler sets it,
and nothing resets it. -/
theorem shutDown_lifecycle_iff (s : Scheduler) (l : LifecycleCall) :
    (s.lifecycle l).ShutDown ↔ s.ShutDown ∨ l = .stop ∧ s.running = true := by
  unfold ShutDown
  cases l with
  | start =>
    show s.start.core.queue.shutdown = true ↔ _
    unfold Scheduler.start
    split <;> simp
  | stop =>
    show s.stop.core.queue.shutdown = true ↔ _
    unfold Scheduler.stop
    split
    · rename_i hrunning
      simp [hrunning, signalShutdown]
    · rename_i hrunning
      simp [hrunning]
  | submit job =>
    show (s.submit job).1.core.queue.shutdown = true ↔ _
    rcases queue_submit job s with hqueue | ⟨j, hqueue⟩ <;> rw [hqueue] <;> simp
    rfl
  | getNextJob readings =>
    show (s.getNextJobWithin readings).2.core.queue.shutdown = true ↔ _
    rw [shutdown_getNextJobWithin]
    simp

/-- **The condition on a history**: it has no `stop` of a running scheduler. -/
def NotStopped (s : Scheduler) (l : LifecycleCall) : Prop := l = .stop → s.running = false

instance (s : Scheduler) (l : LifecycleCall) : Decidable (NotStopped s l) :=
  inferInstanceAs (Decidable (l = .stop → s.running = false))

/-- **The queue is shut down exactly by the histories that stop a running scheduler.** -/
theorem not_shutDown_iff (open_ : ¬ s.ShutDown) (ls : List LifecycleCall) :
    ¬ (History.after lifecycle s ls).ShutDown ↔ History.Admitted lifecycle NotStopped s ls := by
  rw [← History.throughout_iff_admitted (I := fun _ => True) (P := fun s => ¬ s.ShutDown)
    ?_ (fun _ _ _ => trivial) trivial open_ ls]
  · constructor
    · -- what is shut down stays so, whatever comes after it
      rintro hend ds ⟨rest, rfl⟩ hshut
      rw [History.after_append] at hend
      exact hend (History.invariant_of_kept (P := ShutDown) hshut
        (fun s l h => (shutDown_lifecycle_iff s l).mpr (Or.inl h)) rest)
    · exact fun h => h ls List.prefix_rfl
  · intro s l _ hopen
    rw [shutDown_lifecycle_iff]
    unfold NotStopped
    simp [hopen]

/-! ## What is returned -/

/-- After a shutdown no `get_next_job` returns a job: the queue gives out nothing, however often
it is asked within the timeout. -/
theorem getNextJobWithin_of_shutDown (h : s.ShutDown) (readings : List Time) :
    (s.getNextJobWithin readings).1 = none := by
  induction readings with
  | nil => rfl
  | cons now later ih =>
    have hnext : s.getNextJob now = (none, s) := by
      unfold getNextJob
      exact if_pos (Or.inr h)
    unfold getNextJobWithin
    rw [hnext]
    exact ih

/-- A running scheduler whose queue is open returns a job in its first iteration where one
is due. -/
theorem isSome_getNextJobWithin (mapped : s.QueueMapped) (running : s.running = true)
    (open_ : ¬ s.ShutDown) (due : s.core.queue.HasDue now) (later : List Time) :
    (s.getNextJobWithin (now :: later)).1.isSome = true := by
  have hnext : (s.getNextJob now).1.isSome = true := by
    unfold getNextJob
    rw [if_neg (by rw [running]; simpa [ShutDown] using open_)]
    exact isSome_dequeue mapped due
  unfold getNextJobWithin
  split
  · rfl
  · rename_i hpop
    rw [hpop] at hnext
    cases hnext

/-- **A running scheduler with a job that is due returns a job, whatever the timeout,
exactly if it was never stopped while running.** -/
theorem returns_due_iff (jobs : JobTable) (maxSize maxEntries : Option ℕ)
    (retryHandler : Retry.RetryHandler) (ls : List LifecycleCall) {s : Scheduler}
    (history : s = History.after lifecycle (constructed jobs maxSize maxEntries retryHandler) ls)
    (running : s.running = true) {now : Time} (due : s.core.queue.HasDue now)
    (later : List Time) :
    (s.getNextJobWithin (now :: later)).1.isSome = true
      ↔ History.Admitted lifecycle NotStopped (constructed jobs maxSize maxEntries retryHandler)
          ls := by
  have hmapped : s.QueueMapped := by
    rw [history]
    refine History.invariant_of_kept (P := QueueMapped) ?_ (fun _ l h => h.lifecycle l) ls
    intro k e he
    cases he
  rw [← not_shutDown_iff (show ¬ (constructed jobs maxSize maxEntries retryHandler).ShutDown from
    Bool.false_ne_true) ls, ← history]
  constructor
  · intro hsome hshut
    rw [getNextJobWithin_of_shutDown hshut] at hsome
    cases hsome
  · exact fun hopen => isSome_getNextJobWithin hmapped running hopen due later

/-- A scheduler that was started twice has its job handed out. -/
theorem returns_due_started :
    ((History.after lifecycle (constructed .fresh none none {}) [.start, .submit 1,
      .start]).getNextJobWithin [0]).1.isSome = true :=
  (returns_due_iff .fresh none none {} [.start, .submit 1, .start] rfl rfl
    ⟨1, _, by decide +kernel, rfl, by decide +kernel⟩ []).mpr (by decide +kernel)

/-- **Stopping and starting again disables the queue**: the job that is due is not handed
out. -/
theorem restart_disables :
    ∃ s : Scheduler,
      s = History.after lifecycle (constructed .fresh none none {})
        [.start, .stop, .start, .submit 1]
      ∧ s.running = true ∧ s.core.queue.HasDue 0
      ∧ ∀ readings, (s.getNextJobWithin readings).1 = none := by
  refine ⟨_, rfl, by decide +kernel, ⟨1, _, by decide +kernel, rfl, by decide +kernel⟩,
    getNextJobWithin_of_shutDown ?_⟩
  show _ = true
  decide +kernel

end Scheduler

end JobOrchestrator
