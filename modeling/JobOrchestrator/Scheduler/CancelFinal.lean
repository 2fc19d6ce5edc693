import JobOrchestrator.Scheduler.NoJobLost

/-!
# Cancellation is final

`cancel_job` accepts a job that is SCHEDULED, and a job is SCHEDULED also
while a worker has it: between the dequeue and the transition to RUNNING,
and between the last transition of a retry and its push. Cancelled after
the first check of its state, the job comes to the fall-through of
`JobRunner.run` and its function is called; cancelled before the push, it
is queued again. In the other windows the next transition is refused, and
the worker gives up.

So a cancelled job is finally cancelled if no worker is in one of the first
windows at that moment – `World.InTime` – and `World.Cancelled` is the
invariant that says so.
-/

namespace JobOrchestrator

namespace RunPc

/-- The places from which a cancelled job comes to its function, or to the push. -/
def early : RunPc → Bool
  | dequeued | checkPending | checkScheduled | checkRunning | checkRetrying | checkCanRun
  | invoke | push _ => true
  | _ => false

/-- A worker with a cancelled job stays off these places. -/
theorem Moves.of_cancelled {pc pc' : RunPc} {st' : JobState}
    (h : Moves pc .cancelled (some pc') st') (late : pc.early = false) :
    st' = .cancelled ∧ pc'.early = false := by
  cases h with
  | inner hpc can | outer hpc can => simp [canTransition, validTransitions] at can
  | innerRefused => exact ⟨rfl, rfl⟩
  | handled _ hnext => rcases hnext with rfl | rfl | rfl <;> exact ⟨rfl, rfl⟩
  | completedCounted | failedCounted => exact ⟨rfl, rfl⟩
  | _ => simp [early] at late

/-- The end of a run does not change a state. -/
theorem Moves.of_none {pc : RunPc} {st st' : JobState} (h : Moves pc st none st') :
    st' = st := by
  cases h <;> rfl

/-- Where a job can still be cancelled, there are four places to look at. -/
theorem early_of_cancellable {pc : RunPc} {st : JobState} (inside : st ∈ pc.states)
    (h : SchedulerCore.cancellable st = true) (early : pc.early = true) :
    pc = .dequeued ∨ pc = .checkPending ∨ pc = .checkScheduled ∨ ∃ r, pc = .push r := by
  cases pc with
  | dequeued => exact Or.inl rfl
  | checkPending => exact Or.inr (Or.inl rfl)
  | checkScheduled => exact Or.inr (Or.inr (Or.inl rfl))
  | push r => exact Or.inr (Or.inr (Or.inr ⟨r, rfl⟩))
  | checkRunning | checkRetrying | checkCanRun | invoke =>
    -- here the job is RUNNING or cancelled already
    simp only [states, List.mem_cons, List.not_mem_nil, or_false] at inside
    rcases inside with rfl | rfl <;> cases h
  | _ => cases early

end RunPc

namespace SchedulerCore

/-- **A stored job that is cancelled and not in the queue** stays so, whatever
clients call. -/
theorem stable_cancelled (k : UUID) : Stable (fun c =>
    k ∈ c.store ∧ c.state k = .cancelled ∧ c.queue.contains k = false) where
  stats _ _ h := h
  submit c job h := by
    obtain ⟨hstored, hstate, hqueue⟩ := h
    refine submit_elim (fun r hcases => ?_)
    cases hcases with
    | refused => exact ⟨hstored, hstate, hqueue⟩
    | stranded => exact ⟨Finset.mem_insert_of_mem hstored, hstate, hqueue⟩
    | undone fresh _ _ _ c' states store queue =>
      have hk : k ≠ job := fun heq => fresh (heq ▸ hstored)
      show k ∈ c'.store ∧ c'.state k = _ ∧ c'.queue.contains k = false
      rw [store, states, if_neg hk, queue]
      exact ⟨hstored, hstate, hqueue⟩
    | accepted fresh _ _ _ c' states store queue =>
      -- what is pushed was not in the store, so it is another job
      obtain ⟨j, hid, hinsert⟩ := queue
      have hk : k ≠ job := fun heq => fresh (heq ▸ hstored)
      show k ∈ c'.store ∧ c'.state k = _ ∧ c'.queue.contains k = false
      refine ⟨?_, ?_, ?_⟩
      · rw [store]
        exact Finset.mem_insert_of_mem hstored
      · rw [states, if_neg hk]
        exact hstate
      · rw [hinsert, Bool.eq_false_iff]
        intro hc
        rcases (ThreadSafePriorityQueue.contains_insert _ _ _).mp hc with heq | hc
        · exact hk (heq.trans hid)
        · exact absurd (hqueue.symm.trans hc) (by decide)
  cancelJob c now job h := by
    obtain ⟨hstored, hstate, hqueue⟩ := h
    refine cancelJob_elim (fun r hcases => ?_)
    cases hcases with
    | unchanged => exact ⟨hstored, hstate, hqueue⟩
    | done _ state c' states store queue =>
      show k ∈ c'.store ∧ c'.state k = _ ∧ c'.queue.contains k = false
      refine ⟨store ▸ hstored, ?_, ?_⟩
      · rw [states]
        split
        · rfl
        · exact hstate
      · rw [queue, Bool.eq_false_iff]
        intro hc
        exact absurd (hqueue.symm.trans ((ThreadSafePriorityQueue.contains_remove _ _ _).mp hc).1)
          (by decide)

end SchedulerCore

namespace World

variable {order : IterationOrder UUID} {w w' : World} {k : UUID}

/-- **The condition of the theorem**, on the state in which `cancel_job` is called: no
worker has just dequeued the job, or is about to push it back. -/
def InTime (w : World) (k : UUID) : Prop :=
  ∀ i task, w.workers i = some task → task.job = k →
    task.pc ≠ .dequeued ∧ task.pc ≠ .checkPending ∧ task.pc ≠ .checkScheduled
      ∧ ∀ r, task.pc ≠ .push r

/-- **A job is finally cancelled**: it is not in the queue, and no worker is where it would call
its function or push it. A worker that has the job but is already past its function may go on: it
finds no transition open to it. -/
structure Cancelled (w : World) (k : UUID) : Prop where
  sound : w.Sound
  core : k ∈ w.sched.core.store ∧ w.sched.core.state k = .cancelled
    ∧ w.sched.core.queue.contains k = false
  late : ∀ i task, w.workers i = some task → task.job = k → task.pc.early = false

namespace Cancelled

/-- **A client's call** takes nothing out of a terminal state and puts no job into the queue that
is in the store. -/
theorem client (h : w.Cancelled k) {sched : Scheduler} (sound : (w.withSched sched).Sound)
    (stable : ∀ {P : SchedulerCore → Prop}, SchedulerCore.Stable P → P w.sched.core →
      P sched.core) : (w.withSched sched).Cancelled k :=
  ⟨sound, stable (SchedulerCore.stable_cancelled k) h.core, h.late⟩

/-- **A worker's call**, which leaves it with a late place if it has the job. -/
theorem assign (h : w.Cancelled k) {worker : ℕ} {sched : Scheduler} {next : Option Task}
    (sound : (w.assign worker sched next).Sound)
    (core : k ∈ sched.core.store ∧ sched.core.state k = .cancelled
      ∧ sched.core.queue.contains k = false)
    (late : ∀ t, next = some t → t.job = k → t.pc.early = false) :
    (w.assign worker sched next).Cancelled k := by
  refine ⟨sound, core, ?_⟩
  intro i t ht hjob
  rcases workers_assign ht with ⟨-, hn⟩ | ⟨-, ht⟩
  · exact late t hn hjob
  · exact h.late i t ht hjob

/-- **A worker does not get the job.** It is not in the queue, and nothing else is handed out. -/
theorem getNextJob_ne (h : w.Cancelled k) (now : Time) :
    (w.sched.getNextJob now).1 ≠ some k := by
  rcases Scheduler.getNextJob_cases now w.sched with hnone | hsome
  · rw [hnone]
    exact Option.some_ne_none k ∘ Eq.symm
  · rw [hsome]
    intro hk
    obtain ⟨-, -, -, htaken⟩ := h.sound.custody.coherent.dequeue now
    exact absurd (h.core.2.2.symm.trans (htaken k hk).1) (by decide)

/-- **A step on the worker's own job.** If it is this job, its worker is late and finds no
transition; if it is another, this one is left alone. -/
theorem own (h : w.Cancelled k) {worker : ℕ} {task : Task} {sched : Scheduler}
    {status : RunStatus} (has : w.workers worker = some task)
    (own : OwnJob task.job w.sched sched)
    (stays : ∀ next, status.task? = some next → next.job = task.job)
    (moves : task.pc.Moves (w.sched.core.state task.job) (status.task?.map Task.pc)
      (sched.core.state task.job)) : (w.assign worker sched status.task?).Cancelled k := by
  obtain ⟨hstored, hstate, hqueue⟩ := h.core
  have hsound := h.sound.own has own stays moves
  have hstore := own.store (h.sound.known worker task has)
  by_cases hk : task.job = k
  · subst hk
    have hlate := h.late worker task has rfl
    rw [hstate] at moves
    cases hnext : status.task? with
    | none =>
      rw [hnext] at moves hsound
      exact h.assign hsound ⟨hstore ▸ hstored, moves.of_none, own.queue ▸ hqueue⟩
        (fun t ht => by cases ht)
    | some t =>
      rw [hnext] at moves hsound
      obtain ⟨hst, hpc⟩ := moves.of_cancelled hlate
      refine h.assign hsound ⟨hstore ▸ hstored, hst, own.queue ▸ hqueue⟩ ?_
      rintro t' ⟨⟩ -
      exact hpc
  · refine h.assign hsound ⟨hstore ▸ hstored, (own.others k (Ne.symm hk)).trans hstate,
      own.queue ▸ hqueue⟩ ?_
    exact fun t ht hjob => absurd ((stays t ht).symm.trans hjob) hk

/-- **The push of a retry** is of another job. -/
theorem push (h : w.Cancelled k) {worker : ℕ} {task : Task} {r : JobResult}
    (has : w.workers worker = some task) (here : task.pc = .push r) :
    (w.assign worker (w.sched.pushRetry task.job).2 (some { task with
      pc := .countRetry (w.sched.pushRetry task.job).1 r })).Cancelled k := by
  obtain ⟨hstored, hstate, hqueue⟩ := h.core
  have hpushed := repushed task.job w.sched
  have hk : task.job ≠ k := by
    intro hjob
    have hlate := h.late worker task has hjob
    rw [here] at hlate
    cases hlate
  refine h.assign (h.sound.push has here)
    ⟨hpushed.store ▸ hstored, (hpushed.states k).trans hstate, ?_⟩ ?_
  · rw [Bool.eq_false_iff]
    intro hc
    rcases hpushed.queue with ⟨-, -, j, hid, hinsert⟩ | ⟨-, -, hsame⟩
    · rw [hinsert, ThreadSafePriorityQueue.contains_insert, hid] at hc
      rcases hc with heq | hc
      · exact hk heq.symm
      · exact absurd (hqueue.symm.trans hc) (by decide)
    · rw [hsame] at hc
      exact absurd (hqueue.symm.trans hc) (by decide)
  · rintro t ⟨⟩ hjob
    exact absurd hjob hk

/-- **Every step keeps a job cancelled.** It is the step of the invariant from which finality
follows along every run. -/
theorem step (h : w.Cancelled k) {l : WorldStep} (taken : w.step order l = some w') :
    w'.Cancelled k := by
  have hsound := h.sound.step taken
  cases l with
  | submit job =>
    cases taken
    exact h.client hsound (fun stable hP => Scheduler.stable_submit stable job hP)
  | submitDag g now =>
    cases taken
    exact h.client hsound (fun stable hP => Scheduler.stable_submitDag stable order now g hP)
  | cancelJob job now =>
    cases taken
    exact h.client hsound (fun stable hP => Scheduler.stable_cancelJob stable now job hP)
  | cancelDag dagId now =>
    cases taken
    exact h.client hsound (fun stable hP => Scheduler.stable_cancelDag stable now dagId hP)
  | getNextJob worker now =>
    have hne := h.getNextJob_ne now
    obtain ⟨-, rfl⟩ := step_getNextJob taken
    refine h.assign hsound ?_ ?_
    · -- a pop takes away from the queue, so the job is still not in it
      obtain ⟨hstored, hstate, hqueue⟩ := h.core
      rcases Scheduler.getNextJob_cases now w.sched with hnone | hsome
      · rw [hnone]
        exact ⟨hstored, hstate, hqueue⟩
      · rw [hsome]
        refine ⟨hstored, hstate, ?_⟩
        rw [Bool.eq_false_iff]
        intro hc
        have hbefore := ((h.sound.custody.coherent.dequeue now).2.1 k).mp hc
        exact absurd (hqueue.symm.trans hbefore.1) (by decide)
    · intro t ht hjob
      obtain ⟨job, hget, rfl⟩ := Option.map_eq_some_iff.mp ht
      exact absurd (hjob ▸ hget) hne
  | run worker input =>
    obtain ⟨task, r, has, hstep, rfl⟩ := step_run taken
    cases hstep with
    | own own stays moves => exact h.own has own stays moves
    | notifyComplete r here =>
      refine h.assign hsound (Scheduler.stable_notifyComplete (SchedulerCore.stable_cancelled k)
        order _ _ h.core) ?_
      rintro t ⟨⟩ -
      rfl
    | notifyFailed r here =>
      refine h.assign hsound (Scheduler.stable_notifyFailed (SchedulerCore.stable_cancelled k)
        _ _ _ h.core) ?_
      rintro t ⟨⟩ -
      rfl
    | push r here => exact h.push has here

end Cancelled

/-- **A `cancel_job` that returns `True` in time** cancels the job finally. -/
theorem Sound.cancelled (h : w.Sound) (order : IterationOrder UUID) {now : Time}
    (inTime : w.InTime k) (yes : (w.sched.cancelJob now k).2 = .ok true) :
    (w.withSched (w.sched.cancelJob now k).1).Cancelled k := by
  have hsound := h.step (show w.step order (.cancelJob k now) = some _ from rfl)
  revert hsound yes
  unfold Scheduler.cancelJob
  refine SchedulerCore.cancelJob_elim (fun r hcases => ?_)
  intro yes hsound
  cases hcases with
  | unchanged _ answer no => exact absurd yes no
  | done stored state c' states store queue =>
    refine ⟨hsound, ⟨store ▸ stored, (states k).trans (if_pos rfl), ?_⟩, ?_⟩
    · show c'.queue.contains k = false
      rw [queue, Bool.eq_false_iff]
      intro hc
      exact ((ThreadSafePriorityQueue.contains_remove _ _ _).mp hc).2 rfl
    · intro i task htask hjob
      obtain ⟨hdeq, hpending, hscheduled, hpush⟩ := inTime i task htask hjob
      cases hholds : task.pc.holds with
      | false =>
        -- a worker that does not hold the job is past the early positions
        obtain ⟨job, startedAt, pc⟩ := task
        cases pc <;> first | rfl | cases hholds
      | true =>
        have hin := h.custody.inside task ⟨i, htask, hholds⟩
        rw [hjob] at hin
        rw [Bool.eq_false_iff]
        intro hearly
        rcases RunPc.early_of_cancellable hin state hearly with hpc | hpc | hpc | ⟨r, hpc⟩
        · exact hdeq hpc
        · exact hpending hpc
        · exact hscheduled hpc
        · exact hpush r hpc

end World

end JobOrchestrator
