import Mathlib.Algebra.Order.Archimedean.Basic
import JobOrchestrator.Scheduler.RetryTurns
import JobOrchestrator.Util.InfiniteRun

/-!
# A worker of its own

Workers that keep asking for jobs and keep running them, for ever, and what one such worker can
do for a job. Alone with it, the worker serves it. Where urgent jobs are submitted again and
again, it is never handed a job that is less urgent, although that is due all the time.
-/

namespace JobOrchestrator

namespace World

open Scheduler SchedulerCore ThreadSafePriorityQueue

variable {order : IterationOrder UUID} {k : UUID} {w w' : World}

/-- **Workers keep calling** `get_next_job` and `run_job`, as the clock advances. It says nothing
about which job a worker is handed. -/
structure KeepsCalling {ok : World → WorkStep → Prop} (r : InfiniteRun (work order) ok) :
    Prop where
  runs : ∀ i worker task, (r.state i).workers worker = some task →
    ∃ j, i ≤ j ∧ ∃ input, r.label j = .operation (.run worker input)
  asks : ∀ i (late : Time), ∃ j, i ≤ j ∧ ∃ worker now, late ≤ now
    ∧ r.label j = .getNextJob worker now

/-- **The workers go on, and the job has its turn**: a worker that has it takes a step at last,
and again and again, later than any time, a worker asks for a job and is handed no other. Without
the second clause others could be handed out for ever in its place. -/
structure Served (k : UUID) (r : InfiniteRun (work order) (Others k)) : Prop where
  runs : ∀ i worker task, (r.state i).workers worker = some task → task.job = k →
    ∃ j, i ≤ j ∧ ∃ input, r.label j = .operation (.run worker input)
  asks : ∀ i (late : Time), ∃ j, i ≤ j ∧ ∃ worker now, late ≤ now
    ∧ r.label j = .getNextJob worker now
    ∧ ∀ other, ((r.state j).sched.getNextJob now).1 = some other → other = k

/-- A worker that goes on whenever it has a job is free at last. -/
theorem leadsTo_free {ok : World → WorkStep → Prop} {r : InfiniteRun (work order) ok} {worker : ℕ}
    (runs : ∀ i task, (r.state i).workers worker = some task →
      ∃ input, r.label i = .operation (.run worker input)) :
    LeadsTo (fun _ => True) (fun i => (r.state i).workers worker = none) := by
  have hrank : ∀ left, LeadsTo
      (fun i => ∀ task, (r.state i).workers worker = some task → task.pc.rank < left)
      (fun i => (r.state i).workers worker = none) := by
    refine LeadsTo.of_measure ?_
    intro left i hleft
    cases has : (r.state i).workers worker with
    | none => exact ⟨i, le_refl i, Or.inl has⟩
    | some task =>
      obtain ⟨input, hlabel⟩ := runs i task has
      have htaken := r.taken i
      rw [hlabel] at htaken
      obtain ⟨task', has', hstate⟩ := operate_run (show (r.state i).operate order _ = _ from htaken)
      cases has.symm.trans has'
      refine ⟨i + 1, Nat.le_add_right i 1, Or.inr ⟨task.pc.rank, hleft task has, fun next h => ?_⟩⟩
      rw [hstate, workers_assign_self] at h
      exact (Task.step_running (RunStatus.task?_eq_some.mp h)).2
  intro i _
  refine hrank 16 i (fun task _ => ?_)
  exact Nat.lt_succ_of_le task.pc.rank_le

/-- Where there are no DAGs, a step brings none. -/
theorem noDags_step {s : Scheduler} {task : Task} (nobody : s.executor = {}) (input : RunInput) :
    (task.step order input s).1.executor = {}
      ∧ (task.step order input s).1.core.maxSize = s.core.maxSize := by
  have hkept : Task.StepKept order task.job
      (fun s' => s'.executor = {} ∧ s'.core.maxSize = s.core.maxSize) :=
    { transition := fun hok h => ⟨h.1, by
        rw [(transition_ok hok).2]
        exact h.2⟩
      modifyJob := fun _ _ h => h
      count := fun _ _ h => h
      notifyComplete := fun now h => by
        rw [notifyComplete_of_noDags h.1]
        exact h
      notifyFailed := fun now error h => by
        rw [notifyFailed_of_noDags h.1]
        exact h
      pushRetry := fun h => h
      call := fun _ _ h => h }
  exact hkept.step (fun _ _ {_ _} _ _ _ _ h => h) (fun _ _ _ {_} h => h) ⟨nobody, rfl⟩ input

/-- Nor does `get_next_job`. -/
theorem noDags_getNextJob (s : Scheduler) (now : Time) :
    (s.getNextJob now).2.executor = s.executor
      ∧ (s.getNextJob now).2.core.maxSize = s.core.maxSize := by
  rcases getNextJob_cases now s with heq | heq <;> rw [heq] <;> exact ⟨rfl, rfl⟩

/-! ## The worker is alone with the job -/

/-- **A worker alone with a job**: no other worker has one, no other job is queued, and there are
no DAGs. -/
structure Alone (k : UUID) (w : World) : Prop where
  noDags : w.sched.executor = {}
  lacks : ∀ other, other ≠ k → w.sched.core.queue.Lacks other
  tasks : ∀ i task, w.workers i = some task → i = 0 ∧ task.job = k

/-- It goes on with the job, or asks for it. -/
theorem Alone.next (h : Alone k w) (order : IterationOrder UUID) (input : RunInput) (i : ℕ) :
    ∃ l w', Others k w l ∧ w.work order l = some w'
      ∧ ((∀ task, w.workers 0 = some task → l = .operation (.run 0 input))
        ∧ (w.workers 0 = none → l = .getNextJob 0 i)) ∧ Alone k w' := by
  cases has : w.workers 0 with
  | some task =>
    have hjob := (h.tasks 0 task has).2
    refine ⟨.operation (.run 0 input), _, trivial, work_run has order input,
      ⟨fun _ _ => rfl, fun hnone => nomatch hnone⟩, (noDags_step h.noDags input).1,
      fun other hother => ?_, fun j t ht => ?_⟩
    · have hspared : Scheduler.Spared other w.sched (task.step order input w.sched).1 :=
        .step (Or.inr h.noDags) (by rw [hjob]; exact Ne.symm hother) input
      exact (h.lacks other hother).othersMoves hspared.core.queue
    · rcases workers_assign ht with ⟨rfl, hnext⟩ | ⟨-, hold⟩
      · exact ⟨rfl, (Task.step_running (RunStatus.task?_eq_some.mp hnext)).1.trans hjob⟩
      · exact h.tasks j t hold
  | none =>
    have hnot : ∀ other, other ≠ k → (w.sched.getNextJob i).1 ≠ some other :=
      fun other hother => not_popped (h.lacks other hother) i
    refine ⟨.getNextJob 0 i, _, trivial, work_getNextJob has order i,
      ⟨(fun _ hsome => nomatch hsome), fun _ => rfl⟩, ?_, fun other hother => ?_, fun j t ht => ?_⟩
    · exact (noDags_getNextJob w.sched i).1.trans h.noDags
    · exact (h.lacks other hother).othersMoves
        (Scheduler.Spared.getNextJob (hnot other hother)).core.queue
    · rcases workers_assign ht with ⟨rfl, hnext⟩ | ⟨-, hold⟩
      · obtain ⟨job, hjob, rfl⟩ := Option.map_eq_some_iff.mp hnext
        refine ⟨rfl, ?_⟩
        by_contra hother
        exact hnot job hother hjob
      · exact h.tasks j t hold

/-- **A worker alone with a job serves it**, whatever its function does. -/
theorem Alone.exists_served (h : Alone k w) (order : IterationOrder UUID) (input : RunInput) :
    ∃ r : InfiniteRun (work order) (Others k), r.state 0 = w ∧ Served k r
      ∧ (∀ i o, (r.state i).execution? k (r.label i) = some o → o = input.outcome)
      ∧ ∀ i f, (r.state i).failure? k (r.label i) = some f → f = (input.handled, input.draw) := by
  obtain ⟨r, hstart, hr⟩ := InfiniteRun.exists_of_invariant
    (fun i w h => Alone.next (w := w) h order input i) h
  refine ⟨r, hstart, ⟨fun i worker task has _ => ?_, fun i late => ?_⟩, fun i o ho => ?_,
    fun i f hf => ?_⟩
  · obtain ⟨rfl, -⟩ := (hr i).1.tasks worker task has
    exact ⟨i, le_refl i, input, (hr i).2.1 task has⟩
  · obtain ⟨late', hlate⟩ := exists_nat_ge late
    obtain ⟨j, hij, hfree⟩ := leadsTo_free (fun i task has => ⟨input, (hr i).2.1 task has⟩)
      (max i late') trivial
    refine ⟨j, le_of_max_le_left hij, 0, j, hlate.trans (Nat.cast_le.mpr (le_of_max_le_right hij)),
      (hr j).2.2 hfree, fun other hother => ?_⟩
    by_contra hne
    exact not_popped ((hr j).1.lacks other hne) j hother
  · cases has : (r.state i).workers 0 with
    | none =>
      rw [(hr i).2.2 has] at ho
      cases ho
    | some task =>
      rw [(hr i).2.1 task has, execution?] at ho
      split at ho
      · exact (Option.some.inj ho).symm
      · cases ho
  · cases has : (r.state i).workers 0 with
    | none =>
      rw [(hr i).2.2 has] at hf
      cases hf
    | some task =>
      rw [(hr i).2.1 task has, failure?] at hf
      split at hf
      · exact (Option.some.inj hf).symm
      · cases hf

/-! ## Urgent jobs come again and again -/

/-- An urgent job is due. -/
def Urgent (w : World) : Prop :=
  ∃ job entry, w.sched.core.Queued job entry ∧ entry.priority = 0 ∧ entry.scheduledTime ≤ 0

/-- **A job that is not urgent**, where there is no end of urgent ones to submit: their ids are
the ones from `next` on. One worker takes them, and there are no DAGs. It shows what fairness to
the workers alone is worth: the patient job waits for ever. -/
structure Supplied (k : UUID) (next : ℕ) (w : World) : Prop where
  noDags : w.sched.executor = {}
  running : w.sched.running = true
  unbounded : w.sched.core.queue.Open
  maxSize : w.sched.core.maxSize = none
  stored : k ∈ w.sched.core.store
  queued : ∃ entry, w.sched.core.Queued k entry
  patient : (w.sched.core.jobs.get k).priority ≠ .critical
  known : k < next
  fresh : ∀ job, next ≤ job → job ∉ w.sched.core.store ∧ w.sched.core.queue.Lacks job
    ∧ w.sched.core.jobs.get job = { id := job, priority := .critical }
  tasks : ∀ i task, w.workers i = some task → i = 0 ∧ task.job < next ∧ task.job ≠ k

namespace Supplied

variable {next : ℕ}

/-- What leaves the job and the urgent ones to come alone. -/
theorem spared (h : Supplied k next w)
    (spared : ∀ job, job = k ∨ next < job → w.sched.Spared job w'.sched)
    (noDags : w'.sched.executor = {}) (maxSize : w'.sched.core.maxSize = w.sched.core.maxSize)
    (tasks : ∀ i task, w'.workers i = some task → i = 0 ∧ task.job ≤ next ∧ task.job ≠ k) :
    Supplied k (next + 1) w' where
  noDags := noDags
  running := (spared k (Or.inl rfl)).running.trans h.running
  unbounded := h.unbounded.othersMoves (spared k (Or.inl rfl)).core.queue
  maxSize := maxSize.trans h.maxSize
  stored := (spared k (Or.inl rfl)).core.stored.mpr h.stored
  queued := by
    obtain ⟨entry, hqueued⟩ := h.queued
    exact ⟨entry, hqueued.spared (spared k (Or.inl rfl)).core⟩
  patient := by
    rw [(spared k (Or.inl rfl)).core.job]
    exact h.patient
  known := Nat.lt_succ_of_lt h.known
  fresh job hjob := by
    obtain ⟨hunknown, hlacks, hget⟩ := h.fresh job (Nat.le_of_succ_le hjob)
    have hspared := (spared job (Or.inr hjob)).core
    exact ⟨fun hin => hunknown (hspared.stored.mp hin), hlacks.othersMoves hspared.queue,
      hspared.job.trans hget⟩
  tasks i task ht := by
    obtain ⟨hi, hle, hne⟩ := tasks i task ht
    exact ⟨hi, Nat.lt_succ_of_le hle, hne⟩

/-- The job is not handed out as long as an urgent one is due. -/
theorem not_popped (h : Supplied k next w) (urgent : w.Urgent) {now : Time} (late : 0 ≤ now) :
    (w.sched.getNextJob now).1 ≠ some k := by
  intro hpopped
  obtain ⟨entry, hqueued⟩ := h.queued
  obtain ⟨job, entry', hqueued', hpriority, hdue⟩ := urgent
  refine hqueued.waits.not_popped hqueued'.waits.mem_live (hdue.trans late) ?_
    (getNextJob_popped hpopped).1
  rw [hpriority, hqueued.priority]
  cases hk : (w.sched.core.jobs.get k).priority with
  | critical => exact absurd hk h.patient
  | _ => decide

/-- **The next urgent job is submitted**, and due. It stands before the patient job in the queue,
which is not handed out while it is there. -/
theorem submit (h : Supplied k next w) :
    Supplied k (next + 1) (w.withSched (w.sched.submit next).1)
      ∧ (w.withSched (w.sched.submit next).1).Urgent := by
  obtain ⟨hunknown, hlacks, hget⟩ := h.fresh next (le_refl next)
  have hpending : w.sched.core.state next = .pending := congrArg Job.state hget
  obtain ⟨-, hjob, hmaxSize, -, entry, hqueued⟩ :=
    queued_submit hlacks (submit_ok hunknown hpending h.maxSize h.unbounded)
  rw [hget] at hjob
  refine ⟨h.spared (fun job hjob => ?_) h.noDags hmaxSize (fun i task ht => ?_), next, entry,
    hqueued, ?_, ?_⟩
  · refine .withCore (.submit next (Or.inr ?_))
    rcases hjob with rfl | hlater
    · exact (Nat.ne_of_lt h.known).symm
    · exact Nat.ne_of_lt hlater
  · obtain ⟨hi, hlt, hne⟩ := h.tasks i task ht
    exact ⟨hi, le_of_lt hlt, hne⟩
  · rw [hqueued.priority, hjob]
    rfl
  · rw [hqueued.scheduledTime, hjob]
    show (0 : ℚ) - 0 ≤ 0
    rw [sub_zero]

/-- **The next step**: the worker goes on, or asks for a job where an urgent one is due, or the
next urgent one is submitted. -/
theorem next_step (h : Supplied k next w) (order : IterationOrder UUID) {now : Time}
    (late : 0 ≤ now) :
    ∃ l w', Others k w l ∧ w.work order l = some w'
      ∧ ((∀ task, w.workers 0 = some task → l = .operation (.run 0 .returning))
        ∧ (w.workers 0 = none → w.Urgent → l = .getNextJob 0 now)
        ∧ (w.workers 0 = none → ¬ w.Urgent → w'.workers 0 = none ∧ w'.Urgent)
        ∧ w.execution? k l = none)
      ∧ Supplied k (next + 1) w' := by
  cases has : w.workers 0 with
  | some task =>
    -- the worker has an urgent job in its hands, and goes on with it
    obtain ⟨-, hlt, hne⟩ := h.tasks 0 task has
    obtain ⟨hnoDags, hmaxSize⟩ : (task.step order .returning w.sched).1.executor = {} ∧ _ :=
      noDags_step h.noDags .returning
    refine ⟨.operation (.run 0 .returning), _, trivial, work_run has order .returning,
      ⟨fun _ _ => rfl, (fun hnone => nomatch hnone), (fun hnone => nomatch hnone), ?_⟩,
      h.spared (fun job hjob => ?_) hnoDags hmaxSize (fun i t ht => ?_)⟩
    · have hother : ∀ t, w.workers 0 = some t → t.job ≠ k := fun t ht => (h.tasks 0 t ht).2.2
      exact if_neg (by rw [isAt_of_other hother]; exact Bool.false_ne_true)
    · refine .step (Or.inr h.noDags) ?_ .returning
      rcases hjob with rfl | hlater
      · exact hne
      · exact Nat.ne_of_lt (hlt.trans hlater)
    · rcases workers_assign ht with ⟨rfl, hnext⟩ | ⟨-, hold⟩
      · rw [(Task.step_running (RunStatus.task?_eq_some.mp hnext)).1]
        exact ⟨rfl, le_of_lt hlt, hne⟩
      · obtain ⟨hi, hlt', hne'⟩ := h.tasks i t hold
        exact ⟨hi, le_of_lt hlt', hne'⟩
  | none =>
    by_cases hurgent : w.Urgent
    · -- it has none, and an urgent one waits: that is what it gets
      have hpatient := h.not_popped hurgent late
      have hfresh : ∀ job, next ≤ job → (w.sched.getNextJob now).1 ≠ some job :=
        fun job hjob => World.not_popped (h.fresh job hjob).2.1 now
      obtain ⟨hnoDags, hmaxSize⟩ := noDags_getNextJob w.sched now
      refine ⟨.getNextJob 0 now, _, trivial, work_getNextJob has order now,
        ⟨(fun _ hsome => nomatch hsome), fun _ _ => rfl, fun _ hnot => absurd hurgent hnot, rfl⟩,
        h.spared (fun job hjob => ?_) (hnoDags.trans h.noDags) hmaxSize (fun i t ht => ?_)⟩
      · refine .getNextJob ?_
        rcases hjob with rfl | hlater
        · exact hpatient
        · exact hfresh job (le_of_lt hlater)
      · rcases workers_assign ht with ⟨rfl, hnext⟩ | ⟨-, hold⟩
        · obtain ⟨job, hjob, rfl⟩ := Option.map_eq_some_iff.mp hnext
          refine ⟨rfl, ?_, ?_⟩
          · by_contra hle
            exact hfresh job (le_of_lt (not_le.mp hle)) hjob
          · rintro rfl
            exact hpatient hjob
        · obtain ⟨hi, hlt', hne'⟩ := h.tasks i t hold
          exact ⟨hi, le_of_lt hlt', hne'⟩
    · -- none waits any more: the next one is submitted
      obtain ⟨hsupplied, hnow⟩ := h.submit
      exact ⟨.operation (.call (.submit next)), _, trivial, rfl,
        ⟨(fun _ hsome => nomatch hsome), fun _ hyes => absurd hyes hurgent,
          fun _ _ => ⟨has, hnow⟩, rfl⟩, hsupplied⟩

/-- **The job starves**: workers keep calling, and it is never executed. -/
theorem exists_starving (h : Supplied k next w) (order : IterationOrder UUID) :
    ∃ r : InfiniteRun (work order) (Others k), r.state 0 = w ∧ KeepsCalling r
      ∧ ∀ i, (r.state i).execution? k (r.label i) = none := by
  obtain ⟨r, hstart, hr⟩ := InfiniteRun.exists_of_invariant
    (I := fun i w => Supplied k (next + i) w)
    (fun i w h => Supplied.next_step (w := w) h order (Nat.cast_nonneg i)) h
  refine ⟨r, hstart, ⟨fun i worker task has => ?_, fun i late => ?_⟩, fun i => (hr i).2.2.2.2⟩
  · obtain ⟨rfl, -⟩ := (hr i).1.tasks worker task has
    exact ⟨i, le_refl i, .returning, (hr i).2.1 task has⟩
  · obtain ⟨late', hlate⟩ := exists_nat_ge late
    obtain ⟨j, hij, hfree⟩ := leadsTo_free (fun i task has => ⟨.returning, (hr i).2.1 task has⟩)
      (max i late') trivial
    have hlater : ∀ j', j ≤ j' → late ≤ (j' : Time) := fun j' hj' =>
      hlate.trans (Nat.cast_le.mpr ((le_of_max_le_right hij).trans hj'))
    by_cases hurgent : (r.state j).Urgent
    · exact ⟨j, le_of_max_le_left hij, 0, j, hlater j (le_refl j), (hr j).2.2.1 hfree hurgent⟩
    · obtain ⟨hfree', hurgent'⟩ := (hr j).2.2.2.1 hfree hurgent
      exact ⟨j + 1, (le_of_max_le_left hij).trans (Nat.le_add_right j 1), 0, (j + 1 : ℕ),
        hlater (j + 1) (Nat.le_add_right j 1), (hr (j + 1)).2.2.1 hfree' hurgent'⟩

end Supplied

end World

end JobOrchestrator
