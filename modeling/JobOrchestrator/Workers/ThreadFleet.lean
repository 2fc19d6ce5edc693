import Mathlib.Algebra.BigOperators.Group.Finset.Piecewise
import Mathlib.Algebra.GroupWithZero.Nat
import Mathlib.Algebra.Order.BigOperators.Group.Finset
import JobOrchestrator.Workers.ThreadWorker

/-!
# What thread workers do with their jobs

Two things a worker says of itself are kept by its own thread, and by nobody else: how many jobs it
has completed and failed, and whether it has ended.

The statistics of all workers together are those of the scheduler, but for the runs that are still
going on: a job that fails and is retried counts as a failure for its worker, and as a
retry for the scheduler (`statistics_agree`). Nobody holds a lock where a counter grows: that
is a step of its own, and the `+=` itself is taken as one step.

A worker that was told to stop ends, whatever others do meanwhile: it takes at most one more job,
and what it has taken it runs to the end (`stopped_ends`). What `_execute_job` does at its end –
the state is IDLE again, also where `stop` has written STOPPING – makes no difference, as the
loop asks the event first.
-/

namespace JobOrchestrator

/-! ## The statistics -/

/-- Runs that the worker has counted. -/
def ThreadWorker.outcomes (success : Bool) (w : ThreadWorker) : ℕ :=
  if success then w.jobsCompleted else w.jobsFailed

/-- Runs that the scheduler has counted, and the worker has not. -/
def ThreadPc.counted (success : Bool) : ThreadPc → ℕ
  | runJob task _ => task.pc.counted success
  | count r _ => r.counted success
  | _ => 0

/-- The thread is at work on a job. -/
def ThreadPc.working : ThreadPc → Bool
  | runJob _ _ | count _ _ | finish => true
  | _ => false

/-- The thread has no job, or has not begun with it. -/
def ThreadPc.free : ThreadPc → Bool
  | checkEvent | checkState | getNextJob | execute _ | ending | ended => true
  | _ => false

namespace ThreadWorker

variable {order : IterationOrder UUID} {success : Bool} {w w' : ThreadWorker} {s : Scheduler}
  {input : ThreadInput} {r : ThreadWorker × Scheduler}

/-- **The worker is in order**: its run fits its result, and it names a job as long as it works.
The result that a run carries is the one that it has counted, so what the worker counts
afterwards agrees with it. -/
structure InOrder (w : ThreadWorker) : Prop where
  fits : ∀ task startTime, w.thread = .runJob task startTime → task.pc.Fits
  current : w.currentJob.isSome = w.thread.working

/-- All runs of the worker that the scheduler has counted. -/
def known (success : Bool) (w : ThreadWorker) : ℕ := w.outcomes success + w.thread.counted success

theorem outcomes_countResult (result : JobResult) (startTime now : Time) :
    (w.countResult result startTime now).outcomes success
      = w.outcomes success + result.counted success := by
  unfold outcomes countResult JobResult.counted
  cases success <;> cases result.success <;> rfl

/-- What a step of the thread has to keep. -/
def Agreeing (w : ThreadWorker) (s : Scheduler) (r : ThreadWorker × Scheduler) : Prop :=
  r.1.InOrder ∧ ∀ success, r.2.core.stats.outcomes success + w.known success
    = s.core.stats.outcomes success + r.1.known success

/-- The thread has no job, or has not begun with it. -/
theorem agreeing_of_free {w' : ThreadWorker} {s' : Scheduler} (h : w.InOrder)
    (before : w.thread.free = true) (after : w'.thread.free = true)
    (current : w'.currentJob = w.currentJob)
    (counted : ∀ success, w'.outcomes success = w.outcomes success)
    (sched : ∀ success, s'.core.stats.outcomes success = s.core.stats.outcomes success) :
    w.Agreeing s (w', s') := by
  have hfree : ∀ {pc : ThreadPc}, pc.free = true → pc.working = false
      ∧ (∀ success, pc.counted success = 0) ∧ ∀ task startTime, pc ≠ .runJob task startTime := by
    intro pc hpc
    cases pc <;> first | exact ⟨rfl, fun _ => rfl, fun _ _ h => (by cases h)⟩ | cases hpc
  obtain ⟨hworking, hcounted, -⟩ := hfree before
  obtain ⟨hworking', hcounted', hrun'⟩ := hfree after
  refine ⟨⟨fun task startTime hrun => absurd hrun (hrun' task startTime), ?_⟩, fun success => ?_⟩
  · rw [current, h.current, hworking, hworking']
  · simp only [known, counted, sched, hcounted, hcounted']

/-- **A step of the thread** counts for the worker what it counts for the scheduler. -/
theorem loop_agreeing (h : w.InOrder) (taken : w.loop order input s = some r) :
    w.Agreeing s r := by
  have hcurrent := h.current
  unfold loop at taken
  cases hpc : w.thread with
  | checkEvent | checkState =>
    simp only [hpc, Option.some.injEq] at taken
    subst taken
    refine agreeing_of_free h (by rw [hpc]; rfl) ?_ rfl (fun _ => rfl) (fun _ => rfl)
    show ThreadPc.free (ite _ _ _) = true
    split <;> rfl
  | getNextJob =>
    simp only [hpc, Option.some.injEq] at taken
    subst taken
    have hperform : s.perform order (.getNextJob input.now)
        = some (s.getNextJob input.now).2 := rfl
    refine agreeing_of_free h (by rw [hpc]; rfl) ?_ rfl (fun _ => rfl)
      (fun _ => Scheduler.outcomes_perform rfl hperform)
    cases hjob : (s.getNextJob input.now).1 <;> rfl
  | execute job =>
    simp only [hpc, Option.some.injEq] at taken
    subst taken
    refine ⟨⟨fun _ _ hrun => (by cases hrun; exact trivial), rfl⟩, fun success => ?_⟩
    -- the run begins: nothing of it is counted on either side
    simp only [known, hpc]
    rfl
  | runJob task startTime =>
    simp only [hpc, Option.some.injEq] at taken
    subst taken
    rw [hpc] at hcurrent
    -- one step of `run_job`: what it counts is what it still had to count
    have hstep : ∀ success, Task.Accounts success task s (task.step order input.run s) :=
      fun success => Task.step_accounts (h.fits task startTime hpc) input.run s
    have hknown : ∀ pc, (∀ success, pc.counted success
          = (task.step order input.run s).2.counted success) → ∀ success,
        (task.step order input.run s).1.core.stats.outcomes success + w.known success
          = s.core.stats.outcomes success + (w.goto pc).known success := by
      intro pc hcounted success
      have hsum := (hstep success).counted
      show _ + (w.outcomes success + w.thread.counted success)
        = _ + (w.outcomes success + pc.counted success)
      rw [hpc, hcounted success]
      show _ + (w.outcomes success + task.pc.counted success) = _
      omega
    cases hstatus : (task.step order input.run s).2 with
    | running next =>
      refine ⟨⟨fun _ _ hrun => ?_, hcurrent⟩, hknown _ (fun success => ?_)⟩
      · cases hrun
        exact (hstep true).fits next hstatus
      · rw [hstatus]
        rfl
    | returned | raised =>
      refine ⟨⟨fun _ _ hrun => (by cases hrun), hcurrent⟩, hknown _ (fun success => ?_)⟩
      rw [hstatus]
      rfl
  | count result startTime =>
    simp only [hpc, Option.some.injEq] at taken
    subst taken
    rw [hpc] at hcurrent
    refine ⟨⟨fun _ _ hrun => (by cases hrun), hcurrent⟩, fun success => ?_⟩
    -- the worker counts what its run has counted at the scheduler
    unfold known
    rw [outcomes_countResult, hpc]
    rfl
  | finish =>
    simp only [hpc, Option.some.injEq] at taken
    subst taken
    refine ⟨⟨fun _ _ hrun => (by cases hrun), rfl⟩, fun success => ?_⟩
    simp only [known, hpc]
    rfl
  | ending =>
    simp only [hpc, Option.some.injEq] at taken
    subst taken
    exact agreeing_of_free h (by rw [hpc]; rfl) rfl rfl (fun _ => rfl) (fun _ => rfl)
  | ended =>
    simp only [hpc] at taken
    cases taken

/-- What a caller of `stop` does leaves the thread and its statistics alone. -/
structure SameThread (w w' : ThreadWorker) : Prop where
  thread : w'.thread = w.thread
  currentJob : w'.currentJob = w.currentJob
  jobsCompleted : w'.jobsCompleted = w.jobsCompleted
  jobsFailed : w'.jobsFailed = w.jobsFailed
  /-- The event is not cleared. -/
  stopEvent : w.stopEvent = true → w'.stopEvent = true

theorem sameThread_stop {caller : ℕ} {wait timed : Bool}
    (taken : w.stop caller wait timed = some w') : w.SameThread w' := by
  unfold stop at taken
  split at taken
  · split at taken <;> cases taken <;> exact ⟨rfl, rfl, rfl, rfl, id⟩
  · cases taken

theorem sameThread_stopping {caller : ℕ} (taken : w.stopping caller = some w') :
    w.SameThread w' := by
  unfold stopping at taken
  split at taken
  · cases taken
  · cases taken
    exact ⟨rfl, rfl, rfl, rfl, id⟩
  · cases taken
    exact ⟨rfl, rfl, rfl, rfl, fun _ => rfl⟩
  · split at taken
    · cases taken
      exact ⟨rfl, rfl, rfl, rfl, id⟩
    · split at taken <;> cases taken
      exact ⟨rfl, rfl, rfl, rfl, id⟩
  · cases taken
    exact ⟨rfl, rfl, rfl, rfl, id⟩

theorem SameThread.inOrder (h : w.SameThread w') (before : w.InOrder) : w'.InOrder where
  fits task startTime hrun := before.fits task startTime (h.thread ▸ hrun)
  current := by rw [h.currentJob, h.thread, before.current]

theorem SameThread.known (h : w.SameThread w') : w'.known success = w.known success := by
  unfold ThreadWorker.known outcomes
  rw [h.thread, h.jobsCompleted, h.jobsFailed]

/-- A worker is started where it has no thread. -/
theorem start_some {now : Time} (taken : w.start now = some w') : w.thread = .ended
      ∧ w' = { w with
        stopEvent := false
        state := .idle
        startedAt := some now
        lastHeartbeat := some now
        thread := .checkEvent } := by
  unfold start at taken
  split at taken
  · rename_i hended
    exact ⟨hended, (Option.some.inj taken).symm⟩
  · cases taken

end ThreadWorker

namespace ThreadFleet

variable {ι : Type} [DecidableEq ι] {order : IterationOrder UUID} {f f' : ThreadFleet ι}
  {ls : List (FleetStep ι)}

/-- Clients report no runs. Clients may submit and cancel; what a run has come to is reported by
`run_job` alone. -/
def Unreported (_ : ThreadFleet ι) : FleetStep ι → Prop
  | .call op => op.reports = false
  | _ => True

instance (f : ThreadFleet ι) : (l : FleetStep ι) → Decidable (f.Unreported l)
  | .call op => inferInstanceAs (Decidable (op.reports = false))
  | .start .. | .stop .. | .stopping .. | .loop .. => isTrue trivial

/-- A sum over all workers, where one of them has changed. -/
theorem sum_update [Fintype ι] (g : ThreadWorker → ℕ) (workers : ι → ThreadWorker) (i : ι)
    (w : ThreadWorker) :
    ∑ j, g (Function.update workers i w j) + g (workers i) = ∑ j, g (workers j) + g w := by
  have hupdate : (fun j => g (Function.update workers i w j))
      = Function.update (fun j => g (workers j)) i (g w) := by
    funext j
    by_cases hj : j = i
    · subst hj
      rw [Function.update_self, Function.update_self]
    · rw [Function.update_of_ne hj, Function.update_of_ne hj]
  rw [hupdate, Finset.sum_update_of_mem (Finset.mem_univ i),
    ← Finset.add_sum_erase Finset.univ (fun j => g (workers j)) (Finset.mem_univ i),
    Finset.sdiff_singleton_eq_erase]
  omega

variable [Fintype ι]

/-- **The accounts are balanced**: what the scheduler has counted is what the workers know. What
is counted here and not yet there is known from the place of each worker. -/
structure Balanced (f : ThreadFleet ι) : Prop where
  inOrder : ∀ i, (f.workers i).InOrder
  outcomes : ∀ success, f.sched.core.stats.outcomes success
    = ∑ i, (f.workers i).known success

/-- One worker takes a step, with the scheduler: what both have counted changes by the same. -/
theorem Balanced.assign (h : f.Balanced) {i : ι} {w : ThreadWorker} {sched : Scheduler}
    (agreeing : (f.workers i).Agreeing f.sched (w, sched)) :
    Balanced { f.assign i w with sched := sched } where
  inOrder j := by
    show (Function.update f.workers i w j).InOrder
    by_cases hj : j = i
    · subst hj
      rw [Function.update_self]
      exact agreeing.1
    · rw [Function.update_of_ne hj]
      exact h.inOrder j
  outcomes success := by
    have hsum := sum_update (fun w => w.known success) f.workers i w
    have hstep := agreeing.2 success
    have hbefore := h.outcomes success
    show sched.core.stats.outcomes success
      = ∑ j, (Function.update f.workers i w j).known success
    simp only at hsum hstep
    omega

/-- A worker is stopped, which moves no statistics. -/
theorem Balanced.sameThread (h : f.Balanced) {i : ι} {w : ThreadWorker}
    (same : (f.workers i).SameThread w) : (f.assign i w).Balanced :=
  h.assign ⟨same.inOrder (h.inOrder i), fun success => by rw [same.known]⟩

/-- **Every step keeps the accounts balanced.** The step of a worker between the two counters
moves the sum of what is counted and what is known to be. -/
theorem Balanced.step (h : f.Balanced) {l : FleetStep ι} (unreported : f.Unreported l)
    (taken : f.step order l = some f') : f'.Balanced := by
  cases l with
  | call op =>
    obtain ⟨sched, hperform, rfl⟩ := Option.map_eq_some_iff.mp taken
    refine ⟨h.inOrder, fun success => ?_⟩
    exact (Scheduler.outcomes_perform unreported hperform).trans (h.outcomes success)
  | start i now =>
    obtain ⟨w, hstart, rfl⟩ := Option.map_eq_some_iff.mp taken
    obtain ⟨hended, rfl⟩ := ThreadWorker.start_some hstart
    exact h.assign (ThreadWorker.agreeing_of_free (h.inOrder i) (by rw [hended]; rfl) rfl rfl
      (fun _ => rfl) (fun _ => rfl))
  | stop i caller wait timed =>
    obtain ⟨w, hstop, rfl⟩ := Option.map_eq_some_iff.mp taken
    exact h.sameThread (ThreadWorker.sameThread_stop hstop)
  | stopping i caller =>
    obtain ⟨w, hstop, rfl⟩ := Option.map_eq_some_iff.mp taken
    exact h.sameThread (ThreadWorker.sameThread_stopping hstop)
  | loop i input =>
    obtain ⟨r, hloop, rfl⟩ := Option.map_eq_some_iff.mp taken
    exact h.assign (ThreadWorker.loop_agreeing (h.inOrder i) hloop)

/-- **The statistics agree.** For any number of workers, started and stopped at any time, and
clients that call any operation but a report: the jobs that all workers say they have completed
are never more than those the scheduler has counted, and those they say have failed never more
than those it has counted as failed or retried; and where no worker names a job, they are the
same. -/
theorem statistics_agree (order : IterationOrder UUID) {sched : Scheduler}
    (fresh : sched.core.stats = {})
    (run : GuardedRun (step order) Unreported ⟨sched, fun _ : ι => {}⟩ ls f) :
    ∑ i, (f.workers i).jobsCompleted ≤ f.sched.core.stats.jobsCompleted
      ∧ ∑ i, (f.workers i).jobsFailed
        ≤ f.sched.core.stats.jobsFailed + f.sched.core.stats.jobsRetried
      ∧ ((∀ i, (f.workers i).currentJob = none) →
        ∑ i, (f.workers i).jobsCompleted = f.sched.core.stats.jobsCompleted
          ∧ ∑ i, (f.workers i).jobsFailed
            = f.sched.core.stats.jobsFailed + f.sched.core.stats.jobsRetried) := by
  have hbalanced : f.Balanced := by
    refine run.invariant (P := Balanced) ⟨fun i => ⟨fun _ _ h => (by cases h), rfl⟩, ?_⟩
      (fun _ _ _ h unreported taken => h.step unreported taken)
    intro success
    show sched.core.stats.outcomes success = ∑ _ : ι, (ThreadWorker.known success {})
    rw [fresh]
    cases success <;> exact Finset.sum_const_zero.symm
  have hle : ∀ success, ∑ i, (f.workers i).outcomes success
      ≤ f.sched.core.stats.outcomes success := by
    intro success
    rw [hbalanced.outcomes success]
    exact Finset.sum_le_sum (fun i _ => Nat.le_add_right _ _)
  have heq : (∀ i, (f.workers i).currentJob = none) → ∀ success,
      ∑ i, (f.workers i).outcomes success = f.sched.core.stats.outcomes success := by
    intro hidle success
    rw [hbalanced.outcomes success]
    refine Finset.sum_congr rfl (fun i _ => ?_)
    -- a worker that names no job knows of nothing that it has not counted
    have hworking := (hbalanced.inOrder i).current
    rw [hidle i] at hworking
    unfold ThreadWorker.known
    cases hpc : (f.workers i).thread <;> rw [hpc] at hworking <;> first | rfl | cases hworking
  exact ⟨hle true, hle false, fun hidle => ⟨heq hidle true, heq hidle false⟩⟩

end ThreadFleet

/-! ## Stopping -/

namespace ThreadPc

/-- How many steps are left at most to a thread that was told to stop. -/
def rank : ThreadPc → ℕ
  | checkState => 23
  | getNextJob => 22
  | execute _ => 21
  | runJob task _ => task.pc.rank + 5
  | count _ _ => 4
  | finish => 3
  | checkEvent => 2
  | ending => 1
  | ended => 0

theorem rank_le (pc : ThreadPc) : pc.rank ≤ 23 := by
  cases pc with
  | runJob task startTime =>
    have hrank := task.pc.rank_le
    show task.pc.rank + 5 ≤ 23
    omega
  | _ => simp [rank]

/-- How many jobs it still takes at most. -/
def chances : ThreadPc → ℕ
  | checkState | getNextJob => 1
  | _ => 0

/-- It has just taken a job. -/
def taken : ThreadPc → Bool
  | execute _ => true
  | _ => false

/-- It is inside `run_job`. -/
def running : ThreadPc → Bool
  | runJob _ _ => true
  | _ => false

/-- The jobs that it has taken, and not run to the end. -/
def inHand : ThreadPc → ℕ
  | execute _ | runJob _ _ => 1
  | _ => 0

end ThreadPc

namespace ThreadWorker

variable {order : IterationOrder UUID} {w : ThreadWorker} {s : Scheduler} {input : ThreadInput}
  {r : ThreadWorker × Scheduler}

/-- **A step of a thread that was told to stop** comes nearer to the end, and takes a job only if
none has been taken. -/
theorem loop_stopped (told : w.stopEvent = true) (step : w.loop order input s = some r) :
    r.1.stopEvent = true ∧ r.1.thread.rank < w.thread.rank
      ∧ r.1.thread.taken.toNat + r.1.thread.chances ≤ w.thread.chances := by
  unfold loop at step
  -- a thread that finds the event set leaves its loop, and until it looks it goes forward only
  cases hpc : w.thread with
  | checkEvent =>
    simp only [hpc, told, if_true, Option.some.injEq] at step
    subst step
    exact ⟨told, by simp [goto, ThreadPc.rank], le_rfl⟩
  | checkState =>
    simp only [hpc, Option.some.injEq] at step
    subst step
    refine ⟨told, ?_, ?_⟩
    · show ThreadPc.rank (ite _ _ _) < 23
      split <;> simp [ThreadPc.rank]
    · show (ThreadPc.taken (ite _ _ _)).toNat + ThreadPc.chances (ite _ _ _) ≤ 1
      split <;> simp [ThreadPc.taken, ThreadPc.chances]
  | getNextJob =>
    simp only [hpc, Option.some.injEq] at step
    subst step
    cases hjob : (s.getNextJob input.now).1 with
    | none =>
      refine ⟨told, by simp [goto, ThreadPc.rank], ?_⟩
      simp [goto, ThreadPc.taken, ThreadPc.chances]
    | some job => exact ⟨told, by simp [goto, ThreadPc.rank], le_rfl⟩
  | execute job =>
    simp only [hpc, Option.some.injEq] at step
    subst step
    exact ⟨told, by simp [beginJob, ThreadPc.rank, RunPc.rank], le_rfl⟩
  | runJob task startTime =>
    simp only [hpc, Option.some.injEq] at step
    subst step
    cases hstatus : (task.step order input.run s).2 with
    | running next =>
      refine ⟨told, ?_, le_rfl⟩
      -- inside `run_job` the rank of the run goes down, as it does without a stop
      have hrank := (Task.step_running hstatus).2
      show next.pc.rank + 5 < task.pc.rank + 5
      omega
    | returned result => exact ⟨told, by simp [goto, ThreadPc.rank], le_rfl⟩
    | raised error => exact ⟨told, by simp [goto, ThreadPc.rank], le_rfl⟩
  | count result startTime =>
    simp only [hpc, Option.some.injEq] at step
    subst step
    exact ⟨told, by simp [countResult, ThreadPc.rank], le_rfl⟩
  | finish =>
    simp only [hpc, Option.some.injEq] at step
    subst step
    exact ⟨told, by simp [endJob, ThreadPc.rank], le_rfl⟩
  | ending =>
    simp only [hpc, Option.some.injEq] at step
    subst step
    exact ⟨told, by simp [ThreadPc.rank], le_rfl⟩
  | ended =>
    simp only [hpc] at step
    cases step

/-- **A step of a thread** takes a job, runs on with it, or comes to its end: nothing else is done
with a job in hand. -/
theorem loop_inHand (step : w.loop order input s = some r) :
    r.1.thread.taken.toNat + w.thread.inHand
      = (w.thread.running && !r.1.thread.running).toNat + r.1.thread.inHand := by
  unfold loop at step
  cases hpc : w.thread with
  | checkEvent | checkState =>
    simp only [hpc, Option.some.injEq] at step
    subst step
    show (ThreadPc.taken (ite _ _ _)).toNat + 0 = 0 + ThreadPc.inHand (ite _ _ _)
    split <;> rfl
  | getNextJob =>
    simp only [hpc, Option.some.injEq] at step
    subst step
    cases hjob : (s.getNextJob input.now).1 <;> rfl
  | runJob task startTime =>
    simp only [hpc, Option.some.injEq] at step
    subst step
    cases hstatus : (task.step order input.run s).2 <;> rfl
  | execute | count | finish | ending =>
    simp only [hpc, Option.some.injEq] at step
    subst step
    rfl
  | ended =>
    simp only [hpc] at step
    cases step

/-- A thread that has not ended takes its next step. -/
theorem isSome_loop (alive : w.thread ≠ .ended) (input : ThreadInput) (s : Scheduler) :
    (w.loop order input s).isSome = true := by
  unfold loop
  cases hpc : w.thread with
  | ended => exact absurd hpc alive
  | _ => rfl

theorem SameThread.refl (w : ThreadWorker) : w.SameThread w := ⟨rfl, rfl, rfl, rfl, id⟩

end ThreadWorker

namespace ThreadFleet

variable {ι : Type} [DecidableEq ι] {order : IterationOrder UUID} {f f' : ThreadFleet ι}
  {ls : List (FleetStep ι)} {i : ι}

/-- The worker is not started again. -/
def NotStarted (i : ι) (_ : ThreadFleet ι) : FleetStep ι → Prop
  | .start j _ => j ≠ i
  | _ => True

instance (i : ι) (f : ThreadFleet ι) : (l : FleetStep ι) → Decidable (f.NotStarted i l)
  | .start j _ => inferInstanceAs (Decidable (j ≠ i))
  | .call _ | .stop .. | .stopping .. | .loop .. => isTrue trivial

/-- A step of the worker's thread. -/
def ownStep (i : ι) (_ : ThreadFleet ι) (l : FleetStep ι) (_ : ThreadFleet ι) : Bool :=
  match l with
  | .loop j _ => decide (j = i)
  | _ => false

/-- The worker takes a job. -/
def takesJob (i : ι) (f : ThreadFleet ι) (l : FleetStep ι) (f' : ThreadFleet ι) : Bool :=
  f.ownStep i l f' && (f'.workers i).thread.taken

/-- Its `run_job` returns or raises. -/
def endsRun (i : ι) (f : ThreadFleet ι) (l : FleetStep ι) (f' : ThreadFleet ι) : Bool :=
  f.ownStep i l f' && ((f.workers i).thread.running && !(f'.workers i).thread.running)

/-- **What a step is for a worker**: one of its thread, its start, or nothing to its thread. -/
theorem step_cases (i : ι) {l : FleetStep ι} (step : f.step order l = some f') :
    (∃ input r, l = .loop i input ∧ (f.workers i).loop order input f.sched = some r
        ∧ f'.workers i = r.1)
      ∨ (∃ now w, l = .start i now ∧ (f.workers i).start now = some w ∧ f'.workers i = w)
      ∨ (∀ g, f.ownStep i l g = false) ∧ (f.workers i).SameThread (f'.workers i) := by
  -- only steps of worker `i` itself can move its thread
  have hother : ∀ {j w}, j ≠ i → (f.workers i).SameThread ((f.assign j w).workers i) := by
    intro j w hj
    show (f.workers i).SameThread (Function.update f.workers j w i)
    rw [Function.update_of_ne (Ne.symm hj)]
    exact .refl _
  have hself : ∀ {j w}, (f.workers j).SameThread w →
      (f.workers i).SameThread ((f.assign j w).workers i) := by
    intro j w hsame
    by_cases hj : j = i
    · subst hj
      show (f.workers j).SameThread (Function.update f.workers j w j)
      rw [Function.update_self]
      exact hsame
    · exact hother hj
  cases l with
  | call op =>
    obtain ⟨sched, -, rfl⟩ := Option.map_eq_some_iff.mp step
    exact Or.inr (Or.inr ⟨fun _ => rfl, .refl _⟩)
  | start j now =>
    obtain ⟨w, hstart, rfl⟩ := Option.map_eq_some_iff.mp step
    by_cases hj : j = i
    · subst hj
      exact Or.inr (Or.inl ⟨now, w, rfl, hstart, Function.update_self ..⟩)
    · exact Or.inr (Or.inr ⟨fun _ => rfl, hother hj⟩)
  | stop j caller wait timed =>
    obtain ⟨w, hstop, rfl⟩ := Option.map_eq_some_iff.mp step
    exact Or.inr (Or.inr ⟨fun _ => rfl, hself (ThreadWorker.sameThread_stop hstop)⟩)
  | stopping j caller =>
    obtain ⟨w, hstop, rfl⟩ := Option.map_eq_some_iff.mp step
    exact Or.inr (Or.inr ⟨fun _ => rfl, hself (ThreadWorker.sameThread_stopping hstop)⟩)
  | loop j input =>
    obtain ⟨r, hloop, rfl⟩ := Option.map_eq_some_iff.mp step
    by_cases hj : j = i
    · subst hj
      exact Or.inl ⟨input, r, rfl, hloop, Function.update_self ..⟩
    · exact Or.inr (Or.inr ⟨fun _ => decide_eq_false hj, hother hj⟩)

/-- **Every job that was taken is run to its end**, or still in hand. -/
theorem taken_add_inHand (i : ι) {ok : ThreadFleet ι → FleetStep ι → Prop}
    (run : GuardedRun (step order) ok f ls f') :
    GuardedRun.tally (step order) (takesJob i) f ls + (f.workers i).thread.inHand
      = GuardedRun.tally (step order) (endsRun i) f ls + (f'.workers i).thread.inHand := by
  induction run with
  | nil => rfl
  | @snoc g f' ls l run guard step ih =>
    rw [GuardedRun.tally_snoc run step, GuardedRun.tally_snoc run step]
    obtain ⟨input, r, rfl, hloop, hworker⟩ | ⟨now, w, rfl, hstart, hworker⟩ | ⟨hother, hsame⟩ :=
      step_cases i step
    · have hstep := ThreadWorker.loop_inHand hloop
      have htakes : g.takesJob i (.loop i input) f' = r.1.thread.taken := by
        simp [takesJob, ownStep, hworker]
      have hends : g.endsRun i (.loop i input) f'
          = ((g.workers i).thread.running && !r.1.thread.running) := by
        simp [endsRun, ownStep, hworker]
      rw [htakes, hends, hworker]
      simp only [Bool.toNat] at hstep
      simp only [Bool.cond_eq_ite] at hstep
      omega
    · obtain ⟨hended, rfl⟩ := ThreadWorker.start_some hstart
      have hbefore : (g.workers i).thread.inHand = 0 := by rw [hended]; rfl
      rw [hbefore] at ih
      rw [hworker]
      exact ih
    · have htakes : g.takesJob i l f' = false := by simp [takesJob, hother]
      have hends : g.endsRun i l f' = false := by simp [endsRun, hother]
      rw [htakes, hends, hsame.thread]
      exact ih

/-- **A worker that was told to stop** has a bounded number of steps left, and takes at most one
more job. -/
theorem stopped_bounds (run : GuardedRun (step order) (NotStarted i) f ls f')
    (told : (f.workers i).stopEvent = true) : (f'.workers i).stopEvent = true
      ∧ GuardedRun.tally (step order) (ownStep i) f ls + (f'.workers i).thread.rank
        ≤ (f.workers i).thread.rank
      ∧ GuardedRun.tally (step order) (takesJob i) f ls + (f'.workers i).thread.chances
        ≤ (f.workers i).thread.chances := by
  induction run with
  | nil => exact ⟨told, (Nat.zero_add _).le, (Nat.zero_add _).le⟩
  | @snoc g f' ls l run guard step ih =>
    obtain ⟨htold, hrank, hchances⟩ := ih
    rw [GuardedRun.tally_snoc run step, GuardedRun.tally_snoc run step]
    obtain ⟨input, r, rfl, hloop, hworker⟩ | ⟨now, w, rfl, -⟩ | ⟨hother, hsame⟩ :=
      step_cases i step
    · obtain ⟨htold', hrank', hchances'⟩ := ThreadWorker.loop_stopped htold hloop
      have hown : g.ownStep i (.loop i input) f' = true := by simp [ownStep]
      have htakes : g.takesJob i (.loop i input) f' = r.1.thread.taken := by
        simp [takesJob, ownStep, hworker]
      rw [hown, htakes, hworker]
      simp only [Bool.toNat, Bool.cond_eq_ite] at hchances'
      refine ⟨htold', ?_, ?_⟩
      · simp only [if_true]
        omega
      · omega
    · exact absurd rfl guard
    · have hown : g.ownStep i l f' = false := hother f'
      have htakes : g.takesJob i l f' = false := by simp [takesJob, hother]
      rw [hown, htakes, hsame.thread]
      exact ⟨hsame.stopEvent htold, hrank, hchances⟩

/-- **A worker that was told to stop ends, and leaves no job behind.** Whatever clients, other
workers and callers of `stop` do meanwhile, from the moment its event is set until it is started
again: its thread takes at most 23 more steps, each of which it can take as long as it has not
ended; it takes at most one more job; and when it has ended, it has called `run_job` to the end
for every job that it has taken since, and for the one that it had in hand. -/
theorem stopped_ends (order : IterationOrder UUID)
    (run : GuardedRun (step order) (NotStarted i) f ls f')
    (told : (f.workers i).stopEvent = true) :
    GuardedRun.tally (step order) (ownStep i) f ls ≤ 23
      ∧ ((f'.workers i).thread ≠ .ended → ∀ input, (f'.step order (.loop i input)).isSome = true)
      ∧ GuardedRun.tally (step order) (takesJob i) f ls ≤ 1
      ∧ ((f'.workers i).thread = .ended → GuardedRun.tally (step order) (endsRun i) f ls
        = GuardedRun.tally (step order) (takesJob i) f ls + (f.workers i).thread.inHand) := by
  obtain ⟨-, hrank, hchances⟩ := stopped_bounds run told
  have hbound := (f.workers i).thread.rank_le
  have hone : (f.workers i).thread.chances ≤ 1 := by
    cases (f.workers i).thread <;> simp [ThreadPc.chances]
  refine ⟨by omega, fun alive input => ?_, by omega, fun hended => ?_⟩
  · show (((f'.workers i).loop order input f'.sched).map _).isSome = true
    rw [Option.isSome_map]
    exact ThreadWorker.isSome_loop alive input f'.sched
  · have hjobs := taken_add_inHand i run
    rw [hended] at hjobs
    exact hjobs.symm

/-! ## Two runs -/

/-- **One worker completes its job, and the other's fails** and is retried. -/
theorem statistics_agree_of_two :
    ∃ f : ThreadFleet Bool, ∑ i, (f.workers i).jobsCompleted = 1
      ∧ f.sched.core.stats.jobsCompleted = 1 ∧ ∑ i, (f.workers i).jobsFailed = 1
      ∧ f.sched.core.stats.jobsFailed + f.sched.core.stats.jobsRetried = 1 := by
  obtain ⟨f, hrun, htest⟩ : ∃ f, GuardedRun (step .increasing) Unreported
        ⟨Scheduler.bare none, fun _ : Bool => {}⟩
        ([.call (.submit 1), .call (.submit 2), .start true 0, .start false 0]
          ++ List.replicate 16 (.loop true {})
          ++ List.replicate 16 (.loop false { now := 1, run := .raising })) f
      ∧ decide ((∀ i, (f.workers i).currentJob = none) ∧ f.sched.core.stats.jobsCompleted = 1
        ∧ f.sched.core.stats.jobsFailed + f.sched.core.stats.jobsRetried = 1) = true :=
    GuardedRun.exists_of_replay (fun _ _ h => of_decide_eq_true h) (by decide +kernel)
  obtain ⟨hidle, hcompleted, hfailed⟩ := of_decide_eq_true htest
  obtain ⟨-, -, hagree⟩ := statistics_agree .increasing rfl hrun
  obtain ⟨hsum, hsum'⟩ := hagree hidle
  exact ⟨f, hsum.trans hcompleted, hcompleted, hsum'.trans hfailed, hfailed⟩

/-- **A worker that is told to stop while it runs a job** ends with the run. -/
theorem stopped_ends_inside_run :
    ∃ f f' : ThreadFleet Bool, (f.workers true).thread.running = true
      ∧ (f'.workers true).thread.rank = 0
      ∧ GuardedRun.tally (step .increasing) (takesJob true) f
        (List.replicate 12 (.loop true {})) ≤ 1 := by
  obtain ⟨f, -, htest⟩ : ∃ f, GuardedRun (step .increasing) Unreported
        ⟨Scheduler.bare none, fun _ : Bool => {}⟩
        ([.call (.submit 1), .start true 0] ++ List.replicate 6 (.loop true {})
          ++ [.stop true 0 true false, .stopping true 0, .stopping true 0]) f
      ∧ ((f.workers true).stopEvent && (f.workers true).thread.running
        && (GuardedRun.replay (step .increasing) (fun f l => decide (f.NotStarted true l)) f
          (List.replicate 12 (.loop true {}))).any
            (fun f' => decide ((f'.workers true).thread.rank = 0))) = true :=
    GuardedRun.exists_of_replay (fun _ _ h => of_decide_eq_true h) (by decide +kernel)
  rw [Bool.and_eq_true, Bool.and_eq_true] at htest
  obtain ⟨⟨htold, hrunning⟩, hreplay⟩ := htest
  obtain ⟨f', hrun, hended⟩ : ∃ f', GuardedRun (step .increasing) (NotStarted true) f _ f' ∧ _ :=
    GuardedRun.exists_of_replay (fun _ _ h => of_decide_eq_true h) hreplay
  exact ⟨f, f', hrunning, of_decide_eq_true hended, (stopped_ends .increasing hrun htold).2.2.1⟩

end ThreadFleet

end JobOrchestrator
