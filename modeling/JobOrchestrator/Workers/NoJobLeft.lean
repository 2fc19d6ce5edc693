import JobOrchestrator.Workers.AsyncWorker
import JobOrchestrator.Workers.ProcessWorker

/-!
# Do workers leave no job behind?

When a worker has ended, nobody has the jobs that it got and did not report. The
coordinator of a process worker is stopped first: its current job, and a result that is
on the way, are nobody's from then on. A task of an async worker that is cancelled drops
its job. And what they do report, the scheduler refuses, since a job that comes from
`get_next_job` is SCHEDULED and no worker makes it RUNNING: the process worker then keeps
the job until it ends, the async worker drops it.

So workers leave no job in the runs in which they are careful, `workers_leave_none`:
what they let go of is settled, or a report of it is taken.
-/

namespace JobOrchestrator

open Workplace

/-- **Careful workers leave no job**: in every run of a process worker or of an async worker, from
its start, in whatever interleaving with callers of `stop` and with what others do at the
scheduler, in which each of its steps is careful. -/
theorem workers_leave_none (order : IterationOrder UUID) :
    (∀ world ls w, GuardedRun (step order ProcessWorker.machine) (Guard ProcessWorker.Careful)
        (init world {}) ls w → w.NoneLeft ProcessWorker.machine)
      ∧ ∀ maxConcurrentJobs world ls w,
        GuardedRun (step order AsyncWorker.machine) (Guard AsyncWorker.Careful)
          (init world { maxConcurrentJobs := maxConcurrentJobs }) ls w →
            w.NoneLeft AsyncWorker.machine :=
  ⟨fun _ _ _ run => none_left ProcessWorker.enough_careful run,
    fun _ _ _ _ run => none_left AsyncWorker.enough_careful run⟩

/-! ## Runs of the two workers -/

/-- The worker takes so many steps of one kind. -/
def WorkplaceStep.times {ι : Type} (k : ℕ) (input : ι) : List (WorkplaceStep ι) :=
  List.replicate k (.own input)

open WorkplaceStep (times)

/-- A process worker is stopped while its process executes a job. The others do something just
before that. -/
def ProcessWorker.stoppedSteps (others : List OperationStep) : List (WorkplaceStep ProcessStep) :=
  .other (.call (.submit 1)) :: times 7 (.coordinate {})
    ++ times 2 (.execute (.returned .none) true)
    ++ others.map .other
    ++ .own (.stop 0 true false) :: times 2 (.stopping 0)
    ++ times 1 (.coordinate {}) ++ times 3 (.stopping 0)
    ++ times 3 (.execute (.returned .none) true) ++ times 4 (.stopping 0)

/-- An async worker is stopped while a task executes a job. The others do something just before
that. -/
def AsyncWorker.stoppedSteps (others : List OperationStep) : List (WorkplaceStep AsyncStep) :=
  .other (.call (.submit 1)) :: times 5 (.loop 0 false)
    ++ times 2 (.task 0 {})
    ++ others.map .other
    ++ .own (.stop 0 true false) :: times 3 (.stopping 0)
    ++ times 1 .cancelAll ++ times 1 (.task 0 {}) ++ times 3 (.loop 0 false)
    ++ times 1 (.stopping 0)

/-- A scheduler without jobs, and nobody using it. -/
def World.unused : World := .init (.bare none)

/-- A job that was cancelled before the worker was stopped. -/
theorem workers_leave_none_cancelled :
    (∃ w : Workplace ProcessWorker, w.got = {1} ∧ w.NoneLeft ProcessWorker.machine)
      ∧ ∃ w : Workplace AsyncWorker, w.got = {1} ∧ w.NoneLeft AsyncWorker.machine := by
  have hprocess : (GuardedRun.replay (step .increasing ProcessWorker.machine)
      (fun w l => w.Guard ProcessWorker.Careful l) (init .unused {})
      (ProcessWorker.stoppedSteps [.call (.cancelJob 1 0)])).any
      (fun w => w.got = {1} ∧ w.worker.hasEnded = true) = true := by
    decide +kernel
  have hasync : (GuardedRun.replay (step .increasing AsyncWorker.machine)
      (fun w l => w.Guard AsyncWorker.Careful l) (init .unused { maxConcurrentJobs := 10 })
      (AsyncWorker.stoppedSteps [.call (.cancelJob 1 0)])).any
      (fun w => w.got = {1} ∧ w.worker.hasEnded = true) = true := by
    decide +kernel
  obtain ⟨w, run, htest⟩ := GuardedRun.exists_of_replay
    (fun _ _ h => of_decide_eq_true h) hprocess
  obtain ⟨w', run', htest'⟩ := GuardedRun.exists_of_replay
    (fun _ _ h => of_decide_eq_true h) hasync
  exact ⟨⟨w, (of_decide_eq_true htest).1, (workers_leave_none .increasing).1 _ _ _ run⟩,
    w', (of_decide_eq_true htest').1, (workers_leave_none .increasing).2 10 _ _ _ run'⟩

/-- **The job is left**: the worker that got it has ended, and it is SCHEDULED, not in the queue,
and was neither reported nor taken by somebody else. -/
def Workplace.Leaves {σ ι : Type} (m : WorkerMachine σ ι) (w : Workplace σ) (k : UUID) : Prop :=
  m.ended w.worker = true ∧ k ∈ w.got ∧ k ∉ w.reported ∧ k ∉ w.taken
    ∧ w.world.sched.core.queue.contains k = false ∧ w.world.sched.core.state k = .scheduled

instance {σ ι : Type} (m : WorkerMachine σ ι) (w : Workplace σ) (k : UUID) :
    Decidable (w.Leaves m k) := inferInstanceAs (Decidable (_ ∧ _))

theorem Workplace.Leaves.not_noneLeft {σ ι : Type} {m : WorkerMachine σ ι} {w : Workplace σ}
    {k : UUID} (h : w.Leaves m k) : ¬ w.NoneLeft m := by
  obtain ⟨hended, hgot, hreported, htaken, hcontains, hstate⟩ := h
  intro hnone
  rcases (hnone hended k hgot).1 with h | h | h | h
  · exact hreported h
  · rw [hcontains] at h
    cases h
  · rw [hstate] at h
    cases h
  · exact htaken h

/-- **Stopping a worker loses the job that it executes.** The process executes it to the end, and
its result stays in a queue that nobody reads; the task is cancelled. -/
theorem stopped_leave_job :
    (∃ w, GuardedRun (step .increasing ProcessWorker.machine) (Guard fun _ _ => True)
        (init .unused {}) (ProcessWorker.stoppedSteps []) w
          ∧ ¬ w.NoneLeft ProcessWorker.machine)
      ∧ ∃ w, GuardedRun (step .increasing AsyncWorker.machine) (Guard fun _ _ => True)
        (init .unused { maxConcurrentJobs := 10 }) (AsyncWorker.stoppedSteps []) w
          ∧ ¬ w.NoneLeft AsyncWorker.machine := by
  have hprocess : (GuardedRun.replay (step .increasing ProcessWorker.machine)
      (fun w l => w.Guard (fun _ _ => True) l) (init .unused {})
      (ProcessWorker.stoppedSteps [])).any (fun w => w.Leaves ProcessWorker.machine 1) = true := by
    decide +kernel
  have hasync : (GuardedRun.replay (step .increasing AsyncWorker.machine)
      (fun w l => w.Guard (fun _ _ => True) l) (init .unused { maxConcurrentJobs := 10 })
      (AsyncWorker.stoppedSteps [])).any (fun w => w.Leaves AsyncWorker.machine 1) = true := by
    decide +kernel
  obtain ⟨w, run, htest⟩ := GuardedRun.exists_of_replay
    (fun _ _ h => of_decide_eq_true h) hprocess
  obtain ⟨w', run', htest'⟩ := GuardedRun.exists_of_replay
    (fun _ _ h => of_decide_eq_true h) hasync
  exact ⟨⟨w, run, (of_decide_eq_true htest).not_noneLeft⟩,
    w', run', (of_decide_eq_true htest').not_noneLeft⟩

end JobOrchestrator
