import JobOrchestrator.Scheduler.AllOrNothing
import JobOrchestrator.Scheduler.Operations

/-!
# Requeueing a dead-lettered job

`requeue_dlq_entry` crosses the dead letter queue, the duplicate check of
`submit`, the state machine and the queue. `Scheduler.RequeuedInto` says what it is
to bring about. It never does: the call of `DeadLetterQueue.requeue` names its
parameter wrongly, and raises before anything is done. `World.dead_lettered_stays` is a run
in which everything else that the call needs is there: a job that was dead-lettered by
`fail_job`, its entry, and room in the queue.
-/

namespace JobOrchestrator

namespace Scheduler

open SchedulerCore ThreadSafePriorityQueue

variable {s : Scheduler} {identifier : DLQIdentifier} {job : UUID}

/-- **The entry was requeued**: the call answered True, the entry is gone, and the job is
SCHEDULED and exactly once in the queue. -/
structure RequeuedInto (identifier : DLQIdentifier) (job : UUID) (answeredTrue : Prop)
    (s : Scheduler) : Prop where
  answered : answeredTrue
  gone : s.dlq.getEntry identifier = none
  scheduled : s.core.state job = .scheduled
  queued : s.core.queue.contains job = true
  once : (ids s.core.queue.heap).count job = 1

/-- **`requeue_dlq_entry` requeues nothing**, from no state, and changes nothing. -/
theorem requeueDlqEntry_never (s : Scheduler) (identifier : DLQIdentifier) (job : UUID)
    (resetRetryCount : Bool) (resolvedBy : Option String) :
    ¬ RequeuedInto identifier job
        ((s.requeueDlqEntry identifier resetRetryCount resolvedBy).2 = .ok true)
        (s.requeueDlqEntry identifier resetRetryCount resolvedBy).1
      ∧ (s.requeueDlqEntry identifier resetRetryCount resolvedBy).1 = s := by
  unfold requeueDlqEntry callWithEntryId
  refine ⟨fun h => ?_, rfl⟩
  cases h.answered

end Scheduler

namespace World

open Scheduler

/-- **A job that `fail_job` dead-lettered cannot be requeued**, with room in the queue: the
call raises a `TypeError`. The job was RUNNING under a worker when its failure was
reported. -/
theorem dead_lettered_stays :
    ∃ w : World, GuardedRun (operate .increasing) ThroughScheduler
        (init (.new (onlyOnce .pending) none none {} [] []))
        [.call (.submit 1), .call (.getNextJob 0), .start 0 1, .run 0 .returning,
          .run 0 .returning, .run 0 .returning, .run 0 .returning, .run 0 .returning,
          .call (.failJob 1 (.plain "error") 0 0 "Traceback")] w
      ∧ w.sched.core.queue.full = false ∧ w.sched.core.atCapacity = false
      ∧ w.sched.core.state 1 = .failed
      ∧ (w.sched.dlq.getEntry (.entry 0)).map DLQEntry.job = some 1
      ∧ (w.sched.requeueDlqEntry (.entry 0) true none).2
        = .error ⟨["TypeError"],
          "DeadLetterQueue.requeue() got an unexpected keyword argument 'entry_id'"⟩
      ∧ ¬ RequeuedInto (.entry 0) 1
        ((w.sched.requeueDlqEntry (.entry 0) true none).2 = .ok true)
        (w.sched.requeueDlqEntry (.entry 0) true none).1 := by
  have hreplay : (GuardedRun.replay (operate .increasing) (fun w l => w.ThroughScheduler l)
      (init (.new (onlyOnce .pending) none none {} [] []))
      [.call (.submit 1), .call (.getNextJob 0), .start 0 1, .run 0 .returning,
        .run 0 .returning, .run 0 .returning, .run 0 .returning, .run 0 .returning,
        .call (.failJob 1 (.plain "error") 0 0 "Traceback")]).any
      (fun w => w.sched.core.queue.full = false ∧ w.sched.core.atCapacity = false
        ∧ w.sched.core.state 1 = .failed
        ∧ (w.sched.dlq.getEntry (.entry 0)).map DLQEntry.job = some 1) = true := by
    decide +kernel
  obtain ⟨w, run, htest⟩ := GuardedRun.exists_of_replay (fun _ _ h => of_decide_eq_true h) hreplay
  obtain ⟨hfull, hcapacity, hfailed, hentry⟩ := of_decide_eq_true htest
  refine ⟨w, run, hfull, hcapacity, hfailed, hentry, rfl, fun h => ?_⟩
  cases h.answered

end World

end JobOrchestrator
