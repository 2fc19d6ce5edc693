import JobOrchestrator.Scheduler.Operations

/-!
# Terminal states are final

A job that is COMPLETED, CANCELLED or FAILED stays so. The state machine has
no transition out of these states, and what else writes a state – `submit`,
which makes a job pending again where the queue does not take it – has first
made a transition. `DeadLetterQueue.requeue` writes a state too, and is called
by `requeue_dlq_entry`, but with an argument it does not have: the call raises
before its body.
-/

namespace JobOrchestrator

/-- A terminal state survives every transition, since there is none out of it. -/
theorem survives_of_isTerminal {st : JobState} (terminal : st.isTerminal = true)
    (target : JobState) : Survives (· = st) target := by
  rintro st' rfl can
  rw [canTransition_of_isTerminal terminal] at can
  cases can

theorem survivesClients_of_isTerminal {st : JobState} (terminal : st.isTerminal = true) :
    SurvivesClients (· = st) where
  scheduled := survives_of_isTerminal terminal _
  cancelled := survives_of_isTerminal terminal _
  undone st' hst' can := by
    rw [hst', canTransition_of_isTerminal terminal] at can
    cases can

namespace World

variable {order : IterationOrder UUID} {w w' : World} {k : UUID} {st : JobState}

/-- **A job rests in a terminal state**: the parts of the operations leave it there. -/
theorem kept_rests (terminal : st.isTerminal = true) (k : UUID) :
    SchedulerCore.Kept (fun _ => True) (SchedulerCore.StateOf (· = st) k) :=
  SchedulerCore.kept_stateOf (survivesClients_of_isTerminal terminal)
    (fun target _ => survives_of_isTerminal terminal target) k

theorem rests_operate (terminal : st.isTerminal = true)
    (h : w.sched.core.StateOf (· = st) k) {l : OperationStep} (through : w.ThroughScheduler l)
    (taken : w.operate order l = some w') : w'.sched.core.StateOf (· = st) k :=
  kept_operate (kept_rests terminal k) (fun _ => trivial) h through taken

theorem rests_run (terminal : st.isTerminal = true) (h : w.sched.core.StateOf (· = st) k)
    {ls : List OperationStep} (onward : GuardedRun (operate order) ThroughScheduler w ls w') :
    w'.sched.core.StateOf (· = st) k :=
  kept_run (kept_rests terminal k) (fun _ => trivial) h onward

/-- **Terminal states are final.** From whatever state, after every run of operations of the
scheduler and steps of `run_job`: a job that was COMPLETED or CANCELLED still is, and a step
that takes a job out of FAILED is a `requeue_dlq_entry` that returns `True` and puts it back
into the queue. There is no such step, since `requeue_dlq_entry` always raises. -/
theorem terminal_final {ls : List OperationStep}
    (onward : GuardedRun (operate order) ThroughScheduler w ls w') (k : UUID) :
    (w.sched.core.state k = .completed ∨ w.sched.core.state k = .cancelled →
        w'.sched.core.state k = w.sched.core.state k)
      ∧ ∀ l w'', w'.ThroughScheduler l → w'.operate order l = some w'' →
        w'.sched.core.state k = .failed → w''.sched.core.state k ≠ .failed →
        ∃ entryId resetRetryCount resolvedBy,
          l = .call (.requeueDlqEntry entryId resetRetryCount resolvedBy)
            ∧ (w'.sched.requeueDlqEntry entryId resetRetryCount resolvedBy).2 = .ok true
            ∧ w''.sched.core.queue.contains k = true := by
  refine ⟨fun hended => ?_, fun l w'' through taken hfailed hleft => ?_⟩
  · have hterminal : (w.sched.core.state k).isTerminal = true := by
      rcases hended with h | h <;> rw [h] <;> rfl
    exact rests_run hterminal rfl onward
  · exact absurd (rests_operate (show JobState.failed.isTerminal = true from rfl) hfailed
      through taken) hleft

/-- A job that was completed is run again, and cancelled. -/
theorem terminal_final_completed :
    ∃ w w' : World, w.sched.core.state 1 = .completed
      ∧ w'.sched.core.state 1 = w.sched.core.state 1 ∧ (w'.workers 0).isSome = true := by
  have hreplay : (GuardedRun.replay (operate .increasing) (fun w l => w.ThroughScheduler l)
      (init (.bare none)) [.call (.submit 1), .call (.getNextJob 0),
        .call (.runJob 1 .returning)]).any
      (fun w => w.sched.core.state 1 = .completed
        ∧ (GuardedRun.replay (operate .increasing) (fun w l => w.ThroughScheduler l) w
          [.start 0 1, .run 0 .raising, .call (.cancelJob 1 0)]).any
          (fun w' => (w'.workers 0).isSome) = true) = true := by
    decide +kernel
  obtain ⟨w, -, htest⟩ := GuardedRun.exists_of_replay (fun _ _ h => of_decide_eq_true h) hreplay
  obtain ⟨hcompleted, hlater⟩ := of_decide_eq_true htest
  obtain ⟨w', onward, hsome⟩ := GuardedRun.exists_of_replay
    (fun _ _ h => of_decide_eq_true h) hlater
  exact ⟨w, w', hcompleted, (terminal_final onward 1).1 (Or.inl hcompleted), hsome⟩

end World

end JobOrchestrator
