import JobOrchestrator.Core.Job

/-!
# Job states and their transitions

The transition table of `core/state.py` and the exceptions of
`core/exceptions.py` that the scheduler raises.
-/

namespace JobOrchestrator

open JobState

/-- `StateMachine.VALID_TRANSITIONS`. -/
def validTransitions : JobState → List JobState
  | pending => [scheduled, cancelled]
  | scheduled => [running, cancelled]
  | running => [completed, failed, retrying, timeout]
  | retrying => [scheduled, cancelled, failed]
  | timeout => [retrying, failed]
  | completed => []
  | failed => []
  | cancelled => []

/-- `StateMachine.can_transition`. -/
def canTransition (current target : JobState) : Bool :=
  decide (target ∈ validTransitions current)

/-- `StateMachine.is_terminal`. -/
def JobState.isTerminal (s : JobState) : Bool :=
  decide (s = completed ∨ s = failed ∨ s = cancelled)

/-- No transition leaves a terminal state. -/
theorem canTransition_of_isTerminal {s : JobState} (h : s.isTerminal = true)
    (target : JobState) : canTransition s target = false := by
  cases s <;> first | rfl | exact absurd h (by decide)

/-- The exceptions the scheduler raises itself, and the `OverflowError` that arithmetic on
floats and dates raises in it. -/
inductive OrchestratorError
  | jobNotFound (jobId : UUID)
  | jobAlreadyExists (jobId : UUID)
  | invalidStateTransition (jobId : UUID) (currentState targetState : JobState)
  | queueFull (queueSize : ℤ) (maxSize : ℕ)
  | dagValidation (dagId : UUID) (errors : List String)
  | overflow (text : String)
  deriving DecidableEq

namespace OrchestratorError

/-- The message an exception is constructed with. -/
def message : OrchestratorError → String
  | jobNotFound jobId => "Job not found: " ++ jobId.str
  | jobAlreadyExists jobId => "Job already exists: " ++ jobId.str
  | invalidStateTransition jobId currentState targetState =>
    "Invalid state transition for job " ++ jobId.str ++ ": " ++ currentState.value
      ++ " -> " ++ targetState.value
  | queueFull queueSize maxSize =>
    "Queue is full: " ++ toString queueSize ++ "/" ++ toString maxSize
  | dagValidation dagId errors =>
    "DAG " ++ dagId.str ++ " validation failed"
      ++ if errors = [] then "" else ": " ++ String.intercalate "; " errors
  | overflow text => text

end OrchestratorError

end JobOrchestrator
