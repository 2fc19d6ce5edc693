import JobOrchestrator.Core.State
import JobOrchestrator.Util.History
import Mathlib.Data.List.Chain

/-!
# The state machine

`StateMachine` of `core/state.py` with its hooks and its job store. A hook is a callback
that the machine knows by identity only; what the hooks do is an argument, `HookBehaviour`:
whether a call raises may depend on all the calls before it. A store is anything with an
`update` that may raise, over a state of its own, and with a truth value.

`StateMachineWorld.transition` holds the machine's lock throughout, so a step of
`StateMachineWorld.step` is a whole call. That each is legal and takes effect either as a
whole or not at all is `StateMachineWorld.atomic_and_legal`.
-/

namespace JobOrchestrator

/-- A callback, by its identity. -/
abbrev Hook := ℕ

/-- What a hook is registered for. -/
inductive HookKey
  | global
  | transition (fromState toState : JobState)
  | state (state : JobState)
  deriving DecidableEq

/-- **One call of a hook**, with its arguments: a state hook is given the job only. -/
structure HookCall where
  hook : Hook
  job : JobRef
  states : Option (JobState × JobState)
  deriving DecidableEq

/-- What the hooks do: what a call raises, after the calls that were made before. -/
abbrev HookBehaviour := List HookCall → HookCall → Option PyException

/-- **`JobStore`**, the protocol, over the states of a store. The machine asks two things of a
store: whether it counts as true, and to update a job; the second may raise. -/
structure StoreProtocol (σ : Type*) where
  /-- `bool(store)`. -/
  truthy : σ → Bool
  /-- `update`, and what it raises. -/
  update : JobRef → Job → σ → σ × Option PyException

/-- **`StateMachine`**. It keeps no state of any job: these are fields of the job objects, which
it writes. -/
structure StateMachine (σ : Type*) where
  /-- `_global_hooks`, `_transition_hooks` and `_state_hooks`. -/
  hooks : HookKey → List Hook := fun _ => []
  /-- `_job_store`. -/
  jobStore : Option σ := none

namespace StateMachine

variable {σ : Type*}

/-- Append a callback to the list of a key. -/
def register (key : HookKey) (callback : Hook) (m : StateMachine σ) : StateMachine σ :=
  { m with hooks := Function.update m.hooks key (m.hooks key ++ [callback]) }

/-- `register_global_hook`. -/
def registerGlobalHook : Hook → StateMachine σ → StateMachine σ := register .global

/-- `register_transition_hook`. -/
def registerTransitionHook (fromState toState : JobState) :
    Hook → StateMachine σ → StateMachine σ := register (.transition fromState toState)

/-- `register_state_hook`. -/
def registerStateHook (state : JobState) : Hook → StateMachine σ → StateMachine σ :=
  register (.state state)

/-- Remove the first of the places of a callback in the list of a key, and whether there
was one. -/
def unregister (key : HookKey) (callback : Hook) (m : StateMachine σ) : Bool × StateMachine σ :=
  (decide (callback ∈ m.hooks key),
    { m with hooks := Function.update m.hooks key ((m.hooks key).erase callback) })

/-- `unregister_global_hook`. -/
def unregisterGlobalHook : Hook → StateMachine σ → Bool × StateMachine σ := unregister .global

/-- `unregister_transition_hook`. -/
def unregisterTransitionHook (fromState toState : JobState) :
    Hook → StateMachine σ → Bool × StateMachine σ := unregister (.transition fromState toState)

/-- `unregister_state_hook`. -/
def unregisterStateHook (state : JobState) : Hook → StateMachine σ → Bool × StateMachine σ :=
  unregister (.state state)

/-- `clear_hooks`. -/
def clearHooks (m : StateMachine σ) : StateMachine σ := { m with hooks := fun _ => [] }

/-- `set_job_store`. -/
def setJobStore (store : σ) (m : StateMachine σ) : StateMachine σ :=
  { m with jobStore := some store }

/-- **The calls a transition owes**: the global hooks, then those of the transition, then
those of the new state, each list in the order of registration. -/
def hookCalls (job : JobRef) (oldState newState : JobState) (m : StateMachine σ) :
    List HookCall :=
  (m.hooks .global).map (⟨·, job, some (oldState, newState)⟩)
    ++ (m.hooks (.transition oldState newState)).map (⟨·, job, some (oldState, newState)⟩)
    ++ (m.hooks (.state newState)).map (⟨·, job, none⟩)

end StateMachine

/-- What `transition` raises: the transition is not valid, or the store raised. -/
inductive TransitionError
  | invalid (error : OrchestratorError)
  | notPersisted (error : PyException)

/-- **A state machine and the jobs it is used on.** Calls of hooks are recorded in their order,
so that what was called, and what was not, can be read off a run. -/
structure StateMachineWorld (σ : Type*) where
  machine : StateMachine σ
  objects : JobRef → Job
  /-- The calls made to hooks, oldest first. -/
  calls : List HookCall := []
  /-- The exceptions of hooks that were logged. -/
  logged : List PyException := []

namespace StateMachineWorld

variable {σ : Type*} (protocol : StoreProtocol σ) (behaviour : HookBehaviour)

/-- The state of a job. -/
def state (job : JobRef) (w : StateMachineWorld σ) : JobState := (w.objects job).state

/-- Assign the state of a job. -/
def setState (job : JobRef) (target : JobState) (w : StateMachineWorld σ) :
    StateMachineWorld σ :=
  { w with objects := Function.update w.objects job { w.objects job with state := target } }

/-- Call one hook; what it raises is logged. -/
def callHook (w : StateMachineWorld σ) (call : HookCall) : StateMachineWorld σ :=
  match behaviour w.calls call with
  | none => { w with calls := w.calls ++ [call] }
  | some error => { w with calls := w.calls ++ [call], logged := w.logged ++ [error] }

/-- **`_execute_hooks`**: three loops, one after the other. Global hooks come first, then those
of the transition, then those of the state that is entered; one that raises is logged and the
next one is called. -/
def executeHooks (job : JobRef) (oldState newState : JobState) (w : StateMachineWorld σ) :
    StateMachineWorld σ :=
  let globals := ((w.machine.hooks .global).map
    (⟨·, job, some (oldState, newState)⟩)).foldl (callHook behaviour) w
  let transitions := ((globals.machine.hooks (.transition oldState newState)).map
    (⟨·, job, some (oldState, newState)⟩)).foldl (callHook behaviour) globals
  ((transitions.machine.hooks (.state newState)).map
    (⟨·, job, none⟩)).foldl (callHook behaviour) transitions

/-- `if persist and self._job_store: self._job_store.update(job)`, with what it raises. -/
def persistState (job : JobRef) (persist : Bool) (w : StateMachineWorld σ) :
    StateMachineWorld σ × Option PyException :=
  match w.machine.jobStore with
  | none => (w, none)
  | some store =>
    if persist && protocol.truthy store then
      let r := protocol.update job (w.objects job) store
      ({ w with machine := { w.machine with jobStore := some r.1 } }, r.2)
    else (w, none)

/-- **`transition`**. The state is assigned before the store is asked; where the store raises it
is set back, and no hook is called. -/
def transition (job : JobRef) (target : JobState) (persist executesHooks : Bool)
    (w : StateMachineWorld σ) : StateMachineWorld σ × Except TransitionError Unit :=
  let oldState := w.state job
  if canTransition oldState target then
    match (w.setState job target).persistState protocol job persist with
    | (w', some error) => (w'.setState job oldState, .error (.notPersisted error))
    | (w', none) =>
      (if executesHooks then w'.executeHooks behaviour job oldState target else w', .ok ())
  else (w, .error (.invalid (.invalidStateTransition (w.objects job).id oldState target)))

/-- **Why a transition raises.** Its target is illegal, and the error says so; or it is legal,
there is a store that counts as true and was to be asked, and its update of the job in the
target state raises. -/
def Raises (protocol : StoreProtocol σ) (job : JobRef) (target : JobState) (persist : Bool)
    (w : StateMachineWorld σ) : TransitionError → Prop
  | .invalid error => target ∉ validTransitions (w.state job)
    ∧ error = .invalidStateTransition (w.objects job).id (w.state job) target
  | .notPersisted error => target ∈ validTransitions (w.state job) ∧ persist = true
    ∧ ∃ store, w.machine.jobStore = some store ∧ protocol.truthy store = true
      ∧ (protocol.update job { w.objects job with state := target } store).2 = some error

/-! ## Calls -/

/-- A call of a method of the machine, or a use of its store by others. -/
inductive Step (σ : Type*)
  | transition (job : JobRef) (target : JobState) (persist executesHooks : Bool)
  | register (key : HookKey) (callback : Hook)
  | unregister (key : HookKey) (callback : Hook)
  | clearHooks
  | setJobStore (store : σ)
  | useStore (use : σ → σ)

/-- **One call.** -/
def step (w : StateMachineWorld σ) : Step σ → StateMachineWorld σ
  | .transition job target persist executesHooks =>
    (w.transition protocol behaviour job target persist executesHooks).1
  | .register key callback => { w with machine := w.machine.register key callback }
  | .unregister key callback => { w with machine := (w.machine.unregister key callback).2 }
  | .clearHooks => { w with machine := w.machine.clearHooks }
  | .setJobStore store => { w with machine := w.machine.setJobStore store }
  | .useStore use => { w with machine := { w.machine with jobStore := w.machine.jobStore.map use } }

variable {protocol behaviour}

/-! ## What a transition does -/

/-- A list of hook calls is made whatever the hooks raise, and does nothing to the machine
and the jobs. -/
theorem foldl_callHook (calls : List HookCall) (w : StateMachineWorld σ) :
    (calls.foldl (callHook behaviour) w).calls = w.calls ++ calls
      ∧ (calls.foldl (callHook behaviour) w).machine = w.machine
      ∧ (calls.foldl (callHook behaviour) w).objects = w.objects := by
  induction calls generalizing w with
  | nil => exact ⟨(List.append_nil _).symm, rfl, rfl⟩
  | cons call calls ih =>
    have hcall : (callHook behaviour w call).calls = w.calls ++ [call]
        ∧ (callHook behaviour w call).machine = w.machine
        ∧ (callHook behaviour w call).objects = w.objects := by
      unfold callHook
      split <;> exact ⟨rfl, rfl, rfl⟩
    obtain ⟨hcalls, hmachine, hobjects⟩ := ih (callHook behaviour w call)
    rw [List.foldl_cons, hcalls, hmachine, hobjects, hcall.1, hcall.2.1, hcall.2.2,
      List.append_assoc]
    exact ⟨rfl, rfl, rfl⟩

/-- **`_execute_hooks` makes the calls it owes**, and does nothing else. -/
theorem executeHooks_spec (behaviour : HookBehaviour) (job : JobRef) (oldState newState : JobState)
    (w : StateMachineWorld σ) :
    (w.executeHooks behaviour job oldState newState).calls
        = w.calls ++ w.machine.hookCalls job oldState newState
      ∧ (w.executeHooks behaviour job oldState newState).machine = w.machine
      ∧ (w.executeHooks behaviour job oldState newState).objects = w.objects := by
  unfold executeHooks StateMachine.hookCalls
  simp only [foldl_callHook, List.append_assoc, and_self]

theorem setState_setState (job : JobRef) (target : JobState) (w : StateMachineWorld σ) :
    (w.setState job target).setState job (w.state job) = w := by
  have hobjects : Function.update (Function.update w.objects job
      { w.objects job with state := target }) job
      { Function.update w.objects job { w.objects job with state := target } job with
        state := (w.objects job).state } = w.objects := by
    rw [Function.update_self, Function.update_idem]
    exact Function.update_eq_self job w.objects
  show { w with objects := Function.update _ _ _ } = w
  rw [show (w.setState job target).objects = Function.update w.objects job
    { w.objects job with state := target } from rfl, show w.state job = (w.objects job).state
    from rfl, hobjects]

/-- Asking the store changes the store only: the jobs, the calls of hooks and the hooks
themselves stay as they were, whether it raises or not. -/
theorem persistState_spec (protocol : StoreProtocol σ) (job : JobRef) (persist : Bool)
    (w : StateMachineWorld σ) :
    (w.persistState protocol job persist).1.objects = w.objects
      ∧ (w.persistState protocol job persist).1.calls = w.calls
      ∧ (w.persistState protocol job persist).1.machine.hooks = w.machine.hooks := by
  unfold persistState
  split
  · exact ⟨rfl, rfl, rfl⟩
  · split <;> exact ⟨rfl, rfl, rfl⟩

/-- What asking the store raises is what its update raises, where it is asked. -/
theorem persistState_eq_some_iff (protocol : StoreProtocol σ) (job : JobRef) (persist : Bool)
    (w : StateMachineWorld σ) (error : PyException) :
    (w.persistState protocol job persist).2 = some error
      ↔ persist = true ∧ ∃ store, w.machine.jobStore = some store ∧ protocol.truthy store = true
        ∧ (protocol.update job (w.objects job) store).2 = some error := by
  unfold persistState
  split
  · rename_i hstore
    refine ⟨fun h => (by cases h), ?_⟩
    rintro ⟨-, store, h, -⟩
    cases hstore.symm.trans h
  · rename_i store hstore
    split
    · rename_i hasked
      obtain ⟨hpersist, htruthy⟩ := Bool.and_eq_true_iff.mp hasked
      refine ⟨fun h => ⟨hpersist, store, hstore, htruthy, h⟩, ?_⟩
      rintro ⟨-, store', hstore', -, h⟩
      rw [hstore, Option.some.injEq] at hstore'
      rw [← h, hstore']
    · rename_i hnot
      refine ⟨fun h => (by cases h), ?_⟩
      rintro ⟨hpersist, store', hstore', htruthy, -⟩
      rw [hstore, Option.some.injEq] at hstore'
      rw [← hstore'] at htruthy
      exact absurd (Bool.and_eq_true_iff.mpr ⟨hpersist, htruthy⟩) hnot

/-- **A transition raises exactly for one of the two reasons**, and raises that error. -/
theorem transition_eq_error_iff (protocol : StoreProtocol σ) (behaviour : HookBehaviour)
    (job : JobRef) (target : JobState) (persist executesHooks : Bool) (w : StateMachineWorld σ)
    (error : TransitionError) :
    (w.transition protocol behaviour job target persist executesHooks).2 = .error error
      ↔ w.Raises protocol job target persist error := by
  have hjob : (w.setState job target).objects job = { w.objects job with state := target } :=
    Function.update_self _ _ _
  have hasked := persistState_eq_some_iff protocol job persist (w.setState job target)
  rw [hjob] at hasked
  unfold transition
  dsimp only
  split
  · -- A legal target: the store decides.
    rename_i hcan
    have hvalid : target ∈ validTransitions (w.state job) := of_decide_eq_true hcan
    rcases hpersist : (w.setState job target).persistState protocol job persist
      with ⟨w', _ | raised⟩
    · rw [hpersist] at hasked
      cases error with
      | invalid error => exact ⟨fun h => (by cases h), fun h => absurd hvalid h.1⟩
      | notPersisted error =>
        exact ⟨fun h => (by cases h),
          fun h => absurd ((hasked error).mpr h.2) (Option.some_ne_none _).symm⟩
    · rw [hpersist] at hasked
      cases error with
      | invalid error => exact ⟨fun h => (by cases h), fun h => absurd hvalid h.1⟩
      | notPersisted error =>
        rw [Except.error.injEq, TransitionError.notPersisted.injEq]
        have hraised := hasked error
        rw [Option.some.injEq] at hraised
        exact hraised.trans ⟨fun h => ⟨hvalid, h⟩, And.right⟩
  · -- An illegal one: nothing is asked.
    rename_i hcannot
    have hinvalid : target ∉ validTransitions (w.state job) :=
      fun h => hcannot (decide_eq_true h)
    cases error with
    | invalid error =>
      rw [Except.error.injEq, TransitionError.invalid.injEq]
      exact ⟨fun h => ⟨hinvalid, h.symm⟩, fun h => h.2.symm⟩
    | notPersisted error =>
      exact ⟨fun h => (by cases h), fun h => absurd h.1 hinvalid⟩

/-- **The ways `transition` ends.** There is no third one: a hook that raises is logged, and the
call returns. -/
inductive Transitioned (job : JobRef) (target : JobState) (executesHooks : Bool)
    (w : StateMachineWorld σ) : StateMachineWorld σ × Except TransitionError Unit → Prop
  /-- It raises: the transition is not valid, or the store raised. -/
  | raised (w' : StateMachineWorld σ) (objects : w'.objects = w.objects)
      (calls : w'.calls = w.calls) (error : TransitionError) :
    Transitioned job target executesHooks w (w', .error error)
  /-- It returns. -/
  | returned (w' : StateMachineWorld σ) (valid : target ∈ validTransitions (w.state job))
      (objects : w'.objects
        = Function.update w.objects job { w.objects job with state := target })
      (calls : w'.calls = w.calls
        ++ if executesHooks then w.machine.hookCalls job (w.state job) target else []) :
    Transitioned job target executesHooks w (w', .ok ())

theorem transition_cases (protocol : StoreProtocol σ) (behaviour : HookBehaviour) (job : JobRef)
    (target : JobState) (persist executesHooks : Bool) (w : StateMachineWorld σ) :
    Transitioned job target executesHooks w
      (w.transition protocol behaviour job target persist executesHooks) := by
  unfold transition
  dsimp only
  split
  · rename_i hcan
    obtain ⟨hobjects, hcalls, hhooks⟩ :=
      persistState_spec protocol job persist (w.setState job target)
    rcases hpersist : (w.setState job target).persistState protocol job persist
      with ⟨w', _ | error⟩
    · rw [hpersist] at hobjects hcalls hhooks
      dsimp only at hobjects hcalls hhooks
      cases executesHooks with
      | false =>
        exact .returned w' (of_decide_eq_true hcan) hobjects
          (hcalls.trans (List.append_nil _).symm)
      | true =>
        obtain ⟨hmade, -, hkept⟩ :=
          executeHooks_spec behaviour job (w.state job) target w'
        refine .returned _ (of_decide_eq_true hcan) (hkept.trans hobjects) ?_
        rw [if_pos rfl, hmade, hcalls]
        unfold StateMachine.hookCalls
        rw [hhooks]
        rfl
    · rw [hpersist] at hobjects hcalls
      have hback : (w'.setState job (w.state job)).objects = w.objects := by
        rw [← congrArg objects (setState_setState job target w)]
        show Function.update w'.objects job { w'.objects job with state := _ } = _
        rw [hobjects]
        rfl
      exact .raised _ hback hcalls _
  · exact .raised w rfl rfl _

/-! ## Sequences of calls -/

/-- **A call takes effect as a whole or not at all.** A transition raises exactly where its
target is illegal or the store that it asks raises. One that raises leaves every job as it was
and calls no hook; one that returns was valid, has set the state of its job and nothing else,
and has made exactly the calls it owes, unless it was told to make none. -/
def Atomic (protocol : StoreProtocol σ) (behaviour : HookBehaviour) (w : StateMachineWorld σ) :
    Step σ → Prop
  | .transition job target persist executesHooks =>
    (∀ error, (w.transition protocol behaviour job target persist executesHooks).2 = .error error
      ↔ w.Raises protocol job target persist error)
    ∧ match w.transition protocol behaviour job target persist executesHooks with
    | (w', .error _) => w'.objects = w.objects ∧ w'.calls = w.calls
    | (w', .ok ()) =>
      target ∈ validTransitions (w.state job)
        ∧ w'.objects = Function.update w.objects job { w.objects job with state := target }
        ∧ w'.calls = w.calls
          ++ if executesHooks then w.machine.hookCalls job (w.state job) target else []
  | l => (w.step protocol behaviour l).objects = w.objects
    ∧ (w.step protocol behaviour l).calls = w.calls

theorem atomic (w : StateMachineWorld σ) (l : Step σ) : w.Atomic protocol behaviour l := by
  cases l with
  | transition job target persist executesHooks =>
    unfold Atomic
    dsimp only
    refine ⟨transition_eq_error_iff protocol behaviour job target persist executesHooks w, ?_⟩
    have hcases := transition_cases protocol behaviour job target persist executesHooks w
    generalize w.transition protocol behaviour job target persist executesHooks = r at hcases
    cases hcases with
    | raised w' objects calls error => exact ⟨objects, calls⟩
    | returned w' valid objects calls => exact ⟨valid, objects, calls⟩
  | register key callback => exact ⟨rfl, rfl⟩
  | unregister key callback => exact ⟨rfl, rfl⟩
  | clearHooks => exact ⟨rfl, rfl⟩
  | setJobStore store => exact ⟨rfl, rfl⟩
  | useStore use => exact ⟨rfl, rfl⟩

/-- One call moves a job along a valid transition, or leaves its state. -/
theorem state_step (w : StateMachineWorld σ) (l : Step σ) (job : JobRef) :
    (w.step protocol behaviour l).state job = w.state job
      ∨ (w.step protocol behaviour l).state job ∈ validTransitions (w.state job) := by
  cases l with
  | transition job' target persist executesHooks =>
    unfold step
    dsimp only
    have hcases := transition_cases protocol behaviour job' target persist executesHooks w
    generalize w.transition protocol behaviour job' target persist executesHooks = r at hcases
    cases hcases with
    | raised w' objects calls error => exact Or.inl (by rw [state, objects, state])
    | returned w' valid objects calls =>
      unfold state at *
      rw [objects]
      by_cases hjob : job = job'
      · rw [hjob, Function.update_self]
        exact Or.inr valid
      · rw [Function.update_of_ne hjob]
        exact Or.inl rfl
  | register key callback => exact Or.inl rfl
  | unregister key callback => exact Or.inl rfl
  | clearHooks => exact Or.inl rfl
  | setJobStore store => exact Or.inl rfl
  | useStore use => exact Or.inl rfl

/-- **The states a job visits** in a sequence of calls, read off after each call: a state
is listed where it is left, and the last one at the end. -/
def visited (protocol : StoreProtocol σ) (behaviour : HookBehaviour) (job : JobRef) :
    StateMachineWorld σ → List (Step σ) → List JobState
  | w, [] => [w.state job]
  | w, l :: ls =>
    if (w.step protocol behaviour l).state job = w.state job then
      visited protocol behaviour job (w.step protocol behaviour l) ls
    else w.state job :: visited protocol behaviour job (w.step protocol behaviour l) ls

/-- The first of them is the state at the start. -/
theorem head?_visited (job : JobRef) (w : StateMachineWorld σ) (ls : List (Step σ)) :
    (visited protocol behaviour job w ls).head? = some (w.state job) := by
  induction ls generalizing w with
  | nil => rfl
  | cons l ls ih =>
    rw [visited]
    split
    · rename_i hsame
      rw [ih, hsame]
    · rfl

/-- The states that a job goes through are a path along valid transitions, whatever calls are
made and whichever of them raise. -/
theorem isChain_visited (job : JobRef) (w : StateMachineWorld σ) (ls : List (Step σ)) :
    (visited protocol behaviour job w ls).IsChain (fun s t => t ∈ validTransitions s) := by
  induction ls generalizing w with
  | nil => exact List.isChain_singleton _
  | cons l ls ih =>
    rw [visited]
    split
    · exact ih _
    · rename_i hmoved
      refine List.isChain_cons.mpr ⟨fun t ht => ?_, ih _⟩
      rw [head?_visited] at ht
      cases ht
      exact (state_step w l job).resolve_left hmoved

/-- **Transitions are atomic and legal**, in every sequence of calls, on any jobs, whatever
the store and the hooks do. -/
theorem atomic_and_legal (protocol : StoreProtocol σ) (behaviour : HookBehaviour)
    (w : StateMachineWorld σ) (ls : List (Step σ)) :
    History.Admitted (step protocol behaviour) (Atomic protocol behaviour) w ls
      ∧ ∀ job, (visited protocol behaviour job w ls).IsChain
        (fun s t => t ∈ validTransitions s) :=
  ⟨History.admitted_of_forall (fun l _ s => atomic s l), fun job => isChain_visited job w ls⟩

/-- A transition that the store does not take, and one that it does, with one hook for
each list, the first of which raises. -/
example :
    let machine : StateMachine ℕ := ((StateMachine.registerGlobalHook 1
      (StateMachine.registerTransitionHook .pending .scheduled 2
        (StateMachine.registerStateHook .scheduled 3 {}))).setJobStore 0)
    let protocol : StoreProtocol ℕ :=
      ⟨fun _ => true, fun _ _ n => (n + 1, if n = 0 then some (.plain "full") else none)⟩
    let w := History.after
      (step protocol (fun _ call => if call.hook = 1 then some (.plain "no") else none))
      { machine := machine, objects := fun job => { id := job } }
      [.transition 7 .scheduled true true, .transition 7 .scheduled true true]
    w.state 7 = .scheduled ∧ w.calls.map HookCall.hook = [1, 2, 3] ∧ w.logged = [.plain "no"] := by
  decide

end StateMachineWorld

end JobOrchestrator
