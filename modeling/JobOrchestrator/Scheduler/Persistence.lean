import JobOrchestrator.Core.StateMachine
import JobOrchestrator.Scheduler.Preservation
import JobOrchestrator.Scheduler.RunJob

/-!
# What the job store has of a transition

The state machine persists a transition `if persist and self._job_store`. A `JobStore` has
a `__len__` and no `__bool__`, so one that holds no job counts as no store, and the first
job of it is not taken: `StateMachineWorld.persisted_iff`.

The scheduler's machine is such a machine, with no hooks: `SchedulerCore.transition` is
its `transition`, by `StateMachineWorld.Represents.transition`. So a job that was never
submitted can be found after `run_job` exactly where the store held some job before:
`Scheduler.getJob_runJob`.
-/

namespace JobOrchestrator

/-- `JobStore`, of `scheduler/job_store.py`: its `_jobs`. -/
abbrev JobStore := OrderedDict UUID JobRef

/-- What the state machine uses of a `JobStore`: `__len__` for its truth, and `update`. -/
def JobStore.protocol : StoreProtocol JobStore where
  truthy store := decide (store.size ≠ 0)
  update job j store := (store.set j.id job, none)

/-- What is left of a store after a job was to be persisted: an empty one stays empty. -/
def JobStore.persisted (id : UUID) (job : JobRef) (store : JobStore) : JobStore :=
  if store.size ≠ 0 then store.set id job else store

namespace JobStore

variable {stored : Finset UUID} {store : JobStore} {job k : UUID} {v : JobRef}

theorem nonempty_iff (keys : ∀ k, k ∈ stored ↔ k ∈ store.keys) :
    stored.Nonempty ↔ store.size ≠ 0 := by
  rw [OrderedDict.size_eq_length_keys, Ne, List.length_eq_zero_iff]
  constructor
  · rintro ⟨k, hk⟩ hnil
    rw [keys, hnil] at hk
    cases hk
  · intro hne
    obtain ⟨k, hk⟩ := List.exists_mem_of_ne_nil _ hne
    exact ⟨k, (keys k).mpr hk⟩

/-- The ids that are stored after a job was to be persisted. -/
theorem mem_persisted (keys : ∀ k, k ∈ stored ↔ k ∈ store.keys) (job k : UUID) :
    (k ∈ if stored.Nonempty then insert job stored else stored)
      ↔ k ∈ (persisted job job store).keys := by
  unfold persisted
  by_cases hsize : store.size ≠ 0
  · rw [if_pos hsize, if_pos ((nonempty_iff keys).mpr hsize), Finset.mem_insert,
      OrderedDict.mem_keys_set, keys]
  · rw [if_neg hsize, if_neg (fun hne => hsize ((nonempty_iff keys).mp hne))]
    exact keys k

/-- Each is stored under its own id. -/
theorem eq_of_persisted (own : ∀ k v, store.get? k = some v → v = k)
    (h : (persisted job job store).get? k = some v) : v = k := by
  unfold persisted at h
  split at h
  · rcases OrderedDict.get?_set_eq_some h with ⟨rfl, rfl⟩ | ⟨-, hold⟩
    · rfl
    · exact own k v hold
  · exact own k v h

end JobStore

namespace StateMachineWorld

/-- **A transition with `persist` that returns is persisted**: the store has the job, with
its new state. -/
def Persisted (behaviour : HookBehaviour) (w : StateMachineWorld JobStore) :
    Step JobStore → Prop
  | .transition job target true executesHooks =>
    ∀ w', w.transition JobStore.protocol behaviour job target true executesHooks = (w', .ok ()) →
      ∃ store, w'.machine.jobStore = some store
        ∧ store.get? (w.objects job).id = some job ∧ w'.state job = target
  | _ => True

/-- **The store holds some job where a valid transition is to be persisted.** -/
def FindsJobs (w : StateMachineWorld JobStore) : Step JobStore → Prop
  | .transition job target true _ =>
    target ∈ validTransitions (w.state job) →
      ∃ store, w.machine.jobStore = some store ∧ store.size ≠ 0
  | _ => True

/-- **A valid transition with `persist` returns**: a `JobStore` does not raise. It has taken
the job unless it held none. -/
theorem jobStore_transition (behaviour : HookBehaviour) {job : JobRef} {target : JobState}
    (executesHooks : Bool) (w : StateMachineWorld JobStore)
    (valid : target ∈ validTransitions (w.state job)) :
    ∃ w', w.transition JobStore.protocol behaviour job target true executesHooks = (w', .ok ())
      ∧ w'.objects = Function.update w.objects job { w.objects job with state := target }
      ∧ w'.machine.hooks = w.machine.hooks
      ∧ w'.machine.jobStore
        = w.machine.jobStore.map (JobStore.persisted (w.objects job).id job) := by
  have hpersist : ∃ w', (w.setState job target).persistState JobStore.protocol job true
      = (w', none) ∧ w'.objects = (w.setState job target).objects
      ∧ w'.machine.hooks = w.machine.hooks
      ∧ w'.machine.jobStore
        = w.machine.jobStore.map (JobStore.persisted (w.objects job).id job) := by
    unfold persistState
    rw [show (w.setState job target).machine = w.machine from rfl]
    cases hstore : w.machine.jobStore with
    | none => exact ⟨_, rfl, rfl, rfl, hstore⟩
    | some store =>
      by_cases hsize : store.size ≠ 0
      · have htruthy : (true && JobStore.protocol.truthy store) = true := decide_eq_true hsize
        refine ⟨_, if_pos htruthy, rfl, rfl, ?_⟩
        have hset : JobStore.persisted (w.objects job).id job store
            = store.set (w.objects job).id job := if_pos hsize
        have hid : ((w.setState job target).objects job).id = (w.objects job).id := by
          rw [show (w.setState job target).objects job = { w.objects job with state := target }
            from Function.update_self _ _ _]
        rw [Option.map_some, hset, ← hid]
        rfl
      · -- `self._job_store` is falsy where it has no job
        have htruthy : ¬ (true && JobStore.protocol.truthy store) = true :=
          fun h => hsize (of_decide_eq_true h)
        have hsame : JobStore.persisted (w.objects job).id job store = store := if_neg hsize
        exact ⟨_, if_neg htruthy, rfl, rfl, by rw [Option.map_some, hsame]; exact hstore⟩
  obtain ⟨w', hreturns, hobjects, hhooks, hstore⟩ := hpersist
  unfold transition
  dsimp only
  rw [if_pos (show canTransition (w.state job) target = true from decide_eq_true valid), hreturns]
  cases executesHooks with
  | false => exact ⟨w', rfl, hobjects, hhooks, hstore⟩
  | true =>
    obtain ⟨-, hmachine, hkept⟩ := executeHooks_spec behaviour job (w.state job) target w'
    exact ⟨_, rfl, hkept.trans hobjects, (congrArg StateMachine.hooks hmachine).trans hhooks,
      (congrArg StateMachine.jobStore hmachine).trans hstore⟩

/-- **One call is persisted exactly where it finds the store with some job.** -/
theorem persisted_step_iff (behaviour : HookBehaviour) (w : StateMachineWorld JobStore)
    (l : Step JobStore) : w.Persisted behaviour l ↔ w.FindsJobs l := by
  cases l with
  | transition job target persist executesHooks =>
    cases persist with
    | false => exact Iff.rfl
    | true =>
      show (∀ w', _ → _) ↔ (target ∈ validTransitions (w.state job) → _)
      by_cases hvalid : target ∈ validTransitions (w.state job)
      · obtain ⟨w', hreturns, hobjects, -, hstore⟩ :=
          jobStore_transition behaviour executesHooks w hvalid
        have hstate : w'.state job = target := by
          unfold state
          rw [hobjects, Function.update_self]
        constructor
        · intro hpersisted _
          obtain ⟨store', hstore', hget, -⟩ := hpersisted w' hreturns
          rw [hstore] at hstore'
          obtain ⟨store, hset, heq⟩ := Option.map_eq_some_iff.mp hstore'
          refine ⟨store, hset, fun hempty => ?_⟩
          -- in an empty store nothing is written, so the job is not found there afterwards
          have hsame : JobStore.persisted (w.objects job).id job store = store :=
            if_neg (not_not.mpr hempty)
          rw [← heq, hsame] at hget
          have hmem := OrderedDict.mem_keys_iff.mpr ⟨job, hget⟩
          rw [OrderedDict.size_eq_length_keys, List.length_eq_zero_iff] at hempty
          rw [hempty] at hmem
          cases hmem
        · intro hfinds w'' hreturns'
          obtain ⟨store, hset, hsize⟩ := hfinds hvalid
          cases hreturns.symm.trans hreturns'
          refine ⟨store.set (w.objects job).id job, ?_, OrderedDict.get?_set_self _ _ _, hstate⟩
          rw [hstore, hset, Option.map_some]
          exact congrArg some (if_pos hsize)
      · refine iff_of_true (fun w' hreturns => ?_) (fun h => absurd h hvalid)
        -- an illegal target raises: there is nothing to persist
        have hraises : w.transition JobStore.protocol behaviour job target true executesHooks
            = (w, .error (.invalid (.invalidStateTransition (w.objects job).id (w.state job)
              target))) :=
          if_neg (fun hcan => hvalid (of_decide_eq_true hcan))
        cases hraises.symm.trans hreturns
  | register key callback => exact Iff.rfl
  | unregister key callback => exact Iff.rfl
  | clearHooks => exact Iff.rfl
  | setJobStore store => exact Iff.rfl
  | useStore use => exact Iff.rfl

/-- **Transitions are persisted** throughout exactly the sequences of calls in which each
valid one finds the store with some job. -/
theorem persisted_iff (behaviour : HookBehaviour) (w : StateMachineWorld JobStore)
    (ls : List (Step JobStore)) :
    History.Admitted (step JobStore.protocol behaviour) (Persisted behaviour) w ls
      ↔ History.Admitted (step JobStore.protocol behaviour) FindsJobs w ls := by
  induction ls generalizing w with
  | nil => exact Iff.rfl
  | cons l ls ih => exact and_congr (persisted_step_iff behaviour w l) (ih _)

/-! ## The machine of a scheduler -/

/-- **The machine of a scheduler**, and its jobs: no hook is registered, and the store holds the
stored jobs. It connects the model of the state machine with that of the scheduler, which has the
same transitions without hooks and store. -/
structure Represents (w : StateMachineWorld JobStore) (c : SchedulerCore) : Prop where
  hooks : ∀ key, w.machine.hooks key = []
  objects : ∀ k, w.objects k = c.jobs.get k
  store : ∃ store, w.machine.jobStore = some store
    ∧ (∀ k, k ∈ c.store ↔ k ∈ store.keys) ∧ ∀ k v, store.get? k = some v → v = k

/-- **`SchedulerCore.transition` is the machine's**: it raises where that raises, and what it
returns is what that comes to. -/
theorem Represents.transition {w : StateMachineWorld JobStore} {c : SchedulerCore}
    (h : w.Represents c) (behaviour : HookBehaviour) (job : UUID) (target : JobState) :
    match c.transition job target with
    | .error error =>
      w.transition JobStore.protocol behaviour job target true true = (w, .error (.invalid error))
    | .ok c' => ∃ w', w.transition JobStore.protocol behaviour job target true true = (w', .ok ())
      ∧ w'.Represents c' := by
  have hstate : w.state job = c.state job := congrArg Job.state (h.objects job)
  have hid : (w.objects job).id = job := by rw [h.objects, c.jobs.id_get]
  unfold SchedulerCore.transition
  by_cases hvalid : target ∈ validTransitions (c.state job)
  · rw [if_pos (show canTransition (c.state job) target = true from decide_eq_true hvalid)]
    obtain ⟨w', hreturns, hobjects, hhooks, hstore⟩ :=
      jobStore_transition behaviour true w (by rwa [hstate])
    obtain ⟨store, hset, hkeys, hvalues⟩ := h.store
    refine ⟨w', hreturns, fun key => by rw [hhooks, h.hooks], fun k => ?_, ?_⟩
    · rw [hobjects]
      show Function.update w.objects job _ k
        = (c.jobs.modify job (fun j => { j with state := target })).get k
      by_cases hk : k = job
      · rw [hk, Function.update_self, h.objects, JobTable.get_modify_self]
        simp only [c.jobs.id_get]
      · rw [Function.update_of_ne hk, h.objects, JobTable.get_modify_of_ne _ hk]
    · exact ⟨JobStore.persisted job job store, by rw [hstore, hset, hid]; rfl,
        fun k => JobStore.mem_persisted hkeys job k, fun k v => JobStore.eq_of_persisted hvalues⟩
  · have hcannot : ¬ canTransition (c.state job) target = true :=
      fun hcan => hvalid (of_decide_eq_true hcan)
    rw [if_neg hcannot]
    have hraises : w.transition JobStore.protocol behaviour job target true true
        = (w, .error (.invalid (.invalidStateTransition (w.objects job).id (w.state job)
          target))) :=
      if_neg (by rwa [hstate])
    rw [hid, hstate] at hraises
    exact hraises

end StateMachineWorld

/-! ## Running a job that may not be stored -/

namespace SchedulerCore

variable {c c' : SchedulerCore} {job : UUID}

/-- **A transition stores its job** unless nothing was stored. -/
theorem mem_store_transition {target : JobState} (h : c.transition job target = .ok c') :
    (job ∈ c'.store ↔ c.store.Nonempty) ∧ (c'.store.Nonempty ↔ c.store.Nonempty) := by
  rw [(transition_ok h).2]
  show (job ∈ (if c.store.Nonempty then insert job c.store else c.store) ↔ _)
    ∧ ((if c.store.Nonempty then insert job c.store else c.store).Nonempty ↔ _)
  by_cases hstore : c.store.Nonempty
  · rw [if_pos hstore]
    exact ⟨iff_of_true (Finset.mem_insert_self _ _) hstore,
      iff_of_true (Finset.insert_nonempty _ _) hstore⟩
  · rw [if_neg hstore]
    exact ⟨iff_of_false (fun hmem => hstore ⟨job, hmem⟩) hstore, Iff.rfl⟩

theorem nonempty_store_enter (job : UUID) (c : SchedulerCore) :
    (c.enter job).store.Nonempty ↔ c.store.Nonempty := by
  unfold enter
  split
  · show (if c.store.Nonempty then insert job c.store else c.store).Nonempty ↔ _
    by_cases hstore : c.store.Nonempty
    · rw [if_pos hstore]
      exact iff_of_true (Finset.insert_nonempty _ _) hstore
    · rw [if_neg hstore]
  · exact Iff.rfl

/-- Submitting another job neither stores a job nor takes it out. -/
theorem keepsBut_mem_store (job : UUID) (Q : Prop) (now : Time) :
    (host now).KeepsBut job (fun c => job ∈ c.store ↔ Q) where
  submit _ k c hne hc := by
    have hinsert : job ∈ insert k c.store ↔ Q := by
      rw [Finset.mem_insert, or_iff_right hne.symm]
      exact hc
    show job ∈ (c.submit k).1.store ↔ Q
    refine submit_elim (motive := fun r => job ∈ r.1.store ↔ Q) (fun r hr => ?_)
    cases hr with
    | refused reason error => exact hc
    | stranded fresh room state error => exact hinsert
    | undone fresh room state full c' states store queue error =>
      show job ∈ c'.store ↔ Q
      rw [store]
      exact hc
    | accepted fresh room state notFull c' states store queue maxSize text =>
      show job ∈ c'.store ↔ Q
      rw [store]
      exact hinsert
  onDagComplete _ _ _ hc := hc
  onDagFailed _ _ _ hc := hc

end SchedulerCore

namespace Scheduler

variable {order : IterationOrder UUID} {input : RunInput} {job : UUID} {s : Scheduler}

/-- **`get_job`**: a job object is named by its id. -/
def getJob (job : UUID) (s : Scheduler) : Option UUID :=
  if job ∈ s.core.store then some job else none

/-- A report of a job to the executor neither stores the job nor takes it out. -/
theorem mem_store_notifyComplete {Q : Prop} (now : Time) (h : job ∈ s.core.store ↔ Q) :
    job ∈ (s.notifyComplete order now job).core.store ↔ Q := by
  unfold notifyComplete
  split
  · exact h
  · exact (SchedulerCore.keepsBut_mem_store job Q now).onJobComplete now order s.executor h

theorem mem_store_notifyFailed {Q : Prop} (now : Time) (error : String)
    (h : job ∈ s.core.store ↔ Q) : job ∈ (s.notifyFailed now job error).core.store ↔ Q := by
  unfold notifyFailed
  split
  · exact h
  · exact (SchedulerCore.keepsBut_mem_store job Q now).onJobFailed now error s.executor h

/-- **A job that was executed is stored** exactly where some job was before. -/
theorem mem_store_handleResult {r : JobResult} {s' : Scheduler} {result : JobResult}
    (returns : s.handleResult order input job r = (s', .returned result)) :
    job ∈ s'.core.store ↔ s.core.store.Nonempty := by
  unfold handleResult at returns
  split at returns
  · unfold handleSuccess at returns
    dsimp only at returns
    split at returns
    · cases returns
    · rename_i core hok
      cases returns
      exact mem_store_notifyComplete _ (SchedulerCore.mem_store_transition hok).1
  · unfold handleFailure at returns
    dsimp only at returns
    split at returns
    · unfold handleRetry at returns
      split at returns
      · cases returns
      · rename_i prepared hfits
        split at returns
        · cases returns
        · rename_i retrying hretrying
          split at returns
          · cases returns
          · rename_i scheduled hscheduled
            cases returns
            rw [(SchedulerCore.prepareForRetry_ok hfits).2] at hretrying
            exact (SchedulerCore.mem_store_transition hscheduled).1.trans
              (SchedulerCore.mem_store_transition hretrying).2
    · unfold handleFinally at returns
      split at returns
      · cases returns
      · rename_i failed hok
        cases returns
        exact mem_store_notifyFailed _ _ (SchedulerCore.mem_store_transition hok).1

/-- **`run_job` and `get_job`**: a job whose execution returned can be found exactly where the
store held some job before. -/
theorem getJob_runJob {s' : Scheduler} {result : JobResult}
    (returns : s.runJob order input job = (s', .returned result)) :
    s'.getJob job = some job ↔ s.core.store.Nonempty := by
  rw [runJob_eq] at returns
  have hexecute : (s.execute input job).core.store.Nonempty ↔ s.core.store.Nonempty :=
    SchedulerCore.nonempty_store_enter job s.core
  rw [← hexecute, ← mem_store_handleResult returns]
  unfold getJob
  split
  · rename_i hmem
    exact iff_of_true rfl hmem
  · rename_i hmem
    exact iff_of_false nofun hmem

/-- **What a transition persists.** A machine with a `JobStore` persists the transitions that
return throughout exactly the sequences of calls in which each finds the store with some
job; and after `run_job` the job can be found exactly where the store held some job
before. -/
theorem transitions_persisted_iff (behaviour : HookBehaviour) (order : IterationOrder UUID) :
    (∀ (w : StateMachineWorld JobStore) (ls : List (StateMachineWorld.Step JobStore)),
      History.Admitted (StateMachineWorld.step JobStore.protocol behaviour)
          (StateMachineWorld.Persisted behaviour) w ls
        ↔ History.Admitted (StateMachineWorld.step JobStore.protocol behaviour)
          StateMachineWorld.FindsJobs w ls)
      ∧ ∀ (s s' : Scheduler) (job : UUID) (input : RunInput) (result : JobResult),
        s.runJob order input job = (s', .returned result) →
        (s'.getJob job = some job ↔ s.core.store.Nonempty) :=
  ⟨StateMachineWorld.persisted_iff behaviour, fun _ _ _ _ _ returns => getJob_runJob returns⟩

/-- Of a job that was never submitted, at a scheduler that was just started. -/
theorem transitions_persisted_fresh :
    ∃ s' result, (Scheduler.new .fresh none none {} [] []).runJob .increasing .returning 7
        = (s', .returned result)
      ∧ (s'.getJob 7 = some 7
        ↔ (Scheduler.new .fresh none none {} [] []).core.store.Nonempty) :=
  ⟨_, _, rfl, (transitions_persisted_iff (fun _ _ => none) .increasing).2
    (Scheduler.new .fresh none none {} [] []) _ 7 .returning _ rfl⟩

/-- **The first job of a store is not taken**: neither by a machine whose store is empty, nor
by a scheduler to which nothing was submitted. -/
theorem first_job_not_persisted :
    ¬ StateMachineWorld.Persisted (fun _ _ => none)
        { machine := StateMachine.setJobStore (OrderedDict.empty : JobStore) {}
          objects := fun job => { id := job } }
        (.transition 7 .scheduled true true)
      ∧ ∃ s' result, (Scheduler.new .fresh none none {} [] []).runJob .increasing .returning 7
          = (s', .returned result)
        ∧ s'.core.state 7 = .completed ∧ s'.getJob 7 = none := by
  constructor
  · intro h
    obtain ⟨store, hstore, hget, -⟩ := h _ rfl
    cases hstore
    cases hget
  · exact ⟨_, _, rfl, rfl, rfl⟩

end Scheduler

end JobOrchestrator
