import JobOrchestrator.Core.Codec
import JobOrchestrator.Scheduler.DependencyOrder
import JobOrchestrator.Scheduler.Outcomes

/-!
# The statistics and the job store

`get_stats` reports the scheduler's own counters beside a count of the stored
jobs by state. The counters are written where a job is submitted, completed or
fails, by any of the operations and by `run_job`; the states are read off the
jobs. `run_job` takes no lock for its counters: between a transition and the
counter that follows it a job is COMPLETED or FAILED, and not counted yet. So
the counts agree up to the workers that are at such a place. That is an
invariant of the runs in which only submitted jobs are run: a stored job was
submitted, and one that is not stored has not been touched.
-/

namespace JobOrchestrator

/-! ## `JobStore.get_stats` -/

/-- `list(JobState)`. -/
def JobState.all : List JobState :=
  [.pending, .scheduled, .running, .completed, .failed, .retrying, .cancelled, .timeout]

/-- What `JobStore.get_stats` returns, the counts by state once more as keys of the
dictionary itself. -/
structure JobStoreStats where
  total : ℕ
  byState : OrderedDict String ℕ
  flatCounts : OrderedDict String ℕ

/-- The count of a state in the report. -/
def JobStoreStats.count (t : JobState) (stats : JobStoreStats) : ℕ :=
  (stats.byState.get? t.value).getD 0

namespace SchedulerCore

/-- `JobStore.get_by_state`: the stored jobs in a state. -/
def inState (t : JobState) (c : SchedulerCore) : Finset UUID :=
  c.store.filter (fun k => c.state k = t)

variable {c c' : SchedulerCore} {t : JobState} {job : UUID}

theorem mem_inState {k : UUID} : k ∈ c.inState t ↔ k ∈ c.store ∧ c.state k = t :=
  Finset.mem_filter

theorem value_injective : Function.Injective JobState.value := by
  intro t t' h
  have hsame : JobState.ofValue t.value = JobState.ofValue t'.value := congrArg _ h
  rw [JobState.ofValue_value, JobState.ofValue_value] at hsame
  exact Option.some.inj hsame

theorem inState_congr (store : c'.store = c.store)
    (states : ∀ k ∈ c.store, c'.state k = c.state k) : c'.inState t = c.inState t := by
  ext k
  rw [mem_inState, mem_inState, store]
  exact and_congr_right (fun hk => by rw [states k hk])

/-- A stored job that was in another state comes in, or stays outside. -/
theorem card_inState_of_moved (stored : job ∈ c.store) (store : c'.store = c.store)
    (others : ∀ k, k ≠ job → c'.state k = c.state k) (before : c.state job ≠ t) :
    (c'.inState t).card = (c.inState t).card + if c'.state job = t then 1 else 0 := by
  have houtside : job ∉ c.inState t := fun h => before (mem_inState.mp h).2
  split
  · rename_i hin
    have hinsert : c'.inState t = insert job (c.inState t) := by
      ext k
      rw [Finset.mem_insert, mem_inState, mem_inState, store]
      by_cases hk : k = job
      · subst hk
        simp [stored, hin]
      · simp [hk, others k hk]
    rw [hinsert, Finset.card_insert_of_notMem houtside]
  · rename_i hout
    have hsame : c'.inState t = c.inState t := by
      ext k
      rw [mem_inState, mem_inState, store]
      by_cases hk : k = job
      · subst hk
        simp [hout, before]
      · rw [others k hk]
    rw [hsame, Nat.add_zero]

/-- **The census**: the stored jobs were submitted, the others are untouched, and the COMPLETED
and the FAILED ones are those that were counted and those that are still to be. The two numbers
stand for the workers that are between the transition and the counter: `run_job` moves the
counter after the transition and without the lock. -/
structure Census (completing failing : ℕ) (c : SchedulerCore) : Prop where
  submitted : c.store.card = c.stats.jobsSubmitted
  untouched : ∀ k, k ∉ c.store → c.state k = .pending
  completed : (c.inState .completed).card = c.stats.jobsCompleted + completing
  failed : (c.inState .failed).card = c.stats.jobsFailed + failing

namespace Census

variable {completing completing' failing failing' : ℕ}

/-- What writes no state, no store and none of the three counters. -/
theorem congr (h : c.Census completing failing) (states : ∀ k, c'.state k = c.state k)
    (store : c'.store = c.store) (submitted : c'.stats.jobsSubmitted = c.stats.jobsSubmitted)
    (completed : c'.stats.jobsCompleted = c.stats.jobsCompleted)
    (failed : c'.stats.jobsFailed = c.stats.jobsFailed) : c'.Census completing failing where
  submitted := by rw [store, submitted, h.submitted]
  untouched k hk := by
    rw [states]
    exact h.untouched k (store ▸ hk)
  completed := by rw [inState_congr store (fun k _ => states k), completed, h.completed]
  failed := by rw [inState_congr store (fun k _ => states k), failed, h.failed]

/-- **A stored job moves on** from a state that is not terminal. Where it comes to be COMPLETED
or FAILED it is counted, or is still to be. -/
theorem moved (h : c.Census completing failing) (stored : job ∈ c.store)
    (store : c'.store = c.store) (others : ∀ k, k ≠ job → c'.state k = c.state k)
    (going : (c.state job).isTerminal = false)
    (submitted : c'.stats.jobsSubmitted = c.stats.jobsSubmitted)
    (completed : c'.stats.jobsCompleted + completing'
      = c.stats.jobsCompleted + completing + if c'.state job = .completed then 1 else 0)
    (failed : c'.stats.jobsFailed + failing'
      = c.stats.jobsFailed + failing + if c'.state job = .failed then 1 else 0) :
    c'.Census completing' failing' where
  submitted := by rw [store, submitted, h.submitted]
  untouched k hk := by
    rw [store] at hk
    rw [others k (fun heq => hk (heq ▸ stored))]
    exact h.untouched k hk
  completed := by
    have hbefore : c.state job ≠ .completed := fun heq => by
      rw [heq] at going
      cases going
    rw [card_inState_of_moved stored store others hbefore, completed, h.completed]
  failed := by
    have hbefore : c.state job ≠ .failed := fun heq => by
      rw [heq] at going
      cases going
    rw [card_inState_of_moved stored store others hbefore, failed, h.failed]

theorem modifyJob (h : c.Census completing failing) (job : UUID) (f : Job → Job)
    (hf : ∀ j, (f j).state = j.state) : (c.modifyJob job f).Census completing failing :=
  h.congr (state_modifyJob hf) rfl rfl rfl rfl

/-- A transition of a stored job, with what is counted after it. -/
theorem transition (h : c.Census completing failing) (stored : job ∈ c.store) {target : JobState}
    (hok : c.transition job target = .ok c') (count : SchedulerStats → SchedulerStats)
    (submitted : ∀ st, (count st).jobsSubmitted = st.jobsSubmitted)
    (completed : ∀ st, (count st).jobsCompleted + completing'
      = st.jobsCompleted + completing + if target = .completed then 1 else 0)
    (failed : ∀ st, (count st).jobsFailed + failing'
      = st.jobsFailed + failing + if target = .failed then 1 else 0) :
    ({ c' with stats := count c'.stats } : SchedulerCore).Census completing' failing' := by
  have hstate := state_transition hok
  have hown : c'.state job = target := (hstate job).trans (if_pos rfl)
  have hstats := stats_transition hok
  have hcan := (transition_ok hok).1
  have hgoing : (c.state job).isTerminal = false := by
    rw [← Bool.not_eq_true]
    intro hterminal
    rw [canTransition_of_isTerminal hterminal] at hcan
    cases hcan
  have hstore := store_transition hok stored
  refine h.moved stored hstore
    (fun k hk => (hstate k).trans (if_neg hk)) hgoing ?_ ?_ ?_
  · rw [← hstats]
    exact submitted _
  · rw [← hstats]
    exact (completed _).trans (congrArg _ (by rw [← hown]; rfl))
  · rw [← hstats]
    exact (failed _).trans (congrArg _ (by rw [← hown]; rfl))

/-- **What was still to be counted** is. The counter goes up, and one worker less is between the
transition and it. -/
theorem countCompleted (h : c.Census (completing + 1) failing) :
    ({ c with stats := { c.stats with jobsCompleted := c.stats.jobsCompleted + 1 } } :
      SchedulerCore).Census completing failing where
  submitted := h.submitted
  untouched := h.untouched
  completed := by
    show (c.inState .completed).card = c.stats.jobsCompleted + 1 + completing
    rw [h.completed]
    omega
  failed := h.failed

theorem countFailed (h : c.Census completing (failing + 1)) :
    ({ c with stats := { c.stats with jobsFailed := c.stats.jobsFailed + 1 } } :
      SchedulerCore).Census completing failing where
  submitted := h.submitted
  untouched := h.untouched
  completed := h.completed
  failed := by
    show (c.inState .failed).card = c.stats.jobsFailed + 1 + failing
    rw [h.failed]
    omega

/-- A transition to another state than these two. It moves no job into the two states that are
counted, nor out of them, since they are terminal. -/
theorem uncounted (h : c.Census completing failing) (stored : job ∈ c.store) {target : JobState}
    (hok : c.transition job target = .ok c') (notCompleted : target ≠ .completed)
    (notFailed : target ≠ .failed) : c'.Census completing failing :=
  h.transition stored hok id (fun _ => rfl) (fun _ => by rw [if_neg notCompleted]; rfl)
    (fun _ => by rw [if_neg notFailed]; rfl)

end Census

/-- How many jobs an answer of `submit` accepts. -/
def accepted : Except OrchestratorError String → ℕ
  | .ok _ => 1
  | .error _ => 0

/-- **The submission is counted** where it is accepted, and nothing else is. -/
def Counts (c : SchedulerCore) (r : SchedulerCore × Except OrchestratorError String) : Prop :=
  r.1.stats = { c.stats with jobsSubmitted := c.stats.jobsSubmitted + accepted r.2 }

theorem counts_submit (job : UUID) (c : SchedulerCore) : c.Counts (c.submit job) := by
  unfold submit
  split
  · rfl
  split
  · rfl
  unfold storeAndPush
  split
  · rfl
  · rename_i scheduled hok
    have hstats : scheduled.stats = c.stats := by rw [stats_transition hok]
    unfold enqueue
    split
    · exact hstats
    · show ({ scheduled.stats with jobsSubmitted := scheduled.stats.jobsSubmitted + 1 }
        : SchedulerStats) = _
      rw [hstats]
      rfl

namespace Census

variable {completing failing : ℕ}

/-- **`submit`**: what is not stored is PENDING, so that nothing is left stored that is refused. -/
theorem submit (h : c.Census completing failing) (job : UUID) :
    (c.submit job).1.Census completing failing := by
  have hstats := counts_submit job c
  have hcases := submit_cases c job
  generalize c.submit job = r at hstats hcases ⊢
  cases hcases with
  | refused => exact h
  | stranded fresh _ cannot =>
    rw [h.untouched job fresh] at cannot
    cases cannot
  -- the push failed: the state is PENDING again and the counter was never reached
  | undone fresh _ _ _ c' states store =>
    have hsame (k : UUID) : c'.state k = c.state k := by
      rw [states]
      split
      · rename_i hk
        rw [hk, h.untouched job fresh]
      · rfl
    have hstats' : c'.stats = c.stats := hstats
    exact h.congr hsame store (by rw [hstats']) (by rw [hstats']) (by rw [hstats'])
  | accepted fresh _ _ _ c' states store =>
    have hstats' : c'.stats = { c.stats with jobsSubmitted := c.stats.jobsSubmitted + 1 } := hstats
    -- the new job is scheduled, which is none of the counted states
    have hothers (t : JobState) (ht : t ≠ .pending) (ht' : t ≠ .scheduled) :
        c'.inState t = c.inState t := by
      ext k
      rw [mem_inState, mem_inState, store, states, Finset.mem_insert]
      by_cases hk : k = job
      · subst hk
        simp [fresh, ht'.symm]
      · simp [hk]
    refine ⟨?_, fun k hk => ?_, ?_, ?_⟩
    · show c'.store.card = c'.stats.jobsSubmitted
      rw [store, hstats', Finset.card_insert_of_notMem fresh, h.submitted]
    · show c'.state k = .pending
      have hk' : k ∉ c'.store := hk
      rw [store, Finset.mem_insert, not_or] at hk'
      rw [states, if_neg hk'.1]
      exact h.untouched k hk'.2
    · show (c'.inState _).card = c'.stats.jobsCompleted + completing
      rw [hothers _ (by decide) (by decide), hstats', h.completed]
    · show (c'.inState _).card = c'.stats.jobsFailed + failing
      rw [hothers _ (by decide) (by decide), hstats', h.failed]

/-- **`cancel_job`** brings a job into a state that is not counted, and finds none in those that
are. -/
theorem cancelJob (h : c.Census completing failing) (now : Time) (job : UUID) :
    (c.cancelJob now job).1.Census completing failing := by
  have hstats := stats_cancelJob now job c
  have hcases := cancelJob_cases c now job
  generalize c.cancelJob now job = r at hstats hcases ⊢
  cases hcases with
  | unchanged => exact h
  | done stored can c' states store =>
    have hown : c'.state job = .cancelled := (states job).trans (if_pos rfl)
    have hstats' : c'.stats = c.stats := hstats
    have hgoing : (c.state job).isTerminal = false := by
      generalize c.state job = st at can
      cases st <;> first | rfl | cases can
    refine h.moved stored store (fun k hk => (states k).trans (if_neg hk)) hgoing ?_ ?_ ?_
    · rw [hstats']
    · rw [hstats', hown]
      rfl
    · rw [hstats', hown]
      rfl

/-- **What the executor does keeps the census.** All that it does to the scheduler is to submit.
-/
theorem host_keeps (completing failing : ℕ) (now : Time) :
    (host now).Keeps (Census completing failing) where
  submit _ k _ h := h.submit k
  onDagComplete _ _ _ h := h.congr (fun _ => rfl) rfl rfl rfl rfl
  onDagFailed _ _ _ h := h.congr (fun _ => rfl) rfl rfl rfl rfl

end Census

end SchedulerCore

/-! ## The operations -/

namespace Scheduler

open SchedulerCore

variable {order : IterationOrder UUID} {s s' : Scheduler} {job : UUID} {completing failing : ℕ}

theorem census_notifyComplete (h : s.core.Census completing failing) (now : Time) (job : UUID) :
    (s.notifyComplete order now job).core.Census completing failing := by
  unfold notifyComplete
  split
  · exact h
  · exact (Census.host_keeps completing failing now).onJobComplete order now job s.executor h

theorem census_notifyFailed (h : s.core.Census completing failing) (now : Time) (job : UUID)
    (error : String) : (s.notifyFailed now job error).core.Census completing failing := by
  unfold notifyFailed
  split
  · exact h
  · exact (Census.host_keeps completing failing now).onJobFailed now job error s.executor h

theorem census_pushRetry (h : s.core.Census completing failing) (job : UUID) :
    (s.pushRetry job).2.core.Census completing failing :=
  h.congr (repushed job s).states rfl rfl rfl rfl

/-- **`complete_job`** makes the transition and counts it while it has the lock, so no pending
count is left over. -/
theorem census_completeJob (h : s.core.Census completing failing) (now : Time) (job : UUID)
    (result : Value) : (s.completeJob order now job result).1.core.Census completing failing := by
  unfold completeJob
  split
  · exact h
  · rename_i hstored
    rw [not_not] at hstored
    have hnoted : (s.core.modifyJob job
        (fun j => { j with result := result, completedAt := some (.utcnow now) })).Census
          completing failing :=
      h.modifyJob job _ (fun _ => rfl)
    simp only
    split
    · exact hnoted
    · rename_i core hok
      exact census_notifyComplete (hnoted.transition hstored hok
        (fun st => { st with jobsCompleted := st.jobsCompleted + 1 }) (fun _ => rfl)
        (fun _ => Nat.add_right_comm _ _ _) (fun _ => rfl)) now job

/-- **`fail_job`** likewise, in the branch that fails the job; the other one retries it and
counts nothing here. -/
theorem census_failJob (h : s.core.Census completing failing) (now : Time) (draw : ℚ)
    (traceback : String) (job : UUID) (error : PyException) :
    (s.failJob now draw traceback job error).1.core.Census completing failing := by
  unfold failJob
  split
  · exact h
  · rename_i hstored
    rw [not_not] at hstored
    have hnoted : (s.core.modifyJob job
        (fun j => { j with error := some error.message, traceback := some traceback })).Census
          completing failing :=
      h.modifyJob job _ (fun _ => rfl)
    simp only
    split
    · -- the retry branch: neither target is a counted state
      unfold failJobRetry
      split
      · exact hnoted
      · rename_i prepared hraises
        obtain ⟨-, rfl⟩ := SchedulerCore.prepareForRetry_ok hraises
        have hprepared := hnoted.modifyJob job (s.retryHandler.prepared now draw) (fun _ => rfl)
        split
        · exact hprepared
        · rename_i retrying hok
          have hretrying := hprepared.uncounted hstored hok (by decide) (by decide)
          have hstored' : job ∈ retrying.store := by
            rw [store_transition hok hstored]
            exact hstored
          split
          · exact hretrying
          · rename_i scheduled hok'
            have hscheduled := hretrying.uncounted hstored' hok' (by decide) (by decide)
            exact (census_pushRetry (s := s.withCore scheduled) hscheduled job).congr
              (fun _ => rfl) rfl rfl rfl rfl
    · -- the last branch: the counters are moved before the lock is given back
      unfold failJobFinally
      split
      · exact hnoted
      · rename_i failed hok
        have hfailed := (hnoted.transition hstored hok
          (fun st =>
            { st with jobsFailed := st.jobsFailed + 1, jobsSentToDlq := st.jobsSentToDlq + 1 })
          (fun _ => rfl) (fun _ => rfl) (fun _ => Nat.add_right_comm _ _ _)).modifyJob job
          (fun j => { j with completedAt := some (.utcnow now) }) (fun _ => rfl)
        exact census_notifyFailed hfailed now job error.message

theorem census_cancelDag (h : s.core.Census completing failing) (now : Time) (dagId : UUID) :
    (s.cancelDag now dagId).1.core.Census completing failing :=
  DAGExecutor.cancelDag_invariant now (fun _ _ k _ _ hc => hc.cancelJob now k) h

theorem census_submitDag (h : s.core.Census completing failing) (now : Time) (g : DAG) :
    (s.submitDag order now g).1.core.Census completing failing := by
  unfold submitDag
  split
  · exact h
  · have hkeeps := Census.host_keeps completing failing now
    have hstarted := hkeeps.startDag now (scheduledDag now g) s.executor h
    exact hstarted.congr (fun _ => rfl) rfl rfl rfl rfl

end Scheduler

/-! ## The steps of a run -/

/-- **The job has come to this state** in a run, and its counter is not written yet. -/
def RunPc.uncounted : JobState → RunPc → Bool
  | .completed, countCompleted _ | .failed, countFailed _ => true
  | _, _ => false

/-- The number of such jobs in a run, which is one or none. -/
def RunStatus.uncounted (t : JobState) : RunStatus → ℕ
  | running task => (task.pc.uncounted t).toNat
  | returned _ | raised _ => 0

namespace Task

open SchedulerCore

variable {order : IterationOrder UUID} {input : RunInput} {s : Scheduler} {task : Task}
  {completing failing : ℕ}

/-- The census, with what a run that stands so has still to count. -/
def Leaves (completing failing : ℕ) (r : Scheduler × RunStatus) : Prop :=
  r.1.core.Census (completing + r.2.uncounted .completed) (failing + r.2.uncounted .failed)

theorem census_transit (h : s.core.Census completing failing) (stored : task.job ∈ s.core.store)
    {target : JobState} (notCompleted : target ≠ .completed) (notFailed : target ≠ .failed)
    {next : RunPc} (counted : ∀ t, next.uncounted t = false) :
    Leaves completing failing (task.transit input target next s) := by
  unfold transit
  split
  · rename_i core hok
    show core.Census (completing + (next.uncounted .completed).toNat)
      (failing + (next.uncounted .failed).toNat)
    rw [counted, counted]
    exact h.uncounted stored hok notCompleted notFailed
  · exact h

theorem census_transitOrRaise (h : s.core.Census completing failing) {target : JobState}
    {next : RunPc} {after : Scheduler → Scheduler}
    (counted : ∀ core, s.core.transition task.job target = .ok core →
      (after (s.withCore core)).core.Census (completing + (next.uncounted .completed).toNat)
        (failing + (next.uncounted .failed).toNat)) :
    Leaves completing failing (task.transitOrRaise target next after s) := by
  unfold transitOrRaise
  split
  · rename_i core hok
    exact counted core hok
  · exact h

/-- **A step of `run_job`** with a stored job keeps the census: what it brings to its state it has
still to count, and that is its next step. -/
theorem census_step (h : s.core.Census (completing + (task.pc.uncounted .completed).toNat)
      (failing + (task.pc.uncounted .failed).toNat)) (stored : task.job ∈ s.core.store)
    (input : RunInput) : Leaves completing failing (task.step order input s) := by
  obtain ⟨job, startedAt, pc⟩ := task
  cases pc with
  | dequeued | callComplete | callFailed => exact h
  | checkPending | checkScheduled | checkRunning | checkRetrying | checkCanRun =>
    -- a check goes on to one of two places, and nothing is counted at either
    unfold step Leaves goto RunStatus.uncounted
    simp only
    split <;> exact h
  | toScheduled | toRunning | retryToScheduled =>
    exact census_transit h stored (by decide) (by decide) (fun t => by cases t <;> rfl)
  | invoke => exact h.modifyJob job _ (fun _ => rfl)
  | handle r =>
    simp only [step]
    split
    · exact h.modifyJob job _ (fun _ => rfl)
    · have hnoted := h.modifyJob job
        (fun j => { j with error := r.error, traceback := r.traceback }) (fun _ => rfl)
      split
      · split
        · exact hnoted
        · rename_i core hok
          obtain ⟨-, rfl⟩ := prepareForRetry_ok hok
          exact hnoted.modifyJob job (s.retryHandler.prepared input.handled input.draw)
            (fun _ => rfl)
      · exact hnoted
  | toCompleted r =>
    exact census_transitOrRaise h (fun core hok => h.transition stored hok id (fun _ => rfl)
      (fun _ => rfl) (fun _ => rfl))
  | toRetrying r | backToScheduled r =>
    exact census_transitOrRaise h (fun core hok => h.uncounted stored hok (by decide) (by decide))
  | toFailed r =>
    refine census_transitOrRaise h (fun core hok => ?_)
    have hfailed : core.Census completing (failing + 1) :=
      h.transition stored hok id (fun _ => rfl) (fun _ => rfl) (fun _ => rfl)
    exact hfailed.modifyJob job (fun j => { j with completedAt := r.completedAt }) (fun _ => rfl)
  | countCompleted r => exact h.countCompleted
  | countFailed r => exact h.countFailed
  | notifyComplete r => exact Scheduler.census_notifyComplete h _ _
  | notifyFailed r => exact Scheduler.census_notifyFailed h _ _ _
  | push r => exact Scheduler.census_pushRetry h job
  | countRetry pushed r => exact h.congr (fun _ => rfl) rfl rfl rfl rfl

theorem job_of_step {next : Task} (h : (task.step order input s).2.task? = some next) :
    next.job = task.job := by
  have hcases := step_cases order input task s
  generalize task.step order input s = r at h hcases
  cases hcases with
  | own _ stays => exact stays next h
  | notifyComplete | notifyFailed | push =>
    cases h
    rfl

/-- A whole run in one go: what it has yet to count when it begins is counted when it ends, since
nobody comes between. -/
theorem census_drive (h : s.core.Census (completing + (task.pc.uncounted .completed).toNat)
      (failing + (task.pc.uncounted .failed).toNat)) (stored : task.job ∈ s.core.store)
    (input : RunInput) (fuel : ℕ) :
    Leaves completing failing (task.drive order input fuel s) := by
  induction fuel generalizing s task with
  | zero => exact h
  | succ fuel ih =>
    have hstep : Leaves completing failing (task.step order input s) := census_step h stored input
    have hstore := (Scheduler.onward_step order input task s).store stored
    have hjob (next : Task) (h : (task.step order input s).2.task? = some next) :
        next.job = task.job := job_of_step h
    rw [drive]
    cases heq : task.step order input s with
    | mk s' status =>
      rw [heq] at hstep hstore hjob
      cases status with
      | running next =>
        refine ih hstep ?_
        rw [hjob next rfl]
        exact hstore
      | returned | raised => exact hstep

end Task

/-- **A call of `run_job`** has counted what it brought to its state when it ends. -/
theorem Scheduler.census_runJob {order : IterationOrder UUID} {s : Scheduler} {job : UUID}
    {completing failing : ℕ} (h : s.core.Census completing failing) (stored : job ∈ s.core.store)
    (input : RunInput) : (s.runJob order input job).1.core.Census completing failing := by
  have hbegin : s.core.Census (completing + (({ job := job } : Task).pc.uncounted .completed).toNat)
      (failing + (({ job := job } : Task).pc.uncounted .failed).toNat) := h
  have hdrive : Task.Leaves completing failing (s.runJob order input job) :=
    Task.census_drive hbegin stored input 16
  have hfinished := s.runJob_finished order input job
  unfold Task.Leaves at hdrive
  cases hstatus : (s.runJob order input job).2 with
  | running task => exact absurd hstatus (hfinished task)
  | returned | raised =>
    rw [hstatus] at hdrive
    exact hdrive

/-! ## The runs -/

namespace World

open SchedulerCore

variable {order : IterationOrder UUID} {w w' : World}

/-- **Only submitted jobs are run**, by operations of the scheduler. -/
def RunsSubmitted (w : World) : OperationStep → Prop
  | .call (.runJob job _) | .start _ job => job ∈ w.sched.core.store
  | .call op => op.ofScheduler = true
  | .run _ _ => True

theorem RunsSubmitted.throughScheduler {l : OperationStep} (h : w.RunsSubmitted l) :
    w.ThroughScheduler l := by
  cases l with
  | start | run => trivial
  | call op => cases op <;> first | rfl | exact h

/-- **So many workers** have brought their job to this state, and not counted it yet. -/
def Uncounted (t : JobState) (n : ℕ) (w : World) : Prop :=
  w.Crew (fun task => task.pc.uncounted t) n

/-- A worker goes on, and has so much to count. -/
theorem Uncounted.run {t : JobState} {n worker : ℕ} {task : Task} {sched : Scheduler}
    {status : RunStatus} (has : w.workers worker = some task)
    (h : w.Uncounted t (n + (task.pc.uncounted t).toNat)) :
    (w.assign worker sched status.task?).Uncounted t (n + status.uncounted t) := by
  refine Crew.assign h ?_
  have hnext : (status.task?.any (fun task => task.pc.uncounted t)).toNat = status.uncounted t := by
    cases status <;> rfl
  rw [has, hnext, Option.any_some]
  omega

/-- A worker that is not done counting is one of those. -/
theorem Uncounted.exists_add {t : JobState} {n worker : ℕ} {task : Task} (h : w.Uncounted t n)
    (has : w.workers worker = some task) : ∃ m, n = m + (task.pc.uncounted t).toNat := by
  have hle : ((w.workers worker).any (fun task => task.pc.uncounted t)).toNat ≤ n :=
    Crew.toNat_le h worker
  rw [has, Option.any_some] at hle
  exact ⟨_, (Nat.sub_add_cancel hle).symm⟩

/-- **The census, and the workers' jobs are stored.** The numbers are those of the workers at the
two places, so they are zero where no worker is in `run_job`. -/
structure Surveyed (completing failing : ℕ) (w : World) : Prop where
  census : w.sched.core.Census completing failing
  completing : w.Uncounted .completed completing
  failing : w.Uncounted .failed failing
  stored : ∀ i task, w.workers i = some task → task.job ∈ w.sched.core.store

variable {completing failing : ℕ}

/-- **An operation of the scheduler** keeps the census. The steps of the workers are not among
them, so the pending counts stay what they are. -/
theorem Surveyed.call (h : w.Surveyed completing failing) {op : SchedulerCall}
    (runs : w.RunsSubmitted (.call op)) {s' : Scheduler}
    (taken : w.sched.perform order op = some s') : s'.core.Census completing failing := by
  cases op with
  | submit job =>
    cases taken
    exact h.census.submit job
  | submitDag g now =>
    cases taken
    exact Scheduler.census_submitDag h.census now g
  | getNextJob now =>
    cases taken
    rcases Scheduler.getNextJob_cases now w.sched with heq | heq <;> rw [heq]
    · exact h.census
    · exact h.census.congr (fun _ => rfl) rfl rfl rfl rfl
  | runJob job input =>
    cases taken
    exact Scheduler.census_runJob h.census runs input
  | completeJob job result now =>
    cases taken
    exact Scheduler.census_completeJob h.census now job result
  | failJob job error now draw traceback =>
    cases taken
    exact Scheduler.census_failJob h.census now draw traceback job error
  | cancelJob job now =>
    cases taken
    exact h.census.cancelJob now job
  | cancelDag dagId now =>
    cases taken
    exact Scheduler.census_cancelDag h.census now dagId
  | requeue | discard | resolve => cases runs
  | requeueDlqEntry | discardDlqEntry | resolveDlqEntry =>
    cases taken
    exact h.census

theorem Surveyed.operate (h : w.Surveyed completing failing) {l : OperationStep}
    (runs : w.RunsSubmitted l) (taken : w.operate order l = some w') :
    ∃ completing' failing', w'.Surveyed completing' failing' := by
  have honward : w.sched.core.Onward w'.sched.core :=
    kept_operate (kept_onward w.sched.core) (fun _ => trivial) (.refl _) runs.throughScheduler taken
  cases l with
  | call op =>
    obtain ⟨sched, hperform, rfl⟩ := operate_call taken
    exact ⟨completing, failing, h.call runs hperform, h.completing, h.failing,
      fun i task has => honward.store (h.stored i task has)⟩
  | start worker job =>
    obtain ⟨hfree, rfl⟩ := operate_start taken
    refine ⟨completing, failing, h.census, Crew.assign h.completing ?_,
      Crew.assign h.failing ?_, fun i task has => ?_⟩
    · rw [hfree]
      rfl
    · rw [hfree]
      rfl
    · rcases workers_assign has with ⟨-, hnew⟩ | ⟨-, hold⟩
      · cases hnew
        exact runs
      · exact h.stored i task hold
  | run worker input =>
    obtain ⟨task, has, rfl⟩ := operate_run taken
    have hstored := h.stored worker task has
    obtain ⟨completing, rfl⟩ := h.completing.exists_add has
    obtain ⟨failing, rfl⟩ := h.failing.exists_add has
    refine ⟨_, _, Task.census_step h.census hstored input, h.completing.run has,
      h.failing.run has, fun i t ht => ?_⟩
    rcases workers_assign ht with ⟨-, hnew⟩ | ⟨-, hold⟩
    · rw [Task.job_of_step hnew]
      exact honward.store hstored
    · exact honward.store (h.stored i t hold)

end World

end JobOrchestrator
