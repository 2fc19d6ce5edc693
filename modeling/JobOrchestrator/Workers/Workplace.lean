import JobOrchestrator.Scheduler.AllOrNothing
import JobOrchestrator.Scheduler.TerminalStates

/-!
# A worker at a scheduler

What the process worker and the async worker have in common. A worker has a state of
its own, and what it does next is a `WorkerAction`: something that the scheduler does
not see, or a call of `get_next_job`, `complete_job` or `fail_job`, after which it goes
on with the answer. A `WorkerMachine` says that of each step, and which jobs the worker
has in its hands.

A `Workplace` is such a worker at a scheduler that others use as well, with any
operation and any number of `run_job`s. It remembers which jobs the worker got, which
it reported, and which were taken out of the queue by somebody else since.

`Workplace.none_left` says when a worker that has ended leaves no job behind: when each
of its actions was careful with what it let go of. What that comes to for a machine is
a condition on its steps.
-/

namespace JobOrchestrator

/-! ## Jobs that need nobody -/

/-- No transition leads out of a terminal state. -/
theorem survives_terminal (target : JobState) :
    Survives (fun st => st.isTerminal = true) target := by
  intro st hst can
  rw [canTransition_of_isTerminal hst] at can
  cases can

namespace SchedulerCore

open ThreadSafePriorityQueue

/-- The job is in a terminal state. -/
theorem kept_terminal (k : UUID) :
    Kept (fun _ => True) (StateOf (fun st => st.isTerminal = true) k) := by
  refine kept_stateOf ⟨survives_terminal _, survives_terminal _, fun st hst can => ?_⟩
    (fun target _ => survives_terminal target) k
  rw [canTransition_of_isTerminal hst] at can
  cases can

/-- **The job is settled**: it is in the queue, or in a terminal state. -/
def Settled (k : UUID) (c : SchedulerCore) : Prop :=
  c.queue.contains k = true ∨ c.StateOf (fun st => st.isTerminal = true) k

/-- **Settled jobs stay so** until somebody takes them out of the queue. -/
theorem retained_settled (k : UUID) : Retained (fun _ => True) (Settled k) where
  stable :=
    { stats c st h := h.imp_right ((kept_terminal k).stable.stats c st)
      submit c job h := by
        rcases h with hcontains | hterminal
        · refine submit_elim (fun r hcases => Or.inl ?_)
          cases hcases with
          | refused | stranded => exact hcontains
          | undone _ _ _ _ c' _ _ queue =>
            rw [queue]
            exact hcontains
          | accepted _ _ _ _ c' _ _ queue =>
            obtain ⟨j, -, hqueue⟩ := queue
            rw [hqueue, contains_insert]
            exact Or.inr hcontains
        · exact Or.inr ((kept_terminal k).stable.submit c job hterminal)
      cancelJob c now job h := by
        rcases h with hcontains | hterminal
        · refine cancelJob_elim (fun r hcases => ?_)
          cases hcases with
          | unchanged => exact Or.inl hcontains
          | done _ _ c' states _ queue =>
            by_cases hk : k = job
            · -- what leaves the queue is cancelled
              refine Or.inr ?_
              show (c'.state k).isTerminal = true
              rw [states, if_pos hk]
              rfl
            · refine Or.inl ?_
              rw [queue, contains_remove]
              exact ⟨hcontains, hk⟩
        · exact Or.inr ((kept_terminal k).stable.cancelJob c now job hterminal) }
  modifyJob c job f hf h := h.imp_right ((kept_terminal k).modifyJob c job f hf)
  transition c c' job target _ hok h := by
    rcases h with hcontains | hterminal
    · refine Or.inl ?_
      rw [queue_transition hok]
      exact hcontains
    · exact Or.inr ((kept_terminal k).transition c c' job target trivial hok hterminal)
  push c job h := by
    rcases h with hcontains | hterminal
    · refine Or.inl ?_
      show (c.queue.push (c.jobs.get job)).2.contains k = true
      unfold ThreadSafePriorityQueue.push
      split
      · exact hcontains
      · exact (contains_insert _ _ _).mpr (Or.inr hcontains)
    · exact Or.inr hterminal

end SchedulerCore

namespace Scheduler

open SchedulerCore

variable {order : IterationOrder UUID} {s : Scheduler} {k job : UUID}

/-- A settled job stays so when another one is taken out of the queue. -/
theorem settled_getNextJob (h : s.core.Settled k) {now : Time}
    (other : (s.getNextJob now).1 ≠ some k) : (s.getNextJob now).2.core.Settled k := by
  rcases Scheduler.getNextJob_cases now s with hnone | hsome
  · rw [hnone]
    exact h
  · rw [hsome] at other ⊢
    exact h.imp_left (fun hcontains => ThreadSafePriorityQueue.contains_dequeue hcontains other)

/-- `complete_job` takes a report. -/
def TakesCompletion (job : UUID) (s : Scheduler) : Prop :=
  job ∈ s.core.store ∧ canTransition (s.core.state job) .completed = true

/-- `fail_job` takes a report: the job is known, its state allows the transition, and a retry
does not overflow. -/
def TakesFailure (now : Time) (draw : ℚ) (job : UUID) (error : PyException) (s : Scheduler) :
    Prop :=
  job ∈ s.core.store ∧ (s.retries job error = true → s.RetryFits now draw job)
    ∧ canTransition (s.core.state job) (if s.retries job error then .retrying else .failed) = true

/-- **A report of success that is taken** is answered, and leaves the job COMPLETED. -/
theorem completeJob_of_takes (takes : s.TakesCompletion job) (order : IterationOrder UUID)
    (now : Time) (result : Value) : (s.completeJob order now job result).2 = .ok ()
      ∧ (s.completeJob order now job result).1.core.Settled job := by
  obtain ⟨completed, -, hstate, heq⟩ := exists_completed order now result takes.1 takes.2
  rw [heq]
  refine ⟨rfl, Or.inr (stable_notifyComplete (kept_terminal job).stable order now job ?_)⟩
  show (completed.state job).isTerminal = true
  rw [hstate]
  rfl

/-- **A report of failure settles the job**: it is taken, and a retry finds room in the queue. -/
def SettlesFailure (now : Time) (draw : ℚ) (job : UUID) (error : PyException) (s : Scheduler) :
    Prop :=
  s.TakesFailure now draw job error ∧ (s.retries job error = true → s.core.queue.full = false)

instance : Decidable (s.TakesCompletion job) := inferInstanceAs (Decidable (_ ∧ _))

instance (now : Time) (draw : ℚ) (error : PyException) :
    Decidable (s.TakesFailure now draw job error) :=
  inferInstanceAs (Decidable (_ ∧ _ ∧ _))

instance (now : Time) (draw : ℚ) (error : PyException) :
    Decidable (s.SettlesFailure now draw job error) :=
  inferInstanceAs (Decidable (_ ∧ _))

/-- A report of success that is not taken raises. -/
theorem completeJob_of_not_takes (not : ¬ s.TakesCompletion job) (order : IterationOrder UUID)
    (now : Time) (result : Value) :
    ∃ error, (s.completeJob order now job result).2 = .error error := by
  by_cases hstored : job ∈ s.core.store
  · have hcannot : canTransition (s.core.state job) .completed = false := by
      rw [← Bool.not_eq_true]
      exact fun hcan => not ⟨hstored, hcan⟩
    rw [completeJob_of_cannot result hstored hcannot]
    exact ⟨_, rfl⟩
  · unfold completeJob
    rw [if_pos hstored]
    exact ⟨_, rfl⟩

/-- **A retry that finds room** leaves the job in the queue. -/
theorem settled_failJobRetry {now : Time} {draw : ℚ} (fits : s.RetryFits now draw job)
    (can : canTransition (s.core.state job) .retrying = true)
    (room : s.core.queue.full = false) : (s.failJobRetry now draw job).1.core.Settled job := by
  obtain ⟨scheduled, -, hqueue, -, hretried⟩ := exists_retried fits can
  rw [hretried]
  refine Or.inl ?_
  show ((s.withCore scheduled).pushRetry job).2.core.queue.contains job = true
  rcases (repushed job (s.withCore scheduled)).queue with ⟨-, -, j, hid, hpushed⟩ | ⟨hfull, -, -⟩
  · rw [hpushed, ThreadSafePriorityQueue.contains_insert, hid]
    exact Or.inl rfl
  · rw [show (s.withCore scheduled).core.queue = s.core.queue from hqueue, room] at hfull
    cases hfull

/-- **A report of failure that is taken** is answered, and leaves the job FAILED, or in the
queue where that has room. -/
theorem failJob_of_takes {now : Time} {draw : ℚ} {error : PyException}
    (takes : s.TakesFailure now draw job error) (traceback : String) :
    (s.failJob now draw traceback job error).2 = .ok ()
      ∧ ((s.retries job error = true → s.core.queue.full = false) →
        (s.failJob now draw traceback job error).1.core.Settled job) := by
  have hcan := takes.2.2
  rw [← state_failedWith error traceback job s] at hcan
  rw [failJob_of_stored draw traceback error takes.1]
  split at hcan
  · rename_i hretries
    rw [if_pos hretries]
    have hfits := (retryFits_failedWith error traceback _ _ _ _).mpr (takes.2.1 hretries)
    exact ⟨answer_failJobRetry_of_can hfits hcan,
      fun room => settled_failJobRetry hfits hcan (room hretries)⟩
  · rename_i hretries
    rw [if_neg hretries]
    refine ⟨answer_failJobFinally_of_can traceback error hcan, fun _ => Or.inr ?_⟩
    show (SchedulerCore.state _ job).isTerminal = true
    rw [(failJobFinally_of_can now traceback error hcan).1]
    rfl

/-- A report of failure that is not taken raises. -/
theorem failJob_of_not_takes {now : Time} {draw : ℚ} {error : PyException}
    (not : ¬ s.TakesFailure now draw job error) (traceback : String) :
    ∃ refused, (s.failJob now draw traceback job error).2 = .error refused := by
  by_cases hstored : job ∈ s.core.store
  · by_cases hfits : s.retries job error = true → s.RetryFits now draw job
    · have hcannot : canTransition (s.core.state job)
          (if s.retries job error then .retrying else .failed) = false := by
        rw [← Bool.not_eq_true]
        exact fun hcan => not ⟨hstored, hfits, hcan⟩
      rw [← state_failedWith error traceback job s] at hcannot
      rw [failJob_of_stored draw traceback error hstored]
      split at hcannot
      · rename_i hretries
        rw [if_pos hretries]
        obtain ⟨_, _, _, hrefused⟩ := answer_failJobRetry_of_cannot
          ((retryFits_failedWith error traceback _ _ _ _).mpr (hfits hretries)) hcannot
        exact ⟨_, hrefused⟩
      · rename_i hretries
        rw [if_neg hretries]
        obtain ⟨_, _, _, hrefused⟩ := answer_failJobFinally_of_cannot traceback error hcannot
        exact ⟨_, hrefused⟩
    · obtain ⟨hretries, hover⟩ := Classical.not_imp.mp hfits
      obtain ⟨text, hraised⟩ := failJobRetry_of_not_fits
        (mt (retryFits_failedWith error traceback _ _ _ _).mp hover)
      rw [failJob_of_stored draw traceback error hstored, if_pos hretries, hraised]
      exact ⟨_, rfl⟩
  · unfold failJob
    rw [if_pos hstored]
    exact ⟨_, rfl⟩

end Scheduler

/-! ## Workers -/

/-- **What a worker does next**, and how it goes on with the answer. -/
inductive WorkerAction (σ : Type)
  /-- Nothing that the scheduler sees. -/
  | silent (next : σ)
  | getNextJob (now : Time) (next : Option UUID → σ)
  | completeJob (job : UUID) (result : Value) (now : Time)
      (next : Except OrchestratorError Unit → σ)
  | failJob (job : UUID) (error : PyException) (now : Time) (draw : ℚ) (traceback : String)
      (next : Except OrchestratorError Unit → σ)

/-- **A worker**: its steps, the jobs that it has in its hands, and when it has ended. A job that
it gets goes into its hands, one that it reports may leave them, and at the end there is none.
Both workers that report on their own are one, so that whether a job is left behind is proved
once, from these laws. -/
structure WorkerMachine (σ ι : Type) where
  step : σ → ι → Option (WorkerAction σ)
  hands : σ → List UUID
  ended : σ → Bool
  got : ∀ s i now next, step s i = some (.getNextJob now next) →
    (∀ job, job ∈ hands (next (some job))) ∧ ∀ answer, ∀ k ∈ hands s, k ∈ hands (next answer)
  completed : ∀ s i job result now next, step s i = some (.completeJob job result now next) →
    ∀ k ∈ hands s, k ≠ job → k ∈ hands (next (.ok ()))
  failed : ∀ s i job error now draw traceback next,
    step s i = some (.failJob job error now draw traceback next) →
      ∀ k ∈ hands s, k ≠ job → k ∈ hands (next (.ok ()))
  none_at_end : ∀ s, ended s = true → hands s = []

/-- **A worker at a scheduler.** A job that was taken out of the queue by somebody else while the
worker had it is not the business of the worker any more. -/
structure Workplace (σ : Type) where
  world : World
  worker : σ
  /-- The jobs that the worker got. -/
  got : Finset UUID
  /-- The jobs that it called `complete_job` or `fail_job` for since. -/
  reported : Finset UUID
  /-- The jobs that were taken out of the queue by others since. -/
  taken : Finset UUID

/-- **A step at a workplace**: one of the worker, or one of anybody else. -/
inductive WorkplaceStep (ι : Type)
  | own (input : ι)
  | other (l : OperationStep)

/-- The job that a step of others takes out of the queue. -/
def World.popped (w : World) : OperationStep → Option UUID
  | .call (.getNextJob now) => (w.sched.getNextJob now).1
  | _ => none

namespace Workplace

variable {σ ι : Type} (order : IterationOrder UUID) (m : WorkerMachine σ ι)

/-- The worker got nothing yet. -/
def init (world : World) (worker : σ) : Workplace σ := ⟨world, worker, ∅, ∅, ∅⟩

/-- **What an action makes of the workplace.** What the scheduler answers is put into the worker,
and what was got and reported is noted. -/
def act (w : Workplace σ) : WorkerAction σ → Workplace σ
  | .silent next => { w with worker := next }
  | .getNextJob now next =>
    match w.world.sched.getNextJob now with
    | (none, sched) => { w with world := w.world.withSched sched, worker := next none }
    | (some job, sched) =>
      { world := w.world.withSched sched
        worker := next (some job)
        got := insert job w.got
        reported := w.reported.erase job
        taken := w.taken.erase job }
  | .completeJob job result now next =>
    let r := w.world.sched.completeJob order now job result
    { w with
      world := w.world.withSched r.1
      worker := next r.2
      reported := insert job w.reported }
  | .failJob job error now draw traceback next =>
    let r := w.world.sched.failJob now draw traceback job error
    { w with
      world := w.world.withSched r.1
      worker := next r.2
      reported := insert job w.reported }

/-- **One step.** Somebody else may take any step of clients and workers meanwhile. -/
def step (w : Workplace σ) : WorkplaceStep ι → Option (Workplace σ)
  | .own i => (m.step w.worker i).map (w.act order)
  | .other l =>
    (w.world.operate order l).map (fun world =>
      { w with world := world, taken := (w.world.popped l).toFinset ∪ w.taken })

/-- The job needs nobody at this workplace: it is settled, or somebody else has taken it. -/
def Settled (w : Workplace σ) (k : UUID) : Prop :=
  w.world.sched.core.Settled k ∨ k ∈ w.taken

instance (w : Workplace σ) (k : UUID) : Decidable (w.Settled k) :=
  inferInstanceAs (Decidable ((w.world.sched.core.queue.contains k = true
    ∨ (w.world.sched.core.state k).isTerminal = true) ∨ k ∈ w.taken))

/-- **No job is left.** When the worker has ended, every job that it got was reported, is in the
queue – or was taken from there by somebody else –, or is in a terminal state; and none is
SCHEDULED or RUNNING with nobody holding it. -/
def NoneLeft (w : Workplace σ) : Prop :=
  m.ended w.worker = true → ∀ k ∈ w.got,
    (k ∈ w.reported ∨ w.world.sched.core.queue.contains k = true
        ∨ (w.world.sched.core.state k).isTerminal = true ∨ k ∈ w.taken)
      ∧ (w.world.sched.core.state k = .scheduled ∨ w.world.sched.core.state k = .running →
        w.world.sched.core.queue.contains k = true ∨ k ∈ w.taken ∨ w.world.Held k)

/-- What the worker has no more in its hands when it goes on so is settled. -/
def LetsGoSettled (w : Workplace σ) (next : σ) : Prop :=
  ∀ k ∈ m.hands w.worker, k ∉ m.hands next → w.Settled k

/-- **An action is careful**: what the worker lets go of is settled, or is reported, the report
is taken, and a retry finds room in the queue. -/
def CarefulAction (w : Workplace σ) : WorkerAction σ → Prop
  | .silent next => w.LetsGoSettled m next
  | .getNextJob _ _ => True
  | .completeJob job _ _ next =>
    ¬ w.world.sched.TakesCompletion job → ∀ error, w.LetsGoSettled m (next (.error error))
  | .failJob job error now draw _ next =>
    (w.world.sched.TakesFailure now draw job error →
        (w.world.sched.retries job error = true → w.world.sched.core.queue.full = false)
          ∨ w.LetsGoSettled m (next (.ok ())))
      ∧ (¬ w.world.sched.TakesFailure now draw job error →
        ∀ error, w.LetsGoSettled m (next (.error error)))

/-- **A run's guard**: a condition on the worker's steps, and the others use the scheduler through
its own methods. -/
def Guard (own : Workplace σ → ι → Prop) (w : Workplace σ) : WorkplaceStep ι → Prop
  | .own i => own w i
  | .other l => w.world.ThroughScheduler l

instance (own : Workplace σ → ι → Prop) (w : Workplace σ) [∀ i, Decidable (own w i)] :
    (l : WorkplaceStep ι) → Decidable (w.Guard own l)
  | .own i => inferInstanceAs (Decidable (own w i))
  | .other l => inferInstanceAs (Decidable (w.world.ThroughScheduler l))

/-- **The invariant**: what the worker got is in its hands, or needs nobody. -/
def Accounted (w : Workplace σ) : Prop := ∀ k ∈ w.got, k ∈ m.hands w.worker ∨ w.Settled k

variable {order m} {w w' : Workplace σ}

/-- What was accounted for is, after a step that got no job. -/
theorem Accounted.go (h : w.Accounted m) {next : σ} {sched : Scheduler}
    (settled : ∀ k, w.world.sched.core.Settled k → sched.core.Settled k) {reported : Finset UUID}
    (hands : ∀ k ∈ m.hands w.worker, k ∈ m.hands next ∨ w.Settled k ∨ sched.core.Settled k) :
    Accounted m { w with
      world := w.world.withSched sched, worker := next, reported := reported } := by
  have hstill : ∀ k, w.Settled k → sched.core.Settled k ∨ k ∈ w.taken :=
    fun k hk => hk.imp_left (settled k)
  intro k hk
  rcases h k hk with hheld | hsettled
  · rcases hands k hheld with hnext | hbefore | hafter
    · exact Or.inl hnext
    · exact Or.inr (hstill k hbefore)
    · exact Or.inr (Or.inl hafter)
  · exact Or.inr (hstill k hsettled)

/-- What is let go of with care is settled, the rest is in the worker's hands. -/
theorem LetsGoSettled.hands {next : σ} (h : w.LetsGoSettled m next) (k : UUID)
    (held : k ∈ m.hands w.worker) : k ∈ m.hands next ∨ w.Settled k := by
  by_cases hnext : k ∈ m.hands next
  · exact Or.inl hnext
  · exact Or.inr (h k held hnext)

/-- **The worker's own steps** keep its jobs accounted for, if they are careful. -/
theorem Accounted.act (h : w.Accounted m) {input : ι} {action : WorkerAction σ}
    (taken : m.step w.worker input = some action) (careful : w.CarefulAction m action) :
    Accounted m (w.act order action) := by
  cases action with
  | silent next =>
    refine h.go (fun _ => id) (fun k hheld => ?_)
    exact (careful.hands k hheld).imp_right Or.inl
  | getNextJob now next =>
    -- only the job that is handed out can cease to be settled, and the worker has it in its hands
    obtain ⟨hgets, hkeeps⟩ := m.got _ _ _ _ taken
    have hsettled : ∀ k, (w.world.sched.getNextJob now).1 ≠ some k →
        w.world.sched.core.Settled k → (w.world.sched.getNextJob now).2.core.Settled k :=
      fun k hother hk => Scheduler.settled_getNextJob hk hother
    revert hsettled
    unfold Workplace.act
    simp only
    split
    · rename_i sched hnone
      rw [hnone]
      intro hsettled
      exact h.go (fun k => hsettled k (by simp)) (fun k hheld => Or.inl (hkeeps none k hheld))
    · rename_i job sched hsome
      rw [hsome]
      intro hsettled k hk
      by_cases hjob : k = job
      · rw [hjob]
        exact Or.inl (hgets job)
      · have hother : some job ≠ some k := fun heq => hjob (Option.some.inj heq).symm
        rcases h k (Finset.mem_of_mem_insert_of_ne hk hjob) with hheld | hk | htaken
        · exact Or.inl (hkeeps (some job) k hheld)
        · exact Or.inr (Or.inl (hsettled k hother hk))
        · exact Or.inr (Or.inr (Finset.mem_erase.mpr ⟨hjob, htaken⟩))
  | completeJob job result now next =>
    have hsettled : ∀ k, w.world.sched.core.Settled k →
        (w.world.sched.completeJob order now job result).1.core.Settled k := fun k hk =>
      Scheduler.retained_completeJob (SchedulerCore.retained_settled k) trivial hk now job result
    refine h.go hsettled (fun k hheld => ?_)
    -- a report that is taken settles the job; one that is refused leaves what the worker then lets
    -- go of
    by_cases htakes : w.world.sched.TakesCompletion job
    · obtain ⟨hok, hdone⟩ := Scheduler.completeJob_of_takes htakes order now result
      rw [hok]
      by_cases hjob : k = job
      · rw [hjob]
        exact Or.inr (Or.inr hdone)
      · exact Or.inl (m.completed _ _ _ _ _ _ taken k hheld hjob)
    · obtain ⟨error, herror⟩ := Scheduler.completeJob_of_not_takes htakes order now result
      rw [herror]
      exact ((careful htakes error).hands k hheld).imp_right Or.inl
  | failJob job error now draw traceback next =>
    have hsettled : ∀ k, w.world.sched.core.Settled k →
        (w.world.sched.failJob now draw traceback job error).1.core.Settled k := fun k hk =>
      Scheduler.retained_failJob (SchedulerCore.retained_settled k) trivial trivial trivial hk now
        draw traceback job error
    refine h.go hsettled (fun k hheld => ?_)
    by_cases htakes : w.world.sched.TakesFailure now draw job error
    · obtain ⟨hok, hdone⟩ := Scheduler.failJob_of_takes htakes traceback
      rw [hok]
      -- a failure that is taken settles its job if a retry finds room
      rcases careful.1 htakes with hroom | hgo
      · by_cases hjob : k = job
        · rw [hjob]
          exact Or.inr (Or.inr (hdone hroom))
        · exact Or.inl (m.failed _ _ _ _ _ _ _ _ taken k hheld hjob)
      · exact (hgo.hands k hheld).imp_right Or.inl
    · obtain ⟨refused, hrefused⟩ := Scheduler.failJob_of_not_takes htakes traceback
      rw [hrefused]
      exact ((careful.2 htakes refused).hands k hheld).imp_right Or.inl

/-- **A step of the others** leaves settled what it does not take out of the queue. -/
theorem Accounted.other (h : w.Accounted m) {l : OperationStep} {world : World}
    (through : w.world.ThroughScheduler l) (taken : w.world.operate order l = some world) :
    Accounted m { w with
      world := world, taken := (w.world.popped l).toFinset ∪ w.taken } := by
  intro k hk
  refine (h k hk).imp_right (fun hsettled => ?_)
  rcases hsettled with hsettled | htaken
  · by_cases hpops : ∀ now, l ≠ .call (.getNextJob now)
    · exact Or.inl (World.retained_operate (SchedulerCore.retained_settled k) (fun _ => trivial)
        hsettled through hpops taken)
    · obtain ⟨now, hpop⟩ := not_forall_not.mp hpops
      subst hpop
      obtain ⟨sched, hperform, rfl⟩ := World.operate_call taken
      cases hperform
      by_cases hout : (w.world.sched.getNextJob now).1 = some k
      · refine Or.inr (Finset.mem_union_left _ ?_)
        rw [Option.mem_toFinset]
        exact hout
      · exact Or.inl (Scheduler.settled_getNextJob hsettled hout)
  · exact Or.inr (Finset.mem_union_right _ htaken)

/-- **A condition is enough** if the actions of the steps that meet it are careful. -/
def Enough (m : WorkerMachine σ ι) (own : Workplace σ → ι → Prop) : Prop :=
  ∀ w i action, own w i → m.step w.worker i = some action → w.CarefulAction m action

/-- **Every step** that meets such a condition keeps the worker's jobs accounted for. -/
theorem Accounted.step (h : w.Accounted m) {own : Workplace σ → ι → Prop} (enough : Enough m own)
    {l : WorkplaceStep ι} (guard : w.Guard own l) (taken : w.step order m l = some w') :
    w'.Accounted m := by
  cases l with
  | own input =>
    obtain ⟨action, haction, rfl⟩ := Option.map_eq_some_iff.mp taken
    exact h.act haction (enough w input action guard haction)
  | other l =>
    obtain ⟨world, hworld, rfl⟩ := Option.map_eq_some_iff.mp taken
    exact h.other guard hworld

/-- What is settled is not left. A worker that has ended has nothing in its hands, so what it got
was reported or is settled. -/
theorem Accounted.noneLeft (h : w.Accounted m) : w.NoneLeft m := by
  intro hended k hk
  have hsettled : w.Settled k := by
    refine (h k hk).resolve_left ?_
    rw [m.none_at_end _ hended]
    exact List.not_mem_nil
  rcases hsettled with (hcontains | hterminal) | htaken
  · exact ⟨Or.inr (Or.inl hcontains), fun _ => Or.inl hcontains⟩
  · refine ⟨Or.inr (Or.inr (Or.inl hterminal)), fun hstate => ?_⟩
    unfold SchedulerCore.StateOf at hterminal
    rcases hstate with hstate | hstate <;> rw [hstate] at hterminal <;> cases hterminal
  · exact ⟨Or.inr (Or.inr (Or.inr htaken)), fun _ => Or.inr (Or.inl htaken)⟩

/-- **Workers that are careful leave no job**, in whatever interleaving with what the others do at
the scheduler. -/
theorem none_left {own : Workplace σ → ι → Prop} (enough : Enough m own) {world : World}
    {worker : σ} {ls : List (WorkplaceStep ι)}
    (run : GuardedRun (step order m) (Guard own) (init world worker) ls w) : w.NoneLeft m := by
  have haccounted : w.Accounted m :=
    run.invariant (P := Accounted m) (fun k hk => absurd hk (Finset.notMem_empty k))
      (fun _ _ _ h guard taken => h.step enough guard taken)
  exact haccounted.noneLeft

end Workplace

end JobOrchestrator
