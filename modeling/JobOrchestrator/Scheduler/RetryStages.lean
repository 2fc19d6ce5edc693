import JobOrchestrator.Scheduler.Bystander
import JobOrchestrator.Scheduler.RetryAccounting
import JobOrchestrator.Scheduler.RetryDefaults

/-!
# A retried job in a worker's hands

Where a run of a job can be, when nothing but its worker acts on the job: `RunPc.Stage` gives
for each place of `run_job` the state of the job, and how many executions there were against
how many attempts were counted. Each step keeps to it. The function is called at one place,
the attempt is counted at the next, where the retry does not overflow, and a retry ends in the
queue; otherwise the job ends COMPLETED or FAILED.

What a worker does after that – the counts, the reports – leaves the job alone.
-/

namespace JobOrchestrator

/-- Whether the function returned. -/
def Outcome.succeeds : Outcome → Bool
  | returned _ => true
  | raised _ => false

namespace RunPc

/-- What is left to do leaves the job alone: it was queued again, or has ended. -/
def settled : RunPc → Bool
  | countCompleted _ | notifyComplete _ | callComplete _ | countFailed _ | notifyFailed _
  | callFailed _ | countRetry _ _ => true
  | _ => false

/-- The function is called here. -/
def calls : RunPc → Bool
  | invoke => true
  | _ => false

/-- A failure is handled here. -/
def failing : RunPc → Bool
  | handle r => !r.success
  | _ => false

/-- **Where a run can be**, of a job that is retried `m` times and succeeds after `good`
failures, when `n` attempts were counted and the function was executed `e` times. -/
def Stage (m good : ℕ) (pc : RunPc) (st : JobState) (n e : ℕ) : Prop :=
  match pc with
  | dequeued | checkPending | checkScheduled | toRunning => st = .scheduled ∧ e = n
  | invoke => st = .running ∧ e = n
  | handle r => st = .running ∧ e = n + 1 ∧ (r.success = true ↔ n = good)
  | toCompleted _ => st = .running ∧ e = n + 1 ∧ n = good
  | toRetrying _ => st = .running ∧ e = n
  | backToScheduled _ => st = .retrying ∧ e = n
  | push _ => st = .scheduled ∧ e = n
  | toFailed _ => st = .running ∧ e = n + 1 ∧ n = m ∧ n ≠ good
  | _ => False

/-- **How a job ends.** -/
def Final (m good : ℕ) (st : JobState) (n e : ℕ) : Prop :=
  e = n + 1 ∧ (n = good ∧ st = .completed ∨ n = m ∧ n ≠ good ∧ st = .failed)

variable {m good n e : ℕ} {pc pc' : RunPc} {st st' : JobState}

theorem Stage.not_settled (h : pc.Stage m good st n e) : pc.settled = false := by
  cases pc <;> first | rfl | cases h

/-- The function is called for the attempt that was counted last. -/
theorem Stage.executions (h : pc.Stage m good st n e) (calls : pc.calls = true) : e = n := by
  cases pc <;> first | exact h.2 | cases calls

theorem Stage.holds (h : pc.Stage m good st n e) : pc.holds = true := by
  cases pc <;> first | rfl | cases h

theorem calls_eq_false (other : pc ≠ .invoke) : pc.calls = false := by
  cases pc <;> first | rfl | exact absurd rfl other

theorem failing_eq_false (other : ∀ r, pc ≠ .handle r) : pc.failing = false := by
  cases pc <;> first | rfl | exact absurd rfl (other _)

/-- A retry is not under way yet where a failure is handled. -/
theorem not_retrying_of_failing (failing : pc.failing = true) : pc.retrying = false := by
  cases pc <;> first | rfl | cases failing

/-- The result is looked at without a transition. -/
theorem Moves.state_of_handle {r : JobResult} {next : Option RunPc}
    (h : Moves (.handle r) st next st') : st' = st := by
  cases h with
  | inner hpc | outer hpc => cases hpc
  | _ => rfl

/-- **The automaton keeps to the stages**, between the places where something is decided. -/
theorem Moves.stage {next : Option RunPc} (h : pc.Moves st next st')
    (stage : pc.Stage m good st n e) (called : pc ≠ .invoke) (handled : ∀ r, pc ≠ .handle r) :
    ∃ pc', next = some pc' ∧ pc'.retrying = pc.retrying
      ∧ (pc'.Stage m good st' n e
        ∨ pc'.settled = true ∧ pc'.retrying = false ∧ Final m good st' n e) := by
  cases h with
  | invoked => exact absurd rfl called
  | handled => exact absurd rfl (handled _)
  | inner hpc can =>
    cases hpc with
    | toScheduled | retryToScheduled => cases stage
    | toRunning => exact ⟨_, rfl, rfl, Or.inl ⟨rfl, stage.2⟩⟩
  | outer hpc can =>
    cases hpc with
    | toCompleted r => exact ⟨_, rfl, rfl, Or.inr ⟨rfl, rfl, stage.2.1, Or.inl ⟨stage.2.2, rfl⟩⟩⟩
    | toRetrying r | backToScheduled r => exact ⟨_, rfl, rfl, Or.inl ⟨rfl, stage.2⟩⟩
    | toFailed r =>
      obtain ⟨-, hexecuted, hlast, hnever⟩ := stage
      exact ⟨_, rfl, rfl, Or.inr ⟨rfl, rfl, hexecuted, Or.inr ⟨hlast, hnever, rfl⟩⟩⟩
  | innerRefused hpc cannot | outerRefused hpc cannot =>
    cases hpc <;> simp_all [Stage, canTransition, validTransitions]
  | _ => simp_all [Stage, RunPc.retrying]

end RunPc

namespace SchedulerCore

open ThreadSafePriorityQueue

variable {c c' : SchedulerCore} {k : UUID} {e : QueueEntry}

/-- **The job is queued**, with its priority and for the time it is scheduled at. The entry was
made by the push of this very attempt, so what it says is still true of the job. -/
structure Queued (k : UUID) (e : QueueEntry) (c : SchedulerCore) : Prop where
  waits : c.queue.WaitsAs k e
  priority : e.priority = (c.jobs.get k).priority.value
  scheduledTime : e.scheduledTime
    = ((c.jobs.get k).scheduledAt.getD (c.jobs.get k).createdAt).timestamp

theorem Queued.due (h : Queued k e c) {t : DateTime} (ht : (c.jobs.get k).scheduledAt = some t) :
    e.scheduledTime = t.timestamp := by
  rw [h.scheduledTime, ht]
  rfl

theorem Spared.retryRecord (h : Spared k c c') : c'.retryRecord k = c.retryRecord k :=
  congrArg Job.retryRecord h.job

theorem Queued.spared (h : Queued k e c) (spared : Spared k c c') : Queued k e c' where
  waits := h.waits.othersMoves spared.queue
  priority := by
    rw [spared.job]
    exact h.priority
  scheduledTime := by
    rw [spared.job]
    exact h.scheduledTime

/-- **A push** of the job object queues it, with what the object says at that moment. -/
theorem Queued.of_insert {j : Job} (lacks : c.queue.Lacks k) (id : j.id = k)
    (queue : c'.queue = c.queue.insert j) (priority : j.priority = (c'.jobs.get k).priority)
    (scheduledAt : j.scheduledAt = (c'.jobs.get k).scheduledAt)
    (createdAt : j.createdAt = (c'.jobs.get k).createdAt) : ∃ e, Queued k e c' := by
  subst id
  refine ⟨c.queue.entryFor j, ?_, congrArg JobPriority.value priority, ?_⟩
  · rw [queue]
    exact lacks.insert
  · show ((j.scheduledAt).getD j.createdAt).timestamp = _
    rw [scheduledAt, createdAt]

/-- **A job that was submitted** is stored, SCHEDULED and queued. -/
theorem queued_submit {text : String} (lacks : c.queue.Lacks k)
    (submitted : (c.submit k).2 = .ok text) :
    k ∈ (c.submit k).1.store ∧ (c.submit k).1.jobs.get k = { c.jobs.get k with state := .scheduled }
      ∧ (c.submit k).1.maxSize = c.maxSize
      ∧ (∃ j : Job, (c.submit k).1.queue = c.queue.insert j)
      ∧ ∃ e, Queued k e (c.submit k).1 := by
  unfold submit storeAndPush at submitted ⊢
  split at submitted
  · cases submitted
  · rename_i hunknown
    split at submitted
    · cases submitted
    · rename_i hroom
      rw [if_neg hunknown, if_neg hroom]
      split at submitted
      · cases submitted
      · rename_i scheduled hok
        have hqueue := queue_transition hok
        have hstore := store_transition hok (Finset.mem_insert_self k c.store)
        have hjob : scheduled.jobs.get k = { c.jobs.get k with state := .scheduled } := by
          rw [(transition_ok hok).2]
          unfold setState modifyJob
          rw [JobTable.get_modify_self]
          exact congrArg (fun j : Job => { j with state := .scheduled }) (c.jobs.with_id k)
        have hmaxSize : scheduled.maxSize = c.maxSize := by
          rw [(transition_ok hok).2]
          rfl
        unfold enqueue ThreadSafePriorityQueue.push at submitted ⊢
        cases hfull : scheduled.queue.full with
        | true =>
          rw [hfull] at submitted
          cases submitted
        | false =>
          simp only [hqueue, Bool.false_eq_true, if_false]
          refine ⟨hstore ▸ Finset.mem_insert_self k c.store, hjob, hmaxSize, ⟨_, rfl⟩, ?_⟩
          exact Queued.of_insert lacks (JobTable.id_get _ k) rfl rfl rfl rfl

/-- **A pending job that is unknown** is taken by a queue without a bound. -/
theorem submit_ok (unknown : k ∉ c.store) (pending : c.state k = .pending)
    (maxSize : c.maxSize = none) (unbounded : c.queue.Open) : (c.submit k).2 = .ok k.str := by
  have hroom : c.atCapacity = false := by
    unfold atCapacity
    rw [maxSize]
  have hcan : canTransition (({ c with store := insert k c.store } : SchedulerCore).state k)
      .scheduled = true := by
    rw [show ({ c with store := insert k c.store } : SchedulerCore).state k = .pending from pending]
    rfl
  obtain ⟨scheduled, hok⟩ := exists_transition hcan
  have hfull : scheduled.queue.full = false := by
    rw [queue_transition hok]
    exact unbounded.full
  unfold submit storeAndPush
  rw [if_neg unknown, hroom, if_neg Bool.false_ne_true]
  simp only [hok]
  unfold enqueue ThreadSafePriorityQueue.push
  rw [hfull]
  rfl

end SchedulerCore

namespace Task

open SchedulerCore Scheduler

variable {order : IterationOrder UUID} {input : RunInput} {s : Scheduler} {task : Task}
  {m good n e : ℕ}

/-- Whether the scheduler runs is not up to a worker. -/
theorem running_step (input : RunInput) (task : Task) :
    (task.step order input s).1.running = s.running := by
  have hkept : StepKept order task.job (fun s' => s'.running = s.running) :=
    { transition := fun _ h => h
      modifyJob := fun _ _ h => h
      count := fun _ _ h => h
      notifyComplete := fun now h => by
        unfold Scheduler.notifyComplete
        split <;> exact h
      notifyFailed := fun now error h => by
        unfold Scheduler.notifyFailed
        split <;> exact h
      pushRetry := fun h => h
      call := fun _ _ h => h }
  exact hkept.step (fun _ _ {_ _} _ _ _ _ h => h) (fun _ _ _ {_} h => h) rfl input

/-- The accounts are written at one place of a run. -/
theorem retryRecord_step (other : ∀ r, task.pc ≠ .handle r) (input : RunInput) (k : UUID) :
    (task.step order input s).1.core.retryRecord k = s.core.retryRecord k := by
  have hkept : StepKept order task.job
      (fun s' => s'.core.retryRecord k = s.core.retryRecord k) :=
    { transition := fun hok h => (retryRecord_transition hok k).trans h
      modifyJob := fun f record h => (retryRecord_modifyJob record task.job k).trans h
      count := fun _ _ h => h
      notifyComplete := fun now h =>
        stable_notifyComplete (stable_retryRecord k _) order now task.job h
      notifyFailed := fun now error h =>
        stable_notifyFailed (stable_retryRecord k _) now task.job error h
      pushRetry := fun h => (retryRecord_modifyJob
        (f := fun j => { j with error := none, traceback := none }) (fun _ => rfl) task.job k).trans
          h
      call := fun _ _ h => h }
  exact hkept.step (fun r hpc => absurd hpc (other r)) (fun _ _ _ {_} h => h) rfl input

/-- **A step that touches its own job only.** The push and the reports are the steps that do
more. -/
theorem own_step (busy : task.pc.settled = false) (pushes : ∀ r, task.pc ≠ .push r)
    (input : RunInput) :
    OwnJob task.job s (task.step order input s).1
      ∧ (∀ next, (task.step order input s).2.task? = some next → next.job = task.job)
      ∧ task.pc.Moves (s.core.state task.job) ((task.step order input s).2.task?.map Task.pc)
        ((task.step order input s).1.core.state task.job) := by
  have hcases := step_cases order input task s
  generalize task.step order input s = r at hcases
  cases hcases with
  | own own stays moves => exact ⟨own, stays, moves⟩
  | notifyComplete r here | notifyFailed r here =>
    rw [here] at busy
    cases busy
  | push r here => exact absurd here (pushes r)

/-- **A settled run leaves its job alone.** It has only callbacks and reports before it, and
these are about a job that has ended or is in the queue again. -/
theorem settled_step (stored : task.job ∈ s.core.store) (settled : task.pc.settled = true)
    (input : RunInput) :
    Spared task.job s (task.step order input s).1
      ∧ ∀ next, (task.step order input s).2.task? = some next →
        next.job = task.job ∧ next.pc.settled = true ∧ next.pc.retrying = false := by
  obtain ⟨job, startedAt, pc⟩ := task
  cases pc with
  | notifyComplete r =>
    refine ⟨.notifyComplete (Or.inl stored) order _ job, ?_⟩
    rintro next ⟨⟩
    exact ⟨rfl, rfl, rfl⟩
  | notifyFailed r =>
    refine ⟨.notifyFailed (Or.inl stored) _ job _, ?_⟩
    rintro next ⟨⟩
    exact ⟨rfl, rfl, rfl⟩
  | countCompleted r | countFailed r =>
    refine ⟨(Spared.refl job s).of_parts rfl rfl rfl rfl rfl, ?_⟩
    rintro next ⟨⟩
    exact ⟨rfl, rfl, rfl⟩
  | callComplete r | callFailed r | countRetry pushed r =>
    exact ⟨(Spared.refl job s).of_parts rfl rfl rfl rfl rfl, fun next h => by cases h⟩
  | _ => cases settled

/-- **A retry is booked**: the attempt is counted, and scheduled after the delay of the policy. -/
def booked (policy : Retry.RetryPolicy) (input : RunInput) (record : RetryRecord) : RetryRecord :=
  { record with
    attempt := record.attempt + 1
    scheduledAt := some ((DateTime.utcnow input.handled).addSeconds
      (policy.calculateDelay record.attempt input.draw)) }

/-- **What becomes of a job in a worker's hands**: its run goes on, an attempt is counted for it,
or it has ended. The second one is the retry, and the only one that writes to the accounts. -/
inductive Advance (m good : ℕ) (policy : Retry.RetryPolicy) (input : RunInput) (task next : Task)
    (st : JobState) (record record' : RetryRecord) (e : ℕ) : Prop
  | on (same : record' = record) (retrying : next.pc.retrying = task.pc.retrying)
      (stage : next.pc.Stage m good st record.attempt e)
      (fails : task.pc.failing = true → next.pc.retrying = false)
  | counted (fails : task.pc.failing = true) (booked : record' = booked policy input record)
      (left : record.attempt < m ∧ record.attempt < good)
      (retrying : next.pc.retrying = true)
      (stage : next.pc.Stage m good st (record.attempt + 1) e)
  | ends (same : record' = record) (retrying : next.pc.retrying = task.pc.retrying)
      (settled : next.pc.settled = true) (counted : next.pc.retrying = false)
      (quiet : task.pc.failing = false) (final : RunPc.Final m good st record.attempt e)

variable {policy : Retry.RetryPolicy}

/-- The decision, where the policy names `Exception` and has so many retries. -/
theorem handle_step {job : UUID} {startedAt : DateTime} {r : JobResult}
    (policyFor : (s.core.retryRecord job).policyFor s.retryHandler = policy)
    (maxRetries : policy.maxRetries = m) (retryOn : policy.retryOn = ["Exception"])
    (stage : (RunPc.handle r).Stage m good (s.core.state job) (s.core.retryRecord job).attempt e)
    (few : (s.core.retryRecord job).attempt ≤ m ∧ (s.core.retryRecord job).attempt ≤ good)
    (fits : r.success = false → (s.core.retryRecord job).attempt < m →
      s.RetryFits input.handled input.draw job) :
    ∃ next, (step order input ⟨job, startedAt, .handle r⟩ s).2 = .running next
      ∧ Advance m good policy input ⟨job, startedAt, .handle r⟩ next (s.core.state job)
        (s.core.retryRecord job)
        ((step order input ⟨job, startedAt, .handle r⟩ s).1.core.retryRecord job) e := by
  obtain ⟨hrunning, hexecuted, hgood⟩ := stage
  simp only [step]
  split
  · rename_i hsuccess
    refine ⟨_, rfl, .on (retryRecord_modifyJob (fun _ => by rfl) job job) rfl ?_ (fun _ => rfl)⟩
    exact ⟨hrunning, hexecuted, hgood.mp hsuccess⟩
  · rename_i hfailure
    -- a failure: the error is written first, which does not touch the retry fields
    have hnever : (s.core.retryRecord job).attempt ≠ good := fun h => hfailure (hgood.mpr h)
    have hfails : (RunPc.handle r).failing = true := by
      show (!r.success) = true
      rw [Bool.eq_false_iff.mpr hfailure]
      rfl
    have hnoted : (s.core.modifyJob job (fun j =>
        { j with error := r.error, traceback := r.traceback })).retryRecord job
          = s.core.retryRecord job := retryRecord_modifyJob (fun _ => by rfl) job job
    generalize s.core.modifyJob job (fun j =>
      { j with error := r.error, traceback := r.traceback }) = noted at hnoted ⊢
    have hpolicy : s.retryHandler.getPolicyForJob (noted.jobs.get job) = policy := by
      rw [← policyFor, ← hnoted]
      rfl
    have hattempt : (noted.jobs.get job).attempt = (s.core.retryRecord job).attempt :=
      congrArg RetryRecord.attempt hnoted
    have hfits : (s.core.retryRecord job).attempt < m →
        s.retryHandler.Fits input.handled input.draw (noted.jobs.get job) := fun hleft =>
      (RetryRecord.fits_congr hnoted _ _).mpr (fits (Bool.eq_false_iff.mpr hfailure) hleft)
    -- `run_job` asks about a plain exception, of which the default `retry_on` takes every one
    have hdecision : s.retryHandler.shouldRetry (noted.jobs.get job)
        (some (.plain (orText r.error "Unknown"))) = true ↔ _ :=
      shouldRetry_of_exception _ (by rw [hpolicy, retryOn])
    rw [hpolicy, maxRetries, hattempt, Nat.cast_lt] at hdecision
    split
    · rename_i hretry
      rw [prepareForRetry_of_fits (hfits (hdecision.mp hretry))]
      refine ⟨_, rfl, .counted hfails ?_ ⟨hdecision.mp hretry, ?_⟩ rfl ⟨hrunning, hexecuted⟩⟩
      · show (noted.modifyJob job _).retryRecord job = _
        rw [← hnoted]
        unfold booked SchedulerCore.retryRecord SchedulerCore.modifyJob
        rw [JobTable.get_modify_self]
        unfold Retry.RetryHandler.prepared Retry.RetryHandler.retryAt
        rw [hpolicy]
        rfl
      · exact lt_of_le_of_ne few.2 hnever
    · rename_i hlast
      refine ⟨_, rfl, .on hnoted rfl ⟨hrunning, hexecuted, ?_, hnever⟩ (fun _ => rfl)⟩
      -- no retry is left: the attempt has come to the maximum
      exact le_antisymm few.1 (not_lt.mp (fun h => hlast (hdecision.mpr h)))

/-- **A step of a run of the job**, up to the push of a retry. -/
theorem advance_step (policyFor : (s.core.retryRecord task.job).policyFor s.retryHandler = policy)
    (maxRetries : policy.maxRetries = m) (retryOn : policy.retryOn = ["Exception"])
    (stage : task.pc.Stage m good (s.core.state task.job) (s.core.retryRecord task.job).attempt e)
    (few : (s.core.retryRecord task.job).attempt ≤ m
      ∧ (s.core.retryRecord task.job).attempt ≤ good) (pushes : ∀ r, task.pc ≠ .push r)
    (outcome : task.pc.calls = true → (input.outcome.succeeds = true ↔ e = good))
    (fits : task.pc.failing = true → (s.core.retryRecord task.job).attempt < m →
      s.RetryFits input.handled input.draw task.job) :
    OwnJob task.job s (task.step order input s).1
      ∧ ∃ next, (task.step order input s).2 = .running next ∧ next.job = task.job
        ∧ Advance m good policy input task next ((task.step order input s).1.core.state task.job)
          (s.core.retryRecord task.job) ((task.step order input s).1.core.retryRecord task.job)
          (e + task.pc.calls.toNat) := by
  obtain ⟨hown, hstays, hmoves⟩ : OwnJob task.job s (task.step order input s).1 ∧ _ :=
    own_step stage.not_settled pushes input
  refine ⟨hown, ?_⟩
  by_cases hhandle : ∃ r, task.pc = .handle r
  · -- the decision about a retry is the one step that writes to the retry fields
    obtain ⟨r, hr⟩ := hhandle
    obtain ⟨job, startedAt, pc⟩ := task
    cases hr
    obtain ⟨next, hnext, hadvance⟩ : ∃ next,
        (step order input ⟨job, startedAt, .handle r⟩ s).2 = .running next ∧ _ :=
      handle_step policyFor maxRetries retryOn stage few (fun hfailed => fits (by
        show (!r.success) = true
        rw [hfailed]
        rfl))
    rw [hnext] at hstays hmoves
    refine ⟨next, hnext, hstays next rfl, ?_⟩
    rw [hmoves.state_of_handle]
    exact hadvance
  · have hrecord : (task.step order input s).1.core.retryRecord task.job
        = s.core.retryRecord task.job := retryRecord_step (not_exists.mp hhandle) input task.job
    by_cases hinvoke : task.pc = .invoke
    · obtain ⟨job, startedAt, pc⟩ := task
      cases hinvoke
      -- the call of the function counts as an execution, and its outcome is the one foretold
      refine ⟨_, rfl, rfl, .on hrecord rfl ⟨?_, ?_, ?_⟩ (fun h => by cases h)⟩
      · exact (state_modifyJob (fun _ => by rfl) job).trans stage.1
      · exact congrArg (· + 1) stage.2
      · rw [← stage.2, ← outcome rfl]
        cases input.outcome with
        | returned value => exact Iff.rfl
        | raised error => exact Iff.rfl
    · obtain ⟨pc, hpc, hretrying, hstage⟩ := hmoves.stage stage hinvoke (not_exists.mp hhandle)
      obtain ⟨next, hnext, rfl⟩ := Option.map_eq_some_iff.mp hpc
      have hquiet := RunPc.failing_eq_false (not_exists.mp hhandle)
      refine ⟨next, RunStatus.task?_eq_some.mp hnext, hstays next hnext, ?_⟩
      rw [RunPc.calls_eq_false hinvoke]
      rcases hstage with hstage | ⟨hsettled, hcounted, hfinal⟩
      · exact .on hrecord hretrying hstage (fun h => by rw [hquiet] at h; cases h)
      · exact .ends hrecord hretrying hsettled hcounted hquiet hfinal

/-- **The push of a retry** queues the job, where the queue has room. -/
theorem push_step {job : UUID} {startedAt : DateTime} {r : JobResult}
    (lacks : s.core.queue.Lacks job) (room : s.core.queue.full = false) (input : RunInput) :
    let s' := (step order input ⟨job, startedAt, .push r⟩ s).1
    (step order input ⟨job, startedAt, .push r⟩ s).2
        = .running ⟨job, startedAt, .countRetry true r⟩
      ∧ s'.core.store = s.core.store ∧ s'.core.state job = s.core.state job
      ∧ (∃ j : Job, s'.core.queue = s.core.queue.insert j) ∧ ∃ entry, s'.core.Queued job entry := by
  intro s'
  have hpushed := repushed job s
  obtain ⟨hanswer, hqueue⟩ : (s.pushRetry job).1 = true ∧ (s.pushRetry job).2.core.queue
      = s.core.queue.insert ((s.pushRetry job).2.core.jobs.get job) := by
    unfold Scheduler.pushRetry ThreadSafePriorityQueue.push
    simp only [SchedulerCore.modifyJob, Scheduler.withCore, room, Bool.false_eq_true, if_false]
    exact ⟨trivial, trivial⟩
  refine ⟨?_, hpushed.store, hpushed.states job, ⟨_, hqueue⟩, ?_⟩
  · rw [← hanswer]
    rfl
  · exact Queued.of_insert lacks (JobTable.id_get _ job) hqueue rfl rfl rfl

end Task

end JobOrchestrator
