import JobOrchestrator.Scheduler.RetryTurns

/-!
# The retry budget

A job that is retried up to `m` times waits in the queue, is in the hands of one worker, or has
ended. `World.Waiting`, `World.InHand` and `World.Over` say what its object and the tallies of
the run look like there: as many executions as attempts, one more once the function has
returned, and every retry due when the policy says, after the latest failure. Each step goes
from one of them to one of them, and where it is about the job there is less to come afterwards:
`RunPc.remaining` goes down, from one attempt to the next.
-/

namespace JobOrchestrator

/-- **The tallies of a run**: executions, retries counted, and the latest failure handled. -/
structure RetryTally where
  executions : ℕ
  retries : ℕ
  failure : Option (Time × ℚ)

/-- **When a retry is due**: the latest failure, and the delay of the policy for that attempt
after it. -/
def RetryRecord.DueAfter (policy : Retry.RetryPolicy) (failure : Option (Time × ℚ))
    (r : RetryRecord) : Prop :=
  match failure with
  | none => r.attempt = 0
  | some (handled, draw) => ∃ n, r.attempt = n + 1
    ∧ r.scheduledAt = some ((DateTime.utcnow handled).addSeconds (policy.calculateDelay n draw))

/-- What the handler has for a job stays, whatever is written to its accounts. -/
theorem Scheduler.Accounted.policyFor {k : UUID} {s s' : Scheduler} (h : Accounted k s s') :
    (s'.core.retryRecord k).policyFor s'.retryHandler
      = (s.core.retryRecord k).policyFor s.retryHandler := by
  have hpolicy : (s'.core.retryRecord k).retryPolicy = (s.core.retryRecord k).retryPolicy :=
    h.invariant (P := fun r => r.retryPolicy = (s.core.retryRecord k).retryPolicy)
      (fun _ _ entry hr => entry.retryPolicy.trans hr) rfl
  unfold RetryRecord.policyFor
  rw [hpolicy, h.retryHandler]

/-- **How much is left** of a run of the job. A retry that is on its way to the queue comes before
the wait there, and that before the next run. -/
def RunPc.remaining (m n : ℕ) (pc : RunPc) : ℕ :=
  (m - n) * 64 + (pc.rank + if pc.retrying then 32 else 0)

/-- And of the wait for it. -/
def RunPc.remainingWait (m n : ℕ) : ℕ := (m - n) * 64 + 31

namespace World

open Scheduler SchedulerCore ThreadSafePriorityQueue

variable {order : IterationOrder UUID} {k : UUID} {m good : ℕ} {policy : Retry.RetryPolicy}
  {w w' : World} {l : WorkStep} {n : ℕ} {t : RetryTally}

/-- What a step adds to the tallies. -/
def count (k : UUID) (w : World) (l : WorkStep) (w' : World) (t : RetryTally) : RetryTally where
  executions := t.executions + (w.executes k l w').toNat
  retries := t.retries + (w.retries k l w').toNat
  failure := (w.failure? k l).or t.failure

/-- **A retry of the job is in range**: where the step handles a failure with retries left, neither
the delay nor the date of the retry overflows. -/
def RetryInRange (k : UUID) (m : ℕ) (w : World) (l : WorkStep) : Prop :=
  ∀ f, w.failure? k l = some f → (w.sched.core.jobs.get k).attempt < m →
    w.sched.RetryFits f.1 f.2 k

/-- **The job's account**, after so many attempts: its policy, the attempts against the retries
counted and being counted, and the scheduler it is at. The last clause allows for the worker that
has counted the attempt and not yet the retry. -/
structure Account (k : UUID) (m good : ℕ) (policy : Retry.RetryPolicy) (w : World) (n : ℕ)
    (t : RetryTally) : Prop where
  stored : k ∈ w.sched.core.store
  running : w.sched.running = true
  unbounded : w.sched.core.queue.Open
  policyFor : (w.sched.core.retryRecord k).policyFor w.sched.retryHandler = policy
  maxRetries : policy.maxRetries = m
  retryOn : policy.retryOn = ["Exception"]
  attempt : (w.sched.core.retryRecord k).attempt = n
  few : n ≤ m ∧ n ≤ good
  crew : ∃ c, t.retries + c = n ∧ JobCrew k RunPc.retrying c w

/-- The workers that have the job are done with it, but for this one. -/
def SettledBut (k : UUID) (only : Option ℕ) (w : World) : Prop :=
  ∀ i task, w.workers i = some task → task.job = k → task.pc.settled = true ∨ only = some i

/-- **The job waits** in the queue. It waits for the time that the retry of its latest failure is
due. -/
structure Waiting (k : UUID) (m good : ℕ) (policy : Retry.RetryPolicy) (entry : QueueEntry)
    (w : World) (n : ℕ) (t : RetryTally) : Prop where
  account : Account k m good policy w n t
  queued : w.sched.core.Queued k entry
  state : w.sched.core.state k = .scheduled
  executions : t.executions = n
  due : (w.sched.core.retryRecord k).DueAfter policy t.failure
  settled : SettledBut k none w

/-- **The job is in the hands** of this worker. The stage says what the place of the worker, the
state of the job and the tallies have to do with one another. -/
structure InHand (k : UUID) (m good : ℕ) (policy : Retry.RetryPolicy) (worker : ℕ) (task : Task)
    (w : World) (n : ℕ) (t : RetryTally) : Prop where
  account : Account k m good policy w n t
  has : w.workers worker = some task
  job : task.job = k
  lacks : w.sched.core.queue.Lacks k
  stage : task.pc.Stage m good (w.sched.core.state k) n t.executions
  due : task.pc.retrying = true → (w.sched.core.retryRecord k).DueAfter policy t.failure
  settled : SettledBut k (some worker) w

/-- **The job has ended.** Nothing touches it any more, so the tallies stay as they are. -/
structure Over (k : UUID) (m good : ℕ) (policy : Retry.RetryPolicy) (w : World) (n : ℕ)
    (t : RetryTally) : Prop where
  account : Account k m good policy w n t
  lacks : w.sched.core.queue.Lacks k
  final : RunPc.Final m good (w.sched.core.state k) n t.executions
  settled : SettledBut k none w

/-! ## Nothing happens to the job -/

theorem count_of_idle (execution : w.execution? k l = none) (failure : w.failure? k l = none)
    (w' : World) : (w.count k l w' t).executions = t.executions
      ∧ (w.count k l w' t).failure = t.failure := by
  unfold count executes
  rw [execution, failure]
  exact ⟨rfl, rfl⟩

theorem Account.idle (h : Account k m good policy w n t) (spared : w.sched.Spared k w'.sched)
    (counted : ∀ n, JobCrew k RunPc.retrying n w →
      ∃ n', n' + (w.retries k l w').toNat = n ∧ JobCrew k RunPc.retrying n' w') :
    Account k m good policy w' n (w.count k l w' t) where
  stored := spared.core.stored.mpr h.stored
  running := spared.running.trans h.running
  unbounded := h.unbounded.othersMoves spared.core.queue
  policyFor := by
    rw [spared.core.retryRecord, spared.retryHandler]
    exact h.policyFor
  maxRetries := h.maxRetries
  retryOn := h.retryOn
  attempt := by
    rw [spared.core.retryRecord]
    exact h.attempt
  few := h.few
  crew := by
    obtain ⟨c, hsum, hcrew⟩ := h.crew
    obtain ⟨c', hc', hcrew'⟩ := counted c hcrew
    refine ⟨c', ?_, hcrew'⟩
    show t.retries + (w.retries k l w').toNat + c' = n
    omega

theorem SettledBut.idle {only : Option ℕ} (h : SettledBut k only w)
    (busy : ∀ i task, task.job = k → task.pc.settled = false →
      (w'.workers i = some task ↔ w.workers i = some task)) : SettledBut k only w' := by
  intro i task htask hjob
  cases hsettled : task.pc.settled with
  | true => exact Or.inl rfl
  | false =>
    have hbefore := h i task ((busy i task hjob hsettled).mp htask) hjob
    rw [hsettled] at hbefore
    exact hbefore

/-- The worker that has it goes on, and is done or is the one that is not. -/
theorem SettledBut.assign {only : Option ℕ} {worker : ℕ} (h : SettledBut k (some worker) w)
    {sched : Scheduler} {next : Option Task}
    (after : ∀ task, next = some task → task.pc.settled = true ∨ only = some worker) :
    SettledBut k only (w.assign worker sched next) := by
  intro i task htask hjob
  rcases workers_assign htask with ⟨rfl, hnext⟩ | ⟨hi, hold⟩
  · exact after task hnext
  · refine (h i task hold hjob).imp_right (fun heq => ?_)
    exact absurd (Option.some.inj heq).symm hi

/-- A worker that is not done with the job is the one that has it. -/
theorem SettledBut.only {only : Option ℕ} {worker : ℕ} {task : Task} (h : SettledBut k only w)
    (has : w.workers worker = some task) (job : task.job = k)
    (unsettled : task.pc.settled = false) : only = some worker :=
  (h worker task has job).resolve_left (by rw [unsettled]; exact Bool.false_ne_true)

/-- **What has ended stays as it is.** Others leave it alone, and the workers that still have it
are done with it. -/
theorem Over.step (h : Over k m good policy w n t) (happens : w.Happens order k l w') :
    Over k m good policy w' n (w.count k l w' t) := by
  cases happens with
  | idle spared busy rests execution failure counted =>
    refine ⟨h.account.idle spared counted, h.lacks.othersMoves spared.core.queue, ?_,
      h.settled.idle busy⟩
    rw [(count_of_idle execution failure w').1, spared.core.state]
    exact h.final
  | handedOut free popped => exact absurd popped (not_popped h.lacks _)
  | own has job unsettled => cases h.settled.only has job unsettled

/-! ## The job is handed out -/

/-- **Its turn**: it is due, and no other is handed out. -/
theorem Waiting.popped {entry : QueueEntry} (h : Waiting k m good policy entry w n t) {now : Time}
    (due : entry.scheduledTime ≤ now)
    (noOther : ∀ other, (w.sched.getNextJob now).1 = some other → other = k) :
    (w.sched.getNextJob now).1 = some k := by
  have hnext : (w.sched.getNextJob now).1 = (w.sched.core.queue.dequeue now).1 := by
    unfold getNextJob
    rw [if_neg]
    rw [h.account.running, h.account.unbounded.shutdown]
    simp
  obtain ⟨other, hother⟩ := Option.ne_none_iff_exists'.mp
    (dequeue_ne_none h.queued.waits.mem_live due)
  rw [← hnext] at hother
  rw [hother, noOther other hother]

/-- **A job that waits** waits on, or is handed out when it is due. -/
theorem Waiting.step {entry : QueueEntry} (h : Waiting k m good policy entry w n t)
    (happens : w.Happens order k l w') :
    Waiting k m good policy entry w' n (w.count k l w' t)
      ∨ ∃ worker now, l = .getNextJob worker now ∧ entry.scheduledTime ≤ now
        ∧ InHand k m good policy worker { job := k } w' n (w.count k l w' t) := by
  cases happens with
  | idle spared busy rests execution failure counted =>
    obtain ⟨hexecutions, hfailure⟩ := count_of_idle execution failure w' (t := t)
    refine Or.inl ⟨h.account.idle spared counted, h.queued.spared spared.core, ?_, ?_, ?_,
      h.settled.idle busy⟩
    · rw [spared.core.state]
      exact h.state
    · rw [hexecutions]
      exact h.executions
    · rw [hfailure, spared.core.retryRecord]
      exact h.due
  | @handedOut worker now free popped =>
    obtain ⟨hpopped, hsched⟩ := getNextJob_popped popped
    obtain ⟨hdue, hlacks⟩ := h.queued.waits.popped hpopped
    have hnobody : ∀ task, w.workers worker = some task → task.job ≠ k := by
      intro task has
      rw [free] at has
      cases has
    have hafter : (w.assign worker (w.sched.getNextJob now).2 (some { job := k })).workers worker
        = some { job := k } := workers_assign_self _ _ _ _
    rw [hsched] at hafter ⊢
    refine Or.inr ⟨worker, now, rfl, hdue, ⟨?_, hafter, rfl, hlacks, ⟨h.state, h.executions⟩,
      (fun hr => by cases hr), ?_⟩⟩
    · refine ⟨h.account.stored, h.account.running, h.account.unbounded.dequeue now,
        h.account.policyFor, h.account.maxRetries, h.account.retryOn, h.account.attempt,
        h.account.few, ?_⟩
      obtain ⟨c, hsum, hcrew⟩ := h.account.crew
      refine ⟨c, hsum, hcrew.assign ?_⟩
      rw [isAt_of_other hnobody, isAt_of_has hafter rfl]
      rfl
    · refine SettledBut.assign (fun i task has hjob => ?_) (fun task _ => Or.inr rfl)
      exact (h.settled i task has hjob).imp_right (fun heq => by cases heq)
  | own has job unsettled => cases h.settled.only has job unsettled

/-! ## The worker that has the job takes a step -/

section Own

variable {worker : ℕ} {task next : Task} {input : RunInput}

/-- What the worker of the job adds to the tallies. -/
theorem count_of_own (order : IterationOrder UUID) (input : RunInput) (t : RetryTally)
    (has : w.workers worker = some task) (job : task.job = k)
    (unsettled : task.pc.settled = false) (next : Option Task) :
    let t' := w.count k (.operation (.run worker input))
      (w.assign worker (task.step order input w.sched).1 next) t
    t'.executions = t.executions + task.pc.calls.toNat ∧ t'.retries = t.retries
      ∧ t'.failure = if task.pc.failing then some (input.handled, input.draw) else t.failure := by
  refine ⟨?_, ?_, ?_⟩
  · show t.executions + (Option.isSome (ite _ _ _)).toNat = _
    rw [isAt_of_has has job]
    cases task.pc.calls <;> rfl
  · show t.retries + (w.concerns k (.run worker input) && decide _).toNat = t.retries
    rw [decide_eq_false, Bool.and_false]
    · rfl
    · refine not_not.mpr (jobsRetried_step (fun pushed r hpc => ?_) input)
      rw [hpc] at unsettled
      cases unsettled
  · show Option.or (ite _ _ _) t.failure = _
    rw [isAt_of_has has job]
    cases task.pc.failing <;> rfl

/-- **The account after a step of the worker**, with the attempt it counted. -/
theorem Account.own (h : Account k m good policy w n t) (has : w.workers worker = some task)
    (job : task.job = k) (unsettled : task.pc.settled = false)
    (stays : next.job = task.job)
    (stored : k ∈ (task.step order input w.sched).1.core.store)
    (unbounded : (task.step order input w.sched).1.core.queue.Open) {n' : ℕ}
    (attempt : ((task.step order input w.sched).1.core.retryRecord k).attempt = n')
    (few : n' ≤ m ∧ n' ≤ good)
    (counted : n' + task.pc.retrying.toNat = n + next.pc.retrying.toNat) :
    Account k m good policy (w.assign worker (task.step order input w.sched).1 (some next)) n'
      (w.count k (.operation (.run worker input))
        (w.assign worker (task.step order input w.sched).1 (some next)) t) := by
  have haccounted : Accounted k w.sched (task.step order input w.sched).1 :=
    accounted_step input task
  have hcount : (w.count k (.operation (.run worker input))
      (w.assign worker (task.step order input w.sched).1 (some next)) t).retries = t.retries :=
    (count_of_own order input t has job unsettled _).2.1
  refine ⟨stored, (Task.running_step input task).trans h.running, unbounded,
    haccounted.policyFor.trans h.policyFor, h.maxRetries, h.retryOn, attempt, few, ?_⟩
  obtain ⟨c, hsum, hcrew⟩ := h.crew
  have hbefore : w.isAt k RunPc.retrying worker = task.pc.retrying := isAt_of_has has job
  have hafter : (w.assign worker (task.step order input w.sched).1 (some next)).isAt k
      RunPc.retrying worker = next.pc.retrying :=
    isAt_of_has (workers_assign_self _ _ _ _) (stays.trans job)
  have hle := hcrew.toNat_le worker
  rw [hbefore] at hle
  refine ⟨n' - t.retries, ?_, hcrew.assign ?_⟩
  · rw [hcount]
    omega
  · rw [hbefore, hafter]
    omega

/-- The account after a step that leaves what is written there. -/
theorem Account.kept (h : Account k m good policy w n t) (has : w.workers worker = some task)
    (job : task.job = k) (unsettled : task.pc.settled = false)
    (stays : next.job = task.job)
    (stored : k ∈ (task.step order input w.sched).1.core.store)
    (unbounded : (task.step order input w.sched).1.core.queue.Open)
    (same : (task.step order input w.sched).1.core.retryRecord k = w.sched.core.retryRecord k)
    (retrying : next.pc.retrying = task.pc.retrying) :
    Account k m good policy (w.assign worker (task.step order input w.sched).1 (some next)) n
      (w.count k (.operation (.run worker input))
        (w.assign worker (task.step order input w.sched).1 (some next)) t) :=
  h.own has job unsettled stays stored unbounded
    ((congrArg RetryRecord.attempt same).trans h.attempt) h.few (by rw [retrying])

/-- So does the time the retry is due, as long as no further failure is handled. -/
theorem dueAfter_kept (has : w.workers worker = some task) (job : task.job = k)
    (unsettled : task.pc.settled = false) (quiet : task.pc.failing = false)
    (same : (task.step order input w.sched).1.core.retryRecord k = w.sched.core.retryRecord k)
    (due : (w.sched.core.retryRecord k).DueAfter policy t.failure) (next : Option Task) :
    ((task.step order input w.sched).1.core.retryRecord k).DueAfter policy
      (w.count k (.operation (.run worker input))
        (w.assign worker (task.step order input w.sched).1 next) t).failure := by
  rw [(count_of_own order input t has job unsettled next).2.2, quiet, same]
  exact due

/-- **The push of the retry** takes the job from the hands of its worker to the queue, with the
time it is due. -/
theorem InHand.push (h : InHand k m good policy worker task w n t) {r : JobResult}
    (here : task.pc = .push r) (order : IterationOrder UUID) (input : RunInput) :
    ∃ next, (task.step order input w.sched).2 = .running next ∧ ∃ entry,
      Waiting k m good policy entry
        (w.assign worker (task.step order input w.sched).1 (some next)) n
        (w.count k (.operation (.run worker input))
          (w.assign worker (task.step order input w.sched).1 (some next)) t) := by
  have hunsettled := h.stage.not_settled
  obtain ⟨job, startedAt, pc⟩ := task
  obtain rfl : job = k := h.job
  cases here
  obtain ⟨hstatus, hstore, hstate, ⟨j, hqueue⟩, entry, hqueued⟩ :
      (Task.step order input ⟨job, startedAt, .push r⟩ w.sched).2 = _ ∧ _ :=
    Task.push_step h.lacks h.account.unbounded.full input
  have hrecord : (Task.step order input ⟨job, startedAt, .push r⟩ w.sched).1.core.retryRecord job
      = w.sched.core.retryRecord job := Task.retryRecord_step (fun _ hpc => by cases hpc) input job
  have hcount := count_of_own order input t h.has rfl hunsettled
    (some ⟨job, startedAt, .countRetry true r⟩)
  refine ⟨_, hstatus, entry, ?_, hqueued, hstate.trans h.stage.1, hcount.1.trans h.stage.2, ?_, ?_⟩
  · have hstays : (⟨job, startedAt, .countRetry true r⟩ : Task).job = job := rfl
    refine h.account.kept h.has rfl hunsettled hstays ?_ ?_ hrecord rfl
    · rw [hstore]
      exact h.account.stored
    · rw [hqueue]
      exact h.account.unbounded.insert j
  · exact dueAfter_kept h.has rfl hunsettled rfl hrecord (h.due rfl) _
  · refine h.settled.assign (fun next hnext => ?_)
    cases hnext
    exact Or.inl rfl

/-- **Any other step.** The run goes on, with less to come, or the job has ended. -/
theorem InHand.advance (h : InHand k m good policy worker task w n t)
    (order : IterationOrder UUID) (pushes : ∀ r, task.pc ≠ .push r)
    (outcome : task.pc.calls = true → (input.outcome.succeeds = true ↔ t.executions = good))
    (fits : task.pc.failing = true → (w.sched.core.retryRecord k).attempt < m →
      w.sched.RetryFits input.handled input.draw k) :
    ∃ next, (task.step order input w.sched).2 = .running next ∧
      let w' := w.assign worker (task.step order input w.sched).1 (some next)
      let t' := w.count k (.operation (.run worker input)) w' t
      Over k m good policy w' n t'
        ∨ ∃ n', InHand k m good policy worker next w' n' t'
          ∧ next.pc.remaining m n' < task.pc.remaining m n := by
  have hunsettled := h.stage.not_settled
  obtain rfl := h.job
  obtain ⟨hown, next, hgoes, hstays, hadvance⟩ : OwnJob task.job w.sched
      (task.step order input w.sched).1 ∧ _ :=
    Task.advance_step h.account.policyFor h.account.maxRetries h.account.retryOn
      (by rw [h.account.attempt]; exact h.stage) (by rw [h.account.attempt]; exact h.account.few)
      pushes outcome fits
  -- what the step does to the rest of the scheduler, as far as the job is concerned
  have hless := (Task.step_running hgoes).2
  have hstored : task.job ∈ (task.step order input w.sched).1.core.store := by
    rw [hown.store h.account.stored]
    exact h.account.stored
  have hunbounded : (task.step order input w.sched).1.core.queue.Open := by
    rw [hown.queue]
    exact h.account.unbounded
  have hlacks : (task.step order input w.sched).1.core.queue.Lacks task.job := by
    rw [hown.queue]
    exact h.lacks
  have hcount := count_of_own order input t h.has rfl hunsettled (some next)
  have hhas : (w.assign worker (task.step order input w.sched).1 (some next)).workers worker
      = some next := workers_assign_self _ _ _ _
  refine ⟨next, hgoes, ?_⟩
  -- the run goes on, or it has counted a failure, or it is over
  cases hadvance with
  | on same retrying stage fails =>
    rw [h.account.attempt] at stage
    refine Or.inr ⟨n, ⟨?_, hhas, hstays, hlacks, ?_, fun hretrying => ?_, ?_⟩, ?_⟩
    · exact h.account.kept h.has rfl hunsettled hstays hstored hunbounded same retrying
    · rw [hcount.1]
      exact stage
    · -- a date is due only while the run is retrying, which no step that meets the failure is
      have hquiet : task.pc.failing = false := by
        by_contra hnot
        rw [fails (Bool.eq_true_of_not_eq_false hnot)] at hretrying
        cases hretrying
      exact dueAfter_kept h.has rfl hunsettled hquiet same (h.due (retrying ▸ hretrying)) _
    · exact h.settled.assign (fun _ _ => Or.inr rfl)
    · unfold RunPc.remaining
      rw [retrying]
      omega
  | counted fails booked left retrying stage =>
    rw [h.account.attempt] at left stage
    -- the attempt goes up by one, and the date is the one that the policy gives for the old count
    have hbefore := RunPc.not_retrying_of_failing fails
    have hattempt : ((task.step order input w.sched).1.core.retryRecord task.job).attempt
        = n + 1 := by
      rw [booked]
      exact congrArg (· + 1) h.account.attempt
    refine Or.inr ⟨n + 1, ⟨?_, hhas, hstays, hlacks, ?_, fun _ => ?_, ?_⟩, ?_⟩
    · exact h.account.own h.has rfl hunsettled hstays hstored hunbounded hattempt
        ⟨left.1, left.2⟩ (by rw [hbefore, retrying]; rfl)
    · rw [hcount.1]
      exact stage
    · show RetryRecord.DueAfter policy (RetryTally.failure _)
        ((task.step order input w.sched).1.core.retryRecord task.job)
      rw [hcount.2.2, fails, if_pos rfl]
      refine ⟨n, hattempt, ?_⟩
      rw [booked, ← h.account.attempt]
      rfl
    · exact h.settled.assign (fun _ _ => Or.inr rfl)
    · have hrank := task.pc.rank_le
      unfold RunPc.remaining
      rw [retrying, if_pos rfl]
      omega
  | ends same retrying settled counted quiet final =>
    rw [h.account.attempt] at final
    refine Or.inl ⟨?_, hlacks, ?_, ?_⟩
    · exact h.account.kept h.has rfl hunsettled hstays hstored hunbounded same retrying
    · rw [hcount.1]
      exact final
    · refine h.settled.assign (fun t ht => ?_)
      cases ht
      exact Or.inl settled

end Own

/-- **What becomes of a job in the hands of a worker**: nothing before the worker goes on, and
then there is less to come. -/
theorem InHand.step {worker : ℕ} {task : Task} (h : InHand k m good policy worker task w n t)
    (happens : w.Happens order k l w')
    (outcome : ∀ o, w.execution? k l = some o → t.executions ≤ m → t.executions ≤ good →
      (o.succeeds = true ↔ t.executions = good)) (fits : w.RetryInRange k m l) :
    InHand k m good policy worker task w' n (w.count k l w' t)
        ∧ (∀ input, l ≠ .operation (.run worker input))
      ∨ Over k m good policy w' n (w.count k l w' t)
      ∨ (∃ entry, Waiting k m good policy entry w' n (w.count k l w' t)
        ∧ RunPc.remainingWait m n < task.pc.remaining m n)
      ∨ ∃ next n', InHand k m good policy worker next w' n' (w.count k l w' t)
        ∧ next.pc.remaining m n' < task.pc.remaining m n := by
  cases happens with
  | idle spared busy rests execution failure counted =>
    obtain ⟨hexecutions, hfailure⟩ := count_of_idle execution failure w' (t := t)
    refine Or.inl ⟨⟨h.account.idle spared counted, ?_, h.job, ?_, ?_, fun hretrying => ?_,
      h.settled.idle busy⟩, ?_⟩
    · exact (busy worker task h.job h.stage.not_settled).mpr h.has
    · exact h.lacks.othersMoves spared.core.queue
    · rw [hexecutions, spared.core.state]
      exact h.stage
    · rw [hfailure, spared.core.retryRecord]
      exact h.due hretrying
    · intro input hl
      have hsettled := rests worker input task hl h.has h.job
      rw [h.stage.not_settled] at hsettled
      cases hsettled
  | handedOut free popped => exact absurd popped (not_popped h.lacks _)
  | @own worker' input task' has job unsettled =>
    -- the worker that goes on is the one that has the job, as no other has it
    obtain rfl := Option.some.inj (h.settled.only has job unsettled)
    obtain rfl := Option.some.inj (h.has.symm.trans has)
    by_cases hpush : ∃ r, task.pc = .push r
    · obtain ⟨r, hr⟩ := hpush
      obtain ⟨next, hgoes, entry, hwaiting⟩ := h.push hr order input
      rw [hgoes]
      refine Or.inr (Or.inr (Or.inl ⟨entry, hwaiting, ?_⟩))
      rw [hr]
      show (m - n) * 64 + 31 < (m - n) * 64 + (3 + 32)
      omega
    · obtain ⟨next, hgoes, hnext⟩ := h.advance order (not_exists.mp hpush) (fun hcalls => by
        have hexecutions := h.stage.executions hcalls
        exact outcome _ (if_pos ((isAt_of_has has job).trans hcalls))
          (hexecutions.trans_le h.account.few.1) (hexecutions.trans_le h.account.few.2))
        (fun hfails => fits _ (if_pos ((isAt_of_has has job).trans hfails)))
      rw [hgoes]
      rcases hnext with hover | ⟨n', hinHand, hless⟩
      · exact Or.inr (Or.inl hover)
      · exact Or.inr (Or.inr (Or.inr ⟨next, n', hinHand, hless⟩))

/-- **Where the job is.** Every step of anybody leads from one of these to one of these, which is
the invariant of the run. -/
inductive Placed (k : UUID) (m good : ℕ) (policy : Retry.RetryPolicy) (w : World) (n : ℕ)
    (t : RetryTally) : Prop
  | waiting {entry : QueueEntry} (h : Waiting k m good policy entry w n t)
  | inHand {worker : ℕ} {task : Task} (h : InHand k m good policy worker task w n t)
  | ended (h : Over k m good policy w n t)

theorem Placed.account (h : Placed k m good policy w n t) : Account k m good policy w n t := by
  cases h with
  | waiting h => exact h.account
  | inHand h => exact h.account
  | ended h => exact h.account

/-- **Every step keeps the job in its place**, or brings it to the next. -/
theorem Placed.step (h : Placed k m good policy w n t) (happens : w.Happens order k l w')
    (outcome : ∀ o, w.execution? k l = some o → t.executions ≤ m → t.executions ≤ good →
      (o.succeeds = true ↔ t.executions = good)) (fits : w.RetryInRange k m l) :
    ∃ n', Placed k m good policy w' n' (w.count k l w' t) := by
  cases h with
  | waiting h =>
    rcases h.step happens with hwaiting | ⟨worker, now, -, -, hinHand⟩
    · exact ⟨n, .waiting hwaiting⟩
    · exact ⟨n, .inHand hinHand⟩
  | inHand h =>
    rcases h.step happens outcome fits with ⟨hinHand, -⟩ | hover | ⟨entry, hwaiting, -⟩ |
      ⟨next, n', hinHand, -⟩
    · exact ⟨n, .inHand hinHand⟩
    · exact ⟨n, .ended hover⟩
    · exact ⟨n, .waiting hwaiting⟩
    · exact ⟨n', .inHand hinHand⟩
  | ended h => exact ⟨n, .ended (h.step happens)⟩

/-- A worker keeps its task until it goes on. -/
theorem workers_work {worker : ℕ} {task : Task} (has : w.workers worker = some task)
    (taken : w.work order l = some w') (other : ∀ input, l ≠ .operation (.run worker input)) :
    w'.workers worker = some task := by
  cases l with
  | getNextJob i now =>
    obtain ⟨hfree, rfl⟩ := step_getNextJob (show w.step order _ = some w' from taken)
    exact workers_assign_of_free hfree has _ _
  | operation l =>
    cases l with
    | call op =>
      obtain ⟨sched, -, rfl⟩ := operate_call (show w.operate order _ = some w' from taken)
      exact has
    | start i job =>
      obtain ⟨hfree, rfl⟩ := operate_start (show w.operate order _ = some w' from taken)
      exact workers_assign_of_free hfree has _ _
    | run i input =>
      obtain ⟨t, -, rfl⟩ := operate_run (show w.operate order _ = some w' from taken)
      rw [workers_assign_of_ne]
      · exact has
      · rintro rfl
        exact other input rfl

end World

end JobOrchestrator
