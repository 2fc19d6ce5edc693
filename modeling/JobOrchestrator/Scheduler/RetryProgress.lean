import JobOrchestrator.Scheduler.LoneWorker
import JobOrchestrator.Scheduler.RetryBudget

/-!
# The retry budget is spent

The workers get on with a job: `RunPc.remaining` goes down with every step that is about it,
from one attempt to the next. So where workers go on, and are not kept from the job for ever by
others that come first in the queue, it is executed as often as its budget says, and no more.
`World.retry_budget` counts, for all runs.

The second condition is needed: the queue takes the urgent jobs first, and as long as there are
any the others wait.
-/

namespace JobOrchestrator

namespace World

open Scheduler SchedulerCore ThreadSafePriorityQueue

variable {order : IterationOrder UUID} {k : UUID} {m good : ℕ} {policy : Retry.RetryPolicy}
  {w w' : World} {l : WorkStep} {n : ℕ} {t : RetryTally}

variable {r : InfiniteRun (work order) (Others k)} {i : ℕ}

/-- The tallies of the steps before a position. -/
def tallies (r : InfiniteRun (work order) (Others k)) (i : ℕ) : RetryTally :=
  ⟨r.tally (executes k) i, r.tally (retries k) i, r.latest (failure? k) i⟩

theorem tallies_succ (r : InfiniteRun (work order) (Others k)) (i : ℕ) :
    tallies r (i + 1) = (r.state i).count k (r.label i) (r.state (i + 1)) (tallies r i) := by
  unfold tallies
  rw [r.tally_succ, r.tally_succ]
  rfl

/-- **How the function behaves** in a run: it raises, and returns after so many failures. What it
does later, or after more than `m` retries, is no matter. -/
def Behaves (m good : ℕ) (r : InfiniteRun (work order) (Others k)) : Prop :=
  ∀ i o, (r.state i).execution? k (r.label i) = some o → r.tally (executes k) i ≤ m →
    r.tally (executes k) i ≤ good → (o.succeeds = true ↔ r.tally (executes k) i = good)

/-- **No retry of the job overflows** in a run. -/
def NeverOverflows (m : ℕ) (r : InfiniteRun (work order) (Others k)) : Prop :=
  ∀ i, (r.state i).RetryInRange k m (r.label i)

theorem happens_at (stored : k ∈ (r.state i).sched.core.store) :
    (r.state i).Happens order k (r.label i) (r.state (i + 1)) :=
  happens stored (r.guard i) (r.taken i)

/-- **The accounts of the job along a run.** It is in the store from the start, so every step of
anybody leaves entries only. -/
theorem accounted_at (stored : k ∈ (r.state 0).sched.core.store) (i : ℕ) :
    k ∈ (r.state i).sched.core.store ∧ Accounted k (r.state 0).sched (r.state i).sched := by
  induction i with
  | zero => exact ⟨stored, .refl k _⟩
  | succ i ih =>
    have hhappens := happens_at ih.1
    exact ⟨hhappens.stored ih.1, ih.2.trans hhappens.accounted⟩

/-- **It is enough to look at the policy**: the job keeps it. -/
theorem neverOverflows_of_fitsAfter (stored : k ∈ (r.state 0).sched.core.store)
    (policyFor : ((r.state 0).sched.core.retryRecord k).policyFor (r.state 0).sched.retryHandler
      = policy)
    (fits : ∀ i f, (r.state i).failure? k (r.label i) = some f → ∀ n < m, FitsAfter policy n f) :
    NeverOverflows m r := by
  intro i f hfailure hleft
  have hpolicy := (accounted_at stored i).2.policyFor.trans policyFor
  exact (retryFits_iff hpolicy f).mpr (fits i f hfailure _ hleft)

/-- **The job is always somewhere.** The number of attempts is part of it, since each retry
begins a new round of the three places. -/
theorem placed_at (start : Placed k m good policy (r.state 0) 0 ⟨0, 0, none⟩)
    (behaves : Behaves m good r) (fits : NeverOverflows m r) (i : ℕ) :
    ∃ n, Placed k m good policy (r.state i) n (tallies r i) := by
  induction i with
  | zero => exact ⟨0, start⟩
  | succ i ih =>
    obtain ⟨n, hplaced⟩ := ih
    rw [tallies_succ]
    exact hplaced.step (happens_at hplaced.account.stored) (behaves i) (fits i)

/-- **From the queue to a worker.** The queue is asked again and again, later than the time it is
due, and hands out no other job. -/
theorem Served.handedOut (served : Served k r) {entry : QueueEntry} :
    LeadsTo (fun i => Waiting k m good policy entry (r.state i) n (tallies r i))
      (fun i => ∃ worker, InHand k m good policy worker { job := k } (r.state i) n
        (tallies r i)) := by
  refine LeadsTo.of_fair (fun j => ∃ worker now, entry.scheduledTime ≤ now
    ∧ r.label j = .getNextJob worker now
    ∧ ∀ other, ((r.state j).sched.getNextJob now).1 = some other → other = k) ?_ ?_ ?_
  · intro i h _
    rw [tallies_succ]
    refine (h.step (happens_at h.account.stored)).imp_right ?_
    rintro ⟨worker, now, -, -, hinHand⟩
    exact ⟨worker, hinHand⟩
  · rintro i h ⟨worker, now, hdue, hlabel, hnoOther⟩
    rw [tallies_succ]
    rcases h.step (happens_at h.account.stored) with hstill | ⟨worker, now, -, -, hinHand⟩
    · -- the entry was due, so it was popped
      obtain ⟨hpopped, hsched⟩ := getNextJob_popped (h.popped hdue hnoOther)
      have htaken := r.taken i
      rw [hlabel] at htaken
      obtain ⟨-, hstate⟩ := step_getNextJob (show (r.state i).step order _ = _ from htaken)
      have hcontains := hstill.queued.waits.contains
      rw [hstate, show (assign _ _ _ _).sched = ((r.state i).sched.getNextJob now).2 from rfl,
        hsched] at hcontains
      cases hcontains.symm.trans (h.queued.waits.popped hpopped).2.contains
    · exact ⟨worker, hinHand⟩
  · intro i _
    obtain ⟨j, hij, worker, now, hlate, hlabel, hnoOther⟩ := served.asks i entry.scheduledTime
    exact ⟨j, hij, worker, now, hlate, hlabel, hnoOther⟩

/-- **From a worker to the queue or the end**, or nearer to them. -/
theorem Served.goesOn (served : Served k r) (behaves : Behaves m good r)
    (fits : NeverOverflows m r) {worker : ℕ} {task : Task} :
    LeadsTo (fun i => InHand k m good policy worker task (r.state i) n (tallies r i))
      (fun i => Over k m good policy (r.state i) n (tallies r i)
        ∨ (∃ entry, Waiting k m good policy entry (r.state i) n (tallies r i)
          ∧ RunPc.remainingWait m n < task.pc.remaining m n)
        ∨ ∃ next n', InHand k m good policy worker next (r.state i) n' (tallies r i)
          ∧ next.pc.remaining m n' < task.pc.remaining m n) := by
  refine LeadsTo.of_fair (fun j => ∃ input, r.label j = .operation (.run worker input)) ?_ ?_ ?_
  · intro i h _
    rw [tallies_succ]
    exact (h.step (happens_at h.account.stored) (behaves i) (fits i)).imp_left And.left
  · rintro i h ⟨input, hlabel⟩
    rw [tallies_succ]
    exact (h.step (happens_at h.account.stored) (behaves i) (fits i)).resolve_left
      (fun hstill => hstill.2 input hlabel)
  · exact fun i h => served.runs i worker task h.has h.job

/-- **The job ends.** The measure is the number of attempts that are left; each round leads to an
end or to one attempt less. -/
theorem Served.ends (served : Served k r) (behaves : Behaves m good r)
    (fits : NeverOverflows m r) (h : Placed k m good policy (r.state i) n (tallies r i)) :
    ∃ j n', Over k m good policy (r.state j) n' (tallies r j) := by
  have hends : ∀ left, LeadsTo
      (fun i => (∃ n entry, Waiting k m good policy entry (r.state i) n (tallies r i)
          ∧ left = RunPc.remainingWait m n)
        ∨ ∃ n worker task, InHand k m good policy worker task (r.state i) n (tallies r i)
          ∧ left = task.pc.remaining m n)
      (fun j => ∃ n, Over k m good policy (r.state j) n (tallies r j)) := by
    refine LeadsTo.of_measure ?_
    rintro left i (⟨n, entry, hwaiting, rfl⟩ | ⟨n, worker, task, hinHand, rfl⟩)
    · obtain ⟨j, hij, worker, hinHand⟩ := served.handedOut i hwaiting
      refine ⟨j, hij, Or.inr ⟨_, ?_, Or.inr ⟨n, worker, _, hinHand, rfl⟩⟩⟩
      show (m - n) * 64 + 15 < (m - n) * 64 + 31
      omega
    · obtain ⟨j, hij, hover | ⟨entry, hwaiting, hless⟩ | ⟨next, n', hnext, hless⟩⟩ :=
        served.goesOn behaves fits i hinHand
      · exact ⟨j, hij, Or.inl ⟨n, hover⟩⟩
      · exact ⟨j, hij, Or.inr ⟨_, hless, Or.inl ⟨n, entry, hwaiting, rfl⟩⟩⟩
      · exact ⟨j, hij, Or.inr ⟨_, hless, Or.inr ⟨n', worker, next, hnext, rfl⟩⟩⟩
  cases h with
  | waiting h =>
    obtain ⟨j, -, hover⟩ := hends _ i (Or.inl ⟨n, _, h, rfl⟩)
    exact ⟨j, hover⟩
  | inHand h =>
    obtain ⟨j, -, hover⟩ := hends _ i (Or.inr ⟨n, _, _, h, rfl⟩)
    exact ⟨j, hover⟩
  | ended h => exact ⟨i, n, h⟩

/-- **It stays ended**, and the retries counted are not more than there were. -/
theorem Over.stays (h : Over k m good policy (r.state i) n (tallies r i)) {j : ℕ} (hij : i ≤ j) :
    Over k m good policy (r.state j) n (tallies r j)
      ∧ (tallies r i).retries ≤ (tallies r j).retries := by
  induction j, hij using Nat.le_induction with
  | base => exact ⟨h, le_refl _⟩
  | succ j _ ih =>
    obtain ⟨hover, hle⟩ := ih
    have hnext := hover.step (happens_at hover.account.stored)
    rw [← tallies_succ] at hnext
    refine ⟨hnext, hle.trans ?_⟩
    rw [tallies_succ]
    exact Nat.le_add_right _ _

/-- **Every retry is counted** at last. A worker that has pushed the job may be slow to count it,
but does so when it goes on. -/
theorem Served.counted (served : Served k r)
    (h : Over k m good policy (r.state i) n (tallies r i)) :
    ∃ j, Over k m good policy (r.state j) n (tallies r j) ∧ (tallies r j).retries = n := by
  have hcounted : ∀ left, LeadsTo
      (fun i => Over k m good policy (r.state i) n (tallies r i)
        ∧ n - (tallies r i).retries = left)
      (fun j => Over k m good policy (r.state j) n (tallies r j) ∧ (tallies r j).retries = n) := by
    -- the measure is the number of retries still missing
    refine LeadsTo.of_measure ?_
    rintro left i ⟨hover, hleft⟩
    obtain ⟨c, hsum, crew, hcard, hcrew⟩ := hover.account.crew
    -- as long as one is missing, some worker holds the job just before its retry
    rcases crew.eq_empty_or_nonempty with rfl | ⟨worker, hmem⟩
    · refine ⟨i, le_refl i, Or.inl ⟨hover, ?_⟩⟩
      rw [Finset.card_empty] at hcard
      omega
    · obtain ⟨task, has, hjob, hretrying⟩ := exists_task_of_isAt ((hcrew worker).mp hmem)
      have hsome : 0 < left := by
        have := Finset.card_pos.mpr ⟨worker, hmem⟩
        omega
      have hstep : LeadsTo
          (fun i => Over k m good policy (r.state i) n (tallies r i)
            ∧ (r.state i).workers worker = some task ∧ n - (tallies r i).retries ≤ left)
          (fun j => Over k m good policy (r.state j) n (tallies r j)
            ∧ n - (tallies r j).retries < left) := by
        refine LeadsTo.of_fair (fun j => ∃ input, r.label j = .operation (.run worker input))
          ?_ ?_ ?_
        · -- steps of other threads leave this worker where it is and lose no retry
          rintro i ⟨hover, has, hle⟩ hnot
          obtain ⟨hnext, hmore⟩ := hover.stays (Nat.le_add_right i 1)
          refine Or.inl ⟨hnext, workers_work has (r.taken i) (not_exists.mp hnot), ?_⟩
          omega
        · -- its own next step is the retry
          rintro i ⟨hover, has, hle⟩ ⟨input, hlabel⟩
          refine ⟨(hover.stays (Nat.le_add_right i 1)).1, ?_⟩
          have htaken := r.taken i
          rw [hlabel] at htaken
          obtain ⟨task', has', hstate⟩ :=
            operate_run (show (r.state i).operate order _ = _ from htaken)
          cases has.symm.trans has'
          have hsettled := (hover.settled worker task has hjob).resolve_right (fun h => by cases h)
          have hone : (tallies r (i + 1)).retries = (tallies r i).retries + 1 := by
            rw [tallies_succ, hlabel, hstate]
            show (tallies r i).retries + (World.retries _ _ _ _).toNat = _
            rw [retries_of_settled has hjob hsettled, hretrying]
            rfl
          omega
        · exact fun i h => served.runs i worker task h.2.1 hjob
      obtain ⟨j, hij, hover', hless⟩ := hstep i ⟨hover, has, le_of_eq hleft⟩
      exact ⟨j, hij, Or.inr ⟨_, hless, hover', rfl⟩⟩
  obtain ⟨j, -, hdone⟩ := hcounted _ i ⟨h, rfl⟩
  exact ⟨j, hdone⟩

/-- **A job that nobody has**, as it was constructed with a policy of `m` retries and the default
`retry_on`, and a running scheduler with an unbounded queue. That is how `submit` finds it. -/
structure Unclaimed (k : UUID) (m : ℕ) (policy : Retry.RetryPolicy) (w : World) : Prop where
  running : w.sched.running = true
  unbounded : w.sched.core.queue.Open
  lacks : w.sched.core.queue.Lacks k
  nobody : ∀ i task, w.workers i = some task → task.job ≠ k
  attempt : (w.sched.core.jobs.get k).attempt = 0
  policyFor : w.sched.retryHandler.getPolicyForJob (w.sched.core.jobs.get k) = policy
  maxRetries : policy.maxRetries = m
  retryOn : policy.retryOn = ["Exception"]

/-- **What was never submitted** is nobody's, in whatever scheduler and workers come to. -/
theorem Sound.unclaimed (sound : w.Sound) (unknown : k ∉ w.sched.core.store)
    (running : w.sched.running = true) (unbounded : w.sched.core.queue.Open)
    (attempt : (w.sched.core.jobs.get k).attempt = 0)
    (policyFor : w.sched.retryHandler.getPolicyForJob (w.sched.core.jobs.get k) = policy)
    (maxRetries : policy.maxRetries = m) (retryOn : policy.retryOn = ["Exception"]) :
    Unclaimed k m policy w where
  running := running
  unbounded := unbounded
  lacks := ⟨sound.custody.coherent.at k, fun hk => unknown (sound.custody.stored k hk)⟩
  nobody i task has hjob := unknown (hjob ▸ sound.known i task has)
  attempt := attempt
  policyFor := policyFor
  maxRetries := maxRetries
  retryOn := retryOn

/-- **It is submitted**, and waits. It is due at once, and no failure of it was handled yet. -/
theorem Unclaimed.submit (h : Unclaimed k m policy w) {text : String}
    (submitted : (w.sched.submit k).2 = .ok text) (good : ℕ) :
    Placed k m good policy (w.withSched (w.sched.submit k).1) 0 ⟨0, 0, none⟩ := by
  obtain ⟨hstored, hjob, -, ⟨j, hqueue⟩, entry, hqueued⟩ := queued_submit h.lacks submitted
  have hrecord : (w.sched.submit k).1.core.retryRecord k = w.sched.core.retryRecord k :=
    stable_submit (stable_retryRecord k _) k rfl
  refine .waiting ⟨⟨hstored, h.running, ?_, ?_, h.maxRetries, h.retryOn, ?_,
    ⟨Nat.zero_le m, Nat.zero_le good⟩, 0, rfl, ∅, rfl, fun i => ?_⟩, hqueued, ?_, rfl, ?_, ?_⟩
  · show (w.sched.core.submit k).1.queue.Open
    rw [hqueue]
    exact h.unbounded.insert j
  · show ((w.sched.submit k).1.core.retryRecord k).policyFor w.sched.retryHandler = policy
    rw [hrecord]
    exact h.policyFor
  · show ((w.sched.submit k).1.core.retryRecord k).attempt = 0
    rw [hrecord]
    exact h.attempt
  · show i ∈ ∅ ↔ w.isAt k RunPc.retrying i = true
    rw [isAt_of_other (h.nobody i)]
    exact iff_of_false (Finset.notMem_empty i) Bool.false_ne_true
  · exact congrArg Job.state hjob
  · show ((w.sched.submit k).1.core.retryRecord k).attempt = 0
    rw [hrecord]
    exact h.attempt
  · exact fun i task has hjob => absurd hjob (h.nobody i task has)

/-- **The budget of a job**, in a run in which so many executions fail before it ends in this
state: it is executed once more, each failure but the last of a job that ends FAILED is retried
and counted, and each retry waits SCHEDULED for the time it is due and is not handed out before.
The first clause says that the tallies are final from some moment on, so nothing is executed or
counted twice later. -/
structure Budget (k : UUID) (policy : Retry.RetryPolicy) (failures : ℕ) (last : JobState)
    (r : InfiniteRun (work order) (Others k)) : Prop where
  ends : ∃ N, ∀ i, N ≤ i → r.tally (executes k) i = failures + 1
    ∧ r.tally (retries k) i = failures ∧ (r.state i).sched.core.state k = last
    ∧ ((r.state i).sched.core.jobs.get k).attempt = failures
  queued : ∀ i, ¬ (r.state i).Held k → ((r.state i).sched.core.state k).isTerminal = false →
    (r.state i).sched.core.queue.contains k = true
  scheduled : ∀ i, (r.state i).sched.core.queue.contains k = true →
    (r.state i).sched.core.state k = .scheduled
      ∧ ((r.state i).sched.core.retryRecord k).DueAfter policy (r.latest (failure? k) i)
  onTime : ∀ i worker now, r.label i = .getNextJob worker now →
    ((r.state i).sched.getNextJob now).1 = some k →
    ∀ at₁, ((r.state i).sched.core.jobs.get k).scheduledAt = some at₁ → at₁.timestamp ≤ now

/-- **The budget is spent**, whenever the function succeeds first. -/
theorem budget_of_behaves (start : Placed k m good policy (r.state 0) 0 ⟨0, 0, none⟩)
    (served : Served k r) (behaves : Behaves m good r) (fits : NeverOverflows m r) :
    Budget k policy (min good m) (if good ≤ m then .completed else .failed) r := by
  have hplaced := placed_at start behaves fits
  refine ⟨?_, fun i free alive => ?_, fun i hin => ?_, fun i worker now _ hpopped at₁ hat => ?_⟩
  · obtain ⟨n, hstart⟩ := hplaced 0
    obtain ⟨j, n, hover⟩ := served.ends behaves fits hstart
    obtain ⟨j, hover, hcounted⟩ := served.counted hover
    obtain ⟨-, hfinal⟩ := hover.final
    have hfew := hover.account.few
    have hn : n = min good m := by omega
    refine ⟨j, fun i hij => ?_⟩
    obtain ⟨hover', hmore⟩ := hover.stays hij
    obtain ⟨c, hsum, -⟩ := hover'.account.crew
    obtain ⟨hexecutions, hfinal'⟩ := hover'.final
    refine ⟨hn ▸ hexecutions, ?_, ?_, hn ▸ hover'.account.attempt⟩
    · show (tallies r i).retries = _
      omega
    · rcases hfinal' with ⟨hgood, hstate⟩ | ⟨hlast, hnever, hstate⟩
      · rw [hstate, if_pos (by omega)]
      · rw [hstate, if_neg (by omega)]
  · obtain ⟨n, hwaiting | hinHand | hover⟩ := hplaced i
    · exact hwaiting.queued.waits.contains
    · exact absurd ⟨_, _, hinHand.has, hinHand.job, hinHand.stage.holds⟩ free
    · rcases hover.final.2 with ⟨-, hstate⟩ | ⟨-, -, hstate⟩ <;> rw [hstate] at alive <;>
        cases alive
  · obtain ⟨n, hwaiting | hinHand | hover⟩ := hplaced i
    · exact ⟨hwaiting.state, hwaiting.due⟩
    · cases hin.symm.trans hinHand.lacks.contains
    · cases hin.symm.trans hover.lacks.contains
  · obtain ⟨n, hwaiting | hinHand | hover⟩ := hplaced i
    · rw [← hwaiting.queued.due hat]
      exact (hwaiting.queued.waits.popped (getNextJob_popped hpopped).1).1
    · exact absurd hpopped (not_popped hinHand.lacks now)
    · exact absurd hpopped (not_popped hover.lacks now)

/-- **The retry budget.** A job with a policy of `m` retries is submitted to a scheduler with an
unbounded queue. In every run of workers and of operations on other jobs in which workers go on,
the job has its turn and no retry of it overflows: if its function raises on every execution, it
is executed `m + 1` times and ends FAILED after `m` retries; if it first returns after `s ≤ m`
failures, it is executed `s + 1` times and ends COMPLETED after `s` retries. -/
theorem retry_budget (h : Unclaimed k m policy w) {text : String}
    (submitted : (w.sched.submit k).2 = .ok text)
    (start : r.state 0 = w.withSched (w.sched.submit k).1) (served : Served k r)
    (fits : NeverOverflows m r) :
    ((∀ i o, (r.state i).execution? k (r.label i) = some o → o.succeeds = false) →
        Budget k policy m .failed r)
      ∧ ∀ s, s ≤ m → (∀ i o, (r.state i).execution? k (r.label i) = some o →
          (r.tally (executes k) i < s → o.succeeds = false)
            ∧ (r.tally (executes k) i = s → o.succeeds = true)) →
        Budget k policy s .completed r := by
  have hstart := fun good => start ▸ h.submit submitted good
  refine ⟨fun raises => ?_, fun s hs first => ?_⟩
  · have hbehaves : Behaves m (m + 1) r := fun i o ho hle _ => by
      rw [raises i o ho]
      exact iff_of_false Bool.false_ne_true (by omega)
    have hbudget := budget_of_behaves (hstart (m + 1)) served hbehaves fits
    rwa [min_eq_right (Nat.le_succ m), if_neg (Nat.not_succ_le_self m)] at hbudget
  · have hbehaves : Behaves m s r := fun i o ho _ hle => by
      obtain ⟨hbefore, hthen⟩ := first i o ho
      rcases Nat.lt_or_eq_of_le hle with hless | heq
      · rw [hbefore hless]
        exact iff_of_false Bool.false_ne_true (Nat.ne_of_lt hless)
      · exact iff_of_true (hthen heq) heq
    have hbudget := budget_of_behaves (hstart s) served hbehaves fits
    rwa [min_eq_left hs, if_pos hs] at hbudget

/-! ## A scheduler of its own -/

/-- A scheduler with an unbounded queue, over these jobs. -/
def unbounded (jobs : JobTable) : World := .init (.new jobs none none {} [] [])

/-- **Nobody has its jobs** before one is submitted. -/
theorem unclaimed_unbounded {jobs : JobTable} (attempt : (jobs.get k).attempt = 0)
    (policyFor : (unbounded jobs).sched.retryHandler.getPolicyForJob (jobs.get k) = policy)
    (maxRetries : policy.maxRetries = m) (retryOn : policy.retryOn = ["Exception"]) :
    Unclaimed k m policy (unbounded jobs) :=
  (sound_init jobs none none {} [] []).unclaimed (Finset.notMem_empty k) rfl ⟨rfl, rfl⟩ attempt
    policyFor maxRetries retryOn

/-- What is submitted to it alone, a worker has to itself. -/
theorem alone_unbounded (jobs : JobTable) (k : UUID) :
    Alone k ((unbounded jobs).withSched ((unbounded jobs).sched.submit k).1) where
  noDags := rfl
  lacks other hother := Lacks.othersMoves (.new none other)
    (SchedulerCore.Spared.submit (c := (unbounded jobs).sched.core) k
      (Or.inr (Ne.symm hother))).queue
  tasks _ _ h := nomatch h

/-- One job that is retried twice, among urgent ones. -/
def retriedTwice : JobTable where
  get id := if id = 1 then { id := id, retryPolicy := some { maxRetries := 2 } }
    else { id := id, priority := .critical }
  id_get id := by split <;> rfl

/-- The policy of that job. -/
def twice : Retry.RetryPolicy := { maxRetries := 2 }

theorem unclaimed_retriedTwice : Unclaimed 1 2 twice (unbounded retriedTwice) :=
  unclaimed_unbounded rfl rfl rfl rfl

/-- What comes of submitting it. -/
def submittedTwice : World :=
  (unbounded retriedTwice).withSched ((unbounded retriedTwice).sched.submit 1).1

theorem placed_submittedTwice : Placed 1 2 3 twice submittedTwice 0 ⟨0, 0, none⟩ :=
  @Unclaimed.submit _ _ _ _ unclaimed_retriedTwice (UUID.str 1) rfl 3

/-- Its retries do not overflow when the clock is at its start. -/
theorem neverOverflows_submittedTwice {r : InfiniteRun (work order) (Others 1)}
    (start : r.state 0 = submittedTwice)
    (failures : ∀ i f, (r.state i).failure? 1 (r.label i) = some f → f = (0, 0)) :
    NeverOverflows 2 r := by
  have haccount := (start ▸ placed_submittedTwice).account
  refine neverOverflows_of_fitsAfter haccount.stored haccount.policyFor (fun i f hf n hn => ?_)
  rw [failures i f hf]
  exact Scheduler.fitsAfter_builtin (by omega) (le_refl 0) (by norm_num)

/-- The job is executed three times if it always fails, and once if it never does. -/
theorem retry_budget_retriedTwice :
    (∃ r : InfiniteRun (work .increasing) (Others 1),
        r.state 0 = submittedTwice ∧ Budget 1 twice 2 .failed r)
      ∧ ∃ r : InfiniteRun (work .increasing) (Others 1),
        r.state 0 = submittedTwice ∧ Budget 1 twice 0 .completed r := by
  have halone : Alone 1 submittedTwice := alone_unbounded retriedTwice 1
  obtain ⟨failing, hstart, hserved, houtcome, hfailure⟩ :=
    halone.exists_served .increasing .raising
  obtain ⟨working, hstart', hserved', houtcome', hfailure'⟩ :=
    halone.exists_served .increasing .returning
  constructor
  · have hbudget := retry_budget unclaimed_retriedTwice rfl hstart hserved
      (neverOverflows_submittedTwice hstart hfailure)
    exact ⟨failing, hstart, hbudget.1 (fun i o ho => houtcome i o ho ▸ rfl)⟩
  · have hbudget := retry_budget unclaimed_retriedTwice rfl hstart' hserved'
      (neverOverflows_submittedTwice hstart' hfailure')
    refine ⟨working, hstart', hbudget.2 0 (Nat.zero_le 2) (fun i o ho => ⟨fun hless => ?_,
      fun _ => ?_⟩)⟩
    · exact absurd hless (Nat.not_lt_zero _)
    · rw [houtcome' i o ho]
      rfl

/-- Among urgent jobs without end it is one that is not. -/
theorem supplied_submittedTwice : Supplied 1 2 submittedTwice := by
  obtain ⟨hstored, -, -, -, hqueued⟩ :=
    SchedulerCore.queued_submit (c := (unbounded retriedTwice).sched.core) (k := 1)
      (.new none 1) rfl
  refine ⟨rfl, rfl, ⟨rfl, rfl⟩, rfl, hstored, hqueued, by decide, by decide, ?_,
    fun _ _ h => nomatch h⟩
  intro job hjob
  have hother : job ≠ 1 := by omega
  have hspared := SchedulerCore.Spared.submit (c := (unbounded retriedTwice).sched.core) 1
    (Or.inr (Ne.symm hother))
  exact ⟨fun hmem => Finset.notMem_empty job (hspared.stored.mp hmem),
    (alone_unbounded retriedTwice 1).lacks job hother, hspared.job.trans (if_neg hother)⟩

/-- **A job starves** where there is no end of urgent ones: workers keep calling, and it is not
executed once. -/
theorem starved_submittedTwice :
    ∃ r : InfiniteRun (work .increasing) (Others 1), r.state 0 = submittedTwice ∧ KeepsCalling r
      ∧ (∀ i o, (r.state i).execution? 1 (r.label i) = some o → o.succeeds = false)
      ∧ ¬ Budget 1 twice 2 .failed r := by
  obtain ⟨r, hstart, hkeeps, hnever⟩ := supplied_submittedTwice.exists_starving .increasing
  refine ⟨r, hstart, hkeeps, fun i o ho => ?_, fun h => ?_⟩
  · cases (hnever i).symm.trans ho
  · obtain ⟨N, hN⟩ := h.ends
    have hnone : r.tally (executes 1) N = 0 := r.tally_eq_zero
      (fun i => congrArg Option.isSome (hnever i)) N
    cases hnone.symm.trans (hN N (le_refl N)).1

/-! ## A retry that overflows -/

/-- **No attempt is counted** under a policy whose first retry always overflows. -/
theorem attempt_eq_zero_of_overflow (stored : k ∈ (r.state 0).sched.core.store)
    (attempt : ((r.state 0).sched.core.retryRecord k).attempt = 0)
    (policyFor : ((r.state 0).sched.core.retryRecord k).policyFor (r.state 0).sched.retryHandler
      = policy) (overflows : ∀ f, ¬ FitsAfter policy 0 f) (i : ℕ) :
    ((r.state i).sched.core.retryRecord k).attempt = 0 := by
  have hkept := (accounted_at stored i).2.invariant
    (P := fun record => record.attempt = 0
      ∧ record.policyFor (r.state 0).sched.retryHandler = policy)
    (fun _ _ entry before => ?_) ⟨attempt, policyFor⟩
  · exact hkept.1
  · cases entry with
    | prepared job now draw error allowed fits =>
      rw [Retry.RetryHandler.fits_iff] at fits
      unfold Retry.RetryHandler.retryAt at fits
      rw [show job.attempt = 0 from before.1, show (r.state 0).sched.retryHandler.getPolicyForJob
        job = policy from before.2] at fits
      exact absurd fits (overflows (now, draw))
    | reset => exact before

/-- A policy with a delay that is no `timedelta`. -/
def tooLong : RetryPolicy :=
  { maxRetries := 2, baseDelay := 10 ^ 15, maxDelay := 10 ^ 15, jitter := false }

/-- Jobs with that policy. -/
def retriedNever : JobTable where
  get id := { id := id, retryPolicy := some tooLong }
  id_get _ := rfl

/-- The handler's policy for them. -/
def endless : Retry.RetryPolicy :=
  { maxRetries := 2, initialDelay := 10 ^ 15, maxDelay := 10 ^ 15, jitter := false }

theorem unclaimed_retriedNever : Unclaimed 1 2 endless (unbounded retriedNever) :=
  unclaimed_unbounded rfl rfl rfl rfl

/-- What comes of submitting it. -/
def submittedNever : World :=
  (unbounded retriedNever).withSched ((unbounded retriedNever).sched.submit 1).1

theorem not_fitsAfter_endless (f : Time × ℚ) : ¬ FitsAfter endless 0 f := by
  rintro ⟨-, hspans, -⟩
  rw [show endless.calculateDelay 0 f.2 = 10 ^ 15 by
    show min ((10 : ℚ) ^ 15 * 2 ^ 0) (10 ^ 15) = 10 ^ 15
    norm_num] at hspans
  exact absurd hspans (by decide +kernel)

/-- **The first retry overflows**: a worker serves the job, and it is not retried. -/
theorem overflowed_submittedNever :
    ∃ r : InfiniteRun (work .increasing) (Others 1), r.state 0 = submittedNever ∧ Served 1 r
      ∧ (∀ i o, (r.state i).execution? 1 (r.label i) = some o → o.succeeds = false)
      ∧ ¬ Budget 1 endless 2 .failed r := by
  obtain ⟨r, hstart, hserved, houtcome, -⟩ :=
    (alone_unbounded retriedNever 1).exists_served .increasing .raising
  refine ⟨r, hstart, hserved, fun i o ho => houtcome i o ho ▸ rfl, fun h => ?_⟩
  have hplaced : Placed 1 2 3 endless submittedNever 0 ⟨0, 0, none⟩ :=
    @Unclaimed.submit _ _ _ _ unclaimed_retriedNever (UUID.str 1) rfl 3
  have haccount := (show r.state 0 = submittedNever from hstart) ▸ hplaced.account
  obtain ⟨N, hN⟩ := h.ends
  have hnone := attempt_eq_zero_of_overflow haccount.stored haccount.attempt haccount.policyFor
    not_fitsAfter_endless N
  obtain ⟨-, -, -, hattempt⟩ := hN N (le_refl N)
  cases hattempt.symm.trans hnone

/-- **Two jobs whose budget is not spent**, although workers keep calling: one that has no turn,
and one whose retry overflows. -/
theorem retry_budget_not_spent :
    (Unclaimed 1 2 twice (unbounded retriedTwice)
        ∧ (∃ text, ((unbounded retriedTwice).sched.submit 1).2 = .ok text)
        ∧ ∃ r : InfiniteRun (work .increasing) (Others 1), r.state 0 = submittedTwice
          ∧ KeepsCalling r
          ∧ (∀ i o, (r.state i).execution? 1 (r.label i) = some o → o.succeeds = false)
          ∧ ¬ Budget 1 twice 2 .failed r)
      ∧ Unclaimed 1 2 endless (unbounded retriedNever)
      ∧ (∃ text, ((unbounded retriedNever).sched.submit 1).2 = .ok text)
      ∧ ∃ r : InfiniteRun (work .increasing) (Others 1), r.state 0 = submittedNever
        ∧ Served 1 r
        ∧ (∀ i o, (r.state i).execution? 1 (r.label i) = some o → o.succeeds = false)
        ∧ ¬ Budget 1 endless 2 .failed r :=
  ⟨⟨unclaimed_retriedTwice, ⟨_, rfl⟩, starved_submittedTwice⟩, unclaimed_retriedNever, ⟨_, rfl⟩,
    overflowed_submittedNever⟩

end World

end JobOrchestrator
