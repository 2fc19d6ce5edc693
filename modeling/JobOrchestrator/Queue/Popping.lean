import Mathlib.Tactic.Linarith
import JobOrchestrator.Queue.Peeking

/-!
# The waiting of `pop`

`pop` is a loop: it looks for a due job, and where it finds none it works out how long to wait,
waits, and looks again. The clock is read up to four times on the way, and the readings are
arguments here. The lock is given up only while the loop waits, so that is when the queue can
change under it.

Two things go wrong in the working out. It is done from the entry at the top of the heap, which
need not be the one that is due first (`wakesInTime_iff`). And where what comes out is not a time
to wait for, the loop looks again at once and comes past no test of the deadline
(`honoursTimeout_iff`): with jobs for later in the queue and the deadline passed it goes round
until one of them is due.
-/

namespace JobOrchestrator

namespace ThreadSafePriorityQueue

variable {q : ThreadSafePriorityQueue} {now : Time} {es : List QueueEntry}
  {m : OrderedDict UUID QueueEntry} {r : Finset UUID} {e top : QueueEntry}

/-! ## One iteration -/

/-- **The readings of the clock** in one iteration, in their order: for the search, for the time
until the next job, for the time until the deadline, and after the waiting. Not every iteration
takes all of them. They are four and not one because the time goes on between them, which is what
the deadline is about. -/
structure Readings where
  ready : Time
  next : Time
  left : Time
  woken : Time

/-- All readings at one time. -/
def Readings.at (now : Time) : Readings := ⟨now, now, now, now⟩

/-- The readings, one after the other. -/
def Readings.toList (t : Readings) : List Time := [t.ready, t.next, t.left, t.woken]

/-- What an iteration does that found no job. -/
inductive Pause
  | giveUp
  | wait (seconds : ℚ)
  | recheck
  deriving DecidableEq

/-- `wait_time`, from the entry at the top of the heap. -/
def waitTime (deadline : Option Time) (t : Readings) (top : QueueEntry) : ℚ :=
  match deadline with
  | none => top.scheduledTime - t.next
  | some d => min (top.scheduledTime - t.next) (d - t.left)

/-- **How an iteration goes on** that found no job, by the heap it has left. -/
def pause (deadline : Option Time) (t : Readings) : List QueueEntry → Pause
  | [] =>
    match deadline with
    | some d => if d - t.left ≤ 0 then .giveUp else .wait (d - t.left)
    | none => .wait 1
  | top :: _ =>
    if 0 < waitTime deadline t top then .wait (waitTime deadline t top) else .recheck

/-- What becomes of the loop in one iteration. -/
inductive Outcome
  | returned (found : Option UUID)
  | again
  deriving DecidableEq

/-- **What an iteration meets**: the clock, and the queue as the others leave it where it waits.
While the loop waits its lock is free, so the queue may be any other afterwards. -/
structure Iteration where
  readings : Readings
  waited : ThreadSafePriorityQueue

/-- **One iteration of the loop of `pop`.** It looks for a job that is due; where there is none
it gives up, waits, or goes back to the head of the loop. -/
def iterate (deadline : Option Time) (i : Iteration) (q : ThreadSafePriorityQueue) :
    Outcome × ThreadSafePriorityQueue :=
  if q.shutdown then (.returned none, q)
  else
    match (q.dequeue i.readings.ready).1 with
    | some job => (.returned (some job), (q.dequeue i.readings.ready).2)
    | none =>
      match pause deadline i.readings (q.dequeue i.readings.ready).2.heap with
      | .giveUp => (.returned none, (q.dequeue i.readings.ready).2)
      | .recheck => (.again, (q.dequeue i.readings.ready).2)
      | .wait _ =>
        match deadline with
        | some d => (if d ≤ i.readings.woken then .returned none else .again, i.waited)
        | none => (.again, i.waited)

/-- **The readings an iteration takes** that finds no job, by the heap it has left. -/
def reads (deadline : Option Time) (t : Readings) (es : List QueueEntry) : List Time :=
  let left := deadline.toList.map (fun _ => t.left)
  t.ready ::
    ((match es with
      | [] => left
      | _ :: _ => t.next :: left)
    ++ match pause deadline t es with
      | .wait _ => deadline.toList.map (fun _ => t.woken)
      | .giveUp | .recheck => [])

/-- **The loop**: the queue, and whether it has returned. -/
structure Popping where
  queue : ThreadSafePriorityQueue
  outcome : Outcome := .again

namespace Popping

/-- The loop after one more iteration. -/
def step (deadline : Option Time) (s : Popping) (i : Iteration) : Popping :=
  match s.outcome with
  | .returned _ => s
  | .again => ⟨(iterate deadline i s.queue).2, (iterate deadline i s.queue).1⟩

end Popping

/-- **`pop`**, as far as the listed iterations go: the deadline is worked out before the loop. -/
def pop (timeout : Option ℚ) (started : Time) (is : List Iteration)
    (q : ThreadSafePriorityQueue) : Popping :=
  History.after (Popping.step (timeout.map (started + ·))) { queue := q } is

/-- `pop_nowait`. -/
def popNowait (started : Time) (is : List Iteration) (q : ThreadSafePriorityQueue) : Popping :=
  q.pop (some 0) started is

/-! ## A search without a job -/

/-- A search that takes nothing leaves the remaining entries as they were. -/
theorem unswept_takeReady (h : (takeReady now es m r).1 = none) :
    unswept (takeReady now es m r).2.removed (takeReady now es m r).2.heap = unswept r es := by
  induction es generalizing m r with
  | nil => rfl
  | cons e es ih =>
    rw [takeReady] at h ⊢
    rw [unswept]
    split at h
    · rename_i hmarked
      rw [if_pos hmarked, if_pos hmarked]
      exact ih h
    · rename_i hmarked
      rw [if_neg hmarked, if_neg hmarked]
      split at h
      · cases h
      · rename_i hdue
        rw [if_neg hdue]
        -- the marks only go, so that an entry without one stays without
        have hstill : e.jobId ∉ (takeReady now es m r).2.removed :=
          fun hmem => hmarked (removed_takeReady_subset now es m r hmem)
        show unswept _ (e :: (takeReady now es m r).2.heap) = _
        rw [unswept, if_neg hstill]
        exact congrArg (e :: ·) (ih h)

theorem remaining_dequeue (h : (q.dequeue now).1 = none) :
    (q.dequeue now).2.remaining = q.remaining := by
  rw [dequeue_fst, Option.map_eq_none_iff] at h
  exact (unswept_takeReady h).trans remaining_cleanupRemoved

/-- **An iteration that finds no job**, by what remains in the queue. -/
theorem iterate_of_none {deadline : Option Time} {i : Iteration} (opened : q.shutdown = false)
    (none : (q.dequeue i.readings.ready).1 = none) :
    (iterate deadline i q).1
      = match pause deadline i.readings q.remaining with
        | .giveUp => .returned Option.none
        | .recheck => .again
        | .wait _ =>
          match deadline with
          | some d => if d ≤ i.readings.woken then .returned Option.none else .again
          | Option.none => .again := by
  unfold iterate
  simp only [opened, Bool.false_eq_true, if_false, none, heap_dequeue none]
  cases pause deadline i.readings q.remaining with
  | wait => cases deadline <;> rfl
  | _ => rfl

/-! ## The timeout -/

/-- The readings of an iteration follow one another. -/
def Readings.Ordered (t : Readings) : Prop := t.ready ≤ t.next ∧ t.next ≤ t.left ∧ t.left ≤ t.woken

/-- **An iteration honours the timeout**: where it finds no job and reads a clock that has come
to the deadline, the loop returns with nothing. -/
def HonoursTimeout (deadline : Time) (s : Popping) (i : Iteration) : Prop :=
  s.outcome = .again → s.queue.shutdown = false →
    (s.queue.dequeue i.readings.ready).1 = none →
    (∃ v ∈ reads (some deadline) i.readings (s.queue.dequeue i.readings.ready).2.heap,
      deadline ≤ v) →
    (s.step (some deadline) i).outcome = .returned none

/-- **An iteration that looks again past the deadline**: there are entries, none of them is due,
and the deadline has passed when the time to wait is worked out. Then nothing is returned, though
the deadline is over: this is the branch of the source that goes back to the head of the loop. -/
structure LooksAgain (deadline : Time) (s : Popping) (i : Iteration) : Prop where
  looping : s.outcome = .again
  opened : s.queue.shutdown = false
  waiting : s.queue.remaining ≠ []
  undue : ∀ e ∈ s.queue.remaining, i.readings.ready < e.scheduledTime
  passed : deadline ≤ i.readings.left

/-- **Where the heap is empty** the deadline is tested in any case. -/
theorem pause_nil {deadline : Time} {t : Readings} (ordered : t.Ordered)
    (h : ∃ v ∈ reads (some deadline) t [], deadline ≤ v) :
    pause (some deadline) t [] = .giveUp
      ∨ (∃ d, pause (some deadline) t [] = .wait d) ∧ deadline ≤ t.woken := by
  obtain ⟨hnext, hleft, hwoken⟩ := ordered
  obtain ⟨v, hv, hpassed⟩ := h
  unfold pause
  by_cases hgone : deadline - t.left ≤ 0
  · exact Or.inl (if_pos hgone)
  · simp only [if_neg hgone]
    refine Or.inr ⟨⟨_, rfl⟩, hpassed.trans ?_⟩
    simp [reads, pause, hgone] at hv
    rcases hv with rfl | rfl | rfl
    · exact (hnext.trans hleft).trans hwoken
    · exact hwoken
    · exact le_rfl

/-- **Where there are entries** it is tested after a wait. -/
theorem pause_cons {deadline : Time} {t : Readings} (ordered : t.Ordered)
    (before : t.left < deadline)
    (h : ∃ v ∈ reads (some deadline) t (top :: es), deadline ≤ v) :
    (∃ d, pause (some deadline) t (top :: es) = .wait d) ∧ deadline ≤ t.woken := by
  obtain ⟨hnext, hleft, -⟩ := ordered
  obtain ⟨v, hv, hpassed⟩ := h
  -- no reading before the waiting has come to the deadline
  have hlate : t.left < v := before.trans_le hpassed
  by_cases hwait : 0 < waitTime (some deadline) t top
  · simp [reads, pause, hwait] at hv
    refine ⟨⟨_, if_pos hwait⟩, ?_⟩
    rcases hv with rfl | rfl | rfl | rfl
    · exact absurd (hnext.trans hleft) (not_le.mpr hlate)
    · exact absurd hleft (not_le.mpr hlate)
    · exact absurd hlate (lt_irrefl _)
    · exact hpassed
  · simp [reads, pause, hwait] at hv
    rcases hv with rfl | rfl | rfl
    · exact absurd (hnext.trans hleft) (not_le.mpr hlate)
    · exact absurd hleft (not_le.mpr hlate)
    · exact absurd hlate (lt_irrefl _)

/-- Past the deadline there is no time to wait for. -/
theorem pause_of_passed {deadline : Time} {t : Readings} (passed : deadline ≤ t.left) :
    pause (some deadline) t (top :: es) = .recheck := by
  refine if_neg (not_lt.mpr ?_)
  exact (min_le_right _ _).trans (sub_nonpos.mpr passed)

theorem Popping.step_of_again {deadline : Option Time} {s : Popping} (h : s.outcome = .again)
    (i : Iteration) :
    s.step deadline i = ⟨(iterate deadline i s.queue).2, (iterate deadline i s.queue).1⟩ := by
  unfold step
  simp only [h]

/-- **One iteration honours the timeout exactly where it does not look again past it.** -/
theorem honoursTimeout_step {deadline : Time} {s : Popping} {i : Iteration}
    (ordered : i.readings.Ordered) : HonoursTimeout deadline s i ↔ ¬ LooksAgain deadline s i := by
  constructor
  · rintro honours ⟨hlooping, hopen, hwaiting, hundue, hpassed⟩
    have hnone := dequeue_fst_eq_none_iff.mpr hundue
    obtain ⟨top, es, hes⟩ := List.exists_cons_of_ne_nil hwaiting
    have hreads : i.readings.left ∈ reads (some deadline) i.readings
        (s.queue.dequeue i.readings.ready).2.heap := by
      rw [heap_dequeue hnone, hes]
      simp [reads]
    have hreturned := honours hlooping hopen hnone ⟨_, hreads, hpassed⟩
    rw [Popping.step_of_again hlooping, iterate_of_none hopen hnone, hes,
      pause_of_passed hpassed] at hreturned
    cases hreturned
  · intro hnot hlooping hopen hnone hreads
    rw [Popping.step_of_again hlooping, iterate_of_none hopen hnone]
    rw [heap_dequeue hnone] at hreads
    cases hes : s.queue.remaining with
    | nil =>
      rw [hes] at hreads
      rcases pause_nil ordered hreads with hpause | ⟨⟨d, hpause⟩, hwoken⟩
      · simp only [hpause]
      · simp only [hpause, if_pos hwoken]
    | cons top es =>
      have hbefore : i.readings.left < deadline := by
        by_contra hpassed
        refine hnot ⟨hlooping, hopen, ?_, dequeue_fst_eq_none_iff.mp hnone, not_lt.mp hpassed⟩
        rw [hes]
        exact List.cons_ne_nil _ _
      rw [hes] at hreads
      obtain ⟨⟨d, hpause⟩, hwoken⟩ := pause_cons ordered hbefore hreads
      simp only [hpause, if_pos hwoken]

/-- **The clock does not go back**, from before the loop through all the iterations. -/
def Chronological (started : Time) (is : List Iteration) : Prop :=
  (started :: is.flatMap (fun i => i.readings.toList)).Pairwise (· ≤ ·)

instance (started : Time) (is : List Iteration) : Decidable (Chronological started is) :=
  inferInstanceAs (Decidable (List.Pairwise _ _))

theorem Chronological.ordered {started : Time} {is : List Iteration}
    (h : Chronological started is) : ∀ i ∈ is, i.readings.Ordered := by
  intro i hi
  have hsub : i.readings.toList.Sublist (started :: is.flatMap (fun i => i.readings.toList)) := by
    rw [List.flatMap_def]
    exact (List.sublist_flatten_of_mem
      (List.mem_map_of_mem (f := fun i : Iteration => i.readings.toList) hi)).cons started
  have hpair := h.sublist hsub
  simp only [Readings.toList, List.pairwise_cons, List.mem_cons, List.not_mem_nil, or_false,
    forall_eq_or_imp, forall_eq] at hpair
  exact ⟨hpair.1.1, hpair.2.1.1, hpair.2.2.1⟩

/-- **When `pop` honours its timeout**: in the iterations of a call, whatever the queue, the
timeout and the clock, and whatever the others do while it waits, every iteration that finds no
job and reads a clock that has come to the deadline makes it return, as long as none looks again
past the deadline – and not otherwise. -/
theorem honoursTimeout_iff {timeout : ℚ} {started : Time} {is : List Iteration}
    (clock : Chronological started is) (q : ThreadSafePriorityQueue) :
    History.Admitted (Popping.step (some (started + timeout))) (HonoursTimeout (started + timeout))
        { queue := q } is
      ↔ History.Admitted (Popping.step (some (started + timeout)))
        (fun s i => ¬ LooksAgain (started + timeout) s i) { queue := q } is := by
  have hordered : History.Admitted (Popping.step (some (started + timeout)))
      (fun _ i => i.readings.Ordered) { queue := q } is :=
    History.admitted_of_forall (fun i hi _ => clock.ordered i hi)
  exact History.admitted_congr (I := fun _ => True) hordered trivial (fun _ _ h => h)
    (fun _ _ _ ordered => honoursTimeout_step ordered)

/-- A queue with one job, for the time 100. -/
def tomorrow : ThreadSafePriorityQueue :=
  (new none).insert { id := 1, scheduledAt := some ⟨100, none⟩ }

/-- Ten seconds to wait. The loop is woken at the time 12, by a push of another job for later, and
at the deadline, and then it returns: each time it had worked out what to wait for before. -/
theorem honoursTimeout_iff_wokenTwice :
    History.Admitted (Popping.step (some (5 + 10))) (HonoursTimeout (5 + 10)) { queue := tomorrow }
        [⟨⟨5, 5, 5, 12⟩, tomorrow.insert { id := 2, scheduledAt := some ⟨50, none⟩ }⟩,
          ⟨⟨12, 12, 13, 15⟩, tomorrow⟩]
      ∧ (tomorrow.pop (some 10) 5
        [⟨⟨5, 5, 5, 12⟩, tomorrow.insert { id := 2, scheduledAt := some ⟨50, none⟩ }⟩,
          ⟨⟨12, 12, 13, 15⟩, tomorrow⟩]).outcome = .returned none := by
  refine ⟨(honoursTimeout_iff (by decide +kernel) _).mpr
      ⟨fun looks => ?_, fun looks => ?_, trivial⟩,
    by decide +kernel⟩
  · have hpassed : (5 : ℚ) + 10 ≤ 5 := looks.passed
    norm_num at hpassed
  · have hpassed : (5 : ℚ) + 10 ≤ 13 := looks.passed
    norm_num at hpassed

/-! ### Round and round -/

/-- An iteration that looks again past the deadline leaves the queue to the next. -/
theorem LooksAgain.step {deadline : Time} {s : Popping} {i : Iteration}
    (h : LooksAgain deadline s i) :
    (s.step (some deadline) i).outcome = .again
      ∧ (s.step (some deadline) i).queue.remaining = s.queue.remaining
      ∧ (s.step (some deadline) i).queue.shutdown = false := by
  have hnone := dequeue_fst_eq_none_iff.mpr h.undue
  obtain ⟨top, es, hes⟩ := List.exists_cons_of_ne_nil h.waiting
  have hpause : pause (some deadline) i.readings (s.queue.dequeue i.readings.ready).2.heap
      = .recheck := by
    rw [heap_dequeue hnone, hes, pause_of_passed h.passed]
  rw [Popping.step_of_again h.looping]
  simp only [iterate, h.opened, Bool.false_eq_true, if_false, hnone, hpause]
  exact ⟨trivial, remaining_dequeue hnone, h.opened⟩

/-- **Past the deadline the loop goes round** for as long as no job is due, however often that
is: it never waits, so that nobody else can change the queue. -/
theorem outcome_of_undue {deadline : Time} {s : Popping} {is : List Iteration}
    (looping : s.outcome = .again) (opened : s.queue.shutdown = false)
    (waiting : s.queue.remaining ≠ [])
    (undue : ∀ i ∈ is, ∀ e ∈ s.queue.remaining, i.readings.ready < e.scheduledTime)
    (passed : ∀ i ∈ is, deadline ≤ i.readings.left) :
    (History.after (Popping.step (some deadline)) s is).outcome = .again := by
  induction is generalizing s with
  | nil => exact looping
  | cons i is ih =>
    have hlooks : LooksAgain deadline s i :=
      ⟨looping, opened, waiting, undue i List.mem_cons_self, passed i List.mem_cons_self⟩
    obtain ⟨hlooping, hremaining, hopen⟩ := hlooks.step
    refine ih hlooping hopen (hremaining ▸ waiting) ?_
      (fun j hj => passed j (List.mem_cons_of_mem i hj))
    intro j hj
    rw [hremaining]
    exact undue j (List.mem_cons_of_mem i hj)

/-- **`pop_nowait` does not return** from a queue with a job for later: at the time 5 it goes
round as often as one likes, and its first iteration does not honour the timeout. -/
theorem popNowait_tomorrow :
    (∀ n, (tomorrow.popNowait 5 (List.replicate n ⟨.at 5, tomorrow⟩)).outcome = .again)
      ∧ Chronological 5 [⟨.at 5, tomorrow⟩]
      ∧ ¬ History.Admitted (Popping.step (some (5 + 0))) (HonoursTimeout (5 + 0))
        { queue := tomorrow } [⟨.at 5, tomorrow⟩] := by
  have hundue : ∀ e ∈ tomorrow.remaining, (Readings.at 5).ready < e.scheduledTime := by
    decide +kernel
  have hwaiting : tomorrow.remaining ≠ [] := by decide +kernel
  refine ⟨fun n => ?_, by decide +kernel, fun honours => ?_⟩
  · refine outcome_of_undue rfl rfl hwaiting (fun i hi => ?_) (fun i hi => ?_)
    · rw [List.eq_of_mem_replicate hi]
      exact hundue
    · rw [List.eq_of_mem_replicate hi]
      show (5 : ℚ) + 0 ≤ 5
      norm_num
  · have hlooks : LooksAgain (5 + 0) { queue := tomorrow } ⟨.at 5, tomorrow⟩ :=
      ⟨rfl, rfl, hwaiting, hundue, by show (5 : ℚ) + 0 ≤ 5; norm_num⟩
    exact (honoursTimeout_step ⟨le_rfl, le_rfl, le_rfl⟩).mp honours.1 hlooks

/-! ## The time to wait -/

/-- **`pop` wakes in time**: it waits no longer than until the first of the remaining entries is
due, so that none is due while it waits. -/
structure WakesInTime (deadline : Option Time) (t : Readings) (q : ThreadSafePriorityQueue) :
    Prop where
  wait_le : ∀ seconds, pause deadline t (q.dequeue t.ready).2.heap = .wait seconds →
    ∀ e ∈ q.remaining, seconds ≤ e.scheduledTime - t.next
  undue_asleep : ∀ seconds, pause deadline t (q.dequeue t.ready).2.heap = .wait seconds →
    ∀ v, v < t.next + seconds → ∀ e ∈ q.remaining, v < e.scheduledTime

/-- The one clause says what the other says: no entry is due during a wait that is no longer than
each has left. -/
theorem wakesInTime_iff_wait_le {deadline : Option Time} {t : Readings} :
    WakesInTime deadline t q
      ↔ ∀ seconds, pause deadline t (q.dequeue t.ready).2.heap = .wait seconds →
        ∀ e ∈ q.remaining, seconds ≤ e.scheduledTime - t.next := by
  refine ⟨WakesInTime.wait_le, fun h => ⟨h, fun seconds hwait v hv e he => ?_⟩⟩
  have hle := h seconds hwait e he
  linarith

/-- There is no time to wait for: the entry at the top has become due since the search, or the
deadline has passed. -/
def NoWait (deadline : Option Time) (t : Readings) (top : QueueEntry) : Prop :=
  top.scheduledTime ≤ t.next ∨ ∃ d ∈ deadline, d ≤ t.left

theorem waitTime_nonpos_iff {deadline : Option Time} {t : Readings} :
    waitTime deadline t top ≤ 0 ↔ NoWait deadline t top := by
  cases deadline with
  | none => simp [waitTime, NoWait]
  | some d => simp [waitTime, NoWait]

/-- **The time to wait reaches no further than an entry**, where the one at the top is due no
later, or the deadline is no further off. -/
theorem waitTime_le_iff {deadline : Option Time} {t : Readings} :
    waitTime deadline t top ≤ e.scheduledTime - t.next
      ↔ top.scheduledTime ≤ e.scheduledTime
        ∨ ∃ d ∈ deadline, d - t.left ≤ e.scheduledTime - t.next := by
  cases deadline with
  | none => simp [waitTime]
  | some d => simp [waitTime]

theorem pause_eq_wait_iff {deadline : Option Time} {t : Readings} {seconds : ℚ} :
    pause deadline t (top :: es) = .wait seconds
      ↔ 0 < waitTime deadline t top ∧ waitTime deadline t top = seconds := by
  unfold pause
  by_cases hwait : 0 < waitTime deadline t top
  · simp [hwait]
  · simp [hwait]

/-- **When `pop` wakes in time**, for every queue with no due job: where it does not wait at all,
or the first entry in the order of the heap, which is by priority, is scheduled no later than any
other, up to those that the deadline comes before. -/
theorem wakesInTime_iff {deadline : Option Time} {t : Readings} {q : ThreadSafePriorityQueue}
    (undue : ∀ e ∈ q.remaining, t.ready < e.scheduledTime) :
    WakesInTime deadline t q
      ↔ ∀ top ∈ q.remaining.head?, NoWait deadline t top
        ∨ ∀ e ∈ q.remaining, top.scheduledTime ≤ e.scheduledTime
          ∨ ∃ d ∈ deadline, d - t.left ≤ e.scheduledTime - t.next := by
  rw [wakesInTime_iff_wait_le, heap_dequeue (dequeue_fst_eq_none_iff.mpr undue)]
  cases q.remaining with
  | nil => simp
  | cons top es =>
    have hbound : (∀ e ∈ top :: es, top.scheduledTime ≤ e.scheduledTime
          ∨ ∃ d ∈ deadline, d - t.left ≤ e.scheduledTime - t.next)
        ↔ ∀ e ∈ top :: es, waitTime deadline t top ≤ e.scheduledTime - t.next :=
      forall₂_congr (fun _ _ => waitTime_le_iff.symm)
    simp only [List.head?_cons, Option.mem_some_iff, forall_eq', pause_eq_wait_iff,
      ← waitTime_nonpos_iff, hbound]
    constructor
    · intro h
      by_cases hwait : 0 < waitTime deadline t top
      · exact Or.inr (h _ ⟨hwait, rfl⟩)
      · exact Or.inl (not_lt.mp hwait)
    · rintro h seconds ⟨hwait, rfl⟩
      exact h.resolve_left (not_le.mpr hwait)

/-- An urgent job for the time 100, and another for the time 50. -/
def urgentTomorrow : ThreadSafePriorityQueue :=
  ((new none).insert { id := 2, priority := .critical, scheduledAt := some ⟨100, none⟩ }).insert
    { id := 1, scheduledAt := some ⟨50, none⟩ }

/-- With the deadline at the time 20 there is nothing to oversleep: `pop` waits until then, and
neither job is due before. -/
theorem wakesInTime_iff_urgent :
    WakesInTime (some 20) (.at 5) urgentTomorrow
      ∧ pause (some 20) (.at 5) (urgentTomorrow.dequeue 5).2.heap = .wait 15 := by
  refine ⟨(wakesInTime_iff (by decide +kernel)).mpr
      (fun top htop => Or.inr (fun e he => Or.inr ?_)),
    by decide +kernel⟩
  refine ⟨20, rfl, ?_⟩
  show (20 : ℚ) - 5 ≤ e.scheduledTime - 5
  have hlater : ∀ e ∈ urgentTomorrow.remaining, (20 : ℚ) ≤ e.scheduledTime := by decide +kernel
  linarith [hlater e he]

/-- **`pop` oversleeps** where a more urgent job is scheduled for later: at the time 5 it waits
for 95 seconds, and the other job is due in 45. -/
theorem not_wakesInTime_urgent :
    urgentTomorrow.remaining ≠ []
      ∧ (∀ e ∈ urgentTomorrow.remaining, (Readings.at 5).ready < e.scheduledTime)
      ∧ ¬ WakesInTime none (.at 5) urgentTomorrow := by
  have hundue : ∀ e ∈ urgentTomorrow.remaining, (Readings.at 5).ready < e.scheduledTime := by
    decide +kernel
  refine ⟨by decide +kernel, hundue, fun h => ?_⟩
  have hwait : pause none (.at 5) (urgentTomorrow.dequeue 5).2.heap = .wait 95 := by decide +kernel
  have hearlier : ∃ e ∈ urgentTomorrow.remaining, e.scheduledTime = 50 := by decide +kernel
  obtain ⟨e, he, htime⟩ := hearlier
  have hle := h.wait_le 95 hwait e he
  rw [htime] at hle
  exact absurd hle (by show ¬ (95 : ℚ) ≤ 50 - 5; norm_num)

end ThreadSafePriorityQueue

end JobOrchestrator
