import Mathlib.Logic.Function.Basic
import JobOrchestrator.Queue.Accounting

/-!
# Timestamps without an offset

`Job.__post_init__` reads an aware `scheduled_at` or `created_at` as UTC and
drops its offset, "for internal consistency": the jobs are compared by these
fields, and Python refuses to order an aware time and a naive one.

Two other places write the fields. `Job.from_dict` assigns what it parsed after
the constructor is done, and `reschedule` of the queue assigns what it is
given, so an offset that comes in there stays.
-/

namespace JobOrchestrator

/-! ## Comparing -/

namespace DateTime

/-- An order of two values, which Python refuses where one has an offset and the other
has none. -/
def compared (test : Time → Time → Bool) (a b : DateTime) : Except PyException Bool :=
  if a.offset.isSome = b.offset.isSome then .ok (test a.timestamp b.timestamp)
  else .error ⟨["TypeError"], "can't compare offset-naive and offset-aware datetimes"⟩

/-- `a < b`. -/
def lt : DateTime → DateTime → Except PyException Bool := compared (fun x y => decide (x < y))

/-- `a <= b`. -/
def le : DateTime → DateTime → Except PyException Bool := compared (fun x y => decide (x ≤ y))

/-- `min`, with the least value so far. -/
def minimum (least : DateTime) : List DateTime → Except PyException DateTime
  | [] => .ok least
  | t :: ts => do if ← t.lt least then minimum t ts else minimum least ts

/-- The value has no offset. -/
def Naive (t : DateTime) : Prop := t.offset = none

theorem naive_toNaiveUtc (t : DateTime) : t.toNaiveUtc.Naive := by
  obtain ⟨clock, _ | offset⟩ := t <;> rfl

/-- Dropping the offset keeps the instant: the clock is set to UTC before the offset is dropped.
-/
@[simp] theorem timestamp_toNaiveUtc (t : DateTime) : t.toNaiveUtc.timestamp = t.timestamp := by
  obtain ⟨clock, _ | offset⟩ := t <;> simp [toNaiveUtc, timestamp]

theorem compared_of_naive {test : Time → Time → Bool} {a b : DateTime} (ha : a.Naive)
    (hb : b.Naive) : compared test a b = .ok (test a.timestamp b.timestamp) :=
  if_pos (by rw [ha, hb])

theorem exists_minimum {least : DateTime} {ts : List DateTime} (hleast : least.Naive)
    (hts : ∀ t ∈ ts, t.Naive) : ∃ t, minimum least ts = .ok t := by
  induction ts generalizing least with
  | nil => exact ⟨least, rfl⟩
  | cons t ts ih =>
    have ht : t.Naive := hts t List.mem_cons_self
    have hrest : ∀ t' ∈ ts, t'.Naive := fun t' ht' => hts t' (List.mem_cons_of_mem t ht')
    have hlt : t.lt least = .ok (decide (t.timestamp < least.timestamp)) :=
      compared_of_naive ht hleast
    rw [minimum, hlt]
    by_cases hless : t.timestamp < least.timestamp
    · rw [decide_eq_true hless]
      exact ih ht hrest
    · rw [decide_eq_false hless]
      exact ih hleast hrest

end DateTime

namespace Job

/-- `scheduled_at or created_at`. -/
def queueTime (job : Job) : DateTime := job.scheduledAt.getD job.createdAt

/-- **`Job.__lt__`**. -/
def lt (a b : Job) : Except PyException Bool :=
  if a.priority.value ≠ b.priority.value then .ok (decide (a.priority.value < b.priority.value))
  else a.queueTime.lt b.queueTime

/-- The two timestamps a job is ordered by have no offset. -/
structure Undated (job : Job) : Prop where
  scheduled : ∀ t ∈ job.scheduledAt, t.Naive
  created : job.createdAt.Naive

theorem Undated.queueTime {job : Job} (h : job.Undated) : job.queueTime.Naive := by
  rw [Job.queueTime]
  cases hs : job.scheduledAt with
  | none => exact h.created
  | some t => exact h.scheduled t hs

theorem exists_lt {a b : Job} (ha : a.Undated) (hb : b.Undated) : ∃ less, a.lt b = .ok less := by
  rw [lt]
  split
  · exact ⟨_, rfl⟩
  · exact ⟨_, DateTime.compared_of_naive ha.queueTime hb.queueTime⟩

/-- `job.scheduled_at is not None and job.scheduled_at <= now`. -/
def isReady (now : DateTime) (job : Job) : Except PyException Bool :=
  match job.scheduledAt with
  | none => .ok false
  | some t => t.le now

/-- `JobStore.get_ready_scheduled_jobs`, of the stored jobs. -/
def getReadyScheduledJobs (now : DateTime) : List Job → Except PyException (List Job)
  | [] => .ok []
  | job :: jobs => do
    let ready ← job.isReady now
    let rest ← getReadyScheduledJobs now jobs
    return if ready then job :: rest else rest

/-- `JobStore.get_next_scheduled_time`, of the stored jobs. -/
def getNextScheduledTime (jobs : List Job) : Except PyException (Option DateTime) :=
  match jobs.filterMap Job.scheduledAt with
  | [] => .ok none
  | t :: ts => (DateTime.minimum t ts).map some

theorem Undated.exists_isReady {job : Job} (h : job.Undated) {now : DateTime} (hnow : now.Naive) :
    ∃ ready, job.isReady now = .ok ready := by
  rw [isReady]
  cases hs : job.scheduledAt with
  | none => exact ⟨false, rfl⟩
  | some t => exact ⟨_, DateTime.compared_of_naive (h.scheduled t hs) hnow⟩

theorem exists_getReadyScheduledJobs {now : DateTime} (hnow : now.Naive) {jobs : List Job}
    (h : ∀ job ∈ jobs, job.Undated) : ∃ found, getReadyScheduledJobs now jobs = .ok found := by
  induction jobs with
  | nil => exact ⟨[], rfl⟩
  | cons job jobs ih =>
    obtain ⟨rest, hrest⟩ := ih (fun j hj => h j (List.mem_cons_of_mem job hj))
    obtain ⟨ready, hready⟩ := (h job List.mem_cons_self).exists_isReady hnow
    rw [getReadyScheduledJobs, hready, hrest]
    exact ⟨_, rfl⟩

theorem exists_getNextScheduledTime {jobs : List Job} (h : ∀ job ∈ jobs, job.Undated) :
    ∃ next, getNextScheduledTime jobs = .ok next := by
  have hnaive : ∀ t ∈ jobs.filterMap Job.scheduledAt, t.Naive := by
    intro t ht
    obtain ⟨job, hjob, hs⟩ := List.mem_filterMap.mp ht
    exact (h job hjob).scheduled t hs
  rw [getNextScheduledTime]
  cases hts : jobs.filterMap Job.scheduledAt with
  | nil => exact ⟨none, rfl⟩
  | cons t ts =>
    rw [hts] at hnaive
    obtain ⟨least, hleast⟩ := DateTime.exists_minimum (hnaive t List.mem_cons_self)
      (fun t' ht' => hnaive t' (List.mem_cons_of_mem t ht'))
    exact ⟨some least, by simp only [hleast]; rfl⟩

end Job

/-! ## The job objects -/

/-- The time a dictionary gives under a key: what `from_dict` parses, where the value counts
as true. -/
def givenTimestamp (forms : TextForms) (data : Dict) (key : String) : Option DateTime :=
  if (data.getD key .none).truthy then (data.getD key .none).asStr.bind forms.fromisoformat
  else none

namespace FullJob

variable {forms : TextForms}

theorem eq_of_readTimestamp {α : Type} {assign : DateTime → α} {old result : α} {data : Dict}
    {key : String} (h : readTimestamp forms assign old (data.getD key .none) = some result) :
    result = ((givenTimestamp forms data key).map assign).getD old := by
  rw [readTimestamp] at h
  rw [givenTimestamp]
  split at h
  · rename_i htrue
    rw [if_pos htrue, h]
    rfl
  · rename_i hfalse
    rw [if_neg hfalse]
    exact (Option.some.inj h).symm

/-- The constructor inside `from_dict` is given neither of the two timestamps. -/
theorem timestamps_construct {now : Time} {data : Dict} {job : FullJob}
    (h : construct forms now data = some job) :
    job.scheduledAt = none ∧ job.createdAt = .utcnow now := by
  -- the constructor is reached when the sixteen values before it are read
  rw [construct] at h
  iterate 16 obtain ⟨_, -, h⟩ := Option.bind_eq_some_iff.mp h
  cases h
  exact ⟨rfl, rfl⟩

/-- **A decoded job has the timestamps of the dictionary, as they are parsed.** -/
theorem timestamps_fromDict {now : Time} {data : Dict} {job : FullJob}
    (h : fromDict forms now data = some job) :
    job.scheduledAt = givenTimestamp forms data "scheduled_at"
      ∧ job.createdAt = (givenTimestamp forms data "created_at").getD (.utcnow now) := by
  rw [fromDict] at h
  obtain ⟨made, hmade, h⟩ := Option.bind_eq_some_iff.mp h
  obtain ⟨scheduledAt, hscheduled, h⟩ := Option.bind_eq_some_iff.mp h
  obtain ⟨createdAt, hcreated, h⟩ := Option.bind_eq_some_iff.mp h
  iterate 5 obtain ⟨_, -, h⟩ := Option.bind_eq_some_iff.mp h
  cases h
  obtain ⟨hnone, hnow⟩ := timestamps_construct hmade
  refine ⟨?_, ?_⟩
  · show scheduledAt = _
    rw [eq_of_readTimestamp hscheduled, hnone]
    cases givenTimestamp forms data "scheduled_at" <;> rfl
  · show createdAt = _
    rw [eq_of_readTimestamp hcreated, hnow]
    cases givenTimestamp forms data "created_at" <;> rfl

end FullJob

/-- **A job object**, with the times its two timestamps were last given. What was given is kept
beside the object, since a timestamp that has lost its offset no longer tells. -/
structure DatedJob where
  job : FullJob
  givenScheduled : Option DateTime
  givenCreated : DateTime

/-- **The timestamps are naive UTC**: they have no offset, and are the instants given. -/
structure DatedJob.Internal (d : DatedJob) : Prop where
  undated : d.job.toJob.Undated
  scheduled : d.job.scheduledAt.map DateTime.timestamp = d.givenScheduled.map DateTime.timestamp
  created : d.job.createdAt.timestamp = d.givenCreated.timestamp

/-- **The job objects in the order in which they were made, and a queue.** -/
structure JobObjects where
  objects : List DatedJob
  /-- The object of the entry that the map of the queue has for an id. -/
  filed : UUID → JobRef
  queue : ThreadSafePriorityQueue

/-- The ways of making a job, and the calls of the queue. -/
inductive ObjectCall
  /-- `Job(…)` with the given arguments. -/
  | construct (job : FullJob)
  /-- `Job.from_dict(data)`, at a reading of the clock. -/
  | fromDict (now : Time) (data : Dict)
  | push (ref : JobRef)
  | updatePriority (jobId : UUID) (newPriority : JobPriority)
  | reschedule (jobId : UUID) (scheduledAt : DateTime)
  | remove (jobId : UUID)
  | pop (now : Time)
  | peek
  | peekReady (now : Time)
  | clear

namespace JobObjects

open ThreadSafePriorityQueue

/-- No jobs yet, and an empty queue. -/
def start (maxSize : Option ℕ) : JobObjects := ⟨[], fun _ => 0, .new maxSize⟩

/-- What `update_priority` and `reschedule` do: the object of the entry that the map has for
a contained id is changed, and entered again. -/
def reenter (jobId : UUID) (change : DatedJob → DatedJob) (s : JobObjects) : JobObjects :=
  if s.queue.contains jobId then
    match s.objects[s.filed jobId]? with
    | none => s
    | some d =>
      { s with
        objects := s.objects.set (s.filed jobId) (change d)
        queue := s.queue.insert (change d).job.toJob }
  else s

/-- What is written by `job.priority = new_priority`. -/
def withPriority (newPriority : JobPriority) (d : DatedJob) : DatedJob :=
  { d with job := { d.job with priority := newPriority } }

/-- What is written by `job.scheduled_at = scheduled_at`. -/
def withScheduledAt (scheduledAt : DateTime) (d : DatedJob) : DatedJob :=
  { d with
    job := { d.job with scheduledAt := some scheduledAt }
    givenScheduled := some scheduledAt }

/-- `push` of an object. -/
def push (ref : JobRef) (s : JobObjects) : JobObjects :=
  match s.objects[ref]? with
  | none => s
  | some d =>
    if s.queue.full then s
    else
      { s with
        filed := Function.update s.filed d.job.id ref
        queue := s.queue.insert d.job.toJob }

/-- The object `from_dict` makes, where it does not raise. -/
def decoded (forms : TextForms) (now : Time) (data : Dict) : Option DatedJob :=
  (FullJob.fromDict forms now data).map (fun job =>
    ⟨job, givenTimestamp forms data "scheduled_at",
      (givenTimestamp forms data "created_at").getD (.utcnow now)⟩)

/-- **The state after a call.** -/
def step (forms : TextForms) (s : JobObjects) : ObjectCall → JobObjects
  | .construct job =>
    { s with objects := s.objects ++ [⟨job.postInit, job.scheduledAt, job.createdAt⟩] }
  | .fromDict now data => { s with objects := s.objects ++ (decoded forms now data).toList }
  | .push ref => s.push ref
  | .updatePriority jobId newPriority => s.reenter jobId (withPriority newPriority)
  | .reschedule jobId scheduledAt => s.reenter jobId (withScheduledAt scheduledAt)
  | .remove jobId => { s with queue := (s.queue.remove jobId).2 }
  | .pop now => { s with queue := (s.queue.dequeue now).2 }
  | .peek => { s with queue := s.queue.peek.2 }
  | .peekReady now => { s with queue := (s.queue.peekReady now).2 }
  | .clear => { s with queue := s.queue.clear.2 }

/-- **Every way the jobs are compared is safe**: their timestamps are naive UTC, no two of them
fail to compare, and neither does a search of the store among any of them. Python refuses to
compare a naive timestamp with an aware one, so a single aware one in the store would make every
search raise. -/
structure Consistent (s : JobObjects) : Prop where
  internal : ∀ d ∈ s.objects, d.Internal
  ordered : ∀ a ∈ s.objects, ∀ b ∈ s.objects, ∃ less, a.job.toJob.lt b.job.toJob = .ok less
  searched : ∀ stored : List Job, (∀ job ∈ stored, ∃ d ∈ s.objects, d.job.toJob = job) →
    (∀ now : DateTime, now.Naive → ∃ ready, Job.getReadyScheduledJobs now stored = .ok ready)
      ∧ ∃ next, Job.getNextScheduledTime stored = .ok next

/-- **A call that brings in no offset**: a dictionary whose two timestamps are naive, where it
is decoded, and a naive new time of a job in the queue. -/
def BringsNoOffset (forms : TextForms) (s : JobObjects) : ObjectCall → Prop
  | .fromDict now data => (FullJob.fromDict forms now data).isSome = true →
    (∀ t ∈ givenTimestamp forms data "scheduled_at", t.Naive)
      ∧ ∀ t ∈ givenTimestamp forms data "created_at", t.Naive
  | .reschedule jobId scheduledAt => s.queue.contains jobId = true → scheduledAt.Naive
  | _ => True

variable {forms : TextForms} {s : JobObjects}

/-- Nothing but the timestamps is needed for the comparisons. -/
theorem consistent_iff : s.Consistent ↔ ∀ d ∈ s.objects, d.Internal := by
  refine ⟨fun h => h.internal, fun h => ⟨h, fun a ha b hb => ?_, fun stored hstored => ?_⟩⟩
  · exact Job.exists_lt (h a ha).undated (h b hb).undated
  · have hjobs : ∀ job ∈ stored, job.Undated := by
      intro job hjob
      obtain ⟨d, hd, rfl⟩ := hstored job hjob
      exact (h d hd).undated
    exact ⟨fun now hnow => Job.exists_getReadyScheduledJobs hnow hjobs,
      Job.exists_getNextScheduledTime hjobs⟩

/-- **The map's entries are of objects**: every contained id has an object, which carries
it. -/
def Filed (s : JobObjects) : Prop :=
  ∀ k, s.queue.contains k = true → ∃ d, s.objects[s.filed k]? = some d ∧ d.job.id = k

theorem Filed.of_subset (h : s.Filed) {q : ThreadSafePriorityQueue}
    (fewer : q.containedIds ⊆ s.queue.containedIds) : Filed { s with queue := q } :=
  fun k hk => h k (mem_containedIds.mp (fewer (mem_containedIds.mpr hk)))

theorem Filed.append (h : s.Filed) (made : List DatedJob) :
    Filed { s with objects := s.objects ++ made } := by
  intro k hk
  obtain ⟨d, hd, hid⟩ := h k hk
  have hlt : s.filed k < s.objects.length := List.getElem?_eq_some_iff.mp hd |>.1
  exact ⟨d, by rw [List.getElem?_append_left hlt]; exact hd, hid⟩

theorem Filed.push (h : s.Filed) (ref : JobRef) : (s.push ref).Filed := by
  rw [JobObjects.push]
  cases hd : s.objects[ref]? with
  | none => exact h
  | some d =>
    show Filed (if _ then _ else _)
    split
    · exact h
    · intro k hk
      by_cases hid : k = d.job.id
      · exact ⟨d, by simpa [hid] using hd, hid.symm⟩
      · obtain ⟨d', hd', hid'⟩ := h k (((contains_insert _ _ k).mp hk).resolve_left hid)
        exact ⟨d', by simpa [Function.update_of_ne hid] using hd', hid'⟩

/-- What a change of a contained job comes to. -/
theorem reenter_of_contains (h : s.Filed) {jobId : UUID} (hk : s.queue.contains jobId = true)
    (change : DatedJob → DatedJob) :
    ∃ d, s.objects[s.filed jobId]? = some d ∧ d.job.id = jobId
      ∧ s.reenter jobId change
        = { s with
            objects := s.objects.set (s.filed jobId) (change d)
            queue := s.queue.insert (change d).job.toJob } := by
  obtain ⟨d, hd, hid⟩ := h jobId hk
  refine ⟨d, hd, hid, ?_⟩
  rw [reenter, if_pos hk, hd]

theorem reenter_of_not_contains {jobId : UUID} (hk : ¬ s.queue.contains jobId = true)
    (change : DatedJob → DatedJob) : s.reenter jobId change = s := if_neg hk

theorem Filed.reenter (h : s.Filed) (jobId : UUID) {change : DatedJob → DatedJob}
    (same_id : ∀ d, (change d).job.id = d.job.id) : (s.reenter jobId change).Filed := by
  by_cases hk : s.queue.contains jobId = true
  · obtain ⟨d, hd, hid, heq⟩ := reenter_of_contains h hk change
    rw [heq]
    intro k hin
    have hold : s.queue.contains k = true := by
      obtain rfl | hold := (contains_insert _ _ k).mp hin
      · rw [show (change d).job.toJob.id = jobId from (same_id d).trans hid]
        exact hk
      · exact hold
    obtain ⟨d', hd', hid'⟩ := h k hold
    by_cases href : s.filed jobId = s.filed k
    · obtain rfl : d = d' := Option.some.inj (hd.symm.trans (by rw [href]; exact hd'))
      have hlt : s.filed jobId < s.objects.length := List.getElem?_eq_some_iff.mp hd |>.1
      exact ⟨change d, by simp [← href, hlt], (same_id d).trans hid'⟩
    · exact ⟨d', by rw [List.getElem?_set_ne href]; exact hd', hid'⟩
  · rw [reenter_of_not_contains hk]
    exact h

theorem filed_step (h : s.Filed) (c : ObjectCall) : (s.step forms c).Filed := by
  cases c with
  | construct job => exact h.append _
  | fromDict now data => exact h.append _
  | push ref => exact h.push ref
  | updatePriority jobId p => exact h.reenter jobId (fun _ => rfl)
  | reschedule jobId t => exact h.reenter jobId (fun _ => rfl)
  | remove jobId => exact h.of_subset (containedIds_remove jobId)
  | pop now => exact h.of_subset (containedIds_dequeue now)
  | peek | peekReady now => exact h.of_subset containedIds_cleanupRemoved
  | clear =>
    refine h.of_subset ?_
    rw [containedIds_clear]
    exact Finset.empty_subset _

/-- The constructor makes both timestamps naive UTC. It does so after the fields were assigned,
so it sees whatever the caller has given. -/
theorem internal_postInit (job : FullJob) :
    DatedJob.Internal ⟨job.postInit, job.scheduledAt, job.createdAt⟩ where
  undated :=
    { scheduled := by
        intro t ht
        obtain ⟨t', -, rfl⟩ := Option.map_eq_some_iff.mp (Option.mem_def.mp ht)
        exact t'.naive_toNaiveUtc
      created := job.createdAt.naive_toNaiveUtc }
  scheduled := by
    show (job.scheduledAt.map DateTime.toNaiveUtc).map DateTime.timestamp = _
    cases job.scheduledAt <;> simp
  created := job.createdAt.timestamp_toNaiveUtc

/-- **A decoded object is as naive as the dictionary.** -/
theorem internal_decoded_iff {now : Time} {data : Dict} {d : DatedJob}
    (h : d ∈ decoded forms now data) :
    d.Internal ↔ (∀ t ∈ givenTimestamp forms data "scheduled_at", t.Naive)
      ∧ ∀ t ∈ givenTimestamp forms data "created_at", t.Naive := by
  obtain ⟨job, hjob, rfl⟩ := Option.map_eq_some_iff.mp (Option.mem_def.mp h)
  obtain ⟨hscheduled, hcreated⟩ := FullJob.timestamps_fromDict hjob
  have hnow : ((givenTimestamp forms data "created_at").getD (.utcnow now)).Naive
      ↔ ∀ t ∈ givenTimestamp forms data "created_at", t.Naive := by
    cases givenTimestamp forms data "created_at" with
    | none => simp [DateTime.Naive, DateTime.utcnow]
    | some t => simp
  rw [← hnow]
  refine ⟨fun hd => ⟨?_, ?_⟩, fun hd => ⟨⟨?_, ?_⟩, ?_, ?_⟩⟩
  · rw [← hscheduled]
    exact hd.undated.scheduled
  · rw [← hcreated]
    exact hd.undated.created
  · rw [hscheduled]
    exact hd.1
  · rw [hcreated]
    exact hd.2
  · rw [hscheduled]
  · rw [hcreated]

/-- A job with a new priority has the timestamps it had. -/
theorem DatedJob.Internal.withPriority {d : DatedJob} (h : d.Internal) (p : JobPriority) :
    (withPriority p d).Internal :=
  ⟨⟨h.undated.scheduled, h.undated.created⟩, h.scheduled, h.created⟩

/-- A rescheduled job is as naive as its new time. -/
theorem internal_withScheduledAt_iff {d : DatedJob} (h : d.Internal) (t : DateTime) :
    (withScheduledAt t d).Internal ↔ t.Naive := by
  refine ⟨fun hd => hd.undated.scheduled t rfl, fun ht => ⟨⟨?_, h.undated.created⟩, rfl, h.created⟩⟩
  intro t' ht'
  obtain rfl : t = t' := Option.some.inj ht'
  exact ht

/-- Objects that are made are added to those that are naive UTC. -/
theorem internal_append_iff (hall : ∀ d ∈ s.objects, d.Internal) (made : List DatedJob) :
    (∀ d ∈ s.objects ++ made, d.Internal) ↔ ∀ d ∈ made, d.Internal := by
  rw [List.forall_mem_append]
  exact and_iff_right hall

/-- A decoding adds an object that is as naive as the dictionary, where it adds one. -/
theorem internal_made_iff (forms : TextForms) (now : Time) (data : Dict) :
    (∀ d ∈ (decoded forms now data).toList, d.Internal)
      ↔ BringsNoOffset forms s (.fromDict now data) := by
  show _ ↔ (_ → _)
  cases hjob : FullJob.fromDict forms now data with
  | none =>
    have hnone : decoded forms now data = none := by rw [decoded, hjob]; rfl
    rw [hnone]
    exact iff_of_true (fun d hd => absurd hd List.not_mem_nil) (fun hsome => by cases hsome)
  | some job =>
    obtain ⟨d, hd⟩ : ∃ d, d ∈ decoded forms now data := ⟨_, by rw [decoded, hjob]; rfl⟩
    rw [← internal_decoded_iff hd, Option.mem_def.mp hd]
    simp

/-- A push changes no object: the entry copies what it needs. -/
theorem objects_push (s : JobObjects) (ref : JobRef) : (s.push ref).objects = s.objects := by
  rw [JobObjects.push]
  cases s.objects[ref]? with
  | none => rfl
  | some d => exact (apply_ite JobObjects.objects _ _ _).trans (ite_self _)

/-- **A change of a contained job** leaves the objects naive UTC exactly if it makes one that
is. -/
theorem internal_reenter_iff (filed : s.Filed) (hall : ∀ d ∈ s.objects, d.Internal)
    (jobId : UUID) {change : DatedJob → DatedJob} {naive : Prop}
    (changed : ∀ d, d.Internal → ((change d).Internal ↔ naive)) :
    (∀ d ∈ (s.reenter jobId change).objects, d.Internal)
      ↔ (s.queue.contains jobId = true → naive) := by
  by_cases hk : s.queue.contains jobId = true
  · obtain ⟨d, hd, -, heq⟩ := reenter_of_contains filed hk change
    rw [heq, ← changed d (hall d (List.mem_of_getElem? hd))]
    constructor
    · intro hset _
      have hlt : s.filed jobId < s.objects.length := List.getElem?_eq_some_iff.mp hd |>.1
      exact hset _ (List.mem_set hlt _)
    · intro hnew d' hd'
      obtain hd' | rfl := List.mem_or_eq_of_mem_set hd'
      · exact hall d' hd'
      · exact hnew hk
  · rw [reenter_of_not_contains hk]
    exact iff_of_true hall (fun hin => absurd hin hk)

/-- **What every call does to the consistency**: it keeps it where it brings in no offset,
and only there. -/
theorem consistent_step_iff (filed : s.Filed) (h : s.Consistent) (c : ObjectCall) :
    (s.step forms c).Consistent ↔ BringsNoOffset forms s c := by
  have hall := h.internal
  rw [consistent_iff]
  cases c with
  | construct job =>
    refine iff_of_true ((internal_append_iff hall _).mpr (fun d hd => ?_)) trivial
    rw [List.mem_singleton.mp hd]
    exact internal_postInit job
  | fromDict now data =>
    exact (internal_append_iff hall _).trans (internal_made_iff forms now data)
  | push ref =>
    show (∀ d ∈ (s.push ref).objects, d.Internal) ↔ True
    rw [objects_push]
    exact iff_of_true hall trivial
  | updatePriority jobId p =>
    have hchanged : ∀ d : DatedJob, d.Internal → ((withPriority p d).Internal ↔ True) :=
      fun d hd => iff_of_true (DatedJob.Internal.withPriority hd p) trivial
    have hkept := (internal_reenter_iff filed hall jobId hchanged).mpr (fun _ => trivial)
    exact iff_of_true hkept trivial
  | reschedule jobId t =>
    exact internal_reenter_iff filed hall jobId (fun d hd => internal_withScheduledAt_iff hd t)
  | remove | pop | peek | peekReady | clear => exact iff_of_true hall trivial

/-- **The timestamps stay naive UTC exactly where no offset comes in.** In every run of
constructions, decodings and calls of the queue, the timestamps are naive UTC, and nothing
fails to compare, in every state reached, if and only if every dictionary decoded has naive
timestamps and every job in the queue is rescheduled to a naive time. -/
theorem consistent_throughout_iff (forms : TextForms) (maxSize : Option ℕ)
    (cs : List ObjectCall) :
    (∀ ds, ds <+: cs → (History.after (step forms) (start maxSize) ds).Consistent)
      ↔ History.Admitted (step forms) (BringsNoOffset forms) (start maxSize) cs := by
  refine History.throughout_iff_admitted (P := Consistent) (I := Filed)
    (fun s c hfiled hs => consistent_step_iff hfiled hs c) (fun s c hfiled => filed_step hfiled c)
    ?_ ?_ cs
  · intro k hk
    cases hk
  · exact consistent_iff.mpr (fun d hd => absurd hd List.not_mem_nil)

/-- Noon of the first day of 2026, two hours east of Greenwich. -/
def noonEast : DateTime := ⟨1767268800, some 7200⟩

/-- The texts of that time and of the identifier 1. -/
def eastForms : TextForms where
  isoformat _ := "2026-01-01T12:00:00+02:00"
  fromisoformat text := if text = "2026-01-01T12:00:00+02:00" then some noonEast else none
  uuid text := if text = UUID.str 1 then some 1 else none

/-- **An offset gets in** with a dictionary and with a new time in the queue, and then the job
cannot be compared with one that was constructed. -/
theorem offset_gets_in :
    (∃ s, s = History.after (step eastForms) (start none)
        [.fromDict 0 [("id", .str (UUID.str 1)),
          ("scheduled_at", .str "2026-01-01T12:00:00+02:00")]]
      ∧ s.objects.map (fun d => d.job.scheduledAt) = [some noonEast] ∧ ¬ s.Consistent)
    ∧ ∃ s, s = History.after (step eastForms) (start none)
        [.construct { id := 1 }, .construct { id := 2 }, .push 0, .reschedule 1 noonEast]
      ∧ s.objects.map (fun d => d.job.scheduledAt) = [some noonEast, none]
      ∧ (s.objects[0]?.bind fun a => s.objects[1]?.map fun b => a.job.toJob.lt b.job.toJob)
        = some (.error ⟨["TypeError"], "can't compare offset-naive and offset-aware datetimes"⟩)
      ∧ ¬ s.Consistent := by
  have haware {s : JobObjects} {ts : List (Option DateTime)}
      (h : s.objects.map (fun d => d.job.scheduledAt) = some noonEast :: ts) : ¬ s.Consistent := by
    intro hs
    obtain ⟨d, ds, hobj, hd, -⟩ := List.map_eq_cons_iff.mp h
    have hd' := (hs.internal d (by rw [hobj]; exact List.mem_cons_self)).undated.scheduled
    cases hd' noonEast hd
  have hdecoded : (History.after (step eastForms) (start none)
      [.fromDict 0 [("id", .str (UUID.str 1)),
        ("scheduled_at", .str "2026-01-01T12:00:00+02:00")]]).objects.map
          (fun d => d.job.scheduledAt) = [some noonEast] := by
    decide +kernel
  have hqueued : (History.after (step eastForms) (start none)
      [.construct { id := 1 }, .construct { id := 2 }, .push 0,
        .reschedule 1 noonEast]).objects.map (fun d => d.job.scheduledAt)
          = [some noonEast, none] := by
    decide +kernel
  exact ⟨⟨_, rfl, hdecoded, haware hdecoded⟩, _, rfl, hqueued, by rfl, haware hqueued⟩

end JobObjects

end JobOrchestrator
