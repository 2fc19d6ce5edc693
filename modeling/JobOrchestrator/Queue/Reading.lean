import Mathlib.Data.List.Pairwise
import JobOrchestrator.Queue.Accounting
import JobOrchestrator.Queue.Peeking
import JobOrchestrator.Util.Refinement

/-!
# Reading the queue

The calls that only look: `get`, iteration, `get_next_scheduled_time` and the
sizes. They go through the map and not through the heap, so that they and the
pops agree is a matter of the invariant: where the parts of the queue agree,
the entries of the map that are not marked are the live entries of the heap.

Iterating gives the jobs in the order of their entries. Pops at one reading of
the clock return those of them that are due, in that order, and then nothing.
-/

namespace JobOrchestrator

/-- `datetime.utcfromtimestamp`: a naive value. -/
def DateTime.utcfromtimestamp (seconds : Time) : DateTime := ⟨seconds, none⟩

namespace ThreadSafePriorityQueue

/-! ## The calls -/

/-- `get`. -/
def get (jobId : UUID) (q : ThreadSafePriorityQueue) : Option UUID :=
  if q.contains jobId then (q.entryMap.get? jobId).map QueueEntry.jobId else none

/-- `is_empty`, and `empty()`: whether `size` is zero. -/
def isEmpty (q : ThreadSafePriorityQueue) : Bool := decide (q.len = 0)

/-- **`__iter__`**: `sorted` over the entries of the map that are not marked. -/
def iter (q : ThreadSafePriorityQueue) : List UUID :=
  (q.counted.insertionSort QueueEntry.le).map QueueEntry.jobId

/-- **`get_next_scheduled_time`**, which cleans the top of the heap first. -/
def getNextScheduledTime (q : ThreadSafePriorityQueue) :
    Option DateTime × ThreadSafePriorityQueue :=
  let clean := q.cleanupRemoved
  ((clean.counted.map QueueEntry.scheduledTime).min?.map DateTime.utcfromtimestamp, clean)

/-! ## The map and the heap -/

section Coherent

variable {q : ThreadSafePriorityQueue}

theorem mem_live {e : QueueEntry} : e ∈ q.live ↔ e ∈ q.heap ∧ e.jobId ∉ q.removed := mem_unmarked

/-- The map has the live entries, each under its id. -/
theorem Coherent.get?_of_mem_live (h : q.Coherent) {e : QueueEntry} (he : e ∈ q.live) :
    q.entryMap.get? e.jobId = some e :=
  (h.mapped e.jobId e).mpr ⟨(mem_live.mp he).1, rfl⟩

theorem Coherent.nodup_ids_live (h : q.Coherent) : (ids q.live).Nodup :=
  h.nodup.sublist (List.filter_sublist.map _)

/-- An id has one live entry, so the job says which entry is meant. -/
theorem Coherent.live_single (h : q.Coherent) {e e' : QueueEntry} (he : e ∈ q.live)
    (he' : e' ∈ q.live) (same : e.jobId = e'.jobId) : e = e' := by
  have hget := h.get?_of_mem_live he
  rw [same, h.get?_of_mem_live he'] at hget
  exact (Option.some.inj hget).symm

theorem Coherent.mem_counted (h : q.Coherent) {e : QueueEntry} : e ∈ q.counted ↔ e ∈ q.live := by
  rw [counted, List.mem_filter, decide_eq_true_eq, mem_live, OrderedDict.mem_values_iff]
  refine and_congr_left (fun _ => ?_)
  constructor
  · rintro ⟨k, hk⟩
    exact ((h.mapped k e).mp hk).1
  · intro he
    exact ⟨e.jobId, (h.mapped _ e).mpr ⟨he, rfl⟩⟩

theorem Coherent.nodup_counted (h : q.Coherent) : q.counted.Nodup := by
  have hkeys : q.entryMap.values.map QueueEntry.jobId = q.entryMap.keys := by
    rw [OrderedDict.values, OrderedDict.keys, List.map_map]
    refine List.map_congr_left (fun x hx => ?_)
    exact ((h.mapped x.1 x.2).mp (OrderedDict.get?_eq_some_iff.mpr hx)).2
  have hvalues : q.entryMap.values.Nodup := by
    refine List.Nodup.of_map QueueEntry.jobId ?_
    rw [hkeys]
    exact q.entryMap.nodup_keys
  exact hvalues.filter _

/-- **The entries of the map that are not marked are the live entries of the heap.** -/
theorem Coherent.perm_counted (h : q.Coherent) : q.counted.Perm q.live :=
  (List.perm_ext_iff_of_nodup h.nodup_counted h.nodup_ids_live.of_map).mpr
    (fun _ => h.mem_counted)

/-- **Iterating gives the live entries in the order of the heap.** -/
theorem Coherent.iter_eq (h : q.Coherent) (numbered : q.Numbered) : q.iter = ids q.live := by
  have hsorted : (q.counted.insertionSort QueueEntry.le).Pairwise QueueEntry.le :=
    List.pairwise_insertionSort _ _
  refine congrArg (List.map QueueEntry.jobId) ?_
  refine List.Perm.eq_of_pairwise ?_ hsorted q.sorted_live
    ((List.perm_insertionSort _ _).trans h.perm_counted)
  intro a b ha hb hab hba
  rw [List.mem_insertionSort] at ha
  have ha' : a ∈ q.heap := (mem_live.mp (h.mem_counted.mp ha)).1
  have hb' : b ∈ q.heap := (mem_live.mp hb).1
  have hsymm : Std.Symm (fun a b : QueueEntry => a.insertionOrder ≠ b.insertionOrder) :=
    ⟨fun _ _ hne => hne.symm⟩
  by_contra hne
  exact numbered.distinct.forall ha' hb' hne (QueueEntry.insertionOrder_eq hab hba)

/-- **`get` finds what the queue contains.** It looks in the map and asks whether the id is
marked, as `contains` does. -/
theorem Coherent.get_eq (h : q.Coherent) (k : UUID) :
    q.get k = if q.contains k then some k else none := by
  rw [get]
  split
  · rename_i hk
    obtain ⟨hmem, -⟩ := (contains_iff_live (h.at k)).mp hk
    obtain ⟨e, he, hid⟩ := mem_ids.mp hmem
    rw [(h.mapped k e).mpr ⟨he, hid⟩, Option.map_some, hid]
  · rfl

theorem Coherent.contains_iff (h : q.Coherent) {k : UUID} :
    q.contains k = true ↔ ∃ e ∈ q.live, e.jobId = k := by
  rw [contains_iff_live (h.at k), Live, mem_ids]
  constructor
  · rintro ⟨⟨e, he, rfl⟩, hk⟩
    exact ⟨e, mem_live.mpr ⟨he, hk⟩, rfl⟩
  · rintro ⟨e, he, rfl⟩
    exact ⟨⟨e, (mem_live.mp he).1, rfl⟩, (mem_live.mp he).2⟩

/-- Cleaning the top of the heap keeps what is live. -/
theorem Coherent.live_cleanupRemoved (h : q.Coherent) : q.cleanupRemoved.live = q.live :=
  unmarked_cleanup h.nodup q.entryMap q.removed

theorem Coherent.cleanupRemoved (h : q.Coherent) : q.cleanupRemoved.Coherent :=
  coherent_iff.mpr (fun k => (h.at k).cleanupRemoved.1)

/-- **The next scheduled time is the least of the live entries.** -/
theorem Coherent.getNextScheduledTime_eq_some_iff (h : q.Coherent) {t : DateTime} :
    q.getNextScheduledTime.1 = some t
      ↔ ∃ e ∈ q.live, (∀ e' ∈ q.live, e.scheduledTime ≤ e'.scheduledTime)
        ∧ t = .utcfromtimestamp e.scheduledTime := by
  have hmem (e : QueueEntry) : e ∈ q.cleanupRemoved.counted ↔ e ∈ q.live := by
    rw [h.cleanupRemoved.mem_counted, h.live_cleanupRemoved]
  show ((q.cleanupRemoved.counted.map _).min?.map _) = some t ↔ _
  simp only [Option.map_eq_some_iff, List.min?_eq_some_iff, List.mem_map, hmem]
  constructor
  · rintro ⟨-, ⟨⟨e, he, rfl⟩, hleast⟩, rfl⟩
    exact ⟨e, he, fun e' he' => hleast _ ⟨e', he', rfl⟩, rfl⟩
  · rintro ⟨e, he, hleast, rfl⟩
    refine ⟨_, ⟨⟨e, he, rfl⟩, ?_⟩, rfl⟩
    rintro - ⟨e', he', rfl⟩
    exact hleast e' he'

theorem Coherent.getNextScheduledTime_eq_none_iff (h : q.Coherent) :
    q.getNextScheduledTime.1 = none ↔ q.live = [] := by
  show ((q.cleanupRemoved.counted.map _).min?.map _) = none ↔ _
  rw [Option.map_eq_none_iff, List.min?_eq_none_iff, List.map_eq_nil_iff, ← h.live_cleanupRemoved]
  exact ⟨fun hnil => List.Perm.eq_nil (hnil ▸ h.cleanupRemoved.perm_counted.symm),
    fun hnil => List.Perm.eq_nil (hnil ▸ h.cleanupRemoved.perm_counted)⟩

end Coherent

/-! ## The statistics -/

section Statistics

variable {q : ThreadSafePriorityQueue}

theorem priority_eq_of_ofValue {n : ℕ} {p : JobPriority} (h : JobPriority.ofValue n = some p) :
    n = p.value := by
  have hfound : p.value = n := by simpa using List.find?_some h
  exact hfound.symm

theorem name_injective : Function.Injective JobPriority.name := by
  intro p p' h
  cases p <;> cases p' <;> first | rfl | exact absurd h (by decide)

theorem value_injective : Function.Injective JobPriority.value := by
  intro p p' h
  have hsame : JobPriority.ofValue p.value = JobPriority.ofValue p'.value := congrArg _ h
  rw [JobPriority.ofValue_value, JobPriority.ofValue_value] at hsame
  exact Option.some.inj hsame

/-- **The loop over the priorities** counts under each name the entries of its priority. -/
theorem get?_countPriorities {es : List QueueEntry} {counts counts' : OrderedDict String ℕ}
    (counted : countPriorities counts es = some counts') (p : JobPriority) :
    (counts'.get? p.name).getD 0
      = (counts.get? p.name).getD 0 + es.countP (fun e => decide (e.priority = p.value)) := by
  induction es generalizing counts with
  | nil =>
    cases counted
    rfl
  | cons e es ih =>
    rw [countPriorities] at counted
    cases hpriority : JobPriority.ofValue e.priority with
    | none =>
      rw [hpriority] at counted
      cases counted
    | some p' =>
      rw [hpriority] at counted
      rw [ih counted, OrderedDict.get?_set, List.countP_cons, priority_eq_of_ofValue hpriority]
      by_cases hp : p = p'
      · subst hp
        simp only [if_pos, Option.getD_some, decide_true]
        omega
      · have hname : p.name ≠ p'.name := fun h => hp (name_injective h)
        have hvalue : p'.value ≠ p.value := fun h => hp (value_injective h).symm
        simp [hname, hvalue]

/-- **The statistics are those of the live entries**: how many there are, how many of them are
due, how many of each priority, and how many entries on the heap are not live. -/
theorem Coherent.getStats (h : q.Coherent) (books : q.Accounted) (now : Time) :
    ∃ stats, q.getStats now = some stats ∧ stats.totalSize = q.live.length
      ∧ stats.ready = q.live.countP (due now)
      ∧ stats.ready + stats.scheduled = q.live.length
      ∧ (∀ p : JobPriority, (stats.byPriority.get? p.name).getD 0
        = q.live.countP (fun e => decide (e.priority = p.value)))
      ∧ stats.heapSize = q.live.length + stats.removedCount := by
  obtain ⟨stats, heq, htotal, hsplit, -, -⟩ := books.getStats now
  obtain ⟨counts, hcounts, hstats⟩ := Option.bind_eq_some_iff.mp heq
  obtain rfl := Option.some.inj hstats
  have hlen := h.len_eq
  have hready : q.counted.countP (fun e => decide (e.scheduledTime ≤ now))
      = q.live.countP (due now) := h.perm_counted.countP_eq _
  refine ⟨_, heq, hlen, hready, ?_, fun p => ?_, ?_⟩
  · have hsplit' : ((q.counted.countP _ : ℕ) : ℤ) + (q.counted.countP _ : ℕ) = q.len := hsplit
    show q.counted.countP _ + q.counted.countP _ = _
    omega
  · show (counts.get? p.name).getD 0 = _
    rw [get?_countPriorities hcounts p, h.perm_counted.countP_eq]
    simp
  · have hsize := h.size_entryMap
    show q.heap.length = q.live.length + q.removed.card
    have hlen' : (q.entryMap.size : ℤ) - q.removed.card = q.live.length := hlen
    omega

end Statistics

/-! ## Draining -/

/-- The jobs that are due, in the order of the iteration. -/
def readyInOrder (now : Time) (q : ThreadSafePriorityQueue) : List UUID :=
  q.iter.filter (fun k => (q.entryMap.get? k).any (due now))

theorem Coherent.readyInOrder_eq {q : ThreadSafePriorityQueue} (h : q.Coherent)
    (numbered : q.Numbered) (now : Time) :
    q.readyInOrder now = ids (q.live.filter (due now)) := by
  rw [readyInOrder, h.iter_eq numbered, ids, ids, List.filter_map]
  refine congrArg (List.map QueueEntry.jobId) (List.filter_congr (fun e he => ?_))
  show (q.entryMap.get? e.jobId).any (due now) = due now e
  rw [h.get?_of_mem_live he, Option.any_some]

end ThreadSafePriorityQueue

namespace JobQueue

open ThreadSafePriorityQueue Refinement

variable {s : JobQueue}

theorem filter_eraseP_self {α : Type*} (p : α → Bool) (l : List α) :
    (l.eraseP p).filter p = (l.filter p).tail := by
  induction l with
  | nil => rfl
  | cons a l ih =>
    by_cases hp : p a = true
    · simp [hp]
    · simp [hp, ih]

/-- Pops at one reading return the live entries that are due, in their order. -/
theorem replies_pops (h : s.queue.Coherent) (now : Time) (n : ℕ) :
    replies call s (List.replicate n (.pop now))
      = (List.range n).map
        (fun i => .job ((ids (s.queue.live.filter (due now)))[i]?)) := by
  induction n generalizing s with
  | zero => rfl
  | succ n ih =>
    obtain ⟨hnext, hleft⟩ := h.nextReady now
    have hfirst : (s.queue.dequeue now).1 = (ids (s.queue.live.filter (due now)))[0]? := by
      rw [dequeue_fst, hnext, ids, List.getElem?_map, ← List.head?_eq_getElem?, List.head?_filter]
    have hrest : ids ((s.queue.dequeue now).2.live.filter (due now))
        = (ids (s.queue.live.filter (due now))).tail := by
      rw [hleft, filter_eraseP_self, ids, ids, List.map_tail]
    rw [List.replicate_succ, replies_cons, List.range_succ_eq_map, List.map_cons, List.map_map]
    refine congrArg₂ List.cons (congrArg QueueReply.job hfirst) ?_
    refine (ih (h.dequeue now).1).trans (List.map_congr_left (fun i _ => ?_))
    show QueueReply.job ((ids ((s.queue.dequeue now).2.live.filter (due now)))[i]?) = _
    rw [hrest, List.getElem?_tail]
    rfl

/-- The books of the queue balance after every history. -/
theorem accounted_after (jobs : JobTable) (maxSize : Option ℕ) (cs : List QueueCall) :
    (History.after step (start jobs maxSize) cs).queue.Accounted := by
  have hempty : (start jobs maxSize).queue.Within := fun m _ => by
    rw [show (start jobs maxSize).queue.containedIds = ∅ from rfl]
    exact Nat.zero_le m
  exact (History.invariant_of_kept (P := fun s : JobQueue => s.queue.Accounted ∧ s.queue.Within)
    ⟨accounted_new maxSize, hempty⟩ (fun _ c h => accounted_step h c) cs).1

/-- **Iteration is the order of the pops.** After every history in which every id enters fresh:
iterating lists every job that the queue contains, once; pops at one reading of the clock return
those of them that are due, in the order of the iteration, and then nothing; `get_stats` counts
as many that are ready; and where everything is due, that is the iteration itself. -/
theorem drained_in_order {jobs : JobTable} {maxSize : Option ℕ} {cs : List QueueCall}
    (fresh : ∀ k, History.Admitted step (EntersFresh k) (start jobs maxSize) cs) (now : Time) :
    let s := History.after step (start jobs maxSize) cs
    s.queue.iter.Nodup ∧ (∀ k, k ∈ s.queue.iter ↔ s.queue.contains k = true)
      ∧ (∀ n, replies call s (List.replicate n (.pop now))
        = (List.range n).map (fun i => .job ((s.queue.readyInOrder now)[i]?)))
      ∧ (∃ stats, s.queue.getStats now = some stats
        ∧ stats.ready = (s.queue.readyInOrder now).length)
      ∧ (s.queue.AllDue now → s.queue.readyInOrder now = s.queue.iter) := by
  intro s
  have hcoh : s.queue.Coherent := coherent_after fresh
  have hnumbered : s.queue.Numbered := numbered_after jobs maxSize cs
  have hiter := hcoh.iter_eq hnumbered
  have hready := hcoh.readyInOrder_eq hnumbered now
  refine ⟨?_, fun k => ?_, fun n => ?_, ?_, fun hdue => ?_⟩
  · rw [hiter]
    exact hcoh.nodup_ids_live
  · rw [hiter, mem_ids, hcoh.contains_iff]
  · rw [hready]
    exact replies_pops hcoh now n
  · obtain ⟨stats, heq, -, hstats, -⟩ := hcoh.getStats (accounted_after jobs maxSize cs) now
    refine ⟨stats, heq, ?_⟩
    rw [hready, hstats, ids, List.length_map, List.countP_eq_length_filter]
  · rw [hready, hiter]
    refine congrArg ids (List.filter_eq_self.mpr (fun e he => ?_))
    exact decide_eq_true (hdue e (mem_live.mp he).1)

/-- Job 2 is urgent and of the future, job 3 is removed: two of three jobs are listed, and one
is ready. -/
theorem drained_in_order_future :
    let cs : List QueueCall :=
      [.assign { id := 2, priority := .critical, scheduledAt := some ⟨100, none⟩ }, .push 2,
        .push 3, .push 1, .remove 3]
    let s := History.after step (start .fresh none) cs
    s.queue.iter = [2, 1]
      ∧ replies call s (List.replicate 2 (.pop 5)) = [.job (some 1), .job none] := by
  intro cs s
  have hlisted : s.queue.iter = [2, 1] := by decide +kernel
  have hready : s.queue.readyInOrder 5 = [1] := by decide +kernel
  have hfresh : History.Admitted step PushesFresh (start .fresh none) cs := by decide +kernel
  obtain ⟨-, -, hpops, -⟩ :=
    drained_in_order (fun k => hfresh.mono (fun _ _ ok => ok.entersFresh k)) 5
  refine ⟨hlisted, (hpops 2).trans ?_⟩
  rw [hready]
  rfl

end JobQueue

end JobOrchestrator
