import JobOrchestrator.Core.Codec
import JobOrchestrator.Queue.Drain

/-!
# The books of the queue

The queue computes its size as a difference: the entries of the map less the
ids that are marked removed. That this is the number of the ids it contains
rests on an invariant of three parts that every call keeps: a marked id is in
the map, an entry of the map is on the heap, and it is filed under its own id.

Nothing is asked of the clients. An id may have any number of entries on the
heap, and a mark may be used up by an entry that it was not made for: what
leaves the heap with a mark leaves the map with it, so the books still balance.
-/

namespace JobOrchestrator

namespace ThreadSafePriorityQueue

/-! ## The statistics -/

/-- What `get_stats` returns. -/
structure QueueStats where
  totalSize : ℤ
  ready : ℕ
  scheduled : ℕ
  /-- How many jobs wait under each name of a priority. -/
  byPriority : OrderedDict String ℕ
  heapSize : ℕ
  removedCount : ℕ

/-- The entries of the map that `get_stats` counts. -/
def counted (q : ThreadSafePriorityQueue) : List QueueEntry :=
  q.entryMap.values.filter (fun e => decide (e.jobId ∉ q.removed))

/-- The loop of `get_stats` over the priorities. A number that is no priority raises. -/
def countPriorities : OrderedDict String ℕ → List QueueEntry → Option (OrderedDict String ℕ)
  | counts, [] => some counts
  | counts, e :: es => do
    let priority ← JobPriority.ofValue e.priority
    countPriorities (counts.set priority.name ((counts.get? priority.name).getD 0 + 1)) es

/-- **`get_stats`** at a reading of the clock. It counts over the map without the marked ids,
except for the size of the heap. -/
def getStats (now : Time) (q : ThreadSafePriorityQueue) : Option QueueStats := do
  let byPriority ← countPriorities OrderedDict.empty q.counted
  return {
    totalSize := q.len
    ready := q.counted.countP (fun e => decide (e.scheduledTime ≤ now))
    scheduled := q.counted.countP (fun e => decide (¬ e.scheduledTime ≤ now))
    byPriority := byPriority
    heapSize := q.heap.length
    removedCount := q.removed.card }

/-! ## The invariant -/

/-- **The books balance**: what is marked is in the map, what is in the map is on the heap and
filed under its own id, and what is on the heap has a priority. It says nothing about how often
an id is on the heap: a second push leaves an older entry behind, and the books balance all the
same. -/
structure Balanced (es : List QueueEntry) (m : OrderedDict UUID QueueEntry) (r : Finset UUID) :
    Prop where
  marked : ∀ k ∈ r, k ∈ m.keys
  held : MapsToHeap es m
  prioritised : ∀ e ∈ es, ∃ p : JobPriority, e.priority = p.value

namespace Balanced

variable {es p : List QueueEntry} {e : QueueEntry} {m : OrderedDict UUID QueueEntry}
  {r r' : Finset UUID}

theorem mem_keys_erase {k k' : UUID} : k' ∈ (m.erase k).keys ↔ k' ≠ k ∧ k' ∈ m.keys := by
  rw [OrderedDict.mem_keys_iff, OrderedDict.mem_keys_iff, OrderedDict.get?_erase]
  by_cases hk : k' = k <;> simp [hk]

/-- An entry can leave the heap with its place in the map; a mark goes with it. -/
theorem discard (h : Balanced (p ++ e :: es) m r) (marks : ∀ k ∈ r', k ∈ r ∧ k ≠ e.jobId) :
    Balanced (p ++ es) (m.erase e.jobId) r' where
  marked k hk := by
    obtain ⟨hkr, hne⟩ := marks k hk
    exact mem_keys_erase.mpr ⟨hne, h.marked k hkr⟩
  held := h.held.discard_below
  prioritised e' he' := h.prioritised e' (List.perm_middle.mem_iff.mpr (List.mem_cons_of_mem _ he'))

theorem discard_marked (h : Balanced (p ++ e :: es) m r) :
    Balanced (p ++ es) (m.erase e.jobId) (r.erase e.jobId) :=
  h.discard (fun _ hk => ⟨Finset.mem_of_mem_erase hk, Finset.ne_of_mem_erase hk⟩)

/-- `_cleanup_removed` keeps the balance. What it throws away is marked, in the map and on the
heap, and goes from all three. -/
theorem cleanup (h : Balanced es m r) :
    Balanced (cleanup es m r).heap (cleanup es m r).entryMap (cleanup es m r).removed := by
  induction es generalizing m r with
  | nil => exact h
  | cons e es ih =>
    rw [ThreadSafePriorityQueue.cleanup]
    split
    · exact ih (discard_marked (p := []) h)
    · exact h

/-- The loop of `_get_ready_job` keeps it, with the entries it has kept so far in front. -/
theorem takeReady (now : Time) (h : Balanced (p ++ es) m r) :
    Balanced (p ++ (takeReady now es m r).2.heap) (takeReady now es m r).2.entryMap
      (takeReady now es m r).2.removed := by
  induction es generalizing p m r with
  | nil => exact h
  | cons e es ih =>
    rw [ThreadSafePriorityQueue.takeReady]
    split
    · exact ih h.discard_marked
    · rename_i hunmarked
      split
      · exact h.discard (fun k hk => ⟨hk, fun heq => hunmarked (heq ▸ hk)⟩)
      · have hrest := ih (p := p ++ [e]) (by rw [List.append_assoc]; exact h)
        simpa only [List.append_assoc, List.singleton_append] using hrest

/-- **The ids of the entries of the map are its keys.** -/
theorem map_jobId_values (h : Balanced es m r) : m.values.map QueueEntry.jobId = m.keys := by
  rw [OrderedDict.values, OrderedDict.keys, List.map_map]
  refine List.map_congr_left (fun x hx => ?_)
  exact (h.held x.1 x.2 (OrderedDict.get?_eq_some_iff.mpr hx)).2

end Balanced

/-- The queue's own parts balance. -/
def Accounted (q : ThreadSafePriorityQueue) : Prop := Balanced q.heap q.entryMap q.removed

/-- The ids the queue contains. -/
def containedIds (q : ThreadSafePriorityQueue) : Finset UUID := q.entryMap.keys.toFinset \ q.removed

variable {q : ThreadSafePriorityQueue}

theorem mem_containedIds {k : UUID} : k ∈ q.containedIds ↔ q.contains k = true := by
  simp [containedIds, contains]

namespace Accounted

/-- **The size is the number of ids contained.** The marked ids are among those in the map, so
the difference of the two sizes is what is left. -/
theorem len_eq (h : q.Accounted) : q.len = q.containedIds.card := by
  have hsub : q.removed ⊆ q.entryMap.keys.toFinset :=
    fun k hk => List.mem_toFinset.mpr (h.marked k hk)
  have hcard : q.entryMap.keys.toFinset.card = q.entryMap.size := by
    rw [List.toFinset_card_of_nodup q.entryMap.nodup_keys, OrderedDict.size_eq_length_keys]
  have hle := Finset.card_le_card hsub
  rw [len, containedIds, Finset.card_sdiff_of_subset hsub]
  omega

/-- The entries that are counted are one for each id contained. -/
theorem map_jobId_counted (h : q.Accounted) :
    q.counted.map QueueEntry.jobId
      = q.entryMap.keys.filter (fun k => decide (k ∉ q.removed)) := by
  rw [counted, ← h.map_jobId_values, List.filter_map]
  rfl

theorem nodup_counted (h : q.Accounted) : q.counted.Nodup := by
  refine List.Nodup.of_map QueueEntry.jobId ?_
  rw [h.map_jobId_counted]
  exact q.entryMap.nodup_keys.filter _

theorem length_counted (h : q.Accounted) : (q.counted.length : ℤ) = q.len := by
  have hids : (q.counted.map QueueEntry.jobId).toFinset = q.containedIds := by
    ext k
    rw [h.map_jobId_counted]
    simp [containedIds]
  have hnodup : (q.counted.map QueueEntry.jobId).Nodup := by
    rw [h.map_jobId_counted]
    exact q.entryMap.nodup_keys.filter _
  rw [h.len_eq, ← hids, List.toFinset_card_of_nodup hnodup, List.length_map]

theorem mem_heap_of_counted (h : q.Accounted) {e : QueueEntry} (he : e ∈ q.counted) :
    e ∈ q.heap := by
  obtain ⟨k, hk⟩ := OrderedDict.mem_values_iff.mp (List.mem_of_mem_filter he)
  exact (h.held k e hk).1

theorem length_counted_le (h : q.Accounted) : q.counted.length ≤ q.heap.length :=
  (h.nodup_counted.subperm (fun _ => h.mem_heap_of_counted)).length_le

end Accounted

/-- The loop over priorities raises nothing where every entry has one, and counts each
entry once. -/
theorem countPriorities_eq_some {es : List QueueEntry} (counts : OrderedDict String ℕ)
    (h : ∀ e ∈ es, ∃ p : JobPriority, e.priority = p.value) :
    ∃ counts', countPriorities counts es = some counts'
      ∧ counts'.values.sum = counts.values.sum + es.length := by
  induction es generalizing counts with
  | nil => exact ⟨counts, rfl, rfl⟩
  | cons e es ih =>
    obtain ⟨p, hp⟩ := h e List.mem_cons_self
    have hsum := counts.sum_values_set p.name ((counts.get? p.name).getD 0 + 1)
    obtain ⟨counts', heq, hsum'⟩ := ih
      (counts.set p.name ((counts.get? p.name).getD 0 + 1))
      (fun e' he' => h e' (List.mem_cons_of_mem e he'))
    refine ⟨counts', ?_, ?_⟩
    · rw [countPriorities, hp, JobPriority.ofValue_value]
      exact heq
    · rw [hsum', List.length_cons]
      omega

/-- **The statistics agree with the size.** The counts are over the map without the marked ids,
as the size is. -/
theorem Accounted.getStats (h : q.Accounted) (now : Time) :
    ∃ stats, q.getStats now = some stats ∧ stats.totalSize = q.len
      ∧ (stats.ready : ℤ) + stats.scheduled = stats.totalSize
      ∧ (stats.byPriority.values.sum : ℤ) = stats.totalSize
      ∧ stats.totalSize ≤ stats.heapSize := by
  have hpriorities : ∀ e ∈ q.counted, ∃ p : JobPriority, e.priority = p.value :=
    fun e he => h.prioritised e (h.mem_heap_of_counted he)
  obtain ⟨counts, hcounts, hsum⟩ := countPriorities_eq_some OrderedDict.empty hpriorities
  have hsum' : counts.values.sum = q.counted.length := by
    simpa [OrderedDict.values, OrderedDict.empty] using hsum
  have hready := List.length_eq_countP_add_countP
    (fun e : QueueEntry => decide (e.scheduledTime ≤ now)) (l := q.counted)
  have hlen := h.length_counted
  have hheap := h.length_counted_le
  refine ⟨_, by rw [ThreadSafePriorityQueue.getStats, hcounts]; rfl, rfl, ?_, ?_, ?_⟩
  · show ((q.counted.countP _ : ℕ) : ℤ) + (q.counted.countP _ : ℕ) = q.len
    simp only [decide_eq_true_eq] at hready
    omega
  · show (counts.values.sum : ℤ) = q.len
    omega
  · show q.len ≤ (q.heap.length : ℤ)
    omega

/-! ## The calls -/

theorem accounted_new (maxSize : Option ℕ) : (new maxSize).Accounted where
  marked k hk := absurd hk (Finset.notMem_empty k)
  held k e he := by cases he
  prioritised e he := absurd he List.not_mem_nil

theorem Accounted.insert (h : q.Accounted) (job : Job) : (q.insert job).Accounted where
  marked k hk := by
    rw [show (q.insert job).entryMap = q.entryMap.set job.id (q.entryFor job) from rfl,
      OrderedDict.mem_keys_set]
    exact Or.inr (h.marked k (Finset.mem_of_mem_erase hk))
  held := h.held.insert job
  prioritised e he := by
    have hperm := List.perm_orderedInsert QueueEntry.le (q.entryFor job) q.heap
    obtain rfl | he := List.mem_cons.mp (hperm.mem_iff.mp he)
    · exact ⟨job.priority, rfl⟩
    · exact h.prioritised e he

theorem Accounted.remove (h : q.Accounted) (jobId : UUID) : (q.remove jobId).2.Accounted := by
  obtain ⟨hk, heq⟩ | ⟨-, heq⟩ := q.remove_cases jobId
  · rw [contains, decide_eq_true_eq] at hk
    rw [heq]
    refine ⟨fun k hmem => ?_, h.held, h.prioritised⟩
    obtain rfl | hmem := Finset.mem_insert.mp hmem
    · exact hk.1
    · exact h.marked k hmem
  · rw [heq]
    exact h

theorem Accounted.cleanupRemoved (h : q.Accounted) : q.cleanupRemoved.Accounted :=
  Balanced.cleanup h

theorem Accounted.dequeue (h : q.Accounted) (now : Time) : (q.dequeue now).2.Accounted :=
  Balanced.takeReady (p := []) now h.cleanupRemoved

/-! ### What leaves the queue -/

theorem waits_of_cleanup {k : UUID} {es : List QueueEntry} {m : OrderedDict UUID QueueEntry}
    {r : Finset UUID} (h : Waits k (cleanup es m r).entryMap (cleanup es m r).removed) :
    Waits k m r := by
  induction es generalizing m r with
  | nil => exact h
  | cons e es ih =>
    rw [ThreadSafePriorityQueue.cleanup] at h
    split at h
    · obtain ⟨hin, hout⟩ := ih h
      obtain ⟨hne, hin⟩ := Balanced.mem_keys_erase.mp hin
      exact ⟨hin, fun hr => hout (Finset.mem_erase.mpr ⟨hne, hr⟩)⟩
    · exact h

theorem waits_of_takeReady {k : UUID} {es : List QueueEntry} {m : OrderedDict UUID QueueEntry}
    {r : Finset UUID} {now : Time}
    (h : Waits k (takeReady now es m r).2.entryMap (takeReady now es m r).2.removed) :
    Waits k m r := by
  induction es generalizing m r with
  | nil => exact h
  | cons e es ih =>
    rw [ThreadSafePriorityQueue.takeReady] at h
    split at h
    · obtain ⟨hin, hout⟩ := ih h
      obtain ⟨hne, hin⟩ := Balanced.mem_keys_erase.mp hin
      exact ⟨hin, fun hr => hout (Finset.mem_erase.mpr ⟨hne, hr⟩)⟩
    · split at h
      · exact ⟨(Balanced.mem_keys_erase.mp h.1).2, h.2⟩
      · exact ih h

/-- Throwing marked entries away brings no id into the queue that it did not contain. -/
theorem containedIds_cleanupRemoved : q.cleanupRemoved.containedIds ⊆ q.containedIds := by
  intro k hk
  simp only [mem_containedIds, contains, decide_eq_true_eq] at hk ⊢
  exact waits_of_cleanup hk

theorem containedIds_dequeue (now : Time) : (q.dequeue now).2.containedIds ⊆ q.containedIds := by
  refine Finset.Subset.trans ?_ containedIds_cleanupRemoved
  intro k hk
  simp only [mem_containedIds, contains, decide_eq_true_eq] at hk ⊢
  exact waits_of_takeReady hk

theorem containedIds_remove (jobId : UUID) : (q.remove jobId).2.containedIds ⊆ q.containedIds := by
  intro k hk
  rw [mem_containedIds, contains_remove] at hk
  exact mem_containedIds.mpr hk.1

theorem containedIds_insert (job : Job) :
    (q.insert job).containedIds = Insert.insert job.id q.containedIds := by
  ext k
  rw [mem_containedIds, contains_insert, Finset.mem_insert, mem_containedIds]

theorem containedIds_clear : q.clear.2.containedIds = ∅ := by
  ext k
  rw [mem_containedIds, q.contains_clear]
  simp

/-- The capacity is kept: there are at most `max_size` ids. -/
def Within (q : ThreadSafePriorityQueue) : Prop :=
  ∀ m, q.maxSize = some m → q.containedIds.card ≤ m

/-- **An id enters a queue that is not full, or that contains it already**, and the
capacity is kept. -/
theorem Within.insert (within : q.Within) (h : q.Accounted) {job : Job}
    (room : q.full = false ∨ q.contains job.id = true) : (q.insert job).Within := by
  intro m hm
  rw [containedIds_insert]
  obtain hfull | hk := room
  · have hm' : q.maxSize = some m := hm
    rw [full, hm', decide_eq_false_iff_not, h.len_eq] at hfull
    exact (Finset.card_insert_le _ _).trans (by omega)
  · rw [Finset.insert_eq_of_mem (mem_containedIds.mpr hk)]
    exact within m hm

end ThreadSafePriorityQueue

namespace JobQueue

open ThreadSafePriorityQueue

/-- **Every call keeps the books and the capacity.** The capacity is looked at by a push only,
and nothing else adds an id. -/
theorem accounted_step {s : JobQueue} (h : s.queue.Accounted ∧ s.queue.Within) (c : QueueCall) :
    (s.step c).queue.Accounted ∧ (s.step c).queue.Within := by
  obtain ⟨hbooks, hwithin⟩ := h
  have hfewer {q' : ThreadSafePriorityQueue} (hmax : q'.maxSize = s.queue.maxSize)
      (hsub : q'.containedIds ⊆ s.queue.containedIds) : q'.Within :=
    fun m hm => (Finset.card_le_card hsub).trans (hwithin m (hmax ▸ hm))
  have heffect := s.effect c
  generalize (s.step c).queue = q' at heffect ⊢
  cases heffect with
  | same => exact ⟨hbooks, hwithin⟩
  | insert c job enters =>
    refine ⟨hbooks.insert job, hwithin.insert hbooks ?_⟩
    exact enters.imp (fun h => h.2.1) (fun h => h.1)
  | remove jobId =>
    refine ⟨hbooks.remove jobId, hfewer ?_ (containedIds_remove jobId)⟩
    obtain ⟨-, heq⟩ | ⟨-, heq⟩ := s.queue.remove_cases jobId <;> rw [heq]
  | pop now => exact ⟨hbooks.dequeue now, hfewer rfl (containedIds_dequeue now)⟩
  | clean => exact ⟨hbooks.cleanupRemoved, hfewer rfl containedIds_cleanupRemoved⟩
  | clear =>
    refine ⟨accounted_new none, hfewer rfl ?_⟩
    rw [containedIds_clear]
    exact Finset.empty_subset _

theorem maxSize_step (s : JobQueue) (c : QueueCall) :
    (s.step c).queue.maxSize = s.queue.maxSize := by
  have heffect := s.effect c
  generalize (s.step c).queue = q' at heffect ⊢
  cases heffect with
  | remove jobId => obtain ⟨-, heq⟩ | ⟨-, heq⟩ := s.queue.remove_cases jobId <;> rw [heq]
  | _ => rfl

/-- **Queue accounting.** After every history of calls of a queue with a capacity of at
least one, or with none: a marked id is in the map, an entry of the map is on the heap, the
size is the number of ids the queue contains and is within the capacity, and the statistics
add up to it. -/
theorem accounting (jobs : JobTable) (maxSize : Option ℕ) (hmax : ∀ m, maxSize = some m → 1 ≤ m)
    (cs : List QueueCall) :
    let q := (History.after step (start jobs maxSize) cs).queue
    (∀ k ∈ q.removed, k ∈ q.entryMap.keys)
      ∧ (∀ k e, q.entryMap.get? k = some e → e ∈ q.heap)
      ∧ 0 ≤ q.len ∧ (∀ m, maxSize = some m → q.len ≤ m)
      ∧ (∃ ids : Finset UUID, (∀ k, k ∈ ids ↔ q.contains k = true) ∧ q.len = ids.card)
      ∧ ∀ now, ∃ stats, q.getStats now = some stats
        ∧ (stats.ready : ℤ) + stats.scheduled = stats.totalSize
        ∧ stats.totalSize = q.len
        ∧ (stats.byPriority.values.sum : ℤ) = stats.totalSize
        ∧ stats.totalSize ≤ stats.heapSize := by
  intro q
  have hwithin : (start jobs maxSize).queue.Within := fun m _ => by
    rw [show (start jobs maxSize).queue.containedIds = ∅ from rfl]
    exact Nat.zero_le m
  obtain ⟨hbooks, hcap⟩ : q.Accounted ∧ q.Within :=
    History.invariant_of_kept
      (P := fun s : JobQueue => s.queue.Accounted ∧ s.queue.Within)
      ⟨accounted_new maxSize, hwithin⟩ (fun _ c h => accounted_step h c) cs
  have hsize : q.maxSize = maxSize := by
    have hkept : q.maxSize = (start jobs maxSize).queue.maxSize :=
      History.invariant_of_kept
        (P := fun s : JobQueue => s.queue.maxSize = (start jobs maxSize).queue.maxSize) rfl
        (fun s c h => (s.maxSize_step c).trans h) cs
    rw [hkept]
    exact if_neg (fun h => absurd (hmax 0 h) (by decide))
  refine ⟨hbooks.marked, fun k e he => (hbooks.held k e he).1, ?_, fun m hm => ?_, ⟨q.containedIds,
    fun k => mem_containedIds, hbooks.len_eq⟩, fun now => ?_⟩
  · rw [hbooks.len_eq]
    exact Int.natCast_nonneg _
  · rw [hbooks.len_eq]
    exact_mod_cast hcap m (hsize.trans hm)
  · obtain ⟨stats, heq, hlen, hready, hsum, hheap⟩ := hbooks.getStats now
    exact ⟨stats, heq, hready, hlen, hsum, hheap⟩

/-- A queue for one job, with two entries of a job that was removed and one of another. -/
theorem accounting_of_one :
    let q := (History.after step (start .fresh (some 1))
      [.push 1, .updatePriority 1 .high, .remove 1, .push 2, .push 1]).queue
    q.len ≤ 1 ∧ q.heap.length = 3 ∧ q.removed = {1} ∧ q.contains 2 = true := by
  have haccounts := accounting .fresh (some 1) (fun m hm => by cases hm; decide)
    [.push 1, .updatePriority 1 .high, .remove 1, .push 2, .push 1]
  exact ⟨haccounts.2.2.2.1 1 rfl, by decide +kernel, by decide +kernel, by decide +kernel⟩

end JobQueue

end JobOrchestrator
