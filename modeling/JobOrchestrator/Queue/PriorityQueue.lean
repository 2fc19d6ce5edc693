import Mathlib.Data.Finset.Card
import Mathlib.Data.List.Sort
import JobOrchestrator.Core.Job
import JobOrchestrator.Util.OrderedDict

/-!
# The priority queue

`queue/priority_queue.py`: a heap of entries, a map from ids to entries, and
a set of removed ids. Removing a job only marks its id; the entry leaves the
heap when a pop comes across it.

A binary heap gives out its entries in the order of their keys, so it is
modelled by the list in that order, and that the list is sorted is a field.
-/

namespace JobOrchestrator

/-- `QueueEntry`. The job is named by its id. It is ordered by the first three fields, in this
order. -/
structure QueueEntry where
  priority : ℕ
  scheduledTime : Time
  insertionOrder : ℕ
  jobId : UUID
  deriving DecidableEq

namespace QueueEntry

/-- The order of the entries: by priority, then by scheduled time, then by
insertion. -/
def le (a b : QueueEntry) : Prop :=
  a.priority < b.priority ∨ a.priority = b.priority
    ∧ (a.scheduledTime < b.scheduledTime ∨ a.scheduledTime = b.scheduledTime
      ∧ a.insertionOrder ≤ b.insertionOrder)

instance : DecidableRel le := fun _ _ => by unfold le; infer_instance

instance : IsTrans QueueEntry le where
  trans a b c hab hbc := by
    unfold le at *
    grind

instance : Std.Total le where
  total a b := by
    unfold le
    grind

end QueueEntry

/-- **`ThreadSafePriorityQueue`**. A removed job stays on the heap and is only marked; pops and
looks throw marked entries away when they come to the top. Of the heap itself nothing matters but
the order in which it gives out entries, so it is a sorted list. -/
structure ThreadSafePriorityQueue where
  /-- The heap, in the order in which it gives out its entries. -/
  heap : List QueueEntry
  sorted : heap.Pairwise QueueEntry.le
  /-- `_entry_map`. -/
  entryMap : OrderedDict UUID QueueEntry
  /-- `_removed`: the ids whose entry is to be passed over. -/
  removed : Finset UUID
  /-- `_counter`. -/
  counter : ℕ
  maxSize : Option ℕ
  /-- `_shutdown`. -/
  shutdown : Bool

namespace ThreadSafePriorityQueue

/-- `ThreadSafePriorityQueue(max_size=…)`: zero is read as no limit. -/
def new (maxSize : Option ℕ) : ThreadSafePriorityQueue where
  heap := []
  sorted := List.Pairwise.nil
  entryMap := OrderedDict.empty
  removed := ∅
  counter := 0
  maxSize := if maxSize = some 0 then none else maxSize
  shutdown := false

/-- `__len__`. -/
def len (q : ThreadSafePriorityQueue) : ℤ := (q.entryMap.size : ℤ) - q.removed.card

/-- `full`. -/
def full (q : ThreadSafePriorityQueue) : Bool :=
  match q.maxSize with
  | none => false
  | some m => decide ((m : ℤ) ≤ q.len)

/-- `contains`. The id is in the map, and not marked. -/
def contains (jobId : UUID) (q : ThreadSafePriorityQueue) : Bool :=
  decide (jobId ∈ q.entryMap.keys ∧ jobId ∉ q.removed)

/-- The entry `push` makes. -/
def entryFor (job : Job) (q : ThreadSafePriorityQueue) : QueueEntry where
  priority := job.priority.value
  scheduledTime := ((job.scheduledAt).getD job.createdAt).timestamp
  insertionOrder := q.counter
  jobId := job.id

/-- `push` past the capacity check. An old entry of the id stays on the heap:
it is marked removed, and the mark is taken away again for the new one. -/
def insert (job : Job) (q : ThreadSafePriorityQueue) : ThreadSafePriorityQueue :=
  { q with
    heap := q.heap.orderedInsert QueueEntry.le (q.entryFor job)
    sorted := List.Pairwise.orderedInsert _ _ q.sorted
    entryMap := q.entryMap.set job.id (q.entryFor job)
    removed := q.removed.erase job.id
    counter := q.counter + 1 }

/-- **`push`**: whether the job was added. The id loses its mark and the map points to the new
entry; an entry that was on the heap stays there. -/
def push (job : Job) (q : ThreadSafePriorityQueue) : Bool × ThreadSafePriorityQueue :=
  if q.full then (false, q) else (true, q.insert job)

/-- `remove`. It marks the id and leaves the heap as it is. -/
def remove (jobId : UUID) (q : ThreadSafePriorityQueue) : Bool × ThreadSafePriorityQueue :=
  if q.contains jobId then (true, { q with removed := Insert.insert jobId q.removed })
  else (false, q)

/-! ## Dequeuing -/

/-- The heap, the map and the marks while a pop works on them. -/
structure Parts where
  heap : List QueueEntry
  entryMap : OrderedDict UUID QueueEntry
  removed : Finset UUID

/-- `_cleanup_removed`, for a heap given from the top. Of this id nothing goes but an entry that
was marked. -/
def cleanup : List QueueEntry → OrderedDict UUID QueueEntry → Finset UUID → Parts
  | [], m, r => ⟨[], m, r⟩
  | e :: es, m, r =>
    if e.jobId ∈ r then cleanup es (m.erase e.jobId) (r.erase e.jobId) else ⟨e :: es, m, r⟩

/-- The loop of `_get_ready_job`, for a heap given from the top: removed entries
are thrown away, entries that are not due are kept, and the first that is due is
taken. -/
def takeReady (now : Time) :
    List QueueEntry → OrderedDict UUID QueueEntry → Finset UUID → Option QueueEntry × Parts
  | [], m, r => (none, ⟨[], m, r⟩)
  | e :: es, m, r =>
    if e.jobId ∈ r then takeReady now es (m.erase e.jobId) (r.erase e.jobId)
    else if e.scheduledTime ≤ now then (some e, ⟨es, m.erase e.jobId, r⟩)
    else
      let x := takeReady now es m r
      (x.1, { x.2 with heap := e :: x.2.heap })

theorem cleanup_sublist (es : List QueueEntry) (m : OrderedDict UUID QueueEntry)
    (r : Finset UUID) : (cleanup es m r).heap.Sublist es := by
  induction es generalizing m r with
  | nil => exact List.Sublist.refl _
  | cons e es ih =>
    rw [cleanup]
    split
    · exact (ih _ _).cons e
    · exact List.Sublist.refl _

theorem takeReady_sublist (now : Time) (es : List QueueEntry)
    (m : OrderedDict UUID QueueEntry) (r : Finset UUID) :
    (takeReady now es m r).2.heap.Sublist es := by
  induction es generalizing m r with
  | nil => exact List.Sublist.refl _
  | cons e es ih =>
    rw [takeReady]
    split
    · exact (ih _ _).cons e
    · split
      · exact List.sublist_cons_self e es
      · exact (ih m r).cons_cons e

/-- `_cleanup_removed`. It throws away marked entries as long as one is on top. -/
def cleanupRemoved (q : ThreadSafePriorityQueue) : ThreadSafePriorityQueue :=
  { q with
    heap := (cleanup q.heap q.entryMap q.removed).heap
    sorted := q.sorted.sublist (cleanup_sublist _ _ _)
    entryMap := (cleanup q.heap q.entryMap q.removed).entryMap
    removed := (cleanup q.heap q.entryMap q.removed).removed }

/-- `_get_ready_job`. Marked entries are thrown away on the way, and the first entry that is due
is taken. -/
def getReadyJob (now : Time) (q : ThreadSafePriorityQueue) :
    Option UUID × ThreadSafePriorityQueue :=
  let x := takeReady now q.heap q.entryMap q.removed
  (x.1.map QueueEntry.jobId,
    { q with
      heap := x.2.heap
      sorted := q.sorted.sublist (takeReady_sublist _ _ _ _)
      entryMap := x.2.entryMap
      removed := x.2.removed })

/-- **One iteration of `pop`** up to the waiting: a pop returns the job it finds,
and otherwise waits and iterates again, or gives up. -/
def dequeue (now : Time) (q : ThreadSafePriorityQueue) :
    Option UUID × ThreadSafePriorityQueue :=
  q.cleanupRemoved.getReadyJob now

/-! ## The queue of a well-behaved client

A client that pushes an id only when no entry of it is on the heap keeps the
three parts of the queue in agreement about that id. Where they agree about
all ids the queue is the set of the ids it contains: `push` adds one, `remove`
takes one out, and a dequeue takes out the one it returns. -/

/-- The ids of the entries on a heap. -/
def ids (es : List QueueEntry) : List UUID := es.map QueueEntry.jobId

/-- **The parts agree about an id**: it has at most one entry on the heap, the map has that
entry, and the id is marked only where it has one. It is stated for one id, so that a push that
breaks it for its own id leaves it to all others. -/
structure AgreeAt (k : UUID) (es : List QueueEntry) (m : OrderedDict UUID QueueEntry)
    (r : Finset UUID) : Prop where
  single : (ids es).count k ≤ 1
  mapped : ∀ e, m.get? k = some e ↔ e ∈ es ∧ e.jobId = k
  marked : k ∈ r → k ∈ ids es

/-- **The parts agree**: every id has at most one entry on the heap, the map is
that of the heap, and only ids on the heap are marked. -/
structure Agree (es : List QueueEntry) (m : OrderedDict UUID QueueEntry) (r : Finset UUID) :
    Prop where
  nodup : (ids es).Nodup
  mapped : ∀ k e, m.get? k = some e ↔ e ∈ es ∧ e.jobId = k
  marked : ∀ k ∈ r, k ∈ ids es

/-- The queue's own parts agree about an id. -/
def CoherentAt (q : ThreadSafePriorityQueue) (k : UUID) : Prop :=
  AgreeAt k q.heap q.entryMap q.removed

/-- The queue's own parts agree. There is one live entry at most for an id, and the map has it.
-/
def Coherent (q : ThreadSafePriorityQueue) : Prop := Agree q.heap q.entryMap q.removed

/-- The id has an entry on the heap, marked or not. -/
def OnHeap (q : ThreadSafePriorityQueue) (jobId : UUID) : Prop := jobId ∈ ids q.heap

instance (q : ThreadSafePriorityQueue) (jobId : UUID) : Decidable (q.OnHeap jobId) :=
  inferInstanceAs (Decidable (jobId ∈ ids q.heap))

theorem mem_ids {es : List QueueEntry} {k : UUID} : k ∈ ids es ↔ ∃ e ∈ es, e.jobId = k :=
  List.mem_map

/-- The parts agree where they agree about every id. -/
theorem agree_iff {es : List QueueEntry} {m : OrderedDict UUID QueueEntry} {r : Finset UUID} :
    Agree es m r ↔ ∀ k, AgreeAt k es m r :=
  ⟨fun h k => ⟨List.nodup_iff_count_le_one.mp h.nodup k, h.mapped k, h.marked k⟩,
    fun h => ⟨List.nodup_iff_count_le_one.mpr (fun k => (h k).single), fun k => (h k).mapped,
      fun k => (h k).marked⟩⟩

theorem coherent_iff {q : ThreadSafePriorityQueue} : q.Coherent ↔ ∀ k, q.CoherentAt k :=
  agree_iff

/-- The id is on the heap and not marked. -/
def Live (es : List QueueEntry) (r : Finset UUID) (k : UUID) : Prop := k ∈ ids es ∧ k ∉ r

theorem mem_ids_append_cons {p es : List QueueEntry} {e : QueueEntry} {k : UUID} :
    k ∈ ids (p ++ e :: es) ↔ k = e.jobId ∨ k ∈ ids (p ++ es) := by
  unfold ids
  rw [List.map_append, List.map_append, List.map_cons, List.mem_append, List.mem_append,
    List.mem_cons]
  tauto

namespace AgreeAt

variable {es p : List QueueEntry} {e : QueueEntry} {m : OrderedDict UUID QueueEntry}
  {r : Finset UUID} {k : UUID}

/-- The only entry of an id is the only one. -/
theorem notMem_ids (h : AgreeAt e.jobId (p ++ e :: es) m r) : e.jobId ∉ ids (p ++ es) := by
  have hcount : (ids (p ++ e :: es)).count e.jobId = (ids (p ++ es)).count e.jobId + 1 := by
    unfold ids
    rw [(List.perm_middle.map QueueEntry.jobId).count_eq, List.map_cons, List.count_cons_self]
  have hsingle := h.single
  rw [← List.count_eq_zero]
  omega

/-- An entry can be taken out, with its place in the map; a mark goes with it. -/
theorem discard (h : AgreeAt k (p ++ e :: es) m r) {r' : Finset UUID}
    (marks : k ∈ r' → k ∈ r ∧ k ≠ e.jobId) : AgreeAt k (p ++ es) (m.erase e.jobId) r' where
  single := by
    refine le_trans ?_ h.single
    exact (((List.sublist_cons_self e es).append_left p).map QueueEntry.jobId).count_le k
  mapped e' := by
    rw [OrderedDict.get?_erase]
    by_cases hk : k = e.jobId
    · subst hk
      rw [if_pos rfl]
      refine ⟨fun hn => absurd hn (by simp), ?_⟩
      rintro ⟨hmem, hid⟩
      exact absurd (mem_ids.mpr ⟨e', hmem, hid⟩) h.notMem_ids
    · rw [if_neg hk, h.mapped, List.perm_middle.mem_iff, List.mem_cons]
      constructor
      · rintro ⟨rfl | hmem, rfl⟩
        · exact absurd rfl hk
        · exact ⟨hmem, rfl⟩
      · exact fun hmem => ⟨Or.inr hmem.1, hmem.2⟩
  marked hk := by
    obtain ⟨hkr, hne⟩ := marks hk
    exact (mem_ids_append_cons.mp (h.marked hkr)).resolve_left hne

theorem discard_marked (h : AgreeAt k (p ++ e :: es) m r) :
    AgreeAt k (p ++ es) (m.erase e.jobId) (r.erase e.jobId) :=
  h.discard (fun hk => ⟨Finset.mem_of_mem_erase hk, Finset.ne_of_mem_erase hk⟩)

/-- Throwing away a marked entry leaves the same ids live. -/
theorem live_discard_marked (h : AgreeAt k (p ++ e :: es) m r) (marked : e.jobId ∈ r) :
    Live (p ++ es) (r.erase e.jobId) k ↔ Live (p ++ e :: es) r k := by
  rw [Live, Live, mem_ids_append_cons, Finset.mem_erase]
  by_cases hk : k = e.jobId
  · subst hk
    simp [marked, h.notMem_ids]
  · simp [hk]

/-- **`_cleanup_removed`** keeps the agreement and what is live. -/
theorem cleanup (h : AgreeAt k es m r) :
    AgreeAt k (cleanup es m r).heap (cleanup es m r).entryMap (cleanup es m r).removed
      ∧ (Live (ThreadSafePriorityQueue.cleanup es m r).heap
          (ThreadSafePriorityQueue.cleanup es m r).removed k ↔ Live es r k) := by
  induction es generalizing m r with
  | nil => exact ⟨h, Iff.rfl⟩
  | cons e es ih =>
    rw [ThreadSafePriorityQueue.cleanup]
    split
    · rename_i hmarked
      obtain ⟨hagree, hlive⟩ := ih (discard_marked (p := []) h)
      exact ⟨hagree, hlive.trans (live_discard_marked (p := []) h hmarked)⟩
    · exact ⟨h, Iff.rfl⟩

/-- **The loop of `_get_ready_job`**, with the entries it has kept so far in front:
it keeps the agreement, and an id it finds was live and is no longer. -/
theorem takeReady (now : Time) (h : AgreeAt k (p ++ es) m r) :
    let x := takeReady now es m r
    AgreeAt k (p ++ x.2.heap) x.2.entryMap x.2.removed
      ∧ (Live (p ++ x.2.heap) x.2.removed k
        ↔ Live (p ++ es) r k ∧ x.1.map QueueEntry.jobId ≠ some k)
      ∧ (x.1.map QueueEntry.jobId = some k → Live (p ++ es) r k ∧ k ∉ ids (p ++ x.2.heap)) := by
  induction es generalizing p m r with
  | nil => exact ⟨h, by simp [ThreadSafePriorityQueue.takeReady], fun he => by cases he⟩
  | cons e es ih =>
    intro x
    have hx : x = ThreadSafePriorityQueue.takeReady now (e :: es) m r := rfl
    rw [ThreadSafePriorityQueue.takeReady] at hx
    split at hx
    · -- a marked entry is thrown away, and the loop goes on
      rename_i hmarked
      obtain ⟨hagree, hlive, htaken⟩ := ih h.discard_marked
      rw [hx]
      refine ⟨hagree, ?_, fun he' => ?_⟩
      · rw [hlive, h.live_discard_marked hmarked]
      · rw [← h.live_discard_marked hmarked]
        exact htaken he'
    · rename_i hmarked
      split at hx
      · -- the first entry that is due is taken
        have hdis : AgreeAt k (p ++ es) (m.erase e.jobId) r :=
          h.discard (fun hk => ⟨hk, fun heq => hmarked (heq ▸ hk)⟩)
        rw [hx]
        refine ⟨hdis, ?_, fun he' => ?_⟩
        · rw [Live, Live, mem_ids_append_cons]
          by_cases hk : k = e.jobId
          · subst hk
            simp [h.notMem_ids]
          · simp [hk, Ne.symm hk]
        · obtain rfl : e.jobId = k := Option.some.inj he'
          exact ⟨⟨mem_ids_append_cons.mpr (Or.inl rfl), hmarked⟩, h.notMem_ids⟩
      · -- an entry that is not due stays, in front of what the loop leaves
        have hrest := ih (p := p ++ [e]) (by rw [List.append_assoc]; exact h)
        rw [hx]
        simpa only [List.append_assoc, List.singleton_append] using hrest

end AgreeAt

/-! ### The operations -/

section Operations

variable {q : ThreadSafePriorityQueue} {k : UUID}

/-- The parts of a new queue agree. -/
theorem coherent_new (maxSize : Option ℕ) : (new maxSize).Coherent where
  nodup := List.nodup_nil
  mapped k e := by
    show OrderedDict.empty.get? k = some e ↔ e ∈ [] ∧ _
    simp
  marked k hk := absurd hk (Finset.notMem_empty k)

theorem Coherent.at (h : q.Coherent) (k : UUID) : q.CoherentAt k := coherent_iff.mp h k

/-- **The queue contains the ids on the heap that are not marked.** -/
theorem contains_iff_live (h : q.CoherentAt k) :
    q.contains k = true ↔ Live q.heap q.removed k := by
  rw [contains, decide_eq_true_eq, OrderedDict.mem_keys_iff, Live, mem_ids]
  exact and_congr (exists_congr h.mapped) Iff.rfl

theorem onHeap_of_contains (h : q.Coherent) {k : UUID} (hk : q.contains k = true) :
    q.OnHeap k :=
  ((contains_iff_live (h.at k)).mp hk).1

theorem onHeap_insert {job : Job} {k : UUID} :
    (q.insert job).OnHeap k ↔ k = job.id ∨ q.OnHeap k := by
  have hperm := List.perm_orderedInsert QueueEntry.le (q.entryFor job) q.heap
  show k ∈ ids (q.heap.orderedInsert QueueEntry.le (q.entryFor job)) ↔ _
  rw [ids, (hperm.map QueueEntry.jobId).mem_iff, List.map_cons, List.mem_cons]
  rfl

/-- **Pushing an id that is not on the heap** keeps the agreement, about this id and
about every other. -/
theorem CoherentAt.insert (h : q.CoherentAt k) {job : Job}
    (fresh : k = job.id → ¬ q.OnHeap job.id) : (q.insert job).CoherentAt k where
  single := by
    have hperm := List.perm_orderedInsert QueueEntry.le (q.entryFor job) q.heap
    have hcount : (ids (q.insert job).heap).count k
        = (ids q.heap).count k + if job.id = k then 1 else 0 := by
      rw [ids, ids, ← List.count_singleton' k job.id, Nat.add_comm, ← List.count_append]
      exact (hperm.map QueueEntry.jobId).count_eq k
    rw [hcount]
    split
    · rename_i hk
      rw [List.count_eq_zero.mpr (fun hmem => fresh hk.symm (hk ▸ hmem))]
    · exact h.single
  mapped e := by
    have hperm := List.perm_orderedInsert QueueEntry.le (q.entryFor job) q.heap
    show (q.entryMap.set job.id (q.entryFor job)).get? k = some e
      ↔ e ∈ q.heap.orderedInsert QueueEntry.le (q.entryFor job) ∧ e.jobId = k
    rw [OrderedDict.get?_set, hperm.mem_iff, List.mem_cons]
    by_cases hk : k = job.id
    · rw [if_pos hk, Option.some.injEq]
      constructor
      · rintro rfl
        exact ⟨Or.inl rfl, hk.symm⟩
      · rintro ⟨heq | hmem, hid⟩
        · exact heq.symm
        · exact absurd (mem_ids.mpr ⟨e, hmem, hid.trans hk⟩) (fresh hk)
    · rw [if_neg hk, h.mapped]
      constructor
      · exact fun hmem => ⟨Or.inr hmem.1, hmem.2⟩
      · rintro ⟨rfl | hmem, hid⟩
        · exact absurd hid.symm hk
        · exact ⟨hmem, hid⟩
  marked hk := onHeap_insert.mpr (Or.inr (h.marked (Finset.mem_of_mem_erase hk)))

theorem Coherent.insert (h : q.Coherent) {job : Job} (fresh : ¬ q.OnHeap job.id) :
    (q.insert job).Coherent :=
  coherent_iff.mpr (fun k => (h.at k).insert (fun _ => fresh))

theorem contains_insert (q : ThreadSafePriorityQueue) (job : Job) (k : UUID) :
    (q.insert job).contains k = true ↔ k = job.id ∨ q.contains k = true := by
  rw [contains, contains, decide_eq_true_eq, decide_eq_true_eq]
  show k ∈ (q.entryMap.set job.id (q.entryFor job)).keys ∧ k ∉ q.removed.erase job.id ↔ _
  rw [OrderedDict.mem_keys_set, Finset.mem_erase]
  by_cases hk : k = job.id
  · simp [hk]
  · simp [hk]

/-- Removing marks an id, and leaves the heap as it is. -/
theorem remove_cases (q : ThreadSafePriorityQueue) (k : UUID) :
    q.contains k = true ∧ q.remove k = (true, { q with removed := Insert.insert k q.removed })
      ∨ q.contains k = false ∧ q.remove k = (false, q) := by
  rw [remove]
  cases hk : q.contains k with
  | true => exact Or.inl ⟨rfl, rfl⟩
  | false => exact Or.inr ⟨rfl, rfl⟩

theorem heap_remove (q : ThreadSafePriorityQueue) (k : UUID) : (q.remove k).2.heap = q.heap := by
  rcases remove_cases q k with ⟨-, h⟩ | ⟨-, h⟩ <;> rw [h]

theorem CoherentAt.remove (h : q.CoherentAt k) (jobId : UUID) :
    (q.remove jobId).2.CoherentAt k := by
  rcases remove_cases q jobId with ⟨hk, heq⟩ | ⟨-, heq⟩
  · rw [heq]
    refine ⟨h.single, h.mapped, ?_⟩
    intro hmem
    rcases Finset.mem_insert.mp hmem with rfl | hmem
    · exact ((contains_iff_live h).mp hk).1
    · exact h.marked hmem
  · rw [heq]
    exact h

theorem Coherent.remove (h : q.Coherent) (k : UUID) : (q.remove k).2.Coherent :=
  coherent_iff.mpr (fun k' => (h.at k').remove k)

theorem contains_remove (q : ThreadSafePriorityQueue) (k k' : UUID) :
    (q.remove k).2.contains k' = true ↔ q.contains k' = true ∧ k' ≠ k := by
  rcases remove_cases q k with ⟨hk, heq⟩ | ⟨hk, heq⟩
  · rw [heq, contains, contains, decide_eq_true_eq, decide_eq_true_eq]
    show k' ∈ q.entryMap.keys ∧ k' ∉ Insert.insert k q.removed ↔ _
    rw [Finset.mem_insert, not_or]
    tauto
  · rw [heq]
    refine ⟨fun h => ⟨h, ?_⟩, fun h => h.1⟩
    rintro rfl
    exact absurd (hk.symm.trans h) (by decide)

/-- A dequeue puts nothing on the heap. -/
theorem onHeap_of_dequeue {now : Time} (hk : (q.dequeue now).2.OnHeap k) : q.OnHeap k :=
  ((takeReady_sublist now _ _ _).trans (cleanup_sublist _ _ _)).map QueueEntry.jobId
    |>.subset hk

/-- The id is in the map and not marked. -/
def Waits (k : UUID) (m : OrderedDict UUID QueueEntry) (r : Finset UUID) : Prop :=
  k ∈ m.keys ∧ k ∉ r

/-- Throwing away an entry of another id leaves this one waiting, in the map and without a mark.
-/
theorem Waits.erase {k jobId : UUID} {m : OrderedDict UUID QueueEntry} {r : Finset UUID}
    (h : Waits k m r) (other : k ≠ jobId) : Waits k (m.erase jobId) (r.erase jobId) := by
  refine ⟨?_, fun hr => h.2 (Finset.mem_of_mem_erase hr)⟩
  rw [OrderedDict.mem_keys_iff, OrderedDict.get?_erase_ne _ other, ← OrderedDict.mem_keys_iff]
  exact h.1

theorem Waits.cleanup {k : UUID} {es : List QueueEntry} {m : OrderedDict UUID QueueEntry}
    {r : Finset UUID} (h : Waits k m r) :
    Waits k (cleanup es m r).entryMap (cleanup es m r).removed := by
  induction es generalizing m r with
  | nil => exact h
  | cons e es ih =>
    rw [ThreadSafePriorityQueue.cleanup]
    split
    · rename_i hmarked
      exact ih (h.erase (fun heq => h.2 (heq ▸ hmarked)))
    · exact h

theorem Waits.takeReady {k : UUID} {es : List QueueEntry} {m : OrderedDict UUID QueueEntry}
    {r : Finset UUID} (h : Waits k m r) (now : Time)
    (other : (takeReady now es m r).1.map QueueEntry.jobId ≠ some k) :
    Waits k (takeReady now es m r).2.entryMap (takeReady now es m r).2.removed := by
  induction es generalizing m r with
  | nil => exact h
  | cons e es ih =>
    rw [ThreadSafePriorityQueue.takeReady] at other ⊢
    split at other
    · rename_i hmarked
      rw [if_pos hmarked]
      exact ih (h.erase (fun heq => h.2 (heq ▸ hmarked))) other
    · rename_i hunmarked
      rw [if_neg hunmarked]
      split at other
      · rename_i hdue
        rw [if_pos hdue]
        exact ⟨(h.erase (fun heq => other (congrArg some heq.symm))).1, h.2⟩
      · rename_i hlate
        rw [if_neg hlate]
        exact ih h other

/-- **A dequeue leaves the other jobs in the queue**, whether or not its parts agree. -/
theorem contains_dequeue {q : ThreadSafePriorityQueue} {k : UUID} {now : Time}
    (h : q.contains k = true) (other : (q.dequeue now).1 ≠ some k) :
    (q.dequeue now).2.contains k = true := by
  rw [contains, decide_eq_true_eq] at h ⊢
  have hwaits : Waits k q.entryMap q.removed := h
  exact hwaits.cleanup.takeReady now other

/-- **A dequeue** keeps the agreement about an id, and where it returns it, the id was
contained and is off the heap. -/
theorem CoherentAt.dequeue (h : q.CoherentAt k) (now : Time) :
    (q.dequeue now).2.CoherentAt k
      ∧ ((q.dequeue now).2.contains k = true
        ↔ q.contains k = true ∧ (q.dequeue now).1 ≠ some k)
      ∧ ((q.dequeue now).1 = some k →
        q.contains k = true ∧ ¬ (q.dequeue now).2.OnHeap k) := by
  obtain ⟨hclean, hlive⟩ := AgreeAt.cleanup h
  have htake := AgreeAt.takeReady (p := []) now hclean
  simp only [List.nil_append] at htake
  obtain ⟨hagree, hlive', htaken⟩ := htake
  have hcoh : (q.dequeue now).2.CoherentAt k := hagree
  have hcontains : q.contains k = true ↔ Live q.heap q.removed k := contains_iff_live h
  refine ⟨hcoh, ?_, fun hk => ?_⟩
  · rw [contains_iff_live hcoh, hcontains, ← hlive]
    exact hlive'
  · obtain ⟨hin, hout⟩ := htaken hk
    exact ⟨hcontains.mpr (hlive.mp hin), hout⟩

/-- The same for all ids at once, where all of them agree: what is contained goes down by the job
that is returned, and by no other. -/
theorem Coherent.dequeue (h : q.Coherent) (now : Time) :
    (q.dequeue now).2.Coherent
      ∧ (∀ k, (q.dequeue now).2.contains k = true
        ↔ q.contains k = true ∧ (q.dequeue now).1 ≠ some k)
      ∧ (∀ k, (q.dequeue now).2.OnHeap k → q.OnHeap k)
      ∧ ∀ k, (q.dequeue now).1 = some k →
        q.contains k = true ∧ ¬ (q.dequeue now).2.OnHeap k :=
  ⟨coherent_iff.mpr (fun k => ((h.at k).dequeue now).1), fun k => ((h.at k).dequeue now).2.1,
    fun _ => onHeap_of_dequeue, fun k => ((h.at k).dequeue now).2.2⟩

end Operations

end ThreadSafePriorityQueue

end JobOrchestrator
