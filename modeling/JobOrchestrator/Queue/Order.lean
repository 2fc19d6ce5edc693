import JobOrchestrator.Queue.JobQueue

/-!
# What a dequeue takes

A dequeue reads the queue as the list of its live entries, in their order:
it takes the first that is due, and the others stay. Which of the marked
entries it throws away on the way makes no difference to that list.

The loop of `_get_ready_job` pops the entries that are not due into
`temp_buffer` and pushes them back at its end. `getReadyBuffered` is the
function with the buffer, and it is `getReadyJob`: no two entries of the heap
have one insertion order, so an entry pushed back has one place to go to.
-/

namespace JobOrchestrator

namespace QueueEntry

/-- Two entries that come both before each other are of one insertion. -/
theorem insertionOrder_eq {a b : QueueEntry} (hab : a.le b) (hba : b.le a) :
    a.insertionOrder = b.insertionOrder := by
  unfold le at *
  grind

/-- Comes before, and was inserted another time. -/
def Before (a b : QueueEntry) : Prop := a.le b ∧ a.insertionOrder ≠ b.insertionOrder

theorem Before.not_le {a b : QueueEntry} (h : a.Before b) : ¬ b.le a :=
  fun hba => h.2 (insertionOrder_eq h.1 hba)

end QueueEntry

namespace ThreadSafePriorityQueue

/-! ## The loop with its buffer -/

/-- The loop of `_get_ready_job` as it is written, with `temp_buffer`. -/
def scanReady (now : Time) : List QueueEntry → OrderedDict UUID QueueEntry → Finset UUID →
    List QueueEntry → Option QueueEntry × Parts × List QueueEntry
  | [], m, r, buffer => (none, ⟨[], m, r⟩, buffer)
  | e :: es, m, r, buffer =>
    if e.jobId ∈ r then scanReady now es (m.erase e.jobId) (r.erase e.jobId) buffer
    else if e.scheduledTime ≤ now then (some e, ⟨es, m, r⟩, buffer)
    else scanReady now es m r (buffer ++ [e])

/-- `heapq.heappush` for each entry of the buffer. -/
def pushBack (buffer es : List QueueEntry) : List QueueEntry :=
  buffer.foldl (fun es e => es.orderedInsert QueueEntry.le e) es

theorem sorted_pushBack {buffer es : List QueueEntry} (h : es.Pairwise QueueEntry.le) :
    (pushBack buffer es).Pairwise QueueEntry.le := by
  induction buffer generalizing es with
  | nil => exact h
  | cons e buffer ih => exact ih (List.Pairwise.orderedInsert _ _ h)

theorem scanReady_sublist (now : Time) (es : List QueueEntry) (m : OrderedDict UUID QueueEntry)
    (r : Finset UUID) (buffer : List QueueEntry) :
    (scanReady now es m r buffer).2.1.heap.Sublist es := by
  induction es generalizing m r buffer with
  | nil => exact List.Sublist.refl _
  | cons e es ih =>
    rw [scanReady]
    split
    · exact (ih _ _ _).cons e
    · split
      · exact List.sublist_cons_self e es
      · exact (ih _ _ _).cons e

/-- **`_get_ready_job` as it is written.** Entries that are not due yet are popped into a buffer,
and pushed back once one is found that is, or none. -/
def getReadyBuffered (now : Time) (q : ThreadSafePriorityQueue) :
    Option UUID × ThreadSafePriorityQueue :=
  let x := scanReady now q.heap q.entryMap q.removed []
  (x.1.map QueueEntry.jobId,
    { q with
      heap := pushBack x.2.2 x.2.1.heap
      sorted := sorted_pushBack (q.sorted.sublist (scanReady_sublist _ _ _ _ _))
      entryMap := (x.1.map QueueEntry.jobId).elim x.2.1.entryMap x.2.1.entryMap.erase
      removed := x.2.1.removed })

/-- An entry goes back between what comes before it and what comes after. -/
theorem orderedInsert_between {p es : List QueueEntry} {e : QueueEntry}
    (h : (p ++ e :: es).Pairwise QueueEntry.Before) :
    (p ++ es).orderedInsert QueueEntry.le e = p ++ e :: es := by
  induction p with
  | nil =>
    rw [List.nil_append] at h ⊢
    cases es with
    | nil => rfl
    | cons e' es => exact List.orderedInsert_cons_of_le _ _ (List.rel_of_pairwise_cons h
        List.mem_cons_self).1
  | cons a p ih =>
    rw [List.cons_append] at h ⊢
    have hbefore : a.Before e :=
      List.rel_of_pairwise_cons h (List.mem_append_right p List.mem_cons_self)
    rw [List.cons_append, List.orderedInsert_of_not_le _ _ hbefore.not_le,
      ih (List.Pairwise.of_cons h)]

/-- The buffer goes back to where it came from. -/
theorem pushBack_between {p buffer es : List QueueEntry}
    (h : (p ++ (buffer ++ es)).Pairwise QueueEntry.Before) :
    pushBack buffer (p ++ es) = p ++ (buffer ++ es) := by
  induction buffer generalizing p with
  | nil => rfl
  | cons e buffer ih =>
    show pushBack buffer ((p ++ es).orderedInsert QueueEntry.le e) = _
    have hes : (p ++ e :: es).Pairwise QueueEntry.Before :=
      h.sublist (((List.sublist_append_right buffer es).cons_cons e).append_left p)
    have hmove : p ++ (e :: buffer ++ es) = p ++ [e] ++ (buffer ++ es) := by simp
    rw [orderedInsert_between hes, hmove, show p ++ e :: es = p ++ [e] ++ es by simp]
    exact ih (hmove ▸ h)

/-- **The loop with the buffer is the loop without**, with the entries that are in the
buffer already in front. -/
theorem scanReady_eq (now : Time) (es : List QueueEntry) (m : OrderedDict UUID QueueEntry)
    (r : Finset UUID) (buffer : List QueueEntry)
    (h : (buffer ++ es).Pairwise QueueEntry.Before) :
    let x := scanReady now es m r buffer
    let y := takeReady now es m r
    x.1 = y.1 ∧ pushBack x.2.2 x.2.1.heap = buffer ++ y.2.heap
      ∧ (x.1.map QueueEntry.jobId).elim x.2.1.entryMap x.2.1.entryMap.erase = y.2.entryMap
      ∧ x.2.1.removed = y.2.removed := by
  induction es generalizing m r buffer with
  | nil =>
    have hback : pushBack buffer ([] ++ []) = [] ++ (buffer ++ []) := pushBack_between h
    exact ⟨rfl, hback, rfl, rfl⟩
  | cons e es ih =>
    have hrest : (buffer ++ es).Pairwise QueueEntry.Before :=
      h.sublist ((List.sublist_cons_self e es).append_left buffer)
    rw [scanReady, takeReady]
    split
    · exact ih _ _ _ hrest
    · split
      · exact ⟨rfl, pushBack_between (p := []) hrest, rfl, rfl⟩
      · have hone := ih m r (buffer ++ [e]) (by rw [List.append_assoc]; exact h)
        simpa only [List.append_assoc, List.singleton_append] using hone

/-- **The insertions are numbered**: no number twice on the heap, and all below the counter. So
no two entries are equal in the order of the heap, and the one that comes first is the only one.
-/
structure Numbered (q : ThreadSafePriorityQueue) : Prop where
  distinct : q.heap.Pairwise (fun a b => a.insertionOrder ≠ b.insertionOrder)
  below : ∀ e ∈ q.heap, e.insertionOrder < q.counter

/-- **`_get_ready_job` as it is written is `getReadyJob`.** The source puts the entries that are
not due yet into a buffer and back again; since the numbers are distinct, the heap is the same
afterwards. -/
theorem getReadyBuffered_eq {q : ThreadSafePriorityQueue} (h : q.Numbered) (now : Time) :
    q.getReadyBuffered now = q.getReadyJob now := by
  have hbefore : q.heap.Pairwise QueueEntry.Before := q.sorted.and h.distinct
  obtain ⟨htaken, hheap, hmap, hremoved⟩ :=
    scanReady_eq now q.heap q.entryMap q.removed [] hbefore
  unfold getReadyBuffered getReadyJob
  simp only [htaken, hheap, hremoved, List.nil_append] at hmap ⊢
  simp only [hmap]

/-! ## The map while entries are popped -/

theorem get?_of_get?_erase {m : OrderedDict UUID QueueEntry} {k k' : UUID} {e : QueueEntry}
    (h : (m.erase k').get? k = some e) : m.get? k = some e := by
  rw [OrderedDict.get?_erase] at h
  split at h
  · cases h
  · exact h

theorem get?_of_cleanup {es : List QueueEntry} {m : OrderedDict UUID QueueEntry} {r : Finset UUID}
    {k : UUID} {e : QueueEntry} (h : (cleanup es m r).entryMap.get? k = some e) :
    m.get? k = some e := by
  induction es generalizing m r with
  | nil => exact h
  | cons a es ih =>
    rw [cleanup] at h
    split at h
    · exact get?_of_get?_erase (ih h)
    · exact h

theorem get?_of_takeReady {now : Time} {es : List QueueEntry} {m : OrderedDict UUID QueueEntry}
    {r : Finset UUID} {k : UUID} {e : QueueEntry}
    (h : (takeReady now es m r).2.entryMap.get? k = some e) : m.get? k = some e := by
  induction es generalizing m r with
  | nil => exact h
  | cons a es ih =>
    rw [takeReady] at h
    split at h
    · exact get?_of_get?_erase (ih h)
    · split at h
      · exact get?_of_get?_erase h
      · exact ih h

/-- A pop takes entries out of the map and puts none in. -/
theorem get?_of_dequeue {q : ThreadSafePriorityQueue} {now : Time} {k : UUID} {e : QueueEntry}
    (h : (q.dequeue now).2.entryMap.get? k = some e) : q.entryMap.get? k = some e :=
  get?_of_cleanup (get?_of_takeReady h)

/-! ## The live entries -/

/-- The entries of a heap that are not marked. -/
def unmarked (r : Finset UUID) (es : List QueueEntry) : List QueueEntry :=
  es.filter (fun e => decide (e.jobId ∉ r))

/-- **The live entries**, in the order of the heap. -/
def live (q : ThreadSafePriorityQueue) : List QueueEntry := unmarked q.removed q.heap

/-- The entry is due. -/
def due (now : Time) (e : QueueEntry) : Bool := decide (e.scheduledTime ≤ now)

theorem mem_unmarked {r : Finset UUID} {es : List QueueEntry} {e : QueueEntry} :
    e ∈ unmarked r es ↔ e ∈ es ∧ e.jobId ∉ r := by
  rw [unmarked, List.mem_filter, decide_eq_true_eq]

theorem unmarked_cons_of_mem {r : Finset UUID} {e : QueueEntry} (h : e.jobId ∈ r)
    (es : List QueueEntry) : unmarked r (e :: es) = unmarked r es :=
  List.filter_cons_of_neg (by simpa using h)

theorem unmarked_cons_of_notMem {r : Finset UUID} {e : QueueEntry} (h : e.jobId ∉ r)
    (es : List QueueEntry) : unmarked r (e :: es) = e :: unmarked r es :=
  List.filter_cons_of_pos (by simpa using h)

/-- A mark that no entry on the heap bears may go without making any entry live. -/
theorem unmarked_erase {r : Finset UUID} {es : List QueueEntry} {k : UUID} (h : k ∉ ids es) :
    unmarked (r.erase k) es = unmarked r es := by
  refine List.filter_congr (fun e he => ?_)
  have hne : e.jobId ≠ k := fun heq => h (heq ▸ List.mem_map_of_mem he)
  simp [hne]

/-- `_cleanup_removed` throws away nothing that is live. -/
theorem unmarked_cleanup {es : List QueueEntry} (nodup : (ids es).Nodup)
    (m : OrderedDict UUID QueueEntry) (r : Finset UUID) :
    unmarked (cleanup es m r).removed (cleanup es m r).heap = unmarked r es := by
  induction es generalizing m r with
  | nil => rfl
  | cons e es ih =>
    obtain ⟨hnew, hrest⟩ := List.nodup_cons.mp nodup
    rw [cleanup]
    split
    · rename_i hmarked
      rw [ih hrest, unmarked_erase hnew, unmarked_cons_of_mem hmarked]
    · rfl

/-- The loop takes marks away and sets none. -/
theorem removed_takeReady_subset (now : Time) (es : List QueueEntry)
    (m : OrderedDict UUID QueueEntry) (r : Finset UUID) :
    (takeReady now es m r).2.removed ⊆ r := by
  induction es generalizing m r with
  | nil => exact Finset.Subset.refl r
  | cons e es ih =>
    rw [takeReady]
    split
    · exact (ih _ _).trans (Finset.erase_subset _ r)
    · split
      · exact Finset.Subset.refl r
      · exact ih m r

/-- **The loop takes the first live entry that is due**, and leaves the other live
entries where they are. -/
theorem takeReady_spec {es : List QueueEntry} (nodup : (ids es).Nodup) (now : Time)
    (m : OrderedDict UUID QueueEntry) (r : Finset UUID) :
    (takeReady now es m r).1 = (unmarked r es).find? (due now)
      ∧ unmarked (takeReady now es m r).2.removed (takeReady now es m r).2.heap
        = (unmarked r es).eraseP (due now) := by
  induction es generalizing m r with
  | nil => exact ⟨rfl, rfl⟩
  | cons e es ih =>
    obtain ⟨hnew, hrest⟩ := List.nodup_cons.mp nodup
    rw [takeReady]
    split
    · rename_i hmarked
      rw [unmarked_cons_of_mem hmarked, ← unmarked_erase hnew]
      exact ih hrest _ _
    · rename_i hmarked
      rw [unmarked_cons_of_notMem hmarked]
      split
      · rename_i hdue
        rw [List.find?_cons_of_pos (by simpa [due] using hdue),
          List.eraseP_cons_of_pos (by simpa [due] using hdue)]
        exact ⟨rfl, rfl⟩
      · rename_i hdue
        obtain ⟨htaken, hleft⟩ := ih hrest m r
        rw [List.find?_cons_of_neg (by simpa [due] using hdue),
          List.eraseP_cons_of_neg (by simpa [due] using hdue), ← hleft]
        refine ⟨htaken, unmarked_cons_of_notMem ?_ _⟩
        exact fun hmem => hmarked (removed_takeReady_subset now es m r hmem)

/-- **The loop takes an entry that is due**, and no due entry that is not marked comes
before it. -/
theorem takeReady_least {es : List QueueEntry} (sorted : es.Pairwise QueueEntry.le) {now : Time}
    {m : OrderedDict UUID QueueEntry} {r : Finset UUID} {e : QueueEntry}
    (taken : (takeReady now es m r).1 = some e) :
    e ∈ es ∧ e.scheduledTime ≤ now ∧ ∀ e' ∈ unmarked r es, e'.scheduledTime ≤ now → e.le e' := by
  induction es generalizing m r with
  | nil => cases taken
  | cons a es ih =>
    rw [takeReady] at taken
    split at taken
    · -- a marked entry is passed over, and was not one of the others
      rename_i hmarked
      obtain ⟨hmem, hdue, hleast⟩ := ih (List.Pairwise.of_cons sorted) taken
      refine ⟨List.mem_cons_of_mem a hmem, hdue, fun e' he' => hleast e' ?_⟩
      rw [unmarked_cons_of_mem hmarked] at he'
      obtain ⟨hmem', hout⟩ := mem_unmarked.mp he'
      exact mem_unmarked.mpr ⟨hmem', fun h => hout (Finset.mem_of_mem_erase h)⟩
    · rename_i hmarked
      split at taken
      · rename_i hdue
        obtain rfl : a = e := Option.some.inj taken
        refine ⟨List.mem_cons_self, hdue, fun e' he' _ => ?_⟩
        rcases List.mem_cons.mp (mem_unmarked.mp he').1 with rfl | hmem
        · exact (Std.Total.total e' e').elim id id
        · exact List.rel_of_pairwise_cons sorted hmem
      · rename_i hdue
        obtain ⟨hmem, hdue', hleast⟩ := ih (List.Pairwise.of_cons sorted) taken
        refine ⟨List.mem_cons_of_mem a hmem, hdue', fun e' he' hnow => ?_⟩
        rw [unmarked_cons_of_notMem hmarked] at he'
        rcases List.mem_cons.mp he' with rfl | hmem'
        · exact absurd hnow hdue
        · exact hleast e' hmem' hnow

/-- What is not marked is not thrown away. So an entry that was to be found is still found after
a look at the queue. -/
theorem mem_cleanup {es : List QueueEntry} {e : QueueEntry} (m : OrderedDict UUID QueueEntry)
    (r : Finset UUID) (h : e ∈ unmarked r es) :
    e ∈ unmarked (cleanup es m r).removed (cleanup es m r).heap := by
  induction es generalizing m r with
  | nil => exact h
  | cons a es ih =>
    rw [cleanup]
    split
    · rename_i hmarked
      rw [unmarked_cons_of_mem hmarked] at h
      obtain ⟨hmem, hout⟩ := mem_unmarked.mp h
      exact ih _ _ (mem_unmarked.mpr ⟨hmem, fun hr => hout (Finset.mem_of_mem_erase hr)⟩)
    · exact h

/-- The entry a pop at a reading of the clock would take. -/
def nextReady (now : Time) (q : ThreadSafePriorityQueue) : Option QueueEntry :=
  (takeReady now q.cleanupRemoved.heap q.cleanupRemoved.entryMap q.cleanupRemoved.removed).1

theorem dequeue_fst (now : Time) (q : ThreadSafePriorityQueue) :
    (q.dequeue now).1 = (q.nextReady now).map QueueEntry.jobId := rfl

/-- **A pop takes an entry that is due**, and no live entry that is due comes before it. -/
theorem nextReady_least {q : ThreadSafePriorityQueue} {now : Time} {e : QueueEntry}
    (h : q.nextReady now = some e) :
    e ∈ q.heap ∧ e.scheduledTime ≤ now ∧ ∀ e' ∈ q.live, e'.scheduledTime ≤ now → e.le e' := by
  obtain ⟨hmem, hdue, hleast⟩ := takeReady_least q.cleanupRemoved.sorted h
  exact ⟨(cleanup_sublist _ _ _).subset hmem, hdue,
    fun e' he' => hleast e' (mem_cleanup q.entryMap q.removed he')⟩

section Coherent

variable {q : ThreadSafePriorityQueue}

/-- **A dequeue takes the first live entry that is due.** -/
theorem Coherent.nextReady (h : q.Coherent) (now : Time) :
    q.nextReady now = q.live.find? (due now)
      ∧ (q.dequeue now).2.live = q.live.eraseP (due now) := by
  have hclean : (ids q.cleanupRemoved.heap).Nodup :=
    h.nodup.sublist ((cleanup_sublist _ _ _).map _)
  have hlive : unmarked q.cleanupRemoved.removed q.cleanupRemoved.heap = q.live :=
    unmarked_cleanup h.nodup q.entryMap q.removed
  rw [← hlive]
  exact takeReady_spec hclean now _ _

/-- The live entries come in their order. They are a part of the heap, which is kept in order. -/
theorem sorted_live (q : ThreadSafePriorityQueue) : q.live.Pairwise QueueEntry.le :=
  q.sorted.sublist List.filter_sublist

theorem find?_eq_none_of_forall {now : Time} (h : ∀ e ∈ q.live, ¬ e.scheduledTime ≤ now) :
    q.live.find? (due now) = none :=
  List.find?_eq_none.mpr (fun e he => by simpa [due] using h e he)

/-- **The least due entry**, and the queue without it. -/
theorem exists_least_due {es : List QueueEntry} (sorted : es.Pairwise QueueEntry.le) {now : Time}
    (some_due : ∃ e ∈ es, e.scheduledTime ≤ now) :
    ∃ e ∈ es, e.scheduledTime ≤ now ∧ (∀ e' ∈ es, e'.scheduledTime ≤ now → e.le e')
      ∧ es.find? (due now) = some e ∧ es.eraseP (due now) = es.erase e := by
  induction es with
  | nil =>
    obtain ⟨e, hmem, -⟩ := some_due
    exact absurd hmem List.not_mem_nil
  | cons a es ih =>
    by_cases ha : a.scheduledTime ≤ now
    · refine ⟨a, List.mem_cons_self, ha, fun e' he' _ => ?_, ?_, ?_⟩
      · rcases List.mem_cons.mp he' with rfl | hmem
        · exact (Std.Total.total e' e').elim id id
        · exact List.rel_of_pairwise_cons sorted hmem
      · exact List.find?_cons_of_pos (by simpa [due] using ha)
      · rw [List.eraseP_cons_of_pos (by simpa [due] using ha), List.erase_cons_head]
    · have hlater : ∃ e ∈ es, e.scheduledTime ≤ now := by
        obtain ⟨e, hmem, hdue⟩ := some_due
        rcases List.mem_cons.mp hmem with rfl | hmem
        · exact absurd hdue ha
        · exact ⟨e, hmem, hdue⟩
      obtain ⟨e, hmem, hdue, hleast, hfind, herase⟩ := ih (List.Pairwise.of_cons sorted) hlater
      refine ⟨e, List.mem_cons_of_mem a hmem, hdue, fun e' he' hdue' => ?_, ?_, ?_⟩
      · rcases List.mem_cons.mp he' with rfl | hmem'
        · exact absurd hdue' ha
        · exact hleast e' hmem' hdue'
      · rw [List.find?_cons_of_neg (by simpa [due] using ha), hfind]
      · have hne : a ≠ e := fun heq => ha (heq ▸ hdue)
        rw [List.eraseP_cons_of_neg (by simpa [due] using ha), herase,
          List.erase_cons_tail (by simpa using hne)]

/-- The keys of the map are the ids on the heap. -/
theorem Coherent.size_entryMap (h : q.Coherent) : q.entryMap.size = q.heap.length := by
  have hperm : q.entryMap.keys.Perm (ids q.heap) := by
    refine (List.perm_ext_iff_of_nodup q.entryMap.nodup_keys h.nodup).mpr (fun k => ?_)
    rw [OrderedDict.mem_keys_iff, mem_ids]
    exact exists_congr (h.mapped k)
  have hlength := hperm.length_eq
  rw [OrderedDict.keys, ids, List.length_map, List.length_map] at hlength
  exact hlength

/-- Every mark has its entry on the heap, and only one: so they are as many as the marked
entries. -/
theorem Coherent.card_removed (h : q.Coherent) :
    q.removed.card = (q.heap.filter (fun e => decide (e.jobId ∈ q.removed))).length := by
  have hnodup : (ids (q.heap.filter (fun e => decide (e.jobId ∈ q.removed)))).Nodup :=
    h.nodup.sublist (List.filter_sublist.map _)
  have hset : (ids (q.heap.filter (fun e => decide (e.jobId ∈ q.removed)))).toFinset
      = q.removed := by
    ext k
    rw [List.mem_toFinset, mem_ids]
    constructor
    · rintro ⟨e, he, rfl⟩
      exact of_decide_eq_true (List.mem_filter.mp he).2
    · intro hk
      obtain ⟨e, he, rfl⟩ := mem_ids.mp (h.marked k hk)
      exact ⟨e, List.mem_filter.mpr ⟨he, decide_eq_true hk⟩, rfl⟩
  rw [← hset, List.toFinset_card_of_nodup hnodup, hset, ids, List.length_map]

/-- **`len` is the number of live entries.** -/
theorem Coherent.len_eq (h : q.Coherent) : q.len = q.live.length := by
  have hsplit := List.length_eq_length_filter_add (l := q.heap)
    (fun e => decide (e.jobId ∈ q.removed))
  have hlive : q.live = q.heap.filter (fun e => !decide (e.jobId ∈ q.removed)) :=
    List.filter_congr (fun e _ => by simp)
  rw [len, h.size_entryMap, h.card_removed, hlive]
  omega

end Coherent

/-! ## The numbers of the insertions -/

theorem Numbered.sublist {q q' : ThreadSafePriorityQueue} (h : q.Numbered)
    (heap : q'.heap.Sublist q.heap) (counter : q'.counter = q.counter) : q'.Numbered where
  distinct := h.distinct.sublist heap
  below e he := counter ▸ h.below e (heap.subset he)

theorem Numbered.cleanupRemoved {q : ThreadSafePriorityQueue} (h : q.Numbered) :
    q.cleanupRemoved.Numbered :=
  h.sublist (cleanup_sublist _ _ _) rfl

theorem Numbered.insert {q : ThreadSafePriorityQueue} (h : q.Numbered) (job : Job) :
    (q.insert job).Numbered := by
  have hperm := List.perm_orderedInsert QueueEntry.le (q.entryFor job) q.heap
  refine ⟨?_, fun e he => ?_⟩
  · refine (hperm.pairwise_iff (fun hne => hne.symm)).mpr (List.Pairwise.cons ?_ h.distinct)
    exact fun e he => (h.below e he).ne'
  · show e.insertionOrder < q.counter + 1
    rcases List.mem_cons.mp (hperm.mem_iff.mp he) with rfl | hmem
    · exact Nat.lt_succ_self _
    · exact (h.below e hmem).trans (Nat.lt_succ_self _)

end ThreadSafePriorityQueue

namespace JobQueue

open ThreadSafePriorityQueue

variable {s : JobQueue}

/-- Every call keeps the insertions numbered, `clear` by throwing all of them away. -/
theorem numbered_step (h : s.queue.Numbered) (c : QueueCall) : (s.step c).queue.Numbered := by
  have heffect := s.effect c
  generalize (s.step c).queue = q' at heffect ⊢
  cases heffect with
  | same => exact h
  | insert c job => exact h.insert job
  | remove jobId =>
    refine h.sublist ?_ ?_
    · rw [heap_remove]
    · rcases remove_cases s.queue jobId with ⟨-, heq⟩ | ⟨-, heq⟩ <;> rw [heq]
  | pop now => exact h.sublist ((takeReady_sublist _ _ _ _).trans (cleanup_sublist _ _ _)) rfl
  | clean => exact h.cleanupRemoved
  | clear => exact ⟨List.Pairwise.nil, fun _ he => absurd he List.not_mem_nil⟩

theorem numbered_after (jobs : JobTable) (maxSize : Option ℕ) (cs : List QueueCall) :
    (History.after step (start jobs maxSize) cs).queue.Numbered :=
  History.invariant_of_kept (P := fun s : JobQueue => s.queue.Numbered)
    ⟨List.Pairwise.nil, fun _ he => absurd he List.not_mem_nil⟩ (fun _ c h => numbered_step h c) cs

/-! ## The order of the queue -/

/-- **A history of pushes and removals that pushes an id only when no heap entry
with that id is left.** -/
def PushesFresh (s : JobQueue) : QueueCall → Prop
  | .push jobId => ¬ s.queue.OnHeap jobId
  | .assign _ | .remove _ | .pop _ | .peek | .clear => True
  | .updatePriority _ _ | .reschedule _ _ | .peekReady _ => False

instance decidablePushesFresh (s : JobQueue) : (c : QueueCall) → Decidable (s.PushesFresh c)
  | .push jobId => inferInstanceAs (Decidable (¬ s.queue.OnHeap jobId))
  | .assign _ | .remove _ | .pop _ | .peek | .clear => isTrue trivial
  | .updatePriority _ _ | .reschedule _ _ | .peekReady _ => isFalse id

theorem PushesFresh.entersFresh {c : QueueCall} (h : s.PushesFresh c) (k : UUID) :
    s.EntersFresh k c := by
  cases c with
  | push jobId => exact fun heq _ => heq ▸ h
  | updatePriority | reschedule => exact absurd h id
  | _ => exact trivial

/-- In such a history the parts agree about every id. -/
theorem coherent_after {jobs : JobTable} {maxSize : Option ℕ} {cs : List QueueCall}
    (fresh : ∀ k, History.Admitted step (EntersFresh k) (start jobs maxSize) cs) :
    (History.after step (start jobs maxSize) cs).queue.Coherent :=
  coherent_iff.mpr (fun k => History.invariant (P := fun s : JobQueue => s.queue.CoherentAt k)
    (fresh k)
    ((coherent_new maxSize).at k) (fun _ _ h ok => coherentAt_step h ok))

/-- **A removed id is not returned until it is pushed.** -/
theorem count_pops_remove {k : UUID} {cs : List QueueCall} (h : s.queue.CoherentAt k)
    (fresh : History.Admitted step (EntersFresh k) (s.step (.remove k)) cs)
    (noPush : ∀ c ∈ cs, c ≠ .push k) :
    History.count step (pops k) (s.step (.remove k)) cs = 0 := by
  have hout : (s.step (.remove k)).queue.contains k = false := by
    show (s.queue.remove k).2.contains k = false
    rw [← Bool.not_eq_true, contains_remove]
    exact fun hk => hk.2 rfl
  have hle := count_pops_le (h.remove k) fresh noPush
  rw [hout] at hle
  exact Nat.le_zero.mp hle

/-- **A dequeue takes the least**: where a live entry is due it returns the job of one
that no other due entry comes before, and otherwise nothing, and the other live
entries are left as they were. -/
def TakesLeast (now : Time) (q : ThreadSafePriorityQueue)
    (x : Option UUID × ThreadSafePriorityQueue) : Prop :=
  ((∃ e ∈ q.live, e.scheduledTime ≤ now) →
      ∃ e ∈ q.live, e.scheduledTime ≤ now ∧ (∀ e' ∈ q.live, e'.scheduledTime ≤ now → e.le e')
        ∧ x.1 = some e.jobId ∧ x.2.live = q.live.erase e)
    ∧ ((∀ e ∈ q.live, ¬ e.scheduledTime ≤ now) → x.1 = none ∧ x.2.live = q.live)

theorem takesLeast_dequeue {q : ThreadSafePriorityQueue} (h : q.Coherent) (now : Time) :
    TakesLeast now q (q.dequeue now) := by
  obtain ⟨hnext, hleft⟩ := h.nextReady now
  refine ⟨fun hdue => ?_, fun hnone => ?_⟩
  · obtain ⟨e, hmem, hdue, hleast, hfind, herase⟩ := exists_least_due q.sorted_live hdue
    refine ⟨e, hmem, hdue, hleast, ?_, ?_⟩
    · rw [dequeue_fst, hnext, hfind]
      rfl
    · rw [hleft, herase]
  · have hfind := find?_eq_none_of_forall hnone
    refine ⟨?_, ?_⟩
    · rw [dequeue_fst, hnext, hfind]
      rfl
    · rw [hleft]
      exact List.eraseP_of_forall_not (fun e he => by simpa [due] using hnone e he)

/-- **The order of the queue, with lazy deletion and jobs of the future.** After every
history of pushes, removals, pops, looks and clears that pushes an id only when no heap
entry with that id is left, and at every reading of the clock: `_cleanup_removed` and then
`_get_ready_job`, as it is written with its buffer, take the least live entry that is due
and leave the others; `len` counts the live entries; and an id that is removed is not
returned until it is pushed. -/
theorem dequeue_takes_least {jobs : JobTable} {maxSize : Option ℕ} {cs : List QueueCall}
    (fresh : History.Admitted step PushesFresh (start jobs maxSize) cs) (now : Time) :
    TakesLeast now (History.after step (start jobs maxSize) cs).queue
        ((History.after step (start jobs maxSize) cs).queue.cleanupRemoved.getReadyBuffered now)
      ∧ (History.after step (start jobs maxSize) cs).queue.len
        = (History.after step (start jobs maxSize) cs).queue.live.length
      ∧ ∀ k cs', ((History.after step (start jobs maxSize) cs).queue.remove k).1 = true →
        History.Admitted step PushesFresh
          (History.after step (start jobs maxSize) (cs ++ [.remove k])) cs' →
        (∀ c ∈ cs', c ≠ .push k) →
        History.count step (pops k)
          (History.after step (start jobs maxSize) (cs ++ [.remove k])) cs' = 0 := by
  have hcoh := coherent_after (fun k => fresh.mono (fun _ _ ok => ok.entersFresh k))
  refine ⟨?_, hcoh.len_eq, fun k cs' _ fresh' noPush => ?_⟩
  · rw [getReadyBuffered_eq (numbered_after jobs maxSize cs).cleanupRemoved]
    exact takesLeast_dequeue hcoh now
  · rw [History.after_append] at fresh' ⊢
    exact count_pops_remove (hcoh.at k) (fresh'.mono (fun _ _ ok => ok.entersFresh k)) noPush

/-- Job 2 is the more urgent one and not due, job 3 is removed: job 1 is taken. -/
theorem dequeue_takes_least_future :
    let cs : List QueueCall :=
      [.assign { id := 2, priority := .critical, scheduledAt := some ⟨100, none⟩ }, .push 2,
        .push 3, .push 1, .remove 3]
    let q := (History.after step (start .fresh none) cs).queue
    TakesLeast 5 q (q.cleanupRemoved.getReadyBuffered 5)
      ∧ (q.cleanupRemoved.getReadyBuffered 5).1 = some 1 :=
  ⟨(dequeue_takes_least (by decide +kernel) 5).1, by decide +kernel⟩

end JobQueue

end JobOrchestrator
