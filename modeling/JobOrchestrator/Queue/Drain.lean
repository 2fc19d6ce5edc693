import Mathlib.Data.Finset.Order
import JobOrchestrator.Queue.Order

/-!
# Draining the queue

At a late enough reading of the clock every entry is due, and pops take the
entries that are not marked one after the other. So every entry of an id that
is not marked can be popped: this is what a pop *could* return, also where the
parts of the queue do not agree.
-/

namespace JobOrchestrator

namespace ThreadSafePriorityQueue

variable {q : ThreadSafePriorityQueue} {now : Time} {k : UUID}

/-! ## The map is to the heap -/

section Map

variable {es : List QueueEntry} {e : QueueEntry} {m : OrderedDict UUID QueueEntry}

/-- The map has entries of the heap, each under its id. -/
def MapsToHeap (es : List QueueEntry) (m : OrderedDict UUID QueueEntry) : Prop :=
  ∀ k e, m.get? k = some e → e ∈ es ∧ e.jobId = k

/-- An entry can be taken from the heap together with what the map has for its id. -/
theorem MapsToHeap.discard (h : MapsToHeap (e :: es) m) : MapsToHeap es (m.erase e.jobId) := by
  intro k e' he'
  rw [OrderedDict.get?_erase] at he'
  split at he'
  · cases he'
  · rename_i hne
    obtain ⟨hmem, hid⟩ := h k e' he'
    refine ⟨(List.mem_cons.mp hmem).resolve_left ?_, hid⟩
    rintro rfl
    exact hne hid.symm

/-- The same of an entry further down: the map loses the id, and the heap one entry of it. -/
theorem MapsToHeap.discard_below {p : List QueueEntry} (h : MapsToHeap (p ++ e :: es) m) :
    MapsToHeap (p ++ es) (m.erase e.jobId) := by
  have hfront : MapsToHeap (e :: (p ++ es)) m :=
    fun k e' he' => ⟨List.perm_middle.mem_iff.mp (h k e' he').1, (h k e' he').2⟩
  exact hfront.discard

theorem MapsToHeap.cleanup {r : Finset UUID} (h : MapsToHeap es m) :
    MapsToHeap (cleanup es m r).heap (cleanup es m r).entryMap := by
  induction es generalizing m r with
  | nil => exact h
  | cons e es ih =>
    rw [ThreadSafePriorityQueue.cleanup]
    split
    · exact ih h.discard
    · exact h

/-- The loop of `_get_ready_job` keeps the map to the heap, with the entries it has kept so
far in front. -/
theorem MapsToHeap.takeReady (now : Time) {p : List QueueEntry} {r : Finset UUID}
    (h : MapsToHeap (p ++ es) m) :
    MapsToHeap (p ++ (takeReady now es m r).2.heap) (takeReady now es m r).2.entryMap := by
  induction es generalizing p m r with
  | nil => exact h
  | cons e es ih =>
    rw [ThreadSafePriorityQueue.takeReady]
    split
    · exact ih h.discard_below
    · split
      · exact h.discard_below
      · have hrest := ih (p := p ++ [e]) (r := r) (by rw [List.append_assoc]; exact h)
        rw [List.append_assoc] at hrest
        exact hrest

theorem MapsToHeap.insert (h : MapsToHeap q.heap q.entryMap) (job : Job) :
    MapsToHeap (q.insert job).heap (q.insert job).entryMap := by
  intro k e he
  have hperm := List.perm_orderedInsert QueueEntry.le (q.entryFor job) q.heap
  show e ∈ q.heap.orderedInsert QueueEntry.le (q.entryFor job) ∧ _
  rw [hperm.mem_iff, List.mem_cons]
  rcases OrderedDict.get?_set_eq_some he with ⟨rfl, rfl⟩ | ⟨-, hold⟩
  · exact ⟨Or.inl rfl, rfl⟩
  · exact ⟨Or.inr (h k e hold).1, (h k e hold).2⟩

theorem MapsToHeap.remove (h : MapsToHeap q.heap q.entryMap) (k : UUID) :
    MapsToHeap (q.remove k).2.heap (q.remove k).2.entryMap := by
  rcases remove_cases q k with ⟨-, heq⟩ | ⟨-, heq⟩ <;> rw [heq] <;> exact h

theorem MapsToHeap.dequeue (h : MapsToHeap q.heap q.entryMap) (now : Time) :
    MapsToHeap (q.dequeue now).2.heap (q.dequeue now).2.entryMap :=
  h.cleanup.takeReady now (p := [])

/-- What the queue contains is on the heap, and not marked. -/
theorem MapsToHeap.of_contains (h : MapsToHeap q.heap q.entryMap) (hk : q.contains k = true) :
    k ∉ q.removed ∧ q.OnHeap k := by
  obtain ⟨hkey, hunmarked⟩ := of_decide_eq_true hk
  cases he : q.entryMap.get? k with
  | none => exact absurd hkey (OrderedDict.get?_eq_none_iff.mp he)
  | some e => exact ⟨hunmarked, mem_ids.mpr ⟨e, h k e he⟩⟩

end Map

/-! ## Pops at a late reading -/

/-- Every entry on the heap is due. -/
def AllDue (now : Time) (q : ThreadSafePriorityQueue) : Prop := ∀ e ∈ q.heap, e.scheduledTime ≤ now

theorem exists_allDue (q : ThreadSafePriorityQueue) : ∃ now, q.AllDue now := by
  obtain ⟨now, hnow⟩ := (q.heap.map QueueEntry.scheduledTime).toFinset.exists_le
  exact ⟨now, fun e he => hnow _ (List.mem_toFinset.mpr (List.mem_map_of_mem he))⟩

/-- `_cleanup_removed` takes marks away and sets none. -/
theorem removed_cleanup_subset (es : List QueueEntry) (m : OrderedDict UUID QueueEntry)
    (r : Finset UUID) : (cleanup es m r).removed ⊆ r := by
  induction es generalizing m r with
  | nil => exact Finset.Subset.refl r
  | cons e es ih =>
    rw [cleanup]
    split
    · exact (ih _ _).trans (Finset.erase_subset _ r)
    · exact Finset.Subset.refl r

/-- What `_cleanup_removed` leaves at the top is not marked. -/
theorem notMem_removed_cleanup {es es' : List QueueEntry} {m : OrderedDict UUID QueueEntry}
    {r : Finset UUID} {e : QueueEntry} (h : (cleanup es m r).heap = e :: es') :
    e.jobId ∉ (cleanup es m r).removed := by
  induction es generalizing m r with
  | nil => cases h
  | cons a es ih =>
    rw [cleanup] at h ⊢
    split at h
    · rename_i hmarked
      rw [if_pos hmarked]
      exact ih h
    · rename_i hmarked
      rw [if_neg hmarked]
      cases h
      exact hmarked

/-- The entries of an id that is not marked stay. -/
theorem count_ids_cleanup {r : Finset UUID} (hk : k ∉ r) (es : List QueueEntry)
    (m : OrderedDict UUID QueueEntry) : (ids (cleanup es m r).heap).count k = (ids es).count k := by
  induction es generalizing m r with
  | nil => rfl
  | cons e es ih =>
    rw [cleanup]
    split
    · rename_i hmarked
      have hne : e.jobId ≠ k := fun heq => hk (heq ▸ hmarked)
      rw [ih (fun h => hk (Finset.mem_of_mem_erase h))]
      exact (List.count_cons_of_ne hne).symm
    · rfl

/-- A pop takes the top where it is due. -/
theorem dequeue_of_top {e : QueueEntry} {es : List QueueEntry}
    (heap : q.cleanupRemoved.heap = e :: es) (due : e.scheduledTime ≤ now) :
    (q.dequeue now).1 = some e.jobId ∧ (q.dequeue now).2.heap = es
      ∧ (q.dequeue now).2.removed = q.cleanupRemoved.removed
      ∧ (q.dequeue now).2.entryMap = q.cleanupRemoved.entryMap.erase e.jobId := by
  have htop : e.jobId ∉ q.cleanupRemoved.removed := notMem_removed_cleanup heap
  have htake : takeReady now q.cleanupRemoved.heap q.cleanupRemoved.entryMap
      q.cleanupRemoved.removed
      = (some e, ⟨es, q.cleanupRemoved.entryMap.erase e.jobId, q.cleanupRemoved.removed⟩) := by
    rw [heap, takeReady, if_neg htop, if_pos due]
  refine ⟨?_, congrArg (fun x => x.2.heap) htake, congrArg (fun x => x.2.removed) htake,
    congrArg (fun x => x.2.entryMap) htake⟩
  rw [dequeue_fst, nextReady, htake]
  rfl

/-- **Where every entry is due, a pop takes the top**: an id on the heap and not marked
is returned with one of its entries, or keeps all of them on a shorter heap. -/
theorem AllDue.dequeue (h : q.AllDue now) (unmarked : k ∉ q.removed) (onHeap : q.OnHeap k) :
    (q.dequeue now).2.AllDue now ∧ k ∉ (q.dequeue now).2.removed
      ∧ (q.dequeue now).2.heap.length < q.heap.length
      ∧ ((q.dequeue now).1 = some k ∧ k ∉ (q.dequeue now).2.entryMap.keys
          ∧ (ids (q.dequeue now).2.heap).count k + 1 = (ids q.heap).count k
        ∨ (q.dequeue now).1 ≠ some k
          ∧ (ids (q.dequeue now).2.heap).count k = (ids q.heap).count k) := by
  have hsub : q.cleanupRemoved.heap.Sublist q.heap := cleanup_sublist _ _ _
  have hcount : (ids q.cleanupRemoved.heap).count k = (ids q.heap).count k :=
    count_ids_cleanup unmarked q.heap q.entryMap
  have hkept : k ∉ q.cleanupRemoved.removed :=
    fun hk => unmarked (removed_cleanup_subset _ _ _ hk)
  cases hheap : q.cleanupRemoved.heap with
  | nil =>
    rw [hheap] at hcount
    exact absurd onHeap (List.count_eq_zero.mp hcount.symm)
  | cons e es =>
    rw [hheap] at hsub hcount
    obtain ⟨hfst, hrest, hmarks, hmap⟩ :=
      dequeue_of_top hheap (h e (hsub.subset List.mem_cons_self))
    have hids : (ids es).count k + (if e.jobId = k then 1 else 0) = (ids q.heap).count k := by
      rw [← hcount]
      show _ = (e.jobId :: ids es).count k
      simp [List.count_cons]
    unfold AllDue
    rw [hrest, hmarks, hmap, hfst]
    refine ⟨fun e' he' => h e' (hsub.subset (List.mem_cons_of_mem e he')), hkept,
      Nat.lt_of_lt_of_le (Nat.lt_succ_self _) hsub.length_le, ?_⟩
    by_cases hid : e.jobId = k
    · rw [if_pos hid] at hids
      refine Or.inl ⟨by rw [hid], ?_, hids⟩
      rw [hid, ← OrderedDict.get?_eq_none_iff, OrderedDict.get?_erase_self]
    · rw [if_neg hid] at hids
      exact Or.inr ⟨fun hsome => hid (Option.some.inj hsome), hids⟩

end ThreadSafePriorityQueue

namespace JobQueue

open ThreadSafePriorityQueue

/-- **An id on the heap and not marked can be popped**: at a reading at which every
entry is due, some number of pops come before the one that returns it. It is then in the map
no more, and the other entries of it are still on the heap. -/
theorem exists_pops {now : Time} {k : UUID} (s : JobQueue) (h : s.queue.AllDue now)
    (unmarked : k ∉ s.queue.removed) (onHeap : s.queue.OnHeap k) :
    ∃ n, pops k (History.after step s (List.replicate n (.pop now))) (.pop now) = true
      ∧ ∀ t, t = History.after step s (List.replicate (n + 1) (.pop now)) →
        t.queue.AllDue now ∧ k ∉ t.queue.removed ∧ k ∉ t.queue.entryMap.keys
          ∧ (ids t.queue.heap).count k + 1 = (ids s.queue.heap).count k := by
  induction hlen : s.queue.heap.length using Nat.strong_induction_on generalizing s with
  | _ len ih =>
    obtain ⟨hdue, hkept, hshort, ⟨htaken, hgone, hcount⟩ | ⟨hother, hcount⟩⟩ :=
      h.dequeue unmarked onHeap
    · refine ⟨0, decide_eq_true htaken, ?_⟩
      rintro t rfl
      exact ⟨hdue, hkept, hgone, hcount⟩
    · have hon : (s.step (.pop now)).queue.OnHeap k := by
        show k ∈ ids (s.queue.dequeue now).2.heap
        rw [← List.count_pos_iff, hcount]
        exact List.count_pos_iff.mpr onHeap
      obtain ⟨n, hpop, hafter⟩ := ih _ (hlen ▸ hshort) (s.step (.pop now)) hdue hkept hon rfl
      refine ⟨n + 1, hpop, ?_⟩
      rintro t rfl
      obtain ⟨hdue', hkept', hgone', hcount'⟩ := hafter _ rfl
      refine ⟨hdue', hkept', hgone', ?_⟩
      rw [← hcount]
      exact hcount'

end JobQueue

end JobOrchestrator
