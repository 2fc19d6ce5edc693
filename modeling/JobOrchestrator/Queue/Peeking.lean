import JobOrchestrator.Queue.Order

/-!
# Looking at the queue and popping from it

A dequeue looks for a due job all through the heap, `peek_ready` at the top of it alone. Both
throw away what is marked as they come across it, a mark with the first entry of its id, and
`remaining` is what this leaves. It is the live entries wherever the parts of the queue agree.

A dequeue takes the first of the remaining entries that is due, and `peek_ready` shows the first
of them if it is due. `peekAgrees_iff` says where this is the same.
-/

namespace JobOrchestrator

namespace ThreadSafePriorityQueue

variable {q : ThreadSafePriorityQueue} {now : Time} {es : List QueueEntry}
  {m : OrderedDict UUID QueueEntry} {r : Finset UUID} {e : QueueEntry}

/-! ## What the marks leave -/

/-- **The entries that the marks leave**: each mark takes the first entry of its id. -/
def unswept : Finset UUID → List QueueEntry → List QueueEntry
  | _, [] => []
  | r, e :: es => if e.jobId ∈ r then unswept (r.erase e.jobId) es else e :: unswept r es

/-- **What remains of the queue** once the marked entries are thrown away. -/
def remaining (q : ThreadSafePriorityQueue) : List QueueEntry := unswept q.removed q.heap

/-- Where no id has two entries, what remains is what is not marked. -/
theorem unswept_eq_unmarked (nodup : (ids es).Nodup) : unswept r es = unmarked r es := by
  induction es generalizing r with
  | nil => rfl
  | cons e es ih =>
    obtain ⟨hnew, hrest⟩ := List.nodup_cons.mp nodup
    rw [unswept]
    split
    · rename_i hmarked
      rw [ih hrest, unmarked_erase hnew, unmarked_cons_of_mem hmarked]
    · rename_i hmarked
      rw [ih hrest, unmarked_cons_of_notMem hmarked]

/-- **The live entries are what remains**, where the parts of the queue agree. -/
theorem Coherent.remaining_eq (h : q.Coherent) : q.remaining = q.live :=
  unswept_eq_unmarked h.nodup

/-! ## The two ways through the heap -/

theorem unswept_cleanup :
    unswept (cleanup es m r).removed (cleanup es m r).heap = unswept r es := by
  induction es generalizing m r with
  | nil => rfl
  | cons e es ih =>
    rw [cleanup]
    split
    · rename_i hmarked
      rw [ih, unswept, if_pos hmarked]
    · rfl

@[simp] theorem remaining_cleanupRemoved : q.cleanupRemoved.remaining = q.remaining :=
  unswept_cleanup

/-- The top of the cleaned heap is the first entry that remains. -/
theorem head?_cleanup : (cleanup es m r).heap.head? = (unswept r es).head? := by
  induction es generalizing m r with
  | nil => rfl
  | cons e es ih =>
    rw [cleanup, unswept]
    split
    · exact ih
    · rfl

/-- And the entry on top is not marked, for that is where the cleanup stops. -/
theorem notMem_removed_of_head? (h : (cleanup es m r).heap.head? = some e) :
    e.jobId ∉ (cleanup es m r).removed := by
  induction es generalizing m r with
  | nil => cases h
  | cons a es ih =>
    rw [cleanup] at h ⊢
    split at h
    · rename_i hmarked
      rw [if_pos hmarked]
      exact ih h
    · rename_i hmarked
      rw [if_neg hmarked]
      obtain rfl : a = e := Option.some.inj h
      exact hmarked

/-- Where nothing is marked at the top there is nothing to clean. -/
theorem cleanup_of_head? (h : ∀ e ∈ es.head?, e.jobId ∉ r) : cleanup es m r = ⟨es, m, r⟩ := by
  cases es with
  | nil => rfl
  | cons e es => exact if_neg (h e rfl)

theorem cleanup_cleanup (es : List QueueEntry) (m : OrderedDict UUID QueueEntry)
    (r : Finset UUID) :
    cleanup (cleanup es m r).heap (cleanup es m r).entryMap (cleanup es m r).removed
      = cleanup es m r :=
  cleanup_of_head? (fun _ he => notMem_removed_of_head? he)

/-- **Cleaning twice is cleaning once.** -/
@[simp] theorem cleanupRemoved_cleanupRemoved :
    q.cleanupRemoved.cleanupRemoved = q.cleanupRemoved := by
  have h := cleanup_cleanup q.heap q.entryMap q.removed
  unfold cleanupRemoved
  simp only [h]

/-- **The loop takes the first of the remaining entries that is due.** -/
theorem takeReady_fst (now : Time) (es : List QueueEntry) (m : OrderedDict UUID QueueEntry)
    (r : Finset UUID) : (takeReady now es m r).1 = (unswept r es).find? (due now) := by
  induction es generalizing m r with
  | nil => rfl
  | cons e es ih =>
    rw [takeReady, unswept]
    split
    · exact ih _ _
    · split
      · rename_i hdue
        rw [List.find?_cons_of_pos (by simpa [due] using hdue)]
      · rename_i hdue
        rw [List.find?_cons_of_neg (by simpa [due] using hdue)]
        exact ih m r

/-- **Where it takes nothing**, it leaves the remaining entries and nothing else. -/
theorem heap_takeReady (h : (takeReady now es m r).1 = none) :
    (takeReady now es m r).2.heap = unswept r es := by
  induction es generalizing m r with
  | nil => rfl
  | cons e es ih =>
    rw [takeReady] at h ⊢
    rw [unswept]
    split at h
    · rename_i hmarked
      rw [if_pos hmarked, if_pos hmarked]
      exact ih h
    · rename_i hmarked
      rw [if_neg hmarked, if_neg hmarked]
      split at h
      · cases h
      · rename_i hdue
        rw [if_neg hdue]
        exact congrArg (e :: ·) (ih h)

/-- **A dequeue takes the first of the remaining entries that is due**, in every state. -/
theorem dequeue_fst_eq (q : ThreadSafePriorityQueue) (now : Time) :
    (q.dequeue now).1 = (q.remaining.find? (due now)).map QueueEntry.jobId := by
  rw [dequeue_fst]
  refine congrArg (Option.map QueueEntry.jobId) ?_
  rw [nextReady, takeReady_fst]
  exact congrArg (List.find? (due now)) remaining_cleanupRemoved

/-- A dequeue that takes nothing leaves what remains once the marked entries are thrown away. -/
theorem heap_dequeue (h : (q.dequeue now).1 = none) : (q.dequeue now).2.heap = q.remaining := by
  rw [dequeue_fst, Option.map_eq_none_iff] at h
  exact (heap_takeReady h).trans remaining_cleanupRemoved

theorem dequeue_fst_eq_none_iff :
    (q.dequeue now).1 = none ↔ ∀ e ∈ q.remaining, now < e.scheduledTime := by
  rw [dequeue_fst_eq, Option.map_eq_none_iff, List.find?_eq_none]
  simp [due]

/-- **`peek_ready` shows the first of the remaining entries if it is due.** -/
theorem peekReady_fst_eq (q : ThreadSafePriorityQueue) (now : Time) :
    (q.peekReady now).1 = (q.remaining.head?.filter (due now)).map QueueEntry.jobId := by
  have hhead : q.cleanupRemoved.heap.head? = q.remaining.head? := head?_cleanup
  unfold peekReady
  refine congrArg (Option.map QueueEntry.jobId) ?_
  rw [← hhead]
  cases htop : q.cleanupRemoved.heap.head? with
  | none => rfl
  | some e =>
    have hmarked : e.jobId ∉ q.cleanupRemoved.removed := notMem_removed_of_head? htop
    simp [Option.filter, due, hmarked]

/-! ## Where they agree -/

/-- **`peek_ready` agrees with a dequeue** at a reading of the clock: it returns the same job, or
nothing where the dequeue finds nothing, and leaves what a dequeue after it does as it was. A
look that throws marked entries away does change the queue, but none of the answers it gives from
then on. -/
structure PeekAgrees (now : Time) (q : ThreadSafePriorityQueue) : Prop where
  same : (q.peekReady now).1 = (q.dequeue now).1
  none_iff : (q.peekReady now).1 = none ↔ (q.dequeue now).1 = none
  unchanged : ∀ later, (q.peekReady now).2.dequeue later = q.dequeue later

/-- **`peek_ready` changes nothing** about what is dequeued. It throws away marked entries that
the dequeue would have thrown away itself. -/
theorem dequeue_peekReady (q : ThreadSafePriorityQueue) (now later : Time) :
    (q.peekReady now).2.dequeue later = q.dequeue later := by
  show q.cleanupRemoved.cleanupRemoved.getReadyJob later = _
  rw [cleanupRemoved_cleanupRemoved]
  rfl

/-- The first element, if it passes, is the first that passes. Where one that does not pass is in
front of one that does, it is nothing. -/
theorem filter_head?_eq_none_iff {α : Type*} {p : α → Bool} {l : List α} :
    (l.head?.filter p = none ↔ l.find? p = none)
      ↔ (∃ a ∈ l.head?, p a = true) ∨ ∀ a ∈ l, p a = false := by
  cases l with
  | nil => simp
  | cons a l =>
    cases hp : p a with
    | true => simp [hp, Option.filter]
    | false => simp [hp, Option.filter]

theorem filter_head?_eq_find? {α : Type*} {p : α → Bool} {l : List α}
    (h : l.head?.filter p = none → l.find? p = none) : l.head?.filter p = l.find? p := by
  cases l with
  | nil => rfl
  | cons a l =>
    cases hp : p a with
    | true => simp [hp, Option.filter]
    | false =>
      have hnone : (a :: l).head?.filter p = none := by simp [hp, Option.filter]
      rw [hnone, h hnone]

/-- **Where `peek_ready` agrees with a dequeue**: where the first entry that remains is due, or
none is. In between it says that nothing is ready. -/
theorem peekAgrees_iff (q : ThreadSafePriorityQueue) (now : Time) :
    PeekAgrees now q ↔ (∃ e ∈ q.remaining.head?, e.scheduledTime ≤ now)
      ∨ ∀ e ∈ q.remaining, ¬ e.scheduledTime ≤ now := by
  have hcases := filter_head?_eq_none_iff (p := due now) (l := q.remaining)
  simp only [due, decide_eq_true_eq, decide_eq_false_iff_not] at hcases
  rw [← hcases]
  constructor
  · intro h
    have hnone := h.none_iff
    rw [peekReady_fst_eq, dequeue_fst_eq, Option.map_eq_none_iff, Option.map_eq_none_iff] at hnone
    exact hnone
  · intro h
    have hsame : (q.peekReady now).1 = (q.dequeue now).1 := by
      rw [peekReady_fst_eq, dequeue_fst_eq]
      exact congrArg (Option.map QueueEntry.jobId) (filter_head?_eq_find? h.mp)
    exact ⟨hsame, by rw [hsame], q.dequeue_peekReady now⟩

end ThreadSafePriorityQueue

namespace JobQueue

open ThreadSafePriorityQueue

/-- **They do not agree** where the most urgent job is scheduled for later: job 2 is at the top
and not due, job 1 is behind it and due. A pop takes job 1, and `peek_ready` finds no job. -/
theorem not_peekAgrees_future :
    let cs : List QueueCall :=
      [.assign { id := 2, priority := .critical, scheduledAt := some ⟨100, none⟩ }, .push 2,
        .push 1]
    let q := (History.after step (start .fresh none) cs).queue
    History.Admitted step PushesFresh (start .fresh none) cs
      ∧ (q.peekReady 5).1 = none ∧ (q.dequeue 5).1 = some 1 ∧ ¬ PeekAgrees 5 q := by
  intro cs q
  have hpeek : (q.peekReady 5).1 = none := by decide +kernel
  have hpop : (q.dequeue 5).1 = some 1 := by decide +kernel
  refine ⟨by decide +kernel, hpeek, hpop, fun h => ?_⟩
  rw [h.none_iff, hpop] at hpeek
  cases hpeek

end JobQueue

end JobOrchestrator
