import Mathlib.Logic.Relation
import JobOrchestrator.Queue.Order

/-!
# One job in the queue while others come and go

What becomes of one id while other ids are pushed, removed and popped: an entry of it that
waits keeps waiting, with its time, and an id without an entry gets none. Nothing is asked of
the other ids. An entry that is due makes sure that a pop finds something, and a pop that
returns the id takes an entry of it that is due.
-/

namespace JobOrchestrator

namespace ThreadSafePriorityQueue

variable {q q' : ThreadSafePriorityQueue} {k : UUID} {e : QueueEntry}

/-- **An entry of the id waits**, and no other. -/
structure WaitsAs (k : UUID) (e : QueueEntry) (q : ThreadSafePriorityQueue) : Prop where
  coherent : q.CoherentAt k
  entry : q.entryMap.get? k = some e
  unmarked : k ∉ q.removed

/-- **The queue has no entry of the id.** -/
structure Lacks (k : UUID) (q : ThreadSafePriorityQueue) : Prop where
  coherent : q.CoherentAt k
  offHeap : ¬ q.OnHeap k

/-- **What other ids bring about.** A step that is about other jobs does one of these to the
queue, or several, one after the other. -/
inductive OthersMove (k : UUID) (q : ThreadSafePriorityQueue) : ThreadSafePriorityQueue → Prop
  | insert (job : Job) (other : job.id ≠ k) : OthersMove k q (q.insert job)
  | remove (jobId : UUID) (other : jobId ≠ k) : OthersMove k q (q.remove jobId).2
  | dequeue (now : Time) (other : (q.dequeue now).1 ≠ some k) : OthersMove k q (q.dequeue now).2

namespace WaitsAs

theorem contains (h : q.WaitsAs k e) : q.contains k = true := by
  rw [ThreadSafePriorityQueue.contains, decide_eq_true_eq, OrderedDict.mem_keys_iff]
  exact ⟨⟨e, h.entry⟩, h.unmarked⟩

theorem jobId (h : q.WaitsAs k e) : e.jobId = k := ((h.coherent.mapped e).mp h.entry).2

/-- The entry is live. -/
theorem mem_live (h : q.WaitsAs k e) : e ∈ q.live := by
  refine mem_unmarked.mpr ⟨((h.coherent.mapped e).mp h.entry).1, ?_⟩
  rw [h.jobId]
  exact h.unmarked

theorem othersMove (h : q.WaitsAs k e) (move : OthersMove k q q') : q'.WaitsAs k e := by
  cases move with
  | insert job other =>
    refine ⟨h.coherent.insert (fun heq => absurd heq.symm other), ?_, ?_⟩
    · show (q.entryMap.set job.id _).get? k = some e
      rw [OrderedDict.get?_set_ne _ _ (Ne.symm other)]
      exact h.entry
    · exact fun hmem => h.unmarked (Finset.mem_of_mem_erase hmem)
  | remove jobId other =>
    refine ⟨h.coherent.remove jobId, ?_, ?_⟩
    · rcases remove_cases q jobId with ⟨-, heq⟩ | ⟨-, heq⟩ <;> rw [heq] <;> exact h.entry
    · rcases remove_cases q jobId with ⟨-, heq⟩ | ⟨-, heq⟩ <;> rw [heq]
      · exact fun hmem => (Finset.mem_insert.mp hmem).elim (fun heq => other heq.symm) h.unmarked
      · exact h.unmarked
  | dequeue now other =>
    obtain ⟨hcoherent, hcontains, -⟩ := h.coherent.dequeue now
    have hstill := hcontains.mpr ⟨h.contains, other⟩
    rw [ThreadSafePriorityQueue.contains, decide_eq_true_eq, OrderedDict.mem_keys_iff] at hstill
    obtain ⟨⟨e', he'⟩, hunmarked⟩ := hstill
    have hsame : some e' = some e := (get?_of_dequeue he').symm.trans h.entry
    exact ⟨hcoherent, he'.trans hsame, hunmarked⟩

end WaitsAs

namespace Lacks

theorem new (maxSize : Option ℕ) (k : UUID) : (new maxSize).Lacks k where
  coherent := (coherent_new maxSize).at k
  offHeap := List.not_mem_nil

theorem othersMove (h : q.Lacks k) (move : OthersMove k q q') : q'.Lacks k := by
  cases move with
  | insert job other =>
    refine ⟨h.coherent.insert (fun heq => absurd heq.symm other), ?_⟩
    rw [onHeap_insert, not_or]
    exact ⟨Ne.symm other, h.offHeap⟩
  | remove jobId other =>
    refine ⟨h.coherent.remove jobId, ?_⟩
    unfold OnHeap
    rw [heap_remove]
    exact h.offHeap
  | dequeue now other =>
    exact ⟨(h.coherent.dequeue now).1, fun hk => h.offHeap (onHeap_of_dequeue hk)⟩

theorem contains (h : q.Lacks k) : q.contains k = false := by
  rw [Bool.eq_false_iff]
  exact fun hk => h.offHeap ((contains_iff_live h.coherent).mp hk).1

/-- What is not in the queue is not popped. -/
theorem dequeue_ne (h : q.Lacks k) (now : Time) : (q.dequeue now).1 ≠ some k := by
  intro hk
  have hin := ((h.coherent.dequeue now).2.2 hk).1
  rw [h.contains] at hin
  cases hin

/-- **A push** makes its entry wait. The queue had no other entry of the job, so there is one
that waits and no older one beside it. -/
theorem insert {job : Job} (h : q.Lacks job.id) :
    (q.insert job).WaitsAs job.id (q.entryFor job) where
  coherent := h.coherent.insert (fun _ => h.offHeap)
  entry := OrderedDict.get?_set_self _ _ _
  unmarked := Finset.notMem_erase _ _

end Lacks

/-- **A pop of the id**: its entry was due, and it has none left. -/
theorem WaitsAs.popped (h : q.WaitsAs k e) {now : Time} (popped : (q.dequeue now).1 = some k) :
    e.scheduledTime ≤ now ∧ (q.dequeue now).2.Lacks k := by
  obtain ⟨hcoherent, -, htaken⟩ := h.coherent.dequeue now
  refine ⟨?_, hcoherent, (htaken popped).2⟩
  rw [dequeue_fst, Option.map_eq_some_iff] at popped
  obtain ⟨e', hnext, hid⟩ := popped
  obtain ⟨hmem, hdue, -⟩ := nextReady_least hnext
  have hentry := (h.coherent.mapped e').mpr ⟨hmem, hid⟩
  rw [← Option.some.inj (hentry.symm.trans h.entry)]
  exact hdue

/-- The loop takes something, where an unmarked entry is due. -/
theorem takeReady_ne_none {now : Time} {es : List QueueEntry} {m : OrderedDict UUID QueueEntry}
    {r : Finset UUID} (live : e ∈ unmarked r es) (due : e.scheduledTime ≤ now) :
    (takeReady now es m r).1 ≠ none := by
  induction es generalizing m r with
  | nil => cases live
  | cons a es ih =>
    rw [takeReady]
    split
    · -- a marked entry is thrown away, and the mark with it
      rename_i hmarked
      rw [unmarked_cons_of_mem hmarked] at live
      obtain ⟨hmem, hout⟩ := mem_unmarked.mp live
      exact ih (mem_unmarked.mpr ⟨hmem, fun h => hout (Finset.mem_of_mem_erase h)⟩)
    · rename_i hmarked
      split
      · simp
      · rename_i hlate
        rw [unmarked_cons_of_notMem hmarked] at live
        rcases List.mem_cons.mp live with rfl | hmem
        · exact absurd due hlate
        · exact ih hmem

/-- **An entry that is due** makes sure that a pop finds something. -/
theorem dequeue_ne_none {now : Time} (live : e ∈ q.live) (due : e.scheduledTime ≤ now) :
    (q.dequeue now).1 ≠ none := by
  rw [dequeue_fst, ne_eq, Option.map_eq_none_iff]
  exact takeReady_ne_none (mem_cleanup q.entryMap q.removed live) due

/-- **A pop takes the entry that comes first**: none is popped while one of a smaller priority
is due. -/
theorem WaitsAs.not_popped (h : q.WaitsAs k e) {now : Time} {e' : QueueEntry} (live : e' ∈ q.live)
    (due : e'.scheduledTime ≤ now) (before : e'.priority < e.priority) :
    (q.dequeue now).1 ≠ some k := by
  intro hpopped
  rw [dequeue_fst, Option.map_eq_some_iff] at hpopped
  obtain ⟨e'', hnext, hid⟩ := hpopped
  obtain ⟨hmem, -, hleast⟩ := nextReady_least hnext
  have hentry := (h.coherent.mapped e'').mpr ⟨hmem, hid⟩
  have hle := hleast e' live due
  rw [Option.some.inj (hentry.symm.trans h.entry)] at hle
  unfold QueueEntry.le at hle
  omega

/-- The moves of others, one after the other. Each of them leaves the entry of this id where it
is, so all of them do. -/
theorem WaitsAs.othersMoves (h : q.WaitsAs k e)
    (moves : Relation.ReflTransGen (OthersMove k) q q') : q'.WaitsAs k e := by
  induction moves with
  | refl => exact h
  | tail _ move ih => exact ih.othersMove move

theorem Lacks.othersMoves (h : q.Lacks k)
    (moves : Relation.ReflTransGen (OthersMove k) q q') : q'.Lacks k := by
  induction moves with
  | refl => exact h
  | tail _ move ih => exact ih.othersMove move

/-- **The queue is open**: unbounded, and not shut down. -/
structure Open (q : ThreadSafePriorityQueue) : Prop where
  maxSize : q.maxSize = none
  shutdown : q.shutdown = false

/-- A queue without a bound is never full. -/
theorem Open.full (h : q.Open) : q.full = false := by
  unfold ThreadSafePriorityQueue.full
  rw [h.maxSize]

theorem Open.insert (h : q.Open) (job : Job) : (q.insert job).Open := ⟨h.maxSize, h.shutdown⟩

theorem Open.dequeue (h : q.Open) (now : Time) : (q.dequeue now).2.Open := ⟨h.maxSize, h.shutdown⟩

theorem Open.othersMoves (h : q.Open) (moves : Relation.ReflTransGen (OthersMove k) q q') :
    q'.Open := by
  induction moves with
  | refl => exact h
  | tail _ move ih =>
    cases move with
    | insert job => exact ih.insert job
    | remove jobId =>
      rcases remove_cases _ jobId with ⟨-, heq⟩ | ⟨-, heq⟩ <;> rw [heq] <;>
        exact ⟨ih.maxSize, ih.shutdown⟩
    | dequeue now => exact ih.dequeue now

end ThreadSafePriorityQueue

end JobOrchestrator
