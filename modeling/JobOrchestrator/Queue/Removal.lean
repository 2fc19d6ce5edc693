import JobOrchestrator.Queue.Drain

/-!
# Conservation and removal

A queue gives an id back as often as it was brought in, and not after a removal
until it is pushed again. It does where the id enters fresh. Where it does
not, `push`, `update_priority` and `reschedule` leave the old entry of the id
on the heap: the mark that should have it passed over is one of the id, and is taken
away in the same call for the sake of the new entry. Both entries are then live, and
both are popped.
-/

namespace JobOrchestrator

namespace JobQueue

open ThreadSafePriorityQueue

variable {s : JobQueue} {k : UUID}

/-! ## Conservation -/

/-- **Conservation, of an id that enters fresh.** After every history that it enters fresh in,
the pops that returned it are at most the calls that brought it in, and where the queue
does not contain it no pop returns it. Where all ids enter fresh a queue of length zero
yields nothing. -/
theorem pops_le_arrivals (jobs : JobTable) (maxSize : Option ℕ) (cs : List QueueCall) :
    (∀ k, History.Admitted step (EntersFresh k) (start jobs maxSize) cs →
      History.count step (pops k) (start jobs maxSize) cs
          ≤ History.count step (bringsIn k) (start jobs maxSize) cs
        ∧ ((History.after step (start jobs maxSize) cs).queue.contains k = false →
          ∀ now, (History.after step (start jobs maxSize) cs).pops k (.pop now) = false))
    ∧ ((∀ k, History.Admitted step (EntersFresh k) (start jobs maxSize) cs) →
      (History.after step (start jobs maxSize) cs).queue.len = 0 →
      ∀ now, ((History.after step (start jobs maxSize) cs).queue.dequeue now).1 = none) := by
  refine ⟨fun k fresh => ⟨?_, fun outside now => ?_⟩, fun fresh empty now => ?_⟩
  · have hledger := count_pops_add_le ((coherent_new maxSize).at k) fresh
    have hstart : (start jobs maxSize).queue.contains k = false := rfl
    rw [hstart] at hledger
    exact (Nat.le_add_right _ _).trans (hledger.trans (Nat.zero_add _).le)
  · have hcoh := History.invariant (P := fun s : JobQueue => s.queue.CoherentAt k) fresh
      ((coherent_new maxSize).at k) (fun _ _ h ok => coherentAt_step h ok)
    rw [← Bool.not_eq_true]
    intro hpop
    exact absurd (contains_of_pops hcoh hpop).1 (by rw [outside]; decide)
  · have hcoh := coherent_after fresh
    rw [hcoh.len_eq] at empty
    have hlive := List.length_eq_zero_iff.mp (Int.ofNat_eq_zero.mp empty)
    refine ((takesLeast_dequeue hcoh now).2 ?_).1
    rw [hlive]
    exact fun e he => absurd he List.not_mem_nil

/-- A job is pushed, popped, pushed again and removed. -/
theorem pops_le_arrivals_again :
    let cs : List QueueCall := [.push 1, .pop 0, .push 1, .remove 1, .pop 0]
    History.count step (pops 1) (start .fresh none) cs
        ≤ History.count step (bringsIn 1) (start .fresh none) cs
      ∧ History.count step (pops 1) (start .fresh none) cs = 1 :=
  ⟨((pops_le_arrivals .fresh none [.push 1, .pop 0, .push 1, .remove 1, .pop 0]).1 1
    (by decide +kernel)).1, by decide +kernel⟩

/-- **A job that is pushed twice, or whose priority is changed, is popped twice**: the
second time from a queue of length zero that does not contain it. -/
theorem pops_exceed_arrivals :
    (History.count step (pops 1) (start .fresh none) [.push 1, .push 1, .pop 0, .pop 0] = 2
        ∧ History.count step (bringsIn 1) (start .fresh none)
          [.push 1, .push 1, .pop 0, .pop 0] = 1)
      ∧ ((History.after step (start .fresh none) [.push 1, .push 1, .pop 0]).queue.len = 0
        ∧ (History.after step (start .fresh none)
          [.push 1, .push 1, .pop 0]).queue.contains 1 = false
        ∧ (History.after step (start .fresh none)
          [.push 1, .push 1, .pop 0]).pops 1 (.pop 0) = true)
      ∧ History.count step (pops 1) (start .fresh none)
        [.push 1, .updatePriority 1 .low, .pop 0, .pop 0] = 2
      ∧ History.count step (pops 1) (start .fresh none)
        [.push 1, .reschedule 1 ⟨0, none⟩, .pop 0, .pop 0] = 2 := by
  decide +kernel

/-! ## Removal -/

/-- **One pop can return the id, in the place of an entry**: until it is pushed again at most one
pop returns it, a pop that does takes that entry, which is due and before every live entry that
is due, and there are pops that return it. The last clause keeps the first two from being empty:
the id can indeed come out. -/
structure ReturnedOnce (k : UUID) (e : QueueEntry) (s : JobQueue) : Prop where
  once : ∀ cs, History.Admitted step (EntersFresh k) s cs → (∀ c ∈ cs, c ≠ .push k) →
    History.count step (pops k) s cs ≤ 1
  placed : ∀ cs, History.Admitted step (EntersFresh k) s cs → (∀ c ∈ cs, c ≠ .push k) →
    ∀ now, (History.after step s cs).pops k (.pop now) = true →
      (History.after step s cs).queue.nextReady now = some e ∧ e.scheduledTime ≤ now
        ∧ ∀ e' ∈ (History.after step s cs).queue.live, e'.scheduledTime ≤ now → e.le e'
  possible : ∃ now n, (History.after step s (List.replicate n (.pop now))).pops k (.pop now) = true

/-- The map has no other entry of the id. -/
def EntryIs (k : UUID) (e : QueueEntry) (q : ThreadSafePriorityQueue) : Prop :=
  ∀ e', q.entryMap.get? k = some e' → e' = e

/-- A call that does not bring the id in keeps its entry in the map, or takes it out. -/
theorem entryIs_step {e : QueueEntry} (h : EntryIs k e s.queue) {c : QueueCall}
    (fresh : s.EntersFresh k c) (noPush : c ≠ .push k) : EntryIs k e (s.step c).queue := by
  have heffect := s.effect c
  generalize (s.step c).queue = q' at heffect ⊢
  cases heffect with
  | same => exact h
  | insert c job enters =>
    have hne : k ≠ job.id := by
      rintro rfl
      rcases enters with ⟨rfl, -⟩ | ⟨hk, ⟨p, rfl⟩ | ⟨t, rfl⟩⟩
      · exact noPush rfl
      · exact absurd hk (by rw [fresh rfl]; decide)
      · exact absurd hk (by rw [fresh rfl]; decide)
    intro e' he'
    rw [show (s.queue.insert job).entryMap.get? k = s.queue.entryMap.get? k
      from OrderedDict.get?_set_ne _ _ hne] at he'
    exact h e' he'
  | remove jobId =>
    rcases remove_cases s.queue jobId with ⟨-, heq⟩ | ⟨-, heq⟩
    · rw [heq]
      exact h
    · rw [heq]
      exact h
  | pop now => exact fun e' he' => h e' (get?_of_dequeue he')
  | clean => exact fun e' he' => h e' (get?_of_cleanup he')
  | clear =>
    intro e' he'
    cases he'

theorem queue_push (room : s.queue.full = false) :
    (s.step (.push k)).queue = s.queue.insert (s.jobs.get k) := by
  show (s.queue.push (s.jobs.get k)).2 = _
  rw [ThreadSafePriorityQueue.push, room]
  rfl

/-- A push makes the entry of the id, whatever the map had for it before. -/
theorem entryIs_push (room : s.queue.full = false) :
    EntryIs k (s.entryFor k) (s.step (.push k)).queue := by
  intro e' he'
  rw [queue_push room, show (s.queue.insert (s.jobs.get k)).entryMap
    = s.queue.entryMap.set (s.jobs.get k).id (s.entryFor k) from rfl, s.jobs.id_get k,
    OrderedDict.get?_set_self] at he'
  exact (Option.some.inj he').symm

/-- What was pushed can be popped. Enough pops at a late enough time take everything before it,
and then this. -/
theorem exists_pops_push (room : s.queue.full = false) :
    ∃ now n, (History.after step (s.step (.push k)) (List.replicate n (.pop now))).pops k
      (.pop now) = true := by
  obtain ⟨now, hdue⟩ := exists_allDue (s.step (.push k)).queue
  have hmark : k ∉ (s.step (.push k)).queue.removed := by
    rw [queue_push room]
    show k ∉ s.queue.removed.erase (s.jobs.get k).id
    rw [s.jobs.id_get k]
    exact Finset.notMem_erase k _
  have hon : (s.step (.push k)).queue.OnHeap k := by
    rw [queue_push room, onHeap_insert, s.jobs.id_get k]
    exact Or.inl rfl
  obtain ⟨n, hpop, -⟩ := exists_pops _ hdue hmark hon
  exact ⟨now, n, hpop⟩

/-- **A job that is pushed fresh is returned once, in the place of its new entry.** -/
theorem returnedOnce_push (h : s.queue.CoherentAt k) (room : s.queue.full = false)
    (fresh : ¬ s.queue.OnHeap k) : ReturnedOnce k (s.entryFor k) (s.step (.push k)) := by
  have hcoh : (s.step (.push k)).queue.CoherentAt k :=
    coherentAt_step h (fun _ _ => fresh)
  refine ⟨fun cs hfresh hpush => ?_, fun cs hfresh hpush now hpop => ?_, exists_pops_push room⟩
  · exact (count_pops_le hcoh hfresh hpush).trans (Bool.toNat_le _)
  · obtain ⟨hcoh', hentry'⟩ := History.invariant
      (P := fun t : JobQueue => t.queue.CoherentAt k ∧ EntryIs k (s.entryFor k) t.queue)
      (hfresh.and_forall hpush) ⟨hcoh, entryIs_push room⟩
      (fun _ _ ht ok => ⟨coherentAt_step ht.1 ok.1, entryIs_step ht.2 ok.1 ok.2⟩)
    obtain ⟨e, hnext, he⟩ := Option.map_eq_some_iff.mp (of_decide_eq_true hpop)
    obtain ⟨hmem, hdue, hleast⟩ := nextReady_least hnext
    obtain rfl : e = s.entryFor k := hentry' e ((hcoh'.mapped e).mpr ⟨hmem, he⟩)
    exact ⟨hnext, hdue, hleast⟩

/-- **The removal law, of an id that enters fresh.** After `remove` no pop returns the id until it
is pushed, at whatever reading of the clock. Once it is pushed, with no entry of it on the
heap, one pop can return it, in the place of the entry that the push made. -/
theorem removed_until_pushed {jobs : JobTable} {maxSize : Option ℕ} {k : UUID}
    {cs ds : List QueueCall}
    (fresh : History.Admitted step (EntersFresh k) (start jobs maxSize) (cs ++ .remove k :: ds))
    (noPush : ∀ c ∈ ds, c ≠ .push k) :
    History.count step (pops k)
        ((History.after step (start jobs maxSize) cs).step (.remove k)) ds = 0
      ∧ ((History.after step (start jobs maxSize) (cs ++ .remove k :: ds)).queue.full = false →
        ¬ (History.after step (start jobs maxSize) (cs ++ .remove k :: ds)).queue.OnHeap k →
        ReturnedOnce k
          ((History.after step (start jobs maxSize) (cs ++ .remove k :: ds)).entryFor k)
          ((History.after step (start jobs maxSize) (cs ++ .remove k :: ds)).step (.push k))) := by
  have hkept : ∀ (s : JobQueue) c, s.queue.CoherentAt k → s.EntersFresh k c →
      (s.step c).queue.CoherentAt k := fun _ _ h ok => coherentAt_step h ok
  have hstart : (start jobs maxSize).queue.CoherentAt k := (coherent_new maxSize).at k
  refine ⟨?_, returnedOnce_push (History.invariant fresh hstart hkept)⟩
  obtain ⟨hbefore, -, hafter⟩ := (History.admitted_append _ _ _).mp fresh
  exact count_pops_remove (History.invariant hbefore hstart hkept) hafter noPush

/-- A job is pushed and removed, its entry is thrown away, and it is pushed again. -/
theorem removed_until_pushed_again :
    let s := History.after step (start .fresh none) [.push 1, .remove 1, .pop 0]
    History.count step (pops 1)
        ((History.after step (start .fresh none) [.push 1]).step (.remove 1)) [.pop 0] = 0
      ∧ ReturnedOnce 1 (s.entryFor 1) (s.step (.push 1)) :=
  have hfresh : History.Admitted step (EntersFresh 1) (start .fresh none)
      ([.push 1] ++ .remove 1 :: [.pop 0]) := by decide +kernel
  ⟨(removed_until_pushed hfresh (by simp)).1,
    (removed_until_pushed hfresh (by simp)).2 (by decide +kernel) (by decide +kernel)⟩

/-- **A removed job is popped.** Where it was pushed twice, the mark takes one of its two
entries away and a pop returns the other. Where it is pushed again while its old entry is on
the heap, two pops return it, and the first one in the place of the old entry: here before a
job of normal priority, while the priority of the entry that the push made is the lowest. -/
theorem removed_popped :
    ((History.after step (start .fresh none) [.push 1, .push 1]).queue.remove 1).1 = true
      ∧ History.count step (pops 1)
        (History.after step (start .fresh none) [.push 1, .push 1, .remove 1]) [.pop 0] = 1
      ∧ ((History.after step (start .fresh none)
        [.assign { id := 1, priority := .critical }, .push 1]).queue.remove 1).1 = true
      ∧ (∃ e e' : QueueEntry,
        (History.after step (start .fresh none) [.assign { id := 1, priority := .critical },
          .push 1, .remove 1, .assign { id := 1, priority := .background }, .push 1,
          .push 2]).queue.entryMap.get? 1 = some e
        ∧ (History.after step (start .fresh none) [.assign { id := 1, priority := .critical },
          .push 1, .remove 1, .assign { id := 1, priority := .background }, .push 1,
          .push 2]).queue.entryMap.get? 2 = some e' ∧ e'.scheduledTime ≤ 0 ∧ ¬ e.le e')
      ∧ (History.after step (start .fresh none) [.assign { id := 1, priority := .critical },
          .push 1, .remove 1, .assign { id := 1, priority := .background }, .push 1,
          .push 2]).pops 1 (.pop 0) = true
      ∧ History.count step (pops 1) (History.after step (start .fresh none)
        [.assign { id := 1, priority := .critical }, .push 1, .remove 1,
          .assign { id := 1, priority := .background }, .push 1, .push 2])
        [.pop 0, .pop 0, .pop 0] = 2 := by
  refine ⟨by decide +kernel, by decide +kernel, by decide +kernel, ⟨⟨4, 0, 1, 1⟩, ⟨2, 0, 2, 2⟩, ?_⟩,
    by decide +kernel, by decide +kernel⟩
  decide +kernel

end JobQueue

end JobOrchestrator
