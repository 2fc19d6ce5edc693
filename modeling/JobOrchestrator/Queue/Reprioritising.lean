import JobOrchestrator.Queue.Drain

/-!
# Changing the priority or the time of a job in the queue

`update_priority` and `reschedule` mark the old entry of the id as removed, insert
the new one, and take the mark away again, since it would hold for the new entry
too. So the old entry stays live beside the new one. Whichever of the two comes
first, both are popped: the job is returned in the place the change should have
taken from it, or once more after it has left the queue.
-/

namespace JobOrchestrator

namespace JobQueue

open ThreadSafePriorityQueue

variable {s : JobQueue} {k : UUID}

/-- **The map is to the heap**, whatever is called. -/
theorem mapsToHeap_step (h : MapsToHeap s.queue.heap s.queue.entryMap) (c : QueueCall) :
    MapsToHeap (s.step c).queue.heap (s.step c).queue.entryMap := by
  have heffect := s.effect c
  generalize (s.step c).queue = q' at heffect ⊢
  cases heffect with
  | same => exact h
  | insert c job => exact h.insert job
  | remove jobId => exact h.remove jobId
  | pop now => exact h.dequeue now
  | clean => exact h.cleanup
  | clear =>
    intro k e he
    cases he

/-- The calls that do not change an id: calls for others, pops and looks. -/
def LeavesAlone (k : UUID) : QueueCall → Prop
  | .assign job => job.id ≠ k
  | .push jobId | .updatePriority jobId _ | .reschedule jobId _ | .remove jobId => jobId ≠ k
  | .pop _ | .peek | .peekReady _ => True
  | .clear => False

/-- **The change of a job has taken effect.** Until the id is changed again, a pop returns
it only with the entry that the map has for it now, which is due, and which comes before
the entries of the map that are due and not removed. -/
def TakesEffect (k : UUID) (s : JobQueue) : Prop :=
  ∀ cs, (∀ c ∈ cs, LeavesAlone k c) → ∀ now, (History.after step s cs).pops k (.pop now) = true →
    ∃ e, s.queue.entryMap.get? k = some e
      ∧ (History.after step s cs).queue.entryMap.get? k = some e ∧ e.scheduledTime ≤ now
      ∧ ∀ k' e', (History.after step s cs).queue.entryMap.get? k' = some e' →
        k' ∉ (History.after step s cs).queue.removed → e'.scheduledTime ≤ now → e.le e'

/-- Pops put nothing in the map, so an id that is not in it does not come back. -/
theorem get?_after_pops (h : s.queue.entryMap.get? k = none) {now : Time} {n : ℕ} :
    (History.after step s (List.replicate n (.pop now))).queue.entryMap.get? k = none := by
  have hpops : History.Admitted step (fun _ c => c = .pop now) s
      (List.replicate n (.pop now)) :=
    History.admitted_of_forall (fun _ hc _ => List.eq_of_mem_replicate hc)
  refine History.invariant (P := fun t : JobQueue => t.queue.entryMap.get? k = none) hpops h ?_
  rintro t c ht rfl
  rw [Option.eq_none_iff_forall_ne_some] at ht ⊢
  exact fun e he => ht e (get?_of_dequeue he)

/-- **Two live entries of an id are both popped**, the second time when the map has no
entry of it. -/
theorem not_takesEffect_of_two (marked : k ∉ s.queue.removed)
    (two : 2 ≤ (ids s.queue.heap).count k) : ¬ TakesEffect k s := by
  intro htakes
  obtain ⟨now, hdue⟩ := exists_allDue s.queue
  have hon : s.queue.OnHeap k := List.count_pos_iff.mp (by omega)
  obtain ⟨n, -, hfirst⟩ := exists_pops s hdue marked hon
  obtain ⟨hdue', hmark', hgone, hcount⟩ := hfirst _ rfl
  have hon' : (History.after step s (List.replicate (n + 1) (.pop now))).queue.OnHeap k :=
    List.count_pos_iff.mp (by omega)
  obtain ⟨n', hpop, -⟩ := exists_pops _ hdue' hmark' hon'
  rw [← History.after_append] at hpop
  have halone : ∀ c ∈ List.replicate (n + 1) (QueueCall.pop now) ++ List.replicate n' (.pop now),
      LeavesAlone k c := by
    intro c hc
    rw [List.replicate_append_replicate] at hc
    rw [List.eq_of_mem_replicate hc]
    exact trivial
  obtain ⟨e, -, hmapped, -⟩ := htakes _ halone now hpop
  -- the map has no entry of the id since the first of the two pops
  rw [History.after_append, get?_after_pops (OrderedDict.get?_eq_none_iff.mpr hgone)] at hmapped
  cases hmapped

/-- Entering a contained job again leaves it with two live entries. -/
theorem two_of_reenter (h : MapsToHeap s.queue.heap s.queue.entryMap)
    (contained : s.queue.contains k = true) (change : Job → Job) :
    k ∉ (s.reenter k change).2.queue.removed
      ∧ 2 ≤ (ids (s.reenter k change).2.queue.heap).count k := by
  obtain ⟨-, job, rfl, heq⟩ | ⟨hout, -⟩ := s.reenter_cases k change
  · rw [heq]
    refine ⟨Finset.notMem_erase _ _, ?_⟩
    obtain ⟨hkey, -⟩ := of_decide_eq_true contained
    obtain ⟨e, he⟩ := OrderedDict.mem_keys_iff.mp hkey
    have hold : 0 < (ids s.queue.heap).count job.id :=
      List.count_pos_iff.mpr (mem_ids.mpr ⟨e, h _ _ he⟩)
    have hperm := List.perm_orderedInsert QueueEntry.le (s.queue.entryFor job) s.queue.heap
    have hcount : (ids (s.queue.insert job).heap).count job.id
        = (job.id :: ids s.queue.heap).count job.id :=
      (hperm.map QueueEntry.jobId).count_eq job.id
    rw [hcount, List.count_cons_self]
    omega
  · exact absurd contained (by rw [hout]; decide)

/-- **Changing the priority or the time of a contained job never takes effect**: after
every history, for every id that the queue contains and every new priority or time. -/
theorem not_takesEffect {jobs : JobTable} {maxSize : Option ℕ} {cs : List QueueCall} {k : UUID}
    (contained : (History.after step (start jobs maxSize) cs).queue.contains k = true) :
    (∀ p, ¬ TakesEffect k ((History.after step (start jobs maxSize) cs).updatePriority k p).2)
      ∧ ∀ t, ¬ TakesEffect k ((History.after step (start jobs maxSize) cs).reschedule k t).2 := by
  have hstart : MapsToHeap (start jobs maxSize).queue.heap (start jobs maxSize).queue.entryMap :=
    fun _ _ he => by cases he
  have hmaps := History.invariant_of_kept
    (P := fun s : JobQueue => MapsToHeap s.queue.heap s.queue.entryMap) hstart
    (fun _ c h => mapsToHeap_step h c) cs
  constructor
  · intro p
    obtain ⟨hmark, htwo⟩ := two_of_reenter hmaps contained
      (fun job => { job with priority := p })
    exact not_takesEffect_of_two hmark htwo
  · intro t
    obtain ⟨hmark, htwo⟩ := two_of_reenter hmaps contained
      (fun job => { job with scheduledAt := some t })
    exact not_takesEffect_of_two hmark htwo

/-- The priority of the only job is lowered. -/
theorem not_takesEffect_only :
    ¬ TakesEffect 1 ((History.after step (start .fresh none) [.push 1]).updatePriority 1 .low).2 :=
  have hcontained : (History.after step (start .fresh none) [.push 1]).queue.contains 1 = true := by
    decide +kernel
  (not_takesEffect hcontained).1 .low

/-- **The entry of before overrides the change.** A job whose priority is lowered below that
of another is still popped first, and a job that is postponed is popped before its new
time. -/
theorem lowered_and_postponed :
    ¬ TakesEffect 1 ((History.after step (start .fresh none)
        [.assign { id := 1, priority := .high }, .push 1, .push 2]).updatePriority 1
          .background).2
      ∧ ¬ TakesEffect 1
        ((History.after step (start .fresh none) [.push 1]).reschedule 1 ⟨100, none⟩).2 := by
  constructor
  · intro h
    obtain ⟨e, hnew, -, -, hleast⟩ := h [] (fun _ hc => absurd hc List.not_mem_nil) 0
      (by decide +kernel)
    obtain rfl : (⟨4, 0, 2, 1⟩ : QueueEntry) = e := Option.some.inj
      (Eq.trans (by decide +kernel) hnew)
    exact absurd (hleast 2 ⟨2, 0, 1, 2⟩ (by decide +kernel) (by decide +kernel)
      (by decide +kernel)) (by decide +kernel)
  · intro h
    obtain ⟨e, hnew, -, hdue, -⟩ := h [] (fun _ hc => absurd hc List.not_mem_nil) 0
      (by decide +kernel)
    obtain rfl : (⟨2, 100, 1, 1⟩ : QueueEntry) = e := Option.some.inj
      (Eq.trans (by decide +kernel) hnew)
    exact absurd hdue (by decide +kernel)

end JobQueue

end JobOrchestrator
