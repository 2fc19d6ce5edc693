import JobOrchestrator.Scheduler.Preservation

/-!
# Schedulers that differ in times only

Two executions of one job that were reported in different ways can leave
different times and tracebacks on the job object, where nothing else
differs. `Alike` is the relation that allows just this, first of the part
below the executor and then of the scheduler, and every operation that a
report is made of keeps it.
-/

namespace JobOrchestrator

/-- A job without its times of execution and its traceback. -/
def Job.blurred (j : Job) : Job :=
  { j with startedAt := none, completedAt := none, traceback := none }

namespace SchedulerCore

/-- **Two cores that differ in the times and the traceback of one job.** They are what is left of
two reports of the same failure once the clock has been read at different moments. -/
structure Alike (job : UUID) (c c' : SchedulerCore) : Prop where
  others : ∀ k, k ≠ job → c'.jobs.get k = c.jobs.get k
  own : (c'.jobs.get job).blurred = (c.jobs.get job).blurred
  store : c'.store = c.store
  queue : c'.queue = c.queue
  maxSize : c'.maxSize = c.maxSize
  stats : c'.stats = c.stats

namespace Alike

variable {job : UUID} {c c' : SchedulerCore}

theorem trans {c'' : SchedulerCore} (h : Alike job c c') (h' : Alike job c' c'') :
    Alike job c c'' where
  others k hk := (h'.others k hk).trans (h.others k hk)
  own := h'.own.trans h.own
  store := h'.store.trans h.store
  queue := h'.queue.trans h.queue
  maxSize := h'.maxSize.trans h.maxSize
  stats := h'.stats.trans h.stats

/-- A field that is not blurred is the same. -/
theorem field {α : Type*} (h : Alike job c c') (f : Job → α) (hf : ∀ j, f j.blurred = f j)
    (k : UUID) : f (c'.jobs.get k) = f (c.jobs.get k) := by
  by_cases hk : k = job
  · rw [hk, ← hf, h.own, hf]
  · rw [h.others k hk]

theorem state (h : Alike job c c') (k : UUID) : c'.state k = c.state k :=
  h.field Job.state (fun _ => rfl) k

/-- Assigning alike fields of one job. What is assigned may differ in the times and the traceback
again, and in nothing else. -/
theorem modifyJob (h : Alike job c c') {f f' : Job → Job}
    (hf : ∀ j j' : Job, j'.blurred = j.blurred → (f' j').blurred = (f j).blurred) :
    Alike job (c.modifyJob job f) (c'.modifyJob job f') where
  others k hk := by
    unfold SchedulerCore.modifyJob
    simp only [JobTable.get_modify_of_ne _ hk]
    exact h.others k hk
  own := by
    unfold SchedulerCore.modifyJob
    simp only [JobTable.get_modify_self]
    exact congrArg (fun j : Job => { j with id := job }) (hf _ _ h.own)
  store := h.store
  queue := h.queue
  maxSize := h.maxSize
  stats := h.stats

/-- Assigning the same state to any job: the test whether it may be assigned has the same answer,
too. -/
theorem setState (h : Alike job c c') (k : UUID) (target : JobState) :
    Alike job (c.setState k target) (c'.setState k target) := by
  by_cases hk : k = job
  · subst hk
    exact h.modifyJob (fun j j' hj => congrArg (fun j : Job => { j with state := target }) hj)
  · refine ⟨fun k' hk' => ?_, ?_, h.store, h.queue, h.maxSize, h.stats⟩
    · unfold SchedulerCore.setState SchedulerCore.modifyJob
      by_cases hkk : k' = k
      · simp only [hkk, JobTable.get_modify_self, h.others k hk]
      · simp only [JobTable.get_modify_of_ne _ hkk, h.others k' hk']
    · unfold SchedulerCore.setState SchedulerCore.modifyJob
      simp only [JobTable.get_modify_of_ne _ (Ne.symm hk)]
      exact h.own

/-- A transition is possible in both or in none. -/
theorem transition (h : Alike job c c') (k : UUID) (target : JobState) :
    (∃ d d', c.transition k target = .ok d ∧ c'.transition k target = .ok d' ∧ Alike job d d')
      ∨ ∃ error, c.transition k target = .error error ∧ c'.transition k target = .error error := by
  unfold SchedulerCore.transition
  rw [h.state k]
  split
  · have hset := h.setState k target
    refine Or.inl ⟨_, _, rfl, rfl, hset.others, hset.own, ?_, hset.queue, hset.maxSize, hset.stats⟩
    simp only [h.store]
  · exact Or.inr ⟨_, rfl, rfl⟩

/-- The queue takes the job the same way: an entry is made of fields that do not differ. -/
theorem push (h : Alike job c c') (k : UUID) :
    c'.queue.push (c'.jobs.get k) = c.queue.push (c.jobs.get k) := by
  have hpriority := h.field Job.priority (fun _ => rfl) k
  have hscheduled := h.field Job.scheduledAt (fun _ => rfl) k
  have hcreated := h.field Job.createdAt (fun _ => rfl) k
  have hid := h.field Job.id (fun _ => rfl) k
  unfold ThreadSafePriorityQueue.push ThreadSafePriorityQueue.insert
    ThreadSafePriorityQueue.entryFor
  simp only [h.queue, hpriority, hscheduled, hcreated, hid]

/-- **`submit`** answers alike. It reads the state of the job and the size of the queue, and
these are the same. -/
theorem submit (h : Alike job c c') (k : UUID) :
    (c'.submit k).2 = (c.submit k).2 ∧ Alike job (c.submit k).1 (c'.submit k).1 := by
  have hcap : c'.atCapacity = c.atCapacity := by
    unfold atCapacity
    rw [h.maxSize, h.queue]
  have hstored : Alike job { c with store := insert k c.store }
      { c' with store := insert k c'.store } :=
    ⟨h.others, h.own, by simp only [h.store], h.queue, h.maxSize, h.stats⟩
  unfold SchedulerCore.submit
  rw [h.store, hcap, h.queue, h.maxSize]
  split
  · exact ⟨rfl, h⟩
  · split
    · exact ⟨rfl, h⟩
    · unfold storeAndPush
      rcases hstored.transition k .scheduled with ⟨d, d', hd, hd', halike⟩ | ⟨error, hd, hd'⟩
      · simp only [hd, hd']
        unfold enqueue
        rw [halike.push k]
        cases hpush : d.queue.push (d.jobs.get k) with
        | mk pushed queue =>
          cases pushed with
          | true =>
            exact ⟨rfl, halike.others, halike.own, halike.store, rfl, halike.maxSize, by
              simp only [halike.stats]⟩
          | false =>
            have hset := halike.setState k .pending
            refine ⟨by simp only [halike.queue, halike.maxSize], hset.others, hset.own, ?_,
              hset.queue, hset.maxSize, hset.stats⟩
            simp only [halike.store]
      · simp only [hd, hd']
        exact ⟨trivial, hstored⟩

/-- **The executor's host keeps the relation.** So whatever the executor does in answer to an
event, it does in both. -/
theorem respects (job : UUID) (now : Time) : (host now).Respects (Alike job) where
  submit _ k _ _ h := h.submit k
  onDagComplete _ _ _ _ h := ⟨h.others, h.own, h.store, h.queue, h.maxSize, by
    show SchedulerStats.mk _ _ _ _ _ _ _ _ = _
    rw [h.stats]
    rfl⟩
  onDagFailed _ _ _ _ h := ⟨h.others, h.own, h.store, h.queue, h.maxSize, by
    show SchedulerStats.mk _ _ _ _ _ _ _ _ = _
    rw [h.stats]
    rfl⟩

end Alike

end SchedulerCore

namespace Scheduler

/-- **Two schedulers that differ in the times and the traceback of one job.** -/
structure Alike (job : UUID) (s s' : Scheduler) : Prop where
  core : SchedulerCore.Alike job s.core s'.core
  executor : s'.executor = s.executor
  dlq : s'.dlq = s.dlq
  retryHandler : s'.retryHandler = s.retryHandler
  calls : s'.calls = s.calls

namespace Alike

variable {job : UUID} {s s' : Scheduler}

theorem withCore (h : Alike job s s') {c c' : SchedulerCore} (core : SchedulerCore.Alike job c c') :
    Alike job (s.withCore c) (s'.withCore c') :=
  ⟨core, h.executor, h.dlq, h.retryHandler, h.calls⟩

theorem count (h : Alike job s s') (f : SchedulerStats → SchedulerStats) :
    Alike job (s.count f) (s'.count f) :=
  h.withCore ⟨h.core.others, h.core.own, h.core.store, h.core.queue, h.core.maxSize, by
    simp only [h.core.stats]⟩

/-- **A completion is reported alike.** -/
theorem notifyComplete (h : Alike job s s') (order : IterationOrder UUID) (now : Time) (k : UUID) :
    Alike job (s.notifyComplete order now k) (s'.notifyComplete order now k) := by
  unfold Scheduler.notifyComplete
  rw [h.executor]
  split
  · exact h
  · obtain ⟨hexecutor, hcore⟩ := (SchedulerCore.Alike.respects job now).onJobComplete order now k
      s.executor h.core
    exact ⟨hcore, hexecutor, h.dlq, h.retryHandler, h.calls⟩

/-- A retry is prepared alike: the delay depends on the attempt and the policy, which are the
same. -/
theorem prepared (h : Alike job s s') (now : Time) (draw : ℚ) :
    SchedulerCore.Alike job (s.core.modifyJob job (s.retryHandler.prepared now draw))
      (s'.core.modifyJob job (s'.retryHandler.prepared now draw)) := by
  rw [h.retryHandler]
  have hblur : ∀ j : Job, (s.retryHandler.prepared now draw j).blurred
      = s.retryHandler.prepared now draw j.blurred := fun _ => rfl
  refine h.core.modifyJob (fun j j' hj => ?_)
  rw [hblur, hblur, hj]

/-- And pushed alike. -/
theorem pushRetry (h : Alike job s s') : Alike job (s.pushRetry job).2 (s'.pushRetry job).2 := by
  have hcleared : SchedulerCore.Alike job
      (s.core.modifyJob job (fun j => { j with error := none, traceback := none }))
      (s'.core.modifyJob job (fun j => { j with error := none, traceback := none })) :=
    h.core.modifyJob (fun j j' hj => congrArg (fun j : Job => { j with error := none }) hj)
  unfold Scheduler.pushRetry
  refine h.withCore ⟨hcleared.others, hcleared.own, hcleared.store, ?_, hcleared.maxSize,
    hcleared.stats⟩
  exact congrArg Prod.snd (hcleared.push job)

/-- **The retry branch ends alike.** Both transitions, the preparation and the push go the same
way, or fail at the same point. -/
theorem failJobRetry (h : Alike job s s') (now : Time) (draw : ℚ) :
    Alike job (s.failJobRetry now draw job).1 (s'.failJobRetry now draw job).1 := by
  have hfits : s'.retryHandler.Fits now draw (s'.core.jobs.get job)
      ↔ s.retryHandler.Fits now draw (s.core.jobs.get job) := by
    rw [h.retryHandler]
    have hpolicy : (s'.core.jobs.get job).retryPolicy = (s.core.jobs.get job).retryPolicy :=
      h.core.field Job.retryPolicy (fun _ => rfl) job
    have hattempt : (s'.core.jobs.get job).attempt = (s.core.jobs.get job).attempt :=
      h.core.field Job.attempt (fun _ => rfl) job
    exact Retry.RetryHandler.fits_congr _ hpolicy hattempt now draw
  have hprepared := h.prepared now draw
  unfold Scheduler.failJobRetry
  by_cases hfit : s.retryHandler.Fits now draw (s.core.jobs.get job)
  · rw [SchedulerCore.prepareForRetry_of_fits hfit,
      SchedulerCore.prepareForRetry_of_fits (hfits.mpr hfit)]
    rcases hprepared.transition job .retrying with ⟨d, d', hd, hd', hretrying⟩ | ⟨error, hd, hd'⟩
    · simp only [hd, hd']
      rcases hretrying.transition job .scheduled with
        ⟨u, u', hu, hu', hscheduled⟩ | ⟨error, hu, hu'⟩
      · simp only [hu, hu']
        exact ((h.withCore hscheduled).pushRetry).count _
      · simp only [hu, hu']
        exact h.withCore hretrying
    · simp only [hd, hd']
      exact h.withCore hprepared
  · -- both raise before anything is written
    obtain ⟨text, hraised⟩ := SchedulerCore.prepareForRetry_of_not_fits hfit
    obtain ⟨text', hraised'⟩ :=
      SchedulerCore.prepareForRetry_of_not_fits (fun hfit' => hfit (hfits.mp hfit'))
    rw [hraised, hraised']
    exact h

end Alike

end Scheduler

end JobOrchestrator
