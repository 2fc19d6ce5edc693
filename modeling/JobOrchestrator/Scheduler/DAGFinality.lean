import JobOrchestrator.Scheduler.DAGRun

/-!
# When the end of a DAG is final

A DAG ends in one of three ways, reached through three functions:
`_fail_dag`, the completion check, and `cancel_dag`. Only the first looks
at the status before it writes it, and it does not count `COMPLETED` as an
end. So an execution that has ended can end again. `DAGExecution.Admits`
says which events leave an ended execution as it is, and
`status_final_announced_once` that under those events the end is final and
announced at most once.
-/

namespace JobOrchestrator

namespace DAGStatus

/-- A status no execution should leave. -/
def isTerminal : DAGStatus → Bool
  | pending | running => false
  | completed | failed | cancelled => true

theorem isTerminal_iff {status : DAGStatus} :
    status.isTerminal = true ↔ status = completed ∨ status = failed ∨ status = cancelled := by
  cases status <;> decide

end DAGStatus

namespace DAGExecution

/-- **The events an execution that has ended can hear without ending again.** A
completed one can hear none, a failed one no cancellation, and a cancelled one
no completion that leaves nothing running and nothing failed. -/
def Admits (e : DAGExecution) : DAGEvent → Prop
  | .complete jobId _ => e.status ≠ .completed ∧ (e.status = .cancelled →
      (e.runningJobs.erase jobId).Nonempty ∨ e.failedJobs.Nonempty)
  | .failed _ _ _ => e.status ≠ .completed
  | .cancel _ _ => e.status ≠ .completed ∧ e.status ≠ .failed

variable {σ : Type*} {order : IterationOrder UUID} {host : Host σ} {now : Time}

open DAGCall

/-! ## Steps that announce nothing -/

/-- Nothing was announced, and the status is what it was. -/
structure Quiet (dagId : UUID) (e : DAGExecution) (s : σ × List DAGCall) (e' : DAGExecution)
    (s' : σ × List DAGCall) : Prop where
  id : e'.dag.id = e.dag.id
  status : e'.status = e.status
  runningJobs : e.runningJobs.Nonempty → e'.runningJobs.Nonempty
  failedJobs : e.failedJobs ⊆ e'.failedJobs
  announcements : announcements dagId s'.2 = announcements dagId s.2

namespace Quiet

variable {dagId : UUID} {e e' e'' : DAGExecution} {s s' s'' : σ × List DAGCall}

theorem refl (dagId : UUID) (e : DAGExecution) (s : σ × List DAGCall) :
    Quiet dagId e s e s :=
  ⟨rfl, rfl, fun h => h, Finset.Subset.refl _, rfl⟩

theorem trans (h : Quiet dagId e s e' s') (h' : Quiet dagId e' s' e'' s'') :
    Quiet dagId e s e'' s'' where
  id := h'.id.trans h.id
  status := h'.status.trans h.status
  runningJobs hrun := h'.runningJobs (h.runningJobs hrun)
  failedJobs := h.failedJobs.trans h'.failedJobs
  announcements := h'.announcements.trans h.announcements

end Quiet

theorem announcements_append (dagId : UUID) (log : List DAGCall) (c : DAGCall) :
    announcements dagId (log ++ [c])
      = announcements dagId log + if c.announces dagId then 1 else 0 := by
  unfold announcements
  rw [List.countP_append, List.countP_singleton]

theorem quiet_queueJob (dagId k : UUID) (e : DAGExecution) (s : σ × List DAGCall) :
    Quiet dagId e s (e.queueJob host.recording k s).1 (e.queueJob host.recording k s).2 := by
  have hlog : announcements dagId (host.recording.submit e k s).1.2
      = announcements dagId s.2 := by
    show announcements dagId (s.2 ++ [.submit k e.completedJobs]) = _
    rw [announcements_append]
    rfl
  rcases queueJob_cases host.recording k e s with ⟨_, -, h⟩ | ⟨_, -, h⟩
  · rw [h]
    exact ⟨rfl, rfl, fun _ => Finset.insert_nonempty _ _, Finset.Subset.refl _, hlog⟩
  · rw [h]
    exact ⟨rfl, rfl, fun hrun => hrun, Finset.subset_insert _ _, hlog⟩

theorem quiet_queueReady (host : Host σ) (dagId : UUID) (ks : List UUID) (e : DAGExecution)
    (s : σ × List DAGCall) :
    Quiet dagId e s (e.queueReady host.recording ks s).2.1
      (e.queueReady host.recording ks s).2.2 :=
  queueReady_invariant (I := fun e' s' => Quiet dagId e s e' s')
    (fun k e' s' h _ => h.trans (quiet_queueJob dagId k e' s')) ks (Quiet.refl dagId e s)

theorem quiet_queueAll (dagId : UUID) (ks : List UUID) (e : DAGExecution)
    (s : σ × List DAGCall) :
    Quiet dagId e s (e.queueAll host.recording ks s).1
      (e.queueAll host.recording ks s).2 :=
  queueAll_invariant (I := fun e' s' => Quiet dagId e s e' s')
    (fun k e' s' h => h.trans (quiet_queueJob dagId k e' s')) ks (Quiet.refl dagId e s)

/-! ## Steps that end the DAG -/

/-- **What holds of an execution and the calls made for it**: nothing is announced
before the end, and at most one announcement is made. -/
structure Announced (g : DAG) (e : DAGExecution) (log : List DAGCall) : Prop where
  id : e.dag.id = g.id
  failed : e.status = .failed → e.failedJobs.Nonempty
  once : announcements g.id log ≤ 1
  unannounced : e.status.isTerminal = false → announcements g.id log = 0

namespace Announced

variable {g : DAG} {e e' : DAGExecution} {s s' : σ × List DAGCall}

theorem quiet (h : Announced g e s.2) (hq : Quiet g.id e s e' s') : Announced g e' s'.2 where
  id := hq.id.trans h.id
  failed hf := (h.failed (hq.status ▸ hf)).mono hq.failedJobs
  once := hq.announcements ▸ h.once
  unannounced ht := hq.announcements ▸ h.unannounced (hq.status ▸ ht)

/-- A first announcement, with the end it announces. The execution was not at an end before, so
there is no announcement that it would repeat. -/
theorem ending (h : Announced g e s.2) (ht : e.status.isTerminal = false) {c : DAGCall}
    (id : e'.dag.id = e.dag.id) (failed : e'.status = .failed → e'.failedJobs.Nonempty)
    (ended : e'.status.isTerminal = true) : Announced g e' (s.2 ++ [c]) where
  id := id.trans h.id
  failed := failed
  once := by
    rw [announcements_append, h.unannounced ht]
    split <;> decide
  unannounced hnot := by
    rw [ended] at hnot
    exact absurd hnot (by decide)

end Announced

theorem failDag_of_not_ended {e : DAGExecution} (h : e.status.isTerminal = false)
    (error : String) (s : σ) : e.failDag host now error s
      = ({ e with
            status := .failed
            completedAt := some (.utcnow now)
            error := some error
            cancelledJobs := e.cancelledJobs ∪ e.unfinished.toFinset },
          host.onDagFailed e.dag.id error s) := by
  rw [failDag, if_neg]
  rintro (hs | hs)
  · rw [hs] at h
    exact absurd h (by decide)
  · rw [hs] at h
    exact absurd h (by decide)

section Step

variable {g : DAG} {e : DAGExecution} {s : σ × List DAGCall}

/-- The status after a step is the one before, if that was an end. -/
def Final (e e' : DAGExecution) : Prop := e.status.isTerminal = true → e'.status = e.status

theorem announced_failDag (h : Announced g e s.2) (hc : e.status ≠ .completed)
    (hf : e.failedJobs.Nonempty) (error : String) :
    Announced g (e.failDag host.recording now error s).1
        (e.failDag host.recording now error s).2.2
      ∧ Final e (e.failDag host.recording now error s).1 := by
  cases ht : e.status.isTerminal with
  | false =>
    rw [failDag_of_not_ended ht]
    exact ⟨h.ending ht rfl (fun _ => hf) rfl, fun hend => absurd (ht.symm.trans hend) (by decide)⟩
  | true =>
    have hended : e.status = .failed ∨ e.status = .cancelled :=
      (DAGStatus.isTerminal_iff.mp ht).resolve_left hc
    rw [failDag_of_ended hended]
    exact ⟨h, fun _ => rfl⟩

/-- The end of the completion check, where an execution that has ended has a
failed job. -/
theorem announced_conclude (h : Announced g e s.2) (hc : e.status ≠ .completed)
    (hf : e.status.isTerminal = true → e.failedJobs.Nonempty) :
    Announced g (e.conclude host.recording now s).1 (e.conclude host.recording now s).2.2
      ∧ Final e (e.conclude host.recording now s).1 := by
  rw [conclude]
  split
  · rename_i hne
    exact announced_failDag h hc hne _
  · rename_i hne
    have ht : e.status.isTerminal = false := by
      rw [← Bool.not_eq_true]
      exact fun ht => hne (hf ht)
    exact ⟨h.ending ht rfl (fun hs => by cases hs) rfl,
      fun hend => absurd (ht.symm.trans hend) (by decide)⟩

/-- The completion check, where an execution that has ended is waiting or has a
failed job. -/
theorem announced_checkDagCompletion (host : Host σ) (now : Time) (h : Announced g e s.2)
    (hc : e.status ≠ .completed)
    (hf : e.status.isTerminal = true → e.runningJobs.Nonempty ∨ e.failedJobs.Nonempty) :
    Announced g (e.checkDagCompletion host.recording now s).1
        (e.checkDagCompletion host.recording now s).2.2
      ∧ Final e (e.checkDagCompletion host.recording now s).1 := by
  rcases checkDagCompletion_cases host.recording now e s
    with ⟨ks, hks⟩ | ⟨hrun, hend⟩
  · have hq := quiet_queueReady host g.id ks e s
    rw [hks]
    exact ⟨h.quiet hq, fun _ => hq.status⟩
  · rw [hend]
    refine announced_conclude h hc (fun ht => (hf ht).resolve_left ?_)
    rw [hrun]
    exact Finset.not_nonempty_empty

/-- **One admitted event** keeps what is announced, and an end stays. -/
theorem announced_event (order : IterationOrder UUID) (host : Host σ)
    (h : Announced g e s.2) {ev : DAGEvent} (admitted : e.Admits ev) :
    Announced g (e.event order host.recording s ev).1 (e.event order host.recording s ev).2.2
      ∧ Final e (e.event order host.recording s ev).1 := by
  cases ev with
  | complete j now =>
    obtain ⟨hc, hcancelled⟩ := admitted
    let marked := e.markCompleted j
    have hq := quiet_queueReady host g.id (marked.dependentsOf order j) marked s
    have hmark : Announced g marked s.2 := ⟨h.id, h.failed, h.once, h.unannounced⟩
    -- the check finds nothing to announce where the execution had ended: some job
    -- failed, or one is running
    have hcheck := announced_checkDagCompletion host now (hmark.quiet hq)
      (by rw [hq.status]; exact hc) (by
        intro ht
        rw [hq.status] at ht
        rcases DAGStatus.isTerminal_iff.mp ht with hs | hs | hs
        · exact absurd hs hc
        · exact Or.inr ((h.failed hs).mono hq.failedJobs)
        · exact (hcancelled hs).imp (fun hrun => hq.runningJobs hrun)
            (fun hf => hf.mono hq.failedJobs))
    exact ⟨hcheck.1, fun ht => (hcheck.2 (hq.status.symm ▸ ht)).trans hq.status⟩
  | failed j error now =>
    have hc : e.status ≠ .completed := admitted
    let marked := e.markFailed j
    have hf : marked.failedJobs.Nonempty := Finset.insert_nonempty _ _
    have hmark : Announced g marked s.2 := ⟨h.id, fun _ => hf, h.once, h.unannounced⟩
    show Announced g (e.onJobFailed host.recording now j error s).1 _ ∧ _
    rw [event, onJobFailed]
    split
    · exact announced_failDag hmark hc hf _
    · exact announced_checkDagCompletion host now hmark hc (fun _ => Or.inr hf)
  | cancel d now =>
    obtain ⟨hc, hfail⟩ := admitted
    have hlog : (e.event order host.recording s (.cancel d now)).2.2 = s.2 :=
      log_cancelDag now e s
    rw [hlog]
    refine ⟨⟨h.id, fun hs => absurd hs (by show DAGStatus.cancelled ≠ _; decide), h.once,
      fun ht => absurd ht (by show ¬ (DAGStatus.cancelled.isTerminal = false); decide)⟩, ?_⟩
    intro ht
    exact ((DAGStatus.isTerminal_iff.mp ht).resolve_left hc |>.resolve_left hfail).symm

end Step

end DAGExecution

/-! ## Runs -/

namespace DAGExecutor

open DAGExecution DAGCall

variable {σ : Type*} {order : IterationOrder UUID} {host : Host σ} {g : DAG}

/-- Events about the DAG that its execution admits. -/
def Admitted (g : DAG) : DAGExecutor × σ → DAGEvent → Prop :=
  During g (fun e ev => ev.Concerns g ∧ e.Admits ev)

theorem announced_startedExecution (now : Time) (s : σ) :
    Announced g (startedExecution host.recording now g (s, [])).1
      (startedExecution host.recording now g (s, [])).2.2 := by
  have hstart : Announced g (DAGExecution.started now g) ((s, []) : σ × List DAGCall).2 :=
    ⟨rfl, (fun hs => by cases hs), Nat.zero_le _, fun _ => rfl⟩
  exact hstart.quiet (quiet_queueAll g.id _ _ _)

/-- **The end of a DAG is final, and announced at most once**, in every run in
which each event is admitted by the execution that hears it. -/
theorem status_final_announced_once {now : Time} {x x' : DAGExecutor} {s s' : σ}
    {log : List DAGCall} {ls : List DAGEvent}
    (run : GuardedRun (step order host.recording) (Admitted g)
      (x.startDag host.recording now g (s, [])).2 ls (x', s', log)) :
    ∃ e, x'.activeDags.get? g.id = some e ∧ announcements g.id log ≤ 1
      ∧ ∀ ls' x'' s'', GuardedRun (step order host.recording) (Admitted g) (x', s', log) ls'
          (x'', s'') → e.status.isTerminal = true →
        ∃ e', x''.activeDags.get? g.id = some e' ∧ e'.status = e.status := by
  obtain ⟨e, htracks, hann⟩ := run_tracked (P := fun _ e s => Announced g e s.2)
    (tracks_startDag now g x _) (announced_startedExecution now s)
    (fun _ _ _ _ h hok => ⟨hok.1, (announced_event order host h hok.2).1⟩) run
  refine ⟨e, htracks.active, hann.once, ?_⟩
  intro ls' x'' s'' onward hend
  obtain ⟨e', htracks', hann', hstatus⟩ := run_tracked
    (P := fun _ e' s => Announced g e' s.2 ∧ e'.status = e.status)
    htracks ⟨hann, rfl⟩ (fun _ e₁ _ _ h hok => by
      have hevent := announced_event order host h.1 hok.2
      exact ⟨hok.1, hevent.1, (hevent.2 (h.2 ▸ hend)).trans h.2⟩) onward
  exact ⟨e', htracks'.active, hstatus⟩

/-- A DAG of one job, which completes. -/
theorem status_final_announced_once_oneJobDag :
    ∃ e, ((({} : DAGExecutor).startDag Host.accepting.recording 0 oneJobDag
        ((), [])).2.1.onJobComplete .increasing Host.accepting.recording 1 1
          ((), [.submit 1 ∅])).2.1.activeDags.get? 7 = some e
      ∧ announcements 7 [.submit 1 ∅, .complete 7 .completed] ≤ 1 := by
  have admitted : Admitted oneJobDag
      (({} : DAGExecutor).startDag Host.accepting.recording 0 oneJobDag ((), [])).2
      (.complete 1 1) :=
    ⟨_, rfl, List.mem_cons_self, (fun h => by cases h), (fun h => by cases h)⟩
  obtain ⟨e, he, hann, -⟩ := status_final_announced_once
    (show GuardedRun (step .increasing Host.accepting.recording) _ _ _ _ from
      .single admitted rfl)
  exact ⟨e, he, hann⟩

/-- **A cancelled DAG can become completed**: it is cancelled while its job is
executing, and the job completes. -/
theorem completed_after_cancelled :
    ∃ x y : DAGExecutor × (Unit × List DAGCall), ∃ e e',
      GuardedRun (step .increasing Host.accepting.recording)
        (During oneJobDag (fun _ ev => ev.Concerns oneJobDag))
        (({} : DAGExecutor).startDag Host.accepting.recording 0 oneJobDag ((), [])).2
        [.cancel 7 1] x
      ∧ GuardedRun (step .increasing Host.accepting.recording)
        (During oneJobDag (fun _ ev => ev.Concerns oneJobDag)) x [.complete 1 2] y
      ∧ x.1.activeDags.get? 7 = some e ∧ e.status = .cancelled
      ∧ y.1.activeDags.get? 7 = some e' ∧ e'.status = .completed :=
  ⟨_, _, _, _, .single ⟨_, rfl, rfl⟩ rfl, .single ⟨_, rfl, List.mem_cons_self⟩ rfl, rfl, rfl,
    rfl, rfl⟩

end DAGExecutor

end JobOrchestrator
