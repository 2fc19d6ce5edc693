import JobOrchestrator.Scheduler.DLQRun
import JobOrchestrator.Core.State

/-!
# Requeues that fail

`requeue` resets the job of an entry before it calls the modifier, and marks the entry
before it submits the job. Where one of these raises, the entry is in the queue as before,
or again; but what was reset stays reset, and what was marked stays marked.

`DLQWorld.requeue_untouched_iff` says of a requeue that fails exactly when it has changed
nothing: where there was nothing to reset and nothing to mark. The modifier and the
submission may write to the job as well, and what they leave of it is then part of the
condition; of two that leave the record of the job alone, the condition is one on the job and
the entry before the call.
-/

namespace JobOrchestrator

/-- **The job is as it was**, in what `requeue` resets. -/
structure Job.SameRecord (job job' : Job) : Prop where
  state : job'.state = job.state
  error : job'.error = job.error
  traceback : job'.traceback = job.traceback
  retryCount : job'.retryCount = job.retryCount

namespace Job.SameRecord

variable {job job' job'' : Job}

theorem symm (h : job.SameRecord job') : job'.SameRecord job :=
  ⟨h.state.symm, h.error.symm, h.traceback.symm, h.retryCount.symm⟩

theorem trans (h : job.SameRecord job') (h' : job'.SameRecord job'') : job.SameRecord job'' where
  state := h'.state.trans h.state
  error := h'.error.trans h.error
  traceback := h'.traceback.trans h.traceback
  retryCount := h'.retryCount.trans h.retryCount

/-- A job that is given the record of another has still to be given what it lacked. -/
theorem trans_iff (h : job'.SameRecord job'') : job.SameRecord job'' ↔ job.SameRecord job' :=
  ⟨fun h' => h'.trans h.symm, fun h' => h'.trans h⟩

end Job.SameRecord

namespace DLQWorld

open DeadLetterQueue

variable {w : DLQWorld} {now : Time} {identifier : DLQIdentifier} {scheduler : Option Submission}
  {resetRetryCount : Bool} {resolvedBy : Option String} {modifier : Option Modifier}
  {entry : DLQEntry}

/-- **The requeue of an entry fails**: the modifier raises, or the submission does. -/
def RequeueFails (scheduler : Option Submission) (resetRetryCount : Bool)
    (modifier : Option Modifier) (entry : DLQEntry) (w : DLQWorld) : Prop :=
  match w.modified resetRetryCount modifier (w.jobOf entry.entryId) with
  | (_, .error _) => True
  | (objects, .ok job) =>
    match scheduler with
    | none => False
    | some submit => (submit objects job).2 ≠ none

/-- **Nothing has changed**: the entry is stored, marked as it was, with the same job; the job is
as it was, and so are the other entries. The place of the entry in the table is not looked at. -/
structure Untouched (entry : DLQEntry) (w w' : DLQWorld) : Prop where
  stored : ∃ e, w'.dlq.entries.get? entry.entryId = some e
    ∧ e.status = entry.status ∧ e.resolved = entry.resolved
    ∧ e.resolvedAt = entry.resolvedAt ∧ e.resolvedBy = entry.resolvedBy ∧ e.job = entry.job
  job : w'.jobOf entry.entryId = w.jobOf entry.entryId
  record : (w.objects (w.jobOf entry.entryId)).SameRecord
    (w'.objects (w.jobOf entry.entryId))
  others : ∀ i, i ≠ entry.entryId →
    w'.dlq.entries.get? i = w.dlq.entries.get? i ∧ w'.jobOf i = w.jobOf i

/-- **There was nothing to reset and nothing to mark.** The modifier that raises, and the
submission, leave of the reset job what it was; and an entry that is put back was marked so
before, with this clock reading, and its job was not replaced. -/
def NothingToUndo (now : Time) (scheduler : Option Submission) (resetRetryCount : Bool)
    (resolvedBy : Option String) (modifier : Option Modifier) (entry : DLQEntry)
    (w : DLQWorld) : Prop :=
  let job := w.jobOf entry.entryId
  match w.modified resetRetryCount modifier job with
  | (objects, .error _) => (w.objects job).SameRecord (objects job)
  | (objects, .ok job') =>
    job' = job
      ∧ (entry.status = .requeued ∧ entry.resolved = true
        ∧ entry.resolvedAt = some (.utcnow now) ∧ entry.resolvedBy = resolvedBy)
      ∧ ∀ submit, scheduler = some submit →
        (w.objects job).SameRecord ((submit objects job').1 job)

/-! ## Callbacks that leave the record of the job alone -/

/-- **A modifier that leaves the record of the job alone**, and returns no other job. -/
def Modifier.LeavesRecord (modifier : Modifier) (job : JobRef) : Prop :=
  ∀ objects : JobRef → Job, (objects job).SameRecord ((modifier objects job).1 job)
    ∧ ∀ job', (modifier objects job).2 = .ok job' → job' = job

/-- **A submission that leaves the record of the job alone.** -/
def Submission.LeavesRecord (submit : Submission) (job : JobRef) : Prop :=
  ∀ objects : JobRef → Job, (objects job).SameRecord ((submit objects job).1 job)

/-- **The job was reset before.** The reset happens before anything can fail, and is not taken
back. -/
structure ResetBefore (resetRetryCount : Bool) (job : Job) : Prop where
  state : job.state = .pending
  error : job.error = none
  traceback : job.traceback = none
  retryCount : resetRetryCount = true → job.retryCount = 0

/-- **The entry was marked before**, with this clock reading and this `resolved_by`. The entry
has the mark when it is put back, which is a change unless it was there already. -/
structure MarkedBefore (now : Time) (resolvedBy : Option String) (entry : DLQEntry) : Prop where
  status : entry.status = .requeued
  resolved : entry.resolved = true
  resolvedAt : entry.resolvedAt = some (.utcnow now)
  resolvedBy : entry.resolvedBy = resolvedBy

/-- Resetting a job leaves its record where it was reset before. -/
theorem sameRecord_resetJob_iff (resetRetryCount : Bool) (job : Job) :
    job.SameRecord (resetJob resetRetryCount job) ↔ ResetBefore resetRetryCount job := by
  constructor
  · rintro ⟨hstate, herror, htraceback, hcount⟩
    refine ⟨hstate.symm, herror.symm, htraceback.symm, fun hreset => ?_⟩
    rw [← hcount]
    exact if_pos hreset
  · rintro ⟨hstate, herror, htraceback, hcount⟩
    refine ⟨hstate.symm, herror.symm, htraceback.symm, ?_⟩
    cases resetRetryCount with
    | false => rfl
    | true => exact (hcount rfl).symm

/-- What a modifier that leaves the record alone has made of the job: it is the reset one, and
no other has been put in its place. -/
theorem modified_of_leavesRecord {job : JobRef} (resetRetryCount : Bool)
    (leaves : ∀ m ∈ modifier, m.LeavesRecord job) :
    (resetJob resetRetryCount (w.objects job)).SameRecord
        ((w.modified resetRetryCount modifier job).1 job)
      ∧ ∀ job', (w.modified resetRetryCount modifier job).2 = .ok job' → job' = job := by
  have hreset : Function.update w.objects job (resetJob resetRetryCount (w.objects job)) job
      = resetJob resetRetryCount (w.objects job) := Function.update_self _ _ _
  cases modifier with
  | none =>
    refine ⟨?_, fun job' h => (Except.ok.inj h).symm⟩
    show Job.SameRecord _ (Function.update w.objects job _ job)
    rw [hreset]
    exact ⟨rfl, rfl, rfl, rfl⟩
  | some m =>
    obtain ⟨hrecord, hsame⟩ := leaves m rfl
      (Function.update w.objects job (resetJob resetRetryCount (w.objects job)))
    rw [hreset] at hrecord
    exact ⟨hrecord, hsame⟩

/-- **Of callbacks that leave the record alone, there was nothing to undo** exactly where the
job was reset before, and, if it came to marking the entry, the entry was marked before. -/
theorem nothingToUndo_iff (fails : w.RequeueFails scheduler resetRetryCount modifier entry)
    (leaves : ∀ m ∈ modifier, m.LeavesRecord (w.jobOf entry.entryId))
    (submits : ∀ submit ∈ scheduler, submit.LeavesRecord (w.jobOf entry.entryId)) :
    w.NothingToUndo now scheduler resetRetryCount resolvedBy modifier entry
      ↔ ResetBefore resetRetryCount (w.objects (w.jobOf entry.entryId))
        ∧ ((∃ job, (w.modified resetRetryCount modifier (w.jobOf entry.entryId)).2 = .ok job) →
          MarkedBefore now resolvedBy entry) := by
  obtain ⟨hrecord, hsame⟩ := modified_of_leavesRecord (w := w) resetRetryCount leaves
  have hreset := sameRecord_resetJob_iff resetRetryCount (w.objects (w.jobOf entry.entryId))
  unfold RequeueFails at fails
  unfold NothingToUndo
  dsimp only
  rcases hmodified : w.modified resetRetryCount modifier (w.jobOf entry.entryId)
    with ⟨objects, error | job⟩
  · -- The modifier raises: what it leaves is the reset job, and nothing is marked.
    rw [hmodified] at hrecord
    refine (Job.SameRecord.trans_iff hrecord).trans (hreset.trans ⟨fun h => ⟨h, ?_⟩, And.left⟩)
    rintro ⟨job, hjob⟩
    cases hjob
  · rw [hmodified] at hrecord fails hsame
    obtain rfl : job = w.jobOf entry.entryId := hsame job rfl
    cases scheduler with
    | none => exact absurd fails id
    | some submit =>
      -- The submission raises: it too leaves the reset job, and the entry is marked by then.
      have hleft : (resetJob resetRetryCount (w.objects (w.jobOf entry.entryId))).SameRecord
          ((submit objects (w.jobOf entry.entryId)).1 (w.jobOf entry.entryId)) :=
        hrecord.trans (submits submit rfl objects)
      rw [← hreset, ← Job.SameRecord.trans_iff hleft]
      constructor
      · rintro ⟨-, ⟨hstatus, hresolved, hat, hby⟩, h⟩
        exact ⟨h submit rfl, fun _ => ⟨hstatus, hresolved, hat, hby⟩⟩
      · rintro ⟨h, hmarked⟩
        obtain ⟨hstatus, hresolved, hat, hby⟩ := hmarked ⟨_, rfl⟩
        refine ⟨rfl, ⟨hstatus, hresolved, hat, hby⟩, ?_⟩
        rintro submit' hsubmit
        cases hsubmit
        exact h

/-! ## What a failed requeue leaves behind -/

/-- What a requeue whose submission raises comes to: the entry is put back, marked. -/
theorem requeue_of_submission_raised {objects : JobRef → Job} {job : JobRef}
    {submit : Submission} (found : w.dlq.getEntry identifier = some entry)
    (modified : w.modified resetRetryCount modifier (w.jobOf entry.entryId) = (objects, .ok job))
    (raises : (submit objects job).2 ≠ none) :
    (w.requeue now identifier (some submit) resetRetryCount resolvedBy modifier).1
      = { w with
          objects := (submit objects job).1
          jobOf := Function.update w.jobOf entry.entryId job
          dlq := (w.dlq.takeOut (requeued now resolvedBy entry)).registerEntry
            (requeued now resolvedBy entry) } := by
  unfold requeue beginRequeue
  rw [found]
  dsimp only
  rw [modified]
  dsimp only
  unfold endRequeue
  dsimp only [requeued]
  rw [Function.update_self]
  rcases hsubmit : submit objects job with ⟨objects', _ | error⟩
  · rw [hsubmit] at raises
    exact absurd rfl raises
  · rfl

theorem untouched_iff_nothingToUndo (reachable : w.Reachable)
    (found : w.dlq.getEntry identifier = some entry)
    (fails : w.RequeueFails scheduler resetRetryCount modifier entry) :
    Untouched entry w
        (w.requeue now identifier scheduler resetRetryCount resolvedBy modifier).1
      ↔ w.NothingToUndo now scheduler resetRetryCount resolvedBy modifier entry := by
  have hstored := (reachable.sound.consistent.keyed.getEntry found).1
  unfold RequeueFails at fails
  unfold NothingToUndo
  dsimp only
  rcases hmodified : w.modified resetRetryCount modifier (w.jobOf entry.entryId)
    with ⟨objects, error | job⟩
  · -- a modifier that raises: only the objects it has written to differ
    have hrequeue : (w.requeue now identifier scheduler resetRetryCount resolvedBy modifier).1
        = { w with objects := objects } := by
      unfold requeue beginRequeue
      rw [found]
      dsimp only
      rw [hmodified]
    rw [hrequeue]
    exact ⟨fun h => h.record,
      fun h => ⟨⟨entry, hstored, rfl, rfl, rfl, rfl, rfl⟩, rfl, h, fun i _ => ⟨rfl, rfl⟩⟩⟩
  · rw [hmodified] at fails
    cases scheduler with
    | none => exact absurd fails id
    | some submit =>
      rw [requeue_of_submission_raised found hmodified fails]
      -- a submission that raises: by then the entry was taken out and put back, marked
      have hget : ∀ i, ((w.dlq.takeOut (requeued now resolvedBy entry)).registerEntry
          (requeued now resolvedBy entry)).entries.get? i
          = if i = entry.entryId then some (requeued now resolvedBy entry)
            else w.dlq.entries.get? i := by
        intro i
        refine (OrderedDict.get?_set _ _ _ _).trans (ite_congr rfl (fun _ => rfl) (fun hi => ?_))
        exact (get?_takeOut _ w.dlq i).trans (if_neg hi)
      constructor
      · intro h
        obtain ⟨e, he, hstatus, hresolved, hat, hby, -⟩ := h.stored
        rw [hget, if_pos rfl] at he
        cases he
        refine ⟨?_, ⟨hstatus.symm, hresolved.symm, hat.symm, hby.symm⟩, ?_⟩
        · exact (Function.update_self _ _ w.jobOf).symm.trans h.job
        · rintro submit' hsubmit
          cases hsubmit
          exact h.record
      · rintro ⟨rfl, ⟨hstatus, hresolved, hat, hby⟩, hrecord⟩
        refine ⟨⟨requeued now resolvedBy entry, ?_, hstatus.symm, hresolved.symm, hat.symm,
          hby.symm, rfl⟩, Function.update_self _ _ w.jobOf, hrecord submit rfl, fun i hi => ?_⟩
        · rw [hget, if_pos rfl]
        · exact ⟨(hget i).trans (if_neg hi), Function.update_of_ne hi _ _⟩

/-- **A requeue that fails changes nothing** exactly where there was nothing to undo. Where
the modifier and the submission leave the record of the entry's job alone, that is: the job
was PENDING before, with no error and, if the retry count is reset, a count of zero; and
unless it was the modifier that raised, the entry was marked REQUEUED before, with this very
clock reading. -/
theorem requeue_untouched_iff (reachable : w.Reachable)
    (found : w.dlq.getEntry identifier = some entry)
    (fails : w.RequeueFails scheduler resetRetryCount modifier entry) :
    (Untouched entry w
        (w.requeue now identifier scheduler resetRetryCount resolvedBy modifier).1
      ↔ w.NothingToUndo now scheduler resetRetryCount resolvedBy modifier entry)
    ∧ ((∀ m ∈ modifier, m.LeavesRecord (w.jobOf entry.entryId)) →
      (∀ submit ∈ scheduler, submit.LeavesRecord (w.jobOf entry.entryId)) →
      (Untouched entry w
          (w.requeue now identifier scheduler resetRetryCount resolvedBy modifier).1
        ↔ ResetBefore resetRetryCount (w.objects (w.jobOf entry.entryId))
          ∧ ((∃ job,
                (w.modified resetRetryCount modifier (w.jobOf entry.entryId)).2 = .ok job) →
            MarkedBefore now resolvedBy entry))) := by
  have huntouched : Untouched entry w
        (w.requeue now identifier scheduler resetRetryCount resolvedBy modifier).1
      ↔ w.NothingToUndo now scheduler resetRetryCount resolvedBy modifier entry :=
    untouched_iff_nothingToUndo reachable found fails
  exact ⟨huntouched, fun leaves submits =>
    huntouched.trans (nothingToUndo_iff fails leaves submits)⟩

/-- A submission that is refused as it finds the job stored: it does nothing but raise. -/
def refusing : Submission := fun objects job =>
  (objects, some ⟨["JobAlreadyExistsError"],
    (OrchestratorError.jobAlreadyExists (objects job).id).message⟩)

/-- A queue with one job that failed. -/
def oneFailed : DLQWorld :=
  History.after step
    (new none none (fun job =>
      { id := job, state := .failed, error := some "error", traceback := some "Traceback" }))
    [.add 0 7 (some (.plain "error")) (some "Traceback") none none]

/-- Its entry. -/
def failedEntry : DLQEntry where
  entryId := 0
  job := 7
  jobName := ""
  errorType := "Exception"
  errorMessage := "error"
  stackTrace := some "Traceback"
  addedAt := .utcnow 0

/-- It is put back, after a submission that was refused at the clock reading 1. -/
def refusedOnce : DLQWorld :=
  History.after step oneFailed [.requeue 1 (.job 7) true true none none, .submitted 0 refusing]

/-- A second refusal at the same reading finds the job reset and the entry marked, and a third
one, a moment later, finds the mark of the earlier reading. -/
theorem requeue_oneFailed_iff :
    Untouched (requeued 1 none failedEntry) refusedOnce
        (refusedOnce.requeue 1 (.job 7) (some refusing) true none none).1
      ∧ ¬ Untouched (requeued 1 none failedEntry) refusedOnce
        (refusedOnce.requeue 2 (.job 7) (some refusing) true none none).1 := by
  have hreachable : refusedOnce.Reachable :=
    ⟨none, none, _, _, (History.after_append _ _ _).symm⟩
  have hfails : refusedOnce.RequeueFails (some refusing) true none (requeued 1 none failedEntry) :=
    Option.some_ne_none _
  have hnone : ∀ m ∈ (none : Option Modifier), m.LeavesRecord 7 := by
    rintro m hm
    cases hm
  have hrecord : ∀ submit ∈ some refusing, submit.LeavesRecord 7 := by
    rintro submit hsubmit objects
    cases hsubmit
    exact ⟨rfl, rfl, rfl, rfl⟩
  refine ⟨?_, fun h => ?_⟩
  · refine ((requeue_untouched_iff hreachable rfl hfails).2 hnone hrecord).mpr ?_
    exact ⟨⟨rfl, rfl, rfl, fun _ => rfl⟩, fun _ => ⟨rfl, rfl, rfl, rfl⟩⟩
  · have hmarked := ((requeue_untouched_iff hreachable rfl hfails).2 hnone hrecord).mp h
    cases (hmarked.2 ⟨7, rfl⟩).resolvedAt

/-- **A requeue that fails leaves its entry marked as requeued** where the submission is
refused, and its job PENDING, with no error, where the modifier raises. -/
theorem requeue_oneFailed_touches :
    oneFailed.Reachable
      ∧ oneFailed.dlq.getEntry (.job 7) = some failedEntry
      ∧ (oneFailed.RequeueFails (some refusing) true none failedEntry
        ∧ ¬ Untouched failedEntry oneFailed
          (oneFailed.requeue 1 (.job 7) (some refusing) true none none).1)
      ∧ oneFailed.RequeueFails (some refusing) true
          (some (fun objects _ => (objects, .error ⟨["ValueError"], "no"⟩))) failedEntry
        ∧ ¬ Untouched failedEntry oneFailed
          (oneFailed.requeue 1 (.job 7) (some refusing) true none
            (some (fun objects _ => (objects, .error ⟨["ValueError"], "no"⟩)))).1 := by
  refine ⟨⟨none, none, _, _, rfl⟩, rfl, ⟨nofun, fun h => ?_⟩, trivial, fun h => ?_⟩
  · obtain ⟨e, he, hstatus, -⟩ := h.stored
    cases he
    cases hstatus
  · cases h.record.state

end DLQWorld

end JobOrchestrator
