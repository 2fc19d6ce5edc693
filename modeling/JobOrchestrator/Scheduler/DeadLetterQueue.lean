import JobOrchestrator.Core.Job
import JobOrchestrator.Util.OrderedDict

/-!
# The dead letter queue

`scheduler/dlq.py`: the entries, and an index from jobs to entries. An entry
id is a fresh `uuid4`, so the ids are counted here, and what a caller passes
to find an entry is either an entry's id or a job's.
-/

namespace JobOrchestrator

/-- `DLQEntryStatus`. -/
inductive DLQEntryStatus
  | pending | requeued | discarded | resolved
  deriving DecidableEq, Repr

/-- The number of an entry id. -/
abbrev EntryId := ℕ

/-- **`DLQEntry`**. The job is named by its id. -/
structure DLQEntry where
  entryId : EntryId
  job : UUID
  jobName : String
  errorType : String
  errorMessage : String
  stackTrace : Option String := none
  reason : String := ""
  addedAt : DateTime
  status : DLQEntryStatus := .pending
  resolvedAt : Option DateTime := none
  resolvedBy : Option String := none
  notes : String := ""
  retryCount : ℕ := 0
  resolved : Bool := false

/-- What a caller passes to find an entry. -/
inductive DLQIdentifier
  | entry (entryId : EntryId)
  | job (jobId : UUID)
  deriving DecidableEq

/-- **`DeadLetterQueue`**. The table is in the order of the additions, the index leads from a job
to the latest of its entries. -/
structure DeadLetterQueue where
  maxEntries : Option ℕ := none
  /-- `_entries`. -/
  entries : OrderedDict EntryId DLQEntry := OrderedDict.empty
  /-- `_job_index`. -/
  jobIndex : OrderedDict UUID EntryId := OrderedDict.empty
  /-- The next entry id. -/
  nextId : EntryId := 0

namespace DeadLetterQueue

/-- `_get_entry`. The source tries the identifier as the id of an entry first, and then as that
of a job, by way of the index. -/
def getEntry (d : DeadLetterQueue) : DLQIdentifier → Option DLQEntry
  | .entry entryId => d.entries.get? entryId
  | .job jobId => (d.jobIndex.get? jobId).bind d.entries.get?

/-- `_remove_entry`. The place of its job in the index goes, whichever entry it leads to. -/
def removeEntry (entryId : EntryId) (d : DeadLetterQueue) : DeadLetterQueue :=
  match d.entries.get? entryId with
  | none => d
  | some entry =>
    { d with entries := d.entries.erase entryId, jobIndex := d.jobIndex.erase entry.job }

/-- `_register_entry`. It is put at the end of the table and into the index, without a look at
the capacity. -/
def registerEntry (entry : DLQEntry) (d : DeadLetterQueue) : DeadLetterQueue :=
  { d with
    entries := d.entries.set entry.entryId entry
    jobIndex := d.jobIndex.set entry.job entry.entryId }

/-- The first of the entries with the smallest `added_at`. -/
def oldest : List DLQEntry → Option DLQEntry
  | [] => none
  | entry :: rest =>
    match oldest rest with
    | none => some entry
    | some other =>
      if other.addedAt.clock < entry.addedAt.clock then some other else some entry

/-- `_evict_oldest`. -/
def evictOldest (d : DeadLetterQueue) : DeadLetterQueue :=
  match oldest d.entries.values with
  | none => d
  | some entry => d.removeEntry entry.entryId

/-- `self.max_entries and len(self._entries) >= self.max_entries`. -/
def atCapacity (d : DeadLetterQueue) : Bool :=
  match d.maxEntries with
  | none => false
  | some m => decide (m ≠ 0 ∧ m ≤ d.entries.size)

/-- The entry `add` makes of a job and the exception it failed with. -/
def entryFor (now : Time) (job : Job) (error : PyException) (traceback : String)
    (d : DeadLetterQueue) : DLQEntry where
  entryId := d.nextId
  job := job.id
  jobName := job.name
  errorType := error.typeName
  errorMessage := error.message
  stackTrace := some traceback
  addedAt := .utcnow now
  retryCount := job.retryCount

/-- **`add`**, of a job with an exception and a non-empty traceback. -/
def add (now : Time) (job : Job) (error : PyException) (traceback : String)
    (d : DeadLetterQueue) : DeadLetterQueue :=
  let d' := if d.atCapacity then d.evictOldest else d
  { d'.registerEntry (d.entryFor now job error traceback) with nextId := d.nextId + 1 }

/-- The type and the text of the error that `add` notes: of the exception it is given, or
else of the error text of the job. -/
def errorOf (job : Job) : Option PyException → String × String
  | some error => (error.typeName, error.message)
  | none =>
    if job.error.getD "" = "" then ("Unknown", "") else ("str", job.error.getD "")

/-- The entry `add` makes, whichever of its arguments are given. -/
def entryOf (now : Time) (job : Job) (error : Option PyException) (traceback : Option String)
    (retryCount : Option ℕ) (reason : Option String) (d : DeadLetterQueue) : DLQEntry where
  entryId := d.nextId
  job := job.id
  jobName := job.name
  errorType := (errorOf job error).1
  errorMessage := (errorOf job error).2
  stackTrace := if traceback.getD "" = "" then job.traceback else traceback
  reason := reason.getD ""
  addedAt := .utcnow now
  retryCount := retryCount.getD job.retryCount

/-- What `add` does with the entry it made. -/
def addEntry (entry : DLQEntry) (d : DeadLetterQueue) : DeadLetterQueue :=
  let d' := if d.atCapacity then d.evictOldest else d
  { d'.registerEntry entry with nextId := d.nextId + 1 }

/-- `add` as `fail_job` calls it is the same step, of the entry made of the same arguments. -/
example (now : Time) (job : Job) (error : PyException) (d : DeadLetterQueue) :
    d.add now job error "Traceback"
      = d.addEntry (d.entryOf now job (some error) (some "Traceback") none none) := rfl

/-- The entry is older than the retention period. -/
def isExpired (now ttl : Time) (entry : DLQEntry) : Bool :=
  decide (entry.addedAt.clock < now - ttl)

/-- **`cleanup_expired`**, with the number of entries removed. It goes by the age of an entry
alone. -/
def cleanupExpired (now : Time) (ttlSeconds : Option Time) (d : DeadLetterQueue) :
    ℕ × DeadLetterQueue :=
  if ttlSeconds.getD 0 = 0 then (0, d)
  else
    d.entries.entries.foldl (fun r p =>
      if isExpired now (ttlSeconds.getD 0) p.2 then (r.1 + 1, r.2.removeEntry p.1) else r) (0, d)

/-- Assign fields of an entry, where it is. -/
def update (entry : DLQEntry) (d : DeadLetterQueue) : DeadLetterQueue :=
  { d with entries := d.entries.set entry.entryId entry }

/-- **`discard`**. The entry is marked and then deleted, so the mark is seen by whoever has the
object. -/
def discard (now : Time) (notes : String) (resolvedBy : Option String)
    (identifier : DLQIdentifier) (d : DeadLetterQueue) : Bool × DeadLetterQueue :=
  match d.getEntry identifier with
  | none => (false, d)
  | some entry =>
    (true, (d.update
      { entry with
        status := .discarded
        resolved := true
        resolvedAt := some (.utcnow now)
        resolvedBy := resolvedBy
        notes := notes }).removeEntry entry.entryId)

/-- **`resolve`**. The entry is marked, and deleted unless it is to be kept. -/
def resolve (now : Time) (notes : String) (resolvedBy : Option String) (keepInHistory : Bool)
    (identifier : DLQIdentifier) (d : DeadLetterQueue) : Bool × DeadLetterQueue :=
  match d.getEntry identifier with
  | none => (false, d)
  | some entry =>
    let d' := d.update
      { entry with
        status := .resolved
        resolved := true
        resolvedAt := some (.utcnow now)
        resolvedBy := resolvedBy
        notes := notes }
    (true, if keepInHistory then d' else d'.removeEntry entry.entryId)

/-- What `requeue` makes of an entry it found. -/
def requeued (now : Time) (resolvedBy : Option String) (entry : DLQEntry) : DLQEntry :=
  { entry with
    status := .requeued
    resolved := true
    resolvedAt := some (.utcnow now)
    resolvedBy := resolvedBy }

/-! ## Which entries an operation touches -/

/-- **Every entry is stored under its own id**, and the next id is new. -/
def Keyed (d : DeadLetterQueue) : Prop :=
  ∀ i e, d.entries.get? i = some e → e.entryId = i ∧ i < d.nextId

/-- **An operation touches one entry only**, which it leaves under its own id, if at all.
Discarding, resolving and requeueing are of this kind. -/
structure Touches (j : EntryId) (d d' : DeadLetterQueue) : Prop where
  others : ∀ i, i ≠ j → d'.entries.get? i = d.entries.get? i
  own : ∀ e, d'.entries.get? j = some e → d.entries.get? j = some e ∨ e.entryId = j
  nextId : d'.nextId = d.nextId

namespace Touches

variable {j : EntryId} {d d' d'' : DeadLetterQueue}

theorem refl (j : EntryId) (d : DeadLetterQueue) : Touches j d d :=
  ⟨fun _ _ => rfl, fun _ he => Or.inl he, rfl⟩

theorem trans (h : Touches j d d') (h' : Touches j d' d'') : Touches j d d'' where
  others i hi := (h'.others i hi).trans (h.others i hi)
  own e he := (h'.own e he).elim (h.own e) Or.inr
  nextId := h'.nextId.trans h.nextId

theorem update (entry : DLQEntry) (d : DeadLetterQueue) :
    Touches entry.entryId d (d.update entry) where
  others i hi := OrderedDict.get?_set_ne _ _ hi
  own e he := by
    have hset := (OrderedDict.get?_set_self d.entries entry.entryId entry).symm.trans he
    exact Or.inr (by rw [Option.some.inj hset])
  nextId := rfl

theorem registerEntry (entry : DLQEntry) (d : DeadLetterQueue) :
    Touches entry.entryId d (d.registerEntry entry) where
  others i hi := OrderedDict.get?_set_ne _ _ hi
  own e he := by
    have hset := (OrderedDict.get?_set_self d.entries entry.entryId entry).symm.trans he
    exact Or.inr (by rw [Option.some.inj hset])
  nextId := rfl

theorem removeEntry (j : EntryId) (d : DeadLetterQueue) : Touches j d (d.removeEntry j) := by
  unfold DeadLetterQueue.removeEntry
  split
  · exact refl j d
  · refine ⟨fun i hi => OrderedDict.get?_erase_ne _ hi, fun e he => ?_, rfl⟩
    cases (OrderedDict.get?_erase_self d.entries j).symm.trans he

/-- Touching one of the stored entries keeps them under their ids. -/
theorem keyed (h : Touches j d d') (hd : d.Keyed) (old : j < d.nextId) : d'.Keyed := by
  intro i e he
  rw [h.nextId]
  by_cases hi : i = j
  · subst hi
    rcases h.own e he with he | he
    · exact hd i e he
    · exact ⟨he, old⟩
  · exact hd i e ((h.others i hi).symm.trans he)

end Touches

variable {d : DeadLetterQueue}

/-- What is found is stored, under the id it has, whichever way it was looked for. -/
theorem Keyed.getEntry (h : d.Keyed) {identifier : DLQIdentifier} {entry : DLQEntry}
    (found : d.getEntry identifier = some entry) :
    d.entries.get? entry.entryId = some entry ∧ entry.entryId < d.nextId := by
  obtain ⟨i, hi⟩ : ∃ i, d.entries.get? i = some entry := by
    cases identifier with
    | entry i => exact ⟨i, found⟩
    | job k =>
      obtain ⟨i, -, hi⟩ := Option.bind_eq_some_iff.mp found
      exact ⟨i, hi⟩
  obtain ⟨hid, hlt⟩ := h i entry hi
  rw [hid]
  exact ⟨hi, hlt⟩

/-- **`discard`** touches the entry it finds, if any. It marks the entry and takes it out. -/
theorem touches_discard (now : Time) (notes : String) (resolvedBy : Option String)
    (identifier : DLQIdentifier) (d : DeadLetterQueue) :
    d.getEntry identifier = none ∧ (d.discard now notes resolvedBy identifier).2 = d
      ∨ ∃ entry, d.getEntry identifier = some entry
        ∧ Touches entry.entryId d (d.discard now notes resolvedBy identifier).2 := by
  unfold discard
  cases hfound : d.getEntry identifier with
  | none => exact Or.inl ⟨rfl, rfl⟩
  | some entry =>
    refine Or.inr ⟨entry, rfl, ?_⟩
    exact (Touches.update { entry with
      status := .discarded
      resolved := true
      resolvedAt := some (.utcnow now)
      resolvedBy := resolvedBy
      notes := notes } d).trans (Touches.removeEntry _ _)

/-- **`resolve`** too. The entry is kept or taken out, as the caller wishes. -/
theorem touches_resolve (now : Time) (notes : String) (resolvedBy : Option String) (keep : Bool)
    (identifier : DLQIdentifier) (d : DeadLetterQueue) :
    d.getEntry identifier = none ∧ (d.resolve now notes resolvedBy keep identifier).2 = d
      ∨ ∃ entry, d.getEntry identifier = some entry
        ∧ Touches entry.entryId d (d.resolve now notes resolvedBy keep identifier).2 := by
  unfold resolve
  cases hfound : d.getEntry identifier with
  | none => exact Or.inl ⟨rfl, rfl⟩
  | some entry =>
    refine Or.inr ⟨entry, rfl, ?_⟩
    have hupdate := Touches.update { entry with
      status := .resolved
      resolved := true
      resolvedAt := some (.utcnow now)
      resolvedBy := resolvedBy
      notes := notes } d
    cases keep with
    | true => exact hupdate
    | false => exact hupdate.trans (Touches.removeEntry _ _)

/-- **`add`, with room**: a new entry is stored, the others stay. -/
theorem get?_add {now : Time} {job : Job} {error : PyException} {traceback : String}
    (room : d.atCapacity = false) (i : EntryId) :
    (d.add now job error traceback).entries.get? i
      = if i = d.nextId then some (d.entryFor now job error traceback)
        else d.entries.get? i := by
  unfold add
  rw [room]
  exact OrderedDict.get?_set _ _ _ _

theorem Keyed.add (h : d.Keyed) {now : Time} {job : Job} {error : PyException}
    {traceback : String} (room : d.atCapacity = false) :
    (d.add now job error traceback).Keyed := by
  intro i e he
  rw [get?_add room] at he
  show e.entryId = i ∧ i < d.nextId + 1
  split at he
  · rename_i hi
    rw [← Option.some.inj he, hi]
    exact ⟨rfl, Nat.lt_succ_self _⟩
  · obtain ⟨hid, hlt⟩ := h i e he
    exact ⟨hid, Nat.lt_succ_of_lt hlt⟩

end DeadLetterQueue

end JobOrchestrator
