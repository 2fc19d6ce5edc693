import JobOrchestrator.Scheduler.DLQTables
import JobOrchestrator.Util.History

/-!
# The dead letter queue on its own

`scheduler/dlq.py` as anybody can use it: a `DLQWorld` is a queue with its retention
period and the job objects its entries refer to. The objects are named by reference
here, since a modifier may return a copy of a job, which has the same id.

`requeue` holds the lock twice, and not while it submits the job. The first section,
`beginRequeue`, resets the job and takes the entry out; the second, `endRequeue`, puts the
entry back where the submission raised. The steps of `DLQWorld.step` are such sections, of
any number of calls, and the other operations, in any order. A queue that was constructed
with `auto_cleanup` calls `cleanup_expired` at the end of `add`, after the callbacks: that
is a step of its own here.

`DLQWorld.change` says once what a step does to the two tables, and `DLQWorld.Sound` is
what every step keeps: an entry is stored under its id, or on its way back, and the index
leads to stored entries.
-/

namespace JobOrchestrator

/-- **A dead letter queue in use.** A call of `requeue` gives the lock back while the scheduler
submits the job, so its entry is out of the tables for a while; these calls are kept in a list.
-/
structure DLQWorld where
  dlq : DeadLetterQueue := {}
  /-- `_ttl_seconds`. -/
  ttlSeconds : Option Time := none
  /-- What the job objects hold. -/
  objects : JobRef → Job
  /-- `entry.job`, of each entry. -/
  jobOf : EntryId → JobRef := fun _ => 0
  /-- The entries whose jobs calls of `requeue` are submitting. -/
  submitting : List DLQEntry := []

namespace DLQWorld

/-- A modifier of `requeue`: what it does to the objects, and the job it returns or what it
raises. -/
abbrev Modifier := (JobRef → Job) → JobRef → (JobRef → Job) × Except PyException JobRef

/-- What `scheduler.submit` does to the objects, and what it raises. -/
abbrev Submission := (JobRef → Job) → JobRef → (JobRef → Job) × Option PyException

/-- `DeadLetterQueue(max_entries=…, ttl=…)`. -/
def new (maxEntries : Option ℕ) (ttlSeconds : Option Time) (objects : JobRef → Job) : DLQWorld where
  dlq := { maxEntries := maxEntries }
  ttlSeconds := ttlSeconds
  objects := objects

/-- What `requeue` resets of a job. -/
def resetJob (resetRetryCount : Bool) (job : Job) : Job :=
  { job with
    retryCount := if resetRetryCount then 0 else job.retryCount
    state := .pending
    error := none
    traceback := none }

/-- The call of the modifier, where there is one, on the job that was reset. -/
def modified (resetRetryCount : Bool) (modifier : Option Modifier) (job : JobRef) (w : DLQWorld) :
    (JobRef → Job) × Except PyException JobRef :=
  let objects := Function.update w.objects job (resetJob resetRetryCount (w.objects job))
  match modifier with
  | none => (objects, .ok job)
  | some modifier => modifier objects job

/-- **The first section of `requeue`**, with the entry that was taken out. -/
def beginRequeue (now : Time) (identifier : DLQIdentifier) (resetRetryCount : Bool)
    (resolvedBy : Option String) (modifier : Option Modifier) (w : DLQWorld) :
    DLQWorld × Except PyException (Option DLQEntry) :=
  match w.dlq.getEntry identifier with
  | none => (w, .ok none)
  | some entry =>
    match w.modified resetRetryCount modifier (w.jobOf entry.entryId) with
    | (objects, .error error) => ({ w with objects := objects }, .error error)
    | (objects, .ok job) =>
      let entry' := DeadLetterQueue.requeued now resolvedBy entry
      ({ w with
          objects := objects
          jobOf := Function.update w.jobOf entry.entryId job
          dlq := (w.dlq.update entry').removeEntry entry.entryId }, .ok (some entry'))

/-- **The second section of `requeue`**, with its answer. -/
def endRequeue (entry : DLQEntry) (submit : Submission) (w : DLQWorld) : DLQWorld × Bool :=
  match submit w.objects (w.jobOf entry.entryId) with
  | (objects, none) => ({ w with objects := objects }, true)
  | (objects, some _) =>
    ({ w with objects := objects, dlq := w.dlq.registerEntry entry }, false)

/-- What `requeue` answers. -/
inductive Answer
  | nothing
  | submitted (yes : Bool)
  | job (job : JobRef)
  deriving DecidableEq

/-- **`requeue`**, the two sections of one call without a pause. -/
def requeue (now : Time) (identifier : DLQIdentifier) (scheduler : Option Submission)
    (resetRetryCount : Bool) (resolvedBy : Option String) (modifier : Option Modifier)
    (w : DLQWorld) : DLQWorld × Except PyException Answer :=
  match w.beginRequeue now identifier resetRetryCount resolvedBy modifier with
  | (w', .error error) => (w', .error error)
  | (w', .ok none) => (w', .ok (if scheduler.isNone then .nothing else .submitted false))
  | (w', .ok (some entry)) =>
    match scheduler with
    | none => (w', .ok (.job (w'.jobOf entry.entryId)))
    | some submit =>
      let r := w'.endRequeue entry submit
      (r.1, .ok (.submitted r.2))

/-! ## Steps -/

/-- What is done to the queue. -/
inductive Step
  | add (now : Time) (job : JobRef) (error : Option PyException) (traceback : Option String)
    (retryCount : Option ℕ) (reason : Option String)
  | discard (now : Time) (notes : String) (resolvedBy : Option String)
    (identifier : DLQIdentifier)
  | resolve (now : Time) (notes : String) (resolvedBy : Option String) (keepInHistory : Bool)
    (identifier : DLQIdentifier)
  | cleanupExpired (now : Time)
  /-- The first section of `requeue`, with a scheduler or without. -/
  | requeue (now : Time) (identifier : DLQIdentifier) (scheduler : Bool)
    (resetRetryCount : Bool) (resolvedBy : Option String) (modifier : Option Modifier)
  /-- The second section of one of the calls that are submitting. -/
  | submitted (n : ℕ) (submit : Submission)
  /-- Anything that is done to the job objects elsewhere. -/
  | write (objects : (JobRef → Job) → JobRef → Job)

/-- **One step.** The entries that are away stay apart from those that are stored, and come back
under their own ids. -/
def step (w : DLQWorld) : Step → DLQWorld
  | .add now job error traceback retryCount reason =>
    { w with
      dlq := w.dlq.addEntry
        (w.dlq.entryOf now (w.objects job) error traceback retryCount reason)
      jobOf := Function.update w.jobOf w.dlq.nextId job }
  | .discard now notes resolvedBy identifier =>
    { w with dlq := (w.dlq.discard now notes resolvedBy identifier).2 }
  | .resolve now notes resolvedBy keepInHistory identifier =>
    { w with dlq := (w.dlq.resolve now notes resolvedBy keepInHistory identifier).2 }
  | .cleanupExpired now => { w with dlq := (w.dlq.cleanupExpired now w.ttlSeconds).2 }
  | .requeue now identifier scheduler resetRetryCount resolvedBy modifier =>
    match w.beginRequeue now identifier resetRetryCount resolvedBy modifier with
    | (w', .ok (some entry)) =>
      if scheduler then { w' with submitting := w'.submitting ++ [entry] } else w'
    | (w', _) => w'
  | .submitted n submit =>
    match w.submitting[n]? with
    | none => w
    | some entry =>
      { (w.endRequeue entry submit).1 with submitting := w.submitting.eraseIdx n }
  | .write objects => { w with objects := objects w.objects }

/-- What a step does to the two tables. All that a history does to the tables is one of these,
and each is proved to keep the invariant once. -/
inductive Change
  | nothing
  /-- Fields of a stored entry are assigned. -/
  | marks (entry : DLQEntry)
  /-- An entry is marked and taken out. -/
  | takesOut (entry : DLQEntry)
  | adds (entry : DLQEntry)
  | cleansUp (now : Time)
  /-- An entry that was taken out is registered again. -/
  | putsBack (entry : DLQEntry)

/-- **What a step does to the two tables**, read off the state before it. -/
def change (w : DLQWorld) : Step → Change
  | .add now job error traceback retryCount reason =>
    .adds (w.dlq.entryOf now (w.objects job) error traceback retryCount reason)
  | .discard now notes resolvedBy identifier =>
    match w.dlq.getEntry identifier with
    | none => .nothing
    | some entry =>
      .takesOut { entry with
        status := .discarded
        resolved := true
        resolvedAt := some (.utcnow now)
        resolvedBy := resolvedBy
        notes := notes }
  | .resolve now notes resolvedBy keepInHistory identifier =>
    match w.dlq.getEntry identifier with
    | none => .nothing
    | some entry =>
      let entry' := { entry with
        status := .resolved
        resolved := true
        resolvedAt := some (.utcnow now)
        resolvedBy := resolvedBy
        notes := notes }
      if keepInHistory then .marks entry' else .takesOut entry'
  | .cleanupExpired now => .cleansUp now
  | .requeue now identifier _ resetRetryCount resolvedBy modifier =>
    match w.dlq.getEntry identifier with
    | none => .nothing
    | some entry =>
      match (w.modified resetRetryCount modifier (w.jobOf entry.entryId)).2 with
      | .error _ => .nothing
      | .ok _ => .takesOut (DeadLetterQueue.requeued now resolvedBy entry)
  | .submitted n submit =>
    match w.submitting[n]? with
    | none => .nothing
    | some entry =>
      match (submit w.objects (w.jobOf entry.entryId)).2 with
      | none => .nothing
      | some _ => .putsBack entry
  | .write _ => .nothing

/-- The change, made. -/
def Change.applyTo (ttlSeconds : Option Time) (d : DeadLetterQueue) : Change → DeadLetterQueue
  | .nothing => d
  | .marks entry => d.update entry
  | .takesOut entry => d.takeOut entry
  | .adds entry => d.addEntry entry
  | .cleansUp now => (d.cleanupExpired now ttlSeconds).2
  | .putsBack entry => d.registerEntry entry

/-- **A step makes its change**, and no other. Everything that is proved about the tables along a
history goes by this equation. -/
theorem dlq_step (w : DLQWorld) (l : Step) :
    (w.step l).dlq = (w.change l).applyTo w.ttlSeconds w.dlq := by
  cases l with
  | add now job error traceback retryCount reason => rfl
  | discard now notes resolvedBy identifier =>
    simp only [step, change, DeadLetterQueue.discard]
    cases w.dlq.getEntry identifier <;> rfl
  | resolve now notes resolvedBy keepInHistory identifier =>
    simp only [step, change, DeadLetterQueue.resolve]
    cases w.dlq.getEntry identifier with
    | none => rfl
    | some entry => cases keepInHistory <;> rfl
  | cleanupExpired now => rfl
  | requeue now identifier scheduler resetRetryCount resolvedBy modifier =>
    simp only [step, change, beginRequeue]
    cases w.dlq.getEntry identifier with
    | none => rfl
    | some entry =>
      dsimp only
      rcases w.modified resetRetryCount modifier (w.jobOf entry.entryId) with ⟨objects, _ | job⟩
      · rfl
      · cases scheduler <;> rfl
  | submitted n submit =>
    simp only [step, change, endRequeue]
    cases w.submitting[n]? with
    | none => rfl
    | some entry =>
      dsimp only
      rcases submit w.objects (w.jobOf entry.entryId) with ⟨objects, _ | error⟩ <;> rfl
  | write objects => rfl

/-- **What a step does to the calls that are submitting**: none, one more, or one that goes
on, which puts back its own entry if any. -/
theorem submitting_step (w : DLQWorld) (l : Step) :
    (w.step l).submitting = w.submitting ∧ (∀ entry, w.change l ≠ .putsBack entry)
      ∨ (∃ entry, w.change l = .takesOut entry
        ∧ (w.step l).submitting = w.submitting ++ [entry])
      ∨ ∃ n entry, w.submitting[n]? = some entry
        ∧ (w.step l).submitting = w.submitting.eraseIdx n
        ∧ (w.change l = .nothing ∨ w.change l = .putsBack entry) := by
  cases l with
  | add now job error traceback retryCount reason => exact Or.inl ⟨rfl, by simp [change]⟩
  | discard now notes resolvedBy identifier =>
    refine Or.inl ⟨rfl, ?_⟩
    simp only [change]
    cases w.dlq.getEntry identifier <;> simp
  | resolve now notes resolvedBy keepInHistory identifier =>
    refine Or.inl ⟨rfl, ?_⟩
    simp only [change]
    cases w.dlq.getEntry identifier with
    | none => simp
    | some entry => cases keepInHistory <;> simp
  | cleanupExpired now => exact Or.inl ⟨rfl, by simp [change]⟩
  -- the first section takes the entry out; `submitted` is the second one
  | requeue now identifier scheduler resetRetryCount resolvedBy modifier =>
    simp only [step, change, beginRequeue]
    cases w.dlq.getEntry identifier with
    | none => exact Or.inl ⟨rfl, by simp⟩
    | some entry =>
      dsimp only
      rcases w.modified resetRetryCount modifier (w.jobOf entry.entryId) with ⟨objects, _ | job⟩
      · exact Or.inl ⟨rfl, by simp⟩
      · cases scheduler with
        | false => exact Or.inl ⟨rfl, by simp⟩
        | true => exact Or.inr (Or.inl ⟨_, rfl, rfl⟩)
  | submitted n submit =>
    simp only [step, change]
    cases hentry : w.submitting[n]? with
    | none => exact Or.inl ⟨rfl, by simp⟩
    | some entry =>
      refine Or.inr (Or.inr ⟨n, entry, hentry, rfl, ?_⟩)
      dsimp only
      cases (submit w.objects (w.jobOf entry.entryId)).2 with
      | none => exact Or.inl rfl
      | some error => exact Or.inr rfl
  | write objects => exact Or.inl ⟨rfl, by simp [change]⟩

/-- **A call of `requeue` is its two sections**, as steps, where nothing is done between
them. -/
theorem requeue_eq_steps {now : Time} {identifier : DLQIdentifier} {resetRetryCount : Bool}
    {resolvedBy : Option String} {modifier : Option Modifier} {w w' : DLQWorld} {entry : DLQEntry}
    (taken : w.beginRequeue now identifier resetRetryCount resolvedBy modifier
      = (w', .ok (some entry))) (submit : Submission) :
    (w.step (.requeue now identifier true resetRetryCount resolvedBy modifier)).step
        (.submitted w'.submitting.length submit)
      = (w.requeue now identifier (some submit) resetRetryCount resolvedBy modifier).1 := by
  have hrequeue : (w.requeue now identifier (some submit) resetRetryCount resolvedBy modifier).1
      = (w'.endRequeue entry submit).1 := by
    unfold requeue
    rw [taken]
  have hbegin : w.step (.requeue now identifier true resetRetryCount resolvedBy modifier)
      = { w' with submitting := w'.submitting ++ [entry] } := by
    simp only [step, taken, if_true]
  have hnth : (w'.submitting ++ [entry])[w'.submitting.length]? = some entry := by
    rw [List.getElem?_append_right le_rfl, Nat.sub_self]
    rfl
  have herase : (w'.submitting ++ [entry]).eraseIdx w'.submitting.length = w'.submitting := by
    rw [List.eraseIdx_append_of_length_le le_rfl, Nat.sub_self]
    exact List.append_nil _
  rw [hrequeue, hbegin]
  simp only [step, hnth, herase, endRequeue]
  rcases submit w'.objects (w'.jobOf entry.entryId) with ⟨objects, _ | error⟩ <;> rfl

/-! ## What every history keeps -/

/-- The entry that a step requeues, discards or resolves. -/
def handles (w : DLQWorld) : Step → Option DLQEntry
  | .discard _ _ _ identifier => w.dlq.getEntry identifier
  | .resolve _ _ _ _ identifier => w.dlq.getEntry identifier
  | .requeue _ identifier _ _ _ _ => w.dlq.getEntry identifier
  | _ => none

/-- The step handles an entry that is stored under this id, of the same job. -/
def Handles (w : DLQWorld) (l : Step) (entry : DLQEntry) : Prop :=
  ∃ e, w.handles l = some e ∧ w.dlq.entries.get? entry.entryId = some e ∧ e.job = entry.job

/-- Where a change comes from. -/
def Change.Fits (w : DLQWorld) (l : Step) : Change → Prop
  | .nothing => True
  | .marks entry => w.Handles l entry
  | .takesOut entry => w.Handles l entry
  | .adds entry => entry.entryId = w.dlq.nextId
  | .cleansUp now => l = .cleanupExpired now
  | .putsBack entry => entry ∈ w.submitting

/-- **What a step marks or takes out is stored**, and what it puts back was being
submitted. -/
theorem change_fits {w : DLQWorld} (keyed : w.dlq.Keyed) (l : Step) :
    (w.change l).Fits w l := by
  have hfound : ∀ {identifier entry}, w.dlq.getEntry identifier = some entry →
      w.handles l = w.dlq.getEntry identifier → ∀ {entry' : DLQEntry},
      entry'.entryId = entry.entryId → entry.job = entry'.job → w.Handles l entry' := by
    intro identifier entry found handles entry' hid hjob
    refine ⟨entry, handles.trans found, ?_, hjob⟩
    rw [hid]
    exact (keyed.getEntry found).1
  cases l with
  | add now job error traceback retryCount reason => rfl
  | discard now notes resolvedBy identifier =>
    simp only [change]
    cases hentry : w.dlq.getEntry identifier with
    | none => trivial
    | some entry => exact hfound hentry rfl rfl rfl
  | resolve now notes resolvedBy keepInHistory identifier =>
    simp only [change]
    cases hentry : w.dlq.getEntry identifier with
    | none => trivial
    | some entry => cases keepInHistory <;> exact hfound hentry rfl rfl rfl
  | cleanupExpired now => rfl
  | requeue now identifier scheduler resetRetryCount resolvedBy modifier =>
    simp only [change]
    cases hentry : w.dlq.getEntry identifier with
    | none => trivial
    | some entry =>
      dsimp only
      rcases (w.modified resetRetryCount modifier (w.jobOf entry.entryId)).2 with _ | job
      · trivial
      · exact hfound hentry rfl rfl rfl
  | submitted n submit =>
    simp only [change]
    cases hentry : w.submitting[n]? with
    | none => trivial
    | some entry =>
      dsimp only
      rcases (submit w.objects (w.jobOf entry.entryId)).2 with _ | error
      · trivial
      · exact List.mem_of_getElem? hentry
  | write objects => trivial

/-- **What every history keeps**: the tables are consistent, and what is being submitted is not
stored, nor being submitted twice. An id is drawn once, so an entry that comes back finds its
place free. -/
structure Sound (w : DLQWorld) : Prop where
  consistent : w.dlq.Consistent
  away : ∀ e ∈ w.submitting, w.dlq.entries.get? e.entryId = none ∧ e.entryId < w.dlq.nextId
  nodup : (w.submitting.map DLQEntry.entryId).Nodup

namespace Sound

variable {w : DLQWorld}

theorem new (maxEntries : Option ℕ) (ttlSeconds : Option Time) (objects : JobRef → Job) :
    (DLQWorld.new maxEntries ttlSeconds objects).Sound where
  consistent := .empty maxEntries
  away _ he := absurd he List.not_mem_nil
  nodup := List.nodup_nil

/-- A change keeps the tables consistent. What the change must fit is the state it is made in,
which is where each of its entries comes from. -/
theorem consistent_applyTo (h : w.Sound) {l : Step} {c : Change} (fits : c.Fits w l) :
    (c.applyTo w.ttlSeconds w.dlq).Consistent := by
  cases c with
  | nothing => exact h.consistent
  | marks entry =>
    obtain ⟨e, -, he, hjob⟩ := fits
    exact h.consistent.update he hjob
  | takesOut entry =>
    obtain ⟨e, -, he, hjob⟩ := fits
    exact h.consistent.takeOut he hjob
  | adds entry => exact h.consistent.addEntry fits
  | cleansUp now => exact (h.consistent.cleanupExpired now w.ttlSeconds).1
  | putsBack entry =>
    obtain ⟨haway, hold⟩ := h.away entry fits
    exact h.consistent.registerEntry hold haway

/-- **What a change stores** was stored, is new, or is put back. -/
theorem get?_applyTo (h : w.Sound) {l : Step} {c : Change} (fits : c.Fits w l) {i : EntryId}
    {e : DLQEntry} (he : (c.applyTo w.ttlSeconds w.dlq).entries.get? i = some e) :
    (∃ e₀, w.dlq.entries.get? i = some e₀ ∧ e₀.job = e.job)
      ∨ i = w.dlq.nextId ∨ c = .putsBack e := by
  cases c with
  | nothing => exact Or.inl ⟨e, he, rfl⟩
  | marks entry =>
    rcases OrderedDict.get?_set_eq_some he with ⟨rfl, rfl⟩ | ⟨-, hold⟩
    · obtain ⟨e₀, -, he₀, hjob⟩ := fits
      exact Or.inl ⟨e₀, he₀, hjob⟩
    · exact Or.inl ⟨e, hold, rfl⟩
  | takesOut entry =>
    have hget := (DeadLetterQueue.get?_takeOut entry w.dlq i).symm.trans he
    split at hget
    · cases hget
    · exact Or.inl ⟨e, hget, rfl⟩
  | adds entry =>
    have hget := (DeadLetterQueue.get?_addEntry entry w.dlq i).symm.trans he
    split at hget
    · rename_i hi
      exact Or.inr (Or.inl (hi.trans fits))
    · refine Or.inl ⟨e, ?_, rfl⟩
      -- room is made by removing an entry; it changes none
      cases hcapacity : w.dlq.atCapacity with
      | false => rwa [DeadLetterQueue.madeRoom_of_room hcapacity] at hget
      | true =>
        obtain ⟨e', -, -, -, hroom⟩ :=
          DeadLetterQueue.madeRoom_of_full h.consistent.keyed hcapacity
        rw [hroom, DeadLetterQueue.get?_removeEntry] at hget
        split at hget
        · cases hget
        · exact hget
  | cleansUp now =>
    refine Or.inl ⟨e, ?_, rfl⟩
    by_cases hperiod : w.ttlSeconds.getD 0 = 0
    · rwa [Change.applyTo, DeadLetterQueue.cleanupExpired_of_no_period hperiod] at he
    · rw [Change.applyTo, DeadLetterQueue.get?_cleanupExpired hperiod] at he
      split at he
      · cases he
      · exact he
  | putsBack entry =>
    rcases OrderedDict.get?_set_eq_some he with ⟨rfl, rfl⟩ | ⟨-, hold⟩
    · exact Or.inr (Or.inr rfl)
    · exact Or.inl ⟨e, hold, rfl⟩

/-- The next id never goes down, so no id is drawn a second time. -/
theorem nextId_le_applyTo (h : w.Sound) (c : Change) :
    w.dlq.nextId ≤ (c.applyTo w.ttlSeconds w.dlq).nextId := by
  cases c with
  | nothing => exact le_rfl
  | marks entry => exact le_rfl
  | takesOut entry => exact le_of_eq (by rw [Change.applyTo, DeadLetterQueue.takeOut_eq])
  | adds entry => exact Nat.le_succ _
  | cleansUp now => exact (h.consistent.cleanupExpired now w.ttlSeconds).2.ge
  | putsBack entry => exact le_rfl

/-- What is not stored, and is not put back, is not stored after the change either. -/
theorem away_applyTo (h : w.Sound) {l : Step} {c : Change} (fits : c.Fits w l) {i : EntryId}
    (away : w.dlq.entries.get? i = none) (old : i < w.dlq.nextId)
    (other : ∀ e, c = .putsBack e → e.entryId ≠ i) :
    (c.applyTo w.ttlSeconds w.dlq).entries.get? i = none := by
  cases hget : (c.applyTo w.ttlSeconds w.dlq).entries.get? i with
  | none => rfl
  | some e =>
    rcases h.get?_applyTo fits hget with ⟨e₀, he₀, -⟩ | hi | hback
    · cases he₀.symm.trans away
    · exact absurd old (by rw [hi]; exact lt_irrefl _)
    · exact absurd ((h.consistent_applyTo fits).keyed i e hget).1 (other e hback)

/-- **Every step keeps the queue sound.** -/
theorem step (h : w.Sound) (l : Step) : (w.step l).Sound := by
  have hfits := change_fits h.consistent.keyed l
  -- an entry that is being submitted stays out of the queue until its own call puts it back
  have haway : ∀ e ∈ w.submitting, (∀ e', w.change l = .putsBack e' → e'.entryId ≠ e.entryId) →
      (w.step l).dlq.entries.get? e.entryId = none ∧ e.entryId < (w.step l).dlq.nextId := by
    intro e he hother
    obtain ⟨hget, hlt⟩ := h.away e he
    rw [dlq_step]
    exact ⟨h.away_applyTo hfits hget hlt hother, lt_of_lt_of_le hlt (h.nextId_le_applyTo _)⟩
  have hconsistent : (w.step l).dlq.Consistent := by
    rw [dlq_step]
    exact h.consistent_applyTo hfits
  rcases submitting_step w l with ⟨hsame, hnone⟩ | ⟨entry, hchange, hmore⟩
    | ⟨n, entry, hentry, hless, hchange⟩
  · refine ⟨hconsistent, fun e he => ?_, by rw [hsame]; exact h.nodup⟩
    rw [hsame] at he
    exact haway e he (fun e' hback => absurd hback (hnone e'))
  · -- a requeue: its entry joins those that are being submitted, and was stored until now
    rw [hchange] at hfits
    obtain ⟨e₀, -, he₀, -⟩ := hfits
    refine ⟨hconsistent, fun e he => ?_, ?_⟩
    · rw [hmore] at he
      rcases List.mem_append.mp he with he | he
      · exact haway e he (fun e' hback => by rw [hchange] at hback; cases hback)
      · rw [List.mem_singleton.mp he, dlq_step, hchange]
        refine ⟨(DeadLetterQueue.get?_takeOut entry w.dlq _).trans (if_pos rfl), ?_⟩
        exact lt_of_lt_of_le (h.consistent.keyed _ _ he₀).2 (h.nextId_le_applyTo _)
    · rw [hmore, List.map_append]
      refine List.Nodup.append h.nodup (List.nodup_singleton _) ?_
      refine List.disjoint_singleton.mpr (fun hmem => ?_)
      obtain ⟨e, he, hid⟩ := List.mem_map.mp hmem
      have hnone := (h.away e he).1
      rw [hid, he₀] at hnone
      cases hnone
  · -- the end of a submission: what is put back is its own entry, of which there is only the one
    have hnodup := h.nodup
    refine ⟨hconsistent, fun e he => ?_, ?_⟩
    · rw [hless] at he
      refine haway e (List.mem_of_mem_eraseIdx he) (fun e' hback hid => ?_)
      have hsame : e' = entry := by
        rcases hchange with hnothing | hputs
        · rw [hnothing] at hback
          cases hback
        · rw [hputs] at hback
          cases hback
          rfl
      rw [hsame] at hid
      obtain ⟨m, hm, he⟩ := List.mem_eraseIdx_iff_getElem?.mp he
      have hlt : m < (w.submitting.map DLQEntry.entryId).length := by
        rw [List.length_map]
        exact (List.getElem?_eq_some_iff.mp he).1
      refine hm ((List.getElem?_inj hlt hnodup).mp ?_)
      rw [List.getElem?_map, List.getElem?_map, he, hentry, Option.map_some, Option.map_some,
        hid]
    · rw [hless]
      exact hnodup.sublist ((List.eraseIdx_sublist _ _).map _)

end Sound

/-- Every history keeps the queue sound. -/
theorem sound_after {w : DLQWorld} (h : w.Sound) (ls : List Step) :
    (History.after step w ls).Sound :=
  History.invariant_of_kept h (fun _ l hw => hw.step l) ls

/-- A queue that has been used in any way since it was constructed. -/
def Reachable (w : DLQWorld) : Prop :=
  ∃ maxEntries ttlSeconds objects ls,
    w = History.after step (new maxEntries ttlSeconds objects) ls

theorem Reachable.sound {w : DLQWorld} (h : w.Reachable) : w.Sound := by
  obtain ⟨maxEntries, ttlSeconds, objects, ls, rfl⟩ := h
  exact sound_after (.new maxEntries ttlSeconds objects) ls

end DLQWorld

end JobOrchestrator
