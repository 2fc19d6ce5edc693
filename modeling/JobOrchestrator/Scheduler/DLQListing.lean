import JobOrchestrator.Scheduler.DLQRun
import JobOrchestrator.Util.Listing

/-!
# Listings and statistics of the dead letter queue

The functions of `scheduler/dlq.py` that read the entries: `get_all`, the filters, `get_stats` and
the analytics.

`DLQWorld.statistics_sound` is about every state that a queue can get into: the statistics, the
analytics and the listings count the same entries; nothing is ever counted as discarded, and
exactly the entries that were not handled are counted as pending.

`DLQWorld.paging_complete` is about an operator who goes through the pages of `get_all` while the
queue is in use. An entry can be missed only where one that is listed no later, being as new or
newer, is taken out meanwhile: entries that come in push it to a later page, and evictions and the
cleanup take the old ones, from behind it.
-/

namespace JobOrchestrator

open Listing

/-- **`DLQStats`**. -/
structure DLQStats where
  total : ℕ
  pending : ℕ
  requeued : ℕ
  discarded : ℕ
  resolved : ℕ
  oldestEntry : Option DateTime
  newestEntry : Option DateTime
  byErrorType : OrderedDict String ℕ

/-- What `get_failure_analytics` returns. -/
structure FailureAnalytics where
  totalFailures : ℕ
  mostCommonErrors : List (String × ℕ)
  failureRateTrend : List Value := []

namespace DeadLetterQueue

/-! ## The functions -/

/-- The time by which entries are compared. -/
def addedTime (entry : DLQEntry) : Time := entry.addedAt.clock

/-- **`get_all`**. The entries with the status, the newest first, from the offset on and up to
the limit. -/
def getAll (status : Option DLQEntryStatus) (limit : Option ℤ) (offset : ℤ)
    (d : DeadLetterQueue) : List DLQEntry :=
  let entries := match status with
    | none => d.entries.values
    | some status => d.entries.values.filter (fun entry => entry.status = status)
  let entries := descending addedTime entries
  match limit with
  | none => sliceFrom offset entries
  | some limit => slice offset (offset + limit) entries

/-- `filter_by_error_type`. -/
def filterByErrorType (errorType : String) (d : DeadLetterQueue) : List DLQEntry :=
  d.entries.values.filter (fun entry => entry.errorType = errorType)

/-- `filter_by_time`. -/
def filterByTime (start stop : Option DateTime) (d : DeadLetterQueue) : List DLQEntry :=
  d.entries.values.filter (fun entry =>
    !start.any (fun s => entry.addedAt.clock < s.clock)
      && !stop.any (fun e => e.clock < entry.addedAt.clock))

/-- The first of the entries with the greatest `added_at`. -/
def newest : List DLQEntry → Option DLQEntry
  | [] => none
  | entry :: rest =>
    match newest rest with
    | none => some entry
    | some other =>
      if entry.addedAt.clock < other.addedAt.clock then some other else some entry

/-- How many entries have a status. -/
def countStatus (status : DLQEntryStatus) (entries : List DLQEntry) : ℕ :=
  entries.countP (fun entry => entry.status = status)

/-- **`get_stats`**. Each count is over all entries, at one moment. -/
def getStats (d : DeadLetterQueue) : DLQStats where
  total := d.entries.values.length
  pending := countStatus .pending d.entries.values
  requeued := countStatus .requeued d.entries.values
  discarded := countStatus .discarded d.entries.values
  resolved := countStatus .resolved d.entries.values
  oldestEntry := (oldest d.entries.values).map DLQEntry.addedAt
  newestEntry := (newest d.entries.values).map DLQEntry.addedAt
  byErrorType := tally DLQEntry.errorType d.entries.values

/-- `sorted(counts.items(), key=lambda item: item[1], reverse=True)`. -/
def mostCommon (counts : OrderedDict String ℕ) : List (String × ℕ) :=
  descending Prod.snd counts.entries

/-- `get_failure_analytics`. -/
def getFailureAnalytics (d : DeadLetterQueue) : FailureAnalytics :=
  if d.entries.values = [] then ⟨0, [], []⟩
  else
    { totalFailures := d.entries.values.length
      mostCommonErrors := mostCommon (tally DLQEntry.errorType d.entries.values) }

/-- `get_failure_patterns`, with the pattern and the count of each item. -/
def getFailurePatterns (d : DeadLetterQueue) : List (String × ℕ) :=
  mostCommon (tally (fun entry => entry.jobName ++ ":" ++ entry.errorType) d.entries.values)

/-- `get_failure_rate`, with the exact quotient. -/
def getFailureRate (now period : Time) (d : DeadLetterQueue) : ℚ :=
  if period ≤ 0 then 0
  else d.entries.values.countP (fun entry => now - period ≤ entry.addedAt.clock) / period

variable {d : DeadLetterQueue}

/-! ## What the listings and the counts have to do with each other -/

/-- A list without pages: every entry once, the newest first. -/
theorem getAll_all (d : DeadLetterQueue) :
    d.getAll none none 0 = descending addedTime d.entries.values :=
  sliceFrom_zero _

theorem getAll_page (d : DeadLetterQueue) (offset limit : ℕ) :
    d.getAll none (some limit) offset
      = ((descending addedTime d.entries.values).drop offset).take limit :=
  slice_eq offset limit _

/-- The failure rate counts the entries that `filter_by_time` finds in the period. -/
theorem getFailureRate_eq (d : DeadLetterQueue) (now : Time) {period : Time} (h : 0 < period) :
    d.getFailureRate now period
      = (d.filterByTime (some (.utcnow (now - period))) none).length / period := by
  have hcount : d.entries.values.countP (fun entry => now - period ≤ entry.addedAt.clock)
      = (d.filterByTime (some (.utcnow (now - period))) none).length := by
    rw [filterByTime, List.countP_eq_length_filter]
    simp [DateTime.utcnow, ← not_lt]
  rw [getFailureRate, if_neg (not_le.mpr h), hcount]

/-- **The newest entry is the first of the listing.** -/
theorem newest_eq (es : List DLQEntry) : newest es = (descending addedTime es).head? := by
  induction es with
  | nil => rfl
  | cons e es ih =>
    show _ = ((descending addedTime es).orderedInsert _ e).head?
    rw [newest, ih]
    cases hrest : descending addedTime es with
    | nil => rfl
    | cons other rest =>
      rw [List.head?_cons]
      by_cases hlt : e.addedAt.clock < other.addedAt.clock
      · have hnot : ¬ Before addedTime e other := not_le.mpr hlt
        rw [List.orderedInsert_of_not_le _ _ hnot]
        simp [hlt]
      · have hbefore : Before addedTime e other := not_lt.mp hlt
        rw [List.orderedInsert_cons_of_le _ _ hbefore]
        simp [hlt]

theorem countStatus_add (es : List DLQEntry) :
    countStatus .pending es + countStatus .requeued es + countStatus .discarded es
      + countStatus .resolved es = es.length := by
  induction es with
  | nil => rfl
  | cons e es ih =>
    simp only [countStatus, List.countP_cons, List.length_cons] at ih ⊢
    cases e.status <;> simp <;> omega

theorem sum_mostCommon (counts : OrderedDict String ℕ) :
    ((mostCommon counts).map Prod.snd).sum = counts.values.sum :=
  ((perm_descending Prod.snd counts.entries).map Prod.snd).sum_nat

end DeadLetterQueue

namespace DLQWorld

open DeadLetterQueue

variable {w : DLQWorld}

/-! ## What is stored of an entry -/

/-- **What a change writes**: a stored entry is marked as resolved and keeps its time, as does one
that is taken out; a new entry is pending. -/
def Change.Writes (w : DLQWorld) : Change → Prop
  | .marks entry => (∃ e, w.dlq.entries.get? entry.entryId = some e
      ∧ addedTime e = addedTime entry) ∧ entry.status = .resolved ∧ entry.resolved = true
  | .takesOut entry => ∃ e, w.dlq.entries.get? entry.entryId = some e
      ∧ addedTime e = addedTime entry
  | .adds entry => entry.status = .pending ∧ entry.resolved = false
  | _ => True

theorem change_writes (keyed : w.dlq.Keyed) (l : Step) : (w.change l).Writes w := by
  have hfound : ∀ {identifier entry}, w.dlq.getEntry identifier = some entry →
      ∀ {entry' : DLQEntry}, entry'.entryId = entry.entryId → addedTime entry = addedTime entry' →
        ∃ e, w.dlq.entries.get? entry'.entryId = some e ∧ addedTime e = addedTime entry' := by
    intro identifier entry found entry' hid htime
    refine ⟨entry, ?_, htime⟩
    rw [hid]
    exact (keyed.getEntry found).1
  cases l with
  | add now job error traceback retryCount reason => exact ⟨rfl, rfl⟩
  | discard now notes resolvedBy identifier =>
    simp only [change]
    cases hentry : w.dlq.getEntry identifier with
    | none => trivial
    | some entry => exact hfound hentry rfl rfl
  | resolve now notes resolvedBy keepInHistory identifier =>
    simp only [change]
    cases hentry : w.dlq.getEntry identifier with
    | none => trivial
    | some entry =>
      cases keepInHistory with
      | false => exact hfound hentry rfl rfl
      | true => exact ⟨hfound hentry rfl rfl, rfl, rfl⟩
  | cleanupExpired now => trivial
  | requeue now identifier scheduler resetRetryCount resolvedBy modifier =>
    simp only [change]
    cases hentry : w.dlq.getEntry identifier with
    | none => trivial
    | some entry =>
      dsimp only
      rcases (w.modified resetRetryCount modifier (w.jobOf entry.entryId)).2 with _ | job
      · trivial
      · exact hfound hentry rfl rfl
  | submitted n submit =>
    simp only [change]
    cases w.submitting[n]? with
    | none => trivial
    | some entry =>
      dsimp only
      cases (submit w.objects (w.jobOf entry.entryId)).2 <;> trivial
  | write objects => trivial

/-- **What comes to be submitted was requeued.** The first section of `requeue` marks the entry
before it takes it out. -/
theorem mem_submitting_step {e : DLQEntry} {l : Step} (h : e ∈ (w.step l).submitting) :
    e ∈ w.submitting ∨ e.status = .requeued ∧ e.resolved = true := by
  cases l with
  | requeue now identifier scheduler resetRetryCount resolvedBy modifier =>
    simp only [step, beginRequeue] at h
    cases hentry : w.dlq.getEntry identifier with
    | none => exact Or.inl (by simpa [hentry] using h)
    | some entry =>
      rw [hentry] at h
      dsimp only at h
      rcases hmodified : w.modified resetRetryCount modifier (w.jobOf entry.entryId)
        with ⟨objects, _ | job⟩
      · exact Or.inl (by simpa [hmodified] using h)
      · cases scheduler with
        | false => exact Or.inl (by simpa [hmodified] using h)
        | true =>
          have hmem : e ∈ w.submitting ∨ e = requeued now resolvedBy entry := by
            simpa [hmodified] using h
          refine hmem.imp id (fun hnew => ?_)
          rw [hnew]
          exact ⟨rfl, rfl⟩
  | submitted n submit =>
    simp only [step, endRequeue] at h
    cases hentry : w.submitting[n]? with
    | none => exact Or.inl (by simpa [hentry] using h)
    | some entry =>
      rw [hentry] at h
      exact Or.inl (List.mem_of_mem_eraseIdx h)
  | _ => exact Or.inl h

/-- The entry that a change writes, if any. -/
def Change.written : Change → Option DLQEntry
  | .marks entry => some entry
  | .adds entry => some entry
  | .putsBack entry => some entry
  | _ => none

/-- **What is stored after a change** was stored before, or is what it writes. -/
theorem stored_applyTo (h : w.Sound) (c : Change) {i : EntryId} {e : DLQEntry}
    (he : (c.applyTo w.ttlSeconds w.dlq).entries.get? i = some e) :
    w.dlq.entries.get? i = some e ∨ c.written = some e := by
  cases c with
  | nothing => exact Or.inl he
  | marks entry =>
    rcases OrderedDict.get?_set_eq_some he with ⟨-, rfl⟩ | ⟨-, hold⟩
    · exact Or.inr rfl
    · exact Or.inl hold
  | takesOut entry =>
    have hget := (get?_takeOut entry w.dlq i).symm.trans he
    split at hget
    · cases hget
    · exact Or.inl hget
  | adds entry =>
    have hget := (get?_addEntry entry w.dlq i).symm.trans he
    split at hget
    · exact Or.inr hget
    · refine Or.inl ?_
      cases hcapacity : w.dlq.atCapacity with
      | false => rwa [madeRoom_of_room hcapacity] at hget
      | true =>
        obtain ⟨e', -, -, -, hroom⟩ := madeRoom_of_full h.consistent.keyed hcapacity
        rw [hroom, get?_removeEntry] at hget
        split at hget
        · cases hget
        · exact hget
  | cleansUp now =>
    refine Or.inl ?_
    by_cases hperiod : w.ttlSeconds.getD 0 = 0
    · rwa [Change.applyTo, cleanupExpired_of_no_period hperiod] at he
    · rw [Change.applyTo, get?_cleanupExpired hperiod] at he
      split at he
      · cases he
      · exact he
  | putsBack entry =>
    rcases OrderedDict.get?_set_eq_some he with ⟨-, rfl⟩ | ⟨-, hold⟩
    · exact Or.inr rfl
    · exact Or.inl hold

/-- **What the status of an entry says**: it is pending just where the entry was not handled, and
an entry that is being submitted was requeued. Discarding deletes, so the status DISCARDED is on
no entry that is still stored. -/
structure Labelled (w : DLQWorld) : Prop where
  stored : ∀ i e, w.dlq.entries.get? i = some e →
    e.status ≠ .discarded ∧ (e.status = .pending ↔ e.resolved = false)
  submitting : ∀ e ∈ w.submitting, e.status = .requeued ∧ e.resolved = true

theorem Labelled.step (h : w.Labelled) (sound : w.Sound) (l : Step) : (w.step l).Labelled where
  stored i e he := by
    rw [dlq_step] at he
    obtain hold | hwritten := stored_applyTo sound (w.change l) he
    · exact h.stored i e hold
    · have hwrites := change_writes sound.consistent.keyed l
      have hfits := change_fits sound.consistent.keyed l
      generalize w.change l = c at hwritten hwrites hfits
      cases c with
      | marks entry =>
        obtain rfl := Option.some.inj hwritten
        obtain ⟨-, hstatus, hresolved⟩ := hwrites
        simp [hstatus, hresolved]
      | adds entry =>
        obtain rfl := Option.some.inj hwritten
        obtain ⟨hstatus, hresolved⟩ := hwrites
        simp [hstatus, hresolved]
      | putsBack entry =>
        obtain rfl := Option.some.inj hwritten
        obtain ⟨hstatus, hresolved⟩ := h.submitting entry hfits
        simp [hstatus, hresolved]
      | _ => cases hwritten
  submitting e he := (mem_submitting_step he).elim (h.submitting e) id

theorem Reachable.labelled (h : w.Reachable) : w.Labelled := by
  obtain ⟨maxEntries, ttlSeconds, objects, ls, rfl⟩ := h
  have hnew : (new maxEntries ttlSeconds objects).Labelled :=
    ⟨fun i e he => absurd (OrderedDict.get?_empty i ▸ he) (by simp),
      fun e he => absurd he List.not_mem_nil⟩
  exact (History.invariant_of_kept (P := fun w : DLQWorld => w.Sound ∧ w.Labelled)
    ⟨.new maxEntries ttlSeconds objects, hnew⟩
    (fun w l h => ⟨h.1.step l, h.2.step h.1 l⟩) ls).2

/-! ## The statistics -/

/-- **The statistics, the listings and the analytics say the same of the entries.** Statistics,
listings and analytics go through the entries each on its own, and have to come to the same. -/
structure Counted (d : DeadLetterQueue) : Prop where
  total : d.getStats.total = d.entries.size
  /-- A listing without pages is every entry once, the newest first. -/
  listed : (d.getAll none none 0).Perm d.entries.values
    ∧ (d.getAll none none 0).Pairwise (fun a b => b.addedAt.clock ≤ a.addedAt.clock)
  pending : d.getStats.pending = d.entries.values.countP (fun e => !e.resolved)
  discarded : d.getStats.discarded = 0
  /-- The statuses add up. -/
  statuses : d.getStats.pending + d.getStats.requeued + d.getStats.resolved = d.getStats.total
  /-- A listing by status has as many entries as are counted with it. -/
  byStatus : ∀ status, (d.getAll (some status) none 0).length
    = countStatus status d.entries.values
  errorTypes : d.getStats.byErrorType.values.sum = d.getStats.total
    ∧ ∀ errorType, (d.getStats.byErrorType.get? errorType).getD 0
      = (d.filterByErrorType errorType).length
  /-- The oldest and the newest entry are the bounds of the times, and the newest one is the
  first of the listing. -/
  times : (∀ t, d.getStats.oldestEntry = some t → ∀ e ∈ d.entries.values, t.clock ≤ e.addedAt.clock)
    ∧ d.getStats.newestEntry = (d.getAll none none 0).head?.map DLQEntry.addedAt
  analytics : d.getFailureAnalytics.totalFailures = d.getStats.total
    ∧ (d.getFailureAnalytics.mostCommonErrors.map Prod.snd).sum = d.getStats.total
    ∧ (d.getFailurePatterns.map Prod.snd).sum = d.getStats.total
  /-- The rate of failures is that of the entries which a listing by time finds. -/
  rate : ∀ now period, 0 < period → d.getFailureRate now period
    = (d.filterByTime (some (.utcnow (now - period))) none).length / period

/-- **The statistics of a queue**, in every state that it can get into. -/
theorem statistics_sound (maxEntries : Option ℕ) (ttlSeconds : Option Time)
    (objects : JobRef → Job) (ls : List Step) :
    Counted (History.after step (new maxEntries ttlSeconds objects) ls).dlq := by
  have hreachable : Reachable (History.after step (new maxEntries ttlSeconds objects) ls) :=
    ⟨maxEntries, ttlSeconds, objects, ls, rfl⟩
  have hlabelled := hreachable.labelled
  generalize History.after step (new maxEntries ttlSeconds objects) ls = w at hlabelled
  -- no entry is ever stored as discarded, and an entry is pending exactly while it is unresolved
  have hall : ∀ e ∈ w.dlq.entries.values,
      e.status ≠ .discarded ∧ (e.status = .pending ↔ e.resolved = false) := by
    intro e he
    obtain ⟨i, hi⟩ := OrderedDict.mem_values_iff.mp he
    exact hlabelled.stored i e hi
  have hdiscarded : w.dlq.getStats.discarded = 0 :=
    List.countP_eq_zero.mpr (fun e he => by simpa using (hall e he).1)
  have hlength : w.dlq.entries.values.length = w.dlq.entries.size := List.length_map _
  refine ⟨hlength, ?_, ?_, hdiscarded, ?_, fun status => ?_, ⟨?_, fun errorType => ?_⟩,
    ⟨fun t ht e he => ?_, ?_⟩, ?_, fun now period h => getFailureRate_eq w.dlq now h⟩
  · rw [getAll_all]
    exact ⟨perm_descending _ _, pairwise_descending _ _⟩
  · exact List.countP_congr (fun e he => by simpa using (hall e he).2)
  · -- the four counts add up to the total, and the count of the discarded is zero
    have hadd := countStatus_add w.dlq.entries.values
    show countStatus .pending _ + countStatus .requeued _ + countStatus .resolved _ = List.length _
    have hzero : countStatus .discarded w.dlq.entries.values = 0 := hdiscarded
    omega
  · show (sliceFrom 0 (descending addedTime _)).length = _
    rw [sliceFrom_zero, (perm_descending _ _).length_eq, countStatus,
      List.countP_eq_length_filter]
  · exact sum_values_tally _ _
  · show ((tally DLQEntry.errorType _).get? errorType).getD 0 = _
    rw [getD_tally, List.countP_eq_length_filter]
    rfl
  · obtain ⟨entry, hentry, rfl⟩ := Option.map_eq_some_iff.mp ht
    exact (oldest_spec hentry).2 e he
  · rw [getAll_all, ← newest_eq]
    rfl
  · have hpatterns : (w.dlq.getFailurePatterns.map Prod.snd).sum = w.dlq.getStats.total := by
      rw [getFailurePatterns, sum_mostCommon, sum_values_tally]
      rfl
    refine ⟨?_, ?_, hpatterns⟩
    · rw [getFailureAnalytics]
      split
      · rename_i hempty
        show 0 = w.dlq.entries.values.length
        rw [hempty, List.length_nil]
      · rfl
    · show _ = w.dlq.entries.values.length
      rw [getFailureAnalytics]
      split
      · rename_i hempty
        rw [hempty]
        rfl
      · rw [sum_mostCommon, sum_values_tally]

/-! ## Going through the pages -/

/-- The id of an entry and its time, which is all that its place in a listing depends on. -/
def stamp (entry : DLQEntry) : EntryId × Time := (entry.entryId, addedTime entry)

/-- The stamps, in the order of the entries. -/
def stamps (d : DeadLetterQueue) : List (EntryId × Time) := d.entries.values.map stamp

theorem stamps_eq (d : DeadLetterQueue) :
    stamps d = d.entries.entries.map (fun p => stamp p.2) := by
  rw [stamps, OrderedDict.values, List.map_map]
  rfl

/-- **The stamps that are not older** than a time are still there, in their order. -/
def StillThere (t : Time) (d d' : DeadLetterQueue) : Prop :=
  ((stamps d).filter (fun s => t ≤ s.2)).Sublist (stamps d')

namespace StillThere

variable {t : Time} {d d' d'' : DeadLetterQueue}

theorem refl (t : Time) (d : DeadLetterQueue) : StillThere t d d := List.filter_sublist

theorem trans (h : StillThere t d d') (h' : StillThere t d' d'') : StillThere t d d'' := by
  have hfilter := List.Sublist.filter (fun s : EntryId × Time => decide (t ≤ s.2)) h
  rw [List.filter_filter] at hfilter
  simp only [Bool.and_self] at hfilter
  exact hfilter.trans h'

theorem of_eq (h : stamps d' = stamps d) : StillThere t d d' := by
  rw [StillThere, h]
  exact List.filter_sublist

/-- **Taking out an older entry** leaves every newer one where it is. -/
theorem removeEntry {i : EntryId}
    (older : ∀ e, d.entries.get? i = some e → addedTime e < t) :
    StillThere t d (d.removeEntry i) := by
  rw [DeadLetterQueue.removeEntry]
  split
  · exact refl t d
  · rename_i e he
    show ((stamps d).filter (fun s => t ≤ s.2)).Sublist
      (((d.entries.entries.filter (fun p => p.1 ≠ i)).map Prod.snd).map stamp)
    -- what is not older is none of what is erased
    have hselect : d.entries.entries.filter (fun p => t ≤ addedTime p.2)
        = (d.entries.entries.filter (fun p => p.1 ≠ i)).filter (fun p => t ≤ addedTime p.2) := by
      rw [List.filter_filter]
      refine List.filter_congr (fun p hp => ?_)
      by_cases hi : p.1 = i
      · have hold := older p.2 (OrderedDict.get?_eq_some_iff.mpr (hi ▸ hp))
        simp [hi, hold]
      · simp [hi]
    rw [stamps_eq, List.filter_map, List.map_map]
    refine List.Sublist.map _ ?_
    show (d.entries.entries.filter (fun p => t ≤ addedTime p.2)).Sublist _
    rw [hselect]
    exact List.filter_sublist

/-- **Cleaning up older entries**: nothing that is newer than the reading minus the period is
dropped. -/
theorem dropExpired {now ttl : Time} (spares : now - ttl ≤ t) {ps : List (EntryId × DLQEntry)}
    (stored : ∀ p ∈ ps, d.entries.get? p.1 = some p.2) {r : ℕ × DeadLetterQueue}
    (left : ∀ i e, r.2.entries.get? i = some e → d.entries.get? i = some e)
    (h : StillThere t d r.2) : StillThere t d (DeadLetterQueue.dropExpired now ttl ps r).2 := by
  induction ps generalizing r with
  | nil => exact h
  | cons p ps ih =>
    have hrest : ∀ p ∈ ps, d.entries.get? p.1 = some p.2 :=
      fun p hp => stored p (List.mem_cons_of_mem _ hp)
    show StillThere t d (DeadLetterQueue.dropExpired now ttl ps
      (if isExpired now ttl p.2 then _ else r)).2
    by_cases hexpired : isExpired now ttl p.2 = true
    · rw [if_pos hexpired]
      refine ih hrest (fun i e he => ?_) (h.trans (.removeEntry (fun e he => ?_)))
      · rw [get?_removeEntry] at he
        split at he
        · cases he
        · exact left i e he
      · have hsame := (left _ e he).symm.trans (stored p List.mem_cons_self)
        rw [Option.some.inj hsame]
        exact lt_of_lt_of_le (of_decide_eq_true hexpired) spares
    · rw [if_neg hexpired]
      exact ih hrest left h

/-- **Writing an entry with the time it has**, or a new one. -/
theorem set {entry : DLQEntry} (written : d'.entries = d.entries.set entry.entryId entry)
    (same : ∀ e, d.entries.get? entry.entryId = some e → stamp e = stamp entry) :
    StillThere t d d' := by
  cases hget : d.entries.get? entry.entryId with
  | none =>
    refine List.filter_sublist.trans ?_
    rw [stamps_eq, stamps_eq, written, OrderedDict.entries_set_of_none entry hget,
      List.map_append]
    exact List.sublist_append_left _ _
  | some e =>
    refine of_eq ?_
    rw [stamps_eq, stamps_eq, written]
    exact OrderedDict.map_entries_set_of_some _ hget (same e hget).symm

end StillThere

/-- **What a step spares**: it takes out, evicts and cleans up older entries only. -/
def Spares (t : Time) (w : DLQWorld) (l : Step) : Prop :=
  match w.change l with
  | .takesOut entry => addedTime entry < t
  | .adds _ => w.dlq.atCapacity = true →
    ∀ e ∈ oldest w.dlq.entries.values, addedTime e < t
  | .cleansUp now => w.ttlSeconds.getD 0 ≠ 0 → now - w.ttlSeconds.getD 0 ≤ t
  | _ => True

theorem stillThere_step {t : Time} (h : w.Sound) {l : Step} (spares : w.Spares t l) :
    StillThere t w.dlq (w.step l).dlq := by
  have hkeyed := h.consistent.keyed
  have hwrites := change_writes hkeyed l
  have hfits := change_fits hkeyed l
  rw [dlq_step]
  unfold Spares at spares
  generalize w.change l = c at spares hwrites hfits
  cases c with
  | nothing => exact .refl t _
  | marks entry =>
    obtain ⟨⟨e, he, htime⟩, -, -⟩ := hwrites
    refine .set rfl (fun e' he' => ?_)
    obtain rfl := Option.some.inj (he'.symm.trans he)
    rw [stamp, stamp, htime, (hkeyed _ _ he).1]
  | takesOut entry =>
    obtain ⟨e, he, htime⟩ := hwrites
    -- first the marks, which keep id and time, then the removal of an entry that is late enough
    have hmarked : StillThere t w.dlq (w.dlq.update entry) := by
      refine .set rfl (fun e' he' => ?_)
      obtain rfl := Option.some.inj (he'.symm.trans he)
      rw [stamp, stamp, htime, (hkeyed _ _ he).1]
    refine hmarked.trans (.removeEntry (fun e' he' => ?_))
    rw [show (w.dlq.update entry).entries.get? entry.entryId = some entry from
      OrderedDict.get?_set_self _ _ _] at he'
    exact Option.some.inj he' ▸ spares
  | adds entry =>
    -- the eviction that makes room comes before the new entry, which has a new id
    have hroom : StillThere t w.dlq w.dlq.madeRoom := by
      cases hcapacity : w.dlq.atCapacity with
      | false =>
        rw [madeRoom_of_room hcapacity]
        exact .refl t _
      | true =>
        obtain ⟨e, holdest, hstored, -, hmade⟩ := madeRoom_of_full hkeyed hcapacity
        rw [hmade]
        refine .removeEntry (fun e' he' => ?_)
        obtain rfl := Option.some.inj (he'.symm.trans hstored)
        exact spares hcapacity _ holdest
    refine hroom.trans (.set rfl (fun e' he' => ?_))
    obtain ⟨hconsistent, hnext⟩ := h.consistent.madeRoom
    obtain ⟨hid, hlt⟩ := hconsistent.keyed _ _ he'
    rw [hfits, hnext] at hlt
    exact absurd hlt (lt_irrefl _)
  | cleansUp now =>
    show StillThere t w.dlq (w.dlq.cleanupExpired now w.ttlSeconds).2
    rw [cleanupExpired]
    split
    · exact .refl t _
    · rename_i hperiod
      exact .dropExpired (spares hperiod) (fun p hp => OrderedDict.get?_eq_some_iff.mpr hp)
        (fun _ _ he => he) (.refl t _)
  | putsBack entry =>
    refine .set rfl (fun e' he' => ?_)
    rw [(h.away entry hfits).1] at he'
    cases he'

/-- **A run of sparing steps** takes none of the newer entries away, so the pages of a listing
still fit together. -/
theorem stillThere_after {t : Time} (h : w.Sound) {ls : List Step}
    (spared : History.Admitted step (Spares t) w ls) :
    StillThere t w.dlq (History.after step w ls).dlq ∧ (History.after step w ls).Sound := by
  induction ls generalizing w with
  | nil => exact ⟨.refl t _, h⟩
  | cons l ls ih =>
    obtain ⟨hrest, hsound⟩ := ih (h.step l) spared.2
    exact ⟨(stillThere_step h spared.1).trans hrest, hsound⟩

/-- What a reader of the pages finds, who lets others work between two pages. -/
def atPage (w : DLQWorld) (between : ℕ → List Step) : ℕ → DLQWorld
  | 0 => w
  | n + 1 => History.after step (atPage w between n) (between n)

/-- **Going through the pages of the queue.** A reader asks for pages of one size, one after the
other, up to one that is not full, while anything is done to the queue between the pages. An entry
that was stored at the start is on one of the pages, if what was taken out, evicted or cleaned up
meanwhile was older. -/
theorem paging_complete (maxEntries : Option ℕ) (ttlSeconds : Option Time)
    (objects : JobRef → Job) (before : List Step) (between : ℕ → List Step) (limit n : ℕ)
    (entry : DLQEntry) :
    let w := atPage (History.after step (new maxEntries ttlSeconds objects) before) between
    let page (k : ℕ) := (w k).dlq.getAll none (some limit) (k * limit : ℕ)
    entry ∈ (w 0).dlq.entries.values →
      (∀ k < n, History.Admitted step (Spares (addedTime entry)) (w k) (between k)) →
        (page n).length < limit →
          ∃ k ≤ n, stamp entry ∈ (page k).map stamp := by
  intro w page hentry spared hlast
  have hsound : ∀ k ≤ n, (w k).Sound := by
    intro k
    induction k with
    | zero => exact fun _ => sound_after (.new maxEntries ttlSeconds objects) before
    | succ k ih => exact fun hk => (stillThere_after (ih (by omega)) (spared k (by omega))).2
  have hstays : ∀ k < n, StillThere (addedTime entry) (w k).dlq (w (k + 1)).dlq :=
    fun k hk => (stillThere_after (hsound k hk.le) (spared k hk)).1
  have hthere : ∀ k ≤ n, stamp entry ∈ stamps (w k).dlq := by
    intro k
    induction k with
    | zero => exact fun _ => List.mem_map_of_mem hentry
    | succ k ih =>
      intro hk
      refine (hstays k (by omega)).subset (List.mem_filter.mpr ⟨ih (by omega), ?_⟩)
      exact decide_eq_true (le_refl (addedTime entry))
  have hpage : ∀ k, (page k).map stamp
      = ((descending Prod.snd (stamps (w k).dlq)).drop (k * limit)).take limit := by
    intro k
    show ((w k).dlq.getAll none (some limit) (k * limit : ℕ)).map stamp = _
    rw [getAll_page, List.map_take, List.map_drop,
      map_descending addedTime stamp Prod.snd _ (fun _ _ => rfl)]
    rfl
  obtain ⟨k, hk, hmem⟩ := exists_page Prod.snd hthere hstays (by
    rw [← hpage, List.length_map]
    exact hlast)
  exact ⟨k, hk, by rwa [hpage]⟩

/-- A job that fails between the first page and the second. -/
def failsBetween (n : ℕ) : List Step := if n = 0 then [.add 2 2 none none none none] else []

/-- The older of two entries is seen, though a third one comes in while the pages are read. -/
theorem paging_complete_two :
    let w := atPage (History.after step (new none none (fun job => { id := job }))
      [.add 0 0 none none none none, .add 1 1 none none none none]) failsBetween
    (∃ k ≤ 3, (0, 0) ∈ ((w k).dlq.getAll none (some 1) (k * 1 : ℕ)).map stamp)
      ∧ ((w 1).dlq.getAll none (some 1) (1 * 1 : ℕ)).map stamp = [(1, 1)] := by
  intro w
  obtain ⟨entry, hentry, hstamp⟩ : ∃ entry ∈ (w 0).dlq.entries.values, stamp entry = (0, 0) :=
    ⟨_, List.mem_cons_self, rfl⟩
  have hseen := paging_complete none none (fun job => { id := job })
    [.add 0 0 none none none none, .add 1 1 none none none none] failsBetween 1 3 entry hentry
    (fun k _ => ?_) (by decide +kernel)
  · rw [hstamp] at hseen
    exact ⟨hseen, by decide +kernel⟩
  · cases k with
    | zero => exact ⟨fun full => absurd full (by decide +kernel), trivial⟩
    | succ k => exact trivial

end DLQWorld

end JobOrchestrator
