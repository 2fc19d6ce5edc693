import JobOrchestrator.Scheduler.DLQRun

/-!
# Looking an entry up by its job

The index of the dead letter queue has one place for a job, of which several entries may
be stored. It never leads to an entry that is gone, but it may lead nowhere: whichever
entry of a job is removed, `_remove_entry` clears the place of the job. And an entry that
`requeue` puts back takes the place, however old it is.

`DLQWorld.KeepsLookup` says of each step when it does no harm, and by
`DLQWorld.lookup_iff` the lookup is complete throughout exactly the histories of such
steps.
-/

namespace JobOrchestrator

namespace DeadLetterQueue

variable {d : DeadLetterQueue} {entry e : DLQEntry} {i : EntryId} {k : UUID}

/-- **The lookup by job is complete**: for every stored entry it finds an entry of the same job,
the newest one that is stored; and no place of the index leads to an entry that is not stored.
The index has one place for a job, while entries of the same job may be many. -/
structure LookupComplete (d : DeadLetterQueue) : Prop where
  found : ∀ i e, d.entries.get? i = some e → ∃ e', d.getEntry (.job e.job) = some e'
    ∧ e'.job = e.job
    ∧ ∀ i' e'', d.entries.get? i' = some e'' → e''.job = e.job → e''.entryId ≤ e'.entryId
  indexed : ∀ k i, d.jobIndex.get? k = some i → ∃ e, d.entries.get? i = some e

/-- The index leads from the job of every stored entry to this entry or a newer one. -/
def Leads (d : DeadLetterQueue) : Prop :=
  ∀ i e, d.entries.get? i = some e → ∃ j, d.jobIndex.get? e.job = some j ∧ i ≤ j

/-- With consistent tables, that is all. No place leads to an entry that is not stored; what may
go wrong is that a place is missing or leads to an older one. -/
theorem Consistent.lookupComplete_iff (h : d.Consistent) : d.LookupComplete ↔ d.Leads := by
  constructor
  · intro hcomplete i e he
    obtain ⟨e', hfound, -, hnewest⟩ := hcomplete.found i e he
    obtain ⟨j, hj, hstored⟩ := Option.bind_eq_some_iff.mp hfound
    refine ⟨j, hj, ?_⟩
    have hle := hnewest i e he rfl
    rwa [(h.keyed i e he).1, (h.keyed j e' hstored).1] at hle
  · intro hleads
    refine ⟨fun i e he => ?_, fun k i hi => ?_⟩
    · obtain ⟨j, hj, -⟩ := hleads i e he
      obtain ⟨e', hstored, hjob⟩ := h.indexed e.job j hj
      refine ⟨e', Option.bind_eq_some_iff.mpr ⟨j, hj, hstored⟩, hjob, fun i' e'' he'' hsame => ?_⟩
      obtain ⟨j', hj', hle⟩ := hleads i' e'' he''
      rw [hsame, hj] at hj'
      cases hj'
      rwa [(h.keyed i' e'' he'').1, (h.keyed j e' hstored).1]
    · obtain ⟨e, he, -⟩ := h.indexed k i hi
      exact ⟨e, he⟩

/-- Stored entries with one id are one. -/
theorem Keyed.mem_values_iff (h : d.Keyed) :
    e ∈ d.entries.values ↔ d.entries.get? e.entryId = some e := by
  rw [OrderedDict.mem_values_iff]
  constructor
  · rintro ⟨i, hi⟩
    rw [(h i e hi).1]
    exact hi
  · exact fun h => ⟨e.entryId, h⟩

/-! ## Each change -/

/-- **Clearing the place of an entry's job** does no harm where no other entry of the job is
left. -/
theorem leads_iff_of_cleared {d' : DeadLetterQueue} (h : d.Leads) (keyed : d.Keyed)
    (old : DLQEntry → Prop) (cleared : UUID → Prop)
    (stays : ∀ i e, d'.entries.get? i = some e ↔ d.entries.get? i = some e ∧ ¬ old e)
    (cut : ∀ k, cleared k → d'.jobIndex.get? k = none)
    (uncut : ∀ k, ¬ cleared k → d'.jobIndex.get? k = d.jobIndex.get? k) :
    d'.Leads ↔ ∀ e ∈ d.entries.values, cleared e.job → old e := by
  constructor
  · intro hleads e he hcleared
    by_contra hkept
    have hstored := (stays e.entryId e).mpr ⟨keyed.mem_values_iff.mp he, hkept⟩
    obtain ⟨j, hj, -⟩ := hleads e.entryId e hstored
    rw [cut e.job hcleared] at hj
    cases hj
  · intro hall i e he
    obtain ⟨hstored, hkept⟩ := (stays i e).mp he
    obtain ⟨j, hj, hle⟩ := h i e hstored
    have hcleared : ¬ cleared e.job :=
      fun hc => hkept (hall e (OrderedDict.mem_values_iff.mpr ⟨i, hstored⟩) hc)
    exact ⟨j, (uncut e.job hcleared).trans hj, hle⟩

theorem leads_takeOut_iff (h : d.Leads) (keyed : d.Keyed) (entry : DLQEntry) :
    (d.takeOut entry).Leads
      ↔ ∀ e ∈ d.entries.values, e.job = entry.job → e.entryId = entry.entryId := by
  refine leads_iff_of_cleared h keyed (fun e => e.entryId = entry.entryId)
    (fun k => k = entry.job) (fun i e => ?_) (fun k hk => ?_) (fun k hk => ?_)
  · rw [get?_takeOut]
    split
    · rename_i hi
      refine iff_of_false (fun hnone => by cases hnone) (fun hold => hold.2 ?_)
      rw [(keyed i e hold.1).1, hi]
    · rename_i hi
      refine (and_iff_left_of_imp (fun hold heq => hi ?_)).symm
      rw [← (keyed i e hold).1, heq]
  · exact (jobIndex_takeOut entry d k).trans (if_pos hk)
  · exact (jobIndex_takeOut entry d k).trans (if_neg hk)

theorem leads_cleanupExpired_iff (h : d.Leads) (keyed : d.Keyed) (now : Time)
    {ttlSeconds : Option Time} (period : ttlSeconds.getD 0 ≠ 0) :
    (d.cleanupExpired now ttlSeconds).2.Leads
      ↔ ∀ e ∈ d.entries.values,
        (∃ e' ∈ d.entries.values, isExpired now (ttlSeconds.getD 0) e' = true ∧ e'.job = e.job) →
        isExpired now (ttlSeconds.getD 0) e = true := by
  refine leads_iff_of_cleared h keyed (fun e => isExpired now (ttlSeconds.getD 0) e = true)
    (fun k => ∃ e' ∈ d.entries.values, isExpired now (ttlSeconds.getD 0) e' = true ∧ e'.job = k)
    (fun i e => ?_) (fun k hk => ?_) (fun k hk => ?_)
  · rw [get?_cleanupExpired period]
    split
    · rename_i hexpired
      obtain ⟨e', he', hold⟩ := hexpired
      refine iff_of_false (fun hnone => by cases hnone) (fun hstored => hstored.2 ?_)
      cases he'.symm.trans hstored.1
      exact hold
    · rename_i hkept
      exact (and_iff_left_of_imp (fun he hold => hkept ⟨e, he, hold⟩)).symm
  · exact (jobIndex_cleanupExpired period now d k).trans (if_pos hk)
  · exact (jobIndex_cleanupExpired period now d k).trans (if_neg hk)

/-- **A new entry** takes the place of its job; the others are led to as in the queue that room
was made in. -/
theorem leads_addEntry_iff_others (consistent : d.Consistent) (new : entry.entryId = d.nextId) :
    (d.addEntry entry).Leads
      ↔ ∀ i e, d.madeRoom.entries.get? i = some e → e.job ≠ entry.job →
        ∃ j, d.madeRoom.jobIndex.get? e.job = some j ∧ i ≤ j := by
  obtain ⟨hroom, hnext⟩ := consistent.madeRoom
  have hlt : ∀ i e, d.madeRoom.entries.get? i = some e → i < entry.entryId :=
    fun i e he => lt_of_lt_of_eq (hroom.keyed i e he).2 (hnext.trans new.symm)
  have hown : (d.addEntry entry).jobIndex.get? entry.job = some entry.entryId :=
    (jobIndex_addEntry entry d entry.job).trans (if_pos rfl)
  constructor
  · intro hleads i e he hjob
    obtain ⟨j, hj, hle⟩ := hleads i e
      ((get?_addEntry entry d i).trans ((if_neg (ne_of_lt (hlt i e he))).trans he))
    rw [jobIndex_addEntry, if_neg hjob] at hj
    exact ⟨j, hj, hle⟩
  · intro hothers i e he
    rw [get?_addEntry] at he
    split at he
    · rename_i hi
      cases he
      exact ⟨_, hown, hi.le⟩
    · by_cases hjob : e.job = entry.job
      · exact ⟨_, by rw [hjob, hown], (hlt i e he).le⟩
      · rw [jobIndex_addEntry, if_neg hjob]
        exact hothers i e he hjob

/-- What `add` cleared of the index, to make room. -/
theorem leads_addEntry_iff (h : d.Leads) (consistent : d.Consistent)
    (new : entry.entryId = d.nextId) :
    (d.addEntry entry).Leads
      ↔ (d.atCapacity = true → ∀ e₁, oldest d.entries.values = some e₁ → e₁.job ≠ entry.job →
        ∀ e ∈ d.entries.values, e.job = e₁.job → e.entryId = e₁.entryId) := by
  have hkeyed := consistent.keyed
  rw [leads_addEntry_iff_others consistent new]
  cases hcapacity : d.atCapacity with
  | false =>
    rw [madeRoom_of_room hcapacity]
    exact iff_of_true (fun i e he _ => h i e he) (fun hfull => by cases hfull)
  | true =>
    obtain ⟨e₁, holdest, hstored₁, -, hroom⟩ := madeRoom_of_full hkeyed hcapacity
    -- making room drops the slot of the oldest entry's job, whoever stands in it
    have hindex : ∀ k, (d.removeEntry e₁.entryId).jobIndex.get? k
        = if some e₁.job = some k then none else d.jobIndex.get? k := by
      intro k
      rw [jobIndex_removeEntry, hstored₁]
      rfl
    rw [hroom]
    constructor
    · intro hothers _ e₂ he₂ hne e he hjob
      cases holdest.symm.trans he₂
      -- an entry of that job which is left behind has lost its slot
      by_contra hid
      obtain ⟨j, hj, -⟩ := hothers e.entryId e
        ((get?_removeEntry _ _ _).trans ((if_neg hid).trans (hkeyed.mem_values_iff.mp he)))
        (by rw [hjob]; exact hne)
      rw [hindex, hjob, if_pos rfl] at hj
      cases hj
    · intro hall i e he hjob
      rw [get?_removeEntry] at he
      split at he
      · cases he
      · rename_i hid
        have hkept : e₁.job ≠ e.job := by
          intro hsame
          have hsameId := hall rfl e₁ holdest (by rw [hsame]; exact hjob) e
            (OrderedDict.mem_values_iff.mpr ⟨i, he⟩) hsame.symm
          exact hid ((hkeyed i e he).1.symm.trans hsameId)
        rw [hindex, if_neg (fun heq => hkept (Option.some.inj heq))]
        exact h i e he

/-- **An entry that is put back** takes the place of its job. -/
theorem leads_registerEntry_iff (h : d.Leads) (keyed : d.Keyed)
    (away : d.entries.get? entry.entryId = none) :
    (d.registerEntry entry).Leads
      ↔ ∀ e ∈ d.entries.values, e.job = entry.job → e.entryId ≤ entry.entryId := by
  have hindex : ∀ k, (d.registerEntry entry).jobIndex.get? k
      = if k = entry.job then some entry.entryId else d.jobIndex.get? k :=
    fun k => OrderedDict.get?_set _ _ _ _
  constructor
  · intro hleads e he hjob
    have hstored := keyed.mem_values_iff.mp he
    have hne : e.entryId ≠ entry.entryId := by
      intro heq
      rw [heq, away] at hstored
      cases hstored
    obtain ⟨j, hj, hle⟩ := hleads e.entryId e ((OrderedDict.get?_set_ne _ _ hne).trans hstored)
    rw [hindex, if_pos hjob] at hj
    cases hj
    exact hle
  · intro hall i e he
    rw [hindex]
    rcases OrderedDict.get?_set_eq_some he with ⟨rfl, rfl⟩ | ⟨-, hold⟩
    · exact ⟨_, if_pos rfl, le_rfl⟩
    · split
      · rename_i hjob
        refine ⟨_, rfl, ?_⟩
        have hle := hall e (OrderedDict.mem_values_iff.mpr ⟨i, hold⟩) hjob
        rwa [(keyed i e hold).1] at hle
      · exact h i e hold

theorem leads_update (h : d.Leads) (stored : d.entries.get? entry.entryId = some e)
    (job : e.job = entry.job) : (d.update entry).Leads := by
  intro i e' he'
  rcases OrderedDict.get?_set_eq_some he' with ⟨rfl, rfl⟩ | ⟨-, hold⟩
  · rw [← job]
    exact h _ e stored
  · exact h i e' hold

end DeadLetterQueue

namespace DLQWorld

open DeadLetterQueue

variable {w : DLQWorld}

/-! ## Each history -/

/-- **A step does the lookup no harm**: an entry is removed only as the last one of its
job, unless `add` evicts it for an entry of the same job; `cleanup_expired` removes all
entries of a job or none; and no entry is put back while a newer one of its job is
stored. -/
def KeepsLookup (w : DLQWorld) (l : Step) : Prop :=
  match w.change l with
  | .nothing => True
  | .marks _ => True
  | .takesOut entry => ∀ e ∈ w.dlq.entries.values, e.job = entry.job → e.entryId = entry.entryId
  | .adds entry =>
    w.dlq.atCapacity = true → ∀ e₁, oldest w.dlq.entries.values = some e₁ →
      e₁.job ≠ entry.job → ∀ e ∈ w.dlq.entries.values, e.job = e₁.job → e.entryId = e₁.entryId
  | .cleansUp now =>
    w.ttlSeconds.getD 0 ≠ 0 → ∀ e ∈ w.dlq.entries.values,
      (∃ e' ∈ w.dlq.entries.values,
        isExpired now (w.ttlSeconds.getD 0) e' = true ∧ e'.job = e.job) →
      isExpired now (w.ttlSeconds.getD 0) e = true
  | .putsBack entry => ∀ e ∈ w.dlq.entries.values, e.job = entry.job → e.entryId ≤ entry.entryId

/-- **One step keeps the lookup complete exactly where it does no harm.** -/
theorem leads_step_iff (h : w.Sound) (leads : w.dlq.Leads) (l : Step) :
    (w.step l).dlq.Leads ↔ w.KeepsLookup l := by
  have hfits := change_fits h.consistent.keyed l
  unfold KeepsLookup
  rw [dlq_step]
  cases hchange : w.change l with
  | nothing => exact iff_of_true leads trivial
  | marks entry =>
    rw [hchange] at hfits
    obtain ⟨e, -, hstored, hjob⟩ := hfits
    exact iff_of_true (leads_update leads hstored hjob) trivial
  | takesOut entry => exact leads_takeOut_iff leads h.consistent.keyed entry
  | adds entry =>
    rw [hchange] at hfits
    exact leads_addEntry_iff leads h.consistent hfits
  | cleansUp now =>
    show (w.dlq.cleanupExpired now w.ttlSeconds).2.Leads ↔ (w.ttlSeconds.getD 0 ≠ 0 → _)
    by_cases hperiod : w.ttlSeconds.getD 0 = 0
    · rw [cleanupExpired_of_no_period hperiod]
      exact iff_of_true leads (fun hne => absurd hperiod hne)
    · rw [leads_cleanupExpired_iff leads h.consistent.keyed now hperiod]
      exact ⟨fun hall _ => hall, fun hall => hall hperiod⟩
  | putsBack entry =>
    rw [hchange] at hfits
    exact leads_registerEntry_iff leads h.consistent.keyed (h.away entry hfits).1

/-- **The lookup is complete throughout** exactly the histories whose steps do it no
harm. -/
theorem lookup_iff (maxEntries : Option ℕ) (ttlSeconds : Option Time) (objects : JobRef → Job)
    (ls : List Step) :
    (∀ ds, ds <+: ls →
        (History.after step (new maxEntries ttlSeconds objects) ds).dlq.LookupComplete)
      ↔ History.Admitted step KeepsLookup (new maxEntries ttlSeconds objects) ls := by
  have hleads : ∀ ds, (History.after step (new maxEntries ttlSeconds objects) ds).dlq.LookupComplete
      ↔ (History.after step (new maxEntries ttlSeconds objects) ds).dlq.Leads :=
    fun ds => (sound_after (.new maxEntries ttlSeconds objects) ds).consistent.lookupComplete_iff
  simp only [hleads]
  exact History.throughout_iff_admitted (P := fun w => w.dlq.Leads) (I := Sound)
    (fun w l h leads => leads_step_iff h leads l) (fun w l h => h.step l)
    (.new maxEntries ttlSeconds objects) (fun i e he => by cases he) ls

/-- **An entry that its job does not lead to**: a job is added twice, and the older entry is
discarded. -/
theorem lookup_fails :
    ¬ (History.after step (new none none (fun job => { id := job }))
      [.add 0 7 none none none none, .add 1 7 none none none none,
        .discard 2 "" none (.entry 0)]).dlq.LookupComplete := by
  intro h
  obtain ⟨e, hfound, -⟩ := h.found 1 _ rfl
  cases hfound

end DLQWorld

end JobOrchestrator
