import JobOrchestrator.Scheduler.DeadLetterQueue

/-!
# The two tables of the dead letter queue

What the entries and the index of `scheduler/dlq.py` hold after each of its operations,
read key by key: after an entry is taken out, after `add` with the eviction it may begin
with, and after `cleanup_expired`.

The index has one place for a job, and `_remove_entry` clears it whichever entry of the
job goes: `DeadLetterQueue.jobIndex_removeEntry`.
-/

namespace JobOrchestrator

namespace DeadLetterQueue

variable {d : DeadLetterQueue} {entry : DLQEntry} {i : EntryId} {k : UUID}

/-! ## Reading after an operation -/

/-- **`_remove_entry`** takes out one entry. -/
theorem get?_removeEntry (i i' : EntryId) (d : DeadLetterQueue) :
    (d.removeEntry i).entries.get? i' = if i' = i then none else d.entries.get? i' := by
  unfold removeEntry
  split
  · rename_i hnone
    split
    · rename_i heq
      rw [heq]
      exact hnone
    · rfl
  · exact OrderedDict.get?_erase _ _ _

/-- And it takes the job of the entry out of the index, whichever entry that led to. -/
theorem jobIndex_removeEntry (i : EntryId) (k : UUID) (d : DeadLetterQueue) :
    (d.removeEntry i).jobIndex.get? k
      = if (d.entries.get? i).map DLQEntry.job = some k then none else d.jobIndex.get? k := by
  unfold removeEntry
  cases hentry : d.entries.get? i with
  | none => rfl
  | some entry =>
    show (d.jobIndex.erase entry.job).get? k = _
    rw [OrderedDict.get?_erase]
    exact if_congr (by rw [Option.map_some, Option.some.injEq, eq_comm]) rfl rfl

/-- **The first of the oldest entries** is one of them, and no entry is older. -/
theorem oldest_spec {es : List DLQEntry} (h : oldest es = some entry) :
    entry ∈ es ∧ ∀ e ∈ es, entry.addedAt.clock ≤ e.addedAt.clock := by
  induction es generalizing entry with
  | nil => cases h
  | cons e es ih =>
    rw [oldest] at h
    cases hrest : oldest es with
    | none =>
      rw [hrest] at h
      have hempty : es = [] := by
        cases es with
        | nil => rfl
        | cons e' es =>
          rw [oldest] at hrest
          split at hrest
          · cases hrest
          · split at hrest <;> cases hrest
      cases h
      rw [hempty]
      exact ⟨List.mem_cons_self, fun e' he' => le_of_eq (by rw [List.mem_singleton.mp he'])⟩
    | some other =>
      obtain ⟨hmem, hleast⟩ := ih hrest
      rw [hrest] at h
      simp only at h
      split at h
      · rename_i hlt
        cases h
        refine ⟨List.mem_cons_of_mem _ hmem, fun e' he' => ?_⟩
        rcases List.mem_cons.mp he' with rfl | he'
        · exact le_of_lt hlt
        · exact hleast e' he'
      · rename_i hnot
        cases h
        refine ⟨List.mem_cons_self, fun e' he' => ?_⟩
        rcases List.mem_cons.mp he' with rfl | he'
        · exact le_rfl
        · exact (not_lt.mp hnot).trans (hleast e' he')

theorem exists_oldest {es : List DLQEntry} (h : es ≠ []) : ∃ e, oldest es = some e := by
  cases es with
  | nil => exact absurd rfl h
  | cons e es =>
    rw [oldest]
    split
    · exact ⟨_, rfl⟩
    · split <;> exact ⟨_, rfl⟩

/-- What `cleanup_expired` does with a list of entries. -/
def dropExpired (now ttl : Time) (ps : List (EntryId × DLQEntry)) (r : ℕ × DeadLetterQueue) :
    ℕ × DeadLetterQueue :=
  ps.foldl (fun r p => if isExpired now ttl p.2 then (r.1 + 1, r.2.removeEntry p.1) else r) r

/-- What is left of the entries after the loop over the expired ones. -/
theorem get?_dropExpired (now ttl : Time) (ps : List (EntryId × DLQEntry))
    (r : ℕ × DeadLetterQueue) (i : EntryId) :
    (dropExpired now ttl ps r).2.entries.get? i
      = if ∃ p ∈ ps, isExpired now ttl p.2 = true ∧ p.1 = i then none else r.2.entries.get? i := by
  induction ps generalizing r with
  | nil => exact (if_neg (by simp)).symm
  | cons p ps ih =>
    show (dropExpired now ttl ps (if isExpired now ttl p.2 then _ else r)).2.entries.get? i = _
    rw [ih]
    by_cases hrest : ∃ p ∈ ps, isExpired now ttl p.2 = true ∧ p.1 = i
    · obtain ⟨p', hp', hold⟩ := hrest
      rw [if_pos ⟨p', hp', hold⟩, if_pos ⟨p', List.mem_cons_of_mem _ hp', hold⟩]
    · have hsplit : (∃ p' ∈ p :: ps, isExpired now ttl p'.2 = true ∧ p'.1 = i)
          ↔ isExpired now ttl p.2 = true ∧ p.1 = i := by
        rw [List.exists_mem_cons_iff]
        exact or_iff_left hrest
      rw [if_neg hrest]
      simp only [hsplit]
      by_cases hexpired : isExpired now ttl p.2 = true
      · rw [if_pos hexpired, get?_removeEntry]
        exact if_congr ⟨fun h => ⟨hexpired, h.symm⟩, fun h => h.2.symm⟩ rfl rfl
      · rw [if_neg hexpired, if_neg (fun h => hexpired h.1)]

/-- What is left of the index: an expired entry takes its job with it. -/
theorem jobIndex_dropExpired (now ttl : Time) (ps : List (EntryId × DLQEntry))
    (r : ℕ × DeadLetterQueue) (stored : ∀ p ∈ ps, r.2.entries.get? p.1 = some p.2)
    (nodup : (ps.map Prod.fst).Nodup) (k : UUID) :
    (dropExpired now ttl ps r).2.jobIndex.get? k
      = if ∃ p ∈ ps, isExpired now ttl p.2 = true ∧ p.2.job = k then none
        else r.2.jobIndex.get? k := by
  induction ps generalizing r with
  | nil => exact (if_neg (by simp)).symm
  | cons p ps ih =>
    have hp := stored p List.mem_cons_self
    obtain ⟨hfresh, hnodup⟩ := List.nodup_cons.mp nodup
    show (dropExpired now ttl ps (if isExpired now ttl p.2 then _ else r)).2.jobIndex.get? k = _
    have hstored : ∀ q ∈ ps, (if isExpired now ttl p.2 then (r.1 + 1, r.2.removeEntry p.1)
        else r).2.entries.get? q.1 = some q.2 := by
      intro q hq
      have hne : q.1 ≠ p.1 := fun heq => hfresh (heq ▸ List.mem_map_of_mem hq)
      split
      · rw [get?_removeEntry, if_neg hne]
        exact stored q (List.mem_cons_of_mem _ hq)
      · exact stored q (List.mem_cons_of_mem _ hq)
    rw [ih _ hstored hnodup]
    by_cases hrest : ∃ p ∈ ps, isExpired now ttl p.2 = true ∧ p.2.job = k
    · obtain ⟨p', hp', hold⟩ := hrest
      rw [if_pos ⟨p', hp', hold⟩, if_pos ⟨p', List.mem_cons_of_mem _ hp', hold⟩]
    · have hsplit : (∃ p' ∈ p :: ps, isExpired now ttl p'.2 = true ∧ p'.2.job = k)
          ↔ isExpired now ttl p.2 = true ∧ p.2.job = k := by
        rw [List.exists_mem_cons_iff]
        exact or_iff_left hrest
      rw [if_neg hrest]
      simp only [hsplit]
      by_cases hexpired : isExpired now ttl p.2 = true
      · rw [if_pos hexpired, jobIndex_removeEntry, hp]
        exact if_congr ⟨fun h => ⟨hexpired, Option.some.inj h⟩, fun h => congrArg some h.2⟩
          rfl rfl
      · rw [if_neg hexpired, if_neg (fun h => hexpired h.1)]

/-- Reading after **`cleanup_expired`**: an entry is gone exactly where it has expired at the
reading, whatever its status. -/
theorem get?_cleanupExpired {ttlSeconds : Option Time} (period : ttlSeconds.getD 0 ≠ 0)
    (now : Time) (d : DeadLetterQueue) (i : EntryId) :
    (d.cleanupExpired now ttlSeconds).2.entries.get? i
      = if ∃ e, d.entries.get? i = some e ∧ isExpired now (ttlSeconds.getD 0) e = true then none
        else d.entries.get? i := by
  unfold cleanupExpired
  rw [if_neg period]
  refine (get?_dropExpired now _ d.entries.entries (0, d) i).trans (if_congr ?_ rfl rfl)
  constructor
  · rintro ⟨⟨i', e⟩, hmem, hexpired, rfl⟩
    exact ⟨e, OrderedDict.get?_eq_some_iff.mpr hmem, hexpired⟩
  · rintro ⟨e, hget, hexpired⟩
    exact ⟨(i, e), OrderedDict.get?_eq_some_iff.mp hget, hexpired, rfl⟩

theorem jobIndex_cleanupExpired {ttlSeconds : Option Time} (period : ttlSeconds.getD 0 ≠ 0)
    (now : Time) (d : DeadLetterQueue) (k : UUID) :
    (d.cleanupExpired now ttlSeconds).2.jobIndex.get? k
      = if ∃ e ∈ d.entries.values, isExpired now (ttlSeconds.getD 0) e = true ∧ e.job = k
        then none
        else d.jobIndex.get? k := by
  unfold cleanupExpired
  rw [if_neg period]
  refine (jobIndex_dropExpired now _ d.entries.entries (0, d) (fun p hp => ?_)
    d.entries.nodupKeys k).trans (if_congr ?_ rfl rfl)
  · exact OrderedDict.get?_eq_some_iff.mpr hp
  · constructor
    · rintro ⟨p, hp, hexpired, hjob⟩
      exact ⟨p.2, List.mem_map_of_mem hp, hexpired, hjob⟩
    · rintro ⟨e, he, hexpired, hjob⟩
      obtain ⟨p, hp, rfl⟩ := List.mem_map.mp he
      exact ⟨p, hp, hexpired, hjob⟩

/-- **What removing an entry keeps, `cleanup_expired` keeps.** It is nothing but a number of
removals. -/
theorem cleanupExpired_induction {P : DeadLetterQueue → Prop} (start : P d)
    (kept : ∀ i d, P d → P (d.removeEntry i)) (now : Time) (ttlSeconds : Option Time) :
    P (d.cleanupExpired now ttlSeconds).2 := by
  unfold cleanupExpired
  split
  · exact start
  · have hdrop : ∀ (ps : List (EntryId × DLQEntry)) (r : ℕ × DeadLetterQueue), P r.2 →
        P (dropExpired now (ttlSeconds.getD 0) ps r).2 := by
      intro ps
      induction ps with
      | nil => exact fun r hr => hr
      | cons p ps ih =>
        intro r hr
        refine ih _ ?_
        show P (if isExpired now (ttlSeconds.getD 0) p.2 then _ else r).2
        split
        · exact kept p.1 r.2 hr
        · exact hr
    exact hdrop d.entries.entries (0, d) start

theorem cleanupExpired_of_no_period {ttlSeconds : Option Time} (h : ttlSeconds.getD 0 = 0)
    (now : Time) (d : DeadLetterQueue) : d.cleanupExpired now ttlSeconds = (0, d) :=
  if_pos h

/-- Assign fields of an entry and take it out. -/
def takeOut (entry : DLQEntry) (d : DeadLetterQueue) : DeadLetterQueue :=
  (d.update entry).removeEntry entry.entryId

theorem takeOut_eq (entry : DLQEntry) (d : DeadLetterQueue) : d.takeOut entry
    = { d with
        entries := (d.entries.set entry.entryId entry).erase entry.entryId
        jobIndex := d.jobIndex.erase entry.job } := by
  have hset : (d.update entry).entries.get? entry.entryId = some entry :=
    OrderedDict.get?_set_self _ _ _
  unfold takeOut removeEntry
  rw [hset]
  rfl

theorem get?_takeOut (entry : DLQEntry) (d : DeadLetterQueue) (i : EntryId) :
    (d.takeOut entry).entries.get? i
      = if i = entry.entryId then none else d.entries.get? i := by
  rw [takeOut_eq]
  refine (OrderedDict.get?_erase _ _ _).trans (ite_congr rfl (fun _ => rfl) (fun hi => ?_))
  exact OrderedDict.get?_set_ne _ _ hi

theorem jobIndex_takeOut (entry : DLQEntry) (d : DeadLetterQueue) (k : UUID) :
    (d.takeOut entry).jobIndex.get? k
      = if k = entry.job then none else d.jobIndex.get? k := by
  rw [takeOut_eq]
  exact OrderedDict.get?_erase _ _ _

/-- The queue as `add` finds room in it. -/
def madeRoom (d : DeadLetterQueue) : DeadLetterQueue := if d.atCapacity then d.evictOldest else d

theorem get?_addEntry (entry : DLQEntry) (d : DeadLetterQueue) (i : EntryId) :
    (d.addEntry entry).entries.get? i
      = if i = entry.entryId then some entry else d.madeRoom.entries.get? i :=
  OrderedDict.get?_set _ _ _ _

theorem jobIndex_addEntry (entry : DLQEntry) (d : DeadLetterQueue) (k : UUID) :
    (d.addEntry entry).jobIndex.get? k
      = if k = entry.job then some entry.entryId else d.madeRoom.jobIndex.get? k :=
  OrderedDict.get?_set _ _ _ _

/-- **A full queue that makes room** evicts one of its oldest entries. -/
theorem madeRoom_of_full (keyed : d.Keyed) (full : d.atCapacity = true) :
    ∃ e, oldest d.entries.values = some e ∧ d.entries.get? e.entryId = some e
      ∧ (∀ i e', d.entries.get? i = some e' → e.addedAt.clock ≤ e'.addedAt.clock)
      ∧ d.madeRoom = d.removeEntry e.entryId := by
  have hvalues : d.entries.values ≠ [] := by
    intro hempty
    unfold atCapacity at full
    split at full
    · cases full
    · rename_i m hm
      obtain ⟨hpos, hle⟩ := of_decide_eq_true full
      have hsize : d.entries.size = 0 := by
        rw [show d.entries.size = d.entries.values.length from (List.length_map _).symm, hempty]
        rfl
      omega
  obtain ⟨e, he⟩ := exists_oldest hvalues
  obtain ⟨hmem, hleast⟩ := oldest_spec he
  obtain ⟨i, hi⟩ := OrderedDict.mem_values_iff.mp hmem
  refine ⟨e, he, ?_,
    fun i' e' he' => hleast e' (OrderedDict.mem_values_iff.mpr ⟨i', he'⟩), ?_⟩
  · rw [(keyed i e hi).1]
    exact hi
  · unfold madeRoom evictOldest
    rw [if_pos full, he]

theorem madeRoom_of_room (room : d.atCapacity = false) : d.madeRoom = d :=
  if_neg (by rw [room]; decide)

/-! ## Consistency of the two tables -/

/-- **The tables are consistent**: an entry is stored under its id, and the index leads to stored
entries of the job it is asked for. It does not say that every job with an entry has a place in
the index: a removal may take the place of a job that has other entries. -/
structure Consistent (d : DeadLetterQueue) : Prop where
  keyed : d.Keyed
  indexed : ∀ k i, d.jobIndex.get? k = some i → ∃ e, d.entries.get? i = some e ∧ e.job = k

namespace Consistent

variable {e₀ : DLQEntry}

theorem empty (maxEntries : Option ℕ) :
    Consistent { maxEntries := maxEntries, nextId := 0 } where
  keyed _ _ he := by cases he
  indexed _ _ hi := by cases hi

/-- **Marking a stored entry**, whose job stays. The index goes by the job, so its places still
lead where they did. -/
theorem update (h : d.Consistent) (stored : d.entries.get? entry.entryId = some e₀)
    (job : e₀.job = entry.job) : (d.update entry).Consistent where
  keyed := (Touches.update entry d).keyed h.keyed (h.keyed _ _ stored).2
  indexed k i hi := by
    obtain ⟨e, he, hjob⟩ := h.indexed k i hi
    by_cases hentry : i = entry.entryId
    · subst hentry
      cases he.symm.trans stored
      exact ⟨entry, OrderedDict.get?_set_self _ _ _, job.symm.trans hjob⟩
    · exact ⟨e, (OrderedDict.get?_set_ne _ _ hentry).trans he, hjob⟩

/-- **Taking a stored entry out.** The index loses the job, so it leads to other jobs
only. -/
theorem takeOut (h : d.Consistent) (stored : d.entries.get? entry.entryId = some e₀)
    (job : e₀.job = entry.job) : (d.takeOut entry).Consistent where
  keyed := ((Touches.update entry d).trans (Touches.removeEntry _ _)).keyed h.keyed
    (h.keyed _ _ stored).2
  indexed k i hi := by
    rw [jobIndex_takeOut] at hi
    split at hi
    · cases hi
    · rename_i hk
      obtain ⟨e, he, hjob⟩ := h.indexed k i hi
      refine ⟨e, ?_, hjob⟩
      rw [get?_takeOut, if_neg, he]
      rintro rfl
      cases he.symm.trans stored
      exact hk (hjob.symm.trans job)

theorem removeEntry (h : d.Consistent) (i : EntryId) : (d.removeEntry i).Consistent := by
  cases hstored : d.entries.get? i with
  | none =>
    have hremove : d.removeEntry i = d := by
      unfold DeadLetterQueue.removeEntry
      rw [hstored]
    rwa [hremove]
  | some entry =>
    refine ⟨(Touches.removeEntry i d).keyed h.keyed (h.keyed _ _ hstored).2, fun k i' hi => ?_⟩
    rw [jobIndex_removeEntry, hstored] at hi
    split at hi
    · cases hi
    · rename_i hk
      obtain ⟨e, he, hjob⟩ := h.indexed k i' hi
      refine ⟨e, ?_, hjob⟩
      rw [get?_removeEntry, if_neg, he]
      rintro rfl
      cases he.symm.trans hstored
      exact hk (congrArg some hjob)

/-- **Registering an entry** that has its id already. This is how an entry comes back after a
failed requeue; its place in the index is written anew. -/
theorem registerEntry (h : d.Consistent) (old : entry.entryId < d.nextId)
    (away : d.entries.get? entry.entryId = none) : (d.registerEntry entry).Consistent where
  keyed := (Touches.registerEntry entry d).keyed h.keyed old
  indexed k i hi := by
    rcases OrderedDict.get?_set_eq_some hi with ⟨rfl, rfl⟩ | ⟨-, hold⟩
    · exact ⟨entry, OrderedDict.get?_set_self _ _ _, rfl⟩
    · obtain ⟨e, he, hjob⟩ := h.indexed k i hold
      refine ⟨e, (OrderedDict.get?_set_ne _ _ ?_).trans he, hjob⟩
      rintro rfl
      cases he.symm.trans away

theorem madeRoom (h : d.Consistent) : d.madeRoom.Consistent ∧ d.madeRoom.nextId = d.nextId := by
  cases hcapacity : d.atCapacity with
  | false =>
    rw [madeRoom_of_room hcapacity]
    exact ⟨h, rfl⟩
  | true =>
    obtain ⟨e, -, -, -, hroom⟩ := madeRoom_of_full h.keyed hcapacity
    rw [hroom]
    exact ⟨h.removeEntry e.entryId, (Touches.removeEntry _ d).nextId⟩

/-- **`add`**: the entry has the next id. Room was made before, if there was none. -/
theorem addEntry (h : d.Consistent) (new : entry.entryId = d.nextId) :
    (d.addEntry entry).Consistent := by
  obtain ⟨hroom, hnext⟩ := h.madeRoom
  constructor
  · intro i e he
    rw [get?_addEntry] at he
    show e.entryId = i ∧ i < d.nextId + 1
    split at he
    · rename_i hi
      cases he
      exact ⟨hi.symm, Nat.lt_succ_of_le (hi.trans new).le⟩
    · obtain ⟨hid, hlt⟩ := hroom.keyed i e he
      exact ⟨hid, Nat.lt_succ_of_lt (hnext ▸ hlt)⟩
  · intro k i hi
    rw [jobIndex_addEntry] at hi
    split at hi
    · rename_i hk
      cases hi
      exact ⟨entry, (get?_addEntry entry d _).trans (if_pos rfl), hk.symm⟩
    · obtain ⟨e, he, hjob⟩ := hroom.indexed k i hi
      refine ⟨e, (get?_addEntry entry d i).trans ((if_neg ?_).trans he), hjob⟩
      rintro rfl
      exact absurd (hroom.keyed _ e he).2 (by rw [new, hnext]; exact lt_irrefl _)

/-- **`cleanup_expired`**. -/
theorem cleanupExpired (h : d.Consistent) (now : Time) (ttlSeconds : Option Time) :
    (d.cleanupExpired now ttlSeconds).2.Consistent
      ∧ (d.cleanupExpired now ttlSeconds).2.nextId = d.nextId :=
  cleanupExpired_induction (P := fun d' => d'.Consistent ∧ d'.nextId = d.nextId) ⟨h, rfl⟩
    (fun i d' hd' => ⟨hd'.1.removeEntry i, (Touches.removeEntry i d').nextId.trans hd'.2⟩)
    now ttlSeconds

end Consistent

end DeadLetterQueue

end JobOrchestrator
