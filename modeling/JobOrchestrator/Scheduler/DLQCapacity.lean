import JobOrchestrator.Scheduler.DLQRun

/-!
# The capacity of the dead letter queue

`add` makes room before it stores an entry, and evicts one of the oldest entries for
it. The second section of `requeue` makes no room: it puts its entry back whatever has
been stored meanwhile.

So a queue of `max_entries = m` stays within its bound in exactly the histories that put
an entry back only where there is room: `DLQWorld.capacity_iff`.
-/

namespace JobOrchestrator

namespace DeadLetterQueue

variable {d : DeadLetterQueue} {entry e : DLQEntry} {i : EntryId} {m : ℕ}

/-! ## The size after an operation -/

theorem size_removeEntry (stored : d.entries.get? i = some e) :
    (d.removeEntry i).entries.size + 1 = d.entries.size := by
  unfold removeEntry
  rw [stored]
  exact OrderedDict.size_erase_of_some stored

theorem size_removeEntry_le (i : EntryId) (d : DeadLetterQueue) :
    (d.removeEntry i).entries.size ≤ d.entries.size := by
  cases hstored : d.entries.get? i with
  | none =>
    unfold removeEntry
    rw [hstored]
  | some e => exact Nat.le_of_succ_le (size_removeEntry hstored).le

theorem size_update (stored : d.entries.get? entry.entryId = some e) :
    (d.update entry).entries.size = d.entries.size :=
  OrderedDict.size_set_of_some entry stored

theorem size_takeOut (stored : d.entries.get? entry.entryId = some e) :
    (d.takeOut entry).entries.size + 1 = d.entries.size :=
  (size_removeEntry (OrderedDict.get?_set_self d.entries _ _)).trans (size_update stored)

theorem size_cleanupExpired (now : Time) (ttlSeconds : Option Time) (d : DeadLetterQueue) :
    (d.cleanupExpired now ttlSeconds).2.entries.size ≤ d.entries.size :=
  cleanupExpired_induction (P := fun d' => d'.entries.size ≤ d.entries.size) le_rfl
    (fun i d' hd' => (size_removeEntry_le i d').trans hd') now ttlSeconds

/-- A queue is full where it stores as many entries as it may. -/
theorem atCapacity_iff (bound : d.maxEntries = some m) (hm : 1 ≤ m) :
    d.atCapacity = true ↔ m ≤ d.entries.size := by
  unfold atCapacity
  rw [bound]
  simp only [decide_eq_true_eq]
  exact and_iff_right (Nat.one_le_iff_ne_zero.mp hm)

/-- **`add` stays within the bound.** Where it is full the oldest entry goes first, so it is as
full as before. -/
theorem size_addEntry_le (h : d.Consistent) (new : entry.entryId = d.nextId)
    (bound : d.maxEntries = some m) (hm : 1 ≤ m) (within : d.entries.size ≤ m) :
    (d.addEntry entry).entries.size ≤ m := by
  have hfresh : d.madeRoom.entries.get? entry.entryId = none := by
    cases hget : d.madeRoom.entries.get? entry.entryId with
    | none => rfl
    | some e =>
      have hlt := (h.madeRoom.1.keyed _ e hget).2
      rw [h.madeRoom.2, new] at hlt
      exact absurd hlt (lt_irrefl _)
  have hsize : (d.addEntry entry).entries.size = d.madeRoom.entries.size + 1 :=
    OrderedDict.size_set_of_none entry hfresh
  rw [hsize]
  cases hcapacity : d.atCapacity with
  | false =>
    rw [madeRoom_of_room hcapacity]
    have hroom : ¬ m ≤ d.entries.size := by
      rw [← atCapacity_iff bound hm, hcapacity]
      decide
    omega
  | true =>
    obtain ⟨e, -, hstored, -, hroom⟩ := madeRoom_of_full h.keyed hcapacity
    rw [hroom, size_removeEntry hstored]
    exact within

theorem maxEntries_removeEntry (i : EntryId) (d : DeadLetterQueue) :
    (d.removeEntry i).maxEntries = d.maxEntries := by
  unfold removeEntry
  split <;> rfl

theorem maxEntries_madeRoom (d : DeadLetterQueue) : d.madeRoom.maxEntries = d.maxEntries := by
  unfold madeRoom evictOldest
  split
  · split
    · rfl
    · exact maxEntries_removeEntry _ d
  · rfl

theorem maxEntries_cleanupExpired (now : Time) (ttlSeconds : Option Time) (d : DeadLetterQueue) :
    (d.cleanupExpired now ttlSeconds).2.maxEntries = d.maxEntries :=
  cleanupExpired_induction (P := fun d' => d'.maxEntries = d.maxEntries) rfl
    (fun i d' hd' => (maxEntries_removeEntry i d').trans hd') now ttlSeconds

end DeadLetterQueue

namespace DLQWorld

open DeadLetterQueue

variable {w : DLQWorld} {m : ℕ}

/-- The bound stays what the queue was made with. -/
theorem maxEntries_step (w : DLQWorld) (l : Step) :
    (w.step l).dlq.maxEntries = w.dlq.maxEntries := by
  rw [dlq_step]
  cases w.change l with
  | nothing => rfl
  | marks entry => rfl
  | takesOut entry => rw [Change.applyTo, takeOut_eq]
  | adds entry => exact maxEntries_madeRoom w.dlq
  | cleansUp now => exact maxEntries_cleanupExpired now w.ttlSeconds w.dlq
  | putsBack entry => rfl

/-! ## Eviction -/

/-- **An `add` that finds the queue full evicts one of the oldest entries**, and nothing
else. -/
def EvictsOldest (w : DLQWorld) (l : Step) : Prop :=
  ∀ entry, w.change l = .adds entry → w.dlq.atCapacity = true →
    ∃ e, w.dlq.entries.get? e.entryId = some e
      ∧ (∀ i e', w.dlq.entries.get? i = some e' → e.addedAt.clock ≤ e'.addedAt.clock)
      ∧ ∀ i, (w.step l).dlq.entries.get? i
        = if i = entry.entryId then some entry
          else if i = e.entryId then none else w.dlq.entries.get? i

theorem Sound.evictsOldest (h : w.Sound) (l : Step) : w.EvictsOldest l := by
  intro entry hadds hfull
  obtain ⟨e, -, hstored, hleast, hroom⟩ := madeRoom_of_full h.consistent.keyed hfull
  refine ⟨e, hstored, hleast, fun i => ?_⟩
  rw [dlq_step, hadds]
  refine (get?_addEntry entry w.dlq i).trans ?_
  rw [hroom, get?_removeEntry]

/-! ## The bound -/

/-- **An entry is put back only where there is room.** -/
def PutsBackWithRoom (w : DLQWorld) (l : Step) : Prop :=
  match w.change l with
  | .putsBack _ => w.dlq.atCapacity = false
  | _ => True

/-- **One step keeps the bound exactly where it puts nothing back without room.** -/
theorem size_step_le_iff (h : w.Sound) (bound : w.dlq.maxEntries = some m) (hm : 1 ≤ m)
    (within : w.dlq.entries.size ≤ m) (l : Step) :
    (w.step l).dlq.entries.size ≤ m ↔ w.PutsBackWithRoom l := by
  have hfits := change_fits h.consistent.keyed l
  unfold PutsBackWithRoom
  rw [dlq_step]
  cases hchange : w.change l with
  | nothing => exact iff_of_true within trivial
  | marks entry =>
    rw [hchange] at hfits
    obtain ⟨e, -, hstored, -⟩ := hfits
    exact iff_of_true ((size_update hstored).trans_le within) trivial
  | takesOut entry =>
    rw [hchange] at hfits
    obtain ⟨e, -, hstored, -⟩ := hfits
    exact iff_of_true ((Nat.le_of_succ_le (size_takeOut hstored).le).trans within) trivial
  | adds entry =>
    rw [hchange] at hfits
    exact iff_of_true (size_addEntry_le h.consistent hfits bound hm within) trivial
  | cleansUp now =>
    exact iff_of_true ((size_cleanupExpired now w.ttlSeconds w.dlq).trans within) trivial
  | putsBack entry =>
    rw [hchange] at hfits
    have hsize : (w.dlq.registerEntry entry).entries.size = w.dlq.entries.size + 1 :=
      OrderedDict.size_set_of_none entry (h.away entry hfits).1
    show (w.dlq.registerEntry entry).entries.size ≤ m ↔ w.dlq.atCapacity = false
    rw [hsize, ← Bool.not_eq_true, atCapacity_iff bound hm, not_le, Nat.succ_le_iff]

/-- **The capacity of the queue.** Its entries are at most `max_entries` throughout, and
every `add` that finds it full evicts one of the oldest, in exactly the histories that put
an entry back only where there is room. -/
theorem capacity_iff (hm : 1 ≤ m) (ttlSeconds : Option Time) (objects : JobRef → Job)
    (ls : List Step) :
    ((∀ ds, ds <+: ls →
        (History.after step (new (some m) ttlSeconds objects) ds).dlq.entries.size ≤ m)
      ∧ History.Admitted step EvictsOldest (new (some m) ttlSeconds objects) ls)
      ↔ History.Admitted step PutsBackWithRoom (new (some m) ttlSeconds objects) ls := by
  have hevicts : History.Admitted step EvictsOldest (new (some m) ttlSeconds objects) ls :=
    History.admitted_of_invariant (Sound.new (some m) ttlSeconds objects)
      (fun _ l h => h.step l) (fun _ l h => h.evictsOldest l) ls
  rw [and_iff_left hevicts]
  refine History.throughout_iff_admitted (P := fun w => w.dlq.entries.size ≤ m)
    (I := fun w => w.Sound ∧ w.dlq.maxEntries = some m)
    (fun w l h within => size_step_le_iff h.1 h.2 hm within l)
    (fun w l h => ⟨h.1.step l, (maxEntries_step w l).trans h.2⟩)
    ⟨Sound.new (some m) ttlSeconds objects, rfl⟩ (Nat.zero_le m) ls

/-- A job is added, and another one while the first is submitted again; the submission
raises. -/
def overfilling : List Step :=
  [.add 0 0 none none none none, .requeue 1 (.entry 0) true true none none,
    .add 2 1 none none none none,
    .submitted 0 (fun objects _ => (objects, some (.plain "Queue is full")))]

/-- With a bound of one entry. -/
theorem capacity_iff_one :
    ((∀ ds, ds <+: overfilling →
        (History.after step (new (some 1) none (fun job => { id := job })) ds).dlq.entries.size
          ≤ 1)
      ∧ History.Admitted step EvictsOldest (new (some 1) none (fun job => { id := job }))
        overfilling)
      ↔ History.Admitted step PutsBackWithRoom (new (some 1) none (fun job => { id := job }))
        overfilling :=
  capacity_iff le_rfl none _ _

/-- **The bound is exceeded**: an entry is put back into a queue of one entry that has been
filled. -/
theorem overfilled :
    (History.after step (new (some 1) none (fun job => { id := job })) overfilling).dlq.entries.size
      = 2 := by
  decide +kernel

end DLQWorld

end JobOrchestrator
