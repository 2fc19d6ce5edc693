import JobOrchestrator.Scheduler.DLQRun

/-!
# Which entries leave the dead letter queue

`DeadLetterQueueConfig` documents `auto_cleanup_days` as the number of days to keep
resolved entries. `cleanup_expired` asks for the age of an entry only: a failure that
nobody has handled yet goes with the others.

`DLQWorld.retention_iff` says that this is all that is wrong: while no `add` finds the
queue full, a PENDING entry leaves it unhandled only where a cleanup finds one that is
old enough.
-/

namespace JobOrchestrator

namespace DLQWorld

open DeadLetterQueue

variable {w : DLQWorld}

/-- **A PENDING entry leaves the queue only by being handled.** -/
def KeepsUnresolved (w : DLQWorld) (l : Step) : Prop :=
  ∀ i e, w.dlq.entries.get? i = some e → e.status = .pending →
    (w.step l).dlq.entries.get? i = none → w.handles l = some e

/-- An `add` finds room. -/
def AddsWithRoom (w : DLQWorld) (l : Step) : Prop :=
  match w.change l with
  | .adds _ => w.dlq.atCapacity = false
  | _ => True

/-- **No PENDING entry is old enough where the expired ones are cleaned up.** -/
def CleansUpHandled (w : DLQWorld) (l : Step) : Prop :=
  match l with
  | .cleanupExpired now =>
    w.ttlSeconds.getD 0 ≠ 0 → ∀ e ∈ w.dlq.entries.values,
      isExpired now (w.ttlSeconds.getD 0) e = true → e.status ≠ .pending
  | _ => True

/-- **A cleanup keeps what nobody has handled** where it is not old enough. -/
theorem keepsUnresolved_cleanupExpired_iff (w : DLQWorld) (now : Time) :
    w.KeepsUnresolved (.cleanupExpired now) ↔ w.CleansUpHandled (.cleanupExpired now) := by
  show (∀ i e, w.dlq.entries.get? i = some e → e.status = .pending →
    (w.dlq.cleanupExpired now w.ttlSeconds).2.entries.get? i = none → none = some e)
    ↔ (w.ttlSeconds.getD 0 ≠ 0 → _)
  by_cases hperiod : w.ttlSeconds.getD 0 = 0
  · rw [cleanupExpired_of_no_period hperiod]
    refine iff_of_true (fun i e he _ hnone => ?_) (fun hne => absurd hperiod hne)
    cases he.symm.trans hnone
  · constructor
    · intro hkeeps _ e he hexpired hpending
      obtain ⟨i, hi⟩ := OrderedDict.mem_values_iff.mp he
      cases hkeeps i e hi hpending
        ((get?_cleanupExpired hperiod now w.dlq i).trans (if_pos ⟨e, hi, hexpired⟩))
    · intro hcleans i e he hpending hgone
      rw [get?_cleanupExpired hperiod] at hgone
      split at hgone
      · rename_i hexpired
        obtain ⟨e', he', hold⟩ := hexpired
        cases he.symm.trans he'
        exact absurd hpending (hcleans hperiod e (OrderedDict.mem_values_iff.mpr ⟨i, he⟩) hold)
      · cases he.symm.trans hgone

/-- **What a step loses**, an `add` finding room, it handled or cleaned up. -/
theorem handles_of_gone (keyed : w.dlq.Keyed) {l : Step} (room : w.AddsWithRoom l)
    {i : EntryId} {e : DLQEntry} (stored : w.dlq.entries.get? i = some e)
    (gone : (w.step l).dlq.entries.get? i = none) :
    w.handles l = some e ∨ ∃ now, l = .cleanupExpired now := by
  have hfits := change_fits keyed l
  -- writing an entry removes none
  have hset : ∀ entry : DLQEntry, (w.dlq.entries.set entry.entryId entry).get? i ≠ none := by
    intro entry hnone
    rw [OrderedDict.get?_set] at hnone
    split at hnone
    · cases hnone
    · cases stored.symm.trans hnone
  unfold AddsWithRoom at room
  rw [dlq_step] at gone
  cases hchange : w.change l with
  | nothing =>
    rw [hchange] at gone
    cases stored.symm.trans gone
  | marks entry =>
    rw [hchange] at gone
    exact absurd gone (hset entry)
  | takesOut entry =>
    rw [hchange] at gone hfits
    obtain ⟨e', hhandles, he', -⟩ := hfits
    have hget := (get?_takeOut entry w.dlq i).symm.trans gone
    split at hget
    · rename_i hi
      rw [hi] at stored
      cases stored.symm.trans he'
      exact Or.inl hhandles
    · cases stored.symm.trans hget
  | adds entry =>
    rw [hchange] at gone room
    have hget := (get?_addEntry entry w.dlq i).symm.trans gone
    rw [madeRoom_of_room room] at hget
    split at hget
    · cases hget
    · cases stored.symm.trans hget
  | cleansUp now =>
    rw [hchange] at hfits
    exact Or.inr ⟨now, hfits⟩
  | putsBack entry =>
    rw [hchange] at gone
    exact absurd gone (hset entry)

/-- **One step loses no unhandled failure exactly where it cleans none up.** -/
theorem keepsUnresolved_iff (keyed : w.dlq.Keyed) {l : Step} (room : w.AddsWithRoom l) :
    w.KeepsUnresolved l ↔ w.CleansUpHandled l := by
  by_cases hcleans : ∃ now, l = .cleanupExpired now
  · obtain ⟨now, rfl⟩ := hcleans
    exact keepsUnresolved_cleanupExpired_iff w now
  · have hkeeps : w.KeepsUnresolved l := fun i e he _ hgone =>
      (handles_of_gone keyed room he hgone).resolve_right hcleans
    refine iff_of_true hkeeps ?_
    unfold CleansUpHandled
    split
    · rename_i now
      exact absurd ⟨now, rfl⟩ hcleans
    · trivial

/-- **Unresolved failures are kept**, in a history whose adds find room, exactly where each
cleanup finds no PENDING entry that is old enough. -/
theorem retention_iff {maxEntries : Option ℕ} {ttlSeconds : Option Time}
    {objects : JobRef → Job} {ls : List Step}
    (room : History.Admitted step AddsWithRoom (new maxEntries ttlSeconds objects) ls) :
    History.Admitted step KeepsUnresolved (new maxEntries ttlSeconds objects) ls
      ↔ History.Admitted step CleansUpHandled (new maxEntries ttlSeconds objects) ls :=
  History.admitted_congr room (Sound.new maxEntries ttlSeconds objects)
    (fun _ l h => h.step l) (fun _ _ h hroom => keepsUnresolved_iff h.consistent.keyed hroom)

/-- A failure that is looked after for a week. -/
def forgotten : List Step :=
  [.add 0 0 none none none none, .cleanupExpired (8 * 86400)]

/-- With the default configuration. -/
theorem retention_iff_default :
    History.Admitted step KeepsUnresolved
        (new (some 10000) (some (7 * 86400)) (fun job => { id := job })) forgotten
      ↔ History.Admitted step CleansUpHandled
        (new (some 10000) (some (7 * 86400)) (fun job => { id := job })) forgotten :=
  retention_iff ⟨rfl, trivial, trivial⟩

/-- **A PENDING entry is cleaned up**: with the default configuration, eight days after its
job failed. -/
theorem forgets_unresolved :
    History.Admitted step AddsWithRoom
        (new (some 10000) (some (7 * 86400)) (fun job => { id := job })) forgotten
      ∧ ¬ History.Admitted step KeepsUnresolved
        (new (some 10000) (some (7 * 86400)) (fun job => { id := job })) forgotten := by
  refine ⟨⟨rfl, trivial, trivial⟩, fun h => ?_⟩
  have hgone := h.2.1 0 _ rfl rfl (by decide +kernel)
  cases hgone

end DLQWorld

end JobOrchestrator
