import Mathlib.Data.Finset.Card
import JobOrchestrator.Locking.MemoryLease
import JobOrchestrator.Util.Expiring
import JobOrchestrator.Util.Refinement

/-!
# What the in-memory locks are for

A lease table is what the in-memory manager looks like to its callers: the last lease of each
resource, up to its end or for ever, which the owner can renew and give back. It has no cleanup:
a lease that is over is as good as none. `Serves` says what each call may answer.

The manager throws ended locks out where it comes across them, and has a thread that does nothing
else. `refines_leaseTable`: this cannot be seen. Along every history of calls whose clock does not
go backwards, all answers are those of the lease table. It leaves open how many ended locks a
cleanup finds, and what the two calls answer that do not look at the clock: `release`, where the
lease is over, and `clear`, whose count may include such.
-/

namespace JobOrchestrator

open Expiring

/-- The lock has not expired. -/
def LockInfo.Lives (now : Time) (info : LockInfo) : Prop := info.isExpired now = false

theorem LockInfo.lives_of_le (now now' : Time) (info : LockInfo) (le : now ≤ now')
    (lives : info.Lives now') : info.Lives now := by
  have hends := LockInfo.isExpired_eq_false_iff.mp lives
  exact LockInfo.isExpired_eq_false_iff.mpr (fun e he => le.trans (hends e he))

/-- A use of the manager, with the clock when it is over: a call, or one of those that only
count and list. -/
inductive LockUse
  | call (c : LockCall) (ended : Time)
  | getAllLocks (now : String → Time) (ended : Time)
  | lockCount (now : String → Time) (ended : Time)

/-- What it answers. -/
inductive LockReply
  | attempt (answer : AcquireAnswer)
  | answer (yes : Bool)
  | found (info : Option LockInfo)
  | count (locks : ℕ)
  | all (infos : List LockInfo)

namespace LockUse

/-- The clock when the use is over. -/
def ended : LockUse → Time
  | call _ ended | getAllLocks _ ended | lockCount _ ended => ended

/-- The readings that are compared with the locks. -/
def Reads (t : Time) : LockUse → Prop
  | call (.acquire a) _ => t = a.checked
  | call (.extend _ _ _ checked _) _ => t = checked
  | call (.isLocked _ now) _ | call (.getLockInfo _ now) _ => t = now
  | call (.cleanupExpired now) _ | getAllLocks now _ | lockCount now _ => ∃ r, t = now r
  | call (.release _ _) _ | call .clear _ => False

end LockUse

namespace InMemoryLockManager

variable (m : InMemoryLockManager)

/-- **`get_all_locks`**, which cleans up first. It throws away on its way what has expired, so
what it lists is what lives. -/
def getAllLocks (now : String → Time) : List LockInfo × InMemoryLockManager :=
  ((m.cleanupExpired now).2.locks.values, (m.cleanupExpired now).2)

/-- **`lock_count`**, and `len()`. -/
def lockCount (now : String → Time) : ℕ :=
  m.locks.entries.countP (fun x => !x.2.isExpired (now x.1))

/-- What a call answers. -/
def reply : LockCall → LockReply
  | .acquire a => .attempt (m.acquire a).1
  | .release resource owner => .answer (m.release resource owner).1
  | .extend resource owner ttl checked leased =>
    .answer (m.extend resource owner ttl checked leased).1
  | .isLocked resource now => .answer (m.isLocked resource now).1
  | .getLockInfo resource now => .found (m.getLockInfo resource now).1
  | .cleanupExpired now => .count (m.cleanupExpired now).1
  | .clear => .count m.clear.1

end InMemoryLockManager

/-- **The manager, and the clock** when it was used last. -/
structure ClockedLocks where
  manager : InMemoryLockManager
  clock : Time

namespace ClockedLocks

/-- **A use**, with its answer. This is the step of the simulation; the history follows from it
by induction. -/
def use (s : ClockedLocks) (u : LockUse) : LockReply × ClockedLocks :=
  match u with
  | .call c ended => (s.manager.reply c, ⟨s.manager.step c, ended⟩)
  | .getAllLocks now ended =>
    (.all (s.manager.getAllLocks now).1, ⟨(s.manager.getAllLocks now).2, ended⟩)
  | .lockCount now ended => (.count (s.manager.lockCount now), ⟨s.manager, ended⟩)

/-- **The clock does not go backwards.** Readings within one use are between the end of the use
before and its own. -/
def Timely (s : ClockedLocks) (u : LockUse) : Prop :=
  s.clock ≤ u.ended ∧ ∀ t, u.Reads t → s.clock ≤ t ∧ t ≤ u.ended

end ClockedLocks

/-! ## The lease table -/

/-- **A lease table**: the last lease of each resource, over or not. It is what a lock manager is
for: nothing in it says when an entry is thrown away, because a lease that is over and one that
was never made are the same to whoever asks. -/
structure LeaseTable where
  leases : String → Option LockInfo
  /-- A lease is of its resource. -/
  named : ∀ r info, leases r = some info → info.resource = r
  defaultTtl : ℚ

namespace LeaseTable

variable (T : LeaseTable)

/-- Nothing is leased. -/
def empty (defaultTtl : ℚ) : LeaseTable where
  leases _ := none
  named _ _ h := by cases h
  defaultTtl := defaultTtl

/-- The resource is leased to somebody. -/
def Leased (now : Time) (r : String) : Prop := Present LockInfo.Lives now T.leases r

/-- The last lease of a resource is this one from now on, or none. The entry of one resource is
written, and the rest of the table may be forgotten as far as it is over. -/
def assign (r : String) (x : Option LockInfo) (named : ∀ info ∈ x, info.resource = r) :
    LeaseTable :=
  { T with
    leases := Function.update T.leases r x
    named := by
      intro r' info h
      rw [Function.update_apply] at h
      split at h
      · rename_i hr
        rw [hr]
        exact named info h
      · exact T.named r' info h }

/-- The resource is given back. -/
def giveBack (r : String) : LeaseTable := T.assign r none (by simp)

/-- The time to live that was asked for, or the default. -/
def ttlOf (a : AcquireAttempt) : ℚ := a.ttl.getD T.defaultTtl

/-- The lease that an attempt gets where the resource is free. -/
def newLease (a : AcquireAttempt) : LockInfo where
  lockId := a.lockId
  resource := a.resource
  owner := a.effectiveOwner
  acquiredAt := .utcnow a.acquired
  expiresAt := leaseEnd a.leased (T.ttlOf a)
  metadata := a.metadata.getD []

/-- What becomes of the lease of an owner who acquires again. -/
def renewed (a : AcquireAttempt) (info : LockInfo) : LockInfo :=
  { info with
    expiresAt := if 0 < T.ttlOf a then leaseEnd a.leased (T.ttlOf a) else info.expiresAt }

/-- The lease of a resource is this one from now on. -/
def lease (r : String) (info : LockInfo) (named : info.resource = r) : LeaseTable :=
  T.assign r (some info) (fun _ h => Option.mem_some_iff.mp h ▸ named)

/-- Whoever releases names the owner, or nobody. -/
def MayRelease (owner : Option String) (info : LockInfo) : Prop :=
  owner = none ∨ owner = some info.owner

/-- **What a use may answer**, and the table after it. A refused attempt may be answered by a
refusal or by another round; how long to wait is left open. -/
inductive Serves (T : LeaseTable) : LockUse → LockReply → LeaseTable → Prop
  | granted (a : AcquireAttempt) (ended : Time) (free : ¬ T.Leased a.checked a.resource) :
    Serves T (.call (.acquire a) ended) (.attempt (.acquired (T.newLease a)))
      (T.lease a.resource (T.newLease a) rfl)
  | again (a : AcquireAttempt) (ended : Time) (info : LockInfo)
      (last : T.leases a.resource = some info) (lives : info.Lives a.checked)
      (mine : info.owner = a.effectiveOwner) :
    Serves T (.call (.acquire a) ended) (.attempt (.acquired (T.renewed a info)))
      (T.lease a.resource (T.renewed a info) (T.named _ info last))
  | heldOff (a : AcquireAttempt) (ended : Time) (info : LockInfo)
      (last : T.leases a.resource = some info) (lives : info.Lives a.checked)
      (theirs : info.owner ≠ a.effectiveOwner) (answer : AcquireAnswer)
      (refused : ∀ info, answer ≠ .acquired info) :
    Serves T (.call (.acquire a) ended) (.attempt answer) T
  | released (r : String) (owner : Option String) (ended : Time) (info : LockInfo)
      (last : T.leases r = some info) (may : MayRelease owner info) :
    Serves T (.call (.release r owner) ended) (.answer true) (T.giveBack r)
  | notReleased (r : String) (owner : Option String) (ended : Time)
      (gone : ∀ info, T.leases r = some info → MayRelease owner info → ¬ info.Lives ended) :
    Serves T (.call (.release r owner) ended) (.answer false) T
  | extended (r owner : String) (ttl : ℚ) (checked leased ended : Time) (info : LockInfo)
      (last : T.leases r = some info) (lives : info.Lives checked) (mine : info.owner = owner) :
    Serves T (.call (.extend r owner ttl checked leased) ended) (.answer true)
      (T.lease r { info with expiresAt := leaseEnd leased ttl } (T.named _ info last))
  | notExtended (r owner : String) (ttl : ℚ) (checked leased ended : Time)
      (not : ∀ info, T.leases r = some info → info.Lives checked → info.owner ≠ owner) :
    Serves T (.call (.extend r owner ttl checked leased) ended) (.answer false) T
  | isLocked (r : String) (now ended : Time) (answer : Bool)
      (iff : answer = true ↔ T.Leased now r) :
    Serves T (.call (.isLocked r now) ended) (.answer answer) T
  | info (r : String) (now ended : Time) (info : LockInfo) (last : T.leases r = some info)
      (lives : info.Lives now) :
    Serves T (.call (.getLockInfo r now) ended) (.found (some info)) T
  | noInfo (r : String) (now ended : Time) (free : ¬ T.Leased now r) :
    Serves T (.call (.getLockInfo r now) ended) (.found none) T
  /-- A cleanup does nothing. -/
  | cleanup (now : String → Time) (ended : Time) (count : ℕ) :
    Serves T (.call (.cleanupExpired now) ended) (.count count) T
  | clear (ended : Time) (count : ℕ) (leased : Finset String)
      (iff : ∀ r, r ∈ leased ↔ T.Leased ended r) (enough : leased.card ≤ count) :
    Serves T (.call .clear ended) (.count count) (empty T.defaultTtl)
  | all (now : String → Time) (ended : Time) (infos : List LockInfo)
      (once : (infos.map LockInfo.resource).Nodup)
      (iff : ∀ info, info ∈ infos
        ↔ T.leases info.resource = some info ∧ info.Lives (now info.resource)) :
    Serves T (.getAllLocks now ended) (.all infos) T
  | count (now : String → Time) (ended : Time) (leased : Finset String)
      (iff : ∀ r, r ∈ leased ↔ T.Leased (now r) r) :
    Serves T (.lockCount now ended) (.count leased.card) T

end LeaseTable

/-! ## The table of locks -/

namespace InMemoryLockManager

variable {m : InMemoryLockManager} {r : String}

theorem mem_expiredResources {now : String → Time} :
    r ∈ m.expiredResources now
      ↔ ∃ info, m.locks.get? r = some info ∧ info.isExpired (now r) = true := by
  simp only [expiredResources, List.mem_map, List.mem_filter, OrderedDict.get?_eq_some_iff]
  constructor
  · rintro ⟨⟨r', info⟩, ⟨hmem, hexpired⟩, rfl⟩
    exact ⟨info, hmem, hexpired⟩
  · rintro ⟨info, hmem, hexpired⟩
    exact ⟨(r, info), ⟨hmem, hexpired⟩, rfl⟩

/-- **What a cleanup leaves**: the locks that have not expired, each at its own reading. -/
theorem get?_cleanupExpired (now : String → Time) (r : String) :
    (m.cleanupExpired now).2.locks.get? r
      = if r ∈ m.expiredResources now then none else m.locks.get? r := by
  have hfold : ∀ (rs : List String) (m : InMemoryLockManager),
      (rs.foldl (fun m resource => m.drop resource) m).locks.get? r
        = if r ∈ rs then none else m.locks.get? r := by
    intro rs
    induction rs with
    | nil => simp
    | cons r' rs ih =>
      intro m
      rw [List.foldl_cons, ih, drop, OrderedDict.get?_erase]
      by_cases hr : r = r'
      · simp [hr]
      · simp [hr]
  exact hfold _ m

theorem defaultTtl_cleanupExpired (now : String → Time) :
    (m.cleanupExpired now).2.defaultTtl = m.defaultTtl := by
  have hfold : ∀ (rs : List String) (m : InMemoryLockManager),
      (rs.foldl (fun m resource => m.drop resource) m).defaultTtl = m.defaultTtl := by
    intro rs
    induction rs with
    | nil => exact fun _ => rfl
    | cons r rs ih => exact fun m => ih (m.drop r)
  exact hfold _ m

theorem get?_cleanupExpired_eq_some {now : String → Time} {info : LockInfo} :
    (m.cleanupExpired now).2.locks.get? r = some info
      ↔ m.locks.get? r = some info ∧ info.Lives (now r) := by
  rw [get?_cleanupExpired]
  constructor
  · intro h
    split at h
    · cases h
    · rename_i hlive
      exact ⟨h, Bool.eq_false_iff.mpr (fun hexpired =>
        hlive (mem_expiredResources.mpr ⟨info, h, hexpired⟩))⟩
  · rintro ⟨h, hlives⟩
    rw [if_neg, h]
    intro hmem
    obtain ⟨info', h', hexpired⟩ := mem_expiredResources.mp hmem
    obtain rfl := Option.some.inj (h.symm.trans h')
    exact absurd hexpired (Bool.eq_false_iff.mp hlives)

/-- The resources with a lock that has not expired. -/
def living (now : String → Time) (m : InMemoryLockManager) : Finset String :=
  ((m.locks.entries.filter (fun x => !x.2.isExpired (now x.1))).map Prod.fst).toFinset

theorem mem_living {now : String → Time} :
    r ∈ m.living now ↔ Present LockInfo.Lives (now r) m.locks.get? r := by
  simp only [living, List.mem_toFinset, List.mem_map, List.mem_filter, Bool.not_eq_true', Present,
    OrderedDict.get?_eq_some_iff]
  constructor
  · rintro ⟨⟨r', info⟩, ⟨hmem, hlives⟩, rfl⟩
    exact ⟨info, hmem, hlives⟩
  · rintro ⟨info, hmem, hlives⟩
    exact ⟨(r, info), ⟨hmem, hlives⟩, rfl⟩

theorem card_living (now : String → Time) : (m.living now).card = m.lockCount now := by
  rw [living, List.toFinset_card_of_nodup, List.length_map, lockCount,
    List.countP_eq_length_filter]
  exact m.locks.nodupKeys.sublist (List.filter_sublist.map _)

end InMemoryLockManager

/-! ## The manager as a lease table -/

namespace ClockedLocks

open LeaseTable

variable {s : ClockedLocks} {T : LeaseTable} {r : String} {now ended : Time}

/-- **The manager shows a lease table**: it has forgotten only leases that are over. Whatever
lives is in both; of the rest the manager may know more or less, depending on when it last
cleaned up. -/
structure Shows (s : ClockedLocks) (T : LeaseTable) : Prop where
  leases : Forgets LockInfo.Lives s.clock s.manager.locks.get? T.leases
  defaultTtl : T.defaultTtl = s.manager.defaultTtl

namespace Shows

theorem leased_iff (h : s.Shows T) (later : s.clock ≤ now) (r : String) :
    Present LockInfo.Lives now s.manager.locks.get? r ↔ T.Leased now r :=
  h.leases.present_iff LockInfo.lives_of_le later r

/-- A lease that lives is in the table of locks. -/
theorem has (h : s.Shows T) (later : s.clock ≤ now) {info : LockInfo}
    (last : T.leases r = some info) (lives : info.Lives now) :
    s.manager.locks.get? r = some info :=
  h.leases.kept r info last (LockInfo.lives_of_le _ _ info later lives)

/-- The clock goes on: whatever is over later is over for the table too, so nothing has to be
forgotten. -/
theorem wait (h : s.Shows T) (later : s.clock ≤ ended) : Shows ⟨s.manager, ended⟩ T :=
  ⟨h.leases.later LockInfo.lives_of_le later, h.defaultTtl⟩

/-- **Ended locks are thrown out**, each when it is found ended. -/
theorem sweep (h : s.Shows T) {m : InMemoryLockManager} (later : s.clock ≤ ended)
    (found : String → Time) (upTo : ∀ r, found r ≤ ended)
    (left : ∀ r info, m.locks.get? r = some info → s.manager.locks.get? r = some info)
    (kept : ∀ r info, s.manager.locks.get? r = some info → info.Lives (found r) →
      m.locks.get? r = some info) (defaultTtl : m.defaultTtl = s.manager.defaultTtl) :
    Shows ⟨m, ended⟩ T :=
  ⟨h.leases.sweep LockInfo.lives_of_le later upTo left kept, h.defaultTtl.trans defaultTtl.symm⟩

theorem dropExpired (h : s.Shows T) (later : s.clock ≤ ended) (upTo : now ≤ ended)
    {info : LockInfo} (has : s.manager.locks.get? r = some info)
    (expired : info.isExpired now = true) : Shows ⟨s.manager.drop r, ended⟩ T := by
  refine h.sweep later (fun _ => now) (fun _ => upTo) ?_ ?_ rfl
  · intro r' info' h'
    rw [InMemoryLockManager.drop, OrderedDict.get?_erase] at h'
    split at h'
    · cases h'
    · exact h'
  · intro r' info' h' hlives
    refine (OrderedDict.get?_erase_ne _ (fun hr => ?_)).trans h'
    obtain rfl := Option.some.inj (has.symm.trans (hr ▸ h'))
    exact absurd expired (Bool.eq_false_iff.mp hlives)

/-- **A lease is made, renewed or given back.** -/
theorem assign (h : s.Shows T) (later : s.clock ≤ ended) {m : InMemoryLockManager}
    {x : Option LockInfo} (named : ∀ info ∈ x, info.resource = r)
    (written : ∀ r', m.locks.get? r' = if r' = r then x else s.manager.locks.get? r')
    (defaultTtl : m.defaultTtl = s.manager.defaultTtl) :
    Shows ⟨m, ended⟩ (T.assign r x named) :=
  ⟨(h.leases.later LockInfo.lives_of_le later).assign written, h.defaultTtl.trans defaultTtl.symm⟩

/-! ### One use -/

theorem acquire (h : s.Shows T) (a : AcquireAttempt) (later : s.clock ≤ a.checked)
    (upTo : a.checked ≤ ended) : ∃ T', T.Serves (.call (.acquire a) ended)
      (s.manager.reply (.acquire a)) T' ∧ Shows ⟨s.manager.step (.acquire a), ended⟩ T' := by
  have hended := later.trans upTo
  have httl : T.ttlOf a = s.manager.effectiveTtl a.ttl := by
    rw [ttlOf, h.defaultTtl]
    rfl
  rcases LeasedLocks.acquire_cases s.manager a with
    ⟨hfree, heq⟩ | ⟨info, hinfo, hlives, ⟨howner, heq⟩ | ⟨howner, heq⟩⟩
  · -- the resource is free: no lock, or an ended one
    have hnot : ¬ T.Leased a.checked a.resource := by
      rw [← h.leased_iff later]
      rintro ⟨info, hinfo, hlives⟩
      exact absurd (hfree info hinfo) (Bool.eq_false_iff.mp hlives)
    have hreply : s.manager.reply (.acquire a) = .attempt (.acquired (T.newLease a)) := by
      rw [InMemoryLockManager.reply, heq, newLease, httl]
      rfl
    rw [hreply]
    refine ⟨_, .granted a ended hnot, h.assign hended _ (fun r' => ?_) ?_⟩
    · rw [InMemoryLockManager.step, heq, newLease, httl]
      exact OrderedDict.get?_set _ _ _ _
    · rw [InMemoryLockManager.step, heq]
      rfl
  · have hlast := h.leases.sub _ _ hinfo
    have hreply : s.manager.reply (.acquire a) = .attempt (.acquired (T.renewed a info)) := by
      rw [InMemoryLockManager.reply, heq, renewed, httl]
      rfl
    rw [hreply]
    refine ⟨_, .again a ended info hlast hlives howner, h.assign hended _ (fun r' => ?_) ?_⟩
    · rw [InMemoryLockManager.step, heq, renewed, httl]
      exact OrderedDict.get?_set _ _ _ _
    · rw [InMemoryLockManager.step, heq]
      rfl
  · have hlast := h.leases.sub _ _ hinfo
    refine ⟨T, ?_, ?_⟩
    · rw [InMemoryLockManager.reply, heq]
      exact .heldOff a ended info hlast hlives howner _
        (InMemoryLockManager.holdOff_ne_acquired a)
    · rw [InMemoryLockManager.step, heq]
      exact h.wait hended

theorem release (h : s.Shows T) (r : String) (owner : Option String) (later : s.clock ≤ ended) :
    ∃ T', T.Serves (.call (.release r owner) ended) (s.manager.reply (.release r owner)) T'
      ∧ Shows ⟨s.manager.step (.release r owner), ended⟩ T' := by
  simp only [InMemoryLockManager.reply, InMemoryLockManager.step, InMemoryLockManager.release]
  cases hinfo : s.manager.locks.get? r with
  | none =>
    refine ⟨T, .notReleased r owner ended (fun info hlast _ hlives => ?_), h.wait later⟩
    cases hinfo.symm.trans (h.has later hlast hlives)
  | some info =>
    have hlast := h.leases.sub r info hinfo
    by_cases hother : owner ≠ none ∧ owner ≠ some info.owner
    · simp only [if_pos hother]
      refine ⟨T, .notReleased r owner ended (fun info' hlast' hmay _ => ?_), h.wait later⟩
      obtain rfl := Option.some.inj (hlast.symm.trans hlast')
      exact hmay.elim hother.1 hother.2
    · simp only [if_neg hother]
      refine ⟨_, .released r owner ended info hlast ?_, h.assign later _ (fun r' => ?_) rfl⟩
      · rw [not_and_or, not_not, not_not] at hother
        exact hother
      · exact OrderedDict.get?_erase _ _ _

theorem extend (h : s.Shows T) (r owner : String) (ttl : ℚ) {checked : Time} (leased : Time)
    (later : s.clock ≤ checked) (upTo : checked ≤ ended) :
    ∃ T', T.Serves (.call (.extend r owner ttl checked leased) ended)
        (s.manager.reply (.extend r owner ttl checked leased)) T'
      ∧ Shows ⟨s.manager.step (.extend r owner ttl checked leased), ended⟩ T' := by
  have hended := later.trans upTo
  simp only [InMemoryLockManager.reply, InMemoryLockManager.step, InMemoryLockManager.extend]
  cases hinfo : s.manager.locks.get? r with
  | none =>
    refine ⟨T, .notExtended r owner ttl checked leased ended (fun info hlast hlives => ?_),
      h.wait hended⟩
    cases hinfo.symm.trans (h.has later hlast hlives)
  | some info =>
    have hlast := h.leases.sub r info hinfo
    by_cases howner : info.owner = owner
    · subst howner
      simp only [ne_eq, not_true_eq_false, if_false]
      cases hexpired : info.isExpired checked with
      | true =>
        refine ⟨T, .notExtended r info.owner ttl checked leased ended
          (fun info' hlast' hlives => ?_), h.dropExpired hended upTo hinfo hexpired⟩
        obtain rfl := Option.some.inj (hlast.symm.trans hlast')
        exact absurd hexpired (Bool.eq_false_iff.mp hlives)
      | false =>
        simp only [Bool.false_eq_true, if_false]
        refine ⟨_, .extended r info.owner ttl checked leased ended info hlast hexpired rfl,
          h.assign hended _ (fun r' => ?_) rfl⟩
        exact OrderedDict.get?_set s.manager.locks r r' _
    · simp only [ne_eq, howner, not_false_eq_true, if_true]
      refine ⟨T, .notExtended r owner ttl checked leased ended (fun info' hlast' _ => ?_),
        h.wait hended⟩
      obtain rfl := Option.some.inj (hlast.symm.trans hlast')
      exact howner

/-- `is_locked` and `get_lock_info` find a lock that has not expired, and throw out one that
has. -/
theorem look (h : s.Shows T) (r : String) (later : s.clock ≤ now) (upTo : now ≤ ended) :
    (∃ info, T.leases r = some info ∧ info.Lives now
        ∧ s.manager.getLockInfo r now = (some info, s.manager)
        ∧ s.manager.isLocked r now = (true, s.manager)
        ∧ Shows ⟨s.manager, ended⟩ T)
      ∨ ¬ T.Leased now r ∧ ∃ m, s.manager.getLockInfo r now = (none, m)
        ∧ s.manager.isLocked r now = (false, m) ∧ Shows ⟨m, ended⟩ T := by
  have hended := later.trans upTo
  rw [InMemoryLockManager.getLockInfo, InMemoryLockManager.isLocked, ← h.leased_iff later]
  cases hinfo : s.manager.locks.get? r with
  | none =>
    refine Or.inr ⟨?_, s.manager, rfl, rfl, h.wait hended⟩
    rintro ⟨info, hinfo', -⟩
    cases hinfo.symm.trans hinfo'
  | some info =>
    cases hexpired : info.isExpired now with
    | true =>
      refine Or.inr ⟨?_, s.manager.drop r, ?_, ?_, h.dropExpired hended upTo hinfo hexpired⟩
      · rintro ⟨info', hinfo', hlives⟩
        obtain rfl := Option.some.inj (hinfo.symm.trans hinfo')
        exact absurd hexpired (Bool.eq_false_iff.mp hlives)
      · simp [hexpired]
      · simp [hexpired]
    | false =>
      refine Or.inl ⟨info, h.leases.sub r info hinfo, hexpired, ?_, ?_, h.wait hended⟩
      · simp [hexpired]
      · simp [hexpired]

/-- **A cleanup** shows the same table. Only leases that are over at its readings go, and these
the table need not have. -/
theorem cleanupExpired (h : s.Shows T) {now : String → Time} (later : s.clock ≤ ended)
    (upTo : ∀ r, now r ≤ ended) : Shows ⟨(s.manager.cleanupExpired now).2, ended⟩ T :=
  h.sweep later now upTo
    (fun _ _ hleft => (InMemoryLockManager.get?_cleanupExpired_eq_some.mp hleft).1)
    (fun _ _ hinfo hlives => InMemoryLockManager.get?_cleanupExpired_eq_some.mpr ⟨hinfo, hlives⟩)
    (InMemoryLockManager.defaultTtl_cleanupExpired now)

theorem clear (h : s.Shows T) (later : s.clock ≤ ended) :
    ∃ T', T.Serves (.call .clear ended) (s.manager.reply .clear) T'
      ∧ Shows ⟨s.manager.step .clear, ended⟩ T' := by
  refine ⟨_, .clear ended _ (s.manager.living (fun _ => ended)) (fun r => ?_) ?_,
    .refl _ _ _, h.defaultTtl⟩
  · rw [InMemoryLockManager.mem_living]
    exact h.leased_iff later r
  · rw [InMemoryLockManager.card_living]
    exact List.countP_le_length

theorem lockCount (h : s.Shows T) {now : String → Time} (later : ∀ r, s.clock ≤ now r) :
    T.Serves (.lockCount now ended) (.count (s.manager.lockCount now)) T := by
  rw [← InMemoryLockManager.card_living]
  refine .count now ended _ (fun r => ?_)
  rw [InMemoryLockManager.mem_living]
  exact h.leased_iff (later r) r

/-- **All locks** are listed, each once. -/
theorem getAllLocks (h : s.Shows T) {now : String → Time} (later : ∀ r, s.clock ≤ now r) :
    T.Serves (.getAllLocks now ended) (.all (s.manager.getAllLocks now).1) T := by
  have hnamed : ∀ r info, (s.manager.cleanupExpired now).2.locks.get? r = some info →
      info.resource = r := fun r info hinfo =>
    T.named r info (h.leases.sub r info
      (InMemoryLockManager.get?_cleanupExpired_eq_some.mp hinfo).1)
  refine .all now ended _ ?_ (fun info => ?_)
  · have hkeys : (s.manager.cleanupExpired now).2.locks.values.map LockInfo.resource
        = (s.manager.cleanupExpired now).2.locks.keys := by
      rw [OrderedDict.values, OrderedDict.keys, List.map_map]
      exact List.map_congr_left (fun x hx => hnamed x.1 x.2 (OrderedDict.get?_eq_some_iff.mpr hx))
    show ((s.manager.cleanupExpired now).2.locks.values.map LockInfo.resource).Nodup
    rw [hkeys]
    exact OrderedDict.nodup_keys _
  · show info ∈ (s.manager.cleanupExpired now).2.locks.values ↔ _
    rw [OrderedDict.mem_values_iff]
    constructor
    · rintro ⟨r, hr⟩
      obtain ⟨hinfo, hlives⟩ := InMemoryLockManager.get?_cleanupExpired_eq_some.mp hr
      rw [hnamed r info hr]
      exact ⟨h.leases.sub r info hinfo, hlives⟩
    · rintro ⟨hlast, hlives⟩
      exact ⟨info.resource, InMemoryLockManager.get?_cleanupExpired_eq_some.mpr
        ⟨h.has (later _) hlast hlives, hlives⟩⟩

/-- **Every use** is served. -/
theorem use (h : s.Shows T) {u : LockUse} (timely : s.Timely u) :
    ∃ T', T.Serves u (s.use u).1 T' ∧ (s.use u).2.Shows T' := by
  obtain ⟨hended, hreads⟩ := timely
  cases u with
  | getAllLocks now ended =>
    exact ⟨T, h.getAllLocks (fun r => (hreads _ ⟨r, rfl⟩).1),
      h.cleanupExpired hended (fun r => (hreads _ ⟨r, rfl⟩).2)⟩
  | lockCount now ended => exact ⟨T, h.lockCount (fun r => (hreads _ ⟨r, rfl⟩).1), h.wait hended⟩
  | call c ended =>
    cases c with
    | acquire a => exact h.acquire a (hreads _ rfl).1 (hreads _ rfl).2
    | release r owner => exact h.release r owner hended
    | extend r owner ttl checked leased =>
      exact h.extend r owner ttl leased (hreads _ rfl).1 (hreads _ rfl).2
    | isLocked r now =>
      simp only [ClockedLocks.use, InMemoryLockManager.reply, InMemoryLockManager.step]
      rcases h.look r (hreads _ rfl).1 (hreads _ rfl).2 with
        ⟨info, hlast, hlives, -, heq, hshows⟩ | ⟨hfree, m, -, heq, hshows⟩
      · rw [heq]
        exact ⟨T, .isLocked r now ended true (iff_of_true rfl ⟨info, hlast, hlives⟩), hshows⟩
      · rw [heq]
        exact ⟨T, .isLocked r now ended false (iff_of_false (by simp) hfree), hshows⟩
    | getLockInfo r now =>
      simp only [ClockedLocks.use, InMemoryLockManager.reply, InMemoryLockManager.step]
      rcases h.look r (hreads _ rfl).1 (hreads _ rfl).2 with
        ⟨info, hlast, hlives, heq, -, hshows⟩ | ⟨hfree, m, heq, -, hshows⟩
      · rw [heq]
        exact ⟨T, .info r now ended info hlast hlives, hshows⟩
      · rw [heq]
        exact ⟨T, .noInfo r now ended hfree, hshows⟩
    | cleanupExpired now =>
      exact ⟨T, .cleanup now ended _, h.cleanupExpired hended (fun r => (hreads _ ⟨r, rfl⟩).2)⟩
    | clear => exact h.clear hended

end Shows

open Refinement

/-- **The in-memory manager is a lease table.** Along every history of calls at readings of the
clock that do not go backwards, with cleanups at any times, every answer is one that the lease
table allows, which has no cleanup. -/
theorem refines_leaseTable (defaultTtl defaultTimeout : ℚ) (start : Time) (us : List LockUse)
    (timely : History.Admitted (next use) Timely
      ⟨{ defaultTtl := defaultTtl, defaultTimeout := defaultTimeout }, start⟩ us) :
    ∃ T, Allows LeaseTable.Serves (LeaseTable.empty defaultTtl) us
        (replies use ⟨{ defaultTtl := defaultTtl, defaultTimeout := defaultTimeout }, start⟩ us) T
      ∧ (History.after (next use)
        ⟨{ defaultTtl := defaultTtl, defaultTimeout := defaultTimeout }, start⟩ us).Shows T :=
  allows_of_simulation timely ⟨.refl _ _ _, rfl⟩ (fun _ _ _ h ok => h.use ok)

/-- A lease of ten seconds: a cleanup leaves it alone, another owner is held off, and gets the
resource when it is over, with no cleanup. -/
theorem refines_leaseTable_two :
    let us : List LockUse :=
      [.call (.acquire (InMemoryLockManager.attemptAt "r" "a" (some 10) 0)) 1,
        .call (.cleanupExpired (fun _ => 5)) 5,
        .call (.acquire (InMemoryLockManager.attemptAt "r" "b" none 6)) 6,
        .call (.acquire (InMemoryLockManager.attemptAt "r" "b" none 11)) 12]
    ∃ T, Allows LeaseTable.Serves (LeaseTable.empty 30) us
        (replies use ⟨{ defaultTtl := 30, defaultTimeout := 0 }, 0⟩ us) T
      ∧ T.Leased 12 "r" ∧ ∀ info, T.leases "r" = some info → info.Lives 12 → info.owner = "b" := by
  intro us
  have htimely : History.Admitted (next use) Timely ⟨{ defaultTtl := 30, defaultTimeout := 0 }, 0⟩
      us := by
    simp [us, History.Admitted, Timely, LockUse.ended, LockUse.Reads, next, use,
      InMemoryLockManager.attemptAt]
    decide
  obtain ⟨T, hallows, hshows⟩ := refines_leaseTable 30 0 0 us htimely
  refine ⟨T, hallows, ?_⟩
  have hclock : (History.after (next use) ⟨{ defaultTtl := 30, defaultTimeout := 0 }, 0⟩ us).clock
      = 12 := rfl
  have hfound : ((History.after (next use) ⟨{ defaultTtl := 30, defaultTimeout := 0 }, 0⟩
      us).manager.locks.get? "r").any
        (fun info => !info.isExpired 12 && decide (info.owner = "b")) = true := by decide +kernel
  generalize History.after (next use) ⟨{ defaultTtl := 30, defaultTimeout := 0 }, 0⟩ us = s
    at hshows hclock hfound
  cases hinfo : s.manager.locks.get? "r" with
  | none =>
    rw [hinfo] at hfound
    cases hfound
  | some info =>
    rw [hinfo, Option.any_some, Bool.and_eq_true, Bool.not_eq_true', decide_eq_true_eq] at hfound
    refine ⟨(hshows.leased_iff hclock.le "r").mp ⟨info, hinfo, hfound.1⟩, ?_⟩
    intro info' hlast hlives
    obtain rfl := Option.some.inj (hinfo.symm.trans (hshows.has hclock.le hlast hlives))
    exact hfound.2

end ClockedLocks

end JobOrchestrator
