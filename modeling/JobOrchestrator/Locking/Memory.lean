import JobOrchestrator.Core.Job
import JobOrchestrator.Util.History
import JobOrchestrator.Util.OrderedDict

/-!
# The in-memory lock manager

`locking/memory.py`, with the `LockInfo` of `locking/base.py`. Every method holds
the manager's lock for the whole of its body, and so does one pass of the loop of
`acquire`: each is one function. Every reading of the clock is an argument, and so
are the UUIDs that are drawn.

A lock excludes the other owners through its one entry in `_locks`. Whoever
finds the entry expired takes it out or overwrites it, in six places. So
`unexpired` is asked of exactly the readings that are compared with the entry, and
under it the entry stays with its owner, `HeldBy`.
-/

namespace JobOrchestrator

/-- **`LockInfo`**. -/
structure LockInfo where
  lockId : String
  resource : String
  owner : String
  acquiredAt : DateTime
  expiresAt : Option DateTime := none
  metadata : List (String × Value) := []

/-- `_is_expired`, at a reading of the clock. -/
def LockInfo.isExpired (now : Time) (info : LockInfo) : Bool :=
  match info.expiresAt with
  | none => false
  | some expiresAt => decide (expiresAt.clock < (DateTime.utcnow now).clock)

/-- When a lock with this time to live expires. -/
def leaseEnd (now : Time) (ttl : ℚ) : Option DateTime :=
  if 0 < ttl then some ((DateTime.utcnow now).addSeconds ttl) else none

/-- **An attempt to acquire**: the arguments of `acquire`, and what it and one pass of its loop
read from outside. The method holds its lock during one pass and sleeps without it, so a pass is
a step; each reading of the clock has a name of its own, for they are made one after the other.
-/
structure AcquireAttempt where
  resource : String
  owner : Option String := none
  timeout : Option ℚ := none
  ttl : Option ℚ := none
  metadata : Option (List (String × Value)) := none
  /-- The UUID that stands in for an absent owner. -/
  freshOwner : String
  /-- The clock when the call began. -/
  began : Time := 0
  /-- The clock for `_is_expired`. -/
  checked : Time
  /-- The clock for `acquired_at`. -/
  acquired : Time
  /-- The clock for `expires_at`. -/
  leased : Time
  /-- The clock for the deadline. -/
  waited : Time := 0
  lockId : String

/-- `owner or str(uuid.uuid4())`. -/
def AcquireAttempt.effectiveOwner (a : AcquireAttempt) : String :=
  match a.owner with
  | none => a.freshOwner
  | some owner => if owner = "" then a.freshOwner else owner

/-- How an attempt ends. -/
inductive AcquireAnswer
  | acquired (info : LockInfo)
  | refused
  /-- The loop goes on to its next pass. -/
  | waits

/-- **`InMemoryLockManager`**: the table of locks. Entries that have expired may stay in the
table until somebody meets them. -/
structure InMemoryLockManager where
  locks : OrderedDict String LockInfo := OrderedDict.empty
  defaultTtl : ℚ := 30
  defaultTimeout : ℚ := 0

namespace InMemoryLockManager

variable (m : InMemoryLockManager)

/-- `effective_ttl`. -/
def effectiveTtl (ttl : Option ℚ) : ℚ := ttl.getD m.defaultTtl

/-- `effective_timeout`. -/
def effectiveTimeout (timeout : Option ℚ) : Option ℚ :=
  match timeout with
  | some timeout => some timeout
  | none => if 0 < m.defaultTimeout then some m.defaultTimeout else none

/-- The lock is available: it is stored. -/
def take (a : AcquireAttempt) : AcquireAnswer × InMemoryLockManager :=
  let info : LockInfo :=
    { lockId := a.lockId
      resource := a.resource
      owner := a.effectiveOwner
      acquiredAt := .utcnow a.acquired
      expiresAt := leaseEnd a.leased (m.effectiveTtl a.ttl)
      metadata := a.metadata.getD [] }
  (.acquired info, { m with locks := m.locks.set a.resource info })

/-- The owner has it already: it is extended. -/
def reenter (a : AcquireAttempt) (existing : LockInfo) : AcquireAnswer × InMemoryLockManager :=
  let info : LockInfo :=
    { existing with
      expiresAt := if 0 < m.effectiveTtl a.ttl then leaseEnd a.leased (m.effectiveTtl a.ttl)
        else existing.expiresAt }
  (.acquired info, { m with locks := m.locks.set a.resource info })

/-- Somebody else has it: the attempt waits, where it has a timeout that is not over. A
deadline of zero counts as none. -/
def holdOff (a : AcquireAttempt) : AcquireAnswer :=
  match m.effectiveTimeout a.timeout with
  | none => .refused
  | some timeout =>
    if timeout ≤ 0 then .refused
    else if a.began + timeout ≠ 0 ∧ a.began + timeout ≤ a.waited then .refused
    else .waits

/-- **One pass of the loop of `acquire`**. A free lock is taken, one that the owner has is
renewed, and from another owner the attempt is held off. -/
def acquire (a : AcquireAttempt) : AcquireAnswer × InMemoryLockManager :=
  match m.locks.get? a.resource with
  | none => m.take a
  | some existing =>
    if existing.isExpired a.checked then m.take a
    else if existing.owner = a.effectiveOwner then m.reenter a existing
    else (m.holdOff a, m)

/-- `del self._locks[resource]`. -/
def drop (resource : String) : InMemoryLockManager := { m with locks := m.locks.erase resource }

/-- **`release`**. It answers False where there is no lock or another owner is named; without an
owner it is forced. -/
def release (resource : String) (owner : Option String) : Bool × InMemoryLockManager :=
  match m.locks.get? resource with
  | none => (false, m)
  | some existing =>
    if owner ≠ none ∧ owner ≠ some existing.owner then (false, m) else (true, m.drop resource)

/-- **`extend`**, with the readings for `_is_expired` and for the new end. -/
def extend (resource owner : String) (ttl : ℚ) (checked leased : Time) :
    Bool × InMemoryLockManager :=
  match m.locks.get? resource with
  | none => (false, m)
  | some existing =>
    if existing.owner ≠ owner then (false, m)
    else if existing.isExpired checked then (false, m.drop resource)
    else (true, { m with
      locks := m.locks.set resource { existing with expiresAt := leaseEnd leased ttl } })

/-- **`get_lock_info`**: an expired lock is taken out. -/
def getLockInfo (resource : String) (now : Time) : Option LockInfo × InMemoryLockManager :=
  match m.locks.get? resource with
  | none => (none, m)
  | some existing =>
    if existing.isExpired now then (none, m.drop resource) else (some existing, m)

/-- **`is_locked`**, which looks as `get_lock_info` does. -/
def isLocked (resource : String) (now : Time) : Bool × InMemoryLockManager :=
  match m.locks.get? resource with
  | none => (false, m)
  | some existing => if existing.isExpired now then (false, m.drop resource) else (true, m)

/-- The resources whose locks `cleanup_expired` finds expired, each at its own reading. -/
def expiredResources (now : String → Time) : List String :=
  (m.locks.entries.filter (fun x => x.2.isExpired (now x.1))).map Prod.fst

/-- **`cleanup_expired`**. Each lock is looked at with a reading of its own. -/
def cleanupExpired (now : String → Time) : ℕ × InMemoryLockManager :=
  ((m.expiredResources now).length,
    (m.expiredResources now).foldl (fun m resource => m.drop resource) m)

/-- `clear`. -/
def clear : ℕ × InMemoryLockManager := (m.locks.size, { m with locks := OrderedDict.empty })

end InMemoryLockManager

/-! ## Histories of calls -/

/-- **A call of the manager.** -/
inductive LockCall
  | acquire (a : AcquireAttempt)
  | release (resource : String) (owner : Option String)
  | extend (resource owner : String) (ttl : ℚ) (checked leased : Time)
  | isLocked (resource : String) (now : Time)
  | getLockInfo (resource : String) (now : Time)
  | cleanupExpired (now : String → Time)
  | clear

/-- The resource a call is on; the last two are on all. -/
def LockCall.resource? : LockCall → Option String
  | .acquire a => some a.resource
  | .release resource _ | .extend resource _ _ _ _ | .isLocked resource _
  | .getLockInfo resource _ => some resource
  | .cleanupExpired _ | .clear => none

namespace InMemoryLockManager

variable {m : InMemoryLockManager} {r r' o : String}

/-- The manager after a call. -/
def step (m : InMemoryLockManager) : LockCall → InMemoryLockManager
  | .acquire a => (m.acquire a).2
  | .release resource owner => (m.release resource owner).2
  | .extend resource owner ttl checked leased => (m.extend resource owner ttl checked leased).2
  | .isLocked resource now => (m.isLocked resource now).2
  | .getLockInfo resource now => (m.getLockInfo resource now).2
  | .cleanupExpired now => (m.cleanupExpired now).2
  | .clear => m.clear.2

/-! ### Locks on other resources -/

theorem get?_drop_of_ne (h : r' ≠ r) : (m.drop r).locks.get? r' = m.locks.get? r' :=
  OrderedDict.get?_erase_ne _ h

/-- **A call on one resource** leaves the entries of all others as they are. -/
theorem get?_step_of_ne {c : LockCall} (on : c.resource? = some r) (other : r' ≠ r) :
    (m.step c).locks.get? r' = m.locks.get? r' := by
  cases c with
  | acquire a =>
    cases on
    simp only [step, acquire]
    split
    · exact OrderedDict.get?_set_ne _ _ other
    · split
      · exact OrderedDict.get?_set_ne _ _ other
      · split
        · exact OrderedDict.get?_set_ne _ _ other
        · rfl
  | release resource owner =>
    cases on
    simp only [step, release]
    split
    · rfl
    · split
      · rfl
      · exact get?_drop_of_ne other
  | extend resource owner ttl checked leased =>
    cases on
    simp only [step, extend]
    split
    · rfl
    · split
      · rfl
      · split
        · exact get?_drop_of_ne other
        · exact OrderedDict.get?_set_ne _ _ other
  | isLocked resource now | getLockInfo resource now =>
    cases on
    simp only [step, isLocked, getLockInfo]
    split
    · rfl
    · split
      · exact get?_drop_of_ne other
      · rfl
  | cleanupExpired | clear => cases on

/-! ### A lock in an owner's hands -/

/-- **The owner has the lock.** Whether it has expired is not asked: that is a question of the
reading. -/
def HeldBy (r o : String) (m : InMemoryLockManager) : Prop :=
  ∃ info, m.locks.get? r = some info ∧ info.owner = o

/-- A reading of the clock at which the lock, if there is one, has not expired. -/
def unexpired (r : String) (now : Time) (m : InMemoryLockManager) : Bool :=
  (m.locks.get? r).all (fun info => !info.isExpired now)

theorem isExpired_of_unexpired {info : LockInfo} {now : Time} (has : m.locks.get? r = some info)
    (h : m.unexpired r now = true) : info.isExpired now = false := by
  unfold unexpired at h
  rw [has] at h
  exact (Bool.not_eq_true' _).mp h

/-- **A call leaves the owner its lock**: the owner does not release it, nobody does
without naming an owner, the table is not cleared, and the lock has not expired at the
readings that are compared with it. -/
def Undisturbed (r o : String) (m : InMemoryLockManager) : LockCall → Prop
  | .acquire a => a.resource = r → m.unexpired r a.checked = true
  | .release resource owner => resource = r → owner ≠ none ∧ owner ≠ some o
  | .extend resource _ _ checked _ => resource = r → m.unexpired r checked = true
  | .isLocked resource now | .getLockInfo resource now =>
    resource = r → m.unexpired r now = true
  | .cleanupExpired now => m.unexpired r (now r) = true
  | .clear => False

instance decidableUndisturbed (r o : String) (m : InMemoryLockManager) :
    (c : LockCall) → Decidable (m.Undisturbed r o c)
  | .acquire a => inferInstanceAs (Decidable (a.resource = r → m.unexpired r a.checked = true))
  | .release resource owner =>
    inferInstanceAs (Decidable (resource = r → owner ≠ none ∧ owner ≠ some o))
  | .extend resource _ _ checked _ =>
    inferInstanceAs (Decidable (resource = r → m.unexpired r checked = true))
  | .isLocked resource now | .getLockInfo resource now =>
    inferInstanceAs (Decidable (resource = r → m.unexpired r now = true))
  | .cleanupExpired now => inferInstanceAs (Decidable (m.unexpired r (now r) = true))
  | .clear => isFalse id

/-- Whoever is held off has not acquired: the answer is a refusal or another pass. -/
theorem holdOff_ne_acquired (a : AcquireAttempt) (info : LockInfo) :
    m.holdOff a ≠ .acquired info := by
  unfold holdOff
  split
  · exact fun h => by cases h
  · split
    · exact fun h => by cases h
    · split <;> exact fun h => by cases h

/-- A granted attempt leaves the lock with its effective owner. -/
theorem heldBy_of_acquired {a : AcquireAttempt} {info : LockInfo}
    (granted : (m.acquire a).1 = .acquired info) :
    (m.step (.acquire a)).HeldBy a.resource a.effectiveOwner := by
  have htake : (m.take a).2.HeldBy a.resource a.effectiveOwner :=
    ⟨_, OrderedDict.get?_set_self _ _ _, rfl⟩
  simp only [step]
  unfold acquire at granted ⊢
  split at granted
  · exact htake
  · rename_i existing hexisting
    split at granted
    · rename_i hexpired
      simp only [hexpired, if_true]
      exact htake
    · rename_i hlive
      rw [if_neg hlive]
      split at granted
      · rename_i howner
        rw [if_pos howner]
        exact ⟨_, OrderedDict.get?_set_self _ _ _, howner⟩
      · exact absurd granted (holdOff_ne_acquired a info)

theorem get?_foldl_drop {rs : List String} (h : r ∉ rs) (m : InMemoryLockManager) :
    (rs.foldl (fun m resource => m.drop resource) m).locks.get? r = m.locks.get? r := by
  induction rs generalizing m with
  | nil => rfl
  | cons resource rs ih =>
    rw [List.foldl_cons, ih (fun hr => h (List.mem_cons_of_mem resource hr))]
    exact get?_drop_of_ne (fun heq => h (heq ▸ List.mem_cons_self))

/-- A lock that has not expired is not cleaned up. -/
theorem notMem_expiredResources {now : String → Time} (h : m.unexpired r (now r) = true) :
    r ∉ m.expiredResources now := by
  intro hr
  obtain ⟨⟨resource, info⟩, hmem, rfl⟩ := List.mem_map.mp hr
  obtain ⟨hentry, hexpired⟩ := List.mem_filter.mp hmem
  have hlive := isExpired_of_unexpired (OrderedDict.get?_eq_some_iff.mpr hentry) h
  cases hlive.symm.trans hexpired

/-- **A call that leaves the owner its lock** does so. -/
theorem HeldBy.step (h : m.HeldBy r o) {c : LockCall} (undisturbed : m.Undisturbed r o c) :
    (m.step c).HeldBy r o := by
  obtain ⟨info, has, howner⟩ := h
  by_cases helsewhere : ∃ resource, c.resource? = some resource ∧ r ≠ resource
  · obtain ⟨resource, hon, hne⟩ := helsewhere
    exact ⟨info, (get?_step_of_ne hon hne).trans has, howner⟩
  -- the call is on this resource, or on all
  have hon : ∀ resource, c.resource? = some resource → r = resource :=
    fun resource hc => by_contra (fun hne => helsewhere ⟨resource, hc, hne⟩)
  cases c with
  | acquire a =>
    obtain rfl := hon _ rfl
    have hlive := isExpired_of_unexpired has (undisturbed rfl)
    simp only [InMemoryLockManager.step, acquire, has, hlive, Bool.false_eq_true, if_false]
    split
    · exact ⟨_, OrderedDict.get?_set_self _ _ _, howner⟩
    · exact ⟨info, has, howner⟩
  | release resource owner =>
    obtain rfl := hon _ rfl
    obtain ⟨hnamed, hother⟩ := undisturbed rfl
    simp only [InMemoryLockManager.step, release, has]
    rw [if_pos ⟨hnamed, howner ▸ hother⟩]
    exact ⟨info, has, howner⟩
  | extend resource owner ttl checked leased =>
    obtain rfl := hon _ rfl
    have hlive := isExpired_of_unexpired has (undisturbed rfl)
    simp only [InMemoryLockManager.step, extend, has, hlive, Bool.false_eq_true, if_false]
    split
    · exact ⟨info, has, howner⟩
    · exact ⟨_, OrderedDict.get?_set_self _ _ _, howner⟩
  | isLocked resource now | getLockInfo resource now =>
    obtain rfl := hon _ rfl
    have hlive := isExpired_of_unexpired has (undisturbed rfl)
    simp only [InMemoryLockManager.step, isLocked, getLockInfo, has, hlive, Bool.false_eq_true,
      if_false]
    exact ⟨info, has, howner⟩
  | cleanupExpired now =>
    refine ⟨info, ?_, howner⟩
    show ((m.expiredResources now).foldl (fun m resource => m.drop resource) m).locks.get? r = _
    rw [get?_foldl_drop (notMem_expiredResources undisturbed)]
    exact has
  | clear => exact undisturbed.elim

/-! ## Exclusion -/

/-- **The lock excludes the others** from a call: they do not acquire, release or extend it,
and it is seen to be locked. -/
def Excludes (r o : String) (m : InMemoryLockManager) : LockCall → Prop
  | .acquire a => a.resource = r → a.effectiveOwner ≠ o → ∀ info, (m.acquire a).1 ≠ .acquired info
  | .release resource owner =>
    resource = r → owner ≠ none → owner ≠ some o → (m.release resource owner).1 = false
  | .extend resource owner ttl checked leased =>
    resource = r → owner ≠ o → (m.extend resource owner ttl checked leased).1 = false
  | .isLocked resource now => resource = r → (m.isLocked resource now).1 = true
  | _ => True

theorem HeldBy.excludes (h : m.HeldBy r o) {c : LockCall} (undisturbed : m.Undisturbed r o c) :
    m.Excludes r o c := by
  obtain ⟨info, has, rfl⟩ := h
  cases c with
  | acquire a =>
    rintro rfl hother info'
    have hlive := isExpired_of_unexpired has (undisturbed rfl)
    simp only [acquire, has, hlive, Bool.false_eq_true, if_false, if_neg (Ne.symm hother)]
    exact holdOff_ne_acquired a info'
  | release resource owner =>
    rintro rfl hnamed hother
    simp only [release, has]
    rw [if_pos ⟨hnamed, hother⟩]
  | extend resource owner ttl checked leased =>
    rintro rfl hother
    simp only [extend, has]
    rw [if_pos (Ne.symm hother)]
  | isLocked resource now =>
    rintro rfl
    have hlive := isExpired_of_unexpired has (undisturbed rfl)
    simp only [isLocked, has, hlive, Bool.false_eq_true, if_false]
  | getLockInfo | cleanupExpired | clear => exact trivial

/-- **In-memory locks exclude.** After an attempt that was granted, and after any history of
calls that leave the owner its lock: a further such call finds the lock taken, and a
call on this resource leaves the entries of the others alone. -/
theorem acquired_excludes {a : AcquireAttempt} {info : LockInfo}
    (granted : (m.acquire a).1 = .acquired info) {cs : List LockCall}
    (undisturbed : History.Admitted step (Undisturbed a.resource a.effectiveOwner)
      (m.step (.acquire a)) cs) {c : LockCall}
    (next : Undisturbed a.resource a.effectiveOwner
      (History.after step (m.step (.acquire a)) cs) c) :
    Excludes a.resource a.effectiveOwner (History.after step (m.step (.acquire a)) cs) c
      ∧ (c.resource? = some a.resource → ∀ r', r' ≠ a.resource →
        ((History.after step (m.step (.acquire a)) cs).step c).locks.get? r'
          = (History.after step (m.step (.acquire a)) cs).locks.get? r') := by
  have hheld : (History.after step (m.step (.acquire a)) cs).HeldBy a.resource
      a.effectiveOwner :=
    History.invariant undisturbed (heldBy_of_acquired granted) (fun _ _ h hok => h.step hok)
  exact ⟨hheld.excludes next, fun on r' other => get?_step_of_ne on other⟩

/-- An attempt on one resource at one moment. -/
def attemptAt (resource owner : String) (ttl : Option ℚ) (now : Time) : AcquireAttempt where
  resource := resource
  owner := some owner
  ttl := ttl
  freshOwner := ""
  checked := now
  acquired := now
  leased := now
  lockId := "1"

/-- The owner of a lock of ten seconds makes it unlimited; a week later it is still locked,
also after a cleanup. -/
theorem acquired_excludes_week :
    ((History.after step ({} : InMemoryLockManager)
      [.acquire (attemptAt "r" "a" (some 10) 0), .extend "r" "a" 0 9 9,
        .acquire (attemptAt "r" "b" none 100), .cleanupExpired (fun _ => 604800)]).isLocked
      "r" 604800).1 = true := by
  have hundisturbed : History.Admitted step (Undisturbed "r" "a")
      (({} : InMemoryLockManager).step (.acquire (attemptAt "r" "a" (some 10) 0)))
      [.extend "r" "a" 0 9 9, .acquire (attemptAt "r" "b" none 100),
        .cleanupExpired (fun _ => 604800)] := by
    decide +kernel
  exact (acquired_excludes (m := {}) (a := attemptAt "r" "a" (some 10) 0) rfl hundisturbed
    (c := .isLocked "r" 604800) (by decide +kernel)).1 rfl

end InMemoryLockManager

end JobOrchestrator
