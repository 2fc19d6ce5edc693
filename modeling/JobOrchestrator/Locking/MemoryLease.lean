import JobOrchestrator.Locking.Memory

/-!
# The leases of the in-memory locks

A successful `acquire` is a promise to its caller: until its time to live is
over, or for ever where it is not positive, nobody else gets the lock. An owner may
acquire again what it has, so several promises can run at once, and the one
entry of the table has to outlast them all.

It does not: acquiring again sets the expiry anew, to an earlier time where the new time
to live is the shorter one, and leaves a limited expiry alone where unlimited was
asked for.
-/

namespace JobOrchestrator

/-- **What a grant promises**: the owner has the resource until then, or for ever. It is fixed
when the grant is made; whether the table still covers it is what later calls decide. -/
structure Lease where
  resource : String
  owner : String
  ends : Option DateTime
  deriving DecidableEq

namespace Lease

/-- The lease is not over at a reading of the clock. -/
def Runs (now : Time) (p : Lease) : Prop := ∀ e ∈ p.ends, now ≤ e.clock

instance (now : Time) (p : Lease) : Decidable (p.Runs now) :=
  inferInstanceAs (Decidable (∀ e ∈ p.ends, now ≤ e.clock))

/-- **The calls that end a lease**: its owner releases or extends the lock, somebody
releases it without naming an owner, the table is cleared, or the lock is looked at when the
lease is over. -/
def EndedBy (p : Lease) : LockCall → Prop
  | .acquire a => a.resource = p.resource ∧ ¬ p.Runs a.checked
  | .release resource owner => resource = p.resource ∧ (owner = none ∨ owner = some p.owner)
  | .extend resource owner _ checked _ =>
    resource = p.resource ∧ (owner = p.owner ∨ ¬ p.Runs checked)
  | .isLocked resource now | .getLockInfo resource now =>
    resource = p.resource ∧ ¬ p.Runs now
  | .cleanupExpired now => ¬ p.Runs (now p.resource)
  | .clear => True

instance decidableEndedBy (p : Lease) : (c : LockCall) → Decidable (p.EndedBy c)
  | .acquire a => inferInstanceAs (Decidable (a.resource = p.resource ∧ ¬ p.Runs a.checked))
  | .release resource owner =>
    inferInstanceAs (Decidable (resource = p.resource ∧ (owner = none ∨ owner = some p.owner)))
  | .extend resource owner _ checked _ =>
    inferInstanceAs (Decidable (resource = p.resource ∧ (owner = p.owner ∨ ¬ p.Runs checked)))
  | .isLocked resource now | .getLockInfo resource now =>
    inferInstanceAs (Decidable (resource = p.resource ∧ ¬ p.Runs now))
  | .cleanupExpired now => inferInstanceAs (Decidable (¬ p.Runs (now p.resource)))
  | .clear => isTrue trivial

/-- **The lease is kept**: while it runs, no attempt of another owner is granted. -/
def Kept (p : Lease) (m : InMemoryLockManager) : Prop :=
  ∀ a : AcquireAttempt, a.resource = p.resource → a.effectiveOwner ≠ p.owner →
    p.Runs a.checked → ∀ info, (m.acquire a).1 ≠ .acquired info

/-- The table has an entry of the owner that lasts as long as the lease. -/
def Covered (p : Lease) (m : InMemoryLockManager) : Prop :=
  ∃ info, m.locks.get? p.resource = some info ∧ info.owner = p.owner
    ∧ ∀ e ∈ info.expiresAt, ∃ u ∈ p.ends, u.clock ≤ e.clock

end Lease

theorem LockInfo.isExpired_eq_false_iff {info : LockInfo} {now : Time} :
    info.isExpired now = false ↔ ∀ e ∈ info.expiresAt, now ≤ e.clock := by
  rw [LockInfo.isExpired]
  cases info.expiresAt with
  | none => simp
  | some e =>
    show decide (e.clock < now) = false ↔ ∀ e' ∈ some e, now ≤ e'.clock
    rw [decide_eq_false_iff_not, not_lt]
    simp [Option.mem_def]

/-- An attempt of an owner on a resource, at one reading of the clock. -/
def AcquireAttempt.by (owner resource : String) (now : Time) : AcquireAttempt where
  resource := resource
  freshOwner := owner
  checked := now
  acquired := now
  leased := now
  lockId := ""

namespace Lease

variable {p : Lease} {m : InMemoryLockManager}

/-- An entry that lasts as long as the lease has not expired while it runs. -/
theorem isExpired_of_runs {info : LockInfo} {now : Time}
    (lasts : ∀ e ∈ info.expiresAt, ∃ u ∈ p.ends, u.clock ≤ e.clock) (runs : p.Runs now) :
    info.isExpired now = false := by
  refine LockInfo.isExpired_eq_false_iff.mpr (fun e he => ?_)
  obtain ⟨u, hu, hle⟩ := lasts e he
  exact (runs u hu).trans hle

theorem exists_runs (p : Lease) : ∃ now, p.Runs now := by
  cases h : p.ends with
  | none => exact ⟨0, fun e he => by rw [h] at he; cases he⟩
  | some u =>
    refine ⟨u.clock, fun e he => ?_⟩
    rw [h, Option.mem_some_iff] at he
    exact he ▸ le_rfl

/-- An attempt is granted where there is no lock, where it has expired, and where its own
owner has it. -/
theorem exists_acquired {a : AcquireAttempt} (open_ : ∀ info, m.locks.get? a.resource = some info →
    info.isExpired a.checked = true ∨ info.owner = a.effectiveOwner) :
    ∃ info, (m.acquire a).1 = .acquired info := by
  rw [InMemoryLockManager.acquire]
  cases hinfo : m.locks.get? a.resource with
  | none => exact ⟨_, rfl⟩
  | some info =>
    obtain hexpired | howner := open_ info hinfo
    · exact ⟨_, by simp only [hexpired, if_true]; rfl⟩
    · cases hexpired : info.isExpired a.checked with
      | true => exact ⟨_, by simp only [hexpired, if_true]; rfl⟩
      | false =>
        exact ⟨_, by simp only [hexpired, Bool.false_eq_true, if_false, if_pos howner]; rfl⟩

/-- **A lease is kept exactly where the table covers it.** -/
theorem kept_iff_covered : p.Kept m ↔ p.Covered m := by
  constructor
  · intro h
    have hopen (owner : String) (now : Time) (hne : owner ≠ p.owner) (hruns : p.Runs now) :
        ∃ info, m.locks.get? p.resource = some info ∧ info.isExpired now = false
          ∧ info.owner ≠ owner := by
      by_contra hall
      obtain ⟨info, hacquired⟩ := exists_acquired (m := m) (a := .by owner p.resource now)
        (fun info hinfo => by
          by_contra hnot
          rw [not_or, Bool.not_eq_true] at hnot
          exact hall ⟨info, hinfo, hnot.1, hnot.2⟩)
      exact h (.by owner p.resource now) rfl hne hruns info hacquired
    obtain ⟨now, hnow⟩ := p.exists_runs
    obtain ⟨info, hinfo, -, -⟩ := hopen (p.owner ++ "'") now
      (fun heq => by simpa using congrArg String.length heq) hnow
    have howner : info.owner = p.owner := by
      by_contra hne
      obtain ⟨info', hinfo', -, hne'⟩ := hopen info.owner now hne hnow
      obtain rfl := Option.some.inj (hinfo.symm.trans hinfo')
      exact hne' rfl
    refine ⟨info, hinfo, howner, fun e he => ?_⟩
    -- the lease runs at no moment after the entry has expired
    have hbefore (now : Time) (hruns : p.Runs now) : now ≤ e.clock := by
      obtain ⟨info', hinfo', hlive, -⟩ := hopen (p.owner ++ "'") now
        (fun heq => by simpa using congrArg String.length heq) hruns
      obtain rfl := Option.some.inj (hinfo.symm.trans hinfo')
      exact LockInfo.isExpired_eq_false_iff.mp hlive e he
    cases hu : p.ends with
    | none =>
      have hlate := hbefore (e.clock + 1) (fun u hmem => by rw [hu] at hmem; cases hmem)
      exact absurd hlate (not_le.mpr (lt_add_one _))
    | some u =>
      refine ⟨u, rfl, hbefore u.clock (fun u' hmem => ?_)⟩
      rw [hu, Option.mem_some_iff] at hmem
      exact hmem ▸ le_rfl
  · rintro ⟨info, hinfo, howner, hlasts⟩ a hres hne hruns info'
    have hlive := isExpired_of_runs hlasts hruns
    have hother : info.owner ≠ a.effectiveOwner := fun heq => hne (heq.symm.trans howner)
    rw [← hres] at hinfo
    simp only [InMemoryLockManager.acquire, hinfo, hlive, Bool.false_eq_true, if_false,
      if_neg hother]
    exact InMemoryLockManager.holdOff_ne_acquired a info'

end Lease

/-! ## Histories -/

/-- **The manager, and the leases that run.** -/
structure LeasedLocks where
  manager : InMemoryLockManager
  leases : List Lease

/-- The lease of a granted attempt: a time to live that is given and not positive is for ever,
and a default that is not positive promises nothing. -/
def InMemoryLockManager.leaseOf (m : InMemoryLockManager) (a : AcquireAttempt) : Option Lease :=
  match a.ttl with
  | some ttl => some ⟨a.resource, a.effectiveOwner, leaseEnd a.leased ttl⟩
  | none =>
    if 0 < m.defaultTtl then
      some ⟨a.resource, a.effectiveOwner, leaseEnd a.leased m.defaultTtl⟩
    else none

/-- The lease a call begins. -/
def InMemoryLockManager.granted (m : InMemoryLockManager) : LockCall → Option Lease
  | .acquire a =>
    match (m.acquire a).1 with
    | .acquired _ => m.leaseOf a
    | _ => none
  | _ => none

namespace LeasedLocks

open InMemoryLockManager

/-- **A call**, and what it does to the leases. -/
def step (s : LeasedLocks) (c : LockCall) : LeasedLocks where
  manager := s.manager.step c
  leases := s.leases.filter (fun p => decide (¬ p.EndedBy c)) ++ (s.manager.granted c).toList

/-- Every lease that runs is kept. A lease that was ended, by its owner or by force, is not among
them. -/
def AllKept (s : LeasedLocks) : Prop := ∀ p ∈ s.leases, p.Kept s.manager

/-- **Acquiring again renews enough.** An owner that has the lock asks for at least as long
as every lease of it that still runs, and for ever only where the lock is for ever. -/
def RenewsEnough (s : LeasedLocks) : LockCall → Prop
  | .acquire a => ∀ existing, s.manager.locks.get? a.resource = some existing →
    existing.isExpired a.checked = false → existing.owner = a.effectiveOwner →
      (0 < s.manager.effectiveTtl a.ttl → ∀ p ∈ s.leases, p.resource = a.resource →
        p.Runs a.checked → ∃ u ∈ p.ends, u.clock ≤ a.leased + s.manager.effectiveTtl a.ttl)
      ∧ ∀ ttl ∈ a.ttl, ttl ≤ 0 → existing.expiresAt = none
  | _ => True

variable {s : LeasedLocks} {p : Lease} {m : InMemoryLockManager}

theorem allKept_iff : s.AllKept ↔ ∀ p ∈ s.leases, p.Covered s.manager :=
  forall₂_congr (fun _ _ => Lease.kept_iff_covered)

/-- What a lease is covered by is the one entry of its resource. -/
theorem covered_congr {m' : InMemoryLockManager}
    (h : m'.locks.get? p.resource = m.locks.get? p.resource) : p.Covered m' ↔ p.Covered m := by
  rw [Lease.Covered, Lease.Covered, h]

/-- **A call that is no attempt leaves the entry of a lease that it does not end.** -/
theorem get?_step_of_covered (h : p.Covered m) {c : LockCall} (runs : ¬ p.EndedBy c)
    (noAttempt : ∀ a, c ≠ .acquire a) :
    (m.step c).locks.get? p.resource = m.locks.get? p.resource := by
  by_cases helsewhere : ∃ resource, c.resource? = some resource ∧ p.resource ≠ resource
  · obtain ⟨resource, hon, hne⟩ := helsewhere
    exact get?_step_of_ne hon hne
  -- the call is on the lease's resource, or on all
  have hon : ∀ resource, c.resource? = some resource → resource = p.resource :=
    fun resource hc => by_contra (fun hne => helsewhere ⟨resource, hc, Ne.symm hne⟩)
  obtain ⟨info, hinfo, howner, hlasts⟩ := h
  cases c with
  | acquire a => exact absurd rfl (noAttempt a)
  | release resource owner =>
    obtain rfl := hon _ rfl
    have hnot : owner ≠ none ∧ owner ≠ some info.owner := by
      rw [howner]
      exact ⟨fun h => runs ⟨rfl, Or.inl h⟩, fun h => runs ⟨rfl, Or.inr h⟩⟩
    simp only [InMemoryLockManager.step, release, hinfo]
    rw [if_pos hnot]
    exact hinfo
  | extend resource owner ttl checked leased =>
    obtain rfl := hon _ rfl
    have hne : info.owner ≠ owner := fun heq => runs ⟨rfl, Or.inl (heq.symm.trans howner)⟩
    simp only [InMemoryLockManager.step, extend, hinfo]
    rw [if_pos hne]
    exact hinfo
  | isLocked resource now | getLockInfo resource now =>
    obtain rfl := hon _ rfl
    have hlive := Lease.isExpired_of_runs hlasts (not_not.mp (fun h => runs ⟨rfl, h⟩))
    simp only [InMemoryLockManager.step, isLocked, getLockInfo, hinfo, hlive, Bool.false_eq_true,
      if_false]
  | cleanupExpired now =>
    have hlive := Lease.isExpired_of_runs hlasts (not_not.mp runs)
    refine get?_foldl_drop (notMem_expiredResources ?_) m
    rw [unexpired, hinfo]
    simpa using hlive
  | clear => exact absurd trivial runs

/-- **The leases before an attempt that it does not end.** -/
theorem not_endedBy_acquire {a : AcquireAttempt} :
    ¬ p.EndedBy (.acquire a) ↔ (a.resource = p.resource → p.Runs a.checked) := by
  rw [Lease.EndedBy, not_and, not_not]

/-- A lease that is begun is covered by an entry that ends when it does. -/
theorem covered_leaseOf {a : AcquireAttempt} (hp : p ∈ m.leaseOf a) {m' : InMemoryLockManager}
    {info : LockInfo} (hinfo : m'.locks.get? a.resource = some info)
    (howner : info.owner = a.effectiveOwner)
    (hends : info.expiresAt = leaseEnd a.leased (m.effectiveTtl a.ttl)) : p.Covered m' := by
  have hlasts : ∀ e ∈ info.expiresAt, ∃ u ∈ leaseEnd a.leased (m.effectiveTtl a.ttl),
      u.clock ≤ e.clock := by
    intro e he
    exact ⟨e, hends ▸ he, le_rfl⟩
  rw [leaseOf] at hp
  rw [effectiveTtl] at hlasts
  cases httl : a.ttl with
  | some ttl =>
    rw [httl] at hp hlasts
    obtain rfl := Option.some.inj hp
    exact ⟨info, hinfo, howner, hlasts⟩
  | none =>
    rw [httl] at hp hlasts
    dsimp only at hp
    split at hp
    · obtain rfl := Option.some.inj hp
      exact ⟨info, hinfo, howner, hlasts⟩
    · cases hp

/-- **What an attempt comes to**: the lock is taken, or acquired again, or the attempt is held
off. -/
theorem acquire_cases (m : InMemoryLockManager) (a : AcquireAttempt) :
    ((∀ info, m.locks.get? a.resource = some info → info.isExpired a.checked = true)
        ∧ m.acquire a = m.take a)
      ∨ ∃ existing, m.locks.get? a.resource = some existing
        ∧ existing.isExpired a.checked = false
        ∧ (existing.owner = a.effectiveOwner ∧ m.acquire a = m.reenter a existing
          ∨ existing.owner ≠ a.effectiveOwner ∧ m.acquire a = (m.holdOff a, m)) := by
  rw [InMemoryLockManager.acquire]
  cases hinfo : m.locks.get? a.resource with
  | none => exact Or.inl ⟨fun info h => (by cases h), rfl⟩
  | some existing =>
    cases hexpired : existing.isExpired a.checked with
    | true =>
      refine Or.inl ⟨fun info h => ?_, by simp only [hexpired, if_true]⟩
      obtain rfl := Option.some.inj h
      exact hexpired
    | false =>
      refine Or.inr ⟨existing, rfl, hexpired, ?_⟩
      by_cases howner : existing.owner = a.effectiveOwner
      · exact Or.inl ⟨howner, by simp only [hexpired, Bool.false_eq_true, if_false, if_pos howner]⟩
      · exact Or.inr ⟨howner, by simp only [hexpired, Bool.false_eq_true, if_false, if_neg howner]⟩

/-- A lock that is taken covers its lease, and ends no other. -/
theorem allCovered_take (h : ∀ p ∈ s.leases, p.Covered s.manager) {a : AcquireAttempt}
    (free : ∀ info, s.manager.locks.get? a.resource = some info → info.isExpired a.checked = true)
    (taken : s.manager.acquire a = s.manager.take a) :
    ∀ p ∈ (s.step (.acquire a)).leases, p.Covered (s.step (.acquire a)).manager := by
  have hmanager : (s.step (.acquire a)).manager = (s.manager.take a).2 := congrArg Prod.snd taken
  intro p hp
  rw [hmanager]
  obtain hp | hp := List.mem_append.mp hp
  · obtain ⟨hp, hruns⟩ := List.mem_filter.mp hp
    rw [decide_eq_true_eq, not_endedBy_acquire] at hruns
    refine (covered_congr (OrderedDict.get?_set_ne _ _ (fun heq => ?_))).mpr (h p hp)
    -- a lease of this resource that runs is covered by an entry that has not expired
    obtain ⟨info, hinfo, -, hlasts⟩ := h p hp
    have hlive := Lease.isExpired_of_runs hlasts (hruns heq.symm)
    cases hlive.symm.trans (free info (heq ▸ hinfo))
  · have hnew : p ∈ s.manager.leaseOf a := by
      rw [granted, taken] at hp
      exact Option.mem_toList.mp hp
    exact covered_leaseOf hnew (OrderedDict.get?_set_self _ _ _) rfl rfl

/-- An attempt that is held off changes nothing: it makes no lease, ends none and writes to no
entry. -/
theorem allCovered_holdOff (h : ∀ p ∈ s.leases, p.Covered s.manager) {a : AcquireAttempt}
    (heldOff : s.manager.acquire a = (s.manager.holdOff a, s.manager)) :
    ∀ p ∈ (s.step (.acquire a)).leases, p.Covered (s.step (.acquire a)).manager := by
  have hmanager : (s.step (.acquire a)).manager = s.manager := congrArg Prod.snd heldOff
  intro p hp
  rw [hmanager]
  obtain hp | hp := List.mem_append.mp hp
  · exact h p (List.mem_of_mem_filter hp)
  · rw [granted, heldOff] at hp
    dsimp only at hp
    split at hp
    · rename_i info hacquired
      exact absurd hacquired (holdOff_ne_acquired a info)
    · simp at hp

/-! ## Acquiring again -/

/-- The entry after that: it ends anew, or as it did. -/
theorem get?_reenter (m : InMemoryLockManager) (a : AcquireAttempt) (existing : LockInfo) :
    (m.reenter a existing).2.locks.get? a.resource
      = some { existing with
          expiresAt := if 0 < m.effectiveTtl a.ttl then leaseEnd a.leased (m.effectiveTtl a.ttl)
            else existing.expiresAt } :=
  OrderedDict.get?_set_self _ _ _

/-- The leases after an owner has acquired its resource again: its old one is not ended by that,
and a new one begins. -/
theorem leases_reenter {a : AcquireAttempt} {existing : LockInfo}
    (again : s.manager.acquire a = s.manager.reenter a existing) :
    (s.step (.acquire a)).leases
      = s.leases.filter (fun p => decide (¬ p.EndedBy (.acquire a)))
        ++ (s.manager.leaseOf a).toList := by
  show _ ++ (s.manager.granted (.acquire a)).toList = _
  rw [granted, again]
  rfl

/-- The leases of other resources are covered as they were. -/
theorem covered_reenter_of_ne (h : p.Covered m) {a : AcquireAttempt} (existing : LockInfo)
    (ne : p.resource ≠ a.resource) : p.Covered (m.reenter a existing).2 :=
  (covered_congr (OrderedDict.get?_set_ne _ _ ne)).mpr h

/-- **With a time to live**, the entry covers what ends before the new time. -/
theorem allCovered_renewed_iff (h : ∀ p ∈ s.leases, p.Covered s.manager) {a : AcquireAttempt}
    {existing : LockInfo} (has : s.manager.locks.get? a.resource = some existing)
    (own : existing.owner = a.effectiveOwner)
    (again : s.manager.acquire a = s.manager.reenter a existing)
    (limited : 0 < s.manager.effectiveTtl a.ttl) :
    (∀ p ∈ (s.step (.acquire a)).leases, p.Covered (s.manager.reenter a existing).2)
      ↔ ∀ p ∈ s.leases, p.resource = a.resource → p.Runs a.checked →
        ∃ u ∈ p.ends, u.clock ≤ a.leased + s.manager.effectiveTtl a.ttl := by
  have hentry := get?_reenter s.manager a existing
  rw [if_pos limited] at hentry
  have hlease : leaseEnd a.leased (s.manager.effectiveTtl a.ttl)
      = some ⟨a.leased + s.manager.effectiveTtl a.ttl, none⟩ := if_pos limited
  rw [leases_reenter again]
  constructor
  · intro hall p hp hres hruns
    have hkept : ¬ p.EndedBy (.acquire a) := not_endedBy_acquire.mpr (fun _ => hruns)
    obtain ⟨info, hinfo, -, hlasts⟩ := hall p (List.mem_append_left _
      (List.mem_filter.mpr ⟨hp, decide_eq_true hkept⟩))
    rw [hres, hentry] at hinfo
    obtain rfl := Option.some.inj hinfo
    exact hlasts _ hlease
  · intro hall p hp
    obtain hp | hp := List.mem_append.mp hp
    · obtain ⟨hp, hruns⟩ := List.mem_filter.mp hp
      rw [decide_eq_true_eq, not_endedBy_acquire] at hruns
      by_cases hres : p.resource = a.resource
      · obtain ⟨info, hinfo, howner, -⟩ := h p hp
        obtain rfl : existing = info := Option.some.inj (has.symm.trans (hres ▸ hinfo))
        rw [← hres] at hentry
        refine ⟨_, hentry, howner, fun e he => ?_⟩
        obtain rfl := Option.some.inj (hlease.symm.trans he)
        exact hall p hp hres (hruns hres.symm)
      · exact covered_reenter_of_ne (h p hp) existing hres
    · exact covered_leaseOf (Option.mem_toList.mp hp) hentry own rfl

/-- **Without one**, the entry is as it was, and covers what is for ever only where it is. -/
theorem allCovered_unlimited_iff (h : ∀ p ∈ s.leases, p.Covered s.manager) {a : AcquireAttempt}
    {existing : LockInfo} (has : s.manager.locks.get? a.resource = some existing)
    (own : existing.owner = a.effectiveOwner)
    (again : s.manager.acquire a = s.manager.reenter a existing)
    (unlimited : ¬ 0 < s.manager.effectiveTtl a.ttl) :
    (∀ p ∈ (s.step (.acquire a)).leases, p.Covered (s.manager.reenter a existing).2)
      ↔ ∀ ttl ∈ a.ttl, ttl ≤ 0 → existing.expiresAt = none := by
  have hentry := get?_reenter s.manager a existing
  rw [if_neg unlimited] at hentry
  rw [leases_reenter again]
  constructor
  · intro hall ttl httl hle
    -- the new lease has no end, so its entry must have none; but the old end is kept
    have hbegun : (⟨a.resource, a.effectiveOwner, none⟩ : Lease) ∈ s.manager.leaseOf a := by
      rw [leaseOf, httl]
      exact congrArg some (congrArg (Lease.mk _ _) (if_neg (not_lt.mpr hle)))
    obtain ⟨info, hinfo, -, hlasts⟩ := hall _ (List.mem_append_right _
      (Option.mem_toList.mpr hbegun))
    obtain rfl : existing = info := Option.some.inj (hentry.symm.trans hinfo)
    cases hends : existing.expiresAt with
    | none => rfl
    | some e =>
      obtain ⟨u, hu, -⟩ := hlasts e hends
      cases hu
  · intro hall p hp
    obtain hp | hp := List.mem_append.mp hp
    · -- the entry does not change, so a lease that was covered is covered
      have hcovered := h p (List.mem_of_mem_filter hp)
      by_cases hres : p.resource = a.resource
      · exact (covered_congr (by rw [hres, hentry, has])).mpr hcovered
      · exact covered_reenter_of_ne hcovered existing hres
    · rw [Option.mem_toList, leaseOf] at hp
      cases httl : a.ttl with
      | none =>
        rw [effectiveTtl, httl, Option.getD_none] at unlimited
        rw [httl] at hp
        dsimp only at hp
        rw [if_neg unlimited] at hp
        cases hp
      | some ttl =>
        rw [effectiveTtl, httl, Option.getD_some] at unlimited
        rw [httl] at hp
        obtain rfl := Option.some.inj hp
        refine ⟨existing, hentry, own, fun e he => ?_⟩
        rw [hall ttl httl (not_lt.mp unlimited)] at he
        cases he

/-- **Acquiring again** covers the leases exactly where it renews enough. -/
theorem allCovered_reenter_iff (h : ∀ p ∈ s.leases, p.Covered s.manager) {a : AcquireAttempt}
    {existing : LockInfo} (has : s.manager.locks.get? a.resource = some existing)
    (live : existing.isExpired a.checked = false) (own : existing.owner = a.effectiveOwner)
    (again : s.manager.acquire a = s.manager.reenter a existing) :
    (∀ p ∈ (s.step (.acquire a)).leases, p.Covered (s.step (.acquire a)).manager)
      ↔ RenewsEnough s (.acquire a) := by
  have hmanager : (s.step (.acquire a)).manager = (s.manager.reenter a existing).2 :=
    congrArg Prod.snd again
  have hrenews : RenewsEnough s (.acquire a) ↔
      (0 < s.manager.effectiveTtl a.ttl → ∀ p ∈ s.leases, p.resource = a.resource →
        p.Runs a.checked → ∃ u ∈ p.ends, u.clock ≤ a.leased + s.manager.effectiveTtl a.ttl)
      ∧ ∀ ttl ∈ a.ttl, ttl ≤ 0 → existing.expiresAt = none := by
    refine ⟨fun hall => hall existing has live own, fun hall existing' has' _ _ => ?_⟩
    rw [← Option.some.inj (has.symm.trans has')]
    exact hall
  rw [hmanager, hrenews]
  by_cases hpos : 0 < s.manager.effectiveTtl a.ttl
  · rw [allCovered_renewed_iff h has own again hpos]
    refine ⟨fun hall => ⟨fun _ => hall, fun ttl httl hle => ?_⟩, fun hall => hall.1 hpos⟩
    rw [effectiveTtl, httl] at hpos
    exact absurd hpos (not_lt.mpr hle)
  · rw [allCovered_unlimited_iff h has own again hpos]
    exact ⟨fun hall => ⟨fun hlt => absurd hlt hpos, hall⟩, fun hall => hall.2⟩

/-- **What every call does to the leases**: it keeps them where it renews enough, and only
there. -/
theorem allKept_step_iff (h : s.AllKept) (c : LockCall) :
    (s.step c).AllKept ↔ RenewsEnough s c := by
  rw [allKept_iff] at h ⊢
  by_cases hattempt : ∃ a, c = .acquire a
  · obtain ⟨a, rfl⟩ := hattempt
    obtain ⟨hfree, htake⟩ | ⟨existing, has, hlive, ⟨hown, hagain⟩ | ⟨hother, hoff⟩⟩ :=
      acquire_cases s.manager a
    · refine iff_of_true (allCovered_take h hfree htake) (fun existing has hlive => ?_)
      cases hlive.symm.trans (hfree existing has)
    · exact allCovered_reenter_iff h has hlive hown hagain
    · refine iff_of_true (allCovered_holdOff h hoff) (fun existing' has' _ hown => ?_)
      obtain rfl := Option.some.inj (has.symm.trans has')
      exact absurd hown hother
  · have hno : ∀ a, c ≠ .acquire a := fun a hc => hattempt ⟨a, hc⟩
    have hnone : s.manager.granted c = none := by
      cases c with
      | acquire a => exact absurd rfl (hno a)
      | _ => rfl
    have hrenews : RenewsEnough s c := by
      cases c with
      | acquire a => exact absurd rfl (hno a)
      | _ => exact trivial
    refine iff_of_true (fun p hp => ?_) hrenews
    show p.Covered (s.manager.step c)
    rw [show (s.step c).leases = s.leases.filter (fun p => decide (¬ p.EndedBy c)) ++
        (s.manager.granted c).toList from rfl, hnone, Option.toList_none, List.append_nil] at hp
    obtain ⟨hp, hruns⟩ := List.mem_filter.mp hp
    exact (covered_congr (get?_step_of_covered (h p hp) (of_decide_eq_true hruns) hno)).mpr (h p hp)

/-- **The leases are kept exactly where acquiring again renews enough.** In every history of
calls of a manager, from any table of locks, every lease is kept while it runs, in every state
reached, if and only if every owner that acquires again what it has asks for at least as long
as its leases still run, and for ever only where the lock is for ever. -/
theorem allKept_throughout_iff (m : InMemoryLockManager) (cs : List LockCall) :
    (∀ ds, ds <+: cs → (History.after step ⟨m, []⟩ ds).AllKept)
      ↔ History.Admitted step RenewsEnough ⟨m, []⟩ cs :=
  History.throughout_iff_admitted (P := AllKept) (I := fun _ => True)
    (fun _ c _ h => allKept_step_iff h c) (fun _ _ _ => trivial) trivial
    (fun _ hp => absurd hp List.not_mem_nil) cs

/-- **A nested acquire cuts a lease short.** The owner of a lock of a minute acquires it again
for ten seconds, and then another gets it; and a lock of ten seconds that is acquired
again for ever is still one of ten seconds. -/
theorem nested_acquire_cuts_short :
    (∃ s, s = History.after step ⟨{}, []⟩
          [.acquire (attemptAt "r" "a" (some 60) 0), .acquire (attemptAt "r" "a" (some 10) 1)]
        ∧ (⟨"r", "a", some ⟨60, none⟩⟩ : Lease) ∈ s.leases
        ∧ (∃ info, (s.manager.acquire (attemptAt "r" "b" (some 5) 12)).1 = .acquired info)
        ∧ ¬ s.AllKept)
      ∧ ∃ s, s = History.after step ⟨{}, []⟩
          [.acquire (attemptAt "r" "a" (some 10) 0), .acquire (attemptAt "r" "a" (some 0) 1)]
        ∧ (⟨"r", "a", none⟩ : Lease) ∈ s.leases
        ∧ (∃ info, (s.manager.acquire (attemptAt "r" "b" (some 5) 12)).1 = .acquired info)
        ∧ ¬ s.AllKept := by
  have hcut {s : LeasedLocks} {p : Lease} (hp : p ∈ s.leases) (hres : p.resource = "r")
      (howner : p.owner = "a") (hruns : p.Runs 12)
      (hexpired : (s.manager.locks.get? "r").all (fun info => info.isExpired 12) = true) :
      (∃ info, (s.manager.acquire (attemptAt "r" "b" (some 5) 12)).1 = .acquired info)
        ∧ ¬ s.AllKept := by
    obtain ⟨info, hacquired⟩ := Lease.exists_acquired (m := s.manager)
      (a := attemptAt "r" "b" (some 5) 12) (fun info hinfo => by
        have hinfo' : s.manager.locks.get? "r" = some info := hinfo
        rw [hinfo'] at hexpired
        exact Or.inl hexpired)
    refine ⟨⟨info, hacquired⟩, fun h => h p hp _ hres.symm ?_ hruns info hacquired⟩
    rw [howner]
    decide
  refine ⟨⟨_, rfl, ?_, hcut (p := ⟨"r", "a", some ⟨60, none⟩⟩) ?_ rfl rfl ?_ ?_⟩,
    _, rfl, ?_, hcut (p := ⟨"r", "a", none⟩) ?_ rfl rfl ?_ ?_⟩
  all_goals decide +kernel

end LeasedLocks

end JobOrchestrator
