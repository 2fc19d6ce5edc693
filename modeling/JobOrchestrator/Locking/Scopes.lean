import JobOrchestrator.Locking.Memory
import JobOrchestrator.Util.GuardedRun

/-!
# Nested lock scopes

`LockManager.lock` of `locking/base.py` over the in-memory manager: a scope is entered by
`acquire` and left by `release`, with the owner that the lock was granted to. Any
number of threads enter and leave scopes, which nest in each thread; a pass of
`acquire` and a `release` are one step each.

The manager does not count. An owner that enters a second scope of a resource is
granted the lock it has, and the first of its scopes to be left deletes it. So
scopes of different owners do not overlap as long as nobody leaves a scope while
another one of the same resource and owner is open: `ScopeWorld.scopes_exclusive`.
-/

namespace JobOrchestrator

/-- **An open scope**: what `release` is called with at its end. -/
structure LockScope where
  resource : String
  owner : String
  deriving DecidableEq

/-- **The manager and the scopes that are open** in each thread, the innermost first. The scopes
of a thread close in the reverse order of their beginning, as nested `with` blocks do. -/
structure ScopeWorld where
  manager : InMemoryLockManager
  scopes : ℕ → List LockScope

/-- **A step of a thread**: a pass of `acquire` at the beginning of a scope, or the end of
its innermost one. -/
inductive ScopeStep
  | enter (thread : ℕ) (a : AcquireAttempt)
  | leave (thread : ℕ)

namespace ScopeWorld

open InMemoryLockManager

/-- No scope is open. -/
def init (manager : InMemoryLockManager) : ScopeWorld := ⟨manager, fun _ => []⟩

/-- **One step.** An attempt that waits is made again, one that is refused raises. -/
def step (w : ScopeWorld) : ScopeStep → Option ScopeWorld
  | .enter thread a =>
    match w.manager.acquire a with
    | (.acquired info, manager) =>
      some ⟨manager, Function.update w.scopes thread
        (⟨a.resource, info.owner⟩ :: w.scopes thread)⟩
    | (_, manager) => some { w with manager := manager }
  | .leave thread =>
    match w.scopes thread with
    | [] => none
    | scope :: outer =>
      some ⟨(w.manager.release scope.resource (some scope.owner)).2,
        Function.update w.scopes thread outer⟩

/-- The scope is open in some thread. -/
def Open (w : ScopeWorld) (scope : LockScope) : Prop := ∃ thread, scope ∈ w.scopes thread

/-- **Scopes of different owners do not overlap.** Two open scopes of one resource, in whatever
threads, have the same owner. -/
def Exclusive (w : ScopeWorld) : Prop :=
  ∀ scope scope', w.Open scope → w.Open scope' → scope.resource = scope'.resource →
    scope.owner = scope'.owner

/-- No lock has expired when it is looked at. -/
def NoExpiry (w : ScopeWorld) : ScopeStep → Prop
  | .enter _ a => w.manager.unexpired a.resource a.checked = true
  | .leave _ => True

/-- **The condition**: the scope that is left is the last one of its resource and owner. -/
def LeavesLast (w : ScopeWorld) : ScopeStep → Prop
  | .enter _ _ => True
  | .leave thread =>
    ∀ scope outer, w.scopes thread = scope :: outer →
      scope ∉ outer ∧ ∀ other, other ≠ thread → scope ∉ w.scopes other

instance (w : ScopeWorld) : (l : ScopeStep) → Decidable (w.NoExpiry l)
  | .enter _ a => inferInstanceAs (Decidable (w.manager.unexpired a.resource a.checked = true))
  | .leave _ => isTrue trivial

variable {w w' : ScopeWorld}

/-- The open scopes after those of one thread were replaced. -/
theorem open_update {manager : InMemoryLockManager} {thread : ℕ} {own : List LockScope}
    {scope : LockScope} :
    Open ⟨manager, Function.update w.scopes thread own⟩ scope
      ↔ scope ∈ own ∨ ∃ other, other ≠ thread ∧ scope ∈ w.scopes other := by
  constructor
  · rintro ⟨other, hmem⟩
    by_cases hother : other = thread
    · subst hother
      exact Or.inl (by simpa using hmem)
    · exact Or.inr ⟨other, hother, by simpa [hother] using hmem⟩
  · rintro (hmem | ⟨other, hother, hmem⟩)
    · exact ⟨thread, by simpa using hmem⟩
    · exact ⟨other, by simpa [hother] using hmem⟩

/-- **What a step can do**: it opens a scope with a lock that was granted, it does no more
than an attempt that was not, or it leaves the innermost scope of a thread. -/
theorem step_cases {l : ScopeStep} (taken : w.step l = some w') :
    (∃ thread a info, l = .enter thread a ∧ (w.manager.acquire a).1 = .acquired info
        ∧ w' = ⟨w.manager.step (.acquire a), Function.update w.scopes thread
          (⟨a.resource, info.owner⟩ :: w.scopes thread)⟩)
      ∨ (∃ thread a, l = .enter thread a
        ∧ w' = { w with manager := w.manager.step (.acquire a) })
      ∨ ∃ thread scope outer, l = .leave thread ∧ w.scopes thread = scope :: outer
        ∧ w' = ⟨w.manager.step (.release scope.resource (some scope.owner)),
          Function.update w.scopes thread outer⟩ := by
  cases l with
  | enter thread a =>
    simp only [step] at taken
    split at taken
    · rename_i info manager hgranted
      cases taken
      refine Or.inl ⟨thread, a, info, rfl, congrArg Prod.fst hgranted, ?_⟩
      rw [InMemoryLockManager.step, hgranted]
    · rename_i manager hnot hanswer
      cases taken
      refine Or.inr (Or.inl ⟨thread, a, rfl, ?_⟩)
      rw [InMemoryLockManager.step, hanswer]
  | leave thread =>
    simp only [step] at taken
    split at taken
    · cases taken
    · rename_i scope outer hscopes
      cases taken
      exact Or.inr (Or.inr ⟨thread, scope, outer, rfl, hscopes, rfl⟩)

/-! ## The invariant -/

/-- **Every open scope has its lock.** The lock in the table names the owner that the scope will
release it with. -/
def Backed (w : ScopeWorld) : Prop :=
  ∀ scope, w.Open scope → w.manager.HeldBy scope.resource scope.owner

/-- A lock has one owner, since the table has one entry for a resource. -/
theorem owner_unique {m : InMemoryLockManager} {r o o' : String} (h : m.HeldBy r o)
    (h' : m.HeldBy r o') : o = o' := by
  obtain ⟨info, has, rfl⟩ := h
  obtain ⟨info', has', rfl⟩ := h'
  rw [has, Option.some.injEq] at has'
  rw [has']

theorem Backed.exclusive (h : w.Backed) : w.Exclusive := by
  intro scope scope' hopen hopen' hresource
  have hheld := h scope hopen
  rw [hresource] at hheld
  exact owner_unique hheld (h scope' hopen')

/-- A granted lock names the owner it was granted to, which is what the scope will release it
with. -/
theorem owner_of_acquired {m : InMemoryLockManager} {a : AcquireAttempt} {info : LockInfo}
    (granted : (m.acquire a).1 = .acquired info) : info.owner = a.effectiveOwner := by
  unfold acquire at granted
  split at granted
  · cases granted
    rfl
  · split at granted
    · cases granted
      rfl
    · split at granted
      · rename_i howner
        cases granted
        exact howner
      · exact absurd granted (holdOff_ne_acquired a info)

/-- An attempt, on whichever resource, leaves the open scopes their locks. -/
theorem Backed.attempt (h : w.Backed) {a : AcquireAttempt}
    (unexpired : w.manager.unexpired a.resource a.checked = true) {scope : LockScope}
    (hopen : w.Open scope) :
    (w.manager.step (.acquire a)).HeldBy scope.resource scope.owner := by
  refine (h scope hopen).step ?_
  intro hresource
  rw [← hresource]
  exact unexpired

/-- **Every step** that meets the conditions keeps the locks of the open scopes. -/
theorem Backed.step (h : w.Backed) {l : ScopeStep} (unexpired : w.NoExpiry l)
    (last : w.LeavesLast l) (taken : w.step l = some w') : w'.Backed := by
  rcases step_cases taken with ⟨thread, a, info, rfl, hgranted, rfl⟩ | ⟨thread, a, rfl, rfl⟩
    | ⟨thread, scope, outer, rfl, hscopes, rfl⟩
  · intro scope hopen
    rcases open_update.mp hopen with hmem | ⟨other, -, hmem⟩
    · rcases List.mem_cons.mp hmem with rfl | hmem
      · rw [owner_of_acquired hgranted]
        exact heldBy_of_acquired hgranted
      · exact h.attempt unexpired ⟨thread, hmem⟩
    · exact h.attempt unexpired ⟨other, hmem⟩
  · exact fun scope hopen => h.attempt unexpired hopen
  · intro scope' hopen
    obtain ⟨hinner, hothers⟩ := last scope outer hscopes
    -- the scope that stays open is another one, so it is not its lock that is released
    have hstays : scope' ≠ scope ∧ w.Open scope' := by
      rcases open_update.mp hopen with hmem | ⟨other, hother, hmem⟩
      · refine ⟨fun heq => hinner (heq ▸ hmem), thread, ?_⟩
        rw [hscopes]
        exact List.mem_cons_of_mem scope hmem
      · exact ⟨fun heq => hothers other hother (heq ▸ hmem), other, hmem⟩
    have hleft : w.Open scope := ⟨thread, hscopes ▸ List.mem_cons_self⟩
    refine (h scope' hstays.2).step ?_
    intro hresource
    have howner := h.exclusive scope scope' hleft hstays.2 hresource
    exact absurd (show scope' = scope by cases scope; cases scope'; simp_all) hstays.1

/-- **Lock scopes exclude.** In every run of any number of threads in which no lock expires
and no scope is left while another one of its resource and owner is open, scopes of
different owners never overlap. -/
theorem scopes_exclusive {manager : InMemoryLockManager} {ls : List ScopeStep}
    (run : GuardedRun step (fun w l => w.NoExpiry l ∧ w.LeavesLast l) (init manager) ls w) :
    w.Exclusive := by
  have hbacked : w.Backed := by
    refine run.invariant (P := Backed) ?_ (fun w l w' h ok taken => h.step ok.1 ok.2 taken)
    rintro scope ⟨thread, hmem⟩
    exact absurd hmem List.not_mem_nil
  exact hbacked.exclusive

/-- One owner's scope after another's. -/
theorem scopes_exclusive_in_turn :
    ∃ w, step (init {}) (.enter 0 (attemptAt "r" "a" none 0)) = some w
      ∧ ∃ w', step w (.leave 0) = some w'
      ∧ ∃ w'', step w' (.enter 1 (attemptAt "r" "b" none 1)) = some w'' ∧ w''.Exclusive := by
  refine ⟨_, rfl, _, rfl, _, rfl, scopes_exclusive (.snoc (l := .enter 1
    (attemptAt "r" "b" none 1)) (.snoc (l := .leave 0) (.snoc (l := .enter 0
      (attemptAt "r" "a" none 0)) (.nil (init {})) ?_ rfl) ?_ rfl) ?_ rfl)⟩
  · exact ⟨by decide +kernel, trivial⟩
  · refine ⟨trivial, fun scope outer hscopes => ?_⟩
    cases hscopes
    refine ⟨List.not_mem_nil, fun other hother hmem => ?_⟩
    exact absurd hmem (by simp [init, hother])
  · exact ⟨by decide +kernel, trivial⟩

/-- **The end of an inner scope lets another owner in**: the outer scope of `a` and the scope
of `b` are open at once. -/
theorem inner_end_lets_in :
    ∃ w, GuardedRun step NoExpiry (init {})
        [.enter 0 (attemptAt "r" "a" none 0), .enter 0 (attemptAt "r" "a" none 1), .leave 0,
          .enter 1 (attemptAt "r" "b" none 2)] w
      ∧ w.scopes 0 = [⟨"r", "a"⟩] ∧ w.scopes 1 = [⟨"r", "b"⟩] ∧ ¬ w.Exclusive := by
  have hreplay : (GuardedRun.replay step (fun w l => w.NoExpiry l) (init {})
      [.enter 0 (attemptAt "r" "a" none 0), .enter 0 (attemptAt "r" "a" none 1), .leave 0,
        .enter 1 (attemptAt "r" "b" none 2)]).any
      (fun w => w.scopes 0 = [⟨"r", "a"⟩] ∧ w.scopes 1 = [⟨"r", "b"⟩]) = true := by
    decide +kernel
  obtain ⟨w, run, htest⟩ := GuardedRun.exists_of_replay (fun _ _ h => of_decide_eq_true h) hreplay
  obtain ⟨houter, hother⟩ := of_decide_eq_true htest
  refine ⟨w, run, houter, hother, fun h => ?_⟩
  have howner := h ⟨"r", "a"⟩ ⟨"r", "b"⟩ ⟨0, houter ▸ List.mem_cons_self⟩
    ⟨1, hother ▸ List.mem_cons_self⟩ rfl
  exact absurd howner (by decide)

end ScopeWorld

end JobOrchestrator
