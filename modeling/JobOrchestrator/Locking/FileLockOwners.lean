import Mathlib.Data.Finset.Option
import JobOrchestrator.Locking.FileLockCalls

/-!
# Who owns a file lock, inside one process

A manager keeps the handles of its locks by resource; who the owner is stands in the
lock file alone. `acquire` of a resource that the manager holds is granted to whoever
asks, and puts the new owner in the file; and `release` of a resource that it does not hold
unlinks the file, which is another resource's where the two names clash.

Where neither happens, every grant stays secure: `Holding` says that the manager has
the lock on the file of each, and that the file names the owner.
-/

namespace JobOrchestrator

open FileLocks (Directory)
open FileLocks.Directory (Sound Secures HoldsOn RefersTo)

/-- **The managers, and what one of them has granted**: the resource and the owner of each grant
that is neither released by its owner nor force-released. The manager remembers only which
resources it holds; for whom it was granted is written in the file and here. -/
structure OwnedLocks where
  managers : FileLockManagers
  grants : Finset (String × String)

/-- The calls that end a grant. -/
def FileLockCall.Ends (g : String × String) : FileLockCall → Prop
  | .release resource owner => resource = g.1 ∧ (owner = none ∨ owner = some g.2)
  | _ => False

instance FileLockCall.decidableEnds (g : String × String) :
    (c : FileLockCall) → Decidable (c.Ends g)
  | .release resource owner =>
    inferInstanceAs (Decidable (resource = g.1 ∧ (owner = none ∨ owner = some g.2)))
  | .acquire .. | .extend .. | .cleanupExpired _ => isFalse id

namespace OwnedLocks

/-- What a call grants. -/
def granted (m : ManagerId) (s : FileLockManagers) : FileLockCall → Option (String × String)
  | .acquire request lockId cleanup input =>
    ((s.maybeCleanup cleanup).acquire m request lockId input).1.map
      (fun info => (info.resource, info.owner))
  | _ => none

/-- **A call of the manager**, and what it does to the grants. -/
def step (m : ManagerId) (s : OwnedLocks) (c : FileLockCall) : OwnedLocks where
  managers := s.managers.call m c
  grants := s.grants.filter (fun g => ¬ c.Ends g) ∪ (granted m s.managers c).toFinset

/-- No lock file of a grant is stale when it is read. -/
def Fresh (s : OwnedLocks) (input : String → FileInput) : Prop :=
  ∀ g ∈ s.grants, ∀ info ∈ s.managers.directory.read (lockPath g.1),
    info.isStale (input (lockPath g.1)) = false

/-- **No time to live runs out** while a grant stands. -/
def Quiet (s : OwnedLocks) : FileLockCall → Prop
  | .acquire _ _ cleanup input => s.Fresh (fun _ => input) ∧ ∀ i ∈ cleanup, s.Fresh i
  | .cleanupExpired input => s.Fresh input
  | _ => True

instance (s : OwnedLocks) (input : String → FileInput) : Decidable (s.Fresh input) :=
  inferInstanceAs (Decidable (∀ g ∈ s.grants, ∀ info ∈ s.managers.directory.read (lockPath g.1),
    info.isStale (input (lockPath g.1)) = false))

instance decidableQuiet (s : OwnedLocks) : (c : FileLockCall) → Decidable (s.Quiet c)
  | .acquire _ _ cleanup input =>
    inferInstanceAs (Decidable (s.Fresh (fun _ => input) ∧ ∀ i ∈ cleanup, s.Fresh i))
  | .cleanupExpired input => inferInstanceAs (Decidable (s.Fresh input))
  | .release .. | .extend .. => isTrue trivial

/-- **The locks exclude.** Nobody else was granted what an owner has; the lock file names the
owner, and its release and its extension succeed. -/
def Exclusive (m : ManagerId) (s : OwnedLocks) : Prop :=
  ∀ r a, (r, a) ∈ s.grants → (∀ b, (r, b) ∈ s.grants → b = a)
    ∧ (∃ info, s.managers.directory.read (lockPath r) = some info ∧ info.owner = a)
    ∧ (s.managers.release m r (some a)).1 = true
    ∧ ∀ ttl input, (s.managers.extend m r a ttl input).1 = true

/-- **A call respects the grants**: only the owner of a resource acquires it again, and no
release takes the lock file of another resource for its own. -/
def Respectful (s : OwnedLocks) : FileLockCall → Prop
  | .acquire request _ _ _ => ∀ g ∈ s.grants, g.1 = request.resource → g.2 = request.owner
  | .release resource owner => ∀ g ∈ s.grants, g.1 ≠ resource →
      lockPath g.1 = lockPath resource → owner ≠ none ∧ owner ≠ some g.2
  | _ => True

instance decidableRespectful (s : OwnedLocks) : (c : FileLockCall) → Decidable (s.Respectful c)
  | .acquire request _ _ _ => inferInstanceAs
    (Decidable (∀ g ∈ s.grants, g.1 = request.resource → g.2 = request.owner))
  | .release resource owner => inferInstanceAs (Decidable (∀ g ∈ s.grants, g.1 ≠ resource →
      lockPath g.1 = lockPath resource → owner ≠ none ∧ owner ≠ some g.2))
  | .extend .. | .cleanupExpired _ => isTrue trivial

/-- **What holds as long as all calls respect the grants.** The manager holds what it granted,
has the lock on the file, and the file names the owner. So nobody else is granted the resource:
the lock on the file refuses a second handle. -/
structure Holding (m : ManagerId) (s : OwnedLocks) : Prop where
  sound : Sound home s.managers.directory
  held : ∀ r, r ∈ s.managers.held m ↔ ∃ a, (r, a) ∈ s.grants
  secured : ∀ r a, (r, a) ∈ s.grants → ∃ i info,
    s.managers.directory.Secures (m, r) (lockPath r) i info ∧ info.owner = a

variable {m : ManagerId} {s : OwnedLocks}

namespace Holding

variable {r r' a a' : String}

/-- **Two resources that are held have different lock files.** -/
theorem lockPath_ne (h : Holding m s) (hr : (r, a) ∈ s.grants) (hr' : (r', a') ∈ s.grants)
    (ne : r ≠ r') : lockPath r ≠ lockPath r' := by
  obtain ⟨i, info, hsec, -⟩ := h.secured r a hr
  obtain ⟨i', info', hsec', -⟩ := h.secured r' a' hr'
  intro hpath
  exact ne (congrArg Prod.snd (hsec.unique hsec' hpath))

theorem read (h : Holding m s) (hr : (r, a) ∈ s.grants) :
    ∃ info, s.managers.directory.read (lockPath r) = some info ∧ info.owner = a := by
  obtain ⟨i, info, hsec, howner⟩ := h.secured r a hr
  exact ⟨info, hsec.read, howner⟩

/-- The file names one owner, so a resource is granted to one owner at a time. -/
theorem owner_unique (h : Holding m s) (hr : (r, a) ∈ s.grants) (hr' : (r, a') ∈ s.grants) :
    a' = a := by
  obtain ⟨info, hread, howner⟩ := h.read hr
  obtain ⟨info', hread', howner'⟩ := h.read hr'
  obtain rfl := Option.some.inj (hread.symm.trans hread')
  exact howner'.symm.trans howner

theorem mem_held (h : Holding m s) (hr : (r, a) ∈ s.grants) : r ∈ s.managers.held m :=
  (h.held r).mpr ⟨a, hr⟩

/-- The handle of a grant is not that of a resource that is not held. -/
theorem handle_ne (h : Holding m s) (hr : (r, a) ∈ s.grants) (free : r' ∉ s.managers.held m) :
    (m, r) ≠ (m, r') := by
  intro heq
  obtain ⟨-, rfl⟩ := Prod.mk.inj heq
  exact free (h.mem_held hr)

/-- **Where the grants are secure, the locks exclude.** Exclusion is read off the invariant: the
manager, the lock and the file all tell the same. -/
theorem exclusive (h : Holding m s) : Exclusive m s := by
  intro r a hr
  obtain ⟨info, hread, howner⟩ := h.read hr
  have hheld := h.mem_held hr
  refine ⟨fun b hb => h.owner_unique hr hb, ⟨info, hread, howner⟩, ?_, fun ttl input => ?_⟩
  · have hother : s.managers.ownedByOther r (some a) = false := by
      simp only [FileLockManagers.ownedByOther, hread, howner, ne_eq, not_true_eq_false,
        decide_false]
    simp only [FileLockManagers.release, if_pos hheld, hother, Bool.false_eq_true, if_false]
  · simp only [FileLockManagers.extend, if_pos hheld, hread, howner, ne_eq, not_true_eq_false,
      if_false]

end Holding

/-! ## What the operations leave of a secured lock -/

section Secured

variable {d d' : LockDirectory} {handle handle' : FileHandle} {name : String} {i : ℕ}
  {info : FileLockInfo} {input : FileInput}

/-- A lock file that is not stale stays where it is when somebody else looks whether to clear it
away. -/
theorem secures_clearStale (h : d.Secures handle name i info) (fresh : info.isStale input = false)
    (name' : String) : (clearStale input name' d).Secures handle name i info := by
  by_cases hname : name = name'
  · subst hname
    simp only [clearStale, h.read, fresh, Bool.false_eq_true, if_false]
    exact h
  · obtain heq | heq := clearStale_cases input name' d <;> rw [heq]
    · exact h
    · exact h.unlink hname

theorem secures_cleanFile (h : d.Secures handle name i info)
    {input : String → FileInput} (fresh : info.isStale (input name) = false) (name' : String) :
    (cleanFile (input name') name' d).Secures handle name i info := by
  by_cases hname : name = name'
  · subst hname
    simp only [cleanFile, h.read, fresh, Bool.false_eq_true, if_false]
    exact h
  · obtain heq | heq := cleanFile_cases (input name') name' d <;> rw [heq]
    · exact h
    · exact h.unlink hname

theorem secures_openLockFile (h : d.Secures handle name i info) (sound : Sound home d)
    (ne : handle ≠ handle') (opens : openLockFile handle' d = some d') :
    d'.Secures handle name i info := by
  obtain hopens | hopens := openLockFile_cases opens
  · exact h.openExclusive sound ne hopens
  · exact h.openExisting ne hopens

/-- **The lock on a file that somebody has is not got by another handle.** -/
theorem lockPath_ne_of_flock {p p' : ManagerId} {r r' : String}
    (h : d.Secures (p, r) (lockPath r) i info) (sound : Sound home d) (ne : (p, r) ≠ (p', r'))
    (opens : openLockFile (p', r') d = some d') (locks : (d'.flock (p', r')).1 = true) :
    lockPath r ≠ lockPath r' := by
  intro hpath
  have hsec := secures_openLockFile h sound ne opens
  obtain ⟨i', hopened, hname⟩ := refersTo_openLockFile opens
  obtain rfl : i = i' := by
    rw [← hpath, hsec.name] at hname
    exact Option.some.inj hname
  rw [hsec.flock_refused ne hopened] at locks
  cases locks

end Secured

/-! ## The calls -/

variable {request : FileLockRequest} {input : FileInput}

/-- The grants after a call are those it has not ended, and the one it has made. -/
theorem mem_step_grants {c : FileLockCall} {g : String × String} :
    g ∈ (s.step m c).grants ↔ g ∈ s.grants ∧ ¬ c.Ends g ∨ granted m s.managers c = some g := by
  rw [step, Finset.mem_union, Finset.mem_filter, Option.mem_toFinset, Option.mem_def]

/-- A release that is of no grant's owner ends none. -/
theorem filter_eq {resource : String} {owner : Option String}
    (kept : ∀ a, (resource, a) ∈ s.grants → owner ≠ none ∧ owner ≠ some a) :
    s.grants.filter (fun g => ¬ (FileLockCall.release resource owner).Ends g) = s.grants := by
  refine Finset.filter_true_of_mem (fun g hg hends => ?_)
  obtain ⟨rfl, howner⟩ := hends
  obtain ⟨hnone, hsome⟩ := kept g.2 hg
  exact howner.elim hnone hsome

/-- **A cleanup leaves the secured locks.** It unlinks the files that are stale at its readings,
and this one is not. -/
theorem secures_cleanupExpired {managers : FileLockManagers} {handle : FileHandle} {name : String}
    {i : ℕ} {info : FileLockInfo} (h : managers.directory.Secures handle name i info)
    {input : String → FileInput} (fresh : info.isStale (input name) = false) :
    (managers.cleanupExpired input).directory.Secures handle name i info := by
  unfold FileLockManagers.cleanupExpired
  generalize managers.directory.names.keys = names
  induction names generalizing managers with
  | nil => exact h
  | cons name' names ih => exact ih (secures_cleanFile h fresh name')

namespace Holding

/-- The grants are secure after the cleanup, too, if none of their files was stale for it. -/
theorem maybeCleanup (h : Holding m s) {cleanup : Option (String → FileInput)}
    (fresh : ∀ i ∈ cleanup, s.Fresh i) :
    Holding m { s with managers := s.managers.maybeCleanup cleanup } where
  sound := FileLockManagers.sound_maybeCleanup h.sound cleanup
  held r := by
    show r ∈ (s.managers.maybeCleanup cleanup).held m ↔ _
    rw [FileLockManagers.held_maybeCleanup]
    exact h.held r
  secured r a hr := by
    obtain ⟨i, info, hsec, howner⟩ := h.secured r a hr
    refine ⟨i, info, ?_, howner⟩
    cases cleanup with
    | none => exact hsec
    | some input => exact secures_cleanupExpired hsec (fresh input rfl (r, a) hr info hsec.read)

/-- A grant is fresh as long as its file is what it was. -/
theorem fresh_maybeCleanup (h : Holding m s) {cleanup : Option (String → FileInput)}
    (fresh : ∀ i ∈ cleanup, s.Fresh i) {input : String → FileInput} (now : s.Fresh input) :
    Fresh { s with managers := s.managers.maybeCleanup cleanup } input := by
  rintro ⟨r, a⟩ hr info hinfo
  obtain ⟨i, info', hsec, -⟩ := h.secured r a hr
  have hsame : (s.managers.maybeCleanup cleanup).directory.read (lockPath r) = some info' := by
    cases cleanup with
    | none => exact hsec.read
    | some input' =>
      exact (secures_cleanupExpired hsec (fresh input' rfl (r, a) hr info' hsec.read)).read
  obtain rfl := Option.some.inj (hsame.symm.trans hinfo)
  exact now (r, a) hr info' hsec.read

/-- **Writing to the file of a lock** that the manager has keeps the other locks, and secures
what is written. -/
theorem write (h : Holding m s) {r a : String} (hr : (r, a) ∈ s.grants) (info : FileLockInfo)
    (howner : info.owner = a) : Holding m
      { s with managers := { s.managers with
        directory := writeLockInfo (lockPath r) info s.managers.directory } } where
  sound := sound_writeLockInfo h.sound _ _
  held := h.held
  secured r' a' hr' := by
    obtain ⟨i, info', hsec, howner'⟩ := h.secured r' a' hr'
    by_cases hne : r' = r
    · subst hne
      obtain ⟨i, hsec⟩ := hsec.holdsOn.rewrite info
      exact ⟨i, info, hsec, howner.trans (h.owner_unique hr' hr)⟩
    · exact ⟨i, info', hsec.rewrite h.sound (h.lockPath_ne hr' hr hne) info, howner'⟩

/-- **A lock that is got anew** is secured, and takes none of the others. -/
theorem lock (h : Holding m s) (fresh : s.Fresh (fun _ => input))
    (free : request.resource ∉ s.managers.held m) {opened : LockDirectory}
    (opens : openLockFile (m, request.resource)
      (clearStale input (lockPath request.resource) s.managers.directory) = some opened)
    (locks : (opened.flock (m, request.resource)).1 = true) (info : FileLockInfo)
    (howner : info.owner = request.owner) : Holding m
      ⟨{ s.managers.hold m request.resource with
          directory := writeLockInfo (lockPath request.resource) info
            (opened.flock (m, request.resource)).2 },
        insert (request.resource, request.owner) s.grants⟩ where
  sound := by
    have hclear := sound_clearStale h.sound input (lockPath request.resource)
    exact sound_writeLockInfo ((sound_openLockFile hclear opens).flock _) _ _
  held r := by
    show r ∈ Function.update s.managers.held m (insert request.resource (s.managers.held m)) m ↔ _
    rw [Function.update_self, Finset.mem_insert, h.held]
    constructor
    · rintro (rfl | ⟨a, hr⟩)
      · exact ⟨_, Finset.mem_insert_self _ _⟩
      · exact ⟨a, Finset.mem_insert_of_mem hr⟩
    · rintro ⟨a, hr⟩
      obtain heq | hr := Finset.mem_insert.mp hr
      · exact Or.inl (congrArg Prod.fst heq)
      · exact Or.inr ⟨a, hr⟩
  secured r a hr := by
    have hclear := sound_clearStale h.sound input (lockPath request.resource)
    have hopened := sound_openLockFile hclear opens
    obtain heq | hr := Finset.mem_insert.mp hr
    · obtain ⟨rfl, rfl⟩ := Prod.mk.inj heq
      have hrefers : opened.RefersTo (m, request.resource) (lockPath request.resource) :=
        refersTo_openLockFile opens
      obtain ⟨i, hsec⟩ := (Directory.holdsOn_flock hrefers locks).rewrite info
      exact ⟨i, info, hsec, howner⟩
    · obtain ⟨i, info', hsec, howner'⟩ := h.secured r a hr
      have hne := h.handle_ne hr free
      have hcleared := secures_clearStale hsec (fresh (r, a) hr info' hsec.read)
        (lockPath request.resource)
      have hpath : lockPath r ≠ lockPath request.resource :=
        lockPath_ne_of_flock hcleared hclear hne opens locks
      have hlocked := (secures_openLockFile hcleared hclear hne opens).flock (m, request.resource)
      exact ⟨i, info', hlocked.rewrite (hopened.flock _) hpath info, howner'⟩

/-- An attempt that is refused leaves the secured locks. -/
theorem refused (h : Holding m s) (fresh : s.Fresh (fun _ => input))
    (free : request.resource ∉ s.managers.held m) {opened : LockDirectory}
    (opens : openLockFile (m, request.resource)
      (clearStale input (lockPath request.resource) s.managers.directory) = some opened) :
    Holding m { s with managers := { s.managers with
      directory := opened.close (m, request.resource) } } where
  sound := by
    have hclear := sound_clearStale h.sound input (lockPath request.resource)
    exact (sound_openLockFile hclear opens).close _
  held := h.held
  secured r a hr := by
    obtain ⟨i, info, hsec, howner⟩ := h.secured r a hr
    have hclear := sound_clearStale h.sound input (lockPath request.resource)
    have hne := h.handle_ne hr free
    have hcleared := secures_clearStale hsec (fresh (r, a) hr info hsec.read)
      (lockPath request.resource)
    exact ⟨i, info, (secures_openLockFile hcleared hclear hne opens).close hne, howner⟩

/-- A stale file that is cleared is no grant's. -/
theorem clear (h : Holding m s) (fresh : s.Fresh (fun _ => input)) (name : String) :
    Holding m { s with managers := { s.managers with
      directory := clearStale input name s.managers.directory } } where
  sound := sound_clearStale h.sound input name
  held := h.held
  secured r a hr := by
    obtain ⟨i, info, hsec, howner⟩ := h.secured r a hr
    exact ⟨i, info, secures_clearStale hsec (fresh (r, a) hr info hsec.read) name, howner⟩

/-- **An attempt keeps the grants secure**, where nobody else has the resource. -/
theorem acquire (h : Holding m s) (lockId : String) (fresh : s.Fresh (fun _ => input))
    (own : ∀ a, (request.resource, a) ∈ s.grants → a = request.owner) :
    Holding m ⟨(s.managers.acquire m request lockId input).2, s.grants ∪
      ((s.managers.acquire m request lockId input).1.map
        (fun info => (info.resource, info.owner))).toFinset⟩ := by
  obtain ⟨hheld, heq⟩ | ⟨hfree, ⟨-, heq⟩ | ⟨opened, hopens, ⟨hlock, heq⟩ | ⟨-, heq⟩⟩⟩ :=
    s.managers.acquire_cases m request lockId input
  · obtain ⟨a, hr⟩ := (h.held _).mp hheld
    have hgrant : (request.resource, request.owner) ∈ s.grants := own a hr ▸ hr
    have hgrants : s.grants ∪ {(request.resource, request.owner)} = s.grants :=
      Finset.union_eq_left.mpr (Finset.singleton_subset_iff.mpr hgrant)
    rw [heq]
    show Holding m ⟨_, s.grants ∪ {(request.resource, request.owner)}⟩
    rw [hgrants]
    exact h.write hgrant _ rfl
  · rw [heq]
    show Holding m ⟨_, s.grants ∪ ∅⟩
    rw [Finset.union_empty]
    exact h.clear fresh _
  · rw [heq]
    show Holding m ⟨_, s.grants ∪ {(request.resource, request.owner)}⟩
    rw [Finset.union_comm]
    exact h.lock fresh hfree hopens hlock _ rfl
  · rw [heq]
    show Holding m ⟨_, s.grants ∪ ∅⟩
    rw [Finset.union_empty]
    exact h.refused fresh hfree hopens

/-- **A lock that is released** is no grant any more; the other grants are secure. -/
theorem drop (h : Holding m s) {resource : String} {owner : Option String} {a : String}
    (hr : (resource, a) ∈ s.grants) (ends : owner = none ∨ owner = some a) : Holding m
      ⟨{ s.managers.drop m resource with
          directory := ((s.managers.directory.unlock (m, resource)).close (m, resource)).unlink
            (lockPath resource) },
        s.grants.filter (fun g => ¬ (FileLockCall.release resource owner).Ends g)⟩ := by
  have hkept {r a' : String} : (r, a') ∈ s.grants.filter (fun g =>
      ¬ (FileLockCall.release resource owner).Ends g) ↔ (r, a') ∈ s.grants ∧ r ≠ resource := by
    rw [Finset.mem_filter]
    refine and_congr_right (fun hr' => ⟨?_, fun hne hends => hne hends.1.symm⟩)
    rintro hnot rfl
    obtain rfl := h.owner_unique hr hr'
    exact hnot ⟨rfl, ends⟩
  refine ⟨((h.sound.unlock _).close _).unlink _, fun r => ?_, fun r a' hr' => ?_⟩
  · show r ∈ Function.update s.managers.held m ((s.managers.held m).erase resource) m ↔ _
    rw [Function.update_self, Finset.mem_erase, h.held]
    constructor
    · rintro ⟨hne, a', hr'⟩
      exact ⟨a', hkept.mpr ⟨hr', hne⟩⟩
    · rintro ⟨a', hr'⟩
      exact ⟨(hkept.mp hr').2, a', (hkept.mp hr').1⟩
  · obtain ⟨hr', hne⟩ := hkept.mp hr'
    obtain ⟨i, info, hsec, howner⟩ := h.secured r a' hr'
    have hhandle : (m, r) ≠ (m, resource) := fun heq => hne (Prod.mk.inj heq).2
    exact ⟨i, info, ((hsec.unlock hhandle).close hhandle).unlink (h.lockPath_ne hr' hr hne), howner⟩

/-- Unlinking a file that no grant stands on: two resources may have the same file, which is why
names are compared as paths. -/
theorem unlinkFile (h : Holding m s) {resource : String}
    (apart : ∀ r a, (r, a) ∈ s.grants → lockPath r ≠ lockPath resource) :
    Holding m { s with managers := s.managers.unlinkFile resource } where
  sound := h.sound.unlink _
  held := h.held
  secured r a hr := by
    obtain ⟨i, info, hsec, howner⟩ := h.secured r a hr
    exact ⟨i, info, hsec.unlink (apart r a hr), howner⟩

/-- **A release keeps the other grants secure**, where it takes no file of theirs. -/
theorem release (h : Holding m s) {resource : String} {owner : Option String}
    (apart : ∀ r a, (r, a) ∈ s.grants → r ≠ resource → lockPath r = lockPath resource →
      owner ≠ none ∧ owner ≠ some a) :
    Holding m ⟨(s.managers.release m resource owner).2,
      s.grants.filter (fun g => ¬ (FileLockCall.release resource owner).Ends g)⟩ := by
  by_cases hheld : resource ∈ s.managers.held m
  · obtain ⟨a, hr⟩ := (h.held _).mp hheld
    obtain ⟨info, hread, howner⟩ := h.read hr
    by_cases hends : owner = none ∨ owner = some a
    · -- it is the owner, or names none: the lock is let go
      have hother : s.managers.ownedByOther resource owner = false := by
        obtain rfl | rfl := hends
        · rfl
        · simp [FileLockManagers.ownedByOther, hread, howner]
      simp only [FileLockManagers.release, if_pos hheld, hother, Bool.false_eq_true, if_false]
      exact h.drop hr hends
    · rw [not_or] at hends
      rw [filter_eq (fun a' hr' => h.owner_unique hr hr' ▸ hends)]
      obtain ⟨b, rfl⟩ := Option.ne_none_iff_exists'.mp hends.1
      -- another owner is refused, and nothing ends
      have hne : info.owner ≠ b := fun heq => hends.2 (congrArg some (heq.symm.trans howner))
      have hother : s.managers.ownedByOther resource (some b) = true := by
        simp only [FileLockManagers.ownedByOther, hread, decide_eq_true_eq]
        exact hne
      simp only [FileLockManagers.release, if_pos hheld, hother, if_true]
      exact h
  · -- the manager does not hold it: the file goes by its name alone
    have hfree : ∀ a, (resource, a) ∉ s.grants := fun a hr => hheld (h.mem_held hr)
    rw [filter_eq (fun a hr => absurd hr (hfree a))]
    have hne : ∀ r a, (r, a) ∈ s.grants → r ≠ resource := by
      rintro r a hr rfl
      exact hfree a hr
    cases owner with
    | none =>
      simp only [FileLockManagers.release, if_neg hheld]
      exact h.unlinkFile (fun r a hr hpath => (apart r a hr (hne r a hr) hpath).1 rfl)
    | some b =>
      simp only [FileLockManagers.release, if_neg hheld]
      split
      · rename_i howned
        refine h.unlinkFile (fun r a hr hpath => (apart r a hr (hne r a hr) hpath).2 ?_)
        obtain ⟨info, hread, howner⟩ := h.read hr
        rw [hpath] at hread
        simp only [FileLockManagers.ownedBy, hread, decide_eq_true_eq] at howned
        rw [← howned, howner]
      · exact h

/-- **An extension keeps the grants secure.** It writes to the file of its own resource, and only
for the owner that the file names. -/
theorem extend (h : Holding m s) (resource owner : String) (ttl : ℚ) (input : FileInput) :
    Holding m { s with managers := (s.managers.extend m resource owner ttl input).2 } := by
  by_cases hheld : resource ∈ s.managers.held m
  · obtain ⟨a, hr⟩ := (h.held _).mp hheld
    obtain ⟨info, hread, howner⟩ := h.read hr
    simp only [FileLockManagers.extend, if_pos hheld, hread]
    by_cases hne : info.owner = owner
    · rw [if_neg (not_not.mpr hne)]
      exact h.write hr _ (hne.symm.trans howner)
    · rw [if_pos hne]
      exact h
  · simp only [FileLockManagers.extend, if_neg hheld]
    exact h

/-- **A call that respects the grants keeps them secure.** -/
theorem step (h : Holding m s) {c : FileLockCall} (quiet : Quiet s c) (ok : Respectful s c) :
    Holding m (s.step m c) := by
  cases c with
  | acquire request lockId cleanup input =>
    have hgrants : s.grants.filter (fun g =>
        ¬ (FileLockCall.acquire request lockId cleanup input).Ends g) = s.grants :=
      Finset.filter_true_of_mem (fun _ _ => id)
    have hcleaned := h.maybeCleanup quiet.2
    have hacquired := hcleaned.acquire lockId
      (h.fresh_maybeCleanup quiet.2 quiet.1) (fun a hr => ok _ hr rfl)
    rw [OwnedLocks.step, hgrants]
    exact hacquired
  | release resource owner =>
    rw [OwnedLocks.step]
    show Holding m ⟨_, _ ∪ ∅⟩
    rw [Finset.union_empty]
    exact h.release (fun r a hr => ok (r, a) hr)
  | extend resource owner ttl input =>
    have hgrants : (s.step m (.extend resource owner ttl input)).grants = s.grants :=
      (Finset.union_empty _).trans (Finset.filter_true_of_mem (fun _ _ => id))
    have hextended := h.extend resource owner ttl input
    rw [← hgrants] at hextended
    exact hextended
  | cleanupExpired input =>
    have hgrants : (s.step m (.cleanupExpired input)).grants = s.grants :=
      (Finset.union_empty _).trans (Finset.filter_true_of_mem (fun _ _ => id))
    have hcleaned : Holding m { s with managers := s.managers.maybeCleanup (some input) } :=
      h.maybeCleanup (fun i hi => by cases hi; exact quiet)
    rw [← hgrants] at hcleaned
    exact hcleaned

end Holding

/-- **Exactly the calls that respect the grants leave the locks exclusive.** -/
theorem exclusive_step_iff (h : Holding m s) {c : FileLockCall} (quiet : Quiet s c) :
    Exclusive m (s.step m c) ↔ Respectful s c := by
  refine ⟨fun hexcl => ?_, fun ok => (h.step quiet ok).exclusive⟩
  cases c with
  | acquire request lockId cleanup input =>
    rintro ⟨_, a⟩ hr rfl
    have hheld : request.resource ∈ (s.managers.maybeCleanup cleanup).held m := by
      rw [FileLockManagers.held_maybeCleanup]
      exact h.mem_held hr
    have hgranted : granted m s.managers (.acquire request lockId cleanup input)
        = some (request.resource, request.owner) := by
      rw [granted, FileLockManagers.acquire, if_pos hheld]
      rfl
    -- the second grant of a lock that this manager holds already stands beside the first one
    have hold : (request.resource, a) ∈ (s.step m (.acquire request lockId cleanup input)).grants :=
      mem_step_grants.mpr (Or.inl ⟨hr, id⟩)
    have hnew : (request.resource, request.owner)
        ∈ (s.step m (.acquire request lockId cleanup input)).grants :=
      mem_step_grants.mpr (Or.inr hgranted)
    exact ((hexcl _ _ hold).1 _ hnew).symm
  | release resource owner =>
    rintro ⟨r, a⟩ hr hne hpath
    by_contra hends
    have howner : owner = none ∨ owner = some a := by
      rw [not_and_or, not_not, not_not] at hends
      exact hends
    obtain ⟨info, hread, hinfo⟩ := h.read hr
    have hfree : resource ∉ s.managers.held m := by
      intro hheld
      obtain ⟨a', hr'⟩ := (h.held _).mp hheld
      exact h.lockPath_ne hr hr' hne hpath
    -- the grant that the release does not end loses its file
    have hkept : (r, a) ∈ (s.step m (.release resource owner)).grants :=
      mem_step_grants.mpr (Or.inl ⟨hr, fun hends => hne hends.1.symm⟩)
    have hunlinked : (s.managers.release m resource owner).2 = s.managers.unlinkFile resource := by
      obtain rfl | rfl := howner
      · simp only [FileLockManagers.release, if_neg hfree]
      · have howned : s.managers.ownedBy resource a = true := by
          rw [hpath] at hread
          simp [FileLockManagers.ownedBy, hread, hinfo]
        simp only [FileLockManagers.release, if_neg hfree, howned, if_true]
    obtain ⟨-, ⟨info', hread', -⟩, -⟩ := hexcl r a hkept
    have hgone : (s.managers.unlinkFile resource).directory.read (lockPath r) = none := by
      show ((s.managers.directory.names.erase (lockPath resource)).get? (lockPath r)).bind _ = none
      rw [hpath, OrderedDict.get?_erase, if_pos rfl]
      rfl
    rw [← hunlinked] at hgone
    cases hgone.symm.trans hread'
  | extend resource owner ttl input => exact trivial
  | cleanupExpired input => exact trivial

/-- A manager that is new on a directory that others have used. -/
def onDirectory (pid : ManagerId → ProcessId) (others : List (ManagerId × FileLockCall)) :
    OwnedLocks where
  managers := History.after FileLockManagers.step (.start pid) others
  grants := ∅

/-- **The locks of a manager exclude exactly where its calls respect the grants.** On every
directory that others have used, and in every history of calls of a new manager in which no
time to live runs out: nobody else is granted what an owner has, the lock file names the owner
and its release and its extension succeed, in every state reached, if and only if only the
owner of a resource acquires it again, and no resource is released whose lock file is that
of another resource that is held, by the owner of that or by nobody. -/
theorem exclusive_throughout_iff (pid : ManagerId → ProcessId)
    (others : List (ManagerId × FileLockCall)) (m : ManagerId)
    (new : (onDirectory pid others).managers.held m = ∅) (cs : List FileLockCall)
    (quiet : History.Admitted (step m) Quiet (onDirectory pid others) cs) :
    (∀ ds, ds <+: cs → Exclusive m (History.after (step m) (onDirectory pid others) ds))
      ↔ History.Admitted (step m) Respectful (onDirectory pid others) cs := by
  have hstart : Holding m (onDirectory pid others) := by
    refine ⟨FileLockManagers.sound_after pid others, fun r => ?_, fun r a hr => ?_⟩
    · rw [new]
      exact iff_of_false (Finset.notMem_empty r) (fun ⟨a, hr⟩ => Finset.notMem_empty _ hr)
    · exact absurd hr (Finset.notMem_empty _)
  exact History.throughout_iff_of_kept (I := Holding m)
    (fun s c h quiet _ => exclusive_step_iff h quiet)
    (fun s c h quiet _ hnext => h.step quiet ((exclusive_step_iff h quiet).mp hnext))
    quiet hstart hstart.exclusive

/-- An owner acquires a resource, again too, extends it and releases it. -/
theorem exclusive_of_one_owner :
    ∃ cs, cs = [FileLockCall.acquire ⟨"r", "a", none, []⟩ "1" none {},
          .acquire ⟨"r", "a", none, []⟩ "2" (some (fun _ => {})) {},
          .extend "r" "a" 5 {}, .release "r" (some "a")]
      ∧ History.Admitted (step 0) Respectful (onDirectory id []) cs
      ∧ ∀ ds, ds <+: cs → Exclusive 0 (History.after (step 0) (onDirectory id []) ds) := by
  refine ⟨_, rfl, by decide +kernel, ?_⟩
  exact (exclusive_throughout_iff id [] 0 rfl _ (by decide +kernel)).mpr (by decide +kernel)

/-- **Another owner gets a lock that is held, and a release takes another's file.** -/
theorem another_owner_gets_in :
    (∃ s, s = History.after (step 0) (onDirectory id [])
          [.acquire ⟨"r", "a", none, []⟩ "1" none {}, .acquire ⟨"r", "b", none, []⟩ "2" none {}]
        ∧ ("r", "a") ∈ s.grants ∧ ("r", "b") ∈ s.grants
        ∧ (s.managers.directory.read (lockPath "r")).map (fun info => info.owner) = some "b"
        ∧ (s.managers.release 0 "r" (some "a")).1 = false
        ∧ (s.managers.extend 0 "r" "a" 5 {}).1 = false)
      ∧ ∃ s, s = History.after (step 0) (onDirectory id [])
          [.acquire ⟨"a/b", "a", none, []⟩ "1" none {}, .release "a_b" (some "a")]
        ∧ ("a/b", "a") ∈ s.grants
        ∧ (s.managers.directory.read (lockPath "a/b")).isNone = true
        ∧ (s.managers.extend 0 "a/b" "a" 5 {}).1 = false := by
  refine ⟨⟨_, rfl, ?_, ?_, ?_, ?_, ?_⟩, _, rfl, ?_, ?_, ?_⟩
  all_goals decide +kernel

end OwnedLocks

end JobOrchestrator
