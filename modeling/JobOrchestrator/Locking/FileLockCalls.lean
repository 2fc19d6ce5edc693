import JobOrchestrator.Locking.FileLock
import JobOrchestrator.Locking.Memory
import JobOrchestrator.Util.History

/-!
# The calls of file lock managers

Any number of `FileLockManager`s on one directory, in any processes, whose calls come
one after the other: each method is one function here, and `acquire` is one pass
of its loop. A call that another process can come into is the series of file operations
of `FileLockProcess.proceed`; run to its end without anybody else, it is the function
given here, `run_acquire` and `run_release`.

`extend`, `is_locked` and `get_lock_info` are here, too, which the series of operations
leave out.
-/

namespace JobOrchestrator

open FileLocks (Directory)

/-- The number of a manager. -/
abbrev ManagerId := ℕ

/-- **The lock directory and the managers.** A handle is named by the manager that opened it and
the resource it was opened for. Two managers may be in one process; `flock` tells them apart by
their handles, the liveness check does not. -/
structure FileLockManagers where
  directory : LockDirectory
  /-- The keys of `_held_locks`, of each manager. -/
  held : ManagerId → Finset String := fun _ => ∅
  /-- The process a manager is in. -/
  pid : ManagerId → ProcessId

/-! ## Operations on one lock file -/

/-- `_write_lock_info`. -/
def writeLockInfo (name : String) (info : FileLockInfo) (d : LockDirectory) : LockDirectory :=
  (d.openTruncate name).2.write (d.openTruncate name).1 info

/-- The lock file is unlinked where it is stale. -/
def clearStale (input : FileInput) (name : String) (d : LockDirectory) : LockDirectory :=
  match d.read name with
  | none => d
  | some info => if info.isStale input then d.unlink name else d

/-- `open(lock_path, "x")`, and `open(lock_path, "r+")` where the file exists. -/
def openLockFile (handle : FileHandle) (d : LockDirectory) : Option LockDirectory :=
  match d.openExclusive (lockPath handle.2) handle with
  | some created => some created
  | none => d.openExisting (lockPath handle.2) handle

/-- A file that cannot be read, or is stale, is unlinked by `cleanup_expired`. -/
def cleanFile (input : FileInput) (name : String) (d : LockDirectory) : LockDirectory :=
  match d.read name with
  | none => d.unlink name
  | some info => if info.isStale input then d.unlink name else d

namespace FileLockManagers

/-- Managers with nothing held, on an empty directory. -/
def start (pid : ManagerId → ProcessId) : FileLockManagers := { directory := .empty, pid := pid }

variable (s : FileLockManagers)

/-- The manager has the resource in `_held_locks`. -/
def hold (m : ManagerId) (resource : String) : FileLockManagers :=
  { s with held := Function.update s.held m (insert resource (s.held m)) }

/-- `del self._held_locks[resource]`. -/
def drop (m : ManagerId) (resource : String) : FileLockManagers :=
  { s with held := Function.update s.held m ((s.held m).erase resource) }

/-- What a granted attempt returns. -/
def grant (request : FileLockRequest) (lockId : String) (now : Time) : LockInfo where
  lockId := lockId
  resource := request.resource
  owner := request.owner
  acquiredAt := .utcnow now
  expiresAt := request.expiresAt
  metadata := request.metadata

/-- **One pass of the loop of `acquire`**, after the cleanup. A resource that the manager holds
is granted to whoever asks. -/
def acquire (m : ManagerId) (request : FileLockRequest) (lockId : String) (input : FileInput) :
    Option LockInfo × FileLockManagers :=
  if request.resource ∈ s.held m then
    (some (grant request lockId input.now),
      { s with
        directory := writeLockInfo (lockPath request.resource)
          (request.info input.now (s.pid m)) s.directory })
  else
    match openLockFile (m, request.resource)
      (clearStale input (lockPath request.resource) s.directory) with
    | none =>
      (none,
        { s with directory := clearStale input (lockPath request.resource) s.directory })
    | some opened =>
      match opened.flock (m, request.resource) with
      | (true, locked) =>
        (some (grant request lockId input.now),
          { s.hold m request.resource with
            directory := writeLockInfo (lockPath request.resource)
              (request.info input.now (s.pid m)) locked })
      | (false, _) => (none, { s with directory := opened.close (m, request.resource) })

/-- The lock file names an owner, and not this one. -/
def ownedByOther (resource : String) (owner : Option String) : Bool :=
  match owner, s.directory.read (lockPath resource) with
  | some owner, some info => decide (info.owner ≠ owner)
  | _, _ => false

/-- The lock file names this owner. -/
def ownedBy (resource owner : String) : Bool :=
  match s.directory.read (lockPath resource) with
  | none => false
  | some info => decide (info.owner = owner)

/-- The lock file is unlinked. -/
def unlinkFile (resource : String) : FileLockManagers :=
  { s with directory := s.directory.unlink (lockPath resource) }

/-- **`release`**. Without an owner it is forced: the file goes, whoever holds it. -/
def release (m : ManagerId) (resource : String) (owner : Option String) :
    Bool × FileLockManagers :=
  if resource ∈ s.held m then
    if s.ownedByOther resource owner then (false, s)
    else
      (true,
        { s.drop m resource with
          directory := ((s.directory.unlock (m, resource)).close (m, resource)).unlink
            (lockPath resource) })
  else
    match owner with
    | some owner => if s.ownedBy resource owner then (true, s.unlinkFile resource) else (false, s)
    | none =>
      ((s.directory.names.get? (lockPath resource)).isSome, s.unlinkFile resource)

/-- **`extend`**. The resource must be among the held ones and its file name the owner; whether
the lock has expired is not asked. -/
def extend (m : ManagerId) (resource owner : String) (ttl : ℚ) (input : FileInput) :
    Bool × FileLockManagers :=
  if resource ∈ s.held m then
    match s.directory.read (lockPath resource) with
    | none => (false, s)
    | some info =>
      if info.owner ≠ owner then (false, s)
      else
        (true,
          { s with
            directory := writeLockInfo (lockPath resource)
              { owner := owner
                acquiredAt := .utcnow input.now
                expiresAt := leaseEnd input.now ttl
                metadata := info.metadata
                pid := s.pid m } s.directory })
  else (false, s)

/-- **`is_locked`**. -/
def isLocked (resource : String) (input : FileInput) : Bool :=
  (s.directory.read (lockPath resource)).any (fun info => !info.isStale input)

/-- **`get_lock_info`**. -/
def getLockInfo (resource lockId : String) (input : FileInput) : Option LockInfo :=
  match s.directory.read (lockPath resource) with
  | none => none
  | some info =>
    if info.isStale input then none
    else
      some
        { lockId := lockId
          resource := resource
          owner := info.owner
          acquiredAt := info.acquiredAt
          expiresAt := info.expiresAt
          metadata := info.metadata }

/-- The part of `cleanup_expired` that is about one lock file. -/
def cleanup (input : FileInput) (name : String) : FileLockManagers :=
  { s with directory := cleanFile input name s.directory }

/-- **`cleanup_expired`**, which reads the clock for each file. -/
def cleanupExpired (input : String → FileInput) : FileLockManagers :=
  s.directory.names.keys.foldl (fun s name => s.cleanup (input name) name) s

/-- `_maybe_cleanup`: whether it is time for a cleanup comes from outside. -/
def maybeCleanup : Option (String → FileInput) → FileLockManagers
  | none => s
  | some input => s.cleanupExpired input

end FileLockManagers

/-- **A call of a manager**, for its effect. Here a call is one step: what another process may do
between its file operations is the subject of `FileLock`. -/
inductive FileLockCall
  /-- One attempt of `acquire`; another attempt is another call, without the cleanup. -/
  | acquire (request : FileLockRequest) (lockId : String) (cleanup : Option (String → FileInput))
      (input : FileInput)
  | release (resource : String) (owner : Option String)
  | extend (resource owner : String) (ttl : ℚ) (input : FileInput)
  | cleanupExpired (input : String → FileInput)

namespace FileLockManagers

variable (s : FileLockManagers)

/-- **A call**, by one of the managers. -/
def call (m : ManagerId) : FileLockCall → FileLockManagers
  | .acquire request lockId cleanup input =>
    ((s.maybeCleanup cleanup).acquire m request lockId input).2
  | .release resource owner => (s.release m resource owner).2
  | .extend resource owner ttl input => (s.extend m resource owner ttl input).2
  | .cleanupExpired input => s.cleanupExpired input

/-- A call of whichever manager. -/
def step (c : ManagerId × FileLockCall) : FileLockManagers := s.call c.1 c.2

theorem held_cleanupExpired (input : String → FileInput) :
    (s.cleanupExpired input).held = s.held := by
  unfold cleanupExpired
  generalize s.directory.names.keys = names
  induction names generalizing s with
  | nil => rfl
  | cons name names ih => exact ih _

theorem held_maybeCleanup (cleanup : Option (String → FileInput)) :
    (s.maybeCleanup cleanup).held = s.held := by
  cases cleanup with
  | none => rfl
  | some input => exact s.held_cleanupExpired input

/-- **What an attempt comes to**: a resource that the manager holds is granted; else the file is
opened and locked, or there is no lock. -/
theorem acquire_cases (m : ManagerId) (request : FileLockRequest) (lockId : String)
    (input : FileInput) :
    (request.resource ∈ s.held m
        ∧ s.acquire m request lockId input = (some (grant request lockId input.now),
          { s with
            directory := writeLockInfo (lockPath request.resource)
              (request.info input.now (s.pid m)) s.directory }))
      ∨ request.resource ∉ s.held m
        ∧ (openLockFile (m, request.resource)
              (clearStale input (lockPath request.resource) s.directory) = none
            ∧ s.acquire m request lockId input = (none,
              { s with directory := clearStale input (lockPath request.resource) s.directory })
          ∨ ∃ opened, openLockFile (m, request.resource)
              (clearStale input (lockPath request.resource) s.directory) = some opened
            ∧ ((opened.flock (m, request.resource)).1 = true
              ∧ s.acquire m request lockId input = (some (grant request lockId input.now),
                { s.hold m request.resource with
                  directory := writeLockInfo (lockPath request.resource)
                    (request.info input.now (s.pid m)) (opened.flock (m, request.resource)).2 })
            ∨ (opened.flock (m, request.resource)).1 = false
              ∧ s.acquire m request lockId input = (none,
                { s with directory := opened.close (m, request.resource) }))) := by
  rw [acquire]
  by_cases hheld : request.resource ∈ s.held m
  · exact Or.inl ⟨hheld, if_pos hheld⟩
  · rw [if_neg hheld]
    refine Or.inr ⟨hheld, ?_⟩
    cases hopens : openLockFile (m, request.resource)
        (clearStale input (lockPath request.resource) s.directory) with
    | none => exact Or.inl ⟨rfl, rfl⟩
    | some opened =>
      refine Or.inr ⟨opened, rfl, ?_⟩
      cases hlock : opened.flock (m, request.resource) with
      | mk done locked =>
        cases done with
        | true => exact Or.inl ⟨rfl, by simp only [hlock]⟩
        | false => exact Or.inr ⟨rfl, by simp only [hlock]⟩

/-! ## The calls are the series of operations -/

/-- The next operation, on the directory and the process together. -/
def advance (input : FileInput) (p : ProcessId) (x : LockDirectory × FileLockProcess) :
    LockDirectory × FileLockProcess := x.2.proceed input p x.1

/-- **A number of operations leads from here to there.** -/
def Leads (input : FileInput) (p : ProcessId) (x y : LockDirectory × FileLockProcess) : Prop :=
  ∃ n, (advance input p)^[n] x = y

variable {s} {m : ManagerId} {input : FileInput} {x y z : LockDirectory × FileLockProcess}

theorem Leads.refl (input : FileInput) (p : ProcessId) (x : LockDirectory × FileLockProcess) :
    Leads input p x x := ⟨0, rfl⟩

/-- One operation more at the beginning: a process that leads to `y` after a step does so before
it. -/
theorem Leads.after (h : Leads input m (advance input m x) y) : Leads input m x y := by
  obtain ⟨n, hn⟩ := h
  exact ⟨n + 1, hn⟩

theorem Leads.trans (h : Leads input m x y) (h' : Leads input m y z) : Leads input m x z := by
  obtain ⟨n, rfl⟩ := h
  obtain ⟨n', rfl⟩ := h'
  exact ⟨n' + n, Function.iterate_add_apply _ n' n x⟩

/-- The head of the loop, where the resource is not held: a stale file is unlinked. -/
theorem leads_checking {request : FileLockRequest} {d : LockDirectory} {held : Finset String}
    (free : request.resource ∉ held) :
    Leads input m (d, ⟨.checking request, held⟩)
      (clearStale input (lockPath request.resource) d, ⟨.creating request, held⟩) := by
  have hstep : advance input m (d, ⟨.checking request, held⟩)
      = match d.read (lockPath request.resource) with
        | none => (d, ⟨.creating request, held⟩)
        | some info => (d, ⟨if info.isStale input then .unlinkingStale request
          else .creating request, held⟩) := by
    simp only [advance, FileLockProcess.proceed, if_neg free]
    cases d.read (lockPath request.resource) <;> rfl
  refine .after ?_
  rw [hstep, clearStale]
  cases d.read (lockPath request.resource) with
  | none => exact .refl input m _
  | some info =>
    cases hstale : info.isStale input with
    | true =>
      simp only [hstale, if_true]
      exact .after (.refl input m _)
    | false =>
      simp only [hstale, Bool.false_eq_true, if_false]
      exact .refl input m _

/-- The file is created, or the one that is there is opened; without a retry a third way ends the
call. -/
theorem leads_creating {request : FileLockRequest} {d : LockDirectory} {held : Finset String}
    (once : input.retry = false) :
    Leads input m (d, ⟨.creating request, held⟩)
      (match openLockFile (m, request.resource) d with
      | none => (d, ⟨.idle, held⟩)
      | some opened => (opened, ⟨.locking request, held⟩)) := by
  refine .after ?_
  simp only [advance, FileLockProcess.proceed, openLockFile]
  cases d.openExclusive (lockPath request.resource) (m, request.resource) with
  | some created => exact .refl input m _
  | none =>
    refine .after ?_
    simp only [advance, FileLockProcess.proceed, FileLockProcess.goto]
    cases d.openExisting (lockPath request.resource) (m, request.resource) with
    | some opened => exact .refl input m _
    | none =>
      simp only [FileLockProcess.afterFailure, once]
      exact .refl input m _

/-- **`acquire` is its series of file operations**, where none of another process comes between
them. -/
theorem run_acquire (own : s.pid m = m) (request : FileLockRequest) (lockId : String)
    (once : input.retry = false) :
    Leads input m (s.directory, ⟨.checking request, s.held m⟩)
      ((s.acquire m request lockId input).2.directory,
        ⟨.idle, (s.acquire m request lockId input).2.held m⟩) := by
  rw [acquire]
  by_cases hheld : request.resource ∈ s.held m
  · rw [if_pos hheld, own]
    have hstep : advance input m (s.directory, ⟨.checking request, s.held m⟩)
        = ((s.directory.openTruncate (lockPath request.resource)).2,
          ⟨.rewriting request (s.directory.openTruncate (lockPath request.resource)).1,
            s.held m⟩) := by
      simp only [advance, FileLockProcess.proceed, if_pos hheld, FileLockProcess.goto]
    refine .after ?_
    rw [hstep]
    exact .after (.after (.refl input m _))
  · rw [if_neg hheld]
    refine (leads_checking hheld).trans ((leads_creating once).trans ?_)
    cases openLockFile (m, request.resource)
      (clearStale input (lockPath request.resource) s.directory) with
    | none => exact .refl input m _
    | some opened =>
      refine .after ?_
      simp only [advance, FileLockProcess.proceed]
      cases hlock : opened.flock (m, request.resource) with
      | mk done locked =>
        cases done with
        | true =>
          refine .after (.after ?_)
          rw [own]
          simp only [advance, FileLockProcess.proceed, FileLockProcess.goto, hold,
            Function.update_self]
          exact .refl input m _
        | false =>
          refine .after ?_
          simp only [advance, FileLockProcess.proceed, FileLockProcess.goto,
            FileLockProcess.afterFailure, once]
          exact .refl input m _

/-- A release of a lock that the manager has. -/
theorem run_release_of_held {resource : String} (held : resource ∈ s.held m)
    (owner : Option String) :
    Leads input m (s.directory,
        ⟨FileLockProcess.releasePc ⟨.idle, s.held m⟩ resource owner, s.held m⟩)
      ((s.release m resource owner).2.directory,
        ⟨.idle, (s.release m resource owner).2.held m⟩) := by
  have hunlock : Leads input m (s.directory, ⟨.unlocking resource, s.held m⟩)
      (((s.directory.unlock (m, resource)).close (m, resource)).unlink (lockPath resource),
        ⟨.idle, (s.drop m resource).held m⟩) := by
    have hdrop : (s.drop m resource).held m = (s.held m).erase resource :=
      Function.update_self _ _ _
    rw [hdrop]
    exact .after (.after (.after (.refl input m _)))
  unfold release FileLockProcess.releasePc
  cases owner with
  | none =>
    have hother : s.ownedByOther resource none = false := rfl
    simp only [if_pos held, hother, Bool.false_eq_true, if_false]
    exact hunlock
  | some owner =>
    simp only [if_pos held]
    refine .after ?_
    simp only [advance, FileLockProcess.proceed, FileLockProcess.goto]
    cases hread : s.directory.read (lockPath resource) with
    | none =>
      have hother : s.ownedByOther resource (some owner) = false := by
        simp only [ownedByOther, hread]
      simp only [hother, Bool.false_eq_true, if_false]
      exact hunlock
    | some info =>
      have hother : s.ownedByOther resource (some owner) = decide (info.owner ≠ owner) := by
        simp only [ownedByOther, hread]
      by_cases howner : info.owner = owner
      · simp only [hother, howner, ne_eq, not_true_eq_false, decide_false, Bool.false_eq_true,
          if_false, if_true]
        exact hunlock
      · simp only [hother, howner, ne_eq, not_false_eq_true, decide_true, if_true, if_false]
        exact .refl input m _

/-- A release of a lock that it has not. -/
theorem run_release_of_not_held {resource : String} (held : resource ∉ s.held m)
    (owner : Option String) :
    Leads input m (s.directory,
        ⟨FileLockProcess.releasePc ⟨.idle, s.held m⟩ resource owner, s.held m⟩)
      ((s.release m resource owner).2.directory,
        ⟨.idle, (s.release m resource owner).2.held m⟩) := by
  have hunlink : Leads input m (s.directory, ⟨.unlinking resource, s.held m⟩)
      (s.directory.unlink (lockPath resource), ⟨.idle, s.held m⟩) := .after (.refl input m _)
  unfold release FileLockProcess.releasePc
  cases owner with
  | none =>
    simp only [if_neg held]
    exact hunlink
  | some owner =>
    simp only [if_neg held]
    refine .after ?_
    simp only [advance, FileLockProcess.proceed, FileLockProcess.goto]
    cases hread : s.directory.read (lockPath resource) with
    | none =>
      have hnone : s.ownedBy resource owner = false := by simp only [ownedBy, hread]
      simp only [hnone, Bool.false_eq_true, if_false]
      exact .refl input m _
    | some info =>
      have howned : s.ownedBy resource owner = decide (info.owner = owner) := by
        simp only [ownedBy, hread]
      by_cases howner : info.owner = owner
      · simp only [howned, howner, decide_true, if_true]
        exact hunlink
      · simp only [howned, howner, decide_false, Bool.false_eq_true, if_false]
        exact .refl input m _

/-- **`release` is its series of file operations.** This is what connects the call as one step
with the process that takes one file operation at a time. -/
theorem run_release (resource : String) (owner : Option String) :
    Leads input m (s.directory,
        ⟨FileLockProcess.releasePc ⟨.idle, s.held m⟩ resource owner, s.held m⟩)
      ((s.release m resource owner).2.directory,
        ⟨.idle, (s.release m resource owner).2.held m⟩) := by
  by_cases hheld : resource ∈ s.held m
  · exact run_release_of_held hheld owner
  · exact run_release_of_not_held hheld owner

end FileLockManagers

/-! ## The directory stays sound -/

section Sound

open FileLocks.Directory

/-- A handle is opened by the lock path of its resource. -/
def home (handle : FileHandle) : String := lockPath handle.2

variable {d d' : LockDirectory} {name : String}

theorem sound_writeLockInfo (h : Sound home d) (name : String) (info : FileLockInfo) :
    Sound home (writeLockInfo name info d) :=
  (h.openTruncate name).write _ _

theorem clearStale_cases (input : FileInput) (name : String) (d : LockDirectory) :
    clearStale input name d = d ∨ clearStale input name d = d.unlink name := by
  unfold clearStale
  split
  · exact Or.inl rfl
  · split
    · exact Or.inr rfl
    · exact Or.inl rfl

theorem cleanFile_cases (input : FileInput) (name : String) (d : LockDirectory) :
    cleanFile input name d = d ∨ cleanFile input name d = d.unlink name := by
  unfold cleanFile
  split
  · exact Or.inr rfl
  · split
    · exact Or.inr rfl
    · exact Or.inl rfl

theorem sound_clearStale (h : Sound home d) (input : FileInput) (name : String) :
    Sound home (clearStale input name d) := by
  obtain heq | heq := clearStale_cases input name d <;> rw [heq]
  · exact h
  · exact h.unlink name

theorem sound_cleanFile (h : Sound home d) (input : FileInput) (name : String) :
    Sound home (cleanFile input name d) := by
  obtain heq | heq := cleanFile_cases input name d <;> rw [heq]
  · exact h
  · exact h.unlink name

/-- A lock file comes to be open in one of two ways: it is created under a name that was free, or
it was there before. -/
theorem openLockFile_cases {handle : FileHandle} (opens : openLockFile handle d = some d') :
    d.openExclusive (home handle) handle = some d'
      ∨ d.openExisting (home handle) handle = some d' := by
  unfold openLockFile at opens
  split at opens
  · rename_i created hcreated
    exact Or.inl (hcreated.trans opens)
  · exact Or.inr opens

/-- A handle that opens a lock file is on it. -/
theorem refersTo_openLockFile {handle : FileHandle} (opens : openLockFile handle d = some d') :
    d'.RefersTo handle (lockPath handle.2) := by
  obtain hopens | hopens := openLockFile_cases opens
  · exact Directory.refersTo_openExclusive hopens
  · exact Directory.refersTo_openExisting hopens

theorem sound_openLockFile (h : Sound home d) {handle : FileHandle}
    (opens : openLockFile handle d = some d') : Sound home d' := by
  obtain hopens | hopens := openLockFile_cases opens
  · exact h.openExclusive rfl hopens
  · exact h.openExisting rfl hopens

namespace FileLockManagers

variable {s : FileLockManagers}

theorem sound_acquire (h : Sound home s.directory) (m : ManagerId) (request : FileLockRequest)
    (lockId : String) (input : FileInput) :
    Sound home (s.acquire m request lockId input).2.directory := by
  unfold acquire
  split
  · exact sound_writeLockInfo h _ _
  · have hclear := sound_clearStale h input (lockPath request.resource)
    split
    · exact hclear
    · rename_i opened hopens
      have hopened := sound_openLockFile hclear hopens
      have hlocked := hopened.flock (m, request.resource)
      split
      · rename_i locked hlock
        rw [hlock] at hlocked
        exact sound_writeLockInfo hlocked _ _
      · exact hopened.close _

theorem sound_release (h : Sound home s.directory) (m : ManagerId) (resource : String)
    (owner : Option String) : Sound home (s.release m resource owner).2.directory := by
  unfold release
  split
  · split
    · exact h
    · exact ((h.unlock _).close _).unlink _
  · split
    · split
      · exact h.unlink _
      · exact h
    · exact h.unlink _

theorem sound_extend (h : Sound home s.directory) (m : ManagerId) (resource owner : String)
    (ttl : ℚ) (input : FileInput) :
    Sound home (s.extend m resource owner ttl input).2.directory := by
  unfold extend
  split
  · split
    · exact h
    · split
      · exact h
      · exact sound_writeLockInfo h _ _
  · exact h

theorem sound_cleanupExpired (h : Sound home s.directory) (input : String → FileInput) :
    Sound home (s.cleanupExpired input).directory := by
  unfold cleanupExpired
  generalize s.directory.names.keys = names
  induction names generalizing s with
  | nil => exact h
  | cons name names ih => exact ih (sound_cleanFile h (input name) name)

theorem sound_maybeCleanup (h : Sound home s.directory)
    (cleanup : Option (String → FileInput)) : Sound home (s.maybeCleanup cleanup).directory := by
  cases cleanup with
  | none => exact h
  | some input => exact sound_cleanupExpired h input

theorem sound_call (h : Sound home s.directory) (m : ManagerId) (c : FileLockCall) :
    Sound home (s.call m c).directory := by
  cases c with
  | acquire request lockId cleanup input =>
    exact sound_acquire (sound_maybeCleanup h cleanup) m request lockId input
  | release resource owner => exact sound_release h m resource owner
  | extend resource owner ttl input => exact sound_extend h m resource owner ttl input
  | cleanupExpired input => exact sound_cleanupExpired h input

/-- **Every directory that comes about is sound.** It is an induction over the calls, each of
which is a series of operations that keep soundness. -/
theorem sound_after (pid : ManagerId → ProcessId) (cs : List (ManagerId × FileLockCall)) :
    Sound home (History.after step (start pid) cs).directory :=
  History.invariant_of_kept (P := fun s : FileLockManagers => Sound home s.directory) (.empty home)
    (fun _ c h => sound_call h c.1 c.2) cs

end FileLockManagers

end Sound

end JobOrchestrator
