import JobOrchestrator.Locking.FileLock

/-!
# Do file locks exclude?

A process that was granted the lock on a resource has a handle with the lock on a file.
That excludes the others as long as the name of the lock file stands for that file.
`release` unlinks the name after it has unlocked the file, and `cleanup_expired`
unlinks what it could not read, which the file of a lock just being taken is. Whoever
has opened the file by then goes on to lock it, and whoever comes later makes a new
one.

So file locks exclude in the runs in which a name is unlinked only while no process
relies on its file, having opened it and not yet given it up:
`FileLockWorld.file_locks_exclude`. The general part of the argument is that of
`FileLocks.Directory.HoldsOn`.
-/

namespace JobOrchestrator

open FileLocks (Directory)
open FileLocks.Directory

namespace FileLockPc

/-- The resource that an `acquire` has the file of, locked, without it being granted yet. -/
def got : FileLockPc → Option String
  | .truncating request | .writing request _ => some request.resource
  | _ => none

/-- The resource that an `acquire` has opened the file of, to lock it. -/
def trying : FileLockPc → Option String
  | .locking request => some request.resource
  | _ => none

/-- The resource that a `release` has unlocked, which is not over yet. -/
def unlocked : FileLockPc → Option String
  | .closing resource => some resource
  | _ => none

/-- The resource of an `acquire` that is not held by this process already. -/
def entering : FileLockPc → Option String
  | .unlinkingStale request | .creating request | .opening request | .locking request
  | .givingUp request | .truncating request | .writing request _ => some request.resource
  | _ => none

/-- The resource whose handle the next operation opens, unlocks or closes. -/
def touches : FileLockPc → Option String
  | .creating request | .opening request | .givingUp request => some request.resource
  | .unlocking resource | .closing resource => some resource
  | _ => none

/-- The name that the next operation unlinks. -/
def unlinks : FileLockPc → Option String
  | .removing name _ _ => some name
  | .unlinkingStale request => some (lockPath request.resource)
  | .unlinking resource => some (lockPath resource)
  | _ => none

/-- The name whose contents the next operation reads. -/
def reads : FileLockPc → Option String
  | .cleaning (name :: _) _ => some name
  | .checking request | .rereading request => some (lockPath request.resource)
  | .comparing resource _ | .matching resource _ => some (lockPath resource)
  | _ => none

theorem unlocked_of_touches (pc : FileLockPc) (touches : pc.touches = none) :
    pc.unlocked = none := by
  cases pc <;> first | rfl | cases touches

end FileLockPc

namespace FileLockProcess

variable {d d' : LockDirectory} {p : ProcessId} {proc proc' : FileLockProcess} {r : String}

/-- **The lock was granted to the process, and it has not unlocked it.** -/
def Granted (proc : FileLockProcess) (r : String) : Prop :=
  r ∈ proc.held ∧ proc.pc.unlocked ≠ some r

instance (proc : FileLockProcess) (r : String) : Decidable (proc.Granted r) :=
  inferInstanceAs (Decidable (_ ∧ _))

/-- The process has the file of the resource locked. -/
def Owns (proc : FileLockProcess) (r : String) : Prop := proc.Granted r ∨ proc.pc.got = some r

/-- **The process relies on the file of the resource**: it has it locked, or has opened it and
is going to lock it. -/
def Relies (proc : FileLockProcess) (r : String) : Prop := proc.Owns r ∨ proc.pc.trying = some r

/-- **What is behind a process**: what it owns it holds the lock on, and what it is going to lock
is the file that the name stands for. As long as this holds of every process, two that own the
same resource would have to hold one lock. -/
structure Backed (d : LockDirectory) (p : ProcessId) (proc : FileLockProcess) : Prop where
  owns : ∀ r, proc.Owns r → d.HoldsOn (p, r) (lockPath r)
  trying : ∀ r, proc.pc.trying = some r → d.RefersTo (p, r) (lockPath r)
  entering : ∀ r, proc.pc.entering = some r → r ∉ proc.held

/-- A process that is not acquiring anything is backed as soon as what it owns is locked by it.
-/
theorem backed_of_owns (trying : proc.pc.trying = none) (entering : proc.pc.entering = none)
    (owns : ∀ r, proc.Owns r → d.HoldsOn (p, r) (lockPath r)) : Backed d p proc :=
  ⟨owns, by simp [trying], by simp [entering]⟩

/-- What spares the handles that a process relies on leaves the process backed. -/
theorem Backed.spared (h : Backed d p proc)
    (spares : ∀ r, proc.Relies r → Spares (p, r) d d') : Backed d' p proc where
  owns r hr := (spares r (Or.inl hr)).holdsOn _ (h.owns r hr)
  trying r hr := (spares r (Or.inr hr)).refersTo _ (h.trying r hr)
  entering := h.entering

/-- **What an operation spares**: every handle that it is not about, unless it unlinks the name
that stands for its file. -/
theorem spares_proceed (input : FileInput) {h : FileHandle}
    (untouched : ∀ r, proc.pc.touches = some r → h ≠ (p, r))
    (elsewhere : ∀ n, proc.pc.unlinks = some n → ¬ d.RefersTo h n) :
    Spares h d (proc.proceed input p d).1 := by
  obtain ⟨pc, held⟩ := proc
  -- only opening, closing, unlocking and unlinking can take a lock away from a handle
  cases pc with
  | idle | rereading => exact .refl h d
  | cleaning names after =>
    cases names with
    | nil => exact .refl h d
    | cons name names =>
      unfold proceed
      simp only
      split <;> exact .refl h d
  | removing name names after => exact spares_unlink (elsewhere name rfl)
  | checking request =>
    unfold proceed
    simp only
    split
    · exact spares_openTruncate h _ d
    · split <;> exact .refl h d
  | unlinkingStale request => exact spares_unlink (elsewhere _ rfl)
  | creating request =>
    unfold proceed
    simp only
    split
    · exact .refl h d
    · rename_i hopens
      exact spares_openExclusive (untouched _ rfl) hopens
  | opening request =>
    unfold proceed
    simp only
    split
    · exact .refl h d
    · rename_i hopens
      exact spares_openExisting (untouched _ rfl) hopens
  | locking request =>
    have hflock := spares_flock (p, request.resource) h d
    unfold proceed
    simp only
    split
    · rename_i locked hlocked
      rw [hlocked] at hflock
      exact hflock
    · exact .refl h d
  | givingUp request => exact spares_close (untouched _ rfl) d
  | truncating request => exact spares_openTruncate h _ d
  | writing request file | rewriting request file => exact spares_write h file _ d
  | comparing resource owner | matching resource owner =>
    unfold proceed
    simp only
    split <;> exact .refl h d
  | unlocking resource => exact spares_unlock (untouched _ rfl) d
  | closing resource => exact spares_close (untouched _ rfl) d
  | unlinking resource => exact spares_unlink (elsewhere _ rfl)

/-! ## What an operation leaves of its own process -/

/-- The next operation opens, locks or closes no handle, and grants nothing. -/
def Quiet (proc : FileLockProcess) : Prop :=
  proc.pc.touches = none ∧ proc.pc.got = none ∧ proc.pc.trying = none

/-- What a quiet operation does to its process: it goes on, and does not lock anything
before it has opened it. -/
theorem proceed_quiet (input : FileInput) (quiet : proc.Quiet)
    (entering : ∀ r, proc.pc.entering = some r → r ∉ proc.held) :
    ∃ pc : FileLockPc, (proc.proceed input p d).2 = proc.goto pc ∧ pc.got = none
      ∧ pc.trying = none ∧ ∀ r, pc.entering = some r → r ∉ proc.held := by
  obtain ⟨pc, held⟩ := proc
  obtain ⟨htouches, hgot, htrying⟩ := quiet
  cases pc with
  | idle => exact ⟨.idle, rfl, rfl, rfl, by simp [FileLockPc.entering]⟩
  | rereading request => exact ⟨.idle, rfl, rfl, rfl, by simp [FileLockPc.entering]⟩
  | cleaning names after =>
    cases names with
    | nil =>
      cases after with
      | none => exact ⟨.idle, rfl, rfl, rfl, by simp [FileLockPc.entering]⟩
      | some request => exact ⟨.checking request, rfl, rfl, rfl, by simp [FileLockPc.entering]⟩
    -- the file may turn out stale, which only leads to its removal
    | cons name names =>
      unfold proceed
      simp only
      split
      · exact ⟨_, rfl, rfl, rfl, by simp [FileLockPc.entering]⟩
      · refine ⟨_, rfl, ?_⟩
        split <;> simp [FileLockPc.got, FileLockPc.trying, FileLockPc.entering]
  | removing name names after =>
    exact ⟨.cleaning names after, rfl, rfl, rfl, by simp [FileLockPc.entering]⟩
  | checking request =>
    unfold proceed
    simp only
    split
    · exact ⟨_, rfl, rfl, rfl, by simp [FileLockPc.entering]⟩
    · rename_i hfree
      split
      · exact ⟨_, rfl, rfl, rfl, by simpa [FileLockPc.entering] using hfree⟩
      · refine ⟨_, rfl, ?_⟩
        split <;> simpa [FileLockPc.got, FileLockPc.trying, FileLockPc.entering] using hfree
  | unlinkingStale request => exact ⟨.creating request, rfl, rfl, rfl, entering⟩
  | rewriting request file =>
    exact ⟨.rereading request, rfl, rfl, rfl, by simp [FileLockPc.entering]⟩
  | comparing resource owner | matching resource owner =>
    unfold proceed
    simp only
    split
    · exact ⟨_, rfl, rfl, rfl, by simp [FileLockPc.entering]⟩
    · refine ⟨_, rfl, ?_⟩
      split <;> simp [FileLockPc.got, FileLockPc.trying, FileLockPc.entering]
  | unlinking resource => exact ⟨.idle, rfl, rfl, rfl, by simp [FileLockPc.entering]⟩
  -- the remaining places touch a handle, so they are not quiet
  | creating request | opening request | givingUp request => cases htouches
  | unlocking resource | closing resource => cases htouches
  | locking request => cases htrying
  | truncating request | writing request file => cases hgot

/-- A process that is not unlocking anything has what it holds locked, as long as the handles are
spared of the locks it was granted. -/
theorem Backed.holdsOn_of_held {r : String} (h : Backed d p proc) (locked : proc.pc.unlocked = none)
    (spares : ∀ r, proc.Granted r → Spares (p, r) d d') (held : r ∈ proc.held) :
    d'.HoldsOn (p, r) (lockPath r) := by
  have hgranted : proc.Granted r := ⟨held, by simp [locked]⟩
  exact (spares r hgranted).holdsOn _ (h.owns r (Or.inl hgranted))

/-- **A process that goes on to something it does not have a file for** is backed as long as
the handles are spared of the locks it was granted. -/
theorem Backed.goto {pc : FileLockPc} (h : Backed d p proc)
    (locked : proc.pc.unlocked = none) (got : pc.got = none) (trying : pc.trying = none)
    (entering : ∀ r, pc.entering = some r → r ∉ proc.held)
    (spares : ∀ r, proc.Granted r → Spares (p, r) d d') : Backed d' p (proc.goto pc) where
  owns r hr := by
    rcases hr with ⟨hheld, -⟩ | hgot
    · exact h.holdsOn_of_held locked spares hheld
    · rw [show (proc.goto pc).pc.got = none from got] at hgot
      cases hgot
  trying r hr := by
    rw [show (proc.goto pc).pc.trying = none from trying] at hr
    cases hr
  entering := entering

theorem Backed.afterFailure {request : FileLockRequest} (h : Backed d p proc)
    (input : FileInput) (locked : proc.pc.unlocked = none)
    (spares : ∀ r, proc.Granted r → Spares (p, r) d d') :
    Backed d' p (proc.afterFailure input request) := by
  unfold FileLockProcess.afterFailure
  split
  · exact h.goto locked rfl rfl (by simp [FileLockPc.entering]) spares
  · exact h.goto locked rfl rfl (by simp [FileLockPc.entering]) spares

/-- A process that has opened the file of a resource, to lock it. -/
theorem Backed.goto_locking {request : FileLockRequest} (h : Backed d p proc)
    (locked : proc.pc.unlocked = none)
    (refersTo : d'.RefersTo (p, request.resource) (lockPath request.resource))
    (entering : request.resource ∉ proc.held)
    (spares : ∀ r, proc.Granted r → Spares (p, r) d d') :
    Backed d' p (proc.goto (.locking request)) where
  owns r hr := by
    rcases hr with ⟨hheld, -⟩ | hgot
    · exact h.holdsOn_of_held locked spares hheld
    · cases hgot
  trying r hr := by
    cases hr
    exact refersTo
  entering r hr := by
    cases hr
    exact entering

/-- A process that has the file of a resource locked, and goes on to have the lock granted. -/
theorem Backed.goto_got {request : FileLockRequest} {pc : FileLockPc} (h : Backed d p proc)
    (locked : proc.pc.unlocked = none) (got : pc.got = some request.resource)
    (trying : pc.trying = none) (entering : pc.entering = some request.resource)
    (free : request.resource ∉ proc.held)
    (holdsOn : d'.HoldsOn (p, request.resource) (lockPath request.resource))
    (spares : ∀ r, proc.Granted r → Spares (p, r) d d') : Backed d' p (proc.goto pc) where
  owns r hr := by
    rcases hr with ⟨hheld, -⟩ | hgot
    · exact h.holdsOn_of_held locked spares hheld
    · rw [show (proc.goto pc).pc.got = _ from got, Option.some.injEq] at hgot
      rw [← hgot]
      exact holdsOn
  trying r hr := by
    rw [show (proc.goto pc).pc.trying = none from trying] at hr
    cases hr
  entering r hr := by
    rw [show (proc.goto pc).pc.entering = _ from entering, Option.some.injEq] at hr
    rw [← hr]
    exact free

/-- A process that the lock is granted to, which it had the file locked for. -/
theorem Backed.granted {request : FileLockRequest} {file : FileLocks.Inode} {held : Finset String}
    (h : Backed d p ⟨.writing request file, held⟩)
    (spares : ∀ r, Owns ⟨.writing request file, held⟩ r → Spares (p, r) d d') :
    Backed d' p ⟨.idle, insert request.resource held⟩ := by
  refine backed_of_owns rfl rfl (fun r hr => ?_)
  have hown : Owns ⟨.writing request file, held⟩ r := by
    rcases hr with ⟨hheld, -⟩ | hgot
    · rcases Finset.mem_insert.mp hheld with rfl | hheld
      · exact Or.inr rfl
      · exact Or.inl ⟨hheld, by simp [FileLockPc.unlocked]⟩
    · cases hgot
  exact (spares r hown).holdsOn _ (h.owns r hown)

/-- A process that has unlocked one of its files. -/
theorem Backed.unlocked {held : Finset String} {resource : String}
    (h : Backed d p ⟨.unlocking resource, held⟩)
    (spares : ∀ r, r ≠ resource → Owns ⟨.unlocking resource, held⟩ r → Spares (p, r) d d') :
    Backed d' p ⟨.closing resource, held⟩ := by
  refine backed_of_owns rfl rfl (fun r hr => ?_)
  rcases hr with ⟨hheld, hclosing⟩ | hgot
  · have hown : Owns ⟨.unlocking resource, held⟩ r :=
      Or.inl ⟨hheld, by simp [FileLockPc.unlocked]⟩
    have hne : r ≠ resource := fun heq => hclosing (congrArg some heq.symm)
    exact (spares r hne hown).holdsOn _ (h.owns r hown)
  · cases hgot

/-- A process that has closed the file that it had unlocked. -/
theorem Backed.closed {held : Finset String} {resource : String}
    (h : Backed d p ⟨.closing resource, held⟩)
    (spares : ∀ r, r ≠ resource → Owns ⟨.closing resource, held⟩ r → Spares (p, r) d d') :
    Backed d' p ⟨.unlinking resource, held.erase resource⟩ := by
  refine backed_of_owns rfl rfl (fun r hr => ?_)
  rcases hr with ⟨hheld, -⟩ | hgot
  · obtain ⟨hne, hheld⟩ := Finset.mem_erase.mp hheld
    have hown : Owns ⟨.closing resource, held⟩ r :=
      Or.inl ⟨hheld, by simpa [FileLockPc.unlocked] using hne.symm⟩
    exact (spares r hne hown).holdsOn _ (h.owns r hown)
  · cases hgot

/-- **The next operation of a process leaves it backed**, unless it unlinks the name of a file
that the process relies on. -/
theorem Backed.proceed (h : Backed d p proc) (input : FileInput)
    (elsewhere : ∀ n, proc.pc.unlinks = some n → ∀ r, proc.Relies r → ¬ d.RefersTo (p, r) n) :
    Backed (proc.proceed input p d).1 p (proc.proceed input p d).2 := by
  have hspares : ∀ r, proc.Relies r → (∀ r', proc.pc.touches = some r' → r ≠ r') →
      Spares (p, r) d (proc.proceed input p d).1 := fun r hr hne =>
    spares_proceed input (fun r' ht heq => hne r' ht (Prod.mk.inj heq).2)
      (fun n hn => elsewhere n hn r hr)
  by_cases hquiet : proc.Quiet
  · obtain ⟨pc, hnext, hgot, htrying, hentering⟩ := proceed_quiet input hquiet h.entering
    rw [hnext]
    refine h.goto (proc.pc.unlocked_of_touches hquiet.1) hgot htrying hentering (fun r hr => ?_)
    · refine hspares r (Or.inl (Or.inl hr)) (fun r' ht => ?_)
      rw [hquiet.1] at ht
      cases ht
  obtain ⟨pc, held⟩ := proc
  -- a resource that the process is entering is none that it was granted
  have hother : (∀ r', pc.touches = some r' → pc.entering = some r') →
      ∀ r, Granted ⟨pc, held⟩ r →
        Spares (p, r) d (FileLockProcess.proceed input p d ⟨pc, held⟩).1 := by
    intro hin r hr
    refine hspares r (Or.inl (Or.inl hr)) (fun r' htouches heq => ?_)
    exact h.entering r (heq ▸ hin r' htouches) hr.1
  cases pc with
  | creating request =>
    have hfree := h.entering request.resource rfl
    revert hother
    unfold FileLockProcess.proceed
    simp only
    split
    · intro hother
      refine h.goto rfl rfl rfl (fun r hr => ?_) (hother (fun _ h => h))
      cases hr
      exact hfree
    · rename_i hopens
      intro hother
      exact h.goto_locking rfl (refersTo_openExclusive hopens) hfree (hother (fun _ h => h))
  | opening request =>
    have hfree := h.entering request.resource rfl
    revert hother
    unfold FileLockProcess.proceed
    simp only
    split
    · intro hother
      exact h.afterFailure input rfl (hother (fun _ h => h))
    · rename_i hopens
      intro hother
      exact h.goto_locking rfl (refersTo_openExisting hopens) hfree (hother (fun _ h => h))
  | locking request =>
    have hfree := h.entering request.resource rfl
    have hrefers := h.trying request.resource rfl
    revert hother
    unfold FileLockProcess.proceed
    simp only
    split
    · rename_i locked hlocked
      intro hother
      have hholds := holdsOn_flock hrefers (congrArg Prod.fst hlocked)
      rw [hlocked] at hholds
      exact h.goto_got rfl rfl rfl rfl hfree hholds (hother (by simp [FileLockPc.touches]))
    · intro hother
      refine h.goto rfl rfl rfl (fun r hr => ?_) (hother (by simp [FileLockPc.touches]))
      cases hr
      exact hfree
  | givingUp request => exact h.afterFailure input rfl (hother (fun _ h => h))
  | truncating request =>
    have hholds := h.owns request.resource (Or.inr rfl)
    have htrunc := spares_openTruncate (p, request.resource) (lockPath request.resource) d
    exact h.goto_got rfl rfl rfl rfl (h.entering request.resource rfl)
      (htrunc.holdsOn _ hholds) (hother (by simp [FileLockPc.touches]))
  | writing request file =>
    exact h.granted (fun r hown => hspares r (Or.inl hown) (by simp [FileLockPc.touches]))
  | unlocking resource =>
    refine h.unlocked (fun r hne hown => hspares r (Or.inl hown) (fun r' htouches heq => ?_))
    cases htouches
    exact hne heq
  | closing resource =>
    refine h.closed (fun r hne hown => hspares r (Or.inl hown) (fun r' htouches heq => ?_))
    cases htouches
    exact hne heq
  | _ => exact absurd ⟨rfl, rfl, rfl⟩ hquiet

end FileLockProcess

namespace FileLockWorld

open FileLockProcess

variable {w w' : FileLockWorld}

/-- The name that a step unlinks. -/
def unlinks (w : FileLockWorld) : FileLockStep → Option String
  | .proceed p _ => (w.processes p).pc.unlinks
  | _ => none

/-- **The condition**: a name is unlinked only while no process relies on the file that it
stands for. -/
def UnlinksUnused (w : FileLockWorld) (l : FileLockStep) : Prop :=
  ∀ n, w.unlinks l = some n → ∀ q r, (w.processes q).Relies r → ¬ w.directory.RefersTo (q, r) n

/-- No lock that is looked at has expired. -/
def NoneExpired (w : FileLockWorld) : FileLockStep → Prop
  | .proceed p input =>
    ∀ n ∈ (w.processes p).pc.reads, ∀ info ∈ w.directory.read n,
      info.isExpired input.now = false
  | _ => True

/-- All processes are alive. -/
def AllAlive : FileLockStep → Prop
  | .proceed _ input => ∀ q, input.isProcessAlive q = true
  | _ => True

instance (w : FileLockWorld) : (l : FileLockStep) → Decidable (w.NoneExpired l)
  | .proceed p input => inferInstanceAs (Decidable (∀ n ∈ (w.processes p).pc.reads,
      ∀ info ∈ w.directory.read n, info.isExpired input.now = false))
  | .acquire _ _ _ | .release _ _ _ | .cleanupExpired _ => isTrue trivial

/-- **Granted locks exclude**: a lock that was granted and not released is one process's. -/
def Exclusive (w : FileLockWorld) : Prop :=
  ∀ r p p', (w.processes p).Granted r → (w.processes p').Granted r → p = p'

/-- Every process is backed. -/
def AllBacked (w : FileLockWorld) : Prop := ∀ p, Backed w.directory p (w.processes p)

theorem AllBacked.exclusive (h : w.AllBacked) : w.Exclusive := by
  intro r p p' hgranted hgranted'
  have hholds := (h p).owns r (Or.inl hgranted)
  have hholds' := (h p').owns r (Or.inl hgranted')
  exact (Prod.mk.inj (hholds.unique hholds')).1

/-- A process that begins a call leaves all handles alone; it has yet to do something to the
directory. -/
theorem AllBacked.call (h : w.AllBacked) {p : ProcessId} {pc : FileLockPc}
    (got : pc.got = none) (trying : pc.trying = none) (entering : pc.entering = none)
    (taken : w.call p pc = some w') : w'.AllBacked := by
  unfold FileLockWorld.call at taken
  split at taken
  · rename_i hidle
    cases taken
    intro q
    show Backed w.directory q (Function.update w.processes p _ q)
    by_cases hq : q = p
    · rw [hq, Function.update_self]
      exact (h p).goto (by rw [hidle]; rfl) got trying (by simp [entering]) (fun r _ => .refl _ _)
    · rw [Function.update_of_ne hq]
      exact h q
  · cases taken

/-- **Every step** that meets the condition keeps the locks of all processes. -/
theorem AllBacked.step (h : w.AllBacked) {l : FileLockStep} (unused : w.UnlinksUnused l)
    (taken : w.step l = some w') : w'.AllBacked := by
  cases l with
  | acquire p request cleanup =>
    refine h.call ?_ ?_ ?_ taken <;> split <;> rfl
  | release p resource owner =>
    refine h.call ?_ ?_ ?_ taken <;> unfold releasePc <;> split <;> split <;> rfl
  | cleanupExpired p => exact h.call rfl rfl rfl taken
  | proceed p input =>
    have hw : w' = ⟨((w.processes p).proceed input p w.directory).1,
        Function.update w.processes p ((w.processes p).proceed input p w.directory).2⟩ := by
      simp only [FileLockWorld.step] at taken
      split at taken
      · cases taken
      · exact (Option.some.inj taken).symm
    rw [hw]
    intro q
    show Backed _ q (Function.update w.processes p _ q)
    by_cases hq : q = p
    · rw [hq, Function.update_self]
      exact (h p).proceed input (fun n hn r hr => unused n hn p r hr)
    · -- another process's handles are not this one's to open or close
      rw [Function.update_of_ne hq]
      refine (h q).spared (fun r hr => spares_proceed input (fun r' _ heq => ?_) ?_)
      · exact hq (Prod.mk.inj heq).1
      · exact fun n hn => unused n hn q r hr

/-- **File locks exclude**: in every run of any number of processes in which a name is unlinked
only while no process relies on its file, a lock that was granted and not released is one
process's. -/
theorem file_locks_exclude {ls : List FileLockStep}
    (run : GuardedRun step UnlinksUnused init ls w) : w.Exclusive := by
  have hbacked : w.AllBacked := by
    refine run.invariant (P := AllBacked) ?_ (fun w l w' h ok taken => h.step ok taken)
    intro p
    refine backed_of_owns rfl rfl (fun r hr => ?_)
    rcases hr with ⟨hheld, -⟩ | hgot
    · exact absurd hheld (Finset.notMem_empty r)
    · cases hgot
  exact hbacked.exclusive

/-- A process goes on with its call for some steps. -/
def proceedTimes (p : ProcessId) (k : ℕ) : List FileLockStep := List.replicate k (.proceed p {})

/-- A request for half a minute. -/
def requestOf (owner : String) : FileLockRequest where
  resource := "r"
  owner := owner
  expiresAt := some (.utcnow 30)

/-- Process 0 gets the lock and releases it, process 1 opens its file before that is over. -/
def unlinkedFileSteps : List FileLockStep :=
  .acquire 0 (requestOf "a") false :: proceedTimes 0 5
    ++ .acquire 1 (requestOf "b") false :: proceedTimes 1 3
    ++ .release 0 "r" (some "a") :: proceedTimes 0 3
    ++ proceedTimes 1 1 ++ proceedTimes 0 1 ++ proceedTimes 1 2
    ++ .acquire 2 (requestOf "c") false :: proceedTimes 2 6

/-- Process 1 looks at the lock file of process 0 before anything is in it. -/
def cleanedUpSteps : List FileLockStep :=
  .acquire 0 (requestOf "a") false :: proceedTimes 0 2
    ++ .cleanupExpired 1 :: proceedTimes 1 1
    ++ proceedTimes 0 3 ++ proceedTimes 1 1
    ++ .acquire 2 (requestOf "c") false :: proceedTimes 2 5

/-- Process 0 gets the lock, process 1 does not. -/
theorem file_locks_exclude_second :
    ∃ w : FileLockWorld, (w.processes 0).Granted "r" ∧ ¬ (w.processes 1).Granted "r"
      ∧ w.Exclusive := by
  have hreplay : (GuardedRun.replay step (fun w l => (w.unlinks l).isNone) init
      (.acquire 0 (requestOf "a") false :: proceedTimes 0 5
        ++ .acquire 1 (requestOf "b") false :: proceedTimes 1 5)).any
      (fun w => (w.processes 0).Granted "r" ∧ ¬ (w.processes 1).Granted "r") = true := by
    decide +kernel
  have hsound : ∀ (w : FileLockWorld) (l : FileLockStep), (w.unlinks l).isNone = true →
      w.UnlinksUnused l := by
    intro w l hnone n hn
    rw [Option.isNone_iff_eq_none.mp hnone] at hn
    cases hn
  obtain ⟨w, run, htest⟩ := GuardedRun.exists_of_replay hsound hreplay
  obtain ⟨hgranted, hnot⟩ := of_decide_eq_true htest
  exact ⟨w, hgranted, hnot, file_locks_exclude run⟩

/-- **A file that was opened is unlinked**: process 1 has opened the lock file when process 0
unlocks it, locks it before process 0 unlinks it, and makes a new one for its lock info.
Process 2 locks that one. -/
theorem unlinked_file_locked :
    ∃ w, GuardedRun step (fun w l => w.NoneExpired l ∧ AllAlive l) init unlinkedFileSteps w
      ∧ ¬ w.Exclusive := by
  have hreplay : (GuardedRun.replay step (fun w l => w.NoneExpired l) init
      unlinkedFileSteps).any (fun w => (w.processes 1).Granted "r" ∧ (w.processes 2).Granted "r")
        = true := by
    decide +kernel
  obtain ⟨w, run, htest⟩ := GuardedRun.exists_of_replay (fun _ _ h => of_decide_eq_true h) hreplay
  obtain ⟨hgranted, hgranted'⟩ := of_decide_eq_true htest
  refine ⟨w, run.and_labels (by simp [unlinkedFileSteps, proceedTimes, AllAlive]), fun h => ?_⟩
  exact absurd (h "r" 1 2 hgranted hgranted') (by decide)

/-- **What has no lock info yet is cleaned up**: the file of process 0 is unlinked while process 0
is getting the lock, and process 2 locks a new one. -/
example : (GuardedRun.replay step (fun w l => w.NoneExpired l) init cleanedUpSteps).any
    (fun w => (w.processes 0).Granted "r" ∧ (w.processes 2).Granted "r") = true := by
  decide +kernel

end FileLockWorld

end JobOrchestrator
