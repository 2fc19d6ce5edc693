import JobOrchestrator.Locking.FileLockCalls

/-!
# File locks and the names of resources

The lock file of a resource has its name with `/`, `\` and `:` replaced by `_`, so
that resources of different names can have the same file. Where they have, the lock of
one is that of the other; where they have not, a call on one can be noticed by a caller
that asks for the other only if it makes a cleanup, which is for all resources, and the
file of the other is one that a cleanup takes away: `FileLockManagers.independent_iff`.

What a caller can notice of a resource is whether its manager holds it, what is in its
file and who has that locked: `SameView`.
-/

namespace JobOrchestrator

open FileLocks (Directory)
open FileLocks.Directory (Sound)

/-- **The calls on a resource**: those that name it, and every cleanup. -/
def FileLockCall.On (r : String) : FileLockCall → Prop
  | .acquire request _ _ _ => request.resource = r
  | .release resource _ | .extend resource _ _ _ => resource = r
  | .cleanupExpired _ => True

/-- The cleanup that a call makes. -/
def FileLockCall.cleanup : FileLockCall → Option (String → FileInput)
  | .acquire _ _ cleanup _ => cleanup
  | .cleanupExpired input => some input
  | .release .. | .extend .. => none

namespace FileLockManagers

/-- **Two states answer alike** whoever asks for a resource. Each is asked of the two states as
they are, and an attempt is made with the cleanup that it begins with. -/
structure SameAnswers (r : String) (s s' : FileLockManagers) : Prop where
  isLocked : ∀ input, s.isLocked r input = s'.isLocked r input
  getLockInfo : ∀ lockId input, s.getLockInfo r lockId input = s'.getLockInfo r lockId input
  acquire : ∀ m request lockId cleanup input, request.resource = r →
    ((s.maybeCleanup cleanup).acquire m request lockId input).1
      = ((s'.maybeCleanup cleanup).acquire m request lockId input).1
  release : ∀ m owner, (s.release m r owner).1 = (s'.release m r owner).1

/-- **The call spares a resource**: it makes no cleanup, or the resource has no lock file, or the
file can be read and is not stale. -/
def Spares (r : String) (s : FileLockManagers) (c : FileLockCall) : Prop :=
  ∀ input, c.cleanup = some input → ∀ contents handle,
    s.directory.file (lockPath r) = some (contents, handle) →
      ∃ info, contents = some info ∧ info.isStale (input (lockPath r)) = false

/-- **A resource is independent of another.** After every history of calls of any managers, a
call on `r₁` that spares `r₂` leaves the answers for `r₂` as they were. -/
def Independent (r₁ r₂ : String) : Prop :=
  ∀ (pid : ManagerId → ProcessId) (cs : List (ManagerId × FileLockCall)) (m : ManagerId)
    (c : FileLockCall), c.On r₁ → Spares r₂ (History.after step (start pid) cs) c →
      SameAnswers r₂ (History.after step (start pid) cs)
        ((History.after step (start pid) cs).call m c)

/-- What a caller can notice of a resource is the same. It is the file of the resource and who
remembers to hold it; nothing else that a call writes can be noticed by asking for the resource.
-/
structure SameView (r : String) (s s' : FileLockManagers) : Prop where
  file : s.directory.file (lockPath r) = s'.directory.file (lockPath r)
  held : ∀ m, r ∈ s.held m ↔ r ∈ s'.held m

end FileLockManagers

/-! ## One file -/

section File

variable {d d' : LockDirectory} {handle : FileHandle} {n n' : String} {input : FileInput}

/-- A stale file is gone, and an unreadable one stays. -/
def cleared (input : FileInput) : Option (Option FileLockInfo × Option FileHandle) →
    Option (Option FileLockInfo × Option FileHandle)
  | some (some info, handle) => if info.isStale input then none else some (some info, handle)
  | f => f

/-- A file that is stale or unreadable is gone. -/
def cleaned (input : FileInput) : Option (Option FileLockInfo × Option FileHandle) →
    Option (Option FileLockInfo × Option FileHandle)
  | some (some info, handle) => if info.isStale input then none else some (some info, handle)
  | _ => none

theorem read_of_file_eq {f : Option (Option FileLockInfo × Option FileHandle)}
    (h : d.file n = f) : d.read n = f.bind Prod.fst := by
  rw [Directory.read_eq_file, h]

theorem file_clearStale_self (input : FileInput) (n : String) (d : LockDirectory) :
    (clearStale input n d).file n = cleared input (d.file n) := by
  unfold clearStale
  rcases h : d.file n with - | ⟨- | info, handle⟩
  · simp only [read_of_file_eq h, Option.bind_none, cleared]
    exact h
  · simp only [read_of_file_eq h, Option.bind_some, cleared]
    exact h
  · simp only [read_of_file_eq h, Option.bind_some, cleared]
    split
    · exact Directory.file_unlink_self d n
    · exact h

theorem file_cleanFile_self (input : FileInput) (n : String) (d : LockDirectory) :
    (cleanFile input n d).file n = cleaned input (d.file n) := by
  unfold cleanFile
  rcases h : d.file n with - | ⟨- | info, handle⟩
  · simp only [read_of_file_eq h, Option.bind_none, cleaned]
    exact Directory.file_unlink_self d n
  · simp only [read_of_file_eq h, Option.bind_some, cleaned]
    exact Directory.file_unlink_self d n
  · simp only [read_of_file_eq h, Option.bind_some, cleaned]
    split
    · exact Directory.file_unlink_self d n
    · exact h

theorem file_clearStale (ne : n ≠ n') : (clearStale input n' d).file n = d.file n := by
  obtain heq | heq := clearStale_cases input n' d <;> rw [heq]
  exact Directory.file_unlink ne

theorem file_cleanFile (ne : n ≠ n') : (cleanFile input n' d).file n = d.file n := by
  obtain heq | heq := cleanFile_cases input n' d <;> rw [heq]
  exact Directory.file_unlink ne

/-- A file is cleaned once for all: a second cleanup with the same reading finds nothing to take
away. -/
theorem cleaned_cleaned (input : FileInput) (f : Option (Option FileLockInfo × Option FileHandle)) :
    cleaned input (cleaned input f) = cleaned input f := by
  rcases f with - | ⟨- | info, handle⟩
  · rfl
  · rfl
  · rw [cleaned]
    split
    · rfl
    · rename_i hfresh
      rw [cleaned, if_neg hfresh]

theorem file_openLockFile (sound : Sound home d) (opens : openLockFile handle d = some d')
    (ne : n ≠ home handle) : d'.file n = d.file n := by
  obtain hopens | hopens := openLockFile_cases opens
  · exact Directory.file_openExclusive sound ne hopens
  · exact Directory.file_openExisting hopens

/-- **Opening never fails**: the file is there, or is made. -/
theorem exists_openLockFile (sound : Sound home d) (handle : FileHandle) :
    ∃ d', openLockFile handle d = some d'
      ∧ d'.file (lockPath handle.2) = some ((d.file (lockPath handle.2)).getD (none, none)) := by
  unfold openLockFile Directory.openExclusive
  cases hname : d.names.get? (lockPath handle.2) with
  | none =>
    have hfile : d.file (lockPath handle.2) = none := by rw [Directory.file, hname, Option.map_none]
    refine ⟨_, rfl, ?_⟩
    rw [hfile]
    exact Directory.file_create_self sound _
  | some i =>
    have hfile : d.file (lockPath handle.2) = some (d.contents i, d.locks i) := by
      rw [Directory.file, hname, Option.map_some]
    refine ⟨_, by rw [Directory.openExisting, hname, Option.map_some], ?_⟩
    rw [hfile]
    exact hfile

end File

namespace FileLockManagers

variable {s s' : FileLockManagers} {r : String} {m : ManagerId} {request : FileLockRequest}
  {lockId : String} {input : FileInput}

/-- A cleanup of all files, at one of them. -/
theorem file_cleanupExpired (s : FileLockManagers) (input : String → FileInput) (n : String) :
    (s.cleanupExpired input).directory.file n = cleaned (input n) (s.directory.file n) := by
  have hfold (names : List String) (s : FileLockManagers)
      (hn : n ∈ names ∨ cleaned (input n) (s.directory.file n) = s.directory.file n) :
      (names.foldl (fun s name => s.cleanup (input name) name) s).directory.file n
        = cleaned (input n) (s.directory.file n) := by
    induction names generalizing s with
    | nil => exact (hn.resolve_left List.not_mem_nil).symm
    | cons name names ih =>
      rw [List.foldl_cons]
      by_cases hname : n = name
      · subst hname
        have hself : (s.cleanup (input n) n).directory.file n
            = cleaned (input n) (s.directory.file n) := file_cleanFile_self _ _ _
        rw [ih _ (Or.inr (by rw [hself, cleaned_cleaned])), hself, cleaned_cleaned]
      · have hother : (s.cleanup (input name) name).directory.file n = s.directory.file n :=
          file_cleanFile hname
        rw [ih _ (hn.imp (fun hmem => (List.mem_cons.mp hmem).resolve_left hname)
          (fun hclean => by rw [hother, hclean])), hother]
  refine hfold _ s ?_
  cases hname : s.directory.names.get? n with
  | none =>
    right
    rw [Directory.file, hname]
    rfl
  | some i => exact Or.inl (OrderedDict.mem_keys_iff.mpr ⟨i, hname⟩)

/-! ## Answers come from the view -/

/-- A handle gets the lock on a file, as far as that is there. -/
def Lockable (handle : FileHandle) (f : Option (Option FileLockInfo × Option FileHandle)) : Prop :=
  (f.getD (none, none)).2 = none ∨ (f.getD (none, none)).2 = some handle

instance (handle : FileHandle) (f : Option (Option FileLockInfo × Option FileHandle)) :
    Decidable (Lockable handle f) :=
  inferInstanceAs (Decidable (_ ∨ _))

/-- **When an attempt is granted**: the manager has the resource, or can lock its file. -/
theorem acquire_fst (sound : Sound home s.directory) (m : ManagerId) (request : FileLockRequest)
    (lockId : String) (input : FileInput) :
    (s.acquire m request lockId input).1 =
      if request.resource ∈ s.held m ∨ Lockable (m, request.resource)
          (cleared input (s.directory.file (lockPath request.resource))) then
        some (grant request lockId input.now)
      else none := by
  obtain ⟨opened, hopens, hfile⟩ := exists_openLockFile
    (sound_clearStale sound input (lockPath request.resource)) (m, request.resource)
  have hlock : (opened.flock (m, request.resource)).1 = decide (Lockable (m, request.resource)
      (cleared input (s.directory.file (lockPath request.resource)))) := by
    rw [Directory.flock_of_refersTo (refersTo_openLockFile hopens), hfile, file_clearStale_self]
    rfl
  obtain ⟨hheld, heq⟩ | ⟨hfree, ⟨hfails, -⟩ | ⟨opened', hopens', hcase⟩⟩ :=
    s.acquire_cases m request lockId input
  · rw [heq, if_pos (Or.inl hheld)]
  · cases hopens.symm.trans hfails
  · obtain rfl := Option.some.inj (hopens.symm.trans hopens')
    obtain ⟨htrue, heq⟩ | ⟨hfalse, heq⟩ := hcase
    · rw [hlock, decide_eq_true_eq] at htrue
      rw [heq, if_pos (Or.inr htrue)]
    · rw [hlock, decide_eq_false_iff_not] at hfalse
      rw [heq, if_neg (not_or.mpr ⟨hfree, hfalse⟩)]

namespace SameView

theorem read (h : SameView r s s') :
    s.directory.read (lockPath r) = s'.directory.read (lockPath r) := by
  rw [Directory.read_eq_file, Directory.read_eq_file, h.file]

theorem maybeCleanup (h : SameView r s s') (cleanup : Option (String → FileInput)) :
    SameView r (s.maybeCleanup cleanup) (s'.maybeCleanup cleanup) where
  file := by
    cases cleanup with
    | none => exact h.file
    | some input =>
      show (s.cleanupExpired input).directory.file _ = (s'.cleanupExpired input).directory.file _
      rw [file_cleanupExpired, file_cleanupExpired, h.file]
  held m := by
    rw [held_maybeCleanup, held_maybeCleanup]
    exact h.held m

/-- Where the view is the same, the answers are. -/
theorem sameAnswers (h : SameView r s s') (sound : Sound home s.directory)
    (sound' : Sound home s'.directory) : SameAnswers r s s' where
  isLocked input := by
    rw [isLocked, isLocked, h.read]
  getLockInfo lockId input := by
    rw [getLockInfo, getLockInfo, h.read]
  acquire m request lockId cleanup input on := by
    subst on
    have hview := h.maybeCleanup cleanup
    rw [acquire_fst (sound_maybeCleanup sound cleanup),
      acquire_fst (sound_maybeCleanup sound' cleanup), hview.file]
    simp only [hview.held]
  release m owner := by
    have hother : s.ownedByOther r owner = s'.ownedByOther r owner := by
      unfold ownedByOther
      rw [h.read]
    have hby (owner : String) : s.ownedBy r owner = s'.ownedBy r owner := by
      rw [ownedBy, ownedBy, h.read]
    have hexists (s : FileLockManagers) : (s.directory.names.get? (lockPath r)).isSome
        = (s.directory.file (lockPath r)).isSome := Option.isSome_map.symm
    unfold release
    simp only [h.held m, hother, hby, hexists, h.file]
    split
    · split <;> rfl
    · cases owner with
      | none => rfl
      | some owner =>
        dsimp only
        split <;> rfl

end SameView

/-! ## Calls on another resource -/

variable {n : String}

theorem file_acquire (sound : Sound home s.directory) (ne : n ≠ lockPath request.resource)
    (m : ManagerId) (lockId : String) (input : FileInput) :
    (s.acquire m request lockId input).2.directory.file n = s.directory.file n := by
  have hsound := sound_clearStale sound input (lockPath request.resource)
  have hclear : (clearStale input (lockPath request.resource) s.directory).file n
      = s.directory.file n := file_clearStale ne
  obtain ⟨-, heq⟩ | ⟨-, ⟨-, heq⟩ | ⟨opened, hopens, hcase⟩⟩ :=
    s.acquire_cases m request lockId input
  · rw [heq]
    exact Directory.file_rewrite sound ne _
  · rw [heq]
    exact hclear
  · have hhome : n ≠ home (m, request.resource) := ne
    have hopened := (file_openLockFile hsound hopens hhome).trans hclear
    have hsound' := sound_openLockFile hsound hopens
    obtain ⟨-, heq⟩ | ⟨-, heq⟩ := hcase
    · rw [heq]
      exact (Directory.file_rewrite (hsound'.flock _) ne _).trans
        ((Directory.file_flock hsound' hhome).trans hopened)
    · rw [heq]
      exact (Directory.file_close hsound' hhome).trans hopened

theorem held_acquire (ne : r ≠ request.resource) (m m' : ManagerId) (lockId : String)
    (input : FileInput) :
    r ∈ (s.acquire m request lockId input).2.held m' ↔ r ∈ s.held m' := by
  obtain ⟨-, heq⟩ | ⟨-, ⟨-, heq⟩ | ⟨opened, -, ⟨-, heq⟩ | ⟨-, heq⟩⟩⟩ :=
    s.acquire_cases m request lockId input
  all_goals rw [heq]
  show r ∈ Function.update s.held m (insert request.resource (s.held m)) m' ↔ _
  by_cases hm : m' = m
  · subst hm
    rw [Function.update_self, Finset.mem_insert, or_iff_right ne]
  · rw [Function.update_of_ne hm]

theorem file_release (sound : Sound home s.directory) {resource : String}
    (ne : n ≠ lockPath resource) (m : ManagerId) (owner : Option String) :
    (s.release m resource owner).2.directory.file n = s.directory.file n := by
  have hhome : n ≠ home (m, resource) := ne
  unfold release
  split
  · split
    · rfl
    · exact (Directory.file_unlink ne).trans ((Directory.file_close (sound.unlock _) hhome).trans
        (Directory.file_unlock sound hhome))
  · split
    · split
      · exact Directory.file_unlink ne
      · rfl
    · exact Directory.file_unlink ne

theorem held_release {resource : String} (ne : r ≠ resource) (m m' : ManagerId)
    (owner : Option String) : r ∈ (s.release m resource owner).2.held m' ↔ r ∈ s.held m' := by
  unfold release
  split
  · split
    · exact Iff.rfl
    · show r ∈ Function.update s.held m ((s.held m).erase resource) m' ↔ _
      by_cases hm : m' = m
      · subst hm
        rw [Function.update_self, Finset.mem_erase, and_iff_right ne]
      · rw [Function.update_of_ne hm]
  · split
    · split <;> exact Iff.rfl
    · exact Iff.rfl

theorem file_extend (sound : Sound home s.directory) {resource : String}
    (ne : n ≠ lockPath resource) (m : ManagerId) (owner : String) (ttl : ℚ) (input : FileInput) :
    (s.extend m resource owner ttl input).2.directory.file n = s.directory.file n := by
  unfold extend
  split
  · split
    · rfl
    · split
      · rfl
      · exact Directory.file_rewrite sound ne _
  · rfl

theorem held_extend (m : ManagerId) (resource owner : String) (ttl : ℚ) (input : FileInput) :
    (s.extend m resource owner ttl input).2.held = s.held := by
  unfold extend
  split
  · split
    · rfl
    · split <;> rfl
  · rfl

/-- What a cleanup, where one is made, leaves of a lock file. -/
def leftOf (n : String) : Option (String → FileInput) →
    Option (Option FileLockInfo × Option FileHandle) →
    Option (Option FileLockInfo × Option FileHandle)
  | none, f => f
  | some input, f => cleaned (input n) f

theorem file_maybeCleanup (s : FileLockManagers) (cleanup : Option (String → FileInput))
    (n : String) :
    (s.maybeCleanup cleanup).directory.file n = leftOf n cleanup (s.directory.file n) := by
  cases cleanup with
  | none => rfl
  | some input => exact s.file_cleanupExpired input n

/-- **A call on a resource with another lock file** does to a file what its cleanup does. -/
theorem file_call (sound : Sound home s.directory) {r₁ : String} {c : FileLockCall} (on : c.On r₁)
    (ne : lockPath r ≠ lockPath r₁) (m : ManagerId) :
    (s.call m c).directory.file (lockPath r)
      = leftOf (lockPath r) c.cleanup (s.directory.file (lockPath r)) := by
  cases c with
  | acquire request lockId cleanup input =>
    obtain rfl := on
    rw [call, file_acquire (sound_maybeCleanup sound cleanup) ne, file_maybeCleanup]
    rfl
  | release resource owner =>
    obtain rfl := on
    exact file_release sound ne m owner
  | extend resource owner ttl input =>
    obtain rfl := on
    exact file_extend sound ne m owner ttl input
  | cleanupExpired input => exact s.file_cleanupExpired input _

/-- And the managers hold of the others what they held. -/
theorem held_call {r₁ : String} {c : FileLockCall} (on : c.On r₁) (ne : r ≠ r₁)
    (m m' : ManagerId) : r ∈ (s.call m c).held m' ↔ r ∈ s.held m' := by
  cases c with
  | acquire request lockId cleanup input =>
    obtain rfl := on
    rw [call, held_acquire ne, held_maybeCleanup]
  | release resource owner =>
    obtain rfl := on
    exact held_release ne m m' owner
  | extend resource owner ttl input => rw [call, held_extend]
  | cleanupExpired input => rw [call, held_cleanupExpired]

/-- A file that is spared by the cleanup of the call is left as it is, so the call may be looked
at without it. -/
theorem Spares.leftOf {c : FileLockCall} (h : Spares r s c) :
    FileLockManagers.leftOf (lockPath r) c.cleanup (s.directory.file (lockPath r))
      = s.directory.file (lockPath r) := by
  cases hcleanup : c.cleanup with
  | none => rfl
  | some input =>
    rw [FileLockManagers.leftOf]
    rcases hfile : s.directory.file (lockPath r) with - | ⟨contents, handle⟩
    · rfl
    · obtain ⟨info, rfl, hfresh⟩ := h input hcleanup contents handle hfile
      rw [cleaned, if_neg (by rw [hfresh]; exact Bool.false_ne_true)]

/-- A file that is not spared was there, and is gone. -/
theorem exists_file_of_not_spares {c : FileLockCall} (h : ¬ Spares r s c) :
    (s.directory.file (lockPath r)).isSome = true
      ∧ leftOf (lockPath r) c.cleanup (s.directory.file (lockPath r)) = none := by
  unfold Spares at h
  push Not at h
  obtain ⟨input, hcleanup, contents, handle, hfile, hstale⟩ := h
  rw [hfile, hcleanup, leftOf]
  refine ⟨rfl, ?_⟩
  cases contents with
  | none => rfl
  | some info => rw [cleaned, if_pos (Bool.eq_true_of_not_eq_false (hstale info rfl))]

/-- The held resources of the other managers are as they were. -/
theorem held_call_of_ne {m m' : ManagerId} (ne : m' ≠ m) (c : FileLockCall) :
    (s.call m c).held m' = s.held m' := by
  cases c with
  | acquire request lockId cleanup input =>
    rw [call, ← s.held_maybeCleanup cleanup]
    obtain ⟨-, heq⟩ | ⟨-, ⟨-, heq⟩ | ⟨opened, -, ⟨-, heq⟩ | ⟨-, heq⟩⟩⟩ :=
      (s.maybeCleanup cleanup).acquire_cases m request lockId input
    all_goals rw [heq]
    exact Function.update_of_ne ne _ _
  | release resource owner =>
    rw [call]
    unfold release
    split
    · split
      · rfl
      · exact Function.update_of_ne ne _ _
    · split
      · split <;> rfl
      · rfl
  | extend resource owner ttl input => rw [call, held_extend]
  | cleanupExpired input => rw [call, held_cleanupExpired]

/-- **There is always a manager that holds nothing.** There are more managers than calls, and one
that was never called has nothing. -/
theorem exists_held_eq_empty (pid : ManagerId → ProcessId)
    (cs : List (ManagerId × FileLockCall)) :
    ∃ m, (History.after step (start pid) cs).held m = ∅ := by
  have hlater : ∃ n, ∀ m, n ≤ m → (History.after step (start pid) cs).held m = ∅ := by
    refine History.invariant_of_kept (P := fun s : FileLockManagers =>
      ∃ n, ∀ m, n ≤ m → s.held m = ∅) ⟨0, fun _ _ => rfl⟩ (fun s c h => ?_) cs
    obtain ⟨n, hn⟩ := h
    refine ⟨max n (c.1 + 1), fun m hm => ?_⟩
    have hother : m ≠ c.1 := Nat.ne_of_gt (Nat.lt_of_succ_le (le_of_max_le_right hm))
    exact (held_call_of_ne hother c.2).trans (hn m (le_of_max_le_left hm))
  obtain ⟨n, hn⟩ := hlater
  exact ⟨n, hn n (le_refl n)⟩

/-- **The first attempt on an empty directory** locks the resource. -/
theorem isLocked_acquire_start (pid : ManagerId → ProcessId) (m : ManagerId)
    (r owner lockId : String) :
    ((start pid).acquire m ⟨r, owner, none, []⟩ lockId {}).2.isLocked r {} = true := by
  have hgranted : ((start pid).acquire m ⟨r, owner, none, []⟩ lockId {}).1.isSome = true := by
    have hfree : Lockable (m, r) (cleared {} ((start pid).directory.file (lockPath r))) :=
      Or.inl rfl
    rw [acquire_fst (.empty home), if_pos (Or.inr hfree)]
    rfl
  obtain ⟨hheld, -⟩ | ⟨-, ⟨-, heq⟩ | ⟨opened, hopens, ⟨hlock, heq⟩ | ⟨-, heq⟩⟩⟩ :=
    (start pid).acquire_cases m ⟨r, owner, none, []⟩ lockId {}
  · exact absurd hheld (Finset.notMem_empty _)
  · rw [heq] at hgranted
    cases hgranted
  · obtain ⟨i, hsec⟩ := (Directory.holdsOn_flock (refersTo_openLockFile hopens) hlock).rewrite
      (FileLockRequest.info ⟨r, owner, none, []⟩ 0 ((start pid).pid m))
    rw [heq]
    exact congrArg (fun read => Option.any (fun info => !FileLockInfo.isStale {} info) read)
      hsec.read
  · rw [heq] at hgranted
    cases hgranted

/-- **What a call is for a resource with another lock file**: the answers are as they were exactly
where the call spares the resource. A manager that holds nothing would be told of a file that is
gone. -/
theorem sameAnswers_call_iff (pid : ManagerId → ProcessId)
    (cs : List (ManagerId × FileLockCall)) {r₁ : String} {c : FileLockCall} (on : c.On r₁)
    (ne : lockPath r ≠ lockPath r₁) (m : ManagerId) :
    SameAnswers r (History.after step (start pid) cs)
        ((History.after step (start pid) cs).call m c)
      ↔ Spares r (History.after step (start pid) cs) c := by
  obtain ⟨m', hfree⟩ := exists_held_eq_empty pid cs
  have hsound := sound_after pid cs
  have hres : r ≠ r₁ := fun heq => ne (congrArg lockPath heq)
  generalize History.after step (start pid) cs = s at hfree hsound
  have hfile : (s.call m c).directory.file (lockPath r) = _ := file_call hsound on ne m
  have hheld := held_call (s := s) on hres m
  constructor
  · intro h
    by_contra hnot
    obtain ⟨hthere, hgone⟩ := exists_file_of_not_spares hnot
    have hnone : ∀ s : FileLockManagers, r ∉ s.held m' → (s.release m' r none).1
        = (s.directory.file (lockPath r)).isSome := by
      intro s hnot
      unfold release
      rw [if_neg hnot]
      exact Option.isSome_map.symm
    have hout : r ∉ s.held m' := by
      rw [hfree]
      exact Finset.notMem_empty r
    have hsame := h.release m' none
    rw [hnone s hout, hnone _ (fun hin => hout ((hheld m').mp hin)), hthere, hfile, hgone] at hsame
    cases hsame
  · intro hspares
    have hview : SameView r s (s.call m c) :=
      ⟨(hfile.trans hspares.leftOf).symm, fun m' => (hheld m').symm⟩
    exact hview.sameAnswers hsound (sound_call hsound m c)

/-- **Resources are independent exactly where their names are sanitised to different ones**, and a
call on the one leaves the answers for the other as they were exactly where it spares it. -/
theorem independent_iff (r₁ r₂ : String) :
    (Independent r₁ r₂ ↔ lockPath r₁ ≠ lockPath r₂)
      ∧ (lockPath r₁ ≠ lockPath r₂ →
        ∀ (pid : ManagerId → ProcessId) (cs : List (ManagerId × FileLockCall)) (m : ManagerId)
          (c : FileLockCall), c.On r₁ →
            (SameAnswers r₂ (History.after step (start pid) cs)
                ((History.after step (start pid) cs).call m c)
              ↔ Spares r₂ (History.after step (start pid) cs) c)) := by
  refine ⟨⟨fun h hpath => ?_, fun hne pid cs m c hon hspares => ?_⟩,
    fun hne pid cs m c hon => sameAnswers_call_iff pid cs hon (Ne.symm hne) m⟩
  · have hanswers := h id [] 0 (.acquire ⟨r₁, "a", none, []⟩ "1" none {}) rfl
      (fun _ hnone => by cases hnone)
    have hbefore : (start id).isLocked r₂ {} = false := rfl
    have hafter : ((start id).acquire 0 ⟨r₁, "a", none, []⟩ "1" {}).2.isLocked r₂ {} = true := by
      have hlocked := isLocked_acquire_start id 0 r₁ "a" "1"
      rw [isLocked, hpath] at hlocked
      exact hlocked
    have hsame : (start id).isLocked r₂ {}
        = ((start id).acquire 0 ⟨r₁, "a", none, []⟩ "1" {}).2.isLocked r₂ {} :=
      hanswers.isLocked {}
    rw [hbefore, hafter] at hsame
    cases hsame
  · exact (sameAnswers_call_iff pid cs hon (Ne.symm hne) m).mpr hspares

/-- **Names that clash, and a cleanup that is noticed.** `a/b` and `a_b` have one file: who acquires
the first is answered for the second, and who asks to release the second takes the file of the
first away. And the lock of `b` has expired: whoever acquires `a`, where that comes with a cleanup,
takes the file of `b` away, and a release of `b` that would have succeeded does not. -/
theorem clashing_names :
    ("a/b" ≠ "a_b" ∧ ¬ Independent "a/b" "a_b"
        ∧ ∃ s, s = (start id).step (0, .acquire ⟨"a/b", "a", none, []⟩ "1" none {})
          ∧ s.isLocked "a_b" {} = true
          ∧ (s.acquire 1 ⟨"a_b", "b", none, []⟩ "2" {}).1 = none
          ∧ (s.release 1 "a_b" (some "a")).1 = true
          ∧ (s.release 1 "a_b" (some "a")).2.isLocked "a/b" {} = false)
      ∧ ∃ s, s = (start id).step (0, .acquire ⟨"b", "o", some (.utcnow 1), []⟩ "1" none {})
        ∧ (s.release 1 "b" (some "o")).1 = true
        ∧ ((s.step (0, .acquire ⟨"a", "o", none, []⟩ "2" (some (fun _ => { now := 2 }))
          { now := 2 })).release 1 "b" (some "o")).1 = false := by
  refine ⟨⟨by decide, fun h => ?_, _, rfl, ?_, ?_, ?_, ?_⟩, _, rfl, ?_, ?_⟩
  · have hsame := (h id [] 0 (.acquire ⟨"a/b", "a", none, []⟩ "1" none {}) rfl
      (fun _ hnone => by cases hnone)).isLocked {}
    revert hsame
    decide +kernel
  all_goals decide +kernel

end FileLockManagers

end JobOrchestrator
