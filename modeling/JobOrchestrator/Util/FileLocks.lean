import Mathlib.Logic.Function.Basic
import JobOrchestrator.Util.OrderedDict

/-!
# A directory of files with advisory locks

Files are found by name, and locked by inode: a name can be unlinked and given to a
new file while a handle on the old one is open, and a lock on the old file excludes
nobody who opens the new one. So a handle holds the lock **on a name** –
`Directory.HoldsOn` – only as long as the name still stands for the file it
opened.

The rules say which operations leave a handle that: all operations on other
handles, and every unlinking of a name that does not stand for the handle's file.
Two handles never hold the lock on one name, `Directory.HoldsOn.unique`.

Names, handles and contents are of any type; contents that cannot be read count as
none.
-/

namespace FileLocks

/-- The number of a file. -/
abbrev Inode := ℕ

variable {ν η α : Type} [DecidableEq ν] [DecidableEq η]

/-- **A directory**, the handles that are open and the locks. A lock belongs to the file and not
to its name: a file that was unlinked keeps its lock, and a new one under the same name has none.
-/
structure Directory (ν η α : Type) where
  names : OrderedDict ν Inode
  contents : Inode → Option α
  /-- The next new file. -/
  next : Inode
  /-- The file a handle is open on. -/
  opened : η → Option Inode
  /-- The handle that has the exclusive lock on a file. -/
  locks : Inode → Option η

namespace Directory

/-- An empty directory. -/
def empty : Directory ν η α where
  names := OrderedDict.empty
  contents _ := none
  next := 0
  opened _ := none
  locks _ := none

variable (d : Directory ν η α)

/-! ## The operations -/

/-- A new file is another one, so what is secured is not on it. -/
def create (n : ν) : Directory ν η α :=
  { d with
    names := d.names.set n d.next
    contents := Function.update d.contents d.next none
    next := d.next + 1 }

/-- Open in mode `x`: the file is created; it must not exist. -/
def openExclusive (n : ν) (h : η) : Option (Directory ν η α) :=
  match d.names.get? n with
  | some _ => none
  | none => some { d.create n with opened := Function.update d.opened h (some d.next) }

/-- Open in mode `r+`: the file must exist. -/
def openExisting (n : ν) (h : η) : Option (Directory ν η α) :=
  (d.names.get? n).map (fun i => { d with opened := Function.update d.opened h (some i) })

/-- Open in mode `w`: the file is emptied, or created. -/
def openTruncate (n : ν) : Inode × Directory ν η α :=
  match d.names.get? n with
  | some i => (i, { d with contents := Function.update d.contents i none })
  | none => (d.next, d.create n)

/-- Write the contents of a file, and close. -/
def write (i : Inode) (a : α) : Directory ν η α :=
  { d with contents := Function.update d.contents i (some a) }

/-- Read the contents of the file of that name, where it exists and can be read. -/
def read (n : ν) : Option α := (d.names.get? n).bind d.contents

/-- Lock the file of a handle, without waiting. It gets the lock of a file that has none, or is
refused. -/
def flock (h : η) : Bool × Directory ν η α :=
  match d.opened h with
  | none => (false, d)
  | some i =>
    if d.locks i = none ∨ d.locks i = some h then
      (true, { d with locks := Function.update d.locks i (some h) })
    else (false, d)

/-- Take the lock back that a handle has. -/
def unlock (h : η) : Directory ν η α :=
  match d.opened h with
  | none => d
  | some i =>
    if d.locks i = some h then { d with locks := Function.update d.locks i none } else d

/-- Close a handle, which takes its lock back. -/
def close (h : η) : Directory ν η α :=
  { d.unlock h with opened := Function.update d.opened h none }

/-- Take a name out of the directory. Handles on the file stay open. -/
def unlink (n : ν) : Directory ν η α := { d with names := d.names.erase n }

/-! ## Handles and names -/

variable {d} {d' d'' : Directory ν η α} {n n' : ν} {h h' : η}

/-- **The handle is on the file that the name stands for.** -/
def RefersTo (d : Directory ν η α) (h : η) (n : ν) : Prop :=
  ∃ i, d.opened h = some i ∧ d.names.get? n = some i

/-- **The handle has the lock on the file that the name stands for.** -/
def HoldsOn (d : Directory ν η α) (h : η) (n : ν) : Prop :=
  ∃ i, d.opened h = some i ∧ d.names.get? n = some i ∧ d.locks i = some h

omit [DecidableEq η] in
theorem HoldsOn.refersTo (hold : d.HoldsOn h n) : d.RefersTo h n := by
  obtain ⟨i, hopened, hname, -⟩ := hold
  exact ⟨i, hopened, hname⟩

omit [DecidableEq η] in
/-- **Two handles never hold the lock on one name.** -/
theorem HoldsOn.unique (hold : d.HoldsOn h n) (hold' : d.HoldsOn h' n) : h = h' := by
  obtain ⟨i, -, hname, hlock⟩ := hold
  obtain ⟨i', -, hname', hlock'⟩ := hold'
  rw [hname, Option.some.injEq] at hname'
  rw [← hname', hlock, Option.some.injEq] at hlock'
  exact hlock'

/-- **An operation spares a handle**: it is on the names it was on, and has the locks it had. An
operation that spares a handle cannot take from it what it has secured. -/
structure Spares (h : η) (d d' : Directory ν η α) : Prop where
  refersTo : ∀ n, d.RefersTo h n → d'.RefersTo h n
  holdsOn : ∀ n, d.HoldsOn h n → d'.HoldsOn h n

omit [DecidableEq η] in
theorem Spares.refl (h : η) (d : Directory ν η α) : Spares h d d := ⟨fun _ => id, fun _ => id⟩

omit [DecidableEq η] in
/-- What keeps the file of a handle, the names that stand for it, and the lock that the
handle has on it. -/
theorem spares_of (opened : d'.opened h = d.opened h)
    (names : ∀ n i, d.opened h = some i → d.names.get? n = some i → d'.names.get? n = some i)
    (locks : ∀ i, d.opened h = some i → d.locks i = some h → d'.locks i = some h) :
    Spares h d d' where
  refersTo n href := by
    obtain ⟨i, hopened, hname⟩ := href
    exact ⟨i, opened.trans hopened, names n i hopened hname⟩
  holdsOn n hhold := by
    obtain ⟨i, hopened, hname, hlock⟩ := hhold
    exact ⟨i, opened.trans hopened, names n i hopened hname, locks i hopened hlock⟩

omit [DecidableEq η] in
/-- A new name takes no other away: the files of the others stay what they are. -/
theorem get?_create (absent : d.names.get? n = none) {i : Inode}
    (hname : d.names.get? n' = some i) : (d.create n).names.get? n' = some i := by
  have hne : n' ≠ n := by
    rintro rfl
    rw [absent] at hname
    cases hname
  exact (OrderedDict.get?_set_ne _ _ hne).trans hname

theorem spares_openExclusive (ne : h' ≠ h) (opens : d.openExclusive n h = some d') :
    Spares h' d d' := by
  unfold openExclusive at opens
  split at opens
  · cases opens
  · rename_i habsent
    cases opens
    refine spares_of (Function.update_of_ne ne _ _) (fun n' i _ hname => ?_)
      (fun _ _ hlock => hlock)
    exact get?_create habsent hname

theorem spares_openExisting (ne : h' ≠ h) (opens : d.openExisting n h = some d') :
    Spares h' d d' := by
  obtain ⟨i, -, rfl⟩ := Option.map_eq_some_iff.mp opens
  exact spares_of (Function.update_of_ne ne _ _) (fun _ _ _ hname => hname) (fun _ _ hlock => hlock)

omit [DecidableEq η] in
theorem spares_openTruncate (h : η) (n : ν) (d : Directory ν η α) :
    Spares h d (d.openTruncate n).2 := by
  unfold openTruncate
  split
  · exact spares_of rfl (fun _ _ _ hname => hname) (fun _ _ hlock => hlock)
  · rename_i habsent
    exact spares_of rfl (fun n' i _ hname => get?_create habsent hname) (fun _ _ hlock => hlock)

omit [DecidableEq η] in
theorem spares_write (h : η) (i : Inode) (a : α) (d : Directory ν η α) : Spares h d (d.write i a) :=
  spares_of rfl (fun _ _ _ hname => hname) (fun _ _ hlock => hlock)

theorem spares_flock (h h' : η) (d : Directory ν η α) : Spares h' d (d.flock h).2 := by
  unfold flock
  split
  · exact .refl h' d
  · rename_i i hopened
    split
    · rename_i hfree
      refine spares_of rfl (fun _ _ _ hname => hname) (fun i' _ hlock => ?_)
      show Function.update d.locks i (some h) i' = some h'
      by_cases hi : i' = i
      · -- the lock is taken only where it is free, or one's own already
        rw [hi] at hlock ⊢
        rw [Function.update_self]
        rw [hlock] at hfree
        exact (hfree.resolve_left (Option.some_ne_none h')).symm
      · rw [Function.update_of_ne hi]
        exact hlock
    · exact .refl h' d

theorem spares_unlock (ne : h' ≠ h) (d : Directory ν η α) : Spares h' d (d.unlock h) := by
  unfold unlock
  split
  · exact .refl h' d
  · rename_i i hopened
    split
    · rename_i hown
      refine spares_of rfl (fun _ _ _ hname => hname) (fun i' _ hlock => ?_)
      show Function.update d.locks i none i' = some h'
      by_cases hi : i' = i
      · rw [hi, hown, Option.some.injEq] at hlock
        exact absurd hlock.symm ne
      · rw [Function.update_of_ne hi]
        exact hlock
    · exact .refl h' d

omit [DecidableEq η] in
theorem Spares.trans (s : Spares h d d') (s' : Spares h d' d'') : Spares h d d'' :=
  ⟨fun n href => s'.refersTo n (s.refersTo n href), fun n hhold => s'.holdsOn n (s.holdsOn n hhold)⟩

theorem spares_close (ne : h' ≠ h) (d : Directory ν η α) : Spares h' d (d.close h) := by
  refine (spares_unlock ne d).trans (spares_of ?_ (fun _ _ _ hname => hname)
    (fun _ _ hlock => hlock))
  show Function.update d.opened h none h' = (d.unlock h).opened h'
  rw [Function.update_of_ne ne]
  unfold unlock
  split
  · rfl
  · split <;> rfl

omit [DecidableEq η] in
/-- **Unlinking a name spares the handles that are not on its file.** -/
theorem spares_unlink (elsewhere : ¬ d.RefersTo h n) : Spares h d (d.unlink n) := by
  refine spares_of rfl (fun n' i hopened hname => ?_) (fun _ _ hlock => hlock)
  have hne : n' ≠ n := by
    rintro rfl
    exact elsewhere ⟨i, hopened, hname⟩
  exact (OrderedDict.get?_erase_ne _ hne).trans hname

/-! ## Opening and locking -/

theorem refersTo_openExclusive (opens : d.openExclusive n h = some d') : d'.RefersTo h n := by
  unfold openExclusive at opens
  split at opens
  · cases opens
  · cases opens
    exact ⟨d.next, Function.update_self _ _ _, OrderedDict.get?_set_self _ _ _⟩

theorem refersTo_openExisting (opens : d.openExisting n h = some d') : d'.RefersTo h n := by
  obtain ⟨i, hname, rfl⟩ := Option.map_eq_some_iff.mp opens
  exact ⟨i, Function.update_self _ _ _, hname⟩

/-- **A handle that locks its file** holds the lock on the names that stand for it. -/
theorem holdsOn_flock (href : d.RefersTo h n) (locks : (d.flock h).1 = true) :
    (d.flock h).2.HoldsOn h n := by
  obtain ⟨i, hopened, hname⟩ := href
  unfold flock at locks ⊢
  rw [hopened] at locks ⊢
  simp only at locks ⊢
  split at locks
  · rename_i hfree
    rw [if_pos hfree]
    exact ⟨i, hopened, hname, Function.update_self _ _ _⟩
  · cases locks

/-! ## Directories as they come about

Each handle has a home, the one name that it is ever opened by. -/

/-- **What every operation keeps**: names stand for files that were made, no two for one, a
handle is on no file but that of its home, and a file that is yet to be made is not
locked. -/
structure Sound (home : η → ν) (d : Directory ν η α) : Prop where
  below : ∀ n i, d.names.get? n = some i → i < d.next
  injective : ∀ n n' i, d.names.get? n = some i → d.names.get? n' = some i → n = n'
  opened : ∀ h i, d.opened h = some i → i < d.next
  homed : ∀ h n i, d.opened h = some i → d.names.get? n = some i → n = home h
  unlocked : ∀ i, d.next ≤ i → d.locks i = none

/-- What a changed handle is on. -/
theorem update_eq_some {f : η → Option Inode} {v : Option Inode} {i : Inode}
    (ho : Function.update f h v h' = some i) : h' = h ∧ v = some i ∨ h' ≠ h ∧ f h' = some i := by
  by_cases hh : h' = h
  · subst hh
    rw [Function.update_self] at ho
    exact Or.inl ⟨rfl, ho⟩
  · rw [Function.update_of_ne hh] at ho
    exact Or.inr ⟨hh, ho⟩

namespace Sound

variable {home : η → ν}

omit [DecidableEq η] in
theorem empty (home : η → ν) : Sound home (.empty : Directory ν η α) where
  below n i h := by cases h
  injective n n' i h := by cases h
  opened h i ho := by cases ho
  homed h n i ho := by cases ho
  unlocked i _ := rfl

omit [DecidableEq η] in
theorem unlink (s : Sound home d) (n : ν) : Sound home (d.unlink n) := by
  have hold {n' : ν} {i : Inode} (h : (d.unlink n).names.get? n' = some i) :
      d.names.get? n' = some i := by
    have h' : (d.names.erase n).get? n' = some i := h
    rw [OrderedDict.get?_erase] at h'
    split at h'
    · cases h'
    · exact h'
  exact ⟨fun n' i h => s.below n' i (hold h),
    fun n₁ n₂ i h₁ h₂ => s.injective n₁ n₂ i (hold h₁) (hold h₂), s.opened,
    fun h n' i ho hn => s.homed h n' i ho (hold hn), s.unlocked⟩

omit [DecidableEq η] in
theorem create (s : Sound home d) (n : ν) : Sound home (d.create n) := by
  have hname {n' : ν} {i : Inode} (h : (d.create n).names.get? n' = some i) :
      n' = n ∧ i = d.next ∨ d.names.get? n' = some i := by
    obtain ⟨rfl, rfl⟩ | ⟨-, h⟩ := OrderedDict.get?_set_eq_some h
    · exact Or.inl ⟨rfl, rfl⟩
    · exact Or.inr h
  refine ⟨fun n' i h => ?_, fun n₁ n₂ i h₁ h₂ => ?_, fun h i ho => ?_, fun h n' i ho hn => ?_,
    fun i hi => s.unlocked i (Nat.le_of_succ_le hi)⟩
  · obtain ⟨-, rfl⟩ | h := hname h
    · exact Nat.lt_succ_self _
    · exact Nat.lt_succ_of_lt (s.below n' i h)
  · -- the new file has no other name, as it is new
    obtain ⟨rfl, rfl⟩ | hold₁ := hname h₁
    · obtain ⟨rfl, -⟩ | hold₂ := hname h₂
      · rfl
      · exact absurd (s.below _ _ hold₂) (Nat.lt_irrefl _)
    · obtain ⟨rfl, rfl⟩ | hold₂ := hname h₂
      · exact absurd (s.below _ _ hold₁) (Nat.lt_irrefl _)
      · exact s.injective _ _ _ hold₁ hold₂
  · exact Nat.lt_succ_of_lt (s.opened h i ho)
  · obtain ⟨-, rfl⟩ | hn := hname hn
    · exact absurd (s.opened h _ ho) (Nat.lt_irrefl _)
    · exact s.homed h n' i ho hn

theorem openExclusive (s : Sound home d) (hn : home h = n)
    (opens : d.openExclusive n h = some d') : Sound home d' := by
  unfold Directory.openExclusive at opens
  split at opens
  · cases opens
  · cases opens
    have hcreated := s.create n
    have hname : (d.create n).names.get? n = some d.next := OrderedDict.get?_set_self _ _ _
    refine ⟨hcreated.below, hcreated.injective, fun h' i ho => ?_, fun h' n' i ho hi => ?_,
      hcreated.unlocked⟩
    · obtain ⟨-, hi⟩ | ⟨-, ho⟩ := update_eq_some ho
      · cases hi
        exact Nat.lt_succ_self _
      · exact hcreated.opened h' i ho
    · obtain ⟨rfl, hi'⟩ | ⟨-, ho⟩ := update_eq_some ho
      · cases hi'
        exact (hcreated.injective _ _ _ hi hname).trans hn.symm
      · exact hcreated.homed h' n' i ho hi

theorem openExisting (s : Sound home d) (hn : home h = n)
    (opens : d.openExisting n h = some d') : Sound home d' := by
  obtain ⟨i₀, hname, rfl⟩ := Option.map_eq_some_iff.mp opens
  refine ⟨s.below, s.injective, fun h' i ho => ?_, fun h' n' i ho hi => ?_, s.unlocked⟩
  · obtain ⟨-, hi⟩ | ⟨-, ho⟩ := update_eq_some ho
    · cases hi
      exact s.below n _ hname
    · exact s.opened h' i ho
  · obtain ⟨rfl, hi'⟩ | ⟨-, ho⟩ := update_eq_some ho
    · cases hi'
      exact (s.injective _ _ _ hi hname).trans hn.symm
    · exact s.homed h' n' i ho hi

omit [DecidableEq η] in
theorem write (s : Sound home d) (i : Inode) (a : α) : Sound home (d.write i a) :=
  ⟨s.below, s.injective, s.opened, s.homed, s.unlocked⟩

omit [DecidableEq η] in
theorem openTruncate (s : Sound home d) (n : ν) : Sound home (d.openTruncate n).2 := by
  unfold Directory.openTruncate
  split
  · exact ⟨s.below, s.injective, s.opened, s.homed, s.unlocked⟩
  · exact s.create n

/-- Whoever locks a file locks one that was made. -/
theorem flock (s : Sound home d) (h : η) : Sound home (d.flock h).2 := by
  unfold Directory.flock
  split
  · exact s
  · rename_i i hopened
    split
    · refine ⟨s.below, s.injective, s.opened, s.homed, fun i' hi' => ?_⟩
      show Function.update d.locks i (some h) i' = none
      rw [Function.update_of_ne (Nat.ne_of_gt (Nat.lt_of_lt_of_le (s.opened h i hopened) hi'))]
      exact s.unlocked i' hi'
    · exact s

theorem unlock (s : Sound home d) (h : η) : Sound home (d.unlock h) := by
  unfold Directory.unlock
  split
  · exact s
  · rename_i i hopened
    split
    · refine ⟨s.below, s.injective, s.opened, s.homed, fun i' hi' => ?_⟩
      show Function.update d.locks i none i' = none
      rw [Function.update_of_ne (Nat.ne_of_gt (Nat.lt_of_lt_of_le (s.opened h i hopened) hi'))]
      exact s.unlocked i' hi'
    · exact s

theorem close (s : Sound home d) (h : η) : Sound home (d.close h) := by
  have hunlocked := s.unlock h
  have hold {h' : η} {i : Inode} (ho : (d.close h).opened h' = some i) :
      (d.unlock h).opened h' = some i := by
    have hsame : (d.unlock h).opened = d.opened := by
      unfold Directory.unlock
      split
      · rfl
      · split <;> rfl
    obtain ⟨-, hnone⟩ | ⟨-, ho⟩ := update_eq_some ho
    · cases hnone
    · rw [hsame]
      exact ho
  exact ⟨hunlocked.below, hunlocked.injective, fun h' i ho => hunlocked.opened h' i (hold ho),
    fun h' n i ho hn => hunlocked.homed h' n i (hold ho) hn, hunlocked.unlocked⟩

end Sound

/-! ## Contents behind a lock -/

/-- **A handle secures contents**: it has the lock on the file that the name stands for, and
these are in it. -/
structure Secures (d : Directory ν η α) (h : η) (n : ν) (i : Inode) (a : α) : Prop where
  opened : d.opened h = some i
  name : d.names.get? n = some i
  lock : d.locks i = some h
  contents : d.contents i = some a

namespace Secures

variable {home : η → ν} {i : Inode} {a : α}

omit [DecidableEq η] in
theorem read (s : d.Secures h n i a) : d.read n = some a := by
  rw [Directory.read, s.name]
  exact s.contents

omit [DecidableEq η] in
/-- No other handle secures the file, for it has one lock. -/
theorem unique {i' : Inode} {a' : α} (s : d.Secures h n i a) (s' : d.Secures h' n' i' a')
    (same : n = n') : h = h' := by
  subst same
  exact HoldsOn.unique ⟨i, s.opened, s.name, s.lock⟩ ⟨i', s'.opened, s'.name, s'.lock⟩

omit [DecidableEq η] in
theorem unlink (s : d.Secures h n i a) (ne : n ≠ n') : (d.unlink n').Secures h n i a :=
  ⟨s.opened, (OrderedDict.get?_erase_ne _ ne).trans s.name, s.lock, s.contents⟩

omit [DecidableEq η] in
/-- A new file is another one. -/
theorem create (s : d.Secures h n i a) (sound : Sound home d) (absent : d.names.get? n' = none) :
    (d.create n').Secures h n i a := by
  have hne : i ≠ d.next := Nat.ne_of_lt (sound.below n i s.name)
  exact ⟨s.opened, get?_create absent s.name, s.lock,
    (Function.update_of_ne hne _ _).trans s.contents⟩

theorem openExclusive (s : d.Secures h n i a) (sound : Sound home d) (ne : h ≠ h')
    (opens : d.openExclusive n' h' = some d') : d'.Secures h n i a := by
  unfold Directory.openExclusive at opens
  split at opens
  · cases opens
  · rename_i habsent
    cases opens
    have hcreated := s.create sound habsent
    exact ⟨(Function.update_of_ne ne _ _).trans s.opened, hcreated.name, hcreated.lock,
      hcreated.contents⟩

theorem openExisting (s : d.Secures h n i a) (ne : h ≠ h')
    (opens : d.openExisting n' h' = some d') : d'.Secures h n i a := by
  obtain ⟨i', -, rfl⟩ := Option.map_eq_some_iff.mp opens
  exact ⟨(Function.update_of_ne ne _ _).trans s.opened, s.name, s.lock, s.contents⟩

/-- **Locking takes no lock away.** -/
theorem flock (s : d.Secures h n i a) (h' : η) : (d.flock h').2.Secures h n i a := by
  unfold Directory.flock
  split
  · exact s
  · rename_i i' hopened
    split
    · rename_i hfree
      refine ⟨s.opened, s.name, ?_, s.contents⟩
      show Function.update d.locks i' (some h') i = some h
      by_cases hi : i = i'
      · subst hi
        rw [s.lock] at hfree
        rw [Function.update_self]
        exact (hfree.resolve_left (Option.some_ne_none h)).symm
      · rw [Function.update_of_ne hi]
        exact s.lock
    · exact s

/-- A file that is locked by one handle is not locked by another. -/
theorem flock_refused (s : d.Secures h n i a) (ne : h ≠ h') (on : d.opened h' = some i) :
    (d.flock h').1 = false := by
  unfold Directory.flock
  rw [on]
  simp only [s.lock, Option.some.injEq, ne, or_self, if_false, reduceCtorEq]

theorem unlock (s : d.Secures h n i a) (ne : h ≠ h') : (d.unlock h').Secures h n i a := by
  unfold Directory.unlock
  split
  · exact s
  · rename_i i' hopened
    split
    · rename_i hlocked
      refine ⟨s.opened, s.name, ?_, s.contents⟩
      have hne : i ≠ i' := by
        rintro rfl
        exact ne (Option.some.inj (s.lock.symm.trans hlocked))
      exact (Function.update_of_ne hne _ _).trans s.lock
    · exact s

theorem close (s : d.Secures h n i a) (ne : h ≠ h') : (d.close h').Secures h n i a := by
  have hunlocked := s.unlock ne
  exact ⟨(Function.update_of_ne ne _ _).trans s.opened, hunlocked.name, hunlocked.lock,
    hunlocked.contents⟩

omit [DecidableEq η] in
/-- **Writing under another name** leaves the contents. Different names stand for different
files, which soundness says. -/
theorem rewrite (s : d.Secures h n i a) (sound : Sound home d) (ne : n ≠ n') (a' : α) :
    ((d.openTruncate n').2.write (d.openTruncate n').1 a').Secures h n i a := by
  unfold Directory.openTruncate
  split
  · rename_i i' hname
    have hi : i ≠ i' := by
      rintro rfl
      exact ne (sound.injective _ _ _ s.name hname)
    refine ⟨s.opened, s.name, s.lock, ?_⟩
    exact (Function.update_of_ne hi _ _).trans ((Function.update_of_ne hi _ _).trans s.contents)
  · rename_i habsent
    have hcreated := s.create sound habsent
    have hi : i ≠ d.next := Nat.ne_of_lt (sound.below n i s.name)
    exact ⟨s.opened, hcreated.name, s.lock,
      (Function.update_of_ne hi _ _).trans hcreated.contents⟩

end Secures

omit [DecidableEq η] in
/-- **Who has the lock on a name secures what it writes.** -/
theorem HoldsOn.rewrite (hold : d.HoldsOn h n) (a : α) :
    ∃ i, ((d.openTruncate n).2.write (d.openTruncate n).1 a).Secures h n i a := by
  obtain ⟨i, hopened, hname, hlock⟩ := hold
  refine ⟨i, ?_⟩
  unfold Directory.openTruncate
  rw [hname]
  exact ⟨hopened, hname, hlock, Function.update_self _ _ _⟩

omit [DecidableEq η] in
theorem Secures.holdsOn {i : Inode} {a : α} (s : d.Secures h n i a) : d.HoldsOn h n :=
  ⟨i, s.opened, s.name, s.lock⟩

/-! ## The file of a name -/

/-- **What a name stands for**: the contents of the file, and the handle that has it locked. -/
def file (d : Directory ν η α) (n : ν) : Option (Option α × Option η) :=
  (d.names.get? n).map (fun i => (d.contents i, d.locks i))

omit [DecidableEq η] in
theorem read_eq_file (d : Directory ν η α) (n : ν) : d.read n = (d.file n).bind Prod.fst := by
  rw [read, file]
  cases d.names.get? n <;> rfl

omit [DecidableEq η] in
/-- The same name for the same file, which is as it was. -/
theorem file_congr (names : d'.names.get? n = d.names.get? n)
    (same : ∀ i, d.names.get? n = some i → d'.contents i = d.contents i ∧ d'.locks i = d.locks i) :
    d'.file n = d.file n := by
  rw [file, file, names]
  refine Option.map_congr (fun i hi => ?_)
  obtain ⟨hcontents, hlocks⟩ := same i hi
  rw [hcontents, hlocks]

omit [DecidableEq η] in
@[simp] theorem file_unlink_self (d : Directory ν η α) (n : ν) : (d.unlink n).file n = none := by
  rw [file, unlink, OrderedDict.get?_erase, if_pos rfl, Option.map_none]

omit [DecidableEq η] in
theorem file_unlink (ne : n ≠ n') : (d.unlink n').file n = d.file n :=
  file_congr (OrderedDict.get?_erase_ne _ ne) (fun _ _ => ⟨rfl, rfl⟩)

section Sound

variable {home : η → ν}

omit [DecidableEq η] in
/-- A new file of another name. -/
theorem file_create (s : Sound home d) (ne : n ≠ n') : (d.create n').file n = d.file n := by
  refine file_congr (OrderedDict.get?_set_ne _ _ ne) (fun i hi => ⟨?_, rfl⟩)
  exact Function.update_of_ne (Nat.ne_of_lt (s.below n i hi)) _ _

theorem file_openExclusive (s : Sound home d) (ne : n ≠ n')
    (opens : d.openExclusive n' h = some d') : d'.file n = d.file n := by
  unfold openExclusive at opens
  split at opens
  · cases opens
  · cases opens
    exact file_create s ne

theorem file_openExisting (opens : d.openExisting n' h = some d') : d'.file n = d.file n := by
  obtain ⟨i, -, rfl⟩ := Option.map_eq_some_iff.mp opens
  rfl

omit [DecidableEq η] in
/-- **Writing under another name.** -/
theorem file_rewrite (s : Sound home d) (ne : n ≠ n') (a : α) :
    ((d.openTruncate n').2.write (d.openTruncate n').1 a).file n = d.file n := by
  unfold openTruncate
  split
  · rename_i i' hname
    refine file_congr rfl (fun i hi => ⟨?_, rfl⟩)
    have hne : i ≠ i' := by
      rintro rfl
      exact ne (s.injective _ _ _ hi hname)
    exact (Function.update_of_ne hne _ _).trans (Function.update_of_ne hne _ _)
  · rw [← file_create s ne]
    refine file_congr rfl (fun i hi => ⟨?_, rfl⟩)
    have hi' : d.names.get? n = some i := (OrderedDict.get?_set_ne _ _ ne).symm.trans hi
    exact Function.update_of_ne (Nat.ne_of_lt (s.below n i hi')) _ _

omit [DecidableEq η] in
/-- What a handle does to the lock of its file is nothing to the file of another name. -/
theorem file_update_locks (s : Sound home d) (ne : n ≠ home h) {i : Inode}
    (hopened : d.opened h = some i) (l : Option η) :
    file { d with locks := Function.update d.locks i l } n = d.file n := by
  refine file_congr rfl (fun i' hi' => ⟨rfl, ?_⟩)
  have hne : i' ≠ i := by
    rintro rfl
    exact ne (s.homed h n i' hopened hi')
  exact Function.update_of_ne hne _ _

theorem file_flock (s : Sound home d) (ne : n ≠ home h) : (d.flock h).2.file n = d.file n := by
  unfold flock
  split
  · rfl
  · rename_i i hopened
    split
    · exact file_update_locks s ne hopened _
    · rfl

theorem file_unlock (s : Sound home d) (ne : n ≠ home h) : (d.unlock h).file n = d.file n := by
  unfold unlock
  split
  · rfl
  · rename_i i hopened
    split
    · exact file_update_locks s ne hopened _
    · rfl

theorem file_close (s : Sound home d) (ne : n ≠ home h) : (d.close h).file n = d.file n :=
  file_unlock s ne

/-! A handle that opens the file of a name can lock it where the file is locked by nobody, or by
the handle. -/

/-- **Whether a handle gets the lock on a file** that it has opened. -/
theorem flock_of_refersTo (href : d.RefersTo h n) :
    (d.flock h).1 = (d.file n).any (fun f => decide (f.2 = none ∨ f.2 = some h)) := by
  obtain ⟨i, hopened, hname⟩ := href
  rw [flock, file, hopened, hname]
  simp only [Option.map_some, Option.any_some]
  split
  · rename_i hfree
    exact (decide_eq_true hfree).symm
  · rename_i htaken
    exact (decide_eq_false htaken).symm

omit [DecidableEq η] in
/-- A file that was not there before is locked by nobody. -/
theorem file_create_self (s : Sound home d) (n : ν) : (d.create n).file n = some (none, none) := by
  rw [file, create, OrderedDict.get?_set_self, Option.map_some]
  show some (Function.update d.contents d.next none d.next, d.locks d.next) = some (none, none)
  rw [Function.update_self, s.unlocked d.next (Nat.le_refl _)]

end Sound

end Directory

end FileLocks
