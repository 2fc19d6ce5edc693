import Mathlib.Data.List.Count
import Mathlib.Data.List.Infix
import Mathlib.Logic.Relation
import Mathlib.Tactic.Ring

/-!
# Threads that take re-entrant locks

A thread's program is the sequence of acquisitions and releases it makes,
and the machine interleaves any family of programs: an acquisition waits
while another thread holds the lock, a thread that already holds it goes
on. What is verified is the classical lock-graph argument. A two-lock
deadlock needs two *different* threads of which one takes the second lock
inside the first and the other the first inside the second
(`Deadlock.nests`); and two threads that do so can be brought into the
deadlock (`deadlock_of_sections`), so the criterion is exact.

Programs come from `with` blocks. `Skeleton` is the syntax of a body that
locks by such blocks, with the choices that depend on data left open, and
`Skeleton.Trace` the sequences it can make. They are balanced, they never
release what they do not hold, and `Skeleton.within` decides whether one
lock is only ever taken inside another.
-/

/-- One action of a thread on a lock. -/
inductive LockOp (L : Type*)
  | acquire (l : L)
  | release (l : L)
  deriving DecidableEq

namespace LockOp

variable {L : Type*}

/-- The lock an action is about. -/
def lock : LockOp L → L
  | acquire l => l
  | release l => l

end LockOp

section Depth

variable {L : Type*} [DecidableEq L]

/-- How often a thread that made these actions holds a lock: re-entrant
acquisitions count. -/
def lockDepth (l : L) (t : List (LockOp L)) : ℤ :=
  t.count (.acquire l) - t.count (.release l)

@[simp] theorem lockDepth_nil (l : L) : lockDepth l [] = 0 := rfl

theorem lockDepth_append (l : L) (t u : List (LockOp L)) :
    lockDepth l (t ++ u) = lockDepth l t + lockDepth l u := by
  simp only [lockDepth, List.count_append]
  push_cast
  ring

theorem lockDepth_acquire (l l' : L) :
    lockDepth l [.acquire l'] = if l' = l then 1 else 0 := by
  by_cases h : l' = l
  · simp [lockDepth, h]
  · simp [lockDepth, h]

theorem lockDepth_release (l l' : L) :
    lockDepth l [.release l'] = if l' = l then -1 else 0 := by
  by_cases h : l' = l
  · simp [lockDepth, h]
  · simp [lockDepth, h]

/-- Actions on other locks do not count. -/
theorem lockDepth_of_forall_ne {l : L} {t : List (LockOp L)}
    (h : ∀ op ∈ t, op.lock ≠ l) : lockDepth l t = 0 := by
  have ha : t.count (.acquire l) = 0 :=
    List.count_eq_zero.mpr (fun hm => h _ hm rfl)
  have hr : t.count (.release l) = 0 :=
    List.count_eq_zero.mpr (fun hm => h _ hm rfl)
  rw [lockDepth, ha, hr]
  rfl

/-- **A program takes `b` inside `a`**: at some acquisition of `b` the thread
holds `a` and does not hold `b` yet. -/
def LockNests (a b : L) (p : List (LockOp L)) : Prop :=
  ∃ pre rest, p = pre ++ .acquire b :: rest
    ∧ 0 < lockDepth a pre ∧ lockDepth b pre ≤ 0

end Depth

/-- A beginning of a concatenation ends in its first part or in its second. -/
theorem prefix_append_cases {α : Type*} {pre t u : List α} (h : pre <+: t ++ u) :
    pre <+: t ∨ ∃ u', u' <+: u ∧ pre = t ++ u' := by
  obtain ⟨rest, hrest⟩ := h
  rcases List.append_eq_append_iff.mp hrest with ⟨v, ht, _⟩ | ⟨v, hpre, hu⟩
  · exact Or.inl ⟨v, ht.symm⟩
  · exact Or.inr ⟨v, ⟨rest, hu.symm⟩, hpre⟩

/-! ## Bodies made of `with` blocks -/

/-- **The locking of a body**: `with` blocks, sequences, branches and loops, with the conditions
of branches and loops left open. What the body does between the lock actions is left out, and
whichever way its branches go is a trace of it. -/
inductive Skeleton (L : Type*)
  /-- No locking. -/
  | skip
  /-- `with l: body`. -/
  | withLock (l : L) (body : Skeleton L)
  /-- One after the other. -/
  | seq (first second : Skeleton L)
  /-- A branch, or an exception that leaves the rest out. -/
  | alt (left right : Skeleton L)
  /-- A loop. -/
  | many (body : Skeleton L)

namespace Skeleton

variable {L : Type*}

/-- The sequences of lock actions a body can make. -/
inductive Trace : Skeleton L → List (LockOp L) → Prop
  | skip : Trace skip []
  | withLock {l : L} {body : Skeleton L} {t : List (LockOp L)} (h : Trace body t) :
      Trace (withLock l body) ([.acquire l] ++ (t ++ [.release l]))
  | seq {first second : Skeleton L} {t u : List (LockOp L)} (h : Trace first t)
      (h' : Trace second u) : Trace (seq first second) (t ++ u)
  | left {left right : Skeleton L} {t : List (LockOp L)} (h : Trace left t) :
      Trace (alt left right) t
  | right {left right : Skeleton L} {t : List (LockOp L)} (h : Trace right t) :
      Trace (alt left right) t
  | none {body : Skeleton L} : Trace (many body) []
  | once {body : Skeleton L} {t u : List (LockOp L)} (h : Trace body t)
      (h' : Trace (many body) u) : Trace (many body) (t ++ u)

variable [DecidableEq L]

/-- **`b` is only ever taken inside `a`.** It is read off the body, and decidable. -/
def within (a b : L) : Skeleton L → Bool
  | skip => true
  | withLock l body => l = a || (l ≠ b && within a b body)
  | seq first second => within a b first && within a b second
  | alt left right => within a b left && within a b right
  | many body => within a b body

/-- **A body releases all it takes.** The induction is over the body; a `with` block gives back
what it has taken. -/
theorem Trace.balanced {s : Skeleton L} {t : List (LockOp L)} (h : Trace s t)
    (l : L) : lockDepth l t = 0 := by
  induction h with
  | skip => rfl
  | withLock _ ih =>
    rw [lockDepth_append, lockDepth_append, ih, lockDepth_acquire, lockDepth_release]
    split <;> rfl
  | seq _ _ ih ih' => rw [lockDepth_append, ih, ih']; rfl
  | left _ ih => exact ih
  | right _ ih => exact ih
  | none => rfl
  | once _ _ ih ih' => rw [lockDepth_append, ih, ih']; rfl

omit [DecidableEq L] in
/-- What a `with` block has done before it ends: nothing, or its acquisition
and a beginning of its body – or all of it. -/
theorem prefix_withLock_cases {l : L} {t pre : List (LockOp L)}
    (h : pre <+: [LockOp.acquire l] ++ (t ++ [.release l])) :
    pre = [] ∨ (∃ u, u <+: t ∧ pre = [.acquire l] ++ u)
      ∨ pre = [.acquire l] ++ (t ++ [.release l]) := by
  rcases prefix_append_cases h with hp | ⟨u, hu, rfl⟩
  · rcases List.prefix_cons_iff.mp hp with rfl | ⟨u, rfl, hu⟩
    · exact Or.inl rfl
    · rw [List.prefix_nil.mp hu]
      exact Or.inr (Or.inl ⟨[], List.nil_prefix, rfl⟩)
  · rcases prefix_append_cases hu with hp | ⟨v, hv, rfl⟩
    · exact Or.inr (Or.inl ⟨u, hp, rfl⟩)
    · rcases List.prefix_cons_iff.mp hv with rfl | ⟨w, rfl, hw⟩
      · exact Or.inr (Or.inl ⟨t, List.prefix_rfl, by rw [List.append_nil]⟩)
      · rw [List.prefix_nil.mp hw]
        exact Or.inr (Or.inr rfl)

/-- **No beginning of a body has released more than it took.** -/
theorem Trace.depth_nonneg {s : Skeleton L} {t : List (LockOp L)} (h : Trace s t)
    (l : L) {pre : List (LockOp L)} (hpre : pre <+: t) : 0 ≤ lockDepth l pre := by
  induction h generalizing pre with
  | skip => rw [List.prefix_nil.mp hpre]; rfl
  | @withLock l' body t hb ih =>
    rcases prefix_withLock_cases hpre with rfl | ⟨u, hu, rfl⟩ | rfl
    · exact le_rfl
    · rw [lockDepth_append, lockDepth_acquire]
      have := ih hu
      split <;> omega
    · exact ((Trace.withLock hb).balanced l).ge
  | seq h₁ _ ih ih' | once h₁ _ ih ih' =>
    rcases prefix_append_cases hpre with hp | ⟨u, hu, rfl⟩
    · exact ih hp
    · rw [lockDepth_append, h₁.balanced, zero_add]
      exact ih' hu
  | left _ ih => exact ih hpre
  | right _ ih => exact ih hpre
  | none => rw [List.prefix_nil.mp hpre]; rfl

/-- **Inside `a` means: whoever holds `b` holds `a`.** The test on the body is decidable, so it
is evaluated for each operation. -/
theorem Trace.depth_pos_of_within {a b : L} {s : Skeleton L} {t : List (LockOp L)}
    (h : Trace s t) (hw : s.within a b = true) {pre : List (LockOp L)}
    (hpre : pre <+: t) (hb : 0 < lockDepth b pre) : 0 < lockDepth a pre := by
  induction h generalizing pre with
  | skip => rw [List.prefix_nil.mp hpre] at hb; exact absurd hb (lt_irrefl _)
  | @withLock l body t hbody ih =>
    rcases prefix_withLock_cases hpre with rfl | ⟨u, hu, rfl⟩ | rfl
    · exact absurd hb (lt_irrefl _)
    · rw [within, Bool.or_eq_true, Bool.and_eq_true, decide_eq_true_eq,
        decide_eq_true_eq] at hw
      rw [lockDepth_append, lockDepth_acquire] at hb ⊢
      rcases hw with hl | ⟨hl, hin⟩
      · -- the body itself is inside `a`
        have := hbody.depth_nonneg a hu
        rw [if_pos hl]
        omega
      · rw [if_neg hl, zero_add] at hb
        have := ih hin hu hb
        split <;> omega
    · rw [(Trace.withLock hbody).balanced b] at hb
      exact absurd hb (lt_irrefl _)
  | seq h₁ _ ih ih' =>
    rw [within, Bool.and_eq_true] at hw
    rcases prefix_append_cases hpre with hp | ⟨u, hu, rfl⟩
    · exact ih hw.1 hp hb
    · rw [lockDepth_append, h₁.balanced, zero_add] at hb ⊢
      exact ih' hw.2 hu hb
  | left _ ih => rw [within, Bool.and_eq_true] at hw; exact ih hw.1 hpre hb
  | right _ ih => rw [within, Bool.and_eq_true] at hw; exact ih hw.2 hpre hb
  | none => rw [List.prefix_nil.mp hpre] at hb; exact absurd hb (lt_irrefl _)
  | once h₁ _ ih ih' =>
    rcases prefix_append_cases hpre with hp | ⟨u, hu, rfl⟩
    · exact ih hw hp hb
    · rw [lockDepth_append, h₁.balanced, zero_add] at hb ⊢
      exact ih' hw hu hb

/-- A body that takes `b` inside `a` only does not take `a` inside `b`. -/
theorem Trace.not_nests_of_within {a b : L} {s : Skeleton L}
    {t : List (LockOp L)} (h : Trace s t) (hw : s.within a b = true) :
    ¬ LockNests b a t := by
  rintro ⟨pre, rest, rfl, hb, ha⟩
  exact absurd (h.depth_pos_of_within hw (List.prefix_append _ _) hb) (not_lt.mpr ha)

/-- **The first inner acquisition.** A body over the two locks alone that
takes `b` inside `a` begins with a stretch that is about `a` only and holds
it, and takes `b` next. -/
theorem Trace.first_nested {a b : L} (hab : a ≠ b) (only : ∀ l : L, l = a ∨ l = b)
    {s : Skeleton L} {t : List (LockOp L)} (h : Trace s t)
    (hw : s.within a b = true) (hn : LockNests a b t) :
    ∃ q r, t = q ++ .acquire b :: r ∧ (∀ op ∈ q, op.lock = a) ∧ 0 < lockDepth a q := by
  have hmem : LockOp.acquire b ∈ t := by
    obtain ⟨pre, rest, rfl, -, -⟩ := hn
    simp
  obtain ⟨q, r, rfl, hq⟩ := List.eq_append_cons_of_mem hmem
  have hacq : q.count (.acquire b) = 0 := List.count_eq_zero.mpr hq
  have hdepth := h.depth_nonneg b (List.prefix_append q (.acquire b :: r))
  rw [lockDepth, hacq] at hdepth
  have hrel : LockOp.release b ∉ q := List.count_eq_zero.mp (by omega)
  refine ⟨q, r, rfl, fun op hop => ?_, ?_⟩
  · refine (only op.lock).resolve_right (fun hb => ?_)
    cases op with
    | acquire l => exact hq (hb ▸ hop)
    | release l => exact hrel (hb ▸ hop)
  · have hpre : q ++ [LockOp.acquire b] <+: q ++ .acquire b :: r :=
      ⟨r, by rw [List.append_assoc]; rfl⟩
    have hpos := h.depth_pos_of_within hw hpre (by
      rw [lockDepth_append, lockDepth_acquire, if_pos rfl, lockDepth, hacq]
      omega)
    rwa [lockDepth_append, lockDepth_acquire, if_neg hab.symm, add_zero] at hpos

end Skeleton

/-- **A program of balanced pieces nests only where a piece does.** -/
theorem LockNests.of_flatten {L : Type*} [DecidableEq L] {a b : L}
    {ts : List (List (LockOp L))} (balanced : ∀ t ∈ ts, ∀ l, lockDepth l t = 0)
    (h : LockNests a b ts.flatten) : ∃ t ∈ ts, LockNests a b t := by
  induction ts with
  | nil =>
    obtain ⟨pre, rest, hp, -, -⟩ := h
    exact absurd hp (by simp)
  | cons t ts ih =>
    obtain ⟨pre, rest, hp, ha, hb⟩ := h
    rw [List.flatten_cons] at hp
    have later : ∀ pre', pre = t ++ pre' → ts.flatten = pre' ++ .acquire b :: rest →
        ∃ t' ∈ t :: ts, LockNests a b t' := by
      intro pre' hpre hts
      rw [hpre, lockDepth_append, balanced t List.mem_cons_self, zero_add] at ha hb
      obtain ⟨t', ht', hn⟩ := ih (fun u hu => balanced u (List.mem_cons_of_mem t hu))
        ⟨pre', rest, hts, ha, hb⟩
      exact ⟨t', List.mem_cons_of_mem t ht', hn⟩
    rcases List.append_eq_append_iff.mp hp with ⟨pre', hpre, hts⟩ | ⟨v, ht, hv⟩
    · exact later pre' hpre hts
    · cases v with
      | nil =>
        exact later [] (by rw [ht, List.append_nil, List.append_nil]) hv.symm
      | cons op v =>
        rw [List.cons_append, List.cons.injEq] at hv
        exact ⟨t, List.mem_cons_self, pre, v, by rw [ht, ← hv.1], ha, hb⟩

/-! ## The machine -/

/-- A thread: what it has done with locks and what it still will do. -/
structure LockThread (L : Type*) where
  /-- The actions made so far. -/
  done : List (LockOp L)
  /-- The actions still to make. -/
  rest : List (LockOp L)

/-- A state of the machine: a thread at every index. -/
abbrev LockState (ι L : Type*) := ι → LockThread L

namespace LockState

variable {ι L : Type*} [DecidableEq ι] [DecidableEq L]

/-- The state in which no thread has begun its program. -/
def start (p : ι → List (LockOp L)) : LockState ι L := fun i => ⟨[], p i⟩

/-- The thread holds the lock. -/
def Holds (s : LockState ι L) (i : ι) (l : L) : Prop := 0 < lockDepth l (s i).done

/-- The thread's next action is to acquire the lock. -/
def Wants (s : LockState ι L) (i : ι) (l : L) : Prop :=
  ∃ rest, (s i).rest = .acquire l :: rest

/-- The thread makes its next action. -/
def advance (s : LockState ι L) (i : ι) (op : LockOp L) (rest : List (LockOp L)) :
    LockState ι L :=
  Function.update s i ⟨(s i).done ++ [op], rest⟩

/-- **One step**: a release, or an acquisition of a lock that no other thread
holds. -/
inductive Step : LockState ι L → LockState ι L → Prop
  | acquire {s : LockState ι L} {i : ι} {l : L} {rest : List (LockOp L)}
      (next : (s i).rest = .acquire l :: rest)
      (free : ∀ j, j ≠ i → ¬ s.Holds j l) : Step s (s.advance i (.acquire l) rest)
  | release {s : LockState ι L} {i : ι} {l : L} {rest : List (LockOp L)}
      (next : (s i).rest = .release l :: rest) : Step s (s.advance i (.release l) rest)

/-- The states the programs can reach. Every interleaving is among them. -/
def Reachable (p : ι → List (LockOp L)) : LockState ι L → Prop :=
  Relation.ReflTransGen Step (start p)

/-- **A deadlock of two locks**: one thread holds `a` and waits for `b`,
another holds `b` and waits for `a`. -/
def Deadlock (s : LockState ι L) (a b : L) : Prop :=
  ∃ i j, i ≠ j ∧ s.Holds i a ∧ s.Wants i b ∧ s.Holds j b ∧ s.Wants j a

omit [DecidableEq L] in
theorem advance_self (s : LockState ι L) (i : ι) (op : LockOp L)
    (rest : List (LockOp L)) : s.advance i op rest i = ⟨(s i).done ++ [op], rest⟩ :=
  Function.update_self i _ s

omit [DecidableEq L] in
theorem advance_of_ne (s : LockState ι L) {i j : ι} (h : j ≠ i) (op : LockOp L)
    (rest : List (LockOp L)) : s.advance i op rest j = s j :=
  Function.update_of_ne h _ s

/-- **What a thread has done and will do is its program.** -/
theorem Reachable.program {p : ι → List (LockOp L)} {s : LockState ι L}
    (h : Reachable p s) (i : ι) : (s i).done ++ (s i).rest = p i := by
  induction h with
  | refl => rfl
  | tail _ hstep ih =>
    cases hstep with
    | @acquire i' l rest next free =>
      by_cases hi : i = i'
      · subst hi
        rw [advance_self, List.append_assoc, ← ih, next]
        rfl
      · rw [advance_of_ne _ hi]
        exact ih
    | @release i' l rest next =>
      by_cases hi : i = i'
      · subst hi
        rw [advance_self, List.append_assoc, ← ih, next]
        rfl
      · rw [advance_of_ne _ hi]
        exact ih

/-- **Mutual exclusion**: no two threads hold one lock. A lock is acquired only where no other
thread holds it. -/
theorem Reachable.exclusive {p : ι → List (LockOp L)} {s : LockState ι L}
    (h : Reachable p s) {i j : ι} {l : L} (hi : s.Holds i l) (hj : s.Holds j l) :
    i = j := by
  induction h generalizing i j l with
  | refl => exact absurd hi (lt_irrefl _)
  | @tail s u _ hstep ih =>
    -- a thread that did not move holds what it held before
    have stays : ∀ {k k' : ι} {op : LockOp L} {rest : List (LockOp L)} {m : L},
        k ≠ k' → (s.advance k' op rest).Holds k m → s.Holds k m := by
      intro k k' op rest m hk hh
      rwa [Holds, advance_of_ne _ hk] at hh
    cases hstep with
    | @acquire i' l' rest next free =>
      have moved : ∀ {m : L}, (s.advance i' (.acquire l') rest).Holds i' m →
          m = l' ∨ s.Holds i' m := by
        intro m hm
        rw [Holds, advance_self, lockDepth_append, lockDepth_acquire] at hm
        by_cases hml : l' = m
        · exact Or.inl hml.symm
        · rw [if_neg hml, add_zero] at hm
          exact Or.inr hm
      by_cases hi' : i = i'
      · by_cases hj' : j = i'
        · rw [hi', hj']
        · subst hi'
          rcases moved hi with rfl | hold
          · exact absurd (stays hj' hj) (free j hj')
          · exact ih hold (stays hj' hj)
      · by_cases hj' : j = i'
        · subst hj'
          rcases moved hj with rfl | hold
          · exact absurd (stays hi' hi) (free i hi')
          · exact ih (stays hi' hi) hold
        · exact ih (stays hi' hi) (stays hj' hj)
    | @release i' l' rest next =>
      -- a release takes no lock: who holds one now held it before
      have holds : ∀ {k : ι} {m : L}, (s.advance i' (.release l') rest).Holds k m →
          s.Holds k m := by
        intro k m hm
        by_cases hk : k = i'
        · subst hk
          rw [Holds, advance_self, lockDepth_append, lockDepth_release] at hm
          rw [Holds]
          split at hm <;> omega
        · exact stays hk hm
      exact ih (holds hi) (holds hj)

/-- **A deadlock comes from two threads that nest the locks in opposite
orders.** -/
theorem Deadlock.nests {p : ι → List (LockOp L)} {s : LockState ι L}
    (h : Reachable p s) {a b : L} (dead : s.Deadlock a b) :
    ∃ i j, i ≠ j ∧ LockNests a b (p i) ∧ LockNests b a (p j) := by
  obtain ⟨i, j, hij, hia, ⟨resti, hib⟩, hjb, ⟨restj, hja⟩⟩ := dead
  refine ⟨i, j, hij, ⟨(s i).done, resti, ?_, hia, ?_⟩, ⟨(s j).done, restj, ?_, hjb, ?_⟩⟩
  · rw [← hib, h.program i]
  · exact not_lt.mp (fun hi => hij (h.exclusive hi hjb))
  · rw [← hja, h.program j]
  · exact not_lt.mp (fun hj => hij (h.exclusive hia hj))

/-- **A thread runs a stretch of its program alone**, if no other thread holds
a lock the stretch is about. -/
theorem Reachable.run {p : ι → List (LockOp L)} {s : LockState ι L}
    (h : Reachable p s) (i : ι) {seg rest : List (LockOp L)}
    (next : (s i).rest = seg ++ rest)
    (free : ∀ op ∈ seg, ∀ j, j ≠ i → ¬ s.Holds j op.lock) :
    Reachable p (Function.update s i ⟨(s i).done ++ seg, rest⟩) := by
  induction seg generalizing s with
  | nil =>
    rw [List.append_nil, ← List.nil_append rest, ← next, Function.update_eq_self]
    exact h
  | cons op seg ih =>
    have hstep : Step s (s.advance i op (seg ++ rest)) := by
      cases op with
      | acquire l => exact .acquire next (free _ List.mem_cons_self)
      | release l => exact .release next
    have hnext : ((s.advance i op (seg ++ rest)) i).rest = seg ++ rest := by
      rw [advance_self]
    have hfree : ∀ op' ∈ seg, ∀ j, j ≠ i →
        ¬ (s.advance i op (seg ++ rest)).Holds j op'.lock := by
      intro op' hop j hj
      rw [Holds, advance_of_ne _ hj]
      exact free op' (List.mem_cons_of_mem _ hop) j hj
    have hrun := ih (Relation.ReflTransGen.tail h hstep) hnext hfree
    rw [advance_self, List.append_assoc, advance, Function.update_idem] at hrun
    exact hrun

/-- No thread holds any lock. -/
def Idle (s : LockState ι L) : Prop := ∀ i l, ¬ s.Holds i l

/-- **Balanced work leaves the machine idle**: where nobody holds a lock, a
thread can run a balanced stretch, and nobody holds a lock after it. -/
theorem Reachable.work {p : ι → List (LockOp L)} {s : LockState ι L}
    (h : Reachable p s) (idle : s.Idle) (i : ι) {w rest : List (LockOp L)}
    (next : (s i).rest = w ++ rest) (balanced : ∀ l, lockDepth l w = 0) :
    Reachable p (Function.update s i ⟨(s i).done ++ w, rest⟩)
      ∧ Idle (Function.update s i ⟨(s i).done ++ w, rest⟩) := by
  refine ⟨h.run i next (fun _ _ k _ => idle k _), fun k l hold => ?_⟩
  by_cases hk : k = i
  · rw [Holds, hk, Function.update_self, lockDepth_append, balanced, add_zero] at hold
    exact idle i l hold
  · rw [Holds, Function.update_of_ne hk] at hold
    exact idle k l hold

/-- **Opposite nestings deadlock from an idle machine.** Each of two threads
runs its outer section up to the inner acquisition: the first then holds `a`
only, so the second can still take `b`. -/
theorem Reachable.deadlock_of_idle {p : ι → List (LockOp L)} {s : LockState ι L}
    (h : Reachable p s) (idle : s.Idle) {a b : L} (hab : a ≠ b) {i j : ι} (hij : i ≠ j)
    {qi ri qj rj : List (LockOp L)} (hi : (s i).rest = qi ++ .acquire b :: ri)
    (hj : (s j).rest = qj ++ .acquire a :: rj) (oi : ∀ op ∈ qi, op.lock = a)
    (oj : ∀ op ∈ qj, op.lock = b) (di : 0 < lockDepth a ((s i).done ++ qi))
    (dj : 0 < lockDepth b ((s j).done ++ qj)) :
    ∃ u, Reachable p u ∧ u.Deadlock a b := by
  have h₁ := h.run i hi (fun _ _ k _ => idle k _)
  set u : LockState ι L := Function.update s i ⟨(s i).done ++ qi, .acquire b :: ri⟩ with hu
  have ui : u i = ⟨(s i).done ++ qi, .acquire b :: ri⟩ := Function.update_self _ _ _
  have uj : u j = s j := Function.update_of_ne hij.symm _ _
  have outer : lockDepth b qi = 0 :=
    lockDepth_of_forall_ne (fun op hop => by rw [oi op hop]; exact hab)
  have free : ∀ op ∈ qj, ∀ k, k ≠ j → ¬ u.Holds k op.lock := by
    intro op hop k _ hold
    rw [oj op hop] at hold
    by_cases hk : k = i
    · rw [Holds, hk, ui, lockDepth_append, outer, add_zero] at hold
      exact idle i b hold
    · rw [Holds, hu, Function.update_of_ne hk] at hold
      exact idle k b hold
  refine ⟨_, h₁.run j (by rw [uj]; exact hj) free, i, j, hij, ?_, ⟨ri, ?_⟩, ?_, ⟨rj, ?_⟩⟩
  · rw [Holds, Function.update_of_ne hij, ui]
    exact di
  · rw [Function.update_of_ne hij, ui]
  · rw [Holds, Function.update_self, uj]
    exact dj
  · rw [Function.update_self]

/-- **Opposite nestings can deadlock.** Two threads whose programs first do
balanced work, and then take the two locks one inside the other in opposite
orders, can both be brought to the inner acquisition. -/
theorem deadlock_of_sections {p : ι → List (LockOp L)} {a b : L} (hab : a ≠ b)
    {i j : ι} (hij : i ≠ j) {wi qi ri wj qj rj : List (LockOp L)}
    (hi : p i = wi ++ (qi ++ .acquire b :: ri)) (hj : p j = wj ++ (qj ++ .acquire a :: rj))
    (bi : ∀ l, lockDepth l wi = 0) (bj : ∀ l, lockDepth l wj = 0)
    (oi : ∀ op ∈ qi, op.lock = a) (oj : ∀ op ∈ qj, op.lock = b)
    (di : 0 < lockDepth a qi) (dj : 0 < lockDepth b qj) :
    ∃ s, Reachable p s ∧ s.Deadlock a b := by
  obtain ⟨h₁, idle₁⟩ := Reachable.work (p := p) (s := start p) Relation.ReflTransGen.refl
    (fun _ _ hold => absurd hold (lt_irrefl _)) i (w := wi) hi bi
  set u := Function.update (start p) i ⟨(start p i).done ++ wi, qi ++ .acquire b :: ri⟩
  have hui : u i = ⟨wi, qi ++ .acquire b :: ri⟩ := Function.update_self _ _ _
  have huj : u j = ⟨[], p j⟩ := Function.update_of_ne hij.symm _ _
  have hrest : (u j).rest = wj ++ (qj ++ .acquire a :: rj) := by rw [huj]; exact hj
  obtain ⟨h₂, idle₂⟩ := h₁.work idle₁ j hrest bj
  set v := Function.update u j ⟨(u j).done ++ wj, qj ++ .acquire a :: rj⟩
  have hvi : v i = ⟨wi, qi ++ .acquire b :: ri⟩ :=
    (Function.update_of_ne hij _ _).trans hui
  have hvj : v j = ⟨wj, qj ++ .acquire a :: rj⟩ := by
    rw [show v j = ⟨(u j).done ++ wj, qj ++ .acquire a :: rj⟩ from
      Function.update_self _ _ _, huj]
    rfl
  exact h₂.deadlock_of_idle idle₂ hab hij (by rw [hvi]) (by rw [hvj]) oi oj
    (by rw [hvi, lockDepth_append, bi, zero_add]; exact di)
    (by rw [hvj, lockDepth_append, bj, zero_add]; exact dj)

end LockState
