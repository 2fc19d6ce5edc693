import Mathlib.Data.List.Chain
import Mathlib.Logic.Relation

/-!
# Chains and cycles of a relation

Two things that are said of a point by where the steps of a relation lead to and from it: that a
cycle can be reached from it, and how long the chains are that end in it.

Each goes by one step: a cycle can be reached from a point just where it can be from one of those
it steps to (`reachesCycle_iff`), and a chain that ends in a point is one step longer than a
chain that ends in one of those it comes from (`chainTo_succ`). Where the longest chain that ends
in a point is finite its length is the height of the point, and a point on a cycle has no height.

A list in which every point has those it comes from in front of it is in the order of the relation.
No point of such a list is on a cycle.
-/

variable {V : Type*} {r : V → V → Prop} {S : Set V} {u v : V} {n : ℕ}

/-! ## Reaching a cycle -/

/-- **A cycle can be reached**, in any number of steps. -/
def ReachesCycle (r : V → V → Prop) (u : V) : Prop :=
  ∃ v, Relation.ReflTransGen r u v ∧ Relation.TransGen r v v

theorem ReachesCycle.of_onCycle (h : Relation.TransGen r u u) : ReachesCycle r u :=
  ⟨u, Relation.ReflTransGen.refl, h⟩

theorem ReachesCycle.head (h : r u v) (hv : ReachesCycle r v) : ReachesCycle r u := by
  obtain ⟨w, hreach, hcycle⟩ := hv
  exact ⟨w, hreach.head h, hcycle⟩

/-- **A cycle can be reached from a point just where it can be from one of the next.** -/
theorem reachesCycle_iff : ReachesCycle r u ↔ ∃ v, r u v ∧ ReachesCycle r v := by
  constructor
  · rintro ⟨w, hreach, hcycle⟩
    rcases hreach.cases_head with rfl | ⟨v, huv, hvw⟩
    · obtain ⟨v, huv, hvu⟩ := Relation.TransGen.head'_iff.mp hcycle
      exact ⟨v, huv, u, hvu, hcycle⟩
    · exact ⟨v, huv, w, hvw, hcycle⟩
  · rintro ⟨v, huv, hv⟩
    exact hv.head huv

/-- There is a cycle just where one can be reached from somewhere. -/
theorem exists_reachesCycle_iff : (∃ u, ReachesCycle r u) ↔ ∃ u, Relation.TransGen r u u := by
  constructor
  · rintro ⟨_, v, -, hcycle⟩
    exact ⟨v, hcycle⟩
  · rintro ⟨u, hcycle⟩
    exact ⟨u, ReachesCycle.of_onCycle hcycle⟩

/-! ## Paths -/

/-- From any point of a path, listed from its end back, the end can be reached. -/
theorem reflTransGen_of_isChain {path : List V} (edges : (u :: path).IsChain (fun a b => r b a))
    (h : v ∈ u :: path) : Relation.ReflTransGen r v u := by
  induction path generalizing u with
  | nil =>
    rw [List.mem_singleton.mp h]
  | cons w path ih =>
    obtain ⟨hstep, hrest⟩ := List.isChain_cons_cons.mp edges
    rcases List.mem_cons.mp h with rfl | hmem
    · exact Relation.ReflTransGen.refl
    · exact (ih hrest hmem).tail hstep

/-- A step from the end of a path back to a point of it closes a cycle. -/
theorem onCycle_of_isChain {path : List V} (edges : (u :: path).IsChain (fun a b => r b a))
    (h : v ∈ u :: path) (back : r u v) : Relation.TransGen r v v :=
  Relation.TransGen.tail' (reflTransGen_of_isChain edges h) back

/-! ## Chains that end in a point -/

/-- **A chain of `n` steps ends in `v`**: each of its points comes from the next, and the last is
one of `S`. With `S` the points without a predecessor, the longest such chain is the depth of
`v`. -/
inductive ChainTo (r : V → V → Prop) (S : Set V) : ℕ → V → Prop
  | start {v : V} (mem : v ∈ S) : ChainTo r S 0 v
  | step {n : ℕ} {u v : V} (before : ChainTo r S n u) (from_ : r v u) : ChainTo r S (n + 1) v

theorem chainTo_zero : ChainTo r S 0 v ↔ v ∈ S :=
  ⟨fun h => by cases h with | start mem => exact mem, ChainTo.start⟩

/-- **One step more.** -/
theorem chainTo_succ : ChainTo r S (n + 1) v ↔ ∃ u, r v u ∧ ChainTo r S n u := by
  constructor
  · intro h
    cases h with
    | step before from_ => exact ⟨_, from_, before⟩
  · rintro ⟨u, hvu, hu⟩
    exact hu.step hvu

/-- A chain may be cut at its beginning, where all its points are in the set. -/
theorem ChainTo.pred (closed : ∀ {u v}, r v u → v ∈ S) (h : ChainTo r S (n + 1) v) :
    ChainTo r S n v := by
  induction n generalizing v with
  | zero =>
    obtain ⟨u, hvu, -⟩ := chainTo_succ.mp h
    exact ChainTo.start (closed hvu)
  | succ n ih =>
    obtain ⟨u, hvu, hu⟩ := chainTo_succ.mp h
    exact (ih hu).step hvu

theorem ChainTo.mono (closed : ∀ {u v}, r v u → v ∈ S) {m : ℕ} (h : ChainTo r S n v)
    (hmn : m ≤ n) : ChainTo r S m v := by
  induction n with
  | zero => exact (Nat.le_zero.mp hmn) ▸ h
  | succ n ih =>
    rcases Nat.lt_or_ge n m with hlt | hle
    · exact (Nat.le_antisymm hmn hlt) ▸ h
    · exact ih (h.pred closed) hle

/-- **Chains of any length end on a cycle.** Going round once more makes it longer. -/
theorem chainTo_of_onCycle (closed : ∀ {u v}, r v u → v ∈ S) (h : Relation.TransGen r v v)
    (n : ℕ) : ChainTo r S n v := by
  have hall : ∀ n, ∀ v, Relation.TransGen r v v → ChainTo r S n v := by
    intro n
    induction n with
    | zero =>
      intro v hv
      obtain ⟨u, hvu, -⟩ := Relation.TransGen.head'_iff.mp hv
      exact ChainTo.start (closed hvu)
    | succ n ih =>
      intro v hv
      -- the point before `v` on the cycle is on it as well
      obtain ⟨u, hvu, huv⟩ := Relation.TransGen.head'_iff.mp hv
      exact (ih u (Relation.TransGen.tail' huv hvu)).step hvu
  exact hall n v h

/-- A numbering that every step lowers bounds the chains. -/
theorem ChainTo.le_of_lt {f : V → ℕ} (lowers : ∀ {u v}, r v u → f u < f v)
    (h : ChainTo r S n v) : n ≤ f v := by
  induction h with
  | start => exact Nat.zero_le _
  | step _ from_ ih => exact Nat.succ_le_of_lt (ih.trans_lt (lowers from_))

/-- **The height of a point**: the length of the longest chain that ends in it. -/
def HasHeight (r : V → V → Prop) (S : Set V) (v : V) (n : ℕ) : Prop :=
  ChainTo r S n v ∧ ∀ m, ChainTo r S m v → m ≤ n

/-- The chains of one step more tell where the longest ends. -/
theorem hasHeight_iff (closed : ∀ {u v}, r v u → v ∈ S) :
    HasHeight r S v n ↔ ChainTo r S n v ∧ ¬ ChainTo r S (n + 1) v := by
  refine and_congr_right (fun _ => ⟨fun h hlong => ?_, fun h m hm => ?_⟩)
  · exact absurd (h _ hlong) (Nat.not_succ_le_self n)
  · by_contra hlt
    exact h (hm.mono closed (Nat.succ_le_of_lt (Nat.lt_of_not_le hlt)))

/-! ## Lists in the order of a relation -/

/-- **The list is in order**: what a point comes from is in front of it. -/
def InOrder (r : V → V → Prop) (l : List V) : Prop :=
  ∀ before v after, l = before ++ v :: after → ∀ u, r v u → u ∈ before

theorem inOrder_nil : InOrder r [] := by
  intro before v after h
  simp at h

/-- A point goes to the end once what it comes from is in the list. -/
theorem InOrder.snoc {l : List V} (h : InOrder r l) (ready : ∀ u, r v u → u ∈ l) :
    InOrder r (l ++ [v]) := by
  intro before w after heq u hwu
  rcases List.eq_nil_or_concat after with rfl | ⟨after, last, rfl⟩
  · obtain ⟨rfl, hlast⟩ := List.append_inj' heq rfl
    obtain rfl : v = w := List.singleton_inj.mp hlast
    exact ready u hwu
  · have hsplit : l ++ [v] = (before ++ w :: after) ++ [last] := by
      rw [heq]
      simp
    obtain ⟨rfl, -⟩ := List.append_inj' hsplit rfl
    exact h before w after rfl u hwu

/-- **No point of a list in order is on a cycle**, if none is there twice. -/
theorem InOrder.not_onCycle {l : List V} (h : InOrder r l) (nodup : l.Nodup) (hv : v ∈ l) :
    ¬ Relation.TransGen r v v := by
  have hbefore : ∀ u w, Relation.TransGen r w u → ∀ before after, l = before ++ w :: after →
      u ∈ before := by
    intro u w hwu
    induction hwu with
    | single hstep => exact fun before after hl => h before w after hl _ hstep
    | tail _ hstep ih =>
      intro before after hl
      -- what comes before a point in front of `w` is in front of `w` as well
      obtain ⟨front, rest, rfl⟩ := List.append_of_mem (ih before after hl)
      have hin := h front _ (rest ++ w :: after) (by rw [hl]; simp) _ hstep
      exact List.mem_append_left _ hin
  intro hcycle
  obtain ⟨before, after, rfl⟩ := List.append_of_mem hv
  have hmem := hbefore v v hcycle before after rfl
  exact (List.nodup_append.mp nodup).2.2 v hmem v List.mem_cons_self rfl
