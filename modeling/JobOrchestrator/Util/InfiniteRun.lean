import Mathlib.Data.Nat.Count

/-!
# Infinite runs and progress

Safety is about finite runs, progress about infinite ones: a state and a label for every
number, each state by an admitted step from the one before.

What happens at last is said of properties of positions in the run. `LeadsTo P Q`: from every
position where `P` holds, `Q` holds there or later. There are two ways to a leads-to here: a
helpful step that comes again and again while `P` lasts, `of_fair`; and a quantity that cannot
decrease for ever, `of_measure`.

That there is a run at all is said by an invariant under which there always is a next step.
-/

variable {σ ℓ : Type*}

/-- **An infinite run**, every step of which is enabled and admitted. -/
structure InfiniteRun (step : σ → ℓ → Option σ) (ok : σ → ℓ → Prop) where
  state : ℕ → σ
  label : ℕ → ℓ
  guard : ∀ i, ok (state i) (label i)
  taken : ∀ i, step (state i) (label i) = some (state (i + 1))

/-- **From where the one holds, the other holds at last.** -/
def LeadsTo (P Q : ℕ → Prop) : Prop := ∀ i, P i → ∃ j, i ≤ j ∧ Q j

namespace LeadsTo

variable {P Q : ℕ → Prop}

/-- **Progress by a helpful step**: as long as nothing helpful happens `P` stays, something
helpful happens at last, and then `Q` holds. -/
theorem of_fair (helpful : ℕ → Prop)
    (persists : ∀ i, P i → ¬ helpful i → P (i + 1) ∨ Q (i + 1))
    (effect : ∀ i, P i → helpful i → Q (i + 1)) (fair : ∀ i, P i → ∃ j, i ≤ j ∧ helpful j) :
    LeadsTo P Q := by
  have hwithin : ∀ d i, P i → helpful (i + d) → ∃ j, i ≤ j ∧ Q j := by
    intro d
    induction d with
    | zero => exact fun i hi hhelp => ⟨i + 1, Nat.le_succ i, effect i hi hhelp⟩
    | succ d ih =>
      intro i hi hhelp
      by_cases hnow : helpful i
      · exact ⟨i + 1, Nat.le_succ i, effect i hi hnow⟩
      · rcases persists i hi hnow with hnext | hq
        · obtain ⟨j, hij, hj⟩ := ih (i + 1) hnext (by rwa [Nat.add_right_comm])
          exact ⟨j, (Nat.le_succ i).trans hij, hj⟩
        · exact ⟨i + 1, Nat.le_succ i, hq⟩
  intro i hi
  obtain ⟨j, hij, hhelp⟩ := fair i hi
  exact hwithin (j - i) i hi (by rwa [Nat.add_sub_cancel' hij])

/-- **Progress by a measure**: from every position where `P` holds with some measure, `Q` holds
at last, or `P` with a smaller one. -/
theorem of_measure {P : ℕ → ℕ → Prop}
    (progress : ∀ n i, P n i → ∃ j, i ≤ j ∧ (Q j ∨ ∃ n', n' < n ∧ P n' j)) (n : ℕ) :
    LeadsTo (P n) Q := by
  induction n using Nat.strong_induction_on with
  | _ n ih =>
    intro i hi
    obtain ⟨j, hij, hq | ⟨n', hless, hp⟩⟩ := progress n i hi
    · exact ⟨j, hij, hq⟩
    · obtain ⟨l, hjl, hl⟩ := ih n' hless j hp
      exact ⟨l, hij.trans hjl, hl⟩

end LeadsTo

namespace InfiniteRun

variable {step : σ → ℓ → Option σ} {ok : σ → ℓ → Prop} (r : InfiniteRun step ok)

/-- **A run from an invariant** under which there always is a next step, of the wanted kind. -/
theorem exists_of_invariant {I : ℕ → σ → Prop} {kind : ℕ → σ → ℓ → σ → Prop}
    (next : ∀ i s, I i s → ∃ l t, ok s l ∧ step s l = some t ∧ kind i s l t ∧ I (i + 1) t)
    {s : σ} (start : I 0 s) : ∃ r : InfiniteRun step ok, r.state 0 = s
      ∧ ∀ i, I i (r.state i) ∧ kind i (r.state i) (r.label i) (r.state (i + 1)) := by
  choose l t guard taken hkind hnext using next
  let point : (i : ℕ) → { s // I i s } :=
    Nat.rec ⟨s, start⟩ (fun i x => ⟨t i x.1 x.2, hnext i x.1 x.2⟩)
  exact ⟨⟨fun i => (point i).1, fun i => l i (point i).1 (point i).2,
    fun i => guard i _ (point i).2, fun i => taken i _ (point i).2⟩, rfl,
    fun i => ⟨(point i).2, hkind i _ (point i).2⟩⟩

/-- **How many of the steps before a position count.** -/
def tally (counts : σ → ℓ → σ → Bool) (i : ℕ) : ℕ :=
  Nat.count (fun j => counts (r.state j) (r.label j) (r.state (j + 1)) = true) i

@[simp] theorem tally_zero (counts : σ → ℓ → σ → Bool) : r.tally counts 0 = 0 := Nat.count_zero _

theorem tally_succ (counts : σ → ℓ → σ → Bool) (i : ℕ) : r.tally counts (i + 1)
    = r.tally counts i + (counts (r.state i) (r.label i) (r.state (i + 1))).toNat := by
  unfold tally
  rw [Nat.count_succ]
  cases counts (r.state i) (r.label i) (r.state (i + 1)) <;> rfl

/-- What no step counts as does not add up. -/
theorem tally_eq_zero {counts : σ → ℓ → σ → Bool}
    (none : ∀ i, counts (r.state i) (r.label i) (r.state (i + 1)) = false) (i : ℕ) :
    r.tally counts i = 0 := by
  induction i with
  | zero => exact r.tally_zero counts
  | succ i ih => rw [r.tally_succ, ih, none]; rfl

/-- **The latest of what the steps before a position give.** -/
def latest {α : Type*} (gives : σ → ℓ → Option α) : ℕ → Option α
  | 0 => none
  | i + 1 => (gives (r.state i) (r.label i)).or (latest gives i)

end InfiniteRun
