import Mathlib.Data.List.Basic

/-!
# Guarded runs of a labelled step function

A system is a partial step function `step : σ → ℓ → Option σ`: the label
says which party does what, and `none` says that the label is not enabled.
A **guarded run** takes enabled steps only, each from a state and with a
label that the guard admits. The guard is how a statement about "every run
in which …" is made: it is a condition on the state before the step and on
the step's label, and on nothing later.

`GuardedRun.invariant` is the induction every safety statement uses, and
`GuardedRun.of_replay` makes a run out of an evaluation.
-/

variable {σ ℓ : Type*}

/-- **A guarded run** from one state to another, with the labels it took. The guard sees the
state before the step, so it can say what is asked of those who take one; what must hold whoever
takes it belongs into `step`. -/
inductive GuardedRun (step : σ → ℓ → Option σ) (ok : σ → ℓ → Prop) :
    σ → List ℓ → σ → Prop
  /-- No step. -/
  | nil (s : σ) : GuardedRun step ok s [] s
  /-- One more enabled and admitted step. -/
  | snoc {s t u : σ} {ls : List ℓ} {l : ℓ} (run : GuardedRun step ok s ls t)
      (guard : ok t l) (taken : step t l = some u) :
      GuardedRun step ok s (ls ++ [l]) u

namespace GuardedRun

variable {step : σ → ℓ → Option σ} {ok : σ → ℓ → Prop}

/-- **Invariants by induction along the run**: what holds at the start and is
kept by every admitted step holds at the end. -/
theorem invariant {P : σ → Prop} {s t : σ} {ls : List ℓ}
    (run : GuardedRun step ok s ls t) (start : P s)
    (kept : ∀ s l t, P s → ok s l → step s l = some t → P t) : P t := by
  induction run with
  | nil => exact start
  | snoc _ guard taken ih => exact kept _ _ _ ih guard taken

/-- **Invariants that also speak of the labels taken so far.** -/
theorem invariant_labels {P : List ℓ → σ → Prop} {s t : σ} {ls : List ℓ}
    (run : GuardedRun step ok s ls t) (start : P [] s)
    (kept : ∀ ls s l t, P ls s → ok s l → step s l = some t → P (ls ++ [l]) t) :
    P ls t := by
  induction run with
  | nil => exact start
  | snoc _ guard taken ih => exact kept _ _ _ _ ih guard taken

/-- One step is a run. -/
theorem single {s t : σ} {l : ℓ} (guard : ok s l) (taken : step s l = some t) :
    GuardedRun step ok s [l] t :=
  snoc (nil s) guard taken

/-- Runs compose. -/
theorem append {s t u : σ} {ls ls' : List ℓ} (run : GuardedRun step ok s ls t)
    (run' : GuardedRun step ok t ls' u) : GuardedRun step ok s (ls ++ ls') u := by
  induction run' with
  | nil => rwa [List.append_nil]
  | snoc _ guard taken ih =>
    rw [← List.append_assoc]
    exact snoc ih guard taken

/-- A weaker guard admits more. So what is shown of the runs of a weak guard holds of those of a
strong one. -/
theorem mono {ok' : σ → ℓ → Prop} {s t : σ} {ls : List ℓ} (run : GuardedRun step ok s ls t)
    (weaker : ∀ s l, ok s l → ok' s l) : GuardedRun step ok' s ls t := by
  induction run with
  | nil => exact nil _
  | snoc _ guard taken ih => exact snoc ih (weaker _ _ guard) taken

/-- What all labels of a run are can be made part of its guard. -/
theorem and_labels {p : ℓ → Prop} {s t : σ} {ls : List ℓ} (run : GuardedRun step ok s ls t)
    (labels : ∀ l ∈ ls, p l) : GuardedRun step (fun s l => ok s l ∧ p l) s ls t := by
  induction run with
  | nil => exact nil _
  | snoc _ guard taken ih =>
    refine snoc (ih (fun l hl => labels l ?_)) ⟨guard, labels _ ?_⟩ taken
    · exact List.mem_append_left _ hl
    · exact List.mem_append_right _ List.mem_cons_self

/-- The last step of a run. -/
theorem exists_snoc {s u : σ} {ls : List ℓ} {l : ℓ} (run : GuardedRun step ok s (ls ++ [l]) u) :
    ∃ t, GuardedRun step ok s ls t ∧ ok t l ∧ step t l = some u := by
  generalize h : ls ++ [l] = ls' at run
  cases run with
  | nil => exact absurd h (by simp)
  | snoc run guard taken =>
    obtain ⟨rfl, hl⟩ := List.append_inj' h rfl
    cases hl
    exact ⟨_, run, guard, taken⟩

/-- Runs of the same labels end in the same state, whatever guards admit them. -/
theorem end_unique {ok' : σ → ℓ → Prop} {s t u : σ} {ls : List ℓ}
    (run : GuardedRun step ok s ls t) (run' : GuardedRun step ok' s ls u) : t = u := by
  induction run generalizing u with
  | nil =>
    generalize h : ([] : List ℓ) = ls' at run'
    cases run' with
    | nil => rfl
    | snoc _ _ _ => exact absurd h (by simp)
  | snoc _ _ taken ih =>
    obtain ⟨t', run₁, -, taken'⟩ := exists_snoc run'
    rw [ih run₁, taken'] at taken
    exact (Option.some.inj taken).symm

/-- **Where a guard is exactly what a step needs to keep a property**, the property holds at the
end of the runs that it admits, and of no others. -/
theorem holds_iff {P I : σ → Prop} {ok' : σ → ℓ → Prop} {s t : σ} {ls : List ℓ}
    (run : GuardedRun step ok s ls t) (inv : I s) (start : P s)
    (kept : ∀ s l t, I s → ok s l → step s l = some t → I t)
    (exact_step : ∀ s l t, I s → ok s l → step s l = some t → (P t ↔ P s ∧ ok' s l)) :
    P t ↔ GuardedRun step (fun s l => ok s l ∧ ok' s l) s ls t := by
  induction run with
  | nil => exact iff_of_true start (nil _)
  | snoc run guard taken ih =>
    rw [exact_step _ _ _ (run.invariant inv kept) guard taken, ih]
    constructor
    · rintro ⟨hrun, hok⟩
      exact snoc hrun ⟨guard, hok⟩ taken
    · intro hrun
      obtain ⟨t', run', ⟨-, hok⟩, -⟩ := exists_snoc hrun
      obtain rfl := end_unique run run'
      exact ⟨run', hok⟩

/-- Take the listed steps, checking the guard before each. -/
def replay (step : σ → ℓ → Option σ) (check : σ → ℓ → Bool) :
    σ → List ℓ → Option σ
  | s, [] => some s
  | s, l :: ls =>
    if check s l then (step s l).bind (fun t => replay step check t ls) else none

/-- **An evaluation that succeeds is a run.** This is how a concrete run is exhibited: the test
is evaluated. -/
theorem of_replay {check : σ → ℓ → Bool} (sound : ∀ s l, check s l = true → ok s l)
    {s t : σ} {ls : List ℓ} (h : replay step check s ls = some t) :
    GuardedRun step ok s ls t := by
  induction ls generalizing s with
  | nil =>
    rw [replay, Option.some.injEq] at h
    rw [← h]
    exact nil s
  | cons l ls ih =>
    rw [replay] at h
    split at h
    · rename_i hl
      obtain ⟨u, hu, hrest⟩ := Option.bind_eq_some_iff.mp h
      exact append (single (sound s l hl) hu) (ih hrest)
    · exact absurd h (by simp)

/-- A test that the end of an evaluation passes is passed at the end of a run. -/
theorem exists_of_replay {check : σ → ℓ → Bool} (sound : ∀ s l, check s l = true → ok s l)
    {s : σ} {ls : List ℓ} {test : σ → Bool} (h : (replay step check s ls).any test = true) :
    ∃ t, GuardedRun step ok s ls t ∧ test t = true := by
  obtain ⟨t, ht, htest⟩ := (Option.any_eq_true _ _).mp h
  exact ⟨t, of_replay sound ht, htest⟩

/-! ## Counting steps -/

/-- **How many of the listed steps count**, up to the first that is not enabled. -/
def tally (step : σ → ℓ → Option σ) (counts : σ → ℓ → σ → Bool) : σ → List ℓ → ℕ
  | _, [] => 0
  | s, l :: ls =>
    match step s l with
    | none => 0
    | some t => (if counts s l t then 1 else 0) + tally step counts t ls

variable {counts : σ → ℓ → σ → Bool}

theorem tally_append {s t : σ} {ls : List ℓ} (run : GuardedRun step ok s ls t) (ls' : List ℓ) :
    tally step counts s (ls ++ ls') = tally step counts s ls + tally step counts t ls' := by
  induction run generalizing ls' with
  | nil => exact (Nat.zero_add _).symm
  | snoc _ _ taken ih =>
    rw [List.append_assoc, ih, ih, List.singleton_append, tally, tally, taken, Nat.add_assoc]
    rfl

/-- **One more step** is counted, or is not. -/
theorem tally_snoc {s t u : σ} {ls : List ℓ} {l : ℓ} (run : GuardedRun step ok s ls t)
    (taken : step t l = some u) : tally step counts s (ls ++ [l])
      = tally step counts s ls + if counts t l u then 1 else 0 := by
  rw [tally_append run, tally, taken]
  rfl

end GuardedRun
