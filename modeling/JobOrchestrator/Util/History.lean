import Mathlib.Algebra.Order.Group.Nat
import Mathlib.Data.List.Basic

/-!
# Histories of a total step function

Where every label is enabled everywhere, a run is a start and a list of
labels. `History.after` is the state it ends in, `History.Admitted` says that
a guard holds before each of its steps, and `History.count` is how many of its
steps are of a kind.

`History.invariant` is the induction for what holds at the end of a history.
`History.count_add_le` is the one for what is counted along it: what goes out
is bounded by what came in where a stock pays for every step.
-/

namespace History

variable {σ ℓ : Type*} (step : σ → ℓ → σ)

/-- The state after the listed steps. -/
def after (s : σ) (ls : List ℓ) : σ := ls.foldl step s

/-- **The guard holds before each step.** Each guard is asked of the state that the calls before
it have led to. -/
def Admitted (ok : σ → ℓ → Prop) : σ → List ℓ → Prop
  | _, [] => True
  | s, l :: ls => ok s l ∧ Admitted ok (step s l) ls

/-- **How many of the steps are of a kind**, which is a test on the state before a
step and on its label. -/
def count (kind : σ → ℓ → Bool) : σ → List ℓ → ℕ
  | _, [] => 0
  | s, l :: ls => (kind s l).toNat + count kind (step s l) ls

variable {step}

instance decidableAdmitted {ok : σ → ℓ → Prop} [∀ s l, Decidable (ok s l)] :
    (s : σ) → (ls : List ℓ) → Decidable (Admitted step ok s ls)
  | _, [] => isTrue trivial
  | s, l :: ls =>
    have : Decidable (Admitted step ok (step s l) ls) := decidableAdmitted (step s l) ls
    inferInstanceAs (Decidable (ok s l ∧ Admitted step ok (step s l) ls))

@[simp] theorem after_nil (s : σ) : after step s [] = s := rfl

@[simp] theorem after_cons (s : σ) (l : ℓ) (ls : List ℓ) :
    after step s (l :: ls) = after step (step s l) ls := rfl

theorem after_append (s : σ) (ls ls' : List ℓ) :
    after step s (ls ++ ls') = after step (after step s ls) ls' :=
  List.foldl_append

theorem admitted_append {ok : σ → ℓ → Prop} (s : σ) (ls ls' : List ℓ) :
    Admitted step ok s (ls ++ ls')
      ↔ Admitted step ok s ls ∧ Admitted step ok (after step s ls) ls' := by
  induction ls generalizing s with
  | nil => exact ⟨fun h => ⟨trivial, h⟩, fun h => h.2⟩
  | cons l ls ih =>
    show ok s l ∧ Admitted step ok (step s l) (ls ++ ls') ↔ _
    rw [ih, ← and_assoc]
    rfl

/-- A weaker guard admits more. -/
theorem Admitted.mono {ok ok' : σ → ℓ → Prop} {s : σ} {ls : List ℓ}
    (h : Admitted step ok s ls) (weaker : ∀ s l, ok s l → ok' s l) : Admitted step ok' s ls := by
  induction ls generalizing s with
  | nil => exact trivial
  | cons l ls ih => exact ⟨weaker s l h.1, ih h.2⟩

/-- A guard on the labels alone is a condition on each of them. -/
theorem admitted_of_forall {ok : σ → ℓ → Prop} {s : σ} {ls : List ℓ}
    (h : ∀ l ∈ ls, ∀ s, ok s l) : Admitted step ok s ls := by
  induction ls generalizing s with
  | nil => exact trivial
  | cons l ls ih =>
    exact ⟨h l List.mem_cons_self s, ih (fun l' hl' => h l' (List.mem_cons_of_mem l hl'))⟩

/-- A guard and a condition on the labels. -/
theorem Admitted.and_forall {ok : σ → ℓ → Prop} {p : ℓ → Prop} {s : σ} {ls : List ℓ}
    (h : Admitted step ok s ls) (all : ∀ l ∈ ls, p l) :
    Admitted step (fun s l => ok s l ∧ p l) s ls := by
  induction ls generalizing s with
  | nil => exact trivial
  | cons l ls ih =>
    exact ⟨⟨h.1, all l List.mem_cons_self⟩,
      ih h.2 (fun l' hl' => all l' (List.mem_cons_of_mem l hl'))⟩

/-- **What holds at the start and is kept by every admitted step holds at the
end.** -/
theorem invariant {P : σ → Prop} {ok : σ → ℓ → Prop} {s : σ} {ls : List ℓ}
    (admitted : Admitted step ok s ls) (start : P s)
    (kept : ∀ s l, P s → ok s l → P (step s l)) : P (after step s ls) := by
  induction ls generalizing s with
  | nil => exact start
  | cons l ls ih => exact ih admitted.2 (kept s l start admitted.1)

/-- What every step keeps needs no guard. It is the rule for invariants that hold whatever is
called. -/
theorem invariant_of_kept {P : σ → Prop} {s : σ} (start : P s) (kept : ∀ s l, P s → P (step s l))
    (ls : List ℓ) : P (after step s ls) := by
  induction ls generalizing s with
  | nil => exact start
  | cons l ls ih => exact ih (kept s l start)

/-- What an invariant makes true of every step is true of each step of a history. -/
theorem admitted_of_invariant {I : σ → Prop} {ok : σ → ℓ → Prop} {s : σ} (inv : I s)
    (kept : ∀ s l, I s → I (step s l)) (holds : ∀ s l, I s → ok s l) (ls : List ℓ) :
    Admitted step ok s ls := by
  induction ls generalizing s with
  | nil => exact trivial
  | cons l ls ih => exact ⟨holds s l inv, ih (kept s l inv)⟩

/-- **Guards that agree where an invariant holds**, on the steps another guard admits, admit
the same of its histories. -/
theorem admitted_congr {I : σ → Prop} {ok₀ ok ok' : σ → ℓ → Prop} {s : σ} {ls : List ℓ}
    (admitted : Admitted step ok₀ s ls) (inv : I s) (kept : ∀ s l, I s → I (step s l))
    (agree : ∀ s l, I s → ok₀ s l → (ok s l ↔ ok' s l)) :
    Admitted step ok s ls ↔ Admitted step ok' s ls := by
  induction ls generalizing s with
  | nil => exact Iff.rfl
  | cons l ls ih => exact and_congr (agree s l inv admitted.1) (ih admitted.2 (kept s l inv))

/-- **What a step can lose and never give back** is there at the end of a history just where it
was there at the start and every step has met the guard. -/
theorem after_iff_admitted {P I : σ → Prop} {ok₀ ok : σ → ℓ → Prop}
    (exact_step : ∀ s l, I s → ok₀ s l → (P (step s l) ↔ P s ∧ ok s l))
    (kept : ∀ s l, I s → ok₀ s l → I (step s l)) {s : σ} {ls : List ℓ}
    (admitted : Admitted step ok₀ s ls) (inv : I s) :
    P (after step s ls) ↔ P s ∧ Admitted step ok s ls := by
  induction ls generalizing s with
  | nil => exact ⟨fun h => ⟨h, trivial⟩, fun h => h.1⟩
  | cons l ls ih =>
    rw [after_cons, ih admitted.2 (kept s l inv admitted.1), exact_step s l inv admitted.1,
      and_assoc]
    rfl

/-- **Where a guard is exactly what a step needs to keep a property**, on the steps another guard
admits, the property holds throughout those of its histories that the guard admits, and
throughout no others. The invariant it takes need be kept only by the steps that keep the
property. -/
theorem throughout_iff_of_kept {P I : σ → Prop} {ok₀ ok : σ → ℓ → Prop}
    (exact_step : ∀ s l, I s → ok₀ s l → P s → (P (step s l) ↔ ok s l))
    (kept : ∀ s l, I s → ok₀ s l → P s → P (step s l) → I (step s l)) {s : σ} {ls : List ℓ}
    (admitted : Admitted step ok₀ s ls) (inv : I s) (start : P s) :
    (∀ ds, ds <+: ls → P (after step s ds)) ↔ Admitted step ok s ls := by
  induction ls generalizing s with
  | nil =>
    refine ⟨fun _ => trivial, fun _ ds hds => ?_⟩
    rw [List.prefix_nil.mp hds]
    exact start
  | cons l ls ih =>
    have hstep := exact_step s l inv admitted.1 start
    constructor
    · intro h
      have hnext : P (step s l) := h [l] (List.cons_prefix_cons.mpr ⟨rfl, List.nil_prefix⟩)
      refine ⟨hstep.mp hnext, ?_⟩
      exact (ih admitted.2 (kept s l inv admitted.1 start hnext) hnext).mp
        (fun ds hds => h (l :: ds) (List.cons_prefix_cons.mpr ⟨rfl, hds⟩))
    · rintro ⟨hok, hrest⟩ ds hds
      have hnext : P (step s l) := hstep.mpr hok
      cases ds with
      | nil => exact start
      | cons l' ds =>
        obtain ⟨rfl, hds'⟩ := List.cons_prefix_cons.mp hds
        exact (ih admitted.2 (kept s l' inv admitted.1 start hnext) hnext).mpr hrest ds hds'

/-- The same, with an invariant that every step keeps. -/
theorem throughout_iff_of_admitted {P I : σ → Prop} {ok₀ ok : σ → ℓ → Prop}
    (exact_step : ∀ s l, I s → ok₀ s l → P s → (P (step s l) ↔ ok s l))
    (kept : ∀ s l, I s → ok₀ s l → I (step s l)) {s : σ} {ls : List ℓ}
    (admitted : Admitted step ok₀ s ls) (inv : I s) (start : P s) :
    (∀ ds, ds <+: ls → P (after step s ds)) ↔ Admitted step ok s ls :=
  throughout_iff_of_kept exact_step (fun s l hI hok _ _ => kept s l hI hok) admitted inv start

/-- The same of all histories. The one direction is that a step which keeps the property meets
its guard, the other the induction over the history. -/
theorem throughout_iff_admitted {P I : σ → Prop} {ok : σ → ℓ → Prop}
    (exact_step : ∀ s l, I s → P s → (P (step s l) ↔ ok s l))
    (kept : ∀ s l, I s → I (step s l)) {s : σ} (inv : I s) (start : P s) (ls : List ℓ) :
    (∀ ds, ds <+: ls → P (after step s ds)) ↔ Admitted step ok s ls := by
  have hall : Admitted step (fun _ _ => True) s ls := admitted_of_forall (fun _ _ _ => trivial)
  exact throughout_iff_of_admitted (fun s l hI _ => exact_step s l hI) (fun s l hI _ => kept s l hI)
    hall inv start

/-- **The ledger rule.** Where a stock pays, at every admitted step, for what goes out
with what comes in, what goes out along a history and the stock left at its end are at most
the stock at its start and what came in. -/
theorem count_add_le {P : σ → Prop} {ok : σ → ℓ → Prop} {out into : σ → ℓ → Bool}
    (stock : σ → ℕ) {s : σ} {ls : List ℓ} (admitted : Admitted step ok s ls) (start : P s)
    (kept : ∀ s l, P s → ok s l → P (step s l)
      ∧ (out s l).toNat + stock (step s l) ≤ stock s + (into s l).toNat) :
    count step out s ls + stock (after step s ls) ≤ stock s + count step into s ls := by
  induction ls generalizing s with
  | nil => exact le_of_eq (by rw [count, count, after_nil, Nat.zero_add, Nat.add_zero])
  | cons l ls ih =>
    obtain ⟨hnext, hpaid⟩ := kept s l start admitted.1
    have hrest := ih admitted.2 hnext
    rw [count, count, after_cons]
    omega

/-- What no admitted step is, no step of the history is. -/
theorem count_eq_zero {P : σ → Prop} {ok : σ → ℓ → Prop} {kind : σ → ℓ → Bool} {s : σ}
    {ls : List ℓ} (admitted : Admitted step ok s ls) (start : P s)
    (kept : ∀ s l, P s → ok s l → P (step s l) ∧ kind s l = false) :
    count step kind s ls = 0 := by
  induction ls generalizing s with
  | nil => rfl
  | cons l ls ih =>
    obtain ⟨hnext, hkind⟩ := kept s l start admitted.1
    rw [count, hkind, ih admitted.2 hnext]
    rfl

end History
