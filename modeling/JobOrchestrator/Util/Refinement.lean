import JobOrchestrator.Util.History

/-!
# Replies, and what a specification allows

A machine answers each call and goes on to a next state. A specification is a
relation: which replies a call may have in a state, and which states may come
after them. The machine refines it along a history where the calls, with the
replies they were given, are steps of the specification.

`allows_of_simulation` is the rule: a relation between the states of the two,
and one step of the specification for each admitted call.
-/

namespace Refinement

variable {σ τ ℓ ρ : Type*}

/-- The state after a call. -/
def next (call : σ → ℓ → ρ × σ) (s : σ) (l : ℓ) : σ := (call s l).2

/-- **The replies** to the calls of a history. -/
def replies (call : σ → ℓ → ρ × σ) : σ → List ℓ → List ρ
  | _, [] => []
  | s, l :: ls => (call s l).1 :: replies call (call s l).2 ls

/-- **A history of calls and replies that a specification allows**, from a state to a state. A
specification may answer in several ways, so this is a relation and not a function. -/
inductive Allows (spec : τ → ℓ → ρ → τ → Prop) : τ → List ℓ → List ρ → τ → Prop
  | nil (t : τ) : Allows spec t [] [] t
  | cons {t t' t'' : τ} {l : ℓ} {r : ρ} {ls : List ℓ} {rs : List ρ} (first : spec t l r t')
      (rest : Allows spec t' ls rs t'') : Allows spec t (l :: ls) (r :: rs) t''

variable {call : σ → ℓ → ρ × σ} {spec : τ → ℓ → ρ → τ → Prop}

@[simp] theorem replies_cons (s : σ) (l : ℓ) (ls : List ℓ) :
    replies call s (l :: ls) = (call s l).1 :: replies call (call s l).2 ls := rfl

/-- **The rule of simulation**: where every admitted call is a step of the specification from
each related state, and leads to a related one, the replies along a history are allowed. -/
theorem allows_of_simulation {R : σ → τ → Prop} {ok : σ → ℓ → Prop} {s : σ} {t : τ} {ls : List ℓ}
    (admitted : History.Admitted (next call) ok s ls) (start : R s t)
    (sim : ∀ s t l, R s t → ok s l → ∃ t', spec t l (call s l).1 t' ∧ R (call s l).2 t') :
    ∃ t', Allows spec t ls (replies call s ls) t' ∧ R (History.after (next call) s ls) t' := by
  induction ls generalizing s t with
  | nil => exact ⟨t, .nil t, start⟩
  | cons l ls ih =>
    obtain ⟨t₁, hstep, hnext⟩ := sim s t l start admitted.1
    obtain ⟨t', hrest, hend⟩ := ih admitted.2 hnext
    exact ⟨t', .cons hstep hrest, hend⟩

end Refinement
