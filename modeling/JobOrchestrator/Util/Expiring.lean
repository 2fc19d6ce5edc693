import Mathlib.Logic.Function.Basic
import Mathlib.Order.Basic

/-!
# Tables whose entries end

An entry of a table lives up to some time. A store that drops an ended entry when it comes across
it, at any time or never, cannot be told from one that drops none, as long as only living entries
are asked for: it `Forgets` nothing else.

What lives at a time is a parameter; it is asked only that what lives at a time has lived before.
-/

namespace Expiring

variable {κ ν τ : Type*}

/-- **The store has forgotten only what has ended**: what it has is in the table, and what lives
in the table it has. When it forgets, and on which occasions it looks, makes no difference to
anybody who asks for what lives. -/
structure Forgets (lives : τ → ν → Prop) (t : τ) (store table : κ → Option ν) : Prop where
  sub : ∀ k v, store k = some v → table k = some v
  kept : ∀ k v, table k = some v → lives t v → store k = some v

/-- A living entry of the key. -/
def Present (lives : τ → ν → Prop) (t : τ) (table : κ → Option ν) (k : κ) : Prop :=
  ∃ v, table k = some v ∧ lives t v

variable {lives : τ → ν → Prop} {t t' : τ} {store store' table : κ → Option ν}

/-- Nothing is forgotten. -/
theorem Forgets.refl (lives : τ → ν → Prop) (t : τ) (table : κ → Option ν) :
    Forgets lives t table table :=
  ⟨fun _ _ h => h, fun _ _ h _ => h⟩

/-- **Forgetting more** of what has ended. This is what a cleanup does, at whatever moment. -/
theorem Forgets.trans (h : Forgets lives t store table) (h' : Forgets lives t store' store) :
    Forgets lives t store' table where
  sub k v hv := h.sub k v (h'.sub k v hv)
  kept k v hv live := h'.kept k v (h.kept k v hv live) live

/-- A key that is written in both, or taken out of both. -/
theorem Forgets.assign [DecidableEq κ] (h : Forgets lives t store table) {k : κ} {x : Option ν}
    (written : ∀ k', store' k' = if k' = k then x else store k') :
    Forgets lives t store' (Function.update table k x) where
  sub k' v hv := by
    rw [written] at hv
    rw [Function.update_apply]
    split at hv
    · rename_i hk
      rw [if_pos hk]
      exact hv
    · rename_i hk
      rw [if_neg hk]
      exact h.sub k' v hv
  kept k' v hv live := by
    rw [Function.update_apply] at hv
    rw [written]
    split at hv
    · rename_i hk
      rw [if_pos hk]
      exact hv
    · rename_i hk
      rw [if_neg hk]
      exact h.kept k' v hv live

section Ending

variable [Preorder τ] (ends : ∀ t t' v, t ≤ t' → lives t' v → lives t v)
include ends

/-- What was forgotten stays ended, since nothing that has ended lives again. -/
theorem Forgets.later (h : Forgets lives t store table) (later : t ≤ t') :
    Forgets lives t' store table where
  sub := h.sub
  kept k v hv live := h.kept k v hv (ends t t' v later live)

/-- **The store shows what lives in the table**, at that time and at any later one. -/
theorem Forgets.present_iff (h : Forgets lives t store table) (later : t ≤ t') (k : κ) :
    Present lives t' store k ↔ Present lives t' table k := by
  constructor
  · rintro ⟨v, hv, live⟩
    exact ⟨v, h.sub k v hv, live⟩
  · rintro ⟨v, hv, live⟩
    exact ⟨v, h.kept k v hv (ends t t' v later live), live⟩

/-- **A sweep**: what is dropped was found ended at some time up to now. -/
theorem Forgets.sweep (h : Forgets lives t store table) (later : t ≤ t') {found : κ → τ}
    (upTo : ∀ k, found k ≤ t') (sub : ∀ k v, store' k = some v → store k = some v)
    (kept : ∀ k v, store k = some v → lives (found k) v → store' k = some v) :
    Forgets lives t' store' table :=
  (h.later ends later).trans ⟨sub, fun k v hv live => kept k v hv (ends _ t' v (upTo k) live)⟩

end Ending

end Expiring
