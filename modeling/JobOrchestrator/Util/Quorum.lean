import Mathlib.Data.Finset.Card

/-!
# Quorums that meet

Two parties that each decide by a number of votes out of a set of voters of their
own cannot decide differently where every choice of so many votes of the one has
a voter in common with every choice of the other. When the voters are the same, a
majority each is enough. When they are not, it is a question of how many voters
there are in all – `QuorumsMeet.card_lt` says that nothing else helps.
-/

variable {α : Type*} [DecidableEq α] {A B : Finset α} {k l : ℕ}

/-- **Every `k` of one set and every `l` of another have an element in common.** -/
def QuorumsMeet (A : Finset α) (k : ℕ) (B : Finset α) (l : ℕ) : Prop :=
  ∀ U V, U ⊆ A → V ⊆ B → k ≤ U.card → l ≤ V.card → (U ∩ V).Nonempty

namespace QuorumsMeet

/-- Together they are more than there are. -/
theorem of_card_lt (h : (A ∪ B).card < k + l) : QuorumsMeet A k B l := by
  intro U V hU hV hk hl
  refine Finset.inter_nonempty_of_card_lt_card_add_card
    (hU.trans Finset.subset_union_left) (hV.trans Finset.subset_union_right) ?_
  omega

/-- **Majorities of one set meet**, also where the set is counted with repetitions. -/
theorem majority {n : ℕ} (h : A.card ≤ n) : QuorumsMeet A (n / 2 + 1) A (n / 2 + 1) := by
  refine of_card_lt ?_
  rw [Finset.union_self]
  omega

/-- More votes than there are voters are never cast. -/
theorem of_card_lt_left (h : A.card < k) : QuorumsMeet A k B l := by
  intro U V hU _ hk _
  exact absurd (hk.trans (Finset.card_le_card hU)) (Nat.not_le.mpr h)

theorem symm (h : QuorumsMeet A k B l) : QuorumsMeet B l A k := by
  intro V U hV hU hl hk
  rw [Finset.inter_comm]
  exact h U V hU hV hk hl

/-- **And there is no other way**: where both quorums can be reached, the voters in all are
fewer than the two quorums together. -/
theorem card_lt (h : QuorumsMeet A k B l) (hk : k ≤ A.card) (hl : l ≤ B.card) :
    (A ∪ B).card < k + l := by
  by_contra hmany
  -- choose the first votes among those only `A` has, as far as they go
  obtain ⟨U, hUA, hUcard, hrest⟩ : ∃ U ⊆ A, U.card = k ∧ l ≤ (B \ U).card := by
    by_cases hfew : k ≤ (A \ B).card
    · obtain ⟨U, hU, hcard⟩ := Finset.exists_subset_card_eq hfew
      refine ⟨U, hU.trans Finset.sdiff_subset, hcard, ?_⟩
      have hdisjoint : Disjoint B U :=
        Finset.disjoint_of_subset_right hU Finset.disjoint_sdiff
      rw [Finset.sdiff_eq_self_of_disjoint hdisjoint]
      exact hl
    · obtain ⟨U, hsub, hU, hcard⟩ := Finset.exists_subsuperset_card_eq
        (Finset.sdiff_subset (s := A) (t := B)) (Nat.le_of_not_le hfew) hk
      refine ⟨U, hU, hcard, ?_⟩
      have hcover : A ∪ B ⊆ U ∪ B \ U := by
        intro x hx
        rw [Finset.mem_union, Finset.mem_sdiff]
        by_cases hxU : x ∈ U
        · exact Or.inl hxU
        · refine Or.inr ⟨by_contra (fun hxB => hxU (hsub ?_)), hxU⟩
          exact Finset.mem_sdiff.mpr ⟨(Finset.mem_union.mp hx).resolve_right hxB, hxB⟩
      have hcount := (Finset.card_le_card hcover).trans (Finset.card_union_le U (B \ U))
      omega
  obtain ⟨x, hx⟩ := h U (B \ U) hUA Finset.sdiff_subset (le_of_eq hUcard.symm) hrest
  rw [Finset.mem_inter, Finset.mem_sdiff] at hx
  exact hx.2.2 hx.1

end QuorumsMeet
