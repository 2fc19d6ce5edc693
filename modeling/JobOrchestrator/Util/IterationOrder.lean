import Mathlib.Data.Finset.Lattice.Fold
import Mathlib.Order.Lattice.Nat

/-!
# The order in which a set is iterated

A loop over a set visits every element once, in an order the program does
not choose. An `IterationOrder` fixes such an order for every finite set;
what is proved for all of them holds whatever order the loops happen to
use.
-/

/-- **An order of iteration**: for every finite set, its elements as a list without repetitions.
A `set` has one that the program cannot rely on. Results are proved for every order, which is the
order of any Python there is. -/
structure IterationOrder (α : Type*) where
  /-- The elements of a set, in the order they are visited. -/
  list : Finset α → List α
  /-- No element is visited twice. -/
  nodup_list : ∀ s, (list s).Nodup
  /-- Every element is visited, and nothing else. -/
  mem_list : ∀ {s a}, a ∈ list s ↔ a ∈ s

namespace IterationOrder

/-- Natural numbers visited from small to large. -/
def increasing : IterationOrder ℕ where
  list s := (List.range (s.sup id + 1)).filter (fun n => n ∈ s)
  nodup_list s := List.nodup_range.filter _
  mem_list := by
    intro s a
    rw [List.mem_filter, List.mem_range, decide_eq_true_eq]
    exact ⟨fun h => h.2, fun h => ⟨Nat.lt_succ_of_le (Finset.le_sup (f := id) h), h⟩⟩

instance : Inhabited (IterationOrder ℕ) := ⟨increasing⟩

end IterationOrder
