import JobOrchestrator.Util.OrderedDict
import Mathlib.Data.List.Sort

/-!
# Listings and their pages

A listing sorts a collection in descending order of a key, stably, and hands out a slice of it.
A reader who asks for one slice after the other sees a collection that changes between the
requests.

`Listing.exists_page` is what such a reader can rely on: an entry that stays is in one of the
pages if nothing that is listed before it, or at its place, leaves the collection while it is
being read. What comes in anywhere, and what leaves from behind it, does no harm, since it moves
an entry to a later place at most.

The last part counts: `Listing.tally` is the loop that counts the values of a function over a
list in a dictionary.
-/

namespace Listing

variable {α β τ : Type*}

/-! ## Slices -/

/-- The place that an index of a slice means, in a list of length `n`: a negative one counts from
the end. -/
def place (n : ℕ) (i : ℤ) : ℕ := if i < 0 then (n + i).toNat else min n i.toNat

/-- `l[start:stop]`. -/
def slice (start stop : ℤ) (l : List α) : List α :=
  (l.drop (place l.length start)).take (place l.length stop - place l.length start)

/-- `l[start:]`. -/
def sliceFrom (start : ℤ) (l : List α) : List α := l.drop (place l.length start)

theorem slice_eq (start limit : ℕ) (l : List α) :
    slice start (start + limit) l = (l.drop start).take limit := by
  have hstart : place l.length start = min l.length start := by simp [place]
  have hstop : place l.length (start + limit) = min l.length (start + limit) := by
    rw [place, if_neg (by omega)]
    omega
  rw [slice, hstart, hstop]
  by_cases hle : start ≤ l.length
  · rw [Nat.min_eq_right hle, List.take_eq_take_iff, List.length_drop]
    omega
  · rw [List.drop_eq_nil_of_le (by omega), List.drop_eq_nil_of_le (by omega)]
    simp

theorem sliceFrom_eq (start : ℕ) (l : List α) : sliceFrom start l = l.drop start := by
  rw [sliceFrom, place, if_neg (by omega), Int.toNat_natCast]
  by_cases hle : start ≤ l.length
  · rw [Nat.min_eq_right hle]
  · rw [Nat.min_eq_left (by omega), List.drop_length, List.drop_eq_nil_of_le (by omega)]

@[simp] theorem sliceFrom_zero (l : List α) : sliceFrom 0 l = l := sliceFrom_eq 0 l

/-! ## Sorting -/

variable [LinearOrder τ] (key : α → τ)

/-- The key of the first entry is not the smaller one. -/
def Before (a b : α) : Prop := key b ≤ key a

instance : DecidableRel (Before key) := fun a b => inferInstanceAs (Decidable (key b ≤ key a))

instance : Std.Total (Before key) := ⟨fun a b => le_total (key b) (key a)⟩

instance : IsTrans α (Before key) := ⟨fun _ _ _ hab hbc => le_trans hbc hab⟩

/-- `sorted(l, key=key, reverse=True)`, which keeps the order of entries with the same key. -/
def descending (l : List α) : List α := l.insertionSort (Before key)

theorem perm_descending (l : List α) : (descending key l).Perm l := List.perm_insertionSort _ l

@[simp] theorem mem_descending {l : List α} {a : α} : a ∈ descending key l ↔ a ∈ l :=
  List.mem_insertionSort _

theorem pairwise_descending (l : List α) :
    (descending key l).Pairwise (Before key) := List.pairwise_insertionSort _ l

theorem map_descending (f : α → β) (key' : β → τ) (l : List α)
    (same : ∀ a ∈ l, key' (f a) = key a) : (descending key l).map f = descending key' (l.map f) :=
  List.map_insertionSort _ _ f l (fun a ha b hb => by
    rw [Before, Before, same a ha, same b hb])

/-- **A sublist is listed as a sublist.** -/
theorem descending_sublist {l l' : List α} (h : l.Sublist l') :
    (descending key l).Sublist (descending key l') := by
  induction h with
  | slnil => exact List.Sublist.refl _
  | cons a _ ih => exact ih.trans (List.sublist_orderedInsert _ _)
  | cons_cons a _ ih => exact ih.orderedInsert_sublist _ (pairwise_descending key _)

/-- Selecting and sorting commute. -/
theorem filter_descending (p : α → Bool) (l : List α) :
    (descending key l).filter p = descending key (l.filter p) := by
  have hinsert : ∀ (a : α) (s : List α), s.Pairwise (Before key) →
      (s.orderedInsert (Before key) a).filter p
        = if p a then (s.filter p).orderedInsert (Before key) a
          else s.filter p := by
    intro a s sorted
    induction s with
    | nil => by_cases ha : p a <;> simp [ha]
    | cons b s ih =>
      obtain ⟨hhead, htail⟩ := List.pairwise_cons.mp sorted
      by_cases hle : Before key a b
      · -- the entry goes to the front, and to the front of what is selected
        have hfront : ((b :: s).filter p).orderedInsert (Before key) a
            = a :: (b :: s).filter p := by
          cases hselected : (b :: s).filter p with
          | nil => rfl
          | cons c cs =>
            have hc : c ∈ b :: s := (List.mem_filter.mp (hselected ▸ List.mem_cons_self)).1
            refine List.orderedInsert_cons_of_le _ _ ?_
            rcases List.mem_cons.mp hc with rfl | hmem
            · exact hle
            · exact le_trans (hhead c hmem) hle
        rw [List.orderedInsert_cons_of_le _ _ hle, hfront, List.filter_cons]
      · rw [List.orderedInsert_of_not_le _ _ hle, List.filter_cons, ih htail]
        by_cases ha : p a <;> by_cases hb : p b <;> simp [ha, hb, hle]
  induction l with
  | nil => rfl
  | cons a l ih =>
    show ((descending key l).orderedInsert _ a).filter p = _
    rw [hinsert a _ (pairwise_descending key l), ih, List.filter_cons]
    by_cases ha : p a <;> simp [ha, descending]

/-! ## Reading page by page -/

/-- **What comes behind an entry moves it nowhere, and what comes before it moves it back.** An
entry of the later part of a listing is in the later part of any listing that still has what was
before it or at its place, in the same order. -/
theorem mem_drop_descending {l l' : List α} {a : α} {n : ℕ} (h : a ∈ (descending key l).drop n)
    (stays : (l.filter (fun b => key a ≤ key b)).Sublist l') :
    a ∈ (descending key l').drop n := by
  have hselect : ∀ (s : List α) n, s.Pairwise (Before key) → a ∈ s.drop n →
      a ∈ (s.filter (fun b => key a ≤ key b)).drop n := by
    intro s
    induction s with
    | nil => simp
    | cons b s ih =>
      intro n sorted hmem
      obtain ⟨hhead, htail⟩ := List.pairwise_cons.mp sorted
      cases n with
      | zero => simpa using hmem
      | succ n =>
        rw [List.drop_succ_cons] at hmem
        have hb : key a ≤ key b := hhead a (List.mem_of_mem_drop hmem)
        simpa [hb] using ih n htail hmem
  have hfilter := hselect _ n (pairwise_descending key l) h
  rw [filter_descending] at hfilter
  exact ((descending_sublist key stays).drop n).subset hfilter

/-- **An entry that a reader of the pages sees.** The reader asks for pages of one size, each
of the collection as it is at that time, up to one that is not full. An entry that is there all
the time is in one of them, if nothing that was listed before it or at its place left the
collection in between. -/
theorem exists_page {views : ℕ → List α} {limit n : ℕ} {a : α}
    (there : ∀ k ≤ n, a ∈ views k)
    (stays : ∀ k < n, ((views k).filter (fun b => key a ≤ key b)).Sublist (views (k + 1)))
    (last : (((descending key (views n)).drop (n * limit)).take limit).length < limit) :
    ∃ k ≤ n, a ∈ ((descending key (views k)).drop (k * limit)).take limit := by
  by_contra hnever
  push Not at hnever
  -- what was not in a page is behind it
  have hbehind : ∀ k ≤ n, a ∈ (descending key (views k)).drop (k * limit) := by
    intro k
    induction k with
    | zero => exact fun hk => by simpa using there 0 hk
    | succ k ih =>
      intro hk
      have hafter : a ∈ (descending key (views k)).drop (k * limit + limit) := by
        have hmem := ih (by omega)
        rw [← List.take_append_drop limit ((descending key (views k)).drop (k * limit)),
          List.mem_append, List.drop_drop] at hmem
        exact hmem.resolve_left (hnever k (by omega))
      rw [Nat.succ_mul]
      exact mem_drop_descending key hafter (stays k (by omega))
  refine hnever n le_rfl ?_
  rw [List.length_take] at last
  rw [List.take_of_length_le (by omega)]
  exact hbehind n le_rfl

end Listing

namespace OrderedDict

variable {κ ν β : Type*} [DecidableEq κ]

/-- A new key is written at the end. -/
theorem entries_set_of_none {d : OrderedDict κ ν} {k : κ} (v : ν) (h : d.get? k = none) :
    (d.set k v).entries = d.entries ++ [(k, v)] := by
  have hwrite : ∀ l : List (κ × ν), find k l = none → write k v l = l ++ [(k, v)] := by
    intro l
    induction l with
    | nil => exact fun _ => rfl
    | cons p l ih =>
      intro hfind
      rw [find] at hfind
      split at hfind
      · cases hfind
      · rename_i hk
        rw [write, if_neg hk, ih hfind, List.cons_append]
  exact hwrite d.entries h

/-- Writing over a value of which the same is read changes nothing of what is read. -/
theorem map_entries_set_of_some {d : OrderedDict κ ν} {k : κ} {v v₀ : ν} (f : κ × ν → β)
    (h : d.get? k = some v₀) (same : f (k, v) = f (k, v₀)) :
    (d.set k v).entries.map f = d.entries.map f := by
  have hwrite : ∀ l : List (κ × ν), find k l = some v₀ → (write k v l).map f = l.map f := by
    intro l
    induction l with
    | nil => exact fun hfind => absurd hfind (by simp [find])
    | cons p l ih =>
      obtain ⟨k', v'⟩ := p
      intro hfind
      rw [find] at hfind
      rw [write]
      split at hfind
      · rename_i hk
        obtain rfl := Option.some.inj hfind
        rw [if_pos hk, List.map_cons, List.map_cons, hk, same]
      · rename_i hk
        rw [if_neg hk, List.map_cons, List.map_cons, ih hfind]
  exact hwrite d.entries h

end OrderedDict

namespace Listing

variable {α κ : Type*} [DecidableEq κ] (f : α → κ)

/-! ## Counting -/

/-- One round of a loop that counts: `counts[k] = counts.get(k, 0) + 1`. -/
def countOne (counts : OrderedDict κ ℕ) (a : α) : OrderedDict κ ℕ :=
  counts.set (f a) ((counts.get? (f a)).getD 0 + 1)

/-- **How often each value of the function occurs**, in the order of the first occurrences. -/
def tally (l : List α) : OrderedDict κ ℕ := l.foldl (countOne f) OrderedDict.empty

theorem getD_foldl_countOne (l : List α) (counts : OrderedDict κ ℕ) (k : κ) :
    ((l.foldl (countOne f) counts).get? k).getD 0
      = (counts.get? k).getD 0 + l.countP (fun a => f a = k) := by
  induction l generalizing counts with
  | nil => rfl
  | cons a l ih =>
    rw [List.foldl_cons, ih, countOne, OrderedDict.get?_set, List.countP_cons]
    by_cases hk : k = f a
    · simp only [hk, if_true, Option.getD_some, decide_true]
      omega
    · simp [hk, Ne.symm hk]

/-- **The count of a value** is that of its entries. -/
theorem getD_tally (l : List α) (k : κ) :
    ((tally f l).get? k).getD 0 = l.countP (fun a => f a = k) := by
  rw [tally, getD_foldl_countOne, OrderedDict.get?_empty, Option.getD_none, Nat.zero_add]

/-- **The counts add up** to the number of entries. -/
theorem sum_values_tally (l : List α) : (tally f l).values.sum = l.length := by
  have hsum : ∀ counts : OrderedDict κ ℕ,
      (l.foldl (countOne f) counts).values.sum = counts.values.sum + l.length := by
    induction l with
    | nil => exact fun counts => rfl
    | cons a l ih =>
      intro counts
      have hset := OrderedDict.sum_values_set counts (f a) ((counts.get? (f a)).getD 0 + 1)
      rw [List.foldl_cons, ih, List.length_cons, countOne]
      omega
  rw [tally, hsum]
  exact Nat.zero_add _

end Listing
