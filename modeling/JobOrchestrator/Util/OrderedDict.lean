import Mathlib.Algebra.GroupWithZero.Nat
import Mathlib.Data.List.Nodup
import Mathlib.Data.List.Perm.Basic

/-!
# Insertion-ordered dictionaries

A dictionary is a list of key-value pairs in which no key occurs twice.
The list order is the insertion order: writing to a present key keeps its
place, writing to a new one appends it. Distinctness of the keys is a field
of the structure, so every operation returns a dictionary and no later
statement has to ask for it again.

Reading is `get?`. The two laws that matter are `get?_set` and
`get?_erase`; membership, keys and size are all stated in terms of reading.
-/

/-- **A dictionary in insertion order**: pairs with distinct keys. Writing to a key that is there
keeps its place, as in a `dict`; deleting it and writing it again moves it to the end. -/
structure OrderedDict (κ ν : Type*) where
  /-- The pairs, oldest first. -/
  entries : List (κ × ν)
  /-- No key occurs twice. -/
  nodupKeys : (entries.map Prod.fst).Nodup

namespace OrderedDict

variable {κ ν : Type*}

/-- The dictionary without entries. -/
def empty : OrderedDict κ ν := ⟨[], List.nodup_nil⟩

instance : Inhabited (OrderedDict κ ν) := ⟨empty⟩

/-- The keys, oldest first. -/
def keys (d : OrderedDict κ ν) : List κ := d.entries.map Prod.fst

/-- The values, in the order of their keys. -/
def values (d : OrderedDict κ ν) : List ν := d.entries.map Prod.snd

/-- How many keys are present. -/
def size (d : OrderedDict κ ν) : ℕ := d.entries.length

@[simp] theorem keys_empty : (empty : OrderedDict κ ν).keys = [] := rfl

theorem nodup_keys (d : OrderedDict κ ν) : d.keys.Nodup := d.nodupKeys

theorem size_eq_length_keys (d : OrderedDict κ ν) : d.size = d.keys.length :=
  (List.length_map Prod.fst).symm

/-- Two dictionaries with the same pairs in the same order are one. -/
@[ext] theorem ext {d d' : OrderedDict κ ν} (h : d.entries = d'.entries) : d = d' := by
  cases d
  cases d'
  cases h
  rfl

variable [DecidableEq κ]

/-! ## Reading -/

/-- The value of a key in a list of pairs. -/
def find (k : κ) : List (κ × ν) → Option ν
  | [] => none
  | (k', v) :: l => if k' = k then some v else find k l

/-- The value of a key, if it is present. -/
def get? (d : OrderedDict κ ν) (k : κ) : Option ν := find k d.entries

@[simp] theorem get?_empty (k : κ) : (empty : OrderedDict κ ν).get? k = none := rfl

theorem mem_of_find {k : κ} {v : ν} {l : List (κ × ν)} (h : find k l = some v) :
    (k, v) ∈ l := by
  induction l with
  | nil => exact absurd h (by simp [find])
  | cons p l ih =>
    obtain ⟨k', v'⟩ := p
    rw [find] at h
    split at h
    · rename_i hk
      rw [← hk, Option.some.inj h]
      exact List.mem_cons_self
    · exact List.mem_cons_of_mem _ (ih h)

theorem find_of_mem {k : κ} {v : ν} {l : List (κ × ν)}
    (hl : (l.map Prod.fst).Nodup) (h : (k, v) ∈ l) : find k l = some v := by
  induction l with
  | nil => exact absurd h List.not_mem_nil
  | cons p l ih =>
    obtain ⟨k', v'⟩ := p
    rw [List.map_cons, List.nodup_cons] at hl
    rw [find]
    rcases List.mem_cons.mp h with heq | htail
    · rw [Prod.mk.injEq] at heq
      rw [if_pos heq.1.symm, heq.2]
    · have hne : k' ≠ k := by
        rintro rfl
        exact hl.1 (List.mem_map.mpr ⟨(k', v), htail, rfl⟩)
      rw [if_neg hne]
      exact ih hl.2 htail

/-- **Reading a key finds exactly its pair.** No key occurs twice, so there is no other pair that
it could find. -/
theorem get?_eq_some_iff {d : OrderedDict κ ν} {k : κ} {v : ν} :
    d.get? k = some v ↔ (k, v) ∈ d.entries :=
  ⟨mem_of_find, find_of_mem d.nodupKeys⟩

theorem mem_keys_iff {d : OrderedDict κ ν} {k : κ} :
    k ∈ d.keys ↔ ∃ v, d.get? k = some v := by
  rw [keys, List.mem_map]
  constructor
  · rintro ⟨⟨k', v⟩, hmem, rfl⟩
    exact ⟨v, get?_eq_some_iff.mpr hmem⟩
  · rintro ⟨v, hv⟩
    exact ⟨(k, v), get?_eq_some_iff.mp hv, rfl⟩

theorem get?_eq_none_iff {d : OrderedDict κ ν} {k : κ} :
    d.get? k = none ↔ k ∉ d.keys := by
  rw [mem_keys_iff]
  constructor
  · rintro h ⟨v, hv⟩
    exact absurd (h.symm.trans hv) (by simp)
  · intro h
    cases hv : d.get? k with
    | none => rfl
    | some v => exact absurd ⟨v, hv⟩ h

theorem mem_values_iff {d : OrderedDict κ ν} {v : ν} :
    v ∈ d.values ↔ ∃ k, d.get? k = some v := by
  rw [values, List.mem_map]
  constructor
  · rintro ⟨⟨k, v'⟩, hmem, rfl⟩
    exact ⟨k, get?_eq_some_iff.mpr hmem⟩
  · rintro ⟨k, hk⟩
    exact ⟨(k, v), get?_eq_some_iff.mp hk, rfl⟩

instance (d : OrderedDict κ ν) (k : κ) : Decidable (k ∈ d.keys) :=
  inferInstanceAs (Decidable (k ∈ d.entries.map Prod.fst))

/-! ## Writing -/

/-- Write a key in a list of pairs: in place where it is present, at the end
where it is not. -/
def write (k : κ) (v : ν) : List (κ × ν) → List (κ × ν)
  | [] => [(k, v)]
  | (k', v') :: l => if k' = k then (k', v) :: l else (k', v') :: write k v l

theorem map_fst_write (k : κ) (v : ν) (l : List (κ × ν)) :
    (write k v l).map Prod.fst
      = if k ∈ l.map Prod.fst then l.map Prod.fst else l.map Prod.fst ++ [k] := by
  induction l with
  | nil => rfl
  | cons p l ih =>
    obtain ⟨k', v'⟩ := p
    rw [write]
    by_cases hk : k' = k
    · rw [if_pos hk, if_pos (by simp [hk])]
      rfl
    · have hmem : k ∈ (List.map Prod.fst ((k', v') :: l)) ↔ k ∈ l.map Prod.fst := by
        simp [Ne.symm hk]
      rw [if_neg hk, List.map_cons, ih]
      by_cases hl : k ∈ l.map Prod.fst
      · rw [if_pos hl, if_pos (hmem.mpr hl)]
        rfl
      · rw [if_neg hl, if_neg (fun h => hl (hmem.mp h))]
        rfl

theorem nodup_write {k : κ} {v : ν} {l : List (κ × ν)}
    (hl : (l.map Prod.fst).Nodup) : ((write k v l).map Prod.fst).Nodup := by
  rw [map_fst_write]
  split
  · exact hl
  · rename_i hk
    exact List.Nodup.append hl (List.nodup_singleton k)
      (List.disjoint_singleton.mpr hk)

theorem find_write (k k' : κ) (v : ν) (l : List (κ × ν)) :
    find k' (write k v l) = if k' = k then some v else find k' l := by
  induction l with
  | nil => simp [write, find, eq_comm]
  | cons p l ih =>
    obtain ⟨k₀, v₀⟩ := p
    rw [write]
    by_cases hk : k₀ = k
    · rw [if_pos hk, find, find]
      by_cases hk' : k' = k
      · rw [if_pos (hk.trans hk'.symm), if_pos hk']
      · rw [if_neg (fun h => hk' (h.symm.trans hk)), if_neg hk',
          if_neg (fun h => hk' (h.symm.trans hk))]
    · rw [if_neg hk, find, find, ih]
      by_cases hk' : k₀ = k'
      · rw [if_pos hk', if_pos hk', if_neg (fun h => hk (hk'.trans h))]
      · rw [if_neg hk', if_neg hk']

/-- `d[k] = v`: the place of a present key is kept, a new key is appended. -/
def set (d : OrderedDict κ ν) (k : κ) (v : ν) : OrderedDict κ ν :=
  ⟨write k v d.entries, nodup_write d.nodupKeys⟩

/-- **Reading after a write.** -/
theorem get?_set (d : OrderedDict κ ν) (k k' : κ) (v : ν) :
    (d.set k v).get? k' = if k' = k then some v else d.get? k' :=
  find_write k k' v d.entries

@[simp] theorem get?_set_self (d : OrderedDict κ ν) (k : κ) (v : ν) :
    (d.set k v).get? k = some v := by
  rw [get?_set, if_pos rfl]

theorem get?_set_ne (d : OrderedDict κ ν) {k k' : κ} (v : ν) (h : k' ≠ k) :
    (d.set k v).get? k' = d.get? k' := by
  rw [get?_set, if_neg h]

/-- What is read after writing was written, or was there before. -/
theorem get?_set_eq_some {d : OrderedDict κ ν} {k k' : κ} {v v' : ν}
    (h : (d.set k v).get? k' = some v') : k' = k ∧ v' = v ∨ k' ≠ k ∧ d.get? k' = some v' := by
  rw [get?_set] at h
  split at h
  · rename_i hk
    exact Or.inl ⟨hk, (Option.some.inj h).symm⟩
  · rename_i hk
    exact Or.inr ⟨hk, h⟩

theorem keys_set (d : OrderedDict κ ν) (k : κ) (v : ν) :
    (d.set k v).keys = if k ∈ d.keys then d.keys else d.keys ++ [k] :=
  map_fst_write k v d.entries

/-- Writing a new key adds one. -/
theorem size_set_of_none {d : OrderedDict κ ν} {k : κ} (v : ν) (h : d.get? k = none) :
    (d.set k v).size = d.size + 1 := by
  rw [size_eq_length_keys, keys_set, if_neg (get?_eq_none_iff.mp h), List.length_append,
    size_eq_length_keys]
  rfl

/-- Writing a present one adds none. -/
theorem size_set_of_some {d : OrderedDict κ ν} {k : κ} {v' : ν} (v : ν) (h : d.get? k = some v') :
    (d.set k v).size = d.size := by
  rw [size_eq_length_keys, keys_set, if_pos (mem_keys_iff.mpr ⟨v', h⟩), size_eq_length_keys]

theorem mem_keys_set {d : OrderedDict κ ν} {k k' : κ} {v : ν} :
    k' ∈ (d.set k v).keys ↔ k' = k ∨ k' ∈ d.keys := by
  rw [mem_keys_iff, mem_keys_iff]
  by_cases hk : k' = k
  · exact ⟨fun _ => Or.inl hk, fun _ => ⟨v, by rw [get?_set, if_pos hk]⟩⟩
  · rw [get?_set_ne d v hk]
    exact ⟨Or.inr, fun h => h.resolve_left hk⟩

theorem sum_snd_write (k : κ) (v : ℕ) (l : List (κ × ℕ)) :
    ((write k v l).map Prod.snd).sum + (find k l).getD 0 = (l.map Prod.snd).sum + v := by
  induction l with
  | nil => simp [write, find]
  | cons p l ih =>
    obtain ⟨k', v'⟩ := p
    rw [write, find]
    by_cases hk : k' = k
    · simp only [if_pos hk, List.map_cons, List.sum_cons, Option.getD_some]
      omega
    · simp only [if_neg hk, List.map_cons, List.sum_cons]
      omega

/-- **The sum of the values** after a write: the new value counts in the place of the old. -/
theorem sum_values_set (d : OrderedDict κ ℕ) (k : κ) (v : ℕ) :
    (d.set k v).values.sum + (d.get? k).getD 0 = d.values.sum + v :=
  sum_snd_write k v d.entries

theorem write_of_find {k : κ} {v : ν} {l : List (κ × ν)} (h : find k l = some v) :
    write k v l = l := by
  induction l with
  | nil => simp [find] at h
  | cons p l ih =>
    obtain ⟨k', v'⟩ := p
    rw [find] at h
    rw [write]
    split at h
    · rename_i hk
      simp [hk, Option.some.inj h]
    · rename_i hk
      rw [if_neg hk, ih h]

/-- Writing the value that is there changes nothing. -/
theorem set_eq_self {d : OrderedDict κ ν} {k : κ} {v : ν} (h : d.get? k = some v) :
    d.set k v = d := by
  ext1
  exact write_of_find h

/-! ## Changing a value in place -/

/-- Change the value of a key; an absent key stays absent. -/
def modify (d : OrderedDict κ ν) (k : κ) (f : ν → ν) : OrderedDict κ ν :=
  match d.get? k with
  | none => d
  | some v => d.set k (f v)

theorem get?_modify (d : OrderedDict κ ν) (k k' : κ) (f : ν → ν) :
    (d.modify k f).get? k' = if k' = k then (d.get? k).map f else d.get? k' := by
  rw [modify]
  by_cases hk : k' = k
  · rw [if_pos hk, hk]
    cases hget : d.get? k with
    | none => exact hget
    | some v => exact get?_set_self d k (f v)
  · rw [if_neg hk]
    cases hget : d.get? k with
    | none => rfl
    | some v => exact get?_set_ne d (f v) hk

/-- Changing a value changes no key. -/
@[simp] theorem keys_modify (d : OrderedDict κ ν) (k : κ) (f : ν → ν) :
    (d.modify k f).keys = d.keys := by
  rw [modify]
  cases hget : d.get? k with
  | none => rfl
  | some v =>
    show (d.set k (f v)).keys = d.keys
    rw [keys_set, if_pos (mem_keys_iff.mpr ⟨v, hget⟩)]

/-- Changing a value into itself changes nothing. -/
theorem modify_eq_self {d : OrderedDict κ ν} {k : κ} {f : ν → ν}
    (h : ∀ v, d.get? k = some v → f v = v) : d.modify k f = d := by
  rw [modify]
  cases hget : d.get? k with
  | none => rfl
  | some v =>
    show d.set k (f v) = d
    rw [h v hget]
    exact set_eq_self hget

/-! ## Deleting -/

/-- `del d[k]`, or nothing where the key is absent. -/
def erase (d : OrderedDict κ ν) (k : κ) : OrderedDict κ ν :=
  ⟨d.entries.filter (fun p => p.1 ≠ k),
    d.nodupKeys.sublist (List.filter_sublist.map _)⟩

theorem find_filter_ne (k k' : κ) (l : List (κ × ν)) :
    find k' (l.filter (fun p => p.1 ≠ k)) = if k' = k then none else find k' l := by
  induction l with
  | nil => simp [find]
  | cons p l ih =>
    obtain ⟨k₀, v₀⟩ := p
    by_cases hk : k₀ = k
    · rw [List.filter_cons_of_neg (by simp [hk]), ih, find]
      by_cases hk' : k' = k
      · rw [if_pos hk', if_pos hk']
      · rw [if_neg hk', if_neg hk', if_neg (fun h => hk' (h.symm.trans hk))]
    · rw [List.filter_cons_of_pos (by simp [hk]), find, find, ih]
      by_cases hk' : k₀ = k'
      · rw [if_pos hk', if_neg (fun h => hk (hk'.trans h)), if_pos hk']
      · rw [if_neg hk', if_neg hk']

/-- **Reading after a deletion.** -/
theorem get?_erase (d : OrderedDict κ ν) (k k' : κ) :
    (d.erase k).get? k' = if k' = k then none else d.get? k' :=
  find_filter_ne k k' d.entries

@[simp] theorem get?_erase_self (d : OrderedDict κ ν) (k : κ) :
    (d.erase k).get? k = none := by
  rw [get?_erase, if_pos rfl]

theorem get?_erase_ne (d : OrderedDict κ ν) {k k' : κ} (h : k' ≠ k) :
    (d.erase k).get? k' = d.get? k' := by
  rw [get?_erase, if_neg h]

/-- Deleting a present key takes one away. -/
theorem size_erase_of_some {d : OrderedDict κ ν} {k : κ} {v : ν} (h : d.get? k = some v) :
    (d.erase k).size + 1 = d.size := by
  have hkeys : (d.erase k).keys = d.keys.erase k := by
    rw [d.nodup_keys.erase_eq_filter]
    show (d.entries.filter _).map Prod.fst = (d.entries.map Prod.fst).filter _
    rw [List.filter_map]
    congr 1
    exact List.filter_congr (fun p _ => decide_not)
  rw [size_eq_length_keys, size_eq_length_keys, hkeys]
  exact List.length_erase_add_one (mem_keys_iff.mpr ⟨v, h⟩)

end OrderedDict
