import Mathlib.Data.Fintype.Card
import JobOrchestrator.Util.Chains

/-!
# Depth-first search for a cycle

The search with three colours, over a graph that is given by what the loop at each point visits,
in its order. A gray point is one whose loop is running: they form a path, and the loop that
comes upon a gray point has found a cycle. A black point is one whose loop has ended, and no
cycle can be reached from it.

So the search goes, from every point, to the first of the next from which a cycle can be reached
at all: what it tries before that it leaves behind black. `Walk` is this way, in terms of the
graph alone, and `visit_spec` says that the search takes it. Each point that is reached is
remembered with the one it was reached from, and the gray points are found again along these.
-/

namespace DepthFirst

/-! ## The way to a cycle -/

variable {V : Type*} {adj : V → List V} {path path' : List V} {u c d : V}

/-- `v` is one of those the loop at `u` visits. -/
def Edge (adj : V → List V) (u v : V) : Prop := v ∈ adj u

open Classical in
/-- **The first of a list from which a cycle can be reached.** -/
noncomputable def firstToCycle (adj : V → List V) (ds : List V) : Option V :=
  ds.find? (fun d => decide (ReachesCycle (Edge adj) d))

theorem firstToCycle_nil : firstToCycle adj [] = none := rfl

theorem firstToCycle_cons_of_pos {ds : List V} (h : ReachesCycle (Edge adj) d) :
    firstToCycle adj (d :: ds) = some d :=
  List.find?_cons_of_pos (by simpa using h)

theorem firstToCycle_cons_of_neg {ds : List V} (h : ¬ ReachesCycle (Edge adj) d) :
    firstToCycle adj (d :: ds) = firstToCycle adj ds :=
  List.find?_cons_of_neg (by simpa using h)

theorem mem_of_firstToCycle {ds : List V} (h : firstToCycle adj ds = some d) :
    d ∈ ds ∧ ReachesCycle (Edge adj) d :=
  ⟨List.mem_of_find?_eq_some h, by simpa using List.find?_some h⟩

theorem firstToCycle_eq_none_iff {ds : List V} :
    firstToCycle adj ds = none ↔ ∀ d ∈ ds, ¬ ReachesCycle (Edge adj) d := by
  simp [firstToCycle, List.find?_eq_none]

/-- **The way to a cycle** from `u`, with `path` behind it: always to the first of the next from
which a cycle can be reached, until that is a point it has been at. What comes out is the whole
way, from its end back, and that point. -/
inductive Walk (adj : V → List V) : List V → V → List V → V → Prop
  | closes {path : List V} {u c : V} (next : firstToCycle adj (adj u) = some c)
      (again : c ∈ u :: path) : Walk adj path u (u :: path) c
  | goesOn {path path' : List V} {u d c : V} (next : firstToCycle adj (adj u) = some d)
      (new : d ∉ u :: path) (rest : Walk adj (u :: path) d path' c) : Walk adj path u path' c

namespace Walk

theorem reachesCycle (h : Walk adj path u path' c) : ReachesCycle (Edge adj) u := by
  cases h with
  | closes next | goesOn next =>
    obtain ⟨hmem, hcycle⟩ := mem_of_firstToCycle next
    exact hcycle.head hmem

/-- What is behind stays behind: a way only adds points in front of its path. -/
theorem exists_append (h : Walk adj path u path' c) : ∃ ahead, path' = ahead ++ u :: path := by
  induction h with
  | closes => exact ⟨[], rfl⟩
  | @goesOn path path' u d c _ _ _ ih =>
    obtain ⟨ahead, rfl⟩ := ih
    exact ⟨ahead ++ [d], by simp⟩

/-- The way begins where it began. -/
theorem getLast? (h : Walk adj [] u path' c) : path'.getLast? = some u := by
  obtain ⟨ahead, rfl⟩ := h.exists_append
  simp

theorem mem (h : Walk adj path u path' c) : c ∈ path' := by
  induction h with
  | closes _ again => exact again
  | goesOn _ _ _ ih => exact ih

/-- **There is one way.** Each point has one next, the first from which a cycle can be reached.
-/
theorem unique {path'' : List V} {c' : V} (h : Walk adj path u path' c)
    (h' : Walk adj path u path'' c') : path' = path'' ∧ c = c' := by
  induction h with
  | closes next again =>
    cases h' with
    | closes next' => exact ⟨rfl, Option.some.inj (next.symm.trans next')⟩
    | goesOn next' new =>
      exact absurd (Option.some.inj (next.symm.trans next') ▸ again) new
  | goesOn next new _ ih =>
    cases h' with
    | closes next' again =>
      exact absurd (Option.some.inj (next.symm.trans next') ▸ again) new
    | goesOn next' _ rest' =>
      obtain rfl := Option.some.inj (next.symm.trans next')
      exact ih rest'

end Walk

/-- Each point of the path was reached from the one behind it, and the last from none. -/
def Linked (parent : V → Option V) : List V → Prop
  | [] => True
  | u :: path => parent u = path.head? ∧ Linked parent path

theorem Linked.congr {parent parent' : V → Option V} (h : Linked parent path)
    (same : ∀ v ∈ path, parent' v = parent v) : Linked parent' path := by
  induction path with
  | nil => exact trivial
  | cons u path ih =>
    exact ⟨(same u List.mem_cons_self).trans h.1,
      ih h.2 (fun v hv => same v (List.mem_cons_of_mem u hv))⟩

/-! ## The search -/

/-- The colour of a point. -/
inductive Mark
  | white | gray | black
  deriving DecidableEq

/-- **The state of a search**: the colours, and from where each point was reached. The parents
lead back along the path as long as the search has not left it. -/
structure Search (V : Type*) where
  mark : V → Mark := fun _ => .white
  parent : V → Option V := fun _ => none

variable {z z' : Search V} {U : Finset V}

/-- The points that are still white. -/
def whites (U : Finset V) (z : Search V) : Finset V := U.filter (fun v => z.mark v = .white)

/-- No point becomes white. -/
def Shrinks (z z' : Search V) : Prop := ∀ v, z'.mark v = .white → z.mark v = .white

theorem Shrinks.trans {z'' : Search V} (h : Shrinks z z') (h' : Shrinks z' z'') : Shrinks z z'' :=
  fun v hv => h v (h' v hv)

theorem Shrinks.card_le {U : Finset V} (h : Shrinks z z') :
    (whites U z').card ≤ (whites U z).card := by
  refine Finset.card_le_card (fun v hv => ?_)
  obtain ⟨hmem, hwhite⟩ := Finset.mem_filter.mp hv
  exact Finset.mem_filter.mpr ⟨hmem, h v hwhite⟩

variable [DecidableEq V]

namespace Search

/-- A point gets a colour. -/
def paint (z : Search V) (u : V) (m : Mark) : Search V :=
  { z with mark := fun k => if k = u then m else z.mark k }

/-- A point is reached from another. -/
def reach (z : Search V) (d u : V) : Search V :=
  { z with parent := fun k => if k = d then some u else z.parent k }

variable {k : V} {m : Mark}

@[simp] theorem mark_paint_self : (z.paint u m).mark u = m := if_pos rfl

theorem mark_paint_of_ne (h : k ≠ u) : (z.paint u m).mark k = z.mark k := if_neg h

@[simp] theorem parent_reach_self : (z.reach d u).parent d = some u := if_pos rfl

theorem parent_reach_of_ne (h : k ≠ d) : (z.reach d u).parent k = z.parent k := if_neg h

end Search

/-- The loop at `u`: a gray point ends it, a white one is visited, a black one is passed over. -/
def loop (visit : V → Search V → Option V × Search V) (u : V) :
    List V → Search V → Option V × Search V
  | [], z => (none, z)
  | d :: ds, z =>
    match z.mark d with
    | .gray => (some d, z)
    | .black => loop visit u ds z
    | .white =>
      match visit d (z.reach d u) with
      | (some c, z') => (some c, z')
      | (none, z') => loop visit u ds z'

/-- **A visit**, so many visits deep at most. -/
def visit (adj : V → List V) : ℕ → V → Search V → Option V × Search V
  | 0, _, z => (none, z)
  | depth + 1, u, z =>
    match loop (visit adj depth) u (adj u) (z.paint u .gray) with
    | (some c, z') => (some c, z')
    | (none, z') => (none, z'.paint u .black)

/-- **The search**: a visit from each of the points that is still white. It ends with the point
that a visit has come upon twice. -/
def search (adj : V → List V) (depth : ℕ) : List V → Search V → Option (V × Search V)
  | [], _ => none
  | k :: ks, z =>
    if z.mark k = .white then
      match visit adj depth k z with
      | (some c, z') => some (c, z')
      | (none, z') => search adj depth ks z'
    else search adj depth ks z

/-- The way back from a point, up to `c` or to where there is none before. -/
def backward (parent : V → Option V) (c : V) : ℕ → Option V → List V
  | 0, _ => []
  | _ + 1, none => []
  | fuel + 1, some current =>
    if current = c then [] else current :: backward parent c fuel (parent current)

/-! ## What the search keeps -/

/-- **The invariant of the search**, with the points whose loops are running, from the last back:
they are the gray ones and form a path; no cycle can be reached from a black one; and a white one
was reached from none. It has the path as a parameter, so that one induction over the recursion
carries visits and loops. -/
structure Inv (adj : V → List V) (U : Finset V) (path : List V) (z : Search V) : Prop where
  gray : ∀ v, z.mark v = .gray ↔ v ∈ path
  black : ∀ v, z.mark v = .black → ¬ ReachesCycle (Edge adj) v
  orphan : ∀ v, z.mark v = .white → z.parent v = none
  linked : Linked z.parent path
  nodup : path.Nodup
  edges : path.IsChain (fun a b => Edge adj b a)
  within : ∀ v ∈ path, v ∈ U

theorem shrinks_paint {m : Mark} (h : m ≠ .white) : Shrinks z (z.paint u m) := by
  intro v hv
  by_cases hvu : v = u
  · rw [hvu, Search.mark_paint_self] at hv
    exact absurd hv h
  · rwa [Search.mark_paint_of_ne hvu] at hv

/-- A white point that is painted is one white point less. -/
theorem card_whites_paint {U : Finset V} {m : Mark} (hm : m ≠ .white) (hd : d ∈ U)
    (white : z.mark d = .white) : (whites U (z.paint d m)).card < (whites U z).card := by
  refine Finset.card_lt_card ⟨fun v hv => ?_, fun hsub => ?_⟩
  · obtain ⟨hmem, hwhite⟩ := Finset.mem_filter.mp hv
    exact Finset.mem_filter.mpr ⟨hmem, shrinks_paint hm v hwhite⟩
  · have hmem := hsub (Finset.mem_filter.mpr ⟨hd, white⟩)
    rw [whites, Finset.mem_filter, Search.mark_paint_self] at hmem
    exact hm hmem.2

omit [DecidableEq V] in
/-- The search starts with nothing gray, nothing black and nothing reached. -/
theorem inv_start (adj : V → List V) (U : Finset V) : Inv adj U [] ({} : Search V) where
  gray v := by simp
  black v hv := by cases hv
  orphan v _ := rfl
  linked := trivial
  nodup := List.nodup_nil
  edges := List.IsChain.nil
  within v hv := absurd hv List.not_mem_nil

/-- **A visit begins**: the white point goes on the path. -/
theorem Inv.push (inv : Inv adj U path z) (hd : d ∈ U) (white : z.mark d = .white)
    (parent : z'.parent d = path.head?) (others : ∀ v, v ≠ d → z'.parent v = z.parent v)
    (same : z'.mark = z.mark) (edge : ∀ u ∈ path.head?, Edge adj u d) :
    Inv adj U (d :: path) (z'.paint d .gray) := by
  have hnew : d ∉ path := by
    intro hmem
    rw [(inv.gray d).mpr hmem] at white
    cases white
  refine ⟨fun v => ?_, fun v hv => ?_, fun v hv => ?_, ⟨parent, ?_⟩, List.nodup_cons.mpr
    ⟨hnew, inv.nodup⟩, ?_, fun v hv => ?_⟩
  · by_cases hvd : v = d
    · simp [hvd]
    · rw [Search.mark_paint_of_ne hvd, same, inv.gray v, List.mem_cons]
      simp [hvd]
  · by_cases hvd : v = d
    · rw [hvd, Search.mark_paint_self] at hv
      cases hv
    · rw [Search.mark_paint_of_ne hvd, same] at hv
      exact inv.black v hv
  · by_cases hvd : v = d
    · rw [hvd, Search.mark_paint_self] at hv
      cases hv
    · rw [Search.mark_paint_of_ne hvd, same] at hv
      exact (others v hvd).trans (inv.orphan v hv)
  · exact inv.linked.congr (fun v hv => others v (fun hvd => hnew (hvd ▸ hv)))
  · exact List.isChain_cons.mpr ⟨edge, inv.edges⟩
  · rcases List.mem_cons.mp hv with rfl | hmem
    · exact hd
    · exact inv.within v hmem

/-- **A visit ends** without a cycle: the point leaves the path, and is black. -/
theorem Inv.pop (inv : Inv adj U (u :: path) z) (clear : ¬ ReachesCycle (Edge adj) u) :
    Inv adj U path (z.paint u .black) := by
  obtain ⟨hnew, hnodup⟩ := List.nodup_cons.mp inv.nodup
  refine ⟨fun v => ?_, fun v hv => ?_, fun v hv => ?_, inv.linked.2, hnodup,
    (List.isChain_cons.mp inv.edges).2, fun v hv => inv.within v (List.mem_cons_of_mem u hv)⟩
  · by_cases hvu : v = u
    · simp [hvu, hnew]
    · rw [Search.mark_paint_of_ne hvu, inv.gray v, List.mem_cons]
      simp [hvu]
  · by_cases hvu : v = u
    · exact hvu ▸ clear
    · rw [Search.mark_paint_of_ne hvu] at hv
      exact inv.black v hv
  · by_cases hvu : v = u
    · rw [hvu, Search.mark_paint_self] at hv
      cases hv
    · rw [Search.mark_paint_of_ne hvu] at hv
      exact inv.orphan v hv

omit [DecidableEq V] in
/-- A gray point is on a path to the point whose loop comes upon it, and that closes a cycle. -/
theorem Inv.reachesCycle (inv : Inv adj U (u :: path) z) (gray : z.mark d = .gray)
    (edge : Edge adj u d) : ReachesCycle (Edge adj) d :=
  ReachesCycle.of_onCycle (onCycle_of_isChain inv.edges ((inv.gray d).mp gray) edge)

/-! ## What a visit does -/

/-- **What comes of a visit**: nothing, and no cycle can be reached from its point; or the way to
a cycle, which is then the path of the points whose loops are still running. -/
inductive Visited (adj : V → List V) (U : Finset V) (path : List V) (u : V) (z : Search V) :
    Option V × Search V → Prop
  | clear {z' : Search V} (acyclic : ¬ ReachesCycle (Edge adj) u) (inv : Inv adj U path z')
      (shrinks : Shrinks z z') : Visited adj U path u z (none, z')
  | found {c : V} {path' : List V} {z' : Search V} (walk : Walk adj path u path' c)
      (inv : Inv adj U path' z') : Visited adj U path u z (some c, z')

/-- **What comes of a loop**, by the first of its points from which a cycle can be reached. -/
inductive Looped (adj : V → List V) (U : Finset V) (path : List V) (ds : List V)
    (z : Search V) : Option V × Search V → Prop
  | clear {z' : Search V} (noNext : firstToCycle adj ds = none) (inv : Inv adj U path z')
      (shrinks : Shrinks z z') : Looped adj U path ds z (none, z')
  | closes {c : V} {z' : Search V} (next : firstToCycle adj ds = some c) (again : c ∈ path)
      (inv : Inv adj U path z') : Looped adj U path ds z (some c, z')
  | goesOn {d c : V} {path' : List V} {z' : Search V} (next : firstToCycle adj ds = some d)
      (new : d ∉ path) (walk : Walk adj path d path' c) (inv : Inv adj U path' z') :
      Looped adj U path ds z (some c, z')

omit [DecidableEq V] in
/-- A point from which no cycle can be reached makes no difference to a loop. -/
theorem Looped.cons {ds : List V} {z₁ : Search V} {x : Option V × Search V}
    (h : Looped adj U path ds z₁ x) (clear : ¬ ReachesCycle (Edge adj) d)
    (shrinks : Shrinks z z₁) : Looped adj U path (d :: ds) z x := by
  have hfirst : firstToCycle adj (d :: ds) = firstToCycle adj ds := firstToCycle_cons_of_neg clear
  cases h with
  | clear noNext inv shrinks' => exact .clear (hfirst.trans noNext) inv (shrinks.trans shrinks')
  | closes next again inv => exact .closes (hfirst.trans next) again inv
  | goesOn next new walk inv => exact .goesOn (hfirst.trans next) new walk inv

/-- **A loop**, by what the visits in it do. -/
theorem loop_spec {f : V → Search V → Option V × Search V} {depth : ℕ} {ds : List V}
    (inU : ∀ d ∈ ds, d ∈ U) (edges : ∀ d ∈ ds, Edge adj u d)
    (visits : ∀ d z, d ∈ U → z.mark d = .white → Inv adj U (d :: u :: path) (z.paint d .gray) →
      (whites U z).card ≤ depth → Visited adj U (u :: path) d z (f d z))
    (inv : Inv adj U (u :: path) z) (few : (whites U z).card ≤ depth) :
    Looped adj U (u :: path) ds z (loop f u ds z) := by
  induction ds generalizing z with
  | nil => exact .clear firstToCycle_nil inv (fun _ h => h)
  | cons d ds ih =>
    have hd : d ∈ U := inU d List.mem_cons_self
    have hedge : Edge adj u d := edges d List.mem_cons_self
    have hrest : ∀ z₁, Inv adj U (u :: path) z₁ → Shrinks z z₁ →
        Looped adj U (u :: path) ds z₁ (loop f u ds z₁) := fun z₁ hinv hshrinks =>
      ih (fun d hd => inU d (List.mem_cons_of_mem _ hd))
        (fun d hd => edges d (List.mem_cons_of_mem _ hd)) hinv (hshrinks.card_le.trans few)
    rw [loop]
    cases hmark : z.mark d with
    | gray =>
      exact .closes (firstToCycle_cons_of_pos (inv.reachesCycle hmark hedge))
        ((inv.gray d).mp hmark) inv
    | black => exact (hrest z inv (fun _ h => h)).cons (inv.black d hmark) (fun _ h => h)
    | white =>
      have hnew : d ∉ u :: path := by
        intro hmem
        rw [(inv.gray d).mpr hmem] at hmark
        cases hmark
      have hpush : Inv adj U (d :: u :: path) ((z.reach d u).paint d .gray) := by
        refine inv.push hd hmark Search.parent_reach_self (fun v hv => Search.parent_reach_of_ne hv)
          rfl (fun w hw => ?_)
        rwa [← Option.some.inj hw]
      have hvisit := visits d (z.reach d u) hd hmark hpush few
      generalize f d (z.reach d u) = x at hvisit ⊢
      cases hvisit with
      | clear acyclic hinv hshrinks => exact (hrest _ hinv hshrinks).cons acyclic hshrinks
      | found walk hinv =>
        exact .goesOn (firstToCycle_cons_of_pos walk.reachesCycle) hnew walk hinv

/-- **A visit**, of a point that is white, goes the way to a cycle, or leaves the point black
where there is none. -/
theorem visit_spec (inU : ∀ u, ∀ d ∈ adj u, d ∈ U) {depth : ℕ} (hu : u ∈ U)
    (white : z.mark u = .white) (inv : Inv adj U (u :: path) (z.paint u .gray))
    (few : (whites U z).card ≤ depth) : Visited adj U path u z (visit adj depth u z) := by
  induction depth generalizing u path z with
  | zero =>
    -- `u` itself is still white
    have hmem : u ∈ whites U z := Finset.mem_filter.mpr ⟨hu, white⟩
    exact absurd (Finset.card_pos.mpr ⟨u, hmem⟩) (by omega)
  | succ depth ih =>
    have hfew := card_whites_paint (m := .gray) (by decide) hu white
    have hlooped := loop_spec (inU u) (fun _ h => h) (fun d z hd hwhite hinv hcard =>
      ih hd hwhite hinv hcard) inv (by omega)
    rw [visit]
    generalize loop (visit adj depth) u (adj u) (z.paint u .gray) = x at hlooped ⊢
    cases hlooped with
    | clear noNext hinv hshrinks =>
      have hclear : ¬ ReachesCycle (Edge adj) u := by
        rw [reachesCycle_iff]
        rintro ⟨d, hd, hcycle⟩
        exact firstToCycle_eq_none_iff.mp noNext d hd hcycle
      refine .clear hclear (hinv.pop hclear) ?_
      exact (shrinks_paint (by decide)).trans (hshrinks.trans (shrinks_paint (by decide)))
    | closes next again hinv => exact .found (.closes next again) hinv
    | goesOn next new walk hinv => exact .found (.goesOn next new walk) hinv

/-! ## The whole search -/

/-- **What comes of the search**: nothing, and no cycle can be reached from any of its points;
or the way to a cycle from the first of them from which one can be reached. -/
inductive Searched (adj : V → List V) (U : Finset V) (ks : List V) : Option (V × Search V) → Prop
  | clear (noRoot : firstToCycle adj ks = none) : Searched adj U ks none
  | found {root c : V} {path' : List V} {z' : Search V} (first : firstToCycle adj ks = some root)
      (walk : Walk adj [] root path' c) (inv : Inv adj U path' z') :
      Searched adj U ks (some (c, z'))

theorem search_spec (inU : ∀ u, ∀ d ∈ adj u, d ∈ U) {depth : ℕ} {ks : List V}
    (starts : ∀ k ∈ ks, k ∈ U) (deep : U.card ≤ depth) (inv : Inv adj U [] z) :
    Searched adj U ks (search adj depth ks z) := by
  induction ks generalizing z with
  | nil => exact .clear firstToCycle_nil
  | cons k ks ih =>
    have hrest : ∀ z₁, Inv adj U [] z₁ → ¬ ReachesCycle (Edge adj) k →
        Searched adj U (k :: ks) (search adj depth ks z₁) := by
      intro z₁ hinv hclear
      have hfirst : firstToCycle adj (k :: ks) = firstToCycle adj ks :=
        firstToCycle_cons_of_neg hclear
      have hsearched := ih (fun k hk => starts k (List.mem_cons_of_mem _ hk)) hinv
      generalize search adj depth ks z₁ = x at hsearched ⊢
      cases hsearched with
      | clear noRoot => exact .clear (hfirst.trans noRoot)
      | found first walk inv => exact .found (hfirst.trans first) walk inv
    rw [search]
    split
    · rename_i hwhite
      have hk : k ∈ U := starts k List.mem_cons_self
      have hpush : Inv adj U [k] (z.paint k .gray) :=
        inv.push hk hwhite (inv.orphan k hwhite) (fun _ _ => rfl) rfl (fun _ hw => by cases hw)
      have hfew : (whites U z).card ≤ depth := (Finset.card_filter_le _ _).trans deep
      have hvisit := visit_spec inU hk hwhite hpush hfew
      generalize visit adj depth k z = x at hvisit ⊢
      cases hvisit with
      | clear acyclic hinv => exact hrest _ hinv acyclic
      | found walk hinv =>
        exact .found (firstToCycle_cons_of_pos walk.reachesCycle) walk hinv
    · rename_i hmark
      -- between the visits nothing is gray
      have hblack : z.mark k = .black := by
        cases hcolor : z.mark k with
        | white => exact absurd hcolor hmark
        | gray => exact absurd ((inv.gray k).mp hcolor) List.not_mem_nil
        | black => rfl
      exact hrest z inv (inv.black k hblack)

/-! ## The cycle that is returned -/

/-- **The search for a cycle**: the point come upon twice, the way back from it, and the point
again, put the right way round. -/
def findCycle (adj : V → List V) (depth : ℕ) (ks : List V) : Option (List V) :=
  (search adj depth ks {}).map (fun x =>
    (x.1 :: backward x.2.parent x.1 depth (x.2.parent x.1) ++ [x.1]).reverse)

omit [DecidableEq V] in
theorem Linked.of_append {parent : V → Option V} {ahead behind : List V}
    (h : Linked parent (ahead ++ behind)) : Linked parent behind := by
  induction ahead with
  | nil => exact h
  | cons v ahead ih => exact ih h.2

/-- The way back by the parents goes along the path, up to the first point that has none. -/
theorem backward_of_linked {parent : V → Option V} {behind : List V} {fuel : ℕ}
    (linked : Linked parent behind) (new : c ∉ behind) (enough : behind.length ≤ fuel) :
    backward parent c fuel behind.head? = behind := by
  induction behind generalizing fuel with
  | nil => cases fuel <;> rfl
  | cons v behind ih =>
    obtain ⟨hne, hnew⟩ := not_or.mp (mt List.mem_cons.mpr new)
    obtain ⟨fuel, rfl⟩ : ∃ n, fuel = n + 1 :=
      Nat.exists_eq_add_one.mpr ((Nat.succ_pos _).trans_le enough)
    rw [List.head?_cons, backward, if_neg (Ne.symm hne), linked.1]
    exact congrArg (v :: ·) (ih linked.2 hnew (Nat.le_of_succ_le_succ enough))

/-- **What is returned**, by the way to a cycle: from the point come upon twice back to where the
search began, the right way round, and that point on both sides. -/
theorem findCycle_eq (inU : ∀ u, ∀ d ∈ adj u, d ∈ U) {depth : ℕ} {ks : List V}
    (starts : ∀ k ∈ ks, k ∈ U) (deep : U.card ≤ depth) {root : V}
    (first : firstToCycle adj ks = some root) :
    ∃ ahead c behind, Walk adj [] root (ahead ++ c :: behind) c
      ∧ (ahead ++ c :: behind).IsChain (fun a b => Edge adj b a)
      ∧ findCycle adj depth ks = some (c :: (behind.reverse ++ [c])) := by
  have hsearched := search_spec inU starts deep (inv_start adj U)
  unfold findCycle
  generalize search adj depth ks {} = x at hsearched ⊢
  cases hsearched with
  | clear noRoot =>
    rw [noRoot] at first
    cases first
  | @found root' c path' z' first' walk inv =>
    obtain rfl := Option.some.inj (first.symm.trans first')
    obtain ⟨ahead, behind, rfl⟩ := List.append_of_mem walk.mem
    refine ⟨ahead, c, behind, walk, inv.edges, ?_⟩
    have hlinked : Linked z'.parent (c :: behind) := inv.linked.of_append
    have hnew : c ∉ behind := (List.nodup_cons.mp inv.nodup.of_append_right).1
    have hlength : (ahead ++ c :: behind).length ≤ depth := by
      refine le_trans ?_ deep
      rw [← List.toFinset_card_of_nodup inv.nodup]
      exact Finset.card_le_card (fun v hv => inv.within v (List.mem_toFinset.mp hv))
    have henough : behind.length ≤ depth := by
      rw [List.length_append, List.length_cons] at hlength
      omega
    rw [Option.map_some, hlinked.1, backward_of_linked hlinked.2 hnew henough]
    simp

/-- **Nothing is returned** just where no cycle can be reached. -/
theorem findCycle_eq_none_iff (inU : ∀ u, ∀ d ∈ adj u, d ∈ U) {depth : ℕ} {ks : List V}
    (starts : ∀ k ∈ ks, k ∈ U) (deep : U.card ≤ depth) :
    findCycle adj depth ks = none ↔ ∀ k ∈ ks, ¬ ReachesCycle (Edge adj) k := by
  have hsearched := search_spec inU starts deep (inv_start adj U)
  rw [← firstToCycle_eq_none_iff]
  unfold findCycle
  generalize search adj depth ks {} = x at hsearched ⊢
  cases hsearched with
  | clear noRoot => simp [noRoot]
  | found first => simp [first]

omit [DecidableEq V] in
/-- **What is returned is a cycle** just where the point come upon twice steps to the point where
the search began. -/
theorem isChain_iff_edge {ahead behind : List V} {root : V}
    (edges : (ahead ++ c :: behind).IsChain (fun a b => Edge adj b a))
    (last : (ahead ++ c :: behind).getLast? = some root) :
    (c :: (behind.reverse ++ [c])).IsChain (Edge adj) ↔ Edge adj c root := by
  have hback : (behind.reverse ++ [c]).IsChain (Edge adj) := by
    rw [← List.reverse_cons, List.isChain_reverse]
    exact (List.isChain_append.mp edges).2.1
  have hhead : (behind.reverse ++ [c]).head? = some root := by
    rw [← List.reverse_cons, List.head?_reverse, ← last, List.getLast?_append]
    cases hlast : (c :: behind).getLast? with
    | none => simp at hlast
    | some v => rfl
  rw [List.isChain_cons, hhead]
  simp [hback]

end DepthFirst
