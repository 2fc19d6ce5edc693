import JobOrchestrator.Core.ExecutionPlan
import JobOrchestrator.Util.DepthFirst

/-!
# The cycle detectors

`has_cycle` and `find_cycle` are one depth-first search, of which the second remembers from where
each node was reached. Here both are written for loops in any order, the nodes and each set of
dependents in one of its own, and proved to be the search of `Util.DepthFirst`, which finds a
cycle just where there is one. So do the execution plan and `validate`.

What `find_cycle` returns is another matter. It goes back from the node that the search came upon
twice, which leads out of the cycle and to where the search began, and then joins the two ends.
`realCycle_iff` says when that is a cycle: when there happens to be an edge between them.
-/

namespace JobOrchestrator

namespace DAG

/-! ## The searches, with their loops in any order -/

/-- `dfs` of `has_cycle`. -/
def hasCycleVisit (dependents : UUID → List UUID) :
    ℕ → UUID → (UUID → Color) → Bool × (UUID → Color)
  | 0, _, color => (false, color)
  | depth + 1, jobId, color =>
    match hasCycleLoop (hasCycleVisit dependents depth) (dependents jobId)
        (paint color jobId .gray) with
    | (true, color') => (true, color')
    | (false, color') => (false, paint color' jobId .black)

/-- The loop of `has_cycle` over the nodes. -/
def hasCycleFrom (dependents : UUID → List UUID) (depth : ℕ) :
    List UUID → (UUID → Color) → Bool
  | [], _ => false
  | k :: ks, color =>
    if color k = .white then
      match hasCycleVisit dependents depth k color with
      | (true, _) => true
      | (false, color') => hasCycleFrom dependents depth ks color'
    else hasCycleFrom dependents depth ks color

/-- **`has_cycle`**, with its loops in the given orders. -/
def hasCycleIn (g : DAG) (orders : g.LoopOrders) : Bool :=
  hasCycleFrom orders.dependents (g.nodes.size + 1) orders.nodes (fun _ => .white)

/-- `dfs` of `find_cycle`. -/
def findCycleVisit (dependents : UUID → List UUID) :
    ℕ → UUID → Search → Option UUID × Search
  | 0, _, z => (none, z)
  | depth + 1, jobId, z =>
    match findCycleLoop (findCycleVisit dependents depth) jobId (dependents jobId)
        { z with color := paint z.color jobId .gray } with
    | (some c, z') => (some c, z')
    | (none, z') => (none, { z' with color := paint z'.color jobId .black })

/-- The loop of `find_cycle` over the nodes. -/
def findCycleFrom (dependents : UUID → List UUID) (depth : ℕ) :
    List UUID → Search → Option (List UUID)
  | [], _ => none
  | k :: ks, z =>
    if z.color k = .white then
      match findCycleVisit dependents depth k z with
      | (some c, z') =>
        some (c :: (walkParents z'.parent c depth (z'.parent c)) ++ [c]).reverse
      | (none, z') => findCycleFrom dependents depth ks z'
    else findCycleFrom dependents depth ks z

/-- **`find_cycle`**, with its loops in the given orders. -/
def findCycleIn (g : DAG) (orders : g.LoopOrders) : Option (List UUID) :=
  findCycleFrom orders.dependents (g.nodes.size + 1) orders.nodes {}

/-- **`validate`**, with the loops of the searches in the given orders. -/
def validateIn (g : DAG) (orders : g.LoopOrders) (order : IterationOrder UUID) :
    Except OrchestratorError Bool :=
  let cycles :=
    if g.hasCycleIn orders then
      ["Cycle detected: "
        ++ String.intercalate " -> " (((g.findCycleIn orders).getD []).map UUID.str)]
    else []
  let errors := g.missingDependencies order ++ cycles
  if errors ≠ [] then .error (.dagValidation g.id errors) else .ok true

variable {g : DAG} {order : IterationOrder UUID} {dependents : UUID → List UUID}

/-! ### One order for all sets -/

theorem hasCycleDfs_eq (depth : ℕ) :
    hasCycleDfs order g depth = hasCycleVisit (dependentsOf order g) depth := by
  induction depth with
  | zero => rfl
  | succ depth ih =>
    funext jobId color
    rw [hasCycleDfs, ih]
    rfl

theorem findCycleDfs_eq (depth : ℕ) :
    findCycleDfs order g depth = findCycleVisit (dependentsOf order g) depth := by
  induction depth with
  | zero => rfl
  | succ depth ih =>
    funext jobId z
    rw [findCycleDfs, ih]
    rfl

/-- **`has_cycle` with one order for all sets** is a case of it. -/
theorem hasCycle_eq (order : IterationOrder UUID) (g : DAG) :
    g.hasCycle order = g.hasCycleIn (.of order g) := by
  have hgo : ∀ ks color, hasCycle.go order g ks color
      = hasCycleFrom (dependentsOf order g) (g.nodes.size + 1) ks color := by
    intro ks
    induction ks with
    | nil => exact fun _ => rfl
    | cons k ks ih =>
      intro color
      rw [hasCycle.go, hasCycleDfs_eq]
      simp only [ih]
      rfl
  exact hgo _ _

/-- And so is `find_cycle`, in the order that a Python set happens to have. -/
theorem findCycle_eq (order : IterationOrder UUID) (g : DAG) :
    g.findCycle order = g.findCycleIn (.of order g) := by
  have hgo : ∀ ks z, findCycle.go order g ks z
      = findCycleFrom (dependentsOf order g) (g.nodes.size + 1) ks z := by
    intro ks
    induction ks with
    | nil => exact fun _ => rfl
    | cons k ks ih =>
      intro z
      rw [findCycle.go, findCycleDfs_eq]
      simp only [ih]
      rfl
  exact hgo _ _

theorem validate_eq (order : IterationOrder UUID) (g : DAG) :
    g.validate order = g.validateIn (.of order g) order := by
  unfold validate validateIn
  rw [hasCycle_eq, findCycle_eq]

/-! ## The two searches are one -/

/-- **The two searches colour alike**, and the one says whether the other has found a node. -/
inductive SameSearch : Bool × (UUID → Color) → Option UUID × Search → Prop
  | found (c : UUID) (z : Search) : SameSearch (true, z.color) (some c, z)
  | passed (z : Search) : SameSearch (false, z.color) (none, z)

theorem sameSearch_loop {f : UUID → (UUID → Color) → Bool × (UUID → Color)}
    {f' : UUID → Search → Option UUID × Search}
    (visits : ∀ d z, SameSearch (f d z.color) (f' d z)) (jobId : UUID) (ds : List UUID)
    (z : Search) : SameSearch (hasCycleLoop f ds z.color) (findCycleLoop f' jobId ds z) := by
  induction ds generalizing z with
  | nil => exact .passed z
  | cons d ds ih =>
    rw [hasCycleLoop, findCycleLoop]
    cases z.color d with
    | gray => exact .found d z
    | black => exact ih z
    | white =>
      have hvisit := visits d
        { z with parent := fun k => if k = d then some jobId else z.parent k }
      simp only at hvisit ⊢
      generalize f d z.color = x at hvisit ⊢
      generalize f' d _ = y at hvisit ⊢
      cases hvisit with
      | found c z' => exact .found c z'
      | passed z' => exact ih z'

theorem sameSearch_visit (dependents : UUID → List UUID) (depth : ℕ) (jobId : UUID) (z : Search) :
    SameSearch (hasCycleVisit dependents depth jobId z.color)
      (findCycleVisit dependents depth jobId z) := by
  induction depth generalizing jobId z with
  | zero => exact .passed z
  | succ depth ih =>
    have hloop := sameSearch_loop ih jobId (dependents jobId)
      { z with color := paint z.color jobId .gray }
    rw [hasCycleVisit, findCycleVisit]
    generalize hasCycleLoop _ _ _ = x at hloop ⊢
    generalize findCycleLoop _ _ _ _ = y at hloop ⊢
    cases hloop with
    | found c z' => exact .found c z'
    | passed z' => exact .passed { z' with color := paint z'.color jobId .black }

theorem hasCycleFrom_eq (dependents : UUID → List UUID) (depth : ℕ) (ks : List UUID)
    (z : Search) : hasCycleFrom dependents depth ks z.color
      = (findCycleFrom dependents depth ks z).isSome := by
  induction ks generalizing z with
  | nil => rfl
  | cons k ks ih =>
    have hvisit := sameSearch_visit dependents depth k z
    rw [hasCycleFrom, findCycleFrom]
    split
    · generalize hasCycleVisit dependents depth k z.color = x at hvisit ⊢
      generalize findCycleVisit dependents depth k z = y at hvisit ⊢
      cases hvisit with
      | found c z' => rfl
      | passed z' => exact ih z'
    · exact ih z

/-- **`has_cycle` says whether `find_cycle` finds one.** The two searches are written
differently, but colour the same nodes at the same time. -/
theorem hasCycleIn_eq (orders : g.LoopOrders) :
    g.hasCycleIn orders = (g.findCycleIn orders).isSome :=
  hasCycleFrom_eq orders.dependents (g.nodes.size + 1) orders.nodes {}

/-! ## The search of the library -/

/-- The colours of the search. -/
def Color.mark : Color → DepthFirst.Mark
  | .white => .white
  | .gray => .gray
  | .black => .black

/-- The state of the search. -/
def Search.toDepthFirst (z : Search) : DepthFirst.Search UUID where
  mark k := (z.color k).mark
  parent := z.parent

theorem toDepthFirst_paint (z : Search) (jobId : UUID) (c : Color) :
    Search.toDepthFirst { z with color := paint z.color jobId c }
      = z.toDepthFirst.paint jobId c.mark := by
  unfold Search.toDepthFirst DepthFirst.Search.paint paint
  congr 1
  funext k
  by_cases hk : k = jobId <;> simp [hk]

theorem findCycleLoop_eq {f : UUID → Search → Option UUID × Search}
    {f' : UUID → DepthFirst.Search UUID → Option UUID × DepthFirst.Search UUID}
    (visits : ∀ d z, f' d z.toDepthFirst = ((f d z).1, (f d z).2.toDepthFirst)) (jobId : UUID)
    (ds : List UUID) (z : Search) : DepthFirst.loop f' jobId ds z.toDepthFirst
      = ((findCycleLoop f jobId ds z).1, (findCycleLoop f jobId ds z).2.toDepthFirst) := by
  induction ds generalizing z with
  | nil => rfl
  | cons d ds ih =>
    have hmark : z.toDepthFirst.mark d = (z.color d).mark := rfl
    rw [DepthFirst.loop, findCycleLoop, hmark]
    cases z.color d with
    | gray => rfl
    | black => exact ih z
    | white =>
      have hvisit := visits d
        { z with parent := fun k => if k = d then some jobId else z.parent k }
      have hreach : Search.toDepthFirst
          { z with parent := fun k => if k = d then some jobId else z.parent k }
          = z.toDepthFirst.reach d jobId := rfl
      rw [hreach] at hvisit
      simp only [Color.mark, hvisit]
      generalize f d _ = y
      obtain ⟨cycleNode, z'⟩ := y
      cases cycleNode with
      | some c => rfl
      | none => exact ih z'

theorem findCycleVisit_eq (dependents : UUID → List UUID) (depth : ℕ) (jobId : UUID)
    (z : Search) : DepthFirst.visit dependents depth jobId z.toDepthFirst
      = ((findCycleVisit dependents depth jobId z).1,
        (findCycleVisit dependents depth jobId z).2.toDepthFirst) := by
  induction depth generalizing jobId z with
  | zero => rfl
  | succ depth ih =>
    have hloop := findCycleLoop_eq ih jobId (dependents jobId)
      { z with color := paint z.color jobId .gray }
    rw [toDepthFirst_paint] at hloop
    rw [DepthFirst.visit, findCycleVisit, show DepthFirst.Mark.gray = Color.gray.mark from rfl,
      hloop]
    generalize findCycleLoop _ _ _ _ = y
    obtain ⟨cycleNode, z'⟩ := y
    cases cycleNode with
    | some c => rfl
    | none =>
      simp only [toDepthFirst_paint]
      rfl

theorem walkParents_eq (parent : UUID → Option UUID) (c : UUID) (fuel : ℕ)
    (start : Option UUID) :
    walkParents parent c fuel start = DepthFirst.backward parent c fuel start := by
  induction fuel generalizing start with
  | zero => rfl
  | succ fuel ih =>
    cases start with
    | none => rfl
    | some current => simp only [walkParents, DepthFirst.backward, ih]

theorem findCycleFrom_eq (dependents : UUID → List UUID) (depth : ℕ) (ks : List UUID)
    (z : Search) : findCycleFrom dependents depth ks z
      = (DepthFirst.search dependents depth ks z.toDepthFirst).map (fun x =>
        (x.1 :: DepthFirst.backward x.2.parent x.1 depth (x.2.parent x.1) ++ [x.1]).reverse) := by
  induction ks generalizing z with
  | nil => rfl
  | cons k ks ih =>
    have hwhite : z.toDepthFirst.mark k = .white ↔ z.color k = .white := by
      show (z.color k).mark = .white ↔ _
      cases z.color k <;> simp [Color.mark]
    rw [findCycleFrom, DepthFirst.search, findCycleVisit_eq]
    by_cases hk : z.color k = .white
    · rw [if_pos hk, if_pos (hwhite.mpr hk)]
      generalize findCycleVisit dependents depth k z = y
      obtain ⟨cycleNode, z'⟩ := y
      cases cycleNode with
      | some c =>
        simp only [walkParents_eq]
        rfl
      | none => exact ih z'
    · rw [if_neg hk, if_neg (mt hwhite.mp hk)]
      exact ih z

/-- **`find_cycle` is the depth-first search of the library.** What the library says of any graph
and order then holds of it. -/
theorem findCycleIn_eq (orders : g.LoopOrders) : g.findCycleIn orders
    = DepthFirst.findCycle orders.dependents (g.nodes.size + 1) orders.nodes :=
  findCycleFrom_eq orders.dependents (g.nodes.size + 1) orders.nodes {}

/-! ## The verdict -/

section Verdict

variable (hg : g.WellFormed) (orders : g.LoopOrders)
include hg

theorem mem_dependents_toFinset (u : UUID) :
    ∀ d ∈ orders.dependents u, d ∈ g.nodes.keys.toFinset := by
  intro d hd
  rw [List.mem_toFinset, ← hg.jobs]
  exact hg.mem_jobs_of_releases (orders.mem_dependents.mp hd)

omit hg in
theorem mem_nodes_toFinset : ∀ k ∈ orders.nodes, k ∈ g.nodes.keys.toFinset := by
  intro k hk
  rw [List.mem_toFinset]
  exact orders.perm_nodes.mem_iff.mp hk

omit hg in
theorem card_keys_le (g : DAG) : g.nodes.keys.toFinset.card ≤ g.nodes.size + 1 := by
  rw [List.toFinset_card_of_nodup g.nodes.nodup_keys, OrderedDict.size_eq_length_keys]
  exact Nat.le_succ _

omit hg in
theorem edge_eq : DepthFirst.Edge orders.dependents = g.Releases := by
  ext u v
  exact orders.mem_dependents

/-- A node from which a cycle can be reached is one the search begins from at some time. -/
theorem cyclic_iff_exists_node :
    g.Cyclic ↔ ∃ k ∈ orders.nodes, ReachesCycle g.Releases k := by
  rw [Cyclic, ← exists_reachesCycle_iff]
  refine exists_congr (fun k => ⟨fun h => ⟨?_, h⟩, fun h => h.2⟩)
  obtain ⟨v, hkv, -⟩ := reachesCycle_iff.mp h
  exact (orders.perm_jobs hg).mem_iff.mpr
    (mem_jobs_of_dependsOn hg (hg.mirrored.mpr hkv)).1

/-- **`find_cycle` finds one just where there is one.** The fuel of the recursion is never used
up: a path has at most as many points as there are nodes. -/
theorem findCycleIn_ne_none_iff : g.findCycleIn orders ≠ none ↔ g.Cyclic := by
  rw [ne_eq, findCycleIn_eq, DepthFirst.findCycle_eq_none_iff (mem_dependents_toFinset hg orders)
    (mem_nodes_toFinset orders) (card_keys_le g), edge_eq, cyclic_iff_exists_node hg orders]
  simp only [not_forall, not_not, exists_prop]

theorem hasCycleIn_iff : g.hasCycleIn orders = true ↔ g.Cyclic := by
  rw [hasCycleIn_eq, ← findCycleIn_ne_none_iff hg orders, Option.isSome_iff_ne_none]

omit orders in
/-- No dependency is missing from a graph that was built. -/
theorem missingDependencies_eq_nil (order : IterationOrder UUID) :
    g.missingDependencies order = [] := by
  unfold missingDependencies
  rw [List.flatMap_eq_nil_iff]
  rintro ⟨jobId, n⟩ hentry
  rw [List.map_eq_nil_iff, List.filter_eq_nil_iff]
  intro d hd
  have hdep : g.DependsOn jobId d :=
    ⟨n, OrderedDict.get?_eq_some_iff.mpr hentry, order.mem_list.mp hd⟩
  have hkey : d ∈ g.nodes.keys := hg.jobs ▸ (mem_jobs_of_dependsOn hg hdep).1
  simp [hkey]

/-- **`validate` raises just where there is a cycle.** It also collects the dependencies that
have no node, of which a well-formed graph has none. -/
theorem validateIn_error_iff (order : IterationOrder UUID) :
    (∃ e, g.validateIn orders order = .error e) ↔ g.Cyclic := by
  rw [← hasCycleIn_iff hg orders]
  unfold validateIn
  rw [missingDependencies_eq_nil hg]
  by_cases hcycle : g.hasCycleIn orders = true
  · simp [hcycle]
  · simp [hcycle]

end Verdict

/-- **The cycle detectors agree**, for every graph that calls of the building operations make,
and each with its loops in orders of its own: all of them say whether the dependents have a
directed cycle. The searches that take one order for all sets are among them. -/
theorem detectors_agree (options : DAG) (jobs : JobTable) (cs : List BuildCall) :
    let g := (History.after DAGBuild.step (DAGBuild.new options jobs) cs).dag
    (∀ orders, g.hasCycleIn orders = true ↔ g.Cyclic)
      ∧ (∀ orders, g.findCycleIn orders ≠ none ↔ g.Cyclic)
      ∧ (∀ orders sets, (∃ e, g.getExecutionPlan orders sets = .error e) ↔ g.Cyclic)
      ∧ (∀ orders order, (∃ e, g.validateIn orders order = .error e) ↔ g.Cyclic)
      ∧ ∀ order, g.hasCycle order = g.hasCycleIn (.of order g)
        ∧ g.findCycle order = g.findCycleIn (.of order g)
        ∧ g.validate order = g.validateIn (.of order g) order := by
  intro g
  have hg : g.WellFormed := wellFormed_after options jobs cs
  exact ⟨hasCycleIn_iff hg, findCycleIn_ne_none_iff hg, getExecutionPlan_error_iff hg,
    validateIn_error_iff hg, fun order => ⟨hasCycle_eq order g, findCycle_eq order g,
      validate_eq order g⟩⟩

/-! ## The cycle that is returned -/

/-- **A cycle of the graph**, as a list: it ends where it begins, and its steps are edges. A
self-edge is the shortest one, with the same job twice. -/
structure RealCycle (g : DAG) (l : List UUID) : Prop where
  two_le : 2 ≤ l.length
  closed : l.head? = l.getLast?
  edges : l.IsChain g.Releases

/-- **The way of the search comes back to a node with an edge to its beginning.** The search
begins from the first node from which a cycle can be reached, and goes on to the first of the
dependents from which one can be reached, until it has been there before. -/
def ReturnsToBeginning (g : DAG) (orders : g.LoopOrders) : Prop :=
  ∃ root way c, DepthFirst.firstToCycle orders.dependents orders.nodes = some root
    ∧ DepthFirst.Walk orders.dependents [] root way c ∧ g.Releases c root

/-- **When `find_cycle` returns a cycle**, for every graph with a directed cycle that calls of
the building operations make, and any orders of the loops: where the node that the search comes
back to has an edge to the node it began from. In any case the list has two nodes or more, and
ends where it begins. -/
theorem realCycle_iff (options : DAG) (jobs : JobTable) (cs : List BuildCall)
    (cyclic : (History.after DAGBuild.step (DAGBuild.new options jobs) cs).dag.Cyclic)
    (orders : (History.after DAGBuild.step (DAGBuild.new options jobs) cs).dag.LoopOrders) :
    let g := (History.after DAGBuild.step (DAGBuild.new options jobs) cs).dag
    ∃ l, g.findCycleIn orders = some l ∧ 2 ≤ l.length ∧ l.head? = l.getLast?
      ∧ (g.RealCycle l ↔ g.ReturnsToBeginning orders) := by
  intro g
  have hg : g.WellFormed := wellFormed_after options jobs cs
  obtain ⟨k, hk, hreach⟩ := (cyclic_iff_exists_node hg orders).mp cyclic
  obtain ⟨root, hroot⟩ : ∃ root,
      DepthFirst.firstToCycle orders.dependents orders.nodes = some root := by
    rw [← Option.ne_none_iff_exists', ne_eq, DepthFirst.firstToCycle_eq_none_iff, edge_eq]
    exact fun hnone => hnone k hk hreach
  obtain ⟨ahead, c, behind, hwalk, hchain, hfound⟩ := DepthFirst.findCycle_eq
    (mem_dependents_toFinset hg orders) (mem_nodes_toFinset orders) (card_keys_le g) hroot
  have hends : (c :: (behind.reverse ++ [c])).head? = (c :: (behind.reverse ++ [c])).getLast? := by
    rw [← List.cons_append, List.getLast?_concat]
    rfl
  refine ⟨_, (findCycleIn_eq orders).trans hfound, by simp, hends, ?_⟩
  have hedges := DepthFirst.isChain_iff_edge hchain hwalk.getLast?
  rw [edge_eq] at hedges
  constructor
  · intro hreal
    exact ⟨root, _, c, hroot, hwalk, hedges.mp hreal.edges⟩
  · rintro ⟨root', way, c', hroot', hwalk', hback⟩
    -- the way of the search is the only one
    obtain rfl := Option.some.inj (hroot.symm.trans hroot')
    obtain ⟨-, rfl⟩ := hwalk.unique hwalk'
    exact ⟨by simp, hends, hedges.mpr hback⟩

/-- Two cycles with the job 3 in common. -/
def figureEight : List BuildCall :=
  [.addNode { id := 2 }, .addNode { id := 3 }, .addNode { id := 1 }, .addEdge 2 3, .addEdge 3 1,
    .addEdge 1 3, .addEdge 3 2]

/-- The search begins from the job 2 and comes back to the job 3 by way of the job 1. What it
returns is the other cycle, which is one because 3 has an edge to 2. -/
theorem realCycle_iff_figureEight :
    let g := (History.after DAGBuild.step (DAGBuild.new { id := 7 } .fresh) figureEight).dag
    g.findCycleIn (.of .increasing g) = some [3, 2, 3] ∧ g.RealCycle [3, 2, 3]
      ∧ g.ReturnsToBeginning (.of .increasing g) := by
  intro g
  have hfound : g.findCycleIn (.of .increasing g) = some [3, 2, 3] := by decide +kernel
  have hthere : g.Releases 3 2 := ⟨⟨3, {1, 2}, {2, 1}⟩, by decide +kernel, by decide⟩
  have hback : g.Releases 2 3 := ⟨⟨2, {3}, {3}⟩, by decide +kernel, by decide⟩
  have hreal : g.RealCycle [3, 2, 3] :=
    ⟨by decide, rfl, .cons_cons hthere (.cons_cons hback (.singleton 3))⟩
  obtain ⟨l, hl, -, -, hiff⟩ := realCycle_iff { id := 7 } .fresh figureEight
    ⟨3, (Relation.TransGen.single hthere).tail hback⟩ (.of .increasing g)
  obtain rfl : [3, 2, 3] = l := Option.some.inj (hfound.symm.trans hl)
  exact ⟨hfound, hreal, hiff.mp hreal⟩

/-- Two jobs that depend on each other. -/
def twoCycle : List BuildCall :=
  [.addNode { id := 1 }, .addNode { id := 2 }, .addEdge 1 2, .addEdge 2 1]

/-- **`find_cycle` does not return a cycle** where it comes back to the node it began from: of
two jobs that depend on each other it returns the first twice, which has no edge to itself. -/
theorem not_realCycle_twoCycle :
    let g := (History.after DAGBuild.step (DAGBuild.new { id := 7 } .fresh) twoCycle).dag
    g.Cyclic ∧ g.findCycle .increasing = some [1, 1] ∧ ¬ g.RealCycle [1, 1] := by
  intro g
  have hone : g.nodes.get? 1 = some ⟨1, {2}, {2}⟩ := by decide +kernel
  have htwo : g.nodes.get? 2 = some ⟨2, {1}, {1}⟩ := by decide +kernel
  have hthere : g.Releases 1 2 := ⟨_, hone, by decide⟩
  have hback : g.Releases 2 1 := ⟨_, htwo, by decide⟩
  refine ⟨⟨1, (Relation.TransGen.single hthere).tail hback⟩, by decide +kernel, fun h => ?_⟩
  obtain ⟨n, hn, hmem⟩ := (List.isChain_cons_cons.mp h.edges).1
  rw [hone, Option.some.injEq] at hn
  subst hn
  exact absurd hmem (by decide)

end DAG

end JobOrchestrator
