import JobOrchestrator.Core.Cycles
import JobOrchestrator.Core.Dependencies
import JobOrchestrator.Util.Chains

/-!
# Sorting the jobs of a graph

`topological_sort` of `core/dag.py`, by Kahn's algorithm: a job comes into the queue when the last
of its dependencies has been taken out of it. What a job still waits for is counted, and the
invariant is that the count is that of its dependencies that are not in the result yet.

The loops over the nodes and over the sets of dependents go in an order of their own each, which
`LoopOrders` stands for. The graphs are those that come of a new one by any calls of `add_node`,
`add_job`, `add_edge` and `remove_edge`.
-/

namespace JobOrchestrator

/-- **`CyclicDependencyError`**, with its text. -/
structure CyclicDependencyError where
  dagId : Option UUID
  cyclePath : List String
  text : String
  deriving DecidableEq

/-- `__init__`. The message that is passed gives way to the one that names the graph. -/
def CyclicDependencyError.init (message : Option String) (dagId : Option UUID)
    (cyclePath : Option (List String)) : CyclicDependencyError where
  dagId := dagId
  cyclePath := cyclePath.getD []
  text :=
    (match dagId with
      | some k => "Cycle detected in DAG " ++ k.str
      | none => (message.filter (· ≠ "")).getD "Cycle detected in DAG")
    ++ if cyclePath.getD [] = [] then ""
      else ": " ++ String.intercalate " -> " (cyclePath.getD [])

namespace DAG

/-- **The orders of the loops** over a graph: its nodes, and for each of them its dependents.
Python goes through a set in an order of its own; whatever holds for every one of these orders
holds for that one. -/
structure LoopOrders (g : DAG) where
  nodes : List UUID
  dependents : UUID → List UUID
  perm_nodes : nodes.Perm g.nodes.keys
  nodup_dependents : ∀ u, (dependents u).Nodup
  mem_dependents : ∀ {u v}, v ∈ dependents u ↔ g.Releases u v

/-- The nodes as they were inserted, and the sets by one order for all. -/
def LoopOrders.of (order : IterationOrder UUID) (g : DAG) : g.LoopOrders where
  nodes := g.nodes.keys
  dependents := dependentsOf order g
  perm_nodes := List.Perm.refl _
  nodup_dependents u := by
    unfold dependentsOf
    cases g.nodes.get? u with
    | none => exact List.nodup_nil
    | some n => exact order.nodup_list n.dependents
  mem_dependents := by
    intro u v
    unfold dependentsOf Releases
    cases g.nodes.get? u with
    | none => simp
    | some n => simp [order.mem_list]

/-- The dependencies of a job. -/
def dependenciesOf (g : DAG) (jobId : UUID) : Finset UUID :=
  match g.nodes.get? jobId with
  | none => ∅
  | some n => n.dependencies

/-- `in_degree` of a job's node. -/
def inDegree (g : DAG) (jobId : UUID) : ℤ := (g.dependenciesOf jobId).card

/-! ## The sort -/

/-- The loop over the dependents of a job that leaves the queue: each waits for one job less,
and joins the queue where it waits for none. -/
def relax : List UUID → (UUID → ℤ) → List UUID → (UUID → ℤ) × List UUID
  | [], degree, queue => (degree, queue)
  | d :: ds, degree, queue =>
    relax ds (fun k => if k = d then degree k - 1 else degree k)
      (if degree d - 1 = 0 then queue ++ [d] else queue)

/-- The loop over the queue. -/
def sortLoop (dependents : UUID → List UUID) :
    ℕ → List UUID → (UUID → ℤ) → List UUID → List UUID × (UUID → ℤ)
  | 0, _, degree, result => (result, degree)
  | _ + 1, [], degree, result => (result, degree)
  | fuel + 1, jobId :: queue, degree, result =>
    let x := relax (dependents jobId) degree queue
    sortLoop dependents fuel x.2 x.1 (result ++ [jobId])

/-- **`topological_sort`**. No job comes into the queue twice, so that there are no more rounds
than there are nodes. -/
def topologicalSort (g : DAG) (orders : g.LoopOrders) : Except CyclicDependencyError (List UUID) :=
  let x := sortLoop orders.dependents g.nodes.size (orders.nodes.filter (fun k => g.inDegree k = 0))
    g.inDegree []
  if x.1.length ≠ g.nodes.size then
    .error (.init (some "Cycle detected during topological sort") (some g.id)
      (some ((orders.nodes.filter (fun k => 0 < x.2 k)).map UUID.str)))
  else .ok x.1

/-! ## Cycles -/

/-- **A directed cycle** along the edges. A self-edge is one. -/
def Cyclic (g : DAG) : Prop := ∃ u, Relation.TransGen g.Releases u u

variable {g : DAG} {u v : UUID}

theorem mem_dependenciesOf : u ∈ g.dependenciesOf v ↔ g.DependsOn v u := by
  unfold dependenciesOf DependsOn
  cases g.nodes.get? v with
  | none => simp
  | some n => simp

namespace WellFormed

/-- The edges in the one record are those in the other, the other way round. -/
theorem transGen_releases (hg : g.WellFormed) :
    Relation.TransGen g.Releases u v ↔ Relation.TransGen g.DependsOn v u := by
  have hswap : g.Releases = Function.swap g.DependsOn := by
    ext a b
    exact hg.mirrored.symm
  rw [hswap, Relation.transGen_swap]

/-- **A cycle is what an acyclic graph has not.** -/
theorem cyclic_iff (hg : g.WellFormed) : g.Cyclic ↔ ¬ g.Acyclic := by
  simp only [Cyclic, Acyclic, Ancestor, hg.transGen_releases, not_forall, not_not]

theorem not_cyclic_iff (hg : g.WellFormed) : ¬ g.Cyclic ↔ g.Acyclic := by
  rw [hg.cyclic_iff, not_not]

theorem mem_jobs_of_releases (hg : g.WellFormed) (h : g.Releases u v) : v ∈ g.jobs :=
  (mem_jobs_of_dependsOn hg (hg.mirrored.mpr h)).2

theorem nodup_jobs (hg : g.WellFormed) : g.jobs.Nodup := by
  rw [hg.jobs]
  exact g.nodes.nodup_keys

theorem length_jobs (hg : g.WellFormed) : g.jobs.length = g.nodes.size := by
  rw [hg.jobs, OrderedDict.size_eq_length_keys]

end WellFormed

theorem LoopOrders.perm_jobs (orders : g.LoopOrders) (hg : g.WellFormed) :
    orders.nodes.Perm g.jobs := by
  rw [hg.jobs]
  exact orders.perm_nodes

/-! ## The invariant -/

/-- **What the loop over the dependents does.** Every dependent is visited once, loses one
degree, and joins the queue where that was the last one. -/
theorem relax_eq {ds : List UUID} (nodup : ds.Nodup) (degree : UUID → ℤ) (queue : List UUID) :
    relax ds degree queue
      = (fun k => if k ∈ ds then degree k - 1 else degree k,
        queue ++ ds.filter (fun d => degree d = 1)) := by
  induction ds generalizing degree queue with
  | nil => simp [relax]
  | cons d ds ih =>
    obtain ⟨hnew, hrest⟩ := List.nodup_cons.mp nodup
    have hne : ∀ k ∈ ds, k ≠ d := fun k hk heq => hnew (heq ▸ hk)
    rw [relax, ih hrest]
    refine Prod.ext ?_ ?_
    · funext k
      by_cases hkd : k = d
      · simp [hkd, hnew]
      · simp [hkd]
    · have hsame : ds.filter (fun k => (if k = d then degree k - 1 else degree k) = 1)
          = ds.filter (fun k => degree k = 1) :=
        List.filter_congr (fun k hk => by simp [hne k hk])
      have hone : degree d - 1 = 0 ↔ degree d = 1 := by omega
      show _ ++ ds.filter (fun k => (if k = d then degree k - 1 else degree k) = 1) = _
      rw [hsame]
      by_cases hd : degree d = 1
      · simp [hd]
      · simp [hone, hd]

/-- **The invariant of the sort**: no job is in the queue and the result more than once in all,
those that are in them are those all of whose dependencies are in the result, and the others wait
for the rest of theirs. The degrees are what the loop writes; the other clauses say what they are
for. -/
structure Sorting (g : DAG) (result queue : List UUID) (degree : UUID → ℤ) : Prop where
  nodup : (result ++ queue).Nodup
  subset : ∀ v ∈ result ++ queue, v ∈ g.jobs
  degree : ∀ v ∈ g.jobs, degree v = ((g.dependenciesOf v) \ result.toFinset).card
  ready : ∀ v ∈ g.jobs, v ∈ result ++ queue ↔ ∀ u, g.DependsOn v u → u ∈ result
  inOrder : InOrder g.DependsOn result

/-- At first nothing is in the result, and the roots are in the queue. -/
theorem sorting_start (hg : g.WellFormed) (orders : g.LoopOrders) :
    Sorting g [] (orders.nodes.filter (fun k => g.inDegree k = 0)) g.inDegree where
  nodup := (orders.perm_nodes.nodup_iff.mpr g.nodes.nodup_keys).filter _
  subset v hv := (orders.perm_jobs hg).mem_iff.mp (List.mem_filter.mp hv).1
  degree v _ := by simp [inDegree]
  ready v hv := by
    have hmem : v ∈ orders.nodes := (orders.perm_jobs hg).mem_iff.mpr hv
    have hzero : g.inDegree v = 0 ↔ ∀ u, ¬ g.DependsOn v u := by
      simp [inDegree, Finset.eq_empty_iff_forall_notMem, mem_dependenciesOf]
    rw [List.nil_append, List.mem_filter, decide_eq_true_eq, hzero]
    simp [hmem]
  inOrder := inOrder_nil

theorem LoopOrders.mem_dependents_iff (orders : g.LoopOrders) (hg : g.WellFormed) :
    v ∈ orders.dependents u ↔ g.DependsOn v u := by
  rw [orders.mem_dependents, hg.mirrored]

section Round

variable {result queue : List UUID} {degree : UUID → ℤ} {jobId : UUID}

/-- The first of the queue is not in the result. -/
theorem Sorting.notMem_result (h : Sorting g result (jobId :: queue) degree) : jobId ∉ result := by
  intro hmem
  exact (List.nodup_append.mp h.nodup).2.2 jobId hmem jobId List.mem_cons_self rfl

/-- Those that depend on it are neither in the result nor in the queue. -/
theorem Sorting.notMem_of_dependsOn (h : Sorting g result (jobId :: queue) degree)
    (hdep : g.DependsOn v jobId) : v ∉ result ++ jobId :: queue := by
  intro hmem
  exact h.notMem_result ((h.ready v (h.subset v hmem)).mp hmem jobId hdep)

/-- A job that joins the result is waited for no longer. -/
theorem dependenciesOf_sdiff_snoc (result : List UUID) (jobId v : UUID) :
    (g.dependenciesOf v) \ (result ++ [jobId]).toFinset
      = ((g.dependenciesOf v) \ result.toFinset).erase jobId := by
  ext u
  simp only [List.toFinset_append, List.toFinset_cons, List.toFinset_nil, Finset.mem_sdiff,
    Finset.mem_union, List.mem_toFinset, Finset.mem_insert, Finset.notMem_empty, or_false,
    Finset.mem_erase]
  tauto

/-- The loop over the dependents keeps the in-degrees. They count the dependencies that are not
in the result yet, and one of these has just come into it. -/
theorem Sorting.degree_round (hg : g.WellFormed) (orders : g.LoopOrders)
    (h : Sorting g result (jobId :: queue) degree) (hv : v ∈ g.jobs) :
    (if v ∈ orders.dependents jobId then degree v - 1 else degree v)
      = ((g.dependenciesOf v) \ (result ++ [jobId]).toFinset).card := by
  rw [dependenciesOf_sdiff_snoc, h.degree v hv]
  by_cases hdep : g.DependsOn v jobId
  · have hmem : jobId ∈ (g.dependenciesOf v) \ result.toFinset := by
      simp [mem_dependenciesOf, hdep, h.notMem_result]
    have hpos := Finset.card_pos.mpr ⟨_, hmem⟩
    rw [if_pos ((orders.mem_dependents_iff hg).mpr hdep), Finset.card_erase_of_mem hmem]
    omega
  · have hmem : jobId ∉ (g.dependenciesOf v) \ result.toFinset := by
      simp [mem_dependenciesOf, hdep]
    rw [if_neg (fun hv => hdep ((orders.mem_dependents_iff hg).mp hv)),
      Finset.erase_eq_of_notMem hmem]

/-- The dependents that join the queue are the ones whose dependencies are all in the result. -/
theorem Sorting.degree_eq_one_iff (hg : g.WellFormed) (orders : g.LoopOrders)
    (h : Sorting g result (jobId :: queue) degree) (hv : v ∈ g.jobs)
    (hdep : v ∈ orders.dependents jobId) :
    degree v = 1 ↔ ∀ u, g.DependsOn v u → u ∈ result ++ [jobId] := by
  have hcount := h.degree_round hg orders hv
  rw [if_pos hdep] at hcount
  have hempty : degree v = 1
      ↔ ((g.dependenciesOf v) \ (result ++ [jobId]).toFinset).card = 0 := by omega
  rw [hempty, Finset.card_eq_zero, Finset.sdiff_eq_empty_iff_subset]
  simp only [Finset.subset_iff, mem_dependenciesOf, List.mem_toFinset]

/-- **One round** keeps it: the first of the queue goes into the result. -/
theorem Sorting.round (hg : g.WellFormed) (orders : g.LoopOrders)
    (h : Sorting g result (jobId :: queue) degree) :
    Sorting g (result ++ [jobId]) (relax (orders.dependents jobId) degree queue).2
      (relax (orders.dependents jobId) degree queue).1 := by
  have hjob : jobId ∈ g.jobs := h.subset _ (by simp)
  have hdependent : ∀ {v}, v ∈ orders.dependents jobId ↔ g.DependsOn v jobId :=
    orders.mem_dependents_iff hg
  rw [relax_eq (orders.nodup_dependents jobId)]
  have hsplit : result ++ [jobId] ++ (queue
        ++ (orders.dependents jobId).filter (fun d => degree d = 1))
      = result ++ jobId :: queue
        ++ (orders.dependents jobId).filter (fun d => degree d = 1) := by simp
  refine ⟨?_, fun v hv => ?_, fun v hv => h.degree_round hg orders hv, fun v hv => ?_, ?_⟩
  · rw [hsplit]
    refine List.nodup_append.mpr ⟨h.nodup, (orders.nodup_dependents jobId).filter _, ?_⟩
    rintro v hold _ hmem rfl
    exact h.notMem_of_dependsOn (hdependent.mp (List.mem_filter.mp hmem).1) hold
  · rw [hsplit] at hv
    rcases List.mem_append.mp hv with hold | hmem
    · exact h.subset v hold
    · exact (mem_jobs_of_dependsOn hg (hdependent.mp (List.mem_filter.mp hmem).1)).2
  · rw [hsplit, List.mem_append, List.mem_filter, decide_eq_true_eq]
    by_cases hdep : v ∈ orders.dependents jobId
    · rw [h.degree_eq_one_iff hg orders hv hdep]
      simp [h.notMem_of_dependsOn (hdependent.mp hdep), hdep]
    · have hne : ∀ u, g.DependsOn v u → (u ∈ result ++ [jobId] ↔ u ∈ result) := by
        intro u hu
        have hother : u ≠ jobId := fun heq => hdep (hdependent.mpr (heq ▸ hu))
        simp [hother]
      rw [h.ready v hv, forall₂_congr hne]
      simp [hdep]
  · exact h.inOrder.snoc ((h.ready jobId hjob).mp (by simp))

end Round

/-- **The whole loop**: it ends with the queue empty. -/
theorem sortLoop_spec (hg : g.WellFormed) (orders : g.LoopOrders) (fuel : ℕ)
    {result queue : List UUID} {degree : UUID → ℤ} (h : Sorting g result queue degree)
    (enough : g.jobs.length ≤ result.length + fuel) :
    Sorting g (sortLoop orders.dependents fuel queue degree result).1 []
      (sortLoop orders.dependents fuel queue degree result).2 := by
  induction fuel generalizing result queue degree with
  | zero =>
    -- the result has all the jobs already
    have hlength := (List.subperm_of_subset h.nodup h.subset).length_le
    obtain rfl : queue = [] := by
      rw [← List.length_eq_zero_iff]
      rw [List.length_append] at hlength
      omega
    exact h
  | succ fuel ih =>
    cases queue with
    | nil => exact h
    | cons jobId queue =>
      refine ih (h.round hg orders) ?_
      rw [List.length_append, List.length_singleton]
      omega

theorem sorting_topologicalSort (hg : g.WellFormed) (orders : g.LoopOrders) :
    ∃ result degree, Sorting g result [] degree
      ∧ g.topologicalSort orders = if result.length ≠ g.nodes.size then
        .error (.init (some "Cycle detected during topological sort") (some g.id)
          (some ((orders.nodes.filter (fun k => 0 < degree k)).map UUID.str)))
      else .ok result := by
  have hsorting := sortLoop_spec hg orders g.nodes.size (sorting_start hg orders)
    (by rw [hg.length_jobs, List.length_nil]; omega)
  exact ⟨_, _, hsorting, rfl⟩

/-- **All the jobs are sorted just where there is no cycle.** -/
theorem Sorting.perm_iff (hg : g.WellFormed) {result : List UUID} {degree : UUID → ℤ}
    (h : Sorting g result [] degree) : result.length = g.nodes.size ↔ ¬ g.Cyclic := by
  have hnodup : result.Nodup := by simpa using h.nodup
  have hsub : ∀ v ∈ result, v ∈ g.jobs := fun v hv => h.subset v (by simpa using hv)
  have hsubperm := List.subperm_of_subset hnodup hsub
  have hall : result.length = g.nodes.size ↔ ∀ v ∈ g.jobs, v ∈ result := by
    rw [← hg.length_jobs]
    constructor
    · intro hlength v hv
      exact (hsubperm.perm_of_length_le hlength.ge).mem_iff.mpr hv
    · intro hmem
      exact le_antisymm hsubperm.length_le
        (List.subperm_of_subset hg.nodup_jobs hmem).length_le
  rw [hall, hg.not_cyclic_iff]
  constructor
  · intro hmem u hu
    have hjob : u ∈ g.jobs := by
      obtain ⟨w, huw, -⟩ := Relation.TransGen.head'_iff.mp hu
      exact (mem_jobs_of_dependsOn hg huw).2
    exact h.inOrder.not_onCycle hnodup (hmem u hjob) hu
  · intro hacyclic v hv
    refine acyclic_induction hg hacyclic (P := fun v => v ∈ result) (fun k hk ih => ?_) hv
    have hready := (h.ready k hk).mpr ih
    simpa using hready

/-! ## The theorem -/

/-- **The graph after any calls**, from a new one. -/
theorem wellFormed_after (options : DAG) (jobs : JobTable) (cs : List BuildCall) :
    (History.after DAGBuild.step (DAGBuild.new options jobs) cs).dag.WellFormed :=
  History.invariant_of_kept (P := fun s : DAGBuild => s.dag.WellFormed)
    (DAGBuild.wellFormed_new options jobs) (fun _ c h => DAGBuild.wellFormed_step h c) cs

/-- **The topological sort is correct and complete**, for every graph that calls of the building
operations make, and whatever the orders of its loops: it raises just where the edges have a
directed cycle, and otherwise returns every job of the graph once, behind all of its
dependencies. -/
theorem topologicalSort_correct (options : DAG) (jobs : JobTable) (cs : List BuildCall)
    (orders : (History.after DAGBuild.step (DAGBuild.new options jobs) cs).dag.LoopOrders) :
    let g := (History.after DAGBuild.step (DAGBuild.new options jobs) cs).dag
    ((∃ e, g.topologicalSort orders = .error e) ↔ g.Cyclic)
      ∧ ∀ sorted, g.topologicalSort orders = .ok sorted →
        sorted.Perm g.jobs ∧ sorted.Nodup ∧ InOrder g.DependsOn sorted := by
  intro g
  have hg : g.WellFormed := wellFormed_after options jobs cs
  obtain ⟨result, degree, hsorting, heq⟩ := sorting_topologicalSort hg orders
  have hall := hsorting.perm_iff hg
  have hnodup : result.Nodup := by simpa using hsorting.nodup
  rw [heq]
  by_cases hlength : result.length = g.nodes.size
  · simp only [hlength, ne_eq, not_true_eq_false, if_false]
    refine ⟨iff_of_false (by simp) (hall.mp hlength), ?_⟩
    rintro sorted hsorted
    obtain rfl := Except.ok.inj hsorted
    refine ⟨?_, hnodup, hsorting.inOrder⟩
    have hsub : ∀ v ∈ result, v ∈ g.jobs := fun v hv => hsorting.subset v (by simpa using hv)
    exact (List.subperm_of_subset hnodup hsub).perm_of_length_le (by rw [hg.length_jobs, hlength])
  · simp only [ne_eq, hlength, not_false_eq_true, if_true]
    refine ⟨iff_of_true (by simp) (not_not.mp (mt hall.mpr hlength)), ?_⟩
    rintro sorted hsorted
    cases hsorted

end DAG

end JobOrchestrator
