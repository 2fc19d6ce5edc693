import Mathlib.Logic.Relation
import Mathlib.Order.WellFoundedSet
import JobOrchestrator.Core.State
import JobOrchestrator.Util.IterationOrder
import JobOrchestrator.Util.OrderedDict

/-!
# Job graphs

The graph of `core/dag.py`: nodes with their upstream and downstream sets,
the operations that build it, and the checks `validate` makes.

An edge is recorded twice, in the `dependencies` of its target and in the
`dependents` of its source. The executor releases jobs along the second
and decides whether they are ready by the first, so what it does rests on
the two saying the same. `Built.wellFormed` proves that they do for every
graph the operations can build.
-/

namespace JobOrchestrator

/-- `DAGNode`. Every edge is kept twice, at either end; the two records are kept in step by the
operations only. -/
structure DAGNode where
  jobId : UUID
  /-- The jobs this one depends on. -/
  dependencies : Finset UUID := ∅
  /-- The jobs that depend on this one. -/
  dependents : Finset UUID := ∅
  deriving DecidableEq

namespace DAGNode

/-- `add_dependency`. -/
def addDependency (n : DAGNode) (jobId : UUID) : DAGNode :=
  { n with dependencies := insert jobId n.dependencies }

/-- `add_dependent`. -/
def addDependent (n : DAGNode) (jobId : UUID) : DAGNode :=
  { n with dependents := insert jobId n.dependents }

/-- `remove_dependency`. -/
def removeDependency (n : DAGNode) (jobId : UUID) : DAGNode :=
  { n with dependencies := n.dependencies.erase jobId }

/-- `remove_dependent`. -/
def removeDependent (n : DAGNode) (jobId : UUID) : DAGNode :=
  { n with dependents := n.dependents.erase jobId }

/-- `is_root`. -/
def isRoot (n : DAGNode) : Bool := decide (n.dependencies.card = 0)

theorem isRoot_iff {n : DAGNode} : n.isRoot = true ↔ n.dependencies = ∅ := by
  rw [isRoot, decide_eq_true_eq, Finset.card_eq_zero]

end DAGNode

/-- **`DAG`**: the graph, and the fields the scheduler and the executor read or write. Nodes and
jobs come in the order in which they were added, as in a `dict`, for the loops of the source go
through them in that order. -/
structure DAG where
  id : UUID
  name : String := ""
  nodes : OrderedDict UUID DAGNode := OrderedDict.empty
  /-- The keys of `jobs`, oldest first. The object under a key is the one the
  key names. -/
  jobs : List UUID := []
  state : JobState := .pending
  startedAt : Option DateTime := none
  failFast : Bool := true
  /-- How many of the jobs may run in parallel, if there is a limit. -/
  maxParallel : Option ℤ := none

namespace DAG

/-! ## Building -/

/-- `KeyError(f"Job {job_id} not found in DAG")`, whose `str` is the `repr` of
its argument. -/
def keyError (jobId : UUID) : PyException :=
  ⟨["KeyError", "LookupError"], "'Job " ++ jobId.str ++ " not found in DAG'"⟩

/-- `add_node`. -/
def addNode (jobId : UUID) (g : DAG) : DAG :=
  if jobId ∈ g.nodes.keys then g
  else { g with nodes := g.nodes.set jobId { jobId := jobId }, jobs := g.jobs ++ [jobId] }

/-- The part of `add_edge` that concerns the nodes. -/
def link (fromJobId toJobId : UUID) (g : DAG) : DAG :=
  { g with
    nodes := (g.nodes.modify toJobId (fun n => n.addDependency fromJobId)).modify fromJobId
      (fun n => n.addDependent toJobId) }

/-- The part of `remove_edge` that concerns the nodes. -/
def unlink (fromJobId toJobId : UUID) (g : DAG) : DAG :=
  { g with
    nodes := (g.nodes.modify toJobId (fun n => n.removeDependency fromJobId)).modify fromJobId
      (fun n => n.removeDependent toJobId) }

/-- **`add_edge`**: the target depends on the source. The `depends_on` list of
the target's job object is brought up to date as well. -/
def addEdge (fromJobId toJobId : UUID) (g : DAG) (t : JobTable) :
    Except PyException (DAG × JobTable) :=
  if fromJobId ∉ g.nodes.keys then .error (keyError fromJobId)
  else if toJobId ∉ g.nodes.keys then .error (keyError toJobId)
  else .ok (g.link fromJobId toJobId,
    if fromJobId ∈ (t.get toJobId).dependsOn then t
    else t.modify toJobId (fun j => { j with dependsOn := j.dependsOn ++ [fromJobId] }))

/-- `remove_edge`. -/
def removeEdge (fromJobId toJobId : UUID) (g : DAG) (t : JobTable) : DAG × JobTable :=
  if fromJobId ∈ g.nodes.keys ∧ toJobId ∈ g.nodes.keys then
    (g.unlink fromJobId toJobId,
      if fromJobId ∈ (t.get toJobId).dependsOn then
        t.modify toJobId (fun j => { j with dependsOn := j.dependsOn.erase fromJobId })
      else t)
  else (g, t)

/-- `DAGBuilder.with_max_parallel`. -/
def withMaxParallel (limit : ℤ) (g : DAG) : DAG := { g with maxParallel := some limit }

/-- **Every graph that can be built**: a new `DAG` with any options, and the
building operations. `add_job` is an `add_node` with an `add_edge` for each
dependency that is present. -/
inductive Built : DAG → JobTable → Prop
  | new (g : DAG) (t : JobTable) (nodes : g.nodes = OrderedDict.empty)
      (jobs : g.jobs = []) : Built g t
  | addNode {g : DAG} {t : JobTable} (jobId : UUID) (built : Built g t) :
      Built (g.addNode jobId) t
  | addEdge {g g' : DAG} {t t' : JobTable} {fromJobId toJobId : UUID} (built : Built g t)
      (added : g.addEdge fromJobId toJobId t = .ok (g', t')) : Built g' t'
  | removeEdge {g : DAG} {t : JobTable} (fromJobId toJobId : UUID) (built : Built g t) :
      Built (g.removeEdge fromJobId toJobId t).1 (g.removeEdge fromJobId toJobId t).2

/-- `get_root_nodes`. -/
def getRootNodes (g : DAG) : List UUID :=
  (g.nodes.values.filter (·.isRoot)).map DAGNode.jobId

/-! ## The graph as a relation -/

/-- `v` has `u` among its dependencies. -/
def DependsOn (g : DAG) (v u : UUID) : Prop :=
  ∃ n, g.nodes.get? v = some n ∧ u ∈ n.dependencies

/-- `u` has `v` among its dependents. -/
def Releases (g : DAG) (u v : UUID) : Prop :=
  ∃ n, g.nodes.get? u = some n ∧ v ∈ n.dependents

/-- `u` is an ancestor of `v`: a dependency of it, or of an ancestor. -/
def Ancestor (g : DAG) (u v : UUID) : Prop := Relation.TransGen g.DependsOn v u

/-- No job is its own ancestor. -/
def Acyclic (g : DAG) : Prop := ∀ u, ¬ g.Ancestor u u

/-- **A well-formed graph**: every node is stored under its job's id, each has a job, and the two
records of the edges agree. Every building operation keeps this, so it holds of each graph that a
program can make. -/
structure WellFormed (g : DAG) : Prop where
  jobId : ∀ {k n}, g.nodes.get? k = some n → n.jobId = k
  jobs : g.jobs = g.nodes.keys
  mirrored : ∀ {u v}, g.DependsOn v u ↔ g.Releases u v

namespace WellFormed

theorem of_new {g : DAG} (nodes : g.nodes = OrderedDict.empty) (jobs : g.jobs = []) :
    g.WellFormed where
  jobId h := by
    rw [nodes] at h
    exact absurd h (by simp)
  jobs := by rw [jobs, nodes, OrderedDict.keys_empty]
  mirrored := by
    intro u v
    rw [DependsOn, Releases, nodes]
    simp

end WellFormed

theorem get?_addNode_of_notMem {g : DAG} {jobId : UUID} (h : jobId ∉ g.nodes.keys)
    (k : UUID) : (g.addNode jobId).nodes.get? k
      = if k = jobId then some { jobId := jobId } else g.nodes.get? k := by
  rw [addNode, if_neg h]
  exact OrderedDict.get?_set _ _ _ _

/-- A new node has no edges, and a node that is there already keeps those it has: `add_node` does
not replace it. -/
theorem dependsOn_addNode {g : DAG} {jobId u v : UUID} :
    (g.addNode jobId).DependsOn v u ↔ g.DependsOn v u := by
  by_cases h : jobId ∈ g.nodes.keys
  · rw [addNode, if_pos h]
  · rw [DependsOn, DependsOn, get?_addNode_of_notMem h]
    by_cases hv : v = jobId
    · rw [if_pos hv, hv, OrderedDict.get?_eq_none_iff.mpr h]
      simp
    · rw [if_neg hv]

theorem releases_addNode {g : DAG} {jobId u v : UUID} :
    (g.addNode jobId).Releases u v ↔ g.Releases u v := by
  by_cases h : jobId ∈ g.nodes.keys
  · rw [addNode, if_pos h]
  · rw [Releases, Releases, get?_addNode_of_notMem h]
    by_cases hu : u = jobId
    · rw [if_pos hu, hu, OrderedDict.get?_eq_none_iff.mpr h]
      simp
    · rw [if_neg hu]

theorem WellFormed.addNode {g : DAG} (hg : g.WellFormed) (jobId : UUID) :
    (g.addNode jobId).WellFormed where
  jobId := by
    intro k n hget
    by_cases h : jobId ∈ g.nodes.keys
    · rw [DAG.addNode, if_pos h] at hget
      exact hg.jobId hget
    · rw [get?_addNode_of_notMem h] at hget
      by_cases hk : k = jobId
      · rw [if_pos hk, Option.some.injEq] at hget
        rw [← hget, hk]
      · rw [if_neg hk] at hget
        exact hg.jobId hget
  jobs := by
    by_cases h : jobId ∈ g.nodes.keys
    · rw [DAG.addNode, if_pos h, hg.jobs]
    · rw [DAG.addNode, if_neg h]
      show g.jobs ++ [jobId] = (g.nodes.set jobId _).keys
      rw [OrderedDict.keys_set, if_neg h, hg.jobs]
  mirrored := by
    intro u v
    rw [dependsOn_addNode, releases_addNode]
    exact hg.mirrored

/-! ### Edges -/

/-- What two changes, of the node of one key and then of that of another, make of the node of a
key. -/
theorem get?_modify_modify (g : DAG) (a b k : UUID) (f f' : DAGNode → DAGNode) :
    ((g.nodes.modify b f).modify a f').get? k
      = (g.nodes.get? k).map (fun n =>
          if k = a then f' (if k = b then f n else n) else if k = b then f n else n) := by
  rw [OrderedDict.get?_modify, OrderedDict.get?_modify, OrderedDict.get?_modify]
  by_cases ha : k = a <;> by_cases hb : k = b
  · subst ha hb
    simp [Function.comp_def]
  · subst ha
    simp [hb]
  · subst hb
    simp [ha]
  · simp [ha, hb]

/-- What `link` makes of the node of a key. -/
theorem get?_link (g : DAG) (a b k : UUID) :
    (g.link a b).nodes.get? k = (g.nodes.get? k).map (fun n =>
      { n with
        dependencies := if k = b then insert a n.dependencies else n.dependencies
        dependents := if k = a then insert b n.dependents else n.dependents }) := by
  refine (get?_modify_modify g a b k _ _).trans (congrArg (Option.map · _) (funext fun n => ?_))
  by_cases ha : k = a <;> by_cases hb : k = b
  · simp only [if_pos ha, if_pos hb, DAGNode.addDependency, DAGNode.addDependent]
  · simp only [if_pos ha, if_neg hb, DAGNode.addDependent]
  · simp only [if_neg ha, if_pos hb, DAGNode.addDependency]
  · simp only [if_neg ha, if_neg hb]

/-- What `unlink` makes of the node of a key. -/
theorem get?_unlink (g : DAG) (a b k : UUID) :
    (g.unlink a b).nodes.get? k = (g.nodes.get? k).map (fun n =>
      { n with
        dependencies := if k = b then n.dependencies.erase a else n.dependencies
        dependents := if k = a then n.dependents.erase b else n.dependents }) := by
  refine (get?_modify_modify g a b k _ _).trans (congrArg (Option.map · _) (funext fun n => ?_))
  by_cases ha : k = a <;> by_cases hb : k = b
  · simp only [if_pos ha, if_pos hb, DAGNode.removeDependency, DAGNode.removeDependent]
  · simp only [if_pos ha, if_neg hb, DAGNode.removeDependent]
  · simp only [if_neg ha, if_pos hb, DAGNode.removeDependency]
  · simp only [if_neg ha, if_neg hb]

theorem dependsOn_link {g : DAG} {a b u v : UUID} (hb : b ∈ g.nodes.keys) :
    (g.link a b).DependsOn v u ↔ g.DependsOn v u ∨ v = b ∧ u = a := by
  obtain ⟨nb, hnb⟩ := OrderedDict.mem_keys_iff.mp hb
  rw [DependsOn, DependsOn, get?_link]
  by_cases hv : v = b
  · subst hv
    rw [hnb]
    simp [or_comm]
  · cases g.nodes.get? v <;> simp [hv]

theorem releases_link {g : DAG} {a b u v : UUID} (ha : a ∈ g.nodes.keys) :
    (g.link a b).Releases u v ↔ g.Releases u v ∨ u = a ∧ v = b := by
  obtain ⟨na, hna⟩ := OrderedDict.mem_keys_iff.mp ha
  rw [Releases, Releases, get?_link]
  by_cases hu : u = a
  · subst hu
    rw [hna]
    simp [or_comm]
  · cases g.nodes.get? u <;> simp [hu]

theorem dependsOn_unlink {g : DAG} {a b u v : UUID} :
    (g.unlink a b).DependsOn v u ↔ g.DependsOn v u ∧ ¬ (v = b ∧ u = a) := by
  rw [DependsOn, DependsOn, get?_unlink]
  by_cases hv : v = b
  · subst hv
    cases g.nodes.get? v <;> simp [and_comm]
  · cases g.nodes.get? v <;> simp [hv]

theorem releases_unlink {g : DAG} {a b u v : UUID} :
    (g.unlink a b).Releases u v ↔ g.Releases u v ∧ ¬ (u = a ∧ v = b) := by
  rw [Releases, Releases, get?_unlink]
  by_cases hu : u = a
  · subst hu
    cases g.nodes.get? u <;> simp [and_comm]
  · cases g.nodes.get? u <;> simp [hu]

/-- Neither `link` nor `unlink` changes a node's id or the keys. -/
theorem jobId_of_map {g : DAG} (hg : g.WellFormed) {f : DAGNode → DAGNode}
    (hf : ∀ n, (f n).jobId = n.jobId) {k : UUID} {n : DAGNode}
    (h : (g.nodes.get? k).map f = some n) : n.jobId = k := by
  obtain ⟨m, hm, rfl⟩ := Option.map_eq_some_iff.mp h
  rw [hf, hg.jobId hm]

theorem WellFormed.link {g : DAG} (hg : g.WellFormed) {a b : UUID}
    (ha : a ∈ g.nodes.keys) (hb : b ∈ g.nodes.keys) : (g.link a b).WellFormed where
  jobId := by
    intro k n h
    rw [get?_link] at h
    exact jobId_of_map hg (fun _ => by rfl) h
  jobs := by
    show g.jobs = ((g.nodes.modify b _).modify a _).keys
    rw [OrderedDict.keys_modify, OrderedDict.keys_modify, hg.jobs]
  mirrored := by
    intro u v
    rw [dependsOn_link hb, releases_link ha, hg.mirrored, and_comm (a := v = b)]

theorem WellFormed.unlink {g : DAG} (hg : g.WellFormed) (a b : UUID) :
    (g.unlink a b).WellFormed where
  jobId := by
    intro k n h
    rw [get?_unlink] at h
    exact jobId_of_map hg (fun _ => by rfl) h
  jobs := by
    show g.jobs = ((g.nodes.modify b _).modify a _).keys
    rw [OrderedDict.keys_modify, OrderedDict.keys_modify, hg.jobs]
  mirrored := by
    intro u v
    rw [dependsOn_unlink, releases_unlink, hg.mirrored, and_comm (a := v = b)]

/-- An `add_edge` that succeeds links two present nodes. Where one of the two is missing it
raises its `KeyError` before it has written anything. -/
theorem addEdge_eq_ok {g g' : DAG} {t t' : JobTable} {a b : UUID}
    (h : g.addEdge a b t = .ok (g', t')) :
    a ∈ g.nodes.keys ∧ b ∈ g.nodes.keys ∧ g' = g.link a b := by
  rw [addEdge] at h
  split at h
  · exact absurd h (by simp)
  · rename_i ha
    split at h
    · exact absurd h (by simp)
    · rename_i hb
      rw [Except.ok.injEq, Prod.mk.injEq] at h
      exact ⟨not_not.mp ha, not_not.mp hb, h.1.symm⟩

/-- **Every graph the operations build is well formed.** The induction is on how the graph was
built, with one case for each building operation. -/
theorem Built.wellFormed {g : DAG} {t : JobTable} (h : Built g t) : g.WellFormed := by
  induction h with
  | new g t nodes jobs => exact .of_new nodes jobs
  | addNode jobId _ ih => exact ih.addNode jobId
  | addEdge _ added ih =>
    obtain ⟨ha, hb, rfl⟩ := addEdge_eq_ok added
    exact ih.link ha hb
  | removeEdge a b _ ih =>
    rw [DAG.removeEdge]
    split
    · exact ih.unlink a b
    · exact ih

/-- A graph in which every dependency has a smaller id is acyclic. -/
theorem acyclic_of_lt {g : DAG} (h : ∀ {u v}, g.DependsOn v u → u < v) : g.Acyclic := by
  have hlt : ∀ {u v}, g.Ancestor u v → u < v := by
    intro u v hanc
    induction hanc with
    | single hdep => exact h hdep
    | tail _ hdep ih => exact (h hdep).trans ih
  exact fun u hu => lt_irrefl u (hlt hu)

/-! ### Roots -/

section Roots

variable {g : DAG} (hg : g.WellFormed)
include hg

/-- The roots are the jobs that depend on none. -/
theorem mem_getRootNodes {k : UUID} :
    k ∈ g.getRootNodes ↔ ∃ n, g.nodes.get? k = some n ∧ n.dependencies = ∅ := by
  rw [getRootNodes, List.mem_map]
  constructor
  · rintro ⟨n, hn, rfl⟩
    obtain ⟨hval, hroot⟩ := List.mem_filter.mp hn
    obtain ⟨k, hk⟩ := OrderedDict.mem_values_iff.mp hval
    exact ⟨n, by rw [hg.jobId hk, hk], DAGNode.isRoot_iff.mp hroot⟩
  · rintro ⟨n, hn, hroot⟩
    exact ⟨n, List.mem_filter.mpr
      ⟨OrderedDict.mem_values_iff.mpr ⟨k, hn⟩, DAGNode.isRoot_iff.mpr hroot⟩, hg.jobId hn⟩

/-- The ids of the nodes, read off the values, are the keys. -/
theorem map_jobId_values : g.nodes.values.map DAGNode.jobId = g.nodes.keys := by
  rw [OrderedDict.values, OrderedDict.keys, List.map_map]
  refine List.map_congr_left ?_
  intro p hp
  exact hg.jobId (OrderedDict.get?_eq_some_iff.mpr hp)

/-- No root is listed twice, for the roots are a part of the keys of the nodes. -/
theorem nodup_getRootNodes : g.getRootNodes.Nodup := by
  have hkeys : (g.nodes.values.map DAGNode.jobId).Nodup := by
    rw [map_jobId_values hg]
    exact g.nodes.nodup_keys
  exact hkeys.sublist (List.filter_sublist.map _)

theorem mem_jobs_iff {k : UUID} : k ∈ g.jobs ↔ ∃ n, g.nodes.get? k = some n := by
  rw [hg.jobs]
  exact OrderedDict.mem_keys_iff

/-- Both ends of an edge are jobs of the graph. -/
theorem mem_jobs_of_dependsOn {u v : UUID} (h : g.DependsOn v u) : u ∈ g.jobs ∧ v ∈ g.jobs := by
  obtain ⟨m, hm, -⟩ := hg.mirrored.mp h
  obtain ⟨n, hn, -⟩ := h
  exact ⟨(mem_jobs_iff hg).mpr ⟨m, hm⟩, (mem_jobs_iff hg).mpr ⟨n, hn⟩⟩

/-- **Induction along the dependencies** of an acyclic graph. What holds of a job whenever it
holds of all that it depends on holds of every job of the graph. -/
theorem acyclic_induction (acyclic : g.Acyclic) {P : UUID → Prop}
    (step : ∀ k ∈ g.jobs, (∀ u, g.DependsOn k u → P u) → P k) {k : UUID} (hk : k ∈ g.jobs) :
    P k := by
  have : IsStrictOrder UUID g.Ancestor :=
    { irrefl := acyclic
      trans := fun _ _ _ huv hvw => hvw.trans huv }
  have hwf : {k | k ∈ g.jobs}.WellFoundedOn g.Ancestor := g.jobs.finite_toSet.wellFoundedOn
  refine hwf.induction hk ?_
  intro v hv ih
  refine step v hv ?_
  intro u hu
  exact ih u (mem_jobs_of_dependsOn hg hu).1 (Relation.TransGen.single hu)

end Roots

end DAG

end JobOrchestrator
