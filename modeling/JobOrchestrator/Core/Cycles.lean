import JobOrchestrator.Core.DAG

/-!
# Cycle detection and validation

`has_cycle`, `find_cycle` and `validate` of `core/dag.py`. Both detectors
are a depth-first search along the dependents with three colours. The
search recurses only into white nodes and colours them gray first, so a
call is never deeper than there are nodes, which bounds the recursion here.
-/

namespace JobOrchestrator

namespace DAG

/-- The colour of a node during a search: white before it is met, gray as long as it is on the
path that is being followed, black when all that can be reached from it has been searched. -/
inductive Color
  | white | gray | black
  deriving DecidableEq

/-- The nodes a node's loop visits, in order. -/
def dependentsOf (order : IterationOrder UUID) (g : DAG) (jobId : UUID) : List UUID :=
  match g.nodes.get? jobId with
  | none => []
  | some n => order.list n.dependents

/-- The colours after one node was coloured. -/
def paint (color : UUID → Color) (jobId : UUID) (c : Color) : UUID → Color :=
  fun k => if k = jobId then c else color k

/-! ## `has_cycle` -/

/-- The loop of `dfs` over the dependents: a gray one closes a cycle, a white
one is searched, a black one is passed over. -/
def hasCycleLoop (dfs : UUID → (UUID → Color) → Bool × (UUID → Color)) :
    List UUID → (UUID → Color) → Bool × (UUID → Color)
  | [], color => (false, color)
  | d :: ds, color =>
    match color d with
    | .gray => (true, color)
    | .black => hasCycleLoop dfs ds color
    | .white =>
      match dfs d color with
      | (true, color') => (true, color')
      | (false, color') => hasCycleLoop dfs ds color'

/-- `dfs` of `has_cycle`. -/
def hasCycleDfs (order : IterationOrder UUID) (g : DAG) :
    ℕ → UUID → (UUID → Color) → Bool × (UUID → Color)
  | 0, _, color => (false, color)
  | depth + 1, jobId, color =>
    match hasCycleLoop (hasCycleDfs order g depth) (dependentsOf order g jobId)
        (paint color jobId .gray) with
    | (true, color') => (true, color')
    | (false, color') => (false, paint color' jobId .black)

/-- **`has_cycle`**: a search from every node that is still white. -/
def hasCycle (order : IterationOrder UUID) (g : DAG) : Bool :=
  let rec go : List UUID → (UUID → Color) → Bool
    | [], _ => false
    | k :: ks, color =>
      if color k = .white then
        match hasCycleDfs order g (g.nodes.size + 1) k color with
        | (true, _) => true
        | (false, color') => go ks color'
      else go ks color
  go g.nodes.keys (fun _ => .white)

/-! ## `find_cycle` -/

/-- The state of `find_cycle`'s search: the colours, and from where each node
was reached. -/
structure Search where
  color : UUID → Color := fun _ => .white
  parent : UUID → Option UUID := fun _ => none

/-- The loop of `dfs` over the dependents of `jobId`. -/
def findCycleLoop (dfs : UUID → Search → Option UUID × Search) (jobId : UUID) :
    List UUID → Search → Option UUID × Search
  | [], z => (none, z)
  | d :: ds, z =>
    match z.color d with
    | .gray => (some d, z)
    | .black => findCycleLoop dfs jobId ds z
    | .white =>
      match dfs d { z with parent := fun k => if k = d then some jobId else z.parent k } with
      | (some c, z') => (some c, z')
      | (none, z') => findCycleLoop dfs jobId ds z'

/-- `dfs` of `find_cycle`. -/
def findCycleDfs (order : IterationOrder UUID) (g : DAG) :
    ℕ → UUID → Search → Option UUID × Search
  | 0, _, z => (none, z)
  | depth + 1, jobId, z =>
    match findCycleLoop (findCycleDfs order g depth) jobId (dependentsOf order g jobId)
        { z with color := paint z.color jobId .gray } with
    | (some c, z') => (some c, z')
    | (none, z') => (none, { z' with color := paint z'.color jobId .black })

/-- The walk along `parent` that rebuilds the cycle, which ends at the cycle's
node or where there is no parent. -/
def walkParents (parent : UUID → Option UUID) (cycleNode : UUID) :
    ℕ → Option UUID → List UUID
  | 0, _ => []
  | _ + 1, none => []
  | fuel + 1, some current =>
    if current = cycleNode then []
    else current :: walkParents parent cycleNode fuel (parent current)

/-- **`find_cycle`**. It colours as `has_cycle` does, keeps the parents, and walks back along
them from where it has met a gray node. -/
def findCycle (order : IterationOrder UUID) (g : DAG) : Option (List UUID) :=
  let rec go : List UUID → Search → Option (List UUID)
    | [], _ => none
    | k :: ks, z =>
      if z.color k = .white then
        match findCycleDfs order g (g.nodes.size + 1) k z with
        | (some c, z') => some
          (c :: (walkParents z'.parent c (g.nodes.size + 1) (z'.parent c)) ++ [c]).reverse
        | (none, z') => go ks z'
      else go ks z
  go g.nodes.keys {}

/-! ## `validate` -/

/-- The messages about dependencies that are not in the graph. -/
def missingDependencies (order : IterationOrder UUID) (g : DAG) : List String :=
  g.nodes.entries.flatMap (fun (jobId, n) =>
    ((order.list n.dependencies).filter (fun d => d ∉ g.nodes.keys)).map (fun d =>
      "Job " ++ jobId.str ++ " has missing dependency: " ++ d.str))

/-- **`validate`**. It collects its messages, about dependencies without a node and about a
cycle, and raises them all in one `DAGValidationError`. -/
def validate (order : IterationOrder UUID) (g : DAG) : Except OrchestratorError Bool :=
  let cycles :=
    if g.hasCycle order then
      ["Cycle detected: "
        ++ String.intercalate " -> " (((g.findCycle order).getD []).map UUID.str)]
    else []
  let errors := g.missingDependencies order ++ cycles
  if errors ≠ [] then .error (.dagValidation g.id errors) else .ok true

end DAG

end JobOrchestrator
