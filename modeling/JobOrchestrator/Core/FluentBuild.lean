import JobOrchestrator.Core.CycleDetection
import JobOrchestrator.Core.DAGBuilder

/-!
# Graphs that are built by name

A chain of `add_job` calls on a `DAGBuilder`, and the `build` at its end. A dependency is looked
up when the job that has it is added, so that it is a job added before: `build` would have nothing
to find. But `add_job` writes the name of the new job into the table before it looks anything up,
and a job may therefore name itself.

`builds_iff` says that this is the only way. Where every call adds a new job, `build` raises just
where one of them names its own job in front of the first unknown name; otherwise the jobs stand
in the graph in the order of the calls, each behind all that it depends on. A call that raises its
`ValueError` on the way, and leaves half of its edges, makes no difference to that.
-/

namespace JobOrchestrator

namespace DAGBuilder

/-- The arguments of an `add_job` call, the job as the object it has or makes. -/
structure AddCall where
  job : Job
  jobId : Option String := none
  dependsOn : Option (List String) := none

/-- The builder after a call, whether it raises or not. -/
def step (b : DAGBuilder) (c : AddCall) : DAGBuilder := (b.addJob c.job c.jobId c.dependsOn).1

/-- **`build`**: `validate`, and then the graph. It raises what `validate` raises, and is the
only place where a cycle is looked for. -/
def build (b : DAGBuilder) (orders : b.dag.LoopOrders) (order : IterationOrder UUID) :
    Except OrchestratorError DAG :=
  match b.dag.validateIn orders order with
  | .error e => .error e
  | .ok _ => .ok b.dag

/-- The `DAGValidationError` of a graph in which a cycle is all that is wrong. -/
def cycleError (g : DAG) (orders : g.LoopOrders) : OrchestratorError :=
  .dagValidation g.id ["Cycle detected: "
    ++ String.intercalate " -> " (((g.findCycleIn orders).getD []).map UUID.str)]

/-- The job of the call has no node yet. -/
def AddsNew (b : DAGBuilder) (c : AddCall) : Prop := c.job.id ∉ b.keys

instance (b : DAGBuilder) (c : AddCall) : Decidable (b.AddsNew c) :=
  inferInstanceAs (Decidable (c.job.id ∉ b.keys))

/-- The builder in which a call looks up its names. -/
def registered (b : DAGBuilder) (c : AddCall) : DAGBuilder :=
  b.register (keyOf c.job c.jobId) c.job

/-- The names of a call that are found, in front of the first that is not. -/
def found (b : DAGBuilder) (c : AddCall) : List String :=
  (b.registered c).known (c.dependsOn.getD [])

/-- **A call names its own job**, and comes to it. -/
def NamesItself (b : DAGBuilder) (c : AddCall) : Prop := keyOf c.job c.jobId ∈ b.found c

instance (b : DAGBuilder) (c : AddCall) : Decidable (b.NamesItself c) :=
  inferInstanceAs (Decidable (keyOf c.job c.jobId ∈ b.found c))

/-- **A sound builder**: its graph is well formed, and its names are those of nodes. The second
clause is what spares `add_job` the `KeyError` of `add_edge`. -/
structure Sound (b : DAGBuilder) : Prop where
  wellFormed : b.dag.WellFormed
  named : ∀ {key jobId}, b.jobIds.get? key = some jobId → jobId ∈ b.keys

variable {b : DAGBuilder} {c : AddCall}

/-! ## The loop over the names -/

theorem known_cons_of_mem {depKey : String} {depId : UUID} (dependsOn : List String)
    (h : b.jobIds.get? depKey = some depId) :
    b.known (depKey :: dependsOn) = depKey :: b.known dependsOn := by
  have hmem : depKey ∈ b.jobIds.keys := OrderedDict.mem_keys_iff.mpr ⟨depId, h⟩
  simp [known, hmem]

theorem known_cons_of_notMem {depKey : String} (dependsOn : List String)
    (h : b.jobIds.get? depKey = none) : b.known (depKey :: dependsOn) = [] := by
  simp [known, OrderedDict.get?_eq_none_iff.mp h]

/-- An edge between two nodes is added, with no `KeyError`. -/
theorem exists_addEdge {u v : UUID} (hu : u ∈ b.keys) (hv : v ∈ b.keys) :
    ∃ dag jobs, b.dag.addEdge u v b.jobs = .ok (dag, jobs)
      ∧ b.toDAGBuild.addEdge u v = ⟨dag, jobs⟩ := by
  rw [DAGBuild.addEdge, DAG.addEdge, if_neg (not_not.mpr (show u ∈ b.dag.nodes.keys from hu)),
    if_neg (not_not.mpr (show v ∈ b.dag.nodes.keys from hv))]
  exact ⟨_, _, rfl, rfl⟩

/-- **What the loop does in a sound builder**: it adds an edge from the job of each name it comes
to, and raises for the first that is unknown. The edges before the unknown name stay: nothing
takes them back. -/
structure Links (b : DAGBuilder) (jobId : UUID) (dependsOn : List String)
    (r : DAGBuilder × Option PyException) : Prop where
  sound : r.1.Sound
  keys : r.1.keys = b.keys
  edges : ∀ u v, r.1.dag.DependsOn v u ↔ b.dag.DependsOn v u
    ∨ v = jobId ∧ ∃ key ∈ b.known dependsOn, b.jobIds.get? key = some u
  raises : r.2 = (dependsOn.find? (fun key => key ∉ b.jobIds.keys)).map notFound

theorem Sound.links (h : b.Sound) {jobId : UUID} (mem : jobId ∈ b.keys)
    (dependsOn : List String) : b.Links jobId dependsOn (addDependencies jobId dependsOn b) := by
  induction dependsOn generalizing b with
  | nil => exact ⟨h, rfl, fun u v => by simp [addDependencies, known], rfl⟩
  | cons depKey dependsOn ih =>
    rw [addDependencies]
    cases hget : b.jobIds.get? depKey with
    | none =>
      have hunknown : depKey ∉ b.jobIds.keys := OrderedDict.get?_eq_none_iff.mp hget
      exact ⟨h, rfl, fun u v => by simp [known_cons_of_notMem dependsOn hget],
        by simp [hunknown]⟩
    | some depId =>
      obtain ⟨dag, jobs, hadd, heq⟩ := exists_addEdge (h.named hget) mem
      have hkeys : dag.nodes.keys = b.keys := by
        have hspec := (DAGBuild.addEdge_of_mem (h.named hget) mem).1
        rwa [heq] at hspec
      have hdep : ∀ u v, dag.DependsOn v u ↔ b.dag.DependsOn v u ∨ v = jobId ∧ u = depId := by
        have hspec := (DAGBuild.addEdge_of_mem (h.named hget) mem).2.1
        rwa [heq] at hspec
      have hsound : Sound { b with dag := dag, jobs := jobs } := by
        refine ⟨?_, fun {key k} hk => ?_⟩
        · have hwf := DAGBuild.wellFormed_addEdge h.wellFormed depId jobId
          rwa [heq] at hwf
        · show k ∈ dag.nodes.keys
          rw [hkeys]
          exact h.named hk
      have hmem : jobId ∈ dag.nodes.keys := by
        rw [hkeys]
        exact mem
      have hrest := ih hsound hmem
      have hknown : depKey ∈ b.jobIds.keys := OrderedDict.mem_keys_iff.mpr ⟨depId, hget⟩
      simp only [hadd]
      refine ⟨hrest.sound, hrest.keys.trans hkeys, fun u v => ?_, ?_⟩
      · rw [hrest.edges u v, known_cons_of_mem dependsOn hget]
        show (dag.DependsOn v u ∨ v = jobId ∧ ∃ key ∈ b.known dependsOn, _) ↔ _
        rw [hdep u v, or_assoc, ← and_or_left]
        simp only [List.exists_mem_cons_iff, hget, Option.some.injEq, eq_comm]
      · rw [hrest.raises]
        simp [hknown]

/-! ## One call -/

theorem keys_registered (new : b.AddsNew c) : (b.registered c).keys = b.keys ++ [c.job.id] := by
  show (b.toDAGBuild.addNode c.job).dag.nodes.keys = b.dag.nodes.keys ++ [c.job.id]
  rw [DAGBuild.addNode, if_neg new]
  show (b.dag.addNode c.job.id).nodes.keys = _
  rw [DAG.addNode, if_neg (show c.job.id ∉ b.dag.nodes.keys from new), OrderedDict.keys_set,
    if_neg (show c.job.id ∉ b.dag.nodes.keys from new)]

theorem Sound.registered (h : b.Sound) (new : b.AddsNew c) : (b.registered c).Sound where
  wellFormed := DAGBuild.wellFormed_addNode h.wellFormed c.job
  named := by
    intro key jobId hget
    rw [keys_registered new, List.mem_append, List.mem_singleton]
    rcases OrderedDict.get?_set_eq_some hget with ⟨-, rfl⟩ | ⟨-, hold⟩
    · exact Or.inr rfl
    · exact Or.inl (h.named hold)

/-- The dependencies of a job of the graph that a call has it take up. -/
def Takes (b : DAGBuilder) (c : AddCall) (u : UUID) : Prop :=
  ∃ key ∈ b.found c, (b.registered c).jobIds.get? key = some u

/-- **What a call with a new job does**: the node comes behind the others, with an edge from the
job of each name that is found. -/
theorem Sound.step (h : b.Sound) (new : b.AddsNew c) :
    (b.step c).Sound ∧ (b.step c).keys = b.keys ++ [c.job.id]
      ∧ ∀ u v, (b.step c).dag.DependsOn v u
        ↔ b.dag.DependsOn v u ∨ v = c.job.id ∧ b.Takes c u := by
  have hmem : c.job.id ∈ (b.registered c).keys := by
    rw [keys_registered new]
    simp
  have hlinks := (h.registered new).links hmem (c.dependsOn.getD [])
  refine ⟨hlinks.sound, hlinks.keys.trans (keys_registered new), fun u v => ?_⟩
  rw [show (b.step c).dag.DependsOn v u ↔ _ from hlinks.edges u v]
  refine or_congr ?_ Iff.rfl
  exact (DAGBuild.addNode_of_notMem new).2.1 u v

/-- A new job is taken up by the call that adds it just where the call names it. -/
theorem Sound.takes_self_iff (h : b.Sound) (new : b.AddsNew c) :
    b.Takes c c.job.id ↔ b.NamesItself c := by
  constructor
  · rintro ⟨key, hkey, hget⟩
    rcases OrderedDict.get?_set_eq_some hget with ⟨rfl, -⟩ | ⟨-, hold⟩
    · exact hkey
    · exact absurd (h.named hold) new
  · exact fun hself => ⟨_, hself, OrderedDict.get?_set_self _ _ _⟩

/-- What a call takes up is in the graph, or is its own job. -/
theorem Sound.mem_of_takes (h : b.Sound) {u : UUID} (takes : b.Takes c u) :
    u ∈ b.keys ∨ u = c.job.id := by
  obtain ⟨key, -, hget⟩ := takes
  rcases OrderedDict.get?_set_eq_some hget with ⟨-, rfl⟩ | ⟨-, hold⟩
  · exact Or.inr rfl
  · exact Or.inl (h.named hold)

/-! ## A chain of calls -/

/-- The jobs stand behind all that they depend on. -/
def Ordered (b : DAGBuilder) : Prop := InOrder b.dag.DependsOn b.keys

/-- The jobs stay in order just where the call does not name its own job. -/
theorem Sound.ordered_step_iff (h : b.Sound) (new : b.AddsNew c) :
    (b.step c).Ordered ↔ b.Ordered ∧ ¬ b.NamesItself c := by
  obtain ⟨-, hkeys, hdep⟩ := h.step new
  rw [Ordered, hkeys, ← h.takes_self_iff new]
  constructor
  · refine fun hord => ⟨fun before v after hsplit u hu => ?_, fun hself => ?_⟩
    · exact hord before v (after ++ [c.job.id]) (by rw [hsplit]; simp) u
        ((hdep u v).mpr (Or.inl hu))
    · exact new (hord b.keys c.job.id [] rfl c.job.id ((hdep _ _).mpr (Or.inr ⟨rfl, hself⟩)))
  · rintro ⟨hord, hnot⟩
    -- nothing that was in the graph depends on anything more
    have hold : InOrder (b.step c).dag.DependsOn b.keys := by
      intro before v after hsplit u hu
      rcases (hdep u v).mp hu with hu' | ⟨rfl, -⟩
      · exact hord before v after hsplit u hu'
      · exact absurd (by rw [hsplit]; simp) new
    refine hold.snoc (fun u hu => ?_)
    rcases (hdep u _).mp hu with hu' | ⟨-, htakes⟩
    · exact absurd (DAGBuild.mem_keys_of_dependsOn h.wellFormed hu').2 new
    · exact (h.mem_of_takes htakes).resolve_right (fun hu' => hnot (hu' ▸ htakes))

/-- No job depends on itself after the call just where none did before, and the call does not
name its own. -/
theorem Sound.no_selfEdge_step_iff (h : b.Sound) (new : b.AddsNew c) :
    (∀ u, ¬ (b.step c).dag.DependsOn u u)
      ↔ (∀ u, ¬ b.dag.DependsOn u u) ∧ ¬ b.NamesItself c := by
  rw [← h.takes_self_iff new]
  simp only [(h.step new).2.2, not_or, forall_and]
  simp

/-- A builder whose jobs come after those they depend on has no cycle, since the order of the
calls is a topological one. -/
theorem Sound.not_cyclic (h : b.Sound) (ordered : b.Ordered) : ¬ b.dag.Cyclic := by
  rw [h.wellFormed.not_cyclic_iff]
  intro u hu
  have hmem : u ∈ b.keys := by
    obtain ⟨v, hstep, -⟩ := Relation.TransGen.head'_iff.mp hu
    exact (DAGBuild.mem_keys_of_dependsOn h.wellFormed hstep).2
  exact ordered.not_onCycle b.dag.nodes.nodup_keys hmem hu

/-- `build` returns the graph just where it has no cycle. -/
theorem Sound.build_iff (h : b.Sound) (orders : b.dag.LoopOrders) (order : IterationOrder UUID) :
    b.build orders order = .ok b.dag ↔ ¬ b.dag.Cyclic := by
  rw [← DAG.validateIn_error_iff h.wellFormed orders order, build]
  cases b.dag.validateIn orders order with
  | error e => simp
  | ok valid => simp

/-- Otherwise it raises a `DAGValidationError` that names the cycle: no dependency is missing. -/
theorem Sound.build_error_iff (h : b.Sound) (orders : b.dag.LoopOrders)
    (order : IterationOrder UUID) :
    b.build orders order = .error (cycleError b.dag orders) ↔ b.dag.Cyclic := by
  rw [← DAG.hasCycleIn_iff h.wellFormed orders, build, DAG.validateIn,
    DAG.missingDependencies_eq_nil h.wellFormed]
  by_cases hcycle : b.dag.hasCycleIn orders = true
  · simp [hcycle, cycleError]
  · simp [hcycle]

theorem sound_new (options : DAG) (jobs : JobTable) : (new options jobs).Sound where
  wellFormed := DAGBuild.wellFormed_new options jobs
  named := by
    intro key jobId hget
    simp [new] at hget

theorem ordered_new (options : DAG) (jobs : JobTable) : (new options jobs).Ordered := inOrder_nil

/-- `add_job` raises its `ValueError` for the first unknown name, and raises nothing else. -/
def RaisesForUnknown (b : DAGBuilder) (c : AddCall) : Prop :=
  (b.addJob c.job c.jobId c.dependsOn).2
    = ((c.dependsOn.getD []).find? (fun key => key ∉ (b.registered c).jobIds.keys)).map notFound

/-- **What a chain of calls builds.** All of it is told from the calls and what they name:
`build` refuses only for a call that names its own job. -/
structure Builds (b₀ : DAGBuilder) (cs : List AddCall) (b : DAGBuilder) : Prop where
  /-- The jobs are in the order of the calls. -/
  keys : b.keys = cs.map (fun c => c.job.id)
  /-- No `KeyError` on the way. -/
  raises : History.Admitted step RaisesForUnknown b₀ cs
  build : ∀ orders order, b.build orders order = .ok b.dag
    ↔ History.Admitted step (fun b c => ¬ b.NamesItself c) b₀ cs
  /-- Otherwise `build` raises the `DAGValidationError` of a cycle. -/
  fails : ∀ orders order, b.build orders order = .error (cycleError b.dag orders)
    ↔ ¬ History.Admitted step (fun b c => ¬ b.NamesItself c) b₀ cs
  /-- The order of the calls is a topological one. -/
  ordered : b.Ordered ↔ History.Admitted step (fun b c => ¬ b.NamesItself c) b₀ cs

theorem Sound.raises (h : b.Sound) (new : b.AddsNew c) : b.RaisesForUnknown c := by
  have hmem : c.job.id ∈ (b.registered c).keys := by
    rw [keys_registered new]
    simp
  exact ((h.registered new).links hmem (c.dependsOn.getD [])).raises

/-- A chain of calls raises nothing but what its names are to blame for, and adds its jobs in
order. -/
theorem after_of_new {b : DAGBuilder} (h : b.Sound) {cs : List AddCall}
    (new : History.Admitted step AddsNew b cs) :
    (History.after step b cs).Sound
      ∧ (History.after step b cs).keys = b.keys ++ cs.map (fun c => c.job.id)
      ∧ History.Admitted step RaisesForUnknown b cs := by
  induction cs generalizing b with
  | nil => exact ⟨h, by simp, trivial⟩
  | cons c cs ih =>
    obtain ⟨hsound, hkeys, -⟩ := h.step new.1
    obtain ⟨hend, hall, hraises⟩ := ih hsound new.2
    refine ⟨hend, ?_, h.raises new.1, hraises⟩
    rw [History.after_cons, hall, hkeys]
    simp

/-- **`build` fails where a job names itself, and nowhere else**: for every chain of `add_job`
calls with new jobs, whichever of them raise, and whatever the orders of the loops. It fails
with a `DAGValidationError` about a cycle. The depth to which Python lets the searches recurse
is not bounded here. -/
theorem builds_iff (options : DAG) (jobs : JobTable) (cs : List AddCall)
    (new : History.Admitted step AddsNew (new options jobs) cs) :
    Builds (DAGBuilder.new options jobs) cs
      (History.after step (DAGBuilder.new options jobs) cs) := by
  have hstart := sound_new options jobs
  obtain ⟨hsound, hkeys, hraises⟩ := after_of_new hstart new
  have hkept : ∀ b c, Sound b → AddsNew b c → Sound (b.step c) :=
    fun _ _ h hnew => (h.step hnew).1
  have hordered := History.after_iff_admitted (fun _ _ h hnew => h.ordered_step_iff hnew) hkept
    new hstart
  have hself := History.after_iff_admitted (P := fun b : DAGBuilder => ∀ u, ¬ b.dag.DependsOn u u)
    (fun _ _ h hnew => h.no_selfEdge_step_iff hnew) hkept new hstart
  -- A job that names itself is a cycle of one edge; without one, the order of the calls is a
  -- topological one, and there is no cycle at all.
  have hacyclic : ¬ (History.after step (DAGBuilder.new options jobs) cs).dag.Cyclic
      ↔ History.Admitted step (fun b c => ¬ b.NamesItself c) (DAGBuilder.new options jobs) cs := by
    constructor
    · intro hacyclic
      refine (hself.mp (fun u hu => hacyclic ⟨u, ?_⟩)).2
      exact Relation.TransGen.single (hsound.wellFormed.mirrored.mp hu)
    · exact fun hok => hsound.not_cyclic (hordered.mpr ⟨ordered_new options jobs, hok⟩)
  refine ⟨hkeys, hraises, fun orders order => ?_, fun orders order => ?_, ?_⟩
  · exact (hsound.build_iff orders order).trans hacyclic
  · exact (hsound.build_error_iff orders order).trans (not_iff_comm.mp hacyclic).symm
  · rw [hordered, and_iff_right (ordered_new options jobs)]

/-- The pipeline of the class's docstring. -/
def etlPipeline : List AddCall :=
  [{ job := { id := 1 }, jobId := some "extract" },
   { job := { id := 2 }, jobId := some "transform", dependsOn := some ["extract"] },
   { job := { id := 3 }, jobId := some "load", dependsOn := some ["transform"] }]

/-- It builds: each job names only what was added before. -/
theorem builds_iff_etl :
    Builds (new { id := 7 } .fresh) etlPipeline
        (History.after step (new { id := 7 } .fresh) etlPipeline)
      ∧ History.Admitted step (fun b c => ¬ b.NamesItself c) (new { id := 7 } .fresh) etlPipeline :=
  ⟨builds_iff { id := 7 } .fresh etlPipeline (by decide +kernel), by decide +kernel⟩

/-- A job finds its own name in the table, as it does not find one that is added later. -/
example :
    (new { id := 7 } .fresh).NamesItself ⟨{ id := 1 }, some "a", some ["a"]⟩
      ∧ ¬ (new { id := 7 } .fresh).NamesItself ⟨{ id := 1 }, some "a", some ["b", "a"]⟩ := by
  decide +kernel

end DAGBuilder

end JobOrchestrator
