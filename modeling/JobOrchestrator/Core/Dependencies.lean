import JobOrchestrator.Core.DAG
import JobOrchestrator.Util.History

/-!
# The three records of a dependency

That `v` depends on `u` is written down three times: `u` is among the
`dependencies` of the node of `v`, `v` among the `dependents` of the node of `u`,
and `u` in the `depends_on` list of the job object of `v`. The executor reads the
first two. The third is a field that the caller fills in, and that `add_edge` and
`remove_edge` bring up to date.

`add_node` and `add_job` do not read the field. `remove_edge` takes one occurrence of
the source out of it, however often it is there. `Keeps` says for each of the four
operations when the three records agree after it, provided that they did before.
-/

namespace JobOrchestrator

/-- **A graph under construction**, with the job objects. An edge is written to the two nodes and
to the `depends_on` list of a job, so building works on both. -/
structure DAGBuild where
  dag : DAG
  jobs : JobTable

/-- A call that changes the graph. A job comes as the object the caller made of it,
with its `depends_on` list. -/
inductive BuildCall
  | addNode (job : Job)
  | addJob (job : Job) (dependsOn : List UUID)
  | addEdge (fromJobId toJobId : UUID)
  | removeEdge (fromJobId toJobId : UUID)

namespace DAGBuild

/-- The ids of the nodes. -/
def keys (s : DAGBuild) : List UUID := s.dag.nodes.keys

/-- `add_node`: the object of a new job becomes the one the graph refers to. -/
def addNode (job : Job) (s : DAGBuild) : DAGBuild :=
  if job.id ∈ s.keys then s
  else ⟨s.dag.addNode job.id, s.jobs.modify job.id (fun _ => job)⟩

/-- `add_edge`. The `KeyError` is raised before anything is written. -/
def addEdge (fromJobId toJobId : UUID) (s : DAGBuild) : DAGBuild :=
  match s.dag.addEdge fromJobId toJobId s.jobs with
  | .ok (dag, jobs) => ⟨dag, jobs⟩
  | .error _ => s

/-- The loop of `add_job`: an edge from each of the dependencies that has a node. -/
def addDependencies (jobId : UUID) : List UUID → DAGBuild → DAGBuild
  | [], s => s
  | depId :: dependsOn, s =>
    addDependencies jobId dependsOn (if depId ∈ s.keys then s.addEdge depId jobId else s)

/-- `add_job`. -/
def addJob (job : Job) (dependsOn : List UUID) (s : DAGBuild) : DAGBuild :=
  addDependencies job.id dependsOn (s.addNode job)

/-- `remove_edge`. -/
def removeEdge (fromJobId toJobId : UUID) (s : DAGBuild) : DAGBuild :=
  ⟨(s.dag.removeEdge fromJobId toJobId s.jobs).1, (s.dag.removeEdge fromJobId toJobId s.jobs).2⟩

/-- **The graph after a call.** -/
def step (s : DAGBuild) : BuildCall → DAGBuild
  | .addNode job => s.addNode job
  | .addJob job dependsOn => s.addJob job dependsOn
  | .addEdge fromJobId toJobId => s.addEdge fromJobId toJobId
  | .removeEdge fromJobId toJobId => s.removeEdge fromJobId toJobId

/-- The job object of `v` names `u` as a dependency. -/
def Declares (s : DAGBuild) (v u : UUID) : Prop := u ∈ (s.jobs.get v).dependsOn

instance (s : DAGBuild) (v u : UUID) : Decidable (s.Declares v u) :=
  inferInstanceAs (Decidable (u ∈ (s.jobs.get v).dependsOn))

/-- **Declared dependencies are enforced**: the three records agree about any two jobs of the
graph, and a root declares no dependency on another job of it. The graph itself goes by the nodes
alone; the list is what the job says of itself, and what is written out with it. -/
structure Enforced (s : DAGBuild) : Prop where
  mirrored : ∀ u ∈ s.keys, ∀ v ∈ s.keys, (s.dag.DependsOn v u ↔ s.dag.Releases u v)
  declared : ∀ u ∈ s.keys, ∀ v ∈ s.keys, (s.dag.DependsOn v u ↔ s.Declares v u)
  roots : ∀ v ∈ s.dag.getRootNodes, ∀ u ∈ s.keys, ¬ s.Declares v u

/-- **When a call keeps the declared dependencies enforced.** A new job declares no job of
the graph beyond the dependencies it is added with, and is declared by none, and
`remove_edge` takes out a source that occurs only once. -/
def Keeps (s : DAGBuild) : BuildCall → Prop
  | .addNode job => job.id ∉ s.keys →
      (∀ u ∈ job.id :: s.keys, u ∉ job.dependsOn) ∧ ∀ v ∈ s.keys, ¬ s.Declares v job.id
  | .addJob job dependsOn => job.id ∉ s.keys →
      (∀ u ∈ job.id :: s.keys, u ∈ job.dependsOn → u ∈ dependsOn)
        ∧ ∀ v ∈ s.keys, ¬ s.Declares v job.id
  | .addEdge _ _ => True
  | .removeEdge fromJobId toJobId => fromJobId ∈ s.keys → toJobId ∈ s.keys →
      (s.jobs.get toJobId).dependsOn.count fromJobId ≤ 1

variable {s : DAGBuild}

/-! ## What each call does to the records -/

section Calls

/-- The node of a new job has no edges, and its object is the one that was added. -/
theorem addNode_of_notMem {job : Job} (new : job.id ∉ s.keys) :
    (∀ k, k ∈ (s.addNode job).keys ↔ k = job.id ∨ k ∈ s.keys)
      ∧ (∀ u v, (s.addNode job).dag.DependsOn v u ↔ s.dag.DependsOn v u)
      ∧ (∀ u v, (s.addNode job).Declares v u
        ↔ if v = job.id then u ∈ job.dependsOn else s.Declares v u) := by
  rw [addNode, if_neg new]
  refine ⟨fun k => ?_, fun u v => DAG.dependsOn_addNode, fun u v => ?_⟩
  · show k ∈ (s.dag.addNode job.id).nodes.keys ↔ _
    rw [DAG.addNode, if_neg (show job.id ∉ s.dag.nodes.keys from new)]
    exact OrderedDict.mem_keys_set
  · show u ∈ ((s.jobs.modify job.id (fun _ => job)).get v).dependsOn ↔ _
    split
    · rename_i hv
      rw [hv, JobTable.get_modify_self]
    · rename_i hv
      rw [JobTable.get_modify_of_ne _ hv]
      rfl

/-- `add_edge` between nodes writes all three records. Nothing but this one edge is new in any of
them. -/
theorem addEdge_of_mem {a b : UUID} (ha : a ∈ s.keys) (hb : b ∈ s.keys) :
    (s.addEdge a b).keys = s.keys
      ∧ (∀ u v, (s.addEdge a b).dag.DependsOn v u ↔ s.dag.DependsOn v u ∨ v = b ∧ u = a)
      ∧ (∀ u v, (s.addEdge a b).Declares v u ↔ s.Declares v u ∨ v = b ∧ u = a) := by
  rw [addEdge, DAG.addEdge, if_neg (not_not.mpr (show a ∈ s.dag.nodes.keys from ha)),
    if_neg (not_not.mpr (show b ∈ s.dag.nodes.keys from hb))]
  refine ⟨?_, fun u v => DAG.dependsOn_link hb, fun u v => ?_⟩
  · show ((s.dag.nodes.modify b _).modify a _).keys = s.keys
    rw [OrderedDict.keys_modify, OrderedDict.keys_modify]
    rfl
  · show u ∈ (JobTable.get (if _ then _ else _) v).dependsOn ↔ u ∈ _ ∨ _
    split
    · rename_i hin
      refine ⟨Or.inl, fun h => h.elim id ?_⟩
      rintro ⟨rfl, rfl⟩
      exact hin
    · by_cases hv : v = b
      · subst hv
        rw [JobTable.get_modify_self]
        simp
      · rw [JobTable.get_modify_of_ne _ hv]
        simp [hv]

/-- `remove_edge` between nodes takes the edge out of the nodes, and the first occurrence of
the source out of the list. -/
theorem removeEdge_of_mem {a b : UUID} (ha : a ∈ s.keys) (hb : b ∈ s.keys) :
    (s.removeEdge a b).keys = s.keys
      ∧ (∀ u v, (s.removeEdge a b).dag.DependsOn v u ↔ s.dag.DependsOn v u ∧ ¬ (v = b ∧ u = a))
      ∧ (∀ u v, (s.removeEdge a b).Declares v u
        ↔ if v = b then u ∈ (s.jobs.get b).dependsOn.erase a else s.Declares v u) := by
  rw [removeEdge, DAG.removeEdge,
    if_pos (show a ∈ s.dag.nodes.keys ∧ b ∈ s.dag.nodes.keys from ⟨ha, hb⟩)]
  refine ⟨?_, fun u v => DAG.dependsOn_unlink, fun u v => ?_⟩
  · show ((s.dag.nodes.modify b _).modify a _).keys = s.keys
    rw [OrderedDict.keys_modify, OrderedDict.keys_modify]
    rfl
  · show u ∈ (JobTable.get (if _ then _ else _) v).dependsOn ↔ _
    by_cases hv : v = b
    · subst hv
      rw [if_pos rfl]
      split
      · rw [JobTable.get_modify_self]
      · rename_i hout
        rw [List.erase_of_not_mem hout]
    · rw [if_neg hv]
      split
      · rw [JobTable.get_modify_of_ne _ hv]
        rfl
      · rfl

/-- The loop of `add_job` writes an edge from each dependency that has a node. -/
theorem addDependencies_spec {b : UUID} (dependsOn : List UUID) (hb : b ∈ s.keys) :
    (s.addDependencies b dependsOn).keys = s.keys
      ∧ (∀ u v, (s.addDependencies b dependsOn).dag.DependsOn v u
        ↔ s.dag.DependsOn v u ∨ v = b ∧ u ∈ dependsOn ∧ u ∈ s.keys)
      ∧ (∀ u v, (s.addDependencies b dependsOn).Declares v u
        ↔ s.Declares v u ∨ v = b ∧ u ∈ dependsOn ∧ u ∈ s.keys) := by
  induction dependsOn generalizing s with
  | nil => exact ⟨rfl, fun u v => by simp [addDependencies], fun u v => by simp [addDependencies]⟩
  | cons a dependsOn ih =>
    rw [addDependencies]
    split
    · rename_i ha
      obtain ⟨hkeys, hnodes, hjobs⟩ := addEdge_of_mem ha hb
      obtain ⟨hkeys', hnodes', hjobs'⟩ := ih (s := s.addEdge a b) (hkeys ▸ hb)
      refine ⟨hkeys'.trans hkeys, fun u v => ?_, fun u v => ?_⟩
      · rw [hnodes', hnodes, hkeys, List.mem_cons]
        grind
      · rw [hjobs', hjobs, hkeys, List.mem_cons]
        grind
    · rename_i ha
      obtain ⟨hkeys', hnodes', hjobs'⟩ := ih hb
      refine ⟨hkeys', fun u v => ?_, fun u v => ?_⟩
      · rw [hnodes', List.mem_cons]
        grind
      · rw [hjobs', List.mem_cons]
        grind

/-- What adding a new job comes to: a node, the list that the object brought with it, and an edge
from each job named that is there – the job itself included, since its node is added first. -/
theorem addJob_of_notMem {job : Job} (new : job.id ∉ s.keys) (dependsOn : List UUID) :
    (∀ k, k ∈ (s.addJob job dependsOn).keys ↔ k = job.id ∨ k ∈ s.keys)
      ∧ (∀ u v, (s.addJob job dependsOn).dag.DependsOn v u
        ↔ s.dag.DependsOn v u ∨ v = job.id ∧ u ∈ dependsOn ∧ (u = job.id ∨ u ∈ s.keys))
      ∧ (∀ u v, (s.addJob job dependsOn).Declares v u
        ↔ (if v = job.id then u ∈ job.dependsOn else s.Declares v u)
          ∨ v = job.id ∧ u ∈ dependsOn ∧ (u = job.id ∨ u ∈ s.keys)) := by
  obtain ⟨hkeys, hnodes, hjobs⟩ := addNode_of_notMem new
  obtain ⟨hkeys', hnodes', hjobs'⟩ :=
    addDependencies_spec dependsOn ((hkeys job.id).mpr (Or.inl rfl))
  rw [addJob]
  refine ⟨fun k => ?_, fun u v => ?_, fun u v => ?_⟩
  · rw [hkeys', hkeys]
  · rw [hnodes', hnodes, hkeys]
  · rw [hjobs', hjobs, hkeys]

end Calls

/-! ## The graph stays well formed -/

theorem wellFormed_addNode (h : s.dag.WellFormed) (job : Job) :
    (s.addNode job).dag.WellFormed := by
  rw [addNode]
  split
  · exact h
  · exact h.addNode job.id

theorem wellFormed_addEdge (h : s.dag.WellFormed) (a b : UUID) :
    (s.addEdge a b).dag.WellFormed := by
  rw [addEdge]
  cases hadd : s.dag.addEdge a b s.jobs with
  | error => exact h
  | ok x =>
    obtain ⟨ha, hb, heq⟩ := DAG.addEdge_eq_ok hadd
    show x.1.WellFormed
    rw [heq]
    exact h.link ha hb

theorem wellFormed_addDependencies (h : s.dag.WellFormed) (b : UUID) (dependsOn : List UUID) :
    (s.addDependencies b dependsOn).dag.WellFormed := by
  induction dependsOn generalizing s with
  | nil => exact h
  | cons a dependsOn ih =>
    rw [addDependencies]
    split
    · exact ih (wellFormed_addEdge h a b)
    · exact ih h

theorem wellFormed_addJob (h : s.dag.WellFormed) (job : Job) (dependsOn : List UUID) :
    (s.addJob job dependsOn).dag.WellFormed :=
  wellFormed_addDependencies (wellFormed_addNode h job) _ _

theorem wellFormed_removeEdge (h : s.dag.WellFormed) (a b : UUID) :
    (s.removeEdge a b).dag.WellFormed := by
  show (s.dag.removeEdge a b s.jobs).1.WellFormed
  rw [DAG.removeEdge]
  split
  · exact h.unlink a b
  · exact h

theorem wellFormed_step (h : s.dag.WellFormed) (c : BuildCall) : (s.step c).dag.WellFormed := by
  cases c with
  | addNode job => exact wellFormed_addNode h job
  | addJob job dependsOn => exact wellFormed_addJob h job dependsOn
  | addEdge a b => exact wellFormed_addEdge h a b
  | removeEdge a b => exact wellFormed_removeEdge h a b

/-! ## The records agree where the nodes and the lists do -/

/-- Both ends of an edge have nodes, since either end records it. -/
theorem mem_keys_of_dependsOn (h : s.dag.WellFormed) {u v : UUID} (hdep : s.dag.DependsOn v u) :
    u ∈ s.keys ∧ v ∈ s.keys := by
  have hjobs := DAG.mem_jobs_of_dependsOn h hdep
  rw [h.jobs] at hjobs
  exact hjobs

/-- In a well-formed graph the nodes agree with each other, so it is about the lists. -/
theorem enforced_iff (h : s.dag.WellFormed) :
    s.Enforced ↔ ∀ u ∈ s.keys, ∀ v ∈ s.keys, (s.dag.DependsOn v u ↔ s.Declares v u) := by
  refine ⟨Enforced.declared, fun hdecl => ⟨fun u _ v _ => h.mirrored, hdecl, ?_⟩⟩
  intro v hroot u hu hdeclares
  obtain ⟨n, hn, hempty⟩ := (DAG.mem_getRootNodes h).mp hroot
  have hv : v ∈ s.keys := OrderedDict.mem_keys_iff.mpr ⟨n, hn⟩
  obtain ⟨n', hn', hdep⟩ := (hdecl u hu v hv).mpr hdeclares
  rw [hn, Option.some.injEq] at hn'
  rw [← hn', hempty] at hdep
  exact absurd hdep (Finset.notMem_empty u)

section Step

variable (h : s.dag.WellFormed) (enforced : s.Enforced)
include h enforced

theorem enforced_addEdge (a b : UUID) : (s.addEdge a b).Enforced := by
  by_cases hmem : a ∈ s.keys ∧ b ∈ s.keys
  · obtain ⟨hkeys, hnodes, hjobs⟩ := addEdge_of_mem hmem.1 hmem.2
    rw [enforced_iff (wellFormed_addEdge h a b)]
    intro u hu v hv
    rw [hkeys] at hu hv
    rw [hnodes, hjobs, enforced.declared u hu v hv]
  · have hsame : s.addEdge a b = s := by
      rw [addEdge]
      cases hadd : s.dag.addEdge a b s.jobs with
      | error => rfl
      | ok x => exact absurd ⟨(DAG.addEdge_eq_ok hadd).1, (DAG.addEdge_eq_ok hadd).2.1⟩ hmem
    rw [hsame]
    exact enforced

theorem enforced_addDependencies {b : UUID} (hb : b ∈ s.keys) (dependsOn : List UUID) :
    (s.addDependencies b dependsOn).Enforced := by
  obtain ⟨hkeys, hnodes, hjobs⟩ := addDependencies_spec dependsOn hb
  rw [enforced_iff (wellFormed_addDependencies h b dependsOn)]
  intro u hu v hv
  rw [hkeys] at hu hv
  rw [hnodes, hjobs, enforced.declared u hu v hv]

/-- **Adding a job** keeps the records in agreement exactly where the object declares nothing
beyond what it is added with, and nothing declares it. -/
theorem enforced_addJob_iff (job : Job) (dependsOn : List UUID) :
    (s.addJob job dependsOn).Enforced ↔ s.Keeps (.addJob job dependsOn) := by
  by_cases hnew : job.id ∈ s.keys
  · have hsame : s.addNode job = s := by rw [addNode, if_pos hnew]
    rw [addJob, hsame]
    exact iff_of_true (enforced_addDependencies h enforced hnew dependsOn)
      (fun hn => absurd hnew hn)
  · obtain ⟨hkeys, hnodes, hjobs⟩ := addJob_of_notMem hnew dependsOn
    have hout : ∀ u v, s.dag.DependsOn v u → u ≠ job.id ∧ v ≠ job.id := by
      intro u v hdep
      obtain ⟨hu, hv⟩ := mem_keys_of_dependsOn h hdep
      exact ⟨fun heq => hnew (heq ▸ hu), fun heq => hnew (heq ▸ hv)⟩
    rw [enforced_iff (wellFormed_addJob h job dependsOn), Keeps, imp_iff_right hnew]
    constructor
    · -- what the object declares, and what declares it, has to be an edge
      intro hagree
      refine ⟨fun u hu hdecl => ?_, fun v hv hdecl => ?_⟩
      · have hdep := (hagree u ((hkeys u).mpr (List.mem_cons.mp hu)) job.id
          ((hkeys _).mpr (Or.inl rfl))).mpr
          ((hjobs _ _).mpr (Or.inl (by rw [if_pos rfl]; exact hdecl)))
        rcases (hnodes _ _).mp hdep with hold | hadded
        · exact absurd rfl (hout _ _ hold).2
        · exact hadded.2.1
      · have hne : v ≠ job.id := fun heq => hnew (heq ▸ hv)
        have hdep := (hagree job.id ((hkeys _).mpr (Or.inl rfl)) v
          ((hkeys v).mpr (Or.inr hv))).mpr
          ((hjobs _ _).mpr (Or.inl (by rw [if_neg hne]; exact hdecl)))
        rcases (hnodes _ _).mp hdep with hold | hadded
        · exact absurd rfl (hout _ _ hold).1
        · exact absurd hadded.1 hne
    · rintro ⟨hown, hothers⟩ u hu v hv
      rw [hnodes, hjobs]
      by_cases hvj : v = job.id
      · have hedge : ¬ s.dag.DependsOn v u := fun hdep => (hout u v hdep).2 hvj
        have hown' := hown u (List.mem_cons.mpr ((hkeys u).mp hu))
        have hu' := (hkeys u).mp hu
        rw [if_pos hvj]
        tauto
      · have hv' := ((hkeys v).mp hv).resolve_left hvj
        rw [if_neg hvj]
        rcases (hkeys u).mp hu with rfl | hu'
        · have hedge : ¬ s.dag.DependsOn v job.id := fun hdep => (hout _ v hdep).1 rfl
          have hdecl := hothers v hv'
          tauto
        · rw [enforced.declared u hu' v hv']

/-- Removing an edge keeps them in agreement exactly where the list names its source once at
most. -/
theorem enforced_removeEdge_iff (a b : UUID) :
    (s.removeEdge a b).Enforced ↔ s.Keeps (.removeEdge a b) := by
  by_cases hmem : a ∈ s.keys ∧ b ∈ s.keys
  · obtain ⟨ha, hb⟩ := hmem
    obtain ⟨hkeys, hnodes, hjobs⟩ := removeEdge_of_mem ha hb
    rw [enforced_iff (wellFormed_removeEdge h a b), Keeps, hkeys, imp_iff_right ha,
      imp_iff_right hb]
    have hcount := List.count_erase_self (a := a) (l := (s.jobs.get b).dependsOn)
    constructor
    · intro hagree
      have hgone : a ∉ (s.jobs.get b).dependsOn.erase a := by
        intro hleft
        have hdep := (hagree a ha b hb).mpr ((hjobs a b).mpr (by rw [if_pos rfl]; exact hleft))
        exact ((hnodes a b).mp hdep).2 ⟨rfl, rfl⟩
      rw [List.count_eq_zero.mpr hgone] at hcount
      omega
    · intro honce u hu v hv
      rw [hnodes, hjobs, enforced.declared u hu v hv]
      by_cases hvb : v = b
      · subst hvb
        rw [if_pos rfl]
        by_cases hua : u = a
        · subst hua
          have hgone : u ∉ (s.jobs.get v).dependsOn.erase u :=
            List.count_eq_zero.mp (by omega)
          simp [hgone]
        · rw [List.mem_erase_of_ne hua]
          simp [hua, Declares]
      · simp [hvb]
  · have hsame : s.removeEdge a b = s := by
      rw [removeEdge, DAG.removeEdge,
        if_neg (show ¬ (a ∈ s.dag.nodes.keys ∧ b ∈ s.dag.nodes.keys) from hmem)]
    rw [hsame]
    exact iff_of_true enforced (fun ha hb => absurd ⟨ha, hb⟩ hmem)

/-- **One call**: the declared dependencies stay enforced exactly where the call keeps
them. -/
theorem enforced_step_iff (c : BuildCall) : (s.step c).Enforced ↔ s.Keeps c := by
  cases c with
  | addNode job =>
    have hnone : s.Keeps (.addJob job []) ↔ s.Keeps (.addNode job) := by
      show (job.id ∉ s.keys → (∀ u ∈ job.id :: s.keys, u ∈ job.dependsOn → u ∈ []) ∧ _)
        ↔ (job.id ∉ s.keys → (∀ u ∈ job.id :: s.keys, u ∉ job.dependsOn) ∧ _)
      simp only [List.not_mem_nil, imp_false]
    rw [← hnone]
    exact enforced_addJob_iff h enforced job []
  | addJob job dependsOn => exact enforced_addJob_iff h enforced job dependsOn
  | addEdge a b => exact iff_of_true (enforced_addEdge h enforced a b) trivial
  | removeEdge a b => exact enforced_removeEdge_iff h enforced a b

end Step

/-! ## Every sequence of calls -/

/-- A new graph with any options, and the job objects. -/
def new (options : DAG) (jobs : JobTable) : DAGBuild :=
  ⟨{ options with nodes := OrderedDict.empty, jobs := [] }, jobs⟩

theorem wellFormed_new (options : DAG) (jobs : JobTable) : (new options jobs).dag.WellFormed :=
  .of_new rfl rfl

theorem enforced_new (options : DAG) (jobs : JobTable) : (new options jobs).Enforced :=
  (enforced_iff (wellFormed_new options jobs)).mpr (fun _ hu => absurd hu List.not_mem_nil)

/-- **Declared dependencies are enforced throughout a sequence of calls exactly where every
call keeps them.** -/
theorem enforced_iff_keeps (options : DAG) (jobs : JobTable) (cs : List BuildCall) :
    (∀ ds, ds <+: cs → (History.after step (new options jobs) ds).Enforced)
      ↔ History.Admitted step Keeps (new options jobs) cs :=
  History.throughout_iff_admitted (I := fun s : DAGBuild => s.dag.WellFormed)
    (fun _ c h enforced => enforced_step_iff h enforced c) (fun _ c h => wellFormed_step h c)
    (wellFormed_new options jobs) (enforced_new options jobs) cs

/-- **Declared dependencies are lost.** A job that declares another job of the graph is a root
where it is added without an argument. And a job that declares it twice still declares it after
`remove_edge`. -/
theorem declared_not_enforced :
    ((2 ∈ (History.after step (new { id := 9 } .fresh)
          [.addJob { id := 1 } [], .addJob { id := 2, dependsOn := [1] } []]).dag.getRootNodes
        ∧ (History.after step (new { id := 9 } .fresh)
          [.addJob { id := 1 } [], .addJob { id := 2, dependsOn := [1] } []]).Declares 2 1)
      ∧ ¬ (History.after step (new { id := 9 } .fresh)
          [.addJob { id := 1 } [], .addJob { id := 2, dependsOn := [1] } []]).Enforced)
    ∧ ¬ (History.after step (new { id := 9 } .fresh)
          [.addJob { id := 1 } [], .addJob { id := 2, dependsOn := [1, 1] } [1],
            .removeEdge 1 2]).Enforced := by
  have hroot : 2 ∈ (History.after step (new { id := 9 } .fresh)
      [.addJob { id := 1 } [], .addJob { id := 2, dependsOn := [1] } []]).dag.getRootNodes := by
    decide +kernel
  have hdecl : (History.after step (new { id := 9 } .fresh)
      [.addJob { id := 1 } [], .addJob { id := 2, dependsOn := [1] } []]).Declares 2 1 := by
    decide +kernel
  refine ⟨⟨⟨hroot, hdecl⟩, fun h => h.roots 2 hroot 1 (by decide +kernel) hdecl⟩, fun h => ?_⟩
  exact h.roots 2 (by decide +kernel) 1 (by decide +kernel) (by decide +kernel)

end DAGBuild

end JobOrchestrator
