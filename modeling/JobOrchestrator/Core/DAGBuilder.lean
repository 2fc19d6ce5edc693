import JobOrchestrator.Core.Dependencies

/-!
# The builder of graphs

`DAGBuilder.add_job` takes the dependencies of a job by the names under which they were added.
It writes the name of the new job into its table, then the node into the graph, and then one
edge after the other, each name being looked up when its turn comes. A name that is not in the
table raises a `ValueError`, with all that was written up to there left in place.

`unchanged_iff` says when nothing is left of a call that raises it: when the call says only what
an earlier one has said already, up to the unknown name.
-/

namespace JobOrchestrator

/-- **`DAGBuilder`**: the graph under construction and the names of its jobs. A name is known to
the builder alone; the graph itself has only ids, and two names may stand for one job. -/
structure DAGBuilder extends DAGBuild where
  jobIds : OrderedDict String UUID := OrderedDict.empty

namespace DAGBuilder

/-- `DAGBuilder(...)`. -/
def new (options : DAG) (jobs : JobTable) : DAGBuilder := { toDAGBuild := .new options jobs }

/-- `ValueError(f"Dependency '{dep_key}' not found. Jobs must be added before they can be
depended on.")`. -/
def notFound (depKey : String) : PyException :=
  ⟨["ValueError"], "Dependency '" ++ depKey ++ "' not found. "
    ++ "Jobs must be added before they can be depended on."⟩

/-- The loop of `add_job` over `depends_on`: what is raised, and what is left. -/
def addDependencies (jobId : UUID) :
    List String → DAGBuilder → DAGBuilder × Option PyException
  | [], b => (b, none)
  | depKey :: dependsOn, b =>
    match b.jobIds.get? depKey with
    | none => (b, some (notFound depKey))
    | some depId =>
      match b.dag.addEdge depId jobId b.jobs with
      | .error e => (b, some e)
      | .ok (dag, jobs) => addDependencies jobId dependsOn { b with dag := dag, jobs := jobs }

/-- `job_id or str(job.id)`. -/
def keyOf (job : Job) (jobId : Option String) : String :=
  match jobId with
  | none => job.id.str
  | some key => if key = "" then job.id.str else key

/-- `_job_ids[key] = job.id`, and then `dag.add_node(job)`. -/
def register (key : String) (job : Job) (b : DAGBuilder) : DAGBuilder :=
  { toDAGBuild := b.toDAGBuild.addNode job, jobIds := b.jobIds.set key job.id }

/-- **`add_job`**, of a job object. Of a function, `add_job` makes one first. -/
def addJob (job : Job) (jobId : Option String) (dependsOn : Option (List String))
    (b : DAGBuilder) : DAGBuilder × Option PyException :=
  addDependencies job.id (dependsOn.getD []) (b.register (keyOf job jobId) job)

/-- **Exactly as before**: the names, the graph, and the `depends_on` lists of its jobs. A job
that the refused call has brought with it and that is not in the graph is not looked at. -/
structure Unchanged (b b' : DAGBuilder) : Prop where
  jobIds : b'.jobIds = b.jobIds
  dag : b'.dag = b.dag
  dependsOn : ∀ k ∈ b.keys, (b'.jobs.get k).dependsOn = (b.jobs.get k).dependsOn

/-- All three records have `v` depend on `u`. -/
structure Recorded (b : DAGBuilder) (u v : UUID) : Prop where
  dependsOn : b.dag.DependsOn v u
  releases : b.dag.Releases u v
  declares : b.Declares v u

/-- The names before the first that is not in the table. -/
def known (b : DAGBuilder) (dependsOn : List String) : List String :=
  dependsOn.takeWhile (fun depKey => depKey ∈ b.jobIds.keys)

/-- **A call that says nothing new**: the key is the name of the job already, the job has its
node, and depends on all that come before the first unknown name. Such a call writes only what is
there, which is why it may raise half-way and still leave the builder unchanged. -/
structure SaysNothingNew (b : DAGBuilder) (job : Job) (jobId : Option String)
    (dependsOn : Option (List String)) : Prop where
  named : b.jobIds.get? (keyOf job jobId) = some job.id
  node : job.id ∈ b.keys
  edges : ∀ depKey ∈ b.known (dependsOn.getD []), ∀ depId,
    b.jobIds.get? depKey = some depId → b.Recorded depId job.id

variable {b : DAGBuilder}

/-! ## One dependency -/

/-- An edge that is on record already is not added a second time. -/
theorem addEdge_of_recorded {u v : UUID} (h : b.Recorded u v) :
    b.dag.addEdge u v b.jobs = .ok (b.dag, b.jobs) := by
  obtain ⟨n, hn, hdep⟩ := h.dependsOn
  obtain ⟨m, hm, hrel⟩ := h.releases
  have hu : u ∈ b.dag.nodes.keys := OrderedDict.mem_keys_iff.mpr ⟨m, hm⟩
  have hv : v ∈ b.dag.nodes.keys := OrderedDict.mem_keys_iff.mpr ⟨n, hn⟩
  have hto : b.dag.nodes.modify v (fun n => n.addDependency u) = b.dag.nodes := by
    refine OrderedDict.modify_eq_self (fun n' hn' => ?_)
    rw [hn, Option.some.injEq] at hn'
    subst hn'
    simp [DAGNode.addDependency, hdep]
  have hfrom : b.dag.nodes.modify u (fun n => n.addDependent v) = b.dag.nodes := by
    refine OrderedDict.modify_eq_self (fun m' hm' => ?_)
    rw [hm, Option.some.injEq] at hm'
    subst hm'
    simp [DAGNode.addDependent, hrel]
  have hlink : b.dag.link u v = b.dag := by
    rw [DAG.link, hto, hfrom]
  rw [DAG.addEdge, if_neg (not_not.mpr hu), if_neg (not_not.mpr hv), hlink,
    if_pos (show u ∈ (b.jobs.get v).dependsOn from h.declares)]

/-- What one edge leaves: the nodes, the names, what was on record, and the edge on record. -/
theorem recorded_addEdge {u v : UUID} {dag : DAG} {jobs : JobTable}
    (added : b.dag.addEdge u v b.jobs = .ok (dag, jobs)) :
    let b' : DAGBuilder := { b with dag := dag, jobs := jobs }
    b'.keys = b.keys ∧ b'.Recorded u v ∧ ∀ u' v', b.Recorded u' v' → b'.Recorded u' v' := by
  intro b'
  obtain ⟨hu, hv, hdag⟩ := DAG.addEdge_eq_ok added
  have heq : b'.toDAGBuild = b.toDAGBuild.addEdge u v := by
    rw [DAGBuild.addEdge, added]
  obtain ⟨hkeys, hdep, hdecl⟩ :=
    DAGBuild.addEdge_of_mem (show u ∈ b.keys from hu) (show v ∈ b.keys from hv)
  rw [← heq] at hkeys hdep hdecl
  have hrel : ∀ u' v', b'.dag.Releases u' v' ↔ b.dag.Releases u' v' ∨ u' = u ∧ v' = v := by
    intro u' v'
    show dag.Releases u' v' ↔ _
    rw [hdag, DAG.releases_link hu]
  refine ⟨hkeys, ⟨?_, ?_, ?_⟩, fun u' v' h => ⟨?_, ?_, ?_⟩⟩
  · exact (hdep u v).mpr (Or.inr ⟨rfl, rfl⟩)
  · exact (hrel u v).mpr (Or.inr ⟨rfl, rfl⟩)
  · exact (hdecl u v).mpr (Or.inr ⟨rfl, rfl⟩)
  · exact (hdep u' v').mpr (Or.inl h.dependsOn)
  · exact (hrel u' v').mpr (Or.inl h.releases)
  · exact (hdecl u' v').mpr (Or.inl h.declares)

/-- The two errors of `add_job` are of different classes. -/
theorem notFound_ne_keyError (depKey : String) (jobId : UUID) :
    notFound depKey ≠ DAG.keyError jobId := by
  intro h
  simp [notFound, DAG.keyError] at h

/-- What `add_edge` raises is a `KeyError`. It names the node that is missing, the one the edge
comes from first. -/
theorem eq_keyError_of_addEdge {g : DAG} {t : JobTable} {u v : UUID} {e : PyException}
    (h : g.addEdge u v t = .error e) : ∃ jobId, e = DAG.keyError jobId := by
  rw [DAG.addEdge] at h
  split at h
  · exact ⟨u, (Except.error.inj h).symm⟩
  · split at h
    · exact ⟨v, (Except.error.inj h).symm⟩
    · simp at h

/-! ## The loop -/

/-- What the loop leaves when it meets an unknown name: the names and the nodes as they were,
all that was on record, and an edge from each of the names before. -/
theorem addDependencies_notFound {jobId : UUID} {depKey : String} (dependsOn : List String)
    (b : DAGBuilder) (raised : (addDependencies jobId dependsOn b).2 = some (notFound depKey)) :
    let b' := (addDependencies jobId dependsOn b).1
    b'.jobIds = b.jobIds ∧ b'.keys = b.keys ∧ (∀ u v, b.Recorded u v → b'.Recorded u v)
      ∧ ∀ k ∈ b.known dependsOn, ∀ depId, b.jobIds.get? k = some depId →
        b'.Recorded depId jobId := by
  induction dependsOn generalizing b with
  | nil => simp [addDependencies] at raised
  | cons k ks ih =>
    rw [addDependencies] at raised ⊢
    split at raised
    · rename_i hnone
      have hstop : b.known (k :: ks) = [] := by
        simp [known, OrderedDict.get?_eq_none_iff.mp hnone]
      rw [hstop]
      exact ⟨rfl, rfl, fun _ _ h => h, by simp⟩
    · rename_i depId hsome
      split at raised
      · rename_i e herr
        -- a name whose job has no node raises the other error
        obtain ⟨jobId', rfl⟩ := eq_keyError_of_addEdge herr
        exact absurd (Option.some.inj raised).symm (notFound_ne_keyError _ _)
      · rename_i dag jobs hok
        obtain ⟨hkeys, hnew, hold⟩ := recorded_addEdge hok
        obtain ⟨hnames, hkeys', hkept, hedges⟩ := ih { b with dag := dag, jobs := jobs } raised
        refine ⟨hnames, hkeys'.trans hkeys, fun u v h => hkept u v (hold u v h), ?_⟩
        intro k' hk' depId' hget
        have hmem : k ∈ b.jobIds.keys := OrderedDict.mem_keys_iff.mpr ⟨depId, hsome⟩
        rw [known, List.takeWhile_cons_of_pos (by simp [hmem]), List.mem_cons] at hk'
        rcases hk' with rfl | hk'
        · obtain rfl := Option.some.inj (hsome.symm.trans hget)
          exact hkept _ _ hnew
        · exact hedges k' hk' depId' hget

/-- Where the edges from the names before the unknown one are on record, nothing is left of
the loop. -/
theorem addDependencies_of_recorded {jobId : UUID} {depKey : String} (dependsOn : List String)
    (raised : (addDependencies jobId dependsOn b).2 = some (notFound depKey))
    (recorded : ∀ k ∈ b.known dependsOn, ∀ depId, b.jobIds.get? k = some depId →
      b.Recorded depId jobId) :
    (addDependencies jobId dependsOn b).1 = b := by
  induction dependsOn with
  | nil => rfl
  | cons k ks ih =>
    rw [addDependencies] at raised ⊢
    cases hget : b.jobIds.get? k with
    | none => rfl
    | some depId =>
      have hmem : k ∈ b.jobIds.keys := OrderedDict.mem_keys_iff.mpr ⟨depId, hget⟩
      have hknown : b.known (k :: ks) = k :: b.known ks := by
        rw [known, List.takeWhile_cons_of_pos (by simp [hmem])]
        rfl
      rw [hknown] at recorded
      have hedge := addEdge_of_recorded (recorded k List.mem_cons_self depId hget)
      simp only [hget, hedge] at raised ⊢
      exact ih raised (fun k' hk' => recorded k' (List.mem_cons_of_mem k hk'))

/-! ## The whole call -/

/-- A job with a node, under the name it has: nothing is written. -/
theorem register_eq_self {key : String} {job : Job} (named : b.jobIds.get? key = some job.id)
    (node : job.id ∈ b.keys) : b.register key job = b := by
  rw [register, OrderedDict.set_eq_self named, DAGBuild.addNode, if_pos node]

theorem mem_keys_register (key : String) (job : Job) : job.id ∈ (b.register key job).keys := by
  show job.id ∈ (b.toDAGBuild.addNode job).keys
  by_cases h : job.id ∈ b.keys
  · rw [DAGBuild.addNode, if_pos h]
    exact h
  · exact ((DAGBuild.addNode_of_notMem h).1 job.id).mpr (Or.inl rfl)

/-- **When a call that raises leaves everything as it was**, for every state of the builder and
every call that meets an unknown name: just when it says nothing new. -/
theorem unchanged_iff {job : Job} {jobId : Option String} {dependsOn : Option (List String)}
    (depKey : String) (raised : (b.addJob job jobId dependsOn).2 = some (notFound depKey)) :
    b.Unchanged (b.addJob job jobId dependsOn).1 ↔ b.SaysNothingNew job jobId dependsOn := by
  constructor
  · intro h
    obtain ⟨hnames, hkeys, -, hedges⟩ := addDependencies_notFound _ _ raised
    have hnamed : b.jobIds.set (keyOf job jobId) job.id = b.jobIds := hnames.symm.trans h.jobIds
    have hnode : job.id ∈ b.keys := by
      have hmem := mem_keys_register (b := b) (keyOf job jobId) job
      rw [← hkeys] at hmem
      show job.id ∈ b.dag.nodes.keys
      rw [← h.dag]
      exact hmem
    refine ⟨?_, hnode, ?_⟩
    · rw [← hnamed]
      exact OrderedDict.get?_set_self _ _ _
    · intro k hk depId hget
      obtain ⟨hdep, hrel, hdecl⟩ := hedges k (by
        show k ∈ List.takeWhile (fun depKey => depKey ∈ (b.jobIds.set _ job.id).keys) _
        rw [hnamed]
        exact hk) depId (by
        show (b.jobIds.set _ job.id).get? k = some depId
        rw [hnamed]
        exact hget)
      have hdecl' : depId ∈ (((b.addJob job jobId dependsOn).1).jobs.get job.id).dependsOn :=
        hdecl
      rw [h.dependsOn job.id hnode] at hdecl'
      have hdag := h.dag
      rw [addJob] at hdag
      rw [hdag] at hdep hrel
      exact ⟨hdep, hrel, hdecl'⟩
  · rintro ⟨named, node, edges⟩
    rw [addJob, register_eq_self named node] at raised ⊢
    rw [addDependencies_of_recorded _ raised edges]
    exact ⟨rfl, rfl, fun _ _ => rfl⟩

/-- A builder with one job, `a`. -/
def oneJob : DAGBuilder := ((new { id := 7 } .fresh).addJob { id := 1 } (some "a") none).1

/-- Adding that job again, on something unknown, leaves nothing. -/
theorem unchanged_iff_again :
    oneJob.Unchanged (oneJob.addJob { id := 1 } (some "a") (some ["missing"])).1 :=
  (unchanged_iff "missing" (by decide +kernel)).mpr
    ⟨by decide +kernel, by decide +kernel, fun k hk => by
      have hnone : oneJob.known ["missing"] = [] := by decide +kernel
      rw [show (some ["missing"]).getD [] = ["missing"] from rfl, hnone] at hk
      exact absurd hk (by simp)⟩

/-- **`add_job` is not all or nothing**: the job whose dependency is unknown stays, with its name
and its node. -/
theorem not_unchanged_missing :
    let call := oneJob.addJob { id := 2 } (some "b") (some ["missing"])
    call.2 = some (notFound "missing") ∧ ¬ oneJob.Unchanged call.1
      ∧ call.1.jobIds.get? "b" = some 2 ∧ call.1.keys = [1, 2] := by
  intro call
  have hname : call.1.jobIds.get? "b" = some 2 := by decide +kernel
  refine ⟨by decide +kernel, fun h => ?_, hname, by decide +kernel⟩
  rw [h.jobIds] at hname
  exact absurd hname (by decide +kernel)

end DAGBuilder

end JobOrchestrator
