import JobOrchestrator.Core.ExecutionPlan
import JobOrchestrator.Util.GuardedRun

/-!
# Ready jobs

What `core/dag.py` reads off the states of the jobs: `get_ready_jobs`, `is_job_ready`,
`get_leaf_nodes`, `is_complete`, `has_failed` and `progress`. The class does not run anything;
a caller takes ready jobs, moves them through the states and asks again.

`DAG.driven_in_order` is about every caller that lets no other job leave `PENDING`, except to
`CANCELLED`: whatever it does with the jobs that have begun, a job that has begun has all of its
ancestors completed, and the ready jobs run out only where that is because of a job that is under
way, has failed or was cancelled.

`DAG.rounds_follow_plan` is about the caller that completes all of the ready jobs before it asks
again. What it is given are the levels of `get_execution_plan`, one after the other.
-/

namespace JobOrchestrator

namespace DAGNode

/-- `is_leaf`. -/
def isLeaf (n : DAGNode) : Bool := decide (n.dependents.card = 0)

theorem isLeaf_iff {n : DAGNode} : n.isLeaf = true ↔ n.dependents = ∅ := by
  rw [isLeaf, decide_eq_true_eq, Finset.card_eq_zero]

end DAGNode

namespace DAG

/-! ## The functions -/

/-- `get_leaf_nodes`. -/
def getLeafNodes (g : DAG) : List UUID :=
  (g.nodes.values.filter (·.isLeaf)).map DAGNode.jobId

/-- `all(self.jobs[dep_id].state == JobState.COMPLETED for dep_id in node.dependencies)`. -/
def allDepsCompleted (t : JobTable) (node : DAGNode) : Bool :=
  decide (∀ depId ∈ node.dependencies, (t.get depId).state = .completed)

/-- **`get_ready_jobs`**: the pending jobs whose dependencies are completed, in the order of the
nodes. -/
def getReadyJobs (g : DAG) (t : JobTable) : List UUID :=
  (g.nodes.entries.filter (fun entry =>
    if (t.get entry.1).state ≠ .pending then false else allDepsCompleted t entry.2)).map Prod.fst

/-- `is_complete`. Only the states of the job objects are asked, not the executor. -/
def isComplete (g : DAG) (t : JobTable) : Bool :=
  g.jobs.all (fun jobId => (t.get jobId).state = .completed)

/-- `has_failed`. -/
def hasFailed (g : DAG) (t : JobTable) : Bool :=
  g.jobs.any (fun jobId => (t.get jobId).state = .failed)

/-- The jobs that `progress` counts. -/
def completedJobs (g : DAG) (t : JobTable) : List UUID :=
  g.jobs.filter (fun jobId => (t.get jobId).state = .completed)

/-- **`progress`**, with the exact quotient. -/
def progress (g : DAG) (t : JobTable) : ℚ :=
  if g.jobs = [] then 1 else (g.completedJobs t).length / g.jobs.length

variable {g : DAG} {t : JobTable} {u v : UUID}

theorem mem_getReadyJobs : v ∈ g.getReadyJobs t ↔ v ∈ g.nodes.keys
    ∧ (t.get v).state = .pending ∧ ∀ u, g.DependsOn v u → (t.get u).state = .completed := by
  have hnode : ∀ {n}, g.nodes.get? v = some n →
      ((∀ u, g.DependsOn v u → (t.get u).state = .completed)
        ↔ ∀ u ∈ n.dependencies, (t.get u).state = .completed) := by
    intro n hn
    simp [DependsOn, hn]
  simp only [getReadyJobs, List.mem_map, List.mem_filter, allDepsCompleted, Prod.exists,
    exists_and_right, exists_eq_right]
  constructor
  · rintro ⟨n, hmem, hready⟩
    have hn : g.nodes.get? v = some n := OrderedDict.get?_eq_some_iff.mpr hmem
    rw [hnode hn]
    refine ⟨OrderedDict.mem_keys_iff.mpr ⟨n, hn⟩, ?_⟩
    simpa using hready
  · rintro ⟨hkey, hpending, hdeps⟩
    obtain ⟨n, hn⟩ := OrderedDict.mem_keys_iff.mp hkey
    rw [hnode hn] at hdeps
    exact ⟨n, OrderedDict.get?_eq_some_iff.mp hn, by simpa [hpending] using hdeps⟩

theorem nodup_getReadyJobs : (g.getReadyJobs t).Nodup :=
  List.Nodup.sublist (List.filter_sublist.map _) g.nodes.nodup_keys

theorem isComplete_iff : g.isComplete t = true ↔ ∀ v ∈ g.jobs, (t.get v).state = .completed := by
  simp [isComplete]

theorem hasFailed_iff : g.hasFailed t = true ↔ ∃ v ∈ g.jobs, (t.get v).state = .failed := by
  simp [hasFailed]

theorem progress_mul_length : g.progress t * g.jobs.length = (g.completedJobs t).length := by
  rw [progress]
  split
  · rename_i hnone
    simp [completedJobs, hnone]
  · rename_i hsome
    have hpos : (g.jobs.length : ℚ) ≠ 0 := by simpa using hsome
    exact div_mul_cancel₀ _ hpos

namespace WellFormed

theorem mem_getLeafNodes (hg : g.WellFormed) :
    v ∈ g.getLeafNodes ↔ v ∈ g.jobs ∧ ∀ w, ¬ g.DependsOn w v := by
  have hnode : ∀ {n}, g.nodes.get? v = some n →
      ((∀ w, ¬ g.DependsOn w v) ↔ n.isLeaf = true) := by
    intro n hn
    simp [hg.mirrored, Releases, hn, DAGNode.isLeaf_iff, Finset.eq_empty_iff_forall_notMem]
  rw [getLeafNodes, List.mem_map, mem_jobs_iff hg]
  constructor
  · rintro ⟨n, hn, rfl⟩
    obtain ⟨hvalue, hleaf⟩ := List.mem_filter.mp hn
    obtain ⟨k, hk⟩ := OrderedDict.mem_values_iff.mp hvalue
    rw [← hg.jobId hk] at hk
    exact ⟨⟨n, hk⟩, (hnode hk).mpr hleaf⟩
  · rintro ⟨⟨n, hn⟩, hleaf⟩
    refine ⟨n, List.mem_filter.mpr ⟨OrderedDict.mem_values_iff.mpr ⟨v, hn⟩, ?_⟩, hg.jobId hn⟩
    exact (hnode hn).mp hleaf

/-- **Induction along the dependents** of an acyclic graph. It goes from the leaves up, where the
induction along the dependencies goes from the roots. -/
theorem dependents_induction (hg : g.WellFormed) (acyclic : g.Acyclic) {P : UUID → Prop}
    (step : ∀ k ∈ g.jobs, (∀ w, g.DependsOn w k → P w) → P k) {k : UUID} (hk : k ∈ g.jobs) :
    P k := by
  have : IsStrictOrder UUID (fun a b => g.Ancestor b a) :=
    { irrefl := acyclic
      trans := fun _ _ _ huv hvw => huv.trans hvw }
  have hwf : {k | k ∈ g.jobs}.WellFoundedOn (fun a b => g.Ancestor b a) :=
    g.jobs.finite_toSet.wellFoundedOn
  refine hwf.induction hk (fun v hv ih => step v hv (fun w hw => ?_))
  exact ih w (mem_jobs_of_dependsOn hg hw).2 (Relation.TransGen.single hw)

end WellFormed

/-! ## A caller that starts ready jobs -/

/-- **A move of a job**: its new state, where the transition is valid. -/
def move (t : JobTable) (m : UUID × JobState) : Option JobTable :=
  if canTransition (t.get m.1).state m.2 then
    some (t.modify m.1 (fun j => { j with state := m.2 }))
  else none

/-- **What the caller keeps to**: a job of the graph leaves `PENDING` when it is ready, or is
cancelled. -/
def StartsReady (g : DAG) (t : JobTable) (m : UUID × JobState) : Prop :=
  m.1 ∈ g.jobs → (t.get m.1).state = .pending → m.2 = .cancelled ∨ m.1 ∈ g.getReadyJobs t

instance (g : DAG) (t : JobTable) (m : UUID × JobState) : Decidable (g.StartsReady t m) :=
  inferInstanceAs (Decidable (_ → _ → _))

/-- The job has left `PENDING`, and not by being cancelled. -/
def Begun (t : JobTable) (v : UUID) : Prop :=
  (t.get v).state ≠ .pending ∧ (t.get v).state ≠ .cancelled

/-- The job has begun and may go on. -/
def UnderWay (t : JobTable) (v : UUID) : Prop :=
  (t.get v).state ≠ .pending ∧ (t.get v).state.isTerminal = false

/-- **The dependencies of a job that has begun are completed.** -/
def Ordered (g : DAG) (t : JobTable) : Prop :=
  ∀ u v, g.DependsOn v u → Begun t v → (t.get u).state = .completed

theorem move_eq_some {t t' : JobTable} {m : UUID × JobState} (h : move t m = some t') :
    m.2 ∈ validTransitions (t.get m.1).state
      ∧ ∀ v, (t'.get v).state = if v = m.1 then m.2 else (t.get v).state := by
  rw [move] at h
  split at h
  · rename_i hvalid
    obtain rfl := Option.some.inj h
    refine ⟨by simpa [canTransition] using hvalid, fun v => ?_⟩
    by_cases hv : v = m.1
    · rw [if_pos hv, hv, JobTable.get_modify_self]
    · rw [if_neg hv, JobTable.get_modify_of_ne _ hv]
  · exact absurd h (by simp)

theorem ordered_of_pending (hg : g.WellFormed)
    (pending : ∀ v ∈ g.jobs, (t.get v).state = .pending) : g.Ordered t :=
  fun _ _ hdep hbegun => absurd (pending _ (mem_jobs_of_dependsOn hg hdep).2) hbegun.1

theorem begun_of_completed (h : (t.get v).state = .completed) : Begun t v := by
  rw [Begun, h]
  exact ⟨by decide, by decide⟩

/-- A job that has begun had begun before the move, or was ready. -/
theorem begun_of_move {t t' : JobTable} {m : UUID × JobState} (starts : g.StartsReady t m)
    (moved : move t m = some t') (hv : v ∈ g.jobs) (begun : Begun t' v) :
    Begun t v ∨ v ∈ g.getReadyJobs t := by
  obtain ⟨hvalid, hstate⟩ := move_eq_some moved
  rw [Begun, hstate] at begun
  by_cases hmoved : v = m.1
  · subst hmoved
    rw [if_pos rfl] at begun
    by_cases hpending : (t.get m.1).state = .pending
    · exact Or.inr ((starts hv hpending).resolve_left begun.2)
    · refine Or.inl ⟨hpending, fun hcancelled => ?_⟩
      rw [hcancelled] at hvalid
      exact List.not_mem_nil hvalid
  · rw [if_neg hmoved] at begun
    exact Or.inl begun

/-- **A move keeps the order.** Nothing leaves `COMPLETED`, so that what a job has waited for
stays. -/
theorem ordered_move (hg : g.WellFormed) {t t' : JobTable} {m : UUID × JobState}
    (h : g.Ordered t) (starts : g.StartsReady t m) (moved : move t m = some t') :
    g.Ordered t' := by
  obtain ⟨hvalid, hstate⟩ := move_eq_some moved
  intro u v hdep hbegun
  have hbefore : (t.get u).state = .completed := by
    obtain hbegun' | hready := begun_of_move starts moved (mem_jobs_of_dependsOn hg hdep).2 hbegun
    · exact h u v hdep hbegun'
    · exact (mem_getReadyJobs.mp hready).2.2 u hdep
  have hu : u ≠ m.1 := by
    rintro rfl
    rw [hbefore] at hvalid
    exact List.not_mem_nil hvalid
  rw [hstate, if_neg hu, hbefore]

namespace Ordered

/-- **All the ancestors of a job that has begun are completed.** -/
theorem ancestor (h : g.Ordered t) (begun : Begun t v) (hu : g.Ancestor u v) :
    (t.get u).state = .completed := by
  induction hu with
  | single hdep => exact h _ _ hdep begun
  | tail _ hdep ih => exact h _ _ hdep (begun_of_completed ih)

/-- **Where nothing is ready**, a pending job waits for one that has begun and is not completed,
or was cancelled. -/
theorem getReadyJobs_eq_nil_iff (h : g.Ordered t) (hg : g.WellFormed) (acyclic : g.Acyclic) :
    g.getReadyJobs t = [] ↔ ∀ v ∈ g.jobs, (t.get v).state = .pending →
      ∃ u, g.Ancestor u v ∧ (t.get u).state ≠ .pending ∧ (t.get u).state ≠ .completed := by
  constructor
  · intro hnone v hv
    refine acyclic_induction hg acyclic (P := fun v => (t.get v).state = .pending →
      ∃ u, g.Ancestor u v ∧ (t.get u).state ≠ .pending ∧ (t.get u).state ≠ .completed)
      (fun k hk ih hpending => ?_) hv
    have hready : k ∉ g.getReadyJobs t := by simp [hnone]
    rw [mem_getReadyJobs] at hready
    push Not at hready
    obtain ⟨u, hdep, hu⟩ := hready (hg.jobs ▸ hk) hpending
    by_cases hwaits : (t.get u).state = .pending
    · obtain ⟨w, hw, hstate⟩ := ih u hdep hwaits
      exact ⟨w, hw.head hdep, hstate⟩
    · exact ⟨u, .single hdep, hwaits, hu⟩
  · intro hall
    refine List.eq_nil_iff_forall_not_mem.mpr (fun v hv => ?_)
    obtain ⟨hkey, hpending, hdeps⟩ := mem_getReadyJobs.mp hv
    obtain ⟨u, hu, hnot, hnotDone⟩ := hall v (hg.jobs ▸ hkey) hpending
    obtain ⟨w, hdep, hrest⟩ := Relation.TransGen.head'_iff.mp hu
    have hw := hdeps w hdep
    rcases Relation.reflTransGen_iff_eq_or_transGen.mp hrest with rfl | hanc
    · exact hnotDone hw
    · exact hnotDone (h.ancestor (begun_of_completed hw) hanc)

/-- **The leaves tell whether the graph is complete.** Where no job has overtaken its
dependencies, a completed leaf has everything behind it completed as well. -/
theorem isComplete_iff_leaves (h : g.Ordered t) (hg : g.WellFormed) (acyclic : g.Acyclic) :
    g.isComplete t = true ↔ ∀ v ∈ g.getLeafNodes, (t.get v).state = .completed := by
  rw [isComplete_iff]
  refine ⟨fun hall v hv => hall v ((hg.mem_getLeafNodes.mp hv).1), fun hleaves v hv => ?_⟩
  refine hg.dependents_induction acyclic (P := fun v => (t.get v).state = .completed)
    (fun k hk ih => ?_) hv
  by_cases hleaf : ∀ w, ¬ g.DependsOn w k
  · exact hleaves k (hg.mem_getLeafNodes.mpr ⟨hk, hleaf⟩)
  · push Not at hleaf
    obtain ⟨w, hdep⟩ := hleaf
    exact h k w hdep (begun_of_completed (ih w hdep))

end Ordered

/-- **What a caller has done**: the order is kept, and no job of a cycle has begun. -/
structure Driven (g : DAG) (t : JobTable) : Prop where
  ordered : g.Ordered t
  offCycle : ∀ v, g.Ancestor v v → ¬ Begun t v

theorem driven_of_pending (hg : g.WellFormed)
    (pending : ∀ v ∈ g.jobs, (t.get v).state = .pending) : g.Driven t where
  ordered := ordered_of_pending hg pending
  offCycle v hv hbegun := by
    obtain ⟨u, hdep, -⟩ := Relation.TransGen.head'_iff.mp hv
    exact hbegun.1 (pending v (mem_jobs_of_dependsOn hg hdep).2)

theorem Driven.move (hg : g.WellFormed) {t t' : JobTable} {m : UUID × JobState}
    (h : g.Driven t) (starts : g.StartsReady t m) (moved : DAG.move t m = some t') :
    g.Driven t' where
  ordered := ordered_move hg h.ordered starts moved
  offCycle v hv hbegun := by
    obtain ⟨u, hdep, hrest⟩ := Relation.TransGen.head'_iff.mp hv
    have hu : g.Ancestor u u := Relation.TransGen.tail' hrest hdep
    obtain hbegun' | hready := begun_of_move starts moved (mem_jobs_of_dependsOn hg hdep).2 hbegun
    · exact h.offCycle v hv hbegun'
    · exact h.offCycle u hu (begun_of_completed ((mem_getReadyJobs.mp hready).2.2 u hdep))

/-- **What holds of a graph whatever its caller has done with its ready jobs.** -/
structure InOrderOf (g : DAG) (t : JobTable) : Prop where
  /-- A job that has begun has all of its ancestors completed. -/
  ancestors : ∀ u v, Begun t v → g.Ancestor u v → (t.get u).state = .completed
  /-- Nothing is ready just where every pending job waits for one that is not pending. -/
  waiting : ¬ g.Cyclic → (g.getReadyJobs t = [] ↔ ∀ v ∈ g.jobs, (t.get v).state = .pending →
    ∃ u, g.Ancestor u v ∧ (t.get u).state ≠ .pending ∧ (t.get u).state ≠ .completed)
  /-- With nothing ready and nothing under way, the graph is complete, has failed, or a job of
  it was cancelled. -/
  settled : ¬ g.Cyclic → g.getReadyJobs t = [] → (∀ v ∈ g.jobs, ¬ UnderWay t v) →
    g.isComplete t = true ∨ g.hasFailed t = true ∨ ∃ v ∈ g.jobs, (t.get v).state = .cancelled
  /-- It is complete as soon as its leaves are. -/
  leaves : ¬ g.Cyclic →
    (g.isComplete t = true ↔ ∀ v ∈ g.getLeafNodes, (t.get v).state = .completed)
  /-- A graph with a cycle is never complete. -/
  cyclic : g.Cyclic → g.isComplete t = false

theorem Driven.inOrderOf (h : g.Driven t) (hg : g.WellFormed) : g.InOrderOf t where
  ancestors _ _ := h.ordered.ancestor
  waiting acyclic := h.ordered.getReadyJobs_eq_nil_iff hg (hg.not_cyclic_iff.mp acyclic)
  settled acyclic hnone hidle := by
    have hwaiting := (h.ordered.getReadyJobs_eq_nil_iff hg (hg.not_cyclic_iff.mp acyclic)).mp hnone
    by_contra hnot
    push Not at hnot
    obtain ⟨hopen, hfailed, hcancelled⟩ := hnot
    -- every job is pending or completed, so that no pending one has anything to wait for
    have hstates : ∀ v ∈ g.jobs,
        (t.get v).state = .pending ∨ (t.get v).state = .completed := by
      intro v hv
      have hcase := hidle v hv
      have hnotFailed : (t.get v).state ≠ .failed :=
        fun hstate => hfailed (hasFailed_iff.mpr ⟨v, hv, hstate⟩)
      have hnotCancelled := hcancelled v hv
      rw [UnderWay] at hcase
      revert hcase hnotFailed hnotCancelled
      cases (t.get v).state <;> decide
    refine hopen (isComplete_iff.mpr (fun v hv => (hstates v hv).resolve_left (fun hpending => ?_)))
    obtain ⟨u, hu, hnotPending, hnotDone⟩ := hwaiting v hv hpending
    obtain ⟨w, -, hdep⟩ := Relation.TransGen.tail'_iff.mp hu
    exact (hstates u (mem_jobs_of_dependsOn hg hdep).1).elim hnotPending hnotDone
  leaves acyclic := h.ordered.isComplete_iff_leaves hg (hg.not_cyclic_iff.mp acyclic)
  cyclic hcyclic := by
    obtain ⟨v, hv⟩ := hcyclic
    have hanc : g.Ancestor v v := hg.transGen_releases.mp hv
    obtain ⟨u, hdep, -⟩ := Relation.TransGen.head'_iff.mp hanc
    refine Bool.eq_false_iff.mpr (fun hall => h.offCycle v hanc (begun_of_completed ?_))
    exact isComplete_iff.mp hall v (mem_jobs_of_dependsOn hg hdep).2

/-- **A caller that starts ready jobs runs the graph in order**, for every graph that calls of
the building operations make, from jobs that are all pending: whatever moves it makes of the jobs
that have begun, and in whatever order. -/
theorem driven_in_order (options : DAG) (jobs : JobTable) (cs : List BuildCall) (t t' : JobTable)
    (moves : List (UUID × JobState)) :
    let g := (History.after DAGBuild.step (DAGBuild.new options jobs) cs).dag
    (∀ v ∈ g.jobs, (t.get v).state = .pending) → GuardedRun move g.StartsReady t moves t' →
      g.InOrderOf t' := by
  intro g pending run
  have hg : g.WellFormed := wellFormed_after options jobs cs
  have hdriven : g.Driven t' := run.invariant (driven_of_pending hg pending)
    (fun _ _ _ h starts moved => h.move hg starts moved)
  exact hdriven.inOrderOf hg

/-- A job and the one that depends on it, each run to its end. -/
theorem driven_in_order_two :
    let g := (History.after DAGBuild.step (DAGBuild.new { id := 7 } .fresh) twoJobs).dag
    ∃ t', (GuardedRun move g.StartsReady .fresh
        [(1, .scheduled), (1, .running), (1, .completed), (2, .scheduled)] t'
      ∧ g.getReadyJobs t' = []) ∧ g.InOrderOf t' := by
  intro g
  have hreplay : (GuardedRun.replay move (fun t m => decide (g.StartsReady t m)) .fresh
      [(1, .scheduled), (1, .running), (1, .completed), (2, .scheduled)]).any
      (fun t' => g.getReadyJobs t' = []) = true := by decide +kernel
  obtain ⟨t', hrun, hnone⟩ := GuardedRun.exists_of_replay (fun _ _ h => of_decide_eq_true h) hreplay
  refine ⟨t', ⟨hrun, of_decide_eq_true hnone⟩, ?_⟩
  exact driven_in_order { id := 7 } .fresh twoJobs .fresh t' _ (by decide +kernel) hrun

/-! ## A caller that completes the ready jobs in rounds -/

/-- **A round**: the ready jobs are completed, and the other jobs of the graph are as they were. -/
structure Round (g : DAG) (t t' : JobTable) : Prop where
  done : ∀ v ∈ g.getReadyJobs t, (t'.get v).state = .completed
  others : ∀ v ∈ g.jobs, v ∉ g.getReadyJobs t → (t'.get v).state = (t.get v).state

/-- **After `n` rounds**, the jobs in which a chain of `n` dependencies ends are pending, and the
others are completed. -/
structure AfterRounds (g : DAG) (n : ℕ) (t : JobTable) : Prop where
  pending : ∀ v, g.DependencyChain n v → (t.get v).state = .pending
  completed : ∀ v ∈ g.jobs, ¬ g.DependencyChain n v → (t.get v).state = .completed

namespace AfterRounds

variable {n : ℕ}

theorem completed_iff (h : g.AfterRounds n t) (hv : v ∈ g.jobs) :
    (t.get v).state = .completed ↔ ¬ g.DependencyChain n v := by
  refine ⟨fun hdone hchain => ?_, h.completed v hv⟩
  rw [h.pending v hchain] at hdone
  cases hdone

/-- **The ready jobs are those of the next depth.** -/
theorem mem_getReadyJobs_iff (h : g.AfterRounds n t) (hg : g.WellFormed) :
    v ∈ g.getReadyJobs t ↔ g.HasDepth v n := by
  rw [mem_getReadyJobs, hg.hasDepth_iff, ← hg.jobs, dependencyChain_succ, not_exists]
  constructor
  · rintro ⟨hv, hpending, hdeps⟩
    refine ⟨?_, fun u ⟨hdep, hchain⟩ => ?_⟩
    · by_contra hshort
      rw [h.completed v hv hshort] at hpending
      cases hpending
    · exact (h.completed_iff (mem_jobs_of_dependsOn hg hdep).1).mp (hdeps u hdep) hchain
  · rintro ⟨hchain, hlast⟩
    refine ⟨dependencyChain_zero.mp (hchain.mono hg.closed (Nat.zero_le n)),
      h.pending v hchain, fun u hdep => ?_⟩
    exact h.completed u (mem_jobs_of_dependsOn hg hdep).1 (fun hu => hlast u ⟨hdep, hu⟩)

theorem round (h : g.AfterRounds n t) (hg : g.WellFormed) {t' : JobTable} (r : g.Round t t') :
    g.AfterRounds (n + 1) t' := by
  have hready := fun v => h.mem_getReadyJobs_iff (v := v) hg
  refine ⟨fun v hchain => ?_, fun v hv hshort => ?_⟩
  · have hbefore : g.DependencyChain n v := hchain.pred hg.closed
    have hnot : v ∉ g.getReadyJobs t :=
      fun hmem => (hg.hasDepth_iff.mp ((hready v).mp hmem)).2 hchain
    rw [r.others v (dependencyChain_zero.mp (hbefore.mono hg.closed (Nat.zero_le n))) hnot]
    exact h.pending v hbefore
  · by_cases hchain : g.DependencyChain n v
    · exact r.done v ((hready v).mpr (hg.hasDepth_iff.mpr ⟨hchain, hshort⟩))
    · have hnot : v ∉ g.getReadyJobs t :=
        fun hmem => hchain (hg.hasDepth_iff.mp ((hready v).mp hmem)).1
      rw [r.others v hv hnot]
      exact h.completed v hv hchain

end AfterRounds

theorem afterRounds (hg : g.WellFormed) {rounds : ℕ → JobTable}
    (pending : ∀ v ∈ g.jobs, ((rounds 0).get v).state = .pending)
    (each : ∀ n, g.Round (rounds n) (rounds (n + 1))) (n : ℕ) : g.AfterRounds n (rounds n) := by
  induction n with
  | zero =>
    exact ⟨fun v hv => pending v (dependencyChain_zero.mp hv),
      fun v hv hnot => absurd (dependencyChain_zero.mpr hv) hnot⟩
  | succ n ih => exact ih.round hg (each n)

/-- The levels without the first ones are those of a greater depth. -/
theorem LevelsFrom.drop (hg : g.WellFormed) {m : ℕ} {levels : List (List UUID)}
    (h : g.LevelsFrom m levels) (n : ℕ) : g.LevelsFrom (m + n) (levels.drop n) := by
  induction n generalizing m levels with
  | zero => exact h
  | succ n ih =>
    cases levels with
    | nil => exact fun v hv => h v (hv.mono hg.closed (Nat.le_add_right m (n + 1)))
    | cons level levels =>
      rw [List.drop_succ_cons, ← Nat.add_assoc, Nat.add_right_comm]
      exact ih h.2.2.2

/-- **The first levels of a plan are what the rounds have completed.** -/
theorem AfterRounds.perm_completedJobs {n : ℕ} (h : g.AfterRounds n t) (hg : g.WellFormed)
    {levels : List (List UUID)} (plan : g.LevelsFrom 0 levels) :
    (g.completedJobs t).Perm (levels.take n).flatten := by
  have hsplit : (levels.take n).flatten ++ (levels.drop n).flatten = levels.flatten := by
    rw [← List.flatten_append, List.take_append_drop]
  have hnodup := plan.nodup_flatten hg
  rw [← hsplit] at hnodup
  have hlater := fun v => (plan.drop hg n).mem_flatten_iff (v := v) hg
  have hall := fun v => plan.mem_flatten_iff (v := v) hg
  simp only [Nat.zero_add] at hlater
  refine (List.perm_ext_iff_of_nodup (hg.nodup_jobs.filter _)
    (List.nodup_append.mp hnodup).1).mpr (fun v => ?_)
  rw [List.mem_filter, decide_eq_true_eq, ← dependencyChain_zero, ← hall, ← hsplit, List.mem_append]
  constructor
  · rintro ⟨hmem, hdone⟩
    refine hmem.resolve_right (fun hdrop => ?_)
    rw [h.pending v ((hlater v).mp hdrop)] at hdone
    cases hdone
  · intro hmem
    refine ⟨Or.inl hmem, h.completed v ?_ (fun hchain => ?_)⟩
    · rw [← dependencyChain_zero, ← hall, ← hsplit]
      exact List.mem_append_left _ hmem
    · exact (List.nodup_append.mp hnodup).2.2 v hmem v ((hlater v).mpr hchain) rfl

/-- **What a caller that works in rounds sees of a plan**: in each round the next level is ready,
and nothing after the last; the graph is complete when they are through, and no earlier; and its
progress is the share of the levels that are done. -/
structure FollowsPlan (g : DAG) (rounds : ℕ → JobTable) (levels : List (List UUID)) : Prop where
  ready : ∀ n level, levels[n]? = some level → (g.getReadyJobs (rounds n)).Perm level
  ended : ∀ n, levels.length ≤ n → g.getReadyJobs (rounds n) = []
  complete : ∀ n, g.isComplete (rounds n) = true ↔ levels.length ≤ n
  progress : ∀ n, g.progress (rounds n) * g.jobs.length = ((levels.take n).flatten.length : ℚ)

theorem followsPlan (hg : g.WellFormed) {rounds : ℕ → JobTable}
    (after : ∀ n, g.AfterRounds n (rounds n)) {levels : List (List UUID)}
    (plan : g.LevelsFrom 0 levels) : g.FollowsPlan rounds levels := by
  have hnone : ∀ n, levels.length ≤ n ↔ ∀ v, ¬ g.DependencyChain n v := by
    intro n
    have hdrop := plan.drop hg n
    rw [Nat.zero_add] at hdrop
    rw [← List.drop_eq_nil_iff]
    constructor
    · intro hnil
      rw [hnil] at hdrop
      exact hdrop
    · intro hno
      by_contra hne
      obtain ⟨level, hlevel⟩ := List.exists_mem_of_ne_nil _ hne
      obtain ⟨v, hv⟩ := List.exists_mem_of_ne_nil level (hdrop.ne_nil level hlevel)
      exact hno v ((hdrop.mem_flatten_iff hg).mp (List.mem_flatten.mpr ⟨level, hlevel, hv⟩))
  have hmem : ∀ n v, v ∈ g.getReadyJobs (rounds n) ↔ g.HasDepth v n :=
    fun n v => (after n).mem_getReadyJobs_iff hg
  refine ⟨fun n level hat => ?_, fun n hle => ?_, fun n => ?_, fun n => ?_⟩
  · have hnodup : level.Nodup :=
      (List.nodup_flatten.mp (plan.nodup_flatten hg)).1 level (List.mem_of_getElem? hat)
    refine (List.perm_ext_iff_of_nodup nodup_getReadyJobs hnodup).mpr (fun v => ?_)
    rw [hmem, plan.mem_iff hat, Nat.zero_add]
  · refine List.eq_nil_iff_forall_not_mem.mpr (fun v hv => ?_)
    exact (hnone n).mp hle v (hg.hasDepth_iff.mp ((hmem n v).mp hv)).1
  · rw [isComplete_iff, hnone]
    constructor
    · intro hall v hchain
      have hv : v ∈ g.jobs := dependencyChain_zero.mp (hchain.mono hg.closed (Nat.zero_le n))
      exact ((after n).completed_iff hv).mp (hall v hv) hchain
    · exact fun hno v hv => (after n).completed v hv (hno v)
  · rw [progress_mul_length, ((after n).perm_completedJobs hg plan).length_eq]

/-- A job runs to its end. -/
def finish (t : JobTable) (jobId : UUID) : JobTable :=
  t.modify jobId (fun j => { j with state := .completed })

/-- A caller that completes the ready jobs one after the other. -/
def runReady (g : DAG) (t : JobTable) : JobTable := (g.getReadyJobs t).foldl finish t

theorem state_foldl_finish (ks : List UUID) (t : JobTable) (v : UUID) :
    ((ks.foldl finish t).get v).state = if v ∈ ks then .completed else (t.get v).state := by
  induction ks generalizing t with
  | nil => simp
  | cons k ks ih =>
    rw [List.foldl_cons, ih]
    by_cases hv : v = k <;> simp [finish, hv]

theorem round_runReady (g : DAG) (t : JobTable) : g.Round t (g.runReady t) where
  done v hv := by rw [runReady, state_foldl_finish, if_pos hv]
  others v _ hv := by rw [runReady, state_foldl_finish, if_neg hv]

/-- **Rounds of ready jobs follow the execution plan**, for every graph that calls of the building
operations make, from jobs that are all pending, and whatever the orders of the plan's loops. Where
there is no plan, a round still gives the jobs of its depth, so that those which a cycle comes
before are given in no round. -/
theorem rounds_follow_plan (options : DAG) (jobs : JobTable) (cs : List BuildCall)
    (rounds : ℕ → JobTable) :
    let g := (History.after DAGBuild.step (DAGBuild.new options jobs) cs).dag
    (∀ v ∈ g.jobs, ((rounds 0).get v).state = .pending) →
      (∀ n, g.Round (rounds n) (rounds (n + 1))) →
        (∀ n v, v ∈ g.getReadyJobs (rounds n) ↔ g.HasDepth v n)
          ∧ ∀ orders sets levels, g.getExecutionPlan orders sets = .ok levels →
            g.FollowsPlan rounds levels := by
  intro g pending each
  have hg : g.WellFormed := wellFormed_after options jobs cs
  have hafter := afterRounds hg pending each
  refine ⟨fun n v => (hafter n).mem_getReadyJobs_iff hg, fun orders sets levels hok => ?_⟩
  have hplanned := planned_getExecutionPlan hg orders sets
  rw [hok] at hplanned
  cases hplanned with
  | levels from_ => exact followsPlan hg hafter from_

/-- A job and the one that depends on it are given in the first and the second round. -/
theorem rounds_follow_plan_two :
    let g := (History.after DAGBuild.step (DAGBuild.new { id := 7 } .fresh) twoJobs).dag
    let rounds := fun n => g.runReady^[n] .fresh
    g.FollowsPlan rounds [[1], [2]] ∧ g.getReadyJobs (rounds 1) = [2] := by
  intro g rounds
  have heach : ∀ n, g.Round (rounds n) (rounds (n + 1)) := by
    intro n
    show g.Round (g.runReady^[n] .fresh) (g.runReady^[n + 1] .fresh)
    rw [Function.iterate_succ_apply']
    exact g.round_runReady _
  have hfollows := (rounds_follow_plan { id := 7 } .fresh twoJobs rounds (by decide +kernel)
    heach).2 (.of .increasing g) .increasing [[1], [2]] (by decide +kernel)
  exact ⟨hfollows, by decide +kernel⟩

end DAG

end JobOrchestrator
