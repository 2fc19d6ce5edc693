import JobOrchestrator.Core.TopologicalSort

/-!
# The execution plan

`get_execution_plan` of `core/dag.py`: in each round the jobs whose dependencies are all gone make
a level, and are taken out of the remaining ones. What a job waits for is counted down with every
level.

After `i` rounds the remaining jobs are those in which a chain of `i` dependencies ends
(`Planning`), so that the level taken next is that of the jobs in which the longest chain has
length `i`. The rounds end with no job left where the chains are bounded, and with a level that
is empty where they are not.
-/

namespace JobOrchestrator

namespace DAG

/-- The loop over the dependents of a job of the level, which counts down those that remain. -/
def countDown (remaining : Finset UUID) : List UUID → (UUID → ℤ) → UUID → ℤ
  | [], degree => degree
  | d :: ds, degree =>
    countDown remaining ds
      (if d ∈ remaining then fun k => if k = d then degree k - 1 else degree k else degree)

/-- The loop over the remaining jobs: a level in each round. -/
def planLoop (g : DAG) (orders : g.LoopOrders) (sets : IterationOrder UUID) :
    ℕ → Finset UUID → (UUID → ℤ) → Except CyclicDependencyError (List (List UUID))
  | 0, _, _ => .ok []
  | rounds + 1, remaining, degree =>
    if remaining = ∅ then .ok []
    else
      let level := (sets.list remaining).filter (fun k => degree k = 0)
      let left := remaining \ level.toFinset
      if level = [] then
        .error (.init (some "Cycle detected while building execution plan") (some g.id) none)
      else
        match planLoop g orders sets rounds left
          (level.foldl (fun degree jobId => countDown left (orders.dependents jobId) degree)
            degree) with
        | .ok levels => .ok (level :: levels)
        | .error e => .error e

/-- **`get_execution_plan`**. Every level takes a job, so that there are no more rounds than there
are nodes. -/
def getExecutionPlan (g : DAG) (orders : g.LoopOrders) (sets : IterationOrder UUID) :
    Except CyclicDependencyError (List (List UUID)) :=
  if orders.nodes = [] then .ok []
  else planLoop g orders sets g.nodes.size orders.nodes.toFinset g.inDegree

/-! ## Chains of dependencies -/

/-- **A chain of `n` dependencies ends in the job.** -/
def DependencyChain (g : DAG) (n : ℕ) (v : UUID) : Prop :=
  ChainTo g.DependsOn {v | v ∈ g.jobs} n v

/-- **The longest chain of dependencies that ends in the job** has this length. -/
def HasDepth (g : DAG) (v : UUID) (n : ℕ) : Prop := HasHeight g.DependsOn {v | v ∈ g.jobs} v n

variable {g : DAG} {u v : UUID} {n : ℕ}

theorem dependencyChain_zero : g.DependencyChain 0 v ↔ v ∈ g.jobs :=
  chainTo_zero (S := {v | v ∈ g.jobs})

theorem dependencyChain_succ :
    g.DependencyChain (n + 1) v ↔ ∃ u, g.DependsOn v u ∧ g.DependencyChain n u :=
  chainTo_succ

namespace WellFormed

theorem closed (hg : g.WellFormed) : ∀ {u v}, g.DependsOn v u → v ∈ {v | v ∈ g.jobs} :=
  fun h => (mem_jobs_of_dependsOn hg h).2

theorem hasDepth_iff (hg : g.WellFormed) :
    g.HasDepth v n ↔ g.DependencyChain n v ∧ ¬ g.DependencyChain (n + 1) v :=
  hasHeight_iff hg.closed

/-- Chains that get longer and longer are those of a cycle. -/
theorem cyclic_of_stuck (hg : g.WellFormed) (chain : g.DependencyChain n v)
    (stuck : ∀ v, g.DependencyChain n v → g.DependencyChain (n + 1) v) : g.Cyclic := by
  rw [hg.cyclic_iff]
  intro acyclic
  have hjob : v ∈ g.jobs := dependencyChain_zero.mp (chain.mono hg.closed (Nat.zero_le n))
  have hnone : ¬ g.DependencyChain n v := by
    refine acyclic_induction hg acyclic (P := fun v => ¬ g.DependencyChain n v) ?_ hjob
    intro k _ ih hk
    obtain ⟨u, hdep, hu⟩ := dependencyChain_succ.mp (stuck k hk)
    exact ih u hdep hu
  exact hnone chain

/-- With a cycle there are chains of any length. -/
theorem exists_chain_of_cyclic (hg : g.WellFormed) (cyclic : g.Cyclic) (n : ℕ) :
    ∃ v, g.DependencyChain n v := by
  obtain ⟨u, hu⟩ := cyclic
  exact ⟨u, chainTo_of_onCycle hg.closed (hg.transGen_releases.mp hu) n⟩

end WellFormed

/-! ## One round -/

theorem countDown_eq (remaining : Finset UUID) {ds : List UUID} (nodup : ds.Nodup)
    (degree : UUID → ℤ) : countDown remaining ds degree
      = fun k => if k ∈ remaining ∧ k ∈ ds then degree k - 1 else degree k := by
  induction ds generalizing degree with
  | nil =>
    funext k
    simp [countDown]
  | cons d ds ih =>
    obtain ⟨hnew, hrest⟩ := List.nodup_cons.mp nodup
    rw [countDown, ih hrest]
    funext k
    by_cases hkd : k = d
    · subst hkd
      by_cases hmem : k ∈ remaining <;> simp [hmem, hnew]
    · by_cases hmem : d ∈ remaining <;> simp [hmem, hkd]

/-- **A whole level counts down** each remaining job by the jobs of the level it depends on. -/
theorem foldl_countDown (orders : g.LoopOrders) {left : Finset UUID} (level : List UUID)
    (degree : UUID → ℤ) (hv : v ∈ left) :
    level.foldl (fun degree jobId => countDown left (orders.dependents jobId) degree) degree v
      = degree v - (level.filter (fun jobId => v ∈ orders.dependents jobId)).length := by
  induction level generalizing degree with
  | nil => simp
  | cons jobId level ih =>
    rw [List.foldl_cons, ih, countDown_eq left (orders.nodup_dependents jobId)]
    by_cases hdep : v ∈ orders.dependents jobId
    · simp only [hv, hdep, and_self, if_true, List.filter_cons, decide_true, List.length_cons]
      push_cast
      omega
    · simp [hdep]

/-- **The invariant of the plan**: after `n` rounds the jobs remain in which a chain of `n`
dependencies ends, and each waits for the remaining ones of its dependencies. The plan takes away
level after level, so what is left after `n` rounds is described by chains in the whole graph,
which the rounds do not change. -/
structure Planning (g : DAG) (n : ℕ) (remaining : Finset UUID) (degree : UUID → ℤ) : Prop where
  remains : ∀ v, v ∈ remaining ↔ g.DependencyChain n v
  degree : ∀ v ∈ remaining, degree v = (g.dependenciesOf v ∩ remaining).card

theorem planning_start (hg : g.WellFormed) (orders : g.LoopOrders) :
    Planning g 0 orders.nodes.toFinset g.inDegree where
  remains v := by
    rw [List.mem_toFinset, (orders.perm_jobs hg).mem_iff]
    exact dependencyChain_zero.symm
  degree v _ := by
    have hsub : g.dependenciesOf v ⊆ orders.nodes.toFinset := by
      intro u hu
      rw [List.mem_toFinset, (orders.perm_jobs hg).mem_iff]
      exact (mem_jobs_of_dependsOn hg (mem_dependenciesOf.mp hu)).1
    rw [Finset.inter_eq_left.mpr hsub]
    rfl

variable {remaining : Finset UUID} {degree : UUID → ℤ}

/-- Of those that remain, the ones that wait for none are the ones with no longer chain. -/
theorem Planning.degree_eq_zero_iff (h : Planning g n remaining degree) (hv : v ∈ remaining) :
    degree v = 0 ↔ ¬ g.DependencyChain (n + 1) v := by
  have hempty : degree v = 0 ↔ ∀ u, g.DependsOn v u → u ∉ remaining := by
    rw [h.degree v hv]
    simp [Finset.eq_empty_iff_forall_notMem, mem_dependenciesOf]
  have hchain : g.DependencyChain (n + 1) v ↔ ∃ u, g.DependsOn v u ∧ u ∈ remaining := by
    simp only [h.remains]
    exact dependencyChain_succ
  rw [hempty, hchain, not_exists]
  exact forall_congr' (fun u => not_and.symm)

/-- **The level of a round.** The jobs without a remaining dependency are those in which no
longer chain of dependencies ends. -/
theorem Planning.mem_level_iff (hg : g.WellFormed) (h : Planning g n remaining degree)
    (sets : IterationOrder UUID) :
    v ∈ (sets.list remaining).filter (fun k => degree k = 0) ↔ g.HasDepth v n := by
  rw [List.mem_filter, decide_eq_true_eq, sets.mem_list, hg.hasDepth_iff, ← h.remains]
  exact and_congr_right h.degree_eq_zero_iff

/-- **A round** keeps the invariant. What is left is what the longer chains end in, and the
degrees have gone down by the jobs of the level. -/
theorem Planning.round (hg : g.WellFormed) (orders : g.LoopOrders) (sets : IterationOrder UUID)
    (h : Planning g n remaining degree) :
    let level := (sets.list remaining).filter (fun k => degree k = 0)
    Planning g (n + 1) (remaining \ level.toFinset)
      (level.foldl (fun degree jobId =>
        countDown (remaining \ level.toFinset) (orders.dependents jobId) degree) degree) := by
  intro level
  have hlevel : ∀ {v}, v ∈ level ↔ g.HasDepth v n := h.mem_level_iff hg sets
  refine ⟨fun v => ?_, fun v hv => ?_⟩
  · rw [Finset.mem_sdiff, List.mem_toFinset, hlevel, hg.hasDepth_iff, h.remains]
    constructor
    · rintro ⟨hchain, hlong⟩
      by_contra hshort
      exact hlong ⟨hchain, hshort⟩
    · intro hchain
      exact ⟨hchain.pred hg.closed, fun hdepth => hdepth.2 hchain⟩
  · have hremains : v ∈ remaining := (Finset.mem_sdiff.mp hv).1
    have hsub : level.toFinset ⊆ remaining := by
      intro u hu
      exact sets.mem_list.mp (List.mem_filter.mp (List.mem_toFinset.mp hu)).1
    -- what the job waits for is split into the level and what is left
    have hcount : (level.filter (fun jobId => v ∈ orders.dependents jobId)).length
        = (g.dependenciesOf v ∩ level.toFinset).card := by
      rw [← List.toFinset_card_of_nodup (((sets.nodup_list remaining).filter _).filter _)]
      congr 1
      ext u
      simp only [List.mem_toFinset, List.mem_filter, decide_eq_true_eq, Finset.mem_inter,
        mem_dependenciesOf, orders.mem_dependents, hg.mirrored, and_comm, level]
    have hsplit : (g.dependenciesOf v ∩ remaining).card
        = (g.dependenciesOf v ∩ level.toFinset).card
          + (g.dependenciesOf v ∩ (remaining \ level.toFinset)).card := by
      have hinter : g.dependenciesOf v ∩ remaining ∩ level.toFinset
          = g.dependenciesOf v ∩ level.toFinset := by
        rw [Finset.inter_assoc, Finset.inter_eq_right.mpr hsub]
      rw [← Finset.card_inter_add_card_sdiff (g.dependenciesOf v ∩ remaining) level.toFinset,
        hinter, Finset.inter_sdiff_assoc]
    rw [foldl_countDown orders level degree hv, h.degree v hremains, hcount, hsplit]
    push_cast
    omega

/-! ## All the rounds -/

/-- **The levels from a depth on**: each holds the jobs of its depth, and after the last of them
no chain is long enough. -/
def LevelsFrom (g : DAG) : ℕ → List (List UUID) → Prop
  | n, [] => ∀ v, ¬ g.DependencyChain n v
  | n, level :: levels =>
    level ≠ [] ∧ level.Nodup ∧ (∀ v, v ∈ level ↔ g.HasDepth v n) ∧ LevelsFrom g (n + 1) levels

/-- **What comes of the rounds**: the levels, or a round in which every chain goes on. -/
inductive Planned (g : DAG) (n : ℕ) : Except CyclicDependencyError (List (List UUID)) → Prop
  | levels {levels : List (List UUID)} (from_ : LevelsFrom g n levels) : Planned g n (.ok levels)
  | stuck {e : CyclicDependencyError} {m : ℕ} {v : UUID} (chain : g.DependencyChain m v)
      (longer : ∀ v, g.DependencyChain m v → g.DependencyChain (m + 1) v) : Planned g n (.error e)

theorem planLoop_spec (hg : g.WellFormed) (orders : g.LoopOrders) (sets : IterationOrder UUID)
    {rounds : ℕ} (h : Planning g n remaining degree) (enough : remaining.card ≤ rounds) :
    Planned g n (planLoop g orders sets rounds remaining degree) := by
  induction rounds generalizing n remaining degree with
  | zero =>
    obtain rfl := Finset.card_eq_zero.mp (Nat.le_zero.mp enough)
    exact .levels (fun v hv => Finset.notMem_empty v ((h.remains v).mpr hv))
  | succ rounds ih =>
    rw [planLoop]
    by_cases hempty : remaining = ∅
    · subst hempty
      exact .levels (fun v hv => Finset.notMem_empty v ((h.remains v).mpr hv))
    rw [if_neg hempty]
    have hlevel := fun v => h.mem_level_iff (v := v) hg sets
    have hround := h.round hg orders sets
    have hnodup : ((sets.list remaining).filter (fun k => degree k = 0)).Nodup :=
      (sets.nodup_list remaining).filter _
    generalize (sets.list remaining).filter (fun k => degree k = 0) = level at *
    by_cases hnone : level = []
    · -- nothing can be taken: every chain goes on
      obtain ⟨v, hv⟩ := Finset.nonempty_iff_ne_empty.mpr hempty
      simp only [hnone, if_true]
      refine .stuck ((h.remains v).mp hv) (fun w hw => ?_)
      by_contra hshort
      have hmem := (hlevel w).mpr (hg.hasDepth_iff.mpr ⟨hw, hshort⟩)
      rw [hnone] at hmem
      exact List.not_mem_nil hmem
    · obtain ⟨v, hv⟩ := List.exists_mem_of_ne_nil level hnone
      have hremains : v ∈ remaining := (h.remains v).mpr ((hlevel v).mp hv).1
      have hfewer : (remaining \ level.toFinset).card < remaining.card := by
        refine Finset.card_lt_card (Finset.ssubset_iff_of_subset Finset.sdiff_subset |>.mpr ?_)
        exact ⟨v, hremains, by simp [hv]⟩
      have hplanned := ih hround (by omega)
      simp only [hnone, if_false]
      generalize planLoop g orders sets rounds (remaining \ level.toFinset) _ = x at hplanned ⊢
      cases hplanned with
      | levels from_ => exact .levels ⟨hnone, hnodup, hlevel, from_⟩
      | stuck chain longer => exact .stuck chain longer

/-- **The execution plan**, by its levels, or the error. -/
theorem planned_getExecutionPlan (hg : g.WellFormed) (orders : g.LoopOrders)
    (sets : IterationOrder UUID) : Planned g 0 (g.getExecutionPlan orders sets) := by
  have hstart := planning_start hg orders
  unfold getExecutionPlan
  split
  · rename_i hnone
    refine .levels (fun v hv => ?_)
    have hmem := (hstart.remains v).mpr hv
    rw [hnone] at hmem
    exact Finset.notMem_empty v hmem
  · refine planLoop_spec hg orders sets hstart ((List.toFinset_card_le _).trans ?_)
    rw [(orders.perm_jobs hg).length_eq, hg.length_jobs]

/-- **It raises just where there is a cycle.** A round with an empty level leaves only jobs that
depend on one another without end. -/
theorem getExecutionPlan_error_iff (hg : g.WellFormed) (orders : g.LoopOrders)
    (sets : IterationOrder UUID) :
    (∃ e, g.getExecutionPlan orders sets = .error e) ↔ g.Cyclic := by
  have hplanned := planned_getExecutionPlan hg orders sets
  generalize g.getExecutionPlan orders sets = x at hplanned ⊢
  cases hplanned with
  | @levels levels from_ =>
    refine iff_of_false (by simp) (fun cyclic => ?_)
    -- the chains of a cycle go on after every level
    have hall : ∀ n levels, LevelsFrom g n levels → ∃ m, ∀ v, ¬ g.DependencyChain m v := by
      intro n levels
      induction levels generalizing n with
      | nil => exact fun h => ⟨n, h⟩
      | cons level levels ih => exact fun h => ih (n + 1) h.2.2.2
    obtain ⟨m, hm⟩ := hall 0 levels from_
    obtain ⟨v, hv⟩ := hg.exists_chain_of_cyclic cyclic m
    exact hm v hv
  | @stuck e m v chain longer => exact iff_of_true ⟨e, rfl⟩ (hg.cyclic_of_stuck chain longer)

/-! ## What the levels are -/

namespace LevelsFrom

variable {levels : List (List UUID)}

/-- **A level holds the jobs of its depth.** So the levels are the same whatever the order of the
loops was. -/
theorem mem_iff (h : LevelsFrom g n levels) {i : ℕ} {level : List UUID}
    (at_ : levels[i]? = some level) : v ∈ level ↔ g.HasDepth v (n + i) := by
  induction levels generalizing n i with
  | nil => cases at_
  | cons first levels ih =>
    obtain ⟨-, -, hfirst, hrest⟩ := h
    cases i with
    | zero =>
      rw [List.getElem?_cons_zero, Option.some.injEq] at at_
      exact at_ ▸ hfirst v
    | succ i =>
      rw [List.getElem?_cons_succ] at at_
      rw [ih hrest at_, Nat.add_right_comm, Nat.add_assoc]

theorem ne_nil (h : LevelsFrom g n levels) : ∀ level ∈ levels, level ≠ [] := by
  induction levels generalizing n with
  | nil => exact fun level hmem => absurd hmem List.not_mem_nil
  | cons first levels ih =>
    intro level hmem
    rcases List.mem_cons.mp hmem with rfl | hrest
    · exact h.1
    · exact ih h.2.2.2 level hrest

/-- **The levels hold the jobs in which a chain of this length ends.** -/
theorem mem_flatten_iff (hg : g.WellFormed) (h : LevelsFrom g n levels) :
    v ∈ levels.flatten ↔ g.DependencyChain n v := by
  induction levels generalizing n with
  | nil => exact iff_of_false List.not_mem_nil (h v)
  | cons first levels ih =>
    obtain ⟨-, -, hfirst, hrest⟩ := h
    rw [List.flatten_cons, List.mem_append, hfirst, ih hrest, hg.hasDepth_iff]
    constructor
    · rintro (hdepth | hlong)
      · exact hdepth.1
      · exact hlong.pred hg.closed
    · intro hchain
      by_cases hlong : g.DependencyChain (n + 1) v
      · exact Or.inr hlong
      · exact Or.inl ⟨hchain, hlong⟩

/-- No job is in the levels twice: a job has one depth. -/
theorem nodup_flatten (hg : g.WellFormed) (h : LevelsFrom g n levels) : levels.flatten.Nodup := by
  induction levels generalizing n with
  | nil => exact List.nodup_nil
  | cons first levels ih =>
    obtain ⟨-, hnodup, hfirst, hrest⟩ := h
    rw [List.flatten_cons]
    refine List.nodup_append.mpr ⟨hnodup, ih hrest, ?_⟩
    rintro v hv _ hlater rfl
    exact (hg.hasDepth_iff.mp ((hfirst v).mp hv)).2 ((mem_flatten_iff hg hrest).mp hlater)

/-- **There are no other levels.** Two plans of one graph have the same jobs in each level,
though perhaps in another order. -/
theorem forall₂_perm (h : LevelsFrom g n levels) {levels' : List (List UUID)}
    (h' : LevelsFrom g n levels') : List.Forall₂ List.Perm levels levels' := by
  induction levels generalizing n levels' with
  | nil =>
    cases levels' with
    | nil => exact List.Forall₂.nil
    | cons first' levels' =>
      obtain ⟨v, hv⟩ := List.exists_mem_of_ne_nil first' h'.1
      exact absurd ((h'.2.2.1 v).mp hv).1 (h v)
  | cons first levels ih =>
    cases levels' with
    | nil =>
      obtain ⟨v, hv⟩ := List.exists_mem_of_ne_nil first h.1
      exact absurd ((h.2.2.1 v).mp hv).1 (h' v)
    | cons first' levels' =>
      refine List.Forall₂.cons ?_ (ih h.2.2.2 h'.2.2.2)
      refine (List.perm_ext_iff_of_nodup h.2.1 h'.2.1).mpr (fun v => ?_)
      rw [h.2.2.1, h'.2.2.1]

end LevelsFrom

/-- **An execution plan**: its levels are not empty and hold every job once; the index of a job's
level is the length of the longest chain of dependencies that ends in the job; every dependency
of a job is in an earlier level; and no numbering in which the dependencies come first has fewer
numbers than there are levels. The last clause compares the plan with every numbering of the
jobs, not with other plans only. -/
structure IsPlan (g : DAG) (levels : List (List UUID)) : Prop where
  ne_nil : ∀ level ∈ levels, level ≠ []
  perm : levels.flatten.Perm g.jobs
  nodup : levels.flatten.Nodup
  depth : ∀ (i : ℕ) level, levels[i]? = some level → ∀ v ∈ level, g.HasDepth v i
  earlier : ∀ (i : ℕ) level, levels[i]? = some level → ∀ v ∈ level, ∀ u, g.DependsOn v u →
    ∃ j < i, ∃ level', levels[j]? = some level' ∧ u ∈ level'
  minimal : ∀ f : UUID → ℕ, (∀ u v, g.DependsOn v u → f u < f v) →
    ∀ m, (∀ v ∈ g.jobs, f v < m) → levels.length ≤ m

theorem LevelsFrom.isPlan (hg : g.WellFormed) {levels : List (List UUID)}
    (h : LevelsFrom g 0 levels) : g.IsPlan levels := by
  have hmem : ∀ v, v ∈ levels.flatten ↔ v ∈ g.jobs :=
    fun v => (h.mem_flatten_iff hg).trans dependencyChain_zero
  have hdepth : ∀ (i : ℕ) level, levels[i]? = some level → ∀ v ∈ level, g.HasDepth v i := by
    intro i level hat v hv
    simpa using (h.mem_iff hat).mp hv
  refine ⟨h.ne_nil, ?_, h.nodup_flatten hg, hdepth, fun i level hat v hv u hdep => ?_,
    fun f lowers m below => ?_⟩
  · exact (List.perm_ext_iff_of_nodup (h.nodup_flatten hg) hg.nodup_jobs).mpr hmem
  · obtain ⟨level', hlevel', hu⟩ := List.mem_flatten.mp
      ((hmem u).mpr (mem_jobs_of_dependsOn hg hdep).1)
    obtain ⟨j, hj⟩ := List.mem_iff_getElem?.mp hlevel'
    refine ⟨j, ?_, level', hj, hu⟩
    -- the chain that ends in the dependency goes on to the job
    exact (hdepth i level hat v hv).2 (j + 1)
      (dependencyChain_succ.mpr ⟨u, hdep, (hdepth j level' hj u hu).1⟩)
  · rcases Nat.eq_zero_or_pos levels.length with hzero | hpos
    · omega
    · obtain ⟨level, hlast⟩ : ∃ level, levels[levels.length - 1]? = some level :=
        ⟨_, List.getElem?_eq_getElem (by omega)⟩
      obtain ⟨v, hv⟩ := List.exists_mem_of_ne_nil level
        (h.ne_nil level (List.mem_of_getElem? hlast))
      have hchain := (hdepth _ level hlast v hv).1
      have hle : levels.length - 1 ≤ f v := hchain.le_of_lt (lowers _ _)
      have hjob : v ∈ g.jobs :=
        (hmem v).mp (List.mem_flatten.mpr ⟨level, List.mem_of_getElem? hlast, hv⟩)
      have hlt := below v hjob
      omega

/-! ## The theorem -/

/-- **The execution plan is the one by depth**, for every graph without a cycle that calls of the
building operations make: it is returned, and up to the order within each level it is the same
whatever the orders of the loops. -/
theorem getExecutionPlan_correct (options : DAG) (jobs : JobTable) (cs : List BuildCall)
    (acyclic : ¬ (History.after DAGBuild.step (DAGBuild.new options jobs) cs).dag.Cyclic)
    (orders : (History.after DAGBuild.step (DAGBuild.new options jobs) cs).dag.LoopOrders)
    (sets : IterationOrder UUID) :
    let g := (History.after DAGBuild.step (DAGBuild.new options jobs) cs).dag
    ∃ levels, g.getExecutionPlan orders sets = .ok levels ∧ g.IsPlan levels
      ∧ ∀ orders' sets', ∃ levels', g.getExecutionPlan orders' sets' = .ok levels'
        ∧ List.Forall₂ List.Perm levels levels' := by
  intro g
  have hg : g.WellFormed := wellFormed_after options jobs cs
  have hlevels : ∀ orders sets, ∃ levels, g.getExecutionPlan orders sets = .ok levels
      ∧ LevelsFrom g 0 levels := by
    intro orders sets
    have hplanned := planned_getExecutionPlan hg orders sets
    generalize g.getExecutionPlan orders sets = x at hplanned ⊢
    cases hplanned with
    | @levels levels from_ => exact ⟨levels, rfl, from_⟩
    | stuck chain longer => exact absurd (hg.cyclic_of_stuck chain longer) acyclic
  obtain ⟨levels, hok, hfrom⟩ := hlevels orders sets
  refine ⟨levels, hok, hfrom.isPlan hg, fun orders' sets' => ?_⟩
  obtain ⟨levels', hok', hfrom'⟩ := hlevels orders' sets'
  exact ⟨levels', hok', hfrom.forall₂_perm hfrom'⟩

/-- The calls that make a graph of two jobs, the second of which depends on the first. -/
def twoJobs : List BuildCall := [.addNode { id := 1 }, .addJob { id := 2 } [1]]

theorem not_cyclic_twoJobs :
    ¬ (History.after DAGBuild.step (DAGBuild.new { id := 7 } .fresh) twoJobs).dag.Cyclic := by
  rw [(wellFormed_after _ _ twoJobs).not_cyclic_iff]
  refine acyclic_of_lt (fun {u v} hdep => ?_)
  obtain ⟨n, hn, hu⟩ := hdep
  have hall : ∀ p ∈ (History.after DAGBuild.step
      (DAGBuild.new { id := 7 } .fresh) twoJobs).dag.nodes.entries,
      ∀ u ∈ p.2.dependencies, u < p.1 := by decide +kernel
  exact hall (v, n) (OrderedDict.get?_eq_some_iff.mp hn) u hu

/-- Its plan has two levels. -/
theorem getExecutionPlan_correct_two :
    let g := (History.after DAGBuild.step (DAGBuild.new { id := 7 } .fresh) twoJobs).dag
    (∃ levels, g.getExecutionPlan (.of .increasing g) .increasing = .ok levels ∧ g.IsPlan levels)
      ∧ g.getExecutionPlan (.of .increasing g) .increasing = .ok [[1], [2]] := by
  intro g
  obtain ⟨levels, hok, hplan, -⟩ := getExecutionPlan_correct { id := 7 } .fresh twoJobs
    not_cyclic_twoJobs (.of .increasing g) .increasing
  exact ⟨⟨levels, hok, hplan⟩, by decide +kernel⟩

end DAG

end JobOrchestrator
