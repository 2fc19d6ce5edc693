import JobOrchestrator.Workers.WorkerPool

/-!
# How many workers a pool has

In a running pool there are at least `min_workers` workers, apart from those that a
health check has deleted and not yet replaced: every other operation that deletes a
worker first looks, under the lock, whether there are more than that. This needs
no assumption.

That there are at most `max_workers` does. `scale_up` looks, under the lock, before it
spawns a worker. `start` and `_restart_worker` do not look: the one spawns
`min_workers` workers beside those that a stopped pool keeps in its table, the
other spawns one whatever came between its section and its spawn. So the bound
holds in the runs in which these two find room: `PoolWorld.pool_bounds`.
-/

namespace JobOrchestrator

namespace WorkerPool

variable {p p' p'' : WorkerPool}

/-! ## What the sections do to the size -/

/-- **An operation that only deletes**, and nothing that the pool is to keep. -/
structure Shrinks (p p' : WorkerPool) : Prop where
  config : p'.config = p.config
  running : p'.running = p.running
  le : p'.workers.length ≤ p.workers.length
  keeps : p'.workers.length = p.workers.length ∨ p.config.minWorkers ≤ p'.workers.length

/-- **An operation that only spawns**, and nothing that the pool has no room for. `scale_up` is
one. -/
structure Grows (p p' : WorkerPool) : Prop where
  config : p'.config = p.config
  running : p'.running = p.running
  le : p.workers.length ≤ p'.workers.length
  room : p'.workers.length = p.workers.length ∨ p'.workers.length ≤ p.config.maxWorkers

theorem Shrinks.refl (p : WorkerPool) : Shrinks p p := ⟨rfl, rfl, le_rfl, Or.inl rfl⟩

theorem Grows.refl (p : WorkerPool) : Grows p p := ⟨rfl, rfl, le_rfl, Or.inl rfl⟩

theorem Shrinks.trans (h : Shrinks p p') (h' : Shrinks p' p'') : Shrinks p p'' where
  config := h'.config.trans h.config
  running := h'.running.trans h.running
  le := h'.le.trans h.le
  keeps := by
    have hkeeps := h'.keeps
    rw [h.config] at hkeeps
    rcases hkeeps with heq | hmin
    · rw [heq]
      exact h.keeps
    · exact Or.inr hmin

/-- It leaves as many as there were, or enough. -/
theorem Shrinks.enough (h : Shrinks p p') :
    p.workers.length ≤ p'.workers.length ∨ p.config.minWorkers ≤ p'.workers.length :=
  h.keeps.imp_left (fun heq => heq.ge)

theorem Grows.trans (h : Grows p p') (h' : Grows p' p'') : Grows p p'' where
  config := h'.config.trans h.config
  running := h'.running.trans h.running
  le := h.le.trans h'.le
  room := by
    have hroom := h'.room
    rw [h.config] at hroom
    rcases hroom with heq | hmax
    · rw [heq]
      exact h.room
    · exact Or.inr hmax

theorem length_insertWorker (p : WorkerPool) :
    p.insertWorker.workers.length = p.workers.length + 1 :=
  List.length_append

theorem length_spawnWorker (now : Time) (p : WorkerPool) :
    (p.spawnWorker now).workers.length = p.workers.length + 1 :=
  length_insertWorker p

/-- A removal deletes at most one worker. None, if the id is not in the table. -/
theorem length_removeWorker (id : WorkerId) (p : WorkerPool) :
    (p.removeWorker id).workers.length ≤ p.workers.length
      ∧ p.workers.length ≤ (p.removeWorker id).workers.length + 1 := by
  show (p.workers.erase id).length ≤ _ ∧ _ ≤ (p.workers.erase id).length + 1
  rw [List.length_erase]
  split <;> omega

/-- A worker that is removed where there are more than `min_workers` is not missed. -/
theorem shrinks_removeWorker (id : WorkerId) (more : p.config.minWorkers < p.workers.length) :
    Shrinks p (p.removeWorker id) := by
  obtain ⟨hle, hone⟩ := length_removeWorker id p
  exact ⟨rfl, rfl, hle, Or.inr (by omega)⟩

theorem shrinks_removeAboveMin (id : WorkerId) (p : WorkerPool) :
    Shrinks p (p.removeAboveMin id) := by
  unfold removeAboveMin
  split
  · rename_i hmore
    exact shrinks_removeWorker id hmore
  · exact .refl p

theorem shrinks_scaleDownLoop (ids : List WorkerId) (p : WorkerPool) :
    Shrinks p (p.scaleDownLoop ids) := by
  induction ids generalizing p with
  | nil => exact .refl p
  | cons id ids ih =>
    rw [scaleDownLoop]
    split
    · exact .refl p
    · rename_i hmore
      exact (shrinks_removeWorker id (not_le.mp hmore)).trans (ih _)

/-- **`scale_down`** never goes below `min_workers`. It counts what is left before each removal.
-/
theorem shrinks_scaleDown (count : ℤ) (input : PoolInput) (p : WorkerPool) :
    Shrinks p (p.scaleDown count input) :=
  shrinks_scaleDownLoop _ p

theorem grows_scaleUpLoop (clock : ℕ → Time) (count k : ℕ) (p : WorkerPool) :
    Grows p (p.scaleUpLoop clock count k) := by
  induction count generalizing k p with
  | zero => exact .refl p
  | succ count ih =>
    rw [scaleUpLoop]
    split
    · exact .refl p
    · rename_i hroom
      have hlen := length_spawnWorker (clock k) p
      have hspawned : Grows p (p.spawnWorker (clock k)) :=
        ⟨rfl, rfl, by omega, Or.inr (by omega)⟩
      exact hspawned.trans (ih (k + 1) _)

/-- **`scale_up`** never goes above `max_workers`. It counts what is there before each spawn. -/
theorem grows_scaleUp (count : ℤ) (input : PoolInput) (p : WorkerPool) :
    Grows p (p.scaleUp count input) :=
  grows_scaleUpLoop input.clock count.toNat 0 p

theorem spawnWorkers_spec (clock : ℕ → Time) (count k : ℕ) (p : WorkerPool) :
    (p.spawnWorkers clock count k).workers.length = p.workers.length + count
      ∧ (p.spawnWorkers clock count k).config = p.config
      ∧ (p.spawnWorkers clock count k).running = p.running := by
  induction count generalizing k p with
  | zero => exact ⟨rfl, rfl, rfl⟩
  | succ count ih =>
    obtain ⟨hlen, hconfig, hrunning⟩ := ih (k + 1) (p.spawnWorker (clock k))
    rw [length_spawnWorker] at hlen
    rw [spawnWorkers, hlen, hconfig, hrunning]
    exact ⟨by omega, rfl, rfl⟩

/-- **`start`** of a pool that is not running adds `min_workers` workers to the table. -/
theorem start_spec (input : PoolInput) (stopped : p.running = false) :
    (p.start input).workers.length = p.workers.length + p.config.minWorkers
      ∧ (p.start input).config = p.config ∧ (p.start input).running = true := by
  unfold start
  rw [stopped, if_neg Bool.false_ne_true]
  exact spawnWorkers_spec input.clock p.config.minWorkers 0 { p with running := true }

theorem start_of_running (input : PoolInput) (running : p.running = true) : p.start input = p :=
  if_pos running

/-- The loop of a health check touches the idle times only. -/
theorem examine_frame (now : Time) (view : WorkerId → WorkerView)
    (x : HealthFindings × WorkerPool) (id : WorkerId) :
    (examine now view x id).2.config = x.2.config
      ∧ (examine now view x id).2.running = x.2.running
      ∧ (examine now view x id).2.workers = x.2.workers := by
  by_cases hdead : (view id).isAlive = false ∧ (view id).state ≠ .stopped
  · rw [examine, if_pos hdead]
    exact ⟨rfl, rfl, rfl⟩
  · rw [examine, if_neg hdead]
    exact ⟨rfl, rfl, rfl⟩

/-- **The loop of a health check**: what holds before it and is kept by every round holds after
it. -/
theorem healthSection_rule {input : PoolInput} {P : HealthFindings × WorkerPool → Prop}
    (start : P ({}, p)) (kept : ∀ x id, P x → P (examine (input.clock 0) input.view x id)) :
    P (p.healthSection input) :=
  List.foldlRecOn p.workers (examine (input.clock 0) input.view) start
    (fun x hx id _ => kept x id hx)

/-- The first section touches no more than they do. -/
theorem healthSection_frame (input : PoolInput) (p : WorkerPool) :
    (p.healthSection input).2.config = p.config
      ∧ (p.healthSection input).2.running = p.running
      ∧ (p.healthSection input).2.workers = p.workers := by
  refine healthSection_rule (P := fun x => x.2.config = p.config ∧ x.2.running = p.running
    ∧ x.2.workers = p.workers) ⟨rfl, rfl, rfl⟩ ?_
  rintro x id ⟨hconfig, hrunning, hworkers⟩
  obtain ⟨hconfig', hrunning', hworkers'⟩ := examine_frame (input.clock 0) input.view x id
  exact ⟨hconfig'.trans hconfig, hrunning'.trans hrunning, hworkers'.trans hworkers⟩

/-- A worker is to be spawned in the place of one that may have been deleted. -/
def PoolOperation.spawns : PoolOperation → Bool
  | .spawning _ => true
  | _ => false

/-- **What a step of an operation does to the size**: it deletes no worker that is not
spawned again, unless `min_workers` are left; and it spawns none beyond `max_workers`,
unless it is the spawn of a restart. -/
theorem proceed_spec (input : PoolInput) (p : WorkerPool) (operation : PoolOperation) :
    (p.proceed input operation).2.config = p.config
      ∧ (p.proceed input operation).2.running = p.running
      ∧ (p.workers.length + operation.spawns.toNat
            ≤ (p.proceed input operation).2.workers.length
              + (p.proceed input operation).1.toList.countP PoolOperation.spawns
          ∨ p.config.minWorkers ≤ (p.proceed input operation).2.workers.length)
      ∧ ((p.proceed input operation).2.workers.length ≤ p.workers.length
          ∨ (p.proceed input operation).2.workers.length ≤ p.config.maxWorkers
          ∨ operation.spawns = true
            ∧ (p.proceed input operation).2.workers.length = p.workers.length + 1) := by
  cases operation with
  | stopping => exact ⟨rfl, rfl, Or.inl le_rfl, Or.inl le_rfl⟩
  | scalingUp count =>
    have hgrows := grows_scaleUp count input p
    refine ⟨hgrows.config, hgrows.running, Or.inl hgrows.le, ?_⟩
    rcases hgrows.room with heq | hmax
    · exact Or.inl heq.le
    · exact Or.inr (Or.inl hmax)
  | scalingDown count =>
    have hshrinks := shrinks_scaleDown count input p
    exact ⟨hshrinks.config, hshrinks.running, hshrinks.enough, Or.inl hshrinks.le⟩
  | checking findings =>
    obtain ⟨toRestart, toRemove⟩ := findings
    cases toRestart with
    | cons id toRestart =>
      -- the worker deleted here is owed from now on
      obtain ⟨hle, hone⟩ := length_removeWorker id p
      exact ⟨rfl, rfl, Or.inl hone, Or.inl hle⟩
    | nil =>
      cases toRemove with
      | nil => exact ⟨rfl, rfl, Or.inl le_rfl, Or.inl le_rfl⟩
      | cons id toRemove =>
        have hshrinks := shrinks_removeAboveMin id p
        exact ⟨hshrinks.config, hshrinks.running, hshrinks.enough, Or.inl hshrinks.le⟩
  | spawning findings =>
    have hlen := length_insertWorker p
    exact ⟨rfl, rfl, Or.inl hlen.ge, Or.inr (Or.inr ⟨rfl, hlen⟩)⟩
  | tracking id findings => exact ⟨rfl, rfl, Or.inl le_rfl, Or.inl le_rfl⟩

end WorkerPool

namespace PoolWorld

open WorkerPool

variable {w w' : PoolWorld}

/-- The workers that a health check has yet to spawn. -/
def owed (w : PoolWorld) : ℕ := w.operations.countP PoolOperation.spawns

/-- A new operation owes no worker. -/
theorem owed_beginning {operation : Option PoolOperation} {pool : WorkerPool}
    (h : ∀ op ∈ operation, op.spawns = false) : (w.beginning operation pool).owed = w.owed := by
  unfold owed beginning
  rw [List.countP_append]
  cases operation with
  | none => rfl
  | some op => simp [h op rfl]

/-- What is owed when an operation goes on: its own debt is replaced by that of what it becomes.
-/
theorem owed_proceed {index : ℕ} {operation : PoolOperation} (next : Option PoolOperation)
    (pool : WorkerPool) (has : w.operations[index]? = some operation) :
    (⟨pool, w.operations.take index ++ next.toList ++ w.operations.drop (index + 1)⟩ :
        PoolWorld).owed + operation.spawns.toNat
      = w.owed + next.toList.countP PoolOperation.spawns := by
  obtain ⟨hlt, hget⟩ := List.getElem?_eq_some_iff.mp has
  have hsplit : w.operations
      = w.operations.take index ++ operation :: w.operations.drop (index + 1) := by
    rw [← hget, ← List.drop_eq_getElem_cons hlt, List.take_append_drop]
  have howed : w.owed = (w.operations.take index).countP PoolOperation.spawns
      + ((w.operations.drop (index + 1)).countP PoolOperation.spawns
        + operation.spawns.toNat) := by
    unfold owed
    conv_lhs => rw [hsplit, List.countP_append, List.countP_cons]
    cases operation.spawns <;> rfl
  rw [howed]
  unfold owed
  rw [List.countP_append, List.countP_append]
  omega

/-! ## The lower bound -/

/-- **A running pool has its minimum**, with the workers it is owed. A restart deletes a worker
before it spawns the new one, with the lock given back in between; what it owes is counted in. -/
structure Staffed (config : PoolConfig) (w : PoolWorld) : Prop where
  configured : w.pool.config = config
  staffed : w.pool.running = true → config.minWorkers ≤ w.pool.workers.length + w.owed

variable {config : PoolConfig}

theorem staffed_init (config : PoolConfig) : (init config).Staffed config :=
  ⟨rfl, fun h => absurd h Bool.false_ne_true⟩

/-- An operation that only spawns leaves the pool its minimum. -/
theorem Staffed.grows (h : w.Staffed config) {pool : WorkerPool} (grows : Grows w.pool pool) :
    (w.beginning none pool).Staffed config where
  configured := grows.config.trans h.configured
  staffed hrunning := by
    have hmin := h.staffed (grows.running.symm.trans hrunning)
    have hle := grows.le
    rw [owed_beginning (fun op hop => by cases hop)]
    show config.minWorkers ≤ pool.workers.length + w.owed
    omega

/-- And so does one that stops deleting there. -/
theorem Staffed.shrinks (h : w.Staffed config) {pool : WorkerPool}
    (shrinks : Shrinks w.pool pool) : (w.beginning none pool).Staffed config where
  configured := shrinks.config.trans h.configured
  staffed hrunning := by
    have hmin := h.staffed (shrinks.running.symm.trans hrunning)
    have hkeeps := shrinks.keeps
    rw [h.configured] at hkeeps
    rw [owed_beginning (fun op hop => by cases hop)]
    show config.minWorkers ≤ pool.workers.length + w.owed
    omega

/-- An operation that begins without touching the table owes nothing yet. -/
theorem Staffed.begins (h : w.Staffed config) {operation : Option PoolOperation}
    {pool : WorkerPool} (unowed : ∀ op ∈ operation, op.spawns = false)
    (same : pool.config = w.pool.config) (workers : pool.workers = w.pool.workers)
    (running : pool.running = true → w.pool.running = true) :
    (w.beginning operation pool).Staffed config where
  configured := same.trans h.configured
  staffed hrunning := by
    have hmin := h.staffed (running hrunning)
    rw [owed_beginning unowed]
    show config.minWorkers ≤ pool.workers.length + w.owed
    rw [workers]
    exact hmin

theorem spawns_scalingSection (input : PoolInput) (p : WorkerPool) :
    ∀ op ∈ p.scalingSection input, op.spawns = false := by
  intro op hop
  unfold scalingSection at hop
  simp only at hop
  split at hop
  · split at hop
    · cases hop
      rfl
    · cases hop
  · split at hop
    · split at hop
      · cases hop
        rfl
      · cases hop
    · cases hop

/-- **Every step** leaves a running pool its minimum. The worker that a restart takes out is owed
until its successor is there. -/
theorem Staffed.step (h : w.Staffed config) {l : PoolStep × PoolInput}
    (taken : w.step l = some w') : w'.Staffed config := by
  obtain ⟨l, input⟩ := l
  cases l with
  | start =>
    cases taken
    cases hrunning : w.pool.running with
    | true =>
      rw [start_of_running input hrunning]
      exact h.grows (.refl w.pool)
    | false =>
      obtain ⟨hlen, hconfig, -⟩ := start_spec input hrunning
      refine ⟨hconfig.trans h.configured, fun _ => ?_⟩
      show config.minWorkers ≤ (w.pool.start input).workers.length + _
      rw [hlen, h.configured]
      omega
  -- a pool that was stopped need not have its minimum
  | stop =>
    cases taken
    split
    · exact h.begins (fun op hop => by cases hop; rfl) rfl rfl (fun hr => by cases hr)
    · exact h
  | scaleUp count =>
    cases taken
    exact h.grows (grows_scaleUp count input w.pool)
  | scaleDown count =>
    cases taken
    exact h.shrinks (shrinks_scaleDown count input w.pool)
  | scalingDecision =>
    cases taken
    exact h.begins (spawns_scalingSection input w.pool) rfl rfl id
  | healthCheck =>
    cases taken
    obtain ⟨hconfig, hrunning, hworkers⟩ := healthSection_frame input w.pool
    exact h.begins (fun op hop => by cases hop; rfl) hconfig hworkers
      (fun hr => hrunning.symm.trans hr)
  | proceed index =>
    obtain ⟨operation, has, rfl⟩ := Option.map_eq_some_iff.mp taken
    obtain ⟨hconfig, hrunning, hlower, -⟩ := proceed_spec input w.pool operation
    refine ⟨hconfig.trans h.configured, fun hr => ?_⟩
    have hmin := h.staffed (hrunning.symm.trans hr)
    -- what a restart has deleted it still owes
    have howed := owed_proceed (w.pool.proceed input operation).1
      (w.pool.proceed input operation).2 has
    rw [h.configured] at hlower
    show config.minWorkers ≤ (w.pool.proceed input operation).2.workers.length
      + (⟨(w.pool.proceed input operation).2, w.operations.take index
        ++ (w.pool.proceed input operation).1.toList
        ++ w.operations.drop (index + 1)⟩ : PoolWorld).owed
    omega

/-- **A running pool with no operation in progress has at least `min_workers` workers**, in
every run. -/
theorem minWorkers_le {ok : PoolWorld → PoolStep × PoolInput → Prop}
    {ls : List (PoolStep × PoolInput)} (run : GuardedRun step ok (init config) ls w)
    (running : w.pool.running = true) (quiet : w.operations = []) :
    config.minWorkers ≤ w.pool.workers.length := by
  have hstaffed : w.Staffed config :=
    run.invariant (P := Staffed config) (staffed_init config) (fun _ _ _ h _ taken => h.step taken)
  have hmin := hstaffed.staffed running
  have howed : w.owed = 0 := by
    unfold owed
    rw [quiet]
    rfl
  omega

/-! ## The upper bound -/

/-- **The condition**: a pool that is not running is started only with room for
`min_workers` more workers, and a restart spawns its worker only where there is room for
one. -/
def HasRoom (w : PoolWorld) : PoolStep × PoolInput → Prop
  | (.start, _) => w.pool.running = false →
    w.pool.workers.length + w.pool.config.minWorkers ≤ w.pool.config.maxWorkers
  | (.proceed index, _) => ∀ operation ∈ w.operations[index]?, operation.spawns = true →
    w.pool.workers.length < w.pool.config.maxWorkers
  | _ => True

/-- **The pool is within its maximum.** There is no counterpart of what is owed here: a worker
too many is there at once. -/
structure Within (config : PoolConfig) (w : PoolWorld) : Prop where
  configured : w.pool.config = config
  within : w.pool.workers.length ≤ config.maxWorkers

theorem Within.grows (h : w.Within config) {pool : WorkerPool} (grows : Grows w.pool pool) :
    (w.beginning none pool).Within config where
  configured := grows.config.trans h.configured
  within := by
    have hroom := grows.room
    have hwithin := h.within
    rw [h.configured] at hroom
    show pool.workers.length ≤ config.maxWorkers
    omega

/-- **Every step for which there is room** keeps the pool within its maximum. -/
theorem Within.step (h : w.Within config) {l : PoolStep × PoolInput} (room : w.HasRoom l)
    (taken : w.step l = some w') : w'.Within config := by
  have hwithin := h.within
  obtain ⟨l, input⟩ := l
  cases l with
  | start =>
    cases taken
    cases hrunning : w.pool.running with
    | true =>
      rw [start_of_running input hrunning]
      exact h.grows (.refl w.pool)
    | false =>
      obtain ⟨hlen, hconfig, -⟩ := start_spec input hrunning
      have hroom := room hrunning
      refine ⟨hconfig.trans h.configured, ?_⟩
      show (w.pool.start input).workers.length ≤ config.maxWorkers
      rw [hlen, ← h.configured]
      exact hroom
  | stop =>
    cases taken
    split
    · exact ⟨h.configured, hwithin⟩
    · exact h
  | scaleUp count =>
    cases taken
    exact h.grows (grows_scaleUp count input w.pool)
  | scaleDown count =>
    cases taken
    have hshrinks := shrinks_scaleDown count input w.pool
    exact ⟨hshrinks.config.trans h.configured, hshrinks.le.trans hwithin⟩
  | scalingDecision =>
    cases taken
    exact ⟨h.configured, hwithin⟩
  | healthCheck =>
    cases taken
    obtain ⟨hconfig, -, hworkers⟩ := healthSection_frame input w.pool
    exact ⟨hconfig.trans h.configured, (congrArg List.length hworkers).le.trans hwithin⟩
  | proceed index =>
    obtain ⟨operation, has, rfl⟩ := Option.map_eq_some_iff.mp taken
    obtain ⟨hconfig, -, -, hupper⟩ := proceed_spec input w.pool operation
    refine ⟨hconfig.trans h.configured, ?_⟩
    show (w.pool.proceed input operation).2.workers.length ≤ config.maxWorkers
    rw [← h.configured] at hwithin ⊢
    -- the spawn of a restart is the only one that does not look at `max_workers`
    rcases hupper with hle | hmax | ⟨hspawns, hone⟩
    · exact hle.trans hwithin
    · exact hmax
    · have hroom := room operation has hspawns
      omega

/-- **The size of a pool.** In every run in which every start and every restart has room, a
pool has at most `max_workers` workers; and at least `min_workers` where it is running and
no operation is in progress. -/
theorem pool_bounds {ls : List (PoolStep × PoolInput)}
    (run : GuardedRun step HasRoom (init config) ls w) :
    w.pool.workers.length ≤ config.maxWorkers
      ∧ (w.pool.running = true → w.operations = [] →
        config.minWorkers ≤ w.pool.workers.length) := by
  have hwithin : w.Within config :=
    run.invariant (P := Within config) ⟨rfl, Nat.zero_le _⟩
      (fun _ _ _ h room taken => h.step room taken)
  exact ⟨hwithin.within, minWorkers_le run⟩

instance (w : PoolWorld) : (l : PoolStep × PoolInput) → Decidable (w.HasRoom l)
  | (.start, _) => inferInstanceAs (Decidable (w.pool.running = false →
    w.pool.workers.length + w.pool.config.minWorkers ≤ w.pool.config.maxWorkers))
  | (.proceed index, _) => inferInstanceAs (Decidable (∀ operation ∈ w.operations[index]?,
    operation.spawns = true → w.pool.workers.length < w.pool.config.maxWorkers))
  | (.stop, _) | (.scaleUp _, _) | (.scaleDown _, _) | (.scalingDecision, _)
  | (.healthCheck, _) => isTrue trivial

/-- A health check at which the first worker is not alive. -/
def firstDead : PoolInput where
  view id := { isAlive := decide (id ≠ 0) }

/-- A worker dies, and is replaced. -/
theorem pool_bounds_restart :
    ∃ w, GuardedRun step HasRoom (init { minWorkers := 1, maxWorkers := 2 })
        [(.start, {}), (.scaleUp 5, {}), (.healthCheck, firstDead), (.proceed 0, {}),
          (.proceed 0, {}), (.proceed 0, {}), (.proceed 0, {})] w
      ∧ w.pool.workers = [1, 2] ∧ w.pool.workers.length ≤ 2 := by
  have hreplay : (GuardedRun.replay step (fun w l => w.HasRoom l)
      (init { minWorkers := 1, maxWorkers := 2 })
      [(.start, {}), (.scaleUp 5, {}), (.healthCheck, firstDead), (.proceed 0, {}),
        (.proceed 0, {}), (.proceed 0, {}), (.proceed 0, {})]).any
      (fun w => w.pool.workers = [1, 2]) = true := by
    decide +kernel
  obtain ⟨w, run, htest⟩ := GuardedRun.exists_of_replay (fun _ _ h => of_decide_eq_true h) hreplay
  exact ⟨w, run, of_decide_eq_true htest, (pool_bounds run).1⟩

/-- **A pool with more workers than its maximum**: one that was stopped and started again;
and one in which `scale_up` takes the place of a worker that is being restarted. -/
theorem pool_exceeds :
    (∃ w, GuardedRun step (fun _ _ => True) (init { minWorkers := 2, maxWorkers := 3 })
        [(.start, {}), (.stop, {}), (.proceed 0, {}), (.start, {})] w
      ∧ w.operations.length = 0 ∧ w.pool.workers.length = 4
      ∧ ¬ w.pool.workers.length ≤ w.pool.config.maxWorkers)
    ∧ ∃ w, GuardedRun step (fun _ _ => True) (init { minWorkers := 2, maxWorkers := 2 })
        [(.start, {}), (.healthCheck, firstDead), (.proceed 0, {}), (.scaleUp 1, {}),
          (.proceed 0, {})] w
      ∧ w.pool.workers = [1, 2, 3]
      ∧ ¬ w.pool.workers.length ≤ w.pool.config.maxWorkers := by
  have hreplay : (GuardedRun.replay step (fun _ _ => true)
      (init { minWorkers := 2, maxWorkers := 3 })
      [(.start, {}), (.stop, {}), (.proceed 0, {}), (.start, {})]).any
      (fun w => w.operations.length = 0 ∧ w.pool.workers.length = 4
        ∧ ¬ w.pool.workers.length ≤ w.pool.config.maxWorkers) = true := by
    decide +kernel
  have hreplay' : (GuardedRun.replay step (fun _ _ => true)
      (init { minWorkers := 2, maxWorkers := 2 })
      [(.start, {}), (.healthCheck, firstDead), (.proceed 0, {}), (.scaleUp 1, {}),
        (.proceed 0, {})]).any
      (fun w => w.pool.workers = [1, 2, 3]
        ∧ ¬ w.pool.workers.length ≤ w.pool.config.maxWorkers) = true := by
    decide +kernel
  obtain ⟨w, run, htest⟩ := GuardedRun.exists_of_replay (fun _ _ _ => trivial) hreplay
  obtain ⟨w', run', htest'⟩ := GuardedRun.exists_of_replay (fun _ _ _ => trivial) hreplay'
  exact ⟨⟨w, run, of_decide_eq_true htest⟩, w', run', of_decide_eq_true htest'⟩

end PoolWorld

end JobOrchestrator
