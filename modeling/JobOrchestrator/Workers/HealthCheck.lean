import JobOrchestrator.Workers.PoolBounds

/-!
# What a health check replaces

`_perform_health_check` as a whole, with no other operation in between: its section, the
restarts that the section found, and the removals. It is what the steps of the
operation amount to when they are taken one after the other,
`PoolWorld.exists_run_performHealthCheck`.

A check restarts a dead worker unless its state is `STOPPED`, which is the state that a
worker sets when its own loop has ended, by an error too. Such a worker is neither
restarted nor removed: it stays in the table and is counted there. So, in a pool with
its minimum, a check replaces every dead worker where none of them is `STOPPED`, and
nowhere else.
-/

namespace JobOrchestrator

namespace WorkerPool

/-! ## The whole check -/

/-- **`_restart_worker`**. The dead worker is removed and a new one spawned, without a look at
`max_workers`. -/
def restartWorker (id : WorkerId) (now : Time) (p : WorkerPool) : WorkerPool :=
  (p.removeWorker id).spawnWorker now

/-- The restarts of `_perform_health_check`, at the readings of the clock from the given one
on. -/
def restartWorkers (clock : ℕ → Time) : List WorkerId → ℕ → WorkerPool → WorkerPool
  | [], _, p => p
  | id :: rest, k, p => restartWorkers clock rest (k + 1) (p.restartWorker id (clock k))

/-- The removals of `_perform_health_check`. Each looks again whether `min_workers` are left. -/
def removeLongIdle : List WorkerId → WorkerPool → WorkerPool
  | [], p => p
  | id :: rest, p => removeLongIdle rest (p.removeAboveMin id)

/-- **`_perform_health_check`**. The section finds the workers, and what it has found is dealt
with one by one. -/
def performHealthCheck (input : PoolInput) (p : WorkerPool) : WorkerPool :=
  let checked := p.healthSection input
  removeLongIdle checked.1.toRemove (restartWorkers input.clock checked.1.toRestart 1 checked.2)

/-- Whether a worker in the table after the check is alive: one that the check spawned has been
started, the others are as the check saw them. -/
def aliveAfter (input : PoolInput) (p : WorkerPool) (id : WorkerId) : Bool :=
  if id < p.nextId then (input.view id).isAlive else true

/-- **Every dead worker is replaced**: after the check, no worker in the table is dead, and at
least `min_workers` in it are alive. -/
def ReplacesDead (input : PoolInput) (p : WorkerPool) : Prop :=
  p.config.minWorkers
      ≤ ((p.performHealthCheck input).workers.filter (p.aliveAfter input)).length
    ∧ ∀ id ∈ (p.performHealthCheck input).workers, p.aliveAfter input id = true

instance (input : PoolInput) (p : WorkerPool) : Decidable (p.ReplacesDead input) :=
  inferInstanceAs (Decidable (_ ∧ _))

/-- No worker in the table is dead with its state at `STOPPED`. -/
def NoneStoppedDead (input : PoolInput) (p : WorkerPool) : Prop :=
  ∀ id ∈ p.workers, (input.view id).isAlive = false → (input.view id).state ≠ .stopped

variable {input : PoolInput} {p : WorkerPool}

/-! ## What the section finds -/

/-- The worker is busy, and its last heartbeat is older than it may be. -/
def isStuck (now : Time) (timeout : ℚ) (worker : WorkerView) : Bool :=
  worker.lastHeartbeat.any (fun heartbeat =>
    decide (timeout < now - heartbeat ∧ worker.state = .busy))

/-- The worker is to be restarted. -/
def needsRestart (now : Time) (timeout : ℚ) (worker : WorkerView) : Bool :=
  decide (worker.isAlive = false ∧ worker.state ≠ .stopped) || isStuck now timeout worker

/-- A stopped worker is not restarted: it is not busy. -/
theorem needsRestart_of_stopped {now : Time} {timeout : ℚ} {worker : WorkerView}
    (stopped : worker.state = .stopped) : needsRestart now timeout worker = false := by
  simp [needsRestart, isStuck, stopped]

theorem needsRestart_of_dead {now : Time} {timeout : ℚ} {worker : WorkerView}
    (dead : worker.isAlive = false) (running : worker.state ≠ .stopped) :
    needsRestart now timeout worker = true := by
  simp [needsRestart, dead, running]

/-- Whether a worker is to be removed makes no difference to whether it is restarted. -/
theorem toRestart_found (longIdle : Bool) (id : WorkerId) (found : HealthFindings) :
    (if longIdle then { found with toRemove := found.toRemove ++ [id] } else found).toRestart
      = found.toRestart := by
  cases longIdle <;> rfl

/-- **One worker** is found for a restart, or is not. -/
theorem toRestart_examine (now : Time) (view : WorkerId → WorkerView)
    (x : HealthFindings × WorkerPool) (id : WorkerId) :
    (examine now view x id).1.toRestart
      = x.1.toRestart ++ [id].filter
          (fun id => needsRestart now x.2.config.workerHeartbeatTimeout (view id)) := by
  by_cases hdead : (view id).isAlive = false ∧ (view id).state ≠ .stopped
  · rw [examine, if_pos hdead]
    simp [needsRestart, hdead]
  · have hneeds : needsRestart now x.2.config.workerHeartbeatTimeout (view id)
        = isStuck now x.2.config.workerHeartbeatTimeout (view id) := by
      simp only [needsRestart, decide_eq_false hdead, Bool.false_or]
    rw [examine, if_neg hdead]
    show (if Option.any _ _ = true then _ else _ : HealthFindings).toRestart = _
    rw [toRestart_found]
    show (if isStuck now x.2.config.workerHeartbeatTimeout (view id) = true
      then { x.1 with toRestart := x.1.toRestart ++ [id] } else x.1).toRestart = _
    rw [List.filter_singleton, hneeds]
    cases isStuck now x.2.config.workerHeartbeatTimeout (view id)
    · exact (List.append_nil _).symm
    · rfl

/-- **The workers to restart**, in the order of the table. -/
theorem toRestart_healthSection (input : PoolInput) (p : WorkerPool) :
    (p.healthSection input).1.toRestart
      = p.workers.filter (fun id => needsRestart (input.clock 0)
          p.config.workerHeartbeatTimeout (input.view id)) := by
  have hloop : ∀ (ids : List WorkerId) (x : HealthFindings × WorkerPool),
      (ids.foldl (examine (input.clock 0) input.view) x).1.toRestart
        = x.1.toRestart ++ ids.filter (fun id => needsRestart (input.clock 0)
            x.2.config.workerHeartbeatTimeout (input.view id)) := by
    intro ids
    induction ids with
    | nil => simp
    | cons id ids ih =>
      intro x
      have hconfig := (examine_frame (input.clock 0) input.view x id).1
      rw [List.foldl_cons, ih, toRestart_examine, hconfig, List.append_assoc, ← List.filter_append,
        List.singleton_append]
  exact hloop p.workers ({}, p)

/-- Whether a worker is restarted makes no difference to whether it is to be removed. -/
theorem toRemove_stuck (stuck : Bool) (id : WorkerId) (found : HealthFindings) :
    (if stuck then { found with toRestart := found.toRestart ++ [id] } else found).toRemove
      = found.toRemove := by
  cases stuck <;> rfl

theorem mem_toRemove_found {longIdle : Bool} {id id' : WorkerId} {found : HealthFindings}
    (h : id' ∈ (if longIdle then { found with toRemove := found.toRemove ++ [id] }
      else found).toRemove) : id' ∈ found.toRemove ∨ longIdle = true ∧ id' = id := by
  cases longIdle with
  | false => exact Or.inl h
  | true =>
    rcases List.mem_append.mp h with hfound | hnew
    · exact Or.inl hfound
    · exact Or.inr ⟨rfl, List.mem_singleton.mp hnew⟩

/-- **A worker that is found for a removal is alive**: it is idle, so it would have been found for
a restart where it is dead. -/
theorem mem_toRemove_examine {now : Time} {view : WorkerId → WorkerView}
    {x : HealthFindings × WorkerPool} {id id' : WorkerId}
    (h : id' ∈ (examine now view x id).1.toRemove) :
    id' ∈ x.1.toRemove ∨ (view id').isAlive = true := by
  by_cases hdead : (view id).isAlive = false ∧ (view id).state ≠ .stopped
  · rw [examine, if_pos hdead] at h
    exact Or.inl h
  · rw [examine, if_neg hdead] at h
    rcases mem_toRemove_found h with hfound | ⟨hlong, rfl⟩
    · rw [toRemove_stuck] at hfound
      exact Or.inl hfound
    · refine Or.inr (by_contra fun hnot => ?_)
      have hstopped : (view id').state = .stopped :=
        by_contra fun hrunning => hdead ⟨Bool.eq_false_of_not_eq_true hnot, hrunning⟩
      -- the idle time of a worker that is not idle has just been dropped
      simp [hstopped] at hlong

/-- **The workers to remove** are alive. The check looks at the dead ones first and is done with
them. -/
theorem alive_of_mem_toRemove :
    ∀ id ∈ (p.healthSection input).1.toRemove, (input.view id).isAlive = true := by
  refine healthSection_rule (P := fun x => ∀ id ∈ x.1.toRemove, (input.view id).isAlive = true)
    (fun id h => absurd h List.not_mem_nil) ?_
  intro x id halive id' hid'
  rcases mem_toRemove_examine hid' with hfound | hnew
  · exact halive id' hfound
  · exact hnew

/-- The section draws no id. -/
theorem nextId_healthSection (input : PoolInput) (p : WorkerPool) :
    (p.healthSection input).2.nextId = p.nextId := by
  refine healthSection_rule (P := fun x => x.2.nextId = p.nextId) rfl ?_
  intro x id hx
  by_cases hdead : (input.view id).isAlive = false ∧ (input.view id).state ≠ .stopped
  · rw [examine, if_pos hdead]
    exact hx
  · rw [examine, if_neg hdead]
    exact hx

/-! ## What the restarts and the removals do -/

@[simp] theorem workers_restartWorker (id : WorkerId) (now : Time) (p : WorkerPool) :
    (p.restartWorker id now).workers = p.workers.erase id ++ [p.nextId] :=
  rfl

/-- A restart of a worker that is in the table leaves the table its size. -/
theorem shrinks_restartWorker {id : WorkerId} (now : Time) (has : id ∈ p.workers) :
    Shrinks p (p.restartWorker id now) := by
  have hlen : (p.restartWorker id now).workers.length = p.workers.length := by
    rw [workers_restartWorker, List.length_append, List.length_erase_of_mem has]
    show p.workers.length - 1 + 1 = p.workers.length
    have hpos := List.length_pos_of_mem has
    omega
  exact ⟨rfl, rfl, hlen.le, Or.inl hlen⟩

/-- **The restarts** leave the table its size. Each deletes one worker and spawns one. -/
theorem shrinks_restartWorkers (clock : ℕ → Time) {ids : List WorkerId} (k : ℕ)
    (nodup : ids.Nodup) (has : ∀ id ∈ ids, id ∈ p.workers) :
    Shrinks p (restartWorkers clock ids k p) := by
  induction ids generalizing k p with
  | nil => exact .refl p
  | cons id ids ih =>
    obtain ⟨hnot, hnodup⟩ := List.nodup_cons.mp nodup
    refine (shrinks_restartWorker (clock k) (has id List.mem_cons_self)).trans
      (ih (k + 1) hnodup (fun id' hid' => ?_))
    have hne : id' ≠ id := fun h => hnot (h ▸ hid')
    rw [workers_restartWorker]
    exact List.mem_append_left _
      ((List.mem_erase_of_ne hne).mpr (has id' (List.mem_cons_of_mem id hid')))

/-- **Of the workers that were there**, those that are not restarted are left. -/
theorem mem_restartWorkers (clock : ℕ → Time) (ids : List WorkerId) (k : ℕ) {p : WorkerPool}
    {id : WorkerId} (old : id < p.nextId) :
    id ∈ (restartWorkers clock ids k p).workers ↔ id ∈ p.workers ∧ id ∉ ids := by
  induction ids generalizing k p with
  | nil => simp [restartWorkers]
  | cons id' ids ih =>
    have hne : id ≠ p.nextId := old.ne
    rw [restartWorkers, ih (k + 1) (Nat.lt_succ_of_lt old), workers_restartWorker,
      List.mem_append, List.mem_singleton, or_iff_left hne, p.nodup.mem_erase_iff,
      List.mem_cons, not_or]
    exact ⟨fun ⟨⟨hother, hmem⟩, hrest⟩ => ⟨hmem, hother, hrest⟩,
      fun ⟨hmem, hother, hrest⟩ => ⟨⟨hother, hmem⟩, hrest⟩⟩

theorem shrinks_removeLongIdle (ids : List WorkerId) (p : WorkerPool) :
    Shrinks p (p.removeLongIdle ids) := by
  induction ids generalizing p with
  | nil => exact .refl p
  | cons id ids ih => exact (shrinks_removeAboveMin id p).trans (ih _)

/-- A removal removes nothing but its worker. -/
theorem mem_removeAboveMin {id id' : WorkerId} (ne : id' ≠ id) :
    id' ∈ (p.removeAboveMin id).workers ↔ id' ∈ p.workers := by
  unfold removeAboveMin
  split
  · show id' ∈ p.workers.erase id ↔ _
    exact List.mem_erase_of_ne ne
  · exact Iff.rfl

theorem mem_of_mem_removeAboveMin {id id' : WorkerId} (h : id' ∈ (p.removeAboveMin id).workers) :
    id' ∈ p.workers := by
  unfold removeAboveMin at h
  split at h
  · exact List.mem_of_mem_erase h
  · exact h

/-- **The removals** remove nothing but what was found. Those that were found and are gone in the
meantime are passed over. -/
theorem mem_removeLongIdle {ids : List WorkerId} {id : WorkerId} (unfound : id ∉ ids) :
    id ∈ (p.removeLongIdle ids).workers ↔ id ∈ p.workers := by
  induction ids generalizing p with
  | nil => exact Iff.rfl
  | cons id' ids ih =>
    rw [removeLongIdle, ih (List.not_mem_of_not_mem_cons unfound),
      mem_removeAboveMin (List.ne_of_not_mem_cons unfound)]

theorem mem_of_mem_removeLongIdle {ids : List WorkerId} {id : WorkerId}
    (h : id ∈ (p.removeLongIdle ids).workers) : id ∈ p.workers := by
  induction ids generalizing p with
  | nil => exact h
  | cons id' ids ih => exact mem_of_mem_removeAboveMin (ih h)

/-! ## What the whole check does -/

/-- **A health check never goes below `min_workers`.** -/
theorem shrinks_performHealthCheck (input : PoolInput) (p : WorkerPool) :
    Shrinks p (p.performHealthCheck input) := by
  obtain ⟨hconfig, hrunning, hworkers⟩ := healthSection_frame input p
  have hsection : Shrinks p (p.healthSection input).2 :=
    ⟨hconfig, hrunning, (congrArg List.length hworkers).le,
      Or.inl (congrArg List.length hworkers)⟩
  have hrestarts : Shrinks (p.healthSection input).2
      (restartWorkers input.clock (p.healthSection input).1.toRestart 1
        (p.healthSection input).2) := by
    rw [toRestart_healthSection]
    refine shrinks_restartWorkers input.clock 1 (p.nodup.filter _) (fun id hid => ?_)
    rw [hworkers]
    exact List.mem_of_mem_filter hid
  exact (hsection.trans hrestarts).trans (shrinks_removeLongIdle _ _)

/-- **The workers that a check leaves** of those that were there are not to be restarted. -/
theorem mem_of_mem_performHealthCheck {id : WorkerId}
    (h : id ∈ (p.performHealthCheck input).workers) (old : id < p.nextId) :
    id ∈ p.workers ∧ needsRestart (input.clock 0) p.config.workerHeartbeatTimeout
      (input.view id) = false := by
  obtain ⟨-, -, hworkers⟩ := healthSection_frame input p
  have hleft := mem_of_mem_removeLongIdle h
  rw [mem_restartWorkers _ _ _ (by rwa [nextId_healthSection]), hworkers,
    toRestart_healthSection] at hleft
  obtain ⟨hmem, hnot⟩ := hleft
  refine ⟨hmem, Bool.eq_false_of_not_eq_true (fun hneeds => hnot ?_)⟩
  exact List.mem_filter.mpr ⟨hmem, hneeds⟩

/-- **A worker that is dead with its state at `STOPPED` stays in the table.** -/
theorem mem_performHealthCheck_of_stopped {id : WorkerId} (has : id ∈ p.workers)
    (dead : (input.view id).isAlive = false) (stopped : (input.view id).state = .stopped) :
    id ∈ (p.performHealthCheck input).workers := by
  obtain ⟨-, -, hworkers⟩ := healthSection_frame input p
  have hunfound : id ∉ (p.healthSection input).1.toRemove := fun h => by
    rw [alive_of_mem_toRemove id h] at dead
    exact absurd dead (by decide)
  refine (mem_removeLongIdle hunfound).mpr ?_
  rw [mem_restartWorkers _ _ _ (by rw [nextId_healthSection]; exact p.fresh id has), hworkers,
    toRestart_healthSection]
  refine ⟨has, fun h => ?_⟩
  rw [List.mem_filter, needsRestart_of_stopped stopped] at h
  exact absurd h.2 (by decide)

/-- **No dead worker is left** where, and only where, none was `STOPPED`. -/
theorem allAlive_iff : (∀ id ∈ (p.performHealthCheck input).workers, p.aliveAfter input id = true)
    ↔ p.NoneStoppedDead input := by
  constructor
  · intro halive id hid hdead hstopped
    have hafter := halive id (mem_performHealthCheck_of_stopped hid hdead hstopped)
    rw [aliveAfter, if_pos (p.fresh id hid), hdead] at hafter
    exact absurd hafter (by decide)
  · intro hnone id hid
    unfold aliveAfter
    split
    · rename_i hold
      obtain ⟨hmem, hnot⟩ := mem_of_mem_performHealthCheck hid hold
      by_contra hdead
      rw [Bool.not_eq_true] at hdead
      rw [needsRestart_of_dead hdead (hnone id hmem hdead)] at hnot
      exact absurd hnot (by decide)
    · rfl

/-- Where all workers are alive, there are enough of them. -/
theorem enough_of_allAlive (enough : p.config.minWorkers ≤ p.workers.length)
    (alive : ∀ id ∈ (p.performHealthCheck input).workers, p.aliveAfter input id = true) :
    p.config.minWorkers
      ≤ ((p.performHealthCheck input).workers.filter (p.aliveAfter input)).length := by
  rw [List.filter_eq_self.mpr alive]
  rcases (shrinks_performHealthCheck input p).enough with hle | hmin
  · exact enough.trans hle
  · exact hmin

/-- **When a health check replaces every dead worker**: where none of them has its state at
`STOPPED`, and the table has its minimum. -/
theorem replacesDead_iff (input : PoolInput) (p : WorkerPool) :
    p.ReplacesDead input
      ↔ p.NoneStoppedDead input ∧ p.config.minWorkers ≤ p.workers.length := by
  constructor
  · rintro ⟨henough, halive⟩
    refine ⟨allAlive_iff.mp halive, ?_⟩
    calc p.config.minWorkers
        ≤ ((p.performHealthCheck input).workers.filter (p.aliveAfter input)).length := henough
      _ ≤ (p.performHealthCheck input).workers.length := List.length_filter_le _ _
      _ ≤ p.workers.length := (shrinks_performHealthCheck input p).le
  · rintro ⟨hnone, henough⟩
    have halive := allAlive_iff.mpr hnone
    exact ⟨enough_of_allAlive henough halive, halive⟩

end WorkerPool

namespace PoolWorld

open WorkerPool

/-! ## The check, step by step -/

/-- **The steps of one operation**, the one after the given others, with no other step in
between. -/
abbrev Alone (others : List PoolOperation) : PoolWorld → List (PoolStep × PoolInput) → PoolWorld →
    Prop :=
  GuardedRun step (fun _ l => l.1 = .proceed others.length)

variable (others : List PoolOperation)

theorem step_last (input : PoolInput) (p : WorkerPool) (operation : PoolOperation) :
    step ⟨p, others ++ [operation]⟩ (.proceed others.length, input)
      = some ⟨(p.proceed input operation).2,
          others ++ (p.proceed input operation).1.toList⟩ := by
  simp [step]

/-- One step of an operation beside others that do nothing meanwhile. -/
theorem alone_single (input : PoolInput) (p : WorkerPool) (operation : PoolOperation) :
    Alone others ⟨p, others ++ [operation]⟩ [(.proceed others.length, input)]
      ⟨(p.proceed input operation).2, others ++ (p.proceed input operation).1.toList⟩ :=
  .single rfl (step_last others input p operation)

/-- **`_restart_worker`** in its three steps. They are a section, the spawn and the entry in the
table, with the lock given back in between. -/
theorem alone_restartWorker (id : WorkerId) (now : Time) (toRestart toRemove : List WorkerId)
    (p : WorkerPool) : ∃ ls, Alone others ⟨p, others ++ [.checking ⟨id :: toRestart, toRemove⟩]⟩ ls
      ⟨p.restartWorker id now, others ++ [.checking ⟨toRestart, toRemove⟩]⟩ := by
  have hremoved := alone_single others {} p (.checking ⟨id :: toRestart, toRemove⟩)
  have hspawned := alone_single others {} (p.removeWorker id)
    (.spawning ⟨toRestart, toRemove⟩)
  have htracked := alone_single others { clock := fun _ => now }
    (p.removeWorker id).insertWorker (.tracking p.nextId ⟨toRestart, toRemove⟩)
  exact ⟨_, (hremoved.append hspawned).append htracked⟩

theorem alone_restartWorkers (clock : ℕ → Time) (toRestart toRemove : List WorkerId) (k : ℕ)
    (p : WorkerPool) : ∃ ls, Alone others ⟨p, others ++ [.checking ⟨toRestart, toRemove⟩]⟩ ls
      ⟨restartWorkers clock toRestart k p, others ++ [.checking ⟨[], toRemove⟩]⟩ := by
  induction toRestart generalizing k p with
  | nil => exact ⟨[], .nil _⟩
  | cons id toRestart ih =>
    obtain ⟨ls, hone⟩ := alone_restartWorker others id (clock k) toRestart toRemove p
    obtain ⟨ls', hrest⟩ := ih (k + 1) (p.restartWorker id (clock k))
    exact ⟨ls ++ ls', hone.append hrest⟩

theorem alone_removeLongIdle (toRemove : List WorkerId) (p : WorkerPool) :
    ∃ ls, Alone others ⟨p, others ++ [.checking ⟨[], toRemove⟩]⟩ ls
      ⟨p.removeLongIdle toRemove, others⟩ := by
  induction toRemove generalizing p with
  | nil =>
    have hdone := alone_single others {} p (.checking ⟨[], []⟩)
    have hnone : others ++ (none : Option PoolOperation).toList = others := List.append_nil others
    exact ⟨_, hnone ▸ hdone⟩
  | cons id toRemove ih =>
    have hone := alone_single others {} p (.checking ⟨[], id :: toRemove⟩)
    obtain ⟨ls, hrest⟩ := ih (p.removeAboveMin id)
    exact ⟨_, hone.append hrest⟩

/-- **The whole check is what its steps amount to**, whatever other operations are in progress,
as long as none of them takes a step. -/
theorem exists_run_performHealthCheck (input : PoolInput) (w : PoolWorld) :
    ∃ w' ls, w.step (.healthCheck, input) = some w'
      ∧ Alone w.operations w' ls ⟨w.pool.performHealthCheck input, w.operations⟩ := by
  obtain ⟨ls, hrestarts⟩ := alone_restartWorkers w.operations input.clock
    (w.pool.healthSection input).1.toRestart (w.pool.healthSection input).1.toRemove 1
    (w.pool.healthSection input).2
  obtain ⟨ls', hremovals⟩ := alone_removeLongIdle w.operations
    (w.pool.healthSection input).1.toRemove
    (restartWorkers input.clock (w.pool.healthSection input).1.toRestart 1
      (w.pool.healthSection input).2)
  exact ⟨_, _, rfl, hrestarts.append hremovals⟩

/-! ## Running pools -/

variable {w : PoolWorld} {config : PoolConfig}

/-- **In a running pool with no operation in progress** the table has its minimum, so that a check
replaces every dead worker where none of them is `STOPPED`, in every run. -/
theorem replacesDead_of_run {ok : PoolWorld → PoolStep × PoolInput → Prop}
    {ls : List (PoolStep × PoolInput)} (run : GuardedRun step ok (init config) ls w)
    (running : w.pool.running = true) (quiet : w.operations = []) {input : PoolInput}
    (nostopped : w.pool.NoneStoppedDead input) : w.pool.ReplacesDead input := by
  have hstaffed : w.Staffed config :=
    run.invariant (P := Staffed config) (staffed_init config) (fun _ _ _ h _ taken => h.step taken)
  have henough : w.pool.config.minWorkers ≤ w.pool.workers.length := by
    rw [hstaffed.configured]
    exact minWorkers_le run running quiet
  have halive := allAlive_iff.mpr nostopped
  exact ⟨enough_of_allAlive henough halive, halive⟩

/-- A health check that finds the first worker dead, as it is after its loop has ended by an
error. -/
def firstEnded : PoolInput where
  view id := if id = 0 then { state := .stopped, isAlive := false } else {}

/-- **A pool that is left with a dead worker**, and with fewer that are alive than
`min_workers`. -/
theorem stopped_worker_stays :
    ∃ w, GuardedRun step (fun _ _ => True) (init {}) [(.start, {})] w
      ∧ w.pool.running = true ∧ w.operations.length = 0
      ∧ (w.pool.performHealthCheck firstEnded).workers = w.pool.workers
      ∧ w.pool.workers.filter (w.pool.aliveAfter firstEnded) = [1]
      ∧ ¬ w.pool.ReplacesDead firstEnded := by
  have hreplay : (GuardedRun.replay step (fun _ _ => true) (init {}) [(.start, {})]).any
      (fun w => w.pool.running = true ∧ w.operations.length = 0
        ∧ (w.pool.performHealthCheck firstEnded).workers = w.pool.workers
        ∧ w.pool.workers.filter (w.pool.aliveAfter firstEnded) = [1]
        ∧ ¬ w.pool.ReplacesDead firstEnded) = true := by
    decide +kernel
  obtain ⟨w, run, htest⟩ := GuardedRun.exists_of_replay (fun _ _ _ => trivial) hreplay
  exact ⟨w, run, of_decide_eq_true htest⟩

end PoolWorld

end JobOrchestrator
