import Mathlib.Data.List.Sort
import Mathlib.Tactic.NormNum
import JobOrchestrator.Core.Job
import JobOrchestrator.Util.GuardedRun
import JobOrchestrator.Util.OrderedDict

/-!
# The worker pool

`WorkerPool` of `workers/pool.py`: the table of workers, and the operations that
add workers to it and delete them. What a section reads while it holds the
pool's lock – the states of the workers, their heartbeats, the length of the queue, the
clock – is an argument.

A `PoolWorld` is the pool with the operations that are in progress. Each section under
the lock is one step; so is each of the two writes with which `_restart_worker`, outside
the lock, spawns the replacement of a worker.

Worker ids are fresh UUIDs, so they are counted. That the ids in the table are
distinct and older than the next one are fields.
-/

namespace JobOrchestrator

/-- `WorkerState`. -/
inductive WorkerState
  | idle | busy | stopping | stopped
  deriving DecidableEq, Repr

/-- The number of a worker's id. -/
abbrev WorkerId := ℕ

/-- **`PoolConfig`**, after `validate`. `validate` raises where one of the last four fails, so a
pool never has such a configuration. -/
structure PoolConfig where
  minWorkers : ℕ := 2
  maxWorkers : ℕ := 10
  scaleUpThreshold : ℚ := 4 / 5
  scaleDownThreshold : ℚ := 1 / 5
  workerMaxIdleTime : ℚ := 60
  workerHeartbeatTimeout : ℚ := 30
  min_le_max : minWorkers ≤ maxWorkers := by decide
  scaleUp_mem : 0 ≤ scaleUpThreshold ∧ scaleUpThreshold ≤ 1 := by norm_num
  scaleDown_mem : 0 ≤ scaleDownThreshold ∧ scaleDownThreshold ≤ 1 := by norm_num
  down_lt_up : scaleDownThreshold < scaleUpThreshold := by norm_num

/-- What the pool sees of a worker. -/
structure WorkerView where
  state : WorkerState := .idle
  isAlive : Bool := true
  lastHeartbeat : Option Time := none

/-- What a section reads from outside. -/
structure PoolInput where
  view : WorkerId → WorkerView := fun _ => {}
  /-- The length of the scheduler's queue. -/
  queueSize : ℕ := 0
  /-- The readings of the clock, in their order. -/
  clock : ℕ → Time := fun _ => 0

/-- **`WorkerPool`**. The ids are drawn at random in the source; that none is drawn twice is all
that matters of them. -/
structure WorkerPool where
  config : PoolConfig
  /-- The keys of `_workers`, in their order. -/
  workers : List WorkerId
  nodup : workers.Nodup
  /-- The next id to be drawn. -/
  nextId : WorkerId
  fresh : ∀ id ∈ workers, id < nextId
  /-- `_worker_idle_since`. -/
  idleSince : OrderedDict WorkerId Time
  /-- `_running`. -/
  running : Bool

namespace WorkerPool

/-- A pool as it is constructed. -/
def new (config : PoolConfig) : WorkerPool where
  config := config
  workers := []
  nodup := List.nodup_nil
  nextId := 0
  fresh := fun _ h => absurd h List.not_mem_nil
  idleSince := OrderedDict.empty
  running := false

/-! ## The table -/

/-- The first write of `_spawn_worker`: the new worker is in the table. -/
def insertWorker (p : WorkerPool) : WorkerPool :=
  { p with
    workers := p.workers ++ [p.nextId]
    nodup := by
      refine List.Nodup.append p.nodup (List.nodup_singleton p.nextId) ?_
      intro id hid hnew
      rw [List.mem_singleton] at hnew
      exact absurd (p.fresh id hid) (by rw [hnew]; exact lt_irrefl _)
    nextId := p.nextId + 1
    fresh := fun id h => by
      rcases List.mem_append.mp h with h | h
      · exact Nat.lt_succ_of_lt (p.fresh id h)
      · rw [List.mem_singleton.mp h]
        exact Nat.lt_succ_self _ }

/-- The second write of `_spawn_worker`. -/
def trackIdle (id : WorkerId) (now : Time) (p : WorkerPool) : WorkerPool :=
  { p with idleSince := p.idleSince.set id now }

/-- **`_spawn_worker`**. The new worker is in the table at once, and its idle time is written
afterwards. -/
def spawnWorker (now : Time) (p : WorkerPool) : WorkerPool :=
  p.insertWorker.trackIdle p.nextId now

/-- **`_remove_worker`**, without the stopping of the worker. -/
def removeWorker (id : WorkerId) (p : WorkerPool) : WorkerPool :=
  { p with
    workers := p.workers.erase id
    nodup := p.nodup.erase id
    fresh := fun id' h => p.fresh id' (List.mem_of_mem_erase h)
    idleSince := if id ∈ p.workers then p.idleSince.erase id else p.idleSince }

/-! ## The operations -/

/-- `count` workers are spawned, at the readings of the clock from the given one on. -/
def spawnWorkers (clock : ℕ → Time) : ℕ → ℕ → WorkerPool → WorkerPool
  | 0, _, p => p
  | count + 1, k, p => spawnWorkers clock count (k + 1) (p.spawnWorker (clock k))

/-- **`start`**. Unless the pool runs already it spawns `min_workers`, beside whatever is in the
table. -/
def start (input : PoolInput) (p : WorkerPool) : WorkerPool :=
  if p.running then p
  else spawnWorkers input.clock p.config.minWorkers 0 { p with running := true }

/-- The loop of `scale_up`. -/
def scaleUpLoop (clock : ℕ → Time) : ℕ → ℕ → WorkerPool → WorkerPool
  | 0, _, p => p
  | count + 1, k, p =>
    if p.config.maxWorkers ≤ p.workers.length then p
    else scaleUpLoop clock count (k + 1) (p.spawnWorker (clock k))

/-- **`scale_up`**. -/
def scaleUp (count : ℤ) (input : PoolInput) (p : WorkerPool) : WorkerPool :=
  scaleUpLoop input.clock count.toNat 0 p

/-- `xs[:count]`, which counts from the end where the count is negative. -/
def upTo {α : Type} (xs : List α) (count : ℤ) : List α :=
  xs.take (if 0 ≤ count then count.toNat else xs.length - count.natAbs)

/-- The idle workers, the longest idle first. -/
def idleWorkers (input : PoolInput) (p : WorkerPool) : List (WorkerId × Time) :=
  (p.workers.filterMap (fun id =>
    if (input.view id).state = .idle then (p.idleSince.get? id).map (fun since => (id, since))
    else none)).mergeSort (fun a b => decide (a.2 ≤ b.2))

/-- The loop of `scale_down`. -/
def scaleDownLoop : List WorkerId → WorkerPool → WorkerPool
  | [], p => p
  | id :: rest, p =>
    if p.workers.length ≤ p.config.minWorkers then p
    else scaleDownLoop rest (p.removeWorker id)

/-- **`scale_down`**. -/
def scaleDown (count : ℤ) (input : PoolInput) (p : WorkerPool) : WorkerPool :=
  scaleDownLoop ((upTo (p.idleWorkers input) count).map Prod.fst) p

/-- The workers to restart and to remove that the health check has found so far. -/
structure HealthFindings where
  toRestart : List WorkerId := []
  toRemove : List WorkerId := []

/-- **The body of the loop of `_perform_health_check`**, at the reading of the clock with which
the check began. -/
def examine (now : Time) (view : WorkerId → WorkerView) (x : HealthFindings × WorkerPool)
    (id : WorkerId) : HealthFindings × WorkerPool :=
  let worker := view id
  if worker.isAlive = false ∧ worker.state ≠ .stopped then
    ({ x.1 with toRestart := x.1.toRestart ++ [id] }, x.2)
  else
    let stuck := worker.lastHeartbeat.any (fun heartbeat =>
      decide (x.2.config.workerHeartbeatTimeout < now - heartbeat ∧ worker.state = .busy))
    let found := if stuck then { x.1 with toRestart := x.1.toRestart ++ [id] } else x.1
    let idleSince :=
      if worker.state = .idle then
        if (x.2.idleSince.get? id).isNone then x.2.idleSince.set id now else x.2.idleSince
      else x.2.idleSince.erase id
    let longIdle := (idleSince.get? id).any (fun since =>
      decide (x.2.config.workerMaxIdleTime < now - since
        ∧ x.2.config.minWorkers < x.2.workers.length))
    (if longIdle then { found with toRemove := found.toRemove ++ [id] } else found,
      { x.2 with idleSince := idleSince })

/-- **The first section of `_perform_health_check`**. It takes the lock once, looks at every
worker and writes down what is to be done about it. -/
def healthSection (input : PoolInput) (p : WorkerPool) : HealthFindings × WorkerPool :=
  p.workers.foldl (examine (input.clock 0) input.view) ({}, p)

/-- The section that removes a worker that was idle for long. -/
def removeAboveMin (id : WorkerId) (p : WorkerPool) : WorkerPool :=
  if p.config.minWorkers < p.workers.length then p.removeWorker id else p

/-! ## Operations in progress -/

/-- **An operation between two of its steps.** The pool gives its lock back between the sections
of one operation; each of these is a place where it does. -/
inductive PoolOperation
  /-- `stop`, before it stops the workers. -/
  | stopping
  /-- A scaling decision, before it calls `scale_up`. -/
  | scalingUp (count : ℤ)
  /-- A scaling decision, before it calls `scale_down`. -/
  | scalingDown (count : ℤ)
  /-- A health check, with the workers it has yet to restart and to remove. -/
  | checking (findings : HealthFindings)
  /-- A health check in `_restart_worker`, after the section: a worker is to be spawned. -/
  | spawning (findings : HealthFindings)
  /-- The same, with the new worker in the table. -/
  | tracking (id : WorkerId) (findings : HealthFindings)

/-- **The first section of `_perform_scaling_decision`**, and what the decision is. -/
def scalingSection (input : PoolInput) (p : WorkerPool) : Option PoolOperation :=
  let current := (p.workers.filter (fun id => (input.view id).state ≠ .stopped)).length
  let busy := (p.workers.filter (fun id => (input.view id).state = .busy)).length
  let utilization : ℚ := busy / max current 1
  if p.config.scaleUpThreshold ≤ utilization ∨ current * 2 < input.queueSize then
    if current < p.config.maxWorkers then
      some (.scalingUp (min (1 + input.queueSize / 10 : ℕ) (p.config.maxWorkers - current)))
    else none
  else if utilization ≤ p.config.scaleDownThreshold ∧ input.queueSize = 0 then
    if p.config.minWorkers < current then some (.scalingDown 1) else none
  else none

/-- **The next step of an operation**: what is left of it, and the pool. -/
def proceed (input : PoolInput) (p : WorkerPool) :
    PoolOperation → Option PoolOperation × WorkerPool
  | .stopping => (none, p)
  | .scalingUp count => (none, p.scaleUp count input)
  | .scalingDown count => (none, p.scaleDown count input)
  | .checking ⟨id :: toRestart, toRemove⟩ =>
    (some (.spawning ⟨toRestart, toRemove⟩), p.removeWorker id)
  | .checking ⟨[], id :: toRemove⟩ => (some (.checking ⟨[], toRemove⟩), p.removeAboveMin id)
  | .checking ⟨[], []⟩ => (none, p)
  | .spawning findings => (some (.tracking p.nextId findings), p.insertWorker)
  | .tracking id findings => (some (.checking findings), p.trackIdle id (input.clock 0))

end WorkerPool

/-- **The pool and the operations in progress**, of any number of threads. Several operations may
be half-way at once, each from a view of the pool that is no longer the case. -/
structure PoolWorld where
  pool : WorkerPool
  operations : List WorkerPool.PoolOperation

/-- **A step**: an operation begins, with its first section, or one that is in progress
goes on. -/
inductive PoolStep
  | start
  | stop
  | scaleUp (count : ℤ)
  | scaleDown (count : ℤ)
  | scalingDecision
  | healthCheck
  | proceed (index : ℕ)

namespace PoolWorld

/-- A pool as it is constructed, with nothing in progress. -/
def init (config : PoolConfig) : PoolWorld := ⟨.new config, []⟩

/-- An operation has begun. -/
def beginning (w : PoolWorld) (operation : Option WorkerPool.PoolOperation) (pool : WorkerPool) :
    PoolWorld :=
  ⟨pool, w.operations ++ operation.toList⟩

/-- **One step**, with what it reads from outside. -/
def step (w : PoolWorld) : PoolStep × PoolInput → Option PoolWorld
  | (.start, input) => some (w.beginning none (w.pool.start input))
  | (.stop, _) =>
    some (if w.pool.running then w.beginning (some .stopping) { w.pool with running := false }
      else w)
  | (.scaleUp count, input) => some (w.beginning none (w.pool.scaleUp count input))
  | (.scaleDown count, input) => some (w.beginning none (w.pool.scaleDown count input))
  | (.scalingDecision, input) => some (w.beginning (w.pool.scalingSection input) w.pool)
  | (.healthCheck, input) =>
    some (w.beginning (some (.checking (w.pool.healthSection input).1))
      (w.pool.healthSection input).2)
  | (.proceed index, input) =>
    (w.operations[index]?).map (fun operation =>
      let r := w.pool.proceed input operation
      ⟨r.2, w.operations.take index ++ r.1.toList ++ w.operations.drop (index + 1)⟩)

end PoolWorld

end JobOrchestrator
