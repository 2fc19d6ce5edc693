import JobOrchestrator.Core.Codec
import JobOrchestrator.Core.Config

/-!
# The configuration and its dictionaries

`OrchestratorConfig.from_dict` and `to_dict` of `core/config.py`, with the eight
sections. Reading repeats the defaults of the dataclasses key by key, and
writing is a second list of the keys.

What the two should come to is said without either: `defaults` is the dictionary
of the default configuration, written out, and an overlay keeps the entries of
one dictionary and replaces those that another one has. A section is read as an
overlay of its defaults, and the whole of the sections is one of `defaults`.

The dataclasses check no types, so a field holds the value the dictionary gave.
-/

namespace JobOrchestrator

/-! ## Overlays -/

namespace Dict

/-- **The overlay of a dictionary**: its entries, with the values that are given. -/
def overlay (base given : Dict) : Dict := base.map (fun e => (e.1, given.getD e.1 e.2))

/-- The value of a section after an overlay: a dictionary is overlaid in its turn, and
anything else is replaced. -/
def overlaid (old : Value) : Option Value → Value
  | none => old
  | some value =>
    match old, value with
    | .dict base, .dict given => .dict (overlay base given)
    | _, value => value

/-- **The overlay of a dictionary of sections.** A section that is there is overlaid entry by
entry with what the dictionary has under its name, everything else is replaced. -/
def overlaySections (base given : Dict) : Dict :=
  base.map (fun e => (e.1, overlaid e.2 (given.lookup e.1)))

/-- Every value changed by what its key says. -/
def mapValues (f : String → Value → Value) (data : Dict) : Dict :=
  data.map (fun e => (e.1, f e.1 e.2))

/-- An entry of a section. -/
def valueAt (data : Dict) (name key : String) : Option Value :=
  match data.lookup name with
  | some (.dict entries) => entries.lookup key
  | _ => none

theorem lookup_mapValues (f : String → Value → Value) (data : Dict) (key : String) :
    (data.mapValues f).lookup key = (data.lookup key).map (f key) := by
  induction data with
  | nil => rfl
  | cons e data ih =>
    obtain ⟨k, v⟩ := e
    rw [mapValues, List.map_cons, List.lookup_cons, List.lookup_cons]
    cases hk : key == k with
    | true =>
      rw [beq_iff_eq] at hk
      rw [hk]
      rfl
    | false => exact ih

/-- **What an overlay says of a key**: the value that is given, where the key is one of its own. -/
theorem lookup_overlay (base given : Dict) (key : String) :
    (base.overlay given).lookup key = (base.lookup key).map ((given.lookup key).getD) :=
  lookup_mapValues (fun key old => given.getD key old) base key

theorem lookup_overlaySections (base given : Dict) (name : String) :
    (base.overlaySections given).lookup name
      = (base.lookup name).map (fun old => overlaid old (given.lookup name)) :=
  lookup_mapValues (fun name old => overlaid old (given.lookup name)) base name

/-- **What it says of an entry of a section**, where both have a dictionary there. -/
theorem valueAt_overlaySections {base given : Dict} {name : String} {old : Dict}
    (known : base.lookup name = some (.dict old))
    (dicts : ∀ value, given.lookup name = some value → ∃ entries, value = .dict entries)
    (key : String) :
    (base.overlaySections given).valueAt name key
      = (base.valueAt name key).map ((given.valueAt name key).getD) := by
  unfold valueAt
  rw [lookup_overlaySections, known]
  cases hgiven : given.lookup name with
  | none =>
    show old.lookup key = (old.lookup key).map _
    cases old.lookup key <;> rfl
  | some value =>
    obtain ⟨entries, rfl⟩ := dicts value hgiven
    exact lookup_overlay old entries key

end Dict

/-- `value.lower()` of a string in ASCII letters. -/
def Value.lower : Value → Value
  | .str s => .str s.toLower
  | value => value

/-! ## The sections -/

namespace OrchestratorConfig

/-- `WorkerPoolConfig`. -/
structure WorkerPoolConfig where
  minWorkers : Value := .int 2
  maxWorkers : Value := .int 10
  workerType : Value := .str "thread"
  scaleUpThreshold : Value := .float (4 / 5)
  scaleDownThreshold : Value := .float (1 / 5)
  scaleInterval : Value := .float 10
  heartbeatInterval : Value := .float 5
  workerTimeout : Value := .float 300

/-- A priority, or what is in the place of one. -/
inductive PriorityField
  | member (priority : JobPriority)
  | other (value : Value)

/-- `QueueConfig`. -/
structure QueueConfig where
  maxSize : Value := .none
  defaultPriority : PriorityField := .member .normal

/-- `RetryConfig`, with whatever the dictionary gave. -/
structure RetryConfig where
  maxRetries : Value := .int 3
  baseDelay : Value := .float 1
  maxDelay : Value := .float 300
  exponentialBase : Value := .float 2
  jitter : Value := .bool true

/-- `DeadLetterQueueConfig`. -/
structure DeadLetterQueueConfig where
  enabled : Value := .bool true
  maxSize : Value := .int 10000
  autoCleanupDays : Value := .int 7

/-- `StorageConfig`. -/
structure StorageConfig where
  backend : Value := .str "memory"
  redisUrl : Value := .none
  redisPrefix : Value := .str "job_orchestrator:"
  postgresqlUrl : Value := .none
  postgresqlPoolSize : Value := .int 5

/-- `LockConfig`. -/
structure LockConfig where
  backend : Value := .str "memory"
  defaultTimeout : Value := .float 30
  defaultExpiry : Value := .float 60

/-- `LoggingConfig`. -/
structure LoggingConfig where
  level : Value := .str "INFO"
  format : Value := .str "%(asctime)s - %(name)s - %(levelname)s - %(message)s"
  logFile : Value := .none

/-- `MetricsConfig`. -/
structure MetricsConfig where
  enabled : Value := .bool true
  exportInterval : Value := .float 60
  prometheusPort : Value := .none

end OrchestratorConfig

/-- **`OrchestratorConfig`**. The fields of the sections hold whatever values the dictionary had
for them: `from_dict` checks no type. -/
structure OrchestratorConfig where
  workerPool : OrchestratorConfig.WorkerPoolConfig := {}
  queue : OrchestratorConfig.QueueConfig := {}
  retry : OrchestratorConfig.RetryConfig := {}
  dlq : OrchestratorConfig.DeadLetterQueueConfig := {}
  storage : OrchestratorConfig.StorageConfig := {}
  lock : OrchestratorConfig.LockConfig := {}
  logging : OrchestratorConfig.LoggingConfig := {}
  metrics : OrchestratorConfig.MetricsConfig := {}
  jobTimeout : Value := .float 3600
  gracefulShutdownTimeout : Value := .float 30

namespace OrchestratorConfig

/-- **The dictionary of the default configuration**: every section and every key that is known,
with its default. -/
def defaults : Dict :=
  [("worker_pool", .dict
      [("min_workers", .int 2),
        ("max_workers", .int 10),
        ("worker_type", .str "thread"),
        ("scale_up_threshold", .float (4 / 5)),
        ("scale_down_threshold", .float (1 / 5)),
        ("scale_interval", .float 10),
        ("heartbeat_interval", .float 5),
        ("worker_timeout", .float 300)]),
    ("queue", .dict
      [("max_size", .none),
        ("default_priority", .str "normal")]),
    ("retry", .dict
      [("max_retries", .int 3),
        ("base_delay", .float 1),
        ("max_delay", .float 300),
        ("exponential_base", .float 2),
        ("jitter", .bool true)]),
    ("dlq", .dict
      [("enabled", .bool true),
        ("max_size", .int 10000),
        ("auto_cleanup_days", .int 7)]),
    ("storage", .dict
      [("backend", .str "memory"),
        ("redis_url", .none),
        ("redis_prefix", .str "job_orchestrator:"),
        ("postgresql_url", .none),
        ("postgresql_pool_size", .int 5)]),
    ("lock", .dict
      [("backend", .str "memory"),
        ("default_timeout", .float 30),
        ("default_expiry", .float 60)]),
    ("logging", .dict
      [("level", .str "INFO"),
        ("format", .str "%(asctime)s - %(name)s - %(levelname)s - %(message)s"),
        ("log_file", .none)]),
    ("metrics", .dict
      [("enabled", .bool true),
        ("export_interval", .float 60),
        ("prometheus_port", .none)]),
    ("job_timeout", .float 3600),
    ("graceful_shutdown_timeout", .float 30)]

/-! ### Reading and writing a section -/

namespace WorkerPoolConfig

/-- The section `worker_pool` as `from_dict` reads it. -/
def fromDict (data : Dict) : WorkerPoolConfig where
  minWorkers := data.getD "min_workers" (.int 2)
  maxWorkers := data.getD "max_workers" (.int 10)
  workerType := data.getD "worker_type" (.str "thread")
  scaleUpThreshold := data.getD "scale_up_threshold" (.float (4 / 5))
  scaleDownThreshold := data.getD "scale_down_threshold" (.float (1 / 5))
  scaleInterval := data.getD "scale_interval" (.float 10)
  heartbeatInterval := data.getD "heartbeat_interval" (.float 5)
  workerTimeout := data.getD "worker_timeout" (.float 300)

/-- The section as `to_dict` writes it. -/
def toDict (c : WorkerPoolConfig) : Dict :=
  [("min_workers", c.minWorkers),
    ("max_workers", c.maxWorkers),
    ("worker_type", c.workerType),
    ("scale_up_threshold", c.scaleUpThreshold),
    ("scale_down_threshold", c.scaleDownThreshold),
    ("scale_interval", c.scaleInterval),
    ("heartbeat_interval", c.heartbeatInterval),
    ("worker_timeout", c.workerTimeout)]

theorem toDict_fromDict (data : Dict) :
    (fromDict data).toDict = (toDict {}).overlay data := rfl

theorem fromDict_toDict (c : WorkerPoolConfig) : fromDict c.toDict = c := by
  simp [fromDict, toDict, Dict.getD, List.lookup_cons]

end WorkerPoolConfig

/-- `priority_map`. -/
def priorityMap : List (String × JobPriority) :=
  [("critical", .critical), ("high", .high), ("normal", .normal), ("low", .low),
    ("background", .background)]

/-- What `from_dict` makes of a priority: a string is looked up, and one that is not found is
`NORMAL`. -/
def readPriority : Value → PriorityField
  | .str s => .member ((priorityMap.lookup s.toLower).getD .normal)
  | value => .other value

namespace QueueConfig

/-- The section `queue`. -/
def fromDict (data : Dict) : QueueConfig where
  maxSize := data.getD "max_size" .none
  defaultPriority := readPriority (data.getD "default_priority" (.str "normal"))

/-- The section as it is written; what is no priority has no name, and raises. -/
def toDict (c : QueueConfig) : Option Dict :=
  match c.defaultPriority with
  | .member priority =>
    some [("max_size", c.maxSize), ("default_priority", .str priority.name.toLower)]
  | .other _ => none

end QueueConfig

namespace RetryConfig

/-- The section `retry`. -/
def fromDict (data : Dict) : RetryConfig where
  maxRetries := data.getD "max_retries" (.int 3)
  baseDelay := data.getD "base_delay" (.float 1)
  maxDelay := data.getD "max_delay" (.float 300)
  exponentialBase := data.getD "exponential_base" (.float 2)
  jitter := data.getD "jitter" (.bool true)

/-- The section as it is written. -/
def toDict (c : RetryConfig) : Dict :=
  [("max_retries", c.maxRetries),
    ("base_delay", c.baseDelay),
    ("max_delay", c.maxDelay),
    ("exponential_base", c.exponentialBase),
    ("jitter", c.jitter)]

theorem toDict_fromDict (data : Dict) :
    (fromDict data).toDict = (toDict {}).overlay data := rfl

theorem fromDict_toDict (c : RetryConfig) : fromDict c.toDict = c := by
  simp [fromDict, toDict, Dict.getD, List.lookup_cons]

/-- The retry configuration of the annotated types, as a loaded one. -/
def ofTyped (c : JobOrchestrator.RetryConfig) : RetryConfig where
  maxRetries := .int c.maxRetries
  baseDelay := .float c.baseDelay
  maxDelay := .float c.maxDelay
  exponentialBase := .float c.exponentialBase
  jitter := .bool c.jitter

/-- A configuration without a `retry` section has the defaults of the annotated types. -/
example : ofTyped {} = {} := rfl

end RetryConfig

namespace DeadLetterQueueConfig

/-- The section `dlq`. -/
def fromDict (data : Dict) : DeadLetterQueueConfig where
  enabled := data.getD "enabled" (.bool true)
  maxSize := data.getD "max_size" (.int 10000)
  autoCleanupDays := data.getD "auto_cleanup_days" (.int 7)

/-- The section as it is written. -/
def toDict (c : DeadLetterQueueConfig) : Dict :=
  [("enabled", c.enabled),
    ("max_size", c.maxSize),
    ("auto_cleanup_days", c.autoCleanupDays)]

theorem toDict_fromDict (data : Dict) :
    (fromDict data).toDict = (toDict {}).overlay data := rfl

theorem fromDict_toDict (c : DeadLetterQueueConfig) : fromDict c.toDict = c := by
  simp [fromDict, toDict, Dict.getD, List.lookup_cons]

end DeadLetterQueueConfig

namespace StorageConfig

/-- The section `storage`. -/
def fromDict (data : Dict) : StorageConfig where
  backend := data.getD "backend" (.str "memory")
  redisUrl := data.getD "redis_url" .none
  redisPrefix := data.getD "redis_prefix" (.str "job_orchestrator:")
  postgresqlUrl := data.getD "postgresql_url" .none
  postgresqlPoolSize := data.getD "postgresql_pool_size" (.int 5)

/-- The section as it is written. -/
def toDict (c : StorageConfig) : Dict :=
  [("backend", c.backend),
    ("redis_url", c.redisUrl),
    ("redis_prefix", c.redisPrefix),
    ("postgresql_url", c.postgresqlUrl),
    ("postgresql_pool_size", c.postgresqlPoolSize)]

theorem toDict_fromDict (data : Dict) :
    (fromDict data).toDict = (toDict {}).overlay data := rfl

theorem fromDict_toDict (c : StorageConfig) : fromDict c.toDict = c := by
  simp [fromDict, toDict, Dict.getD, List.lookup_cons]

end StorageConfig

namespace LockConfig

/-- The section `lock`. -/
def fromDict (data : Dict) : LockConfig where
  backend := data.getD "backend" (.str "memory")
  defaultTimeout := data.getD "default_timeout" (.float 30)
  defaultExpiry := data.getD "default_expiry" (.float 60)

/-- The section as it is written. -/
def toDict (c : LockConfig) : Dict :=
  [("backend", c.backend),
    ("default_timeout", c.defaultTimeout),
    ("default_expiry", c.defaultExpiry)]

theorem toDict_fromDict (data : Dict) :
    (fromDict data).toDict = (toDict {}).overlay data := rfl

theorem fromDict_toDict (c : LockConfig) : fromDict c.toDict = c := by
  simp [fromDict, toDict, Dict.getD, List.lookup_cons]

end LockConfig

namespace LoggingConfig

/-- The section `logging`; the default of the format is taken from the dataclass. -/
def fromDict (data : Dict) : LoggingConfig where
  level := data.getD "level" (.str "INFO")
  format := data.getD "format" ({} : LoggingConfig).format
  logFile := data.getD "log_file" .none

/-- The section as it is written. -/
def toDict (c : LoggingConfig) : Dict :=
  [("level", c.level),
    ("format", c.format),
    ("log_file", c.logFile)]

theorem toDict_fromDict (data : Dict) :
    (fromDict data).toDict = (toDict {}).overlay data := rfl

theorem fromDict_toDict (c : LoggingConfig) : fromDict c.toDict = c := by
  simp [fromDict, toDict, Dict.getD, List.lookup_cons]

end LoggingConfig

namespace MetricsConfig

/-- The section `metrics`. -/
def fromDict (data : Dict) : MetricsConfig where
  enabled := data.getD "enabled" (.bool true)
  exportInterval := data.getD "export_interval" (.float 60)
  prometheusPort := data.getD "prometheus_port" .none

/-- The section as it is written. -/
def toDict (c : MetricsConfig) : Dict :=
  [("enabled", c.enabled),
    ("export_interval", c.exportInterval),
    ("prometheus_port", c.prometheusPort)]

theorem toDict_fromDict (data : Dict) :
    (fromDict data).toDict = (toDict {}).overlay data := rfl

theorem fromDict_toDict (c : MetricsConfig) : fromDict c.toDict = c := by
  simp [fromDict, toDict, Dict.getD, List.lookup_cons]

end MetricsConfig

/-! ### The priority -/

/-- The values of a `queue` section as `to_dict` writes them: a name of a priority is in lower
case. -/
def writtenQueue (key : String) (value : Value) : Value :=
  if key = "default_priority" then value.lower else value

/-- The values of a configuration dictionary as `to_dict` writes them. -/
def writtenValue (name : String) : Value → Value
  | .dict given => if name = "queue" then .dict (Dict.mapValues writtenQueue given) else .dict given
  | value => value

/-- The dictionary with the name of the default priority in lower case. -/
def written (data : Dict) : Dict := data.mapValues writtenValue

/-- `priority.name.lower()`. -/
def lowerName : JobPriority → String
  | .critical => "critical"
  | .high => "high"
  | .normal => "normal"
  | .low => "low"
  | .background => "background"

theorem toLower_name (p : JobPriority) : p.name.toLower = lowerName p := by
  cases p <;> decide +kernel

theorem toLower_lowerName (p : JobPriority) : (lowerName p).toLower = lowerName p := by
  cases p <;> decide +kernel

/-- **A name of a priority is read in any letter case.** -/
theorem readPriority_str {text : String} {p : JobPriority} (h : text.toLower = lowerName p) :
    readPriority (.str text) = .member p := by
  rw [readPriority, h]
  cases p <;> rfl

namespace QueueConfig

theorem toDict_member (maxSize : Value) (p : JobPriority) :
    toDict ⟨maxSize, .member p⟩
      = some [("max_size", maxSize), ("default_priority", .str (lowerName p))] := by
  rw [← toLower_name]
  rfl

/-- What a `queue` section says of the priority, and what is read from it. -/
theorem exists_priority {data : Dict} (named : ∀ value,
      data.lookup "default_priority" = some value →
        ∃ (p : JobPriority) (text : String), value = .str text ∧ text.toLower = lowerName p) :
    ∃ p : JobPriority, fromDict data = ⟨data.getD "max_size" .none, .member p⟩
      ∧ (data.mapValues writtenQueue).getD "default_priority" (.str (lowerName .normal))
        = .str (lowerName p) := by
  have hwritten := Dict.lookup_mapValues writtenQueue data "default_priority"
  have hdefault := readPriority_str (toLower_lowerName .normal)
  cases hlookup : data.lookup "default_priority" with
  | none =>
    rw [hlookup] at hwritten
    refine ⟨.normal, ?_, by rw [Dict.getD, hwritten]; rfl⟩
    rw [fromDict, Dict.getD, Dict.getD, hlookup]
    exact congrArg (QueueConfig.mk _) hdefault
  | some value =>
    obtain ⟨p, text, rfl, htext⟩ := named value hlookup
    rw [hlookup] at hwritten
    refine ⟨p, ?_, ?_⟩
    · rw [fromDict, Dict.getD, Dict.getD, hlookup, Option.getD_some, readPriority_str htext]
    · rw [Dict.getD, hwritten, ← htext]
      rfl

/-- **The section `queue` is an overlay too**, where its priority is a name of one. -/
theorem toDict_fromDict {data : Dict} (named : ∀ value,
      data.lookup "default_priority" = some value →
        ∃ (p : JobPriority) (text : String), value = .str text ∧ text.toLower = lowerName p) :
    (fromDict data).toDict
      = (toDict {}).map (fun base => base.overlay (data.mapValues writtenQueue)) := by
  have hsize : (data.mapValues writtenQueue).getD "max_size" .none
      = data.getD "max_size" .none := by
    rw [Dict.getD, Dict.lookup_mapValues, Dict.getD]
    cases data.lookup "max_size" <;> rfl
  obtain ⟨p, hread, hname⟩ := exists_priority named
  rw [hread, toDict_member, toDict_member, Option.map_some, Dict.overlay, List.map_cons,
    List.map_cons, List.map_nil, hsize, hname]

theorem fromDict_toDict {c : QueueConfig} {data : Dict} (h : c.toDict = some data) :
    fromDict data = c := by
  obtain ⟨maxSize, p | value⟩ := c
  · rw [toDict_member, Option.some.injEq] at h
    have hread := readPriority_str (toLower_lowerName p)
    rw [← h]
    simp [fromDict, Dict.getD, List.lookup_cons, hread]
  · cases h

end QueueConfig

/-! ### The whole configuration -/

/-- A section of the dictionary: the defaults where it is absent, and an exception where it is
no dictionary. -/
def readSection {α : Type} (read : Dict → α) (data : Dict) (name : String) (default : α) :
    Option α :=
  match data.lookup name with
  | none => some default
  | some value => value.asDict.map read

/-- **`OrchestratorConfig.from_dict`**. -/
def fromDict (data : Dict) : Option OrchestratorConfig := do
  let workerPool ← readSection WorkerPoolConfig.fromDict data "worker_pool" {}
  let queue ← readSection QueueConfig.fromDict data "queue" {}
  let retry ← readSection RetryConfig.fromDict data "retry" {}
  let dlq ← readSection DeadLetterQueueConfig.fromDict data "dlq" {}
  let storage ← readSection StorageConfig.fromDict data "storage" {}
  let lock ← readSection LockConfig.fromDict data "lock" {}
  let logging ← readSection LoggingConfig.fromDict data "logging" {}
  let metrics ← readSection MetricsConfig.fromDict data "metrics" {}
  return {
    workerPool := workerPool
    queue := queue
    retry := retry
    dlq := dlq
    storage := storage
    lock := lock
    logging := logging
    metrics := metrics
    jobTimeout := data.getD "job_timeout" ({} : OrchestratorConfig).jobTimeout
    gracefulShutdownTimeout :=
      data.getD "graceful_shutdown_timeout" ({} : OrchestratorConfig).gracefulShutdownTimeout }

/-- **`OrchestratorConfig.to_dict`**. -/
def toDict (c : OrchestratorConfig) : Option Dict := do
  let queue ← c.queue.toDict
  return [("worker_pool", .dict c.workerPool.toDict),
    ("queue", .dict queue),
    ("retry", .dict c.retry.toDict),
    ("dlq", .dict c.dlq.toDict),
    ("storage", .dict c.storage.toDict),
    ("lock", .dict c.lock.toDict),
    ("logging", .dict c.logging.toDict),
    ("metrics", .dict c.metrics.toDict),
    ("job_timeout", c.jobTimeout),
    ("graceful_shutdown_timeout", c.gracefulShutdownTimeout)]

/-- The names of the sections. -/
def sectionNames : List String :=
  ["worker_pool", "queue", "retry", "dlq", "storage", "lock", "logging", "metrics"]

/-- **A partial configuration dictionary**: its sections are dictionaries, and its default
priority is a name of a priority in any letter case. -/
structure Partial (data : Dict) : Prop where
  sections : ∀ name ∈ sectionNames, ∀ value, data.lookup name = some value →
    ∃ given, value = .dict given
  named : ∀ given value, data.lookup "queue" = some (.dict given) →
    given.lookup "default_priority" = some value →
      ∃ (p : JobPriority) (text : String), value = .str text ∧ text.toLower = lowerName p

/-- **A section is read as an overlay of its defaults.** -/
theorem exists_readSection {α : Type} {read : Dict → α} {write : α → Dict} (default : α)
    {data : Dict} {name : String}
    (overlays : ∀ given, write (read given) = (write default).overlay given)
    (dicts : ∀ value, data.lookup name = some value → ∃ given, value = .dict given) :
    ∃ c, readSection read data name default = some c
      ∧ Value.dict (write c) = Dict.overlaid (.dict (write default)) (data.lookup name) := by
  rw [readSection]
  cases hlookup : data.lookup name with
  | none => exact ⟨default, rfl, rfl⟩
  | some value =>
    obtain ⟨given, rfl⟩ := dicts value hlookup
    exact ⟨read given, rfl, congrArg Value.dict (overlays given)⟩

/-- A section is read back as it was written. -/
theorem readSection_of_lookup {α : Type} {read : Dict → α} {default c : α} {data given : Dict}
    {name : String} (h : data.lookup name = some (.dict given)) (back : read given = c) :
    readSection read data name default = some c := by
  rw [readSection, h]
  exact congrArg some back

/-- What is not the queue's is written as it is. -/
theorem lookup_written {data : Dict} {name : String} (other : name ≠ "queue") :
    (written data).lookup name = data.lookup name := by
  rw [written, Dict.lookup_mapValues]
  cases data.lookup name with
  | none => rfl
  | some value =>
    refine congrArg some ?_
    unfold writtenValue
    split
    · exact if_neg other
    · rfl

/-- The queue's section is read as an overlay, too. -/
theorem exists_readQueue {data : Dict} (h : Partial data) :
    ∃ c base entries, readSection QueueConfig.fromDict data "queue" {} = some c
      ∧ ({} : QueueConfig).toDict = some base ∧ c.toDict = some entries
      ∧ Value.dict entries = Dict.overlaid (.dict base) ((written data).lookup "queue") := by
  have hbase := QueueConfig.toDict_member .none .normal
  rw [readSection, written, Dict.lookup_mapValues]
  cases hlookup : data.lookup "queue" with
  | none => exact ⟨{}, _, _, rfl, hbase, hbase, rfl⟩
  | some value =>
    obtain ⟨given, rfl⟩ := h.sections "queue" (by decide) value hlookup
    have hread := QueueConfig.toDict_fromDict (fun value => h.named given value hlookup)
    rw [hbase, Option.map_some] at hread
    exact ⟨_, _, _, rfl, hbase, hread, rfl⟩

/-- A value that is no section is replaced as a whole by the one the dictionary has for its key,
if it has one. -/
theorem overlaid_float (q : ℚ) (data : Dict) (key : String) :
    Dict.overlaid (.float q) (data.lookup key) = data.getD key (.float q) := by
  rw [Dict.getD]
  cases data.lookup key <;> rfl

/-- **Decoding is an overlay.** The dictionary of what is decoded is that of the default
configuration, with the entries of the given one. -/
theorem toDict_fromDict {data : Dict} (h : Partial data) :
    ∃ config, fromDict data = some config
      ∧ config.toDict = (toDict {}).map (fun base => base.overlaySections (written data)) := by
  obtain ⟨workerPool, hworkerPool, hwp⟩ := exists_readSection ({} : WorkerPoolConfig)
    WorkerPoolConfig.toDict_fromDict (h.sections "worker_pool" (by decide))
  obtain ⟨queue, base, entries, hqueue, hbase, hentries, hq⟩ := exists_readQueue h
  obtain ⟨retry, hretry, hr⟩ := exists_readSection ({} : RetryConfig)
    RetryConfig.toDict_fromDict (h.sections "retry" (by decide))
  obtain ⟨dlq, hdlq, hd⟩ := exists_readSection ({} : DeadLetterQueueConfig)
    DeadLetterQueueConfig.toDict_fromDict (h.sections "dlq" (by decide))
  obtain ⟨storage, hstorage, hs⟩ := exists_readSection ({} : StorageConfig)
    StorageConfig.toDict_fromDict (h.sections "storage" (by decide))
  obtain ⟨lock, hlock, hl⟩ := exists_readSection ({} : LockConfig)
    LockConfig.toDict_fromDict (h.sections "lock" (by decide))
  obtain ⟨logging, hlogging, hlog⟩ := exists_readSection ({} : LoggingConfig)
    LoggingConfig.toDict_fromDict (h.sections "logging" (by decide))
  obtain ⟨metrics, hmetrics, hm⟩ := exists_readSection ({} : MetricsConfig)
    MetricsConfig.toDict_fromDict (h.sections "metrics" (by decide))
  have hread : fromDict data = some
      { workerPool := workerPool
        queue := queue
        retry := retry
        dlq := dlq
        storage := storage
        lock := lock
        logging := logging
        metrics := metrics
        jobTimeout := data.getD "job_timeout" (.float 3600)
        gracefulShutdownTimeout := data.getD "graceful_shutdown_timeout" (.float 30) } := by
    rw [fromDict, hworkerPool, hqueue, hretry, hdlq, hstorage, hlock, hlogging, hmetrics]
    rfl
  refine ⟨_, hread, ?_⟩
  simp only [toDict, hentries, hbase, hwp, hr, hd, hs, hl, hlog, hm, ← overlaid_float]
  show some _ = some (Dict.overlaySections _ (written data))
  simp only [Dict.overlaySections, List.map_cons, List.map_nil]
  rw [← hq]
  iterate 9 rw [lookup_written (by decide)]

/-- **A written configuration is read back.** All the fields are written, under the keys that
`from_dict` reads them from. -/
theorem fromDict_toDict {c : OrchestratorConfig} {data : Dict} (h : c.toDict = some data) :
    fromDict data = some c := by
  obtain ⟨queue, hqueue, hdata⟩ := Option.bind_eq_some_iff.mp h
  obtain rfl := Option.some.inj hdata
  rw [fromDict, readSection_of_lookup rfl c.workerPool.fromDict_toDict,
    readSection_of_lookup rfl (QueueConfig.fromDict_toDict hqueue),
    readSection_of_lookup rfl c.retry.fromDict_toDict,
    readSection_of_lookup rfl c.dlq.fromDict_toDict,
    readSection_of_lookup rfl c.storage.fromDict_toDict,
    readSection_of_lookup rfl c.lock.fromDict_toDict,
    readSection_of_lookup rfl c.logging.fromDict_toDict,
    readSection_of_lookup rfl c.metrics.fromDict_toDict]
  rfl

/-- The default configuration is written as it should be. -/
theorem toDict_default : toDict {} = some defaults := by
  unfold toDict
  rw [show ({} : OrchestratorConfig).queue.toDict = _ from QueueConfig.toDict_member .none .normal]
  rfl

/-- Sections stay dictionaries when the name of the priority is put in lower case. -/
theorem Partial.written {data : Dict} (h : Partial data) {name : String}
    (known : name ∈ sectionNames) (value : Value)
    (given : (OrchestratorConfig.written data).lookup name = some value) :
    ∃ entries, value = .dict entries := by
  rw [OrchestratorConfig.written, Dict.lookup_mapValues, Option.map_eq_some_iff] at given
  obtain ⟨old, hold, rfl⟩ := given
  obtain ⟨entries, rfl⟩ := h.sections name known old hold
  unfold writtenValue
  simp only
  split <;> exact ⟨_, rfl⟩

/-- **Exactly the given entries are replaced**: each known entry of a section, and each known value
beside the sections, has the value that was given, or else its default, and there is nothing
else. -/
structure Replaces (data entries : Dict) : Prop where
  keys : entries.map Prod.fst = defaults.map Prod.fst
  sections : ∀ name ∈ sectionNames, ∀ key, entries.valueAt name key
    = (defaults.valueAt name key).map (((written data).valueAt name key).getD)
  others : ∀ name, name ∉ sectionNames → entries.lookup name
    = (defaults.lookup name).map ((data.lookup name).getD)

theorem replaces_overlaySections {data : Dict} (h : Partial data) :
    Replaces data (defaults.overlaySections (written data)) where
  keys := by
    rw [Dict.overlaySections, List.map_map]
    rfl
  sections name known key := by
    obtain ⟨old, hold⟩ : ∃ old, defaults.lookup name = some (.dict old) := by
      simp only [sectionNames, List.mem_cons, List.not_mem_nil, or_false] at known
      rcases known with rfl | rfl | rfl | rfl | rfl | rfl | rfl | rfl <;> exact ⟨_, rfl⟩
    exact Dict.valueAt_overlaySections hold (h.written known) key
  others name other := by
    have hqueue : name ≠ "queue" := fun heq => other (heq ▸ by decide)
    rw [Dict.lookup_overlaySections, lookup_written hqueue]
    cases hold : defaults.lookup name with
    | none => rfl
    | some old =>
      -- the only values beside the sections are the two timeouts
      obtain ⟨q, rfl⟩ : ∃ q, old = .float q := by
        have hmem : (name, old) ∈ defaults := by
          obtain ⟨before, after, heq, -⟩ := List.lookup_eq_some_iff.mp hold
          rw [heq]
          exact List.mem_append_right before List.mem_cons_self
        simp only [defaults, List.mem_cons, Prod.mk.injEq, List.not_mem_nil, or_false] at hmem
        rcases hmem with ⟨rfl, -⟩ | ⟨rfl, -⟩ | ⟨rfl, -⟩ | ⟨rfl, -⟩ | ⟨rfl, -⟩ | ⟨rfl, -⟩ |
          ⟨rfl, -⟩ | ⟨rfl, -⟩ | ⟨-, rfl⟩ | ⟨-, rfl⟩ <;>
            first | exact ⟨_, rfl⟩ | exact absurd (by decide) other
      rw [Option.map_some, Option.map_some, overlaid_float]
      rfl

/-- **The configuration is an overlay of the defaults, and survives its dictionary.** The default
configuration has the dictionary of all known keys with their defaults. For every partial
configuration dictionary, what is decoded has this dictionary with exactly the given entries
replaced, the name of the priority in lower case. And every configuration whose default priority
is one has a dictionary, from which a configuration with the same dictionary is decoded. -/
theorem overlay_and_round_trip :
    toDict {} = some defaults
      ∧ (∀ data, Partial data → ∃ config entries, fromDict data = some config
        ∧ config.toDict = some entries ∧ entries = defaults.overlaySections (written data)
        ∧ Replaces data entries)
      ∧ ∀ (c : OrchestratorConfig) (p : JobPriority), c.queue.defaultPriority = .member p →
        ∃ config data, c.toDict = some data ∧ fromDict data = some config
          ∧ config.toDict = some data := by
  refine ⟨toDict_default, fun data h => ?_, fun c p hp => ?_⟩
  · obtain ⟨config, hread, hwritten⟩ := toDict_fromDict h
    rw [toDict_default, Option.map_some] at hwritten
    exact ⟨config, _, hread, hwritten, rfl, replaces_overlaySections h⟩
  · have hqueue : ∃ queue, c.queue.toDict = some queue := by
      unfold QueueConfig.toDict
      rw [hp]
      exact ⟨_, rfl⟩
    obtain ⟨queue, hqueue⟩ := hqueue
    obtain ⟨data, hdata⟩ : ∃ data, c.toDict = some data := by
      unfold toDict
      rw [hqueue]
      exact ⟨_, rfl⟩
    exact ⟨c, data, hdata, fromDict_toDict hdata, hdata⟩

/-- A dictionary with a priority in mixed case, a size of the queue, a timeout of the jobs and
keys that are not known. -/
def mixedCase : Dict :=
  [("queue", .dict [("default_priority", .str "HiGh"), ("max_size", .int 9), ("size", .int 1)]),
    ("job_timeout", .int 5), ("colour", .str "red")]

theorem partial_mixedCase : Partial mixedCase := by
  refine ⟨fun name hname value hvalue => ?_, fun given value hq hv => ?_⟩
  · have hqueue : name = "queue" := by
      simp only [sectionNames, List.mem_cons, List.not_mem_nil, or_false] at hname
      rcases hname with rfl | rfl | rfl | rfl | rfl | rfl | rfl | rfl <;>
        first | rfl | (simp [mixedCase, List.lookup_cons] at hvalue)
    subst hqueue
    cases hvalue
    exact ⟨_, rfl⟩
  · cases hq
    cases hv
    exact ⟨.high, "HiGh", rfl, by decide +kernel⟩

/-- The two known entries of the section are there, and the unknown one is not. -/
theorem overlay_of_mixedCase :
    ∃ config entries, fromDict mixedCase = some config ∧ config.toDict = some entries
      ∧ entries.valueAt "queue" "default_priority" = some (.str "high")
      ∧ entries.valueAt "queue" "max_size" = some (.int 9)
      ∧ entries.valueAt "queue" "size" = none
      ∧ entries.valueAt "retry" "max_retries" = some (.int 3)
      ∧ entries.lookup "job_timeout" = some (.int 5) := by
  obtain ⟨config, entries, hread, hwritten, -, hreplaces⟩ :=
    overlay_and_round_trip.2.1 mixedCase partial_mixedCase
  refine ⟨config, entries, hread, hwritten, ?_, ?_, ?_, ?_, ?_⟩
  · rw [hreplaces.sections "queue" (by decide)]
    exact congrArg (fun text => some (Value.str text))
      (show "HiGh".toLower = "high" by decide +kernel)
  · exact hreplaces.sections "queue" (by decide) "max_size"
  · exact hreplaces.sections "queue" (by decide) "size"
  · exact hreplaces.sections "retry" (by decide) "max_retries"
  · exact hreplaces.others "job_timeout" (by decide)

end OrchestratorConfig

end JobOrchestrator
