import JobOrchestrator.Core.Job

/-!
# Jobs as dictionaries

`Job.to_dict` and `Job.from_dict` of `core/job.py`: two lists of keys, written
by hand, which have to stay in step. The dictionaries are kept as they are, string
keys with values, so that a key that only one of the two lists has is a key
that is looked up and not found.

`FullJob.fromDict_toDict` says what comes back from decoding what was encoded: the
job, but for the function, `retry_count` and the `retry_on` of its policy, and with a
result that is not JSON-like as a string. From it follow both round trips.

The texts of timestamps and identifiers belong to the standard library. They
are the `TextForms`, and what is assumed of them is that the texts of this job's
timestamps and identifiers are read back.
-/

namespace JobOrchestrator

/-! ## Dictionaries -/

/-- A dictionary with string keys, in the order of its keys. -/
abbrev Dict := List (String × Value)

/-- `data.get(key, default)`. -/
def Dict.getD (data : Dict) (key : String) (default : Value) : Value :=
  (data.lookup key).getD default

namespace Value

/-- `bool(value)`. -/
def truthy : Value → Bool
  | none => false
  | bool b => b
  | int i => decide (i ≠ 0)
  | float q => decide (q ≠ 0)
  | str s => decide (s ≠ "")
  | list items => !items.isEmpty
  | dict items => !items.isEmpty
  | object _ => true

/-! A field of a job is of one type, and a value of another is not read into it. -/

def asStr : Value → Option String
  | str s => some s
  | _ => Option.none

def asBool : Value → Option Bool
  | bool b => some b
  | _ => Option.none

def asInt : Value → Option ℤ
  | int i => some i
  | _ => Option.none

def asNat : Value → Option ℕ
  | int (.ofNat n) => some n
  | _ => Option.none

def asFloat : Value → Option ℚ
  | float q => some q
  | _ => Option.none

def asList : Value → Option (List Value)
  | list items => some items
  | _ => Option.none

def asDict : Value → Option Dict
  | dict items => some items
  | _ => Option.none

/-- A value that may be `None`. -/
def asOptional {α : Type} (read : Value → Option α) : Value → Option (Option α)
  | none => some Option.none
  | value => (read value).map some

/-- `None`, or a value that may be it. -/
def ofOption {α : Type} (write : α → Value) : Option α → Value
  | Option.none => none
  | some a => write a

/-- The values `_serialize_result` keeps as they are, JSON-like ones among them. -/
def keepsAsIs : Value → Bool
  | object _ => false
  | _ => true

/-- **`_serialize_result`**, of a result whose `str` succeeds. -/
def serializeResult : Value → Value
  | object text => str text
  | value => value

end Value

/-! ## Enumerations -/

namespace JobState

/-- `JobState(value)`. -/
def ofValue (text : String) : Option JobState :=
  [pending, scheduled, running, completed, failed, retrying, cancelled, timeout].find?
    (fun s => decide (s.value = text))

theorem ofValue_value (s : JobState) : ofValue s.value = some s := by
  cases s <;> decide

end JobState

namespace JobPriority

/-- `JobPriority(value)`. -/
def ofValue (n : ℕ) : Option JobPriority :=
  [critical, high, normal, low, background].find? (fun p => decide (p.value = n))

theorem ofValue_value (p : JobPriority) : ofValue p.value = some p := by
  cases p <;> rfl

/-- `priority.name`. -/
def name : JobPriority → String
  | critical => "CRITICAL"
  | high => "HIGH"
  | normal => "NORMAL"
  | low => "LOW"
  | background => "BACKGROUND"

end JobPriority

/-! ## Retry policies -/

namespace RetryPolicy

/-- **`RetryPolicy.to_dict`**. -/
def toDict (p : RetryPolicy) : Dict :=
  [("max_retries", .int p.maxRetries),
    ("base_delay", .float p.baseDelay),
    ("max_delay", .float p.maxDelay),
    ("exponential_base", .float p.exponentialBase),
    ("jitter", .bool p.jitter)]

/-- **`RetryPolicy.from_dict`**. -/
def fromDict (data : Dict) : Option RetryPolicy := do
  let maxRetries ← (data.getD "max_retries" (.int 3)).asInt
  let baseDelay ← (data.getD "base_delay" (.float 1)).asFloat
  let maxDelay ← (data.getD "max_delay" (.float 300)).asFloat
  let exponentialBase ← (data.getD "exponential_base" (.float 2)).asFloat
  let jitter ← (data.getD "jitter" (.bool true)).asBool
  return {
    maxRetries := maxRetries
    baseDelay := baseDelay
    maxDelay := maxDelay
    exponentialBase := exponentialBase
    jitter := jitter }

/-- A policy comes back with the default for `retry_on`. -/
theorem fromDict_toDict (p : RetryPolicy) :
    fromDict p.toDict = some { p with retryOn := ["Exception"] } := by
  simp [fromDict, toDict, Dict.getD, List.lookup_cons, Value.asInt, Value.asFloat, Value.asBool]

end RetryPolicy

/-! ## Jobs -/

/-- **`Job`, with all its fields.** The scheduler looks at none of the fields added here, which
is why its own `Job` does without them; only the codec has to carry them through. A function
cannot be written to a dictionary: `func` is left behind by `to_dict`, and only its path travels.
-/
structure FullJob extends Job where
  description : String := ""
  /-- The number of a function. -/
  func : Option ℕ := none
  funcPath : String := ""
  args : List Value := []
  kwargs : Dict := []
  timeout : Option ℚ := none
  tags : Dict := []
  metadata : Dict := []

/-- **The texts of the standard library's values.** What the source takes from `datetime` and
`UUID` is a parameter here: the codec is proved for any three functions, under what is assumed of
them where it is needed. -/
structure TextForms where
  /-- `value.isoformat()`. -/
  isoformat : DateTime → String
  /-- `datetime.fromisoformat(text)`, where it does not raise. -/
  fromisoformat : String → Option DateTime
  /-- `UUID(text)`, where it does not raise. -/
  uuid : String → Option UUID

namespace DateTime

/-- `value.astimezone(timezone.utc).replace(tzinfo=None)` of an aware value. -/
def toNaiveUtc (t : DateTime) : DateTime :=
  match t.offset with
  | none => t
  | some offset => ⟨t.clock - offset, none⟩

end DateTime

namespace FullJob

/-- `__post_init__`: the two timestamps a job is constructed with are made naive. -/
def postInit (job : FullJob) : FullJob :=
  { job with
    scheduledAt := job.scheduledAt.map DateTime.toNaiveUtc
    createdAt := job.createdAt.toNaiveUtc }

variable (forms : TextForms)

/-- **`to_dict`**, where the job has a retry policy; it raises where that is `None`. -/
def toDict (job : FullJob) : Option Dict :=
  job.retryPolicy.map (fun policy =>
    [("id", .str job.id.str),
      ("name", .str job.name),
      ("description", .str job.description),
      ("func_path", .str job.funcPath),
      ("args", .list job.args),
      ("kwargs", .dict job.kwargs),
      ("priority", .int job.priority.value),
      ("scheduled_at", .ofOption (fun t => .str (forms.isoformat t)) job.scheduledAt),
      ("timeout", .ofOption .float job.timeout),
      ("state", .str job.state.value),
      ("attempt", .int job.attempt),
      ("depends_on", .list (job.dependsOn.map (fun uid => .str uid.str))),
      ("retry_policy", .dict policy.toDict),
      ("created_at", .str (forms.isoformat job.createdAt)),
      ("started_at", .ofOption (fun t => .str (forms.isoformat t)) job.startedAt),
      ("completed_at", .ofOption (fun t => .str (forms.isoformat t)) job.completedAt),
      ("result", job.result.serializeResult),
      ("error", .ofOption .str job.error),
      ("traceback", .ofOption .str job.traceback),
      ("tags", .dict job.tags),
      ("metadata", .dict job.metadata)])

/-- `UUID(value)`. -/
def readUuid (value : Value) : Option UUID := value.asStr.bind forms.uuid

/-- `datetime.fromisoformat(value)` assigned to a field where the value counts as true: what
the field holds afterwards. -/
def readTimestamp {α : Type} (assign : DateTime → α) (old : α) (value : Value) : Option α :=
  if value.truthy then (value.asStr.bind forms.fromisoformat).map assign else some old

/-- `RetryPolicy.from_dict(value)` in the place of the old policy, where the value counts as
true. -/
def readPolicy (old : Option RetryPolicy) (value : Value) : Option (Option RetryPolicy) :=
  if value.truthy then (value.asDict.bind RetryPolicy.fromDict).map some else some old

/-- The part of `from_dict` that constructs the job, at a reading of the clock. -/
def construct (now : Time) (data : Dict) : Option FullJob := do
  let id ← (data.lookup "id").bind (readUuid forms)
  let name ← (data.getD "name" (.str "")).asStr
  let description ← (data.getD "description" (.str "")).asStr
  let funcPath ← (data.getD "func_path" (.str "")).asStr
  let args ← (data.getD "args" (.list [])).asList
  let kwargs ← (data.getD "kwargs" (.dict [])).asDict
  let priority ← (data.getD "priority" (.int JobPriority.normal.value)).asNat
  let priority ← JobPriority.ofValue priority
  let timeout ← (data.getD "timeout" .none).asOptional Value.asFloat
  let state ← (data.getD "state" (.str JobState.pending.value)).asStr
  let state ← JobState.ofValue state
  let attempt ← (data.getD "attempt" (.int 0)).asNat
  let uids ← (data.getD "depends_on" (.list [])).asList
  let dependsOn ← uids.mapM (readUuid forms)
  let tags ← (data.getD "tags" (.dict [])).asDict
  let metadata ← (data.getD "metadata" (.dict [])).asDict
  return postInit {
    id := id
    name := name
    description := description
    funcPath := funcPath
    args := args
    kwargs := kwargs
    priority := priority
    timeout := timeout
    state := state
    attempt := attempt
    dependsOn := dependsOn
    createdAt := .utcnow now
    tags := tags
    metadata := metadata }

/-- **`from_dict`**. -/
def fromDict (now : Time) (data : Dict) : Option FullJob := do
  let job ← construct forms now data
  let scheduledAt ←
    readTimestamp forms some job.scheduledAt (data.getD "scheduled_at" .none)
  let createdAt ← readTimestamp forms id job.createdAt (data.getD "created_at" .none)
  let startedAt ← readTimestamp forms some job.startedAt (data.getD "started_at" .none)
  let completedAt ←
    readTimestamp forms some job.completedAt (data.getD "completed_at" .none)
  let retryPolicy ← readPolicy job.retryPolicy (data.getD "retry_policy" .none)
  let error ← (data.getD "error" .none).asOptional Value.asStr
  let traceback ← (data.getD "traceback" .none).asOptional Value.asStr
  return {
    job with
    scheduledAt := scheduledAt
    createdAt := createdAt
    startedAt := startedAt
    completedAt := completedAt
    retryPolicy := retryPolicy
    result := data.getD "result" .none
    error := error
    traceback := traceback }

/-! ## What is assumed of the texts -/

/-- The timestamps of a job. -/
def timestamps (job : FullJob) : List DateTime :=
  job.createdAt :: (job.scheduledAt.toList ++ job.startedAt.toList ++ job.completedAt.toList)

/-- **The texts of a job's timestamps and identifiers are read back**, and none is empty. This is
asked of one job only, of the texts that its own dictionary has. That none is empty matters since
`from_dict` takes an empty text for an absent one. -/
structure TextsReadBack (job : FullJob) : Prop where
  uuids : ∀ u ∈ job.id :: job.dependsOn, forms.uuid u.str = some u
  timestamps : ∀ t ∈ job.timestamps,
    forms.fromisoformat (forms.isoformat t) = some t ∧ forms.isoformat t ≠ ""

/-! ## Decoding what was encoded -/

variable {forms}

theorem readTimestamp_str {α : Type} {t : DateTime}
    (h : forms.fromisoformat (forms.isoformat t) = some t ∧ forms.isoformat t ≠ "")
    (assign : DateTime → α) (old : α) :
    readTimestamp forms assign old (.str (forms.isoformat t)) = some (assign t) := by
  unfold readTimestamp
  rw [if_pos (show Value.truthy (.str (forms.isoformat t)) = true from decide_eq_true h.2)]
  show (forms.fromisoformat (forms.isoformat t)).map assign = some (assign t)
  rw [h.1]
  rfl

/-- A timestamp that is not set leaves the field as it was constructed. -/
theorem readTimestamp_ofOption {value : Option DateTime}
    (h : ∀ t ∈ value, forms.fromisoformat (forms.isoformat t) = some t ∧ forms.isoformat t ≠ "") :
    readTimestamp forms some none (.ofOption (fun t => .str (forms.isoformat t)) value)
      = some value := by
  cases value with
  | none => rfl
  | some t => exact readTimestamp_str (h t rfl) some none

theorem readPolicy_dict (policy : RetryPolicy) (old : Option RetryPolicy) :
    readPolicy old (.dict policy.toDict)
      = some (some { policy with retryOn := ["Exception"] }) := by
  unfold readPolicy
  rw [if_pos (show Value.truthy (.dict policy.toDict) = true from rfl)]
  show (RetryPolicy.fromDict policy.toDict).map some = _
  rw [RetryPolicy.fromDict_toDict]
  rfl

theorem mapM_readUuid {uids : List UUID} (h : ∀ u ∈ uids, forms.uuid u.str = some u) :
    (uids.map (fun uid => Value.str uid.str)).mapM (readUuid forms) = some uids := by
  induction uids with
  | nil => rfl
  | cons u uids ih =>
    have hrest := ih (fun u' hu' => h u' (List.mem_cons_of_mem u hu'))
    rw [List.map_cons, List.mapM_cons, hrest]
    show (forms.uuid u.str).bind (fun id => (some uids).bind (fun rest => some (id :: rest))) = _
    rw [h u List.mem_cons_self]
    rfl

/-- What `from_dict` constructs from an encoded job: the fields it does not pass to the
constructor have their defaults. -/
theorem construct_toDict {job : FullJob} {data : Dict} (now : Time)
    (h : job.toDict forms = some data) (texts : TextsReadBack forms job) :
    construct forms now data = some { job with
      func := none
      scheduledAt := none
      createdAt := .utcnow now
      startedAt := none
      completedAt := none
      retryPolicy := some {}
      retryCount := 0
      result := .none
      error := none
      traceback := none } := by
  obtain ⟨policy, -, rfl⟩ := Option.map_eq_some_iff.mp h
  have hid : readUuid forms (.str job.id.str) = some job.id :=
    texts.uuids job.id List.mem_cons_self
  have hdependsOn := mapM_readUuid (fun u hu => texts.uuids u (List.mem_cons_of_mem _ hu))
  have htimeout : ((Value.ofOption Value.float job.timeout).asOptional Value.asFloat)
      = some job.timeout := by
    cases job.timeout <;> rfl
  simp [construct, Dict.getD, List.lookup_cons, hid, hdependsOn, htimeout, Value.asStr,
    Value.asList, Value.asDict, Value.asNat, JobState.ofValue_value, JobPriority.ofValue_value,
    postInit, DateTime.toNaiveUtc, DateTime.utcnow]

/-- What the encoding keeps of a job: all but the function, `retry_count` and the policy's
`retry_on`, and of a result that is not kept as it is, its text. -/
def kept (job : FullJob) : FullJob :=
  { job with
    func := none
    retryCount := 0
    retryPolicy := job.retryPolicy.map (fun policy => { policy with retryOn := ["Exception"] })
    result := job.result.serializeResult }

/-- **Decoding what was encoded gives what the encoding keeps.** -/
theorem fromDict_toDict {job : FullJob} {data : Dict} (now : Time)
    (h : job.toDict forms = some data) (texts : TextsReadBack forms job) :
    fromDict forms now data = some job.kept := by
  have hconstruct := construct_toDict now h texts
  obtain ⟨policy, hpolicy, rfl⟩ := Option.map_eq_some_iff.mp h
  have hread : ∀ value : Option DateTime, (∀ t, value = some t → t ∈ job.timestamps) →
      readTimestamp forms some none (.ofOption (fun t => .str (forms.isoformat t)) value)
        = some value :=
    fun value hmem => readTimestamp_ofOption (fun t ht => texts.timestamps t (hmem t ht))
  have hscheduledAt := hread job.scheduledAt (fun t ht => by simp [timestamps, ht])
  have hstartedAt := hread job.startedAt (fun t ht => by simp [timestamps, ht])
  have hcompletedAt := hread job.completedAt (fun t ht => by simp [timestamps, ht])
  have hcreatedAt := readTimestamp_str (texts.timestamps job.createdAt List.mem_cons_self) id
    (.utcnow now)
  have htext : ∀ text : Option String,
      (Value.ofOption Value.str text).asOptional Value.asStr = some text := by
    rintro (_ | text) <;> rfl
  unfold fromDict
  rw [hconstruct]
  simp [Dict.getD, List.lookup_cons, hscheduledAt, hstartedAt, hcompletedAt, hcreatedAt, htext,
    readPolicy_dict, kept, hpolicy]

/-- A job with a policy is decoded to what its encoding keeps of it: all but the function,
`retry_count` and `retry_on`, and a result that is no JSON value comes back as its text. -/
theorem decoded_eq {job : FullJob} {policy : RetryPolicy} (now : Time)
    (has : job.retryPolicy = some policy) (texts : TextsReadBack forms job) :
    (job.toDict forms).bind (fromDict forms now) = some job.kept := by
  obtain ⟨data, hdata⟩ : ∃ data, job.toDict forms = some data := by
    unfold toDict
    rw [has]
    exact ⟨_, rfl⟩
  rw [hdata]
  exact fromDict_toDict now hdata texts

/-! ## The two round trips -/

theorem serializeResult_serializeResult (value : Value) :
    value.serializeResult.serializeResult = value.serializeResult := by
  cases value <;> rfl

theorem serializeResult_of_keepsAsIs {value : Value} (h : value.keepsAsIs = true) :
    value.serializeResult = value := by
  cases value with
  | object text => cases h
  | _ => rfl

/-- The fields that the encoding drops are exactly those that `kept` sets back, so a second
encoding writes the same dictionary. -/
theorem toDict_kept (forms : TextForms) (job : FullJob) :
    job.kept.toDict forms = job.toDict forms := by
  unfold toDict kept
  cases job.retryPolicy with
  | none => rfl
  | some policy =>
    rw [Option.map_some, Option.map_some, Option.map_some, serializeResult_serializeResult]
    rfl

/-- `to_dict` returns exactly for a job that has a policy. -/
theorem isSome_toDict (forms : TextForms) (job : FullJob) :
    (job.toDict forms).isSome = job.retryPolicy.isSome := by
  unfold toDict
  rw [Option.isSome_map]

/-- **Encoding undoes decoding on what was encoded**, for every job. `to_dict` returns
exactly where the job has a policy; where it raises, because there is none, both sides
raise. -/
theorem toDict_fromDict_toDict (forms : TextForms) (now : Time) (job : FullJob)
    (texts : TextsReadBack forms job) :
    ((job.toDict forms).isSome = job.retryPolicy.isSome)
      ∧ ((job.toDict forms).bind (fromDict forms now)).bind (toDict forms)
        = job.toDict forms := by
  refine ⟨isSome_toDict forms job, ?_⟩
  cases hdata : job.toDict forms with
  | none => rfl
  | some data =>
    show (fromDict forms now data).bind (toDict forms) = some data
    -- The decoded job is what the encoding keeps of `job`, which is encoded the same.
    rw [fromDict_toDict now hdata texts, ← hdata]
    exact toDict_kept forms job

/-- **The condition**: the retry count is zero, and the policy retries on the default. -/
def RetryDefaults (job : FullJob) : Prop :=
  job.retryCount = 0 ∧ ∃ policy, job.retryPolicy = some policy ∧ policy.retryOn = ["Exception"]

/-- What the encoding keeps of a job with a JSON-like result is the job, but for its
function, exactly where the condition holds. -/
theorem kept_eq_iff {job : FullJob} {policy : RetryPolicy} (has : job.retryPolicy = some policy)
    (json : job.result.keepsAsIs = true) :
    { job.kept with func := job.func } = job ↔ RetryDefaults job := by
  have hkept : { job.kept with func := job.func } = { job with
      retryCount := 0
      retryPolicy := some { policy with retryOn := ["Exception"] } } := by
    unfold kept
    rw [has, serializeResult_of_keepsAsIs json]
    rfl
  rw [hkept]
  unfold RetryDefaults
  constructor
  · intro h
    have hcount := congrArg (fun j : FullJob => j.retryCount) h
    have hpolicy := congrArg (fun j : FullJob => j.retryPolicy) h
    refine ⟨hcount.symm, policy, has, ?_⟩
    rw [has, Option.some.injEq] at hpolicy
    exact (congrArg RetryPolicy.retryOn hpolicy).symm
  · rintro ⟨hcount, policy', hpolicy, hretryOn⟩
    rw [has, Option.some.injEq] at hpolicy
    rw [← hcount, hpolicy, ← hretryOn, ← hpolicy, ← has]

/-- **Decoding undoes encoding exactly where the condition holds**, for every job whose
result is kept as it is: the decoded job is the job, but for its function. -/
theorem fromDict_toDict_iff (forms : TextForms) (now : Time) (job : FullJob)
    (texts : TextsReadBack forms job) (json : job.result.keepsAsIs = true) :
    ((job.toDict forms).bind (fromDict forms now)).map
        (fun decoded => { decoded with func := job.func }) = some job
      ↔ RetryDefaults job := by
  cases hpolicy : job.retryPolicy with
  | none =>
    have hdata : job.toDict forms = none := by
      unfold toDict
      rw [hpolicy]
      rfl
    rw [hdata]
    refine ⟨fun h => (by cases h), ?_⟩
    rintro ⟨-, policy, hsome, -⟩
    cases hpolicy.symm.trans hsome
  | some policy =>
    rw [decoded_eq now hpolicy texts, Option.map_some, Option.some.injEq]
    exact kept_eq_iff hpolicy json

/-- The texts of the first second of 1970 and of the identifier 1. -/
def epochForms : TextForms where
  isoformat _ := "1970-01-01T00:00:00"
  fromisoformat text := if text = "1970-01-01T00:00:00" then some ⟨0, none⟩ else none
  uuid text := if text = UUID.str 1 then some 1 else none

/-- A job that was created then, as an object that is not JSON-like returned from it. -/
def epochJob : FullJob := { id := 1, result := .object "(1, 2)" }

theorem textsReadBack_epoch {job : FullJob} (ids : job.id :: job.dependsOn = [1])
    (times : job.timestamps = [⟨0, none⟩]) : TextsReadBack epochForms job where
  uuids u hu := by
    rw [ids, List.mem_singleton] at hu
    rw [hu]
    simp [epochForms]
  timestamps t ht := by
    rw [times, List.mem_singleton] at ht
    rw [ht]
    simp [epochForms]

theorem toDict_fromDict_toDict_epoch :
    (∃ data, epochJob.toDict epochForms = some data)
      ∧ ((epochJob.toDict epochForms).bind (fromDict epochForms 5)).bind (toDict epochForms)
        = epochJob.toDict epochForms :=
  have law := toDict_fromDict_toDict epochForms 5 epochJob (textsReadBack_epoch rfl rfl)
  ⟨Option.isSome_iff_exists.mp (law.1.trans rfl), law.2⟩

theorem fromDict_toDict_iff_epoch :
    ((({ id := 1, attempt := 2 } : FullJob).toDict epochForms).bind (fromDict epochForms 5)).map
        (fun decoded => { decoded with func := none })
      = some { id := 1, attempt := 2 } :=
  (fromDict_toDict_iff epochForms 5 { id := 1, attempt := 2 } (textsReadBack_epoch rfl rfl)
    rfl).mpr ⟨rfl, {}, rfl, rfl⟩

/-- **The retry count and the exceptions to retry on are lost**: they come back as 0 and as
every exception. -/
theorem decoding_forgets :
    ∃ counted limited : FullJob,
      counted = { id := 1, retryCount := 2 }
      ∧ limited = { id := 1, retryPolicy := some { retryOn := ["ValueError"] } }
      ∧ ((counted.toDict epochForms).bind (fromDict epochForms 5)).map (fun j => j.retryCount)
        = some 0
      ∧ ((limited.toDict epochForms).bind (fromDict epochForms 5)).map
          (fun j => j.retryPolicy.map RetryPolicy.retryOn) = some (some ["Exception"])
      ∧ ∀ job ∈ [counted, limited], TextsReadBack epochForms job
        ∧ job.result.keepsAsIs = true
        ∧ ((job.toDict epochForms).bind (fromDict epochForms 5)).map
            (fun decoded => { decoded with func := job.func }) ≠ some job := by
  have htexts : ∀ policy count,
      TextsReadBack epochForms { id := 1, retryPolicy := some policy, retryCount := count } :=
    fun _ _ => textsReadBack_epoch rfl rfl
  have hlost : ∀ policy count, ¬ RetryDefaults
        { id := 1, retryPolicy := some policy, retryCount := count } →
      ((FullJob.toDict epochForms
          { id := 1, retryPolicy := some policy, retryCount := count }).bind
        (fromDict epochForms 5)).map (fun decoded => { decoded with func := none })
      ≠ some { id := 1, retryPolicy := some policy, retryCount := count } := by
    intro policy count hnot heq
    rw [decoded_eq 5 rfl (htexts policy count), Option.map_some, Option.some.injEq] at heq
    exact hnot ((kept_eq_iff rfl rfl).mp heq)
  refine ⟨_, _, rfl, rfl, ?_, ?_, ?_⟩
  · rw [decoded_eq 5 rfl (htexts _ _)]
    rfl
  · rw [decoded_eq 5 rfl (htexts _ _)]
    rfl
  · intro job hmem
    rcases List.mem_cons.mp hmem with rfl | hmem
    · refine ⟨htexts _ _, rfl, hlost _ _ ?_⟩
      rintro ⟨hcount, -⟩
      cases hcount
    · rw [List.mem_singleton] at hmem
      subst hmem
      refine ⟨htexts _ _, rfl, hlost _ _ ?_⟩
      rintro ⟨-, policy, hpolicy, hretryOn⟩
      cases hpolicy
      exact absurd hretryOn (by decide)

end FullJob

end JobOrchestrator
