import Mathlib.Algebra.Order.Field.Rat
import Mathlib.Data.Rat.Floor

/-!
# Jobs

The job record of `core/job.py` with its enumerations and its retry policy,
and the exceptions a job's function can raise.

A `Job` object is shared: the store, the queue, a DAG and the dead letter
queue hold references to it, and a change made through one is seen through
the others. Jobs compare and hash by `id`, so an object is named here by
its id, and a `JobTable` says what the object of each id currently holds.
That the object of an id carries that id is a field of the table.
-/

namespace JobOrchestrator

/-- A job, DAG or entry identifier: the 128-bit number of the UUID. -/
abbrev UUID := ℕ

namespace UUID

/-- `str(uuid)`: 32 hexadecimal digits in groups of 8, 4, 4, 4 and 12. -/
def str (u : UUID) : String :=
  let digits := Nat.toDigits 16 u
  let padded := List.replicate (32 - digits.length) '0' ++ digits
  let group (start len : ℕ) : List Char := (padded.drop start).take len
  String.ofList (group 0 8 ++ '-' :: group 8 4 ++ '-' :: group 12 4 ++ '-' :: group 16 4
    ++ '-' :: group 20 12)

end UUID

/-- A reading of a clock, in seconds. -/
abbrev Time := ℚ

/-- **A `datetime`**: what its own clock shows, and the clock's offset from
UTC, which a naive one does not have. -/
structure DateTime where
  /-- The wall-clock reading. -/
  clock : Time
  /-- The offset from UTC of an aware value. -/
  offset : Option Time := none
  deriving DecidableEq

namespace DateTime

/-- `datetime.utcnow()`: a naive value. -/
def utcnow (now : Time) : DateTime := ⟨now, none⟩

/-- `value + timedelta(seconds=delay)`, where there is such a date. -/
def addSeconds (t : DateTime) (delay : Time) : DateTime := { t with clock := t.clock + delay }

/-- **There is such a date**: `datetime` knows the years from 1 to 9999. -/
def Dated (t : DateTime) : Prop := -62135596800 ≤ t.clock ∧ t.clock < 253402300800

instance (t : DateTime) : Decidable t.Dated := inferInstanceAs (Decidable (_ ∧ _))

/-- **There is such a `timedelta`**: it has at most 999999999 days. -/
def Spans (delay : Time) : Prop := |⌊delay / 86400⌋| ≤ 999999999

instance (delay : Time) : Decidable (Spans delay) := inferInstanceAs (Decidable (_ ≤ _))

theorem spans_of_lt_day {delay : Time} (nonneg : 0 ≤ delay) (less : delay < 86400) :
    Spans delay := by
  have hday : ⌊delay / 86400⌋ = 0 := by
    rw [Int.floor_eq_zero_iff]
    exact ⟨div_nonneg nonneg (by norm_num), (div_lt_one (by norm_num)).mpr less⟩
  unfold Spans
  rw [hday]
  decide

/-- The instant in Unix seconds, a naive value being read as UTC. -/
def timestamp (t : DateTime) : Time := t.clock - t.offset.getD 0

end DateTime

/-- `JobState`. -/
inductive JobState
  | pending | scheduled | running | completed | failed | retrying | cancelled | timeout
  deriving DecidableEq, Repr

namespace JobState

/-- The text of a state. -/
def value : JobState → String
  | pending => "pending"
  | scheduled => "scheduled"
  | running => "running"
  | completed => "completed"
  | failed => "failed"
  | retrying => "retrying"
  | cancelled => "cancelled"
  | timeout => "timeout"

end JobState

/-- `JobPriority`. -/
inductive JobPriority
  | critical | high | normal | low | background
  deriving DecidableEq, Repr

namespace JobPriority

/-- The number of a priority: lower is more urgent. -/
def value : JobPriority → ℕ
  | critical => 0
  | high => 1
  | normal => 2
  | low => 3
  | background => 4

end JobPriority

/-- A Python value a job can return: the JSON-like ones, and any other object
by its `str`. -/
inductive Value
  | none
  | bool (b : Bool)
  | int (i : ℤ)
  | float (q : ℚ)
  | str (s : String)
  | list (items : List Value)
  | dict (items : List (String × Value))
  | object (text : String)
  deriving Inhabited

/-- **An exception**, an instance of `Exception`: the classes below
`Exception` it is an instance of, its own first, and its `str`. -/
structure PyException where
  /-- The classes below `Exception`, most specific first. -/
  classes : List String
  /-- `str(e)`. -/
  message : String
  deriving DecidableEq

namespace PyException

/-- `Exception(message)`. -/
def plain (message : String) : PyException := ⟨[], message⟩

/-- Every class the exception is an instance of. -/
def mro (e : PyException) : List String :=
  e.classes ++ ["Exception", "BaseException", "object"]

/-- `type(e).__name__`. -/
def typeName (e : PyException) : String := e.mro.headD "Exception"

/-- `isinstance(e, types)`. -/
def isInstance (e : PyException) (types : List String) : Bool :=
  types.any (fun t => decide (t ∈ e.mro))

/-- An exception is an instance of every class a plain `Exception` is. -/
theorem isInstance_of_plain {e : PyException} {message : String} {types : List String}
    (h : (plain message).isInstance types = true) : e.isInstance types = true := by
  rw [isInstance, List.any_eq_true] at h ⊢
  obtain ⟨t, ht, hm⟩ := h
  rw [decide_eq_true_eq] at hm
  exact ⟨t, ht, decide_eq_true (List.mem_append_right _ hm)⟩

end PyException

/-- `core.job.RetryPolicy`. -/
structure RetryPolicy where
  maxRetries : ℤ := 3
  baseDelay : ℚ := 1
  maxDelay : ℚ := 300
  exponentialBase : ℚ := 2
  jitter : Bool := true
  /-- The exception types that trigger a retry. -/
  retryOn : List String := ["Exception"]

/-- **`Job`**, with the fields the scheduler reads or writes. -/
structure Job where
  id : UUID
  name : String := ""
  priority : JobPriority := .normal
  scheduledAt : Option DateTime := none
  state : JobState := .pending
  attempt : ℕ := 0
  dependsOn : List UUID := []
  retryPolicy : Option RetryPolicy := some {}
  retryCount : ℕ := 0
  createdAt : DateTime := ⟨0, none⟩
  startedAt : Option DateTime := none
  completedAt : Option DateTime := none
  result : Value := .none
  error : Option String := none
  traceback : Option String := none

/-- `JobResult`, what `JobRunner.run` returns. -/
structure JobResult where
  jobId : UUID
  success : Bool
  result : Value := .none
  error : Option String := none
  traceback : Option String := none
  startedAt : Option DateTime := none
  completedAt : Option DateTime := none

/-- What calling a job's function comes to: it returns, or an exception is
raised (by the function, or because it cannot be loaded). -/
inductive Outcome
  | returned (result : Value)
  | raised (error : PyException)

/-! ## The job objects -/

/-- Which job object is meant, where two objects may carry the same id. -/
abbrev JobRef := ℕ

/-- **The job objects by id**, each carrying its id. Jobs are objects with identity, and the
store, the queue and the graphs all refer to one object; a table that is shared by the parts of
the model says the same. -/
structure JobTable where
  /-- The object of an id. -/
  get : UUID → Job
  /-- It carries that id. -/
  id_get : ∀ id, (get id).id = id

namespace JobTable

/-- Assign fields of one object. The id is not one of them. -/
def modify (t : JobTable) (id : UUID) (f : Job → Job) : JobTable where
  get k := if k = id then { f (t.get id) with id := id } else t.get k
  id_get k := by
    by_cases h : k = id
    · rw [if_pos h, h]
    · rw [if_neg h, t.id_get]

@[simp] theorem get_modify_self (t : JobTable) (id : UUID) (f : Job → Job) :
    (t.modify id f).get id = { f (t.get id) with id := id } := if_pos rfl

@[simp] theorem get_modify_of_ne (t : JobTable) {id k : UUID} (h : k ≠ id)
    (f : Job → Job) : (t.modify id f).get k = t.get k := if_neg h

/-- Two tables with the same objects are one. The proof that each object carries its id takes no
part in it. -/
theorem ext {t t' : JobTable} (h : ∀ k, t.get k = t'.get k) : t = t' := by
  have hget : t.get = t'.get := funext h
  cases t
  cases t'
  cases hget
  rfl

/-- An object's id is the one it has. -/
theorem with_id (t : JobTable) (id : UUID) : { t.get id with id := id } = t.get id := by
  conv_rhs => rw [show t.get id = { t.get id with id := (t.get id).id } from rfl, t.id_get]

/-- Assigning fields of an object twice, so that they are as they were. -/
theorem modify_modify_eq {t : JobTable} {id : UUID} {f g : Job → Job}
    (h : g { f (t.get id) with id := id } = t.get id) : (t.modify id f).modify id g = t := by
  refine ext (fun k => ?_)
  by_cases hk : k = id
  · rw [hk, get_modify_self, get_modify_self, h]
    exact t.with_id id
  · rw [get_modify_of_ne _ hk, get_modify_of_ne _ hk]

/-- The table of freshly constructed jobs. -/
def fresh : JobTable := ⟨fun id => { id := id }, fun _ => rfl⟩

instance : Inhabited JobTable := ⟨fresh⟩

end JobTable

end JobOrchestrator
