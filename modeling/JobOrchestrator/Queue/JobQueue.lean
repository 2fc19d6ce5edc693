import JobOrchestrator.Queue.PriorityQueue
import JobOrchestrator.Util.History

/-!
# The queue with the jobs in it

The calls of `ThreadSafePriorityQueue` that read or write the fields of the
jobs, and histories of calls. The queue's lock makes every call atomic, but
for `pop`, which gives the lock up where it waits: what is atomic there is one
iteration of its loop, and a `pop` is a series of them of which only the last
can return a job. `pop_nowait` is a `pop`, and `delete` is `remove`.

The job objects belong to the callers too, who may write their fields at any
time. A history says so with `assign`, which also stands for two objects of
one id, of which the caller pushes now the one and now the other.
-/

namespace JobOrchestrator

namespace ThreadSafePriorityQueue

/-- `peek`. -/
def peek (q : ThreadSafePriorityQueue) : Option UUID × ThreadSafePriorityQueue :=
  (q.cleanupRemoved.heap.head?.map QueueEntry.jobId, q.cleanupRemoved)

/-- `peek_ready`. -/
def peekReady (now : Time) (q : ThreadSafePriorityQueue) :
    Option UUID × ThreadSafePriorityQueue :=
  let clean := q.cleanupRemoved
  ((clean.heap.head?.filter
    (fun e => decide (e.scheduledTime ≤ now ∧ e.jobId ∉ clean.removed))).map QueueEntry.jobId,
    clean)

/-- `clear`, with the number of jobs it returns. -/
def clear (q : ThreadSafePriorityQueue) : ℤ × ThreadSafePriorityQueue :=
  (q.len,
    { q with
      heap := []
      sorted := List.Pairwise.nil
      entryMap := OrderedDict.empty
      removed := ∅
      counter := 0 })

variable {q : ThreadSafePriorityQueue} {k : UUID}

/-- Throwing marked entries away from the top keeps the agreement about an id, and
what is contained. -/
theorem CoherentAt.cleanupRemoved (h : q.CoherentAt k) :
    q.cleanupRemoved.CoherentAt k
      ∧ (q.cleanupRemoved.contains k = true ↔ q.contains k = true) := by
  obtain ⟨hagree, hlive⟩ := AgreeAt.cleanup h
  have hcoh : q.cleanupRemoved.CoherentAt k := hagree
  refine ⟨hcoh, ?_⟩
  rw [contains_iff_live hcoh, contains_iff_live h]
  exact hlive

theorem contains_clear (q : ThreadSafePriorityQueue) (k : UUID) :
    q.clear.2.contains k = false := by
  show decide (k ∈ (OrderedDict.empty : OrderedDict UUID QueueEntry).keys ∧ _) = false
  simp

theorem coherentAt_clear (q : ThreadSafePriorityQueue) (k : UUID) : q.clear.2.CoherentAt k :=
  (coherent_new none).at k

end ThreadSafePriorityQueue

/-- **The queue and the job objects its entries refer to.** An entry is made with the priority
and the time that its job has then; the job may change afterwards without the queue. -/
structure JobQueue where
  jobs : JobTable
  queue : ThreadSafePriorityQueue

/-- A call of the queue, and a write to the fields of a job by somebody else. -/
inductive QueueCall
  | assign (job : Job)
  | push (jobId : UUID)
  | updatePriority (jobId : UUID) (newPriority : JobPriority)
  | reschedule (jobId : UUID) (scheduledAt : DateTime)
  | remove (jobId : UUID)
  /-- One iteration of `pop`, at a reading of the clock. -/
  | pop (now : Time)
  | peek
  | peekReady (now : Time)
  | clear

/-- What a call returns. -/
inductive QueueReply
  | none
  | accepted (done : Bool)
  | job (found : Option UUID)
  | size (count : ℤ)

namespace JobQueue

/-- A new queue, and jobs. -/
def start (jobs : JobTable) (maxSize : Option ℕ) : JobQueue := ⟨jobs, .new maxSize⟩

/-- The entry the queue would make for a job as it is now. -/
def entryFor (s : JobQueue) (jobId : UUID) : QueueEntry := s.queue.entryFor (s.jobs.get jobId)

/-- `push`. -/
def push (jobId : UUID) (s : JobQueue) : Bool × JobQueue :=
  ((s.queue.push (s.jobs.get jobId)).1, { s with queue := (s.queue.push (s.jobs.get jobId)).2 })

/-- What `update_priority` and `reschedule` have in common: a job that the queue
contains is changed and entered again. Its old entry is marked removed, and the mark
is taken away with the new entry. The capacity is not checked. -/
def reenter (jobId : UUID) (change : Job → Job) (s : JobQueue) : Bool × JobQueue :=
  if s.queue.contains jobId then
    (true, ⟨s.jobs.modify jobId change, s.queue.insert ((s.jobs.modify jobId change).get jobId)⟩)
  else (false, s)

/-- `update_priority`. -/
def updatePriority (jobId : UUID) (newPriority : JobPriority) : JobQueue → Bool × JobQueue :=
  reenter jobId (fun job => { job with priority := newPriority })

/-- `reschedule`. -/
def reschedule (jobId : UUID) (scheduledAt : DateTime) : JobQueue → Bool × JobQueue :=
  reenter jobId (fun job => { job with scheduledAt := some scheduledAt })

/-- **A call**, with what it returns. -/
def call (s : JobQueue) : QueueCall → QueueReply × JobQueue
  | .assign job => (.none, { s with jobs := s.jobs.modify job.id (fun _ => job) })
  | .push jobId => ((s.push jobId).1 |> .accepted, (s.push jobId).2)
  | .updatePriority jobId newPriority =>
    ((s.updatePriority jobId newPriority).1 |> .accepted, (s.updatePriority jobId newPriority).2)
  | .reschedule jobId scheduledAt =>
    ((s.reschedule jobId scheduledAt).1 |> .accepted, (s.reschedule jobId scheduledAt).2)
  | .remove jobId =>
    ((s.queue.remove jobId).1 |> .accepted, { s with queue := (s.queue.remove jobId).2 })
  | .pop now => ((s.queue.dequeue now).1 |> .job, { s with queue := (s.queue.dequeue now).2 })
  | .peek => (s.queue.peek.1 |> .job, { s with queue := s.queue.peek.2 })
  | .peekReady now =>
    ((s.queue.peekReady now).1 |> .job, { s with queue := (s.queue.peekReady now).2 })
  | .clear => (.size s.queue.clear.1, { s with queue := s.queue.clear.2 })

/-- The state after a call. -/
def step (s : JobQueue) (c : QueueCall) : JobQueue := (s.call c).2

/-- **A pop that returns a job.** -/
def pops (k : UUID) (s : JobQueue) : QueueCall → Bool
  | .pop now => decide ((s.queue.dequeue now).1 = some k)
  | _ => false

/-- **A call that brings a job in**: the queue contains it after the call and not
before. -/
def bringsIn (k : UUID) (s : JobQueue) (c : QueueCall) : Bool :=
  !s.queue.contains k && (s.step c).queue.contains k

/-- **A job enters fresh.** It is pushed only when no entry of it is on the heap,
marked or not, and `update_priority` and `reschedule` do not find it. Every other
call, and every call for another job, is free. -/
def EntersFresh (k : UUID) (s : JobQueue) : QueueCall → Prop
  | .push jobId => jobId = k → s.queue.full = false → ¬ s.queue.OnHeap k
  | .updatePriority jobId _ => jobId = k → s.queue.contains k = false
  | .reschedule jobId _ => jobId = k → s.queue.contains k = false
  | _ => True

instance decidableEntersFresh (k : UUID) (s : JobQueue) :
    (c : QueueCall) → Decidable (s.EntersFresh k c)
  | .push jobId =>
    inferInstanceAs (Decidable (jobId = k → s.queue.full = false → ¬ s.queue.OnHeap k))
  | .updatePriority jobId _ | .reschedule jobId _ =>
    inferInstanceAs (Decidable (jobId = k → s.queue.contains k = false))
  | .assign _ | .remove _ | .pop _ | .peek | .peekReady _ | .clear => isTrue trivial

/-! ## What a call does to the queue -/

/-- **The effects of a call**: nothing on the queue, or a job enters, or one is marked, or a pop
takes one, or marked entries are thrown away, or all are. Every method of the queue comes down to
these few, so what a step does is proved once for each of them and not for each method. -/
inductive Effect (s : JobQueue) : QueueCall → ThreadSafePriorityQueue → Prop
  | same (c : QueueCall) : Effect s c s.queue
  | insert (c : QueueCall) (job : Job) (enters : c = .push job.id ∧ s.queue.full = false
      ∧ job = s.jobs.get job.id
      ∨ s.queue.contains job.id = true ∧ ((∃ p, c = .updatePriority job.id p)
        ∨ ∃ t, c = .reschedule job.id t)) : Effect s c (s.queue.insert job)
  | remove (jobId : UUID) : Effect s (.remove jobId) (s.queue.remove jobId).2
  | pop (now : Time) : Effect s (.pop now) (s.queue.dequeue now).2
  | clean (c : QueueCall) (looks : c = .peek ∨ ∃ now, c = .peekReady now) :
      Effect s c s.queue.cleanupRemoved
  | clear : Effect s .clear s.queue.clear.2

variable {s : JobQueue} {k : UUID}

theorem reenter_cases (jobId : UUID) (change : Job → Job) (s : JobQueue) :
    (s.queue.contains jobId = true
        ∧ ∃ job : Job, job.id = jobId ∧ (s.reenter jobId change).2.queue = s.queue.insert job)
      ∨ s.queue.contains jobId = false ∧ s.reenter jobId change = (false, s) := by
  rw [reenter]
  cases hk : s.queue.contains jobId with
  | true =>
    exact Or.inl ⟨rfl, _, (s.jobs.modify jobId change).id_get jobId, by rw [if_pos rfl]⟩
  | false => exact Or.inr ⟨rfl, if_neg (by decide)⟩

/-- **Every call has one of the effects.** The methods are gone through once, here; every
invariant of the queue is proved from the effects. -/
theorem effect (s : JobQueue) (c : QueueCall) : Effect s c (s.step c).queue := by
  cases c with
  | assign job => exact .same _
  | push jobId =>
    show Effect s _ (s.queue.push (s.jobs.get jobId)).2
    rw [ThreadSafePriorityQueue.push]
    cases hfull : s.queue.full with
    | true => exact .same _
    | false =>
      refine .insert _ _ (Or.inl ?_)
      rw [s.jobs.id_get]
      exact ⟨rfl, hfull, rfl⟩
  | updatePriority jobId p =>
    obtain ⟨hk, job, rfl, heq⟩ | ⟨-, heq⟩ := s.reenter_cases jobId
      (fun job => { job with priority := p })
    · show Effect s _ (s.reenter job.id _).2.queue
      rw [heq]
      exact .insert _ job (Or.inr ⟨hk, Or.inl ⟨p, rfl⟩⟩)
    · show Effect s _ (s.reenter jobId _).2.queue
      rw [heq]
      exact .same _
  | reschedule jobId t =>
    obtain ⟨hk, job, rfl, heq⟩ | ⟨-, heq⟩ := s.reenter_cases jobId
      (fun job => { job with scheduledAt := some t })
    · show Effect s _ (s.reenter job.id _).2.queue
      rw [heq]
      exact .insert _ job (Or.inr ⟨hk, Or.inr ⟨t, rfl⟩⟩)
    · show Effect s _ (s.reenter jobId _).2.queue
      rw [heq]
      exact .same _
  | remove jobId => exact .remove jobId
  | pop now => exact .pop now
  | peek => exact .clean _ (Or.inl rfl)
  | peekReady now => exact .clean _ (Or.inr ⟨now, rfl⟩)
  | clear => exact .clear

/-- **The parts keep agreeing about an id that enters fresh.** -/
theorem coherentAt_step (h : s.queue.CoherentAt k) {c : QueueCall} (fresh : s.EntersFresh k c) :
    (s.step c).queue.CoherentAt k := by
  have heffect := s.effect c
  generalize (s.step c).queue = q' at heffect ⊢
  cases heffect with
  | same => exact h
  | insert c job enters =>
    refine h.insert ?_
    rintro rfl
    rcases enters with ⟨rfl, hfull, -⟩ | ⟨hk, ⟨p, rfl⟩ | ⟨t, rfl⟩⟩
    · exact fresh rfl hfull
    · exact absurd hk (by rw [fresh rfl]; decide)
    · exact absurd hk (by rw [fresh rfl]; decide)
  | remove jobId => exact h.remove jobId
  | pop now => exact (h.dequeue now).1
  | clean => exact h.cleanupRemoved.1
  | clear => exact s.queue.coherentAt_clear k

/-- A pop that returns a job takes it out. -/
theorem contains_of_pops (h : s.queue.CoherentAt k) {c : QueueCall} (popped : s.pops k c = true) :
    s.queue.contains k = true ∧ (s.step c).queue.contains k = false := by
  cases c with
  | pop now =>
    have hk : (s.queue.dequeue now).1 = some k := of_decide_eq_true popped
    obtain ⟨-, hcontains, htaken⟩ := h.dequeue now
    refine ⟨(htaken hk).1, ?_⟩
    show (s.queue.dequeue now).2.contains k = false
    rw [← Bool.not_eq_true, hcontains]
    exact fun hin => hin.2 hk
  | _ => cases popped

/-- A job that the queue does not contain stays outside until it is pushed. -/
theorem contains_step_eq_false (h : s.queue.CoherentAt k) (outside : s.queue.contains k = false)
    {c : QueueCall} (noPush : c ≠ .push k) : (s.step c).queue.contains k = false := by
  rw [← Bool.not_eq_true] at outside ⊢
  have heffect := s.effect c
  generalize (s.step c).queue = q' at heffect ⊢
  cases heffect with
  | same => exact outside
  | insert c job enters =>
    rw [ThreadSafePriorityQueue.contains_insert]
    rintro (rfl | hk)
    · rcases enters with ⟨rfl, -⟩ | ⟨hk, -⟩
      · exact noPush rfl
      · exact outside hk
    · exact outside hk
  | remove jobId =>
    rw [ThreadSafePriorityQueue.contains_remove]
    exact fun hk => outside hk.1
  | pop now =>
    rw [(h.dequeue now).2.1]
    exact fun hk => outside hk.1
  | clean =>
    rw [h.cleanupRemoved.2]
    exact outside
  | clear =>
    rw [s.queue.contains_clear]
    decide

/-- **The ledger of an id.** The pops that return it and its place in the queue are paid
for by the calls that bring it in. -/
theorem count_pops_add_le {cs : List QueueCall} (h : s.queue.CoherentAt k)
    (fresh : History.Admitted step (EntersFresh k) s cs) :
    History.count step (pops k) s cs + ((History.after step s cs).queue.contains k).toNat
      ≤ (s.queue.contains k).toNat + History.count step (bringsIn k) s cs := by
  refine History.count_add_le (P := fun s : JobQueue => s.queue.CoherentAt k)
    (fun s => (s.queue.contains k).toNat) fresh h (fun s c hcoh hfresh => ?_)
  refine ⟨coherentAt_step hcoh hfresh, ?_⟩
  cases hpop : s.pops k c with
  | true =>
    obtain ⟨hin, hout⟩ := contains_of_pops hcoh hpop
    rw [hin, hout]
    exact Nat.le_add_right _ _
  | false =>
    rw [bringsIn]
    cases s.queue.contains k <;> cases (s.step c).queue.contains k <;> decide

/-- Nothing but a push brings in an id that enters fresh. -/
theorem count_bringsIn {cs : List QueueCall} (h : s.queue.CoherentAt k)
    (fresh : History.Admitted step (EntersFresh k) s cs) (noPush : ∀ c ∈ cs, c ≠ .push k) :
    History.count step (bringsIn k) s cs = 0 := by
  refine History.count_eq_zero (P := fun s : JobQueue => s.queue.CoherentAt k)
    (fresh.and_forall noPush) h ?_
  rintro s c hcoh ⟨hfresh, hpush⟩
  refine ⟨coherentAt_step hcoh hfresh, ?_⟩
  rw [bringsIn]
  cases hin : s.queue.contains k with
  | true => rfl
  | false => rw [contains_step_eq_false hcoh hin hpush, Bool.and_false]

/-- **An id is returned at most once between two pushes**, and not at all where the queue
does not contain it. -/
theorem count_pops_le {cs : List QueueCall} (h : s.queue.CoherentAt k)
    (fresh : History.Admitted step (EntersFresh k) s cs) (noPush : ∀ c ∈ cs, c ≠ .push k) :
    History.count step (pops k) s cs ≤ (s.queue.contains k).toNat := by
  have hledger := count_pops_add_le h fresh
  rw [count_bringsIn h fresh noPush] at hledger
  omega

end JobQueue

end JobOrchestrator
