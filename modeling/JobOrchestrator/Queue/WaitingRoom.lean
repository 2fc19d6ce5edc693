import JobOrchestrator.Queue.Reading

/-!
# What the queue is for

A waiting room is what the queue looks like to its clients: a set of entries,
at most one for a job, with no heap, no map and no marks. `Serves` says what a
call may answer: a pop takes the least of the entries that are due, `peek`
shows the least of all, iterating lists them in order, and so on.

`refines_waitingRoom`: the queue answers every history of calls in which every
id enters fresh as the waiting room allows. The two calls that enter a job
again while it waits, `update_priority` and `reschedule`, and a push of an id
with an entry on the heap, are what such a history leaves out.
-/

namespace JobOrchestrator

/-- A use of the queue: a call, or one of those that only look. -/
inductive QueueUse
  | act (c : QueueCall)
  | contains (jobId : UUID)
  | get (jobId : UUID)
  | size
  | isEmpty
  | iterate
  | nextScheduledTime
  /-- `get_stats`, at a reading of the clock. -/
  | stats (now : Time)

/-- What it answers. -/
inductive QueueAnswer
  | act (reply : QueueReply)
  | holds (answer : Bool)
  | found (job : Option UUID)
  | size (count : ℤ)
  | listed (jobs : List UUID)
  | time (next : Option DateTime)
  | stats (found : Option ThreadSafePriorityQueue.QueueStats)

namespace JobQueue

/-- **A use of the queue**, with its answer. What only looks does change the heap, but nothing
that waits. -/
def use (s : JobQueue) : QueueUse → QueueAnswer × JobQueue
  | .act c => (.act (s.call c).1, (s.call c).2)
  | .contains jobId => (.holds (s.queue.contains jobId), s)
  | .get jobId => (.found (s.queue.get jobId), s)
  | .size => (.size s.queue.len, s)
  | .isEmpty => (.holds s.queue.isEmpty, s)
  | .iterate => (.listed s.queue.iter, s)
  | .nextScheduledTime =>
    (.time s.queue.getNextScheduledTime.1, { s with queue := s.queue.getNextScheduledTime.2 })
  | .stats now => (.stats (s.queue.getStats now), s)

/-- **Every id enters fresh**: it is pushed only when no entry of it is on the heap, and
`update_priority` and `reschedule` do not find it. -/
def UsedFresh (s : JobQueue) : QueueUse → Prop
  | .act (.push jobId) => s.queue.full = false → ¬ s.queue.OnHeap jobId
  | .act (.updatePriority jobId _) => s.queue.contains jobId = false
  | .act (.reschedule jobId _) => s.queue.contains jobId = false
  | _ => True

instance decidableUsedFresh (s : JobQueue) : (u : QueueUse) → Decidable (s.UsedFresh u)
  | .act (.push jobId) =>
    inferInstanceAs (Decidable (s.queue.full = false → ¬ s.queue.OnHeap jobId))
  | .act (.updatePriority jobId _) | .act (.reschedule jobId _) =>
    inferInstanceAs (Decidable (s.queue.contains jobId = false))
  | .act (.assign _) | .act (.remove _) | .act (.pop _) | .act .peek | .act (.peekReady _)
  | .act .clear | .contains _ | .get _ | .size | .isEmpty | .iterate | .nextScheduledTime
  | .stats _ => isTrue trivial

end JobQueue

/-! ## The waiting room -/

/-- **A waiting room**: the entries that wait, at most one for a job. This is what the queue is
for, without heap, map or marks: a set, from which the least entry is taken. -/
structure WaitingRoom where
  jobs : JobTable
  waiting : Finset QueueEntry
  /-- A job has one entry. -/
  single : ∀ e ∈ waiting, ∀ e' ∈ waiting, e.jobId = e'.jobId → e = e'
  /-- The number that the next entry gets. -/
  ticket : ℕ
  capacity : Option ℕ

namespace WaitingRoom

/-- The job waits. -/
def Waits (jobId : UUID) (r : WaitingRoom) : Prop := ∃ e ∈ r.waiting, e.jobId = jobId

/-- Nothing waits. -/
def initial (jobs : JobTable) (capacity : Option ℕ) : WaitingRoom where
  jobs := jobs
  waiting := ∅
  single e he := absurd he (Finset.notMem_empty e)
  ticket := 0
  capacity := capacity

/-- The entry of a job that comes now. -/
def entryFor (job : Job) (r : WaitingRoom) : QueueEntry where
  priority := job.priority.value
  scheduledTime := ((job.scheduledAt).getD job.createdAt).timestamp
  insertionOrder := r.ticket
  jobId := job.id

/-- A job leaves. -/
def leave (jobId : UUID) (r : WaitingRoom) : WaitingRoom :=
  { r with
    waiting := r.waiting.filter (fun e => e.jobId ≠ jobId)
    single := fun e he e' he' =>
      r.single e (Finset.mem_of_mem_filter e he) e' (Finset.mem_of_mem_filter e' he') }

/-- **A job comes**, with the fields it has now; one that waits takes a new place. -/
def enter (jobId : UUID) (r : WaitingRoom) : WaitingRoom :=
  { r with
    waiting := insert (r.entryFor (r.jobs.get jobId)) (r.leave jobId).waiting
    single := by
      have hid : (r.entryFor (r.jobs.get jobId)).jobId = jobId := r.jobs.id_get jobId
      have hothers : ∀ e ∈ (r.leave jobId).waiting, e.jobId ≠ jobId :=
        fun e he => (Finset.mem_filter.mp he).2
      intro e he e' he' hsame
      rw [Finset.mem_insert] at he he'
      rcases he with rfl | he <;> rcases he' with rfl | he'
      · rfl
      · exact absurd (hsame.symm.trans hid) (hothers e' he')
      · exact absurd (hsame.trans hid) (hothers e he)
      · exact (r.leave jobId).single e he e' he' hsame
    ticket := r.ticket + 1 }

/-- A job's fields are changed, and it takes a new place. Then the queue answers False and is
left alone. -/
def reenter (jobId : UUID) (change : Job → Job) (r : WaitingRoom) : WaitingRoom :=
  { r with jobs := r.jobs.modify jobId change }.enter jobId

/-- Everybody leaves. -/
def vacate (r : WaitingRoom) : WaitingRoom := initial r.jobs r.capacity

/-- **The least of the entries that pass a test**: no other such entry comes before it. -/
structure Least (p : QueueEntry → Prop) (r : WaitingRoom) (e : QueueEntry) : Prop where
  waits : e ∈ r.waiting
  passes : p e
  least : ∀ e' ∈ r.waiting, p e' → e.le e'

/-- The entries in order. -/
structure InOrder (r : WaitingRoom) (es : List QueueEntry) : Prop where
  nodup : es.Nodup
  all : ∀ e, e ∈ es ↔ e ∈ r.waiting
  sorted : es.Pairwise QueueEntry.le

/-- **The statistics of the room**: the entries that wait, those that are due and those that are
not, and those of each priority. The heap may hold more, which the room does not know. -/
structure Census (now : Time) (r : WaitingRoom) (stats : ThreadSafePriorityQueue.QueueStats) :
    Prop where
  total : stats.totalSize = r.waiting.card
  ready : stats.ready = (r.waiting.filter (fun e => e.scheduledTime ≤ now)).card
  scheduled : stats.scheduled = (r.waiting.filter (fun e => now < e.scheduledTime)).card
  byPriority : ∀ p : JobPriority, (stats.byPriority.get? p.name).getD 0
    = (r.waiting.filter (fun e => e.priority = p.value)).card
  heap : stats.heapSize = r.waiting.card + stats.removedCount

/-- **What a use of the room may answer**, and the room after it. A pop gets the least of the
entries that are due; `peek_ready` answers only where the least of all is due, and so may miss
what a pop finds. -/
inductive Serves (r : WaitingRoom) : QueueUse → QueueAnswer → WaitingRoom → Prop
  | assign (job : Job) : Serves r (.act (.assign job)) (.act .none)
      { r with jobs := r.jobs.modify job.id (fun _ => job) }
  | push (k : UUID) (room : ∀ m, r.capacity = some m → r.waiting.card < m) :
      Serves r (.act (.push k)) (.act (.accepted true)) (r.enter k)
  | full (k : UUID) (m : ℕ) (capacity : r.capacity = some m) (full : m ≤ r.waiting.card) :
      Serves r (.act (.push k)) (.act (.accepted false)) r
  | updatePriority (k : UUID) (p : JobPriority) (waits : r.Waits k) :
      Serves r (.act (.updatePriority k p)) (.act (.accepted true))
        (r.reenter k (fun job => { job with priority := p }))
  | notUpdated (k : UUID) (p : JobPriority) (absent : ¬ r.Waits k) :
      Serves r (.act (.updatePriority k p)) (.act (.accepted false)) r
  | reschedule (k : UUID) (t : DateTime) (waits : r.Waits k) :
      Serves r (.act (.reschedule k t)) (.act (.accepted true))
        (r.reenter k (fun job => { job with scheduledAt := some t }))
  | notRescheduled (k : UUID) (t : DateTime) (absent : ¬ r.Waits k) :
      Serves r (.act (.reschedule k t)) (.act (.accepted false)) r
  | remove (k : UUID) (waits : r.Waits k) :
      Serves r (.act (.remove k)) (.act (.accepted true)) (r.leave k)
  | notRemoved (k : UUID) (absent : ¬ r.Waits k) :
      Serves r (.act (.remove k)) (.act (.accepted false)) r
  | pop (now : Time) (e : QueueEntry) (least : r.Least (fun e => e.scheduledTime ≤ now) e) :
      Serves r (.act (.pop now)) (.act (.job (some e.jobId))) (r.leave e.jobId)
  | noPop (now : Time) (later : ∀ e ∈ r.waiting, now < e.scheduledTime) :
      Serves r (.act (.pop now)) (.act (.job none)) r
  | peek (e : QueueEntry) (least : r.Least (fun _ => True) e) :
      Serves r (.act .peek) (.act (.job (some e.jobId))) r
  | noPeek (nobody : r.waiting = ∅) : Serves r (.act .peek) (.act (.job none)) r
  | peekReady (now : Time) (e : QueueEntry) (least : r.Least (fun _ => True) e)
      (due : e.scheduledTime ≤ now) :
      Serves r (.act (.peekReady now)) (.act (.job (some e.jobId))) r
  | noPeekReady (now : Time) (e : QueueEntry) (least : r.Least (fun _ => True) e)
      (later : now < e.scheduledTime) : Serves r (.act (.peekReady now)) (.act (.job none)) r
  | peekNobody (now : Time) (nobody : r.waiting = ∅) :
      Serves r (.act (.peekReady now)) (.act (.job none)) r
  | clear : Serves r (.act .clear) (.act (.size r.waiting.card)) r.vacate
  | contains (k : UUID) (answer : Bool) (iff : answer = true ↔ r.Waits k) :
      Serves r (.contains k) (.holds answer) r
  | get (k : UUID) (waits : r.Waits k) : Serves r (.get k) (.found (some k)) r
  | notGot (k : UUID) (absent : ¬ r.Waits k) : Serves r (.get k) (.found none) r
  | size : Serves r .size (.size r.waiting.card) r
  | isEmpty (answer : Bool) (iff : answer = true ↔ r.waiting = ∅) :
      Serves r .isEmpty (.holds answer) r
  | iterate (es : List QueueEntry) (inOrder : r.InOrder es) :
      Serves r .iterate (.listed (es.map QueueEntry.jobId)) r
  | next (e : QueueEntry) (waits : e ∈ r.waiting)
      (first : ∀ e' ∈ r.waiting, e.scheduledTime ≤ e'.scheduledTime) :
      Serves r .nextScheduledTime (.time (some (.utcfromtimestamp e.scheduledTime))) r
  | noNext (nobody : r.waiting = ∅) : Serves r .nextScheduledTime (.time none) r
  | stats (now : Time) (stats : ThreadSafePriorityQueue.QueueStats) (census : r.Census now stats) :
      Serves r (.stats now) (.stats (some stats)) r

end WaitingRoom

/-! ## The queue as a waiting room -/

namespace JobQueue

open ThreadSafePriorityQueue WaitingRoom Refinement

variable {s : JobQueue} {r : WaitingRoom} {k : UUID}

/-- **The queue shows a waiting room**: its parts agree, and the live entries are those that
wait. Marked entries and those that have been replaced are on the heap, but not in the room. -/
structure Shows (s : JobQueue) (r : WaitingRoom) : Prop where
  coherent : s.queue.Coherent
  numbered : s.queue.Numbered
  books : s.queue.Accounted
  jobs : r.jobs = s.jobs
  waiting : r.waiting = s.queue.live.toFinset
  ticket : r.ticket = s.queue.counter
  capacity : r.capacity = s.queue.maxSize

namespace Shows

theorem mem_waiting (h : s.Shows r) {e : QueueEntry} : e ∈ r.waiting ↔ e ∈ s.queue.live := by
  rw [h.waiting, List.mem_toFinset]

theorem nodup_live (h : s.Shows r) : s.queue.live.Nodup := h.coherent.nodup_ids_live.of_map

theorem card_waiting (h : s.Shows r) : r.waiting.card = s.queue.live.length := by
  rw [h.waiting, List.toFinset_card_of_nodup h.nodup_live]

theorem len_eq (h : s.Shows r) : s.queue.len = r.waiting.card := by
  rw [h.coherent.len_eq, h.card_waiting]

theorem waiting_eq_empty_iff (h : s.Shows r) : r.waiting = ∅ ↔ s.queue.live = [] := by
  rw [h.waiting, List.toFinset_eq_empty_iff]

theorem waits_iff (h : s.Shows r) : r.Waits k ↔ s.queue.contains k = true := by
  rw [h.coherent.contains_iff]
  exact exists_congr (fun e => and_congr_left (fun _ => h.mem_waiting))

theorem card_filter (h : s.Shows r) (p : QueueEntry → Prop) [DecidablePred p] :
    (r.waiting.filter p).card = s.queue.live.countP (fun e => decide (p e)) := by
  have hfilter : r.waiting.filter p
      = (s.queue.live.filter (fun e => decide (p e))).toFinset := by
    ext e
    simp [h.mem_waiting]
  rw [hfilter, List.toFinset_card_of_nodup (h.nodup_live.filter _), List.countP_eq_length_filter]

/-- A queue with the same live entries shows the same room. -/
theorem same (h : s.Shows r) {q : ThreadSafePriorityQueue} (coherent : q.Coherent)
    (numbered : q.Numbered) (books : q.Accounted) (live : q.live = s.queue.live)
    (counter : q.counter = s.queue.counter) (maxSize : q.maxSize = s.queue.maxSize) :
    Shows { s with queue := q } r where
  coherent := coherent
  numbered := numbered
  books := books
  jobs := h.jobs
  waiting := by rw [h.waiting, ← live]
  ticket := h.ticket.trans counter.symm
  capacity := h.capacity.trans maxSize.symm

theorem cleanupRemoved (h : s.Shows r) : Shows { s with queue := s.queue.cleanupRemoved } r :=
  h.same h.coherent.cleanupRemoved h.numbered.cleanupRemoved h.books.cleanupRemoved
    h.coherent.live_cleanupRemoved rfl rfl

/-! ### One call -/

/-- **A job enters**, of which no entry is on the heap. -/
theorem insert (h : s.Shows r) (fresh : ¬ s.queue.OnHeap k) :
    Shows { s with queue := s.queue.insert (s.jobs.get k) } (r.enter k) := by
  have hid : (s.jobs.get k).id = k := s.jobs.id_get k
  have hfresh : ¬ s.queue.OnHeap (s.jobs.get k).id := hid.symm ▸ fresh
  have hentry : r.entryFor (r.jobs.get k) = s.queue.entryFor (s.jobs.get k) := by
    rw [h.jobs, WaitingRoom.entryFor, ThreadSafePriorityQueue.entryFor, h.ticket]
  refine ⟨h.coherent.insert hfresh, h.numbered.insert _, h.books.insert _, h.jobs, ?_,
    congrArg (· + 1) h.ticket, h.capacity⟩
  have hunmarked : k ∉ s.queue.removed := fun hk => fresh (h.coherent.marked k hk)
  ext e
  have hheap : e ∈ (s.queue.insert (s.jobs.get k)).heap
      ↔ e = s.queue.entryFor (s.jobs.get k) ∨ e ∈ s.queue.heap :=
    (List.perm_orderedInsert QueueEntry.le _ s.queue.heap).mem_iff.trans List.mem_cons
  have hmarks : (s.queue.insert (s.jobs.get k)).removed = s.queue.removed := by
    show s.queue.removed.erase (s.jobs.get k).id = _
    rw [hid, Finset.erase_eq_of_notMem hunmarked]
  rw [List.mem_toFinset, mem_live, hheap, hmarks]
  show e ∈ Insert.insert _ (r.waiting.filter _) ↔ _
  rw [Finset.mem_insert, Finset.mem_filter, hentry, h.mem_waiting, mem_live]
  constructor
  · rintro (rfl | ⟨hlive, -⟩)
    · refine ⟨Or.inl rfl, ?_⟩
      show (s.jobs.get k).id ∉ _
      rwa [hid]
    · exact ⟨Or.inr hlive.1, hlive.2⟩
  · rintro ⟨rfl | hheap, hlive⟩
    · exact Or.inl rfl
    · exact Or.inr ⟨⟨hheap, hlive⟩, fun heq => fresh (mem_ids.mpr ⟨e, hheap, heq⟩)⟩

/-- **A job is taken out**, by whatever keeps the other live entries. -/
theorem leave (h : s.Shows r) {q : ThreadSafePriorityQueue} (coherent : q.Coherent)
    (numbered : q.Numbered) (books : q.Accounted)
    (live : ∀ e, e ∈ q.live ↔ e ∈ s.queue.live ∧ e.jobId ≠ k)
    (counter : q.counter = s.queue.counter) (maxSize : q.maxSize = s.queue.maxSize) :
    Shows { s with queue := q } (r.leave k) where
  coherent := coherent
  numbered := numbered
  books := books
  jobs := h.jobs
  waiting := by
    ext e
    rw [List.mem_toFinset, live, ← h.mem_waiting]
    exact Finset.mem_filter
  ticket := h.ticket.trans counter.symm
  capacity := h.capacity.trans maxSize.symm

/-! ### The least entry -/

/-- The entry that a pop takes is the least that is due. -/
theorem least_of_find? (h : s.Shows r) {now : Time} {e : QueueEntry}
    (taken : s.queue.live.find? (due now) = some e) :
    r.Least (fun e => e.scheduledTime ≤ now) e := by
  rw [← (h.coherent.nextReady now).1] at taken
  obtain ⟨-, hdue, hleast⟩ := nextReady_least taken
  have hlive : e ∈ s.queue.live :=
    List.mem_of_find?_eq_some ((h.coherent.nextReady now).1 ▸ taken)
  exact ⟨h.mem_waiting.mpr hlive, hdue, fun e' he' => hleast e' (h.mem_waiting.mp he')⟩

/-- The first live entry is the least of all. -/
theorem least_of_head? (h : s.Shows r) {e : QueueEntry} (first : s.queue.live.head? = some e) :
    r.Least (fun _ => True) e := by
  obtain ⟨es, hlive⟩ := List.head?_eq_some_iff.mp first
  refine ⟨h.mem_waiting.mpr (hlive ▸ List.mem_cons_self), trivial, fun e' he' _ => ?_⟩
  rw [h.mem_waiting, hlive, List.mem_cons] at he'
  rcases he' with rfl | he'
  · exact (Std.Total.total e' e').elim id id
  · exact List.rel_of_pairwise_cons (hlive ▸ s.queue.sorted_live) he'

/-- A waiting room without entries, where the queue has no live ones. -/
theorem nobody (h : s.Shows r) (none : s.queue.live.head? = none) : r.waiting = ∅ :=
  h.waiting_eq_empty_iff.mpr (List.head?_eq_none_iff.mp none)

/-! ### The calls -/

/-- **`push`.** That the id is not on the heap, live or marked, is what keeps the room to one
entry for a job. -/
theorem push (h : s.Shows r) (fresh : s.queue.full = false → ¬ s.queue.OnHeap k) :
    ∃ r', r.Serves (.act (.push k)) (.act (.accepted (s.push k).1)) r' ∧ (s.push k).2.Shows r' := by
  have hlen := h.len_eq
  unfold JobQueue.push ThreadSafePriorityQueue.push
  cases hfull : s.queue.full with
  | true =>
    rw [ThreadSafePriorityQueue.full, ← h.capacity] at hfull
    cases hcap : r.capacity with
    | none =>
      rw [hcap] at hfull
      cases hfull
    | some m =>
      rw [hcap] at hfull
      have hle : (m : ℤ) ≤ s.queue.len := of_decide_eq_true hfull
      exact ⟨r, .full k m hcap (by omega), h⟩
  | false =>
    refine ⟨r.enter k, .push k (fun m hm => ?_), h.insert (fresh hfull)⟩
    rw [ThreadSafePriorityQueue.full, ← h.capacity, hm] at hfull
    have hlt : ¬ (m : ℤ) ≤ s.queue.len := of_decide_eq_false hfull
    omega

/-- **`remove`.** The entry stays on the heap with a mark, and is out of the room. -/
theorem remove (h : s.Shows r) (k : UUID) :
    ∃ r', r.Serves (.act (.remove k)) (.act (.accepted (s.queue.remove k).1)) r'
      ∧ Shows { s with queue := (s.queue.remove k).2 } r' := by
  have hcoh := h.coherent.remove k
  have hbooks := h.books.remove k
  obtain ⟨hk, heq⟩ | ⟨hk, heq⟩ := s.queue.remove_cases k
  · rw [heq] at hcoh hbooks ⊢
    refine ⟨r.leave k, .remove k (h.waits_iff.mpr hk),
      h.leave hcoh (h.numbered.sublist (List.Sublist.refl _) rfl) hbooks (fun e => ?_) rfl rfl⟩
    rw [mem_live, mem_live, Finset.mem_insert]
    tauto
  · rw [heq]
    refine ⟨r, .notRemoved k (fun hwaits => ?_), h⟩
    rw [h.waits_iff, hk] at hwaits
    cases hwaits

/-- **One iteration of `pop`.** The loop throws marked entries away and puts back what is not
due, neither of which the room notices. -/
theorem pop (h : s.Shows r) (now : Time) :
    ∃ r', r.Serves (.act (.pop now)) (.act (.job (s.queue.dequeue now).1)) r'
      ∧ Shows { s with queue := (s.queue.dequeue now).2 } r' := by
  obtain ⟨hnext, hleft⟩ := h.coherent.nextReady now
  have hcoh := (h.coherent.dequeue now).1
  have hnumbered : (s.queue.dequeue now).2.Numbered :=
    h.numbered.sublist ((takeReady_sublist _ _ _ _).trans (cleanup_sublist _ _ _)) rfl
  have hbooks := h.books.dequeue now
  rw [dequeue_fst, hnext]
  cases hfind : s.queue.live.find? (due now) with
  | none =>
    refine ⟨r, .noPop now (fun e he => ?_), h.same hcoh hnumbered hbooks ?_ rfl rfl⟩
    · have hlater := List.find?_eq_none.mp hfind e (h.mem_waiting.mp he)
      simpa [due] using hlater
    · rw [hleft, List.eraseP_of_forall_not (List.find?_eq_none.mp hfind)]
  | some e =>
    refine ⟨r.leave e.jobId, .pop now e (h.least_of_find? hfind),
      h.leave hcoh hnumbered hbooks (fun e' => ?_) rfl rfl⟩
    have hlive : e ∈ s.queue.live := List.mem_of_find?_eq_some hfind
    have hdue : due now e = true := List.find?_some hfind
    obtain ⟨e₀, -, -, -, hfind₀, herase⟩ :=
      exists_least_due s.queue.sorted_live ⟨e, hlive, of_decide_eq_true hdue⟩
    obtain rfl : e = e₀ := Option.some.inj (hfind.symm.trans hfind₀)
    rw [hleft, herase, h.nodup_live.mem_erase_iff, and_comm]
    refine and_congr_right (fun he' => not_congr ⟨congrArg QueueEntry.jobId, fun hid => ?_⟩)
    exact h.coherent.live_single he' hlive hid

/-- **`peek` and `peek_ready`** look at the top of the heap, once it is clean. -/
theorem top (h : s.Shows r) : s.queue.cleanupRemoved.heap.head? = s.queue.live.head? := by
  rw [← h.coherent.remaining_eq]
  exact head?_cleanup

theorem peek (h : s.Shows r) : r.Serves (.act .peek) (.act (.job s.queue.peek.1)) r := by
  have hpeek : s.queue.peek.1 = s.queue.live.head?.map QueueEntry.jobId := by
    rw [ThreadSafePriorityQueue.peek, h.top]
  rw [hpeek]
  cases hfirst : s.queue.live.head? with
  | none => exact .noPeek (h.nobody hfirst)
  | some e => exact .peek e (h.least_of_head? hfirst)

theorem peekReady (h : s.Shows r) (now : Time) :
    r.Serves (.act (.peekReady now)) (.act (.job (s.queue.peekReady now).1)) r := by
  rw [peekReady_fst_eq, h.coherent.remaining_eq]
  cases hfirst : s.queue.live.head? with
  | none => exact .peekNobody now (h.nobody hfirst)
  | some e =>
    by_cases hdue : e.scheduledTime ≤ now
    · simp only [Option.filter, due, hdue, decide_true, if_true, Option.map_some]
      exact .peekReady now e (h.least_of_head? hfirst) hdue
    · simp only [Option.filter, due, hdue, decide_false]
      exact .noPeekReady now e (h.least_of_head? hfirst) (not_le.mp hdue)

theorem clear (h : s.Shows r) : Shows { s with queue := s.queue.clear.2 } r.vacate where
  coherent := coherent_new none
  numbered := ⟨List.Pairwise.nil, fun _ he => absurd he List.not_mem_nil⟩
  books := accounted_new none
  jobs := h.jobs
  waiting := rfl
  ticket := rfl
  capacity := h.capacity

/-- **`reenter`** of a job that does not wait. -/
theorem reenter (h : s.Shows r) {change : Job → Job} (absent : s.queue.contains k = false) :
    (¬ r.Waits k) ∧ s.reenter k change = (false, s) := by
  refine ⟨?_, ?_⟩
  · rw [h.waits_iff, absent]
    decide
  · rw [JobQueue.reenter, absent]
    rfl

/-- **A call of the queue** is served. There is one case for each method, and each is one of the
lemmas above. -/
theorem act (h : s.Shows r) {c : QueueCall} (fresh : s.UsedFresh (.act c)) :
    ∃ r', r.Serves (.act c) (.act (s.call c).1) r' ∧ (s.call c).2.Shows r' := by
  cases c with
  | assign job =>
    exact ⟨_, .assign job, h.coherent, h.numbered, h.books,
      congrArg (fun t : JobTable => t.modify job.id (fun _ => job)) h.jobs, h.waiting, h.ticket,
      h.capacity⟩
  | push k => exact h.push fresh
  | updatePriority k p =>
    obtain ⟨habsent, heq⟩ := h.reenter fresh
    have hcall : s.call (.updatePriority k p) = (.accepted false, s) := by
      rw [JobQueue.call, updatePriority, heq]
    rw [hcall]
    exact ⟨r, .notUpdated k p habsent, h⟩
  | reschedule k t =>
    obtain ⟨habsent, heq⟩ := h.reenter fresh
    have hcall : s.call (.reschedule k t) = (.accepted false, s) := by
      rw [JobQueue.call, reschedule, heq]
    rw [hcall]
    exact ⟨r, .notRescheduled k t habsent, h⟩
  | remove k => exact h.remove k
  | pop now => exact h.pop now
  | peek => exact ⟨r, h.peek, h.cleanupRemoved⟩
  | peekReady now => exact ⟨r, h.peekReady now, h.cleanupRemoved⟩
  | clear =>
    have hcall : s.call .clear = (.size r.waiting.card, { s with queue := s.queue.clear.2 }) := by
      rw [← h.len_eq]
      rfl
    rw [hcall]
    exact ⟨_, .clear, h.clear⟩

/-- **A use of the queue** is served. -/
theorem use (h : s.Shows r) {u : QueueUse} (fresh : s.UsedFresh u) :
    ∃ r', r.Serves u (s.use u).1 r' ∧ (s.use u).2.Shows r' := by
  cases u with
  | act c => exact h.act fresh
  | contains k => exact ⟨r, .contains k _ h.waits_iff.symm, h⟩
  | get k =>
    refine ⟨r, ?_, h⟩
    show r.Serves (.get k) (.found (s.queue.get k)) r
    rw [h.coherent.get_eq]
    split
    · rename_i hk
      exact .get k (h.waits_iff.mpr hk)
    · rename_i hk
      exact .notGot k (fun hwaits => hk (h.waits_iff.mp hwaits))
  | size =>
    refine ⟨r, ?_, h⟩
    show r.Serves .size (.size s.queue.len) r
    rw [h.len_eq]
    exact .size
  | isEmpty =>
    refine ⟨r, .isEmpty _ ?_, h⟩
    have hlen := h.len_eq
    rw [isEmpty, decide_eq_true_eq, ← Finset.card_eq_zero]
    omega
  | iterate =>
    refine ⟨r, ?_, h⟩
    show r.Serves .iterate (.listed s.queue.iter) r
    rw [h.coherent.iter_eq h.numbered]
    exact .iterate s.queue.live ⟨h.nodup_live, fun _ => h.mem_waiting.symm, s.queue.sorted_live⟩
  | nextScheduledTime =>
    refine ⟨r, ?_, h.cleanupRemoved⟩
    show r.Serves .nextScheduledTime (.time s.queue.getNextScheduledTime.1) r
    -- the look at the next time sweeps marked entries off the heap, which shows the same room
    cases hnext : s.queue.getNextScheduledTime.1 with
    | none =>
      exact .noNext (h.waiting_eq_empty_iff.mpr
        (h.coherent.getNextScheduledTime_eq_none_iff.mp hnext))
    | some t =>
      obtain ⟨e, he, hfirst, rfl⟩ := h.coherent.getNextScheduledTime_eq_some_iff.mp hnext
      exact .next e (h.mem_waiting.mpr he) (fun e' he' => hfirst e' (h.mem_waiting.mp he'))
  | stats now =>
    refine ⟨r, ?_, h⟩
    obtain ⟨stats, heq, htotal, hready, hsum, hpriorities, hheap⟩ :=
      h.coherent.getStats h.books now
    show r.Serves (.stats now) (.stats (s.queue.getStats now)) r
    rw [heq]
    have hcard := h.card_waiting
    have hdue : (r.waiting.filter (fun e => e.scheduledTime ≤ now)).card
        = s.queue.live.countP (due now) := h.card_filter _
    refine .stats now stats ⟨by rw [htotal, hcard], hready.trans hdue.symm, ?_, fun p => ?_, ?_⟩
    · -- what is not due is scheduled for later
      have hsplit := Finset.card_filter_add_card_filter_not (s := r.waiting)
        (fun e : QueueEntry => e.scheduledTime ≤ now)
      simp only [not_le] at hsplit
      omega
    · rw [hpriorities, h.card_filter]
    · rw [hheap, hcard]

end Shows

/-- The capacity of a new queue, of which zero means that there is none. -/
def capacityOf (maxSize : Option ℕ) : Option ℕ := if maxSize = some 0 then none else maxSize

theorem shows_start (jobs : JobTable) (maxSize : Option ℕ) :
    (start jobs maxSize).Shows (initial jobs (capacityOf maxSize)) where
  coherent := coherent_new maxSize
  numbered := ⟨List.Pairwise.nil, fun _ he => absurd he List.not_mem_nil⟩
  books := accounted_new maxSize
  jobs := rfl
  waiting := rfl
  ticket := rfl
  capacity := rfl

/-- **The queue is a waiting room.** Along every history of calls and looks in which every id
enters fresh, at any readings of the clock, every answer is one that the waiting room allows:
a set of entries, at most one for a job, from which a pop takes the least that is due. -/
theorem refines_waitingRoom (jobs : JobTable) (maxSize : Option ℕ) (us : List QueueUse)
    (fresh : History.Admitted (next use) UsedFresh (start jobs maxSize) us) :
    ∃ r, Allows WaitingRoom.Serves (initial jobs (capacityOf maxSize)) us
        (replies use (start jobs maxSize) us) r
      ∧ (History.after (next use) (start jobs maxSize) us).Shows r :=
  allows_of_simulation fresh (shows_start jobs maxSize) (fun _ _ _ h ok => h.use ok)

/-- A queue for two jobs: the third is refused until one is popped. The urgent job of the future
is passed over, and removed. -/
theorem refines_waitingRoom_of_two :
    let us : List QueueUse :=
      [.act (.assign { id := 2, priority := .critical, scheduledAt := some ⟨100, none⟩ }),
        .act (.push 2), .act (.push 1), .act (.push 3), .iterate, .act (.peekReady 5),
        .act (.pop 5), .stats 5, .act (.push 3), .nextScheduledTime, .act (.remove 2), .size]
    ∃ r, Allows WaitingRoom.Serves (initial .fresh (some 2)) us
        (replies use (start .fresh (some 2)) us) r ∧ r.Waits 3 ∧ ¬ r.Waits 2 := by
  intro us
  obtain ⟨r, hallows, hshows⟩ := refines_waitingRoom .fresh (some 2) us (by decide +kernel)
  refine ⟨r, hallows, hshows.waits_iff.mpr (by decide +kernel), ?_⟩
  rw [hshows.waits_iff]
  decide +kernel

end JobQueue

end JobOrchestrator
