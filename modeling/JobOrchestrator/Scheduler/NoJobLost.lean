import JobOrchestrator.Scheduler.Dispatch

/-!
# No job is lost

A job in the store that is SCHEDULED is in the queue or in a worker's hands
– as long as the two pushes that nobody checks come out well. `run_job`
does not look at what the push of a retry answers, so a retry whose push
finds the queue full is lost; and `submit` stores a job before it makes the
transition to SCHEDULED, so a job that is SCHEDULED already stays in the
store without ever being pushed. `World.Roomy` rules out these two, and
nothing else.
-/

namespace JobOrchestrator

namespace World

variable {order : IterationOrder UUID} {w w' : World}

/-- **The condition of the theorem**, on the calls of clients without DAGs: a job
that is SCHEDULED is not submitted, unless it is refused at once, and the
push of a retry that is still SCHEDULED finds room. -/
def Roomy (w : World) : WorldStep → Prop
  | .submit job => w.sched.core.state job = .scheduled →
    job ∈ w.sched.core.store ∨ w.sched.core.atCapacity = true
  | .cancelJob _ _ => True
  | .getNextJob _ _ => True
  | .run worker _ => ∀ task r, w.workers worker = some task → task.pc = .push r →
    w.sched.core.state task.job = .scheduled → w.sched.core.queue.full = false
  | .submitDag _ _ => False
  | .cancelDag _ _ => False

/-- A SCHEDULED job of the store is in the queue or held. -/
def Found (w : World) (k : UUID) : Prop :=
  k ∈ w.sched.core.store → w.sched.core.state k = .scheduled →
    w.sched.core.queue.contains k = true ∨ w.Held k

/-- **The invariant.** After a push that the queue refused, the job is not SCHEDULED. A job that
is stored is in the queue, in the hands of a worker, or ended. -/
structure NoneLost (w : World) : Prop where
  sound : w.Sound
  noDags : w.sched.executor = {}
  found : ∀ k, w.Found k
  refused : ∀ i task r, w.workers i = some task → task.pc = .countRetry false r →
    w.sched.core.state task.job ≠ .scheduled

/-- Without DAGs there is nobody to tell, and the report changes nothing. -/
theorem notifyComplete_of_noDags {s : Scheduler} (h : s.executor = {})
    (now : Time) (job : UUID) : s.notifyComplete order now job = s := by
  unfold Scheduler.notifyComplete DAGExecutor.getDagForJob
  rw [h]
  rfl

theorem notifyFailed_of_noDags {s : Scheduler} (h : s.executor = {})
    (now : Time) (job : UUID) (error : String) : s.notifyFailed now job error = s := by
  unfold Scheduler.notifyFailed DAGExecutor.getDagForJob
  rw [h]
  rfl

/-- The other workers hold what they held. -/
theorem Held.assign {k : UUID} (h : w.Held k) {worker : ℕ} {task : Task}
    (has : w.workers worker = some task) (other : k ≠ task.job ∨ task.pc.holds = false)
    (sched : Scheduler) (next : Option Task) : (w.assign worker sched next).Held k := by
  obtain ⟨i, t, ht, hjob, hholds⟩ := h
  have hi : i ≠ worker := by
    rintro rfl
    rw [has, Option.some.injEq] at ht
    subst ht
    rcases other with hne | hfree
    · exact hne hjob.symm
    · exact absurd (hfree.symm.trans hholds) (by decide)
  exact ⟨i, t, by rwa [workers_assign_of_ne hi], hjob, hholds⟩

/-- A worker holds what it goes on with. -/
theorem held_assign_self (w : World) (worker : ℕ) (sched : Scheduler) {next : Option Task}
    {t : Task} (ht : next = some t) (hholds : t.pc.holds = true) :
    (w.assign worker sched next).Held t.job :=
  ⟨worker, t, by rw [workers_assign_self, ht], rfl, hholds⟩

end World

/-- Where a run with a held job ends, the job is not SCHEDULED, unless the push of a
retry was refused. -/
theorem RunPc.Moves.last {pc : RunPc} {st st' : JobState} (h : Moves pc st none st')
    (inside : st ∈ pc.states) (holds : pc.holds = true) :
    st' ≠ .scheduled ∨ st' = st ∧ ∃ r, pc = .countRetry false r := by
  cases h with
  | outerRefused hpc cannot =>
    refine Or.inl ?_
    rintro rfl
    cases hpc <;> simp [RunPc.states] at inside
  | completed | failed | overflowed =>
    refine Or.inl ?_
    rintro rfl
    simp [RunPc.states] at inside
  | retried pushed r =>
    cases pushed with
    | true => cases holds
    | false => exact Or.inr ⟨rfl, r, rfl⟩

/-- The automaton alone does not come to the end of a push. -/
theorem RunPc.Moves.ne_countRetry {pc pc' : RunPc} {st st' : JobState}
    (h : Moves pc st (some pc') st') (pushed : Bool) (r : JobResult) :
    pc' ≠ .countRetry pushed r := by
  rintro rfl
  cases h with
  | inner hpc | outer hpc => cases hpc
  | handled _ hnext => rcases hnext with hn | hn | hn <;> cases hn

namespace World

variable {order : IterationOrder UUID} {w w' : World}

namespace NoneLost

/-- **A call of a client**: the executor has no DAGs, the jobs that are SCHEDULED are
found, and the jobs of the workers are in the states they were in, or cancelled. -/
theorem client (h : w.NoneLost) {sched : Scheduler} (sound : (w.withSched sched).Sound)
    (executor : sched.executor = w.sched.executor)
    (found : ∀ k, (w.withSched sched).Found k)
    (states : ∀ k ∈ w.sched.core.store, sched.core.state k = w.sched.core.state k
      ∨ sched.core.state k = .cancelled) : (w.withSched sched).NoneLost where
  sound := sound
  noDags := executor.trans h.noDags
  found := found
  refused i task r ht hpc hst := by
    rcases states task.job (h.sound.known i task ht) with heq | heq
    · exact h.refused i task r ht hpc (heq.symm.trans hst)
    · cases heq.symm.trans hst

/-- **`submit`** keeps it: what it stores it also queues, unless the queue is full, which the
condition rules out. -/
theorem submit (h : w.NoneLost) (order : IterationOrder UUID) (job : UUID)
    (roomy : w.Roomy (.submit job)) : (w.withSched (w.sched.submit job).1).NoneLost := by
  have hsound := h.sound.step (show w.step order (.submit job) = some _ from rfl)
  revert hsound
  unfold Scheduler.submit
  refine SchedulerCore.submit_elim (fun r hcases => ?_)
  intro hsound
  cases hcases with
  | refused => exact h
  | stranded fresh room state =>
    refine h.client hsound rfl ?_ (fun k _ => Or.inl rfl)
    intro k hk hst
    rcases Finset.mem_insert.mp hk with rfl | hk
    · -- the condition leaves only submissions that are refused at once
      rcases roomy hst with hknown | hfull
      · exact absurd hknown fresh
      · exact absurd (room.symm.trans hfull) (by decide)
    · exact h.found k hk hst
  | undone fresh _ _ _ c' states store queue =>
    have hne : ∀ k ∈ w.sched.core.store, c'.state k = w.sched.core.state k := by
      intro k hk
      rw [states, if_neg (fun heq : k = job => fresh (heq ▸ hk))]
    refine h.client hsound rfl ?_ (fun k hk => Or.inl (hne k hk))
    intro k hk hst
    have hk : k ∈ w.sched.core.store := store ▸ hk
    show c'.queue.contains k = true ∨ _
    rw [queue]
    exact h.found k hk ((hne k hk).symm.trans hst)
  | accepted fresh _ _ _ c' states store queue =>
    have hne : ∀ k ∈ w.sched.core.store, c'.state k = w.sched.core.state k := by
      intro k hk
      rw [states, if_neg (fun heq : k = job => fresh (heq ▸ hk))]
    obtain ⟨j, hid, hqueue⟩ := queue
    refine h.client hsound rfl ?_ (fun k hk => Or.inl (hne k hk))
    intro k hk hst
    have hk : k ∈ insert job w.sched.core.store := store ▸ hk
    show c'.queue.contains k = true ∨ _
    rw [hqueue, ThreadSafePriorityQueue.contains_insert, hid]
    rcases Finset.mem_insert.mp hk with heq | hk
    · exact Or.inl (Or.inl heq)
    · exact (h.found k hk ((hne k hk).symm.trans hst)).imp_left Or.inr

/-- **`cancel_job`** keeps it: a job that it takes out of the queue has ended. -/
theorem cancelJob (h : w.NoneLost) (order : IterationOrder UUID) (job : UUID) (now : Time) :
    (w.withSched (w.sched.cancelJob now job).1).NoneLost := by
  have hsound := h.sound.step (show w.step order (.cancelJob job now) = some _ from rfl)
  revert hsound
  unfold Scheduler.cancelJob
  refine SchedulerCore.cancelJob_elim (fun r hcases => ?_)
  intro hsound
  cases hcases with
  | unchanged => exact h
  | done stored state c' states store queue =>
    have hstate : ∀ k, k = job ∧ c'.state k = .cancelled
        ∨ k ≠ job ∧ c'.state k = w.sched.core.state k := by
      intro k
      rw [states]
      by_cases hk : k = job
      · exact Or.inl ⟨hk, if_pos hk⟩
      · exact Or.inr ⟨hk, if_neg hk⟩
    refine h.client hsound rfl ?_ (fun k _ => ?_)
    · intro k hk hst
      rcases hstate k with ⟨-, hk'⟩ | ⟨hne, hk'⟩
      · cases hk'.symm.trans hst
      · show c'.queue.contains k = true ∨ _
        rw [queue, ThreadSafePriorityQueue.contains_remove]
        exact (h.found k (store ▸ hk) (hk'.symm.trans hst)).imp_left (fun hc => ⟨hc, hne⟩)
    · rcases hstate k with ⟨-, hk'⟩ | ⟨-, hk'⟩
      · exact Or.inr hk'
      · exact Or.inl hk'

/-- **A worker asks for a job**: the job it gets is in its hands. -/
theorem getNextJob (h : w.NoneLost) (order : IterationOrder UUID) {worker : ℕ} {now : Time}
    (taken : w.step order (.getNextJob worker now) = some w') : w'.NoneLost := by
  have hsound := h.sound.step taken
  obtain ⟨hfree, rfl⟩ := step_getNextJob taken
  have hold : ∀ {k sched next}, w.Held k → (w.assign worker sched next).Held k := by
    rintro k sched next ⟨i, t, ht, hjob, hholds⟩
    exact ⟨i, t, workers_assign_of_free hfree ht sched next, hjob, hholds⟩
  revert hsound
  rcases Scheduler.getNextJob_cases now w.sched with hnone | hsome
  · rw [hnone]
    intro hsound
    refine ⟨hsound, h.noDags, fun k hk hst => (h.found k hk hst).imp_right hold, ?_⟩
    intro i t r ht
    rcases workers_assign ht with ⟨-, hn⟩ | ⟨-, ht⟩
    · cases hn
    · exact h.refused i t r ht
  · rw [hsome]
    intro hsound
    refine ⟨hsound, h.noDags, fun k hk hst => ?_, ?_⟩
    · -- the job that leaves the queue goes into the worker's hands
      obtain ⟨-, hcontains, -, -⟩ := h.sound.custody.coherent.dequeue now
      rcases h.found k hk hst with hc | hheld
      · by_cases hget : (w.sched.core.queue.dequeue now).1 = some k
        · refine Or.inr ?_
          rw [hget]
          exact held_assign_self w worker _ (t := { job := k }) rfl rfl
        · exact Or.inl ((hcontains k).mpr ⟨hc, hget⟩)
      · exact Or.inr (hold hheld)
    · intro i t r ht hpc
      rcases workers_assign ht with ⟨-, hn⟩ | ⟨-, ht⟩
      · obtain ⟨job, -, rfl⟩ := Option.map_eq_some_iff.mp hn
        cases hpc
      · exact h.refused i t r ht hpc

/-- **A step on the worker's own job.** The worker still holds the job, or its state is a
terminal one. -/
theorem own (h : w.NoneLost) {worker : ℕ} {task : Task} {sched : Scheduler}
    {status : RunStatus} (has : w.workers worker = some task)
    (own : OwnJob task.job w.sched sched)
    (stays : ∀ next, status.task? = some next → next.job = task.job)
    (moves : task.pc.Moves (w.sched.core.state task.job) (status.task?.map Task.pc)
      (sched.core.state task.job)) : (w.assign worker sched status.task?).NoneLost := by
  have hstore := own.store (h.sound.known worker task has)
  refine ⟨h.sound.own has own stays moves, own.executor.trans h.noDags, ?_, ?_⟩
  · intro k hk hst
    show sched.core.queue.contains k = true ∨ _
    rw [own.queue]
    have hk : k ∈ w.sched.core.store := hstore ▸ hk
    cases hholds : task.pc.holds with
    | false =>
      -- the job was pushed back, and is found there
      obtain ⟨-, hstate⟩ := moves.of_not_holds hholds
      have hsame : w.sched.core.state k = .scheduled := by
        by_cases hkj : k = task.job
        · rw [hkj, ← hstate, ← hkj]
          exact hst
        · exact (own.others k hkj).symm.trans hst
      exact (h.found k hk hsame).imp_right (fun hheld => hheld.assign has (Or.inr hholds) _ _)
    | true =>
      by_cases hkj : k = task.job
      · subst hkj
        have hin := h.sound.custody.inside task ⟨worker, has, hholds⟩
        cases hnext : status.task? with
        | none =>
          rw [hnext] at moves
          rcases moves.last hin hholds with hne | ⟨hsame, r, hpc⟩
          · exact absurd hst hne
          · -- the push was refused, so the job is not SCHEDULED
            exact absurd (hsame.symm.trans hst) (h.refused worker task r has hpc)
        | some t =>
          rw [hnext] at moves
          have hheld := held_assign_self w worker sched (show some t = some t from rfl)
            (moves.states hin).2
          rw [stays t hnext] at hheld
          exact Or.inr hheld
      · exact (h.found k hk ((own.others k hkj).symm.trans hst)).imp_right
          (fun hheld => hheld.assign has (Or.inl hkj) _ _)
  · intro i t r ht hpc
    rcases workers_assign ht with ⟨-, hn⟩ | ⟨hi, ht⟩
    · rw [hn] at moves
      exact absurd hpc (moves.ne_countRetry false r)
    · show sched.core.state t.job ≠ _
      have hstate := h.refused i t r ht hpc
      have htholds : t.pc.holds = true := by rw [hpc]; rfl
      cases hholds : task.pc.holds with
      | true =>
        rw [own.others _ (h.sound.apart has hholds ht hi htholds)]
        exact hstate
      | false =>
        obtain ⟨-, hsame⟩ := moves.of_not_holds hholds
        by_cases htj : t.job = task.job
        · rw [htj, hsame, ← htj]
          exact hstate
        · rw [own.others _ htj]
          exact hstate

/-- **A step that changes neither the scheduler nor whether the job is held.** -/
theorem goto (h : w.NoneLost) {worker : ℕ} {task : Task} {pc : RunPc}
    (has : w.workers worker = some task) (holds : pc.holds = true)
    (notCount : ∀ r, pc ≠ .countRetry false r)
    (sound : (w.assign worker w.sched (some { task with pc := pc })).Sound) :
    (w.assign worker w.sched (some { task with pc := pc })).NoneLost := by
  refine ⟨sound, h.noDags, fun k hk hst => ?_, ?_⟩
  · refine (h.found k hk hst).imp_right (fun hheld => ?_)
    by_cases hkj : k = task.job
    · rw [hkj]
      exact held_assign_self w worker _ (t := { task with pc := pc }) rfl holds
    · exact hheld.assign has (Or.inl hkj) _ _
  · intro i t r ht hpc
    rcases workers_assign ht with ⟨-, hn⟩ | ⟨-, ht⟩
    · cases hn
      exact absurd hpc (notCount r)
    · exact h.refused i t r ht hpc

/-- **The push of a retry** puts the job back into the queue; the answer is not looked at, so a
full queue would lose it. -/
theorem push (h : w.NoneLost) {worker : ℕ} {input : RunInput} {task : Task} {r : JobResult}
    (has : w.workers worker = some task) (here : task.pc = .push r)
    (roomy : w.Roomy (.run worker input)) :
    (w.assign worker (w.sched.pushRetry task.job).2 (some { task with
      pc := .countRetry (w.sched.pushRetry task.job).1 r })).NoneLost := by
  have hpushed := repushed task.job w.sched
  have hholds : task.pc.holds = true := by rw [here]; rfl
  refine ⟨h.sound.push has here, hpushed.executor.trans h.noDags, ?_, ?_⟩
  · intro k hk hst
    have hk : k ∈ w.sched.core.store := hpushed.store ▸ hk
    have hst : w.sched.core.state k = .scheduled := (hpushed.states k).symm.trans hst
    show (w.sched.pushRetry task.job).2.core.queue.contains k = true ∨ _
    by_cases hkj : k = task.job
    · -- the condition: the queue is not full when a SCHEDULED job is pushed back
      rcases hpushed.queue with ⟨-, -, j, hid, hqueue⟩ | ⟨hfull, -⟩
      · rw [hqueue, ThreadSafePriorityQueue.contains_insert, hid]
        exact Or.inl (Or.inl hkj)
      · exact absurd ((roomy task r has here (hkj ▸ hst)).symm.trans hfull) (by decide)
    · rcases h.found k hk hst with hc | hheld
      · refine Or.inl ?_
        rcases hpushed.queue with ⟨-, -, j, -, hqueue⟩ | ⟨-, -, hqueue⟩
        · rw [hqueue, ThreadSafePriorityQueue.contains_insert]
          exact Or.inr hc
        · rw [hqueue]
          exact hc
      · exact Or.inr (hheld.assign has (Or.inl hkj) _ _)
  · intro i t r' ht hpc
    show (w.sched.pushRetry task.job).2.core.state t.job ≠ _
    rw [hpushed.states]
    rcases workers_assign ht with ⟨-, hn⟩ | ⟨-, ht⟩
    · cases hn
      injection hpc with hno
      intro hst
      rcases hpushed.queue with ⟨-, hyes, -⟩ | ⟨hfull, -⟩
      · exact absurd (hyes.symm.trans hno) (by decide)
      · exact absurd ((roomy task r has here hst).symm.trans hfull) (by decide)
    · exact h.refused i t r' ht hpc

/-- **Every admitted step keeps the invariant.** Whatever step it is, each stored job is found
again in one of the three ways. -/
theorem step (h : w.NoneLost) {l : WorldStep} (roomy : w.Roomy l)
    (taken : w.step order l = some w') : w'.NoneLost := by
  cases l with
  | submit job =>
    cases taken
    exact h.submit order job roomy
  | cancelJob job now =>
    cases taken
    exact h.cancelJob order job now
  | getNextJob worker now => exact h.getNextJob order taken
  | submitDag g now => exact roomy.elim
  | cancelDag dagId now => exact roomy.elim
  | run worker input =>
    have hsound := h.sound.step taken
    obtain ⟨task, r, has, hstep, rfl⟩ := step_run taken
    cases hstep with
    | own own stays moves => exact h.own has own stays moves
    | notifyComplete r here =>
      rw [notifyComplete_of_noDags h.noDags] at hsound ⊢
      exact h.goto has rfl (fun _ heq => by cases heq) hsound
    | notifyFailed r here =>
      rw [notifyFailed_of_noDags h.noDags] at hsound ⊢
      exact h.goto has rfl (fun _ heq => by cases heq) hsound
    | push r here => exact h.push has here roomy

end NoneLost

end World

end JobOrchestrator
