import JobOrchestrator.Workers.WorkerPool
import JobOrchestrator.Workers.Workplace

/-!
# The process worker

`ProcessWorker` of `workers/process_worker.py`, from its start on: the coordinator
thread, which gets the jobs and reports them, the process, which executes them, the two
queues between them, and any number of callers of `stop`, the pool among them. Each is
taken apart into the reads and writes of what it shares with the others, which are one
step each. A process can die at any time.

The jobs in the worker's hands are the coordinator's `current_job`, until that is
reported or the coordinator has left its loop: then nobody has it any more.
-/

namespace JobOrchestrator

/-- What is put into the job queue. -/
inductive JobMessage
  | job (id : UUID)
  | poisonPill

/-- **Where the coordinator is**, in `_coordinator_loop`. -/
inductive CoordinatorPc
  /-- `while not self._coordinator_stop.is_set()`. -/
  | head
  /-- `if self._state == WorkerState.STOPPING`. -/
  | checking
  /-- `self._result_queue.get_nowait()`. -/
  | polling
  /-- `_handle_result`. -/
  | handling (outcome : Outcome)
  /-- `self._state = WorkerState.IDLE`. -/
  | handled
  /-- `current_job = None`. -/
  | clearing
  /-- `if self._state == WorkerState.IDLE and current_job is None`. -/
  | deciding
  /-- `get_next_job`. -/
  | fetching
  /-- `self._state = WorkerState.BUSY`. -/
  | fetched (job : UUID)
  /-- `self._job_queue.put(job_data)`. -/
  | sending (job : UUID)
  | ended

/-- **Where the process is**, in `_worker_process_target`. -/
inductive ProcessPc
  /-- `while not stop_event.is_set()`. -/
  | head
  /-- `job_queue.get(timeout=poll_timeout)`. -/
  | receiving
  | executing (job : UUID)
  /-- `result_queue.put(..)`. -/
  | sending (job : UUID) (outcome : Outcome)
  | gone

/-- **Where a caller of `stop` is.** -/
inductive StopPc
  | idle
  /-- `self._state = WorkerState.STOPPING`. -/
  | entering (wait timed : Bool)
  /-- `self._coordinator_stop.set()`. -/
  | stoppingCoordinator (wait timed : Bool)
  /-- `self._coordinator_thread.join(timeout=2.0)`. -/
  | joiningCoordinator (wait timed : Bool)
  /-- `self._stop_event.set()`. -/
  | signalling (wait timed : Bool)
  /-- `self._job_queue.put(None)`. -/
  | poisoning (wait timed : Bool)
  /-- `self._process.join(timeout=timeout)`. -/
  | joining (timed : Bool)
  /-- `self._process.terminate()`. -/
  | terminating
  /-- `self._state = WorkerState.STOPPED`. -/
  | finishing
  /-- `self._job_queue.close()`. -/
  | closingJobs
  /-- `self._result_queue.close()`. -/
  | closingResults

/-- **The worker**: what its threads and its process share, and where they are. Between the
coordinator and the process there are the two queues and an event; a process that dies takes with
it the job it was at. -/
structure ProcessWorker where
  state : WorkerState := .idle
  coordinator : CoordinatorPc := .head
  /-- The coordinator's `current_job`. -/
  currentJob : Option UUID := none
  coordinatorStop : Bool := false
  stopEvent : Bool := false
  jobQueue : List JobMessage := []
  jobQueueClosed : Bool := false
  resultQueue : List (UUID × Outcome) := []
  resultQueueClosed : Bool := false
  process : ProcessPc := .head
  stops : ℕ → StopPc := fun _ => .idle

/-- What a step of the coordinator reads from outside. -/
structure CoordinatorInput where
  now : Time := 0
  draw : ℚ := 0
  traceback : String := ""
  /-- `get_next_job` has time left. -/
  again : Bool := false

/-- **A step of the worker.** -/
inductive ProcessStep
  /-- A call of `stop`, with or without a timeout. -/
  | stop (caller : ℕ) (wait timed : Bool)
  /-- A caller of `stop` goes on. -/
  | stopping (caller : ℕ)
  | coordinate (input : CoordinatorInput)
  /-- The process goes on: what a function comes to, and whether it can be sent. -/
  | execute (outcome : Outcome) (arrives : Bool)
  /-- The process dies. -/
  | crash

namespace ProcessWorker

/-- The coordinator goes on elsewhere. -/
def goto (w : ProcessWorker) (pc : CoordinatorPc) : ProcessWorker := { w with coordinator := pc }

/-- The process goes on elsewhere. -/
def gotoProcess (w : ProcessWorker) (pc : ProcessPc) : ProcessWorker := { w with process := pc }

/-- A caller of `stop` goes on elsewhere. -/
def gotoStop (w : ProcessWorker) (caller : ℕ) (pc : StopPc) : ProcessWorker :=
  { w with stops := Function.update w.stops caller pc }

/-- What the coordinator does after a report: what is raised is taken for an empty queue. -/
def afterReport (w : ProcessWorker) : Except OrchestratorError Unit → ProcessWorker
  | .ok _ => w.goto .handled
  | .error _ => w.goto .deciding

/-- **The coordinator's next step.** The loop reads and writes its fields one by one, so a caller
of `stop` may come between any two. -/
def coordinate (w : ProcessWorker) (input : CoordinatorInput) :
    Option (WorkerAction ProcessWorker) :=
  match w.coordinator with
  | .head => some (.silent (w.goto (if w.coordinatorStop then .ended else .checking)))
  | .checking => some (.silent (w.goto (if w.state = .stopping then .ended else .polling)))
  | .polling =>
    if w.resultQueueClosed then some (.silent (w.goto .deciding))
    else
      match w.resultQueue with
      | [] => some (.silent (w.goto .deciding))
      | (_, outcome) :: rest =>
        some (.silent { w with resultQueue := rest, coordinator := .handling outcome })
  | .handling outcome =>
    match w.currentJob with
    | none => some (.silent (w.goto .handled))
    | some job =>
      match outcome with
      | .returned result => some (.completeJob job result input.now w.afterReport)
      | .raised error =>
        -- only the message came back from the process
        some (.failJob job (.plain error.message) input.now input.draw input.traceback
          w.afterReport)
  | .handled => some (.silent { w with state := .idle, coordinator := .clearing })
  | .clearing => some (.silent { w with currentJob := none, coordinator := .deciding })
  | .deciding =>
    some (.silent (w.goto (if w.state = .idle ∧ w.currentJob = none then .fetching else .head)))
  | .fetching =>
    some (.getNextJob input.now (fun answer =>
      match answer with
      | none => w.goto (if input.again then .fetching else .head)
      | some job => { w with currentJob := some job, coordinator := .fetched job }))
  | .fetched job => some (.silent { w with state := .busy, coordinator := .sending job })
  | .sending job =>
    -- a closed queue raises, and the job is current all the same
    if w.jobQueueClosed then some (.silent (w.goto .head))
    else some (.silent { w with jobQueue := w.jobQueue ++ [.job job], coordinator := .head })
  | .ended => none

/-- **The process's next step.** -/
def execute (w : ProcessWorker) (outcome : Outcome) (arrives : Bool) : Option ProcessWorker :=
  match w.process with
  | .head => some (w.gotoProcess (if w.stopEvent then .gone else .receiving))
  | .receiving =>
    match w.jobQueue with
    | [] => some (w.gotoProcess .head)
    | .poisonPill :: rest => some { w with jobQueue := rest, process := .gone }
    | .job job :: rest => some { w with jobQueue := rest, process := .executing job }
  | .executing job => some (w.gotoProcess (.sending job outcome))
  | .sending job outcome =>
    if arrives then
      some { w with resultQueue := w.resultQueue ++ [(job, outcome)], process := .head }
    else some (w.gotoProcess .head)
  | .gone => none

/-- **The next step of a caller of `stop`.** -/
def stopping (w : ProcessWorker) (caller : ℕ) : Option ProcessWorker :=
  match w.stops caller with
  | .idle => none
  | .entering wait timed =>
    some { w.gotoStop caller (.stoppingCoordinator wait timed) with state := .stopping }
  | .stoppingCoordinator wait timed =>
    some { w.gotoStop caller (.joiningCoordinator wait timed) with coordinatorStop := true }
  | .joiningCoordinator wait timed => some (w.gotoStop caller (.signalling wait timed))
  | .signalling wait timed =>
    some { w.gotoStop caller (.poisoning wait timed) with stopEvent := true }
  | .poisoning wait timed =>
    let sent := w.gotoStop caller (if wait then .joining timed else .closingJobs)
    if w.jobQueueClosed then some sent
    else some { sent with jobQueue := w.jobQueue ++ [.poisonPill] }
  | .joining timed =>
    match w.process with
    | .gone => some (w.gotoStop caller .finishing)
    | _ => if timed then some (w.gotoStop caller .terminating) else none
  | .terminating => some ((w.gotoStop caller .finishing).gotoProcess .gone)
  | .finishing => some { w.gotoStop caller .closingJobs with state := .stopped }
  | .closingJobs => some { w.gotoStop caller .closingResults with jobQueueClosed := true }
  | .closingResults => some { w.gotoStop caller .idle with resultQueueClosed := true }

/-- **`stop`**: a worker that is stopped already is left alone. -/
def stop (w : ProcessWorker) (caller : ℕ) (wait timed : Bool) : Option ProcessWorker :=
  match w.stops caller with
  | .idle => some (if w.state = .stopped then w else w.gotoStop caller (.entering wait timed))
  | _ => none

/-- **One step.** -/
def step (w : ProcessWorker) : ProcessStep → Option (WorkerAction ProcessWorker)
  | .stop caller wait timed => (w.stop caller wait timed).map .silent
  | .stopping caller => (w.stopping caller).map .silent
  | .coordinate input => w.coordinate input
  | .execute outcome arrives => (w.execute outcome arrives).map .silent
  | .crash => some (.silent (w.gotoProcess .gone))

/-- **The job in the worker's hands**: the current one, unless it has been reported, or the
coordinator has ended. -/
def hands (w : ProcessWorker) : List UUID :=
  match w.coordinator with
  | .handled | .clearing | .fetching | .ended => []
  | _ => w.currentJob.toList

/-- The process is gone, and the coordinator has ended. -/
def hasEnded (w : ProcessWorker) : Bool :=
  match w.coordinator, w.process with
  | .ended, .gone => true
  | _, _ => false

/-! ## What a step does to the hands -/

variable {w next : ProcessWorker} {job k : UUID} {now : Time} {l : ProcessStep}

/-- The coordinator is where it was, with the job that it had. -/
def SameCoordinator (w next : ProcessWorker) : Prop :=
  next.coordinator = w.coordinator ∧ next.currentJob = w.currentJob

theorem SameCoordinator.hands (h : w.SameCoordinator next) : next.hands = w.hands := by
  unfold ProcessWorker.hands
  rw [h.1, h.2]

theorem sameCoordinator_stop {caller : ℕ} {wait timed : Bool}
    (taken : w.stop caller wait timed = some next) : w.SameCoordinator next := by
  unfold stop at taken
  split at taken
  · cases taken
    split <;> exact ⟨rfl, rfl⟩
  · cases taken

theorem sameCoordinator_stopping {caller : ℕ} (taken : w.stopping caller = some next) :
    w.SameCoordinator next := by
  unfold stopping at taken
  cases hpc : w.stops caller with
  | idle =>
    rw [hpc] at taken
    cases taken
  | poisoning wait timed =>
    simp only [hpc] at taken
    split at taken <;> cases taken <;> exact ⟨rfl, rfl⟩
  | joining timed =>
    simp only [hpc] at taken
    split at taken
    · cases taken
      exact ⟨rfl, rfl⟩
    · split at taken
      · cases taken
        exact ⟨rfl, rfl⟩
      · cases taken
  | _ =>
    simp only [hpc] at taken
    cases taken
    exact ⟨rfl, rfl⟩

theorem sameCoordinator_execute {outcome : Outcome} {arrives : Bool}
    (taken : w.execute outcome arrives = some next) : w.SameCoordinator next := by
  unfold execute at taken
  cases hpc : w.process with
  | gone =>
    rw [hpc] at taken
    cases taken
  | receiving | sending job outcome =>
    simp only [hpc] at taken
    split at taken <;> cases taken <;> exact ⟨rfl, rfl⟩
  | _ =>
    simp only [hpc] at taken
    cases taken
    exact ⟨rfl, rfl⟩

/-- The coordinator is about to leave its loop. -/
def Leaves (w : ProcessWorker) : Prop :=
  match w.coordinator with
  | .head => w.coordinatorStop = true
  | .checking => w.state = .stopping
  | _ => False

instance (w : ProcessWorker) : Decidable w.Leaves := by
  unfold Leaves
  split <;> infer_instance

/-- **What the coordinator does**: it lets go of the current job only by leaving its loop, it gets
a job with empty hands, and it reports the current one. -/
inductive Coordinated (w : ProcessWorker) (input : CoordinatorInput) :
    WorkerAction ProcessWorker → Prop
  | silent (next : ProcessWorker)
      (hands : next.hands = w.hands ∨ w.Leaves ∧ w.hands = w.currentJob.toList) :
    Coordinated w input (.silent next)
  | gets (now : Time) (next : Option UUID → ProcessWorker) (empty : w.hands = [])
      (got : ∀ job, (next (some job)).hands = [job]) : Coordinated w input (.getNextJob now next)
  | completes (job : UUID) (result : Value) (now : Time) (held : w.hands = [job])
      (refused : ∀ error, (w.afterReport (.error error)).hands = [job]) :
    Coordinated w input (.completeJob job result now w.afterReport)
  | fails (job : UUID) (error : PyException) (traceback : String)
      (handling : w.coordinator = .handling (.raised error)) (current : w.currentJob = some job)
      (held : w.hands = [job])
      (refused : ∀ error, (w.afterReport (.error error)).hands = [job]) :
    Coordinated w input
      (.failJob job (.plain error.message) input.now input.draw traceback w.afterReport)

theorem coordinate_cases {input : CoordinatorInput} {action : WorkerAction ProcessWorker}
    (taken : w.coordinate input = some action) : w.Coordinated input action := by
  unfold coordinate at taken
  cases hpc : w.coordinator with
  | head | checking =>
    simp only [hpc] at taken
    cases taken
    have hhands : w.hands = w.currentJob.toList := by rw [hands, hpc]
    -- the only places at which the coordinator leaves its loop
    refine .silent _ ?_
    split
    · rename_i hleaves
      refine Or.inr ⟨?_, hhands⟩
      rw [Leaves, hpc]
      exact hleaves
    · exact Or.inl hhands.symm
  | polling =>
    simp only [hpc] at taken
    have hhands : w.hands = w.currentJob.toList := by rw [hands, hpc]
    split at taken
    · cases taken
      exact .silent _ (Or.inl hhands.symm)
    · split at taken <;> cases taken <;> exact .silent _ (Or.inl hhands.symm)
  | handling outcome =>
    simp only [hpc] at taken
    have hhands : w.hands = w.currentJob.toList := by rw [hands, hpc]
    cases hjob : w.currentJob with
    | none =>
      simp only [hjob] at taken
      cases taken
      rw [hjob] at hhands
      exact .silent _ (Or.inl hhands.symm)
    | some job =>
      -- a refused report keeps the current job, which is why a refusal loses nothing here
      have hrefused : ∀ error, (w.afterReport (.error error)).hands = [job] := by
        intro error
        show w.currentJob.toList = [job]
        rw [hjob]
        rfl
      simp only [hjob] at taken
      rw [hjob] at hhands
      cases outcome with
      | returned result =>
        cases taken
        exact .completes job _ _ hhands hrefused
      | raised error =>
        cases taken
        exact .fails job error _ hpc hjob hhands hrefused
  | handled | clearing =>
    simp only [hpc] at taken
    cases taken
    -- the job was reported, and `current_job` is about to be cleared
    have hempty : w.hands = [] := by rw [hands, hpc]
    exact .silent _ (Or.inl hempty.symm)
  | deciding =>
    simp only [hpc] at taken
    cases taken
    have hhands : w.hands = w.currentJob.toList := by rw [hands, hpc]
    refine .silent _ (Or.inl ?_)
    split
    · rename_i hfree
      rw [hhands, hfree.2]
      rfl
    · exact hhands.symm
  | fetching =>
    simp only [hpc] at taken
    cases taken
    exact .gets _ _ (by rw [hands, hpc]) (fun job => rfl)
  | fetched job =>
    simp only [hpc] at taken
    cases taken
    have hhands : w.hands = w.currentJob.toList := by rw [hands, hpc]
    exact .silent _ (Or.inl hhands.symm)
  | sending job =>
    simp only [hpc] at taken
    have hhands : w.hands = w.currentJob.toList := by rw [hands, hpc]
    split at taken <;> cases taken <;> exact .silent _ (Or.inl hhands.symm)
  | ended =>
    simp only [hpc] at taken
    cases taken

/-- **The other steps change nothing of this.** -/
theorem step_cases {action : WorkerAction ProcessWorker} (taken : w.step l = some action) :
    (∃ next : ProcessWorker, action = .silent next ∧ next.hands = w.hands)
      ∨ ∃ input, l = .coordinate input ∧ w.Coordinated input action := by
  cases l with
  | stop caller wait timed =>
    obtain ⟨next, hnext, rfl⟩ := Option.map_eq_some_iff.mp taken
    exact Or.inl ⟨next, rfl, (sameCoordinator_stop hnext).hands⟩
  | stopping caller =>
    obtain ⟨next, hnext, rfl⟩ := Option.map_eq_some_iff.mp taken
    exact Or.inl ⟨next, rfl, (sameCoordinator_stopping hnext).hands⟩
  | coordinate input => exact Or.inr ⟨input, rfl, coordinate_cases taken⟩
  | execute outcome arrives =>
    obtain ⟨next, hnext, rfl⟩ := Option.map_eq_some_iff.mp taken
    exact Or.inl ⟨next, rfl, (sameCoordinator_execute hnext).hands⟩
  | crash =>
    cases taken
    exact Or.inl ⟨_, rfl, rfl⟩

/-- What reaches the scheduler is done by the coordinator. -/
theorem coordinated {action : WorkerAction ProcessWorker} (taken : w.step l = some action)
    (calls : ∀ next, action ≠ .silent next) : ∃ input, w.Coordinated input action := by
  rcases step_cases taken with ⟨next, hsilent, -⟩ | ⟨input, -, h⟩
  · exact absurd hsilent (calls next)
  · exact ⟨input, h⟩

/-- **The process worker as a machine.** Its hands are the current job of the coordinator. -/
def machine : WorkerMachine ProcessWorker ProcessStep where
  step := step
  hands := hands
  ended := hasEnded
  got w l now next taken := by
    obtain ⟨input, hcoordinated⟩ := coordinated taken (by simp)
    cases hcoordinated with
    | gets _ _ hempty hgot =>
      rw [hempty]
      refine ⟨fun job => ?_, fun answer k hk => absurd hk List.not_mem_nil⟩
      rw [hgot]
      exact List.mem_singleton_self job
  completed w l job result now next taken k hk hne := by
    obtain ⟨input, hcoordinated⟩ := coordinated taken (by simp)
    cases hcoordinated with
    | completes _ _ _ hheld =>
      rw [hheld] at hk
      exact absurd (List.mem_singleton.mp hk) hne
  failed w l job error now draw traceback next taken k hk hne := by
    obtain ⟨input, hcoordinated⟩ := coordinated taken (by simp)
    cases hcoordinated with
    | fails _ _ _ _ _ hheld =>
      rw [hheld] at hk
      exact absurd (List.mem_singleton.mp hk) hne
  none_at_end w hended := by
    unfold hasEnded at hended
    split at hended
    · rename_i hpc _
      rw [hands, hpc]
    · cases hended

/-- **The condition on its steps**: the coordinator leaves its loop without a current job, or with
one that is settled; and a failure that `fail_job` takes settles the job, if it was not. -/
def Careful (w : Workplace ProcessWorker) : ProcessStep → Prop
  | .coordinate input =>
    (w.worker.Leaves → ∀ k ∈ w.worker.currentJob, w.Settled k)
      ∧ match w.worker.coordinator with
        | .handling (.raised error) => ∀ job ∈ w.worker.currentJob,
          w.world.sched.TakesFailure input.now input.draw job (.plain error.message) →
            w.world.sched.SettlesFailure input.now input.draw job (.plain error.message)
              ∨ w.Settled job
        | _ => True
  | _ => True

instance (w : Workplace ProcessWorker) (l : ProcessStep) : Decidable (Careful w l) := by
  unfold Careful
  split
  · exact @instDecidableAnd _ _ inferInstance (by split <;> infer_instance)
  · infer_instance

/-- **This is enough.** A report that is refused stays with the coordinator. -/
theorem enough_careful : Workplace.Enough machine Careful := by
  intro w l action careful taken
  have hkeeps : ∀ next : ProcessWorker, next.hands = w.worker.hands →
      w.LetsGoSettled machine next := by
    intro next hsame k hheld hgone
    have hstill : k ∈ next.hands := by
      rw [hsame]
      exact hheld
    exact absurd hstill hgone
  rcases step_cases taken with ⟨next, rfl, hsame⟩ | ⟨input, rfl, hcoordinated⟩
  · exact hkeeps next hsame
  · cases hcoordinated with
    | silent next hnext =>
      rcases hnext with hsame | ⟨hleaves, hcurrent⟩
      · exact hkeeps next hsame
      · intro k hheld _
        have hjob : k ∈ w.worker.currentJob.toList := by
          rw [← hcurrent]
          exact hheld
        exact careful.1 hleaves k (Option.mem_toList.mp hjob)
    | gets => exact trivial
    | completes job result now hheld hrefused =>
      exact fun _ error => hkeeps _ ((hrefused error).trans hheld.symm)
    | fails job error traceback hhandling hcurrent hheld hrefused =>
      refine ⟨fun htakes => ?_, fun _ refused => hkeeps _ ((hrefused refused).trans hheld.symm)⟩
      have hcareful := careful.2
      rw [hhandling] at hcareful
      rcases hcareful job hcurrent htakes with hsettles | hsettled
      · exact Or.inl hsettles.2
      · refine Or.inr (fun k hk _ => ?_)
        have hk : k ∈ w.worker.hands := hk
        rw [hheld, List.mem_singleton] at hk
        rw [hk]
        exact hsettled

end ProcessWorker

end JobOrchestrator
