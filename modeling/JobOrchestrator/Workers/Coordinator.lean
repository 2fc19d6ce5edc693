import JobOrchestrator.Workers.NoJobLeft

/-!
# The coordinator's iteration

One iteration of `_coordinator_loop`, with `_handle_result`, as a function: what the process
sent, what the scheduler's methods come to, and what the coordinator has afterwards. One
`except` clause is around the look into the result queue and around the report of what
is found there, so that a report that raises is taken for an empty queue, and of the three
things that the coordinator does after a report none is done.

The steps of `ProcessWorker.coordinate` lead through an iteration, `leads_iterate`; and on every
run of the worker, with a scheduler that answers in any way, at most one job is under way, and it is
the current one, `InOrder`. So what is reported is what was sent.
-/

namespace JobOrchestrator

open WorkplaceStep (times)

/-- **What the process sends back**, in five fields or in six. -/
structure ResultTuple where
  jobId : UUID
  success : Bool
  result : Value := .none
  error : Option String := none
  traceback : Option String := none
  /-- The sixth field. -/
  executionTime : Option ℚ := none

/-- **What the coordinator asks of the scheduler.** -/
inductive CoordinatorCall
  | completeJob (job : UUID) (result : Value)
  | failJob (job : UUID) (error : PyException)
  | getNextJob

namespace ResultTuple

variable (t : ResultTuple)

/-- `str(Exception(error))`. -/
def message : String := t.error.getD "None"

/-- What the process says of the job. -/
def outcome : Outcome := if t.success then .returned t.result else .raised (.plain t.message)

/-- The report of a result, for a job. -/
def report (job : UUID) : CoordinatorCall :=
  if t.success then .completeJob job t.result else .failJob job (.plain t.message)

end ResultTuple

/-- **What the coordinator reads and writes.** -/
structure Coordinator where
  state : WorkerState := .idle
  /-- The variable `current_job`. -/
  currentJob : Option UUID := none
  /-- The attribute `_current_job`. -/
  shownJob : Option UUID := none
  jobsCompleted : ℕ := 0
  jobsFailed : ℕ := 0
  totalExecutionTime : ℚ := 0

namespace Coordinator

/-- `_handle_result`, up to the report. -/
def count (c : Coordinator) (t : ResultTuple) : Coordinator :=
  let c := { c with totalExecutionTime := c.totalExecutionTime + t.executionTime.getD 0 }
  if t.success then { c with jobsCompleted := c.jobsCompleted + 1 }
  else { c with jobsFailed := c.jobsFailed + 1 }

/-- **`_handle_result`** for the current job, where a report comes to what is given. -/
def handleResult (c : Coordinator) (t : ResultTuple) (answer : Except OrchestratorError Unit) :
    Except OrchestratorError Unit × Coordinator × List CoordinatorCall :=
  match c.currentJob with
  | none => (.ok (), { c.count t with shownJob := none }, [])
  | some job =>
    match answer with
    | .ok _ => (.ok (), { c.count t with shownJob := none }, [t.report job])
    | .error error => (.error error, c.count t, [t.report job])

/-- **The first half of an iteration**: a result is received and reported. What is raised is
passed over. -/
def receive (c : Coordinator) (result : Option ResultTuple)
    (answer : Except OrchestratorError Unit) : Coordinator × List CoordinatorCall :=
  match result with
  | none => (c, [])
  | some t =>
    match c.handleResult t answer with
    | (.ok _, c, calls) => ({ c with state := .idle, currentJob := none }, calls)
    | (.error _, c, calls) => (c, calls)

/-- **The second half**: an idle worker asks for work. -/
def fetch (c : Coordinator) (next : Option UUID) : Coordinator × List CoordinatorCall :=
  if c.state = .idle ∧ c.currentJob = none then
    match next with
    | none => (c, [.getNextJob])
    | some job =>
      ({ c with currentJob := some job, shownJob := some job, state := .busy }, [.getNextJob])
  else (c, [])

/-- **An iteration.** A result that has come is handled, and then a job is fetched if there is
none. -/
def iterate (c : Coordinator) (result : Option ResultTuple)
    (answer : Except OrchestratorError Unit) (next : Option UUID) :
    Coordinator × List CoordinatorCall :=
  let r := c.receive result answer
  ((r.1.fetch next).1, r.2 ++ (r.1.fetch next).2)

/-- **The coordinator becomes available again** in the iteration that receives a result: the result
is applied to the job it is of, the worker is IDLE and has no current job, and the scheduler is
asked for work. -/
def BecomesAvailable (c : Coordinator) (t : ResultTuple) (answer : Except OrchestratorError Unit) :
    Prop :=
  (c.receive (some t) answer).2 = [t.report t.jobId]
    ∧ (c.receive (some t) answer).1.state = .idle
    ∧ (c.receive (some t) answer).1.currentJob = none
    ∧ ∀ next, .getNextJob ∈ (c.iterate (some t) answer next).2

/-- The coordinator has what the worker of the small steps has. -/
def Matches (c : Coordinator) (w : ProcessWorker) : Prop :=
  c.state = w.state ∧ c.currentJob = w.currentJob

variable {c : Coordinator} {t : ResultTuple} {answer : Except OrchestratorError Unit}

@[simp] theorem count_state (c : Coordinator) (t : ResultTuple) : (c.count t).state = c.state := by
  rw [count]
  split <;> rfl

@[simp] theorem count_currentJob (c : Coordinator) (t : ResultTuple) :
    (c.count t).currentJob = c.currentJob := by
  rw [count]
  split <;> rfl

/-- A report that raises leaves the coordinator as it was, but for its counters. -/
theorem receive_error {error : OrchestratorError} {job : UUID} (current : c.currentJob = some job) :
    c.receive (some t) (.error error) = (c.count t, [t.report job]) := by
  rw [receive, handleResult, current]

theorem receive_ok {job : UUID} (current : c.currentJob = some job) :
    c.receive (some t) (.ok ())
      = ({ c.count t with shownJob := none, state := .idle, currentJob := none },
        [t.report job]) := by
  rw [receive, handleResult, current]

/-- **The coordinator becomes available exactly if the report returns**, where the result is of
the current job. -/
theorem becomesAvailable_iff_of_current (current : c.currentJob = some t.jobId) :
    c.BecomesAvailable t answer ↔ answer = .ok () := by
  cases answer with
  | ok u =>
    refine iff_of_true ⟨?_, ?_, ?_, fun next => ?_⟩ rfl
    · rw [receive_ok current]
    · rw [receive_ok current]
    · rw [receive_ok current]
    · rw [iterate, receive_ok current]
      unfold fetch
      rw [if_pos ⟨rfl, rfl⟩]
      cases next <;> exact List.mem_append_right _ List.mem_cons_self
  | error error =>
    refine iff_of_false (fun h => ?_) (fun h => (by cases h))
    have hnone := h.2.2.1
    rw [receive_error current, count_currentJob, current] at hnone
    cases hnone

/-- **A coordinator with a current job asks for nothing** until a result comes. -/
theorem iterate_none_of_current {job : UUID} (current : c.currentJob = some job)
    (answer : Except OrchestratorError Unit) (next : Option UUID) :
    c.iterate none answer next = (c, []) := by
  have hbusy : ¬ (c.state = .idle ∧ c.currentJob = none) := by
    rw [current]
    exact fun h => (by cases h.2)
  rw [iterate, receive]
  unfold fetch
  rw [if_neg hbusy]
  rfl

end Coordinator

/-- The job of a message. -/
def JobMessage.job? : JobMessage → Option UUID
  | .job id => some id
  | .poisonPill => none

/-- The job that the process has. -/
def ProcessPc.job? : ProcessPc → Option UUID
  | .executing job | .sending job _ => some job
  | .head | .receiving | .gone => none

/-- The coordinator is at a place where a job can be under way. -/
def CoordinatorPc.waits : CoordinatorPc → Bool
  | .head | .checking | .polling | .deciding | .ended => true
  | _ => false

/-! ## The steps lead through an iteration -/

/-- An action with the answers of a scheduler. -/
def WorkerAction.resolve {σ : Type} (answer : Except OrchestratorError Unit)
    (next : Option UUID) : WorkerAction σ → σ
  | .silent after => after
  | .getNextJob _ after => after next
  | .completeJob _ _ _ after | .failJob _ _ _ _ _ after => after answer

namespace ProcessWorker

variable {w w' w'' : ProcessWorker} {answer : Except OrchestratorError Unit} {next : Option UUID}

/-- The coordinator's next step, where the scheduler answers so. -/
def turn (answer : Except OrchestratorError Unit) (next : Option UUID) (w : ProcessWorker) :
    ProcessWorker :=
  ((w.coordinate {}).map (fun action => action.resolve answer next)).getD w

/-- **A number of steps of the coordinator lead from here to there.** -/
def Leads (answer : Except OrchestratorError Unit) (next : Option UUID) (w w' : ProcessWorker) :
    Prop := ∃ n, (turn answer next)^[n] w = w'

theorem Leads.refl (answer : Except OrchestratorError Unit) (next : Option UUID)
    (w : ProcessWorker) : Leads answer next w w := ⟨0, rfl⟩

theorem Leads.after (h : Leads answer next (w.turn answer next) w') : Leads answer next w w' := by
  obtain ⟨n, hn⟩ := h
  exact ⟨n + 1, hn⟩

theorem Leads.trans (h : Leads answer next w w') (h' : Leads answer next w' w'') :
    Leads answer next w w'' := by
  obtain ⟨n, rfl⟩ := h
  obtain ⟨n', rfl⟩ := h'
  exact ⟨n' + n, Function.iterate_add_apply _ n' n w⟩

/-- One step more. -/
theorem Leads.step (first : w.turn answer next = w') (h : Leads answer next w' w'') :
    Leads answer next w w'' := .after (first ▸ h)

theorem turn_silent (taken : w.coordinate {} = some (.silent w')) : w.turn answer next = w' := by
  rw [turn, taken]
  rfl

/-- What is in the result queue for the coordinator. -/
def Receives (w : ProcessWorker) : Option ResultTuple → Prop
  | none => w.resultQueueClosed = true ∨ w.resultQueue = []
  | some t => w.resultQueueClosed = false ∧ ∃ rest, w.resultQueue = (t.jobId, t.outcome) :: rest

/-- **The second half of an iteration.** It asks for a job if it has none, and sends it. -/
theorem leads_fetch {c : Coordinator} (deciding : w.coordinator = .deciding) (same : c.Matches w)
    (answer : Except OrchestratorError Unit) (next : Option UUID) :
    ∃ w', Leads answer next w w' ∧ w'.coordinator = .head ∧ (c.fetch next).1.Matches w' := by
  obtain ⟨hstate, hcurrent⟩ := same
  unfold Coordinator.fetch
  rw [hstate, hcurrent]
  have hturn : w.turn answer next
      = w.goto (if w.state = .idle ∧ w.currentJob = none then .fetching else .head) := by
    apply turn_silent
    simp only [coordinate, deciding]
  by_cases hfree : w.state = .idle ∧ w.currentJob = none
  · rw [if_pos hfree] at hturn ⊢
    cases next with
    | none => exact ⟨w.goto .head, .step hturn (.step rfl (.refl _ _ _)), rfl, hstate, hcurrent⟩
    | some job =>
      let busy : ProcessWorker :=
        { w with currentJob := some job, state := .busy, coordinator := .sending job }
      have hbusy : Leads answer (some job) w busy :=
        .step hturn (.step rfl (.step rfl (.refl _ _ _)))
      cases hclosed : w.jobQueueClosed with
      | true =>
        have hsent : busy.turn answer (some job) = busy.goto .head := by
          apply turn_silent
          show (if w.jobQueueClosed then _ else _) = _
          rw [hclosed]
          rfl
        exact ⟨_, hbusy.trans (.step hsent (.refl _ _ _)), rfl, rfl, rfl⟩
      | false =>
        have hsent : busy.turn answer (some job)
            = { busy with jobQueue := w.jobQueue ++ [.job job], coordinator := .head } := by
          apply turn_silent
          show (if w.jobQueueClosed then _ else _) = _
          rw [hclosed]
          rfl
        exact ⟨_, hbusy.trans (.step hsent (.refl _ _ _)), rfl, rfl, rfl⟩
  · rw [if_neg hfree] at hturn ⊢
    exact ⟨w.goto .head, .step hturn (.refl _ _ _), rfl, hstate, hcurrent⟩

/-- The report of a result. -/
theorem turn_handling {t : ResultTuple} {job : UUID} (current : w.currentJob = some job)
    (handling : w.coordinator = .handling t.outcome) :
    w.turn answer next = w.afterReport answer := by
  have hreport : ∃ action, w.coordinate {} = some action
      ∧ action.resolve answer next = w.afterReport answer := by
    simp only [coordinate, handling, current]
    unfold ResultTuple.outcome
    split <;> exact ⟨_, rfl, rfl⟩
  obtain ⟨action, htaken, hresolve⟩ := hreport
  rw [turn, htaken]
  exact hresolve

/-- **The first half.** It takes a result from the queue, if there is one, and reports it. -/
theorem leads_receive {c : Coordinator} (polling : w.coordinator = .polling) (same : c.Matches w)
    {result : Option ResultTuple} (receives : w.Receives result)
    (answer : Except OrchestratorError Unit) (next : Option UUID) :
    ∃ w', Leads answer next w w' ∧ w'.coordinator = .deciding
      ∧ (c.receive result answer).1.Matches w' := by
  obtain ⟨hstate, hcurrent⟩ := same
  cases result with
  | none =>
    have hturn : w.turn answer next = w.goto .deciding := by
      apply turn_silent
      simp only [coordinate, polling]
      obtain hclosed | hempty := receives
      · rw [if_pos hclosed]
      · rw [hempty]
        split <;> rfl
    exact ⟨_, .step hturn (.refl _ _ _), rfl, hstate, hcurrent⟩
  | some t =>
    obtain ⟨hopen, rest, hqueue⟩ := receives
    let handling : ProcessWorker :=
      { w with
        resultQueue := rest
        resultQueueClosed := false
        coordinator := .handling t.outcome }
    have hfirst : w.turn answer next = handling := by
      apply turn_silent
      simp only [coordinate, polling, hopen, hqueue, Bool.false_eq_true, if_false, handling]
    -- the report, and what is done after it
    have hdone : Leads answer next (handling.goto .handled)
        { handling with state := .idle, currentJob := none, coordinator := .deciding } :=
      .step rfl (.step rfl (.refl _ _ _))
    rw [Coordinator.receive]
    cases hjob : w.currentJob with
    | none =>
      have hskip : handling.turn answer next = handling.goto .handled := by
        apply turn_silent
        show (match w.currentJob with | none => _ | some job => _) = _
        rw [hjob]
      refine ⟨_, .step hfirst (.step hskip hdone), rfl, ?_⟩
      rw [Coordinator.handleResult, hcurrent, hjob]
      exact ⟨rfl, rfl⟩
    | some job =>
      have hreport : handling.turn answer next = handling.afterReport answer :=
        turn_handling hjob rfl
      rw [Coordinator.handleResult, hcurrent, hjob]
      cases answer with
      | ok _ => exact ⟨_, .step hfirst (.step hreport hdone), rfl, rfl, rfl⟩
      | error error =>
        refine ⟨_, .step hfirst (.step hreport (.refl _ _ _)), rfl, ?_, ?_⟩
        · exact (Coordinator.count_state c t).trans hstate
        · exact (Coordinator.count_currentJob c t).trans hcurrent

/-- **The coordinator's steps lead through an iteration**, where nobody else comes between
them. -/
theorem leads_iterate {c : Coordinator} (polling : w.coordinator = .polling) (same : c.Matches w)
    {result : Option ResultTuple} (receives : w.Receives result)
    (answer : Except OrchestratorError Unit) (next : Option UUID) :
    ∃ w', Leads answer next w w' ∧ w'.coordinator = .head
      ∧ (c.iterate result answer next).1.Matches w' := by
  obtain ⟨w₁, hfirst, hdeciding, hsame⟩ := leads_receive polling same receives answer next
  obtain ⟨w₂, hsecond, hhead, hsame'⟩ := leads_fetch hdeciding hsame answer next
  exact ⟨w₂, hfirst.trans hsecond, hhead, hsame'⟩

/-! ## What is under way -/

/-- The jobs that the coordinator has sent and not heard of since. -/
def outstanding (w : ProcessWorker) : List UUID :=
  w.jobQueue.filterMap JobMessage.job? ++ w.process.job?.toList ++ w.resultQueue.map Prod.fst

/-- **At most one job is under way, and it is the current one**, while the coordinator waits for
it. The coordinator sends no job before it has the result of the one before. -/
structure InOrder (w : ProcessWorker) : Prop where
  single : w.outstanding.length ≤ 1
  current : ∀ job ∈ w.outstanding, w.currentJob = some job ∧ w.coordinator.waits = true
  sending : ∀ job, w.coordinator = .fetched job ∨ w.coordinator = .sending job →
    w.currentJob = some job

/-- Where the coordinator is where it was, and nothing more is under way. -/
theorem InOrder.of_same (h : w.InOrder) (same : w.SameCoordinator w')
    (fewer : w'.outstanding.Subperm w.outstanding) : w'.InOrder where
  single := fewer.length_le.trans h.single
  current job hjob := by
    rw [same.1, same.2]
    exact h.current job (fewer.subset hjob)
  sending job hat := by
    rw [same.1] at hat
    rw [same.2]
    exact h.sending job hat

/-- A coordinator that goes on with nothing under way. -/
theorem InOrder.of_nil (none_ : w.outstanding = [])
    (sending : ∀ job, w.coordinator = .fetched job ∨ w.coordinator = .sending job →
      w.currentJob = some job) : w.InOrder where
  single := by
    rw [none_]
    exact Nat.zero_le _
  current job hjob := by
    rw [none_] at hjob
    cases hjob
  sending := sending

theorem InOrder.goto_of_nil (none_ : w.outstanding = []) {pc : CoordinatorPc}
    (elsewhere : ∀ job, pc ≠ .fetched job ∧ pc ≠ .sending job) : (w.goto pc).InOrder :=
  .of_nil none_ (fun job hat => absurd hat (not_or.mpr (elsewhere job)))

/-- A coordinator that does not wait has nothing under way. -/
theorem InOrder.outstanding_eq_nil (h : w.InOrder) (busy : w.coordinator.waits = false) :
    w.outstanding = [] := by
  refine List.eq_nil_iff_forall_not_mem.mpr (fun job hjob => ?_)
  cases (h.current job hjob).2.symm.trans busy

/-- A coordinator that waits on goes on waiting for the same job. -/
theorem InOrder.goto (h : w.InOrder) {pc : CoordinatorPc} (waits : pc.waits = true) :
    (w.goto pc).InOrder where
  single := h.single
  current job hjob := ⟨(h.current job hjob).1, waits⟩
  sending job hat := by
    obtain hat | hat := hat
    all_goals
      have hpc : pc = _ := hat
      rw [hpc] at waits
      cases waits

/-- A process that is gone has no job any more. -/
theorem subperm_gone (w : ProcessWorker) :
    (w.gotoProcess .gone).outstanding.Subperm w.outstanding := by
  refine List.Sublist.subperm ((List.Sublist.refl _).append_right _ |>.trans ?_)
  exact ((List.Sublist.refl _).append (List.nil_sublist _)).append (List.Sublist.refl _)

/-- **The process hands on what it has**, or drops it. -/
theorem subperm_execute {outcome : Outcome} {arrives : Bool}
    (taken : w.execute outcome arrives = some w') : w'.outstanding.Subperm w.outstanding := by
  unfold ProcessWorker.execute at taken
  cases hpc : w.process with
  | gone =>
    rw [hpc] at taken
    cases taken
  | head =>
    simp only [hpc] at taken
    cases taken
    refine List.Perm.subperm (List.Perm.of_eq ?_)
    rw [outstanding, outstanding, hpc]
    show _ ++ (ProcessPc.job? (if _ then _ else _)).toList ++ _ = _
    split <;> rfl
  | receiving =>
    simp only [hpc] at taken
    cases hqueue : w.jobQueue with
    | nil =>
      simp only [hqueue] at taken
      cases taken
      refine List.Perm.subperm (List.Perm.of_eq ?_)
      rw [outstanding, outstanding, hpc]
      rfl
    | cons message rest =>
      cases message with
      | poisonPill =>
        simp only [hqueue] at taken
        cases taken
        refine List.Perm.subperm (List.Perm.of_eq ?_)
        rw [outstanding, outstanding, hpc, hqueue]
        rfl
      | job job =>
        simp only [hqueue] at taken
        cases taken
        -- the job goes from the queue into the process
        refine List.Perm.subperm ?_
        rw [outstanding, outstanding, hpc, hqueue]
        show (rest.filterMap JobMessage.job? ++ [job] ++ w.resultQueue.map Prod.fst).Perm
          (job :: rest.filterMap JobMessage.job? ++ [] ++ w.resultQueue.map Prod.fst)
        rw [List.append_nil]
        exact List.Perm.append_right _ List.perm_append_comm
  | executing job =>
    simp only [hpc] at taken
    cases taken
    refine List.Perm.subperm (List.Perm.of_eq ?_)
    rw [outstanding, outstanding, hpc]
    rfl
  | sending job outcome' =>
    simp only [hpc] at taken
    split at taken
    · cases taken
      -- and its result from the process into the other queue
      refine List.Perm.subperm ?_
      rw [outstanding, outstanding, hpc]
      show (w.jobQueue.filterMap JobMessage.job? ++ []
        ++ (w.resultQueue ++ [(job, outcome')]).map Prod.fst).Perm
          (w.jobQueue.filterMap JobMessage.job? ++ [job] ++ w.resultQueue.map Prod.fst)
      rw [List.append_nil, List.map_append, List.append_assoc]
      exact List.Perm.append_left _ List.perm_append_comm
    · cases taken
      rw [outstanding, outstanding, hpc]
      -- a result that does not arrive is the one thing that goes missing
      exact ((List.Sublist.append_left (List.nil_sublist _) _).append_right _).subperm

/-- A caller of `stop` sends no job. It puts a poison pill into the queue, which is no job. -/
theorem subperm_stopping {caller : ℕ} (taken : w.stopping caller = some w') :
    w'.outstanding.Subperm w.outstanding := by
  unfold stopping at taken
  cases hpc : w.stops caller with
  | idle =>
    rw [hpc] at taken
    cases taken
  | poisoning wait timed =>
    simp only [hpc] at taken
    split at taken
    · cases taken
      exact .refl _
    · cases taken
      refine List.Perm.subperm (List.Perm.of_eq ?_)
      show (w.jobQueue ++ [JobMessage.poisonPill]).filterMap JobMessage.job? ++ _ ++ _ = _
      rw [List.filterMap_append]
      show _ ++ [] ++ _ ++ _ = _
      rw [List.append_nil]
      rfl
  | joining timed =>
    simp only [hpc] at taken
    split at taken
    · cases taken
      exact .refl _
    · split at taken
      · cases taken
        exact .refl _
      · cases taken
  | terminating =>
    simp only [hpc] at taken
    cases taken
    exact subperm_gone w
  | _ =>
    simp only [hpc] at taken
    cases taken
    exact .refl _

/-- **A result that is taken** was all that was under way. -/
theorem InOrder.received (h : w.InOrder) {id : UUID} {outcome : Outcome}
    {rest : List (UUID × Outcome)} (queue : w.resultQueue = (id, outcome) :: rest) :
    InOrder { w with resultQueue := rest, coordinator := .handling outcome } := by
  refine .of_nil ?_ (fun job hat => (by obtain hat | hat := hat <;> cases hat))
  have hone := h.single
  rw [outstanding, queue, List.map_cons, List.length_append, List.length_cons] at hone
  refine List.eq_nil_of_length_eq_zero ?_
  rw [outstanding, List.length_append]
  show (w.jobQueue.filterMap JobMessage.job? ++ w.process.job?.toList).length
    + (rest.map Prod.fst).length = 0
  omega

/-- After a report nothing is under way, whatever it comes to. -/
theorem InOrder.reported (none_ : w.outstanding = []) (answer : Except OrchestratorError Unit) :
    (w.afterReport answer).InOrder := by
  cases answer <;> exact .goto_of_nil none_ (fun job => ⟨by simp, by simp⟩)

/-- A worker that has no current job has nothing under way. -/
theorem InOrder.outstanding_eq_nil_of_free (h : w.InOrder) (free : w.currentJob = none) :
    w.outstanding = [] := by
  refine List.eq_nil_iff_forall_not_mem.mpr (fun job hjob => ?_)
  cases free.symm.trans (h.current job hjob).1

/-- **The job that is sent** is all that is under way, where nothing was. -/
theorem InOrder.sent (none_ : w.outstanding = []) {job : UUID} (current : w.currentJob = some job) :
    InOrder { w with jobQueue := w.jobQueue ++ [.job job], coordinator := .head } := by
  obtain ⟨hqueues, hresults⟩ := List.append_eq_nil_iff.mp none_
  obtain ⟨hqueue, hprocess⟩ := List.append_eq_nil_iff.mp hqueues
  have hout : outstanding { w with
      jobQueue := w.jobQueue ++ [.job job], coordinator := .head } = [job] := by
    show (w.jobQueue ++ [JobMessage.job job]).filterMap JobMessage.job? ++ _ ++ _ = [job]
    rw [List.filterMap_append, hqueue, hprocess, hresults]
    rfl
  refine ⟨(congrArg List.length hout).le, fun job' hjob' => ?_,
    fun job' hat => (by obtain hat | hat := hat <;> cases hat)⟩
  have hone : job' ∈ [job] := hout ▸ hjob'
  rw [List.mem_singleton.mp hone]
  exact ⟨current, rfl⟩

/-- **The coordinator sends a job only when it has heard of the last one.** -/
theorem InOrder.coordinate (h : w.InOrder) {input : CoordinatorInput}
    {action : WorkerAction ProcessWorker} (taken : w.coordinate input = some action)
    (answer : Except OrchestratorError Unit) (next : Option UUID) :
    (action.resolve answer next).InOrder := by
  unfold ProcessWorker.coordinate at taken
  cases hpc : w.coordinator with
  | head | checking =>
    simp only [hpc] at taken
    cases taken
    refine h.goto ?_
    split <;> rfl
  | polling =>
    simp only [hpc] at taken
    split at taken
    · cases taken
      exact h.goto rfl
    · split at taken
      · cases taken
        exact h.goto rfl
      · rename_i hqueue
        cases taken
        exact h.received hqueue
  | handling outcome =>
    simp only [hpc] at taken
    -- whatever was under way has come back: the result is being handled
    have hnil := h.outstanding_eq_nil (by rw [hpc]; rfl)
    cases hjob : w.currentJob with
    | none =>
      simp only [hjob] at taken
      cases taken
      exact .goto_of_nil hnil (fun job => ⟨by simp, by simp⟩)
    | some job =>
      simp only [hjob] at taken
      cases outcome <;> cases taken <;> exact .reported hnil answer
  | handled | clearing =>
    simp only [hpc] at taken
    cases taken
    exact .of_nil (h.outstanding_eq_nil (by rw [hpc]; rfl))
      (fun job hat => (by obtain hat | hat := hat <;> cases hat))
  | deciding =>
    simp only [hpc] at taken
    cases taken
    show (w.goto (if w.state = .idle ∧ w.currentJob = none then .fetching else .head)).InOrder
    -- a worker that is idle without a current job has nothing under way, and may ask for a job
    by_cases hfree : w.state = .idle ∧ w.currentJob = none
    · rw [if_pos hfree]
      exact .goto_of_nil (h.outstanding_eq_nil_of_free hfree.2) (fun job => ⟨by simp, by simp⟩)
    · rw [if_neg hfree]
      exact h.goto rfl
  | fetching =>
    simp only [hpc] at taken
    have hnil := h.outstanding_eq_nil (by rw [hpc]; rfl)
    cases taken
    cases next with
    | none =>
      show (w.goto (if input.again then .fetching else .head)).InOrder
      refine .goto_of_nil hnil (fun job => ?_)
      split <;> exact ⟨by simp, by simp⟩
    | some job =>
      refine .of_nil hnil (fun job' hat => ?_)
      obtain hat | hat := hat <;> cases hat
      rfl
  | fetched job =>
    simp only [hpc] at taken
    cases taken
    refine .of_nil (h.outstanding_eq_nil (by rw [hpc]; rfl)) (fun job' hat => ?_)
    obtain hat | hat := hat <;> cases hat
    -- the job that was fetched becomes the current one, and is sent next
    exact h.sending job (Or.inl hpc)
  | sending job =>
    simp only [hpc] at taken
    have hnil := h.outstanding_eq_nil (by rw [hpc]; rfl)
    split at taken
    · cases taken
      exact .goto_of_nil hnil (fun job => ⟨by simp, by simp⟩)
    · cases taken
      exact .sent hnil (h.sending job (Or.inr hpc))
  | ended =>
    simp only [hpc] at taken
    cases taken

/-! ## Runs -/

/-- **A step of the worker, and what the scheduler answers** if it is called. -/
structure AnsweredStep where
  own : ProcessStep
  answer : Except OrchestratorError Unit := .ok ()
  next : Option UUID := none

/-- **A step, with a scheduler that answers in any way.** -/
def attend (w : ProcessWorker) (l : AnsweredStep) : Option ProcessWorker :=
  (w.step l.own).map (fun action => action.resolve l.answer l.next)

/-- **What a run of the worker comes to**, from its start on. -/
def Reached (w : ProcessWorker) : Prop :=
  ∃ ls, GuardedRun attend (fun _ _ => True) {} ls w

theorem InOrder.attend (h : w.InOrder) {l : AnsweredStep} (taken : w.attend l = some w') :
    w'.InOrder := by
  obtain ⟨action, htaken, rfl⟩ := Option.map_eq_some_iff.mp taken
  cases hown : l.own with
  | stop caller wait timed =>
    rw [hown] at htaken
    obtain ⟨w₁, hstop, rfl⟩ := Option.map_eq_some_iff.mp htaken
    refine h.of_same (sameCoordinator_stop hstop) ?_
    unfold stop at hstop
    split at hstop
    · cases hstop
      show (outstanding (if _ then _ else _)).Subperm _
      split <;> exact .refl _
    · cases hstop
  | stopping caller =>
    rw [hown] at htaken
    obtain ⟨w₁, hstopping, rfl⟩ := Option.map_eq_some_iff.mp htaken
    exact h.of_same (sameCoordinator_stopping hstopping) (subperm_stopping hstopping)
  | coordinate input =>
    rw [hown] at htaken
    exact h.coordinate htaken l.answer l.next
  | execute outcome arrives =>
    rw [hown] at htaken
    obtain ⟨w₁, hexecute, rfl⟩ := Option.map_eq_some_iff.mp htaken
    exact h.of_same (sameCoordinator_execute hexecute) (subperm_execute hexecute)
  | crash =>
    rw [hown] at htaken
    cases htaken
    exact h.of_same ⟨rfl, rfl⟩ (subperm_gone w)

/-- **On every run at most one job is under way**, and it is the current one. -/
theorem Reached.inOrder (h : w.Reached) : w.InOrder := by
  obtain ⟨ls, run⟩ := h
  refine run.invariant ?_ (fun _ _ _ hI _ taken => hI.attend taken)
  exact .of_nil rfl (fun job hat => (by obtain hat | hat := hat <;> cases hat))

/-- What the worker of a workplace does is a step with the answers of its scheduler. -/
theorem attend_of_act {order : IterationOrder UUID} {place : Workplace ProcessWorker}
    {l : ProcessStep} {action : WorkerAction ProcessWorker}
    (taken : place.worker.step l = some action) :
    ∃ answer next,
      place.worker.attend ⟨l, answer, next⟩ = some (place.act order action).worker := by
  have hresolved : ∃ answer next, action.resolve answer next = (place.act order action).worker := by
    cases action with
    | silent after => exact ⟨.ok (), none, rfl⟩
    | getNextJob now after =>
      cases hjob : (place.world.sched.getNextJob now) with
      | mk job sched =>
        refine ⟨.ok (), job, ?_⟩
        simp only [Workplace.act, hjob]
        cases job <;> rfl
    | completeJob job result now after => exact ⟨_, none, rfl⟩
    | failJob job error now draw traceback after => exact ⟨_, none, rfl⟩
  obtain ⟨answer, next, heq⟩ := hresolved
  refine ⟨answer, next, ?_⟩
  rw [attend, taken, ← heq]
  rfl

/-- **The coordinator becomes available again exactly if the report returns.** On every run of
the worker, with a scheduler that answers in any way: for every result tuple, of five fields or
six, of a success or a failure, in the iteration that receives it, the result is applied to the
job whose id is in the tuple, the worker is IDLE, it has no current job, and the scheduler is
asked for work, if and only if `complete_job` or `fail_job` does not raise. -/
theorem becomesAvailable_iff (reached : w.Reached) {t : ResultTuple}
    (receives : w.Receives (some t)) {c : Coordinator} (same : c.Matches w)
    (answer : Except OrchestratorError Unit) :
    c.BecomesAvailable t answer ↔ answer = .ok () := by
  obtain ⟨-, rest, hqueue⟩ := receives
  have hmem : t.jobId ∈ w.outstanding := by
    rw [outstanding, hqueue]
    exact List.mem_append_right _ List.mem_cons_self
  have hcurrent : c.currentJob = some t.jobId := same.2.trans (reached.inOrder.current _ hmem).1
  exact Coordinator.becomesAvailable_iff_of_current hcurrent

/-- The coordinator gets a job, and the process executes it. -/
def executedSteps : List AnsweredStep :=
  List.replicate 7 { own := .coordinate {}, next := some 1 }
    ++ List.replicate 4 { own := .execute (.returned .none) true }

/-- The queue holds one result, of the given job, that is `None`. -/
def holdsNone (job : UUID) : List (UUID × Outcome) → Bool
  | [(id, .returned .none)] => decide (id = job)
  | _ => false

theorem eq_of_holdsNone {job : UUID} {results : List (UUID × Outcome)}
    (h : holdsNone job results = true) : results = [(job, .returned .none)] := by
  unfold holdsNone at h
  split at h
  · rw [of_decide_eq_true h]
  · cases h

/-- The worker after that, with the result in the queue. -/
theorem exists_executed : ∃ w : ProcessWorker, w.Reached ∧ w.currentJob = some 1
    ∧ w.Receives (some { jobId := 1, success := true, executionTime := some 0 }) := by
  have hreplay : (GuardedRun.replay attend (fun _ _ => true) {} executedSteps).any
      (fun w => decide (w.currentJob = some 1 ∧ w.resultQueueClosed = false
        ∧ holdsNone 1 w.resultQueue = true)) = true := by
    decide +kernel
  obtain ⟨w, hrun, htest⟩ := GuardedRun.exists_of_replay (fun _ _ _ => trivial) hreplay
  obtain ⟨hcurrent, hopen, hholds⟩ := of_decide_eq_true htest
  exact ⟨w, ⟨_, hrun⟩, hcurrent, hopen, [], eq_of_holdsNone hholds⟩

/-- A report that returns. -/
theorem becomesAvailable_of_executed :
    ∃ c : Coordinator, c.currentJob = some 1
      ∧ c.BecomesAvailable { jobId := 1, success := true, executionTime := some 0 } (.ok ()) := by
  obtain ⟨w, hreached, hcurrent, hreceives⟩ := exists_executed
  exact ⟨{ state := w.state, currentJob := w.currentJob }, hcurrent,
    (becomesAvailable_iff hreached hreceives ⟨rfl, rfl⟩ (.ok ())).mpr rfl⟩

/-- **The first report silences a worker for ever.** A job is submitted, the worker gets it and
its process executes it. `complete_job` raises, as the job is not RUNNING; the worker is BUSY with
a job of which nothing is under way any more, and asks for nothing however often it iterates. -/
theorem first_report_silences :
    (∃ place, GuardedRun (Workplace.step .increasing machine) (fun _ _ => True)
        (Workplace.init .unused {})
        (.other (.call (.submit 1)) :: times 7 (.coordinate {})
          ++ times 4 (.execute (.returned .none) true) ++ times 6 (.coordinate {})) place
      ∧ place.worker.state = .busy ∧ place.worker.currentJob = some 1
      ∧ place.worker.outstanding = []
      ∧ ∀ c : Coordinator, c.Matches place.worker → ∀ answer next,
        c.iterate none answer next = (c, []))
      ∧ ∃ (w : ProcessWorker) (c : Coordinator) (t : ResultTuple), w.Reached
        ∧ w.Receives (some t) ∧ c.Matches w ∧ ∀ error, ¬ c.BecomesAvailable t (.error error) := by
  have hreplay : (GuardedRun.replay (Workplace.step .increasing machine) (fun _ _ => true)
      (Workplace.init .unused {})
      (.other (.call (.submit 1)) :: times 7 (.coordinate {})
        ++ times 4 (.execute (.returned .none) true) ++ times 6 (.coordinate {}))).any
      (fun place => decide (place.worker.state = .busy ∧ place.worker.currentJob = some 1
        ∧ place.worker.outstanding = [])) = true := by
    decide +kernel
  obtain ⟨place, hrun, htest⟩ := GuardedRun.exists_of_replay (fun _ _ _ => trivial) hreplay
  obtain ⟨hstate, hcurrent, hnone⟩ := of_decide_eq_true htest
  refine ⟨⟨place, hrun, hstate, hcurrent, hnone, fun c same answer next => ?_⟩, ?_⟩
  · exact Coordinator.iterate_none_of_current (same.2.trans hcurrent) answer next
  · obtain ⟨w, hreached, hjob, hreceives⟩ := exists_executed
    refine ⟨w, { state := w.state, currentJob := w.currentJob }, _, hreached, hreceives,
      ⟨rfl, rfl⟩, fun error h => ?_⟩
    cases (Coordinator.becomesAvailable_iff_of_current hjob).mp h

end ProcessWorker

end JobOrchestrator
