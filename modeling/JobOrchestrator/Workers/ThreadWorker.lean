import JobOrchestrator.Scheduler.Outcomes
import JobOrchestrator.Workers.WorkerPool

/-!
# Thread workers

`workers/thread_worker.py`, with `_execute_job` of `workers/worker.py`: a worker's thread takes a
job from the scheduler and calls `run_job` with it, one job after the other, until it is told
to stop. Unlike the process worker and the async worker, it reports nothing: what becomes of
a job is what `run_job` makes of it.

Every read and write that the thread shares with a caller of `stop` is a step of its own, and
every step of `run_job` is one, so that anything can come between two of them. `start` is one
step: a worker is started by who made it, once its thread is no longer alive.

Any number of workers share one scheduler with clients, who call any operation that does not
report a run.
-/

namespace JobOrchestrator

/-- **Where the thread of a worker is.** -/
inductive ThreadPc
  /-- `while not self._stop_event.is_set()`. -/
  | checkEvent
  /-- The heartbeat, and `if self._state == WorkerState.STOPPING`. -/
  | checkState
  /-- `self._scheduler.get_next_job(timeout=self._poll_timeout)`. -/
  | getNextJob
  /-- `_execute_job`, up to the call of `run_job`. -/
  | execute (job : UUID)
  /-- `run_job`, since this time. -/
  | runJob (task : Task) (startTime : Time)
  /-- The statistics are updated. -/
  | count (result : JobResult) (startTime : Time)
  /-- The `finally` of `_execute_job`. -/
  | finish
  /-- The loop is left, and the worker is to be STOPPED. -/
  | ending
  /-- There is no thread, or it is not alive any more. -/
  | ended

/-- **Where a caller of `stop` is.** -/
inductive ThreadStopPc
  | idle
  /-- `self._state = WorkerState.STOPPING`. -/
  | entering (wait timed : Bool)
  /-- `self._stop_event.set()`. -/
  | signalling (wait timed : Bool)
  /-- `self._thread.join(timeout=timeout)`. -/
  | joining (timed : Bool)
  /-- `self._state = WorkerState.STOPPED`. -/
  | finishing

/-- **`ThreadWorker`**: what its thread shares with others, its statistics, and where its thread
and the callers of `stop` are. The fields are written without a lock, by the thread and by those
who call `stop`. -/
structure ThreadWorker where
  state : WorkerState := .stopped
  stopEvent : Bool := false
  currentJob : Option UUID := none
  jobsCompleted : ℕ := 0
  jobsFailed : ℕ := 0
  totalExecutionTime : Time := 0
  startedAt : Option Time := none
  lastHeartbeat : Option Time := none
  thread : ThreadPc := .ended
  stops : ℕ → ThreadStopPc := fun _ => .idle

/-- What a step of the thread reads from outside: the clock, and what `run_job` does. -/
structure ThreadInput where
  now : Time := 0
  run : RunInput := .returning

namespace ThreadWorker

variable (w : ThreadWorker)

/-- The thread goes on elsewhere. -/
def goto (pc : ThreadPc) : ThreadWorker := { w with thread := pc }

/-- `_update_heartbeat`. -/
def updateHeartbeat (now : Time) : ThreadWorker := { w with lastHeartbeat := some now }

/-- `start`, of a worker that has a scheduler. It raises where the thread is alive. -/
def start (now : Time) : Option ThreadWorker :=
  match w.thread with
  | .ended => some { w with
      stopEvent := false
      state := .idle
      startedAt := some now
      lastHeartbeat := some now
      thread := .checkEvent }
  | _ => none

/-- `_execute_job`, up to the call of `run_job`. The state and the current job are written, and
the clock is read. -/
def beginJob (job : UUID) (now : Time) : ThreadWorker :=
  { w with
    state := .busy
    currentJob := some job
    lastHeartbeat := some now
    thread := .runJob { job := job } now }

/-- The statistics of `_execute_job`. They are added up by what the result says, after `run_job`
has returned. -/
def countResult (r : JobResult) (startTime now : Time) : ThreadWorker :=
  { w with
    totalExecutionTime := w.totalExecutionTime + (now - startTime)
    jobsCompleted := if r.success then w.jobsCompleted + 1 else w.jobsCompleted
    jobsFailed := if r.success then w.jobsFailed else w.jobsFailed + 1
    thread := .finish }

/-- The `finally` of `_execute_job`. A worker that was told to stop is IDLE again, too. -/
def endJob (now : Time) : ThreadWorker :=
  { w with state := .idle, currentJob := none, lastHeartbeat := some now, thread := .checkEvent }

/-- **A step of the thread**: `_run_loop`, with `_execute_job` inside it. -/
def loop (order : IterationOrder UUID) (input : ThreadInput) (s : Scheduler) :
    Option (ThreadWorker × Scheduler) :=
  match w.thread with
  | .checkEvent => some (w.goto (if w.stopEvent then .ending else .checkState), s)
  | .checkState =>
    some ((w.updateHeartbeat input.now).goto
      (if w.state = .stopping then .ending else .getNextJob), s)
  | .getNextJob =>
    let r := s.getNextJob input.now
    some (w.goto (match r.1 with
      | none => .checkEvent
      | some job => .execute job), r.2)
  | .execute job => some (w.beginJob job input.now, s)
  | .runJob task startTime =>
    let r := task.step order input.run s
    some (w.goto (match r.2 with
      | .running task' => .runJob task' startTime
      | .returned result => .count result startTime
      -- an exception is logged, and the loop goes on
      | .raised _ => .finish), r.1)
  | .count result startTime => some (w.countResult result startTime input.now, s)
  | .finish => some (w.endJob input.now, s)
  | .ending => some ({ w with state := .stopped, thread := .ended }, s)
  | .ended => none

/-- A caller of `stop` goes on elsewhere. -/
def gotoStop (caller : ℕ) (pc : ThreadStopPc) : ThreadWorker :=
  { w with stops := Function.update w.stops caller pc }

/-- **`stop`**: a worker that is stopped already is left alone. -/
def stop (caller : ℕ) (wait timed : Bool) : Option ThreadWorker :=
  match w.stops caller with
  | .idle => some (if w.state = .stopped then w else w.gotoStop caller (.entering wait timed))
  | _ => none

/-- **The next step of a caller of `stop`.** -/
def stopping (caller : ℕ) : Option ThreadWorker :=
  match w.stops caller with
  | .idle => none
  | .entering wait timed =>
    some { w.gotoStop caller (.signalling wait timed) with state := .stopping }
  | .signalling wait timed =>
    some { w.gotoStop caller (if wait then .joining timed else .idle) with stopEvent := true }
  | .joining timed =>
    match w.thread with
    | .ended => some (w.gotoStop caller .finishing)
    | _ => if timed then some (w.gotoStop caller .idle) else none
  | .finishing => some { w.gotoStop caller .idle with state := .stopped }

end ThreadWorker

/-! ## Workers at a scheduler -/

/-- **A scheduler, and workers at it.** -/
structure ThreadFleet (ι : Type) where
  sched : Scheduler
  workers : ι → ThreadWorker

/-- **A step**: an operation of a client, or a step of a worker's thread or of who starts or stops
it. -/
inductive FleetStep (ι : Type)
  | call (op : SchedulerCall)
  | start (worker : ι) (now : Time)
  | stop (worker : ι) (caller : ℕ) (wait timed : Bool)
  | stopping (worker : ι) (caller : ℕ)
  | loop (worker : ι) (input : ThreadInput)

namespace ThreadFleet

variable {ι : Type} [DecidableEq ι]

/-- What a worker is afterwards. -/
def assign (f : ThreadFleet ι) (i : ι) (w : ThreadWorker) : ThreadFleet ι :=
  { f with workers := Function.update f.workers i w }

/-- **One step.** -/
def step (order : IterationOrder UUID) (f : ThreadFleet ι) : FleetStep ι → Option (ThreadFleet ι)
  | .call op => (f.sched.perform order op).map (fun sched => { f with sched := sched })
  | .start i now => ((f.workers i).start now).map (f.assign i)
  | .stop i caller wait timed => ((f.workers i).stop caller wait timed).map (f.assign i)
  | .stopping i caller => ((f.workers i).stopping caller).map (f.assign i)
  | .loop i input => ((f.workers i).loop order input f.sched).map (fun r =>
      { f.assign i r.1 with sched := r.2 })

end ThreadFleet

end JobOrchestrator
