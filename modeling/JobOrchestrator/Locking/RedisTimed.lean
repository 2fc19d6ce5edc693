import JobOrchestrator.Locking.RedisLease

/-!
# Redis locks in time

The threads of `RedisWorld` again, now with clocks, and with keys that expire. The servers keep
the moment at which a key expires beside its owner, and what is left under a key depends on
when one looks: `RedisKeys.visible` is what the servers of `RedisServers` keep at a moment, and
`ClockedTask.visible_call` says that a call made then is the call made there.

Every call of a server is made at a moment, and what a manager does between its loops reads the
clock up to three times, as in `TimedCall`. The clocks of all processes and servers agree, and
no moment is before an earlier one; how much time passes between two steps is left open.

What was granted is recorded: the `LockInfo` that `acquire` returns, until its `expires_at`,
and the time that an `extend` which has its quorum adds. A lock counts as given up as soon as its
`release` is called.
-/

namespace JobOrchestrator

/-! ## Keys that expire -/

/-- **What the servers keep, with times**: under a key, the `owner` in its value, and the moment at
which the key expires. -/
abbrev RedisKeys := RedisUrl → String → Option (String × ℚ)

namespace RedisKeys

/-- **What is left at a moment.** A key is there as long as its end is not reached. -/
def visible (moment : ℚ) (keys : RedisKeys) : RedisServers := fun url key =>
  (keys url key).bind (fun v => if moment < v.2 then some v.1 else none)

/-- One key of one server is written. -/
def write (url : RedisUrl) (key : String) (value : Option (String × ℚ)) (keys : RedisKeys) :
    RedisKeys :=
  Function.update keys url (Function.update (keys url) key value)

/-- `SET key value NX PX ttl`, of a key that is to end then. A time to live that is not positive
is an error. -/
def setNx (moment ends : ℚ) (url : RedisUrl) (key owner : String) (keys : RedisKeys) :
    Bool × RedisKeys :=
  if ends ≤ moment then (false, keys)
  else match keys.visible moment url key with
    | none => (true, keys.write url key (some (owner, ends)))
    | some _ => (false, keys)

/-- `RELEASE_SCRIPT`. -/
def releaseScript (moment : ℚ) (url : RedisUrl) (key owner : String) (keys : RedisKeys) :
    Bool × RedisKeys :=
  if keys.visible moment url key = some owner then (true, keys.write url key none)
  else (false, keys)

/-- `EXTEND_SCRIPT`, with a new end. -/
def extendScript (moment ends : ℚ) (url : RedisUrl) (key owner : String) (keys : RedisKeys) :
    Bool × RedisKeys :=
  if keys.visible moment url key = some owner then
    (true, keys.write url key (some (owner, ends)))
  else (false, keys)

/-- `DEL key`. -/
def delete (moment : ℚ) (url : RedisUrl) (key : String) (keys : RedisKeys) : Bool × RedisKeys :=
  ((keys.visible moment url key).isSome, keys.write url key none)

/-- A key of an owner lasts at least until then. -/
def Lasts (keys : RedisKeys) (url : RedisUrl) (key owner : String) (ends : ℚ) : Prop :=
  ∃ e, keys url key = some (owner, e) ∧ ends ≤ e

end RedisKeys

/-- **A call of a server**, with what it does there. -/
def CallOutcome.send (outcome : CallOutcome) (command : RedisKeys → Bool × RedisKeys)
    (keys : RedisKeys) : Bool × RedisKeys :=
  match outcome with
  | .answered => command keys
  | .lost => (false, (command keys).2)
  | .failed => (false, keys)

/-! ## Calls in time -/

/-- **A call of the manager, with its times.** -/
structure ClockedTask where
  task : RedisTask
  terms : LeaseTerms
  /-- `start_time` of the attempt, or when `extend` was called. -/
  start : ℚ

namespace ClockedTask

/-- Until when the keys last, at least, that the task sets or extends. -/
def promise (t : ClockedTask) : ℚ := t.start + t.terms.ttlMs

/-- Go on at another place. -/
def goto (t : ClockedTask) (pc : RedisPc) : ClockedTask := { t with task := t.task.goto pc }

/-- **The next call of a server**, at a moment. -/
def call (outcome : CallOutcome) (moment : ℚ) (t : ClockedTask) (keys : RedisKeys) :
    Option (ClockedTask × RedisKeys) :=
  match t.task.pc with
  | .setting attempt (url :: rest) count =>
    let r := outcome.send
      (RedisKeys.setNx moment (moment + t.terms.ttlMs) url t.task.key t.task.owner) keys
    some (t.goto (.setting attempt rest (if r.1 then count + 1 else count)), r.2)
  | .rollingBack attempt (url :: rest) =>
    let r := outcome.send (RedisKeys.releaseScript moment url t.task.key t.task.owner) keys
    some (t.goto (.rollingBack attempt rest), r.2)
  | .releasing forced (url :: rest) released =>
    let r := outcome.send
      (if forced then RedisKeys.delete moment url t.task.key
        else RedisKeys.releaseScript moment url t.task.key t.task.owner) keys
    some (t.goto (.releasing forced rest (released || r.1)), r.2)
  | .extending (url :: rest) count =>
    let r := outcome.send
      (RedisKeys.extendScript moment (moment + t.terms.ttlMs) url t.task.key t.task.owner) keys
    some (t.goto (.extending rest (if r.1 then count + 1 else count)), r.2)
  | _ => none

/-- The attempt has its quorum. -/
def complete (t : ClockedTask) : Bool :=
  match t.task.pc with
  | .setting _ [] count => decide (t.task.manager.quorum ≤ count)
  | _ => false

/-- **What is done between the loops**, where the clock is first read then. -/
def proceed (first : ℚ) (t : ClockedTask) : Option RedisStatus :=
  t.task.proceed (decide (0 < t.terms.validity t.start first)) (t.terms.late first)

/-- What goes on afterwards. A next attempt has a `start_time` of its own. -/
def resume (second : ℚ) (t : ClockedTask) : RedisStatus → Option ClockedTask
  | .running task => match task.pc with
    | .setting _ _ _ => some ⟨task, t.terms, second⟩
    | _ => some { t with task := task }
  | _ => none

end ClockedTask

/-- **What was granted**: the lock of a key to an owner, until then. -/
structure RedisGrant where
  key : String
  owner : String
  expiresAt : ℚ
  deriving DecidableEq

/-- **What a call grants when it returns**, with the first and the third reading of the clock. -/
def ClockedTask.grants (first third : ℚ) (t : ClockedTask) : RedisStatus → List RedisGrant
  | .acquired => [⟨t.task.key, t.task.owner, third + t.terms.validity t.start first⟩]
  | .extended true => [⟨t.task.key, t.task.owner, t.promise⟩]
  | _ => []

/-! ## Processes and threads in time -/

/-- **The servers, and any number of threads** of any number of processes, with the last moment
so far; what was granted and not given up; and for each owner, the thread that asked for a lock
with it. Keys have an end here, at which the server forgets them; the untimed model lets them go
at any moment. -/
structure ClockedWorld where
  keys : RedisKeys
  tasks : ℕ → Option ClockedTask
  now : ℚ
  granted : List RedisGrant
  owners : String → Option ℕ

/-- **A step of a thread, at its moments.** -/
inductive ClockedStep
  | acquire (moment : ℚ) (thread process : ℕ) (terms : LeaseTerms) (resource owner : String)
  | release (moment : ℚ) (thread process : ℕ) (resource : String) (owner : Option String)
  | extend (moment : ℚ) (thread process : ℕ) (resource owner : String) (ttl : ℚ)
  | call (moment : ℚ) (thread : ℕ) (outcome : CallOutcome)
  | proceed (thread : ℕ) (first second third : ℚ)

namespace ClockedWorld

/-- No key, no call. -/
def init : ClockedWorld := ⟨fun _ _ => none, fun _ => none, 0, [], fun _ => none⟩

/-- A thread without a call makes one. -/
def begin (w : ClockedWorld) (moment : ℚ) (thread : ℕ) (task : Option ClockedTask) :
    Option ClockedWorld :=
  match w.tasks thread with
  | some _ => none
  | none => some { w with tasks := Function.update w.tasks thread task, now := moment }

/-- The lock is given up. -/
def giveUp (w : ClockedWorld) (key owner : String) : ClockedWorld :=
  { w with granted := w.granted.filter (fun g => !(g.key == key && g.owner == owner)) }

/-- **One step**, of processes with these managers. The moment of a step is not before that of
the last one, and a key is looked at as it is visible then. -/
def step (managers : ℕ → RedisLockManager) (w : ClockedWorld) : ClockedStep → Option ClockedWorld
  | .acquire moment thread process terms resource owner =>
    { w with owners := Function.update w.owners owner (some thread) }.begin moment thread
      (((managers process).acquire resource owner).map (fun task => ⟨task, terms, moment⟩))
  | .release moment thread process resource owner =>
    (w.giveUp ((managers process).key resource) (owner.getD "")).begin moment thread
      (((managers process).release resource owner).map (fun task => ⟨task, {}, moment⟩))
  | .extend moment thread process resource owner ttl =>
    w.begin moment thread
      (((managers process).extend resource owner).map (fun task => ⟨task, { ttl := ttl }, moment⟩))
  | .call moment thread outcome =>
    (w.tasks thread).bind (fun t => (t.call outcome moment w.keys).map (fun r =>
      { w with
        keys := r.2
        tasks := Function.update w.tasks thread (some r.1)
        now := moment }))
  | .proceed thread first second third =>
    (w.tasks thread).bind (fun t => (t.proceed first).map (fun status =>
      { w with
        tasks := Function.update w.tasks thread (t.resume second status)
        now := third
        granted := t.grants first third status ++ w.granted }))

/-- **No moment is before an earlier one.** -/
def Ordered (w : ClockedWorld) : ClockedStep → Prop
  | .acquire moment _ _ _ _ _ | .release moment _ _ _ _ | .extend moment _ _ _ _ _
  | .call moment _ _ => w.now ≤ moment
  | .proceed _ first second third => w.now ≤ first ∧ first ≤ second ∧ second ≤ third

end ClockedWorld

/-! ## The servers at a moment -/

namespace RedisKeys

variable {keys : RedisKeys} {url url' : RedisUrl} {key key' owner : String} {moment ends : ℚ}

theorem write_self (url : RedisUrl) (key : String) (value : Option (String × ℚ))
    (keys : RedisKeys) : keys.write url key value url key = value := by
  rw [write, Function.update_self, Function.update_self]

theorem write_of_ne {value : Option (String × ℚ)} (h : url' ≠ url ∨ key' ≠ key) :
    keys.write url key value url' key' = keys url' key' := by
  unfold write
  by_cases hurl : url' = url
  · subst hurl
    rw [Function.update_self, Function.update_of_ne (h.resolve_left (fun hne => hne rfl))]
  · rw [Function.update_of_ne hurl]

/-- A key that is written is seen where it has not expired. -/
theorem visible_write (value : Option (String × ℚ)) :
    (keys.write url key value).visible moment = (keys.visible moment).write url key
      (value.bind (fun v => if moment < v.2 then some v.1 else none)) := by
  funext url' key'
  by_cases h : url' = url ∧ key' = key
  · obtain ⟨rfl, rfl⟩ := h
    rw [visible, write_self, RedisServers.write_self]
  · have hne : url' ≠ url ∨ key' ≠ key := not_and_or.mp h
    rw [visible, write_of_ne hne, RedisServers.write_of_ne hne]
    rfl

theorem Lasts.visible (h : keys.Lasts url key owner ends) (before : moment < ends) :
    keys.visible moment url key = some owner := by
  obtain ⟨e, he, hends⟩ := h
  show (keys url key).bind _ = some owner
  rw [he]
  exact if_pos (before.trans_le hends)

theorem Lasts.anti {ends' : ℚ} (h : keys.Lasts url key owner ends) (le : ends' ≤ ends) :
    keys.Lasts url key owner ends' := by
  obtain ⟨e, he, hends⟩ := h
  exact ⟨e, he, le.trans hends⟩

theorem visible_setNx (keys : RedisKeys) (url : RedisUrl) (key owner : String)
    (live : moment < ends) :
    Prod.map id (visible moment) (setNx moment ends url key owner keys)
      = (keys.visible moment).setNx url key owner := by
  rw [setNx, if_neg (not_le.mpr live), RedisServers.setNx]
  cases keys.visible moment url key with
  | none => simp [visible_write, live]
  | some o => rfl

theorem visible_releaseScript (keys : RedisKeys) (moment : ℚ) (url : RedisUrl)
    (key owner : String) :
    Prod.map id (visible moment) (releaseScript moment url key owner keys)
      = (keys.visible moment).releaseScript url key owner := by
  rw [releaseScript, RedisServers.releaseScript]
  split
  · simp [visible_write]
  · rfl

theorem visible_extendScript (keys : RedisKeys) (url : RedisUrl) (key owner : String)
    (live : moment < ends) :
    Prod.map id (visible moment) (extendScript moment ends url key owner keys)
      = (keys.visible moment).extendScript url key owner := by
  rw [extendScript, RedisServers.extendScript]
  split
  · rename_i hhas
    -- the key is there already
    have hsame : (keys.visible moment).write url key (some owner) = keys.visible moment := by
      rw [RedisServers.write, ← hhas, Function.update_eq_self, Function.update_eq_self]
    simp [visible_write, live, hsame, hhas]
  · rename_i hnot
    simp [hnot]

theorem visible_delete (keys : RedisKeys) (moment : ℚ) (url : RedisUrl) (key : String) :
    Prod.map id (visible moment) (delete moment url key keys)
      = (keys.visible moment).delete url key := by
  simp [delete, RedisServers.delete, visible_write]

end RedisKeys

/-- A call of a server is seen as one. -/
theorem CallOutcome.visible_send (outcome : CallOutcome) {moment : ℚ}
    {command : RedisKeys → Bool × RedisKeys} {seen : RedisServers → Bool × RedisServers}
    {keys : RedisKeys}
    (h : Prod.map id (RedisKeys.visible moment) (command keys) = seen (keys.visible moment)) :
    Prod.map id (RedisKeys.visible moment) (outcome.send command keys)
      = outcome.call seen (keys.visible moment) := by
  cases outcome with
  | answered => exact h
  | lost => exact congrArg (fun r : Bool × RedisServers => (false, r.2)) h
  | failed => rfl

/-- **A call made at a moment is the call made of the servers as they are then**, for every time to
live that is positive. -/
theorem ClockedTask.visible_call (outcome : CallOutcome) (moment : ℚ) (t : ClockedTask)
    (keys : RedisKeys) (live : 0 < t.terms.ttlMs) :
    (t.call outcome moment keys).map (fun r => (r.1.task, r.2.visible moment))
      = t.task.call outcome (keys.visible moment) := by
  -- a key that is written now is visible now, since its time to live is positive
  have hends : moment < moment + t.terms.ttlMs := lt_add_of_pos_right moment live
  obtain ⟨⟨m, key, owner, pc⟩, terms, start⟩ := t
  cases pc with
  | setting attempt rest count =>
    cases rest with
    | nil => rfl
    | cons url rest =>
      have h := outcome.visible_send (RedisKeys.visible_setNx keys url key owner hends)
      simp only [call, RedisTask.call, Option.map_some, ← h]
      rfl
  | rollingBack attempt rest =>
    cases rest with
    | nil => rfl
    | cons url rest =>
      have h := outcome.visible_send (RedisKeys.visible_releaseScript keys moment url key owner)
      simp only [call, RedisTask.call, Option.map_some, ← h]
      rfl
  | waiting attempt => rfl
  | releasing forced rest released =>
    cases rest with
    | nil => rfl
    | cons url rest =>
      have h : Prod.map id (RedisKeys.visible moment) (outcome.send
            (if forced then RedisKeys.delete moment url key
              else RedisKeys.releaseScript moment url key owner) keys)
          = outcome.call (if forced then RedisServers.delete url key
              else RedisServers.releaseScript url key owner) (keys.visible moment) := by
        cases forced with
        | true => exact outcome.visible_send (RedisKeys.visible_delete ..)
        | false => exact outcome.visible_send (RedisKeys.visible_releaseScript ..)
      simp only [call, RedisTask.call, Option.map_some, ← h]
      rfl
  | extending rest count =>
    cases rest with
    | nil => rfl
    | cons url rest =>
      have h := outcome.visible_send (RedisKeys.visible_extendScript keys url key owner hends)
      simp only [call, RedisTask.call, Option.map_some, ← h]
      rfl

end JobOrchestrator
