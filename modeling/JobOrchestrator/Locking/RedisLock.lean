import Mathlib.Data.Finset.Basic
import Mathlib.Logic.Function.Basic
import JobOrchestrator.Util.GuardedRun

/-!
# The Redis lock manager

`locking/redis_lock.py`: `acquire`, `release` and `extend` of `RedisLockManager`,
against any number of servers that each keep one owner under a key. A server
executes one `SET NX PX` and one script at a time, so each such call is a step, and
calls of other threads and processes can come between any two of them. A call can
fail with an exception, before or after the server has executed it.

Times are left out. No key expires here, and the two questions that `acquire` asks
the clock – whether the lock is still valid, and whether the deadline is over –
are answered by the step that asks them, in any way.
-/

namespace JobOrchestrator

/-- The URL of a server. -/
abbrev RedisUrl := String

/-! ## The servers -/

/-- **What the servers keep**: under a key, the `owner` in its value. -/
abbrev RedisServers := RedisUrl → String → Option String

namespace RedisServers

/-- One key of one server is written. -/
def write (url : RedisUrl) (key : String) (owner : Option String) (servers : RedisServers) :
    RedisServers :=
  Function.update servers url (Function.update (servers url) key owner)

/-- `SET key value NX PX ttl`. It sets a key that is free, and answers whether it has. -/
def setNx (url : RedisUrl) (key owner : String) (servers : RedisServers) : Bool × RedisServers :=
  match servers url key with
  | none => (true, servers.write url key (some owner))
  | some _ => (false, servers)

/-- `RELEASE_SCRIPT`. It deletes the key if this owner is its value, in one go. -/
def releaseScript (url : RedisUrl) (key owner : String) (servers : RedisServers) :
    Bool × RedisServers :=
  if servers url key = some owner then (true, servers.write url key none) else (false, servers)

/-- `EXTEND_SCRIPT`. It renews the time to live if this owner is the value, which is all that is
seen of it without time. -/
def extendScript (url : RedisUrl) (key owner : String) (servers : RedisServers) :
    Bool × RedisServers :=
  (decide (servers url key = some owner), servers)

/-- `DEL key`. -/
def delete (url : RedisUrl) (key : String) (servers : RedisServers) : Bool × RedisServers :=
  ((servers url key).isSome, servers.write url key none)

end RedisServers

/-- How a call of a server ends. The client treats the last two alike, though the server does
not. -/
inductive CallOutcome
  | answered
  /-- The server executed it, and the client gets an exception. -/
  | lost
  /-- The server did not execute it, and the client gets an exception. -/
  | failed
  deriving DecidableEq

/-- **A call of a server.** Every client goes on after an exception as after the answer
no. -/
def CallOutcome.call (outcome : CallOutcome) (command : RedisServers → Bool × RedisServers)
    (servers : RedisServers) : Bool × RedisServers :=
  match outcome with
  | .answered => command servers
  | .lost => (false, (command servers).2)
  | .failed => (false, servers)

/-! ## The manager -/

/-- **`RedisLockManager`**, with the URLs its clients are connected to. -/
structure RedisLockManager where
  clients : List RedisUrl
  keyPrefix : String := "lock:"
  retryCount : ℕ := 3

/-- **Where a call of the manager is**, with the clients its loop has still to visit. The loops
are left at the server they have come to, since what other threads do there comes between. -/
inductive RedisPc
  /-- The loop of `_acquire_redlock`, or the one client of `_acquire_single`. -/
  | setting (attempt : ℕ) (rest : List RedisUrl) (acquiredCount : ℕ)
  /-- `_release_all`. -/
  | rollingBack (attempt : ℕ) (rest : List RedisUrl)
  /-- The end of an attempt. -/
  | waiting (attempt : ℕ)
  /-- `release`, with or without an owner. -/
  | releasing (forced : Bool) (rest : List RedisUrl) (released : Bool)
  | extending (rest : List RedisUrl) (extendedCount : ℕ)

/-- **A call of the manager.** -/
structure RedisTask where
  manager : RedisLockManager
  key : String
  owner : String
  pc : RedisPc

/-- How a call of the manager stands. -/
inductive RedisStatus
  | running (task : RedisTask)
  /-- `acquire` returned a `LockInfo`. -/
  | acquired
  /-- `acquire` returned `None`. -/
  | refused
  | released (yes : Bool)
  | extended (yes : Bool)

/-- The call that goes on. -/
def RedisStatus.task? : RedisStatus → Option RedisTask
  | .running task => some task
  | _ => none

namespace RedisLockManager

/-- `_init_clients_from_urls`: the URLs whose server answers are kept. -/
def ofUrls (urls : List RedisUrl) (reachable : RedisUrl → Bool) (keyPrefix : String)
    (retryCount : ℕ) : RedisLockManager where
  clients := urls.filter reachable
  keyPrefix := keyPrefix
  retryCount := retryCount

variable (m : RedisLockManager)

/-- `_key`. -/
def key (resource : String) : String := m.keyPrefix ++ resource

/-- `_quorum`. It is computed from the clients that could be reached, not from the URLs that were
given. -/
def quorum : ℕ := m.clients.length / 2 + 1

/-- `acquire`, up to its first call, for the owner in effect. It raises without a
client, and without an attempt it returns `None`. -/
def acquire (resource owner : String) : Option RedisTask :=
  if m.clients = [] ∨ m.retryCount = 0 then none
  else some ⟨m, m.key resource, owner, .setting 0 m.clients 0⟩

/-- `release`, up to its first call. An empty owner counts as none. -/
def release (resource : String) (owner : Option String) : Option RedisTask :=
  if m.clients = [] then none
  else some ⟨m, m.key resource, owner.getD "",
    .releasing (decide (owner.getD "" = "")) m.clients false⟩

/-- `extend`, up to its first call. -/
def extend (resource owner : String) : Option RedisTask :=
  if m.clients = [] then none
  else some ⟨m, m.key resource, owner, .extending m.clients 0⟩

end RedisLockManager

namespace RedisTask

/-- Go on at another place. -/
def goto (task : RedisTask) (pc : RedisPc) : RedisTask := { task with pc := pc }

/-- **The next call of a server**, in whichever loop the task is. -/
def call (outcome : CallOutcome) (task : RedisTask) (servers : RedisServers) :
    Option (RedisTask × RedisServers) :=
  match task.pc with
  | .setting attempt (url :: rest) count =>
    let r := outcome.call (RedisServers.setNx url task.key task.owner) servers
    some (task.goto (.setting attempt rest (if r.1 then count + 1 else count)), r.2)
  | .rollingBack attempt (url :: rest) =>
    let r := outcome.call (RedisServers.releaseScript url task.key task.owner) servers
    some (task.goto (.rollingBack attempt rest), r.2)
  | .releasing forced (url :: rest) released =>
    let r := outcome.call
      (if forced then RedisServers.delete url task.key
        else RedisServers.releaseScript url task.key task.owner) servers
    some (task.goto (.releasing forced rest (released || r.1)), r.2)
  | .extending (url :: rest) count =>
    let r := outcome.call (RedisServers.extendScript url task.key task.owner) servers
    some (task.goto (.extending rest (if r.1 then count + 1 else count)), r.2)
  | _ => none

/-- **What is done between the loops**, with the answers of the clock. -/
def proceed (valid late : Bool) (task : RedisTask) : Option RedisStatus :=
  match task.pc with
  | .setting attempt [] count =>
    if task.manager.quorum ≤ count then
      -- a lock that is no longer valid is released again
      if valid then some .acquired
      else some (.running (task.goto (.rollingBack attempt task.manager.clients)))
    else if task.manager.clients.length = 1 then some (.running (task.goto (.waiting attempt)))
    else some (.running (task.goto (.rollingBack attempt task.manager.clients)))
  | .rollingBack attempt [] => some (.running (task.goto (.waiting attempt)))
  | .waiting attempt =>
    if late = false ∧ attempt + 1 < task.manager.retryCount then
      some (.running (task.goto (.setting (attempt + 1) task.manager.clients 0)))
    else some .refused
  | .releasing _ [] released => some (.released released)
  | .extending [] count =>
    some (.extended (if 1 < task.manager.clients.length then decide (task.manager.quorum ≤ count)
      else decide (0 < count)))
  | _ => none

/-- **Whose key a `release` takes away** with its next call, if any. -/
def takesBack (outcome : CallOutcome) (task : RedisTask) (servers : RedisServers) :
    Option String :=
  match task.pc with
  | .releasing forced (url :: _) _ =>
    if outcome ≠ .failed ∧ (forced = true ∨ servers url task.key = some task.owner) then
      servers url task.key
    else none
  | _ => none

end RedisTask

/-! ## Processes and threads -/

/-- **The servers, and any number of threads** of any number of processes, each with at most one
call of its process's manager; and what was granted and not released. A grant is a fact about the
past, and stays where the servers lose their keys: that is what may go wrong. -/
structure RedisWorld where
  servers : RedisServers
  tasks : ℕ → Option RedisTask
  /-- The keys that were granted, with their owners, until a `release` of the owner takes
  one of them away. -/
  granted : Finset (String × String)

/-- **A step of a thread.** -/
inductive RedisStep
  | acquire (thread process : ℕ) (resource owner : String)
  | release (thread process : ℕ) (resource : String) (owner : Option String)
  | extend (thread process : ℕ) (resource owner : String)
  | call (thread : ℕ) (outcome : CallOutcome)
  | proceed (thread : ℕ) (valid late : Bool)

namespace RedisWorld

/-- No key, no call. -/
def init : RedisWorld := ⟨fun _ _ => none, fun _ => none, ∅⟩

/-- What a thread has afterwards. -/
def assign (w : RedisWorld) (thread : ℕ) (task : Option RedisTask) : RedisWorld :=
  { w with tasks := Function.update w.tasks thread task }

/-- A thread without a call makes one. -/
def begin (w : RedisWorld) (thread : ℕ) (task : Option RedisTask) : Option RedisWorld :=
  match w.tasks thread with
  | some _ => none
  | none => some (w.assign thread task)

/-- **One step**, of processes with these managers. One call of one server, or what is done
between the loops: other threads come in between. -/
def step (managers : ℕ → RedisLockManager) (w : RedisWorld) : RedisStep → Option RedisWorld
  | .acquire thread process resource owner =>
    w.begin thread ((managers process).acquire resource owner)
  | .release thread process resource owner =>
    w.begin thread ((managers process).release resource owner)
  | .extend thread process resource owner =>
    w.begin thread ((managers process).extend resource owner)
  | .call thread outcome =>
    (w.tasks thread).bind (fun task => (task.call outcome w.servers).map (fun r =>
      { w.assign thread (some r.1) with
        servers := r.2
        granted := match task.takesBack outcome w.servers with
          | none => w.granted
          | some owner => w.granted.erase (task.key, owner) }))
  | .proceed thread valid late =>
    (w.tasks thread).bind (fun task => (task.proceed valid late).map (fun status =>
      { w.assign thread status.task? with
        granted := match status with
          | .acquired => insert (task.key, task.owner) w.granted
          | _ => w.granted }))

end RedisWorld

end JobOrchestrator
