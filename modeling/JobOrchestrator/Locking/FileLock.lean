import Mathlib.Data.Finset.Basic
import JobOrchestrator.Core.Job
import JobOrchestrator.Util.FileLocks
import JobOrchestrator.Util.GuardedRun

/-!
# The file lock manager

`locking/file_lock.py` on Unix: any number of processes, each with a
`FileLockManager` of its own on the same directory. `acquire`, `release` and
`cleanup_expired` are taken apart into their operations on files, which are one step
each: other processes can act between any two of them. Where a process is in a call
is its `FileLockPc`.

The files are those of `FileLocks.Directory`. A handle is named by the process
and the resource it was opened for. What a step reads from outside is a `FileInput`: the
clock, which processes are alive, and whether a failed attempt is repeated or
answered with `None`, which its timeout decides.
-/

namespace JobOrchestrator

open FileLocks (Inode Directory)

/-- The number of a process. -/
abbrev ProcessId := ℕ

/-- A handle on a lock file: the process that opened it, and for which resource. -/
abbrev FileHandle := ProcessId × String

/-- **What a lock file contains.** Whether a lock is stale and whose it is are told from this
text; who has the lock is up to `flock`. -/
structure FileLockInfo where
  owner : String
  acquiredAt : DateTime
  expiresAt : Option DateTime
  metadata : List (String × Value)
  pid : ProcessId

/-- **The lock directory.** -/
abbrev LockDirectory := Directory String FileHandle FileLockInfo

/-- The arguments of `acquire`, with the owner and the end of the lock that it computes from
them. -/
structure FileLockRequest where
  resource : String
  owner : String
  expiresAt : Option DateTime := none
  metadata : List (String × Value) := []

/-- What a step reads from outside. -/
structure FileInput where
  now : Time := 0
  isProcessAlive : ProcessId → Bool := fun _ => true
  /-- A failed attempt is repeated. -/
  retry : Bool := false

/-- The name of a lock file: `_get_lock_path`, without the directory. -/
def lockPath (resource : String) : String :=
  String.ofList (resource.toList.map (fun c => if c = '/' ∨ c = '\\' ∨ c = ':' then '_' else c))
    ++ ".lock"

/-- `_is_lock_expired`. -/
def FileLockInfo.isExpired (now : Time) (info : FileLockInfo) : Bool :=
  match info.expiresAt with
  | none => false
  | some expiresAt => decide (expiresAt.clock < (DateTime.utcnow now).clock)

/-- The lock has expired, or its process is dead. -/
def FileLockInfo.isStale (input : FileInput) (info : FileLockInfo) : Bool :=
  info.isExpired input.now || !input.isProcessAlive info.pid

/-- What `_write_lock_info` writes. -/
def FileLockRequest.info (request : FileLockRequest) (now : Time) (pid : ProcessId) :
    FileLockInfo where
  owner := request.owner
  acquiredAt := .utcnow now
  expiresAt := request.expiresAt
  metadata := request.metadata
  pid := pid

/-- **Where a process is.** Each place is followed by one operation on the file system; between
two of them other processes do what they like. -/
inductive FileLockPc
  | idle
  /-- `cleanup_expired`, with the names it has yet to look at; an `acquire` may go on after
  it. -/
  | cleaning (names : List String) (after : Option FileLockRequest)
  /-- It is to unlink a name. -/
  | removing (name : String) (names : List String) (after : Option FileLockRequest)
  /-- The head of the loop of `acquire`. -/
  | checking (request : FileLockRequest)
  /-- A stale lock file is to be unlinked. -/
  | unlinkingStale (request : FileLockRequest)
  /-- `open(lock_path, "x")`. -/
  | creating (request : FileLockRequest)
  /-- `open(lock_path, "r+")`. -/
  | opening (request : FileLockRequest)
  /-- `flock`, without waiting. -/
  | locking (request : FileLockRequest)
  /-- The file was locked by another handle: this one is to be closed. -/
  | givingUp (request : FileLockRequest)
  /-- The file is locked: `open(lock_path, "w")`. -/
  | truncating (request : FileLockRequest)
  /-- The lock info is to be written to the file that was opened so. -/
  | writing (request : FileLockRequest) (file : Inode)
  /-- The same, for a lock that this process had. -/
  | rewriting (request : FileLockRequest) (file : Inode)
  /-- The lock info is read back. -/
  | rereading (request : FileLockRequest)
  /-- `release` of a lock that this process has: the owner is compared. -/
  | comparing (resource owner : String)
  | unlocking (resource : String)
  | closing (resource : String)
  /-- `release` of a lock that it does not have: the owner is compared. -/
  | matching (resource owner : String)
  /-- The lock file is to be unlinked. -/
  | unlinking (resource : String)

/-- **A process with its manager.** -/
structure FileLockProcess where
  pc : FileLockPc := .idle
  /-- The keys of `_held_locks`. -/
  held : Finset String := ∅

namespace FileLockProcess

/-- The process goes on elsewhere. -/
def goto (proc : FileLockProcess) (pc : FileLockPc) : FileLockProcess := { proc with pc := pc }

/-- After a failed attempt: the next one, or `None`. -/
def afterFailure (input : FileInput) (proc : FileLockProcess) (request : FileLockRequest) :
    FileLockProcess :=
  proc.goto (if input.retry then .checking request else .idle)

/-- After a cleanup: the `acquire` that it was made for, if any. -/
def afterCleanup (proc : FileLockProcess) : Option FileLockRequest → FileLockProcess
  | none => proc.goto .idle
  | some request => proc.goto (.checking request)

/-- **The next operation on files** of a process that is in a call. -/
def proceed (input : FileInput) (p : ProcessId) (d : LockDirectory) (proc : FileLockProcess) :
    LockDirectory × FileLockProcess :=
  match proc.pc with
  | .idle => (d, proc)
  | .cleaning [] after => (d, proc.afterCleanup after)
  | .cleaning (name :: names) after =>
    match d.read name with
    | none => (d, proc.goto (.removing name names after))
    | some info =>
      (d, proc.goto (if info.isStale input then .removing name names after
        else .cleaning names after))
  | .removing name names after => (d.unlink name, proc.goto (.cleaning names after))
  | .checking request =>
    if request.resource ∈ proc.held then
      let r := d.openTruncate (lockPath request.resource)
      (r.2, proc.goto (.rewriting request r.1))
    else
      match d.read (lockPath request.resource) with
      | none => (d, proc.goto (.creating request))
      | some info =>
        (d, proc.goto (if info.isStale input then .unlinkingStale request
          else .creating request))
  | .unlinkingStale request =>
    (d.unlink (lockPath request.resource), proc.goto (.creating request))
  | .creating request =>
    match d.openExclusive (lockPath request.resource) (p, request.resource) with
    | none => (d, proc.goto (.opening request))
    | some created => (created, proc.goto (.locking request))
  | .opening request =>
    match d.openExisting (lockPath request.resource) (p, request.resource) with
    | none => (d, proc.afterFailure input request)
    | some opened => (opened, proc.goto (.locking request))
  | .locking request =>
    match d.flock (p, request.resource) with
    | (true, locked) => (locked, proc.goto (.truncating request))
    | (false, _) => (d, proc.goto (.givingUp request))
  | .givingUp request => (d.close (p, request.resource), proc.afterFailure input request)
  | .truncating request =>
    let r := d.openTruncate (lockPath request.resource)
    (r.2, proc.goto (.writing request r.1))
  | .writing request file =>
    -- granted
    (d.write file (request.info input.now p),
      { pc := .idle, held := insert request.resource proc.held })
  | .rewriting request file =>
    (d.write file (request.info input.now p), proc.goto (.rereading request))
  | .rereading _ => (d, proc.goto .idle)
  | .comparing resource owner =>
    match d.read (lockPath resource) with
    | none => (d, proc.goto (.unlocking resource))
    | some info =>
      (d, proc.goto (if info.owner = owner then .unlocking resource else .idle))
  | .unlocking resource => (d.unlock (p, resource), proc.goto (.closing resource))
  | .closing resource =>
    (d.close (p, resource), { pc := .unlinking resource, held := proc.held.erase resource })
  | .matching resource owner =>
    match d.read (lockPath resource) with
    | none => (d, proc.goto .idle)
    | some info => (d, proc.goto (if info.owner = owner then .unlinking resource else .idle))
  | .unlinking resource => (d.unlink (lockPath resource), proc.goto .idle)

/-- Where `release` begins. -/
def releasePc (proc : FileLockProcess) (resource : String) (owner : Option String) : FileLockPc :=
  match owner with
  | some owner =>
    if resource ∈ proc.held then .comparing resource owner else .matching resource owner
  | none => if resource ∈ proc.held then .unlocking resource else .unlinking resource

end FileLockProcess

/-- **The lock directory and the processes.** The directory is all that the processes share. -/
structure FileLockWorld where
  directory : LockDirectory
  processes : ProcessId → FileLockProcess

/-- **A step of a process**: it calls a method, or goes on with the call it is in. -/
inductive FileLockStep
  /-- `acquire`, which first cleans up where it is time for that. -/
  | acquire (p : ProcessId) (request : FileLockRequest) (cleanup : Bool)
  | release (p : ProcessId) (resource : String) (owner : Option String)
  | cleanupExpired (p : ProcessId)
  | proceed (p : ProcessId) (input : FileInput)

namespace FileLockWorld

/-- No lock file, and no process in a call. -/
def init : FileLockWorld := ⟨.empty, fun _ => {}⟩

/-- A process that is in no call begins one. -/
def call (w : FileLockWorld) (p : ProcessId) (pc : FileLockPc) : Option FileLockWorld :=
  match (w.processes p).pc with
  | .idle =>
    some { w with processes := Function.update w.processes p ((w.processes p).goto pc) }
  | _ => none

/-- **One step.** A process that is idle may begin a call, and one that is in a call makes its
next file operation. -/
def step (w : FileLockWorld) : FileLockStep → Option FileLockWorld
  | .acquire p request cleanup =>
    w.call p (if cleanup then .cleaning w.directory.names.keys (some request)
      else .checking request)
  | .release p resource owner => w.call p ((w.processes p).releasePc resource owner)
  | .cleanupExpired p => w.call p (.cleaning w.directory.names.keys none)
  | .proceed p input =>
    match (w.processes p).pc with
    | .idle => none
    | _ =>
      let r := (w.processes p).proceed input p w.directory
      some ⟨r.1, Function.update w.processes p r.2⟩

end FileLockWorld

end JobOrchestrator
