import JobOrchestrator.Locking.RedisAgreement

/-!
# What a failed Redis acquire takes away

An attempt that misses the quorum, and one whose lock is over when it is complete, takes its
keys back: `_release_all` runs the release script on every server. The script goes by the
owner in the key and not by what this call has set, so that it finds the keys the owner
had before, too.

A call is followed here with everything that happens to the servers meanwhile: a key can
expire, or be changed by another client, between any two of its steps. What is asked is that
a key to which nothing of that kind happens is still there when the call has returned
`None`.
-/

namespace JobOrchestrator

/-- **A call of the manager, and the servers.** -/
structure RedisCall where
  servers : RedisServers
  status : RedisStatus

/-- **What happens during a call**: a step of its own, or something else to a key – it expires, or
another client sets it or takes it away. -/
inductive RedisCallStep
  | call (outcome : CallOutcome)
  | proceed (valid late : Bool)
  | elsewhere (url : RedisUrl) (key : String) (value : Option String)

/-- Nothing else happens to this key of this server. -/
def RedisCallStep.Spares (url : RedisUrl) (key : String) : RedisCallStep → Prop
  | .elsewhere url' key' _ => url ≠ url' ∨ key ≠ key'
  | _ => True

instance (url : RedisUrl) (key : String) : (l : RedisCallStep) → Decidable (l.Spares url key)
  | .elsewhere url' key' _ => inferInstanceAs (Decidable (url ≠ url' ∨ key ≠ key'))
  | .call _ | .proceed .. => isTrue trivial

namespace RedisCall

/-- **One step.** -/
def step (c : RedisCall) : RedisCallStep → Option RedisCall
  | .call outcome => c.status.task?.bind (fun task =>
      (task.call outcome c.servers).map (fun r => ⟨r.2, .running r.1⟩))
  | .proceed valid late => c.status.task?.bind (fun task =>
      (task.proceed valid late).map (fun status => ⟨c.servers, status⟩))
  | .elsewhere url key value => some { c with servers := c.servers.write url key value }

/-- A run in which nothing else happens to a key. -/
abbrev SparingRun (url : RedisUrl) (key : String) : RedisCall → List RedisCallStep → RedisCall →
    Prop :=
  GuardedRun step (fun _ l => l.Spares url key)

end RedisCall

open RedisServers

/-- **A failed acquire takes nothing away**: in every run of the call that ends with `None`, a key
of the resource that was there before, and to which nothing else happens, is there with the
same owner. -/
def RedisLockManager.TakesNothing (m : RedisLockManager) (resource owner : String)
    (servers : RedisServers) : Prop :=
  ∀ task, m.acquire resource owner = some task →
    ∀ url o, servers url (m.key resource) = some o →
      ∀ ls c, RedisCall.SparingRun url (m.key resource) ⟨servers, .running task⟩ ls c →
        c.status = .refused → c.servers url (m.key resource) = some o

/-- **Where an `acquire` is**: in its loops over the clients, or between them, or returned. -/
def RedisStatus.Acquiring (m : RedisLockManager) (key owner : String) : RedisStatus → Prop
  | .running task => task.manager = m ∧ task.key = key ∧ task.owner = owner ∧
      match task.pc with
      | .setting _ rest _ | .rollingBack _ rest => rest ⊆ m.clients
      | .waiting _ => True
      | .releasing .. | .extending .. => False
  | .acquired | .refused => True
  | .released _ | .extended _ => False

/-- **Where an `acquire` with one client is, that has set nothing.** -/
def RedisStatus.Refused (m : RedisLockManager) (key owner : String) : RedisStatus → Prop
  | .running task => task.manager = m ∧ task.key = key ∧ task.owner = owner ∧
      match task.pc with
      | .setting _ rest count => rest ⊆ m.clients ∧ count = 0
      | .waiting _ => True
      | _ => False
  | .refused => True
  | _ => False

/-- Whatever has a task is still running: the other statuses are those of a call that has
returned. -/
theorem RedisStatus.eq_running {status : RedisStatus} {task : RedisTask}
    (h : status.task? = some task) : status = .running task := by
  cases status with
  | running task' => exact congrArg RedisStatus.running (Option.some.inj h)
  | _ => cases h

namespace RedisCall

variable {m : RedisLockManager} {key owner o : String} {url : RedisUrl} {c c' : RedisCall}

/-- What a step is, by who makes it: a call of a server, something between the loops, or a change
that comes from elsewhere. -/
theorem step_cases {l : RedisCallStep} (taken : c.step l = some c') :
    (∃ task outcome r, c.status = .running task ∧ task.call outcome c.servers = some r
        ∧ c' = ⟨r.2, .running r.1⟩)
      ∨ (∃ task valid late status, c.status = .running task
        ∧ task.proceed valid late = some status ∧ c' = ⟨c.servers, status⟩)
      ∨ ∃ url key value, l = .elsewhere url key value
        ∧ c' = { c with servers := c.servers.write url key value } := by
  cases l with
  | call outcome =>
    obtain ⟨task, htask, hcall⟩ := Option.bind_eq_some_iff.mp taken
    obtain ⟨r, hr, rfl⟩ := Option.map_eq_some_iff.mp hcall
    exact Or.inl ⟨task, outcome, r, RedisStatus.eq_running htask, hr, rfl⟩
  | proceed valid late =>
    obtain ⟨task, htask, hproceed⟩ := Option.bind_eq_some_iff.mp taken
    obtain ⟨status, hstatus, rfl⟩ := Option.map_eq_some_iff.mp hproceed
    exact Or.inr (Or.inl ⟨task, valid, late, status, RedisStatus.eq_running htask, hstatus, rfl⟩)
  | elsewhere url key value =>
    exact Or.inr (Or.inr ⟨url, key, value, rfl, (Option.some.inj taken).symm⟩)

/-- **The release script** takes the key of its owner on its server, and nothing else. -/
theorem release_other {servers : RedisServers} (outcome : CallOutcome) (url' : RedisUrl)
    (has : servers url key = some o) (other : o ≠ owner ∨ url ≠ url') :
    (outcome.call (releaseScript url' key owner) servers).2 url key = some o := by
  have hdone : (releaseScript url' key owner servers).2 url key = some o := by
    unfold releaseScript
    split
    · rename_i howner
      show servers.write url' key none url key = some o
      rw [write_of_ne (Or.inl ?_), has]
      rintro rfl
      obtain hne | hne := other
      · exact hne (Option.some.inj (has.symm.trans howner))
      · exact hne rfl
    · exact has
  cases outcome with
  | answered | lost => exact hdone
  | failed => exact has

/-- **A call of an acquire leaves the keys of other owners, and other servers.** -/
theorem call_other {task : RedisTask} {outcome : CallOutcome} {servers : RedisServers}
    {r : RedisTask × RedisServers} (taken : task.call outcome servers = some r)
    (inside : (RedisStatus.running task).Acquiring m key owner) (has : servers url key = some o)
    (other : o ≠ owner ∨ url ∉ m.clients) :
    (RedisStatus.running r.1).Acquiring m key owner ∧ r.2 url key = some o := by
  obtain ⟨m', key', owner', pc⟩ := task
  obtain ⟨rfl, rfl, rfl, hpc⟩ := inside
  cases pc with
  | setting attempt rest count =>
    cases rest with
    | nil => cases taken
    | cons url' rest =>
      cases taken
      exact ⟨⟨rfl, rfl, rfl, (List.cons_subset.mp hpc).2⟩, keeps_setNx _ _ _ _ _ _ _ _ has⟩
  | rollingBack attempt rest =>
    cases rest with
    | nil => cases taken
    | cons url' rest =>
      cases taken
      obtain ⟨hclient, hrest⟩ := List.cons_subset.mp hpc
      refine ⟨⟨rfl, rfl, rfl, hrest⟩, release_other outcome url' has ?_⟩
      exact other.imp_right (fun hout heq => hout (heq ▸ hclient))
  | waiting attempt => cases taken
  | releasing | extending => exact hpc.elim

/-- What is done between its loops keeps a call within `acquire`, in the loop, in the roll-back
or at an end of an attempt. -/
theorem proceed_acquiring {task : RedisTask} {valid late : Bool} {status : RedisStatus}
    (taken : task.proceed valid late = some status)
    (inside : (RedisStatus.running task).Acquiring m key owner) :
    status.Acquiring m key owner := by
  obtain ⟨m', key', owner', pc⟩ := task
  obtain ⟨rfl, rfl, rfl, hpc⟩ := inside
  unfold RedisTask.proceed at taken
  cases pc with
  | setting attempt rest count =>
    cases rest with
    | cons url' rest => cases taken
    | nil =>
      simp only at taken
      split at taken
      · split at taken <;> cases taken
        · exact trivial
        · exact ⟨rfl, rfl, rfl, List.Subset.refl _⟩
      · split at taken <;> cases taken
        · exact ⟨rfl, rfl, rfl, trivial⟩
        · exact ⟨rfl, rfl, rfl, List.Subset.refl _⟩
  | rollingBack attempt rest =>
    cases rest <;> cases taken
    exact ⟨rfl, rfl, rfl, trivial⟩
  | waiting attempt =>
    simp only at taken
    split at taken <;> cases taken
    · exact ⟨rfl, rfl, rfl, List.Subset.refl _⟩
    · exact trivial
  | releasing | extending => exact hpc.elim

/-- **A step of an acquire leaves the keys of other owners, and other servers.** -/
theorem step_other {l : RedisCallStep} (taken : c.step l = some c') (spares : l.Spares url key)
    (inside : c.status.Acquiring m key owner) (has : c.servers url key = some o)
    (other : o ≠ owner ∨ url ∉ m.clients) :
    c'.status.Acquiring m key owner ∧ c'.servers url key = some o := by
  obtain ⟨task, outcome, r, hrun, hcall, rfl⟩ | ⟨task, valid, late, status, hrun, hproceed, rfl⟩ |
    ⟨url', key', value, rfl, rfl⟩ := step_cases taken
  · exact call_other hcall (hrun ▸ inside) has other
  · exact ⟨proceed_acquiring hproceed (hrun ▸ inside), has⟩
  · exact ⟨inside, (write_of_ne spares).trans has⟩

/-- **A call of an acquire with one client, where the key is there**, sets nothing. -/
theorem call_single {task : RedisTask} {outcome : CallOutcome} {servers : RedisServers}
    {r : RedisTask × RedisServers} (taken : task.call outcome servers = some r)
    (inside : (RedisStatus.running task).Refused m key owner) (has : servers url key = some o)
    (single : m.clients = [url]) :
    (RedisStatus.running r.1).Refused m key owner ∧ r.2 url key = some o := by
  obtain ⟨m', key', owner', pc⟩ := task
  obtain ⟨rfl, rfl, rfl, hpc⟩ := inside
  cases pc with
  | setting attempt rest count =>
    cases rest with
    | nil => cases taken
    | cons url' rest =>
      cases taken
      obtain ⟨hsubset, rfl⟩ := hpc
      obtain ⟨hclient, hrest⟩ := List.cons_subset.mp hsubset
      obtain rfl : url' = url := List.mem_singleton.mp (single ▸ hclient)
      have hno : (outcome.call (setNx url' key' owner') servers).1 = false := by
        cases h : (outcome.call (setNx url' key' owner') servers).1 with
        | false => rfl
        | true => cases has.symm.trans (setNx_yes h).1
      refine ⟨⟨rfl, rfl, rfl, hrest, ?_⟩, keeps_setNx _ _ _ _ _ _ _ _ has⟩
      show (if (outcome.call (setNx url' key' owner') servers).1 then 0 + 1 else 0) = 0
      rw [hno]
      rfl
  | waiting attempt => cases taken
  | rollingBack | releasing | extending => exact hpc.elim

/-- And where it has set nothing, it takes nothing back. -/
theorem proceed_refused {task : RedisTask} {valid late : Bool} {status : RedisStatus}
    (taken : task.proceed valid late = some status)
    (inside : (RedisStatus.running task).Refused m key owner) (single : m.clients.length = 1) :
    status.Refused m key owner := by
  obtain ⟨m', key', owner', pc⟩ := task
  obtain ⟨rfl, rfl, rfl, hpc⟩ := inside
  unfold RedisTask.proceed at taken
  cases pc with
  | setting attempt rest count =>
    cases rest with
    | cons url' rest => cases taken
    | nil =>
      obtain ⟨-, rfl⟩ := hpc
      simp only at taken
      rw [if_neg (show ¬ m'.quorum ≤ 0 from Nat.not_succ_le_zero _), if_pos single] at taken
      cases taken
      exact ⟨rfl, rfl, rfl, trivial⟩
  | waiting attempt =>
    simp only at taken
    split at taken <;> cases taken
    · exact ⟨rfl, rfl, rfl, List.Subset.refl _, rfl⟩
    · exact trivial
  | rollingBack | releasing | extending => exact hpc.elim

/-- **A step of an acquire with one client, where the key is there**: it sets nothing, and takes
nothing back. -/
theorem step_single {l : RedisCallStep} (taken : c.step l = some c') (spares : l.Spares url key)
    (single : m.clients = [url]) (inside : c.status.Refused m key owner)
    (has : c.servers url key = some o) :
    c'.status.Refused m key owner ∧ c'.servers url key = some o := by
  obtain ⟨task, outcome, r, hrun, hcall, rfl⟩ | ⟨task, valid, late, status, hrun, hproceed, rfl⟩ |
    ⟨url', key', value, rfl, rfl⟩ := step_cases taken
  · exact call_single hcall (hrun ▸ inside) has single
  · exact ⟨proceed_refused hproceed (hrun ▸ inside) (congrArg List.length single), has⟩
  · exact ⟨inside, (write_of_ne spares).trans has⟩

/-! ## Runs -/

variable {attempt : ℕ} {rest : List RedisUrl}

/-- **The loop of an acquire whose calls all fail** counts nothing. -/
theorem exists_failing (url : RedisUrl) (servers : RedisServers) (m : RedisLockManager)
    (key owner : String) (attempt count : ℕ) (rest : List RedisUrl) :
    ∃ ls, SparingRun url key ⟨servers, .running ⟨m, key, owner, .setting attempt rest count⟩⟩ ls
      ⟨servers, .running ⟨m, key, owner, .setting attempt [] count⟩⟩ := by
  induction rest with
  | nil => exact ⟨[], .nil _⟩
  | cons url' rest ih =>
    obtain ⟨ls, run⟩ := ih
    have hfirst : SparingRun url key
        ⟨servers, .running ⟨m, key, owner, .setting attempt (url' :: rest) count⟩⟩ [.call .failed]
        ⟨servers, .running ⟨m, key, owner, .setting attempt rest count⟩⟩ := .single trivial rfl
    exact ⟨_, hfirst.append run⟩

/-- **The release script on all servers** leaves the owner no key. -/
theorem exists_rollingBack (url : RedisUrl) (servers : RedisServers) (m : RedisLockManager)
    (key owner : String) (attempt : ℕ) (rest : List RedisUrl) :
    ∃ ls servers', SparingRun url key
        ⟨servers, .running ⟨m, key, owner, .rollingBack attempt rest⟩⟩ ls
        ⟨servers', .running ⟨m, key, owner, .rollingBack attempt []⟩⟩
      ∧ ∀ u, servers' u key = some owner → u ∉ rest ∧ servers u key = some owner := by
  induction rest generalizing servers with
  | nil => exact ⟨[], servers, .nil _, fun u hu => ⟨List.not_mem_nil, hu⟩⟩
  | cons url' rest ih =>
    have hgone (u : RedisUrl) (hu : (releaseScript url' key owner servers).2 u key = some owner) :
        u ≠ url' ∧ servers u key = some owner := by
      unfold releaseScript at hu
      split at hu
      · have hne : u ≠ url' := by
          rintro rfl
          cases (write_self u key none).symm.trans hu
        exact ⟨hne, (write_of_ne (Or.inl hne)).symm.trans hu⟩
      · rename_i hnot
        exact ⟨fun heq => hnot (heq ▸ hu), hu⟩
    obtain ⟨ls, servers', run, hrest⟩ := ih (releaseScript url' key owner servers).2
    have hfirst : SparingRun url key
        ⟨servers, .running ⟨m, key, owner, .rollingBack attempt (url' :: rest)⟩⟩ [.call .answered]
        ⟨(releaseScript url' key owner servers).2,
          .running ⟨m, key, owner, .rollingBack attempt rest⟩⟩ := .single trivial rfl
    refine ⟨_, servers', hfirst.append run, fun u hu => ?_⟩
    obtain ⟨hnot, hhas⟩ := hrest u hu
    obtain ⟨hne, hbefore⟩ := hgone u hhas
    exact ⟨List.not_mem_cons_of_ne_of_not_mem hne hnot, hbefore⟩

/-- **An attempt that takes back what it has not set**: every SET fails, every release is
executed, and then the deadline is over. -/
theorem exists_refused (url : RedisUrl) (servers : RedisServers) (m : RedisLockManager)
    (key owner : String) (many : m.clients.length ≠ 1) :
    ∃ ls servers', SparingRun url key
        ⟨servers, .running ⟨m, key, owner, .setting 0 m.clients 0⟩⟩ ls ⟨servers', .refused⟩
      ∧ ∀ u ∈ m.clients, servers' u key ≠ some owner := by
  have hlate : RedisCallStep.Spares url key (.proceed true true) := trivial
  obtain ⟨ls, hset⟩ := exists_failing url servers m key owner 0 0 m.clients
  have hmissed : step ⟨servers, .running ⟨m, key, owner, .setting 0 [] 0⟩⟩ (.proceed true true)
      = some ⟨servers, .running ⟨m, key, owner, .rollingBack 0 m.clients⟩⟩ := by
    have hquorum : ¬ m.quorum ≤ 0 := Nat.not_succ_le_zero _
    simp [step, RedisStatus.task?, RedisTask.proceed, hquorum, many, RedisTask.goto]
  obtain ⟨ls', servers', hroll, hgone⟩ := exists_rollingBack url servers m key owner 0 m.clients
  have hwaiting : step ⟨servers', .running ⟨m, key, owner, .rollingBack 0 []⟩⟩ (.proceed true true)
      = some ⟨servers', .running ⟨m, key, owner, .waiting 0⟩⟩ := rfl
  have hrefused : step ⟨servers', .running ⟨m, key, owner, .waiting 0⟩⟩ (.proceed true true)
      = some ⟨servers', .refused⟩ := rfl
  exact ⟨_, servers',
    (((hset.snoc hlate hmissed).append hroll).snoc hlate hwaiting).snoc hlate hrefused,
    fun u hu hhas => (hgone u hhas).1 hu⟩

end RedisCall

namespace RedisLockManager

variable {m : RedisLockManager}

/-- The first step of `acquire`: it begins the first attempt, with every client still to be
visited. -/
theorem acquire_eq_some {resource owner : String} {task : RedisTask}
    (h : m.acquire resource owner = some task) :
    task = ⟨m, m.key resource, owner, .setting 0 m.clients 0⟩ := by
  unfold acquire at h
  split at h
  · cases h
  · exact (Option.some.inj h).symm

/-- **A failed acquire takes nothing away exactly where its owner has nothing to lose.** For
every number of servers and everything they contain: after every call of `acquire` that returns
`None`, whichever calls of servers failed and whatever the clock said, all keys of the resource
that were there are there, if and only if the owner had none on a server of the manager
before – or there is one server only, or no attempt is made. -/
theorem takesNothing_iff (m : RedisLockManager) (resource owner : String)
    (servers : RedisServers) :
    m.TakesNothing resource owner servers
      ↔ m.retryCount = 0 ∨ m.clients.length = 1
        ∨ ∀ url ∈ m.clients, servers url (m.key resource) ≠ some owner := by
  constructor
  · intro h
    by_contra hnot
    simp only [not_or, not_forall, not_not] at hnot
    obtain ⟨htries, hmany, url, hclient, hhas⟩ := hnot
    have hsome : m.clients ≠ [] := List.ne_nil_of_mem hclient
    have htask : m.acquire resource owner
        = some ⟨m, m.key resource, owner, .setting 0 m.clients 0⟩ :=
      if_neg (not_or.mpr ⟨hsome, htries⟩)
    obtain ⟨ls, servers', hrun, hgone⟩ :=
      RedisCall.exists_refused url servers m (m.key resource) owner hmany
    exact hgone url hclient (h _ htask url owner hhas _ _ hrun rfl)
  · intro h task htask url o hhas ls c run hrefused
    have hsome := acquire_eq_some htask
    subst hsome
    -- scripts touch only keys of this owner on the servers of this manager
    by_cases hother : o ≠ owner ∨ url ∉ m.clients
    · exact (run.invariant
        (P := fun c => c.status.Acquiring m (m.key resource) owner
          ∧ c.servers url (m.key resource) = some o)
        ⟨⟨rfl, rfl, rfl, List.Subset.refl _⟩, hhas⟩
        (fun _ _ _ hP spares taken =>
          RedisCall.step_other taken spares hP.1 hP.2 hother)).2
    · rw [not_or, not_not, not_not] at hother
      obtain ⟨rfl, hclient⟩ := hother
      obtain hnone | hone | hfree := h
      · unfold acquire at htask
        rw [if_pos (Or.inr hnone)] at htask
        cases htask
      · have hsingle : m.clients = [url] := by
          obtain ⟨u, hu⟩ := List.length_eq_one_iff.mp hone
          rw [hu] at hclient ⊢
          rw [List.mem_singleton.mp hclient]
        exact (run.invariant
          (P := fun c => c.status.Refused m (m.key resource) o
            ∧ c.servers url (m.key resource) = some o)
          ⟨⟨rfl, rfl, rfl, List.Subset.refl _, rfl⟩, hhas⟩
          (fun _ _ _ hP spares taken =>
            RedisCall.step_single taken spares hsingle hP.1 hP.2)).2
      · exact absurd hhas (hfree url hclient)

/-- A manager with three servers. -/
def three : RedisLockManager := { clients := ["a", "b", "c"] }

/-- **A holder loses its lock by asking for it again.** Three servers have the key of an
owner, who acquires it once more: every server says no, and then takes the key back. -/
theorem holder_loses_lock :
    (∃ ls c, RedisCall.SparingRun "a" "lock:r"
        ⟨fun _ _ => some "h", .running ⟨three, "lock:r", "h", .setting 0 ["a", "b", "c"] 0⟩⟩ ls c
      ∧ c.status = .refused ∧ c.servers "a" "lock:r" = none ∧ c.servers "b" "lock:r" = none
      ∧ c.servers "c" "lock:r" = none)
      ∧ ¬ three.TakesNothing "r" "h" (fun _ _ => some "h") := by
  have hlost : ∃ c, RedisCall.SparingRun "a" "lock:r"
        ⟨fun _ _ => some "h", .running ⟨three, "lock:r", "h", .setting 0 ["a", "b", "c"] 0⟩⟩
        (List.replicate 3 (.call .answered) ++ [.proceed true true]
          ++ List.replicate 3 (.call .answered) ++ [.proceed true true, .proceed true true]) c
      ∧ (match c.status with
        | .refused => decide (c.servers "a" "lock:r" = none ∧ c.servers "b" "lock:r" = none
          ∧ c.servers "c" "lock:r" = none)
        | _ => false) = true :=
    GuardedRun.exists_of_replay (fun _ _ h => of_decide_eq_true h) (by decide +kernel)
  obtain ⟨c, hrun, htest⟩ := hlost
  have hrefused : c.status = .refused := by
    revert htest
    cases c.status <;> simp
  rw [hrefused] at htest
  have hnone := of_decide_eq_true htest
  refine ⟨⟨_, c, hrun, hrefused, hnone⟩, fun h => ?_⟩
  have hkept := h _ rfl "a" "h" rfl _ c hrun hrefused
  cases hnone.1.symm.trans hkept

end RedisLockManager

end JobOrchestrator
