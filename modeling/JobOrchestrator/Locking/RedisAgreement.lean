import JobOrchestrator.Locking.RedisLock
import JobOrchestrator.Util.Quorum

/-!
# When Redis locks exclude

An `acquire` that returns a lock has counted a quorum of servers that took its key.
So two owners have the lock of one resource only if two quorums have no server in
common, or if a key was taken away from a quorum that still counts on it. Both can
happen.

The quorum is a majority of the *clients*, and a manager has a client for those of
its URLs only that it could reach when it was constructed: processes that reached
different servers count majorities of different sets. And `_release_all`, which
takes the keys of a failed attempt back, finds them by their owner: an owner that
has the lock and fails to acquire it once more loses it.

`granted_agree_iff` says that nothing else goes wrong. Where no key is taken away
that is counted on – `Orderly` – the owners agree in every run exactly if the
quorums of all processes meet.
-/

namespace JobOrchestrator

/-! ## What the servers keep through a call -/

namespace RedisServers

variable {servers : RedisServers} {url url' : RedisUrl} {key key' owner : String}

theorem write_self (url : RedisUrl) (key : String) (value : Option String) :
    servers.write url key value url key = value := by
  rw [write, Function.update_self, Function.update_self]

theorem write_of_ne {value : Option String} (h : url' ≠ url ∨ key' ≠ key) :
    servers.write url key value url' key' = servers url' key' := by
  unfold write
  by_cases hurl : url' = url
  · subst hurl
    rw [Function.update_self, Function.update_of_ne (h.resolve_left (fun hne => hne rfl))]
  · rw [Function.update_of_ne hurl]

/-- **The keys of an owner stay where they are.** -/
def Keeps (servers servers' : RedisServers) (key owner : String) : Prop :=
  ∀ url, servers url key = some owner → servers' url key = some owner

theorem Keeps.refl (servers : RedisServers) (key owner : String) :
    Keeps servers servers key owner :=
  fun _ h => h

/-- `SET NX` overwrites nothing, however the call ends for the client that makes it. -/
theorem keeps_setNx (outcome : CallOutcome) (url : RedisUrl) (key owner : String)
    (servers : RedisServers) (key' owner' : String) :
    Keeps servers (outcome.call (setNx url key owner) servers).2 key' owner' := by
  have hset : Keeps servers (setNx url key owner servers).2 key' owner' := by
    intro url' h
    unfold setNx
    split
    · rename_i hfree
      show servers.write url key (some owner) url' key' = some owner'
      rw [write_of_ne]
      · exact h
      · -- the key that is written was free
        by_contra hsame
        rw [not_or, not_not, not_not] at hsame
        rw [hsame.1, hsame.2, hfree] at h
        cases h
    · exact h
  cases outcome with
  | answered | lost => exact hset
  | failed => exact Keeps.refl servers key' owner'

/-- A `SET NX` that is answered with yes has set a key that was free. -/
theorem setNx_yes {outcome : CallOutcome}
    (h : (outcome.call (setNx url key owner) servers).1 = true) :
    servers url key = none
      ∧ (outcome.call (setNx url key owner) servers).2 url key = some owner := by
  cases outcome with
  | answered =>
    show servers url key = none ∧ (setNx url key owner servers).2 url key = some owner
    replace h : (setNx url key owner servers).1 = true := h
    unfold setNx at h ⊢
    split at h
    · rename_i hfree
      exact ⟨hfree, write_self url key (some owner)⟩
    · cases h
  | lost | failed => cases h

/-- A key that is taken away from one owner is not taken from another. -/
theorem keeps_write_none {owner' : String}
    (spared : ∀ o, servers url key = some o → ¬ (key' = key ∧ owner' = o)) :
    Keeps servers (servers.write url key none) key' owner' := by
  intro url' h
  rw [write_of_ne]
  · exact h
  · by_contra hsame
    rw [not_or, not_not, not_not] at hsame
    obtain ⟨rfl, rfl⟩ := hsame
    exact spared owner' h ⟨rfl, rfl⟩

/-- **A release** takes one key away, if any: the owner's, or anybody's. -/
theorem keeps_release {outcome : CallOutcome} {forced : Bool} (owner' : String)
    (spared : ∀ o, outcome ≠ .failed → (forced = true ∨ o = owner) → servers url key = some o →
      ¬ (key' = key ∧ owner' = o)) :
    Keeps servers (outcome.call (if forced then delete url key else releaseScript url key owner)
      servers).2 key' owner' := by
  have hdone : outcome ≠ .failed → Keeps servers
      ((if forced then delete url key else releaseScript url key owner) servers).2 key' owner' := by
    intro hne
    cases forced with
    | true => exact keeps_write_none (fun o ho => spared o hne (Or.inl rfl) ho)
    | false =>
      show Keeps servers (releaseScript url key owner servers).2 key' owner'
      unfold releaseScript
      split
      · rename_i howner
        refine keeps_write_none (fun o ho => spared o hne (Or.inr ?_) ho)
        exact Option.some.inj (ho.symm.trans howner)
      · exact Keeps.refl servers key' owner'
  cases outcome with
  | answered | lost => exact hdone (by decide)
  | failed => exact Keeps.refl servers key' owner'

end RedisServers

open RedisServers

/-- **A count of servers is backed**: that many of the manager's servers have the key of the
owner. -/
def RedisLockManager.Backed (m : RedisLockManager) (servers : RedisServers) (key owner : String)
    (count : ℕ) : Prop :=
  ∃ won ⊆ m.clients.toFinset, won.card = count ∧ ∀ url ∈ won, servers url key = some owner

namespace RedisLockManager.Backed

variable {m : RedisLockManager} {servers servers' : RedisServers} {key owner : String} {count : ℕ}

theorem zero (m : RedisLockManager) (servers : RedisServers) (key owner : String) :
    m.Backed servers key owner 0 :=
  ⟨∅, Finset.empty_subset _, rfl, fun _ h => absurd h (Finset.notMem_empty _)⟩

theorem mono (h : m.Backed servers key owner count) (kept : Keeps servers servers' key owner) :
    m.Backed servers' key owner count := by
  obtain ⟨won, hsub, hcard, hall⟩ := h
  exact ⟨won, hsub, hcard, fun url hurl => kept url (hall url hurl)⟩

/-- One more server takes the key. It is one of the clients, and had not been counted, since it
was free. -/
theorem succ (h : m.Backed servers key owner count) (kept : Keeps servers servers' key owner)
    {url : RedisUrl} (client : url ∈ m.clients) (free : servers url key = none)
    (taken : servers' url key = some owner) : m.Backed servers' key owner (count + 1) := by
  obtain ⟨won, hsub, hcard, hall⟩ := h
  have hfresh : url ∉ won := fun hurl => by cases free.symm.trans (hall url hurl)
  refine ⟨insert url won, ?_, ?_, ?_⟩
  · exact Finset.insert_subset (List.mem_toFinset.mpr client) hsub
  · rw [Finset.card_insert_of_notMem hfresh, hcard]
  · intro url' hurl'
    rcases Finset.mem_insert.mp hurl' with rfl | hold
    · exact taken
    · exact kept url' (hall url' hold)

end RedisLockManager.Backed

/-! ## The invariant -/

/-- An acquire of the key by the owner that is setting its keys. -/
def RedisTask.Setting (key owner : String) (task : RedisTask) : Prop :=
  task.key = key ∧ task.owner = owner ∧ ∃ attempt rest count, task.pc = .setting attempt rest count

/-- **Where a task is**, it has attempts, and its count is backed. -/
def RedisTask.Inside (servers : RedisServers) (task : RedisTask) : Prop :=
  match task.pc with
  | .setting _ rest count => 0 < task.manager.retryCount ∧ rest ⊆ task.manager.clients
      ∧ task.manager.Backed servers task.key task.owner count
  | .rollingBack _ _ | .waiting _ => 0 < task.manager.retryCount
  | .releasing _ _ _ | .extending _ _ => True

/-- It stays so where its keys are kept, if it counts on any. -/
theorem RedisTask.Inside.mono {servers servers' : RedisServers} {task : RedisTask}
    (h : task.Inside servers)
    (kept : task.Setting task.key task.owner → Keeps servers servers' task.key task.owner) :
    task.Inside servers' := by
  unfold Inside at h ⊢
  split
  · rename_i attempt rest count hpc
    rw [hpc] at h
    exact ⟨h.1, h.2.1, h.2.2.mono (kept ⟨rfl, rfl, attempt, rest, count, hpc⟩)⟩
  all_goals
    rename_i hpc
    rw [hpc] at h
    exact h

namespace RedisTask

/-- **The next call takes away a key of this owner.** -/
def Takes (outcome : CallOutcome) (servers : RedisServers) (o : String) (task : RedisTask) :
    Prop :=
  outcome ≠ .failed ∧
    match task.pc with
    | .rollingBack _ (url :: _) => o = task.owner ∧ servers url task.key = some o
    | .releasing forced (url :: _) _ =>
      (forced = true ∨ o = task.owner) ∧ servers url task.key = some o
    | _ => False

/-- It is a call of `release` with an owner, who releases the lock. -/
def Releases (task : RedisTask) : Prop :=
  ∃ rest released, task.pc = .releasing false rest released

end RedisTask

namespace RedisWorld

variable {managers : ℕ → RedisLockManager} {w w' : RedisWorld}

/-- **The invariant**: the tasks are calls of the managers, in order, and behind what is granted
there is a quorum. Behind a grant stand the servers that were counted for it, and they still have
the key with its owner. -/
structure Sound (managers : ℕ → RedisLockManager) (w : RedisWorld) : Prop where
  managed : ∀ i task, w.tasks i = some task → ∃ p, task.manager = managers p
  inside : ∀ i task, w.tasks i = some task → task.Inside w.servers
  backed : ∀ key owner, (key, owner) ∈ w.granted → ∃ p count, 0 < (managers p).retryCount
    ∧ (managers p).quorum ≤ count ∧ (managers p).Backed w.servers key owner count

theorem tasks_update {i j : ℕ} {task : Option RedisTask} {t : RedisTask}
    (h : Function.update w.tasks i task j = some t) :
    j = i ∧ task = some t ∨ j ≠ i ∧ w.tasks j = some t := by
  by_cases hj : j = i
  · subst hj
    rw [Function.update_self] at h
    exact Or.inl ⟨rfl, h⟩
  · rw [Function.update_of_ne hj] at h
    exact Or.inr ⟨hj, h⟩

/-- **A thread's step keeps the invariant** if its own task is in order afterwards, and the
keys are kept that others count on and that are granted. -/
theorem Sound.update (h : w.Sound managers) {i : ℕ} {task : Option RedisTask}
    {servers : RedisServers} {granted : Finset (String × String)}
    (managed : ∀ t, task = some t → ∃ p, t.manager = managers p)
    (inside : ∀ t, task = some t → t.Inside servers)
    (elsewhere : ∀ j t, j ≠ i → w.tasks j = some t → t.Setting t.key t.owner →
      Keeps w.servers servers t.key t.owner)
    (backed : ∀ key owner, (key, owner) ∈ granted →
      (key, owner) ∈ w.granted ∧ Keeps w.servers servers key owner
      ∨ ∃ p count, 0 < (managers p).retryCount ∧ (managers p).quorum ≤ count
        ∧ (managers p).Backed servers key owner count) :
    Sound managers ⟨servers, Function.update w.tasks i task, granted⟩ where
  managed j t ht := by
    rcases tasks_update ht with ⟨-, hnew⟩ | ⟨-, hold⟩
    · exact managed t hnew
    · exact h.managed j t hold
  inside j t ht := by
    rcases tasks_update ht with ⟨-, hnew⟩ | ⟨hj, hold⟩
    · exact inside t hnew
    · exact (h.inside j t hold).mono (elsewhere j t hj hold)
  backed key owner hg := by
    rcases backed key owner hg with ⟨hold, hkept⟩ | hnew
    · obtain ⟨p, count, htries, hquorum, hb⟩ := h.backed key owner hold
      exact ⟨p, count, htries, hquorum, hb.mono hkept⟩
    · exact hnew

/-- The servers and what is granted stay as they are. -/
theorem Sound.assign (h : w.Sound managers) {i : ℕ} {task : Option RedisTask}
    (managed : ∀ t, task = some t → ∃ p, t.manager = managers p)
    (inside : ∀ t, task = some t → t.Inside w.servers) : (w.assign i task).Sound managers :=
  h.update managed inside (fun _ t _ _ _ => Keeps.refl w.servers t.key t.owner)
    (fun key owner hg => Or.inl ⟨hg, Keeps.refl w.servers key owner⟩)

/-! ## The condition -/

/-- Another thread is acquiring the key for the owner, and counts the servers that took it. -/
def CountedElsewhere (w : RedisWorld) (thread : ℕ) (key owner : String) : Prop :=
  ∃ i task, i ≠ thread ∧ w.tasks i = some task ∧ task.Setting key owner

/-- **The condition.** A key that a call takes away from an owner is not one that another call
of the owner's counts; nor, unless the owner releases it, one of a lock that the owner has. -/
def Orderly (w : RedisWorld) : RedisStep → Prop
  | .call thread outcome => ∀ task o, w.tasks thread = some task →
    task.Takes outcome w.servers o →
      ¬ w.CountedElsewhere thread task.key o ∧ (¬ task.Releases → (task.key, o) ∉ w.granted)
  | _ => True

/-! ## The steps keep the invariant -/

theorem begin_some {thread : ℕ} {task : Option RedisTask} (taken : w.begin thread task = some w') :
    w.tasks thread = none ∧ w' = w.assign thread task := by
  unfold begin at taken
  cases hfree : w.tasks thread with
  | some t => simp [hfree] at taken
  | none =>
    simp only [hfree, Option.some.injEq] at taken
    exact ⟨rfl, taken.symm⟩

/-- **A call of `acquire`** has not counted yet. With nothing counted there is nothing that would
have to be backed. -/
theorem Sound.acquire (h : w.Sound managers) (thread process : ℕ) (resource owner : String) :
    (w.assign thread ((managers process).acquire resource owner)).Sound managers := by
  unfold RedisLockManager.acquire
  split
  · exact h.assign (fun _ ht => by cases ht) (fun _ ht => by cases ht)
  · rename_i hready
    rw [not_or] at hready
    refine h.assign ?_ ?_
    · rintro t ⟨⟩
      exact ⟨process, rfl⟩
    · rintro t ⟨⟩
      exact ⟨Nat.pos_of_ne_zero hready.2, List.Subset.refl _,
        RedisLockManager.Backed.zero (managers process) w.servers _ owner⟩

theorem Sound.release (h : w.Sound managers) (thread process : ℕ) (resource : String)
    (owner : Option String) :
    (w.assign thread ((managers process).release resource owner)).Sound managers := by
  unfold RedisLockManager.release
  split
  · exact h.assign (fun _ ht => by cases ht) (fun _ ht => by cases ht)
  · refine h.assign ?_ ?_
    · rintro t ⟨⟩
      exact ⟨process, rfl⟩
    · rintro t ⟨⟩
      exact trivial

theorem Sound.extend (h : w.Sound managers) (thread process : ℕ) (resource owner : String) :
    (w.assign thread ((managers process).extend resource owner)).Sound managers := by
  unfold RedisLockManager.extend
  split
  · exact h.assign (fun _ ht => by cases ht) (fun _ ht => by cases ht)
  · refine h.assign ?_ ?_
    · rintro t ⟨⟩
      exact ⟨process, rfl⟩
    · rintro t ⟨⟩
      exact trivial

/-- What a release has not taken back is what was granted, but for the key it takes. -/
theorem mem_granted_takesBack {outcome : CallOutcome} {m : RedisLockManager}
    {key owner key' owner' : String} {url : RedisUrl} {rest : List RedisUrl}
    {forced released : Bool}
    (h : (key', owner') ∈ match (RedisTask.mk m key owner
        (.releasing forced (url :: rest) released)).takesBack outcome w.servers with
      | none => w.granted
      | some o => w.granted.erase (key, o)) :
    (key', owner') ∈ w.granted ∧ ∀ o, outcome ≠ .failed → (forced = true ∨ o = owner) →
      w.servers url key = some o → ¬ (key' = key ∧ owner' = o) := by
  unfold RedisTask.takesBack at h
  by_cases hdone : outcome ≠ .failed ∧ (forced = true ∨ w.servers url key = some owner)
  · simp only [if_pos hdone] at h
    cases hold : w.servers url key with
    | none =>
      rw [hold] at h
      exact ⟨h, fun _ _ _ ho => by cases ho⟩
    | some o =>
      rw [hold] at h
      obtain ⟨hne, hmem⟩ := Finset.mem_erase.mp h
      refine ⟨hmem, fun o' _ _ ho' hsame => hne ?_⟩
      rw [hsame.1, hsame.2, Option.some.inj ho']
  · simp only [if_neg hdone] at h
    refine ⟨h, fun o hf how ho => absurd ⟨hf, how.imp_right (fun heq => ?_)⟩ hdone⟩
    rw [ho, heq]

/-! ### Calls of servers

Each loop has its own; the condition is asked of those that take keys away. -/

section Calls

variable {thread : ℕ} {task : RedisTask} {m : RedisLockManager} {key owner : String}
  {url : RedisUrl} {rest : List RedisUrl} {outcome : CallOutcome}

theorem Sound.managed_goto (h : w.Sound managers) (has : w.tasks thread = some task)
    (pc : RedisPc) : ∀ t, some (task.goto pc) = some t → ∃ p, t.manager = managers p := by
  rintro t ⟨⟩
  exact h.managed thread task has

/-- A task goes on, and nothing else changes. -/
theorem Sound.goto (h : w.Sound managers) (has : w.tasks thread = some task) {pc : RedisPc}
    (inside : (task.goto pc).Inside w.servers) :
    (w.assign thread (some (task.goto pc))).Sound managers := by
  refine h.assign (h.managed_goto has pc) ?_
  rintro t ⟨⟩
  exact inside

/-- A task ends, and nothing else changes. -/
theorem Sound.ended (h : w.Sound managers) (thread : ℕ) :
    (w.assign thread none).Sound managers :=
  h.assign (fun _ ht => by cases ht) (fun _ ht => by cases ht)

/-- A server that takes the key is counted. -/
theorem Sound.callSetting (h : w.Sound managers) {attempt count : ℕ}
    (has : w.tasks thread = some ⟨m, key, owner, .setting attempt (url :: rest) count⟩)
    {r : Bool × RedisServers} (hr : outcome.call (setNx url key owner) w.servers = r) :
    Sound managers ⟨r.2, Function.update w.tasks thread
      (some ⟨m, key, owner, .setting attempt rest (if r.1 then count + 1 else count)⟩),
      w.granted⟩ := by
  subst hr
  obtain ⟨htries, hrest, hbacked⟩ := h.inside thread _ has
  have hkept := keeps_setNx outcome url key owner w.servers
  refine h.update (h.managed_goto has _) ?_ (fun _ t _ _ _ => hkept t.key t.owner)
    (fun k o hg => Or.inl ⟨hg, hkept k o⟩)
  rintro t ⟨⟩
  refine ⟨htries, (List.cons_subset.mp hrest).2, ?_⟩
  split
  · rename_i hyes
    obtain ⟨hfree, hset⟩ := setNx_yes hyes
    exact hbacked.succ (hkept key owner) (List.cons_subset.mp hrest).1 hfree hset
  · exact hbacked.mono (hkept key owner)

/-- **A release takes no key that is counted on**, but those of what was granted before. -/
theorem Sound.callRelease (h : w.Sound managers) (has : w.tasks thread = some task)
    (pc : RedisPc) (inside : ∀ servers, (task.goto pc).Inside servers) (forced : Bool)
    (uncounted : ∀ o, outcome ≠ .failed → (forced = true ∨ o = task.owner) →
      w.servers url task.key = some o → ¬ w.CountedElsewhere thread task.key o)
    {granted : Finset (String × String)}
    (remaining : ∀ k o, (k, o) ∈ granted → (k, o) ∈ w.granted
      ∧ ∀ o', outcome ≠ .failed → (forced = true ∨ o' = task.owner) →
        w.servers url task.key = some o' → ¬ (k = task.key ∧ o = o')) :
    Sound managers ⟨(outcome.call (if forced then delete url task.key
        else releaseScript url task.key task.owner) w.servers).2,
      Function.update w.tasks thread (some (task.goto pc)), granted⟩ := by
  refine h.update (h.managed_goto has pc) ?_ (fun j t hj ht hset => ?_) (fun k o hg => ?_)
  · rintro t ⟨⟩
    exact inside _
  · refine keeps_release t.owner (fun o hdone how howner hsame => ?_)
    exact uncounted o hdone how howner ⟨j, t, hj, ht, hsame.1, hsame.2, hset.2.2⟩
  · obtain ⟨hold, hother⟩ := remaining k o hg
    exact Or.inl ⟨hold, keeps_release o hother⟩

/-- **A call of a server.** The cases are the places at which a call may be; only a roll-back and
a release take keys away. -/
theorem Sound.call (h : w.Sound managers) (orderly : w.Orderly (.call thread outcome))
    (taken : w.step managers (.call thread outcome) = some w') : w'.Sound managers := by
  obtain ⟨task, has, hcall⟩ := Option.bind_eq_some_iff.mp taken
  obtain ⟨⟨task', servers⟩, hserved, rfl⟩ := Option.map_eq_some_iff.mp hcall
  have hinside := h.inside thread task has
  have hspared := orderly task
  obtain ⟨m, key, owner, pc⟩ := task
  cases pc with
  | setting attempt rest count =>
    cases rest with
    | nil => cases hserved
    | cons url rest =>
      cases hserved
      exact h.callSetting has rfl
  | rollingBack attempt rest =>
    cases rest with
    | nil => cases hserved
    | cons url rest =>
      cases hserved
      -- what an orderly roll-back deletes is counted for nobody else and granted to nobody
      have hnot : ∀ o, outcome ≠ .failed → (false = true ∨ o = owner) →
          w.servers url key = some o → _ :=
        fun o hdone how ho => hspared o has ⟨hdone, how.resolve_left (by decide), ho⟩
      refine h.callRelease has (.rollingBack attempt rest) (fun _ => hinside) false
        (fun o hdone how ho => (hnot o hdone how ho).1)
        (fun k o hg => ⟨hg, fun o' hdone how ho hsame => ?_⟩)
      refine (hnot o' hdone how ho).2 ?_ (hsame.1 ▸ hsame.2 ▸ hg)
      rintro ⟨_, _, hpc⟩
      cases hpc
  | waiting attempt => cases hserved
  | releasing forced rest released =>
    cases rest with
    | nil => cases hserved
    | cons url rest =>
      cases hserved
      exact h.callRelease has (.releasing forced rest _) (fun _ => trivial) forced
        (fun o hdone how ho => (hspared o has ⟨hdone, how, ho⟩).1)
        (fun k o hg => mem_granted_takesBack hg)
  | extending rest count =>
    cases rest with
    | nil => cases hserved
    | cons url rest =>
      cases hserved
      -- a script that only renews the time to live moves no value
      have hservers : (outcome.call (extendScript url key owner) w.servers).2 = w.servers := by
        cases outcome <;> rfl
      rw [hservers]
      exact h.goto has (show True from trivial)

end Calls

/-! ### Between the loops -/

/-- **A count that is a quorum is granted.** -/
theorem Sound.grant (h : w.Sound managers) {thread attempt count : ℕ} {m : RedisLockManager}
    {key owner : String} (has : w.tasks thread = some ⟨m, key, owner, .setting attempt [] count⟩)
    (enough : m.quorum ≤ count) :
    Sound managers ⟨w.servers, Function.update w.tasks thread none,
      insert (key, owner) w.granted⟩ := by
  obtain ⟨htries, -, hbacked⟩ := h.inside thread _ has
  refine h.update (fun _ ht => by cases ht) (fun _ ht => by cases ht)
    (fun _ t _ _ _ => Keeps.refl w.servers t.key t.owner) (fun k o hg => ?_)
  rcases Finset.mem_insert.mp hg with hnew | hold
  · cases hnew
    obtain ⟨p, rfl⟩ := h.managed thread _ has
    exact Or.inr ⟨p, count, htries, enough, hbacked⟩
  · exact Or.inl ⟨hold, Keeps.refl w.servers k o⟩

theorem Sound.proceed (h : w.Sound managers) {thread : ℕ} {valid late : Bool}
    (taken : w.step managers (.proceed thread valid late) = some w') : w'.Sound managers := by
  obtain ⟨task, has, hproceed⟩ := Option.bind_eq_some_iff.mp taken
  obtain ⟨status, hstatus, rfl⟩ := Option.map_eq_some_iff.mp hproceed
  have hinside := h.inside thread task has
  obtain ⟨m, key, owner, pc⟩ := task
  cases pc with
  | setting attempt rest count =>
    cases rest with
    | cons url rest => cases hstatus
    | nil =>
      -- a full count ends the loop: a quorum grants the key, anything less goes to the roll-back
      have htries : 0 < m.retryCount := hinside.1
      simp only [RedisTask.proceed] at hstatus
      split at hstatus
      · rename_i henough
        split at hstatus
        · cases hstatus
          exact h.grant has henough
        · cases hstatus
          exact h.goto has htries
      · split at hstatus <;> cases hstatus <;> exact h.goto has htries
  | rollingBack attempt rest =>
    cases rest with
    | cons url rest => cases hstatus
    | nil =>
      cases hstatus
      exact h.goto has hinside
  | waiting attempt =>
    simp only [RedisTask.proceed] at hstatus
    split at hstatus
    · cases hstatus
      exact h.goto has ⟨hinside, List.Subset.refl _, .zero m w.servers key owner⟩
    · cases hstatus
      exact h.ended thread
  | releasing forced rest released =>
    cases rest with
    | cons url rest => cases hstatus
    | nil =>
      cases hstatus
      exact h.ended thread
  | extending rest count =>
    cases rest with
    | cons url rest => cases hstatus
    | nil =>
      cases hstatus
      exact h.ended thread

/-- **Every step that meets the condition keeps the invariant.** -/
theorem Sound.step (h : w.Sound managers) {l : RedisStep} (orderly : w.Orderly l)
    (taken : w.step managers l = some w') : w'.Sound managers := by
  cases l with
  | acquire thread process resource owner =>
    obtain ⟨-, rfl⟩ := begin_some taken
    exact h.acquire thread process resource owner
  | release thread process resource owner =>
    obtain ⟨-, rfl⟩ := begin_some taken
    exact h.release thread process resource owner
  | extend thread process resource owner =>
    obtain ⟨-, rfl⟩ := begin_some taken
    exact h.extend thread process resource owner
  | call thread outcome => exact h.call orderly taken
  | proceed thread valid late => exact h.proceed taken

theorem sound_init (managers : ℕ → RedisLockManager) : init.Sound managers where
  managed _ _ h := by cases h
  inside _ _ h := by cases h
  backed _ _ h := absurd h (Finset.notMem_empty _)

/-! ## Agreement -/

/-- **The owners agree**: a key is granted to one owner at a time. -/
def Agrees (w : RedisWorld) : Prop :=
  ∀ key a b, (key, a) ∈ w.granted → (key, b) ∈ w.granted → a = b

/-- **The quorums of all processes that try at all meet.** -/
def QuorumsOverlap (managers : ℕ → RedisLockManager) : Prop :=
  ∀ p q, 0 < (managers p).retryCount → 0 < (managers q).retryCount →
    QuorumsMeet (managers p).clients.toFinset (managers p).quorum
      (managers q).clients.toFinset (managers q).quorum

/-- Two owners of one key share a server, which has one owner. -/
theorem Sound.agrees (h : w.Sound managers) (overlap : QuorumsOverlap managers) : w.Agrees := by
  intro key a b ha hb
  obtain ⟨p, n, htries, hquorum, U, hU, hUcard, hUall⟩ := h.backed key a ha
  obtain ⟨q, n', htries', hquorum', V, hV, hVcard, hVall⟩ := h.backed key b hb
  obtain ⟨url, hurl⟩ := overlap p q htries htries' U V hU hV (hquorum.trans hUcard.ge)
    (hquorum'.trans hVcard.ge)
  rw [Finset.mem_inter] at hurl
  exact Option.some.inj ((hUall url hurl.1).symm.trans (hVall url hurl.2))

/-! ## Two quorums that do not meet

For the converse, every set of free servers that a process has clients for can be what
an acquire gets, the calls of the other servers failing. -/

section Takes

variable {thread attempt count : ℕ} {m : RedisLockManager} {key owner : String} {url : RedisUrl}
  {rest : List RedisUrl}

/-- A `SET NX` takes nothing away. So the condition asks nothing of a thread that is still
acquiring. -/
theorem orderly_setting (has : w.tasks thread = some ⟨m, key, owner, .setting attempt rest count⟩)
    (outcome : CallOutcome) : w.Orderly (.call thread outcome) := by
  intro task o has' takes
  cases has.symm.trans has'
  exact takes.2.elim

variable (managers)

/-- A free server that answers takes the key, and the client counts it and turns to the next one.
-/
theorem run_answered
    (has : w.tasks thread = some ⟨m, key, owner, .setting attempt (url :: rest) count⟩)
    (free : w.servers url key = none) :
    GuardedRun (step managers) Orderly w [.call thread .answered]
      ⟨w.servers.write url key (some owner), Function.update w.tasks thread
        (some ⟨m, key, owner, .setting attempt rest (count + 1)⟩), w.granted⟩ := by
  have hset : RedisServers.setNx url key owner w.servers
      = (true, w.servers.write url key (some owner)) := by
    unfold RedisServers.setNx
    rw [free]
  refine .single (orderly_setting has _) ?_
  simp [RedisWorld.step, has, RedisTask.call, CallOutcome.call, hset, RedisTask.goto,
    RedisTask.takesBack, RedisWorld.assign]

/-- A call that fails only moves the loop on. -/
theorem run_failed
    (has : w.tasks thread = some ⟨m, key, owner, .setting attempt (url :: rest) count⟩) :
    GuardedRun (step managers) Orderly w [.call thread .failed]
      (w.assign thread (some ⟨m, key, owner, .setting attempt rest count⟩)) := by
  refine .single (orderly_setting has _) ?_
  simp [RedisWorld.step, has, RedisTask.call, CallOutcome.call, RedisTask.goto,
    RedisTask.takesBack, RedisWorld.assign]

/-- **The loop of an acquire takes any free servers it is to take**, and touches no other. -/
theorem exists_takes {A : Finset RedisUrl} (w : RedisWorld)
    (has : w.tasks thread = some ⟨m, key, owner, .setting attempt rest count⟩)
    (ahead : A ⊆ rest.toFinset) (free : ∀ url ∈ A, w.servers url key = none) :
    ∃ ls w', GuardedRun (step managers) Orderly w ls w'
      ∧ w'.tasks = Function.update w.tasks thread
          (some ⟨m, key, owner, .setting attempt [] (count + A.card)⟩)
      ∧ w'.granted = w.granted ∧ ∀ url, url ∉ A → w'.servers url = w.servers url := by
  induction rest generalizing w A count with
  | nil =>
    have hnone : A = ∅ := Finset.subset_empty.mp ahead
    subst hnone
    refine ⟨[], w, .nil w, ?_, rfl, fun _ _ => rfl⟩
    show w.tasks = Function.update w.tasks thread (some ⟨m, key, owner, .setting attempt [] count⟩)
    rw [← has, Function.update_eq_self]
  | cons url rest ih =>
    rw [List.toFinset_cons] at ahead
    by_cases hurl : url ∈ A
    · -- the server answers, and is not to be taken again
      let w₁ : RedisWorld := ⟨w.servers.write url key (some owner), Function.update w.tasks thread
        (some ⟨m, key, owner, .setting attempt rest (count + 1)⟩), w.granted⟩
      have hfirst : GuardedRun (step managers) Orderly w _ w₁ :=
        run_answered managers has (free url hurl)
      have has₁ : w₁.tasks thread = some ⟨m, key, owner, .setting attempt rest (count + 1)⟩ :=
        Function.update_self ..
      obtain ⟨ls, w', run, htasks, hgranted, hservers⟩ := ih w₁ has₁
        (Finset.subset_insert_iff.mp ahead) (fun url' hurl' => by
          show w.servers.write url key (some owner) url' key = none
          rw [write_of_ne (Or.inl (Finset.ne_of_mem_erase hurl'))]
          exact free url' (Finset.mem_of_mem_erase hurl'))
      refine ⟨_, w', hfirst.append run, ?_, hgranted, ?_⟩
      · rw [htasks, Nat.add_assoc, Nat.add_comm 1, Finset.card_erase_add_one hurl]
        exact Function.update_idem ..
      · intro url' hurl'
        have hne : url' ≠ url := fun heq => hurl' (heq ▸ hurl)
        rw [hservers url' (fun hin => hurl' (Finset.mem_of_mem_erase hin))]
        exact Function.update_of_ne hne ..
    · -- the call fails
      have hfirst := run_failed managers has
      have has₁ : (w.assign thread (some ⟨m, key, owner, .setting attempt rest count⟩)).tasks thread
          = some ⟨m, key, owner, .setting attempt rest count⟩ := Function.update_self ..
      obtain ⟨ls, w', run, htasks, hgranted, hservers⟩ := ih _ has₁
        ((Finset.subset_insert_iff_of_notMem hurl).mp ahead) free
      refine ⟨_, w', hfirst.append run, ?_, hgranted, hservers⟩
      rw [htasks]
      exact Function.update_idem ..

end Takes

/-- **A quorum of free servers is granted** to whom asks for it. -/
theorem exists_granted {thread process : ℕ} {A : Finset RedisUrl} (w : RedisWorld)
    (resource owner : String) (idle : w.tasks thread = none)
    (tries : 0 < (managers process).retryCount) (clients : A ⊆ (managers process).clients.toFinset)
    (enough : (managers process).quorum ≤ A.card)
    (free : ∀ url ∈ A, w.servers url ((managers process).key resource) = none) :
    ∃ ls w', GuardedRun (step managers) Orderly w ls w'
      ∧ w'.tasks = Function.update w.tasks thread none
      ∧ w'.granted = insert ((managers process).key resource, owner) w.granted
      ∧ ∀ url, url ∉ A → w'.servers url = w.servers url := by
  have hsome : (managers process).clients ≠ [] := by
    intro hnone
    rw [hnone, List.toFinset_nil, Finset.subset_empty] at clients
    rw [clients, Finset.card_empty] at enough
    exact absurd enough (Nat.not_succ_le_zero _)
  let task : RedisTask := ⟨managers process, (managers process).key resource, owner,
    .setting 0 (managers process).clients 0⟩
  have hbegin : w.step managers (.acquire thread process resource owner)
      = some (w.assign thread (some task)) := by
    simp [RedisWorld.step, RedisWorld.begin, idle, RedisLockManager.acquire, hsome, tries.ne', task]
  have has : (w.assign thread (some task)).tasks thread = some task := Function.update_self ..
  obtain ⟨ls, w', run, htasks, hgranted, hservers⟩ := exists_takes managers _ has clients free
  have hlast : w'.step managers (.proceed thread true false)
      = some { w'.assign thread none with
        granted := insert ((managers process).key resource, owner) w'.granted } := by
    simp [RedisWorld.step, htasks, RedisTask.proceed, enough, RedisStatus.task?]
  have hrun := (GuardedRun.single (show w.Orderly (.acquire ..) from trivial) hbegin).append run
  refine ⟨_, _, hrun.snoc (show w'.Orderly (.proceed ..) from trivial) hlast, ?_, ?_, hservers⟩
  · show Function.update w'.tasks thread none = Function.update w.tasks thread none
    rw [htasks, Function.update_idem]
    exact Function.update_idem ..
  · show insert _ w'.granted = insert _ w.granted
    rw [hgranted]
    rfl

/-- **Processes that are configured with one list of servers**, each with those of them that
it could reach. -/
def fleet (urls : List RedisUrl) (reachable : ℕ → RedisUrl → Bool) (keyPrefix : String)
    (retryCount : ℕ → ℕ) (process : ℕ) : RedisLockManager :=
  .ofUrls urls (reachable process) keyPrefix (retryCount process)

/-- **The owners agree in every run that meets the condition exactly if the quorums meet.** -/
theorem granted_agree_iff (urls : List RedisUrl) (reachable : ℕ → RedisUrl → Bool)
    (keyPrefix : String) (retryCount : ℕ → ℕ) :
    (∀ ls w, GuardedRun (step (fleet urls reachable keyPrefix retryCount)) Orderly init ls w →
      w.Agrees) ↔ QuorumsOverlap (fleet urls reachable keyPrefix retryCount) := by
  constructor
  · intro agree p q hp hq U V hU hV hk hl
    by_contra hapart
    rw [Finset.not_nonempty_iff_eq_empty, ← Finset.disjoint_iff_inter_eq_empty] at hapart
    -- each quorum is granted to an owner of its own
    obtain ⟨ls, w, run, htasks, hgranted, hservers⟩ := exists_granted
      init "" "a" (show init.tasks 0 = none from rfl) hp hU hk (fun _ _ => rfl)
    obtain ⟨ls', w', run', -, hgranted', -⟩ := exists_granted
      w "" "b" (show w.tasks 1 = none by rw [htasks]; rfl) hq hV hl (fun url hurl => by
        rw [hservers url (Finset.disjoint_right.mp hapart hurl)]
        rfl)
    have hab := agree _ w' (run.append run') (keyPrefix ++ "") "a" "b"
      (by rw [hgranted', hgranted]; exact Finset.mem_insert_of_mem (Finset.mem_insert_self _ _))
      (by rw [hgranted']; exact Finset.mem_insert_self _ _)
    exact absurd hab (by decide)
  · intro overlap ls w run
    exact (run.invariant (sound_init _) (fun v l v' h orderly taken =>
      h.step orderly taken)).agrees overlap

/-- Processes that reached every server overlap. They have the same clients, and two majorities
of one list have a member in common. -/
theorem quorumsOverlap_of_reachable {urls : List RedisUrl} {reachable : ℕ → RedisUrl → Bool}
    (keyPrefix : String) (retryCount : ℕ → ℕ)
    (all : ∀ p, ∀ url ∈ urls, reachable p url = true) :
    QuorumsOverlap (fleet urls reachable keyPrefix retryCount) := by
  have hall : ∀ p, (fleet urls reachable keyPrefix retryCount p).clients = urls :=
    fun p => List.filter_eq_self.mpr (all p)
  intro p q _ _
  rw [RedisLockManager.quorum, RedisLockManager.quorum, hall p, hall q]
  exact QuorumsMeet.majority (List.toFinset_card_le urls)

/-- **The condition in numbers**: where no server is listed twice, any two processes that try
and have clients have fewer servers in all than both quorums together. -/
theorem quorumsOverlap_iff {urls : List RedisUrl} (nodup : urls.Nodup)
    (reachable : ℕ → RedisUrl → Bool) (keyPrefix : String) (retryCount : ℕ → ℕ) :
    QuorumsOverlap (fleet urls reachable keyPrefix retryCount) ↔
      ∀ p q, 0 < retryCount p → 0 < retryCount q →
        urls.filter (reachable p) ≠ [] → urls.filter (reachable q) ≠ [] →
        ((urls.filter (reachable p)).toFinset ∪ (urls.filter (reachable q)).toFinset).card
          < (urls.filter (reachable p)).length / 2 + 1
            + ((urls.filter (reachable q)).length / 2 + 1) := by
  have hcard : ∀ p, (urls.filter (reachable p)).toFinset.card
      = (urls.filter (reachable p)).length :=
    fun p => List.toFinset_card_of_nodup (nodup.filter _)
  have hnone : ∀ p, urls.filter (reachable p) = [] →
      (urls.filter (reachable p)).toFinset.card < (urls.filter (reachable p)).length / 2 + 1 := by
    intro p hempty
    rw [hempty]
    exact Nat.one_pos
  constructor
  · intro overlap p q hp hq hpsome hqsome
    have hpos := List.length_pos_iff.mpr hpsome
    have hpos' := List.length_pos_iff.mpr hqsome
    refine QuorumsMeet.card_lt (overlap p q hp hq) ?_ ?_
    · rw [hcard p]
      omega
    · rw [hcard q]
      omega
  · intro few p q hp hq
    by_cases hpnone : urls.filter (reachable p) = []
    · exact QuorumsMeet.of_card_lt_left (hnone p hpnone)
    by_cases hqnone : urls.filter (reachable q) = []
    · exact (QuorumsMeet.of_card_lt_left (hnone q hqnone)).symm
    exact QuorumsMeet.of_card_lt (few p q hp hq hpnone hqnone)

/-! ## Two ways to one key -/

theorem exists_not_agrees_of_replay (key : String) {a b : String} (ls : List RedisStep)
    (hne : a ≠ b) (h : (GuardedRun.replay (step managers) (fun _ _ => true) init ls).any
      (fun w => decide ((key, a) ∈ w.granted ∧ (key, b) ∈ w.granted)) = true) :
    ∃ ls w, GuardedRun (step managers) (fun _ _ => True) init ls w ∧ ¬ w.Agrees := by
  obtain ⟨w, run, hboth⟩ := GuardedRun.exists_of_replay (fun _ _ _ => trivial) h
  obtain ⟨ha, hb⟩ := of_decide_eq_true hboth
  exact ⟨ls, w, run, fun agree => hne (agree key a b ha hb)⟩

/-- The steps of an `acquire` of "r" whose calls are all answered. -/
def acquiring (thread process : ℕ) (owner : String) (calls : ℕ) : List RedisStep :=
  .acquire thread process "r" owner :: List.replicate calls (.call thread .answered)
    ++ [.proceed thread true false]

/-- **Two owners have one lock**, neither of which has released it: two processes reached one
server of two each; and with both servers reached, the first owner acquires the lock again. -/
theorem granted_twice :
    (∃ ls w, GuardedRun (step (fleet ["redis://a", "redis://b"]
        (fun process url => decide (url = if process = 0 then "redis://a" else "redis://b"))
        "lock:" (fun _ => 3))) (fun _ _ => True) init ls w ∧ ¬ w.Agrees)
      ∧ ∃ ls w, GuardedRun (step (fleet ["redis://a", "redis://b"] (fun _ _ => true) "lock:"
        (fun _ => 3))) (fun _ _ => True) init ls w ∧ ¬ w.Agrees := by
  constructor
  · exact exists_not_agrees_of_replay "lock:r"
      (acquiring 0 0 "a" 1 ++ acquiring 1 1 "b" 1)
      (by decide : "a" ≠ "b") (by decide +kernel)
  · -- the second attempt of the first owner takes its keys back
    exact exists_not_agrees_of_replay "lock:r"
      (acquiring 0 0 "a" 2 ++ acquiring 0 0 "a" 2 ++ List.replicate 2 (.call 0 .answered)
        ++ acquiring 1 0 "b" 2) (by decide : "a" ≠ "b") (by decide +kernel)

end RedisWorld

end JobOrchestrator
