import JobOrchestrator.Locking.RedisExclusion

/-!
# Redis locks that nobody holds for ever

The other half of `RedisExclusion`. A thread that acquires a lock may stop at any place, between
two calls of servers as well as with the lock in its hands, and a call that takes keys back may
fail; none of that is ever mended. But what a call sets or extends expires, no later than the
longest time to live after it.

So it is enough to wait. `available_after` says that where no thread has set or extended a key for
as long as the longest time to live of the run, an attempt on it that has the key to itself gets
the lock as soon as a quorum of the servers answers it in time – whatever the others do meanwhile
with other keys, and however many of them were left behind in the middle of a call.
-/

namespace JobOrchestrator

/-! ## Keys that are over -/

namespace RedisKeys

variable {keys : RedisKeys} {url url' : RedisUrl} {key key' owner : String} {moment ends e : ℚ}

/-- **The key is over by then**, whoever has it. -/
def OverBy (keys : RedisKeys) (url : RedisUrl) (key : String) (e : ℚ) : Prop :=
  ∀ owner ends, keys url key = some (owner, ends) → ends ≤ e

theorem OverBy.mono {e' : ℚ} (h : keys.OverBy url key e) (le : e ≤ e') :
    keys.OverBy url key e' :=
  fun owner ends hkey => (h owner ends hkey).trans le

/-- From that moment on there is nothing to see of the key: the server answers as if it had never
been set. -/
theorem OverBy.visible (h : keys.OverBy url key e) (le : e ≤ moment) :
    keys.visible moment url key = none := by
  show (keys url key).bind _ = none
  cases hkey : keys url key with
  | none => rfl
  | some v => exact if_neg (not_lt.mpr ((h v.1 v.2 hkey).trans le))

/-- A key is over by then where what is written to it is. -/
theorem OverBy.write {value : Option (String × ℚ)} (h : keys.OverBy url key e)
    (spent : url' = url → key' = key → ∀ owner ends, value = some (owner, ends) → ends ≤ e) :
    (keys.write url' key' value).OverBy url key e := by
  intro owner ends hkey
  by_cases hsame : url = url' ∧ key = key'
  · obtain ⟨rfl, rfl⟩ := hsame
    rw [write_self] at hkey
    exact spent rfl rfl owner ends hkey
  · rw [write_of_ne (not_and_or.mp hsame)] at hkey
    exact h owner ends hkey

theorem OverBy.setNx (h : keys.OverBy url key e) (spent : url' = url → key' = key → ends ≤ e) :
    (setNx moment ends url' key' owner keys).2.OverBy url key e := by
  unfold RedisKeys.setNx
  split
  · exact h
  split
  · refine h.write (fun hurl hkey _ _ hvalue => ?_)
    simp only [Option.some.injEq, Prod.mk.injEq] at hvalue
    exact hvalue.2 ▸ spent hurl hkey
  · exact h

theorem OverBy.extendScript (h : keys.OverBy url key e)
    (spent : url' = url → key' = key → ends ≤ e) :
    (extendScript moment ends url' key' owner keys).2.OverBy url key e := by
  unfold RedisKeys.extendScript
  split
  · refine h.write (fun hurl hkey _ _ hvalue => ?_)
    simp only [Option.some.injEq, Prod.mk.injEq] at hvalue
    exact hvalue.2 ▸ spent hurl hkey
  · exact h

/-- Deleting a key, this one or another, cannot make it last longer. -/
theorem OverBy.erase (h : keys.OverBy url key e) : (keys.write url' key' none).OverBy url key e :=
  h.write (fun _ _ _ _ hvalue => by simp at hvalue)

theorem OverBy.releaseScript (h : keys.OverBy url key e) :
    (releaseScript moment url' key' owner keys).2.OverBy url key e := by
  unfold RedisKeys.releaseScript
  split
  · exact h.erase
  · exact h

theorem OverBy.send {outcome : CallOutcome} {command : RedisKeys → Bool × RedisKeys}
    (h : keys.OverBy url key e) (commanded : (command keys).2.OverBy url key e) :
    (outcome.send command keys).2.OverBy url key e := by
  cases outcome with
  | answered | lost => exact commanded
  | failed => exact h

end RedisKeys

/-! ## Calls that give a key more time -/

namespace ClockedTask

variable {t : ClockedTask} {keys : RedisKeys} {url : RedisUrl} {key : String} {moment e : ℚ}
  {outcome : CallOutcome} {r : ClockedTask × RedisKeys}

/-- **The key to which the next call gives time**, of the server that it goes to. -/
def renews? (t : ClockedTask) : Option (RedisUrl × String) :=
  match t.task.pc with
  | .setting _ (url :: _) _ | .extending (url :: _) _ => some (url, t.task.key)
  | _ => none

/-- **A key gets no time from a call but that of its time to live.** -/
theorem overBy_call (taken : t.call outcome moment keys = some r) (h : keys.OverBy url key e)
    (spent : t.renews? = some (url, key) → moment + t.terms.ttlMs ≤ e) :
    r.2.OverBy url key e := by
  unfold renews? at spent
  unfold call at taken
  split at taken
  · rename_i hpc
    rw [hpc] at spent
    cases taken
    exact h.send (h.setNx (fun hurl hkey => spent (by rw [hurl, hkey])))
  · cases taken
    exact h.send h.releaseScript
  · cases taken
    refine h.send ?_
    split
    · exact h.erase
    · exact h.releaseScript
  · rename_i hpc
    rw [hpc] at spent
    cases taken
    exact h.send (h.extendScript (fun hurl hkey => spent (by rw [hurl, hkey])))
  · cases taken

/-- The longest time to live bounds that of a task, unless it only releases. Whatever the past
was, all that is in the way of a new attempt is over by then. -/
def WithinTerms (ttlMs : ℚ) (t : ClockedTask) : Prop :=
  match t.task.pc with
  | .releasing _ _ _ => True
  | _ => t.terms.ttlMs ≤ ttlMs

theorem WithinTerms.le {ttlMs : ℚ} (h : t.WithinTerms ttlMs)
    (renews : t.renews? = some (url, key)) : t.terms.ttlMs ≤ ttlMs := by
  unfold renews? at renews
  unfold WithinTerms at h
  split at renews
  · simp_all
  · simp_all
  · cases renews

/-- A call of a server is followed by the same call of the manager. -/
theorem WithinTerms.call {ttlMs : ℚ} (h : t.WithinTerms ttlMs)
    (taken : t.call outcome moment keys = some r) : r.1.WithinTerms ttlMs := by
  unfold WithinTerms at h
  unfold ClockedTask.call at taken
  split at taken <;> rename_i hpc
  · rw [hpc] at h
    cases taken
    exact h
  · rw [hpc] at h
    cases taken
    exact h
  · cases taken
    exact trivial
  · rw [hpc] at h
    cases taken
    exact h
  · cases taken

theorem terms_resume {second : ℚ} {status : RedisStatus} {u : ClockedTask}
    (next : t.resume second status = some u) : u.terms = t.terms := by
  unfold resume at next
  split at next
  · split at next <;> cases next <;> rfl
  · cases next

theorem WithinTerms.resume {ttlMs first second : ℚ} {status : RedisStatus} {u : ClockedTask}
    (h : t.WithinTerms ttlMs) (taken : t.proceed first = some status)
    (next : t.resume second status = some u) : u.WithinTerms ttlMs := by
  have hle : t.terms.ttlMs ≤ ttlMs := by
    obtain ⟨pc, -, hacquires, -⟩ | ⟨_, _, -, hpc, -⟩ | ⟨_, _, -, hpc, -⟩ | ⟨hdone, -⟩ :=
      proceed_cases taken
    · unfold Acquires at hacquires
      unfold WithinTerms at h
      split at h
      · rename_i hpc
        rw [hpc] at hacquires
        exact hacquires.elim
      · exact h
    · simpa [WithinTerms, hpc] using h
    · simpa [WithinTerms, hpc] using h
    · rw [resume_eq_none hdone] at next
      cases next
  unfold WithinTerms
  split
  · exact trivial
  · exact (terms_resume next).symm ▸ hle

end ClockedTask

/-! ## Runs -/

/-- The thread that takes the step. -/
def ClockedStep.thread : ClockedStep → ℕ
  | .acquire _ thread _ _ _ _ | .release _ thread _ _ _ | .extend _ thread _ _ _ _
  | .call _ thread _ | .proceed thread _ _ _ => thread

/-- A call of the thread that is answered. -/
def ClockedStep.answers (thread : ℕ) : ClockedStep → Bool
  | .call _ i .answered => i == thread
  | _ => false

namespace ClockedWorld

variable {managers : ℕ → RedisLockManager} {w w' : ClockedWorld} {l : ClockedStep}
  {url : RedisUrl} {key : String} {e ttlMs : ℚ} {thread : ℕ}

/-- The key to which the next call of a thread gives time. -/
def renews? (w : ClockedWorld) (thread : ℕ) : Option (RedisUrl × String) :=
  (w.tasks thread).bind ClockedTask.renews?

/-- No `acquire` and no `extend` asks for more time than that. -/
def AsksAtMost (ttlMs : ℚ) : ClockedStep → Prop
  | .acquire _ _ _ terms _ _ => terms.ttlMs ≤ ttlMs
  | .extend _ _ _ _ _ ttl => { ttl := ttl : LeaseTerms }.ttlMs ≤ ttlMs
  | _ => True

/-- **The key is left alone**: no call gives it time. -/
def LeavesAlone (key : String) (w : ClockedWorld) : ClockedStep → Prop
  | .call _ thread _ => (w.renews? thread).map Prod.snd ≠ some key
  | _ => True

/-- **A thread has the key to itself**, and goes through its calls. -/
def LeavesTo (thread : ℕ) (key : String) (w : ClockedWorld) : ClockedStep → Prop
  | .call moment i outcome => i ≠ thread → w.LeavesAlone key (.call moment i outcome)
  | .proceed i _ _ _ => i ≠ thread
  | _ => True

instance decidableAsksAtMost (ttlMs : ℚ) : (l : ClockedStep) → Decidable (AsksAtMost ttlMs l)
  | .acquire _ _ _ terms _ _ => inferInstanceAs (Decidable (terms.ttlMs ≤ ttlMs))
  | .extend _ _ _ _ _ ttl =>
    inferInstanceAs (Decidable ({ ttl := ttl : LeaseTerms }.ttlMs ≤ ttlMs))
  | .release _ _ _ _ _ | .call _ _ _ | .proceed _ _ _ _ => isTrue trivial

instance decidableLeavesAlone (key : String) (w : ClockedWorld) :
    (l : ClockedStep) → Decidable (w.LeavesAlone key l)
  | .call _ thread _ => inferInstanceAs (Decidable ((w.renews? thread).map Prod.snd ≠ some key))
  | .acquire _ _ _ _ _ _ | .release _ _ _ _ _ | .extend _ _ _ _ _ _
  | .proceed _ _ _ _ => isTrue trivial

instance decidableLeavesTo (thread : ℕ) (key : String) (w : ClockedWorld) :
    (l : ClockedStep) → Decidable (w.LeavesTo thread key l)
  | .call moment i outcome =>
    inferInstanceAs (Decidable (i ≠ thread → w.LeavesAlone key (.call moment i outcome)))
  | .proceed i _ _ _ => inferInstanceAs (Decidable (i ≠ thread))
  | .acquire _ _ _ _ _ _ | .release _ _ _ _ _ | .extend _ _ _ _ _ _ => isTrue trivial

/-- A step of another thread leaves the key alone, since the attempt has it to itself. -/
theorem LeavesTo.leavesAlone (h : w.LeavesTo thread key l) (other : l.thread ≠ thread) :
    w.LeavesAlone key l := by
  cases l with
  | call moment i outcome => exact h other
  | _ => exact trivial

theorem now_le_of_step (ordered : w.Ordered l) (taken : w.step managers l = some w') :
    w.now ≤ w'.now := by
  cases l with
  | acquire moment thread process terms resource owner =>
    obtain ⟨-, rfl⟩ := begin_some taken
    exact ordered
  | release moment thread process resource owner =>
    obtain ⟨-, rfl⟩ := begin_some taken
    exact ordered
  | extend moment thread process resource owner ttl =>
    obtain ⟨-, rfl⟩ := begin_some taken
    exact ordered
  | call moment thread outcome =>
    obtain ⟨t, -, hcall⟩ := Option.bind_eq_some_iff.mp taken
    obtain ⟨r, -, rfl⟩ := Option.map_eq_some_iff.mp hcall
    exact ordered
  | proceed thread first second third =>
    obtain ⟨t, -, hproceed⟩ := Option.bind_eq_some_iff.mp taken
    obtain ⟨status, -, rfl⟩ := Option.map_eq_some_iff.mp hproceed
    exact ordered.1.trans (ordered.2.1.trans ordered.2.2)

/-- A step leaves the tasks of the other threads. -/
theorem tasks_of_ne (taken : w.step managers l = some w') (other : l.thread ≠ thread) :
    w'.tasks thread = w.tasks thread := by
  cases l with
  | acquire moment i process terms resource owner =>
    obtain ⟨-, rfl⟩ := begin_some taken
    exact Function.update_of_ne other.symm _ _
  | release moment i process resource owner =>
    obtain ⟨-, rfl⟩ := begin_some taken
    exact Function.update_of_ne other.symm _ _
  | extend moment i process resource owner ttl =>
    obtain ⟨-, rfl⟩ := begin_some taken
    exact Function.update_of_ne other.symm _ _
  | call moment i outcome =>
    obtain ⟨t, -, hcall⟩ := Option.bind_eq_some_iff.mp taken
    obtain ⟨r, -, rfl⟩ := Option.map_eq_some_iff.mp hcall
    exact Function.update_of_ne other.symm _ _
  | proceed i first second third =>
    obtain ⟨t, -, hproceed⟩ := Option.bind_eq_some_iff.mp taken
    obtain ⟨status, -, rfl⟩ := Option.map_eq_some_iff.mp hproceed
    exact Function.update_of_ne other.symm _ _

/-- **A step gives a key no more time than a call that renews it.** -/
theorem overBy_step (taken : w.step managers l = some w') (h : w.keys.OverBy url key e)
    (spent : ∀ t, w.tasks l.thread = some t → t.renews? = some (url, key) →
      ∀ moment outcome, l = .call moment l.thread outcome → moment + t.terms.ttlMs ≤ e) :
    w'.keys.OverBy url key e := by
  cases l with
  | acquire moment i process terms resource owner =>
    obtain ⟨-, rfl⟩ := begin_some taken
    exact h
  | release moment i process resource owner =>
    obtain ⟨-, rfl⟩ := begin_some taken
    exact h
  | extend moment i process resource owner ttl =>
    obtain ⟨-, rfl⟩ := begin_some taken
    exact h
  | call moment i outcome =>
    obtain ⟨t, ht, hcall⟩ := Option.bind_eq_some_iff.mp taken
    obtain ⟨r, hr, rfl⟩ := Option.map_eq_some_iff.mp hcall
    exact ClockedTask.overBy_call hr h (fun hrenews => spent t ht hrenews moment outcome rfl)
  | proceed i first second third =>
    obtain ⟨t, -, hproceed⟩ := Option.bind_eq_some_iff.mp taken
    obtain ⟨status, -, rfl⟩ := Option.map_eq_some_iff.mp hproceed
    exact h

/-- A key that is left alone gets no time. -/
theorem overBy_of_leavesAlone (alone : w.LeavesAlone key l) (taken : w.step managers l = some w')
    (h : w.keys.OverBy url key e) : w'.keys.OverBy url key e := by
  refine overBy_step taken h (fun t ht hrenews moment outcome hl => ?_)
  rw [hl] at alone
  refine absurd ?_ alone
  rw [renews?, ht]
  show t.renews?.map Prod.snd = some key
  rw [hrenews]
  rfl

/-! ### Nothing lasts longer than was asked for -/

/-- **No key and no task reaches further** than the longest time to live from now. -/
structure WithinTerms (ttlMs : ℚ) (w : ClockedWorld) : Prop where
  tasks : ∀ thread t, w.tasks thread = some t → t.WithinTerms ttlMs
  keys : ∀ url key, w.keys.OverBy url key (w.now + ttlMs)

theorem withinTerms_init (ttlMs : ℚ) : init.WithinTerms ttlMs where
  tasks _ _ ht := by simp [init] at ht
  keys _ _ _ _ hkey := by simp [init] at hkey

/-- A task that has been updated is as the new one, or is another thread's. -/
theorem WithinTerms.update (h : w.WithinTerms ttlMs) {task : Option ClockedTask}
    (new : ∀ t, task = some t → t.WithinTerms ttlMs) {i : ℕ} {t : ClockedTask}
    (ht : Function.update w.tasks thread task i = some t) : t.WithinTerms ttlMs := by
  obtain ⟨rfl, hnew⟩ | ⟨-, hold⟩ := tasks_update ht
  · exact new t hnew
  · exact h.tasks i t hold

theorem WithinTerms.tasks_step (h : w.WithinTerms ttlMs) (asks : AsksAtMost ttlMs l)
    (taken : w.step managers l = some w') (i : ℕ) (t : ClockedTask)
    (ht : w'.tasks i = some t) : t.WithinTerms ttlMs := by
  cases l with
  | acquire moment thread process terms resource owner =>
    obtain ⟨-, rfl⟩ := begin_some taken
    refine h.update (fun t ht => ?_) ht
    obtain ⟨task, htask, rfl⟩ := Option.map_eq_some_iff.mp ht
    obtain rfl := RedisLockManager.eq_of_acquire htask
    exact asks
  | release moment thread process resource owner =>
    obtain ⟨-, rfl⟩ := begin_some taken
    refine h.update (fun t ht => ?_) ht
    obtain ⟨task, htask, rfl⟩ := Option.map_eq_some_iff.mp ht
    obtain rfl := RedisLockManager.eq_of_release htask
    exact trivial
  | extend moment thread process resource owner ttl =>
    obtain ⟨-, rfl⟩ := begin_some taken
    refine h.update (fun t ht => ?_) ht
    obtain ⟨task, htask, rfl⟩ := Option.map_eq_some_iff.mp ht
    obtain rfl := RedisLockManager.eq_of_extend htask
    exact asks
  | call moment thread outcome =>
    obtain ⟨t₀, ht₀, hcall⟩ := Option.bind_eq_some_iff.mp taken
    obtain ⟨r, hr, rfl⟩ := Option.map_eq_some_iff.mp hcall
    refine h.update (fun t ht => ?_) ht
    cases ht
    exact (h.tasks thread t₀ ht₀).call hr
  | proceed thread first second third =>
    obtain ⟨t₀, ht₀, hproceed⟩ := Option.bind_eq_some_iff.mp taken
    obtain ⟨status, hstatus, rfl⟩ := Option.map_eq_some_iff.mp hproceed
    exact h.update (fun t ht => (h.tasks thread t₀ ht₀).resume hstatus ht) ht

theorem WithinTerms.step (h : w.WithinTerms ttlMs) (ordered : w.Ordered l)
    (asks : AsksAtMost ttlMs l) (taken : w.step managers l = some w') :
    w'.WithinTerms ttlMs where
  tasks := h.tasks_step asks taken
  keys url key := by
    have hle : w.now + ttlMs ≤ w'.now + ttlMs :=
      by simpa using now_le_of_step ordered taken
    refine overBy_step taken ((h.keys url key).mono hle) (fun t ht hrenews moment outcome hl => ?_)
    rw [hl] at taken
    obtain ⟨t', -, hcall⟩ := Option.bind_eq_some_iff.mp taken
    obtain ⟨r, -, rfl⟩ := Option.map_eq_some_iff.mp hcall
    exact add_le_add_right ((h.tasks _ t ht).le hrenews) moment

/-! ### An attempt that has the key to itself -/

/-- **An attempt under way**: it has counted the calls that were answered, and the servers it has
still to visit have nothing to say against it. This is kept call by call, since the servers that
are still to be visited are left alone by all others. -/
structure Trying (w : ClockedWorld) (thread : ℕ) (t : ClockedTask) (attempt answers : ℕ) (e : ℚ)
    (rest : List RedisUrl) : Prop where
  task : w.tasks thread = some (t.goto (.setting attempt rest answers))
  visiting : rest <:+ t.task.manager.clients
  spent : ∀ url ∈ rest, w.keys.OverBy url t.task.key e
  now : e ≤ w.now

section Attempt

variable {t : ClockedTask} {attempt answers : ℕ} {rest : List RedisUrl}

/-- A step of another thread does not disturb it. -/
theorem Trying.other (h : w.Trying thread t attempt answers e rest) (ordered : w.Ordered l)
    (taken : w.step managers l = some w') (other : l.thread ≠ thread)
    (alone : w.LeavesAlone t.task.key l) : w'.Trying thread t attempt answers e rest where
  task := (tasks_of_ne taken other).trans h.task
  visiting := h.visiting
  spent url hurl := overBy_of_leavesAlone alone taken (h.spent url hurl)
  now := h.now.trans (now_le_of_step ordered taken)

/-- A `SET NX` of a key that is over is answered with yes. -/
theorem setNx_of_overBy {keys : RedisKeys} (owner : String) {moment ends : ℚ}
    (spent : keys.OverBy url key e) (le : e ≤ moment) (live : moment < ends) :
    (RedisKeys.setNx moment ends url key owner keys).1 = true := by
  rw [RedisKeys.setNx, if_neg (not_le.mpr live), spent.visible le]

/-- **One call of the attempt**, to the next server. -/
theorem Trying.call (h : w.Trying thread t attempt answers e (url :: rest))
    (nodup : t.task.manager.clients.Nodup) (live : 0 < t.terms.ttlMs) {moment : ℚ}
    {outcome : CallOutcome} (ordered : w.now ≤ moment)
    (taken : w.step managers (.call moment thread outcome) = some w') :
    w'.Trying thread t attempt (answers + if outcome = .answered then 1 else 0) e rest := by
  obtain ⟨u, hu, hcall⟩ := Option.bind_eq_some_iff.mp taken
  obtain rfl := Option.some.inj (h.task.symm.trans hu)
  obtain ⟨r, hr, rfl⟩ := Option.map_eq_some_iff.mp hcall
  have hfree : url ∉ rest :=
    (List.nodup_cons.mp (nodup.sublist h.visiting.sublist)).1
  refine ⟨?_, (List.suffix_cons url rest).trans h.visiting, fun url' hurl' => ?_,
    h.now.trans ordered⟩
  · have hyes := setNx_of_overBy t.task.owner (h.spent url List.mem_cons_self)
      (h.now.trans ordered) (lt_add_of_pos_right moment live)
    show Function.update w.tasks thread (some r.1) thread = _
    rw [Function.update_self]
    cases hr
    cases outcome with
    | answered => simp [CallOutcome.send, hyes, ClockedTask.goto, RedisTask.goto]
    | lost | failed => rfl
  · -- the servers still to be visited are others
    refine ClockedTask.overBy_call hr (h.spent url' (List.mem_cons_of_mem url hurl')) ?_
    intro hrenews
    cases hrenews
    exact absurd hurl' hfree

/-- A step of the thread itself is its next call. -/
theorem Trying.eq_call (h : w.Trying thread t attempt answers e rest)
    (alone : w.LeavesTo thread t.task.key l) (taken : w.step managers l = some w')
    (own : l.thread = thread) :
    ∃ moment outcome url rest', l = .call moment thread outcome ∧ rest = url :: rest' := by
  cases l with
  | acquire moment i process terms resource owner =>
    obtain rfl : i = thread := own
    obtain ⟨hidle, -⟩ := begin_some taken
    exact absurd (hidle.symm.trans h.task) (by simp)
  | release moment i process resource owner =>
    obtain rfl : i = thread := own
    obtain ⟨hidle, -⟩ := begin_some taken
    exact absurd (hidle.symm.trans h.task) (by simp)
  | extend moment i process resource owner ttl =>
    obtain rfl : i = thread := own
    obtain ⟨hidle, -⟩ := begin_some taken
    exact absurd (hidle.symm.trans h.task) (by simp)
  | call moment i outcome =>
    obtain rfl : i = thread := own
    obtain ⟨u, hu, hcall⟩ := Option.bind_eq_some_iff.mp taken
    obtain rfl := Option.some.inj (h.task.symm.trans hu)
    obtain ⟨r, hr, -⟩ := Option.map_eq_some_iff.mp hcall
    cases rest with
    | nil => cases hr
    | cons url rest => exact ⟨moment, outcome, url, rest, rfl, rfl⟩
  | proceed i first second third =>
    obtain rfl : i = thread := own
    exact absurd rfl alone

/-- **The attempt counts its answers**, in any run in which it has the key to itself. -/
theorem Trying.run (h : w.Trying thread t attempt 0 e t.task.manager.clients)
    (nodup : t.task.manager.clients.Nodup) (live : 0 < t.terms.ttlMs) {ls : List ClockedStep}
    (run : GuardedRun (step managers)
      (fun w l => w.Ordered l ∧ w.LeavesTo thread t.task.key l) w ls w') :
    ∃ rest, w'.Trying thread t attempt (ls.countP (ClockedStep.answers thread)) e rest := by
  refine run.invariant_labels (P := fun ls w => ∃ rest,
    w.Trying thread t attempt (ls.countP (ClockedStep.answers thread)) e rest) ⟨_, h⟩ ?_
  rintro ls w l w' ⟨rest, htry⟩ ⟨ordered, alone⟩ taken
  rw [List.countP_append, List.countP_singleton]
  by_cases hown : l.thread = thread
  · obtain ⟨moment, outcome, url, rest, rfl, rfl⟩ := htry.eq_call alone taken hown
    refine ⟨rest, ?_⟩
    have hnext := htry.call nodup live ordered taken
    cases outcome <;> simpa [ClockedStep.answers] using hnext
  · refine ⟨rest, ?_⟩
    have hother := htry.other ordered taken hown (alone.leavesAlone hown)
    have hnot : l.answers thread = false := by
      cases l with
      | call moment i outcome =>
        cases outcome <;> simp [ClockedStep.answers]
        exact hown
      | _ => rfl
    rw [hnot]
    exact hother

/-- An attempt that has its quorum in time returns the lock. -/
theorem Trying.granted (h : w.Trying thread t attempt answers e rest)
    {first second third : ℚ} (quorum : t.task.manager.quorum ≤ answers)
    (valid : 0 < t.terms.validity t.start first)
    (taken : w.step managers (.proceed thread first second third) = some w') :
    w'.tasks thread = none
      ∧ ⟨t.task.key, t.task.owner, third + t.terms.validity t.start first⟩ ∈ w'.granted := by
  obtain ⟨u, hu, hproceed⟩ := Option.bind_eq_some_iff.mp taken
  obtain rfl := Option.some.inj (h.task.symm.trans hu)
  obtain ⟨status, hstatus, rfl⟩ := Option.map_eq_some_iff.mp hproceed
  have hacquired : status = .acquired := by
    cases rest with
    | cons url rest => cases hstatus
    | nil =>
      have hdone : some RedisStatus.acquired = some status := by
        rw [← hstatus]
        simp [ClockedTask.proceed, RedisTask.proceed, ClockedTask.goto, RedisTask.goto, quorum,
          valid]
      exact (Option.some.inj hdone).symm
  subst hacquired
  refine ⟨Function.update_self _ _ _, List.mem_append_left _ ?_⟩
  exact List.mem_singleton.mpr rfl

end Attempt

/-- **No Redis lock is held for ever.** For any number of threads of any number of processes, with
any failures of calls, any time between two steps, and any of the threads left behind at any
place: let no `acquire` and no `extend` of the run so far have asked for more than `ttlMs`, and let
that much time go by in which no call gives time to a key. An attempt on the key that begins then,
and that has the key to itself until its loop is over, returns the lock at the end of the loop
if as many of the servers have answered as its quorum takes, and there is validity left. -/
theorem available_after (managers : ℕ → RedisLockManager) {ttlMs : ℚ}
    {ls₀ ls₁ ls₂ : List ClockedStep} {w₀ w₁ w₂ w₃ : ClockedWorld} {thread attempt : ℕ}
    {t : ClockedTask} {first second third : ℚ}
    (past : GuardedRun (step managers) (fun w l => w.Ordered l ∧ AsksAtMost ttlMs l) init ls₀ w₀)
    (quiet : GuardedRun (step managers)
      (fun w l => w.Ordered l ∧ w.LeavesAlone t.task.key l) w₀ ls₁ w₁)
    (waited : w₀.now + ttlMs ≤ w₁.now)
    (task : w₁.tasks thread = some t)
    (begins : t.task.pc = .setting attempt t.task.manager.clients 0)
    (nodup : t.task.manager.clients.Nodup) (live : 0 < t.terms.ttlMs)
    (calls : GuardedRun (step managers)
      (fun w l => w.Ordered l ∧ w.LeavesTo thread t.task.key l) w₁ ls₂ w₂)
    (quorum : t.task.manager.quorum ≤ ls₂.countP (ClockedStep.answers thread))
    (valid : 0 < t.terms.validity t.start first)
    (taken : w₂.step managers (.proceed thread first second third) = some w₃) :
    w₃.tasks thread = none
      ∧ ⟨t.task.key, t.task.owner, third + t.terms.validity t.start first⟩ ∈ w₃.granted := by
  have hpast : w₀.WithinTerms ttlMs :=
    past.invariant (withinTerms_init ttlMs) (fun _ _ _ h ok taken => h.step ok.1 ok.2 taken)
  have hover : ∀ url, w₁.keys.OverBy url t.task.key (w₀.now + ttlMs) := by
    refine quiet.invariant (P := fun w => ∀ url, w.keys.OverBy url t.task.key (w₀.now + ttlMs))
      (fun url => hpast.keys url _) ?_
    intro w l w' h ok taken url
    exact overBy_of_leavesAlone ok.2 taken (h url)
  have hstart : w₁.Trying thread t attempt 0 (w₀.now + ttlMs) t.task.manager.clients := by
    refine ⟨?_, List.suffix_refl _, fun url _ => hover url, waited⟩
    rw [task, ← begins]
    rfl
  obtain ⟨rest, htry⟩ := hstart.run nodup live calls
  exact htry.granted quorum valid taken

/-- One process gets the lock and is never heard of again; another stops in the middle of its
attempt. -/
def crashed : List ClockedStep :=
  attempt 0 0 "o" ++ [.acquire 5 2 2 { ttl := 1 } "r" "x", .call 6 2 .failed]

/-- What they leave behind. -/
def afterCrash : ClockedWorld :=
  (GuardedRun.replay (step trio) (fun w l => decide (w.Ordered l ∧ AsksAtMost 1000 l)) init
    crashed).get (by decide +kernel)

/-- The attempt of a third, when that is long enough ago. -/
def afterwards : ClockedTask :=
  ⟨⟨trio 1, "lock:r", "p", .setting 0 (trio 1).clients 0⟩, { ttl := 1 }, 1010⟩

/-- The attempt has begun. -/
def begun : ClockedWorld :=
  { afterCrash with
    tasks := Function.update afterCrash.tasks 1 (some afterwards)
    now := 1010
    owners := Function.update afterCrash.owners "p" (some 1) }

theorem step_begun :
    afterCrash.step trio (.acquire 1010 1 1 { ttl := 1 } "r" "p") = some begun := by
  have hidle : afterCrash.tasks 1 = none := Option.isNone_iff_eq_none.mp (by decide +kernel)
  simp only [step, begin, hidle]
  rfl

/-- **The lock of a process that has crashed is given to another**, although one of the servers
does not answer it. -/
theorem available_after_crash :
    ∃ w, GuardedRun (step trio) Ordered begun [.call 1011 1 .answered, .call 1012 1 .failed,
        .call 1013 1 .answered, .proceed 1 1014 1014 1015] w
      ∧ w.tasks 1 = none ∧ ⟨"lock:r", "p", 1999⟩ ∈ w.granted := by
  obtain ⟨w, hcalls, hnext⟩ : ∃ w, GuardedRun (step trio)
        (fun w l => w.Ordered l ∧ w.LeavesTo 1 "lock:r" l) begun
        [.call 1011 1 .answered, .call 1012 1 .failed, .call 1013 1 .answered] w
      ∧ (decide (w.now = 1013) && (w.step trio (.proceed 1 1014 1014 1015)).isSome) = true :=
    GuardedRun.exists_of_replay (fun _ _ h => of_decide_eq_true h) (by decide +kernel)
  obtain ⟨hnow, hsome⟩ := Bool.and_eq_true_iff.mp hnext
  obtain ⟨w', hw'⟩ := Option.isSome_iff_exists.mp hsome
  have hlast : w.Ordered (.proceed 1 1014 1014 1015) := by
    rw [Ordered, of_decide_eq_true hnow]
    norm_num
  refine ⟨w', (hcalls.mono (fun _ _ ok => ok.1)).snoc hlast hw', ?_⟩
  have hpast : GuardedRun (step trio) (fun w l => w.Ordered l ∧ AsksAtMost 1000 l) init crashed
      afterCrash :=
    GuardedRun.of_replay (fun _ _ h => of_decide_eq_true h) (Option.some_get _).symm
  have hquiet : GuardedRun (step trio) (fun w l => w.Ordered l ∧ w.LeavesAlone "lock:r" l)
      afterCrash [.acquire 1010 1 1 { ttl := 1 } "r" "p"] begun :=
    GuardedRun.single (by decide +kernel) step_begun
  have h := available_after trio (t := afterwards) hpast hquiet (by decide +kernel)
    (Function.update_self _ _ _) rfl (by decide +kernel) (by decide +kernel) hcalls
    (by decide +kernel) (by decide +kernel) hw'
  have hends : 1015 + afterwards.terms.validity afterwards.start 1014 = 1999 := by decide +kernel
  rw [hends] at h
  exact h

end ClockedWorld

end JobOrchestrator
