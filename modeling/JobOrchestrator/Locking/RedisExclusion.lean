import JobOrchestrator.Locking.RedisTimed

/-!
# When Redis locks exclude, in time

`RedisAgreement` leaves time out: nothing expires there, and nothing is promised until then. Here
a lock ends by itself, and the question is whether two owners can both have the lock of one
resource, neither of which is over yet.

A `LockInfo` is backed by the servers that were counted for it as long as it is valid: each of
its keys was set after the attempt started, for the whole time to live, and its `expires_at` is
earlier than that, unless the pause before it is computed is longer than the allowance for
drift (`TimedCall.valid_iff_shortPause`). Two quorums have a server in common, which has one key.

Nothing takes a key away before it expires but a call with its owner. So it is enough that an
owner is used once: that every `acquire` has one of its own, which is the default, and that
who releases and extends a lock is who acquired it – which is what `lock` does. That this cannot
be left out is the second run of `RedisWorld.granted_twice`.
-/

namespace JobOrchestrator

/-! ## What a call leaves -/

namespace RedisKeys

variable {keys keys' : RedisKeys} {url : RedisUrl} {key key' owner owner' : String}
  {moment ends ends' : ℚ}

/-- **The keys of an owner that last until then still do.** -/
def Keeps (keys keys' : RedisKeys) (key owner : String) (ends : ℚ) : Prop :=
  ∀ url, keys.Lasts url key owner ends → keys'.Lasts url key owner ends

theorem Keeps.refl (keys : RedisKeys) (key owner : String) (ends : ℚ) :
    Keeps keys keys key owner ends :=
  fun _ h => h

/-- A key is written. What was there has another owner, or lasts no less than before. -/
theorem keeps_write {value : Option (String × ℚ)}
    (spared : key' = key → ∀ e, keys url key = some (owner', e) → ends' ≤ e →
      ∃ e', value = some (owner', e') ∧ ends' ≤ e') :
    Keeps keys (keys.write url key value) key' owner' ends' := by
  rintro url' ⟨e, he, hle⟩
  by_cases hsame : url' = url ∧ key' = key
  · obtain ⟨rfl, rfl⟩ := hsame
    obtain ⟨e', hvalue, hle'⟩ := spared rfl e he hle
    exact ⟨e', (write_self url' key' value keys).trans hvalue, hle'⟩
  · exact ⟨e, (write_of_ne (not_and_or.mp hsame)).trans he, hle⟩

/-- `SET NX` overwrites nothing that is still valid. A key whose time to live is over counts as
free, which is what tells this one from its untimed namesake. -/
theorem keeps_setNx (live : moment < ends') :
    Keeps keys (setNx moment ends url key owner keys).2 key' owner' ends' := by
  unfold setNx
  split
  · exact Keeps.refl keys key' owner' ends'
  split
  · rename_i hfree
    refine keeps_write (fun _ e he hle => ?_)
    have hlasts : keys.Lasts url key owner' ends' := ⟨e, he, hle⟩
    rw [hlasts.visible live] at hfree
    cases hfree
  · exact Keeps.refl keys key' owner' ends'

/-- The release script takes nothing from another owner. The script compares the value with the
owner and deletes in one go. -/
theorem keeps_releaseScript (live : moment < ends') (other : ¬ (key' = key ∧ owner' = owner)) :
    Keeps keys (releaseScript moment url key owner keys).2 key' owner' ends' := by
  unfold releaseScript
  split
  · rename_i hhas
    refine keeps_write (fun hkey e he hle => absurd ⟨hkey, ?_⟩ other)
    have hlasts : keys.Lasts url key owner' ends' := ⟨e, he, hle⟩
    exact Option.some.inj ((hlasts.visible live).symm.trans hhas)
  · exact Keeps.refl keys key' owner' ends'

/-- The extend script takes nothing from another owner, and shortens nothing of what is to end
before. -/
theorem keeps_extendScript (live : moment < ends')
    (longer : key' = key → owner' = owner → ends' ≤ ends) :
    Keeps keys (extendScript moment ends url key owner keys).2 key' owner' ends' := by
  unfold extendScript
  split
  · rename_i hhas
    refine keeps_write (fun hkey e he hle => ?_)
    have hlasts : keys.Lasts url key owner' ends' := ⟨e, he, hle⟩
    have howner : owner' = owner := Option.some.inj ((hlasts.visible live).symm.trans hhas)
    exact ⟨ends, by rw [howner], longer hkey howner⟩
  · exact Keeps.refl keys key' owner' ends'

/-- A call that fails, and one whose answer is lost, keep what the others keep. -/
theorem keeps_send {outcome : CallOutcome} {command : RedisKeys → Bool × RedisKeys}
    (h : Keeps keys (command keys).2 key owner ends) :
    Keeps keys (outcome.send command keys).2 key owner ends := by
  cases outcome with
  | answered | lost => exact h
  | failed => exact Keeps.refl keys key owner ends

/-- **A `SET NX` that is answered with yes** has set a key that ends then. -/
theorem lasts_setNx {outcome : CallOutcome}
    (h : (outcome.send (setNx moment ends url key owner) keys).1 = true) :
    (outcome.send (setNx moment ends url key owner) keys).2.Lasts url key owner ends := by
  cases outcome with
  | answered =>
    show (setNx moment ends url key owner keys).2.Lasts url key owner ends
    replace h : (setNx moment ends url key owner keys).1 = true := h
    unfold setNx at h ⊢
    split at h
    · cases h
    · rename_i hlive
      rw [if_neg hlive]
      split at h
      · exact ⟨ends, write_self url key _ keys, le_rfl⟩
      · cases h
  | lost | failed => cases h

/-- **An extend script that is answered with yes** has moved the end of the key. -/
theorem lasts_extendScript {outcome : CallOutcome}
    (h : (outcome.send (extendScript moment ends url key owner) keys).1 = true) :
    (outcome.send (extendScript moment ends url key owner) keys).2.Lasts url key owner ends := by
  cases outcome with
  | answered =>
    show (extendScript moment ends url key owner keys).2.Lasts url key owner ends
    replace h : (extendScript moment ends url key owner keys).1 = true := h
    unfold extendScript at h ⊢
    split at h
    · rename_i hhas
      rw [if_pos hhas]
      exact ⟨ends, write_self url key _ keys, le_rfl⟩
    · cases h
  | lost | failed => cases h

end RedisKeys

/-- **A count of servers is backed until then**: that many of the manager's servers, not counting
those still to be visited, have the key of the owner, and keep it until then. -/
def RedisLockManager.BackedUntil (m : RedisLockManager) (keys : RedisKeys) (key owner : String)
    (ends : ℚ) (rest : List RedisUrl) (count : ℕ) : Prop :=
  ∃ won ⊆ m.clients.toFinset, won.card = count ∧ (∀ url ∈ won, url ∉ rest)
    ∧ ∀ url ∈ won, keys.Lasts url key owner ends

namespace RedisLockManager.BackedUntil

variable {m : RedisLockManager} {keys keys' : RedisKeys} {key owner : String} {ends ends' : ℚ}
  {url : RedisUrl} {rest : List RedisUrl} {count : ℕ}

theorem zero (m : RedisLockManager) (keys : RedisKeys) (key owner : String) (ends : ℚ)
    (rest : List RedisUrl) : m.BackedUntil keys key owner ends rest 0 :=
  ⟨∅, Finset.empty_subset _, rfl, fun _ h => absurd h (Finset.notMem_empty _),
    fun _ h => absurd h (Finset.notMem_empty _)⟩

theorem mono (h : m.BackedUntil keys key owner ends rest count)
    (kept : RedisKeys.Keeps keys keys' key owner ends) :
    m.BackedUntil keys' key owner ends rest count := by
  obtain ⟨won, hsub, hcard, hahead, hall⟩ := h
  exact ⟨won, hsub, hcard, hahead, fun url hurl => kept url (hall url hurl)⟩

theorem anti (h : m.BackedUntil keys key owner ends rest count) (le : ends' ≤ ends) :
    m.BackedUntil keys key owner ends' rest count := by
  obtain ⟨won, hsub, hcard, hahead, hall⟩ := h
  exact ⟨won, hsub, hcard, hahead, fun url hurl => (hall url hurl).anti le⟩

/-- **The next server is visited**, and is counted where it has the key. -/
theorem visit (h : m.BackedUntil keys key owner ends (url :: rest) count)
    (kept : RedisKeys.Keeps keys keys' key owner ends) (suffix : url :: rest <:+ m.clients)
    (nodup : m.clients.Nodup) {yes : Bool}
    (taken : yes = true → keys'.Lasts url key owner ends) :
    m.BackedUntil keys' key owner ends rest (if yes then count + 1 else count) := by
  obtain ⟨won, hsub, hcard, hahead, hall⟩ := h
  have hrest : ∀ url' ∈ won, url' ∉ rest := fun url' hurl' hin =>
    hahead url' hurl' (List.mem_cons_of_mem url hin)
  cases yes with
  | false => exact ⟨won, hsub, hcard, hrest, fun url' hurl' => kept url' (hall url' hurl')⟩
  | true =>
    have hfresh : url ∉ won := fun hin => hahead url hin List.mem_cons_self
    have honce : url ∉ rest := (List.nodup_cons.mp (nodup.sublist suffix.sublist)).1
    refine ⟨insert url won, ?_, ?_, ?_, ?_⟩
    · refine Finset.insert_subset (List.mem_toFinset.mpr ?_) hsub
      exact suffix.subset List.mem_cons_self
    · rw [Finset.card_insert_of_notMem hfresh, hcard]
      rfl
    · intro url' hurl'
      obtain rfl | hold := Finset.mem_insert.mp hurl'
      · exact honce
      · exact hrest url' hold
    · intro url' hurl'
      obtain rfl | hold := Finset.mem_insert.mp hurl'
      · exact taken rfl
      · exact kept url' (hall url' hold)

end RedisLockManager.BackedUntil

/-! ## Calls that begin -/

namespace RedisLockManager

variable {m : RedisLockManager} {resource owner : String} {task : RedisTask}

theorem eq_of_acquire (h : m.acquire resource owner = some task) :
    task = ⟨m, m.key resource, owner, .setting 0 m.clients 0⟩ := by
  unfold acquire at h
  split at h
  · cases h
  · exact (Option.some.inj h).symm

theorem eq_of_release {owner : Option String} (h : m.release resource owner = some task) :
    task = ⟨m, m.key resource, owner.getD "",
      .releasing (decide (owner.getD "" = "")) m.clients false⟩ := by
  unfold release at h
  split at h
  · cases h
  · exact (Option.some.inj h).symm

theorem eq_of_extend (h : m.extend resource owner = some task) :
    task = ⟨m, m.key resource, owner, .extending m.clients 0⟩ := by
  unfold extend at h
  split at h
  · cases h
  · exact (Option.some.inj h).symm

end RedisLockManager

/-! ## The condition -/

namespace ClockedWorld

/-- **Every owner is used for one acquire**, which is the default, and a lock is released and
extended by the thread that acquired it. An extension does not end before what it extends. -/
def Disciplined (managers : ℕ → RedisLockManager) (w : ClockedWorld) : ClockedStep → Prop
  | .acquire _ _ _ _ _ owner => owner ≠ "" ∧ w.owners owner = none
  | .release _ thread _ _ owner => owner.getD "" ≠ "" ∧ w.owners (owner.getD "") = some thread
  | .extend moment thread process resource owner ttl => w.owners owner = some thread ∧
      ∀ g ∈ w.granted, g.key = (managers process).key resource → g.owner = owner →
        g.expiresAt ≤ moment + { ttl := ttl : LeaseTerms }.ttlMs
  | .call _ _ _ | .proceed _ _ _ _ => True

/-- **The pause is short**: where `acquire` returns a lock, no more time passes between the reading
that its validity is computed from and the reading that it is added to than the allowance for
drift. -/
def ShortPause (w : ClockedWorld) : ClockedStep → Prop
  | .proceed thread first _ third => ∀ t ∈ w.tasks thread, t.complete = true →
      0 < t.terms.validity t.start first → third - first ≤ t.terms.drift
  | _ => True

/-- What is asked of a run. -/
def Fair (managers : ℕ → RedisLockManager) (w : ClockedWorld) (l : ClockedStep) : Prop :=
  w.Ordered l ∧ w.Disciplined managers l ∧ w.ShortPause l

instance decidableOrdered (w : ClockedWorld) : (l : ClockedStep) → Decidable (w.Ordered l)
  | .acquire moment _ _ _ _ _ | .release moment _ _ _ _ | .extend moment _ _ _ _ _
  | .call moment _ _ => inferInstanceAs (Decidable (w.now ≤ moment))
  | .proceed _ first second third =>
    inferInstanceAs (Decidable (w.now ≤ first ∧ first ≤ second ∧ second ≤ third))

instance decidableDisciplined (managers : ℕ → RedisLockManager) (w : ClockedWorld) :
    (l : ClockedStep) → Decidable (w.Disciplined managers l)
  | .acquire _ _ _ _ _ owner => inferInstanceAs (Decidable (owner ≠ "" ∧ w.owners owner = none))
  | .release _ thread _ _ owner =>
    inferInstanceAs (Decidable (owner.getD "" ≠ "" ∧ w.owners (owner.getD "") = some thread))
  | .extend moment thread process resource owner ttl =>
    inferInstanceAs (Decidable (w.owners owner = some thread ∧
      ∀ g ∈ w.granted, g.key = (managers process).key resource → g.owner = owner →
        g.expiresAt ≤ moment + { ttl := ttl : LeaseTerms }.ttlMs))
  | .call _ _ _ | .proceed _ _ _ _ => isTrue trivial

instance decidableShortPause (w : ClockedWorld) : (l : ClockedStep) → Decidable (w.ShortPause l)
  | .proceed thread first _ third =>
    inferInstanceAs (Decidable (∀ t ∈ w.tasks thread, t.complete = true →
      0 < t.terms.validity t.start first → third - first ≤ t.terms.drift))
  | .acquire .. | .release .. | .extend .. | .call .. => isTrue trivial

instance (managers : ℕ → RedisLockManager) (w : ClockedWorld) (l : ClockedStep) :
    Decidable (w.Fair managers l) :=
  inferInstanceAs (Decidable (w.Ordered l ∧ w.Disciplined managers l ∧ w.ShortPause l))

end ClockedWorld

/-! ## The invariant -/

/-- **Its count is backed**, as long as the keys last. -/
def ClockedTask.Counts (t : ClockedTask) (now : ℚ) (keys : RedisKeys) (rest : List RedisUrl)
    (count : ℕ) : Prop :=
  t.start ≤ now ∧ rest <:+ t.task.manager.clients ∧ (now < t.promise →
    t.task.manager.BackedUntil keys t.task.key t.task.owner t.promise rest count)

/-- **Where a call is.** An acquire has no lock yet, and a release none any more. -/
def ClockedTask.Inside (now : ℚ) (keys : RedisKeys) (granted : List RedisGrant)
    (t : ClockedTask) : Prop :=
  match t.task.pc with
  | .setting _ rest count => t.Counts now keys rest count
      ∧ ∀ g ∈ granted, g.owner ≠ t.task.owner
  | .rollingBack _ _ | .waiting _ => ∀ g ∈ granted, g.owner ≠ t.task.owner
  | .releasing forced _ _ => forced = false
      ∧ ∀ g ∈ granted, g.key = t.task.key → g.owner ≠ t.task.owner
  | .extending rest count => t.Counts now keys rest count
      ∧ ∀ g ∈ granted, g.key = t.task.key → g.owner = t.task.owner → g.expiresAt ≤ t.promise

/-- What a call must not touch, if a key is to last: a setting acquire touches nothing, and an
extension what it makes longer. -/
def ClockedTask.Spares (t : ClockedTask) (moment : ℚ) (key owner : String) (ends : ℚ) : Prop :=
  match t.task.pc with
  | .setting _ _ _ => True
  | .rollingBack _ _ | .waiting _ => ¬ (key = t.task.key ∧ owner = t.task.owner)
  | .releasing forced _ _ => forced = false ∧ ¬ (key = t.task.key ∧ owner = t.task.owner)
  | .extending _ _ => key = t.task.key → owner = t.task.owner → ends ≤ moment + t.terms.ttlMs

namespace ClockedTask

variable {t t' : ClockedTask} {now now' moment ends : ℚ} {keys keys' : RedisKeys}
  {granted granted' : List RedisGrant} {rest : List RedisUrl} {count : ℕ} {key owner : String}
  {outcome : CallOutcome} {r : ClockedTask × RedisKeys}

/-- **A call of a server keeps what it spares.** -/
theorem call_keeps (taken : t.call outcome moment keys = some r) (live : moment < ends)
    (spares : t.Spares moment key owner ends) : RedisKeys.Keeps keys r.2 key owner ends := by
  unfold Spares at spares
  unfold call at taken
  split at taken
  · cases taken
    exact RedisKeys.keeps_send (RedisKeys.keeps_setNx live)
  · rename_i hpc
    rw [hpc] at spares
    cases taken
    exact RedisKeys.keeps_send (RedisKeys.keeps_releaseScript live spares)
  · rename_i hpc
    rw [hpc] at spares
    obtain ⟨rfl, hother⟩ := spares
    cases taken
    exact RedisKeys.keeps_send (RedisKeys.keeps_releaseScript live hother)
  · rename_i hpc
    rw [hpc] at spares
    cases taken
    exact RedisKeys.keeps_send (RedisKeys.keeps_extendScript live spares)
  · cases taken

/-- A call of a server leaves a task what it is: the same manager, the same owner, and only its
place is another. -/
theorem call_same (taken : t.call outcome moment keys = some r) :
    r.1.task.manager = t.task.manager ∧ r.1.task.owner = t.task.owner := by
  unfold call at taken
  split at taken <;> cases taken <;> exact ⟨rfl, rfl⟩

theorem Counts.mono (h : t.Counts now keys rest count) (le : now ≤ now')
    (kept : now' < t.promise → RedisKeys.Keeps keys keys' t.task.key t.task.owner t.promise) :
    t.Counts now' keys' rest count :=
  ⟨h.1.trans le, h.2.1, fun live => (h.2.2 (le.trans_lt live)).mono (kept live)⟩

/-- **It stays in order** while time passes, where its keys are kept and nothing is granted to its
owner. -/
theorem Inside.mono (h : t.Inside now keys granted) (le : now ≤ now')
    (kept : now' < t.promise → RedisKeys.Keeps keys keys' t.task.key t.task.owner t.promise)
    (apart : ∀ g ∈ granted', g.owner = t.task.owner → g ∈ granted) :
    t.Inside now' keys' granted' := by
  have hapart : (∀ g ∈ granted, g.owner ≠ t.task.owner) →
      ∀ g ∈ granted', g.owner ≠ t.task.owner :=
    fun hnone g hg howner => hnone g (apart g hg howner) howner
  unfold Inside at h ⊢
  split
  · rename_i hpc
    rw [hpc] at h
    exact ⟨h.1.mono le kept, hapart h.2⟩
  · rename_i hpc
    rw [hpc] at h
    exact hapart h
  · rename_i hpc
    rw [hpc] at h
    exact hapart h
  · rename_i hpc
    rw [hpc] at h
    exact ⟨h.1, fun g hg hkey howner => h.2 g (apart g hg howner) hkey howner⟩
  · rename_i hpc
    rw [hpc] at h
    exact ⟨h.1.mono le kept, fun g hg hkey howner => h.2 g (apart g hg howner) hkey howner⟩

/-- **A count goes on** with the next server. The server is counted where it has said yes, and
then it lasts for the whole time to live from that moment. -/
theorem Counts.visit {url : RedisUrl} {pc : RedisPc} {yes : Bool}
    (h : t.Counts now keys (url :: rest) count) (nodup : t.task.manager.clients.Nodup)
    (le : now ≤ moment)
    (kept : moment < t.promise → RedisKeys.Keeps keys keys' t.task.key t.task.owner t.promise)
    (taken : yes = true → keys'.Lasts url t.task.key t.task.owner (moment + t.terms.ttlMs)) :
    (t.goto pc).Counts moment keys' rest (if yes then count + 1 else count) := by
  obtain ⟨hstart, hsuffix, hbacked⟩ := h
  refine ⟨hstart.trans le, (List.suffix_cons url rest).trans hsuffix, fun live => ?_⟩
  refine (hbacked (le.trans_lt live)).visit (kept live) hsuffix nodup (fun hyes => ?_)
  exact (taken hyes).anti (add_le_add_left (hstart.trans le) _)

/-- **A call of a server keeps the task in order.** -/
theorem Inside.call (h : t.Inside now keys granted) (nodup : t.task.manager.clients.Nodup)
    (le : now ≤ moment) (taken : t.call outcome moment keys = some r) :
    r.1.Inside moment r.2 granted := by
  have hkeeps : ∀ {ends}, moment < ends → t.Spares moment t.task.key t.task.owner ends →
      RedisKeys.Keeps keys r.2 t.task.key t.task.owner ends := call_keeps taken
  unfold Inside at h
  unfold ClockedTask.call at taken
  split at taken
  · rename_i attempt url rest count hpc
    rw [hpc] at h
    cases taken
    refine ⟨h.1.visit nodup le (fun live => hkeeps live ?_) RedisKeys.lasts_setNx, h.2⟩
    rw [Spares, hpc]
    exact trivial
  · rename_i hpc
    rw [hpc] at h
    cases taken
    exact h
  · rename_i hpc
    rw [hpc] at h
    cases taken
    exact h
  · rename_i attempt url rest hpc
    rw [hpc] at h
    cases taken
    refine ⟨h.1.visit nodup le (fun live => hkeeps live ?_) RedisKeys.lasts_extendScript, h.2⟩
    rw [Spares, hpc]
    exact fun _ _ => add_le_add_left (h.1.1.trans le) _
  · cases taken

/-- **What a call spares of what it has been granted itself.** -/
theorem Inside.spares (h : t.Inside now keys granted) (le : now ≤ moment) {g : RedisGrant}
    (mem : g ∈ granted) : t.Spares moment g.key g.owner g.expiresAt := by
  unfold Inside at h
  unfold Spares
  split
  · exact trivial
  · rename_i hpc
    rw [hpc] at h
    exact fun hsame => h g mem hsame.2
  · rename_i hpc
    rw [hpc] at h
    exact fun hsame => h g mem hsame.2
  · rename_i hpc
    rw [hpc] at h
    exact ⟨h.1, fun hsame => h.2 g mem hsame.1 hsame.2⟩
  · rename_i hpc
    rw [hpc] at h
    exact fun hkey howner =>
      (h.2 g mem hkey howner).trans (add_le_add_left (h.1.1.trans le) _)

/-- What a task does to the servers spares the keys of every other owner: its scripts compare
before they delete. -/
theorem Inside.spares_other (h : t.Inside now keys granted) (other : owner ≠ t.task.owner) :
    t.Spares moment key owner ends := by
  unfold Inside at h
  unfold Spares
  split
  · exact trivial
  · exact fun hsame => other hsame.2
  · exact fun hsame => other hsame.2
  · rename_i hpc
    rw [hpc] at h
    exact ⟨h.1, fun hsame => other hsame.2⟩
  · exact fun _ howner => absurd howner other

/-- It is an acquire, which has no lock yet. -/
def Acquires (t : ClockedTask) : Prop :=
  match t.task.pc with
  | .setting _ _ _ | .rollingBack _ _ | .waiting _ => True
  | .releasing _ _ _ | .extending _ _ => False

/-- Nothing is counted yet. -/
def Uncounted (m : RedisLockManager) : RedisPc → Prop
  | .setting _ rest count => rest = m.clients ∧ count = 0
  | .rollingBack _ _ | .waiting _ => True
  | .releasing _ _ _ | .extending _ _ => False

theorem Inside.apart (h : t.Inside now keys granted) (acquires : t.Acquires) :
    ∀ g ∈ granted, g.owner ≠ t.task.owner := by
  unfold Inside at h
  unfold Acquires at acquires
  split at h
  · exact h.2
  · exact h
  · exact h
  · rename_i hpc
    rw [hpc] at acquires
    exact acquires.elim
  · rename_i hpc
    rw [hpc] at acquires
    exact acquires.elim

/-- **What is done between the loops**, in cases: the acquire goes on, without a count; it returns
a lock, that has its quorum and is still valid; the extension returns; or nothing is left
to do. -/
theorem proceed_cases {first : ℚ} {status : RedisStatus} (taken : t.proceed first = some status) :
    (∃ pc, status = .running (t.task.goto pc) ∧ t.Acquires ∧ Uncounted t.task.manager pc)
      ∨ (∃ attempt count, status = .acquired ∧ t.task.pc = .setting attempt [] count
        ∧ t.task.manager.quorum ≤ count ∧ 0 < t.terms.validity t.start first)
      ∨ (∃ count yes, status = .extended yes ∧ t.task.pc = .extending [] count
        ∧ (yes = true → t.task.manager.quorum ≤ count))
      ∨ status.task? = none ∧ ∀ third, t.grants first third status = [] := by
  obtain ⟨⟨m, key, owner, pc⟩, terms, start⟩ := t
  unfold proceed RedisTask.proceed at taken
  cases pc with
  | setting attempt rest count =>
    cases rest with
    | cons url rest => cases taken
    | nil =>
      simp only at taken
      split at taken
      · rename_i hquorum
        split at taken <;> cases taken
        · rename_i hvalid
          exact Or.inr (Or.inl ⟨attempt, count, rfl, rfl, hquorum, of_decide_eq_true hvalid⟩)
        · exact Or.inl ⟨_, rfl, trivial, trivial⟩
      · split at taken <;> cases taken <;> exact Or.inl ⟨_, rfl, trivial, trivial⟩
  | rollingBack attempt rest =>
    cases rest with
    | cons url rest => cases taken
    | nil =>
      cases taken
      exact Or.inl ⟨_, rfl, trivial, trivial⟩
  | waiting attempt =>
    simp only at taken
    split at taken <;> cases taken
    · exact Or.inl ⟨_, rfl, trivial, rfl, rfl⟩
    · exact Or.inr (Or.inr (Or.inr ⟨rfl, fun _ => rfl⟩))
  | releasing forced rest released =>
    cases rest with
    | cons url rest => cases taken
    | nil =>
      cases taken
      exact Or.inr (Or.inr (Or.inr ⟨rfl, fun _ => rfl⟩))
  | extending rest count =>
    cases rest with
    | cons url rest => cases taken
    | nil =>
      cases taken
      refine Or.inr (Or.inr (Or.inl ⟨count, _, rfl, rfl, fun hyes => ?_⟩))
      rw [RedisLockManager.quorum]
      split at hyes
      · exact of_decide_eq_true hyes
      · -- one client, and it has answered
        have hsome := of_decide_eq_true hyes
        omega

/-- What is granted is granted to the owner of the call. -/
theorem owner_of_grants {first third : ℚ} {status : RedisStatus} {g : RedisGrant}
    (mem : g ∈ t.grants first third status) : g.owner = t.task.owner := by
  unfold grants at mem
  split at mem
  · rw [List.mem_singleton.mp mem]
  · rw [List.mem_singleton.mp mem]
  · cases mem

/-- A call that has returned does not go on. -/
theorem resume_eq_none {second : ℚ} {status : RedisStatus} (h : status.task? = none) :
    t.resume second status = none := by
  cases status with
  | running task => cases h
  | _ => rfl

/-- **What goes on is the same call**, in order. -/
theorem inside_resume (keys : RedisKeys) {second : ℚ} {pc : RedisPc}
    (uncounted : Uncounted t.task.manager pc)
    (apart : ∀ g ∈ granted, g.owner ≠ t.task.owner) (le : second ≤ now) :
    ∃ u, t.resume second (.running (t.task.goto pc)) = some u
      ∧ u.task.manager = t.task.manager ∧ u.task.owner = t.task.owner
      ∧ u.Inside now keys granted := by
  cases pc with
  | setting attempt rest count =>
    obtain ⟨rfl, rfl⟩ := uncounted
    refine ⟨_, rfl, rfl, rfl, ⟨le, List.suffix_refl _, fun _ => ?_⟩, apart⟩
    exact RedisLockManager.BackedUntil.zero _ keys _ _ _ _
  | rollingBack attempt rest => exact ⟨_, rfl, rfl, rfl, apart⟩
  | waiting attempt => exact ⟨_, rfl, rfl, rfl, apart⟩
  | releasing | extending => exact uncounted.elim

end ClockedTask

namespace ClockedWorld

variable {managers : ℕ → RedisLockManager} {w w' : ClockedWorld}

/-- **A grant is backed** by a quorum of some process, as long as it is valid. -/
def Backed (managers : ℕ → RedisLockManager) (now : ℚ) (keys : RedisKeys) (g : RedisGrant) :
    Prop :=
  now < g.expiresAt → ∃ p count, (managers p).quorum ≤ count
    ∧ (managers p).BackedUntil keys g.key g.owner g.expiresAt [] count

/-- **The invariant**: the tasks are calls of the managers, in order, each with an owner of its
thread; and what is granted is backed. An owner is the name of one thread, so what a script finds
under it the thread has set itself. -/
structure Sound (managers : ℕ → RedisLockManager) (w : ClockedWorld) : Prop where
  managed : ∀ i t, w.tasks i = some t → ∃ p, t.task.manager = managers p
  inside : ∀ i t, w.tasks i = some t → t.Inside w.now w.keys w.granted
  owned : ∀ i t, w.tasks i = some t → w.owners t.task.owner = some i
  known : ∀ g ∈ w.granted, w.owners g.owner ≠ none
  backed : ∀ g ∈ w.granted, Backed managers w.now w.keys g

theorem Backed.mono {now now' : ℚ} {keys keys' : RedisKeys} {g : RedisGrant}
    (h : Backed managers now keys g) (le : now ≤ now')
    (kept : now' < g.expiresAt → RedisKeys.Keeps keys keys' g.key g.owner g.expiresAt) :
    Backed managers now' keys' g := by
  intro live
  obtain ⟨p, count, hquorum, hbacked⟩ := h (le.trans_lt live)
  exact ⟨p, count, hquorum, hbacked.mono (kept live)⟩

theorem sound_init (managers : ℕ → RedisLockManager) : init.Sound managers where
  managed _ _ h := by cases h
  inside _ _ h := by cases h
  owned _ _ h := by cases h
  known _ h := absurd h List.not_mem_nil
  backed _ h := absurd h List.not_mem_nil

theorem tasks_update {i j : ℕ} {task : Option ClockedTask} {t : ClockedTask}
    (h : Function.update w.tasks i task j = some t) :
    j = i ∧ task = some t ∨ j ≠ i ∧ w.tasks j = some t := by
  by_cases hj : j = i
  · subst hj
    rw [Function.update_self] at h
    exact Or.inl ⟨rfl, h⟩
  · rw [Function.update_of_ne hj] at h
    exact Or.inr ⟨hj, h⟩

/-- **A thread makes a call.** Its owner belongs to it, and nobody else's grants are touched. -/
theorem Sound.begin (h : w.Sound managers) {i : ℕ} {task : Option ClockedTask}
    {moment : ℚ} {granted : List RedisGrant} {owners : String → Option ℕ}
    (idle : w.tasks i = none) (le : w.now ≤ moment)
    (fewer : granted ⊆ w.granted)
    (more : ∀ o j, w.owners o = some j → owners o = some j)
    (managed : ∀ t ∈ task, ∃ p, t.task.manager = managers p)
    (inside : ∀ t ∈ task, t.Inside moment w.keys granted)
    (owned : ∀ t ∈ task, owners t.task.owner = some i) :
    Sound managers { w with
      tasks := Function.update w.tasks i task
      now := moment
      granted := granted
      owners := owners } where
  managed j t ht := by
    obtain ⟨-, hnew⟩ | ⟨-, hold⟩ := tasks_update ht
    · exact managed t hnew
    · exact h.managed j t hold
  inside j t ht := by
    obtain ⟨-, hnew⟩ | ⟨-, hold⟩ := tasks_update ht
    · exact inside t hnew
    · exact (h.inside j t hold).mono le (fun _ => RedisKeys.Keeps.refl _ _ _ _)
        (fun g hg _ => fewer hg)
  owned j t ht := by
    obtain ⟨rfl, hnew⟩ | ⟨-, hold⟩ := tasks_update ht
    · exact owned t hnew
    · exact more _ j (h.owned j t hold)
  known g hg := by
    obtain ⟨j, hj⟩ := Option.ne_none_iff_exists'.mp (h.known g (fewer hg))
    show owners g.owner ≠ none
    rw [more _ j hj]
    exact Option.some_ne_none j
  backed g hg := (h.backed g (fewer hg)).mono le (fun _ => RedisKeys.Keeps.refl _ _ _ _)

/-- Another thread's task has another owner, since each owner belongs to the thread that first
used it. -/
theorem Sound.owner_ne (h : w.Sound managers) {i j : ℕ} {t u : ClockedTask}
    (ht : w.tasks i = some t) (hu : w.tasks j = some u) (ne : j ≠ i) :
    u.task.owner ≠ t.task.owner := by
  intro heq
  have hj := h.owned j u hu
  rw [heq, h.owned i t ht] at hj
  exact ne (Option.some.inj hj).symm

/-- **A call of a server.** As in the untimed model the cases are the places, but now every count
has a moment from which it lasts. -/
theorem Sound.call (h : w.Sound managers) (nodup : ∀ p, (managers p).clients.Nodup)
    {thread : ℕ} {outcome : CallOutcome} {moment : ℚ} (le : w.now ≤ moment)
    (taken : w.step managers (.call moment thread outcome) = some w') : w'.Sound managers := by
  obtain ⟨t, ht, hcall⟩ := Option.bind_eq_some_iff.mp taken
  obtain ⟨r, hr, rfl⟩ := Option.map_eq_some_iff.mp hcall
  have hin := h.inside thread t ht
  obtain ⟨p, hp⟩ := h.managed thread t ht
  obtain ⟨hmanager, howner⟩ := ClockedTask.call_same hr
  refine ⟨fun j u hu => ?_, fun j u hu => ?_, fun j u hu => ?_, h.known, fun g hg => ?_⟩
  · obtain ⟨rfl, hnew⟩ | ⟨-, hold⟩ := tasks_update hu
    · cases hnew
      exact ⟨p, hmanager.trans hp⟩
    · exact h.managed j u hold
  · obtain ⟨rfl, hnew⟩ | ⟨hj, hold⟩ := tasks_update hu
    · cases hnew
      exact hin.call (hp ▸ nodup p) le hr
    · refine (h.inside j u hold).mono le (fun live => ?_) (fun g hg _ => hg)
      exact ClockedTask.call_keeps hr live (hin.spares_other (h.owner_ne ht hold hj))
  · obtain ⟨rfl, hnew⟩ | ⟨-, hold⟩ := tasks_update hu
    · cases hnew
      rw [howner]
      exact h.owned j t ht
    · exact h.owned j u hold
  · refine (h.backed g hg).mono le (fun live => ?_)
    exact ClockedTask.call_keeps hr live (hin.spares le hg)

/-- **What a call grants is backed**, if the pause was short. -/
theorem Sound.backed_grants (h : w.Sound managers) {thread : ℕ} {t : ClockedTask}
    (ht : w.tasks thread = some t) {first second third : ℚ} {status : RedisStatus}
    (hproceed : t.proceed first = some status)
    (short : w.ShortPause (.proceed thread first second third)) (le : w.now ≤ third)
    {g : RedisGrant} (mem : g ∈ t.grants first third status) :
    Backed managers third w.keys g := by
  obtain ⟨p, hp⟩ := h.managed thread t ht
  have hin := h.inside thread t ht
  intro live
  obtain ⟨pc, rfl, -, -⟩ | ⟨attempt, count, rfl, hpc, hquorum, hvalid⟩ |
    ⟨count, yes, rfl, hpc, hquorum⟩ | ⟨-, hnone⟩ := ClockedTask.proceed_cases hproceed
  · cases mem
  · have hcomplete : t.complete = true := by
      rw [ClockedTask.complete, hpc]
      exact decide_eq_true hquorum
    have hpause := short t ht hcomplete hvalid
    obtain rfl := List.mem_singleton.mp mem
    have hends : third + t.terms.validity t.start first ≤ t.promise := by
      show third + (t.terms.ttlMs - (first - t.start) - t.terms.drift) ≤ t.start + t.terms.ttlMs
      linarith
    rw [ClockedTask.Inside, hpc] at hin
    obtain ⟨⟨-, -, hbacked⟩, -⟩ := hin
    refine ⟨p, count, hp ▸ hquorum, ?_⟩
    rw [← hp]
    exact (hbacked (le.trans_lt (live.trans_le hends))).anti hends
  · cases yes with
    | false => cases mem
    | true =>
      obtain rfl := List.mem_singleton.mp mem
      rw [ClockedTask.Inside, hpc] at hin
      obtain ⟨⟨-, -, hbacked⟩, -⟩ := hin
      refine ⟨p, count, hp ▸ hquorum rfl, ?_⟩
      rw [← hp]
      exact hbacked (le.trans_lt live)
  · rw [hnone third] at mem
    cases mem

/-- **What is done between the loops.** Here the clock is read, and whether what was counted
lasts long enough is decided. -/
theorem Sound.proceed (h : w.Sound managers) {thread : ℕ} {first second third : ℚ}
    (ordered : w.Ordered (.proceed thread first second third))
    (short : w.ShortPause (.proceed thread first second third))
    (taken : w.step managers (.proceed thread first second third) = some w') :
    w'.Sound managers := by
  obtain ⟨t, ht, hstatus⟩ := Option.bind_eq_some_iff.mp taken
  obtain ⟨status, hproceed, rfl⟩ := Option.map_eq_some_iff.mp hstatus
  obtain ⟨hfirst, hsecond, hthird⟩ := ordered
  have le : w.now ≤ third := hfirst.trans (hsecond.trans hthird)
  have hin := h.inside thread t ht
  obtain ⟨p, hp⟩ := h.managed thread t ht
  -- what goes on is the same call, and nothing has been granted to it
  have hresume : ∀ u, t.resume second status = some u → u.task.manager = t.task.manager
      ∧ u.task.owner = t.task.owner
      ∧ u.Inside third w.keys (t.grants first third status ++ w.granted) := by
    intro u hu
    obtain ⟨pc, rfl, hacquires, huncounted⟩ | ⟨_, _, rfl, -⟩ | ⟨_, _, rfl, -⟩ | ⟨hnone, -⟩ :=
      ClockedTask.proceed_cases hproceed
    · obtain ⟨u', hu', hsame⟩ := ClockedTask.inside_resume w.keys huncounted
        (hin.apart hacquires) hthird
      cases hu.symm.trans hu'
      exact hsame
    · cases hu
    · cases hu
    · cases hu.symm.trans (ClockedTask.resume_eq_none hnone)
  refine ⟨fun j u hu => ?_, fun j u hu => ?_, fun j u hu => ?_, fun g hg => ?_, fun g hg => ?_⟩
  · obtain ⟨rfl, hnew⟩ | ⟨-, hold⟩ := tasks_update hu
    · exact ⟨p, (hresume u hnew).1.trans hp⟩
    · exact h.managed j u hold
  · obtain ⟨rfl, hnew⟩ | ⟨hj, hold⟩ := tasks_update hu
    · exact (hresume u hnew).2.2
    · refine (h.inside j u hold).mono le (fun _ => RedisKeys.Keeps.refl _ _ _ _)
        (fun g hg howner => ?_)
      refine (List.mem_append.mp hg).resolve_left (fun hnew => h.owner_ne ht hold hj ?_)
      exact howner.symm.trans (ClockedTask.owner_of_grants hnew)
  · obtain ⟨rfl, hnew⟩ | ⟨-, hold⟩ := tasks_update hu
    · show w.owners u.task.owner = some j
      rw [(hresume u hnew).2.1]
      exact h.owned j t ht
    · exact h.owned j u hold
  · obtain hnew | hold := List.mem_append.mp hg
    · show w.owners g.owner ≠ none
      rw [ClockedTask.owner_of_grants hnew, h.owned thread t ht]
      exact Option.some_ne_none thread
    · exact h.known g hold
  · obtain hnew | hold := List.mem_append.mp hg
    · exact h.backed_grants ht hproceed short le hnew
    · exact (h.backed g hold).mono le (fun _ => RedisKeys.Keeps.refl _ _ _ _)

theorem begin_some {thread : ℕ} {task : Option ClockedTask} {moment : ℚ}
    (taken : w.begin moment thread task = some w') : w.tasks thread = none
      ∧ w' = { w with tasks := Function.update w.tasks thread task, now := moment } := by
  unfold begin at taken
  cases hfree : w.tasks thread with
  | some t => simp [hfree] at taken
  | none =>
    simp only [hfree, Option.some.injEq] at taken
    exact ⟨rfl, taken.symm⟩

/-- **A call of `acquire`**, with an owner of its own: nothing has been granted to it. -/
theorem Sound.acquire (h : w.Sound managers) {moment : ℚ} {thread process : ℕ} {terms : LeaseTerms}
    {resource owner : String} (le : w.now ≤ moment) (fresh : w.owners owner = none)
    (taken : w.step managers (.acquire moment thread process terms resource owner) = some w') :
    w'.Sound managers := by
  obtain ⟨hidle, rfl⟩ := begin_some taken
  have hmore : ∀ o j, w.owners o = some j →
      Function.update w.owners owner (some thread) o = some j := by
    intro o j hj
    rw [Function.update_of_ne (fun heq => ?_)]
    · exact hj
    · rw [heq, fresh] at hj
      cases hj
  refine h.begin hidle le (List.Subset.refl _) hmore (fun t ht => ?_) (fun t ht => ?_)
    (fun t ht => ?_)
  all_goals
    obtain ⟨task, htask, rfl⟩ := Option.map_eq_some_iff.mp ht
    obtain rfl := RedisLockManager.eq_of_acquire htask
  · exact ⟨process, rfl⟩
  · refine ⟨⟨le_rfl, List.suffix_refl _, fun _ => ?_⟩, fun g hg howner => ?_⟩
    · exact RedisLockManager.BackedUntil.zero _ w.keys _ _ _ _
    · exact h.known g hg (howner ▸ fresh)
  · exact Function.update_self ..

/-- **A call of `release`**, by the thread that acquired: the lock is given up. -/
theorem Sound.release (h : w.Sound managers) {moment : ℚ} {thread process : ℕ} {resource : String}
    {owner : Option String} (le : w.now ≤ moment) (named : owner.getD "" ≠ "")
    (own : w.owners (owner.getD "") = some thread)
    (taken : w.step managers (.release moment thread process resource owner) = some w') :
    w'.Sound managers := by
  obtain ⟨hidle, rfl⟩ := begin_some taken
  refine h.begin hidle le (List.filter_subset_self _) (fun _ _ hj => hj) (fun t ht => ?_)
    (fun t ht => ?_) (fun t ht => ?_)
  all_goals
    obtain ⟨task, htask, rfl⟩ := Option.map_eq_some_iff.mp ht
    obtain rfl := RedisLockManager.eq_of_release htask
  · exact ⟨process, rfl⟩
  · refine ⟨decide_eq_false named, fun g hg hkey howner => ?_⟩
    have hkept := (List.mem_filter.mp hg).2
    rw [show g.key = (managers process).key resource from hkey,
      show g.owner = owner.getD "" from howner] at hkept
    simp at hkept
  · exact own

/-- **A call of `extend`**, by the thread that acquired. -/
theorem Sound.extend (h : w.Sound managers) {moment : ℚ} {thread process : ℕ}
    {resource owner : String} {ttl : ℚ} (le : w.now ≤ moment)
    (disciplined : w.Disciplined managers (.extend moment thread process resource owner ttl))
    (taken : w.step managers (.extend moment thread process resource owner ttl) = some w') :
    w'.Sound managers := by
  obtain ⟨hidle, rfl⟩ := begin_some taken
  refine h.begin hidle le (List.Subset.refl _) (fun _ _ hj => hj) (fun t ht => ?_)
    (fun t ht => ?_) (fun t ht => ?_)
  all_goals
    obtain ⟨task, htask, rfl⟩ := Option.map_eq_some_iff.mp ht
    obtain rfl := RedisLockManager.eq_of_extend htask
  · exact ⟨process, rfl⟩
  · refine ⟨⟨le_rfl, List.suffix_refl _, fun _ => ?_⟩, disciplined.2⟩
    exact RedisLockManager.BackedUntil.zero _ w.keys _ _ _ _
  · exact disciplined.1

/-- **Every step that meets the condition keeps the invariant.** -/
theorem Sound.step (h : w.Sound managers) (nodup : ∀ p, (managers p).clients.Nodup)
    {l : ClockedStep} (fair : w.Fair managers l) (taken : w.step managers l = some w') :
    w'.Sound managers := by
  obtain ⟨ordered, disciplined, short⟩ := fair
  cases l with
  | acquire moment thread process terms resource owner =>
    exact h.acquire ordered disciplined.2 taken
  | release moment thread process resource owner =>
    exact h.release ordered disciplined.1 disciplined.2 taken
  | extend moment thread process resource owner ttl => exact h.extend ordered disciplined taken
  | call moment thread outcome => exact h.call nodup ordered taken
  | proceed thread first second third => exact h.proceed ordered short taken

/-! ## Exclusion -/

/-- **The locks exclude**: of the grants of one key that are not over, all have one owner. -/
def Excludes (w : ClockedWorld) : Prop :=
  ∀ g ∈ w.granted, ∀ g' ∈ w.granted, g.key = g'.key → w.now < g.expiresAt →
    w.now < g'.expiresAt → g.owner = g'.owner

/-- Two grants of one key share a server, which has one key. -/
theorem Sound.excludes (h : w.Sound managers)
    (overlap : ∀ p q, QuorumsMeet (managers p).clients.toFinset (managers p).quorum
      (managers q).clients.toFinset (managers q).quorum) : w.Excludes := by
  intro g hg g' hg' hkey live live'
  obtain ⟨p, n, hquorum, U, hU, hUcard, -, hUall⟩ := h.backed g hg live
  obtain ⟨q, n', hquorum', V, hV, hVcard, -, hVall⟩ := h.backed g' hg' live'
  obtain ⟨url, hurl⟩ := overlap p q U V hU hV (hquorum.trans hUcard.ge)
    (hquorum'.trans hVcard.ge)
  rw [Finset.mem_inter] at hurl
  obtain ⟨e, he, -⟩ := hUall url hurl.1
  obtain ⟨e', he', -⟩ := hVall url hurl.2
  rw [← hkey, he] at he'
  exact congrArg Prod.fst (Option.some.inj he')

/-- **Redis locks exclude in time.** For any number of threads of any number of processes whose
quorums meet, with any times to live, attempts, deadlines and failures of calls, and with any
time between two steps: in every run in which every acquire has an owner of its own, locks are
released and extended by who acquired them, and the pause before `expires_at` is within the
allowance for drift, no two owners ever have the lock of one key at a time at which neither
lock is over or given up. -/
theorem excludes_of_fair (managers : ℕ → RedisLockManager)
    (nodup : ∀ p, (managers p).clients.Nodup)
    (overlap : ∀ p q, QuorumsMeet (managers p).clients.toFinset (managers p).quorum
      (managers q).clients.toFinset (managers q).quorum)
    {ls : List ClockedStep} {w : ClockedWorld}
    (run : GuardedRun (step managers) (Fair managers) init ls w) : w.Excludes :=
  (run.invariant (sound_init managers) (fun _ _ _ h fair taken =>
    h.step nodup fair taken)).excludes overlap

/-- Three servers, which every process has reached. -/
def trio (_ : ℕ) : RedisLockManager := { clients := ["a", "b", "c"], retryCount := 1 }

/-- A call of `acquire` whose calls are all answered. -/
def attempt (thread : ℕ) (start : ℚ) (owner : String) : List ClockedStep :=
  .acquire start thread thread { ttl := 1 } "r" owner
    :: List.replicate 3 (.call (start + 1) thread .answered)
    ++ [.proceed thread (start + 2) (start + 2) (start + 3)]

/-- **Two processes want one resource**: the first gets it for a second, and has it extended by
two on two servers of three; the second is refused meanwhile, and gets it when that is over. -/
theorem excludes_one_after_the_other :
    ∃ w, GuardedRun (step trio) (Fair trio) init
        (attempt 0 0 "o" ++ .extend 500 0 0 "r" "o" 2 :: .call 501 0 .failed
          :: List.replicate 2 (.call 502 0 .answered) ++ .proceed 0 503 503 503
          :: attempt 1 1300 "p" ++ List.replicate 3 (.call 1400 1 .answered)
          ++ List.replicate 2 (.proceed 1 1400 1400 1400) ++ attempt 1 2600 "q") w
      ∧ w.granted = [⟨"lock:r", "q", 3589⟩, ⟨"lock:r", "o", 2500⟩, ⟨"lock:r", "o", 989⟩]
      ∧ w.Excludes := by
  obtain ⟨w, hrun, htest⟩ : ∃ w, GuardedRun (step trio) (Fair trio) init
        (attempt 0 0 "o" ++ .extend 500 0 0 "r" "o" 2 :: .call 501 0 .failed
          :: List.replicate 2 (.call 502 0 .answered) ++ .proceed 0 503 503 503
          :: attempt 1 1300 "p" ++ List.replicate 3 (.call 1400 1 .answered)
          ++ List.replicate 2 (.proceed 1 1400 1400 1400) ++ attempt 1 2600 "q") w
      ∧ decide (w.granted = [⟨"lock:r", "q", 3589⟩, ⟨"lock:r", "o", 2500⟩,
        ⟨"lock:r", "o", 989⟩]) = true :=
    GuardedRun.exists_of_replay (fun _ _ h => of_decide_eq_true h) (by decide +kernel)
  refine ⟨w, hrun, of_decide_eq_true htest,
    excludes_of_fair trio (fun _ => ?_) (fun _ _ => ?_) hrun⟩
  · show ["a", "b", "c"].Nodup
    decide
  · exact QuorumsMeet.majority (List.toFinset_card_le _)

end ClockedWorld

end JobOrchestrator
