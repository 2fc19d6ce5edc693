import Mathlib.Algebra.Order.Floor.Ring
import Mathlib.Data.Rat.Floor
import Mathlib.Tactic.Linarith
import JobOrchestrator.Locking.RedisRollback

/-!
# How long a Redis lock is valid

The call of `RedisCall`, with its times, in milliseconds: every step has the moments at which it
happens, and no moment is before an earlier one. The clocks of the servers are the client's.

`acquire` reads the clock at the start of an attempt, once more when the attempt is complete – the
time between them, and an allowance for drift, is taken off the time to live – and a third time for
`expires_at`, to which what is left is added. So what passes between the second and the third
reading is promised twice.
-/

namespace JobOrchestrator

/-- `int` of a number. -/
def truncate (x : ℚ) : ℤ := if 0 ≤ x then ⌊x⌋ else ⌈x⌉

/-- **The arguments of `acquire` that have to do with time**, and the manager's. -/
structure LeaseTerms where
  /-- In seconds. -/
  ttl : ℚ := 30
  clockDriftFactor : ℚ := 1 / 100
  deadline : Option ℚ := none

namespace LeaseTerms

variable (t : LeaseTerms)

/-- `ttl_ms`. It is cut off to whole milliseconds, as `int` does. -/
def ttlMs : ℚ := truncate (t.ttl * 1000)

/-- `drift`. It is taken off the validity, for the clocks of the servers may run apart. -/
def drift : ℚ := t.ttlMs * t.clockDriftFactor + 2

/-- `validity_time_ms`, where the attempt started and was complete at these moments. -/
def validity (start checked : ℚ) : ℚ := t.ttlMs - (checked - start) - t.drift

/-- The deadline is over. -/
def late (now : ℚ) : Bool := t.deadline.any (fun d => decide (d ≤ now))

end LeaseTerms

/-- **The times of a `LockInfo`.** -/
structure RedisLease where
  acquiredAt : ℚ
  expiresAt : ℚ

/-- **A call of `acquire` with its times.** The clock is read at some of the steps only; the
moments between are those at which the servers execute. -/
structure TimedCall where
  call : RedisCall
  /-- The last moment so far. -/
  now : ℚ
  /-- `start_time` of the attempt. -/
  start : ℚ
  /-- When the keys expire that the attempt has set. -/
  ends : List ℚ := []
  /-- What is returned. -/
  lease : Option RedisLease := none

/-- **A step at its moments.** -/
inductive TimedStep
  /-- The next call of a server, which executes it at this moment. -/
  | call (moment : ℚ) (outcome : CallOutcome)
  /-- What is done between the loops, with up to three readings of the clock. -/
  | proceed (first second third : ℚ)
  | elsewhere (moment : ℚ) (url : RedisUrl) (key : String) (value : Option String)

/-- The next call of a server sets a key: it is executed, and the key is free. -/
def RedisTask.sets (outcome : CallOutcome) (task : RedisTask) (servers : RedisServers) : Bool :=
  match task.pc with
  | .setting _ (url :: _) _ => decide (outcome ≠ .failed) && (servers url task.key).isNone
  | _ => false

namespace TimedCall

/-- `acquire`, up to its first call of a server. -/
def begin (m : RedisLockManager) (resource owner : String) (servers : RedisServers) (start : ℚ) :
    TimedCall where
  call := ⟨servers, .running ⟨m, m.key resource, owner, .setting 0 m.clients 0⟩⟩
  now := start
  start := start

/-- The attempt has its quorum. -/
def complete (c : TimedCall) : Bool :=
  match c.call.status with
  | .running ⟨m, _, _, .setting _ [] count⟩ => decide (m.quorum ≤ count)
  | _ => false

/-- **One step.** The first reading is compared with the deadline, or gives the elapsed time; the
second is `start_time` of the next attempt, or `acquired_at`. -/
def step (t : LeaseTerms) (c : TimedCall) : TimedStep → Option TimedCall
  | .call moment outcome => (c.call.step (.call outcome)).map (fun call =>
      { c with
        call := call
        now := moment
        ends := c.ends ++ (match c.call.status with
          | .running task =>
            if task.sets outcome c.call.servers then [moment + t.ttlMs] else []
          | _ => []) })
  | .proceed first second third =>
    (c.call.step (.proceed (decide (0 < t.validity c.start first)) (t.late first))).map (fun call =>
      match call.status with
      | .acquired =>
        { c with
          call := call
          now := third
          lease := some ⟨second, third + t.validity c.start first⟩ }
      | .running ⟨_, _, _, .setting _ _ _⟩ =>
        -- the next attempt
        { c with call := call, now := third, start := second, ends := [] }
      | _ => { c with call := call, now := third })
  | .elsewhere moment url key value => (c.call.step (.elsewhere url key value)).map (fun call =>
      { c with call := call, now := moment })

/-- **No moment is before an earlier one.** -/
def Ordered (c : TimedCall) : TimedStep → Prop
  | .call moment _ | .elsewhere moment _ _ _ => c.now ≤ moment
  | .proceed first second third => c.now ≤ first ∧ first ≤ second ∧ second ≤ third

/-- **The lease is valid**: it ends no later than any of the keys that were set for it, which
are those of the attempt that granted it. A key that an earlier attempt of the same call has
set, and whose roll-back failed, is no part of the quorum that the lease rests on, and is not
among them. -/
def Valid (c : TimedCall) : Prop := ∀ lease ∈ c.lease, ∀ e ∈ c.ends, lease.expiresAt ≤ e

/-- **The pause is short.** Where an attempt that is complete and still valid returns, no more time
passes between the reading that its validity is computed from and the reading that it is added to
than the allowance for drift, and what passed from the start of the attempt until a key was
set. -/
def ShortPause (t : LeaseTerms) (c : TimedCall) : TimedStep → Prop
  | .proceed first _ third => c.complete = true → 0 < t.validity c.start first →
      ∀ e ∈ c.ends, third - first ≤ t.drift + (e - t.ttlMs - c.start)
  | _ => True

instance decidableOrdered (c : TimedCall) : (l : TimedStep) → Decidable (c.Ordered l)
  | .call moment _ | .elsewhere moment _ _ _ => inferInstanceAs (Decidable (c.now ≤ moment))
  | .proceed first second third =>
    inferInstanceAs (Decidable (c.now ≤ first ∧ first ≤ second ∧ second ≤ third))

instance decidableShortPause (t : LeaseTerms) (c : TimedCall) :
    (l : TimedStep) → Decidable (c.ShortPause t l)
  | .proceed first _ third => inferInstanceAs (Decidable (c.complete = true →
      0 < t.validity c.start first →
        ∀ e ∈ c.ends, third - first ≤ t.drift + (e - t.ttlMs - c.start)))
  | .call .. | .elsewhere .. => isTrue trivial

variable {t : LeaseTerms} {c c' : TimedCall}

/-- **When an attempt returns a lock**: it is complete, and still valid. -/
theorem acquired_iff {valid late : Bool} {call : RedisCall}
    (taken : c.call.step (.proceed valid late) = some call) :
    call.status = .acquired ↔ c.complete = true ∧ valid = true := by
  obtain ⟨task, htask, hproceed⟩ := Option.bind_eq_some_iff.mp taken
  obtain ⟨status, hstatus, rfl⟩ := Option.map_eq_some_iff.mp hproceed
  rw [complete, RedisStatus.eq_running htask]
  obtain ⟨m, key, owner, pc⟩ := task
  unfold RedisTask.proceed at hstatus
  split at hstatus
  · rename_i attempt count hat
    obtain rfl : pc = .setting attempt [] count := hat
    by_cases hquorum : m.quorum ≤ count
    · rw [if_pos hquorum] at hstatus
      cases valid <;> cases hstatus <;> simp [hquorum]
    · rw [if_neg hquorum] at hstatus
      split at hstatus <;> cases hstatus <;> simp [hquorum]
  · rename_i hat
    obtain rfl := hat
    cases hstatus
    simp
  · rename_i hat
    obtain rfl := hat
    split at hstatus <;> cases hstatus <;> simp
  · rename_i hat
    obtain rfl := hat
    cases hstatus
    simp
  · rename_i hat
    obtain rfl := hat
    cases hstatus
    simp
  · cases hstatus

theorem valid_of_none (h : c.lease = none) : c.Valid := by
  intro lease hlease
  rw [h] at hlease
  cases hlease

/-- Only a call that has returned has a lease. -/
def Pending (c : TimedCall) : Prop := c.lease = none ∨ c.call.status = .acquired

theorem Pending.lease_eq_none (h : c.Pending) {task : RedisTask}
    (runs : c.call.status.task? = some task) : c.lease = none := by
  refine h.resolve_right (fun hstatus => ?_)
  rw [hstatus] at runs
  cases runs

/-- **The lease of a granted attempt** ends in time exactly where the pause was short. -/
theorem le_iff_shortPause (start first third e : ℚ) :
    third + t.validity start first ≤ e ↔ third - first ≤ t.drift + (e - t.ttlMs - start) := by
  rw [LeaseTerms.validity]
  constructor <;> intro h <;> linarith

/-- What a step between the loops does, where it does not return a lock. -/
theorem lease_proceed {first second third : ℚ}
    (taken : c.step t (.proceed first second third) = some c') :
    c'.call.status = .acquired ∧ c'.ends = c.ends
        ∧ c'.lease = some ⟨second, third + t.validity c.start first⟩
      ∨ c'.call.status ≠ .acquired ∧ c'.lease = c.lease := by
  obtain ⟨call, -, rfl⟩ := Option.map_eq_some_iff.mp taken
  split
  · rename_i hstatus
    exact Or.inl ⟨hstatus, rfl, rfl⟩
  · rename_i hstatus
    exact Or.inr ⟨fun h => (by cases hstatus.symm.trans h), rfl⟩
  · rename_i hnot _
    exact Or.inr ⟨hnot, rfl⟩

/-- **Every step but the last leaves nothing to be valid**, and the last leaves a valid lease
exactly where the pause was short. -/
theorem valid_step_iff (h : c.Pending) {l : TimedStep} (taken : c.step t l = some c') :
    c'.Pending ∧ (c'.Valid ↔ c.Valid ∧ c.ShortPause t l) := by
  cases l with
  | call moment outcome =>
    obtain ⟨call, hcall, rfl⟩ := Option.map_eq_some_iff.mp taken
    obtain ⟨task, htask, -⟩ := Option.bind_eq_some_iff.mp hcall
    have hnone := h.lease_eq_none htask
    exact ⟨Or.inl hnone, iff_of_true (valid_of_none hnone) ⟨valid_of_none hnone, trivial⟩⟩
  | elsewhere moment url key value =>
    cases taken
    exact ⟨h, (and_iff_left trivial).symm⟩
  | proceed first second third =>
    have hlease := lease_proceed taken
    obtain ⟨call, hcall, heq⟩ := Option.map_eq_some_iff.mp taken
    obtain ⟨task, htask, -⟩ := Option.bind_eq_some_iff.mp hcall
    have hnone := h.lease_eq_none htask
    have hsame : c'.call = call := by
      rw [← heq]
      split <;> rfl
    have hiff : c'.call.status = .acquired ↔ c.complete = true ∧ 0 < t.validity c.start first := by
      rw [hsame, acquired_iff hcall, decide_eq_true_eq]
    obtain ⟨hacquired, hends, hlease⟩ | ⟨hnot, hlease⟩ := hlease
    · obtain ⟨hcomplete, hpositive⟩ := hiff.mp hacquired
      refine ⟨Or.inr hacquired, ?_⟩
      rw [and_iff_right (valid_of_none hnone), Valid, hends, hlease]
      constructor
      · intro hvalid _ _ e he
        exact (le_iff_shortPause c.start first third e).mp (hvalid _ rfl e he)
      · rintro hshort _ ⟨⟩ e he
        exact (le_iff_shortPause c.start first third e).mpr (hshort hcomplete hpositive e he)
    · have hnone' := hlease.trans hnone
      refine ⟨Or.inl hnone', iff_of_true (valid_of_none hnone') ⟨valid_of_none hnone, ?_⟩⟩
      exact fun hcomplete hpositive => absurd (hiff.mpr ⟨hcomplete, hpositive⟩) hnot

/-- **A lease is valid exactly where the pause before it is short.** For every time to live, every
manager and everything its servers contain, in every run of `acquire` with whatever pauses between
its readings of the clock: what it returns ends no later than any key that was set for it,
if and only if, between the reading that the validity is computed from and the reading that it is
added to, no more time passes than the allowance for drift and what passed from the start of the
attempt until the key was set. -/
theorem valid_iff_shortPause (t : LeaseTerms) (m : RedisLockManager) (resource owner : String)
    (servers : RedisServers) (start : ℚ) {ls : List TimedStep} {c : TimedCall}
    (run : GuardedRun (step t) Ordered (begin m resource owner servers start) ls c) :
    c.Valid ↔ GuardedRun (step t) (fun c l => Ordered c l ∧ ShortPause t c l)
      (begin m resource owner servers start) ls c :=
  run.holds_iff (P := Valid) (I := Pending) (Or.inl rfl) (valid_of_none rfl)
    (fun _ _ _ h _ taken => (valid_step_iff h taken).1)
    (fun _ _ _ h _ taken => (valid_step_iff h taken).2)

/-- A lock of one server is got, the clock being read at once. -/
theorem valid_of_one_server :
    ∃ c, GuardedRun (step {}) Ordered (begin { clients := ["a"] } "r" "o" (fun _ _ => none) 0)
        [.call 1 .answered, .proceed 2 3 4] c
      ∧ c.lease.isSome = true ∧ c.Valid := by
  obtain ⟨c, hrun, hsome⟩ : ∃ c, GuardedRun (step {}) (fun c l => Ordered c l ∧ ShortPause {} c l)
        (begin { clients := ["a"] } "r" "o" (fun _ _ => none) 0)
        [.call 1 .answered, .proceed 2 3 4] c ∧ c.lease.isSome = true :=
    GuardedRun.exists_of_replay (fun _ _ h => of_decide_eq_true h) (by decide +kernel)
  have hordered := hrun.mono (fun _ _ h => h.1)
  exact ⟨c, hordered, hsome, (valid_iff_shortPause {} _ "r" "o" _ 0 hordered).mpr hrun⟩

/-- **A pause promises too much.** One server, and a time to live of a second: the key is set and
the validity computed at once, and half a second passes before it is added. The lease ends at
1488, and the key expires at 1000. -/
theorem pause_promises_too_much :
    ∃ c, GuardedRun (step { ttl := 1 }) Ordered
        (begin { clients := ["a"] } "r" "o" (fun _ _ => none) 0)
        [.call 0 .answered, .proceed 0 0 500] c
      ∧ c.call.servers "a" "lock:r" = some "o" ∧ c.ends = [1000]
      ∧ c.lease.map (fun lease => lease.expiresAt) = some 1488 ∧ ¬ c.Valid := by
  obtain ⟨c, hrun, htest⟩ : ∃ c, GuardedRun (step { ttl := 1 }) Ordered
        (begin { clients := ["a"] } "r" "o" (fun _ _ => none) 0)
        [.call 0 .answered, .proceed 0 0 500] c
      ∧ decide (c.call.servers "a" "lock:r" = some "o" ∧ c.ends = [1000]
        ∧ c.lease.map (fun lease => lease.expiresAt) = some 1488) = true :=
    GuardedRun.exists_of_replay (fun _ _ h => of_decide_eq_true h) (by decide +kernel)
  obtain ⟨hkey, hends, hlease⟩ := of_decide_eq_true htest
  refine ⟨c, hrun, hkey, hends, hlease, fun hvalid => ?_⟩
  obtain ⟨lease, hsome, hexpires⟩ := Option.map_eq_some_iff.mp hlease
  have hle := hvalid lease hsome 1000 (by rw [hends]; exact List.mem_cons_self)
  rw [hexpires] at hle
  norm_num at hle

/-! ## The allowance for drift -/

/-- **A key that an attempt sets expires** no earlier than a time to live after the start of the
attempt. -/
theorem start_le_ends {l : TimedStep} (ordered : c.Ordered l) (taken : c.step t l = some c')
    (h : c.start ≤ c.now ∧ ∀ e ∈ c.ends, c.start + t.ttlMs ≤ e) :
    c'.start ≤ c'.now ∧ ∀ e ∈ c'.ends, c'.start + t.ttlMs ≤ e := by
  cases l with
  | call moment outcome =>
    obtain ⟨call, -, rfl⟩ := Option.map_eq_some_iff.mp taken
    have hmoment : c.start ≤ moment := h.1.trans ordered
    refine ⟨hmoment, fun e he => ?_⟩
    obtain he | he := List.mem_append.mp he
    · exact h.2 e he
    · split at he
      · split at he
        · rw [List.mem_singleton.mp he]
          exact add_le_add_left hmoment _
        · cases he
      · cases he
  | elsewhere moment url key value =>
    cases taken
    exact ⟨h.1.trans ordered, h.2⟩
  | proceed first second third =>
    obtain ⟨hfirst, hsecond, hthird⟩ := ordered
    have hnow : c.start ≤ third := h.1.trans (hfirst.trans (hsecond.trans hthird))
    obtain ⟨call, -, rfl⟩ := Option.map_eq_some_iff.mp taken
    split
    · exact ⟨hnow, h.2⟩
    · exact ⟨hthird, fun e he => absurd he List.not_mem_nil⟩
    · exact ⟨hnow, h.2⟩

/-- **A pause that the allowance for drift covers** does no harm. -/
theorem valid_of_pause_le_drift (t : LeaseTerms) (m : RedisLockManager) (resource owner : String)
    (servers : RedisServers) (start : ℚ) {ls : List TimedStep} {c : TimedCall}
    (run : GuardedRun (step t) Ordered (begin m resource owner servers start) ls c)
    (short : ∀ first second third, .proceed first second third ∈ ls → third - first ≤ t.drift) :
    c.Valid := by
  have hkept : c.Pending ∧ (c.start ≤ c.now ∧ ∀ e ∈ c.ends, c.start + t.ttlMs ≤ e) ∧ c.Valid := by
    refine (run.and_labels (p := fun l => ∀ first second third, l = .proceed first second third →
      third - first ≤ t.drift) (fun l hl first second third hat => short first second third
        (hat ▸ hl))).invariant (P := fun c => c.Pending
          ∧ (c.start ≤ c.now ∧ ∀ e ∈ c.ends, c.start + t.ttlMs ≤ e) ∧ c.Valid)
      ⟨Or.inl rfl, ⟨le_rfl, fun e he => absurd he List.not_mem_nil⟩, valid_of_none rfl⟩ ?_
    rintro c l c' ⟨hpending, hends, hvalid⟩ ⟨ordered, hpause⟩ taken
    obtain ⟨hpending', hiff⟩ := valid_step_iff hpending taken
    refine ⟨hpending', start_le_ends ordered taken hends, hiff.mpr ⟨hvalid, ?_⟩⟩
    cases l with
    | call moment outcome => exact trivial
    | elsewhere moment url key value => exact trivial
    | proceed first second third =>
      intro _ _ e he
      have hend := hends.2 e he
      have hshort := hpause first second third rfl
      linarith
  exact hkept.2.2

end TimedCall

end JobOrchestrator
