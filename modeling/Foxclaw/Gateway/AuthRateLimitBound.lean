import Foxclaw.Gateway.AuthRateLimitHistory

/-!
# The limiter bounds guessing

The entry of a key may lag behind: attempts leave it when it is checked, pruned or charged, a lock
that has expired stays until a check clears it, and `prune` drops entries. What a check answers
depends on none of this: it is the verdict on the failures of the key (`Follows`).

## What is proved

* `Follows.check`, `Follows.fail`, `Follows.prune` — one operation on an entry.
* `key_next` — one step of the limiter is one step of the key, or none.
* `guessing_bounded` — in a run in which failures of the key are recorded only after a check that
  allowed it, a window has at most `maxAttempts` of them, rounded up; after so many every check is
  refused until `lockoutMs` has passed; and what happens to other keys, and pruning, change nothing.
* `closed_window_exceeds` — a window that has both its ends, and a `maxAttempts` that is not whole.
-/

namespace Foxclaw.Gateway.AuthRateLimit

open Function List Option
open Foxclaw.Runs (exec exec_cons_eq_some exec_nil Meets)
open Foxclaw.SlidingWindow (recent within recent_recent recent_eq_nil)

variable {env : AddressEnv} {config : RateLimitConfig} {key : String}

/-! ### The entry of a key -/

/-- The attempts of an entry. -/
def attemptsOf (entry : Option RateLimitEntry) : List ℚ := (entry.map (·.attempts)).getD []

/-- The entry of a key agrees with what happened, for all that a check can tell from now on. -/
structure Follows (config : RateLimitConfig) (entry : Option RateLimitEntry) (now : ℚ)
    (log : List KeyEvent) : Prop where
  /-- Nothing happened later. -/
  time : lastTime log ≤ now
  /-- The recent attempts are the recent failures. -/
  attempts : ∀ later, now ≤ later →
    recent config.windowMs later (attemptsOf entry) = recent config.windowMs later (failures log)
  /-- A lock is that of the failures. -/
  locked : ∀ e ∈ entry, ∀ lockedUntil ∈ e.lockedUntil, lockEnd config (failures log) = some lockedUntil
  /-- A lock of the failures that has not ended is there. -/
  locks : ∀ lockedUntil ∈ lockEnd config (failures log), now < lockedUntil →
    ∃ e ∈ entry, e.lockedUntil = some lockedUntil
  /-- After a check that was allowed there is no lock. -/
  cleared : lastAllowed log = true → ∀ e ∈ entry, e.lockedUntil = none

theorem Follows.nil : Follows config none 0 [] :=
  ⟨le_refl _, fun _ _ => rfl, by simp, by simp [lockEnd], by simp [lastAllowed]⟩

theorem Follows.later {entry : Option RateLimitEntry} {now : ℚ} {log : List KeyEvent}
    (h : Follows config entry now log) {later : ℚ} (hl : now ≤ later) : Follows config entry later log :=
  ⟨h.time.trans hl, fun t ht => h.attempts t (hl.trans ht), h.locked,
    fun u hu hlt => h.locks u hu (hl.trans_lt hlt), h.cleared⟩

section Entry

variable {now : ℚ} {log : List KeyEvent} (hwindow : 0 < config.windowMs)
  (hlockout : config.windowMs ≤ config.lockoutMs) (hlog : History config log)

include hwindow hlockout hlog

variable {e : RateLimitEntry}

/-- An entry is locked when its failures lock it. -/
theorem Follows.lockOf_eq (h : Follows config (some e) now log) :
    lockOf e now = (lockEnd config (failures log)).filter (now < ·) := by
  cases hend : lockEnd config (failures log) with
  | none =>
    have : e.lockedUntil = none := eq_none_iff_forall_not_mem.mpr fun u hu => by
      simpa [hend] using h.locked e rfl u hu
    rw [lockOf, this, filter_none, filter_none]
  | some u =>
    have hpos := (hlog.of_lockEnd hwindow hlockout hend).1
    by_cases hlt : now < u
    · obtain ⟨_, ⟨⟩, hu⟩ := h.locks u hend hlt
      simp [lockOf, hu, Option.filter, hlt, hpos.ne']
    · cases hlocked : e.lockedUntil with
      | none => simp [lockOf, hlocked, Option.filter, hlt]
      | some u' =>
        obtain rfl : u = u' := some.inj (hend.symm.trans (h.locked e rfl u' hlocked))
        simp [lockOf, hlocked, Option.filter, hlt]

omit hwindow hlockout hlog in
theorem Follows.not_locked (h : Follows config none now log) {u : ℚ}
    (hend : lockEnd config (failures log) = some u) : u ≤ now := by
  by_contra hlt
  obtain ⟨_, ⟨⟩, -⟩ := h.locks u hend (not_le.mp hlt)

/-- When the lock of an entry has ended, no failure is recent. -/
theorem Follows.expired (h : Follows config (some e) now log)
    (hexpired : lockExpired e now = true) : recent config.windowMs now (failures log) = [] := by
  obtain ⟨u, hu⟩ := isSome_iff_exists.mp hexpired
  obtain ⟨hlocked, hle⟩ := filter_eq_some_iff.mp hu
  simp only [Bool.and_eq_true, decide_eq_true_eq] at hle
  have hpast := (hlog.of_lockEnd hwindow hlockout (h.locked e rfl u hlocked)).2
  exact recent_eq_nil fun t ht => (hpast t ht).trans hle.2

omit hwindow hlockout hlog in
theorem Follows.slides {entry : Option RateLimitEntry} (h : Follows config entry now log) {later : ℚ}
    (hl : now ≤ later) : recent config.windowMs later (recent config.windowMs now (attemptsOf entry)) =
      recent config.windowMs later (failures log) := by
  rw [recent_recent hl, h.attempts later hl]

/-- What `check` makes of an entry that is not locked: the lock is gone, the attempts are the recent
failures. -/
theorem Follows.cleared_entry (h : Follows config (some e) now log) (hopen : lockOf e now = none) :
    slideWindow config (if lockExpired e now then ⟨[], none⟩ else e) now =
      ⟨recent config.windowMs now (failures log), none⟩ := by
  by_cases hexpired : lockExpired e now = true
  · rw [if_pos hexpired, h.expired hwindow hlockout hlog hexpired]
    rfl
  · have hnone : e.lockedUntil = none := eq_none_iff_forall_not_mem.mpr fun u hu => by
      have hpos := (hlog.of_lockEnd hwindow hlockout (h.locked e rfl u hu)).1
      rw [Option.mem_def] at hu
      rcases lt_or_ge now u with hlt | hle
      · simp [lockOf, hu, Option.filter, hlt, hpos.ne'] at hopen
      · simp [lockExpired, hu, Option.filter, hle, hpos.ne'] at hexpired
    rw [if_neg hexpired, ← h.attempts now le_rfl, ← hnone]
    rfl

/-- A check of an entry answers by the failures. -/
theorem Follows.check (h : Follows config (some e) now log) :
    (checkEntry config e now).2 = verdict config (failures log) now ∧
      Follows config (some (checkEntry config e now).1) now
        (log ++ [.checked now (verdict config (failures log) now)]) := by
  have hlock := h.lockOf_eq hwindow hlockout hlog
  unfold checkEntry verdict
  cases hend : (lockEnd config (failures log)).filter (now < ·) with
  | some u =>
    rw [hlock, hend]
    refine ⟨rfl, ?_, ?_, ?_, ?_, ?_⟩
    · simp
    · simpa using h.attempts
    · simpa using h.locked
    · simpa using h.locks
    · simp [lastAllowed]
  | none =>
    rw [hlock, hend]
    dsimp only
    rw [h.cleared_entry hwindow hlockout hlog (hlock.trans hend)]
    refine ⟨rfl, ?_, fun later hl => ?_, ?_, fun u hu hlt => ?_, ?_⟩
    · simp
    · simpa [attemptsOf] using recent_recent hl (failures log)
    · simp
    · rw [failures_append, failures_checked, failures_nil, append_nil, Option.mem_def] at hu
      simp [hu, Option.filter, hlt] at hend
    · simp

omit hlockout hlog in
/-- A failure is recorded after a check that was allowed. -/
theorem Follows.fail {entry : Option RateLimitEntry} (h : Follows config entry now log)
    (hallowed : lastAllowed log = true) :
    Follows config (some (failEntry config (entry.getD ⟨[], none⟩) now)) now (log ++ [.failed now]) := by
  have hnone : (entry.getD ⟨[], none⟩).lockedUntil = none := by
    cases entry with
    | none => rfl
    | some e => exact h.cleared hallowed e rfl
  have hslid : slideWindow config (entry.getD ⟨[], none⟩) now =
      ⟨recent config.windowMs now (failures log), none⟩ := by
    rw [← h.attempts now le_rfl, ← hnone]
    cases entry <;> rfl
  have hattempts (later : ℚ) (hl : now ≤ later) :
      recent config.windowMs later (recent config.windowMs now (failures log) ++ [now]) =
        recent config.windowMs later (failures log ++ [now]) := by
    rw [SlidingWindow.recent_append, SlidingWindow.recent_append, recent_recent hl]
  unfold failEntry
  rw [lockOf, hnone, filter_none]
  dsimp only
  rw [hslid]
  dsimp only
  have hend : lockEnd config (failures log ++ [now]) = _ := lockEnd_concat (failures log) now
  rw [SlidingWindow.recent_concat_self hwindow] at hend
  split
  · rename_i hfull
    rw [if_pos hfull] at hend
    refine ⟨by simp, by simpa [attemptsOf] using hattempts, ?_, ?_, by simp [lastAllowed]⟩
    · simpa using hend
    · simp [hend]
  · rename_i hfull
    rw [if_neg hfull] at hend
    exact ⟨by simp, by simpa [attemptsOf] using hattempts, by simp, by simp [hend], by simp⟩

/-- Pruning changes nothing that a check can tell. -/
theorem Follows.prune {entry : Option RateLimitEntry} (h : Follows config entry now log) :
    Follows config (entry.bind fun e => pruneEntry config e now) now log := by
  cases entry with
  | none => exact h
  | some e =>
    rw [bind_some, pruneEntry]
    cases hlock : lockOf e now with
    | some u => exact h
    | none =>
      have hlocks (u : ℚ) (hu : u ∈ lockEnd config (failures log)) (hlt : now < u) : False := by
        rw [h.lockOf_eq hwindow hlockout hlog, Option.mem_def.mp hu] at hlock
        simp [Option.filter, hlt] at hlock
      have hslides (later : ℚ) (hl : now ≤ later) := h.slides hl
      dsimp only
      split
      · rename_i hempty
        refine ⟨h.time, fun later hl => ?_, by simp, fun u hu hlt => (hlocks u hu hlt).elim, by simp⟩
        rw [← hslides later hl]
        exact congrArg _ (eq_nil_of_length_eq_zero hempty).symm
      · refine ⟨h.time, hslides, ?_, fun u hu hlt => (hlocks u hu hlt).elim, ?_⟩
        · simpa [slideWindow] using h.locked
        · simpa [slideWindow] using h.cleared

end Entry

/-! ### The key in the limiter -/

/-- What happened for a key. -/
def keyLog (s : State) (key : String) : List KeyEvent :=
  s.log.filterMap fun e => if e.1 = key then some e.2 else none

/-- What an action does for a key that is not exempt. -/
def keyOp (env : AddressEnv) (config : RateLimitConfig) (key : String) : Action → Option KeyOp
  | .check now rawIp rawScope =>
    if (resolveKey env rawIp rawScope).1 = key ∧ ¬ isExempt env config (resolveKey env rawIp rawScope).2 then
      some (.check now)
    else none
  | .recordFailure now rawIp rawScope =>
    if (resolveKey env rawIp rawScope).1 = key ∧ ¬ isExempt env config (resolveKey env rawIp rawScope).2 then
      some (.fail now)
    else none
  | .reset .. => none
  | .prune _ => none

/-- The action resets the key. -/
def Resets (env : AddressEnv) (key : String) : Action → Prop
  | .reset _ rawIp rawScope => (resolveKey env rawIp rawScope).1 = key
  | _ => False

instance (a : Action) : Decidable (Resets env key a) := by
  unfold Resets
  split <;> infer_instance

/-- Is a failure recorded? -/
def KeyOp.isFail : KeyOp → Bool
  | .fail _ => true
  | .check _ => false

/-- The caller does not reset the key, and records a failure for it only directly after a check that
allowed the attempt. -/
def Careful (env : AddressEnv) (config : RateLimitConfig) (key : String) (s : State) (a : Action) : Prop :=
  ¬ Resets env key a ∧ ∀ op ∈ keyOp env config key a, op.isFail = true → lastAllowed (keyLog s key) = true

instance (s : State) (a : Action) : Decidable (Careful env config key s a) := by
  unfold Careful
  infer_instance

/-- The limiter agrees with the history of the key. -/
structure KeyState (config : RateLimitConfig) (key : String) (s : State) (log : List KeyEvent) : Prop where
  log_eq : keyLog s key = log
  follows : Follows config (s.entries key) s.now log
  history : History config log

theorem KeyState.init : KeyState config key State.init [] :=
  ⟨rfl, Follows.nil, History.nil⟩

theorem keyLog_concat (s : State) (entries : String → Option RateLimitEntry) (now : ℚ) (k : String)
    (e : KeyEvent) : keyLog ⟨entries, now, s.log ++ [(k, e)]⟩ key =
      keyLog s key ++ if k = key then [e] else [] := by
  rw [keyLog, filterMap_append, ← keyLog]
  split <;> rename_i hk <;> simp [hk]

section Step

variable (hmax : 0 < config.maxAttempts) (hwindow : 0 < config.windowMs)
  (hlockout : config.windowMs ≤ config.lockoutMs)

include hmax hwindow hlockout

variable {rawIp rawScope : Option String}

variable {log log' : List KeyEvent}

theorem check_key {s : State} (h : KeyState config key s log)
    (hkey : (resolveKey env rawIp rawScope).1 = key)
    (hexempt : ¬ isExempt env config (resolveKey env rawIp rawScope).2 = true)
    (hnext : History config (log ++ [.checked s.now (verdict config (failures log) s.now)])) :
    KeyState config key (check env config s s.now rawIp rawScope).1
      (log ++ [.checked s.now (verdict config (failures log) s.now)]) := by
  subst hkey
  unfold check
  dsimp only
  rw [if_neg hexempt]
  cases hentry : s.entries (resolveKey env rawIp rawScope).1 with
  | none =>
    have hfollows := hentry ▸ h.follows
    have hrecent : recent config.windowMs s.now (failures log) = [] := (hfollows.attempts s.now le_rfl).symm
    have hverdict : verdict config (failures log) s.now = ⟨true, config.maxAttempts, 0⟩ := by
      rw [verdict_of_not_locked fun u hu => hfollows.not_locked hu, hrecent]
      simp [hmax, hmax.le]
    rw [hverdict] at hnext ⊢
    refine ⟨?_, ?_, hnext⟩
    · rw [keyLog_concat, if_pos rfl, h.log_eq]
    · rw [hentry]
      exact ⟨by simp, by simpa using hfollows.attempts, by simp, by simpa using hfollows.locks, by simp⟩
  | some e =>
    have hfollows := hentry ▸ h.follows
    obtain ⟨hresult, hnew⟩ := hfollows.check hwindow hlockout h.history
    dsimp only
    refine ⟨?_, ?_, hnext⟩
    · rw [keyLog_concat, if_pos rfl, h.log_eq, hresult]
    · dsimp only
      rw [Function.update_self]
      exact hnew

omit hmax hlockout in
theorem recordFailure_key {s : State} (h : KeyState config key s log)
    (hkey : (resolveKey env rawIp rawScope).1 = key)
    (hexempt : ¬ isExempt env config (resolveKey env rawIp rawScope).2 = true)
    (hallowed : lastAllowed log = true) (hnext : History config (log ++ [.failed s.now])) :
    KeyState config key (recordFailure env config s s.now rawIp rawScope) (log ++ [.failed s.now]) := by
  subst hkey
  unfold recordFailure
  dsimp only
  rw [if_neg hexempt]
  refine ⟨?_, ?_, hnext⟩
  · rw [keyLog_concat, if_pos rfl, h.log_eq]
  · dsimp only
    rw [Function.update_self]
    exact h.follows.fail hwindow hallowed

variable {s t : State}

variable {a : Action}

variable {op : KeyOp}

/-- A step of the limiter does for the key what its operation does to the history. -/
theorem key_next (h : KeyState config key s log) (hop : keyOp env config key a = some op)
    (hlog : keyNext config log op = some log') (hst : next env config s a = some t) :
    KeyState config key t log' := by
  obtain ⟨hnow, ⟨⟩⟩ := ite_none_right_eq_some.mp hst
  have hlater : KeyState config key { s with now := a.now } log :=
    ⟨h.log_eq, h.follows.later hnow, h.history⟩
  have hnext := h.history.next hlog
  cases a with
  | check now rawIp rawScope =>
    obtain ⟨⟨hkey, hexempt⟩, ⟨⟩⟩ := ite_none_right_eq_some.mp hop
    obtain ⟨-, ⟨⟩⟩ := ite_none_right_eq_some.mp hlog
    exact check_key hmax hwindow hlockout hlater hkey hexempt hnext
  | recordFailure now rawIp rawScope =>
    obtain ⟨⟨hkey, hexempt⟩, ⟨⟩⟩ := ite_none_right_eq_some.mp hop
    obtain ⟨⟨-, hallowed⟩, ⟨⟩⟩ := ite_none_right_eq_some.mp hlog
    exact recordFailure_key hwindow hlater hkey hexempt hallowed hnext
  | reset now rawIp rawScope => cases hop
  | prune now => cases hop

omit hmax hwindow hlockout in
/-- A careful step of the key is a step of its history. -/
theorem keyNext_of_careful (h : KeyState config key s log) (hop : keyOp env config key a = some op)
    (hcareful : ∀ op ∈ keyOp env config key a, op.isFail = true → lastAllowed (keyLog s key) = true)
    (hst : next env config s a = some t) : ∃ log', keyNext config log op = some log' := by
  obtain ⟨hnow, -⟩ := ite_none_right_eq_some.mp hst
  have htime := h.follows.time.trans hnow
  cases a with
  | check now rawIp rawScope =>
    obtain ⟨-, ⟨⟩⟩ := ite_none_right_eq_some.mp hop
    exact ⟨_, if_pos htime⟩
  | recordFailure now rawIp rawScope =>
    have hallowed := hcareful op hop
    obtain ⟨-, ⟨⟩⟩ := ite_none_right_eq_some.mp hop
    exact ⟨_, if_pos ⟨htime, h.log_eq ▸ hallowed rfl⟩⟩
  | reset now rawIp rawScope => cases hop
  | prune now => cases hop

omit hmax in
/-- Any other step leaves the history of the key as it is. -/
theorem key_next_other (h : KeyState config key s log) (hop : keyOp env config key a = none)
    (hreset : ¬ Resets env key a) (hst : next env config s a = some t) : KeyState config key t log := by
  obtain ⟨hnow, ⟨⟩⟩ := ite_none_right_eq_some.mp hst
  have hlater : KeyState config key { s with now := a.now } log :=
    ⟨h.log_eq, h.follows.later hnow, h.history⟩
  -- Another key's entry is set, and its event logged.
  have hother {k : String} (hk : k ≠ key) (entry : Option RateLimitEntry) (e : KeyEvent) :
      KeyState config key ⟨Function.update s.entries k entry, a.now, s.log ++ [(k, e)]⟩ log := by
    refine ⟨?_, ?_, h.history⟩
    · rw [keyLog_concat, if_neg hk, append_nil, h.log_eq]
    · dsimp only
      rw [update_of_ne hk.symm]
      exact hlater.follows
  cases a with
  | check now rawIp rawScope =>
    dsimp only
    unfold check
    dsimp only
    split
    · exact hlater
    · rename_i hexempt
      have hk : (resolveKey env rawIp rawScope).1 ≠ key := fun hk => by simp [keyOp, hk, hexempt] at hop
      split
      · refine ⟨?_, hlater.follows, h.history⟩
        rw [keyLog_concat, if_neg hk, append_nil, h.log_eq]
      · exact hother hk _ _
  | recordFailure now rawIp rawScope =>
    dsimp only
    unfold recordFailure
    dsimp only
    split
    · exact hlater
    · rename_i hexempt
      have hk : (resolveKey env rawIp rawScope).1 ≠ key := fun hk => by simp [keyOp, hk, hexempt] at hop
      exact hother hk _ _
  | reset now rawIp rawScope =>
    refine ⟨h.log_eq, ?_, h.history⟩
    dsimp only [reset]
    rw [update_of_ne (Ne.symm hreset)]
    exact hlater.follows
  | prune now => exact ⟨h.log_eq, hlater.follows.prune hwindow hlockout h.history, h.history⟩

variable {as : List Action}

/-- A run of the limiter is the run of the operations of the key, if that is one. -/
theorem key_exec (h : KeyState config key s log)
    (hops : exec (keyNext config) log (as.filterMap (keyOp env config key)) = some log')
    (hreset : ∀ a ∈ as, ¬ Resets env key a) (hst : exec (next env config) s as = some t) :
    KeyState config key t log' := by
  induction as generalizing s log with
  | nil =>
    rw [exec_nil] at hst
    rw [filterMap_nil, exec_nil] at hops
    exact some.inj hst ▸ some.inj hops ▸ h
  | cons a as ih =>
    obtain ⟨s', hs', hst⟩ := (exec_cons_eq_some _).mp hst
    have hreset' : ∀ a ∈ as, ¬ Resets env key a := fun b hb => hreset b (mem_cons_of_mem _ hb)
    cases hop : keyOp env config key a with
    | none =>
      rw [filterMap_cons_none hop] at hops
      exact ih (key_next_other hwindow hlockout h hop (hreset a mem_cons_self) hs') hops hreset' hst
    | some op =>
      rw [filterMap_cons_some hop] at hops
      obtain ⟨log₁, hlog₁, hops⟩ := (exec_cons_eq_some _).mp hops
      exact ih (key_next hmax hwindow hlockout h hop hlog₁ hs') hops hreset' hst

/-- A careful run is a run of the operations of the key. -/
theorem exec_key_of_careful
    (h : KeyState config key s log) (hcareful : Meets (next env config) (Careful env config key) s as)
    (hst : exec (next env config) s as = some t) :
    (∃ log', exec (keyNext config) log (as.filterMap (keyOp env config key)) = some log') ∧
      ∀ a ∈ as, ¬ Resets env key a := by
  induction as generalizing s log with
  | nil => exact ⟨⟨log, rfl⟩, by simp⟩
  | cons a as ih =>
    obtain ⟨s', hs', hst⟩ := (exec_cons_eq_some _).mp hst
    obtain ⟨⟨hreset, hfail⟩, hrest⟩ := hcareful
    cases hop : keyOp env config key a with
    | none =>
      obtain ⟨hlog', hresets⟩ := ih (key_next_other hwindow hlockout h hop hreset hs') (hrest s' hs') hst
      rw [filterMap_cons_none hop]
      exact ⟨hlog', forall_mem_cons.mpr ⟨hreset, hresets⟩⟩
    | some op =>
      obtain ⟨log₁, hlog₁⟩ := keyNext_of_careful h hop hfail hs'
      obtain ⟨⟨log', hlog'⟩, hresets⟩ :=
        ih (key_next hmax hwindow hlockout h hop hlog₁ hs') (hrest s' hs') hst
      refine ⟨⟨log', ?_⟩, forall_mem_cons.mpr ⟨hreset, hresets⟩⟩
      rw [filterMap_cons_some hop]
      exact (exec_cons_eq_some _).mpr ⟨log₁, hlog₁, hlog'⟩

end Step

/-! ### The bound -/

/-- Guessing is bounded. When the caller never resets the key and records a failure for it only
after a check that allowed the attempt: a window has at most `maxAttempts` failures, rounded up;
after `maxAttempts` failures of one window every check of the key is refused until `lockoutMs` has
passed; and another run with the same operations of the key, whatever it does for other keys and
whenever it prunes, has the same results for the key. -/
theorem guessing_bounded (hmax : 0 < config.maxAttempts) (hwindow : 0 < config.windowMs)
    (hlockout : config.windowMs ≤ config.lockoutMs) {as : List Action} {s : State}
    (hs : exec (next env config) State.init as = some s)
    (hcareful : Meets (next env config) (Careful env config key) State.init as) :
    (∀ start, (within config.windowMs start (failures (keyLog s key))).length ≤ ⌈config.maxAttempts⌉₊) ∧
    (∀ before last later, keyLog s key = before ++ .failed last :: later →
      (∃ start, last < start + config.windowMs ∧ config.maxAttempts ≤
        (within config.windowMs start (failures before ++ [last])).length) →
      ∀ e ∈ later, e.time < last + config.lockoutMs → e.IsRefused) ∧
    ∀ bs t, exec (next env config) State.init bs = some t → (∀ b ∈ bs, ¬ Resets env key b) →
      bs.filterMap (keyOp env config key) = as.filterMap (keyOp env config key) →
      keyLog t key = keyLog s key := by
  obtain ⟨⟨log, hlog⟩, hresets⟩ := exec_key_of_careful hmax hwindow hlockout KeyState.init hcareful hs
  have hstate := key_exec hmax hwindow hlockout KeyState.init hlog hresets hs
  rw [hstate.log_eq]
  refine ⟨hstate.history.bounded, hstate.history.refused, fun bs t ht hresets' hops => ?_⟩
  exact (key_exec hmax hwindow hlockout KeyState.init (hops ▸ hlog) hresets' ht).log_eq

/-! ### At the ends of a window -/

/-- Addresses stand for themselves. -/
def plainEnv : AddressEnv := ⟨id, fun ip => ip = "127.0.0.1"⟩

/-- Two attempts in a second. -/
def twoPerSecond : RateLimitConfig := { maxAttempts := 2, windowMs := 1000, lockoutMs := 1000 }

/-- An attempt that fails. -/
def failAt (now : ℚ) : List Action :=
  [.check now (some "203.0.113.9") none, .recordFailure now (some "203.0.113.9") none]

/-- Failures at the start and, twice, at the end of a second are three of them; and if one and a
half attempts are allowed in a second, there are two. -/
theorem closed_window_exceeds :
    (Meets (next plainEnv twoPerSecond) (Careful plainEnv twoPerSecond "default:203.0.113.9") State.init
        (failAt 0 ++ failAt 1000 ++ failAt 1000) ∧
      (exec (next plainEnv twoPerSecond) State.init (failAt 0 ++ failAt 1000 ++ failAt 1000)).map
        (fun s => ((failures (keyLog s "default:203.0.113.9")).filter fun t =>
          0 ≤ t ∧ t ≤ 0 + twoPerSecond.windowMs).length) = some 3) ∧
    Meets (next plainEnv { twoPerSecond with maxAttempts := 3 / 2 })
        (Careful plainEnv { twoPerSecond with maxAttempts := 3 / 2 } "default:203.0.113.9") State.init
        (failAt 0 ++ failAt 0) ∧
      (exec (next plainEnv { twoPerSecond with maxAttempts := 3 / 2 }) State.init
        (failAt 0 ++ failAt 0)).map
        (fun s => (failures (keyLog s "default:203.0.113.9")).length) = some 2 := by
  decide +kernel

/-- Two failures, a prune, and a check that is refused. -/
theorem guessing_bounded_locked :
    ∃ s, exec (next plainEnv twoPerSecond) State.init (failAt 0 ++ failAt 5 ++
        [.prune 6, .check 7 (some "203.0.113.9") none]) = some s ∧
      ∀ e ∈ [KeyEvent.checked 7 ⟨false, 0, 998⟩], e.time < 5 + 1000 → e.IsRefused := by
  have hlog : (exec (next plainEnv twoPerSecond) State.init (failAt 0 ++ failAt 5 ++
      [.prune 6, .check 7 (some "203.0.113.9") none])).map
      (fun s => keyLog s "default:203.0.113.9") =
        some ([.checked 0 ⟨true, 2, 0⟩, .failed 0, .checked 5 ⟨true, 1, 0⟩] ++
          .failed 5 :: [.checked 7 ⟨false, 0, 998⟩]) := by
    decide +kernel
  obtain ⟨s, hs, hlog⟩ := map_eq_some_iff.mp hlog
  have hcareful : Meets (next plainEnv twoPerSecond)
      (Careful plainEnv twoPerSecond "default:203.0.113.9") State.init (failAt 0 ++ failAt 5 ++
        [.prune 6, .check 7 (some "203.0.113.9") none]) := by decide +kernel
  exact ⟨s, hs, (guessing_bounded (by decide +kernel) (by decide +kernel) (by decide +kernel) hs
    hcareful).2.1 _ 5 _ hlog ⟨0, by decide +kernel, by decide +kernel⟩⟩

end Foxclaw.Gateway.AuthRateLimit
