import Mathlib.Data.List.ReduceOption
import Foxclaw.Agents.AuthProfileUsage

/-!
# Lazy clearing of cooldowns

A record that was cleared now and then stays close to one that never was (`Lagging`): the windows it
lacks have passed, and its counters are the same as long as they matter. Every operation keeps this, so
runs with and without `clearExpiredCooldowns` have the same active windows.

## What is proved

* `inCooldown_iff` — a profile is in cooldown as long as one of its windows is active.
* `Lagging.failure`, `Lagging.reset`, `Lagging.clear` — the operations keep the relation.
* `run_lagging` — so do runs.
* `cooldowns_bounded_and_independent` — windows that are active stay, new ones are bounded, and
  clearing changes no active window, now or later.
* `disable_longer_than_configured` — a disable window lasts a minute, even when less is configured.
-/

namespace Foxclaw.Agents.AuthProfiles

open Bool Function List Option

/-! ### Windows of a record -/

/-- One of the windows of a record ends there. -/
def EndsAt (stats : ProfileUsageStats) (u : ℚ) : Prop :=
  stats.cooldownUntil = some u ∨ stats.disabledUntil = some u

variable {stats : ProfileUsageStats}

variable {later now u : ℚ}

theorem mem_windows :
    u ∈ ([stats.cooldownUntil, stats.disabledUntil].reduceOption.filter (0 < ·)) ↔
      EndsAt stats u ∧ 0 < u := by
  simp [reduceOption_mem_iff, EndsAt, eq_comm]

theorem resolveProfileUnusableUntil_eq_none :
    resolveProfileUnusableUntil stats = none ↔ ∀ u, EndsAt stats u → u ≤ 0 := by
  rw [resolveProfileUnusableUntil, max?_eq_none_iff, eq_nil_iff_forall_not_mem]
  constructor
  · intro h u hu
    by_contra hpos
    exact h u (mem_windows.mpr ⟨hu, not_le.mp hpos⟩)
  · intro h u hu
    obtain ⟨hends, hpos⟩ := mem_windows.mp hu
    exact absurd hpos (not_lt.mpr (h u hends))

theorem resolveProfileUnusableUntil_spec (h : resolveProfileUnusableUntil stats = some u) :
    EndsAt stats u ∧ ∀ v, EndsAt stats v → v ≤ u := by
  obtain ⟨hmem, hmax⟩ := max?_eq_some_iff.mp h
  obtain ⟨hends, hpos⟩ := mem_windows.mp hmem
  refine ⟨hends, fun v hv => ?_⟩
  by_cases hv0 : 0 < v
  · exact hmax v (mem_windows.mpr ⟨hv, hv0⟩)
  · exact (not_lt.mp hv0).trans hpos.le

/-- A profile is in cooldown as long as one of its windows is active. -/
theorem inCooldown_iff (hnow : 0 ≤ now) : inCooldown stats now = true ↔ ∃ u, EndsAt stats u ∧ now < u := by
  unfold inCooldown
  cases h : resolveProfileUnusableUntil stats with
  | none =>
    rw [resolveProfileUnusableUntil_eq_none] at h
    constructor
    · intro hfalse
      cases hfalse
    · rintro ⟨u, hu, hlt⟩
      exact absurd (hnow.trans_lt hlt) (not_lt.mpr (h u hu))
  | some w =>
    obtain ⟨hends, hmax⟩ := resolveProfileUnusableUntil_spec h
    simp only [decide_eq_true_eq]
    exact ⟨fun hlt => ⟨w, hends, hlt⟩, fun ⟨u, hu, hlt⟩ => hlt.trans_le (hmax u hu)⟩

/-- The end of a window that is active. -/
def activeEnd (until? : Option ℚ) (now : ℚ) : Option ℚ := until?.filter (now < ·)

theorem activeEnd_eq_some {until? : Option ℚ} :
    activeEnd until? now = some u ↔ until? = some u ∧ now < u := by
  simp [activeEnd, filter_eq_some_iff]

theorem activeEnd_eq_none {until? : Option ℚ} :
    activeEnd until? now = none ↔ ∀ u, until? = some u → u ≤ now := by
  simp [activeEnd, filter_eq_none_iff]

/-- A window that is kept when it is active, and set anew when it is not. -/
theorem keepActiveWindowOrRecompute_eq (existingUntil : Option ℚ) (now recomputedUntil : ℚ) :
    keepActiveWindowOrRecompute existingUntil now recomputedUntil =
      (activeEnd existingUntil now).getD recomputedUntil := by
  cases existingUntil with
  | none => rfl
  | some u =>
    unfold keepActiveWindowOrRecompute activeEnd
    dsimp only
    split
    · rename_i h
      simp [Option.filter, h]
    · rename_i h
      simp [Option.filter, h]

/-! ### How long windows are -/

theorem calculateAuthProfileCooldownMs_pos (errorCount : ℕ) :
    0 < calculateAuthProfileCooldownMs errorCount := by
  unfold calculateAuthProfileCooldownMs
  exact lt_min (by norm_num) (by positivity)

theorem calculateAuthProfileCooldownMs_le (errorCount : ℕ) :
    calculateAuthProfileCooldownMs errorCount ≤ 60 * 60 * 1000 := min_le_left _ _

theorem calculateAuthProfileBillingDisableMsWithConfig_pos (errorCount : ℕ) (baseMs maxMs : ℚ) :
    0 < calculateAuthProfileBillingDisableMsWithConfig errorCount baseMs maxMs := by
  unfold calculateAuthProfileBillingDisableMsWithConfig
  have hbase : (0 : ℚ) < max 60000 baseMs := lt_max_of_lt_left (by norm_num)
  exact lt_min (lt_max_of_lt_left hbase) (mul_pos hbase (by positivity))

theorem calculateAuthProfileBillingDisableMsWithConfig_le (errorCount : ℕ) (baseMs maxMs : ℚ) :
    calculateAuthProfileBillingDisableMsWithConfig errorCount baseMs maxMs ≤
      max 60000 (max baseMs maxMs) :=
  (min_le_left _ _).trans_eq (max_assoc _ _ _)

/-! ### Failures -/

section Failure

variable (existing : ProfileUsageStats) (now : ℚ) (reason : AuthProfileFailureReason)
  (cfgResolved : ResolvedAuthCooldownConfig)

/-- How long a window set by the failure lasts. -/
def backoffMs : ℚ :=
  let reset := shouldResetCounters existing now cfgResolved
  if disables reason then
    calculateAuthProfileBillingDisableMsWithConfig (nextFailureCounts existing reset reason reason)
      cfgResolved.billingBackoffMs cfgResolved.billingMaxMs
  else calculateAuthProfileCooldownMs (nextErrorCount existing reset)

theorem backoffMs_pos : 0 < backoffMs existing now reason cfgResolved := by
  unfold backoffMs
  dsimp only
  split
  · exact calculateAuthProfileBillingDisableMsWithConfig_pos _ _ _
  · exact calculateAuthProfileCooldownMs_pos _

/-- What becomes of a window of which the failure says how it goes on. -/
def nextEnd (until? : Option ℚ) : ℚ :=
  (activeEnd until? now).getD (now + backoffMs existing now reason cfgResolved)

theorem lt_nextEnd (until? : Option ℚ) : now < nextEnd existing now reason cfgResolved until? := by
  unfold nextEnd
  cases h : activeEnd until? now with
  | none =>
    have := backoffMs_pos existing now reason cfgResolved
    show now < now + _
    linarith
  | some u => exact (activeEnd_eq_some.mp h).2

theorem computeNext_cooldownUntil :
    (computeNextProfileUsageStats existing now reason cfgResolved).cooldownUntil =
      if disables reason then existing.cooldownUntil
      else some (nextEnd existing now reason cfgResolved existing.cooldownUntil) := by
  unfold computeNextProfileUsageStats nextEnd backoffMs
  dsimp only
  split <;> simp [keepActiveWindowOrRecompute_eq]

theorem computeNext_disabledUntil :
    (computeNextProfileUsageStats existing now reason cfgResolved).disabledUntil =
      if disables reason then some (nextEnd existing now reason cfgResolved existing.disabledUntil)
      else existing.disabledUntil := by
  unfold computeNextProfileUsageStats nextEnd backoffMs
  dsimp only
  split <;> simp [keepActiveWindowOrRecompute_eq]

theorem computeNext_counters :
    (computeNextProfileUsageStats existing now reason cfgResolved).errorCount =
        some (nextErrorCount existing (shouldResetCounters existing now cfgResolved)) ∧
      (computeNextProfileUsageStats existing now reason cfgResolved).failureCounts =
        nextFailureCounts existing (shouldResetCounters existing now cfgResolved) reason ∧
      (computeNextProfileUsageStats existing now reason cfgResolved).lastFailureAt = some now := by
  unfold computeNextProfileUsageStats
  dsimp only
  split <;> exact ⟨rfl, rfl, rfl⟩

theorem exists_endsAt_computeNext :
    ∃ u, EndsAt (computeNextProfileUsageStats existing now reason cfgResolved) u ∧ now < u := by
  by_cases h : disables reason = true
  · exact ⟨_, Or.inr (by rw [computeNext_disabledUntil, if_pos h]), lt_nextEnd _ _ _ _ _⟩
  · exact ⟨_, Or.inl (by rw [computeNext_cooldownUntil, if_neg h]), lt_nextEnd _ _ _ _ _⟩

end Failure

/-! ### Records that lag -/

/-- A window, and the same window where it may have been cleared after it passed. -/
def Passed (now : ℚ) (until? cleared? : Option ℚ) : Prop :=
  until? = cleared? ∨ cleared? = none ∧ ∃ u, until? = some u ∧ 0 < u ∧ u ≤ now

/-- Counters that are the same and will be reset at the same time. -/
structure SameCounters (a b : ProfileUsageStats) : Prop where
  errors : a.errorCount.getD 0 = b.errorCount.getD 0
  failures : a.failureCounts = b.failureCounts
  /-- A window is left in both or in none. -/
  windows : resolveProfileUnusableUntil a = none ↔ resolveProfileUnusableUntil b = none

/-- The next failure resets the counters: every window has passed. -/
def Expired (now : ℚ) (a : ProfileUsageStats) : Prop :=
  ∃ u, resolveProfileUnusableUntil a = some u ∧ u ≤ now

/-- The counters have been reset with the last window. -/
structure Fresh (b : ProfileUsageStats) : Prop where
  /-- No window is left. -/
  windows : resolveProfileUnusableUntil b = none
  errors : b.errorCount.getD 0 = 0
  failures : b.failureCounts = fun _ => 0

/-- A record that was never cleared, and one that may have been. -/
structure Lagging (now : ℚ) (a b : ProfileUsageStats) : Prop where
  cooldown : Passed now a.cooldownUntil b.cooldownUntil
  disabled : Passed now a.disabledUntil b.disabledUntil
  failureAt : a.lastFailureAt = b.lastFailureAt
  /-- The counters are the same, or will be at the next failure. -/
  counters : SameCounters a b ∨ Expired now a ∧ Fresh b

theorem Passed.refl (now : ℚ) (until? : Option ℚ) : Passed now until? until? := Or.inl rfl

variable {until? cleared? : Option ℚ}

theorem Passed.mono (h : Passed now until? cleared?) (hle : now ≤ later) : Passed later until? cleared? := by
  rcases h with rfl | ⟨hnone, u, hu, hpos, hpast⟩
  · exact Or.inl rfl
  · exact Or.inr ⟨hnone, u, hu, hpos, hpast.trans hle⟩

/-- A window that was cleared is not active. -/
theorem Passed.activeEnd_eq {now t : ℚ} (h : Passed now until? cleared?)
    (hle : now ≤ t) : activeEnd until? t = activeEnd cleared? t := by
  rcases h with rfl | ⟨rfl, u, rfl, -, hpast⟩
  · rfl
  · show activeEnd (some u) t = none
    rw [activeEnd_eq_none]
    intro v hv
    cases hv
    exact hpast.trans hle

theorem inCooldown_eq_activeEnd (hnow : 0 ≤ now) :
    inCooldown stats now =
      ((activeEnd stats.cooldownUntil now).isSome || (activeEnd stats.disabledUntil now).isSome) := by
  rw [Bool.eq_iff_iff, inCooldown_iff hnow, or_eq_true, isSome_iff_exists, isSome_iff_exists]
  simp only [activeEnd_eq_some, EndsAt]
  constructor
  · rintro ⟨u, hu | hu, hlt⟩
    · exact Or.inl ⟨u, hu, hlt⟩
    · exact Or.inr ⟨u, hu, hlt⟩
  · rintro (⟨u, hu, hlt⟩ | ⟨u, hu, hlt⟩)
    · exact ⟨u, Or.inl hu, hlt⟩
    · exact ⟨u, Or.inr hu, hlt⟩

theorem Lagging.refl (now : ℚ) (a : ProfileUsageStats) : Lagging now a a :=
  ⟨Passed.refl _ _, Passed.refl _ _, rfl, Or.inl ⟨rfl, rfl, Iff.rfl⟩⟩

variable {a b : ProfileUsageStats}

theorem Lagging.mono (h : Lagging now a b) (hle : now ≤ later) : Lagging later a b := by
  refine ⟨h.cooldown.mono hle, h.disabled.mono hle, h.failureAt, ?_⟩
  rcases h.counters with hsame | ⟨⟨u, hu, hpast⟩, hfresh⟩
  · exact Or.inl hsame
  · exact Or.inr ⟨⟨u, hu, hpast.trans hle⟩, hfresh⟩

theorem Lagging.inCooldown_eq {now t : ℚ} (h : Lagging now a b) (hle : now ≤ t)
    (ht : 0 ≤ t) : inCooldown a t = inCooldown b t := by
  rw [inCooldown_eq_activeEnd ht, inCooldown_eq_activeEnd ht, h.cooldown.activeEnd_eq hle,
    h.disabled.activeEnd_eq hle]

theorem expired_iff {a : ProfileUsageStats} :
    Expired now a ↔ resolveProfileUnusableUntil a ≠ none ∧ inCooldown a now = false := by
  unfold Expired inCooldown
  cases resolveProfileUnusableUntil a with
  | none => simp
  | some u => simp

theorem previousCooldownExpired_iff {a : ProfileUsageStats} :
    previousCooldownExpired a now = true ↔ Expired now a := by
  unfold Expired previousCooldownExpired
  cases resolveProfileUnusableUntil a with
  | none => simp
  | some u => simp

theorem shouldResetCounters_of_expired {a : ProfileUsageStats} (h : Expired now a)
    (cfgResolved : ResolvedAuthCooldownConfig) : shouldResetCounters a now cfgResolved = true := by
  rw [shouldResetCounters, previousCooldownExpired_iff.mpr h, Bool.or_true]

/-- Without cleared counters, both records are reset or none is. -/
theorem SameCounters.shouldReset_eq (h : SameCounters a b) (hcooldown : inCooldown a now = inCooldown b now)
    (hfailure : a.lastFailureAt = b.lastFailureAt) (cfgResolved : ResolvedAuthCooldownConfig) :
    shouldResetCounters a now cfgResolved = shouldResetCounters b now cfgResolved := by
  have hexpired : previousCooldownExpired a now = previousCooldownExpired b now := by
    rw [Bool.eq_iff_iff, previousCooldownExpired_iff, previousCooldownExpired_iff, expired_iff,
      expired_iff, ne_eq, ne_eq, h.windows, hcooldown]
  rw [shouldResetCounters, shouldResetCounters, failureWindowExpired, failureWindowExpired, hfailure,
    hexpired]

/-- The next failure counts the same in both records. -/
theorem Lagging.counters_eq (h : Lagging now a b) (hnow : 0 ≤ now)
    (reason : AuthProfileFailureReason) (cfgResolved : ResolvedAuthCooldownConfig) :
    nextErrorCount a (shouldResetCounters a now cfgResolved) =
        nextErrorCount b (shouldResetCounters b now cfgResolved) ∧
      nextFailureCounts a (shouldResetCounters a now cfgResolved) reason =
        nextFailureCounts b (shouldResetCounters b now cfgResolved) reason := by
  rcases h.counters with hsame | ⟨hexpired, hfresh⟩
  · have hreset := hsame.shouldReset_eq (h.inCooldown_eq le_rfl hnow) h.failureAt cfgResolved
    rw [hreset]
    unfold nextErrorCount nextFailureCounts
    rw [hsame.errors, hsame.failures]
    exact ⟨rfl, rfl⟩
  · rw [shouldResetCounters_of_expired hexpired cfgResolved]
    unfold nextErrorCount nextFailureCounts
    rw [hfresh.errors, hfresh.failures]
    simp

theorem resolve_ne_none (h : EndsAt stats u) (hpos : 0 < u) : resolveProfileUnusableUntil stats ≠ none := by
  intro hnone
  exact absurd hpos (not_lt.mpr (resolveProfileUnusableUntil_eq_none.mp hnone u h))

/-- A failure treats both records alike. -/
theorem Lagging.failure (h : Lagging now a b) (hnow : 0 ≤ now)
    (reason : AuthProfileFailureReason) (cfgResolved : ResolvedAuthCooldownConfig) :
    Lagging now (computeNextProfileUsageStats a now reason cfgResolved)
      (computeNextProfileUsageStats b now reason cfgResolved) := by
  obtain ⟨herrors, hfailures⟩ := h.counters_eq hnow reason cfgResolved
  have hbackoff : backoffMs a now reason cfgResolved = backoffMs b now reason cfgResolved := by
    unfold backoffMs
    dsimp only
    rw [herrors, hfailures]
  have hnext (w w' : Option ℚ) (hw : Passed now w w') :
      nextEnd a now reason cfgResolved w = nextEnd b now reason cfgResolved w' := by
    rw [nextEnd, nextEnd, hw.activeEnd_eq le_rfl, hbackoff]
  have hleft (c : ProfileUsageStats) :
      resolveProfileUnusableUntil (computeNextProfileUsageStats c now reason cfgResolved) ≠ none := by
    obtain ⟨u, hends, hlt⟩ := exists_endsAt_computeNext c now reason cfgResolved
    exact resolve_ne_none hends (hnow.trans_lt hlt)
  obtain ⟨hae, haf, hat⟩ := computeNext_counters a now reason cfgResolved
  obtain ⟨hbe, hbf, hbt⟩ := computeNext_counters b now reason cfgResolved
  refine ⟨?_, ?_, by rw [hat, hbt], Or.inl ⟨?_, ?_, ?_⟩⟩
  · rw [computeNext_cooldownUntil, computeNext_cooldownUntil]
    split
    · exact h.cooldown
    · exact Or.inl (by rw [hnext _ _ h.cooldown])
  · rw [computeNext_disabledUntil, computeNext_disabledUntil]
    split
    · exact Or.inl (by rw [hnext _ _ h.disabled])
    · exact h.disabled
  · rw [hae, hbe, herrors]
  · rw [haf, hbf, hfailures]
  · exact iff_of_false (hleft a) (hleft b)

theorem Lagging.reset (h : Lagging now a b) (lastUsed : ℚ) :
    Lagging now (resetUsageStats a lastUsed) (resetUsageStats b lastUsed) :=
  ⟨Or.inl rfl, Or.inl rfl, h.failureAt, Or.inl ⟨rfl, rfl, Iff.rfl⟩⟩

/-- What clearing leaves of a window. -/
def clearedWindow (until? : Option ℚ) (now : ℚ) : Option ℚ :=
  if windowExpired until? now then none else until?

theorem windowExpired_iff {until? : Option ℚ} :
    windowExpired until? now = true ↔ ∃ u, until? = some u ∧ 0 < u ∧ u ≤ now := by
  unfold windowExpired
  cases until? with
  | none => simp
  | some u => simp

theorem Passed.clear (h : Passed now until? cleared?) : Passed now until? (clearedWindow cleared? now) := by
  unfold clearedWindow
  split
  · rename_i hexpired
    rcases h with rfl | ⟨-, hpast⟩
    · exact Or.inr ⟨rfl, windowExpired_iff.mp hexpired⟩
    · exact Or.inr ⟨rfl, hpast⟩
  · exact h

/-- The record with its windows cleared, before its counters are. -/
def clearedWindows (stats : ProfileUsageStats) (now : ℚ) : ProfileUsageStats :=
  { stats with
    cooldownUntil := clearedWindow stats.cooldownUntil now
    disabledUntil := clearedWindow stats.disabledUntil now
    disabledReason := if windowExpired stats.disabledUntil now then none else stats.disabledReason }

theorem clearExpired_eq (stats : ProfileUsageStats) (now : ℚ) :
    clearExpired stats now =
      if (windowExpired stats.cooldownUntil now || windowExpired stats.disabledUntil now) &&
          (resolveProfileUnusableUntil (clearedWindows stats now)).isNone then
        { clearedWindows stats now with errorCount := some 0, failureCounts := fun _ => 0 }
      else clearedWindows stats now := rfl

theorem Lagging.clear (h : Lagging now a b) (hnow : 0 ≤ now) : Lagging now a (clearExpired b now) := by
  have hcooldown : Passed now a.cooldownUntil (clearedWindow b.cooldownUntil now) := h.cooldown.clear
  have hdisabled : Passed now a.disabledUntil (clearedWindow b.disabledUntil now) := h.disabled.clear
  have hactive : inCooldown a now = inCooldown (clearedWindows b now) now := by
    rw [inCooldown_eq_activeEnd hnow, inCooldown_eq_activeEnd hnow, hcooldown.activeEnd_eq le_rfl,
      hdisabled.activeEnd_eq le_rfl]
    rfl
  have hleft : resolveProfileUnusableUntil (clearedWindows b now) ≠ none →
      resolveProfileUnusableUntil b ≠ none := by
    intro hsome hnone
    rw [resolveProfileUnusableUntil_eq_none] at hnone
    refine hsome (resolveProfileUnusableUntil_eq_none.mpr fun u hu => ?_)
    refine hnone u (hu.imp (fun hc => ?_) (fun hd => ?_))
    · simp only [clearedWindows, clearedWindow] at hc
      split at hc
      · cases hc
      · exact hc
    · simp only [clearedWindows, clearedWindow] at hd
      split at hd
      · cases hd
      · exact hd
  have hmutated : (windowExpired b.cooldownUntil now || windowExpired b.disabledUntil now) = true →
      resolveProfileUnusableUntil b ≠ none := by
    intro hexpired
    rcases or_eq_true_iff.mp hexpired with hc | hd
    · obtain ⟨u, hu, hpos, -⟩ := windowExpired_iff.mp hc
      exact resolve_ne_none (Or.inl hu) hpos
    · obtain ⟨u, hu, hpos, -⟩ := windowExpired_iff.mp hd
      exact resolve_ne_none (Or.inr hu) hpos
  rw [clearExpired_eq]
  split
  · rename_i hcleared
    obtain ⟨hexpired, hnone⟩ := and_eq_true_iff.mp hcleared
    rw [isNone_iff_eq_none] at hnone
    refine ⟨hcooldown, hdisabled, h.failureAt, Or.inr ⟨?_, hnone, rfl, rfl⟩⟩
    rcases h.counters with hsame | ⟨hpast, -⟩
    · refine expired_iff.mpr ⟨fun ha => hmutated hexpired (hsame.windows.mp ha), ?_⟩
      rw [hactive, inCooldown, hnone]
    · exact hpast
  · rename_i hkept
    refine ⟨hcooldown, hdisabled, h.failureAt, ?_⟩
    rcases h.counters with hsame | ⟨hpast, hfresh⟩
    · refine Or.inl ⟨hsame.errors, hsame.failures, hsame.windows.trans ⟨fun hnone => ?_, fun hnone => ?_⟩⟩
      · by_contra hsome
        exact hleft hsome hnone
      · by_contra hsome
        have hunexpired : ¬(windowExpired b.cooldownUntil now || windowExpired b.disabledUntil now) = true := by
          intro hexpired
          exact hkept (by rw [hexpired, hnone]; rfl)
        rw [not_eq_true, or_eq_false_iff] at hunexpired
        refine hsome ?_
        have hwindows : clearedWindows b now =
            { b with disabledReason := b.disabledReason } := by
          simp [clearedWindows, clearedWindow, hunexpired.1, hunexpired.2]
        rw [hwindows] at hnone
        exact hnone
    · refine Or.inr ⟨hpast, ?_, hfresh.errors, hfresh.failures⟩
      by_contra hsome
      exact hleft hsome hfresh.windows

/-! ### Runs -/

variable (env : ProfileEnv)

/-- Records that lag, profile by profile. -/
def LaggingUsage (now : ℚ) (usage usage' : Usage) : Prop :=
  ∀ profileId, (usage profileId = none ∧ usage' profileId = none) ∨
    ∃ a b, usage profileId = some a ∧ usage' profileId = some b ∧ Lagging now a b

/-- A run without clearing, and one with it. -/
structure Follows (now : ℚ) (plain cleared : Copies) : Prop where
  /-- Without clearing both copies are the same. -/
  same : plain.disk = plain.memory
  disk : LaggingUsage now plain.disk cleared.disk
  /-- Memory lags. -/
  memory : LaggingUsage now plain.disk cleared.memory

theorem LaggingUsage.refl (now : ℚ) (usage : Usage) : LaggingUsage now usage usage := by
  intro profileId
  cases h : usage profileId with
  | none => exact Or.inl ⟨rfl, rfl⟩
  | some stats => exact Or.inr ⟨stats, stats, rfl, rfl, Lagging.refl now stats⟩

variable {usage usage' : Usage}

theorem LaggingUsage.mono (h : LaggingUsage now usage usage')
    (hle : now ≤ later) : LaggingUsage later usage usage' := by
  intro profileId
  rcases h profileId with hnone | ⟨a, b, ha, hb, hlag⟩
  · exact Or.inl hnone
  · exact Or.inr ⟨a, b, ha, hb, hlag.mono hle⟩

variable {updater : ProfileUsageStats → ProfileUsageStats}

theorem LaggingUsage.update (h : LaggingUsage now usage usage') (profileId : String)
    (hupdater : ∀ a b, Lagging now a b → Lagging now (updater a) (updater b)) :
    LaggingUsage now (updateUsageStatsEntry usage profileId updater)
      (updateUsageStatsEntry usage' profileId updater) := by
  intro id
  unfold updateUsageStatsEntry
  by_cases hid : id = profileId
  · subst hid
    rw [Function.update_self, Function.update_self]
    refine Or.inr ⟨_, _, rfl, rfl, hupdater _ _ ?_⟩
    rcases h id with ⟨ha, hb⟩ | ⟨a, b, ha, hb, hlag⟩
    · rw [ha, hb]
      exact Lagging.refl now _
    · rw [ha, hb]
      exact hlag
  · rw [update_of_ne hid, update_of_ne hid]
    exact h id

theorem LaggingUsage.clear (h : LaggingUsage now usage usage')
    (hnow : 0 ≤ now) : LaggingUsage now usage (clearExpiredCooldowns usage' now) := by
  intro profileId
  unfold clearExpiredCooldowns
  rcases h profileId with ⟨ha, hb⟩ | ⟨a, b, ha, hb, hlag⟩
  · exact Or.inl ⟨ha, by rw [hb]; rfl⟩
  · exact Or.inr ⟨a, clearExpired b now, ha, by rw [hb]; rfl, hlag.clear hnow⟩

variable {cleared plain : Copies}

theorem Follows.mono (h : Follows now plain cleared) (hle : now ≤ later) : Follows later plain cleared :=
  ⟨h.same, h.disk.mono hle, h.memory.mono hle⟩

theorem Follows.fresh (h : Follows now plain cleared) (locked : Bool) :
    LaggingUsage now (plain.fresh locked) (cleared.fresh locked) := by
  cases locked with
  | true => exact h.disk
  | false =>
    show LaggingUsage now plain.memory cleared.memory
    rw [← h.same]
    exact h.memory

/-- An update copies the records from one copy to the other. -/
theorem Follows.of_update (h : Follows now plain cleared) (locked : Bool) (profileId : String)
    (hupdater : ∀ a b, Lagging now a b → Lagging now (updater a) (updater b)) :
    Follows now
      ⟨updateUsageStatsEntry (plain.fresh locked) profileId updater,
        updateUsageStatsEntry (plain.fresh locked) profileId updater⟩
      ⟨updateUsageStatsEntry (cleared.fresh locked) profileId updater,
        updateUsageStatsEntry (cleared.fresh locked) profileId updater⟩ :=
  ⟨rfl, (h.fresh locked).update profileId hupdater, (h.fresh locked).update profileId hupdater⟩

variable {event : Event}

/-- A failure or a success takes place in both runs. -/
theorem Follows.step (h : Follows event.time plain cleared) (hclear : event.isClear = false) :
    Follows event.time (step env plain event) (step env cleared event) := by
  cases event with
  | failure now profileId reason locked =>
    simp only [AuthProfiles.step, markAuthProfileFailure]
    split
    · exact h
    · exact h.of_update locked profileId fun a b hlag => hlag.failure (Nat.cast_nonneg now) _ _
  | success now profileId locked =>
    simp only [AuthProfiles.step, markAuthProfileUsed]
    split
    · split
      · exact ⟨rfl, h.disk, h.disk⟩
      · exact h
    · exact h.of_update locked profileId fun a b hlag => hlag.reset _
  | clear now => cases hclear

/-- Clearing takes place in one run only. -/
theorem Follows.clear (h : Follows event.time plain cleared) (hclear : event.isClear = true) :
    Follows event.time plain (AuthProfiles.step env cleared event) := by
  cases event with
  | failure now profileId reason locked => cases hclear
  | success now profileId locked => cases hclear
  | clear now => exact ⟨h.same, h.disk, h.memory.clear (Nat.cast_nonneg now)⟩

/-- A run with clearing follows the run without. -/
theorem run_lagging (initial : Usage) {events : List Event}
    (hsorted : (events.map Event.time).Pairwise (· ≤ ·)) {now : ℕ} (hnow : ∀ e ∈ events, e.time ≤ now) :
    Follows now (run env initial (events.filter fun e => !e.isClear)) (run env initial events) := by
  have hrun : ∀ (events : List Event) (t : ℕ) (plain cleared : Copies),
      (events.map Event.time).Pairwise (· ≤ ·) → (∀ e ∈ events, t ≤ e.time ∧ e.time ≤ now) → t ≤ now →
      Follows t plain cleared →
      Follows now ((events.filter fun e => !e.isClear).foldl (AuthProfiles.step env) plain)
        (events.foldl (AuthProfiles.step env) cleared) := by
    intro events
    induction events with
    | nil =>
      intro t plain cleared _ _ ht h
      exact h.mono (Nat.cast_le.mpr ht)
    | cons event rest ih =>
      intro t plain cleared hsorted htimes ht h
      obtain ⟨hfirst, hrest⟩ := forall_mem_cons.mp htimes
      rw [map_cons, pairwise_cons] at hsorted
      have hlater : ∀ e ∈ rest, event.time ≤ e.time ∧ e.time ≤ now := fun e he =>
        ⟨hsorted.1 _ (List.mem_map_of_mem he), (hrest e he).2⟩
      have hnow := h.mono (Nat.cast_le.mpr hfirst.1)
      rw [foldl_cons, filter_cons]
      cases hclear : event.isClear with
      | true => exact ih event.time _ _ hsorted.2 hlater hfirst.2 (hnow.clear env hclear)
      | false => exact ih event.time _ _ hsorted.2 hlater hfirst.2 (hnow.step env hclear)
  exact hrun events 0 ⟨initial, initial⟩ ⟨initial, initial⟩ hsorted
    (fun e he => ⟨Nat.zero_le _, hnow e he⟩) (Nat.zero_le _)
    ⟨rfl, LaggingUsage.refl _ _, LaggingUsage.refl _ _⟩

/-! ### Active windows -/

/-- The ends of the cooldown and the disable window of a profile, if they are active. -/
def activeEnds (usage : Usage) (profileId : String) (now : ℚ) : Option ℚ × Option ℚ :=
  match usage profileId with
  | some stats => (activeEnd stats.cooldownUntil now, activeEnd stats.disabledUntil now)
  | none => (none, none)

theorem LaggingUsage.activeEnds_eq (h : LaggingUsage now usage usage')
    (profileId : String) : activeEnds usage profileId now = activeEnds usage' profileId now := by
  unfold activeEnds
  rcases h profileId with ⟨ha, hb⟩ | ⟨a, b, ha, hb, hlag⟩
  · rw [ha, hb]
  · rw [ha, hb]
    dsimp only
    rw [hlag.cooldown.activeEnd_eq le_rfl, hlag.disabled.activeEnd_eq le_rfl]

theorem LaggingUsage.isProfileInCooldown_eq
    (h : LaggingUsage now usage usage') (hnow : 0 ≤ now) (profileId : String) :
    isProfileInCooldown env usage profileId now = isProfileInCooldown env usage' profileId now := by
  unfold isProfileInCooldown
  rcases h profileId with ⟨ha, hb⟩ | ⟨a, b, ha, hb, hlag⟩
  · rw [ha, hb]
  · rw [ha, hb]
    dsimp only
    rw [hlag.inCooldown_eq le_rfl hnow]

/-- An active window stays as it is; one that is set anew is not longer than `limit`. -/
def Continues (now limit : ℚ) (before after : Option ℚ) : Prop :=
  (∀ u, before = some u → after = some u) ∧ (before = none → ∀ u, after = some u → u ≤ now + limit)

theorem Continues.refl (now limit : ℚ) (w : Option ℚ) : Continues now limit w w := by
  refine ⟨fun _ h => h, fun hnone u hu => ?_⟩
  rw [hnone] at hu
  cases hu

/-- How long a disable window may last. -/
def disableLimit (cfgResolved : ResolvedAuthCooldownConfig) : ℚ :=
  max 60000 (max cfgResolved.billingBackoffMs cfgResolved.billingMaxMs)

theorem continues_nextEnd {existing : ProfileUsageStats} {reason : AuthProfileFailureReason}
    {cfgResolved : ResolvedAuthCooldownConfig} {limit : ℚ}
    (hlimit : backoffMs existing now reason cfgResolved ≤ limit) (until? : Option ℚ) :
    Continues now limit (activeEnd until? now)
      (activeEnd (some (nextEnd existing now reason cfgResolved until?)) now) := by
  have hactive := activeEnd_eq_some.mpr ⟨rfl, lt_nextEnd existing now reason cfgResolved until?⟩
  rw [hactive]
  refine ⟨fun u hu => ?_, fun hnone u hu => ?_⟩
  · rw [nextEnd, hu]
    rfl
  · rw [nextEnd, hnone, getD_none, some.injEq] at hu
    rw [← hu]
    linarith

/-- What a failure does to the windows of a record. -/
theorem continues_computeNext (existing : ProfileUsageStats) (now : ℚ) (reason : AuthProfileFailureReason)
    (cfgResolved : ResolvedAuthCooldownConfig) :
    Continues now (60 * 60 * 1000) (activeEnd existing.cooldownUntil now)
        (activeEnd (computeNextProfileUsageStats existing now reason cfgResolved).cooldownUntil now) ∧
      Continues now (disableLimit cfgResolved) (activeEnd existing.disabledUntil now)
        (activeEnd (computeNextProfileUsageStats existing now reason cfgResolved).disabledUntil now) := by
  rw [computeNext_cooldownUntil, computeNext_disabledUntil]
  by_cases h : disables reason = true
  · rw [if_pos h, if_pos h]
    refine ⟨Continues.refl _ _ _, continues_nextEnd ?_ _⟩
    simp only [backoffMs, h, if_true]
    exact calculateAuthProfileBillingDisableMsWithConfig_le _ _ _
  · rw [if_neg h, if_neg h]
    refine ⟨continues_nextEnd ?_ _, Continues.refl _ _ _⟩
    simp only [backoffMs, h]
    exact calculateAuthProfileCooldownMs_le _

/-- What a failure does to the windows of a store. -/
theorem continues_failure (copies : Copies) (profileId : String) (reason : AuthProfileFailureReason)
    (now : ℚ) (locked : Bool)
    (hbefore : ∀ id, activeEnds usage id now = activeEnds (copies.fresh locked) id now)
    (hafter : usage' = updateUsageStatsEntry (copies.fresh locked) profileId fun existing =>
      computeNextProfileUsageStats existing now reason (env.configFor profileId)) (id : String) :
    Continues now (60 * 60 * 1000) (activeEnds usage id now).1 (activeEnds usage' id now).1 ∧
      Continues now (disableLimit (env.configFor id)) (activeEnds usage id now).2
        (activeEnds usage' id now).2 := by
  rw [hbefore, hafter]
  by_cases hid : id = profileId
  · subst hid
    have hnext := continues_computeNext (((copies.fresh locked) id).getD .empty) now reason (env.configFor id)
    unfold activeEnds updateUsageStatsEntry
    rw [Function.update_self]
    cases hstats : (copies.fresh locked) id with
    | none =>
      rw [hstats] at hnext
      exact hnext
    | some stats =>
      rw [hstats] at hnext
      exact hnext
  · have hsame : activeEnds (updateUsageStatsEntry (copies.fresh locked) profileId fun existing =>
        computeNextProfileUsageStats existing now reason (env.configFor profileId)) id now =
          activeEnds (copies.fresh locked) id now := by
      unfold activeEnds updateUsageStatsEntry
      rw [update_of_ne hid]
    rw [hsame]
    exact ⟨Continues.refl _ _ _, Continues.refl _ _ _⟩

/-- The copies of a run agree on the windows that are active. -/
theorem Follows.activeEnds_fresh (h : Follows now plain cleared) (locked : Bool) (id : String) :
    activeEnds cleared.disk id now = activeEnds (cleared.fresh locked) id now ∧
      activeEnds cleared.memory id now = activeEnds (cleared.fresh locked) id now := by
  have hdisk := h.disk.activeEnds_eq id
  have hmemory := h.memory.activeEnds_eq id
  cases locked with
  | true => exact ⟨rfl, hmemory.symm.trans hdisk⟩
  | false => exact ⟨hdisk.symm.trans hmemory, rfl⟩

/-- In every run: a failure leaves active windows as they are and sets new ones within their limits;
and with `clearExpiredCooldowns` or without it, the same windows are active with the same ends, and
the same profiles are in cooldown. -/
theorem cooldowns_bounded_and_independent (initial : Usage) (events : List Event)
    (hsorted : (events.map Event.time).Pairwise (· ≤ ·)) (now : ℕ) (hnow : ∀ e ∈ events, e.time ≤ now) :
    (∀ (profileId : String) (reason : AuthProfileFailureReason) (locked : Bool) (id : String),
        let before := run env initial events
        let after := markAuthProfileFailure env before profileId reason now locked
        (Continues now (60 * 60 * 1000) (activeEnds before.disk id now).1 (activeEnds after.disk id now).1 ∧
            Continues now (disableLimit (env.configFor id)) (activeEnds before.disk id now).2
              (activeEnds after.disk id now).2) ∧
          Continues now (60 * 60 * 1000) (activeEnds before.memory id now).1
              (activeEnds after.memory id now).1 ∧
            Continues now (disableLimit (env.configFor id)) (activeEnds before.memory id now).2
              (activeEnds after.memory id now).2) ∧
      ∀ id : String,
        let plain := run env initial (events.filter fun e => !e.isClear)
        let cleared := run env initial events
        (activeEnds cleared.disk id now = activeEnds plain.disk id now ∧
            activeEnds cleared.memory id now = activeEnds plain.memory id now) ∧
          isProfileInCooldown env cleared.disk id now = isProfileInCooldown env plain.disk id now ∧
            isProfileInCooldown env cleared.memory id now = isProfileInCooldown env plain.memory id now := by
  have hfollows := run_lagging env initial hsorted hnow
  refine ⟨fun profileId reason locked id => ?_, fun id => ?_⟩
  · dsimp only
    unfold markAuthProfileFailure
    split
    · exact ⟨⟨Continues.refl _ _ _, Continues.refl _ _ _⟩, Continues.refl _ _ _, Continues.refl _ _ _⟩
    · exact ⟨continues_failure env _ profileId reason now locked
          (fun id => (hfollows.activeEnds_fresh locked id).1) rfl id,
        continues_failure env _ profileId reason now locked
          (fun id => (hfollows.activeEnds_fresh locked id).2) rfl id⟩
  · have hpos : (0 : ℚ) ≤ now := Nat.cast_nonneg now
    refine ⟨⟨(hfollows.disk.activeEnds_eq id).symm, ?_⟩,
      (hfollows.disk.isProfileInCooldown_eq env hpos id).symm, ?_⟩
    · rw [← hfollows.same]
      exact (hfollows.memory.activeEnds_eq id).symm
    · rw [← hfollows.same]
      exact (hfollows.memory.isProfileInCooldown_eq env hpos id).symm

/-- One profile, and billing windows that are configured to last 3.6 seconds. -/
def quickEnv : ProfileEnv where
  toLowerCase := id
  profiles profileId := if profileId = "main" then some "openai" else none
  cooldowns := some ⟨some (.fin (1 / 1000)), [], some (.fin (1 / 1000)), none⟩

/-- A failure, and a store that is cleared after the cooldown. -/
def failThenClear : List Event := [.failure 0 "main" .rateLimit true, .clear 70000]

/-- After the cooldown of a minute, the cleared store and the one that was not have no active window. -/
theorem cleared_after_a_minute :
    activeEnds (run quickEnv (fun _ => none) failThenClear).memory "main" (80000 : ℕ) =
      activeEnds (run quickEnv (fun _ => none) (failThenClear.filter fun e => !e.isClear)).memory "main"
        (80000 : ℕ) :=
  ((cooldowns_bounded_and_independent quickEnv (fun _ => none) failThenClear (by decide) 80000
    (by decide)).2 "main").1.2

/-- A disable window lasts a minute when base and maximum are configured to be shorter. -/
theorem disable_longer_than_configured :
    ¬ Continues 0 (max (quickEnv.configFor "main").billingBackoffMs (quickEnv.configFor "main").billingMaxMs)
      (activeEnds (run quickEnv (fun _ => none) []).disk "main" 0).2
      (activeEnds (markAuthProfileFailure quickEnv (run quickEnv (fun _ => none) []) "main" .billing 0
        true).disk "main" 0).2 := by
  intro h
  have hend : (activeEnds (markAuthProfileFailure quickEnv (run quickEnv (fun _ => none) []) "main"
      .billing 0 true).disk "main" 0).2 = some 60000 := by
    decide +kernel
  have hlimit : 0 + max (quickEnv.configFor "main").billingBackoffMs
      (quickEnv.configFor "main").billingMaxMs < 60000 := by
    decide +kernel
  exact absurd (h.2 rfl 60000 hend) (not_le.mpr hlimit)

end Foxclaw.Agents.AuthProfiles
