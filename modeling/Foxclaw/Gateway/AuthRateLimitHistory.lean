import Foxclaw.Gateway.AuthRateLimit
import Foxclaw.Lib.Runs
import Foxclaw.Lib.SlidingWindow
import Mathlib.Data.Rat.Floor

/-!
# One key, by its history

What the limiter is for, of one key alone: whether a check is allowed follows from the times of the
failures that were recorded (`verdict`), and a failure is recorded only after a check that allowed
it (`keyNext`). No entry, no pruning and no other key is in it.

## What is proved

* `History.bounded` — in each window there are at most `maxAttempts` failures, rounded up.
* `History.refused` — after `maxAttempts` failures of one window every check is refused until
  `lockoutMs` has passed.
-/

namespace Foxclaw.Gateway.AuthRateLimit

open List Option
open Foxclaw.SlidingWindow (recent within)

/-- The time of an event. -/
def KeyEvent.time : KeyEvent → ℚ
  | .checked now _ => now
  | .failed now => now

variable (now : ℚ) (result : RateLimitCheckResult)

@[simp] theorem KeyEvent.time_checked :
    (KeyEvent.checked now result).time = now := rfl

@[simp] theorem KeyEvent.time_failed : (KeyEvent.failed now).time = now := rfl

/-- The event is a check that was refused. -/
def KeyEvent.IsRefused (e : KeyEvent) : Prop :=
  ∃ now result, e = .checked now result ∧ result.allowed = false

variable (log : List KeyEvent)

/-- The times of the failures. -/
def failures : List ℚ :=
  log.filterMap fun
    | .failed now => some now
    | .checked .. => none

/-- The time of the last event. -/
def lastTime : ℚ := (log.getLast?.map KeyEvent.time).getD 0

/-- Was the last event a check that was allowed? -/
def lastAllowed : Bool :=
  match log.getLast? with
  | some (.checked _ result) => result.allowed
  | _ => false

@[simp] theorem failures_append (log log' : List KeyEvent) :
    failures (log ++ log') = failures log ++ failures log' := filterMap_append

@[simp] theorem failures_checked :
    failures (.checked now result :: log) = failures log := rfl

@[simp] theorem failures_failed :
    failures (.failed now :: log) = now :: failures log := rfl

@[simp] theorem failures_nil : failures [] = [] := rfl

@[simp] theorem lastTime_concat (e : KeyEvent) : lastTime (log ++ [e]) = e.time := by
  simp [lastTime]

variable {log : List KeyEvent}

theorem failures_eq_nil (h : ∀ e ∈ log, e.IsRefused) : failures log = [] := by
  refine filterMap_eq_nil_iff.mpr fun e he => ?_
  obtain ⟨now, result, rfl, -⟩ := h e he
  rfl

theorem mem_failures {t : ℚ} (h : t ∈ failures log) : .failed t ∈ log := by
  obtain ⟨e, he, het⟩ := mem_filterMap.mp h
  cases e with
  | checked now result => cases het
  | failed now => exact some.inj het ▸ he

section Verdict

variable (config : RateLimitConfig)

/-- Until when the failures lock the key: the last of them may have been one too many. -/
def lockEnd (fs : List ℚ) : Option ℚ :=
  fs.getLast?.bind fun last =>
    if config.maxAttempts ≤ (recent config.windowMs last fs).length then
      some (last + config.lockoutMs)
    else none

/-- What a check answers. -/
def verdict (fs : List ℚ) (now : ℚ) : RateLimitCheckResult :=
  match (lockEnd config fs).filter (now < ·) with
  | some lockedUntil => ⟨false, 0, lockedUntil - now⟩
  | none =>
    let remaining := max 0 (config.maxAttempts - (recent config.windowMs now fs).length)
    ⟨0 < remaining, remaining, 0⟩

/-- What happens to a key. -/
inductive KeyOp where
  | check (now : ℚ)
  | fail (now : ℚ)

/-- One step of a key; a failure is recorded only directly after a check that was allowed. -/
def keyNext (log : List KeyEvent) : KeyOp → Option (List KeyEvent)
  | .check now =>
    if lastTime log ≤ now then some (log ++ [.checked now (verdict config (failures log) now)]) else none
  | .fail now =>
    if lastTime log ≤ now ∧ lastAllowed log then some (log ++ [.failed now]) else none

end Verdict

variable {config : RateLimitConfig}

theorem lockEnd_concat (fs : List ℚ) (last : ℚ) : lockEnd config (fs ++ [last]) =
    if config.maxAttempts ≤ (recent config.windowMs last (fs ++ [last])).length then
      some (last + config.lockoutMs)
    else none := by
  simp [lockEnd]

variable {fs : List ℚ}

/-- A check is allowed when no lock stands and the recent failures are not too many. -/
theorem verdict_allowed {now : ℚ} (h : (verdict config fs now).allowed = true) :
    (∀ lockedUntil, lockEnd config fs = some lockedUntil → lockedUntil ≤ now) ∧
      ((recent config.windowMs now fs).length : ℚ) < config.maxAttempts := by
  unfold verdict at h
  split at h
  · cases h
  · rename_i hlock
    refine ⟨fun lockedUntil hend => ?_, ?_⟩
    · rw [hend] at hlock
      simpa [Option.filter] using hlock
    · simpa using h

theorem verdict_of_locked {now lockedUntil : ℚ} (hend : lockEnd config fs = some lockedUntil)
    (h : now < lockedUntil) : verdict config fs now = ⟨false, 0, lockedUntil - now⟩ := by
  simp [verdict, hend, Option.filter, h]

theorem verdict_of_not_locked {now : ℚ}
    (h : ∀ lockedUntil, lockEnd config fs = some lockedUntil → lockedUntil ≤ now) :
    verdict config fs now =
      ⟨0 < max 0 (config.maxAttempts - (recent config.windowMs now fs).length),
        max 0 (config.maxAttempts - (recent config.windowMs now fs).length), 0⟩ := by
  unfold verdict
  cases hend : lockEnd config fs with
  | none => rfl
  | some lockedUntil => simp [Option.filter, (h lockedUntil hend).not_gt]

/-- What is true of the history of a key. -/
structure History (config : RateLimitConfig) (log : List KeyEvent) : Prop where
  nonneg : 0 ≤ lastTime log
  /-- The events come in the order of their times. -/
  time_le : ∀ e ∈ log, e.time ≤ lastTime log
  /-- No failure is before the start or after the last one. -/
  failure_le : ∀ last ∈ (failures log).getLast?, 0 ≤ last ∧ ∀ t ∈ failures log, t ≤ last
  /-- A check that was allowed was answered by the failures. -/
  allowed : lastAllowed log = true → (verdict config (failures log) (lastTime log)).allowed = true
  /-- A window has at most `maxAttempts` failures, rounded up. -/
  bounded : ∀ start, (within config.windowMs start (failures log)).length ≤ ⌈config.maxAttempts⌉₊
  /-- When `maxAttempts` failures of one window were recorded, what comes before the end of the
  lockout is refused. -/
  refused : ∀ before last later, log = before ++ .failed last :: later →
    (∃ start, last < start + config.windowMs ∧ config.maxAttempts ≤
      (within config.windowMs start (failures before ++ [last])).length) →
    ∀ e ∈ later, e.time < last + config.lockoutMs → e.IsRefused

/-- When a lock ends, no failure is recent. -/
theorem History.of_lockEnd (hwindow : 0 < config.windowMs) (hlockout : config.windowMs ≤ config.lockoutMs)
    (h : History config log) {lockedUntil : ℚ} (hend : lockEnd config (failures log) = some lockedUntil) :
    0 < lockedUntil ∧ ∀ t ∈ failures log, t + config.windowMs ≤ lockedUntil := by
  obtain ⟨last, hlast, hfull⟩ := bind_eq_some_iff.mp hend
  obtain ⟨-, ⟨⟩⟩ := ite_none_right_eq_some.mp hfull
  obtain ⟨hnonneg, hle⟩ := h.failure_le last hlast
  exact ⟨by linarith, fun t ht => by linarith [hle t ht]⟩

theorem History.nil : History config [] :=
  ⟨le_refl _, by simp, by simp, by simp [lastAllowed], by simp [within], by simp⟩

theorem failures_of_refused {before later : List KeyEvent} {last : ℚ} (h : ∀ e ∈ later, e.IsRefused) :
    failures (before ++ .failed last :: later) = failures before ++ [last] := by
  rw [failures_append, failures_failed, failures_eq_nil h]

theorem lastAllowed_of_refused {before later : List KeyEvent} {last : ℚ}
    (h : ∀ e ∈ later, e.IsRefused) : lastAllowed (before ++ .failed last :: later) = false := by
  unfold lastAllowed
  rcases eq_nil_or_concat later with rfl | ⟨later', e, rfl⟩
  · simp
  · obtain ⟨now, result, rfl, hresult⟩ := h e (by simp)
    rw [concat_eq_append, ← cons_append, ← append_assoc, getLast?_concat]
    exact hresult

theorem History.next {log log' : List KeyEvent} {op : KeyOp} (h : History config log)
    (hop : keyNext config log op = some log') : History config log' := by
  -- What is later than a failure in `log ++ [e]` is `e`, or later in `log`.
  have hsplit {e : KeyEvent} {before later : List KeyEvent} {last : ℚ} (he : lastTime log ≤ e.time)
      (heq : log ++ [e] = before ++ .failed last :: later)
      (hfull : ∃ start, last < start + config.windowMs ∧ config.maxAttempts ≤
        (within config.windowMs start (failures before ++ [last])).length)
      (hlast : ∀ later', log = before ++ .failed last :: later' → (∀ e ∈ later', e.IsRefused) →
        e.time < last + config.lockoutMs → e.IsRefused) :
      ∀ e' ∈ later, e'.time < last + config.lockoutMs → e'.IsRefused := by
    rcases eq_nil_or_concat later with rfl | ⟨later', e', rfl⟩
    · simp
    · rw [concat_eq_append, ← cons_append, ← append_assoc] at heq
      obtain ⟨hlog, he'⟩ := append_inj' heq rfl
      obtain rfl := singleton_inj.mp he'
      intro e' he' htime
      rcases mem_append.mp (concat_eq_append .. ▸ he') with hmem | hmem
      · exact h.refused before last later' hlog hfull e' hmem htime
      · obtain rfl := mem_singleton.mp hmem
        refine hlast later' hlog (fun e' hmem' => h.refused before last later' hlog hfull e' hmem' ?_) htime
        exact ((h.time_le e' (hlog ▸ by simp [hmem'])).trans he).trans_lt htime
  cases op with
  | check now =>
    obtain ⟨hnow, ⟨⟩⟩ := ite_none_right_eq_some.mp hop
    refine ⟨?_, fun e he => ?_, ?_, fun hallowed => ?_, fun start => ?_, fun before last later heq hfull => ?_⟩
    · rw [lastTime_concat]
      exact h.nonneg.trans hnow
    · rw [lastTime_concat]
      rcases mem_append.mp he with he | he
      · exact (h.time_le e he).trans hnow
      · exact (mem_singleton.mp he) ▸ le_refl _
    · rw [failures_append, failures_checked, failures_nil, append_nil]
      exact h.failure_le
    · rw [lastTime_concat, failures_append, failures_checked, failures_nil, append_nil, KeyEvent.time_checked]
      simpa [lastAllowed] using hallowed
    · rw [failures_append, failures_checked, failures_nil, append_nil]
      exact h.bounded start
    · refine hsplit (e := .checked now _) hnow heq hfull fun later' hlog hrefused htime => ⟨now, _, rfl, ?_⟩
      rw [KeyEvent.time_checked] at htime
      obtain ⟨start, hstart, hlen⟩ := hfull
      have hend : lockEnd config (failures before ++ [last]) = some (last + config.lockoutMs) := by
        rw [lockEnd_concat, if_pos]
        exact hlen.trans (by exact_mod_cast (SlidingWindow.within_sublist_recent hstart _).length_le)
      rw [hlog, failures_of_refused hrefused, verdict_of_locked hend htime]
  | fail now =>
    obtain ⟨⟨hnow, hlastAllowed⟩, ⟨⟩⟩ := ite_none_right_eq_some.mp hop
    refine ⟨?_, fun e he => ?_, ?_, fun hallowed => ?_, fun start => ?_, fun before last later heq hfull => ?_⟩
    · rw [lastTime_concat]
      exact h.nonneg.trans hnow
    · rw [lastTime_concat]
      rcases mem_append.mp he with he | he
      · exact (h.time_le e he).trans hnow
      · exact (mem_singleton.mp he) ▸ le_refl _
    · rw [failures_append, failures_failed, failures_nil, getLast?_concat]
      rintro _ ⟨⟩
      refine ⟨h.nonneg.trans hnow, fun t ht => ?_⟩
      rcases mem_append.mp ht with ht | ht
      · exact (h.time_le _ (mem_failures ht)).trans hnow
      · exact (mem_singleton.mp ht).le
    · simp [lastAllowed] at hallowed
    · rw [failures_append, failures_failed, failures_nil]
      have hrecent := (verdict_allowed (h.allowed hlastAllowed)).2
      have hlen := SlidingWindow.length_recent_le (w := config.windowMs) hnow (failures log)
      have hlt : (recent config.windowMs now (failures log)).length < ⌈config.maxAttempts⌉₊ :=
        hlen.trans_lt (Nat.lt_ceil.mpr hrecent)
      exact (SlidingWindow.length_within_concat_le config.windowMs start now (failures log)).trans
        (max_le (h.bounded start) hlt)
    · refine hsplit (e := .failed now) hnow heq hfull fun later' hlog hrefused _ => ?_
      rw [hlog, lastAllowed_of_refused hrefused] at hlastAllowed
      cases hlastAllowed

end Foxclaw.Gateway.AuthRateLimit
