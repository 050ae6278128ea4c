import Foxclaw.Lib.Text
import Mathlib.Data.Int.Basic

/-!
# Cron schedules

This module models `cron/schedule.ts` and `cron/stagger.ts`: when a schedule next runs, and
when it last should have.

## The model

A time is a whole number of milliseconds, as `Date.now` gives it and as the gateway's
schema asks for. A field that holds a number or nothing is an `Option ℤ`, so the source's
test for a finite number is the test whether there is one. The instant of a one-shot
schedule is what `parseAbsoluteTimeMs` reads from its text.

The evaluation of a cron expression is `croner`'s, and the digest of a job's id is
`node:crypto`'s: both are parameters (`CronDeps`). Parsing an expression may throw, as may
looking for its next run, so what computes a run returns an `Except` with the error's text.
-/

namespace Foxclaw.Cron

open Foxclaw.Text

inductive CronSchedule where
  /-- Once, at an instant, unless its text could not be read. -/
  | atTime (instant : Option ℤ)
  /-- Every so many milliseconds, counted from an anchor. -/
  | every (everyMs : ℤ) (anchorMs : Option ℤ)
  /-- By a cron expression, in a time zone, with a stagger window. -/
  | cron (expr : String) (tz : Option String) (staggerMs : Option ℤ)
  deriving DecidableEq

/-- A schedule by a cron expression. -/
def CronSchedule.isCron : CronSchedule → Bool
  | .cron .. => true
  | _ => false

/-- A one-shot schedule. -/
def CronSchedule.isAt : CronSchedule → Bool
  | .atTime _ => true
  | _ => false

/-- A schedule with a fixed interval. -/
def CronSchedule.isEvery : CronSchedule → Bool
  | .every .. => true
  | _ => false

/-- The libraries the schedules rest on. -/
structure CronDeps where
  /-- `new Cron(expr, { timezone }).nextRun(date)`. -/
  nextRun : String → Option String → ℤ → Except String (Option ℤ)
  /-- `new Cron(expr, { timezone }).previousRuns(1, date)[0]`. -/
  previousRun : String → Option String → ℤ → Except String (Option ℤ)
  /-- The first four bytes of the SHA-256 digest of a text, as a number. -/
  digest : String → ℕ

/-! ### Results that may throw -/

theorem bind_ok {ε α β : Type} {x : Except ε α} {f : α → Except ε β} {b : β}
    (h : x.bind f = .ok b) : ∃ a, x = .ok a ∧ f a = .ok b := by
  cases x with
  | error e => cases h
  | ok a => exact ⟨a, rfl, h⟩

theorem map_ok {ε α β : Type} {x : Except ε α} {f : α → β} {b : β}
    (h : x.map f = .ok b) : ∃ a, x = .ok a ∧ f a = b := by
  cases x with
  | error e => cases h
  | ok a => exact ⟨a, rfl, Except.ok.inj h⟩

theorem bind_error {ε α β : Type} {x : Except ε α} {f : α → Except ε β} {e : ε}
    (h : x.bind f = .error e) : x = .error e ∨ ∃ a, x = .ok a ∧ f a = .error e := by
  cases x with
  | error e' =>
    cases h
    exact .inl rfl
  | ok a => exact .inr ⟨a, rfl, h⟩

theorem map_error {ε α β : Type} {x : Except ε α} {f : α → β} {e : ε}
    (h : x.map f = .error e) : x = .error e := by
  cases x with
  | error e' =>
    cases h
    rfl
  | ok a => cases h

/-! ### The stagger window -/

def DEFAULT_TOP_OF_HOUR_STAGGER_MS : ℤ := 5 * 60 * 1000

def parseCronFields (expr : String) : List (List Char) :=
  ((trim expr.toList).splitOnP isSpace).filter (· ≠ [])

def isRecurringTopOfHourCronExpr (expr : String) : Bool :=
  match parseCronFields expr with
  | [minuteField, hourField, _, _, _] => minuteField == ['0'] && hourField.contains '*'
  | [secondField, minuteField, hourField, _, _, _] =>
    secondField == ['0'] && minuteField == ['0'] && hourField.contains '*'
  | _ => false

def normalizeCronStaggerMs (raw : Option ℤ) : Option ℤ := raw.map (max 0)

def resolveDefaultCronStaggerMs (expr : String) : Option ℤ :=
  if isRecurringTopOfHourCronExpr expr then some DEFAULT_TOP_OF_HOUR_STAGGER_MS else none

def resolveCronStaggerMs (expr : String) (staggerMs : Option ℤ) : ℤ :=
  (normalizeCronStaggerMs staggerMs).getD ((resolveDefaultCronStaggerMs expr).getD 0)

section Runs

variable (deps : CronDeps)

/-! ### Next and previous runs -/

/-- The expression and the time zone `resolveCronFromSchedule` parses, if there is one. -/
def resolveCronFromSchedule (expr : String) (tz : Option String) : Option (String × Option String) :=
  if trimString expr = "" then none
  else some (trimString expr, (tz.map trimString).filter (· ≠ ""))

/-- The retries of `computeNextRunAtMs` when the next run lies not in the future. -/
def retryNextRunAtMs (expr : String) (tz : Option String) (nowMs : ℤ) :
    Except String (Option ℤ) := do
  let nextSecondMs := nowMs / 1000 * 1000 + 1000
  let retry ← deps.nextRun expr tz nextSecondMs
  match retry.filter (· > nowMs) with
  | some retryMs => return some retryMs
  | none =>
    let tomorrowMs := (nowMs / 86400000 + 1) * 86400000
    let retry2 ← deps.nextRun expr tz tomorrowMs
    return retry2.filter (· > nowMs)

/-- `computeNextRunAtMs` of an interval. -/
def nextEveryRunAtMs (everyMs : ℤ) (anchorMs : Option ℤ) (nowMs : ℤ) : ℤ :=
  let everyMs := max 1 everyMs
  let anchor := max 0 (anchorMs.getD nowMs)
  if nowMs < anchor then anchor
  else
    let elapsed := nowMs - anchor
    let steps := max 1 ((elapsed + everyMs - 1) / everyMs)
    anchor + steps * everyMs

def computeNextRunAtMs (schedule : CronSchedule) (nowMs : ℤ) : Except String (Option ℤ) :=
  match schedule with
  | .atTime instant => .ok (instant.filter (· > nowMs))
  | .every everyMs anchorMs => .ok (some (nextEveryRunAtMs everyMs anchorMs nowMs))
  | .cron expr tz _ =>
    match resolveCronFromSchedule expr tz with
    | none => .ok none
    | some (expr, tz) => do
      match ← deps.nextRun expr tz nowMs with
      | none => return none
      | some nextMs =>
        if nextMs ≤ nowMs then retryNextRunAtMs deps expr tz nowMs else return some nextMs

def computePreviousRunAtMs (schedule : CronSchedule) (nowMs : ℤ) : Except String (Option ℤ) :=
  match schedule with
  | .cron expr tz _ =>
    match resolveCronFromSchedule expr tz with
    | none => .ok none
    | some (expr, tz) => do
      let previous ← deps.previousRun expr tz nowMs
      return previous.filter (· < nowMs)
  | _ => .ok none

end Runs

end Foxclaw.Cron
