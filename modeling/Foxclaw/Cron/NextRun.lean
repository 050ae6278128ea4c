import Foxclaw.Cron.Schedule
import Foxclaw.Lib.JsNumber

/-!
# The next run of a stored schedule

`cron/schedule.ts` reads a schedule as it may lie in a store that was not migrated: a number may
be a text, and may be missing. This module models `computeNextRunAtMs` on such schedules, with
`coerceFiniteScheduleNumber` and `cron/parse.ts`.

## The model

A time is a rational number of milliseconds, so it may lie between two of them, and the
arithmetic is exact. `Number` of a text, `Date.parse`, the time zone of the machine and `croner`
are parameters (`Deps`). A `Date` is a whole number of milliseconds, `none` when it is invalid.
The cache of parsed expressions only spares parsing one twice, and is left out.

## What is proved

* `isLeast_steps`, `steps_le` — the number of steps `computeNextRunAtMs` takes from the anchor.
* `computeNextRunAtMs_promised_iff` — the run is in the future, and the first one, unless now is
  on a slot of the interval after the anchor.
-/

namespace Foxclaw.Cron.NextRun

open Int Option Foxclaw.Text

/-- What a field of a schedule holds. -/
inductive FieldValue where
  | number (n : JsNumber)
  | text (s : String)
  /-- Nothing, or something else. -/
  | other
  deriving DecidableEq

/-- A schedule as it is stored. -/
inductive StoredSchedule where
  /-- `kind: "at"`, with the canonical field and the legacy one. -/
  | atTime (atText atMs : FieldValue)
  /-- `kind: "every"`. -/
  | every (everyMs anchorMs : FieldValue)
  /-- Any other kind. -/
  | cron (expr cron tz : FieldValue)
  deriving DecidableEq

/-- An instance of `Cron`. -/
structure Croner where
  /-- `nextRun`: no run, or its date. -/
  nextRun : Option ℤ → Except String (Option (Option ℤ))

/-- What the computation rests on. -/
structure Deps where
  /-- `Number(text)`. -/
  number : String → JsNumber
  /-- `Date.parse`, when it is a number. -/
  dateParse : String → Option ℤ
  /-- `Intl.DateTimeFormat().resolvedOptions().timeZone`. -/
  timeZone : String
  /-- `new Cron(expr, { timezone, catch: false })`. -/
  newCron : String → String → Except String Croner

variable (deps : Deps)

/-! ### Reading the fields -/

/-- The number, when it is finite. -/
def finite : JsNumber → Option ℚ
  | .fin q => some q
  | _ => none

def coerceFiniteScheduleNumber : FieldValue → Option ℚ
  | .number n => finite n
  | .text s =>
    let trimmed := trimString s
    if trimmed = "" then none else finite (deps.number trimmed)
  | .other => none

/-- `ISO_TZ_RE`. -/
def endsInTimeZone (raw : List Char) : Bool :=
  match raw.reverse with
  | 'Z' :: _ => true
  | 'z' :: _ => true
  | m₂ :: m₁ :: ':' :: h₂ :: h₁ :: sign :: _ =>
    [m₂, m₁, h₂, h₁].all Char.isDigit && (sign == '+' || sign == '-')
  | m₂ :: m₁ :: h₂ :: h₁ :: sign :: _ =>
    [m₂, m₁, h₂, h₁].all Char.isDigit && (sign == '+' || sign == '-')
  | _ => false

/-- What is left of a text that starts with a date. -/
def afterIsoDate : List Char → Option (List Char)
  | y₁ :: y₂ :: y₃ :: y₄ :: '-' :: m₁ :: m₂ :: '-' :: d₁ :: d₂ :: rest =>
    if [y₁, y₂, y₃, y₄, m₁, m₂, d₁, d₂].all Char.isDigit then some rest else none
  | _ => none

def normalizeUtcIso (raw : String) : String :=
  if endsInTimeZone raw.toList then raw
  else
    match afterIsoDate raw.toList with
    | some [] => raw ++ "T00:00:00Z"
    | some ('T' :: _) => raw ++ "Z"
    | _ => raw

def parseAbsoluteTimeMs (input : String) : Option ℚ :=
  let raw := trimString input
  if raw = "" then none
  else
    let n := if raw.toList.all Char.isDigit then (finite (deps.number raw)).filter (0 < ·) else none
    match n with
    | some n => some ⌊n⌋
    | none => (deps.dateParse (normalizeUtcIso raw)).map (↑)

/-- The instant of a one-shot schedule. -/
def instantOf (atText atMs : FieldValue) : Option ℚ :=
  let fromText : Option ℚ :=
    match atMs with
    | .text s => parseAbsoluteTimeMs deps s
    | _ =>
      match atText with
      | .text s => parseAbsoluteTimeMs deps s
      | _ => none
  match atMs with
  | .number (.fin q) => if 0 < q then some q else fromText
  | _ => fromText

/-! ### Intervals -/

/-- The interval of a schedule, once it is a number. -/
def intervalOf (everyMsRaw : ℚ) : ℤ := max 1 ⌊everyMsRaw⌋

/-- The anchor of an interval. -/
def anchorOf (anchorMs : FieldValue) (nowMs : ℚ) : ℤ :=
  max 0 ⌊(coerceFiniteScheduleNumber deps anchorMs).getD nowMs⌋

/-- The number of intervals from the anchor to the next run. -/
def steps (everyMs anchor : ℤ) (nowMs : ℚ) : ℤ :=
  let elapsed := nowMs - anchor
  max 1 ⌊(elapsed + everyMs - 1) / everyMs⌋

/-! ### Cron expressions -/

/-- `new Date(ms)`. -/
def newDate (ms : ℚ) : Option ℤ :=
  let whole := if 0 ≤ ms then ⌊ms⌋ else ⌈ms⌉
  if |whole| ≤ 8640000000000000 then some whole else none

/-- `date.setUTCHours(24, 0, 0, 0)`. -/
def nextUtcDay (date : Option ℤ) : Option ℤ :=
  date.bind fun ms => newDate ↑((ms / 86400000 + 1) * 86400000)

def resolveCronTimezone (tz : FieldValue) : String :=
  match tz with
  | .text s => if trimString s = "" then deps.timeZone else trimString s
  | _ => deps.timeZone

/-- The expression of a schedule: the legacy field stands in for the canonical one. -/
def exprSourceOf (expr cron : FieldValue) : Option String :=
  match expr, cron with
  | .text source, _ => some source
  | _, .text source => some source
  | _, _ => none

def resolveCronFromSchedule (expr cron tz : FieldValue) : Except String (Option Croner) :=
  match exprSourceOf expr cron with
  | none => .error "invalid cron schedule: expr is required"
  | some exprSource =>
    if trimString exprSource = "" then .ok none
    else (deps.newCron (trimString exprSource) (resolveCronTimezone deps tz)).map some

/-- What `computeNextRunAtMs` tries when the next run is not in the future. -/
def retryRunAtMs (cron : Croner) (nowMs : ℚ) : Except String (Option ℤ) := do
  let nextSecondMs := ⌊nowMs / 1000⌋ * 1000 + 1000
  let retry ← cron.nextRun (newDate nextSecondMs)
  match retry.join.filter fun t : ℤ => decide (nowMs < t) with
  | some retryMs => return some retryMs
  | none =>
    let tomorrowMs := nextUtcDay (newDate nowMs)
    let retry2 ← cron.nextRun tomorrowMs
    return retry2.join.filter fun t : ℤ => decide (nowMs < t)

/-- The next run of a cron expression. -/
def nextCronRunAtMs (cron : Croner) (nowMs : ℚ) : Except String (Option ℤ) := do
  match (← cron.nextRun (newDate nowMs)).join with
  | none => return none
  | some nextMs => if nextMs ≤ nowMs then retryRunAtMs cron nowMs else return some nextMs

def computeNextRunAtMs (schedule : StoredSchedule) (nowMs : ℚ) : Except String (Option ℚ) :=
  match schedule with
  | .atTime atText atMs => .ok ((instantOf deps atText atMs).filter (nowMs < ·))
  | .every everyMs anchorMs =>
    match coerceFiniteScheduleNumber deps everyMs with
    | none => .ok none
    | some everyMsRaw =>
      let everyMs := intervalOf everyMsRaw
      let anchor := anchorOf deps anchorMs nowMs
      if nowMs < anchor then .ok (some anchor)
      else .ok (some (anchor + steps everyMs anchor nowMs * everyMs))
  | .cron expr cron tz => do
    match ← resolveCronFromSchedule deps expr cron tz with
    | none => return none
    | some cron => return (← nextCronRunAtMs cron nowMs).map (↑)

/-! ### The steps from the anchor -/

/-- The slots of an interval after the anchor. -/
def slot (everyMs anchor : ℤ) (k : ℕ) : ℚ := anchor + k * everyMs

/-- Now is on a slot after the anchor, or less than a millisecond past it. -/
def OnSlot (everyMs anchor : ℤ) (nowMs : ℚ) : Prop :=
  ∃ k : ℕ, 1 ≤ k ∧ slot everyMs anchor k ≤ nowMs ∧ nowMs < slot everyMs anchor k + 1

section Steps

variable {everyMs anchor : ℤ} {nowMs : ℚ}

theorem one_le_steps : 1 ≤ steps everyMs anchor nowMs := le_max_left _ _

theorem toNat_steps : ((steps everyMs anchor nowMs).toNat : ℚ) = steps everyMs anchor nowMs := by
  have h : 1 ≤ steps everyMs anchor nowMs := one_le_steps
  exact_mod_cast toNat_of_nonneg (show 0 ≤ steps everyMs anchor nowMs by omega)

theorem one_le_toNat_steps : 1 ≤ (steps everyMs anchor nowMs).toNat := by
  have h : 1 ≤ steps everyMs anchor nowMs := one_le_steps
  omega

/-- Less than `k + 1` intervals, less a millisecond, have gone by: at most `k` steps are taken. -/
theorem steps_le (he : 1 ≤ everyMs) {k : ℕ} (hk : 1 ≤ k)
    (h : nowMs - anchor + everyMs - 1 < (k + 1) * everyMs) : steps everyMs anchor nowMs ≤ k := by
  have he' : (0 : ℚ) < everyMs := by exact_mod_cast he
  have hq : (nowMs - anchor + everyMs - 1) / everyMs < ((k + 1 : ℤ) : ℚ) := by
    rw [div_lt_iff₀ he']
    exact_mod_cast h
  have hf := Int.floor_lt.mpr hq
  unfold steps
  simp only
  omega

/-- On a slot the slot itself is found, so what is found is not in the future. -/
theorem slot_steps_le (he : 1 ≤ everyMs) (h : OnSlot everyMs anchor nowMs) :
    slot everyMs anchor (steps everyMs anchor nowMs).toNat ≤ nowMs := by
  obtain ⟨k, hk, hle, hlt⟩ := h
  have hs : steps everyMs anchor nowMs ≤ k := steps_le he hk (by unfold slot at hlt; linarith)
  have he' : (0 : ℚ) < everyMs := by exact_mod_cast he
  have hs' : (steps everyMs anchor nowMs : ℚ) ≤ k := by exact_mod_cast hs
  refine le_trans ?_ hle
  rw [slot, slot, toNat_steps]
  have := mul_le_mul_of_nonneg_right hs' he'.le
  linarith

/-- Off the slots what is found is in the future. -/
theorem lt_slot_steps (he : 1 ≤ everyMs) (ha : anchor ≤ nowMs) (h : ¬ OnSlot everyMs anchor nowMs) :
    nowMs < slot everyMs anchor (steps everyMs anchor nowMs).toNat := by
  have he' : (0 : ℚ) < everyMs := by exact_mod_cast he
  rw [slot, toNat_steps]
  -- `q` intervals have gone by.
  obtain ⟨q, hq⟩ : ∃ q : ℕ, (q : ℤ) = ⌊(nowMs - anchor) / everyMs⌋ :=
    ⟨_, toNat_of_nonneg (floor_nonneg.mpr (div_nonneg (by linarith) he'.le))⟩
  have hq' : (q : ℚ) = (⌊(nowMs - anchor) / everyMs⌋ : ℚ) := by exact_mod_cast congrArg Int.cast hq
  have hle : q * everyMs ≤ nowMs - anchor := by
    rw [← le_div_iff₀ he', hq']
    exact Int.floor_le _
  have hlt : nowMs - anchor < (q + 1) * everyMs := by
    rw [← div_lt_iff₀ he', hq']
    exact Int.lt_floor_add_one _
  -- So one more step is taken, as at least a millisecond of the next has gone by too.
  have hs : (q + 1 : ℤ) ≤ steps everyMs anchor nowMs := by
    unfold steps
    rcases Nat.eq_zero_or_pos q with h0 | hpos
    · subst h0
      simp
    · have hpast : slot everyMs anchor q + 1 ≤ nowMs := by
        by_contra hn
        exact h ⟨q, hpos, by unfold slot; linarith, not_le.mp hn⟩
      refine le_max_of_le_right (Int.le_floor.mpr ?_)
      rw [le_div_iff₀ he']
      unfold slot at hpast
      push_cast
      linarith
  have hs' : (q + 1 : ℚ) ≤ steps everyMs anchor nowMs := by exact_mod_cast hs
  have := mul_le_mul_of_nonneg_right hs' he'.le
  linarith

/-- Off the slots, the steps lead to the first slot in the future. -/
theorem isLeast_steps (he : 1 ≤ everyMs) (ha : anchor ≤ nowMs) (h : ¬ OnSlot everyMs anchor nowMs) :
    IsLeast {t | nowMs < t ∧ ∃ k : ℕ, 1 ≤ k ∧ slot everyMs anchor k = t}
      (slot everyMs anchor (steps everyMs anchor nowMs).toNat) := by
  refine ⟨⟨lt_slot_steps he ha h, _, one_le_toNat_steps, rfl⟩, ?_⟩
  rintro t ⟨hlt, k, hk, rfl⟩
  have he' : (0 : ℚ) < everyMs := by exact_mod_cast he
  have hs : steps everyMs anchor nowMs ≤ k := steps_le he hk (by unfold slot at hlt; linarith)
  have hs' : (steps everyMs anchor nowMs : ℚ) ≤ k := by exact_mod_cast hs
  rw [slot, slot, toNat_steps]
  have := mul_le_mul_of_nonneg_right hs' he'.le
  linarith

end Steps

/-! ### What is promised -/

/-- What is relied on of `croner`: a run is the first slot from the date on, or the first one
after it, unless it lies not after now; an invalid date has no run. -/
structure CronerOk (slots : String → String → Set ℤ) (nowMs : ℚ) : Prop where
  /-- A run is a slot, and none lies between it and the date. -/
  run : ∀ expr zone cron d t, deps.newCron expr zone = .ok cron →
    cron.nextRun (some d) = .ok (some (some t)) → t ≤ nowMs ∨
      t ∈ slots expr zone ∧ d ≤ t ∧ ∀ s ∈ slots expr zone, d < s → t ≤ s
  /-- There is no run after an invalid date. -/
  invalid : ∀ expr zone cron t, deps.newCron expr zone = .ok cron →
    cron.nextRun none ≠ .ok (some (some t))

/-- `croner` throws: on the expression, or on a date. -/
def CronerThrows (e : String) : Prop :=
  ∃ expr zone, deps.newCron expr zone = .error e ∨
    ∃ cron d, deps.newCron expr zone = .ok cron ∧ cron.nextRun d = .error e

/-- What is promised of `computeNextRunAtMs`. -/
structure Promised (slots : String → String → Set ℤ) (schedule : StoredSchedule) (nowMs : ℚ) :
    Prop where
  future : ∀ t, computeNextRunAtMs deps schedule nowMs = .ok (some t) → nowMs < t
  /-- The run of an interval is its anchor, or the first slot in the future. -/
  every : ∀ everyMs anchorMs everyMsRaw, schedule = .every everyMs anchorMs →
    coerceFiniteScheduleNumber deps everyMs = some everyMsRaw →
    ∃ t, computeNextRunAtMs deps schedule nowMs = .ok (some t) ∧
      (nowMs < anchorOf deps anchorMs nowMs → t = anchorOf deps anchorMs nowMs) ∧
      (anchorOf deps anchorMs nowMs ≤ nowMs →
        IsLeast {t | nowMs < t ∧
          ∃ k : ℕ, 1 ≤ k ∧ slot (intervalOf everyMsRaw) (anchorOf deps anchorMs nowMs) k = t} t)
  /-- The run of an expression is one of its slots. -/
  cron : ∀ expr cron tz t, schedule = .cron expr cron tz →
    computeNextRunAtMs deps schedule nowMs = .ok (some t) →
    ∃ source, exprSourceOf expr cron = some source ∧
      ∃ s ∈ slots (trimString source) (resolveCronTimezone deps tz), t = s
  /-- Only a schedule by an expression throws: there is none, or `croner` throws. -/
  throws : ∀ e, computeNextRunAtMs deps schedule nowMs = .error e →
    ∃ expr cron tz, schedule = .cron expr cron tz ∧
      (exprSourceOf expr cron = none ∨ CronerThrows deps e)

/-- Now is on a slot of the interval after its anchor. -/
def LandsOnSlot (schedule : StoredSchedule) (nowMs : ℚ) : Prop :=
  match schedule with
  | .every everyMs anchorMs => ∃ everyMsRaw, coerceFiniteScheduleNumber deps everyMs = some everyMsRaw ∧
      OnSlot (intervalOf everyMsRaw) (anchorOf deps anchorMs nowMs) nowMs
  | _ => False

/-! ### The runs of an expression -/

variable {deps}

variable {cron : Croner} {nowMs : ℚ} {t : ℤ}

/-- A run is a slot unless it lies not after now, whatever the date was. -/
theorem CronerOk.mem {slots : String → String → Set ℤ} (h : CronerOk deps slots nowMs) {expr zone : String}
    (hc : deps.newCron expr zone = .ok cron) {d : Option ℤ} {run : Option (Option ℤ)}
    (hd : cron.nextRun d = .ok run) (ht : run.join = some t) (hlt : nowMs < t) : t ∈ slots expr zone := by
  rw [join_eq_some_iff] at ht
  subst ht
  cases d with
  | none => exact absurd hd (h.invalid expr zone cron t hc)
  | some d =>
    rcases h.run expr zone cron d t hc hd with hle | ⟨hmem, -, -⟩
    · exact absurd hlt (not_lt.mpr hle)
    · exact hmem

theorem retryRunAtMs_ok (h : retryRunAtMs cron nowMs = .ok (some t)) :
    nowMs < t ∧ ∃ d run, cron.nextRun d = .ok run ∧ run.join = some t := by
  obtain ⟨retry, hr, h⟩ := bind_ok h
  split at h
  · rename_i retryMs hs
    obtain ⟨hj, hlt⟩ := filter_eq_some_iff.mp hs
    cases h
    exact ⟨of_decide_eq_true hlt, _, retry, hr, hj⟩
  · obtain ⟨retry2, hr2, h⟩ := bind_ok h
    obtain ⟨hj, hlt⟩ := filter_eq_some_iff.mp (Except.ok.inj h)
    exact ⟨of_decide_eq_true hlt, _, retry2, hr2, hj⟩

/-- What is returned lies in the future, and `croner` returned it. -/
theorem nextCronRunAtMs_ok (h : nextCronRunAtMs cron nowMs = .ok (some t)) :
    nowMs < t ∧ ∃ d run, cron.nextRun d = .ok run ∧ run.join = some t := by
  obtain ⟨next, hn, h⟩ := bind_ok h
  split at h
  · cases h
  · rename_i nextMs hj
    split at h
    · exact retryRunAtMs_ok h
    · rename_i hlt
      cases h
      exact ⟨not_le.mp hlt, _, next, hn, hj⟩

variable {e : String}

theorem retryRunAtMs_error (h : retryRunAtMs cron nowMs = .error e) : ∃ d, cron.nextRun d = .error e := by
  rcases bind_error h with hr | ⟨retry, -, h⟩
  · exact ⟨_, hr⟩
  · split at h
    · cases h
    · rcases bind_error h with hr2 | ⟨retry2, -, h⟩
      · exact ⟨_, hr2⟩
      · cases h

/-- What is thrown, `croner` threw. -/
theorem nextCronRunAtMs_error
    (h : nextCronRunAtMs cron nowMs = .error e) : ∃ d, cron.nextRun d = .error e := by
  rcases bind_error h with hn | ⟨next, -, h⟩
  · exact ⟨_, hn⟩
  · split at h
    · cases h
    · split at h
      · exact retryRunAtMs_error h
      · cases h

theorem resolveCronFromSchedule_ok {expr cron tz : FieldValue} {c : Croner}
    (h : resolveCronFromSchedule deps expr cron tz = .ok (some c)) :
    ∃ source, exprSourceOf expr cron = some source ∧
      deps.newCron (trimString source) (resolveCronTimezone deps tz) = .ok c := by
  unfold resolveCronFromSchedule at h
  split at h
  · cases h
  · rename_i source hs
    split at h
    · cases h
    · obtain ⟨c', hc, h⟩ := map_ok h
      cases h
      exact ⟨source, hs, hc⟩

theorem resolveCronFromSchedule_error {expr cron tz : FieldValue}
    (h : resolveCronFromSchedule deps expr cron tz = .error e) :
    exprSourceOf expr cron = none ∨ CronerThrows deps e := by
  unfold resolveCronFromSchedule at h
  split at h
  · rename_i hs
    exact .inl hs
  · split at h
    · cases h
    · exact .inr ⟨_, _, .inl (map_error h)⟩

/-! ### Every schedule -/

theorem cronRun_ok {expr cron tz : FieldValue} {nowMs t : ℚ}
    (h : computeNextRunAtMs deps (.cron expr cron tz) nowMs = .ok (some t)) :
    ∃ c s, resolveCronFromSchedule deps expr cron tz = .ok (some c) ∧
      nextCronRunAtMs c nowMs = .ok (some s) ∧ t = s := by
  obtain ⟨c, hc, h⟩ := bind_ok h
  cases c with
  | none => cases h
  | some c =>
    obtain ⟨s, hs, h⟩ := bind_ok h
    cases s with
    | none => cases h
    | some s =>
      cases h
      exact ⟨c, s, hc, hs, rfl⟩

theorem cronRun_error {expr cron tz : FieldValue}
    (h : computeNextRunAtMs deps (.cron expr cron tz) nowMs = .error e) :
    exprSourceOf expr cron = none ∨ CronerThrows deps e := by
  rcases bind_error h with hc | ⟨c, hc, h⟩
  · exact resolveCronFromSchedule_error hc
  · cases c with
    | none => cases h
    | some c =>
      obtain ⟨source, hs, hnew⟩ := resolveCronFromSchedule_ok hc
      rcases bind_error h with hn | ⟨s, hn, h⟩
      · obtain ⟨d, hd⟩ := nextCronRunAtMs_error hn
        exact .inr ⟨_, _, .inr ⟨c, d, hnew, hd⟩⟩
      · cases h

variable {anchorMs everyMs : FieldValue}

theorem everyRun_none (nowMs : ℚ) (h : coerceFiniteScheduleNumber deps everyMs = none) :
    computeNextRunAtMs deps (.every everyMs anchorMs) nowMs = .ok none := by
  simp only [computeNextRunAtMs, h]

theorem everyRun (anchorMs : FieldValue) {everyMsRaw : ℚ} (nowMs : ℚ)
    (h : coerceFiniteScheduleNumber deps everyMs = some everyMsRaw) :
    computeNextRunAtMs deps (.every everyMs anchorMs) nowMs =
      .ok (some (if nowMs < anchorOf deps anchorMs nowMs then anchorOf deps anchorMs nowMs
        else slot (intervalOf everyMsRaw) (anchorOf deps anchorMs nowMs)
          (steps (intervalOf everyMsRaw) (anchorOf deps anchorMs nowMs) nowMs).toNat)) := by
  simp only [computeNextRunAtMs, h]
  split
  · rfl
  · rw [slot, toNat_steps]

theorem anchor_le_slot {everyMs anchor : ℤ} (he : 1 ≤ everyMs) (k : ℕ) :
    (anchor : ℚ) ≤ slot everyMs anchor k := by
  have he' : (0 : ℚ) ≤ everyMs := by exact_mod_cast (show 0 ≤ everyMs by omega)
  have hk : (0 : ℚ) ≤ k * everyMs := mul_nonneg (Nat.cast_nonneg k) he'
  unfold slot
  linarith

/-- The next run is in the future and is the first one, exactly when now is not on a slot of the
interval after its anchor. -/
theorem computeNextRunAtMs_promised_iff (deps : Deps) (slots : String → String → Set ℤ)
    (schedule : StoredSchedule) (nowMs : ℚ) (hcroner : CronerOk deps slots nowMs) :
    Promised deps slots schedule nowMs ↔ ¬ LandsOnSlot deps schedule nowMs := by
  constructor
  · intro hp hland
    cases schedule with
    | atTime atText atMs => exact hland
    | cron expr cron tz => exact hland
    | every everyMs anchorMs =>
      obtain ⟨everyMsRaw, hraw, hon⟩ := hland
      have he : 1 ≤ intervalOf everyMsRaw := le_max_left _ _
      have ha : ¬ nowMs < anchorOf deps anchorMs nowMs := by
        obtain ⟨k, -, hle, -⟩ := hon
        exact not_lt.mpr ((anchor_le_slot he k).trans hle)
      have hrun := everyRun anchorMs nowMs hraw
      rw [if_neg ha] at hrun
      exact absurd (hp.future _ hrun) (not_lt.mpr (slot_steps_le he hon))
  · intro hland
    refine ⟨?_, ?_, ?_, ?_⟩
    · intro t ht
      cases schedule with
      | atTime atText atMs =>
        exact of_decide_eq_true (filter_eq_some_iff.mp (Except.ok.inj ht)).2
      | every everyMs anchorMs =>
        rcases hraw : coerceFiniteScheduleNumber deps everyMs with - | everyMsRaw
        · rw [everyRun_none nowMs hraw] at ht
          cases ht
        · rw [everyRun anchorMs nowMs hraw] at ht
          cases ht
          split
          · assumption
          · rename_i hge
            exact lt_slot_steps (le_max_left _ _) (not_lt.mp hge) fun hon =>
              hland ⟨everyMsRaw, hraw, hon⟩
      | cron expr cron tz =>
        obtain ⟨c, s, -, hs, rfl⟩ := cronRun_ok ht
        exact (nextCronRunAtMs_ok hs).1
    · rintro everyMs anchorMs everyMsRaw rfl hraw
      have he : 1 ≤ intervalOf everyMsRaw := le_max_left _ _
      refine ⟨_, everyRun anchorMs nowMs hraw, fun hlt => if_pos hlt, fun hge => ?_⟩
      rw [if_neg (not_lt.mpr hge)]
      exact isLeast_steps he hge fun hon => hland ⟨everyMsRaw, hraw, hon⟩
    · rintro expr cron tz t rfl ht
      obtain ⟨c, s, hc, hs, rfl⟩ := cronRun_ok ht
      obtain ⟨source, hsource, hnew⟩ := resolveCronFromSchedule_ok hc
      obtain ⟨hlt, d, run, hd, hj⟩ := nextCronRunAtMs_ok hs
      exact ⟨source, hsource, s, hcroner.mem hnew hd hj hlt, rfl⟩
    · intro e he
      cases schedule with
      | atTime atText atMs => cases he
      | every everyMs anchorMs =>
        rcases hraw : coerceFiniteScheduleNumber deps everyMs with - | everyMsRaw
        · rw [everyRun_none nowMs hraw] at he
          cases he
        · rw [everyRun anchorMs nowMs hraw] at he
          cases he
      | cron expr cron tz => exact ⟨expr, cron, tz, rfl, cronRun_error he⟩

/-- The start of every hour after a date. -/
def hourly : Croner where
  nextRun
    | none => .error "CronDate: Invalid date passed to CronDate constructor"
    | some d => .ok (some (some ((d / 3600000 + 1) * 3600000)))

/-- A machine that knows one expression. -/
def hourlyDeps : Deps where
  number := fun _ => .nan
  dateParse := fun _ => none
  timeZone := "UTC"
  newCron expr _ :=
    if expr = "0 * * * *" then .ok hourly else .error "CronPattern: mask or range is invalid."

/-- The slots of that expression. -/
def hourlySlots (_expr _zone : String) : Set ℤ := {t | 3600000 ∣ t}

theorem hourlyDeps_ok (nowMs : ℚ) : CronerOk hourlyDeps hourlySlots nowMs := by
  have hnew (expr zone : String) {cron : Croner} (h : hourlyDeps.newCron expr zone = .ok cron) :
      cron = hourly := by
    simp only [hourlyDeps] at h
    split at h
    · exact (Except.ok.inj h).symm
    · cases h
  constructor
  · intro expr zone cron d t hc ht
    obtain rfl := hnew expr zone hc
    have ht' : (d / 3600000 + 1) * 3600000 = t := by simpa [hourly] using ht
    refine .inr ⟨?_, by omega, ?_⟩
    · show 3600000 ∣ t
      omega
    · intro s (hs : 3600000 ∣ s) hlt
      omega
  · intro expr zone cron t hc ht
    obtain rfl := hnew expr zone hc
    cases ht

/-- An hour has just begun: its own slot is not taken again. -/
theorem computeNextRunAtMs_promised_hourly :
    computeNextRunAtMs hourlyDeps (.cron (.text "0 * * * *") .other .other) 7200000 =
        .ok (some 10800000) ∧
      Promised hourlyDeps hourlySlots (.cron (.text "0 * * * *") .other .other) 7200000 :=
  ⟨by decide +kernel,
    (computeNextRunAtMs_promised_iff hourlyDeps hourlySlots (.cron (.text "0 * * * *") .other .other)
      7200000 (hourlyDeps_ok 7200000)).mpr id⟩

/-- On the first slot after the anchor, that slot is found again. -/
theorem computeNextRunAtMs_now :
    computeNextRunAtMs hourlyDeps (.every (.number (.fin 30000)) (.number (.fin 0))) 30000 =
        .ok (some 30000) ∧
      ¬ Promised hourlyDeps hourlySlots (.every (.number (.fin 30000)) (.number (.fin 0))) 30000 := by
  have hrun : computeNextRunAtMs hourlyDeps (.every (.number (.fin 30000)) (.number (.fin 0))) 30000 =
      .ok (some 30000) := by decide +kernel
  exact ⟨hrun, fun h => absurd (h.future 30000 hrun) (lt_irrefl 30000)⟩

end Foxclaw.Cron.NextRun
