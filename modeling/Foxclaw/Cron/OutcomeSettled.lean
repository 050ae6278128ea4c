import Foxclaw.Cron.Timer

/-!
# What the outcome of a run leaves behind

`applyJobResult` takes the outcome of a run to its job. What it should leave is said at once for
every kind of schedule and every outcome (`Settled`). One part fails on three ways through it:
a disabled job that still waits for a slot (`StaysArmed`).

## What is proved

* `settleAtJob_cases`, `naturalNextRun_cases` — the ways through, with what each leaves.
* `applyJobResult_settled_iff` — what is promised holds when the job does not stay armed.
* `counted_applyJobResults` — over any outcomes, the count of errors is that of the last ones;
  `waits_applyJobResults` — and the job waits for their backoff.
-/

namespace Foxclaw.Cron

variable (deps : CronDeps) (retry : RetryConfig)

/-! ### What is promised -/

/-- How many errors there are since the last outcome that was none. -/
def errorsSince (statuses : List CronRunStatus) : ℕ :=
  (statuses.reverse.takeWhile (· == .error)).length

theorem errorsSince_append_error (statuses : List CronRunStatus) :
    errorsSince (statuses ++ [.error]) = errorsSince statuses + 1 := by
  simp [errorsSince]

theorem errorsSince_append_of_ne {status : CronRunStatus} (h : status ≠ .error)
    (statuses : List CronRunStatus) : errorsSince (statuses ++ [status]) = 0 := by
  simp [errorsSince, h]

/-- What `applyJobResult` promises of the job it makes. -/
structure Settled (job : CronJob) (result : JobResult) (job' : CronJob) : Prop where
  notRunning : job'.state.runningAtMs = none
  /-- A job that is disabled waits for no slot. -/
  unarmed : job'.enabled = false → job'.state.nextRunAtMs = none
  /-- After an error a job that runs again waits for the backoff, -/
  backoff : job.schedule.isAt = false → result.status = .error → job'.enabled = true →
    ∃ next, job'.state.nextRunAtMs = some next ∧ result.endedAt +
      errorBackoffMs (job'.state.consecutiveErrors.getD 0) DEFAULT_BACKOFF_SCHEDULE_MS ≤ next
  /-- and after a success one with a cron expression waits for the gap. -/
  refire : job.schedule.isCron = true → result.status = .ok → job'.enabled = true →
    ∃ next, job'.state.nextRunAtMs = some next ∧ result.endedAt + MIN_REFIRE_GAP_MS ≤ next
  /-- The count is that of the errors since the last outcome that was none. -/
  counted : ∀ earlier : List CronRunStatus,
    job.state.consecutiveErrors.getD 0 = errorsSince earlier →
    job'.state.consecutiveErrors = some ↑(errorsSince (earlier ++ [result.status]))

/-- A one-shot job is tried again. -/
def retries (job : CronJob) (result : JobResult) : Bool :=
  isTransientCronError result.error retry.retryOn &&
    decide (job.state.consecutiveErrors.getD 0 + 1 ≤ retry.attempts)

/-- The next run cannot be computed, once more than is put up with. -/
def AutoDisables (job : CronJob) (result : JobResult) : Prop :=
  MAX_SCHEDULE_ERRORS ≤ job.state.scheduleErrorCount.getD 0 + 1 ∧
    ∃ err, computeJobNextRunAtMs deps (recordResult job result) result.endedAt = .error err

/-- The job ends up disabled and with a slot. -/
inductive StaysArmed (job : CronJob) (result : JobResult) : Prop
  /-- It was disabled and is deleted with the slot it had. -/
  | deleted : job.schedule.isAt = true → job.enabled = false → job.deleteAfterRun = some true →
      result.status = .ok → job.state.nextRunAtMs ≠ none → StaysArmed job result
  /-- It was disabled and is to be tried again. -/
  | retried : job.schedule.isAt = true → job.enabled = false → result.status = .error →
      retries retry job result = true → StaysArmed job result
  /-- It is disabled as its next run cannot be computed, and then given a slot. -/
  | autoDisabled : job.schedule.isCron = true → job.enabled = true →
      AutoDisables deps job result → StaysArmed job result

/-! ### The ways through -/

section Ways

variable {job : CronJob} {result : JobResult}

theorem recordResult_consecutiveErrors (job : CronJob) (result : JobResult) :
    (recordResult job result).state.consecutiveErrors =
      if result.status = .error then some (job.state.consecutiveErrors.getD 0 + 1) else some 0 := rfl

theorem counted_recordResult (result : JobResult) {earlier : List CronRunStatus}
    (h : job.state.consecutiveErrors.getD 0 = errorsSince earlier) :
    (recordResult job result).state.consecutiveErrors =
      some ↑(errorsSince (earlier ++ [result.status])) := by
  rw [recordResult_consecutiveErrors]
  split
  · rename_i hs
    rw [hs, errorsSince_append_error, h]
    rfl
  · rename_i hs
    rw [errorsSince_append_of_ne hs]
    rfl

/-- A one-shot job that is kept is disabled, or waits to be tried again. -/
theorem settleAtJob_cases (job : CronJob) (result : JobResult) :
    (result.status = .error ∧ retries retry job result = true ∧
        ∃ next, settleAtJob retry (recordResult job result) result =
          setNext (recordResult job result) (some next)) ∨
      (¬ (result.status = .error ∧ retries retry job result = true) ∧
        settleAtJob retry (recordResult job result) result =
          disableJob (recordResult job result)) := by
  unfold settleAtJob
  by_cases hs : result.status = .error
  · have hc : (recordResult job result).state.consecutiveErrors.getD 1 =
        job.state.consecutiveErrors.getD 0 + 1 := by
      rw [recordResult_consecutiveErrors, if_pos hs]
      rfl
    simp only [hs, if_true, hc, true_and]
    by_cases hr : retries retry job result = true
    · exact .inl ⟨hr, _, if_pos hr⟩
    · exact .inr ⟨hr, if_neg hr⟩
  · simp [hs]

/-- The next run is found, or the error is recorded. -/
theorem naturalNextRun_cases (job : CronJob) (prevLastRunAtMs : Option ℤ) (endedAt : ℤ)
    (preserveSchedule : Bool) :
    (∃ next, naturalNextRun deps job prevLastRunAtMs endedAt preserveSchedule = (job, next) ∧
        ∀ err, job.schedule.isEvery = false →
          computeJobNextRunAtMs deps job endedAt ≠ .error err) ∨
      (∃ err, computeJobNextRunAtMs deps job endedAt = .error err ∧ job.schedule.isEvery = false ∧
        naturalNextRun deps job prevLastRunAtMs endedAt preserveSchedule =
          (recordScheduleComputeError job err, none)) := by
  unfold naturalNextRun
  cases hevery : job.schedule.isEvery with
  | false =>
    simp only [Bool.and_false, Bool.false_eq_true, if_false]
    cases hnext : computeJobNextRunAtMs deps job endedAt with
    | ok next => exact .inl ⟨next, rfl, fun err _ h => by cases h⟩
    | error err => exact .inr ⟨err, rfl, trivial, rfl⟩
  | true =>
    -- The run of an interval can always be computed.
    generalize hc : (if preserveSchedule && true then
      { job with state := { job.state with lastRunAtMs := prevLastRunAtMs } } else job) = counted
    have hsched : counted.schedule = job.schedule := by
      subst hc
      split <;> rfl
    cases hnext : computeJobNextRunAtMs deps counted endedAt with
    | ok next =>
      refine .inl ⟨next, ?_, fun err h => absurd h Bool.noConfusion⟩
      simp only [hnext]
    | error err =>
      have hcron := isCron_of_computeJobNextRunAtMs_error deps hnext
      rw [hsched] at hcron
      revert hevery hcron
      cases job.schedule <;> simp [CronSchedule.isEvery, CronSchedule.isCron]

theorem recordScheduleComputeError_enabled (job : CronJob) (err : String) :
    (recordScheduleComputeError job err).enabled =
      (job.enabled && decide (job.state.scheduleErrorCount.getD 0 + 1 < MAX_SCHEDULE_ERRORS)) := rfl

theorem floor_le (floor : ℤ) (next : Option ℤ) : floor ≤ (next.map (max · floor)).getD floor := by
  cases next with
  | none => exact Int.le_refl floor
  | some n => exact Int.le_max_right n floor

theorem isCron_of_not {schedule : CronSchedule} (hat : schedule.isAt = false)
    (hevery : schedule.isEvery = false) : schedule.isCron = true := by
  cases schedule with
  | atTime instant => cases hat
  | every everyMs anchorMs => cases hevery
  | cron expr tz staggerMs => rfl

/-- A job that runs again: whether it stays enabled, and the floor of its next run. -/
theorem settleRecurringJob_spec (hat : job.schedule.isAt = false) (he : job.enabled = true)
    (result : JobResult) (preserveSchedule : Bool) {job' : CronJob}
    (h : settleRecurringJob deps (recordResult job result) job.state.lastRunAtMs result
      preserveSchedule = job') :
    (job'.enabled = false ↔ job.schedule.isCron = true ∧ AutoDisables deps job result) ∧
      (result.status = .error → ∃ next, job'.state.nextRunAtMs = some next ∧ result.endedAt +
        errorBackoffMs (job.state.consecutiveErrors.getD 0 + 1) DEFAULT_BACKOFF_SCHEDULE_MS ≤ next) ∧
      (result.status ≠ .error → job.schedule.isCron = true → ∃ next,
        job'.state.nextRunAtMs = some next ∧ result.endedAt + MIN_REFIRE_GAP_MS ≤ next) := by
  have henabled : (recordResult job result).enabled = true := he
  have hsched : (recordResult job result).schedule = job.schedule := rfl
  subst h
  unfold settleRecurringJob
  simp only [henabled, Bool.not_true, Bool.false_eq_true, if_false]
  -- What is common to the ways that follow: the job that is given a slot, and the slot.
  obtain ⟨natural, next, hn, hnatural⟩ : ∃ natural next,
      naturalNextRun deps (recordResult job result) job.state.lastRunAtMs result.endedAt
        preserveSchedule = (natural, next) ∧
      (natural.enabled = false ↔ job.schedule.isCron = true ∧ AutoDisables deps job result) := by
    rcases naturalNextRun_cases deps (recordResult job result) job.state.lastRunAtMs
      result.endedAt preserveSchedule with ⟨next, hn, hok⟩ | ⟨err, herr, hevery, hn⟩
    · refine ⟨_, _, hn, ?_⟩
      rw [henabled]
      refine ⟨fun h => absurd h Bool.noConfusion, ?_⟩
      rintro ⟨hcron, -, err, herr⟩
      refine absurd herr (hok err ?_)
      rw [hsched]
      revert hcron
      cases job.schedule <;> simp [CronSchedule.isCron, CronSchedule.isEvery]
    · refine ⟨_, _, hn, ?_⟩
      have hcount : (recordResult job result).state.scheduleErrorCount =
        job.state.scheduleErrorCount := rfl
      rw [recordScheduleComputeError_enabled, henabled, hcount, Bool.true_and, decide_eq_false_iff_not,
        Int.not_lt]
      exact ⟨fun hmax => ⟨isCron_of_not hat hevery, hmax, err, herr⟩, fun hauto => hauto.2.1⟩
  simp only [hn]
  have hc (hs : result.status = .error) : (recordResult job result).state.consecutiveErrors.getD 1 =
      job.state.consecutiveErrors.getD 0 + 1 := by
    rw [recordResult_consecutiveErrors, if_pos hs]
    rfl
  split_ifs with hs hcron
  · refine ⟨hnatural, fun _ => ⟨_, rfl, ?_⟩, fun h => absurd hs h⟩
    rw [hc hs]
    exact floor_le _ next
  · exact ⟨hnatural, fun h => absurd h hs, fun _ _ => ⟨_, rfl, floor_le _ next⟩⟩
  · exact ⟨hnatural, fun h => absurd h hs, fun _ h => absurd h hcron⟩

/-- The part that holds on every way: the marker and the count of errors. -/
theorem applyJobResult_state (job : CronJob) (result : JobResult) (preserveSchedule : Bool) :
    (applyJobResult deps retry job result preserveSchedule).1.state.runningAtMs = none ∧
      (applyJobResult deps retry job result preserveSchedule).1.state.consecutiveErrors =
        (recordResult job result).state.consecutiveErrors := by
  unfold applyJobResult
  simp only
  split_ifs
  · exact ⟨rfl, rfl⟩
  · rcases settleAtJob_cases retry job result with ⟨-, -, next, hn⟩ | ⟨-, hn⟩
    · rw [hn]
      exact ⟨rfl, rfl⟩
    · rw [hn]
      exact ⟨rfl, rfl⟩
  · unfold settleRecurringJob
    split_ifs
    · exact ⟨rfl, rfl⟩
    all_goals
      rcases naturalNextRun_cases deps (recordResult job result) job.state.lastRunAtMs
        result.endedAt preserveSchedule with ⟨next, hn, -⟩ | ⟨err, -, -, hn⟩
      · simp only [hn]
        exact ⟨rfl, rfl⟩
      · simp only [hn]
        exact ⟨rfl, rfl⟩

end Ways

/-! ### Every outcome -/

section Outcomes

variable {deps retry} {job job' : CronJob} {result : JobResult} {preserveSchedule : Bool}

/-- Whether a one-shot job is left disabled and with a slot. -/
theorem unarmed_at (hat : job.schedule.isAt = true)
    (h : (applyJobResult deps retry job result preserveSchedule).1 = job') :
    (job'.enabled = false → job'.state.nextRunAtMs = none) ↔ ¬ StaysArmed deps retry job result := by
  have hcron : job.schedule.isCron ≠ true := by
    revert hat
    cases job.schedule <;> simp [CronSchedule.isAt, CronSchedule.isCron]
  subst h
  unfold applyJobResult
  simp only [hat, Bool.true_and, if_true]
  split_ifs with hdelete
  · obtain ⟨hdelete, hok⟩ : job.deleteAfterRun = some true ∧ result.status = .ok := by
      simpa using hdelete
    constructor
    · rintro h (⟨-, he, -, -, hnext⟩ | ⟨-, -, hs, -⟩ | ⟨hc, -, -⟩)
      · exact hnext (h he)
      · rw [hok] at hs
        cases hs
      · exact hcron hc
    · intro h he
      by_contra hnext
      exact h (.deleted hat he hdelete hok hnext)
  · rcases settleAtJob_cases retry job result with ⟨hs, hr, next, hn⟩ | ⟨hnot, hn⟩
    · rw [hn]
      constructor
      · rintro h (⟨-, -, -, hok, -⟩ | ⟨-, he, -, -⟩ | ⟨hc, -, -⟩)
        · rw [hs] at hok
          cases hok
        · cases h he
        · exact hcron hc
      · intro h he
        exact absurd (.retried hat he hs hr) h
    · rw [hn]
      refine ⟨?_, fun _ _ => rfl⟩
      rintro - (⟨-, -, hd, hok, -⟩ | ⟨-, -, hs, hr⟩ | ⟨hc, -, -⟩)
      · exact hdelete (by simp [hd, hok])
      · exact hnot ⟨hs, hr⟩
      · exact hcron hc

/-- What is promised of a job that runs again. -/
theorem settled_recurring (hat : job.schedule.isAt = false) (he : job.enabled = true)
    (h : (applyJobResult deps retry job result preserveSchedule).1 = job') :
    ((job'.enabled = false → job'.state.nextRunAtMs = none) ↔ ¬ StaysArmed deps retry job result) ∧
      (result.status = .error → ∃ next, job'.state.nextRunAtMs = some next ∧ result.endedAt +
        errorBackoffMs (job.state.consecutiveErrors.getD 0 + 1) DEFAULT_BACKOFF_SCHEDULE_MS ≤ next) ∧
      (job.schedule.isCron = true → result.status = .ok → ∃ next,
        job'.state.nextRunAtMs = some next ∧ result.endedAt + MIN_REFIRE_GAP_MS ≤ next) := by
  have hrun : settleRecurringJob deps (recordResult job result) job.state.lastRunAtMs result
      preserveSchedule = job' := by
    rw [← h]
    simp [applyJobResult, hat]
  obtain ⟨hoff, herror, hother⟩ := settleRecurringJob_spec deps hat he result preserveSchedule hrun
  refine ⟨?_, herror, fun hcron hok => hother (by rw [hok]; decide) hcron⟩
  constructor
  · rintro hunarmed (⟨ha, -⟩ | ⟨ha, -⟩ | ⟨hcron, -, hauto⟩)
    · rw [hat] at ha
      cases ha
    · rw [hat] at ha
      cases ha
    · have hnone := hunarmed (hoff.mpr ⟨hcron, hauto⟩)
      obtain ⟨next, hnext, -⟩ : ∃ next, job'.state.nextRunAtMs = some next ∧ True := by
        by_cases hs : result.status = .error
        · obtain ⟨next, hnext, -⟩ := herror hs
          exact ⟨next, hnext, trivial⟩
        · obtain ⟨next, hnext, -⟩ := hother hs hcron
          exact ⟨next, hnext, trivial⟩
      rw [hnone] at hnext
      cases hnext
  · intro hnot hdisabled
    obtain ⟨hcron, hauto⟩ := hoff.mp hdisabled
    exact absurd (.autoDisabled hcron he hauto) hnot

theorem applyJobResult_of_disabled (hat : job.schedule.isAt = false) (he : job.enabled = false) :
    (applyJobResult deps retry job result preserveSchedule).1 =
      setNext (recordResult job result) none := by
  have henabled : (recordResult job result).enabled = false := he
  simp [applyJobResult, hat, settleRecurringJob, henabled]

end Outcomes

/-- What is promised of an outcome holds, unless the job is left disabled with a slot. -/
theorem applyJobResult_settled_iff (deps : CronDeps) (retry : RetryConfig) (job : CronJob)
    (result : JobResult) (preserveSchedule : Bool) :
    Settled job result (applyJobResult deps retry job result preserveSchedule).1 ↔
      ¬ StaysArmed deps retry job result := by
  obtain ⟨hrunning, hcount⟩ := applyJobResult_state deps retry job result preserveSchedule
  have hcounted (earlier : List CronRunStatus)
      (h : job.state.consecutiveErrors.getD 0 = errorsSince earlier) :=
    hcount.trans (counted_recordResult result h)
  have herrors (hs : result.status = .error) := congrArg (Option.getD · 0)
    (hcount.trans (by rw [recordResult_consecutiveErrors, if_pos hs]))
  generalize hj : (applyJobResult deps retry job result preserveSchedule).1 = job' at *
  cases hat : job.schedule.isAt with
  | true =>
    have hcron : job.schedule.isCron = true → False := by
      revert hat
      cases job.schedule <;> simp [CronSchedule.isAt, CronSchedule.isCron]
    rw [← unarmed_at hat hj]
    refine ⟨fun h => h.unarmed, fun h => ⟨hrunning, h, fun h' => ?_, fun h' => ?_, hcounted⟩⟩
    · rw [hat] at h'
      cases h'
    · exact (hcron h').elim
  | false =>
    cases he : job.enabled with
    | true =>
      obtain ⟨hunarmed, herror, hok⟩ := settled_recurring hat he hj
      rw [← hunarmed]
      refine ⟨fun h => h.unarmed, fun h => ⟨hrunning, h, fun _ hs _ => ?_, fun hc hs _ => hok hc hs,
        hcounted⟩⟩
      rw [herrors hs]
      exact herror hs
    | false =>
      rw [applyJobResult_of_disabled hat he] at hj
      subst hj
      refine iff_of_true ⟨hrunning, fun _ => rfl, fun _ _ h => ?_, fun _ _ h => ?_, hcounted⟩ ?_
      · rw [show (setNext (recordResult job result) none).enabled = job.enabled from rfl, he] at h
        cases h
      · rw [show (setNext (recordResult job result) none).enabled = job.enabled from rfl, he] at h
        cases h
      · rintro (⟨ha, -⟩ | ⟨ha, -⟩ | ⟨-, h, -⟩)
        · rw [hat] at ha
          cases ha
        · rw [hat] at ha
          cases ha
        · rw [he] at h
          cases h

/-- The outcomes of several runs, one after the other. -/
def applyJobResults (job : CronJob) (outcomes : List (JobResult × Bool)) : CronJob :=
  outcomes.foldl (fun job outcome => (applyJobResult deps retry job outcome.1 outcome.2).1) job

/-- After any outcomes, the count is that of the errors at their end. -/
theorem counted_applyJobResults {job : CronJob} {earlier : List CronRunStatus}
    (h : job.state.consecutiveErrors.getD 0 = errorsSince earlier) (outcomes : List (JobResult × Bool)) :
    (applyJobResults deps retry job outcomes).state.consecutiveErrors.getD 0 =
      errorsSince (earlier ++ outcomes.map fun outcome => outcome.1.status) := by
  induction outcomes generalizing job earlier with
  | nil =>
    rw [List.map_nil, List.append_nil]
    exact h
  | cons outcome outcomes ih =>
    have hstep := (applyJobResult_state deps retry job outcome.1 outcome.2).2.trans
      (counted_recordResult outcome.1 h)
    rw [List.map_cons, List.append_cons]
    exact ih (by rw [hstep]; rfl)

theorem schedule_applyJobResults (job : CronJob) (outcomes : List (JobResult × Bool)) :
    (applyJobResults deps retry job outcomes).schedule = job.schedule := by
  induction outcomes generalizing job with
  | nil => rfl
  | cons outcome outcomes ih =>
    exact (ih _).trans (applyJobResult_frame deps retry job outcome.1 outcome.2).2

/-- After any outcomes, the last of which is an error, a job that runs again waits for the backoff
of all the errors at their end. -/
theorem waits_applyJobResults {job : CronJob} {earlier : List CronRunStatus}
    (hat : job.schedule.isAt = false) (h : job.state.consecutiveErrors.getD 0 = errorsSince earlier)
    (outcomes : List (JobResult × Bool)) {result : JobResult} (hs : result.status = .error)
    (preserveSchedule : Bool)
    (he : (applyJobResults deps retry job (outcomes ++ [(result, preserveSchedule)])).enabled = true) :
    ∃ next, (applyJobResults deps retry job
        (outcomes ++ [(result, preserveSchedule)])).state.nextRunAtMs = some next ∧
      result.endedAt + errorBackoffMs
        (errorsSince ((earlier ++ outcomes.map fun outcome => outcome.1.status) ++ [.error]))
        DEFAULT_BACKOFF_SCHEDULE_MS ≤ next := by
  have hlast : applyJobResults deps retry job (outcomes ++ [(result, preserveSchedule)]) =
      (applyJobResult deps retry (applyJobResults deps retry job outcomes) result preserveSchedule).1 :=
    List.foldl_concat ..
  rw [hlast] at he ⊢
  have hran : (applyJobResults deps retry job outcomes).schedule.isAt = false := by
    rwa [schedule_applyJobResults]
  have hon : (applyJobResults deps retry job outcomes).enabled = true := by
    by_contra hoff
    rw [applyJobResult_of_disabled hran (by simpa using hoff)] at he
    exact hoff he
  obtain ⟨-, hwaits, -⟩ := settled_recurring hran hon rfl
  rw [errorsSince_append_error, Int.natCast_succ, ← counted_applyJobResults deps retry h outcomes]
  exact hwaits hs

/-- Libraries that do not know the time zone. -/
def noZoneDeps : CronDeps where
  nextRun := fun _ _ _ => .error "RangeError: Invalid time zone specified: Mars/Olympus"
  previousRun := fun _ _ _ => .error "RangeError: Invalid time zone specified: Mars/Olympus"
  digest := fun _ => 0

/-- A job whose next run could not be computed twice. -/
def noZoneJob : CronJob where
  id := "job"
  enabled := true
  deleteAfterRun := none
  createdAtMs := some 0
  updatedAtMs := 0
  schedule := .cron "30 9 * * *" (some "Mars/Olympus") none
  state := { CronJobState.empty with scheduleErrorCount := some 2 }

/-- A run of it that failed. -/
def failedRun : JobResult := ⟨.error, some "boom", 1000, 2000⟩

/-- Two failures of a job that runs every minute. -/
theorem waits_applyJobResults_every :
    ∃ next, (applyJobResults noZoneDeps ⟨none, [], []⟩ { noZoneJob with schedule := .every 60000 (some 0) }
        [(failedRun, false), (failedRun, false)]).state.nextRunAtMs = some next ∧
      2000 + errorBackoffMs 2 DEFAULT_BACKOFF_SCHEDULE_MS ≤ next :=
  waits_applyJobResults noZoneDeps ⟨none, [], []⟩ rfl (show _ = ((errorsSince [] : ℕ) : ℤ) from rfl)
    [(failedRun, false)] rfl false (by decide +kernel)

/-- The third time it is disabled, and then given a slot. -/
theorem applyJobResult_noZone :
    (applyJobResult noZoneDeps ⟨none, [], []⟩ noZoneJob failedRun false).1.enabled = false ∧
      (applyJobResult noZoneDeps ⟨none, [], []⟩ noZoneJob failedRun false).1.state.nextRunAtMs =
        some 32000 ∧
      ¬ Settled noZoneJob failedRun
        (applyJobResult noZoneDeps ⟨none, [], []⟩ noZoneJob failedRun false).1 := by
  have hoff : (applyJobResult noZoneDeps ⟨none, [], []⟩ noZoneJob failedRun false).1.enabled = false := by
    decide +kernel
  have hnext : (applyJobResult noZoneDeps ⟨none, [], []⟩ noZoneJob failedRun false).1.state.nextRunAtMs =
      some 32000 := by
    decide +kernel
  refine ⟨hoff, hnext, fun h => ?_⟩
  have hnone := h.unarmed hoff
  rw [hnext] at hnone
  cases hnone

end Foxclaw.Cron
