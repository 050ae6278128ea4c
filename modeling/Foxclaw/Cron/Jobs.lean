import Foxclaw.Cron.Schedule

/-!
# Cron jobs

This module models `cron/service/jobs.ts`: when a job next runs, what the two recompute
passes do to the jobs of a store, and how a job is made and patched.

## The model

A job has the fields that decide when it runs (`CronJob`). What it does when it runs (its
payload, its session, its delivery and its alerts) and its name are left out; whether one
of the assertions about them fails is given with the call (`rejected`, `PatchFailure`).

A function that mutates a job returns the job, and one that walks a store returns the jobs
and whether any of them changed.
-/

namespace Foxclaw.Cron

inductive CronRunStatus where
  | ok
  | error
  | skipped
  deriving DecidableEq

structure CronJobState where
  nextRunAtMs : Option ℤ
  /-- The marker of a run in progress. -/
  runningAtMs : Option ℤ
  lastRunAtMs : Option ℤ
  lastRunStatus : Option CronRunStatus
  lastStatus : Option CronRunStatus
  lastError : Option String
  lastDurationMs : Option ℤ
  /-- How many runs have failed since one did not. -/
  consecutiveErrors : Option ℤ
  /-- How often the schedule could not be computed. -/
  scheduleErrorCount : Option ℤ
  deriving DecidableEq

/-- A state without any field. -/
def CronJobState.empty : CronJobState :=
  ⟨none, none, none, none, none, none, none, none, none⟩

structure CronJob where
  id : String
  enabled : Bool
  /-- A one-shot job is deleted once it ran. -/
  deleteAfterRun : Option Bool
  createdAtMs : Option ℤ
  updatedAtMs : ℤ
  schedule : CronSchedule
  state : CronJobState
  deriving DecidableEq

def STUCK_RUN_MS : ℤ := 2 * 60 * 60 * 1000

def MAX_SCHEDULE_ERRORS : ℤ := 3

section Runs

variable (deps : CronDeps)

/-! ### The next run of a job -/

def resolveStableCronOffsetMs (jobId : String) (staggerMs : ℤ) : ℤ :=
  if staggerMs ≤ 1 then 0 else (deps.digest jobId : ℤ) % staggerMs

/-- The attempts of `computeStaggeredCronNextRunAtMs`. -/
def staggeredNext (schedule : CronSchedule) (offsetMs nowMs : ℤ) :
    ℕ → ℤ → Except String (Option ℤ)
  | 0, _ => .ok none
  | attempts + 1, cursorMs => do
    match ← computeNextRunAtMs deps schedule cursorMs with
    | none => return none
    | some baseNext =>
      if baseNext + offsetMs > nowMs then return some (baseNext + offsetMs)
      else staggeredNext schedule offsetMs nowMs attempts (max (cursorMs + 1) (baseNext + 1000))

variable (job : CronJob) (nowMs : ℤ)

def computeStaggeredCronNextRunAtMs : Except String (Option ℤ) :=
  match job.schedule with
  | .cron expr _ staggerMs =>
    let offsetMs := resolveStableCronOffsetMs deps job.id (resolveCronStaggerMs expr staggerMs)
    if offsetMs ≤ 0 then computeNextRunAtMs deps job.schedule nowMs
    else staggeredNext deps job.schedule offsetMs nowMs 4 (max 0 (nowMs - offsetMs))
  | _ => computeNextRunAtMs deps job.schedule nowMs

/-- The attempts of `computeStaggeredCronPreviousRunAtMs`. -/
def staggeredPrevious (schedule : CronSchedule) (offsetMs nowMs : ℤ) :
    ℕ → ℤ → Except String (Option ℤ)
  | 0, _ => .ok none
  | attempts + 1, cursorMs => do
    match ← computePreviousRunAtMs deps schedule cursorMs with
    | none => return none
    | some basePrevious =>
      if basePrevious + offsetMs ≤ nowMs then return some (basePrevious + offsetMs)
      else staggeredPrevious schedule offsetMs nowMs attempts (max 0 (basePrevious - 1000))

def computeStaggeredCronPreviousRunAtMs : Except String (Option ℤ) :=
  match job.schedule with
  | .cron expr _ staggerMs =>
    let offsetMs := resolveStableCronOffsetMs deps job.id (resolveCronStaggerMs expr staggerMs)
    if offsetMs ≤ 0 then computePreviousRunAtMs deps job.schedule nowMs
    else staggeredPrevious deps job.schedule offsetMs nowMs 4 (max 0 (nowMs - offsetMs))
  | _ => .ok none

def resolveEveryAnchorMs (anchorMs : Option ℤ) (fallbackAnchorMs : ℤ) : ℤ :=
  max 0 (anchorMs.getD fallbackAnchorMs)

/-- `computeJobNextRunAtMs` of a job with an interval. -/
def nextEveryJobRunAtMs (everyMs : ℤ) (anchorMs : Option ℤ) (nowMs : ℤ) : ℤ :=
  let everyMs := max 1 everyMs
  match (job.state.lastRunAtMs.map (· + everyMs)).filter (· > nowMs) with
  | some nextFromLastRun => nextFromLastRun
  | none =>
    let anchorMs := resolveEveryAnchorMs anchorMs (job.createdAtMs.getD nowMs)
    nextEveryRunAtMs everyMs (some anchorMs) nowMs

/-- `computeJobNextRunAtMs` of a one-shot job. -/
def nextAtJobRunAtMs (instant : Option ℤ) : Option ℤ :=
  match job.state.lastRunAtMs.filter (· ≠ 0) with
  | some lastRunAtMs =>
    if job.state.lastStatus = some .ok then instant.filter (· > lastRunAtMs) else instant
  | none => instant

def computeJobNextRunAtMs : Except String (Option ℤ) :=
  if !job.enabled then .ok none
  else
    match job.schedule with
    | .every everyMs anchorMs => .ok (some (nextEveryJobRunAtMs job everyMs anchorMs nowMs))
    | .atTime instant => .ok (nextAtJobRunAtMs job instant)
    | .cron .. => do
      match ← computeStaggeredCronNextRunAtMs deps job nowMs with
      | some next => return some next
      | none => computeStaggeredCronNextRunAtMs deps job (nowMs / 1000 * 1000 + 1000)

variable {nowMs : ℤ}

/-- Only the next run of a cron expression may fail to be computed. -/
theorem isCron_of_computeJobNextRunAtMs_error {job : CronJob} {err : String}
    (h : computeJobNextRunAtMs deps job nowMs = .error err) : job.schedule.isCron = true := by
  unfold computeJobNextRunAtMs at h
  split at h
  · cases h
  · cases hs : job.schedule with
    | every everyMs anchorMs =>
      rw [hs] at h
      cases h
    | atTime instant =>
      rw [hs] at h
      cases h
    | cron expr tz staggerMs => rfl

def computeJobPreviousRunAtMs (job : CronJob) (nowMs : ℤ) : Except String (Option ℤ) :=
  if !job.enabled || !job.schedule.isCron then .ok none
  else computeStaggeredCronPreviousRunAtMs deps job nowMs

/-! ### The recompute passes -/

def recordScheduleComputeError (job : CronJob) (err : String) : CronJob :=
  let errorCount := job.state.scheduleErrorCount.getD 0 + 1
  { job with
    enabled := job.enabled && decide (errorCount < MAX_SCHEDULE_ERRORS)
    state := { job.state with
      scheduleErrorCount := some errorCount
      nextRunAtMs := none
      lastError := some ("schedule error: " ++ err) } }

/-- A run is in progress for so long that its marker is taken for a leftover. -/
def isStuck (job : CronJob) (nowMs : ℤ) : Bool :=
  job.state.runningAtMs.any fun runningAt => nowMs - runningAt > STUCK_RUN_MS

/-- `normalizeJobTickState`: the job, and whether the walk skips it. -/
def normalizeJobTickState (job : CronJob) (nowMs : ℤ) : CronJob × Bool :=
  if !job.enabled then
    ({ job with state := { job.state with nextRunAtMs := none, runningAtMs := none } }, true)
  else if isStuck job nowMs then
    ({ job with state := { job.state with runningAtMs := none } }, false)
  else (job, false)

@[simp] theorem normalizeJobTickState_id (job : CronJob) (nowMs : ℤ) :
    (normalizeJobTickState job nowMs).1.id = job.id := by
  unfold normalizeJobTickState
  split_ifs <;> rfl

theorem normalizeJobTickState_of_enabled {job : CronJob} (he : job.enabled = true)
    (hs : isStuck job nowMs = false) : normalizeJobTickState job nowMs = (job, false) := by
  unfold normalizeJobTickState
  simp [he, hs]

theorem isStuck_of_none {job : CronJob} (h : job.state.runningAtMs = none) : isStuck job nowMs = false := by
  unfold isStuck
  rw [h]
  rfl

/-- What `walkSchedulableJobs` does to one job. -/
def walkJob (fn : CronJob → ℤ → CronJob) (nowMs : ℤ) (job : CronJob) : CronJob :=
  let tick := normalizeJobTickState job nowMs
  if tick.2 then tick.1 else fn tick.1 nowMs

variable {fn : CronJob → ℤ → CronJob}

theorem walkJob_id (hfn : ∀ job nowMs, (fn job nowMs).id = job.id)
    (nowMs : ℤ) (job : CronJob) : (walkJob fn nowMs job).id = job.id := by
  unfold walkJob
  dsimp only
  split_ifs
  · exact normalizeJobTickState_id job nowMs
  · rw [hfn, normalizeJobTickState_id]

theorem walkJob_of_enabled {job : CronJob} (he : job.enabled = true) (hs : isStuck job nowMs = false) :
    walkJob fn nowMs job = fn job nowMs := by
  unfold walkJob
  rw [normalizeJobTickState_of_enabled he hs]
  rfl

/-- `walkSchedulableJobs`: the jobs, and whether any of them changed. -/
def walkSchedulableJobs (fn : CronJob → ℤ → CronJob) (nowMs : ℤ) (jobs : List CronJob) :
    List CronJob × Bool :=
  (jobs.map (walkJob fn nowMs), jobs.any fun job => walkJob fn nowMs job ≠ job)

def recomputeJobNextRunAtMs (job : CronJob) (nowMs : ℤ) : CronJob :=
  match computeJobNextRunAtMs deps job nowMs with
  | .ok newNext =>
    { job with state := { job.state with
        nextRunAtMs := newNext
        scheduleErrorCount := job.state.scheduleErrorCount.filter (· = 0) } }
  | .error err => recordScheduleComputeError job err

@[simp] theorem recomputeJobNextRunAtMs_id (job : CronJob) (nowMs : ℤ) :
    (recomputeJobNextRunAtMs deps job nowMs).id = job.id := by
  unfold recomputeJobNextRunAtMs
  split <;> rfl

/-- The recompute of a job leaves its marker alone. -/
@[simp] theorem recomputeJobNextRunAtMs_runningAtMs (job : CronJob) (nowMs : ℤ) :
    (recomputeJobNextRunAtMs deps job nowMs).state.runningAtMs = job.state.runningAtMs := by
  unfold recomputeJobNextRunAtMs
  split <;> rfl

/-- What `recomputeNextRuns` does to a job that is not skipped. -/
def recomputeDueOrMissing (job : CronJob) (nowMs : ℤ) : CronJob :=
  if job.state.nextRunAtMs.all (nowMs ≥ ·) then recomputeJobNextRunAtMs deps job nowMs else job

@[simp] theorem recomputeDueOrMissing_id (job : CronJob) (nowMs : ℤ) :
    (recomputeDueOrMissing deps job nowMs).id = job.id := by
  unfold recomputeDueOrMissing
  split_ifs <;> simp

@[simp] theorem recomputeDueOrMissing_runningAtMs (job : CronJob) (nowMs : ℤ) :
    (recomputeDueOrMissing deps job nowMs).state.runningAtMs = job.state.runningAtMs := by
  unfold recomputeDueOrMissing
  split_ifs <;> simp

def recomputeNextRuns (nowMs : ℤ) (jobs : List CronJob) : List CronJob × Bool :=
  walkSchedulableJobs (recomputeDueOrMissing deps) nowMs jobs

/-- The slot the job waits for was already executed. -/
def alreadyExecutedSlot (job : CronJob) (nextRunAtMs : ℤ) : Bool :=
  job.state.lastRunAtMs.any (· ≥ nextRunAtMs)

variable (recomputeExpired : Bool)

/-- What `recomputeNextRunsForMaintenance` does to a job that is not skipped. -/
def recomputeForMaintenance (job : CronJob) (nowMs : ℤ) : CronJob :=
  match job.state.nextRunAtMs with
  | none => recomputeJobNextRunAtMs deps job nowMs
  | some next =>
    if recomputeExpired && decide (nowMs ≥ next) && job.state.runningAtMs.isNone &&
        alreadyExecutedSlot job next then
      recomputeJobNextRunAtMs deps job nowMs
    else job

@[simp] theorem recomputeForMaintenance_id (job : CronJob) (nowMs : ℤ) :
    (recomputeForMaintenance deps recomputeExpired job nowMs).id = job.id := by
  unfold recomputeForMaintenance
  split
  · simp
  · split_ifs <;> simp

@[simp] theorem recomputeForMaintenance_runningAtMs (job : CronJob)
    (nowMs : ℤ) : (recomputeForMaintenance deps recomputeExpired job nowMs).state.runningAtMs =
      job.state.runningAtMs := by
  unfold recomputeForMaintenance
  split
  · simp
  · split_ifs <;> simp

def recomputeNextRunsForMaintenance (nowMs : ℤ) (jobs : List CronJob) : List CronJob × Bool :=
  walkSchedulableJobs (recomputeForMaintenance deps recomputeExpired) nowMs jobs

/-! ### Making and patching a job -/

/-- `CronJobCreate`, with what `createJob` draws and finds. -/
structure CronJobCreate where
  /-- The id `randomUUID` draws. -/
  id : String
  schedule : CronSchedule
  /-- Whether it may run. -/
  enabled : Option Bool
  /-- Whether it is deleted once it ran. -/
  deleteAfterRun : Option Bool
  state : CronJobState
  /-- An assertion about its other fields fails. -/
  rejected : Bool

/-- The schedule `createJob` gives a job. -/
def initialSchedule (schedule : CronSchedule) (now : ℤ) : CronSchedule :=
  match schedule with
  | .every everyMs anchorMs => .every everyMs (some (resolveEveryAnchorMs anchorMs now))
  | .cron expr tz staggerMs =>
    .cron expr tz ((normalizeCronStaggerMs staggerMs).or
      ((resolveDefaultCronStaggerMs expr).or staggerMs))
  | .atTime instant => .atTime instant

def createJob (now : ℤ) (input : CronJobCreate) : Except String CronJob :=
  let schedule := initialSchedule input.schedule now
  let job : CronJob :=
    { id := input.id
      enabled := input.enabled.getD true
      deleteAfterRun := input.deleteAfterRun.or (if schedule.isAt then some true else none)
      createdAtMs := some now
      updatedAtMs := now
      schedule := schedule
      state := input.state }
  if input.rejected then .error "assertion"
  else
    (computeJobNextRunAtMs deps job now).map fun next =>
      { job with state := { job.state with nextRunAtMs := next } }

theorem createJob_id {now : ℤ} {input : CronJobCreate} {job : CronJob}
    (h : createJob deps now input = .ok job) : job.id = input.id := by
  unfold createJob at h
  dsimp only at h
  by_cases hr : input.rejected = true
  · rw [if_pos hr] at h
    cases h
  · rw [if_neg hr] at h
    obtain ⟨next, -, rfl⟩ := map_ok h
    rfl

/-- A partial `CronJobState`: the fields it has, each with its value. -/
structure CronJobStatePatch where
  nextRunAtMs : Option (Option ℤ)
  runningAtMs : Option (Option ℤ)
  lastRunAtMs : Option (Option ℤ)
  lastRunStatus : Option (Option CronRunStatus)
  lastStatus : Option (Option CronRunStatus)
  lastError : Option (Option String)
  lastDurationMs : Option (Option ℤ)
  consecutiveErrors : Option (Option ℤ)
  scheduleErrorCount : Option (Option ℤ)

/-- `{ ...state, ...patch }`. -/
def CronJobStatePatch.apply (patch : CronJobStatePatch) (state : CronJobState) : CronJobState :=
  { nextRunAtMs := patch.nextRunAtMs.getD state.nextRunAtMs
    runningAtMs := patch.runningAtMs.getD state.runningAtMs
    lastRunAtMs := patch.lastRunAtMs.getD state.lastRunAtMs
    lastRunStatus := patch.lastRunStatus.getD state.lastRunStatus
    lastStatus := patch.lastStatus.getD state.lastStatus
    lastError := patch.lastError.getD state.lastError
    lastDurationMs := patch.lastDurationMs.getD state.lastDurationMs
    consecutiveErrors := patch.consecutiveErrors.getD state.consecutiveErrors
    scheduleErrorCount := patch.scheduleErrorCount.getD state.scheduleErrorCount }

/-- Where `applyJobPatch` throws. -/
inductive PatchFailure where
  | name
  /-- The payload or the failure destination does not fit. -/
  | payload
  /-- One of the assertions at the end fails. -/
  | assertion
  deriving DecidableEq

structure CronJobPatch where
  /-- Whether it may run. -/
  enabled : Option Bool
  /-- Whether it is deleted once it ran. -/
  deleteAfterRun : Option Bool
  schedule : Option CronSchedule
  /-- Fields of its state. -/
  state : Option CronJobStatePatch
  /-- Where the patch of its other fields throws, if it does. -/
  fails : Option PatchFailure

/-- The schedule `applyJobPatch` gives a job. -/
def patchSchedule (schedule patch : CronSchedule) : CronSchedule :=
  match patch with
  | .cron expr tz staggerMs =>
    match normalizeCronStaggerMs staggerMs, schedule with
    | some explicitStaggerMs, _ => .cron expr tz (some explicitStaggerMs)
    | none, .cron _ _ staggerMs => .cron expr tz staggerMs
    | none, _ => .cron expr tz ((resolveDefaultCronStaggerMs expr).or staggerMs)
  | _ => patch

/-- `applyJobPatch`: the patched job, or the job as a throw leaves it. -/
def applyJobPatch (job : CronJob) (patch : CronJobPatch) : Except CronJob CronJob :=
  if patch.fails = some .name then .error job
  else
    let job := { job with
      enabled := patch.enabled.getD job.enabled
      deleteAfterRun := patch.deleteAfterRun.or job.deleteAfterRun
      schedule := (patch.schedule.map (patchSchedule job.schedule)).getD job.schedule }
    if patch.fails = some .payload then .error job
    else
      let job := { job with state := (patch.state.map (·.apply job.state)).getD job.state }
      if patch.fails = some .assertion then .error job else .ok job

theorem applyJobPatch_id {job job' : CronJob} {patch : CronJobPatch}
    (h : applyJobPatch job patch = .error job' ∨ applyJobPatch job patch = .ok job') : job'.id = job.id := by
  unfold applyJobPatch at h
  split_ifs at h <;> simp_all only [Except.error.injEq, Except.ok.injEq, or_false,
    false_or] <;> subst h <;> rfl

def isJobDue (job : CronJob) (nowMs : ℤ) (forced : Bool) : Bool :=
  if job.state.runningAtMs.isSome then false
  else if forced then true
  else job.enabled && job.state.nextRunAtMs.any (nowMs ≥ ·)

end Runs

end Foxclaw.Cron
