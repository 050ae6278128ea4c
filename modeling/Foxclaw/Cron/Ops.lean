import Foxclaw.Cron.Timer

/-!
# The locked sections of the cron service

This module models `cron/service/ops.ts`, `cron/service/store.ts` and the locked sections of
`onTimer` in `cron/service/timer.ts`.

## The model

The service has a store in memory, once it was loaded, and the store file
(`CronServiceState`). Every operation does its work in sections that hold the lock of the
store, so a section is one function here. A section may throw: it then leaves the state as it
is at that point, which is the error of its result (`Outcome`). What the clock shows at each
reading, and which of the reads and writes of the file fail, is given with the call
(`Io`).

The file holds the jobs as `normalizeStoredCronJobs` gives them. The jobs in memory are
objects: a job taken from the store before it was read again is no longer part of it, which
`loads` tells.
-/

namespace Foxclaw.Cron

structure CronServiceState where
  /-- The jobs in memory, once the file was read. -/
  store : Option (List CronJob)
  file : List CronJob
  loads : ℕ

/-- The jobs of `state.store`. -/
def CronServiceState.jobs (s : CronServiceState) : List CronJob := s.store.getD []

/-- Other jobs in memory. -/
def CronServiceState.withJobs (s : CronServiceState) (jobs : List CronJob) : CronServiceState :=
  { s with store := some jobs }

/-- A section goes on in a state, or throws and leaves one. -/
abbrev Outcome := Except CronServiceState CronServiceState

/-- What happens when the file is read. -/
structure LoadIo where
  /-- Reading it fails. -/
  fails : Bool
  /-- The clock when the jobs are recomputed. -/
  now : ℤ
  /-- The migration changed something, so the jobs are written back. -/
  mutated : Bool
  /-- Writing them fails. -/
  persistFails : Bool

/-- What the clock shows and which accesses to the file fail in a section. -/
structure Io where
  load : LoadIo
  /-- The read that `forceReload` asks for in the middle of a section. -/
  reload : LoadIo
  /-- The clock at its first reading. -/
  now : ℤ
  /-- The clock at the second reading, or when the jobs are recomputed at the end. -/
  thenNow : ℤ
  persistFails : Bool

section Runs

variable (deps : CronDeps) (retry : RetryConfig)

/-! ### The store -/

def persist (fails : Bool) (s : CronServiceState) : Outcome :=
  match s.store with
  | none => .ok s
  | some jobs => if fails then .error s else .ok { s with file := jobs }

/-- The state after the file was read. -/
def loadedState (s : CronServiceState) : CronServiceState :=
  { s with store := some s.file, loads := s.loads + 1 }

/-- The state after `recomputeNextRuns`. -/
def recomputedState (nowMs : ℤ) (s : CronServiceState) : CronServiceState :=
  s.withJobs (recomputeNextRuns deps nowMs s.jobs).1

def ensureLoaded (forceReload skipRecompute : Bool) (io : LoadIo) (s : CronServiceState) : Outcome :=
  if s.store.isSome && !forceReload then .ok s
  else if io.fails then .error s
  else
    let loaded := loadedState s
    let loaded := if skipRecompute then loaded else recomputedState deps io.now loaded
    if io.mutated then persist io.persistFails loaded else .ok loaded

/-- `recomputeNextRunsForMaintenance`, and `persist` if it changed a job. -/
def maintainAndPersist (recomputeExpired : Bool) (nowMs : ℤ) (persistFails : Bool)
    (s : CronServiceState) : Outcome :=
  let maintained := recomputeNextRunsForMaintenance deps recomputeExpired nowMs s.jobs
  if maintained.2 then persist persistFails (s.withJobs maintained.1) else .ok s

/-! ### Reading -/

variable (io : Io)

/-- `ensureLoadedForRead`, which is all that `status`, `list` and `listPage` do to the state. -/
def ensureLoadedForRead (s : CronServiceState) : Outcome :=
  (ensureLoaded deps false true io.load s).bind
    (maintainAndPersist deps false io.now io.persistFails)

/-! ### Editing -/

/-- `add`, after the store was loaded. -/
def addToStore (input : CronJobCreate) (s : CronServiceState) : Outcome :=
  match createJob deps io.now input with
  | .error _ => .error s
  | .ok job => persist io.persistFails (recomputedState deps io.thenNow (s.withJobs (s.jobs ++ [job])))

def add (input : CronJobCreate) (s : CronServiceState) : Outcome :=
  (ensureLoaded deps false false io.load s).bind (addToStore deps io input)

variable (job : CronJob) (patch : CronJobPatch) (now : ℤ)

/-- The anchor `update` gives a job with an interval that has none. -/
def anchorSchedule : CronJob :=
  match job.schedule with
  | .every everyMs none =>
    let fallbackAnchorMs :=
      if patch.schedule.any CronSchedule.isEvery then now else job.createdAtMs.getD now
    { job with schedule := .every everyMs (some (max 0 fallbackAnchorMs)) }
  | _ => job

/-- A job with the next run that `computeJobNextRunAtMs` gives, or the job when it throws. -/
def rescheduleJob : Except CronJob CronJob :=
  match computeJobNextRunAtMs deps job now with
  | .ok next => .ok (setNext job next)
  | .error _ => .error job

/-- What `update` does to its job: the job, or the job as a throw leaves it. -/
def updateJob : Except CronJob CronJob :=
  (applyJobPatch job patch).bind fun job =>
    let job := { anchorSchedule job patch now with updatedAtMs := now }
    if patch.schedule.isSome || patch.enabled.isSome then
      if job.enabled then rescheduleJob deps job now
      else .ok { job with state := { job.state with nextRunAtMs := none, runningAtMs := none } }
    else if job.enabled && job.state.nextRunAtMs.isNone then rescheduleJob deps job now
    else .ok job

theorem anchorSchedule_id : (anchorSchedule job patch now).id = job.id := by
  unfold anchorSchedule
  split <;> rfl

theorem rescheduleJob_keeps {P : CronJob → Prop} {job job' : CronJob} {now : ℤ} (hjob : P job)
    (hnext : ∀ next, P (setNext job next))
    (h : rescheduleJob deps job now = .error job' ∨ rescheduleJob deps job now = .ok job') : P job' := by
  unfold rescheduleJob at h
  split at h <;> rcases h with h | h <;> cases h
  · exact hnext _
  · exact hjob

/-- What `update` leaves of its job, but for the state. -/
theorem updateJob_keeps {P : CronJob → Prop} {job job' : CronJob} {patch : CronJobPatch} {now : ℤ}
    (hleft : ∀ left, applyJobPatch job patch = .error left → P left)
    (hpatched : ∀ patched, applyJobPatch job patch = .ok patched →
      ∀ state, P { anchorSchedule patched patch now with updatedAtMs := now, state := state })
    (h : updateJob deps job patch now = .error job' ∨ updateJob deps job patch now = .ok job') : P job' := by
  unfold updateJob at h
  cases hp : applyJobPatch job patch with
  | error left =>
    rw [hp] at h
    rcases h with h | h <;> cases h
    exact hleft _ hp
  | ok patched =>
    rw [hp] at h
    have hany := hpatched patched hp
    dsimp only [Except.bind] at h
    split_ifs at h
    · exact rescheduleJob_keeps deps (hany _) (fun _ => hany _) h
    · rcases h with h | h <;> cases h
      exact hany _
    · exact rescheduleJob_keeps deps (hany _) (fun _ => hany _) h
    · rcases h with h | h <;> cases h
      exact hany _

theorem updateJob_id {job job' : CronJob} {patch : CronJobPatch} {now : ℤ}
    (h : updateJob deps job patch now = .error job' ∨ updateJob deps job patch now = .ok job') :
    job'.id = job.id :=
  updateJob_keeps deps (fun _ hp => applyJobPatch_id (.inl hp))
    (fun patched hp _ => (anchorSchedule_id patched patch now).trans (applyJobPatch_id (.inr hp))) h

/-- `update`, after the store was loaded. -/
def updateInStore (id : String) (patch : CronJobPatch) (s : CronServiceState) : Outcome :=
  match findJob id s.jobs with
  | none => .error s
  | some job =>
    match updateJob deps job patch io.now with
    | .error left => .error (s.withJobs (modifyJob id (fun _ => left) s.jobs))
    | .ok updated =>
      persist io.persistFails (s.withJobs (modifyJob id (fun _ => updated) s.jobs))

def update (id : String) (patch : CronJobPatch) (s : CronServiceState) : Outcome :=
  (ensureLoaded deps false true io.load s).bind (updateInStore deps io id patch)

def remove (id : String) (s : CronServiceState) : Outcome :=
  (ensureLoaded deps false false io.load s).bind fun s =>
    persist io.persistFails (s.withJobs (dropJob id s.jobs))

/-! ### A manual run -/

/-- The state after the maintenance of `inspectManualRunPreflight`, which is not written. -/
def maintainedState (recomputeExpired : Bool) (nowMs : ℤ) (s : CronServiceState) : CronServiceState :=
  s.withJobs (recomputeNextRunsForMaintenance deps recomputeExpired nowMs s.jobs).1

/-- `inspectManualRunPreflight`: the time at which the job was found ready to run, if it is. -/
def inspectManualRunPreflight (id : String) (forced : Bool) (s : CronServiceState) :
    Except CronServiceState (CronServiceState × Option ℤ) :=
  (ensureLoaded deps false true io.load s).bind fun s =>
    let s := maintainedState deps false io.now s
    match findJob id s.jobs with
    | none => .error s
    | some job => .ok (s, if isJobDue job io.thenNow forced then some io.thenNow else none)

/-- The locked section of `prepareManualRun`: whether the run starts. -/
def prepareManualRun (id : String) (preflightNow : ℤ) (s : CronServiceState) :
    Except CronServiceState (CronServiceState × Bool) :=
  match findJob id s.jobs with
  | none => .error s
  | some job =>
    if job.state.runningAtMs.isSome then .ok (s, false)
    else
      (persist io.persistFails (s.withJobs (modifyJob id (markRunning preflightNow) s.jobs))).map
        (·, true)

/-- `mergeManualRunSnapshotAfterReload`; there is no snapshot of a job that was deleted. -/
def mergeManualRunSnapshotAfterReload (id : String) (snapshot : Option CronJob)
    (s : CronServiceState) : CronServiceState :=
  match snapshot with
  | none => s.withJobs (dropJob id s.jobs)
  | some ran =>
    s.withJobs (modifyJob id (fun job =>
      { job with enabled := ran.enabled, updatedAtMs := ran.updatedAtMs, state := ran.state })
      s.jobs)

/-- The locked section of `finishPreparedManualRun`, after the store was loaded. -/
def finishInStore (id : String) (result : JobResult) (forced : Bool) (s : CronServiceState) : Outcome :=
  match findJob id s.jobs with
  | none => .ok s
  | some job =>
    let applied := applyJobResult deps retry job result forced
    let s := s.withJobs
      (if applied.2 then dropJob id s.jobs else modifyJob id (fun _ => applied.1) s.jobs)
    (ensureLoaded deps true true io.reload s).bind fun s =>
      let merged :=
        mergeManualRunSnapshotAfterReload id (if applied.2 then none else some applied.1) s
      persist io.persistFails (maintainedState deps true io.thenNow merged)

/-- The locked section of `finishPreparedManualRun`. -/
def finishPreparedManualRun (id : String) (result : JobResult) (forced : Bool)
    (s : CronServiceState) : Outcome :=
  (ensureLoaded deps false true io.load s).bind (finishInStore deps retry io id result forced)

/-! ### A timer tick -/

/-- The jobs that a tick marks as running. -/
def markDueJobs (dueCheckNow now : ℤ) (jobs : List CronJob) : List CronJob :=
  jobs.map fun job => if isRunnableJob deps .tick dueCheckNow job then markRunning now job else job

/-- The first locked section of `onTimer`, after the store was loaded: the ids of the jobs
that the tick runs. -/
def collectInStore (s : CronServiceState) : Except CronServiceState (CronServiceState × List String) :=
  let due := collectRunnableJobs deps .tick io.now s.jobs
  if due = [] then
    (maintainAndPersist deps true io.now io.persistFails s).map (·, [])
  else
    (persist io.persistFails (s.withJobs (markDueJobs deps io.now io.thenNow s.jobs))).map
      (·, due.map CronJob.id)

/-- The first locked section of `onTimer`. -/
def collectDueJobs (s : CronServiceState) : Except CronServiceState (CronServiceState × List String) :=
  (ensureLoaded deps true true io.load s).bind (collectInStore deps io)

/-- `runDueJob` sets the marker of the job that was collected when the file was last read
for the `loads`-th time. -/
def startDueJob (id : String) (loads : ℕ) (startedAt : ℤ) (s : CronServiceState) : CronServiceState :=
  if s.loads = loads then
    { s with store := s.store.map (modifyJob id fun job =>
        { job with state := { job.state with runningAtMs := some startedAt } }) }
  else s

variable (outcomes : List (String × JobResult))

/-- The second locked section of `onTimer`, after the store was loaded. -/
def applyInStore (s : CronServiceState) : Outcome :=
  persist io.persistFails (maintainedState deps false io.now
    (s.withJobs (outcomes.foldl (applyOutcomeToStoredJob deps retry) s.jobs)))

/-- The second locked section of `onTimer`. -/
def applyTickOutcomes (s : CronServiceState) : Outcome :=
  (ensureLoaded deps true true io.load s).bind (applyInStore deps retry io outcomes)

end Runs

end Foxclaw.Cron
