import Foxclaw.Cron.Jobs

/-!
# Running cron jobs

This module models the parts of `cron/service/timer.ts` that decide which jobs run and what
the outcome of a run does to its job.

## The model

The outcome of a run is given (`JobResult`). The alert after repeated failures, the delivery
status and the classified reason of an error are left out: they decide nothing about when a
job runs.
-/

namespace Foxclaw.Cron

open List

/-! ### Retries -/

def MIN_REFIRE_GAP_MS : ℤ := 2000

def DEFAULT_MAX_TRANSIENT_RETRIES : ℤ := 3

def DEFAULT_BACKOFF_SCHEDULE_MS : List ℤ := [30000, 60000, 5 * 60000, 15 * 60000, 60 * 60000]

def errorBackoffMs (consecutiveErrors : ℤ) (scheduleMs : List ℤ) : ℤ :=
  scheduleMs.getD (min (consecutiveErrors - 1) (scheduleMs.length - 1)).toNat 0

inductive CronRetryOn where
  | rateLimit
  | overloaded
  | network
  | timeout
  | serverError
  deriving DecidableEq

/-- A character of the class `\w`. -/
def isWordChar (c : Char) : Bool := c.isAlphanum || c == '_'

/-- The text has one of the patterns somewhere. -/
def hasAny (patterns : List String) (text : List Char) : Bool :=
  patterns.any fun p => text.tails.any (p.toList.isPrefixOf ·)

/-- `\b...\b`: a stretch that matches, with no word character right before or after it;
`prev` tells whether a word character stands right before the text. -/
def hasWord (stretch : List Char → Option (List Char)) : Bool → List Char → Bool
  | _, [] => false
  | prev, c :: cs =>
    (!prev && (stretch (c :: cs)).any fun rest => !rest.head?.any isWordChar) ||
      hasWord stretch (isWordChar c) cs

/-- A fixed text. -/
def fixedText (p : String) (text : List Char) : Option (List Char) :=
  if p.toList.isPrefixOf text then some (text.drop p.length) else none

/-- `5\d{2}`. -/
def status5xx : List Char → Option (List Char)
  | '5' :: a :: b :: rest => if a.isDigit && b.isDigit then some rest else none
  | _ => none

/-- `TRANSIENT_PATTERNS`, on a text in lower case. -/
def transientPattern (key : CronRetryOn) (text : List Char) : Bool :=
  match key with
  | .rateLimit =>
    hasAny ["rate_limit", "rate limit", "too many requests", "429",
      "resource has been exhausted", "cloudflare", "tokens per day"] text
  | .overloaded =>
    hasWord (fixedText "529") false text || hasWord (fixedText "overloaded") false text ||
      hasWord (fixedText "overloaded_error") false text ||
      hasAny ["high demand", "temporarily overloaded", "temporary overloaded",
        "capacity exceeded"] text
  | .network => hasAny ["network", "econnreset", "econnrefused", "fetch failed", "socket"] text
  | .timeout => hasAny ["timeout", "etimedout"] text
  | .serverError => hasWord status5xx false text

/-- `cronConfig.retry`. -/
structure RetryConfig where
  /-- How often a one-shot job is tried again. -/
  maxAttempts : Option ℤ
  /-- How long to wait before each retry. -/
  backoffMs : List ℤ
  /-- The errors after which it is tried again. -/
  retryOn : List CronRetryOn

def isTransientCronError (error : Option String) (retryOn : List CronRetryOn) : Bool :=
  match error with
  | none => false
  | some error =>
    let keys :=
      if retryOn = [] then [.rateLimit, .overloaded, .network, .timeout, .serverError]
      else retryOn
    error != "" && keys.any (transientPattern · (error.toList.map Char.toLower))

/-- The `maxAttempts` of `resolveRetryConfig`. -/
def RetryConfig.attempts (retry : RetryConfig) : ℤ :=
  retry.maxAttempts.getD DEFAULT_MAX_TRANSIENT_RETRIES

/-- The `backoffMs` of `resolveRetryConfig`. -/
def RetryConfig.schedule (retry : RetryConfig) : List ℤ :=
  if retry.backoffMs = [] then DEFAULT_BACKOFF_SCHEDULE_MS.take 3 else retry.backoffMs

section Runs

variable (deps : CronDeps) (retry : RetryConfig)

/-! ### The outcome of a run -/

/-- What became of a run. -/
structure JobResult where
  status : CronRunStatus
  error : Option String
  startedAt : ℤ
  endedAt : ℤ

variable (job : CronJob) (result : JobResult)

/-- The first part of `applyJobResult`: the job has run. -/
def recordResult : CronJob :=
  { job with
    updatedAtMs := result.endedAt
    state := { job.state with
      runningAtMs := none
      lastRunAtMs := some result.startedAt
      lastRunStatus := some result.status
      lastStatus := some result.status
      lastDurationMs := some (max 0 (result.endedAt - result.startedAt))
      lastError := result.error
      consecutiveErrors :=
        if result.status = .error then some (job.state.consecutiveErrors.getD 0 + 1)
        else some 0 } }

/-- The job waits for a slot, or for none. -/
def setNext (next : Option ℤ) : CronJob :=
  { job with state := { job.state with nextRunAtMs := next } }

/-- The job is disabled and waits for no slot. -/
def disableJob : CronJob := setNext { job with enabled := false } none

variable (prevLastRunAtMs : Option ℤ)

/-- The natural next run after the run that was recorded, with the job as a throw leaves it.
A forced run of a job with an interval counts from the run before it. -/
def naturalNextRun (endedAt : ℤ) (preserveSchedule : Bool) : CronJob × Option ℤ :=
  let counted :=
    if preserveSchedule && job.schedule.isEvery then
      { job with state := { job.state with lastRunAtMs := prevLastRunAtMs } }
    else job
  match computeJobNextRunAtMs deps counted endedAt with
  | .ok next => (job, next)
  | .error err => (recordScheduleComputeError job err, none)

/-- What `applyJobResult` makes of a one-shot job that has run and is kept. -/
def settleAtJob : CronJob :=
  if result.status = .error then
    let consecutive := job.state.consecutiveErrors.getD 1
    if isTransientCronError result.error retry.retryOn &&
        decide (consecutive ≤ retry.attempts) then
      setNext job (some (result.endedAt + errorBackoffMs consecutive retry.schedule))
    else disableJob job
  else disableJob job

/-- What `applyJobResult` makes of a job that has run and runs again. -/
def settleRecurringJob (result : JobResult) (preserveSchedule : Bool) : CronJob :=
  if !job.enabled then setNext job none
  else
    let natural := naturalNextRun deps job prevLastRunAtMs result.endedAt preserveSchedule
    if result.status = .error then
      let backoffNext := result.endedAt +
        errorBackoffMs (job.state.consecutiveErrors.getD 1) DEFAULT_BACKOFF_SCHEDULE_MS
      setNext natural.1 (some ((natural.2.map (max · backoffNext)).getD backoffNext))
    else if job.schedule.isCron then
      let minNext := result.endedAt + MIN_REFIRE_GAP_MS
      setNext natural.1 (some ((natural.2.map (max · minNext)).getD minNext))
    else setNext natural.1 natural.2

/-- `applyJobResult`: the job, and whether it should be deleted. -/
def applyJobResult (preserveSchedule : Bool) : CronJob × Bool :=
  let ran := recordResult job result
  if job.schedule.isAt && job.deleteAfterRun == some true && result.status == .ok then (ran, true)
  else if job.schedule.isAt then (settleAtJob retry ran result, false)
  else (settleRecurringJob deps ran job.state.lastRunAtMs result preserveSchedule, false)

theorem naturalNextRun_frame (endedAt : ℤ) (preserveSchedule : Bool) :
    (naturalNextRun deps job prevLastRunAtMs endedAt preserveSchedule).1.id = job.id ∧
      (naturalNextRun deps job prevLastRunAtMs endedAt preserveSchedule).1.schedule = job.schedule := by
  unfold naturalNextRun
  dsimp only
  split <;> exact ⟨rfl, rfl⟩

theorem applyJobResult_frame (preserveSchedule : Bool) :
    (applyJobResult deps retry job result preserveSchedule).1.id = job.id ∧
      (applyJobResult deps retry job result preserveSchedule).1.schedule = job.schedule := by
  unfold applyJobResult
  dsimp only
  split_ifs
  · exact ⟨rfl, rfl⟩
  · unfold settleAtJob
    dsimp only
    split_ifs <;> exact ⟨rfl, rfl⟩
  · unfold settleRecurringJob
    dsimp only
    split_ifs
    · exact ⟨rfl, rfl⟩
    all_goals exact naturalNextRun_frame deps _ _ _ _

@[simp] theorem applyJobResult_id (preserveSchedule : Bool) :
    (applyJobResult deps retry job result preserveSchedule).1.id = job.id :=
  (applyJobResult_frame deps retry job result preserveSchedule).1

/-! ### Jobs by their ids -/

/-- `jobs.find((job) => job.id === id)`. -/
def findJob (id : String) (jobs : List CronJob) : Option CronJob := jobs.find? (·.id == id)

/-- A change to the job that `findJob` finds. -/
def modifyJob (id : String) (f : CronJob → CronJob) : List CronJob → List CronJob
  | [] => []
  | job :: jobs => if job.id = id then f job :: jobs else job :: modifyJob id f jobs

/-- `jobs.filter((job) => job.id !== id)`. -/
def dropJob (id : String) (jobs : List CronJob) : List CronJob := jobs.filter (·.id ≠ id)

section ById

variable {id id' : String} {f : CronJob → CronJob} {job : CronJob} {jobs : List CronJob}

theorem findJob_id (h : findJob id jobs = some job) : job.id = id := by
  simpa using find?_some h

theorem findJob_mem (h : findJob id jobs = some job) : job ∈ jobs := mem_of_find?_eq_some h

theorem findJob_map (hf : ∀ job, (f job).id = job.id) :
    findJob id (jobs.map f) = (findJob id jobs).map f := by
  unfold findJob
  rw [find?_map]
  congr 2
  funext job
  simp [hf]

theorem findJob_modifyJob_ne (hf : ∀ job, job.id = id' → (f job).id = id') (hne : id ≠ id') :
    findJob id (modifyJob id' f jobs) = findJob id jobs := by
  induction jobs with
  | nil => rfl
  | cons job jobs ih =>
    unfold modifyJob
    split_ifs with h
    · have h₁ : ((f job).id == id) = false := by simp [hf job h, hne.symm]
      have h₂ : (job.id == id) = false := by simp [h, hne.symm]
      unfold findJob
      rw [find?_cons_of_neg (by simp [h₁]), find?_cons_of_neg (by simp [h₂])]
    · unfold findJob at ih ⊢
      rw [find?_cons, find?_cons, ih]

theorem findJob_modifyJob_self (hf : ∀ job, job.id = id → (f job).id = id) :
    findJob id (modifyJob id f jobs) = (findJob id jobs).map f := by
  induction jobs with
  | nil => rfl
  | cons job jobs ih =>
    unfold modifyJob
    split_ifs with h
    · unfold findJob
      rw [find?_cons_of_pos (by simp [hf job h]), find?_cons_of_pos (by simp [h]),
        Option.map_some]
    · unfold findJob at ih ⊢
      rw [find?_cons_of_neg (by simp [h]), find?_cons_of_neg (by simp [h]), ih]

/-- In a list without two jobs of one id, a job is found by its id. -/
theorem findJob_of_mem (hids : (jobs.map CronJob.id).Nodup) (h : job ∈ jobs) :
    findJob job.id jobs = some job := by
  induction jobs with
  | nil => cases h
  | cons head jobs ih =>
    rw [map_cons, nodup_cons] at hids
    unfold findJob at ih ⊢
    rcases mem_cons.mp h with rfl | h
    · exact find?_cons_of_pos (by simp)
    · have hne : head.id ≠ job.id := fun e =>
        hids.1 (e ▸ List.mem_map_of_mem h)
      rw [find?_cons_of_neg (by simp [hne])]
      exact ih hids.2 h

theorem findJob_dropJob_ne (hne : id ≠ id') : findJob id (dropJob id' jobs) = findJob id jobs := by
  unfold findJob dropJob
  rw [find?_filter]
  congr 1
  funext job
  by_cases h : job.id = id
  · simp [h, hne]
  · simp [h]

theorem findJob_append {jobs' : List CronJob} :
    findJob id (jobs ++ jobs') = (findJob id jobs).or (findJob id jobs') := find?_append ..

theorem ids_modifyJob (hf : ∀ job, job.id = id → (f job).id = id) :
    (modifyJob id f jobs).map CronJob.id = jobs.map CronJob.id := by
  induction jobs with
  | nil => rfl
  | cons job jobs ih =>
    unfold modifyJob
    split_ifs with h
    · simp [hf job h, h]
    · simp [ih]

theorem mem_modifyJob (h : job ∈ modifyJob id f jobs) :
    job ∈ jobs ∨ ∃ job₀ ∈ jobs, job₀.id = id ∧ job = f job₀ := by
  induction jobs with
  | nil => exact .inl h
  | cons head jobs ih =>
    unfold modifyJob at h
    split_ifs at h with hid
    · rcases mem_cons.mp h with rfl | h
      · exact .inr ⟨head, mem_cons_self .., hid, rfl⟩
      · exact .inl (mem_cons_of_mem _ h)
    · rcases mem_cons.mp h with rfl | h
      · exact .inl (mem_cons_self ..)
      · rcases ih h with h | ⟨job₀, hm, hj⟩
        · exact .inl (mem_cons_of_mem _ h)
        · exact .inr ⟨job₀, mem_cons_of_mem _ hm, hj⟩

theorem ids_dropJob_sublist : ((dropJob id jobs).map CronJob.id).Sublist (jobs.map CronJob.id) :=
  filter_sublist.map _

theorem mem_dropJob (h : job ∈ dropJob id jobs) : job ∈ jobs := mem_of_mem_filter h

end ById

def applyOutcomeToStoredJob (jobs : List CronJob) (outcome : String × JobResult) : List CronJob :=
  match findJob outcome.1 jobs with
  | none => jobs
  | some job =>
    let applied := applyJobResult deps retry job outcome.2 false
    if applied.2 then dropJob outcome.1 jobs else modifyJob outcome.1 (fun _ => applied.1) jobs

theorem findJob_applyOutcome_ne {j : String} {outcome : String × JobResult} {jobs : List CronJob}
    (hne : j ≠ outcome.1) : findJob j (applyOutcomeToStoredJob deps retry jobs outcome) = findJob j jobs := by
  unfold applyOutcomeToStoredJob
  split
  · rfl
  · rename_i job hjob
    dsimp only
    split_ifs
    · exact findJob_dropJob_ne hne
    · exact findJob_modifyJob_ne (fun _ _ => by rw [applyJobResult_id, findJob_id hjob]) hne

/-- The outcomes of other jobs leave a job as it is. -/
theorem findJob_applyOutcomes_ne {j : String} {outcomes : List (String × JobResult)}
    {jobs : List CronJob} (hne : j ∉ outcomes.map Prod.fst) :
    findJob j (outcomes.foldl (applyOutcomeToStoredJob deps retry) jobs) = findJob j jobs := by
  induction outcomes generalizing jobs with
  | nil => rfl
  | cons outcome outcomes ih =>
    rw [map_cons, mem_cons, not_or] at hne
    rw [foldl_cons, ih hne.2, findJob_applyOutcome_ne deps retry hne.1]

/-! ### The jobs that run -/

def isErrorBackoffPending (nowMs : ℤ) : Bool :=
  if job.schedule.isAt || job.state.lastStatus != some .error then false
  else job.state.lastRunAtMs.any fun lastRunAtMs =>
    nowMs < lastRunAtMs +
      errorBackoffMs (max 1 (job.state.consecutiveErrors.getD 1)) DEFAULT_BACKOFF_SCHEDULE_MS

/-- The options of `collectRunnableJobs`. -/
structure CollectOpts where
  /-- Jobs that are left alone. -/
  skipJobIds : List String
  /-- A one-shot job that ran is left alone, unless it is to be tried again. -/
  skipAtIfAlreadyRan : Bool
  /-- A job runs when its last run lies before the last slot of its cron expression. -/
  allowCronMissedRunByLastRun : Bool

/-- The options of a timer tick. -/
def CollectOpts.tick : CollectOpts := ⟨[], false, false⟩

/-- The last slot of the cron expression lies after the last run. -/
def missedRunByLastRun (nowMs : ℤ) : Bool :=
  match computeJobPreviousRunAtMs deps job nowMs with
  | .ok (some previousRunAtMs) => job.state.lastRunAtMs.any (previousRunAtMs > ·)
  | _ => false

def isRunnableJob (opts : CollectOpts) (nowMs : ℤ) (job : CronJob) : Bool :=
  if !job.enabled then false
  else if opts.skipJobIds.contains job.id then false
  else if job.state.runningAtMs.isSome then false
  else if opts.skipAtIfAlreadyRan && job.schedule.isAt && job.state.lastStatus.isSome then
    job.state.lastStatus == some .error &&
      job.state.nextRunAtMs.any fun nextRun =>
        job.state.lastRunAtMs.any (nextRun > ·) && decide (nowMs ≥ nextRun)
  else if job.state.nextRunAtMs.any (nowMs ≥ ·) then true
  else if job.state.nextRunAtMs.isSome && isErrorBackoffPending job nowMs then false
  else opts.allowCronMissedRunByLastRun && job.schedule.isCron && missedRunByLastRun deps job nowMs

theorem isRunnableJob_tick (nowMs : ℤ) (job : CronJob) :
    isRunnableJob deps .tick nowMs job =
      (job.enabled && job.state.runningAtMs.isNone && job.state.nextRunAtMs.any (nowMs ≥ ·)) := by
  unfold isRunnableJob
  cases job.enabled <;> cases job.state.runningAtMs <;>
    by_cases h : job.state.nextRunAtMs.any (nowMs ≥ ·) = true <;> simp [CollectOpts.tick, h]

def collectRunnableJobs (opts : CollectOpts) (nowMs : ℤ) (jobs : List CronJob) : List CronJob :=
  jobs.filter (isRunnableJob deps opts nowMs)

/-- The job has a run in progress since a time. -/
def markRunning (now : ℤ) (job : CronJob) : CronJob :=
  { job with state := { job.state with runningAtMs := some now, lastError := none } }

end Runs

end Foxclaw.Cron
