import Foxclaw.Lib.Runs
import Mathlib.Data.PNat.Basic

/-!
# The subagent registry

This module models `agents/subagent-registry.ts`, with the decision of
`subagent-registry-cleanup.ts` and the file of `subagent-registry.store.ts`. A subagent that was
spawned is a run. When it has ended, what it replied is captured and frozen, and an announce flow
tells the requester; a flow that fails is retried.

## The model

What the process has of a run is its record, and what is in progress for it (`Run`): completion
steps that wait for the capture or for the hook, announce flows, timers. A step of the model is
what runs between two `await`s. The loops over all runs look at each run by itself, so the map of
records is a function of the run id, and its order plays no part.

The world decides the clock, what an announce flow returns, how many descendants are pending (the
queries read the registry file as well, which other processes write), what was captured (given as
the text that is frozen), and when the process crashes; a crash leaves the file, from which the
next process restores. Run ids are fresh, and the sessions of the runs are there. Hooks,
attachments, the sweeper and the refresh of a frozen result are left out, but for their writes of
the file (`flush`).

Beside the state stand the events of the flows of a run (`log`) and the runs that a restore found
with `cleanupHandled` set (`skipped`).
-/

namespace Foxclaw.Agents.SubagentRegistry

/-- A time stamp, in milliseconds. -/
abbrev Time := ℕ+

def MIN_ANNOUNCE_RETRY_DELAY_MS : ℕ := 1000

def MAX_ANNOUNCE_RETRY_DELAY_MS : ℕ := 8000

def MAX_ANNOUNCE_RETRY_COUNT : ℕ := 3

def ANNOUNCE_EXPIRY_MS : ℤ := 5 * 60000

def ANNOUNCE_COMPLETION_HARD_EXPIRY_MS : ℤ := 30 * 60000

def LIFECYCLE_ERROR_RETRY_GRACE_MS : ℕ := 15000

def resolveAnnounceRetryDelayMs (retryCount : ℕ) : ℕ :=
  let boundedRetryCount := min retryCount 10
  min (MIN_ANNOUNCE_RETRY_DELAY_MS * 2 ^ (boundedRetryCount - 1)) MAX_ANNOUNCE_RETRY_DELAY_MS

/-! ### Records -/

inductive SubagentRunOutcome where
  | ok
  | timeout
  /-- `error`, with its text. -/
  | error (error : Option String)
  deriving DecidableEq

/-- `SubagentLifecycleEndedReason`. -/
inductive EndedReason where
  /-- `SUBAGENT_ENDED_REASON_COMPLETE`. -/
  | complete
  /-- `SUBAGENT_ENDED_REASON_ERROR`. -/
  | error
  /-- `SUBAGENT_ENDED_REASON_KILLED`. -/
  | killed
  deriving DecidableEq

/-- `suppressAnnounceReason`. -/
inductive SuppressReason where
  | steerRestart
  | killed
  deriving DecidableEq

inductive Cleanup where
  | delete
  | keep
  deriving DecidableEq

/-- `SpawnSubagentMode`. -/
inductive SpawnMode where
  | run
  | session
  deriving DecidableEq

structure SubagentRunRecord where
  cleanup : Cleanup
  spawnMode : SpawnMode
  expectsCompletionMessage : Bool
  endedAt : Option Time := none
  outcome : Option SubagentRunOutcome := none
  endedReason : Option EndedReason := none
  cleanupHandled : Bool := false
  cleanupCompletedAt : Option Time := none
  suppressAnnounceReason : Option SuppressReason := none
  /-- `announceRetryCount`; what is undefined counts as 0. -/
  announceRetryCount : ℕ := 0
  lastAnnounceRetryAt : Option Time := none
  wakeOnDescendantSettle : Bool := false
  /-- `frozenResultText`: undefined, `null`, or a text. -/
  frozenResultText : Option (Option String) := none
  fallbackFrozenResultText : Option (Option String) := none
  deriving DecidableEq

def runOutcomesEqual : Option SubagentRunOutcome → Option SubagentRunOutcome → Bool
  | none, none => true
  | some .ok, some .ok => true
  | some .timeout, some .timeout => true
  | some (.error a), some (.error b) => a.getD "" = b.getD ""
  | _, _ => false

def suppressAnnounceForSteerRestart (entry : SubagentRunRecord) : Bool :=
  entry.suppressAnnounceReason = some .steerRestart

def shouldEmitEndedHookForRun (entry : SubagentRunRecord) (reason : EndedReason) : Bool :=
  !(reason ≠ .killed && entry.spawnMode = .session)

/-! ### What is in progress -/

/-- A call of `completeSubagentRun` that waits. -/
inductive Completion where
  /-- For the capture of the result, if it was not frozen before; `mutated` so far. -/
  | capturing (reason : EndedReason) (captures mutated : Bool)
  /-- For the hook. -/
  | hooking
  deriving DecidableEq

/-- An announce flow. -/
inductive Flow where
  /-- `runSubagentAnnounceFlow` is in progress. -/
  | running
  /-- It has announced; `finalizeSubagentCleanup` waits for the hook. -/
  | announced (cleanup : Cleanup)
  /-- It was given up; `finalizeSubagentCleanup` waits for the hook. -/
  | givenUp (completedAt : Time)
  deriving DecidableEq

/-- A timer that calls `resumeSubagentRun`. -/
structure RetryTimer where
  due : ℕ
  /-- Does it delete the run from `resumedRuns` first? -/
  deletesResumed : Bool
  deriving DecidableEq

/-- An entry of `pendingLifecycleErrorByRunId`. -/
structure PendingLifecycleError where
  due : ℕ
  endedAt : Time
  error : Option String
  deriving DecidableEq

/-- What happened to the announce flows of a run. -/
inductive FlowEvent where
  /-- One was started; was `frozenResultText` set? -/
  | started (frozen : Bool)
  /-- One reported success. -/
  | succeeded
  /-- One failed, with so many descendants pending. -/
  | failed (pendingDescendants : ℕ)
  deriving DecidableEq

/-- What the process has of a run. -/
structure Run where
  record : Option SubagentRunRecord := none
  completions : List Completion := []
  flows : List Flow := []
  timers : List RetryTimer := []
  lifecycleError : Option PendingLifecycleError := none
  /-- Is it in `resumedRuns`? -/
  resumed : Bool := false
  log : List FlowEvent := []
  deriving DecidableEq

/-! ### One run

Functions that may write the file return whether they do. -/

variable (r : Run)

/-- `beginSubagentCleanup`; none if it returns `false`. -/
def beginSubagentCleanup : Option Run :=
  match r.record with
  | none => none
  | some entry =>
    if entry.cleanupCompletedAt.isSome then none
    else if entry.cleanupHandled then none
    else some { r with record := some { entry with cleanupHandled := true } }

/-- `startSubagentAnnounceCleanupFlow`; none if it returns `false`. -/
def startSubagentAnnounceCleanupFlow : Option Run :=
  (beginSubagentCleanup r).map fun r => { r with
    flows := r.flows ++ [.running]
    log := r.log ++ [.started (r.record.any fun entry => entry.frozenResultText.isSome)] }

variable (entry : SubagentRunRecord)

/-- How long a retry of a completion message still has to wait. -/
def retryWaitMs (now : Time) : Option ℕ :=
  match entry.lastAnnounceRetryAt with
  | none => none
  | some last =>
    let earliestRetryAt := last + resolveAnnounceRetryDelayMs entry.announceRetryCount
    if entry.expectsCompletionMessage ∧ (now : ℕ) < earliestRetryAt then
      some (max 1 (earliestRetryAt - now))
    else none

/-- Is the announce of a run that expects no completion message too old? -/
def isAnnounceExpired (now : Time) : Bool :=
  !entry.expectsCompletionMessage &&
    entry.endedAt.any fun endedAt => ((now : ℕ) : ℤ) - ((endedAt : ℕ) : ℤ) > ANNOUNCE_EXPIRY_MS

def resumeSubagentRun (now : Time) (r : Run) : Run × Bool :=
  if r.resumed then (r, false)
  else match r.record with
    | none => (r, false)
    | some entry =>
      if entry.cleanupCompletedAt.isSome then (r, false)
      else if MAX_ANNOUNCE_RETRY_COUNT ≤ entry.announceRetryCount then
        ({ r with record := some { entry with cleanupCompletedAt := some now } }, true)
      else if isAnnounceExpired entry now then
        ({ r with record := some { entry with cleanupCompletedAt := some now } }, true)
      else match retryWaitMs entry now with
        | some waitMs => ({ r with timers := r.timers ++ [⟨now + waitMs, true⟩], resumed := true }, false)
        | none =>
          if entry.endedAt.isSome then
            if suppressAnnounceForSteerRestart entry then ({ r with resumed := true }, false)
            else match startSubagentAnnounceCleanupFlow r with
              | none => (r, false)
              | some r => ({ r with resumed := true }, true)
          -- `waitForSubagentCompletion` waits for the gateway once more.
          else ({ r with resumed := true }, false)

/-- What `retryDeferredCompletedAnnounces` does with a run. -/
def retryDeferredCompletedAnnounce (now : Time) (r : Run) : Run :=
  match r.record with
  | none => r
  | some entry =>
    if entry.endedAt.isNone then r
    else if entry.cleanupCompletedAt.isSome || entry.cleanupHandled then r
    else if suppressAnnounceForSteerRestart entry then r
    else if isAnnounceExpired entry now then
      { r with record := some { entry with cleanupCompletedAt := some now } }
    else (resumeSubagentRun now { r with resumed := false }).1

def clearPendingLifecycleError : Run := { r with lifecycleError := none }

/-- The lifecycle event `error`: `schedulePendingLifecycleError`. -/
def schedulePendingLifecycleError (now endedAt : Time) (error : Option String) (r : Run) : Run :=
  if r.record.isSome then
    { r with lifecycleError := some ⟨now + LIFECYCLE_ERROR_RETRY_GRACE_MS, endedAt, error⟩ }
  else r

/-- The record after a late completion of a run with a kill marker: it is announced after all. -/
def undoKill (reason : EndedReason) : SubagentRunRecord :=
  if reason = .complete ∧ entry.suppressAnnounceReason = some .killed ∧
      (entry.cleanupHandled ∨ entry.cleanupCompletedAt.isSome) then
    { entry with suppressAnnounceReason := none, cleanupHandled := false, cleanupCompletedAt := none }
  else entry

/-- `completeSubagentRun`, up to the capture. -/
def completeSubagentRun (endedAt : Time) (outcome : SubagentRunOutcome) (reason : EndedReason)
    (r : Run) : Run :=
  let r := clearPendingLifecycleError r
  match r.record with
  | none => r
  | some entry =>
    let undone := undoKill entry reason
    let next := { undone with
      endedAt := some endedAt
      outcome := if runOutcomesEqual undone.outcome (some outcome) then undone.outcome else some outcome
      endedReason := some reason }
    { r with
      record := some next
      completions := r.completions ++ [.capturing reason entry.frozenResultText.isNone (next ≠ entry)] }

/-- `completeSubagentRun`, after the capture: the text is frozen. -/
def freezeResult (text : Option String) (captures : Bool) (r : Run) : Run :=
  if captures then
    { r with record := r.record.map fun entry => { entry with frozenResultText := some text } }
  else r

/-- `completeSubagentRun`, from the capture to the hook or to the end. -/
def afterCapture (reason : EndedReason) (r : Run) : Run × Bool :=
  match r.record with
  | none => (r, false)
  | some entry =>
    let suppressed := suppressAnnounceForSteerRestart entry
    let shouldEmitEndedHook := !suppressed && shouldEmitEndedHookForRun entry reason
    let shouldDeferEndedHook := shouldEmitEndedHook && entry.expectsCompletionMessage && !suppressed
    if !shouldDeferEndedHook && shouldEmitEndedHook then
      ({ r with completions := r.completions ++ [.hooking] }, false)
    else if suppressed then (r, false)
    else match startSubagentAnnounceCleanupFlow r with
      | none => (r, false)
      | some r => (r, true)

inductive DeferredCleanupDecision where
  | deferDescendants (delayMs : ℕ)
  | giveUp (retryCount : Option ℕ)
  | retry (retryCount : ℕ) (resumeDelayMs : Option ℕ)

def resolveDeferredCleanupDecision (now : Time) (activeDescendantRuns : ℕ) : DeferredCleanupDecision :=
  let endedAgo : ℤ := (entry.endedAt.map fun endedAt => ((now : ℕ) : ℤ) - ((endedAt : ℕ) : ℤ)).getD 0
  let completionHardExpiryExceeded : Bool :=
    entry.expectsCompletionMessage && endedAgo > ANNOUNCE_COMPLETION_HARD_EXPIRY_MS
  if entry.expectsCompletionMessage ∧ 0 < activeDescendantRuns then
    if completionHardExpiryExceeded then .giveUp none
    else .deferDescendants MIN_ANNOUNCE_RETRY_DELAY_MS
  else
    let retryCount := entry.announceRetryCount + 1
    let expiryExceeded : Bool :=
      if entry.expectsCompletionMessage then completionHardExpiryExceeded
      else endedAgo > ANNOUNCE_EXPIRY_MS
    if MAX_ANNOUNCE_RETRY_COUNT ≤ retryCount ∨ expiryExceeded then .giveUp (some retryCount)
    else .retry retryCount
      (if entry.expectsCompletionMessage then some (resolveAnnounceRetryDelayMs retryCount) else none)

/-- A retry that is not under way: `cleanupHandled` and `resumedRuns` are cleared, and a timer may
be armed. -/
def deferRetry (now : Time) (entry : SubagentRunRecord) (delayMs : Option ℕ) (r : Run) : Run :=
  { r with
    record := some { entry with cleanupHandled := false }
    resumed := false
    timers := r.timers ++ (delayMs.map fun delay => ⟨now + delay, false⟩).toList }

/-- `finalizeSubagentCleanup`, up to the hook; the flow is no more among the flows. -/
def finalizeSubagentCleanup (now : Time) (didAnnounce : Bool) (pendingDescendants : ℕ) (r : Run) :
    Run × Bool :=
  match r.record with
  | none => (r, false)
  | some entry =>
    if didAnnounce then
      ({ r with
        record := some { entry with wakeOnDescendantSettle := false, fallbackFrozenResultText := none }
        flows := r.flows ++ [.announced entry.cleanup] }, false)
    else match resolveDeferredCleanupDecision entry now pendingDescendants with
      | .deferDescendants delayMs =>
        (deferRetry now { entry with lastAnnounceRetryAt := some now, wakeOnDescendantSettle := true }
          (some delayMs) r, true)
      | .giveUp retryCount =>
        ({ r with
          record := some { entry with
            announceRetryCount := retryCount.getD entry.announceRetryCount
            lastAnnounceRetryAt := if retryCount.isSome then some now else entry.lastAnnounceRetryAt
            wakeOnDescendantSettle := false
            fallbackFrozenResultText := none }
          flows := r.flows ++ [.givenUp now] }, false)
      | .retry retryCount resumeDelayMs =>
        (deferRetry now
          { entry with announceRetryCount := retryCount, lastAnnounceRetryAt := some now }
          resumeDelayMs r, true)

/-- `completeCleanupBookkeeping`, for the run itself. -/
def completeCleanupBookkeeping (cleanup : Cleanup) (completedAt : Time) (r : Run) : Run :=
  match cleanup with
  | .delete => { clearPendingLifecycleError r with record := none }
  | .keep => { r with record := r.record.map fun entry =>
      { entry with cleanupCompletedAt := some completedAt } }

/-- `markSubagentRunForSteerRestart`. -/
def markSteerRestart : Run × Bool :=
  match r.record with
  | none => (r, false)
  | some entry =>
    if suppressAnnounceForSteerRestart entry then (r, false)
    else ({ r with record := some { entry with suppressAnnounceReason := some .steerRestart } }, true)

/-- `clearSubagentRunSteerRestart`, before the run is resumed. -/
def clearSteerRestart : Run :=
  { r with
    record := r.record.map fun entry => { entry with suppressAnnounceReason := none }
    resumed := false }

/-- The record of a run that is killed, if it has not ended. -/
def terminateRecord (now : Time) (reason : String) (entry : SubagentRunRecord) : SubagentRunRecord :=
  if entry.endedAt.isSome then entry
  else { entry with
    endedAt := some now
    outcome := some (.error (some reason))
    endedReason := some .killed
    cleanupHandled := true
    cleanupCompletedAt := some now
    suppressAnnounceReason := some .killed }

/-- What `markSubagentRunTerminated` does with a run. -/
def terminate (now : Time) (reason : String) (r : Run) : Run :=
  { clearPendingLifecycleError r with record := r.record.map (terminateRecord now reason) }

/-- The record of the run that replaces another. -/
def replacement (source : SubagentRunRecord) (preserveFrozenResultFallback : Bool) : SubagentRunRecord where
  cleanup := source.cleanup
  spawnMode := source.spawnMode
  expectsCompletionMessage := source.expectsCompletionMessage
  fallbackFrozenResultText := if preserveFrozenResultFallback then source.frozenResultText else none

/-! ### The registry -/

/-- The registry of a process, and the file. -/
structure State where
  run : String → Run
  disk : String → Option SubagentRunRecord
  now : Time
  /-- Has the process restored the registry? -/
  live : Bool
  used : List String
  /-- The runs that the last restore found with `cleanupHandled` set and the cleanup not
  completed. -/
  skipped : String → Bool

def State.init : State := ⟨fun _ => {}, fun _ => none, 1, true, [], fun _ => false⟩

variable (s : State) (runId : String)

/-- A run changes. -/
def State.onRun (f : Run → Run) : State :=
  { s with run := Function.update s.run runId (f (s.run runId)) }

/-- `persistSubagentRuns`. -/
def persist : State := { s with disk := fun runId => (s.run runId).record }

variable (f : Run → Run × Bool)

/-- A run changes, and the file may be written. -/
def State.onRunThenPersist : State :=
  let t := s.onRun runId fun r => (f r).1
  if (f (s.run runId)).2 then persist t else t

@[simp] theorem run_persist : (persist s).run = s.run := rfl

@[simp] theorem run_onRun_self (f : Run → Run) :
    (s.onRun runId f).run runId = f (s.run runId) := Function.update_self ..

@[simp] theorem run_onRunThenPersist :
    (s.onRunThenPersist runId f).run = (s.onRun runId fun r => (f r).1).run := by
  unfold State.onRunThenPersist
  dsimp only
  split <;> rfl

@[simp] theorem skipped_onRunThenPersist : (s.onRunThenPersist runId f).skipped = s.skipped := by
  unfold State.onRunThenPersist
  dsimp only
  split <;> rfl

@[simp] theorem used_onRunThenPersist : (s.onRunThenPersist runId f).used = s.used := by
  unfold State.onRunThenPersist
  dsimp only
  split <;> rfl

/-- `retryDeferredCompletedAnnounces`. The file was written just before, and each run that changes
is written, so in the end the file has what the registry has. -/
def retryDeferredCompletedAnnounces (excludeRunId : String) : State :=
  persist { s with run := fun runId =>
    if runId = excludeRunId then s.run runId
    else retryDeferredCompletedAnnounce s.now (s.run runId) }

/-- `restoreSubagentRunsOnce`: what the file has is resumed. -/
def restoreSubagentRuns : State :=
  persist { s with
    run := fun runId => (resumeSubagentRun s.now { record := s.disk runId }).1
    live := true
    skipped := fun runId => (s.disk runId).any fun entry =>
      entry.cleanupHandled && entry.cleanupCompletedAt.isNone }

/-- What can happen. -/
inductive Action where
  | tick (ms : ℕ)
  | flush
  /-- `registerSubagentRun`. -/
  | register (runId : String) (cleanup : Cleanup) (spawnMode : SpawnMode) (expectsCompletionMessage : Bool)
  /-- `agent.wait` returns. -/
  | waitResult (runId : String) (outcome : SubagentRunOutcome) (endedAt : Option Time) (startedAt : Bool)
  /-- The lifecycle event `start`. -/
  | lifecycleStart (runId : String)
  /-- The lifecycle event `end`. -/
  | lifecycleEnd (runId : String) (endedAt : Option Time) (aborted : Bool)
  /-- The lifecycle event `error`. -/
  | lifecycleError (runId : String) (endedAt : Option Time) (error : Option String)
  /-- The timer of a pending lifecycle error fires. -/
  | lifecycleErrorTimer (runId : String)
  | captured (runId : String) (i : ℕ) (text : Option String)
  /-- The hook of a completion step ends. -/
  | hooked (runId : String) (i : ℕ)
  /-- An announce flow ends; it returns `true`, or returns `false` or throws. -/
  | flowResult (runId : String) (i : ℕ) (didAnnounce : Bool) (pendingDescendants : ℕ)
  /-- The hook of `finalizeSubagentCleanup` ends. -/
  | finalized (runId : String) (i : ℕ)
  | timer (runId : String) (i : ℕ)
  /-- `markSubagentRunForSteerRestart`. -/
  | markSteerRestart (runId : String)
  /-- `clearSubagentRunSteerRestart`. -/
  | clearSteerRestart (runId : String)
  /-- `replaceSubagentRunAfterSteer`. -/
  | replace (previousRunId nextRunId : String) (fallback : Option SubagentRunRecord)
      (preserveFrozenResultFallback : Bool)
  /-- `markSubagentRunTerminated`. -/
  | kill (runIds : List String) (reason : String)
  | crash
  /-- The next process restores the registry. -/
  | restore

/-- `waitForSubagentCompletion`, before it calls `completeSubagentRun`: the time and the outcome are
noted. -/
def noteWaitResult (now : Time) (outcome : SubagentRunOutcome) (endedAt : Option Time)
    (startedAt : Bool) (r : Run) : Run × Bool :=
  match r.record with
  | none => (r, false)
  | some entry =>
    let next := { entry with
      endedAt := some ((endedAt.or entry.endedAt).getD now)
      outcome := if runOutcomesEqual entry.outcome (some outcome) then entry.outcome else some outcome }
    ({ r with record := some next }, startedAt || endedAt.isSome || next ≠ entry)

/-- `waitForSubagentCompletion`, when the gateway has answered. -/
def waitResult (outcome : SubagentRunOutcome) (endedAt : Option Time) (startedAt : Bool) : State :=
  let s := s.onRunThenPersist runId (noteWaitResult s.now outcome endedAt startedAt)
  match (s.run runId).record with
  | none => s
  | some entry => s.onRun runId
      (completeSubagentRun (entry.endedAt.getD s.now) outcome
        (match outcome with | .error _ => .error | _ => .complete))

/-- The timer of a pending lifecycle error, for the run. -/
def lifecycleErrorFires (now : Time) (r : Run) : Run :=
  match r.lifecycleError with
  | none => r
  | some pending =>
    if pending.due ≤ now then
      let r := clearPendingLifecycleError r
      match r.record with
      | none => r
      | some entry =>
        if entry.endedReason = some .complete ∨ entry.outcome = some .ok then r
        else completeSubagentRun pending.endedAt (.error pending.error) .error r
    else r

variable (i : ℕ)

/-- The capture of a result ends. -/
def captured (text : Option String) : Option State :=
  match (s.run runId).completions[i]? with
  | some (.capturing reason captures mutated) =>
    let s := s.onRun runId fun r =>
      freezeResult text captures { r with completions := r.completions.eraseIdx i }
    let s := if captures || mutated then persist s else s
    some (s.onRunThenPersist runId (afterCapture reason))
  | _ => none

/-- The hook of a completion step ends. -/
def hooked : Option State :=
  match (s.run runId).completions[i]? with
  | some .hooking =>
    let s := s.onRun runId fun r => { r with completions := r.completions.eraseIdx i }
    some (s.onRunThenPersist runId fun r =>
      match startSubagentAnnounceCleanupFlow r with
      | none => (r, false)
      | some r => (r, true))
  | _ => none

/-- An announce flow ends. -/
def flowResult (didAnnounce : Bool) (pendingDescendants : ℕ) : Option State :=
  match (s.run runId).flows[i]? with
  | some .running =>
    let s := s.onRun runId fun r => { r with
      flows := r.flows.eraseIdx i
      log := r.log ++ [if didAnnounce then .succeeded else .failed pendingDescendants] }
    some (s.onRunThenPersist runId (finalizeSubagentCleanup s.now didAnnounce pendingDescendants))
  | _ => none

/-- The hook of `finalizeSubagentCleanup` ends. -/
def finalized : Option State :=
  let s' := s.onRun runId fun r => { r with flows := r.flows.eraseIdx i }
  match (s.run runId).flows[i]? with
  | some (.announced cleanup) =>
    some (retryDeferredCompletedAnnounces
      (persist (s'.onRun runId (completeCleanupBookkeeping cleanup s.now))) runId)
  | some (.givenUp completedAt) =>
    some (retryDeferredCompletedAnnounces
      (persist (s'.onRun runId (completeCleanupBookkeeping .keep completedAt))) runId)
  | _ => none

def timer : Option State :=
  match (s.run runId).timers[i]? with
  | some t =>
    if t.due ≤ s.now then
      let s := s.onRun runId fun r => { r with
        timers := r.timers.eraseIdx i
        resumed := if t.deletesResumed then false else r.resumed }
      some (s.onRunThenPersist runId (resumeSubagentRun s.now))
    else none
  | none => none

def clearSubagentRunSteerRestart : State :=
  match (s.run runId).record with
  | none => s
  | some entry =>
    if suppressAnnounceForSteerRestart entry then
      let s := persist (s.onRun runId clearSteerRestart)
      if entry.endedAt.isSome ∧ entry.cleanupCompletedAt.isNone then
        s.onRunThenPersist runId (resumeSubagentRun s.now)
      else s
    else s

def replaceSubagentRunAfterSteer (previousRunId nextRunId : String)
    (fallback : Option SubagentRunRecord) (preserveFrozenResultFallback : Bool) : State :=
  match (s.run previousRunId).record.or fallback with
  | none => s
  | some source =>
    let s := s.onRun previousRunId fun r =>
      { clearPendingLifecycleError r with record := none, resumed := false }
    persist (s.onRun nextRunId fun r =>
      { r with record := some (replacement source preserveFrozenResultFallback) })

def markSubagentRunTerminated (runIds : List String) (reason : String) : State :=
  let updated := runIds.any fun runId => (s.run runId).record.any fun entry => entry.endedAt.isNone
  let t := { s with run := fun runId =>
    if runId ∈ runIds then terminate s.now reason (s.run runId) else s.run runId }
  if updated then persist t else t

/-- The steps of a process that has restored its registry. -/
def liveNext : Action → Option State
  | .tick ms => some { s with now := ⟨s.now + ms, Nat.add_pos_left s.now.pos ms⟩ }
  | .flush => some (persist s)
  | .register runId cleanup spawnMode expectsCompletionMessage =>
    if runId ∈ s.used then none
    else some (persist ({ s with used := runId :: s.used }.onRun runId fun r =>
      { r with record := some { cleanup, spawnMode, expectsCompletionMessage } }))
  | .waitResult runId outcome endedAt startedAt => some (waitResult s runId outcome endedAt startedAt)
  | .lifecycleStart runId => some (s.onRun runId clearPendingLifecycleError)
  | .lifecycleEnd runId endedAt aborted =>
    some (s.onRun runId
      (completeSubagentRun (endedAt.getD s.now) (if aborted then .timeout else .ok) .complete))
  | .lifecycleError runId endedAt error =>
    some (s.onRun runId (schedulePendingLifecycleError s.now (endedAt.getD s.now) error))
  | .lifecycleErrorTimer runId => some (s.onRun runId (lifecycleErrorFires s.now))
  | .captured runId i text => captured s runId i text
  | .hooked runId i => hooked s runId i
  | .flowResult runId i didAnnounce pendingDescendants =>
    flowResult s runId i didAnnounce pendingDescendants
  | .finalized runId i => finalized s runId i
  | .timer runId i => timer s runId i
  | .markSteerRestart runId => some (s.onRunThenPersist runId markSteerRestart)
  | .clearSteerRestart runId => some (clearSubagentRunSteerRestart s runId)
  | .replace previousRunId nextRunId fallback preserveFrozenResultFallback =>
    if nextRunId ∈ s.used ∨ nextRunId = previousRunId then none
    else some (replaceSubagentRunAfterSteer { s with used := nextRunId :: s.used } previousRunId
      nextRunId fallback preserveFrozenResultFallback)
  | .kill runIds reason => some (markSubagentRunTerminated s runIds reason)
  | .crash => some { s with run := fun _ => {}, live := false }
  | .restore => none

def next (a : Action) : Option State :=
  if s.live then liveNext s a
  else match a with
    | .restore => some (restoreSubagentRuns s)
    | _ => none

end Foxclaw.Agents.SubagentRegistry
