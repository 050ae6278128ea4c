import Foxclaw.Lib.Prog
import Mathlib.Data.List.Infix
import Mathlib.Data.List.Sort

/-!
# The outbound delivery queue

The queue keeps each message that is to be sent in a file of its own, so that it survives
a crash. Every function of `delivery-queue.ts` is a program (`Foxclaw.Lib.Prog`) whose calls
are its file operations, its readings of the clock, the draw of an id, and the send.

## The model

An entry is the five fields the queue works on and a payload of any type `δ`: the channel,
the recipient and all else that the queue only stores and hands to `deliver`. The log lines
are left out; the counts of the summary are kept. A read is one call with the parsed entry
for its reply, and a file that is not JSON is one whose read fails.
-/

namespace Foxclaw.Outbound

/-- What a call throws. -/
structure JsError where
  /-- `code`, where the error has one. -/
  code : Option String
  message : String
  deriving DecidableEq

structure QueuedDelivery (δ : Type) where
  id : String
  enqueuedAt : ℤ
  retryCount : ℤ
  lastAttemptAt : Option ℤ
  lastError : Option String
  /-- The fields of `QueuedDeliveryPayload`. -/
  payload : δ

/-- A name in the queue directory. -/
inductive FileName where
  /-- `{id}.json`. -/
  | json (id : String)
  /-- `{id}.delivered`. -/
  | delivered (id : String)
  /-- Any other name: a temporary file, `failed`. -/
  | other (name : String)
  deriving DecidableEq

/-- The id of a `.json` file. -/
def FileName.jsonId : FileName → Option String
  | json id => some id
  | _ => none

/-- What the functions of the queue call. -/
inductive Command (δ : Type) where
  /-- `mkdir` of the queue directory or of `failed/`. -/
  | mkdir
  | generateSecureUuid
  /-- `Date.now`. -/
  | now
  /-- `writeFile` of `{id}.json.{pid}.tmp`. -/
  | writeTmp (id : String) (entry : QueuedDelivery δ)
  /-- `rename` of `{id}.json.{pid}.tmp` to `{id}.json`. -/
  | renameTmp (id : String)
  /-- `rename` of `{id}.json` to `{id}.delivered`. -/
  | renameDelivered (id : String)
  /-- `rename` of `{id}.json` to `failed/{id}.json`. -/
  | renameFailed (id : String)
  /-- `unlink` of `{id}.delivered`. -/
  | unlinkDelivered (id : String)
  /-- `readdir` of the queue directory. -/
  | readdir
  /-- `stat` of `{id}.json`, then `isFile`. -/
  | stat (id : String)
  /-- `readFile` of `{id}.json`, then `JSON.parse`. -/
  | readFile (id : String)
  | deliver (entry : QueuedDelivery δ)

variable {δ : Type}

/-- What a call returns. -/
@[reducible] def Value : Command δ → Type
  | .generateSecureUuid => String
  | .now => ℤ
  | .readdir => List FileName
  | .stat _ => Bool
  | .readFile _ => QueuedDelivery δ
  | _ => Unit

/-- How a call ends. -/
abbrev Reply (c : Command δ) := Except JsError (Value c)

/-- A function of the queue. -/
abbrev Io (δ : Type) (α : Type) := Prog (Command δ) Reply JsError α

/-- Make a call; throw what it throws. -/
def io (c : Command δ) : Io δ (Value c) := (Prog.call c).bind Prog.ofExcept

/-- `unlinkBestEffort` of `{id}.delivered`. -/
def unlinkBestEffort (id : String) : Io δ Unit := do
  let _ ← (io (.unlinkDelivered id)).attempt
  pure ()

def ensureQueueDir : Io δ Unit := do
  io .mkdir
  io .mkdir

/-! ### One entry -/

/-- Write an entry to the temporary file of this process, then rename it to `{id}.json`. -/
def replaceFile (id : String) (entry : QueuedDelivery δ) : Io δ Unit := do
  io (.writeTmp id entry)
  io (.renameTmp id)

def enqueueDelivery (params : δ) : Io δ String := do
  ensureQueueDir
  let id ← io .generateSecureUuid
  let enqueuedAt ← io .now
  replaceFile id ⟨id, enqueuedAt, 0, none, none, params⟩
  pure id

def ackDelivery (id : String) : Io δ Unit := do
  match ← (io (.renameDelivered id)).attempt with
  | .error err =>
    if err.code = some "ENOENT" then
      -- the entry is gone: a previous call may have left the marker
      unlinkBestEffort id
    else
      Prog.throw err
  | .ok () => unlinkBestEffort id

def failDelivery (id : String) (error : String) : Io δ Unit := do
  let entry ← io (.readFile id)
  let now ← io .now
  replaceFile id
    { entry with
      retryCount := entry.retryCount + 1
      lastAttemptAt := some now
      lastError := some error }

def moveToFailed (id : String) : Io δ Unit := do
  io .mkdir
  io (.renameFailed id)

/-! ### The backlog -/

variable (entry : QueuedDelivery δ)

def hasAttemptTimestamp : Bool := entry.lastAttemptAt.any (0 < ·)

/-- `normalizeLegacyQueuedDeliveryEntry`: the entry, and whether it was changed. -/
def normalizeLegacyQueuedDeliveryEntry : QueuedDelivery δ × Bool :=
  if hasAttemptTimestamp entry || entry.retryCount ≤ 0 then
    (entry, false)
  else if ¬ 0 < entry.enqueuedAt then
    (entry, false)
  else
    ({ entry with lastAttemptAt := some entry.enqueuedAt }, true)

/-- The body of the loop over the files: the entry of the file `{id}.json`, if it is one. -/
def loadEntry (id : String) : Io δ (Option (QueuedDelivery δ)) := do
  let isFile ← io (.stat id)
  if isFile then
    let parsed ← io (.readFile id)
    let (entry, migrated) := normalizeLegacyQueuedDeliveryEntry parsed
    if migrated then
      replaceFile id entry
    pure (some entry)
  else
    pure none

/-- The entries of the files `ids`; a file that cannot be read is skipped. -/
def loadEntries : List String → Io δ (List (QueuedDelivery δ))
  | [] => pure []
  | id :: ids => do
    let entry ← (loadEntry id).attempt
    let entries ← loadEntries ids
    match entry with
    | .ok (some entry) => pure (entry :: entries)
    | _ => pure entries

/-- The loop over the `.delivered` markers. -/
def unlinkMarkers (files : List FileName) : Io δ Unit :=
  Prog.forM (fun file => match file with
    | .delivered id => unlinkBestEffort id
    | _ => pure ()) files

def loadPendingDeliveries : Io δ (List (QueuedDelivery δ)) := do
  match ← (io .readdir).attempt with
  | .error err => if err.code = some "ENOENT" then pure [] else Prog.throw err
  | .ok files =>
    unlinkMarkers files
    loadEntries (files.filterMap FileName.jsonId)

/-! ### Retries -/

def MAX_RETRIES : ℤ := 5

def BACKOFF_MS : List ℤ := [5000, 25000, 120000, 600000]

def computeBackoffMs (retryCount : ℤ) : ℤ :=
  if retryCount ≤ 0 then
    0
  else
    (BACKOFF_MS[min (retryCount - 1).toNat (BACKOFF_MS.length - 1)]?).getD 0

/-- The answer of `isEntryEligibleForRecoveryRetry`. -/
inductive RetryEligibility where
  /-- `eligible: true`. -/
  | eligible
  /-- `eligible: false`. -/
  | deferred (remainingBackoffMs : ℤ)
  deriving DecidableEq

def isEntryEligibleForRecoveryRetry (now : ℤ) : RetryEligibility :=
  let backoff := computeBackoffMs (entry.retryCount + 1)
  if backoff ≤ 0 then
    .eligible
  else if entry.retryCount = 0 ∧ entry.lastAttemptAt = none then
    .eligible
  else
    let baseAttemptAt :=
      if hasAttemptTimestamp entry then entry.lastAttemptAt.getD entry.enqueuedAt
      else entry.enqueuedAt
    let nextEligibleAt := baseAttemptAt + backoff
    if nextEligibleAt ≤ now then .eligible else .deferred (nextEligibleAt - now)

/-- `PERMANENT_ERROR_PATTERNS`, in lower case. -/
def PERMANENT_ERROR_PATTERNS : List String :=
  ["no conversation reference found", "chat not found", "user not found",
    "bot was blocked by the user", "forbidden: bot was kicked", "chat_id is empty",
    "recipient is not a valid", "outbound not configured for channel",
    "ambiguous discord recipient"]

/-- `isPermanentDeliveryError`: the patterns are matched without regard to case. -/
def isPermanentDeliveryError (error : String) : Bool :=
  PERMANENT_ERROR_PATTERNS.any fun pattern =>
    decide (pattern.toList <:+: error.toList.map Char.toLower)

/-! ### Recovery -/

structure RecoverySummary where
  recovered : ℕ
  failed : ℕ
  skippedMaxRetries : ℕ
  deferredBackoff : ℕ
  deriving DecidableEq

/-- Which of the counts an entry adds to. -/
inductive EntryOutcome where
  | recovered
  /-- Its send or its acknowledgement failed. -/
  | failed
  | skippedMaxRetries
  | deferredBackoff

/-- The summary with one entry more. -/
def RecoverySummary.add (summary : RecoverySummary) : EntryOutcome → RecoverySummary
  | .recovered => { summary with recovered := summary.recovered + 1 }
  | .failed => { summary with failed := summary.failed + 1 }
  | .skippedMaxRetries => { summary with skippedMaxRetries := summary.skippedMaxRetries + 1 }
  | .deferredBackoff => { summary with deferredBackoff := summary.deferredBackoff + 1 }

/-- Send an entry and acknowledge it; when either throws, record the failure. -/
def retryDelivery : Io δ EntryOutcome := do
  match ← (do io (.deliver entry); ackDelivery entry.id : Io δ Unit).attempt with
  | .ok () => pure .recovered
  | .error err =>
    if isPermanentDeliveryError err.message then
      let _ ← (moveToFailed entry.id).attempt
      pure .failed
    else
      let _ ← (failDelivery entry.id err.message).attempt
      pure .failed

/-- The body of the loop over the entries; `none` when the time is up. -/
def recoverEntry (deadline : ℤ) (entry : QueuedDelivery δ) : Io δ (Option EntryOutcome) := do
  let now ← io .now
  if deadline ≤ now then
    pure none
  else if MAX_RETRIES ≤ entry.retryCount then
    let _ ← (moveToFailed entry.id).attempt
    pure (some .skippedMaxRetries)
  else
    match isEntryEligibleForRecoveryRetry entry now with
    | .deferred _ => pure (some .deferredBackoff)
    | .eligible =>
      let outcome ← retryDelivery entry
      pure (some outcome)

/-- The loop over the entries. -/
def recoverEntries (deadline : ℤ) :
    List (QueuedDelivery δ) → RecoverySummary → Io δ RecoverySummary
  | [], summary => pure summary
  | entry :: pending, summary => do
    match ← recoverEntry deadline entry with
    | none => pure summary
    | some outcome => recoverEntries deadline pending (summary.add outcome)

def recoverPendingDeliveries (maxRecoveryMs : Option ℤ) : Io δ RecoverySummary := do
  let pending ← loadPendingDeliveries
  if pending.isEmpty then
    pure ⟨0, 0, 0, 0⟩
  else
    -- oldest first; the sort is stable
    let sorted := pending.insertionSort fun a b => a.enqueuedAt ≤ b.enqueuedAt
    let now ← io .now
    recoverEntries (now + maxRecoveryMs.getD 60000) sorted ⟨0, 0, 0, 0⟩

end Foxclaw.Outbound
