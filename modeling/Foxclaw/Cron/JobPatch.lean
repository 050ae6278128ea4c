import Foxclaw.Cron.Ops
import Foxclaw.Routing.SessionKey
import Mathlib.Data.Rat.Floor

/-!
# Patching a whole cron job

`Cron.Jobs` leaves out what a job does when it runs. This module models `applyJobPatch` of
`cron/service/jobs.ts` and the part of `update` of `cron/service/ops.ts` that works on the job, with
all fields of a job: what it runs (`CronPayload`), where the result goes (`CronDelivery`), and whom it
tells of failures (`CronFailureAlert`).

## The model

The job is an object that is changed in place. A function that may throw returns the job, or what it
throws with the job as it is then (`Thrown`). A property a patch has, but with a value of another
type, is `some none`; one it has not is `none`.

The lowering of letters, and whether a text is an HTTP URL, are parameters (`PatchDeps`).
-/

namespace Foxclaw.Cron

open Foxclaw.Text Foxclaw.Routing

/-! ### The job -/

inductive CronSessionTarget where
  | main
  | isolated
  | current
  /-- `session:` and the key of a session. -/
  | session (key : String)
  deriving DecidableEq

inductive CronWakeMode where
  | nextHeartbeat
  | now
  deriving DecidableEq

/-- `CronAgentTurnPayload`. -/
structure CronAgentTurn where
  message : String
  model : Option String
  /-- The models that stand in for it. -/
  fallbacks : Option (List String)
  thinking : Option String
  timeoutSeconds : Option ℚ
  /-- It may see content from outside. -/
  allowUnsafeExternalContent : Option Bool
  lightContext : Option Bool
  /-- The result is delivered: a legacy field, as the next three. -/
  deliver : Option Bool
  channel : Option String
  /-- `to`. -/
  recipient : Option String
  bestEffortDeliver : Option Bool
  deriving DecidableEq

inductive CronPayload where
  | systemEvent (text : String)
  | agentTurn (turn : CronAgentTurn)
  deriving DecidableEq

inductive CronDeliveryMode where
  | none
  | announce
  | webhook
  deriving DecidableEq

/-- The mode of a destination for failures. -/
inductive CronAlertMode where
  | announce
  | webhook
  deriving DecidableEq

structure CronFailureDestination where
  channel : Option String
  /-- `to`. -/
  recipient : Option String
  accountId : Option String
  mode : Option CronAlertMode
  deriving DecidableEq

structure CronDelivery where
  mode : CronDeliveryMode
  channel : Option String
  /-- `to`. -/
  recipient : Option String
  accountId : Option String
  bestEffort : Option Bool
  failureDestination : Option CronFailureDestination
  deriving DecidableEq

structure CronFailureAlert where
  /-- After how many failures. -/
  after : Option ℤ
  channel : Option String
  /-- `to`. -/
  recipient : Option String
  cooldownMs : Option ℤ
  mode : Option CronAlertMode
  accountId : Option String
  deriving DecidableEq

/-- The alerts of a job. -/
inductive FailureAlertSetting where
  | unset
  /-- None: `false`. -/
  | off
  | alert (config : CronFailureAlert)
  deriving DecidableEq

/-- The fields of `CronJobState` that decide nothing about when a job runs. -/
structure CronReportState where
  lastErrorReason : Option String
  lastFailureAlertAtMs : Option ℤ
  lastDeliveryStatus : Option String
  lastDeliveryError : Option String
  lastDelivered : Option Bool
  deriving DecidableEq

/-- `CronJob`, with all its fields. -/
structure CronJobEntry extends CronJob where
  agentId : Option String
  sessionKey : Option String
  name : String
  description : Option String
  sessionTarget : CronSessionTarget
  /-- When the main session takes note of it. -/
  wakeMode : CronWakeMode
  payload : CronPayload
  delivery : Option CronDelivery
  /-- Whom it tells of failures. -/
  failureAlert : FailureAlertSetting
  report : CronReportState
  deriving DecidableEq

/-! ### The patch -/

/-- A patch of a turn of an agent. -/
structure CronAgentTurnPatch where
  message : Option String
  model : Option String
  thinking : Option String
  timeoutSeconds : Option ℚ
  allowUnsafeExternalContent : Option Bool
  lightContext : Option Bool
  deliver : Option Bool
  channel : Option String
  /-- `to`. -/
  recipient : Option String
  bestEffortDeliver : Option Bool

inductive CronPayloadPatch where
  /-- Of a text for the main session. -/
  | systemEvent (text : Option String)
  /-- Of a turn of an agent. -/
  | agentTurn (turn : CronAgentTurnPatch)

/-- `Partial<CronFailureDestination>`. -/
structure CronFailureDestinationPatch where
  channel : Option (Option String)
  /-- `to`. -/
  recipient : Option (Option String)
  accountId : Option (Option String)
  mode : Option (Option String)

/-- The mode of a patch of a delivery. -/
inductive CronDeliveryModePatch where
  /-- `deliver`, the legacy name of `announce`. -/
  | deliver
  | mode (mode : CronDeliveryMode)

/-- `CronDeliveryPatch`; the failure destination may be there without a value. -/
structure CronDeliveryPatch where
  mode : Option CronDeliveryModePatch
  channel : Option (Option String)
  /-- `to`. -/
  recipient : Option (Option String)
  accountId : Option (Option String)
  bestEffort : Option Bool
  failureDestination : Option (Option CronFailureDestinationPatch)

/-- `Partial<CronFailureAlert>`; a number is `some none` when it is not finite. -/
structure CronFailureAlertPatch where
  after : Option (Option ℚ)
  channel : Option (Option String)
  /-- `to`. -/
  recipient : Option (Option String)
  cooldownMs : Option (Option ℚ)
  mode : Option (Option String)
  accountId : Option (Option String)

/-- The patch of the alerts. -/
inductive FailureAlertPatch where
  | unset
  /-- `false`. -/
  | off
  /-- Fields of an alert. -/
  | alert (config : CronFailureAlertPatch)

/-- A partial `CronReportState`. -/
structure CronReportStatePatch where
  lastErrorReason : Option (Option String)
  lastFailureAlertAtMs : Option (Option ℤ)
  lastDeliveryStatus : Option (Option String)
  lastDeliveryError : Option (Option String)
  lastDelivered : Option (Option Bool)

/-- `CronJobPatch`, with all its fields. -/
structure CronEntryPatch where
  name : Option (Option String)
  description : Option (Option String)
  enabled : Option Bool
  deleteAfterRun : Option Bool
  schedule : Option CronSchedule
  sessionTarget : Option CronSessionTarget
  wakeMode : Option CronWakeMode
  payload : Option CronPayloadPatch
  delivery : Option CronDeliveryPatch
  failureAlert : Option FailureAlertPatch
  state : Option (CronJobStatePatch × CronReportStatePatch)
  agentId : Option (Option String)
  sessionKey : Option (Option String)

/-- What the patching rests on. -/
structure PatchDeps where
  /-- `toLowerCase`. -/
  cases : CaseMap
  /-- `new URL(text)` is one of HTTP. -/
  isHttpUrl : String → Bool
  defaultAgentId : Option String

/-! ### Texts -/

/-- `normalizeOptionalTrimmedString`, and `normalizeOptionalText`, `normalizeOptionalSessionKey`. -/
def normalizeOptionalTrimmedString (value : Option String) : Option String :=
  (value.map trimString).filter (· ≠ "")

def normalizeRequiredName (raw : Option String) : Except String String :=
  match normalizeOptionalTrimmedString raw with
  | none => .error "cron job name is required"
  | some name => .ok name

variable (deps : PatchDeps)

def normalizeOptionalAgentId (raw : Option String) : Option String :=
  (normalizeOptionalTrimmedString raw).map (normalizeAgentId deps.cases)

def normalizeHttpWebhookUrl (value : Option String) : Option String :=
  (normalizeOptionalTrimmedString value).filter deps.isHttpUrl

/-- The mode a text names. -/
def alertModeOf (mode : Option String) : Option CronAlertMode :=
  match mode.map trimString with
  | some "announce" => some .announce
  | some "webhook" => some .webhook
  | _ => none

/-! ### Merging -/

def buildPayloadFromPatch : CronPayloadPatch → Except String CronPayload
  | .systemEvent text =>
    match text.filter (· ≠ "") with
    | none => .error "cron.update payload.kind=\"systemEvent\" requires text"
    | some text => .ok (.systemEvent text)
  | .agentTurn patch =>
    match patch.message.filter (· ≠ "") with
    | none => .error "cron.update payload.kind=\"agentTurn\" requires message"
    | some message =>
      .ok (.agentTurn
        { message
          model := patch.model
          fallbacks := none
          thinking := patch.thinking
          timeoutSeconds := patch.timeoutSeconds
          lightContext := patch.lightContext
          allowUnsafeExternalContent := patch.allowUnsafeExternalContent
          deliver := patch.deliver
          channel := patch.channel
          recipient := patch.recipient
          bestEffortDeliver := patch.bestEffortDeliver })

def mergeCronPayload (existing : CronPayload) (patch : CronPayloadPatch) : Except String CronPayload :=
  match existing, patch with
  | .systemEvent existing, .systemEvent text => .ok (.systemEvent (text.getD existing))
  | .agentTurn existing, .agentTurn patch =>
    .ok (.agentTurn
      { existing with
        message := patch.message.getD existing.message
        model := patch.model.or existing.model
        thinking := patch.thinking.or existing.thinking
        timeoutSeconds := patch.timeoutSeconds.or existing.timeoutSeconds
        lightContext := patch.lightContext.or existing.lightContext
        allowUnsafeExternalContent :=
          patch.allowUnsafeExternalContent.or existing.allowUnsafeExternalContent
        deliver := patch.deliver.or existing.deliver
        channel := patch.channel.or existing.channel
        recipient := patch.recipient.or existing.recipient
        bestEffortDeliver := patch.bestEffortDeliver.or existing.bestEffortDeliver })
  | _, patch => buildPayloadFromPatch patch

def buildLegacyDeliveryPatch (payload : CronAgentTurnPatch) : Option CronDeliveryPatch :=
  let toRaw := (payload.recipient.map trimString).getD ""
  if payload.deliver.isNone && payload.bestEffortDeliver.isNone && toRaw = "" then none
  else
    some
      { mode :=
          if payload.deliver = some false then some (.mode .none)
          else if payload.deliver = some true ∨ toRaw ≠ "" then some (.mode .announce)
          else none
        channel := payload.channel.map fun channel =>
          (some (deps.cases.toLowerCase (trimString channel))).filter (· ≠ "")
        recipient := payload.recipient.map fun recipient => some (trimString recipient)
        accountId := none
        bestEffort := payload.bestEffortDeliver
        failureDestination := none }

/-- The failure destination that `mergeCronDelivery` makes. -/
def mergeFailureDestination (existing : Option CronFailureDestination)
    (patch : CronFailureDestinationPatch) : CronFailureDestination where
  channel := (patch.channel.map normalizeOptionalTrimmedString).getD (existing.bind (·.channel))
  recipient := (patch.recipient.map normalizeOptionalTrimmedString).getD (existing.bind (·.recipient))
  accountId := (patch.accountId.map normalizeOptionalTrimmedString).getD (existing.bind (·.accountId))
  mode := (patch.mode.map alertModeOf).getD (existing.bind (·.mode))

/-- The mode a patch gives. -/
def CronDeliveryModePatch.toMode : CronDeliveryModePatch → CronDeliveryMode
  | .deliver => .announce
  | .mode m => m

def mergeCronDelivery (existing : Option CronDelivery) (patch : CronDeliveryPatch) : CronDelivery where
  mode := (patch.mode.map (·.toMode)).getD ((existing.map (·.mode)).getD .none)
  channel := (patch.channel.map normalizeOptionalTrimmedString).getD (existing.bind (·.channel))
  recipient := (patch.recipient.map normalizeOptionalTrimmedString).getD (existing.bind (·.recipient))
  accountId := (patch.accountId.map normalizeOptionalTrimmedString).getD (existing.bind (·.accountId))
  bestEffort := patch.bestEffort.or (existing.bind (·.bestEffort))
  failureDestination :=
    match patch.failureDestination with
    | none => existing.bind (·.failureDestination)
    | some none => none
    | some (some patchFd) =>
      some (mergeFailureDestination (existing.bind (·.failureDestination)) patchFd)

def mergeCronFailureAlert (existing : FailureAlertSetting) :
    FailureAlertPatch → FailureAlertSetting
  | .off => .off
  | .unset => existing
  | .alert patch =>
    let base : CronFailureAlert :=
      match existing with
      | .alert config => config
      | _ => ⟨none, none, none, none, none, none⟩
    .alert
      { after := (patch.after.map fun after =>
          (after.filter (0 < ·)).map Int.floor).getD base.after
        channel := (patch.channel.map normalizeOptionalTrimmedString).getD base.channel
        recipient := (patch.recipient.map normalizeOptionalTrimmedString).getD base.recipient
        cooldownMs := (patch.cooldownMs.map fun cooldownMs =>
          (cooldownMs.filter (0 ≤ ·)).map Int.floor).getD base.cooldownMs
        mode := (patch.mode.map alertModeOf).getD base.mode
        accountId := (patch.accountId.map normalizeOptionalTrimmedString).getD base.accountId }

/-- `{ ...state, ...patch }`, of the rest of the state. -/
def CronReportStatePatch.apply (patch : CronReportStatePatch) (state : CronReportState) :
    CronReportState where
  lastErrorReason := patch.lastErrorReason.getD state.lastErrorReason
  lastFailureAlertAtMs := patch.lastFailureAlertAtMs.getD state.lastFailureAlertAtMs
  lastDeliveryStatus := patch.lastDeliveryStatus.getD state.lastDeliveryStatus
  lastDeliveryError := patch.lastDeliveryError.getD state.lastDeliveryError
  lastDelivered := patch.lastDelivered.getD state.lastDelivered

/-! ### Assertions -/

def CronSessionTarget.isIsolatedLike : CronSessionTarget → Bool
  | .main => false
  | _ => true

/-- `payload.kind === "agentTurn"`. -/
def CronPayload.isAgentTurn : CronPayload → Bool
  | .agentTurn _ => true
  | .systemEvent _ => false

/-- `delivery?.mode === "webhook"`. -/
def toWebhook (delivery : Option CronDelivery) : Bool :=
  delivery.any fun delivery => delivery.mode = .webhook

variable (job : CronJobEntry)

/-- What `assertSupportedJobSpec` throws. -/
def assertSupportedJobSpec : Option String :=
  if job.sessionTarget = .main ∧ job.payload.isAgentTurn = true then
    some "main cron jobs require payload.kind=\"systemEvent\""
  else if job.sessionTarget.isIsolatedLike = true ∧ job.payload.isAgentTurn = false then
    some "isolated/current/session cron jobs require payload.kind=\"agentTurn\""
  else none

/-- What `assertMainSessionAgentId` throws. -/
def assertMainSessionAgentId : Option String :=
  match job.sessionTarget, job.agentId.filter (· ≠ "") with
  | .main, some agentId =>
    if normalizeAgentId deps.cases agentId ≠
        normalizeAgentId deps.cases (deps.defaultAgentId.getD "") then
      some ("cron: sessionTarget \"main\" is only valid for the default agent. Use sessionTarget " ++
        "\"isolated\" with payload.kind \"agentTurn\" for non-default agents (agentId: " ++
        agentId ++ ")")
    else none
  | _, _ => none

variable (text : List Char)

/-- `TELEGRAM_TME_URL_REGEX`: its second branch is found wherever the first is. -/
def hasTelegramUrl : Bool :=
  text.tails.any fun rest => "t.me/".toList.isPrefixOf (rest.map Char.toLower)

/-- `\d+`, then what is left. -/
def dropDigits : Option (List Char) :=
  match text with
  | c :: cs => if c.isDigit then some (cs.dropWhile Char.isDigit) else none
  | [] => none

/-- `TELEGRAM_SLASH_TOPIC_REGEX`. -/
def isSlashTopic : Bool :=
  let unsigned := match text with
    | '-' :: rest => rest
    | _ => text
  match dropDigits unsigned with
  | some ('/' :: topic) => dropDigits topic = some []
  | _ => false

def validateTelegramDeliveryTarget (recipient : Option String) : Option String :=
  match recipient.filter (· ≠ "") with
  | none => none
  | some recipient =>
    let trimmed := (trimString recipient).toList
    if hasTelegramUrl trimmed then none
    else if isSlashTopic trimmed then
      some ("Invalid Telegram delivery target \"" ++ recipient ++ "\". Use colon (:) as delimiter " ++
        "for topics, not slash. Valid formats: -1001234567890, -1001234567890:123, " ++
        "-1001234567890:topic:123, @username, https://t.me/username")
    else none

/-- `assertDeliverySupport`: the delivery, whose URL is trimmed. -/
def assertDeliverySupport : Except String (Option CronDelivery) :=
  match job.delivery with
  | none => .ok none
  | some delivery =>
    match delivery.mode with
    | .none => .ok (some delivery)
    | .webhook =>
      match normalizeHttpWebhookUrl deps delivery.recipient with
      | none => .error "cron webhook delivery requires delivery.to to be a valid http(s) URL"
      | some target => .ok (some { delivery with recipient := some target })
    | .announce =>
      if !job.sessionTarget.isIsolatedLike then
        .error "cron channel delivery config is only supported for sessionTarget=\"isolated\""
      else if delivery.channel = some "telegram" then
        match validateTelegramDeliveryTarget delivery.recipient with
        | some telegramError => .error telegramError
        | none => .ok (some delivery)
      else .ok (some delivery)

/-- The error of a failure destination that is not supported. -/
def failureDestinationMessage : String :=
  "cron delivery.failureDestination is only supported for sessionTarget=\"isolated\" unless " ++
    "delivery.mode=\"webhook\""

/-- A failure destination of a job of the main session without a webhook. -/
def unsupportedFailureDestination : Bool :=
  job.sessionTarget = .main && !toWebhook job.delivery &&
    (job.delivery.bind (·.failureDestination)).isSome

/-- `assertFailureDestinationSupport`: the delivery, with the URL of the destination trimmed. -/
def assertFailureDestinationSupport : Except String (Option CronDelivery) :=
  match job.delivery with
  | none => .ok none
  | some delivery =>
    match delivery.failureDestination with
    | none => .ok (some delivery)
    | some destination =>
      if unsupportedFailureDestination job then .error failureDestinationMessage
      else if destination.mode = some .webhook then
        match normalizeHttpWebhookUrl deps destination.recipient with
        | none =>
          .error ("cron failure destination webhook requires delivery.failureDestination.to to be a " ++
            "valid http(s) URL")
        | some target =>
          .ok (some { delivery with
            failureDestination := some { destination with recipient := some target } })
      else .ok (some delivery)

/-! ### The patch of a job -/

/-- The checks that may reject a patch. -/
inductive PatchCheck where
  | name
  | payload
  /-- A failure destination in the main session. -/
  | mainFailureDestination
  /-- `assertSupportedJobSpec`. -/
  | jobSpec
  /-- `assertMainSessionAgentId`. -/
  | mainAgent
  /-- `assertDeliverySupport`. -/
  | delivery
  /-- `assertFailureDestinationSupport`. -/
  | failureDestination
  | schedule
  deriving DecidableEq

/-- What is thrown, and the job as it is then. -/
structure Thrown where
  /-- Where. -/
  check : PatchCheck
  message : String
  left : CronJobEntry

/-- A value, or a throw that leaves the job. -/
def orThrow {α : Type} (check : PatchCheck) (left : CronJobEntry) (x : Except String α) : Except Thrown α :=
  x.mapError fun message => ⟨check, message, left⟩

/-- A throw, if there is a message. -/
def throwIf (check : PatchCheck) (left : CronJobEntry) (message : Option String) : Except Thrown Unit :=
  match message with
  | some message => .error ⟨check, message, left⟩
  | none => .ok ()

section Patch

variable (deps : PatchDeps) (patch : CronEntryPatch) (job : CronJobEntry)

/-- The name the patch gives. -/
def patchedName : Except String String :=
  match patch.name with
  | none => .ok job.name
  | some raw => normalizeRequiredName raw

/-- The first assignments, up to `wakeMode`. -/
def assignIdentity (name : String) : CronJobEntry :=
  { job with
    name
    description := (patch.description.map normalizeOptionalTrimmedString).getD job.description
    enabled := patch.enabled.getD job.enabled
    deleteAfterRun := patch.deleteAfterRun.or job.deleteAfterRun
    schedule := (patch.schedule.map (patchSchedule job.schedule)).getD job.schedule
    sessionTarget := patch.sessionTarget.getD job.sessionTarget
    wakeMode := patch.wakeMode.getD job.wakeMode }

/-- The payload the patch gives. -/
def patchedPayload : Except String CronPayload :=
  match patch.payload with
  | none => .ok job.payload
  | some payload => mergeCronPayload job.payload payload

/-- The delivery the patch gives; legacy clients give it with the payload. -/
def patchedDelivery : Option CronDelivery :=
  match patch.delivery, patch.payload with
  | some delivery, _ => some (mergeCronDelivery job.delivery delivery)
  | none, some (.agentTurn payload) =>
    match buildLegacyDeliveryPatch deps payload with
    | some legacyDeliveryPatch =>
      if job.sessionTarget.isIsolatedLike && job.payload.isAgentTurn then
        some (mergeCronDelivery job.delivery legacyDeliveryPatch)
      else job.delivery
    | none => job.delivery
  | none, _ => job.delivery

/-- The next assignments, up to `failureAlert`. -/
def assignContent (payload : CronPayload) : CronJobEntry :=
  { job with
    payload
    delivery := patchedDelivery deps patch { job with payload }
    failureAlert := (patch.failureAlert.map (mergeCronFailureAlert job.failureAlert)).getD
      job.failureAlert }

/-- The delivery of a job of the main session is dropped, unless it is a webhook. -/
def clearedDelivery : Option CronDelivery :=
  if job.sessionTarget = .main ∧ toWebhook job.delivery = false then none else job.delivery

/-- The last assignments. -/
def assignRest : CronJobEntry :=
  { job with
    delivery := clearedDelivery job
    state := (patch.state.map fun state => state.1.apply job.state).getD job.state
    report := (patch.state.map fun state => state.2.apply job.report).getD job.report
    agentId := (patch.agentId.map (normalizeOptionalAgentId deps)).getD job.agentId
    sessionKey := (patch.sessionKey.map normalizeOptionalTrimmedString).getD job.sessionKey }

/-- The assertions at the end. -/
def assertSupported : Except Thrown CronJobEntry := do
  throwIf .jobSpec job (assertSupportedJobSpec job)
  throwIf .mainAgent job (assertMainSessionAgentId deps job)
  let delivery ← orThrow .delivery job (assertDeliverySupport deps job)
  let job := { job with delivery }
  let delivery ← orThrow .failureDestination job (assertFailureDestinationSupport deps job)
  return { job with delivery }

/-- `applyJobPatch`. -/
def applyEntryPatch : Except Thrown CronJobEntry := do
  let name ← orThrow .name job (patchedName patch job)
  let job := assignIdentity patch job name
  let payload ← orThrow .payload job (patchedPayload patch job)
  let job := assignContent deps patch job payload
  throwIf .mainFailureDestination job
    (if unsupportedFailureDestination job then some failureDestinationMessage else none)
  assertSupported deps (assignRest deps patch job)

/-- The anchor and the time of the change that `update` gives. -/
def assignAnchor (now : ℤ) : CronJobEntry :=
  { job with
    schedule := (anchorSchedule job.toCronJob ⟨none, none, patch.schedule, none, none⟩ now).schedule
    updatedAtMs := now }

/-- The job with its next run. -/
def rescheduleEntry (cron : CronDeps) (now : ℤ) : Except Thrown CronJobEntry := do
  let next ← orThrow .schedule job (computeJobNextRunAtMs cron job.toCronJob now)
  return { job with state := { job.state with nextRunAtMs := next } }

/-- What `update` does to its job. -/
def updateEntry (cron : CronDeps) (now : ℤ) : Except Thrown CronJobEntry := do
  let job ← applyEntryPatch deps patch job
  let job := assignAnchor patch job now
  if patch.schedule.isSome || patch.enabled.isSome then
    if job.enabled then rescheduleEntry job cron now
    else return { job with state := { job.state with nextRunAtMs := none, runningAtMs := none } }
  else if job.enabled && job.state.nextRunAtMs.isNone then rescheduleEntry job cron now
  else return job

end Patch

end Foxclaw.Cron
