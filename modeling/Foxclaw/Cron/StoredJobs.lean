import Foxclaw.Cron.NextRun
import Foxclaw.Lib.Lines
import Foxclaw.Routing.SessionKey

/-!
# The migration of stored cron jobs

When the store of the cron jobs is loaded, `normalizeStoredCronJobs` of `cron/store-migration.ts`
brings each job into the form the service expects, whatever version wrote it. This module models it,
with `cron/legacy-delivery.ts`, `cron/payload-migration.ts` and `inferLegacyName`.

## The model

A stored job is an object whose properties may hold anything. The properties that the migration reads
are fields here, `none` when the property is missing or `undefined`; `rest` stands for the others.
`ω` is what arrays and objects hold that are only passed on. `to` is called `recipient`.

The job is changed in place, so a section of the function is a function on `Progress`: the job, and
what was said of it so far. `new Date(ms).toISOString()` throws on a time that no date has.

`toLowerCase`, `Number`, `Date.parse` and `toISOString` are parameters (`MigrationDeps`), with what is
known of them.
-/

namespace Foxclaw.Cron.Migration

open Foxclaw.Text Foxclaw.Routing

/-! ### Values -/

/-- What a property holds; an object is an `α`. -/
inductive Value (ω α : Type) where
  | null
  | bool (b : Bool)
  | number (n : JsNumber)
  | text (s : String)
  | array (items : ω)
  | object (o : α)
  deriving DecidableEq

/-- A property whose objects are not looked into. -/
abbrev Field (ω : Type) := Option (Value ω ω)

section Value

variable {ω α : Type}

/-- `typeof value === "string" ? value.trim() : ""`. -/
def trimmedText : Option (Value ω α) → String
  | some (.text s) => trimString s
  | _ => ""

/-- `value === text`, where the text may be `undefined`. -/
def sameText : Option (Value ω α) → Option String → Bool
  | some (.text s), some text => s = text
  | none, none => true
  | _, _ => false

/-- `value === n`. -/
def sameNumber : Option (Value ω α) → ℤ → Bool
  | some (.number (.fin q)), n => q = n
  | _, _ => false

/-- `typeof value === "boolean"`. -/
def isBool : Option (Value ω α) → Bool
  | some (.bool _) => true
  | _ => false

/-- The number, when it is one. -/
def numberOf : Option (Value ω α) → Option JsNumber
  | some (.number n) => some n
  | _ => none

/-- The text, when it is one. -/
def textOf : Option (Value ω α) → Option String
  | some (.text s) => some s
  | _ => none

/-- `!value`. -/
def isFalsy : Option (Value ω α) → Bool
  | none => true
  | some .null => true
  | some (.bool b) => !b
  | some (.number n) => n = .fin 0 || n = .nan
  | some (.text s) => s = ""
  | _ => false

/-- `value && typeof value === "object" && !Array.isArray(value)`. -/
def recordOf : Option (Value ω α) → Option α
  | some (.object o) => some o
  | _ => none

/-- The value, as `computeNextRunAtMs` reads it. -/
def fieldValue : Option (Value ω α) → NextRun.FieldValue
  | some (.number n) => .number n
  | some (.text s) => .text s
  | _ => .other

end Value

/-! ### Stored jobs -/

section Records

variable (ω : Type)

/-- The properties of a schedule. -/
structure StoredSchedule where
  kind : Field ω
  /-- `at`. -/
  atText : Field ω
  atMs : Field ω
  everyMs : Field ω
  anchorMs : Field ω
  expr : Field ω
  cron : Field ω
  staggerMs : Field ω
  rest : ω
  deriving DecidableEq

/-- The properties of a payload that older versions kept in the job itself. -/
structure LegacyFields where
  model : Field ω
  thinking : Field ω
  timeoutSeconds : Field ω
  allowUnsafeExternalContent : Field ω
  message : Field ω
  text : Field ω
  deliver : Field ω
  channel : Field ω
  /-- `to`. -/
  recipient : Field ω
  bestEffortDeliver : Field ω
  provider : Field ω
  deriving DecidableEq

/-- The properties of a payload. -/
structure StoredPayload extends LegacyFields ω where
  kind : Field ω
  rest : ω
  deriving DecidableEq

/-- The legacy properties of a job. -/
structure TopLevelFields extends LegacyFields ω where
  command : Field ω
  timeout : Field ω
  deriving DecidableEq

/-- The properties of a delivery. -/
structure StoredDelivery where
  mode : Field ω
  channel : Field ω
  /-- `to`. -/
  recipient : Field ω
  bestEffort : Field ω
  rest : ω
  deriving DecidableEq

/-- The properties of a job. -/
structure StoredJob where
  id : Field ω
  jobId : Field ω
  state : Field ω
  schedule : Option (Value ω (StoredSchedule ω))
  name : Field ω
  description : Field ω
  sessionKey : Field ω
  enabled : Field ω
  wakeMode : Field ω
  payload : Option (Value ω (StoredPayload ω))
  legacy : TopLevelFields ω
  delivery : Option (Value ω (StoredDelivery ω))
  isolation : Field ω
  sessionTarget : Field ω
  createdAtMs : Field ω
  updatedAtMs : Field ω
  rest : ω
  deriving DecidableEq

end Records

/-- What the migration rests on. -/
structure MigrationDeps extends NextRun.Deps where
  /-- `toLowerCase`. -/
  cases : CaseMap
  /-- ASCII characters at the start of a text are lowered by themselves. -/
  ascii_append : ∀ s t, (∀ c ∈ s.toList, c.toNat < 128) →
    (s.toList.map Char.toLower) <+: (cases.toLowerCase (s ++ t)).toList
  /-- `date.toISOString()`, of a valid date. -/
  toISOString : ℤ → String
  /-- It has no white space, and ends in `Z`. -/
  iso_shape : ∀ ms, ∃ cs, (toISOString ms).toList = cs ++ ['Z'] ∧ ∀ c ∈ cs, isSpace c = false
  /-- `Date.parse` reads it. -/
  dateParse_iso : ∀ ms, (dateParse (toISOString ms)).isSome = true
  numberText : JsNumber → String

variable {ω : Type} (deps : MigrationDeps)

/-- `value.trim().toLowerCase()` of a text, else the empty text. -/
def loweredText {α : Type} (value : Option (Value ω α)) : String :=
  match value with
  | some (.text s) => deps.cases.toLowerCase (trimString s)
  | _ => ""

/-! ### Names -/

/-- The longest start of a text that has no more units than this and cuts no character. -/
def takeUnits : ℕ → List Char → List Char
  | _, [] => []
  | n, c :: cs =>
    let units := if c.toNat < 0x10000 then 1 else 2
    if units ≤ n then c :: takeUnits (n - units) cs else []

def truncateText (input : String) (maxLen : ℕ) : String :=
  if utf16Length input ≤ maxLen then input
  else String.ofList (trimEnd (takeUnits (maxLen - 1) input.toList) ++ ['…'])

/-- What the payload says to the session or the agent. -/
def payloadText (payload : Option (Value ω (StoredPayload ω))) : String :=
  match recordOf payload with
  | some payload =>
    let text := if sameText payload.kind (some "systemEvent") then textOf payload.text else none
    let message := if sameText payload.kind (some "agentTurn") then textOf payload.message else none
    (text.or message).getD ""
  | none => ""

/-- The first line that is not blank, trimmed. -/
def firstLineOf (text : String) : List Char :=
  (((Lines.splitLines '\n' text.toList).map trim).find? (· ≠ [])).getD []

variable (schedule : Option (Value ω (StoredSchedule ω)))

/-- The expression of a schedule of the kind `cron`. -/
def cronExprOf : Option String :=
  match recordOf schedule with
  | some schedule => if sameText schedule.kind (some "cron") then textOf schedule.expr else none
  | none => none

/-- What a schedule that has no such expression is called. -/
def scheduleName : String :=
  match recordOf schedule with
  | some schedule =>
    match (if sameText schedule.kind (some "every") then numberOf schedule.everyMs else none) with
    | some everyMs => "Every: " ++ deps.numberText everyMs ++ "ms"
    | none => if sameText schedule.kind (some "at") then "One-shot" else "Cron job"
  | none => "Cron job"

def inferLegacyName (payload : Option (Value ω (StoredPayload ω))) : String :=
  let firstLine := firstLineOf (payloadText payload)
  if firstLine ≠ [] then truncateText (String.ofList firstLine) 60
  else
    match cronExprOf schedule with
    | some expr => "Cron: " ++ truncateText expr 52
    | none => scheduleName deps schedule

/-! ### Payloads -/

/-- The kind that a lowered text stands for. -/
def canonicalKind (raw : String) : Option String :=
  if raw = "agentturn" then some "agentTurn"
  else if raw = "systemevent" then some "systemEvent" else none

/-- `normalizePayloadKind`: the payload, and whether it changed. -/
def normalizePayloadKind (payload : StoredPayload ω) : StoredPayload ω × Bool :=
  match canonicalKind (loweredText deps payload.kind) with
  | some kind =>
    if sameText payload.kind (some kind) then (payload, false)
    else ({ payload with kind := some (.text kind) }, true)
  | none => (payload, false)

/-- The kind of a payload that has none, by what it has. -/
def inferPayloadKind (payload : StoredPayload ω) : StoredPayload ω × Bool :=
  if isFalsy payload.kind then
    if trimmedText payload.message ≠ "" then ({ payload with kind := some (.text "agentTurn") }, true)
    else if trimmedText payload.text ≠ "" then
      ({ payload with kind := some (.text "systemEvent") }, true)
    else (payload, false)
  else (payload, false)

/-- A payload of this kind that has nothing else. -/
def emptyPayload [EmptyCollection ω] (kind : String) : StoredPayload ω where
  model := none
  thinking := none
  timeoutSeconds := none
  allowUnsafeExternalContent := none
  message := none
  text := none
  deliver := none
  channel := none
  recipient := none
  bestEffortDeliver := none
  provider := none
  kind := some (.text kind)
  rest := ∅

/-- `inferPayloadIfMissing`: the payload that the legacy properties make. -/
def inferPayloadIfMissing [EmptyCollection ω] (raw : TopLevelFields ω) : Option (StoredPayload ω) :=
  let message := trimmedText raw.message
  let text := trimmedText raw.text
  let command := trimmedText raw.command
  if message ≠ "" then some { emptyPayload "agentTurn" with message := some (.text message) }
  else if text ≠ "" then some { emptyPayload "systemEvent" with text := some (.text text) }
  else if command ≠ "" then some { emptyPayload "systemEvent" with text := some (.text command) }
  else none

/-- A legacy property is copied when the payload has none like it: the property, and whether it is
new. -/
def copyField (kept : Bool) (own : Field ω) (copied : Option (Value ω ω)) : Field ω × Bool :=
  if kept then (own, false)
  else
    match copied with
    | some value => (some value, true)
    | none => (own, false)

variable (value : Field ω)

/-- A text that is not blank, trimmed. -/
def copiedText : Option (Value ω ω) :=
  if trimmedText value = "" then none else some (.text (trimmedText value))

/-- A boolean. -/
def copiedBool : Field ω → Option (Value ω ω)
  | some (.bool b) => some (.bool b)
  | _ => none

/-- A finite number, rounded down and not negative. -/
def copiedSeconds : Field ω → Option (Value ω ω)
  | some (.number (.fin q)) => some (.number (.fin (max 0 ⌊q⌋ : ℤ)))
  | _ => none

/-- `copyTopLevelAgentTurnFields`: the payload, and whether it changed. -/
def copyTopLevelAgentTurnFields (raw : LegacyFields ω) (payload : StoredPayload ω) : StoredPayload ω × Bool :=
  let model := copyField (trimmedText payload.model ≠ "") payload.model (copiedText raw.model)
  let thinking :=
    copyField (trimmedText payload.thinking ≠ "") payload.thinking (copiedText raw.thinking)
  let timeoutSeconds := copyField (numberOf payload.timeoutSeconds).isSome payload.timeoutSeconds
    (copiedSeconds raw.timeoutSeconds)
  let allowUnsafeExternalContent := copyField (isBool payload.allowUnsafeExternalContent)
    payload.allowUnsafeExternalContent (copiedBool raw.allowUnsafeExternalContent)
  let deliver := copyField (isBool payload.deliver) payload.deliver (copiedBool raw.deliver)
  let channel := copyField (textOf payload.channel).isSome payload.channel (copiedText raw.channel)
  let recipient :=
    copyField (textOf payload.recipient).isSome payload.recipient (copiedText raw.recipient)
  let bestEffortDeliver := copyField (isBool payload.bestEffortDeliver) payload.bestEffortDeliver
    (copiedBool raw.bestEffortDeliver)
  let provider := copyField (textOf payload.provider).isSome payload.provider (copiedText raw.provider)
  ({ payload with
      model := model.1
      thinking := thinking.1
      timeoutSeconds := timeoutSeconds.1
      allowUnsafeExternalContent := allowUnsafeExternalContent.1
      deliver := deliver.1
      channel := channel.1
      recipient := recipient.1
      bestEffortDeliver := bestEffortDeliver.1
      provider := provider.1 },
    model.2 || thinking.2 || timeoutSeconds.2 || allowUnsafeExternalContent.2 || deliver.2 ||
      channel.2 || recipient.2 || bestEffortDeliver.2 || provider.2)

/-- A job without the legacy properties: `stripLegacyTopLevelFields`. -/
def strippedFields : TopLevelFields ω where
  model := none
  thinking := none
  timeoutSeconds := none
  allowUnsafeExternalContent := none
  message := none
  text := none
  deliver := none
  channel := none
  recipient := none
  bestEffortDeliver := none
  provider := none
  command := none
  timeout := none

/-- `hadLegacyTopLevelPayloadFields`. -/
def hasLegacyTopLevelPayloadFields (raw : TopLevelFields ω) : Bool :=
  raw.model.isSome || raw.thinking.isSome || raw.timeoutSeconds.isSome ||
    raw.allowUnsafeExternalContent.isSome || raw.message.isSome || raw.text.isSome ||
    raw.command.isSome || raw.timeout.isSome

/-- `hadLegacyTopLevelDeliveryFields`. -/
def hasLegacyTopLevelDeliveryFields (raw : TopLevelFields ω) : Bool :=
  raw.deliver.isSome || raw.channel.isSome || raw.recipient.isSome || raw.bestEffortDeliver.isSome ||
    raw.provider.isSome

/-- `migrateLegacyCronPayload`: the payload, and whether it changed. -/
def migrateLegacyCronPayload (payload : StoredPayload ω) : StoredPayload ω × Bool :=
  let nextChannel :=
    if trimmedText payload.channel ≠ "" then loweredText deps payload.channel
    else if trimmedText payload.provider ≠ "" then loweredText deps payload.provider else ""
  let rename := nextChannel ≠ "" && !sameText payload.channel (some nextChannel)
  ({ payload with
      channel := if rename then some (.text nextChannel) else payload.channel
      provider := none },
    rename || payload.provider.isSome)

/-! ### Schedules -/

/-- A field with a whole number: the field, and whether it changed. -/
def assignNumber (n : ℤ) : Field ω × Bool :=
  if sameNumber value n then (value, false) else (some (.number (.fin n)), true)

variable (sched : StoredSchedule ω)

/-- `parsedAtMs`: the instant of a schedule, if it has one. -/
def parsedAtMs : Option JsNumber :=
  match sched.atMs with
  | some (.number n) => some n
  | some (.text s) => (NextRun.parseAbsoluteTimeMs deps.toDeps s).map .fin
  | _ =>
    if trimmedText sched.atText ≠ "" then
      (NextRun.parseAbsoluteTimeMs deps.toDeps (trimmedText sched.atText)).map .fin
    else none

/-- `new Date(ms).toISOString()`. -/
def isoOf : JsNumber → Except String String
  | .fin ms =>
    match NextRun.newDate ms with
    | some date => .ok (deps.toISOString date)
    | none => .error "Invalid time value"
  | _ => .error "Invalid time value"

variable (kind : String)

/-- A schedule with a time has no kind; `kind` is its kind, lowered. -/
def lacksKind (sched : StoredSchedule ω) : Bool :=
  kind = "" && (sched.atText.isSome || sched.atMs.isSome)

/-- The schedule with the kind that its time gives it. -/
def namedSchedule (sched : StoredSchedule ω) : StoredSchedule ω :=
  { sched with kind := if lacksKind kind sched then some (.text "at") else sched.kind }

/-- The part of a schedule that says at what time: the schedule, and whether it changed. -/
def normalizeAt (sched : StoredSchedule ω) : Except String (StoredSchedule ω × Bool) :=
  match parsedAtMs deps sched with
  | some ms => (isoOf deps ms).map fun iso =>
      ({ namedSchedule kind sched with atText := some (.text iso), atMs := none }, true)
  | none => .ok (namedSchedule kind sched, lacksKind kind sched)

/-- The anchor of an interval: the field, or when the job was made or changed. -/
def normalizedAnchor (anchorMs createdAtMs updatedAtMs : Field ω) : Option ℤ :=
  let stamp (value : Field ω) := (numberOf value).bind NextRun.finite
  (((NextRun.coerceFiniteScheduleNumber deps.toDeps (fieldValue anchorMs)).or
    (stamp createdAtMs)).or (stamp updatedAtMs)).map fun q => max 0 ⌊q⌋

/-- The schedule is of this kind, where `kind` is its kind, lowered. -/
def isKind (field : Field ω) (name : String) : Bool :=
  kind = name || sameText field (some name)

/-- The anchor of a schedule: the field, and whether it changed. -/
def anchoredField (isEvery : Bool) (createdAtMs updatedAtMs anchorMs : Field ω) : Field ω × Bool :=
  match (if isEvery then normalizedAnchor deps anchorMs createdAtMs updatedAtMs else none) with
  | some anchor => assignNumber anchorMs anchor
  | none => (anchorMs, false)

variable (createdAtMs updatedAtMs : Field ω)

/-- The part that says how often. -/
def normalizeEvery (sched : StoredSchedule ω) : StoredSchedule ω × Bool :=
  match NextRun.coerceFiniteScheduleNumber deps.toDeps (fieldValue sched.everyMs) with
  | some every =>
    let everyMs := assignNumber sched.everyMs ⌊every⌋
    let anchorMs := anchoredField deps (isKind kind sched.kind "every") createdAtMs updatedAtMs
      sched.anchorMs
    ({ sched with everyMs := everyMs.1, anchorMs := anchorMs.1 }, everyMs.2 || anchorMs.2)
  | none => (sched, false)

/-- The expression, or that of the legacy field. -/
def normalizedExpr : String :=
  if trimmedText sched.expr = "" then trimmedText sched.cron else trimmedText sched.expr

/-- The legacy field stands in for the expression. -/
def exprFromLegacy : Bool :=
  trimmedText sched.expr = "" && trimmedText sched.cron ≠ ""

/-- The expression: the schedule, and whether it changed. -/
def normalizeExpr : StoredSchedule ω × Bool :=
  let rename := exprFromLegacy sched ||
    (textOf sched.expr).isSome && !sameText sched.expr (some (normalizedExpr sched))
  ({ sched with
      expr := if rename then some (.text (normalizedExpr sched)) else sched.expr
      cron := none },
    rename || sched.cron.isSome)

/-- `normalizeCronStaggerMs`. -/
def explicitStaggerMs (raw : Field ω) : Option ℤ :=
  let numeric :=
    match raw with
    | some (.number n) => n
    | some (.text s) => if trimString s = "" then .nan else deps.number s
    | _ => .nan
  (NextRun.finite numeric).map fun q => max 0 ⌊q⌋

/-- The window of a cron expression: the schedule, and whether it changed. -/
def normalizeStagger (kind expr : String) (sched : StoredSchedule ω) : StoredSchedule ω × Bool :=
  if isKind kind sched.kind "cron" && expr ≠ "" then
    match (explicitStaggerMs deps sched.staggerMs).or (resolveDefaultCronStaggerMs expr) with
    | some target =>
      let staggerMs := assignNumber sched.staggerMs target
      ({ sched with staggerMs := staggerMs.1 }, staggerMs.2)
    | none => ({ sched with staggerMs := none }, sched.staggerMs.isSome)
  else (sched, false)

/-! ### Deliveries -/

variable (delivery : StoredDelivery ω)

/-- The mode of a delivery: the delivery, and whether it changed. -/
def normalizeDeliveryMode : StoredDelivery ω × Bool :=
  let announce := { delivery with mode := some (.text "announce") }
  match delivery.mode with
  | none => (announce, true)
  | some .null => (announce, true)
  | some (.text _) =>
    if loweredText deps delivery.mode = "deliver" then (announce, true) else (delivery, false)
  | _ => (delivery, false)

variable (payload : LegacyFields ω)

def hasLegacyDeliveryHints : Bool :=
  isBool payload.deliver || isBool payload.bestEffortDeliver || trimmedText payload.channel ≠ "" ||
    trimmedText payload.provider ≠ "" || trimmedText payload.recipient ≠ ""

/-- The channel of the legacy properties. -/
def legacyChannel : String :=
  if trimmedText payload.channel ≠ "" then loweredText deps payload.channel
  else loweredText deps payload.provider

/-- A text that is not empty. -/
def nonEmptyField (s : String) : Field ω := if s = "" then none else some (.text s)

/-- The `bestEffort` of the legacy properties. -/
def legacyBestEffort : Field ω := copiedBool payload.bestEffortDeliver

/-- `payload.deliver === false`. -/
def refusesDelivery : Bool :=
  match payload.deliver with
  | some (.bool deliver) => !deliver
  | _ => false

def buildDeliveryFromLegacyPayload [EmptyCollection ω] (payload : LegacyFields ω) : StoredDelivery ω where
  mode := some (.text (if refusesDelivery payload then "none" else "announce"))
  channel := nonEmptyField (legacyChannel deps payload)
  recipient := nonEmptyField (trimmedText payload.recipient)
  bestEffort := legacyBestEffort payload
  rest := ∅

/-- The mode of `buildDeliveryPatchFromLegacyPayload`, if it makes a patch. -/
def patchedMode : Field ω :=
  if refusesDelivery payload then some (.text "none")
  else if isBool payload.deliver || legacyChannel deps payload ≠ "" ||
      trimmedText payload.recipient ≠ "" || isBool payload.bestEffortDeliver then
    some (.text "announce")
  else none

/-- `mergeLegacyDeliveryInto`: the properties of the patch replace those of the delivery. -/
def mergeLegacyDeliveryInto : StoredDelivery ω where
  mode := (patchedMode deps payload).or delivery.mode
  channel := (nonEmptyField (legacyChannel deps payload)).or delivery.channel
  recipient := (nonEmptyField (trimmedText payload.recipient)).or delivery.recipient
  bestEffort := (legacyBestEffort payload).or delivery.bestEffort
  rest := delivery.rest

def stripLegacyDeliveryFields (payload : StoredPayload ω) : StoredPayload ω :=
  { payload with
    deliver := none
    channel := none
    provider := none
    recipient := none
    bestEffortDeliver := none }

/-! ### The sections of the migration -/

inductive CronStoreIssueKey where
  | jobId
  | legacyScheduleString
  | legacyScheduleCron
  | legacyPayloadKind
  | legacyPayloadProvider
  | legacyTopLevelPayloadFields
  | legacyTopLevelDeliveryFields
  | legacyDeliveryMode
  deriving DecidableEq

/-- A job that is being migrated. -/
structure Progress (ω : Type) where
  raw : StoredJob ω
  /-- `mutated`, as far as this job goes. -/
  mutated : Bool
  /-- `jobIssues`. -/
  issues : List CronStoreIssueKey
  deriving DecidableEq

/-- The job before the first section. -/
def Progress.start (raw : StoredJob ω) : Progress ω := ⟨raw, false, []⟩

variable (p : Progress ω)

/-- The job was changed to this, if it was. -/
def Progress.update (raw : StoredJob ω) (changed : Bool) : Progress ω :=
  { p with raw, mutated := p.mutated || changed }

/-- `trackIssue`, when there is something to be tracked. -/
def Progress.track (key : CronStoreIssueKey) (found : Bool) : Progress ω :=
  if found && !p.issues.contains key then { p with issues := p.issues ++ [key] } else p

/-- A state is an object. -/
def normalizedState [EmptyCollection ω] (state : Field ω) : Field ω × Bool :=
  match recordOf state with
  | some _ => (state, false)
  | none => (some (.object ∅), true)

/-- The job has a state. -/
def normalizeState [EmptyCollection ω] (p : Progress ω) : Progress ω :=
  let r := normalizedState p.raw.state
  p.update { p.raw with state := r.1 } r.2

/-- The id, which was called `jobId`. -/
def normalizedId (id jobId : Field ω) : Field ω × Bool :=
  let rawId := trimmedText id
  let legacyJobId := trimmedText jobId
  if rawId = "" && legacyJobId ≠ "" then (some (.text legacyJobId), true)
  else if rawId ≠ "" && !sameText id (some rawId) then (some (.text rawId), true)
  else (id, false)

/-- The job has an id. -/
def normalizeId : Progress ω :=
  let r := normalizedId p.raw.id p.raw.jobId
  (p.update { p.raw with id := r.1, jobId := none } (r.2 || p.raw.jobId.isSome)).track .jobId
    p.raw.jobId.isSome

/-- The schedule of an expression alone. -/
def cronSchedule [EmptyCollection ω] (expr : String) : StoredSchedule ω where
  kind := some (.text "cron")
  atText := none
  atMs := none
  everyMs := none
  anchorMs := none
  expr := some (.text expr)
  cron := none
  staggerMs := none
  rest := ∅

/-- A schedule that is a text is an expression. -/
def readSchedule [EmptyCollection ω] (schedule : Option (Value ω (StoredSchedule ω))) :
    Option (Value ω (StoredSchedule ω)) :=
  match schedule with
  | some (.text s) => some (.object (cronSchedule (trimString s)))
  | schedule => schedule

/-- The schedule is no text. -/
def normalizeScheduleText [EmptyCollection ω] (p : Progress ω) : Progress ω :=
  (p.update { p.raw with schedule := readSchedule p.raw.schedule } (textOf p.raw.schedule).isSome).track
    .legacyScheduleString (textOf p.raw.schedule).isSome

/-- The name; one that is only trimmed does not count as changed. -/
def normalizeName : Progress ω :=
  let nameRaw := trimmedText p.raw.name
  if nameRaw = "" then
    p.update
      { p.raw with name := some (.text (inferLegacyName deps p.raw.schedule p.raw.payload)) } true
  else p.update { p.raw with name := some (.text nameRaw) } false

def normalizeOptionalText : Option String :=
  if trimmedText value = "" then none else some (trimmedText value)

/-- A field with this text, or with nothing: the field, and whether it changed. -/
def assignText (s : Option String) : Field ω × Bool :=
  if sameText value s then (value, false) else (s.map .text, true)

/-- An optional text. -/
def normalizedText : Field ω × Bool :=
  assignText value (normalizeOptionalText value)

/-- The description. -/
def normalizeDescription : Progress ω :=
  let r := normalizedText p.raw.description
  p.update { p.raw with description := r.1 } r.2

/-- The key of the session. -/
def normalizeSessionKey : Progress ω :=
  let r := normalizedText p.raw.sessionKey
  p.update { p.raw with sessionKey := r.1 } r.2

/-- A job that does not say so is enabled. -/
def normalizedEnabled (enabled : Field ω) : Field ω × Bool :=
  if isBool enabled then (enabled, false) else (some (.bool true), true)

/-- Whether it may run. -/
def normalizeEnabled : Progress ω :=
  let r := normalizedEnabled p.raw.enabled
  p.update { p.raw with enabled := r.1 } r.2

/-- A wake mode is one of two. -/
def normalizedWakeMode (wakeMode : Field ω) : Field ω × Bool :=
  assignText wakeMode
    (some (if loweredText deps wakeMode = "next-heartbeat" then "next-heartbeat" else "now"))

/-- When the main session takes note of it. -/
def normalizeWakeMode : Progress ω :=
  let r := normalizedWakeMode deps p.raw.wakeMode
  p.update { p.raw with wakeMode := r.1 } r.2

/-- The payload, or the one that the legacy properties make. -/
def inferredPayload [EmptyCollection ω] (legacy : TopLevelFields ω)
    (payload : Option (Value ω (StoredPayload ω))) : Option (Value ω (StoredPayload ω)) × Bool :=
  match recordOf payload, inferPayloadIfMissing legacy with
  | none, some inferred => (some (.object inferred), true)
  | _, _ => (payload, false)

/-- A job without a payload has one in its legacy properties. -/
def inferPayload [EmptyCollection ω] (p : Progress ω) : Progress ω :=
  let r := inferredPayload p.raw.legacy p.raw.payload
  (p.update { p.raw with payload := r.1 } r.2).track .legacyTopLevelPayloadFields r.2

/-- The kind of a payload, and what it takes over: the payload, whether it changed, and whether its
kind did. -/
def normalizedPayload (legacy : TopLevelFields ω) (payload : StoredPayload ω) :
    StoredPayload ω × Bool × Bool :=
  let named := normalizePayloadKind deps payload
  let inferred := inferPayloadKind named.1
  let copied :=
    if sameText inferred.1.kind (some "agentTurn") then
      copyTopLevelAgentTurnFields legacy.toLegacyFields inferred.1
    else (inferred.1, false)
  (copied.1, named.2 || inferred.2 || copied.2, named.2 || inferred.2)

/-- The payload has a kind. -/
def normalizePayload : Progress ω :=
  match recordOf p.raw.payload with
  | some payload =>
    let r := normalizedPayload deps p.raw.legacy payload
    (p.update { p.raw with payload := some (.object r.1) } r.2.1).track .legacyPayloadKind r.2.2
  | none => p

/-- The legacy properties are deleted. -/
def dropLegacyFields : Progress ω :=
  let ofPayload := hasLegacyTopLevelPayloadFields p.raw.legacy
  let ofDelivery := hasLegacyTopLevelDeliveryFields p.raw.legacy
  ((p.update { p.raw with legacy := strippedFields } (ofPayload || ofDelivery)).track
    .legacyTopLevelPayloadFields ofPayload).track .legacyTopLevelDeliveryFields ofDelivery

/-- The provider of the payload is its channel. -/
def migratePayload : Progress ω :=
  match recordOf p.raw.payload with
  | some payload =>
    let r := migrateLegacyCronPayload deps payload
    (p.update { p.raw with payload := some (.object r.1) } r.2).track .legacyPayloadProvider
      (r.2 && trimmedText payload.provider ≠ "")
  | none => p

/-- A schedule: the schedule, whether it changed, and whether it had the legacy expression. It throws
when a time is no date. -/
def normalizedSchedule (sched : StoredSchedule ω) : Except String (StoredSchedule ω × Bool × Bool) :=
  let kind := loweredText deps sched.kind
  (normalizeAt deps kind sched).map fun timed =>
    let repeated := normalizeEvery deps kind createdAtMs updatedAtMs timed.1
    let expressed := normalizeExpr repeated.1
    let staggered := normalizeStagger deps kind (normalizedExpr repeated.1) expressed.1
    (staggered.1, timed.2 || repeated.2 || expressed.2 || staggered.2, repeated.1.cron.isSome)

/-- The schedule. -/
def normalizeSchedule : Except String (Progress ω) :=
  match recordOf p.raw.schedule with
  | some sched => (normalizedSchedule deps p.raw.createdAtMs p.raw.updatedAtMs sched).map fun r =>
      (p.update { p.raw with schedule := some (.object r.1) } r.2.1).track .legacyScheduleCron r.2.2
  | none => .ok p

/-- The mode of the delivery. -/
def normalizeDelivery : Progress ω :=
  match recordOf p.raw.delivery with
  | some delivery =>
    let r := normalizeDeliveryMode deps delivery
    (p.update { p.raw with delivery := some (.object r.1) } r.2).track .legacyDeliveryMode
      (r.2 && (textOf delivery.mode).isSome)
  | none => p

/-- `isolation` was an object. -/
def normalizedIsolation (isolation : Field ω) : Field ω × Bool :=
  if (recordOf isolation).isSome then (none, true) else (isolation, false)

/-- The job has no `isolation`. -/
def dropIsolation : Progress ω :=
  let r := normalizedIsolation p.raw.isolation
  p.update { p.raw with isolation := r.1 } r.2

/-- The kind of the payload. -/
def payloadKindOf (payload : Option (Value ω (StoredPayload ω))) : String :=
  ((recordOf payload).bind fun payload => textOf payload.kind).getD ""

variable (payloadKind : String) (sessionTarget : Field ω)

/-- The session a job is to run in, if that can be told. -/
def sessionTargetOf : Option String :=
  let lowered := loweredText deps sessionTarget
  if lowered = "main" || lowered = "isolated" then some lowered
  else if "session:".toList.isPrefixOf lowered.toList then
    let customSessionId :=
      trimString (String.ofList ((trimmedText sessionTarget).toList.drop 8))
    if customSessionId = "" then none else some ("session:" ++ customSessionId)
  else if lowered = "current" then some "isolated"
  else if payloadKind = "agentTurn" then some "isolated"
  else some "main"

/-- The field with that session. -/
def normalizedSessionTarget : Field ω × Bool :=
  match sessionTargetOf deps payloadKind sessionTarget with
  | some target => assignText sessionTarget (some target)
  | none => (sessionTarget, false)

/-- The job has a session. -/
def normalizeSessionTarget : Progress ω :=
  let r := normalizedSessionTarget deps (payloadKindOf p.raw.payload) p.raw.sessionTarget
  p.update { p.raw with sessionTarget := r.1 } r.2

/-- `isIsolatedAgentTurn`, of a payload that is a turn of an agent. -/
def isIsolatedAgentTurn : Bool :=
  let sessionTarget := loweredText deps sessionTarget
  payloadKind = "agentTurn" &&
    (sessionTarget = "isolated" || sessionTarget = "current" ||
      "session:".toList.isPrefixOf sessionTarget.toList || sessionTarget = "")

/-- The delivery that an isolated turn of an agent has when none is stored. -/
def announceDelivery [EmptyCollection ω] : StoredDelivery ω :=
  ⟨some (.text "announce"), none, none, none, ∅⟩

/-- The delivery with the legacy properties of a payload. -/
def deliveryWithLegacy [EmptyCollection ω] (payload : LegacyFields ω)
    (delivery : Option (StoredDelivery ω)) : StoredDelivery ω :=
  match delivery with
  | some delivery => mergeLegacyDeliveryInto deps delivery payload
  | none => buildDeliveryFromLegacyPayload deps payload

/-- The payload, when it has something to say of the delivery. -/
def hintingPayload (payload : Option (Value ω (StoredPayload ω))) : Option (StoredPayload ω) :=
  (recordOf payload).filter fun payload => hasLegacyDeliveryHints payload.toLegacyFields

/-- The legacy properties of the payload move to the delivery: `normalizeLegacyDeliveryInput`, and
what is done with the result. -/
def moveLegacyDelivery [EmptyCollection ω] (p : Progress ω) : Progress ω :=
  match hintingPayload p.raw.payload with
  | some payload =>
    p.update
      { p.raw with
        payload := some (.object (stripLegacyDeliveryFields payload))
        delivery := some (.object (deliveryWithLegacy deps payload.toLegacyFields
          (recordOf p.raw.delivery))) } true
  | none =>
    if isIsolatedAgentTurn deps (payloadKindOf p.raw.payload) p.raw.sessionTarget &&
        (recordOf p.raw.delivery).isNone then
      p.update { p.raw with delivery := some (.object announceDelivery) } true
    else p

/-! ### The migration -/

variable [EmptyCollection ω]

/-- The sections before the schedule. -/
def migrateFields (p : Progress ω) : Progress ω :=
  migratePayload deps (dropLegacyFields (normalizePayload deps (inferPayload (normalizeWakeMode deps
    (normalizeEnabled (normalizeSessionKey (normalizeDescription (normalizeName deps
      (normalizeScheduleText (normalizeId (normalizeState p)))))))))))

/-- The sections after it. -/
def migrateDelivery (p : Progress ω) : Progress ω :=
  moveLegacyDelivery deps (normalizeSessionTarget deps (dropIsolation (normalizeDelivery deps p)))

/-- What `normalizeStoredCronJobs` does to a job. -/
def normalizeStoredCronJob (raw : StoredJob ω) : Except String (Progress ω) :=
  (normalizeSchedule deps (migrateFields deps (.start raw))).map (migrateDelivery deps)

structure NormalizeCronStoreJobsResult (ω : Type) where
  issues : CronStoreIssueKey → ℕ
  jobs : List (StoredJob ω)
  /-- Whether the store is to be written. -/
  mutated : Bool

def normalizeStoredCronJobs (jobs : List (StoredJob ω)) : Except String (NormalizeCronStoreJobsResult ω) :=
  (jobs.mapM (normalizeStoredCronJob deps)).map fun done =>
    { issues := fun key => (done.filter fun p => p.issues.contains key).length
      jobs := done.map (·.raw)
      mutated := done.any (·.mutated) }

end Foxclaw.Cron.Migration
