import Foxclaw.Agents.ToolCallId
import Foxclaw.Lib.JsMap

/-!
# Repair of session transcripts

This module models `repairToolCallInputs` and `repairToolUseResultPairing` of
`agents/session-transcript-repair.ts`.

## The model

Where the source compares two objects by identity to see whether a function made a new one,
the function here returns an option: the new value, or none for the old one. The two nested
loops of `repairToolUseResultPairing` share their index; here the outer loop skips the messages
that the inner one has taken (`repairLoop`). `toLowerCase` is a parameter.
-/

namespace Foxclaw.Agents

/-! ### Names of tool results -/

def trimNonEmptyString (value : Option String) : Option String :=
  value.bind fun s =>
    let trimmed := Text.trimString s
    if trimmed ≠ "" then some trimmed else none

/-- `normalizeToolResultName`: the new message, if it makes one. -/
def normalizeToolResultName (message : AgentMessage) (fallbackName : Option String) : Option AgentMessage :=
  let rawToolName := textOf ((fieldsOf message).lookup "toolName")
  match trimNonEmptyString rawToolName with
  | some name => if rawToolName = some name then none else some (setField message "toolName" (.str name))
  | none =>
    match trimNonEmptyString fallbackName with
    | some name => some (setField message "toolName" (.str name))
    | none => if rawToolName.isSome then some (setField message "toolName" (.str "unknown")) else none

/-- The text of a synthetic result. -/
def missingToolResultText : String :=
  "[foxclaw] missing tool result in session history; inserted synthetic error result for transcript repair."

def makeMissingToolResult (now : ℚ) (toolCallId : String) (toolName : Option String) : AgentMessage :=
  .obj [("role", .str "toolResult"), ("toolCallId", .str toolCallId),
    ("toolName", .str (toolName.getD "unknown")),
    ("content", .arr [.obj [("type", .str "text"), ("text", .str missingToolResultText)]]),
    ("isError", .bool true), ("timestamp", .num now)]

/-! ### Inputs of tool calls -/

section Inputs

variable (toLowerCase : String → String)

/-- A value that is there and not null. -/
def isGiven : Option Json → Bool
  | none => false
  | some .null => false
  | some _ => true

variable (block : Json)

def hasToolCallInput : Bool :=
  isGiven ((fieldsOf block).lookup "input") || isGiven ((fieldsOf block).lookup "arguments")

def hasToolCallId : Bool :=
  (trimNonEmptyString (textOf ((fieldsOf block).lookup "id"))).isSome

variable (allowedToolNames : Option (List String))

def normalizeAllowedToolNames : Option (List String) :=
  allowedToolNames.bind fun names =>
    let normalized := names.filterMap fun name => (trimNonEmptyString (some name)).map toLowerCase
    if normalized ≠ [] then some normalized else none

/-- A character of `TOOL_CALL_NAME_RE`. -/
def isToolCallNameChar (c : Char) : Bool := c.isAlphanum || c = '_' || c = '-'

def hasToolCallName : Bool :=
  match trimNonEmptyString (textOf ((fieldsOf block).lookup "name")) with
  | none => false
  | some name =>
    if 64 < name.length ∨ name.toList.all isToolCallNameChar = false then false
    else
      match allowedToolNames with
      | none => true
      | some names => toLowerCase name ∈ names

/-- `redactSessionsSpawnAttachmentsArgs`: the new value, if it makes one. -/
def redactSessionsSpawnAttachmentsArgs (value : Option Json) : Option Json :=
  match value with
  | some (.obj fields) =>
    match fields.lookup "attachments" with
    | some (.arr items) =>
      let next := items.map fun
        | .obj a =>
          if (a.lookup "content").isSome then
            .obj (Json.Fields.erase a "content" ++ [("content", .str "__FOXCLAW_REDACTED__")])
          else .obj a
        | item => item
      some (.obj (Json.Fields.set fields "attachments" (.arr next)))
    | _ => none
  | _ => none

/-- The name is not trimmed: the block with the trimmed one. -/
def renameToolCallBlock : Option Json :=
  let rawName := textOf ((fieldsOf block).lookup "name")
  match trimNonEmptyString rawName with
  | some name => if rawName = some name then none else some (setField block "name" (.str name))
  | none => none

/-- `if (next !== block.key || Object.hasOwn(block, key)) next.key = …`. -/
def withRedacted (next block : Json) (key : String) : Json :=
  match redactSessionsSpawnAttachmentsArgs ((fieldsOf block).lookup key) with
  | some value => setField next key value
  | none => next

/-- `sanitizeToolCallBlock` of a call of `sessions_spawn`: the new block, if it makes one. -/
def sanitizeSessionsSpawnBlock : Option Json :=
  let fields := fieldsOf block
  if (redactSessionsSpawnAttachmentsArgs (fields.lookup "arguments")).isNone &&
      (redactSessionsSpawnAttachmentsArgs (fields.lookup "input")).isNone &&
      (renameToolCallBlock block).isNone then none
  else
    let next := (renameToolCallBlock block).getD block
    some (withRedacted (withRedacted next block "arguments") block "input")

/-- What becomes of a block. -/
inductive BlockRepair where
  | drop
  | keep
  | replace (block : Json)

/-- The body of the inner loop of `repairToolCallInputs`. -/
def repairBlock (block : Json) : BlockRepair :=
  if hasToolCallType block then
    if !hasToolCallInput block || !hasToolCallId block ||
        !hasToolCallName toLowerCase block allowedToolNames then .drop
    else
      let name := trimNonEmptyString (textOf ((fieldsOf block).lookup "name"))
      let sanitized :=
        if name.map toLowerCase = some "sessions_spawn" then sanitizeSessionsSpawnBlock block
        else renameToolCallBlock block
      match sanitized with
      | some block => .replace block
      | none => .keep
  else .keep

/-- The block that is left. -/
def BlockRepair.result : BlockRepair → Option Json
  | drop => none
  | keep => some block
  | replace block => some block

/-- Is the block touched? -/
def BlockRepair.isChange : BlockRepair → Bool
  | keep => false
  | _ => true

/-- The body of the outer loop of `repairToolCallInputs`: the message that is left, if any. -/
def repairToolCallInputsOf (msg : AgentMessage) : Option AgentMessage :=
  match isAssistant msg, (fieldsOf msg).lookup "content" with
  | true, some (.arr blocks) =>
    let repairs := blocks.map fun block => (block, repairBlock toLowerCase allowedToolNames block)
    let nextContent := repairs.filterMap fun r => r.2.result r.1
    if nextContent = [] ∧ repairs.any (fun r => (r.2.result r.1).isNone) = true then none
    else if repairs.any fun r => r.2.isChange then some (setField msg "content" (.arr nextContent))
    else some msg
  | _, _ => some msg

def sanitizeToolCallInputs (messages : List AgentMessage) : List AgentMessage :=
  messages.filterMap
    (repairToolCallInputsOf toLowerCase (normalizeAllowedToolNames toLowerCase allowedToolNames))

end Inputs

/-! ### Pairing of tool calls and results -/

/-- The variables of `repairToolUseResultPairing`. -/
structure Repair where
  out : List AgentMessage
  added : List AgentMessage
  seenToolResultIds : List String
  droppedDuplicateCount : ℕ
  droppedOrphanCount : ℕ
  moved : Bool
  changed : Bool

/-- Their values before the loop. -/
def Repair.init : Repair := ⟨[], [], [], 0, 0, false, false⟩

def pushToolResult (st : Repair) (msg : AgentMessage) : Repair :=
  match extractToolResultId msg with
  | some id =>
    if id ∈ st.seenToolResultIds then
      { st with droppedDuplicateCount := st.droppedDuplicateCount + 1, changed := true }
    else
      { st with seenToolResultIds := st.seenToolResultIds ++ [id], out := st.out ++ [msg] }
  | none => { st with out := st.out ++ [msg] }

/-- What the inner loop collects. -/
structure Span where
  spanResultsById : JsMap String AgentMessage
  remainder : List AgentMessage
  droppedDuplicates : ℕ
  droppedOrphans : ℕ
  /-- Whether it sets `changed`. -/
  changed : Bool

/-- What it has before. -/
def Span.init : Span := ⟨.empty, [], 0, 0, false⟩

def toolCallNamesById (toolCalls : List ToolCallLike) : JsMap String (Option String) :=
  toolCalls.foldl (fun names call => names.set call.id call.name) .empty

/-- The body of the inner loop. -/
def scanSpan (toolCalls : List ToolCallLike) (seenToolResultIds : List String) (span : Span)
    (next : AgentMessage) : Span :=
  if isToolResult next then
    match extractToolResultId next with
    | some id =>
      if id ∈ toolCalls.map (·.id) then
        if id ∈ seenToolResultIds then
          { span with droppedDuplicates := span.droppedDuplicates + 1, changed := true }
        else
          let name := ((toolCallNamesById toolCalls).get? id).join
          let normalized := normalizeToolResultName next name
          { span with
            changed := span.changed || normalized.isSome
            spanResultsById :=
              if span.spanResultsById.has id then span.spanResultsById
              else span.spanResultsById.set id (normalized.getD next) }
      else { span with droppedOrphans := span.droppedOrphans + 1, changed := true }
    | none => { span with droppedOrphans := span.droppedOrphans + 1, changed := true }
  else { span with remainder := span.remainder ++ [next] }

/-- The body of the loop over the tool calls. -/
def pushCallResult (now : ℚ) (spanResultsById : JsMap String AgentMessage) (st : Repair)
    (call : ToolCallLike) : Repair :=
  match spanResultsById.get? call.id with
  | some existing => pushToolResult st existing
  | none =>
    let missing := makeMissingToolResult now call.id call.name
    pushToolResult { st with added := st.added ++ [missing], changed := true } missing

/-- What is done for an assistant message with tool calls and the messages up to the next
assistant message. -/
def repairTurn (now : ℚ) (st : Repair) (msg : AgentMessage) (messages : List AgentMessage) : Repair :=
  let toolCalls := toolCallsOf msg
  let span := messages.foldl (scanSpan toolCalls st.seenToolResultIds) .init
  let displaced : Bool := 0 < span.spanResultsById.size && span.remainder ≠ []
  let st :=
    { st with
      out := st.out ++ [msg]
      droppedDuplicateCount := st.droppedDuplicateCount + span.droppedDuplicates
      droppedOrphanCount := st.droppedOrphanCount + span.droppedOrphans
      moved := st.moved || displaced
      changed := st.changed || span.changed || displaced }
  let st := toolCalls.foldl (pushCallResult now span.spanResultsById) st
  { st with out := st.out ++ span.remainder }

/-- The messages up to the next assistant message. -/
def spanOf (messages : List AgentMessage) : List AgentMessage :=
  messages.takeWhile fun msg => !isAssistant msg

/-- A message that is no assistant message with tool calls to be answered. -/
def repairLoose (st : Repair) (msg : AgentMessage) : Repair :=
  if isToolResult msg then
    { st with droppedOrphanCount := st.droppedOrphanCount + 1, changed := true }
  else { st with out := st.out ++ [msg] }

/-- The outer loop; the number is how many messages the inner loop has taken. -/
def repairLoop (now : ℚ) : ℕ → List AgentMessage → Repair → Repair
  | _, [], st => st
  | skip + 1, _ :: rest, st => repairLoop now skip rest st
  | 0, msg :: rest, st =>
    if toolCallsOf msg = [] then repairLoop now 0 rest (repairLoose st msg)
    else repairLoop now (spanOf rest).length rest (repairTurn now st msg (spanOf rest))

structure ToolUseRepairReport where
  messages : List AgentMessage
  added : List AgentMessage
  droppedDuplicateCount : ℕ
  droppedOrphanCount : ℕ
  moved : Bool

def repairToolUseResultPairing (now : ℚ) (messages : List AgentMessage) : ToolUseRepairReport :=
  let st := repairLoop now 0 messages .init
  let changedOrMoved := st.changed || st.moved
  { messages := if changedOrMoved then st.out else messages
    added := st.added
    droppedDuplicateCount := st.droppedDuplicateCount
    droppedOrphanCount := st.droppedOrphanCount
    moved := changedOrMoved }

end Foxclaw.Agents
