import Foxclaw.Lib.Json
import Foxclaw.Lib.Text

/-!
# Tool calls and tool results

This module models `extractToolCallsFromAssistant` and `extractToolResultId` of
`agents/tool-call-id.ts`. Messages are JSON values, as a session file holds them.
-/

namespace Foxclaw.Agents

abbrev AgentMessage := Json

/-- The properties of a value; a value that is no object has none. -/
def fieldsOf : Json → Json.Fields
  | .obj fields => fields
  | _ => []

/-- The string a value is, if it is one. -/
def textOf : Option Json → Option String
  | some (.str s) => some s
  | _ => none

variable (msg : AgentMessage)

/-- `role`. -/
def roleOf : Option String := textOf ((fieldsOf msg).lookup "role")

def isAssistant : Bool := roleOf msg = some "assistant"

def isToolResult : Bool := roleOf msg = some "toolResult"

/-- `stopReason` is `error` or `aborted`. -/
def isErrored : Bool :=
  let stopReason := textOf ((fieldsOf msg).lookup "stopReason")
  stopReason = some "error" || stopReason = some "aborted"

def TOOL_CALL_TYPES : List String := ["toolCall", "toolUse", "functionCall"]

structure ToolCallLike where
  id : String
  name : Option String
  deriving DecidableEq

/-- Has the block the type of a tool call? -/
def hasToolCallType (block : Json) : Bool :=
  match textOf ((fieldsOf block).lookup "type") with
  | some type => type ∈ TOOL_CALL_TYPES
  | none => false

/-- The tool call a block is, if it is one with an id. -/
def toolCallOf (block : Json) : Option ToolCallLike :=
  match textOf ((fieldsOf block).lookup "id") with
  | some id =>
    if id ≠ "" ∧ hasToolCallType block = true then
      some ⟨id, textOf ((fieldsOf block).lookup "name")⟩
    else none
  | none => none

def extractToolCallsFromAssistant : List ToolCallLike :=
  match (fieldsOf msg).lookup "content" with
  | some (.arr blocks) => blocks.filterMap toolCallOf
  | _ => []

/-- A string that is there and not empty. -/
def nonEmptyText (value : Option Json) : Option String := (textOf value).filter (· ≠ "")

def extractToolResultId : Option String :=
  (nonEmptyText ((fieldsOf msg).lookup "toolCallId")).or
    (nonEmptyText ((fieldsOf msg).lookup "toolUseId"))

/-- The tool calls that are to be answered: those of an assistant message that is not errored
or aborted. -/
def toolCallsOf : List ToolCallLike :=
  if isAssistant msg && !isErrored msg then extractToolCallsFromAssistant msg else []

/-- Their ids, in call order. -/
def callIds : List String := (toolCallsOf msg).map (·.id)

variable {msg : AgentMessage}

theorem not_isToolResult_of_isAssistant (h : isAssistant msg = true) : isToolResult msg = false := by
  simp only [isAssistant, decide_eq_true_eq] at h
  simp [isToolResult, h]

theorem isAssistant_of_toolCallsOf (h : toolCallsOf msg ≠ []) : isAssistant msg = true := by
  unfold toolCallsOf at h
  split at h
  · rename_i hcond
    exact (Bool.and_eq_true_iff.mp hcond).1
  · exact absurd rfl h

theorem toolCallsOf_of_not_isAssistant (h : isAssistant msg = false) : toolCallsOf msg = [] := by
  unfold toolCallsOf
  rw [h, Bool.false_and]
  rfl

/-- Setting a property. -/
def setField (msg : Json) (key : String) (value : Json) : Json := .obj ((fieldsOf msg).set key value)

theorem lookup_setField (msg : Json) (key : String) (value : Json) (k : String) :
    (fieldsOf (setField msg key value)).lookup k =
      if k = key then some value else (fieldsOf msg).lookup k :=
  Json.Fields.lookup_set _ _ _ _

theorem roleOf_setField {msg : Json} {key : String} (hkey : key ≠ "role") (value : Json) :
    roleOf (setField msg key value) = roleOf msg := by
  rw [roleOf, roleOf, lookup_setField, if_neg hkey.symm]

theorem extractToolResultId_setField {msg : Json} {key : String} (hcall : key ≠ "toolCallId")
    (huse : key ≠ "toolUseId") (value : Json) :
    extractToolResultId (setField msg key value) = extractToolResultId msg := by
  rw [extractToolResultId, extractToolResultId, lookup_setField, lookup_setField,
    if_neg hcall.symm, if_neg huse.symm]

end Foxclaw.Agents
