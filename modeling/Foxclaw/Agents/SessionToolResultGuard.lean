import Foxclaw.Agents.SessionTranscriptRepair
import Foxclaw.Lib.Runs

/-!
# The guard over appended messages

This module models `installSessionToolResultGuard` of `agents/session-tool-result-guard.ts` with
`createPendingToolCallState` of `agents/session-tool-result-state.ts`: the wrapper around
`appendMessage` of a session that keeps tool calls and tool results together.

## The model

No hook is installed. The session keeps the messages it is given in a list. The cut of one
oversized text and its budget (a product of floating point numbers) are parameters. Beside the
state of the guard the system remembers the assistant message that was appended last.
-/

namespace Foxclaw.Agents

open Runs

/-- What the guard is installed with. -/
structure GuardOpts where
  toLowerCase : String → String
  /-- `truncateToolResultText`, to a budget. -/
  truncateToolResultText : String → ℕ → String
  /-- The budget of a block, from the length of its text and of all texts. -/
  blockBudget : ℕ → ℕ → ℕ
  allowSyntheticToolResults : Bool
  allowedToolNames : Option (List String)

/-! ### The size of a tool result -/

def HARD_MAX_TOOL_RESULT_CHARS : ℕ := 400000

/-- The text of a text block. -/
def blockText (block : Json) : Option String :=
  if textOf ((fieldsOf block).lookup "type") = some "text" then
    textOf ((fieldsOf block).lookup "text")
  else none

def getToolResultTextLength (msg : AgentMessage) : ℕ :=
  match isToolResult msg, (fieldsOf msg).lookup "content" with
  | true, some (.arr blocks) => (blocks.map fun block => ((blockText block).map Text.utf16Length).getD 0).sum
  | _, _ => 0

section Guard

variable (opts : GuardOpts)

def truncateToolResultMessage (msg : AgentMessage) (maxChars : ℕ) : AgentMessage :=
  match (fieldsOf msg).lookup "content" with
  | some (.arr content) =>
    let totalTextChars := getToolResultTextLength msg
    if totalTextChars ≤ maxChars then msg
    else
      let newContent := content.map fun block =>
        match blockText block with
        | none => block
        | some text =>
          let budget := opts.blockBudget (Text.utf16Length text) totalTextChars
          setField block "text" (.str (opts.truncateToolResultText text budget))
      setField msg "content" (.arr newContent)
  | _ => msg

def capToolResultSize (msg : AgentMessage) : AgentMessage :=
  if isToolResult msg then truncateToolResultMessage opts msg HARD_MAX_TOOL_RESULT_CHARS else msg

def normalizePersistedToolResultName (message : AgentMessage) (fallbackName : Option String) : AgentMessage :=
  if isToolResult message then (normalizeToolResultName message fallbackName).getD message
  else message

/-! ### The guard -/

/-- The session and what the guard remembers. -/
structure GuardState where
  persisted : List AgentMessage
  /-- `pending`: the names of the tools by the ids of their calls. -/
  pending : JsMap String (Option String)

variable (pending : JsMap String (Option String))

def shouldFlushForSanitizedDrop : Bool := 0 < pending.size

def shouldFlushBeforeNonToolResult (nextRole : Option String) (toolCallCount : ℕ) : Bool :=
  0 < pending.size && (toolCallCount = 0 || nextRole ≠ some "assistant")

def shouldFlushBeforeNewToolCalls (toolCallCount : ℕ) : Bool :=
  0 < pending.size && 0 < toolCallCount

def trackToolCalls (calls : List ToolCallLike) : JsMap String (Option String) :=
  calls.foldl (fun pending call => pending.set call.id call.name) pending

def flushPendingToolResults (now : ℚ) (st : GuardState) : GuardState :=
  if st.pending.size = 0 then st
  else
    { persisted :=
        if opts.allowSyntheticToolResults then
          st.persisted ++ st.pending.entries.map fun entry => makeMissingToolResult now entry.1 entry.2
        else st.persisted
      pending := .empty }

/-- `guardedAppend` of a tool result. -/
def appendToolResult (st : GuardState) (nextMessage : AgentMessage) : GuardState :=
  let id := extractToolResultId nextMessage
  let toolName := id.bind fun id => (st.pending.get? id).join
  let pending :=
    match id with
    | some id => st.pending.delete id
    | none => st.pending
  let normalizedToolResult := normalizePersistedToolResultName nextMessage toolName
  { persisted := st.persisted ++ [capToolResultSize opts normalizedToolResult], pending }

/-- `guardedAppend` of another message. -/
def appendOther (now : ℚ) (st : GuardState) (nextMessage : AgentMessage) : GuardState :=
  let toolCalls := toolCallsOf nextMessage
  let st :=
    if shouldFlushBeforeNonToolResult st.pending (roleOf nextMessage) toolCalls.length then
      flushPendingToolResults opts now st
    else st
  let st :=
    if shouldFlushBeforeNewToolCalls st.pending toolCalls.length then
      flushPendingToolResults opts now st
    else st
  { persisted := st.persisted ++ [nextMessage]
    pending := if toolCalls ≠ [] then trackToolCalls st.pending toolCalls else st.pending }

/-- The message that is persisted for an assistant message, if it is not dropped. -/
def sanitizedAssistant (message : AgentMessage) : Option AgentMessage :=
  (sanitizeToolCallInputs opts.toLowerCase opts.allowedToolNames [message]).head?

def guardedAppend (now : ℚ) (st : GuardState) (message : AgentMessage) : GuardState :=
  if isAssistant message then
    match sanitizedAssistant opts message with
    | none => if shouldFlushForSanitizedDrop st.pending then flushPendingToolResults opts now st else st
    | some nextMessage => appendOther opts now st nextMessage
  else if isToolResult message then appendToolResult opts st message
  else appendOther opts now st message

/-! ### Sessions -/

/-- A call of `appendMessage`. -/
structure Append where
  message : AgentMessage
  /-- `Date.now()`. -/
  now : ℚ

/-- A session with a guard. -/
structure Session where
  guard : GuardState
  /-- The assistant message that was appended last, as it was given. -/
  lastAssistant : Option AgentMessage

def Session.init : Session := ⟨⟨[], .empty⟩, none⟩

/-- One message is appended; null has no role, and asking for it throws. -/
def appendNext (s : Session) (a : Append) : Option Session :=
  match a.message with
  | .null => none
  | message =>
    some
      { guard := guardedAppend opts a.now s.guard message
        lastAssistant := if isAssistant message then some message else s.lastAssistant }

end Guard

end Foxclaw.Agents
