import Foxclaw.Lib.JsMap
import Foxclaw.Lib.Runs
import Foxclaw.Routing.SessionKey
import Mathlib.Data.Rat.Floor

/-!
# The exec approvals file

This module models the file of `infra/exec-approvals.ts` (load, normalize, ensure, resolve, and the two
functions that write to it as commands are approved and run), the part of `resolveExecHostApprovalContext`
that reads it, and what `processGatewayAllowlist` does with it.

## The model

The file on disk is there with what it says, or not (absent, not readable as JSON, or of another version).
A flow keeps the file it loaded, and writes the whole of it. Which entries match the command, which
patterns "allow always" stands for, and what is decided are given with the steps of a flow; between two
steps anything else may happen. `randomUUID()`, `generateToken()` and the clock are given as well.

Beside the file stands the policy that the edits and the grants add up to (`Policy`): an edit sets it, and
a grant adds a pattern to an agent's list.
-/

namespace Foxclaw.Infra.ExecApprovals

open Text
open Routing (CaseMap DEFAULT_AGENT_ID)

/-! ### Records -/

inductive ExecSecurity where
  | deny
  | allowlist
  | full
  deriving DecidableEq

inductive ExecAsk where
  | off
  | onMiss
  | always
  deriving DecidableEq

structure ExecApprovalsDefaults where
  security : Option ExecSecurity := none
  ask : Option ExecAsk := none
  askFallback : Option ExecSecurity := none
  autoAllowSkills : Option Bool := none
  deriving DecidableEq

structure ExecAllowlistEntry where
  id : Option String := none
  pattern : String
  lastUsedAt : Option ℚ := none
  lastUsedCommand : Option String := none
  lastResolvedPath : Option String := none
  deriving DecidableEq

structure ExecApprovalsAgent extends ExecApprovalsDefaults where
  allowlist : Option (List ExecAllowlistEntry) := none
  deriving DecidableEq

/-- `socket`. -/
structure ExecApprovalsSocket where
  path : Option String := none
  token : Option String := none
  deriving DecidableEq

/-- `ExecApprovalsFile`, of version 1. -/
structure ExecApprovalsFile where
  socket : Option ExecApprovalsSocket := none
  defaults : Option ExecApprovalsDefaults := none
  agents : Option (JsMap String ExecApprovalsAgent) := none
  deriving DecidableEq

/-- The `agents` of a file, none when there are none. -/
def ExecApprovalsFile.agentMap (file : ExecApprovalsFile) : JsMap String ExecApprovalsAgent :=
  file.agents.getD .empty

/-! ### Normalization -/

section Normalize

variable (cases : CaseMap) (ids : String → ℕ → String)

def normalizeAllowlistPattern (value : String) : Option String :=
  let trimmed := trimString value
  if trimmed = "" then none else some (cases.toLowerCase trimmed)

/-- The loop of `pushEntry` in `mergeLegacyAgent`. -/
def pushEntries (seen : List String) : List ExecAllowlistEntry → List ExecAllowlistEntry
  | [] => []
  | entry :: rest =>
    match normalizeAllowlistPattern cases entry.pattern with
    | none => pushEntries seen rest
    | some key => if key ∈ seen then pushEntries seen rest else entry :: pushEntries (key :: seen) rest

def mergeLegacyAgent (current legacy : ExecApprovalsAgent) : ExecApprovalsAgent :=
  let allowlist := pushEntries cases [] (current.allowlist.getD [] ++ legacy.allowlist.getD [])
  { security := current.security.or legacy.security
    ask := current.ask.or legacy.ask
    askFallback := current.askFallback.or legacy.askFallback
    autoAllowSkills := current.autoAllowSkills.or legacy.autoAllowSkills
    allowlist := if allowlist = [] then none else some allowlist }

/-- Whether a pattern is not blank. -/
def isGiven (pattern : String) : Bool := trimString pattern ≠ ""

def coerceAllowlistEntries : Option (List ExecAllowlistEntry) → Option (List ExecAllowlistEntry)
  | none => none
  | some allowlist =>
    let result := allowlist.filter fun entry => isGiven entry.pattern
    if result = allowlist then some allowlist else if result = [] then none else some result

/-- An entry, with an id. -/
def ensureId (id : String) (entry : ExecAllowlistEntry) : ExecAllowlistEntry :=
  if entry.id = none ∨ entry.id = some "" then { entry with id := some id } else entry

/-- `ensureAllowlistIds`; the fresh ids are by agent and place. -/
def ensureAllowlistIds (key : String) (allowlist : Option (List ExecAllowlistEntry)) :
    Option (List ExecAllowlistEntry) :=
  allowlist.map (List.mapIdx fun i entry => ensureId (ids key i) entry)

/-- The agents, with the legacy agent `default` merged into the main one. -/
def mergeDefaultAgent (agents : JsMap String ExecApprovalsAgent) : JsMap String ExecApprovalsAgent :=
  match agents.get? "default" with
  | none => agents
  | some legacyDefault =>
    let main :=
      match agents.get? DEFAULT_AGENT_ID with
      | some main => mergeLegacyAgent cases main legacyDefault
      | none => legacyDefault
    (agents.set DEFAULT_AGENT_ID main).delete "default"

/-- A trimmed text, none when it is blank. -/
def trimmedText (value : Option String) : Option String :=
  value.bind fun value => let trimmed := trimString value; if trimmed = "" then none else some trimmed

def normalizeExecApprovals (file : ExecApprovalsFile) : ExecApprovalsFile where
  socket := some
    { path := trimmedText (file.socket.bind (·.path)), token := trimmedText (file.socket.bind (·.token)) }
  defaults := some (file.defaults.getD {})
  agents := some ((mergeDefaultAgent cases file.agentMap).mapEntries fun key agent =>
    { agent with allowlist := ensureAllowlistIds ids key (coerceAllowlistEntries agent.allowlist) })

end Normalize

/-! ### Loading and saving -/

/-- What a step draws and reads. -/
structure IOValues where
  /-- `randomUUID()`, by agent and place. -/
  ids : String → ℕ → String
  /-- `generateToken()`. -/
  token : String
  /-- `Date.now()`. -/
  now : ℚ

variable (cases : CaseMap) (socketPath : String)

def loadExecApprovals (io : IOValues) (disk : Option ExecApprovalsFile) : ExecApprovalsFile :=
  normalizeExecApprovals cases io.ids (disk.getD { agents := some .empty })

/-- `ensureExecApprovals`: what is saved and returned. -/
def ensureExecApprovals (io : IOValues) (disk : Option ExecApprovalsFile) : ExecApprovalsFile :=
  let next := normalizeExecApprovals cases io.ids (loadExecApprovals cases io disk)
  { next with
    socket := some
      { path := some ((trimmedText (next.socket.bind (·.path))).getD socketPath)
        token := some ((trimmedText (next.socket.bind (·.token))).getD io.token) } }

/-- `normalizeSecurity`, `normalizeAsk`, of the values the type allows. -/
def normalizeSetting {α : Type} (value : Option α) (fallback : α) : α := value.getD fallback

/-- `ExecApprovalsDefaultOverrides`, of what the flows set. -/
structure Overrides where
  security : ExecSecurity
  ask : ExecAsk

/-- `ExecApprovalsResolved`, of what the flows read. -/
structure ExecApprovalsResolved where
  /-- `agent.security`. -/
  security : ExecSecurity
  /-- `agent.ask`. -/
  ask : ExecAsk
  allowlist : List ExecAllowlistEntry
  file : ExecApprovalsFile

def resolveExecApprovalsFromFile (io : IOValues) (file : ExecApprovalsFile) (agentId : Option String)
    (overrides : Overrides) : ExecApprovalsResolved :=
  let file := normalizeExecApprovals cases io.ids file
  let defaults := file.defaults.getD {}
  let agent := (file.agentMap.get? (agentId.getD DEFAULT_AGENT_ID)).getD {}
  let wildcard := (file.agentMap.get? "*").getD {}
  { security := normalizeSetting (agent.security.or wildcard.security)
      (normalizeSetting defaults.security overrides.security)
    ask := normalizeSetting (agent.ask.or wildcard.ask) (normalizeSetting defaults.ask overrides.ask)
    allowlist := wildcard.allowlist.getD [] ++ agent.allowlist.getD []
    file }

/-! ### Writing -/

/-- `recordAllowlistUse`: the flow's file, which is saved. -/
def recordAllowlistUse (io : IOValues) (approvals : ExecApprovalsFile) (agentId : Option String)
    (pattern command : String) (resolvedPath : Option String) : ExecApprovalsFile :=
  let target := agentId.getD DEFAULT_AGENT_ID
  let agents := approvals.agentMap
  let existing := (agents.get? target).getD {}
  let nextAllowlist := (existing.allowlist.getD []).mapIdx fun i item =>
    if item.pattern = pattern then
      { item with
        id := some (item.id.getD (io.ids target i))
        lastUsedAt := some io.now
        lastUsedCommand := some command
        lastResolvedPath := resolvedPath }
    else item
  { approvals with agents := some (agents.set target { existing with allowlist := some nextAllowlist }) }

/-- `addAllowlistEntry`: the flow's file, which is saved; `none` when there is nothing to add. -/
def addAllowlistEntry (io : IOValues) (approvals : ExecApprovalsFile) (agentId : Option String)
    (pattern : String) : Option ExecApprovalsFile :=
  let target := agentId.getD DEFAULT_AGENT_ID
  let agents := approvals.agentMap
  let existing := (agents.get? target).getD {}
  let allowlist := existing.allowlist.getD []
  let trimmed := trimString pattern
  if trimmed = "" then none
  else if allowlist.any (·.pattern = trimmed) then none
  else
    let entry :=
      { id := some (io.ids target allowlist.length), pattern := trimmed, lastUsedAt := some io.now }
    some { approvals with
      agents := some (agents.set target { existing with allowlist := some (allowlist ++ [entry]) }) }

/-! ### Flows -/

def minSecurity (a b : ExecSecurity) : ExecSecurity :=
  let order : ExecSecurity → ℕ
    | .deny => 0
    | .allowlist => 1
    | .full => 2
  if order a ≤ order b then a else b

/-- What a flow still has to write. -/
inductive Write where
  /-- `addAllowlistEntry`. -/
  | add (pattern : String)
  /-- `recordAllowlistUse`. -/
  | use (pattern command : String) (resolvedPath : Option String)

/-- A flow that has resolved the approvals. -/
structure Flow where
  agentId : Option String
  /-- `approvals.file`. -/
  file : ExecApprovalsFile
  hostSecurity : ExecSecurity
  /-- The patterns of the entries that match the command. -/
  allowlistMatches : List String
  /-- What it has to write, once it is decided. -/
  todo : Option (List Write) := none

/-- The agent a flow writes to. -/
def Flow.target (flow : Flow) : String := flow.agentId.getD DEFAULT_AGENT_ID

/-- The patterns without repetition, as `recordMatchedAllowlistUse` goes through them. -/
def distinctMatches (seen : List String) : List String → List String
  | [] => []
  | pattern :: rest =>
    if pattern ∈ seen then distinctMatches seen rest else pattern :: distinctMatches (pattern :: seen) rest

/-- What is decided about a command. -/
inductive Decision where
  | deny
  /-- It is run: nobody had to be asked, or it was allowed once, or the wait timed out and the fallback
  allows it. -/
  | run
  /-- `allow-always`, with the patterns this stands for. -/
  | allowAlways (patterns : List String)

/-- What a decided flow writes. -/
def Flow.writes (flow : Flow) (decision : Decision) (command : String) (resolvedPath : Option String) :
    List Write :=
  let uses := (distinctMatches [] flow.allowlistMatches).map fun pattern => Write.use pattern command resolvedPath
  match decision with
  | .deny => []
  | .run => uses
  | .allowAlways patterns =>
    (if flow.hostSecurity = .allowlist then (patterns.filter (· ≠ "")).map .add else []) ++ uses

/-! ### The system -/

/-- What the file is for: the settings, and the patterns of each agent. -/
structure Policy where
  defaults : ExecApprovalsDefaults
  agents : String → ExecApprovalsDefaults
  /-- The patterns that an agent's allowlist has. -/
  patterns : String → Set String

/-- The policy with one more pattern. -/
def Policy.grant (p : Policy) (agent pattern : String) : Policy :=
  { p with patterns := Function.update p.patterns agent (insert pattern (p.patterns agent)) }

/-- An agent's patterns. -/
def ExecApprovalsFile.patternsOf (file : ExecApprovalsFile) (agent : String) : List String :=
  (((file.agentMap.get? agent).getD {}).allowlist.getD []).map (·.pattern)

/-- The policy a file states. -/
def policyOf (file : ExecApprovalsFile) : Policy where
  defaults := file.defaults.getD {}
  agents agent := ((file.agentMap.get? agent).getD {}).toExecApprovalsDefaults
  patterns agent := { pattern | pattern ∈ file.patternsOf agent }

/-- The file, the flows, and the policy that was asked for. -/
structure State where
  disk : Option ExecApprovalsFile
  flows : JsMap ℕ Flow
  /-- The policy that the edits and the grants add up to. -/
  asked : Policy

/-- One step. -/
inductive Action where
  /-- A flow resolves the approvals; some of the entries match its command. -/
  | resolve (id : ℕ) (agentId : Option String) (overrides : Overrides) (isMatch : String → Bool)
    (io : IOValues)
  /-- It is decided about a flow's command. -/
  | decide (id : ℕ) (decision : Decision) (command : String) (resolvedPath : Option String)
  | write (id : ℕ) (io : IOValues)
  /-- Other code saves an edited file. -/
  | edit (file : ExecApprovalsFile)

/-- A file is read with no values of its own to draw. -/
def IOValues.reading : IOValues := ⟨fun _ _ => "", "", 0⟩

/-- The policy of the file on disk. -/
def State.policy (s : State) : Policy := policyOf (loadExecApprovals cases .reading s.disk)

def next (s : State) : Action → Option State
  | .resolve id agentId overrides isMatch io =>
    if s.flows.has id then none
    else
      let file := ensureExecApprovals cases socketPath io s.disk
      let approvals := resolveExecApprovalsFromFile cases io file agentId overrides
      let hostSecurity := minSecurity overrides.security approvals.security
      let s := { s with disk := some file }
      -- a flow that is denied throws
      if hostSecurity = .deny then some s
      else
        some { s with
          flows := s.flows.set id
            { agentId, file := approvals.file, hostSecurity
              allowlistMatches := (approvals.allowlist.map (·.pattern)).filter isMatch } }
  | .decide id decision command resolvedPath =>
    match s.flows.get? id with
    | none => none
    | some flow =>
      match flow.todo with
      | some _ => none
      | none =>
        some { s with
          flows := s.flows.set id { flow with todo := some (flow.writes decision command resolvedPath) } }
  | .write id io =>
    match s.flows.get? id with
    | none => none
    | some flow =>
      match flow.todo with
      | none | some [] => none
      | some (.add pattern :: todo) =>
        let trimmed := trimString pattern
        let asked := if trimmed = "" then s.asked else s.asked.grant flow.target trimmed
        match addAllowlistEntry io flow.file flow.agentId pattern with
        | none => some { s with flows := s.flows.set id { flow with todo := some todo }, asked }
        | some file =>
          some { disk := some file, flows := s.flows.set id { flow with file, todo := some todo }, asked }
      | some (.use pattern command resolvedPath :: todo) =>
        let file := recordAllowlistUse io flow.file flow.agentId pattern command resolvedPath
        some { s with disk := some file, flows := s.flows.set id { flow with file, todo := some todo } }
  | .edit file =>
    some { s with disk := some file, asked := policyOf (normalizeExecApprovals cases IOValues.reading.ids file) }

end Foxclaw.Infra.ExecApprovals
