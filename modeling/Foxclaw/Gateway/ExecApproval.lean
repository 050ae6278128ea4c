import Foxclaw.Lib.Json
import Foxclaw.Lib.JsMap
import Foxclaw.Lib.Runs
import Foxclaw.Lib.Text

/-!
# Exec approvals of the gateway

This module models the manager of exec approvals (`gateway/exec-approval-manager.ts`) and
`sanitizeSystemRunParamsForForwarding` (`gateway/node-invoke-system-run-approval.ts`), which
lets a `system.run` request through to a node with `approved: true` only on such an approval.

## The model

An entry of the manager is known by a number (`uid`), as the grace timer compares entries by
identity. Two functions are parameters (`RunAnalysis`): `resolveSystemRunCommandRequest`, which
takes shell wrappers apart, and `buildSystemRunApprovalEnvBinding`, which hashes the
environment. Of the payload of an approval, the fields that the functions read are kept. Two
histories stand beside the manager: with what each entry was resolved, and which entry each
request forwarded as approved was let through on.
-/

namespace Foxclaw.Gateway.ExecApproval

/-! ### Records -/

inductive ExecApprovalDecision where
  | allowOnce
  | allowAlways
  | deny
  deriving DecidableEq

structure SystemRunApprovalFileOperand where
  argvIndex : ℚ
  path : String
  sha256 : String
  deriving DecidableEq

structure SystemRunApprovalPlan where
  argv : List String
  cwd : Option String
  commandText : String
  commandPreview : Option String
  agentId : Option String
  sessionKey : Option String
  /-- `mutableFileOperand`: absent, `null` or there. -/
  mutableFileOperand : Option (Option SystemRunApprovalFileOperand)
  deriving DecidableEq

structure SystemRunApprovalBinding where
  argv : List String
  cwd : Option String
  agentId : Option String
  sessionKey : Option String
  envHash : Option String
  deriving DecidableEq

structure ExecApprovalRequestPayload where
  systemRunBinding : Option SystemRunApprovalBinding
  systemRunPlan : Option SystemRunApprovalPlan
  nodeId : Option String
  host : Option String
  deriving DecidableEq

structure ExecApprovalRecord where
  id : String
  request : ExecApprovalRequestPayload
  createdAtMs : ℚ
  expiresAtMs : ℚ
  requestedByConnId : Option String
  requestedByDeviceId : Option String
  resolvedAtMs : Option ℚ
  decision : Option ExecApprovalDecision
  /-- `resolvedBy`: absent, `null` or there. -/
  resolvedBy : Option (Option String)
  deriving DecidableEq

/-- `create`, with the callers' metadata that the handler adds; `id` is the trimmed id or a
random one. -/
def create (now : ℚ) (request : ExecApprovalRequestPayload) (timeoutMs : ℚ) (id : String)
    (connId deviceId : Option String) : ExecApprovalRecord :=
  { id, request, createdAtMs := now, expiresAtMs := now + timeoutMs
    requestedByConnId := connId, requestedByDeviceId := deviceId
    resolvedAtMs := none, decision := none, resolvedBy := none }

/-! ### The manager -/

structure PendingEntry where
  uid : ℕ
  record : ExecApprovalRecord
  deriving DecidableEq

/-- The entry when its decision is used up. -/
def PendingEntry.consumed (entry : PendingEntry) : PendingEntry :=
  { entry with record := { entry.record with decision := none } }

/-- `ExecApprovalManager`, and the timers of its grace periods. -/
structure Manager where
  pending : JsMap String PendingEntry
  /-- The grace timers that are set: the id, and the entry it had. -/
  graceTimers : List (String × ℕ)
  /-- The identity of the next entry. -/
  nextUid : ℕ
  deriving DecidableEq

namespace Manager

variable (m : Manager)

/-- `register`: nothing changes when there is an entry (the call returns its promise, or throws
when it is resolved). -/
def register (record : ExecApprovalRecord) : Manager :=
  match m.pending.get? record.id with
  | some _ => m
  | none =>
    { m with pending := m.pending.set record.id ⟨m.nextUid, record⟩, nextUid := m.nextUid + 1 }

/-- What `resolve` and `expire` have in common: an entry that is not yet resolved gets its
outcome, and a grace timer is set. -/
def settle (now : ℚ) (recordId : String) (decision : Option ExecApprovalDecision)
    (resolvedBy : Option String) : Option (Manager × ℕ) :=
  match m.pending.get? recordId with
  | none => none
  | some entry =>
    if entry.record.resolvedAtMs.isSome then none
    else
      let record :=
        { entry.record with resolvedAtMs := some now, decision, resolvedBy := some resolvedBy }
      some ({ m with
        pending := m.pending.set recordId { entry with record }
        graceTimers := m.graceTimers ++ [(recordId, entry.uid)] }, entry.uid)

/-- `resolve`, with the identity of the entry it resolves. -/
def resolve (now : ℚ) (recordId : String) (decision : ExecApprovalDecision)
    (resolvedBy : Option String) : Option (Manager × ℕ) :=
  m.settle now recordId (some decision) resolvedBy

/-- `expire`: also what an entry's own timer calls. -/
def expire (now : ℚ) (recordId : String) (resolvedBy : Option String) : Manager :=
  ((m.settle now recordId none resolvedBy).map Prod.fst).getD m

variable (recordId : String)

/-- A grace timer fires. -/
def graceElapsed (uid : ℕ) : Manager :=
  let m := { m with graceTimers := m.graceTimers.erase (recordId, uid) }
  -- only if the entry has not been replaced
  if (m.pending.get? recordId).map (·.uid) = some uid then
    { m with pending := m.pending.delete recordId }
  else m

def getSnapshot : Option ExecApprovalRecord :=
  (m.pending.get? recordId).map (·.record)

/-- `consumeAllowOnce`: the manager, and whether there was one. -/
def consumeAllowOnce : Manager × Bool :=
  match m.pending.get? recordId with
  | none => (m, false)
  | some entry =>
    if entry.record.decision ≠ some .allowOnce then (m, false)
    else ({ m with pending := m.pending.set recordId entry.consumed }, true)

end Manager

/-! ### Errors -/

/-- The failure of a request. -/
structure SystemRunError where
  message : String
  details : Option Json.Fields

def systemRunApprovalGuardError (code message : String) (details : Json.Fields) : SystemRunError :=
  ⟨message, some (details.foldl (fun acc p => Json.Fields.set acc p.1 p.2) [("code", .str code)])⟩

def systemRunApprovalRequired (runId : String) : SystemRunError :=
  systemRunApprovalGuardError "APPROVAL_REQUIRED" "approval required" [("runId", .str runId)]

/-! ### Does the request match the approval? -/

/-- `normalizeNonEmptyString` of a string. -/
def normalizeText (value : String) : Option String :=
  let trimmed := Text.trimString value
  if trimmed ≠ "" then some trimmed else none

/-- `normalizeString`, `normalizeNonEmptyString`. -/
def normalizeString : Option Json → Option String
  | some (.str value) => normalizeText value
  | _ => none

def normalizeSystemRunApprovalFileOperand (value : SystemRunApprovalFileOperand) :
    Option SystemRunApprovalFileOperand :=
  if value.argvIndex.den = 1 ∧ 0 ≤ value.argvIndex then do
    let path ← normalizeText value.path
    let sha256 ← normalizeText value.sha256
    some ⟨value.argvIndex, path, sha256⟩
  else none

def normalizeSystemRunApprovalPlan (plan : SystemRunApprovalPlan) : Option SystemRunApprovalPlan :=
  if plan.argv = [] then none
  else do
    let mutableFileOperand ←
      match plan.mutableFileOperand with
      | none => some none
      | some operand =>
        (operand.bind normalizeSystemRunApprovalFileOperand).map fun operand => some (some operand)
    let commandText ← normalizeText plan.commandText
    some
      { argv := plan.argv
        cwd := plan.cwd.bind normalizeText
        commandText
        commandPreview := plan.commandPreview.bind normalizeText
        agentId := plan.agentId.bind normalizeText
        sessionKey := plan.sessionKey.bind normalizeText
        mutableFileOperand }

/-- What the analysis of a command gives. -/
structure ResolvedCommand where
  argv : List String
  commandText : String

/-- What `buildSystemRunApprovalEnvBinding` returns. -/
structure EnvBinding where
  envHash : Option String
  envKeys : List String

/-- The two functions that are parameters. -/
structure RunAnalysis where
  /-- `resolveSystemRunCommandRequest` of `command` and `rawCommand`. -/
  resolveSystemRunCommandRequest : Option Json → Option Json → Except SystemRunError ResolvedCommand
  buildSystemRunApprovalEnvBinding : Option Json → EnvBinding

/-- `SystemRunApprovalRuntimeContext`. -/
structure RuntimeContext where
  plan : Option SystemRunApprovalPlan
  argv : List String
  cwd : Option String
  agentId : Option String
  sessionKey : Option String
  commandText : String

section Checks

variable (analysis : RunAnalysis)

def resolveSystemRunApprovalRuntimeContext (plan : Option SystemRunApprovalPlan) (p : Json.Fields) :
    Except SystemRunError RuntimeContext :=
  match plan.bind normalizeSystemRunApprovalPlan with
  | some plan =>
    .ok ⟨some plan, plan.argv, plan.cwd, plan.agentId, plan.sessionKey, plan.commandText⟩
  | none => do
    let command ← analysis.resolveSystemRunCommandRequest (p.lookup "command") (p.lookup "rawCommand")
    .ok
      { plan := none
        argv := command.argv
        cwd := normalizeString (p.lookup "cwd")
        agentId := normalizeString (p.lookup "agentId")
        sessionKey := normalizeString (p.lookup "sessionKey")
        commandText := command.commandText }

/-- A mismatch, as `SystemRunApprovalMatchResult` has it. -/
structure ApprovalMismatch where
  code : String
  message : String
  details : Option Json.Fields

def requestMismatch (details : Option Json.Fields) : ApprovalMismatch :=
  ⟨"APPROVAL_REQUEST_MISMATCH", "approval id does not match request", details⟩

/-- The keys of the environment, for the details of an error. -/
def envKeysDetail (envKeys : List String) : String × Json := ("envKeys", .arr (envKeys.map .str))

/-- A hash, for the details of an error. -/
def hashDetail (hash : Option String) : Json := (hash.map Json.str).getD .null

/-- `matchSystemRunApprovalEnvHash`; an empty hash counts as none. -/
def matchSystemRunApprovalEnvHash (expected actual : Option String) (envKeys : List String) :
    Except ApprovalMismatch Unit :=
  let given (hash : Option String) : Bool := hash.isSome && hash ≠ some ""
  if !given expected && !given actual then .ok ()
  else if !given expected && given actual then
    .error ⟨"APPROVAL_ENV_BINDING_MISSING",
      "approval id missing env binding for requested env overrides", some [envKeysDetail envKeys]⟩
  else if expected ≠ actual then
    .error ⟨"APPROVAL_ENV_MISMATCH", "approval id env binding mismatch",
      some [envKeysDetail envKeys, ("expectedEnvHash", hashDetail expected),
        ("actualEnvHash", hashDetail actual)]⟩
  else .ok ()

def matchSystemRunApprovalBinding (expected actual : SystemRunApprovalBinding)
    (envKeys : List String) : Except ApprovalMismatch Unit :=
  if expected.argv = [] ∨ expected.argv ≠ actual.argv then .error (requestMismatch none)
  else if expected.cwd ≠ actual.cwd then .error (requestMismatch none)
  else if expected.agentId ≠ actual.agentId then .error (requestMismatch none)
  else if expected.sessionKey ≠ actual.sessionKey then .error (requestMismatch none)
  else matchSystemRunApprovalEnvHash expected.envHash actual.envHash envKeys

def evaluateSystemRunApprovalMatch (context : RuntimeContext) (request : ExecApprovalRequestPayload)
    (env : Option Json) : Except ApprovalMismatch Unit :=
  if request.host ≠ some "node" then .error (requestMismatch none)
  else
    let envBinding := analysis.buildSystemRunApprovalEnvBinding env
    let actual : SystemRunApprovalBinding :=
      { argv := context.argv
        cwd := context.cwd.bind normalizeText
        agentId := context.agentId.bind normalizeText
        sessionKey := context.sessionKey.bind normalizeText
        envHash := envBinding.envHash }
    match request.systemRunBinding with
    | none => .error (requestMismatch (some [envKeysDetail envBinding.envKeys]))
    | some expected => matchSystemRunApprovalBinding expected actual envBinding.envKeys

def toSystemRunApprovalMismatchError (runId : String) (mismatch : ApprovalMismatch) : SystemRunError :=
  systemRunApprovalGuardError mismatch.code mismatch.message
    (("runId", .str runId) :: mismatch.details.getD [])

/-! ### The request -/

structure ApprovalClient where
  connId : Option String
  /-- `connect.scopes`. -/
  scopes : Option Json
  /-- `connect.device.id`. -/
  deviceId : Option String

/-- What `sanitizeSystemRunParamsForForwarding` is called with. -/
structure ForwardRequest where
  nodeId : Option String
  rawParams : Json
  client : Option ApprovalClient
  /-- Whether `execApprovalManager` is given. -/
  managerGiven : Bool
  /-- `nowMs`, or what the clock shows. -/
  nowMs : ℚ

/-- What is forwarded. -/
inductive Forwarded where
  /-- `rawParams` as they came: they are no object. -/
  | raw (params : Json)
  | picked (params : Json.Fields)

/-- `p.approved === true`. -/
def isApproved (p : Json.Fields) : Bool :=
  match p.lookup "approved" with
  | some (.bool b) => b
  | _ => false

def normalizeApprovalDecision (value : Option Json) : Option ExecApprovalDecision :=
  match normalizeString value with
  | some "allow-once" => some .allowOnce
  | some "allow-always" => some .allowAlways
  | _ => none

/-- Is the string among the items? -/
def includesText (items : List Json) (text : String) : Bool :=
  items.any fun
    | .str s => s = text
    | _ => false

def clientHasApprovals (client : Option ApprovalClient) : Bool :=
  match client.bind (·.scopes) with
  | some (.arr scopes) =>
    includesText scopes "operator.admin" || includesText scopes "operator.approvals"
  | _ => false

/-- The fields that are forwarded. -/
def forwardedFields : List String :=
  ["command", "rawCommand", "systemRunPlan", "cwd", "env", "timeoutMs", "needsScreenRecording",
    "agentId", "sessionKey", "runId", "suppressNotifyOnExit"]

def pickSystemRunParams (raw : Json.Fields) : Json.Fields :=
  forwardedFields.filterMap fun key => (raw.lookup key).map fun value => (key, value)

def wantsApprovalOverride (p : Json.Fields) : Bool :=
  isApproved p || (normalizeApprovalDecision (p.lookup "approvalDecision")).isSome

/-- Is the client the one that asked for the approval? -/
def checkClient (client : Option ApprovalClient) (runId : String) (snapshot : ExecApprovalRecord) :
    Except SystemRunError Unit :=
  let snapshotDeviceId := snapshot.requestedByDeviceId
  if snapshotDeviceId.isSome ∧ snapshotDeviceId ≠ some "" then
    if snapshotDeviceId ≠ client.bind (·.deviceId) then
      .error (systemRunApprovalGuardError "APPROVAL_DEVICE_MISMATCH"
        "approval id not valid for this device" [("runId", .str runId)])
    else .ok ()
  else if snapshot.requestedByConnId.isSome ∧ snapshot.requestedByConnId ≠ some "" ∧
      snapshot.requestedByConnId ≠ client.bind (·.connId) then
    .error (systemRunApprovalGuardError "APPROVAL_CLIENT_MISMATCH"
      "approval id not valid for this client" [("runId", .str runId)])
  else .ok ()

/-- The checks between the lookup of an approval and its decision. -/
def checkApproval (opts : ForwardRequest) (p : Json.Fields) (runId : String)
    (snapshot : ExecApprovalRecord) : Except SystemRunError RuntimeContext := do
  if opts.nowMs > snapshot.expiresAtMs then
    throw (systemRunApprovalGuardError "APPROVAL_EXPIRED" "approval expired" [("runId", .str runId)])
  match opts.nodeId.bind normalizeText, snapshot.request.nodeId.bind normalizeText with
  | none, _ =>
    throw (systemRunApprovalGuardError "MISSING_NODE_ID" "node.invoke requires nodeId"
      [("runId", .str runId)])
  | some _, none =>
    throw (systemRunApprovalGuardError "APPROVAL_NODE_BINDING_MISSING"
      "approval id missing node binding" [("runId", .str runId)])
  | some targetNodeId, some approvalNodeId =>
    if approvalNodeId ≠ targetNodeId then
      throw (systemRunApprovalGuardError "APPROVAL_NODE_MISMATCH"
        "approval id not valid for this node" [("runId", .str runId)])
  checkClient opts.client runId snapshot
  let context ← resolveSystemRunApprovalRuntimeContext analysis snapshot.request.systemRunPlan p
  match evaluateSystemRunApprovalMatch analysis context snapshot.request (p.lookup "env") with
  | .ok () => pure context
  | .error mismatch => throw (toSystemRunApprovalMismatchError runId mismatch)

/-- The value of an optional string as a property. -/
def textJson (value : Option String) : Json := (value.map Json.str).getD .null

/-- A plan as a value. -/
def SystemRunApprovalPlan.toJson (plan : SystemRunApprovalPlan) : Json :=
  .obj ([("argv", .arr (plan.argv.map .str)), ("cwd", textJson plan.cwd),
    ("commandText", .str plan.commandText), ("commandPreview", textJson plan.commandPreview),
    ("agentId", textJson plan.agentId), ("sessionKey", textJson plan.sessionKey)] ++
    match plan.mutableFileOperand with
    | some (some operand) => [("mutableFileOperand", .obj [("argvIndex", .num operand.argvIndex),
        ("path", .str operand.path), ("sha256", .str operand.sha256)])]
    | _ => [])

/-- `if (value) next[key] = value; else delete next[key]`. -/
def setOrDelete (next : Json.Fields) (key : String) (value : Option String) : Json.Fields :=
  match value with
  | some value => if value ≠ "" then next.set key (.str value) else next.erase key
  | none => next.erase key

/-- The params with the fields of the approved plan. -/
def withPlan (next : Json.Fields) (context : RuntimeContext) : Json.Fields :=
  match context.plan with
  | none => next
  | some plan =>
    let next := next.set "command" (.arr (plan.argv.map .str))
    let next := next.set "systemRunPlan" plan.toJson
    let next := setOrDelete next "rawCommand" (some context.commandText)
    let next := setOrDelete next "cwd" context.cwd
    let next := setOrDelete next "agentId" context.agentId
    setOrDelete next "sessionKey" context.sessionKey

/-- The params with the trusted fields. -/
def withApproval (next : Json.Fields) (decision : String) : Json.Fields :=
  (next.set "approved" (.bool true)).set "approvalDecision" (.str decision)

def timedOut (snapshot : ExecApprovalRecord) : Bool :=
  snapshot.resolvedAtMs.isSome && snapshot.decision.isNone && snapshot.resolvedBy = some none

/-- Does the request ask for the fallback of an approval that timed out, and may it? -/
def asksFallback (opts : ForwardRequest) (p : Json.Fields) : Bool :=
  isApproved p && normalizeApprovalDecision (p.lookup "approvalDecision") = some .allowOnce &&
    clientHasApprovals opts.client

/-- What is done on the decision of an approval that has passed the checks. -/
def applyDecision (m : Manager) (opts : ForwardRequest) (p next : Json.Fields) (runId : String)
    (snapshot : ExecApprovalRecord) : Manager × Except SystemRunError Forwarded :=
  match snapshot.decision with
  | some .allowOnce =>
    let (m, consumed) := m.consumeAllowOnce runId
    if consumed then (m, .ok (.picked (withApproval next "allow-once")))
    else (m, .error (systemRunApprovalRequired runId))
  | some .allowAlways => (m, .ok (.picked (withApproval next "allow-always")))
  | _ =>
    if timedOut snapshot && asksFallback opts p then
      (m, .ok (.picked (withApproval next "allow-once")))
    else (m, .error (systemRunApprovalRequired runId))

/-- The part of `sanitizeSystemRunParamsForForwarding` for requests that want an approval. -/
def sanitizeOverride (m : Manager) (opts : ForwardRequest) (p : Json.Fields) :
    Manager × Except SystemRunError Forwarded :=
  match normalizeString (p.lookup "runId") with
  | none =>
    (m, .error (systemRunApprovalGuardError "MISSING_RUN_ID"
      "approval override requires params.runId" []))
  | some runId =>
    if !opts.managerGiven then
      (m, .error (systemRunApprovalGuardError "APPROVALS_UNAVAILABLE"
        "exec approvals unavailable" []))
    else
      match m.getSnapshot runId with
      | none =>
        (m, .error (systemRunApprovalGuardError "UNKNOWN_APPROVAL_ID"
          "unknown or expired approval id" [("runId", .str runId)]))
      | some snapshot =>
        match checkApproval analysis opts p runId snapshot with
        | .error error => (m, .error error)
        | .ok context =>
          applyDecision m opts p (withPlan (pickSystemRunParams p) context) runId snapshot

def sanitizeSystemRunParamsForForwarding (m : Manager) (opts : ForwardRequest) :
    Manager × Except SystemRunError Forwarded :=
  match opts.rawParams with
  | .obj p =>
    if wantsApprovalOverride p then sanitizeOverride analysis m opts p
    else
      match analysis.resolveSystemRunCommandRequest (p.lookup "command") (p.lookup "rawCommand") with
      | .error error => (m, .error error)
      | .ok _ => (m, .ok (.picked (pickSystemRunParams p)))
  | params => (m, .ok (.raw params))

/-! ### Runs -/

/-- Is the result that of a request forwarded as approved? -/
def forwardsApproved : Except SystemRunError Forwarded → Bool
  | .ok (.picked params) => isApproved params
  | _ => false

/-- The entry a request names with its `runId`. -/
def namedEntry (m : Manager) (opts : ForwardRequest) : Option PendingEntry :=
  match opts.rawParams with
  | .obj p => (normalizeString (p.lookup "runId")).bind m.pending.get?
  | _ => none

/-- The manager and the histories. -/
structure State where
  manager : Manager
  /-- Which entry was resolved, and with what. -/
  resolvedWith : List (ℕ × ExecApprovalDecision)
  /-- The entry behind each request that was forwarded as approved. -/
  authorised : List ℕ
  deriving DecidableEq

def init : State := ⟨⟨.empty, [], 0⟩, [], []⟩

/-- What can happen; `now` is what the clock shows then. -/
inductive Action where
  | register (now : ℚ) (request : ExecApprovalRequestPayload) (timeoutMs : ℚ) (id : String)
    (connId deviceId : Option String)
  | resolve (now : ℚ) (recordId : String) (decision : ExecApprovalDecision)
    (resolvedBy : Option String)
  /-- `expire`, or the timer of an entry fires. -/
  | expire (now : ℚ) (recordId : String) (resolvedBy : Option String)
  | consumeAllowOnce (recordId : String)
  | graceElapsed (recordId : String) (uid : ℕ)
  /-- `sanitizeSystemRunParamsForForwarding`. -/
  | forward (opts : ForwardRequest)

/-- The step of a request to forward. -/
def forward (s : State) (opts : ForwardRequest) : State :=
  let (manager, result) := sanitizeSystemRunParamsForForwarding analysis s.manager opts
  { s with
    manager
    authorised :=
      if forwardsApproved result then
        s.authorised ++ ((namedEntry s.manager opts).map (·.uid)).toList
      else s.authorised }

def next (s : State) : Action → Option State
  | .register now request timeoutMs id connId deviceId =>
    let record := create now request timeoutMs id connId deviceId
    some { s with manager := s.manager.register record }
  | .resolve now recordId decision resolvedBy =>
    match s.manager.resolve now recordId decision resolvedBy with
    | none => some s
    | some (manager, uid) =>
      some { s with manager, resolvedWith := s.resolvedWith ++ [(uid, decision)] }
  | .expire now recordId resolvedBy =>
    some { s with manager := s.manager.expire now recordId resolvedBy }
  | .consumeAllowOnce recordId =>
    some { s with manager := (s.manager.consumeAllowOnce recordId).1 }
  | .graceElapsed recordId uid =>
    if (recordId, uid) ∈ s.manager.graceTimers then
      some { s with manager := s.manager.graceElapsed recordId uid }
    else none
  | .forward opts => some (forward analysis s opts)

end Checks

end Foxclaw.Gateway.ExecApproval
