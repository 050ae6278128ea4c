import Foxclaw.Lib.JsMap
import Foxclaw.Lib.Json
import Foxclaw.Lib.Runs

/-!
# The node registry

This module models `gateway/node-registry.ts`: the table of connected nodes, and the requests that
are sent to a node and wait for its result.

## The model

`randomUUID()`, `Date.now()`, a connection's id and whether the socket takes what is sent are given
with each call. The timers that are set stand beside the three maps. Four histories stand beside the
registry: the sessions that were registered and the connections that were unregistered, the requests
that were sent, with the connection they were sent over, and how each was settled.
-/

namespace Foxclaw.Gateway.Nodes

/-! ### Records -/

abbrev NonEmptyString := { s : String // s ≠ "" }

/-- `ConnectParams`, what the registry reads of it. -/
structure ConnectParams where
  clientId : NonEmptyString
  /-- `client.displayName`. -/
  displayName : Option String
  /-- `client.platform`. -/
  platform : Option String
  /-- `client.version`. -/
  version : Option String
  /-- `client.deviceFamily`. -/
  deviceFamily : Option String
  /-- `client.modelIdentifier`. -/
  modelIdentifier : Option String
  coreVersion : Option String
  uiVersion : Option String
  caps : Option (List String)
  commands : Option (List String)
  permissions : Option (List (String × Bool))
  pathEnv : Option String
  deviceId : Option NonEmptyString
  deriving DecidableEq

/-- `GatewayWsClient`, what the registry reads of it. -/
structure GatewayWsClient where
  connId : String
  connect : ConnectParams
  deriving DecidableEq

structure NodeSession where
  nodeId : String
  connId : String
  client : GatewayWsClient
  displayName : Option String
  platform : Option String
  version : Option String
  coreVersion : Option String
  uiVersion : Option String
  deviceFamily : Option String
  modelIdentifier : Option String
  remoteIp : Option String
  caps : List String
  commands : List String
  permissions : Option (List (String × Bool))
  pathEnv : Option String
  connectedAtMs : ℚ
  deriving DecidableEq

structure PendingInvoke where
  nodeId : String
  command : String
  deriving DecidableEq

/-- The error of a result. -/
structure InvokeError where
  code : Option String
  message : Option String
  deriving DecidableEq

/-- `NodeInvokeResult`; a field is absent, `null` or there. -/
structure NodeInvokeResult where
  ok : Bool
  payload : Option Json
  payloadJSON : Option (Option String)
  error : Option (Option InvokeError)

/-- A result that reports an error of the gateway. -/
def NodeInvokeResult.failed (code message : String) : NodeInvokeResult :=
  { ok := false, payload := none, payloadJSON := none, error := some (some ⟨some code, some message⟩) }

/-- What `invoke` is called with. -/
structure InvokeParams where
  nodeId : String
  command : String
  /-- `params`, as JSON text. -/
  paramsJSON : Option String
  timeoutMs : Option ℚ
  idempotencyKey : Option String

/-- The payload of `node.invoke.request`. -/
structure InvokeRequest where
  id : String
  params : InvokeParams

/-- What `handleInvokeResult` is called with. -/
structure InvokeResultParams where
  id : String
  nodeId : String
  ok : Bool
  payload : Option Json
  payloadJSON : Option (Option String)
  error : Option (Option InvokeError)

/-! ### The registry -/

/-- `NodeRegistry`, and the timers that are set. -/
structure NodeRegistry where
  nodesById : JsMap String NodeSession := .empty
  nodesByConn : JsMap String String := .empty
  pendingInvokes : JsMap String PendingInvoke := .empty
  /-- The timers of the requests, with their delays. -/
  timers : JsMap String ℚ := .empty

/-- The session that `register` builds. -/
def newSession (client : GatewayWsClient) (remoteIp : Option String) (now : ℚ) : NodeSession :=
  let connect := client.connect
  { nodeId := (connect.deviceId.getD connect.clientId).val
    connId := client.connId
    client
    displayName := connect.displayName
    platform := connect.platform
    version := connect.version
    coreVersion := connect.coreVersion
    uiVersion := connect.uiVersion
    deviceFamily := connect.deviceFamily
    modelIdentifier := connect.modelIdentifier
    remoteIp
    caps := connect.caps.getD []
    commands := connect.commands.getD []
    permissions := connect.permissions
    pathEnv := connect.pathEnv
    connectedAtMs := now }

namespace NodeRegistry

variable (r : NodeRegistry)

/-- `register` of a session. -/
def register (session : NodeSession) : NodeRegistry :=
  { r with
    nodesById := r.nodesById.set session.nodeId session
    nodesByConn := r.nodesByConn.set session.connId session.nodeId }

/-- The pending requests to a node, as `unregister` goes through them. -/
def pendingOf (nodeId : String) : List (String × PendingInvoke) :=
  r.pendingInvokes.entries.filter fun e => e.2.nodeId = nodeId

/-- `unregister` of a connection of a node: the node and its pending requests are dropped. -/
def drop (connId nodeId : String) : NodeRegistry :=
  let ids := (r.pendingOf nodeId).map Prod.fst
  { nodesById := r.nodesById.delete nodeId
    nodesByConn := r.nodesByConn.delete connId
    pendingInvokes := r.pendingInvokes.deleteAll ids
    timers := r.timers.deleteAll ids }

/-- `unregister`: the registry, and the requests that are rejected with their errors. -/
def unregister (connId : String) : NodeRegistry × List (String × String) :=
  match r.nodesByConn.get? connId with
  | none => (r, [])
  | some nodeId =>
    if nodeId = "" then (r, [])
    else
      (r.drop connId nodeId,
        (r.pendingOf nodeId).map fun e => (e.1, s!"node disconnected ({e.2.command})"))

def get (r : NodeRegistry) (nodeId : String) : Option NodeSession := r.nodesById.get? nodeId

/-- `invoke`: what it returns at once, or the registry and what was sent over which connection. -/
def invoke (r : NodeRegistry) (params : InvokeParams) (requestId : String) (sendOk : Bool) :
    Except NodeInvokeResult (NodeRegistry × InvokeRequest × String) :=
  match r.nodesById.get? params.nodeId with
  | none => .error (.failed "NOT_CONNECTED" "node not connected")
  | some node =>
    if !sendOk then .error (.failed "UNAVAILABLE" "failed to send invoke to node")
    else
      .ok ({ r with
        timers := r.timers.set requestId (params.timeoutMs.getD 30000)
        pendingInvokes := r.pendingInvokes.set requestId ⟨params.nodeId, params.command⟩ },
        ⟨requestId, params⟩, node.connId)

/-- A timer fires: the request resolves with an error. -/
def timeout (requestId : String) : NodeRegistry × NodeInvokeResult :=
  ({ r with
    timers := r.timers.delete requestId
    pendingInvokes := r.pendingInvokes.delete requestId },
    .failed "TIMEOUT" "node invoke timed out")

/-- `handleInvokeResult`, with what the request resolves with; `none` when it returns `false`. -/
def handleInvokeResult (params : InvokeResultParams) : Option (NodeRegistry × NodeInvokeResult) :=
  match r.pendingInvokes.get? params.id with
  | none => none
  | some pending =>
    if pending.nodeId ≠ params.nodeId then none
    else
      some ({ r with
        timers := r.timers.delete params.id
        pendingInvokes := r.pendingInvokes.delete params.id },
        { ok := params.ok, payload := params.payload
          payloadJSON := some (params.payloadJSON.getD none), error := some (params.error.getD none) })

end NodeRegistry

/-! ### The system -/

/-- How a request is settled. -/
inductive Outcome where
  /-- It resolves with a result that came from a node. -/
  | result (nodeId : String) (value : NodeInvokeResult)
  /-- It resolves as its timer fires. -/
  | timeout (value : NodeInvokeResult)
  /-- It is rejected as a connection is unregistered. -/
  | disconnected (connId message : String)

/-- A request that was sent. -/
structure Sent where
  request : InvokeRequest
  /-- The connection it was sent over. -/
  connId : String

/-- The registry and the histories, the latest first. -/
structure System where
  registry : NodeRegistry := {}
  /-- The sessions that were registered. -/
  registered : List NodeSession := []
  /-- The connections that were unregistered. -/
  unregistered : List String := []
  sent : List Sent := []
  /-- The requests that were settled, and how. -/
  settled : List (String × Outcome) := []

/-- One step. -/
inductive Action where
  | register (client : GatewayWsClient) (remoteIp : Option String) (now : ℚ)
  | unregister (connId : String)
  /-- `invoke`, with the id it draws and whether the socket takes the request. -/
  | invoke (params : InvokeParams) (requestId : String) (sendOk : Bool)
  | invokeResult (params : InvokeResultParams)
  | timeout (requestId : String)

/-- Where a step leads; the ids of connections and of requests are fresh. -/
def next (s : System) : Action → Option System
  | .register client remoteIp now =>
    if client.connId ∈ s.registered.map (·.connId) ∨ client.connId ∈ s.unregistered then none
    else
      let session := newSession client remoteIp now
      some { s with registry := s.registry.register session, registered := session :: s.registered }
  | .unregister connId =>
    let (registry, rejected) := s.registry.unregister connId
    some { s with
      registry
      unregistered := connId :: s.unregistered
      settled := rejected.map (fun e => (e.1, .disconnected connId e.2)) ++ s.settled }
  | .invoke params requestId sendOk =>
    if requestId ∈ s.sent.map (·.request.id) then none
    else
      match s.registry.invoke params requestId sendOk with
      | .error _ => some s
      | .ok (registry, request, connId) => some { s with registry, sent := ⟨request, connId⟩ :: s.sent }
  | .invokeResult params =>
    match s.registry.handleInvokeResult params with
    | none => some s
    | some (registry, value) =>
      some { s with registry, settled := (params.id, .result params.nodeId value) :: s.settled }
  | .timeout requestId =>
    if s.registry.timers.has requestId then
      let (registry, value) := s.registry.timeout requestId
      some { s with registry, settled := (requestId, .timeout value) :: s.settled }
    else none

/-- The session of a node's most recently registered connection. -/
def System.latest (s : System) (nodeId : String) : Option NodeSession :=
  s.registered.find? fun session => session.nodeId = nodeId

end Foxclaw.Gateway.Nodes
