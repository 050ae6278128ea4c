import Foxclaw.Acp.RuntimeOptions

/-!
# The identity and the metadata of an ACP session

This module models `acp/runtime/session-identity.ts` on typed identities, and the records of
`config/sessions/types.ts` and `acp/runtime/types.ts` that the session manager works on.
-/

namespace Foxclaw.Acp

/-! ### Records -/

/-- `SessionAcpIdentity["state"]`. -/
inductive IdentityState where
  | pending
  | resolved
  deriving DecidableEq

/-- `SessionAcpIdentitySource`. -/
inductive IdentitySource where
  | ensure
  | status
  | event
  deriving DecidableEq

structure SessionAcpIdentity where
  state : IdentityState
  acpxRecordId : Option String := none
  acpxSessionId : Option String := none
  agentSessionId : Option String := none
  source : IdentitySource
  lastUpdatedAt : ℚ
  deriving DecidableEq

/-- `AcpRuntimeSessionMode`. -/
inductive SessionMode where
  | persistent
  | oneshot
  deriving DecidableEq

/-- `SessionAcpMeta["state"]`. -/
inductive SessionState where
  | idle
  | running
  | error
  deriving DecidableEq

structure SessionAcpMeta where
  backend : String
  agent : String
  runtimeSessionName : String
  identity : Option SessionAcpIdentity := none
  mode : SessionMode
  runtimeOptions : Option RuntimeOptions := none
  cwd : Option String := none
  state : SessionState
  lastActivityAt : ℚ
  lastError : Option String := none
  /-- There are fields of the earlier projection of the identity. -/
  legacyProjection : Bool := false
  deriving DecidableEq

structure AcpRuntimeHandle where
  backend : String
  runtimeSessionName : String
  cwd : Option String := none
  acpxRecordId : Option String := none
  backendSessionId : Option String := none
  agentSessionId : Option String := none
  deriving DecidableEq

/-- `AcpRuntimeStatus`, what is read of it. -/
structure AcpRuntimeStatus where
  acpxRecordId : Option String := none
  backendSessionId : Option String := none
  agentSessionId : Option String := none
  detailsAcpxRecordId : Option String := none
  detailsBackendSessionId : Option String := none
  detailsAcpxSessionId : Option String := none
  detailsAgentSessionId : Option String := none

/-! ### Identities -/

def normalizeIdentity (identity : SessionAcpIdentity) : SessionAcpIdentity :=
  { identity with
    acpxRecordId := normalizeText identity.acpxRecordId
    acpxSessionId := normalizeText identity.acpxSessionId
    agentSessionId := normalizeText identity.agentSessionId }

def resolveSessionIdentityFromMeta (m : SessionAcpMeta) : Option SessionAcpIdentity :=
  m.identity.map normalizeIdentity

def identityEquals (left right : Option SessionAcpIdentity) : Bool :=
  match left.map normalizeIdentity, right.map normalizeIdentity with
  | none, none => true
  | some a, some b =>
    a.state = b.state ∧ a.acpxRecordId = b.acpxRecordId ∧ a.acpxSessionId = b.acpxSessionId ∧
      a.agentSessionId = b.agentSessionId ∧ a.source = b.source
  | _, _ => false

/-- An id of the incoming identity, when it counts and is there. -/
def mergeId (allowIncomingValue : Bool) (incoming current : Option String) : Option String :=
  if allowIncomingValue then incoming.or current else current

def mergeSessionIdentity (current incoming : Option SessionAcpIdentity) (now : ℚ) :
    Option SessionAcpIdentity :=
  match current.map normalizeIdentity, incoming.map normalizeIdentity with
  | none, none => none
  | none, some incoming => some { incoming with lastUpdatedAt := now }
  | some current, none => some current
  | some current, some incoming =>
    let currentResolved := decide (current.state = .resolved)
    let allowIncomingValue := !currentResolved || decide (incoming.state = .resolved)
    let acpxSessionId := mergeId allowIncomingValue incoming.acpxSessionId current.acpxSessionId
    let agentSessionId := mergeId allowIncomingValue incoming.agentSessionId current.agentSessionId
    some
      { state :=
          if acpxSessionId.isSome || agentSessionId.isSome || currentResolved then .resolved
          else incoming.state
        acpxRecordId := mergeId allowIncomingValue incoming.acpxRecordId current.acpxRecordId
        acpxSessionId
        agentSessionId
        source := if allowIncomingValue then incoming.source else current.source
        lastUpdatedAt := now }

def createIdentityFromEnsure (handle : AcpRuntimeHandle) (now : ℚ) : Option SessionAcpIdentity :=
  let acpxRecordId := normalizeText handle.acpxRecordId
  let acpxSessionId := normalizeText handle.backendSessionId
  let agentSessionId := normalizeText handle.agentSessionId
  if acpxRecordId = none ∧ acpxSessionId = none ∧ agentSessionId = none then none
  else
    some
      { state := .pending, acpxRecordId, acpxSessionId, agentSessionId, source := .ensure, lastUpdatedAt := now }

def createIdentityFromStatus (status : Option AcpRuntimeStatus) (now : ℚ) : Option SessionAcpIdentity :=
  match status with
  | none => none
  | some status =>
    let acpxRecordId := (normalizeText status.acpxRecordId).or (normalizeText status.detailsAcpxRecordId)
    let acpxSessionId := ((normalizeText status.backendSessionId).or
      (normalizeText status.detailsBackendSessionId)).or (normalizeText status.detailsAcpxSessionId)
    let agentSessionId :=
      (normalizeText status.agentSessionId).or (normalizeText status.detailsAgentSessionId)
    if acpxRecordId = none ∧ acpxSessionId = none ∧ agentSessionId = none then none
    else
      some
        { state := if acpxSessionId.isSome || agentSessionId.isSome then .resolved else .pending
          acpxRecordId, acpxSessionId, agentSessionId, source := .status, lastUpdatedAt := now }

/-- `resolveRuntimeHandleIdentifiersFromIdentity`: `backendSessionId` and `agentSessionId`. -/
def resolveRuntimeHandleIdentifiersFromIdentity (identity : Option SessionAcpIdentity) :
    Option String × Option String :=
  match identity with
  | none => (none, none)
  | some identity =>
    (identity.acpxSessionId.filter (· ≠ ""), identity.agentSessionId.filter (· ≠ ""))

/-- `{ ...handle, …identifiers }`. -/
def AcpRuntimeHandle.withIdentifiers (handle : AcpRuntimeHandle) (ids : Option String × Option String) :
    AcpRuntimeHandle :=
  { handle with
    backendSessionId := ids.1.or handle.backendSessionId
    agentSessionId := ids.2.or handle.agentSessionId }

def resolveRuntimeOptionsFromMeta (m : SessionAcpMeta) : RuntimeOptions :=
  let normalized := normalizeRuntimeOptions (m.runtimeOptions.getD {})
  if normalized.cwd.isSome || (m.cwd.filter (· ≠ "")).isNone then normalized
  else normalizeRuntimeOptions { normalized with cwd := m.cwd }

end Foxclaw.Acp
