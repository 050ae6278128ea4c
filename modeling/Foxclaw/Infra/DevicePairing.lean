import Foxclaw.Lib.JsMap
import Foxclaw.Lib.Runs
import Foxclaw.Shared.OperatorScopeCompat
import Mathlib.Data.PNat.Basic

/-!
# Device pairing and device tokens

This module models `infra/device-pairing.ts` with `pruneExpiredPending` of
`infra/pairing-files.ts`, `rejectPendingPairingRequest` of `infra/pairing-pending.ts` and
`verifyPairingToken` of `infra/pairing-token.ts`.

## The model

Every operation runs under one lock: it loads both files, and writes both back when it changes
something. An operation that leaves the files as they are returns no new state. `Date.now()`,
`randomUUID()` and a generated token are arguments; the clock shows a positive number. Two tokens
are compared by their digests, which are taken to differ for different tokens. The records of the
files are maps; in the plain objects of the code the names of `Object.prototype` (a device id
`constructor`) are found as well.

Beside the files the system keeps, for each device, what was done about it (`DeviceEvent`).
-/

namespace Foxclaw.Infra.DevicePairing

open Text Shared

/-! ### The files -/

/-- What is displayed of a device; a patch has an optional value for each field. -/
structure DeviceInfo (α : Type) where
  displayName : α
  platform : α
  deviceFamily : α
  clientId : α
  clientMode : α
  remoteIp : α

/-- Two of them, field by field. -/
def DeviceInfo.zipWith {α β γ : Type} (f : α → β → γ) (a : DeviceInfo α) (b : DeviceInfo β) :
    DeviceInfo γ where
  displayName := f a.displayName b.displayName
  platform := f a.platform b.platform
  deviceFamily := f a.deviceFamily b.deviceFamily
  clientId := f a.clientId b.clientId
  clientMode := f a.clientMode b.clientMode
  remoteIp := f a.remoteIp b.remoteIp

/-- What a device asks for. -/
structure PairingRequest where
  deviceId : String
  publicKey : String
  info : DeviceInfo (Option String)
  role : Option String
  scopes : Option (List String)
  silent : Option Bool

/-- `DevicePairingPendingRequest`. -/
structure PendingRequest where
  requestId : String
  deviceId : String
  publicKey : String
  info : DeviceInfo (Option String)
  role : Option String
  roles : Option (List String)
  scopes : Option (List String)
  silent : Option Bool
  isRepair : Bool
  ts : ℕ+

structure DeviceAuthToken where
  token : String
  role : String
  scopes : List String
  createdAtMs : ℕ+
  rotatedAtMs : Option ℕ+
  revokedAtMs : Option ℕ+
  lastUsedAtMs : Option ℕ+

/-- The tokens of a device, by role. -/
abbrev DeviceTokens := JsMap String DeviceAuthToken

structure PairedDevice where
  deviceId : String
  publicKey : String
  info : DeviceInfo (Option String)
  role : Option String
  roles : Option (List String)
  scopes : Option (List String)
  approvedScopes : Option (List String)
  tokens : Option DeviceTokens
  createdAtMs : ℕ+
  approvedAtMs : ℕ+

/-- The patch of `updatePairedDeviceMetadata`: for each field none if the patch has no such key.
Its `roles` are never looked at. -/
structure MetadataPatch where
  publicKey : Option String
  info : DeviceInfo (Option (Option String))
  role : Option String
  scopes : Option (List String)
  tokens : Option (Option DeviceTokens)

/-- `DevicePairingStateFile`. -/
structure StateFile where
  pendingById : JsMap String PendingRequest
  pairedByDeviceId : JsMap String PairedDevice

def PENDING_TTL_MS : ℕ := 5 * 60 * 1000

def pruneExpiredPending (pendingById : JsMap String PendingRequest) (nowMs : ℕ+) :
    JsMap String PendingRequest :=
  pendingById.deleteAll
    ((pendingById.entries.filter fun e => e.2.ts + PENDING_TTL_MS < (nowMs : ℕ)).map Prod.fst)

variable (now : ℕ+)

def loadState (file : StateFile) : StateFile :=
  { file with pendingById := pruneExpiredPending file.pendingById now }

/-! ### Roles and scopes -/

variable (deviceId : String)

def normalizeDeviceId : String := trimString deviceId

def normalizeRole (role : Option String) : Option String :=
  role.bind fun role =>
    let trimmed := trimString role
    if trimmed ≠ "" then some trimmed else none

/-- What is in the lists, trimmed and each once; none if there is nothing. -/
def mergeLists (items : List (List String)) : Option (List String) :=
  let merged := normalizeScopeList items.flatten
  if merged = [] then none else some merged

variable (items : List (Option (List String)))

def mergeScopes : Option (List String) :=
  mergeLists (items.map (·.getD []))

/-- `mergeRoles`; a single role is a list of one. -/
def mergeRoles : Option (List String) :=
  mergeLists (items.map (·.getD []))

def resolveApprovedDeviceScopeBaseline (device : PairedDevice) : Option (List String) :=
  (device.approvedScopes.or device.scopes).map fun baseline => normalizeDeviceAuthScopes (some baseline)

def scopesWithinApprovedDeviceBaseline (role : String) (scopes : List String)
    (approvedScopes : Option (List String)) : Bool :=
  match approvedScopes with
  | none => false
  | some approvedScopes => roleScopesAllow role scopes approvedScopes

def buildDeviceAuthToken (newToken role : String) (scopes : List String)
    (existing : Option DeviceAuthToken) (now : ℕ+) (rotatedAtMs : Option ℕ+) : DeviceAuthToken where
  token := newToken
  role := role
  scopes := scopes
  createdAtMs := (existing.map (·.createdAtMs)).getD now
  rotatedAtMs := rotatedAtMs
  revokedAtMs := none
  lastUsedAtMs := existing.bind (·.lastUsedAtMs)

def getPairedDeviceFromState (file : StateFile) (deviceId : String) : Option PairedDevice :=
  file.pairedByDeviceId.get? (normalizeDeviceId deviceId)

def cloneDeviceTokens (device : PairedDevice) : DeviceTokens := device.tokens.getD .empty

/-- `state.pairedByDeviceId[device.deviceId] = device`. -/
def putDevice (file : StateFile) (device : PairedDevice) : StateFile :=
  { file with pairedByDeviceId := file.pairedByDeviceId.set device.deviceId device }

/-! ### Pairing -/

def mergePendingDevicePairingRequest (existing : PendingRequest)
    (incoming : PairingRequest) (isRepair : Bool) : PendingRequest :=
  { existing with
    info := incoming.info.zipWith Option.or existing.info
    role := (normalizeRole existing.role).or (normalizeRole incoming.role)
    roles := mergeRoles [existing.roles, existing.role.map ([·]), incoming.role.map ([·])]
    scopes := mergeScopes [existing.scopes, incoming.scopes]
    silent := some (existing.silent.getD false && incoming.silent.getD false)
    isRepair := existing.isRepair || isRepair
    ts := now }

/-- `requestDevicePairing`; none if it throws. -/
def requestDevicePairing (randomUUID : String) (req : PairingRequest) (file : StateFile) :
    Option (StateFile × PendingRequest × Bool) :=
  let state := loadState now file
  let deviceId := normalizeDeviceId req.deviceId
  if deviceId = "" then none
  else
    let isRepair := state.pairedByDeviceId.has deviceId
    match state.pendingById.values.find? fun pending => pending.deviceId = deviceId with
    | some existing =>
      let merged := mergePendingDevicePairingRequest now existing req isRepair
      some ({ state with pendingById := state.pendingById.set existing.requestId merged }, merged, false)
    | none =>
      let request : PendingRequest :=
        { requestId := randomUUID
          deviceId
          publicKey := req.publicKey
          info := req.info
          role := req.role
          roles := (req.role.filter (· ≠ "")).map ([·])
          scopes := req.scopes
          silent := req.silent
          isRepair
          ts := now }
      some ({ state with pendingById := state.pendingById.set request.requestId request }, request, true)

/-- The scopes of the token that an approval issues. -/
def approvedTokenScopes (pending : PendingRequest) (existing : Option PairedDevice)
    (existingToken : Option DeviceAuthToken) (approvedScopes : Option (List String)) : List String :=
  let requestedScopes := normalizeDeviceAuthScopes pending.scopes
  if 0 < requestedScopes.length then requestedScopes
  else
    normalizeDeviceAuthScopes
      (((existingToken.map (·.scopes)).or approvedScopes).or
        ((existing.bind (·.approvedScopes)).or (existing.bind (·.scopes))))

/-- The token that an approval issues. -/
def approvedToken (newToken roleForToken : String) (pending : PendingRequest)
    (existing : Option PairedDevice) (existingToken : Option DeviceAuthToken)
    (approvedScopes : Option (List String)) : DeviceAuthToken where
  token := newToken
  role := roleForToken
  scopes := approvedTokenScopes pending existing existingToken approvedScopes
  createdAtMs := (existingToken.map (·.createdAtMs)).getD now
  rotatedAtMs := existingToken.map fun _ => now
  revokedAtMs := none
  lastUsedAtMs := existingToken.bind (·.lastUsedAtMs)

/-- The device that an approval stores. -/
def approvedDevice (newToken : String) (pending : PendingRequest)
    (existing : Option PairedDevice) : PairedDevice :=
  let approvedScopes :=
    mergeScopes [(existing.bind (·.approvedScopes)).or (existing.bind (·.scopes)), pending.scopes]
  let tokens := (existing.bind (·.tokens)).getD .empty
  let tokens :=
    match normalizeRole pending.role with
    | none => tokens
    | some roleForToken =>
      let existingToken := tokens.get? roleForToken
      tokens.set roleForToken
        (approvedToken now newToken roleForToken pending existing existingToken approvedScopes)
  { deviceId := pending.deviceId
    publicKey := pending.publicKey
    info := pending.info
    role := pending.role
    roles :=
      mergeRoles [existing.bind (·.roles), (existing.bind (·.role)).map ([·]), pending.roles,
        pending.role.map ([·])]
    scopes := approvedScopes
    approvedScopes
    tokens := some tokens
    createdAtMs := (existing.map (·.createdAtMs)).getD now
    approvedAtMs := now }

/-- `approveDevicePairing`: the new files, the request that was approved and the device. -/
def approveDevicePairing (newToken requestId : String) (file : StateFile) :
    Option (StateFile × PendingRequest × PairedDevice) :=
  let state := loadState now file
  match state.pendingById.get? requestId with
  | none => none
  | some pending =>
    let device := approvedDevice now newToken pending (state.pairedByDeviceId.get? pending.deviceId)
    some (putDevice { state with pendingById := state.pendingById.delete requestId } device, pending, device)

def rejectDevicePairing (requestId : String) (file : StateFile) : Option StateFile :=
  let state := loadState now file
  match state.pendingById.get? requestId with
  | none => none
  | some _ => some { state with pendingById := state.pendingById.delete requestId }

def removePairedDevice (file : StateFile) : Option StateFile :=
  let state := loadState now file
  let normalized := normalizeDeviceId deviceId
  if normalized = "" ∨ state.pairedByDeviceId.has normalized = false then none
  else some { state with pairedByDeviceId := state.pairedByDeviceId.delete normalized }

def clearDevicePairing (file : StateFile) : Option StateFile :=
  let state := loadState now file
  let normalizedId := normalizeDeviceId deviceId
  if state.pairedByDeviceId.has normalizedId = false then none
  else some { state with pairedByDeviceId := state.pairedByDeviceId.delete normalizedId }

/-- The device with the patch applied. -/
def patchedDevice (existing : PairedDevice) (patch : MetadataPatch) : PairedDevice :=
  { existing with
    publicKey := patch.publicKey.getD existing.publicKey
    info := patch.info.zipWith (fun new old => new.getD old) existing.info
    role := patch.role.or existing.role
    roles := mergeRoles [existing.roles, existing.role.map ([·]), patch.role.map ([·])]
    scopes := mergeScopes [existing.scopes, patch.scopes]
    tokens := patch.tokens.getD existing.tokens }

/-- `updatePairedDeviceMetadata`; the device is stored under the id as it was given. -/
def updatePairedDeviceMetadata (patch : MetadataPatch) (file : StateFile) : Option StateFile :=
  let state := loadState now file
  match getPairedDeviceFromState state deviceId with
  | none => none
  | some existing =>
    some
      { state with
        pairedByDeviceId := state.pairedByDeviceId.set deviceId (patchedDevice existing patch) }

/-! ### Tokens -/

def verifyPairingToken (provided expected : String) : Bool :=
  trimString provided ≠ "" && trimString expected ≠ "" && provided = expected

/-- What `verifyDeviceToken` is called with. -/
structure VerifyParams where
  deviceId : String
  token : String
  role : String
  scopes : List String

/-- `verifyDeviceToken`: the new files, or the reason for refusing. -/
def verifyDeviceToken (params : VerifyParams) (file : StateFile) : Except String StateFile :=
  let state := loadState now file
  match getPairedDeviceFromState state params.deviceId with
  | none => .error "device-not-paired"
  | some device =>
    match normalizeRole (some params.role) with
    | none => .error "role-missing"
    | some role =>
      match device.tokens.bind (·.get? role) with
      | none => .error "token-missing"
      | some entry =>
        if entry.revokedAtMs.isSome then .error "token-revoked"
        else if verifyPairingToken params.token entry.token = false then .error "token-mismatch"
        else if scopesWithinApprovedDeviceBaseline role entry.scopes
            (resolveApprovedDeviceScopeBaseline device) = false then .error "scope-mismatch"
        else if roleScopesAllow role (normalizeDeviceAuthScopes (some params.scopes)) entry.scopes = false
          then .error "scope-mismatch"
        else
          let entry := { entry with lastUsedAtMs := some now }
          .ok (putDevice state
            { device with tokens := some ((device.tokens.getD .empty).set role entry) })

def resolveDeviceTokenUpdateContext (state : StateFile) (deviceId role : String) :
    Option (PairedDevice × String × DeviceTokens × Option DeviceAuthToken) :=
  match getPairedDeviceFromState state deviceId with
  | none => none
  | some device =>
    match normalizeRole (some role) with
    | none => none
    | some role =>
      let tokens := cloneDeviceTokens device
      some (device, role, tokens, tokens.get? role)

/-- `ensureDeviceToken`: the files and the token. -/
def ensureDeviceToken (newToken deviceId role : String) (scopes : List String)
    (file : StateFile) : Option (StateFile × DeviceAuthToken) :=
  let state := loadState now file
  let requestedScopes := normalizeDeviceAuthScopes (some scopes)
  match resolveDeviceTokenUpdateContext state deviceId role with
  | none => none
  | some (device, role, tokens, existing) =>
    let approvedScopes := resolveApprovedDeviceScopeBaseline device
    if scopesWithinApprovedDeviceBaseline role requestedScopes approvedScopes = false then none
    else
      let next := buildDeviceAuthToken newToken role requestedScopes existing now (existing.map fun _ => now)
      let issued := some (putDevice state { device with tokens := some (tokens.set role next) }, next)
      match existing with
      | none => issued
      | some existing =>
        if existing.revokedAtMs.isNone &&
            scopesWithinApprovedDeviceBaseline role existing.scopes approvedScopes &&
            roleScopesAllow role requestedScopes existing.scopes then
          some (file, existing)
        else issued

/-- `rotateDeviceToken`: the files and the token. -/
def rotateDeviceToken (newToken deviceId role : String) (scopes : Option (List String))
    (file : StateFile) : Option (StateFile × DeviceAuthToken) :=
  let state := loadState now file
  match resolveDeviceTokenUpdateContext state deviceId role with
  | none => none
  | some (device, role, tokens, existing) =>
    let requestedScopes :=
      normalizeDeviceAuthScopes ((scopes.or (existing.map (·.scopes))).or device.scopes)
    let approvedScopes := resolveApprovedDeviceScopeBaseline device
    if scopesWithinApprovedDeviceBaseline role requestedScopes approvedScopes = false then none
    else
      let next := buildDeviceAuthToken newToken role requestedScopes existing now (some now)
      some (putDevice state { device with tokens := some (tokens.set role next) }, next)

/-- `revokeDeviceToken`: the files and the role whose token is revoked. -/
def revokeDeviceToken (deviceId role : String) (file : StateFile) : Option (StateFile × String) :=
  let state := loadState now file
  match resolveDeviceTokenUpdateContext state deviceId role with
  | none => none
  | some (device, role, tokens, existing) =>
    existing.map fun entry =>
      (putDevice state
        { device with tokens := some (tokens.set role { entry with revokedAtMs := some now }) }, role)

/-! ### The system -/

/-- What is done about a device. -/
inductive DeviceEvent where
  /-- A request with these scopes was approved. -/
  | approved (scopes : List String)
  /-- A token was handed out for a role. -/
  | issued (role token : String)
  /-- The token of a role was revoked. -/
  | revoked (role : String)
  | unpaired

/-- The scopes of the requests approved since the device was last unpaired; the latest event
comes first. -/
def approvedSince : List DeviceEvent → List String
  | [] => []
  | .unpaired :: _ => []
  | .approved scopes :: events => scopes ++ approvedSince events
  | _ :: events => approvedSince events

/-- The token that was issued last for a role and neither revoked since nor lost with the
pairing. -/
def liveToken (role : String) : List DeviceEvent → Option String
  | [] => none
  | .unpaired :: _ => none
  | .issued role' token :: events => if role' = role then some token else liveToken role events
  | .revoked role' :: events => if role' = role then none else liveToken role events
  | .approved _ :: events => liveToken role events

/-- The files, and what was done about each device. -/
structure System where
  file : StateFile
  history : String → List DeviceEvent

/-- Nothing is paired. -/
def System.init : System := ⟨⟨.empty, .empty⟩, fun _ => []⟩

/-- An operation. -/
inductive Action where
  /-- `requestDevicePairing`. -/
  | request (now : ℕ+) (randomUUID : String) (req : PairingRequest)
  /-- `approveDevicePairing`. -/
  | approve (now : ℕ+) (newToken requestId : String)
  /-- `rejectDevicePairing`. -/
  | reject (now : ℕ+) (requestId : String)
  /-- `removePairedDevice`. -/
  | remove (now : ℕ+) (deviceId : String)
  /-- `updatePairedDeviceMetadata`. -/
  | updateMetadata (now : ℕ+) (deviceId : String) (patch : MetadataPatch)
  /-- `verifyDeviceToken`. -/
  | verify (now : ℕ+) (params : VerifyParams)
  /-- `ensureDeviceToken`. -/
  | ensure (now : ℕ+) (newToken deviceId role : String) (scopes : List String)
  /-- `rotateDeviceToken`. -/
  | rotate (now : ℕ+) (newToken deviceId role : String) (scopes : Option (List String))
  /-- `revokeDeviceToken`. -/
  | revoke (now : ℕ+) (deviceId role : String)
  /-- `clearDevicePairing`. -/
  | clear (now : ℕ+) (deviceId : String)

/-- New files, and events of one device, the latest first. -/
def System.record (s : System) (file : StateFile) (deviceId : String) (events : List DeviceEvent) : System :=
  ⟨file, Function.update s.history deviceId (events ++ s.history deviceId)⟩

/-- The events of an approval. -/
def approvalEvents (newToken : String) (pending : PendingRequest) : List DeviceEvent :=
  ((normalizeRole pending.role).map fun role => DeviceEvent.issued role newToken).toList ++
    [.approved (pending.scopes.getD [])]

def next (s : System) : Action → System
  | .request now randomUUID req =>
    match requestDevicePairing now randomUUID req s.file with
    | some (file, _, _) => { s with file }
    | none => s
  | .approve now newToken requestId =>
    match approveDevicePairing now newToken requestId s.file with
    | some (file, pending, device) => s.record file device.deviceId (approvalEvents newToken pending)
    | none => s
  | .reject now requestId =>
    match rejectDevicePairing now requestId s.file with
    | some file => { s with file }
    | none => s
  | .remove now deviceId =>
    match removePairedDevice now deviceId s.file with
    | some file => s.record file (normalizeDeviceId deviceId) [.unpaired]
    | none => s
  | .updateMetadata now deviceId patch =>
    match updatePairedDeviceMetadata now deviceId patch s.file with
    | some file => { s with file }
    | none => s
  | .verify now params =>
    match verifyDeviceToken now params s.file with
    | .ok file => { s with file }
    | .error _ => s
  | .ensure now newToken deviceId role scopes =>
    match ensureDeviceToken now newToken deviceId role scopes s.file with
    | some (file, token) =>
      s.record file (normalizeDeviceId deviceId) [.issued (trimString role) token.token]
    | none => s
  | .rotate now newToken deviceId role scopes =>
    match rotateDeviceToken now newToken deviceId role scopes s.file with
    | some (file, token) =>
      s.record file (normalizeDeviceId deviceId) [.issued (trimString role) token.token]
    | none => s
  | .revoke now deviceId role =>
    match revokeDeviceToken now deviceId role s.file with
    | some (file, role) => s.record file (normalizeDeviceId deviceId) [.revoked role]
    | none => s
  | .clear now deviceId =>
    match clearDevicePairing now deviceId s.file with
    | some file => s.record file (normalizeDeviceId deviceId) [.unpaired]
    | none => s

/-- The system takes a step. -/
def step (s : System) (a : Action) : Option System := some (next s a)

end Foxclaw.Infra.DevicePairing
