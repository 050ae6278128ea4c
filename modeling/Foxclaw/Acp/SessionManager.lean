import Foxclaw.Acp.SessionIdentity
import Foxclaw.Lib.Prog

/-!
# The ACP session manager

This module models the operations of `acp/control-plane/manager.core.ts`, with
`manager.runtime-controls.ts` and `manager.identity-reconcile.ts`, as programs
(`Foxclaw.Lib.Prog`) for one session. Their calls are what they do to the manager's maps, to the store and
to the runtime of the session.

## The model

Sessions are known by their actor keys. An operation begins when the actor queue lets it. The stream of a
turn is told in full as the turn begins, and then waited for event by event. The abort controller and the
`cancelPromise` of a turn change nothing here and are left out, as are the statistics, the log lines, and
what an operation returns. What the manager is given by its configuration and by other modules is `Deps`.
-/

namespace Foxclaw.Acp

/-! ### Records -/

/-- `AcpRuntime`, which of its optional methods there are. -/
structure AcpRuntime where
  getCapabilities : Bool := true
  getStatus : Bool := true
  setMode : Bool := true
  setConfigOption : Bool := true
  deriving DecidableEq

/-- What `requireRuntimeBackend` returns. -/
structure Backend where
  id : String
  runtime : AcpRuntime

inductive AcpRuntimeControl where
  /-- `session/set_mode`. -/
  | setMode
  /-- `session/set_config_option`. -/
  | setConfigOption
  /-- `session/status`. -/
  | status
  deriving DecidableEq

structure AcpRuntimeCapabilities where
  controls : List AcpRuntimeControl := []
  configOptionKeys : Option (List String) := none

/-- `AcpRuntimeEvent`, what is read of it. -/
inductive AcpRuntimeEvent where
  /-- An event of type `error`. -/
  | error (message : String) (code : Option String)
  /-- Any other. -/
  | other

/-- The stream of a turn: its events, and what it throws after them. -/
structure TurnStream where
  events : List AcpRuntimeEvent := []
  failure : Option Thrown := none

structure CachedRuntimeState where
  runtime : AcpRuntime
  handle : AcpRuntimeHandle
  backend : String
  agent : String
  mode : SessionMode
  cwd : Option String
  appliedControlSignature : Option ControlSignature := none

structure RuntimeCacheEntry where
  state : CachedRuntimeState
  lastTouchedAt : ℚ

/-- What is done to the metadata of a session. -/
inductive MetaWrite where
  /-- `initializeSession` writes it. -/
  | init (m : SessionAcpMeta)
  /-- `ensureRuntimeHandle` does. -/
  | ensured (m : SessionAcpMeta)
  /-- `persistRuntimeOptions`. -/
  | options (normalized : RuntimeOptions) (now : ℚ)
  /-- `setSessionState`. -/
  | state (state : SessionState) (lastError : Option String) (clearLastError : Bool) (now : ℚ)
  /-- `reconcileManagerRuntimeSessionIdentifiers`. -/
  | identity (nextIdentity : Option SessionAcpIdentity) (now : ℚ)
  /-- `closeSession` clears it. -/
  | clear

/-- A text that is not empty. -/
def nonEmpty (value : Option String) : Option String := value.filter fun text => text ≠ ""

/-- What `mutate` returns for the entry of a session; `none` is `null`. -/
def MetaWrite.mutate (w : MetaWrite) (entry : Option (Option SessionAcpMeta)) : Option SessionAcpMeta :=
  match w with
  | .init m => some m
  | .ensured m => entry.map fun _ => m
  | .options normalized now =>
    entry.join.map fun base =>
      { base with
        runtimeOptions := if normalized = {} then none else some normalized
        cwd := normalized.cwd
        lastActivityAt := now
        lastError := nonEmpty base.lastError
        legacyProjection := false }
  | .state newState lastError clearLastError now =>
    entry.join.map fun base =>
      { base with
        cwd := nonEmpty base.cwd
        state := newState
        lastActivityAt := now
        lastError :=
          match normalizeText lastError with
          | some text => some text
          | none => if clearLastError then none else nonEmpty base.lastError
        legacyProjection := false }
  | .identity nextIdentity now =>
    entry.join.map fun base =>
      { base with
        identity := nextIdentity
        cwd := nonEmpty base.cwd
        lastActivityAt := now
        lastError := nonEmpty base.lastError
        legacyProjection := false }
  | .clear => none

/-- What the manager is given. -/
structure Deps where
  /-- `acp.backend`. -/
  backend : Option String := none
  /-- `acp.maxConcurrentSessions`. -/
  maxConcurrentSessions : Option JsNumber := none
  /-- `acp.runtime.ttlMinutes`. -/
  ttlMinutes : Option JsNumber := none
  /-- `resolveAcpAgentFromSessionKey`. -/
  agentOfKey : String → String := fun _ => "main"
  isAcpSessionKey : String → Bool := fun _ => true
  /-- The order of `localeCompare`. -/
  localeLe : String → String → Bool := fun a b => a ≤ b

/-! ### Calls -/

/-- What the operations call. -/
inductive Command where
  /-- `Date.now`. -/
  | now
  | throwIfAborted
  /-- `readSessionEntry`. -/
  | readMeta
  | upsertSessionMeta (w : MetaWrite)
  | requireRuntimeBackend (backendId : Option String)
  | enforceConcurrentSessionLimit
  /-- `getCachedRuntimeState`. -/
  | getCached (now : ℚ)
  /-- `getLastTouchedAt` and `peek`. -/
  | peekCached
  /-- `setCachedRuntimeState`. -/
  | setCached (state : CachedRuntimeState) (now : ℚ)
  /-- `clearCachedRuntimeState`. -/
  | clearCached
  /-- `cached.handle` is set. -/
  | setCachedHandle (handle : AcpRuntimeHandle)
  /-- `cached.appliedControlSignature` is set. -/
  | setSignature (signature : Option ControlSignature)
  /-- `activeTurnBySession.has`. -/
  | hasActiveTurn
  /-- `activeTurnBySession.set`. -/
  | setActiveTurn
  /-- `activeTurnBySession.delete`. -/
  | deleteActiveTurn
  /-- `runtime.ensureSession`. -/
  | ensureSession (agent : String) (mode : SessionMode) (resumeSessionId cwd : Option String)
  /-- `runtime.getCapabilities`. -/
  | getCapabilities (handle : AcpRuntimeHandle)
  /-- `runtime.getStatus`. -/
  | getStatus (handle : AcpRuntimeHandle)
  /-- `runtime.setMode`. -/
  | setMode (handle : AcpRuntimeHandle) (mode : String)
  /-- `runtime.setConfigOption`. -/
  | setConfigOption (handle : AcpRuntimeHandle) (key value : String)
  /-- `runtime.cancel`. -/
  | cancel (handle : AcpRuntimeHandle)
  /-- `runtime.close`. -/
  | close (handle : AcpRuntimeHandle) (reason : String)
  /-- `runtime.runTurn`: the stream begins. -/
  | runTurn (handle : AcpRuntimeHandle)
  /-- The next event of the stream is waited for, or its end. -/
  | nextEvent (last : Bool)
  /-- `return` of the stream. -/
  | returnStream
  | onEvent (event : AcpRuntimeEvent)

/-- What a call returns. -/
@[reducible] def Value : Command → Type
  | .now => ℚ
  | .readMeta | .upsertSessionMeta _ => Option SessionAcpMeta
  | .requireRuntimeBackend _ => Backend
  | .getCached _ => Option CachedRuntimeState
  | .peekCached => Option RuntimeCacheEntry
  | .hasActiveTurn => Bool
  | .ensureSession _ _ _ _ => AcpRuntimeHandle
  | .getCapabilities _ => AcpRuntimeCapabilities
  | .getStatus _ => AcpRuntimeStatus
  | .runTurn _ => TurnStream
  | _ => Unit

/-- How a call ends. -/
abbrev Reply (c : Command) := Except Thrown (Value c)

/-- An operation. -/
abbrev Io (α : Type) := Prog Command Reply Thrown α

/-- Make a call; throw what it throws. -/
def io (c : Command) : Io (Value c) := (Prog.call c).bind Prog.ofExcept

def withAcpRuntimeErrorBoundary {α : Type} (run : Io α) (fallbackCode : AcpRuntimeErrorCode)
    (fallbackMessage : String) : Io α :=
  run.tryCatch fun error =>
    let acpError := toAcpRuntimeError error fallbackCode fallbackMessage
    .throw (.acp acpError.1 acpError.2)

/-- A program that runs under a condition. -/
def runIf (condition : Bool) (run : Io Unit) : Io Unit := if condition then run else pure ()

def writeSessionMeta (w : MetaWrite) (failOnError : Bool) : Io (Option SessionAcpMeta) :=
  (io (.upsertSessionMeta w)).tryCatch fun error => if failOnError then .throw error else .pure none

/-- `getCachedRuntimeState`, which touches the entry. -/
def getCachedRuntimeState : Io (Option CachedRuntimeState) := do
  let now ← io .now
  io (.getCached now)

def setCachedRuntimeState (state : CachedRuntimeState) : Io Unit := do
  let now ← io .now
  io (.setCached state now)

variable (d : Deps)

/-- `resolveAcpSessionResolutionError`, for a session without metadata. -/
def resolutionError (sessionKey : String) : Thrown :=
  if d.isAcpSessionKey sessionKey then
    .acp .sessionInitFailed
      s!"ACP metadata is missing for {sessionKey}. Recreate this ACP session with /acp spawn and rebind the thread."
  else .acp .sessionInitFailed s!"Session is not ACP-enabled: {sessionKey}"

/-- `resolveSession` and `requireReadySessionMeta`. -/
def requireReadySessionMeta (sessionKey : String) : Io SessionAcpMeta := do
  match ← io .readMeta with
  | some m => pure m
  | none => .throw (resolutionError d sessionKey)

/-! ### Runtime handles -/

variable (m : SessionAcpMeta)

/-- The handle with the ids of the identity. -/
def ensuredIdentity (ensured : AcpRuntimeHandle) (now : ℚ) : Option SessionAcpIdentity :=
  (mergeSessionIdentity (resolveSessionIdentityFromMeta m) (createIdentityFromEnsure ensured now) now).or
    (resolveSessionIdentityFromMeta m)

/-- `nextMeta` of `ensureRuntimeHandle`. -/
def ensuredMeta (backendId agent : String) (cwd : Option String)
    (ensured : AcpRuntimeHandle) (now : ℚ) : SessionAcpMeta :=
  let effectiveCwd := (normalizeText ensured.cwd).or cwd
  let options := resolveRuntimeOptionsFromMeta m
  let nextRuntimeOptions := normalizeRuntimeOptions { options with cwd := effectiveCwd.or options.cwd }
  { backend := (nonEmpty (some ensured.backend)).getD backendId
    agent
    runtimeSessionName := ensured.runtimeSessionName
    identity := ensuredIdentity m ensured now
    mode := m.mode
    runtimeOptions := if nextRuntimeOptions = {} then none else some nextRuntimeOptions
    cwd := effectiveCwd
    state := m.state
    lastActivityAt := now
    lastError := nonEmpty m.lastError }

def shouldPersistMeta (previous next : SessionAcpMeta) : Bool :=
  previous.backend ≠ next.backend || previous.runtimeSessionName ≠ next.runtimeSessionName ||
    !identityEquals (resolveSessionIdentityFromMeta previous) next.identity ||
    previous.agent ≠ next.agent || previous.cwd ≠ next.cwd ||
    !runtimeOptionsEqual previous.runtimeOptions next.runtimeOptions || previous.legacyProjection

/-- `ensureRuntimeHandle`, when there is no cached handle that fits. -/
def ensureNewHandle (configuredBackend agent : String) (cwd : Option String) :
    Io (AcpRuntime × AcpRuntimeHandle × SessionAcpMeta) := do
  io .enforceConcurrentSessionLimit
  let backend ← io (.requireRuntimeBackend (nonEmpty (some configuredBackend)))
  let ensured ← withAcpRuntimeErrorBoundary (io (.ensureSession agent m.mode none cwd)) .sessionInitFailed
    "Could not initialize ACP session runtime."
  let now ← io .now
  let nextMeta := ensuredMeta m backend.id agent cwd ensured now
  let nextHandle := ensured.withIdentifiers (resolveRuntimeHandleIdentifiersFromIdentity nextMeta.identity)
  runIf (shouldPersistMeta m nextMeta) do
    let _ ← writeSessionMeta (.ensured nextMeta) false
  setCachedRuntimeState
    { runtime := backend.runtime, handle := nextHandle, backend := nextMeta.backend, agent, mode := m.mode
      cwd := nextMeta.cwd }
  pure (backend.runtime, nextHandle, nextMeta)

/-- The cached handle fits the metadata. -/
def CachedRuntimeState.fits (cached : CachedRuntimeState) (configuredBackend agent : String)
    (mode : SessionMode) (cwd : Option String) : Bool :=
  (configuredBackend = "" || cached.backend = configuredBackend) && cached.agent = agent &&
    cached.mode = mode && cached.cwd.getD "" = cwd.getD ""

def ensureRuntimeHandle (sessionKey : String) (m : SessionAcpMeta) :
    Io (AcpRuntime × AcpRuntimeHandle × SessionAcpMeta) := do
  let agent := (normalizeText (some m.agent)).getD (d.agentOfKey sessionKey)
  let cwd := (resolveRuntimeOptionsFromMeta m).cwd.or (normalizeText m.cwd)
  let configuredBackend := Text.trimString (((nonEmpty (some m.backend)).or (nonEmpty d.backend)).getD "")
  match ← getCachedRuntimeState with
  | some cached =>
    if cached.fits configuredBackend agent m.mode cwd then pure (cached.runtime, cached.handle, m)
    else
      io .clearCached
      ensureNewHandle m configuredBackend agent cwd
  | none => ensureNewHandle m configuredBackend agent cwd

/-! ### Runtime controls -/

variable (runtime : AcpRuntime)

/-- What the runtime reports of its capabilities. -/
def reportedCapabilities (handle : AcpRuntimeHandle) : Io AcpRuntimeCapabilities :=
  if runtime.getCapabilities then
    withAcpRuntimeErrorBoundary (io (.getCapabilities handle)) .turnFailed
      "Could not read ACP runtime capabilities."
  else pure {}

/-- `resolveManagerRuntimeCapabilities`. -/
def resolveRuntimeCapabilities (handle : AcpRuntimeHandle) :
    Io AcpRuntimeCapabilities := do
  let reported ← reportedCapabilities runtime handle
  let normalizedKeys := (reported.configOptionKeys.getD []).filterMap fun entry => normalizeText (some entry)
  pure
    { controls := reported.controls ++ (if runtime.setMode then [.setMode] else []) ++
        (if runtime.setConfigOption then [.setConfigOption] else []) ++
        (if runtime.getStatus then [.status] else [])
      configOptionKeys := if normalizedKeys = [] then none else some normalizedKeys }

def createUnsupportedControlError (backend control : String) : Thrown :=
  .acp .backendUnsupportedControl s!"ACP backend \"{backend}\" does not support {control}."

/-- The error for a key that is not advertised. -/
def unknownKeyError (backend key : String) : Thrown :=
  .acp .backendUnsupportedControl s!"ACP backend \"{backend}\" does not accept config key \"{key}\"."

variable (capabilities : AcpRuntimeCapabilities)

/-- The backend accepts a key. -/
def AcpRuntimeCapabilities.accepts (key : String) : Bool :=
  match capabilities.configOptionKeys with
  | none => true
  | some keys => keys = [] || key ∈ keys

/-- The pairs are pushed one after the other. -/
def pushConfigOptions (capabilities : AcpRuntimeCapabilities) (backend : String) (handle : AcpRuntimeHandle) :
    List (String × String) → Io Unit
  | [] => pure ()
  | (key, value) :: rest => do
    if capabilities.accepts key then
      io (.setConfigOption handle key value)
      pushConfigOptions capabilities backend handle rest
    else .throw (unknownKeyError backend key)

/-- The runtime mode is pushed, if there is one. -/
def pushMode (backend : String) (handle : AcpRuntimeHandle) (runtimeMode : Option String) : Io Unit :=
  match runtimeMode with
  | none => pure ()
  | some runtimeMode =>
    if .setMode ∈ capabilities.controls ∧ runtime.setMode = true then io (.setMode handle runtimeMode)
    else .throw (createUnsupportedControlError backend "session/set_mode")

/-- What `applyManagerRuntimeControls` pushes. -/
def pushControls (backend : String)
    (handle : AcpRuntimeHandle) (options : RuntimeOptions) : Io Unit := do
  pushMode runtime capabilities backend handle (normalizeText options.runtimeMode)
  let configOptions := (buildRuntimeConfigOptionPairs options).entries
  if configOptions = [] then pure ()
  else if .setConfigOption ∈ capabilities.controls ∧ runtime.setConfigOption = true then
    pushConfigOptions capabilities backend handle configOptions
  else .throw (createUnsupportedControlError backend "session/set_config_option")

/-- `applyManagerRuntimeControls`. -/
def applyRuntimeControls (handle : AcpRuntimeHandle) (m : SessionAcpMeta) :
    Io Unit := do
  let options := resolveRuntimeOptionsFromMeta m
  let signature := buildRuntimeControlSignature d.localeLe options
  let cached ← getCachedRuntimeState
  if (cached.bind (·.appliedControlSignature)) = some signature then pure ()
  else
    let capabilities ← resolveRuntimeCapabilities runtime handle
    let backend := (nonEmpty (some handle.backend)).getD m.backend
    withAcpRuntimeErrorBoundary (pushControls runtime capabilities backend handle options) .turnFailed
      "Could not apply ACP runtime options before turn execution."
    io (.setSignature (some signature))

def persistRuntimeOptions (options : RuntimeOptions) : Io Unit := do
  let normalized := normalizeRuntimeOptions options
  let now ← io .now
  let _ ← writeSessionMeta (.options normalized now) true
  match ← getCachedRuntimeState with
  | none => pure ()
  | some cached =>
    if cached.cwd.getD "" ≠ normalized.cwd.getD "" then io .clearCached else io (.setSignature none)

/-! ### State and identity -/

def setSessionState (state : SessionState) (lastError : Option String) (clearLastError : Bool) : Io Unit := do
  let now ← io .now
  let _ ← writeSessionMeta (.state state lastError clearLastError now) false
  pure ()

/-- The status of the runtime session: `none` when it cannot be read and that is no error. -/
def refreshStatus (handle : AcpRuntimeHandle) (runtimeStatus : Option AcpRuntimeStatus)
    (failOnStatusError : Bool) : Io (Option (Option AcpRuntimeStatus)) :=
  if runtimeStatus.isNone && runtime.getStatus then
    ((withAcpRuntimeErrorBoundary (io (.getStatus handle)) .turnFailed
      "Could not read ACP runtime status.").bind fun status => .pure (some (some status))).tryCatch
      fun error => if failOnStatusError then .throw error else .pure none
  else pure (some runtimeStatus)

/-- `reconcileManagerRuntimeSessionIdentifiers`. -/
def reconcileRuntimeSessionIdentifiers (handle : AcpRuntimeHandle) (m : SessionAcpMeta)
    (runtimeStatus : Option AcpRuntimeStatus) (failOnStatusError : Bool) : Io AcpRuntimeHandle := do
  match ← refreshStatus runtime handle runtimeStatus failOnStatusError with
  | none => pure handle
  | some runtimeStatus =>
    let now ← io .now
    let currentIdentity := resolveSessionIdentityFromMeta m
    let nextIdentity :=
      (mergeSessionIdentity currentIdentity (createIdentityFromStatus runtimeStatus now) now).or currentIdentity
    let ids := resolveRuntimeHandleIdentifiersFromIdentity nextIdentity
    let handleChanged := decide (ids.1 ≠ handle.backendSessionId) || decide (ids.2 ≠ handle.agentSessionId)
    let nextHandle := if handleChanged then handle.withIdentifiers ids else handle
    runIf handleChanged do
      let cached ← getCachedRuntimeState
      runIf cached.isSome (io (.setCachedHandle nextHandle))
    runIf (!identityEquals currentIdentity nextIdentity || m.legacyProjection) do
      let _ ← writeSessionMeta (.identity nextIdentity now) false
    pure nextHandle

/-! ### Operations -/

/-- `AcpInitializeSessionInput`; the agent is normalised. -/
structure InitializeInput where
  agent : String
  mode : SessionMode
  resumeSessionId : Option String := none
  cwd : Option String := none
  backendId : Option String := none

/-- `meta` of `initializeSession`. -/
def initialMeta (input : InitializeInput) (backendId : String) (options : RuntimeOptions)
    (handle : AcpRuntimeHandle) (now : ℚ) : SessionAcpMeta :=
  let effectiveCwd := (normalizeText handle.cwd).or options.cwd
  let effectiveOptions := normalizeRuntimeOptions { options with cwd := effectiveCwd.or options.cwd }
  { backend := (nonEmpty (some handle.backend)).getD backendId
    agent := input.agent
    runtimeSessionName := handle.runtimeSessionName
    identity := some ((mergeSessionIdentity none (createIdentityFromEnsure handle now) now).getD
      { state := .pending, source := .ensure, lastUpdatedAt := now })
    mode := input.mode
    runtimeOptions := if effectiveOptions = {} then none else some effectiveOptions
    cwd := effectiveCwd
    state := .idle
    lastActivityAt := now }

variable (sessionKey : String)

def initializeSession (input : InitializeInput) : Io Unit := do
  let backend ← io (.requireRuntimeBackend ((nonEmpty input.backendId).or d.backend))
  let options ← Prog.ofExcept (validateRuntimeOptionPatch { cwd := input.cwd })
  io .enforceConcurrentSessionLimit
  let handle ← withAcpRuntimeErrorBoundary
    (io (.ensureSession input.agent input.mode input.resumeSessionId options.cwd)) .sessionInitFailed
    "Could not initialize ACP session runtime."
  let now ← io .now
  let m := initialMeta input backend.id options handle now
  let written : Io Unit := do
    let persisted ← writeSessionMeta (.init m) true
    runIf persisted.isNone
      (.throw (.acp .sessionInitFailed s!"Could not persist ACP metadata for {sessionKey}."))
  written.tryCatch fun error => do
    let _ ← (io (.close handle "init-meta-failed")).attempt
    .throw error
  setCachedRuntimeState
    { runtime := backend.runtime, handle, backend := m.backend, agent := input.agent, mode := input.mode
      cwd := m.cwd }

/-- `throwIfAborted`, where there is a signal. -/
def checkSignal (signal : Bool) : Io Unit := if signal then io .throwIfAborted else pure ()

/-- The status of the runtime session, if the runtime has one. -/
def readStatus (handle : AcpRuntimeHandle) (signal : Bool) : Io (Option AcpRuntimeStatus) :=
  let run : Io (Option AcpRuntimeStatus) := do
    checkSignal signal
    let status ← io (.getStatus handle)
    checkSignal signal
    pure (some status)
  if runtime.getStatus then
    withAcpRuntimeErrorBoundary run .turnFailed "Could not read ACP runtime status."
  else pure none

def getSessionStatus (signal : Bool) : Io Unit := do
  checkSignal signal
  checkSignal signal
  let resolvedMeta ← requireReadySessionMeta d sessionKey
  let (runtime, handle, m) ← ensureRuntimeHandle d sessionKey resolvedMeta
  let _ ← resolveRuntimeCapabilities runtime handle
  let runtimeStatus ← readStatus runtime handle signal
  let _ ← reconcileRuntimeSessionIdentifiers runtime handle m runtimeStatus true
  pure ()

/-- `setSessionRuntimeMode`, with the mode that was validated. -/
def setSessionRuntimeMode (sessionKey runtimeMode : String) : Io Unit := do
  let resolvedMeta ← requireReadySessionMeta d sessionKey
  let (runtime, handle, m) ← ensureRuntimeHandle d sessionKey resolvedMeta
  let capabilities ← resolveRuntimeCapabilities runtime handle
  let backend := (nonEmpty (some handle.backend)).getD m.backend
  if .setMode ∈ capabilities.controls ∧ runtime.setMode = true then
    withAcpRuntimeErrorBoundary (io (.setMode handle runtimeMode)) .turnFailed
      "Could not update ACP runtime mode."
    let nextOptions ← Prog.ofExcept
      (mergeRuntimeOptions (resolveRuntimeOptionsFromMeta m) { runtimeMode := some runtimeMode })
    persistRuntimeOptions nextOptions
  else .throw (createUnsupportedControlError backend "session/set_mode")

/-- `setSessionConfigOption`, with the key and the value that were validated. -/
def setSessionConfigOption (sessionKey key value : String) : Io Unit := do
  let resolvedMeta ← requireReadySessionMeta d sessionKey
  let (runtime, handle, m) ← ensureRuntimeHandle d sessionKey resolvedMeta
  let inferredPatch ← Prog.ofExcept (inferRuntimeOptionPatchFromConfigOption key value)
  let capabilities ← resolveRuntimeCapabilities runtime handle
  let backend := (nonEmpty (some handle.backend)).getD m.backend
  if .setConfigOption ∈ capabilities.controls ∧ runtime.setConfigOption = true then
    if capabilities.accepts key then
      withAcpRuntimeErrorBoundary (io (.setConfigOption handle key value)) .turnFailed
        "Could not update ACP runtime config option."
      let nextOptions ← Prog.ofExcept (mergeRuntimeOptions (resolveRuntimeOptionsFromMeta m) inferredPatch)
      persistRuntimeOptions nextOptions
    else .throw (unknownKeyError backend key)
  else .throw (createUnsupportedControlError backend "session/set_config_option")

/-- `updateSessionRuntimeOptions`, with the patch that was validated. -/
def updateSessionRuntimeOptions (patch : RuntimeOptions) : Io Unit := do
  let resolvedMeta ← requireReadySessionMeta d sessionKey
  let nextOptions ← Prog.ofExcept (mergeRuntimeOptions (resolveRuntimeOptionsFromMeta resolvedMeta) patch)
  persistRuntimeOptions nextOptions

def resetSessionRuntimeOptions : Io Unit := do
  let resolvedMeta ← requireReadySessionMeta d sessionKey
  let (_, handle, _) ← ensureRuntimeHandle d sessionKey resolvedMeta
  withAcpRuntimeErrorBoundary (io (.close handle "reset-runtime-options")) .turnFailed
    "Could not reset ACP runtime options."
  io .clearCached
  persistRuntimeOptions {}

/-- `normalizeAcpErrorCode`; a code of ASCII letters, as those that are known. -/
def normalizeAcpErrorCode (code : Option String) : AcpRuntimeErrorCode :=
  match nonEmpty code with
  | none => .turnFailed
  | some code =>
    ((ACP_ERROR_CODES.find? fun e => e.2 = (Text.trimString code).toUpper).map Prod.fst).getD .turnFailed

/-- The error of an event, if it is one. -/
def eventError : AcpRuntimeEvent → Option Thrown
  | .other => none
  | .error message code =>
    some (.acp (normalizeAcpErrorCode code)
      ((normalizeText (some message)).getD "ACP turn failed before completion."))

/-- The loop over the stream of a turn: the last error event, unless something throws. -/
def consumeEvents (hasOnEvent : Bool) (failure : Option Thrown) :
    List AcpRuntimeEvent → Option Thrown → Io (Option Thrown)
  | [], streamError => do
    io (.nextEvent true)
    match failure with
    | none => pure streamError
    | some error => .throw error
  | event :: rest, streamError => do
    io (.nextEvent false)
    let streamError := (eventError event).or streamError
    if hasOnEvent then
      match ← (io (.onEvent event)).attempt with
      | .ok () => consumeEvents hasOnEvent failure rest streamError
      | .error error =>
        let _ ← (io .returnStream).attempt
        .throw error
    else consumeEvents hasOnEvent failure rest streamError

/-- What `runTurn` does while its turn is active. -/
def streamTurn (handle : AcpRuntimeHandle) (hasOnEvent : Bool) : Io Unit :=
  let run : Io Unit := do
    let stream ← io (.runTurn handle)
    match ← consumeEvents hasOnEvent stream.failure stream.events none with
    | some error => .throw error
    | none => setSessionState .idle none true
  run.tryCatch fun error => do
    let acpError := toAcpRuntimeError error .turnFailed "ACP turn failed before completion."
    setSessionState .error (some acpError.2) false
    .throw (.acp acpError.1 acpError.2)

/-- What `runTurn` does in the end. -/
def afterTurn (handle : AcpRuntimeHandle) (m : SessionAcpMeta) : Io Unit :=
  if m.mode = .oneshot then do
    let _ ← (io (.close handle "oneshot-complete")).attempt
    io .clearCached
  else do
    let _ ← reconcileRuntimeSessionIdentifiers runtime handle m none false

def runTurn (hasOnEvent : Bool) : Io Unit := do
  let resolvedMeta ← requireReadySessionMeta d sessionKey
  let (runtime, handle, m) ← ensureRuntimeHandle d sessionKey resolvedMeta
  applyRuntimeControls d runtime handle m
  setSessionState .running none true
  io .setActiveTurn
  let outcome ← (streamTurn handle hasOnEvent).attempt
  io .deleteActiveTurn
  afterTurn runtime handle m
  Prog.ofExcept outcome

/-- `cancelSession`, when no turn is active. -/
def cancelSession : Io Unit := do
  let resolvedMeta ← requireReadySessionMeta d sessionKey
  let (_, handle, _) ← ensureRuntimeHandle d sessionKey resolvedMeta
  let cancelled : Io Unit := do
    withAcpRuntimeErrorBoundary (io (.cancel handle)) .turnFailed "ACP cancel failed before completion."
    setSessionState .idle none true
  cancelled.tryCatch fun error => do
    let acpError := toAcpRuntimeError error .turnFailed "ACP cancel failed before completion."
    setSessionState .error (some acpError.2) false
    .throw (.acp acpError.1 acpError.2)

/-- `AcpCloseSessionInput`. -/
structure CloseInput where
  reason : String
  clearMeta : Bool := false
  allowBackendUnavailable : Bool := false
  requireAcpSession : Bool := true

/-- The runtime of a session is closed; a backend that is not there may be tolerated. -/
def closeRuntime (input : CloseInput) (m : SessionAcpMeta) : Io Unit :=
  let closed : Io Unit := do
    let (_, handle, _) ← ensureRuntimeHandle d sessionKey m
    withAcpRuntimeErrorBoundary (io (.close handle input.reason)) .turnFailed
      "ACP close failed before completion."
    io .clearCached
  closed.tryCatch fun error =>
    let acpError := toAcpRuntimeError error .turnFailed "ACP close failed before completion."
    if input.allowBackendUnavailable = true ∧
        (acpError.1 = .backendMissing ∨ acpError.1 = .backendUnavailable) then
      io .clearCached
    else .throw (.acp acpError.1 acpError.2)

def closeSession (input : CloseInput) : Io Unit := do
  match ← io .readMeta with
  | none => if input.requireAcpSession then .throw (resolutionError d sessionKey) else pure ()
  | some m =>
    closeRuntime d sessionKey input m
    runIf input.clearMeta do
      let _ ← writeSessionMeta .clear true

/-- What `evictIdleRuntimeHandles` does in the actor of a candidate. -/
def evictCandidate (idleTtlMs now : ℚ) : Io Unit := do
  if ← io .hasActiveTurn then pure ()
  else
    match ← io .peekCached with
    | none => pure ()
    | some entry =>
      if now - entry.lastTouchedAt < idleTtlMs then pure ()
      else
        io .clearCached
        let _ ← (io (.close entry.state.handle "idle-evicted")).attempt

def resolveRuntimeIdleTtlMs : ℚ :=
  match d.ttlMinutes with
  | some (.fin q) => if q ≤ 0 then 0 else round (q * 60 * 1000)
  | _ => 0

end Foxclaw.Acp
