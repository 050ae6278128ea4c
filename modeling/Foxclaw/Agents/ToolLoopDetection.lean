import Foxclaw.Agents.ToolCallId
import Foxclaw.Lib.CodeUnits
import Foxclaw.Lib.JsNumber

/-!
# Detection of tool loops

This module models `agents/tool-loop-detection.ts`: the last tool calls of a session are kept in a
history, and before a call the history is searched for signs that the calls make no progress.

## The model

The digest of the parameters and the digest of an outcome are left open (`LoopEnv`), so two calls are
the same here when their records say so. Scans that go back from the newest record run over the
reversed history. Time stamps and log lines are left out.
-/

namespace Foxclaw.Agents.ToolLoop

/-! ### Configuration -/

structure ToolLoopDetectionConfig where
  enabled : Option Bool
  historySize : Option JsNumber
  warningThreshold : Option JsNumber
  criticalThreshold : Option JsNumber
  globalCircuitBreakerThreshold : Option JsNumber
  /-- `detectors.genericRepeat`. -/
  genericRepeat : Option Bool
  /-- `detectors.knownPollNoProgress`. -/
  knownPollNoProgress : Option Bool
  /-- `detectors.pingPong`. -/
  pingPong : Option Bool

structure ResolvedLoopDetectionConfig where
  enabled : Bool
  historySize : ℕ
  warningThreshold : ℕ
  criticalThreshold : ℕ
  globalCircuitBreakerThreshold : ℕ
  /-- `detectors.genericRepeat`. -/
  genericRepeat : Bool
  /-- `detectors.knownPollNoProgress`. -/
  knownPollNoProgress : Bool
  /-- `detectors.pingPong`. -/
  pingPong : Bool
  deriving DecidableEq

def TOOL_CALL_HISTORY_SIZE : ℕ := 30

def WARNING_THRESHOLD : ℕ := 10

def CRITICAL_THRESHOLD : ℕ := 20

def GLOBAL_CIRCUIT_BREAKER_THRESHOLD : ℕ := 30

def asPositiveInt (value : Option JsNumber) (fallback : ℕ) : ℕ :=
  match value with
  | some (.fin q) => if q.isInt = true ∧ 0 < q then q.num.toNat else fallback
  | _ => fallback

def resolveLoopDetectionConfig (config : Option ToolLoopDetectionConfig) : ResolvedLoopDetectionConfig :=
  let warningThreshold := asPositiveInt (config.bind (·.warningThreshold)) WARNING_THRESHOLD
  let criticalThreshold := asPositiveInt (config.bind (·.criticalThreshold)) CRITICAL_THRESHOLD
  let globalCircuitBreakerThreshold :=
    asPositiveInt (config.bind (·.globalCircuitBreakerThreshold)) GLOBAL_CIRCUIT_BREAKER_THRESHOLD
  let criticalThreshold :=
    if criticalThreshold ≤ warningThreshold then warningThreshold + 1 else criticalThreshold
  let globalCircuitBreakerThreshold :=
    if globalCircuitBreakerThreshold ≤ criticalThreshold then criticalThreshold + 1
    else globalCircuitBreakerThreshold
  { enabled := (config.bind (·.enabled)).getD false
    historySize := asPositiveInt (config.bind (·.historySize)) TOOL_CALL_HISTORY_SIZE
    warningThreshold
    criticalThreshold
    globalCircuitBreakerThreshold
    genericRepeat := (config.bind (·.genericRepeat)).getD true
    knownPollNoProgress := (config.bind (·.knownPollNoProgress)).getD true
    pingPong := (config.bind (·.pingPong)).getD true }

theorem asPositiveInt_pos (value : Option JsNumber) {fallback : ℕ} (h : 0 < fallback) :
    0 < asPositiveInt value fallback := by
  unfold asPositiveInt
  split
  · split
    · rename_i hq
      have := Rat.num_pos.mpr hq.2
      omega
    · exact h
  · exact h

theorem lt_raised (bound value : ℕ) : bound < if value ≤ bound then bound + 1 else value := by
  split <;> omega

/-- The thresholds are ordered, whatever was configured. -/
theorem thresholds_ordered (config : Option ToolLoopDetectionConfig) :
    0 < (resolveLoopDetectionConfig config).warningThreshold ∧
      (resolveLoopDetectionConfig config).warningThreshold <
        (resolveLoopDetectionConfig config).criticalThreshold ∧
      (resolveLoopDetectionConfig config).criticalThreshold <
        (resolveLoopDetectionConfig config).globalCircuitBreakerThreshold := by
  exact ⟨asPositiveInt_pos _ (by decide), lt_raised _ _, lt_raised _ _⟩

/-! ### Records -/

/-- What is left open. -/
structure LoopEnv where
  digestStable : Json → String
  /-- `hashToolOutcome`: of the name of the tool, its parameters, the result and the error. -/
  hashToolOutcome : String → Json → Option Json → Option Json → Option String

structure ToolCallRecord where
  toolName : String
  argsHash : String
  toolCallId : Option String
  resultHash : Option String
  deriving DecidableEq

/-- A string that is there and not empty. -/
def truthy (value : Option String) : Option String := value.filter (· ≠ "")

variable (env : LoopEnv)

variable (toolName : String) (params : Json)

def hashToolCall : String :=
  toolName ++ ":" ++ env.digestStable params

def isKnownPollToolCall : Bool :=
  if toolName = "command_status" then true
  else
    match params with
    | .obj fields =>
      toolName = "process" &&
        (textOf (fields.lookup "action") = some "poll" || textOf (fields.lookup "action") = some "log")
    | _ => false

/-! ### The history -/

/-- What `recordToolCall` pushes. -/
def newCall (toolCallId : Option String) : ToolCallRecord :=
  ⟨toolName, hashToolCall env toolName params, toolCallId, none⟩

variable (config : Option ToolLoopDetectionConfig) (history : List ToolCallRecord)

def recordToolCall (toolName : String) (params : Json) (toolCallId : Option String) : List ToolCallRecord :=
  let pushed := history ++ [newCall env toolName params toolCallId]
  if (resolveLoopDetectionConfig config).historySize < pushed.length then pushed.tail else pushed

variable (toolName argsHash : String)

/-- The outcome belongs to the record. -/
def awaits (toolCallId : Option String) (call : ToolCallRecord) : Bool :=
  ((truthy toolCallId).isNone || call.toolCallId = toolCallId) &&
    (call.toolName = toolName && call.argsHash = argsHash) && call.resultHash.isNone

/-- The loop of `recordToolCallOutcome`, newest record first: the records, if one of them matches. -/
def settle (toolName argsHash : String) (toolCallId : Option String) (resultHash : String) :
    List ToolCallRecord → Option (List ToolCallRecord)
  | [] => none
  | call :: older =>
    if awaits toolName argsHash toolCallId call then
      some ({ call with resultHash := some resultHash } :: older)
    else (settle toolName argsHash toolCallId resultHash older).map (call :: ·)

/-- The history with an outcome noted, before it is cut. -/
def noteOutcome (toolCallId : Option String) (resultHash : String) : List ToolCallRecord :=
  match settle toolName argsHash toolCallId resultHash history.reverse with
  | some settled => settled.reverse
  | none => history ++ [⟨toolName, argsHash, toolCallId, some resultHash⟩]

def recordToolCallOutcome (toolName : String) (toolParams : Json) (toolCallId : Option String)
    (result error : Option Json) : List ToolCallRecord :=
  match truthy (env.hashToolOutcome toolName toolParams result error) with
  | none => history
  | some resultHash =>
    let noted := noteOutcome history toolName (hashToolCall env toolName toolParams) toolCallId resultHash
    noted.drop (noted.length - (resolveLoopDetectionConfig config).historySize)

/-! ### Streaks -/

/-- The loop of `getNoProgressStreak`, newest record first. -/
def noProgressFrom (toolName argsHash : String) :
    List ToolCallRecord → ℕ → Option String → ℕ × Option String
  | [], streak, latestResultHash => (streak, latestResultHash)
  | record :: older, streak, latestResultHash =>
    if record.toolName ≠ toolName ∨ record.argsHash ≠ argsHash then
      noProgressFrom toolName argsHash older streak latestResultHash
    else
      match truthy record.resultHash with
      | none => noProgressFrom toolName argsHash older streak latestResultHash
      | some resultHash =>
        match latestResultHash with
        | none => noProgressFrom toolName argsHash older 1 (some resultHash)
        | some latest =>
          if resultHash ≠ latest then (streak, latestResultHash)
          else noProgressFrom toolName argsHash older (streak + 1) latestResultHash

/-- `getNoProgressStreak`: the count and `latestResultHash`. -/
def getNoProgressStreak :
    ℕ × Option String := noProgressFrom toolName argsHash history.reverse 0 none

/-- The loop that counts the alternating tail, newest record first. -/
def alternatingTailFrom (last other : String) : List ToolCallRecord → ℕ → ℕ
  | [], alternatingTailCount => alternatingTailCount
  | call :: older, alternatingTailCount =>
    if call.argsHash ≠ if alternatingTailCount % 2 = 0 then last else other then alternatingTailCount
    else alternatingTailFrom last other older (alternatingTailCount + 1)

/-- The loop that looks for evidence of progress: whether there is none, `firstHashA` and
`firstHashB`. -/
def evidenceFrom (last other : String) :
    List ToolCallRecord → Option String → Option String → Bool × Option String × Option String
  | [], firstHashA, firstHashB => (true, firstHashA, firstHashB)
  | call :: rest, firstHashA, firstHashB =>
    match truthy call.resultHash with
    | none => (false, firstHashA, firstHashB)
    | some resultHash =>
      if call.argsHash = last then
        match firstHashA with
        | none => evidenceFrom last other rest (some resultHash) firstHashB
        | some first =>
          if first ≠ resultHash then (false, firstHashA, firstHashB)
          else evidenceFrom last other rest firstHashA firstHashB
      else if call.argsHash = other then
        match firstHashB with
        | none => evidenceFrom last other rest firstHashA (some resultHash)
        | some first =>
          if first ≠ resultHash then (false, firstHashA, firstHashB)
          else evidenceFrom last other rest firstHashA firstHashB
      else (false, firstHashA, firstHashB)

/-- What `getPingPongStreak` returns. -/
structure PingPong where
  count : ℕ
  /-- `pairedToolName` and `pairedSignature`. -/
  paired : Option (String × String)
  noProgressEvidence : Bool

/-- There is no streak. -/
def PingPong.absent : PingPong := ⟨0, none, false⟩

def getPingPongStreak (currentSignature : String) : PingPong :=
  match history.reverse with
  | [] => .absent
  | last :: older =>
    match older.find? fun call => call.argsHash ≠ last.argsHash with
    | none => .absent
    | some call =>
      let otherSignature := call.argsHash
      if otherSignature = "" ∨ call.toolName = "" then .absent
      else
        let alternatingTailCount := alternatingTailFrom last.argsHash otherSignature (last :: older) 0
        if alternatingTailCount < 2 then .absent
        else if currentSignature ≠ otherSignature then .absent
        else
          let tail := history.drop (history.length - alternatingTailCount)
          let evidence := evidenceFrom last.argsHash otherSignature tail none none
          ⟨alternatingTailCount + 1, some (last.toolName, last.argsHash),
            evidence.1 && (evidence.2.1.isSome && evidence.2.2.isSome)⟩

/-! ### Detection -/

inductive LoopDetectorKind where
  | genericRepeat
  | knownPollNoProgress
  | globalCircuitBreaker
  | pingPong
  deriving DecidableEq

/-- What a detection that is `stuck` says. -/
structure Stuck where
  /-- `level` is `critical`; else it is `warning`. -/
  critical : Bool
  detector : LoopDetectorKind
  count : ℕ
  message : String
  pairedToolName : Option String
  warningKey : String
  deriving DecidableEq

def canonicalPairKey (signatureA signatureB : String) : String :=
  if CodeUnits.ofString signatureB < CodeUnits.ofString signatureA then signatureB ++ "|" ++ signatureA
  else signatureA ++ "|" ++ signatureB

/-- The keys of the detectors that count outcomes. -/
def outcomeKey (detector toolName currentHash : String) (latestResultHash : Option String) : String :=
  detector ++ ":" ++ toolName ++ ":" ++ currentHash ++ ":" ++ latestResultHash.getD "none"

/-- `detectToolCallLoop`; none is `{ stuck: false }`. -/
def detectToolCallLoop (toolName : String) (params : Json) : Option Stuck :=
  let resolvedConfig := resolveLoopDetectionConfig config
  if resolvedConfig.enabled = false then none
  else
    let currentHash := hashToolCall env toolName params
    let noProgress := getNoProgressStreak history toolName currentHash
    let noProgressStreak := noProgress.1
    let knownPollTool := isKnownPollToolCall toolName params
    let pingPong := getPingPongStreak history currentHash
    if resolvedConfig.globalCircuitBreakerThreshold ≤ noProgressStreak then
      some ⟨true, .globalCircuitBreaker, noProgressStreak,
        "CRITICAL: " ++ toolName ++ " has repeated identical no-progress outcomes " ++
          toString noProgressStreak ++ " times. Session execution blocked by global circuit breaker to " ++
          "prevent runaway loops.",
        none, outcomeKey "global" toolName currentHash noProgress.2⟩
    else if (knownPollTool && resolvedConfig.knownPollNoProgress) = true ∧
        resolvedConfig.criticalThreshold ≤ noProgressStreak then
      some ⟨true, .knownPollNoProgress, noProgressStreak,
        "CRITICAL: Called " ++ toolName ++ " with identical arguments and no progress " ++
          toString noProgressStreak ++ " times. This appears to be a stuck polling loop. Session " ++
          "execution blocked to prevent resource waste.",
        none, outcomeKey "poll" toolName currentHash noProgress.2⟩
    else if (knownPollTool && resolvedConfig.knownPollNoProgress) = true ∧
        resolvedConfig.warningThreshold ≤ noProgressStreak then
      some ⟨false, .knownPollNoProgress, noProgressStreak,
        "WARNING: You have called " ++ toolName ++ " " ++ toString noProgressStreak ++ " times with " ++
          "identical arguments and no progress. Stop polling and either (1) increase wait time between " ++
          "checks, or (2) report the task as failed if the process is stuck.",
        none, outcomeKey "poll" toolName currentHash noProgress.2⟩
    else
      let pingPongWarningKey :=
        match pingPong.paired with
        | some (_, pairedSignature) => "pingpong:" ++ canonicalPairKey currentHash pairedSignature
        | none => "pingpong:" ++ toolName ++ ":" ++ currentHash
      if (resolvedConfig.pingPong && pingPong.noProgressEvidence) = true ∧
          resolvedConfig.criticalThreshold ≤ pingPong.count then
        some ⟨true, .pingPong, pingPong.count,
          "CRITICAL: You are alternating between repeated tool-call patterns (" ++
            toString pingPong.count ++ " consecutive calls) with no progress. This appears to be a " ++
            "stuck ping-pong loop. Session execution blocked to prevent resource waste.",
          pingPong.paired.map (·.1), pingPongWarningKey⟩
      else if resolvedConfig.pingPong = true ∧ resolvedConfig.warningThreshold ≤ pingPong.count then
        some ⟨false, .pingPong, pingPong.count,
          "WARNING: You are alternating between repeated tool-call patterns (" ++
            toString pingPong.count ++ " consecutive calls). This looks like a ping-pong loop; stop " ++
            "retrying and report the task as failed.",
          pingPong.paired.map (·.1), pingPongWarningKey⟩
      else
        let recentCount :=
          (history.filter fun h => h.toolName = toolName && h.argsHash = currentHash).length
        if (!knownPollTool && resolvedConfig.genericRepeat) = true ∧
            resolvedConfig.warningThreshold ≤ recentCount then
          some ⟨false, .genericRepeat, recentCount,
            "WARNING: You have called " ++ toolName ++ " " ++ toString recentCount ++ " times with " ++
              "identical arguments. If this is not making progress, stop retrying and report the task " ++
              "as failed.",
            none, "generic:" ++ toolName ++ ":" ++ currentHash⟩
        else none

end Foxclaw.Agents.ToolLoop
