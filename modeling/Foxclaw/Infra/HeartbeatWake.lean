import Foxclaw.Lib.JsMap
import Foxclaw.Lib.JsNumber
import Foxclaw.Lib.Runs
import Foxclaw.Lib.Text

/-!
# Heartbeat wakes

This module models `infra/heartbeat-wake.ts`: requests for a heartbeat wait in a map, one
for each target, until a timer fires and passes them to the registered handler.

## The model

The state is the module's variables and what the platform holds for them: the timeouts that
are set (`timeouts`), the timer callbacks that wait for a call of the handler (`batches`),
the disposers handed out, and the calls made so far (`calls`). A handler is known by a
number. A callback runs up to its first `await`, and from each settled call to the next, in
one step; between two steps anything may come, which covers what a handler does before it
returns its promise.
-/

namespace Foxclaw.Infra.HeartbeatWake

/-! ### Reasons and targets -/

inductive HeartbeatReasonKind where
  | retry
  | interval
  /-- Asked for by hand. -/
  | manual
  | execEvent
  | wake
  | cron
  | hook
  | other
  deriving DecidableEq

def startsWith (s start : String) : Bool := start.toList.isPrefixOf s.toList

variable (reason : Option String)

def trimReason : String := Text.trimString (reason.getD "")

def normalizeHeartbeatWakeReason : String :=
  let trimmed := trimReason reason
  if trimmed ≠ "" then trimmed else "requested"

def resolveHeartbeatReasonKind : HeartbeatReasonKind :=
  let trimmed := trimReason reason
  if trimmed = "retry" then .retry
  else if trimmed = "interval" then .interval
  else if trimmed = "manual" then .manual
  else if trimmed = "exec-event" then .execEvent
  else if trimmed = "wake" then .wake
  else if startsWith trimmed "acp:spawn:" then .wake
  else if startsWith trimmed "cron:" then .cron
  else if startsWith trimmed "hook:" then .hook
  else .other

def isHeartbeatActionWakeReason : Bool :=
  let kind := resolveHeartbeatReasonKind reason
  kind = .manual || kind = .execEvent || kind = .hook

/-- `resolveReasonPriority`, with the values of `REASON_PRIORITY`. -/
def resolveReasonPriority (reason : String) : ℕ :=
  let kind := resolveHeartbeatReasonKind (some reason)
  if kind = .retry then 0
  else if kind = .interval then 1
  else if isHeartbeatActionWakeReason (some reason) then 3
  else 2

def normalizeWakeTarget (value : Option String) : Option String :=
  let trimmed := Text.trimString (value.getD "")
  if trimmed ≠ "" then some trimmed else none

def getWakeTargetKey (agentId sessionKey : Option String) : String :=
  (normalizeWakeTarget agentId).getD "" ++ "::" ++ (normalizeWakeTarget sessionKey).getD ""

/-! ### The state -/

inductive WakeTimerKind where
  | normal
  | retry
  deriving DecidableEq

structure PendingWakeReason where
  reason : String
  priority : ℕ
  requestedAt : ℚ
  agentId : Option String
  sessionKey : Option String
  deriving DecidableEq

/-- The key of a wake's target. -/
def PendingWakeReason.targetKey (w : PendingWakeReason) : String :=
  getWakeTargetKey w.agentId w.sessionKey

inductive HeartbeatRunResult where
  | ran (durationMs : JsNumber)
  | skipped (reason : String)
  | failed (reason : String)
  deriving DecidableEq

/-- How a call of a handler settles. -/
inductive Outcome where
  | returned (res : HeartbeatRunResult)
  /-- The call throws, or the promise is rejected. -/
  | threw
  deriving DecidableEq

/-- A handler, known by a number. -/
abbrev Handler := ℕ

/-- A call of a handler. -/
structure Call where
  handler : Handler
  /-- `opts.reason`. -/
  reason : String
  /-- `opts.agentId`. -/
  agentId : Option String
  /-- `opts.sessionKey`. -/
  sessionKey : Option String
  deriving DecidableEq

/-- The key of the target a call is for. -/
def Call.targetKey (c : Call) : String := getWakeTargetKey c.agentId c.sessionKey

/-- A timeout that is set: what its callback has captured. -/
structure Timeout where
  /-- What `setTimeout` returned. -/
  id : ℕ
  delay : ℚ
  kind : WakeTimerKind
  deriving DecidableEq

/-- A timer callback that waits for the handler. -/
structure Batch where
  active : Handler
  delay : ℚ
  /-- The wakes of `pendingBatch` whose calls have resolved. -/
  settled : List PendingWakeReason
  /-- The wake the handler has been called with. -/
  current : PendingWakeReason
  rest : List PendingWakeReason
  deriving DecidableEq

def Batch.pendingBatch (b : Batch) : List PendingWakeReason := b.settled ++ b.current :: b.rest

/-- The module's variables, and what the platform holds. -/
structure State where
  handler : Option Handler
  handlerGeneration : ℕ
  pendingWakes : JsMap String PendingWakeReason
  scheduled : Bool
  running : Bool
  timer : Option ℕ
  timerDueAt : Option ℚ
  timerKind : Option WakeTimerKind
  /-- The timeouts that are set: neither fired nor cleared. -/
  timeouts : List Timeout
  /-- What `setTimeout` returns next. -/
  nextTimeout : ℕ
  /-- The callbacks that wait for their handler. -/
  batches : List Batch
  /-- The disposers: `generation` and `next`. -/
  disposers : List (ℕ × Option Handler)
  calls : List Call
  deriving DecidableEq

def init : State :=
  ⟨none, 0, .empty, false, false, none, none, none, [], 0, [], [], []⟩

/-! ### The functions -/

def DEFAULT_COALESCE_MS : ℚ := 250

def DEFAULT_RETRY_MS : ℚ := 1000

/-- Does the new reason take the place of the one that waits? -/
def replaces (wake previous : PendingWakeReason) : Bool :=
  wake.priority > previous.priority ||
    (wake.priority = previous.priority && wake.requestedAt ≥ previous.requestedAt)

variable (now : ℚ)

/-- The entry `queuePendingWakeReason` makes. -/
def mkWake (reason agentId sessionKey : Option String) : PendingWakeReason :=
  let normalizedReason := normalizeHeartbeatWakeReason reason
  { reason := normalizedReason
    priority := resolveReasonPriority normalizedReason
    requestedAt := now
    agentId := normalizeWakeTarget agentId
    sessionKey := normalizeWakeTarget sessionKey }

/-- The map after `queuePendingWakeReason`. -/
def putWake (pendingWakes : JsMap String PendingWakeReason) (wake : PendingWakeReason) :
    JsMap String PendingWakeReason :=
  match pendingWakes.get? wake.targetKey with
  | none => pendingWakes.set wake.targetKey wake
  | some previous =>
    if replaces wake previous then pendingWakes.set wake.targetKey wake else pendingWakes

def queuePendingWakeReason (reason agentId sessionKey : Option String) (s : State) : State :=
  { s with pendingWakes := putWake s.pendingWakes (mkWake now reason agentId sessionKey) }

/-- `clearTimeout(timer)`, and the three variables of the timer. -/
def clearTimer (s : State) : State :=
  { s with
    timeouts := s.timeouts.filter fun τ => some τ.id ≠ s.timer
    timer := none
    timerDueAt := none
    timerKind := none }

/-- `setTimeout`, and the three variables of the timer. -/
def setTimer (dueAt delay : ℚ) (kind : WakeTimerKind) (s : State) : State :=
  { s with
    timeouts := s.timeouts ++ [⟨s.nextTimeout, delay, kind⟩]
    nextTimeout := s.nextTimeout + 1
    timer := some s.nextTimeout
    timerDueAt := some dueAt
    timerKind := some kind }

/-- The delay of a timer. -/
def resolveDelay : JsNumber → ℚ
  | .fin q => max 0 q
  | _ => DEFAULT_COALESCE_MS

/-- `typeof timerDueAt === "number" && timerDueAt <= dueAt`. -/
def firesBy (timerDueAt : Option ℚ) (dueAt : ℚ) : Bool :=
  match timerDueAt with
  | some t => t ≤ dueAt
  | none => false

def schedule (coalesceMs : JsNumber) (kind : WakeTimerKind) (s : State) : State :=
  let delay := resolveDelay coalesceMs
  let dueAt := now + delay
  if s.timer.isSome then
    if s.timerKind = some .retry then s
    else if firesBy s.timerDueAt dueAt then s
    else setTimer dueAt delay kind (clearTimer s)
  else setTimer dueAt delay kind s

/-- The call of the handler for a wake. -/
def callFor (active : Handler) (w : PendingWakeReason) : Call :=
  ⟨active, w.reason, w.agentId, w.sessionKey⟩

/-- A wake is put back. -/
def putBack (s : State) (w : PendingWakeReason) : State :=
  queuePendingWakeReason now (some w.reason) w.agentId w.sessionKey s

/-- The `finally` block. -/
def finishBatch (now delay : ℚ) (s : State) : State :=
  let s := { s with running := false }
  if 0 < s.pendingWakes.size ∨ s.scheduled = true then schedule now (.fin delay) .normal s else s

/-- The loop goes on with the wakes that are left: the handler is called with the next one,
or the callback ends. -/
def advance (active : Handler) (delay : ℚ) (settled todo : List PendingWakeReason) (s : State) : State :=
  match todo with
  | [] => finishBatch now delay s
  | w :: rest =>
    { s with
      calls := s.calls ++ [callFor active w]
      batches := s.batches ++ [⟨active, delay, settled, w, rest⟩] }

/-- The callback of a timer, up to its first `await`. -/
def timerFires (τ : Timeout) (s : State) : State :=
  let s :=
    { s with
      timeouts := s.timeouts.erase τ
      timer := none
      timerDueAt := none
      timerKind := none
      scheduled := false }
  match s.handler with
  | none => s
  | some active =>
    if s.running then schedule now (.fin τ.delay) τ.kind { s with scheduled := true }
    else
      advance now active τ.delay [] s.pendingWakes.values
        { s with pendingWakes := .empty, running := true }

/-- The body of the loop after `await active(wakeOpts)`. -/
def afterCall (w : PendingWakeReason) (res : HeartbeatRunResult) (s : State) : State :=
  if res = .skipped "requests-in-flight" then
    schedule now (.fin DEFAULT_RETRY_MS) .retry (putBack now s w)
  else s

/-- The `catch` block. -/
def catchBatch (b : Batch) (s : State) : State :=
  schedule now (.fin DEFAULT_RETRY_MS) .retry (b.pendingBatch.foldl (putBack now) s)

/-- The call a batch waits for has settled. -/
def callSettles (b : Batch) (outcome : Outcome) (s : State) : State :=
  let s := { s with batches := s.batches.erase b }
  match outcome with
  | .returned res =>
    advance now b.active b.delay (b.settled ++ [b.current]) b.rest (afterCall now b.current res s)
  | .threw => finishBatch now b.delay (catchBatch now b s)

def setHeartbeatWakeHandler (next : Option Handler) (s : State) : State :=
  let s :=
    { s with
      handlerGeneration := s.handlerGeneration + 1
      handler := next
      disposers := s.disposers ++ [(s.handlerGeneration + 1, next)] }
  let s := if next.isSome then { clearTimer s with running := false, scheduled := false } else s
  if s.handler.isSome ∧ 0 < s.pendingWakes.size then
    schedule now (.fin DEFAULT_COALESCE_MS) .normal s
  else s

/-- A disposer is called. -/
def dispose (generation : ℕ) (next : Option Handler) (s : State) : State :=
  if s.handlerGeneration ≠ generation then s
  else if s.handler ≠ next then s
  else { s with handlerGeneration := s.handlerGeneration + 1, handler := none }

/-- What `requestHeartbeatNow` is called with. -/
structure WakeRequest where
  reason : Option String
  coalesceMs : Option JsNumber
  agentId : Option String
  sessionKey : Option String

def requestHeartbeatNow (opts : WakeRequest) (s : State) : State :=
  schedule now (opts.coalesceMs.getD (.fin DEFAULT_COALESCE_MS)) .normal
    (queuePendingWakeReason now opts.reason opts.agentId opts.sessionKey s)

/-! ### Runs -/

/-- What can happen; `now` is what the clock shows then. -/
inductive Action where
  /-- `requestHeartbeatNow`. -/
  | request (now : ℚ) (opts : WakeRequest)
  | fire (now : ℚ) (τ : Timeout)
  | settle (now : ℚ) (b : Batch) (outcome : Outcome)
  /-- `setHeartbeatWakeHandler`. -/
  | setHandler (now : ℚ) (next : Option Handler)
  | dispose (generation : ℕ) (next : Option Handler)

def next (s : State) : Action → Option State
  | .request now opts => some (requestHeartbeatNow now opts s)
  | .fire now τ => if τ ∈ s.timeouts then some (timerFires now τ s) else none
  | .settle now b outcome => if b ∈ s.batches then some (callSettles now b outcome s) else none
  | .setHandler now handler => some (setHeartbeatWakeHandler now handler s)
  | .dispose generation handler =>
    if (generation, handler) ∈ s.disposers then some (dispose generation handler s) else none

end Foxclaw.Infra.HeartbeatWake
