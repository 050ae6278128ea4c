import Foxclaw.Lib.Runs
import Foxclaw.Utils.QueueHelpers

/-!
# The followup queue

This module models `auto-reply/reply/queue`: messages that arrive while an agent is busy wait
in a queue of their session key (`enqueue.ts`, `state.ts`), and a drain passes them to
`runFollowup` (`drain.ts`).

## The model

The queue of one key, with its drain. The drain is a coroutine that waits for the debounce
or for `runFollowup`; anything may be enqueued while it waits (`Drain`). One step (`next`)
is a call of `enqueueFollowupRun` or `scheduleFollowupDrain`, the end of the wait for the
debounce, or the end of a run, which resolves or rejects. Between two waits the code is
synchronous. A queue is draining just while it has a drain. The await between the check of a
batch and the batch is left out here; `FollowupDestinations` has it.

Each accepted item is numbered. What becomes of it is recorded in `accepted`, `dropped` and
`passed`, which no step reads.

The cache of recent message ids is shared by all queues; whether it has the id of a
message is given with the call (`recent`), as are the channels that can be routed to
(`isRoutableChannel`). The debounce may take any time, so its length is left out, as are the
time an item was enqueued at and the log.
-/

namespace Foxclaw.AutoReply.FollowupQueue

open Text Foxclaw.Runs Foxclaw.Utils

inductive QueueMode where
  | steer
  | followup
  | collect
  | steerBacklog
  | interrupt
  | queue
  deriving DecidableEq

inductive QueueDedupeMode where
  | messageId
  | prompt
  | none
  deriving DecidableEq

structure QueueSettings where
  mode : QueueMode
  cap : Option JsNumber
  dropPolicy : Option QueueDropPolicy

/-- A thread id: a number or a text. -/
inductive ThreadId where
  | num (n : ℤ)
  | text (s : String)
  deriving DecidableEq

/-- Where a message came from, and where the reply goes. -/
structure Routing where
  originatingChannel : Option String
  originatingTo : Option String
  originatingAccountId : Option String
  originatingThreadId : Option ThreadId
  deriving DecidableEq

/-- `FollowupRun`; `ρ` is the type of the settings of the run. -/
structure FollowupRun (ρ : Type) where
  prompt : String
  /-- The id the channel gave the message. -/
  messageId : Option String
  /-- A line that sums the message up. -/
  summaryLine : Option String
  routing : Routing
  run : ρ

/-- An accepted item, with its number. -/
structure Item (ρ : Type) where
  id : ℕ
  message : FollowupRun ρ

/-- What the drain waits for. -/
inductive Drain where
  /-- The debounce; `force` is `forceIndividualCollect`. -/
  | debounce (force : Bool)
  /-- A call of `runFollowup`, which passed the items numbered `passing`. When it resolves,
  `count` items leave the front of the queue, and the summary is cleared if `clear`. -/
  | running (force : Bool) (passing : List ℕ) (count : ℕ) (clear : Bool)
  deriving DecidableEq

structure FollowupQueueState (ρ : Type) extends QueueState (Item ρ) where
  mode : QueueMode
  /-- The settings of the last message. -/
  lastRun : Option ρ
  /-- The drain, while the queue is draining. -/
  drain : Option Drain

/-- The queue of a key, if there is one, and the record of what happened. -/
structure State (ρ : Type) where
  queue : Option (FollowupQueueState ρ)
  /-- A drain was started for the key, whose `runFollowup` is kept. -/
  hasCallback : Bool
  nextId : ℕ
  accepted : List ℕ
  /-- The items dropped by the drop policy. -/
  dropped : List ℕ
  /-- The items passed to `runFollowup`, call after call. -/
  passed : List ℕ
  /-- The messages passed to `runFollowup`. -/
  calls : List (FollowupRun ρ)

def State.init {ρ : Type} : State ρ := ⟨none, false, 0, [], [], [], []⟩

section Settings

variable {ρ : Type}

def defaultQueueCap : JsNumber := .ofNat 20

def defaultQueueDrop : QueueDropPolicy := .summarize

/-- The cap of the settings, if it is positive. -/
def QueueSettings.cap? (settings : QueueSettings) : Option JsNumber :=
  (settings.cap.filter fun cap => (JsNumber.ofNat 0).lt cap).map JsNumber.floor

def applyQueueRuntimeSettings (target : FollowupQueueState ρ) (settings : QueueSettings) :
    FollowupQueueState ρ :=
  { target with
    mode := settings.mode
    cap := settings.cap?.getD target.cap
    dropPolicy := settings.dropPolicy.getD target.dropPolicy }

/-- A queue as `getFollowupQueue` creates it. -/
def createQueue (settings : QueueSettings) : FollowupQueueState ρ :=
  { items := []
    cap := settings.cap?.getD defaultQueueCap
    dropPolicy := settings.dropPolicy.getD defaultQueueDrop
    droppedCount := 0
    summaryLines := []
    mode := settings.mode
    lastRun := none
    drain := none }

def getFollowupQueue (s : State ρ) (settings : QueueSettings) : FollowupQueueState ρ :=
  applyQueueRuntimeSettings (s.queue.getD (createQueue settings)) settings

end Settings

/-! ### Routing -/

section Routing

variable {ρ : Type} (isRoutableChannel : String → Bool)

/-- A text that is there and not empty. -/
def nonEmpty (s : Option String) : Option String := s.filter (· ≠ "")

/-- `String(threadId)`, of one that is there and not empty. -/
def threadKey : Option ThreadId → Option String
  | some (.num n) => some (toString n)
  | some (.text s) => nonEmpty (some s)
  | none => none

def resolveCrossChannelKey (item : Item ρ) : CrossChannelKey :=
  let r := item.message.routing
  if (nonEmpty r.originatingChannel).isNone && (nonEmpty r.originatingTo).isNone &&
      (nonEmpty r.originatingAccountId).isNone && (threadKey r.originatingThreadId).isNone then
    ⟨false, none⟩
  else match r.originatingChannel.filter isRoutableChannel, nonEmpty r.originatingTo with
    | some channel, some target =>
        ⟨false, some ("|".intercalate [channel, target, r.originatingAccountId.getD "",
          (threadKey r.originatingThreadId).getD ""])⟩
    | _, _ => ⟨true, none⟩

/-- `resolveOriginRoutingMetadata`: each part from the first item that has it. -/
def resolveOriginRoutingMetadata (items : List (Item ρ)) : Routing where
  originatingChannel := items.findSome? fun item => nonEmpty item.message.routing.originatingChannel
  originatingTo := items.findSome? fun item => nonEmpty item.message.routing.originatingTo
  originatingAccountId :=
    items.findSome? fun item => nonEmpty item.message.routing.originatingAccountId
  originatingThreadId := items.findSome? fun item =>
    item.message.routing.originatingThreadId.filter fun id => (threadKey (some id)).isSome

end Routing

/-! ### Enqueueing -/

section Enqueue

variable {ρ : Type}

def isRunAlreadyQueued (run : FollowupRun ρ) (items : List (Item ρ)) (allowPromptFallback : Bool) : Bool :=
  match nonEmpty (run.messageId.map trimString) with
  | some messageId => items.any fun item =>
      item.message.messageId.map trimString = some messageId && item.message.routing = run.routing
  | none => allowPromptFallback &&
      items.any fun item => item.message.prompt = run.prompt && item.message.routing = run.routing

/-- `shouldSkipQueueItem`, or the id of the message was seen lately. -/
def isDuplicate (run : FollowupRun ρ) (items : List (Item ρ)) (dedupeMode : QueueDedupeMode)
    (recent : Bool) : Bool :=
  match dedupeMode with
  | .none => false
  | mode => recent && (nonEmpty (run.messageId.map trimString)).isSome ||
      isRunAlreadyQueued run items (mode = .prompt)

/-- What stands for an item in a summary. -/
def summarize (item : Item ρ) : String :=
  (nonEmpty (item.message.summaryLine.map trimString)).getD (trimString item.message.prompt)

/-- The queue with the message joined to it, if the drop policy lets it, and the items dropped. -/
def joinQueue (queue : FollowupQueueState ρ) (id : ℕ) (run : FollowupRun ρ) :
    Option (FollowupQueueState ρ × List ℕ) :=
  let queue := { queue with lastRun := some run.run }
  let r := applyQueueDropPolicy queue.toQueueState summarize
  if r.1 then
    some ({ queue with toQueueState := { r.2.1 with items := r.2.1.items ++ [⟨id, run⟩] } },
      r.2.2.map (·.id))
  else none

end Enqueue

/-! ### The drain -/

section Drain

variable {ρ : Type}

variable (s : State ρ)

/-- The queue goes on draining, or is deleted when there is nothing left to do. -/
def settleDrain (queue : FollowupQueueState ρ) (force : Bool) : State ρ :=
  if queue.items = [] ∧ queue.droppedCount = 0 then { s with queue := none }
  else { s with queue := some { queue with drain := some (.debounce force) } }

/-- The head of the loop: the wait for the debounce, or the `finally` of an idle drain. -/
def loopHead (queue : FollowupQueueState ρ) (force : Bool) : State ρ :=
  settleDrain s queue force

/-- The `finally` of a drain that left the loop or failed: a new drain begins if there is
something left. -/
def finishDrain (queue : FollowupQueueState ρ) : State ρ := settleDrain s queue false

def scheduleFollowupDrain : State ρ :=
  match s.queue with
  | some queue =>
      if queue.drain.isSome then s else loopHead { s with hasCallback := true } queue false
  | none => s

/-- `enqueueFollowupRun`: the message was accepted, or not. -/
def enqueueFollowupRun (run : FollowupRun ρ) (settings : QueueSettings)
    (dedupeMode : QueueDedupeMode) (recent : Bool) : State ρ × Bool :=
  let queue := getFollowupQueue s settings
  if isDuplicate run queue.items dedupeMode recent then ({ s with queue := some queue }, false)
  else match joinQueue queue s.nextId run with
    | none => ({ s with queue := some { queue with lastRun := some run.run } }, false)
    | some (queue, dropped) =>
        let s := { s with
          queue := some queue
          nextId := s.nextId + 1
          accepted := s.accepted ++ [s.nextId]
          dropped := s.dropped ++ dropped }
        -- `kickFollowupDrainIfIdle`
        (if queue.drain.isNone && s.hasCallback then scheduleFollowupDrain s else s, true)

/-- A call of `runFollowup` begins. -/
def callRun (queue : FollowupQueueState ρ) (message : FollowupRun ρ) (force : Bool)
    (passing : List ℕ) (count : ℕ) (clear : Bool) : State ρ :=
  { s with
    queue := some { queue with drain := some (.running force passing count clear) }
    passed := s.passed ++ passing
    calls := s.calls ++ [message] }

/-- `drainNextQueueItem` with `runFollowup`: pass the first item, or leave the loop. -/
def drainNext (queue : FollowupQueueState ρ) (force : Bool) : State ρ :=
  match queue.items with
  | [] => finishDrain s queue
  | item :: _ => callRun s queue item.message force [item.id] 1 false

variable (isRoutableChannel : String → Bool)

/-- One turn of the loop in the mode `collect`: items of several channels are passed one by
one from then on, others together. -/
def drainCollect (s : State ρ) (queue : FollowupQueueState ρ) (force : Bool) : State ρ :=
  let isCrossChannel := hasCrossChannelItems queue.items (resolveCrossChannelKey isRoutableChannel)
  if force || isCrossChannel then drainNext s queue (force || isCrossChannel)
  else
    let summary := previewQueueSummaryPrompt queue.toQueueState "message"
    match (queue.items.getLast?.map (·.message.run)).or queue.lastRun with
    | none => finishDrain s queue
    | some run =>
        let prompt := buildCollectPrompt "[Queued messages while agent was busy]" queue.items summary
          fun item idx =>
            trimString ("---\nQueued #" ++ toString (idx + 1) ++ "\n" ++ item.message.prompt)
        callRun s queue ⟨prompt, none, none, resolveOriginRoutingMetadata queue.items, run⟩ force
          (queue.items.map (·.id)) queue.items.length summary.isSome

/-- One turn of the loop in another mode: the summary of what was dropped is passed in place of
the first item. -/
def drainSingle (queue : FollowupQueueState ρ) (force : Bool) : State ρ :=
  match previewQueueSummaryPrompt queue.toQueueState "message" with
  | some summaryPrompt => match queue.lastRun, queue.items with
    | some run, item :: _ =>
        callRun s queue ⟨summaryPrompt, none, none, item.message.routing, run⟩ force [] 1 true
    | _, _ => finishDrain s queue
  | none => drainNext s queue force

/-- One turn of the loop, after the debounce. -/
def drainTurn (s : State ρ) (queue : FollowupQueueState ρ) (force : Bool) : State ρ :=
  if queue.mode = .collect then drainCollect isRoutableChannel s queue force
  else drainSingle s queue force

/-- The call of `runFollowup` resolved. -/
def runResolved (queue : FollowupQueueState ρ) (force : Bool) (count : ℕ) (clear : Bool) : State ρ :=
  let queue := { queue with items := queue.items.drop count }
  let queue := if clear then { queue with droppedCount := 0, summaryLines := [] } else queue
  loopHead s queue force

/-- The call of `runFollowup` rejected: its items stay in the queue. -/
def runRejected (queue : FollowupQueueState ρ) : State ρ := finishDrain s queue

end Drain

/-- A choice of the environment. -/
inductive Action (ρ : Type) where
  | enqueue (run : FollowupRun ρ) (settings : QueueSettings) (dedupeMode : QueueDedupeMode)
      (recent : Bool)
  /-- `scheduleFollowupDrain` is called. -/
  | schedule
  /-- The wait for the debounce is over. -/
  | debounced
  /-- The call of `runFollowup` resolves, or rejects. -/
  | settled (ok : Bool)

def next {ρ : Type} (isRoutableChannel : String → Bool) (s : State ρ) : Action ρ → Option (State ρ)
  | .enqueue run settings dedupeMode recent =>
      some (enqueueFollowupRun s run settings dedupeMode recent).1
  | .schedule => some (scheduleFollowupDrain s)
  | .debounced => match s.queue with
    | some queue => match queue.drain with
      | some (.debounce force) => some (drainTurn isRoutableChannel s queue force)
      | _ => none
    | none => none
  | .settled ok => match s.queue with
    | some queue => match queue.drain with
      | some (.running force _ count clear) =>
          some (if ok then runResolved s queue force count clear else runRejected s queue)
      | _ => none
    | none => none

end Foxclaw.AutoReply.FollowupQueue
