import Foxclaw.AutoReply.FollowupQueue

/-!
# The announce queue of subagents

This module models `agents/subagent-announce-queue.ts`: announcements of subagents that have ended
wait in a queue while the agent that asked for them is busy, and a drain sends them.

## The model

The queue of one key, with its drain. The drain is a coroutine that waits for the debounce or for
`send`; anything may be enqueued while it waits (`Drain`). The clock is part of each step, and
a number of milliseconds is rational. A queue is draining just while it has a drain. Nothing is
enqueued in the short await between the check for several channels and the slice of the items that
are collected.

Each accepted item is numbered. What becomes of it is recorded beside the queue (`accepted`,
`dropped`, `delivered`), which no step reads: for a dropped item, whether its summary line still
waits (`lineIds`) or was cut because too many wait (`cut`). `utils/delivery-context.ts` is a
parameter (`Origins`), as are the fields of an item that are only passed on.
-/

namespace Foxclaw.Agents.AnnounceQueue

open Text Foxclaw.Runs Foxclaw.Utils
open Foxclaw.AutoReply.FollowupQueue (QueueMode nonEmpty)

/-- `AnnounceQueueItem`, as the caller gives it; `ω` is the type of origins, `ε` that of internal
events and `ρ` that of the other fields. -/
structure AnnounceQueueItem (ω ε ρ : Type) where
  prompt : String
  summaryLine : Option String
  internalEvents : Option (List ε)
  origin : Option ω
  originKey : Option String
  rest : ρ

/-- What is used of `utils/delivery-context.ts`. -/
structure Origins (ω : Type) where
  normalizeDeliveryContext : Option ω → Option ω
  deliveryContextKey : Option ω → Option String

structure AnnounceQueueSettings where
  mode : QueueMode
  /-- How long nothing may have been enqueued before a send. -/
  debounceMs : Option ℚ
  cap : Option JsNumber
  dropPolicy : Option QueueDropPolicy

/-- An accepted item, with its number. -/
structure Item (ω ε ρ : Type) where
  id : ℕ
  announce : AnnounceQueueItem ω ε ρ

/-- What a send is of. -/
inductive Sending where
  | single
  /-- The first `count` items, with the summary or without. -/
  | collected (count : ℕ) (withSummary : Bool)
  /-- The summary, in place of the first item. -/
  | summaryInPlace
  deriving DecidableEq

/-- How many items leave the queue when the send resolves. -/
def Sending.count : Sending → ℕ
  | .collected count _ => count
  | _ => 1

/-- Is the summary cleared when the send resolves? -/
def Sending.clears : Sending → Bool
  | .single => false
  | .collected _ withSummary => withSummary
  | .summaryInPlace => true

/-- What the drain waits for. -/
inductive Drain where
  /-- The debounce; `force` is `forceIndividualCollect`. -/
  | debounce (force : Bool) (debounceMs : ℚ)
  /-- A call of `send` with the prompt; `overtaken` if items were dropped since it began. -/
  | sending (force : Bool) (what : Sending) (prompt : String) (overtaken : Bool)
  deriving DecidableEq

structure AnnounceQueueState (ω ε ρ : Type) extends QueueState (Item ω ε ρ) where
  /-- When something was enqueued last; later after a failure. -/
  lastEnqueuedAt : ℚ
  mode : QueueMode
  /-- How long nothing may have been enqueued before a send. -/
  debounceMs : ℚ
  /-- How many drains failed one after the other. -/
  consecutiveFailures : ℕ
  /-- The drain, while the queue is draining. -/
  drain : Option Drain

/-- A dropped item. -/
structure Dropped where
  id : ℕ
  /-- Its line, when the policy was to summarize. -/
  line : Option String
  delivered : ℕ
  deriving DecidableEq

/-- The queue of the key, if there is one, and the record of what happened. -/
structure State (ω ε ρ : Type) where
  queue : Option (AnnounceQueueState ω ε ρ)
  /-- The items accepted; the number of an item is its place. -/
  accepted : List (AnnounceQueueItem ω ε ρ)
  /-- The items dropped by the drop policy. -/
  dropped : List Dropped
  /-- The numbers of the dropped items whose lines wait in the summary. -/
  lineIds : List ℕ
  /-- The numbers of the dropped items whose lines were cut. -/
  cut : List ℕ
  /-- The items with which `send` was called. -/
  sends : List (AnnounceQueueItem ω ε ρ)
  /-- The sends that resolved: what they were of, and their prompts. -/
  delivered : List (Sending × String)

variable {ω ε ρ : Type}

def State.init : State ω ε ρ := ⟨none, [], [], [], [], [], []⟩

/-! ### Enqueueing -/

/-- `Math.max(0, settings.debounceMs)`, if it is given. -/
def AnnounceQueueSettings.debounce? (settings : AnnounceQueueSettings) : Option ℚ :=
  settings.debounceMs.map (max 0)

/-- The cap of the settings, if it is positive. -/
def AnnounceQueueSettings.cap? (settings : AnnounceQueueSettings) : Option JsNumber :=
  (settings.cap.filter fun cap => (JsNumber.ofNat 0).lt cap).map JsNumber.floor

def applyQueueRuntimeSettings (target : AnnounceQueueState ω ε ρ)
    (settings : AnnounceQueueSettings) : AnnounceQueueState ω ε ρ :=
  { target with
    mode := settings.mode
    debounceMs := settings.debounce?.getD target.debounceMs
    cap := settings.cap?.getD target.cap
    dropPolicy := settings.dropPolicy.getD target.dropPolicy }

/-- A queue as `getAnnounceQueue` creates it. -/
def createQueue (settings : AnnounceQueueSettings) : AnnounceQueueState ω ε ρ :=
  { items := []
    lastEnqueuedAt := 0
    mode := settings.mode
    debounceMs := settings.debounce?.getD 1000
    cap := settings.cap?.getD (.ofNat 20)
    dropPolicy := settings.dropPolicy.getD .summarize
    droppedCount := 0
    summaryLines := []
    consecutiveFailures := 0
    drain := none }

variable (s : State ω ε ρ)

def getAnnounceQueue (settings : AnnounceQueueSettings) : AnnounceQueueState ω ε ρ :=
  applyQueueRuntimeSettings (s.queue.getD (createQueue settings)) settings

/-- What stands for an item in a summary. -/
def summarize (item : Item ω ε ρ) : String :=
  (nonEmpty (item.announce.summaryLine.map trimString)).getD
    (trimString item.announce.prompt)

/-- The wait for the debounce begins. -/
def waitForQueueDebounce (queue : AnnounceQueueState ω ε ρ) (force : Bool) : State ω ε ρ :=
  { s with queue := some { queue with drain := some (.debounce force (max 0 queue.debounceMs)) } }

/-- The head of the loop, at the start of a drain: the wait for the debounce, or, when nothing is
left, the `finally` block, which deletes the queue. -/
def loopHead (queue : AnnounceQueueState ω ε ρ) (force : Bool) : State ω ε ρ :=
  if queue.items = [] ∧ queue.droppedCount = 0 then { s with queue := none }
  else waitForQueueDebounce s queue force

def scheduleAnnounceDrain : State ω ε ρ :=
  match s.queue with
  | none => s
  | some queue => if queue.drain.isSome then s else loopHead s queue false

/-- A send in flight is overtaken when items are dropped. -/
def Drain.overtake (drop : Bool) : Drain → Drain
  | .sending force what prompt overtaken => .sending force what prompt (overtaken || drop)
  | drain => drain

/-- The item joins the queue, and the record; `r` is what the drop policy says. -/
def joinQueue (queue : AnnounceQueueState ω ε ρ) (r : Bool × QueueState (Item ω ε ρ) × List (Item ω ε ρ))
    (item : AnnounceQueueItem ω ε ρ) : State ω ε ρ :=
  let summarized : Bool := queue.dropPolicy = .summarize
  let lineIds := if summarized then s.lineIds ++ r.2.2.map (·.id) else s.lineIds
  -- the lines that wait are the last ones
  let waiting := lineIds.length - r.2.1.summaryLines.length
  { s with
    queue := some { queue with
      toQueueState := { r.2.1 with items := r.2.1.items ++ [⟨s.accepted.length, item⟩] }
      drain := queue.drain.map (Drain.overtake (r.2.2 ≠ [])) }
    accepted := s.accepted ++ [item]
    dropped := s.dropped ++ r.2.2.map fun dropped =>
      ⟨dropped.id, if summarized then some (buildQueueSummaryLine (summarize dropped)) else none,
        s.delivered.length⟩
    lineIds := lineIds.drop waiting
    cut := s.cut ++ lineIds.take waiting }

variable (origins : Origins ω)

/-- `enqueueAnnounce` into the queue that was found: the state after, and whether the item was
accepted. -/
def enqueueInto (s : State ω ε ρ) (queue : AnnounceQueueState ω ε ρ)
    (item : AnnounceQueueItem ω ε ρ) : State ω ε ρ × Bool :=
  let r := applyQueueDropPolicy queue.toQueueState summarize
  if r.1 then
    let origin := origins.normalizeDeliveryContext item.origin
    let item := { item with origin := origin, originKey := origins.deliveryContextKey origin }
    (scheduleAnnounceDrain (joinQueue s queue r item), true)
  else
    let s := { s with queue := some queue }
    (if queue.dropPolicy = .new then scheduleAnnounceDrain s else s, false)

def enqueueAnnounce (s : State ω ε ρ) (now : ℚ)
    (item : AnnounceQueueItem ω ε ρ) (settings : AnnounceQueueSettings) : State ω ε ρ × Bool :=
  let queue := getAnnounceQueue s settings
  enqueueInto origins s { queue with lastEnqueuedAt := max queue.lastEnqueuedAt now } item

/-! ### The drain -/

/-- The loop is left by `break`: the failures are forgotten, and in the `finally` block a new drain
begins if there is something left. -/
def leaveLoop (queue : AnnounceQueueState ω ε ρ) : State ω ε ρ :=
  loopHead s { queue with consecutiveFailures := 0 } false

/-- A call of `send` begins. -/
def callSend (queue : AnnounceQueueState ω ε ρ) (force : Bool) (what : Sending)
    (item : AnnounceQueueItem ω ε ρ) : State ω ε ρ :=
  { s with
    queue := some { queue with drain := some (.sending force what item.prompt false) }
    sends := s.sends ++ [item] }

/-- `drainNextQueueItem` with `send`: send the first item, or leave the loop. -/
def drainNextQueueItem (queue : AnnounceQueueState ω ε ρ) (force : Bool) : State ω ε ρ :=
  match queue.items with
  | [] => leaveLoop s queue
  | item :: _ => callSend s queue force .single item.announce

def hasAnnounceCrossChannelItems (items : List (Item ω ε ρ)) : Bool :=
  hasCrossChannelItems items fun item =>
    if item.announce.origin.isNone then ⟨false, none⟩
    else match nonEmpty item.announce.originKey with
      | none => ⟨true, none⟩
      | some key => ⟨false, some key⟩

/-- How an item is written in a collected prompt. -/
def renderItem (item : Item ω ε ρ) (idx : ℕ) : String :=
  trimString ("---\nQueued #" ++ toString (idx + 1) ++ "\n" ++ item.announce.prompt)

/-- The prompt for all the items. -/
def collectPrompt (items : List (Item ω ε ρ)) (summary : Option String) : String :=
  buildCollectPrompt "[Queued announce messages while agent was busy]" items summary renderItem

/-- The announcement that is sent for all the items: the last of them with the prompt and the events
of all. -/
def collectedItem (items : List (Item ω ε ρ)) (summary : Option String) (last : Item ω ε ρ) :
    AnnounceQueueItem ω ε ρ :=
  let internalEvents := items.flatMap fun item => item.announce.internalEvents.getD []
  { last.announce with
    prompt := collectPrompt items summary
    internalEvents := if internalEvents ≠ [] then some internalEvents else last.announce.internalEvents }

/-- One turn of the loop in the mode `collect`: items of several channels are sent one by one
from then on, others together. -/
def drainCollect (queue : AnnounceQueueState ω ε ρ) (force : Bool) : State ω ε ρ :=
  let isCrossChannel := hasAnnounceCrossChannelItems queue.items
  if force || isCrossChannel then drainNextQueueItem s queue (force || isCrossChannel)
  else
    let summary := previewQueueSummaryPrompt queue.toQueueState "announce"
    match queue.items.getLast? with
    | none => leaveLoop s queue
    | some last =>
      callSend s queue force (.collected queue.items.length summary.isSome)
        (collectedItem queue.items summary last)

/-- One turn of the loop in another mode: the summary of what was dropped is sent in place of the
first item. -/
def drainSingle (queue : AnnounceQueueState ω ε ρ) (force : Bool) : State ω ε ρ :=
  match previewQueueSummaryPrompt queue.toQueueState "announce" with
  | none => drainNextQueueItem s queue force
  | some summaryPrompt =>
    match queue.items with
    | [] => leaveLoop s queue
    | item :: _ => callSend s queue force .summaryInPlace { item.announce with prompt := summaryPrompt }

/-- One turn of the loop, after the debounce. -/
def drainTurn (queue : AnnounceQueueState ω ε ρ) (force : Bool) : State ω ε ρ :=
  if queue.mode = .collect then drainCollect s queue force else drainSingle s queue force

/-- The queue without what a send that resolved was of. -/
def removeSent (queue : AnnounceQueueState ω ε ρ) (what : Sending) : AnnounceQueueState ω ε ρ :=
  let queue := { queue with items := queue.items.drop what.count }
  if what.clears then { queue with toQueueState := clearQueueSummaryState queue.toQueueState }
  else queue

/-- The call of `send` resolved. -/
def sendResolved (queue : AnnounceQueueState ω ε ρ) (force : Bool)
    (what : Sending) (prompt : String) : State ω ε ρ :=
  let s := { s with
    delivered := s.delivered ++ [(what, prompt)]
    lineIds := if what.clears then [] else s.lineIds }
  let queue := removeSent queue what
  if queue.items = [] ∧ queue.droppedCount = 0 then leaveLoop s queue
  else waitForQueueDebounce s queue force

def errorBackoffMs (consecutiveFailures : ℕ) : ℚ := min (1000 * 2 ^ consecutiveFailures) 60000

/-- The call of `send` rejected: the `catch` block and the `finally` block. -/
def sendRejected (queue : AnnounceQueueState ω ε ρ) (now : ℚ) : State ω ε ρ :=
  let consecutiveFailures := queue.consecutiveFailures + 1
  let retryDelayMs := max (errorBackoffMs consecutiveFailures) queue.debounceMs
  loopHead s { queue with
    consecutiveFailures := consecutiveFailures
    lastEnqueuedAt := now + retryDelayMs - queue.debounceMs } false

/-! ### Runs -/

/-- What can happen; `now` is what the clock shows then. -/
inductive Action (ω ε ρ : Type) where
  /-- `enqueueAnnounce`. -/
  | enqueue (now : ℚ) (item : AnnounceQueueItem ω ε ρ) (settings : AnnounceQueueSettings)
  /-- The wait for the debounce is over. -/
  | debounced (now : ℚ)
  /-- The call of `send` resolves, or rejects. -/
  | settled (now : ℚ) (ok : Bool)

def next (s : State ω ε ρ) : Action ω ε ρ → Option (State ω ε ρ)
  | .enqueue now item settings => some (enqueueAnnounce origins s now item settings).1
  | .debounced now => match s.queue with
    | none => none
    | some queue => match queue.drain with
      | some (.debounce force debounceMs) =>
        if debounceMs ≤ 0 ∨ debounceMs ≤ now - queue.lastEnqueuedAt then
          some (drainTurn s queue force)
        else none
      | _ => none
  | .settled now ok => match s.queue with
    | none => none
    | some queue => match queue.drain with
      | some (.sending force what prompt _) =>
        some (if ok then sendResolved s queue force what prompt else sendRejected s queue now)
      | _ => none

end Foxclaw.Agents.AnnounceQueue
