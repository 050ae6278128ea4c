import Foxclaw.Infra.AgentEvents
import Foxclaw.Lib.Runs

/-!
# The agent event handler of the gateway

This module models what `gateway/server-chat.ts` does with an agent event as far as its counters go: the
check for a gap, the links between runs and chats, the aborted runs, and the counters that are dropped as a
run ends; and `abortChatRunById` of `gateway/chat-abort.ts`. What is sent to the clients besides the report
of a gap is left out, with the texts that are kept for it.

## The model

JavaScript runs one call at a time, so what is under way is a stack: the emissions whose loops are not over,
and the aborts whose controllers' listeners run. Other code runs when the stack is empty, in a listener that
the innermost emission calls, and in the listeners of an abort signal. What the session of a run is in the
store and whether something the handler calls throws is given with each step. The histories stand beside the
maps: what was emitted, what the handler was called with, the gaps it reported, and the runs it lost count of.
-/

namespace Foxclaw.Gateway.AgentEventHandler

open Infra.AgentEvents

/-! ### The chat runs -/

structure ChatRunEntry where
  sessionKey : String
  clientRunId : String
  deriving DecidableEq

structure ChatRunRegistry where
  chatRunSessions : JsMap String (List ChatRunEntry) := .empty

namespace ChatRunRegistry

variable (r : ChatRunRegistry) (sessionId : String)

def add (entry : ChatRunEntry) : ChatRunRegistry :=
  ⟨r.chatRunSessions.set sessionId ((r.chatRunSessions.get? sessionId).getD [] ++ [entry])⟩

def peek : Option ChatRunEntry :=
  (r.chatRunSessions.get? sessionId).bind (·.head?)

/-- The queue of a session is replaced; an empty one is dropped. -/
def setQueue (queue : List ChatRunEntry) : ChatRunRegistry :=
  ⟨if queue = [] then r.chatRunSessions.delete sessionId else r.chatRunSessions.set sessionId queue⟩

def shift : Option ChatRunEntry × ChatRunRegistry :=
  match r.chatRunSessions.get? sessionId with
  | none | some [] => (none, r)
  | some (entry :: queue) => (some entry, r.setQueue sessionId queue)

def remove (sessionId clientRunId : String) (sessionKey : Option String) :
    Option ChatRunEntry × ChatRunRegistry :=
  match r.chatRunSessions.get? sessionId with
  | none => (none, r)
  | some queue =>
    match queue.findIdx? fun entry =>
        entry.clientRunId = clientRunId ∧ ∀ key ∈ truthy sessionKey, entry.sessionKey = key with
    | none => (none, r)
    | some idx => (queue[idx]?, r.setQueue sessionId (queue.eraseIdx idx))

end ChatRunRegistry

/-! ### The maps -/

/-- A listener of agent events. -/
inductive Listener (L : Type) where
  /-- The handler that `createAgentEventHandler` returns. -/
  | gateway
  /-- Another one. -/
  | other (listener : L)
  deriving DecidableEq

/-- The maps that the handler and the abort share. -/
structure Maps (L : Type) where
  events : Emitter (Listener L) := {}
  agentRunSeq : JsMap String ℕ := .empty
  /-- `chatRunState.registry`. -/
  registry : ChatRunRegistry := {}
  /-- `chatRunState.abortedRuns`, without the times. -/
  abortedRuns : List String := []
  /-- `chatAbortControllers`, with the session keys. -/
  chatAbortControllers : JsMap String String := .empty

/-- The report of a gap. -/
structure Gap where
  source : String
  runId : String
  sessionKey : Option String
  /-- `data.expected`. -/
  expected : ℕ
  /-- `data.received`. -/
  received : ℕ
  deriving DecidableEq

/-- What `resolveSessionKeyForRun` finds for a run whose context has no session key. -/
inductive Lookup where
  /-- The config or the store cannot be read. -/
  | throws
  /-- It has looked the run up before. -/
  | cached (key : Option String)
  | stored (key : String)
  | missing
  deriving DecidableEq

/-- What a step of an emission meets. -/
structure World where
  lookup : Lookup := .missing
  /-- Whether the event cannot be sent. -/
  sendThrows : Bool := false
  deriving DecidableEq

/-- What the handler did. -/
structure Handled (L : Type) where
  maps : Maps L
  gap : Option Gap := none
  /-- Whether it stored the number of the event. -/
  counted : Bool := true

/-- `lifecyclePhase`, when it is `end` or `error`. -/
def isOver (evt : AgentEventPayload) : Bool :=
  evt.stream = "lifecycle" ∧ (evt.phase = some "end" ∨ evt.phase = some "error")

namespace Maps

variable {L : Type}

variable (g : Maps L)

/-- `resolveSessionKeyForRun`, which may put a key it found into the context of the run. -/
def resolveSessionKeyForRun (runId : String) (lookup : Lookup) : Option (Maps L × Option String) :=
  match truthy (g.events.contextSessionKey runId) with
  | some cached => some (g, some cached)
  | none =>
    match lookup with
    | .throws => none
    | .cached key => some (g, key)
    | .missing => some (g, none)
    | .stored key =>
      some ({ g with events := g.events.registerAgentRunContext runId { sessionKey := some key } }, some key)

/-- `chatLink?.clientRunId ?? evt.runId`. -/
def clientRunId (g : Maps L) (runId : String) : String :=
  ((g.registry.peek runId).map (·.clientRunId)).getD runId

/-- The end of the handler, when a run is over. -/
def closeRun (runId clientRunId : String) : Maps L :=
  { g with
    events := g.events.clearAgentRunContext runId
    agentRunSeq := (g.agentRunSeq.delete runId).delete clientRunId }

/-- What the handler does when a run is over. -/
def finishRun (runId clientRunId : String) (chatLink : Option ChatRunEntry)
    (sessionKey : Option String) (isControlUiVisible isAborted : Bool) : Maps L :=
  match isControlUiVisible, truthy sessionKey with
  | true, some key =>
    if isAborted then
      closeRun { g with
        abortedRuns := (g.abortedRuns.filter (· ≠ clientRunId)).filter (· ≠ runId)
        registry := if chatLink.isSome then (g.registry.remove runId clientRunId (some key)).2 else g.registry }
        runId clientRunId
    else if chatLink.isSome then
      match g.registry.shift runId with
      | (none, _) => { g with events := g.events.clearAgentRunContext runId }
      | (some _, registry) => closeRun { g with registry } runId clientRunId
    else closeRun g runId clientRunId
  | _, _ => closeRun g runId clientRunId

/-- The handler, once the session key is known. -/
def handleWith (evt : AgentEventPayload) (chatLink : Option ChatRunEntry)
    (sessionKey : Option String) (isControlUiVisible sendThrows : Bool) : Handled L :=
  let clientRunId := (chatLink.map (·.clientRunId)).getD evt.runId
  let isAborted := clientRunId ∈ g.abortedRuns ∨ evt.runId ∈ g.abortedRuns
  let last := (g.agentRunSeq.get? evt.runId).getD 0
  let gap :=
    if evt.seq ≠ last + 1 then
      some
        { source := evt.runId, runId := clientRunId, sessionKey, expected := last + 1, received := evt.seq }
    else none
  let counted := { g with agentRunSeq := g.agentRunSeq.set evt.runId evt.seq }
  { gap
    maps :=
      if !sendThrows && isOver evt then
        counted.finishRun evt.runId clientRunId chatLink sessionKey isControlUiVisible isAborted
      else counted }

/-- The handler that `createAgentEventHandler` returns. -/
def handle (evt : AgentEventPayload) (w : World) : Handled L :=
  let chatLink := g.registry.peek evt.runId
  let isControlUiVisible := g.events.isControlUiVisible evt.runId
  match (chatLink.map (·.sessionKey)).or (eventSessionKey evt.sessionKey) with
  | some key => g.handleWith evt chatLink (some key) isControlUiVisible w.sendThrows
  | none =>
    match g.resolveSessionKeyForRun evt.runId w.lookup with
    | none => { maps := g, counted := false }
    | some (g, sessionKey) => g.handleWith evt chatLink sessionKey isControlUiVisible w.sendThrows

/-- `abortChatRunById` up to the abort of the controller, when there is something to abort. -/
def abortChatRunById (runId sessionKey : String) : Option (Maps L) :=
  match g.chatAbortControllers.get? runId with
  | none => none
  | some activeKey =>
    if activeKey ≠ sessionKey then none else some { g with abortedRuns := runId :: g.abortedRuns }

/-- The rest of `abortChatRunById`. -/
def finishAbort (runId sessionKey : String) : Maps L :=
  let (removed, registry) := g.registry.remove runId runId (some sessionKey)
  let agentRunSeq := g.agentRunSeq.delete runId
  { g with
    chatAbortControllers := g.chatAbortControllers.delete runId
    registry
    agentRunSeq :=
      match truthy (removed.map (·.clientRunId)) with
      | none => agentRunSeq
      | some clientRunId => agentRunSeq.delete clientRunId }

end Maps

/-! ### The system -/

/-- A call that is under way. -/
inductive Frame where
  /-- `emitAgentEvent`, the place its loop has come to, and whether a listener runs. -/
  | emit (evt : AgentEventPayload) (pos : ℕ) (calling : Bool)
  /-- `abortChatRunById`, in `controller.abort()`. -/
  | abort (runId sessionKey : String)

/-- The maps, what is under way, the innermost call first, and the histories. -/
structure System (L : Type) where
  maps : Maps L
  stack : List Frame := []
  emitted : List AgentEventPayload := []
  /-- The events the handler was called with. -/
  delivered : List AgentEventPayload := []
  gaps : List Gap := []
  /-- The runs whose events it no longer counts right: it dropped its counter, or could not store it. -/
  lapsed : List String := []

/-- What else changes the maps. -/
inductive Change (L : Type) where
  | onAgentEvent (listener : L)
  /-- What `onAgentEvent` returned is called. -/
  | offAgentEvent (listener : L)
  | registerAgentRunContext (runId : String) (context : AgentRunContext)
  | clearAgentRunContext (runId : String)
  | addChatRun (sessionId : String) (entry : ChatRunEntry)
  | removeChatRun (sessionId clientRunId : String) (sessionKey : Option String)
  | addController (runId sessionKey : String)
  | deleteController (runId : String)
  | deleteAborted (runId : String)

/-- One step. -/
inductive Action (L : Type) where
  /-- `emitAgentEvent` is called. -/
  | emit (event : AgentEvent)
  /-- The innermost call is an emission, and its loop goes on. -/
  | proceed (w : World)
  /-- `abortChatRunById` is called. -/
  | abort (runId sessionKey : String)
  /-- The innermost call is an abort, and it comes to its end. -/
  | finishAbort
  /-- Something else. -/
  | change (c : Change L)

variable {L : Type} [DecidableEq L]

/-- A listener other than the handler is registered. -/
def registerOther (e : Emitter (Listener L)) (listener : L) : Emitter (Listener L) :=
  e.onAgentEvent (.other listener)

/-- The effect of a change. -/
def Maps.change (g : Maps L) : Change L → Maps L
  | .onAgentEvent listener => { g with events := registerOther g.events listener }
  | .offAgentEvent listener => { g with events := g.events.offAgentEvent (.other listener) }
  | .registerAgentRunContext runId context =>
    { g with events := g.events.registerAgentRunContext runId context }
  | .clearAgentRunContext runId => { g with events := g.events.clearAgentRunContext runId }
  | .addChatRun sessionId entry => { g with registry := g.registry.add sessionId entry }
  | .removeChatRun sessionId clientRunId sessionKey =>
    { g with registry := (g.registry.remove sessionId clientRunId sessionKey).2 }
  | .addController runId sessionKey =>
    { g with chatAbortControllers := g.chatAbortControllers.set runId sessionKey }
  | .deleteController runId => { g with chatAbortControllers := g.chatAbortControllers.delete runId }
  | .deleteAborted runId => { g with abortedRuns := g.abortedRuns.filter (· ≠ runId) }

/-- The gateway as it starts: the handler is registered, after other listeners. -/
def System.start (earlier : List L) : System L where
  maps := { events := (earlier.foldl registerOther {}).onAgentEvent .gateway }

/-- Whether other code can run. -/
def System.callable (s : System L) : Bool :=
  match s.stack with
  | [] | .emit _ _ true :: _ | .abort _ _ :: _ => true
  | .emit _ _ false :: _ => false

/-- The runs with a counter in `before` and none in `after`. -/
def droppedRuns (before after : JsMap String ℕ) : List String := before.keys.filter fun runId => !after.has runId

/-- The handler is called with an event. -/
def System.deliver (s : System L) (evt : AgentEventPayload) (w : World) : System L :=
  let handled := s.maps.handle evt w
  { s with
    maps := handled.maps
    delivered := evt :: s.delivered
    gaps := handled.gap.toList ++ s.gaps
    lapsed :=
      (if handled.counted then
        droppedRuns (s.maps.agentRunSeq.set evt.runId evt.seq) handled.maps.agentRunSeq
      else [evt.runId]) ++ s.lapsed }

def next (s : System L) : Action L → Option (System L)
  | .emit event =>
    if s.callable then
      let (events, evt) := s.maps.events.emitAgentEvent event
      some { s with
        maps := { s.maps with events }, stack := .emit evt 0 false :: s.stack, emitted := evt :: s.emitted }
    else none
  | .proceed w =>
    match s.stack with
    | .emit evt pos _ :: rest =>
      match s.maps.events.listeners.next pos with
      | none => some { s with stack := rest }
      | some (k, .gateway) => some { s.deliver evt w with stack := .emit evt (k + 1) false :: rest }
      | some (k, .other _) => some { s with stack := .emit evt (k + 1) true :: rest }
    | _ => none
  | .abort runId sessionKey =>
    if s.callable then
      match s.maps.abortChatRunById runId sessionKey with
      | none => some s
      | some maps => some { s with maps, stack := .abort runId sessionKey :: s.stack }
    else none
  | .finishAbort =>
    match s.stack with
    | .abort runId sessionKey :: rest =>
      let maps := s.maps.finishAbort runId sessionKey
      some { s with
        maps, stack := rest, lapsed := droppedRuns s.maps.agentRunSeq maps.agentRunSeq ++ s.lapsed }
    | _ => none
  | .change c => if s.callable then some { s with maps := s.maps.change c } else none

end Foxclaw.Gateway.AgentEventHandler
