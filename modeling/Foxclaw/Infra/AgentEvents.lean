import Foxclaw.Lib.JsMap
import Foxclaw.Lib.JsSet
import Foxclaw.Lib.Text

/-!
# Agent events

This module models `infra/agent-events.ts`: the counter of each run, the listeners, and the contexts of the
runs. Of an event's data the phase is kept, and the time of an event is left out. The calls of the listeners
are steps of the system (`Gateway.AgentEventHandler`), as each of them can emit in turn.
-/

namespace Foxclaw.Infra.AgentEvents

/-- What `emitAgentEvent` is called with. -/
structure AgentEvent where
  runId : String
  stream : String
  /-- `data.phase`, when it is a string. -/
  phase : Option String := none
  sessionKey : Option String := none
  deriving DecidableEq

structure AgentEventPayload extends AgentEvent where
  seq : ℕ
  deriving DecidableEq

/-- `AgentRunContext`, what is read of it. -/
structure AgentRunContext where
  sessionKey : Option String := none
  isControlUiVisible : Option Bool := none
  deriving DecidableEq

/-- What the module keeps, for listeners `L`. -/
structure Emitter (L : Type) where
  seqByRun : JsMap String ℕ := .empty
  listeners : JsSet L := .empty
  runContextById : JsMap String AgentRunContext := .empty

/-- A session key that is not blank. -/
def eventSessionKey (sessionKey : Option String) : Option String :=
  sessionKey.filter fun key => Text.trimString key ≠ ""

/-- A value that is not the empty text. -/
def truthy (value : Option String) : Option String := value.filter fun text => text ≠ ""

namespace Emitter

variable {L : Type}

variable (e : Emitter L) (runId : String)

def registerAgentRunContext (context : AgentRunContext) : Emitter L :=
  if runId = "" then e
  else
    match e.runContextById.get? runId with
    | none => { e with runContextById := e.runContextById.set runId context }
    | some existing =>
      { e with
        runContextById := e.runContextById.set runId
          { sessionKey := (truthy context.sessionKey).or existing.sessionKey
            isControlUiVisible := context.isControlUiVisible.or existing.isControlUiVisible } }

def clearAgentRunContext : Emitter L :=
  { e with runContextById := e.runContextById.delete runId }

/-- Whether control UI clients receive the updates of a run. -/
def isControlUiVisible (e : Emitter L) (runId : String) : Bool :=
  ((e.runContextById.get? runId).bind (·.isControlUiVisible)).getD true

/-- The session key in the context of a run. -/
def contextSessionKey : Option String :=
  (e.runContextById.get? runId).bind (·.sessionKey)

/-- `emitAgentEvent`, up to its loop: the counter goes up, and the event gets its number. -/
def emitAgentEvent (event : AgentEvent) : Emitter L × AgentEventPayload :=
  let nextSeq := (e.seqByRun.get? event.runId).getD 0 + 1
  let sessionKey :=
    if e.isControlUiVisible event.runId then
      (eventSessionKey event.sessionKey).or (e.contextSessionKey event.runId)
    else none
  ({ e with seqByRun := e.seqByRun.set event.runId nextSeq }, { event with sessionKey, seq := nextSeq })

variable [DecidableEq L]

def onAgentEvent (e : Emitter L) (listener : L) : Emitter L :=
  { e with listeners := e.listeners.add listener }

/-- What `onAgentEvent` returns is called. -/
def offAgentEvent (e : Emitter L) (listener : L) : Emitter L :=
  { e with listeners := e.listeners.delete listener }

end Emitter

end Foxclaw.Infra.AgentEvents
