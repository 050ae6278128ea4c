import Foxclaw.Lib.JsMap
import Foxclaw.Lib.Runs

/-!
# The keyed async queue

This module models `plugin-sdk/keyed-async-queue.ts`: tasks of one key run one after the other, as each
call hangs its task on the promise that the call before it left in `tails`.

## The model

A call builds a chain of promises: `previous.catch(…)`, `.then(task)`, `.finally(onSettle)`, the returned
promise, the tail, and the reaction to the tail that takes it out of the map. The stage of a task is the
last promise of its chain that has been settled. One step is a call, the settling of a task that runs, or
the next reaction of one task; the reactions of different tasks come in any order. Tasks are known by the
number of their call. Two histories stand beside the queue: which tasks were started, and what each caller
got.
-/

namespace Foxclaw.PluginSdk.KeyedAsyncQueue

/-- How far the chain of a task has come. -/
inductive Stage where
  /-- The previous tail is waited for. -/
  | queued
  /-- `previous.catch(…)` is fulfilled. -/
  | caught
  | running
  /-- The task's own promise is settled. -/
  | settled
  /-- The promise of `.then(task)` is settled as well. -/
  | adopted
  /-- `onSettle` has run. -/
  | hooked
  /-- The promise the caller has is settled. -/
  | delivered
  | tailSettled
  /-- The reaction to the tail has run. -/
  | cleaned
  deriving DecidableEq

/-- The number of promises of the chain that are settled. -/
def Stage.rank : Stage → ℕ
  | .queued => 0
  | .caught => 1
  | .running => 2
  | .settled => 3
  | .adopted => 4
  | .hooked => 5
  | .delivered => 6
  | .tailSettled => 7
  | .cleaned => 8

/-- `KeyedAsyncQueueHooks`, on the state of the caller. -/
structure Hooks (σ : Type) where
  onEnqueue : σ → σ
  onSettle : σ → σ

/-- A call. -/
structure Task (κ ρ : Type) where
  key : κ
  /-- The task whose tail is `previous`; none when that is `Promise.resolve()`. -/
  previous : Option ℕ
  stage : Stage := .queued
  /-- What the task was settled with. -/
  outcome : Option ρ := none
  deriving DecidableEq

/-- The queue, and the histories. -/
structure State (κ ρ σ : Type) where
  tasks : List (Task κ ρ)
  tails : JsMap κ ℕ
  owner : σ
  /-- The tasks that were started, in order. -/
  starts : List ℕ
  replies : List (ℕ × ρ)

/-- One step. -/
inductive Action (κ ρ : Type) where
  /-- `enqueueKeyedTask` is called. -/
  | enqueue (key : κ)
  /-- A task that runs resolves or rejects. -/
  | settle (i : ℕ) (outcome : ρ)
  /-- The next reaction in the chain of a task. -/
  | react (i : ℕ)

variable {κ ρ σ : Type} [DecidableEq κ]

/-- A queue that was not called yet. -/
def State.start (owner : σ) : State κ ρ σ where
  tasks := []
  tails := .empty
  owner
  starts := []
  replies := []

/-- The stage of a task. -/
def State.stage? (s : State κ ρ σ) (i : ℕ) : Option Stage := (s.tasks[i]?).map (·.stage)

/-- The promise that a task waits for is settled. -/
def State.previousSettled (s : State κ ρ σ) (task : Task κ ρ) : Bool :=
  match task.previous with
  | none => true
  | some p => (s.stage? p).any fun stage => 7 ≤ stage.rank

/-- A task comes to a stage. -/
def State.advance (s : State κ ρ σ) (i : ℕ) (task : Task κ ρ) (stage : Stage) : State κ ρ σ :=
  { s with tasks := s.tasks.set i { task with stage } }

def enqueueKeyedTask (hooks : Hooks σ) (s : State κ ρ σ) (key : κ) : State κ ρ σ :=
  { s with
    owner := hooks.onEnqueue s.owner
    tasks := s.tasks ++ [{ key, previous := s.tails.get? key }]
    tails := s.tails.set key s.tasks.length }

/-- The next reaction in the chain of a task, if there is one that can run. -/
def react (hooks : κ → Hooks σ) (s : State κ ρ σ) (i : ℕ) (task : Task κ ρ) : Option (State κ ρ σ) :=
  match task.stage with
  | .queued => if s.previousSettled task then some (s.advance i task .caught) else none
  | .caught => some { s.advance i task .running with starts := s.starts ++ [i] }
  | .running => none
  | .settled => some (s.advance i task .adopted)
  | .adopted => some { s.advance i task .hooked with owner := (hooks task.key).onSettle s.owner }
  | .hooked =>
    some { s.advance i task .delivered with replies := s.replies ++ (task.outcome.map (i, ·)).toList }
  | .delivered => some (s.advance i task .tailSettled)
  | .tailSettled =>
    some { s.advance i task .cleaned with
      tails := if s.tails.get? task.key = some i then s.tails.delete task.key else s.tails }
  | .cleaned => none

/-- Where a step leads; the hooks of a call belong to its key. -/
def next (hooks : κ → Hooks σ) (s : State κ ρ σ) : Action κ ρ → Option (State κ ρ σ)
  | .enqueue key => some (enqueueKeyedTask (hooks key) s key)
  | .settle i outcome =>
    match s.tasks[i]? with
    | none => none
    | some task =>
      if task.stage = .running then
        some (s.advance i { task with outcome := some outcome } .settled)
      else none
  | .react i =>
    match s.tasks[i]? with
    | none => none
    | some task => react hooks s i task

end Foxclaw.PluginSdk.KeyedAsyncQueue
