import Foxclaw.Lib.JsNumber
import Foxclaw.Lib.Runs
import Foxclaw.Lib.Text
import Mathlib.Data.Finset.Card

/-!
# Command lanes

This module models `process/command-queue.ts`: lanes of tasks, each with a queue, a set
of active task ids, a concurrency and a generation.

## The model

The code is synchronous between two awaits, and re-entrant: the pump calls a task's
synchronous part, which may call the queue again before the pump goes on. A `State`
therefore carries the call stack of what is running, innermost first (`Frame`): a task's
synchronous part, the loop of `pump`, the second loop of `resetAllLanes`, and the
`resolve` or `reject` that a completion does after its pump. One step (`next`) is a call
made by the code on top of the stack (or, on an empty stack, by anybody), the next move
of the frame on top, a task throwing in its synchronous part, or, on an empty stack, the
completion of a started task. An operation has run to its end when the stack is empty.

The map of lanes is total: a lane never named is as `getLaneState` would create it.

Each call of `enqueueCommandInLane` is numbered; the number stands for its task and its
promise. What happened to it is recorded in `accepted`, `started` and `settled`, which no
step reads.

What is left out: `onWait`, the waiting-time warnings and the diagnostics, which only log.
-/

namespace Foxclaw.Process.CommandQueue

open Foxclaw.Runs

/-- How a promise was settled. -/
inductive Outcome where
  /-- Resolved with the task's result. -/
  | ok
  /-- Rejected with the task's error. -/
  | error
  /-- Rejected with `CommandLaneClearedError`. -/
  | laneCleared
  /-- Rejected with `GatewayDrainingError`. -/
  | gatewayDraining
  deriving DecidableEq

/-- The state of a lane. -/
structure LaneState where
  /-- The entries waiting, first to start first. -/
  queue : List ℕ
  /-- The ids of the tasks started and not completed, of the current generation. -/
  activeTaskIds : Finset ℕ
  maxConcurrent : JsNumber
  /-- A pump that `drainLane` began is running. -/
  draining : Bool
  generation : ℕ

def LaneState.create : LaneState := ⟨[], ∅, .ofNat 1, false, 0⟩

/-- `state.activeTaskIds.size < state.maxConcurrent && state.queue.length > 0`. -/
def LaneState.canStart (l : LaneState) : Bool :=
  (JsNumber.ofNat l.activeTaskIds.card).lt l.maxConcurrent && 0 < l.queue.length

/-- A task that was started and has not completed. -/
structure RunningTask where
  lane : String
  taskId : ℕ
  /-- The generation it was started in. -/
  taskGeneration : ℕ
  entry : ℕ
  deriving DecidableEq

/-- What is running, on the call stack. -/
inductive Frame where
  /-- The synchronous part of a started task. -/
  | task (t : RunningTask)
  /-- The loop of `pump`, in the lane. -/
  | pump (lane : String)
  /-- The loop of `resetAllLanes` over `lanesToDrain`. -/
  | drainLanes (lanes : List String)
  /-- The `resolve` or `reject` after a completion. -/
  | settle (entry : ℕ) (ok : Bool)
  deriving DecidableEq

/-- The state of the queue, with the call stack and the record of what happened. -/
structure State where
  /-- The gateway is draining for a restart. -/
  gatewayDraining : Bool
  lanes : String → LaneState
  /-- The lanes there are, in the order they were created. -/
  laneNames : List String
  nextTaskId : ℕ
  running : List RunningTask
  /-- The call stack, innermost frame first. -/
  stack : List Frame
  /-- How many calls of `enqueueCommandInLane` there were. -/
  nextEntry : ℕ
  /-- The entries accepted, in order, each with its lane. -/
  accepted : List (String × ℕ)
  /-- The entries started, in order, each with its lane. -/
  started : List (String × ℕ)
  /-- The promises settled, in order, each with its outcome. -/
  settled : List (ℕ × Outcome)

def State.init : State := ⟨false, fun _ => .create, [], 1, [], [], 0, [], [], []⟩

variable (s : State) (lane : String)

/-- Change the state of a lane. -/
def State.modifyLane (f : LaneState → LaneState) : State :=
  { s with lanes := Function.update s.lanes lane (f (s.lanes lane)) }

def State.push (f : Frame) : State := { s with stack := f :: s.stack }

/-- `lane.trim() || CommandLane.Main`. -/
def cleanLane : String :=
  let cleaned := Text.trimString lane
  if cleaned = "" then "main" else cleaned

/-- `getLaneState`: the lane is there from now on. -/
def getLaneState : State :=
  if lane ∈ s.laneNames then s else { s with laneNames := s.laneNames ++ [lane] }

/-- `completeTask`: a task of an older generation changes nothing. -/
def completeTask (l : LaneState) (taskId taskGeneration : ℕ) : LaneState × Bool :=
  if taskGeneration ≠ l.generation then (l, false)
  else ({ l with activeTaskIds := l.activeTaskIds.erase taskId }, true)

/-- `drainLane`: begin a pump, unless one is running. -/
def drainLane : State :=
  let s := getLaneState s lane
  if (s.lanes lane).draining then s
  else (s.modifyLane lane fun l => { l with draining := true }).push (.pump lane)

/-- The first entry of the lane leaves the queue and its task is started. -/
def startEntry (entry : ℕ) : State :=
  let t : RunningTask := ⟨lane, s.nextTaskId, (s.lanes lane).generation, entry⟩
  { s.modifyLane lane fun l =>
      { l with queue := l.queue.tail, activeTaskIds := insert s.nextTaskId l.activeTaskIds } with
    nextTaskId := s.nextTaskId + 1
    running := t :: s.running
    started := s.started ++ [(lane, entry)]
    stack := .task t :: s.stack }

/-- The `finally` of `pump`, whose frame leaves the stack. -/
def leavePump : State :=
  { s.modifyLane lane fun l => { l with draining := false } with stack := s.stack.tail }

/-- One turn of the loop of `pump`, whose frame is on top of the stack: start the first
entry, or leave the loop. -/
def pumpTurn : State :=
  match (s.lanes lane).canStart, (s.lanes lane).queue with
  | true, entry :: _ => startEntry s lane entry
  | _, _ => leavePump s lane

/-- The task of a running entry is done, and the promise of the entry is to be settled. -/
def endTask (t : RunningTask) (ok : Bool) : State :=
  { s with
    running := s.running.filter (·.taskId ≠ t.taskId)
    stack := .settle t.entry ok :: s.stack }

/-- The continuation of a task that completed: `completeTask`, then the pump if the task
is of the current generation, then `resolve` or `reject`. -/
def finishTask (t : RunningTask) (ok : Bool) : State :=
  let s := endTask s t ok
  match completeTask (s.lanes t.lane) t.taskId t.taskGeneration with
  | (l, true) => (s.modifyLane t.lane fun _ => l).push (.pump t.lane)
  | (_, false) => s

/-- `entry.resolve` or `entry.reject`, after a completion. -/
def settlePromise (entry : ℕ) (ok : Bool) : State :=
  { s with settled := s.settled ++ [(entry, if ok then .ok else .error)] }

def markGatewayDraining : State := { s with gatewayDraining := true }

/-- Assign `maxConcurrent` of a lane. -/
def setMaxConcurrent (maxConcurrent : JsNumber) : State :=
  s.modifyLane lane fun l => { l with maxConcurrent }

def setCommandLaneConcurrency (maxConcurrent : JsNumber) : State :=
  let cleaned := cleanLane lane
  let clamped := (JsNumber.ofNat 1).max maxConcurrent.floor
  drainLane (setMaxConcurrent (getLaneState s cleaned) cleaned clamped) cleaned

/-- The entry of a new call is rejected. -/
def refuseEntry : State :=
  { s with nextEntry := s.nextEntry + 1, settled := s.settled ++ [(s.nextEntry, .gatewayDraining)] }

/-- The entry of a new call joins the queue of its lane. -/
def pushEntry : State :=
  { s.modifyLane lane fun l => { l with queue := l.queue ++ [s.nextEntry] } with
    nextEntry := s.nextEntry + 1
    accepted := s.accepted ++ [(lane, s.nextEntry)] }

def enqueueCommandInLane : State :=
  if s.gatewayDraining then refuseEntry s
  else
    let cleaned := cleanLane lane
    drainLane (pushEntry (getLaneState s cleaned) cleaned) cleaned

/-- The entries still queued in a lane are rejected. -/
def rejectQueue : State :=
  { s.modifyLane lane fun l => { l with queue := [] } with
    settled := s.settled ++ (s.lanes lane).queue.map (·, .laneCleared) }

/-- `clearCommandLane`: it returns how many entries were removed. -/
def clearCommandLane : State × ℕ :=
  let cleaned := cleanLane lane
  (rejectQueue s cleaned, (s.lanes cleaned).queue.length)

/-- `resetAllLanes`, up to the loop that drains. -/
def resetAllLanes : State :=
  let reset (l : LaneState) : LaneState :=
    { l with generation := l.generation + 1, activeTaskIds := ∅, draining := false }
  { s with
    gatewayDraining := false
    lanes := fun lane => if lane ∈ s.laneNames then reset (s.lanes lane) else s.lanes lane
    stack := .drainLanes (s.laneNames.filter fun lane => 0 < (s.lanes lane).queue.length) :: s.stack }

/-- A call of the queue. -/
inductive Call where
  /-- `enqueueCommandInLane`. -/
  | enqueue (lane : String)
  /-- `setCommandLaneConcurrency`. -/
  | setConcurrency (lane : String) (maxConcurrent : JsNumber)
  /-- `clearCommandLane`. -/
  | clear (lane : String)
  /-- `resetAllLanes`. -/
  | reset
  /-- `markGatewayDraining`. -/
  | markDraining
  deriving DecidableEq

/-- What a call does at once. -/
def Call.apply : Call → State
  | .enqueue lane => enqueueCommandInLane s lane
  | .setConcurrency lane n => setCommandLaneConcurrency s lane n
  | .clear lane => (clearCommandLane s lane).1
  | .reset => resetAllLanes s
  | .markDraining => markGatewayDraining s

/-- A choice of the environment. -/
inductive Action where
  /-- The task on top of the stack, or anybody if the stack is empty, makes a call. -/
  | call (c : Call)
  /-- The frame on top of the stack goes on; a task's synchronous part returns. -/
  | resume
  /-- The task on top of the stack throws in its synchronous part. -/
  | throw
  /-- The promise of a started task resolves or rejects. -/
  | complete (taskId : ℕ) (ok : Bool)
  deriving DecidableEq

/-- Code that may call the queue is running, or none is. -/
def mayCall : List Frame → Bool
  | [] | .task _ :: _ => true
  | _ => false

/-- The next move of the frame on top of the stack. -/
def resume : Option State :=
  match s.stack with
  | [] => none
  | .task _ :: rest => some { s with stack := rest }
  | .pump lane :: _ => some (pumpTurn s lane)
  | .drainLanes [] :: rest => some { s with stack := rest }
  | .drainLanes (lane :: lanes) :: rest =>
      some (drainLane { s with stack := .drainLanes lanes :: rest } lane)
  | .settle entry ok :: rest => some (settlePromise { s with stack := rest } entry ok)

def next : Action → Option State
  | .call c => if mayCall s.stack then some (c.apply s) else none
  | .resume => resume s
  | .throw =>
      match s.stack with
      | .task t :: rest => some (finishTask { s with stack := rest } t false)
      | _ => none
  | .complete taskId ok =>
      match s.stack, s.running.find? (·.taskId = taskId) with
      | [], some t => some (finishTask s t ok)
      | _, _ => none

theorem canStart_eq_true {l : LaneState} : l.canStart = true ↔
    (JsNumber.ofNat l.activeTaskIds.card).lt l.maxConcurrent = true ∧ l.queue ≠ [] := by
  simp [LaneState.canStart, List.length_pos_iff]

/-! ### What the parts leave alone -/

variable (s : State)

@[simp] theorem modifyLane_self (lane : String) (f : LaneState → LaneState) :
    (s.modifyLane lane f).lanes lane = f (s.lanes lane) := by simp [State.modifyLane]

theorem modifyLane_of_ne {lane k : String} (f : LaneState → LaneState) (h : k ≠ lane) :
    (s.modifyLane lane f).lanes k = s.lanes k := Function.update_of_ne h _ _

@[simp] theorem modifyLane_stack (lane : String) (f : LaneState → LaneState) :
    (s.modifyLane lane f).stack = s.stack := rfl

@[simp] theorem push_lanes (f : Frame) : (s.push f).lanes = s.lanes := rfl

@[simp] theorem push_stack (f : Frame) : (s.push f).stack = f :: s.stack := rfl

@[simp] theorem getLaneState_lanes (lane : String) : (getLaneState s lane).lanes = s.lanes := by
  unfold getLaneState; split <;> rfl

@[simp] theorem getLaneState_stack (lane : String) : (getLaneState s lane).stack = s.stack := by
  unfold getLaneState; split <;> rfl

@[simp] theorem settlePromise_stack (entry : ℕ) (ok : Bool) :
    (settlePromise s entry ok).stack = s.stack := rfl

theorem setMaxConcurrent_lanes (lane : String) (n : JsNumber) :
    (setMaxConcurrent s lane n).lanes =
      (s.modifyLane lane fun l => { l with maxConcurrent := n }).lanes := rfl

theorem pushEntry_lanes (lane : String) : (pushEntry s lane).lanes =
    (s.modifyLane lane fun l => { l with queue := l.queue ++ [s.nextEntry] }).lanes := rfl

theorem rejectQueue_lanes (lane : String) : (rejectQueue s lane).lanes =
    (s.modifyLane lane fun l => { l with queue := [] }).lanes := rfl

theorem startEntry_lanes (lane : String) (entry : ℕ) : (startEntry s lane entry).lanes =
    (s.modifyLane lane fun l =>
      { l with queue := l.queue.tail, activeTaskIds := insert s.nextTaskId l.activeTaskIds }).lanes :=
  rfl

theorem leavePump_lanes (lane : String) : (leavePump s lane).lanes =
    (s.modifyLane lane fun l => { l with draining := false }).lanes := rfl

theorem modifyLane_field {α : Type} (p : LaneState → α) {f : LaneState → LaneState}
    (hf : ∀ l, p (f l) = p l) (s : State) (lane k : String) :
    p ((s.modifyLane lane f).lanes k) = p (s.lanes k) := by
  by_cases hk : k = lane
  · rw [hk, modifyLane_self, hf]
  · rw [modifyLane_of_ne s f hk]

@[simp] theorem setMaxConcurrent_draining (lane : String) (n : JsNumber) (k : String) :
    ((setMaxConcurrent s lane n).lanes k).draining = (s.lanes k).draining :=
  modifyLane_field (·.draining) (f := fun l => { l with maxConcurrent := n }) (fun _ => rfl) s lane k

@[simp] theorem pushEntry_draining (lane k : String) :
    ((pushEntry s lane).lanes k).draining = (s.lanes k).draining :=
  modifyLane_field (·.draining) (f := fun l => { l with queue := l.queue ++ [s.nextEntry] })
    (fun _ => rfl) s lane k

@[simp] theorem rejectQueue_draining (lane k : String) :
    ((rejectQueue s lane).lanes k).draining = (s.lanes k).draining :=
  modifyLane_field (·.draining) (f := fun l => { l with queue := [] }) (fun _ => rfl) s lane k

@[simp] theorem startEntry_draining (lane : String) (entry : ℕ) (k : String) :
    ((startEntry s lane entry).lanes k).draining = (s.lanes k).draining :=
  modifyLane_field (·.draining) (f := fun l =>
    { l with queue := l.queue.tail, activeTaskIds := insert s.nextTaskId l.activeTaskIds })
    (fun _ => rfl) s lane k

@[simp] theorem leavePump_canStart (lane k : String) :
    ((leavePump s lane).lanes k).canStart = (s.lanes k).canStart :=
  modifyLane_field (·.canStart) (f := fun l => { l with draining := false }) (fun _ => rfl) s lane k

/-- `drainLane` changes the `draining` flag of its lane, and nothing else in any lane. -/
theorem drainLane_field {α : Type} (p : LaneState → α) (hp : ∀ l b, p { l with draining := b } = p l)
    (s : State) (lane k : String) : p ((drainLane s lane).lanes k) = p (s.lanes k) := by
  unfold drainLane
  simp only
  split
  · rw [getLaneState_lanes]
  · rw [push_lanes, modifyLane_field p (fun l => hp l true), getLaneState_lanes]

/-- The pump of the lane is on the stack after `drainLane`, if it was whenever `draining`
is set; every other frame stays. -/
theorem drainLane_stack (lane : String) :
    (drainLane s lane).stack = .pump lane :: s.stack ∨
      (drainLane s lane).stack = s.stack ∧ (s.lanes lane).draining = true := by
  unfold drainLane
  simp only
  split
  · rename_i h
    exact .inr ⟨getLaneState_stack s lane, by simpa using h⟩
  · exact .inl (by simp)

/-- What `drainLane` and `getLaneState` leave alone besides the lanes and the stack. -/
structure SameRecord (s s' : State) : Prop where
  gatewayDraining : s'.gatewayDraining = s.gatewayDraining
  nextTaskId : s'.nextTaskId = s.nextTaskId
  running : s'.running = s.running
  nextEntry : s'.nextEntry = s.nextEntry
  accepted : s'.accepted = s.accepted
  started : s'.started = s.started
  settled : s'.settled = s.settled

theorem getLaneState_same (lane : String) : SameRecord s (getLaneState s lane) := by
  unfold getLaneState
  split <;> exact ⟨rfl, rfl, rfl, rfl, rfl, rfl, rfl⟩

theorem drainLane_same (lane : String) : SameRecord s (drainLane s lane) := by
  obtain ⟨h1, h2, h3, h4, h5, h6, h7⟩ := getLaneState_same s lane
  unfold drainLane
  simp only
  split
  · exact ⟨h1, h2, h3, h4, h5, h6, h7⟩
  · exact ⟨h1, h2, h3, h4, h5, h6, h7⟩

theorem pushEntry_started (lane : String) : (pushEntry s lane).started = s.started := rfl

theorem setMaxConcurrent_started (lane : String) (n : JsNumber) :
    (setMaxConcurrent s lane n).started = s.started := rfl

theorem call_started (c : Call) : (c.apply s).started = s.started := by
  cases c with
  | enqueue lane =>
    simp only [Call.apply, enqueueCommandInLane]
    split
    · rfl
    · rw [(drainLane_same _ _).started, pushEntry_started, (getLaneState_same _ _).started]
  | setConcurrency lane n =>
    simp only [Call.apply, setCommandLaneConcurrency]
    rw [(drainLane_same _ _).started, setMaxConcurrent_started, (getLaneState_same _ _).started]
  | clear lane => rfl
  | reset => rfl
  | markDraining => rfl

theorem finishTask_started (t : RunningTask) (ok : Bool) : (finishTask s t ok).started = s.started := by
  simp only [finishTask]
  split <;> rfl

/-- What one turn of a pump does: it starts the first entry, below the concurrency, or it
leaves because nothing can be started. -/
theorem pumpTurn_cases (lane : String) :
    (∃ entry queue, (s.lanes lane).queue = entry :: queue ∧ (s.lanes lane).canStart = true ∧
      pumpTurn s lane = startEntry s lane entry) ∨
    ((s.lanes lane).canStart = false ∧ pumpTurn s lane = leavePump s lane) := by
  unfold pumpTurn
  split
  · rename_i entry queue hc hq
    exact .inl ⟨entry, queue, hq, hc, rfl⟩
  · rename_i h
    refine .inr ⟨?_, rfl⟩
    by_contra hc
    rw [Bool.not_eq_false] at hc
    obtain ⟨entry, queue, hq⟩ := List.exists_cons_of_ne_nil (canStart_eq_true.mp hc).2
    exact h entry queue hc hq

/-- Only a turn of a pump starts anything. -/
theorem next_started {s s' : State} {a : Action} (h : next s a = some s') :
    s'.started = s.started ∨ ∃ lane entry queue, (s.lanes lane).queue = entry :: queue ∧
      (s.lanes lane).canStart = true ∧ s' = startEntry s lane entry := by
  cases a with
  | call c =>
    simp only [next, Option.ite_none_right_eq_some, Option.some.injEq] at h
    exact .inl (h.2 ▸ call_started s c)
  | resume =>
    simp only [next, resume] at h
    split at h <;> cases h
    · exact .inl rfl
    · rename_i lane rest he
      obtain ⟨entry, queue, hq, hc, e⟩ | ⟨-, e⟩ := pumpTurn_cases s lane
      · exact .inr ⟨lane, entry, queue, hq, hc, e⟩
      · exact .inl (e ▸ rfl)
    · exact .inl rfl
    · exact .inl (drainLane_same _ _).started
    · exact .inl rfl
  | throw =>
    simp only [next] at h
    split at h <;> cases h
    exact .inl (finishTask_started _ _ _)
  | complete taskId ok =>
    simp only [next] at h
    split at h <;> cases h
    exact .inl (finishTask_started _ _ _)

/-- A state that some run from the start leads to. -/
def Reachable (s : State) : Prop := ∃ as, exec next .init as = some s

end Foxclaw.Process.CommandQueue
