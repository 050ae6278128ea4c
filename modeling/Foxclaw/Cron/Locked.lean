import Foxclaw.Lib.JsMap
import Foxclaw.Lib.Runs

/-!
# The lock of a cron store

This module models `cron/service/locked.ts`: the sections of all services with one store run
one after the other, as each call waits for the call before it of its own service (`state.op`)
and for the call before it with its store (`storeLocks`).

## The model

A call makes a chain of promises: what it waits for, the section, and what is kept alive of
it; its two waits, and what follows the section, end in any order. One step is a call, the end
of a section that runs, or one reaction. Calls are known by their number. Two histories stand
beside the lock: which sections were started, and what each caller got.
-/

namespace Foxclaw.Cron.Locked

/-- How far a section has come. -/
inductive Stage (ρ : Type) where
  | waiting
  /-- `Promise.all` is fulfilled. -/
  | ready
  | running
  | settled (outcome : ρ)
  /-- So has `next`. -/
  | done (outcome : ρ)
  deriving DecidableEq

/-- A call. -/
structure Call (σ ρ : Type) where
  service : σ
  /-- The call whose `keepAlive` is `state.op`; none when that is `Promise.resolve()`. -/
  op : Option ℕ
  /-- The call whose `keepAlive` is `storeOp`; none when that is `Promise.resolve()`. -/
  storeOp : Option ℕ
  /-- `resolveChain(state.op)` is fulfilled. -/
  opOver : Bool := false
  /-- `resolveChain(storeOp)` is fulfilled. -/
  storeOver : Bool := false
  stage : Stage ρ := .waiting
  /-- `keepAlive` is fulfilled. -/
  keptAlive : Bool := false
  /-- The caller's promise is settled. -/
  replied : Bool := false
  deriving DecidableEq

/-- The services and the lock, and the histories. -/
structure State (σ π ρ : Type) where
  calls : List (Call σ ρ)
  /-- `state.op` of each service. -/
  op : σ → Option ℕ
  storeLocks : JsMap π ℕ
  /-- The sections that were started, in order. -/
  starts : List ℕ
  replies : List (ℕ × ρ)

/-- What follows when a promise is settled. -/
inductive Reaction where
  /-- `resolveChain(state.op)`. -/
  | op
  /-- `resolveChain(storeOp)`. -/
  | storeOp
  /-- `Promise.all`. -/
  | all
  /-- `.then(fn)`: the section is started. -/
  | start
  /-- `next` is what the section is. -/
  | finish
  /-- `resolveChain(next)`. -/
  | keepAlive
  /-- `return (await next)`. -/
  | reply
  deriving DecidableEq

/-- One step. -/
inductive Action (σ ρ : Type) where
  /-- A service calls `locked`. -/
  | call (service : σ)
  /-- A section that runs resolves or rejects. -/
  | settle (i : ℕ) (outcome : ρ)
  /-- A reaction in the chain of a call. -/
  | react (i : ℕ) (r : Reaction)

variable {σ π ρ : Type}

section

variable [DecidableEq σ] [DecidableEq π]

/-- Services that have not called yet. -/
def State.start : State σ π ρ where
  calls := []
  op := fun _ => none
  storeLocks := .empty
  starts := []
  replies := []

variable (storePath : σ → π) (s : State σ π ρ)

/-- `locked`, up to its first `await`; `storePath` is `state.deps.storePath`. -/
def locked (service : σ) : State σ π ρ :=
  let keepAlive := s.calls.length
  { s with
    calls := s.calls ++
      [{ service, op := s.op service, storeOp := s.storeLocks.get? (storePath service) }]
    op := Function.update s.op service (some keepAlive)
    storeLocks := s.storeLocks.set (storePath service) keepAlive }

/-- The promise is settled: the `keepAlive` of a call, or `Promise.resolve()`. -/
def State.settled : Option ℕ → Bool
  | none => true
  | some p => (s.calls[p]?).any (·.keptAlive)

/-- A call comes on. -/
def State.put (i : ℕ) (c : Call σ ρ) : State σ π ρ :=
  { s with calls := s.calls.set i c }

/-- A reaction in the chain of a call, if it can run. -/
def react (i : ℕ) (c : Call σ ρ) : Reaction → Option (State σ π ρ)
  | .op => if c.opOver = false ∧ s.settled c.op = true then
      some (s.put i { c with opOver := true }) else none
  | .storeOp => if c.storeOver = false ∧ s.settled c.storeOp = true then
      some (s.put i { c with storeOver := true }) else none
  | .all => match c.stage with
    | .waiting => if c.opOver = true ∧ c.storeOver = true then
        some (s.put i { c with stage := .ready }) else none
    | _ => none
  | .start => match c.stage with
    | .ready => some { s.put i { c with stage := .running } with starts := s.starts ++ [i] }
    | _ => none
  | .finish => match c.stage with
    | .settled outcome => some (s.put i { c with stage := .done outcome })
    | _ => none
  | .keepAlive => match c.stage with
    | .done _ => if c.keptAlive = false then some (s.put i { c with keptAlive := true }) else none
    | _ => none
  | .reply => match c.stage with
    | .done outcome => if c.replied = false then
        some { s.put i { c with replied := true } with replies := s.replies ++ [(i, outcome)] }
      else none
    | _ => none

def next : Action σ ρ → Option (State σ π ρ)
  | .call service => some (locked storePath s service)
  | .settle i outcome => match s.calls[i]? with
    | none => none
    | some c => match c.stage with
      | .running => some (s.put i { c with stage := .settled outcome })
      | _ => none
  | .react i r => match s.calls[i]? with
    | none => none
    | some c => react s i c r

end

end Foxclaw.Cron.Locked
