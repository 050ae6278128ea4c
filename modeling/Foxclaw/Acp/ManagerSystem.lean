import Foxclaw.Acp.SessionManager
import Foxclaw.Lib.Actors

/-!
# The ACP sessions under way

The operations of the session manager as the jobs of actors (`Foxclaw.Lib.Actors`): a caller evicts the idle
handles, each in the actor of its session, and then queues its operation. A cancel of an active turn is not
queued.

A session is what the store has, what the manager's maps have, and what was set on the runtime session since
it was ensured. Four histories stand beside them: the streams that are active, whether the operation under
way has passed the limit and has not cached its handle yet, whether it has set the state to `running`, and
the closes, with whether a stream was active.
-/

namespace Foxclaw.Acp

/-- What was last set on a runtime session. -/
structure Applied where
  mode : Option String := none
  config : JsMap String String := .empty

/-- A session. -/
structure Session where
  /-- Its entry in the store, with the metadata. -/
  entry : Option (Option SessionAcpMeta) := none
  /-- Its entry in `runtimeCache`. -/
  cached : Option RuntimeCacheEntry := none
  /-- It has an entry in `activeTurnBySession`. -/
  active : Bool := false
  /-- What was set since its runtime session was ensured. -/
  applied : Applied := {}
  streams : ℕ := 0
  /-- Its operation has passed the limit, and has not cached a handle. -/
  admitted : Bool := false
  /-- Its operation has set the state to `running`. -/
  reached : Bool := false
  /-- The reasons of the closes, and whether a stream was active. -/
  closes : List (String × Bool) := []

variable (x : Session)

/-- The metadata. -/
def Session.meta? : Option SessionAcpMeta := x.entry.join

variable (w : MetaWrite)

/-- A write to the store. -/
def Session.written : Session :=
  match w.mutate x.entry with
  | some m => { x with entry := some (some m) }
  | none => { x with entry := x.entry.map fun _ => none }

theorem Session.written_eq : ∃ entry, x.written w = { x with entry } := by
  unfold Session.written
  split <;> exact ⟨_, rfl⟩

@[simp] theorem Session.cached_written : (x.written w).cached = x.cached := by
  obtain ⟨entry, h⟩ := x.written_eq w
  rw [h]

@[simp] theorem Session.streams_written : (x.written w).streams = x.streams := by
  obtain ⟨entry, h⟩ := x.written_eq w
  rw [h]

@[simp] theorem Session.active_written : (x.written w).active = x.active := by
  obtain ⟨entry, h⟩ := x.written_eq w
  rw [h]

/-- The write sets the state to `running`. -/
def MetaWrite.runs : MetaWrite → Bool
  | .state .running _ _ _ => true
  | _ => false

/-- The cached state is changed, if there is one. -/
def Session.updateCached (f : CachedRuntimeState → CachedRuntimeState) : Session :=
  { x with cached := x.cached.map fun entry => { entry with state := f entry.state } }

/-- A session after a call. -/
def Session.after : (c : Command) → Reply c → Session
  | .upsertSessionMeta w, .ok _ => { x.written w with reached := x.reached || w.runs }
  | .enforceConcurrentSessionLimit, .ok _ => { x with admitted := true }
  | .getCached now, _ => { x with cached := x.cached.map fun entry => { entry with lastTouchedAt := now } }
  | .setCached state now, _ => { x with cached := some ⟨state, now⟩, admitted := false }
  | .clearCached, _ => { x with cached := none }
  | .setCachedHandle handle, _ => x.updateCached fun state => { state with handle }
  | .setSignature signature, _ => x.updateCached fun state => { state with appliedControlSignature := signature }
  | .setActiveTurn, _ => { x with active := true }
  | .deleteActiveTurn, _ => { x with active := false }
  | .ensureSession _ _ _ _, .ok _ => { x with applied := {} }
  | .setMode _ mode, .ok _ => { x with applied := { x.applied with mode := some mode } }
  | .setConfigOption _ key value, .ok _ =>
    { x with applied := { x.applied with config := x.applied.config.set key value } }
  | .close _ reason, _ => { x with closes := (reason, decide (0 < x.streams)) :: x.closes }
  | .runTurn _, .ok _ => { x with streams := x.streams + 1 }
  | .nextEvent true, _ => { x with streams := x.streams - 1 }
  | .returnStream, _ => { x with streams := x.streams - 1 }
  | _, _ => x

/-- What the world has to say to a call. -/
structure World where
  error : Option Thrown := none
  now : ℚ := 0
  aborted : Bool := false
  /-- The backend that is registered. -/
  backend : Backend := ⟨"acpx", {}⟩
  handle : AcpRuntimeHandle := { backend := "acpx", runtimeSessionName := "runtime" }
  capabilities : AcpRuntimeCapabilities := {}
  status : AcpRuntimeStatus := {}
  stream : TurnStream := {}

/-- A call that the world may make fail. -/
def World.fallible {α : Type} (w : World) (value : α) : Except Thrown α :=
  match w.error with
  | some error => .error error
  | none => .ok value

/-- `runtimeCache.size`. -/
def cacheSize (sessions : JsMap String Session) : ℕ := sessions.values.countP fun x => x.cached.isSome

variable (d : Deps)

/-- The limit of `enforceConcurrentSessionLimit`. -/
def sessionLimit : Option ℤ :=
  match d.maxConcurrentSessions with
  | some (.fin q) => some (max 1 ⌊q⌋)
  | _ => none

def enforceConcurrentSessionLimit (sessions : JsMap String Session) (x : Session) : Except Thrown Unit :=
  match sessionLimit d with
  | none => .ok ()
  | some limit =>
    if x.cached.isSome then .ok ()
    else if limit ≤ cacheSize sessions then
      .error (.acp .sessionInitFailed s!"ACP max concurrent sessions reached ({cacheSize sessions}/{limit}).")
    else .ok ()

def reply (sessions : JsMap String Session) (key : String) (c : Command) (w : World) : Reply c :=
  let x := (sessions.get? key).getD {}
  match c with
  | .now => .ok w.now
  | .throwIfAborted => if w.aborted then .error (.acp .turnFailed "ACP operation aborted.") else .ok ()
  | .readMeta => .ok x.meta?
  | .upsertSessionMeta write => w.fallible (x.written write).meta?
  | .requireRuntimeBackend _ => w.fallible w.backend
  | .enforceConcurrentSessionLimit => enforceConcurrentSessionLimit d sessions x
  | .getCached _ => .ok (x.cached.map (·.state))
  | .peekCached => .ok x.cached
  | .hasActiveTurn => .ok x.active
  | .setCached _ _ | .clearCached | .setCachedHandle _ | .setSignature _ | .setActiveTurn
  | .deleteActiveTurn | .nextEvent _ => .ok ()
  | .ensureSession _ _ _ _ => w.fallible w.handle
  | .getCapabilities _ => w.fallible w.capabilities
  | .getStatus _ => w.fallible w.status
  | .runTurn _ => w.fallible w.stream
  | .setMode _ _ | .setConfigOption _ _ _ | .cancel _ | .close _ _ | .returnStream | .onEvent _ => w.fallible ()

/-- The call returns before anything else runs. -/
def Command.sync : Command → Bool
  | .now | .throwIfAborted | .readMeta | .requireRuntimeBackend _ | .enforceConcurrentSessionLimit
  | .getCached _ | .peekCached | .setCached _ _ | .clearCached | .setCachedHandle _ | .setSignature _
  | .hasActiveTurn | .setActiveTurn | .deleteActiveTurn | .runTurn _ => true
  | _ => false

def machine : Actors.Machine String Reply Session World where
  fresh := {}
  sync := Command.sync
  reply := reply d
  after := Session.after
  finish x := { x with admitted := false, reached := false }

/-- The sessions and the operations that are under way. -/
abbrev System := Actors.State String Reply Thrown Session

/-- A job for a session. -/
abbrev Job := Actors.Job String Reply Thrown Session

/-- The operations of the manager, with what they are called with. -/
inductive Op where
  /-- `initializeSession`. -/
  | initSession (input : InitializeInput)
  /-- `getSessionStatus`. -/
  | status (signal : Bool)
  /-- `setSessionRuntimeMode`. -/
  | setRuntimeMode (runtimeMode : String)
  /-- `setSessionConfigOption`. -/
  | setConfigOption (key value : String)
  /-- `updateSessionRuntimeOptions`. -/
  | updateRuntimeOptions (patch : RuntimeOptions)
  /-- `resetSessionRuntimeOptions`. -/
  | resetRuntimeOptions
  /-- `runTurn`, with or without `onEvent`. -/
  | runTurn (hasOnEvent : Bool)
  /-- `cancelSession`. -/
  | cancel
  /-- `closeSession`. -/
  | close (input : CloseInput)

/-- The job of an operation, once its input is validated. -/
def Op.job (key : String) : Op → Except Thrown Job
  | initSession input => .ok { key, prog := initializeSession d key input }
  | status signal => .ok { key, prog := getSessionStatus d key signal }
  | setRuntimeMode runtimeMode => do
    let runtimeMode ← validateRuntimeModeInput runtimeMode
    .ok { key, prog := setSessionRuntimeMode d key runtimeMode }
  | setConfigOption optionKey value => do
    let (optionKey, value) ← validateRuntimeConfigOptionInput optionKey value
    .ok { key, prog := setSessionConfigOption d key optionKey value }
  | updateRuntimeOptions patch => do
    let patch ← validateRuntimeOptionPatch patch
    .ok { key, prog := updateSessionRuntimeOptions d key patch }
  | resetRuntimeOptions => .ok { key, prog := resetSessionRuntimeOptions d key }
  | runTurn hasOnEvent => .ok { key, prog := Acp.runTurn d key hasOnEvent }
  | cancel => .ok { key, direct := fun x => x.active, prog := cancelSession d key }
  | close input => .ok { key, prog := closeSession d key input }

/-- The job of an idle eviction. -/
def evictJob (now : ℚ) (key : String) : Job :=
  { key, prog := evictCandidate (resolveRuntimeIdleTtlMs d) now }

def collectIdleCandidates (sessions : JsMap String Session) (now : ℚ) : List String :=
  if resolveRuntimeIdleTtlMs d ≤ 0 then []
  else
    (sessions.entries.filter fun e =>
      e.2.cached.any fun entry => resolveRuntimeIdleTtlMs d ≤ max 0 (now - entry.lastTouchedAt)).map Prod.fst

/-- What can happen. -/
inductive Action where
  /-- An operation is called; the idle candidates come in some order. -/
  | call (key : String) (op : Op) (now : ℚ) (candidates : List String)
  | enqueue (caller : ℕ)
  | start (i : ℕ)
  | step (i : ℕ) (w : World)
  | finish (i : ℕ)

/-- What an action is for the actors; an operation whose input is not valid throws at once. -/
def Action.lower : Action → Actors.Action String Reply Thrown Session World
  | .call key op now candidates =>
    .spawn (match op.job d key with
      | .error _ => []
      | .ok job => candidates.map (evictJob d now) ++ [job])
  | .enqueue caller => .enqueue caller
  | .start i => .start i
  | .step i w => .step i w
  | .finish i => .finish i

/-- The candidates of a call are the idle ones. -/
def Action.possible (s : System) : Action → Prop
  | .call _ _ now candidates => candidates.Perm (collectIdleCandidates d s.sessions now)
  | _ => True

instance (d : Deps) (s : System) (a : Action) : Decidable (a.possible d s) := by
  cases a <;> unfold Action.possible <;> infer_instance

def next (d : Deps) (s : System) (a : Action) : Option System :=
  if a.possible d s then Actors.next (machine d) s (a.lower d) else none

/-- The system as it starts, with what is in the store. -/
def System.start (store : List (String × Option SessionAcpMeta)) : System where
  sessions := store.foldl (fun sessions e => sessions.set e.1 { entry := some e.2 }) .empty

/-- A session of the start has what is in the store, and nothing else. -/
theorem eq_of_get?_start {store : List (String × Option SessionAcpMeta)} {key : String} {x : Session}
    (h : (System.start store).sessions.get? key = some x) : ∃ m, (key, m) ∈ store ∧ x = { entry := some m } := by
  have hfold : ∀ (es : List (String × Option SessionAcpMeta)) (sessions : JsMap String Session),
      (es.foldl (fun m e => m.set e.1 ({ entry := some e.2 } : Session)) sessions).get? key = some x →
      (∃ m, (key, m) ∈ es ∧ x = { entry := some m }) ∨ sessions.get? key = some x := by
    intro es
    induction es with
    | nil => exact fun _ h => .inr h
    | cons e es ih =>
      intro sessions hget
      rcases ih _ hget with ⟨m, hm, hx⟩ | hget
      · exact .inl ⟨m, List.mem_cons_of_mem _ hm, hx⟩
      · rw [JsMap.get?_set] at hget
        split at hget
        · rename_i hkey
          cases hget
          exact .inl ⟨e.2, hkey ▸ List.mem_cons_self, rfl⟩
        · exact .inr hget
  exact (hfold store .empty h).resolve_right fun h => by cases h

end Foxclaw.Acp
