import Foxclaw.Acp.ManagerSystem

/-!
# Which calls the operations make

For each function of the session manager, the calls it may make: those that only look (`Plain`), and the few
that change a session. What is proved of a session by looking at its calls one at a time rests on this.

## What is proved

* `uses_…` — a function makes only calls in `C`, if `C` has the plain ones and those that are named.
* `wp_io` — the precondition of a call, for a monitor that knows the session.
-/

namespace Foxclaw.Acp

open Prog

variable {C : Command → Prop} {d : Deps} {key : String}

/-- The calls that change nothing but the time a handle was touched, a handle's ids or an identity. -/
structure Plain (C : Command → Prop) : Prop where
  /-- `Date.now`. -/
  now : C .now
  throwIfAborted : C .throwIfAborted
  /-- `readSessionEntry`. -/
  readMeta : C .readMeta
  requireRuntimeBackend : ∀ backendId, C (.requireRuntimeBackend backendId)
  /-- `getCachedRuntimeState`. -/
  getCached : ∀ now, C (.getCached now)
  /-- `peek`. -/
  peekCached : C .peekCached
  /-- `cached.handle` is set. -/
  setCachedHandle : ∀ handle, C (.setCachedHandle handle)
  /-- `activeTurnBySession.has`. -/
  hasActiveTurn : C .hasActiveTurn
  getCapabilities : ∀ handle, C (.getCapabilities handle)
  getStatus : ∀ handle, C (.getStatus handle)
  cancel : ∀ handle, C (.cancel handle)
  identity : ∀ nextIdentity now, C (.upsertSessionMeta (.identity nextIdentity now))

variable {c : Command}

theorem uses_io (h : C c) : (io c).Uses C :=
  Uses.bind ((uses_call c).mpr h) fun _ => uses_ofExcept _

theorem uses_boundary {α : Type} {run : Io α} (code : AcpRuntimeErrorCode) (message : String)
    (h : run.Uses C) : (withAcpRuntimeErrorBoundary run code message).Uses C := by
  unfold withAcpRuntimeErrorBoundary
  exact Uses.tryCatch h fun _ => trivial

theorem uses_runIf {condition : Bool} {run : Io Unit} (h : run.Uses C) : (runIf condition run).Uses C := by
  unfold runIf
  split
  · exact h
  · trivial

variable {w : MetaWrite}

theorem uses_write (failOnError : Bool) (h : C (.upsertSessionMeta w)) :
    (writeSessionMeta w failOnError).Uses C := by
  refine Uses.tryCatch (uses_io h) fun error => ?_
  split <;> trivial

variable (h : Plain C)
include h

theorem Plain.getCachedRuntimeState : getCachedRuntimeState.Uses C :=
  (uses_io h.now).seq fun now => uses_io (h.getCached now)

theorem Plain.setCachedRuntimeState (state : CachedRuntimeState)
    (hset : ∀ now, C (.setCached state now)) : (setCachedRuntimeState state).Uses C :=
  (uses_io h.now).seq fun now => uses_io (hset now)

theorem Plain.resolveRuntimeCapabilities (runtime : AcpRuntime) (handle : AcpRuntimeHandle) :
    (resolveRuntimeCapabilities runtime handle).Uses C := by
  refine Uses.seq ?_ fun _ => by exact trivial
  unfold reportedCapabilities
  split
  · exact uses_boundary _ _ (uses_io (h.getCapabilities handle))
  · trivial

theorem Plain.persistRuntimeOptions (options : RuntimeOptions)
    (hwrite : ∀ now, C (.upsertSessionMeta (.options (normalizeRuntimeOptions options) now)))
    (hclear : C .clearCached) (hsignature : C (.setSignature none)) :
    (persistRuntimeOptions options).Uses C := by
  refine (uses_io h.now).seq fun now => (uses_write true (hwrite now)).seq fun _ => ?_
  refine h.getCachedRuntimeState.seq fun cached => ?_
  cases cached with
  | none => trivial
  | some cached =>
    dsimp only
    split
    · exact uses_io hclear
    · exact uses_io hsignature

theorem Plain.setSessionState (state : SessionState) (lastError : Option String) (clear : Bool)
    (hwrite : ∀ now, C (.upsertSessionMeta (.state state lastError clear now))) :
    (setSessionState state lastError clear).Uses C :=
  (uses_io h.now).seq fun now => (uses_write false (hwrite now)).seq fun _ => by trivial

theorem Plain.refreshStatus (runtime : AcpRuntime) (handle : AcpRuntimeHandle)
    (runtimeStatus : Option AcpRuntimeStatus) (failOnStatusError : Bool) :
    (refreshStatus runtime handle runtimeStatus failOnStatusError).Uses C := by
  unfold Acp.refreshStatus
  split
  · refine Uses.tryCatch (Uses.bind (uses_boundary _ _ (uses_io (h.getStatus handle))) fun _ => trivial) ?_
    intro error
    split <;> trivial
  · trivial

theorem Plain.reconcileRuntimeSessionIdentifiers (runtime : AcpRuntime) (handle : AcpRuntimeHandle)
    (m : SessionAcpMeta) (runtimeStatus : Option AcpRuntimeStatus) (failOnStatusError : Bool) :
    (reconcileRuntimeSessionIdentifiers runtime handle m runtimeStatus failOnStatusError).Uses C := by
  refine (h.refreshStatus _ _ _ _).seq fun status => ?_
  cases status with
  | none => trivial
  | some status =>
    refine (uses_io h.now).seq fun now => ?_
    refine Uses.seq (uses_runIf ?_) fun _ => Uses.seq (uses_runIf ?_) fun _ => by trivial
    · exact h.getCachedRuntimeState.seq fun cached => uses_runIf (uses_io (h.setCachedHandle _))
    · exact (uses_write false (h.identity _ now)).seq fun _ => by trivial

theorem Plain.requireReadySessionMeta : (requireReadySessionMeta d key).Uses C := by
  refine (uses_io h.readMeta).seq fun m => ?_
  cases m <;> trivial

omit h in
theorem Plain.pushConfigOptions (capabilities : AcpRuntimeCapabilities) (backend : String)
    (handle : AcpRuntimeHandle) (pairs : List (String × String))
    (hset : ∀ key value, C (.setConfigOption handle key value)) :
    (pushConfigOptions capabilities backend handle pairs).Uses C := by
  induction pairs with
  | nil => trivial
  | cons pair rest ih =>
    unfold Acp.pushConfigOptions
    split
    · exact (uses_io (hset _ _)).seq fun _ => ih
    · trivial

omit h in
theorem Plain.pushControls (runtime : AcpRuntime) (capabilities : AcpRuntimeCapabilities) (backend : String)
    (handle : AcpRuntimeHandle) (options : RuntimeOptions) (hmode : ∀ mode, C (.setMode handle mode))
    (hset : ∀ key value, C (.setConfigOption handle key value)) :
    (pushControls runtime capabilities backend handle options).Uses C := by
  refine Uses.seq ?_ fun _ => ?_
  · unfold pushMode
    split
    · trivial
    · split
      · exact uses_io (hmode _)
      · trivial
  · dsimp only
    split
    · trivial
    · split
      · exact Plain.pushConfigOptions _ _ _ _ hset
      · trivial

theorem Plain.applyRuntimeControls (runtime : AcpRuntime) (handle : AcpRuntimeHandle) (m : SessionAcpMeta)
    (hmode : ∀ mode, C (.setMode handle mode)) (hset : ∀ key value, C (.setConfigOption handle key value))
    (hsignature : ∀ signature, C (.setSignature (some signature))) :
    (applyRuntimeControls d runtime handle m).Uses C := by
  refine h.getCachedRuntimeState.seq fun cached => ?_
  dsimp only
  split
  · trivial
  · refine (h.resolveRuntimeCapabilities _ _).seq fun capabilities => Uses.seq ?_ fun _ => ?_
    · exact uses_boundary _ _ (Plain.pushControls _ _ _ _ _ hmode hset)
    · exact uses_io (hsignature _)

theorem Plain.checkSignal (signal : Bool) : (checkSignal signal).Uses C := by
  unfold Acp.checkSignal
  split
  · exact uses_io h.throwIfAborted
  · trivial

theorem Plain.evictCandidate (idleTtlMs now : ℚ) (hclear : C .clearCached)
    (hclose : ∀ handle, C (.close handle "idle-evicted")) : (evictCandidate idleTtlMs now).Uses C := by
  refine (uses_io h.hasActiveTurn).seq fun active => ?_
  split
  · trivial
  · refine (uses_io h.peekCached).seq fun entry => ?_
    cases entry with
    | none => trivial
    | some entry =>
      dsimp only
      split
      · trivial
      · exact (uses_io hclear).seq fun _ => (uses_io (hclose _)).attempt.seq fun _ => trivial

omit h in
theorem uses_consumeEvents (hasOnEvent : Bool) (failure : Option Thrown) (events : List AcpRuntimeEvent)
    (streamError : Option Thrown) (hnext : ∀ last, C (.nextEvent last)) (hevent : ∀ event, C (.onEvent event))
    (hreturn : C .returnStream) : (consumeEvents hasOnEvent failure events streamError).Uses C := by
  induction events generalizing streamError with
  | nil =>
    refine (uses_io (hnext true)).seq fun _ => ?_
    cases failure <;> trivial
  | cons event rest ih =>
    refine (uses_io (hnext false)).seq fun _ => ?_
    dsimp only
    split
    · refine (uses_io (hevent event)).attempt.seq fun outcome => ?_
      cases outcome with
      | ok _ => exact ih _
      | error e => exact (uses_io hreturn).attempt.seq fun _ => by trivial
    · exact ih _

theorem Plain.afterTurn (runtime : AcpRuntime) (handle : AcpRuntimeHandle) (m : SessionAcpMeta)
    (hclose : C (.close handle "oneshot-complete")) (hclear : C .clearCached) :
    (afterTurn runtime handle m).Uses C := by
  unfold Acp.afterTurn
  split
  · exact (uses_io hclose).attempt.seq fun _ => uses_io hclear
  · exact (h.reconcileRuntimeSessionIdentifiers _ _ _ _ _).seq fun _ => by trivial

theorem Plain.readStatus (runtime : AcpRuntime) (handle : AcpRuntimeHandle) (signal : Bool) :
    (readStatus runtime handle signal).Uses C := by
  unfold Acp.readStatus
  split
  · refine uses_boundary _ _ ((h.checkSignal signal).seq fun _ => ?_)
    exact (uses_io (h.getStatus handle)).seq fun _ => (h.checkSignal signal).seq fun _ => by trivial
  · trivial

/-- Also the calls by which a handle is ensured. -/
theorem Plain.ensureNewHandle {m : SessionAcpMeta} (configuredBackend agent : String) (cwd : Option String)
    (hlimit : C .enforceConcurrentSessionLimit) (hensure : ∀ agent mode id cwd, C (.ensureSession agent mode id cwd))
    (hwrite : ∀ m', m'.state = m.state → C (.upsertSessionMeta (.ensured m')))
    (hset : ∀ state now, C (.setCached state now)) : (ensureNewHandle m configuredBackend agent cwd).Uses C := by
  refine (uses_io hlimit).seq fun _ => (uses_io (h.requireRuntimeBackend _)).seq fun backend => ?_
  refine (uses_boundary _ _ (uses_io (hensure _ _ _ _))).seq fun ensured => ?_
  refine (uses_io h.now).seq fun now => (uses_runIf ?_).seq fun _ => ?_
  · exact (uses_write false (hwrite _ (by rfl))).seq fun _ => by trivial
  · exact (h.setCachedRuntimeState _ (hset _)).seq fun _ => by trivial

theorem Plain.ensureRuntimeHandle {m : SessionAcpMeta} (hlimit : C .enforceConcurrentSessionLimit)
    (hensure : ∀ agent mode id cwd, C (.ensureSession agent mode id cwd))
    (hwrite : ∀ m', m'.state = m.state → C (.upsertSessionMeta (.ensured m')))
    (hset : ∀ state now, C (.setCached state now)) (hclear : C .clearCached) :
    (ensureRuntimeHandle d key m).Uses C := by
  have hnew (configuredBackend agent : String) (cwd : Option String) :=
    h.ensureNewHandle configuredBackend agent cwd hlimit hensure hwrite hset
  refine h.getCachedRuntimeState.seq fun cached => ?_
  cases cached with
  | none => exact hnew _ _ _
  | some cached =>
    dsimp only
    split
    · trivial
    · exact (uses_io hclear).seq fun _ => hnew _ _ _

theorem Plain.initializeSession (input : InitializeInput) (hlimit : C .enforceConcurrentSessionLimit)
    (hensure : ∀ agent mode id cwd, C (.ensureSession agent mode id cwd))
    (hwrite : ∀ m, m.state = .idle → C (.upsertSessionMeta (.init m)))
    (hclose : ∀ handle reason, C (.close handle reason)) (hset : ∀ state now, C (.setCached state now)) :
    (initializeSession d key input).Uses C := by
  refine (uses_io (h.requireRuntimeBackend _)).seq fun backend => (uses_ofExcept _).seq fun options => ?_
  refine (uses_io hlimit).seq fun _ => (uses_boundary _ _ (uses_io (hensure _ _ _ _))).seq fun handle => ?_
  refine (uses_io h.now).seq fun now => Uses.seq (Uses.tryCatch ?_ fun error => ?_) fun _ => ?_
  · exact (uses_write true (hwrite _ (by rfl))).seq fun _ => uses_runIf trivial
  · exact (uses_io (hclose _ _)).attempt.seq fun _ => by trivial
  · exact h.setCachedRuntimeState _ (hset _)

omit h in
theorem uses_closeRuntime {m : SessionAcpMeta} (input : CloseInput) (hensure : (ensureRuntimeHandle d key m).Uses C)
    (hclose : ∀ handle reason, C (.close handle reason)) (hclear : C .clearCached) :
    (closeRuntime d key input m).Uses C := by
  refine Uses.tryCatch ?_ fun error => ?_
  · exact hensure.seq fun e => (uses_boundary _ _ (uses_io (hclose _ _))).seq fun _ => uses_io hclear
  · dsimp only
    split
    · exact uses_io hclear
    · trivial

theorem Plain.streamTurn (handle : AcpRuntimeHandle) (hasOnEvent : Bool) (hturn : C (.runTurn handle))
    (hnext : ∀ last, C (.nextEvent last)) (hevent : ∀ event, C (.onEvent event)) (hreturn : C .returnStream)
    (hstate : ∀ state lastError clear now, C (.upsertSessionMeta (.state state lastError clear now))) :
    (streamTurn handle hasOnEvent).Uses C := by
  refine Uses.tryCatch ?_ fun error => ?_
  · refine (uses_io hturn).seq fun stream => ?_
    refine (uses_consumeEvents _ _ _ _ hnext hevent hreturn).seq fun streamError => ?_
    cases streamError with
    | none => exact h.setSessionState _ _ _ (hstate _ _ _)
    | some error => trivial
  · exact (h.setSessionState _ _ _ (hstate _ _ _)).seq fun _ => by trivial

omit h

/-! ### Operations after a handle is ensured -/

/-- The calls that change the options and close a handle. -/
structure Changes (C : Command → Prop) : Prop where
  mode : ∀ handle mode, C (.setMode handle mode)
  option : ∀ handle key value, C (.setConfigOption handle key value)
  options : ∀ normalized now, C (.upsertSessionMeta (.options normalized now))
  signature : C (.setSignature none)
  clear : C .clearCached
  close : ∀ handle reason, C (.close handle reason)

/-- A property that programs have which make only calls in `C`, also after a handle is ensured. -/
structure Follows (C : Command → Prop) (d : Deps) (key : String) (S : Io Unit → Prop) : Prop where
  plain : Plain C
  uses : ∀ p, p.Uses C → S p
  seq : ∀ {α : Type} {p : Io α} {f : α → Io Unit}, p.Uses C → (∀ a, S (f a)) → S (p >>= f)
  ensured : ∀ {f}, (∀ e, (f e).Uses C) →
    S (requireReadySessionMeta d key >>= fun m => ensureRuntimeHandle d key m >>= f)

namespace Follows

variable {S : Io Unit → Prop} (hF : Follows C d key S) (hC : Changes C)

include hF

theorem getSessionStatus (signal : Bool) : S (getSessionStatus d key signal) := by
  refine hF.seq (hF.plain.checkSignal signal) fun _ => hF.seq (hF.plain.checkSignal signal) fun _ => ?_
  refine hF.ensured fun e => (hF.plain.resolveRuntimeCapabilities _ _).seq fun _ => ?_
  refine (hF.plain.readStatus _ _ signal).seq fun _ => ?_
  exact (hF.plain.reconcileRuntimeSessionIdentifiers _ _ _ _ _).seq fun _ => trivial

theorem cancelSession (hstate : ∀ state lastError clear now, state ≠ .running →
    C (.upsertSessionMeta (.state state lastError clear now))) : S (cancelSession d key) := by
  refine hF.ensured fun e => Uses.tryCatch ?_ fun error => ?_
  · refine (uses_boundary _ _ (uses_io (hF.plain.cancel _))).seq fun _ => ?_
    exact hF.plain.setSessionState _ _ _ fun now => hstate .idle _ _ now (by decide)
  · exact (hF.plain.setSessionState _ _ _ fun now => hstate .error _ _ now (by decide)).seq fun _ => by trivial

include hC

theorem persistRuntimeOptions (options : RuntimeOptions) : (persistRuntimeOptions options).Uses C :=
  hF.plain.persistRuntimeOptions options (hC.options _) hC.clear hC.signature

theorem setSessionRuntimeMode (mode : String) : S (setSessionRuntimeMode d key mode) := by
  refine hF.ensured fun e => (hF.plain.resolveRuntimeCapabilities _ _).seq fun _ => ?_
  dsimp only
  split
  · refine (uses_boundary _ _ (uses_io (hC.mode _ _))).seq fun _ => ?_
    exact (uses_ofExcept _).seq fun _ => hF.persistRuntimeOptions hC _
  · trivial

theorem setSessionConfigOption (optionKey value : String) : S (setSessionConfigOption d key optionKey value) := by
  refine hF.ensured fun e => (uses_ofExcept _).seq fun _ => (hF.plain.resolveRuntimeCapabilities _ _).seq fun _ => ?_
  dsimp only
  split
  · split
    · refine (uses_boundary _ _ (uses_io (hC.option _ _ _))).seq fun _ => ?_
      exact (uses_ofExcept _).seq fun _ => hF.persistRuntimeOptions hC _
    · trivial
  · trivial

theorem updateSessionRuntimeOptions (patch : RuntimeOptions) : S (updateSessionRuntimeOptions d key patch) :=
  hF.uses _ (hF.plain.requireReadySessionMeta.seq fun _ => (uses_ofExcept _).seq fun _ => hF.persistRuntimeOptions hC _)

theorem resetSessionRuntimeOptions : S (resetSessionRuntimeOptions d key) := by
  refine hF.ensured fun e => (uses_boundary _ _ (uses_io (hC.close _ _))).seq fun _ => ?_
  exact (uses_io hC.clear).seq fun _ => hF.persistRuntimeOptions hC _

end Follows

variable {P : Io Unit → Prop}

/-- What holds of the program of each operation holds of its job. -/
theorem job_prog {op : Op} {job : Job} (h : op.job d key = .ok job)
    (hinit : ∀ input, op = .initSession input → P (initializeSession d key input))
    (hstatus : ∀ signal, P (getSessionStatus d key signal))
    (hmode : ∀ rawMode mode, validateRuntimeModeInput rawMode = .ok mode → P (setSessionRuntimeMode d key mode))
    (hoption : ∀ rawKey rawValue pair, validateRuntimeConfigOptionInput rawKey rawValue = .ok pair →
      P (setSessionConfigOption d key pair.1 pair.2))
    (hupdate : ∀ patch, P (updateSessionRuntimeOptions d key patch))
    (hreset : P (resetSessionRuntimeOptions d key)) (hturn : ∀ hasOnEvent, P (runTurn d key hasOnEvent))
    (hcancel : P (cancelSession d key)) (hclose : ∀ input, P (closeSession d key input)) : P job.prog := by
  cases op with
  | initSession input => cases h; exact hinit input rfl
  | status signal => cases h; exact hstatus signal
  | setRuntimeMode mode =>
    cases hvalid : validateRuntimeModeInput mode with
    | error e => rw [Op.job, hvalid] at h; cases h
    | ok mode => rw [Op.job, hvalid] at h; cases h; exact hmode _ mode hvalid
  | setConfigOption optionKey value =>
    cases hvalid : validateRuntimeConfigOptionInput optionKey value with
    | error e => rw [Op.job, hvalid] at h; cases h
    | ok pair => rw [Op.job, hvalid] at h; cases h; exact hoption _ _ pair hvalid
  | updateRuntimeOptions patch =>
    cases hvalid : validateRuntimeOptionPatch patch with
    | error e => rw [Op.job, hvalid] at h; cases h
    | ok patch => rw [Op.job, hvalid] at h; cases h; exact hupdate patch
  | resetRuntimeOptions => cases h; exact hreset
  | runTurn hasOnEvent => cases h; exact hturn hasOnEvent
  | cancel => cases h; exact hcancel
  | close input => cases h; exact hclose input

/-- What holds of the programs of an operation and of an eviction holds of all jobs of a call. -/
theorem spawned_prog {op : Op} {now : ℚ} {candidates : List String}
    (hjob : ∀ job, op.job d key = .ok job → P job.prog)
    (hevict : ∀ idleTtlMs now, P (evictCandidate idleTtlMs now)) {jobs : List Job}
    (h : (Action.call key op now candidates).lower d = .spawn jobs) : ∀ job ∈ jobs, P job.prog := by
  intro job hmem
  rw [Action.lower, Actors.Action.spawn.injEq] at h
  subst h
  split at hmem
  · cases hmem
  · rename_i main hmain
    rcases List.mem_append.mp hmem with hmem | hmem
    · obtain ⟨candidate, -, rfl⟩ := List.mem_map.mp hmem
      exact hevict _ _
    · rw [List.mem_singleton.mp hmem]
      exact hjob main hmain

/-! ### Monitors that know the session -/

/-- A call that does not fail. -/
def Command.certain : Command → Bool
  | .now | .readMeta | .getCached _ | .peekCached | .setCached _ _ | .clearCached | .setCachedHandle _
  | .setSignature _ | .hasActiveTurn | .setActiveTurn | .deleteActiveTurn | .nextEvent _ => true
  | _ => false

/-- What a session knows of the reply to a call. -/
def Answers (x : Session) (c : Command) (r : Reply c) : Prop :=
  (c.certain = true → ∃ a, r = .ok a) ∧
    match c, r with
    | .readMeta, .ok m => m = x.meta?
    | .upsertSessionMeta w, .ok m => m = (x.written w).meta?
    | .getCached _, .ok state => state = x.cached.map (·.state)
    | .peekCached, .ok entry => entry = x.cached
    | .hasActiveTurn, .ok active => active = x.active
    | _, _ => True

theorem reply_answers (sessions : JsMap String Session) (c : Command) (w : World) :
    Answers ((sessions.get? key).getD {}) c (reply d sessions key c w) := by
  cases c
  case upsertSessionMeta write =>
    rcases w with ⟨_ | error⟩
    · exact ⟨fun h => (by cases h), rfl⟩
    · exact ⟨fun h => (by cases h), trivial⟩
  case throwIfAborted | requireRuntimeBackend | enforceConcurrentSessionLimit | ensureSession | getCapabilities
    | getStatus | setMode | setConfigOption | cancel | close | runTurn | returnStream | onEvent =>
    exact ⟨fun h => (by cases h), trivial⟩
  all_goals exact ⟨fun _ => ⟨_, rfl⟩, (by first | rfl | trivial)⟩

variable {m : Monitor Command Reply Session} {x : Session}

variable {E : Session → Thrown → Prop}

theorem wp_io {Q : Session → Value c → Prop}
    (hok : m.ok x c) (hQ : ∀ a, m.valid x c (.ok a) → Q (m.next x c (.ok a)) a)
    (hE : ∀ e, m.valid x c (.error e) → E (m.next x c (.error e)) e) : m.wp (io c) Q E x := by
  rw [io, Monitor.wp_bind, Monitor.wp_call]
  refine ⟨hok, ?_⟩
  rintro (e | a) hr
  · exact hE e hr
  · exact hQ a hr

theorem Answers.not_error {e : Thrown} (h : Answers x c (.error e)) : c.certain = false := by
  cases hc : c.certain
  · rfl
  · obtain ⟨_, ⟨⟩⟩ := h.1 hc

theorem wp_certain {Q : Session → Value c → Prop}
    (hc : c.certain = true) (hvalid : ∀ r, m.valid x c r → Answers x c r) (hok : m.ok x c)
    (hQ : ∀ a, m.valid x c (.ok a) → Q (m.next x c (.ok a)) a) : m.wp (io c) Q E x :=
  wp_io hok hQ fun _ he => absurd ((hvalid _ he).not_error.symm.trans hc) Bool.false_ne_true

theorem wp_boundary {α : Type} {run : Io α} {code : AcpRuntimeErrorCode} {message : String}
    {Q : Session → α → Prop}
    (h : m.wp run Q (fun y e => E y (.acp (toAcpRuntimeError e code message).1
      (toAcpRuntimeError e code message).2)) x) :
    m.wp (withAcpRuntimeErrorBoundary run code message) Q E x :=
  (Monitor.wp_tryCatch _ _).mpr h

variable {Q : Session → Option SessionAcpMeta → Prop}

/-- The precondition of a write that may fail without harm. -/
theorem wp_write
    (hok : m.ok x (.upsertSessionMeta w))
    (hQ : ∀ a, m.valid x (.upsertSessionMeta w) (.ok a) → Q (m.next x (.upsertSessionMeta w) (.ok a)) a)
    (hE : ∀ e, m.valid x (.upsertSessionMeta w) (.error e) →
      Q (m.next x (.upsertSessionMeta w) (.error e)) none) :
    m.wp (writeSessionMeta w false) Q E x :=
  (Monitor.wp_tryCatch _ _).mpr (wp_io hok hQ hE)

theorem wp_writeOrThrow (hok : m.ok x (.upsertSessionMeta w))
    (hQ : ∀ a, m.valid x (.upsertSessionMeta w) (.ok a) → Q (m.next x (.upsertSessionMeta w) (.ok a)) a)
    (hE : ∀ e, m.valid x (.upsertSessionMeta w) (.error e) → E (m.next x (.upsertSessionMeta w) (.error e)) e) :
    m.wp (writeSessionMeta w true) Q E x :=
  (Monitor.wp_tryCatch _ _).mpr (wp_io hok hQ hE)

/-- The precondition of a program under a condition. -/
theorem wp_runIf {condition : Bool} {run : Io Unit} {Q : Session → Unit → Prop}
    (hrun : condition = true → m.wp run Q E x) (hnot : condition = false → Q x ()) :
    m.wp (runIf condition run) Q E x := by
  unfold runIf
  split
  · exact hrun ‹_›
  · exact hnot (Bool.eq_false_of_not_eq_true ‹_›)

end Foxclaw.Acp
