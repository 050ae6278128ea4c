import Foxclaw.Acp.ManagerCalls

/-!
# The lifecycle of a turn

A turn sets the state to `running`, streams, and sets it to `idle` or `error`; in the end it reconciles the
ids of the session. While metadata writes succeed, one stream is active at a time, nothing is closed meanwhile,
and a session at rest is not running. The error that is persisted is the message without the white space
around it.

## What is proved

* `atRest_after`, `settled_written` — what calls that do not touch a turn keep.
* `consumeEvents_over`, `streamTurn_ended` — how a stream comes to its end, whatever throws.
* `runTurn_ended` — how a turn does.
* `turn_lifecycle` — the lifecycle in every run in which metadata writes succeed.
* `padded_message` — an error whose message is not persisted as it is.
-/

namespace Foxclaw.Acp

open Option Monitor Prog

variable {d : Deps} {key : String}

/-- The message of an error. -/
def Thrown.message : Thrown → String
  | .acp _ message => message
  | .error message => message
  | .other => ""

/-- A stream starts when none is active, a handle is closed when none is, and metadata writes succeed. -/
def turnMonitor : Monitor Command Reply Session where
  ok x
    | .runTurn _ | .close _ _ => x.streams = 0
    | _ => True
  valid x c r := Answers x c r ∧
    match c, r with
    | .upsertSessionMeta _, .error _ => False
    | _, _ => True
  next := Session.after

/-- No turn is under way. -/
structure Settled (x : Session) : Prop where
  /-- No stream is active. -/
  streams : x.streams = 0
  /-- No turn is. -/
  active : x.active = false
  /-- The state is not `running`. -/
  state : ∀ m, x.meta? = some m → m.state ≠ .running

/-- No turn is under way, and none was in this operation. -/
structure AtRest (x : Session) : Prop extends Settled x where
  /-- The operation has not set the state to `running`. -/
  reached : x.reached = false

/-- The metadata is there. -/
def Session.Present (x : Session) : Prop := x.meta?.isSome = true

variable {x y : Session} {m : SessionAcpMeta} {α β : Type}

/-- A call that does not touch a turn. -/
def Calm : Command → Prop
  | .runTurn _ | .setActiveTurn | .upsertSessionMeta .clear => False
  | .upsertSessionMeta (.init m) | .upsertSessionMeta (.ensured m) => m.state ≠ .running
  | .upsertSessionMeta (.state state _ _ _) => state ≠ .running
  | _ => True

theorem plain_calm : Plain Calm :=
  ⟨trivial, trivial, trivial, fun _ => trivial, fun _ => trivial, trivial, fun _ => trivial, trivial,
    fun _ => trivial, fun _ => trivial, fun _ => trivial, fun _ _ => trivial⟩

theorem Session.Present.exists (h : x.Present) : ∃ m, x.meta? = some m ∧ x.entry = some (some m) := by
  obtain ⟨m, hm⟩ := isSome_iff_exists.mp h
  refine ⟨m, hm, ?_⟩
  cases hentry : x.entry with
  | none => rw [Session.meta?, hentry] at hm; cases hm
  | some entry => rw [Session.meta?, hentry] at hm; exact congrArg some hm

variable {w : MetaWrite}

/-- The metadata after a write that is made to the metadata as it is. -/
theorem meta?_written {f : SessionAcpMeta → SessionAcpMeta}
    (hw : ∀ entry, w.mutate entry = entry.join.map f) : (x.written w).meta? = x.meta?.map f := by
  unfold Session.written
  rw [hw]
  cases hentry : x.entry.join with
  | none =>
    rw [Session.meta?, Session.meta?, hentry]
    cases x.entry <;> rfl
  | some m => rw [Session.meta?, Session.meta?, hentry]; rfl

/-- A calm write sets no state but those that are not `running`. -/
theorem settled_written (hw : Calm (.upsertSessionMeta w)) (hx : Settled x) : Settled (x.written w) := by
  refine ⟨(x.streams_written w).trans hx.streams, (x.active_written w).trans hx.active, fun m hm => ?_⟩
  cases w with
  | init m' => cases hm; exact hw
  | ensured m' =>
    have hstate : ∀ entry, MetaWrite.mutate (.ensured m') entry = entry.map fun _ => m' := fun _ => rfl
    unfold Session.written at hm
    rw [hstate] at hm
    cases hentry : x.entry with
    | none => rw [hentry] at hm; cases hm
    | some entry => rw [hentry] at hm; cases hm; exact hw
  | options normalized now =>
    rw [meta?_written fun _ => rfl] at hm
    obtain ⟨m₀, hm₀, rfl⟩ := map_eq_some_iff.mp hm
    exact hx.state m₀ hm₀
  | state newState lastError clear now =>
    rw [meta?_written fun _ => rfl] at hm
    obtain ⟨m₀, hm₀, rfl⟩ := map_eq_some_iff.mp hm
    exact hw
  | identity nextIdentity now =>
    rw [meta?_written fun _ => rfl] at hm
    obtain ⟨m₀, hm₀, rfl⟩ := map_eq_some_iff.mp hm
    exact hx.state m₀ hm₀
  | clear => exact hw.elim

theorem runs_of_calm (hw : Calm (.upsertSessionMeta w)) : w.runs = false := by
  cases w with
  | state newState => cases newState <;> first | rfl | exact absurd rfl hw
  | _ => rfl

variable {c : Command}

theorem atRest_after (hc : Calm c) (hx : AtRest x) (r : Reply c) : AtRest (x.after c r) := by
  cases c
  case upsertSessionMeta w =>
    cases r with
    | error e => exact hx
    | ok _ =>
      have h := settled_written hc hx.toSettled
      refine ⟨⟨h.streams, h.active, h.state⟩, ?_⟩
      change (x.reached || w.runs) = false
      rw [hx.reached, runs_of_calm hc]
      rfl
  case runTurn | setActiveTurn => exact hc.elim
  case deleteActiveTurn => exact ⟨⟨hx.streams, rfl, hx.state⟩, hx.reached⟩
  case nextEvent last =>
    cases last with
    | false => exact hx
    | true => exact ⟨⟨(congrArg (· - 1) hx.streams : _), hx.active, hx.state⟩, hx.reached⟩
  case returnStream => exact ⟨⟨(congrArg (· - 1) hx.streams : _), hx.active, hx.state⟩, hx.reached⟩
  case enforceConcurrentSessionLimit | ensureSession | setMode | setConfigOption =>
    cases r <;> exact ⟨⟨hx.streams, hx.active, hx.state⟩, hx.reached⟩
  all_goals exact ⟨⟨hx.streams, hx.active, hx.state⟩, hx.reached⟩

theorem calm_ok (hc : Calm c) (hx : x.streams = 0) : turnMonitor.ok x c := by
  cases c <;> trivial

theorem present_after (hc : Calm c) (hx : x.Present) (r : Reply c) : (x.after c r).Present := by
  cases c
  case upsertSessionMeta w =>
    cases r with
    | error e => exact hx
    | ok _ =>
      obtain ⟨m, -, hentry⟩ := hx.exists
      change (x.written w).meta?.isSome = true
      cases w with
      | clear => exact hc.elim
      | _ => simp [Session.written, MetaWrite.mutate, hentry, Session.meta?]
  case nextEvent last => cases last <;> exact hx
  case enforceConcurrentSessionLimit | ensureSession | setMode | setConfigOption | runTurn => cases r <;> exact hx
  all_goals exact hx

/-! ### Programs that do not touch a turn -/

theorem wp_calm {p : Io α} (hp : p.Uses Calm) (hx : AtRest x) :
    turnMonitor.wp p (fun y _ => AtRest y) (fun y _ => AtRest y) x :=
  wp_of_uses (fun _ hc _ hy => ⟨calm_ok hc hy.streams, fun r _ => atRest_after hc hy r⟩) hp hx

theorem wp_present {p : Io α} (hp : p.Uses Calm) (hx : AtRest x) (hpresent : x.Present) :
    turnMonitor.wp p (fun y _ => AtRest y ∧ y.Present) (fun y _ => AtRest y) x :=
  wp_mono (fun _ _ h => h) (fun _ _ h => h.1)
    (wp_of_uses (J := fun y => AtRest y ∧ y.Present)
      (fun _ hc _ hy => ⟨calm_ok hc hy.1.streams, fun r _ => ⟨atRest_after hc hy.1 r, present_after hc hy.2 r⟩⟩) hp
      ⟨hx, hpresent⟩)

theorem ensureRuntimeHandle_calm (hm : m.state ≠ .running) : (ensureRuntimeHandle d key m).Uses Calm :=
  plain_calm.ensureRuntimeHandle trivial (fun _ _ _ _ => trivial) (fun _ h => h.trans_ne hm) (fun _ _ => trivial) trivial

variable {E : Session → Thrown → Prop}

variable {f : AcpRuntime × AcpRuntimeHandle × SessionAcpMeta → Io α} {Q : Session → α → Prop}

/-- The rule for what comes after a handle is ensured. -/
theorem atRest_ensured (hx : AtRest x) (hE : ∀ y e, AtRest y → E y e)
    (hf : ∀ y e, AtRest y → y.Present → turnMonitor.wp (f e) Q E y) :
    turnMonitor.wp (requireReadySessionMeta d key >>= fun m => ensureRuntimeHandle d key m >>= f) Q E x := by
  refine wp_seq (wp_seq (wp_certain rfl (fun _ h => h.1) trivial fun meta? hanswer => ?_))
  have heq : meta? = x.meta? := hanswer.1.2
  cases meta? with
  | none => exact hE _ _ hx
  | some m =>
    have hpresent : x.Present := isSome_iff_exists.mpr ⟨m, heq.symm⟩
    exact wp_seq (wp_mono (fun y e h => hf y e h.1 h.2) (fun y e h => hE y e h)
      (wp_present (ensureRuntimeHandle_calm (hx.state m heq.symm)) hx hpresent))

theorem wp_ensured_calm (hx : AtRest x) (hf : ∀ e, (f e).Uses Calm) :
    turnMonitor.wp (requireReadySessionMeta d key >>= fun m => ensureRuntimeHandle d key m >>= f)
      (fun y _ => AtRest y) (fun y _ => AtRest y) x :=
  atRest_ensured hx (fun _ _ h => h) fun _ e hy _ => wp_calm (hf e) hy

theorem changes_calm : Changes Calm :=
  ⟨fun _ _ => trivial, fun _ _ _ => trivial, fun _ _ => trivial, trivial, trivial, fun _ _ => trivial⟩

/-- The program leaves a session at rest. -/
def Rests (p : Io Unit) : Prop :=
  ∀ x, AtRest x → turnMonitor.wp p (fun y _ => AtRest y) (fun y _ => AtRest y) x

theorem follows_rests : Follows Calm d key Rests :=
  ⟨plain_calm, fun _ hp _ => wp_calm hp, fun hp hf _ hx => wp_seq (wp_mono (fun y a hy => hf a y hy)
    (fun _ _ h => h) (wp_calm hp hx)), fun hf _ hx => wp_ensured_calm hx hf⟩

theorem closeSession_rests (input : CloseInput) : Rests (closeSession d key input) := by
  intro x hx
  refine wp_seq (wp_certain rfl (fun _ h => h.1) trivial fun meta? hanswer => ?_)
  have heq : meta? = x.meta? := hanswer.1.2
  cases meta? with
  | none =>
    dsimp only
    split <;> exact hx
  | some m =>
    have hclose : (closeRuntime d key input m).Uses Calm :=
      uses_closeRuntime input (ensureRuntimeHandle_calm (hx.state m heq.symm)) (fun _ _ => trivial) trivial
    refine wp_seq (wp_mono (fun y _ hy => ?_) (fun _ _ h => h) (wp_calm hclose hx))
    refine wp_runIf (fun _ => wp_seq (wp_writeOrThrow trivial (fun a _ => ?_) fun _ h => h.2.elim)) fun _ => hy
    refine ⟨⟨hy.streams, hy.active, fun m hm => ?_⟩, (Bool.or_false _).trans hy.reached⟩
    have hnone : (y.written .clear).meta? = none := by
      change (y.entry.map fun _ => none).join = none
      cases y.entry <;> rfl
    cases hnone.symm.trans hm

/-! ### A turn -/

/-- A turn is under way. -/
structure Running (streams : ℕ) (active : Bool) (x : Session) : Prop where
  /-- So many streams are active. -/
  streams : x.streams = streams
  /-- The turn is, or is not yet, in `activeTurnBySession`. -/
  active : x.active = active
  /-- The operation has set the state. -/
  reached : x.reached = true
  /-- The state is `running`, without an error. -/
  state : ∃ m, x.meta? = some m ∧ m.state = .running ∧ m.lastError = none

/-- A turn has come to its end in a state. -/
structure Ended (active : Bool) (state : SessionState) (lastError : Option String) (x : Session) : Prop where
  /-- No stream is active. -/
  streams : x.streams = 0
  /-- The turn is, or is no longer, in `activeTurnBySession`. -/
  active : x.active = active
  /-- The operation has set the state. -/
  reached : x.reached = true
  /-- The state and the error are these. -/
  state : ∃ m, x.meta? = some m ∧ m.state = state ∧ m.lastError = lastError

@[simp] theorem nonEmpty_normalizeText (value : Option String) :
    nonEmpty (normalizeText value) = normalizeText value := by
  cases value with
  | none => rfl
  | some text => by_cases h : Text.trimString text = "" <;> simp [nonEmpty, normalizeText, Option.filter, h]

variable {lastError : Option String} {state : SessionState}

/-- What `setSessionState` leaves, where the metadata is there. -/
theorem wp_setSessionState {clear : Bool}
    {Q : Session → Unit → Prop} (hm : x.meta? = some m)
    (hQ : ∀ y : Session, y.streams = x.streams → y.active = x.active →
      y.reached = (x.reached || decide (state = .running)) →
      (∃ m', y.meta? = some m' ∧ m'.state = state ∧
        m'.lastError = (normalizeText lastError).or (if clear then none else nonEmpty m.lastError)) → Q y ()) :
    turnMonitor.wp (setSessionState state lastError clear) Q E x := by
  refine wp_seq (wp_certain rfl (fun _ h => h.1) trivial fun now _ => ?_)
  refine wp_seq (wp_write trivial (fun a _ => ?_) fun _ h => h.2.elim)
  have hmeta : (x.written (.state state lastError clear now)).meta? = _ := meta?_written fun _ => rfl
  rw [hm] at hmeta
  have hruns : MetaWrite.runs (.state state lastError clear now) = decide (state = .running) := by
    cases state <;> rfl
  refine hQ _ (x.streams_written _) (x.active_written _) (congrArg (x.reached || ·) hruns) ⟨_, hmeta, rfl, ?_⟩
  cases normalizeText lastError <;> simp

/-- The loop over the events ends the stream, also when something throws. -/
theorem consumeEvents_over (hasOnEvent : Bool) (failure : Option Thrown) (events : List AcpRuntimeEvent)
    (streamError : Option Thrown) (hx : Running 1 true x) :
    turnMonitor.wp (consumeEvents hasOnEvent failure events streamError) (fun y _ => Running 0 true y)
      (fun y _ => Running 0 true y) x := by
  have hover : Running 0 true { x with streams := x.streams - 1 } :=
    ⟨(congrArg (· - 1) hx.streams : _), hx.active, hx.reached, hx.state⟩
  induction events generalizing streamError with
  | nil =>
    refine wp_seq (wp_certain rfl (fun _ h => h.1) trivial fun _ _ => ?_)
    cases failure <;> exact hover
  | cons event rest ih =>
    refine wp_seq (wp_certain rfl (fun _ h => h.1) trivial fun _ _ => ?_)
    dsimp only
    split
    · refine wp_seq (wp_caught (wp_io trivial (fun _ _ => ih _) fun e _ => ?_))
      exact wp_seq (wp_caught (wp_io trivial (fun _ _ => hover) fun _ _ => hover))
    · exact ih _

/-- The stream ends in `idle`, or in `error` with what is thrown. -/
theorem streamTurn_ended (handle : AcpRuntimeHandle) (hasOnEvent : Bool) (hx : Running 0 true x) :
    turnMonitor.wp (streamTurn handle hasOnEvent) (fun y _ => Ended true .idle none y)
      (fun y e => Ended true .error (normalizeText (some e.message)) y) x := by
  have hfailed (y : Session) (hy : Running 0 true y) (error : AcpRuntimeErrorCode × String) :
      turnMonitor.wp (setSessionState .error (some error.2) false >>= fun _ =>
          (.throw (.acp error.1 error.2) : Io Unit)) (fun y _ => Ended true .idle none y)
        (fun y e => Ended true .error (normalizeText (some e.message)) y) y := by
    obtain ⟨m, hm, -, herror⟩ := hy.state
    refine wp_seq (wp_setSessionState hm fun z hstreams hactive hreached hstate => ?_)
    refine ⟨hstreams.trans hy.streams, hactive.trans hy.active, hreached.trans (by rw [hy.reached]; rfl), ?_⟩
    obtain ⟨m', hm', hstate, hlast⟩ := hstate
    exact ⟨m', hm', hstate, hlast.trans (by simp [herror, nonEmpty, Thrown.message])⟩
  refine (wp_tryCatch _ _).mpr (wp_mono (fun _ _ h => h) (fun y error hy => hfailed y hy _) ?_)
  refine wp_seq (wp_io hx.streams (fun stream _ => ?_) fun _ _ => hx)
  have hstreaming : Running 1 true { x with streams := x.streams + 1 } :=
    ⟨(congrArg (· + 1) hx.streams : _), hx.active, hx.reached, hx.state⟩
  refine wp_seq (wp_mono (fun y streamError hy => ?_) (fun _ _ h => h) (consumeEvents_over _ _ _ _ hstreaming))
  cases streamError with
  | some error => exact hy
  | none =>
    obtain ⟨m, hm, -, -⟩ := hy.state
    refine wp_setSessionState hm fun z hstreams hactive hreached hstate => ?_
    exact ⟨hstreams.trans hy.streams, hactive.trans hy.active, hreached.trans (by rw [hy.reached]; rfl), hstate⟩

theorem Ended.withCached {active : Bool} (hx : Ended active state lastError x)
    (cached : Option RuntimeCacheEntry) : Ended active state lastError { x with cached } :=
  ⟨hx.streams, hx.active, hx.reached, hx.state⟩

/-- A write of an identity leaves the state and the error. -/
theorem ended_identity {active : Bool}
    (hlast : nonEmpty lastError = lastError) (hx : Ended active state lastError x)
    (nextIdentity : Option SessionAcpIdentity) (now : ℚ) (a : Option SessionAcpMeta) :
    Ended active state lastError (x.after (.upsertSessionMeta (.identity nextIdentity now)) (.ok a)) := by
  obtain ⟨m, hm, hstate, herror⟩ := hx.state
  have hmeta : (x.written (.identity nextIdentity now)).meta? = _ := meta?_written fun _ => rfl
  rw [hm] at hmeta
  refine ⟨(x.streams_written _).trans hx.streams, (x.active_written _).trans hx.active, ?_, _, hmeta, hstate, ?_⟩
  · exact (Bool.or_false _).trans hx.reached
  · exact (congrArg nonEmpty herror).trans hlast

/-- What is done after a turn neither throws nor changes the state. -/
theorem afterTurn_ended (hlast : nonEmpty lastError = lastError) (hx : Ended false state lastError x)
    (runtime : AcpRuntime) (handle : AcpRuntimeHandle) (m : SessionAcpMeta) :
    turnMonitor.wp (afterTurn runtime handle m) (fun y _ => Ended false state lastError y) E x := by
  unfold afterTurn
  split
  · refine wp_seq (wp_caught (wp_io hx.streams (fun _ _ => ?_) fun _ _ => ?_))
    all_goals
      exact wp_certain rfl (fun _ h => h.1) trivial fun _ _ => ⟨hx.streams, hx.active, hx.reached, hx.state⟩
  · have hrefresh : turnMonitor.wp (refreshStatus runtime handle none false)
        (fun y _ => Ended false state lastError y) E x := by
      unfold refreshStatus
      split
      · refine (wp_tryCatch _ _).mpr ((wp_bind _ _).mpr (wp_boundary (wp_io trivial (fun _ _ => hx) fun _ _ => hx)))
      · exact hx
    refine wp_seq (wp_seq (wp_mono (fun y status hy => ?_) (fun _ _ h => h) hrefresh))
    cases status with
    | none => exact hy
    | some status =>
      refine wp_seq (wp_certain rfl (fun _ h => h.1) trivial fun now _ => ?_)
      dsimp only
      refine wp_seq (wp_mono (Q := fun y _ => Ended false state lastError y) (fun z _ hz => ?_) (fun _ _ h => h)
        (wp_runIf (fun _ => ?_) fun _ => hy))
      · refine wp_seq (wp_runIf (fun _ => wp_seq (wp_write trivial (fun a _ => ?_) fun _ h => h.2.elim)) fun _ => hz)
        exact ended_identity hlast hz _ now a
      · refine wp_seq (wp_seq (wp_certain rfl (fun _ h => h.1) trivial fun touched _ => ?_))
        refine wp_certain rfl (fun _ h => h.1) trivial fun cached _ => wp_runIf (fun _ => ?_) fun _ => ?_
        · exact wp_certain rfl (fun _ h => h.1) trivial fun _ _ => hy.withCached _
        · exact hy.withCached _

/-- The rule for what `runTurn` does when its stream is over. -/
theorem wp_over {f : Unit → Io α} (hlast : nonEmpty lastError = lastError)
    (hx : Ended true state lastError x) (runtime : AcpRuntime) (handle : AcpRuntimeHandle)
    (m : SessionAcpMeta) (hf : ∀ y, Ended false state lastError y → turnMonitor.wp (f ()) Q E y) :
    turnMonitor.wp (io .deleteActiveTurn >>= fun _ => afterTurn runtime handle m >>= f) Q E x := by
  have hended : Ended false state lastError { x with active := false } := ⟨hx.streams, rfl, hx.reached, hx.state⟩
  refine wp_seq (wp_certain rfl (fun _ h => h.1) trivial fun _ _ => ?_)
  exact wp_seq (wp_mono (fun y _ hy => hf y hy) (fun _ _ h => h) (afterTurn_ended hlast hended _ _ _))

/-- A turn ends in `idle` when it resolves, and in `error` with what is thrown when it rejects, unless it has not
come to run. -/
theorem runTurn_ended (hasOnEvent : Bool) (hx : AtRest x) :
    turnMonitor.wp (runTurn d key hasOnEvent) (fun y _ => AtRest y ∨ Ended false .idle none y)
      (fun y e => AtRest y ∨ Ended false .error (normalizeText (some e.message)) y) x := by
  refine atRest_ensured hx (fun _ _ h => .inl h) fun y e hy hpresent => ?_
  have hcontrols : (applyRuntimeControls d e.1 e.2.1 e.2.2).Uses Calm :=
    plain_calm.applyRuntimeControls _ _ _ (fun _ => trivial) (fun _ _ => trivial) fun _ => trivial
  refine wp_seq (wp_mono (fun y _ hy => ?_) (fun _ _ h => .inl h) (wp_present hcontrols hy hpresent))
  obtain ⟨hy, hpresent⟩ := hy
  obtain ⟨m, hm, -⟩ := hpresent.exists
  refine wp_seq (wp_setSessionState hm fun z hstreams hactive hreached hstate => ?_)
  refine wp_seq (wp_certain rfl (fun _ h => h.1) trivial fun _ _ => ?_)
  have hrunning : Running 0 true { z with active := true } :=
    ⟨hstreams.trans hy.streams, rfl, hreached.trans (by simp), hstate⟩
  refine wp_seq (wp_caught (wp_mono (fun y _ hy => ?_) (fun y e hy => ?_) (streamTurn_ended _ _ hrunning)))
  · exact wp_over rfl hy _ _ _ fun z hz => .inr hz
  · exact wp_over (nonEmpty_normalizeText _) hy _ _ _ fun z hz => .inr hz

/-! ### Runs -/

/-- What a session is left as when an operation resolves. -/
def Resolved (x : Session) : Prop :=
  Settled x ∧ (x.reached = true → ∃ m, x.meta? = some m ∧ m.state = .idle ∧ m.lastError = none)

/-- What a session is left as when an operation rejects. -/
def Rejected (x : Session) (e : Thrown) : Prop :=
  Settled x ∧ (x.reached = true → ∃ m, x.meta? = some m ∧ m.state = .error ∧
    m.lastError = normalizeText (some e.message))

theorem AtRest.resolved (hx : AtRest x) : Resolved x :=
  ⟨hx.toSettled, fun h => absurd (hx.reached.symm.trans h) Bool.false_ne_true⟩

theorem AtRest.rejected (hx : AtRest x) (e : Thrown) : Rejected x e :=
  ⟨hx.toSettled, fun h => absurd (hx.reached.symm.trans h) Bool.false_ne_true⟩

theorem Ended.settled (hx : Ended false state lastError x) (hstate : state ≠ .running) : Settled x := by
  refine ⟨hx.streams, hx.active, fun m hm => ?_⟩
  obtain ⟨m', hm', rfl, -⟩ := hx.state
  exact some.inj (hm.symm.trans hm') ▸ hstate

theorem Rests.right {p : Io Unit} (h : Rests p) : Actors.Right turnMonitor AtRest Resolved Rejected p := fun x hx =>
  wp_mono (fun _ _ h => h.resolved) (fun _ e h => h.rejected e) (h x hx)

theorem runTurn_right (hasOnEvent : Bool) :
    Actors.Right turnMonitor AtRest Resolved Rejected (runTurn d key hasOnEvent) := fun _ hx =>
  wp_mono (fun _ _ h => h.elim AtRest.resolved fun h => ⟨h.settled (by decide), fun _ => h.state⟩)
    (fun _ e h => h.elim (·.rejected e) fun h => ⟨h.settled (by decide), fun _ => h.state⟩)
    (runTurn_ended hasOnEvent hx)

theorem job_right {op : Op} {job : Job} (h : op.job d key = .ok job) :
    Actors.Right turnMonitor AtRest Resolved Rejected job.prog :=
  have hF : Follows Calm d key Rests := follows_rests
  have hC := changes_calm
  have hinit (input : InitializeInput) : (initializeSession d key input).Uses Calm :=
    plain_calm.initializeSession input trivial (fun _ _ _ _ => trivial) (fun m hm h => by cases hm.symm.trans h)
      (fun _ _ => trivial) fun _ _ => trivial
  job_prog h (fun input _ => (hF.uses _ (hinit input)).right) (fun signal => (hF.getSessionStatus signal).right)
    (fun _ mode _ => (hF.setSessionRuntimeMode hC mode).right)
    (fun _ _ pair _ => (hF.setSessionConfigOption hC pair.1 pair.2).right)
    (fun patch => (hF.updateSessionRuntimeOptions hC patch).right) (hF.resetSessionRuntimeOptions hC).right
    runTurn_right (hF.cancelSession fun _ _ _ _ h => h).right fun input => (closeSession_rests input).right

theorem evictCandidate_right (idleTtlMs now : ℚ) :
    Actors.Right turnMonitor AtRest Resolved Rejected (evictCandidate idleTtlMs now) :=
  Rests.right fun _ => wp_calm (plain_calm.evictCandidate _ _ trivial fun _ => trivial)

/-- At most one stream is active, and nothing was closed while one was. -/
structure Streams (x : Session) : Prop where
  /-- At most one is. -/
  single : x.streams ≤ 1
  /-- No handle was closed meanwhile, for whatever reason. -/
  closes : ∀ close ∈ x.closes, close.2 = false

/-- A call that the monitor allows keeps to this. -/
theorem Streams.after (hx : Streams x) (hok : turnMonitor.ok x c) (r : Reply c) : Streams (x.after c r) := by
  cases c
  case upsertSessionMeta w =>
    cases r with
    | error e => exact hx
    | ok _ =>
      obtain ⟨entry, heq⟩ := x.written_eq w
      have h : Streams (x.written w) := by rw [heq]; exact ⟨hx.single, hx.closes⟩
      exact ⟨h.single, h.closes⟩
  case runTurn handle =>
    cases r with
    | error e => exact hx
    | ok _ =>
      have hnone : x.streams = 0 := hok
      exact ⟨by simp [Session.after, hnone], hx.closes⟩
  case close handle reason =>
    have hnone : x.streams = 0 := hok
    refine ⟨hx.single, fun close hclose => ?_⟩
    rcases List.mem_cons.mp hclose with rfl | hclose
    · simp [hnone]
    · exact hx.closes close hclose
  case nextEvent last =>
    cases last with
    | false => exact hx
    | true => exact ⟨(Nat.sub_le _ _).trans hx.single, hx.closes⟩
  case returnStream => exact ⟨(Nat.sub_le _ _).trans hx.single, hx.closes⟩
  case enforceConcurrentSessionLimit | ensureSession | setMode | setConfigOption =>
    cases r <;> exact ⟨hx.single, hx.closes⟩
  all_goals exact ⟨hx.single, hx.closes⟩

/-- All jobs keep to the lifecycle of a turn. -/
structure TurnSound (d : Deps) (s : System) : Prop where
  /-- Their calls are allowed, and they end as they should. -/
  sound : Actors.Sound (machine d) turnMonitor AtRest Resolved Rejected s
  /-- One stream at a time. -/
  streams : ∀ key, Streams (s.session (machine d) key)

/-- The next call of the job is a write of metadata. -/
def writesMeta (t : Actors.Task String Reply Thrown) : Bool :=
  match t.prog with
  | .step (.upsertSessionMeta _) _ => true
  | _ => false

/-- Metadata writes succeed. -/
def WritesSucceed (s : System) : Action → Prop
  | .step i w => ∀ t ∈ s.tasks[i]?, writesMeta t = true → w.error = none
  | _ => True

variable {s s' : System}

theorem atRest_fresh {entry : Option (Option SessionAcpMeta)} (h : ∀ m, entry.join = some m → m.state ≠ .running) :
    AtRest { entry } ∧ Streams { entry } :=
  ⟨⟨⟨rfl, rfl, h⟩, rfl⟩, ⟨Nat.zero_le 1, fun _ h => absurd h List.not_mem_nil⟩⟩

variable {store : List (String × Option SessionAcpMeta)}

theorem atRest_start (hstore : ∀ e ∈ store, ∀ m, e.2 = some m → m.state ≠ .running) (key : String) :
    AtRest ((System.start store).session (machine d) key) ∧
      Streams ((System.start store).session (machine d) key) := by
  rw [Actors.State.session]
  cases h : (System.start store).sessions.get? key with
  | none => exact atRest_fresh (fun _ h => by cases h)
  | some x =>
    obtain ⟨m, hm, rfl⟩ := eq_of_get?_start h
    exact atRest_fresh (hstore _ hm)

theorem turnSound_start
    (hstore : ∀ e ∈ store, ∀ m, e.2 = some m → m.state ≠ .running) : TurnSound d (.start store) where
  sound := ⟨fun _ h => absurd h List.not_mem_nil, fun _ h => absurd h List.not_mem_nil,
    fun _ h => absurd h List.not_mem_nil, fun key _ => (atRest_start hstore key).1, List.Pairwise.nil⟩
  streams key := (atRest_start hstore key).2

/-- A step in which a metadata write does not fail. -/
theorem TurnSound.next {a : Action} (h : TurnSound d s) (hwrites : WritesSucceed s a)
    (hs : next d s a = some s') : TurnSound d s' := by
  obtain ⟨-, hs⟩ := ite_none_right_eq_some.mp hs
  refine ⟨Actors.Sound.next h.sound rfl (fun x hx => ?_) (fun x e hx => ?_) ?_ hs,
    h.sound.forall_session (fun _ _ r hx hok => hx.after hok r) (fun _ hx => ⟨hx.single, hx.closes⟩) h.streams hs⟩
  · exact ⟨⟨hx.1.streams, hx.1.active, hx.1.state⟩, rfl⟩
  · exact ⟨⟨hx.1.streams, hx.1.active, hx.1.state⟩, rfl⟩
  · cases a with
    | call key op now candidates =>
      intro job hjob
      exact spawned_prog (P := Actors.Right turnMonitor AtRest Resolved Rejected) (fun _ => job_right)
        evictCandidate_right rfl job hjob
    | step i w =>
      intro t c k ht hprog _
      refine ⟨reply_answers _ c w, ?_⟩
      cases c
      case upsertSessionMeta write =>
        have hnone : w.error = none := hwrites t ht (by rw [writesMeta, hprog])
        rcases w with ⟨_ | error⟩
        · trivial
        · cases hnone
      all_goals trivial
    | enqueue caller => trivial
    | start i => trivial
    | finish i => trivial

/-- The lifecycle of the turns of all sessions. -/
structure Lifecycle (d : Deps) (s : System) : Prop where
  /-- At most one stream is active per session. -/
  single : ∀ key, (s.session (machine d) key).streams ≤ 1
  /-- No close of a handle came while the turn of its session was streaming. -/
  closes : ∀ key, ∀ close ∈ (s.session (machine d) key).closes, close.2 = false
  /-- A session of which no operation is executing has no active turn, and is not running. -/
  atRest : ∀ key, (∀ t ∈ s.tasks, t.running = true → t.key ≠ key) →
    (s.session (machine d) key).active = false ∧
      ∀ m, (s.session (machine d) key).meta? = some m → m.state ≠ .running
  /-- A turn that has come to run and resolves leaves the session idle, without an error. -/
  resolves : ∀ t ∈ s.tasks, t.running = true → t.prog = .pure () → (s.session (machine d) t.key).reached = true →
    ∃ m, (s.session (machine d) t.key).meta? = some m ∧ m.state = .idle ∧ m.lastError = none
  /-- One that rejects leaves it with the message, trimmed. -/
  rejects : ∀ t ∈ s.tasks, ∀ e, t.running = true → t.prog = .throw e →
    (s.session (machine d) t.key).reached = true →
      ∃ m, (s.session (machine d) t.key).meta? = some m ∧ m.state = .error ∧
        m.lastError = normalizeText (some e.message)

theorem TurnSound.lifecycle (h : TurnSound d s) : Lifecycle d s where
  single key := (h.streams key).single
  closes key := (h.streams key).closes
  atRest key hkey := ⟨(h.sound.idle key hkey).active, (h.sound.idle key hkey).state⟩
  resolves t ht hrun hprog := by
    have hwp := h.sound.running t ht hrun
    rw [hprog] at hwp
    exact hwp.2
  rejects t ht e hrun hprog := by
    have hwp := h.sound.running t ht hrun
    rw [hprog] at hwp
    exact hwp.2

/-- In every run in which metadata writes succeed, from a store in which no session is running. -/
theorem turn_lifecycle {store : List (String × Option SessionAcpMeta)}
    (hstore : ∀ e ∈ store, ∀ m, e.2 = some m → m.state ≠ .running) {as : List Action}
    (hwrites : Runs.Meets (next d) WritesSucceed (.start store) as)
    (h : Runs.exec (next d) (.start store) as = some s) : Lifecycle d s :=
  (Runs.exec_invariant_of_meets (fun _ _ _ hi hP hs => TurnSound.next hi hP hs) hwrites (turnSound_start hstore)
    h).lifecycle

/-- Whether metadata writes succeed can be computed. -/
instance (s : System) : (a : Action) → Decidable (WritesSucceed s a)
  | .call _ _ _ _ | .enqueue _ | .start _ | .finish _ => isTrue trivial
  | .step i w => inferInstanceAs (Decidable (∀ t ∈ s.tasks[i]?, writesMeta t = true → w.error = none))

/-- A session that is idle. -/
def idleSession : List (String × Option SessionAcpMeta) :=
  [("a", some
    { backend := "acpx", agent := "main", runtimeSessionName := "runtime", mode := .persistent, state := .idle
      lastActivityAt := 0 })]

/-- A turn of which the stream is `stream`, up to its end. -/
def turnWith (stream : TurnStream) : List Action :=
  [.call "a" (.runTurn true) 0 [], .enqueue 0, .start 0] ++ List.replicate 16 (.step 0 {}) ++
    [.step 0 { stream }] ++ List.replicate 6 (.step 0 {})

theorem turn_lifecycle_resolves :
    ∃ s, Runs.exec (next {}) (.start idleSession) (turnWith {}) = some s ∧ Lifecycle {} s := by
  have h : Runs.Meets (next {}) WritesSucceed (.start idleSession) (turnWith {}) := by decide +kernel
  have hexec : (Runs.exec (next {}) (.start idleSession) (turnWith {})).isSome = true := by decide +kernel
  obtain ⟨s, hs⟩ := isSome_iff_exists.mp hexec
  exact ⟨s, hs, turn_lifecycle (by simp [idleSession]) h hs⟩

/-- The error of a turn that has rejected. -/
def thrown (t : Actors.Task String Reply Thrown) : Option Thrown :=
  match t.prog with
  | .throw e => some e
  | _ => none

/-- The stream fails with a message that has white space around it: what is persisted is not that message. -/
theorem padded_message :
    Runs.Meets (next {}) WritesSucceed (.start idleSession) (turnWith { failure := some (.error " boom ") }) ∧
    ∃ s, Runs.exec (next {}) (.start idleSession) (turnWith { failure := some (.error " boom ") }) = some s ∧
      ∃ t ∈ s.tasks, ∃ e, thrown t = some e ∧ t.running = true ∧ (s.session (machine {}) t.key).reached = true ∧
        ¬ ∃ m, (s.session (machine {}) t.key).meta? = some m ∧ m.state = .error ∧
          m.lastError = some e.message := by
  refine ⟨by decide +kernel, ?_⟩
  have h : ((Runs.exec (next {}) (.start idleSession) (turnWith { failure := some (.error " boom ") })).any fun s =>
      s.tasks.any fun t => (thrown t).any fun e => t.running && (s.session (machine {}) t.key).reached &&
        decide (∀ m ∈ (s.session (machine {}) t.key).meta?, m.lastError ≠ some e.message)) = true := by
    decide +kernel
  obtain ⟨s, hs, h⟩ := (Option.any_eq_true _ _).mp h
  obtain ⟨t, ht, h⟩ := List.any_eq_true.mp h
  obtain ⟨e, he, h⟩ := (Option.any_eq_true _ _).mp h
  simp only [Bool.and_eq_true, decide_eq_true_eq] at h
  refine ⟨s, hs, t, ht, e, he, h.1.1, h.1.2, ?_⟩
  rintro ⟨m, hm, -, hlast⟩
  exact h.2 m hm hlast

end Foxclaw.Acp
