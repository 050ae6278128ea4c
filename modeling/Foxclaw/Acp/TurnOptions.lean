import Foxclaw.Acp.ManagerCalls

/-!
# The options a turn runs under

The options of a session are in its metadata, on its runtime session, and in the signature of what was last
pushed, which lets a turn skip the push. An operation that sets an option on the runtime session and then
fails to persist it leaves the signature as it was. As long as no such write fails with a signature in place,
or what is set agrees with the metadata all the same, each turn runs under the persisted options.

## What is proved

* `Kept.pushed` — what a call that is quiet keeps.
* `ensureRuntimeHandle_ready`, `applyRuntimeControls_includes` — how a turn comes to its options.
* `turn_underPersisted` — in a run of steps that meet `Persists` every turn starts under the persisted options.
* `turn_under_rejected` — a turn under a mode that its caller was told was not set.
-/

namespace Foxclaw.Acp

open List Option Monitor Prog

variable {d : Deps} {key : String}

/-- What is set on the runtime session includes the options. -/
structure Includes (applied : Applied) (options : RuntimeOptions) : Prop where
  mode : ∀ mode, options.runtimeMode = some mode → applied.mode = some mode
  /-- So is every config pair. -/
  config : ∀ pair ∈ (buildRuntimeConfigOptionPairs options).entries, applied.config.get? pair.1 = some pair.2

/-- The runtime session is under the persisted options. -/
structure UnderPersisted (x : Session) : Prop where
  /-- What is set includes the options of the metadata. -/
  includes : ∀ m, x.meta? = some m → Includes x.applied (resolveRuntimeOptionsFromMeta m)
  /-- No other mode, rejected or not, is in force in place of the persisted one. -/
  mode : ∀ m mode inForce, x.meta? = some m → (resolveRuntimeOptionsFromMeta m).runtimeMode = some mode →
    x.applied.mode = some inForce → inForce = mode
  /-- No other value is in force in place of a persisted one. -/
  config : ∀ m pair inForce, x.meta? = some m →
    pair ∈ (buildRuntimeConfigOptionPairs (resolveRuntimeOptionsFromMeta m)).entries →
    x.applied.config.get? pair.1 = some inForce → inForce = pair.2

/-- What is set includes the options of the metadata. -/
def Session.Agrees (x : Session) : Prop :=
  ∀ m, x.meta? = some m → Includes x.applied (resolveRuntimeOptionsFromMeta m)

variable {x y : Session} {m m' : SessionAcpMeta}

theorem Session.Agrees.underPersisted (h : x.Agrees) : UnderPersisted x where
  includes := h
  mode m mode inForce hm hmode hforce := by
    rw [(h m hm).mode mode hmode, some.injEq] at hforce
    exact hforce.symm
  config m pair inForce hm hpair hforce := by
    rw [(h m hm).config pair hpair, some.injEq] at hforce
    exact hforce.symm

/-! ### The controls of the metadata -/

/-- The options without the working directory, which is not pushed. -/
def RuntimeOptions.controls (options : RuntimeOptions) : RuntimeOptions := { options with cwd := none }

/-- The controls of the metadata. -/
def SessionAcpMeta.controls (m : SessionAcpMeta) : RuntimeOptions := (resolveRuntimeOptionsFromMeta m).controls

theorem controls_normalizeRuntimeOptions (options : RuntimeOptions) :
    (normalizeRuntimeOptions options).controls = normalizeRuntimeOptions options.controls := rfl

theorem controls_eq (m : SessionAcpMeta) :
    m.controls = (normalizeRuntimeOptions (m.runtimeOptions.getD {})).controls := by
  unfold SessionAcpMeta.controls resolveRuntimeOptionsFromMeta
  dsimp only
  split
  · rfl
  · change normalizeRuntimeOptions (normalizeRuntimeOptions (m.runtimeOptions.getD {})).controls = _
    rw [← controls_normalizeRuntimeOptions, normalizeRuntimeOptions_normalizeRuntimeOptions]

theorem controls_congr (h : m.runtimeOptions = m'.runtimeOptions) : m.controls = m'.controls := by
  rw [controls_eq, controls_eq, h]

/-- Making sure of a handle does not change the controls. -/
@[simp] theorem controls_ensuredMeta (m : SessionAcpMeta) (backendId agent : String) (cwd : Option String)
    (ensured : AcpRuntimeHandle) (now : ℚ) :
    (ensuredMeta m backendId agent cwd ensured now).controls = m.controls := by
  have hgetD (options : RuntimeOptions) : (if options = {} then none else some options).getD {} = options := by
    split
    · rename_i h
      exact h.symm
    · rfl
  rw [controls_eq, controls_eq]
  dsimp only [ensuredMeta]
  rw [hgetD, controls_normalizeRuntimeOptions, controls_normalizeRuntimeOptions]
  change normalizeRuntimeOptions (normalizeRuntimeOptions m.controls) = _
  rw [normalizeRuntimeOptions_normalizeRuntimeOptions, controls_eq, controls_normalizeRuntimeOptions,
    normalizeRuntimeOptions_normalizeRuntimeOptions]

theorem buildRuntimeControlSignature_congr (localeLe : String → String → Bool) (h : m.controls = m'.controls) :
    buildRuntimeControlSignature localeLe (resolveRuntimeOptionsFromMeta m) =
      buildRuntimeControlSignature localeLe (resolveRuntimeOptionsFromMeta m') := by
  change buildRuntimeControlSignature localeLe m.controls = buildRuntimeControlSignature localeLe m'.controls
  rw [h]

theorem Includes.congr {applied : Applied} (h : Includes applied (resolveRuntimeOptionsFromMeta m))
    (hcontrols : m'.controls = m.controls) : Includes applied (resolveRuntimeOptionsFromMeta m') := by
  have hcongr : Includes applied m'.controls := by
    rw [hcontrols]
    exact ⟨h.mode, h.config⟩
  exact ⟨hcongr.mode, hcongr.config⟩

theorem normalizeText_runtimeMode (m : SessionAcpMeta) :
    normalizeText (resolveRuntimeOptionsFromMeta m).runtimeMode = (resolveRuntimeOptionsFromMeta m).runtimeMode := by
  unfold resolveRuntimeOptionsFromMeta
  dsimp only
  split <;> simp [normalizeRuntimeOptions]

/-! ### Quiet calls -/

/-- The signature of what was last pushed. -/
def Session.signature (x : Session) : Option ControlSignature :=
  x.cached.bind fun entry => entry.state.appliedControlSignature

/-- The options are as they were, and the signature is, or is gone. -/
structure Kept (x y : Session) : Prop where
  /-- What is set on the runtime session. -/
  applied : y.applied = x.applied
  controls : y.meta?.map SessionAcpMeta.controls = x.meta?.map SessionAcpMeta.controls
  signature : y.signature = x.signature ∨ y.signature = none

/-- A call that changes neither the options nor, but for dropping it, the signature. -/
def Quiet : Command → Prop
  | .setSignature _ | .setCached _ _ | .ensureSession _ _ _ _ | .setMode _ _ | .setConfigOption _ _ _
  | .upsertSessionMeta (.init _) | .upsertSessionMeta (.ensured _) | .upsertSessionMeta (.options _ _)
  | .upsertSessionMeta .clear | .runTurn _ => False
  | _ => True

theorem plain_quiet : Plain Quiet :=
  ⟨trivial, trivial, trivial, fun _ => trivial, fun _ => trivial, trivial, fun _ => trivial, trivial,
    fun _ => trivial, fun _ => trivial, fun _ => trivial, fun _ _ => trivial⟩

theorem Kept.refl (x : Session) : Kept x x := ⟨rfl, rfl, .inl rfl⟩

theorem Kept.trans {z : Session} (h : Kept x y) (h' : Kept y z) : Kept x z :=
  ⟨h'.applied.trans h.applied, h'.controls.trans h.controls,
    h'.signature.elim (fun heq => heq ▸ h.signature) .inr⟩

/-- A write that is made to the metadata as it is. -/
theorem kept_written {w : MetaWrite} {f : SessionAcpMeta → SessionAcpMeta}
    (hw : ∀ entry, w.mutate entry = entry.join.map f) (hf : ∀ m, (f m).runtimeOptions = m.runtimeOptions) :
    Kept x (x.written w) := by
  unfold Session.written
  rw [hw]
  cases hentry : x.entry.join with
  | none =>
    refine ⟨rfl, ?_, .inl rfl⟩
    rw [Session.meta?, Session.meta?, hentry]
    cases x.entry <;> rfl
  | some m =>
    refine ⟨rfl, ?_, .inl rfl⟩
    have hcontrols : (f m).controls = m.controls := controls_congr (hf m)
    simp [Session.meta?, hentry, hcontrols]

variable {c : Command}

theorem kept_after (hc : Quiet c) (r : Reply c) : Kept x (x.after c r) := by
  cases c
  case upsertSessionMeta w =>
    cases r with
    | error e => exact .refl x
    | ok _ =>
      cases w with
      | state newState lastError clear now =>
        have h : Kept x (x.written (.state newState lastError clear now)) :=
          kept_written (fun _ => rfl) fun _ => rfl
        exact ⟨h.applied, h.controls, h.signature⟩
      | identity nextIdentity now =>
        have h : Kept x (x.written (.identity nextIdentity now)) := kept_written (fun _ => rfl) fun _ => rfl
        exact ⟨h.applied, h.controls, h.signature⟩
      | _ => exact hc.elim
  case setSignature | setCached | ensureSession | setMode | setConfigOption | runTurn => exact hc.elim
  case getCached now => exact ⟨rfl, rfl, .inl (by cases h : x.cached <;> simp [Session.after, Session.signature, h])⟩
  case setCachedHandle handle =>
    exact ⟨rfl, rfl, .inl (by cases h : x.cached <;> simp [Session.after, Session.updateCached, Session.signature, h])⟩
  case clearCached => exact ⟨rfl, rfl, .inr rfl⟩
  case nextEvent last => cases last <;> exact ⟨rfl, rfl, .inl rfl⟩
  case enforceConcurrentSessionLimit => cases r <;> exact ⟨rfl, rfl, .inl rfl⟩
  all_goals exact ⟨rfl, rfl, .inl rfl⟩

/-- A signature that is cached is that of the metadata. -/
def Session.Signed (d : Deps) (x : Session) : Prop :=
  ∀ signature, x.signature = some signature → ∃ m, x.meta? = some m ∧
    signature = buildRuntimeControlSignature d.localeLe (resolveRuntimeOptionsFromMeta m)

/-- What is known of a session between operations: the signature that is cached, if any, is that of the
persisted options, and these are set. -/
structure Pushed (d : Deps) (x : Session) : Prop where
  /-- The signature is that of the metadata. -/
  signed : x.Signed d
  /-- What is set agrees with the metadata. -/
  agrees : x.signature.isSome = true → x.Agrees

/-- No signature is cached, so that the next turn will push its options. -/
def Session.Unsigned (x : Session) : Prop := x.signature = none

/-- The metadata has the controls of `m`. -/
def Session.Has (x : Session) (m : SessionAcpMeta) : Prop :=
  x.meta?.map SessionAcpMeta.controls = some m.controls

theorem Session.Unsigned.pushed (h : x.Unsigned) : Pushed d x :=
  ⟨fun _ hsome => absurd (h.symm.trans hsome) nofun, fun hsome => by rw [h] at hsome; cases hsome⟩

theorem Session.Has.of_eq (h : x.meta? = some m) : x.Has m := congrArg _ h

theorem Session.Has.exists (h : x.Has m) : ∃ m₀, x.meta? = some m₀ ∧ m₀.controls = m.controls :=
  map_eq_some_iff.mp h

theorem Session.Agrees.of_includes (h : x.Has m) (hincludes : Includes x.applied (resolveRuntimeOptionsFromMeta m)) :
    x.Agrees := by
  intro m₀ hm₀
  obtain ⟨m₁, hm₁, hcontrols⟩ := h.exists
  obtain rfl := some.inj (hm₀.symm.trans hm₁)
  exact hincludes.congr hcontrols

theorem Kept.has (h : Kept x y) (hx : x.Has m) : y.Has m := h.controls.trans hx

theorem Kept.unsigned (h : Kept x y) (hx : x.Unsigned) : y.Unsigned := h.signature.elim (·.trans hx) id

theorem Kept.agrees (h : Kept x y) (hx : x.Agrees) : y.Agrees := by
  intro m hm
  have hcontrols : x.meta?.map SessionAcpMeta.controls = some m.controls := by rw [← h.controls, hm]; rfl
  obtain ⟨m₀, hm₀, heq⟩ := map_eq_some_iff.mp hcontrols
  exact h.applied ▸ (hx m₀ hm₀).congr heq.symm

theorem Kept.pushed (h : Kept x y) (hx : Pushed d x) : Pushed d y := by
  rcases h.signature with hsignature | hnone
  · constructor
    · intro signature hsome
      obtain ⟨m, hm, rfl⟩ := hx.signed signature (hsignature ▸ hsome)
      obtain ⟨m₀, hm₀, hcontrols⟩ := (h.has (.of_eq hm)).exists
      exact ⟨m₀, hm₀, buildRuntimeControlSignature_congr _ hcontrols.symm⟩
    · exact fun hsome => h.agrees (hx.agrees (hsignature ▸ hsome))
  · exact Session.Unsigned.pushed hnone

/-! ### Programs -/

/-- A turn starts only under the persisted options, and a write of options fails only when that does no
harm. -/
def optionsMonitor : Monitor Command Reply Session where
  ok x
    | .runTurn _ => x.Agrees
    | _ => True
  valid x c r := Answers x c r ∧
    match c, r with
    | .upsertSessionMeta (.options _ _), .error _ => x.signature.isSome = true → x.Agrees
    | _, _ => True
  next := Session.after

variable {α β : Type} {P : Session → Prop}

theorem quiet_ok (hc : Quiet c) : optionsMonitor.ok x c := by
  cases c <;> trivial

variable {p : Io α}

theorem wp_quiet (hp : p.Uses Quiet) : optionsMonitor.wp p (fun y _ => Kept x y) (fun y _ => Kept x y) x :=
  wp_of_uses (fun _ hc _ hy => ⟨quiet_ok hc, fun r _ => hy.trans (kept_after hc r)⟩) hp (Kept.refl x)

variable {E : Session → Thrown → Prop}

theorem wp_quiet_seq {f : α → Io β} {Q : Session → β → Prop}
    (hp : p.Uses Quiet) (hE : ∀ y e, Kept x y → E y e)
    (hf : ∀ y a, Kept x y → optionsMonitor.wp (f a) Q E y) : optionsMonitor.wp (p >>= f) Q E x :=
  wp_seq (wp_mono hf hE (wp_quiet hp))

theorem wp_pushed_seq {f : α → Io β} {Q : Session → β → Prop} (hp : p.Uses Quiet) (hx : Pushed d x)
    (hf : ∀ y a, Kept x y → Pushed d y → optionsMonitor.wp (f a) Q (fun y _ => Pushed d y) y) :
    optionsMonitor.wp (p >>= f) Q (fun y _ => Pushed d y) x :=
  wp_quiet_seq hp (fun _ _ h => h.pushed hx) fun y a h => hf y a h (h.pushed hx)

theorem wp_pushed (hp : p.Uses Quiet) (hx : Pushed d x) :
    optionsMonitor.wp p (fun y _ => Pushed d y) (fun y _ => Pushed d y) x :=
  wp_mono (fun _ _ h => h.pushed hx) (fun _ _ h => h.pushed hx) (wp_quiet hp)

theorem unsigned_written (hx : x.Unsigned) (w : MetaWrite) (a : Option SessionAcpMeta) :
    (x.after (.upsertSessionMeta w) (.ok a)).Unsigned := by
  change (x.written w).cached.bind _ = none
  rw [Session.cached_written]
  exact hx

variable {Q : Session → α → Prop}

theorem wp_now {f : ℚ → Io α}
    (hf : ∀ now, optionsMonitor.wp (f now) Q E x) : optionsMonitor.wp (io .now >>= f) Q E x :=
  wp_seq (wp_certain rfl (fun _ h => h.1) trivial fun now _ => hf now)

theorem wp_getCached {f : Option CachedRuntimeState → Io α}
    (hf : ∀ y cached, Kept x y → cached = x.cached.map (·.state) → optionsMonitor.wp (f cached) Q E y) :
    optionsMonitor.wp (getCachedRuntimeState >>= f) Q E x := by
  refine wp_seq (wp_now fun now => wp_certain rfl (fun _ h => h.1) trivial fun cached hcached => ?_)
  exact hf _ cached (kept_after (c := .getCached now) trivial (.ok cached)) hcached.1.2

theorem signature_eq {cached : Option CachedRuntimeState} (h : cached = x.cached.map (·.state)) :
    cached.bind (·.appliedControlSignature) = x.signature := by
  rw [h, Session.signature]
  cases x.cached <;> rfl

/-! ### Handles -/

theorem unsigned_setCached {state : CachedRuntimeState} (hstate : state.appliedControlSignature = none)
    {Q : Session → Unit → Prop} (hQ : ∀ y : Session, y.Unsigned → y.meta? = x.meta? → Q y ()) :
    optionsMonitor.wp (setCachedRuntimeState state) Q E x :=
  wp_now fun _ => wp_certain rfl (fun _ h => h.1) trivial fun _ _ => hQ _ hstate rfl

theorem ensureNewHandle_ready (hx : x.Unsigned) (hm : x.Has m) (configuredBackend agent : String)
    (cwd : Option String) :
    optionsMonitor.wp (ensureNewHandle m configuredBackend agent cwd) (fun y e => y.Unsigned ∧ y.Has e.2.2)
      (fun y _ => y.Unsigned) x := by
  refine wp_quiet_seq (uses_io (c := .enforceConcurrentSessionLimit) trivial) (fun _ _ h => h.unsigned hx) ?_
  intro x₁ _ h₁
  refine wp_quiet_seq (uses_io (c := .requireRuntimeBackend _) trivial)
    (fun _ _ h => h.unsigned (h₁.unsigned hx)) ?_
  intro x₂ backend h₂
  replace hx : x₂.Unsigned := h₂.unsigned (h₁.unsigned hx)
  replace hm : x₂.Has m := h₂.has (h₁.has hm)
  refine wp_seq (wp_boundary (wp_io trivial (fun ensured _ => ?_) fun _ _ => hx))
  -- what was set on an earlier runtime session is gone
  obtain ⟨x₃, hx₃⟩ : ∃ x₃, x₃ = { x₂ with applied := {} } := ⟨_, rfl⟩
  change optionsMonitor.wp _ _ _ { x₂ with applied := {} }
  rw [← hx₃]
  replace hx : x₃.Unsigned := hx₃ ▸ hx
  replace hm : x₃.Has m := hx₃ ▸ hm
  refine wp_now fun now => ?_
  have hwritten (a : Option SessionAcpMeta) (ensuredMeta : SessionAcpMeta)
      (hcontrols : ensuredMeta.controls = m.controls) :
      (x₃.after (.upsertSessionMeta (.ensured ensuredMeta)) (.ok a)).Has m := by
    obtain ⟨m₀, hm₀, -⟩ := hm.exists
    have hentry : x₃.entry = some (some m₀) := by
      cases h : x₃.entry with
      | none => rw [Session.meta?, h] at hm₀; cases hm₀
      | some entry => rw [Session.meta?, h] at hm₀; exact congrArg some hm₀
    simp [Session.Has, Session.after, Session.written, MetaWrite.mutate, hentry, Session.meta?, hcontrols]
  refine wp_seq (wp_mono (Q := fun y _ => y.Unsigned ∧ y.Has m) (fun y _ hy => ?_) (fun _ _ h => h) (wp_runIf
    (fun _ => wp_seq (wp_write trivial (fun a _ => ⟨?_, hwritten a _ (controls_ensuredMeta ..)⟩) fun _ _ => ?_))
    fun _ => ⟨hx, hm⟩))
  · refine wp_seq (unsigned_setCached rfl fun z hz hmeta => ?_)
    refine ⟨hz, ?_⟩
    rw [Session.Has, hmeta, controls_ensuredMeta]
    exact hy.2
  · exact unsigned_written hx _ a
  · exact ⟨hx, hm⟩

/-- What `ensureRuntimeHandle` returns is the metadata, but for what is not pushed. -/
theorem ensureRuntimeHandle_ready (hx : Pushed d x) (hm : x.Has m) :
    optionsMonitor.wp (ensureRuntimeHandle d key m) (fun y e => Pushed d y ∧ y.Has e.2.2) (fun y _ => Pushed d y)
      x := by
  have hnew (y : Session) (hy : y.Unsigned) (hym : y.Has m) (configuredBackend agent : String)
      (cwd : Option String) : optionsMonitor.wp (ensureNewHandle m configuredBackend agent cwd)
        (fun y e => Pushed d y ∧ y.Has e.2.2) (fun y _ => Pushed d y) y :=
    wp_mono (fun _ _ h => ⟨h.1.pushed, h.2⟩) (fun _ _ h => h.pushed) (ensureNewHandle_ready hy hym _ _ _)
  refine wp_getCached fun y cached hkept heq => ?_
  cases cached with
  | none => exact hnew y (hkept.unsigned (signature_eq heq).symm) (hkept.has hm) _ _ _
  | some cached =>
    dsimp only
    split
    · exact ⟨hkept.pushed hx, hkept.has hm⟩
    · refine wp_seq (wp_io trivial (fun _ _ => ?_) fun _ _ => Session.Unsigned.pushed rfl)
      exact hnew { y with cached := none } rfl (hkept.has hm) _ _ _

/-- The rule for what comes after a handle is ensured. -/
theorem wp_ensured {f : AcpRuntime × AcpRuntimeHandle × SessionAcpMeta → Io α}
    (hx : Pushed d x) (hf : ∀ y e, Pushed d y → y.Has e.2.2 → optionsMonitor.wp (f e) Q (fun y _ => Pushed d y) y) :
    optionsMonitor.wp (requireReadySessionMeta d key >>= fun m => ensureRuntimeHandle d key m >>= f) Q
      (fun y _ => Pushed d y) x := by
  refine wp_seq (wp_seq (wp_io trivial (fun meta? hanswer => ?_) fun _ _ => hx))
  have heq : meta? = x.meta? := hanswer.1.2
  cases meta? with
  | none => exact hx
  | some m =>
    exact wp_seq (wp_mono (fun y e h => hf y e h.1 h.2) (fun _ _ h => h)
      (ensureRuntimeHandle_ready hx (.of_eq heq.symm)))

/-! ### Pushing the options -/

variable {capabilities : AcpRuntimeCapabilities}

/-- What the loop over the config options sets. -/
theorem pushConfigOptions_sets {backend : String} {handle : AcpRuntimeHandle}
    {pairs : List (String × String)} (hnodup : (pairs.map Prod.fst).Nodup) (hx : x.Unsigned) (hm : x.Has m) :
    optionsMonitor.wp (pushConfigOptions capabilities backend handle pairs)
      (fun y _ => (y.Unsigned ∧ y.Has m ∧ y.applied.mode = x.applied.mode) ∧
        (∀ pair ∈ pairs, y.applied.config.get? pair.1 = some pair.2) ∧
          ∀ k, k ∉ pairs.map Prod.fst → y.applied.config.get? k = x.applied.config.get? k)
      (fun y _ => y.Unsigned) x := by
  induction pairs generalizing x with
  | nil => exact ⟨⟨hx, hm, rfl⟩, fun _ h => absurd h not_mem_nil, fun _ _ => rfl⟩
  | cons pair rest ih =>
    obtain ⟨k, v⟩ := pair
    rw [map_cons, nodup_cons] at hnodup
    rw [pushConfigOptions]
    split
    · refine wp_seq (wp_io trivial (fun _ _ => ?_) fun _ _ => hx)
      refine wp_mono (fun y _ hy => ?_) (fun _ _ h => h) (ih hnodup.2 hx hm)
      obtain ⟨hkeep, hset, hother⟩ := hy
      refine ⟨hkeep, fun pair hpair => ?_, fun j hj => ?_⟩
      · rcases mem_cons.mp hpair with rfl | hpair
        · exact (hother k hnodup.1).trans (JsMap.get?_set_self _ _ _)
        · exact hset pair hpair
      · rw [map_cons, mem_cons, not_or] at hj
        exact (hother j hj.2).trans ((JsMap.get?_set _ _ _ _).trans (if_neg (Ne.symm hj.1)))
    · exact hx

variable {runtime : AcpRuntime}

theorem pushControls_includes {backend : String}
    {handle : AcpRuntimeHandle} (hx : x.Unsigned) (hm : x.Has m) :
    optionsMonitor.wp (pushControls runtime capabilities backend handle (resolveRuntimeOptionsFromMeta m))
      (fun y _ => y.Unsigned ∧ y.Has m ∧ Includes y.applied (resolveRuntimeOptionsFromMeta m))
      (fun y _ => y.Unsigned) x := by
  have hmode : optionsMonitor.wp
      (pushMode runtime capabilities backend handle (resolveRuntimeOptionsFromMeta m).runtimeMode)
      (fun y _ => y.Unsigned ∧ y.Has m ∧
        ∀ mode, (resolveRuntimeOptionsFromMeta m).runtimeMode = some mode → y.applied.mode = some mode)
      (fun y _ => y.Unsigned) x := by
    unfold pushMode
    split
    · rename_i hnone
      exact ⟨hx, hm, fun _ h => absurd (hnone.symm.trans h) nofun⟩
    · rename_i runtimeMode hsome
      split
      · exact wp_io trivial (fun _ _ => ⟨hx, hm, fun _ h => hsome.symm.trans h⟩) fun _ _ => hx
      · exact hx
  rw [pushControls, normalizeText_runtimeMode]
  refine wp_seq (wp_mono (fun y _ hy => ?_) (fun _ _ h => h) hmode)
  obtain ⟨hyu, hym, hset⟩ := hy
  dsimp only
  split
  · rename_i hnil
    exact ⟨hyu, hym, hset, fun pair hpair => absurd (hnil ▸ hpair) not_mem_nil⟩
  · split
    · refine wp_mono (fun z _ hz => ?_) (fun _ _ h => h) (pushConfigOptions_sets (JsMap.nodup_keys _) hyu hym)
      obtain ⟨⟨hzu, hzm, hzmode⟩, hconfig, -⟩ := hz
      exact ⟨hzu, hzm, fun mode h => hzmode.trans (hset mode h), hconfig⟩
    · exact hyu

/-- A turn whose options are not known to be pushed pushes them. -/
theorem applyRuntimeControls_includes {handle : AcpRuntimeHandle} (hx : Pushed d x) (hm : x.Has m) :
    optionsMonitor.wp (applyRuntimeControls d runtime handle m) (fun y _ => Pushed d y ∧ y.Agrees)
      (fun y _ => Pushed d y) x := by
  refine wp_getCached fun y cached hkept heq => ?_
  have hsignature := signature_eq heq
  dsimp only
  split
  · rename_i hsome
    have hsome' : x.signature.isSome = true := by rw [← hsignature, hsome]; rfl
    exact ⟨hkept.pushed hx, hkept.agrees (hx.agrees hsome')⟩
  · rename_i hne
    have hunsigned : x.Unsigned := by
      by_contra hsome
      obtain ⟨signature, hsome⟩ := ne_none_iff_exists'.mp hsome
      obtain ⟨m₀, hm₀, rfl⟩ := hx.signed signature hsome
      obtain ⟨m₁, hm₁, hcontrols⟩ := hm.exists
      obtain rfl := some.inj (hm₀.symm.trans hm₁)
      exact hne (hsignature.trans (hsome.trans (congrArg some (buildRuntimeControlSignature_congr _ hcontrols))))
    refine wp_quiet_seq (plain_quiet.resolveRuntimeCapabilities _ _)
      (fun _ _ h => (h.unsigned (hkept.unsigned hunsigned)).pushed) fun z capabilities hz => ?_
    refine wp_seq (wp_boundary (wp_mono (fun z _ hz => ?_) (fun _ _ h => Session.Unsigned.pushed h)
      (pushControls_includes (hz.unsigned (hkept.unsigned hunsigned)) (hz.has (hkept.has hm)))))
    obtain ⟨-, hzm, hincludes⟩ := hz
    have hagrees : z.Agrees := .of_includes hzm hincludes
    have hsigned (r : Reply (.setSignature (some (buildRuntimeControlSignature d.localeLe
        (resolveRuntimeOptionsFromMeta m))))) : Pushed d (z.after (.setSignature _) r) := by
      refine ⟨fun signature hsome => ?_, fun _ => hagrees⟩
      obtain ⟨m₀, hm₀, hcontrols⟩ := hzm.exists
      refine ⟨m₀, hm₀, ?_⟩
      rw [buildRuntimeControlSignature_congr _ hcontrols]
      cases h : z.cached <;> simp [Session.after, Session.updateCached, Session.signature, h] at hsome
      exact hsome.symm
    exact wp_io trivial (fun a _ => ⟨hsigned (.ok a), hagrees⟩) fun e _ => hsigned (.error e)

/-! ### Operations -/

/-- When options are persisted the signature is dropped; a write that fails leaves what is set in agreement
with the metadata if there is a signature. -/
theorem persistRuntimeOptions_pushed (options : RuntimeOptions) (hx : x.Signed d) :
    optionsMonitor.wp (persistRuntimeOptions options) (fun y _ => Pushed d y) (fun y _ => Pushed d y) x := by
  refine wp_now fun now => wp_seq (wp_writeOrThrow trivial (fun a _ => ?_) fun e he => ⟨hx, he.2⟩)
  refine wp_getCached fun y cached hkept heq => ?_
  cases cached with
  | none => exact (hkept.unsigned (signature_eq heq).symm).pushed
  | some cached =>
    dsimp only
    split
    · exact wp_certain rfl (fun _ h => h.1) trivial fun _ _ => Session.Unsigned.pushed rfl
    · refine wp_certain rfl (fun _ h => h.1) trivial fun _ _ => Session.Unsigned.pushed ?_
      change (y.cached.map _).bind _ = none
      cases y.cached <;> rfl

theorem setSessionState_quiet (state : SessionState) (lastError : Option String) (clear : Bool) :
    (setSessionState state lastError clear).Uses Quiet :=
  plain_quiet.setSessionState state lastError clear fun _ => trivial

theorem follows_pushed : Follows Quiet d key fun p =>
    ∀ x, Pushed d x → optionsMonitor.wp p (fun y _ => Pushed d y) (fun y _ => Pushed d y) x :=
  ⟨plain_quiet, fun _ hp _ => wp_pushed hp, fun hp hf _ hx => wp_pushed_seq hp hx fun y a _ hy => hf a y hy,
    fun hf _ hx => wp_ensured hx fun _ e hy _ => wp_pushed (hf e) hy⟩

theorem setSessionRuntimeMode_pushed {rawMode mode : String} (hmode : validateRuntimeModeInput rawMode = .ok mode)
    (hx : Pushed d x) :
    optionsMonitor.wp (setSessionRuntimeMode d key mode) (fun y _ => Pushed d y) (fun y _ => Pushed d y) x := by
  refine wp_ensured hx fun y e hx _ => ?_
  refine wp_pushed_seq (plain_quiet.resolveRuntimeCapabilities _ _) hx fun y _ _ hx => ?_
  dsimp only
  split
  · refine wp_seq (wp_boundary (wp_io trivial (fun _ _ => ?_) fun _ _ => hx))
    obtain ⟨merged, hmerged⟩ := mergeRuntimeOptions_ok (resolveRuntimeOptionsFromMeta e.2.2)
      (validateRuntimeOptionPatch_mode hmode)
    rw [hmerged]
    exact persistRuntimeOptions_pushed merged hx.signed
  · exact hx

theorem setSessionConfigOption_pushed (optionKey value : String) (hx : Pushed d x) :
    optionsMonitor.wp (setSessionConfigOption d key optionKey value) (fun y _ => Pushed d y)
      (fun y _ => Pushed d y) x := by
  refine wp_ensured hx fun y e hx _ => ?_
  cases hpatch : inferRuntimeOptionPatchFromConfigOption optionKey value with
  | error e => exact hx
  | ok patch =>
    refine wp_seq ((wp_ofExcept_ok _).mpr ?_)
    refine wp_pushed_seq (plain_quiet.resolveRuntimeCapabilities _ _) hx fun y _ _ hx => ?_
    dsimp only
    split
    · split
      · refine wp_seq (wp_boundary (wp_io trivial (fun _ _ => ?_) fun _ _ => hx))
        obtain ⟨valid, hvalid⟩ := validateRuntimeOptionPatch_inferred hpatch
        obtain ⟨merged, hmerged⟩ := mergeRuntimeOptions_ok (resolveRuntimeOptionsFromMeta e.2.2) hvalid
        rw [hmerged]
        exact persistRuntimeOptions_pushed merged hx.signed
      · exact hx
    · exact hx

theorem updateSessionRuntimeOptions_pushed (patch : RuntimeOptions) (hx : Pushed d x) :
    optionsMonitor.wp (updateSessionRuntimeOptions d key patch) (fun y _ => Pushed d y) (fun y _ => Pushed d y)
      x := by
  refine wp_pushed_seq plain_quiet.requireReadySessionMeta hx fun y m _ hx => ?_
  cases mergeRuntimeOptions (resolveRuntimeOptionsFromMeta m) patch with
  | error e => exact hx
  | ok merged => exact persistRuntimeOptions_pushed merged hx.signed

theorem resetSessionRuntimeOptions_pushed (hx : Pushed d x) :
    optionsMonitor.wp (resetSessionRuntimeOptions d key) (fun y _ => Pushed d y) (fun y _ => Pushed d y) x := by
  refine wp_ensured hx fun y e hx _ => ?_
  refine wp_pushed_seq (uses_boundary _ _ (uses_io (c := .close _ _) trivial)) hx fun y _ _ hx => ?_
  refine wp_pushed_seq (uses_io (c := .clearCached) trivial) hx fun y _ _ hx => ?_
  exact persistRuntimeOptions_pushed {} hx.signed

theorem runTurn_pushed (hasOnEvent : Bool) (hx : Pushed d x) :
    optionsMonitor.wp (runTurn d key hasOnEvent) (fun y _ => Pushed d y) (fun y _ => Pushed d y) x := by
  refine wp_ensured hx fun y e hx hm => ?_
  refine wp_seq (wp_mono (fun y _ hy => ?_) (fun _ _ h => h) (applyRuntimeControls_includes hx hm))
  obtain ⟨hx, hagrees⟩ := hy
  refine wp_pushed_seq (setSessionState_quiet _ _ _) hx fun z _ hkept hx => ?_
  replace hagrees : z.Agrees := hkept.agrees hagrees
  refine wp_pushed_seq (uses_io (c := .setActiveTurn) trivial) hx fun y _ hkept hx => ?_
  replace hagrees : y.Agrees := hkept.agrees hagrees
  have hstream : optionsMonitor.wp (streamTurn e.2.1 hasOnEvent) (fun y _ => Pushed d y) (fun y _ => Pushed d y)
      y := by
    have hfailed (y : Session) (hx : Pushed d y) (error : AcpRuntimeErrorCode × String) :
        optionsMonitor.wp (setSessionState .error (some error.2) false >>= fun _ =>
          (.throw (.acp error.1 error.2) : Io Unit)) (fun y _ => Pushed d y) (fun y _ => Pushed d y) y :=
      wp_pushed_seq (setSessionState_quiet _ _ _) hx fun _ _ _ hx => hx
    refine (wp_tryCatch _ _).mpr (wp_mono (fun _ _ h => h) (fun y error hx => hfailed y hx _) ?_)
    refine wp_seq (wp_io hagrees (fun stream _ => ?_) fun _ _ => hx)
    have hconsume : (consumeEvents hasOnEvent stream.failure stream.events none).Uses Quiet :=
      uses_consumeEvents _ _ _ _ (fun _ => trivial) (fun _ => trivial) trivial
    refine wp_pushed_seq hconsume ⟨hx.signed, hx.agrees⟩ fun y streamError _ hx => ?_
    cases streamError with
    | none => exact wp_pushed (setSessionState_quiet _ _ _) hx
    | some error => exact hx
  refine wp_seq (wp_caught (wp_mono (fun y _ hx => ?_) (fun y _ hx => ?_) hstream))
  all_goals
    refine wp_pushed_seq (uses_io (c := .deleteActiveTurn) trivial) hx fun y _ _ hx => ?_
    refine wp_pushed_seq (plain_quiet.afterTurn _ _ _ trivial trivial) hx fun y _ _ hx => ?_
    exact hx

/-- A runtime that is closed is no longer cached. -/
theorem closeRuntime_unsigned (input : CloseInput) (hx : Pushed d x) (hm : x.Has m) :
    optionsMonitor.wp (closeRuntime d key input m) (fun y _ => y.Unsigned) (fun y _ => Pushed d y) x := by
  have hclear (y : Session) (E : Session → Thrown → Prop) :
      optionsMonitor.wp (io .clearCached) (fun y _ => y.Unsigned) E y :=
    wp_certain rfl (fun _ h => h.1) trivial fun _ _ => rfl
  refine (wp_tryCatch _ _).mpr (wp_seq (wp_mono (fun y e hy => ?_) (fun y error hy => ?_)
    (ensureRuntimeHandle_ready hx hm)))
  · refine wp_seq (wp_boundary (wp_mono (fun z _ _ => hclear z _) (fun z error hz => ?_)
      (wp_quiet (uses_io (c := .close _ _) trivial))))
    dsimp only
    split
    · exact hclear z _
    · exact hz.pushed hy.1
  · dsimp only
    split
    · exact hclear y _
    · exact hy

theorem closeSession_pushed (input : CloseInput) (hx : Pushed d x) :
    optionsMonitor.wp (closeSession d key input) (fun y _ => Pushed d y) (fun y _ => Pushed d y) x := by
  refine wp_seq (wp_certain rfl (fun _ h => h.1) trivial fun meta? hanswer => ?_)
  have heq : meta? = x.meta? := hanswer.1.2
  cases meta? with
  | none =>
    dsimp only
    split <;> exact hx
  | some m =>
    refine wp_seq (wp_mono (fun y _ hy => ?_) (fun _ _ h => h) (closeRuntime_unsigned input hx (.of_eq heq.symm)))
    refine wp_runIf (fun _ => wp_seq (wp_writeOrThrow trivial (fun a _ => ?_) fun _ _ => hy.pushed)) fun _ => hy.pushed
    exact (unsigned_written hy _ a).pushed

theorem evictCandidate_pushed (idleTtlMs now : ℚ) (hx : Pushed d x) :
    optionsMonitor.wp (evictCandidate idleTtlMs now) (fun y _ => Pushed d y) (fun y _ => Pushed d y) x :=
  wp_pushed (plain_quiet.evictCandidate _ _ trivial fun _ => trivial) hx

/-! ### Runs -/

/-- The operation is not the creation of a session. -/
def Op.onSession : Op → Bool
  | .initSession _ => false
  | _ => true

/-- What is called is an operation on a session that there is. -/
def Action.onSession : Action → Bool
  | .call _ op _ _ => op.onSession
  | _ => true

/-- The next call of the job is a write of options. -/
def writesOptions (t : Actors.Task String Reply Thrown) : Bool :=
  match t.prog with
  | .step (.upsertSessionMeta (.options _ _)) _ => true
  | _ => false

/-- The condition on a step: a write of options that fails leaves the options that are set in agreement with
the metadata, unless the next turn will push its options anyway. -/
def Persists (d : Deps) (s : System) : Action → Prop
  | .step i w => ∀ t ∈ s.tasks[i]?, writesOptions t = true → w.error.isSome = true →
      (s.session (machine d) t.key).signature.isSome = true → (s.session (machine d) t.key).Agrees
  | _ => True

/-- The next call of the job starts the stream of a turn. -/
def startsTurn (t : Actors.Task String Reply Thrown) : Bool :=
  match t.prog with
  | .step (.runTurn _) _ => true
  | _ => false

/-- All jobs start turns only under the persisted options. -/
abbrev OptionsSound (d : Deps) (s : System) : Prop :=
  Actors.Sound (machine d) optionsMonitor (Pushed d) (Pushed d) (fun x _ => Pushed d x) s

theorem job_pushed {op : Op} (hop : op.onSession = true) {job : Job} (h : op.job d key = .ok job) :
    Actors.Right optionsMonitor (Pushed d) (Pushed d) (fun x _ => Pushed d x) job.prog :=
  job_prog (P := Actors.Right optionsMonitor (Pushed d) (Pushed d) fun x _ => Pushed d x) h
    (fun input hinit => by subst hinit; cases hop) follows_pushed.getSessionStatus
    (fun _ _ hmode _ hx => setSessionRuntimeMode_pushed hmode hx)
    (fun _ _ pair _ _ hx => setSessionConfigOption_pushed pair.1 pair.2 hx)
    (fun patch _ hx => updateSessionRuntimeOptions_pushed patch hx)
    (fun _ hx => resetSessionRuntimeOptions_pushed hx) (fun hasOnEvent _ hx => runTurn_pushed hasOnEvent hx)
    (follows_pushed.cancelSession fun _ _ _ _ _ => trivial) fun input _ hx => closeSession_pushed input hx

variable {s s' : System}

theorem optionsSound_start (store : List (String × Option SessionAcpMeta)) : OptionsSound d (.start store) := by
  refine ⟨fun _ h => absurd h not_mem_nil, fun _ h => absurd h not_mem_nil,
    fun _ h => absurd h not_mem_nil, fun key _ => ?_, List.Pairwise.nil⟩
  cases h : (System.start store).sessions.get? key with
  | none => exact Session.Unsigned.pushed (by rw [Actors.State.session, h]; rfl)
  | some x =>
    obtain ⟨m, -, rfl⟩ := eq_of_get?_start h
    exact Session.Unsigned.pushed (by rw [Actors.State.session, h]; rfl)

/-- What the monitor expects of the replies, where the step meets the condition. -/
theorem valid_of_persists {i : ℕ} {w : World} {t : Actors.Task String Reply Thrown} {k : Reply c → Io Unit}
    (hpersists : Persists d s (.step i w)) (ht : s.tasks[i]? = some t) (hprog : t.prog = .step c k) :
    optionsMonitor.valid (s.session (machine d) t.key) c (reply d s.sessions t.key c w) := by
  refine ⟨reply_answers _ c w, ?_⟩
  cases c
  case upsertSessionMeta write =>
    cases write with
    | options normalized now =>
      rcases w with ⟨_ | error⟩
      · exact trivial
      · exact hpersists t ht (by rw [writesOptions, hprog]) rfl
    | _ => trivial
  all_goals trivial

theorem OptionsSound.next {a : Action} (h : OptionsSound d s) (ha : a.onSession = true) (hpersists : Persists d s a)
    (hs : next d s a = some s') : OptionsSound d s' := by
  obtain ⟨-, hs⟩ := ite_none_right_eq_some.mp hs
  refine Actors.Sound.next h rfl (fun x hx => ⟨hx.signed, hx.agrees⟩) (fun x _ hx => ⟨hx.signed, hx.agrees⟩) ?_ hs
  cases a with
  | call key op now candidates =>
    intro job hjob
    exact spawned_prog (P := Actors.Right optionsMonitor (Pushed d) (Pushed d) fun x _ => Pushed d x)
      (fun _ => job_pushed ha) (fun idleTtlMs now _ hx => evictCandidate_pushed idleTtlMs now hx) rfl job hjob
  | step i w => exact fun t c k ht hprog _ => valid_of_persists hpersists ht hprog
  | enqueue caller => trivial
  | start i => trivial
  | finish i => trivial

/-- In a run of such steps, with operations on sessions that there are, every turn starts under the persisted
options. -/
theorem turn_underPersisted {store : List (String × Option SessionAcpMeta)} {as : List Action}
    (hops : ∀ a ∈ as, a.onSession = true) (hpersists : Runs.Meets (next d) (Persists d) (.start store) as)
    (h : Runs.exec (next d) (.start store) as = some s) {t : Actors.Task String Reply Thrown} (ht : t ∈ s.tasks)
    (hrun : t.running = true) (hstarts : startsTurn t = true) :
    UnderPersisted (s.session (machine d) t.key) := by
  have hsound : OptionsSound d s := Runs.exec_invariant_of_meets
    (fun _ _ _ hi hP hs => OptionsSound.next hi hP.1 hP.2 hs) (hpersists.and_of_forall hops)
    (optionsSound_start store) h
  unfold startsTurn at hstarts
  split at hstarts
  · rename_i handle k hprog
    exact (hsound.ok ht hrun hprog).underPersisted
  · cases hstarts

instance (applied : Applied) (options : RuntimeOptions) : Decidable (Includes applied options) :=
  decidable_of_iff ((∀ mode ∈ options.runtimeMode, applied.mode = some mode) ∧
      ∀ pair ∈ (buildRuntimeConfigOptionPairs options).entries, applied.config.get? pair.1 = some pair.2)
    ⟨fun h => ⟨h.1, h.2⟩, fun h => ⟨h.mode, h.config⟩⟩

instance (x : Session) : Decidable x.Agrees :=
  inferInstanceAs (Decidable (∀ m ∈ x.meta?, Includes x.applied (resolveRuntimeOptionsFromMeta m)))

/-- Whether a step meets the condition can be computed. -/
instance (s : System) : (a : Action) → Decidable (Persists d s a)
  | .call _ _ _ _ | .enqueue _ | .start _ | .finish _ => isTrue trivial
  | .step i w =>
    inferInstanceAs (Decidable (∀ t ∈ s.tasks[i]?, writesOptions t = true → w.error.isSome = true →
      (s.session (machine d) t.key).signature.isSome = true → (s.session (machine d) t.key).Agrees))

/-- A session in the mode `ask`. -/
def askMode : List (String × Option SessionAcpMeta) :=
  [("a", some
    { backend := "acpx", agent := "main", runtimeSessionName := "runtime", mode := .persistent
      runtimeOptions := some { runtimeMode := some "ask" }, state := .idle, lastActivityAt := 0 })]

/-- An operation is called, and makes some calls. -/
def operating (op : Op) (caller n : ℕ) : List Action :=
  [.call "a" op 0 [], .enqueue caller, .start 0] ++ List.replicate n (.step 0 {})

/-- A turn, a change of the mode, and another turn up to its start. -/
def turnAfterChange : List Action :=
  operating (.runTurn false) 0 24 ++ [.finish 0] ++ operating (.setRuntimeMode "plan") 1 10 ++ [.finish 0] ++
    operating (.runTurn false) 2 11

theorem turn_underPersisted_afterChange : ∃ s t, Runs.exec (next {}) (.start askMode) turnAfterChange = some s ∧
    s.tasks = [t] ∧ startsTurn t = true ∧ UnderPersisted (s.session (machine {}) t.key) := by
  have h : Runs.Meets (next {}) (Persists {}) (.start askMode) turnAfterChange := by decide +kernel
  refine ⟨_, _, rfl, rfl, rfl, turn_underPersisted ?_ h rfl mem_cons_self rfl rfl⟩
  decide +kernel

/-- The same, but the new mode is not persisted. -/
def turnAfterFailure : List Action :=
  operating (.runTurn false) 0 24 ++ [.finish 0] ++ operating (.setRuntimeMode "plan") 1 6 ++
    [.step 0 { error := some (.error "disk full") }, .finish 0] ++ operating (.runTurn false) 2 8

/-- The turn runs in the mode `plan`, which its caller was told was not set. -/
theorem turn_under_rejected : ∃ s, Runs.exec (next {}) (.start askMode) turnAfterFailure = some s ∧
    ∃ t ∈ s.tasks, t.running = true ∧ startsTurn t = true ∧ ¬ UnderPersisted (s.session (machine {}) t.key) := by
  have h : ((Runs.exec (next {}) (.start askMode) turnAfterFailure).any fun s => s.tasks.any fun t =>
      t.running && startsTurn t && !decide (s.session (machine {}) t.key).Agrees) = true := by decide +kernel
  obtain ⟨s, hs, h⟩ := (Option.any_eq_true _ _).mp h
  obtain ⟨t, ht, h⟩ := List.any_eq_true.mp h
  simp only [Bool.and_eq_true, Bool.not_eq_true', decide_eq_false_iff_not] at h
  exact ⟨s, hs, t, ht, h.1.1, h.1.2, fun hunder => h.2 hunder.includes⟩

end Foxclaw.Acp
