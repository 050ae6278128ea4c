import Foxclaw.Cron.StoredJobs

/-!
# The sections of the migration of stored cron jobs

For each section of `normalizeStoredCronJobs`: which property it changes and what it leaves there
(`..._spec`), and that it does nothing when the property is as it leaves it (`..._of_settled`).
-/

namespace Foxclaw.Cron.Migration

open List Option Foxclaw.Text Foxclaw.Routing

variable {ω : Type}

/-! ### Values -/

@[simp] theorem trimmedText_text {α : Type} (s : String) :
    trimmedText (some (.text s : Value ω α)) = trimString s := rfl

@[simp] theorem sameText_self {α : Type} (s : String) :
    sameText (some (.text s : Value ω α)) (some s) = true := decide_eq_true rfl

theorem sameText_iff {α : Type} {value : Option (Value ω α)} {s : Option String} :
    sameText value s = true ↔ value = s.map .text := by
  cases s with
  | none =>
    cases value with
    | none => simp [sameText]
    | some v => cases v <;> simp [sameText]
  | some s =>
    cases value with
    | none => simp [sameText]
    | some v => cases v <;> simp [sameText]

theorem sameNumber_iff {α : Type} {value : Option (Value ω α)} {n : ℤ} :
    sameNumber value n = true ↔ value = some (.number (.fin n)) := by
  unfold sameNumber
  split
  · simp
  · rename_i hne
    constructor
    · intro h
      cases h
    · intro h
      exact absurd h (hne n)

theorem recordOf_eq_some {α : Type} {value : Option (Value ω α)} {o : α} :
    recordOf value = some o ↔ value = some (.object o) := by
  unfold recordOf
  split
  · simp
  · rename_i hne
    constructor
    · intro h
      cases h
    · intro h
      exact absurd h (hne o)

@[simp] theorem trimString_trimmedText {α : Type} (value : Option (Value ω α)) :
    trimString (trimmedText value) = trimmedText value := by
  unfold trimmedText
  split
  · exact trimString_trimString _
  · rfl

theorem sameText_assignText (value : Field ω) (s : Option String) :
    sameText (assignText value s).1 s = true := by
  unfold assignText
  split
  · assumption
  · exact sameText_iff.mpr rfl

theorem assignText_of_same {value : Field ω} {s : Option String} (h : sameText value s = true) :
    assignText value s = (value, false) := if_pos h

theorem sameNumber_assignNumber (value : Field ω) (n : ℤ) : sameNumber (assignNumber value n).1 n = true := by
  unfold assignNumber
  split
  · assumption
  · exact sameNumber_iff.mpr rfl

theorem assignNumber_of_same {value : Field ω} {n : ℤ} (h : sameNumber value n = true) :
    assignNumber value n = (value, false) := if_pos h

/-- A text of ASCII characters without spaces at its ends is lowered character by character. -/
theorem loweredText_ascii (deps : MigrationDeps) {α : Type} {s t : String}
    (hs : trimString s = s ∧ s.toList.all (fun c => decide (c.toNat < 128)) = true ∧
      String.ofList (s.toList.map Char.toLower) = t) :
    loweredText deps (some (.text s : Value ω α)) = t := by
  obtain ⟨htrim, hascii, hlower⟩ := hs
  show deps.cases.toLowerCase (trimString s) = t
  rw [htrim, deps.cases.ascii s (forall_mem_of_all hascii), hlower]

/-! ### What was said of a job -/

variable (p : Progress ω)

@[simp] theorem raw_track (key : CronStoreIssueKey) (found : Bool) : (p.track key found).raw = p.raw := by
  unfold Progress.track
  split
  · rfl
  · rfl

@[simp] theorem mutated_track (key : CronStoreIssueKey) (found : Bool) :
    (p.track key found).mutated = p.mutated := by
  unfold Progress.track
  split
  · rfl
  · rfl

@[simp] theorem track_false (key : CronStoreIssueKey) : p.track key false = p := rfl

@[simp] theorem raw_update (raw : StoredJob ω) (changed : Bool) :
    (p.update raw changed).raw = raw := rfl

@[simp] theorem mutated_update (raw : StoredJob ω) (changed : Bool) :
    (p.update raw changed).mutated = (p.mutated || changed) := rfl

theorem update_self : p.update p.raw false = p := by
  rw [Progress.update, Bool.or_false]

/-! ### Fields -/

/-- Applied to what it leaves, the function changes nothing. -/
def Settles {α : Type} (f : α → α × Bool) : Prop := ∀ a, f (f a).1 = ((f a).1, false)

theorem settles_normalizedState [EmptyCollection ω] : Settles (normalizedState : Field ω → _) := by
  intro state
  unfold normalizedState
  cases h : recordOf state with
  | none => rfl
  | some o => simp only [h]

/-- The id stays when there is no `jobId` left. -/
theorem normalizedId_settles (id jobId : Field ω) :
    normalizedId (normalizedId id jobId).1 none = ((normalizedId id jobId).1, false) := by
  have hkeep (id : Field ω) (h : trimmedText id = "" ∨ sameText id (some (trimmedText id)) = true) :
      normalizedId id none = (id, false) := by
    have hnone : trimmedText (none : Field ω) = "" := rfl
    unfold normalizedId
    rcases h with h | h
    · simp [h, hnone]
    · simp [h, hnone]
  refine hkeep _ ?_
  unfold normalizedId
  dsimp only
  split
  · exact .inr (by rw [trimmedText_text, trimString_trimmedText, sameText_self])
  · split
    · exact .inr (by rw [trimmedText_text, trimString_trimmedText, sameText_self])
    · rename_i hretrim
      simp only [Bool.and_eq_true, decide_eq_true_eq, Bool.not_eq_true', not_and,
        Bool.not_eq_false] at hretrim
      by_cases hid : trimmedText id = ""
      · exact .inl hid
      · exact .inr (hretrim hid)

theorem textOf_readSchedule [EmptyCollection ω] (schedule : Option (Value ω (StoredSchedule ω))) :
    textOf (readSchedule schedule) = none := by
  unfold readSchedule
  split
  · rfl
  · rename_i hne
    unfold textOf
    split
    · rename_i s
      exact absurd rfl (hne s)
    · rfl

theorem readSchedule_of_textOf [EmptyCollection ω] {schedule : Option (Value ω (StoredSchedule ω))}
    (h : textOf schedule = none) : readSchedule schedule = schedule := by
  unfold readSchedule
  split
  · cases h
  · rfl

theorem settles_normalizedText : Settles (normalizedText : Field ω → _) := by
  intro value
  refine assignText_of_same ?_
  have hsame := sameText_iff.mp (sameText_assignText value (normalizeOptionalText value))
  show sameText (assignText value (normalizeOptionalText value)).1
    (normalizeOptionalText (assignText value (normalizeOptionalText value)).1) = true
  rw [hsame]
  refine sameText_iff.mpr (congrArg _ ?_)
  unfold normalizeOptionalText
  by_cases hblank : trimmedText value = ""
  · rw [if_pos hblank]
    rfl
  · rw [if_neg hblank, map_some, trimmedText_text, trimString_trimmedText, if_neg hblank]

theorem settles_normalizedEnabled : Settles (normalizedEnabled : Field ω → _) := by
  intro enabled
  unfold normalizedEnabled
  cases h : isBool enabled with
  | false => rfl
  | true => simp only [h, if_true]

theorem settles_normalizedIsolation : Settles (normalizedIsolation : Field ω → _) := by
  intro isolation
  unfold normalizedIsolation
  cases h : (recordOf isolation).isSome with
  | false => simp [h]
  | true => rfl

variable (deps : MigrationDeps)

theorem settles_normalizedWakeMode : Settles (normalizedWakeMode deps : Field ω → _) := by
  intro wakeMode
  refine assignText_of_same ?_
  have hsame := sameText_iff.mp (sameText_assignText wakeMode
    (some (if loweredText deps wakeMode = "next-heartbeat" then "next-heartbeat" else "now")))
  unfold normalizedWakeMode
  rw [hsame, map_some]
  split
  · rw [loweredText_ascii deps (t := "next-heartbeat") (by decide +kernel), if_pos rfl, sameText_self]
  · rw [loweredText_ascii deps (t := "now") (by decide +kernel), if_neg (by decide), sameText_self]

/-! ### Payloads -/

/-- The kind is the canonical one, or none can be told from the rest. -/
def KindSettled (kind message text : Field ω) : Prop :=
  (∀ k, canonicalKind (loweredText deps kind) = some k → sameText kind (some k) = true) ∧
    (isFalsy kind = true → trimmedText message = "" ∧ trimmedText text = "")

variable {deps}

theorem normalizePayloadKind_of_settled {payload : StoredPayload ω}
    (h : KindSettled deps payload.kind payload.message payload.text) :
    normalizePayloadKind deps payload = (payload, false) := by
  unfold normalizePayloadKind
  split
  · rename_i kind hkind
    rw [if_pos (h.1 kind hkind)]
  · rfl

theorem inferPayloadKind_of_settled {payload : StoredPayload ω}
    (h : KindSettled deps payload.kind payload.message payload.text) :
    inferPayloadKind payload = (payload, false) := by
  unfold inferPayloadKind
  split
  · rename_i hfalsy
    obtain ⟨hmessage, htext⟩ := h.2 hfalsy
    simp [hmessage, htext]
  · rfl

theorem kindSettled_of_kind {kind : String} (hkind : kind = "agentTurn" ∨ kind = "systemEvent")
    (message text : Field ω) : KindSettled deps (some (.text kind)) message text := by
  rcases hkind with rfl | rfl
  · refine ⟨fun k hk => ?_, fun h => by simp [isFalsy] at h⟩
    rw [loweredText_ascii deps (t := "agentturn") (by decide +kernel)] at hk
    cases hk
    exact sameText_self _
  · refine ⟨fun k hk => ?_, fun h => by simp [isFalsy] at h⟩
    rw [loweredText_ascii deps (t := "systemevent") (by decide +kernel)] at hk
    cases hk
    exact sameText_self _

theorem canonicalKind_eq_some {raw kind : String} (h : canonicalKind raw = some kind) :
    kind = "agentTurn" ∨ kind = "systemEvent" := by
  unfold canonicalKind at h
  split at h
  · exact .inl (some.inj h).symm
  · split at h
    · exact .inr (some.inj h).symm
    · cases h

variable (deps) in
theorem kindSettled_inferPayloadKind (payload : StoredPayload ω) :
    let r := (inferPayloadKind (normalizePayloadKind deps payload).1).1
    KindSettled deps r.kind r.message r.text := by
  intro r
  cases hkind : canonicalKind (loweredText deps payload.kind) with
  | some kind =>
    have hsettled : KindSettled deps (some (.text kind)) payload.message payload.text :=
      kindSettled_of_kind (canonicalKind_eq_some hkind) _ _
    have hnamed : (normalizePayloadKind deps payload).1 = { payload with kind := some (.text kind) } := by
      unfold normalizePayloadKind
      rw [hkind]
      dsimp only
      split
      · rename_i hsame
        rw [sameText_iff, map_some] at hsame
        rw [← hsame]
      · rfl
    have hr : r = { payload with kind := some (.text kind) } := by
      show (inferPayloadKind (normalizePayloadKind deps payload).1).1 = _
      rw [hnamed, inferPayloadKind_of_settled hsettled]
    rw [hr]
    exact hsettled
  | none =>
    have hnamed : (normalizePayloadKind deps payload).1 = payload := by
      unfold normalizePayloadKind
      rw [hkind]
    have hunnamed (k : String) (hk : canonicalKind (loweredText deps payload.kind) = some k) :
        sameText payload.kind (some k) = true := by
      rw [hkind] at hk
      cases hk
    have hr : r = (inferPayloadKind payload).1 := by
      show (inferPayloadKind (normalizePayloadKind deps payload).1).1 = _
      rw [hnamed]
    rw [hr]
    unfold inferPayloadKind
    split
    · split
      · exact kindSettled_of_kind (.inl rfl) _ _
      · split
        · exact kindSettled_of_kind (.inr rfl) _ _
        · rename_i hmessage htext
          exact ⟨hunnamed, fun _ => ⟨not_not.mp hmessage, not_not.mp htext⟩⟩
    · rename_i htruthy
      exact ⟨hunnamed, fun h => absurd h htruthy⟩

/-- Nothing is copied from a job without legacy properties. -/
theorem copyTopLevelAgentTurnFields_stripped (payload : StoredPayload ω) :
    copyTopLevelAgentTurnFields strippedFields.toLegacyFields payload = (payload, false) := by
  have hnone (kept : Bool) (own : Field ω) : copyField kept own none = (own, false) := by
    cases kept with
    | false => rfl
    | true => rfl
  have htext : copiedText (none : Field ω) = none := rfl
  unfold copyTopLevelAgentTurnFields
  simp only [strippedFields, copiedBool, copiedSeconds, htext, hnone, Bool.or_self]

/-- What the first sections leave of a payload: a kind, and no provider. -/
structure PayloadSettled (deps : MigrationDeps) (payload : StoredPayload ω) : Prop where
  kind : KindSettled deps payload.kind payload.message payload.text
  provider : payload.provider = none
  /-- Nothing is said of the delivery. -/
  hints : hasLegacyDeliveryHints payload.toLegacyFields = false

theorem normalizedPayload_of_settled {payload : StoredPayload ω} (h : PayloadSettled deps payload) :
    normalizedPayload deps strippedFields payload = (payload, false, false) := by
  unfold normalizedPayload
  simp only [normalizePayloadKind_of_settled h.kind, inferPayloadKind_of_settled h.kind,
    copyTopLevelAgentTurnFields_stripped, ite_self, Bool.or_self]

theorem migrateLegacyCronPayload_of_settled {payload : StoredPayload ω}
    (h : PayloadSettled deps payload) : migrateLegacyCronPayload deps payload = (payload, false) := by
  have hchannel : trimmedText payload.channel = "" := by
    have hhints := h.hints
    unfold hasLegacyDeliveryHints at hhints
    simp only [Bool.or_eq_false_iff, decide_eq_false_iff_not, not_not] at hhints
    exact hhints.1.1.2
  have hnone : trimmedText (none : Field ω) = "" := rfl
  cases payload with
  | mk legacy kind rest =>
    cases legacy
    have hprovider := h.provider
    dsimp only at hprovider hchannel
    subst hprovider
    simp [migrateLegacyCronPayload, hchannel, hnone]

variable (deps) in
/-- The kind is settled after the first sections, and there is no provider. -/
theorem payload_migrated (legacy : TopLevelFields ω) (payload : StoredPayload ω) :
    let r := (migrateLegacyCronPayload deps (normalizedPayload deps legacy payload).1).1
    KindSettled deps r.kind r.message r.text ∧ r.provider = none := by
  refine ⟨?_, rfl⟩
  have hsettled := kindSettled_inferPayloadKind deps payload
  show KindSettled deps (normalizedPayload deps legacy payload).1.kind
    (normalizedPayload deps legacy payload).1.message (normalizedPayload deps legacy payload).1.text
  unfold normalizedPayload
  dsimp only at hsettled ⊢
  split
  · exact hsettled
  · exact hsettled

/-! ### Deliveries -/

/-- The mode is there, and is not the legacy one. -/
structure ModeSettled (deps : MigrationDeps) (mode : Field ω) : Prop where
  present : mode ≠ none
  /-- It is not `null`. -/
  notNull : mode ≠ some .null
  current : loweredText deps mode ≠ "deliver"

theorem normalizeDeliveryMode_of_settled {delivery : StoredDelivery ω}
    (h : ModeSettled deps delivery.mode) : normalizeDeliveryMode deps delivery = (delivery, false) := by
  unfold normalizeDeliveryMode
  dsimp only
  split
  · rename_i hmode
    exact absurd hmode h.present
  · rename_i hmode
    exact absurd hmode h.notNull
  · rw [if_neg h.current]
  · rfl

theorem modeSettled_announce : ModeSettled deps (some (.text "announce") : Field ω) :=
  ⟨nofun, nofun, by rw [loweredText_ascii deps (t := "announce") (by decide +kernel)]; decide⟩

theorem modeSettled_none : ModeSettled deps (some (.text "none") : Field ω) :=
  ⟨nofun, nofun, by rw [loweredText_ascii deps (t := "none") (by decide +kernel)]; decide⟩

variable (deps) in
theorem modeSettled_normalizeDeliveryMode (delivery : StoredDelivery ω) :
    ModeSettled deps (normalizeDeliveryMode deps delivery).1.mode := by
  unfold normalizeDeliveryMode
  dsimp only
  split
  · exact modeSettled_announce
  · exact modeSettled_announce
  · rename_i s hmode
    split
    · exact modeSettled_announce
    · rename_i hcurrent
      exact ⟨by rw [hmode]; nofun, by rw [hmode]; nofun, hcurrent⟩
  · rename_i hpresent hnull htext
    refine ⟨hpresent, hnull, ?_⟩
    unfold loweredText
    split
    · rename_i s hmode
      exact absurd hmode (htext s)
    · decide

/-- The legacy properties leave a mode. -/
theorem modeSettled_deliveryWithLegacy [EmptyCollection ω] (payload : LegacyFields ω)
    {delivery : Option (StoredDelivery ω)} (h : ∀ d, delivery = some d → ModeSettled deps d.mode) :
    ModeSettled deps (deliveryWithLegacy deps payload delivery).mode := by
  unfold deliveryWithLegacy
  cases delivery with
  | none =>
    show ModeSettled deps (some (.text (if refusesDelivery payload then "none" else "announce")))
    split
    · exact modeSettled_none
    · exact modeSettled_announce
  | some delivery =>
    show ModeSettled deps ((patchedMode deps payload).or delivery.mode)
    unfold patchedMode
    split
    · exact modeSettled_none
    · split
      · exact modeSettled_announce
      · exact h delivery rfl

/-! ### Sessions -/

theorem trimString_session {id : String} (htrim : trimString id = id) (hne : id ≠ "") :
    trimString ("session:" ++ id) = "session:" ++ id := by
  have hid : trim id.toList = id.toList := by
    have hlist := congrArg String.toList htrim
    rwa [trimString, String.toList_ofList] at hlist
  have hne' : id.toList ≠ [] := fun h => hne (String.toList_injective h)
  have hend : trimEnd ("session:".toList ++ id.toList) = "session:".toList ++ id.toList :=
    trimEnd_append_of_trimmed (trim_eq_self_iff.mp hid).2 hne'
  rw [trimString, String.toList_append, trim_eq_self_iff.mpr ⟨rfl, hend⟩, ← String.toList_append,
    String.ofList_toList]

theorem sessionTargetOf_session {payloadKind id : String} (htrim : trimString id = id) (hne : id ≠ "") :
    sessionTargetOf deps payloadKind (some (.text ("session:" ++ id)) : Field ω) =
      some ("session:" ++ id) := by
  have hprefix : "session:".toList <+:
      (loweredText deps (some (.text ("session:" ++ id)) : Field ω)).toList := by
    show _ <+: (deps.cases.toLowerCase (trimString ("session:" ++ id))).toList
    rw [trimString_session htrim hne]
    exact deps.ascii_append "session:" id (forall_mem_of_all (by decide +kernel))
  have hdrop : ("session:" ++ id).toList.drop 8 = id.toList := by
    rw [String.toList_append]
    exact drop_left' rfl
  unfold sessionTargetOf
  simp only [trimmedText_text, trimString_session htrim hne, hdrop, String.ofList_toList, htrim]
  generalize loweredText deps (some (.text ("session:" ++ id)) : Field ω) = lowered at hprefix
  have hmain : lowered ≠ "main" := by
    rintro rfl
    exact absurd hprefix (by decide)
  have hisolated : lowered ≠ "isolated" := by
    rintro rfl
    exact absurd hprefix (by decide)
  rw [if_neg (by simp [hmain, hisolated]), if_pos ( isPrefixOf_iff_prefix.mpr hprefix), if_neg hne]

/-- The session that was told is told again. -/
theorem sessionTargetOf_self {payloadKind target : String} {sessionTarget : Field ω}
    (h : sessionTargetOf deps payloadKind sessionTarget = some target) :
    sessionTargetOf deps payloadKind (some (.text target) : Field ω) = some target := by
  have hmain : sessionTargetOf deps payloadKind (some (.text "main") : Field ω) = some "main" := by
    unfold sessionTargetOf
    rw [loweredText_ascii deps (t := "main") (by decide +kernel)]
    rfl
  have hisolated : sessionTargetOf deps payloadKind (some (.text "isolated") : Field ω) =
      some "isolated" := by
    unfold sessionTargetOf
    rw [loweredText_ascii deps (t := "isolated") (by decide +kernel)]
    rfl
  unfold sessionTargetOf at h
  simp only at h
  split at h
  · rename_i hlowered
    cases h
    simp only [Bool.or_eq_true, decide_eq_true_eq] at hlowered
    rcases hlowered with hlowered | hlowered
    · rw [hlowered]
      exact hmain
    · rw [hlowered]
      exact hisolated
  · split at h
    · split at h
      · cases h
      · rename_i hid
        cases h
        exact sessionTargetOf_session (trimString_trimString _) hid
    · split at h
      · cases h
        exact hisolated
      · split at h
        · cases h
          exact hisolated
        · cases h
          exact hmain

variable (deps) in
theorem settles_normalizedSessionTarget (payloadKind : String) :
    Settles (normalizedSessionTarget deps payloadKind : Field ω → _) := by
  intro sessionTarget
  cases htarget : sessionTargetOf deps payloadKind sessionTarget with
  | none =>
    have hkeep : normalizedSessionTarget deps payloadKind sessionTarget = (sessionTarget, false) := by
      unfold normalizedSessionTarget
      rw [htarget]
    rw [hkeep, hkeep]
  | some target =>
    have hfirst : (normalizedSessionTarget deps payloadKind sessionTarget).1 = some (.text target) := by
      unfold normalizedSessionTarget
      rw [htarget]
      exact sameText_iff.mp (sameText_assignText sessionTarget (some target))
    have hagain : sessionTargetOf deps payloadKind (some (.text target) : Field ω) = some target :=
      sessionTargetOf_self htarget
    rw [hfirst]
    unfold normalizedSessionTarget
    rw [hagain]
    exact assignText_of_same (sameText_self target)

/-! ### Schedules -/

variable (deps) in
theorem settles_anchoredField (isEvery : Bool) (createdAtMs updatedAtMs : Field ω) :
    Settles (anchoredField deps isEvery createdAtMs updatedAtMs) := by
  intro anchorMs
  cases isEvery with
  | false => rfl
  | true =>
    cases hold : normalizedAnchor deps anchorMs createdAtMs updatedAtMs with
    | none =>
      have hkeep : anchoredField deps true createdAtMs updatedAtMs anchorMs = (anchorMs, false) := by
        unfold anchoredField
        rw [if_pos rfl, hold]
      rw [hkeep, hkeep]
    | some anchor =>
      have hpos : 0 ≤ anchor := by
        obtain ⟨q, -, rfl⟩ := map_eq_some_iff.mp hold
        exact le_max_left _ _
      have hfirst : (anchoredField deps true createdAtMs updatedAtMs anchorMs).1 =
          some (.number (.fin anchor)) := by
        unfold anchoredField
        rw [if_pos rfl, hold]
        exact sameNumber_iff.mp (sameNumber_assignNumber anchorMs anchor)
      have hagain : normalizedAnchor deps (some (.number (.fin anchor)) : Field ω) createdAtMs
          updatedAtMs = some anchor := by
        show some (max 0 ⌊(anchor : ℚ)⌋) = some anchor
        rw [Int.floor_intCast, max_eq_right hpos]
      rw [hfirst]
      unfold anchoredField
      rw [if_pos rfl, hagain]
      exact assignNumber_of_same (sameNumber_iff.mpr rfl)

/-- The interval and its anchor are whole numbers. -/
def EverySettled (deps : MigrationDeps) (isEvery : Bool)
    (createdAtMs updatedAtMs everyMs anchorMs : Field ω) : Prop :=
  ∀ every, NextRun.coerceFiniteScheduleNumber deps.toDeps (fieldValue everyMs) = some every →
    sameNumber everyMs ⌊every⌋ = true ∧
      anchoredField deps isEvery createdAtMs updatedAtMs anchorMs = (anchorMs, false)

theorem normalizeEvery_of_settled {kind : String} {createdAtMs updatedAtMs : Field ω}
    {sched : StoredSchedule ω} (h : EverySettled deps (isKind kind sched.kind "every") createdAtMs
      updatedAtMs sched.everyMs sched.anchorMs) :
    normalizeEvery deps kind createdAtMs updatedAtMs sched = (sched, false) := by
  unfold normalizeEvery
  split
  · rename_i every hevery
    obtain ⟨hsame, hanchor⟩ := h every hevery
    simp only [assignNumber_of_same hsame, hanchor, Bool.or_self]
  · rfl

variable (deps) in
theorem everySettled_normalizeEvery (kind : String) (createdAtMs updatedAtMs : Field ω)
    (sched : StoredSchedule ω) :
    let r := (normalizeEvery deps kind createdAtMs updatedAtMs sched).1
    EverySettled deps (isKind kind sched.kind "every") createdAtMs updatedAtMs r.everyMs r.anchorMs := by
  intro r every hevery
  cases hfirst : NextRun.coerceFiniteScheduleNumber deps.toDeps (fieldValue sched.everyMs) with
  | none =>
    have hr : r = sched := by
      show (normalizeEvery deps kind createdAtMs updatedAtMs sched).1 = sched
      rw [normalizeEvery, hfirst]
    rw [hr, hfirst] at hevery
    cases hevery
  | some first =>
    have hr : r = { sched with
        everyMs := (assignNumber sched.everyMs ⌊first⌋).1
        anchorMs := (anchoredField deps (isKind kind sched.kind "every") createdAtMs updatedAtMs
          sched.anchorMs).1 } := by
      show (normalizeEvery deps kind createdAtMs updatedAtMs sched).1 = _
      rw [normalizeEvery, hfirst]
    have hevery' := sameNumber_iff.mp (sameNumber_assignNumber sched.everyMs ⌊first⌋)
    rw [hr, hevery'] at hevery
    rw [hr]
    obtain rfl : ((⌊first⌋ : ℤ) : ℚ) = every := some.inj hevery
    exact ⟨sameNumber_iff.mpr (by rw [hevery', Int.floor_intCast]), settles_anchoredField deps _ _ _ _⟩

/-- The expression is trimmed, and there is no legacy one. -/
structure ExprSettled (sched : StoredSchedule ω) : Prop where
  /-- Trimmed. -/
  trimmed : ∀ s, sched.expr = some (.text s) → trimString s = s
  /-- No legacy one. -/
  cron : sched.cron = none

theorem normalizeExpr_of_settled {sched : StoredSchedule ω} (h : ExprSettled sched) :
    normalizeExpr sched = (sched, false) := by
  have hcron : trimmedText sched.cron = "" := by rw [h.cron]; rfl
  have hlegacy : exprFromLegacy sched = false := by
    unfold exprFromLegacy
    rw [hcron]
    simp
  have hexpr : ((textOf sched.expr).isSome && !sameText sched.expr (some (normalizedExpr sched))) =
      false := by
    cases htext : textOf sched.expr with
    | none => rfl
    | some s =>
      have hs : sched.expr = some (.text s) := by
        unfold textOf at htext
        split at htext
        · rename_i he
          rw [he, some.inj htext]
        · cases htext
      have hsame : normalizedExpr sched = s := by
        unfold normalizedExpr
        rw [hcron, hs, trimmedText_text, h.trimmed s hs]
        split
        · rename_i hblank
          exact hblank.symm
        · rfl
      rw [hsame, hs, sameText_self]
      rfl
  unfold normalizeExpr
  simp only [hlegacy, hexpr, h.cron, Bool.or_self, isSome_none, Bool.false_eq_true, if_false]
  rw [← h.cron]

theorem trimString_normalizedExpr (sched : StoredSchedule ω) :
    trimString (normalizedExpr sched) = normalizedExpr sched := by
  unfold normalizedExpr
  split
  · exact trimString_trimmedText _
  · exact trimString_trimmedText _

theorem exprSettled_normalizeExpr (sched : StoredSchedule ω) : ExprSettled (normalizeExpr sched).1 := by
  refine ⟨fun s hs => ?_, rfl⟩
  unfold normalizeExpr at hs
  dsimp only at hs
  split at hs
  · cases hs
    exact trimString_normalizedExpr sched
  · rename_i hkeep
    simp only [Bool.or_eq_true, Bool.and_eq_true, not_or, not_and, Bool.not_eq_true',
      Bool.not_eq_false] at hkeep
    have hsame := sameText_iff.mp (hkeep.2 (by rw [hs]; rfl))
    rw [hs, map_some, some.injEq, Value.text.injEq] at hsame
    rw [hsame]
    exact trimString_normalizedExpr sched

/-- The expression stays. -/
theorem normalizedExpr_normalizeExpr (sched : StoredSchedule ω) :
    normalizedExpr (normalizeExpr sched).1 = normalizedExpr sched := by
  have hnone : trimmedText (none : Field ω) = "" := rfl
  have hafter : normalizedExpr (normalizeExpr sched).1 =
      trimmedText (normalizeExpr sched).1.expr := by
    show (if trimmedText (normalizeExpr sched).1.expr = "" then trimmedText (none : Field ω) else _) = _
    split
    · rename_i hblank
      rw [hblank, hnone]
    · rfl
  rw [hafter]
  unfold normalizeExpr
  dsimp only
  split
  · rw [trimmedText_text, trimString_normalizedExpr]
  · rename_i hkeep
    simp only [Bool.or_eq_true, not_or, exprFromLegacy, Bool.and_eq_true, decide_eq_true_eq, not_and,
      not_not] at hkeep
    unfold normalizedExpr
    split
    · rename_i hblank
      rw [hblank, hkeep.1 hblank]
    · rfl

/-- The window of the expression is a whole number, or there is none. -/
def StaggerSettled (deps : MigrationDeps) (isCron : Bool) (expr : String) (staggerMs : Field ω) : Prop :=
  isCron = true → expr ≠ "" →
    match (explicitStaggerMs deps staggerMs).or (resolveDefaultCronStaggerMs expr) with
    | some target => sameNumber staggerMs target = true
    | none => staggerMs = none

theorem normalizeStagger_of_settled {kind expr : String} {sched : StoredSchedule ω}
    (h : StaggerSettled deps (isKind kind sched.kind "cron") expr sched.staggerMs) :
    normalizeStagger deps kind expr sched = (sched, false) := by
  unfold normalizeStagger
  split
  · rename_i hcond
    simp only [Bool.and_eq_true, decide_eq_true_eq] at hcond
    have htarget := h hcond.1 hcond.2
    split
    · rename_i target ht
      rw [ht] at htarget
      rw [assignNumber_of_same htarget]
    · rename_i ht
      rw [ht] at htarget
      dsimp only at htarget
      rw [htarget, isSome_none, ← htarget]
  · rfl

theorem resolveDefaultCronStaggerMs_nonneg {expr : String} {staggerMs : ℤ}
    (h : resolveDefaultCronStaggerMs expr = some staggerMs) : 0 ≤ staggerMs := by
  unfold resolveDefaultCronStaggerMs at h
  split at h
  · cases h
    decide
  · cases h

variable (deps) in
theorem staggerSettled_normalizeStagger (kind expr : String) (sched : StoredSchedule ω) :
    StaggerSettled deps (isKind kind sched.kind "cron") expr
      (normalizeStagger deps kind expr sched).1.staggerMs := by
  intro hkind hexpr
  unfold normalizeStagger
  rw [if_pos (by simp [hkind, hexpr])]
  cases htarget : (explicitStaggerMs deps sched.staggerMs).or (resolveDefaultCronStaggerMs expr) with
  | some target =>
    have hpos : 0 ≤ target := by
      rcases or_eq_some_iff.mp htarget with hexplicit | ⟨-, hdefault⟩
      · obtain ⟨q, -, rfl⟩ := map_eq_some_iff.mp hexplicit
        exact le_max_left _ _
      · exact resolveDefaultCronStaggerMs_nonneg hdefault
    have hfirst := sameNumber_iff.mp (sameNumber_assignNumber sched.staggerMs target)
    have hagain : explicitStaggerMs deps (some (.number (.fin target)) : Field ω) = some target := by
      show some (max 0 ⌊(target : ℚ)⌋) = some target
      rw [Int.floor_intCast, max_eq_right hpos]
    dsimp only
    rw [hfirst, hagain]
    exact sameNumber_iff.mpr rfl
  | none =>
    rw [or_eq_none_iff] at htarget
    dsimp only
    rw [htarget.2]
    rfl

/-- What the section of the schedule leaves of one without a time. -/
structure ScheduleSettled (deps : MigrationDeps) (createdAtMs updatedAtMs : Field ω)
    (sched : StoredSchedule ω) : Prop where
  /-- It has a kind if it has a time. -/
  named : lacksKind (loweredText deps sched.kind) sched = false
  every : EverySettled deps (isKind (loweredText deps sched.kind) sched.kind "every") createdAtMs
    updatedAtMs sched.everyMs sched.anchorMs
  expr : ExprSettled sched
  stagger : StaggerSettled deps (isKind (loweredText deps sched.kind) sched.kind "cron")
    (normalizedExpr sched) sched.staggerMs

/-- A schedule without a time that can be read. -/
def Timeless (deps : MigrationDeps) (sched : StoredSchedule ω) : Prop := parsedAtMs deps sched = none

theorem normalizedSchedule_of_settled {createdAtMs updatedAtMs : Field ω} {sched : StoredSchedule ω}
    (h : ScheduleSettled deps createdAtMs updatedAtMs sched) (htime : Timeless deps sched) :
    normalizedSchedule deps createdAtMs updatedAtMs sched = .ok (sched, false, false) := by
  have hat : normalizeAt deps (loweredText deps sched.kind) sched = .ok (sched, false) := by
    rw [normalizeAt, htime]
    dsimp only
    rw [namedSchedule, h.named, if_neg Bool.false_ne_true]
  unfold normalizedSchedule
  simp only [hat, Except.map, normalizeEvery_of_settled h.every, normalizeExpr_of_settled h.expr,
    normalizeStagger_of_settled h.stagger, h.expr.cron, Bool.or_self, isSome_none]

variable (deps) in
theorem normalizeEvery_frame (kind : String) (createdAtMs updatedAtMs : Field ω) (sched : StoredSchedule ω) :
    ∃ everyMs anchorMs, (normalizeEvery deps kind createdAtMs updatedAtMs sched).1 =
      { sched with everyMs, anchorMs } := by
  unfold normalizeEvery
  split
  · exact ⟨_, _, rfl⟩
  · exact ⟨_, _, rfl⟩

variable (deps) in
theorem normalizeStagger_frame (kind expr : String) (sched : StoredSchedule ω) :
    ∃ staggerMs, (normalizeStagger deps kind expr sched).1 = { sched with staggerMs } := by
  unfold normalizeStagger
  split
  · split
    · exact ⟨_, rfl⟩
    · exact ⟨_, rfl⟩
  · exact ⟨_, rfl⟩

variable (deps) in
/-- It is an interval or an expression as it was. -/
theorem isKind_namedSchedule (sched : StoredSchedule ω) {name : String} (hempty : name ≠ "")
    (hat : name ≠ "at") :
    let named := namedSchedule (loweredText deps sched.kind) sched
    isKind (loweredText deps sched.kind) named.kind name =
      isKind (loweredText deps named.kind) named.kind name := by
  unfold namedSchedule
  dsimp only
  split
  · rename_i hnamed
    simp only [lacksKind, Bool.and_eq_true, decide_eq_true_eq] at hnamed
    rw [hnamed.1, loweredText_ascii deps (t := "at") (by decide +kernel)]
    simp [isKind, hempty.symm, hat.symm]
  · rfl

variable (deps) in
theorem lacksKind_namedSchedule (sched : StoredSchedule ω) :
    let named := namedSchedule (loweredText deps sched.kind) sched
    lacksKind (loweredText deps named.kind) named = false := by
  unfold namedSchedule
  dsimp only
  split
  · rw [loweredText_ascii deps (t := "at") (by decide +kernel)]
    rfl
  · rename_i hnamed
    rwa [Bool.not_eq_true] at hnamed

/-- A schedule without a time is settled by the first pass. -/
theorem Timeless.settles {sched : StoredSchedule ω} (htime : Timeless deps sched)
    (createdAtMs updatedAtMs : Field ω) :
    ∃ r, normalizedSchedule deps createdAtMs updatedAtMs sched = .ok r ∧
      ScheduleSettled deps createdAtMs updatedAtMs r.1 ∧ Timeless deps r.1 := by
  let kind := loweredText deps sched.kind
  let named := namedSchedule kind sched
  have hat : normalizeAt deps kind sched = .ok (named, lacksKind kind sched) := by
    rw [normalizeAt, htime]
  obtain ⟨everyMs, anchorMs, hE⟩ := normalizeEvery_frame deps kind createdAtMs updatedAtMs named
  have hevery := everySettled_normalizeEvery deps kind createdAtMs updatedAtMs named
  rw [hE, isKind_namedSchedule deps sched (by decide) (by decide)] at hevery
  let repeated : StoredSchedule ω := { named with everyMs, anchorMs }
  obtain ⟨staggerMs, hS⟩ := normalizeStagger_frame deps kind (normalizedExpr repeated)
    (normalizeExpr repeated).1
  have hstagger := staggerSettled_normalizeStagger deps kind (normalizedExpr repeated)
    (normalizeExpr repeated).1
  have hkind : isKind kind (normalizeExpr repeated).1.kind "cron" =
      isKind (loweredText deps named.kind) named.kind "cron" :=
    isKind_namedSchedule deps sched (by decide) (by decide)
  rw [hS, hkind, ← normalizedExpr_normalizeExpr] at hstagger
  have hexpr := exprSettled_normalizeExpr repeated
  refine ⟨_, by rw [normalizedSchedule, hat]; rfl, ?_, ?_⟩
  · dsimp only
    rw [hE, hS]
    exact ⟨lacksKind_namedSchedule deps sched, hevery, ⟨hexpr.trimmed, hexpr.cron⟩, hstagger⟩
  · dsimp only
    rw [hE, hS]
    exact htime

/-- What `toISOString` writes is a time. -/
theorem not_timeless_iso {sched : StoredSchedule ω} {ms : ℤ} (hms : sched.atMs = none)
    (hat : sched.atText = some (.text (deps.toISOString ms))) : ¬ Timeless deps sched := by
  obtain ⟨cs, hcs, hspace⟩ := deps.iso_shape ms
  have htrim : trimString (deps.toISOString ms) = deps.toISOString ms := by
    have hnone (c : Char) (hc : c ∈ (deps.toISOString ms).toList) : isSpace c = false := by
      rw [hcs] at hc
      rcases mem_append.mp hc with hc | hc
      · exact hspace c hc
      · rw [mem_singleton.mp hc]
        decide
    rw [trimString, trim_of_notSpace hnone, String.ofList_toList]
  have hne : deps.toISOString ms ≠ "" := by
    intro h
    rw [h] at hcs
    simp at hcs
  have hdigits : (deps.toISOString ms).toList.all Char.isDigit = false := by
    rw [hcs, all_append]
    simp
  have hzone : NextRun.normalizeUtcIso (deps.toISOString ms) = deps.toISOString ms := by
    have hends : NextRun.endsInTimeZone (deps.toISOString ms).toList = true := by
      rw [hcs, NextRun.endsInTimeZone, reverse_concat]
      rfl
    rw [NextRun.normalizeUtcIso, if_pos hends]
  obtain ⟨parsed, hparsed⟩ := isSome_iff_exists.mp (deps.dateParse_iso ms)
  have habsolute : NextRun.parseAbsoluteTimeMs deps.toDeps (deps.toISOString ms) = some (parsed : ℚ) := by
    unfold NextRun.parseAbsoluteTimeMs
    simp only [htrim, hne, hdigits, hzone, hparsed, if_false, Bool.false_eq_true, map_some]
  unfold Timeless parsedAtMs
  rw [hms, hat]
  simp [htrim, hne, habsolute]

/-- A schedule with a time has one after the first pass, and counts as changed. -/
theorem timed_normalizedSchedule {sched : StoredSchedule ω} {createdAtMs updatedAtMs : Field ω}
    {r : StoredSchedule ω × Bool × Bool} (htime : ¬ Timeless deps sched)
    (h : normalizedSchedule deps createdAtMs updatedAtMs sched = .ok r) :
    ¬ Timeless deps r.1 ∧ r.2.1 = true := by
  obtain ⟨ms, hms⟩ := ne_none_iff_exists'.mp htime
  obtain ⟨timed, htimed, rfl⟩ := map_ok h
  unfold normalizeAt at htimed
  rw [hms] at htimed
  obtain ⟨iso, hiso, rfl⟩ := map_ok htimed
  obtain ⟨date, rfl⟩ : ∃ date, iso = deps.toISOString date := by
    unfold isoOf at hiso
    split at hiso
    · split at hiso
      · cases hiso
        exact ⟨_, rfl⟩
      · cases hiso
    · cases hiso
  refine ⟨?_, by simp⟩
  obtain ⟨everyMs, anchorMs, hE⟩ := normalizeEvery_frame deps (loweredText deps sched.kind) createdAtMs
    updatedAtMs { namedSchedule (loweredText deps sched.kind) sched with
      atText := some (.text (deps.toISOString date)), atMs := none }
  obtain ⟨staggerMs, hS⟩ := normalizeStagger_frame deps (loweredText deps sched.kind) _ _
  dsimp only at hE hS ⊢
  rw [hE, hS]
  exact not_timeless_iso rfl rfl

end Foxclaw.Cron.Migration
