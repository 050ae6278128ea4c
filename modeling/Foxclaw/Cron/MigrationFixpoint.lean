import Foxclaw.Cron.MigrationSections

/-!
# One pass of the migration of stored cron jobs

A store that was migrated is to be left alone when it is loaded again: `normalizeStoredCronJobs` is to
change nothing in what it made, and say so. Each section leaves its property settled, and no later
section unsettles it, with two exceptions: a time is written again on every pass and counts as a
change each time, and a name that is made of a cron expression may end in white space, which the
next pass trims.

## What is proved

* `jobSettled_of_ok` — what a pass leaves is settled.
* `normalizeStoredCronJob_of_settled` — a pass over a settled job without a time only trims its name.
* `onePass_iff` — the second pass changes nothing just if no schedule has a time and no name is made
  that ends in white space.
-/

namespace Foxclaw.Cron.Migration

open List Option Foxclaw.Text Foxclaw.Routing

variable {ω : Type} {deps : MigrationDeps}

/-! ### Names -/

theorem toList_trimString (s : String) : (trimString s).toList = trim s.toList := String.toList_ofList

theorem trimString_eq_self_iff {s : String} :
    trimString s = s ↔ trimStart s.toList = s.toList ∧ trimEnd s.toList = s.toList := by
  rw [← trim_eq_self_iff, ← toList_trimString, String.toList_inj]

variable {cs : List Char}

/-- A cut text starts as the whole one does. -/
theorem trimStart_takeUnits (h : trimStart cs = cs) {n : ℕ} (hn : 2 ≤ n) :
    trimStart (takeUnits n cs) = takeUnits n cs := by
  cases cs with
  | nil => rfl
  | cons c cs =>
    have hunits : (if c.toNat < 0x10000 then 1 else 2) ≤ n := by
      split
      · omega
      · omega
    rw [takeUnits, if_pos hunits]
    exact trimStart_cons_eq_self_iff.mpr (trimStart_cons_eq_self_iff.mp h)

/-- A text that was cut has no space at its ends. -/
theorem trimString_cut (h : trimStart cs = cs) {n : ℕ} (hn : 2 ≤ n) :
    trimString (String.ofList (trimEnd (takeUnits n cs) ++ ['…'])) =
      String.ofList (trimEnd (takeUnits n cs) ++ ['…']) := by
  have hstart := trimStart_takeUnits h hn
  have hcut : trimEnd (takeUnits n cs) = trim (takeUnits n cs) := by rw [trim, hstart]
  rw [trimString_eq_self_iff, String.toList_ofList]
  refine ⟨trimStart_append_of_trimmed ?_ rfl, trimEnd_append_of_trimmed rfl (cons_ne_nil _ _)⟩
  rw [hcut, trimStart_trim]

theorem trimString_truncateText {s : String} (h : trimString s = s) {maxLen : ℕ} (hmax : 3 ≤ maxLen) :
    trimString (truncateText s maxLen) = truncateText s maxLen := by
  unfold truncateText
  split
  · exact h
  · exact trimString_cut (trimString_eq_self_iff.mp h).1 (by omega)

/-- An expression that is short enough not to be cut, and is empty or ends in white space. -/
def EndsInSpace (expr : String) : Prop :=
  utf16Length expr ≤ 52 ∧ ∀ c, expr.toList.getLast? = some c → isSpace c = true

/-- A text between others is trimmed when its ends are. -/
theorem trimString_append {c : Char} {s t : String} (hs : s.toList = c :: cs) (hc : isSpace c = false)
    (ht : trimEnd t.toList = t.toList) (hne : t.toList ≠ []) : trimString (s ++ t) = s ++ t := by
  rw [trimString_eq_self_iff, String.toList_append]
  refine ⟨?_, trimEnd_append_of_trimmed ht hne⟩
  rw [hs]
  exact trimStart_cons_eq_self_iff.mpr hc

/-- The name of an expression is trimmed, unless it is not cut and ends in white space. -/
theorem trimString_cronName (expr : String) :
    trimString ("Cron: " ++ truncateText expr 52) = "Cron: " ++ truncateText expr 52 ↔
      ¬ EndsInSpace expr := by
  unfold truncateText
  split
  · rename_i hlength
    constructor
    · rintro htrim ⟨-, hspace⟩
      have hend := trimEnd_eq_self_iff.mp (trimString_eq_self_iff.mp htrim).2
      rw [String.toList_append, getLast?_append] at hend
      cases hexpr : expr.toList.getLast? with
      | none =>
        rw [hexpr] at hend
        exact absurd (hend ' ' rfl) (by decide)
      | some c =>
        rw [hexpr] at hend
        exact absurd (hspace c hexpr) (by simp [hend c rfl])
    · intro hends
      have hlast : ∃ c, expr.toList.getLast? = some c ∧ isSpace c = false := by
        by_contra hnone
        refine hends ⟨hlength, fun c hc => ?_⟩
        by_contra hspace
        exact hnone ⟨c, hc, by rwa [Bool.not_eq_true] at hspace⟩
      obtain ⟨c, hc, hspace⟩ := hlast
      refine trimString_append (c := 'C') rfl rfl (trimEnd_eq_self_iff.mpr fun d hd => ?_) ?_
      · rw [hc, some.injEq] at hd
        rwa [← hd]
      · intro hnil
        rw [hnil] at hc
        cases hc
  · rename_i hlength
    refine iff_of_true ?_ fun h => hlength h.1
    refine trimString_append (c := 'C') rfl rfl ?_ ?_
    · rw [String.toList_ofList]
      exact trimEnd_append_of_trimmed rfl (cons_ne_nil _ _)
    · rw [String.toList_ofList]
      simp

variable (schedule : Option (Value ω (StoredSchedule ω)))

theorem trimString_scheduleName : trimString (scheduleName deps schedule) = scheduleName deps schedule := by
  unfold scheduleName
  split
  · split
    · exact trimString_append (c := 'E') (t := "ms") (by rw [String.toList_append]; rfl) rfl rfl (by decide)
    · split
      · decide +kernel
      · decide +kernel
  · decide +kernel

theorem trim_firstLineOf (text : String) : trim (firstLineOf text) = firstLineOf text := by
  unfold firstLineOf
  cases h : ((Lines.splitLines '\n' text.toList).map trim).find? (· ≠ []) with
  | none => rfl
  | some line =>
    obtain ⟨whole, -, rfl⟩ := List.mem_map.mp (mem_of_find?_eq_some h)
    exact trim_trim whole

variable (payload : Option (Value ω (StoredPayload ω)))

/-- A name is made of a cron expression that ends in white space. -/
def NamedInSpace : Prop :=
  firstLineOf (payloadText payload) = [] ∧ ∃ expr, cronExprOf schedule = some expr ∧ EndsInSpace expr

/-- That is the only name made that is not trimmed. -/
theorem trimString_inferLegacyName :
    trimString (inferLegacyName deps schedule payload) = inferLegacyName deps schedule payload ↔
      ¬ NamedInSpace schedule payload := by
  unfold inferLegacyName NamedInSpace
  dsimp only
  split
  · rename_i hline
    refine iff_of_true (trimString_truncateText ?_ (by decide)) fun h => hline h.1
    rw [trimString, String.toList_ofList, trim_firstLineOf]
  · rename_i hline
    rw [not_not] at hline
    split
    · rename_i expr hexpr
      rw [trimString_cronName, hexpr]
      simp [hline]
    · rename_i hexpr
      rw [hexpr]
      exact iff_of_true (trimString_scheduleName schedule) (by simp)

theorem trimString_inferLegacyName_ne : trimString (inferLegacyName deps schedule payload) ≠ "" := by
  have hmem {s : String} {c : Char} (hs : c ∈ s.toList) (hc : isSpace c = false) :
      trimString s ≠ "" := by
    intro hblank
    have hlist := congrArg String.toList hblank
    rw [toList_trimString] at hlist
    rw [trim_eq_nil_iff.mp hlist c hs] at hc
    cases hc
  unfold inferLegacyName
  dsimp only
  split
  · rename_i hline
    unfold truncateText
    split
    · intro hblank
      have hlist := congrArg String.toList hblank
      rw [toList_trimString, String.toList_ofList, trim_firstLineOf] at hlist
      exact hline hlist
    · exact hmem (c := '…') (by simp) rfl
  · split
    · exact hmem (c := 'C') (by simp) rfl
    · unfold scheduleName
      split
      · split
        · exact hmem (c := 'E') (by simp) rfl
        · split
          · decide +kernel
          · decide +kernel
      · decide +kernel

/-! ### What a pass leaves -/

section Passes

variable [EmptyCollection ω]

/-- A change to the object a property holds. -/
def mapRecord {α : Type} (f : α → α) (value : Option (Value ω α)) : Option (Value ω α) :=
  match recordOf value with
  | some o => some (.object (f o))
  | none => value

omit [EmptyCollection ω] in
theorem recordOf_mapRecord {α : Type} (f : α → α) (value : Option (Value ω α)) :
    recordOf (mapRecord f value) = (recordOf value).map f := by
  unfold mapRecord
  cases h : recordOf value with
  | none => exact h
  | some o => rfl

omit [EmptyCollection ω] in
theorem raw_normalizePayload (p : Progress ω) : (normalizePayload deps p).raw =
    { p.raw with
      payload := mapRecord (fun payload => (normalizedPayload deps p.raw.legacy payload).1)
        p.raw.payload } := by
  unfold normalizePayload mapRecord
  cases recordOf p.raw.payload with
  | none => rfl
  | some payload => exact raw_track _ _ _

omit [EmptyCollection ω] in
theorem raw_migratePayload (p : Progress ω) : (migratePayload deps p).raw =
    { p.raw with
      payload := mapRecord (fun payload => (migrateLegacyCronPayload deps payload).1) p.raw.payload } := by
  unfold migratePayload mapRecord
  cases recordOf p.raw.payload with
  | none => rfl
  | some payload => exact raw_track _ _ _

omit [EmptyCollection ω] in
theorem raw_normalizeDelivery (p : Progress ω) : (normalizeDelivery deps p).raw =
    { p.raw with
      delivery := mapRecord (fun delivery => (normalizeDeliveryMode deps delivery).1)
        p.raw.delivery } := by
  unfold normalizeDelivery mapRecord
  cases recordOf p.raw.delivery with
  | none => rfl
  | some delivery => exact raw_track _ _ _

variable (deps) in
/-- The name after a pass. -/
def nameOf (raw : StoredJob ω) : String :=
  if trimmedText raw.name = "" then inferLegacyName deps (readSchedule raw.schedule) raw.payload
  else trimmedText raw.name

omit [EmptyCollection ω] in
theorem raw_normalizeName (p : Progress ω) : (normalizeName deps p).raw =
    { p.raw with
      name := some (.text (if trimmedText p.raw.name = "" then
        inferLegacyName deps p.raw.schedule p.raw.payload else trimmedText p.raw.name)) } := by
  unfold normalizeName
  dsimp only
  split
  · rfl
  · rfl

variable (deps) in
/-- The payload after the first sections. -/
def payloadAfter (raw : StoredJob ω) : Option (Value ω (StoredPayload ω)) :=
  mapRecord (fun payload => (migrateLegacyCronPayload deps payload).1)
    (mapRecord (fun payload => (normalizedPayload deps raw.legacy payload).1)
      (inferredPayload raw.legacy raw.payload).1)

/-- The job after the sections before the schedule. -/
theorem raw_migrateFields (p : Progress ω) : (migrateFields deps p).raw =
    { p.raw with
      state := (normalizedState p.raw.state).1
      id := (normalizedId p.raw.id p.raw.jobId).1
      jobId := none
      schedule := readSchedule p.raw.schedule
      name := some (.text (nameOf deps p.raw))
      description := (normalizedText p.raw.description).1
      sessionKey := (normalizedText p.raw.sessionKey).1
      enabled := (normalizedEnabled p.raw.enabled).1
      wakeMode := (normalizedWakeMode deps p.raw.wakeMode).1
      payload := payloadAfter deps p.raw
      legacy := strippedFields } := by
  simp only [migrateFields, raw_migratePayload, dropLegacyFields, raw_track, raw_update,
    raw_normalizePayload, inferPayload, normalizeWakeMode, normalizeEnabled, normalizeSessionKey,
    normalizeDescription, raw_normalizeName, normalizeScheduleText, normalizeId, normalizeState]
  rfl

/-- The properties that the sections before the schedule settle. -/
structure FieldsSettled (deps : MigrationDeps) (raw : StoredJob ω) : Prop where
  state : normalizedState raw.state = (raw.state, false)
  id : normalizedId raw.id none = (raw.id, false)
  jobId : raw.jobId = none
  scheduleText : textOf raw.schedule = none
  name : ∃ s, raw.name = some (.text s) ∧ trimString s ≠ ""
  description : normalizedText raw.description = (raw.description, false)
  sessionKey : normalizedText raw.sessionKey = (raw.sessionKey, false)
  /-- Whether it may run. -/
  enabled : normalizedEnabled raw.enabled = (raw.enabled, false)
  wakeMode : normalizedWakeMode deps raw.wakeMode = (raw.wakeMode, false)
  /-- The kind of the payload, which has no provider. -/
  payload : ∀ payload, recordOf raw.payload = some payload →
    KindSettled deps payload.kind payload.message payload.text ∧ payload.provider = none
  /-- There are no legacy properties. -/
  legacy : raw.legacy = strippedFields

/-- The properties that all sections settle. -/
structure JobSettled (deps : MigrationDeps) (raw : StoredJob ω) : Prop extends FieldsSettled deps raw where
  /-- The schedule, if it has no time. -/
  schedule : ∀ sched, recordOf raw.schedule = some sched → Timeless deps sched →
    ScheduleSettled deps raw.createdAtMs raw.updatedAtMs sched
  /-- The payload has nothing to say of the delivery. -/
  hints : hintingPayload raw.payload = none
  delivery : ∀ delivery, recordOf raw.delivery = some delivery → ModeSettled deps delivery.mode
  /-- There is no `isolation` left to drop. -/
  isolation : normalizedIsolation raw.isolation = (raw.isolation, false)
  sessionTarget : normalizedSessionTarget deps (payloadKindOf raw.payload) raw.sessionTarget =
    (raw.sessionTarget, false)
  /-- An isolated turn of an agent has a delivery. -/
  delivered : isIsolatedAgentTurn deps (payloadKindOf raw.payload) raw.sessionTarget = true →
    (recordOf raw.delivery).isSome = true

theorem trimString_nameOf_ne (raw : StoredJob ω) : trimString (nameOf deps raw) ≠ "" := by
  unfold nameOf
  split
  · exact trimString_inferLegacyName_ne _ _
  · rename_i hname
    rwa [trimString_trimmedText]

theorem fieldsSettled_migrateFields (p : Progress ω) : FieldsSettled deps (migrateFields deps p).raw := by
  rw [raw_migrateFields]
  refine ⟨settles_normalizedState _, normalizedId_settles _ _, rfl, textOf_readSchedule _,
    ⟨nameOf deps p.raw, rfl, trimString_nameOf_ne p.raw⟩, settles_normalizedText _,
    settles_normalizedText _, settles_normalizedEnabled _, settles_normalizedWakeMode deps _,
    fun payload hpayload => ?_, rfl⟩
  unfold payloadAfter at hpayload
  dsimp only at hpayload
  rw [recordOf_mapRecord, recordOf_mapRecord, Option.map_map, map_eq_some_iff] at hpayload
  obtain ⟨before, -, rfl⟩ := hpayload
  exact payload_migrated deps p.raw.legacy before

omit [EmptyCollection ω] in
/-- The section of the schedule: what it makes of it. -/
theorem normalizeSchedule_spec {p q : Progress ω} (h : normalizeSchedule deps p = .ok q) :
    ∃ schedule, q.raw = { p.raw with schedule } ∧
      (∀ sched, recordOf schedule = some sched → Timeless deps sched →
        ScheduleSettled deps p.raw.createdAtMs p.raw.updatedAtMs sched) ∧
      (textOf p.raw.schedule = none → textOf schedule = none) ∧
      ((∀ sched, recordOf schedule = some sched → Timeless deps sched) ↔
        ∀ sched, recordOf p.raw.schedule = some sched → Timeless deps sched) := by
  unfold normalizeSchedule at h
  cases hsched : recordOf p.raw.schedule with
  | none =>
    rw [hsched] at h
    cases h
    refine ⟨p.raw.schedule, rfl, fun sched hs => ?_, id, by rw [hsched]⟩
    rw [hsched] at hs
    cases hs
  | some sched =>
    rw [hsched] at h
    obtain ⟨r, hr, rfl⟩ := map_ok h
    refine ⟨some (.object r.1), raw_track _ _ _, ?_, fun _ => rfl, ?_⟩
    · intro sched' hs htime
      cases hs
      by_cases hbefore : Timeless deps sched
      · obtain ⟨r', hr', hsettled, -⟩ := hbefore.settles p.raw.createdAtMs p.raw.updatedAtMs
        rw [hr] at hr'
        cases hr'
        exact hsettled
      · exact absurd htime (timed_normalizedSchedule hbefore hr).1
    · have hiff : Timeless deps r.1 ↔ Timeless deps sched := by
        by_cases hbefore : Timeless deps sched
        · obtain ⟨r', hr', -, hafter⟩ := hbefore.settles p.raw.createdAtMs p.raw.updatedAtMs
          rw [hr] at hr'
          cases hr'
          exact iff_of_true hafter hbefore
        · exact iff_of_false (timed_normalizedSchedule hbefore hr).1 hbefore
      constructor
      · intro h sched' hs
        cases hs
        exact hiff.mp (h r.1 rfl)
      · intro h sched' hs
        cases hs
        exact hiff.mpr (h sched rfl)

omit [EmptyCollection ω] in
theorem payloadKindOf_strip (payload : StoredPayload ω) :
    payloadKindOf (some (.object (stripLegacyDeliveryFields payload))) =
      payloadKindOf (some (.object payload)) := rfl

omit [EmptyCollection ω] in
theorem hintingPayload_eq_some {value : Option (Value ω (StoredPayload ω))} {payload : StoredPayload ω}
    (h : hintingPayload value = some payload) : value = some (.object payload) :=
  recordOf_eq_some.mp (filter_eq_some_iff.mp h).1

/-- The last section: the payload has nothing more to say of the delivery, an isolated turn of an
agent has one, and its mode is settled if it was. -/
theorem moveLegacyDelivery_spec (p : Progress ω)
    (hmode : ∀ delivery, recordOf p.raw.delivery = some delivery → ModeSettled deps delivery.mode) :
    ∃ payload delivery, (moveLegacyDelivery deps p).raw = { p.raw with payload, delivery } ∧
      (payload = p.raw.payload ∨ ∃ before, p.raw.payload = some (.object before) ∧
        payload = some (.object (stripLegacyDeliveryFields before))) ∧
      hintingPayload payload = none ∧
      (∀ d, recordOf delivery = some d → ModeSettled deps d.mode) ∧
      (isIsolatedAgentTurn deps (payloadKindOf p.raw.payload) p.raw.sessionTarget = true →
        (recordOf delivery).isSome = true) := by
  unfold moveLegacyDelivery
  cases hhints : hintingPayload p.raw.payload with
  | some payload =>
    refine ⟨_, _, rfl, .inr ⟨payload, hintingPayload_eq_some hhints, rfl⟩, rfl, ?_, fun _ => rfl⟩
    intro d hd
    cases hd
    exact modeSettled_deliveryWithLegacy payload.toLegacyFields hmode
  | none =>
    dsimp only
    split
    · refine ⟨_, _, rfl, .inl rfl, hhints, ?_, fun _ => rfl⟩
      intro d hd
      cases hd
      exact modeSettled_announce
    · rename_i hkeep
      refine ⟨_, _, rfl, .inl rfl, hhints, hmode, fun hturn => ?_⟩
      rw [hturn, Bool.true_and] at hkeep
      cases hdelivery : recordOf p.raw.delivery with
      | none =>
        rw [hdelivery] at hkeep
        exact absurd rfl hkeep
      | some d => rfl

variable {p : Progress ω} {raw : StoredJob ω}

/-- What a pass leaves is settled. -/
theorem jobSettled_of_ok (h : normalizeStoredCronJob deps raw = .ok p) : JobSettled deps p.raw := by
  obtain ⟨q, hq, rfl⟩ := map_ok h
  have hfields : FieldsSettled deps (migrateFields deps (.start raw)).raw :=
    fieldsSettled_migrateFields (.start raw)
  obtain ⟨schedule, hschedule, hsettled, htext, -⟩ := normalizeSchedule_spec hq
  let t := normalizeSessionTarget deps (dropIsolation (normalizeDelivery deps q))
  have ht : t.raw = { q.raw with
      delivery := mapRecord (fun delivery => (normalizeDeliveryMode deps delivery).1) q.raw.delivery
      isolation := (normalizedIsolation q.raw.isolation).1
      sessionTarget := (normalizedSessionTarget deps (payloadKindOf q.raw.payload)
        q.raw.sessionTarget).1 } := by
    simp only [t, normalizeSessionTarget, dropIsolation, raw_update, raw_normalizeDelivery]
  have hmode (delivery : StoredDelivery ω) (hd : recordOf t.raw.delivery = some delivery) :
      ModeSettled deps delivery.mode := by
    rw [ht, recordOf_mapRecord] at hd
    obtain ⟨before, -, rfl⟩ := map_eq_some_iff.mp hd
    exact modeSettled_normalizeDeliveryMode deps before
  obtain ⟨payload, delivery, hmoved, hpayload, hhints, hdelivery, hdelivered⟩ :=
    moveLegacyDelivery_spec t hmode
  have hkind : payloadKindOf payload = payloadKindOf q.raw.payload := by
    rcases hpayload with rfl | ⟨before, hbefore, rfl⟩
    · rw [ht]
    · rw [ht] at hbefore
      rw [payloadKindOf_strip, ← hbefore]
  have hsame : q.raw.payload = (migrateFields deps (.start raw)).raw.payload := by rw [hschedule]
  have hkinds (after : StoredPayload ω) (ha : recordOf payload = some after) :
      KindSettled deps after.kind after.message after.text ∧ after.provider = none := by
    rcases hpayload with rfl | ⟨before, hbefore, rfl⟩
    · rw [ht] at ha
      exact hfields.payload after (hsame ▸ ha)
    · cases ha
      rw [ht] at hbefore
      have hb : recordOf (migrateFields deps (.start raw)).raw.payload = some before := by
        rw [← hsame]
        exact recordOf_eq_some.mpr hbefore
      exact ⟨(hfields.payload before hb).1, rfl⟩
  show JobSettled deps (moveLegacyDelivery deps t).raw
  rw [ht] at hmoved hdelivered
  rw [hmoved]
  rw [← hkind] at hdelivered ⊢
  rw [hschedule] at hdelivered ⊢
  exact
    { state := hfields.state
      id := hfields.id
      jobId := hfields.jobId
      scheduleText := htext hfields.scheduleText
      name := hfields.name
      description := hfields.description
      sessionKey := hfields.sessionKey
      enabled := hfields.enabled
      wakeMode := hfields.wakeMode
      payload := hkinds
      legacy := hfields.legacy
      schedule := hsettled
      hints := hhints
      delivery := hdelivery
      isolation := settles_normalizedIsolation _
      sessionTarget := settles_normalizedSessionTarget deps _ _
      delivered := hdelivered }

/-! ### A pass over a settled job -/

/-- The sections from the description on leave a settled job alone. -/
theorem migrateFields_tail (h : FieldsSettled deps p.raw) (hhints : hintingPayload p.raw.payload = none) :
    migratePayload deps (dropLegacyFields (normalizePayload deps (inferPayload (normalizeWakeMode deps
      (normalizeEnabled (normalizeSessionKey (normalizeDescription p))))))) = p := by
  have hdescription : normalizeDescription p = p := by
    rw [normalizeDescription, h.description]
    exact update_self p
  have hsessionKey : normalizeSessionKey p = p := by
    rw [normalizeSessionKey, h.sessionKey]
    exact update_self p
  have henabled : normalizeEnabled p = p := by
    rw [normalizeEnabled, h.enabled]
    exact update_self p
  have hwakeMode : normalizeWakeMode deps p = p := by
    rw [normalizeWakeMode, h.wakeMode]
    exact update_self p
  have hinfer : inferPayload p = p := by
    have hkeep : inferredPayload p.raw.legacy p.raw.payload = (p.raw.payload, false) := by
      have hnone : inferPayloadIfMissing (strippedFields : TopLevelFields ω) = none := rfl
      unfold inferredPayload
      rw [h.legacy, hnone]
      cases recordOf p.raw.payload with
      | none => rfl
      | some payload => rfl
    rw [inferPayload, hkeep]
    exact update_self p
  have hsettled (payload : StoredPayload ω) (hp : recordOf p.raw.payload = some payload) :
      PayloadSettled deps payload := by
    obtain ⟨hkind, hprovider⟩ := h.payload payload hp
    refine ⟨hkind, hprovider, ?_⟩
    rw [hintingPayload, hp, filter_some] at hhints
    by_contra hhas
    rw [Bool.not_eq_false] at hhas
    rw [if_pos hhas] at hhints
    cases hhints
  have hpayload : normalizePayload deps p = p := by
    unfold normalizePayload
    cases hp : recordOf p.raw.payload with
    | none => rfl
    | some payload =>
      have hsame : normalizedPayload deps p.raw.legacy payload = (payload, false, false) := by
        rw [h.legacy, normalizedPayload_of_settled (hsettled payload hp)]
      dsimp only
      rw [hsame, ← recordOf_eq_some.mp hp]
      exact update_self p
  have hdrop : dropLegacyFields p = p := by
    have hofPayload : hasLegacyTopLevelPayloadFields p.raw.legacy = false := by
      rw [h.legacy]
      rfl
    have hofDelivery : hasLegacyTopLevelDeliveryFields p.raw.legacy = false := by
      rw [h.legacy]
      rfl
    rw [dropLegacyFields, hofPayload, hofDelivery, ← h.legacy]
    exact update_self p
  have hmigrate : migratePayload deps p = p := by
    unfold migratePayload
    cases hp : recordOf p.raw.payload with
    | none => rfl
    | some payload =>
      dsimp only
      rw [migrateLegacyCronPayload_of_settled (hsettled payload hp), ← recordOf_eq_some.mp hp]
      exact update_self p
  rw [hdescription, hsessionKey, henabled, hwakeMode, hinfer, hpayload, hdrop, hmigrate]

variable {s : String}

/-- The sections before the schedule only trim the name of a settled job. -/
theorem migrateFields_of_settled (h : FieldsSettled deps p.raw)
    (hhints : hintingPayload p.raw.payload = none) (hs : p.raw.name = some (.text s)) :
    migrateFields deps p = p.update { p.raw with name := some (.text (trimString s)) } false := by
  have hstate : normalizeState p = p := by
    rw [normalizeState, h.state]
    exact update_self p
  have hid : normalizeId p = p := by
    have hkeep : normalizedId p.raw.id p.raw.jobId = (p.raw.id, false) := by
      rw [h.jobId]
      exact h.id
    have hnone : p.raw.jobId.isSome = false := by
      rw [h.jobId]
      rfl
    rw [normalizeId, hkeep, hnone, ← h.jobId]
    exact update_self p
  have hschedule : normalizeScheduleText p = p := by
    rw [normalizeScheduleText, h.scheduleText, readSchedule_of_textOf h.scheduleText]
    exact update_self p
  have hne : trimString s ≠ "" := by
    obtain ⟨s', hs', hne⟩ := h.name
    rw [hs] at hs'
    cases hs'
    exact hne
  have hname : normalizeName deps p =
      p.update { p.raw with name := some (.text (trimString s)) } false := by
    unfold normalizeName
    dsimp only
    rw [hs, trimmedText_text, if_neg hne]
  unfold migrateFields
  rw [hstate, hid, hschedule, hname]
  refine migrateFields_tail ?_ hhints
  exact { h with name := ⟨trimString s, rfl, by rwa [trimString_trimString]⟩ }

/-- The sections after the schedule leave a settled job alone. -/
theorem migrateDelivery_of_settled (h : JobSettled deps p.raw) : migrateDelivery deps p = p := by
  have hdelivery : normalizeDelivery deps p = p := by
    unfold normalizeDelivery
    cases hd : recordOf p.raw.delivery with
    | none => rfl
    | some delivery =>
      dsimp only
      rw [normalizeDeliveryMode_of_settled (h.delivery delivery hd), ← recordOf_eq_some.mp hd]
      exact update_self p
  have hisolation : dropIsolation p = p := by
    rw [dropIsolation, h.isolation]
    exact update_self p
  have htarget : normalizeSessionTarget deps p = p := by
    rw [normalizeSessionTarget, h.sessionTarget]
    exact update_self p
  have hmove : moveLegacyDelivery deps p = p := by
    unfold moveLegacyDelivery
    rw [h.hints]
    dsimp only
    split
    · rename_i hturn
      simp only [Bool.and_eq_true, isNone_iff_eq_none] at hturn
      have hsome := h.delivered hturn.1
      rw [hturn.2] at hsome
      cases hsome
    · rfl
  rw [migrateDelivery, hdelivery, hisolation, htarget, hmove]

/-- The sections after the schedule do not forget a change. -/
theorem mutated_migrateDelivery (h : p.mutated = true) : (migrateDelivery deps p).mutated = true := by
  have hdelivery (p : Progress ω) (h : p.mutated = true) : (normalizeDelivery deps p).mutated = true := by
    unfold normalizeDelivery
    split
    · rw [mutated_track, mutated_update, h, Bool.true_or]
    · exact h
  have hmove (p : Progress ω) (h : p.mutated = true) : (moveLegacyDelivery deps p).mutated = true := by
    unfold moveLegacyDelivery
    split
    · rw [mutated_update, h, Bool.true_or]
    · split
      · rw [mutated_update, h, Bool.true_or]
      · exact h
  refine hmove _ ?_
  rw [normalizeSessionTarget, mutated_update, dropIsolation, mutated_update, hdelivery p h,
    Bool.true_or, Bool.true_or]

/-- The schedule of a job has no time. -/
def JobTimeless (deps : MigrationDeps) (raw : StoredJob ω) : Prop :=
  ∀ sched, recordOf raw.schedule = some sched → Timeless deps sched

theorem normalizeSchedule_of_settled (h : JobSettled deps p.raw)
    (htime : JobTimeless deps p.raw) : normalizeSchedule deps p = .ok p := by
  unfold normalizeSchedule
  cases hs : recordOf p.raw.schedule with
  | none => rfl
  | some sched =>
    dsimp only
    rw [normalizedSchedule_of_settled (h.schedule sched hs (htime sched hs)) (htime sched hs)]
    refine congrArg Except.ok ?_
    dsimp only
    rw [track_false, ← recordOf_eq_some.mp hs]
    exact update_self p

omit [EmptyCollection ω] in
/-- The section of the schedule counts a time as a change. -/
theorem mutated_normalizeSchedule {p q : Progress ω} (htime : ¬ JobTimeless deps p.raw)
    (h : normalizeSchedule deps p = .ok q) : q.mutated = true := by
  obtain ⟨sched, hnot⟩ := Classical.not_forall.mp htime
  obtain ⟨hs, hsched⟩ := Classical.not_imp.mp hnot
  unfold normalizeSchedule at h
  rw [hs] at h
  obtain ⟨r, hr, rfl⟩ := map_ok h
  rw [mutated_track, mutated_update, (timed_normalizedSchedule hsched hr).2, Bool.or_true]

theorem migrateFields_start (h : JobSettled deps raw)
    (hs : raw.name = some (.text s)) : migrateFields deps (.start raw) =
      .start { raw with name := some (.text (trimString s)) } :=
  migrateFields_of_settled h.toFieldsSettled h.hints hs

/-- A pass over a settled job without a time only trims its name. -/
theorem normalizeStoredCronJob_of_settled (h : JobSettled deps raw)
    (htime : JobTimeless deps raw) (hs : raw.name = some (.text s)) :
    normalizeStoredCronJob deps raw =
      .ok (.start { raw with name := some (.text (trimString s)) }) := by
  have hne : trimString s ≠ "" := by
    obtain ⟨s', hs', hne⟩ := h.name
    rw [hs] at hs'
    cases hs'
    exact hne
  have hnamed : JobSettled deps { raw with name := some (.text (trimString s)) } :=
    { h with name := ⟨trimString s, rfl, by rwa [trimString_trimString]⟩ }
  have hschedule : normalizeSchedule deps (.start { raw with name := some (.text (trimString s)) }) =
      .ok (.start { raw with name := some (.text (trimString s)) }) :=
    normalizeSchedule_of_settled hnamed htime
  rw [normalizeStoredCronJob, migrateFields_start h hs, hschedule]
  exact congrArg Except.ok (migrateDelivery_of_settled hnamed)

/-- A pass over a settled job with a time counts as a change. -/
theorem mutated_of_settled (h : JobSettled deps raw) (htime : ¬ JobTimeless deps raw)
    (hp : normalizeStoredCronJob deps raw = .ok p) : p.mutated = true := by
  obtain ⟨s, hs, -⟩ := h.name
  obtain ⟨q, hq, rfl⟩ := map_ok hp
  rw [migrateFields_start h hs] at hq
  exact mutated_migrateDelivery (mutated_normalizeSchedule htime hq)

/-! ### Two passes -/

/-- The job is migrated, and a second pass changes nothing. -/
def OnePassJob (deps : MigrationDeps) (raw : StoredJob ω) : Prop :=
  ∃ p, normalizeStoredCronJob deps raw = .ok p ∧
    ∃ q, normalizeStoredCronJob deps p.raw = .ok q ∧ q.raw = p.raw ∧ q.mutated = false

/-- A job without a name that is called by an expression which is empty or ends in white space. -/
def JobNamedInSpace (raw : StoredJob ω) : Prop :=
  trimmedText raw.name = "" ∧ NamedInSpace (readSchedule raw.schedule) raw.payload

variable (deps) in
/-- The sections after the schedule change four properties. -/
theorem migrateDelivery_frame (p : Progress ω) : ∃ payload delivery isolation sessionTarget,
    (migrateDelivery deps p).raw = { p.raw with payload, delivery, isolation, sessionTarget } := by
  let t := normalizeSessionTarget deps (dropIsolation (normalizeDelivery deps p))
  have ht : t.raw = { p.raw with
      delivery := t.raw.delivery, isolation := t.raw.isolation, sessionTarget := t.raw.sessionTarget } := by
    simp only [t, normalizeSessionTarget, dropIsolation, raw_update, raw_normalizeDelivery]
  have hmove : ∃ payload delivery, (moveLegacyDelivery deps t).raw = { t.raw with payload, delivery } := by
    unfold moveLegacyDelivery
    split
    · exact ⟨_, _, rfl⟩
    · split
      · exact ⟨_, _, rfl⟩
      · exact ⟨_, _, rfl⟩
  obtain ⟨payload, delivery, hmove⟩ := hmove
  refine ⟨payload, delivery, t.raw.isolation, t.raw.sessionTarget, ?_⟩
  show (moveLegacyDelivery deps t).raw = _
  rw [hmove, ht]

/-- A schedule that is a text has no time, nor has the expression. -/
theorem timeless_readSchedule (schedule : Option (Value ω (StoredSchedule ω))) :
    (∀ sched, recordOf (readSchedule schedule) = some sched → Timeless deps sched) ↔
      ∀ sched, recordOf schedule = some sched → Timeless deps sched := by
  unfold readSchedule
  split
  · refine iff_of_true (fun sched hs => ?_) fun sched hs => by cases hs
    cases hs
    rfl
  · exact Iff.rfl

/-- A pass names the job, and keeps whether it has a time. -/
theorem name_of_ok (h : normalizeStoredCronJob deps raw = .ok p) :
    p.raw.name = some (.text (nameOf deps raw)) ∧ (JobTimeless deps p.raw ↔ JobTimeless deps raw) := by
  obtain ⟨q, hq, rfl⟩ := map_ok h
  obtain ⟨schedule, hschedule, -, -, htime⟩ := normalizeSchedule_spec hq
  obtain ⟨payload, delivery, isolation, sessionTarget, hframe⟩ := migrateDelivery_frame deps q
  rw [raw_migrateFields] at htime hschedule
  rw [hframe, hschedule]
  exact ⟨rfl, htime.trans (timeless_readSchedule raw.schedule)⟩

variable (deps) in
theorem trimString_nameOf (raw : StoredJob ω) :
    trimString (nameOf deps raw) = nameOf deps raw ↔ ¬ JobNamedInSpace raw := by
  unfold nameOf JobNamedInSpace
  split
  · rename_i hname
    rw [trimString_inferLegacyName]
    simp [hname]
  · rename_i hname
    rw [trimString_trimmedText]
    simp [hname]

/-- A job without a time is migrated. -/
theorem ok_of_timeless (h : JobTimeless deps raw) : ∃ p, normalizeStoredCronJob deps raw = .ok p := by
  let p := migrateFields deps (.start raw)
  have htime : ∀ sched, recordOf p.raw.schedule = some sched → Timeless deps sched := by
    rw [raw_migrateFields]
    exact (timeless_readSchedule raw.schedule).mpr h
  have hq : ∃ q, normalizeSchedule deps p = .ok q := by
    unfold normalizeSchedule
    cases hs : recordOf p.raw.schedule with
    | none => exact ⟨p, rfl⟩
    | some sched =>
      obtain ⟨r, hr, -⟩ := (htime sched hs).settles p.raw.createdAtMs p.raw.updatedAtMs
      dsimp only
      rw [hr]
      exact ⟨_, rfl⟩
  obtain ⟨q, hq⟩ := hq
  exact ⟨migrateDelivery deps q, by rw [normalizeStoredCronJob, hq]; rfl⟩

theorem onePassJob_iff (raw : StoredJob ω) :
    OnePassJob deps raw ↔ JobTimeless deps raw ∧ ¬ JobNamedInSpace raw := by
  constructor
  · rintro ⟨p, hp, q, hq, hraw, hmutated⟩
    have hsettled := jobSettled_of_ok hp
    obtain ⟨hname, htime⟩ := name_of_ok hp
    have htimeless : JobTimeless deps p.raw := by
      by_contra htimed
      rw [mutated_of_settled hsettled htimed hq] at hmutated
      cases hmutated
    refine ⟨htime.mp htimeless, (trimString_nameOf deps raw).mp ?_⟩
    rw [normalizeStoredCronJob_of_settled hsettled htimeless hname] at hq
    cases hq
    have hsame := congrArg StoredJob.name hraw
    rw [hname] at hsame
    exact Value.text.inj (some.inj hsame)
  · rintro ⟨htime, hspace⟩
    obtain ⟨p, hp⟩ := ok_of_timeless htime
    obtain ⟨hname, htimeless⟩ := name_of_ok hp
    refine ⟨p, hp, _, normalizeStoredCronJob_of_settled (jobSettled_of_ok hp) (htimeless.mpr htime) hname,
      ?_, rfl⟩
    rw [(trimString_nameOf deps raw).mpr hspace, ← hname]
    rfl

/-- The jobs are migrated, and a second pass changes nothing and says so. -/
def OnePass (deps : MigrationDeps) (jobs : List (StoredJob ω)) : Prop :=
  ∃ r, normalizeStoredCronJobs deps jobs = .ok r ∧
    ∃ r', normalizeStoredCronJobs deps r.jobs = .ok r' ∧ r'.jobs = r.jobs ∧ r'.mutated = false

/-- All jobs are migrated one by one. -/
theorem mapM_ok_iff {α β : Type} {f : α → Except String β} {as : List α} {bs : List β} :
    as.mapM f = .ok bs ↔ List.Forall₂ (fun a b => f a = .ok b) as bs := by
  induction as generalizing bs with
  | nil =>
    rw [mapM_nil]
    constructor
    · intro h
      cases h
      exact .nil
    · intro h
      cases h
      rfl
  | cons a as ih =>
    rw [mapM_cons]
    constructor
    · intro h
      obtain ⟨b, hb, hrest⟩ := bind_ok h
      obtain ⟨bs', hbs', hpure⟩ := bind_ok hrest
      cases hpure
      exact .cons hb (ih.mp hbs')
    · intro h
      cases h with
      | cons hb hbs =>
        rw [hb, ih.mpr hbs]
        rfl

/-- What two passes over the jobs did they did over each. -/
theorem onePassJob_of_passes {jobs : List (StoredJob ω)} {ps qs : List (Progress ω)}
    (hps : List.Forall₂ (fun raw p => normalizeStoredCronJob deps raw = .ok p) jobs ps)
    (hqs : List.Forall₂ (fun raw q => normalizeStoredCronJob deps raw = .ok q) (ps.map (·.raw)) qs)
    (hjobs : qs.map (·.raw) = ps.map (·.raw)) (hmutated : qs.any (·.mutated) = false) :
    ∀ raw ∈ jobs, OnePassJob deps raw := by
  induction hps generalizing qs with
  | nil =>
    intro raw hraw
    cases hraw
  | @cons job p jobs ps hp hps ih =>
    cases hqs with
    | @cons _ q _ qs hq hqs =>
      rw [map_cons, map_cons, List.cons.injEq] at hjobs
      rw [any_cons, Bool.or_eq_false_iff] at hmutated
      intro raw hraw
      cases hraw with
      | head => exact ⟨p, hp, q, hq, hjobs.1, hmutated.1⟩
      | tail _ hraw => exact ih hqs hjobs.2 hmutated.2 raw hraw

/-- Two passes over each of the jobs are two passes over all of them. -/
theorem passes_of_onePassJob {jobs : List (StoredJob ω)} (h : ∀ raw ∈ jobs, OnePassJob deps raw) :
    ∃ ps qs, List.Forall₂ (fun raw p => normalizeStoredCronJob deps raw = .ok p) jobs ps ∧
      List.Forall₂ (fun raw q => normalizeStoredCronJob deps raw = .ok q) (ps.map (·.raw)) qs ∧
      qs.map (·.raw) = ps.map (·.raw) ∧ qs.any (·.mutated) = false := by
  induction jobs with
  | nil => exact ⟨[], [], .nil, .nil, rfl, rfl⟩
  | cons job jobs ih =>
    obtain ⟨p, hp, q, hq, hraw, hmutated⟩ := h job mem_cons_self
    obtain ⟨ps, qs, hps, hqs, hraws, hnone⟩ := ih fun raw hmem => h raw (mem_cons_of_mem _ hmem)
    refine ⟨p :: ps, q :: qs, .cons hp hps, .cons hq hqs, ?_, ?_⟩
    · rw [map_cons, map_cons, hraw, hraws]
    · rw [any_cons, hmutated, hnone]
      rfl

/-- The second pass over the jobs is one over each. -/
theorem onePass_iff_forall (jobs : List (StoredJob ω)) :
    OnePass deps jobs ↔ ∀ raw ∈ jobs, OnePassJob deps raw := by
  constructor
  · rintro ⟨r, hr, r', hr', hjobs, hmutated⟩
    obtain ⟨ps, hps, rfl⟩ := map_ok hr
    obtain ⟨qs, hqs, rfl⟩ := map_ok hr'
    exact onePassJob_of_passes (mapM_ok_iff.mp hps) (mapM_ok_iff.mp hqs) hjobs hmutated
  · intro h
    obtain ⟨ps, qs, hps, hqs, hjobs, hmutated⟩ := passes_of_onePassJob h
    refine ⟨_, congrArg _ (mapM_ok_iff.mpr hps), _, congrArg _ (mapM_ok_iff.mpr hqs), hjobs, ?_⟩
    exact hmutated

/-- **A second pass changes nothing just if no schedule has a time, and no job without a name is
called by an expression that is empty or ends in white space.** -/
theorem onePass_iff (jobs : List (StoredJob ω)) :
    OnePass deps jobs ↔ ∀ raw ∈ jobs, JobTimeless deps raw ∧ ¬ JobNamedInSpace raw := by
  rw [onePass_iff_forall]
  exact forall₂_congr fun raw _ => onePassJob_iff raw

/-- A host that knows one date. -/
def oneDate : MigrationDeps where
  number _ := .nan
  dateParse s := if s = "2026-01-01T00:00:00.000Z" then some 1767225600000 else none
  timeZone := "UTC"
  newCron _ _ := .error "no expression"
  cases := .asciiOnly
  ascii_append s t _ := by
    show s.toList.map Char.toLower <+: (String.ofList ((s ++ t).toList.map Char.toLower)).toList
    rw [String.toList_ofList, String.toList_append, map_append]
    exact prefix_append _ _
  toISOString _ := "2026-01-01T00:00:00.000Z"
  iso_shape _ := ⟨"2026-01-01T00:00:00.000".toList, rfl, forall_mem_of_all (by decide +kernel)⟩
  dateParse_iso _ := rfl
  numberText _ := ""

/-- No legacy property. -/
def noLegacy : LegacyFields (List Unit) :=
  ⟨none, none, none, none, none, none, none, none, none, none, none⟩

/-- A job for one time, as the service writes it. -/
def reminder : StoredJob (List Unit) where
  id := some (.text "reminder")
  jobId := none
  state := some (.object [])
  schedule := some (.object
    { kind := some (.text "at"), atText := some (.text "2026-01-01T00:00:00.000Z"), atMs := none
      everyMs := none, anchorMs := none, expr := none, cron := none, staggerMs := none, rest := [] })
  name := some (.text "Reminder")
  description := none
  sessionKey := none
  enabled := some (.bool true)
  wakeMode := some (.text "now")
  payload := some (.object
    { noLegacy with kind := some (.text "systemEvent"), text := some (.text "Tea"), rest := [] })
  legacy := { noLegacy with command := none, timeout := none }
  delivery := none
  isolation := none
  sessionTarget := some (.text "main")
  createdAtMs := none
  updatedAtMs := none
  rest := []

/-- The job for one time is left as it is, and counts as changed on every pass. -/
theorem reminder_rewritten :
    (∃ r, normalizeStoredCronJobs oneDate [reminder] = .ok r ∧ r.jobs = [reminder] ∧ r.mutated = true) ∧
      ¬ OnePass oneDate [reminder] := by
  have hrun : (normalizeStoredCronJobs oneDate [reminder]).map (fun r => (r.jobs, r.mutated)) =
      .ok ([reminder], true) := by decide +kernel
  obtain ⟨r, hr, hsame⟩ := map_ok hrun
  obtain ⟨hjobs, hmutated⟩ := Prod.mk.inj hsame
  refine ⟨⟨r, hr, hjobs, hmutated⟩, ?_⟩
  rintro ⟨p, hp, q, hq, -, hsame⟩
  rw [hr] at hp
  cases hp
  rw [hjobs, hr] at hq
  cases hq
  rw [hmutated] at hsame
  cases hsame

end Passes

end Foxclaw.Cron.Migration
