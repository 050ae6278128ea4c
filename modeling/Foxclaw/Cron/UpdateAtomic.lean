import Foxclaw.Cron.JobPatch
import Foxclaw.Cron.OutcomeSettled

/-!
# Cron: what an update that throws leaves of its job

`update` changes the job in memory field by field, with checks in between that may throw. What was
assigned before the check that throws stays, and is written by the next section that writes the
store.

## What is proved

* `applyEntryPatch_eq` — which check rejects a patch, and the job at that time (`rejection`,
  `entryAt`).
* `applyEntryPatch_core`, `updateEntry_core` — without the fields left out there, this is
  `Cron.applyJobPatch` and `Cron.updateJob`.
* `update_atomic` — the jobs are as they were, when the patch is rejected by a check before which it
  assigns nothing.
-/

namespace Foxclaw.Cron

open Option

/-! ### The check that rejects a patch -/

/-- A result, or what stands in for it. -/
def okOr {α : Type} (x : Except String α) (default : α) : α :=
  match x with
  | .ok a => a
  | .error _ => default

section Rejection

variable (deps : PatchDeps) (patch : CronEntryPatch) (job : CronJobEntry)

/-- The job after the first assignments, and after the next. -/
def withIdentity : CronJobEntry := assignIdentity patch job (okOr (patchedName patch job) job.name)

@[inherit_doc withIdentity]
def withContent : CronJobEntry :=
  assignContent deps patch (withIdentity patch job) (okOr (patchedPayload patch job) job.payload)

/-- The job after the last assignments. -/
def withRest : CronJobEntry := assignRest deps patch (withContent deps patch job)

/-- The job after `assertDeliverySupport`. -/
def withDelivery : CronJobEntry :=
  { withRest deps patch job with
    delivery := okOr (assertDeliverySupport deps (withRest deps patch job))
      (withRest deps patch job).delivery }

/-- The job after `assertFailureDestinationSupport`. -/
def patchedEntry : CronJobEntry :=
  { withDelivery deps patch job with
    delivery := okOr (assertFailureDestinationSupport deps (withDelivery deps patch job))
      (withDelivery deps patch job).delivery }

/-- The job when its next run is computed. -/
def anchoredEntry (now : ℤ) : CronJobEntry := assignAnchor patch (patchedEntry deps patch job) now

/-- The job at a check. -/
def entryAt (now : ℤ) : PatchCheck → CronJobEntry
  | .name => job
  | .payload => withIdentity patch job
  | .mainFailureDestination => withContent deps patch job
  | .jobSpec => withRest deps patch job
  | .mainAgent => withRest deps patch job
  | .delivery => withRest deps patch job
  | .failureDestination => withDelivery deps patch job
  | .schedule => anchoredEntry deps patch job now

/-- A check that throws, or what comes after it. -/
def rejectsOr {α : Type} (check : PatchCheck) (x : Except String α)
    (rest : Option (PatchCheck × String)) : Option (PatchCheck × String) :=
  match x with
  | .error message => some (check, message)
  | .ok _ => rest

/-- A message that is thrown. -/
def thrownIf (message : Option String) : Except String Unit :=
  match message with
  | some message => .error message
  | none => .ok ()

/-- The first check of `applyJobPatch` that throws, with its message. -/
def rejection : Option (PatchCheck × String) :=
  rejectsOr .name (patchedName patch job) <|
  rejectsOr .payload (patchedPayload patch job) <|
  rejectsOr .mainFailureDestination (thrownIf (if unsupportedFailureDestination (withContent deps patch job)
    then some failureDestinationMessage else none)) <|
  rejectsOr .jobSpec (thrownIf (assertSupportedJobSpec (withRest deps patch job))) <|
  rejectsOr .mainAgent (thrownIf (assertMainSessionAgentId deps (withRest deps patch job))) <|
  rejectsOr .delivery (assertDeliverySupport deps (withRest deps patch job)) <|
  rejectsOr .failureDestination (assertFailureDestinationSupport deps (withDelivery deps patch job)) none

/-- The outcome of a procedure: its first throw, or what it makes. -/
def outcomeOf (at' : PatchCheck → CronJobEntry) (done : CronJobEntry)
    (rejection : Option (PatchCheck × String)) : Except Thrown CronJobEntry :=
  match rejection with
  | some (check, message) => .error ⟨check, message, at' check⟩
  | none => .ok done

section Outcome

variable {at' : PatchCheck → CronJobEntry} {done left : CronJobEntry}
  {rest : Option (PatchCheck × String)} {check : PatchCheck}

theorem orThrow_bind {α : Type} {x : Except String α} {f : α → Except Thrown CronJobEntry}
    (hleft : left = at' check) (h : ∀ a, x = .ok a → f a = outcomeOf at' done rest) :
    (orThrow check left x).bind f = outcomeOf at' done (rejectsOr check x rest) := by
  cases x with
  | error message =>
    subst hleft
    rfl
  | ok a => exact h a rfl

theorem throwIf_bind {message : Option String} {f : Unit → Except Thrown CronJobEntry}
    (hleft : left = at' check) (h : f () = outcomeOf at' done rest) :
    (throwIf check left message).bind f = outcomeOf at' done (rejectsOr check (thrownIf message) rest) := by
  cases message with
  | some message =>
    subst hleft
    rfl
  | none => exact h

end Outcome

/-- A patch is applied, or thrown out by the first check that rejects it. -/
theorem applyEntryPatch_eq (now : ℤ) : applyEntryPatch deps patch job =
    outcomeOf (entryAt deps patch job now) (patchedEntry deps patch job) (rejection deps patch job) := by
  refine orThrow_bind rfl fun name hname => ?_
  have hidentity : assignIdentity patch job name = withIdentity patch job := by
    rw [withIdentity, hname]
    rfl
  rw [hidentity]
  refine orThrow_bind rfl fun payload hpayload => ?_
  have hcontent : assignContent deps patch (withIdentity patch job) payload =
      withContent deps patch job := by
    rw [withContent, show patchedPayload patch job = .ok payload from hpayload]
    rfl
  rw [hcontent]
  refine throwIf_bind rfl (throwIf_bind rfl (throwIf_bind rfl ?_))
  refine orThrow_bind rfl fun delivery hdelivery => ?_
  have hwith : { withRest deps patch job with delivery } = withDelivery deps patch job := by
    rw [withDelivery, show assertDeliverySupport deps (withRest deps patch job) = _ from hdelivery]
    rfl
  show (orThrow .failureDestination { withRest deps patch job with delivery }
    (assertFailureDestinationSupport deps { withRest deps patch job with delivery })).bind
      (fun delivery' => .ok { withRest deps patch job with delivery := delivery' }) = _
  have hdone (delivery' : Option CronDelivery) : { withRest deps patch job with delivery := delivery' } =
      { withDelivery deps patch job with delivery := delivery' } := rfl
  rw [hwith]
  refine orThrow_bind rfl fun delivery' hdelivery' => ?_
  rw [hdone, outcomeOf, patchedEntry, hdelivery']
  rfl

/-- `update` computes the next run. -/
def computesNext : Bool :=
  (patchedEntry deps patch job).enabled && (patch.schedule.isSome || patch.enabled.isSome ||
    (patchedEntry deps patch job).state.nextRunAtMs.isNone)

/-- The first check of `update` that throws, with its message. -/
def updateRejection (cron : CronDeps) (now : ℤ) : Option (PatchCheck × String) :=
  (rejection deps patch job).or
    (if computesNext deps patch job then
      rejectsOr .schedule (computeJobNextRunAtMs cron (anchoredEntry deps patch job now).toCronJob now)
        none
    else none)

variable (cron : CronDeps) (now : ℤ)

theorem rescheduleEntry_eq (entry : CronJobEntry) :
    rescheduleEntry entry cron now =
      match computeJobNextRunAtMs cron entry.toCronJob now with
      | .error message => .error ⟨.schedule, message, entry⟩
      | .ok next => .ok { entry with state := { entry.state with nextRunAtMs := next } } := by
  unfold rescheduleEntry
  cases computeJobNextRunAtMs cron entry.toCronJob now with
  | error message => rfl
  | ok next => rfl

theorem updateEntry_eq : updateEntry deps patch job cron now =
    (applyEntryPatch deps patch job).bind fun entry =>
      let entry := assignAnchor patch entry now
      if entry.enabled && (patch.schedule.isSome || patch.enabled.isSome ||
          entry.state.nextRunAtMs.isNone) then rescheduleEntry entry cron now
      else if patch.schedule.isSome || patch.enabled.isSome then
        .ok { entry with state := { entry.state with nextRunAtMs := none, runningAtMs := none } }
      else .ok entry := by
  unfold updateEntry
  congr 1
  funext entry
  cases hgiven : (patch.schedule.isSome || patch.enabled.isSome) with
  | true =>
    cases henabled : (assignAnchor patch entry now).enabled with
    | true => simp [henabled]
    | false =>
      simp [henabled]
      rfl
  | false =>
    simp
    rfl

/-- An update is done, or thrown out by the first check that rejects it. -/
theorem updateEntry_cases :
    (∃ check message, updateRejection deps patch job cron now = some (check, message) ∧
        updateEntry deps patch job cron now =
          .error ⟨check, message, entryAt deps patch job now check⟩) ∨
      (updateRejection deps patch job cron now = none ∧
        ∃ job', updateEntry deps patch job cron now = .ok job') := by
  rw [updateEntry_eq, applyEntryPatch_eq deps patch job now]
  unfold updateRejection
  cases hr : rejection deps patch job with
  | some rejected => exact .inl ⟨rejected.1, rejected.2, rfl, rfl⟩
  | none =>
    have hcomputes : ((assignAnchor patch (patchedEntry deps patch job) now).enabled &&
        (patch.schedule.isSome || patch.enabled.isSome ||
          (assignAnchor patch (patchedEntry deps patch job) now).state.nextRunAtMs.isNone)) =
        computesNext deps patch job := rfl
    simp only [outcomeOf, Except.bind, hcomputes, none_or]
    cases hc : computesNext deps patch job with
    | true =>
      simp only [if_true, rescheduleEntry_eq, rejectsOr]
      cases hnext : computeJobNextRunAtMs cron (anchoredEntry deps patch job now).toCronJob now with
      | error message =>
        refine .inl ⟨.schedule, message, rfl, ?_⟩
        rw [show (assignAnchor patch (patchedEntry deps patch job) now) = anchoredEntry deps patch job now
          from rfl, hnext]
        rfl
      | ok next =>
        refine .inr ⟨rfl, ?_⟩
        rw [show (assignAnchor patch (patchedEntry deps patch job) now) = anchoredEntry deps patch job now
          from rfl, hnext]
        exact ⟨_, rfl⟩
    | false =>
      simp only [Bool.false_eq_true, if_false]
      refine .inr ⟨trivial, ?_⟩
      split
      · exact ⟨_, rfl⟩
      · exact ⟨_, rfl⟩

/-! ### Checks before which nothing is assigned -/

/-- The patch gives no field up to `wakeMode`. -/
def CronEntryPatch.noIdentity : Bool :=
  patch.name.isNone && patch.description.isNone && patch.enabled.isNone && patch.deleteAfterRun.isNone &&
    patch.schedule.isNone && patch.sessionTarget.isNone && patch.wakeMode.isNone

/-- Nor one up to `failureAlert`. -/
def CronEntryPatch.noContent : Bool :=
  patch.noIdentity && patch.payload.isNone && patch.delivery.isNone && patch.failureAlert.isNone

/-- No field at all. -/
def CronEntryPatch.isEmpty : Bool :=
  patch.noContent && patch.state.isNone && patch.agentId.isNone && patch.sessionKey.isNone

/-- The job has no delivery that a job of the main session may not have. -/
def CronJobEntry.keepsDelivery : Bool :=
  job.sessionTarget ≠ .main || toWebhook job.delivery || job.delivery.isNone

/-- By the fields the patch gives, nothing is assigned before the check. -/
def nothingBefore : PatchCheck → Bool
  | .name => true
  | .payload => patch.noIdentity
  | .mainFailureDestination => patch.noContent
  -- the URL of a webhook is assigned trimmed
  | .failureDestination => patch.isEmpty && job.keepsDelivery && !toWebhook job.delivery
  -- the time of the change is assigned
  | .schedule => false
  | _ => patch.isEmpty && job.keepsDelivery

/-- The check throws, of the job as it is. -/
def failsOn : PatchCheck → Bool
  | .name => !(patchedName patch job).isOk
  | .payload => !(patchedPayload patch job).isOk
  | .mainFailureDestination => unsupportedFailureDestination job
  | .jobSpec => (assertSupportedJobSpec job).isSome
  | .mainAgent => (assertMainSessionAgentId deps job).isSome
  | .delivery => !(assertDeliverySupport deps job).isOk
  | .failureDestination => !(assertFailureDestinationSupport deps job).isOk
  | .schedule => false

/-- A check throws before which nothing is assigned. -/
def RejectedFirst : Prop :=
  ∃ check, nothingBefore patch job check = true ∧ failsOn deps patch job check = true

variable {patch job}

theorem withIdentity_of_noIdentity (h : patch.noIdentity = true) : withIdentity patch job = job := by
  simp only [CronEntryPatch.noIdentity, Bool.and_eq_true, isNone_iff_eq_none] at h
  obtain ⟨⟨⟨⟨⟨⟨hname, hdescription⟩, henabled⟩, hdelete⟩, hschedule⟩, htarget⟩, hwake⟩ := h
  simp [withIdentity, assignIdentity, patchedName, okOr, hname, hdescription, henabled, hdelete, hschedule,
    htarget, hwake]

theorem withContent_of_noContent (h : patch.noContent = true) : withContent deps patch job = job := by
  simp only [CronEntryPatch.noContent, Bool.and_eq_true, isNone_iff_eq_none] at h
  obtain ⟨⟨⟨hidentity, hpayload⟩, hdelivery⟩, halert⟩ := h
  simp [withContent, withIdentity_of_noIdentity hidentity, assignContent, patchedPayload, patchedDelivery,
    okOr, hpayload, hdelivery, halert]

theorem withRest_of_isEmpty (h : patch.isEmpty = true) (hk : job.keepsDelivery = true) :
    withRest deps patch job = job := by
  simp only [CronEntryPatch.isEmpty, Bool.and_eq_true, isNone_iff_eq_none] at h
  obtain ⟨⟨⟨hcontent, hstate⟩, hagent⟩, hsession⟩ := h
  have hcleared : clearedDelivery job = job.delivery := by
    unfold clearedDelivery
    split
    · rename_i hmain
      simp only [CronJobEntry.keepsDelivery, hmain.1, hmain.2, ne_eq, not_true_eq_false, decide_false,
        Bool.false_or, isNone_iff_eq_none] at hk
      exact hk.symm
    · rfl
  simp [withRest, withContent_of_noContent deps hcontent, assignRest, hcleared, hstate, hagent, hsession]

/-- Only the URL of a webhook is trimmed. -/
theorem assertDeliverySupport_eq (h : toWebhook job.delivery = false) :
    okOr (assertDeliverySupport deps job) job.delivery = job.delivery := by
  unfold assertDeliverySupport
  cases hd : job.delivery with
  | none => rfl
  | some delivery =>
    rw [hd] at h
    cases hm : delivery.mode with
    | none => simp [hm, okOr]
    | webhook => simp [toWebhook, hm] at h
    | announce =>
      simp only [hm]
      repeat' split
      all_goals rfl

/-- Where nothing was assigned the job is as it was. -/
theorem entryAt_of_nothingBefore {now : ℤ} {check : PatchCheck} (h : nothingBefore patch job check = true) :
    entryAt deps patch job now check = job := by
  cases check with
  | name => rfl
  | payload => exact withIdentity_of_noIdentity h
  | mainFailureDestination => exact withContent_of_noContent deps h
  | failureDestination =>
    simp only [nothingBefore, Bool.and_eq_true, Bool.not_eq_true'] at h
    simp only [entryAt, withDelivery, withRest_of_isEmpty deps h.1.1 h.1.2, assertDeliverySupport_eq deps h.2]
  | schedule => cases h
  | _ =>
    simp only [nothingBefore, Bool.and_eq_true] at h
    exact withRest_of_isEmpty deps h.1 h.2

/-- If a check throws, it is one before which nothing was assigned. -/
def Early (patch : CronEntryPatch) (job : CronJobEntry) (rejection : Option (PatchCheck × String)) : Prop :=
  ∃ check message, rejection = some (check, message) ∧ nothingBefore patch job check = true

theorem early_rejectsOr {α : Type} {check : PatchCheck} {x : Except String α}
    {rest : Option (PatchCheck × String)} (hcheck : nothingBefore patch job check = true)
    (hrest : x.isOk = true → Early patch job rest) : Early patch job (rejectsOr check x rest) := by
  cases x with
  | error message => exact ⟨check, message, rfl, hcheck⟩
  | ok a => exact hrest rfl

theorem isOk_thrownIf (message : Option String) : (thrownIf message).isOk = message.isNone := by
  cases message <;> rfl

/-- If the payload throws, it does so before anything is assigned. -/
theorem early_payload {rest : Option (PatchCheck × String)} (h : patch.noIdentity = true)
    (hrest : (patchedPayload patch job).isOk = true → Early patch job rest) :
    Early patch job (rejectsOr .name (patchedName patch job)
      (rejectsOr .payload (patchedPayload patch job) rest)) :=
  early_rejectsOr rfl fun _ => early_rejectsOr h hrest

/-- So does the check of a failure destination of the main session. -/
theorem early_main {rest : Option (PatchCheck × String)} (h : patch.noContent = true)
    (hrest : unsupportedFailureDestination job = false → Early patch job rest) :
    Early patch job (rejectsOr .name (patchedName patch job)
      (rejectsOr .payload (patchedPayload patch job)
        (rejectsOr .mainFailureDestination (thrownIf (if unsupportedFailureDestination
          (withContent deps patch job) then some failureDestinationMessage else none)) rest))) := by
  have hidentity : patch.noIdentity = true := by
    simp only [CronEntryPatch.noContent, Bool.and_eq_true] at h
    exact h.1.1.1
  refine early_payload hidentity fun _ => early_rejectsOr h fun hok => hrest ?_
  rw [withContent_of_noContent deps h, isOk_thrownIf] at hok
  cases hu : unsupportedFailureDestination job with
  | true => simp [hu] at hok
  | false => rfl

theorem noContent_of_isEmpty (h : (patch.isEmpty && job.keepsDelivery) = true) :
    patch.noContent = true := by
  simp only [CronEntryPatch.isEmpty, Bool.and_eq_true] at h
  exact h.1.1.1.1

/-- The first check that throws is no later than one that throws of the job as it is. -/
theorem RejectedFirst.early (h : RejectedFirst deps patch job) :
    Early patch job (rejection deps patch job) := by
  obtain ⟨check, hbefore, hfails⟩ := h
  have hsame (hnothing : (patch.isEmpty && job.keepsDelivery) = true) : withRest deps patch job = job := by
    rw [Bool.and_eq_true] at hnothing
    exact withRest_of_isEmpty deps hnothing.1 hnothing.2
  unfold rejection
  cases check with
  | name =>
    refine early_rejectsOr rfl fun hok => ?_
    simp [failsOn, hok] at hfails
  | payload =>
    refine early_payload hbefore fun hok => ?_
    simp [failsOn, hok] at hfails
  | mainFailureDestination =>
    refine early_main deps hbefore fun hno => ?_
    simp [failsOn, hno] at hfails
  | schedule => cases hfails
  | jobSpec =>
    refine early_main deps (noContent_of_isEmpty hbefore) fun _ => early_rejectsOr hbefore fun hok => ?_
    rw [hsame hbefore, isOk_thrownIf] at hok
    simp [failsOn, isNone_iff_eq_none.mp hok] at hfails
  | mainAgent =>
    refine early_main deps (noContent_of_isEmpty hbefore) fun _ => early_rejectsOr hbefore fun _ =>
      early_rejectsOr hbefore fun hok => ?_
    rw [hsame hbefore, isOk_thrownIf] at hok
    simp [failsOn, isNone_iff_eq_none.mp hok] at hfails
  | delivery =>
    refine early_main deps (noContent_of_isEmpty hbefore) fun _ => early_rejectsOr hbefore fun _ =>
      early_rejectsOr hbefore fun _ => early_rejectsOr hbefore fun hok => ?_
    rw [hsame hbefore] at hok
    simp [failsOn, hok] at hfails
  | failureDestination =>
    have hboth := hbefore
    simp only [nothingBefore, Bool.and_eq_true, Bool.not_eq_true'] at hboth
    have hrest : (patch.isEmpty && job.keepsDelivery) = true := by simp [hboth.1]
    refine early_main deps (noContent_of_isEmpty hrest) fun _ => early_rejectsOr hrest fun _ =>
      early_rejectsOr hrest fun _ => early_rejectsOr hrest fun _ => early_rejectsOr hbefore fun hok => ?_
    simp only [withDelivery, hsame hrest, assertDeliverySupport_eq deps hboth.2] at hok
    simp [failsOn, hok] at hfails

variable (patch job)

theorem rejection_ne_schedule (message : String) : rejection deps patch job ≠ some (.schedule, message) := by
  have hstep {α : Type} {check : PatchCheck} {x : Except String α}
      {rest : Option (PatchCheck × String)} (hc : check ≠ .schedule)
      (hrest : rest ≠ some (.schedule, message)) : rejectsOr check x rest ≠ some (.schedule, message) := by
    cases x with
    | error e =>
      intro h
      cases h
      exact hc rfl
    | ok a => exact hrest
  exact hstep (by decide) (hstep (by decide) (hstep (by decide) (hstep (by decide) (hstep (by decide)
    (hstep (by decide) (hstep (by decide) nofun))))))

/-! ### The fields that decide when a job runs -/

/-- The section of `Cron.applyJobPatch` a check belongs to. -/
def PatchCheck.failure : PatchCheck → Option PatchFailure
  | .name => some .name
  | .payload => some .payload
  | .mainFailureDestination => some .payload
  | .schedule => none
  | _ => some .assertion

/-- The patch, as `Cron.applyJobPatch` sees it. -/
def CronEntryPatch.toPatch : CronJobPatch where
  enabled := patch.enabled
  deleteAfterRun := patch.deleteAfterRun
  schedule := patch.schedule
  state := patch.state.map Prod.fst
  fails := (rejection deps patch job).bind fun rejected => rejected.1.failure

/-- What is left of a job, as `Cron.applyJobPatch` sees it. -/
def coreOf : Except Thrown CronJobEntry → Except CronJob CronJob
  | .ok job => .ok job.toCronJob
  | .error thrown => .error thrown.left.toCronJob

/-- The fields of `Cron.CronJob` after the first assignments. -/
def coreWithIdentity : CronJob :=
  { job.toCronJob with
    enabled := patch.enabled.getD job.enabled
    deleteAfterRun := patch.deleteAfterRun.or job.deleteAfterRun
    schedule := (patch.schedule.map (patchSchedule job.schedule)).getD job.schedule }

/-- The same after the last ones. -/
def coreWithRest : CronJob :=
  { coreWithIdentity patch job with
    state := ((patch.state.map Prod.fst).map (·.apply job.state)).getD job.state }

theorem withRest_core : (withRest deps patch job).toCronJob = coreWithRest patch job := by
  rw [coreWithRest, Option.map_map]
  rfl

/-- The patch of the fields of `Cron.CronJob`. -/
theorem applyEntryPatch_core (now : ℤ) :
    coreOf (applyEntryPatch deps patch job) =
      applyJobPatch job.toCronJob (CronEntryPatch.toPatch deps patch job) := by
  rw [applyEntryPatch_eq deps patch job now]
  have hne := rejection_ne_schedule deps patch job
  show _ = if (CronEntryPatch.toPatch deps patch job).fails = some .name then Except.error job.toCronJob
    else if (CronEntryPatch.toPatch deps patch job).fails = some .payload then
      Except.error (coreWithIdentity patch job)
    else if (CronEntryPatch.toPatch deps patch job).fails = some .assertion then
      Except.error (coreWithRest patch job)
    else Except.ok (coreWithRest patch job)
  have hfails : (CronEntryPatch.toPatch deps patch job).fails =
    (rejection deps patch job).bind fun rejected => rejected.1.failure := rfl
  rw [hfails]
  cases hr : rejection deps patch job with
  | none => exact congrArg Except.ok (withRest_core deps patch job)
  | some rejected =>
    obtain ⟨check, message⟩ := rejected
    rw [hr] at hne
    cases check with
    | name => rfl
    | payload => rfl
    | mainFailureDestination => rfl
    | schedule => exact absurd rfl (hne message)
    | _ => exact congrArg Except.error (withRest_core deps patch job)

theorem assignAnchor_core (entry : CronJobEntry) (now : ℤ) :
    (assignAnchor patch entry now).toCronJob =
      { anchorSchedule entry.toCronJob (CronEntryPatch.toPatch deps patch job) now with
        updatedAtMs := now } := by
  unfold assignAnchor anchorSchedule
  cases hs : entry.schedule with
  | every everyMs anchorMs =>
    cases anchorMs with
    | none => rfl
    | some anchorMs => rfl
  | atTime instant => rfl
  | cron expr tz staggerMs => rfl

/-- The update of the fields of `Cron.CronJob`. -/
theorem updateEntry_core (cron : CronDeps) (now : ℤ) :
    coreOf (updateEntry deps patch job cron now) =
      updateJob cron job.toCronJob (CronEntryPatch.toPatch deps patch job) now := by
  have hresched (entry : CronJobEntry) : coreOf (rescheduleEntry entry cron now) =
      rescheduleJob cron entry.toCronJob now := by
    rw [rescheduleEntry_eq, rescheduleJob]
    cases computeJobNextRunAtMs cron entry.toCronJob now with
    | error message => rfl
    | ok next => rfl
  rw [updateJob, ← applyEntryPatch_core deps patch job now]
  unfold updateEntry
  cases applyEntryPatch deps patch job with
  | error thrown => rfl
  | ok entry =>
    show coreOf (if (patch.schedule.isSome || patch.enabled.isSome) = true then _ else _) =
      if (patch.schedule.isSome || patch.enabled.isSome) = true then _ else _
    rw [← assignAnchor_core]
    split
    · split
      · exact hresched _
      · rfl
    · split
      · exact hresched _
      · rfl

end Rejection

/-! ### The jobs of a store -/

section Store

variable (deps : PatchDeps) (cron : CronDeps) (jobs : List CronJobEntry) (id : String)
  (patch : CronEntryPatch) (now : ℤ)

/-- `state.store.jobs.find((job) => job.id === id)`. -/
def findEntry : Option CronJobEntry := jobs.find? (·.id == id)

/-- The job that is found, as it was changed in place. -/
def replaceEntry (id : String) (left : CronJobEntry) : List CronJobEntry → List CronJobEntry
  | [] => []
  | job :: jobs => if job.id = id then left :: jobs else job :: replaceEntry id left jobs

/-- What `update` does to the jobs in memory before they are written: the jobs, and the message of
what it throws. -/
def updateInMemory : List CronJobEntry × Option String :=
  match findEntry jobs id with
  | none => (jobs, some ("unknown cron job id: " ++ id))
  | some job =>
    match updateEntry deps patch job cron now with
    | .error thrown => (replaceEntry id thrown.left jobs, some thrown.message)
    | .ok job' => (replaceEntry id job' jobs, none)

/-- An update that throws leaves the jobs as they were. -/
def Atomic : Prop :=
  (updateInMemory deps cron jobs id patch now).2.isSome →
    (updateInMemory deps cron jobs id patch now).1 = jobs

variable {jobs id} in
/-- Only the job that is found was changed. -/
theorem replaceEntry_eq_iff {job left : CronJobEntry} (h : findEntry jobs id = some job) :
    replaceEntry id left jobs = jobs ↔ left = job := by
  induction jobs with
  | nil => cases h
  | cons head jobs ih =>
    unfold findEntry at h ih
    unfold replaceEntry
    by_cases hid : head.id = id
    · rw [List.find?_cons_of_pos (by simp [hid])] at h
      cases h
      simp [hid]
    · rw [List.find?_cons_of_neg (by simp [hid])] at h
      simp [hid, ih h]

/-- **An update that throws leaves the jobs as they were** if the patch is rejected by a check before
which it assigns nothing. -/
theorem update_atomic (h : ∀ job, findEntry jobs id = some job → RejectedFirst deps patch job) :
    Atomic deps cron jobs id patch now := by
  unfold Atomic updateInMemory
  cases hj : findEntry jobs id with
  | none => exact fun _ => rfl
  | some job =>
    dsimp only
    rcases updateEntry_cases deps patch job cron now with ⟨check, message, hr, hthrown⟩ | ⟨-, job', hok⟩
    · obtain ⟨check', message', hfirst, hbefore⟩ := (h job hj).early
      rw [updateRejection, hfirst] at hr
      cases hr
      rw [hthrown]
      exact fun _ => (replaceEntry_eq_iff hj).mpr (entryAt_of_nothingBefore deps hbefore)
    · rw [hok]
      exact fun hthrows => by cases hthrows

end Store

/-- The settings of a patch for `main`. -/
def mainDeps : PatchDeps := ⟨.asciiOnly, fun text => "https://".isPrefixOf text, none⟩

/-- A job that tells an agent something every minute. -/
def nightly : CronJobEntry where
  id := "nightly"
  enabled := true
  deleteAfterRun := none
  createdAtMs := some 0
  updatedAtMs := 0
  schedule := .every 60000 (some 0)
  state := .empty
  agentId := none
  sessionKey := none
  name := "Nightly"
  description := none
  sessionTarget := .isolated
  wakeMode := .now
  payload := .agentTurn ⟨"report", none, none, none, none, none, none, none, none, none, none⟩
  delivery := none
  failureAlert := .unset
  report := ⟨none, none, none, none, none⟩

/-- A patch that gives it a text for the main session. -/
def textPatch : CronEntryPatch :=
  ⟨none, none, none, none, none, none, none, some (.systemEvent (some "report")), none, none, none,
    none, none⟩

/-- A patch of the payload alone. -/
def noTextPatch : CronEntryPatch := { textPatch with payload := some (.systemEvent none) }

/-- It is rejected before the payload is assigned: it has no text. -/
theorem update_atomic_noText :
    (updateInMemory mainDeps noZoneDeps [nightly] "nightly" noTextPatch 1000).2.isSome ∧
      Atomic mainDeps noZoneDeps [nightly] "nightly" noTextPatch 1000 :=
  ⟨by decide +kernel, update_atomic _ _ _ _ _ _ fun job hjob => by
    obtain rfl : nightly = job := some.inj (hjob ▸ rfl)
    exact ⟨.payload, by decide +kernel, by decide +kernel⟩⟩

/-- The patch is rejected, and the job keeps the text. -/
theorem update_not_atomic :
    (updateInMemory mainDeps noZoneDeps [nightly] "nightly" textPatch 1000).2 =
        some "isolated/current/session cron jobs require payload.kind=\"agentTurn\"" ∧
      (updateInMemory mainDeps noZoneDeps [nightly] "nightly" textPatch 1000).1 =
        [{ nightly with payload := .systemEvent "report" }] ∧
      ¬ Atomic mainDeps noZoneDeps [nightly] "nightly" textPatch 1000 := by
  have hthrows : (updateInMemory mainDeps noZoneDeps [nightly] "nightly" textPatch 1000).2 =
      some "isolated/current/session cron jobs require payload.kind=\"agentTurn\"" := by
    decide +kernel
  have hleft : (updateInMemory mainDeps noZoneDeps [nightly] "nightly" textPatch 1000).1 =
      [{ nightly with payload := .systemEvent "report" }] := by
    decide +kernel
  refine ⟨hthrows, hleft, fun h => ?_⟩
  have hsame := h (by rw [hthrows]; rfl)
  rw [hleft] at hsame
  exact absurd hsame (by decide +kernel)

end Foxclaw.Cron
