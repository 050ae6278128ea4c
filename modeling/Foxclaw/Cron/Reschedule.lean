import Foxclaw.Cron.MutualExclusion
import Foxclaw.Cron.OutcomeSettled
import Foxclaw.Cron.StartupCatchup

/-!
# Cron: a new time given to a one-shot job while it runs

`computeJobNextRunAtMs` arms a one-shot job again whose schedule was set to a time after its last
run. An update that comes while the job runs does arm it, but the outcome is applied later, to
the job as it was stored by the update, and a success takes a one-shot job out of service
whatever its time is.

A run is one of a tick, of a manual run, or of the catch-up of a start; the latter is no step of
the system, so the plan that is under way is given (`catchup`).

## What is proved

* `next_found` — the steps between keep the schedule of the job, in memory and in the file.
* `OutOfService.maintained`, `OutOfService.deferJobs` — what follows an outcome does not arm the
  job again.
* `reschedule_lost` — in every run, the new time is lost.
-/

namespace Foxclaw.Cron

open List Option Foxclaw.Runs

/-- The property `p` holds of the job an id finds, if there is one. -/
def Found (id : String) (p : CronJob → Prop) (jobs : List CronJob) : Prop :=
  ∀ job, findJob id jobs = some job → p job

section Lists

variable {deps : CronDeps} {retry : RetryConfig} {j id : String} {p : CronJob → Prop}
  {jobs : List CronJob} {f : CronJob → CronJob}

/-! ### The job an id finds -/

theorem Found.map (h : Found j p jobs) (hf : ∀ job, (f job).id = job.id)
    (hp : ∀ job, p job → p (f job)) : Found j p (jobs.map f) := by
  intro job hjob
  rw [findJob_map hf] at hjob
  obtain ⟨job₀, h₀, rfl⟩ := map_eq_some_iff.mp hjob
  exact hp job₀ (h job₀ h₀)

theorem Found.modify (h : Found j p jobs) (hf : ∀ job, job.id = id → (f job).id = id)
    (hp : id = j → ∀ job, findJob j jobs = some job → p job → p (f job)) :
    Found j p (modifyJob id f jobs) := by
  intro job hjob
  by_cases hid : id = j
  · subst hid
    rw [findJob_modifyJob_self hf] at hjob
    obtain ⟨job₀, h₀, rfl⟩ := map_eq_some_iff.mp hjob
    exact hp rfl job₀ h₀ (h job₀ h₀)
  · rw [findJob_modifyJob_ne hf (Ne.symm hid)] at hjob
    exact h job hjob

theorem findJob_dropJob_self : findJob j (dropJob j jobs) = none := by
  unfold findJob dropJob
  rw [List.find?_eq_none]
  intro job hjob
  have hne := of_mem_filter hjob
  simpa using hne

theorem Found.drop (h : Found j p jobs) : Found j p (dropJob id jobs) := by
  intro job hjob
  by_cases hid : id = j
  · subst hid
    rw [findJob_dropJob_self] at hjob
    cases hjob
  · rw [findJob_dropJob_ne (Ne.symm hid)] at hjob
    exact h job hjob

theorem Found.append (h : Found j p jobs) {job : CronJob} (hid : job.id ≠ j) : Found j p (jobs ++ [job]) := by
  intro job' hjob
  rw [findJob_append] at hjob
  rcases or_eq_some_iff.mp hjob with hold | ⟨-, hnew⟩
  · exact h job' hold
  · rw [← mem_singleton.mp (findJob_mem hnew)] at hid
    exact absurd (findJob_id hnew) hid

/-! ### The schedule of the job -/

/-- The job is a one-shot job. -/
def IsAt (job : CronJob) : Prop := job.schedule.isAt = true

/-- The job is a one-shot job that may not run any more. -/
def OutOfService (job : CronJob) : Prop := job.schedule.isAt = true ∧ job.enabled = false

theorem recomputeJobNextRunAtMs_schedule (job : CronJob) (nowMs : ℤ) :
    (recomputeJobNextRunAtMs deps job nowMs).schedule = job.schedule := by
  unfold recomputeJobNextRunAtMs
  split <;> rfl

theorem walkJob_schedule {fn : CronJob → ℤ → CronJob}
    (hfn : ∀ job nowMs, (fn job nowMs).schedule = job.schedule) (nowMs : ℤ) (job : CronJob) :
    (walkJob fn nowMs job).schedule = job.schedule := by
  have htick : (normalizeJobTickState job nowMs).1.schedule = job.schedule := by
    unfold normalizeJobTickState
    split_ifs <;> rfl
  unfold walkJob
  simp only
  split_ifs
  · exact htick
  · rw [hfn, htick]

theorem recomputeForMaintenance_schedule (recomputeExpired : Bool) (job : CronJob) (nowMs : ℤ) :
    (recomputeForMaintenance deps recomputeExpired job nowMs).schedule = job.schedule := by
  unfold recomputeForMaintenance
  split
  · exact recomputeJobNextRunAtMs_schedule job nowMs
  · split_ifs
    · exact recomputeJobNextRunAtMs_schedule job nowMs
    · rfl

theorem recomputeDueOrMissing_schedule (job : CronJob) (nowMs : ℤ) :
    (recomputeDueOrMissing deps job nowMs).schedule = job.schedule := by
  unfold recomputeDueOrMissing
  split_ifs
  · exact recomputeJobNextRunAtMs_schedule job nowMs
  · rfl

theorem Found.maintained (h : Found j IsAt jobs) (recomputeExpired : Bool) (nowMs : ℤ) :
    Found j IsAt (maintained deps recomputeExpired nowMs jobs) :=
  h.map (walkJob_id (recomputeForMaintenance_id deps recomputeExpired) nowMs) fun job hat => by
    rw [IsAt, walkJob_schedule (recomputeForMaintenance_schedule recomputeExpired)]
    exact hat

theorem Found.recomputed (h : Found j IsAt jobs) (nowMs : ℤ) :
    Found j IsAt (recomputeNextRuns deps nowMs jobs).1 :=
  h.map (walkJob_id (recomputeDueOrMissing_id deps) nowMs) fun job hat => by
    rw [IsAt, walkJob_schedule recomputeDueOrMissing_schedule]
    exact hat

theorem OutOfService.maintained (h : Found j OutOfService jobs) (recomputeExpired : Bool)
    (nowMs : ℤ) : Found j OutOfService (maintained deps recomputeExpired nowMs jobs) := by
  refine h.map (walkJob_id (recomputeForMaintenance_id deps recomputeExpired) nowMs) ?_
  rintro job ⟨hat, hoff⟩
  have hskip : (walkJob (recomputeForMaintenance deps recomputeExpired) nowMs job).enabled =
      job.enabled := by
    unfold walkJob normalizeJobTickState
    simp [hoff]
  exact ⟨(walkJob_schedule (recomputeForMaintenance_schedule recomputeExpired) nowMs job).symm ▸ hat,
    hskip.trans hoff⟩

/-! ### Outcomes -/

variable {job : CronJob} {result : JobResult} {preserveSchedule : Bool}

/-- A one-shot job keeps its schedule, and is not enabled by an outcome. -/
theorem applyJobResult_at (hat : IsAt job) :
    IsAt (applyJobResult deps retry job result preserveSchedule).1 ∧
      (job.enabled = false →
        (applyJobResult deps retry job result preserveSchedule).1.enabled = false) := by
  unfold applyJobResult
  simp only [show job.schedule.isAt = true from hat, Bool.true_and, if_true]
  split_ifs
  · exact ⟨hat, id⟩
  · rcases settleAtJob_cases retry job result with ⟨-, -, next, hn⟩ | ⟨-, hn⟩
    · rw [hn]
      exact ⟨hat, id⟩
    · rw [hn]
      exact ⟨hat, fun _ => rfl⟩

/-- A success takes a one-shot job out of service: it is deleted or disabled. -/
theorem applyJobResult_at_ok (hat : IsAt job) (hok : result.status = .ok)
    (hkept : (applyJobResult deps retry job result preserveSchedule).2 = false) :
    OutOfService (applyJobResult deps retry job result preserveSchedule).1 := by
  refine ⟨(applyJobResult_at hat).1, ?_⟩
  unfold applyJobResult at hkept ⊢
  simp only [show job.schedule.isAt = true from hat, Bool.true_and, if_true] at hkept ⊢
  split_ifs at hkept ⊢
  rcases settleAtJob_cases retry job result with ⟨hs, -⟩ | ⟨-, hn⟩
  · rw [hok] at hs
    cases hs
  · rw [hn]
    rfl

theorem Found.applyOutcome {q : CronJob → Prop} (h : Found j p jobs) (hpq : j ≠ id → ∀ job, p job → q job)
    (hq : j = id → ∀ job, p job → (applyJobResult deps retry job result false).2 = false →
      q (applyJobResult deps retry job result false).1) :
    Found j q (applyOutcomeToStoredJob deps retry jobs (id, result)) := by
  intro job hjob
  by_cases hid : j = id
  · subst hid
    unfold applyOutcomeToStoredJob at hjob
    split at hjob
    · rename_i hnone
      rw [show findJob j jobs = none from hnone] at hjob
      cases hjob
    · rename_i job₀ h₀
      simp only at hjob
      split_ifs at hjob with hd
      · rw [findJob_dropJob_self] at hjob
        cases hjob
      · rw [findJob_modifyJob_self fun _ _ => by rw [applyJobResult_id, findJob_id h₀],
          show findJob j jobs = some job₀ from h₀] at hjob
        cases hjob
        exact hq rfl job₀ (h job₀ h₀) (Bool.eq_false_iff.mpr hd)
  · rw [findJob_applyOutcome_ne deps retry hid] at hjob
    exact hpq hid job (h job hjob)

theorem Found.applyOutcomes (h : Found j IsAt jobs) (outcomes : List (String × JobResult)) :
    Found j IsAt (outcomes.foldl (applyOutcomeToStoredJob deps retry) jobs) := by
  induction outcomes generalizing jobs with
  | nil => exact h
  | cons outcome outcomes ih =>
    exact ih (h.applyOutcome (fun _ _ => id) fun _ job hat _ => (applyJobResult_at hat).1)

theorem OutOfService.applyOutcomes (h : Found j OutOfService jobs) (outcomes : List (String × JobResult)) :
    Found j OutOfService (outcomes.foldl (applyOutcomeToStoredJob deps retry) jobs) := by
  induction outcomes generalizing jobs with
  | nil => exact h
  | cons outcome outcomes ih =>
    refine ih (h.applyOutcome (fun _ _ => id) ?_)
    rintro - job ⟨hat, hoff⟩ -
    exact ⟨(applyJobResult_at hat).1, (applyJobResult_at hat).2 hoff⟩

/-- Among the outcomes is a success of the job. -/
theorem outOfService_applyOutcomes (h : Found j IsAt jobs) {outcomes : List (String × JobResult)}
    (hmem : (j, result) ∈ outcomes) (hok : result.status = .ok) :
    Found j OutOfService (outcomes.foldl (applyOutcomeToStoredJob deps retry) jobs) := by
  induction outcomes generalizing jobs with
  | nil => cases hmem
  | cons outcome outcomes ih =>
    rcases mem_cons.mp hmem with rfl | hmem
    · refine OutOfService.applyOutcomes (h.applyOutcome (fun hne => absurd rfl hne) ?_) outcomes
      exact fun _ job hat hkept => applyJobResult_at_ok hat hok hkept
    · exact ih (h.applyOutcome (fun _ _ => id) fun _ job hat _ => (applyJobResult_at hat).1) hmem

/-- A job that is deferred is not enabled by it. -/
theorem OutOfService.deferJobs (h : Found j OutOfService jobs) (baseNow staggerMs offset : ℤ)
    (ids : List String) : Found j OutOfService (deferJobs baseNow staggerMs offset ids jobs) := by
  induction ids generalizing jobs offset with
  | nil => exact h
  | cons id ids ih =>
    unfold Foxclaw.Cron.deferJobs
    split
    · exact ih h offset
    · refine ih ?_ _
      exact h.modify (fun _ hid => hid) fun _ _ _ hoff => hoff

end Lists

/-! ### The steps between -/

/-- The step gives the job no schedule and makes no job of its id, as `randomUUID` does not. -/
def LeavesSchedule (j : String) : Action → Prop
  | .update _ id patch => id = j → patch.schedule = none
  | .add _ input => input.id ≠ j
  | _ => True

section Steps

variable {deps : CronDeps} {retry : RetryConfig} {j id : String}

variable {patch : CronJobPatch}

/-- A patch of a one-shot job that gives it no schedule of another kind. -/
theorem applyJobPatch_isAt {job job' : CronJob} (hat : IsAt job)
    (hp : ∀ schedule ∈ patch.schedule, schedule.isAt = true)
    (h : applyJobPatch job patch = .error job' ∨ applyJobPatch job patch = .ok job') : IsAt job' := by
  have hpatched : ((patch.schedule.map (patchSchedule job.schedule)).getD job.schedule).isAt = true := by
    cases hs : patch.schedule with
    | none => exact hat
    | some schedule =>
      have hschedule := hp schedule hs
      cases schedule with
      | atTime instant => rfl
      | every everyMs anchorMs => cases hschedule
      | cron expr tz staggerMs => cases hschedule
  unfold applyJobPatch at h
  split_ifs at h <;> simp only [Except.error.injEq, Except.ok.injEq, or_false, false_or] at h <;>
    subst h
  · exact hat
  · exact hpatched
  · exact hpatched
  · exact hpatched

theorem updateJob_isAt {job job' : CronJob} {now : ℤ} (hat : IsAt job)
    (hp : ∀ schedule ∈ patch.schedule, schedule.isAt = true)
    (h : updateJob deps job patch now = .error job' ∨ updateJob deps job patch now = .ok job') :
    IsAt job' := by
  refine updateJob_keeps deps (fun left hj => applyJobPatch_isAt hat hp (.inl hj)) (fun patched hj _ => ?_) h
  have hpatched : IsAt patched := applyJobPatch_isAt hat hp (.inr hj)
  show IsAt (anchorSchedule patched patch now)
  unfold anchorSchedule
  split
  · rename_i everyMs hevery
    rw [IsAt, hevery] at hpatched
    cases hpatched
  · exact hpatched

/-- An update that is written leaves its job in memory and in the file. -/
theorem update_ok {s s' : CronServiceState} {io : Io} (h : update deps io id patch s = .ok s') :
    ∃ job job', findJob id s.view = some job ∧ updateJob deps job patch io.now = .ok job' ∧
      s'.store = some (modifyJob id (fun _ => job') s.view) ∧
      s'.file = modifyJob id (fun _ => job') s.view := by
  obtain ⟨s₁, hl, h⟩ := bind_ok h
  have hjobs := (jobs_of_store (ensureLoaded_store hl)).trans (opened_view s io.load)
  unfold updateInStore at h
  rw [hjobs] at h
  split at h
  · cases h
  · rename_i job hjob
    split at h
    · cases h
    · rename_i job' hjob'
      exact ⟨job, job', hjob, hjob', persist_ok rfl h⟩

variable {s s' : CronSystem}

/-- A step that leaves the schedule of the job alone. -/
theorem next_found {a : Action} (h : OnStores (Found j IsAt) s.service) (ha : LeavesSchedule j a)
    (hs : next deps retry s a = some s') : OnStores (Found j IsAt) s'.service := by
  have hopen : ∀ io, Found j IsAt (s.service.opened deps false false io) := fun io =>
    h.opened fun _ => h.file.recomputed io.now
  have hmark (now : ℤ) {jobs : List CronJob} (hjobs : Found j IsAt jobs) (id : String) :
      Found j IsAt (modifyJob id (markRunning now) jobs) :=
    hjobs.modify (fun _ hid => hid) fun _ _ _ hat => hat
  cases a with
  | read io =>
    cases hs
    exact ensureLoadedForRead_onStores h (h.view.maintained false io.now)
  | add io input =>
    simp only [next] at hs
    split_ifs at hs
    cases hs
    refine add_onStores h (hopen _) fun job hjob => ((hopen _).append ?_).recomputed _
    rw [createJob_id deps hjob]
    exact ha
  | update io id patch =>
    cases hs
    refine update_onStores h fun job hjob job' hjob' => h.view.modify ?_ fun hid job₀ h₀ hat => ?_
    · exact fun _ _ => by rw [updateJob_id deps hjob', findJob_id hjob]
    · subst hid
      rw [hjob] at h₀
      cases h₀
      refine updateJob_isAt hat (fun schedule hschedule => ?_) hjob'
      rw [ha rfl] at hschedule
      cases hschedule
  | remove io id =>
    cases hs
    exact remove_onStores h (hopen _) (hopen _).drop
  | preflight io id forced =>
    cases hs
    exact stepPreflight_leaves (preflight_onStores h (h.view.maintained false io.now))
  | prepare io k =>
    obtain ⟨run, hrun, rfl⟩ := map_eq_some_iff.mp hs
    refine stepPrepare_leaves (prepareManualRun_onStores h fun job hjob _ => ?_)
    exact hmark _ (onStores_jobs h hjob) run.id
  | finish io k status error endedAt =>
    obtain ⟨run, hrun, rfl⟩ := map_eq_some_iff.mp hs
    refine finish_onStores h fun job hjob => ⟨?_, Found.maintained ?_ true io.thenNow⟩
    · unfold finishedJobs
      dsimp only
      split_ifs
      · exact h.view.drop
      · refine h.view.modify (fun _ _ => by rw [applyJobResult_id, findJob_id hjob]) ?_
        rintro rfl job₀ h₀ hat
        rw [hjob] at h₀
        cases h₀
        exact (applyJobResult_at hat).1
    · unfold mergedJobs
      dsimp only
      split_ifs
      · exact h.file.drop
      · exact h.file.modify (fun _ hid => hid) fun _ _ _ hat => hat
  | collect io =>
    simp only [next] at hs
    split_ifs at hs
    cases hs
    refine stepCollect_leaves (collectDueJobs_onStores h (fun _ => h.file.maintained true io.now) ?_)
    refine h.file.map (fun job => ?_) fun job hat => ?_
    · split_ifs <;> rfl
    · split_ifs
      · exact hat
      · exact hat
  | startRun k startedAt =>
    obtain ⟨tick, htick, hs⟩ := bind_eq_some_iff.mp hs
    split at hs
    · cases hs
      exact startDueJob_onStores h fun jobs hjobs =>
        hjobs.modify (fun _ hid => hid) fun _ _ _ hat => hat
    · cases hs
  | endRun k status error endedAt =>
    obtain ⟨tick, htick, hs⟩ := bind_eq_some_iff.mp hs
    split at hs
    · cases hs
      exact h
    · cases hs
  | apply io =>
    obtain ⟨tick, htick, hs⟩ := bind_eq_some_iff.mp hs
    obtain ⟨outcomes, hout, rfl⟩ := map_eq_some_iff.mp hs
    exact applyTickOutcomes_onStores h ((h.file.applyOutcomes outcomes).maintained false io.now)

theorem exec_found {as : List Action} (h : OnStores (Found j IsAt) s.service)
    (has : ∀ a ∈ as, LeavesSchedule j a) (hs : exec (next deps retry) s as = some s') :
    OnStores (Found j IsAt) s'.service := by
  induction as generalizing s with
  | nil =>
    cases hs
    exact h
  | cons a as ih =>
    obtain ⟨s₁, hs₁, hs⟩ := (exec_cons_eq_some _).mp hs
    exact ih (next_found h (has a mem_cons_self) hs₁) (fun b hb => has b (mem_cons_of_mem a hb)) hs

/-! ### The outcome -/

/-- A run of the job is in progress. -/
inductive Executes (s : CronSystem) (catchup : Option StartupCatchupPlan) (id : String)
    (startedAt : ℤ) : Prop
  | tick : ⟨id, .started startedAt⟩ ∈ s.tickRuns → Executes s catchup id startedAt
  | manual {forced : Bool} : ⟨id, forced, startedAt⟩ ∈ s.executing → Executes s catchup id startedAt
  | catchup {plan : StartupCatchupPlan} : catchup = some plan → id ∈ plan.candidates →
      Executes s catchup id startedAt

/-- The outcome ok of a run of the job is applied. -/
inductive AppliesOk (deps : CronDeps) (retry : RetryConfig) (catchup : Option StartupCatchupPlan)
    (id : String) (startedAt : ℤ) (s : CronSystem) : CronSystem → Prop
  /-- In the last section of its tick. -/
  | tick {io : Io} {tick : Tick} {outcomes : List (String × JobResult)} {result : JobResult}
      {service : CronServiceState} : s.tick = some tick → outcomesOf tick.runs = some outcomes →
      (id, result) ∈ outcomes → result.status = .ok → result.startedAt = startedAt →
      applyTickOutcomes deps retry io outcomes s.service = .ok service →
      AppliesOk deps retry catchup id startedAt s { s with service, tick := none }
  /-- In the last section of its manual run. -/
  | manual {io : Io} {k : ℕ} {forced : Bool} {error : Option String} {endedAt : ℤ}
      {service : CronServiceState} : s.executing[k]? = some ⟨id, forced, startedAt⟩ →
      finishPreparedManualRun deps retry io id ⟨.ok, error, startedAt, endedAt⟩ forced s.service =
        .ok service →
      AppliesOk deps retry catchup id startedAt s
        { s with service, executing := s.executing.eraseIdx k }
  /-- In the third section of the start. -/
  | catchup {plan : StartupCatchupPlan} {settings : CatchupSettings} {result : String → JobResult}
      {io : Io} {service : CronServiceState} : catchup = some plan → id ∈ plan.candidates →
      (result id).status = .ok → (result id).startedAt = startedAt →
      applyStartupCatchupOutcomes deps retry settings plan result io s.service = .ok service →
      AppliesOk deps retry catchup id startedAt s { s with service }

/-- A one-shot job runs, is given a later time, and its run ends with success. -/
structure RescheduledRun (deps : CronDeps) (retry : RetryConfig)
    (catchup : Option StartupCatchupPlan) (id : String) (startedAt t : ℤ)
    (s₀ s₁ s₂ s₃ : CronSystem) (as : List Action) : Prop where
  /-- It is a one-shot job -/
  isAt : ∃ job, findJob id s₀.service.view = some job ∧ IsAt job
  /-- and is executing -/
  executes : Executes s₀ catchup id startedAt
  /-- when an update that is written -/
  updated : ∃ io patch, patch.schedule = some (.atTime (some t)) ∧ patch.enabled ≠ some false ∧
    update deps io id patch s₀.service = .ok s₁.service ∧
    next deps retry s₀ (.update io id patch) = some s₁
  /-- gives it a time after the start of the run. -/
  later : startedAt < t
  /-- In the steps that follow, -/
  between : exec (next deps retry) s₁ as = some s₂
  /-- which give it no other schedule, -/
  leaves : ∀ a ∈ as, LeavesSchedule id a
  /-- the run ends. -/
  applied : AppliesOk deps retry catchup id startedAt s₂ s₃

/-- The job waits for the new time. -/
def Kept (id : String) (t : ℤ) (s : CronServiceState) : Prop :=
  ∃ job, findJob id s.jobs = some job ∧ job.enabled = true ∧ job.state.nextRunAtMs = some t

/-- In the last section of its manual run the job is taken out of service. -/
theorem finish_outOfService {s s' : CronServiceState} {io : Io} {result : JobResult} {forced : Bool}
    (h : OnStores (Found j IsAt) s) (hok : result.status = .ok)
    (hs : finishPreparedManualRun deps retry io j result forced s = .ok s') :
    Found j OutOfService s'.jobs := by
  obtain ⟨s₁, hl, hs⟩ := bind_ok hs
  have hjobs := (jobs_of_store (ensureLoaded_store hl)).trans (opened_view s io.load)
  unfold finishInStore at hs
  rw [hjobs] at hs
  split at hs
  · rename_i hnone
    cases hs
    intro job hjob
    rw [hjobs, hnone] at hjob
    cases hjob
  · rename_i job hjob
    obtain ⟨s₂, hl₂, hs⟩ := bind_ok hs
    have hfile : s₁.file = s.file := ensureLoaded_skip_file hl
    have hreload := jobs_of_store (ensureLoaded_store hl₂)
    rw [opened_file, show (CronServiceState.withJobs s₁ _).file = s₁.file from rfl, hfile] at hreload
    rw [jobs_of_store (persist_ok rfl hs).1]
    refine OutOfService.maintained ?_ true io.thenNow
    unfold mergeManualRunSnapshotAfterReload
    cases hd : (applyJobResult deps retry job result forced).2 with
    | true =>
      intro job' hjob'
      rw [if_pos rfl, jobs_withJobs, findJob_dropJob_self] at hjob'
      cases hjob'
    | false =>
      rw [if_neg Bool.false_ne_true, jobs_withJobs, hreload]
      refine fun job' hjob' => ?_
      rw [findJob_modifyJob_self (by exact fun _ hid => hid)] at hjob'
      obtain ⟨job₀, h₀, rfl⟩ := map_eq_some_iff.mp hjob'
      exact ⟨h.file job₀ h₀, (applyJobResult_at_ok (h.view job hjob) hok hd).2⟩

/-- However the run ends with success, the job is taken out of service. -/
theorem AppliesOk.outOfService {catchup : Option StartupCatchupPlan} {startedAt : ℤ}
    (h : OnStores (Found id IsAt) s.service) (happly : AppliesOk deps retry catchup id startedAt s s') :
    Found id OutOfService s'.service.jobs := by
  cases happly with
  | @tick io tick outcomes result service htick hout hmem hok hstart hs =>
    obtain ⟨s₁, hl, hs⟩ := bind_ok hs
    have hjobs := (jobs_of_store (ensureLoaded_store hl)).trans (opened_file s.service io.load)
    show Found id OutOfService service.jobs
    rw [jobs_of_store (persist_ok rfl hs).1, hjobs]
    exact OutOfService.maintained (outOfService_applyOutcomes h.file hmem hok) false io.now
  | manual hrun hs => exact finish_outOfService h rfl hs
  | @catchup plan settings result io service hplan hmem hok hstart hs =>
    obtain ⟨s₁, hl, hs⟩ := bind_ok hs
    have hjobs := (jobs_of_store (ensureLoaded_store hl)).trans (opened_file s.service io.load)
    show Found id OutOfService service.jobs
    rw [jobs_of_store (persist_ok rfl hs).1, hjobs]
    have hmem' : (id, result id) ∈ plan.candidates.map fun id => (id, result id) :=
      List.mem_map_of_mem hmem
    refine OutOfService.maintained (OutOfService.deferJobs ?_ io.now _ _ _) false io.thenNow
    exact outOfService_applyOutcomes h.file hmem' hok

/-- Whatever happens between, the new time is lost. -/
theorem reschedule_lost (deps : CronDeps) (retry : RetryConfig) (catchup : Option StartupCatchupPlan)
    (id : String) (startedAt t : ℤ) (s₀ s₁ s₂ s₃ : CronSystem) (as : List Action)
    (h : RescheduledRun deps retry catchup id startedAt t s₀ s₁ s₂ s₃ as) : ¬ Kept id t s₃.service := by
  have h₁ : OnStores (Found id IsAt) s₁.service := by
    obtain ⟨io, patch, hschedule, -, hup, -⟩ := h.updated
    obtain ⟨job₀, h₀, hat⟩ := h.isAt
    obtain ⟨job, job', hjob, hjob', hstore, hfile⟩ := update_ok hup
    rw [h₀] at hjob
    cases hjob
    have hat' : IsAt job' := updateJob_isAt hat (fun schedule hs => by
      rw [hschedule] at hs
      cases hs
      rfl) (.inr hjob')
    have hfound : Found id IsAt (modifyJob id (fun _ => job') s₀.service.view) := by
      intro job₁ h₁
      rw [findJob_modifyJob_self fun _ _ => (updateJob_id deps (.inr hjob')).trans (findJob_id h₀), h₀] at h₁
      cases h₁
      exact hat'
    exact onStores_of_store hstore hfound (hfile ▸ hfound)
  have h₂ : OnStores (Found id IsAt) s₂.service := exec_found h₁ h.leaves h.between
  rintro ⟨job, hjob, hon, -⟩
  have hoff := (h.applied.outOfService h₂ job hjob).2
  rw [hon] at hoff
  cases hoff

end Steps

/-- A reminder that runs since its time, a second after the start of the clock. -/
def reminder : CronJob where
  id := "reminder"
  enabled := true
  deleteAfterRun := some false
  createdAtMs := some 0
  updatedAtMs := 0
  schedule := .atTime (some 1000)
  state := { CronJobState.empty with nextRunAtMs := some 1000, runningAtMs := some 1000 }

/-- The service with one job, and a tick that runs it. -/
def systemWith (job : CronJob) (phase : TickPhase) : CronSystem :=
  ⟨⟨some [job], [job], 1⟩, some ⟨1, [⟨"reminder", phase⟩]⟩, [], []⟩

/-- The reminder with a new time. -/
def movedReminder : CronJob :=
  { reminder with
    updatedAtMs := 1500
    schedule := .atTime (some 5000)
    state := { reminder.state with nextRunAtMs := some 5000 } }

/-- The reminder after its run. -/
def doneReminder : CronJob :=
  { movedReminder with
    enabled := false
    updatedAtMs := 2000
    state := { CronJobState.empty with
      lastRunAtMs := some 1000, lastRunStatus := some .ok, lastStatus := some .ok
      lastDurationMs := some 1000, consecutiveErrors := some 0 } }

/-- The service when the tick is over. -/
def afterReminder : CronSystem := ⟨⟨some [doneReminder], [doneReminder], 2⟩, none, [], []⟩

/-- While the reminder runs, it is given a new time; then its run ends. -/
theorem rescheduledRun_reminder : RescheduledRun noCron defaultRetry none "reminder" 1000 5000
    (systemWith reminder (.started 1000)) (systemWith movedReminder (.started 1000))
    (systemWith movedReminder (.ended ⟨.ok, none, 1000, 2000⟩)) afterReminder
    [.endRun 0 .ok none 2000] where
  isAt := ⟨reminder, rfl, rfl⟩
  executes := .tick mem_cons_self
  updated := ⟨ioAt 1500, ⟨none, none, some (.atTime (some 5000)), none, none⟩, rfl, nofun, rfl, rfl⟩
  later := by decide
  between := rfl
  leaves := by
    intro a ha
    rw [mem_singleton.mp ha]
    trivial
  applied := .tick rfl rfl mem_cons_self rfl rfl
    (show applyTickOutcomes noCron defaultRetry (ioAt 2000) _ _ = _ from rfl)

/-- The reminder is disabled. -/
theorem reschedule_lost_reminder : ¬ Kept "reminder" 5000 afterReminder.service :=
  reschedule_lost _ _ _ _ _ _ _ _ _ _ _ rescheduledRun_reminder

/-- A new time is not always kept. -/
theorem not_reschedule_kept : ¬ ∀ (deps : CronDeps) (retry : RetryConfig)
    (catchup : Option StartupCatchupPlan) (id : String) (startedAt t : ℤ)
    (s₀ s₁ s₂ s₃ : CronSystem) (as : List Action),
    RescheduledRun deps retry catchup id startedAt t s₀ s₁ s₂ s₃ as → Kept id t s₃.service := by
  intro h
  obtain ⟨job, hjob, hon, -⟩ := h _ _ _ _ _ _ _ _ _ _ _ rescheduledRun_reminder
  have hdone : findJob "reminder" afterReminder.service.jobs = some doneReminder := rfl
  rw [hdone] at hjob
  cases hjob
  cases hon

end Foxclaw.Cron
