import Foxclaw.Cron.DueSlots
import Mathlib.Data.List.Sort
import Mathlib.Tactic.Ring

/-!
# Cron: the catch-up when the service starts

This module models `start` of `cron/service/ops.ts` with `runMissedJobs` of
`cron/service/timer.ts`: jobs that were missed while the service was down run at once, up to
a limit, and the others are spread over the time after.

## The model

`start` has four locked sections. The first clears the markers of runs that were interrupted,
the second plans the catch-up (`catchupPlan`), the third applies the outcomes of the jobs that
ran and gives the deferred ones their times, and the last recomputes all jobs. What the clock
shows in each section and what became of each job that ran is given (`StartIo`). Nothing else
touches the stores between the sections.

## What is proved

* `findJob_afterPlan`, `findJob_afterApply` — a job that the catch-up does not run goes
  through the first three sections with its slot, or the time the plan gave it
  (`pendingSlot`).
* `pendingSlot_of_missed` — a job that was missed has such a slot, or is run.
* `start_keeps_missed_iff` — just when a job is run, or is run for its slot by a later tick.
* `start_advances_slot` — a job that becomes due while the catch-up runs another is not run,
  and its slot is replaced by a later one.
-/

namespace Foxclaw.Cron

open List Option

/-- The settings of the catch-up. -/
structure CatchupSettings where
  /-- How many missed jobs run at once. -/
  maxMissedJobsPerRestart : Option ℤ
  missedJobStaggerMs : Option ℤ

def DEFAULT_MAX_MISSED_JOBS_PER_RESTART : ℤ := 5

def DEFAULT_MISSED_JOB_STAGGER_MS : ℤ := 5000

def CatchupSettings.maxImmediate (settings : CatchupSettings) : ℕ :=
  (max 0 (settings.maxMissedJobsPerRestart.getD DEFAULT_MAX_MISSED_JOBS_PER_RESTART)).toNat

def CatchupSettings.staggerMs (settings : CatchupSettings) : ℤ :=
  max 0 (settings.missedJobStaggerMs.getD DEFAULT_MISSED_JOB_STAGGER_MS)

/-- `StartupCatchupPlan`: the ids of the jobs to run, and of those to defer. -/
structure StartupCatchupPlan where
  candidates : List String
  deferredJobIds : List String

/-- What happens in the sections of `start`, and to the jobs that run between them. -/
structure StartIo where
  clear : Io
  plan : Io
  /-- What became of each job that ran. -/
  result : String → JobResult
  /-- The outcomes; the clock is read for the deferred jobs, and again for the recompute. -/
  apply : Io
  final : Io

section Start

variable (deps : CronDeps) (retry : RetryConfig) (settings : CatchupSettings)

/-! ### The sections -/

/-- A job without its marker. -/
def clearMarker (job : CronJob) : CronJob :=
  { job with state := { job.state with runningAtMs := none } }

/-- The jobs whose runs were interrupted. -/
def interruptedIds (jobs : List CronJob) : List String :=
  (jobs.filter (·.state.runningAtMs.isSome)).map CronJob.id

/-- The first section of `start`: the ids of the jobs that were interrupted. -/
def clearInterrupted (io : Io) (s : CronServiceState) :
    Except CronServiceState (CronServiceState × List String) :=
  (ensureLoaded deps false true io.load s).bind fun s =>
    (persist io.persistFails (s.withJobs (s.jobs.map clearMarker))).map
      (·, interruptedIds s.jobs)

/-- The order in which missed jobs are taken. -/
def sortByNext (jobs : List CronJob) : List CronJob :=
  jobs.insertionSort fun a b => a.state.nextRunAtMs.getD 0 ≤ b.state.nextRunAtMs.getD 0

variable (skipJobIds : List String)

/-- The options with which missed jobs are looked for. -/
def CollectOpts.startup : CollectOpts := ⟨skipJobIds, true, true⟩

/-- The jobs that were missed. -/
def missedJobs (nowMs : ℤ) (jobs : List CronJob) : List CronJob :=
  sortByNext (collectRunnableJobs deps (.startup skipJobIds) nowMs jobs)

/-- The plan that `planStartupCatchup` makes. -/
def catchupPlan (nowMs : ℤ) (jobs : List CronJob) : StartupCatchupPlan :=
  let ids := (missedJobs deps skipJobIds nowMs jobs).map CronJob.id
  ⟨ids.take settings.maxImmediate, ids.drop settings.maxImmediate⟩

/-- The jobs of the plan are marked as running. -/
def markCandidates (plan : StartupCatchupPlan) (nowMs : ℤ) (jobs : List CronJob) : List CronJob :=
  jobs.map fun job => if plan.candidates.contains job.id then markRunning nowMs job else job

def planStartupCatchup (io : Io) (s : CronServiceState) :
    Except CronServiceState (CronServiceState × StartupCatchupPlan) :=
  (ensureLoaded deps false true io.load s).bind fun s =>
    if collectRunnableJobs deps (.startup skipJobIds) io.now s.jobs = [] then .ok (s, ⟨[], []⟩)
    else
      let plan := catchupPlan deps settings skipJobIds io.now s.jobs
      (persist io.persistFails (s.withJobs (markCandidates plan io.now s.jobs))).map (·, plan)

/-- The times of the deferred jobs. -/
def deferJobs (baseNow staggerMs : ℤ) : ℤ → List String → List CronJob → List CronJob
  | _, [], jobs => jobs
  | offset, id :: ids, jobs =>
    match (findJob id jobs).filter (·.enabled) with
    | none => deferJobs baseNow staggerMs offset ids jobs
    | some _ =>
      deferJobs baseNow staggerMs (offset + staggerMs) ids
        (modifyJob id (setNext · (some (baseNow + offset))) jobs)

/-- The jobs in memory after `applyStartupCatchupOutcomes`. -/
def catchupApplied (plan : StartupCatchupPlan) (result : String → JobResult) (io : Io)
    (jobs : List CronJob) : List CronJob :=
  let applied := (plan.candidates.map fun id => (id, result id)).foldl
    (applyOutcomeToStoredJob deps retry) jobs
  maintained deps false io.thenNow
    (deferJobs io.now settings.staggerMs settings.staggerMs plan.deferredJobIds applied)

def applyStartupCatchupOutcomes (plan : StartupCatchupPlan) (result : String → JobResult)
    (io : Io) (s : CronServiceState) : Outcome :=
  (ensureLoaded deps true true io.load s).bind fun s =>
    persist io.persistFails (s.withJobs (catchupApplied deps retry settings plan result io s.jobs))

def runMissedJobs (io : StartIo) (s : CronServiceState) : Outcome :=
  (planStartupCatchup deps settings skipJobIds io.plan s).bind fun (s, plan) =>
    if plan.candidates = [] ∧ plan.deferredJobIds = [] then .ok s
    else applyStartupCatchupOutcomes deps retry settings plan io.result io.apply s

/-- The last section of `start`. -/
def finishStart (io : Io) (s : CronServiceState) : Outcome :=
  (ensureLoaded deps true true io.load s).bind fun s =>
    persist io.persistFails (recomputedState deps io.now s)

/-- `start`, with the scheduler enabled. -/
def start (io : StartIo) (s : CronServiceState) : Outcome :=
  (clearInterrupted deps io.clear s).bind fun (s, interrupted) =>
    (runMissedJobs deps retry settings interrupted io s).bind (finishStart deps io.final)

/-! ### The stores in a start that returns -/

/-- The jobs after the first section. -/
def afterClear (s : CronServiceState) : List CronJob := s.view.map clearMarker

/-- The plan of a start. -/
def planOf (io : StartIo) (s : CronServiceState) : StartupCatchupPlan :=
  catchupPlan deps settings (interruptedIds s.view) io.plan.now (afterClear s)

/-- The jobs after the planning. -/
def afterPlan (io : StartIo) (s : CronServiceState) : List CronJob :=
  markCandidates (planOf deps settings io s) io.plan.now (afterClear s)

/-- The jobs before the last section. -/
def afterApply (io : StartIo) (s : CronServiceState) : List CronJob :=
  let plan := planOf deps settings io s
  if plan.candidates = [] ∧ plan.deferredJobIds = [] then afterPlan deps settings io s
  else catchupApplied deps retry settings plan io.result io.apply (afterPlan deps settings io s)

variable {deps retry settings}

/-- Memory and file hold the same jobs. -/
def Holds (jobs : List CronJob) (s : CronServiceState) : Prop := s.store = some jobs ∧ s.file = jobs

variable {s s' : CronServiceState}

theorem clearInterrupted_ok {io : Io} {ids : List String} (h : clearInterrupted deps io s = .ok (s', ids)) :
    Holds (afterClear s) s' ∧ ids = interruptedIds s.view := by
  obtain ⟨s₁, hl, h⟩ := bind_ok h
  have hs₁ := jobs_of_store (ensureLoaded_store hl)
  rw [opened_view] at hs₁
  obtain ⟨s₂, hp, he⟩ := map_ok h
  cases he
  rw [hs₁] at hp ⊢
  exact ⟨persist_ok rfl hp, rfl⟩

variable {skipJobIds : List String} {nowMs : ℤ}

theorem catchupPlan_nil {jobs : List CronJob}
    (h : collectRunnableJobs deps (.startup skipJobIds) nowMs jobs = []) :
    catchupPlan deps settings skipJobIds nowMs jobs = ⟨[], []⟩ := by
  unfold catchupPlan missedJobs
  rw [h]
  simp [sortByNext]

theorem markCandidates_nil {deferred : List String} {jobs : List CronJob} :
    markCandidates ⟨[], deferred⟩ nowMs jobs = jobs := by
  unfold markCandidates
  simp

theorem planStartupCatchup_ok {io : Io} {plan : StartupCatchupPlan} {jobs : List CronJob}
    (hs : Holds jobs s) (h : planStartupCatchup deps settings skipJobIds io s = .ok (s', plan)) :
    plan = catchupPlan deps settings skipJobIds io.now jobs ∧
      Holds (markCandidates plan io.now jobs) s' := by
  have hsome : s.store.isSome := by rw [hs.1]; rfl
  obtain ⟨s₁, hl, h⟩ := bind_ok h
  rw [ensureLoaded_loaded hsome] at hl
  cases hl
  rw [jobs_of_store hs.1] at h
  split at h
  · rename_i hnone
    cases h
    exact ⟨(catchupPlan_nil hnone).symm, by rw [markCandidates_nil]; exact hs⟩
  · obtain ⟨s₂, hp, he⟩ := map_ok h
    cases he
    exact ⟨rfl, persist_ok rfl hp⟩

theorem runMissedJobs_ok {io : StartIo} {jobs : List CronJob} (hs : Holds jobs s)
    (h : runMissedJobs deps retry settings skipJobIds io s = .ok s') :
    Holds (let plan := catchupPlan deps settings skipJobIds io.plan.now jobs
      let marked := markCandidates plan io.plan.now jobs
      if plan.candidates = [] ∧ plan.deferredJobIds = [] then marked
      else catchupApplied deps retry settings plan io.result io.apply marked) s' := by
  obtain ⟨⟨s₁, plan⟩, hp, h⟩ := bind_ok h
  obtain ⟨rfl, hs₁⟩ := planStartupCatchup_ok hs hp
  dsimp only at h ⊢
  split_ifs at h ⊢
  · cases h
    exact hs₁
  · obtain ⟨s₂, hl, h⟩ := bind_ok h
    have hs₂ := jobs_of_store (ensureLoaded_store hl)
    rw [opened_file, hs₁.2] at hs₂
    rw [hs₂] at h
    exact persist_ok rfl h

/-- What is in memory when `start` returns. -/
theorem start_ok {io : StartIo} (h : start deps retry settings io s = .ok s') :
    s'.store = some (recomputeNextRuns deps io.final.now
      (afterApply deps retry settings io s)).1 := by
  obtain ⟨⟨s₁, ids⟩, hc, h⟩ := bind_ok h
  obtain ⟨hs₁, rfl⟩ := clearInterrupted_ok hc
  obtain ⟨s₂, hr, h⟩ := bind_ok h
  have hs₂ : Holds (afterApply deps retry settings io s) s₂ := runMissedJobs_ok hs₁ hr
  obtain ⟨s₃, hl, h⟩ := bind_ok h
  have hs₃ := jobs_of_store (ensureLoaded_store hl)
  rw [opened_file, hs₂.2] at hs₃
  unfold recomputedState at h
  rw [hs₃] at h
  exact (persist_ok rfl h).1

/-! ### A job that the catch-up does not run -/

theorem clearMarker_of_none {job : CronJob} (h : job.state.runningAtMs = none) : clearMarker job = job := by
  unfold clearMarker
  rw [← h]

theorem ids_afterClear (s : CronServiceState) : (afterClear s).map CronJob.id = s.view.map CronJob.id := by
  unfold afterClear
  rw [List.map_map]
  rfl

/-- The missed jobs are jobs of the store, none of them twice. -/
theorem nodup_missedJobs {jobs : List CronJob} (hids : (jobs.map CronJob.id).Nodup) :
    ((missedJobs deps skipJobIds nowMs jobs).map CronJob.id).Nodup := by
  have hperm := perm_insertionSort
    (fun a b : CronJob => a.state.nextRunAtMs.getD 0 ≤ b.state.nextRunAtMs.getD 0)
    (collectRunnableJobs deps (.startup skipJobIds) nowMs jobs)
  exact (hperm.map CronJob.id).nodup_iff.mpr ((filter_sublist.map _).nodup hids)

theorem mem_missedJobs {jobs : List CronJob} {job : CronJob} : job ∈ missedJobs deps skipJobIds nowMs jobs ↔
      job ∈ jobs ∧ isRunnableJob deps (.startup skipJobIds) nowMs job = true := by
  unfold missedJobs sortByNext collectRunnableJobs
  rw [mem_insertionSort, mem_filter]

theorem enabled_of_isRunnableJob {opts : CollectOpts} {job : CronJob}
    (h : isRunnableJob deps opts nowMs job = true) : job.enabled = true := by
  unfold isRunnableJob at h
  by_contra he
  simp [he] at h

/-- A job of the plan is not both run and deferred. -/
theorem not_mem_candidates {jobs : List CronJob} (hids : (jobs.map CronJob.id).Nodup) {id : String}
    (h : id ∈ (catchupPlan deps settings skipJobIds nowMs jobs).deferredJobIds) :
    id ∉ (catchupPlan deps settings skipJobIds nowMs jobs).candidates := by
  have hnd : ((missedJobs deps skipJobIds nowMs jobs).map CronJob.id).Nodup :=
    nodup_missedJobs hids
  rw [← take_append_drop settings.maxImmediate (List.map _ _), nodup_append] at hnd
  exact fun hc => hnd.2.2 id hc id h rfl

/-- A job that is not run is the same after the planning and after the outcomes of the
others. -/
theorem findJob_afterPlan {s : CronServiceState} {io : StartIo} {job : CronJob}
    (hids : (s.view.map CronJob.id).Nodup) (hjob : job ∈ afterClear s)
    (hc : job.id ∉ (planOf deps settings io s).candidates) :
    findJob job.id (afterPlan deps settings io s) = some job ∧
      findJob job.id (((planOf deps settings io s).candidates.map fun id => (id, io.result id)).foldl
        (applyOutcomeToStoredJob deps retry) (afterPlan deps settings io s)) = some job := by
  have hfound : findJob job.id (afterPlan deps settings io s) = some job := by
    unfold afterPlan markCandidates
    rw [findJob_map (fun job => by split_ifs <;> rfl),
      findJob_of_mem (ids_afterClear s ▸ hids) hjob, map_some, if_neg (by simpa using hc)]
  refine ⟨hfound, ?_⟩
  rw [findJob_applyOutcomes_ne _ _ (by simpa [List.map_map, Function.comp_def] using hc)]
  exact hfound

theorem findJob_deferJobs {baseNow staggerMs offset : ℤ} {ids : List String}
    {jobs : List CronJob} {j : String} (hnd : ids.Nodup)
    (hen : ∀ id ∈ ids, ∃ job, findJob id jobs = some job ∧ job.enabled = true) :
    findJob j (deferJobs baseNow staggerMs offset ids jobs) =
      if j ∈ ids then
        (findJob j jobs).map (setNext · (some (baseNow + (offset + staggerMs * ids.idxOf j))))
      else findJob j jobs := by
  induction ids generalizing offset jobs with
  | nil => simp [deferJobs]
  | cons id ids ih =>
    rw [nodup_cons] at hnd
    obtain ⟨job, hfound, he⟩ := hen id (mem_cons_self ..)
    have hkeep : ∀ job : CronJob, job.id = id →
        (setNext job (some (baseNow + offset))).id = id := fun _ h => h
    have hrest : ∀ id' ∈ ids, ∃ job, findJob id'
        (modifyJob id (setNext · (some (baseNow + offset))) jobs) = some job ∧
          job.enabled = true := by
      intro id' hid'
      have hne : id' ≠ id := fun e => hnd.1 (e ▸ hid')
      rw [findJob_modifyJob_ne hkeep hne]
      exact hen id' (mem_cons_of_mem _ hid')
    have hstep : deferJobs baseNow staggerMs offset (id :: ids) jobs =
        deferJobs baseNow staggerMs (offset + staggerMs) ids
          (modifyJob id (setNext · (some (baseNow + offset))) jobs) := by
      rw [deferJobs, hfound, filter_some, if_pos he]
    rw [hstep, ih hnd.2 hrest]
    by_cases hj : j = id
    · subst hj
      rw [if_neg hnd.1, if_pos (mem_cons_self ..), findJob_modifyJob_self hkeep,
        idxOf_cons_self, Nat.cast_zero, mul_zero, add_zero]
    · rw [findJob_modifyJob_ne hkeep hj, idxOf_cons_ne _ (Ne.symm hj)]
      have hmem : j ∈ id :: ids ↔ j ∈ ids := by simp [hj]
      have htime : offset + staggerMs + staggerMs * (ids.idxOf j : ℤ) =
          offset + staggerMs * ((ids.idxOf j).succ : ℕ) := by
        push_cast
        ring
      simp only [hmem, htime]

/-- The slot a job waits for that the catch-up does not run: the time the plan gave it, or the
one it had. -/
def pendingSlot (settings : CatchupSettings) (plan : StartupCatchupPlan) (baseNow : ℤ)
    (job : CronJob) : Option ℤ :=
  if job.id ∈ plan.deferredJobIds then
    some (baseNow + settings.staggerMs * (plan.deferredJobIds.idxOf job.id + 1))
  else job.state.nextRunAtMs

/-- A job that is not run waits for its slot before the last section. -/
theorem findJob_afterApply {s : CronServiceState} {io : StartIo} {job : CronJob} {n : ℤ}
    (hids : (s.view.map CronJob.id).Nodup) (hjob : job ∈ s.view) (he : job.enabled = true)
    (hr : job.state.runningAtMs = none) (hc : job.id ∉ (planOf deps settings io s).candidates)
    (hslot : pendingSlot settings (planOf deps settings io s) io.apply.now job = some n) :
    findJob job.id (afterApply deps retry settings io s) = some (setNext job (some n)) := by
  have hclear : job ∈ afterClear s :=
    List.mem_map.mpr ⟨job, hjob, clearMarker_of_none hr⟩
  have hplan := @findJob_afterPlan deps retry settings s io job hids hclear hc
  unfold afterApply
  dsimp only
  unfold pendingSlot at hslot
  split_ifs with hempty
  · rw [hempty.2, if_neg (not_mem_nil)] at hslot
    rw [hplan.1, setNext, ← hslot]
  · have hdefer : ∀ id ∈ (planOf deps settings io s).deferredJobIds, ∃ job, findJob id
        (((planOf deps settings io s).candidates.map fun id => (id, io.result id)).foldl
          (applyOutcomeToStoredJob deps retry) (afterPlan deps settings io s)) = some job ∧
        job.enabled = true := by
      intro id hid
      obtain ⟨missed, hm, rfl⟩ := List.mem_map.mp (mem_of_mem_drop hid)
      obtain ⟨hmem, hrun⟩ := mem_missedJobs.mp hm
      have hids' := ids_afterClear s ▸ hids
      exact ⟨missed, (findJob_afterPlan hids hmem (not_mem_candidates hids' hid)).2,
        enabled_of_isRunnableJob hrun⟩
    have hnd : (planOf deps settings io s).deferredJobIds.Nodup :=
      (drop_sublist _ _).nodup (nodup_missedJobs (ids_afterClear s ▸ hids))
    have hfound : findJob job.id (deferJobs io.apply.now settings.staggerMs settings.staggerMs
        (planOf deps settings io s).deferredJobIds
        (((planOf deps settings io s).candidates.map fun id => (id, io.result id)).foldl
          (applyOutcomeToStoredJob deps retry) (afterPlan deps settings io s))) =
        some (setNext job (some n)) := by
      rw [findJob_deferJobs hnd hdefer, hplan.2]
      have htime : settings.staggerMs + settings.staggerMs *
          ((planOf deps settings io s).deferredJobIds.idxOf job.id : ℤ) =
          settings.staggerMs * ((planOf deps settings io s).deferredJobIds.idxOf job.id + 1) := by
        ring
      rw [htime]
      split_ifs at hslot ⊢
      · rw [map_some, ← hslot]
      · rw [setNext, ← hslot]
    unfold catchupApplied
    refine (findJob_map fun job => ?_).trans ?_
    · exact walkJob_id (recomputeForMaintenance_id deps false) _ job
    · have he' : (setNext job (some n)).enabled = true := he
      rw [hfound, map_some, walkJob_of_enabled he' (isStuck_of_none hr)]
      rfl

/-! ### Caught up -/

/-- A job was missed: the planning found it ready to run, or its slot has come when the service
has started. -/
def Missed (deps : CronDeps) (io : StartIo) (s : CronServiceState) (job : CronJob) : Prop :=
  isRunnableJob deps (.startup (interruptedIds s.view)) io.plan.now job = true ∨
    ∃ n, job.state.nextRunAtMs = some n ∧ n ≤ io.final.now

/-- A job that was missed is run by the catch-up, or has a slot to wait for. -/
theorem pendingSlot_of_missed {s : CronServiceState} {io : StartIo} {job : CronJob}
    (hjob : job ∈ s.view) (hr : job.state.runningAtMs = none) (hm : Missed deps io s job) :
    job.id ∈ (planOf deps settings io s).candidates ∨
      ∃ n, pendingSlot settings (planOf deps settings io s) io.apply.now job = some n := by
  unfold pendingSlot
  rcases hm with hrun | ⟨n, hn, -⟩
  · have hclear : job ∈ afterClear s := List.mem_map.mpr ⟨job, hjob, clearMarker_of_none hr⟩
    have hmem : job.id ∈ (missedJobs deps (interruptedIds s.view) io.plan.now
        (afterClear s)).map CronJob.id :=
      List.mem_map_of_mem (mem_missedJobs.mpr ⟨hclear, hrun⟩)
    rw [← take_append_drop settings.maxImmediate (List.map _ _), mem_append] at hmem
    rcases hmem with hc | hd
    · exact .inl hc
    · exact .inr ⟨_, if_pos hd⟩
  · split_ifs
    · exact .inr ⟨_, rfl⟩
    · exact .inr ⟨n, hn⟩

/-- The job is run by the catch-up, or every tick at or after the slot it waits for runs it. -/
def CaughtUp (deps : CronDeps) (settings : CatchupSettings) (io : StartIo)
    (s s' : CronServiceState) (job : CronJob) : Prop :=
  job.id ∈ (planOf deps settings io s).candidates ∨
    ∃ n, pendingSlot settings (planOf deps settings io s) io.apply.now job = some n ∧
      ∃ job', findJob job.id s'.jobs = some job' ∧
        ∀ now, n ≤ now → isRunnableJob deps .tick now job' = true

/-- The last section keeps the slot `n` of a job: its clock has not reached the slot, or the next
run it computes is not later. -/
def FinalRecomputeKeeps (deps : CronDeps) (n now : ℤ) (job : CronJob) : Prop :=
  now < n ∨ ∃ m, m ≤ n ∧ computeJobNextRunAtMs deps job now = .ok (some m)

/-- Just when ticks at or after the slot run the job that the last section leaves. -/
theorem isRunnableJob_recomputed {job : CronJob} {n now : ℤ} (he : job.enabled = true)
    (hr : job.state.runningAtMs = none) :
    (∀ t, n ≤ t → isRunnableJob deps .tick t
      (recomputeDueOrMissing deps (setNext job (some n)) now) = true) ↔
      FinalRecomputeKeeps deps n now job := by
  have hself : ∀ t, isRunnableJob deps .tick t (setNext job (some n)) = decide (n ≤ t) := by
    intro t
    rw [isRunnableJob_tick]
    simp [setNext, he, hr]
  have hcompute : computeJobNextRunAtMs deps (setNext job (some n)) now =
      computeJobNextRunAtMs deps job now := rfl
  unfold recomputeDueOrMissing FinalRecomputeKeeps
  by_cases hd : now < n
  · rw [if_neg (by simpa [setNext] using hd)]
    exact ⟨fun _ => .inl hd, fun _ t ht => by rw [hself]; exact decide_eq_true ht⟩
  · rw [if_pos (by simpa [setNext] using hd)]
    unfold recomputeJobNextRunAtMs
    rw [hcompute]
    cases hc : computeJobNextRunAtMs deps job now with
    | error err =>
      refine ⟨fun h => ?_, fun h => ?_⟩
      · have hn := h n le_rfl
        rw [isRunnableJob_tick] at hn
        simp [recordScheduleComputeError] at hn
      · obtain ⟨m, -, hm⟩ := h.resolve_left hd
        cases hm
    | ok newNext =>
      have hrun : ∀ t, isRunnableJob deps .tick t
          { setNext job (some n) with state := { (setNext job (some n)).state with
            nextRunAtMs := newNext
            scheduleErrorCount := (setNext job (some n)).state.scheduleErrorCount.filter (· = 0) } } =
          newNext.any (t ≥ ·) := by
        intro t
        rw [isRunnableJob_tick]
        simp [setNext, he, hr]
      simp only [hrun]
      refine ⟨fun h => ?_, fun h t ht => ?_⟩
      · cases newNext with
        | none => exact absurd (h n le_rfl) (by simp)
        | some m => exact .inr ⟨m, of_decide_eq_true (h n le_rfl), rfl⟩
      · obtain ⟨m, hle, hm⟩ := h.resolve_left hd
        cases hm
        exact decide_eq_true (hle.trans ht)

/-- A job that was enabled and not interrupted is caught up when `start` returns, just when it
was run, or the last section keeps the slot it waits for. -/
theorem start_keeps_missed_iff {s s' : CronServiceState} {io : StartIo} {job : CronJob}
    (hids : (s.view.map CronJob.id).Nodup) (hjob : job ∈ s.view) (he : job.enabled = true)
    (hr : job.state.runningAtMs = none) (hm : Missed deps io s job)
    (h : start deps retry settings io s = .ok s') :
    CaughtUp deps settings io s s' job ↔
      ∀ n, pendingSlot settings (planOf deps settings io s) io.apply.now job = some n →
        job.id ∈ (planOf deps settings io s).candidates ∨
          FinalRecomputeKeeps deps n io.final.now job := by
  by_cases hc : job.id ∈ (planOf deps settings io s).candidates
  · exact ⟨fun _ _ _ => .inl hc, fun _ => .inl hc⟩
  · obtain ⟨n, hslot⟩ := (pendingSlot_of_missed hjob hr hm).resolve_left hc
    have hafter := @findJob_afterApply deps retry settings s io job n hids hjob he hr hc hslot
    have hfinal : findJob job.id s'.jobs =
        some (recomputeDueOrMissing deps (setNext job (some n)) io.final.now) := by
      rw [jobs_of_store (start_ok h)]
      refine (findJob_map fun job => walkJob_id (recomputeDueOrMissing_id deps) _ job).trans ?_
      have he' : (setNext job (some n)).enabled = true := he
      rw [hafter, map_some, walkJob_of_enabled he' (isStuck_of_none hr)]
    unfold CaughtUp
    rw [hfinal, hslot]
    constructor
    · rintro (hx | ⟨n', hn', job', hj', hrun⟩) m hm'
      · exact absurd hx hc
      · cases hn'
        cases hm'
        cases hj'
        exact .inr ((isRunnableJob_recomputed he hr).mp hrun)
    · intro hk
      exact .inr ⟨n, rfl, _, rfl, (isRunnableJob_recomputed he hr).mpr ((hk n rfl).resolve_left hc)⟩

end Start

/-! ### A start in which one job was missed and another becomes due -/

/-- A job with an interval that waits for a slot. -/
def intervalJob (id : String) (everyMs anchorMs next : ℤ) : CronJob :=
  ⟨id, true, none, some 0, 0, .every everyMs (some anchorMs), { CronJobState.empty with
    nextRunAtMs := some next }⟩

/-- The service before `start`: a job whose slot has passed, and one whose first slot comes. -/
def beforeStart : CronServiceState :=
  ⟨none, [intervalJob "missed" 60000 1000 1000, intervalJob "soon" 3600000 5000 5000], 0⟩

/-- `start` at 2 s; the run of the missed job takes until `endedAt`. -/
def startIoUntil (endedAt : ℤ) : StartIo :=
  ⟨ioAt 2000, ioAt 2000, fun _ => ⟨.ok, none, 2000, endedAt⟩, ioAt endedAt, ioAt endedAt⟩

/-- The default settings of the catch-up. -/
def defaultCatchup : CatchupSettings := ⟨none, none⟩

/-- The missed job is deferred, when none may run at once: it is run for its time. -/
theorem start_keeps_missed_deferred :
    ∃ s', start noCron defaultRetry ⟨some 0, none⟩ (startIoUntil 4000) beforeStart = .ok s' ∧
      pendingSlot ⟨some 0, none⟩ (planOf noCron ⟨some 0, none⟩ (startIoUntil 4000) beforeStart)
        4000 (intervalJob "missed" 60000 1000 1000) = some 9000 ∧
      CaughtUp noCron ⟨some 0, none⟩ (startIoUntil 4000) beforeStart s'
        (intervalJob "missed" 60000 1000 1000) := by
  have hstart : start noCron defaultRetry ⟨some 0, none⟩ (startIoUntil 4000) beforeStart =
    .ok _ := rfl
  refine ⟨_, rfl, by decide, (start_keeps_missed_iff (by decide) (mem_cons_self ..) rfl rfl
    (.inl (by decide)) hstart).mpr fun n hn => .inr (.inl ?_)⟩
  have h9000 : pendingSlot ⟨some 0, none⟩ (planOf noCron ⟨some 0, none⟩ (startIoUntil 4000) beforeStart) 4000
      (intervalJob "missed" 60000 1000 1000) = some 9000 := by decide
  have hn' : (9000 : ℤ) = n := some.inj (h9000.symm.trans hn)
  rw [← hn']
  decide

/-- The run of the missed job takes until 8 s. The job that became due at 5 s is not run, and
its slot is replaced by the one an hour later. -/
theorem start_advances_slot :
    ∃ s', start noCron defaultRetry defaultCatchup (startIoUntil 8000) beforeStart = .ok s' ∧
      Missed noCron (startIoUntil 8000) beforeStart (intervalJob "soon" 3600000 5000 5000) ∧
      (findJob "soon" s'.jobs).map (·.state.nextRunAtMs) = some (some 3605000) ∧
      ¬ CaughtUp noCron defaultCatchup (startIoUntil 8000) beforeStart s'
        (intervalJob "soon" 3600000 5000 5000) := by
  refine ⟨_, rfl, .inr ⟨5000, rfl, by decide⟩, rfl, ?_⟩
  rintro (hc | ⟨n, hn, job, hj, hrun⟩)
  · exact absurd hc (by decide)
  · cases hn
    cases hj
    exact absurd (hrun 5000 le_rfl) (by decide)

end Foxclaw.Cron
