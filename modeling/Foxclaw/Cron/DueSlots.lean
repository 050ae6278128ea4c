import Foxclaw.Cron.System

/-!
# Cron: a due slot is kept until it is run

A job that waits for a slot (`WaitsFor`) is to be run for it by the next tick. Operations on
other jobs must not move the slot. The maintenance pass moves it only when it was executed,
so all sections that use it keep the slot. `recomputeNextRuns`, which `add` calls (and
`ensureLoaded` for `add` and `remove`), replaces every slot that has passed.

## What is proved

* `recomputeForMaintenance_of_waits`, `recomputeDueOrMissing_of_waits` — the two recompute
  passes on a job that waits.
* `next_waiting` — a step that is not about the job keeps its slot, if the full recomputes
  it makes do (`LeavesSlot`).
* `due_slot_kept` — over any run of such steps the job waits for the same slot, and a tick at
  or after it runs the job.
* `add_advances_slot` — adding a job moves the slot of another job that is due.
-/

namespace Foxclaw.Cron

open Option Foxclaw.Runs

/-- The job waits for the slot `n`: it may run, is not running, and the slot was not
executed. -/
structure WaitsFor (n : ℤ) (job : CronJob) : Prop where
  enabled : job.enabled = true
  running : job.state.runningAtMs = none
  next : job.state.nextRunAtMs = some n
  notExecuted : alreadyExecutedSlot job n = false

/-- The job with the id `j` waits for the slot `n`. -/
def Waits (j : String) (n : ℤ) (jobs : List CronJob) : Prop :=
  ∃ job, findJob j jobs = some job ∧ WaitsFor n job

section Passes

variable {deps : CronDeps} {retry : RetryConfig} {j id : String} {n now : ℤ} {job : CronJob}
  {jobs : List CronJob}

/-! ### One job -/

theorem walkJob_of_waits {fn : CronJob → ℤ → CronJob} (h : WaitsFor n job) :
    walkJob fn now job = fn job now :=
  walkJob_of_enabled h.enabled (isStuck_of_none h.running)

theorem recomputeForMaintenance_of_waits (h : WaitsFor n job) (recomputeExpired : Bool) :
    recomputeForMaintenance deps recomputeExpired job now = job := by
  unfold recomputeForMaintenance
  simp [h.next, h.notExecuted]

/-- A full recompute at `now` keeps the slot `n` of the job: it has not passed, or computing the
next run gives it again. -/
def RecomputeKeeps (deps : CronDeps) (n now : ℤ) (job : CronJob) : Prop :=
  now < n ∨ computeJobNextRunAtMs deps job now = .ok (some n)

/-- The full recompute of a job that waits, when it keeps its slot. -/
theorem recomputeDueOrMissing_of_waits (h : WaitsFor n job) (hk : RecomputeKeeps deps n now job) :
    ∃ count, recomputeDueOrMissing deps job now = { job with state := { job.state with
      nextRunAtMs := some n, scheduleErrorCount := count } } := by
  have hself : job = { job with state := { job.state with
      nextRunAtMs := some n, scheduleErrorCount := job.state.scheduleErrorCount } } := by
    rw [← h.next]
  unfold recomputeDueOrMissing
  rw [h.next]
  split_ifs with hd
  · have hnow : ¬ now < n := by simpa using hd
    unfold recomputeJobNextRunAtMs
    rw [hk.resolve_left hnow]
    exact ⟨_, rfl⟩
  · exact ⟨_, hself⟩

theorem WaitsFor.recompute {count : Option ℤ} (h : WaitsFor n job) :
    WaitsFor n { job with state := { job.state with
      nextRunAtMs := some n, scheduleErrorCount := count } } :=
  ⟨h.enabled, h.running, rfl, h.notExecuted⟩

theorem isRunnableJob_of_waits (h : WaitsFor n job) (hn : n ≤ now) :
    isRunnableJob deps .tick now job = true := by
  rw [isRunnableJob_tick, h.enabled, h.running, h.next]
  simpa using hn

/-! ### A list of jobs -/

variable {f : CronJob → CronJob}

theorem Waits.map (hf : ∀ job, (f job).id = job.id)
    (hk : ∀ job, findJob j jobs = some job → WaitsFor n job → WaitsFor n (f job))
    (h : Waits j n jobs) : Waits j n (jobs.map f) := by
  obtain ⟨job, hj, hw⟩ := h
  exact ⟨f job, by rw [findJob_map hf, hj, map_some], hk job hj hw⟩

variable (h : Waits j n jobs)
include h

theorem Waits.maintained (recomputeExpired : Bool) :
    Waits j n (maintained deps recomputeExpired now jobs) := by
  refine h.map (fun job => ?_) fun job _ hw => ?_
  · exact walkJob_id (recomputeForMaintenance_id deps recomputeExpired) now job
  · rw [walkJob_of_waits hw, recomputeForMaintenance_of_waits hw]
    exact hw

theorem Waits.recomputed (hk : ∀ job, findJob j jobs = some job → RecomputeKeeps deps n now job) :
    Waits j n (recomputeNextRuns deps now jobs).1 := by
  refine h.map (fun job => ?_) fun job hj hw => ?_
  · exact walkJob_id (recomputeDueOrMissing_id deps) now job
  · rw [walkJob_of_waits hw]
    obtain ⟨count, he⟩ := recomputeDueOrMissing_of_waits hw (hk job hj)
    rw [he]
    exact hw.recompute

theorem Waits.modify (hf : ∀ job, job.id = id → (f job).id = id) (hne : j ≠ id) :
    Waits j n (modifyJob id f jobs) := by
  obtain ⟨job, hj, hw⟩ := h
  exact ⟨job, by rw [findJob_modifyJob_ne hf hne, hj], hw⟩

theorem Waits.drop (hne : j ≠ id) : Waits j n (dropJob id jobs) := by
  obtain ⟨job, hj, hw⟩ := h
  exact ⟨job, by rw [findJob_dropJob_ne hne, hj], hw⟩

theorem Waits.append (more : List CronJob) : Waits j n (jobs ++ more) := by
  obtain ⟨job, hj, hw⟩ := h
  exact ⟨job, by rw [findJob_append, hj, some_or], hw⟩

theorem Waits.applyOutcomes {outcomes : List (String × JobResult)} (hne : j ∉ outcomes.map Prod.fst) :
    Waits j n (outcomes.foldl (applyOutcomeToStoredJob deps retry) jobs) := by
  obtain ⟨job, hj, hw⟩ := h
  exact ⟨job, by rw [findJob_applyOutcomes_ne deps retry hne, hj], hw⟩

theorem Waits.marked {dueCheckNow : ℤ}
    (hne : ∀ job ∈ collectRunnableJobs deps .tick dueCheckNow jobs, job.id ≠ j) :
    Waits j n (markDueJobs deps dueCheckNow now jobs) := by
  refine h.map (fun job => ?_) fun job hj hw => ?_
  · split_ifs <;> rfl
  · have hr : ¬ isRunnableJob deps .tick dueCheckNow job = true := fun hr =>
      hne job (List.mem_filter.mpr ⟨findJob_mem hj, hr⟩) (findJob_id hj)
    rw [if_neg hr]
    exact hw

/-- A second full recompute of a job that waits keeps its slot when it would have kept it
before the first. -/
theorem recomputeKeeps_recomputed {now' : ℤ} {job' : CronJob}
    (hk : ∀ job, findJob j jobs = some job → RecomputeKeeps deps n now job)
    (hk' : ∀ job, findJob j jobs = some job → RecomputeKeeps deps n now' job)
    (hj' : findJob j (recomputeNextRuns deps now jobs).1 = some job') : RecomputeKeeps deps n now' job' := by
  obtain ⟨job, hj, hw⟩ := h
  have hfound : findJob j (recomputeNextRuns deps now jobs).1 =
      some (walkJob (recomputeDueOrMissing deps) now job) :=
    (findJob_map fun job => walkJob_id (recomputeDueOrMissing_id deps) now job).trans
      (by rw [hj, map_some])
  obtain ⟨count, he⟩ := recomputeDueOrMissing_of_waits hw (hk job hj)
  rw [hfound, walkJob_of_waits hw, he, some.injEq] at hj'
  rw [← hj']
  exact hk' job hj

end Passes

section Steps

variable (deps : CronDeps) (retry : RetryConfig) (j : String) (n : ℤ)

/-! ### One step -/

/-- The step is about the job: an operation on it, a section of a manual run of it, or a section
of a tick that runs it. -/
def About (s : CronSystem) : Action → Prop
  | .read _ | .add _ _ | .endRun _ _ _ _ => False
  | .update _ id _ | .remove _ id | .preflight _ id _ => id = j
  | .prepare _ k => ∃ run, s.waiting[k]? = some run ∧ run.id = j
  | .finish _ k _ _ _ => ∃ run, s.executing[k]? = some run ∧ run.id = j
  | .collect io => ∃ job ∈ collectRunnableJobs deps .tick io.now s.service.file, job.id = j
  | .startRun k _ => ∃ run, s.tickRuns[k]? = some run ∧ run.id = j
  | .apply _ => ∃ run ∈ s.tickRuns, run.id = j

/-- The full recompute at `now` of these jobs keeps the slot. -/
def FullRecomputeKeeps (now : ℤ) (jobs : List CronJob) : Prop :=
  ∀ job, findJob j jobs = some job → RecomputeKeeps deps n now job

/-- The full recomputes that a step makes keep the slot: `add` makes one when it could make the
job, and `add` and `remove` make one when they load the store. -/
def FullRecomputesKeep (s : CronSystem) : Action → Prop
  | .add io input =>
    (s.service.store = none → FullRecomputeKeeps deps j n io.load.now s.service.file) ∧
      ((∃ job, createJob deps io.now input = .ok job) →
        FullRecomputeKeeps deps j n io.thenNow s.service.view)
  | .remove io _ => s.service.store = none →
      FullRecomputeKeeps deps j n io.load.now s.service.file
  | _ => True

/-- The step is not about the job, and its full recomputes keep the slot. -/
def LeavesSlot (s : CronSystem) (a : Action) : Prop :=
  ¬ About deps j s a ∧ FullRecomputesKeep deps j n s a

variable {deps retry j n}

variable {s : CronServiceState}

/-- The job waits in the jobs that `add` and `remove` work with. -/
theorem opened_waits {io : LoadIo} (h : OnStores (Waits j n) s)
    (hk : s.store = none → FullRecomputeKeeps deps j n io.now s.file) :
    Waits j n (s.opened deps false false io) :=
  h.opened fun hs => h.file.recomputed (hk hs)

/-- What the recompute of `add` finds of the job keeps its slot if what was there before
does. -/
theorem opened_recomputeKeeps {io : LoadIo} {now : ℤ} (h : OnStores (Waits j n) s)
    (hk : s.store = none → FullRecomputeKeeps deps j n io.now s.file)
    (hv : FullRecomputeKeeps deps j n now s.view) :
    FullRecomputeKeeps deps j n now (s.opened deps false false io) := by
  cases hs : s.store with
  | some jobs =>
    rw [opened_loaded (by simp [hs]), jobs_of_store hs]
    unfold CronServiceState.view at hv
    rw [hs] at hv
    exact hv
  | none =>
    unfold CronServiceState.view at hv
    rw [hs] at hv
    rw [opened_unloaded hs]
    exact fun job' hj' => recomputeKeeps_recomputed h.file (hk hs) hv hj'

theorem add_waits {io : Io} {input : CronJobCreate} (h : OnStores (Waits j n) s)
    (hk : s.store = none → FullRecomputeKeeps deps j n io.load.now s.file)
    (hadd : (∃ job, createJob deps io.now input = .ok job) → FullRecomputeKeeps deps j n io.thenNow s.view) :
    Leaves (OnStores (Waits j n)) (add deps io input s) := by
  have ho := opened_waits h hk
  refine add_onStores h ho fun job hjob => (ho.append [job]).recomputed fun job' hj' => ?_
  obtain ⟨waits, hfound, _⟩ := ho
  rw [findJob_append, hfound, some_or, some.injEq] at hj'
  exact hj' ▸ opened_recomputeKeeps h hk (hadd ⟨job, hjob⟩) waits hfound

theorem finish_waits {io : Io} {id : String} {result : JobResult}
    {forced : Bool} (h : OnStores (Waits j n) s) (hne : j ≠ id) :
    Leaves (OnStores (Waits j n)) (finishPreparedManualRun deps retry io id result forced s) := by
  refine finish_onStores h fun job hjob => ⟨?_, Waits.maintained ?_ _⟩
  · unfold finishedJobs
    dsimp only
    split_ifs
    · exact h.view.drop hne
    · exact h.view.modify (fun _ _ => by rw [applyJobResult_id, findJob_id hjob]) hne
  · unfold mergedJobs
    dsimp only
    split_ifs
    · exact h.file.drop hne
    · exact h.file.modify (fun _ hid => hid) hne

theorem prepare_waits {io : Io} {id : String} {now : ℤ} (h : OnStores (Waits j n) s) (hne : j ≠ id) :
    LeavesWith (OnStores (Waits j n)) (prepareManualRun io id now s) :=
  prepareManualRun_onStores h fun _ hjob _ =>
    (onStores_jobs h hjob).modify (fun _ hid => hid) hne

/-- A step that is not about the job and whose full recomputes keep its slot. -/
theorem next_waiting {s s' : CronSystem} {a : Action} (h : OnStores (Waits j n) s.service)
    (hp : LeavesSlot deps j n s a) (hs : next deps retry s a = some s') :
    OnStores (Waits j n) s'.service := by
  obtain ⟨hab, hk⟩ := hp
  cases a with
  | read io =>
    cases hs
    exact ensureLoadedForRead_onStores h (h.view.maintained false)
  | add io input =>
    simp only [next] at hs
    split_ifs at hs
    cases hs
    exact add_waits h hk.1 hk.2
  | update io id patch =>
    cases hs
    have hne : j ≠ id := fun e => hab e.symm
    exact update_onStores h fun job hjob job' hjob' =>
      h.view.modify (fun _ _ => by rw [updateJob_id deps hjob', findJob_id hjob]) hne
  | remove io id =>
    cases hs
    have hne : j ≠ id := fun e => hab e.symm
    have ho := opened_waits h hk
    exact remove_onStores h ho (ho.drop hne)
  | preflight io id forced =>
    cases hs
    exact stepPreflight_leaves (preflight_onStores h (h.view.maintained false))
  | prepare io k =>
    obtain ⟨run, hrun, rfl⟩ := map_eq_some_iff.mp hs
    exact stepPrepare_leaves (prepare_waits h fun e => hab ⟨run, hrun, e.symm⟩)
  | finish io k status error endedAt =>
    obtain ⟨run, hrun, rfl⟩ := map_eq_some_iff.mp hs
    exact finish_waits h fun e => hab ⟨run, hrun, e.symm⟩
  | collect io =>
    simp only [next] at hs
    split_ifs at hs
    cases hs
    exact stepCollect_leaves (collectDueJobs_onStores h (fun _ => h.file.maintained true)
      (h.file.marked fun job hjob e => hab ⟨job, hjob, e⟩))
  | startRun k startedAt =>
    obtain ⟨tick, htick, hs⟩ := bind_eq_some_iff.mp hs
    split at hs
    · rename_i id hrun
      cases hs
      refine startDueJob_onStores h fun jobs hw => hw.modify (fun _ hid => hid)
        fun e => hab ⟨⟨id, .collected⟩, ?_, e.symm⟩
      unfold CronSystem.tickRuns
      rw [htick]
      exact hrun
    · cases hs
  | endRun k status error endedAt =>
    obtain ⟨tick, htick, hs⟩ := bind_eq_some_iff.mp hs
    split at hs
    · cases hs
      exact h
    · cases hs
  | apply io =>
    obtain ⟨tick, htick, hs⟩ := bind_eq_some_iff.mp hs
    obtain ⟨outcomes, hout, rfl⟩ := map_eq_some_iff.mp hs
    refine applyTickOutcomes_onStores h (Waits.maintained (h.file.applyOutcomes fun hm => hab ?_) _)
    rw [ids_outcomesOf hout] at hm
    obtain ⟨run, hrun, he⟩ := List.mem_map.mp hm
    refine ⟨run, ?_, he⟩
    unfold CronSystem.tickRuns
    rw [htick]
    exact hrun

/-! ### A run -/

/-- A job that waits for a slot, in memory and in the file, waits for it after any run whose
steps are not about the job and whose full recomputes keep the slot; and a tick at or after
the slot runs the job. -/
theorem due_slot_kept {s t : CronSystem} {as : List Action} (hw : OnStores (Waits j n) s.service)
    (hp : Meets (next deps retry) (LeavesSlot deps j n) s as) (h : exec (next deps retry) s as = some t) :
    OnStores (Waits j n) t.service ∧ ∀ now, n ≤ now →
      ∃ job ∈ collectRunnableJobs deps .tick now t.service.file, job.id = j := by
  have ht : OnStores (Waits j n) t.service :=
    exec_invariant_of_meets (I := fun s => OnStores (Waits j n) s.service)
      (fun _ _ _ => next_waiting) hp hw h
  refine ⟨ht, fun now hn => ?_⟩
  obtain ⟨job, hjob, hwait⟩ := ht.file
  exact ⟨job, List.mem_filter.mpr ⟨findJob_mem hjob, isRunnableJob_of_waits hwait hn⟩, findJob_id hjob⟩

end Steps

/-! ### Adding a job while another is due -/

/-- No expression has a run. -/
def noCron : CronDeps := ⟨fun _ _ _ => .ok none, fun _ _ _ => .ok none, fun _ => 0⟩

/-- The default settings of a retry. -/
def defaultRetry : RetryConfig := ⟨none, [], []⟩

/-- A section in which nothing fails, with the clock standing still. -/
def ioAt (now : ℤ) : Io :=
  ⟨⟨false, now, false, false⟩, ⟨false, now, false, false⟩, now, now, false⟩

/-- A job that runs every minute. -/
def everyMinute (id : String) : CronJobCreate :=
  ⟨id, .every 60000 none, none, none, .empty, false⟩

/-- The service before its first step, with an empty file. -/
def emptySystem : CronSystem := ⟨⟨none, [], 0⟩, none, [], []⟩

/-- The run `due_slot_kept` is about, of a read and of removing another job. -/
theorem due_slot_kept_read :
    ∃ s t, exec (next noCron defaultRetry) emptySystem
        [.add (ioAt 0) (everyMinute "a"), .add (ioAt 1) (everyMinute "b")] = some s ∧
      exec (next noCron defaultRetry) s [.read (ioAt 60000), .remove (ioAt 61000) "b"] = some t ∧
      OnStores (Waits "a" 60000) t.service ∧ ∀ now, 60000 ≤ now →
        ∃ job ∈ collectRunnableJobs noCron .tick now t.service.file, job.id = "a" := by
  refine ⟨_, _, rfl, rfl, ?_⟩
  refine due_slot_kept ?_ ?_ (show exec (next noCron defaultRetry) _
    [.read (ioAt 60000), .remove (ioAt 61000) "b"] = some _ from rfl)
  · exact ⟨fun jobs hj => by cases hj; exact ⟨_, rfl, rfl, rfl, rfl, rfl⟩,
      ⟨_, rfl, rfl, rfl, rfl, rfl⟩⟩
  · refine Meets.cons ⟨id, trivial⟩ rfl (Meets.cons ⟨fun h => ?_, ?_⟩ rfl trivial)
    · exact absurd (show "b" = "a" from h) (by decide)
    · exact fun h => (by cases h)

/-- A job waits for the slot at 60 s. At 61 s it is due and was not run; adding another job moves
its slot to 120 s. -/
theorem add_advances_slot :
    ∃ s t, exec (next noCron defaultRetry) emptySystem [.add (ioAt 0) (everyMinute "a")] = some s ∧
      OnStores (Waits "a" 60000) s.service ∧
      next noCron defaultRetry s (.add (ioAt 61000) (everyMinute "b")) = some t ∧
      ¬ About noCron "a" s (.add (ioAt 61000) (everyMinute "b")) ∧
      (findJob "a" t.service.jobs).map (·.state.nextRunAtMs) = some (some 120000) ∧
      (findJob "a" t.service.jobs).map (·.state.lastRunAtMs) = some none := by
  refine ⟨_, _, rfl, ⟨fun jobs hj => ?_, ⟨_, rfl, rfl, rfl, rfl, rfl⟩⟩, rfl, id, rfl, rfl⟩
  cases hj
  exact ⟨_, rfl, rfl, rfl, rfl, rfl⟩

end Foxclaw.Cron
