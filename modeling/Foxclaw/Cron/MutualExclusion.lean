import Foxclaw.Cron.DueSlots

/-!
# Cron: at most one execution of a job

A run of a job is in progress from the locked section that sets its marker (`runningAtMs`) to
the one that applies its outcome. The sections that start a run look for the marker first, so
two runs of one job overlap only if the marker is lost while the first is in progress.

## What is proved

* `Marked.maintained`, `Marked.recomputed` ... — the operations on the jobs of a store keep
  the marker of a job that is enabled and not stuck.
* `next_distinct`, `next_loaded` — no step makes two jobs of one id, or unloads the store.
* `next_guard` — a step that does not disturb the runs in progress (`Undisturbed`) keeps the
  invariant (`Guard`): at most one run of the job is in progress, and while one is, the job has
  its marker in memory and in the file.
* `at_most_one_execution` — over any run of such steps.
* `forced_run_overlaps` — a forced run of a disabled job loses its marker at the next read.
-/

namespace Foxclaw.Cron

open List Option Foxclaw.Runs

/-- No two jobs have the same id. -/
def DistinctIds (jobs : List CronJob) : Prop := (jobs.map CronJob.id).Nodup

/-- The property `p` holds of every job with the id `j`. -/
def ForJob (j : String) (p : CronJob → Prop) (jobs : List CronJob) : Prop :=
  ∀ job ∈ jobs, job.id = j → p job

/-- The job has a marker. -/
def Marked (j : String) : List CronJob → Prop := ForJob j (·.state.runningAtMs.isSome)

/-- A recompute pass at `now` does not take the marker of the job: the job is enabled, and the
marker not so old that it is taken for a leftover. -/
def Steady (j : String) (now : ℤ) : List CronJob → Prop :=
  ForJob j fun job => job.enabled = true ∧ isStuck job now = false

section Lists

variable {deps : CronDeps} {retry : RetryConfig} {j id : String} {now : ℤ} {job : CronJob}
  {jobs : List CronJob} {f : CronJob → CronJob} {p : CronJob → Prop}

/-! ### Operations on other jobs -/

theorem ForJob.drop (h : ForJob j p jobs) : ForJob j p (dropJob id jobs) :=
  fun job hmem => h job (mem_dropJob hmem)

theorem ForJob.append (h : ForJob j p jobs) (hne : job.id ≠ j) : ForJob j p (jobs ++ [job]) := by
  intro job' hmem hid
  rcases mem_append.mp hmem with hm | hm
  · exact h job' hm hid
  · exact absurd (mem_singleton.mp hm ▸ hid) hne

/-- A change of one job, which keeps the property if it is the job `j`. -/
theorem ForJob.modify (h : ForJob j p jobs) (hf : ∀ job, job.id = id → (f job).id = id)
    (hk : id = j → ∀ job ∈ jobs, p job → p (f job)) : ForJob j p (modifyJob id f jobs) := by
  intro job' hmem hid
  rcases mem_modifyJob hmem with hmem | ⟨job, hjob, hjid, rfl⟩
  · exact h job' hmem hid
  · have hij : id = j := (hf job hjid).symm.trans hid
    exact hk hij job hjob (h job hjob (hjid.trans hij))

theorem ForJob.modify_ne (h : ForJob j p jobs) (hf : ∀ job, job.id = id → (f job).id = id)
    (hne : id ≠ j) : ForJob j p (modifyJob id f jobs) :=
  h.modify hf fun e => absurd e hne

variable {outcomes : List (String × JobResult)}

theorem ForJob.applyOutcomes (h : ForJob j p jobs) (hne : j ∉ outcomes.map Prod.fst) :
    ForJob j p (outcomes.foldl (applyOutcomeToStoredJob deps retry) jobs) := by
  induction outcomes generalizing jobs with
  | nil => exact h
  | cons outcome outcomes ih =>
    rw [map_cons, mem_cons, not_or] at hne
    refine ih ?_ hne.2
    unfold applyOutcomeToStoredJob
    split
    · exact h
    · rename_i job hjob
      dsimp only
      split_ifs
      · exact h.drop
      · exact h.modify_ne (fun _ _ => by rw [applyJobResult_id, findJob_id hjob]) (Ne.symm hne.1)

/-! ### Markers -/

theorem Marked.map (h : Marked j jobs) (hf : ∀ job, (f job).id = job.id)
    (hk : ∀ job ∈ jobs, job.id = j → job.state.runningAtMs.isSome → (f job).state.runningAtMs.isSome) :
    Marked j (jobs.map f) := by
  intro job' hmem hid
  obtain ⟨job, hjob, rfl⟩ := List.mem_map.mp hmem
  rw [hf] at hid
  exact hk job hjob hid (h job hjob hid)

theorem Marked.maintained (h : Marked j jobs) (hs : Steady j now jobs) (recomputeExpired : Bool) :
    Marked j (maintained deps recomputeExpired now jobs) := by
  refine h.map (fun job => ?_) fun job hjob hid hm => ?_
  · exact walkJob_id (recomputeForMaintenance_id deps recomputeExpired) now job
  · rw [walkJob_of_enabled (hs job hjob hid).1 (hs job hjob hid).2, recomputeForMaintenance_runningAtMs]
    exact hm

theorem Marked.recomputed (h : Marked j jobs) (hs : Steady j now jobs) :
    Marked j (recomputeNextRuns deps now jobs).1 := by
  refine h.map (fun job => ?_) fun job hjob hid hm => ?_
  · exact walkJob_id (recomputeDueOrMissing_id deps) now job
  · rw [walkJob_of_enabled (hs job hjob hid).1 (hs job hjob hid).2, recomputeDueOrMissing_runningAtMs]
    exact hm

variable {dueCheckNow : ℤ}

theorem Marked.markDueJobs (h : Marked j jobs) : Marked j (markDueJobs deps dueCheckNow now jobs) := by
  refine h.map (fun job => ?_) fun job _ _ hm => ?_
  · split_ifs <;> rfl
  · split_ifs
    · rfl
    · exact hm

/-! ### Ids -/

theorem distinctIds_map (hf : ∀ job, (f job).id = job.id) : DistinctIds (jobs.map f) ↔ DistinctIds jobs := by
  unfold DistinctIds
  rw [List.map_map]
  have hcomp : CronJob.id ∘ f = CronJob.id := funext hf
  rw [hcomp]

variable (h : DistinctIds jobs)
include h

theorem DistinctIds.maintained (recomputeExpired : Bool) :
    DistinctIds (maintained deps recomputeExpired now jobs) :=
  (distinctIds_map (walkJob_id (recomputeForMaintenance_id deps recomputeExpired) now)).mpr h

theorem DistinctIds.recomputed : DistinctIds (recomputeNextRuns deps now jobs).1 :=
  (distinctIds_map (walkJob_id (recomputeDueOrMissing_id deps) now)).mpr h

theorem DistinctIds.modify (hf : ∀ job, job.id = id → (f job).id = id) :
    DistinctIds (modifyJob id f jobs) := by
  unfold DistinctIds
  rw [ids_modifyJob hf]
  exact h

theorem DistinctIds.drop : DistinctIds (dropJob id jobs) :=
  ids_dropJob_sublist.nodup h

theorem DistinctIds.append (hid : job.id ∉ jobs.map CronJob.id) : DistinctIds (jobs ++ [job]) := by
  unfold DistinctIds
  rw [map_append, nodup_append]
  refine ⟨h, by simp, fun a ha b hb e => hid ?_⟩
  rw [map_singleton, mem_singleton] at hb
  rw [← hb, ← e]
  exact ha

theorem DistinctIds.applyOutcomes :
    DistinctIds (outcomes.foldl (applyOutcomeToStoredJob deps retry) jobs) := by
  induction outcomes generalizing jobs with
  | nil => exact h
  | cons outcome outcomes ih =>
    refine ih ?_
    unfold applyOutcomeToStoredJob
    split
    · exact h
    · rename_i job hjob
      dsimp only
      split_ifs
      · exact h.drop
      · exact h.modify fun _ _ => by rw [applyJobResult_id, findJob_id hjob]

theorem DistinctIds.markDueJobs : DistinctIds (markDueJobs deps dueCheckNow now jobs) := by
  refine (distinctIds_map fun job => ?_).mpr h
  split_ifs <;> rfl

variable {job' : CronJob}

theorem DistinctIds.eq (hj : job ∈ jobs) (hj' : job' ∈ jobs) (he : job'.id = job.id) : job' = job := by
  have h₁ := findJob_of_mem h hj
  have h₂ := findJob_of_mem h hj'
  rw [he, h₁] at h₂
  exact (some.inj h₂).symm

/-! ### A run starts -/

/-- The section that starts a manual run leaves the job marked. -/
theorem marked_modify_self (hj : findJob j jobs = some job) :
    Marked j (modifyJob j (markRunning now) jobs) := by
  intro job' hmem hid
  have hids : DistinctIds (modifyJob j (markRunning now) jobs) := h.modify fun _ hid => hid
  have hfound : findJob j (modifyJob j (markRunning now) jobs) = some (markRunning now job) := by
    rw [findJob_modifyJob_self (f := markRunning now) (fun _ hid => hid), hj, map_some]
  rw [hids.eq (findJob_mem hfound) hmem (hid.trans (findJob_id hfound).symm)]
  rfl

/-- The section that collects jobs leaves them marked. -/
theorem marked_markDueJobs (hj : job ∈ collectRunnableJobs deps .tick dueCheckNow jobs) (hid : job.id = j) :
    Marked j (markDueJobs deps dueCheckNow now jobs) := by
  obtain ⟨hmem, hrun⟩ := mem_filter.mp hj
  intro job' hmem' hid'
  obtain ⟨job₀, hjob₀, rfl⟩ := List.mem_map.mp hmem'
  have hid₀ : job₀.id = j := by
    split_ifs at hid'
    · exact hid'
    · exact hid'
  rw [h.eq hmem hjob₀ (hid₀.trans hid.symm), if_pos hrun]
  rfl

omit h

/-- A job that a tick collects has no marker. -/
theorem not_marked_of_collected (hj : job ∈ collectRunnableJobs deps .tick dueCheckNow jobs)
    (hid : job.id = j) : ¬ Marked j jobs := by
  obtain ⟨hmem, hrun⟩ := mem_filter.mp hj
  intro h
  have hm := h job hmem hid
  rw [isRunnableJob_tick] at hrun
  rw [isSome_iff_exists] at hm
  obtain ⟨m, hm⟩ := hm
  simp [hm] at hrun

/-! ### An update -/

/-- The patch does not take the marker of the job: it does not clear it, and where it gives a
schedule or the flag, the job ends up enabled. -/
def KeepsMarker (patch : CronJobPatch) (job : CronJob) : Prop :=
  (∀ state, patch.state = some state → state.runningAtMs ≠ some none) ∧
    (patch.schedule.isSome ∨ patch.enabled.isSome → patch.enabled.getD job.enabled = true)

variable {patch : CronJobPatch}

theorem applyJobPatch_marked (hk : KeepsMarker patch job) (hm : job.state.runningAtMs.isSome)
    (h : applyJobPatch job patch = .error job' ∨ applyJobPatch job patch = .ok job') :
    job'.state.runningAtMs.isSome := by
  have hstate : ((patch.state.map (·.apply job.state)).getD job.state).runningAtMs.isSome := by
    cases hp : patch.state with
    | none => exact hm
    | some state =>
      have hne := hk.1 state hp
      unfold CronJobStatePatch.apply
      cases hr : state.runningAtMs with
      | none => simpa [hr] using hm
      | some marker =>
        cases marker with
        | none => exact absurd hr hne
        | some m => simp [hr]
  unfold applyJobPatch at h
  split_ifs at h <;> simp only [Except.error.injEq, Except.ok.injEq, or_false,
    false_or] at h <;> subst h
  · exact hm
  · exact hm
  · exact hstate
  · exact hstate

/-- What a patch leaves of the flag. -/
theorem applyJobPatch_enabled (h : applyJobPatch job patch = .ok job') :
    job'.enabled = patch.enabled.getD job.enabled := by
  unfold applyJobPatch at h
  split_ifs at h
  cases h
  rfl

theorem anchorSchedule_state (patch : CronJobPatch) :
    (anchorSchedule job patch now).state = job.state ∧
      (anchorSchedule job patch now).enabled = job.enabled := by
  unfold anchorSchedule
  split <;> exact ⟨rfl, rfl⟩

theorem rescheduleJob_marked (hm : job.state.runningAtMs.isSome)
    (h : rescheduleJob deps job now = .error job' ∨ rescheduleJob deps job now = .ok job') :
    job'.state.runningAtMs.isSome := by
  unfold rescheduleJob at h
  split at h <;> rcases h with h | h <;> cases h <;> exact hm

theorem updateJob_marked (hk : KeepsMarker patch job) (hm : job.state.runningAtMs.isSome)
    (h : updateJob deps job patch now = .error job' ∨ updateJob deps job patch now = .ok job') :
    job'.state.runningAtMs.isSome := by
  unfold updateJob at h
  cases hp : applyJobPatch job patch with
  | error left =>
    rw [hp] at h
    rcases h with h | h
    · cases h
      exact applyJobPatch_marked hk hm (.inl hp)
    · cases h
  | ok patched =>
    rw [hp] at h
    have hm' := applyJobPatch_marked hk hm (.inr hp)
    have hstate : (anchorSchedule patched patch now).state = patched.state :=
      (anchorSchedule_state patch).1
    rw [← hstate] at hm'
    dsimp only [Except.bind] at h
    split_ifs at h with hgiven he hnext
    · exact rescheduleJob_marked (by exact hm') h
    · have hen : (anchorSchedule patched patch now).enabled = true := by
        rw [(anchorSchedule_state patch).2, applyJobPatch_enabled hp]
        exact hk.2 (by simpa using hgiven)
      exact absurd hen he
    · exact rescheduleJob_marked (by exact hm') h
    · rcases h with h | h
      · cases h
      · cases h
        exact hm'

end Lists

section Steps

variable {deps : CronDeps} {retry : RetryConfig} {j : String}

/-! ### The sections that start a run -/

theorem prepareManualRun_ok {s s' : CronServiceState} {io : Io} {id : String} {now : ℤ}
    (h : prepareManualRun io id now s = .ok (s', true)) :
    ∃ job, findJob id s.jobs = some job ∧ job.state.runningAtMs = none ∧
      s'.store = some (modifyJob id (markRunning now) s.jobs) ∧
      s'.file = modifyJob id (markRunning now) s.jobs := by
  unfold prepareManualRun at h
  split at h
  · cases h
  · rename_i job hjob
    split at h
    · cases h
    · rename_i hrun
      obtain ⟨written, hp, he⟩ := map_ok h
      cases he
      obtain ⟨h₁, h₂⟩ := persist_ok rfl hp
      exact ⟨job, hjob, not_isSome_iff_eq_none.mp hrun, h₁, h₂⟩

theorem collectDueJobs_ok {s s' : CronServiceState} {io : Io} {ids : List String}
    (h : collectDueJobs deps io s = .ok (s', ids)) (hne : ids ≠ []) :
    ids = (collectRunnableJobs deps .tick io.now s.file).map CronJob.id ∧
      s'.store = some (markDueJobs deps io.now io.thenNow s.file) ∧
      s'.file = markDueJobs deps io.now io.thenNow s.file := by
  obtain ⟨loaded, hl, h⟩ := bind_ok h
  have hjobs := jobs_of_store (ensureLoaded_store hl)
  rw [opened_file] at hjobs
  unfold collectInStore at h
  rw [hjobs] at h
  dsimp only at h
  split at h
  · obtain ⟨maintained, -, he⟩ := map_ok h
    cases he
    exact absurd rfl hne
  · obtain ⟨written, hp, he⟩ := map_ok h
    cases he
    exact ⟨rfl, persist_ok rfl hp⟩

/-! ### Every step keeps the ids apart and the store loaded -/

variable {s s' : CronSystem} {a : Action}

theorem next_distinct (h : OnStores DistinctIds s.service)
    (hs : next deps retry s a = some s') : OnStores DistinctIds s'.service := by
  have hopen : ∀ io, DistinctIds (s.service.opened deps false false io) := fun io =>
    h.opened fun _ => h.file.recomputed
  cases a with
  | read io =>
    cases hs
    exact ensureLoadedForRead_onStores h (h.view.maintained false)
  | add io input =>
    simp only [next] at hs
    split_ifs at hs with hfresh
    cases hs
    refine add_onStores h (hopen _) fun job hjob => ((hopen _).append ?_).recomputed
    rw [createJob_id deps hjob]
    exact opened_ids_fresh hfresh
  | update io id patch =>
    cases hs
    exact update_onStores h fun job hjob job' hjob' =>
      h.view.modify fun _ _ => by rw [updateJob_id deps hjob', findJob_id hjob]
  | remove io id =>
    cases hs
    exact remove_onStores h (hopen _) (hopen _).drop
  | preflight io id forced =>
    cases hs
    exact stepPreflight_leaves (preflight_onStores h (h.view.maintained false))
  | prepare io k =>
    obtain ⟨run, hrun, rfl⟩ := map_eq_some_iff.mp hs
    refine stepPrepare_leaves (prepareManualRun_onStores h fun job hjob _ => ?_)
    exact (onStores_jobs h hjob).modify fun _ hid => hid
  | finish io k status error endedAt =>
    obtain ⟨run, hrun, rfl⟩ := map_eq_some_iff.mp hs
    refine finish_onStores h fun job hjob => ⟨?_, DistinctIds.maintained ?_ _⟩
    · unfold finishedJobs
      dsimp only
      split_ifs
      · exact h.view.drop
      · exact h.view.modify fun _ _ => by rw [applyJobResult_id, findJob_id hjob]
    · unfold mergedJobs
      dsimp only
      split_ifs
      · exact h.file.drop
      · exact h.file.modify fun _ hid => hid
  | collect io =>
    simp only [next] at hs
    split_ifs at hs
    cases hs
    exact stepCollect_leaves (collectDueJobs_onStores h (fun _ => h.file.maintained true) h.file.markDueJobs)
  | startRun k startedAt =>
    obtain ⟨tick, htick, hs⟩ := bind_eq_some_iff.mp hs
    split at hs
    · cases hs
      exact startDueJob_onStores h fun jobs hd => hd.modify fun _ hid => hid
    · cases hs
  | endRun k status error endedAt =>
    obtain ⟨tick, htick, hs⟩ := bind_eq_some_iff.mp hs
    split at hs
    · cases hs
      exact h
    · cases hs
  | apply io =>
    obtain ⟨tick, htick, hs⟩ := bind_eq_some_iff.mp hs
    obtain ⟨outcomes, hout, rfl⟩ := map_eq_some_iff.mp hs
    exact applyTickOutcomes_onStores h (h.file.applyOutcomes.maintained false)

theorem next_loaded (h : Loaded s.service) (hs : next deps retry s a = some s') : Loaded s'.service := by
  cases a with
  | read io =>
    cases hs
    exact ensureLoadedForRead_loaded h
  | add io input =>
    simp only [next] at hs
    split_ifs at hs
    cases hs
    exact add_loaded h
  | update io id patch =>
    cases hs
    exact update_loaded h
  | remove io id =>
    cases hs
    exact remove_loaded h
  | preflight io id forced =>
    cases hs
    exact stepPreflight_leaves (preflight_loaded h)
  | prepare io k =>
    obtain ⟨run, -, rfl⟩ := map_eq_some_iff.mp hs
    exact stepPrepare_leaves (prepareManualRun_loaded h)
  | finish io k status error endedAt =>
    obtain ⟨run, -, rfl⟩ := map_eq_some_iff.mp hs
    exact finish_loaded h
  | collect io =>
    simp only [next] at hs
    split_ifs at hs
    cases hs
    exact stepCollect_leaves (collectDueJobs_loaded h)
  | startRun k startedAt =>
    obtain ⟨tick, -, hs⟩ := bind_eq_some_iff.mp hs
    split at hs
    · cases hs
      exact startDueJob_loaded h
    · cases hs
  | endRun k status error endedAt =>
    obtain ⟨tick, -, hs⟩ := bind_eq_some_iff.mp hs
    split at hs
    · cases hs
      exact h
    · cases hs
  | apply io =>
    obtain ⟨tick, -, hs⟩ := bind_eq_some_iff.mp hs
    obtain ⟨outcomes, -, rfl⟩ := map_eq_some_iff.mp hs
    exact applyTickOutcomes_loaded h

/-! ### Steps that do not disturb the runs of a job -/

/-- While a run of the job is in progress, the step does not take its marker: the recompute
pass it makes finds the job enabled and the marker not too old, and an update of the job keeps
it. The section that ends the run may. -/
def Undisturbed (deps : CronDeps) (j : String) (s : CronSystem) (a : Action) : Prop :=
  j ∈ s.executions → match a with
    | .read io => Steady j io.now s.service.view
    | .add io _ => Steady j io.thenNow s.service.view
    | .update _ id patch => id = j → ∀ job ∈ s.service.view, job.id = j → KeepsMarker patch job
    | .preflight io _ _ => Steady j io.now s.service.view
    | .finish io k _ _ _ => (∀ run, s.executing[k]? = some run → run.id ≠ j) →
        Steady j io.thenNow s.service.file
    | .collect io => collectRunnableJobs deps .tick io.now s.service.file = [] →
        Steady j io.now s.service.file
    | .apply io => j ∈ s.executing.map ManualRun.id → Steady j io.now s.service.file
    | _ => True

/-- At most one run of the job is in progress, and while one is, the job has its marker, in
memory and in the file. -/
structure Guard (j : String) (s : CronSystem) : Prop where
  /-- No two jobs have the same id. -/
  distinct : OnStores DistinctIds s.service
  /-- At most one run is in progress. -/
  once : s.executions.count j ≤ 1
  /-- While one is, the store is loaded. -/
  loaded : j ∈ s.executions → Loaded s.service
  /-- While one is, the job has its marker. -/
  marked : j ∈ s.executions → OnStores (Marked j) s.service

/-- A step that starts and ends no run of the job. -/
theorem Guard.step (h : Guard j s)
    (hs : next deps retry s a = some s') (hcount : s'.executions.count j ≤ s.executions.count j)
    (hm : j ∈ s.executions → OnStores (Marked j) s.service → j ∈ s'.executions →
      OnStores (Marked j) s'.service) : Guard j s' := by
  have hmem : j ∈ s'.executions → j ∈ s.executions := fun hj => by
    rw [← count_pos_iff] at hj ⊢
    omega
  exact ⟨next_distinct h.distinct hs, hcount.trans h.once, fun hj => next_loaded (h.loaded (hmem hj)) hs,
    fun hj => hm (hmem hj) (h.marked (hmem hj)) hj⟩

theorem Guard.start (h : Guard j s)
    (hs : next deps retry s a = some s') (hcount : s'.executions.count j ≤ 1)
    (hl : Loaded s'.service) (hm : OnStores (Marked j) s'.service) : Guard j s' :=
  ⟨next_distinct h.distinct hs, hcount, fun _ => hl, fun _ => hm⟩

theorem finish_marked {s : CronServiceState} {io : Io} {id : String} {result : JobResult} {forced : Bool}
    (h : OnStores (Marked j) s) (hne : id ≠ j) (hsteady : Steady j io.thenNow s.file) :
    Leaves (OnStores (Marked j)) (finishPreparedManualRun deps retry io id result forced s) := by
  refine finish_onStores h fun job hjob => ⟨?_, ?_⟩
  · unfold finishedJobs
    dsimp only
    split_ifs
    · exact h.view.drop
    · exact h.view.modify_ne (fun _ _ => by rw [applyJobResult_id, findJob_id hjob]) hne
  · unfold mergedJobs
    dsimp only
    split_ifs
    · exact Marked.maintained h.file.drop hsteady.drop true
    · refine Marked.maintained (h.file.modify_ne ?_ hne) (hsteady.modify_ne ?_ hne) true
      · exact fun _ hid => hid
      · exact fun _ hid => hid

theorem prepare_guard {s : CronSystem} {io : Io} {k : ℕ} {run : ManualRun} (h : Guard j s)
    (hs : next deps retry s (.prepare io k) = some (stepPrepare s io k run)) :
    Guard j (stepPrepare s io k run) := by
  have hkeep : OnStores (Marked j) s.service →
      OnStores (Marked j) (stepPrepare s io k run).service := fun hm =>
    stepPrepare_leaves (prepareManualRun_onStores hm fun job hjob _ =>
      (onStores_jobs hm hjob).modify (fun _ hid => hid) fun _ _ _ _ => rfl)
  rcases stepPrepare_executions s io k run with hex | ⟨service, hok, hservice, hex⟩
  · exact h.step hs (by rw [hex]) fun _ hm _ => hkeep hm
  · by_cases hj : run.id = j
    · obtain ⟨job, hjob, hnone, hmem, hfile⟩ := prepareManualRun_ok hok
      have hnot : j ∉ s.executions := fun hin => by
        have hm : job.state.runningAtMs.isSome :=
          onStores_jobs (h.marked hin) hjob job (findJob_mem hjob) ((findJob_id hjob).trans hj)
        rw [hnone] at hm
        cases hm
      have hmarked : Marked run.id (modifyJob run.id (markRunning run.startedAt) s.service.jobs) :=
        marked_modify_self (onStores_jobs h.distinct hjob) hjob
      rw [hj] at hmem hfile hmarked
      refine h.start hs ?_ ?_ ?_
      · rw [hex, count_append, count_eq_zero.mpr hnot, hj]
        simp
      · rw [hservice, Loaded, hmem]
        rfl
      · rw [hservice]
        exact onStores_of_store hmem hmarked (hfile ▸ hmarked)
    · refine h.step hs ?_ fun _ hm _ => hkeep hm
      rw [hex, count_append, count_singleton]
      simp [hj]

theorem collect_guard {s : CronSystem} {io : Io} (h : Guard j s) (htick : s.tick = none)
    (hp : Undisturbed deps j s (.collect io))
    (hs : next deps retry s (.collect io) = some (stepCollect deps s io)) :
    Guard j (stepCollect deps s io) := by
  have hkeep : j ∈ s.executions → OnStores (Marked j) s.service →
      OnStores (Marked j) (stepCollect deps s io).service := fun hj hm =>
    stepCollect_leaves (collectDueJobs_onStores hm
      (fun hnone => hm.file.maintained (hp hj hnone) true) hm.file.markDueJobs)
  rcases @stepCollect_executions deps s io htick with hex |
    ⟨service, ids, hok, hne, hservice, hex⟩
  · exact h.step hs (by rw [hex]) fun hj hm _ => hkeep hj hm
  · obtain ⟨rfl, hmem, hfile⟩ := collectDueJobs_ok hok hne
    by_cases hj : j ∈ (collectRunnableJobs deps .tick io.now s.service.file).map CronJob.id
    · obtain ⟨job, hjob, hid⟩ := List.mem_map.mp hj
      have hnot : j ∉ s.executions := fun hin =>
        not_marked_of_collected hjob hid (h.marked hin).file
      have hmarked : Marked j (markDueJobs deps io.now io.thenNow s.service.file) :=
        marked_markDueJobs h.distinct.file hjob hid
      have hnodup : ((collectRunnableJobs deps .tick io.now s.service.file).map
          CronJob.id).Nodup := (filter_sublist.map _).nodup h.distinct.file
      refine h.start hs ?_ ?_ ?_
      · rw [hex, count_append, count_eq_zero.mpr hnot]
        exact nodup_iff_count_le_one.mp hnodup j
      · rw [hservice, Loaded, hmem]
        rfl
      · rw [hservice]
        exact onStores_of_store hmem hmarked (hfile ▸ hmarked)
    · refine h.step hs ?_ fun hj hm _ => hkeep hj hm
      rw [hex, count_append, count_eq_zero.mpr hj, Nat.zero_add]

/-- A step that does not disturb the runs in progress of a job keeps at most one. -/
theorem next_guard (h : Guard j s)
    (hp : Undisturbed deps j s a) (hs : next deps retry s a = some s') : Guard j s' := by
  have hs₀ := hs
  cases a with
  | read io =>
    cases hs
    exact h.step hs₀ le_rfl fun hj hm _ =>
      ensureLoadedForRead_onStores hm (hm.view.maintained (hp hj) false)
  | add io input =>
    simp only [next] at hs
    split_ifs at hs with hfresh
    cases hs
    refine h.step hs₀ le_rfl fun hj hm _ => ?_
    have hview : s.service.view = s.service.jobs := by
      obtain ⟨jobs, hjobs⟩ := isSome_iff_exists.mp (h.loaded hj)
      rw [CronServiceState.view, CronServiceState.jobs, hjobs]
      rfl
    have hmj : Marked j s.service.jobs := hview ▸ hm.view
    have hsteady : Steady j io.thenNow s.service.jobs := hview ▸ hp hj
    have hne : input.id ≠ j := fun e =>
      hfresh.2 (mem_append_left _ (e ▸ hj))
    refine add_onStores hm (opened_loaded (h.loaded hj) .. ▸ hmj) fun job hjob => ?_
    have hid : job.id ≠ j := createJob_id deps hjob ▸ hne
    rw [opened_loaded (h.loaded hj)]
    exact Marked.recomputed (hmj.append hid) (hsteady.append hid)
  | update io id patch =>
    cases hs
    refine h.step hs₀ le_rfl fun hj hm _ => update_onStores hm fun job hjob job' hjob' => ?_
    refine hm.view.modify (fun _ _ => by rw [updateJob_id deps hjob', findJob_id hjob]) fun e _ _ _ => ?_
    have hjm := findJob_mem hjob
    have hji := (findJob_id hjob).trans e
    exact updateJob_marked (hp hj e job hjm hji) (hm.view job hjm hji) hjob'
  | remove io id =>
    cases hs
    refine h.step hs₀ le_rfl fun hj hm _ => ?_
    have ho : Marked j (s.service.opened deps false false io.load) := by
      refine hm.opened fun hnone => ?_
      have hl := h.loaded hj
      rw [Loaded, hnone] at hl
      cases hl
    exact remove_onStores hm ho ho.drop
  | preflight io id forced =>
    cases hs
    refine h.step hs₀ ?_ fun hj hm _ => stepPreflight_leaves
      (preflight_onStores hm (hm.view.maintained (hp hj) false))
    unfold stepPreflight
    split <;> exact le_rfl
  | prepare io k =>
    obtain ⟨run, hrun, rfl⟩ := map_eq_some_iff.mp hs
    exact prepare_guard h hs₀
  | finish io k status error endedAt =>
    obtain ⟨run, hrun, rfl⟩ := map_eq_some_iff.mp hs
    have hcount := count_eraseIdx j hrun
    have hall := h.once
    unfold CronSystem.executions at hall
    rw [count_append] at hall
    refine h.step hs₀ ?_ fun hj hm hj' => ?_
    · unfold CronSystem.executions CronSystem.tickRuns
      rw [count_append, count_append]
      dsimp only
      split_ifs at hcount <;> omega
    · have hne : run.id ≠ j := fun e => by
        rw [if_pos e] at hcount
        rw [← count_pos_iff] at hj'
        unfold CronSystem.executions CronSystem.tickRuns at hj'
        unfold CronSystem.tickRuns at hall
        rw [count_append] at hj'
        dsimp only at hj'
        omega
      refine finish_marked hm hne (hp hj fun run' hrun' => ?_)
      rw [hrun, some.injEq] at hrun'
      exact hrun' ▸ hne
  | collect io =>
    simp only [next] at hs
    split_ifs at hs with htick
    cases hs
    exact collect_guard h (not_isSome_iff_eq_none.mp htick) hp hs₀
  | startRun k startedAt =>
    obtain ⟨tick, htick, hs⟩ := bind_eq_some_iff.mp hs
    split at hs
    · rename_i id hrun
      cases hs
      refine h.step hs₀ (le_of_eq ?_) fun _ hm _ => startDueJob_onStores hm fun jobs hmj =>
        hmj.modify (fun _ hid => hid) fun _ _ _ _ => rfl
      unfold CronSystem.executions CronSystem.tickRuns
      rw [htick]
      dsimp only [map_some, getD_some]
      rw [ids_set hrun]
    · cases hs
  | endRun k status error endedAt =>
    obtain ⟨tick, htick, hs⟩ := bind_eq_some_iff.mp hs
    split at hs
    · rename_i id startedAt hrun
      cases hs
      refine h.step hs₀ (le_of_eq ?_) fun _ hm _ => hm
      unfold CronSystem.executions CronSystem.tickRuns
      rw [htick]
      dsimp only [map_some, getD_some]
      rw [ids_set hrun]
    · cases hs
  | apply io =>
    obtain ⟨tick, htick, hs⟩ := bind_eq_some_iff.mp hs
    obtain ⟨outcomes, hout, rfl⟩ := map_eq_some_iff.mp hs
    have hex : s.executions = tick.runs.map TickRun.id ++ s.executing.map ManualRun.id := by
      unfold CronSystem.executions CronSystem.tickRuns
      rw [htick]
      rfl
    refine h.step hs₀ ?_ fun hj hm hj' => ?_
    · rw [hex, count_append]
      exact Nat.le_add_left ..
    · have hin : j ∈ s.executing.map ManualRun.id := hj'
      have hnot : j ∉ outcomes.map Prod.fst := fun hmem => by
        have hall := h.once
        rw [ids_outcomesOf hout] at hmem
        rw [hex, count_append] at hall
        have h₁ := count_pos_iff.mpr hmem
        have h₂ := count_pos_iff.mpr hin
        omega
      exact applyTickOutcomes_onStores hm (Marked.maintained (hm.file.applyOutcomes hnot)
        ((hp hj hin).applyOutcomes hnot) false)

/-! ### A run -/

/-- Over any run that starts with no execution in progress and whose steps do not disturb the
executions of a job, at most one execution of the job is in progress. -/
theorem at_most_one_execution {s t : CronSystem} {as : List Action} (hidle : s.executions = [])
    (hids : OnStores DistinctIds s.service) (hp : Meets (next deps retry) (Undisturbed deps j) s as)
    (h : exec (next deps retry) s as = some t) : t.executions.count j ≤ 1 := by
  have hstart : Guard j s := by
    refine ⟨hids, ?_, fun hj => ?_, fun hj => ?_⟩
    · rw [hidle]
      exact Nat.zero_le _
    all_goals
      rw [hidle] at hj
      cases hj
  exact (exec_invariant_of_meets (fun _ _ _ => next_guard) hp hstart h).once

end Steps

/-! ### A forced run of a disabled job -/

/-- A disabled job. -/
def disabledJob : CronJobCreate := { everyMinute "a" with enabled := some false }

/-- A forced run of a job, up to its execution. -/
def forceRun (now : ℤ) : List Action := [.preflight (ioAt now) "a" true, .prepare (ioAt now) 0]

/-- A job that is enabled is forced to run and read; a second forced run finds it running. -/
theorem at_most_one_execution_enabled :
    ∃ t, exec (next noCron defaultRetry) emptySystem
        ([.add (ioAt 0) (everyMinute "a")] ++ forceRun 1000 ++
          [.read (ioAt 2000), .preflight (ioAt 3000) "a" true]) = some t ∧
      t.executions = ["a"] ∧ t.executions.count "a" ≤ 1 := by
  have hrun : exec (next noCron defaultRetry) emptySystem
      ([.add (ioAt 0) (everyMinute "a")] ++ forceRun 1000 ++
        [.read (ioAt 2000), .preflight (ioAt 3000) "a" true]) = some _ := rfl
  refine ⟨_, rfl, rfl, at_most_one_execution rfl ?_ ?_ hrun⟩
  · exact ⟨fun _ h => (by cases h), nodup_nil⟩
  · have hsteady : ∀ now : ℤ, now ≤ 3000 → ∀ job : CronJob, job.enabled = true →
        job.state.runningAtMs = some 1000 → job.enabled = true ∧ isStuck job now = false := by
      intro now hnow job he hr
      refine ⟨he, ?_⟩
      rw [isStuck, hr]
      simp [STUCK_RUN_MS]
      omega
    refine Meets.cons (fun h => (by cases h)) rfl (Meets.cons (fun h => (by cases h)) rfl
      (Meets.cons (fun _ => trivial) rfl (Meets.cons (fun _ job hjob _ => ?_) rfl
        (Meets.cons (fun _ job hjob _ => ?_) rfl trivial))))
    · rw [mem_singleton.mp hjob]
      exact hsteady _ (by decide) _ rfl rfl
    · rw [mem_singleton.mp hjob]
      exact hsteady _ (by decide) _ rfl rfl

/-- A disabled job is forced to run. Any read clears its marker, so that it can be forced to
run once more while the first run is in progress. -/
theorem forced_run_overlaps :
    ∃ t, exec (next noCron defaultRetry) emptySystem
        ([.add (ioAt 0) disabledJob] ++ forceRun 1000 ++ [.read (ioAt 2000)] ++ forceRun 3000) =
          some t ∧ t.executions.count "a" = 2 :=
  ⟨_, rfl, rfl⟩

end Foxclaw.Cron
