import Foxclaw.Cron.Ops

/-!
# What a locked section leaves in the stores

A section of the cron service works on a list of jobs, in memory or freshly read, and may
write it to the file. Whether it ends or throws half way, memory and file each hold one of
the few lists that it went through. So a property of lists of jobs holds of both afterwards
when it holds of these lists.

## What is proved

* `ensureLoadedForRead_onStores` ... `applyTickOutcomes_onStores` — one rule for each
  section: a property of lists that holds of the lists the section goes through holds of
  memory and file when the section ends or throws (`OnStores`, `Leaves`).
-/

namespace Foxclaw.Cron

open Option

/-! ### Results of sections -/

/-- The state a section leaves when it ends or throws. -/
def Outcome.left : Outcome → CronServiceState
  | .ok s => s
  | .error s => s

/-- The section leaves a state with the property `P`, whether it ends or throws. -/
def Leaves (P : CronServiceState → Prop) (o : Outcome) : Prop := P o.left

/-- The same of a section with a result. -/
def LeavesWith {α : Type} (P : CronServiceState → Prop)
    (o : Except CronServiceState (CronServiceState × α)) : Prop := Leaves P (o.map Prod.fst)

section Rules

variable {P : CronServiceState → Prop} {α : Type}

theorem leavesWith_map {o : Outcome} {a : α} (h : Leaves P o) : LeavesWith P (o.map (·, a)) := by
  cases o with
  | ok s => exact h
  | error s => exact h

theorem leaves_bind {o : Outcome} {f : CronServiceState → Outcome} (herr : ∀ s, o = .error s → P s)
    (hok : ∀ s, o = .ok s → Leaves P (f s)) : Leaves P (o.bind f) := by
  cases o with
  | ok s => exact hok s rfl
  | error s => exact herr s rfl

theorem leavesWith_bind {o : Outcome}
    {f : CronServiceState → Except CronServiceState (CronServiceState × α)} (herr : ∀ s, o = .error s → P s)
    (hok : ∀ s, o = .ok s → LeavesWith P (f s)) : LeavesWith P (o.bind f) := by
  cases o with
  | ok s => exact hok s rfl
  | error s => exact herr s rfl

end Rules

/-! ### Memory and file -/

/-- The property `Q` holds of the jobs in memory, if they were loaded, and of those in the
file. -/
structure OnStores (Q : List CronJob → Prop) (s : CronServiceState) : Prop where
  /-- In memory. -/
  memory : ∀ jobs, s.store = some jobs → Q jobs
  /-- In the file. -/
  file : Q s.file

/-- The jobs a section works with that does not ask for them to be recomputed: those in
memory, or those it reads. -/
def CronServiceState.view (s : CronServiceState) : List CronJob := s.store.getD s.file

section Sections

variable {Q : List CronJob → Prop} {deps : CronDeps} {retry : RetryConfig}

variable {s : CronServiceState}

theorem OnStores.view (h : OnStores Q s) : Q s.view := by
  unfold CronServiceState.view
  cases hs : s.store with
  | none => exact h.file
  | some jobs => exact h.memory jobs hs

theorem jobs_withJobs (s : CronServiceState) (jobs : List CronJob) :
    (s.withJobs jobs).jobs = jobs := rfl

theorem OnStores.withJobs {jobs : List CronJob} (hf : Q s.file) (h : Q jobs) : OnStores Q (s.withJobs jobs) :=
  ⟨fun _ hj => by cases hj; exact h, hf⟩

theorem persist_onStores (h : OnStores Q s) (fails : Bool) : Leaves (OnStores Q) (persist fails s) := by
  unfold persist
  split
  · exact h
  · rename_i jobs hs
    cases fails with
    | true => exact h
    | false => exact ⟨h.memory, h.memory jobs hs⟩

/-- A write that does not throw leaves the jobs of memory in the file. -/
theorem persist_ok {s s' : CronServiceState} {jobs : List CronJob} {fails : Bool} (hs : s.store = some jobs)
    (h : persist fails s = .ok s') : s'.store = some jobs ∧ s'.file = jobs := by
  unfold persist at h
  rw [hs] at h
  dsimp only at h
  split at h
  · cases h
  · cases h
    exact ⟨rfl, rfl⟩

theorem persist_withJobs {jobs : List CronJob} (hf : Q s.file)
    (h : Q jobs) (fails : Bool) : Leaves (OnStores Q) (persist fails (s.withJobs jobs)) :=
  persist_onStores (OnStores.withJobs hf h) fails

theorem jobs_of_store {jobs : List CronJob} (h : s.store = some jobs) : s.jobs = jobs := by
  unfold CronServiceState.jobs
  rw [h]
  rfl

/-! ### Loading -/

/-- The jobs that `ensureLoaded` leaves in memory when it does not throw. -/
def CronServiceState.opened (deps : CronDeps) (force skip : Bool) (io : LoadIo)
    (s : CronServiceState) : List CronJob :=
  if s.store.isSome && !force then s.jobs
  else if skip then s.file
  else (recomputeNextRuns deps io.now s.file).1

theorem opened_view (s : CronServiceState) (io : LoadIo) : s.opened deps false true io = s.view := by
  unfold CronServiceState.opened CronServiceState.view CronServiceState.jobs
  cases s.store <;> rfl

theorem opened_file (s : CronServiceState) (io : LoadIo) : s.opened deps true true io = s.file := by
  unfold CronServiceState.opened
  simp

theorem opened_loaded (h : s.store.isSome) (skip : Bool) (io : LoadIo) :
    s.opened deps false skip io = s.jobs := by
  unfold CronServiceState.opened
  simp [h]

theorem opened_unloaded (h : s.store = none) (io : LoadIo) :
    s.opened deps false false io = (recomputeNextRuns deps io.now s.file).1 := by
  unfold CronServiceState.opened
  rw [h, if_neg (by simp), if_neg (by simp)]

/-- The jobs that `add` and `remove` work with are those of memory or of the file, recomputed. -/
theorem OnStores.opened {io : LoadIo} (h : OnStores Q s)
    (hre : s.store = none → Q (recomputeNextRuns deps io.now s.file).1) :
    Q (s.opened deps false false io) := by
  cases hs : s.store with
  | some jobs =>
    rw [opened_loaded (by simp [hs]), jobs_of_store hs]
    exact h.memory jobs hs
  | none =>
    rw [opened_unloaded hs]
    exact hre hs

theorem ensureLoaded_loaded (h : s.store.isSome) (skip : Bool)
    (io : LoadIo) : ensureLoaded deps false skip io s = .ok s := by
  unfold ensureLoaded
  simp [h]

variable {force skip : Bool}

/-- What is in memory and in the file after `ensureLoaded`. -/
theorem ensureLoaded_onStores {io : LoadIo} (h : OnStores Q s) (ho : Q (s.opened deps force skip io)) :
    (∀ s', ensureLoaded deps force skip io s = .error s' → OnStores Q s') ∧
      ∀ s', ensureLoaded deps force skip io s = .ok s' →
        s'.store = some (s.opened deps force skip io) ∧ Q s'.file := by
  unfold CronServiceState.opened at ho ⊢
  unfold ensureLoaded
  by_cases hc : (s.store.isSome && !force) = true
  · obtain ⟨jobs, hs⟩ := isSome_iff_exists.mp (Bool.and_eq_true .. ▸ hc).1
    rw [if_pos hc, if_pos hc]
    refine ⟨fun _ he => (by cases he), fun s' he => ?_⟩
    cases he
    exact ⟨by simp [CronServiceState.jobs, hs], h.file⟩
  · rw [if_neg hc] at ho
    rw [if_neg hc, if_neg hc]
    by_cases hio : io.fails = true
    · rw [if_pos hio]
      exact ⟨fun s' he => by cases he; exact h, fun _ he => by cases he⟩
    · rw [if_neg hio]
      have hmem : (if skip then loadedState s else recomputedState deps io.now (loadedState s)) =
          { s with
            store := some (if skip then s.file else (recomputeNextRuns deps io.now s.file).1)
            loads := s.loads + 1 } := by
        cases skip <;> rfl
      simp only [hmem]
      generalize (if skip then s.file else (recomputeNextRuns deps io.now s.file).1) = jobs at ho
      have hon : OnStores Q { s with store := some jobs, loads := s.loads + 1 } :=
        ⟨fun _ hj => by cases hj; exact ho, h.file⟩
      by_cases hm : io.mutated = true
      · rw [if_pos hm]
        unfold persist
        cases io.persistFails with
        | true => exact ⟨fun s' he => by cases he; exact hon, fun _ he => by cases he⟩
        | false => exact ⟨fun _ he => (by cases he), fun s' he => by cases he; exact ⟨rfl, ho⟩⟩
      · rw [if_neg hm]
        exact ⟨fun _ he => (by cases he), fun s' he => by cases he; exact ⟨rfl, h.file⟩⟩

/-- A read without a recompute leaves the file as it is, as it writes back what it read. -/
theorem ensureLoaded_skip_file {s s' : CronServiceState} {force : Bool} {io : LoadIo}
    (h : ensureLoaded deps force true io s = .ok s') : s'.file = s.file := by
  unfold ensureLoaded at h
  split at h
  · cases h; rfl
  · split at h
    · cases h
    · dsimp only at h
      split at h
      · unfold persist at h
        split at h
        · cases h; rfl
        · rename_i jobs hs
          split at h
          · cases h
          · cases h
            exact (some.inj hs).symm
      · cases h; rfl

theorem ensureLoaded_store {s s' : CronServiceState} {io : LoadIo}
    (h : ensureLoaded deps force skip io s = .ok s') : s'.store = some (s.opened deps force skip io) :=
  ((ensureLoaded_onStores (Q := fun _ => True) ⟨fun _ _ => trivial, trivial⟩ trivial).2 s' h).1

/-- A store that was loaded stays loaded. -/
def Loaded (s : CronServiceState) : Prop := s.store.isSome

theorem persist_loaded (h : Loaded s) (fails : Bool) : Leaves Loaded (persist fails s) := by
  unfold persist
  split
  · exact h
  · cases fails <;> exact h

theorem ensureLoaded_leaves_loaded (h : Loaded s) (force skip : Bool)
    (io : LoadIo) : Leaves Loaded (ensureLoaded deps force skip io s) := by
  unfold ensureLoaded
  split
  · exact h
  · split
    · exact h
    · have hloaded : Loaded (if skip then loadedState s else
          recomputedState deps io.now (loadedState s)) := by
        split <;> rfl
      dsimp only
      split
      · exact persist_loaded hloaded _
      · exact hloaded

/-- The rule for a section that loads the store first, when it was loaded before. -/
theorem leaves_loaded {io : LoadIo}
    {f : CronServiceState → Outcome} (h : Loaded s) (hf : ∀ s', Loaded s' → Leaves Loaded (f s')) :
    Leaves Loaded ((ensureLoaded deps force skip io s).bind f) := by
  have hl : Leaves Loaded (ensureLoaded deps force skip io s) :=
    ensureLoaded_leaves_loaded h force skip io
  exact leaves_bind (fun s' he => by rw [he] at hl; exact hl) fun s' he => hf s' (by rw [he] at hl; exact hl)

theorem leavesWith_loaded {α : Type} {io : LoadIo}
    {f : CronServiceState → Except CronServiceState (CronServiceState × α)} (h : Loaded s)
    (hf : ∀ s', Loaded s' → LeavesWith Loaded (f s')) :
    LeavesWith Loaded ((ensureLoaded deps force skip io s).bind f) := by
  have hl : Leaves Loaded (ensureLoaded deps force skip io s) :=
    ensureLoaded_leaves_loaded h force skip io
  exact leavesWith_bind (fun s' he => by rw [he] at hl; exact hl)
    fun s' he => hf s' (by rw [he] at hl; exact hl)

variable (h : OnStores Q s)
include h

/-- The rule for a section that loads the store first. -/
theorem leaves_ensureLoaded {io : LoadIo} {f : CronServiceState → Outcome}
    (ho : Q (s.opened deps force skip io))
    (hf : ∀ s', s'.store = some (s.opened deps force skip io) → Q s'.file → Leaves (OnStores Q) (f s')) :
    Leaves (OnStores Q) ((ensureLoaded deps force skip io s).bind f) := by
  have hl := ensureLoaded_onStores h ho
  exact leaves_bind hl.1 fun s' hs' => hf s' (hl.2 s' hs').1 (hl.2 s' hs').2

/-- The rule for a section with a result that loads the store first. -/
theorem leavesWith_ensureLoaded {α : Type} {io : LoadIo}
    {f : CronServiceState → Except CronServiceState (CronServiceState × α)}
    (ho : Q (s.opened deps force skip io))
    (hf : ∀ s', s'.store = some (s.opened deps force skip io) → Q s'.file → LeavesWith (OnStores Q) (f s')) :
    LeavesWith (OnStores Q) ((ensureLoaded deps force skip io s).bind f) := by
  have hl := ensureLoaded_onStores h ho
  exact leavesWith_bind hl.1 fun s' hs' => hf s' (hl.2 s' hs').1 (hl.2 s' hs').2

/-! ### The sections -/

/-- The jobs after `recomputeNextRunsForMaintenance`. -/
abbrev maintained (deps : CronDeps) (recomputeExpired : Bool) (nowMs : ℤ)
    (jobs : List CronJob) : List CronJob :=
  (recomputeNextRunsForMaintenance deps recomputeExpired nowMs jobs).1

omit h in
theorem onStores_of_store {jobs : List CronJob} (h : s.store = some jobs)
    (hj : Q jobs) (hf : Q s.file) : OnStores Q s :=
  ⟨fun _ hs => by rw [h] at hs; cases hs; exact hj, hf⟩

theorem maintainAndPersist_onStores {recomputeExpired : Bool} {nowMs : ℤ}
    (hm : Q (maintained deps recomputeExpired nowMs s.jobs)) (fails : Bool) :
    Leaves (OnStores Q) (maintainAndPersist deps recomputeExpired nowMs fails s) := by
  unfold maintainAndPersist
  dsimp only
  split
  · exact persist_withJobs h.file hm fails
  · exact h

theorem ensureLoadedForRead_onStores {io : Io} (hm : Q (maintained deps false io.now s.view)) :
    Leaves (OnStores Q) (ensureLoadedForRead deps io s) := by
  have hv : Q (s.opened deps false true io.load) := opened_view s io.load ▸ h.view
  refine leaves_ensureLoaded h hv fun s' hs' hf => ?_
  refine maintainAndPersist_onStores (onStores_of_store hs' hv hf) ?_ _
  rw [jobs_of_store hs', opened_view]
  exact hm

theorem add_onStores {io : Io} {input : CronJobCreate}
    (ho : Q (s.opened deps false false io.load))
    (hadd : ∀ job, createJob deps io.now input = .ok job →
      Q (recomputeNextRuns deps io.thenNow (s.opened deps false false io.load ++ [job])).1) :
    Leaves (OnStores Q) (add deps io input s) := by
  refine leaves_ensureLoaded h ho fun s' hs' hf => ?_
  unfold addToStore
  split
  · exact onStores_of_store hs' ho hf
  · rename_i job hjob
    refine persist_withJobs hf ?_ _
    rw [jobs_withJobs, jobs_of_store hs']
    exact hadd job hjob

theorem update_onStores {io : Io} {id : String} {patch : CronJobPatch}
    (hu : ∀ job, findJob id s.view = some job → ∀ job',
      updateJob deps job patch io.now = .error job' ∨
        updateJob deps job patch io.now = .ok job' →
      Q (modifyJob id (fun _ => job') s.view)) :
    Leaves (OnStores Q) (update deps io id patch s) := by
  have hv : Q (s.opened deps false true io.load) := opened_view s io.load ▸ h.view
  refine leaves_ensureLoaded h hv fun s' hs' hf => ?_
  have hjobs : s'.jobs = s.view := (jobs_of_store hs').trans (opened_view s io.load)
  unfold updateInStore
  rw [hjobs]
  split
  · exact onStores_of_store hs' hv hf
  · rename_i job hjob
    split
    · rename_i left hleft
      exact OnStores.withJobs hf (hu job hjob left (.inl hleft))
    · rename_i updated hup
      exact persist_withJobs hf (hu job hjob updated (.inr hup)) _

theorem remove_onStores {io : Io} {id : String} (ho : Q (s.opened deps false false io.load))
    (hd : Q (dropJob id (s.opened deps false false io.load))) :
    Leaves (OnStores Q) (remove deps io id s) := by
  refine leaves_ensureLoaded h ho fun s' hs' hf => persist_withJobs hf ?_ _
  rw [jobs_of_store hs']
  exact hd

variable {forced : Bool}

theorem preflight_onStores {io : Io} {id : String} (hm : Q (maintained deps false io.now s.view)) :
    LeavesWith (OnStores Q) (inspectManualRunPreflight deps io id forced s) := by
  have hv : Q (s.opened deps false true io.load) := opened_view s io.load ▸ h.view
  refine leavesWith_ensureLoaded h hv fun s' hs' hf => ?_
  have hon : OnStores Q (maintainedState deps false io.now s') := by
    refine OnStores.withJobs hf ?_
    rw [jobs_of_store hs', opened_view]
    exact hm
  dsimp only
  split
  · exact hon
  · exact hon

theorem prepareManualRun_onStores {io : Io} {id : String} {now : ℤ}
    (hm : ∀ job, findJob id s.jobs = some job → job.state.runningAtMs = none →
      Q (modifyJob id (markRunning now) s.jobs)) :
    LeavesWith (OnStores Q) (prepareManualRun io id now s) := by
  unfold prepareManualRun
  split
  · exact h
  · rename_i job hjob
    split
    · exact h
    · rename_i hrun
      exact leavesWith_map (persist_withJobs h.file (hm job hjob (not_isSome_iff_eq_none.mp hrun)) _)

/-- The jobs in memory when the outcome of a manual run was applied. -/
def finishedJobs (deps : CronDeps) (retry : RetryConfig) (id : String) (job : CronJob)
    (result : JobResult) (forced : Bool) (jobs : List CronJob) : List CronJob :=
  let applied := applyJobResult deps retry job result forced
  if applied.2 then dropJob id jobs else modifyJob id (fun _ => applied.1) jobs

/-- The jobs in memory when the snapshot of a manual run was merged. -/
def mergedJobs (deps : CronDeps) (retry : RetryConfig) (id : String) (job : CronJob)
    (result : JobResult) (forced : Bool) (jobs : List CronJob) : List CronJob :=
  let applied := applyJobResult deps retry job result forced
  if applied.2 then dropJob id jobs
  else modifyJob id (fun job => { job with
    enabled := applied.1.enabled, updatedAtMs := applied.1.updatedAtMs
    state := applied.1.state }) jobs

theorem finish_onStores {io : Io} {id : String} {result : JobResult}
    (hfin : ∀ job, findJob id s.view = some job →
      Q (finishedJobs deps retry id job result forced s.view) ∧
        Q (maintained deps true io.thenNow (mergedJobs deps retry id job result forced s.file))) :
    Leaves (OnStores Q) (finishPreparedManualRun deps retry io id result forced s) := by
  have hopened : Q (s.opened deps false true io.load) := opened_view s io.load ▸ h.view
  have hl := ensureLoaded_onStores h hopened
  refine leaves_bind hl.1 fun s' he => ?_
  have hs' : s'.store = some s.view := opened_view s io.load ▸ (hl.2 s' he).1
  have hfile : s'.file = s.file := ensureLoaded_skip_file he
  unfold finishInStore
  rw [jobs_of_store hs']
  split
  · exact onStores_of_store hs' h.view (hl.2 s' he).2
  · rename_i job hjob
    obtain ⟨hdone, hmerged⟩ := hfin job hjob
    have hon : OnStores Q (s'.withJobs (finishedJobs deps retry id job result forced s.view)) :=
      OnStores.withJobs (hl.2 s' he).2 hdone
    refine leaves_ensureLoaded hon (opened_file _ io.reload ▸ hon.file) fun s'' hs'' hf => ?_
    rw [opened_file] at hs''
    refine persist_withJobs ?_ ?_ _
    · unfold mergeManualRunSnapshotAfterReload
      split <;> exact hf
    · have hmem : s''.jobs = s.file := (jobs_of_store hs'').trans hfile
      unfold mergeManualRunSnapshotAfterReload
      unfold mergedJobs at hmerged
      by_cases hd : (applyJobResult deps retry job result forced).2 = true
      · rw [if_pos hd] at hmerged ⊢
        rw [jobs_withJobs, hmem]
        exact hmerged
      · rw [if_neg hd] at hmerged ⊢
        rw [jobs_withJobs, hmem]
        exact hmerged

theorem collectDueJobs_onStores {io : Io}
    (hnone : collectRunnableJobs deps .tick io.now s.file = [] → Q (maintained deps true io.now s.file))
    (hdue : Q (markDueJobs deps io.now io.thenNow s.file)) :
    LeavesWith (OnStores Q) (collectDueJobs deps io s) := by
  refine leavesWith_ensureLoaded h (opened_file s io.load ▸ h.file) fun s' hs' hf => ?_
  rw [opened_file] at hs'
  unfold collectInStore
  rw [jobs_of_store hs']
  dsimp only
  split
  · rename_i hd
    refine leavesWith_map (maintainAndPersist_onStores (onStores_of_store hs' h.file hf) ?_ _)
    rw [jobs_of_store hs']
    exact hnone hd
  · exact leavesWith_map (persist_withJobs hf hdue _)

theorem startDueJob_onStores {id : String} {loads : ℕ} {startedAt : ℤ}
    (hm : ∀ jobs, Q jobs → Q (modifyJob id (fun job =>
      { job with state := { job.state with runningAtMs := some startedAt } }) jobs)) :
    OnStores Q (startDueJob id loads startedAt s) := by
  unfold startDueJob
  split
  · refine ⟨fun jobs hj => ?_, h.file⟩
    obtain ⟨jobs', hs, rfl⟩ := map_eq_some_iff.mp hj
    exact hm jobs' (h.memory jobs' hs)
  · exact h

theorem applyTickOutcomes_onStores {io : Io} {outcomes : List (String × JobResult)}
    (hm : Q (maintained deps false io.now (outcomes.foldl (applyOutcomeToStoredJob deps retry) s.file))) :
    Leaves (OnStores Q) (applyTickOutcomes deps retry io outcomes s) := by
  refine leaves_ensureLoaded h (opened_file s io.load ▸ h.file) fun s' hs' hf => ?_
  rw [opened_file] at hs'
  unfold applyInStore
  refine persist_withJobs hf ?_ _
  rw [jobs_withJobs, jobs_of_store hs']
  exact hm

omit h

/-! ### The sections keep the store loaded -/

theorem loaded_withJobs (s : CronServiceState) (jobs : List CronJob) : Loaded (s.withJobs jobs) := by
  unfold Loaded
  rfl

theorem persist_withJobs_loaded (s : CronServiceState) (jobs : List CronJob) (fails : Bool) :
    Leaves Loaded (persist fails (s.withJobs jobs)) := persist_loaded (loaded_withJobs s jobs) fails

theorem maintainAndPersist_loaded (h : Loaded s) (recomputeExpired : Bool) (nowMs : ℤ) (fails : Bool) :
    Leaves Loaded (maintainAndPersist deps recomputeExpired nowMs fails s) := by
  unfold maintainAndPersist
  dsimp only
  split
  · exact persist_withJobs_loaded ..
  · exact h

theorem ensureLoadedForRead_loaded {io : Io} (h : Loaded s) : Leaves Loaded (ensureLoadedForRead deps io s) :=
  leaves_loaded h fun _ hs => maintainAndPersist_loaded hs ..

theorem add_loaded {io : Io} {input : CronJobCreate} (h : Loaded s) :
    Leaves Loaded (add deps io input s) := by
  refine leaves_loaded h fun s' hs => ?_
  unfold addToStore
  split
  · exact hs
  · exact persist_withJobs_loaded ..

theorem update_loaded {io : Io} {id : String} {patch : CronJobPatch}
    (h : Loaded s) : Leaves Loaded (update deps io id patch s) := by
  refine leaves_loaded h fun s' hs => ?_
  unfold updateInStore
  split
  · exact hs
  · split
    · exact loaded_withJobs ..
    · exact persist_withJobs_loaded ..

theorem remove_loaded {io : Io} {id : String} (h : Loaded s) : Leaves Loaded (remove deps io id s) :=
  leaves_loaded h fun _ _ => persist_withJobs_loaded ..

theorem preflight_loaded {io : Io} {id : String}
    (h : Loaded s) : LeavesWith Loaded (inspectManualRunPreflight deps io id forced s) := by
  refine leavesWith_loaded h fun s' _ => ?_
  dsimp only
  split
  · exact loaded_withJobs ..
  · exact loaded_withJobs ..

theorem prepareManualRun_loaded {io : Io} {id : String} {now : ℤ}
    (h : Loaded s) : LeavesWith Loaded (prepareManualRun io id now s) := by
  unfold prepareManualRun
  split
  · exact h
  · split
    · exact h
    · exact leavesWith_map (persist_withJobs_loaded ..)

theorem finish_loaded {io : Io} {id : String} {result : JobResult} (h : Loaded s) :
    Leaves Loaded (finishPreparedManualRun deps retry io id result forced s) := by
  refine leaves_loaded h fun s' hs => ?_
  unfold finishInStore
  split
  · exact hs
  · exact leaves_loaded (loaded_withJobs ..) fun _ _ => persist_withJobs_loaded ..

theorem collectDueJobs_loaded {io : Io} (h : Loaded s) : LeavesWith Loaded (collectDueJobs deps io s) := by
  refine leavesWith_loaded h fun s' hs => ?_
  unfold collectInStore
  dsimp only
  split
  · exact leavesWith_map (maintainAndPersist_loaded hs ..)
  · exact leavesWith_map (persist_withJobs_loaded ..)

theorem startDueJob_loaded {id : String} {loads : ℕ} {startedAt : ℤ}
    (h : Loaded s) : Loaded (startDueJob id loads startedAt s) := by
  unfold startDueJob
  split
  · unfold Loaded at h ⊢
    rw [isSome_map]
    exact h
  · exact h

theorem applyTickOutcomes_loaded {io : Io} {outcomes : List (String × JobResult)} (h : Loaded s) :
    Leaves Loaded (applyTickOutcomes deps retry io outcomes s) :=
  leaves_loaded h fun _ _ => persist_withJobs_loaded ..

end Sections

end Foxclaw.Cron
