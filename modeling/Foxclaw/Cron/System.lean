import Foxclaw.Lib.Runs
import Foxclaw.Cron.Sections
import Mathlib.Data.List.Nodup
import Mathlib.Data.List.Perm.Basic

/-!
# The cron service, step by step

This module puts the locked sections together: operations, manual runs and timer ticks, whose
sections come in any order, with the executions of jobs between them.

## The model

The lock makes a section one step (`Action`, `next`). A manual run has three sections; between
the first two it waits, and between the last two its job executes. A timer tick has two, and
between them the jobs it collected start and end, in any order and any number at a time.
A second tick returns at once while there is one (`state.running`), so it makes no step.

`randomUUID` draws an id that was not used before.
-/

namespace Foxclaw.Cron

open List

/-- A manual run whose preflight found the job ready. -/
structure ManualRun where
  id : String
  forced : Bool
  /-- When the preflight found it ready: the time of the marker. -/
  startedAt : ℤ

/-- How far a tick has come with one of its jobs. -/
inductive TickPhase where
  | collected
  /-- `runDueJob` has started it. -/
  | started (startedAt : ℤ)
  | ended (result : JobResult)

/-- One of the jobs of a tick. -/
structure TickRun where
  id : String
  /-- How far the tick has come with it. -/
  phase : TickPhase

/-- A tick that has jobs to run. -/
structure Tick where
  /-- How often the file had been read when the jobs were collected. -/
  loads : ℕ
  runs : List TickRun

/-- The service with the runs that are under way. -/
structure CronSystem where
  service : CronServiceState
  tick : Option Tick
  /-- The manual runs between their first two sections. -/
  waiting : List ManualRun
  /-- The manual runs between their last two sections. -/
  executing : List ManualRun

/-- The jobs of the tick under way. -/
def CronSystem.tickRuns (s : CronSystem) : List TickRun := (s.tick.map Tick.runs).getD []

/-- The jobs with an execution in progress: from the section that set the marker to the
section that applies the outcome. -/
def CronSystem.executions (s : CronSystem) : List String :=
  s.tickRuns.map TickRun.id ++ s.executing.map ManualRun.id

/-- One step. -/
inductive Action where
  /-- `status`, `list` or `listPage`. -/
  | read (io : Io)
  | add (io : Io) (input : CronJobCreate)
  | update (io : Io) (id : String) (patch : CronJobPatch)
  | remove (io : Io) (id : String)
  | preflight (io : Io) (id : String) (forced : Bool)
  /-- The second section of the `k`-th manual run that waits. -/
  | prepare (io : Io) (k : ℕ)
  /-- The last section of the `k`-th manual run whose job executes. -/
  | finish (io : Io) (k : ℕ) (status : CronRunStatus) (error : Option String) (endedAt : ℤ)
  | collect (io : Io)
  /-- The tick starts its `k`-th job. -/
  | startRun (k : ℕ) (startedAt : ℤ)
  /-- The `k`-th job of the tick ends. -/
  | endRun (k : ℕ) (status : CronRunStatus) (error : Option String) (endedAt : ℤ)
  /-- The second section of the tick. -/
  | apply (io : Io)

/-- No job in the stores has the id, and no run under way is a run of it. -/
def CronSystem.Fresh (s : CronSystem) (id : String) : Prop :=
  id ∉ (s.service.jobs ++ s.service.file).map CronJob.id ∧
    id ∉ s.executions ++ s.waiting.map ManualRun.id

instance (s : CronSystem) (id : String) : Decidable (s.Fresh id) :=
  inferInstanceAs (Decidable (_ ∧ _))

/-- The outcomes of a tick, when all its jobs have ended. -/
def outcomesOf : List TickRun → Option (List (String × JobResult))
  | [] => some []
  | ⟨id, .ended result⟩ :: runs => (outcomesOf runs).map ((id, result) :: ·)
  | _ :: _ => none

section Steps

variable (deps : CronDeps) (retry : RetryConfig)

/-- The preflight of a manual run, which waits if its job is ready. -/
def stepPreflight (s : CronSystem) (io : Io) (id : String) (forced : Bool) : CronSystem :=
  match inspectManualRunPreflight deps io id forced s.service with
  | .error service => { s with service }
  | .ok (service, none) => { s with service }
  | .ok (service, some now) => { s with service, waiting := s.waiting ++ [⟨id, forced, now⟩] }

/-- The second section of a manual run, whose job executes if it is still ready. -/
def stepPrepare (s : CronSystem) (io : Io) (k : ℕ) (run : ManualRun) : CronSystem :=
  let s := { s with waiting := s.waiting.eraseIdx k }
  match prepareManualRun io run.id run.startedAt s.service with
  | .error service => { s with service }
  | .ok (service, false) => { s with service }
  | .ok (service, true) => { s with service, executing := s.executing ++ [run] }

/-- The first section of a tick. -/
def stepCollect (s : CronSystem) (io : Io) : CronSystem :=
  match collectDueJobs deps io s.service with
  | .error service => { s with service }
  | .ok (service, ids) =>
    { s with
      service
      tick := if ids = [] then none else some ⟨service.loads, ids.map (⟨·, .collected⟩)⟩ }

def next (s : CronSystem) : Action → Option CronSystem
  | .read io => some { s with service := (ensureLoadedForRead deps io s.service).left }
  | .add io input =>
    if s.Fresh input.id then some { s with service := (add deps io input s.service).left }
    else none
  | .update io id patch =>
    some { s with service := (update deps io id patch s.service).left }
  | .remove io id => some { s with service := (remove deps io id s.service).left }
  | .preflight io id forced => some (stepPreflight deps s io id forced)
  | .prepare io k => s.waiting[k]?.map (stepPrepare s io k)
  | .finish io k status error endedAt =>
    s.executing[k]?.map fun run =>
      { s with
        service := (finishPreparedManualRun deps retry io run.id
          ⟨status, error, run.startedAt, endedAt⟩ run.forced s.service).left
        executing := s.executing.eraseIdx k }
  | .collect io => if s.tick.isSome then none else some (stepCollect deps s io)
  | .startRun k startedAt =>
    s.tick.bind fun tick =>
      match tick.runs[k]? with
      | some ⟨id, .collected⟩ =>
        some { s with
          service := startDueJob id tick.loads startedAt s.service
          tick := some { tick with runs := tick.runs.set k ⟨id, .started startedAt⟩ } }
      | _ => none
  | .endRun k status error endedAt =>
    s.tick.bind fun tick =>
      match tick.runs[k]? with
      | some ⟨id, .started startedAt⟩ =>
        some { s with
          tick := some { tick with
            runs := tick.runs.set k ⟨id, .ended ⟨status, error, startedAt, endedAt⟩⟩ } }
      | _ => none
  | .apply io =>
    s.tick.bind fun tick =>
      (outcomesOf tick.runs).map fun outcomes =>
        { s with
          service := (applyTickOutcomes deps retry io outcomes s.service).left
          tick := none }

/-! ### The stores after a step -/

variable {deps} {P : CronServiceState → Prop}

variable {s : CronSystem}

theorem stepPreflight_leaves {io : Io} {id : String} {forced : Bool}
    (h : LeavesWith P (inspectManualRunPreflight deps io id forced s.service)) :
    P (stepPreflight deps s io id forced).service := by
  unfold stepPreflight
  split <;> rename_i he <;> rw [he] at h <;> exact h

theorem stepPrepare_leaves {io : Io} {k : ℕ} {run : ManualRun}
    (h : LeavesWith P (prepareManualRun io run.id run.startedAt s.service)) :
    P (stepPrepare s io k run).service := by
  unfold stepPrepare
  dsimp only
  split <;> rename_i he <;> rw [he] at h <;> exact h

theorem stepCollect_leaves {io : Io}
    (h : LeavesWith P (collectDueJobs deps io s.service)) : P (stepCollect deps s io).service := by
  unfold stepCollect
  split <;> rename_i he <;> rw [he] at h <;> exact h

/-- The jobs in which an id finds a job are in memory. -/
theorem onStores_jobs {Q : List CronJob → Prop} {s : CronServiceState} {id : String}
    {job : CronJob} (h : OnStores Q s) (hj : findJob id s.jobs = some job) : Q s.jobs := by
  cases hs : s.store with
  | none =>
    rw [CronServiceState.jobs, hs] at hj
    cases hj
  | some jobs => exact jobs_of_store hs ▸ h.memory jobs hs

/-- An id that was not used before is not in the jobs that `add` works with. -/
theorem opened_ids_fresh {io : LoadIo} {id : String} (h : s.Fresh id) :
    id ∉ (s.service.opened deps false false io).map CronJob.id := by
  obtain ⟨h, -⟩ := h
  rw [map_append, mem_append, not_or] at h
  cases hs : s.service.store with
  | some jobs =>
    rw [opened_loaded (by simp [hs])]
    exact h.1
  | none =>
    rw [opened_unloaded hs]
    unfold recomputeNextRuns walkSchedulableJobs
    rw [List.map_map]
    have hcomp : CronJob.id ∘ walkJob (recomputeDueOrMissing deps) io.now = CronJob.id :=
      funext (walkJob_id (recomputeDueOrMissing_id deps) io.now)
    rw [hcomp]
    exact h.2

/-- What the second section of a manual run adds to the executions. -/
theorem stepPrepare_executions (s : CronSystem) (io : Io) (k : ℕ) (run : ManualRun) :
    (stepPrepare s io k run).executions = s.executions ∨
      ∃ service, prepareManualRun io run.id run.startedAt s.service = .ok (service, true) ∧
        (stepPrepare s io k run).service = service ∧
        (stepPrepare s io k run).executions = s.executions ++ [run.id] := by
  unfold stepPrepare
  dsimp only
  split
  · exact .inl rfl
  · exact .inl rfl
  · rename_i service he
    refine .inr ⟨service, he, rfl, ?_⟩
    unfold CronSystem.executions CronSystem.tickRuns
    rw [map_append, append_assoc]
    rfl

/-- What the first section of a tick adds to the executions. -/
theorem stepCollect_executions (s : CronSystem) (io : Io) (htick : s.tick = none) :
    (stepCollect deps s io).executions = s.executions ∨
      ∃ service ids, collectDueJobs deps io s.service = .ok (service, ids) ∧ ids ≠ [] ∧
        (stepCollect deps s io).service = service ∧
        (stepCollect deps s io).executions = ids ++ s.executions := by
  unfold stepCollect
  split
  · exact .inl rfl
  · rename_i service ids he
    by_cases hids : ids = []
    · refine .inl ?_
      unfold CronSystem.executions CronSystem.tickRuns
      rw [htick, if_pos hids]
    · refine .inr ⟨service, ids, he, hids, rfl, ?_⟩
      unfold CronSystem.executions CronSystem.tickRuns
      rw [htick, if_neg hids]
      simp [Function.comp_def]

/-- A tick comes further with one of its jobs. -/
theorem ids_set {runs : List TickRun} {k : ℕ} {id : String} {phase phase' : TickPhase}
    (h : runs[k]? = some ⟨id, phase⟩) : (runs.set k ⟨id, phase'⟩).map TickRun.id = runs.map TickRun.id := by
  induction runs generalizing k with
  | nil => rfl
  | cons run runs ih =>
    cases k with
    | zero =>
      rw [getElem?_cons_zero, Option.some.injEq] at h
      simp [h]
    | succ k =>
      rw [getElem?_cons_succ] at h
      simp [ih h]

theorem count_eraseIdx {runs : List ManualRun} {k : ℕ} {run : ManualRun} (j : String)
    (h : runs[k]? = some run) :
    ((runs.eraseIdx k).map ManualRun.id).count j + (if run.id = j then 1 else 0) =
      (runs.map ManualRun.id).count j := by
  obtain ⟨hk, rfl⟩ := List.getElem?_eq_some_iff.mp h
  have hperm := (getElem_cons_eraseIdx_perm hk).map ManualRun.id
  rw [← hperm.count_eq, map_cons, count_cons]
  simp

end Steps

/-- The outcomes of a tick are those of its jobs. -/
theorem ids_outcomesOf {runs : List TickRun} {outcomes : List (String × JobResult)}
    (h : outcomesOf runs = some outcomes) : outcomes.map Prod.fst = runs.map TickRun.id := by
  induction runs generalizing outcomes with
  | nil =>
    cases h
    rfl
  | cons run runs ih =>
    obtain ⟨id, phase⟩ := run
    cases phase with
    | ended result =>
      obtain ⟨rest, hrest, rfl⟩ := Option.map_eq_some_iff.mp h
      simp [ih hrest]
    | collected => cases h
    | started startedAt => cases h

end Foxclaw.Cron
