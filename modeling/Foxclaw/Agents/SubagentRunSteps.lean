import Foxclaw.Agents.SubagentRegistry

/-!
# What a step of the registry does to a run

A step of the registry works on one run, or on each run by itself: what it does to a run is one of a
few things (`RunStep`). What they keep holds of all runs, and of the records in the file
(`AllRuns.next`).

Some steps resume a run by themselves: another run's completion, the removal of the mark of a
restart, and the restore. `G now entry` is what is known of the record of such a run (`Guarded`).
-/

namespace Foxclaw.Agents.SubagentRegistry

open Function Option

/-- What happens to a run. -/
inductive RunStep (G : Time → SubagentRunRecord → Prop) (now : Time) : Run → Run → Prop where
  /-- Nothing. -/
  | same (r : Run) : RunStep G now r r
  /-- The pending lifecycle error is set or cleared. -/
  | lifecycleError (r : Run) (pending : Option PendingLifecycleError)
      (h : r.record = none → pending = none) : RunStep G now r { r with lifecycleError := pending }
  | removed (r : Run) :
      RunStep G now r { clearPendingLifecycleError r with record := none, resumed := false }
  /-- The result of `agent.wait` is noted, then the completion step begins. -/
  | waited (r : Run) (outcome : SubagentRunOutcome) (endedAt : Option Time) (startedAt : Bool)
      (completedAt : Time) (reason : EndedReason) :
      RunStep G now r (completeSubagentRun completedAt outcome reason
        (noteWaitResult now outcome endedAt startedAt r).1)
  | completing (r : Run) (endedAt : Time) (outcome : SubagentRunOutcome) (reason : EndedReason) :
      RunStep G now r (completeSubagentRun endedAt outcome reason r)
  /-- The capture ends and the text is frozen, and what comes after it happens as well. -/
  | captured {r : Run} {i : ℕ} {reason : EndedReason} {captures mutated : Bool} (text : Option String)
      (h : r.completions[i]? = some (.capturing reason captures mutated)) :
      RunStep G now r (afterCapture reason
        (freezeResult text captures { r with completions := r.completions.eraseIdx i })).1
  /-- The hook of a completion step ends, and no flow can be started. -/
  | hooked {r : Run} {i : ℕ}
      (hstart : startSubagentAnnounceCleanupFlow { r with completions := r.completions.eraseIdx i } =
        none) : RunStep G now r { r with completions := r.completions.eraseIdx i }
  /-- The hook of a completion step ends, and a flow is started. -/
  | started {r r' : Run} {i : ℕ} (h : r.completions[i]? = some .hooking)
      (hstart : startSubagentAnnounceCleanupFlow { r with completions := r.completions.eraseIdx i } =
        some r') : RunStep G now r r'
  | flowEnds {r : Run} {i : ℕ} (didAnnounce : Bool) (pendingDescendants : ℕ)
      (h : r.flows[i]? = some .running) :
      RunStep G now r (finalizeSubagentCleanup now didAnnounce pendingDescendants { r with
        flows := r.flows.eraseIdx i
        log := r.log ++ [if didAnnounce then .succeeded else .failed pendingDescendants] }).1
  | cleaned (r : Run) (i : ℕ) (cleanup : Cleanup) (completedAt : Time) :
      RunStep G now r
        (completeCleanupBookkeeping cleanup completedAt { r with flows := r.flows.eraseIdx i })
  | timer {r : Run} {i : ℕ} {t : RetryTimer} (h : r.timers[i]? = some t) :
      RunStep G now r (resumeSubagentRun now { r with
        timers := r.timers.eraseIdx i
        resumed := if t.deletesResumed then false else r.resumed }).1
  /-- The run is marked for a restart. -/
  | marked (r : Run) : RunStep G now r (markSteerRestart r).1
  /-- The mark is removed, and the run needs not be resumed. -/
  | cleared {r : Run}
      (h : ∀ entry ∈ r.record, ¬ (entry.endedAt.isSome ∧ entry.cleanupCompletedAt.isNone)) :
      RunStep G now r (clearSteerRestart r)
  | unmarked {r : Run} (h : ∀ entry ∈ (clearSteerRestart r).record, G now entry) :
      RunStep G now r (resumeSubagentRun now (clearSteerRestart r)).1
  /-- Another run was completed. -/
  | deferred {r : Run} (h : ∀ entry ∈ r.record, G now entry) :
      RunStep G now r (retryDeferredCompletedAnnounce now r)
  | terminated (r : Run) (reason : String) : RunStep G now r (terminate now reason r)

/-- A run as it is when the file is written in the middle of a step. -/
inductive Writes (now : Time) : Run → Run → Prop where
  | noted (r : Run) (outcome : SubagentRunOutcome) (endedAt : Option Time) (startedAt : Bool) :
      Writes now r (noteWaitResult now outcome endedAt startedAt r).1
  | frozen {r : Run} {i : ℕ} {reason : EndedReason} {captures mutated : Bool} (text : Option String)
      (h : r.completions[i]? = some (.capturing reason captures mutated)) :
      Writes now r (freezeResult text captures { r with completions := r.completions.eraseIdx i })
  | cleared (r : Run) : Writes now r (clearSteerRestart r)

/-- A record as it is registered. -/
structure SubagentRunRecord.IsNew (entry : SubagentRunRecord) : Prop where
  running : entry.endedAt = none
  unsuppressed : entry.suppressAnnounceReason = none
  count : entry.announceRetryCount = 0
  retried : entry.lastAnnounceRetryAt = none
  waits : entry.cleanupHandled = false

/-- What the steps keep: `I` of the runs, skipped by the last restore or not, and `R` of their
records. -/
structure RunInvariant (G : Time → SubagentRunRecord → Prop) (I : Bool → Run → Prop)
    (R : SubagentRunRecord → Prop) : Prop where
  step : ∀ {now r r' skipped}, I skipped r → RunStep G now r r' → I skipped r'
  /-- It says something about the record. -/
  record : ∀ {r skipped}, I skipped r → ∀ entry ∈ r.record, R entry
  writes : ∀ {now r r' skipped}, I skipped r → Writes now r r' → ∀ entry ∈ r'.record, R entry
  /-- It holds of a run that is not there. -/
  empty : ∀ {skipped}, I skipped {}
  /-- It holds of a run of which only the record is known, once it is resumed. -/
  restored : ∀ {now entry}, R entry → G now entry →
    I (entry.cleanupHandled && entry.cleanupCompletedAt.isNone)
      (resumeSubagentRun now { record := some entry }).1
  new : ∀ {skipped} {entry : SubagentRunRecord}, entry.IsNew → I skipped { record := some entry }

/-- All records in the file are so; a run id that was not used has none. -/
structure Stored (R : SubagentRunRecord → Prop) (s : State) : Prop where
  disk : ∀ runId, ∀ entry ∈ s.disk runId, R entry
  unused : ∀ runId ∉ s.used, s.disk runId = none

/-- All runs are so, too; a run id that was not used has none. -/
structure AllRuns (I : Bool → Run → Prop) (R : SubagentRunRecord → Prop) (s : State) : Prop
    extends Stored R s where
  run : ∀ runId, I (s.skipped runId) (s.run runId)
  fresh : ∀ runId ∉ s.used, s.run runId = {}

/-- What is known of the runs that a step resumes by itself. -/
def Guarded (G : Time → SubagentRunRecord → Prop) (s : State) : Action → Prop
  | .finalized runId _ => ∀ id ∈ s.used, id ≠ runId → ∀ entry ∈ (s.run id).record, G s.now entry
  | .clearSteerRestart runId => ∀ entry ∈ (s.run runId).record, suppressAnnounceForSteerRestart entry = true →
      G s.now { entry with suppressAnnounceReason := none }
  | .restore => ∀ id ∈ s.used, ∀ entry ∈ s.disk id, G s.now entry
  | _ => True

variable {G : Time → SubagentRunRecord → Prop} {I : Bool → Run → Prop} {R : SubagentRunRecord → Prop}
  {s t : State} {runId : String}

theorem guarded_true {a : Action} : Guarded (fun _ _ => True) s a := by
  unfold Guarded
  split <;> simp

/-- Nothing happens to a run that is not there. -/
theorem RunStep.of_empty {now : Time} {r' : Run} (h : RunStep G now {} r') : r' = {} := by
  cases h with
  | lifecycleError pending hnone => rw [hnone rfl]
  | captured text h => simp at h
  | started h => simp at h
  | flowEnds didAnnounce pendingDescendants h => simp at h
  | timer h => simp at h
  | cleaned i cleanup completedAt => cases cleanup <;> rfl
  | _ => rfl

theorem Writes.of_empty {now : Time} {r' : Run} (h : Writes now {} r') : r' = {} := by
  cases h with
  | frozen text h => simp at h
  | _ => rfl

variable (inv : RunInvariant G I R) (h : AllRuns I R s)
include inv h

theorem AllRuns.persist : AllRuns I R (persist s) where
  disk := fun runId entry hentry => inv.record (h.run runId) entry hentry
  unused := fun runId hid => by simp [SubagentRegistry.persist, h.fresh runId hid]
  run := h.run
  fresh := h.fresh

theorem AllRuns.map (hstep : ∀ id, RunStep G s.now (s.run id) (t.run id)) (hused : t.used = s.used)
    (hskipped : t.skipped = s.skipped) (hdisk : Stored R t) : AllRuns I R t := by
  refine ⟨hdisk, fun id => hskipped ▸ inv.step (h.run id) (hstep id), fun id hid => ?_⟩
  have hid' := hstep id
  rw [h.fresh id (hused ▸ hid)] at hid'
  exact hid'.of_empty

variable {f : Run → Run} {g : Run → Run × Bool}

theorem AllRuns.onRun
    (hf : RunStep G s.now (s.run runId) (f (s.run runId))) : AllRuns I R (s.onRun runId f) :=
  h.map inv ((forall_update_iff s.run fun id r => RunStep G s.now (s.run id) r).mpr
    ⟨hf, fun _ _ => .same _⟩) rfl rfl ⟨h.disk, h.unused⟩

/-- One run changes, and the file may be written. -/
theorem AllRuns.onRunThenPersist
    (hg : RunStep G s.now (s.run runId) (g (s.run runId)).1) : AllRuns I R (s.onRunThenPersist runId g) := by
  have hrun : AllRuns I R (s.onRun runId fun r => (g r).1) := h.onRun inv hg
  unfold State.onRunThenPersist
  dsimp only
  split
  · exact hrun.persist inv
  · exact hrun

/-- A run is registered, with a run id that was not used. -/
theorem AllRuns.register
    {entry : SubagentRunRecord} (hnew : entry.IsNew) (hf : f (s.run runId) = { record := some entry }) :
    AllRuns I R ({ s with used := runId :: s.used }.onRun runId f) := by
  refine ⟨⟨h.disk, fun id hid => h.unused id (mt (List.mem_cons_of_mem _) hid)⟩, ?_, fun id hid => ?_⟩
  · exact (forall_update_iff s.run fun id r => I (s.skipped id) r).mpr
      ⟨hf ▸ inv.new hnew, fun id _ => h.run id⟩
  · obtain ⟨hne, hunused⟩ := not_or.mp (mt List.mem_cons.mpr hid)
    exact (update_of_ne hne _ _).trans (h.fresh id hunused)

/-- The file is written in the middle of a step. -/
theorem AllRuns.written (hf : Writes s.now (s.run runId) (f (s.run runId))) :
    Stored R (SubagentRegistry.persist (s.onRun runId f)) := by
  refine ⟨?_, (forall_update_iff s.run fun id r => id ∉ s.used → r.record = none).mpr ⟨fun hid => ?_, ?_⟩⟩
  · exact (forall_update_iff s.run fun _ r => ∀ entry ∈ r.record, R entry).mpr
      ⟨inv.writes (h.run runId) hf, fun id _ => inv.record (h.run id)⟩
  · rw [h.fresh runId hid] at hf ⊢
    rw [hf.of_empty]
  · exact fun id _ hid => by rw [h.fresh id hid]

/-- One run changes twice; the file may be written in between. -/
theorem AllRuns.onRunTwice {u : State} (hstep : RunStep G s.now (s.run runId) (g (f (s.run runId))).1)
    (hrun : u.run = (s.onRun runId f).run) (hused : u.used = s.used) (hskipped : u.skipped = s.skipped)
    (hu : Stored R u) : AllRuns I R (u.onRunThenPersist runId g) := by
  have hrun' : (u.onRun runId fun r => (g r).1).run = update s.run runId (g (f (s.run runId))).1 := by
    simp [State.onRun, hrun]
  have hdone : AllRuns I R (u.onRun runId fun r => (g r).1) := by
    refine h.map inv ?_ hused hskipped ⟨hu.disk, hu.unused⟩
    rw [hrun']
    exact (forall_update_iff s.run fun id r => RunStep G s.now (s.run id) r).mpr
      ⟨hstep, fun _ _ => .same _⟩
  unfold State.onRunThenPersist
  dsimp only
  split
  · exact hdone.persist inv
  · exact hdone

/-- The result of `agent.wait` is noted, then the completion step begins. -/
theorem AllRuns.waitResult {outcome : SubagentRunOutcome} {endedAt : Option Time} {startedAt : Bool} :
    AllRuns I R (waitResult s runId outcome endedAt startedAt) := by
  have hnoted : Stored R (s.onRunThenPersist runId (noteWaitResult s.now outcome endedAt startedAt)) := by
    unfold State.onRunThenPersist
    dsimp only
    split
    · exact h.written inv (.noted _ _ _ _)
    · exact ⟨h.disk, h.unused⟩
  unfold SubagentRegistry.waitResult
  dsimp only
  split
  · rename_i hnone
    rw [run_onRunThenPersist, run_onRun_self] at hnone
    refine h.onRunThenPersist inv ?_
    unfold noteWaitResult at hnone ⊢
    split at hnone
    · exact .same _
    · cases hnone
  · exact h.onRunTwice inv (g := fun r => (completeSubagentRun _ _ _ r, false)) (.waited _ _ _ _ _ _)
      (run_onRunThenPersist s runId _) (used_onRunThenPersist s runId _)
      (skipped_onRunThenPersist s runId _) hnoted

theorem AllRuns.lifecycleErrorFires : AllRuns I R (s.onRun runId (lifecycleErrorFires s.now)) := by
  refine h.onRun inv ?_
  unfold SubagentRegistry.lifecycleErrorFires
  split
  · exact .same _
  · split
    · dsimp only
      split
      · exact .lifecycleError _ _ fun _ => rfl
      · split
        · exact .lifecycleError _ _ fun _ => rfl
        · exact .completing _ _ _ _
    · exact .same _

variable {i : ℕ}

/-- The text is frozen and the file may be written, before what comes after the capture. -/
theorem AllRuns.captured {text : Option String} (hst : captured s runId i text = some t) : AllRuns I R t := by
  unfold SubagentRegistry.captured at hst
  split at hst
  · rename_i reason captures mutated hcompletion
    obtain rfl := some.inj hst
    let freeze : Run → Run := fun r =>
      freezeResult text captures { r with completions := r.completions.eraseIdx i }
    have hstep : RunStep G s.now (s.run runId) (afterCapture reason (freeze (s.run runId))).1 :=
      .captured text hcompletion
    split
    · exact h.onRunTwice inv (f := freeze) hstep rfl rfl rfl (h.written inv (.frozen text hcompletion))
    · exact h.onRunTwice inv (f := freeze) hstep rfl rfl rfl ⟨h.disk, h.unused⟩
  · cases hst

theorem AllRuns.hooked (hst : hooked s runId i = some t) : AllRuns I R t := by
  unfold SubagentRegistry.hooked at hst
  split at hst
  · rename_i hcompletion
    obtain rfl := some.inj hst
    refine h.onRunTwice inv ?_ rfl rfl rfl ⟨h.disk, h.unused⟩
    split
    · rename_i hnone
      exact .hooked hnone
    · rename_i r' hstart
      exact .started hcompletion hstart
  · cases hst

theorem AllRuns.flowResult {didAnnounce : Bool} {pendingDescendants : ℕ}
    (hst : flowResult s runId i didAnnounce pendingDescendants = some t) : AllRuns I R t := by
  unfold SubagentRegistry.flowResult at hst
  split at hst
  · rename_i hflow
    obtain rfl := some.inj hst
    exact h.onRunTwice inv (.flowEnds didAnnounce pendingDescendants hflow) rfl rfl rfl ⟨h.disk, h.unused⟩
  · cases hst

theorem AllRuns.timer (hst : timer s runId i = some t) : AllRuns I R t := by
  unfold SubagentRegistry.timer at hst
  split at hst
  · rename_i timer htimer
    split at hst
    · obtain rfl := some.inj hst
      exact h.onRunTwice inv (.timer htimer) rfl rfl rfl ⟨h.disk, h.unused⟩
    · cases hst
  · cases hst

theorem AllRuns.finalized
    (hguard : Guarded G s (.finalized runId i)) (hst : finalized s runId i = some t) : AllRuns I R t := by
  have hclose (cleanup : Cleanup) (completedAt : Time) : AllRuns I R (retryDeferredCompletedAnnounces
      (SubagentRegistry.persist ((s.onRun runId fun r => { r with flows := r.flows.eraseIdx i }).onRun runId
        (completeCleanupBookkeeping cleanup completedAt))) runId) := by
    have hcleaned : AllRuns I R (s.onRun runId fun r =>
        completeCleanupBookkeeping cleanup completedAt { r with flows := r.flows.eraseIdx i }) :=
      h.onRun inv (.cleaned _ i cleanup completedAt)
    have hsame : (s.onRun runId fun r => { r with flows := r.flows.eraseIdx i }).onRun runId
          (completeCleanupBookkeeping cleanup completedAt) =
        s.onRun runId fun r =>
          completeCleanupBookkeeping cleanup completedAt { r with flows := r.flows.eraseIdx i } := by
      simp [State.onRun]
    rw [hsame]
    have hwritten := hcleaned.persist inv
    refine AllRuns.persist inv (hwritten.map inv (fun id => ?_) rfl rfl ⟨hwritten.disk, hwritten.unused⟩)
    dsimp only [run_persist]
    by_cases hid : id = runId
    · rw [if_pos hid]
      exact .same _
    · rw [if_neg hid]
      refine .deferred fun entry hentry => ?_
      have hrun : (s.onRun runId fun r => completeCleanupBookkeeping cleanup completedAt
          { r with flows := r.flows.eraseIdx i }).run id = s.run id := update_of_ne hid _ _
      rw [hrun] at hentry
      by_cases hused : id ∈ s.used
      · exact hguard id hused hid entry hentry
      · rw [h.fresh id hused] at hentry
        cases hentry
  unfold SubagentRegistry.finalized at hst
  dsimp only at hst
  split at hst
  · obtain rfl := some.inj hst
    exact hclose _ _
  · obtain rfl := some.inj hst
    exact hclose _ _
  · cases hst

theorem AllRuns.clearSteerRestart (hguard : Guarded G s (.clearSteerRestart runId)) :
    AllRuns I R (clearSubagentRunSteerRestart s runId) := by
  unfold clearSubagentRunSteerRestart
  split
  · exact h
  · rename_i entry hentry
    split
    · rename_i hsuppressed
      dsimp only
      split
      · refine h.onRunTwice inv (.unmarked fun e he => ?_) rfl rfl rfl (h.written inv (.cleared _))
        obtain ⟨entry', hentry', rfl⟩ := map_eq_some_iff.mp he
        obtain rfl := some.inj (hentry.symm.trans hentry')
        exact hguard entry hentry hsuppressed
      · rename_i hidle
        refine (h.onRun inv (.cleared fun e he => ?_)).persist inv
        obtain rfl := some.inj (hentry.symm.trans he)
        exact hidle
    · exact h

theorem AllRuns.replace {previousRunId nextRunId : String}
    (hnext : nextRunId ∉ s.used) {fallback : Option SubagentRunRecord} {preserve : Bool} :
    AllRuns I R (replaceSubagentRunAfterSteer { s with used := nextRunId :: s.used }
      previousRunId nextRunId fallback preserve) := by
  unfold replaceSubagentRunAfterSteer
  split
  · exact ⟨⟨h.disk, fun id hid => h.unused id (mt (List.mem_cons_of_mem _) hid)⟩, h.run,
      fun id hid => h.fresh id (mt (List.mem_cons_of_mem _) hid)⟩
  · rename_i source _
    have hremoved : AllRuns I R (s.onRun previousRunId fun r =>
        { clearPendingLifecycleError r with record := none, resumed := false }) :=
      h.onRun inv (.removed _)
    have hnew : (replacement source preserve).IsNew := ⟨rfl, rfl, rfl, rfl, rfl⟩
    refine AllRuns.persist inv (hremoved.register inv hnew ?_)
    have hempty : (s.onRun previousRunId fun r =>
        { clearPendingLifecycleError r with record := none, resumed := false }).run nextRunId = {} :=
      hremoved.fresh nextRunId hnext
    rw [hempty]

theorem AllRuns.kill {runIds : List String}
    {reason : String} : AllRuns I R (markSubagentRunTerminated s runIds reason) := by
  have hkilled : AllRuns I R { s with run := fun runId =>
      if runId ∈ runIds then terminate s.now reason (s.run runId) else s.run runId } := by
    refine h.map inv (fun id => ?_) rfl rfl ⟨h.disk, h.unused⟩
    dsimp only
    split
    · exact .terminated _ reason
    · exact .same _
  unfold markSubagentRunTerminated
  dsimp only
  split
  · exact hkilled.persist inv
  · exact hkilled

theorem AllRuns.restore (hguard : Guarded G s .restore) : AllRuns I R (restoreSubagentRuns s) := by
  refine AllRuns.persist inv ⟨⟨h.disk, h.unused⟩, fun id => ?_, fun id hid => ?_⟩
  · dsimp only
    cases hdisk : s.disk id with
    | none => exact inv.empty
    | some entry =>
      refine inv.restored (h.disk id entry hdisk) (hguard id ?_ entry hdisk)
      by_contra hunused
      simp [h.unused id hunused] at hdisk
  · dsimp only
    rw [h.unused id hid]
    rfl

theorem AllRuns.next {a : Action} (hguard : Guarded G s a) (hst : next s a = some t) : AllRuns I R t := by
  unfold SubagentRegistry.next at hst
  split at hst
  · cases a with
    | tick ms =>
      obtain rfl := some.inj hst
      exact ⟨⟨h.disk, h.unused⟩, h.run, h.fresh⟩
    | flush =>
      obtain rfl := some.inj hst
      exact h.persist inv
    | register runId cleanup spawnMode expectsCompletionMessage =>
      obtain ⟨hunused, ⟨⟩⟩ := ite_none_left_eq_some.mp hst
      have hnew : (⟨cleanup, spawnMode, expectsCompletionMessage, none, none, none, false, none, none, 0,
          none, false, none, none⟩ : SubagentRunRecord).IsNew := ⟨rfl, rfl, rfl, rfl, rfl⟩
      exact (h.register inv hnew (by rw [h.fresh runId hunused])).persist inv
    | waitResult runId outcome endedAt startedAt =>
      obtain rfl := some.inj hst
      exact h.waitResult inv
    | lifecycleStart runId =>
      obtain rfl := some.inj hst
      exact h.onRun inv (.lifecycleError _ _ fun _ => rfl)
    | lifecycleEnd runId endedAt aborted =>
      obtain rfl := some.inj hst
      exact h.onRun inv (.completing _ _ _ _)
    | lifecycleError runId endedAt error =>
      obtain rfl := some.inj hst
      refine h.onRun inv ?_
      unfold schedulePendingLifecycleError
      split
      · rename_i hthere
        exact .lifecycleError _ _ fun hnone => by simp [hnone] at hthere
      · exact .same _
    | lifecycleErrorTimer runId =>
      obtain rfl := some.inj hst
      exact h.lifecycleErrorFires inv
    | captured runId i text => exact h.captured inv hst
    | hooked runId i => exact h.hooked inv hst
    | flowResult runId i didAnnounce pendingDescendants => exact h.flowResult inv hst
    | finalized runId i => exact h.finalized inv hguard hst
    | timer runId i => exact h.timer inv hst
    | markSteerRestart runId =>
      obtain rfl := some.inj hst
      exact h.onRunThenPersist inv (.marked _)
    | clearSteerRestart runId =>
      obtain rfl := some.inj hst
      exact h.clearSteerRestart inv hguard
    | replace previousRunId nextRunId fallback preserve =>
      obtain ⟨hnot, ⟨⟩⟩ := ite_none_left_eq_some.mp hst
      exact h.replace inv (not_or.mp hnot).1
    | kill runIds reason =>
      obtain rfl := some.inj hst
      exact h.kill inv
    | crash =>
      obtain rfl := some.inj hst
      exact ⟨⟨h.disk, h.unused⟩, fun _ => inv.empty, fun _ _ => rfl⟩
    | restore => cases hst
  · split at hst
    · obtain rfl := some.inj hst
      exact h.restore inv hguard
    · cases hst

omit inv h

theorem AllRuns.init (inv : RunInvariant G I R) : AllRuns I R State.init :=
  ⟨⟨by simp [State.init], fun _ _ => rfl⟩, fun _ => inv.empty, fun _ _ => rfl⟩

end Foxclaw.Agents.SubagentRegistry
