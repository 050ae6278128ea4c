import Foxclaw.Agents.SubagentRunSteps

/-!
# No ended run gets stuck

A run that has ended and expects a completion message is announced, or something is in progress
that will see to it. What a process forgets in a crash is made up for when the next one restores
the registry, but for a flow that was in progress: its run has `cleanupHandled` set in the file,
and the restore skips it.

## What is proved

* `Handled.resume` — resuming a run that is not in `resumedRuns` leaves nothing stuck.
* `Progress.step` — what a step keeps of a run.
* `ended_run_progresses` — in every reachable state of a process that has restored its registry,
  every run that has ended, expects a completion message, is not suppressed for a restart and not
  completed is in progress, or was skipped.
* `crashed_flow_stays` — a run whose flow was in progress at a crash is not in progress after.
-/

namespace Foxclaw.Agents.SubagentRegistry

open Option
open Foxclaw.Runs (exec exec_invariant)

/-- A run that has ended and is still to be announced. -/
structure SubagentRunRecord.IsPending (entry : SubagentRunRecord) : Prop where
  ended : entry.endedAt.isSome = true
  /-- It expects a completion message. -/
  expects : entry.expectsCompletionMessage = true
  /-- It is not suppressed for a restart. -/
  unsuppressed : suppressAnnounceForSteerRestart entry = false
  open_ : entry.cleanupCompletedAt = none

/-- A completion step or an announce flow is in progress, or a timer is armed that finds the run out of
`resumedRuns` when it fires. -/
def Run.InProgress (r : Run) : Prop :=
  r.completions ≠ [] ∨ r.flows ≠ [] ∨ ∃ t ∈ r.timers, t.deletesResumed = true ∨ r.resumed = false

/-- A run that is being handled has a flow, unless the restore skipped it. -/
def Handled (skipped : Bool) (r : Run) : Prop :=
  ∀ entry ∈ r.record, entry.cleanupHandled = true → entry.cleanupCompletedAt = none →
    skipped = false → r.flows ≠ []

/-- A run that waits to be handled is in progress. -/
def Waiting (r : Run) : Prop :=
  ∀ entry ∈ r.record, entry.IsPending → entry.cleanupHandled = false → r.InProgress

/-- Nothing is stuck. -/
structure Progress (skipped : Bool) (r : Run) : Prop where
  /-- While it is handled. -/
  handled : Handled skipped r
  /-- While it waits. -/
  waiting : Waiting r

variable {skipped : Bool} {now : Time} {r r' : Run}

/-! ### One run -/

theorem Progress.of_record_none (h : r.record = none) : Progress skipped r :=
  ⟨by simp [Handled, h], by simp [Waiting, h]⟩

/-- A run whose cleanup is completed needs nothing. -/
theorem Progress.of_completed {entry : SubagentRunRecord} (h : r.record = some entry)
    (hdone : entry.cleanupCompletedAt.isSome = true) : Progress skipped r := by
  refine ⟨fun e he _ hopen => ?_, fun e he hpending => ?_⟩
  · obtain rfl := some.inj (h.symm.trans he)
    simp [hopen] at hdone
  · obtain rfl := some.inj (h.symm.trans he)
    simp [hpending.open_] at hdone

theorem Progress.of_flows (h : r.flows ≠ []) : Progress skipped r :=
  ⟨fun _ _ _ _ _ => h, fun _ _ _ _ => .inr (.inl h)⟩

theorem Progress.of_completions (h : Handled skipped r) (hc : r.completions ≠ []) : Progress skipped r :=
  ⟨h, fun _ _ _ _ => .inl hc⟩

theorem flows_of_start (h : startSubagentAnnounceCleanupFlow r = some r') : r'.flows ≠ [] := by
  obtain ⟨r₁, -, rfl⟩ := map_eq_some_iff.mp h
  simp

theorem Handled.of_start_none (h : Handled skipped r) (hnone : startSubagentAnnounceCleanupFlow r = none) :
    Progress skipped r := by
  refine ⟨h, fun entry hentry hpending hwaits => ?_⟩
  simp [startSubagentAnnounceCleanupFlow, beginSubagentCleanup, Option.mem_def.mp hentry,
    hpending.open_, hwaits] at hnone

/-- Resuming a run that is not in `resumedRuns` leaves nothing stuck. -/
theorem Handled.resume (h : Handled skipped r) (hresumed : r.resumed = false) :
    Progress skipped (resumeSubagentRun now r).1 := by
  unfold resumeSubagentRun
  rw [if_neg (by simp [hresumed])]
  split
  · rename_i hnone
    exact .of_record_none hnone
  · rename_i entry hentry
    split
    · rename_i hdone
      exact .of_completed hentry hdone
    · split
      · exact .of_completed rfl rfl
      · split
        · exact .of_completed rfl rfl
        · split
          · -- The retry is not due yet: a timer is armed.
            exact ⟨h, fun _ _ _ _ => .inr (.inr ⟨_, List.mem_concat_self, .inl rfl⟩)⟩
          · split
            · split
              · rename_i hsuppressed
                refine ⟨h, fun e he hpending => ?_⟩
                obtain rfl := some.inj (hentry.symm.trans he)
                simp [hpending.unsuppressed] at hsuppressed
              · split
                · rename_i hstart
                  exact h.of_start_none hstart
                · rename_i r' hstart
                  have hflows : r'.flows ≠ [] := flows_of_start hstart
                  exact .of_flows hflows
            · rename_i hended
              refine ⟨h, fun e he hpending => ?_⟩
              obtain rfl := some.inj (hentry.symm.trans he)
              exact absurd hpending.ended hended

variable {i : ℕ}

/-- A timer that fires and finds the run in `resumedRuns` is not needed. -/
theorem Progress.timer_fires (h : Progress skipped r) {t : RetryTimer} (ht : r.timers[i]? = some t) :
    Progress skipped (resumeSubagentRun now { r with
      timers := r.timers.eraseIdx i
      resumed := if t.deletesResumed then false else r.resumed }).1 := by
  by_cases hresumed : (if t.deletesResumed then false else r.resumed) = false
  · exact Handled.resume h.handled hresumed
  · obtain ⟨hplain, hr⟩ : t.deletesResumed = false ∧ r.resumed = true := by
      cases hd : t.deletesResumed <;> cases hr : r.resumed <;> simp [hd, hr] at hresumed ⊢
    rw [resumeSubagentRun, if_pos (by simpa using hresumed)]
    refine ⟨h.handled, fun entry hentry hpending hwaits => ?_⟩
    obtain hc | hf | ⟨t', ht', hfires⟩ := h.waiting entry hentry hpending hwaits
    · exact .inl hc
    · exact .inr (.inl hf)
    · have hdeletes : t'.deletesResumed = true := hfires.resolve_right (by simp [hr])
      obtain ⟨j, hj⟩ := List.mem_iff_getElem?.mp ht'
      have hji : j ≠ i := by
        rintro rfl
        obtain rfl := some.inj (ht.symm.trans hj)
        simp [hplain] at hdeletes
      exact .inr (.inr ⟨t', List.mem_eraseIdx_iff_getElem?.mpr ⟨j, hji, hj⟩, .inl hdeletes⟩)

theorem Handled.of_record (h : Handled skipped r) (hflows : r'.flows = r.flows)
    (hrecord : ∀ entry' ∈ r'.record, ∃ entry ∈ r.record, entry'.cleanupHandled = entry.cleanupHandled ∧
      entry'.cleanupCompletedAt = entry.cleanupCompletedAt) : Handled skipped r' := by
  intro entry' hentry' hhandled hopen
  obtain ⟨entry, hentry, hsame, hcompleted⟩ := hrecord entry' hentry'
  rw [hflows]
  exact h entry hentry (hsame ▸ hhandled) (hcompleted ▸ hopen)

/-- What is written to the file in the middle of a step is handled as the run is. -/
theorem Handled.of_writes (h : Handled skipped r) (hwrites : Writes now r r') : Handled skipped r' := by
  cases hwrites with
  | noted outcome endedAt startedAt =>
    unfold noteWaitResult
    split
    · exact h
    · rename_i entry hentry
      refine h.of_record rfl ?_
      rintro _ ⟨⟩
      exact ⟨entry, hentry, rfl, rfl⟩
  | frozen text _ =>
    unfold freezeResult
    split
    · refine h.of_record rfl fun e he => ?_
      obtain ⟨entry, hentry, rfl⟩ := map_eq_some_iff.mp he
      exact ⟨entry, hentry, rfl, rfl⟩
    · exact h
  | cleared =>
    refine h.of_record rfl fun e he => ?_
    obtain ⟨entry, hentry, rfl⟩ := map_eq_some_iff.mp he
    exact ⟨entry, hentry, rfl, rfl⟩

variable {outcome : SubagentRunOutcome} {reason : EndedReason}

/-- While the completion step waits for the capture, the run is in progress. -/
theorem Handled.complete (h : Handled skipped r) {endedAt : Time} :
    Progress skipped (completeSubagentRun endedAt outcome reason r) := by
  unfold completeSubagentRun clearPendingLifecycleError
  dsimp only
  split
  · rename_i hnone
    exact .of_record_none hnone
  · rename_i entry hentry
    refine .of_completions ?_ (by simp)
    rintro _ ⟨⟩ hhandled hopen hskipped
    refine h entry hentry ?_ ?_ hskipped
    · dsimp only [undoKill] at hhandled
      split at hhandled
      · cases hhandled
      · exact hhandled
    · dsimp only [undoKill] at hhandled hopen
      split at hopen
      · rename_i hundo
        rw [if_pos hundo] at hhandled
        cases hhandled
      · exact hopen

/-- After the capture the hook is waited for, or a flow started, or nothing is to be done. -/
theorem Handled.afterCapture (h : Handled skipped r) : Progress skipped (afterCapture reason r).1 := by
  unfold SubagentRegistry.afterCapture
  split
  · rename_i hnone
    exact .of_record_none hnone
  · rename_i entry hentry
    dsimp only
    split
    · exact .of_completions h (by simp)
    · split
      · rename_i hsuppressed
        refine ⟨h, fun e he hpending => ?_⟩
        obtain rfl := some.inj (hentry.symm.trans he)
        simp [hpending.unsuppressed] at hsuppressed
      · split
        · rename_i hstart
          exact h.of_start_none hstart
        · rename_i r' hstart
          exact .of_flows (flows_of_start hstart)

variable {pendingDescendants : ℕ} {didAnnounce : Bool}

/-- A flow that ended is finalized, or retried by a timer. -/
theorem Progress.finalize :
    Progress skipped (finalizeSubagentCleanup now didAnnounce pendingDescendants r).1 := by
  unfold finalizeSubagentCleanup
  split
  · rename_i hnone
    exact .of_record_none hnone
  · rename_i entry hentry
    split
    · exact .of_flows (by simp)
    · split
      · rename_i delayMs hdecision
        refine ⟨fun e he hhandled => ?_, fun e he hpending _ => ?_⟩
        · obtain rfl := some.inj he
          cases hhandled
        · exact .inr (.inr ⟨⟨now + delayMs, false⟩, by simp [deferRetry], .inr rfl⟩)
      · exact .of_flows (by simp)
      · rename_i retryCount resumeDelayMs hdecision
        refine ⟨fun e he hhandled => ?_, fun e he hpending _ => ?_⟩
        · obtain rfl := some.inj he
          cases hhandled
        · -- A completion message is retried by a timer.
          obtain rfl := some.inj he
          have hexpects : entry.expectsCompletionMessage = true := hpending.expects
          have hdelay : ∃ delay, resumeDelayMs = some delay := by
            unfold resolveDeferredCleanupDecision at hdecision
            dsimp only at hdecision
            split at hdecision
            · split at hdecision <;> cases hdecision
            · split at hdecision
              · cases hdecision
              · obtain ⟨rfl, rfl⟩ := DeferredCleanupDecision.retry.inj hdecision
                exact ⟨_, rfl⟩
          obtain ⟨delay, rfl⟩ := hdelay
          exact .inr (.inr ⟨⟨now + delay, false⟩, by simp [deferRetry], .inr rfl⟩)

theorem Progress.bookkeeping {cleanup : Cleanup} {completedAt : Time} :
    Progress skipped (completeCleanupBookkeeping cleanup completedAt r) := by
  cases cleanup with
  | delete => exact .of_record_none rfl
  | keep =>
    cases hrecord : r.record with
    | none => exact .of_record_none (by simp [completeCleanupBookkeeping, hrecord])
    | some entry =>
      exact @Progress.of_completed _ _ { entry with cleanupCompletedAt := some completedAt }
        (by simp [completeCleanupBookkeeping, hrecord]) rfl

/-- What another run's completion does with a run. -/
theorem Progress.retryDeferred (h : Progress skipped r) :
    Progress skipped (retryDeferredCompletedAnnounce now r) := by
  unfold retryDeferredCompletedAnnounce
  split
  · exact h
  · split
    · exact h
    · split
      · exact h
      · split
        · exact h
        · split
          · exact .of_completed rfl rfl
          · exact Handled.resume (r := { r with resumed := false }) h.handled rfl

theorem Progress.terminate (h : Progress skipped r) {reason : String} :
    Progress skipped (terminate now reason r) := by
  cases hrecord : r.record with
  | none => exact .of_record_none (by simp [SubagentRegistry.terminate, hrecord])
  | some entry =>
    have hrecord' : (SubagentRegistry.terminate now reason r).record =
        some (terminateRecord now reason entry) := by simp [SubagentRegistry.terminate, hrecord]
    by_cases hended : entry.endedAt.isSome = true
    · rw [terminateRecord, if_pos hended, ← hrecord] at hrecord'
      exact ⟨fun e he => h.handled e (hrecord' ▸ he), fun e he => h.waiting e (hrecord' ▸ he)⟩
    · exact .of_completed hrecord' (by simp [terminateRecord, hended])

theorem Progress.markSteerRestart (h : Progress skipped r) : Progress skipped (markSteerRestart r).1 := by
  unfold SubagentRegistry.markSteerRestart
  split
  · exact h
  · rename_i entry hentry
    split
    · exact h
    · refine ⟨?_, ?_⟩
      · rintro _ ⟨⟩
        exact h.handled entry hentry
      · rintro _ ⟨⟩ hpending
        exact absurd hpending.unsuppressed (by simp [suppressAnnounceForSteerRestart])

/-! ### All steps -/

theorem Progress.step (h : Progress skipped r) (hstep : RunStep (fun _ _ => True) now r r') :
    Progress skipped r' := by
  cases hstep with
  | same => exact h
  | lifecycleError pending _ => exact ⟨h.handled, h.waiting⟩
  | removed => exact .of_record_none rfl
  | waited outcome endedAt startedAt completedAt reason =>
    exact Handled.complete (h.handled.of_writes (.noted r outcome endedAt startedAt))
  | completing endedAt outcome reason => exact h.handled.complete
  | captured text hi =>
    have hwrites : Writes now r _ := .frozen text hi
    exact Handled.afterCapture (h.handled.of_writes hwrites)
  | hooked hnone => exact Handled.of_start_none h.handled hnone
  | started hi hstart => exact .of_flows (flows_of_start hstart)
  | flowEnds didAnnounce pendingDescendants hi => exact .finalize
  | cleaned i cleanup completedAt => exact .bookkeeping
  | timer ht => exact h.timer_fires ht
  | marked => exact h.markSteerRestart
  | cleared hidle =>
    -- The run has not ended, or its cleanup is completed.
    have hwrites : Writes now r _ := .cleared r
    refine ⟨h.handled.of_writes hwrites, fun e he hpending _ => ?_⟩
    obtain ⟨entry, hentry, rfl⟩ := map_eq_some_iff.mp he
    exact absurd ⟨hpending.ended, isNone_iff_eq_none.mpr hpending.open_⟩ (hidle entry hentry)
  | unmarked _ =>
    have hwrites : Writes now r _ := .cleared r
    exact (h.handled.of_writes hwrites).resume rfl
  | deferred _ => exact h.retryDeferred
  | terminated reason => exact h.terminate

theorem progress_invariant : RunInvariant (fun _ _ => True) Progress fun _ => True where
  step := fun h hstep => h.step hstep
  record := fun _ _ _ => trivial
  writes := fun _ _ _ _ => trivial
  empty := .of_record_none rfl
  restored := by
    rintro now entry - -
    refine Handled.resume ?_ rfl
    rintro _ ⟨⟩ hhandled hopen hskipped
    simp [hhandled, hopen] at hskipped
  new := by
    refine fun h => ⟨?_, ?_⟩
    · rintro _ ⟨⟩ hhandled
      simp [h.waits] at hhandled
    · rintro _ ⟨⟩ hpending
      simpa [h.running] using hpending.ended

/-- No ended run gets stuck. In every reachable state, a run that has ended, expects a completion
message, is not suppressed for a restart and not completed has a completion step or an announce
flow in progress, or a timer whose firing resumes it, unless the last restore found it with
`cleanupHandled` set. -/
theorem ended_run_progresses {as : List Action} {s : State}
    (hs : exec SubagentRegistry.next State.init as = some s) {runId : String} {entry : SubagentRunRecord}
    (hrecord : (s.run runId).record = some entry) (hpending : entry.IsPending)
    (hskipped : s.skipped runId = false) : (s.run runId).InProgress := by
  have hprogress : AllRuns Progress (fun _ => True) s :=
    exec_invariant (fun _ _ _ h hst => h.next progress_invariant guarded_true hst)
      (.init progress_invariant) hs
  obtain ⟨hhandled, hwaiting⟩ := hprogress.run runId
  cases hflag : entry.cleanupHandled with
  | true => exact .inr (.inl (hhandled entry hrecord hflag hpending.open_ hskipped))
  | false => exact hwaiting entry hrecord hpending hflag

/-! ### A crash during a flow -/

/-- A run ends, and its flow is in progress. -/
def flowRun : List Action :=
  [.register "run-1" .keep .run true, .lifecycleEnd "run-1" none false,
    .captured "run-1" 0 (some "done")]

/-- The record of the run when its flow is in progress. -/
def flowRecord : SubagentRunRecord where
  cleanup := .keep
  spawnMode := .run
  expectsCompletionMessage := true
  endedAt := some (Nat.succPNat 0)
  outcome := some .ok
  endedReason := some .complete
  cleanupHandled := true
  frozenResultText := some (some "done")

/-- A flow is in progress when the process crashes; after the restore the run is not. -/
theorem crashed_flow_stays :
    ∃ s entry, exec SubagentRegistry.next State.init (flowRun ++ [.crash, .restore]) = some s ∧ s.live = true ∧
      (s.run "run-1").record = some entry ∧ entry.IsPending ∧ ¬ (s.run "run-1").InProgress := by
  have hrun : (exec SubagentRegistry.next State.init (flowRun ++ [.crash, .restore])).map
      (fun s => (s.live, s.run "run-1")) = some (true, { record := some flowRecord }) := by
    decide +kernel
  obtain ⟨s, hs, heq⟩ := map_eq_some_iff.mp hrun
  obtain ⟨hlive, hr⟩ := Prod.mk.inj heq
  refine ⟨s, _, hs, hlive, by rw [hr], ⟨rfl, rfl, rfl, rfl⟩, ?_⟩
  rw [hr]
  simp [Run.InProgress]

/-- The flow fails and is retried: a timer is armed. -/
theorem ended_run_progresses_retry :
    ∃ s, exec SubagentRegistry.next State.init (flowRun ++ [.flowResult "run-1" 0 false 0]) = some s ∧
      (s.run "run-1").InProgress := by
  have hrun : (exec SubagentRegistry.next State.init (flowRun ++ [.flowResult "run-1" 0 false 0])).map
      (fun s => ((s.run "run-1").record, s.skipped "run-1")) = some (some { flowRecord with
        cleanupHandled := false, announceRetryCount := 1, lastAnnounceRetryAt := some 1 }, false) := by
    decide +kernel
  obtain ⟨s, hs, heq⟩ := map_eq_some_iff.mp hrun
  obtain ⟨hrecord, hskipped⟩ := Prod.mk.inj heq
  exact ⟨s, hs, ended_run_progresses hs hrecord ⟨rfl, rfl, rfl, rfl⟩ hskipped⟩

end Foxclaw.Agents.SubagentRegistry
