import Foxclaw.Agents.SubagentRunSteps
import Mathlib.Data.List.Count

/-!
# The announce flows of a run

In a process, a run has at most one announce flow at a time, none after one that reported success,
and at most `MAX_ANNOUNCE_RETRY_COUNT` that fail with no descendant pending; `cleanupHandled` sees to
it.

A flow that the completion step of the run starts has the frozen result. A run that is resumed by
others (`Guarded`) may get its flow before the capture has ended, as it has ended by then and nothing
handles it.

## What is proved

* `Flows.step` — the flows of a run, over what can happen to it.
* `Frozen.step` — the frozen result, when a run that is resumed by others has it.
* `single_flow_and_frozen` — what follows for every run of the registry.
* `flow_before_capture` — a flow that is started without the result.
-/

namespace Foxclaw.Agents.SubagentRegistry

open List Option
open Foxclaw.Runs (exec Meets exec_invariant exec_invariant_of_meets)

/-! ### The invariants -/

/-- What the retries of a record tell. -/
structure RecordFlows (entry : SubagentRunRecord) : Prop where
  /-- Before its end the run has no retries. -/
  running : entry.endedAt = none → entry.announceRetryCount = 0
  /-- A run with a kill marker has none, and is handled. -/
  killed : entry.suppressAnnounceReason = some .killed →
    entry.cleanupHandled = true ∧ entry.announceRetryCount = 0
  /-- When there were too many, no flow will be started. -/
  exhausted : MAX_ANNOUNCE_RETRY_COUNT ≤ entry.announceRetryCount →
    entry.cleanupHandled = true ∨ entry.cleanupCompletedAt.isSome = true

/-- No flow was started after a success. -/
def NoStartAfterSuccess (log : List FlowEvent) : Prop :=
  log.Pairwise fun first later => first = .succeeded → ∀ frozen, later ≠ .started frozen

/-- The flows of a run: at most one at a time, of a run that is handled. -/
structure Flows (r : Run) : Prop where
  record : ∀ entry ∈ r.record, RecordFlows entry
  single : r.flows.length ≤ 1
  /-- While there is one, the run is handled. -/
  handled : r.flows ≠ [] → ∀ entry ∈ r.record, entry.cleanupHandled = true
  logged : r.flows ≠ [] → r.log ≠ []
  /-- Flows and completion steps are of runs that have ended. -/
  ended : r.log ≠ [] ∨ r.completions ≠ [] → ∀ entry ∈ r.record, entry.endedAt.isSome = true
  /-- A run with a kill marker had no flow. -/
  killed : ∀ entry ∈ r.record, entry.suppressAnnounceReason = some .killed → r.log = []
  /-- After a success the run stays handled, and no flow is in progress. -/
  succeeded : .succeeded ∈ r.log →
    .running ∉ r.flows ∧ ∀ entry ∈ r.record, entry.cleanupHandled = true
  /-- No flow was started after a success. -/
  last : NoStartAfterSuccess r.log
  /-- Few flows failed with no descendant pending, with the one in progress. -/
  failures : r.log.count (.failed 0) + r.flows.count .running ≤ MAX_ANNOUNCE_RETRY_COUNT
  counted : ∀ entry ∈ r.record, r.log.count (.failed 0) ≤ entry.announceRetryCount
  /-- When there were too many, no flow is in progress. -/
  exhausted : ∀ entry ∈ r.record, MAX_ANNOUNCE_RETRY_COUNT ≤ entry.announceRetryCount →
    .running ∉ r.flows

/-- A record that was retried has its result. -/
def RecordFrozen (entry : SubagentRunRecord) : Prop :=
  entry.lastAnnounceRetryAt.isSome = true → entry.frozenResultText.isSome = true

/-- The completion step found the result frozen, or has frozen it. -/
def Completion.HasResult : Completion → Bool
  | .capturing _ captures _ => !captures
  | .hooking => true

/-- The result of a run is frozen before a flow is started. -/
structure Frozen (r : Run) : Prop where
  started : ∀ frozen, .started frozen ∈ r.log → frozen = true
  retried : ∀ entry ∈ r.record, RecordFrozen entry
  record : r.log ≠ [] ∨ r.flows ≠ [] ∨ r.timers ≠ [] →
    ∀ entry ∈ r.record, entry.frozenResultText.isSome = true
  /-- A completion step that does not capture has it. -/
  completions : ∀ c ∈ r.completions, c.HasResult = true →
    ∀ entry ∈ r.record, entry.frozenResultText.isSome = true

/-- A run that a resumption starts a flow of. -/
structure Resumable (now : Time) (entry : SubagentRunRecord) : Prop where
  ended : entry.endedAt.isSome = true
  open_ : entry.cleanupCompletedAt = none
  /-- Nothing handles it. -/
  waits : entry.cleanupHandled = false
  /-- It is not suppressed for a restart. -/
  unsuppressed : suppressAnnounceForSteerRestart entry = false
  few : entry.announceRetryCount < MAX_ANNOUNCE_RETRY_COUNT
  recent : isAnnounceExpired entry now = false

/-- A run that is resumed has its result, if a flow is started. -/
def HasResult (now : Time) (entry : SubagentRunRecord) : Prop :=
  Resumable now entry → entry.frozenResultText.isSome = true

/-- No step resumes a run that has ended, and can be announced, before its result is captured. -/
def Calm : State → Action → Prop := Guarded HasResult

instance (now : Time) (entry : SubagentRunRecord) : Decidable (HasResult now entry) :=
  decidable_of_iff
    (entry.endedAt.isSome = true ∧ entry.cleanupCompletedAt = none ∧ entry.cleanupHandled = false ∧
        suppressAnnounceForSteerRestart entry = false ∧
        entry.announceRetryCount < MAX_ANNOUNCE_RETRY_COUNT ∧ isAnnounceExpired entry now = false →
      entry.frozenResultText.isSome = true)
    ⟨fun h hr => h ⟨hr.ended, hr.open_, hr.waits, hr.unsuppressed, hr.few, hr.recent⟩,
      fun h ⟨ended, open_, waits, unsuppressed, few, recent⟩ =>
        h ⟨ended, open_, waits, unsuppressed, few, recent⟩⟩

instance (s : State) (a : Action) : Decidable (Calm s a) := by
  unfold Calm Guarded
  split <;> infer_instance

variable {G : Time → SubagentRunRecord → Prop} {now : Time} {r r' : Run}

/-! ### Starting a flow -/

/-- What starting a flow does. -/
theorem start_eq_some (h : startSubagentAnnounceCleanupFlow r = some r') :
    ∃ entry, r.record = some entry ∧ entry.cleanupCompletedAt = none ∧ entry.cleanupHandled = false ∧
      r' = { r with
        record := some { entry with cleanupHandled := true }
        flows := r.flows ++ [.running]
        log := r.log ++ [.started entry.frozenResultText.isSome] } := by
  obtain ⟨r₁, hbegin, rfl⟩ := map_eq_some_iff.mp h
  unfold beginSubagentCleanup at hbegin
  split at hbegin
  · cases hbegin
  · rename_i entry hentry
    obtain ⟨hopen, hbegin⟩ := ite_none_left_eq_some.mp hbegin
    obtain ⟨hwaits, ⟨⟩⟩ := ite_none_left_eq_some.mp hbegin
    exact ⟨entry, hentry, by simpa using hopen, by simpa using hwaits, rfl⟩

theorem NoStartAfterSuccess.concat {log : List FlowEvent} (h : NoStartAfterSuccess log) {e : FlowEvent}
    (he : .succeeded ∈ log → ∀ frozen, e ≠ .started frozen) : NoStartAfterSuccess (log ++ [e]) := by
  refine pairwise_append.mpr ⟨h, pairwise_singleton _ _, fun first hfirst later hlater => ?_⟩
  rintro rfl
  rw [mem_singleton.mp hlater]
  exact he hfirst

/-- A flow is started when there is none, of a run that had no success and few failures. -/
theorem Flows.start (h : Flows r) (hended : ∀ entry ∈ r.record, entry.endedAt.isSome = true)
    (hstart : startSubagentAnnounceCleanupFlow r = some r') : Flows r' := by
  obtain ⟨entry, hentry, hopen, hwaits, rfl⟩ := start_eq_some hstart
  have hrecord := h.record entry hentry
  have hflows : r.flows = [] := by
    by_contra hne
    simp [h.handled hne entry hentry] at hwaits
  have hsucceeded : .succeeded ∉ r.log := fun hmem => by
    simp [(h.succeeded hmem).2 entry hentry] at hwaits
  have hfew : entry.announceRetryCount < MAX_ANNOUNCE_RETRY_COUNT := by
    by_contra hmany
    rcases hrecord.exhausted (not_lt.mp hmany) with hhandled | hdone
    · simp [hhandled] at hwaits
    · simp [hopen] at hdone
  have hcounted := h.counted entry hentry
  refine ⟨?_, ?_, ?_, ?_, ?_, ?_, ?_, ?_, ?_, ?_, ?_⟩
  · rintro _ ⟨⟩
    exact ⟨hrecord.running, fun hkilled => ⟨rfl, (hrecord.killed hkilled).2⟩, fun _ => .inl rfl⟩
  · simp [hflows]
  · rintro - _ ⟨⟩
    rfl
  · simp
  · rintro - _ ⟨⟩
    exact hended entry hentry
  · rintro _ ⟨⟩ hkilled
    simp [(hrecord.killed hkilled).1] at hwaits
  · simp [hsucceeded]
  · exact h.last.concat fun hmem => absurd hmem hsucceeded
  · simp only [hflows, nil_append, count_append]
    simpa using Nat.succ_le_of_lt (hcounted.trans_lt hfew)
  · rintro _ ⟨⟩
    simpa using hcounted
  · rintro _ ⟨⟩ hmany
    exact absurd hmany (not_le.mpr hfew)

theorem Frozen.start (h : Frozen r) (hset : ∀ entry ∈ r.record, entry.frozenResultText.isSome = true)
    (hstart : startSubagentAnnounceCleanupFlow r = some r') : Frozen r' := by
  obtain ⟨entry, hentry, -, -, rfl⟩ := start_eq_some hstart
  have hsome := hset entry hentry
  refine ⟨fun frozen hmem => ?_, ?_, ?_, ?_⟩
  · rcases mem_append.mp hmem with hmem | hmem
    · exact h.started frozen hmem
    · simpa [hsome] using hmem
  · rintro _ ⟨⟩
    exact fun _ => hsome
  · rintro - _ ⟨⟩
    exact hsome
  · rintro c - - _ ⟨⟩
    exact hsome

/-! ### What leaves the flows as they are -/

/-- A change of a record that no flow of it can tell. -/
structure Keeps (entry entry' : SubagentRunRecord) : Prop where
  ended : entry.endedAt.isSome = true → entry'.endedAt.isSome = true
  handled : entry.cleanupHandled = true → entry'.cleanupHandled = true
  completed : entry.cleanupCompletedAt.isSome = true → entry'.cleanupCompletedAt.isSome = true
  killed : entry'.suppressAnnounceReason = some .killed → entry.suppressAnnounceReason = some .killed
  /-- No retry was counted. -/
  count : entry'.announceRetryCount = entry.announceRetryCount
  frozen : entry.frozenResultText.isSome = true → entry'.frozenResultText.isSome = true
  /-- No retry was made. -/
  retried : entry'.lastAnnounceRetryAt = entry.lastAnnounceRetryAt

theorem Keeps.refl (entry : SubagentRunRecord) : Keeps entry entry :=
  ⟨id, id, id, id, rfl, id, rfl⟩

theorem RecordFlows.of_keeps {entry entry' : SubagentRunRecord} (h : RecordFlows entry)
    (hk : Keeps entry entry') : RecordFlows entry' := by
  refine ⟨fun hrunning => ?_, fun hkilled => ?_, fun hmany => ?_⟩
  · have hrunning' : entry.endedAt = none := by
      by_contra hended
      have := hk.ended (isSome_iff_ne_none.mpr hended)
      simp [hrunning] at this
    exact hk.count.trans (h.running hrunning')
  · obtain ⟨hhandled, hcount⟩ := h.killed (hk.killed hkilled)
    exact ⟨hk.handled hhandled, hk.count.trans hcount⟩
  · exact (h.exhausted (hk.count ▸ hmany)).imp hk.handled hk.completed

/-- A change of a run that starts and ends no flow; one that is being finalized may be dropped. -/
structure KeepsFlows (r r' : Run) : Prop where
  flows : r'.flows.Sublist r.flows
  log : r'.log = r.log
  record : ∀ entry' ∈ r'.record, ∃ entry ∈ r.record, Keeps entry entry'

theorem KeepsFlows.of_record_eq (hflows : r'.flows.Sublist r.flows) (hlog : r'.log = r.log)
    (hrecord : r'.record = r.record) : KeepsFlows r r' :=
  ⟨hflows, hlog, fun entry hentry => ⟨entry, hrecord ▸ hentry, .refl entry⟩⟩

/-- A change that begins no completion step and arms no timer, either. -/
structure Leaves (r r' : Run) : Prop extends KeepsFlows r r' where
  completions : r'.completions.Sublist r.completions
  timers : r'.timers.Sublist r.timers

theorem Leaves.of_record {record : Option SubagentRunRecord} {pending : Option PendingLifecycleError}
    {resumed : Bool} (h : ∀ entry' ∈ record, ∃ entry ∈ r.record, Keeps entry entry') :
    Leaves r { r with record, lifecycleError := pending, resumed } :=
  ⟨⟨.refl _, rfl, h⟩, .refl _, .refl _⟩

theorem Leaves.same {pending : Option PendingLifecycleError} {resumed : Bool} :
    Leaves r { r with lifecycleError := pending, resumed } :=
  .of_record fun entry hentry => ⟨entry, hentry, .refl entry⟩

theorem ne_nil_of_sublist {α : Type} {l l' : List α} (h : l'.Sublist l) (hne : l' ≠ []) : l ≠ [] := by
  rintro rfl
  exact hne (sublist_nil.mp h)

theorem Flows.of_keeps (h : Flows r) (hk : KeepsFlows r r')
    (hcompletions : r'.completions ≠ [] → r.completions ≠ [] ∨
      ∀ entry ∈ r'.record, entry.endedAt.isSome = true) : Flows r' := by
  obtain ⟨hflows, hlog, hrecord⟩ := hk
  have hne := ne_nil_of_sublist hflows
  refine ⟨fun e' he' => ?_, ?_, fun hne' e' he' => ?_, fun hne' => ?_, fun hor e' he' => ?_,
    fun e' he' hkilled => ?_, fun hmem => ?_, ?_, ?_, fun e' he' => ?_, fun e' he' hmany => ?_⟩
  · obtain ⟨e, he, hkeeps⟩ := hrecord e' he'
    exact (h.record e he).of_keeps hkeeps
  · exact hflows.length_le.trans h.single
  · obtain ⟨e, he, hkeeps⟩ := hrecord e' he'
    exact hkeeps.handled (h.handled (hne hne') e he)
  · exact hlog ▸ h.logged (hne hne')
  · obtain ⟨e, he, hkeeps⟩ := hrecord e' he'
    rcases hor with hor | hor
    · exact hkeeps.ended (h.ended (.inl (hlog ▸ hor)) e he)
    · rcases hcompletions hor with hor | hended
      · exact hkeeps.ended (h.ended (.inr hor) e he)
      · exact hended e' he'
  · obtain ⟨e, he, hkeeps⟩ := hrecord e' he'
    exact hlog ▸ h.killed e he (hkeeps.killed hkilled)
  · obtain ⟨hnone, hhandled⟩ := h.succeeded (hlog ▸ hmem)
    refine ⟨fun hrunning => hnone (hflows.subset hrunning), fun e' he' => ?_⟩
    obtain ⟨e, he, hkeeps⟩ := hrecord e' he'
    exact hkeeps.handled (hhandled e he)
  · exact hlog ▸ h.last
  · have hcount : r'.flows.count .running ≤ r.flows.count .running := hflows.count_le _
    rw [hlog]
    exact (Nat.add_le_add_left hcount _).trans h.failures
  · obtain ⟨e, he, hkeeps⟩ := hrecord e' he'
    rw [hlog, hkeeps.count]
    exact h.counted e he
  · obtain ⟨e, he, hkeeps⟩ := hrecord e' he'
    exact fun hrunning => h.exhausted e he (hkeeps.count ▸ hmany) (hflows.subset hrunning)

theorem Flows.of_leaves (h : Flows r) (hk : Leaves r r') : Flows r' :=
  h.of_keeps hk.toKeepsFlows fun hne => .inl (ne_nil_of_sublist hk.completions hne)

theorem Frozen.of_record (h : Frozen r) (hflows : r'.flows ≠ [] → r.flows ≠ []) (hlog : r'.log = r.log)
    (hrecord : ∀ entry' ∈ r'.record, ∃ entry ∈ r.record,
      (entry.frozenResultText.isSome = true → entry'.frozenResultText.isSome = true) ∧
        entry'.lastAnnounceRetryAt = entry.lastAnnounceRetryAt)
    (htimers : r'.timers ≠ [] → r.timers ≠ [] ∨
      ∀ entry ∈ r'.record, entry.frozenResultText.isSome = true)
    (hcompletions : ∀ c ∈ r'.completions, c ∈ r.completions ∨
      (c.HasResult = true → ∀ entry ∈ r'.record, entry.frozenResultText.isSome = true)) : Frozen r' := by
  refine ⟨hlog ▸ h.started, fun e' he' => ?_, fun hor e' he' => ?_, fun c hc hresult e' he' => ?_⟩
  · obtain ⟨e, he, hfrozen, hlast⟩ := hrecord e' he'
    exact fun hretried => hfrozen (h.retried e he (hlast ▸ hretried))
  · obtain ⟨e, he, hfrozen, -⟩ := hrecord e' he'
    rcases hor with hne | hne | hne
    · exact hfrozen (h.record (.inl (hlog ▸ hne)) e he)
    · exact hfrozen (h.record (.inr (.inl (hflows hne))) e he)
    · rcases htimers hne with hne' | hset
      · exact hfrozen (h.record (.inr (.inr hne')) e he)
      · exact hset e' he'
  · rcases hcompletions c hc with hold | hnew
    · obtain ⟨e, he, hfrozen, -⟩ := hrecord e' he'
      exact hfrozen (h.completions c hold hresult e he)
    · exact hnew hresult e' he'

theorem Frozen.of_leaves (h : Frozen r) (hk : Leaves r r') : Frozen r' := by
  refine h.of_record (ne_nil_of_sublist hk.flows) hk.log (fun e' he' => ?_)
    (fun hne => .inl (ne_nil_of_sublist hk.timers hne)) fun _ hc => .inl (hk.completions.subset hc)
  obtain ⟨e, he, hkeeps⟩ := hk.record e' he'
  exact ⟨e, he, hkeeps.frozen, hkeeps.retried⟩

/-- A run without flows, of which none was started. -/
theorem Flows.of_idle (hflows : r.flows = []) (hlog : r.log = [])
    (hrecord : ∀ entry ∈ r.record, RecordFlows entry)
    (hended : r.completions ≠ [] → ∀ entry ∈ r.record, entry.endedAt.isSome = true) : Flows r := by
  refine ⟨hrecord, ?_, ?_, ?_, ?_, ?_, ?_, ?_, ?_, ?_, ?_⟩
  · simp [hflows]
  · simp [hflows]
  · simp [hflows]
  · rintro (hne | hne)
    · exact absurd hlog hne
    · exact hended hne
  · exact fun _ _ _ => hlog
  · simp [hlog]
  · exact hlog ▸ List.Pairwise.nil
  · simp [hflows, hlog]
  · simp [hlog]
  · simp [hflows]

/-! ### Resuming a run -/

/-- A run that waits for its next retry was retried before. -/
theorem retried_of_wait {entry : SubagentRunRecord} {waitMs : ℕ} (h : retryWaitMs entry now = some waitMs) :
    entry.lastAnnounceRetryAt.isSome = true := by
  unfold retryWaitMs at h
  split at h
  · cases h
  · rename_i last hlast
    simp [hlast]

theorem leaves_giveUp {entry : SubagentRunRecord} (hentry : r.record = some entry) (time : Time) :
    Leaves r { r with record := some { entry with cleanupCompletedAt := some time } } := by
  refine .of_record ?_
  rintro _ ⟨⟩
  exact ⟨entry, hentry, id, id, fun _ => rfl, id, rfl, id, rfl⟩

/-- What resuming a run does: it is noted that it was resumed, or it is given up, or a timer is armed,
or a flow is started. -/
theorem resume_cases (now : Time) (r : Run) :
    Leaves r (resumeSubagentRun now r).1 ∨
    (∃ timer, (∀ entry ∈ r.record, entry.lastAnnounceRetryAt.isSome = true) ∧
      (resumeSubagentRun now r).1 = { r with timers := r.timers ++ [timer], resumed := true }) ∨
    ∃ r', (∀ entry ∈ r.record, Resumable now entry) ∧ startSubagentAnnounceCleanupFlow r = some r' ∧
      (resumeSubagentRun now r).1 = { r' with resumed := true } := by
  unfold resumeSubagentRun
  split
  · exact .inl .same
  · split
    · exact .inl .same
    · rename_i entry hentry
      have hall {P : SubagentRunRecord → Prop} (h : P entry) : ∀ e ∈ r.record, P e := by
        rw [hentry]
        rintro _ ⟨⟩
        exact h
      split
      · exact .inl .same
      · rename_i hopen
        split
        · exact .inl (leaves_giveUp hentry now)
        · rename_i hfew
          split
          · exact .inl (leaves_giveUp hentry now)
          · rename_i hrecent
            split
            · rename_i waitMs hwait
              exact .inr (.inl ⟨_, hall (retried_of_wait hwait), rfl⟩)
            · split
              · rename_i hended
                split
                · exact .inl .same
                · rename_i hunsuppressed
                  split
                  · exact .inl .same
                  · rename_i r₁ hstart
                    obtain ⟨entry', hentry', -, hwaits, -⟩ := start_eq_some hstart
                    obtain rfl := some.inj (hentry.symm.trans hentry')
                    have hresumable : Resumable now entry :=
                      ⟨hended, by simpa using hopen, hwaits, by simpa using hunsuppressed,
                        not_le.mp hfew, by simpa using hrecent⟩
                    exact .inr (.inr ⟨r₁, hall hresumable, hstart, rfl⟩)
              · exact .inl .same

theorem Flows.resume (h : Flows r) : Flows (resumeSubagentRun now r).1 := by
  obtain hk | ⟨timer, -, heq⟩ | ⟨r', hresumable, hstart, heq⟩ := resume_cases now r
  · exact h.of_leaves hk
  · rw [heq]
    exact h.of_keeps (.of_record_eq (.refl _) rfl rfl) .inl
  · rw [heq]
    exact (h.start (fun e he => (hresumable e he).ended) hstart).of_leaves .same

/-- A run that is resumed has its result, if it gets a flow. -/
theorem Frozen.resume (h : Frozen r) (hresult : ∀ entry ∈ r.record, HasResult now entry) :
    Frozen (resumeSubagentRun now r).1 := by
  obtain hk | ⟨timer, hretried, heq⟩ | ⟨r', hresumable, hstart, heq⟩ := resume_cases now r
  · exact h.of_leaves hk
  · rw [heq]
    exact h.of_record id rfl (fun e he => ⟨e, he, id, rfl⟩)
      (fun _ => .inr fun e he => h.retried e he (hretried e he)) fun _ => .inl
  · rw [heq]
    exact (h.start (fun e he => hresult e he (hresumable e he)) hstart).of_leaves .same

/-- What another run's completion does with a run. -/
theorem deferred_cases (now : Time) (r : Run) :
    Leaves r (retryDeferredCompletedAnnounce now r) ∨
    retryDeferredCompletedAnnounce now r = (resumeSubagentRun now { r with resumed := false }).1 := by
  unfold retryDeferredCompletedAnnounce
  split
  · exact .inl .same
  · rename_i entry hentry
    split
    · exact .inl .same
    · split
      · exact .inl .same
      · split
        · exact .inl .same
        · split
          · exact .inl (leaves_giveUp hentry now)
          · exact .inr rfl

theorem Flows.deferred (h : Flows r) : Flows (retryDeferredCompletedAnnounce now r) := by
  obtain hk | heq := deferred_cases now r
  · exact h.of_leaves hk
  · rw [heq]
    exact Flows.resume (h.of_leaves .same)

theorem Frozen.deferred (h : Frozen r) (hresult : ∀ entry ∈ r.record, HasResult now entry) :
    Frozen (retryDeferredCompletedAnnounce now r) := by
  obtain hk | heq := deferred_cases now r
  · exact h.of_leaves hk
  · rw [heq]
    exact Frozen.resume (h.of_leaves .same) hresult

/-! ### The completion step -/

variable {outcome : SubagentRunOutcome}

/-- A late completion of a killed run finds that it had no flow. -/
theorem Flows.complete (h : Flows r) {endedAt : Time} {reason : EndedReason} :
    Flows (completeSubagentRun endedAt outcome reason r) := by
  unfold completeSubagentRun clearPendingLifecycleError
  dsimp only
  split
  · rename_i hnone
    exact h.of_leaves .same
  · rename_i entry hentry
    by_cases hundo : reason = .complete ∧ entry.suppressAnnounceReason = some .killed ∧
        (entry.cleanupHandled ∨ entry.cleanupCompletedAt.isSome)
    · have hlog : r.log = [] := h.killed entry hentry hundo.2.1
      have hflows : r.flows = [] := by
        by_contra hne
        exact h.logged hne hlog
      refine Flows.of_idle hflows hlog ?_ ?_
      · rintro _ ⟨⟩
        have hcount : entry.announceRetryCount = 0 :=
          ((h.record entry hentry).killed hundo.2.1).2
        refine ⟨?_, ?_, ?_⟩ <;> simp [undoKill, hundo, hcount, MAX_ANNOUNCE_RETRY_COUNT]
      · rintro - _ ⟨⟩
        rfl
    · refine h.of_keeps ⟨.refl _, rfl, ?_⟩ fun _ => .inr ?_
      · rintro _ ⟨⟩
        refine ⟨entry, hentry, ?_⟩
        rw [undoKill, if_neg hundo]
        exact ⟨fun _ => rfl, id, id, id, rfl, id, rfl⟩
      · rintro _ ⟨⟩
        rfl

theorem undoKill_frozenResultText (entry : SubagentRunRecord) (reason : EndedReason) :
    (undoKill entry reason).frozenResultText = entry.frozenResultText ∧
      (undoKill entry reason).lastAnnounceRetryAt = entry.lastAnnounceRetryAt := by
  unfold undoKill
  split <;> exact ⟨rfl, rfl⟩

theorem Frozen.complete (h : Frozen r) {endedAt : Time}
    {reason : EndedReason} : Frozen (completeSubagentRun endedAt outcome reason r) := by
  unfold completeSubagentRun clearPendingLifecycleError
  dsimp only
  split
  · exact h.of_leaves .same
  · rename_i entry hentry
    obtain ⟨hfrozen, hretried⟩ := undoKill_frozenResultText entry reason
    refine h.of_record id rfl ?_ .inl fun c hc => (mem_append.mp hc).imp_right fun hnew hresult => ?_
    · rintro _ ⟨⟩
      exact ⟨entry, hentry, fun hset => hfrozen.symm ▸ hset, hretried⟩
    · rintro _ ⟨⟩
      rw [mem_singleton.mp hnew] at hresult
      simpa [Completion.HasResult, hfrozen] using hresult

/-- What comes after the capture: nothing, or the hook, or a flow is started. -/
theorem afterCapture_cases (reason : EndedReason) (r : Run) :
    (afterCapture reason r).1 = r ∨
    (afterCapture reason r).1 = { r with completions := r.completions ++ [.hooking] } ∨
    ∃ r', startSubagentAnnounceCleanupFlow r = some r' ∧ (afterCapture reason r).1 = r' := by
  unfold afterCapture
  split
  · exact .inl rfl
  · dsimp only
    split
    · exact .inr (.inl rfl)
    · split
      · exact .inl rfl
      · split
        · exact .inl rfl
        · rename_i r' hstart
          exact .inr (.inr ⟨r', hstart, rfl⟩)

variable {i : ℕ} {reason : EndedReason} {captures mutated : Bool}

theorem leaves_freeze (r : Run) (i : ℕ) (text : Option String) (captures : Bool) :
    Leaves r (freezeResult text captures { r with completions := r.completions.eraseIdx i }) := by
  unfold freezeResult
  split
  · refine ⟨⟨.refl _, rfl, fun entry' hentry' => ?_⟩, eraseIdx_sublist .., .refl _⟩
    obtain ⟨entry, hentry, rfl⟩ := map_eq_some_iff.mp hentry'
    exact ⟨entry, hentry, id, id, id, id, rfl, fun _ => rfl, rfl⟩
  · exact ⟨.of_record_eq (.refl _) rfl rfl, eraseIdx_sublist .., .refl _⟩

theorem leaves_hooked (r : Run) (i : ℕ) : Leaves r { r with completions := r.completions.eraseIdx i } :=
  ⟨.of_record_eq (.refl _) rfl rfl, eraseIdx_sublist .., .refl _⟩

theorem Flows.afterCapture (h : Flows r) (hended : ∀ entry ∈ r.record, entry.endedAt.isSome = true) :
    Flows (afterCapture reason r).1 := by
  obtain heq | heq | ⟨r', hstart, heq⟩ := afterCapture_cases reason r
  · rwa [heq]
  · rw [heq]
    exact h.of_keeps (.of_record_eq (.refl _) rfl rfl) fun _ => .inr hended
  · rw [heq]
    exact h.start hended hstart

theorem Frozen.afterCapture (h : Frozen r)
    (hset : ∀ entry ∈ r.record, entry.frozenResultText.isSome = true) : Frozen (afterCapture reason r).1 := by
  obtain heq | heq | ⟨r', hstart, heq⟩ := afterCapture_cases reason r
  · rwa [heq]
  · rw [heq]
    exact h.of_record id rfl (fun e he => ⟨e, he, id, rfl⟩) .inl fun c hc =>
      (mem_append.mp hc).imp_right fun _ _ => hset
  · rw [heq]
    exact h.start hset hstart

/-- The run of a completion step has ended. -/
theorem Flows.captured (h : Flows r) (hi : r.completions[i]? = some (.capturing reason captures mutated))
    (text : Option String) : Flows (SubagentRegistry.afterCapture reason
      (freezeResult text captures { r with completions := r.completions.eraseIdx i })).1 := by
  have hkeeps := leaves_freeze r i text captures
  refine (h.of_leaves hkeeps).afterCapture fun entry' hentry' => ?_
  obtain ⟨entry, hentry, hkept⟩ := hkeeps.record entry' hentry'
  exact hkept.ended (h.ended (.inr (ne_nil_of_mem (mem_of_getElem? hi))) entry hentry)

/-- After the capture the result is frozen. -/
theorem Frozen.captured (h : Frozen r) (hi : r.completions[i]? = some (.capturing reason captures mutated))
    (text : Option String) : Frozen (SubagentRegistry.afterCapture reason
      (freezeResult text captures { r with completions := r.completions.eraseIdx i })).1 := by
  refine (h.of_leaves (leaves_freeze r i text captures)).afterCapture ?_
  cases captures with
  | true =>
    intro entry' hentry'
    obtain ⟨entry, -, rfl⟩ := map_eq_some_iff.mp hentry'
    rfl
  | false => exact h.completions _ (mem_of_getElem? hi) rfl

/-! ### The end of a flow -/

/-- What is decided after a failed flow: descendants are waited for only if there are some, and else a
retry is counted. -/
theorem decision_cases (entry : SubagentRunRecord) (now : Time) (pendingDescendants : ℕ) :
    match resolveDeferredCleanupDecision entry now pendingDescendants with
    | .deferDescendants _ => 0 < pendingDescendants
    | .giveUp none => 0 < pendingDescendants
    | .giveUp (some retryCount) => retryCount = entry.announceRetryCount + 1
    | .retry retryCount _ => retryCount = entry.announceRetryCount + 1 ∧
        retryCount < MAX_ANNOUNCE_RETRY_COUNT := by
  unfold resolveDeferredCleanupDecision
  dsimp only
  by_cases hwaits : entry.expectsCompletionMessage = true ∧ 0 < pendingDescendants
  · rw [if_pos hwaits]
    split_ifs
    · exact hwaits.2
    · exact hwaits.2
  · rw [if_neg hwaits]
    by_cases hdone : MAX_ANNOUNCE_RETRY_COUNT ≤ entry.announceRetryCount + 1 ∨
        (if entry.expectsCompletionMessage = true then
          entry.expectsCompletionMessage && decide ((entry.endedAt.map fun endedAt =>
            ((now : ℕ) : ℤ) - ((endedAt : ℕ) : ℤ)).getD 0 > ANNOUNCE_COMPLETION_HARD_EXPIRY_MS)
        else decide ((entry.endedAt.map fun endedAt =>
            ((now : ℕ) : ℤ) - ((endedAt : ℕ) : ℤ)).getD 0 > ANNOUNCE_EXPIRY_MS)) = true
    · rw [if_pos hdone]
    · rw [if_neg hdone]
      exact ⟨rfl, not_le.mp fun hmany => hdone (.inl hmany)⟩

/-- The record of a run, when its flow has ended. -/
structure Ends (e : FlowEvent) (flows : List Flow) (entry entry' : SubagentRunRecord) : Prop where
  ended : entry'.endedAt = entry.endedAt
  suppressed : entry'.suppressAnnounceReason = entry.suppressAnnounceReason
  /-- After a success, and while the hook is waited for, it is handled. -/
  handled : e = .succeeded ∨ flows ≠ [] → entry'.cleanupHandled = true
  counted : entry.announceRetryCount + [e].count (.failed 0) ≤ entry'.announceRetryCount
  /-- After too many it stays handled. -/
  exhausted : MAX_ANNOUNCE_RETRY_COUNT ≤ entry'.announceRetryCount → entry'.cleanupHandled = true

/-- A flow that ended counts as it did while it was in progress. -/
theorem Flows.ends (h : Flows r) (hi : r.flows[i]? = some .running) {e : FlowEvent}
    (he : ∀ frozen, e ≠ .started frozen) (hlog : r'.log = r.log ++ [e]) (hflows : r'.flows.length ≤ 1)
    (hnone : .running ∉ r'.flows)
    (hrecord : ∀ entry' ∈ r'.record, ∃ entry ∈ r.record, Ends e r'.flows entry entry') : Flows r' := by
  have hrunning : .running ∈ r.flows := mem_of_getElem? hi
  have hsome : r.log ≠ [] := h.logged (ne_nil_of_mem hrunning)
  have hsucceeded : .succeeded ∉ r.log := fun hmem => (h.succeeded hmem).1 hrunning
  have hkilled : ∀ entry ∈ r.record, entry.suppressAnnounceReason ≠ some .killed := fun entry hentry hk =>
    hsome (h.killed entry hentry hk)
  have hended : ∀ entry ∈ r.record, entry.endedAt.isSome = true := h.ended (.inl hsome)
  refine ⟨fun e' he' => ?_, hflows, fun hne e' he' => ?_, fun _ => ?_, fun _ e' he' => ?_,
    fun e' he' hk => ?_, fun hmem => ⟨hnone, fun e' he' => ?_⟩, ?_, ?_, fun e' he' => ?_, fun _ _ _ => hnone⟩
  · obtain ⟨entry, hentry, hends⟩ := hrecord e' he'
    refine ⟨fun hrunning => ?_, fun hk => ?_, fun hmany => .inl (hends.exhausted hmany)⟩
    · have := hended entry hentry
      simp [← hends.ended, hrunning] at this
    · exact absurd (hends.suppressed ▸ hk) (hkilled entry hentry)
  · obtain ⟨entry, hentry, hends⟩ := hrecord e' he'
    exact hends.handled (.inr hne)
  · simp [hlog]
  · obtain ⟨entry, hentry, hends⟩ := hrecord e' he'
    rw [hends.ended]
    exact hended entry hentry
  · obtain ⟨entry, hentry, hends⟩ := hrecord e' he'
    exact absurd (hends.suppressed ▸ hk) (hkilled entry hentry)
  · obtain ⟨entry, hentry, hends⟩ := hrecord e' he'
    rw [hlog, mem_append, mem_singleton] at hmem
    exact hends.handled (.inl (hmem.resolve_left hsucceeded).symm)
  · exact hlog ▸ h.last.concat fun _ => he
  · have hbound := h.failures
    have hone : 1 ≤ r.flows.count .running := one_le_count_iff.mpr hrunning
    have hlast : [e].count (.failed 0) ≤ 1 := count_le_length
    rw [hlog, count_append, count_eq_zero_of_not_mem hnone]
    omega
  · obtain ⟨entry, hentry, hends⟩ := hrecord e' he'
    rw [hlog, count_append]
    exact (Nat.add_le_add_right (h.counted entry hentry) _).trans hends.counted

theorem Flows.finalize (h : Flows r) (hi : r.flows[i]? = some .running) (didAnnounce : Bool)
    (pendingDescendants : ℕ) :
    Flows (finalizeSubagentCleanup now didAnnounce pendingDescendants { r with
      flows := r.flows.eraseIdx i
      log := r.log ++ [if didAnnounce then .succeeded else .failed pendingDescendants] }).1 := by
  have hrunning : .running ∈ r.flows := mem_of_getElem? hi
  have herased : r.flows.eraseIdx i = [] := by
    obtain ⟨hlt, -⟩ := List.getElem?_eq_some_iff.mp hi
    have hsingle := h.single
    refine eq_nil_of_length_eq_zero ?_
    rw [length_eraseIdx_of_lt hlt]
    omega
  unfold finalizeSubagentCleanup
  dsimp only
  rw [herased]
  split
  · rename_i hnone
    refine h.ends hi ?_ rfl (by simp) (by simp) (by simp [hnone])
    split <;> simp
  · rename_i entry hentry
    have hhandled : entry.cleanupHandled = true :=
      h.handled (ne_nil_of_mem hrunning) entry hentry
    have hfew : entry.announceRetryCount < MAX_ANNOUNCE_RETRY_COUNT := by
      by_contra hmany
      exact h.exhausted entry hentry (not_lt.mp hmany) hrunning
    split
    · refine h.ends hi ?_ rfl (by simp) (by simp) ?_
      · simp
      · rintro _ ⟨⟩
        exact ⟨entry, hentry, rfl, rfl, fun _ => hhandled, by simp, fun _ => hhandled⟩
    · have hcases := decision_cases entry now pendingDescendants
      split
      · rename_i delayMs hdecision
        rw [hdecision] at hcases
        refine h.ends hi ?_ rfl (by simp [deferRetry]) (by simp [deferRetry]) ?_
        · simp
        · rintro _ ⟨⟩
          refine ⟨entry, hentry, rfl, rfl, ?_, ?_, fun hmany => absurd hmany (not_le.mpr hfew)⟩
          · simp [deferRetry]
          · simp [Nat.pos_iff_ne_zero.mp hcases]
      · rename_i retryCount hdecision
        rw [hdecision] at hcases
        refine h.ends hi ?_ rfl (by simp) (by simp) ?_
        · simp
        · rintro _ ⟨⟩
          refine ⟨entry, hentry, rfl, rfl, fun _ => hhandled, ?_, fun _ => hhandled⟩
          cases retryCount with
          | none => simp [Nat.pos_iff_ne_zero.mp hcases]
          | some retryCount =>
            obtain rfl : retryCount = entry.announceRetryCount + 1 := hcases
            exact Nat.add_le_add_left count_le_length _
      · rename_i retryCount resumeDelayMs hdecision
        rw [hdecision] at hcases
        obtain ⟨rfl, hfew'⟩ := hcases
        refine h.ends hi ?_ rfl (by simp [deferRetry]) (by simp [deferRetry]) ?_
        · simp
        · rintro _ ⟨⟩
          refine ⟨entry, hentry, rfl, rfl, ?_, ?_, fun hmany => absurd hmany (not_le.mpr hfew')⟩
          · simp [deferRetry]
          · exact Nat.add_le_add_left count_le_length _

/-- The end of a flow leaves the result. -/
theorem finalize_keeps (now : Time) (didAnnounce : Bool) (pendingDescendants : ℕ) (r : Run) :
    (finalizeSubagentCleanup now didAnnounce pendingDescendants r).1.log = r.log ∧
    ∀ entry' ∈ (finalizeSubagentCleanup now didAnnounce pendingDescendants r).1.record,
      ∃ entry ∈ r.record, entry'.frozenResultText = entry.frozenResultText := by
  unfold finalizeSubagentCleanup
  split
  · rename_i hnone
    exact ⟨rfl, by simp [hnone]⟩
  · rename_i entry hentry
    have hsame {e : SubagentRunRecord} (he : e.frozenResultText = entry.frozenResultText) :
        ∀ entry' ∈ some e, ∃ entry ∈ r.record, entry'.frozenResultText = entry.frozenResultText := by
      rintro _ ⟨⟩
      exact ⟨entry, hentry, he⟩
    split
    · exact ⟨rfl, hsame rfl⟩
    · split
      · exact ⟨rfl, hsame rfl⟩
      · exact ⟨rfl, hsame rfl⟩
      · exact ⟨rfl, hsame rfl⟩

theorem Frozen.finalize (h : Frozen r) (hi : r.flows[i]? = some .running) (didAnnounce : Bool)
    (pendingDescendants : ℕ) :
    Frozen (finalizeSubagentCleanup now didAnnounce pendingDescendants { r with
      flows := r.flows.eraseIdx i
      log := r.log ++ [if didAnnounce then .succeeded else .failed pendingDescendants] }).1 := by
  have hset := h.record (.inr (.inl (ne_nil_of_mem (mem_of_getElem? hi))))
  obtain ⟨hlog, hrecord⟩ := finalize_keeps now didAnnounce pendingDescendants { r with
    flows := r.flows.eraseIdx i
    log := r.log ++ [if didAnnounce then .succeeded else .failed pendingDescendants] }
  have hset' : ∀ entry' ∈ (finalizeSubagentCleanup now didAnnounce pendingDescendants { r with
      flows := r.flows.eraseIdx i
      log := r.log ++ [if didAnnounce then .succeeded else .failed pendingDescendants] }).1.record,
      entry'.frozenResultText.isSome = true := by
    intro entry' hentry'
    obtain ⟨entry, hentry, heq⟩ := hrecord entry' hentry'
    exact heq.symm ▸ hset entry hentry
  refine ⟨fun frozen hmem => ?_, fun e he _ => hset' e he, fun _ => hset', fun _ _ _ => hset'⟩
  rw [hlog, mem_append, mem_singleton] at hmem
  rcases hmem with hmem | hmem
  · exact h.started frozen hmem
  · split at hmem <;> cases hmem

/-! ### The other steps -/

theorem leaves_noted (now : Time) (outcome : SubagentRunOutcome) (endedAt : Option Time)
    (startedAt : Bool) (r : Run) : Leaves r (noteWaitResult now outcome endedAt startedAt r).1 := by
  unfold noteWaitResult
  split
  · exact .same
  · rename_i entry hentry
    refine .of_record ?_
    rintro _ ⟨⟩
    exact ⟨entry, hentry, fun _ => rfl, id, id, id, rfl, id, rfl⟩

theorem leaves_marked (r : Run) : Leaves r (markSteerRestart r).1 := by
  unfold markSteerRestart
  split
  · exact .same
  · rename_i entry hentry
    split
    · exact .same
    · refine .of_record ?_
      rintro _ ⟨⟩
      exact ⟨entry, hentry, id, id, id, fun h => (by cases h), rfl, id, rfl⟩

theorem leaves_cleared (r : Run) : Leaves r (clearSteerRestart r) := by
  refine .of_record fun entry' hentry' => ?_
  obtain ⟨entry, hentry, rfl⟩ := map_eq_some_iff.mp hentry'
  exact ⟨entry, hentry, id, id, id, fun h => (by cases h), rfl, id, rfl⟩

theorem leaves_cleaned (r : Run) (i : ℕ) (cleanup : Cleanup) (completedAt : Time) :
    Leaves r (completeCleanupBookkeeping cleanup completedAt { r with flows := r.flows.eraseIdx i }) := by
  cases cleanup with
  | delete => exact ⟨⟨eraseIdx_sublist .., rfl, fun _ hentry => by cases hentry⟩, .refl _, .refl _⟩
  | keep =>
    refine ⟨⟨eraseIdx_sublist .., rfl, fun entry' hentry' => ?_⟩, .refl _, .refl _⟩
    obtain ⟨entry, hentry, rfl⟩ := map_eq_some_iff.mp hentry'
    exact ⟨entry, hentry, id, id, fun _ => rfl, id, rfl, id, rfl⟩

theorem leaves_removed (r : Run) :
    Leaves r { clearPendingLifecycleError r with record := none, resumed := false } :=
  .of_record fun _ hentry => by cases hentry

theorem leaves_timer (r : Run) {resumed : Bool} :
    Leaves r { r with timers := r.timers.eraseIdx i, resumed } :=
  ⟨.of_record_eq (.refl _) rfl rfl, .refl _, eraseIdx_sublist ..⟩

/-- What is written to the file is as the run is. -/
theorem Writes.leaves (h : Writes now r r') : Leaves r r' := by
  cases h with
  | noted outcome endedAt startedAt => exact leaves_noted now outcome endedAt startedAt r
  | frozen text hi => exact leaves_freeze r _ text _
  | cleared => exact leaves_cleared r

/-- A run is killed before its end: it had no flow. -/
theorem Flows.terminate (h : Flows r) {reason : String} : Flows (terminate now reason r) := by
  cases hrecord : r.record with
  | none =>
    refine h.of_leaves (.of_record ?_)
    simp [hrecord]
  | some entry =>
    have hrecord' : (SubagentRegistry.terminate now reason r).record =
        some (terminateRecord now reason entry) := by simp [SubagentRegistry.terminate, hrecord]
    cases hended : entry.endedAt with
    | some endedAt =>
      have hsame : terminateRecord now reason entry = entry := by simp [terminateRecord, hended]
      exact h.of_keeps (.of_record_eq (.refl _) rfl (by rw [hrecord', hsame, hrecord])) .inl
    | none =>
      have hidle : ¬ (r.log ≠ [] ∨ r.completions ≠ []) := fun hor => by
        simpa [hended] using h.ended hor entry hrecord
      obtain ⟨hlog, hcompletions⟩ : r.log = [] ∧ r.completions = [] := by simpa using hidle
      have hflows : r.flows = [] := by
        by_contra hne
        exact h.logged hne hlog
      refine Flows.of_idle hflows hlog (fun entry' hentry' => ?_) fun hne => absurd hcompletions hne
      rw [hrecord'] at hentry'
      obtain rfl := some.inj hentry'
      have hcount : entry.announceRetryCount = 0 := (h.record entry hrecord).running hended
      refine ⟨?_, ?_, ?_⟩ <;> simp [terminateRecord, hended, hcount]

theorem Frozen.terminate (h : Frozen r) {reason : String} : Frozen (terminate now reason r) := by
  refine h.of_record id rfl (fun entry' hentry' => ?_) .inl fun _ => .inl
  obtain ⟨entry, hentry, rfl⟩ := map_eq_some_iff.mp hentry'
  refine ⟨entry, hentry, ?_⟩
  unfold terminateRecord
  split <;> exact ⟨id, rfl⟩

/-! ### All steps -/

theorem Flows.step (h : Flows r) (hstep : RunStep G now r r') : Flows r' := by
  cases hstep with
  | same => exact h
  | lifecycleError pending _ => exact h.of_leaves .same
  | removed => exact h.of_leaves (leaves_removed r)
  | waited outcome endedAt startedAt completedAt reason =>
    exact Flows.complete (h.of_leaves (leaves_noted now outcome endedAt startedAt r))
  | completing endedAt outcome reason => exact h.complete
  | captured text hi => exact h.captured hi text
  | hooked _ => exact h.of_leaves (leaves_hooked r _)
  | started hi hstart =>
    have hended := h.ended (.inr (ne_nil_of_mem (mem_of_getElem? hi)))
    exact Flows.start (h.of_leaves (leaves_hooked r _)) hended hstart
  | flowEnds didAnnounce pendingDescendants hi => exact h.finalize hi didAnnounce pendingDescendants
  | cleaned i cleanup completedAt => exact h.of_leaves (leaves_cleaned r i cleanup completedAt)
  | timer ht => exact Flows.resume (h.of_leaves (leaves_timer r))
  | marked => exact h.of_leaves (leaves_marked r)
  | cleared _ => exact h.of_leaves (leaves_cleared r)
  | unmarked hg => exact Flows.resume (h.of_leaves (leaves_cleared r))
  | deferred hg => exact h.deferred
  | terminated reason => exact h.terminate

/-- What a step keeps of the result of a run, if a run that is resumed by others has it. -/
theorem Frozen.step (h : Frozen r) (hstep : RunStep HasResult now r r') : Frozen r' := by
  cases hstep with
  | same => exact h
  | lifecycleError pending _ => exact h.of_leaves .same
  | removed => exact h.of_leaves (leaves_removed r)
  | waited outcome endedAt startedAt completedAt reason =>
    exact Frozen.complete (h.of_leaves (leaves_noted now outcome endedAt startedAt r))
  | completing endedAt outcome reason => exact h.complete
  | captured text hi => exact h.captured hi text
  | hooked _ => exact h.of_leaves (leaves_hooked r _)
  | started hi hstart =>
    exact Frozen.start (h.of_leaves (leaves_hooked r _)) (h.completions _ (mem_of_getElem? hi) rfl) hstart
  | flowEnds didAnnounce pendingDescendants hi => exact h.finalize hi didAnnounce pendingDescendants
  | cleaned i cleanup completedAt => exact h.of_leaves (leaves_cleaned r i cleanup completedAt)
  | timer ht =>
    -- A timer is of a run that had a flow.
    have hset := h.record (.inr (.inr (ne_nil_of_mem (mem_of_getElem? ht))))
    exact Frozen.resume (h.of_leaves (leaves_timer r)) fun entry hentry _ => hset entry hentry
  | marked => exact h.of_leaves (leaves_marked r)
  | cleared _ => exact h.of_leaves (leaves_cleared r)
  | unmarked hg => exact Frozen.resume (h.of_leaves (leaves_cleared r)) hg
  | deferred hg => exact h.deferred hg
  | terminated reason => exact h.terminate

theorem flows_invariant : RunInvariant (fun _ _ => True) (fun _ => Flows) RecordFlows where
  step := fun h hstep => h.step hstep
  record := fun h => h.record
  writes := fun h hwrites => (h.of_leaves hwrites.leaves).record
  empty := Flows.of_idle rfl rfl (by simp) (by simp)
  restored := fun h _ => Flows.resume (Flows.of_idle rfl rfl (by simpa using h) (by simp))
  new := fun h => Flows.of_idle rfl rfl
    (by simpa using ⟨fun _ => h.count, by simp [h.unsuppressed], by simp [h.count, MAX_ANNOUNCE_RETRY_COUNT]⟩)
    (by simp)

theorem frozen_invariant : RunInvariant HasResult (fun _ => Frozen) RecordFrozen where
  step := fun h hstep => h.step hstep
  record := fun h => h.retried
  writes := fun h hwrites => (h.of_leaves hwrites.leaves).retried
  empty := ⟨by simp, by simp, by simp, by simp⟩
  restored := fun h hg => Frozen.resume ⟨by simp, by simpa using h, by simp, by simp⟩ (by simpa using hg)
  new := fun h => ⟨by simp, by simp [RecordFrozen, h.retried], by simp, by simp⟩

/-- The announce flows of a run. In every reachable state a run has at most one flow in progress; no
flow was started after a success; and at most `MAX_ANNOUNCE_RETRY_COUNT` flows failed with no
descendant pending. If the steps resumed no run before its result was captured, each flow was started
with the frozen result. -/
theorem single_flow_and_frozen {as : List Action} {s : State}
    (hs : exec SubagentRegistry.next State.init as = some s) (runId : String) :
    (s.run runId).flows.length ≤ 1 ∧ NoStartAfterSuccess (s.run runId).log ∧
      (s.run runId).log.count (.failed 0) ≤ MAX_ANNOUNCE_RETRY_COUNT ∧
      (Meets SubagentRegistry.next Calm State.init as →
        ∀ frozen, .started frozen ∈ (s.run runId).log → frozen = true) := by
  have hflows : AllRuns (fun _ => Flows) RecordFlows s :=
    exec_invariant (fun _ _ _ h hst => h.next flows_invariant guarded_true hst) (.init flows_invariant) hs
  have hrun := hflows.run runId
  refine ⟨hrun.single, hrun.last, (Nat.le_add_right _ _).trans hrun.failures, fun hcalm => ?_⟩
  have hfrozen : AllRuns (fun _ => Frozen) RecordFrozen s :=
    exec_invariant_of_meets (fun _ _ _ h hguard hst => h.next frozen_invariant hguard hst) hcalm
      (.init frozen_invariant) hs
  exact (hfrozen.run runId).started

/-! ### A flow before the capture -/

/-- A run is announced; its cleanup waits for the hook. -/
def announcedRun : List Action :=
  [.register "run-2" .keep .run true, .lifecycleEnd "run-2" none false,
    .captured "run-2" 0 (some "done"), .flowResult "run-2" 0 true 0]

/-- Another run ends, and its result is being captured when the cleanup of the first is completed:
its flow is started without the result. -/
theorem flow_before_capture :
    ∃ s, exec SubagentRegistry.next State.init (announcedRun ++
        [.register "run-1" .keep .run true, .lifecycleEnd "run-1" none false, .finalized "run-2" 0]) =
          some s ∧
      (s.run "run-1").completions = [.capturing .complete true true] ∧
      (s.run "run-1").log = [.started false] := by
  have hrun : (exec SubagentRegistry.next State.init (announcedRun ++
        [.register "run-1" .keep .run true, .lifecycleEnd "run-1" none false, .finalized "run-2" 0])).map
      (fun s => ((s.run "run-1").completions, (s.run "run-1").log)) =
        some ([.capturing .complete true true], [.started false]) := by
    decide +kernel
  obtain ⟨s, hs, heq⟩ := map_eq_some_iff.mp hrun
  exact ⟨s, hs, (Prod.mk.inj heq).1, (Prod.mk.inj heq).2⟩

/-- A run has its result, and its announce flow has failed. -/
def deferredRun : List Action :=
  [.register "run-1" .keep .run true, .lifecycleEnd "run-1" none false,
    .captured "run-1" 0 (some "reply"), .flowResult "run-1" 0 false 0, .tick 2000]

/-- The cleanup of the second run is completed, which starts the flow of the first again, with its
result. -/
theorem single_flow_and_frozen_announced :
    ∃ s, exec SubagentRegistry.next State.init (deferredRun ++ announcedRun ++ [.finalized "run-2" 0]) =
        some s ∧
      (s.run "run-1").log = [.started true, .failed 0, .started true] ∧
      (s.run "run-1").flows.length ≤ 1 ∧ NoStartAfterSuccess (s.run "run-1").log ∧
      (s.run "run-1").log.count (.failed 0) ≤ MAX_ANNOUNCE_RETRY_COUNT ∧
      ∀ frozen, .started frozen ∈ (s.run "run-1").log → frozen = true := by
  have hrun : (exec SubagentRegistry.next State.init
      (deferredRun ++ announcedRun ++ [.finalized "run-2" 0])).map (fun s => (s.run "run-1").log) =
        some [.started true, .failed 0, .started true] := by
    decide +kernel
  have hcalm : Meets SubagentRegistry.next Calm State.init
      (deferredRun ++ announcedRun ++ [.finalized "run-2" 0]) := by
    decide +kernel
  obtain ⟨s, hs, hlog⟩ := map_eq_some_iff.mp hrun
  obtain ⟨hsingle, hlast, hfew, hfrozen⟩ := single_flow_and_frozen hs "run-1"
  exact ⟨s, hs, hlog, hsingle, hlast, hfew, hfrozen hcalm⟩

end Foxclaw.Agents.SubagentRegistry
