import Foxclaw.Process.CommandQueueTasks

/-!
# Command lanes: the concurrency bound and work conservation

A task is started only below the lane's concurrency, and no entry is left waiting beside
a free slot. The second is an invariant of the call stack (`Pumped`): whenever a lane could
start an entry, a pump of that lane is running or about to be. When the stack is empty
there is none, so no lane could start anything.

`setCommandLaneConcurrency` clamps its argument by `Math.max(1, Math.floor(maxConcurrent))`,
which keeps `NaN`. A lane with the concurrency `NaN` never starts another entry, so
that no entry is left waiting beside a free slot only in runs that never pass `NaN`.
-/

namespace Foxclaw.Process.CommandQueue

open List Option Foxclaw.Runs

/-- A pump of the lane runs, or `resetAllLanes` will begin one. -/
def PumpComing (stack : List Frame) (lane : String) : Prop :=
  .pump lane ∈ stack ∨ ∃ lanes, .drainLanes lanes ∈ stack ∧ lane ∈ lanes

variable {lane : String}

theorem PumpComing.mono {stack stack' : List Frame} (h : PumpComing stack lane)
    (hsub : ∀ f ∈ stack, f ∈ stack') : PumpComing stack' lane :=
  h.imp (hsub _) fun ⟨lanes, hl, hm⟩ => ⟨lanes, hsub _ hl, hm⟩

/-- Whenever a lane could start an entry, its pump is coming. -/
structure Pumped (s : State) : Prop where
  /-- The `draining` flag is set only while a pump of the lane runs. -/
  draining : ∀ lane, (s.lanes lane).draining = true → .pump lane ∈ s.stack
  /-- A lane that could start an entry is about to. -/
  waiting : ∀ lane, (s.lanes lane).canStart = true → PumpComing s.stack lane

theorem Pumped.init : Pumped .init :=
  ⟨by simp [State.init, LaneState.create], by simp [State.init, LaneState.create, LaneState.canStart]⟩

variable {s : State}

/-- `drainLane` sees to its lane: only the other lanes need to be seen to before. -/
theorem pumped_drainLane (hd : ∀ k, (s.lanes k).draining = true → .pump k ∈ s.stack)
    (hw : ∀ k, k ≠ lane → (s.lanes k).canStart = true → PumpComing s.stack k) :
    Pumped (drainLane s lane) := by
  have hsub : ∀ f ∈ s.stack, f ∈ (drainLane s lane).stack := by
    intro f hf
    obtain h | ⟨h, -⟩ := drainLane_stack s lane <;> rw [h]
    · exact mem_cons_of_mem _ hf
    · exact hf
  have hpump : .pump lane ∈ (drainLane s lane).stack := by
    obtain h | ⟨h, hf⟩ := drainLane_stack s lane
    · rw [h]; exact mem_cons_self
    · rw [h]; exact hd lane hf
  refine ⟨fun k hk => ?_, fun k hk => ?_⟩
  · by_cases e : k = lane
    · exact e ▸ hpump
    · refine hsub _ (hd k ?_)
      unfold drainLane at hk
      simp only at hk
      split at hk
      · rwa [getLaneState_lanes] at hk
      · rwa [push_lanes, modifyLane_of_ne _ _ e, getLaneState_lanes] at hk
  · by_cases e : k = lane
    · exact .inl (e ▸ hpump)
    · have := drainLane_field (·.canStart) (fun _ _ => rfl) s lane k
      exact (hw k e (this ▸ hk)).mono hsub

theorem Pumped.mono {s s' : State} (h : Pumped s)
    (hd : ∀ k, (s'.lanes k).draining = true → (s.lanes k).draining = true)
    (hw : ∀ k, (s'.lanes k).canStart = true → (s.lanes k).canStart = true)
    (hp : ∀ k, .pump k ∈ s.stack → .pump k ∈ s'.stack)
    (hc : ∀ k, PumpComing s.stack k → PumpComing s'.stack k) : Pumped s' :=
  ⟨fun k hk => hp k (h.draining k (hd k hk)), fun k hk => hc k (h.waiting k (hw k hk))⟩

theorem Pumped.getLaneState (h : Pumped s) (lane : String) : Pumped (getLaneState s lane) :=
  h.mono (by simp) (by simp) (by simp) (by simp)

theorem Pumped.resetAllLanes (h : Pumped s) : Pumped (resetAllLanes s) := by
  refine ⟨fun k hk => ?_, fun k hk => ?_⟩
  · simp only [CommandQueue.resetAllLanes] at hk ⊢
    split at hk
    · cases hk
    · exact mem_cons_of_mem _ (h.draining k hk)
  · simp only [CommandQueue.resetAllLanes] at hk ⊢
    split at hk
    · -- a lane with entries is among the lanes to drain
      rename_i hn
      have hq : 0 < (s.lanes k).queue.length := by
        simp only [LaneState.canStart, Bool.and_eq_true, decide_eq_true_eq] at hk
        exact hk.2
      exact .inr ⟨_, mem_cons_self, mem_filter.mpr ⟨hn, by simpa using hq⟩⟩
    · exact (h.waiting k hk).mono fun _ => mem_cons_of_mem _

theorem Pumped.pushEntry (h : Pumped s) (lane : String) :
    Pumped (CommandQueue.drainLane (pushEntry s lane) lane) := by
  refine pumped_drainLane (fun k hk => h.draining k ?_) (fun k hk hc => h.waiting k ?_)
  · rwa [pushEntry_draining] at hk
  · rwa [pushEntry_lanes, modifyLane_of_ne _ _ hk] at hc

theorem Pumped.setMaxConcurrent (h : Pumped s) (lane : String) (n : JsNumber) :
    Pumped (CommandQueue.drainLane (setMaxConcurrent s lane n) lane) := by
  refine pumped_drainLane (fun k hk => h.draining k ?_) (fun k hk hc => h.waiting k ?_)
  · rwa [setMaxConcurrent_draining] at hk
  · rwa [setMaxConcurrent_lanes, modifyLane_of_ne _ _ hk] at hc

theorem Pumped.rejectQueue (h : Pumped s) (lane : String) : Pumped (rejectQueue s lane) := by
  refine h.mono (fun k hk => ?_) (fun k hk => ?_) (fun _ hk => hk) (fun _ hk => hk)
  · rwa [rejectQueue_draining] at hk
  · rw [rejectQueue_lanes] at hk
    by_cases e : k = lane
    · rw [e, modifyLane_self] at hk
      simp [LaneState.canStart] at hk
    · rwa [modifyLane_of_ne _ _ e] at hk

theorem Pumped.call (h : Pumped s) (c : Call) : Pumped (c.apply s) := by
  cases c with
  | enqueue lane =>
    simp only [Call.apply, enqueueCommandInLane]
    split
    · exact h.mono (fun _ => id) (fun _ => id) (fun _ => id) (fun _ => id)
    · exact (h.getLaneState _).pushEntry _
  | setConcurrency lane n =>
    simp only [Call.apply, setCommandLaneConcurrency]
    exact (h.getLaneState _).setMaxConcurrent _ _
  | clear lane => exact h.rejectQueue (cleanLane lane)
  | reset => exact h.resetAllLanes
  | markDraining => exact h.mono (fun _ => id) (fun _ => id) (fun _ => id) (fun _ => id)

theorem Pumped.pumpTurn (h : Pumped s) {rest : List Frame}
    (hs : s.stack = .pump lane :: rest) : Pumped (pumpTurn s lane) := by
  obtain ⟨entry, queue, hq, hc, e⟩ | ⟨hc, e⟩ := pumpTurn_cases s lane <;> rw [e]
  · -- the pump stays on the stack
    have hsub : ∀ f ∈ s.stack, f ∈ (startEntry s lane entry).stack :=
      fun _ => mem_cons_of_mem _
    refine ⟨fun k hk => hsub _ (h.draining k ?_), fun k hk => ?_⟩
    · rwa [startEntry_draining] at hk
    · by_cases e : k = lane
      · exact .inl (hsub _ (by rw [hs, e]; exact mem_cons_self))
      · rw [startEntry_lanes, modifyLane_of_ne _ _ e] at hk
        exact (h.waiting k hk).mono hsub
  · -- the pump leaves: its lane is not draining and cannot start anything
    have htail : (leavePump s lane).stack = rest := by simp [leavePump, hs]
    refine ⟨fun k hk => ?_, fun k hk => ?_⟩ <;> rw [htail]
    · by_cases e : k = lane
      · rw [leavePump_lanes, e, modifyLane_self] at hk
        cases hk
      · rw [leavePump_lanes, modifyLane_of_ne _ _ e] at hk
        have := h.draining k hk
        rw [hs, mem_cons, Frame.pump.injEq] at this
        exact this.resolve_left e
    · rw [leavePump_canStart] at hk
      have e : k ≠ lane := fun e => by rw [e, hc] at hk; cases hk
      obtain hp | ⟨lanes, hl, hm⟩ := h.waiting k hk
      · rw [hs, mem_cons, Frame.pump.injEq] at hp
        exact .inl (hp.resolve_left e)
      · rw [hs, mem_cons] at hl
        exact .inr ⟨lanes, hl.resolve_left (by simp), hm⟩

theorem Pumped.finishTask (h : Pumped s) (t : RunningTask) (ok : Bool) : Pumped (finishTask s t ok) := by
  have h' : Pumped (endTask s t ok) :=
    h.mono (fun _ => id) (fun _ => id) (fun _ => mem_cons_of_mem _)
      (fun _ hc => hc.mono fun _ => mem_cons_of_mem _)
  unfold CommandQueue.finishTask completeTask
  by_cases hg : t.taskGeneration = ((endTask s t ok).lanes t.lane).generation
  · -- the slot is free, and the pump is pushed
    simp only [hg, ne_eq, not_true_eq_false, if_false]
    refine ⟨fun k hk => ?_, fun k hk => ?_⟩
    · rw [push_stack, modifyLane_stack]
      by_cases e : k = t.lane
      · exact e ▸ mem_cons_self
      · rw [push_lanes, modifyLane_of_ne _ _ e] at hk
        exact mem_cons_of_mem _ (h'.draining k hk)
    · rw [push_stack, modifyLane_stack]
      by_cases e : k = t.lane
      · exact .inl (e ▸ mem_cons_self)
      · rw [push_lanes, modifyLane_of_ne _ _ e] at hk
        exact (h'.waiting k hk).mono fun _ => mem_cons_of_mem _
  · simpa only [hg, ne_eq, not_false_eq_true, if_true] using h'

/-- Dropping a frame that is no pump and has no lanes to drain. -/
theorem Pumped.drop (h : Pumped s) {f : Frame} {rest : List Frame} (hs : s.stack = f :: rest)
    (hp : ∀ k, f ≠ .pump k) (hd : ∀ l ls, f ≠ .drainLanes (l :: ls)) : Pumped { s with stack := rest } := by
  refine h.mono (fun _ => id) (fun _ => id) (fun k hk => ?_) (fun k hk => ?_)
  · rw [hs, mem_cons] at hk
    exact hk.resolve_left (hp k).symm
  · obtain hk | ⟨lanes, hl, hm⟩ := hk
    · rw [hs, mem_cons] at hk
      exact .inl (hk.resolve_left (hp k).symm)
    · rw [hs, mem_cons] at hl
      refine .inr ⟨lanes, hl.resolve_left ?_, hm⟩
      rintro rfl
      obtain ⟨l, ls, rfl⟩ := exists_cons_of_ne_nil (ne_nil_of_mem hm)
      exact hd l ls rfl

variable {a : Action}

theorem Pumped.next {s s' : State} (h : Pumped s) (hs : next s a = some s') : Pumped s' := by
  cases a with
  | call c =>
    simp only [CommandQueue.next, ite_none_right_eq_some, some.injEq] at hs
    exact hs.2 ▸ h.call c
  | resume =>
    simp only [CommandQueue.next, resume] at hs
    split at hs
    · cases hs
    · rename_i t rest he
      cases hs
      exact h.drop he (by simp) (by simp)
    · rename_i lane rest he
      cases hs
      exact h.pumpTurn he
    · rename_i rest he
      cases hs
      exact h.drop he (by simp) (by simp)
    · rename_i lane lanes rest he
      cases hs
      refine pumped_drainLane (fun k hk => ?_) (fun k hk hc => ?_)
      · have := h.draining k hk
        rw [he, mem_cons] at this
        exact mem_cons_of_mem _ (this.resolve_left (by simp))
      · obtain hp | ⟨ls, hl, hm⟩ := h.waiting k hc
        · rw [he, mem_cons] at hp
          exact .inl (mem_cons_of_mem _ (hp.resolve_left (by simp)))
        · rw [he, mem_cons] at hl
          obtain hl | hl := hl
          · cases hl
            exact .inr ⟨lanes, mem_cons_self, (mem_cons.mp hm).resolve_left hk⟩
          · exact .inr ⟨ls, mem_cons_of_mem _ hl, hm⟩
    · rename_i e o rest he
      cases hs
      exact (h.drop he (by simp) (by simp)).mono (fun _ => id) (fun _ => id) (fun _ => id) (fun _ => id)
  | throw =>
    simp only [CommandQueue.next] at hs
    split at hs
    · rename_i t rest he
      cases hs
      exact (h.drop he (by simp) (by simp)).finishTask t _
    · cases hs
  | complete taskId ok =>
    simp only [CommandQueue.next] at hs
    split at hs
    · cases hs
      exact h.finishTask _ _
    · cases hs

/-! ### The concurrency of a lane is a number -/

/-- No lane has the concurrency `NaN`. -/
def Numeric (s : State) : Prop := ∀ lane, (s.lanes lane).maxConcurrent ≠ .nan

/-- The step does not pass `NaN` to `setCommandLaneConcurrency`. -/
def PassesNumber (_ : State) : Action → Prop
  | .call (.setConcurrency _ n) => n ≠ .nan
  | _ => True

theorem Numeric.congr {s s' : State} (h : Numeric s)
    (he : ∀ k, (s'.lanes k).maxConcurrent = (s.lanes k).maxConcurrent) : Numeric s' :=
  fun k => he k ▸ h k

theorem drainLane_maxConcurrent (s : State) (lane k : String) :
    ((drainLane s lane).lanes k).maxConcurrent = (s.lanes k).maxConcurrent :=
  drainLane_field (·.maxConcurrent) (fun _ _ => rfl) s lane k

theorem modifyLane_maxConcurrent (s : State) (lane : String) {f : LaneState → LaneState}
    (hf : ∀ l, (f l).maxConcurrent = l.maxConcurrent) (k : String) :
    ((s.modifyLane lane f).lanes k).maxConcurrent = (s.lanes k).maxConcurrent :=
  modifyLane_field (·.maxConcurrent) hf s lane k

theorem Numeric.setMaxConcurrent (h : Numeric s) (lane : String) {n : JsNumber}
    (hn : n ≠ .nan) : Numeric (setMaxConcurrent s lane n) := by
  intro k
  rw [setMaxConcurrent_lanes]
  by_cases e : k = lane
  · rwa [e, modifyLane_self]
  · rw [modifyLane_of_ne _ _ e]
    exact h k

theorem Numeric.call (h : Numeric s) {c : Call} (hc : PassesNumber s (.call c)) : Numeric (c.apply s) := by
  cases c with
  | enqueue lane =>
    simp only [Call.apply, enqueueCommandInLane]
    split
    · exact h
    · refine h.congr fun k => ?_
      rw [drainLane_maxConcurrent, pushEntry_lanes, modifyLane_maxConcurrent _ _ (by intro; rfl),
        getLaneState_lanes]
  | setConcurrency lane n =>
    simp only [Call.apply, setCommandLaneConcurrency]
    have hn : (JsNumber.ofNat 1).max n.floor ≠ .nan := by
      rw [ne_eq, JsNumber.max_eq_nan, JsNumber.floor_eq_nan, not_or]
      exact ⟨JsNumber.ofNat_ne_nan 1, hc⟩
    have h' : Numeric (CommandQueue.getLaneState s (cleanLane lane)) := h.congr (by simp)
    exact (h'.setMaxConcurrent (cleanLane lane) hn).congr (drainLane_maxConcurrent _ _)
  | clear lane =>
    exact h.congr (modifyLane_maxConcurrent s (cleanLane lane)
      (f := fun l => { l with queue := [] }) (fun _ => rfl))
  | reset =>
    refine h.congr fun k => ?_
    simp only [Call.apply, CommandQueue.resetAllLanes]
    split <;> rfl
  | markDraining => exact h

theorem Numeric.finishTask (h : Numeric s) (t : RunningTask) (ok : Bool) : Numeric (finishTask s t ok) := by
  unfold CommandQueue.finishTask completeTask
  by_cases hg : t.taskGeneration = ((endTask s t ok).lanes t.lane).generation
  · simp only [hg, ne_eq, not_true_eq_false, if_false]
    intro k
    rw [push_lanes]
    by_cases e : k = t.lane
    · rw [e, modifyLane_self]
      exact h t.lane
    · rw [modifyLane_of_ne _ _ e]
      exact h k
  · simp only [hg, ne_eq, not_false_eq_true, if_true]
    exact h

/-- A step that passes no `NaN` keeps the lanes numeric. -/
theorem Numeric.next {s s' : State} (h : Numeric s) (ha : PassesNumber s a)
    (hs : next s a = some s') : Numeric s' := by
  cases a with
  | call c =>
    simp only [CommandQueue.next, ite_none_right_eq_some, some.injEq] at hs
    exact hs.2 ▸ h.call ha
  | resume =>
    simp only [CommandQueue.next, resume] at hs
    split at hs <;> cases hs
    · exact h
    · rename_i lane rest he
      obtain ⟨entry, queue, -, -, e⟩ | ⟨-, e⟩ := pumpTurn_cases s lane <;> rw [e]
      · exact h.congr (modifyLane_maxConcurrent s lane (f := fun l => { l with
          queue := l.queue.tail, activeTaskIds := insert s.nextTaskId l.activeTaskIds }) fun _ => rfl)
      · exact h.congr (modifyLane_maxConcurrent s lane (f := fun l => { l with draining := false })
          fun _ => rfl)
    · exact h
    · exact h.congr fun k => drainLane_maxConcurrent _ _ k
    · exact h
  | throw =>
    simp only [CommandQueue.next] at hs
    split at hs <;> cases hs
    rename_i t rest he
    exact Numeric.finishTask (s := { s with stack := rest }) h _ _
  | complete taskId ok =>
    simp only [CommandQueue.next] at hs
    split at hs <;> cases hs
    exact h.finishTask _ _

theorem Reachable.pumped (h : Reachable s) : Pumped s := by
  obtain ⟨as, has⟩ := h
  exact exec_invariant (fun _ _ _ hi hs => Pumped.next hi hs) Pumped.init has

/-! ### The bound, and work conservation -/

/-- The active tasks of the lane's current generation: started in it and not completed. -/
def activeTasks (s : State) (lane : String) : List RunningTask :=
  s.running.filter fun t => t.lane = lane ∧ t.taskGeneration = (s.lanes lane).generation

/-- A task is started only when the active tasks of its lane are fewer than its concurrency. -/
theorem start_below_concurrency {s s' : State} (hr : Reachable s) (h : next s a = some s') {entry : ℕ}
    (hs : s'.started = s.started ++ [(lane, entry)]) :
    (JsNumber.ofNat (activeTasks s lane).length).lt (s.lanes lane).maxConcurrent = true := by
  obtain h | ⟨k, e, queue, -, hc, rfl⟩ := next_started h
  · rw [h, self_eq_append_right] at hs
    cases hs
  · simp only [startEntry, append_cancel_left_eq, List.cons.injEq, Prod.mk.injEq] at hs
    obtain ⟨⟨rfl, rfl⟩, -⟩ := hs
    rw [activeTasks, ← hr.tasksOk.card_active]
    exact (canStart_eq_true.mp hc).1

/-- When an operation has run to its end, a lane with waiting entries has no free slot. -/
theorem no_free_slot (hr : Reachable s) (hn : Numeric s) (hs : s.stack = [])
    (lane : String) : (s.lanes lane).queue = [] ∨
      (JsNumber.ofNat (activeTasks s lane).length).ge (s.lanes lane).maxConcurrent = true := by
  by_cases hq : (s.lanes lane).queue = []
  · exact .inl hq
  · refine .inr ?_
    rw [activeTasks, ← hr.tasksOk.card_active,
      JsNumber.ge_eq_not_lt (JsNumber.ofNat_ne_nan _) (hn lane), Bool.not_eq_true', ← Bool.not_eq_true]
    intro hlt
    obtain hp | ⟨lanes, hl, -⟩ := hr.pumped.waiting lane (canStart_eq_true.mpr ⟨hlt, hq⟩)
    · rw [hs] at hp; cases hp
    · rw [hs] at hl; cases hl

/-- **Concurrency bound and work conservation**, in every run that never passes `NaN`: a
task is started only below its lane's concurrency, and when every operation has run to its
end no entry waits beside a free slot. -/
theorem bounded_and_work_conserving {as : List Action} {s : State}
    (hn : Meets next PassesNumber .init as) (h : exec next .init as = some s) :
    (∀ a s' lane entry, next s a = some s' → s'.started = s.started ++ [(lane, entry)] →
      (JsNumber.ofNat (activeTasks s lane).length).lt (s.lanes lane).maxConcurrent = true) ∧
    (s.stack = [] → ∀ lane, (s.lanes lane).queue = [] ∨
      (JsNumber.ofNat (activeTasks s lane).length).ge (s.lanes lane).maxConcurrent = true) := by
  have hr : Reachable s := ⟨as, h⟩
  have hnum : Numeric s := exec_invariant_of_meets (fun _ _ _ hi hp hs => Numeric.next hi hp hs) hn
    (by simp [Numeric, State.init, LaneState.create, JsNumber.ofNat]) h
  exact ⟨fun a s' lane entry hs he => start_below_concurrency hr hs he,
    fun hs lane => no_free_slot hr hnum hs lane⟩

/-- The bound and work conservation at a run: two tasks on a lane of concurrency one. -/
theorem bounded_and_work_conserving_two_tasks :
    ∃ s, exec next .init [.call (.enqueue "main"), .resume, .resume, .resume, .call (.enqueue "main"),
        .resume] = some s ∧ s.stack = [] ∧ (s.lanes "main").queue = [1] ∧
      (JsNumber.ofNat (activeTasks s "main").length).ge (s.lanes "main").maxConcurrent = true := by
  refine ⟨_, rfl, rfl, rfl, ?_⟩
  have hrun : exec next .init [.call (.enqueue "main"), .resume, .resume, .resume,
    .call (.enqueue "main"), .resume] = some _ := rfl
  refine ((bounded_and_work_conserving ?_ hrun).2 rfl "main").resolve_left (by decide)
  simp [Meets, PassesNumber]

/-- With the concurrency `NaN` an entry waits for ever in a lane with no active task. -/
theorem nan_concurrency_stalls : ∃ s, exec next .init [.call (.setConcurrency "main" .nan), .resume,
    .call (.enqueue "main"), .resume] = some s ∧ s.stack = [] ∧
    ¬ ((s.lanes "main").queue = [] ∨
      (JsNumber.ofNat (activeTasks s "main").length).ge (s.lanes "main").maxConcurrent = true) :=
  ⟨_, rfl, rfl, by decide⟩

end Foxclaw.Process.CommandQueue
