import Foxclaw.Process.CommandQueue

/-!
# Command lanes: the tasks that run

`activeTaskIds` is a set of numbers. This module ties it to the tasks: in every reachable
state it holds the ids of exactly those tasks of the lane that were started in its current
generation and have not completed (`TasksOk.active`), so its size is their number
(`TasksOk.card_active`), and no task is of a generation later than its lane's.
-/

namespace Foxclaw.Process.CommandQueue

open List Foxclaw.Runs

/-- The tasks whose synchronous part is on the stack. -/
def taskFrames (stack : List Frame) : List RunningTask :=
  stack.filterMap fun | .task t => some t | _ => none

@[simp] theorem taskFrames_nil : taskFrames [] = [] := rfl

@[simp] theorem taskFrames_task (t : RunningTask) (rest : List Frame) :
    taskFrames (.task t :: rest) = t :: taskFrames rest := rfl

@[simp] theorem taskFrames_pump (lane : String) (rest : List Frame) :
    taskFrames (.pump lane :: rest) = taskFrames rest := rfl

@[simp] theorem taskFrames_drainLanes (lanes : List String) (rest : List Frame) :
    taskFrames (.drainLanes lanes :: rest) = taskFrames rest := rfl

@[simp] theorem taskFrames_settle (entry : ℕ) (ok : Bool) (rest : List Frame) :
    taskFrames (.settle entry ok :: rest) = taskFrames rest := rfl

@[simp] theorem taskFrames_drainLane (s : State) (lane : String) :
    taskFrames (drainLane s lane).stack = taskFrames s.stack := by
  obtain h | ⟨h, -⟩ := drainLane_stack s lane
  · rw [h, taskFrames_pump]
  · rw [h]

/-- The ids in `activeTaskIds` are those of the tasks of the current generation. -/
structure TasksOk (s : State) : Prop where
  /-- No two tasks have one id. -/
  nodup : (s.running.map (·.taskId)).Nodup
  lt : ∀ t ∈ s.running, t.taskId < s.nextTaskId
  /-- A task whose synchronous part runs has not completed. -/
  frames : (taskFrames s.stack).Sublist s.running
  active : ∀ lane i, i ∈ (s.lanes lane).activeTaskIds ↔
    ∃ t ∈ s.running, t.lane = lane ∧ t.taskGeneration = (s.lanes lane).generation ∧ t.taskId = i
  /-- No task is of a later generation than its lane. -/
  generation : ∀ t ∈ s.running, t.taskGeneration ≤ (s.lanes t.lane).generation

theorem TasksOk.init : TasksOk .init :=
  ⟨by simp [State.init], by simp [State.init], by simp [State.init],
    by simp [State.init, LaneState.create], by simp [State.init]⟩

/-- `TasksOk` looks only at the tasks, and at two fields of the lanes. -/
theorem TasksOk.congr {s s' : State} (h : TasksOk s) (hr : s'.running = s.running)
    (hn : s'.nextTaskId = s.nextTaskId) (hf : (taskFrames s'.stack).Sublist (taskFrames s.stack))
    (ha : ∀ lane, (s'.lanes lane).activeTaskIds = (s.lanes lane).activeTaskIds)
    (hg : ∀ lane, (s'.lanes lane).generation = (s.lanes lane).generation) : TasksOk s' where
  nodup := hr ▸ h.nodup
  lt := by rw [hr, hn]; exact h.lt
  frames := hr ▸ hf.trans h.frames
  active := by intro lane i; rw [ha, hr, hg]; exact h.active lane i
  generation := by intro t ht; rw [hg]; exact h.generation t (hr ▸ ht)

variable {s : State}

variable (h : TasksOk s) (lane : String)
include h lane

/-- The number of active ids is the number of running tasks of the current generation. -/
theorem TasksOk.card_active :
    (s.lanes lane).activeTaskIds.card =
      (s.running.filter fun t => t.lane = lane ∧ t.taskGeneration = (s.lanes lane).generation).length := by
  have hsub := (filter_sublist (p := fun t : RunningTask =>
    t.lane = lane ∧ t.taskGeneration = (s.lanes lane).generation) (l := s.running)).map (·.taskId)
  have hids : (s.lanes lane).activeTaskIds = ((s.running.filter fun t => t.lane = lane ∧
      t.taskGeneration = (s.lanes lane).generation).map (·.taskId)).toFinset := by
    ext i
    simp [h.active lane i, and_assoc]
  rw [hids, toFinset_card_of_nodup (hsub.nodup h.nodup), length_map]

/-! ### One step -/

theorem TasksOk.drainLane : TasksOk (drainLane s lane) :=
  have same := drainLane_same s lane
  h.congr same.running same.nextTaskId (by simp)
    (drainLane_field (·.activeTaskIds) (fun _ _ => rfl) s lane)
    (drainLane_field (·.generation) (fun _ _ => rfl) s lane)

theorem TasksOk.getLaneState : TasksOk (getLaneState s lane) :=
  have same := getLaneState_same s lane
  h.congr same.running same.nextTaskId (by simp) (by simp) (by simp)

theorem TasksOk.modifyLane {f : LaneState → LaneState} (ha : ∀ l, (f l).activeTaskIds = l.activeTaskIds)
    (hg : ∀ l, (f l).generation = l.generation) : TasksOk (s.modifyLane lane f) :=
  h.congr rfl rfl (.refl _) (modifyLane_field (·.activeTaskIds) ha s lane)
    (modifyLane_field (·.generation) hg s lane)

theorem TasksOk.setMaxConcurrent (n : JsNumber) : TasksOk (setMaxConcurrent s lane n) :=
  h.modifyLane lane (f := fun l => { l with maxConcurrent := n }) (fun _ => rfl) (fun _ => rfl)

theorem TasksOk.pushEntry : TasksOk (pushEntry s lane) :=
  (h.modifyLane lane (f := fun l => { l with queue := l.queue ++ [s.nextEntry] }) (fun _ => rfl)
    (fun _ => rfl)).congr rfl rfl (.refl _) (fun _ => rfl) (fun _ => rfl)

theorem TasksOk.rejectQueue : TasksOk (rejectQueue s lane) :=
  (h.modifyLane lane (f := fun l => { l with queue := [] }) (fun _ => rfl)
    (fun _ => rfl)).congr rfl rfl (.refl _) (fun _ => rfl) (fun _ => rfl)

omit h lane

theorem TasksOk.resetAllLanes (h : TasksOk s) : TasksOk (resetAllLanes s) where
  nodup := h.nodup
  lt := h.lt
  frames := h.frames
  active := by
    intro lane i
    by_cases hl : lane ∈ s.laneNames
    · -- the tasks that run are all of an older generation now
      simp only [CommandQueue.resetAllLanes, hl, if_true, Finset.notMem_empty, false_iff]
      rintro ⟨t, ht, rfl, hg, -⟩
      have := h.generation t ht
      omega
    · simp only [CommandQueue.resetAllLanes, hl, if_false]
      exact h.active lane i
  generation := by
    intro t ht
    have := h.generation t ht
    simp only [CommandQueue.resetAllLanes]
    split
    · simp only; omega
    · exact this

theorem TasksOk.call (h : TasksOk s) (c : Call) : TasksOk (c.apply s) := by
  cases c with
  | enqueue lane =>
    simp only [Call.apply, enqueueCommandInLane]
    split
    · exact h.congr rfl rfl (.refl _) (fun _ => rfl) (fun _ => rfl)
    · exact ((h.getLaneState _).pushEntry _).drainLane _
  | setConcurrency lane n =>
    exact ((h.getLaneState _).setMaxConcurrent _ _).drainLane (cleanLane lane)
  | clear lane => exact h.rejectQueue (cleanLane lane)
  | reset => exact h.resetAllLanes
  | markDraining => exact h.congr rfl rfl (.refl _) (fun _ => rfl) (fun _ => rfl)

theorem TasksOk.startEntry (h : TasksOk s) (lane : String) (entry : ℕ) :
    TasksOk (startEntry s lane entry) where
  nodup := by
    refine nodup_cons.mpr ⟨fun hm => ?_, h.nodup⟩
    obtain ⟨t, ht, hid⟩ := List.mem_map.mp hm
    have := h.lt t ht
    simp only at hid
    omega
  lt := by
    intro t ht
    rcases mem_cons.mp ht with rfl | ht
    · exact Nat.lt_succ_self _
    · exact Nat.lt_succ_of_lt (h.lt t ht)
  frames := h.frames.cons_cons _
  active := by
    intro k i
    by_cases hk : k = lane
    · subst hk
      simp only [CommandQueue.startEntry, modifyLane_self, Finset.mem_insert, h.active,
        mem_cons, exists_eq_or_imp, true_and]
      constructor <;> rintro (rfl | h) <;> simp_all
    · simp only [CommandQueue.startEntry, modifyLane_of_ne s _ hk, h.active, mem_cons,
        exists_eq_or_imp, Ne.symm hk, false_and, false_or]
  generation := by
    intro t ht
    have hg := modifyLane_field (·.generation) (f := fun l => { l with
      queue := l.queue.tail, activeTaskIds := insert s.nextTaskId l.activeTaskIds })
      (fun _ => rfl) s lane
    rcases mem_cons.mp ht with rfl | ht
    · exact (hg lane).ge
    · exact (hg t.lane).ge.trans' (h.generation t ht)

theorem TasksOk.pumpTurn (h : TasksOk s) {lane : String} {rest : List Frame}
    (hs : s.stack = .pump lane :: rest) : TasksOk (pumpTurn s lane) := by
  unfold CommandQueue.pumpTurn
  split
  · exact h.startEntry _ _
  · refine (h.modifyLane lane (f := fun l => { l with draining := false }) (fun _ => rfl)
      (fun _ => rfl)).congr rfl rfl ?_ (fun _ => rfl) (fun _ => rfl)
    simp [CommandQueue.leavePump, hs]

/-- A running task has completed; its synchronous part is no longer on the stack. -/
theorem TasksOk.finishTask (h : TasksOk s) {t : RunningTask} (ht : t ∈ s.running)
    (hf : t ∉ taskFrames s.stack) (ok : Bool) : TasksOk (finishTask s t ok) := by
  -- the tasks left are the others
  have hother : ∀ u ∈ s.running, u.taskId = t.taskId ↔ u = t := fun u hu =>
    ⟨inj_on_of_nodup_map h.nodup hu ht, fun h => h ▸ rfl⟩
  have hmem : ∀ u, u ∈ s.running.filter (·.taskId ≠ t.taskId) ↔ u ∈ s.running ∧ u ≠ t := fun u => by
    rw [mem_filter]
    exact and_congr_right fun hu => by simp [hother u hu]
  have hframes : (taskFrames s.stack).Sublist (s.running.filter (·.taskId ≠ t.taskId)) := by
    have := h.frames.filter (fun u : RunningTask => u.taskId ≠ t.taskId)
    rwa [filter_eq_self.mpr] at this
    intro u hu
    have hu' := h.frames.subset hu
    simpa [hother u hu'] using fun e : u = t => hf (e ▸ hu)
  have hsub : (s.running.filter (·.taskId ≠ t.taskId)).Sublist s.running := filter_sublist
  unfold CommandQueue.finishTask completeTask
  by_cases hg : t.taskGeneration = ((endTask s t ok).lanes t.lane).generation
  · -- a task of the current generation: its id is erased from its lane's
    simp only [hg, ne_eq, not_true_eq_false, if_false]
    refine ⟨(hsub.map _).nodup h.nodup, fun u hu => h.lt u (hsub.subset hu), hframes, ?_, ?_⟩
    · intro k i
      by_cases hk : k = t.lane
      · subst hk
        simp only [Finset.mem_erase, endTask, h.active, State.push, State.modifyLane, Function.update_self]
        constructor
        · rintro ⟨hne, u, hu, h1, h2, rfl⟩
          exact ⟨u, (hmem u).mpr ⟨hu, fun e => hne (e ▸ rfl)⟩, h1, h2, rfl⟩
        · rintro ⟨u, hu, h1, h2, rfl⟩
          obtain ⟨hu, hne⟩ := (hmem u).mp hu
          exact ⟨fun e => hne ((hother u hu).mp e), u, hu, h1, h2, rfl⟩
      · simp only [endTask, h.active, State.push, State.modifyLane, Function.update_of_ne hk]
        constructor
        · rintro ⟨u, hu, rfl, h2, rfl⟩
          exact ⟨u, (hmem u).mpr ⟨hu, fun e => hk (e ▸ rfl)⟩, rfl, h2, rfl⟩
        · rintro ⟨u, hu, h1, h2, rfl⟩
          exact ⟨u, ((hmem u).mp hu).1, h1, h2, rfl⟩
    · intro u hu
      have := h.generation u (hsub.subset hu)
      by_cases hk : u.lane = t.lane
      · simp only [push_lanes, hk, modifyLane_self]
        rw [hk] at this
        exact this
      · rw [push_lanes, modifyLane_of_ne _ _ hk]
        exact this
  · -- a task of an older generation: no lane changes, and its id is in none
    simp only [hg, ne_eq, not_false_eq_true, if_true]
    refine ⟨(hsub.map _).nodup h.nodup, fun u hu => h.lt u (hsub.subset hu), hframes, ?_,
      fun u hu => h.generation u (hsub.subset hu)⟩
    intro k i
    simp only [endTask, h.active]
    constructor
    · rintro ⟨u, hu, rfl, h2, rfl⟩
      exact ⟨u, (hmem u).mpr ⟨hu, fun e => hg (e ▸ h2)⟩, rfl, h2, rfl⟩
    · rintro ⟨u, hu, h1, h2, rfl⟩
      exact ⟨u, ((hmem u).mp hu).1, h1, h2, rfl⟩

theorem TasksOk.next {s s' : State} (h : TasksOk s) {a : Action} (hs : next s a = some s') : TasksOk s' := by
  cases a with
  | call c =>
    simp only [CommandQueue.next, Option.ite_none_right_eq_some, Option.some.injEq] at hs
    exact hs.2 ▸ h.call c
  | resume =>
    simp only [CommandQueue.next, resume] at hs
    split at hs
    · cases hs
    · rename_i t rest he
      cases hs
      exact h.congr rfl rfl (by rw [he, taskFrames_task]; exact sublist_cons_self _ _) (fun _ => rfl) (fun _ => rfl)
    · rename_i lane rest he
      cases hs
      exact h.pumpTurn he
    · rename_i rest he
      cases hs
      exact h.congr rfl rfl (by rw [he, taskFrames_drainLanes]) (fun _ => rfl) (fun _ => rfl)
    · rename_i lane lanes rest he
      cases hs
      have h' : TasksOk { s with stack := .drainLanes lanes :: rest } :=
        h.congr rfl rfl (by rw [he, taskFrames_drainLanes, taskFrames_drainLanes]) (fun _ => rfl) (fun _ => rfl)
      exact h'.drainLane lane
    · rename_i e o rest he
      cases hs
      exact h.congr rfl rfl (by rw [he, taskFrames_settle, settlePromise_stack]) (fun _ => rfl) (fun _ => rfl)
  | throw =>
    simp only [CommandQueue.next] at hs
    split at hs
    · rename_i t rest he
      cases hs
      have hf : (t :: taskFrames rest).Sublist s.running := by
        rw [← taskFrames_task, ← he]
        exact h.frames
      have hnd : (t :: taskFrames rest).Nodup := hf.nodup h.nodup.of_map
      refine TasksOk.finishTask (s := { s with stack := rest }) ?_ (hf.subset mem_cons_self)
        (nodup_cons.mp hnd).1 _
      exact h.congr rfl rfl (by rw [he, taskFrames_task]; exact sublist_cons_self _ _) (fun _ => rfl) (fun _ => rfl)
    · cases hs
  | complete taskId ok =>
    simp only [CommandQueue.next] at hs
    split at hs
    · rename_i t he ht
      cases hs
      exact h.finishTask (mem_of_find?_eq_some ht) (by rw [he, taskFrames_nil]; exact not_mem_nil) _
    · cases hs

theorem Reachable.tasksOk (h : Reachable s) : TasksOk s := by
  obtain ⟨as, has⟩ := h
  exact exec_invariant (fun _ _ _ hi hs => TasksOk.next hi hs) TasksOk.init has

end Foxclaw.Process.CommandQueue
