import Foxclaw.Lib.Ledger
import Foxclaw.Process.CommandQueueTasks

/-!
# Command lanes: exactly-once execution in order

The queue keeps the books of its entries in order. `State.ledger` reads a state as a
`Ledger`: an entry waits in the queue of its lane, is owed while its task runs or its
`resolve` or `reject` is still on the call stack, and is settled after. Every step makes
at most one entry in that ledger (`next_ledger`), so the books of every reachable state are
in order, and what a ledger in order says is what the queue promises: no promise is
settled twice, no task is started twice, no entry is lost, a lane starts its entries in
the order it accepted them.

What a late completion of an older generation does is said by `stale_completion`.
-/

namespace Foxclaw.Process.CommandQueue

open List Option Foxclaw.Runs

/-- The entries whose `resolve` or `reject` is on the stack. -/
def settleFrames (stack : List Frame) : List ℕ :=
  stack.filterMap fun | .settle entry _ => some entry | _ => none

@[simp] theorem settleFrames_task (t : RunningTask) (rest : List Frame) :
    settleFrames (.task t :: rest) = settleFrames rest := rfl

@[simp] theorem settleFrames_pump (lane : String) (rest : List Frame) :
    settleFrames (.pump lane :: rest) = settleFrames rest := rfl

@[simp] theorem settleFrames_drainLanes (lanes : List String) (rest : List Frame) :
    settleFrames (.drainLanes lanes :: rest) = settleFrames rest := rfl

@[simp] theorem settleFrames_settle (entry : ℕ) (ok : Bool) (rest : List Frame) :
    settleFrames (.settle entry ok :: rest) = entry :: settleFrames rest := rfl

@[simp] theorem settleFrames_drainLane (s : State) (lane : String) :
    settleFrames (drainLane s lane).stack = settleFrames s.stack := by
  obtain h | ⟨h, -⟩ := drainLane_stack s lane
  · rw [h, settleFrames_pump]
  · rw [h]

/-- The entries started whose promise is not settled. -/
def State.owed (s : State) : Multiset ℕ := s.running.map (·.entry) + settleFrames s.stack

/-- How a promise was settled, in the terms of the books. -/
def Outcome.fate : Outcome → Ledger.Fate Bool
  | .ok => .done true
  | .error => .done false
  | .laneCleared => .cleared
  | .gatewayDraining => .refused

/-- The books of a state. -/
def State.ledger (s : State) : Ledger String Bool where
  queue lane := (s.lanes lane).queue
  owed := s.owed
  next := s.nextEntry
  accepted := s.accepted
  started := s.started
  settled := s.settled.map fun p => (p.1, p.2.fate)

variable {s : State}

theorem ledger_eq {l : Ledger String Bool} (hq : ∀ lane, (s.lanes lane).queue = l.queue lane)
    (ho : s.owed = l.owed) (hn : s.nextEntry = l.next) (ha : s.accepted = l.accepted)
    (hs : s.started = l.started) (hd : (s.settled.map fun p => (p.1, p.2.fate)) = l.settled) : s.ledger = l :=
  Ledger.ext (funext hq) ho hn ha hs hd

/-! ### One step makes at most one entry -/

/-- The books do not show what `drainLane` does. -/
theorem ledger_drainLane (s : State) (lane : String) : (drainLane s lane).ledger = s.ledger := by
  have same := drainLane_same s lane
  refine ledger_eq (drainLane_field (·.queue) (fun _ _ => rfl) s lane) ?_ same.nextEntry same.accepted
    same.started (by rw [same.settled]; rfl)
  simp only [State.owed, State.ledger, same.running, settleFrames_drainLane]

theorem ledger_getLaneState (s : State) (lane : String) : (getLaneState s lane).ledger = s.ledger := by
  have same := getLaneState_same s lane
  refine ledger_eq (fun k => by rw [getLaneState_lanes]; rfl) ?_ same.nextEntry same.accepted
    same.started (by rw [same.settled]; rfl)
  simp only [State.owed, State.ledger, same.running, getLaneState_stack]

theorem ledger_setMaxConcurrent (s : State) (lane : String) (n : JsNumber) :
    (setMaxConcurrent s lane n).ledger = s.ledger :=
  ledger_eq (modifyLane_field (·.queue) (f := fun l => { l with maxConcurrent := n })
    (fun _ => rfl) s lane) rfl rfl rfl rfl rfl

/-- A change of one queue, in the terms of the ledger. -/
theorem modifyLane_queue (s : State) (lane : String) {f : LaneState → LaneState}
    {g : List ℕ → List ℕ} (hf : ∀ l, (f l).queue = g l.queue) (k : String) :
    ((s.modifyLane lane f).lanes k).queue =
      Function.update s.ledger.queue lane (g (s.ledger.queue lane)) k := by
  by_cases hk : k = lane
  · rw [hk, modifyLane_self, hf, Function.update_self]
    rfl
  · rw [modifyLane_of_ne s f hk, Function.update_of_ne hk]
    rfl

theorem ledger_pushEntry (s : State) (lane : String) : (pushEntry s lane).ledger = s.ledger.accept lane :=
  ledger_eq (modifyLane_queue s lane (f := fun l => { l with queue := l.queue ++ [s.nextEntry] })
    (g := (· ++ [s.nextEntry])) fun _ => rfl) rfl rfl rfl rfl rfl

theorem ledger_refuseEntry (s : State) : (refuseEntry s).ledger = s.ledger.refuse :=
  ledger_eq (fun _ => rfl) rfl rfl rfl rfl (by simp [refuseEntry, Ledger.refuse, State.ledger, Outcome.fate])

theorem ledger_rejectQueue (s : State) (lane : String) : (rejectQueue s lane).ledger = s.ledger.clear lane :=
  ledger_eq (modifyLane_queue s lane (f := fun l => { l with queue := [] }) (g := fun _ => [])
    fun _ => rfl) rfl rfl rfl rfl
    (by simp [rejectQueue, Ledger.clear, State.ledger, Outcome.fate, Function.comp_def])

theorem ledger_resetAllLanes (s : State) : (resetAllLanes s).ledger = s.ledger := by
  refine ledger_eq (fun lane => ?_) rfl rfl rfl rfl rfl
  simp only [resetAllLanes]
  split <;> rfl

theorem ledger_call (s : State) (c : Call) : Ledger.Step s.ledger (c.apply s).ledger := by
  cases c with
  | enqueue lane =>
    simp only [Call.apply, enqueueCommandInLane]
    split
    · rw [ledger_refuseEntry]
      exact .refuse
    · rw [ledger_drainLane, ledger_pushEntry, ledger_getLaneState]
      exact .accept _
  | setConcurrency lane n =>
    simp only [Call.apply, setCommandLaneConcurrency]
    rw [ledger_drainLane, ledger_setMaxConcurrent, ledger_getLaneState]
    exact .none
  | clear lane =>
    simp only [Call.apply, clearCommandLane]
    rw [ledger_rejectQueue]
    exact .clear _
  | reset =>
    simp only [Call.apply]
    rw [ledger_resetAllLanes]
    exact .none
  | markDraining => exact .none

theorem ledger_startEntry (s : State) (lane : String) (entry : ℕ) :
    (startEntry s lane entry).ledger = s.ledger.start lane entry := by
  refine ledger_eq (modifyLane_queue s lane (f := fun l => { l with
    queue := l.queue.tail, activeTaskIds := insert s.nextTaskId l.activeTaskIds }) (g := List.tail)
    fun _ => rfl) ?_ rfl rfl rfl rfl
  simp only [State.owed, startEntry, settleFrames_task, Ledger.start, State.ledger, map_cons,
    ← Multiset.cons_coe, Multiset.cons_add]

variable {rest : List Frame}

theorem ledger_leavePump {lane : String}
    (hs : s.stack = .pump lane :: rest) : (leavePump s lane).ledger = s.ledger := by
  refine ledger_eq (modifyLane_field (·.queue) (f := fun l => { l with draining := false })
    (fun _ => rfl) s lane) ?_ rfl rfl rfl rfl
  simp only [State.owed, leavePump, State.ledger, State.modifyLane, hs, tail_cons, settleFrames_pump]

theorem ledger_pumpTurn {lane : String} (hs : s.stack = .pump lane :: rest) :
    Ledger.Step s.ledger (pumpTurn s lane).ledger := by
  obtain ⟨entry, queue, hq, -, e⟩ | ⟨-, e⟩ := pumpTurn_cases s lane
  · rw [e, ledger_startEntry]
    exact .start (by simp [State.ledger, hq])
  · rw [e, ledger_leavePump hs]
    exact .none

/-- A completion moves an entry from the running tasks to the stack: it is still owed. -/
theorem ledger_finishTask (h : TasksOk s) {t : RunningTask} (ht : t ∈ s.running)
    (ok : Bool) : (finishTask s t ok).ledger = s.ledger := by
  have howed : (endTask s t ok).owed = s.owed := by
    have hperm : s.running.Perm (t :: s.running.filter (·.taskId ≠ t.taskId)) := by
      refine (perm_cons_erase ht).trans (List.Perm.cons t ?_)
      rw [h.nodup.of_map.erase_eq_filter]
      refine List.Perm.of_eq (filter_congr fun u hu => ?_)
      have hid : u.taskId = t.taskId ↔ u = t :=
        ⟨inj_on_of_nodup_map h.nodup hu ht, fun e => e ▸ rfl⟩
      by_cases hut : u = t <;> simp [hid, hut]
    have hcoe := Multiset.coe_eq_coe.mpr (hperm.map (·.entry))
    simp only [State.owed, endTask, settleFrames_settle, hcoe, map_cons, ← Multiset.cons_coe,
      Multiset.cons_add, Multiset.add_cons]
  have hend : (endTask s t ok).ledger = s.ledger := ledger_eq (fun _ => rfl) howed rfl rfl rfl rfl
  rw [← hend]
  unfold finishTask completeTask
  by_cases hg : t.taskGeneration = ((endTask s t ok).lanes t.lane).generation
  · simp only [hg, ne_eq, not_true_eq_false, if_false]
    refine ledger_eq (fun k => ?_) rfl rfl rfl rfl rfl
    rw [push_lanes]
    by_cases hk : k = t.lane
    · rw [hk, modifyLane_self]
      rfl
    · rw [modifyLane_of_ne _ _ hk]
      rfl
  · simp only [hg, ne_eq, not_false_eq_true, if_true]

theorem ledger_settlePromise {entry : ℕ} {ok : Bool} (hs : s.stack = .settle entry ok :: rest) :
    Ledger.Step s.ledger (settlePromise { s with stack := rest } entry ok).ledger := by
  have howed : s.owed = entry ::ₘ (s.running.map (·.entry) + settleFrames rest) := by
    simp only [State.owed, hs, settleFrames_settle, ← Multiset.cons_coe, Multiset.add_cons]
  have heq : (settlePromise { s with stack := rest } entry ok).ledger =
      s.ledger.settle entry ok := by
    refine ledger_eq (fun _ => rfl) ?_ rfl rfl rfl ?_
    · simp only [Ledger.settle, State.ledger, howed, Multiset.erase_cons_head]
      rfl
    · cases ok <;> simp [settlePromise, Ledger.settle, State.ledger, Outcome.fate]
  rw [heq]
  refine .settle ?_ ok
  simp only [State.ledger, howed, Multiset.mem_cons_self]

/-- Every step makes at most one entry in the books. -/
theorem next_ledger {s s' : State} (h : TasksOk s) {a : Action} (hs : next s a = some s') :
    Ledger.Step s.ledger s'.ledger := by
  cases a with
  | call c =>
    simp only [next, ite_none_right_eq_some, some.injEq] at hs
    exact hs.2 ▸ ledger_call s c
  | resume =>
    simp only [next, resume] at hs
    split at hs <;> cases hs
    · rename_i t rest he
      have : ({ s with stack := rest } : State).ledger = s.ledger :=
        ledger_eq (fun _ => rfl) (by simp [State.owed, State.ledger, he]) rfl rfl rfl rfl
      exact this ▸ .none
    · rename_i lane rest he
      exact ledger_pumpTurn he
    · rename_i rest he
      have : ({ s with stack := rest } : State).ledger = s.ledger :=
        ledger_eq (fun _ => rfl) (by simp [State.owed, State.ledger, he, settleFrames_drainLanes]) rfl rfl rfl rfl
      exact this ▸ .none
    · rename_i lane lanes rest he
      have : ({ s with stack := .drainLanes lanes :: rest } : State).ledger = s.ledger :=
        ledger_eq (fun _ => rfl) (by simp [State.owed, State.ledger, he, settleFrames_drainLanes]) rfl rfl rfl rfl
      rw [ledger_drainLane, this]
      exact .none
    · rename_i entry ok rest he
      exact ledger_settlePromise he
  | throw =>
    simp only [next] at hs
    split at hs <;> cases hs
    rename_i t rest he
    have ht : t ∈ s.running := h.frames.subset (by simp [he])
    have h' : TasksOk { s with stack := rest } :=
      h.congr rfl rfl (by simp [he]) (fun _ => rfl) (fun _ => rfl)
    have : ({ s with stack := rest } : State).ledger = s.ledger :=
      ledger_eq (fun _ => rfl) (by simp [State.owed, State.ledger, he]) rfl rfl rfl rfl
    rw [ledger_finishTask h' ht, this]
    exact .none
  | complete taskId ok =>
    simp only [next] at hs
    split at hs <;> cases hs
    rename_i t he ht
    rw [ledger_finishTask h (mem_of_find?_eq_some ht)]
    exact .none

theorem Reachable.ledger (h : Reachable s) : s.ledger.Ok := by
  obtain ⟨as, has⟩ := h
  have hinit : State.init.ledger = Ledger.empty := rfl
  exact (exec_invariant (I := fun s => TasksOk s ∧ s.ledger.Ok)
    (fun _ _ _ hi hs => ⟨hi.1.next hs, hi.2.step (next_ledger hi.1 hs)⟩)
    ⟨.init, hinit ▸ .empty⟩ has).2

/-! ### A completion of an older generation -/

/-- The task that completes in a step. -/
def completing (s : State) : Action → Option RunningTask
  | .throw => match s.stack with
    | .task t :: _ => some t
    | _ => none
  | .complete taskId _ => s.running.find? (·.taskId = taskId)
  | _ => none

/-- A completion of an older generation changes no lane. -/
theorem stale_completion {s s' : State} {a : Action} {t : RunningTask} (h : next s a = some s')
    (ht : completing s a = some t) (hg : t.taskGeneration < (s.lanes t.lane).generation) :
    s'.lanes = s.lanes := by
  have hstale : ∀ (s : State) (ok : Bool), t.taskGeneration ≠ (s.lanes t.lane).generation →
      (finishTask s t ok).lanes = s.lanes := by
    intro s ok hne
    have hne' : t.taskGeneration ≠ ((endTask s t ok).lanes t.lane).generation := hne
    unfold finishTask completeTask
    simp only [hne', ne_eq, not_false_eq_true, if_true]
    rfl
  cases a with
  | call c => cases ht
  | resume => cases ht
  | throw =>
    simp only [next] at h
    split at h <;> cases h
    rename_i u rest he
    simp only [completing, he, some.injEq] at ht
    subst ht
    exact hstale { s with stack := rest } false (Nat.ne_of_lt hg)
  | complete taskId ok =>
    simp only [next] at h
    split at h <;> cases h
    rename_i u he hu
    simp only [completing, hu, some.injEq] at ht
    subst ht
    exact hstale s ok (Nat.ne_of_lt hg)

/-! ### Exactly once, in order -/

/-- The entries of a lane in a record, in the record's order. -/
def entriesOf (lane : String) (l : List (String × ℕ)) : List ℕ := Ledger.itemsOf lane l

theorem mem_ledger_settled {e : ℕ} {o : Outcome} : (e, o.fate) ∈ s.ledger.settled ↔ (e, o) ∈ s.settled := by
  have hinj : ∀ o' : Outcome, o'.fate = o.fate ↔ o' = o := by
    intro o'
    cases o <;> cases o' <;> simp [Outcome.fate]
  simp [State.ledger, hinj]

/-- **Exactly-once execution in order.** After every run: no promise is settled twice and
no task is started twice; an entry handed in was rejected because the gateway drains or
was accepted, and an accepted entry was started, or waits, or was rejected by
`clearCommandLane`, exactly one of them; each lane started its entries in the order it
accepted them, none before an earlier one that waits; and a completion of an older
generation changes no lane's active tasks. -/
theorem exactly_once_in_order {as : List Action} {s : State} (h : exec next .init as = some s) :
    (s.settled.map (·.1)).Nodup ∧ (s.started.map (·.2)).Nodup ∧
    (∀ e < s.nextEntry, (e, .gatewayDraining) ∈ s.settled ↔ ¬ ∃ lane, (lane, e) ∈ s.accepted) ∧
    (∀ lane e, (lane, e) ∈ s.accepted → ((lane, e) ∉ s.started ↔
      Xor (e ∈ (s.lanes lane).queue) ((e, .laneCleared) ∈ s.settled))) ∧
    (∀ lane, (entriesOf lane s.started).Sublist (entriesOf lane s.accepted)) ∧
    (∀ lane e e', (lane, e') ∈ s.started → e ∈ (s.lanes lane).queue → e' < e) ∧
    (∀ a s' t, next s a = some s' → completing s a = some t →
      t.taskGeneration < (s.lanes t.lane).generation →
      ∀ lane, (s'.lanes lane).activeTaskIds = (s.lanes lane).activeTaskIds) := by
  have hok : s.ledger.Ok := Reachable.ledger ⟨as, h⟩
  refine ⟨?_, hok.started_once, fun e he => ?_, fun lane e he => ?_, hok.started_sublist,
    fun lane e e' hs hq => hok.no_overtaking hs hq, fun a s' t hs ht hg lane => ?_⟩
  · have := hok.settled_once
    rwa [State.ledger, List.map_map] at this
  · rw [← mem_ledger_settled]
    exact hok.handed_iff he
  · rw [← mem_ledger_settled]
    exact hok.accounted_iff he
  · rw [stale_completion hs ht hg]

/-- Two entries of one lane; the lanes are reset while the first runs, which lets the second
start, and then the first completes. -/
def resetRun : List Action :=
  [.call (.enqueue "main"), .resume, .resume, .resume, .call (.enqueue " main "), .resume, .call .reset,
    .resume, .resume, .resume, .resume, .resume]

/-- Exactly-once execution at `resetRun` and the late completion after it. -/
theorem exactly_once_in_order_reset : ∃ s s', exec next .init resetRun = some s ∧
    next s (.complete 1 true) = some s' ∧ (s.started.map (·.2)).Nodup ∧
    (s'.lanes "main").activeTaskIds = (s.lanes "main").activeTaskIds := by
  have h : exec next .init resetRun = some _ := rfl
  obtain ⟨-, hstarted, -, -, -, -, hstale⟩ := exactly_once_in_order h
  exact ⟨_, _, h, rfl, hstarted, hstale (.complete 1 true) _ _ rfl rfl (by decide) "main"⟩

end Foxclaw.Process.CommandQueue
