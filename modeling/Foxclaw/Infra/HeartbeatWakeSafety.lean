import Foxclaw.Infra.HeartbeatWake

/-!
# Heartbeat wakes are never lost

Two things could lose a wake: a state in which it waits and no timer is armed, and a batch
that takes it from the map and ends without passing it on. The first is excluded by an
invariant of all runs (`Inv`). For the second, a target that has waited is followed along
the run: it waits in the map, or the handler has been called for it since, or it stands
further back in a batch that is being processed (`Covered`).

## What is proved

* `next_inv`, `next_covered` — what one step keeps.
* `wakes_never_lost` — both, over all runs.
-/

namespace Foxclaw.Infra.HeartbeatWake

open JsMap List Option Runs

/-! ### Targets -/

theorem normalizeWakeTarget_normalizeWakeTarget (value : Option String) :
    normalizeWakeTarget (normalizeWakeTarget value) = normalizeWakeTarget value := by
  have hempty : Text.trimString "" = "" := by rfl
  unfold normalizeWakeTarget
  dsimp only
  by_cases h : Text.trimString (value.getD "") ≠ "" <;> simp [h, hempty]

/-- A wake that is made for the target of `w` has the target of `w`. -/
theorem targetKey_mkWake (now : ℚ) (reason agentId sessionKey : Option String) :
    (mkWake now reason agentId sessionKey).targetKey = getWakeTargetKey agentId sessionKey := by
  simp only [PendingWakeReason.targetKey, mkWake, getWakeTargetKey, normalizeWakeTarget_normalizeWakeTarget]

/-! ### The map -/

/-- Every wake of the map stands under the key of its target. -/
def Keyed (m : JsMap String PendingWakeReason) : Prop :=
  ∀ k w, m.get? k = some w → w.targetKey = k

theorem Keyed.empty : Keyed .empty := fun _ _ h => by cases h

variable {m : JsMap String PendingWakeReason}

theorem Keyed.putWake (h : Keyed m) (w : PendingWakeReason) : Keyed (putWake m w) := by
  have hset : Keyed (m.set w.targetKey w) := by
    intro k w' hw'
    rw [get?_set] at hw'
    split at hw'
    · rename_i hk
      cases hw'
      exact hk
    · exact h k w' hw'
  unfold HeartbeatWake.putWake
  split
  · exact hset
  · split
    · exact hset
    · exact h

/-- A wake that is put into the map is there, or another one for its target. -/
theorem has_putWake (m : JsMap String PendingWakeReason) (w : PendingWakeReason) :
    (putWake m w).has w.targetKey = true := by
  unfold putWake
  split
  · exact has_set_self _ _ _
  · rename_i previous hprevious
    split
    · exact has_set_self _ _ _
    · exact has_iff.mpr ⟨previous, hprevious⟩

/-- What waits goes on waiting. -/
theorem has_putWake_of_has (w : PendingWakeReason)
    {k : String} (h : m.has k = true) : (putWake m w).has k = true := by
  unfold putWake
  split
  · exact has_set_of_has _ h
  · split
    · exact has_set_of_has _ h
    · exact h

/-! ### What the functions leave alone -/

section Frame

variable (now : ℚ) (coalesceMs : JsNumber) (kind : WakeTimerKind) (s : State)

/-- `schedule` changes the timer only. -/
theorem schedule_frame :
    (schedule now coalesceMs kind s).handler = s.handler ∧
      (schedule now coalesceMs kind s).pendingWakes = s.pendingWakes ∧
      (schedule now coalesceMs kind s).batches = s.batches ∧
      (schedule now coalesceMs kind s).calls = s.calls := by
  unfold schedule
  dsimp only
  split_ifs <;> exact ⟨rfl, rfl, rfl, rfl⟩

@[simp] theorem schedule_handler : (schedule now coalesceMs kind s).handler = s.handler :=
  (schedule_frame now coalesceMs kind s).1

@[simp] theorem schedule_pendingWakes : (schedule now coalesceMs kind s).pendingWakes = s.pendingWakes :=
  (schedule_frame now coalesceMs kind s).2.1

@[simp] theorem schedule_batches : (schedule now coalesceMs kind s).batches = s.batches :=
  (schedule_frame now coalesceMs kind s).2.2.1

@[simp] theorem schedule_calls : (schedule now coalesceMs kind s).calls = s.calls :=
  (schedule_frame now coalesceMs kind s).2.2.2

/-- After `schedule` the timer is armed. -/
theorem schedule_timer : (schedule now coalesceMs kind s).timer.isSome = true := by
  unfold schedule
  dsimp only
  split_ifs with htimer
  · exact htimer
  · exact htimer
  · rfl
  · rfl

end Frame

/-! ### The invariant -/

/-- What holds in every state, also in the middle of a step: wakes stand under their keys, and
the one timeout that is set is that of `timer`. -/
structure Base (s : State) : Prop where
  /-- Wakes stand under their keys. -/
  keyed : Keyed s.pendingWakes
  /-- The timer is the timeout that is set. -/
  timeouts : s.timeouts.map (·.id) = s.timer.toList

/-- What holds between two steps. -/
structure Inv (s : State) : Prop extends Base s where
  /-- When a handler is registered and a wake waits, the timer is armed. -/
  armed : s.handler.isSome = true → 0 < s.pendingWakes.size → s.timer.isSome = true

theorem init_inv : Inv init where
  keyed := Keyed.empty
  timeouts := rfl
  armed h := by cases h

variable {s : State}

theorem Base.clearTimer (h : Base s) : Base (clearTimer s) where
  keyed := h.keyed
  timeouts := by
    refine map_eq_nil_iff.mpr (filter_eq_nil_iff.mpr fun τ hτ => ?_)
    have hid : τ.id ∈ s.timer.toList := h.timeouts ▸ List.mem_map_of_mem hτ
    rw [mem_toList] at hid
    simp [Option.mem_def.mp hid]

theorem Base.setTimer (h : Base s) (htimer : s.timer = none) (dueAt delay : ℚ)
    (kind : WakeTimerKind) : Base (setTimer dueAt delay kind s) where
  keyed := h.keyed
  timeouts := by
    have hnil : s.timeouts = [] := map_eq_nil_iff.mp (h.timeouts.trans (by rw [htimer]; rfl))
    simp [HeartbeatWake.setTimer, hnil]

theorem Base.schedule (h : Base s) (now : ℚ) (coalesceMs : JsNumber)
    (kind : WakeTimerKind) : Base (schedule now coalesceMs kind s) := by
  unfold HeartbeatWake.schedule
  dsimp only
  split_ifs with htimer
  · exact h
  · exact h
  · exact h.clearTimer.setTimer rfl _ _ _
  · exact h.setTimer (not_isSome_iff_eq_none.mp htimer) _ _ _

theorem Base.queue (h : Base s) (now : ℚ) (reason agentId sessionKey : Option String) :
    Base (queuePendingWakeReason now reason agentId sessionKey s) where
  keyed := h.keyed.putWake _
  timeouts := h.timeouts

theorem Base.putBacks (h : Base s) (now : ℚ) (ws : List PendingWakeReason) :
    Base (ws.foldl (putBack now) s) := by
  induction ws generalizing s with
  | nil => exact h
  | cons w ws ih => exact ih (h.queue _ _ _ _)

/-- Once `schedule` has been called, the invariant holds. -/
theorem Base.inv_schedule (h : Base s) (now : ℚ) (coalesceMs : JsNumber)
    (kind : WakeTimerKind) : Inv (HeartbeatWake.schedule now coalesceMs kind s) where
  toBase := h.schedule now coalesceMs kind
  armed _ _ := schedule_timer now coalesceMs kind s

/-- The `finally` block arms the timer when a wake waits. -/
theorem Base.finishBatch (h : Base s) (now delay : ℚ) : Inv (finishBatch now delay s) := by
  have hrunning : Base { s with running := false } := ⟨h.keyed, h.timeouts⟩
  unfold HeartbeatWake.finishBatch
  dsimp only
  split_ifs with hcond
  · exact hrunning.inv_schedule _ _ _
  · exact ⟨hrunning, fun _ hsize => absurd (.inl hsize) hcond⟩

theorem Inv.advance (h : Inv s) (now : ℚ) (active : Handler) (delay : ℚ)
    (settled todo : List PendingWakeReason) : Inv (advance now active delay settled todo s) := by
  cases todo with
  | nil => exact h.toBase.finishBatch now delay
  | cons w rest => exact ⟨⟨h.keyed, h.timeouts⟩, h.armed⟩

theorem Inv.afterCall (h : Inv s) (now : ℚ) (w : PendingWakeReason)
    (res : HeartbeatRunResult) : Inv (afterCall now w res s) := by
  unfold HeartbeatWake.afterCall
  split_ifs
  · exact (h.toBase.queue _ _ _ _).inv_schedule _ _ _
  · exact h

theorem requestHeartbeatNow_inv (h : Inv s) (now : ℚ) (opts : WakeRequest) :
    Inv (requestHeartbeatNow now opts s) :=
  (h.toBase.queue _ _ _ _).inv_schedule _ _ _

theorem timerFires_inv (h : Inv s) (now : ℚ) {τ : Timeout} (hτ : τ ∈ s.timeouts) :
    Inv (timerFires now τ s) := by
  have hnone : s.timeouts.erase τ = [] := by
    have hlen : s.timeouts.length = s.timer.toList.length := by
      rw [← h.timeouts, length_map]
    have hle : s.timer.toList.length ≤ 1 := by cases s.timer <;> simp
    have herase := length_erase_of_mem hτ
    exact eq_nil_of_length_eq_zero (by omega)
  unfold timerFires
  dsimp only
  split
  · rename_i hhandler
    exact ⟨⟨h.keyed, by rw [hnone]; rfl⟩, fun hsome _ => by rw [hhandler] at hsome; cases hsome⟩
  · split_ifs
    · refine Base.inv_schedule ?_ _ _ _
      exact ⟨h.keyed, by rw [hnone]; rfl⟩
    · refine Inv.advance ⟨⟨Keyed.empty, by rw [hnone]; rfl⟩, fun _ hsize => ?_⟩ _ _ _ _ _
      exact absurd hsize (Nat.lt_irrefl 0)

theorem callSettles_inv (h : Inv s) (now : ℚ) (b : Batch) (outcome : Outcome) :
    Inv (callSettles now b outcome s) := by
  have hinv : Inv { s with batches := s.batches.erase b } := ⟨⟨h.keyed, h.timeouts⟩, h.armed⟩
  cases outcome with
  | returned res => exact (hinv.afterCall now b.current res).advance _ _ _ _ _
  | threw => exact ((hinv.toBase.putBacks now _).schedule _ _ _).finishBatch _ _

theorem setHeartbeatWakeHandler_inv (h : Inv s) (now : ℚ) (handler : Option Handler) :
    Inv (setHeartbeatWakeHandler now handler s) := by
  have hclear := h.toBase.clearTimer
  unfold setHeartbeatWakeHandler
  dsimp only
  split_ifs with hhandler hcond hcond
  · refine Base.inv_schedule ?_ _ _ _
    exact ⟨hclear.keyed, hclear.timeouts⟩
  · exact ⟨⟨hclear.keyed, hclear.timeouts⟩, fun hsome hsize => absurd ⟨hsome, hsize⟩ hcond⟩
  · refine Base.inv_schedule ?_ _ _ _
    exact ⟨h.keyed, h.timeouts⟩
  · exact ⟨⟨h.keyed, h.timeouts⟩, fun hsome hsize => absurd ⟨hsome, hsize⟩ hcond⟩

theorem dispose_inv (h : Inv s) (generation : ℕ) (handler : Option Handler) :
    Inv (dispose generation handler s) := by
  unfold dispose
  split_ifs
  · exact h
  · exact h
  · exact ⟨⟨h.keyed, h.timeouts⟩, fun hsome => by cases hsome⟩

variable {a : Action}

theorem next_inv {s s' : State} (h : Inv s) (hs : next s a = some s') : Inv s' := by
  cases a with
  | request now opts =>
    cases hs
    exact requestHeartbeatNow_inv h now opts
  | fire now τ =>
    obtain ⟨hτ, ⟨⟩⟩ := ite_none_right_eq_some.mp hs
    exact timerFires_inv h now hτ
  | settle now b outcome =>
    obtain ⟨-, ⟨⟩⟩ := ite_none_right_eq_some.mp hs
    exact callSettles_inv h now b outcome
  | setHandler now handler =>
    cases hs
    exact setHeartbeatWakeHandler_inv h now handler
  | dispose generation handler =>
    obtain ⟨-, ⟨⟩⟩ := ite_none_right_eq_some.mp hs
    exact dispose_inv h generation handler

/-! ### Where a target is -/

/-- The handler has been called for the target `k` after the first `n` calls. -/
def PassedSince (n : ℕ) (k : String) (s : State) : Prop :=
  ∃ c ∈ s.calls.drop n, c.targetKey = k

/-- A batch that is being processed has a wake for the target `k` still before it. -/
def WaitsInBatch (k : String) (s : State) : Prop :=
  ∃ b ∈ s.batches, ∃ w ∈ b.rest, w.targetKey = k

/-- The target `k` waits, or the handler has been called for it, or will be by a batch that is
being processed. -/
structure Covered (n : ℕ) (k : String) (s : State) : Prop where
  /-- Calls are not taken back. -/
  le : n ≤ s.calls.length
  covered : s.pendingWakes.has k = true ∨ PassedSince n k s ∨ WaitsInBatch k s

variable {n : ℕ} {k : String}

/-- A step that adds to the map, the calls and the batches loses nothing. -/
theorem Covered.mono {s s' : State} (h : Covered n k s)
    (hp : s.pendingWakes.has k = true → s'.pendingWakes.has k = true) (hc : s'.calls = s.calls)
    (hb : s'.batches = s.batches) : Covered n k s' where
  le := hc ▸ h.le
  covered := by
    rcases h.covered with hk | hk | hk
    · exact .inl (hp hk)
    · exact .inr (.inl (by rwa [PassedSince, hc]))
    · exact .inr (.inr (by rwa [WaitsInBatch, hb]))

theorem Covered.schedule (h : Covered n k s) (now : ℚ) (coalesceMs : JsNumber)
    (kind : WakeTimerKind) : Covered n k (schedule now coalesceMs kind s) :=
  h.mono (by rw [schedule_pendingWakes]; exact id) (schedule_calls _ _ _ _)
    (schedule_batches _ _ _ _)

theorem Covered.queue (h : Covered n k s) (now : ℚ) (reason agentId sessionKey : Option String) :
    Covered n k (queuePendingWakeReason now reason agentId sessionKey s) :=
  h.mono (has_putWake_of_has _) rfl rfl

theorem Covered.afterCall (h : Covered n k s) (now : ℚ) (w : PendingWakeReason)
    (res : HeartbeatRunResult) : Covered n k (afterCall now w res s) := by
  unfold HeartbeatWake.afterCall
  split_ifs
  · exact (h.queue _ _ _ _).schedule _ _ _
  · exact h

theorem Covered.finishBatch (h : Covered n k s) (now delay : ℚ) : Covered n k (finishBatch now delay s) := by
  have hrunning : Covered n k { s with running := false } := h.mono id rfl rfl
  unfold HeartbeatWake.finishBatch
  dsimp only
  split_ifs
  · exact hrunning.schedule _ _ _
  · exact hrunning

/-- The wakes the loop still has before it are covered by the batch. -/
theorem advance_covered (now : ℚ) (active : Handler) (delay : ℚ) (settled todo : List PendingWakeReason)
    (hle : n ≤ s.calls.length) (h : Covered n k s ∨ ∃ w ∈ todo, w.targetKey = k) :
    Covered n k (advance now active delay settled todo s) := by
  cases todo with
  | nil =>
    rcases h with h | ⟨w, hw, -⟩
    · exact h.finishBatch now delay
    · cases hw
  | cons w rest =>
    have hcalls : (s.calls ++ [callFor active w]).drop n = s.calls.drop n ++ [callFor active w] :=
      drop_append_of_le_length hle
    refine ⟨?_, ?_⟩
    · rw [advance, length_append]
      exact hle.trans (Nat.le_add_right _ _)
    rcases h with h | ⟨w', hw', hk⟩
    · rcases h.covered with hp | ⟨c, hc, hk⟩ | ⟨b, hb, hw⟩
      · exact .inl hp
      · exact .inr (.inl ⟨c, by rw [advance, hcalls]; exact mem_append_left _ hc, hk⟩)
      · exact .inr (.inr ⟨b, mem_append_left _ hb, hw⟩)
    · rcases mem_cons.mp hw' with rfl | hw'
      · exact .inr (.inl ⟨callFor active w',
          by rw [advance, hcalls]; exact mem_append_right _ mem_cons_self, hk⟩)
      · exact .inr (.inr ⟨_, mem_append_right _ mem_cons_self, w', hw', hk⟩)

/-- Putting wakes back touches the map only, and loses nothing of it. -/
theorem putBacks_spec (now : ℚ) (ws : List PendingWakeReason) (s : State) :
    (ws.foldl (putBack now) s).calls = s.calls ∧ (ws.foldl (putBack now) s).batches = s.batches ∧
      ((s.pendingWakes.has k = true ∨ ∃ w ∈ ws, w.targetKey = k) →
        (ws.foldl (putBack now) s).pendingWakes.has k = true) := by
  induction ws generalizing s with
  | nil => exact ⟨rfl, rfl, fun h => h.elim id fun ⟨w, hw, _⟩ => by cases hw⟩
  | cons w ws ih =>
    obtain ⟨hcalls, hbatches, hhas⟩ := ih (putBack now s w)
    refine ⟨hcalls, hbatches, fun h => hhas ?_⟩
    rcases h with h | ⟨w', hw', hk⟩
    · exact .inl (has_putWake_of_has _ h)
    · rcases mem_cons.mp hw' with rfl | hw'
      · have hput := has_putWake s.pendingWakes (mkWake now (some w'.reason) w'.agentId w'.sessionKey)
        rw [targetKey_mkWake] at hput
        exact .inl (hk ▸ hput)
      · exact .inr ⟨w', hw', hk⟩

theorem timerFires_covered (hkeyed : Keyed s.pendingWakes) (h : Covered n k s) (now : ℚ)
    (τ : Timeout) : Covered n k (timerFires now τ s) := by
  unfold timerFires
  dsimp only
  split
  · exact h.mono id rfl rfl
  · split_ifs
    · refine Covered.schedule ?_ _ _ _
      exact h.mono id rfl rfl
    · refine advance_covered _ _ _ _ _ h.le ?_
      rcases h.covered with hp | hc | hb
      · obtain ⟨w, hw⟩ := has_iff.mp hp
        exact .inr ⟨w, mem_values_iff.mpr ⟨k, hw⟩, hkeyed k w hw⟩
      · exact .inl ⟨h.le, .inr (.inl hc)⟩
      · exact .inl ⟨h.le, .inr (.inr hb)⟩

theorem callSettles_covered (h : Covered n k s) (now : ℚ) (b : Batch)
    (outcome : Outcome) : Covered n k (callSettles now b outcome s) := by
  -- the wakes that only `b` covers stand before it in its loop
  have hb : Covered n k { s with batches := s.batches.erase b } ∨ ∃ w ∈ b.rest, w.targetKey = k := by
    rcases h.covered with hp | hc | ⟨b', hb', hw⟩
    · exact .inl ⟨h.le, .inl hp⟩
    · exact .inl ⟨h.le, .inr (.inl hc)⟩
    · by_cases heq : b' = b
      · exact .inr (heq ▸ hw)
      · exact .inl ⟨h.le, .inr (.inr ⟨b', (mem_erase_of_ne heq).mpr hb', hw⟩)⟩
  unfold callSettles
  dsimp only
  cases outcome with
  | returned res =>
    have hle : n ≤ (afterCall now b.current res { s with batches := s.batches.erase b }).calls.length := by
      unfold afterCall
      split_ifs
      · rw [schedule_calls]
        exact h.le
      · exact h.le
    exact advance_covered _ _ _ _ _ hle (hb.imp_left fun hb => hb.afterCall _ _ _)
  | threw =>
    obtain ⟨hcalls, hbatches, hhas⟩ :=
      putBacks_spec (k := k) now b.pendingBatch { s with batches := s.batches.erase b }
    refine Covered.finishBatch (Covered.schedule ?_ _ _ _) _ _
    rcases hb with hb | ⟨w, hw, hk⟩
    · exact hb.mono (fun hp => hhas (.inl hp)) hcalls hbatches
    · refine ⟨by rw [hcalls]; exact h.le, .inl (hhas (.inr ⟨w, ?_, hk⟩))⟩
      exact mem_append_right _ (mem_cons_of_mem _ hw)

theorem setHeartbeatWakeHandler_covered (h : Covered n k s) (now : ℚ)
    (handler : Option Handler) : Covered n k (setHeartbeatWakeHandler now handler s) := by
  unfold setHeartbeatWakeHandler
  dsimp only
  split_ifs
  · refine Covered.schedule ?_ _ _ _
    exact h.mono id rfl rfl
  · exact h.mono id rfl rfl
  · refine Covered.schedule ?_ _ _ _
    exact h.mono id rfl rfl
  · exact h.mono id rfl rfl

theorem dispose_covered (h : Covered n k s) (generation : ℕ) (handler : Option Handler) :
    Covered n k (dispose generation handler s) := by
  unfold dispose
  split_ifs
  · exact h
  · exact h
  · exact h.mono id rfl rfl

/-- No step loses a target. -/
theorem next_covered {s s' : State} (hinv : Inv s) (h : Covered n k s)
    (hs : next s a = some s') : Covered n k s' := by
  cases a with
  | request now opts =>
    cases hs
    exact (h.queue _ _ _ _).schedule _ _ _
  | fire now τ =>
    obtain ⟨-, ⟨⟩⟩ := ite_none_right_eq_some.mp hs
    exact timerFires_covered hinv.keyed h now τ
  | settle now b outcome =>
    obtain ⟨-, ⟨⟩⟩ := ite_none_right_eq_some.mp hs
    exact callSettles_covered h now b outcome
  | setHandler now handler =>
    cases hs
    exact setHeartbeatWakeHandler_covered h now handler
  | dispose generation handler =>
    obtain ⟨-, ⟨⟩⟩ := ite_none_right_eq_some.mp hs
    exact dispose_covered h generation handler

/-! ### Runs -/

/-- A timer is armed: the variable `timer` holds a timeout that is set. -/
def TimerArmed (s : State) : Prop := ∃ τ ∈ s.timeouts, s.timer = some τ.id

theorem Base.timerArmed (h : Base s) (htimer : s.timer.isSome = true) : TimerArmed s := by
  obtain ⟨id, hid⟩ := isSome_iff_exists.mp htimer
  have hmem : id ∈ s.timeouts.map (·.id) := by rw [h.timeouts, hid]; exact mem_singleton_self id
  obtain ⟨τ, hτ, rfl⟩ := List.mem_map.mp hmem
  exact ⟨τ, hτ, hid⟩

/-- In every state a run reaches, a timer is armed when a handler is registered and a target
waits; and from there on, every target that waits goes on waiting, or the handler is called
for it, or it still stands in a batch that is being processed. -/
theorem wakes_never_lost {s : State} {as : List Action} (h : exec next init as = some s) :
    (s.handler.isSome = true → 0 < s.pendingWakes.size → TimerArmed s) ∧
      ∀ k, s.pendingWakes.has k = true → ∀ bs t, exec next s bs = some t →
        t.pendingWakes.has k = true ∨ PassedSince s.calls.length k t ∨ WaitsInBatch k t := by
  have hinv : Inv s := exec_invariant (fun _ _ _ hi hs => next_inv hi hs) init_inv h
  refine ⟨fun hhandler hsize => hinv.toBase.timerArmed (hinv.armed hhandler hsize), ?_⟩
  intro k hk bs t ht
  have hrun : Inv t ∧ Covered s.calls.length k t :=
    exec_invariant (I := fun s' => Inv s' ∧ Covered s.calls.length k s')
      (fun _ _ _ hi hs => ⟨next_inv hi.1 hs, next_covered hi.1 hi.2 hs⟩)
      ⟨hinv, le_rfl, .inl hk⟩ ht
  exact hrun.2.covered

/-- A handler is registered, and a wake requested. -/
def requested : State :=
  requestHeartbeatNow 0 ⟨some "hook:a", none, some "main", none⟩
    (setHeartbeatWakeHandler 0 (some 1) init)

/-- The timer of that request has fired, and the call of the handler has thrown. -/
def thrown : State :=
  callSettles 251 ⟨1, 250, [], mkWake 0 (some "hook:a") (some "main") none, []⟩ .threw
    (timerFires 250 ⟨0, 250, .normal⟩ requested)

theorem wakes_never_lost_requested :
    TimerArmed requested ∧
      (thrown.pendingWakes.has "main::" = true ∨ PassedSince 0 "main::" thrown ∨
        WaitsInBatch "main::" thrown) := by
  have hrun : exec next init [.setHandler 0 (some 1), .request 0 ⟨some "hook:a", none, some "main", none⟩] =
        some requested := rfl
  have hthrown : exec next requested [.fire 250 ⟨0, 250, .normal⟩,
      .settle 251 ⟨1, 250, [], mkWake 0 (some "hook:a") (some "main") none, []⟩ .threw] =
        some thrown := by decide +kernel
  exact ⟨(wakes_never_lost hrun).1 rfl (by decide),
    (wakes_never_lost hrun).2 "main::" (by decide) _ _ hthrown⟩

end Foxclaw.Infra.HeartbeatWake
