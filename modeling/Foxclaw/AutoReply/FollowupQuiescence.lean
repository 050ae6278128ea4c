import Foxclaw.AutoReply.FollowupQueue

/-!
# The followup queue: when the drain comes to an end

When no message arrives and every call of `runFollowup` resolves, a drain is to pass what
waits and remove the queue. It goes on while items wait or dropped ones are to be reported.
But a turn of it reports them only when the policy is to summarize, and, outside the mode
`collect`, only in place of an item. So a drain that has passed the items, or has a policy
other than the one under which they were dropped, begins again and again.

## What is proved

* `drainTurn_cases` — what one turn of the drain can do.
* `drain_quiesces_iff` — from every state that a run reaches, the drain comes to an end
  exactly if nothing is left to report, or it is still going to be reported (`Settles`).
-/

namespace Foxclaw.AutoReply.FollowupQueue

open Bool List Option Foxclaw.Runs Foxclaw.Utils

variable {ρ : Type} {isRoutableChannel : String → Bool}

/-! ### The drain left to itself -/

/-- The next step when no message arrives and calls of `runFollowup` resolve. -/
def quietStep (isRoutableChannel : String → Bool) (s : State ρ) : State ρ :=
  match s.queue with
  | none => s
  | some queue =>
    match queue.drain with
    | none => scheduleFollowupDrain s
    | some (.debounce force) => drainTurn isRoutableChannel s queue force
    | some (.running force _ count clear) => runResolved s queue force count clear

variable (queue : FollowupQueueState ρ)

/-- The queue when a call that passed `count` items has resolved. -/
def landedBy (count : ℕ) (clear : Bool) : FollowupQueueState ρ :=
  let queue := { queue with items := queue.items.drop count }
  if clear then { queue with droppedCount := 0, summaryLines := [] } else queue

/-- The queue when the call in flight has resolved. -/
def landed : FollowupQueueState ρ :=
  match queue.drain with
  | some (.running _ _ count clear) => landedBy queue count clear
  | _ => queue

theorem landed_of_waiting {queue : FollowupQueueState ρ}
    (h : ∀ force passing count clear, queue.drain ≠ some (.running force passing count clear)) :
    landed queue = queue := by
  unfold landed
  split
  · rename_i hd
    exact absurd hd (h _ _ _ _)
  · rfl

variable {clear force : Bool} {count : ℕ} {passing : List ℕ}

theorem landed_of_running {queue : FollowupQueueState ρ}
    (h : queue.drain = some (.running force passing count clear)) :
    landed queue = landedBy queue count clear := by
  unfold landed
  rw [h]

theorem runResolved_eq (s : State ρ) (queue : FollowupQueueState ρ) (force : Bool) (count : ℕ)
    (clear : Bool) :
    runResolved s queue force count clear = settleDrain s (landedBy queue count clear) force := rfl

/-- Nothing is left to report, or the drain is going to report it. -/
def Settles : Prop :=
  queue.droppedCount = 0 ∨
    queue.dropPolicy = .summarize ∧ (queue.mode = .collect ∨ queue.items ≠ [])

instance (queue : FollowupQueueState ρ) [DecidableEq (Item ρ)] : Decidable (Settles queue) :=
  inferInstanceAs (Decidable (_ ∨ _))

/-! ### One turn -/

/-- Is there something to report, and the policy to report it? -/
def Reports : Prop :=
  queue.dropPolicy = .summarize ∧ 0 < queue.droppedCount

theorem preview_isSome_iff (noun : String) :
    (previewQueueSummaryPrompt queue.toQueueState noun).isSome = true ↔ Reports queue := by
  unfold previewQueueSummaryPrompt Reports
  split
  · rename_i h
    simpa [imp_iff_not_or] using h
  · rename_i h
    simpa [Nat.pos_iff_ne_zero] using h

/-- What a turn passes to `runFollowup`: how many items, and whether it reports what was
dropped. -/
inductive Passes (queue : FollowupQueueState ρ) (force : Bool) : Bool → ℕ → Bool → Prop where
  | first (force' : Bool) (hi : queue.items ≠ []) (hr : queue.mode ≠ .collect → ¬ Reports queue) :
    Passes queue force force' 1 false
  /-- All items, with what was dropped. -/
  | batch (hm : queue.mode = .collect) (hf : force = false) (clear : Bool)
    (hc : clear = true ↔ Reports queue) : Passes queue force false queue.items.length clear
  /-- What was dropped, in place of the first item. -/
  | summary (hm : queue.mode ≠ .collect) (hi : queue.items ≠ []) (hr : Reports queue) :
    Passes queue force force 1 true

/-- A turn leaves the loop when no item waits, or it calls `runFollowup`. -/
theorem drainTurn_cases (isRoutableChannel : String → Bool) (s : State ρ) {queue : FollowupQueueState ρ} (force : Bool)
    (hlast : 0 < queue.droppedCount → queue.lastRun.isSome = true) :
    (queue.items = [] ∧ drainTurn isRoutableChannel s queue force = finishDrain s queue ∧
      (queue.mode = .collect → force = true ∨ queue.lastRun = none)) ∨
    ∃ message force' passing count clear, Passes queue force force' count clear ∧
      drainTurn isRoutableChannel s queue force =
        callRun s queue message force' passing count clear := by
  have hnext (force' : Bool) (hr : queue.mode ≠ .collect → ¬ Reports queue) :
      queue.items = [] ∧ drainNext s queue force' = finishDrain s queue ∨
      ∃ message force'' passing count clear, Passes queue force force'' count clear ∧
        drainNext s queue force' = callRun s queue message force'' passing count clear := by
    unfold drainNext
    split
    · rename_i hi
      exact .inl ⟨hi, rfl⟩
    · rename_i item rest hi
      exact .inr ⟨_, force', _, 1, false, .first force' (by simp [hi]) hr, rfl⟩
  unfold drainTurn
  split
  · rename_i hm
    unfold drainCollect
    dsimp only
    split
    · rename_i hforce
      rcases hnext _ (absurd hm) with ⟨hi, h⟩ | h
      · refine .inl ⟨hi, h, fun _ => .inl ?_⟩
        -- no items are not items of several channels
        have hcross : hasCrossChannelItems queue.items (resolveCrossChannelKey isRoutableChannel) =
            false := by rw [hi]; rfl
        simpa [hcross] using hforce
      · exact .inr h
    · rename_i hforce
      have hf : force = false := by
        cases force
        · rfl
        · simp at hforce
      split
      · rename_i hrun
        obtain ⟨hi, hlastRun⟩ := or_eq_none_iff.mp hrun
        rw [map_eq_none_iff, getLast?_eq_none_iff] at hi
        exact .inl ⟨hi, rfl, fun _ => .inr hlastRun⟩
      · rw [hf]
        exact .inr ⟨_, false, _, _, _, hf ▸ .batch hm hf _ (preview_isSome_iff queue "message"), rfl⟩
  · rename_i hm
    unfold drainSingle
    split
    · rename_i prompt hp
      have hr := (preview_isSome_iff queue "message").mp (by rw [hp]; rfl)
      split
      · rename_i run item rest _ hi
        exact .inr ⟨_, force, _, 1, true, .summary hm (by simp [hi]) hr, rfl⟩
      · rename_i hno
        obtain ⟨run, hrun⟩ := isSome_iff_exists.mp (hlast hr.2)
        refine .inl ⟨?_, rfl, fun h => absurd h hm⟩
        cases hi : queue.items with
        | nil => rfl
        | cons item rest => exact (hno run item rest hrun hi).elim
    · rename_i hp
      have hr : ¬ Reports queue := fun hr => by
        have := (preview_isSome_iff queue "message").mpr hr
        rw [hp] at this
        cases this
      rcases hnext force (fun _ => hr) with ⟨hi, h⟩ | h
      · exact .inl ⟨hi, h, fun h => absurd h hm⟩
      · exact .inr h

/-! ### What every run keeps -/

/-- The settings of a run are known when something is to be reported, and a drain that waits
for the debounce has something to do. -/
structure Ready (queue : FollowupQueueState ρ) : Prop where
  /-- The settings of the last message. -/
  lastRun : 0 < queue.droppedCount → queue.lastRun.isSome = true
  /-- Something to do. -/
  busy : ∀ force, queue.drain = some (.debounce force) → queue.items ≠ [] ∨ 0 < queue.droppedCount

/-- The queue, if there is one, is ready. -/
def ReadyState (s : State ρ) : Prop := ∀ queue, s.queue = some queue → Ready queue

variable {s : State ρ}

/-- The drain waits for the debounce only when there is something to do. -/
theorem ready_settleDrain {queue : FollowupQueueState ρ}
    (h : 0 < queue.droppedCount → queue.lastRun.isSome = true) (force : Bool) :
    ReadyState (settleDrain s queue force) := by
  unfold settleDrain
  intro q hq
  split at hq
  · cases hq
  · rename_i hn
    cases hq
    refine ⟨h, fun _ _ => ?_⟩
    rw [not_and_or] at hn
    exact hn.imp_right Nat.pos_of_ne_zero

theorem ready_callRun {queue : FollowupQueueState ρ}
    (h : 0 < queue.droppedCount → queue.lastRun.isSome = true) (message : FollowupRun ρ)
    (force : Bool) (passing : List ℕ) (count : ℕ) (clear : Bool) :
    ReadyState (callRun s queue message force passing count clear) := by
  intro q hq
  cases hq
  exact ⟨h, fun _ hd => (by cases hd)⟩

theorem ready_drainTurn {queue : FollowupQueueState ρ} (force : Bool)
    (h : 0 < queue.droppedCount → queue.lastRun.isSome = true) :
    ReadyState (drainTurn isRoutableChannel s queue force) := by
  rcases drainTurn_cases isRoutableChannel s force h with
    ⟨-, hturn, -⟩ | ⟨message, force', passing, count, clear, -, hturn⟩
  · rw [hturn]
    exact ready_settleDrain h false
  · rw [hturn]
    exact ready_callRun h message force' passing count clear

theorem ready_runResolved {queue : FollowupQueueState ρ}
    (h : 0 < queue.droppedCount → queue.lastRun.isSome = true) (force : Bool) (count : ℕ)
    (clear : Bool) : ReadyState (runResolved s queue force count clear) := by
  rw [runResolved_eq]
  refine ready_settleDrain (fun hd => ?_) force
  cases clear with
  | true => exact absurd hd (lt_irrefl 0)
  | false => exact h hd

theorem ready_schedule (h : ReadyState s) : ReadyState (scheduleFollowupDrain s) := by
  unfold scheduleFollowupDrain
  split
  · rename_i queue hq
    split
    · exact h
    · exact ready_settleDrain (h queue hq).lastRun false
  · exact h

theorem ready_getFollowupQueue (h : ReadyState s) (settings : QueueSettings) :
    Ready (getFollowupQueue s settings) := by
  unfold getFollowupQueue
  cases hq : s.queue with
  | none => exact ⟨fun hd => absurd hd (lt_irrefl 0), fun _ hd => (by cases hd)⟩
  | some queue => exact ⟨(h queue hq).lastRun, (h queue hq).busy⟩

theorem ready_enqueue (h : ReadyState s) (run : FollowupRun ρ)
    (settings : QueueSettings) (dedupeMode : QueueDedupeMode) (recent : Bool) :
    ReadyState (enqueueFollowupRun s run settings dedupeMode recent).1 := by
  have hq := ready_getFollowupQueue h settings
  unfold enqueueFollowupRun
  dsimp only
  split
  · intro q hs
    cases hs
    exact hq
  split
  · intro q hs
    cases hs
    exact ⟨fun _ => rfl, hq.busy⟩
  · rename_i queue dropped hjoin
    -- the new item waits
    have hnew : queue.lastRun = some run.run ∧ queue.items ≠ [] := by
      unfold joinQueue at hjoin
      dsimp only at hjoin
      split at hjoin
      · cases hjoin
        exact ⟨rfl, by simp⟩
      · cases hjoin
    have hready : ReadyState { s with
        queue := some queue, nextId := s.nextId + 1, accepted := s.accepted ++ [s.nextId],
        dropped := s.dropped ++ dropped } := by
      intro q hs
      cases hs
      exact ⟨fun _ => by rw [hnew.1]; rfl, fun _ _ => .inl hnew.2⟩
    split
    · exact ready_schedule hready
    · exact hready

theorem ready_next {s s' : State ρ} {a : Action ρ} (h : ReadyState s)
    (hs : next isRoutableChannel s a = some s') : ReadyState s' := by
  cases a with
  | enqueue run settings dedupeMode recent =>
    cases hs
    exact ready_enqueue h run settings dedupeMode recent
  | schedule =>
    cases hs
    exact ready_schedule h
  | debounced =>
    rw [next] at hs
    split at hs
    · rename_i queue hq
      split at hs
      · cases hs
        exact ready_drainTurn _ (h queue hq).lastRun
      · cases hs
    · cases hs
  | settled ok =>
    rw [next] at hs
    split at hs
    · rename_i queue hq
      split at hs
      · cases hs
        split
        · exact ready_runResolved (h queue hq).lastRun _ _ _
        · exact ready_settleDrain (h queue hq).lastRun false
      · cases hs
    · cases hs

/-! ### A drain that settles -/

theorem settles_landed_running (queue : FollowupQueueState ρ) :
    Settles (landed { queue with drain := some (.running force passing count clear) }) ↔
      Settles (landedBy queue count clear) := by
  cases clear <;> rfl

/-- How much is left to do, for a drain that waits for the debounce. -/
def weight (queue : FollowupQueueState ρ) (force : Bool) : ℕ :=
  2 * (queue.items.length + if queue.droppedCount = 0 then 0 else 1) + force.toNat

/-- How much is left to do: a call in flight counts a little more than what it leaves. -/
def work (s : State ρ) : ℕ :=
  match s.queue with
  | none => 0
  | some queue =>
    match queue.drain with
    | none => 2 * weight queue false + 3
    | some (.debounce force) => 2 * weight queue force + 2
    | some (.running force _ count clear) => 2 * weight (landedBy queue count clear) force + 3

theorem work_callRun (s : State ρ) (queue : FollowupQueueState ρ) (message : FollowupRun ρ)
    (force : Bool) (passing : List ℕ) (count : ℕ) (clear : Bool) :
    work (callRun s queue message force passing count clear) =
      2 * weight (landedBy queue count clear) force + 3 := by
  cases clear <;> rfl

/-- The state is ready, and its queue settles. -/
def Quiescing (s : State ρ) : Prop :=
  ∀ queue, s.queue = some queue → Ready queue ∧ Settles (landed queue)

theorem weight_pos {queue : FollowupQueueState ρ}
    (h : queue.items ≠ [] ∨ 0 < queue.droppedCount) (force : Bool) : 1 < weight queue force := by
  unfold weight
  rcases h with h | h
  · have := length_pos_of_ne_nil h
    omega
  · rw [if_neg (by omega)]
    omega

/-- What a turn passes leaves less to do, and what it leaves settles. -/
theorem Passes.settles {queue : FollowupQueueState ρ} {force force' clear : Bool}
    (hp : Passes queue force force' count clear) (h : Settles queue)
    (hbusy : queue.items ≠ [] ∨ 0 < queue.droppedCount) :
    weight (landedBy queue count clear) force' < weight queue force ∧
      Settles (landedBy queue count clear) := by
  cases hp with
  | first _ hi hr =>
    have hlen := length_pos_of_ne_nil hi
    refine ⟨?_, ?_⟩
    · unfold weight landedBy
      have := force'.toNat_le
      simp only [false_eq_true, if_false, length_drop]
      omega
    · rcases h with h | ⟨hp, hm⟩
      · exact .inl h
      · by_cases hmode : queue.mode = .collect
        · exact .inr ⟨hp, .inl hmode⟩
        · refine .inl (Nat.eq_zero_of_not_pos fun hd => hr hmode ⟨hp, hd⟩)
  | batch hm hf clear hc =>
    have hdone : (landedBy queue queue.items.length clear).droppedCount = 0 := by
      unfold landedBy
      cases clear with
      | true => rfl
      | false =>
        have hno : ¬ Reports queue := fun hr => (by cases hc.mpr hr)
        rcases h with h | ⟨hp, -⟩
        · exact h
        · exact Nat.eq_zero_of_not_pos fun hd => hno ⟨hp, hd⟩
    refine ⟨?_, .inl hdone⟩
    have hitems : (landedBy queue queue.items.length clear).items = [] := by
      unfold landedBy
      cases clear <;> exact drop_length
    have hpos := weight_pos hbusy force
    have hzero : weight (landedBy queue queue.items.length clear) false = 0 := by
      unfold weight
      rw [hdone, hitems]
      rfl
    omega
  | summary hm hi hr =>
    refine ⟨?_, .inl rfl⟩
    have hlen := length_pos_of_ne_nil hi
    unfold weight landedBy
    simp only [if_true, length_drop]
    omega

/-- A drain that goes on has less to do than one that has not looked yet. -/
theorem quiescing_settleDrain {queue : FollowupQueueState ρ} {w : ℕ}
    (hready : ReadyState (settleDrain s queue force)) (h : Settles queue)
    (hw : 2 * weight queue force + 2 < w) :
    work (settleDrain s queue force) < w ∧ Quiescing (settleDrain s queue force) := by
  unfold settleDrain at hready ⊢
  split
  · exact ⟨by unfold work; dsimp only; omega, fun _ hq => (by cases hq)⟩
  · rename_i hn
    rw [if_neg hn] at hready
    exact ⟨hw, fun q hq => by cases hq; exact ⟨hready _ rfl, h⟩⟩

/-- Each step of a drain that settles leaves less to do. -/
theorem quietStep_quiescing (isRoutableChannel : String → Bool) (h : Quiescing s) (hq : s.queue.isSome = true) :
    work (quietStep isRoutableChannel s) < work s ∧ Quiescing (quietStep isRoutableChannel s) := by
  obtain ⟨queue, hqueue⟩ := isSome_iff_exists.mp hq
  obtain ⟨hready, hsettles⟩ := h queue hqueue
  have hwork : work s = match queue.drain with
      | none => 2 * weight queue false + 3
      | some (.debounce force) => 2 * weight queue force + 2
      | some (.running force _ count clear) => 2 * weight (landedBy queue count clear) force + 3 := by
    unfold work
    rw [hqueue]
  unfold quietStep
  rw [hqueue]
  dsimp only
  cases hdrain : queue.drain with
  | none =>
    simp only [hdrain] at hwork
    rw [landed_of_waiting (by simp [hdrain])] at hsettles
    dsimp only
    rw [scheduleFollowupDrain, hqueue]
    dsimp only
    rw [hdrain]
    exact quiescing_settleDrain (ready_settleDrain hready.lastRun false) hsettles (by omega)
  | some drain =>
    cases drain with
    | running force passing count clear =>
      simp only [hdrain] at hwork
      rw [landed_of_running hdrain] at hsettles
      dsimp only
      rw [runResolved_eq]
      refine quiescing_settleDrain ?_ hsettles (by omega)
      have := ready_runResolved (s := s) hready.lastRun force count clear
      rwa [runResolved_eq] at this
    | debounce force =>
      simp only [hdrain] at hwork
      rw [landed_of_waiting (by simp [hdrain])] at hsettles
      dsimp only
      rcases drainTurn_cases isRoutableChannel s force hready.lastRun with
        ⟨hi, hturn, hforce⟩ | ⟨message, force', passing, count, clear, hp, hturn⟩
      · -- nothing waits: in the mode `collect` the report comes in the next drain
        rw [hturn]
        refine quiescing_settleDrain (ready_settleDrain hready.lastRun false) hsettles ?_
        have hd : 0 < queue.droppedCount := (hready.busy force hdrain).resolve_left (not_not.mpr hi)
        have hcollect : queue.mode = .collect :=
          ((hsettles.resolve_left (by omega)).2).resolve_right (not_not.mpr hi)
        have hlast : queue.lastRun ≠ none := isSome_iff_ne_none.mp (hready.lastRun hd)
        have hf : force = true := (hforce hcollect).resolve_right hlast
        rw [hwork, hf]
        unfold weight
        simp only [toNat_true, toNat_false]
        omega
      · obtain ⟨hless, hland⟩ := hp.settles hsettles (hready.busy force hdrain)
        rw [hturn]
        refine ⟨?_, fun q hq => ⟨ready_callRun hready.lastRun message _ passing count clear q hq, ?_⟩⟩
        · rw [hwork, work_callRun]
          omega
        · cases hq
          exact (settles_landed_running queue).mpr hland

/-- A drain that settles comes to an end. -/
theorem quiesces_of_quiescing (h : Quiescing s) :
    ∃ n, ((quietStep isRoutableChannel)^[n] s).queue = none := by
  induction hw : work s using Nat.strong_induction_on generalizing s with
  | _ w ih =>
    cases hq : s.queue with
    | none => exact ⟨0, hq⟩
    | some queue =>
      obtain ⟨hless, hnext⟩ :=
        quietStep_quiescing isRoutableChannel h (by rw [hq]; rfl)
      obtain ⟨n, hn⟩ := ih _ (hw ▸ hless) hnext rfl
      exact ⟨n + 1, hn⟩

/-! ### A drain that does not -/

/-- There is a queue, and it does not settle. -/
def Unsettled (s : State ρ) : Prop := ∃ queue, s.queue = some queue ∧ Ready queue ∧ ¬ Settles (landed queue)

/-- A turn of a drain that does not settle leaves it so. -/
theorem Passes.unsettled {queue : FollowupQueueState ρ} {force force' clear : Bool}
    (hp : Passes queue force force' count clear) (h : ¬ Settles queue) :
    ¬ Settles (landedBy queue count clear) := by
  obtain ⟨hd, hno⟩ := not_or.mp h
  have hreport : Reports queue → queue.mode ≠ .collect ∧ queue.items = [] := fun hr => by
    have := fun hm => hno ⟨hr.1, hm⟩
    exact ⟨fun hm => this (.inl hm), not_not.mp fun hi => this (.inr hi)⟩
  cases hp with
  | first _ hi hr =>
    refine not_or.mpr ⟨hd, fun ⟨hp, hm⟩ => ?_⟩
    exact hi (hreport ⟨hp, Nat.pos_of_ne_zero hd⟩).2
  | batch hm hf clear hc =>
    cases clear with
    | true => exact absurd hm (hreport (hc.mp rfl)).1
    | false =>
      refine not_or.mpr ⟨hd, fun ⟨hp, _⟩ => ?_⟩
      cases hc.mpr ⟨hp, Nat.pos_of_ne_zero hd⟩
  | summary hm hi hr => exact absurd (hreport hr).2 hi

theorem unsettled_settleDrain {queue : FollowupQueueState ρ}
    (hready : ReadyState (settleDrain s queue force)) (h : ¬ Settles queue) :
    Unsettled (settleDrain s queue force) := by
  have hd : ¬ (queue.items = [] ∧ queue.droppedCount = 0) := fun hd => h (.inl hd.2)
  unfold settleDrain at hready ⊢
  rw [if_neg hd] at hready ⊢
  exact ⟨_, rfl, hready _ rfl, h⟩

theorem quietStep_unsettled (h : Unsettled s) : Unsettled (quietStep isRoutableChannel s) := by
  obtain ⟨queue, hqueue, hready, hno⟩ := h
  unfold quietStep
  rw [hqueue]
  dsimp only
  cases hdrain : queue.drain with
  | none =>
    rw [landed_of_waiting (by simp [hdrain])] at hno
    dsimp only
    rw [scheduleFollowupDrain, hqueue]
    dsimp only
    rw [hdrain]
    exact unsettled_settleDrain (ready_settleDrain hready.lastRun false) hno
  | some drain =>
    cases drain with
    | running force passing count clear =>
      rw [landed_of_running hdrain] at hno
      dsimp only
      have hready' := ready_runResolved (s := s) hready.lastRun force count clear
      rw [runResolved_eq] at hready' ⊢
      exact unsettled_settleDrain hready' hno
    | debounce force =>
      rw [landed_of_waiting (by simp [hdrain])] at hno
      dsimp only
      rcases drainTurn_cases isRoutableChannel s force hready.lastRun with
        ⟨-, hturn, -⟩ | ⟨message, force', passing, count, clear, hp, hturn⟩
      · rw [hturn]
        exact unsettled_settleDrain (ready_settleDrain hready.lastRun false) hno
      · rw [hturn]
        exact ⟨_, rfl, ready_callRun (s := s) hready.lastRun message force' passing count clear _ rfl,
          fun h => hp.unsettled hno ((settles_landed_running queue).mp h)⟩

/-- A drain that does not settle never comes to an end. -/
theorem not_quiesces_of_unsettled (h : Unsettled s) (n : ℕ) :
    ((quietStep isRoutableChannel)^[n] s).queue ≠ none := by
  induction n generalizing s with
  | zero =>
    obtain ⟨queue, hqueue, -⟩ := h
    rw [Function.iterate_zero_apply, hqueue]
    exact some_ne_none queue
  | succ n ih => exact ih (quietStep_unsettled h)

/-! ### Every reachable state -/

theorem ready_of_run {as : List (Action ρ)}
    (h : exec (next isRoutableChannel) State.init as = some s) : ReadyState s :=
  exec_invariant (fun _ _ _ hs hn => ready_next hs hn)
    (fun _ hq => (by cases hq)) h

/-- From a state that a run reaches, when no message arrives and every call of `runFollowup`
resolves, the drain removes the queue after finitely many steps exactly if it settles. -/
theorem drain_quiesces_iff {as : List (Action ρ)} {s : State ρ}
    (h : exec (next isRoutableChannel) State.init as = some s) :
    (∃ n, ((quietStep isRoutableChannel)^[n] s).queue = none) ↔
      ∀ queue, s.queue = some queue → Settles (landed queue) := by
  have hready := ready_of_run h
  constructor
  · rintro ⟨n, hn⟩ queue hqueue
    by_contra hno
    exact not_quiesces_of_unsettled ⟨queue, hqueue, hready queue hqueue, hno⟩ n hn
  · exact fun hsettles => quiesces_of_quiescing fun queue hqueue =>
      ⟨hready queue hqueue, hsettles queue hqueue⟩

/-- A message without anything but a text. -/
def plainMessage (prompt : String) : FollowupRun Unit :=
  ⟨prompt, none, none, ⟨none, none, none, none⟩, ()⟩

/-- A queue for one message, in the mode `followup`. -/
def oneMessage (dropPolicy : QueueDropPolicy) : QueueSettings :=
  ⟨.followup, some (.ofNat 1), some dropPolicy⟩

/-- The first message is with `runFollowup` when the second one takes its place in the queue. -/
def crowdedRun (dropPolicy : QueueDropPolicy) : List (Action Unit) :=
  [.enqueue (plainMessage "first") (oneMessage dropPolicy) .none false, .schedule, .debounced,
    .enqueue (plainMessage "second") (oneMessage dropPolicy) .none false]

/-- Where nothing is to be reported, the drain comes to an end. -/
theorem drain_quiesces_old :
    ∃ s, exec (next fun _ => true) State.init (crowdedRun .old) = some s ∧
      ∃ n, ((quietStep fun _ => true)^[n] s).queue = none := by
  refine ⟨_, rfl, ?_⟩
  have hrun : exec (next fun _ => true) State.init (crowdedRun .old) = some _ := rfl
  refine (drain_quiesces_iff hrun).mpr fun queue hqueue => ?_
  cases hqueue
  exact .inl rfl

/-- When the first message is summarized, its call, which resolves, takes the second one out of
the queue. Nothing waits then, but a drain follows another for ever. -/
theorem drain_runs_for_ever :
    ∃ s, exec (next fun _ => true) State.init (crowdedRun .summarize) = some s ∧
      ¬ ∃ n, ((quietStep fun _ => true)^[n] s).queue = none := by
  refine ⟨_, rfl, ?_⟩
  rintro ⟨n, hn⟩
  have hrun : exec (next fun _ => true) State.init (crowdedRun .summarize) = some _ := rfl
  refine not_quiesces_of_unsettled ⟨_, rfl, ready_of_run hrun _ rfl, ?_⟩ n hn
  rintro (h | ⟨-, h | h⟩)
  · cases h
  · cases h
  · exact h rfl

end Foxclaw.AutoReply.FollowupQueue
