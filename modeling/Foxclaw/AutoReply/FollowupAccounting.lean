import Foxclaw.AutoReply.FollowupQueue
import Mathlib.Data.List.Count

/-!
# The followup queue: every accepted item is accounted for

Each accepted item is to be in one place: it is queued, or it was passed to `runFollowup`, or it
was dropped by the drop policy (`Accounted`), and it is passed once.

The drain removes items by their number after it waited for `runFollowup`, and the drop
policy removes from the same end; a call that rejects leaves its items in the queue, to be passed
again. So the account is kept by runs in which nothing is dropped while a call is in flight, no
summary is passed in place of a waiting item, and no call rejects (`KeepsCount`).
-/

namespace Foxclaw.AutoReply.FollowupQueue

open List Option Foxclaw.Runs Foxclaw.Utils

variable {ρ : Type} {isRoutableChannel : String → Bool}

/-- The numbers of the items. -/
def idsOf (items : List (Item ρ)) : List ℕ := items.map (·.id)

/-- The items that wait. -/
def State.waiting (s : State ρ) : List ℕ := idsOf (s.queue.elim [] (·.items))

/-- The items that a call in flight passed. -/
def Drain.passing : Option Drain → List ℕ
  | some (.running _ passing _ _) => passing
  | _ => []

/-- The items that the call of `runFollowup` in flight passed. -/
def State.inFlight (s : State ρ) : List ℕ := Drain.passing (s.queue.bind (·.drain))

/-- The items that wait, but for those that the call in flight passed. -/
def State.queued (s : State ρ) : List ℕ := s.waiting.diff s.inFlight

/-- Is a call in flight? -/
def Drain.isRunning : Option Drain → Bool
  | some (.running ..) => true
  | _ => false

/-- How many dropped items wait to be reported. -/
def State.droppedCount (s : State ρ) : ℕ := s.queue.elim 0 (·.droppedCount)

/-- Every accepted item is in one place, and there once. -/
structure Accounted (s : State ρ) : Prop where
  /-- It is queued, or it was passed to `runFollowup` exactly once, or it was dropped. -/
  places : s.accepted.Perm (s.queued ++ s.passed ++ s.dropped)
  /-- No two items have one number, so no item is in two places, or in one of them twice. -/
  nodup : s.accepted.Nodup

/-- The step drops nothing while a call is in flight, passes no summary in place of an item, and
is no call that rejects. -/
def KeepsCount (s : State ρ) : Action ρ → Prop
  | .enqueue run settings dedupeMode recent =>
      let queue := getFollowupQueue s settings
      Drain.isRunning queue.drain = true → isDuplicate run queue.items dedupeMode recent = false →
        drops queue.toQueueState = false
  | .debounced => ∀ queue, s.queue = some queue → queue.mode ≠ .collect → queue.items ≠ [] →
      ¬ (queue.dropPolicy = .summarize ∧ 0 < queue.droppedCount)
  | .settled ok => ok = true
  | .schedule => True

/-! ### The books of a state and its items -/

/-- The items are in order, when these are queued. -/
structure Books (s : State ρ) (queued : List ℕ) : Prop where
  /-- Every accepted item is in one place. -/
  places : s.accepted.Perm (queued ++ s.passed ++ s.dropped)
  /-- No two items have one number. -/
  nodup : s.accepted.Nodup
  fresh : ∀ e ∈ s.accepted, e < s.nextId

/-- The call in flight passed the items at the front that it will remove. -/
def Front (queue : FollowupQueueState ρ) : Prop :=
  ∀ force passing count clear, queue.drain = some (.running force passing count clear) →
    passing = idsOf (queue.items.take count) ∧ count ≤ queue.items.length

/-- The invariant of the runs that keep the account. -/
structure Tracked (s : State ρ) : Prop where
  books : Books s s.queued
  /-- The call in flight is about the front of the queue. -/
  front : ∀ queue, s.queue = some queue → Front queue

variable {s : State ρ}

theorem Tracked.accounted (h : Tracked s) : Accounted s := ⟨h.books.places, h.books.nodup⟩

theorem Tracked.init : Tracked (State.init : State ρ) :=
  ⟨⟨.refl _, nodup_nil, fun _ h => absurd h not_mem_nil⟩, fun _ h => by cases h⟩

/-- What a call passes are items of the queue. -/
theorem Front.count_le {queue : FollowupQueueState ρ} (h : Front queue) (e : ℕ) :
    (Drain.passing queue.drain).count e ≤ (idsOf queue.items).count e := by
  cases hd : queue.drain with
  | none => exact Nat.zero_le _
  | some drain =>
    cases drain with
    | debounce force => exact Nat.zero_le _
    | running force passing count clear =>
      obtain ⟨rfl, -⟩ := h _ _ _ _ hd
      exact ((take_sublist _ _).map _).count_le e

theorem tracked_of_queue {queue : FollowupQueueState ρ}
    (hb : Books s ((idsOf queue.items).diff (Drain.passing queue.drain))) (hf : Front queue) :
    Tracked { s with queue := some queue } :=
  ⟨⟨hb.places, hb.nodup, hb.fresh⟩, fun q hq => by rw [← some.inj hq]; exact hf⟩

/-! ### The drain -/

/-- The wait for the debounce, or the end of the drain. -/
theorem tracked_settleDrain {queue : FollowupQueueState ρ}
    (hb : Books s (idsOf queue.items)) (force : Bool) : Tracked (settleDrain s queue force) := by
  unfold settleDrain
  split
  · rename_i h
    rw [h.1] at hb
    exact ⟨⟨hb.places, hb.nodup, hb.fresh⟩, fun _ hq => by cases hq⟩
  · exact tracked_of_queue hb fun _ _ _ _ hd => (by cases hd)

/-- A call that passes the items at the front of the queue. -/
theorem tracked_callRun {queue : FollowupQueueState ρ} (hb : Books s (idsOf queue.items))
    (message : FollowupRun ρ) (force : Bool) {count : ℕ} (hc : count ≤ queue.items.length) (clear : Bool) :
    Tracked (callRun s queue message force (idsOf (queue.items.take count)) count clear) := by
  refine ⟨⟨perm_iff_count.mpr fun e => ?_, hb.nodup, hb.fresh⟩, fun q hq => ?_⟩
  · -- the items in flight are passed and no more queued
    have hplaces := hb.places.count_eq e
    have htake : (idsOf (queue.items.take count)).count e ≤ (idsOf queue.items).count e :=
      ((take_sublist _ _).map _).count_le e
    simp only [callRun, State.queued, State.waiting, State.inFlight, elim_some, bind_some,
      Drain.passing, count_append, count_diff] at hplaces ⊢
    omega
  · obtain rfl := some.inj hq
    intro _ _ _ _ hd
    cases hd
    exact ⟨rfl, hc⟩

theorem tracked_drainNext {queue : FollowupQueueState ρ}
    (hb : Books s (idsOf queue.items)) (force : Bool) : Tracked (drainNext s queue force) := by
  unfold drainNext
  split
  · exact tracked_settleDrain hb false
  · rename_i item rest hi
    have := tracked_callRun hb item.message force (show 1 ≤ queue.items.length by simp [hi]) false
    rwa [hi] at this

theorem tracked_drainCollect {queue : FollowupQueueState ρ} (hb : Books s (idsOf queue.items))
    (force : Bool) : Tracked (drainCollect isRoutableChannel s queue force) := by
  unfold drainCollect
  simp only
  split
  · exact tracked_drainNext hb _
  · split
    · exact tracked_settleDrain hb false
    · have := fun message => tracked_callRun hb message force (le_refl queue.items.length)
        (previewQueueSummaryPrompt queue.toQueueState "message").isSome
      simp only [take_length] at this
      exact this _

/-- Outside the mode `collect`, when no summary takes the place of an item. -/
theorem tracked_drainSingle {queue : FollowupQueueState ρ} (hb : Books s (idsOf queue.items))
    (force : Bool) (hk : queue.items ≠ [] → ¬ (queue.dropPolicy = .summarize ∧ 0 < queue.droppedCount)) :
    Tracked (drainSingle s queue force) := by
  unfold drainSingle
  split
  · rename_i prompt hp
    split
    · rename_i run item rest _ hi
      -- there is a summary only if something dropped is to be reported
      exact absurd (summarize_of_preview hp) (hk (by simp [hi]))
    · exact tracked_settleDrain hb false
  · exact tracked_drainNext hb force

/-- A call that resolved: its items leave the front of the queue. -/
theorem tracked_runResolved {queue : FollowupQueueState ρ} {count : ℕ}
    (hb : Books s ((idsOf queue.items).diff (idsOf (queue.items.take count)))) (force clear : Bool) :
    Tracked (runResolved s queue force count clear) := by
  have hsplit : idsOf (queue.items.take count) ++ idsOf (queue.items.drop count) = idsOf queue.items := by
    rw [idsOf, idsOf, ← map_append, take_append_drop, idsOf]
  have hbooks : Books s (idsOf (queue.items.drop count)) := by
    refine ⟨perm_iff_count.mpr fun e => ?_, hb.nodup, hb.fresh⟩
    have hplaces := hb.places.count_eq e
    rw [← hsplit] at hplaces
    simp only [count_append, count_diff] at hplaces ⊢
    omega
  unfold runResolved loopHead
  refine tracked_settleDrain ?_ force
  cases clear <;> exact hbooks

/-! ### Enqueueing -/

theorem getFollowupQueue_items (s : State ρ) (settings : QueueSettings) :
    idsOf (getFollowupQueue s settings).items = s.waiting := by
  cases hq : s.queue <;> simp [getFollowupQueue, applyQueueRuntimeSettings, State.waiting, createQueue, hq]

theorem getFollowupQueue_drain (s : State ρ) (settings : QueueSettings) :
    (getFollowupQueue s settings).drain = s.queue.bind (·.drain) := by
  cases hq : s.queue <;> simp [getFollowupQueue, applyQueueRuntimeSettings, createQueue, hq]

theorem getFollowupQueue_droppedCount (s : State ρ) (settings : QueueSettings) :
    (getFollowupQueue s settings).droppedCount = s.droppedCount := by
  cases hq : s.queue <;>
    simp [getFollowupQueue, applyQueueRuntimeSettings, State.droppedCount, createQueue, hq]

/-- The settings change nothing that a call in flight is about. -/
theorem Front.getFollowupQueue (h : ∀ queue, s.queue = some queue → Front queue)
    (settings : QueueSettings) : Front (getFollowupQueue s settings) := by
  cases hq : s.queue with
  | none =>
    intro _ _ _ _ hd
    rw [getFollowupQueue_drain, hq] at hd
    cases hd
  | some queue =>
    have := h queue hq
    unfold FollowupQueue.getFollowupQueue
    rw [hq]
    exact this

/-- What joining the queue does. -/
structure Joined (queue queue' : FollowupQueueState ρ) (item : Item ρ) (dropped : List ℕ) : Prop where
  /-- The items dropped are the oldest; the new one is the last. -/
  items : dropped ++ idsOf queue'.items = idsOf queue.items ++ [item.id]
  drain : queue'.drain = queue.drain
  /-- What is dropped to be summarized is counted. -/
  count : queue'.droppedCount = queue.droppedCount +
    if queue.dropPolicy = .summarize then dropped.length else 0
  /-- Nothing is dropped if the queue has room. -/
  room : drops queue.toQueueState = false → queue'.items = queue.items ++ [item] ∧ dropped = []

theorem joined_of_joinQueue {queue queue' : FollowupQueueState ρ} {id : ℕ} {run : FollowupRun ρ}
    {dropped : List ℕ} (h : joinQueue queue id run = some (queue', dropped)) :
    Joined queue queue' ⟨id, run⟩ dropped := by
  have hitems := applyQueueDropPolicy_items queue.toQueueState summarize
  have hcount := applyQueueDropPolicy_droppedCount queue.toQueueState summarize
  have hroom := fun h : drops queue.toQueueState = false =>
    applyQueueDropPolicy_of_not_drops h summarize
  unfold joinQueue at h
  simp only [ite_none_right_eq_some, some.injEq, Prod.mk.injEq] at h
  obtain ⟨-, rfl, rfl⟩ := h
  refine ⟨?_, rfl, ?_, fun hd => ?_⟩
  · simp only [idsOf, map_append, map_cons, map_nil, ← append_assoc, ← hitems]
  · simp only [hcount, length_map]
  · rw [hroom hd]
    exact ⟨rfl, rfl⟩

/-- `enqueueFollowupRun`, up to the start of a drain. -/
theorem tracked_join {queue queue' : FollowupQueueState ρ} {item : Item ρ} {dropped : List ℕ}
    (hb : Books s ((idsOf queue.items).diff (Drain.passing queue.drain))) (hf : Front queue)
    (hid : item.id = s.nextId) (hj : Joined queue queue' item dropped)
    (hk : Drain.isRunning queue.drain = true → drops queue.toQueueState = false) :
    Tracked { s with
      queue := some queue'
      nextId := s.nextId + 1
      accepted := s.accepted ++ [s.nextId]
      dropped := s.dropped ++ dropped } := by
  -- what is in flight is not dropped
  have happart : Drain.passing queue.drain = [] ∨ dropped = [] := by
    cases hd : Drain.isRunning queue.drain with
    | true => exact .inr (hj.room (hk hd)).2
    | false =>
      refine .inl ?_
      revert hd
      rcases queue.drain with _ | _ | _ <;> first | exact fun _ => rfl | exact fun hd => by cases hd
  have hbooks : Books { s with
      nextId := s.nextId + 1, accepted := s.accepted ++ [s.nextId], dropped := s.dropped ++ dropped }
      ((idsOf queue'.items).diff (Drain.passing queue'.drain)) := by
    refine ⟨perm_iff_count.mpr fun e => ?_, ?_, fun e he => ?_⟩
    · -- the new item is queued, and those dropped move from the queued ones
      have hplaces := hb.places.count_eq e
      have hitems := congrArg (List.count e) hj.items
      have hfront := hf.count_le e
      have hnone : (Drain.passing queue.drain).count e = 0 ∨ dropped.count e = 0 :=
        happart.imp (fun h => by rw [h, count_nil]) fun h => by rw [h, count_nil]
      rw [hid] at hitems
      simp only [hj.drain, count_append, count_diff] at hplaces hitems ⊢
      omega
    · refine nodup_append.mpr ⟨hb.nodup, nodup_singleton _, fun e he e' he' heq => ?_⟩
      rw [heq, mem_singleton.mp he'] at he
      exact Nat.lt_irrefl _ (hb.fresh _ he)
    · rcases mem_append.mp he with he | he
      · exact Nat.lt_succ_of_lt (hb.fresh e he)
      · rw [mem_singleton.mp he]
        exact Nat.lt_succ_self _
  refine tracked_of_queue hbooks fun force passing count clear hd => ?_
  rw [hj.drain] at hd
  obtain ⟨hpassing, hcount⟩ := hf _ _ _ _ hd
  obtain ⟨hitems, -⟩ := hj.room (hk (by rw [hd]; rfl))
  rw [hitems, take_append_of_le_length hcount, length_append]
  exact ⟨hpassing, hcount.trans (Nat.le_add_right _ _)⟩

/-- The books of a queue. -/
theorem Tracked.of_queue (h : Tracked s) {queue : FollowupQueueState ρ} (hq : s.queue = some queue) :
    Books s ((idsOf queue.items).diff (Drain.passing queue.drain)) := by
  have := h.books
  rwa [State.queued, State.waiting, State.inFlight, hq, elim_some, bind_some] at this

theorem tracked_schedule (h : Tracked s) : Tracked (scheduleFollowupDrain s) := by
  unfold scheduleFollowupDrain
  split
  · rename_i queue hq
    split
    · exact h
    · rename_i hd
      rw [not_isSome_iff_eq_none] at hd
      have hb := h.of_queue hq
      rw [hd] at hb
      exact tracked_settleDrain (s := { s with hasCallback := true })
        ⟨hb.places, hb.nodup, hb.fresh⟩ false
  · exact h

theorem tracked_enqueue (h : Tracked s) {run : FollowupRun ρ} {settings : QueueSettings}
    {dedupeMode : QueueDedupeMode} {recent : Bool}
    (hk : KeepsCount s (.enqueue run settings dedupeMode recent)) :
    Tracked (enqueueFollowupRun s run settings dedupeMode recent).1 := by
  have hf := Front.getFollowupQueue h.front settings
  have hb : Books s ((idsOf (getFollowupQueue s settings).items).diff
      (Drain.passing (getFollowupQueue s settings).drain)) := by
    rw [getFollowupQueue_items, getFollowupQueue_drain]
    exact h.books
  unfold enqueueFollowupRun
  simp only [KeepsCount] at hk
  simp only
  generalize getFollowupQueue s settings = queue at hf hb hk
  split
  · exact tracked_of_queue hb hf
  · rename_i hdup
    rw [Bool.not_eq_true] at hdup
    split
    · exact tracked_of_queue hb hf
    · rename_i queue' dropped hj
      have ht := tracked_join hb hf rfl (joined_of_joinQueue hj) fun hr => hk hr hdup
      split
      · exact tracked_schedule ht
      · exact ht

/-! ### Every step and every run -/

/-- A step that drops nothing in flight, passes no summary in place of an item, and is no call that
rejects, keeps the account. -/
theorem Tracked.next {s s' : State ρ} {a : Action ρ} (h : Tracked s) (hk : KeepsCount s a)
    (hs : next isRoutableChannel s a = some s') : Tracked s' := by
  cases a with
  | enqueue run settings dedupeMode recent =>
    rw [FollowupQueue.next, some.injEq] at hs
    exact hs ▸ tracked_enqueue h hk
  | schedule =>
    rw [FollowupQueue.next, some.injEq] at hs
    exact hs ▸ tracked_schedule h
  | debounced =>
    simp only [FollowupQueue.next] at hs
    split at hs
    · rename_i queue hq
      split at hs
      · rename_i force hd
        cases hs
        have hb := h.of_queue hq
        rw [hd] at hb
        unfold drainTurn
        split
        · exact tracked_drainCollect hb force
        · rename_i hm
          exact tracked_drainSingle hb force (hk queue hq hm)
      · cases hs
    · cases hs
  | settled ok =>
    simp only [FollowupQueue.next] at hs
    split at hs
    · rename_i queue hq
      split at hs
      · rename_i force passing count clear hd
        cases hs
        obtain rfl : ok = true := hk
        have hb := h.of_queue hq
        obtain ⟨rfl, -⟩ := h.front queue hq _ _ _ _ hd
        rw [hd] at hb
        exact tracked_runResolved hb force clear
      · cases hs
    · cases hs

/-- What is dropped to be summarized is counted. -/
theorem enqueue_droppedCount (s : State ρ) (run : FollowupRun ρ) (settings : QueueSettings)
    (dedupeMode : QueueDedupeMode) (recent : Bool) :
    let s' := (enqueueFollowupRun s run settings dedupeMode recent).1
    ∃ dropped, s'.dropped = s.dropped ++ dropped ∧ s'.droppedCount = s.droppedCount +
      if (getFollowupQueue s settings).dropPolicy = .summarize then dropped.length else 0 := by
  have hschedule : ∀ s : State ρ, (scheduleFollowupDrain s).droppedCount = s.droppedCount ∧
      (scheduleFollowupDrain s).dropped = s.dropped := by
    intro s
    unfold scheduleFollowupDrain loopHead settleDrain
    split
    · rename_i queue hq
      split
      · exact ⟨rfl, rfl⟩
      · split
        · rename_i h
          exact ⟨by simp [State.droppedCount, hq, h.2], rfl⟩
        · exact ⟨by simp [State.droppedCount, hq], rfl⟩
    · exact ⟨rfl, rfl⟩
  have hcount := getFollowupQueue_droppedCount s settings
  unfold enqueueFollowupRun
  simp only
  generalize getFollowupQueue s settings = queue at hcount
  rw [← hcount]
  split
  · exact ⟨[], (append_nil _).symm, by simp [State.droppedCount]⟩
  · split
    · exact ⟨[], (append_nil _).symm, by simp [State.droppedCount]⟩
    · rename_i queue' dropped hj
      refine ⟨dropped, ?_⟩
      have hcount' := (joined_of_joinQueue hj).count
      split
      · rw [(hschedule _).1, (hschedule _).2]
        exact ⟨rfl, hcount'⟩
      · exact ⟨rfl, hcount'⟩

/-- **No lost and no duplicated message**, in every run that drops nothing while a call is in
flight, passes no summary in place of an item, and has no call that rejects: every accepted item
is queued, or was passed exactly once, or was dropped, exactly one of them; and what is dropped to
be summarized is counted. -/
theorem accounted_of_keepsCount {as : List (Action ρ)} {s : State ρ}
    (hk : Meets (next isRoutableChannel) KeepsCount .init as)
    (h : exec (next isRoutableChannel) .init as = some s) :
    Accounted s ∧ ∀ run settings dedupeMode recent,
      let s' := (enqueueFollowupRun s run settings dedupeMode recent).1
      ∃ dropped, s'.dropped = s.dropped ++ dropped ∧ s'.droppedCount = s.droppedCount +
        if (getFollowupQueue s settings).dropPolicy = .summarize then dropped.length else 0 := by
  have ht : Tracked s :=
    exec_invariant_of_meets (fun _ _ _ hi hp hs => Tracked.next hi hp hs) hk Tracked.init h
  exact ⟨ht.accounted, enqueue_droppedCount s⟩

/-- A message with this text. -/
def textMessage (prompt : String) : FollowupRun Unit := ⟨prompt, none, none, ⟨none, none, none, none⟩, ()⟩

/-- A message arrives at a queue that is drained one by one. -/
def arrives (prompt : String) (cap : ℕ) (dropPolicy : QueueDropPolicy) : Action Unit :=
  .enqueue (textMessage prompt) ⟨.followup, some (.ofNat cap), some dropPolicy⟩ .none false

/-- The account of a run in which one of three messages is dropped before the drain. -/
theorem accounted_of_keepsCount_old : ∃ s, exec (next fun _ => true) .init
    [arrives "a" 2 .old, arrives "b" 2 .old, arrives "c" 2 .old, .schedule, .debounced, .settled true,
      .debounced] = some s ∧ Accounted s := by
  have hrun : exec (next fun _ => true) .init [arrives "a" 2 .old, arrives "b" 2 .old,
    arrives "c" 2 .old, .schedule, .debounced, .settled true, .debounced] = some _ := rfl
  refine ⟨_, rfl, (accounted_of_keepsCount ?_ hrun).1⟩
  -- nothing arrives while a call is in flight, and nothing is dropped to be summarized
  refine .cons (fun h => by cases h) rfl (.cons (fun h => by cases h) rfl (.cons (fun h => by cases h) rfl
    (.cons trivial rfl (.cons ?_ rfl (.cons rfl rfl (.cons ?_ rfl trivial))))))
  all_goals
    intro queue hq _ _ h
    cases hq
    exact absurd h.1 (by decide)

/-- A message that arrives at a full queue while the first item is in flight: the first item is
dropped and run, and the new one is neither. -/
theorem dropped_in_flight_loses : ∃ s, exec (next fun _ => true) .init
    [arrives "a" 1 .old, .schedule, .debounced, arrives "b" 1 .old, .settled true] = some s ∧
    ¬ Accounted s := by
  refine ⟨_, rfl, fun h => ?_⟩
  have : (1 : ℕ) ∈ ([0, 0] : List ℕ) := h.places.mem_iff.mp (by decide)
  simp at this

end Foxclaw.AutoReply.FollowupQueue
