import Foxclaw.Agents.AnnounceQueue

/-!
# Announcements are delivered at least once

An announcement leaves the queue when a send that carried it has resolved, or when the drop policy
drops it; then a line stands for it in the summary, as long as no more than `cap` lines wait.

The drain removes by position what it sent, after it waited for `send`, and the drop policy
removes from the same end; and outside the mode `collect` a summary is sent in place of an item. So
this is so in the runs in which no such send resolves (`Kept`).

## What is proved

* `retriesLater_of_rejected` — a failed send removes nothing, and the drain waits to send again.
* `announcements_delivered` — every accepted announcement is accounted for.
-/

namespace Foxclaw.Agents.AnnounceQueue

open List Option Foxclaw.Runs Foxclaw.Utils
open Foxclaw.AutoReply.FollowupQueue (QueueMode)

variable {ω ε ρ : Type} {origins : Origins ω}

/-! ### What is delivered -/

/-- The send carried the prompt of the announcement; a collected prompt without the white space at
its end. -/
def Carries (sent : Sending × String) (item : AnnounceQueueItem ω ε ρ) : Prop :=
  match sent.1 with
  | .single => sent.2 = item.prompt
  | .collected _ _ => Text.trimEnd item.prompt.toList <:+: sent.2.toList
  | .summaryInPlace => False

/-- The items that wait. -/
def State.items (s : State ω ε ρ) : List (Item ω ε ρ) := s.queue.elim [] (·.items)

/-- The summary lines that wait. -/
def State.summaryLines (s : State ω ε ρ) : List String := s.queue.elim [] (·.summaryLines)

/-- Every accepted announcement waits, was delivered or was dropped; and when it was dropped to be
summarized, its line waits, was delivered since, or was cut. -/
structure Accounted (s : State ω ε ρ) : Prop where
  /-- Announcements. -/
  items : ∀ id item, s.accepted[id]? = some item → ⟨id, item⟩ ∈ s.items ∨
    (∃ sent ∈ s.delivered, Carries sent item) ∨ ∃ d ∈ s.dropped, d.id = id
  /-- Lines. -/
  lines : ∀ d ∈ s.dropped, ∀ line, d.line = some line → d.id ∈ s.cut ∨ line ∈ s.summaryLines ∨
    ∃ sent ∈ s.delivered.drop d.delivered, Contains sent.2 line

/-- No send resolves that sent a summary in place of an item, or that was overtaken by a drop. -/
def Kept (s : State ω ε ρ) (a : Action ω ε ρ) : Prop :=
  match a, s.queue.bind (·.drain) with
  | .settled _ true, some (.sending _ what _ overtaken) => what ≠ .summaryInPlace ∧ overtaken = false
  | _, _ => True

instance (s : State ω ε ρ) (a : Action ω ε ρ) : Decidable (Kept s a) := by
  unfold Kept
  split <;> infer_instance

/-! ### The invariant -/

/-- The send in flight carries what it will remove. -/
def Front (queue : AnnounceQueueState ω ε ρ) : Prop :=
  ∀ force what prompt, queue.drain = some (.sending force what prompt false) →
    what ≠ .summaryInPlace → what.count ≤ queue.items.length ∧
      (∀ item ∈ queue.items.take what.count, Carries (what, prompt) item.announce) ∧
      (what.clears = true → ∀ line ∈ queue.summaryLines, Contains prompt line)

/-- The queue has something to send while a send is in flight. -/
def Busy (queue : AnnounceQueueState ω ε ρ) : Prop :=
  ∀ force what prompt overtaken, queue.drain = some (.sending force what prompt overtaken) →
    queue.items ≠ []

/-- The books, when these items and these lines wait. -/
structure Books (s : State ω ε ρ) (items : List (Item ω ε ρ)) (lines : List String) : Prop where
  /-- The items that wait are accepted ones. -/
  accepted : ∀ item ∈ items, s.accepted[item.id]? = some item.announce
  /-- Every accepted one is accounted for. -/
  items : ∀ id item, s.accepted[id]? = some item → ⟨id, item⟩ ∈ items ∨
    (∃ sent ∈ s.delivered, Carries sent item) ∨ ∃ d ∈ s.dropped, d.id = id
  /-- Each line is of one dropped item. -/
  aligned : s.lineIds.length = lines.length
  /-- Every line is accounted for. -/
  lines : ∀ d ∈ s.dropped, ∀ line, d.line = some line → d.id ∈ s.cut ∨
    (d.id, line) ∈ s.lineIds.zip lines ∨ ∃ sent ∈ s.delivered.drop d.delivered, Contains sent.2 line
  /-- The record of a drop is not about the future. -/
  past : ∀ d ∈ s.dropped, d.delivered ≤ s.delivered.length

/-- No line waits when nothing was dropped. -/
def Counted (queue : AnnounceQueueState ω ε ρ) : Prop :=
  queue.droppedCount = 0 → queue.summaryLines = []

/-- What holds of a queue in every state. -/
structure QueueOk (queue : AnnounceQueueState ω ε ρ) : Prop where
  front : Front queue
  busy : Busy queue
  counted : Counted queue

/-- The invariant. -/
structure Tracked (s : State ω ε ρ) : Prop where
  books : Books s s.items s.summaryLines
  queue : ∀ queue, s.queue = some queue → QueueOk queue

variable {s : State ω ε ρ}

theorem Tracked.accounted (h : Tracked s) : Accounted s where
  items := h.books.items
  lines d hd line hline := (h.books.lines d hd line hline).imp_right (.imp_left fun hmem => (of_mem_zip hmem).2)

theorem Tracked.init : Tracked (State.init : State ω ε ρ) where
  books := ⟨fun _ h => (by cases h), fun _ _ h => (by cases h), rfl, fun _ h => (by cases h),
    fun _ h => (by cases h)⟩
  queue := fun _ h => by cases h

variable {lines : List String}

theorem Books.congr {s s' : State ω ε ρ} {items : List (Item ω ε ρ)} (h : Books s items lines)
    (ha : s'.accepted = s.accepted) (hd : s'.dropped = s.dropped) (hl : s'.lineIds = s.lineIds)
    (hc : s'.cut = s.cut) (hs : s'.delivered = s.delivered) : Books s' items lines :=
  ⟨by rw [ha]; exact h.accepted, by rw [ha, hs, hd]; exact h.items, by rw [hl]; exact h.aligned,
    by rw [hd, hc, hl, hs]; exact h.lines, by rw [hd, hs]; exact h.past⟩

/-! ### The drain -/

theorem tracked_wait {queue : AnnounceQueueState ω ε ρ} (h : Books s queue.items queue.summaryLines)
    (hc : Counted queue) (force : Bool) : Tracked (waitForQueueDebounce s queue force) where
  books := h.congr rfl rfl rfl rfl rfl
  queue q hq := by
    obtain rfl := some.inj hq
    exact ⟨fun _ _ _ hd => (by cases hd), fun _ _ _ _ hd => (by cases hd), hc⟩

theorem tracked_deleted {queue : AnnounceQueueState ω ε ρ} (h : Books s queue.items queue.summaryLines)
    (hitems : queue.items = []) (hlines : queue.summaryLines = []) : Tracked { s with queue := none } where
  books := by rw [hitems, hlines] at h; exact h.congr rfl rfl rfl rfl rfl
  queue _ hq := by cases hq

theorem tracked_loopHead {queue : AnnounceQueueState ω ε ρ} (h : Books s queue.items queue.summaryLines)
    (hc : Counted queue) (force : Bool) : Tracked (loopHead s queue force) := by
  unfold loopHead
  split_ifs with hempty
  · exact tracked_deleted h hempty.1 (hc hempty.2)
  · exact tracked_wait h hc force

theorem tracked_callSend {queue : AnnounceQueueState ω ε ρ}
    (h : Books s queue.items queue.summaryLines) (hc : Counted queue) (hne : queue.items ≠ [])
    {force : Bool} {what : Sending} {item : AnnounceQueueItem ω ε ρ} (hfront : what ≠ .summaryInPlace →
      what.count ≤ queue.items.length ∧
      (∀ it ∈ queue.items.take what.count, Carries (what, item.prompt) it.announce) ∧
      (what.clears = true → ∀ line ∈ queue.summaryLines, Contains item.prompt line)) :
    Tracked (callSend s queue force what item) where
  books := h.congr rfl rfl rfl rfl rfl
  queue q hq := by
    obtain rfl := some.inj hq
    refine ⟨fun _ _ _ hd => ?_, fun _ _ _ _ _ => hne, hc⟩
    cases hd
    exact hfront

theorem tracked_drainNextQueueItem {queue : AnnounceQueueState ω ε ρ}
    (h : Books s queue.items queue.summaryLines) (hc : Counted queue) (force : Bool) :
    Tracked (drainNextQueueItem s queue force) := by
  unfold drainNextQueueItem
  split
  · exact @tracked_loopHead _ _ _ _ { queue with consecutiveFailures := 0 } h hc false
  · rename_i item rest hitems
    refine tracked_callSend h hc (by rw [hitems]; exact cons_ne_nil _ _) fun _ => ⟨?_, fun it hit => ?_, ?_⟩
    · rw [hitems]
      exact Nat.succ_le_succ (Nat.zero_le _)
    · rw [hitems] at hit
      obtain rfl := mem_singleton.mp hit
      rfl
    · intro hclears
      cases hclears

/-- A rendered item has the prompt, without the white space at its end. -/
theorem trimEnd_infix_renderItem (item : Item ω ε ρ) (idx : ℕ) :
    Text.trimEnd item.announce.prompt.toList <:+: (renderItem item idx).toList := by
  have hstart (ds : List Char) : Text.trimStart ("---\nQueued #".toList ++ ds) =
      "---\nQueued #".toList ++ ds := rfl
  rw [renderItem, Text.trimString, String.toList_ofList, String.toList_append, String.toList_append,
    String.toList_append, Text.trim, append_assoc, append_assoc, hstart, ← append_assoc,
    ← append_assoc]
  exact Text.trimEnd_infix_trimEnd_append _ _

theorem tracked_drainCollect {queue : AnnounceQueueState ω ε ρ} (h : Books s queue.items queue.summaryLines)
    (hc : Counted queue) (force : Bool) : Tracked (drainCollect s queue force) := by
  unfold drainCollect
  dsimp only
  split_ifs
  · exact tracked_drainNextQueueItem h hc _
  · split
    · exact @tracked_loopHead _ _ _ _ { queue with consecutiveFailures := 0 } h hc false
    · rename_i last hlast
      have hne : queue.items ≠ [] := fun hnil => by rw [hnil] at hlast; cases hlast
      refine tracked_callSend h hc hne fun _ => ⟨le_rfl, fun it hit => ?_, fun hclears line hline => ?_⟩
      · obtain ⟨idx, hidx⟩ := contains_buildCollectPrompt "[Queued announce messages while agent was busy]"
          (previewQueueSummaryPrompt queue.toQueueState "announce") renderItem
          (mem_of_mem_take hit)
        exact (trimEnd_infix_renderItem it idx).trans hidx
      · obtain ⟨summary, hsummary⟩ := isSome_iff_exists.mp hclears
        rw [hsummary]
        exact (contains_buildCollectPrompt_summary _ _ _ _).trans
          (contains_previewQueueSummaryPrompt hsummary hline)

theorem tracked_drainSingle {queue : AnnounceQueueState ω ε ρ} (h : Books s queue.items queue.summaryLines)
    (hc : Counted queue) (force : Bool) : Tracked (drainSingle s queue force) := by
  unfold drainSingle
  split
  · exact tracked_drainNextQueueItem h hc force
  · split
    · exact @tracked_loopHead _ _ _ _ { queue with consecutiveFailures := 0 } h hc false
    · rename_i item rest hitems
      exact tracked_callSend h hc (by rw [hitems]; exact cons_ne_nil _ _) fun hne => absurd rfl hne

/-- The send resolved, and it carried what it removes. -/
theorem tracked_sendResolved {queue : AnnounceQueueState ω ε ρ} (h : Books s queue.items queue.summaryLines)
    (hc : Counted queue) {force : Bool} {what : Sending} {prompt : String}
    (hitems : ∀ item ∈ queue.items.take what.count, Carries (what, prompt) item.announce)
    (hlines : what.clears = true → ∀ line ∈ queue.summaryLines, Contains prompt line) :
    Tracked (sendResolved s queue force what prompt) := by
  have hbooks : Books { s with
        delivered := s.delivered ++ [(what, prompt)]
        lineIds := if what.clears then [] else s.lineIds }
      (removeSent queue what).items (removeSent queue what).summaryLines := by
    have hremoved : (removeSent queue what).items = queue.items.drop what.count := by
      unfold removeSent; dsimp only; split_ifs <;> rfl
    have hlast {d : Dropped} (hd : d ∈ s.dropped) :
        (what, prompt) ∈ (s.delivered ++ [(what, prompt)]).drop d.delivered := by
      rw [drop_append_of_le_length (h.past d hd)]
      exact mem_append_right _ (mem_singleton_self _)
    have hearlier {d : Dropped} {sent : Sending × String} (hd : d ∈ s.dropped)
        (hsent : sent ∈ s.delivered.drop d.delivered) :
        sent ∈ (s.delivered ++ [(what, prompt)]).drop d.delivered := by
      rw [drop_append_of_le_length (h.past d hd)]
      exact mem_append_left _ hsent
    refine ⟨?_, ?_, ?_, ?_, ?_⟩
    · rw [hremoved]
      exact fun item hitem => h.accepted item (mem_of_mem_drop hitem)
    · intro id item haccepted
      rw [hremoved]
      rcases h.items id item haccepted with hwaits | ⟨sent, hsent, hcarries⟩ | hdropped
      · rw [← take_append_drop what.count queue.items] at hwaits
        rcases mem_append.mp hwaits with hsent | hwaits
        · exact .inr (.inl ⟨_, mem_append_right _ (mem_singleton_self _), hitems _ hsent⟩)
        · exact .inl hwaits
      · exact .inr (.inl ⟨sent, mem_append_left _ hsent, hcarries⟩)
      · exact .inr (.inr hdropped)
    · unfold removeSent
      dsimp only
      split_ifs with hclears
      · rfl
      · exact h.aligned
    · intro d hd line hline
      rcases h.lines d hd line hline with hcut | hwaits | ⟨sent, hsent, hcontains⟩
      · exact .inl hcut
      · unfold removeSent
        dsimp only
        split_ifs with hclears
        · exact .inr (.inr ⟨_, hlast hd, hlines hclears line (of_mem_zip hwaits).2⟩)
        · exact .inr (.inl hwaits)
      · exact .inr (.inr ⟨sent, hearlier hd hsent, hcontains⟩)
    · intro d hd
      rw [length_append]
      exact Nat.le_add_right_of_le (h.past d hd)
  have hcounted : Counted (removeSent queue what) := by
    unfold removeSent
    dsimp only
    split_ifs
    · exact fun _ => rfl
    · exact hc
  unfold sendResolved
  dsimp only
  by_cases hempty : (removeSent queue what).items = [] ∧ (removeSent queue what).droppedCount = 0
  · rw [if_pos hempty]
    exact @tracked_loopHead _ _ _ _ { removeSent queue what with consecutiveFailures := 0 }
      hbooks hcounted false
  · rw [if_neg hempty]
    exact tracked_wait hbooks hcounted force

/-! ### Enqueueing -/

theorem tracked_schedule (h : Tracked s) : Tracked (scheduleAnnounceDrain s) := by
  unfold scheduleAnnounceDrain
  split
  · exact h
  · rename_i queue hq
    split_ifs
    · exact h
    · have hbooks := h.books
      rw [State.items, State.summaryLines, hq] at hbooks
      exact tracked_loopHead hbooks (h.queue queue hq).counted false

/-- The queue after `getAnnounceQueue`: only its settings change. -/
theorem tracked_getAnnounceQueue (h : Tracked s) (settings : AnnounceQueueSettings) (now : ℚ) :
    Books s (getAnnounceQueue s settings).items (getAnnounceQueue s settings).summaryLines ∧
      QueueOk { getAnnounceQueue s settings with
        lastEnqueuedAt := max (getAnnounceQueue s settings).lastEnqueuedAt now } := by
  have hbooks := h.books
  have hqueue := h.queue
  unfold getAnnounceQueue
  rw [State.items, State.summaryLines] at hbooks
  cases hq : s.queue with
  | none =>
    rw [hq] at hbooks
    exact ⟨hbooks, fun _ _ _ hd => (by cases hd), fun _ _ _ _ hd => (by cases hd), fun _ => rfl⟩
  | some queue =>
    rw [hq] at hbooks
    exact ⟨hbooks, (hqueue queue hq).front, (hqueue queue hq).busy, (hqueue queue hq).counted⟩

/-- The books when items were dropped and a new one has joined the queue. -/
theorem books_accept {queue : AnnounceQueueState ω ε ρ}
    (h : Books s queue.items queue.summaryLines) (item : AnnounceQueueItem ω ε ρ) {k : ℕ}
    {kept dropped : List (Item ω ε ρ)} (hitems : dropped ++ kept = queue.items)
    {summarized : Bool} (hlines : lines = (queue.summaryLines ++ if summarized then
      dropped.map fun item => buildQueueSummaryLine (summarize item) else []).drop k)
    (lineIds : List ℕ)
    (hids : lineIds = if summarized then s.lineIds ++ dropped.map (·.id) else s.lineIds) :
    Books { s with
      accepted := s.accepted ++ [item]
      dropped := s.dropped ++ dropped.map fun it =>
        ⟨it.id, if summarized then some (buildQueueSummaryLine (summarize it)) else none,
          s.delivered.length⟩
      lineIds := lineIds.drop (lineIds.length - lines.length)
      cut := s.cut ++ lineIds.take (lineIds.length - lines.length) }
      (kept ++ [⟨s.accepted.length, item⟩]) lines := by
  generalize hall : (queue.summaryLines ++ if summarized then
    dropped.map fun item => buildQueueSummaryLine (summarize item) else []) = all at hlines
  have hlen : lineIds.length = all.length := by
    rw [hids, ← hall]
    cases summarized <;> simp [h.aligned]
  -- a line that waited or is new waits now, or was cut
  have hzip (id : ℕ) (line : String) (hmem : (id, line) ∈ lineIds.zip all) :
      id ∈ lineIds.take (lineIds.length - lines.length) ∨
        (id, line) ∈ (lineIds.drop (lineIds.length - lines.length)).zip lines := by
    have hdrop : lines = all.drop (lineIds.length - lines.length) := by
      rw [hlines, length_drop, hlen]
      by_cases hk : k ≤ all.length
      · rw [Nat.sub_sub_self hk]
      · rw [drop_eq_nil_of_le (Nat.le_of_not_le hk), drop_eq_nil_of_le (by omega)]
    generalize lineIds.length - lines.length = n at hdrop ⊢
    rw [hdrop]
    rw [← take_append_drop n lineIds, ← take_append_drop n all, zip_append (by simp [hlen])] at hmem
    exact (mem_append.mp hmem).imp_left fun hmem => (of_mem_zip hmem).1
  refine ⟨fun it hit => ?_, fun id it hit => ?_, ?_, fun d hd line hline => ?_, fun d hd => ?_⟩
  · rcases mem_append.mp hit with hit | hit
    · have hold := h.accepted it (hitems ▸ mem_append_right _ hit)
      rw [getElem?_append_left (List.getElem?_eq_some_iff.mp hold).1]
      exact hold
    · obtain rfl := mem_singleton.mp hit
      simp
  · rcases Nat.lt_or_ge id s.accepted.length with hlt | hge
    · rw [getElem?_append_left hlt] at hit
      rcases h.items id it hit with hwaits | hsent | ⟨d, hd, hid⟩
      · rw [← hitems] at hwaits
        rcases mem_append.mp hwaits with hdropped | hkept
        · exact .inr (.inr ⟨_, mem_append_right _ (List.mem_map_of_mem hdropped), rfl⟩)
        · exact .inl (mem_append_left _ hkept)
      · exact .inr (.inl hsent)
      · exact .inr (.inr ⟨d, mem_append_left _ hd, hid⟩)
    · refine .inl (mem_append_right _ (mem_singleton.mpr ?_))
      have hid := (List.getElem?_eq_some_iff.mp hit).1
      rw [length_append, length_singleton] at hid
      obtain rfl : id = s.accepted.length := by omega
      rw [getElem?_concat_length] at hit
      rw [some.inj hit]
  · rw [length_drop]
    have : lines.length ≤ lineIds.length := by
      rw [hlines, length_drop, hlen]
      exact Nat.sub_le _ _
    omega
  · rcases mem_append.mp hd with hd | hd
    · rcases h.lines d hd line hline with hcut | hwaits | hsent
      · exact .inl (mem_append_left _ hcut)
      · have hmem : (d.id, line) ∈ lineIds.zip all := by
          rw [hids, ← hall]
          cases summarized with
          | false => simpa using hwaits
          | true =>
            rw [if_pos rfl, if_pos rfl, zip_append h.aligned]
            exact mem_append_left _ hwaits
        exact (hzip _ _ hmem).imp (fun hcut => mem_append_right _ hcut) .inl
      · exact .inr (.inr hsent)
    · obtain ⟨it, hit, rfl⟩ := List.mem_map.mp hd
      cases summarized with
      | false => cases hline
      | true =>
        obtain rfl := some.inj hline
        have hmem : (it.id, buildQueueSummaryLine (summarize it)) ∈ lineIds.zip all := by
          rw [hids, ← hall, if_pos rfl, if_pos rfl, zip_append h.aligned]
          refine mem_append_right _ ?_
          rw [zip_map']
          exact List.mem_map_of_mem (f := fun it => (it.id, buildQueueSummaryLine (summarize it))) hit
        exact (hzip _ _ hmem).imp (fun hcut => mem_append_right _ hcut) .inl
  · rcases mem_append.mp hd with hd | hd
    · exact h.past d hd
    · obtain ⟨it, -, rfl⟩ := List.mem_map.mp hd
      exact le_rfl

/-- The queue after items were dropped and a new one has joined it. -/
theorem queueOk_accept {queue : AnnounceQueueState ω ε ρ} (h : QueueOk queue) (item : Item ω ε ρ) :
    let r := applyQueueDropPolicy queue.toQueueState summarize
    QueueOk { queue with
      toQueueState := { r.2.1 with items := r.2.1.items ++ [item] }
      drain := queue.drain.map (Drain.overtake (r.2.2 ≠ [])) } := by
  intro r
  have hdrain {force : Bool} {what : Sending} {prompt : String} {overtaken : Bool}
      (hd : queue.drain.map (Drain.overtake (r.2.2 ≠ [])) =
        some (.sending force what prompt overtaken)) :
      ∃ before, queue.drain = some (.sending force what prompt before) ∧
        overtaken = (before || decide (r.2.2 ≠ [])) := by
    obtain ⟨drain, hdrain, heq⟩ := map_eq_some_iff.mp hd
    cases drain with
    | debounce => cases heq
    | sending =>
      cases heq
      exact ⟨_, hdrain, rfl⟩
  refine ⟨fun force what prompt hd hwhat => ?_, fun _ _ _ _ _ => by simp, fun hzero => ?_⟩
  · obtain ⟨before, hd, hovertaken⟩ := hdrain hd
    -- nothing was dropped since the send began
    have hnil : r.2.2 = [] := by
      by_contra hne
      rw [decide_eq_true hne, Bool.or_true] at hovertaken
      cases hovertaken
    obtain rfl : before = false := by
      cases before with
      | false => rfl
      | true => rw [Bool.true_or] at hovertaken; cases hovertaken
    obtain ⟨hcount, hitems, hlines⟩ := h.front force what prompt hd hwhat
    have hsame : r.2.1 = queue.toQueueState :=
      applyQueueDropPolicy_of_nil hnil (h.busy force what prompt false hd)
    simp only [hsame]
    refine ⟨?_, fun it hit => ?_, hlines⟩
    · rw [length_append]
      exact Nat.le_add_right_of_le hcount
    · rw [take_append_of_le_length hcount] at hit
      exact hitems it hit
  · have hcount := applyQueueDropPolicy_droppedCount queue.toQueueState (summarize (ω := ω))
    obtain ⟨k, hlines, -⟩ := applyQueueDropPolicy_summaryLines queue.toQueueState (summarize (ω := ω))
    have hzero : (applyQueueDropPolicy queue.toQueueState summarize).2.1.droppedCount = 0 := hzero
    rw [hzero] at hcount
    have hold : queue.summaryLines = [] := h.counted (by omega)
    show (applyQueueDropPolicy queue.toQueueState summarize).2.1.summaryLines = []
    rw [hlines, hold]
    split_ifs with hp
    · rw [if_pos hp] at hcount
      rw [eq_nil_of_length_eq_zero (l := (applyQueueDropPolicy queue.toQueueState summarize).2.2) (by omega)]
      simp
    · simp

theorem tracked_joinQueue {queue : AnnounceQueueState ω ε ρ}
    (hbooks : Books s queue.items queue.summaryLines) (hqueue : QueueOk queue)
    (item : AnnounceQueueItem ω ε ρ) :
    Tracked (joinQueue s queue (applyQueueDropPolicy queue.toQueueState summarize) item) := by
  refine ⟨?_, fun q heq => ?_⟩
  · obtain ⟨k, hlines, -⟩ := applyQueueDropPolicy_summaryLines queue.toQueueState (summarize (ω := ω))
    have hlines : (applyQueueDropPolicy queue.toQueueState summarize).2.1.summaryLines =
        (queue.summaryLines ++ if decide (queue.dropPolicy = .summarize) = true then
          (applyQueueDropPolicy queue.toQueueState summarize).2.2.map fun item =>
            buildQueueSummaryLine (summarize item) else []).drop k := by
      rw [hlines]
      simp only [decide_eq_true_eq]
    exact (books_accept hbooks item (applyQueueDropPolicy_items queue.toQueueState summarize) hlines _
      rfl).congr rfl rfl rfl rfl rfl
  · obtain rfl := some.inj heq
    exact queueOk_accept hqueue _

theorem tracked_enqueueInto {queue : AnnounceQueueState ω ε ρ}
    (hbooks : Books s queue.items queue.summaryLines) (hqueue : QueueOk queue)
    (item : AnnounceQueueItem ω ε ρ) : Tracked (enqueueInto origins s queue item).1 := by
  have hsame : Tracked { s with queue := some queue } :=
    ⟨hbooks.congr rfl rfl rfl rfl rfl, fun q heq => some.inj heq ▸ hqueue⟩
  unfold enqueueInto
  dsimp only
  split
  · exact tracked_schedule (tracked_joinQueue hbooks hqueue _)
  · dsimp only
    split_ifs
    · exact tracked_schedule hsame
    · exact hsame

/-! ### Runs -/

variable {a : Action ω ε ρ}

/-- A step that keeps to the condition keeps the invariant. -/
theorem next_tracked {s s' : State ω ε ρ} (h : Tracked s) (hP : Kept s a)
    (hs : next origins s a = some s') : Tracked s' := by
  have hbooks := h.books
  rw [State.items, State.summaryLines] at hbooks
  cases a with
  | enqueue now item settings =>
    cases hs
    obtain ⟨hbooks, hqueue⟩ := tracked_getAnnounceQueue h settings now
    exact @tracked_enqueueInto _ _ _ _ _ { getAnnounceQueue s settings with
      lastEnqueuedAt := max (getAnnounceQueue s settings).lastEnqueuedAt now } hbooks hqueue item
  | debounced now =>
    simp only [next] at hs
    split at hs
    · cases hs
    · rename_i queue hq
      rw [hq] at hbooks
      split at hs
      · obtain ⟨-, ⟨⟩⟩ := ite_none_right_eq_some.mp hs
        unfold drainTurn
        split_ifs
        · exact tracked_drainCollect hbooks (h.queue queue hq).counted _
        · exact tracked_drainSingle hbooks (h.queue queue hq).counted _
      · cases hs
  | settled now ok =>
    simp only [next] at hs
    split at hs
    · cases hs
    · rename_i queue hq
      rw [hq] at hbooks
      have hok := h.queue queue hq
      split at hs
      · rename_i force what prompt overtaken hd
        cases hs
        cases ok with
        | false =>
          rw [if_neg Bool.false_ne_true]
          exact @tracked_loopHead _ _ _ _ { queue with
            consecutiveFailures := queue.consecutiveFailures + 1
            lastEnqueuedAt := now + max (errorBackoffMs (queue.consecutiveFailures + 1))
              queue.debounceMs - queue.debounceMs } hbooks hok.counted false
        | true =>
          simp only [Kept, hq, bind_some, hd] at hP
          obtain ⟨hwhat, rfl⟩ := hP
          obtain ⟨-, hitems, hlines⟩ := hok.front force what prompt hd hwhat
          rw [if_pos rfl]
          exact tracked_sendResolved hbooks hok.counted hitems hlines
      · cases hs

/-! ### Failed sends -/

/-- There is something to send while a send is in flight. -/
def BusyState (s : State ω ε ρ) : Prop := ∀ queue, s.queue = some queue → Busy queue

theorem busy_loopHead (s : State ω ε ρ) (queue : AnnounceQueueState ω ε ρ) (force : Bool) :
    BusyState (loopHead s queue force) := by
  intro q hq
  unfold loopHead at hq
  split_ifs at hq
  obtain rfl := some.inj hq
  exact fun _ _ _ _ hd => by cases hd

theorem busy_schedule (h : BusyState s) : BusyState (scheduleAnnounceDrain s) := by
  unfold scheduleAnnounceDrain
  split
  · exact h
  · split_ifs
    · exact h
    · exact busy_loopHead _ _ _

theorem busy_callSend {queue : AnnounceQueueState ω ε ρ} (hne : queue.items ≠ []) (force : Bool)
    (what : Sending) (item : AnnounceQueueItem ω ε ρ) : BusyState (callSend s queue force what item) := by
  intro q hq
  obtain rfl := some.inj hq
  exact fun _ _ _ _ _ => hne

theorem busy_drainTurn (s : State ω ε ρ) (queue : AnnounceQueueState ω ε ρ) (force : Bool) :
    BusyState (drainTurn s queue force) := by
  have hnext (force : Bool) : BusyState (drainNextQueueItem s queue force) := by
    unfold drainNextQueueItem
    split
    · exact busy_loopHead _ _ _
    · rename_i hitems
      exact busy_callSend (by rw [hitems]; exact cons_ne_nil _ _) _ _ _
  unfold drainTurn drainCollect drainSingle
  dsimp only
  split_ifs
  · exact hnext _
  · split
    · exact busy_loopHead _ _ _
    · rename_i last hlast
      exact busy_callSend (fun hnil => by rw [hnil] at hlast; cases hlast) _ _ _
  · split
    · exact hnext _
    · split
      · exact busy_loopHead _ _ _
      · rename_i hitems
        exact busy_callSend (by rw [hitems]; exact cons_ne_nil _ _) _ _ _

theorem next_busy {s s' : State ω ε ρ} (h : BusyState s)
    (hs : next origins s a = some s') : BusyState s' := by
  cases a with
  | enqueue now item settings =>
    cases hs
    have hqueue : Busy { getAnnounceQueue s settings with
        lastEnqueuedAt := max (getAnnounceQueue s settings).lastEnqueuedAt now } := by
      unfold getAnnounceQueue
      cases hq : s.queue with
      | none => exact fun _ _ _ _ hd => by cases hd
      | some queue => exact h queue hq
    unfold enqueueAnnounce enqueueInto
    dsimp only
    split
    · refine busy_schedule fun q hq => ?_
      obtain rfl := some.inj hq
      exact fun _ _ _ _ _ => by simp
    · dsimp only
      split_ifs
      · exact busy_schedule fun q hq => some.inj hq ▸ hqueue
      · exact fun q hq => some.inj hq ▸ hqueue
  | debounced now =>
    simp only [next] at hs
    split at hs
    · cases hs
    · split at hs
      · obtain ⟨-, ⟨⟩⟩ := ite_none_right_eq_some.mp hs
        exact busy_drainTurn _ _ _
      · cases hs
  | settled now ok =>
    simp only [next] at hs
    split at hs
    · cases hs
    · split at hs
      · cases hs
        cases ok with
        | false => exact busy_loopHead _ _ _
        | true =>
          rw [if_pos rfl]
          unfold sendResolved
          dsimp only
          split
          · exact busy_loopHead _ _ _
          · intro q hq
            obtain rfl := some.inj hq
            exact fun _ _ _ _ hd => by cases hd
      · cases hs

/-- The queue is as before, and the drain waits to send again. -/
def RetriesLater (s s' : State ω ε ρ) : Prop :=
  ∃ queue queue', s.queue = some queue ∧ s' = { s with queue := some queue' } ∧
    queue'.toQueueState = queue.toQueueState ∧
    queue'.drain = some (.debounce false (max 0 queue.debounceMs))

/-- A failed send removes nothing, and the drain waits to send again. -/
theorem retriesLater_of_rejected {s s' : State ω ε ρ} (h : BusyState s) {now : ℚ}
    (hs : next origins s (.settled now false) = some s') : RetriesLater s s' := by
  simp only [next] at hs
  split at hs
  · cases hs
  · rename_i queue hq
    split at hs
    · rename_i force what prompt overtaken hd
      cases hs
      have hne := h queue hq force what prompt overtaken hd
      rw [if_neg Bool.false_ne_true, sendRejected, loopHead, if_neg fun hempty => hne hempty.1]
      exact ⟨queue, _, hq, rfl, rfl, rfl⟩
    · cases hs

/-! ### Lines that are cut -/

/-- `scheduleAnnounceDrain` changes the drain only, when something waits. -/
theorem scheduleAnnounceDrain_of_ne {queue : AnnounceQueueState ω ε ρ}
    (hq : s.queue = some queue) (hne : queue.items ≠ []) :
    ∃ queue', scheduleAnnounceDrain s = { s with queue := some queue' } ∧
      queue'.toQueueState = queue.toQueueState := by
  unfold scheduleAnnounceDrain
  rw [hq]
  dsimp only
  split_ifs
  · exact ⟨queue, by rw [← hq], rfl⟩
  · rw [loopHead, if_neg fun h => hne h.1]
    exact ⟨_, rfl, rfl⟩

theorem cut_scheduleAnnounceDrain (s : State ω ε ρ) : (scheduleAnnounceDrain s).cut = s.cut := by
  unfold scheduleAnnounceDrain loopHead
  split
  · rfl
  · split_ifs <;> rfl

/-- Lines are cut only when more than the cap would wait. -/
theorem cut_joinQueue {queue : AnnounceQueueState ω ε ρ}
    (haligned : s.lineIds.length = queue.summaryLines.length) {item : AnnounceQueueItem ω ε ρ}
    (hcut : (joinQueue s queue (applyQueueDropPolicy queue.toQueueState summarize) item).cut ≠ s.cut) :
    (applyQueueDropPolicy queue.toQueueState summarize).2.1.summaryLines.length =
      (applyQueueDropPolicy queue.toQueueState summarize).2.1.cap.toNat := by
  obtain ⟨k, hlines, hfull⟩ := applyQueueDropPolicy_summaryLines queue.toQueueState (summarize (ω := ω))
  refine hfull (Nat.pos_of_ne_zero fun hk => hcut ?_)
  rw [hk, drop_zero] at hlines
  rw [joinQueue, hlines]
  by_cases hp : queue.dropPolicy = .summarize <;> simp [hp, haligned]

/-- Lines are cut only down to as many as the cap. -/
theorem cut_enqueueInto {queue : AnnounceQueueState ω ε ρ}
    (haligned : s.lineIds.length = queue.summaryLines.length) {item : AnnounceQueueItem ω ε ρ}
    (hcut : (enqueueInto origins s queue item).1.cut ≠ s.cut) :
    ∃ queue', (enqueueInto origins s queue item).1.queue = some queue' ∧
      queue'.summaryLines.length = queue'.cap.toNat := by
  unfold enqueueInto at hcut ⊢
  dsimp only at hcut ⊢
  split at hcut
  · rename_i haccepted
    rw [if_pos haccepted]
    dsimp only at hcut ⊢
    rw [cut_scheduleAnnounceDrain] at hcut
    obtain ⟨queue', hs, hsame⟩ := scheduleAnnounceDrain_of_ne (s := joinQueue s queue
      (applyQueueDropPolicy queue.toQueueState summarize) _) rfl (concat_ne_nil _ _)
    rw [hs]
    refine ⟨queue', rfl, ?_⟩
    rw [hsame]
    exact cut_joinQueue haligned hcut
  · dsimp only at hcut
    split_ifs at hcut
    · rw [cut_scheduleAnnounceDrain] at hcut
      exact absurd rfl hcut
    · exact absurd rfl hcut

/-! ### What is delivered in a run -/

/-- An announcement that is enqueued cuts lines only down to as many as the cap. -/
def CutsToCap (origins : Origins ω) (s : State ω ε ρ) : Prop :=
  ∀ now item settings, (enqueueAnnounce origins s now item settings).1.cut ≠ s.cut →
    ∃ queue, (enqueueAnnounce origins s now item settings).1.queue = some queue ∧
      queue.summaryLines.length = queue.cap.toNat

/-- **Announcements are delivered at least once.** A failed send removes nothing, and the drain
waits to send again. In a run in which no send resolves that was overtaken or sent a summary in
place of an item, every accepted announcement is accounted for. -/
theorem announcements_delivered {s : State ω ε ρ} {as : List (Action ω ε ρ)}
    (h : exec (next origins) .init as = some s) :
    (∀ now s', next origins s (.settled now false) = some s' → RetriesLater s s') ∧
      (Meets (next origins) Kept .init as → Accounted s ∧ CutsToCap origins s) := by
  have hbusy : BusyState s := exec_invariant (fun _ _ _ hi hs => next_busy hi hs) (fun _ hq => by cases hq) h
  refine ⟨fun now s' hs => retriesLater_of_rejected hbusy hs, fun hP => ?_⟩
  have htracked : Tracked s :=
    exec_invariant_of_meets (fun _ _ _ hi hP hs => next_tracked hi hP hs) hP Tracked.init h
  refine ⟨htracked.accounted, fun now item settings hcut => ?_⟩
  exact @cut_enqueueInto _ _ _ _ _ { getAnnounceQueue s settings with
    lastEnqueuedAt := max (getAnnounceQueue s settings).lastEnqueuedAt now }
    (tracked_getAnnounceQueue htracked settings now).1.aligned _ hcut

/-! ### Runs on examples -/

/-- An announcement from nowhere. -/
def announceOf (prompt : String) : AnnounceQueueItem Unit Unit Unit :=
  ⟨prompt, none, none, none, none, ()⟩

/-- Nothing is known of origins. -/
def noOrigins : Origins Unit := ⟨id, fun _ => none⟩

/-- A queue for one announcement, without debounce. -/
def capOne (mode : QueueMode) : AnnounceQueueSettings := ⟨mode, some 0, some (.fin 1), some .summarize⟩

/-- Three announcements are enqueued, and what waits then is sent. -/
def cutRun : List (Action Unit Unit Unit) :=
  [.enqueue 0 (announceOf "first") (capOne .collect), .enqueue 0 (announceOf "second") (capOne .collect),
    .enqueue 0 (announceOf "third\n") (capOne .collect), .debounced 1, .settled 2 true]

/-- **Not every line is delivered, nor every prompt as it is**: the line of the first announcement
is cut, and the collected prompt has the third without the white space at its end. -/
theorem line_cut_prompt_trimmed :
    ∃ s, exec (next noOrigins) .init cutRun = some s ∧ s.queue.isNone = true ∧
      (s.accepted.map (·.prompt)) = ["first", "second", "third\n"] ∧
      s.dropped = [⟨0, some "first", 0⟩, ⟨1, some "second", 0⟩] ∧
      ∀ sent ∈ s.delivered, ¬ Contains sent.2 "first" ∧ ¬ Contains sent.2 "third\n" := by
  have hrun : ((exec (next noOrigins) .init cutRun).map fun s =>
      (s.queue.isNone, s.accepted.map (·.prompt), s.dropped, decide (∀ sent ∈ s.delivered,
        ¬ Contains sent.2 "first" ∧ ¬ Contains sent.2 "third\n"))) =
      some (true, ["first", "second", "third\n"], [⟨0, some "first", 0⟩, ⟨1, some "second", 0⟩],
        true) := by
    decide +kernel
  obtain ⟨s, hs, heq⟩ := map_eq_some_iff.mp hrun
  simp only [Prod.mk.injEq, decide_eq_true_eq] at heq
  exact ⟨s, hs, heq⟩

/-- One announcement is enqueued; its first send fails. -/
def retryRun : List (Action Unit Unit Unit) :=
  [.enqueue 0 (announceOf "first") (capOne .followup), .debounced 1, .settled 2 false,
    .debounced 3000, .settled 3001 true]

/-- The state after that run. -/
def retryState : State Unit Unit Unit := (exec (next noOrigins) .init retryRun).getD .init

theorem announcements_delivered_retry : Accounted retryState := by
  have hsome : (exec (next noOrigins) .init retryRun).isSome = true := by decide +kernel
  have h : exec (next noOrigins) .init retryRun = some retryState := by
    obtain ⟨s, hs⟩ := isSome_iff_exists.mp hsome
    rw [retryState, hs]
    rfl
  exact ((announcements_delivered h).2 (by decide +kernel)).1

end Foxclaw.Agents.AnnounceQueue
