import Foxclaw.AutoReply.FollowupQueue

/-!
# The followup queue: where a collected batch goes

In the mode `collect` the drain first checks that the waiting items are of one channel
(`hasCrossChannelItems`), then awaits `drainCollectQueueStep`, which does nothing then, and
only then takes the items (`queue.items.slice()`). `drainTurn` does this at once. Here the await
is a wait of its own (`Collecting.next`), in which messages may arrive.

## What is proved

* `same_destination_of_check` — items that pass the check have one destination, if no two of
  different destinations have one key.
* `batch_oneDestination` — in a run in which what arrives in that wait has the destination of what
  waits, and no message has the key of a waiting one of another destination, every collected batch
  has one destination, and its run is routed there.
-/

namespace Foxclaw.AutoReply.FollowupQueue

open Bool List Option Foxclaw.Runs Foxclaw.Utils

variable {ρ : Type}

/-! ### Destinations -/

/-- Where a reply goes: the parts of a routing that are there. -/
structure Destination where
  channel : Option String
  target : Option String
  accountId : Option String
  threadId : Option String
  deriving DecidableEq

/-- The destination of a routing; it has no part when the item lacks routing. -/
def destination (routing : Routing) : Destination where
  channel := nonEmpty routing.originatingChannel
  target := nonEmpty routing.originatingTo
  accountId := nonEmpty routing.originatingAccountId
  threadId := threadKey routing.originatingThreadId

/-- Items that were merged into one prompt, and the run. -/
structure Batch (ρ : Type) where
  items : List (Item ρ)
  run : FollowupRun ρ

/-- The items of a batch have one destination (or none has any), and the run has it. -/
structure OneDestination (batch : Batch ρ) : Prop where
  /-- No two destinations. -/
  same : ∀ a ∈ batch.items, ∀ b ∈ batch.items,
    destination a.message.routing = destination b.message.routing
  routed : ∀ a ∈ batch.items, destination batch.run.routing = destination a.message.routing

/-! ### The drain that collects -/

/-- The run that the waiting items are merged into. -/
def batchRun (queue : FollowupQueueState ρ) : Option (FollowupRun ρ) :=
  ((queue.items.getLast?.map (·.message.run)).or queue.lastRun).map fun run =>
    ⟨buildCollectPrompt "[Queued messages while agent was busy]" queue.items
        (previewQueueSummaryPrompt queue.toQueueState "message")
        fun item idx =>
          Text.trimString ("---\nQueued #" ++ toString (idx + 1) ++ "\n" ++ item.message.prompt),
      none, none, resolveOriginRoutingMetadata queue.items, run⟩

/-- The rest of the turn, after the await: the items that wait now are merged and passed. -/
def collectBatch (s : State ρ) (queue : FollowupQueueState ρ) : State ρ :=
  match batchRun queue with
  | none => finishDrain s queue
  | some message =>
      callRun s queue message false (queue.items.map (·.id)) queue.items.length
        (previewQueueSummaryPrompt queue.toQueueState "message").isSome

/-- Is the drain at the end of the debounce, in the mode `collect`, with items that are not to be
passed one by one? -/
def passesCheck (isRoutableChannel : String → Bool) (s : State ρ) : Bool :=
  match s.queue with
  | some queue => queue.drain = some (.debounce false) && queue.mode = .collect &&
      !hasCrossChannelItems queue.items (resolveCrossChannelKey isRoutableChannel)
  | none => false

/-- The queue, and how far the drain is in a turn. -/
structure Collecting (ρ : Type) extends State ρ where
  /-- The items have passed the check, and its result is awaited. -/
  checked : Bool
  batches : List (Batch ρ)

/-- The state before the first call. -/
def Collecting.init : Collecting ρ := ⟨.init, false, []⟩

/-- A choice of the environment. -/
inductive CollectAction (ρ : Type) where
  /-- A step of the queue; the end of the debounce comes to the check. -/
  | queue (a : Action ρ)
  /-- The result of the check is there. -/
  | collect

/-- One step. -/
def Collecting.next (isRoutableChannel : String → Bool) (s : Collecting ρ) :
    CollectAction ρ → Option (Collecting ρ)
  | .queue .debounced =>
      if s.checked then none
      else if passesCheck isRoutableChannel s.toState then some { s with checked := true }
      else (FollowupQueue.next isRoutableChannel s.toState .debounced).map fun q =>
        { s with toState := q }
  | .queue a => (FollowupQueue.next isRoutableChannel s.toState a).map fun q => { s with toState := q }
  | .collect =>
    if s.checked then s.queue.map fun queue =>
      { toState := collectBatch s.toState queue
        checked := false
        batches := s.batches ++ (batchRun queue).toList.map (⟨queue.items, ·⟩) }
    else none

/-! ### Keys -/

variable {isRoutableChannel : String → Bool}

/-- The items have a key, and it is the same. -/
def SameKey (isRoutableChannel : String → Bool) (a b : Item ρ) : Prop :=
  (resolveCrossChannelKey isRoutableChannel a).key ≠ none ∧
    (resolveCrossChannelKey isRoutableChannel a).key = (resolveCrossChannelKey isRoutableChannel b).key

instance (a b : Item ρ) : Decidable (SameKey isRoutableChannel a b) :=
  inferInstanceAs (Decidable (_ ∧ _))

/-- The key of a routing that has one. -/
def routingKey (channel target : String) (routing : Routing) : String :=
  "|".intercalate [channel, target, routing.originatingAccountId.getD "",
    (threadKey routing.originatingThreadId).getD ""]

theorem toList_routingKey (channel target : String) (routing : Routing) :
    (routingKey channel target routing).toList = ((channel.toList ++ '|' :: target.toList) ++
      '|' :: (routing.originatingAccountId.getD "").toList) ++
      '|' :: ((threadKey routing.originatingThreadId).getD "").toList := by
  rw [routingKey, String.toList_intercalate]
  simp [List.intercalate]

variable (isRoutableChannel) in
/-- An item lacks routing, or it has a key, or it is never collected with others. -/
theorem resolveCrossChannelKey_cases (item : Item ρ) :
    (resolveCrossChannelKey isRoutableChannel item = ⟨false, none⟩ ∧
      destination item.message.routing = ⟨none, none, none, none⟩) ∨
    (∃ channel target, item.message.routing.originatingChannel = some channel ∧
      item.message.routing.originatingTo = some target ∧
      resolveCrossChannelKey isRoutableChannel item =
        ⟨false, some (routingKey channel target item.message.routing)⟩) ∨
    resolveCrossChannelKey isRoutableChannel item = ⟨true, none⟩ := by
  unfold resolveCrossChannelKey
  simp only
  split
  · rename_i h
    simp only [and_eq_true, isNone_iff_eq_none] at h
    obtain ⟨⟨⟨hchannel, htarget⟩, haccount⟩, hthread⟩ := h
    exact .inl ⟨rfl, by rw [destination, hchannel, htarget, haccount, hthread]⟩
  · split
    · rename_i channel target hchannel htarget
      refine .inr (.inl ⟨channel, target, ?_, ?_, rfl⟩)
      · exact (filter_eq_some_iff.mp hchannel).1
      · exact (filter_eq_some_iff.mp htarget).1
    · exact .inr (.inr rfl)

theorem routingKey_ne (channel target : String) (routing : Routing) :
    routingKey channel target routing ≠ "" := by
  intro h
  have hlist := congrArg String.toList h
  rw [toList_routingKey] at hlist
  simp at hlist

/-- An item without a key that may be collected lacks routing. -/
theorem destination_of_unkeyed {item : Item ρ}
    (hcross : (resolveCrossChannelKey isRoutableChannel item).cross = false)
    (hkey : (resolveCrossChannelKey isRoutableChannel item).key = none) :
    destination item.message.routing = ⟨none, none, none, none⟩ := by
  rcases resolveCrossChannelKey_cases isRoutableChannel item with
    ⟨-, hdest⟩ | ⟨channel, target, -, -, hitem⟩ | hitem
  · exact hdest
  · rw [hitem] at hkey
    cases hkey
  · rw [hitem] at hcross
    cases hcross

/-- No key is empty. -/
theorem filter_key (item : Item ρ) :
    (resolveCrossChannelKey isRoutableChannel item).key.filter (· ≠ "") =
      (resolveCrossChannelKey isRoutableChannel item).key := by
  rcases resolveCrossChannelKey_cases isRoutableChannel item with
    ⟨hitem, -⟩ | ⟨channel, target, -, -, hitem⟩ | hitem
  · rw [hitem, filter_none]
  · rw [hitem, filter_some, if_pos (by simp [routingKey_ne])]
  · rw [hitem, filter_none]

/-- Items that pass the check have one destination, if keys tell destinations apart. -/
theorem same_destination_of_check {items : List (Item ρ)}
    (hcheck : hasCrossChannelItems items (resolveCrossChannelKey isRoutableChannel) = false)
    (hapart : ∀ a ∈ items, ∀ b ∈ items, SameKey isRoutableChannel a b →
      destination a.message.routing = destination b.message.routing) :
    ∀ a ∈ items, ∀ b ∈ items, destination a.message.routing = destination b.message.routing := by
  obtain ⟨hcross, hkeys⟩ := hasCrossChannelItems_eq_false.mp hcheck
  intro a ha b hb
  have hkey := hkeys a ha b hb
  rw [filter_key, filter_key] at hkey
  by_cases hnone : (resolveCrossChannelKey isRoutableChannel a).key = none
  · rw [destination_of_unkeyed (hcross a ha) hnone, destination_of_unkeyed (hcross b hb) (hkey ▸ hnone)]
  · exact hapart a ha b hb ⟨hnone, hkey⟩

/- Two destinations that have one key. -/
example :
    let a : Routing := ⟨some "slack", some "C1|work", some "main", none⟩
    let b : Routing := ⟨some "slack", some "C1", some "work|main", none⟩
    SameKey (fun _ => true) (⟨0, ⟨"a", none, none, a, ()⟩⟩ : Item Unit)
        ⟨1, ⟨"b", none, none, b, ()⟩⟩ ∧
      destination a ≠ destination b := by
  decide +kernel

/-! ### The routing of a batch -/

/-- The first value of a part is that of all items, if they have one in common. -/
theorem apply_findSome? {α β γ : Type} {f : α → Option β} {g : Option β → Option γ} {c : Option γ}
    {items : List α} (h : ∀ a ∈ items, g (f a) = c) (hne : items ≠ []) : g (items.findSome? f) = c := by
  induction items with
  | nil => exact absurd rfl hne
  | cons a rest ih =>
    have ha := h a mem_cons_self
    rw [findSome?_cons]
    cases hf : f a with
    | some b =>
      rw [hf] at ha
      exact ha
    | none =>
      rw [hf] at ha
      by_cases hrest : rest = []
      · rw [hrest]
        exact ha
      · exact ih (fun b hb => h b (mem_cons_of_mem _ hb)) hrest

theorem nonEmpty_nonEmpty (x : Option String) : nonEmpty (nonEmpty x) = nonEmpty x := by
  simp [nonEmpty, Option.filter_filter]

theorem destination_resolveOriginRoutingMetadata {items : List (Item ρ)} {d : Destination}
    (h : ∀ a ∈ items, destination a.message.routing = d) (hne : items ≠ []) :
    destination (resolveOriginRoutingMetadata items) = d := by
  have hthread (x : Option ThreadId) :
      threadKey (x.filter fun id => (threadKey (some id)).isSome) = threadKey x := by
    cases x with
    | none => rfl
    | some id =>
      rw [filter_some]
      split
      · rfl
      · rename_i hid
        exact (not_isSome_iff_eq_none.mp hid).symm
  have hpart {f : Routing → Option String} {c : Option String}
      (hf : ∀ a ∈ items, nonEmpty (f a.message.routing) = c) :
      nonEmpty (items.findSome? fun item => nonEmpty (f item.message.routing)) = c :=
    apply_findSome? (fun a ha => by rw [nonEmpty_nonEmpty, hf a ha]) hne
  have hchannel := hpart fun a ha => congrArg Destination.channel (h a ha)
  have htarget := hpart fun a ha => congrArg Destination.target (h a ha)
  have haccount := hpart fun a ha => congrArg Destination.accountId (h a ha)
  have hthreads : threadKey (items.findSome? fun item =>
      item.message.routing.originatingThreadId.filter fun id => (threadKey (some id)).isSome) =
        d.threadId :=
    apply_findSome? (fun a ha => by rw [hthread]; exact congrArg Destination.threadId (h a ha)) hne
  show Destination.mk _ _ _ _ = d
  rw [Destination.mk.injEq]
  exact ⟨hchannel, htarget, haccount, hthreads⟩

/-- Items of one destination that are merged have a run that goes there. -/
theorem oneDestination_batch {queue : FollowupQueueState ρ} {run : FollowupRun ρ}
    (h : ∀ a ∈ queue.items, ∀ b ∈ queue.items, destination a.message.routing = destination b.message.routing)
    (hrun : batchRun queue = some run) : OneDestination ⟨queue.items, run⟩ := by
  obtain ⟨settings, -, rfl⟩ := map_eq_some_iff.mp hrun
  refine ⟨h, fun a ha => ?_⟩
  exact destination_resolveOriginRoutingMetadata (fun b hb => h b hb a ha) (ne_nil_of_mem ha)

/-! ### What waits after a step -/

/-- The items that wait. -/
def State.items (s : State ρ) : List (Item ρ) := s.queue.elim [] (·.items)

variable (s : State ρ)

theorem items_settleDrain (queue : FollowupQueueState ρ) (force : Bool) :
    (settleDrain s queue force).items = queue.items := by
  unfold settleDrain
  split
  · rename_i h
    exact h.1.symm
  · rfl

theorem items_drainNext (queue : FollowupQueueState ρ) (force : Bool) :
    (drainNext s queue force).items = queue.items := by
  unfold drainNext
  split
  · exact items_settleDrain s queue false
  · rfl

/-- A turn of the drain removes nothing; the items leave when the run resolves. -/
theorem items_drainTurn (queue : FollowupQueueState ρ) (force : Bool) :
    (drainTurn isRoutableChannel s queue force).items = queue.items := by
  unfold drainTurn
  split
  · unfold drainCollect
    simp only
    split
    · exact items_drainNext s queue _
    · split
      · exact items_settleDrain s queue false
      · rfl
  · unfold drainSingle
    split
    · split
      · rfl
      · exact items_settleDrain s queue false
    · exact items_drainNext s queue force

theorem items_collectBatch (queue : FollowupQueueState ρ) : (collectBatch s queue).items = queue.items := by
  unfold collectBatch
  split
  · exact items_settleDrain s queue false
  · rfl

theorem items_scheduleFollowupDrain : (scheduleFollowupDrain s).items = s.items := by
  unfold scheduleFollowupDrain
  split
  · rename_i queue hq
    split
    · rfl
    · rw [loopHead, items_settleDrain, State.items, hq, elim_some]
  · rfl

/-- The items of a queue with these settings that the drop policy leaves when a message arrives. -/
def keptItems (settings : QueueSettings) : List (Item ρ) :=
  (applyQueueDropPolicy (getFollowupQueue s settings).toQueueState summarize).2.1.items

/-- The message is neither a duplicate nor refused. -/
def Accepts (run : FollowupRun ρ) (settings : QueueSettings) (dedupeMode : QueueDedupeMode)
    (recent : Bool) : Prop :=
  isDuplicate run (getFollowupQueue s settings).items dedupeMode recent = false ∧
    (applyQueueDropPolicy (getFollowupQueue s settings).toQueueState summarize).1 = true

theorem items_getFollowupQueue (settings : QueueSettings) :
    (getFollowupQueue s settings).items = s.items := by
  unfold State.items getFollowupQueue
  cases s.queue with
  | none => rfl
  | some queue => rfl

instance (s : State ρ) (run : FollowupRun ρ) (settings : QueueSettings) (dedupeMode : QueueDedupeMode)
    (recent : Bool) : Decidable (Accepts s run settings dedupeMode recent) :=
  inferInstanceAs (Decidable (_ ∧ _))

theorem keptItems_subset (settings : QueueSettings) : keptItems s settings ⊆ s.items := by
  intro item hitem
  rw [← items_getFollowupQueue s settings,
    ← applyQueueDropPolicy_items (getFollowupQueue s settings).toQueueState summarize]
  exact mem_append_right _ hitem

/-- A message that arrives joins the items that are kept, or nothing changes. -/
theorem items_enqueueFollowupRun (run : FollowupRun ρ) (settings : QueueSettings)
    (dedupeMode : QueueDedupeMode) (recent : Bool) :
    (Accepts s run settings dedupeMode recent ∧
      (enqueueFollowupRun s run settings dedupeMode recent).1.items =
        keptItems s settings ++ [⟨s.nextId, run⟩]) ∨
    (¬ Accepts s run settings dedupeMode recent ∧
      (enqueueFollowupRun s run settings dedupeMode recent).1.items = s.items) := by
  unfold enqueueFollowupRun
  simp only
  split
  · rename_i hdup
    exact .inr ⟨fun h => (by rw [h.1] at hdup; cases hdup), items_getFollowupQueue s settings⟩
  · rename_i hdup
    rw [not_eq_true] at hdup
    unfold joinQueue
    simp only
    by_cases hroom : (applyQueueDropPolicy (getFollowupQueue s settings).toQueueState summarize).1 = true
    · refine .inl ⟨⟨hdup, hroom⟩, ?_⟩
      rw [if_pos hroom]
      simp only
      split
      · rw [items_scheduleFollowupDrain]
        rfl
      · rfl
    · refine .inr ⟨fun h => hroom h.2, ?_⟩
      rw [if_neg hroom]
      exact items_getFollowupQueue s settings

/-! ### The invariant -/

/-- A message that is accepted has the destination of the items it joins if their check has passed,
and of those among them that have its key. -/
def ArrivesAlike (isRoutableChannel : String → Bool) (s : Collecting ρ) : CollectAction ρ → Prop
  | .queue (.enqueue run settings dedupeMode recent) =>
      Accepts s.toState run settings dedupeMode recent → ∀ item ∈ keptItems s.toState settings,
        s.checked = true ∨ SameKey isRoutableChannel item ⟨s.nextId, run⟩ →
          destination item.message.routing = destination run.routing
  | _ => True

instance (s : Collecting ρ) : ∀ a, Decidable (ArrivesAlike isRoutableChannel s a)
  | .queue (.enqueue _ _ _ _) => inferInstanceAs (Decidable (_ → _))
  | .queue .schedule => isTrue trivial
  | .queue .debounced => isTrue trivial
  | .queue (.settled _) => isTrue trivial
  | .collect => isTrue trivial

/-- The invariant of these runs. -/
structure Unmixed (isRoutableChannel : String → Bool) (s : Collecting ρ) : Prop where
  /-- The batches go to one destination each. -/
  batches : ∀ batch ∈ s.batches, OneDestination batch
  /-- No two waiting items of different destinations have one key. -/
  apart : ∀ a ∈ s.items, ∀ b ∈ s.items, SameKey isRoutableChannel a b →
    destination a.message.routing = destination b.message.routing
  /-- What waits has one destination once it has passed the check. -/
  checked : s.checked = true → ∀ a ∈ s.items, ∀ b ∈ s.items,
    destination a.message.routing = destination b.message.routing

theorem Unmixed.init : Unmixed isRoutableChannel (Collecting.init : Collecting ρ) :=
  ⟨fun _ h => absurd h not_mem_nil, fun _ h => absurd h not_mem_nil, fun h => by cases h⟩

theorem Unmixed.of_subset {s : Collecting ρ} (h : Unmixed isRoutableChannel s) {q : State ρ}
    (hq : q.items ⊆ s.items) : Unmixed isRoutableChannel { s with toState := q } :=
  ⟨h.batches, fun a ha b hb => h.apart a (hq ha) b (hq hb),
    fun hc a ha b hb => h.checked hc a (hq ha) b (hq hb)⟩

theorem SameKey.symm {a b : Item ρ} (h : SameKey isRoutableChannel a b) :
    SameKey isRoutableChannel b a := ⟨h.2 ▸ h.1, h.2.symm⟩

/-- What holds of the pairs of a list, and of them with one more. -/
theorem forall_pairs_concat {α : Type} {R : α → α → Prop} {l : List α} {x : α}
    (hsymm : ∀ a b, R a b → R b a) (hl : ∀ a ∈ l, ∀ b ∈ l, R a b) (hx : ∀ a ∈ l, R a x)
    (hself : R x x) : ∀ a ∈ l ++ [x], ∀ b ∈ l ++ [x], R a b := by
  intro a ha b hb
  rcases mem_append.mp ha with ha | ha
  · rcases mem_append.mp hb with hb | hb
    · exact hl a ha b hb
    · rw [mem_singleton.mp hb]
      exact hx a ha
  · rw [mem_singleton.mp ha]
    rcases mem_append.mp hb with hb | hb
    · exact hsymm b x (hx b hb)
    · rw [mem_singleton.mp hb]
      exact hself

theorem Unmixed.enqueue {s : Collecting ρ} (h : Unmixed isRoutableChannel s) {run : FollowupRun ρ}
    {settings : QueueSettings} {dedupeMode : QueueDedupeMode} {recent : Bool}
    (hk : ArrivesAlike isRoutableChannel s (.queue (.enqueue run settings dedupeMode recent))) :
    Unmixed isRoutableChannel
      { s with toState := (enqueueFollowupRun s.toState run settings dedupeMode recent).1 } := by
  rcases items_enqueueFollowupRun s.toState run settings dedupeMode recent with
    ⟨haccepts, hitems⟩ | ⟨-, hitems⟩
  · have hold := keptItems_subset s.toState settings
    have hnew := hk haccepts
    refine ⟨h.batches, ?_, fun hc => ?_⟩
    · rw [hitems]
      refine forall_pairs_concat (fun a b hab hkey => (hab hkey.symm).symm) ?_ ?_ fun _ => rfl
      · exact fun a ha b hb => h.apart a (hold ha) b (hold hb)
      · exact fun a ha hkey => hnew a ha (.inr hkey)
    · rw [hitems]
      refine forall_pairs_concat (fun _ _ => Eq.symm) ?_ ?_ rfl
      · exact fun a ha b hb => h.checked hc a (hold ha) b (hold hb)
      · exact fun a ha => hnew a ha (.inl hc)
  · exact h.of_subset (by rw [hitems]; exact List.Subset.refl _)

variable {s s' : Collecting ρ}

/-- The end of the debounce: a turn, or the check. -/
theorem Unmixed.debounced (h : Unmixed isRoutableChannel s)
    (hs : Collecting.next isRoutableChannel s (.queue .debounced) = some s') :
    Unmixed isRoutableChannel s' := by
  simp only [Collecting.next] at hs
  split at hs
  · cases hs
  · split at hs
    · rename_i hcheck
      cases hs
      refine ⟨h.batches, h.apart, fun _ => ?_⟩
      unfold passesCheck at hcheck
      split at hcheck
      · rename_i queue hq
        simp only [and_eq_true, not_eq_true'] at hcheck
        have hitems : s.items = queue.items := by rw [State.items, hq, elim_some]
        have hapart := h.apart
        show ∀ a ∈ s.items, ∀ b ∈ s.items, _
        rw [hitems] at hapart ⊢
        exact same_destination_of_check hcheck.2 hapart
      · cases hcheck
    · obtain ⟨q, hq, rfl⟩ := map_eq_some_iff.mp hs
      refine h.of_subset ?_
      simp only [FollowupQueue.next] at hq
      split at hq
      · rename_i queue hqueue
        split at hq
        · cases hq
          rw [items_drainTurn, State.items, hqueue, elim_some]
          exact List.Subset.refl _
        · cases hq
      · cases hq

theorem Unmixed.settled (h : Unmixed isRoutableChannel s) {ok : Bool}
    (hs : Collecting.next isRoutableChannel s (.queue (.settled ok)) = some s') :
    Unmixed isRoutableChannel s' := by
  obtain ⟨q, hq, rfl⟩ := map_eq_some_iff.mp hs
  refine h.of_subset ?_
  simp only [FollowupQueue.next] at hq
  split at hq
  · rename_i queue hqueue
    have hitems : s.items = queue.items := by rw [State.items, hqueue, elim_some]
    rw [hitems]
    split at hq
    · rename_i force passing count clear hdrain
      cases hq
      cases ok with
      | true =>
        simp only [if_true, runResolved, loopHead, items_settleDrain]
        have hdrop := drop_subset count queue.items
        cases clear with
        | true => exact hdrop
        | false => exact hdrop
      | false =>
        simp only [false_eq_true, if_false, runRejected, finishDrain, items_settleDrain]
        exact List.Subset.refl _
    · cases hq
  · cases hq

theorem Unmixed.collect (h : Unmixed isRoutableChannel s)
    (hs : Collecting.next isRoutableChannel s .collect = some s') : Unmixed isRoutableChannel s' := by
  simp only [Collecting.next] at hs
  split at hs
  · rename_i hchecked
    obtain ⟨queue, hq, rfl⟩ := map_eq_some_iff.mp hs
    have hitems : s.items = queue.items := by rw [State.items, hq, elim_some]
    have hsame := h.checked hchecked
    have hapart := h.apart
    rw [hitems] at hsame hapart
    refine ⟨fun batch hbatch => ?_, ?_, fun hc => by cases hc⟩
    · rcases mem_append.mp hbatch with hbatch | hbatch
      · exact h.batches batch hbatch
      · obtain ⟨run, hrun, rfl⟩ := List.mem_map.mp hbatch
        exact oneDestination_batch hsame (mem_toList.mp hrun)
    · rw [items_collectBatch]
      exact hapart
  · cases hs

/-! ### Every step and every run -/

theorem Unmixed.next {a : CollectAction ρ} (h : Unmixed isRoutableChannel s)
    (hk : ArrivesAlike isRoutableChannel s a) (hs : Collecting.next isRoutableChannel s a = some s') :
    Unmixed isRoutableChannel s' := by
  cases a with
  | collect => exact h.collect hs
  | queue a =>
    cases a with
    | debounced => exact h.debounced hs
    | settled ok => exact h.settled hs
    | schedule =>
      cases hs
      exact h.of_subset (by rw [items_scheduleFollowupDrain]; exact List.Subset.refl _)
    | enqueue run settings dedupeMode recent =>
      cases hs
      exact h.enqueue hk

/-- In a run in which what arrives while the check is awaited has the destination of what waits, and no
message has the key of a waiting one of another destination, every collected batch has one destination,
and its run is routed there. -/
theorem batch_oneDestination {as : List (CollectAction ρ)}
    (hk : Meets (Collecting.next isRoutableChannel) (ArrivesAlike isRoutableChannel) .init as) :
    Always (Collecting.next isRoutableChannel) (fun s => ∀ batch ∈ s.batches, OneDestination batch)
      .init as := by
  have hunmixed : Always (Collecting.next isRoutableChannel) (Unmixed isRoutableChannel) .init as :=
    always_of_meets (fun _ _ _ h hk hs => h.next hk hs) hk Unmixed.init
  exact fun bs hbs t ht => (hunmixed bs hbs t ht).batches

/-- A message to this target. -/
def messageTo (channel target prompt : String) : FollowupRun Unit :=
  ⟨prompt, none, none, ⟨some channel, some target, none, none⟩, ()⟩

/-- It arrives at a queue that collects. -/
def arrivesTo (channel target prompt : String) : CollectAction Unit :=
  .queue (.enqueue (messageTo channel target prompt) ⟨.collect, none, none⟩ .none false)

/-- Messages to one target, one of which arrives while the check is awaited. -/
theorem batch_oneDestination_slack : Always (Collecting.next fun _ => true)
    (fun s => ∀ batch ∈ s.batches, OneDestination batch) (Collecting.init : Collecting Unit)
    [arrivesTo "slack" "C1" "a", .queue .schedule, .queue .debounced, arrivesTo "slack" "C1" "b",
      .collect] := by
  exact batch_oneDestination (by decide +kernel)

/-- A message to another target that arrives while the check is awaited: one prompt has both, and the
reply goes to the first. -/
theorem batch_mixed : ∃ s batch, exec (Collecting.next fun _ => true) (Collecting.init : Collecting Unit)
    [arrivesTo "slack" "C1" "a", .queue .schedule, .queue .debounced, arrivesTo "telegram" "7" "b",
      .collect] = some s ∧ batch ∈ s.batches ∧
    batch.items.map (fun item => (destination item.message.routing).channel) =
      [some "slack", some "telegram"] ∧
    destination batch.run.routing = ⟨some "slack", some "C1", none, none⟩ ∧
    ¬ OneDestination batch := by
  refine ⟨_, _, rfl, mem_singleton_self _, by decide +kernel, by decide +kernel, fun h => ?_⟩
  have hsame := h.same _ mem_cons_self _ (mem_cons_of_mem _ mem_cons_self)
  exact absurd hsame (by decide +kernel)

end Foxclaw.AutoReply.FollowupQueue
