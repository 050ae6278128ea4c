import Foxclaw.Lib.JsNumber
import Foxclaw.Lib.Text
import Mathlib.Data.List.Dedup

/-!
# Queue helpers

This module models the synchronous part of `utils/queue-helpers.ts`, which the followup
queues share: the drop policy of a full queue, the summary of what it dropped, and the
test whether the waiting items are of several channels. It is generic in the items.
-/

namespace Foxclaw.Utils

open Function List

universe u

/-- What a full queue does with a new item. -/
inductive QueueDropPolicy where
  /-- Drop the oldest items, and keep a summary of them. -/
  | summarize
  /-- Drop the oldest items. -/
  | old
  /-- Refuse the new item. -/
  | new
  deriving DecidableEq

/-- The state of a queue. -/
structure QueueState (α : Type u) where
  /-- The waiting items, oldest first. -/
  items : List α
  /-- How many items may wait; no bound if not positive. -/
  cap : JsNumber
  dropPolicy : QueueDropPolicy
  /-- How many items were dropped and not yet reported. -/
  droppedCount : ℕ
  /-- The summaries of the last of them. -/
  summaryLines : List String

variable {α : Type u}

variable (queue : QueueState α)

def clearQueueSummaryState : QueueState α :=
  { queue with droppedCount := 0, summaryLines := [] }

/-- The first code units of a text; where a character is cut, U+FFFD stands for its first half. -/
def takeCodeUnits : ℕ → List Char → List Char
  | _, [] => []
  | 0, _ => []
  | n + 1, c :: cs =>
    if c.toNat < 0x10000 then c :: takeCodeUnits n cs
    else if n = 0 then ['\uFFFD'] else c :: takeCodeUnits (n - 1) cs

def elideQueueText (text : String) (limit : ℕ) : String :=
  if Text.utf16Length text ≤ limit then text
  else String.ofList (Text.trimEnd (takeCodeUnits (limit - 1) text.toList) ++ ['…'])

/-- `text.replace(/\s+/g, " ")`. -/
def collapseSpaces : List Char → List Char
  | [] => []
  | c :: cs =>
      if Text.isSpace c then
        match cs with
        | [] => [' ']
        | d :: _ => if Text.isSpace d then collapseSpaces cs else ' ' :: collapseSpaces cs
      else c :: collapseSpaces cs

def buildQueueSummaryLine (text : String) : String :=
  elideQueueText (String.ofList (Text.trim (collapseSpaces text.toList))) 160

variable (summarize : α → String)

/-- `applyQueueDropPolicy`: may the new item join the queue, the queue after, and the items
that were dropped. -/
def applyQueueDropPolicy : Bool × QueueState α × List α :=
  if (JsNumber.ofNat 0).ge queue.cap || (JsNumber.ofNat queue.items.length).lt queue.cap then
    (true, queue, [])
  else match queue.dropPolicy with
    | .new => (false, queue, [])
    | .old =>
        let dropCount := queue.items.length - queue.cap.toNat + 1
        (true, { queue with items := queue.items.drop dropCount }, queue.items.take dropCount)
    | .summarize =>
        let dropCount := queue.items.length - queue.cap.toNat + 1
        let dropped := queue.items.take dropCount
        let lines := queue.summaryLines ++ dropped.map fun item => buildQueueSummaryLine (summarize item)
        (true,
          { queue with
            items := queue.items.drop dropCount
            droppedCount := queue.droppedCount + dropped.length
            summaryLines := lines.drop (lines.length - queue.cap.toNat) },
          dropped)

/-- `previewQueueSummaryPrompt` and `buildQueueSummaryPrompt`, of messages. -/
def previewQueueSummaryPrompt (noun : String) : Option String :=
  if queue.dropPolicy ≠ .summarize || queue.droppedCount = 0 then none
  else
    let title := s!"[Queue overflow] Dropped {queue.droppedCount} {noun}" ++
      (if queue.droppedCount = 1 then "" else "s") ++ " due to cap."
    let lines := if queue.summaryLines = [] then [title]
      else title :: "Summary:" :: queue.summaryLines.map ("- " ++ ·)
    some ("\n".intercalate lines)

def buildCollectPrompt (title : String) (items : List α) (summary : Option String)
    (renderItem : α → ℕ → String) : String :=
  "\n\n".intercalate (title :: summary.toList ++ items.mapIdx fun idx item => renderItem item idx)

/-- Where an item came from: a key, or several channels in one. -/
structure CrossChannelKey where
  /-- The item is never collected with others. -/
  cross : Bool
  /-- The channel and the target in it. -/
  key : Option String

def hasCrossChannelItems (items : List α) (resolveKey : α → CrossChannelKey) : Bool :=
  let resolved := items.map resolveKey
  let keys := (resolved.filterMap fun r => r.key.filter (· ≠ "")).dedup
  if resolved.any (·.cross) then true
  else if keys.isEmpty then false
  else if resolved.any fun r => (r.key.filter (· ≠ "")).isNone then true
  else 1 < keys.length

variable {items : List α} {resolveKey : α → CrossChannelKey}

theorem mem_keys_iff {k : String} :
    k ∈ ((items.map resolveKey).filterMap fun r => r.key.filter (· ≠ "")).dedup ↔
      ∃ a ∈ items, (resolveKey a).key.filter (· ≠ "") = some k := by
  rw [mem_dedup, filterMap_map, mem_filterMap]
  rfl

/-- The items are of one channel when none is of several, and all have one key or none has one. -/
theorem hasCrossChannelItems_eq_false :
    hasCrossChannelItems items resolveKey = false ↔ (∀ a ∈ items, (resolveKey a).cross = false) ∧
      ∀ a ∈ items, ∀ b ∈ items, (resolveKey a).key.filter (· ≠ "") = (resolveKey b).key.filter (· ≠ "") := by
  have hkeys := fun k => @mem_keys_iff _ items resolveKey k
  have hnodup := nodup_dedup ((items.map resolveKey).filterMap fun r => r.key.filter (· ≠ ""))
  unfold hasCrossChannelItems
  simp only
  generalize ((items.map resolveKey).filterMap fun r => r.key.filter (· ≠ "")).dedup = keys at hkeys hnodup
  rw [List.any_map, List.any_map]
  split
  · rename_i hcross
    obtain ⟨a, ha, hcross⟩ := List.any_eq_true.mp hcross
    exact iff_of_false (by simp) fun h => by simp [h.1 a ha] at hcross
  · rename_i hcross
    have hcross : ∀ a ∈ items, (resolveKey a).cross = false := by simpa using hcross
    cases keys with
    | nil =>
      have hnone (a : α) (ha : a ∈ items) : (resolveKey a).key.filter (· ≠ "") = none := by
        refine Option.eq_none_iff_forall_ne_some.mpr fun k hk => ?_
        exact absurd ((hkeys k).mpr ⟨a, ha, hk⟩) not_mem_nil
      exact iff_of_true rfl ⟨hcross, fun a ha b hb => by rw [hnone a ha, hnone b hb]⟩
    | cons k rest =>
      obtain ⟨c, hc, hck⟩ := (hkeys k).mp mem_cons_self
      rw [isEmpty_cons, if_neg Bool.false_ne_true]
      split
      · rename_i hany
        obtain ⟨a, ha, hnone⟩ := List.any_eq_true.mp hany
        refine iff_of_false (by simp) fun h => ?_
        have hac := h.2 a ha c hc
        rw [hck] at hac
        rw [comp_apply, hac] at hnone
        cases hnone
      · rename_i hany
        rw [decide_eq_false_iff_not, length_cons]
        constructor
        · intro hlength
          obtain rfl : rest = [] := eq_nil_of_length_eq_zero (by omega)
          have hone (a : α) (ha : a ∈ items) : (resolveKey a).key.filter (· ≠ "") = some k := by
            cases hak : (resolveKey a).key.filter (· ≠ "") with
            | none =>
              exact absurd (List.any_eq_true.mpr ⟨a, ha, by rw [comp_apply, hak]; rfl⟩) hany
            | some k' => rw [mem_singleton.mp ((hkeys k').mpr ⟨a, ha, hak⟩)]
          exact ⟨hcross, fun a ha b hb => by rw [hone a ha, hone b hb]⟩
        · rintro ⟨-, hsame⟩ hlength
          obtain ⟨k', hk'⟩ := exists_mem_of_length_pos (show 0 < rest.length by omega)
          obtain ⟨a, ha, hak⟩ := (hkeys k').mp (mem_cons_of_mem _ hk')
          have hkk := hsame a ha c hc
          rw [hak, hck] at hkk
          cases hkk
          exact (nodup_cons.mp hnodup).1 hk'

/-- There is a summary only of items that were dropped to be summarized. -/
theorem summarize_of_preview {queue : QueueState α} {noun prompt : String}
    (h : previewQueueSummaryPrompt queue noun = some prompt) :
    queue.dropPolicy = .summarize ∧ 0 < queue.droppedCount := by
  unfold previewQueueSummaryPrompt at h
  split at h
  · cases h
  · rename_i hn
    simpa [Nat.pos_iff_ne_zero] using hn

/-! ### What the prompts contain -/

/-- The text has the other in it. -/
def Contains (text part : String) : Prop := part.toList <:+: text.toList

instance (text part : String) : Decidable (Contains text part) :=
  inferInstanceAs (Decidable (_ <:+: _))

theorem contains_intercalate {sep part : String} {parts : List String} (h : part ∈ parts) :
    Contains (sep.intercalate parts) part := by
  rw [Contains, String.toList_intercalate]
  induction parts with
  | nil => cases h
  | cons p rest ih =>
    cases rest with
    | nil =>
      obtain rfl := mem_singleton.mp h
      simp
    | cons q rest =>
      rw [map_cons, map_cons, intercalate_cons_cons]
      rcases mem_cons.mp h with rfl | h
      · rw [append_assoc]
        exact (prefix_append _ _).isInfix
      · exact (ih h).trans (suffix_append _ _).isInfix

theorem Contains.trans {text middle part : String} (h : Contains text middle)
    (h' : Contains middle part) : Contains text part := List.IsInfix.trans h' h

/-- The summary has the lines of the dropped items. -/
theorem contains_previewQueueSummaryPrompt {queue : QueueState α} {noun prompt line : String}
    (h : previewQueueSummaryPrompt queue noun = some prompt) (hline : line ∈ queue.summaryLines) :
    Contains prompt line := by
  unfold previewQueueSummaryPrompt at h
  split at h
  · cases h
  · dsimp only at h
    rw [if_neg (ne_nil_of_mem hline)] at h
    obtain rfl := Option.some.inj h
    refine (@contains_intercalate _ ("- " ++ line) _ ?_).trans ?_
    · exact mem_cons_of_mem _ (mem_cons_of_mem _ (List.mem_map_of_mem hline))
    · rw [Contains, String.toList_append]
      exact (suffix_append _ _).isInfix

theorem contains_buildCollectPrompt_summary (title : String) (items : List α) (summary : String)
    (renderItem : α → ℕ → String) :
    Contains (buildCollectPrompt title items (some summary) renderItem) summary :=
  contains_intercalate (by simp)

theorem contains_buildCollectPrompt (title : String) (summary : Option String)
    (renderItem : α → ℕ → String) {item : α} (h : item ∈ items) :
    ∃ idx, Contains (buildCollectPrompt title items summary renderItem) (renderItem item idx) := by
  obtain ⟨idx, hidx, rfl⟩ := getElem_of_mem h
  refine ⟨idx, contains_intercalate (mem_append_right _ ?_)⟩
  exact mem_mapIdx.mpr ⟨idx, hidx, rfl⟩

/-! ### What the drop policy drops -/

/-- The dropped items are the oldest. -/
theorem applyQueueDropPolicy_items :
    (applyQueueDropPolicy queue summarize).2.2 ++ (applyQueueDropPolicy queue summarize).2.1.items =
      queue.items := by
  unfold applyQueueDropPolicy
  split
  · rfl
  · cases queue.dropPolicy with
    | new => rfl
    | old => exact take_append_drop _ _
    | summarize => exact take_append_drop _ _

/-- The dropped items are counted when the policy is to summarize. -/
theorem applyQueueDropPolicy_droppedCount :
    (applyQueueDropPolicy queue summarize).2.1.droppedCount = queue.droppedCount +
      if queue.dropPolicy = .summarize then (applyQueueDropPolicy queue summarize).2.2.length else 0 := by
  unfold applyQueueDropPolicy
  split
  · simp
  · cases hp : queue.dropPolicy <;> simp

/-- Is the queue so full that a new item makes it drop others? -/
def drops : Bool :=
  !((JsNumber.ofNat 0).ge queue.cap || (JsNumber.ofNat queue.items.length).lt queue.cap) &&
    queue.dropPolicy ≠ .new

theorem applyQueueDropPolicy_of_not_drops {queue : QueueState α} (h : drops queue = false)
    (summarize : α → String) : (applyQueueDropPolicy queue summarize).2 = (queue, []) := by
  unfold applyQueueDropPolicy
  unfold drops at h
  split
  · rfl
  · rename_i hc
    simp only [hc, Bool.not_false, Bool.true_and, decide_eq_false_iff_not, not_not] at h
    rw [h]

/-- The lines that wait after a new item: those before and those of the dropped items, without the
oldest. -/
theorem applyQueueDropPolicy_summaryLines :
    ∃ k, (applyQueueDropPolicy queue summarize).2.1.summaryLines =
        (queue.summaryLines ++ if queue.dropPolicy = .summarize then
          (applyQueueDropPolicy queue summarize).2.2.map fun item =>
            buildQueueSummaryLine (summarize item) else []).drop k ∧
      (0 < k → (applyQueueDropPolicy queue summarize).2.1.summaryLines.length =
        (applyQueueDropPolicy queue summarize).2.1.cap.toNat) := by
  unfold applyQueueDropPolicy
  split
  · exact ⟨0, by simp⟩
  · cases hp : queue.dropPolicy with
    | new => exact ⟨0, by simp⟩
    | old => exact ⟨0, by simp⟩
    | summarize =>
      refine ⟨_, by simp only [if_true]; rfl, fun hk => ?_⟩
      simp only [length_drop] at hk ⊢
      omega

/-- A queue that accepts an item does not change but for the items, the count and the lines. -/
theorem applyQueueDropPolicy_of_nil {queue : QueueState α} {summarize : α → String}
    (h : (applyQueueDropPolicy queue summarize).2.2 = []) (hpos : queue.items ≠ []) :
    (applyQueueDropPolicy queue summarize).2.1 = queue := by
  have htake (n : ℕ) : queue.items.take (n + 1) ≠ [] := by
    cases hi : queue.items with
    | nil => exact absurd hi hpos
    | cons item rest => simp
  unfold applyQueueDropPolicy at h ⊢
  split
  · rfl
  · rename_i hc
    rw [if_neg hc] at h
    cases hp : queue.dropPolicy with
    | new => rfl
    | old => rw [hp] at h; exact absurd h (htake _)
    | summarize => rw [hp] at h; exact absurd h (htake _)

end Foxclaw.Utils
