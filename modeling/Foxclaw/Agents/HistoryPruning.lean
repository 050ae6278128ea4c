import Foxclaw.Agents.TranscriptRepairStable
import Foxclaw.Lib.JsNumber
import Foxclaw.Lib.PermUpTo
import Mathlib.Algebra.Order.Group.Multiset
import Mathlib.Data.List.Flatten

/-!
# Pruning of the history

This module models `splitMessagesByTokenShare` and `pruneHistoryForContextShare` of
`agents/compaction.ts`: as long as a history is over its share of the context, its first chunk is dropped
and the rest is repaired.

## The model

The token estimator is any function of a message, its numbers are exact, and each repair has a time of its
own. The loop has fuel, and `pruneLoop_of_le` says when it is enough.

## What is proved

* `pruneRound_some` — what one round does.
* `pruneLoop_terminates` — after the first round each round drops a message that is no tool result.
* `repair_accounts` — what becomes of each message in a repair.
* `pruneHistoryForContextShare_accounts` — the whole pruning: it ends, in its budget or with one chunk, and
  with every message accounted for.
-/

namespace Foxclaw.Agents.Compaction

open List Option

/-! ### Estimates -/

/-- `stripToolResultDetails`, for one message. -/
def stripDetails (msg : AgentMessage) : AgentMessage :=
  if isToolResult msg && ((fieldsOf msg).lookup "details").isSome then
    .obj (Json.Fields.erase (fieldsOf msg) "details")
  else msg

variable (estimateTokens : AgentMessage → ℚ)

def estimateMessagesTokens (messages : List AgentMessage) : ℚ :=
  (messages.map fun msg => estimateTokens (stripDetails msg)).sum

/-! ### Chunks -/

def normalizeParts (parts : JsNumber) (messageCount : ℕ) : ℕ :=
  match parts with
  | .fin n => if n ≤ 1 then 1 else min (max 1 ⌊n⌋.toNat) (max 1 messageCount)
  | _ => 1

/-- The variables of the loop of `splitMessagesByTokenShare`. -/
structure Split where
  chunks : List (List AgentMessage)
  current : List AgentMessage
  currentTokens : ℚ

/-- One round of the loop. -/
def splitStep (normalizedParts : ℕ) (targetTokens : ℚ) (s : Split) (message : AgentMessage) : Split :=
  let messageTokens := estimateMessagesTokens estimateTokens [message]
  let s :=
    if s.chunks.length < normalizedParts - 1 ∧ s.current ≠ [] ∧
        targetTokens < s.currentTokens + messageTokens then
      ⟨s.chunks ++ [s.current], [], 0⟩
    else s
  ⟨s.chunks, s.current ++ [message], s.currentTokens + messageTokens⟩

def splitMessagesByTokenShare (messages : List AgentMessage) (parts : JsNumber) : List (List AgentMessage) :=
  if messages = [] then []
  else
    let normalizedParts := normalizeParts parts messages.length
    if normalizedParts ≤ 1 then [messages]
    else
      let targetTokens := estimateMessagesTokens estimateTokens messages / normalizedParts
      let s := messages.foldl (splitStep estimateTokens normalizedParts targetTokens) ⟨[], [], 0⟩
      if s.current = [] then s.chunks else s.chunks ++ [s.current]

/-! ### The loop -/

/-- The variables of `pruneHistoryForContextShare`. -/
structure Pruned where
  keptMessages : List AgentMessage
  allDroppedMessages : List AgentMessage
  droppedChunks : ℕ
  droppedMessages : ℕ
  droppedTokens : ℚ

/-- Their values before the loop. -/
def Pruned.init (messages : List AgentMessage) : Pruned := ⟨messages, [], 0, 0, 0⟩

variable (now : ℕ → ℚ)

/-- The body of the loop: the next state, unless the loop ends. -/
def pruneRound (budgetTokens : ℤ) (parts : ℕ) (s : Pruned) : Option Pruned :=
  if s.keptMessages ≠ [] ∧ (budgetTokens : ℚ) < estimateMessagesTokens estimateTokens s.keptMessages then
    match splitMessagesByTokenShare estimateTokens s.keptMessages (.ofNat parts) with
    | dropped :: next :: rest =>
      let repairReport := repairToolUseResultPairing (now s.droppedChunks) (next :: rest).flatten
      some
        { keptMessages := repairReport.messages
          allDroppedMessages := s.allDroppedMessages ++ dropped
          droppedChunks := s.droppedChunks + 1
          droppedMessages := s.droppedMessages + (dropped.length + repairReport.droppedOrphanCount)
          droppedTokens := s.droppedTokens + estimateMessagesTokens estimateTokens dropped }
    | _ => none
  else none

/-- The loop, if the fuel is enough. -/
def pruneLoop (budgetTokens : ℤ) (parts : ℕ) : ℕ → Pruned → Option Pruned
  | 0, _ => none
  | fuel + 1, s =>
    match pruneRound estimateTokens now budgetTokens parts s with
    | some s' => pruneLoop budgetTokens parts fuel s'
    | none => some s

/-- The parameters of `pruneHistoryForContextShare`. -/
structure Params where
  messages : List AgentMessage
  maxContextTokens : ℚ
  maxHistoryShare : Option ℚ
  parts : Option JsNumber

def Params.budgetTokens (params : Params) : ℤ :=
  max 1 ⌊params.maxContextTokens * params.maxHistoryShare.getD (1 / 2)⌋

/-- `parts`, normalized. -/
def Params.normalizedParts (params : Params) : ℕ :=
  normalizeParts (params.parts.getD (.ofNat 2)) params.messages.length

/-- What `pruneHistoryForContextShare` returns. -/
structure PruneResult where
  messages : List AgentMessage
  droppedMessagesList : List AgentMessage
  droppedChunks : ℕ
  droppedMessages : ℕ
  droppedTokens : ℚ
  keptTokens : ℚ
  budgetTokens : ℤ

/-- `pruneHistoryForContextShare`, if the fuel is enough. -/
def pruneHistoryForContextShare (fuel : ℕ) (params : Params) : Option PruneResult :=
  (pruneLoop estimateTokens now params.budgetTokens params.normalizedParts fuel (.init params.messages)).map
    fun s =>
      { messages := s.keptMessages
        droppedMessagesList := s.allDroppedMessages
        droppedChunks := s.droppedChunks
        droppedMessages := s.droppedMessages
        droppedTokens := s.droppedTokens
        keptTokens := estimateMessagesTokens estimateTokens s.keptMessages
        budgetTokens := params.budgetTokens }

/-! ### Chunks partition the messages -/

section Chunks

variable {estimateTokens} {parts : ℕ} {target : ℚ}

/-- What the loop has split so far. -/
structure Splits (messages : List AgentMessage) (s : Split) : Prop where
  /-- Nothing is lost. -/
  flatten : s.chunks.flatten ++ s.current = messages
  /-- No chunk is empty. -/
  nonempty : ∀ chunk ∈ s.chunks, chunk ≠ []
  /-- The current chunk is empty at the start only. -/
  current : messages ≠ [] → s.current ≠ []

theorem splitStep_splits {messages : List AgentMessage} {s : Split} (h : Splits messages s)
    (message : AgentMessage) :
    Splits (messages ++ [message]) (splitStep estimateTokens parts target s message) := by
  rw [splitStep]
  split
  next hcut =>
    refine ⟨?_, fun chunk hchunk => ?_, fun _ => by simp⟩
    · simp [← h.flatten]
    · rcases mem_append.mp hchunk with hchunk | hchunk
      · exact h.nonempty chunk hchunk
      · rw [mem_singleton.mp hchunk]
        exact hcut.2.1
  next =>
    refine ⟨?_, h.nonempty, fun _ => by simp⟩
    rw [← append_assoc, h.flatten]

theorem foldl_splitStep_splits (messages : List AgentMessage) :
    Splits messages (messages.foldl (splitStep estimateTokens parts target) ⟨[], [], 0⟩) := by
  induction messages using List.reverseRecOn with
  | nil => exact ⟨rfl, by simp, fun h => absurd rfl h⟩
  | append_singleton messages message ih =>
    rw [foldl_append]
    exact splitStep_splits ih message

/-- The chunks are the messages, and none is empty. -/
theorem splitMessagesByTokenShare_flatten (estimateTokens : AgentMessage → ℚ)
    (messages : List AgentMessage) (parts : JsNumber) :
    (splitMessagesByTokenShare estimateTokens messages parts).flatten = messages ∧
      ∀ chunk ∈ splitMessagesByTokenShare estimateTokens messages parts, chunk ≠ [] := by
  rw [splitMessagesByTokenShare]
  split
  next hnil => exact ⟨hnil.symm, by simp⟩
  next hne =>
    dsimp only
    split
    next => exact ⟨by simp, by simpa using hne⟩
    next =>
      have h : Splits messages (messages.foldl (splitStep estimateTokens
          (normalizeParts parts messages.length)
          (estimateMessagesTokens estimateTokens messages / normalizeParts parts messages.length))
          ⟨[], [], 0⟩) := foldl_splitStep_splits messages
      rw [if_neg (h.current hne)]
      refine ⟨by simpa using h.flatten, fun chunk hchunk => ?_⟩
      rcases mem_append.mp hchunk with hchunk | hchunk
      · exact h.nonempty chunk hchunk
      · rw [mem_singleton.mp hchunk]
        exact h.current hne

theorem estimateMessagesTokens_append (messages messages' : List AgentMessage) :
    estimateMessagesTokens estimateTokens (messages ++ messages') =
      estimateMessagesTokens estimateTokens messages + estimateMessagesTokens estimateTokens messages' := by
  rw [estimateMessagesTokens, map_append, sum_append]
  rfl

/-- Until the first cut the current chunk has all tokens. -/
theorem currentTokens_foldl_splitStep (messages : List AgentMessage) :
    (messages.foldl (splitStep estimateTokens parts target) ⟨[], [], 0⟩).chunks = [] →
      (messages.foldl (splitStep estimateTokens parts target) ⟨[], [], 0⟩).currentTokens =
        estimateMessagesTokens estimateTokens messages := by
  induction messages using List.reverseRecOn with
  | nil => exact fun _ => rfl
  | append_singleton messages message ih =>
    rw [foldl_append, foldl_cons, foldl_nil, estimateMessagesTokens_append, splitStep]
    generalize messages.foldl (splitStep estimateTokens parts target) ⟨[], [], 0⟩ = s at ih ⊢
    split
    next => exact fun h => absurd h (by simp)
    next =>
      intro h
      rw [← ih h]

/-- Two messages with tokens are split when there are to be two parts. -/
theorem two_le_length_splitMessagesByTokenShare {messages : List AgentMessage} {parts : JsNumber}
    (hparts : 1 < normalizeParts parts messages.length) (hlength : 1 < messages.length)
    (htokens : 0 < estimateMessagesTokens estimateTokens messages) :
    2 ≤ (splitMessagesByTokenShare estimateTokens messages parts).length := by
  obtain ⟨front, last, rfl⟩ : ∃ front last, messages = front ++ [last] :=
    ⟨messages.dropLast, messages.getLast (by rintro rfl; cases hlength),
      (dropLast_append_getLast _).symm⟩
  have hfront : front ≠ [] := by
    rintro rfl
    simp at hlength
  rw [splitMessagesByTokenShare, if_neg (by simp)]
  dsimp only
  rw [if_neg (by omega)]
  generalize normalizeParts parts (front ++ [last]).length = n at hparts ⊢
  have htarget : estimateMessagesTokens estimateTokens (front ++ [last]) / n <
      estimateMessagesTokens estimateTokens (front ++ [last]) :=
    div_lt_self htokens (by exact_mod_cast hparts)
  generalize estimateMessagesTokens estimateTokens (front ++ [last]) / n = target at htarget ⊢
  have hsplits : Splits (front ++ [last])
      ((front ++ [last]).foldl (splitStep estimateTokens n target) ⟨[], [], 0⟩) :=
    foldl_splitStep_splits _
  rw [if_neg (hsplits.current (by simp))]
  rw [length_append, length_singleton]
  suffices hcut : ((front ++ [last]).foldl (splitStep estimateTokens n target) ⟨[], [], 0⟩).chunks ≠ [] by
    have := length_pos_of_ne_nil hcut
    omega
  have hbefore : Splits front (front.foldl (splitStep estimateTokens n target) ⟨[], [], 0⟩) :=
    foldl_splitStep_splits _
  have htokens : (front.foldl (splitStep estimateTokens n target) ⟨[], [], 0⟩).chunks = [] →
      (front.foldl (splitStep estimateTokens n target) ⟨[], [], 0⟩).currentTokens =
        estimateMessagesTokens estimateTokens front := currentTokens_foldl_splitStep front
  rw [foldl_append, foldl_cons, foldl_nil, splitStep]
  generalize front.foldl (splitStep estimateTokens n target) ⟨[], [], 0⟩ = s at hbefore htokens ⊢
  split
  next => simp
  next hnot =>
    -- without a cut so far the last message is over the target
    intro hnil
    have hnone : s.chunks = [] := hnil
    refine hnot ⟨by rw [hnone, length_nil]; omega, hbefore.current hfront, ?_⟩
    rw [htokens hnone, ← estimateMessagesTokens_append]
    exact htarget

end Chunks

/-! ### One round -/

section Rounds

variable {estimateTokens now} {budgetTokens : ℤ} {parts : ℕ} {s s' : Pruned}

/-- What one round does: it drops a chunk and repairs the rest. -/
theorem pruneRound_some (h : pruneRound estimateTokens now budgetTokens parts s = some s') :
    ∃ dropped rest, dropped ≠ [] ∧ s.keptMessages = dropped ++ rest ∧
      s'.keptMessages = (repairToolUseResultPairing (now s.droppedChunks) rest).messages ∧
      s'.allDroppedMessages = s.allDroppedMessages ++ dropped ∧
      s'.droppedMessages = s.droppedMessages +
        (dropped.length + (repairToolUseResultPairing (now s.droppedChunks) rest).droppedOrphanCount) := by
  obtain ⟨hflatten, hne⟩ := splitMessagesByTokenShare_flatten estimateTokens s.keptMessages (.ofNat parts)
  rw [pruneRound] at h
  split at h
  next =>
    split at h
    next dropped next rest hchunks =>
      obtain rfl := some.inj h
      rw [hchunks] at hflatten hne
      refine ⟨dropped, (next :: rest).flatten, hne dropped mem_cons_self, ?_, rfl, rfl, rfl⟩
      rw [← hflatten, flatten_cons]
    next => cases h
  next => cases h

/-- When the loop ends the history is in its budget, or one chunk. -/
theorem pruneRound_none (h : pruneRound estimateTokens now budgetTokens parts s = none) :
    estimateMessagesTokens estimateTokens s.keptMessages ≤ budgetTokens ∨
      (splitMessagesByTokenShare estimateTokens s.keptMessages (.ofNat parts)).length ≤ 1 := by
  rw [pruneRound] at h
  split at h
  next =>
    split at h
    next => cases h
    next hchunks =>
      right
      match hsplit : splitMessagesByTokenShare estimateTokens s.keptMessages (.ofNat parts) with
      | [] => simp
      | [_] => simp
      | dropped :: next :: rest => exact absurd hsplit (hchunks dropped next rest)
  next hcond =>
    rw [not_and_or, not_not, not_lt] at hcond
    rcases hcond with hnil | hle
    · right
      simp [splitMessagesByTokenShare, hnil]
    · exact .inl hle

/-! ### Repairs of the rest -/

/-- The repaired list starts with no result. -/
theorem repair_first (time : ℚ) (messages : List AgentMessage) :
    leadingIds (repairToolUseResultPairing time messages).messages = [] := by
  obtain ⟨extra, h⟩ := repairLoop_repaired time messages .init
  by_cases hch : (repairLoop time 0 messages .init).changed = true
  · have hout : (repairToolUseResultPairing time messages).messages = extra :=
    (messages_of_changed hch).trans h.out
    rw [hout]
    exact h.first
  · rw [report_of_unchanged (Bool.not_eq_true _ ▸ hch)]
    rw [changed_iff, not_not] at hch
    exact (answered_iff_of_clean hch.2).1

/-- A repair keeps the messages that are no results, in order. -/
theorem others_repair (time : ℚ) (messages : List AgentMessage) :
    others (repairToolUseResultPairing time messages).messages = others messages := by
  obtain ⟨extra, h⟩ := repairLoop_repaired time messages .init
  by_cases hch : (repairLoop time 0 messages .init).changed = true
  · have hout : (repairToolUseResultPairing time messages).messages = extra :=
    (messages_of_changed hch).trans h.out
    rw [hout]
    exact h.kept
  · rw [report_of_unchanged (Bool.not_eq_true _ ▸ hch)]

/-- A list that starts with no result has a message that is none. -/
theorem others_ne_nil {messages : List AgentMessage} (hne : messages ≠ []) (h : leadingIds messages = []) :
    others messages ≠ [] := by
  obtain ⟨msg, rest, rfl⟩ := exists_cons_of_ne_nil hne
  have hmsg : isToolResult msg = false := by
    by_contra hresult
    rw [Bool.not_eq_false] at hresult
    rw [leadingIds, takeWhile_cons_of_pos hresult] at h
    cases h
  rw [others_cons_other hmsg]
  exact cons_ne_nil _ _

theorem leadingIds_append_left {messages rest : List AgentMessage} (hne : messages ≠ [])
    (h : leadingIds (messages ++ rest) = []) : leadingIds messages = [] := by
  obtain ⟨msg, messages, rfl⟩ := exists_cons_of_ne_nil hne
  rw [leadingIds, map_eq_nil_iff] at h ⊢
  cases hresult : isToolResult msg with
  | true =>
    rw [cons_append, takeWhile_cons_of_pos hresult] at h
    cases h
  | false => rw [takeWhile_cons_of_neg (by rw [hresult]; decide)]

/-! ### The end of the loop -/

/-- A round of a history that starts with no result drops a message that is none. -/
theorem pruneRound_decreases (h : pruneRound estimateTokens now budgetTokens parts s = some s')
    (hfirst : leadingIds s.keptMessages = []) :
    (others s'.keptMessages).length < (others s.keptMessages).length := by
  obtain ⟨dropped, rest, hne, hkept, hkept', -, -⟩ := pruneRound_some h
  rw [hkept] at hfirst
  have hpos := length_pos_of_ne_nil (others_ne_nil hne (leadingIds_append_left hne hfirst))
  rw [hkept', hkept, others_repair, others_append, length_append]
  omega

theorem pruneRound_first (h : pruneRound estimateTokens now budgetTokens parts s = some s') :
    leadingIds s'.keptMessages = [] := by
  obtain ⟨dropped, rest, -, -, hkept', -, -⟩ := pruneRound_some h
  rw [hkept']
  exact repair_first _ _

/-- More fuel does not change the result. -/
theorem pruneLoop_of_le {fuel fuel' : ℕ} {last : Pruned}
    (h : pruneLoop estimateTokens now budgetTokens parts fuel s = some last) (hle : fuel ≤ fuel') :
    pruneLoop estimateTokens now budgetTokens parts fuel' s = some last := by
  induction fuel generalizing s fuel' with
  | zero => cases h
  | succ fuel ih =>
    obtain ⟨fuel', rfl⟩ : ∃ n, fuel' = n + 1 := ⟨fuel' - 1, by omega⟩
    rw [pruneLoop] at h ⊢
    split at h
    next s' hround => exact ih h (by omega)
    next => exact h

theorem pruneLoop_terminates_from (hfirst : leadingIds s.keptMessages = []) :
    ∃ last, pruneLoop estimateTokens now budgetTokens parts ((others s.keptMessages).length + 1) s =
      some last := by
  induction hn : (others s.keptMessages).length using Nat.strong_induction_on generalizing s with
  | _ n ih =>
    rw [pruneLoop]
    cases hround : pruneRound estimateTokens now budgetTokens parts s with
    | none => exact ⟨s, rfl⟩
    | some s' =>
      have hlt := pruneRound_decreases hround hfirst
      obtain ⟨last, hlast⟩ := ih _ (hn ▸ hlt) (pruneRound_first hround) rfl
      exact ⟨last, pruneLoop_of_le hlast (by omega)⟩

/-- The loop ends, after at most two rounds more than there are messages. -/
theorem pruneLoop_terminates (s : Pruned) :
    ∃ last, pruneLoop estimateTokens now budgetTokens parts (s.keptMessages.length + 2) s = some last := by
  rw [pruneLoop]
  cases hround : pruneRound estimateTokens now budgetTokens parts s with
  | none => exact ⟨s, rfl⟩
  | some s' =>
    obtain ⟨last, hlast⟩ : ∃ last, pruneLoop estimateTokens now budgetTokens parts
        ((others s'.keptMessages).length + 1) s' = some last :=
      pruneLoop_terminates_from (pruneRound_first hround)
    obtain ⟨dropped, rest, -, hkept, hkept', -, -⟩ := pruneRound_some hround
    have hlen : (others s'.keptMessages).length ≤ s.keptMessages.length := by
      rw [hkept', hkept, others_repair, length_append]
      have := (filter_sublist (l := rest) (p := fun msg => !isToolResult msg)).length_le
      exact this.trans (by omega)
    exact ⟨last, pruneLoop_of_le hlast (by omega)⟩

/-- What every round preserves holds at the end, and there the loop does not go on. -/
theorem pruneLoop_induction {P : Pruned → Prop}
    (hround : ∀ s s', pruneRound estimateTokens now budgetTokens parts s = some s' → P s → P s')
    {fuel : ℕ} {last : Pruned} (h : pruneLoop estimateTokens now budgetTokens parts fuel s = some last)
    (hs : P s) : P last ∧ pruneRound estimateTokens now budgetTokens parts last = none := by
  induction fuel generalizing s with
  | zero => cases h
  | succ fuel ih =>
    rw [pruneLoop] at h
    split at h
    next s' hnext => exact ih h (hround s s' hnext hs)
    next hnone =>
      obtain rfl := some.inj h
      exact ⟨hs, hnone⟩

end Rounds

/-! ### What becomes of each message in a repair -/

theorem setField_setField (message first second : Json) (key : String) :
    setField (setField message key first) key second = setField message key second := by
  have twice : ∀ fields : Json.Fields, (fields.set key first).set key second = fields.set key second := by
    intro fields
    induction fields with
    | nil => simp [Json.Fields.set]
    | cons field rest ih =>
      obtain ⟨k, v⟩ := field
      by_cases hk : k = key <;> simp [Json.Fields.set, hk, ih]
  rw [setField, setField, setField, fieldsOf, twice]

theorem sameButName_refl (r : AgentMessage) : SameButName r r := .inl rfl

theorem sameButName_trans (r₁ r₂ r₃ : AgentMessage) (h : SameButName r₁ r₂) (h' : SameButName r₂ r₃) :
    SameButName r₁ r₃ := by
  rcases h with rfl | ⟨name, rfl⟩
  · exact h'
  · rcases h' with rfl | ⟨name', rfl⟩
    · exact .inr ⟨name, rfl⟩
    · exact .inr ⟨name, setField_setField _ _ _ _⟩

/-- A result that a repair has made. -/
def IsSynthetic (r : AgentMessage) : Prop := ∃ time id name, r = makeMissingToolResult time id name

theorem IsSynthetic.of_sameButName {r r₀ : AgentMessage} (h : SameButName r r₀) (h₀ : IsSynthetic r₀) :
    IsSynthetic r := by
  obtain ⟨time, id, name, rfl⟩ := h₀
  rcases h with rfl | ⟨name', rfl⟩
  · exact ⟨time, id, name, rfl⟩
  · refine ⟨time, id, some name', ?_⟩
    simp [setField, makeMissingToolResult, fieldsOf, Json.Fields.set]

/-- No id belongs to two calls or to two results. -/
def UsedOnce (messages : List AgentMessage) : Prop :=
  (messages.flatMap callIds).Nodup ∧ (resultIds messages).Nodup

/-- The result answers none of the calls. -/
def isOrphan (toolCalls : List ToolCallLike) (r : AgentMessage) : Bool :=
  isToolResult r && !((extractToolResultId r).any fun id => id ∈ toolCalls.map (·.id))

/-- The result answers one of the calls. -/
def isAnswer (toolCalls : List ToolCallLike) (r : AgentMessage) : Bool :=
  isToolResult r && (extractToolResultId r).any fun id => id ∈ toolCalls.map (·.id)

variable {toolCalls : List ToolCallLike} {r : AgentMessage}

theorem isAnswer_iff : isAnswer toolCalls r = true ↔ ∃ call ∈ toolCalls, Answers r call.id := by
  rw [isAnswer, Bool.and_eq_true, Option.any_eq_true]
  constructor
  · rintro ⟨hresult, id, hid, hmem⟩
    obtain ⟨call, hcall, rfl⟩ := List.mem_map.mp (of_decide_eq_true hmem)
    exact ⟨call, hcall, hresult, hid⟩
  · rintro ⟨call, hcall, hresult, hid⟩
    exact ⟨hresult, call.id, hid, decide_eq_true (List.mem_map_of_mem hcall)⟩

/-- A span is its answers, its orphans and its other messages. -/
theorem span_perm (toolCalls : List ToolCallLike) (span : List AgentMessage) :
    (span.filter (isAnswer toolCalls) ++ span.filter (isOrphan toolCalls) ++ others span).Perm span := by
  induction span with
  | nil => exact .refl _
  | cons msg span ih =>
    cases hresult : isToolResult msg with
    | false =>
      have hanswer : isAnswer toolCalls msg = false := by rw [isAnswer, hresult, Bool.false_and]
      have horphan : isOrphan toolCalls msg = false := by rw [isOrphan, hresult, Bool.false_and]
      rw [filter_cons_of_neg (by rw [hanswer]; decide), filter_cons_of_neg (by rw [horphan]; decide),
        others_cons_other hresult]
      exact perm_middle.trans (ih.cons msg)
    | true =>
      rw [others_cons_result hresult]
      cases hany : (extractToolResultId msg).any fun id => id ∈ toolCalls.map (·.id) with
      | true =>
        have hanswer : isAnswer toolCalls msg = true := by rw [isAnswer, hresult, hany]; rfl
        have horphan : isOrphan toolCalls msg = false := by rw [isOrphan, hresult, hany]; rfl
        rw [filter_cons_of_pos hanswer, filter_cons_of_neg (by rw [horphan]; decide)]
        exact ih.cons msg
      | false =>
        have hanswer : isAnswer toolCalls msg = false := by rw [isAnswer, hresult, hany]; rfl
        have horphan : isOrphan toolCalls msg = true := by rw [isOrphan, hresult, hany]; rfl
        rw [filter_cons_of_neg (by rw [hanswer]; decide), filter_cons_of_pos horphan,
          append_assoc, cons_append]
        refine perm_middle.trans (.cons msg ?_)
        rwa [← append_assoc]

/-- The inner loop counts the orphans. -/
theorem droppedOrphans_foldl_scanSpan (toolCalls : List ToolCallLike) (seen : List String)
    (messages : List AgentMessage) :
    (messages.foldl (scanSpan toolCalls seen) .init).droppedOrphans =
      (messages.filter (isOrphan toolCalls)).length := by
  induction messages using List.reverseRecOn with
  | nil => rfl
  | append_singleton messages next ih =>
    rw [foldl_append, foldl_cons, foldl_nil, filter_append, length_append, ← ih, scanSpan]
    generalize messages.foldl (scanSpan toolCalls seen) .init = span
    have hfilter : ([next].filter (isOrphan toolCalls)).length = if isOrphan toolCalls next then 1 else 0 := by
      rw [filter_singleton]
      cases isOrphan toolCalls next <;> rfl
    rw [hfilter, isOrphan]
    cases hresult : isToolResult next with
    | false => simp
    | true =>
      cases hid : extractToolResultId next with
      | none => simp
      | some id =>
        by_cases hmem : id ∈ toolCalls.map (·.id)
        · by_cases hseen : id ∈ seen
          · simp only [if_pos hmem, if_pos hseen, any_some, decide_eq_true hmem]
            rfl
          · simp only [if_pos hmem, if_neg hseen, any_some, decide_eq_true hmem]
            rfl
        · simp only [if_neg hmem, any_some, decide_eq_false hmem]
          rfl

variable (time : ℚ)

theorem droppedOrphanCount_foldl_pushCallResult (results : JsMap String AgentMessage)
    (calls : List ToolCallLike) (st : Repair) :
    (calls.foldl (pushCallResult time results) st).droppedOrphanCount = st.droppedOrphanCount := by
  have push : ∀ (st : Repair) (msg : AgentMessage),
      (pushToolResult st msg).droppedOrphanCount = st.droppedOrphanCount := by
    intro st msg
    rw [pushToolResult]
    split
    · split <;> rfl
    · rfl
  induction calls generalizing st with
  | nil => rfl
  | cons call calls ih =>
    rw [foldl_cons, ih, pushCallResult]
    split <;> exact push _ _

theorem droppedOrphanCount_repairTurn (st : Repair) (msg : AgentMessage) (span : List AgentMessage) :
    (repairTurn time st msg span).droppedOrphanCount =
      st.droppedOrphanCount + (span.filter (isOrphan (toolCallsOf msg))).length := by
  rw [repairTurn]
  dsimp only
  rw [droppedOrphanCount_foldl_pushCallResult, droppedOrphans_foldl_scanSpan]

theorem freshCalls_eq_self {seen : List String} {calls : List ToolCallLike}
    (hnodup : (calls.map (·.id)).Nodup) (hfresh : ∀ call ∈ calls, call.id ∉ seen) :
    freshCalls seen calls = calls := by
  induction calls generalizing seen with
  | nil => rfl
  | cons call calls ih =>
    obtain ⟨hnot, hnodup⟩ := nodup_cons.mp hnodup
    rw [freshCalls, if_neg (hfresh call mem_cons_self), ih hnodup fun c hc hmem => ?_]
    rcases mem_append.mp hmem with hmem | hmem
    · exact hfresh c (mem_cons_of_mem _ hc) hmem
    · have heq : c.id = call.id := mem_singleton.mp hmem
      exact hnot (List.mem_map.mpr ⟨c, hc, heq⟩)

variable {messages messages' : List AgentMessage}

theorem resultIds_sublist (h : messages.Sublist messages') :
    (resultIds messages).Sublist (resultIds messages') := (h.filter _).filterMap _

theorem resultIds_of_mem {id : String} (hr : r ∈ messages) (hans : Answers r id) : id ∈ resultIds messages :=
  mem_filterMap.mpr ⟨r, mem_filter.mpr ⟨hr, hans.1⟩, hans.2⟩

theorem resultIds_cons_answers {id : String} (hans : Answers r id)
    (rest : List AgentMessage) : resultIds (r :: rest) = id :: resultIds rest := by
  rw [resultIds, filter_cons_of_pos hans.1, filterMap_cons_some hans.2, resultIds]

/-- Where result ids are distinct, an id has one result. -/
theorem eq_of_answers (h : (resultIds messages).Nodup) {r r' : AgentMessage} {id : String}
    (hr : r ∈ messages) (hr' : r' ∈ messages) (hans : Answers r id) (hans' : Answers r' id) : r = r' := by
  induction messages with
  | nil => cases hr
  | cons first rest ih =>
    have htail := h.sublist (resultIds_sublist (sublist_cons_self first rest))
    rcases mem_cons.mp hr with heq | hrest <;> rcases mem_cons.mp hr' with heq' | hrest'
    · exact heq.trans heq'.symm
    · rw [resultIds_cons_answers (heq ▸ hans), nodup_cons] at h
      exact absurd (resultIds_of_mem hrest' hans') h.1
    · rw [resultIds_cons_answers (heq' ▸ hans'), nodup_cons] at h
      exact absurd (resultIds_of_mem hrest hans) h.1
    · exact ih htail hrest hrest'

variable {span : List AgentMessage}

/-- The answers of a span are pairwise different. -/
theorem nodup_answers (h : (resultIds span).Nodup) : (span.filter (isAnswer toolCalls)).Nodup := by
  induction span with
  | nil => exact nodup_nil
  | cons first rest ih =>
    have htail := ih (h.sublist (resultIds_sublist (sublist_cons_self first rest)))
    cases hanswer : isAnswer toolCalls first with
    | false => rwa [filter_cons_of_neg (by rw [hanswer]; decide)]
    | true =>
      obtain ⟨call, -, hans⟩ := isAnswer_iff.mp hanswer
      rw [filter_cons_of_pos hanswer, nodup_cons]
      refine ⟨fun hmem => ?_, htail⟩
      rw [resultIds_cons_answers hans, nodup_cons] at h
      exact h.1 (resultIds_of_mem (mem_of_mem_filter hmem) hans)

/-- The first answers of the calls are the answers in the span. -/
theorem firstAnswers_perm (hcalls : (toolCalls.map (·.id)).Nodup) (hspan : (resultIds span).Nodup) :
    ((toolCalls.map (·.id)).filterMap fun id => span.find? (answersId id)).Perm
      (span.filter (isAnswer toolCalls)) := by
  have hfirst : ∀ id r, span.find? (answersId id) = some r → r ∈ span ∧ Answers r id := fun id r h =>
    ⟨mem_of_find?_eq_some h, answersId_iff.mp (find?_some h)⟩
  refine (perm_ext_iff_of_nodup ?_ (nodup_answers hspan)).mpr fun r => ?_
  · refine hcalls.filterMap fun id id' r hr hr' => ?_
    exact some.inj ((hfirst id r hr).2.2.symm.trans (hfirst id' r hr').2.2)
  · rw [mem_filterMap, mem_filter, isAnswer_iff]
    constructor
    · rintro ⟨id, hid, hr⟩
      obtain ⟨call, hcall, rfl⟩ := List.mem_map.mp hid
      exact ⟨(hfirst _ r hr).1, call, hcall, (hfirst _ r hr).2⟩
    · rintro ⟨hr, call, hcall, hans⟩
      refine ⟨call.id, List.mem_map_of_mem hcall, ?_⟩
      cases hfind : span.find? (answersId call.id) with
      | none => exact absurd hans (find?_eq_none_iff.mp hfind r hr)
      | some r' =>
        obtain ⟨hr', hans'⟩ := hfirst _ r' hfind
        rw [eq_of_answers hspan hr' hr hans' hans]

/-- The results of the calls are their first answers, up to the name, and synthetic ones. -/
theorem callResults_accounts (msg : AgentMessage) (span : List AgentMessage) (calls : List ToolCallLike) :
    ∃ synthetic, (∀ r ∈ synthetic, IsSynthetic r) ∧
      PermUpTo SameButName (calls.map (callResult time msg span))
        (((calls.map (·.id)).filterMap fun id => span.find? (answersId id)) ++ synthetic) := by
  induction calls with
  | nil => exact ⟨[], by simp, .refl sameButName_refl []⟩
  | cons call calls ih =>
    obtain ⟨synthetic, hsynthetic, hih⟩ := ih
    rw [map_cons, map_cons]
    cases hfind : span.find? (answersId call.id) with
    | some r =>
      have hresult : SameButName (callResult time msg span call) r := by
        rw [callResult, hfind, map_some, getD_some]
        exact normalized_eq _ _ _
      refine ⟨synthetic, hsynthetic, ?_⟩
      rw [filterMap_cons_some (f := fun id => span.find? (answersId id)) hfind]
      exact (PermUpTo.of_forall₂ (.cons hresult .nil)).append hih
    | none =>
      have hresult : callResult time msg span call = makeMissingToolResult time call.id call.name := by
        rw [callResult, hfind]
        rfl
      refine ⟨makeMissingToolResult time call.id call.name :: synthetic, ?_, ?_⟩
      · rw [forall_mem_cons]
        exact ⟨⟨time, call.id, call.name, rfl⟩, hsynthetic⟩
      · rw [filterMap_cons_none (f := fun id => span.find? (answersId id)) hfind, hresult]
        have hcons := (PermUpTo.refl sameButName_refl [makeMissingToolResult time call.id call.name]).append hih
        refine hcons.perm_right ?_
        rw [singleton_append]
        exact perm_middle.symm

/-- What becomes of each message of a span. -/
theorem span_accounts {msg : AgentMessage} (hcalls : (callIds msg).Nodup) (hspan : (resultIds span).Nodup) :
    ∃ synthetic, (∀ r ∈ synthetic, IsSynthetic r) ∧
      PermUpTo SameButName
        ((toolCallsOf msg).map (callResult time msg span) ++ others span ++
          span.filter (isOrphan (toolCallsOf msg)))
        (span ++ synthetic) := by
  obtain ⟨synthetic, hsynthetic, hresults⟩ := callResults_accounts time msg span (toolCallsOf msg)
  refine ⟨synthetic, hsynthetic, ?_⟩
  have hfirst := hresults.perm_right ((firstAnswers_perm hcalls hspan).append_right synthetic)
  have hall := hfirst.append (PermUpTo.refl sameButName_refl
    (others span ++ span.filter (isOrphan (toolCallsOf msg))))
  rw [← append_assoc] at hall
  refine hall.perm_right ?_
  -- the synthetic results go behind the messages of the span
  refine List.Perm.trans ?_ ((span_perm (toolCallsOf msg) span).append_right synthetic)
  rw [append_assoc, append_assoc, append_assoc]
  refine List.Perm.append_left _ ?_
  refine (@List.perm_append_comm _ synthetic _).trans ?_
  rw [← append_assoc]
  exact perm_append_comm.append_right synthetic

theorem UsedOnce.sublist (h : UsedOnce messages') (hsub : messages.Sublist messages') : UsedOnce messages :=
  ⟨h.1.sublist (hsub.flatMap callIds), h.2.sublist (resultIds_sublist hsub)⟩

/-- What a repair does with the messages: the rest of a list, the results it drops, and those it makes. -/
structure Accounted (messages extra orphans synthetic : List AgentMessage) : Prop where
  areResults : ∀ r ∈ orphans, isToolResult r = true
  /-- What it adds are results it has made. -/
  areSynthetic : ∀ r ∈ synthetic, IsSynthetic r
  /-- Every message is left or dropped, and nothing else is there. -/
  account : PermUpTo SameButName (extra ++ orphans) (messages ++ synthetic)

theorem repairLoop_accounts (messages : List AgentMessage) (st : Repair)
    (hused : UsedOnce messages) (hfresh : ∀ id ∈ messages.flatMap callIds, id ∉ st.seenToolResultIds) :
    ∃ extra orphans synthetic, (repairLoop time 0 messages st).out = st.out ++ extra ∧
      (repairLoop time 0 messages st).droppedOrphanCount = st.droppedOrphanCount + orphans.length ∧
      Accounted messages extra orphans synthetic := by
  induction messages using turns_induction generalizing st with
  | nil =>
    refine ⟨[], [], [], by simp [repairLoop], by simp [repairLoop], by simp, by simp, ?_⟩
    exact .refl sameButName_refl []
  | loose msg rest hcalls ih =>
    have hrest := hused.sublist (sublist_cons_self msg rest)
    have hfresh' : ∀ id ∈ rest.flatMap callIds, id ∉ st.seenToolResultIds := fun id hid =>
      hfresh id (by
        rw [flatMap_cons, mem_append]
        exact .inr hid)
    rw [repairLoop_loose time hcalls, repairLoose]
    cases hresult : isToolResult msg with
    | true =>
      obtain ⟨extra, orphans, synthetic, hout, hcount, h⟩ := ih
        { st with droppedOrphanCount := st.droppedOrphanCount + 1, changed := true } hrest hfresh'
      rw [if_pos rfl]
      refine ⟨extra, msg :: orphans, synthetic, hout, ?_, ?_, h.areSynthetic, ?_⟩
      · rw [hcount, length_cons]
        dsimp only
        omega
      · rw [forall_mem_cons]
        exact ⟨hresult, h.areResults⟩
      · refine PermUpTo.perm_left perm_middle ?_
        exact (PermUpTo.refl sameButName_refl [msg]).append h.account
    | false =>
      obtain ⟨extra, orphans, synthetic, hout, hcount, h⟩ := ih { st with out := st.out ++ [msg] } hrest hfresh'
      rw [if_neg Bool.false_ne_true]
      refine ⟨msg :: extra, orphans, synthetic, ?_, hcount, h.areResults, h.areSynthetic, ?_⟩
      · rw [hout, append_assoc, singleton_append]
      · exact (PermUpTo.refl sameButName_refl [msg]).append h.account
  | turn msg rest hcalls ih =>
    have hrest := hused.sublist (sublist_cons_self msg rest)
    have hspanSub : (spanOf rest).Sublist rest := takeWhile_sublist _
    have hafterSub : (afterSpan rest).Sublist rest := dropWhile_sublist _
    have hnodup := hused.1
    rw [flatMap_cons, nodup_append] at hnodup
    obtain ⟨hcallIds, -, hdisjoint⟩ := hnodup
    have hcallsFresh : ∀ id ∈ callIds msg, id ∉ st.seenToolResultIds := fun id hid =>
      hfresh id (by
        rw [flatMap_cons, mem_append]
        exact .inl hid)
    have hafterFresh : ∀ id ∈ (afterSpan rest).flatMap callIds,
        id ∉ (repairTurn time st msg (spanOf rest)).seenToolResultIds := by
      intro id hid hmem
      have hidRest : id ∈ rest.flatMap callIds := (hafterSub.flatMap callIds).mem hid
      rw [repairTurn_seen time st hcalls] at hmem
      rcases mem_append.mp hmem with hmem | hmem
      · refine hfresh id ?_ hmem
        rw [flatMap_cons, mem_append]
        exact .inr hidRest
      · exact hdisjoint id (not_mem_of_mem_distinctFrom hmem).2 id hidRest rfl
    obtain ⟨extra, orphans, synthetic, hout, hcount, h⟩ := ih (repairTurn time st msg (spanOf rest))
      (hrest.sublist hafterSub) hafterFresh
    obtain ⟨made, hmade, hspan⟩ := span_accounts time hcallIds (hrest.sublist hspanSub).2
    have hresults : turnResults time st.seenToolResultIds msg (spanOf rest) =
        (toolCallsOf msg).map (callResult time msg (spanOf rest)) := by
      rw [turnResults, freshCalls_eq_self hcallIds fun call hcall =>
        hcallsFresh call.id (List.mem_map_of_mem hcall)]
    set rs := (toolCallsOf msg).map (callResult time msg (spanOf rest)) with hrs
    set dropped := (spanOf rest).filter (isOrphan (toolCallsOf msg)) with hdropped
    rw [repairLoop_turn time hcalls]
    refine ⟨msg :: rs ++ others (spanOf rest) ++ extra, dropped ++ orphans, made ++ synthetic, ?_, ?_, ?_,
      ?_, ?_⟩
    · rw [hout, repairTurn_out, hresults, append_assoc]
    · rw [hcount, droppedOrphanCount_repairTurn, ← hdropped, length_append, Nat.add_assoc]
    · intro r hr
      rcases mem_append.mp hr with hr | hr
      · have horphan := (mem_filter.mp hr).2
        exact (Bool.and_eq_true_iff.mp horphan).1
      · exact h.areResults r hr
    · intro r hr
      rcases mem_append.mp hr with hr | hr
      · exact hmade r hr
      · exact h.areSynthetic r hr
    · have hboth := (PermUpTo.refl sameButName_refl [msg]).append (hspan.append h.account)
      refine (hboth.perm_left ?_).perm_right ?_
      · -- the orphans of the turn go behind the rest
        simp only [cons_append, append_assoc]
        refine .cons msg (.append_left rs (.append_left _ ?_))
        rw [← append_assoc, ← append_assoc]
        exact perm_append_comm.append_right orphans
      · rw [singleton_append, cons_append]
        refine .cons msg ?_
        conv_rhs => rw [← spanOf_append_afterSpan rest]
        simp only [append_assoc]
        refine .append_left _ ?_
        rw [← append_assoc, ← append_assoc]
        exact perm_append_comm.append_right synthetic

/-- In a repair every message is left, up to its name, or dropped as an orphan; what is added is
synthetic. -/
theorem repair_accounts (hused : UsedOnce messages) :
    ∃ orphans synthetic,
      (repairToolUseResultPairing time messages).droppedOrphanCount = orphans.length ∧
      Accounted messages (repairToolUseResultPairing time messages).messages orphans synthetic := by
  by_cases hch : (repairLoop time 0 messages .init).changed = true
  · obtain ⟨extra, orphans, synthetic, hout, hcount, h⟩ :=
      repairLoop_accounts time messages .init hused (by simp [Repair.init])
    have hmessages : (repairToolUseResultPairing time messages).messages = extra :=
      (messages_of_changed hch).trans hout
    refine ⟨orphans, synthetic, ?_, hmessages ▸ h⟩
    rw [repairToolUseResultPairing]
    simpa [Repair.init] using hcount
  · refine ⟨[], [], ?_, by simp, by simp, ?_⟩
    · rw [report_of_unchanged (Bool.not_eq_true _ ▸ hch)]
      rfl
    · rw [report_of_unchanged (Bool.not_eq_true _ ▸ hch)]
      exact .refl sameButName_refl _

theorem flatMap_callIds_others (messages : List AgentMessage) :
    (others messages).flatMap callIds = messages.flatMap callIds := by
  induction messages with
  | nil => rfl
  | cons msg rest ih =>
    cases hresult : isToolResult msg with
    | false => rw [others_cons_other hresult, flatMap_cons, flatMap_cons, ih]
    | true =>
      have hassistant : isAssistant msg = false := by
        by_contra hassistant
        have := not_isToolResult_of_isAssistant (Bool.not_eq_false _ ▸ hassistant)
        rw [hresult] at this
        cases this
      rw [others_cons_result hresult, flatMap_cons, ih,
        callIds_of_toolCallsOf (toolCallsOf_of_not_isAssistant hassistant), nil_append]

/-- A repair leaves ids that are used once. -/
theorem UsedOnce.repair (h : UsedOnce messages) (time : ℚ) :
    UsedOnce (repairToolUseResultPairing time messages).messages := by
  refine ⟨?_, ?_⟩
  · rw [← flatMap_callIds_others, others_repair, flatMap_callIds_others]
    exact h.1
  · by_cases hch : (repairLoop time 0 messages .init).changed = true
    · obtain ⟨extra, hextra⟩ := repairLoop_repaired time messages .init
      have hout : (repairToolUseResultPairing time messages).messages = extra :=
        (messages_of_changed hch).trans hextra.out
      have hfresh : IdsFresh messages := (nodup_flatMap.mp h.1).2
      have hanswered := hextra.answered.mpr (freshFrom_nil_iff.mpr hfresh)
      rw [hout]
      exact nodup_resultIds hfresh hanswered hextra.first hextra.kept
    · rw [report_of_unchanged (Bool.not_eq_true _ ▸ hch)]
      exact h.2

/-! ### Synthetic results -/

theorem added_pushToolResult (st : Repair) (msg : AgentMessage) :
    (pushToolResult st msg).added = st.added := by
  rw [pushToolResult]
  split
  · split <;> rfl
  · rfl

variable {st : Repair}

theorem isSynthetic_added_repairTurn (h : ∀ r ∈ st.added, IsSynthetic r) (msg : AgentMessage)
    (span : List AgentMessage) : ∀ r ∈ (repairTurn time st msg span).added, IsSynthetic r := by
  have push : ∀ (results : JsMap String AgentMessage) (calls : List ToolCallLike) (st : Repair),
      (∀ r ∈ st.added, IsSynthetic r) →
        ∀ r ∈ (calls.foldl (pushCallResult time results) st).added, IsSynthetic r := by
    intro results calls
    induction calls with
    | nil => exact fun st h => h
    | cons call calls ih =>
      intro st h
      refine ih _ ?_
      rw [pushCallResult]
      split
      · rwa [added_pushToolResult]
      · rw [added_pushToolResult]
        intro r hr
        rcases mem_append.mp hr with hr | hr
        · exact h r hr
        · exact ⟨time, call.id, call.name, mem_singleton.mp hr⟩
  exact push _ _ _ h

theorem isSynthetic_added (skip : ℕ) (messages : List AgentMessage) (h : ∀ r ∈ st.added, IsSynthetic r) :
    ∀ r ∈ (repairLoop time skip messages st).added, IsSynthetic r := by
  induction messages generalizing skip st with
  | nil => cases skip <;> exact h
  | cons msg rest ih =>
    cases skip with
    | succ skip => exact ih skip h
    | zero =>
      rw [repairLoop]
      split
      · refine ih 0 ?_
        rw [repairLoose]
        split <;> exact h
      · exact ih _ (isSynthetic_added_repairTurn time h msg _)

/-- A message is one of the list, up to its name, or synthetic. -/
def ComesFrom (messages : List AgentMessage) (m : AgentMessage) : Prop :=
  (∃ m₀ ∈ messages, SameButName m m₀) ∨ IsSynthetic m

variable {m : AgentMessage}

/-- Every message of a repaired list is one of the list or synthetic. -/
theorem comesFrom_of_mem_repair {time : ℚ}
    (hm : m ∈ (repairToolUseResultPairing time messages).messages) : ComesFrom messages m := by
  by_cases hch : (repairLoop time 0 messages .init).changed = true
  · obtain ⟨extra, h⟩ := repairLoop_repaired time messages .init
    have hout : (repairToolUseResultPairing time messages).messages = extra :=
      (messages_of_changed hch).trans h.out
    rw [hout] at hm
    cases hresult : isToolResult m with
    | true =>
      rcases h.origin m hm hresult with hadded | ⟨id, -, m₀, hm₀, -, hsame⟩
      · exact .inr (isSynthetic_added time 0 messages (by simp [Repair.init]) m hadded)
      · exact .inl ⟨m₀, hm₀, hsame⟩
    | false =>
      have hothers : m ∈ others extra := mem_filter.mpr ⟨hm, by rw [hresult]; rfl⟩
      rw [h.kept] at hothers
      exact .inl ⟨m, mem_of_mem_filter hothers, sameButName_refl m⟩
  · rw [report_of_unchanged (Bool.not_eq_true _ ▸ hch)] at hm
    exact .inl ⟨m, hm, sameButName_refl m⟩

theorem ComesFrom.trans {messages kept : List AgentMessage} (h : ComesFrom kept m)
    (hkept : ∀ m ∈ kept, ComesFrom messages m) : ComesFrom messages m := by
  rcases h with ⟨m₁, hm₁, hsame⟩ | hsynthetic
  · rcases hkept m₁ hm₁ with ⟨m₀, hm₀, hsame₀⟩ | hsynthetic
    · exact .inl ⟨m₀, hm₀, sameButName_trans _ _ _ hsame hsame₀⟩
    · exact .inr (hsynthetic.of_sameButName hsame)
  · exact .inr hsynthetic

/-! ### The account of a run -/

/-- What holds of the messages in every round. -/
structure Kept (messages : List AgentMessage) (s : Pruned) : Prop where
  /-- The messages that are no results are dropped in order, or kept. -/
  others : others s.allDroppedMessages ++ others s.keptMessages = others messages
  /-- A message that is kept comes from the input. -/
  kept : ∀ m ∈ s.keptMessages, ComesFrom messages m
  /-- So does one that is dropped. -/
  dropped : ∀ m ∈ s.allDroppedMessages, ComesFrom messages m

/-- The account of every message. -/
def Balanced (messages : List AgentMessage) (s : Pruned) : Prop :=
  UsedOnce s.keptMessages ∧ ∃ orphans synthetic, (∀ r ∈ orphans, isToolResult r = true) ∧
    (∀ r ∈ synthetic, IsSynthetic r) ∧
    s.droppedMessages = s.allDroppedMessages.length + orphans.length ∧
    PermUpTo SameButName (s.keptMessages ++ s.allDroppedMessages ++ orphans) (messages ++ synthetic)

section Runs

variable {estimateTokens now} {budgetTokens : ℤ} {parts : ℕ} {messages : List AgentMessage} {s s' : Pruned}

theorem pruneRound_kept (h : pruneRound estimateTokens now budgetTokens parts s = some s')
    (hs : Kept messages s) : Kept messages s' := by
  obtain ⟨dropped, rest, -, hkept, hkept', hdropped', -⟩ := pruneRound_some h
  have hfrom := hs.kept
  rw [hkept] at hfrom
  refine ⟨?_, fun m hm => ?_, fun m hm => ?_⟩
  · rw [hdropped', hkept', others_append, others_repair, append_assoc, ← others_append, ← hkept]
    exact hs.others
  · rw [hkept'] at hm
    exact (comesFrom_of_mem_repair hm).trans fun m₁ hm₁ => hfrom m₁ (mem_append_right _ hm₁)
  · rw [hdropped'] at hm
    rcases mem_append.mp hm with hm | hm
    · exact hs.dropped m hm
    · exact hfrom m (mem_append_left _ hm)

theorem pruneRound_balanced (h : pruneRound estimateTokens now budgetTokens parts s = some s')
    (hs : Balanced messages s) : Balanced messages s' := by
  obtain ⟨dropped, rest, -, hkept, hkept', hdropped', hcount'⟩ := pruneRound_some h
  obtain ⟨hused, orphans, synthetic, horphans, hsynthetic, hcount, haccount⟩ := hs
  rw [hkept] at hused haccount
  have hrest : UsedOnce rest := hused.sublist (sublist_append_right dropped rest)
  obtain ⟨newOrphans, newSynthetic, hnewCount, hnew⟩ := repair_accounts (now s.droppedChunks) hrest
  refine ⟨hkept' ▸ hrest.repair _, orphans ++ newOrphans, synthetic ++ newSynthetic, fun r hr => ?_,
    fun r hr => ?_, ?_, ?_⟩
  · exact (mem_append.mp hr).elim (horphans r) (hnew.areResults r)
  · exact (mem_append.mp hr).elim (hsynthetic r) (hnew.areSynthetic r)
  · rw [hcount', hdropped', hcount, hnewCount, length_append, length_append]
    omega
  · rw [hkept', hdropped']
    set kept := (repairToolUseResultPairing (now s.droppedChunks) rest).messages
    -- the account of the repair, beside what was dropped before
    have hround := hnew.account.append
      (PermUpTo.refl sameButName_refl (dropped ++ s.allDroppedMessages ++ orphans))
    have hbefore := haccount.append (PermUpTo.refl sameButName_refl newSynthetic)
    refine (PermUpTo.trans sameButName_trans (hround.perm_left ?_) (hbefore.perm_left ?_)).perm_right ?_
    · rw [← Multiset.coe_eq_coe]
      simp only [← Multiset.coe_add]
      abel
    · rw [← Multiset.coe_eq_coe]
      simp only [← Multiset.coe_add]
      abel
    · rw [append_assoc]

end Runs

/-! ### The whole pruning -/

theorem one_lt_normalizeParts {parts messageCount : ℕ} (hparts : 1 < parts) (hcount : 1 < messageCount) :
    1 < normalizeParts (.ofNat parts) messageCount := by
  have hnot : ¬ (parts : ℚ) ≤ 1 := by
    rw [not_le]
    exact_mod_cast hparts
  simp only [normalizeParts, JsNumber.ofNat, if_neg hnot, Int.floor_natCast, Int.toNat_natCast]
  omega

/-- When the loop ends the history is in its budget, or there is nothing to split. -/
theorem pruneRound_none_of_pos {budgetTokens : ℤ} {parts : ℕ} {s : Pruned} (hbudget : 1 ≤ budgetTokens)
    (h : pruneRound estimateTokens now budgetTokens parts s = none) :
    estimateMessagesTokens estimateTokens s.keptMessages ≤ budgetTokens ∨ parts ≤ 1 ∨
      s.keptMessages.length ≤ 1 := by
  by_contra hnot
  simp only [not_or, not_le] at hnot
  obtain ⟨htokens, hparts, hlength⟩ := hnot
  have hpos : (0 : ℚ) < budgetTokens := by exact_mod_cast (by omega : 0 < budgetTokens)
  have hsplit := two_le_length_splitMessagesByTokenShare (one_lt_normalizeParts hparts hlength) hlength
    (hpos.trans htokens)
  rcases pruneRound_none h with hle | hone
  · exact absurd hle (not_le.mpr htokens)
  · omega

/-- Pruning ends; the history is then in its budget unless there is one message or one part. The messages
that are no results are dropped in order or kept, and every message comes from the input. Where no id is
used twice, every message is kept, dropped or counted as an orphan, and what is counted beyond the input
are the synthetic results. -/
theorem pruneHistoryForContextShare_accounts (params : Params) :
    ∃ result, (∀ fuel, params.messages.length + 2 ≤ fuel →
        pruneHistoryForContextShare estimateTokens now fuel params = some result) ∧
      (result.keptTokens ≤ result.budgetTokens ∨ params.normalizedParts ≤ 1 ∨
        result.messages.length ≤ 1) ∧
      others result.droppedMessagesList ++ others result.messages = others params.messages ∧
      (∀ m ∈ result.messages ++ result.droppedMessagesList, ComesFrom params.messages m) ∧
      (UsedOnce params.messages → ∃ orphans synthetic, (∀ r ∈ orphans, isToolResult r = true) ∧
        (∀ r ∈ synthetic, IsSynthetic r) ∧
        result.droppedMessages = result.droppedMessagesList.length + orphans.length ∧
        PermUpTo SameButName (result.messages ++ result.droppedMessagesList ++ orphans)
          (params.messages ++ synthetic) ∧
        result.messages.length + result.droppedMessages = params.messages.length + synthetic.length) := by
  obtain ⟨last, hlast⟩ : ∃ last, pruneLoop estimateTokens now params.budgetTokens params.normalizedParts
      (params.messages.length + 2) (.init params.messages) = some last := pruneLoop_terminates _
  have hstart : Kept params.messages (.init params.messages) :=
    ⟨rfl, fun m hm => .inl ⟨m, hm, sameButName_refl m⟩, fun m hm => absurd hm not_mem_nil⟩
  obtain ⟨hkept, hend⟩ := pruneLoop_induction (fun s s' => pruneRound_kept) hlast hstart
  refine ⟨⟨last.keptMessages, last.allDroppedMessages, last.droppedChunks, last.droppedMessages,
    last.droppedTokens, estimateMessagesTokens estimateTokens last.keptMessages, params.budgetTokens⟩,
    fun fuel hfuel => ?_, ?_, hkept.others, fun m hm => ?_, fun hused => ?_⟩
  · rw [pruneHistoryForContextShare, pruneLoop_of_le hlast hfuel]
    rfl
  · exact pruneRound_none_of_pos estimateTokens now (le_max_left _ _) hend
  · exact (mem_append.mp hm).elim (hkept.kept m) (hkept.dropped m)
  · have hbalanced : Balanced params.messages (.init params.messages) :=
      ⟨hused, [], [], by simp, by simp, rfl, by
        simp only [Pruned.init, append_nil]
        exact .refl sameButName_refl _⟩
    obtain ⟨⟨-, orphans, synthetic, horphans, hsynthetic, hcount, haccount⟩, -⟩ :=
      pruneLoop_induction (fun s s' => pruneRound_balanced) hlast hbalanced
    refine ⟨orphans, synthetic, horphans, hsynthetic, hcount, haccount, ?_⟩
    have hlength := haccount.length_eq
    simp only [length_append] at hlength
    dsimp only
    omega

/-- A user message of ten tokens, anything else of one. -/
def tenForUsers (msg : AgentMessage) : ℚ := if roleOf msg = some "user" then 10 else 1

/-- A call without a result between two user messages, in three parts and a budget of one token. -/
def unansweredCall : Params where
  messages := [thanks, readCall, thanks]
  maxContextTokens := 2
  maxHistoryShare := none
  parts := some (.ofNat 3)

/-- Another user message. -/
def question : AgentMessage := .obj [("role", .str "user"), ("content", .str "what next")]

/-- A result behind a user message. -/
def displacedResult : Params where
  messages := [thanks, readCall, question, readResult, thanks]
  maxContextTokens := 2
  maxHistoryShare := none
  parts := some (.ofNat 3)

/-- No id is used twice there, so every message is accounted for. -/
theorem pruneHistoryForContextShare_accounts_displaced :
    ∃ result, pruneHistoryForContextShare tenForUsers (fun _ => 0) 7 displacedResult = some result ∧
      ∃ orphans synthetic, (∀ r ∈ synthetic, IsSynthetic r) ∧
        PermUpTo SameButName (result.messages ++ result.droppedMessagesList ++ orphans)
          (displacedResult.messages ++ synthetic) ∧
        result.messages.length + result.droppedMessages = 5 + synthetic.length := by
  obtain ⟨result, hruns, -, -, -, haccount⟩ :=
    pruneHistoryForContextShare_accounts tenForUsers (fun _ => 0) displacedResult
  obtain ⟨orphans, synthetic, -, hsynthetic, -, hperm, hlength⟩ :=
    haccount ⟨by decide +kernel, by decide +kernel⟩
  exact ⟨result, hruns 7 (by decide), orphans, synthetic, hsynthetic, hperm, hlength⟩

/-- What tells the messages of the example apart. -/
def labelOf (msg : AgentMessage) : Option String × Option String :=
  (roleOf msg, textOf ((fieldsOf msg).lookup "content"))

/-- The synthetic result of the call is counted when it is dropped again, so the numbers do not add up;
and a result that was moved is dropped in its new place. No message that is kept, and none that is dropped
in the second run, is synthetic. -/
theorem pruning_miscounts :
    (∃ result, pruneHistoryForContextShare tenForUsers (fun _ => 0) 5 unansweredCall = some result ∧
      result.messages.all (fun m => !isToolResult m) = true ∧
      result.droppedMessages + result.messages.length ≠ unansweredCall.messages.length) ∧
    ∃ result, pruneHistoryForContextShare tenForUsers (fun _ => 0) 7 displacedResult = some result ∧
      result.droppedMessagesList.all (fun m => ((fieldsOf m).lookup "isError").isNone) = true ∧
      ¬ (result.droppedMessagesList.map labelOf).Sublist (displacedResult.messages.map labelOf) := by
  have first : ((pruneHistoryForContextShare tenForUsers (fun _ => 0) 5 unansweredCall).any fun result =>
      result.messages.all (fun m => !isToolResult m) &&
        result.droppedMessages + result.messages.length ≠ unansweredCall.messages.length) = true := by
    decide +kernel
  have second : ((pruneHistoryForContextShare tenForUsers (fun _ => 0) 7 displacedResult).any fun result =>
      result.droppedMessagesList.all (fun m => ((fieldsOf m).lookup "isError").isNone) &&
        result.droppedMessagesList.map labelOf = [(some "user", some "thanks"), (some "assistant", none),
          (some "toolResult", none), (some "user", some "what next")]) = true := by
    decide +kernel
  refine ⟨?_, ?_⟩
  · obtain ⟨result, hresult, hboth⟩ := (Option.any_eq_true _ _).mp first
    rw [Bool.and_eq_true, decide_eq_true_eq] at hboth
    exact ⟨result, hresult, hboth.1, hboth.2⟩
  · obtain ⟨result, hresult, hboth⟩ := (Option.any_eq_true _ _).mp second
    rw [Bool.and_eq_true, decide_eq_true_eq] at hboth
    refine ⟨result, hresult, hboth.1, ?_⟩
    have labels : displacedResult.messages.map labelOf = [(some "user", some "thanks"),
        (some "assistant", none), (some "user", some "what next"), (some "toolResult", none),
        (some "user", some "thanks")] := by
      decide +kernel
    rw [hboth.2, labels]
    decide

end Foxclaw.Agents.Compaction
