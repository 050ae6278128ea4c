import Foxclaw.Lib.CodeUnits
import Foxclaw.Lib.JsNumber
import Mathlib.Data.List.Infix

/-!
# Pruning of the context

This module models `agents/pi-extensions/context-pruning/pruner.ts`: when a session fills its context
window, old tool results are trimmed to their head and tail, and if that is not enough, cleared one by
one until the estimated size is below a second bound.

## The model

Texts are code units, so `length` and `slice` are exact. The length of the serialised arguments of a
tool call, the rounding of a quotient and the tool policy are left open. The counts of the settings are
whole numbers. A `break` of the second loop leaves the state as it is, and then the state of every later
round stops as well.

## What is proved

* `softTrimStep_round`, `hardCleared_rounds` — what the rounds of the loops can do; `run_frame`,
  `run_exact`, `run_shrinks` — what that means for a whole run.
* `pruneContextMessages_frame` — only old prunable tool results change, and the running total is the
  estimate; the estimate falls if no replacement is longer than what it replaces.
* `pruning_grows` — a trimmed result is longer than the result it replaces.
-/

namespace Foxclaw.Agents.ContextPruning

open List Option CodeUnits

/-! ### Messages -/

def IMAGE_CHAR_ESTIMATE : ℕ := 8000

def CHARS_PER_TOKEN_ESTIMATE : ℚ := 4

def PRUNED_CONTEXT_IMAGE_MARKER : CodeUnits := ofString "[image removed during context pruning]"

/-- A block of a user message or of a tool result. -/
inductive Block (β : Type) where
  | text (text : CodeUnits) (textSignature : Option CodeUnits)
  | image (value : β)
  | other (value : β)
  deriving DecidableEq

/-- A block of an assistant message. -/
inductive AssistantBlock (β : Type) where
  /-- A text block, with its other properties. -/
  | text (text : CodeUnits) (rest : β)
  /-- A thinking block, with its other properties. -/
  | thinking (thinking : CodeUnits) (rest : β)
  /-- A tool call, with its other properties. -/
  | toolCall (arguments rest : β)
  | other (value : β)
  deriving DecidableEq

/-- A tool result. -/
structure ToolResultMessage (β : Type) where
  toolCallId : CodeUnits
  toolName : CodeUnits
  content : List (Block β)
  rest : β
  deriving DecidableEq

/-- A message of the session. -/
inductive AgentMessage (β : Type) where
  /-- A user message whose content is a string. -/
  | userText (content : CodeUnits) (rest : β)
  /-- A user message whose content is a list of blocks. -/
  | user (content : List (Block β)) (rest : β)
  | assistant (content : List (AssistantBlock β)) (rest : β)
  | toolResult (msg : ToolResultMessage β)
  | other (value : β)
  deriving DecidableEq

/-- The settings of `EffectiveContextPruningSettings` that are read here. -/
structure Settings where
  keepLastAssistants : ℤ
  softTrimRatio : ℚ
  hardClearRatio : ℚ
  minPrunableToolChars : ℤ
  /-- `softTrim.maxChars`. -/
  maxChars : ℤ
  /-- `softTrim.headChars`. -/
  headChars : ℤ
  /-- `softTrim.tailChars`. -/
  tailChars : ℤ
  hardClearEnabled : Bool
  /-- `hardClear.placeholder`. -/
  placeholder : CodeUnits

/-- The parameters of `pruneContextMessages`, and what is left open. -/
structure Params (β : Type) where
  settings : Settings
  /-- `ctx.model?.contextWindow`. -/
  contextWindow : Option JsNumber
  contextWindowTokensOverride : Option JsNumber
  /-- `isToolPrunable`, or the predicate made from the settings. -/
  isToolPrunable : CodeUnits → Bool
  /-- `JSON.stringify(arguments ?? {}).length`, unless that throws. -/
  argumentsLength : β → Option ℕ
  round : ℚ → ℚ

variable {β : Type}

/-! ### The parts of a tool result -/

def asText (text : CodeUnits) : Block β := .text text none

def collectTextSegments (content : List (Block β)) : List CodeUnits :=
  content.filterMap fun
    | .text text _ => some text
    | _ => none

def collectPrunableToolResultSegments (content : List (Block β)) : List CodeUnits :=
  content.filterMap fun
    | .text text _ => some text
    | .image _ => some PRUNED_CONTEXT_IMAGE_MARKER
    | .other _ => none

def hasImageBlocks (content : List (Block β)) : Bool :=
  content.any fun
    | .image _ => true
    | _ => false

variable (parts : List CodeUnits)

/-- `parts.join("\n")`. -/
def joinLines : CodeUnits := [newline].intercalate parts

def estimateJoinedTextLength : ℕ :=
  if parts = [] then 0 else (parts.map List.length).sum + (parts.length - 1)

/-- The loop of `takeHeadFromJoinedText`; `first` says that the index is `0`. -/
def takeHeadLoop : Bool → List CodeUnits → ℕ → CodeUnits
  | _, [], _ => []
  | _, _ :: _, 0 => []
  | first, p :: parts, remaining + 1 =>
    if first then
      if p.length ≤ remaining + 1 then p ++ takeHeadLoop false parts (remaining + 1 - p.length)
      else p.take (remaining + 1)
    else if remaining = 0 then [newline]
    else if p.length ≤ remaining then newline :: p ++ takeHeadLoop false parts (remaining - p.length)
    else newline :: p.take remaining

def takeHeadFromJoinedText (maxChars : ℕ) : CodeUnits :=
  takeHeadLoop true parts maxChars

/-- The loop of `takeTailFromJoinedText`, over the parts from the last to the first; what it returns is
already reversed and joined. -/
def takeTailLoop : List CodeUnits → ℕ → CodeUnits
  | [], _ => []
  | _ :: _, 0 => []
  | p :: parts, remaining + 1 =>
    if p.length ≤ remaining + 1 then
      if remaining + 1 - p.length = 0 ∨ parts = [] then p
      else takeTailLoop parts (remaining + 1 - p.length - 1) ++ newline :: p
    else p.drop (p.length - (remaining + 1))

def takeTailFromJoinedText (maxChars : ℕ) : CodeUnits :=
  takeTailLoop parts.reverse maxChars

/-! ### Estimates -/

def estimateTextAndImageChars (content : List (Block β)) : ℕ :=
  (content.map fun
    | .text text _ => text.length
    | .image _ => IMAGE_CHAR_ESTIMATE
    | .other _ => 0).sum

/-- What a block of an assistant message adds to the estimate; `128` if its arguments have no text. -/
def assistantBlockChars (argumentsLength : β → Option ℕ) : AssistantBlock β → ℕ
  | .text text _ => text.length
  | .thinking thinking _ => thinking.length
  | .toolCall arguments _ => (argumentsLength arguments).getD 128
  | .other _ => 0

variable (p : Params β)

def estimateMessageChars : AgentMessage β → ℕ
  | .userText content _ => content.length
  | .user content _ => estimateTextAndImageChars content
  | .assistant content _ => (content.map (assistantBlockChars p.argumentsLength)).sum
  | .toolResult msg => estimateTextAndImageChars msg.content
  | .other _ => 256

variable (messages : List (AgentMessage β))

def estimateContextChars : ℕ :=
  (messages.map (estimateMessageChars p)).sum

/-! ### The range that may be pruned -/

def isAssistant : AgentMessage β → Bool
  | .assistant _ _ => true
  | _ => false

def isUser : AgentMessage β → Bool
  | .userText _ _ => true
  | .user _ _ => true
  | _ => false

/-- The loop of `findAssistantCutoffIndex`, below the index `i`. -/
def cutoffBelow (messages : List (AgentMessage β)) : ℤ → ℕ → Option ℕ
  | _, 0 => none
  | remaining, i + 1 =>
    if messages[i]?.any isAssistant then
      if remaining - 1 = 0 then some i else cutoffBelow messages (remaining - 1) i
    else cutoffBelow messages remaining i

def findAssistantCutoffIndex (keepLastAssistants : ℤ) : Option ℕ :=
  if keepLastAssistants ≤ 0 then some messages.length
  else cutoffBelow messages keepLastAssistants messages.length

def findFirstUserIndex : Option ℕ := messages.findIdx? isUser

/-- The tool result at an index, if there is one. -/
def toolResultAt (i : ℕ) : Option (ToolResultMessage β) :=
  match messages[i]? with
  | some (.toolResult msg) => some msg
  | _ => none

/-- The indexes that the first loop collects. -/
def prunableToolIndexes (cutoffIndex : ℕ) : List ℕ :=
  let pruneStartIndex := (findFirstUserIndex messages).getD messages.length
  ((List.range cutoffIndex).drop pruneStartIndex).filter fun i =>
    (toolResultAt messages i).any fun msg => p.isToolPrunable msg.toolName

/-! ### The two replacements -/

/-- The note at the end of a trimmed result. -/
def trimNote (headChars tailChars rawLen : ℕ) : CodeUnits :=
  ofString ("\n\n[Tool result trimmed: kept first " ++ toString headChars ++ " chars and last " ++
    toString tailChars ++ " chars of " ++ toString rawLen ++ " chars.]")

def softTrimToolResultMessage (settings : Settings) (msg : ToolResultMessage β) :
    Option (ToolResultMessage β) :=
  let hasImages := hasImageBlocks msg.content
  let parts :=
    if hasImages then collectPrunableToolResultSegments msg.content else collectTextSegments msg.content
  let rawLen := estimateJoinedTextLength parts
  let joined := { msg with content := [asText (joinLines parts)] }
  if (rawLen : ℤ) ≤ settings.maxChars then
    if hasImages then some joined else none
  else
    let headChars := (max 0 settings.headChars).toNat
    let tailChars := (max 0 settings.tailChars).toNat
    if rawLen ≤ headChars + tailChars then
      if hasImages then some joined else none
    else
      let head := takeHeadFromJoinedText parts headChars
      let tail := takeTailFromJoinedText parts tailChars
      let trimmed := head ++ ofString "\n...\n" ++ tail
      some { msg with content := [asText (trimmed ++ trimNote headChars tailChars rawLen)] }

/-- A cleared tool result. -/
def clearToolResultMessage (settings : Settings) (msg : ToolResultMessage β) : ToolResultMessage β :=
  { msg with content := [asText settings.placeholder] }

/-! ### The loops -/

/-- The state of the loops: the list with the replacements so far, and the running total. -/
structure Pruning (β : Type) where
  /-- `next ?? messages`. -/
  messages : List (AgentMessage β)
  totalChars : ℤ

/-- A tool result is replaced and the total is corrected by the difference. -/
def Pruning.replace (s : Pruning β) (i : ℕ) (msg updated : ToolResultMessage β) : Pruning β where
  messages := s.messages.set i (.toolResult updated)
  totalChars :=
    s.totalChars +
      ((estimateMessageChars p (.toolResult updated) : ℤ) - estimateMessageChars p (.toolResult msg))

/-- One round of the first loop; it reads the message from the input list. -/
def softTrimStep (s : Pruning β) (i : ℕ) : Pruning β :=
  match toolResultAt messages i with
  | none => s
  | some msg =>
    match softTrimToolResultMessage p.settings msg with
    | none => s
    | some updated => s.replace p i msg updated

/-- `totalChars / charWindow`. -/
def ratio (totalChars : ℤ) (charWindow : JsNumber) : ℚ :=
  match charWindow with
  | .fin window => p.round (totalChars / window)
  | _ => 0

/-- The total is below the bound of the second loop. -/
def belowHardClear (charWindow : JsNumber) (s : Pruning β) : Bool :=
  ratio p s.totalChars charWindow < p.settings.hardClearRatio

/-- One round of the second loop. -/
def hardClearStep (charWindow : JsNumber) (s : Pruning β) (i : ℕ) : Pruning β :=
  if belowHardClear p charWindow s then s
  else
    match toolResultAt s.messages i with
    | none => s
    | some msg => s.replace p i msg (clearToolResultMessage p.settings msg)

/-- The first loop, over the indexes it collects. -/
def softTrimmed (indexes : List ℕ) : Pruning β :=
  indexes.foldl (softTrimStep p messages) ⟨messages, estimateContextChars p messages⟩

/-- The second loop. -/
def hardCleared (charWindow : JsNumber) (s : Pruning β) (indexes : List ℕ) : Pruning β :=
  indexes.foldl (hardClearStep p charWindow) s

def prunableToolChars (indexes : List ℕ) : ℕ :=
  (indexes.map fun i =>
    ((toolResultAt messages i).map fun msg => estimateMessageChars p (.toolResult msg)).getD 0).sum

/-- The second loop is reached. -/
def clearsHard (charWindow : JsNumber) (indexes : List ℕ) (s : Pruning β) : Bool :=
  !belowHardClear p charWindow s && p.settings.hardClearEnabled &&
    !decide ((prunableToolChars p s.messages indexes : ℤ) < p.settings.minPrunableToolChars)

/-- The window in characters, if there is one that is positive. -/
def charWindow : Option JsNumber :=
  let contextWindowTokens : Option JsNumber :=
    match p.contextWindowTokensOverride with
    | some (.fin tokens) => if 0 < tokens then some (.fin tokens) else p.contextWindow
    | _ => p.contextWindow
  match contextWindowTokens with
  | some (.fin tokens) => if 0 < tokens then some (.fin (tokens * CHARS_PER_TOKEN_ESTIMATE)) else none
  | some .posInf => some .posInf
  | _ => none

/-- What the loops run with, if the first loop is reached: the window and the indexes. -/
def pruningPlan : Option (JsNumber × List ℕ) :=
  match charWindow p, findAssistantCutoffIndex messages p.settings.keepLastAssistants with
  | some window, some cutoffIndex =>
    if ratio p (estimateContextChars p messages) window < p.settings.softTrimRatio then none
    else some (window, prunableToolIndexes p messages cutoffIndex)
  | _, _ => none

def pruneContextMessages : List (AgentMessage β) :=
  match pruningPlan p messages with
  | none => messages
  | some (window, indexes) =>
    let trimmed := softTrimmed p messages indexes
    if clearsHard p window indexes trimmed then (hardCleared p window trimmed indexes).messages
    else trimmed.messages

/-! ### What a round can do -/

/-- A round leaves the state, or puts a tool result in the place of another at some index. -/
inductive Round (allowed : ℕ → ToolResultMessage β → ToolResultMessage β → Prop) :
    Pruning β → Pruning β → Prop
  /-- Nothing is replaced. -/
  | stays (s : Pruning β) : Round allowed s s
  /-- The result at `i` is replaced. -/
  | replaces (s : Pruning β) (i : ℕ) (msg updated : ToolResultMessage β)
      (found : toolResultAt s.messages i = some msg) (fits : allowed i msg updated) :
      Round allowed s (s.replace p i msg updated)

/-- A run of rounds. -/
abbrev Rounds (allowed : ℕ → ToolResultMessage β → ToolResultMessage β → Prop) :
    Pruning β → Pruning β → Prop :=
  Relation.ReflTransGen (Round p allowed)

/-- The running total is the estimate of the list. -/
def Exact (s : Pruning β) : Prop := s.totalChars = estimateContextChars p s.messages

/-- The identity of a tool result: everything but its content. -/
def SameResult (msg updated : ToolResultMessage β) : Prop :=
  updated.toolCallId = msg.toolCallId ∧ updated.toolName = msg.toolName ∧ updated.rest = msg.rest

/-- How many characters the estimate gives a tool result. -/
abbrev resultChars (msg : ToolResultMessage β) : ℕ := estimateMessageChars p (.toolResult msg)

variable {messages : List (AgentMessage β)} {i : ℕ}

theorem toolResultAt_eq_some {msg : ToolResultMessage β} :
    toolResultAt messages i = some msg ↔ messages[i]? = some (.toolResult msg) := by
  rw [toolResultAt]
  split <;> simp_all

theorem toolResultAt_congr {messages messages' : List (AgentMessage β)}
    (h : messages[i]? = messages'[i]?) : toolResultAt messages i = toolResultAt messages' i := by
  rw [toolResultAt, toolResultAt, h]

theorem toolResultAt_set {msg : ToolResultMessage β}
    (h : toolResultAt messages i = some msg) (updated : ToolResultMessage β) :
    toolResultAt (messages.set i (.toolResult updated)) i = some updated := by
  rw [toolResultAt_eq_some] at h ⊢
  have hlt : i < messages.length := (List.getElem?_eq_some_iff.mp h).1
  simp [hlt]

variable {msg updated : ToolResultMessage β}

theorem softTrim_sameResult {settings : Settings}
    (h : softTrimToolResultMessage settings msg = some updated) : SameResult msg updated := by
  simp only [softTrimToolResultMessage] at h
  split at h <;> split at h <;> try split at h
  all_goals first | contradiction | (obtain rfl := some.inj h; exact ⟨rfl, rfl, rfl⟩)

theorem clear_sameResult (settings : Settings) (msg : ToolResultMessage β) :
    SameResult msg (clearToolResultMessage settings msg) := ⟨rfl, rfl, rfl⟩

section Rounds

variable {p} {allowed : ℕ → ToolResultMessage β → ToolResultMessage β → Prop} {s s' : Pruning β}

theorem estimateContextChars_set {messages : List (AgentMessage β)} {i : ℕ} {old : AgentMessage β}
    (h : messages[i]? = some old) (new : AgentMessage β) :
    (estimateContextChars p (messages.set i new) : ℤ) =
      estimateContextChars p messages + ((estimateMessageChars p new : ℤ) - estimateMessageChars p old) := by
  induction messages generalizing i with
  | nil => simp at h
  | cons first rest ih =>
    cases i with
    | zero =>
      obtain rfl : first = old := by simpa using h
      simp only [estimateContextChars, set_cons_zero, map_cons, sum_cons]
      omega
    | succ i =>
      have hrest := ih (by simpa using h)
      simp only [estimateContextChars, set_cons_succ, map_cons, sum_cons] at hrest ⊢
      omega

theorem round_exact (h : Round p allowed s s') (he : Exact p s) : Exact p s' := by
  cases h with
  | stays => exact he
  | replaces i msg updated found fits =>
    rw [Exact, Pruning.replace, estimateContextChars_set (toolResultAt_eq_some.mp found), he]

theorem run_exact (h : Rounds p allowed s s') (he : Exact p s) : Exact p s' := by
  induction h with
  | refl => exact he
  | tail _ last ih => exact round_exact last ih

/-- The list is that of the start, but for the content of the tool results at some indexes. -/
structure Framed (at_ : ℕ → Prop) (messages messages' : List (AgentMessage β)) : Prop where
  length : messages'.length = messages.length
  /-- The messages elsewhere are the same. -/
  elsewhere : ∀ i, ¬ at_ i → messages'[i]? = messages[i]?
  /-- A tool result keeps its identity. -/
  identity : ∀ i msg, toolResultAt messages i = some msg →
    ∃ updated, toolResultAt messages' i = some updated ∧ SameResult msg updated

theorem Framed.refl (at_ : ℕ → Prop) (messages : List (AgentMessage β)) : Framed at_ messages messages :=
  ⟨rfl, fun _ _ => rfl, fun _ msg h => ⟨msg, h, rfl, rfl, rfl⟩⟩

variable {at_ : ℕ → Prop}

theorem round_frame {messages : List (AgentMessage β)}
    (hallowed : ∀ i msg updated, allowed i msg updated → at_ i ∧ SameResult msg updated)
    (h : Round p allowed s s') (hf : Framed at_ messages s.messages) : Framed at_ messages s'.messages := by
  cases h with
  | stays => exact hf
  | replaces i msg updated found fits =>
    obtain ⟨hi, hsame⟩ := hallowed i msg updated fits
    refine ⟨?_, fun j hj => ?_, fun j old hold => ?_⟩
    · simpa [Pruning.replace] using hf.length
    · have hne : i ≠ j := fun h => hj (h ▸ hi)
      simpa [Pruning.replace, hne] using hf.elsewhere j hj
    · obtain ⟨kept, hkept, hid, hname, hrest⟩ := hf.identity j old hold
      by_cases hij : i = j
      · subst hij
        obtain rfl : msg = kept := some.inj (found.symm.trans hkept)
        refine ⟨updated, toolResultAt_set found updated, ?_⟩
        exact ⟨hsame.1.trans hid, hsame.2.1.trans hname, hsame.2.2.trans hrest⟩
      · refine ⟨kept, ?_, hid, hname, hrest⟩
        rw [← hkept]
        exact toolResultAt_congr (by simp [Pruning.replace, hij])

theorem run_frame (hallowed : ∀ i msg updated, allowed i msg updated → at_ i ∧ SameResult msg updated)
    (h : Rounds p allowed s s') : Framed at_ s.messages s'.messages := by
  induction h with
  | refl => exact Framed.refl at_ s.messages
  | tail _ last ih => exact round_frame hallowed last ih

/-- No replacement is longer than what it replaces: the total does not rise. -/
theorem run_shrinks
    (hallowed : ∀ i msg updated, allowed i msg updated → resultChars p updated ≤ resultChars p msg)
    (h : Rounds p allowed s s') : s'.totalChars ≤ s.totalChars := by
  induction h with
  | refl => exact le_refl _
  | tail _ last ih =>
    cases last with
    | stays => exact ih
    | replaces i msg updated found fits =>
      have hle := hallowed i msg updated fits
      simp only [Pruning.replace, resultChars] at hle ⊢
      omega

/-- Every replacement is longer than what it replaces: the total rises, or nothing was replaced. -/
theorem run_grows
    (hallowed : ∀ i msg updated, allowed i msg updated → resultChars p msg < resultChars p updated)
    (h : Rounds p allowed s s') : s' = s ∨ s.totalChars < s'.totalChars := by
  induction h with
  | refl => exact .inl rfl
  | tail _ last ih =>
    cases last with
    | stays => exact ih
    | replaces i msg updated found fits =>
      have hlt := hallowed i msg updated fits
      right
      simp only [Pruning.replace, resultChars] at hlt ⊢
      rcases ih with rfl | ih <;> omega

end Rounds

/-! ### The loops as runs -/

variable {allowed : ℕ → ToolResultMessage β → ToolResultMessage β → Prop} {s : Pruning β}

theorem softTrimStep_round
    (hi : s.messages[i]? = messages[i]?)
    (hallowed : ∀ msg updated, toolResultAt messages i = some msg →
      softTrimToolResultMessage p.settings msg = some updated → allowed i msg updated) :
    Round p allowed s (softTrimStep p messages s i) := by
  rw [softTrimStep]
  split
  next => exact .stays s
  next msg hmsg =>
    split
    next => exact .stays s
    next updated htrim =>
      exact .replaces s i msg updated ((toolResultAt_congr hi).trans hmsg) (hallowed msg updated hmsg htrim)

theorem softTrimStep_getElem? {i j : ℕ} (h : i ≠ j) :
    (softTrimStep p messages s i).messages[j]? = s.messages[j]? := by
  rw [softTrimStep]
  split
  next => rfl
  next =>
    split
    next => rfl
    next => simp [Pruning.replace, h]

variable {indexes : List ℕ}

/-- The first loop is a run. An index is visited once, so the message there is still that of the input. -/
theorem softTrimmed_rounds
    (hnodup : indexes.Nodup)
    (hallowed : ∀ i ∈ indexes, ∀ msg updated, toolResultAt messages i = some msg →
      softTrimToolResultMessage p.settings msg = some updated → allowed i msg updated) :
    Rounds p allowed ⟨messages, estimateContextChars p messages⟩ (softTrimmed p messages indexes) := by
  have hstart : ∀ j ∈ indexes,
      (⟨messages, estimateContextChars p messages⟩ : Pruning β).messages[j]? = messages[j]? :=
    fun _ _ => rfl
  rw [softTrimmed]
  generalize (⟨messages, estimateContextChars p messages⟩ : Pruning β) = s at hstart ⊢
  induction indexes generalizing s with
  | nil => exact .refl
  | cons i indexes ih =>
    obtain ⟨hi, hnodup⟩ := nodup_cons.mp hnodup
    have first := softTrimStep_round p (hstart i mem_cons_self) (hallowed i mem_cons_self)
    refine .head first (ih hnodup (fun j hj => hallowed j (mem_cons_of_mem _ hj)) _ fun j hj => ?_)
    rw [softTrimStep_getElem? p fun h : i = j => hi (h ▸ hj)]
    exact hstart j (mem_cons_of_mem _ hj)

variable {window : JsNumber}

/-- The second loop is a run. -/
theorem hardCleared_rounds
    (hallowed : ∀ k i msg, indexes[k]? = some i →
      ¬ belowHardClear p window (hardCleared p window s (indexes.take k)) →
      toolResultAt (hardCleared p window s (indexes.take k)).messages i = some msg →
      allowed i msg (clearToolResultMessage p.settings msg)) :
    Rounds p allowed s (hardCleared p window s indexes) := by
  induction indexes generalizing s with
  | nil => exact .refl
  | cons i indexes ih =>
    have first : Round p allowed s (hardClearStep p window s i) := by
      rw [hardClearStep]
      split
      next => exact .stays s
      next habove =>
        split
        next => exact .stays s
        next msg hmsg => exact .replaces s i msg _ hmsg (hallowed 0 i msg rfl habove hmsg)
    exact .head first (ih fun k => hallowed (k + 1))

/-! ### The range -/

/-- A message that pruning leaves alone: it stands before the first user message, at or behind the
cutoff, or is no prunable tool result. -/
def Protected (messages : List (AgentMessage β)) (i : ℕ) : Prop :=
  (∀ m ∈ messages.take (i + 1), isUser m = false) ∨
    (∀ cutoffIndex,
      findAssistantCutoffIndex messages p.settings.keepLastAssistants = some cutoffIndex →
        cutoffIndex ≤ i) ∨
    ∀ msg, toolResultAt messages i = some msg → p.isToolPrunable msg.toolName = false

theorem prunableToolIndexes_nodup (messages : List (AgentMessage β)) (cutoffIndex : ℕ) :
    (prunableToolIndexes p messages cutoffIndex).Nodup :=
  ((nodup_range).sublist (drop_sublist _ _)).filter _

theorem mem_prunableToolIndexes {cutoffIndex i : ℕ} (h : i ∈ prunableToolIndexes p messages cutoffIndex) :
    (findFirstUserIndex messages).getD messages.length ≤ i ∧ i < cutoffIndex ∧
      ∃ msg, toolResultAt messages i = some msg ∧ p.isToolPrunable msg.toolName = true := by
  obtain ⟨hmem, hmsg⟩ := mem_filter.mp h
  obtain ⟨j, hj, rfl⟩ := mem_iff_getElem.mp hmem
  simp only [length_drop, length_range] at hj
  simp only [getElem_drop, getElem_range] at hmsg ⊢
  exact ⟨by omega, by omega, (Option.any_eq_true _ _).mp hmsg⟩

/-- A message at an index of the loops is not protected. -/
theorem not_protected_of_mem {cutoffIndex i : ℕ}
    (hcutoff : findAssistantCutoffIndex messages p.settings.keepLastAssistants = some cutoffIndex)
    (h : i ∈ prunableToolIndexes p messages cutoffIndex) : ¬ Protected p messages i := by
  obtain ⟨hstart, hlt, msg, hmsg, hprunable⟩ := mem_prunableToolIndexes p h
  rintro (hbefore | hbehind | hother)
  · have hi : i < messages.length :=
      (List.getElem?_eq_some_iff.mp (toolResultAt_eq_some.mp hmsg)).1
    cases hu : findFirstUserIndex messages with
    | none =>
      rw [hu, getD_none] at hstart
      omega
    | some u =>
      rw [hu, getD_some] at hstart
      obtain ⟨hulen, huser, -⟩ := findIdx?_eq_some_iff_getElem.mp hu
      have hmem : messages[u] ∈ messages.take (i + 1) :=
        mem_take_iff_getElem.mpr ⟨u, by omega, rfl⟩
      rw [hbefore _ hmem] at huser
      exact Bool.false_ne_true huser
  · have := hbehind cutoffIndex hcutoff
    omega
  · rw [hother msg hmsg] at hprunable
    exact Bool.false_ne_true hprunable

/-! ### The whole pruning -/

/-- The replacements of a run: at an index, one tool result gives way to another. -/
inductive Puts (messages : List (AgentMessage β)) :
    ℕ → ToolResultMessage β → ToolResultMessage β → Prop
  | softTrims {window : JsNumber} {indexes : List ℕ} {i : ℕ} {msg updated : ToolResultMessage β}
      (plan : pruningPlan p messages = some (window, indexes)) (mem : i ∈ indexes)
      (found : toolResultAt messages i = some msg)
      (trims : softTrimToolResultMessage p.settings msg = some updated) :
      Puts messages i msg updated
  /-- The second loop clears a result, in a round that is reached with the total above the bound. -/
  | hardClears {window : JsNumber} {indexes : List ℕ} {k i : ℕ} {msg : ToolResultMessage β}
      (plan : pruningPlan p messages = some (window, indexes))
      (clears : clearsHard p window indexes (softTrimmed p messages indexes) = true)
      (atk : indexes[k]? = some i)
      (above : ¬ belowHardClear p window
        (hardCleared p window (softTrimmed p messages indexes) (indexes.take k)))
      (found : toolResultAt
        (hardCleared p window (softTrimmed p messages indexes) (indexes.take k)).messages i = some msg) :
      Puts messages i msg (clearToolResultMessage p.settings msg)

theorem pruningPlan_eq_some (h : pruningPlan p messages = some (window, indexes)) :
    ∃ cutoffIndex,
      findAssistantCutoffIndex messages p.settings.keepLastAssistants = some cutoffIndex ∧
        indexes = prunableToolIndexes p messages cutoffIndex := by
  rw [pruningPlan] at h
  split at h
  next window' cutoffIndex _ hcutoff =>
    split at h
    next => simp at h
    next => exact ⟨cutoffIndex, hcutoff, by simp_all⟩
  next => simp at h

theorem pruningPlan_nodup (h : pruningPlan p messages = some (window, indexes)) : indexes.Nodup := by
  obtain ⟨cutoffIndex, -, rfl⟩ := pruningPlan_eq_some p h
  exact prunableToolIndexes_nodup p messages cutoffIndex

/-- A replacement is at an index that is not protected and keeps the identity of the result. -/
theorem Puts.framed
    (h : Puts p messages i msg updated) : ¬ Protected p messages i ∧ SameResult msg updated := by
  cases h with
  | softTrims plan mem found trims =>
    obtain ⟨cutoffIndex, hcutoff, rfl⟩ := pruningPlan_eq_some p plan
    exact ⟨not_protected_of_mem p hcutoff mem, softTrim_sameResult trims⟩
  | hardClears plan clears atk above found =>
    obtain ⟨cutoffIndex, hcutoff, rfl⟩ := pruningPlan_eq_some p plan
    exact ⟨not_protected_of_mem p hcutoff (mem_of_getElem? atk), clear_sameResult _ msg⟩

/-- The result is that of a run from the input whose rounds make the replacements. -/
theorem pruneContextMessages_rounds (messages : List (AgentMessage β)) :
    ∃ s, Rounds p (Puts p messages) ⟨messages, estimateContextChars p messages⟩ s ∧
      s.messages = pruneContextMessages p messages := by
  rw [pruneContextMessages]
  split
  next => exact ⟨_, .refl, rfl⟩
  next window indexes plan =>
    have soft : Rounds p (Puts p messages) _ (softTrimmed p messages indexes) :=
      softTrimmed_rounds p (pruningPlan_nodup p plan) fun i hi msg updated hmsg htrim =>
        .softTrims plan hi hmsg htrim
    by_cases clears : clearsHard p window indexes (softTrimmed p messages indexes) = true
    · have hard : Rounds p (Puts p messages) _
          (hardCleared p window (softTrimmed p messages indexes) indexes) :=
        hardCleared_rounds p fun k i msg hk habove hmsg => .hardClears plan clears hk habove hmsg
      exact ⟨_, soft.trans hard, by simp only [if_pos clears]⟩
    · exact ⟨_, soft, by simp only [if_neg clears]⟩

/-- The total is exact in front of every round of both loops. -/
theorem pruning_exact (plan : pruningPlan p messages = some (window, indexes)) (k : ℕ) :
    Exact p (softTrimmed p messages (indexes.take k)) ∧
      Exact p (hardCleared p window (softTrimmed p messages indexes) (indexes.take k)) := by
  have anyRun : ∀ taken : List ℕ, taken.Nodup → Exact p (softTrimmed p messages taken) := by
    intro taken hnodup
    have run : Rounds p (fun _ _ _ => True) _ (softTrimmed p messages taken) :=
      softTrimmed_rounds p hnodup fun _ _ _ _ _ _ => trivial
    exact run_exact run rfl
  refine ⟨anyRun _ ((pruningPlan_nodup p plan).sublist (take_sublist k indexes)), ?_⟩
  have run : Rounds p (fun _ _ _ => True) (softTrimmed p messages indexes)
      (hardCleared p window (softTrimmed p messages indexes) (indexes.take k)) :=
    hardCleared_rounds p fun _ _ _ _ _ _ => trivial
  exact run_exact run (anyRun indexes (pruningPlan_nodup p plan))

/-- Pruning keeps the length, leaves protected messages alone, changes no more of a tool result than its
content, and counts exactly. The estimate does not rise if no replacement is longer than what it
replaces; it does rise if every replacement is longer and there is one. -/
theorem pruneContextMessages_frame (messages : List (AgentMessage β)) :
    (pruneContextMessages p messages).length = messages.length ∧
      (∀ i, Protected p messages i → (pruneContextMessages p messages)[i]? = messages[i]?) ∧
      (∀ i msg, toolResultAt messages i = some msg →
        ∃ updated, toolResultAt (pruneContextMessages p messages) i = some updated ∧
          SameResult msg updated) ∧
      (∀ window indexes, pruningPlan p messages = some (window, indexes) → ∀ k,
        Exact p (softTrimmed p messages (indexes.take k)) ∧
          Exact p (hardCleared p window (softTrimmed p messages indexes) (indexes.take k))) ∧
      ((∀ i msg updated, Puts p messages i msg updated → resultChars p updated ≤ resultChars p msg) →
        estimateContextChars p (pruneContextMessages p messages) ≤ estimateContextChars p messages) ∧
      ((∀ i msg updated, Puts p messages i msg updated → resultChars p msg < resultChars p updated) →
        pruneContextMessages p messages = messages ∨
          estimateContextChars p messages < estimateContextChars p (pruneContextMessages p messages)) := by
  obtain ⟨s, run, hs⟩ := pruneContextMessages_rounds p messages
  have framed : Framed (fun i => ¬ Protected p messages i) messages s.messages :=
    run_frame (fun i msg updated h => h.framed p) run
  have total : s.totalChars = estimateContextChars p s.messages := run_exact run rfl
  rw [← hs]
  refine ⟨framed.length, fun i hi => framed.elsewhere i (not_not.mpr hi), framed.identity,
    fun window indexes plan k => pruning_exact p plan k, fun hle => ?_, fun hlt => ?_⟩
  · have := run_shrinks hle run
    simp only at this
    omega
  · rcases run_grows hlt run with rfl | hrise
    · exact .inl rfl
    · right
      simp only at hrise
      omega

/-- The settings of the example below: four characters are too many, and two and one of them are kept. -/
def tightSettings : Settings where
  keepLastAssistants := 0
  softTrimRatio := 0
  hardClearRatio := 1
  minPrunableToolChars := 0
  maxChars := 3
  headChars := 2
  tailChars := 1
  hardClearEnabled := false
  placeholder := ofString "[Old tool result content cleared]"

/-- A user asks, and a tool answers with four characters. -/
def shortAnswer : List (AgentMessage Unit) :=
  [.userText (ofString "ask") (),
    .toolResult ⟨ofString "call1", ofString "exec", [asText (ofString "abcd")], ()⟩]

/-- Pruning without rounding, with a window of 256 tokens. -/
def tightParams : Params Unit where
  settings := tightSettings
  contextWindow := some (.fin 256)
  contextWindowTokensOverride := none
  isToolPrunable _ := true
  argumentsLength _ := some 2
  round q := q

/-- A text of four characters gives way to head, tail and a note of many more. -/
theorem pruning_grows :
    estimateContextChars tightParams shortAnswer <
      estimateContextChars tightParams (pruneContextMessages tightParams shortAnswer) := by
  decide +kernel

end Foxclaw.Agents.ContextPruning
