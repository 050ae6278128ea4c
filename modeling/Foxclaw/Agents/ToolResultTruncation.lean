import Foxclaw.Lib.CodeUnits
import Mathlib.Algebra.BigOperators.Group.List.Lemmas
import Mathlib.Algebra.Order.BigOperators.Group.List
import Mathlib.Data.Int.Log
import Mathlib.Data.Rat.Floor
import Mathlib.Tactic.Ring

/-!
# Truncation of tool results

This module models `agents/pi-embedded-runner/tool-result-truncation.ts` and `capToolResultSize` of
`agents/session-tool-result-guard.ts`: a tool result whose texts are too long is cut, block by block,
each to its share of the limit.

## The model

Texts are code units, so `length` and `slice` are exact. The share of a block, `maxChars * (length / total)`,
is rounded twice, to doubles (`double`), before its floor is taken: it may be one less than that of the exact
share. A factor like `0.8` is a fraction: where it gives an integer, the product of doubles is rounded to
that integer. `toLowerCase` is left open. A block is a text block or something else, which no function
here looks at; the other properties of blocks and messages are kept along.

## What is proved

* `length_truncateToolResultText_le` — a text is cut to its limit, if that leaves room for the suffix.
* `length_truncateToolResultText_plain` — a text without line breaks is cut to exactly its limit.
* `cap_kept_iff` — the limit is kept for all messages with blocks of given lengths exactly when the
  budgets of the blocks, each at least `minKeepChars` and the suffix, fit into it.
* `guard_exceeds_cap` — 187 blocks of 3000 units are left above `HARD_MAX_TOOL_RESULT_CHARS`.
-/

namespace Foxclaw.Agents.Truncation

open List CodeUnits

/-! ### Texts -/

def HARD_MAX_TOOL_RESULT_CHARS : ℕ := 400000

def MIN_KEEP_CHARS : ℕ := 2000

def GUARD_TRUNCATION_SUFFIX : CodeUnits :=
  ofString ("\n\n⚠️ [Content truncated during persistence — original exceeded size limit. " ++
    "Use offset/limit parameters or request specific sections for large content.]")

def MIDDLE_OMISSION_MARKER : CodeUnits :=
  ofString "\n\n⚠️ [... middle content omitted — showing head and tail ...]\n\n"

/-- A unit of the class `\w`. -/
def isWordUnit (c : UInt16) : Bool :=
  (48 ≤ c && c ≤ 57) || (65 ≤ c && c ≤ 90) || (97 ≤ c && c ≤ 122) || c = 95

/-- A word stands in the text between boundaries; the text is behind the unit `before?`. -/
def hasWordAfter (words : List CodeUnits) : Option UInt16 → CodeUnits → Bool
  | _, [] => false
  | before?, c :: rest =>
    (!before?.any isWordUnit && words.any fun word =>
      word.isPrefixOf (c :: rest) && !((c :: rest).drop word.length).head?.any isWordUnit) ||
      hasWordAfter words (some c) rest

/-- The words of the first test of `hasImportantTail`. -/
def errorWords : List CodeUnits :=
  ["error", "exception", "failed", "fatal", "traceback", "panic", "stack trace", "errno",
    "exit code"].map ofString

/-- The words of the last test. -/
def summaryWords : List CodeUnits :=
  ["total", "summary", "result", "complete", "finished", "done"].map ofString

/-- The code unit of a closing brace. -/
def closingBrace : UInt16 := 125

variable (toLowerCase : CodeUnits → CodeUnits)

def hasImportantTail (text : CodeUnits) : Bool :=
  let tail := toLowerCase (text.drop (text.length - 2000))
  hasWordAfter errorWords none tail || (tail.rdropWhile isSpace).getLast? = some closingBrace ||
    hasWordAfter summaryWords none tail

/-- `text.lastIndexOf("\n", index)`. -/
def lastNewline (text : CodeUnits) (index : ℕ) : Option ℕ :=
  (List.range (min (index + 1) text.length)).reverse.find? fun i => text[i]? = some newline

/-- `text.indexOf("\n", index)`. -/
def firstNewline (text : CodeUnits) (index : ℕ) : Option ℕ :=
  ((List.range text.length).drop index).find? fun i => text[i]? = some newline

/-- The last line break before the cut, if it is near: above four fifths of it. -/
def cleanCut (text : CodeUnits) (cut : ℕ) : ℕ :=
  match lastNewline text cut with
  | some i => if 4 * cut < 5 * i then i else cut
  | none => cut

/-- The first line break of the tail, if it is near: in the first fifth of it. -/
def cleanTail (text : CodeUnits) (tailStart tailBudget : ℕ) : ℕ :=
  match firstNewline text tailStart with
  | some i => if 5 * i < 5 * tailStart + tailBudget then i + 1 else tailStart
  | none => tailStart

def truncateToolResultText (text : CodeUnits) (maxChars : ℕ) (suffix : CodeUnits) (minKeepChars : ℕ) :
    CodeUnits :=
  if text.length ≤ maxChars then text
  else
    let budget := max minKeepChars (maxChars - suffix.length)
    let tailBudget := min (budget * 3 / 10) 4000
    let headBudget := budget - tailBudget - MIDDLE_OMISSION_MARKER.length
    if (hasImportantTail toLowerCase text && 2 * minKeepChars < budget) = true ∧ minKeepChars < headBudget then
      let tailStart := cleanTail text (text.length - tailBudget) tailBudget
      text.take (cleanCut text headBudget) ++ MIDDLE_OMISSION_MARKER ++ text.drop tailStart ++ suffix
    else text.take (cleanCut text budget) ++ suffix

/-! ### Doubles -/

/-- The nearest integer, the even one of two. -/
def roundEven (q : ℚ) : ℤ :=
  if Int.fract q < 1 / 2 ∨ (Int.fract q = 1 / 2 ∧ 2 ∣ ⌊q⌋) then ⌊q⌋ else ⌊q⌋ + 1

/-- The double nearest to a number of the normal range: 53 bits are kept. -/
def double (q : ℚ) : ℚ :=
  let ulp : ℚ := 2 ^ (Int.log 2 |q| - 52)
  roundEven (q / ulp) * ulp

/-! ### Messages -/

/-- A block of the content of a message. -/
inductive Block (β : Type) where
  /-- A text block: its text, and its other properties. -/
  | text (text : CodeUnits) (rest : β)
  | other (value : β)
  deriving DecidableEq

/-- A message. -/
structure Message (β : Type) where
  /-- `role` is `toolResult`. -/
  isToolResult : Bool
  /-- `content`, if it is an array. -/
  content : Option (List (Block β))
  rest : β
  deriving DecidableEq

variable {β : Type}

/-- The text of a block. -/
def Block.text? : Block β → Option CodeUnits
  | text t _ => some t
  | other _ => none

/-- The lengths of the texts of a content. -/
def textLengths (content : List (Block β)) : List ℕ := content.filterMap fun b => b.text?.map List.length

variable (msg : Message β)

def getToolResultTextLength : ℕ :=
  match msg.isToolResult, msg.content with
  | true, some content => (textLengths content).sum
  | _, _ => 0

variable (maxChars minKeepChars suffixLength total length : ℕ)

def blockBudget : ℕ :=
  let blockShare := double (length / total)
  max (minKeepChars + suffixLength) ⌊double (maxChars * blockShare)⌋₊

/-- What becomes of a block. -/
def truncateBlock (maxChars : ℕ) (suffix : CodeUnits) (minKeepChars total : ℕ) : Block β → Block β
  | .text t rest =>
    .text (truncateToolResultText toLowerCase t
      (blockBudget maxChars minKeepChars suffix.length total t.length) suffix minKeepChars) rest
  | .other value => .other value

def truncateToolResultMessage (maxChars : ℕ) (suffix : CodeUnits) (minKeepChars : ℕ) : Message β :=
  match msg.content with
  | none => msg
  | some content =>
    let totalTextChars := getToolResultTextLength msg
    if totalTextChars ≤ maxChars then msg
    else
      let newContent := content.map (truncateBlock toLowerCase maxChars suffix minKeepChars totalTextChars)
      { msg with content := some newContent }

def capToolResultSize : Message β :=
  if msg.isToolResult then
    truncateToolResultMessage toLowerCase msg HARD_MAX_TOOL_RESULT_CHARS GUARD_TRUNCATION_SUFFIX
      MIN_KEEP_CHARS
  else msg

/-! ### The length of a text that was cut -/

theorem lastNewline_le {text : CodeUnits} {index i : ℕ} (h : lastNewline text index = some i) :
    i ≤ index := by
  have hmem := mem_of_find?_eq_some h
  rw [mem_reverse, mem_range] at hmem
  omega

theorem cleanCut_le (text : CodeUnits) (cut : ℕ) : cleanCut text cut ≤ cut := by
  unfold cleanCut
  cases h : lastNewline text cut with
  | none => exact le_rfl
  | some i =>
    dsimp only
    split
    · exact lastNewline_le h
    · exact le_rfl

theorem le_cleanTail (text : CodeUnits) (tailStart tailBudget : ℕ) :
    tailStart ≤ cleanTail text tailStart tailBudget := by
  unfold cleanTail
  cases h : firstNewline text tailStart with
  | none => exact le_rfl
  | some i =>
    have hmem := mem_of_find?_eq_some h
    obtain ⟨j, hj, rfl⟩ := getElem_of_mem hmem
    dsimp only
    split
    · rw [getElem_drop, getElem_range]
      omega
    · exact le_rfl

/-- A text is cut to its limit, if that leaves room for the suffix. -/
theorem length_truncateToolResultText_le (text suffix : CodeUnits) {maxChars minKeepChars : ℕ}
    (h : minKeepChars + suffix.length ≤ maxChars) :
    (truncateToolResultText toLowerCase text maxChars suffix minKeepChars).length ≤
      min text.length maxChars := by
  unfold truncateToolResultText
  split
  · rename_i hshort
    omega
  · rename_i hlong
    dsimp only
    have hbudget : max minKeepChars (maxChars - suffix.length) + suffix.length = maxChars := by omega
    generalize max minKeepChars (maxChars - suffix.length) = budget at hbudget ⊢
    split
    · rename_i hhead
      have hcut := cleanCut_le text (budget - min (budget * 3 / 10) 4000 - MIDDLE_OMISSION_MARKER.length)
      have htail := le_cleanTail text (text.length - min (budget * 3 / 10) 4000) (min (budget * 3 / 10) 4000)
      simp only [length_append, length_take, length_drop]
      omega
    · have hcut := cleanCut_le text budget
      simp only [length_append, length_take]
      omega

/-- A text without line breaks. -/
def Plain (text : CodeUnits) : Prop := ∀ c ∈ text, c ≠ newline

theorem Plain.getElem? {text : CodeUnits} (h : Plain text) (i : ℕ) : text[i]? ≠ some newline := by
  intro hi
  exact h newline (mem_of_getElem? hi) rfl

theorem Plain.cleanCut_eq {text : CodeUnits} (h : Plain text) (cut : ℕ) : cleanCut text cut = cut := by
  have hnone : lastNewline text cut = none := List.find?_eq_none.mpr fun i _ => by simpa using h.getElem? i
  rw [cleanCut, hnone]

theorem Plain.cleanTail_eq {text : CodeUnits} (h : Plain text) (tailStart tailBudget : ℕ) :
    cleanTail text tailStart tailBudget = tailStart := by
  have hnone : firstNewline text tailStart = none :=
    List.find?_eq_none.mpr fun i _ => by simpa using h.getElem? i
  rw [cleanTail, hnone]

/-- A text without line breaks is cut to exactly its limit. -/
theorem length_truncateToolResultText_plain {text : CodeUnits} (hplain : Plain text) (suffix : CodeUnits)
    {maxChars minKeepChars : ℕ} (h : minKeepChars + suffix.length ≤ maxChars) :
    (truncateToolResultText toLowerCase text maxChars suffix minKeepChars).length =
      min text.length maxChars := by
  unfold truncateToolResultText
  split
  · rename_i hshort
    omega
  · rename_i hlong
    dsimp only
    have hbudget : max minKeepChars (maxChars - suffix.length) + suffix.length = maxChars := by omega
    generalize max minKeepChars (maxChars - suffix.length) = budget at hbudget ⊢
    split
    · rename_i hhead
      simp only [hplain.cleanCut_eq, hplain.cleanTail_eq, length_append, length_take, length_drop]
      omega
    · simp only [hplain.cleanCut_eq, length_append, length_take]
      omega

/-! ### The length of a message that was cut -/

/-- What the budgets allow: the lengths of the texts, each cut to its budget. -/
def allowedLength (maxChars minKeepChars suffixLength : ℕ) (lengths : List ℕ) : ℕ :=
  (lengths.map fun length =>
    min length (blockBudget maxChars minKeepChars suffixLength lengths.sum length)).sum

/-- The share of the first block is rounded down to 3130, the exact one being 3131. -/
example : allowedLength 400000 2000 151 [6262, 789438, 4300] = 400000 := by decide +kernel

theorem textLengths_cons_text (t : CodeUnits) (rest : β) (content : List (Block β)) :
    textLengths (.text t rest :: content) = t.length :: textLengths content := rfl

theorem le_blockBudget :
    minKeepChars + suffixLength ≤ blockBudget maxChars minKeepChars suffixLength total length :=
  le_max_left _ _

/-- The blocks of a message are cut to their budgets. -/
theorem sum_textLengths_truncateBlock_le (maxChars : ℕ) (suffix : CodeUnits) (minKeepChars total : ℕ)
    (content : List (Block β)) :
    (textLengths (content.map (truncateBlock toLowerCase maxChars suffix minKeepChars total))).sum ≤
      ((textLengths content).map fun length =>
        min length (blockBudget maxChars minKeepChars suffix.length total length)).sum := by
  induction content with
  | nil => exact le_rfl
  | cons block content ih =>
    cases block with
    | text t rest =>
      have ht := length_truncateToolResultText_le toLowerCase t suffix
        (le_blockBudget maxChars minKeepChars suffix.length total t.length)
      simp only [map_cons, truncateBlock, textLengths_cons_text, sum_cons]
      omega
    | other value => exact ih

/-- Without line breaks, to exactly their budgets. -/
theorem sum_textLengths_truncateBlock_plain (maxChars : ℕ) (suffix : CodeUnits) (minKeepChars total : ℕ)
    {content : List (Block β)} (hplain : ∀ b ∈ content, ∀ t, b.text? = some t → Plain t) :
    (textLengths (content.map (truncateBlock toLowerCase maxChars suffix minKeepChars total))).sum =
      ((textLengths content).map fun length =>
        min length (blockBudget maxChars minKeepChars suffix.length total length)).sum := by
  induction content with
  | nil => rfl
  | cons block content ih =>
    obtain ⟨hblock, hcontent⟩ := forall_mem_cons.mp hplain
    cases block with
    | text t rest =>
      have ht := length_truncateToolResultText_plain toLowerCase (hblock t rfl) suffix
        (le_blockBudget maxChars minKeepChars suffix.length total t.length)
      simp only [map_cons, truncateBlock, textLengths_cons_text, sum_cons]
      rw [ht, ih hcontent]
    | other value => exact ih hcontent

variable {msg : Message β}

/-- What a message looks like after truncation. -/
theorem truncateToolResultMessage_eq (hrole : msg.isToolResult = true) {content : List (Block β)}
    (hcontent : msg.content = some content) (maxChars : ℕ) (suffix : CodeUnits) (minKeepChars : ℕ) :
    truncateToolResultMessage toLowerCase msg maxChars suffix minKeepChars =
      if (textLengths content).sum ≤ maxChars then msg
      else { msg with content := some (content.map
        (truncateBlock toLowerCase maxChars suffix minKeepChars (textLengths content).sum)) } := by
  unfold truncateToolResultMessage getToolResultTextLength
  rw [hrole, hcontent]

/-- A message that is within the limit is not changed. -/
theorem truncateToolResultMessage_of_le {maxChars : ℕ}
    (h : getToolResultTextLength msg ≤ maxChars) (suffix : CodeUnits) (minKeepChars : ℕ) :
    truncateToolResultMessage toLowerCase msg maxChars suffix minKeepChars = msg := by
  unfold truncateToolResultMessage
  split
  · rfl
  · exact if_pos h

/-- Texts of the given lengths, without line breaks. -/
def plainMessage (rest : β) (lengths : List ℕ) : Message β :=
  ⟨true, some (lengths.map fun length => .text (List.replicate length 120) rest), rest⟩

theorem textLengths_plain (rest : β) (lengths : List ℕ) :
    textLengths (lengths.map fun length => Block.text (List.replicate length 120) rest) = lengths := by
  induction lengths with
  | nil => rfl
  | cons length lengths ih => rw [map_cons, textLengths_cons_text, ih, length_replicate]

/-- How long a message without line breaks is after truncation. -/
theorem getToolResultTextLength_plainMessage (rest : β) {lengths : List ℕ} {maxChars : ℕ}
    (hlong : maxChars < lengths.sum) (suffix : CodeUnits) (minKeepChars : ℕ) :
    getToolResultTextLength (truncateToolResultMessage toLowerCase (plainMessage rest lengths) maxChars
      suffix minKeepChars) = allowedLength maxChars minKeepChars suffix.length lengths := by
  rw [truncateToolResultMessage_eq toLowerCase rfl rfl, textLengths_plain, if_neg (not_le.mpr hlong)]
  show (textLengths _).sum = _
  rw [sum_textLengths_truncateBlock_plain, textLengths_plain, allowedLength]
  intro b hb t ht
  obtain ⟨length, -, rfl⟩ := List.mem_map.mp hb
  cases ht
  intro c hc
  rw [eq_of_mem_replicate hc]
  decide

/-- A message is cut to what its budgets allow. -/
theorem getToolResultTextLength_truncate_le (hrole : msg.isToolResult = true)
    {content : List (Block β)} (hcontent : msg.content = some content) {maxChars : ℕ} {suffix : CodeUnits}
    {minKeepChars : ℕ}
    (h : (textLengths content).sum ≤ maxChars ∨
      allowedLength maxChars minKeepChars suffix.length (textLengths content) ≤ maxChars) :
    getToolResultTextLength (truncateToolResultMessage toLowerCase msg maxChars suffix minKeepChars) ≤
      maxChars := by
  rw [truncateToolResultMessage_eq toLowerCase hrole hcontent]
  split
  · rename_i hshort
    unfold getToolResultTextLength
    rw [hrole, hcontent]
    exact hshort
  · rename_i hlong
    have hsum := sum_textLengths_truncateBlock_le toLowerCase maxChars suffix minKeepChars
      (textLengths content).sum content
    unfold getToolResultTextLength
    rw [hrole]
    exact hsum.trans (h.resolve_left hlong)

/-- The limit is kept for all messages with blocks of given lengths exactly when they are within the
limit, or their budgets are; a message within the limit is not changed; and so it is for the limit of
the guard. -/
theorem cap_kept_iff (maxChars : ℕ) (suffix : CodeUnits) (minKeepChars : ℕ) (rest : β) :
    (∀ lengths : List ℕ,
        (∀ msg : Message β, msg.isToolResult = true → (∃ content, msg.content = some content ∧
            textLengths content = lengths) →
          getToolResultTextLength (truncateToolResultMessage toLowerCase msg maxChars suffix
            minKeepChars) ≤ maxChars) ↔
          lengths.sum ≤ maxChars ∨ allowedLength maxChars minKeepChars suffix.length lengths ≤ maxChars) ∧
      (∀ msg : Message β, getToolResultTextLength msg ≤ maxChars →
        truncateToolResultMessage toLowerCase msg maxChars suffix minKeepChars = msg) ∧
      ∀ lengths : List ℕ,
        (∀ msg : Message β, msg.isToolResult = true → (∃ content, msg.content = some content ∧
            textLengths content = lengths) →
          getToolResultTextLength (capToolResultSize toLowerCase msg) ≤ HARD_MAX_TOOL_RESULT_CHARS) ↔
          lengths.sum ≤ HARD_MAX_TOOL_RESULT_CHARS ∨
            allowedLength HARD_MAX_TOOL_RESULT_CHARS MIN_KEEP_CHARS GUARD_TRUNCATION_SUFFIX.length lengths ≤
              HARD_MAX_TOOL_RESULT_CHARS := by
  have hiff (maxChars : ℕ) (suffix : CodeUnits) (minKeepChars : ℕ) (lengths : List ℕ) :
      (∀ msg : Message β, msg.isToolResult = true → (∃ content, msg.content = some content ∧
          textLengths content = lengths) →
        getToolResultTextLength (truncateToolResultMessage toLowerCase msg maxChars suffix
          minKeepChars) ≤ maxChars) ↔
        lengths.sum ≤ maxChars ∨ allowedLength maxChars minKeepChars suffix.length lengths ≤ maxChars := by
    refine ⟨fun h => ?_, fun h msg hrole hcontent => ?_⟩
    · by_contra hnot
      rw [not_or, not_le, not_le] at hnot
      have hplain := h (plainMessage rest lengths) rfl ⟨_, rfl, textLengths_plain rest lengths⟩
      rw [getToolResultTextLength_plainMessage toLowerCase rest hnot.1] at hplain
      omega
    · obtain ⟨content, hcontent, rfl⟩ := hcontent
      exact getToolResultTextLength_truncate_le toLowerCase hrole hcontent h
  refine ⟨hiff maxChars suffix minKeepChars,
    fun msg h => truncateToolResultMessage_of_le toLowerCase h suffix minKeepChars, fun lengths => ?_⟩
  rw [← hiff HARD_MAX_TOOL_RESULT_CHARS GUARD_TRUNCATION_SUFFIX MIN_KEEP_CHARS lengths]
  refine forall_congr' fun msg => ⟨fun h hrole hcontent => ?_, fun h hrole hcontent => ?_⟩
  · have hcap := h hrole hcontent
    rwa [capToolResultSize, if_pos hrole] at hcap
  · rw [capToolResultSize, if_pos hrole]
    exact h hrole hcontent

/-- 187 blocks of 3000 units are cut to 2151 units each, as the share of each is smaller. -/
theorem guard_exceeds_cap :
    MIN_KEEP_CHARS + GUARD_TRUNCATION_SUFFIX.length ≤ HARD_MAX_TOOL_RESULT_CHARS ∧
      ¬ getToolResultTextLength (capToolResultSize id (plainMessage () (List.replicate 187 3000))) ≤
        HARD_MAX_TOOL_RESULT_CHARS := by
  have hsuffix : GUARD_TRUNCATION_SUFFIX.length = 151 := by decide +kernel
  have hlong : HARD_MAX_TOOL_RESULT_CHARS < (List.replicate 187 3000).sum := by
    rw [sum_replicate]
    decide
  refine ⟨by rw [hsuffix]; decide, ?_⟩
  have hcap : capToolResultSize id (plainMessage () (List.replicate 187 3000)) =
      truncateToolResultMessage id (plainMessage () (List.replicate 187 3000)) HARD_MAX_TOOL_RESULT_CHARS
        GUARD_TRUNCATION_SUFFIX MIN_KEEP_CHARS := if_pos rfl
  rw [hcap, getToolResultTextLength_plainMessage id () hlong, hsuffix, allowedLength, map_replicate,
    sum_replicate, sum_replicate]
  decide +kernel

end Foxclaw.Agents.Truncation
