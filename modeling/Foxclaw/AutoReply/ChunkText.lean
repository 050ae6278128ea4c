import Foxclaw.AutoReply.ChunkMarkdown

/-!
# Chunks of plain text

This module models `chunkTextByBreakResolver` of `shared/text-chunking.ts` and `chunkText` of
`auto-reply/chunk.ts`: a text is cut into chunks of at most a number of characters, and the white
space around a cut is dropped.

## The model

The index `-1` of a break is `none`. The limit is an integer, as the configuration has it. The loop
has the length of the text as fuel, since every turn of it takes at least one character.

## What is proved

* `chunkLoop_splits`, `chunkLoop_splits_of_part` — the chunks are the text, but for white space between
  them.
* `chunkLoop_of_blank_part` — only a first part that is all white space leaves no chunk.
* `chunkTextByBreakResolver_splits` — whatever the breaks are, the chunks are within the limit.
-/

namespace Foxclaw.AutoReply.ChunkText

open Nat List CodeUnits
open Agents.BlockChunker (isSpaceAt)
open ChunkMarkdown (resolveChunkEarlyReturn scanParenAwareBreakpoints)

section
variable (limit : ℕ) (resolveBreakIndex : CodeUnits → Option ℕ)

def breakIdx (remaining : CodeUnits) : ℕ :=
  match resolveBreakIndex (remaining.take limit) with
  | some candidateBreak => if 0 < candidateBreak ∧ candidateBreak ≤ limit then candidateBreak else limit
  | none => limit

/-- `remaining` after a turn of the loop. -/
def afterBreak (remaining : CodeUnits) : CodeUnits :=
  let breakIdx := breakIdx limit resolveBreakIndex remaining
  let brokeOnSeparator := breakIdx < remaining.length && isSpaceAt remaining breakIdx
  let nextStart := min remaining.length (breakIdx + if brokeOnSeparator then 1 else 0)
  trimStart (remaining.drop nextStart)

/-- `chunk`. -/
def chunkOf (remaining : CodeUnits) : CodeUnits :=
  trimEnd (remaining.take (breakIdx limit resolveBreakIndex remaining))

/-- The loop of `chunkTextByBreakResolver`, and what follows it. -/
def chunkLoop : ℕ → CodeUnits → List CodeUnits
  | 0, _ => []
  | fuel + 1, remaining =>
    if limit < remaining.length then
      let chunk := chunkOf limit resolveBreakIndex remaining
      let rest := chunkLoop fuel (afterBreak limit resolveBreakIndex remaining)
      if 0 < chunk.length then chunk :: rest else rest
    else if remaining = [] then [] else [remaining]

end

variable (text : CodeUnits)

def chunkTextByBreakResolver (limit : ℤ) (resolveBreakIndex : CodeUnits → Option ℕ) : List CodeUnits :=
  if text = [] then []
  else if limit ≤ 0 ∨ text.length ≤ limit then [text]
  else chunkLoop limit.toNat resolveBreakIndex text.length text

/-- The break that `chunkText` picks in a window. -/
def pickBreakIndex (window : CodeUnits) : Option ℕ :=
  let r := scanParenAwareBreakpoints window 0 window.length fun _ => true
  if r.lastNewline.any (0 < ·) then r.lastNewline else r.lastWhitespace

def chunkText (limit : ℤ) : List CodeUnits :=
  match resolveChunkEarlyReturn text limit with
  | some early => early
  | none => chunkTextByBreakResolver text limit pickBreakIndex

/-! ### What the chunks are -/

/-- The text does not begin with white space. -/
def NoLead : Prop := ∀ c, text.head? = some c → isSpace c = false

/-- The chunks are the text, but for white space after each of them. -/
inductive Splits : CodeUnits → List CodeUnits → Prop where
  /-- No text is left. -/
  | nil : Splits [] []
  /-- A chunk, white space, and the rest of the text. -/
  | cons {chunk gap rest : CodeUnits} {chunks : List CodeUnits} : chunk ≠ [] → isBlank gap = true →
      NoLead rest → Splits rest chunks → Splits (chunk ++ gap ++ rest) (chunk :: chunks)

variable {text} in
theorem Splits.single (hne : text ≠ []) : Splits text [text] := by
  have hall : Splits (text ++ [] ++ []) [text] := .cons hne rfl (fun c hc => by cases hc) .nil
  rwa [append_nil, append_nil] at hall

theorem noLead_trimStart : NoLead (trimStart text) := by
  intro c hc
  cases htext : trimStart text with
  | nil =>
    rw [htext] at hc
    cases hc
  | cons d rest =>
    rw [htext] at hc
    obtain rfl : d = c := Option.some.inj hc
    have hpos : 0 < (text.dropWhile isSpace).length := by
      show 0 < (trimStart text).length
      rw [htext]
      exact succ_pos _
    have hnot := dropWhile_get_zero_not isSpace text hpos
    have hget : (text.dropWhile isSpace).get ⟨0, hpos⟩ = d := by
      show (trimStart text).get ⟨0, hpos⟩ = d
      simp only [htext, get_eq_getElem, getElem_cons_zero]
    rw [hget] at hnot
    exact Bool.eq_false_iff.mpr hnot

theorem isBlank_append (a b : CodeUnits) : isBlank (a ++ b) = (isBlank a && isBlank b) := all_append

/-- What `trimStart` drops is white space. -/
theorem trimStart_split : ∃ gap, text = gap ++ trimStart text ∧ isBlank gap = true :=
  ⟨text.takeWhile isSpace, takeWhile_append_dropWhile.symm,
    List.all_eq_true.mpr fun _ hc => mem_takeWhile_imp hc⟩

/-- What `trimEnd` drops is white space. -/
theorem trimEnd_split : ∃ gap, text = trimEnd text ++ gap ∧ isBlank gap = true :=
  ⟨text.rtakeWhile isSpace, rdropWhile_append_rtakeWhile.symm,
    List.all_eq_true.mpr fun _ hc => mem_rtakeWhile_imp hc⟩

theorem trimEnd_eq_nil_iff : trimEnd text = [] ↔ isBlank text = true := by
  rw [trimEnd, rdropWhile_eq_nil_iff, isBlank, List.all_eq_true]

section
variable {limit : ℕ} (resolveBreakIndex : CodeUnits → Option ℕ)

theorem breakIdx_pos (hlimit : 0 < limit) (remaining : CodeUnits) :
    0 < breakIdx limit resolveBreakIndex remaining := by
  rw [breakIdx]
  cases resolveBreakIndex (remaining.take limit) with
  | none => exact hlimit
  | some candidateBreak =>
    dsimp only
    split_ifs with h
    · exact h.1
    · exact hlimit

/-- A turn of the loop takes a chunk, and white space after it. -/
theorem turn_split (limit : ℕ) (resolveBreakIndex : CodeUnits → Option ℕ) (remaining : CodeUnits) :
    ∃ gap, remaining = chunkOf limit resolveBreakIndex remaining ++ gap ++
        afterBreak limit resolveBreakIndex remaining ∧ isBlank gap = true := by
  obtain ⟨gapEnd, hend, hgapEnd⟩ :=
    trimEnd_split (remaining.take (breakIdx limit resolveBreakIndex remaining))
  rw [chunkOf, afterBreak]
  generalize breakIdx limit resolveBreakIndex remaining = b at hend ⊢
  -- the character that the loop skips is white space
  obtain ⟨sep, hsep, hgapSep⟩ : ∃ sep, remaining.drop b = sep ++ remaining.drop (min remaining.length
      (b + if (decide (b < remaining.length) && isSpaceAt remaining b) = true then 1 else 0)) ∧
      isBlank sep = true := by
    by_cases hb : b < remaining.length ∧ isSpaceAt remaining b = true
    · obtain ⟨hlt, hspace⟩ := hb
      have hget : remaining[b]? = some remaining[b] := getElem?_eq_getElem hlt
      rw [isSpaceAt, hget, Option.any_some] at hspace
      refine ⟨[remaining[b]], ?_, ?_⟩
      · rw [if_pos (by simp [hlt, isSpaceAt, hspace]), Nat.min_eq_right hlt]
        exact drop_eq_getElem_cons hlt
      · rw [isBlank, all_cons, hspace]
        rfl
    · refine ⟨[], ?_, rfl⟩
      rw [if_neg (by simpa using hb), Nat.add_zero, nil_append]
      rcases Nat.le_total remaining.length b with hle | hle
      · rw [Nat.min_eq_left hle, drop_eq_nil_of_le hle, drop_length]
      · rw [Nat.min_eq_right hle]
  obtain ⟨lead, hlead, hgapLead⟩ := trimStart_split (remaining.drop (min remaining.length
    (b + if (decide (b < remaining.length) && isSpaceAt remaining b) = true then 1 else 0)))
  refine ⟨gapEnd ++ sep ++ lead, ?_, by rw [isBlank_append, isBlank_append, hgapEnd, hgapSep, hgapLead]; rfl⟩
  calc remaining = remaining.take b ++ remaining.drop b := (take_append_drop b remaining).symm
    _ = trimEnd (remaining.take b) ++ gapEnd ++ (sep ++ (lead ++ trimStart _)) := by
        rw [← hend, hsep, ← hlead]
    _ = _ := by simp only [append_assoc]

variable {remaining : CodeUnits}

theorem length_afterBreak (hlimit : 0 < limit) (hne : remaining ≠ []) :
    (afterBreak limit resolveBreakIndex remaining).length < remaining.length := by
  have hpos : 0 < remaining.length := length_pos_of_ne_nil hne
  have hbreak := breakIdx_pos resolveBreakIndex hlimit remaining
  rw [afterBreak]
  refine (length_dropWhile_le _ _).trans_lt ?_
  rw [length_drop]
  omega

theorem noLead_afterBreak (limit : ℕ) (resolveBreakIndex : CodeUnits → Option ℕ) (remaining : CodeUnits) :
    NoLead (afterBreak limit resolveBreakIndex remaining) :=
  noLead_trimStart _

/-- A text that does not begin with white space begins with a chunk. -/
theorem chunkOf_ne_nil (hlimit : 0 < limit) (hne : remaining ≠ [])
    (hlead : NoLead remaining) : chunkOf limit resolveBreakIndex remaining ≠ [] := by
  have hbreak := breakIdx_pos resolveBreakIndex hlimit remaining
  rw [chunkOf, Ne, trimEnd_eq_nil_iff]
  intro hblank
  cases remaining with
  | nil => exact hne rfl
  | cons c rest =>
    obtain ⟨n, hn⟩ := exists_eq_succ_of_ne_zero hbreak.ne'
    rw [hn, take_succ_cons, isBlank, all_cons, hlead c rfl, Bool.false_and] at hblank
    cases hblank

/-- From a text that does not begin with white space the loop gives chunks that split it. -/
theorem chunkLoop_splits (hlimit : 0 < limit) {fuel : ℕ} (hfuel : remaining.length ≤ fuel)
    (hlead : NoLead remaining) : Splits remaining (chunkLoop limit resolveBreakIndex fuel remaining) := by
  induction fuel generalizing remaining with
  | zero =>
    obtain rfl := eq_nil_of_length_eq_zero (Nat.le_zero.mp hfuel)
    exact .nil
  | succ fuel ih =>
    rw [chunkLoop]
    by_cases hlong : limit < remaining.length
    · have hne : remaining ≠ [] := ne_nil_of_length_pos (hlimit.trans hlong)
      have hchunk := chunkOf_ne_nil resolveBreakIndex hlimit hne hlead
      have hshort := length_afterBreak resolveBreakIndex hlimit hne
      obtain ⟨gap, hsplit, hgap⟩ := turn_split limit resolveBreakIndex remaining
      rw [if_pos hlong]
      dsimp only
      rw [if_pos (length_pos_of_ne_nil hchunk)]
      have hrest := ih (le_of_lt_succ (hshort.trans_le hfuel))
        (noLead_afterBreak limit resolveBreakIndex remaining)
      have hall := Splits.cons hchunk hgap (noLead_afterBreak limit resolveBreakIndex remaining) hrest
      rwa [← hsplit] at hall
    · rw [if_neg hlong]
      split_ifs with hnil
      · rw [hnil]
        exact .nil
      · exact .single hnil

/-- The first part of a text that is longer than the limit, up to the first break. -/
def firstPart (limit : ℕ) (resolveBreakIndex : CodeUnits → Option ℕ) (text : CodeUnits) : CodeUnits :=
  text.take (breakIdx limit resolveBreakIndex text)

/-- A first part that is not all white space leaves a chunk. -/
theorem chunkLoop_splits_of_part (hlimit : 0 < limit) {text : CodeUnits} (hlong : limit < text.length)
    (hpart : isBlank (firstPart limit resolveBreakIndex text) = false) :
    Splits text (chunkLoop limit resolveBreakIndex text.length text) := by
  have hne : text ≠ [] := ne_nil_of_length_pos (hlimit.trans hlong)
  have hchunk : chunkOf limit resolveBreakIndex text ≠ [] := by
    rw [chunkOf, Ne, trimEnd_eq_nil_iff]
    exact fun hblank => Bool.false_ne_true (hpart.symm.trans hblank)
  obtain ⟨gap, hsplit, hgap⟩ := turn_split limit resolveBreakIndex text
  have hshort := length_afterBreak resolveBreakIndex hlimit hne
  obtain ⟨n, hn⟩ := exists_eq_succ_of_ne_zero (length_pos_of_ne_nil hne).ne'
  rw [hn, chunkLoop, if_pos hlong]
  dsimp only
  rw [if_pos (length_pos_of_ne_nil hchunk)]
  have hlead := noLead_afterBreak limit resolveBreakIndex text
  have hrest := chunkLoop_splits resolveBreakIndex hlimit (le_of_lt_succ (hn ▸ hshort)) hlead
  have hall := Splits.cons hchunk hgap hlead hrest
  rwa [← hsplit] at hall

/-- A first part that is all white space leaves none. -/
theorem chunkLoop_of_blank_part (hlimit : 0 < limit) {text : CodeUnits} (hlong : limit < text.length)
    (hpart : isBlank (firstPart limit resolveBreakIndex text) = true) :
    ∃ gap rest, text = gap ++ rest ∧ gap ≠ [] ∧ isBlank gap = true ∧ NoLead rest ∧
      Splits rest (chunkLoop limit resolveBreakIndex text.length text) := by
  have hne : text ≠ [] := ne_nil_of_length_pos (hlimit.trans hlong)
  have hchunk : chunkOf limit resolveBreakIndex text = [] := by
    rw [chunkOf, trimEnd_eq_nil_iff]
    exact hpart
  obtain ⟨gap, hsplit, hgap⟩ := turn_split limit resolveBreakIndex text
  have hshort := length_afterBreak resolveBreakIndex hlimit hne
  rw [hchunk, nil_append] at hsplit
  have hlead := noLead_afterBreak limit resolveBreakIndex text
  refine ⟨gap, _, hsplit, ?_, hgap, hlead, ?_⟩
  · rintro rfl
    rw [nil_append] at hsplit
    rw [← hsplit] at hshort
    exact lt_irrefl _ hshort
  · obtain ⟨n, hn⟩ := exists_eq_succ_of_ne_zero (length_pos_of_ne_nil hne).ne'
    rw [hn, chunkLoop, if_pos hlong]
    dsimp only
    rw [hchunk, length_nil, if_neg (lt_irrefl 0)]
    exact chunkLoop_splits resolveBreakIndex hlimit (le_of_lt_succ (hn ▸ hshort)) hlead

end

/-- What `chunkText` does with a text that is longer than the limit. -/
theorem chunkText_of_long {text : CodeUnits} {limit : ℕ} (hlimit : 0 < limit) (hlong : limit < text.length) :
    chunkText text limit = chunkLoop limit pickBreakIndex text.length text := by
  have hne : text ≠ [] := ne_nil_of_length_pos (hlimit.trans hlong)
  have hpos : ¬ (limit : ℤ) ≤ 0 := by omega
  have hfit : ¬ (text.length : ℤ) ≤ limit := by omega
  rw [chunkText, resolveChunkEarlyReturn, if_neg hne, if_neg hpos, if_neg hfit]
  dsimp only
  rw [chunkTextByBreakResolver, if_neg hne, if_neg (not_or.mpr ⟨hpos, hfit⟩), Int.toNat_natCast]

/-! ### Any choice of breaks -/

section
variable {limit : ℕ} (resolveBreakIndex : CodeUnits → Option ℕ)

theorem breakIdx_le (remaining : CodeUnits) : breakIdx limit resolveBreakIndex remaining ≤ limit := by
  unfold breakIdx
  split
  · split_ifs with h
    · exact h.2
    · rfl
  · rfl

theorem length_of_mem_chunkLoop {fuel : ℕ} {remaining chunk : CodeUnits}
    (h : chunk ∈ chunkLoop limit resolveBreakIndex fuel remaining) : chunk.length ≤ limit := by
  induction fuel generalizing remaining with
  | zero => cases h
  | succ fuel ih =>
    rw [chunkLoop] at h
    dsimp only at h
    split_ifs at h with hlong hchunk hnil
    · rcases mem_cons.mp h with rfl | h
      · exact ( rdropWhile_prefix _ _).length_le.trans ((length_take_le _ _).trans (breakIdx_le ..))
      · exact ih h
    · exact ih h
    · cases h
    · obtain rfl := mem_singleton.mp h
      exact not_lt.mp hlong

/-- Whatever its breaks are, a text is split into chunks within the limit, but for white space in
front of it. -/
theorem chunkTextByBreakResolver_splits (text : CodeUnits) (limit : ℕ+) :
    (∀ chunk ∈ chunkTextByBreakResolver text limit resolveBreakIndex, chunk.length ≤ limit) ∧
      ∃ gap rest, text = gap ++ rest ∧ isBlank gap = true ∧
        Splits rest (chunkTextByBreakResolver text limit resolveBreakIndex) := by
  have hlimit := limit.pos
  unfold chunkTextByBreakResolver
  split_ifs with hnil hfit
  · exact ⟨nofun, [], [], hnil, rfl, .nil⟩
  · refine ⟨by simpa using hfit.resolve_left (by simp), [], text, rfl, rfl, .single hnil⟩
  · refine ⟨fun chunk => length_of_mem_chunkLoop resolveBreakIndex, ?_⟩
    have hlong : (limit : ℕ) < text.length := by simpa using (not_or.mp hfit).2
    cases hpart : isBlank (firstPart limit resolveBreakIndex text) with
    | false => exact ⟨[], text, rfl, rfl, chunkLoop_splits_of_part resolveBreakIndex hlimit hlong hpart⟩
    | true =>
      obtain ⟨gap, rest, h, -, hgap, -, hsplits⟩ :=
        chunkLoop_of_blank_part resolveBreakIndex hlimit hlong hpart
      exact ⟨gap, rest, h, hgap, hsplits⟩

end

end Foxclaw.AutoReply.ChunkText
