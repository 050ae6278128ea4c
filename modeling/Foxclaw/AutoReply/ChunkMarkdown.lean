import Foxclaw.Agents.BlockChunkerStream

/-!
# Chunks of Markdown

This module models `chunkMarkdownText` of `auto-reply/chunk.ts`: a text is cut into chunks of at
most a number of characters, at newlines and white space if it can be; a fenced block that is
longer is closed at the end of a chunk and opened again in the next.

## The model

The loop has the variables of the block chunker's loop (`Cursor`), and `skipLeadingNewlines` has
the same body there. An index of `-1` is `none`. The limit is an integer, as the configuration has
it; behind the early returns it is positive. The loop has the length of the text as fuel, since
every chunk ends after the one before it.
-/

namespace Foxclaw.AutoReply.ChunkMarkdown

open Markdown CodeUnits
open Agents.BlockChunker (Cursor skipLeadingNewlines isSpaceAt)

variable (text : CodeUnits)

def resolveChunkEarlyReturn (limit : ℤ) : Option (List CodeUnits) :=
  if text = [] then some []
  else if limit ≤ 0 then some [text]
  else if text.length ≤ limit then some [text]
  else none

/-! ### Soft breaks -/

/-- The variables of `scanParenAwareBreakpoints`. -/
structure Breakpoints where
  lastNewline : Option ℕ
  lastWhitespace : Option ℕ
  depth : ℕ

/-- An iteration of the loop of `scanParenAwareBreakpoints`. -/
def scanPlace (isAllowed : ℕ → Bool) (r : Breakpoints) (i : ℕ) : Breakpoints :=
  match text[i]? with
  | none => r
  | some char =>
      if isAllowed i = false then r
      else if char = 40 then { r with depth := r.depth + 1 }
      else if char = 41 ∧ 0 < r.depth then { r with depth := r.depth - 1 }
      else if r.depth ≠ 0 then r
      else if char = newline then { r with lastNewline := some i }
      else if isSpace char = true then { r with lastWhitespace := some i }
      else r

def scanParenAwareBreakpoints (start stop : ℕ) (isAllowed : ℕ → Bool) : Breakpoints :=
  (List.range' start (stop - start)).foldl (scanPlace text isAllowed)
    { lastNewline := none, lastWhitespace := none, depth := 0 }

def pickSafeBreakIndex (start stop : ℕ) (spans : List FenceSpan) : Option ℕ :=
  let r := scanParenAwareBreakpoints text start stop (isSafeFenceBreak spans)
  (r.lastNewline.filter (start < ·)).or (r.lastWhitespace.filter (start < ·))

/-! ### Breaks -/

def closeLine (fence : Fence) : CodeUnits := fence.indent ++ fence.marker

/-- The loop over the newlines before a place, back to `start`: the break after one that is inside
of the block again. -/
def newlineBreak (text : CodeUnits) (spans : List FenceSpan) (fenceStart start minProgressIdx : ℕ) :
    ℕ → Option ℕ
  | 0 => none
  | i + 1 =>
      if i < start then none
      else if text[i]? = some newline then
        if i + 1 < minProgressIdx then none
        else if (findFenceSpanAt spans (i + 1)).any (·.start = fenceStart) = true then some (i + 1)
        else newlineBreak text spans fenceStart start minProgressIdx i
      else newlineBreak text spans fenceStart start minProgressIdx i

def minProgressIdx (start : ℕ) (fence : FenceSpan) : ℕ :=
  min text.length (max (start + 1) (fence.start + fence.openLine.length + 2))

/-- `breakIdx`, if the window ends inside of the block `initialFence`. What the two fallbacks to
`windowEnd` set `fenceToSplit` to is overwritten after them. -/
def breakInFence (spans : List FenceSpan) (start contentLimit windowEnd : ℕ) (initialFence : FenceSpan) : ℕ :=
  let close := (closeLine initialFence.toFence).length
  let maxIdxIfNeedNewline := start + contentLimit - (close + 1)
  if maxIdxIfNeedNewline ≤ start then windowEnd
  else
    let minProgressIdx := minProgressIdx text start initialFence
    let maxIdxIfAlreadyNewline := start + contentLimit - close
    match newlineBreak text spans initialFence.start start minProgressIdx
        (max start (maxIdxIfAlreadyNewline - 1) + 1) with
    | some candidateBreak => candidateBreak
    | none =>
        if maxIdxIfAlreadyNewline < minProgressIdx then windowEnd
        else max minProgressIdx maxIdxIfNeedNewline

def contentLimit (limit : ℕ) (c : Cursor) : ℕ := max 1 (limit - c.reopenPrefix.length)

/-- `breakIdx` and `fenceToSplit`. -/
def pickBreak (spans : List FenceSpan) (limit : ℕ) (c : Cursor) : ℕ × Option FenceSpan :=
  let windowEnd := min text.length (c.start + contentLimit limit c)
  let softBreak := (pickSafeBreakIndex text c.start windowEnd spans).filter (c.start < ·)
  let breakIdx := softBreak.getD windowEnd
  let initialFence := if isSafeFenceBreak spans breakIdx then none else findFenceSpanAt spans breakIdx
  match initialFence with
  | none => (breakIdx, none)
  | some initialFence =>
      let breakIdx := breakInFence text spans c.start (contentLimit limit c) windowEnd initialFence
      (breakIdx, (findFenceSpanAt spans breakIdx).filter (·.start = initialFence.start))

/-- What ends a chunk in which a block is cut. -/
def closingOf (fence : Fence) (rawChunk : CodeUnits) : CodeUnits :=
  if endsWithNewline rawChunk then closeLine fence else newline :: closeLine fence

/-- Where the next chunk begins, but for newlines. -/
def afterSeparator (breakIdx : ℕ) : ℕ :=
  min text.length (if isSpaceAt text breakIdx then breakIdx + 1 else breakIdx)

/-- A chunk that is cut off, and where the loop goes on. -/
def cutChunk (text rawChunk : CodeUnits) (breakIdx : ℕ) (fenceToSplit : Option FenceSpan) :
    CodeUnits × Cursor :=
  let nextStart := afterSeparator text breakIdx
  match fenceToSplit with
  | some fence => (rawChunk ++ closingOf fence.toFence rawChunk, { start := nextStart, reopenFence := some fence })
  | none => (rawChunk, { start := skipLeadingNewlines text nextStart, reopenFence := none })

/-- The loop of `chunkMarkdownText`. -/
def chunkLoop (text : CodeUnits) (spans : List FenceSpan) (limit : ℕ) : ℕ → Cursor → List CodeUnits
  | 0, _ => []
  | fuel + 1, c =>
      if c.start < text.length then
        if text.length - c.start ≤ contentLimit limit c then
          let finalChunk := c.reopenPrefix ++ text.drop c.start
          if 0 < finalChunk.length then [finalChunk] else []
        else
          let (breakIdx, fenceToSplit) := pickBreak text spans limit c
          let rawContent := slice text c.start breakIdx
          if rawContent = [] then []
          else
            let (chunk, next) := cutChunk text (c.reopenPrefix ++ rawContent) breakIdx fenceToSplit
            chunk :: chunkLoop text spans limit fuel next
      else []

def chunkMarkdownText (limit : ℤ) : List CodeUnits :=
  match resolveChunkEarlyReturn text limit with
  | some early => early
  | none => chunkLoop text (parseFenceSpans text) limit.toNat text.length { start := 0, reopenFence := none }

end Foxclaw.AutoReply.ChunkMarkdown
