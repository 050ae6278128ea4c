import Foxclaw.Markdown.Fences
import Mathlib.Data.Rat.Floor

/-!
# The block chunker

This module models `agents/pi-embedded-block-chunker.ts`: a text comes in pieces, and is passed on
in chunks that end where a reader would pause. A fenced block that is longer than a chunk is closed
and opened again.

## The model

The buffer is the whole state. An index of `-1` is `none`. The loops that search a text for a
place to break are recursions on the places that are left; the loop of `drain` has the length of the
source as fuel, since every break is after the one before it.
-/

namespace Foxclaw.Agents.BlockChunker

open Markdown CodeUnits

inductive BreakPreference where
  | paragraph
  | newline
  | sentence
  deriving DecidableEq

structure BlockReplyChunking where
  minChars : ℚ
  maxChars : ℚ
  breakPreference : Option BreakPreference
  flushOnParagraph : Bool

structure FenceSplit where
  closeFenceLine : CodeUnits
  reopenFenceLine : CodeUnits
  fence : FenceSpan

structure BreakResult where
  index : ℕ
  fenceSplit : Option FenceSplit

/-- `Math.max(low, Math.floor(value))`. -/
def atLeast (low : ℕ) (value : ℚ) : ℕ := max low ⌊value⌋.toNat

/-! ### Places to break -/

/-- Does the text go on with the pattern? -/
def isAt (text pattern : CodeUnits) (index : ℕ) : Bool := pattern.isPrefixOf (text.drop index)

variable (text : CodeUnits)

/-- Is there white space at the place? -/
def isSpaceAt (index : ℕ) : Bool := (text[index]?).any isSpace

/-- From the end back to `minChars`: the first candidate at a hit. -/
def searchBack (isHit : ℕ → Bool) (candidate : ℕ → Option ℕ) (minChars : ℕ) : ℕ → Option ℕ
  | 0 => none
  | index + 1 =>
      if index < minChars then none
      else if isHit index then (candidate index).or (searchBack isHit candidate minChars index)
      else searchBack isHit candidate minChars index

/-- From a place on: the first candidate at a hit; after a hit of some width the search goes on. -/
def searchOn (isHit : ℕ → Bool) (candidate : ℕ → Option ℕ) (width : ℕ) : ℕ → ℕ → Option ℕ
  | 0, _ => none
  | fuel + 1, index =>
      if isHit index then (candidate index).or (searchOn isHit candidate width fuel (index + width))
      else searchOn isHit candidate width fuel (index + 1)

/-- A hit of ``/[.!?](?=\s|$)/``. -/
def isSentenceEnd (index : ℕ) : Bool :=
  (text[index]?).any (fun c => c = 46 || c = 33 || c = 63) &&
    (index + 1 = text.length || isSpaceAt text (index + 1))

variable (fenceSpans : List FenceSpan)

def findSafeSentenceBreakIndex (minChars offset : ℕ) : Option ℕ :=
  (List.range text.length).foldl (fun sentenceIdx index =>
    if isSentenceEnd text index = true ∧ minChars ≤ index ∧
      isSafeFenceBreak fenceSpans (offset + (index + 1)) = true then some (index + 1)
    else sentenceIdx) none

def findSafeParagraphBreakIndex (minChars : ℕ) (reverse : Bool) (offset : ℕ) : Option ℕ :=
  let isHit := isAt text [newline, newline]
  let candidate := fun paragraphIdx => [paragraphIdx, paragraphIdx + 1].find? fun c =>
    minChars ≤ c && c < text.length && isSafeFenceBreak fenceSpans (offset + c)
  if reverse then searchBack isHit candidate minChars text.length
  else searchOn isHit candidate 2 text.length 0

def findSafeNewlineBreakIndex (minChars : ℕ) (reverse : Bool) (offset : ℕ) : Option ℕ :=
  let isHit := isAt text [newline]
  let candidate := fun newlineIdx =>
    if minChars ≤ newlineIdx ∧ isSafeFenceBreak fenceSpans (offset + newlineIdx) = true then
      some newlineIdx
    else none
  if reverse then searchBack isHit candidate minChars text.length
  else searchOn isHit candidate 1 text.length 0

def skipLeadingNewlines (value : CodeUnits) (start : ℕ) : ℕ :=
  start + ((value.drop start).takeWhile (· = newline)).length

def stripLeadingNewlines (value : CodeUnits) : CodeUnits := value.drop (skipLeadingNewlines value 0)

structure ParagraphBreak where
  index : ℕ
  length : ℕ

/-- A match of ``/\n[\t ]*\n+/`` at the beginning of a text: its length. -/
def matchParagraph : CodeUnits → Option ℕ
  | [] => none
  | c :: rest =>
      let blanks := rest.takeWhile fun c => c = 9 || c = 32
      let newlines := (rest.drop blanks.length).takeWhile (· = newline)
      if c = newline ∧ newlines ≠ [] then some (1 + blanks.length + newlines.length) else none

/-- The loop of `findNextParagraphBreak`. -/
def nextParagraphBreak (buffer : CodeUnits) (fenceSpans : List FenceSpan) : ℕ → ℕ → Option ParagraphBreak
  | 0, _ => none
  | fuel + 1, index =>
      match matchParagraph (buffer.drop index) with
      | none => nextParagraphBreak buffer fenceSpans fuel (index + 1)
      | some length =>
          if isSafeFenceBreak fenceSpans index then some { index, length }
          else nextParagraphBreak buffer fenceSpans fuel (index + length)

def findNextParagraphBreak (buffer : CodeUnits) (fenceSpans : List FenceSpan) (startIndex : ℕ) :
    Option ParagraphBreak := nextParagraphBreak buffer fenceSpans buffer.length startIndex

variable (chunking : BlockReplyChunking)

def preference : BreakPreference := chunking.breakPreference.getD .paragraph

/-- The break by the preference: at a paragraph, a newline or a sentence. -/
def preferredBreakIndex (text : CodeUnits) (fenceSpans : List FenceSpan) (minChars : ℕ) (reverse : Bool)
    (offset : ℕ) : Option ℕ :=
  ((if preference chunking = .paragraph then
      findSafeParagraphBreakIndex text fenceSpans minChars reverse offset else none).or
    (if preference chunking = .paragraph ∨ preference chunking = .newline then
      findSafeNewlineBreakIndex text fenceSpans minChars reverse offset else none)).or
    (if preference chunking ≠ .newline then
      findSafeSentenceBreakIndex text fenceSpans minChars offset else none)

def pickSoftBreakIndex (buffer : CodeUnits) (fenceSpans : List FenceSpan) (minCharsOverride : Option ℚ)
    (offset : ℕ) : Option BreakResult :=
  let minChars := atLeast 1 (minCharsOverride.getD chunking.minChars)
  if buffer.length < minChars then none
  else (preferredBreakIndex chunking buffer fenceSpans minChars false offset).map fun index =>
    { index, fenceSplit := none }

def pickBreakIndex (buffer : CodeUnits) (fenceSpans : List FenceSpan) (minCharsOverride : Option ℚ)
    (offset : ℕ) : Option BreakResult :=
  let minChars := atLeast 1 (minCharsOverride.getD chunking.minChars)
  let maxChars := atLeast minChars chunking.maxChars
  if buffer.length < minChars then none
  else
    let window := buffer.take maxChars
    match preferredBreakIndex chunking window fenceSpans minChars true offset with
    | some index => some { index, fenceSplit := none }
    | none =>
      if preference chunking = .newline ∧ buffer.length < maxChars then none
      else
        match searchBack (isSpaceAt window)
            (fun i => if isSafeFenceBreak fenceSpans (offset + i) then some i else none) minChars
            window.length with
        | some index => some { index, fenceSplit := none }
        | none =>
          if maxChars ≤ buffer.length then
            some {
              index := maxChars
              fenceSplit := (findFenceSpanAt fenceSpans (offset + maxChars)).map fun fence =>
                { closeFenceLine := fence.indent ++ fence.marker
                  reopenFenceLine := fence.openLine
                  fence } }
          else none

/-! ### Draining -/

/-- Where `drain` is in its source. -/
structure Cursor where
  start : ℕ
  reopenFence : Option FenceSpan

def Cursor.reopenPrefix (c : Cursor) : CodeUnits :=
  match c.reopenFence with
  | some fence => fence.openLine ++ [newline]
  | none => []

/-- What a break does. -/
structure Break where
  /-- The place of the break in the source. -/
  index : ℕ
  /-- `fenceSplit`, of a chunk that is emitted. -/
  fenceSplit : Option FenceSplit
  /-- The chunk that is emitted, unless it is blank. -/
  chunk : Option CodeUnits
  next : Cursor

def emitBreakResult (breakResult : BreakResult) (source : CodeUnits) (c : Cursor) : Break :=
  let absoluteBreakIdx := c.start + breakResult.index
  let rawChunk := c.reopenPrefix ++ slice source c.start absoluteBreakIdx
  if isBlank rawChunk then
    { index := absoluteBreakIdx, fenceSplit := none, chunk := none
      next := { start := skipLeadingNewlines source absoluteBreakIdx, reopenFence := none } }
  else
    match breakResult.fenceSplit with
    | some fenceSplit =>
        let closeFence := if endsWithNewline rawChunk then fenceSplit.closeFenceLine ++ [newline]
          else newline :: fenceSplit.closeFenceLine ++ [newline]
        { index := absoluteBreakIdx, fenceSplit := some fenceSplit, chunk := some (rawChunk ++ closeFence)
          next := { start := absoluteBreakIdx, reopenFence := some fenceSplit.fence } }
    | none =>
        let nextStart := if isSpaceAt source absoluteBreakIdx then absoluteBreakIdx + 1
          else absoluteBreakIdx
        { index := absoluteBreakIdx, fenceSplit := none, chunk := some rawChunk
          next := { start := skipLeadingNewlines source nextStart, reopenFence := none } }

/-- What an iteration of the loop of `drain` does. -/
inductive Iteration where
  | stop
  /-- The rest is emitted, and the loop ends. -/
  | emitRest (chunk : CodeUnits)
  | emitBreak (b : Break)

/-- `minChars` of `drain`. -/
def drainMinChars : ℕ := atLeast 1 chunking.minChars

/-- `maxChars` of `drain`. -/
def drainMaxChars : ℕ := atLeast (drainMinChars chunking) chunking.maxChars

variable (source : CodeUnits)

def remainingLength (c : Cursor) : ℕ :=
  c.reopenPrefix.length + (source.length - c.start)

variable (force : Bool)

/-- The break that is picked in the view from `start` on. -/
def breakView (source : CodeUnits) (fenceSpans : List FenceSpan) (c : Cursor) : Iteration :=
  let view := source.drop c.start
  let breakResult :=
    if force = true ∧ remainingLength source c ≤ drainMaxChars chunking then
      pickSoftBreakIndex chunking view fenceSpans (some 1) c.start
    else
      pickBreakIndex chunking view fenceSpans
        (if force = true ∨ chunking.flushOnParagraph = true then some 1 else none) c.start
  match breakResult with
  | none => if force then .emitRest (c.reopenPrefix ++ source.drop c.start) else .stop
  | some breakResult => .emitBreak (emitBreakResult breakResult source c)

/-- A break at the end of a paragraph. -/
def flushParagraph (c : Cursor) (paragraphBreak : ParagraphBreak) : Break :=
  let chunk := c.reopenPrefix ++ slice source c.start paragraphBreak.index
  { index := paragraphBreak.index, fenceSplit := none
    chunk := if isBlank chunk then none else some chunk
    next := { start := skipLeadingNewlines source (paragraphBreak.index + paragraphBreak.length)
              reopenFence := none } }

/-- An iteration of the loop of `drain`. -/
def iterate (source : CodeUnits) (fenceSpans : List FenceSpan) (c : Cursor) : Iteration :=
  if force = false ∧ chunking.flushOnParagraph = false ∧
      remainingLength source c < drainMinChars chunking then .stop
  else if chunking.flushOnParagraph = true ∧ force = false then
    match (findNextParagraphBreak source fenceSpans c.start).filter fun paragraphBreak =>
        paragraphBreak.index - c.start ≤ max 1 (drainMaxChars chunking - c.reopenPrefix.length) with
    | some paragraphBreak => .emitBreak (flushParagraph source c paragraphBreak)
    | none =>
        if remainingLength source c < drainMaxChars chunking then .stop
        else breakView chunking force source fenceSpans c
  else breakView chunking force source fenceSpans c

/-- After a break the loop ends if what is left is short. -/
def endsAfter (source : CodeUnits) (c : Cursor) : Bool :=
  !force && !chunking.flushOnParagraph &&
    (remainingLength source c < drainMinChars chunking || remainingLength source c < drainMaxChars chunking)

/-- The loop of `drain`: the chunks it emits and where it ends. -/
def drainLoop (force : Bool) (source : CodeUnits) (fenceSpans : List FenceSpan) :
    ℕ → Cursor → List CodeUnits × Cursor
  | 0, c => ([], c)
  | fuel + 1, c =>
      if c.start < source.length then
        match iterate chunking force source fenceSpans c with
        | .stop => ([], c)
        | .emitRest chunk => ([chunk], { start := source.length, reopenFence := none })
        | .emitBreak b =>
            if endsAfter chunking force source b.next then (b.chunk.toList, b.next)
            else
              let r := drainLoop force source fenceSpans fuel b.next
              (b.chunk.toList ++ r.1, r.2)
      else ([], c)

/-- The buffer after the loop. -/
def bufferAfter (c : Cursor) : CodeUnits :=
  match c.reopenFence with
  | some fence => fence.openLine ++ [newline] ++ source.drop c.start
  | none => stripLeadingNewlines (source.drop c.start)

/-- `drain`: the chunks that are emitted and the buffer. -/
def drain (buffer : CodeUnits) : List CodeUnits × CodeUnits :=
  if buffer.length < drainMinChars chunking ∧ force = false ∧ chunking.flushOnParagraph = false then
    ([], buffer)
  else if force = true ∧ buffer.length ≤ drainMaxChars chunking then
    (if isBlank buffer then [] else [buffer], [])
  else
    let r := drainLoop chunking force buffer (parseFenceSpans buffer) buffer.length
      { start := 0, reopenFence := none }
    (r.1, bufferAfter buffer r.2)

/-! ### Streaming -/

/-- What is done with a chunker before its last drain. -/
inductive Op where
  | append (text : CodeUnits)
  /-- `drain` without force. -/
  | drain

/-- The text that is appended. -/
def textOf : List Op → CodeUnits
  | [] => []
  | .append text :: ops => text ++ textOf ops
  | .drain :: ops => textOf ops

/-- The chunks that are emitted from a buffer on, the last drain being forced. -/
def run : CodeUnits → List Op → List CodeUnits
  | buffer, [] => (drain chunking true buffer).1
  | buffer, .append text :: ops => run (buffer ++ text) ops
  | buffer, .drain :: ops =>
      let r := drain chunking false buffer
      r.1 ++ run r.2 ops

end Foxclaw.Agents.BlockChunker
