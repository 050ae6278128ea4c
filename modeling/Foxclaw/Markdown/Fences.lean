import Foxclaw.Lib.CodeUnits
import Foxclaw.Lib.Lines

/-!
# Code fences

This module models `markdown/fences.ts`: `parseFenceSpans` finds the fenced blocks of a text,
and `findFenceSpanAt` the one that a place is strictly inside of.

## The model

The loop over the lines is a recursion over the list of lines. The binary search keeps
`high + 1` in place of `high`, which may be `-1`.
-/

namespace Foxclaw.Markdown

open CodeUnits (newline)

def space : UInt16 := 32

def backtick : UInt16 := 96

def tilde : UInt16 := 126

/-- A unit that `.` does not match. -/
def isLineTerminator (c : UInt16) : Bool := c = 10 || c = 13 || c = 0x2028 || c = 0x2029

/-- A run of three or more of a unit, and then no line terminator. -/
def markerOf (c : UInt16) (text : CodeUnits) : Option CodeUnits :=
  let marker := text.takeWhile (· = c)
  if 3 ≤ marker.length ∧ (text.drop marker.length).all (!isLineTerminator ·) = true then some marker
  else none

/-- ``line.match(/^( {0,3})(`{3,}|~{3,})(.*)$/)``: the indent and the marker. -/
def matchFence (line : CodeUnits) : Option (CodeUnits × CodeUnits) :=
  let indent := line.takeWhile (· = space)
  let rest := line.drop indent.length
  if indent.length ≤ 3 then ((markerOf backtick rest).or (markerOf tilde rest)).map (indent, ·) else none

/-- An open fence, but for its start. -/
structure Fence where
  openLine : CodeUnits
  marker : CodeUnits
  indent : CodeUnits
  deriving DecidableEq

structure FenceSpan extends Fence where
  start : ℕ
  /-- `end`. -/
  stop : ℕ
  deriving DecidableEq

/-- Does the marker end the block? -/
def Fence.closedBy (fence : Fence) (marker : CodeUnits) : Bool :=
  fence.marker.head? = marker.head? && fence.marker.length ≤ marker.length

/-- The loop of `parseFenceSpans`, from a line on: `fence` is `open`, with its start. -/
def spansFrom (length : ℕ) : Option (ℕ × Fence) → ℕ → List CodeUnits → List FenceSpan
  | fence, _, [] => fence.toList.map fun f => { f.2 with start := f.1, stop := length }
  | fence, offset, line :: rest =>
      let lineEnd := offset + line.length
      match matchFence line with
      | none => spansFrom length fence (lineEnd + 1) rest
      | some (indent, marker) =>
        match fence with
        | none => spansFrom length (some (offset, { openLine := line, marker, indent })) (lineEnd + 1) rest
        | some (start, f) =>
            if f.closedBy marker then
              { f with start, stop := lineEnd } :: spansFrom length none (lineEnd + 1) rest
            else spansFrom length fence (lineEnd + 1) rest

def parseFenceSpans (buffer : CodeUnits) : List FenceSpan :=
  spansFrom buffer.length none 0 (Lines.splitLines newline buffer)

/-- The loop of `findFenceSpanAt`, while `low < high`. -/
def searchSpan (spans : List FenceSpan) (index : ℕ) : ℕ → ℕ → ℕ → Option FenceSpan
  | 0, _, _ => none
  | fuel + 1, low, high =>
      if low < high then
        let mid := (low + (high - 1)) / 2
        match spans[mid]? with
        | none => none
        | some s =>
            if index ≤ s.start then searchSpan spans index fuel low mid
            else if s.stop ≤ index then searchSpan spans index fuel (mid + 1) high
            else some s
      else none

/-- `findFenceSpanAt`; the search halves `spans.length` places. -/
def findFenceSpanAt (spans : List FenceSpan) (index : ℕ) : Option FenceSpan :=
  searchSpan spans index spans.length 0 spans.length

def isSafeFenceBreak (spans : List FenceSpan) (index : ℕ) : Bool := (findFenceSpanAt spans index).isNone

end Foxclaw.Markdown
