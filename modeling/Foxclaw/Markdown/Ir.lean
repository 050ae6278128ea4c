import Foxclaw.Lib.CodeUnits
import Foxclaw.Lib.StableSort
import Mathlib.Algebra.GroupWithZero.Nat

/-!
# Text with styles and links

This module models the data of `markdown/ir.ts`: a text with spans over it, which say which of its
characters carry a style or a link, and how spans are merged and cut.

A span has what it marks the text with: a style, or the address of a link.

## What is proved

* `carries_mergeStyleSpans`, `carries_sliceSpans` — merging changes what no character carries, and a
  part of a text carries what the text carries there.
-/

namespace Foxclaw.Markdown

open List

inductive MarkdownStyle where
  | bold
  | italic
  | strikethrough
  | code
  | codeBlock
  | spoiler
  | blockquote
  deriving DecidableEq

/-- Where the name of a style stands in the order of `localeCompare`. -/
def MarkdownStyle.place : MarkdownStyle → ℤ
  | .blockquote => 0
  | .bold => 1
  | .code => 2
  | .codeBlock => 3
  | .italic => 4
  | .spoiler => 5
  | .strikethrough => 6

/-- A span of a text, from `start` to before `stop`. -/
structure Span (β : Type) where
  start : ℕ
  /-- `end`. -/
  stop : ℕ
  /-- `style`, or `href`. -/
  mark : β
  deriving DecidableEq

abbrev MarkdownStyleSpan := Span MarkdownStyle

abbrev MarkdownLinkSpan := Span CodeUnits

structure MarkdownIR where
  text : CodeUnits
  styles : List MarkdownStyleSpan
  links : List MarkdownLinkSpan
  deriving DecidableEq

/-- The character at a place carries the mark. -/
def Carries {β : Type} (spans : List (Span β)) (place : ℕ) (mark : β) : Prop :=
  ∃ span ∈ spans, span.mark = mark ∧ span.start ≤ place ∧ place < span.stop

section
variable {β : Type}

theorem carries_nil (place : ℕ) (mark : β) : ¬ Carries [] place mark := by
  rintro ⟨span, hspan, -⟩
  cases hspan

theorem carries_cons {span : Span β} {spans : List (Span β)} {place : ℕ} {mark : β} :
    Carries (span :: spans) place mark ↔
      (span.mark = mark ∧ span.start ≤ place ∧ place < span.stop) ∨ Carries spans place mark := by
  simp [Carries]

theorem carries_congr {spans spans' : List (Span β)} (h : ∀ span, span ∈ spans ↔ span ∈ spans') {place : ℕ}
    {mark : β} : Carries spans place mark ↔ Carries spans' place mark :=
  exists_congr fun span => and_congr_left' (h span)

end

/-! ### Merging -/

/-- The comparison of `mergeStyleSpans`. -/
def compareSpans (a b : MarkdownStyleSpan) : ℤ :=
  if a.start ≠ b.start then a.start - b.start
  else if a.stop ≠ b.stop then a.stop - b.stop
  else a.mark.place - b.mark.place

/-- The first span does not have to stand behind the second. -/
def SpanLe (a b : MarkdownStyleSpan) : Prop := compareSpans a b ≤ 0

instance : DecidableRel SpanLe := fun a b => inferInstanceAs (Decidable (compareSpans a b ≤ 0))

/-- What the loop of `mergeStyleSpans` makes of a span; the spans so far stand last first. -/
def mergeSpan (merged : List MarkdownStyleSpan) (span : MarkdownStyleSpan) : List MarkdownStyleSpan :=
  match merged with
  | prev :: rest =>
    if prev.mark = span.mark ∧
        (span.start < prev.stop ∨ (span.start = prev.stop ∧ span.mark ≠ .blockquote)) then
      { prev with stop := max prev.stop span.stop } :: rest
    else span :: prev :: rest
  | [] => [span]

def mergeStyleSpans (spans : List MarkdownStyleSpan) : List MarkdownStyleSpan :=
  ((spans.insertionSort SpanLe).foldl mergeSpan []).reverse

theorem SpanLe.start_le {a b : MarkdownStyleSpan} (h : SpanLe a b) : a.start ≤ b.start := by
  unfold SpanLe compareSpans at h
  split_ifs at h <;> omega

instance : IsTrans MarkdownStyleSpan SpanLe where
  trans a b c hab hbc := by
    unfold SpanLe compareSpans at *
    split_ifs at * <;> omega

instance : Std.Total SpanLe where
  total a b := by
    unfold SpanLe compareSpans
    split_ifs <;> omega

theorem pairwise_start_insertionSort (spans : List MarkdownStyleSpan) :
    (spans.insertionSort SpanLe).Pairwise fun a b => a.start ≤ b.start :=
  (pairwise_insertionSort SpanLe spans).imp SpanLe.start_le

/-- The spans so far begin before all that follow. -/
def BeginsBefore (merged spans : List MarkdownStyleSpan) : Prop :=
  ∀ prev ∈ merged.head?, ∀ span ∈ spans, prev.start ≤ span.start

variable {merged : List MarkdownStyleSpan}

variable {spans : List MarkdownStyleSpan}

theorem BeginsBefore.mergeSpan {span : MarkdownStyleSpan} (h : BeginsBefore merged (span :: spans))
    (hspan : ∀ span' ∈ spans, span.start ≤ span'.start) : BeginsBefore (mergeSpan merged span) spans := by
  intro prev hprev span' hspan'
  cases merged with
  | nil =>
    obtain rfl : span = prev := Option.some.inj hprev
    exact hspan span' hspan'
  | cons last rest =>
    rw [Markdown.mergeSpan] at hprev
    split_ifs at hprev
    · obtain rfl := Option.some.inj hprev
      exact h last rfl span' (mem_cons_of_mem _ hspan')
    · obtain rfl : span = prev := Option.some.inj hprev
      exact hspan span' hspan'

/-- Merging one span changes what no character carries. -/
theorem carries_mergeSpan {span : MarkdownStyleSpan}
    (h : ∀ prev ∈ merged.head?, prev.start ≤ span.start) (place : ℕ) (style : MarkdownStyle) :
    Carries (mergeSpan merged span) place style ↔ Carries (span :: merged) place style := by
  cases merged with
  | nil => exact Iff.rfl
  | cons prev rest =>
    have hle : prev.start ≤ span.start := h prev rfl
    rw [mergeSpan]
    by_cases hmerge : prev.mark = span.mark ∧
        (span.start < prev.stop ∨ (span.start = prev.stop ∧ span.mark ≠ .blockquote))
    · rw [if_pos hmerge, carries_cons, carries_cons, carries_cons, ← or_assoc]
      obtain ⟨hmark, hmeet⟩ := hmerge
      have hmeet : span.start ≤ prev.stop := by
        rcases hmeet with h | ⟨h, -⟩
        · exact h.le
        · exact h.le
      refine or_congr_left ?_
      rw [hmark, ← and_or_left]
      refine and_congr_right fun _ => ?_
      show prev.start ≤ place ∧ place < max prev.stop span.stop ↔ _
      omega
    · rw [if_neg hmerge]

theorem carries_foldl_mergeSpan (hsorted : spans.Pairwise fun a b => a.start ≤ b.start)
    (h : BeginsBefore merged spans) (place : ℕ) (style : MarkdownStyle) :
    Carries (spans.foldl mergeSpan merged) place style ↔
      Carries spans place style ∨ Carries merged place style := by
  induction spans generalizing merged with
  | nil =>
    rw [foldl_nil]
    exact ⟨.inr, fun h => h.resolve_left (carries_nil place style)⟩
  | cons span spans ih =>
    obtain ⟨hspan, hsorted⟩ := pairwise_cons.mp hsorted
    rw [foldl_cons, ih hsorted (h.mergeSpan hspan),
      carries_mergeSpan fun prev hprev => h prev hprev span mem_cons_self, carries_cons, carries_cons]
    tauto

/-- Merging changes what no character carries. -/
theorem carries_mergeStyleSpans (spans : List MarkdownStyleSpan) (place : ℕ) (style : MarkdownStyle) :
    Carries (mergeStyleSpans spans) place style ↔ Carries spans place style := by
  have hbefore : BeginsBefore [] (spans.insertionSort SpanLe) := fun prev hprev => by cases hprev
  rw [mergeStyleSpans, carries_congr fun span => mem_reverse,
    carries_foldl_mergeSpan (pairwise_start_insertionSort spans) hbefore,
    carries_congr fun span => mem_insertionSort SpanLe]
  exact ⟨fun h => h.resolve_right (carries_nil place style), .inl⟩

/-! ### Cutting -/

section
variable {β : Type}

/-- `resolveSliceBounds`, with the bounds counted from `start`. -/
def sliceSpan (start stop : ℕ) (span : Span β) : Option (Span β) :=
  let sliceStart := max span.start start
  let sliceEnd := min span.stop stop
  if sliceEnd ≤ sliceStart then none
  else some { start := sliceStart - start, stop := sliceEnd - start, mark := span.mark }

/-- The loop of `sliceStyleSpans` and of `sliceLinkSpans`. -/
def sliceSpans (spans : List (Span β)) (start stop : ℕ) : List (Span β) :=
  spans.filterMap (sliceSpan start stop)

/-- A part of the text carries what the text carries there. -/
theorem carries_sliceSpans (spans : List (Span β)) (start stop place : ℕ) (mark : β) :
    Carries (sliceSpans spans start stop) place mark ↔
      start + place < stop ∧ Carries spans (start + place) mark := by
  constructor
  · rintro ⟨cut, hcut, rfl, hstart, hstop⟩
    obtain ⟨span, hspan, hsome⟩ := mem_filterMap.mp hcut
    unfold sliceSpan at hsome
    dsimp only at hsome
    split_ifs at hsome
    obtain rfl := Option.some.inj hsome
    dsimp only at hstart hstop
    exact ⟨by omega, span, hspan, rfl, by omega, by omega⟩
  · rintro ⟨hlt, span, hspan, rfl, hstart, hstop⟩
    have hbounds : ¬ min span.stop stop ≤ max span.start start := by omega
    refine ⟨⟨max span.start start - start, min span.stop stop - start, span.mark⟩,
      mem_filterMap.mpr ⟨span, hspan, if_neg hbounds⟩, rfl, ?_, ?_⟩
    · show max span.start start - start ≤ place
      omega
    · show place < min span.stop stop - start
      omega

end

def sliceStyleSpans (spans : List MarkdownStyleSpan) (start stop : ℕ) : List MarkdownStyleSpan :=
  if spans.length = 0 then [] else mergeStyleSpans (sliceSpans spans start stop)

def sliceLinkSpans (spans : List MarkdownLinkSpan) (start stop : ℕ) : List MarkdownLinkSpan :=
  if spans.length = 0 then [] else sliceSpans spans start stop

theorem carries_sliceStyleSpans (spans : List MarkdownStyleSpan) (start stop place : ℕ) (style : MarkdownStyle) :
    Carries (sliceStyleSpans spans start stop) place style ↔
      start + place < stop ∧ Carries spans (start + place) style := by
  rw [sliceStyleSpans]
  split_ifs with hempty
  · obtain rfl := eq_nil_of_length_eq_zero hempty
    exact ⟨fun h => absurd h (carries_nil _ _), fun h => absurd h.2 (carries_nil _ _)⟩
  · rw [carries_mergeStyleSpans, carries_sliceSpans]

theorem carries_sliceLinkSpans (spans : List MarkdownLinkSpan) (start stop place : ℕ) (href : CodeUnits) :
    Carries (sliceLinkSpans spans start stop) place href ↔
      start + place < stop ∧ Carries spans (start + place) href := by
  rw [sliceLinkSpans]
  split_ifs with hempty
  · obtain rfl := eq_nil_of_length_eq_zero hempty
    exact ⟨fun h => absurd h (carries_nil _ _), fun h => absurd h.2 (carries_nil _ _)⟩
  · rw [carries_sliceSpans]

end Foxclaw.Markdown
