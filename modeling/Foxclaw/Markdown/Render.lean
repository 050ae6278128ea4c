import Mathlib.Data.List.Dedup
import Mathlib.Data.List.ReduceOption
import Foxclaw.Lib.JsMap
import Foxclaw.Lib.SpanStack
import Foxclaw.Markdown.MarkdownToIr

/-!
# Writing markers

This module models `renderMarkdownWithMarkers` of `markdown/render.ts`: it writes a text with styles and
links, with a marker at the start and one at the end of each span.

## The model

The output is a list of pieces: markers, and the escaped parts of the text between them. What the code
keeps of a marker on its stack is where it is to be closed and the text for that; here it is all of the
marker, so that the pieces tell which marker is closed. `buildLink` may return other bounds than those of
the link.

## What is proved

* `render_eq_written` — the loop writes what `SpanStack.written` does.
* `wellRendered_iff`, `markdown_wellRendered_iff` — the markers are complete and well nested exactly if no
  two spans cross.
* `crossing_tokens` — markdown can have spans that cross: `*x __a__*__b__` is one bold span, as adjacent
  bold spans are merged, of which only a part is italic.
-/

namespace Foxclaw.Markdown

open JsMap List Option CodeUnits SpanStack

structure RenderStyleMarker where
  /-- `open`. -/
  opening : CodeUnits
  /-- `close`. -/
  closing : CodeUnits

/-- `RenderLink`; also a style span with its markers. -/
structure RenderLink where
  start : ℕ
  /-- `end`. -/
  stop : ℕ
  /-- `open`. -/
  opening : CodeUnits
  /-- `close`. -/
  closing : CodeUnits
  deriving DecidableEq

structure RenderOptions where
  styleMarkers : MarkdownStyle → Option RenderStyleMarker
  escapeText : CodeUnits → CodeUnits
  buildLink : Option (MarkdownLinkSpan → CodeUnits → Option RenderLink)

def STYLE_RANK : MarkdownStyle → ℤ
  | .blockquote => 0
  | .codeBlock => 1
  | .code => 2
  | .bold => 3
  | .italic => 4
  | .strikethrough => 5
  | .spoiler => 6

/-- The comparison of spans that start at the same place. -/
def compareBucket (a b : MarkdownStyleSpan) : ℤ :=
  if a.stop ≠ b.stop then b.stop - a.stop else STYLE_RANK a.mark - STYLE_RANK b.mark

/-- The comparison of `sortStyleSpans`. -/
def compareStyleSpans (a b : MarkdownStyleSpan) : ℤ :=
  if a.start ≠ b.start then a.start - b.start else compareBucket a b

/-- `toSorted`, and `sort`. -/
def sortBy {α : Type} (compare : α → α → ℤ) (l : List α) : List α :=
  l.insertionSort fun a b => compare a b ≤ 0

/-- Put a value into its bucket. -/
def addTo {α : Type} (buckets : JsMap ℕ (List α)) (key : ℕ) (a : α) : JsMap ℕ (List α) :=
  match buckets.get? key with
  | some bucket => buckets.set key (bucket ++ [a])
  | none => buckets.set key [a]

variable (options : RenderOptions) (ir : MarkdownIR)

def styled : List MarkdownStyleSpan :=
  sortBy compareStyleSpans (ir.styles.filter fun span => (options.styleMarkers span.mark).isSome)

def startsAt : JsMap ℕ (List MarkdownStyleSpan) :=
  let buckets := (styled options ir).foldl
    (fun buckets span => if span.start = span.stop then buckets else addTo buckets span.start span) .empty
  buckets.mapEntries fun _ => sortBy compareBucket

/-- The links that are rendered, in order. -/
def renderedLinks : List RenderLink :=
  match options.buildLink with
  | none => []
  | some buildLink => ir.links.filterMap fun link =>
    if link.start = link.stop then none else buildLink link ir.text

def linkStarts : JsMap ℕ (List RenderLink) :=
  (renderedLinks options ir).foldl (fun buckets link => addTo buckets link.start link) .empty

def boundaries : List ℕ :=
  [0, ir.text.length] ++
    ((styled options ir).filter fun span => span.start ≠ span.stop).flatMap (fun span => [span.start, span.stop]) ++
    (renderedLinks options ir).flatMap fun link => [link.start, link.stop]

def points : List ℕ :=
  (boundaries options ir).dedup.insertionSort (· ≤ ·)

/-- What an `OpeningItem` is of, with its index in its bucket. -/
inductive OpeningKind where
  | link (index : ℕ)
  | style (style : MarkdownStyle) (index : ℕ)

structure OpeningItem where
  /-- `end`. -/
  stop : ℕ
  /-- `open`. -/
  opening : CodeUnits
  /-- `close`. -/
  closing : CodeUnits
  /-- `kind`, with `style` and `index`. -/
  kind : OpeningKind

/-- The comparison of `openingItems`. -/
def compareOpening (a b : OpeningItem) : ℤ :=
  if a.stop ≠ b.stop then b.stop - a.stop
  else
    match a.kind, b.kind with
    | .link _, .style _ _ => -1
    | .style _ _, .link _ => 1
    | .style s _, .style t _ => STYLE_RANK s - STYLE_RANK t
    | .link i, .link j => i - j

/-- `openingItems`, sorted. -/
def openingItems (pos : ℕ) : List OpeningItem :=
  let openingLinks := ((linkStarts options ir).get? pos).getD []
  let openingStyles := ((startsAt options ir).get? pos).getD []
  sortBy compareOpening
    ((openingLinks.mapIdx fun index link =>
        { stop := link.stop, opening := link.opening, closing := link.closing, kind := .link index }) ++
      (openingStyles.mapIdx fun index span =>
        (options.styleMarkers span.mark).map fun marker =>
          { stop := span.stop, opening := marker.opening, closing := marker.closing
            kind := .style span.mark index }).reduceOption)

/-- An item that is opened. -/
def OpeningItem.at (pos : ℕ) (item : OpeningItem) : RenderLink :=
  { start := pos, stop := item.stop, opening := item.opening, closing := item.closing }

/-- The `while` that closes what ends at a place: what it writes, and the stack after it. -/
def popAt (pos : ℕ) : List RenderLink → List (SpanStack.Piece RenderLink CodeUnits) × List RenderLink
  | [] => ([], [])
  | item :: stack =>
    if item.stop = pos then
      let (out, stack) := popAt pos stack
      (.closing item :: out, stack)
    else ([], item :: stack)

/-- The loop over the points. -/
def renderPoints (options : RenderOptions) (ir : MarkdownIR) (stack : List RenderLink) :
    List ℕ → List (SpanStack.Piece RenderLink CodeUnits)
  | [] => []
  | pos :: points =>
    let (closed, stack) := popAt pos stack
    let opened := (openingItems options ir pos).map (OpeningItem.at pos)
    let stack := opened.foldl (fun stack item => item :: stack) stack
    closed ++ opened.map .opening ++
      match points with
      | [] => []
      | next :: _ =>
        (if pos < next then [.plain (options.escapeText (slice ir.text pos next))] else []) ++
          renderPoints options ir stack points

/-- The pieces that `renderMarkdownWithMarkers` writes. -/
def pieces : List (SpanStack.Piece RenderLink CodeUnits) :=
  if ir.text = [] then [] else renderPoints options ir [] (points options ir)

/-- What a piece is in the output. -/
def pieceText : SpanStack.Piece RenderLink CodeUnits → CodeUnits
  | .opening item => item.opening
  | .closing item => item.closing
  | .plain text => text

def renderMarkdownWithMarkers (options : RenderOptions) : CodeUnits :=
  (pieces options ir).flatMap pieceText

/-! ### What is to be marked -/

variable {options : RenderOptions} {ir : MarkdownIR}

/-- A style span with its markers, if the style has any. -/
def markStyle (options : RenderOptions) (span : MarkdownStyleSpan) : Option RenderLink :=
  (options.styleMarkers span.mark).map fun marker =>
    { start := span.start, stop := span.stop, opening := marker.opening, closing := marker.closing }

/-- The links that are rendered, and the style spans that are not empty and have a marker. -/
def marked (options : RenderOptions) (ir : MarkdownIR) : List RenderLink :=
  renderedLinks options ir ++ (ir.styles.filter fun span => span.start ≠ span.stop).filterMap (markStyle options)

/-- The parts of the text between the places where something is marked. -/
def slices (options : RenderOptions) (ir : MarkdownIR) : List CodeUnits :=
  ((points options ir).zip (points options ir).tail).map fun e => slice ir.text e.1 e.2

/-- Each span is marked at its start and its end, the markers are well nested, and without them the output
is the escaped text. -/
structure WellRendered (options : RenderOptions) (ir : MarkdownIR) : Prop where
  nested : Nested [] (pieces options ir)
  /-- Each span has one opening marker. -/
  opened : (openings (pieces options ir)).Perm (marked options ir)
  /-- Each span has one closing marker. -/
  closed : (closings (pieces options ir)).Perm (marked options ir)
  kept : (plains (pieces options ir)).flatten = options.escapeText ir.text

/-! ### Buckets -/

theorem get?_addTo {α : Type} (buckets : JsMap ℕ (List α)) (key : ℕ) (a : α) (k : ℕ) :
    ((addTo buckets key a).get? k).getD [] =
      (buckets.get? k).getD [] ++ if key = k then [a] else [] := by
  unfold addTo
  by_cases hk : key = k
  · subst hk
    cases buckets.get? key <;> simp
  · cases buckets.get? key <;> simp [get?_set, hk]

/-- A bucket holds what has its key, in order. -/
theorem get?_foldl_addTo {α : Type} (key : α → ℕ) (as : List α) (buckets : JsMap ℕ (List α)) (k : ℕ) :
    ((as.foldl (fun buckets a => addTo buckets (key a) a) buckets).get? k).getD [] =
      (buckets.get? k).getD [] ++ as.filter fun a => key a = k := by
  induction as generalizing buckets with
  | nil => simp
  | cons a as ih =>
    rw [foldl_cons, ih, get?_addTo, append_assoc, filter_cons]
    by_cases hk : key a = k <;> simp [hk]

variable (pos : ℕ)

theorem linkStarts_bucket :
    ((linkStarts options ir).get? pos).getD [] = (renderedLinks options ir).filter fun link => link.start = pos := by
  rw [linkStarts, get?_foldl_addTo]
  rfl

theorem startsAt_bucket :
    (((startsAt options ir).get? pos).getD []).Perm
      (ir.styles.filter fun span =>
        (options.styleMarkers span.mark).isSome ∧ span.start ≠ span.stop ∧ span.start = pos) := by
  have hskip : ∀ (spans : List MarkdownStyleSpan) (buckets : JsMap ℕ (List MarkdownStyleSpan)),
      spans.foldl (fun buckets span =>
        if span.start = span.stop then buckets else addTo buckets span.start span) buckets =
        (spans.filter fun span => span.start ≠ span.stop).foldl
          (fun buckets span => addTo buckets span.start span) buckets := by
    intro spans
    induction spans with
    | nil => exact fun _ => rfl
    | cons span spans ih =>
      intro buckets
      by_cases hempty : span.start = span.stop <;> simp [hempty, ih]
  have hget := get?_foldl_addTo (fun span : MarkdownStyleSpan => span.start)
    ((styled options ir).filter fun span => span.start ≠ span.stop) .empty pos
  rw [← hskip] at hget
  have hsort : ((startsAt options ir).get? pos).getD [] = sortBy compareBucket
      (((styled options ir).filter fun span => span.start ≠ span.stop).filter fun span => span.start = pos) := by
    rw [startsAt, get?_mapEntries]
    simp only [get?_empty, getD_none, nil_append] at hget
    rw [← hget]
    cases JsMap.get? _ pos <;> rfl
  rw [hsort]
  refine (perm_insertionSort _ _).trans ?_
  refine (((perm_insertionSort _ _).filter _).filter _).trans (List.Perm.of_eq ?_)
  rw [List.filter_filter, List.filter_filter]
  refine filter_congr fun span _ => ?_
  simp only [Bool.decide_and, Bool.decide_eq_true, ne_eq, decide_not]
  cases (options.styleMarkers span.mark).isSome <;> cases decide (span.start = span.stop) <;>
    cases decide (span.start = pos) <;> rfl

/-! ### What is opened at a point -/

instance : IsTrans OpeningItem fun a b => compareOpening a b ≤ 0 where
  trans a b c hab hbc := by
    obtain ⟨as, ao, ac, ak⟩ := a
    obtain ⟨bs, bo, bc, bk⟩ := b
    obtain ⟨cs, co, cc, ck⟩ := c
    cases ak <;> cases bk <;> cases ck <;> simp only [compareOpening] at * <;> split_ifs at * <;> omega

instance : Std.Total fun a b : OpeningItem => compareOpening a b ≤ 0 where
  total a b := by
    obtain ⟨as, ao, ac, ak⟩ := a
    obtain ⟨bs, bo, bc, bk⟩ := b
    cases ak <;> cases bk <;> simp only [compareOpening] <;> split_ifs <;> omega

theorem stop_le_of_compareOpening {a b : OpeningItem} (h : compareOpening a b ≤ 0) : b.stop ≤ a.stop := by
  unfold compareOpening at h
  split_ifs at h <;> omega

theorem openingItems_perm :
    ((openingItems options ir pos).map (OpeningItem.at pos)).Perm
      ((marked options ir).filter fun link => link.start = pos) := by
  have hlinks : ∀ links : List RenderLink, (∀ link ∈ links, link.start = pos) →
      (links.mapIdx fun index link => ({ stop := link.stop, opening := link.opening
                                         closing := link.closing, kind := .link index } : OpeningItem)).map
        (OpeningItem.at pos) = links := by
    intro links hlinks
    refine ext_getElem (by simp) fun i h h' => ?_
    have hstart := hlinks _ (getElem_mem h')
    simp [OpeningItem.at, ← hstart]
  have hstyles : ∀ spans : List MarkdownStyleSpan, (∀ span ∈ spans, span.start = pos) →
      ((spans.mapIdx fun index span => (options.styleMarkers span.mark).map fun marker =>
        ({ stop := span.stop, opening := marker.opening, closing := marker.closing
           kind := .style span.mark index } : OpeningItem)).reduceOption).map (OpeningItem.at pos) =
        spans.filterMap (markStyle options) := by
    intro spans hspans
    have hmark : (spans.mapIdx fun index span => (options.styleMarkers span.mark).map fun marker =>
        ({ stop := span.stop, opening := marker.opening, closing := marker.closing
           kind := .style span.mark index } : OpeningItem)).map (Option.map (OpeningItem.at pos)) =
        spans.map (markStyle options) := by
      refine ext_getElem (by simp) fun i h h' => ?_
      have hstart := hspans _ (getElem_mem (by simpa using h'))
      simp [markStyle, OpeningItem.at, ← hstart, Function.comp_def]
    rw [← reduceOption_map, hmark]
    exact filterMap_map
  rw [openingItems, marked, filter_append]
  refine ((perm_insertionSort _ _).map _).trans ?_
  rw [map_append, linkStarts_bucket, hlinks _ fun link hlink => by simpa using (mem_filter.mp hlink).2]
  refine List.Perm.append_left _ ?_
  rw [hstyles _ fun span hspan => by
    have := (startsAt_bucket pos).mem_iff.mp hspan
    simp only [mem_filter, decide_eq_true_eq] at this
    exact this.2.2.2]
  refine ((startsAt_bucket pos).filterMap _).trans (List.Perm.of_eq ?_)
  rw [filter_filterMap, filterMap_filter, filterMap_filter]
  refine filterMap_congr fun span _ => ?_
  unfold markStyle
  cases options.styleMarkers span.mark with
  | none => simp
  | some marker =>
    by_cases hempty : span.start = span.stop
    · simp [hempty]
    · by_cases hpos : span.start = pos
      · subst hpos
        simp [hempty, filter_some]
      · simp [hempty, hpos, filter_some]

theorem openingItems_longest :
    ((openingItems options ir pos).map (OpeningItem.at pos)).Pairwise fun a b => b.stop ≤ a.stop :=
  pairwise_map.mpr ((pairwise_insertionSort (fun a b => compareOpening a b ≤ 0) _).imp
    stop_le_of_compareOpening)

/-! ### The points -/

theorem mem_points {pos : ℕ} : pos ∈ points options ir ↔ pos ∈ boundaries options ir := by
  rw [points, mem_insertionSort, mem_dedup]

theorem points_sorted : (points options ir).Pairwise (· < ·) := by
  have hle : (points options ir).Pairwise (· ≤ ·) := pairwise_insertionSort (· ≤ ·) _
  have hne : (points options ir).Nodup := (perm_insertionSort _ _).nodup_iff.mpr (nodup_dedup _)
  exact hle.imp₂ (fun _ _ hle hne => lt_of_le_of_ne hle hne) hne

theorem mem_boundaries {link : RenderLink} (h : link ∈ marked options ir) :
    link.start ∈ boundaries options ir ∧ link.stop ∈ boundaries options ir := by
  rcases mem_append.mp h with hlink | hstyle
  · constructor
    · exact mem_append_right _ (mem_flatMap.mpr ⟨link, hlink, by simp⟩)
    · exact mem_append_right _ (mem_flatMap.mpr ⟨link, hlink, by simp⟩)
  · obtain ⟨span, hspan, hmark⟩ := mem_filterMap.mp hstyle
    obtain ⟨marker, hmarker, rfl⟩ := map_eq_some_iff.mp hmark
    obtain ⟨hspan, hempty⟩ := mem_filter.mp hspan
    have hstyled : span ∈ (styled options ir).filter fun span => span.start ≠ span.stop := by
      refine mem_filter.mpr ⟨(mem_insertionSort _).mpr (mem_filter.mpr ⟨hspan, ?_⟩), hempty⟩
      rw [hmarker]
      rfl
    constructor
    · exact mem_append_left _ (mem_append_right _ (mem_flatMap.mpr ⟨span, hstyled, by simp⟩))
    · exact mem_append_left _ (mem_append_right _ (mem_flatMap.mpr ⟨span, hstyled, by simp⟩))

theorem plan (options : RenderOptions) (ir : MarkdownIR) :
    Plan RenderLink.start RenderLink.stop (marked options ir) (points options ir) fun pos =>
      (openingItems options ir pos).map (OpeningItem.at pos) where
  sorted := points_sorted
  start_mem _ h := mem_points.mpr (mem_boundaries h).1
  stop_mem _ h := mem_points.mpr (mem_boundaries h).2
  perm := openingItems_perm
  longest := openingItems_longest

/-! ### The loop -/

variable (stack : List RenderLink)

theorem popAt_eq :
    popAt pos stack = ((closed RenderLink.stop stack pos).map .closing,
      stack.dropWhile fun item => item.stop = pos) := by
  induction stack with
  | nil => rfl
  | cons item stack ih =>
    rw [popAt, closed]
    by_cases hstop : item.stop = pos
    · rw [if_pos hstop, ih, takeWhile_cons_of_pos (by simpa using hstop),
        dropWhile_cons_of_pos (by simpa using hstop)]
      rfl
    · rw [if_neg hstop, takeWhile_cons_of_neg (by simpa using hstop),
        dropWhile_cons_of_neg (by simpa using hstop)]
      rfl

/-- The escaped text between two places. -/
def between (options : RenderOptions) (ir : MarkdownIR) (pos next : ℕ) : List CodeUnits :=
  if pos < next then [options.escapeText (slice ir.text pos next)] else []

/-- The loop writes the brackets of the stack. -/
theorem render_eq_written (places : List ℕ) :
    renderPoints options ir stack places =
      written RenderLink.stop (fun pos => (openingItems options ir pos).map (OpeningItem.at pos))
        (between options ir) stack places := by
  induction places generalizing stack with
  | nil => rfl
  | cons pos places ih =>
    have hpush : ∀ opened stack : List RenderLink,
        opened.foldl (fun stack item => item :: stack) stack = opened.reverse ++ stack := by
      intro opened
      induction opened with
      | nil => exact fun _ => rfl
      | cons item opened ih => exact fun stack => by simp [ih]
    rw [renderPoints, popAt_eq]
    dsimp only
    cases places with
    | nil => rw [written, append_nil]
    | cons next places =>
      dsimp only
      rw [written, hpush, ih, between, append_assoc _ _ (written _ _ _ _ _)]
      congr 2
      split <;> rfl

theorem plains_renderPoints :
    (plains (renderPoints options ir stack (points options ir))).flatten =
      ((slices options ir).map options.escapeText).flatten := by
  rw [render_eq_written, plains_written, slices, List.map_map]
  have hlt : ∀ e ∈ (points options ir).zip (points options ir).tail, e.1 < e.2 := by
    intro e he
    obtain ⟨i, hi, rfl⟩ := mem_iff_getElem.mp he
    simp only [length_zip, length_tail] at hi
    rw [getElem_zip, getElem_tail]
    exact pairwise_iff_getElem.mp points_sorted i (i + 1) (by omega) (by omega) (by omega)
  have heach : ((points options ir).zip (points options ir).tail).flatMap (fun e => between options ir e.1 e.2) =
      ((points options ir).zip (points options ir).tail).map fun e => options.escapeText (slice ir.text e.1 e.2) := by
    rw [← flatMap_pure_eq_map]
    refine flatMap_congr fun e he => ?_
    rw [between, if_pos (hlt e he)]
    rfl
  rw [heach]
  rfl

/-- The markers are right exactly if every rendered link has a beginning before its end, no two spans
cross, and the escaped parts of the text are the escaped text. -/
theorem wellRendered_iff (hempty : ir.text = [] → marked options ir = []) :
    WellRendered options ir ↔
      (∀ a ∈ marked options ir, a.start < a.stop) ∧
        (∀ a ∈ marked options ir, ∀ b ∈ marked options ir, ¬ Crosses RenderLink.start RenderLink.stop a b) ∧
        ((slices options ir).map options.escapeText).flatten = options.escapeText ir.text := by
  by_cases htext : ir.text = []
  · have hnone := hempty htext
    have hpieces : pieces options ir = [] := if_pos htext
    have hslices : ((slices options ir).map options.escapeText).flatten = [] := by
      obtain ⟨hlinks, hstyles⟩ := append_eq_nil_iff.mp hnone
      have hboundaries : boundaries options ir = [0, 0] := by
        have hstyled : (styled options ir).filter (fun span => span.start ≠ span.stop) = [] := by
          refine filter_eq_nil_iff.mpr fun span hspan => ?_
          obtain ⟨hmem, hmarker⟩ := mem_filter.mp ((mem_insertionSort _).mp hspan)
          intro hne
          obtain ⟨marker, hmarker⟩ := isSome_iff_exists.mp hmarker
          have := filterMap_eq_nil_iff.mp hstyles span (mem_filter.mpr ⟨hmem, hne⟩)
          rw [markStyle, hmarker] at this
          cases this
        rw [boundaries, hlinks, hstyled, htext]
        rfl
      rw [slices, points, hboundaries]
      rfl
    rw [hslices, hnone]
    constructor
    · rintro ⟨-, -, -, hkept⟩
      rw [hpieces] at hkept
      exact ⟨fun a ha => absurd ha not_mem_nil, fun a ha => absurd ha not_mem_nil, hkept⟩
    · rintro ⟨-, -, hkept⟩
      refine ⟨?_, ?_, ?_, ?_⟩ <;> rw [hpieces]
      · rfl
      · rw [hnone]
        rfl
      · rw [hnone]
        rfl
      · exact hkept
  · have hpieces : pieces options ir = renderPoints options ir [] (points options ir) := if_neg htext
    have hplan := plan options ir
    have hopened : (openings (pieces options ir)).Perm (marked options ir) := by
      rw [hpieces, render_eq_written]
      exact openings_written_perm hplan []
    obtain ⟨pos, places, hpoints⟩ : ∃ pos places, points options ir = pos :: places :=
      exists_cons_of_ne_nil (ne_nil_of_mem (mem_points.mpr mem_cons_self))
    have hnested : Nested [] (pieces options ir) ↔ (∀ a ∈ marked options ir, a.start < a.stop) ∧
        ∀ a ∈ marked options ir, ∀ b ∈ marked options ir, ¬ Crosses RenderLink.start RenderLink.stop a b := by
      rw [hpieces, render_eq_written, ← foldl_step_eq_nil_iff hplan, hpoints]
      exact nested_written
    have hkept : (plains (pieces options ir)).flatten = ((slices options ir).map options.escapeText).flatten := by
      rw [hpieces]
      exact plains_renderPoints []
    constructor
    · rintro ⟨hn, -, -, hk⟩
      exact ⟨(hnested.mp hn).1, (hnested.mp hn).2, hkept.symm.trans hk⟩
    · rintro ⟨hpos, hcross, hk⟩
      have hn := hnested.mpr ⟨hpos, hcross⟩
      exact ⟨hn, hopened, hn.closings_perm.trans hopened, hkept.trans hk⟩

/-! ### Markdown -/

/-- For markdown, the markers are right exactly if every rendered link has a beginning before its end, no
two spans cross, and the escaped parts of the text are the escaped text. -/
theorem markdown_wellRendered_iff (parseOptions : MarkdownParseOptions) (tokens : List MarkdownToken)
    (options : RenderOptions) :
    WellRendered options (markdownToIR parseOptions tokens) ↔
      (∀ link ∈ renderedLinks options (markdownToIR parseOptions tokens), link.start < link.stop) ∧
        (∀ a ∈ marked options (markdownToIR parseOptions tokens),
          ∀ b ∈ marked options (markdownToIR parseOptions tokens),
            ¬ Crosses RenderLink.start RenderLink.stop a b) ∧
        ((slices options (markdownToIR parseOptions tokens)).map options.escapeText).flatten =
          options.escapeText (markdownToIR parseOptions tokens).text := by
  obtain ⟨hstyles, hlinks⟩ := markdownToIR_within parseOptions tokens
  generalize markdownToIR parseOptions tokens = ir at hstyles hlinks
  have hspans : ∀ a ∈ (ir.styles.filter fun span => span.start ≠ span.stop).filterMap (markStyle options),
      a.start < a.stop := by
    intro a ha
    obtain ⟨span, hspan, hmark⟩ := mem_filterMap.mp ha
    obtain ⟨marker, -, rfl⟩ := map_eq_some_iff.mp hmark
    exact (hstyles span (mem_filter.mp hspan).1).1
  have hempty : ir.text = [] → marked options ir = [] := by
    intro htext
    have hno : ∀ {β : Type} {spans : List (Span β)},
        (∀ s ∈ spans, s.start < s.stop ∧ s.stop ≤ ir.text.length) → spans = [] := by
      intro β spans h
      refine eq_nil_iff_forall_not_mem.mpr fun span hspan => ?_
      have := h span hspan
      rw [htext, length_nil] at this
      omega
    rw [marked, hno hstyles, renderedLinks, hno hlinks]
    cases options.buildLink <;> rfl
  rw [wellRendered_iff hempty]
  refine and_congr_left' ⟨fun h a ha => h a (mem_append_left _ ha), fun h a ha => ?_⟩
  exact (mem_append.mp ha).elim (h a) (hspans a)

/-- `MARKDOWN_STYLE_MARKERS` of `markdown/tables.ts`, with text that is not escaped. -/
def MARKDOWN_STYLE_MARKERS : RenderOptions where
  styleMarkers
    | .bold => some { opening := ofString "**", closing := ofString "**" }
    | .italic => some { opening := ofString "_", closing := ofString "_" }
    | .strikethrough => some { opening := ofString "~~", closing := ofString "~~" }
    | .code => some { opening := [0x60], closing := [0x60] }
    | .codeBlock => some { opening := [0x60, 0x60, 0x60, newline], closing := [0x60, 0x60, 0x60] }
    | _ => none
  escapeText := id
  buildLink := none

/-- The tokens of `*x __a__*__b__`. -/
def crossingTokens : List MarkdownToken :=
  let token (type : TokenType) := MarkdownToken.mk type [] none none []
  let text (content : String) := MarkdownToken.mk .text (ofString content) none none []
  [token .other,
    .mk .inline [] none none
      [token .emOpen, text "x ", token .strongOpen, text "a", token .strongClose, token .emClose,
        token .strongOpen, text "b", token .strongClose],
    token .paragraphClose]

/-- The two bold spans are merged, and only a part of the result is italic: the italic marker is not
closed. -/
theorem crossing_tokens : ¬ WellRendered MARKDOWN_STYLE_MARKERS (markdownToIR {} crossingTokens) := by
  intro h
  have hlengths : (closings (pieces MARKDOWN_STYLE_MARKERS (markdownToIR {} crossingTokens))).length ≠
      (openings (pieces MARKDOWN_STYLE_MARKERS (markdownToIR {} crossingTokens))).length := by decide +kernel
  exact hlengths (h.closed.trans h.opened.symm).length_eq

/- What is written. -/
example : renderMarkdownWithMarkers (markdownToIR {} crossingTokens) MARKDOWN_STYLE_MARKERS =
    ofString "_x **ab**" := by
  decide +kernel

end Foxclaw.Markdown
