import Foxclaw.AutoReply.ChunkText
import Foxclaw.Markdown.Ir

/-!
# Chunks of a text with styles and links

This module models `chunkMarkdownIR` of `markdown/ir.ts`: the text is cut by `chunkText`, and the
place of each chunk in the text, which the chunker does not tell, is found again by skipping the
white space after the chunk before; the spans are cut at these places.

## What is proved

* `Covered` — what it is for chunks to stand at their places; `covered_placeFrom` — chunks that split
  the text do.
* `placedChunks_keepsStyles_iff` — the chunks keep the styles exactly when the first part of the text
  leaves a chunk.
-/

namespace Foxclaw.Markdown.ChunkIr

open List CodeUnits
open Agents.BlockChunker (isSpaceAt)
open AutoReply.ChunkText

/-- The loop that skips white space at the cursor. -/
def skipSpaces (text : CodeUnits) (cursor : ℕ) : ℕ := cursor + ((text.drop cursor).takeWhile isSpace).length

/-- What the loop of `chunkMarkdownIR` makes of the chunks from an index on, each with the place that
its spans are counted from. -/
def placeFrom (ir : MarkdownIR) : ℕ → ℕ → List CodeUnits → List (ℕ × MarkdownIR)
  | _, _, [] => []
  | index, cursor, chunk :: chunks =>
    if chunk = [] then placeFrom ir (index + 1) cursor chunks
    else
      let start := if 0 < index then skipSpaces ir.text cursor else cursor
      let stop := min ir.text.length (start + chunk.length)
      (start, { text := chunk
                styles := sliceStyleSpans ir.styles start stop
                links := sliceLinkSpans ir.links start stop }) :: placeFrom ir (index + 1) stop chunks

/-- The results of `chunkMarkdownIR` with the places that their spans are counted from. -/
def placedChunks (ir : MarkdownIR) (limit : ℤ) : List (ℕ × MarkdownIR) :=
  if ir.text = [] then []
  else if limit ≤ 0 ∨ ir.text.length ≤ limit then [(0, ir)]
  else placeFrom ir 0 0 (chunkText ir.text limit)

def chunkMarkdownIR (ir : MarkdownIR) (limit : ℤ) : List MarkdownIR := (placedChunks ir limit).map Prod.snd

/-! ### Places -/

/-- The texts stand in the given text at their places, in order, and hold each of its characters from
`start` on that is no white space. -/
structure Covered (text : CodeUnits) (start : ℕ) (placed : List (ℕ × MarkdownIR)) : Prop where
  /-- The text of a chunk is the part of the text at its place. -/
  slices : ∀ x ∈ placed, x.2.text = slice text x.1 (x.1 + x.2.text.length)
  /-- No chunk begins before `start`. -/
  le_place : ∀ x ∈ placed, start ≤ x.1
  /-- A chunk begins after the one before it ends. -/
  ordered : placed.Pairwise fun x y => x.1 + x.2.text.length ≤ y.1
  /-- Every character that is no white space is in a chunk. -/
  covers : ∀ p c, start ≤ p → text[p]? = some c → isSpace c = false →
    ∃ x ∈ placed, x.1 ≤ p ∧ p < x.1 + x.2.text.length

/-- The chunks are parts of the text, in order, with every character that is no white space, and their
characters carry the styles and links that they carry in the text. -/
structure KeepsStyles (ir : MarkdownIR) (placed : List (ℕ × MarkdownIR)) : Prop where
  covered : Covered ir.text 0 placed
  styles : ∀ x ∈ placed, ∀ i < x.2.text.length, ∀ style,
    Carries x.2.styles i style ↔ Carries ir.styles (x.1 + i) style
  links : ∀ x ∈ placed, ∀ i < x.2.text.length, ∀ href,
    Carries x.2.links i href ↔ Carries ir.links (x.1 + i) href

theorem slice_prefix (front chunk back : CodeUnits) :
    slice (front ++ (chunk ++ back)) front.length (front.length + chunk.length) = chunk := by
  rw [slice_add, drop_left, take_left]

theorem covered_nil {text : CodeUnits} {start : ℕ} (h : isBlank (text.drop start) = true) :
    Covered text start [] where
  slices := List.forall_mem_nil _
  le_place := List.forall_mem_nil _
  ordered := .nil
  covers p c hp hc hspace := by
    have hmem : c ∈ text.drop start := by
      rw [mem_iff_getElem?]
      exact ⟨p - start, by rw [getElem?_drop, Nat.add_sub_cancel' hp, hc]⟩
    rw [isBlank, List.all_eq_true] at h
    rw [h c hmem] at hspace
    cases hspace

/-- A chunk that stands after white space, before chunks that cover the rest. -/
theorem covered_cons {front gap chunk back : CodeUnits} {x : MarkdownIR} {placed : List (ℕ × MarkdownIR)}
    (hx : x.text = chunk) (hgap : isBlank gap = true)
    (h : Covered (front ++ gap ++ (chunk ++ back)) ((front ++ gap).length + chunk.length) placed) :
    Covered (front ++ gap ++ (chunk ++ back)) front.length (((front ++ gap).length, x) :: placed) where
  slices y hy := by
    rcases mem_cons.mp hy with rfl | hy
    · dsimp only
      rw [hx, slice_prefix]
    · exact h.slices y hy
  le_place y hy := by
    rcases mem_cons.mp hy with rfl | hy
    · simp
    · have := h.le_place y hy
      rw [length_append] at this
      omega
  ordered := by
    refine pairwise_cons.mpr ⟨fun y hy => ?_, h.ordered⟩
    rw [hx]
    exact h.le_place y hy
  covers p c hp hc hspace := by
    rcases Nat.lt_or_ge p ((front ++ gap).length + chunk.length) with hlt | hge
    · refine ⟨_, mem_cons_self, ?_, ?_⟩
      · -- before the chunk there is only white space
        by_contra hbefore
        have hbefore : p < (front ++ gap).length := not_le.mp hbefore
        rw [getElem?_append_left hbefore, getElem?_append_right hp] at hc
        rw [isBlank, List.all_eq_true] at hgap
        rw [hgap c (mem_of_getElem? hc)] at hspace
        cases hspace
      · rw [hx]
        exact hlt
    · obtain ⟨y, hy, hplace⟩ := h.covers p c hge hc hspace
      exact ⟨y, mem_cons_of_mem _ hy, hplace⟩

variable {gap rest : CodeUnits}

theorem takeWhile_isSpace (hgap : isBlank gap = true) (hlead : NoLead rest) :
    (gap ++ rest).takeWhile isSpace = gap := by
  rw [takeWhile_append_of_pos (List.all_eq_true.mp hgap)]
  cases rest with
  | nil => rw [takeWhile_nil, append_nil]
  | cons c rest =>
    rw [takeWhile_cons_of_neg (by rw [hlead c rfl]; exact Bool.false_ne_true), append_nil]

theorem skipSpaces_eq {front gap rest : CodeUnits} (hgap : isBlank gap = true) (hlead : NoLead rest) :
    skipSpaces (front ++ gap ++ rest) front.length = (front ++ gap).length := by
  rw [skipSpaces, append_assoc, drop_left, takeWhile_isSpace hgap hlead, length_append]

variable {ir : MarkdownIR}

/-- Chunks that split the rest of the text are placed where they stand. -/
theorem covered_placeFrom {rest : CodeUnits} {chunks : List CodeUnits}
    (hsplits : Splits rest chunks) {front gap : CodeUnits} {index : ℕ} (htext : ir.text = front ++ gap ++ rest)
    (hgap : isBlank gap = true) (hplace : (0 < index ∧ NoLead rest) ∨ (index = 0 ∧ gap = [])) :
    Covered ir.text front.length (placeFrom ir index front.length chunks) := by
  induction hsplits generalizing front gap index with
  | nil =>
    refine covered_nil ?_
    rwa [htext, append_nil, drop_left]
  | @cons chunk gap' rest chunks hchunk hgap' hlead _ ih =>
    have hstart : (if 0 < index then skipSpaces ir.text front.length else front.length) =
        (front ++ gap).length := by
      rcases hplace with ⟨hpos, hlead⟩ | ⟨rfl, rfl⟩
      · rw [if_pos hpos, htext, skipSpaces_eq hgap hlead]
      · rw [if_neg (lt_irrefl 0), append_nil]
    have htext' : ir.text = (front ++ gap ++ chunk) ++ gap' ++ rest := by
      rw [htext]
      simp only [append_assoc]
    have hend : (front ++ gap ++ chunk).length = (front ++ gap).length + chunk.length := length_append
    have hstop : min ir.text.length ((front ++ gap).length + chunk.length) =
        (front ++ gap).length + chunk.length := by
      rw [htext', length_append, length_append, hend]
      omega
    have hrest := ih htext' hgap' (.inl ⟨Nat.succ_pos index, hlead⟩)
    rw [placeFrom, if_neg hchunk]
    dsimp only
    rw [hstart, hstop]
    have hall : ir.text = front ++ gap ++ (chunk ++ (gap' ++ rest)) := by
      rw [htext]
      simp only [append_assoc]
    rw [hend] at hrest
    rw [hall] at hrest ⊢
    exact covered_cons rfl hgap hrest

/-! ### Styles and links -/

/-- The spans of a chunk are cut at its place. -/
theorem spans_placeFrom {index cursor : ℕ} {chunks : List CodeUnits} {x : ℕ × MarkdownIR}
    (hx : x ∈ placeFrom ir index cursor chunks) :
    x.2.styles = sliceStyleSpans ir.styles x.1 (min ir.text.length (x.1 + x.2.text.length)) ∧
      x.2.links = sliceLinkSpans ir.links x.1 (min ir.text.length (x.1 + x.2.text.length)) := by
  induction chunks generalizing index cursor with
  | nil => cases hx
  | cons chunk chunks ih =>
    rw [placeFrom] at hx
    by_cases hchunk : chunk = []
    · rw [if_pos hchunk] at hx
      exact ih hx
    · rw [if_neg hchunk] at hx
      rcases mem_cons.mp hx with rfl | hx
      · exact ⟨rfl, rfl⟩
      · exact ih hx

theorem place_lt {text chunk : CodeUnits} {start i : ℕ} (h : chunk = slice text start (start + chunk.length))
    (hi : i < chunk.length) : start + i < min text.length (start + chunk.length) := by
  have hlength := congrArg List.length h
  rw [slice_add, length_take, length_drop] at hlength
  omega

/-- Chunks at their places keep the styles. -/
theorem keepsStyles_placeFrom {chunks : List CodeUnits}
    (h : Covered ir.text 0 (placeFrom ir 0 0 chunks)) : KeepsStyles ir (placeFrom ir 0 0 chunks) where
  covered := h
  styles x hx i hi style := by
    rw [(spans_placeFrom hx).1, carries_sliceStyleSpans]
    exact ⟨fun h => h.2, fun hc => ⟨place_lt (h.slices x hx) hi, hc⟩⟩
  links x hx i hi href := by
    rw [(spans_placeFrom hx).2, carries_sliceLinkSpans]
    exact ⟨fun h => h.2, fun hc => ⟨place_lt (h.slices x hx) hi, hc⟩⟩

/-- A text as its own only chunk. -/
theorem keepsStyles_whole (ir : MarkdownIR) : KeepsStyles ir [(0, ir)] where
  covered :=
    { slices := by
        intro x hx
        rw [mem_singleton.mp hx, slice, Nat.zero_add, take_length, drop_zero]
      le_place := fun x _ => Nat.zero_le x.1
      ordered := pairwise_singleton _ _
      covers := by
        intro p c _ hc _
        have hlt : p < ir.text.length := (List.getElem?_eq_some_iff.mp hc).1
        exact ⟨(0, ir), mem_cons_self, Nat.zero_le p, by rwa [Nat.zero_add]⟩ }
  styles x hx i _ style := by
    rw [mem_singleton.mp hx, Nat.zero_add]
  links x hx i _ href := by
    rw [mem_singleton.mp hx, Nat.zero_add]

theorem keepsStyles_nil (h : isBlank ir.text = true) : KeepsStyles ir [] where
  covered := covered_nil (by rwa [drop_zero])
  styles := List.forall_mem_nil _
  links := List.forall_mem_nil _

/-! ### When the styles are kept -/

/-- The first part of the text, up to the first break, is not all white space, if the text is cut at
all and holds something else. -/
def FirstPartShown (text : CodeUnits) (limit : ℕ) : Prop :=
  text.length ≤ limit ∨ isBlank text = true ∨ isBlank (firstPart limit pickBreakIndex text) = false

/-- What the first chunk begins with, after white space that left no chunk. -/
theorem not_covered_of_gap {chunks : List CodeUnits} (htext : ir.text = gap ++ rest) (hne : gap ≠ [])
    (hgap : isBlank gap = true) (hlead : NoLead rest) (hsplits : Splits rest chunks) (hrest : rest ≠ []) :
    ¬ Covered ir.text 0 (placeFrom ir 0 0 chunks) := by
  intro h
  cases hsplits with
  | nil => exact hrest rfl
  | @cons chunk _ _ chunks hchunk _ _ _ =>
    rw [placeFrom, if_neg hchunk] at h
    have hslice := h.slices _ mem_cons_self
    dsimp only at hslice
    rw [if_neg (lt_irrefl 0), slice, Nat.zero_add, drop_zero, htext] at hslice
    cases gap with
    | nil => exact hne rfl
    | cons space gap =>
      cases chunk with
      | nil => exact hchunk rfl
      | cons c chunk =>
        rw [length_cons, cons_append, take_succ_cons] at hslice
        obtain rfl : c = space := (List.cons.inj hslice).1
        rw [isBlank, all_cons, hlead c rfl, Bool.false_and] at hgap
        cases hgap

/-- The chunks keep the styles and links of the characters exactly when the first part of the text
leaves a chunk: if it is all white space, the first chunk stands further back than the spans are cut. -/
theorem placedChunks_keepsStyles_iff (ir : MarkdownIR) (limit : ℕ) (hlimit : 0 < limit) :
    KeepsStyles ir (placedChunks ir limit) ↔ FirstPartShown ir.text limit := by
  by_cases hnil : ir.text = []
  · have hplaced : placedChunks ir limit = [] := by rw [placedChunks, if_pos hnil]
    have hblank : isBlank ir.text = true := by
      rw [hnil]
      rfl
    rw [hplaced]
    exact ⟨fun _ => .inr (.inl hblank), fun _ => keepsStyles_nil hblank⟩
  by_cases hfit : ir.text.length ≤ limit
  · have hplaced : placedChunks ir limit = [(0, ir)] := by
      rw [placedChunks, if_neg hnil, if_pos (.inr (by omega))]
    rw [hplaced]
    exact ⟨fun _ => .inl hfit, fun _ => keepsStyles_whole ir⟩
  have hlong : limit < ir.text.length := not_le.mp hfit
  have hplaced : placedChunks ir limit =
      placeFrom ir 0 0 (chunkLoop limit pickBreakIndex ir.text.length ir.text) := by
    rw [placedChunks, if_neg hnil, if_neg (by omega), chunkText_of_long hlimit hlong]
  rw [hplaced]
  cases hpart : isBlank (firstPart limit pickBreakIndex ir.text) with
  | false =>
    have hcovered : Covered ir.text [].length
        (placeFrom ir 0 [].length (chunkLoop limit pickBreakIndex ir.text.length ir.text)) :=
      covered_placeFrom (chunkLoop_splits_of_part pickBreakIndex hlimit hlong hpart) rfl rfl (.inr ⟨rfl, rfl⟩)
    exact ⟨fun _ => .inr (.inr hpart), fun _ => keepsStyles_placeFrom hcovered⟩
  | true =>
    obtain ⟨gap, rest, htext, hne, hgap, hlead, hsplits⟩ :=
      chunkLoop_of_blank_part pickBreakIndex hlimit hlong hpart
    by_cases hrest : rest = []
    · subst hrest
      have hblank : isBlank ir.text = true := by rwa [htext, append_nil]
      have hchunks : chunkLoop limit pickBreakIndex ir.text.length ir.text = [] := by
        cases hsplits' : chunkLoop limit pickBreakIndex ir.text.length ir.text with
        | nil => rfl
        | cons chunk chunks =>
          rw [hsplits'] at hsplits
          generalize hempty : ([] : CodeUnits) = rest at hsplits
          cases hsplits with
          | cons hchunk _ _ _ => exact absurd (append_eq_nil_iff.mp (append_eq_nil_iff.mp hempty.symm).1).1 hchunk
      rw [hchunks]
      exact ⟨fun _ => .inr (.inl hblank), fun _ => keepsStyles_nil hblank⟩
    · have hsome : isBlank ir.text = false := by
        cases rest with
        | nil => exact absurd rfl hrest
        | cons c rest =>
          rw [htext, isBlank_append, isBlank, isBlank, all_cons, hlead c rfl, Bool.false_and, Bool.and_false]
      refine ⟨fun h => absurd h.covered (not_covered_of_gap htext hne hgap hlead hsplits hrest), fun h => ?_⟩
      rcases h with h | h | h
      · exact absurd h hfit
      · exact absurd (hsome.symm.trans h) Bool.false_ne_true
      · exact absurd (h.symm.trans hpart) Bool.false_ne_true

/-- A bold word is kept whole by a limit that cuts the text before it. -/
theorem placedChunks_keepsStyles_word :
    KeepsStyles ⟨ofString "one two", [⟨4, 7, .bold⟩], []⟩
      (placedChunks ⟨ofString "one two", [⟨4, 7, .bold⟩], []⟩ (4 : ℕ)) :=
  (placedChunks_keepsStyles_iff ⟨ofString "one two", [⟨4, 7, .bold⟩], []⟩ 4 (by decide)).mpr
    (.inr (.inr (by decide +kernel)))

/-- A bold word after four blanks is not bold in its chunk. -/
theorem indented_word_loses_style :
    chunkMarkdownIR ⟨ofString "    abc", [⟨4, 7, .bold⟩], []⟩ 3 = [⟨ofString "abc", [], []⟩] ∧
      ¬ KeepsStyles ⟨ofString "    abc", [⟨4, 7, .bold⟩], []⟩
        (placedChunks ⟨ofString "    abc", [⟨4, 7, .bold⟩], []⟩ 3) := by
  have hplaced : placedChunks ⟨ofString "    abc", [⟨4, 7, .bold⟩], []⟩ 3 = [(0, ⟨ofString "abc", [], []⟩)] := by
    decide +kernel
  refine ⟨by rw [chunkMarkdownIR, hplaced]; rfl, fun h => ?_⟩
  rw [hplaced] at h
  have hslice := h.covered.slices _ mem_cons_self
  exact absurd hslice (by decide)

end Foxclaw.Markdown.ChunkIr
