import Foxclaw.AutoReply.ChunkMarkdown

/-!
# What chunks of Markdown keep

The loop reads the fences of the text once, and each chunk on its own, or after the line that
opens a block again. If no cut is in a line that is, or of which a part looks like, the line of a
fence, and if a block is cut where its closing line has room and the text goes on with a line of the
block, then nothing is lost, the chunks are not too long, and every chunk has its fences closed.

## The model

`KeepsMarkdown` is what the chunks should keep, piece by piece. `isCleanText` goes through the cuts
of the loop; it is a condition on each of them, at the cursor before it.

## What is proved

* `pickBreak_spec` — every break goes on, in the window, and a block is closed just when the break
  is inside of it; `pickBreak_fits` — when the closing line fits.
* `cutChunk_spec` — what a clean cut makes; `chunkLoop_kept` — what the loop makes.
* `chunkMarkdownText_keeps` — the chunks of a text keep it, if its cuts are clean.
* `open_parenthesis_too_long` — a chunk that is longer than the limit.
-/

namespace Foxclaw.AutoReply.ChunkMarkdown

open List Option Markdown CodeUnits
open Lines
open Agents.BlockChunker (Cursor Inv chunkBefore inv_start inv_of_blank skipLeadingNewlines isSpaceAt
  blank_slice_succ blank_slice_skip le_skipLeadingNewlines skipLeadingNewlines_le)

/-! ### Where breaks are picked -/

/-- The places that were found are allowed, and in the window. -/
def Found (isAllowed : ℕ → Bool) (start stop : ℕ) (r : Breakpoints) : Prop :=
  ∀ i, r.lastNewline = some i ∨ r.lastWhitespace = some i → isAllowed i = true ∧ start ≤ i ∧ i < stop

variable {isAllowed : ℕ → Bool}

theorem Found.scanPlace {start stop i : ℕ} {r : Breakpoints}
    (h : Found isAllowed start stop r) (text : CodeUnits) (hi : start ≤ i ∧ i < stop) :
    Found isAllowed start stop (scanPlace text isAllowed r i) := by
  unfold ChunkMarkdown.scanPlace
  split
  · exact h
  · by_cases hallowed : isAllowed i = true
    · -- the only place that is new is `i`
      have hnew : isAllowed i = true ∧ start ≤ i ∧ i < stop := ⟨hallowed, hi⟩
      rw [if_neg (by simp [hallowed])]
      split
      · exact h
      split
      · exact h
      split
      · exact h
      split
      · rintro j (hj | hj)
        · obtain rfl := some.inj hj
          exact hnew
        · exact h j (.inr hj)
      split
      · rintro j (hj | hj)
        · exact h j (.inl hj)
        · obtain rfl := some.inj hj
          exact hnew
      · exact h
    · rwa [if_pos (by simpa using hallowed)]

theorem found_foldl {text : CodeUnits} {start stop : ℕ} {places : List ℕ}
    {r : Breakpoints} (h : Found isAllowed start stop r) (hplaces : ∀ i ∈ places, start ≤ i ∧ i < stop) :
    Found isAllowed start stop (places.foldl (scanPlace text isAllowed) r) := by
  induction places generalizing r with
  | nil => exact h
  | cons i places ih =>
    obtain ⟨hi, hrest⟩ := forall_mem_cons.mp hplaces
    exact ih (h.scanPlace text hi) hrest

variable {spans : List FenceSpan}

/-- A soft break is outside of the blocks. -/
theorem pickSafeBreakIndex_spec {text : CodeUnits} {start stop i : ℕ}
    (h : pickSafeBreakIndex text start stop spans = some i) :
    start < i ∧ i < stop ∧ findFenceSpanAt spans i = none := by
  have hfound : Found (isSafeFenceBreak spans) start stop
      (scanParenAwareBreakpoints text start stop (isSafeFenceBreak spans)) := by
    refine found_foldl ?_ fun i hi => ?_
    · rintro j (hj | hj) <;> cases hj
    · rw [mem_range'_1] at hi
      omega
  have hpicked : ∀ {found : Option ℕ}, found.filter (start < ·) = some i → start < i ∧ found = some i := by
    intro found hfilter
    obtain ⟨hsome, hlt⟩ := filter_eq_some_iff.mp hfilter
    exact ⟨of_decide_eq_true hlt, hsome⟩
  rw [pickSafeBreakIndex] at h
  obtain ⟨hlt, hfind⟩ : start < i ∧ (Breakpoints.lastNewline _ = some i ∨ Breakpoints.lastWhitespace _ = some i) := by
    rcases or_eq_some_iff.mp h with h | ⟨-, h⟩
    · exact ⟨(hpicked h).1, .inl (hpicked h).2⟩
    · exact ⟨(hpicked h).1, .inr (hpicked h).2⟩
  obtain ⟨hsafe, -, hstop⟩ := hfound i hfind
  exact ⟨hlt, hstop, isNone_iff_eq_none.mp hsafe⟩

theorem newlineBreak_spec {text : CodeUnits} {fenceStart start least n b : ℕ}
    (h : newlineBreak text spans fenceStart start least n = some b) :
    start < b ∧ b ≤ n ∧ least ≤ b ∧ text[b - 1]? = some newline ∧
      ∃ s, findFenceSpanAt spans b = some s ∧ s.start = fenceStart := by
  induction n with
  | zero => cases h
  | succ i ih =>
    have hback (h : newlineBreak text spans fenceStart start least i = some b) :
        start < b ∧ b ≤ i + 1 ∧ least ≤ b ∧ text[b - 1]? = some newline ∧
          ∃ s, findFenceSpanAt spans b = some s ∧ s.start = fenceStart := by
      obtain ⟨hstart, hle, hrest⟩ := ih h
      exact ⟨hstart, Nat.le_succ_of_le hle, hrest⟩
    rw [newlineBreak] at h
    split at h
    · cases h
    · rename_i hstart
      split at h
      · rename_i hnewline
        split at h
        · cases h
        · rename_i hleast
          split at h
          · rename_i hany
            obtain rfl := some.inj h
            obtain ⟨s, hs, heq⟩ := (Option.any_eq_true _ _).mp hany
            exact ⟨by omega, Nat.le_refl _, Nat.not_lt.mp hleast, hnewline, s, hs, of_decide_eq_true heq⟩
          · exact hback h
      · exact hback h

/-- How the break in a block is picked: at the end of the window, after a newline, or as far as the
closing line leaves room. -/
theorem breakInFence_cases (text : CodeUnits) (spans : List FenceSpan) (start contentLimit windowEnd : ℕ)
    (s : FenceSpan) :
    let b := breakInFence text spans start contentLimit windowEnd s
    let close := (closeLine s.toFence).length
    (b = windowEnd ∧ (contentLimit ≤ close + 1 ∨ start + contentLimit - close < minProgressIdx text start s)) ∨
      (start < b ∧ b + close ≤ start + contentLimit ∧ minProgressIdx text start s ≤ b ∧
        text[b - 1]? = some newline ∧ ∃ s', findFenceSpanAt spans b = some s' ∧ s'.start = s.start) ∨
      (b = max (minProgressIdx text start s) (start + contentLimit - (close + 1)) ∧
        close + 1 < contentLimit ∧ minProgressIdx text start s + close ≤ start + contentLimit) := by
  dsimp only
  unfold breakInFence
  dsimp only
  split
  · rename_i hclose
    exact .inl ⟨rfl, .inl (by omega)⟩
  · rename_i hclose
    split
    · rename_i b hpick
      obtain ⟨hstart, hle, hleast, hnewline, hfind⟩ := newlineBreak_spec hpick
      exact .inr (.inl ⟨hstart, by omega, hleast, hnewline, hfind⟩)
    · split
      · rename_i hlate
        exact .inl ⟨rfl, .inr hlate⟩
      · exact .inr (.inr ⟨rfl, by omega, by omega⟩)

variable {s : FenceSpan}

/-- The break is inside of the block that the window ends in. -/
theorem breakInFence_spec {text : CodeUnits} {start contentLimit : ℕ}
    (hs : s ∈ parseFenceSpans text) (hstart : s.start < start + contentLimit)
    (hstop : start + contentLimit < s.stop) (hpos : 1 ≤ contentLimit) :
    let b := breakInFence text (parseFenceSpans text) start contentLimit (start + contentLimit) s
    start < b ∧ b ≤ start + contentLimit ∧ findFenceSpanAt (parseFenceSpans text) b = some s := by
  have hlen := ((parseFenceSpans_sorted text).2 s hs).2
  have hleast : start < minProgressIdx text start s ∧ s.start < minProgressIdx text start s := by
    rw [minProgressIdx]
    omega
  dsimp only
  have hcases := breakInFence_cases text (parseFenceSpans text) start contentLimit (start + contentLimit) s
  dsimp only at hcases
  generalize breakInFence text (parseFenceSpans text) start contentLimit (start + contentLimit) s = b at hcases ⊢
  suffices h : start < b ∧ b ≤ start + contentLimit ∧ s.start < b from
    ⟨h.1, h.2.1, findFenceSpanAt_of_mem hs ⟨h.2.2, by omega⟩⟩
  rcases hcases with ⟨rfl, -⟩ | ⟨hlt, hle, hleast', -⟩ | ⟨rfl, -, hle⟩
  · omega
  · omega
  · omega

variable (text : CodeUnits)

/-- The closing line of a block fits behind a break: the block is one that was opened again, or it
begins early enough in the chunk. -/
def HasRoom (start contentLimit b : ℕ) (s : FenceSpan) : Prop :=
  s.start < start ∨
    s.start - start + s.openLine.length + (closeLine s.toFence).length + 2 ≤ contentLimit ∧
      (text[b - 1]? = some newline ∨
        s.start - start + s.openLine.length + (closeLine s.toFence).length + 3 ≤ contentLimit)

instance (text : CodeUnits) (start contentLimit b : ℕ) (s : FenceSpan) :
    Decidable (HasRoom text start contentLimit b s) := inferInstanceAs (Decidable (_ ∨ _))

/-- If there is room, the break is behind the first character of the block, and the closing line fits. -/
theorem breakInFence_fits {text : CodeUnits} {start contentLimit : ℕ}
    (hs : s ∈ parseFenceSpans text) (hstop : start + contentLimit < s.stop)
    (hagain : s.start < start →
      s.start + s.openLine.length + 2 ≤ start ∧ (closeLine s.toFence).length + 3 ≤ contentLimit) :
    let b := breakInFence text (parseFenceSpans text) start contentLimit (start + contentLimit) s
    HasRoom text start contentLimit b s →
      s.start + s.openLine.length + 2 ≤ b ∧
        (text[b - 1]? = some newline ∧ b + (closeLine s.toFence).length ≤ start + contentLimit ∨
          b + (closeLine s.toFence).length + 1 ≤ start + contentLimit) := by
  have hlen := ((parseFenceSpans_sorted text).2 s hs).2
  dsimp only
  have hcases := breakInFence_cases text (parseFenceSpans text) start contentLimit (start + contentLimit) s
  dsimp only at hcases
  generalize breakInFence text (parseFenceSpans text) start contentLimit (start + contentLimit) s = b at hcases ⊢
  rw [minProgressIdx] at hcases
  intro hroom
  rw [HasRoom] at hroom
  generalize (closeLine s.toFence).length = close at *
  rcases hcases with ⟨-, hlate⟩ | ⟨hlt, hle, hleast, hnewline, -⟩ | ⟨rfl, hclose, hle⟩
  · -- the two fallbacks: there is no room
    omega
  · exact ⟨by omega, .inl ⟨hnewline, hle⟩⟩
  · refine ⟨by omega, ?_⟩
    by_cases hnewline : text[max (min text.length (max (start + 1) (s.start + s.openLine.length + 2)))
        (start + contentLimit - (close + 1)) - 1]? = some newline
    · exact .inl ⟨hnewline, by omega⟩
    · refine .inr ?_
      rcases hroom with hroom | ⟨-, hroom | hroom⟩
      · have := hagain hroom
        omega
      · exact absurd hroom hnewline
      · omega

/-- A break is outside of the blocks, or in the one that the window ends in. -/
theorem pickBreak_cases {text : CodeUnits} {limit : ℕ} {c : Cursor}
    (hlong : contentLimit limit c < text.length - c.start) :
    let windowEnd := c.start + contentLimit limit c
    (∃ i, pickBreak text (parseFenceSpans text) limit c = (i, none) ∧ c.start < i ∧ i ≤ windowEnd ∧
        findFenceSpanAt (parseFenceSpans text) i = none) ∨
      ∃ s ∈ parseFenceSpans text, (s.start < windowEnd ∧ windowEnd < s.stop) ∧
        pickBreak text (parseFenceSpans text) limit c =
          (breakInFence text (parseFenceSpans text) c.start (contentLimit limit c) windowEnd s, some s) := by
  have hpos : 1 ≤ contentLimit limit c := Nat.le_max_left _ _
  have hwindow : min text.length (c.start + contentLimit limit c) = c.start + contentLimit limit c := by
    omega
  dsimp only
  unfold pickBreak
  dsimp only
  rw [hwindow]
  cases hsoft : (pickSafeBreakIndex text c.start (c.start + contentLimit limit c)
      (parseFenceSpans text)).filter (c.start < ·) with
  | some i =>
    obtain ⟨hlt, hstop, hnone⟩ := pickSafeBreakIndex_spec (filter_eq_some_iff.mp hsoft).1
    rw [getD_some, isSafeFenceBreak, hnone, isNone_none, if_pos rfl]
    exact .inl ⟨i, rfl, hlt, Nat.le_of_lt hstop, hnone⟩
  | none =>
    rw [getD_none, isSafeFenceBreak]
    cases hfind : findFenceSpanAt (parseFenceSpans text) (c.start + contentLimit limit c) with
    | none => exact .inl ⟨_, rfl, by omega, Nat.le_refl _, hfind⟩
    | some s =>
      obtain ⟨hs, hstart, hstop⟩ := (findFenceSpanAt_spec text _).1 s hfind
      obtain ⟨-, -, hb⟩ := breakInFence_spec hs hstart hstop hpos
      refine .inr ⟨s, hs, ⟨hstart, hstop⟩, congrArg (Prod.mk _) ?_⟩
      exact filter_eq_some_iff.mpr ⟨hb, decide_eq_true rfl⟩

/-- What a break is: it goes on, and the block that is closed is the one it is inside of. -/
theorem pickBreak_spec {text : CodeUnits} {limit : ℕ} {c : Cursor}
    (hlong : contentLimit limit c < text.length - c.start) :
    let r := pickBreak text (parseFenceSpans text) limit c
    c.start < r.1 ∧ r.1 ≤ c.start + contentLimit limit c ∧
      findFenceSpanAt (parseFenceSpans text) r.1 = r.2 := by
  rcases pickBreak_cases hlong with ⟨i, heq, hbreak⟩ | ⟨s, hs, hin, heq⟩
  · rw [heq]
    exact hbreak
  · rw [heq]
    exact breakInFence_spec hs hin.1 hin.2 (Nat.le_max_left _ _)

/-- Where a block is cut, its closing line fits if there is room. -/
theorem pickBreak_fits {text : CodeUnits} {limit : ℕ} {c : Cursor}
    (hlong : contentLimit limit c < text.length - c.start)
    (hagain : s.start < c.start →
      s.start + s.openLine.length + 2 ≤ c.start ∧ (closeLine s.toFence).length + 3 ≤ contentLimit limit c) :
    let r := pickBreak text (parseFenceSpans text) limit c
    r.2 = some s → HasRoom text c.start (contentLimit limit c) r.1 s →
      s.start + s.openLine.length + 2 ≤ r.1 ∧
        (text[r.1 - 1]? = some newline ∧
            r.1 + (closeLine s.toFence).length ≤ c.start + contentLimit limit c ∨
          r.1 + (closeLine s.toFence).length + 1 ≤ c.start + contentLimit limit c) := by
  dsimp only
  rcases pickBreak_cases hlong with ⟨i, heq, -⟩ | ⟨s', hs, hin, heq⟩
  · rw [heq]
    intro hcut
    cases hcut
  · rw [heq]
    intro hcut
    obtain rfl := some.inj hcut
    exact breakInFence_fits hs hin.2 hagain

/-! ### What chunks keep -/

/-- The piece of a text that a chunk is, where the loop is at a cursor, and the block `cut` that is
cut at its end. -/
structure IsPiece (text : CodeUnits) (limit : ℤ) (c : Cursor) (p : Piece) (cut : Option FenceSpan) : Prop where
  /-- If a block was cut before it, it begins with the line that opens the block, and else with the text. -/
  opening : p.opening = c.reopenPrefix
  /-- If a block is cut at its end, it ends with a line that closes the block. -/
  closing : p.closing = cut.elim [] fun s => closingOf s.toFence (p.opening ++ p.body)
  /-- The text goes on with its body and with what is dropped after it. -/
  source : p.source <+: text.drop c.start
  /-- Only white space is dropped, ... -/
  blank : Blank p.dropped
  /-- ... and none that is inside of a block. -/
  outside : ∀ k < p.dropped.length, isInside text (c.start + p.body.length + k) = false
  /-- The block that is cut is one of the text, around the end of the body, and nothing is dropped. -/
  inside : ∀ s, cut = some s → s ∈ parseFenceSpans text ∧
    (s.start < c.start + p.body.length ∧ c.start + p.body.length < s.stop) ∧ p.dropped = []
  short : p.chunk.length ≤ limit
  /-- Its fences are closed, if those of the text are. -/
  balanced : Markdown.Balanced text → Markdown.Balanced p.chunk
  /-- Of the block that is cut there is a character in it, behind the line that opens the block. -/
  content_cut : ∀ s, cut = some s → p.body ≠ [] ∧ s.start + s.openLine.length + 1 < c.start + p.body.length
  /-- So there is of the block that is opened again: the text does not go on with the closing line. -/
  content_reopened : ∀ s, c.reopenFence = some s →
    p.body ≠ [] ∧ afterLine (some s.toFence) (firstLine newline (text.drop c.start)) ≠ none

/-- The pieces make up the text from a cursor on. -/
def KeptFrom (text : CodeUnits) (limit : ℤ) : Cursor → List Piece → Prop
  | c, [] => c.start = text.length ∧ c.reopenFence = none
  | c, p :: ps => ∃ cut, IsPiece text limit c p cut ∧
      KeptFrom text limit { start := c.start + p.source.length, reopenFence := cut } ps

/-- The chunks keep the text, the limit and the fences. -/
def KeepsMarkdown (limit : ℤ) (chunks : List CodeUnits) : Prop :=
  ∃ pieces, chunks = pieces.map Piece.chunk ∧ KeptFrom text limit { start := 0, reopenFence := none } pieces

/-! ### Clean cuts -/

/-- A cut is clean: where the chunk ends, and where the next one begins, no line is cut that is the
line of a fence, or of which a part looks like one; and where a block is cut, there is room for the
closing line, and the text goes on with a line of the block that does not begin with white space. -/
def CleanCut (limit : ℕ) (c : Cursor) (b : ℕ) (cut : Option FenceSpan) : Prop :=
  HarmlessCut (chunkBefore text c b) (text.drop b) ∧
    match cut with
    | none =>
        let next := skipLeadingNewlines text (afterSeparator text b)
        HarmlessCut (slice text b next) (text.drop next)
    | some s =>
        isSpaceAt text b = false ∧ Inert (some s.toFence) (firstLine newline (text.drop b)) ∧
          HasRoom text c.start (contentLimit limit c) b s

instance (text : CodeUnits) (limit : ℕ) (c : Cursor) (b : ℕ) (cut : Option FenceSpan) :
    Decidable (CleanCut text limit c b cut) :=
  match cut with
  | none => inferInstanceAs (Decidable (_ ∧ HarmlessCut _ _))
  | some _ => inferInstanceAs (Decidable (_ ∧ _ ∧ Inert _ _ ∧ HasRoom _ _ _ _ _))

/-- Are the cuts of the loop clean? -/
def isCleanLoop (text : CodeUnits) (spans : List FenceSpan) (limit : ℕ) : ℕ → Cursor → Bool
  | 0, _ => true
  | fuel + 1, c =>
      if c.start < text.length then
        if text.length - c.start ≤ contentLimit limit c then true
        else
          let (breakIdx, fenceToSplit) := pickBreak text spans limit c
          decide (CleanCut text limit c breakIdx fenceToSplit) &&
            isCleanLoop text spans limit fuel
              (cutChunk text (chunkBefore text c breakIdx) breakIdx fenceToSplit).2
      else true

/-- Is the limit positive, and are all cuts of the text clean? -/
def isCleanText (limit : ℤ) : Bool :=
  match resolveChunkEarlyReturn text limit with
  | some _ => decide (text = [] ∨ 0 < limit)
  | none => isCleanLoop text (parseFenceSpans text) limit.toNat text.length { start := 0, reopenFence := none }

/-- The limit leaves room for the lines of every fence. -/
def FitsFences (limit : ℤ) : Prop :=
  ∀ s ∈ parseFenceSpans text, (s.openLine.length + (closeLine s.toFence).length + 4 : ℤ) < limit

instance (text : CodeUnits) (limit : ℤ) : Decidable (FitsFences text limit) :=
  inferInstanceAs (Decidable (∀ s ∈ _, _))

/-- What holds at the cursor: the rest of the text is read there as after the line that was
inserted, and it is inside of the block that is opened again. -/
structure LoopInv (text : CodeUnits) (c : Cursor) : Prop where
  /-- What holds for the block chunker. -/
  inv : Inv text c
  /-- The block that is opened again. -/
  reopened : ∀ s, c.reopenFence = some s → s ∈ parseFenceSpans text ∧
    (s.start + s.openLine.length + 2 ≤ c.start ∧ c.start < s.stop) ∧
    Inert (some s.toFence) (firstLine newline (text.drop c.start))

theorem loopInv_start : LoopInv text { start := 0, reopenFence := none } :=
  ⟨inv_start text, fun _ h => by cases h⟩

/-- The block that the cursor is inside of is the one that is opened again. -/
theorem LoopInv.find {text : CodeUnits} {c : Cursor} (h : LoopInv text c) (hlt : c.start < text.length) :
    findFenceSpanAt (parseFenceSpans text) c.start = c.reopenFence := by
  have hfind := h.inv.find (Nat.le_refl c.start) hlt
  have hreopened := h.reopened
  obtain ⟨start, reopenFence⟩ := c
  cases reopenFence with
  | some s =>
    obtain ⟨hs, hin, -⟩ := hreopened s rfl
    exact findFenceSpanAt_of_mem hs ⟨by omega, hin.2⟩
  | none =>
    have hnil : chunkBefore text { start, reopenFence := none } start = [] := slice_self text start
    rw [hnil] at hfind
    exact map_eq_none_iff.mp hfind

variable {text : CodeUnits} {limit : ℕ} {c : Cursor}

/-- The line that is inserted and the content have room in the limit. -/
theorem LoopInv.length_add (h : LoopInv text c) (hpos : 0 < limit) (hfits : FitsFences text limit) :
    c.reopenPrefix.length + contentLimit limit c = limit := by
  have hreopened := h.reopened
  obtain ⟨start, reopenFence⟩ := c
  cases reopenFence with
  | none =>
    simp only [contentLimit, Cursor.reopenPrefix, length_nil]
    omega
  | some s =>
    have := hfits s (hreopened s rfl).1
    simp only [contentLimit, Cursor.reopenPrefix, length_append, length_singleton]
    omega

/-- A block that is cut, and that began before the chunk, was opened again in it. -/
theorem LoopInv.again (h : LoopInv text c) (hpos : 0 < limit) (hfits : FitsFences text limit)
    (hlt : c.start < text.length) (hs : s ∈ parseFenceSpans text)
    (hin : s.start < c.start ∧ c.start < s.stop) :
    s.start + s.openLine.length + 2 ≤ c.start ∧ (closeLine s.toFence).length + 3 ≤ contentLimit limit c := by
  have hreopen : c.reopenFence = some s := (h.find hlt).symm.trans (findFenceSpanAt_of_mem hs hin)
  have hlength := h.length_add hpos hfits
  have hroom := hfits s hs
  have hpre : c.reopenPrefix.length = s.openLine.length + 1 := by
    rw [Cursor.reopenPrefix, hreopen]
    simp
  exact ⟨(h.reopened s hreopen).2.1.1, by omega⟩

/-! ### One chunk -/

theorem length_slice {i j : ℕ} (hij : i ≤ j) (hj : j ≤ text.length) : (slice text i j).length = j - i := by
  obtain ⟨n, rfl⟩ := Nat.exists_eq_add_of_le hij
  rw [slice_add, length_take, length_drop]
  omega

theorem slice_prefix {i j : ℕ} (hij : i ≤ j) : slice text i j <+: text.drop i :=
  ⟨text.drop j, slice_append_drop text hij⟩

variable {b : ℕ}

theorem length_chunkBefore (hb : c.start ≤ b) (hle : b ≤ text.length) :
    (chunkBefore text c b).length = c.reopenPrefix.length + (b - c.start) := by
  rw [chunkBefore, length_append, length_slice hb hle]

theorem endsWithNewline_chunkBefore (hb : c.start < b) (hle : b ≤ text.length) :
    endsWithNewline (chunkBefore text c b) = decide (text[b - 1]? = some newline) := by
  have hne : slice text c.start b ≠ [] := by
    rw [← length_pos_iff, length_slice (Nat.le_of_lt hb) hle]
    omega
  rw [endsWithNewline, chunkBefore, getLast?_append_of_ne_nil _ hne, slice, getLast?_drop,
    length_take_of_le hle, if_neg (by omega), getLast?_take, if_neg (by omega),
    getElem?_eq_getElem (by omega), some_or]

theorem length_closingOf (fence : Fence) (x : CodeUnits) :
    (closingOf fence x).length = (closeLine fence).length + if endsWithNewline x = true then 0 else 1 := by
  rw [closingOf]
  split
  · rfl
  · rfl

theorem balanced_closingOf {f : Fence} {x y : CodeUnits} (h : SplitCut f x y) : Markdown.Balanced (x ++ closingOf f x) := by
  have hclosing : closing f x = closingOf f x ++ [newline] := by
    rw [closing, closingOf, closeLine]
    split <;> simp
  have := h.balanced
  rw [hclosing, ← append_assoc, Markdown.Balanced, openAtEnd_concat_newline] at this
  exact this

/-- White space that is dropped where the text is read on its own is outside of the blocks. -/
theorem isInside_dropped {b next : ℕ} (hb : b ≤ next) (hle : next ≤ text.length)
    (hsame : SameAfter (text.take b) [] (text.drop b)) (hblank : Blank (slice text b next))
    (hcut : HarmlessCut (slice text b next) (text.drop next)) {k : ℕ} (hk : k < next - b) :
    isInside text (b + k) = false := by
  have hlen : (slice text b next).length = next - b := length_slice hb hle
  have hmarks := hsame.insideMarks
  rw [take_append_drop, length_take_of_le (by omega), nil_append, length_nil,
    drop_zero, ← slice_append_drop text hb] at hmarks
  have htake := (plainCut_of_isBlank hblank hcut).marks_take
  rw [← hmarks, insideMarks_of_isBlank hblank, hlen] at htake
  have hget := congrArg (·[k]?) htake
  rw [getElem?_take_of_lt hk, getElem?_drop, getElem?_replicate, if_pos hk,
    getElem?_eq_getElem (by rw [length_insideMarks]; omega), some.injEq, getElem_insideMarks] at hget
  exact hget

/-- What is dropped outside of the blocks is white space. -/
theorem blank_dropped (hb : b ≤ text.length) :
    let next := skipLeadingNewlines text (afterSeparator text b)
    b ≤ next ∧ next ≤ text.length ∧ Blank (slice text b next) := by
  obtain ⟨hle, hlen, hspace⟩ : b ≤ afterSeparator text b ∧ afterSeparator text b ≤ text.length ∧
      Blank (slice text b (afterSeparator text b)) := by
    rw [afterSeparator]
    split
    · rename_i hspace
      obtain ⟨hlt, hblank⟩ := blank_slice_succ hspace
      rw [Nat.min_eq_right hlt]
      exact ⟨Nat.le_succ b, hlt, hblank⟩
    · rw [Nat.min_eq_right hb, slice_self]
      exact ⟨Nat.le_refl b, hb, blank_nil⟩
  have hskip := le_skipLeadingNewlines text (afterSeparator text b)
  refine ⟨Nat.le_trans hle hskip, skipLeadingNewlines_le hlen, ?_⟩
  rw [← slice_append text hle hskip]
  intro x hx
  exact (mem_append.mp hx).elim (hspace x) (blank_slice_skip text _ x)

/-- A block that is opened again has a character in the chunk. -/
theorem LoopInv.content (h : LoopInv text c) {body : CodeUnits} (hbody : body ≠ []) :
    ∀ s, c.reopenFence = some s →
      body ≠ [] ∧ afterLine (some s.toFence) (firstLine newline (text.drop c.start)) ≠ none := by
  intro s hs
  refine ⟨hbody, ?_⟩
  rw [(h.reopened s hs).2.2]
  exact some_ne_none _

variable (h : LoopInv text c) (hpos : 0 < limit) (hfits : FitsFences text limit)
include h hpos hfits

/-- The rest of the text is the last piece. -/
theorem last_isPiece (hlt : c.start < text.length) (hshort : text.length - c.start ≤ contentLimit limit c) :
    IsPiece text limit c ⟨c.reopenPrefix, text.drop c.start, [], []⟩ none where
  opening := rfl
  closing := rfl
  source := by simp [Piece.source]
  blank := blank_nil
  outside := fun k hk => absurd hk (Nat.not_lt_zero k)
  inside := fun s hs => by cases hs
  short := by
    have := h.length_add hpos hfits
    simp only [Piece.chunk, append_nil, length_append, length_drop]
    omega
  balanced := by
    intro hbalanced
    have hsame := (h.inv.same hlt).openAtEnd_eq
    rw [take_append_drop] at hsame
    rw [Piece.chunk, append_nil, Markdown.Balanced, ← hsame]
    exact hbalanced
  content_cut := fun s hs => by cases hs
  content_reopened := h.content (by rw [Ne, drop_eq_nil_iff]; omega)

/-- A break outside of the blocks. -/
theorem plain_isPiece
    (hlt : c.start < b) (hle : b ≤ c.start + contentLimit limit c) (hlen : b < text.length)
    (hfind : findFenceSpanAt (parseFenceSpans text) b = none) (hclean : CleanCut text limit c b none) :
    let next := skipLeadingNewlines text (afterSeparator text b)
    LoopInv text { start := next, reopenFence := none } ∧
      IsPiece text limit c ⟨c.reopenPrefix, slice text c.start b, [], slice text b next⟩ none := by
  obtain ⟨hcut, hgap⟩ := hclean
  obtain ⟨hnext, hend, hblank⟩ := blank_dropped (Nat.le_of_lt hlen)
  dsimp only at hgap ⊢
  generalize skipLeadingNewlines text (afterSeparator text b) = next at *
  have hdrop : text.drop b ≠ [] := by
    rw [Ne, drop_eq_nil_iff]
    omega
  have hplain : PlainCut (chunkBefore text c b) (text.drop b) := by
    refine plainCut_of_outside (fun _ => ?_) (fun hnil => absurd hnil hdrop) id hcut
    rw [← h.inv.find (Nat.le_of_lt hlt) hlen, hfind]
    rfl
  have hsame : SameAfter (text.take b) [] (text.drop b) :=
    (h.inv.same_at (Nat.le_of_lt hlt) (by omega)).trans hplain.sameAfter
  have hbody : (slice text c.start b).length = b - c.start := length_slice (Nat.le_of_lt hlt) (Nat.le_of_lt hlen)
  have hplace : c.start + (slice text c.start b).length = b := by omega
  have hne : slice text c.start b ≠ [] := fun hnil => by
    rw [hnil, length_nil] at hbody
    omega
  refine ⟨⟨inv_of_blank hnext hend (fun _ => hsame) hblank hgap, fun s hs => (by cases hs)⟩, ?_⟩
  constructor
  case opening => rfl
  case closing => rfl
  case source =>
    rw [Piece.source, slice_append text (Nat.le_of_lt hlt) hnext]
    exact slice_prefix (by omega)
  case blank => exact hblank
  case outside =>
    intro k hk
    rw [length_slice hnext hend] at hk
    rw [hplace]
    exact isInside_dropped hnext hend hsame hblank hgap hk
  case inside =>
    intro s hs
    cases hs
  case short =>
    have := h.length_add hpos hfits
    simp only [Piece.chunk, append_nil, length_append, hbody]
    omega
  case balanced =>
    intro _
    rw [Piece.chunk, append_nil]
    exact hplain.balanced
  case content_cut =>
    intro s hs
    cases hs
  case content_reopened => exact h.content hne

/-- A break inside of a block. -/
theorem split_isPiece (hlong : contentLimit limit c < text.length - c.start)
    (hpick : pickBreak text (parseFenceSpans text) limit c = (b, some s))
    (hclean : CleanCut text limit c b (some s)) :
    LoopInv text { start := b, reopenFence := some s } ∧
      IsPiece text limit c
        ⟨c.reopenPrefix, slice text c.start b, closingOf s.toFence (chunkBefore text c b), []⟩ (some s) := by
  obtain ⟨hcut, hspace, hline, hroom⟩ := hclean
  have hspec := pickBreak_spec hlong
  rw [hpick] at hspec
  obtain ⟨hlt, hle, hfind⟩ := hspec
  dsimp only at hlt hle hfind
  obtain ⟨hs, hin⟩ := (findFenceSpanAt_spec text b).1 s hfind
  have hlen : b < text.length := Nat.lt_of_lt_of_le hin.2 ((parseFenceSpans_sorted text).2 s hs).2
  have hfitsHere := pickBreak_fits (s := s) hlong fun hbefore =>
    h.again hpos hfits (by omega) hs ⟨hbefore, by omega⟩
  rw [hpick] at hfitsHere
  obtain ⟨hfirst, hclose⟩ := hfitsHere rfl hroom
  dsimp only at hfirst hclose
  have hbody : (slice text c.start b).length = b - c.start := length_slice (Nat.le_of_lt hlt) (Nat.le_of_lt hlen)
  have hplace : c.start + (slice text c.start b).length = b := by omega
  have hne : slice text c.start b ≠ [] := fun hnil => by
    rw [hnil, length_nil] at hbody
    omega
  -- the text goes on in the block, with something of a line
  have hrest : firstLine newline (text.drop b) ≠ [] := by
    rw [drop_eq_getElem_cons hlen]
    have hnewline : text[b] ≠ newline := by
      intro heq
      rw [isSpaceAt, getElem?_eq_getElem hlen, heq] at hspace
      cases hspace
    rw [firstLine_cons hnewline]
    exact cons_ne_nil _ _
  have hlast : Inert (openBefore (chunkBefore text c b)) (lastLine newline (chunkBefore text c b)) := by
    by_cases hu : lastLine newline (chunkBefore text c b) = []
    · rw [hu]
      exact inert_nil _
    · exact (hcut hu hrest).1
  have hsplit : SplitCut s.toFence (chunkBefore text c b) (text.drop b) := by
    refine splitCut_of_inside ?_ hlast hcut hcut
    rw [← h.inv.find (Nat.le_of_lt hlt) hlen, hfind]
    rfl
  refine ⟨⟨⟨Nat.le_of_lt hlen, fun g hg => ?_, fun _ _ => hlen, fun _ => ?_⟩, fun g hg => ?_⟩, ?_⟩
  · obtain rfl := some.inj hg
    exact hsplit.matched
  · exact (h.inv.same_at (Nat.le_of_lt hlt) (by omega)).trans hsplit.sameAfter
  · obtain rfl := some.inj hg
    exact ⟨hs, ⟨hfirst, hin.2⟩, hline⟩
  constructor
  case opening => rfl
  case closing => rfl
  case source =>
    rw [Piece.source, append_nil]
    exact slice_prefix (Nat.le_of_lt hlt)
  case blank => exact blank_nil
  case outside =>
    intro k hk
    exact absurd hk (Nat.not_lt_zero k)
  case inside =>
    intro g hg
    obtain rfl := some.inj hg
    rw [hplace]
    exact ⟨hs, hin, rfl⟩
  case short =>
    have hlimit := h.length_add hpos hfits
    have hends := endsWithNewline_chunkBefore (c := c) hlt (Nat.le_of_lt hlen)
    rw [Piece.chunk, length_append, ← chunkBefore, length_chunkBefore (Nat.le_of_lt hlt) (Nat.le_of_lt hlen),
      length_closingOf, hends]
    by_cases hnewline : text[b - 1]? = some newline
    · rw [if_pos (decide_eq_true hnewline)]
      omega
    · have hroom := hclose.resolve_left fun hends => hnewline hends.1
      rw [if_neg (by simpa using hnewline)]
      omega
  case balanced =>
    intro _
    exact balanced_closingOf hsplit
  case content_cut =>
    intro g hg
    obtain rfl := some.inj hg
    rw [hplace]
    exact ⟨hne, by omega⟩
  case content_reopened => exact h.content hne

/-- A clean cut makes a piece, and keeps the invariant. -/
theorem cutChunk_spec {cut : Option FenceSpan} (hlong : contentLimit limit c < text.length - c.start)
    (hpick : pickBreak text (parseFenceSpans text) limit c = (b, cut)) (hclean : CleanCut text limit c b cut) :
    let r := cutChunk text (chunkBefore text c b) b cut
    LoopInv text r.2 ∧ c.start < r.2.start ∧ ∃ p : Piece, r.1 = p.chunk ∧ IsPiece text limit c p cut ∧
      r.2 = { start := c.start + p.source.length, reopenFence := cut } := by
  have hspec := pickBreak_spec hlong
  rw [hpick] at hspec
  obtain ⟨hlt, hle, hfind⟩ := hspec
  dsimp only at hlt hle hfind
  have hlen : b < text.length := by omega
  have hsource : ∀ {next}, b ≤ next → next ≤ text.length →
      c.start + (slice text c.start b ++ slice text b next).length = next := by
    intro next hnext hend
    rw [slice_append text (Nat.le_of_lt hlt) hnext, length_slice (by omega) hend]
    omega
  cases cut with
  | none =>
    obtain ⟨hnext, hend, -⟩ := blank_dropped (Nat.le_of_lt hlen)
    obtain ⟨hinv, hpiece⟩ := plain_isPiece h hpos hfits hlt hle hlen hfind hclean
    refine ⟨hinv, Nat.lt_of_lt_of_le hlt hnext, _, ?_, hpiece, ?_⟩
    · exact (append_nil _).symm
    · rw [Piece.source, hsource hnext hend]
      rfl
  | some s =>
    obtain ⟨hinv, hpiece⟩ := split_isPiece h hpos hfits hlong hpick hclean
    have hafter : afterSeparator text b = b := by
      rw [afterSeparator, hclean.2.1, if_neg Bool.false_ne_true, Nat.min_eq_right (Nat.le_of_lt hlen)]
    have hend := hsource (Nat.le_refl b) (Nat.le_of_lt hlen)
    rw [slice_self] at hend
    dsimp only [cutChunk]
    rw [hafter]
    refine ⟨hinv, hlt, _, rfl, hpiece, ?_⟩
    rw [Piece.source, hend]

omit h hpos hfits

/-! ### The whole text -/

theorem LoopInv.kept_nil (h : LoopInv text c) (hend : ¬ c.start < text.length) : KeptFrom text limit c [] := by
  refine ⟨Nat.le_antisymm h.inv.le (Nat.not_lt.mp hend), ?_⟩
  cases hreopen : c.reopenFence with
  | none => rfl
  | some s => exact absurd (h.inv.lt s hreopen) hend

/-- The loop keeps the text from the cursor on. -/
theorem chunkLoop_kept (hpos : 0 < limit) (hfits : FitsFences text limit) {fuel : ℕ}
    (hfuel : text.length - c.start ≤ fuel) (h : LoopInv text c)
    (hclean : isCleanLoop text (parseFenceSpans text) limit fuel c = true) :
    ∃ pieces, chunkLoop text (parseFenceSpans text) limit fuel c = pieces.map Piece.chunk ∧
      KeptFrom text limit c pieces := by
  induction fuel generalizing c with
  | zero => exact ⟨[], rfl, h.kept_nil (by omega)⟩
  | succ fuel ih =>
    rw [isCleanLoop] at hclean
    rw [chunkLoop]
    by_cases hlt : c.start < text.length
    · rw [if_pos hlt] at hclean ⊢
      by_cases hshort : text.length - c.start ≤ contentLimit limit c
      · rw [if_pos hshort]
        have hfinal : 0 < (c.reopenPrefix ++ text.drop c.start).length := by
          rw [length_append, length_drop]
          omega
        dsimp only
        rw [if_pos hfinal]
        refine ⟨[⟨c.reopenPrefix, text.drop c.start, [], []⟩], ?_, none,
          last_isPiece h hpos hfits hlt hshort, ?_, rfl⟩
        · simp [Piece.chunk]
        · simp [Piece.source]
          omega
      · rw [if_neg hshort] at hclean ⊢
        have hlong := Nat.not_le.mp hshort
        obtain ⟨hstart, hle, -⟩ := pickBreak_spec hlong
        cases hpick : pickBreak text (parseFenceSpans text) limit c with
        | mk b cut =>
          rw [hpick] at hclean hstart hle
          dsimp only at hclean hstart hle ⊢
          have hraw : slice text c.start b ≠ [] := by
            rw [← length_pos_iff, length_slice (by omega) (by omega)]
            omega
          rw [Bool.and_eq_true, decide_eq_true_eq] at hclean
          obtain ⟨hinv, hprogress, p, hchunk, hpiece, hnext⟩ := cutChunk_spec h hpos hfits hlong hpick hclean.1
          rw [if_neg hraw, ← chunkBefore]
          have hrest := hclean.2
          generalize cutChunk text (chunkBefore text c b) b cut = r at *
          obtain ⟨pieces, hchunks, hkept⟩ := ih (c := r.2) (by omega) hinv hrest
          refine ⟨p :: pieces, ?_, cut, hpiece, ?_⟩
          · rw [hchunk, hchunks]
            rfl
          · rw [← hnext]
            exact hkept
    · rw [if_neg hlt]
      exact ⟨[], rfl, h.kept_nil hlt⟩

/-- **The chunks keep the content, the limit and the fences** of a text whose cuts are clean, if the
limit leaves room for the lines of every fence. -/
theorem chunkMarkdownText_keeps (text : CodeUnits) (limit : ℤ) (hfits : FitsFences text limit)
    (hclean : isCleanText text limit = true) : KeepsMarkdown text limit (chunkMarkdownText text limit) := by
  unfold chunkMarkdownText
  unfold isCleanText at hclean
  by_cases hnil : text = []
  · rw [resolveChunkEarlyReturn, if_pos hnil]
    exact ⟨[], rfl, by rw [hnil]; rfl, rfl⟩
  rw [resolveChunkEarlyReturn, if_neg hnil] at hclean ⊢
  have hlen : 0 < text.length := length_pos_iff.mpr hnil
  by_cases hpos : limit ≤ 0
  · -- the text is returned whole
    rw [if_pos hpos] at hclean
    have := (of_decide_eq_true hclean).resolve_left hnil
    omega
  rw [if_neg hpos] at hclean ⊢
  obtain ⟨n, rfl⟩ := Int.eq_ofNat_of_zero_le (show 0 ≤ limit by omega)
  have hstart := loopInv_start text
  by_cases hshort : (text.length : ℤ) ≤ n
  · rw [if_pos hshort]
    refine ⟨[⟨[], text, [], []⟩], by simp [Piece.chunk], none, ?_, by simp [Piece.source], rfl⟩
    refine last_isPiece hstart (by omega) hfits hlen ?_
    simp only [contentLimit, Cursor.reopenPrefix, length_nil]
    omega
  · rw [if_neg hshort] at hclean ⊢
    exact chunkLoop_kept (by omega) hfits (Nat.sub_le _ _) hstart hclean

/-- An answer with a block that is longer than a chunk. -/
def answer : CodeUnits := ofString "Do this (now):\n\n```js\nlet a = 1;\nlet b = 2;\n```\nBye."

/-- The answer in chunks of 20 characters. -/
theorem chunkMarkdownText_keeps_answer : KeepsMarkdown answer 20 (chunkMarkdownText answer 20) :=
  chunkMarkdownText_keeps answer 20 (by decide +kernel) (by decide +kernel)

/-- Every piece is one, at some cursor. -/
theorem KeptFrom.forall {text : CodeUnits} {limit : ℤ} {c : Cursor} {pieces : List Piece}
    (h : KeptFrom text limit c pieces) : ∀ p ∈ pieces, ∃ c cut, IsPiece text limit c p cut := by
  induction pieces generalizing c with
  | nil => exact List.forall_mem_nil _
  | cons p ps ih =>
    obtain ⟨cut, hp, hps⟩ := h
    exact forall_mem_cons.mpr ⟨⟨c, cut, hp⟩, ih hps⟩

/-- **A chunk that is too long**: because of the open parenthesis the window ends inside of the
block, for whose closing line there is no room. -/
theorem open_parenthesis_too_long : FitsFences (ofString "(abc\n```\ncode\n```") 11 ∧
    ¬ KeepsMarkdown (ofString "(abc\n```\ncode\n```") 11
      (chunkMarkdownText (ofString "(abc\n```\ncode\n```") 11) := by
  refine ⟨by decide +kernel, ?_⟩
  rintro ⟨pieces, hchunks, hkept⟩
  have hfirst : ofString "(abc\n```\nco\n```" ∈ pieces.map Piece.chunk := by
    rw [← hchunks]
    decide +kernel
  obtain ⟨p, hp, hchunk⟩ := List.mem_map.mp hfirst
  obtain ⟨c, cut, hpiece⟩ := hkept.forall p hp
  have hshort := hpiece.short
  rw [hchunk] at hshort
  exact absurd hshort (by decide +kernel)

end Foxclaw.AutoReply.ChunkMarkdown
