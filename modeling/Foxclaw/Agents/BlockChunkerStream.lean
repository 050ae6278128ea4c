import Foxclaw.Agents.BlockChunker
import Foxclaw.Markdown.ChunkedText

/-!
# What the block chunker emits

The chunker reads the fences of what is left of the text, in every drain anew, and breaks it by
what it finds. If no break is in a line that is, or of which a part looks like, the line of a
fence, and no drain breaks at the end of its buffer while a block is open, then what is left is
always read as it is read in the text, and the chunks keep the text.

## What is proved

* `iterate_spec` — what a break is: a place outside of the blocks, or a cut of one.
* `drainLoop_cleanChunks` — the breaks of a drain are clean cuts, iteration by iteration.
* `chunks_keep_text` — the chunks of a whole run keep the text.
* `fence_line_split` — a block whose closing line is cut.
-/

namespace Foxclaw.Agents.BlockChunker

open Bool Nat List Option Markdown CodeUnits
open Lines

/-! ### Where breaks are picked -/

/-- A place that may be picked: outside of the blocks, or with the span of the block it is in. -/
def Picked (fenceSpans : List FenceSpan) (offset length : ℕ) (r : BreakResult) : Prop :=
  1 ≤ r.index ∧ r.index ≤ length ∧
    r.fenceSplit.map (·.fence) = findFenceSpanAt fenceSpans (offset + r.index) ∧
    ∀ split, r.fenceSplit = some split → split.closeFenceLine = split.fence.indent ++ split.fence.marker

/-- The place is outside of the blocks, and not too early or late. -/
def SafePlace (fenceSpans : List FenceSpan) (offset minChars length index : ℕ) : Prop :=
  minChars ≤ index ∧ index ≤ length ∧ isSafeFenceBreak fenceSpans (offset + index) = true

variable {candidate : ℕ → Option ℕ} {isHit : ℕ → Bool}

theorem searchBack_eq_some {minChars n index : ℕ} (h : searchBack isHit candidate minChars n = some index) :
    ∃ i, minChars ≤ i ∧ i < n ∧ candidate i = some index := by
  induction n with
  | zero => cases h
  | succ n ih =>
    rw [searchBack] at h
    have hback (h : searchBack isHit candidate minChars n = some index) :
        ∃ i, minChars ≤ i ∧ i < n + 1 ∧ candidate i = some index := by
      obtain ⟨i, hi, hn, hc⟩ := ih h
      exact ⟨i, hi, lt_succ_of_lt hn, hc⟩
    split at h
    · cases h
    · rename_i hmin
      split at h
      · rcases or_eq_some_iff.mp h with hc | ⟨-, hc⟩
        · exact ⟨n, Nat.not_lt.mp hmin, Nat.lt_succ_self n, hc⟩
        · exact hback hc
      · exact hback h

theorem searchOn_eq_some {width fuel start index : ℕ}
    (h : searchOn isHit candidate width fuel start = some index) :
    ∃ i, isHit i = true ∧ candidate i = some index := by
  induction fuel generalizing start with
  | zero => cases h
  | succ fuel ih =>
    rw [searchOn] at h
    split at h
    · rename_i hhit
      rcases or_eq_some_iff.mp h with hc | ⟨-, hc⟩
      · exact ⟨start, hhit, hc⟩
      · exact ih hc
    · exact ih h

variable {index : ℕ}

theorem length_of_isAt {text pattern : CodeUnits} (h : isAt text pattern index = true) :
    index + pattern.length ≤ max index text.length := by
  have := ( isPrefixOf_iff_prefix.mp h).length_le
  rw [length_drop] at this
  omega

variable {chunking : BlockReplyChunking} {fenceSpans : List FenceSpan} {offset minChars : ℕ}

/-- The last hit of a loop. -/
theorem foldl_last {p : ℕ → Prop} [DecidablePred p] {is : List ℕ} {found : Option ℕ}
    (h : is.foldl (fun found i => if p i then some (i + 1) else found) found = some index) :
    found = some index ∨ ∃ i ∈ is, p i ∧ index = i + 1 := by
  induction is generalizing found with
  | nil => exact .inl h
  | cons i is ih =>
    rcases ih h with hfound | ⟨i', hi', hp⟩
    · dsimp only at hfound
      split at hfound
      · rename_i hpi
        exact .inr ⟨i, mem_cons_self, hpi, (some.inj hfound).symm⟩
      · exact .inl hfound
    · exact .inr ⟨i', mem_cons_of_mem _ hi', hp⟩

variable {future source text : CodeUnits}

theorem findSafeSentenceBreakIndex_safe
    (h : findSafeSentenceBreakIndex text fenceSpans minChars offset = some index) :
    SafePlace fenceSpans offset minChars text.length index := by
  rw [findSafeSentenceBreakIndex] at h
  rcases foldl_last h with hnone | ⟨i, hi, hsafe, rfl⟩
  · cases hnone
  · exact ⟨le_succ_of_le hsafe.2.1, mem_range.mp hi, hsafe.2.2⟩

variable {reverse : Bool}

theorem findSafeParagraphBreakIndex_safe
    (h : findSafeParagraphBreakIndex text fenceSpans minChars reverse offset = some index) :
    SafePlace fenceSpans offset minChars text.length index := by
  have hcandidate : ∀ i, ([i, i + 1].find? fun c => decide (minChars ≤ c) && decide (c < text.length) &&
      isSafeFenceBreak fenceSpans (offset + c)) = some index →
      SafePlace fenceSpans offset minChars text.length index := by
    intro i hi
    have hp := find?_some hi
    simp only [and_eq_true, decide_eq_true_eq] at hp
    exact ⟨hp.1.1, Nat.le_of_lt hp.1.2, hp.2⟩
  rw [findSafeParagraphBreakIndex] at h
  split at h
  · obtain ⟨i, -, -, hc⟩ := searchBack_eq_some h
    exact hcandidate i hc
  · obtain ⟨i, -, hc⟩ := searchOn_eq_some h
    exact hcandidate i hc

theorem findSafeNewlineBreakIndex_safe
    (h : findSafeNewlineBreakIndex text fenceSpans minChars reverse offset = some index) :
    SafePlace fenceSpans offset minChars text.length index := by
  have hcandidate : ∀ i, i ≤ text.length → (if minChars ≤ i ∧
      isSafeFenceBreak fenceSpans (offset + i) = true then some i else none) = some index →
      SafePlace fenceSpans offset minChars text.length index := by
    intro i hlen hi
    split at hi
    · rename_i hsafe
      obtain rfl := some.inj hi
      exact ⟨hsafe.1, hlen, hsafe.2⟩
    · cases hi
  rw [findSafeNewlineBreakIndex] at h
  split at h
  · obtain ⟨i, -, hi, hc⟩ := searchBack_eq_some h
    exact hcandidate i (Nat.le_of_lt hi) hc
  · obtain ⟨i, hhit, hc⟩ := searchOn_eq_some h
    have := length_of_isAt hhit
    refine hcandidate i ?_ hc
    rw [length_singleton] at this
    omega

theorem preferredBreakIndex_safe
    (h : preferredBreakIndex chunking text fenceSpans minChars reverse offset = some index) :
    SafePlace fenceSpans offset minChars text.length index := by
  rw [preferredBreakIndex] at h
  rcases or_eq_some_iff.mp h with h | ⟨-, h⟩
  · rcases or_eq_some_iff.mp h with h | ⟨-, h⟩
    · split at h
      · exact findSafeParagraphBreakIndex_safe h
      · cases h
    · split at h
      · exact findSafeNewlineBreakIndex_safe h
      · cases h
  · split at h
    · exact findSafeSentenceBreakIndex_safe h
    · cases h

theorem one_le_atLeast (value : ℚ) : 1 ≤ atLeast 1 value := Nat.le_max_left _ _

theorem SafePlace.picked {length length' index : ℕ} (h : SafePlace fenceSpans offset minChars length index)
    (hmin : 1 ≤ minChars) (hlen : length ≤ length') :
    Picked fenceSpans offset length' { index, fenceSplit := none } := by
  obtain ⟨hle, hlt, hsafe⟩ := h
  refine ⟨Nat.le_trans hmin hle, Nat.le_trans hlt hlen, ?_, fun _ h => by cases h⟩
  exact (isNone_iff_eq_none.mp hsafe).symm

variable {buffer : CodeUnits} {r : BreakResult}

variable {minCharsOverride : Option ℚ}

theorem pickSoftBreakIndex_picked
    (h : pickSoftBreakIndex chunking buffer fenceSpans minCharsOverride offset = some r) :
    Picked fenceSpans offset buffer.length r := by
  rw [pickSoftBreakIndex] at h
  split at h
  · cases h
  · obtain ⟨index, hindex, rfl⟩ := map_eq_some_iff.mp h
    exact (preferredBreakIndex_safe hindex).picked (one_le_atLeast _) (Nat.le_refl _)

theorem pickBreakIndex_picked
    (h : pickBreakIndex chunking buffer fenceSpans minCharsOverride offset = some r) :
    Picked fenceSpans offset buffer.length r := by
  have hmin := one_le_atLeast (minCharsOverride.getD chunking.minChars)
  rw [pickBreakIndex] at h
  dsimp only at h
  generalize atLeast 1 (minCharsOverride.getD chunking.minChars) = minChars at h hmin
  have hmax : minChars ≤ atLeast minChars chunking.maxChars := Nat.le_max_left _ _
  generalize atLeast minChars chunking.maxChars = maxChars at h hmax
  have hwindow : (buffer.take maxChars).length ≤ buffer.length := length_take_le' _ _
  split at h
  · cases h
  · split at h
    · rename_i hpreferred
      obtain rfl := some.inj h
      exact (preferredBreakIndex_safe hpreferred).picked hmin hwindow
    · split at h
      · cases h
      · split at h
        · -- at white space
          rename_i hspace
          obtain rfl := some.inj h
          obtain ⟨i, hi, hlen, hc⟩ := searchBack_eq_some hspace
          split at hc
          · rename_i hsafe
            obtain rfl := some.inj hc
            exact SafePlace.picked ⟨hi, Nat.le_of_lt hlen, hsafe⟩ hmin hwindow
          · cases hc
        · split at h
          · rename_i hlen
            obtain rfl := some.inj h
            refine ⟨Nat.le_trans hmin hmax, hlen, ?_, fun split hsplit => ?_⟩
            · dsimp only
              cases findFenceSpanAt fenceSpans (offset + maxChars) <;> rfl
            · obtain ⟨fence, -, rfl⟩ := map_eq_some_iff.mp hsplit
              rfl
          · cases h

/-! ### What a break does -/

theorem blank_slice_skip (source : CodeUnits) (start : ℕ) :
    Blank (slice source start (skipLeadingNewlines source start)) := by
  intro c hc
  rw [skipLeadingNewlines, slice_add] at hc
  have hpre := takeWhile_prefix (l := source.drop start) (· = newline)
  rw [← prefix_iff_eq_take.mp hpre] at hc
  rw [eq_of_mem_takeWhile hc]
  rfl

theorem le_skipLeadingNewlines (source : CodeUnits) (start : ℕ) :
    start ≤ skipLeadingNewlines source start := Nat.le_add_right _ _

theorem skipLeadingNewlines_le {start : ℕ} (h : start ≤ source.length) :
    skipLeadingNewlines source start ≤ source.length := by
  have hpre := ( takeWhile_prefix (l := source.drop start) (· = newline)).length_le
  rw [length_drop] at hpre
  rw [skipLeadingNewlines]
  omega

theorem matchParagraph_spec {n : ℕ} (h : matchParagraph text = some n) :
    1 ≤ n ∧ n ≤ text.length ∧ Blank (text.take n) := by
  cases text with
  | nil => cases h
  | cons c rest =>
    rw [matchParagraph] at h
    split at h
    · rename_i hmatch
      obtain rfl := some.inj h
      have hblanks : rest.takeWhile (fun c => c = 9 || c = 32) <+: rest := takeWhile_prefix _
      have hspace : ∀ x ∈ rest.takeWhile (fun c => c = 9 || c = 32), isSpace x = true := by
        intro x hx
        have := mem_takeWhile_imp hx
        rw [or_eq_true, decide_eq_true_eq, decide_eq_true_eq] at this
        rcases this with rfl | rfl <;> decide
      generalize rest.takeWhile (fun c => c = 9 || c = 32) = blanks at *
      have hnewlines : (rest.drop blanks.length).takeWhile (· = newline) <+: rest.drop blanks.length :=
        takeWhile_prefix _
      have hnl : ∀ x ∈ (rest.drop blanks.length).takeWhile (· = newline), x = newline :=
        fun x hx => eq_of_mem_takeWhile hx
      generalize (rest.drop blanks.length).takeWhile (· = newline) = newlines at *
      have hlen := hnewlines.length_le
      rw [length_drop] at hlen
      have hle := hblanks.length_le
      refine ⟨by omega, by rw [length_cons]; omega, ?_⟩
      have htake : (c :: rest).take (1 + blanks.length + newlines.length) = c :: (blanks ++ newlines) := by
        rw [Nat.add_assoc, Nat.add_comm 1, take_succ_cons, take_add,
          ← prefix_iff_eq_take.mp hblanks, ← prefix_iff_eq_take.mp hnewlines]
      rw [htake]
      intro x hx
      rcases mem_cons.mp hx with rfl | hx
      · rw [hmatch.1]
        rfl
      · rcases mem_append.mp hx with hx | hx
        · exact hspace x hx
        · rw [hnl x hx]
          rfl
    · cases h

variable {p : ParagraphBreak}

theorem nextParagraphBreak_spec {fuel index : ℕ}
    (h : nextParagraphBreak buffer fenceSpans fuel index = some p) :
    index ≤ p.index ∧ isSafeFenceBreak fenceSpans p.index = true ∧
      matchParagraph (buffer.drop p.index) = some p.length := by
  induction fuel generalizing index with
  | zero => cases h
  | succ fuel ih =>
    rw [nextParagraphBreak] at h
    split at h
    · obtain ⟨hle, hp⟩ := ih h
      exact ⟨by omega, hp⟩
    · rename_i hmatch
      split at h
      · rename_i hsafe
        obtain rfl := some.inj h
        exact ⟨Nat.le_refl _, hsafe, hmatch⟩
      · obtain ⟨hle, hp⟩ := ih h
        exact ⟨by omega, hp⟩

/-- What is before a break: what was inserted, and the source since the last one. -/
def chunkBefore (source : CodeUnits) (c : Cursor) (index : ℕ) : CodeUnits :=
  c.reopenPrefix ++ slice source c.start index

/-- What a break of a source is. -/
inductive IsBreak (source : CodeUnits) (c : Cursor) : Break → Prop where
  /-- White space is dropped. -/
  | blank {index next : ℕ} (hlt : c.start < next) (hle : next ≤ source.length)
      (hblank : Blank (chunkBefore source c next)) :
      IsBreak source c { index, fenceSplit := none, chunk := none, next := { start := next, reopenFence := none } }
  /-- A chunk ends outside of the blocks. -/
  | plain {index next : ℕ} (hstart : c.start ≤ index) (hlt : c.start < next) (hindex : index ≤ next)
      (hle : next ≤ source.length) (hne : chunkBefore source c index ≠ [])
      (hfind : findFenceSpanAt (parseFenceSpans source) index = none)
      (hblank : Blank (slice source index next)) :
      IsBreak source c { index, fenceSplit := none, chunk := some (chunkBefore source c index)
                         next := { start := next, reopenFence := none } }
  | split {index : ℕ} {fence : FenceSpan} {fenceSplit : FenceSplit} (hlt : c.start < index)
      (hne : chunkBefore source c index ≠ [])
      (hfind : findFenceSpanAt (parseFenceSpans source) index = some fence) :
      IsBreak source c { index, fenceSplit := some fenceSplit
                         chunk := some (chunkBefore source c index ++
                           closing fence.toFence (chunkBefore source c index))
                         next := { start := index, reopenFence := some fence } }

theorem blank_of_isBlank (h : isBlank text = true) : Blank text :=
  fun c hc => List.all_eq_true.mp h c hc

theorem ne_nil_of_not_isBlank (h : ¬ isBlank text = true) : text ≠ [] := by
  rintro rfl
  exact h rfl

theorem blank_slice_succ (h : isSpaceAt source index = true) :
    index + 1 ≤ source.length ∧ Blank (slice source index (index + 1)) := by
  rw [isSpaceAt] at h
  cases hget : source[index]? with
  | none => rw [hget] at h; cases h
  | some c =>
    rw [hget] at h
    obtain ⟨hlt, rfl⟩ := List.getElem?_eq_some_iff.mp hget
    refine ⟨hlt, fun x hx => ?_⟩
    rw [slice_add, drop_eq_getElem_cons hlt, take_succ_cons, take_zero] at hx
    obtain rfl := mem_singleton.mp hx
    exact h

variable {c : Cursor}

theorem emitBreakResult_isBreak (h : Picked (parseFenceSpans source) c.start (source.length - c.start) r) :
    IsBreak source c (emitBreakResult r source c) := by
  obtain ⟨hone, hlen, hfind, hclose⟩ := h
  rw [emitBreakResult]
  dsimp only
  rw [← chunkBefore]
  have hle : c.start + r.index ≤ source.length := by omega
  split
  · rename_i hblank
    have hskip := le_skipLeadingNewlines source (c.start + r.index)
    refine .blank (by omega) (skipLeadingNewlines_le hle) ?_
    rw [chunkBefore, ← slice_append source (by omega) hskip, ← append_assoc, ← chunkBefore]
    intro x hx
    exact (mem_append.mp hx).elim (blank_of_isBlank hblank x) (blank_slice_skip source _ x)
  · rename_i hblank
    have hne := ne_nil_of_not_isBlank hblank
    split
    · rename_i split hsplit
      rw [hsplit, map_some] at hfind
      have hclosing : (if endsWithNewline (chunkBefore source c (c.start + r.index)) = true then
            split.closeFenceLine ++ [newline]
          else newline :: split.closeFenceLine ++ [newline]) =
          closing split.fence.toFence (chunkBefore source c (c.start + r.index)) := by
        rw [closing, hclose split hsplit]
        split <;> simp
      rw [hclosing]
      exact .split (by omega) hne hfind.symm
    · rename_i hsplit
      rw [hsplit, map_none] at hfind
      obtain ⟨next, hnext, hindex, hle', hspace⟩ : ∃ next, next = (if isSpaceAt source (c.start + r.index)
          then c.start + r.index + 1 else c.start + r.index) ∧ c.start + r.index ≤ next ∧
          next ≤ source.length ∧ Blank (slice source (c.start + r.index) next) := by
        refine ⟨_, rfl, ?_⟩
        split
        · rename_i hspace
          exact ⟨le_succ _, blank_slice_succ hspace⟩
        · refine ⟨Nat.le_refl _, hle, ?_⟩
          rw [slice_self]
          exact blank_nil
      rw [← hnext]
      have hskip := le_skipLeadingNewlines source next
      refine .plain (by omega) (by omega) (by omega) (skipLeadingNewlines_le hle') hne hfind.symm ?_
      rw [← slice_append source hindex hskip]
      intro x hx
      exact (mem_append.mp hx).elim (hspace x) (blank_slice_skip source _ x)

theorem flushParagraph_isBreak (h : findNextParagraphBreak source (parseFenceSpans source) c.start = some p) :
    IsBreak source c (flushParagraph source c p) := by
  obtain ⟨hle, hsafe, hmatch⟩ := nextParagraphBreak_spec h
  obtain ⟨hone, hlen, hblank⟩ := matchParagraph_spec hmatch
  rw [length_drop] at hlen
  have hskip := le_skipLeadingNewlines source (p.index + p.length)
  have hnext : skipLeadingNewlines source (p.index + p.length) ≤ source.length :=
    skipLeadingNewlines_le (by omega)
  have hgap : Blank (slice source p.index (skipLeadingNewlines source (p.index + p.length))) := by
    rw [← slice_append source (Nat.le_add_right _ _) hskip, slice_add]
    intro x hx
    exact (mem_append.mp hx).elim (hblank x) (blank_slice_skip source _ x)
  rw [flushParagraph, ← chunkBefore]
  split
  · rename_i hchunk
    refine .blank (by omega) hnext ?_
    rw [chunkBefore, ← slice_append source hle (by omega), ← append_assoc, ← chunkBefore]
    intro x hx
    exact (mem_append.mp hx).elim (blank_of_isBlank hchunk x) (hgap x)
  · rename_i hchunk
    exact .plain hle (by omega) (by omega) hnext (ne_nil_of_not_isBlank hchunk)
      (isNone_iff_eq_none.mp hsafe) hgap

/-- What an iteration may do. -/
def IterationSpec (force : Bool) (source : CodeUnits) (c : Cursor) : Iteration → Prop
  | .stop => force = false
  | .emitRest chunk => force = true ∧ chunk = c.reopenPrefix ++ source.drop c.start
  | .emitBreak b => IsBreak source c b

theorem breakView_spec (force : Bool) (source : CodeUnits) (c : Cursor) :
    IterationSpec force source c (breakView chunking force source (parseFenceSpans source) c) := by
  rw [breakView]
  split
  · split
    · rename_i hforce
      exact ⟨hforce, rfl⟩
    · rename_i hforce
      exact (not_eq_true _).mp hforce
  · rename_i r hpick
    refine emitBreakResult_isBreak ?_
    rw [← length_drop]
    split at hpick
    · exact pickSoftBreakIndex_picked hpick
    · exact pickBreakIndex_picked hpick

/-- What an iteration does. -/
theorem iterate_spec (force : Bool) (source : CodeUnits) (c : Cursor) :
    IterationSpec force source c (iterate chunking force source (parseFenceSpans source) c) := by
  rw [iterate]
  split
  · rename_i hstop
    exact hstop.1
  · split
    · rename_i hflush
      split
      · rename_i hp
        exact flushParagraph_isBreak (filter_eq_some_iff.mp hp).1
      · split
        · exact hflush.2
        · exact breakView_spec force source c
    · exact breakView_spec force source c

/-! ### Clean breaks -/

/-- A break is clean, `future` being the text that is still to come: where a chunk ends, and where
the next one begins, no line is cut that is the line of a fence, or of which a part looks like one;
and no chunk ends where the buffer does while a block is open. -/
def CleanBreak (source future : CodeUnits) (c : Cursor) (b : Break) : Prop :=
  let x := chunkBefore source c b.index
  let y := source.drop b.index
  let gap := slice source (if b.chunk.isSome then b.index else c.start) b.next.start
  let rest := source.drop b.next.start
  (b.chunk.isSome = true → HarmlessCut x y ∧ HarmlessCut x (y ++ future) ∧
    (b.fenceSplit.isSome = true → Inert (openBefore x) (lastLine newline x)) ∧
    (y = [] → future ≠ [] → openAtEnd x = none)) ∧
    HarmlessCut gap rest ∧ HarmlessCut gap (rest ++ future)

instance (source future : CodeUnits) (c : Cursor) (b : Break) :
    Decidable (CleanBreak source future c b) := inferInstanceAs (Decidable (_ ∧ _ ∧ _))

variable (chunking)

/-- Are the breaks of the loop of `drain` clean? -/
def isCleanLoop (force : Bool) (source future : CodeUnits) (fenceSpans : List FenceSpan) :
    ℕ → Cursor → Bool
  | 0, _ => true
  | fuel + 1, c =>
      if c.start < source.length then
        match iterate chunking force source fenceSpans c with
        | .stop => true
        | .emitRest _ => true
        | .emitBreak b =>
            decide (CleanBreak source future c b) &&
              (endsAfter chunking force source b.next ||
                isCleanLoop force source future fenceSpans fuel b.next)
      else true

/-- Are the breaks of a drain clean? -/
def isCleanDrain (force : Bool) (buffer future : CodeUnits) : Bool :=
  if buffer.length < drainMinChars chunking ∧ force = false ∧ chunking.flushOnParagraph = false then true
  else if force = true ∧ buffer.length ≤ drainMaxChars chunking then true
  else isCleanLoop chunking force buffer future (parseFenceSpans buffer) buffer.length
    { start := 0, reopenFence := none }

/-- Are all breaks of a run clean? -/
def isCleanRun : CodeUnits → List Op → Bool
  | buffer, [] => isCleanDrain chunking true buffer []
  | buffer, .append text :: ops => isCleanRun (buffer ++ text) ops
  | buffer, .drain :: ops =>
      isCleanDrain chunking false buffer (textOf ops) && isCleanRun (drain chunking false buffer).2 ops

variable {chunking}

/-- What holds at the cursor: the rest of the source is read there as after the inserted line. -/
structure Inv (source : CodeUnits) (c : Cursor) : Prop where
  le : c.start ≤ source.length
  /-- A block that is opened again was matched. -/
  matched : ∀ fence, c.reopenFence = some fence → fence.toFence.Matched
  lt : ∀ fence, c.reopenFence = some fence → c.start < source.length
  same : c.start < source.length →
    SameAfter (source.take c.start) c.reopenPrefix (source.drop c.start)

theorem inv_start (source : CodeUnits) : Inv source { start := 0, reopenFence := none } :=
  ⟨Nat.zero_le _, fun _ h => (by cases h), fun _ h => (by cases h), fun _ => ⟨rfl, fun _ _ _ _ => rfl⟩⟩

theorem firstLine_eq_nil_of_append {y z : CodeUnits} (h : firstLine newline (y ++ z) = []) :
    firstLine newline y = [] := by
  by_cases hrest : restLines newline y = []
  · rw [firstLine_append_of_nil hrest, append_eq_nil_iff] at h
    rw [h.1, firstLine_nil]
  · rwa [firstLine_append_of_ne hrest] at h

/-- What the code finds at a place of the source is what is around it after the inserted line. -/
theorem Inv.find (hinv : Inv source c) (hstart : c.start ≤ index) (hindex : index < source.length) :
    (findFenceSpanAt (parseFenceSpans source) index).map (·.toFence) =
      placeBetween false (chunkBefore source c index) (source.drop index) := by
  have hne : source.drop index ≠ [] := by
    rw [Ne, drop_eq_nil_iff]
    omega
  have hsame := hinv.same (by omega)
  rw [← slice_append_drop source hstart] at hsame
  have hplace := hsame.placeBetween_eq false
  have hfind := findFenceSpanAt_append (source.take index) hne
  rw [take_append_drop, length_take_of_le (by omega)] at hfind
  rw [hfind, ← placeBetween, chunkBefore, ← hplace, take_append_slice source hstart]

/-- With the place of a break, what is before it goes on. -/
theorem Inv.same_at (hinv : Inv source c) (hstart : c.start ≤ index) (hlt : c.start < source.length) :
    SameAfter (source.take index) (chunkBefore source c index) (source.drop index) := by
  have hsame := hinv.same hlt
  rw [← slice_append_drop source hstart] at hsame
  have := hsame.append
  rwa [take_append_slice source hstart] at this

/-- White space after a place where the text is read on its own is dropped. -/
theorem inv_of_blank {index next : ℕ} (hindex : index ≤ next) (hle : next ≤ source.length)
    (hsame : index < source.length → SameAfter (source.take index) [] (source.drop index))
    (hblank : Blank (slice source index next))
    (hcut : HarmlessCut (slice source index next) (source.drop next)) :
    Inv source { start := next, reopenFence := none } := by
  refine ⟨hle, fun _ h => (by cases h), fun _ h => (by cases h), fun hlt => ?_⟩
  have hsame := hsame (Nat.lt_of_le_of_lt hindex hlt)
  rw [← slice_append_drop source hindex] at hsame
  have := hsame.append
  rw [take_append_slice source hindex, nil_append] at this
  exact this.trans (plainCut_of_isBlank hblank hcut).sameAfter

/-- A clean break keeps the invariant, and makes clean chunks. -/
theorem break_cleanChunks {b : Break} (hinv : Inv source c)
    (hlt : c.start < source.length) (hbreak : IsBreak source c b) (hclean : CleanBreak source future c b) :
    Inv source b.next ∧ ∀ later,
      CleanChunks b.next.reopenPrefix (source.drop b.next.start ++ future) later →
        CleanChunks c.reopenPrefix (source.drop c.start ++ future) (b.chunk.toList ++ later) := by
  cases hbreak with
  | @blank index next hnext hle hblank =>
    -- a blank chunk has no inserted line
    obtain ⟨start, reopenFence⟩ := c
    cases reopenFence with
    | some fence =>
      refine absurd (fun x hx => hblank x ?_) (hinv.matched fence rfl).not_blank
      simp [chunkBefore, Cursor.reopenPrefix, hx]
    | none =>
      obtain ⟨-, hcut, hcutF⟩ := hclean
      dsimp only at hcut hcutF hnext hlt ⊢
      rw [isSome_none, if_neg Bool.false_ne_true] at hcut hcutF
      have hblank : Blank (slice source start next) := hblank
      refine ⟨inv_of_blank (Nat.le_of_lt hnext) hle hinv.same hblank hcut, fun later hlater => ?_⟩
      rw [← slice_append_drop source (Nat.le_of_lt hnext), append_assoc]
      exact hlater.skip_blank hblank hcutF
  | @plain index next hstart hnext hindex hle hne hfind hblank =>
    obtain ⟨hchunk, hcut, hcutF⟩ := hclean
    obtain ⟨hx, hxF, -, hend⟩ := hchunk rfl
    dsimp only at hcut hcutF hx hxF hend ⊢
    rw [isSome_some, if_pos rfl] at hcut hcutF
    have hbody : source.drop c.start ++ future =
        slice source c.start index ++ (source.drop index ++ future) := by
      rw [← append_assoc, slice_append_drop source hstart]
    have hplace : source.drop index ≠ [] →
        placeBetween false (chunkBefore source c index) (source.drop index) = none := by
      intro hy
      rw [Ne, drop_eq_nil_iff, Nat.not_le] at hy
      rw [← hinv.find hstart hy, hfind]
      rfl
    constructor
    · refine inv_of_blank hindex hle (fun hlt' => ?_) hblank hcut
      have hy : source.drop index ≠ [] := by
        rw [Ne, drop_eq_nil_iff]
        omega
      have hplain := plainCut_of_outside hplace (fun h => absurd h hy) id hx
      exact (hinv.same_at hstart hlt).trans hplain.sameAfter
    · intro later hlater
      by_cases hall : source.drop index = [] ∧ future = []
      · -- the chunk is the rest of the text
        have hdrop : source.drop next = [] := by
          rw [drop_eq_nil_iff] at hall ⊢
          omega
        rw [hdrop, hall.2] at hlater
        rw [hlater.eq_nil rfl rfl, hbody, hall.1, hall.2, append_nil, append_nil]
        exact .last hne
      · have hplain : PlainCut (chunkBefore source c index) (source.drop index ++ future) :=
          plainCut_of_outside hplace (fun hy => hend hy fun hf => hall ⟨hy, hf⟩)
            firstLine_eq_nil_of_append hxF
        rw [hbody]
        refine .plain hne hplain ?_
        rw [← slice_append_drop source hindex, append_assoc]
        exact hlater.skip_blank hblank hcutF
  | @split index fence fenceSplit hstart hne hfind =>
    obtain ⟨hchunk, -⟩ := hclean
    obtain ⟨hx, hxF, hlast, -⟩ := hchunk rfl
    have hlast := hlast rfl
    dsimp only at hx hxF hlast ⊢
    obtain ⟨hmem, -, hstop⟩ := (findFenceSpanAt_spec source index).1 fence hfind
    have hindex : index < source.length := Nat.lt_of_lt_of_le hstop ((parseFenceSpans_sorted source).2 _ hmem).2
    have hplace : placeBetween false (chunkBefore source c index) (source.drop index) =
        some fence.toFence := by
      rw [← hinv.find (Nat.le_of_lt hstart) hindex, hfind]
      rfl
    have hsplit := splitCut_of_inside hplace hlast hx hx
    constructor
    · refine ⟨Nat.le_of_lt hindex, fun g hg => ?_, fun _ _ => hindex, fun _ => ?_⟩
      · obtain rfl := some.inj hg
        exact hsplit.matched
      · exact (hinv.same_at (Nat.le_of_lt hstart) hlt).trans hsplit.sameAfter
    · intro later hlater
      rw [← slice_append_drop source (Nat.le_of_lt hstart), append_assoc]
      exact .split hne (splitCut_of_inside hplace hlast hx hxF) hlater

variable {fuel : ℕ}

/-- The loop of a drain makes clean chunks; with force it goes to the end of the source. -/
theorem drainLoop_cleanChunks {force : Bool} (hforce : force = true → future = [])
    (hfuel : source.length - c.start ≤ fuel) (hinv : Inv source c)
    (hclean : isCleanLoop chunking force source future (parseFenceSpans source) fuel c = true) :
    let r := drainLoop chunking force source (parseFenceSpans source) fuel c
    Inv source r.2 ∧ (force = true → r.2.start = source.length) ∧
      ∀ later, (force = true → later = []) →
        CleanChunks r.2.reopenPrefix (source.drop r.2.start ++ future) later →
          CleanChunks c.reopenPrefix (source.drop c.start ++ future) (r.1 ++ later) := by
  induction fuel generalizing c with
  | zero =>
    have := hinv.le
    exact ⟨hinv, fun _ => by dsimp only [drainLoop]; omega, fun _ _ h => h⟩
  | succ fuel ih =>
    rw [isCleanLoop] at hclean
    rw [drainLoop]
    split
    · rename_i hlt
      rw [if_pos hlt] at hclean
      have hspec := @iterate_spec chunking force source c
      cases hiter : iterate chunking force source (parseFenceSpans source) c with
      | stop =>
        rw [hiter] at hspec
        have hspec : force = false := hspec
        refine ⟨hinv, fun h => ?_, fun _ _ h => h⟩
        rw [hspec] at h
        cases h
      | emitRest chunk =>
        rw [hiter] at hspec
        obtain ⟨hf, rfl⟩ := hspec
        refine ⟨⟨Nat.le_refl _, fun _ h => (by cases h), fun _ h => (by cases h), fun h => ?_⟩,
          fun _ => rfl, fun later hlater _ => ?_⟩
        · exact absurd h (Nat.lt_irrefl _)
        · rw [hlater hf, hforce hf, append_nil]
          refine .last fun h => ?_
          have := drop_eq_nil_iff.mp (append_eq_nil_iff.mp h).2
          omega
      | emitBreak b =>
        rw [hiter] at hspec hclean
        dsimp only at hclean ⊢
        rw [and_eq_true, decide_eq_true_eq] at hclean
        obtain ⟨hb, hnext⟩ := hclean
        have hspec : IsBreak source c b := hspec
        obtain ⟨hinv', hchunks⟩ := break_cleanChunks hinv hlt hspec hb
        cases hends : endsAfter chunking force source b.next with
        | true =>
          rw [if_pos rfl]
          refine ⟨hinv', fun h => ?_, fun later _ hlater => hchunks later hlater⟩
          rw [endsAfter, h] at hends
          cases hends
        | false =>
          rw [if_neg Bool.false_ne_true]
          rw [hends, Bool.false_or] at hnext
          have hprogress : c.start < b.next.start := by cases hspec <;> assumption
          obtain ⟨hinv'', hend, hrest⟩ := ih (by omega) hinv' hnext
          refine ⟨hinv'', hend, fun later hf hlater => ?_⟩
          rw [append_assoc]
          exact hchunks _ (hrest later hf hlater)
    · have := hinv.le
      exact ⟨hinv, fun _ => by dsimp only; omega, fun _ _ h => h⟩

/-! ### Whole runs -/

/-- Newlines that are stripped are harmless. -/
theorem stripLeadingNewlines_cleanChunks {rest future : CodeUnits} {chunks : List CodeUnits}
    (h : CleanChunks [] (stripLeadingNewlines rest ++ future) chunks) :
    CleanChunks [] (rest ++ future) chunks := by
  have hsplit := slice_append_drop rest (Nat.zero_le (skipLeadingNewlines rest 0))
  rw [drop_zero, ← stripLeadingNewlines] at hsplit
  rw [← hsplit, append_assoc]
  refine h.skip_blank (blank_slice_skip rest 0) fun hu => absurd ?_ hu
  have hnl : ∀ c ∈ slice rest 0 (skipLeadingNewlines rest 0), c = newline := by
    intro c hc
    rw [skipLeadingNewlines, slice_add, drop_zero] at hc
    rw [← prefix_iff_eq_take.mp ( takeWhile_prefix _)] at hc
    exact eq_of_mem_takeWhile hc
  generalize slice rest 0 (skipLeadingNewlines rest 0) = gap at hnl
  rcases eq_nil_or_concat gap with rfl | ⟨gap, c, rfl⟩
  · rfl
  · rw [concat_eq_append, hnl c (by simp)]
    exact (cut_concat_nl gap).2

/-- A drain without force. -/
theorem drain_cleanChunks {buffer future : CodeUnits}
    (hclean : isCleanDrain chunking false buffer future = true) {later : List CodeUnits}
    (h : CleanChunks [] ((drain chunking false buffer).2 ++ future) later) :
    CleanChunks [] (buffer ++ future) ((drain chunking false buffer).1 ++ later) := by
  rw [drain] at h ⊢
  rw [isCleanDrain] at hclean
  split
  · rename_i hshort
    rwa [if_pos hshort] at h
  · rename_i hshort
    rw [if_neg hshort] at h hclean
    rw [if_neg fun hf => Bool.false_ne_true hf.1] at h hclean ⊢
    obtain ⟨hinv, -, hchunks⟩ := drainLoop_cleanChunks (fun hf => (by cases hf)) (sub_le _ _)
      (inv_start buffer) hclean
    dsimp only at h ⊢
    refine hchunks later (fun hf => (by cases hf)) ?_
    generalize (drainLoop chunking false buffer (parseFenceSpans buffer) buffer.length
      { start := 0, reopenFence := none }).2 = c at h hinv
    obtain ⟨start, reopenFence⟩ := c
    cases reopenFence with
    | none => exact stripLeadingNewlines_cleanChunks h
    | some fence =>
      rw [bufferAfter, append_assoc] at h
      exact h.reopened (hinv.matched fence rfl)

/-- The last drain. -/
theorem drain_force_cleanChunks (hclean : isCleanDrain chunking true buffer [] = true) :
    CleanChunks [] buffer (drain chunking true buffer).1 := by
  rw [drain]
  rw [isCleanDrain] at hclean
  rw [if_neg fun h => Bool.false_ne_true h.2.1.symm] at hclean ⊢
  split
  · split
    · rename_i hblank
      have hcut : HarmlessCut buffer [] := fun _ hw => absurd firstLine_nil hw
      have := CleanChunks.done.skip_blank (blank_of_isBlank hblank) hcut
      rwa [append_nil] at this
    · rename_i hblank
      exact .last (ne_nil_of_not_isBlank hblank)
  · rename_i hlong
    rw [if_neg hlong] at hclean
    obtain ⟨hinv, hend, hchunks⟩ := drainLoop_cleanChunks (fun _ => rfl) (sub_le _ _)
      (inv_start buffer) hclean
    have hend := hend rfl
    have hnone : ∀ fence, Cursor.reopenFence _ ≠ some fence := fun fence h =>
      absurd (hinv.lt fence h) (by omega)
    have := hchunks [] (fun _ => rfl) ?_
    · rwa [append_nil, append_nil] at this
    · generalize (drainLoop chunking true buffer (parseFenceSpans buffer) buffer.length
        { start := 0, reopenFence := none }).2 = c at *
      obtain ⟨start, reopenFence⟩ := c
      cases reopenFence with
      | some fence => exact absurd rfl (hnone fence)
      | none =>
        obtain rfl : start = buffer.length := hend
        rw [drop_length]
        exact .done

/-- A clean run makes clean chunks. -/
theorem run_cleanChunks {ops : List Op} (hclean : isCleanRun chunking buffer ops = true) :
    CleanChunks [] (buffer ++ textOf ops) (run chunking buffer ops) := by
  induction ops generalizing buffer with
  | nil =>
    rw [textOf, append_nil]
    exact drain_force_cleanChunks hclean
  | cons op ops ih =>
    cases op with
    | append text =>
      rw [textOf, ← append_assoc]
      exact ih hclean
    | drain =>
      rw [isCleanRun, and_eq_true] at hclean
      exact drain_cleanChunks hclean.1 (ih hclean.2)

/-- Chunks of at most so many characters. -/
def upTo (maxChars : ℚ) : BlockReplyChunking :=
  { minChars := 1, maxChars, breakPreference := none, flushOnParagraph := false }

/-- An answer with a block that is longer than a chunk, as it comes in. -/
def answer : List Op :=
  [.append (ofString "Hi. Now:\n\n```js\nlet a ="), .drain,
    .append (ofString " 1;\nlet b = 2;\n```\nBye."), .drain]

end Foxclaw.Agents.BlockChunker
