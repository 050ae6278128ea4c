import Foxclaw.Lib.CodeUnits
import Foxclaw.Lib.Lines

/-!
# Chunks of a memory file

This module models `chunkMarkdown` of `memory/internal.ts`: the lines of a file are cut into pieces,
and the pieces are gathered into chunks of about a size. Where a chunk ends, its last pieces are
carried over to the next one, until they are as long as the overlap.

## The model

The settings are integers, as the configuration has them. The loop over a line has the length of the
line as fuel: a piece is at least 32 characters long.

## What is proved

* `restore_piecesOf` — the pieces give back the file.
* `chunked_foldl` — each chunk is made of the pieces carried over from the one before and of at
  least one new piece, and the new pieces are all pieces, in order.
* `chunkMarkdown_covers` — both, with how long a chunk can get.
-/

namespace Foxclaw.Memory.ChunkMarkdown

open List CodeUnits

/-- A piece of a line, with the number of the line. -/
structure Entry where
  line : CodeUnits
  lineNo : ℕ
  deriving DecidableEq

/-- `EmbeddingInput`, of a text. -/
structure EmbeddingInput where
  text : CodeUnits
  deriving DecidableEq

def buildTextEmbeddingInput (text : CodeUnits) : EmbeddingInput := { text }

structure MemoryChunk where
  startLine : ℕ
  endLine : ℕ
  text : CodeUnits
  hash : CodeUnits
  embeddingInput : EmbeddingInput
  deriving DecidableEq

def maxChars (tokens : ℤ) : ℕ := (max 32 (tokens * 4)).toNat

def overlapChars (overlap : ℤ) : ℕ := (max 0 (overlap * 4)).toNat

/-- How much the pieces add to `currentChars`. -/
def chars (entries : List Entry) : ℕ := Lines.span (entries.map Entry.line)

/-! ### The pieces of the lines -/

/-- The loop over a line, from a place on. -/
def segmentsFrom (maxChars : ℕ) (line : CodeUnits) : ℕ → ℕ → List CodeUnits
  | 0, _ => []
  | fuel + 1, start =>
    if start < line.length then
      slice line start (start + maxChars) :: segmentsFrom maxChars line fuel (start + maxChars)
    else []

def segments (maxChars : ℕ) (line : CodeUnits) : List CodeUnits :=
  if line.length = 0 then [[]] else segmentsFrom maxChars line line.length 0

/-- The pieces of a line. -/
def entriesOf (maxChars : ℕ) (line : CodeUnits) (lineNo : ℕ) : List Entry :=
  (segments maxChars line).map fun segment => { line := segment, lineNo }

/-- The pieces of lines, of which the first has the number given. -/
def entriesFrom (maxChars : ℕ) : ℕ → List CodeUnits → List Entry
  | _, [] => []
  | lineNo, line :: lines => entriesOf maxChars line lineNo ++ entriesFrom maxChars (lineNo + 1) lines

/-- The pieces of a file. -/
def piecesOf (maxChars : ℕ) (content : CodeUnits) : List Entry :=
  entriesFrom maxChars 1 (Lines.splitLines newline content)

/-! ### Gathering -/

section
variable (hashText : CodeUnits → CodeUnits)

/-- What `flush` pushes. -/
def chunkOf (current : List Entry) : Option MemoryChunk :=
  match current.head?, current.getLast? with
  | some firstEntry, some lastEntry =>
    let text := [newline].intercalate (current.map Entry.line)
    some { startLine := firstEntry.lineNo
           endLine := lastEntry.lineNo
           text
           hash := hashText text
           embeddingInput := buildTextEmbeddingInput text }
  | _, _ => none

/-- The loop of `carryOverlap`, over the pieces from the last on. -/
def keepLoop (overlapChars : ℕ) : ℕ → List Entry → List Entry → List Entry
  | _, kept, [] => kept
  | acc, kept, entry :: earlier =>
    let acc := acc + (entry.line.length + 1)
    let kept := entry :: kept
    if overlapChars ≤ acc then kept else keepLoop overlapChars acc kept earlier

/-- `carryOverlap`: the pieces that are carried over. -/
def carryOverlap (overlapChars : ℕ) (current : List Entry) : List Entry :=
  if overlapChars = 0 ∨ current = [] then [] else keepLoop overlapChars 0 [] current.reverse

/-- The variables of `chunkMarkdown`. -/
structure Gathering where
  chunks : List MemoryChunk
  current : List Entry
  currentChars : ℕ

def flush (g : Gathering) : Gathering := { g with chunks := g.chunks ++ (chunkOf hashText g.current).toList }

/-- What the inner loop does with a piece. -/
def gatherEntry (maxChars overlapChars : ℕ) (g : Gathering) (entry : Entry) : Gathering :=
  let lineSize := entry.line.length + 1
  let g :=
    if maxChars < g.currentChars + lineSize ∧ 0 < g.current.length then
      let flushed := flush hashText g
      let kept := carryOverlap overlapChars flushed.current
      { flushed with current := kept, currentChars := chars kept }
    else g
  { g with current := g.current ++ [entry], currentChars := g.currentChars + lineSize }

/-- The outer loop, from a line on. -/
def gatherLines (maxChars overlapChars : ℕ) : ℕ → List CodeUnits → Gathering → Gathering
  | _, [], g => g
  | lineNo, line :: lines, g =>
    gatherLines maxChars overlapChars (lineNo + 1) lines
      ((entriesOf maxChars line lineNo).foldl (gatherEntry hashText maxChars overlapChars) g)

def chunkMarkdown (content : CodeUnits) (tokens overlap : ℤ) : List MemoryChunk :=
  let g := gatherLines hashText (maxChars tokens) (overlapChars overlap) 1 (Lines.splitLines newline content)
    { chunks := [], current := [], currentChars := 0 }
  (flush hashText g).chunks

end

/-! ### The pieces give back the file -/

/-- The text of pieces that follow a piece of the line `lineNo`. -/
def restoreAfter : ℕ → List Entry → CodeUnits
  | _, [] => []
  | lineNo, entry :: entries =>
    (if entry.lineNo = lineNo then [] else [newline]) ++ (entry.line ++ restoreAfter entry.lineNo entries)

/-- The text that the pieces are of: a piece of a new line stands after an end of line. -/
def restore : List Entry → CodeUnits
  | [] => []
  | entry :: entries => entry.line ++ restoreAfter entry.lineNo entries

section
variable {m : ℕ}

/-- The pieces of a line, from a place on, are the line from there on. -/
theorem flatten_segmentsFrom (hm : 0 < m) (line : CodeUnits) {fuel start : ℕ}
    (hfuel : line.length ≤ start + fuel) : (segmentsFrom m line fuel start).flatten = line.drop start := by
  induction fuel generalizing start with
  | zero => rw [drop_eq_nil_of_le (by omega)]; rfl
  | succ fuel ih =>
    rw [segmentsFrom]
    by_cases hlt : start < line.length
    · rw [if_pos hlt, flatten_cons, ih (by omega), slice_append_drop line (Nat.le_add_right start m)]
    · rw [if_neg hlt, drop_eq_nil_of_le (not_lt.mp hlt)]
      rfl

theorem flatten_segments (hm : 0 < m) (line : CodeUnits) : (segments m line).flatten = line := by
  rw [segments]
  split_ifs with hempty
  · rw [eq_nil_of_length_eq_zero hempty]
    rfl
  · rw [flatten_segmentsFrom hm line (by omega), drop_zero]

/-- Every line has a piece. -/
theorem segments_ne_nil (line : CodeUnits) : segments m line ≠ [] := by
  rw [segments]
  split_ifs with hempty
  · exact cons_ne_nil _ _
  · obtain ⟨n, hn⟩ := Nat.exists_eq_succ_of_ne_zero hempty
    rw [hn, segmentsFrom, if_pos (Nat.pos_of_ne_zero hempty)]
    exact cons_ne_nil _ _

variable {line segment : CodeUnits}

theorem length_le_of_mem_segmentsFrom {fuel start : ℕ}
    (h : segment ∈ segmentsFrom m line fuel start) : segment.length ≤ m := by
  induction fuel generalizing start with
  | zero => cases h
  | succ fuel ih =>
    rw [segmentsFrom] at h
    split_ifs at h
    · rcases mem_cons.mp h with rfl | h
      · rw [slice_add]
        exact length_take_le m _
      · exact ih h
    · cases h

theorem length_le_of_mem_segments (h : segment ∈ segments m line) : segment.length ≤ m := by
  rw [segments] at h
  split_ifs at h
  · rw [mem_singleton.mp h]
    exact Nat.zero_le m
  · exact length_le_of_mem_segmentsFrom h

/-- No piece is longer than `maxChars`. -/
theorem length_le_of_mem_entriesFrom {lineNo : ℕ} {lines : List CodeUnits} {entry : Entry}
    (h : entry ∈ entriesFrom m lineNo lines) : entry.line.length ≤ m := by
  induction lines generalizing lineNo with
  | nil => cases h
  | cons line lines ih =>
    rcases mem_append.mp h with h | h
    · obtain ⟨segment, hsegment, rfl⟩ := List.mem_map.mp h
      exact length_le_of_mem_segments hsegment
    · exact ih h

theorem entriesFrom_ne_nil (lineNo : ℕ) (line : CodeUnits) (lines : List CodeUnits) :
    entriesFrom m lineNo (line :: lines) ≠ [] := by
  rw [entriesFrom, entriesOf]
  exact append_ne_nil_of_left_ne_nil (fun h => segments_ne_nil line (map_eq_nil_iff.mp h)) _

theorem restoreAfter_same (lineNo : ℕ) (pieces : List CodeUnits) (entries : List Entry) :
    restoreAfter lineNo ((pieces.map fun segment => { line := segment, lineNo }) ++ entries) =
      pieces.flatten ++ restoreAfter lineNo entries := by
  induction pieces with
  | nil => rfl
  | cons piece pieces ih =>
    rw [map_cons, cons_append, restoreAfter, if_pos rfl, ih, nil_append, flatten_cons, append_assoc]

/-- The first piece of a line, with the others. -/
theorem restore_entriesOf (hm : 0 < m) (line : CodeUnits) (lineNo : ℕ) (entries : List Entry) :
    restore (entriesOf m line lineNo ++ entries) = line ++ restoreAfter lineNo entries := by
  have hline := flatten_segments hm line
  rw [entriesOf]
  cases hsegments : segments m line with
  | nil => exact absurd hsegments (segments_ne_nil line)
  | cons piece pieces =>
    rw [hsegments, flatten_cons] at hline
    rw [map_cons, cons_append, restore, restoreAfter_same, ← append_assoc, hline]

/-- A piece of another line stands after an end of line. -/
theorem restoreAfter_of_ne {lineNo : ℕ} {entries : List Entry} (hne : entries ≠ [])
    (h : ∀ entry ∈ entries.head?, entry.lineNo ≠ lineNo) :
    restoreAfter lineNo entries = newline :: restore entries := by
  cases entries with
  | nil => exact absurd rfl hne
  | cons entry entries =>
    rw [restoreAfter, if_neg (h entry rfl)]
    rfl

theorem head_entriesFrom (lineNo : ℕ) (lines : List CodeUnits) :
    ∀ entry ∈ (entriesFrom m lineNo lines).head?, entry.lineNo = lineNo := by
  intro entry hentry
  cases lines with
  | nil => cases hentry
  | cons line lines =>
    rw [entriesFrom, entriesOf] at hentry
    cases hsegments : segments m line with
    | nil => exact absurd hsegments (segments_ne_nil line)
    | cons piece pieces =>
      rw [hsegments] at hentry
      obtain rfl := Option.some.inj hentry
      rfl

/-- The pieces of lines give back the lines. -/
theorem restore_entriesFrom (hm : 0 < m) (lineNo : ℕ) (lines : List CodeUnits) :
    restore (entriesFrom m lineNo lines) = [newline].intercalate lines := by
  induction lines generalizing lineNo with
  | nil => rfl
  | cons line lines ih =>
    rw [entriesFrom, restore_entriesOf hm]
    cases lines with
    | nil => simp [entriesFrom, restoreAfter]
    | cons line' lines =>
      have hother : ∀ entry ∈ (entriesFrom m (lineNo + 1) (line' :: lines)).head?, entry.lineNo ≠ lineNo := by
        intro entry hentry
        rw [head_entriesFrom (lineNo + 1) (line' :: lines) entry hentry]
        exact Nat.succ_ne_self lineNo
      rw [restoreAfter_of_ne (entriesFrom_ne_nil _ _ _) hother, ih, intercalate_cons_cons,
        append_assoc, singleton_append]

theorem restore_piecesOf (hm : 0 < m) (content : CodeUnits) : restore (piecesOf m content) = content := by
  rw [piecesOf, restore_entriesFrom hm, Lines.intercalate_splitLines]

end

/-! ### Carrying over -/

theorem chars_cons (entry : Entry) (entries : List Entry) :
    chars (entry :: entries) = entry.line.length + 1 + chars entries := by
  rw [chars, map_cons, Lines.span, map_cons, sum_cons]
  rfl

theorem chars_append (entries entries' : List Entry) :
    chars (entries ++ entries') = chars entries + chars entries' := by
  rw [chars, map_append, Lines.span_append, chars, chars]

theorem keepLoop_suffix (overlapChars acc : ℕ) (kept rest : List Entry) :
    keepLoop overlapChars acc kept rest <:+ rest.reverse ++ kept := by
  induction rest generalizing acc kept with
  | nil => exact suffix_rfl
  | cons entry earlier ih =>
    rw [keepLoop, reverse_cons, append_assoc, singleton_append]
    split_ifs
    · exact suffix_append _ _
    · exact ih _ _

/-- What is carried over are the last pieces. -/
theorem carryOverlap_suffix (overlapChars : ℕ) (current : List Entry) :
    carryOverlap overlapChars current <:+ current := by
  rw [carryOverlap]
  split_ifs
  · exact nil_suffix
  · have h := keepLoop_suffix overlapChars 0 [] current.reverse
    rwa [reverse_reverse, append_nil] at h

theorem chars_keepLoop {m overlapChars : ℕ} {acc : ℕ} {kept rest : List Entry}
    (hrest : ∀ entry ∈ rest, entry.line.length ≤ m) (hacc : acc = chars kept) (hlt : acc < overlapChars) :
    chars (keepLoop overlapChars acc kept rest) ≤ overlapChars + m := by
  induction rest generalizing acc kept with
  | nil =>
    rw [keepLoop]
    omega
  | cons entry earlier ih =>
    obtain ⟨hentry, hrest⟩ := forall_mem_cons.mp hrest
    have hnext : acc + (entry.line.length + 1) = chars (entry :: kept) := by
      rw [chars_cons, hacc]
      omega
    rw [keepLoop]
    split_ifs with hreached
    · rw [← hnext]
      omega
    · exact ih hrest hnext (not_le.mp hreached)

/-- How much is carried over: the last piece may reach beyond the overlap. -/
theorem chars_carryOverlap {m : ℕ} (overlapChars : ℕ) {current : List Entry}
    (h : ∀ entry ∈ current, entry.line.length ≤ m) :
    chars (carryOverlap overlapChars current) ≤ if overlapChars = 0 then 0 else overlapChars + m := by
  rw [carryOverlap]
  by_cases hzero : overlapChars = 0
  · rw [if_pos (.inl hzero), if_pos hzero]
    exact le_rfl
  · rw [if_neg hzero]
    split_ifs
    · exact Nat.zero_le _
    · exact chars_keepLoop (fun entry hentry => h entry (mem_reverse.mp hentry)) rfl
        (Nat.pos_of_ne_zero hzero)

/-! ### The chunks -/

section
variable (hashText : CodeUnits → CodeUnits)

/-- Pieces are gathered into chunks: each chunk has the pieces carried over to it and new pieces, at
least one, and what is carried over from it is `keep` of its pieces. -/
inductive Chunked (keep : List Entry → List Entry) : List Entry → List Entry → List MemoryChunk → Prop where
  | last {carried new : List Entry} {chunk : MemoryChunk} : new ≠ [] →
      chunkOf hashText (carried ++ new) = some chunk → Chunked keep carried new [chunk]
  | next {carried new rest : List Entry} {chunk : MemoryChunk} {chunks : List MemoryChunk} : new ≠ [] →
      chunkOf hashText (carried ++ new) = some chunk → Chunked keep (keep (carried ++ new)) rest chunks →
      Chunked keep carried (new ++ rest) (chunk :: chunks)

theorem exists_chunkOf {current : List Entry} (hne : current ≠ []) :
    ∃ chunk, chunkOf hashText current = some chunk ∧
      chunk.text = [newline].intercalate (current.map Entry.line) := by
  obtain ⟨first, hfirst⟩ : ∃ first, current.head? = some first :=
    ⟨current.head hne, head?_eq_some_head hne⟩
  obtain ⟨last, hlast⟩ : ∃ last, current.getLast? = some last :=
    ⟨current.getLast hne, getLast?_eq_some_getLast hne⟩
  rw [chunkOf, hfirst, hlast]
  exact ⟨_, rfl, rfl⟩

theorem gatherLines_eq (maxChars overlapChars lineNo : ℕ) (lines : List CodeUnits) (g : Gathering) :
    gatherLines hashText maxChars overlapChars lineNo lines g =
      (entriesFrom maxChars lineNo lines).foldl (gatherEntry hashText maxChars overlapChars) g := by
  induction lines generalizing lineNo g with
  | nil => rfl
  | cons line lines ih => rw [gatherLines, entriesFrom, foldl_append, ih]

/-- What a piece does: a chunk may be pushed and pieces carried over before it is added. -/
theorem gatherEntry_cases (maxChars overlapChars : ℕ) (g : Gathering) (entry : Entry) :
    (g.current ≠ [] ∧ gatherEntry hashText maxChars overlapChars g entry =
      { chunks := g.chunks ++ (chunkOf hashText g.current).toList
        current := carryOverlap overlapChars g.current ++ [entry]
        currentChars := chars (carryOverlap overlapChars g.current) + (entry.line.length + 1) }) ∨
    ((g.current = [] ∨ g.currentChars + (entry.line.length + 1) ≤ maxChars) ∧
      gatherEntry hashText maxChars overlapChars g entry =
        { g with current := g.current ++ [entry], currentChars := g.currentChars + (entry.line.length + 1) }) := by
  rw [gatherEntry]
  by_cases hfull : maxChars < g.currentChars + (entry.line.length + 1) ∧ 0 < g.current.length
  · refine .inl ⟨ne_nil_of_length_pos hfull.2, ?_⟩
    dsimp only
    rw [if_pos hfull]
    rfl
  · refine .inr ⟨?_, ?_⟩
    · rcases Nat.eq_zero_or_pos g.current.length with hempty | hpos
      · exact .inl (eq_nil_of_length_eq_zero hempty)
      · exact .inr (not_lt.mp fun h => hfull ⟨h, hpos⟩)
    · dsimp only
      rw [if_neg hfull]

variable {g : Gathering}

variable {entries : List Entry}

/-- From pieces that are gathered, some of them carried over, the loop goes on to gather the rest. -/
theorem chunked_foldl (maxChars overlapChars : ℕ) (carried new : List Entry)
    (hcurrent : g.current = carried ++ new) (hnew : new ≠ [] ∨ (carried = [] ∧ entries ≠ [])) :
    ∃ chunks, (flush hashText (entries.foldl (gatherEntry hashText maxChars overlapChars) g)).chunks =
        g.chunks ++ chunks ∧
      Chunked hashText (carryOverlap overlapChars) carried (new ++ entries) chunks := by
  induction entries generalizing g carried new with
  | nil =>
    have hne : new ≠ [] := hnew.resolve_right fun h => h.2 rfl
    obtain ⟨chunk, hchunk, -⟩ := exists_chunkOf hashText (append_ne_nil_of_right_ne_nil carried hne)
    refine ⟨[chunk], ?_, ?_⟩
    · rw [foldl_nil, flush, hcurrent, hchunk]
      rfl
    · rw [append_nil]
      exact .last hne hchunk
  | cons entry entries ih =>
    rw [foldl_cons]
    rcases gatherEntry_cases hashText maxChars overlapChars g entry with ⟨hne, hg⟩ | ⟨-, hg⟩
    · have hnew : new ≠ [] := by
        rcases hnew with hnew | ⟨rfl, -⟩
        · exact hnew
        · rwa [hcurrent, nil_append] at hne
      obtain ⟨chunk, hchunk, -⟩ := exists_chunkOf hashText hne
      have hnext : (gatherEntry hashText maxChars overlapChars g entry).current =
          carryOverlap overlapChars g.current ++ [entry] := by
        rw [hg]
      obtain ⟨chunks, hchunks, hrest⟩ := ih _ _ hnext (.inl (cons_ne_nil _ _))
      refine ⟨chunk :: chunks, ?_, ?_⟩
      · rw [hchunks, hg, hchunk]
        simp
      · rw [hcurrent] at hchunk hrest
        exact .next hnew hchunk hrest
    · have hnext : (gatherEntry hashText maxChars overlapChars g entry).current =
          carried ++ (new ++ [entry]) := by
        rw [hg, hcurrent, append_assoc]
      obtain ⟨chunks, hchunks, hrest⟩ :=
        ih _ _ hnext (.inl (append_ne_nil_of_right_ne_nil new (cons_ne_nil _ _)))
      refine ⟨chunks, ?_, ?_⟩
      · rw [hchunks, hg]
      · rwa [append_assoc, singleton_append] at hrest

/-- How long a chunk may get, counted with an end of line after each piece. -/
def bound (maxChars overlapChars : ℕ) : ℕ :=
  maxChars + 1 + if overlapChars = 0 then 0 else overlapChars + maxChars

/-- No chunk is too long, nor what is gathered for the next one. -/
structure Bounded (maxChars overlapChars : ℕ) (g : Gathering) : Prop where
  chunks : ∀ chunk ∈ g.chunks, chunk.text.length + 1 ≤ bound maxChars overlapChars
  current : chars g.current ≤ bound maxChars overlapChars
  /-- Each piece. -/
  pieces : ∀ entry ∈ g.current, entry.line.length ≤ maxChars
  counted : g.currentChars = chars g.current

theorem Bounded.chunk {maxChars overlapChars : ℕ} (h : Bounded maxChars overlapChars g) :
    ∀ chunk ∈ g.chunks ++ (chunkOf hashText g.current).toList,
      chunk.text.length + 1 ≤ bound maxChars overlapChars := by
  intro chunk hchunk
  rcases mem_append.mp hchunk with hchunk | hchunk
  · exact h.chunks chunk hchunk
  · have hchunk := Option.mem_toList.mp hchunk
    by_cases hne : g.current = []
    · rw [hne] at hchunk
      cases hchunk
    · obtain ⟨chunk', hchunk', htext⟩ := exists_chunkOf hashText hne
      rw [hchunk'] at hchunk
      obtain rfl : chunk' = chunk := Option.some.inj hchunk
      rw [htext, Lines.length_intercalate fun hnil => hne (map_eq_nil_iff.mp hnil)]
      exact h.current

theorem Bounded.gatherEntry {maxChars overlapChars : ℕ} (h : Bounded maxChars overlapChars g)
    {entry : Entry} (hentry : entry.line.length ≤ maxChars) :
    Bounded maxChars overlapChars (gatherEntry hashText maxChars overlapChars g entry) := by
  have hone : chars [entry] = entry.line.length + 1 := by rw [chars_cons]; rfl
  rcases gatherEntry_cases hashText maxChars overlapChars g entry with ⟨-, hg⟩ | ⟨hroom, hg⟩
  · rw [hg]
    refine ⟨h.chunk hashText, ?_, ?_, ?_⟩
    · have hkept := chars_carryOverlap overlapChars h.pieces
      show chars (carryOverlap overlapChars g.current ++ [entry]) ≤ _
      rw [chars_append, hone, bound]
      omega
    · refine forall_mem_append.mpr ⟨fun e he => ?_, forall_mem_singleton.mpr hentry⟩
      exact h.pieces e ((carryOverlap_suffix overlapChars g.current).subset he)
    · show _ = chars (carryOverlap overlapChars g.current ++ [entry])
      rw [chars_append, hone]
  · rw [hg]
    refine ⟨h.chunks, ?_, forall_mem_append.mpr ⟨h.pieces, forall_mem_singleton.mpr hentry⟩, ?_⟩
    · show chars (g.current ++ [entry]) ≤ _
      rw [chars_append, hone, bound]
      rcases hroom with hempty | hroom
      · rw [hempty]
        show 0 + (entry.line.length + 1) ≤ _
        omega
      · rw [h.counted] at hroom
        omega
    · show g.currentChars + (entry.line.length + 1) = chars (g.current ++ [entry])
      rw [chars_append, hone, h.counted]

theorem bounded_foldl {maxChars overlapChars : ℕ}
    (h : Bounded maxChars overlapChars g) (hentries : ∀ entry ∈ entries, entry.line.length ≤ maxChars) :
    Bounded maxChars overlapChars (entries.foldl (gatherEntry hashText maxChars overlapChars) g) := by
  induction entries generalizing g with
  | nil => exact h
  | cons entry entries ih =>
    obtain ⟨hentry, hentries⟩ := forall_mem_cons.mp hentries
    exact ih (h.gatherEntry hashText hentry) hentries

end

/-- The pieces of a file give back the file; they are gathered into chunks, each of which has, after the
pieces carried over from the one before, at least one new piece, and the new pieces are all pieces in
their order; what is carried over are last pieces of the chunk before. A chunk is at most `maxChars` long
without overlap, and `2 * maxChars + overlapChars` with it. -/
theorem chunkMarkdown_covers (hashText : CodeUnits → CodeUnits) (content : CodeUnits) (tokens overlap : ℤ) :
    let pieces := piecesOf (maxChars tokens) content
    let chunks := chunkMarkdown hashText content tokens overlap
    restore pieces = content ∧ (∀ entry ∈ pieces, entry.line.length ≤ maxChars tokens) ∧
      Chunked hashText (carryOverlap (overlapChars overlap)) [] pieces chunks ∧
      (∀ current, carryOverlap (overlapChars overlap) current <:+ current) ∧
      ∀ chunk ∈ chunks, chunk.text.length ≤
        if overlapChars overlap = 0 then maxChars tokens else 2 * maxChars tokens + overlapChars overlap := by
  have hm : 0 < maxChars tokens := by
    rw [maxChars]
    omega
  have hpieces : ∀ entry ∈ piecesOf (maxChars tokens) content, entry.line.length ≤ maxChars tokens :=
    fun entry => length_le_of_mem_entriesFrom
  have hne : piecesOf (maxChars tokens) content ≠ [] := entriesFrom_ne_nil _ _ _
  dsimp only
  refine ⟨restore_piecesOf hm content, hpieces, ?_, carryOverlap_suffix _, ?_⟩
  · obtain ⟨chunks, hchunks, hchunked⟩ := chunked_foldl hashText (maxChars tokens)
      (overlapChars overlap) (g := ⟨[], [], 0⟩) [] [] rfl (.inr ⟨rfl, hne⟩)
    rw [chunkMarkdown, gatherLines_eq]
    rw [nil_append] at hchunks hchunked
    exact hchunks ▸ hchunked
  · have hstart : Bounded (maxChars tokens) (overlapChars overlap) ⟨[], [], 0⟩ :=
      ⟨List.forall_mem_nil _, Nat.zero_le _, List.forall_mem_nil _, rfl⟩
    have hend := bounded_foldl hashText hstart hpieces
    intro chunk hchunk
    rw [chunkMarkdown, gatherLines_eq] at hchunk
    have hlong := hend.chunk hashText chunk hchunk
    rw [bound] at hlong
    split_ifs at hlong ⊢ <;> omega

/-- A line that is cut in two makes a chunk that is longer than `maxChars` and the overlap. -/
theorem long_line_overlaps : (1 : ℤ) < 8 ∧
    ∃ chunk ∈ chunkMarkdown id (List.replicate 64 97) 8 1, maxChars 8 + overlapChars 1 < chunk.text.length := by
  have hany : (chunkMarkdown id (List.replicate 64 97) 8 1).any
      (fun chunk => maxChars 8 + overlapChars 1 < chunk.text.length) = true := by decide +kernel
  obtain ⟨chunk, hchunk, hlong⟩ := List.any_eq_true.mp hany
  exact ⟨by decide, chunk, hchunk, of_decide_eq_true hlong⟩

end Foxclaw.Memory.ChunkMarkdown
