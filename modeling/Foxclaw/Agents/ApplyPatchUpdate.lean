import Foxclaw.Lib.LineEdits
import Foxclaw.Lib.Lines
import Foxclaw.Lib.Text

/-!
# Update hunks of a patch

`applyUpdateHunk` (`agents/apply-patch-update.ts`) applies the chunks of an update hunk to a file.
It looks for the old lines of each chunk from where the last one ended (`seekSequence`, with four
ways to compare lines, from strict to loose), or for a chunk marked end-of-file at the end of the
file. A chunk without old lines is an insertion at the end. The replacements are sorted by where
they start and spliced from the last to the first.

Text is a list of characters and a line is a text. Errors carry the texts of the source; the file
is read by a parameter.

## What is proved

* `findChunk_spec`, `locateFrom_spec` — where the chunks are found.
* `applyReplacement_eq`, `applyReplacements_eq` — the loops of `splice` make one edit after the other.
-/

namespace Foxclaw.ApplyPatch

open List LineEdits

abbrev Text := List Char

abbrev Line := List Char

/-- `[startIndex, oldLen, newLines]`. -/
abbrev Replacement := Edit Line

structure UpdateFileChunk where
  changeContext : Option Line
  oldLines : List Line
  newLines : List Line
  isEndOfFile : Bool
deriving DecidableEq

/-! ### Looking for lines -/

/-- One case of the `switch` in `normalizePunctuation`. -/
def normalizeChar (c : Char) : Char :=
  let n := c.toNat
  if (0x2010 ≤ n && n ≤ 0x2015) || n == 0x2212 then '-'
  else if 0x2018 ≤ n && n ≤ 0x201B then '\''
  else if 0x201C ≤ n && n ≤ 0x201F then '"'
  else if n == 0xA0 || (0x2002 ≤ n && n ≤ 0x200A) || n == 0x202F || n == 0x205F || n == 0x3000 then ' '
  else c

def normalizePunctuation (value : Line) : Line := value.map normalizeChar

variable (lines pattern : List Line) (start : ℕ)

def linesMatch (normalize : Line → Line) : Bool :=
  (List.range pattern.length).all fun idx =>
    normalize (lines.getD (start + idx) []) == normalize (pattern.getD idx [])

/-- The ways to compare lines, in the order they are tried. -/
def strengths : List (Line → Line) :=
  [fun value => value, Text.trimEnd, Text.trim, fun value => normalizePunctuation (Text.trim value)]

def maxStart : ℕ := lines.length - pattern.length

def searchStart (eof : Bool) : ℕ :=
  if eof && pattern.length ≤ lines.length then maxStart lines pattern else start

def seekSequence (eof : Bool) : Option ℕ :=
  if pattern.length = 0 then some start
  else if lines.length < pattern.length then none
  else if maxStart lines pattern < searchStart lines pattern start eof then none
  else strengths.findSome? fun normalize =>
    (List.range' (searchStart lines pattern start eof)
      (maxStart lines pattern + 1 - searchStart lines pattern start eof)).find? fun i =>
        linesMatch lines pattern i normalize

/-! ### `computeReplacements` -/

variable (lines : List Line) (filePath : Text)

/-- Where `changeContext` moves the cursor. -/
def seekContext (chunk : UpdateFileChunk) (lineIndex : ℕ) : Except Text ℕ :=
  match chunk.changeContext with
  | none => .ok lineIndex
  | some context =>
      -- an empty context is falsy
      if context = [] then .ok lineIndex
      else match seekSequence lines [context] lineIndex false with
        | some ctxIndex => .ok (ctxIndex + 1)
        | none => .error ("Failed to find context '".toList ++ context ++ "' in ".toList ++ filePath)

/-- Where a chunk without old lines puts its new ones. -/
def insertionIndex : ℕ :=
  if lines.getLast? = some [] then lines.length - 1 else lines.length

/-- The old lines of a chunk in the file; in a second try without a blank last line. -/
def findChunk (chunk : UpdateFileChunk) (lineIndex : ℕ) : Option Replacement :=
  match seekSequence lines chunk.oldLines lineIndex chunk.isEndOfFile with
  | some found => some ⟨found, chunk.oldLines.length, chunk.newLines⟩
  | none =>
      if chunk.oldLines.getLast? = some [] then
        let pattern := chunk.oldLines.dropLast
        let newSlice := if chunk.newLines.getLast? = some [] then chunk.newLines.dropLast else chunk.newLines
        (seekSequence lines pattern lineIndex chunk.isEndOfFile).map fun found =>
          ⟨found, pattern.length, newSlice⟩
      else none

/-- The loop of `computeReplacements`, with the cursor. -/
def locateFrom (lines : List Line) (filePath : Text) : ℕ → List UpdateFileChunk →
    Except Text (List Replacement)
  | _, [] => .ok []
  | lineIndex, chunk :: chunks =>
      match seekContext lines filePath chunk lineIndex with
      | .error err => .error err
      | .ok lineIndex =>
          if chunk.oldLines = [] then
            (locateFrom lines filePath lineIndex chunks).map
              (⟨insertionIndex lines, 0, chunk.newLines⟩ :: ·)
          else match findChunk lines chunk lineIndex with
            | none => .error ("Failed to find expected lines in ".toList ++ filePath ++ ":\n".toList ++
                ['\n'].intercalate chunk.oldLines)
            | some replacement =>
                (locateFrom lines filePath replacement.stop chunks).map (replacement :: ·)

/-- The replacements in the order of the chunks. -/
def locateChunks (chunks : List UpdateFileChunk) :
    Except Text (List Replacement) := locateFrom lines filePath 0 chunks

def computeReplacements (chunks : List UpdateFileChunk) : Except Text (List Replacement) :=
  (locateChunks lines filePath chunks).map (·.insertionSort fun a b => a.start ≤ b.start)

/-! ### `applyReplacements` -/

/-- The first inner loop: `splice(startIndex, 1)`, `oldLen` times. -/
def removeLines (startIndex : ℕ) : ℕ → List Line → List Line
  | 0, result => result
  | oldLen + 1, result =>
      removeLines startIndex oldLen (if startIndex < result.length then result.eraseIdx startIndex else result)

/-- The second inner loop: `splice(startIndex + i, 0, newLines[i])`. -/
def insertLines (startIndex : ℕ) : List Line → ℕ → List Line → List Line
  | [], _, result => result
  | line :: newLines, i, result =>
      insertLines startIndex newLines (i + 1)
        (result.take (startIndex + i) ++ line :: result.drop (startIndex + i))

def applyReplacement (result : List Line) (r : Replacement) : List Line :=
  insertLines r.start r.lines 0 (removeLines r.start r.removed result)

def applyReplacements (replacements : List Replacement) : List Line :=
  replacements.reverse.foldl applyReplacement lines

/-! ### `applyUpdateHunk` -/

/-- The lines of a file: the empty one behind the last end of line is none. -/
def fileLines (contents : Text) : List Line :=
  let lines := Lines.splitLines '\n' contents
  if lines.getLast? = some [] then lines.dropLast else lines

/-- The lines that are joined: an empty last one, for the end of the last line, unless there is one. -/
def terminated (newLines : List Line) : List Line :=
  if newLines.getLast? = some [] then newLines else newLines ++ [[]]

def applyUpdateHunk (chunks : List UpdateFileChunk) (readFile : Text → Except Text Text) : Except Text Text :=
  match readFile filePath with
  | .error err => .error ("Failed to read file to update ".toList ++ filePath ++ ": ".toList ++ err)
  | .ok originalContents =>
      let originalLines := fileLines originalContents
      match computeReplacements originalLines filePath chunks with
      | .error err => .error err
      | .ok replacements =>
          .ok (['\n'].intercalate (terminated (applyReplacements originalLines replacements)))

theorem exists_of_map_eq_ok {ε α β : Type} {x : Except ε α} {f : α → β} {y : β}
    (h : x.map f = .ok y) : ∃ a, x = .ok a ∧ f a = y := by
  cases x with
  | error err => cases h
  | ok a => exact ⟨a, rfl, Except.ok.inj h⟩

/-! ### Where the lines are found -/

theorem mem_of_find?_range' {p : ℕ → Bool} {start len i : ℕ}
    (h : (List.range' start len).find? p = some i) : start ≤ i ∧ i < start + len := by
  have hmem := mem_of_find?_eq_some h
  rw [mem_range'_1] at hmem
  exact hmem

theorem seekSequence_nil (start : ℕ) (eof : Bool) :
    seekSequence lines [] start eof = some start := rfl

/-- Lines that are found lie in the file, from the cursor on or at its end. -/
theorem seekSequence_spec {lines pattern : List Line} {start : ℕ} {eof : Bool} {found : ℕ}
    (hne : pattern ≠ []) (h : seekSequence lines pattern start eof = some found) :
    found + pattern.length ≤ lines.length ∧
      (if eof then found + pattern.length = lines.length else start ≤ found) := by
  have hpos : pattern.length ≠ 0 := by simpa using hne
  rw [seekSequence, if_neg hpos] at h
  split at h
  · cases h
  · rename_i hle
    split at h
    · cases h
    · rename_i hstart
      obtain ⟨normalize, -, hfind⟩ := exists_of_findSome?_eq_some h
      have hmem := mem_of_find?_range' hfind
      have hmax : maxStart lines pattern = lines.length - pattern.length := rfl
      cases eof with
      | false =>
        have hsearch : searchStart lines pattern start false = start := rfl
        rw [if_neg Bool.false_ne_true]
        omega
      | true =>
        have hsearch : searchStart lines pattern start true = maxStart lines pattern := by
          rw [searchStart, Bool.true_and, if_pos (by simpa using hle)]
        rw [if_pos rfl]
        omega

/-- What a chunk with old lines is replaced by, and where. -/
structure Found (lines : List Line) (chunk : UpdateFileChunk) (lineIndex : ℕ) (r : Replacement) : Prop where
  stop_le : r.stop ≤ lines.length
  removed_le : r.removed ≤ chunk.oldLines.length
  start_or_end : if chunk.isEndOfFile ∧ 0 < r.removed then r.stop = lines.length else lineIndex ≤ r.start
  lines_eq : r.lines = if r.removed < chunk.oldLines.length ∧ chunk.newLines.getLast? = some [] then
    chunk.newLines.dropLast else chunk.newLines

variable {chunk : UpdateFileChunk}

theorem found_of_seek {lines pattern : List Line} {lineIndex found : ℕ}
    {newSlice : List Line} (hcursor : lineIndex ≤ lines.length)
    (hseek : seekSequence lines pattern lineIndex chunk.isEndOfFile = some found)
    (hle : pattern.length ≤ chunk.oldLines.length)
    (hnew : newSlice = if pattern.length < chunk.oldLines.length ∧ chunk.newLines.getLast? = some [] then
      chunk.newLines.dropLast else chunk.newLines) :
    Found lines chunk lineIndex ⟨found, pattern.length, newSlice⟩ := by
  by_cases hne : pattern = []
  · subst hne
    rw [seekSequence_nil, Option.some.injEq] at hseek
    subst hseek
    exact ⟨hcursor, hle, by rw [if_neg (by simp)], hnew⟩
  · have hspec := seekSequence_spec hne hseek
    have hpos : 0 < pattern.length := length_pos_iff.mpr hne
    refine ⟨hspec.1, hle, ?_, hnew⟩
    cases heof : chunk.isEndOfFile with
    | false => simpa [heof] using hspec.2
    | true => simpa [heof, hpos, Edit.stop] using hspec.2

variable {lines : List Line} {lineIndex : ℕ}

variable {r : Replacement}

theorem findChunk_spec (hcursor : lineIndex ≤ lines.length) (h : findChunk lines chunk lineIndex = some r) :
    Found lines chunk lineIndex r := by
  rw [findChunk] at h
  split at h
  · rename_i found hseek
    cases h
    exact found_of_seek hcursor hseek le_rfl (by rw [if_neg (by omega)])
  · split at h
    · rename_i hlast
      obtain ⟨found, hseek, rfl⟩ := Option.map_eq_some_iff.mp h
      have hne : chunk.oldLines ≠ [] := by
        rintro heq
        rw [heq] at hlast
        cases hlast
      have hlen : chunk.oldLines.dropLast.length < chunk.oldLines.length := by
        rw [length_dropLast]
        have := length_pos_iff.mpr hne
        omega
      exact found_of_seek hcursor hseek hlen.le (by simp only [hlen, true_and])
    · cases h

theorem seekContext_spec {filePath : Text} {lineIndex cursor : ℕ} (hcursor : lineIndex ≤ lines.length)
    (h : seekContext lines filePath chunk lineIndex = .ok cursor) :
    lineIndex ≤ cursor ∧ cursor ≤ lines.length := by
  rw [seekContext] at h
  split at h
  · cases h
    exact ⟨le_rfl, hcursor⟩
  · split at h
    · cases h
      exact ⟨le_rfl, hcursor⟩
    · split at h
      · rename_i ctxIndex hseek
        have hspec := seekSequence_spec (cons_ne_nil _ _) hseek
        rw [length_singleton, if_neg Bool.false_ne_true] at hspec
        cases h
        omega
      · cases h

/-! ### The replacements of all chunks -/

/-- A chunk and its replacement. -/
abbrev Located := UpdateFileChunk × Replacement

/-- A chunk that is not looked for: it puts its lines at the end. -/
def IsInsertion (cr : Located) : Prop := cr.1.oldLines = []

/-- The old lines are looked for at the end of the file, whatever the cursor is. -/
def AtEnd (cr : Located) : Prop := cr.1.isEndOfFile = true ∧ 0 < cr.2.removed

/-- What every replacement is. -/
structure Placed (lines : List Line) (cr : Located) : Prop where
  insertion : IsInsertion cr → cr.2 = ⟨insertionIndex lines, 0, cr.1.newLines⟩
  stop_le : cr.2.stop ≤ lines.length
  removed_le : cr.2.removed ≤ cr.1.oldLines.length
  stop_of_atEnd : AtEnd cr → cr.2.stop = lines.length
  lines_eq : cr.2.lines = if cr.2.removed < cr.1.oldLines.length ∧ cr.1.newLines.getLast? = some [] then
    cr.1.newLines.dropLast else cr.1.newLines

theorem insertionIndex_le (lines : List Line) : insertionIndex lines ≤ lines.length := by
  rw [insertionIndex]
  split <;> omega

theorem placed_insertion (h : chunk.oldLines = []) :
    Placed lines (chunk, ⟨insertionIndex lines, 0, chunk.newLines⟩) where
  insertion _ := rfl
  stop_le := insertionIndex_le lines
  removed_le := Nat.zero_le _
  stop_of_atEnd hend := absurd hend.2 (lt_irrefl 0)
  lines_eq := by rw [if_neg (by simp [h])]

theorem Found.placed
    (h : Found lines chunk lineIndex r) (hne : chunk.oldLines ≠ []) : Placed lines (chunk, r) where
  insertion hnil := absurd hnil hne
  stop_le := h.stop_le
  removed_le := h.removed_le
  stop_of_atEnd hend := by
    have hstop := h.start_or_end
    rw [AtEnd] at hend
    rwa [if_pos hend] at hstop
  lines_eq := h.lines_eq

/-- What the loop over the chunks gives: a replacement for each chunk, and those that are looked for
from the cursor on follow the matches before them. -/
theorem locateFrom_spec {filePath : Text} {chunks : List UpdateFileChunk} {rs : List Replacement}
    (hcursor : lineIndex ≤ lines.length) (h : locateFrom lines filePath lineIndex chunks = .ok rs) :
    rs.length = chunks.length ∧ (∀ cr ∈ chunks.zip rs, Placed lines cr) ∧
      (∀ cr ∈ chunks.zip rs, ¬ IsInsertion cr → ¬ AtEnd cr → lineIndex ≤ cr.2.start) ∧
      (chunks.zip rs).Pairwise fun a b =>
        ¬ IsInsertion a → ¬ IsInsertion b → ¬ AtEnd b → a.2.stop ≤ b.2.start := by
  induction chunks generalizing lineIndex rs with
  | nil =>
    cases h
    simp
  | cons chunk chunks ih =>
    rw [locateFrom] at h
    split at h
    · cases h
    · rename_i cursor hcontext
      have hmove := seekContext_spec hcursor hcontext
      split at h
      · rename_i hnil
        obtain ⟨rest, hrest, rfl⟩ := exists_of_map_eq_ok h
        obtain ⟨hlen, hplaced, hfrom, hpairs⟩ := ih hmove.2 hrest
        refine ⟨by simp [hlen], ?_, ?_, ?_⟩
        · rintro cr (_ | ⟨_, hcr⟩)
          · exact placed_insertion hnil
          · exact hplaced cr hcr
        · rintro cr (_ | ⟨_, hcr⟩) hins hend
          · exact absurd hnil hins
          · exact hmove.1.trans (hfrom cr hcr hins hend)
        · exact pairwise_cons.mpr ⟨fun b _ hins => absurd hnil hins, hpairs⟩
      · rename_i hne
        split at h
        · cases h
        · rename_i r hfind
          have hfound := findChunk_spec hmove.2 hfind
          obtain ⟨rest, hrest, rfl⟩ := exists_of_map_eq_ok h
          obtain ⟨hlen, hplaced, hfrom, hpairs⟩ := ih hfound.stop_le hrest
          -- the cursor does not move back
          have hstop : cursor ≤ r.stop := by
            have hcase := hfound.start_or_end
            split at hcase
            · omega
            · exact hcase.trans r.start_le_stop
          refine ⟨by simp [hlen], ?_, ?_, ?_⟩
          · rintro cr (_ | ⟨_, hcr⟩)
            · exact hfound.placed hne
            · exact hplaced cr hcr
          · rintro cr (_ | ⟨_, hcr⟩) hins hend
            · have hcase := hfound.start_or_end
              rw [AtEnd] at hend
              rw [if_neg hend] at hcase
              exact hmove.1.trans hcase
            · exact (hmove.1.trans hstop).trans (hfrom cr hcr hins hend)
          · exact pairwise_cons.mpr ⟨fun b hb _ hins hend => hfrom b hb hins hend, hpairs⟩

/-! ### The loops of `splice` -/

theorem removeLines_eq (startIndex oldLen : ℕ) (result : List Line) :
    removeLines startIndex oldLen result =
      result.take startIndex ++ result.drop (startIndex + oldLen) := by
  induction oldLen generalizing result with
  | zero => simp [removeLines]
  | succ oldLen ih =>
    rw [removeLines]
    split
    · rename_i hlt
      rw [ih, eraseIdx_eq_take_drop_succ, take_append_of_le_length (by simp; omega),
        take_take, Nat.min_self, drop_append, drop_of_length_le (by simp),
        nil_append, length_take_of_le hlt.le, Nat.add_sub_cancel_left, drop_drop]
      congr 2
      omega
    · rename_i hle
      rw [ih, drop_of_length_le (by omega), drop_of_length_le (by omega)]

theorem insertLines_eq (startIndex : ℕ) (newLines : List Line) (i : ℕ) (result : List Line) :
    insertLines startIndex newLines i result =
      result.take (startIndex + i) ++ newLines ++ result.drop (startIndex + i) := by
  induction newLines generalizing i result with
  | nil => simp [insertLines]
  | cons line newLines ih =>
    rw [insertLines, ih]
    rcases Nat.le_total (startIndex + i) result.length with hle | hle
    · have hlen : (result.take (startIndex + i) ++ [line]).length = startIndex + (i + 1) := by
        rw [length_append, length_take_of_le hle]
        rfl
      rw [append_cons, ← hlen, take_left, drop_left]
      simp only [append_assoc, singleton_append]
    · rw [take_of_length_le hle, drop_of_length_le hle, take_of_length_le (by simp; omega),
        drop_of_length_le (by simp; omega)]
      simp

/-- The two inner loops splice the replacement. -/
theorem applyReplacement_eq (result : List Line) (r : Replacement) :
    applyReplacement result r = r.splice result := by
  rw [applyReplacement, insertLines_eq, removeLines_eq, Nat.add_zero, Edit.splice, Edit.stop]
  rcases Nat.le_total r.start result.length with hle | hle
  · rw [take_append_of_le_length (by simp [hle]), take_take, Nat.min_self, drop_append,
      drop_of_length_le (by simp), length_take_of_le hle, Nat.sub_self]
    rfl
  · rw [drop_of_length_le (by omega), append_nil, take_take, Nat.min_self,
      drop_of_length_le (by simp)]

theorem applyReplacements_eq (lines : List Line) (replacements : List Replacement) :
    applyReplacements lines replacements = replacements.foldr Edit.splice lines := by
  rw [applyReplacements, foldl_reverse]
  congr 1
  funext r result
  exact applyReplacement_eq result r

end Foxclaw.ApplyPatch
