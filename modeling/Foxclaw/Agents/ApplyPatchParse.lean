import Foxclaw.Agents.ApplyPatchUpdate

/-!
# Reading a patch

`parsePatchText` (`agents/apply-patch.ts`) cuts a patch into lines, checks its first and last line,
also inside of a heredoc, and reads hunk after hunk (`parseOneHunk`): the file to add with its
lines, the file to delete, or the file to update with its chunks (`parseUpdateFileChunk`). Blank
lines between chunks are skipped. The loops that consume lines run on fuel, one unit for each line;
each turn takes a line or more, so that it is never used up.

What a patch says is written down as a grammar of its lines (`PatchLines`), without counters and
cursors: each line of the body belongs to one hunk, as its header, as a blank line between chunks,
or as a line that the hunk's contents or chunks are made of.

## What is proved

* `chunkLines_of_parse`, `hunkLines_of_parse` — what one chunk and one hunk take.
* `patchLines_of_parse` — the hunks are what the lines between the markers say.
-/

namespace Foxclaw.ApplyPatch

open List Option

def beginPatchMarker : Line := "*** Begin Patch".toList
def endPatchMarker : Line := "*** End Patch".toList
def addFileMarker : Line := "*** Add File: ".toList
def deleteFileMarker : Line := "*** Delete File: ".toList
def updateFileMarker : Line := "*** Update File: ".toList
def moveToMarker : Line := "*** Move to: ".toList
def eofMarker : Line := "*** End of File".toList
def changeContextMarker : Line := "@@ ".toList
def emptyChangeContextMarker : Line := "@@".toList

inductive Hunk where
  | add (path : Text) (contents : Text)
  | delete (path : Text)
  | update (path : Text) (movePath : Option Text) (chunks : List UpdateFileChunk)
deriving DecidableEq

/-- `startsWith` and `slice`: what follows the marker. -/
def after? (marker line : Line) : Option Line :=
  if marker <+: line then some (line.drop marker.length) else none

/-- A number in an error. -/
def natText (n : ℕ) : Text := (toString n).toList

def invalidHunk (lineNumber : ℕ) (what : Text) : Text :=
  "Invalid patch hunk at line ".toList ++ natText lineNumber ++ ": ".toList ++ what

/-! ### `parseUpdateFileChunk` -/

/-- The loop over the lines of a chunk. -/
def chunkLoop (lineNumber : ℕ) : List Line → ℕ → UpdateFileChunk → Except Text (UpdateFileChunk × ℕ)
  | [], parsedLines, chunk => .ok (chunk, parsedLines)
  | line :: lines, parsedLines, chunk =>
      if line = eofMarker then
        if parsedLines = 0 then
          .error (invalidHunk (lineNumber + 1) "Update hunk does not contain any lines".toList)
        else .ok ({ chunk with isEndOfFile := true }, parsedLines + 1)
      else match line with
        | [] => chunkLoop lineNumber lines (parsedLines + 1)
            { chunk with oldLines := chunk.oldLines ++ [[]], newLines := chunk.newLines ++ [[]] }
        | ' ' :: content => chunkLoop lineNumber lines (parsedLines + 1)
            { chunk with oldLines := chunk.oldLines ++ [content], newLines := chunk.newLines ++ [content] }
        | '+' :: content => chunkLoop lineNumber lines (parsedLines + 1)
            { chunk with newLines := chunk.newLines ++ [content] }
        | '-' :: content => chunkLoop lineNumber lines (parsedLines + 1)
            { chunk with oldLines := chunk.oldLines ++ [content] }
        | _ =>
            if parsedLines = 0 then
              .error (invalidHunk (lineNumber + 1) ("Unexpected line found in update hunk: '".toList ++ line ++
                "'. Every line should start with ' ' (context line), '+' (added line), or '-' (removed line)".toList))
            else .ok (chunk, parsedLines)

/-- The first line of a chunk: its context, and how many lines that takes. -/
def chunkHeader (line : Line) (lineNumber : ℕ) (allowMissingContext : Bool) : Except Text (Option Line × ℕ) :=
  if line = emptyChangeContextMarker then .ok (none, 1)
  else match after? changeContextMarker line with
    | some context => .ok (some context, 1)
    | none =>
        if allowMissingContext then .ok (none, 0)
        else .error (invalidHunk lineNumber
          ("Expected update hunk to start with a @@ context marker, got: '".toList ++ line ++ "'".toList))

def parseUpdateFileChunk (lines : List Line) (lineNumber : ℕ) (allowMissingContext : Bool) :
    Except Text (UpdateFileChunk × ℕ) :=
  match lines with
  | [] => .error (invalidHunk lineNumber "Update hunk does not contain any lines".toList)
  | line :: _ =>
      match chunkHeader line lineNumber allowMissingContext with
      | .error err => .error err
      | .ok (changeContext, startIndex) =>
          if lines.length ≤ startIndex then
            .error (invalidHunk (lineNumber + 1) "Update hunk does not contain any lines".toList)
          else match chunkLoop lineNumber (lines.drop startIndex) 0 ⟨changeContext, [], [], false⟩ with
            | .error err => .error err
            | .ok (chunk, parsedLines) => .ok (chunk, parsedLines + startIndex)

/-! ### `parseOneHunk` -/

/-- The loop over the chunks of an update hunk. -/
def chunksLoop (lineNumber : ℕ) : ℕ → List Line → ℕ → List UpdateFileChunk →
    Except Text (List UpdateFileChunk × ℕ)
  | 0, _, consumed, chunks => .ok (chunks, consumed)
  | _ + 1, [], consumed, chunks => .ok (chunks, consumed)
  | fuel + 1, line :: remaining, consumed, chunks =>
      if Text.trim line = [] then chunksLoop lineNumber fuel remaining (consumed + 1) chunks
      else if "***".toList <+: line then .ok (chunks, consumed)
      else match parseUpdateFileChunk (line :: remaining) (lineNumber + consumed) chunks.isEmpty with
        | .error err => .error err
        | .ok (chunk, chunkLines) =>
            chunksLoop lineNumber fuel ((line :: remaining).drop chunkLines) (consumed + chunkLines)
              (chunks ++ [chunk])

/-- The target of `*** Move to:`, if the next line is one. -/
def movePath? : List Line → Option Text
  | [] => none
  | line :: _ => after? moveToMarker (Text.trim line)

def parseOneHunk (lines : List Line) (lineNumber : ℕ) : Except Text (Hunk × ℕ) :=
  match lines with
  | [] => .error (invalidHunk lineNumber "empty hunk".toList)
  | line :: rest =>
      let firstLine := Text.trim line
      match after? addFileMarker firstLine with
      | some targetPath =>
          let added := rest.takeWhile fun addLine => addLine.head? == some '+'
          .ok (.add targetPath (added.flatMap fun addLine => addLine.drop 1 ++ ['\n']), 1 + added.length)
      | none =>
      match after? deleteFileMarker firstLine with
      | some targetPath => .ok (.delete targetPath, 1)
      | none =>
      match after? updateFileMarker firstLine with
      | some targetPath =>
          let movePath := movePath? rest
          let skipped := if movePath.isSome then 1 else 0
          match chunksLoop lineNumber rest.length (rest.drop skipped) (1 + skipped) [] with
          | .error err => .error err
          | .ok (chunks, consumed) =>
              if chunks.isEmpty then
                .error (invalidHunk lineNumber
                  ("Update file hunk for path '".toList ++ targetPath ++ "' is empty".toList))
              else .ok (.update targetPath movePath chunks, consumed)
      | none =>
          .error (invalidHunk lineNumber ("'".toList ++ line ++
            "' is not a valid hunk header. Valid hunk headers: '*** Add File: \x7bpath\x7d', ".toList ++
            "'*** Delete File: \x7bpath\x7d', '*** Update File: \x7bpath\x7d'".toList))

/-! ### `parsePatchText` -/

/-- A line without the carriage return at its end. -/
def dropCarriageReturn (line : Line) : Line := if line.getLast? = some '\r' then line.dropLast else line

/-- `split(/\r?\n/)`. -/
def patchTextLines (text : Text) : List Line :=
  (Lines.fullLines '\n' text).map dropCarriageReturn ++ [Lines.lastLine '\n' text]

def checkPatchBoundariesStrict (lines : List Line) : Option Text :=
  let firstLine := lines.head?.map Text.trim
  let lastLine := lines.getLast?.map Text.trim
  if firstLine = some beginPatchMarker ∧ lastLine = some endPatchMarker then none
  else if firstLine ≠ some beginPatchMarker then
    some "The first line of the patch must be '*** Begin Patch'".toList
  else some "The last line of the patch must be '*** End Patch'".toList

/-- The first lines of a heredoc. -/
def heredocOpenings : List Line := ["<<EOF".toList, "<<'EOF'".toList, "<<\"EOF\"".toList]

def checkPatchBoundariesLenient (lines : List Line) : Except Text (List Line) :=
  match checkPatchBoundariesStrict lines with
  | none => .ok lines
  | some strictError =>
      if lines.length < 4 then .error strictError
      else if lines.headD [] ∈ heredocOpenings ∧ "EOF".toList <:+ lines.getLastD [] then
        let inner := (lines.drop 1).dropLast
        match checkPatchBoundariesStrict inner with
        | none => .ok inner
        | some innerError => .error innerError
      else .error strictError

/-- The loop over the hunks. -/
def parseHunks : ℕ → List Line → ℕ → Except Text (List Hunk)
  | 0, _, _ => .ok []
  | _ + 1, [], _ => .ok []
  | fuel + 1, line :: remaining, lineNumber =>
      match parseOneHunk (line :: remaining) lineNumber with
      | .error err => .error err
      | .ok (hunk, consumed) =>
          (parseHunks fuel ((line :: remaining).drop consumed) (lineNumber + consumed)).map (hunk :: ·)

/-- The result of `parsePatchText`. -/
structure ParsedPatch where
  hunks : List Hunk
  patch : Text
deriving DecidableEq

def parsePatchText (input : Text) : Except Text ParsedPatch :=
  let trimmed := Text.trim input
  if trimmed = [] then .error "Invalid patch: input is empty.".toList
  else match checkPatchBoundariesLenient (patchTextLines trimmed) with
    | .error err => .error err
    | .ok validated =>
        let remaining := (validated.drop 1).dropLast
        (parseHunks remaining.length remaining 2).map fun hunks => ⟨hunks, ['\n'].intercalate validated⟩

/-! ### The grammar of a patch -/

/-- A line of a chunk, by what it says. -/
inductive ChunkLine where
  | blank
  | context (content : Line)
  | added (content : Line)
  | removed (content : Line)

namespace ChunkLine

/-- The line as it is written. -/
def text : ChunkLine → Line
  | blank => []
  | context content => ' ' :: content
  | added content => '+' :: content
  | removed content => '-' :: content

/-- The line of the old file. -/
def old? : ChunkLine → Option Line
  | blank => some []
  | context content => some content
  | added _ => none
  | removed content => some content

/-- The line of the new file. -/
def new? : ChunkLine → Option Line
  | blank => some []
  | context content => some content
  | added content => some content
  | removed _ => none

end ChunkLine

/-- The first line of a chunk. -/
inductive ContextLine where
  | missing
  | empty
  | context (content : Line)

namespace ContextLine

/-- The line as it is written, if there is one. -/
def text : ContextLine → List Line
  | missing => []
  | empty => [emptyChangeContextMarker]
  | context content => [changeContextMarker ++ content]

def changeContext : ContextLine → Option Line
  | missing => none
  | empty => none
  | context content => some content

end ContextLine

/-- The last line of a chunk for the end of the file. -/
def eofLine (isEndOfFile : Bool) : List Line := if isEndOfFile then [eofMarker] else []

/-- A chunk: its context, its lines, and whether it is for the end of the file. -/
inductive ChunkLines : List Line → UpdateFileChunk → Prop where
  | mk (header : ContextLine) (body : List ChunkLine) (isEndOfFile : Bool) :
      ChunkLines (header.text ++ (body.map ChunkLine.text ++ eofLine isEndOfFile))
        ⟨header.changeContext, body.filterMap ChunkLine.old?, body.filterMap ChunkLine.new?, isEndOfFile⟩

/-- Chunks, with blank lines around them. -/
inductive ChunksLines : List Line → List UpdateFileChunk → Prop where
  | nil : ChunksLines [] []
  | blank {line : Line} {lines : List Line} {chunks : List UpdateFileChunk} :
      Text.trim line = [] → ChunksLines lines chunks → ChunksLines (line :: lines) chunks
  | chunk {lines lines' : List Line} {chunk : UpdateFileChunk} {chunks : List UpdateFileChunk} :
      ChunkLines lines chunk → ChunksLines lines' chunks → ChunksLines (lines ++ lines') (chunk :: chunks)

/-- A hunk: its header, and what belongs to it. -/
inductive HunkLines : List Line → Hunk → Prop where
  | add {header : Line} {path : Text} (contents : List Line) :
      Text.trim header = addFileMarker ++ path →
        HunkLines (header :: contents.map ('+' :: ·)) (.add path (contents.flatMap (· ++ ['\n'])))
  | delete {header : Line} {path : Text} :
      Text.trim header = deleteFileMarker ++ path → HunkLines [header] (.delete path)
  | update {header : Line} {path : Text} {lines : List Line} {chunks : List UpdateFileChunk} :
      Text.trim header = updateFileMarker ++ path → ChunksLines lines chunks →
        HunkLines (header :: lines) (.update path none chunks)
  | move {header moveLine : Line} {path movePath : Text} {lines : List Line}
      {chunks : List UpdateFileChunk} :
      Text.trim header = updateFileMarker ++ path → Text.trim moveLine = moveToMarker ++ movePath →
        ChunksLines lines chunks → HunkLines (header :: moveLine :: lines) (.update path (some movePath) chunks)

/-- The body of a patch: hunk after hunk. -/
inductive PatchLines : List Line → List Hunk → Prop where
  | nil : PatchLines [] []
  | hunk {lines lines' : List Line} {hunk : Hunk} {hunks : List Hunk} :
      HunkLines lines hunk → PatchLines lines' hunks → PatchLines (lines ++ lines') (hunk :: hunks)

/-! ### What the loops take -/

theorem after?_eq_some {marker line rest : Line} (h : after? marker line = some rest) :
    line = marker ++ rest := by
  rw [after?] at h
  split at h
  · rename_i hpre
    obtain ⟨tail, rfl⟩ := hpre
    rw [drop_left, some.injEq] at h
    rw [h]
  · cases h

variable {lines : List Line} {lineNumber : ℕ}

theorem chunkLoop_spec {n n' : ℕ} {chunk chunk' : UpdateFileChunk}
    (h : chunkLoop lineNumber lines n chunk = .ok (chunk', n')) (hopen : chunk.isEndOfFile = false) :
    ∃ (body : List ChunkLine) (isEndOfFile : Bool) (rest : List Line),
      lines = body.map ChunkLine.text ++ eofLine isEndOfFile ++ rest ∧
        n' = n + (body.map ChunkLine.text ++ eofLine isEndOfFile).length ∧
        chunk' = ⟨chunk.changeContext, chunk.oldLines ++ body.filterMap ChunkLine.old?,
          chunk.newLines ++ body.filterMap ChunkLine.new?, isEndOfFile⟩ := by
  induction lines generalizing n chunk with
  | nil =>
    cases h
    refine ⟨[], false, [], rfl, rfl, ?_⟩
    rw [← hopen]
    simp
  | cons line lines ih =>
    -- a line of the chunk goes in front of what the rest of the loop takes
    have hstep : ∀ l : ChunkLine, line = l.text →
        chunkLoop lineNumber lines (n + 1) ⟨chunk.changeContext, chunk.oldLines ++ l.old?.toList,
          chunk.newLines ++ l.new?.toList, chunk.isEndOfFile⟩ = .ok (chunk', n') →
        ∃ (body : List ChunkLine) (isEndOfFile : Bool) (rest : List Line),
          line :: lines = body.map ChunkLine.text ++ eofLine isEndOfFile ++ rest ∧
            n' = n + (body.map ChunkLine.text ++ eofLine isEndOfFile).length ∧
            chunk' = ⟨chunk.changeContext, chunk.oldLines ++ body.filterMap ChunkLine.old?,
              chunk.newLines ++ body.filterMap ChunkLine.new?, isEndOfFile⟩ := by
      intro l hline hloop
      obtain ⟨body, isEndOfFile, rest, hlines, hn, hchunk⟩ := ih hloop hopen
      refine ⟨l :: body, isEndOfFile, rest, by rw [hline, hlines]; rfl, ?_, ?_⟩
      · rw [hn, map_cons, cons_append, length_cons]
        omega
      · rw [hchunk]
        cases l <;> simp [ChunkLine.old?, ChunkLine.new?, filterMap_cons]
    rw [chunkLoop.eq_def] at h
    dsimp only at h
    split at h
    · rename_i heof
      split at h
      · cases h
      · cases h
        exact ⟨[], true, lines, by rw [heof]; rfl, rfl, by simp⟩
    · split at h
      · exact hstep .blank rfl h
      · exact hstep (.context _) rfl h
      · exact hstep (.added _) rfl (by simpa [ChunkLine.old?, ChunkLine.new?] using h)
      · exact hstep (.removed _) rfl (by simpa [ChunkLine.old?, ChunkLine.new?] using h)
      · split at h
        · cases h
        · cases h
          refine ⟨[], false, _, rfl, rfl, ?_⟩
          rw [← hopen]
          simp

/-- The loop does not end before it has taken a line. -/
theorem chunkLoop_pos {n : ℕ} {chunk chunk' : UpdateFileChunk}
    (hne : lines ≠ []) (hopen : chunk.isEndOfFile = false)
    (h : chunkLoop lineNumber lines 0 chunk = .ok (chunk', n)) : 0 < n := by
  cases lines with
  | nil => exact absurd rfl hne
  | cons line lines =>
    have hgrow : ∀ {chunk₁ : UpdateFileChunk}, chunkLoop lineNumber lines (0 + 1) chunk₁ = .ok (chunk', n) →
        chunk₁.isEndOfFile = false → 0 < n := by
      intro chunk₁ hloop hfalse
      obtain ⟨body, isEndOfFile, rest, _, hn, _⟩ := chunkLoop_spec hloop hfalse
      omega
    rw [chunkLoop.eq_def] at h
    dsimp only at h
    split at h
    · rw [if_pos rfl] at h
      cases h
    · split at h
      · exact hgrow h hopen
      · exact hgrow h hopen
      · exact hgrow h hopen
      · exact hgrow h hopen
      · rw [if_pos rfl] at h
        cases h

/-- What one chunk takes. -/
theorem chunkLines_of_parse {allowMissingContext : Bool} {chunk : UpdateFileChunk} {consumed : ℕ}
    (h : parseUpdateFileChunk lines lineNumber allowMissingContext = .ok (chunk, consumed)) :
    ChunkLines (lines.take consumed) chunk ∧ 0 < consumed ∧ consumed ≤ lines.length := by
  cases lines with
  | nil => cases h
  | cons line lines =>
    rw [parseUpdateFileChunk] at h
    split at h
    · cases h
    · rename_i changeContext startIndex hheader
      split at h
      · cases h
      · rename_i hlt
        split at h
        · cases h
        · rename_i chunk₁ parsedLines hloop
          cases h
          obtain ⟨body, isEndOfFile, rest, hlines, hn, hchunk⟩ := chunkLoop_spec hloop rfl
          have hpos := chunkLoop_pos (by simpa using hlt) rfl hloop
          -- the header is what the loop does not see
          obtain ⟨header, hcontext, htake⟩ : ∃ header : ContextLine,
              header.changeContext = changeContext ∧ (line :: lines).take startIndex = header.text := by
            rw [chunkHeader] at hheader
            split at hheader
            · rename_i hline
              cases hheader
              exact ⟨.empty, rfl, by rw [hline]; rfl⟩
            · split at hheader
              · rename_i context hafter
                cases hheader
                exact ⟨.context context, rfl, by rw [after?_eq_some hafter]; rfl⟩
              · split at hheader
                · cases hheader
                  exact ⟨.missing, rfl, rfl⟩
                · cases hheader
          have hstart : startIndex ≤ (line :: lines).length := by omega
          have hcut : (line :: lines).take (parsedLines + startIndex) =
              header.text ++ (body.map ChunkLine.text ++ eofLine isEndOfFile) := by
            rw [Nat.add_comm, take_add, htake, hlines, hn, Nat.zero_add, take_left]
          have hlen := congrArg List.length hlines
          rw [length_drop, length_append] at hlen
          refine ⟨?_, by omega, by omega⟩
          rw [hcut, hchunk, ← hcontext]
          exact .mk header body isEndOfFile

/-- What the chunks of an update hunk take. -/
theorem chunksLoop_spec {lineNumber fuel : ℕ} {consumed consumed' : ℕ}
    {chunks chunks' : List UpdateFileChunk}
    (h : chunksLoop lineNumber fuel lines consumed chunks = .ok (chunks', consumed')) :
    ∃ (k : ℕ) (new : List UpdateFileChunk), consumed' = consumed + k ∧ k ≤ lines.length ∧
      chunks' = chunks ++ new ∧ ChunksLines (lines.take k) new := by
  induction fuel generalizing lines consumed chunks with
  | zero =>
    cases h
    exact ⟨0, [], rfl, Nat.zero_le _, (append_nil _).symm, .nil⟩
  | succ fuel ih =>
    cases lines with
    | nil =>
      cases h
      exact ⟨0, [], rfl, Nat.zero_le _, (append_nil _).symm, .nil⟩
    | cons line remaining =>
      rw [chunksLoop] at h
      split at h
      · rename_i hblank
        obtain ⟨k, new, hconsumed, hk, hchunks, hlines⟩ := ih h
        refine ⟨k + 1, new, by omega, ?_, hchunks, ?_⟩
        · rw [length_cons]
          omega
        · rw [take_succ_cons]
          exact .blank hblank hlines
      · split at h
        · cases h
          exact ⟨0, [], rfl, Nat.zero_le _, (append_nil _).symm, .nil⟩
        · split at h
          · cases h
          · rename_i chunk chunkLines hparse
            obtain ⟨hchunk, -, hle⟩ := chunkLines_of_parse hparse
            obtain ⟨k, new, hconsumed, hk, hchunks, hlines⟩ := ih h
            rw [length_drop] at hk
            refine ⟨chunkLines + k, chunk :: new, by omega, by omega, ?_, ?_⟩
            · rw [hchunks, append_assoc, singleton_append]
            · rw [take_add]
              exact .chunk hchunk hlines

theorem movePath?_eq_some {movePath : Text} (h : movePath? lines = some movePath) :
    ∃ line rest, lines = line :: rest ∧ Text.trim line = moveToMarker ++ movePath := by
  cases lines with
  | nil => cases h
  | cons line rest => exact ⟨line, rest, rfl, after?_eq_some h⟩

/-- The lines to add are those that start with `+`. -/
theorem takeWhile_added (lines : List Line) :
    ∃ contents : List Line,
      (lines.takeWhile fun line => line.head? == some '+') = contents.map ('+' :: ·) := by
  induction lines with
  | nil => exact ⟨[], rfl⟩
  | cons line lines ih =>
    obtain ⟨contents, hcontents⟩ := ih
    by_cases hplus : line.head? = some '+'
    · rw [takeWhile_cons_of_pos (by simpa using hplus), hcontents]
      obtain ⟨content, rfl⟩ := head?_eq_some_iff.mp hplus
      exact ⟨content :: contents, rfl⟩
    · rw [takeWhile_cons_of_neg (by simpa using hplus)]
      exact ⟨[], rfl⟩

/-- What one hunk takes. -/
theorem hunkLines_of_parse {hunk : Hunk} {consumed : ℕ}
    (h : parseOneHunk lines lineNumber = .ok (hunk, consumed)) :
    HunkLines (lines.take consumed) hunk ∧ 0 < consumed ∧ consumed ≤ lines.length := by
  cases lines with
  | nil => cases h
  | cons line rest =>
    rw [parseOneHunk] at h
    dsimp only at h
    split at h
    · rename_i targetPath hadd
      cases h
      obtain ⟨contents, hcontents⟩ := takeWhile_added rest
      have hcut : rest.take (contents.map ('+' :: ·)).length = contents.map ('+' :: ·) := by
        rw [← hcontents]
        exact (prefix_iff_eq_take.mp ( takeWhile_prefix _)).symm
      have hlen := ( takeWhile_prefix (l := rest) fun line => line.head? == some '+').length_le
      rw [hcontents] at hlen
      refine ⟨?_, by omega, ?_⟩
      · rw [hcontents, Nat.add_comm, take_succ_cons, hcut, flatMap_map]
        exact .add contents (after?_eq_some hadd)
      · rw [hcontents, length_cons]
        omega
    · split at h
      · rename_i targetPath hdelete
        cases h
        exact ⟨.delete (after?_eq_some hdelete), Nat.one_pos, by simp⟩
      · split at h
        · rename_i targetPath hupdate
          split at h
          · cases h
          · rename_i chunks consumed₁ hloop
            split at h
            · cases h
            · cases h
              obtain ⟨k, new, rfl, hk, hchunks, hlines⟩ := chunksLoop_spec hloop
              rw [nil_append] at hchunks
              subst hchunks
              have hheader := after?_eq_some hupdate
              cases hmove : movePath? rest with
              | none =>
                rw [hmove] at hk hlines
                refine ⟨?_, ?_, ?_⟩
                · rw [show 1 + (if (none : Option Text).isSome = true then 1 else 0) + k = k + 1 by
                    simp; omega, take_succ_cons]
                  exact .update hheader hlines
                · omega
                · simp only [isSome_none, Bool.false_eq_true, ↓reduceIte, drop_zero, length_cons] at hk ⊢
                  omega
              | some movePath =>
                obtain ⟨moveLine, lines, rfl, hmoveLine⟩ := movePath?_eq_some hmove
                rw [hmove] at hk hlines
                refine ⟨?_, ?_, ?_⟩
                · rw [show 1 + (if (some movePath).isSome = true then 1 else 0) + k = k + 1 + 1 by
                    simp; omega, take_succ_cons, take_succ_cons]
                  exact .move hheader hmoveLine hlines
                · omega
                · simp only [isSome_some, ↓reduceIte, drop_succ_cons, drop_zero, length_cons] at hk ⊢
                  omega
        · cases h

/-- The hunks are what the lines say. -/
theorem patchLines_of_parse {fuel : ℕ} {hunks : List Hunk} (hle : lines.length ≤ fuel)
    (h : parseHunks fuel lines lineNumber = .ok hunks) : PatchLines lines hunks := by
  induction fuel generalizing lines lineNumber hunks with
  | zero =>
    have hnil := eq_nil_of_length_eq_zero (Nat.le_zero.mp hle)
    subst hnil
    cases h
    exact .nil
  | succ fuel ih =>
    cases lines with
    | nil =>
      cases h
      exact .nil
    | cons line remaining =>
      rw [parseHunks] at h
      split at h
      · cases h
      · rename_i hunk consumed hparse
        obtain ⟨hhunk, hpos, hconsumed⟩ := hunkLines_of_parse hparse
        obtain ⟨rest, hrest, rfl⟩ := exists_of_map_eq_ok h
        have hlen : ((line :: remaining).drop consumed).length ≤ fuel := by
          rw [length_drop]
          omega
        have hall := PatchLines.hunk hhunk (ih hlen hrest)
        rwa [take_append_drop] at hall

/-! ### The whole patch -/

/-- The lines between the markers of a patch, which may stand in a heredoc. -/
def PatchBody (input : Text) (body : List Line) : Prop :=
  ∃ first last, Text.trim first = beginPatchMarker ∧ Text.trim last = endPatchMarker ∧
    (patchTextLines (Text.trim input) = first :: (body ++ [last]) ∨
      ∃ opening closing, opening ∈ heredocOpenings ∧ "EOF".toList <:+ closing ∧
        patchTextLines (Text.trim input) = opening :: (first :: (body ++ [last]) ++ [closing]))

/-- The first line and the last one are two. -/
theorem eq_of_checkPatchBoundariesStrict (h : checkPatchBoundariesStrict lines = none) :
    ∃ first last, Text.trim first = beginPatchMarker ∧ Text.trim last = endPatchMarker ∧
      lines = first :: ((lines.drop 1).dropLast ++ [last]) := by
  rw [checkPatchBoundariesStrict] at h
  split at h
  · rename_i hmarkers
    obtain ⟨first, hhead, hfirst⟩ := map_eq_some_iff.mp hmarkers.1
    obtain ⟨last, hlast, hend⟩ := map_eq_some_iff.mp hmarkers.2
    obtain ⟨rest, rfl⟩ := head?_eq_some_iff.mp hhead
    refine ⟨first, last, hfirst, hend, ?_⟩
    have hne : rest ≠ [] := by
      rintro rfl
      rw [getLast?_singleton, some.injEq] at hlast
      rw [← hlast, hfirst] at hend
      revert hend
      decide
    rw [getLast?_cons, getLast?_eq_some_getLast hne, getD_some, some.injEq] at hlast
    rw [drop_succ_cons, drop_zero, ← hlast, dropLast_append_getLast]
  · split at h
    · cases h
    · cases h

/-- The hunks of an accepted patch are what the lines between its markers say. -/
theorem patchLines_of_parsePatchText {input : Text} {parsed : ParsedPatch}
    (h : parsePatchText input = .ok parsed) :
    ∃ body, PatchBody input body ∧ PatchLines body parsed.hunks := by
  rw [parsePatchText] at h
  dsimp only at h
  split at h
  · cases h
  · split at h
    · cases h
    · rename_i validated hvalidated
      obtain ⟨hunks, hhunks, rfl⟩ := exists_of_map_eq_ok h
      refine ⟨(validated.drop 1).dropLast, ?_, patchLines_of_parse le_rfl hhunks⟩
      rw [checkPatchBoundariesLenient] at hvalidated
      split at hvalidated
      · rename_i hstrict
        cases hvalidated
        obtain ⟨first, last, hfirst, hlast, hlines⟩ := eq_of_checkPatchBoundariesStrict hstrict
        exact ⟨first, last, hfirst, hlast, .inl hlines⟩
      · split at hvalidated
        · cases hvalidated
        · rename_i hlen
          split at hvalidated
          · rename_i hheredoc
            dsimp only at hvalidated
            split at hvalidated
            · rename_i hstrict
              cases hvalidated
              obtain ⟨first, last, hfirst, hlast, hlines⟩ := eq_of_checkPatchBoundariesStrict hstrict
              refine ⟨first, last, hfirst, hlast, .inr ⟨_, _, hheredoc.1, hheredoc.2, ?_⟩⟩
              rw [← hlines]
              cases hall : patchTextLines (Text.trim input) with
              | nil => simp [hall] at hlen
              | cons opening rest =>
                have hne : rest ≠ [] := by
                  rintro rfl
                  simp [hall] at hlen
                rw [headD_cons, drop_succ_cons, drop_zero, getLastD_cons,
                  getLastD_eq_getLast?, getLast?_eq_some_getLast hne, getD_some,
                  dropLast_append_getLast]
            · cases hvalidated
          · cases hvalidated

end Foxclaw.ApplyPatch
