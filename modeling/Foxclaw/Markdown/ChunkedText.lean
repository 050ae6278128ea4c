import Foxclaw.Markdown.FenceCut

/-!
# Chunks of a text with fences

A text is given in chunks: the body of each is a part of the text, and between two bodies white
space may be dropped. Where a block is cut, the chunk before closes it, and the chunk after opens
it again.

## The model

`Keeps` says that nothing is lost by the chunks, for a text that goes on after an opening line
that was inserted (or after nothing). `CleanChunks` lists the cuts one by one.

## What is proved

* `CleanChunks.keeps` — chunks made by plain cuts and by cuts of a block keep the text.
* `CleanChunks.reopened` — an inserted opening line is read as a line of the text.
-/

namespace Foxclaw.Markdown

open CodeUnits (newline isSpace)
open List Lines

/-- Only white space. -/
def Blank (text : CodeUnits) : Prop := ∀ c ∈ text, isSpace c = true

/-- A chunk with what was inserted in it and what was dropped after it. -/
structure Piece where
  /-- The opening line that was inserted. -/
  opening : CodeUnits
  body : CodeUnits
  /-- The closing line that was inserted. -/
  closing : CodeUnits
  /-- What was dropped of the text after it. -/
  dropped : CodeUnits

def Piece.chunk (p : Piece) : CodeUnits := p.opening ++ p.body ++ p.closing

/-- The part of the text that the piece stands for. -/
def Piece.source (p : Piece) : CodeUnits := p.body ++ p.dropped

/-- Which characters of that part are inside a block of the chunk; what was dropped is outside. -/
def Piece.marks (p : Piece) : List Bool :=
  ((insideMarks p.chunk).drop p.opening.length).take p.body.length ++
    List.replicate p.dropped.length false

/-- The pieces insert closing and opening lines where a block is cut, and only there; nothing is
dropped where a block is cut. -/
def Linked : CodeUnits → List Piece → Prop
  | opening, [] => opening = []
  | opening, p :: ps => p.opening = opening ∧
      ((p.closing = [] ∧ Linked [] ps) ∨
        ∃ f : Fence, p.closing = closing f (p.opening ++ p.body) ∧ p.dropped = [] ∧
          Linked (reopening f) ps)

/-- The chunks keep a text that goes on after an inserted opening line: but for white space that
is dropped outside of the blocks, their bodies are the text, their fences are closed if those of
the text are, and a character is inside a block of a chunk just when it is inside one of the text. -/
structure Keeps (opening text : CodeUnits) (chunks : List CodeUnits) (lead : CodeUnits)
    (pieces : List Piece) : Prop where
  /-- The chunks are those of the pieces. -/
  chunks_eq : chunks = pieces.map Piece.chunk
  text_eq : text = lead ++ pieces.flatMap Piece.source
  /-- What is dropped is white space. -/
  blank : Blank lead ∧ ∀ p ∈ pieces, Blank p.dropped
  /-- Nothing is dropped right after an inserted line. -/
  no_lead : lead = [] ∨ opening = []
  linked : Linked opening pieces
  balanced : Balanced (opening ++ text) → ∀ p ∈ pieces, Balanced p.chunk
  /-- The same characters are inside. -/
  marks : (insideMarks (opening ++ text)).drop opening.length =
    List.replicate lead.length false ++ pieces.flatMap Piece.marks

/-- The chunks keep the text. -/
def KeepsText (text : CodeUnits) (chunks : List CodeUnits) : Prop :=
  ∃ lead pieces, Keeps [] text chunks lead pieces

/-- Chunks of a text that goes on after an inserted opening line, cut by cut. -/
inductive CleanChunks : CodeUnits → CodeUnits → List CodeUnits → Prop where
  /-- Nothing is left. -/
  | done : CleanChunks [] [] []
  | last {opening body : CodeUnits} (hne : opening ++ body ≠ []) :
      CleanChunks opening body [opening ++ body]
  /-- White space is dropped. -/
  | skip {gap rest : CodeUnits} {chunks : List CodeUnits} (hne : gap ≠ []) (hblank : Blank gap)
      (hcut : PlainCut gap rest) (h : CleanChunks [] rest chunks) : CleanChunks [] (gap ++ rest) chunks
  /-- A chunk ends outside of the blocks. -/
  | plain {opening body rest : CodeUnits} {chunks : List CodeUnits} (hne : opening ++ body ≠ [])
      (hcut : PlainCut (opening ++ body) rest) (h : CleanChunks [] rest chunks) :
      CleanChunks opening (body ++ rest) ((opening ++ body) :: chunks)
  | split {opening body rest : CodeUnits} {chunks : List CodeUnits} {f : Fence}
      (hne : opening ++ body ≠ []) (hcut : SplitCut f (opening ++ body) rest)
      (h : CleanChunks (reopening f) rest chunks) :
      CleanChunks opening (body ++ rest) ((opening ++ body ++ closing f (opening ++ body)) :: chunks)

/-! ### What the chunks keep -/

theorem blank_nil : Blank [] := List.forall_mem_nil _

theorem reopening_ne_nil (f : Fence) : reopening f ≠ [] := by simp [reopening]

/-- The marks of the body of a chunk. -/
theorem marks_body {opening body rest closing : CodeUnits}
    (h : (insideMarks (opening ++ body ++ rest)).take (opening ++ body).length =
      (insideMarks (opening ++ body ++ closing)).take (opening ++ body).length) :
    (insideMarks (opening ++ (body ++ rest))).drop opening.length =
      ((insideMarks (opening ++ body ++ closing)).drop opening.length).take body.length ++
        (insideMarks (opening ++ body ++ rest)).drop (opening ++ body).length := by
  rw [← append_assoc]
  have hlen : (opening ++ body).length = opening.length + body.length := length_append
  rw [hlen] at h ⊢
  rw [← drop_drop, ← take_append_drop body.length
    ((insideMarks (opening ++ body ++ rest)).drop opening.length)]
  congr 1
  · rw [take_drop, take_drop, h]
  · rw [take_append_drop]

/-- Chunks made by clean cuts keep the text. -/
theorem CleanChunks.keeps {opening text : CodeUnits} {chunks : List CodeUnits}
    (h : CleanChunks opening text chunks) : ∃ lead pieces, Keeps opening text chunks lead pieces := by
  induction h with
  | done =>
    exact ⟨[], [], rfl, rfl, ⟨blank_nil, List.forall_mem_nil _⟩, .inl rfl, rfl,
      fun _ => List.forall_mem_nil _, rfl⟩
  | @last opening body hne =>
    refine ⟨[], [⟨opening, body, [], []⟩], ?_, ?_, ⟨blank_nil, ?_⟩, .inl rfl, ?_, ?_, ?_⟩
    · simp [Piece.chunk]
    · simp [Piece.source]
    · intro p hp
      obtain rfl := mem_singleton.mp hp
      exact blank_nil
    · exact ⟨rfl, .inl ⟨rfl, rfl⟩⟩
    · intro hbalanced p hp
      obtain rfl := mem_singleton.mp hp
      simpa [Piece.chunk] using hbalanced
    · have hall : ((insideMarks (opening ++ body)).drop opening.length).length ≤ body.length := by simp
      simp [Piece.marks, Piece.chunk, take_of_length_le hall]
  | @skip gap rest chunks hne hblank hcut h ih =>
    obtain ⟨lead, pieces, hk⟩ := ih
    refine ⟨gap ++ lead, pieces, hk.chunks_eq, ?_, ⟨?_, hk.blank.2⟩, .inr rfl, hk.linked, ?_, ?_⟩
    · rw [append_assoc, ← hk.text_eq]
    · intro c hc
      exact (mem_append.mp hc).elim (hblank c) (hk.blank.1 c)
    · intro hbalanced
      refine hk.balanced ?_
      rwa [Balanced, ← hcut.sameAfter.openAtEnd_eq]
    · have hmarks := hk.marks
      rw [nil_append, length_nil, drop_zero] at hmarks ⊢
      have hdrop := hcut.sameAfter.insideMarks
      rw [nil_append, length_nil, drop_zero, hmarks] at hdrop
      rw [← take_append_drop gap.length (insideMarks (gap ++ rest)), hcut.marks_take, hdrop,
        insideMarks_of_isBlank hblank, length_append, replicate_add, append_assoc]
  | @plain opening body rest chunks hne hcut h ih =>
    obtain ⟨lead, pieces, hk⟩ := ih
    refine ⟨[], ⟨opening, body, [], lead⟩ :: pieces, ?_, ?_, ⟨blank_nil, ?_⟩, .inl rfl,
      ⟨rfl, .inl ⟨rfl, hk.linked⟩⟩, ?_, ?_⟩
    · simp [Piece.chunk, hk.chunks_eq]
    · rw [nil_append, flatMap_cons, Piece.source, append_assoc, ← hk.text_eq]
    · exact forall_mem_cons.mpr ⟨hk.blank.1, hk.blank.2⟩
    · intro hbalanced
      refine forall_mem_cons.mpr ⟨?_, hk.balanced ?_⟩
      · simpa [Piece.chunk] using hcut.balanced
      · rwa [Balanced, ← hcut.sameAfter.openAtEnd_eq, append_assoc]
    · have hmarks := hk.marks
      rw [nil_append, length_nil, drop_zero] at hmarks
      have hdrop := hcut.sameAfter.insideMarks
      rw [nil_append, length_nil, drop_zero, hmarks] at hdrop
      have htake : (insideMarks (opening ++ body ++ rest)).take (opening ++ body).length =
          (insideMarks (opening ++ body ++ [])).take (opening ++ body).length := by
        rw [hcut.marks_take, append_nil, take_of_length_le (by rw [length_insideMarks])]
      rw [marks_body htake, hdrop]
      simp [Piece.marks, Piece.chunk]
  | @split opening body rest chunks f hne hcut h ih =>
    obtain ⟨lead, pieces, hk⟩ := ih
    obtain rfl := hk.no_lead.resolve_right (reopening_ne_nil f)
    refine ⟨[], ⟨opening, body, closing f (opening ++ body), []⟩ :: pieces, ?_, ?_,
      ⟨blank_nil, ?_⟩, .inl rfl, ⟨rfl, .inr ⟨f, rfl, rfl, hk.linked⟩⟩, ?_, ?_⟩
    · simp [Piece.chunk, hk.chunks_eq]
    · have htext := hk.text_eq
      rw [nil_append] at htext
      rw [nil_append, flatMap_cons, Piece.source, append_nil, ← htext]
    · exact forall_mem_cons.mpr ⟨blank_nil, hk.blank.2⟩
    · intro hbalanced
      refine forall_mem_cons.mpr ⟨hcut.balanced, hk.balanced ?_⟩
      rwa [Balanced, ← hcut.sameAfter.openAtEnd_eq, append_assoc]
    · have hdrop := hcut.sameAfter.insideMarks
      rw [hk.marks] at hdrop
      rw [marks_body (hcut.marks_take (closing f (opening ++ body))), hdrop]
      simp [Piece.marks, Piece.chunk]

/-- Nothing is emitted of nothing. -/
theorem CleanChunks.eq_nil {opening text : CodeUnits} {chunks : List CodeUnits}
    (h : CleanChunks opening text chunks) (ho : opening = []) (ht : text = []) : chunks = [] := by
  subst ho
  cases h with
  | done => rfl
  | last hne => exact absurd ht hne
  | skip hne => exact absurd (append_eq_nil_iff.mp ht).1 hne
  | plain hne => exact absurd (append_eq_nil_iff.mp ht).1 hne
  | split hne => exact absurd (append_eq_nil_iff.mp ht).1 hne

theorem CleanChunks.skip_blank {gap rest : CodeUnits} {chunks : List CodeUnits} (hblank : Blank gap)
    (hcut : HarmlessCut gap rest) (h : CleanChunks [] rest chunks) : CleanChunks [] (gap ++ rest) chunks := by
  by_cases hne : gap = []
  · rwa [hne, nil_append]
  · exact .skip hne hblank (plainCut_of_isBlank hblank hcut) h

/-! ### The inserted opening line -/

variable {f : Fence}

/-- A cut of a text that begins with an opening line is in that line, or after it. -/
theorem cut_of_reopening {x y rest : CodeUnits} (h : x ++ y = reopening f ++ rest) :
    (∃ body, x = reopening f ++ body ∧ rest = body ++ y) ∨
      ∃ v, f.openLine = x ++ v ∧ y = v ++ newline :: rest := by
  rw [reopening, append_assoc] at h
  rcases append_eq_append_iff.mp h with ⟨v, hline, hy⟩ | ⟨v, hx, hrest⟩
  · exact .inr ⟨v, hline, by simpa using hy⟩
  · cases v with
    | nil => exact .inr ⟨[], by simpa using hx.symm, by simpa using hrest.symm⟩
    | cons c v =>
      rw [singleton_append, cons_append, List.cons.injEq] at hrest
      refine .inl ⟨v, ?_, hrest.2⟩
      rw [hx, reopening, ← hrest.1, append_assoc]
      rfl

/-- What is around a cut in the opening line. -/
theorem Fence.Matched.cut (hf : f.Matched) {x v : CodeUnits} (h : f.openLine = x ++ v) (rest : CodeUnits) :
    openBefore x = none ∧ lastLine newline x = x ∧ firstLine newline (v ++ newline :: rest) = v := by
  have hline := hf.line
  rw [h, mem_append, not_or] at hline
  have hrest := restLines_of_not_mem hline.1
  obtain ⟨hfull, hlast⟩ := cut_append_of_restLines_nil [] hrest
  rw [nil_append] at hfull hlast
  refine ⟨?_, ?_, ?_⟩
  · rw [openBefore, hfull]
    rfl
  · rw [hlast, firstLine_eq_self hrest]
    rfl
  · rw [firstLine_append_of_nil (restLines_of_not_mem hline.2), firstLine_cons_nl, append_nil]

/-- No clean cut is in the opening line. -/
theorem Fence.Matched.not_plainCut (hf : f.Matched) {x v : CodeUnits} (hne : x ≠ [])
    (h : f.openLine = x ++ v) (rest : CodeUnits) : ¬ PlainCut x (v ++ newline :: rest) := by
  obtain ⟨hopen, hlast, hfirst⟩ := hf.cut h rest
  have hopens := hf.opens
  rw [PlainCut, openAtEnd, hopen, hlast, hfirst]
  rintro (⟨hx, -⟩ | ⟨hv, hend⟩ | ⟨-, -, -, hline⟩)
  · exact hne hx
  · rw [h, hv, append_nil, hend] at hopens
    cases hopens
  · rw [← h, Inert, hopens] at hline
    cases hline

theorem Fence.Matched.not_blank (hf : f.Matched) : ¬ Blank f.openLine := by
  intro hblank
  have := hf.opens
  rw [inert_of_isBlank hblank none] at this
  cases this

/-- The inserted opening line is read as a line of the text. -/
theorem CleanChunks.reopened (hf : f.Matched) {rest : CodeUnits} {chunks : List CodeUnits}
    (h : CleanChunks [] (reopening f ++ rest) chunks) : CleanChunks (reopening f) rest chunks := by
  generalize ho : ([] : CodeUnits) = opening at h
  generalize ht : reopening f ++ rest = text at h
  cases h with
  | done => exact absurd (append_eq_nil_iff.mp ht).1 (reopening_ne_nil f)
  | last hne =>
    subst ho ht
    exact .last hne
  | skip hne hblank hcut h =>
    rcases cut_of_reopening ht.symm with ⟨body, rfl, rfl⟩ | ⟨v, hline, rfl⟩
    · refine absurd (fun c hc => hblank c ?_) hf.not_blank
      simp [reopening, hc]
    · exact absurd hcut (hf.not_plainCut hne hline rest)
  | plain hne hcut h =>
    subst ho
    rw [nil_append] at hne hcut
    rcases cut_of_reopening ht.symm with ⟨body, rfl, rfl⟩ | ⟨v, hline, rfl⟩
    · exact .plain hne hcut h
    · exact absurd hcut (hf.not_plainCut hne hline rest)
  | split hne hcut h =>
    subst ho
    rw [nil_append] at hne hcut
    rcases cut_of_reopening ht.symm with ⟨body, rfl, rfl⟩ | ⟨v, hline, rfl⟩
    · exact .split hne hcut h
    · have := hcut.1
      rw [(hf.cut hline rest).1] at this
      cases this

end Foxclaw.Markdown
