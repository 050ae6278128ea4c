import Foxclaw.Markdown.Ir

/-!
# From tokens to a text with styles and links

This module models `markdownToIR` of `markdown/ir.ts` on the tokens of a markdown text. What the parser
makes of the text is not part of the model: every list of tokens is allowed, also one in which what is
opened is not closed.

## The model

A list that only grows at its end and is only read from there (the styles that are open, the stacks of
lists and links) has its last element first. The options for the parser are left out.

## What is proved

* `RenderState.Fits` — the styles of a state are in their texts; `fits_renderTokens` — every token keeps
  this, in a table too.
* `markdownToIR_within` — a span of the result is not empty, and is in its text.
-/

namespace Foxclaw.Markdown

open List Option CodeUnits

/-- The types of tokens that `renderTokens` tells apart. -/
inductive TokenType where
  | inline | text | emOpen | emClose | strongOpen | strongClose | sOpen | sClose | codeInline
  | spoilerOpen | spoilerClose | linkOpen | linkClose | image | softbreak | hardbreak
  | paragraphClose | headingOpen | headingClose | blockquoteOpen | blockquoteClose
  | bulletListOpen | bulletListClose | orderedListOpen | orderedListClose | listItemOpen | listItemClose
  | codeBlock | fence | htmlBlock | htmlInline
  | tableOpen | tableClose | theadOpen | theadClose | tbodyOpen | tbodyClose | trOpen | trClose
  | thOpen | tdOpen | thClose | tdClose | hr
  /-- Any other type. -/
  | other
  deriving DecidableEq

/-- `MarkdownToken`, with the attributes `href` and `start`. -/
inductive MarkdownToken where
  /-- A token; without content, the content is empty. -/
  | mk (type : TokenType) (content : CodeUnits) (href : Option CodeUnits) (start : Option ℕ)
    (children : List MarkdownToken)

inductive MarkdownTableMode where
  | off
  | bullets
  | code
  deriving DecidableEq

/-- `MarkdownParseOptions`, with the defaults of `markdownToIRWithMeta`. -/
structure MarkdownParseOptions where
  enableSpoilers : Bool := false
  /-- Is `headingStyle` `bold`? -/
  boldHeadings : Bool := false
  blockquotePrefix : CodeUnits := []
  tableMode : MarkdownTableMode := .off

/-! ### Spoilers -/

/-- `"|"`. -/
def bar : UInt16 := 0x7C

def createTextToken (href : Option CodeUnits) (start : Option ℕ) (content : CodeUnits) : MarkdownToken :=
  .mk .text content href start []

/-- The first loop of `injectSpoilersIntoInline`, over one content: how often does `||` occur? -/
def countDelims : CodeUnits → ℕ
  | a :: b :: rest => if a = bar ∧ b = bar then countDelims rest + 1 else countDelims (b :: rest)
  | _ => 0

/-- `state.spoilerOpen` and `consumedDelims`. -/
structure SpoilerState where
  spoilerOpen : Bool
  consumedDelims : ℕ

section
variable (href : Option CodeUnits) (start : Option ℕ) (usableDelims : ℕ)

/-- A text token, unless the text is empty. -/
def textTokens (content : CodeUnits) : List MarkdownToken :=
  if content = [] then [] else [createTextToken href start content]

/-- The second loop, over one content: `before` is what stands between `index` and the place reached. -/
def splitSpoilers (state : SpoilerState) (before : CodeUnits) : CodeUnits → List MarkdownToken × SpoilerState
  | a :: b :: rest =>
    if a = bar ∧ b = bar then
      if usableDelims ≤ state.consumedDelims then
        ([createTextToken href start (before ++ a :: b :: rest)], state)
      else
        let spoilerOpen := !state.spoilerOpen
        let delim := MarkdownToken.mk (if spoilerOpen then .spoilerOpen else .spoilerClose) [] none none []
        let (tokens, state) :=
          splitSpoilers { spoilerOpen, consumedDelims := state.consumedDelims + 1 } [] rest
        (textTokens href start before ++ delim :: tokens, state)
    else splitSpoilers state (before ++ [a]) (b :: rest)
  | rest => (textTokens href start (before ++ rest), state)

end

/-- The second loop, over the tokens. -/
def injectInto (usableDelims : ℕ) (state : SpoilerState) : List MarkdownToken → List MarkdownToken
  | [] => []
  | .mk type content href start children :: tokens =>
    if type = .text ∧ 0 < countDelims content then
      let (split, state) := splitSpoilers href start usableDelims state [] content
      split ++ injectInto usableDelims state tokens
    else .mk type content href start children :: injectInto usableDelims state tokens

def injectSpoilersIntoInline (tokens : List MarkdownToken) : List MarkdownToken :=
  let totalDelims := (tokens.map fun
    | .mk .text content _ _ _ => countDelims content
    | _ => 0).sum
  if totalDelims < 2 then tokens
  else injectInto (totalDelims - totalDelims % 2) { spoilerOpen := false, consumedDelims := 0 } tokens

def applySpoilerTokens (tokens : List MarkdownToken) : List MarkdownToken :=
  tokens.map fun
    | .mk type content href start children =>
      .mk type content href start (if children = [] then [] else injectSpoilersIntoInline children)

/-! ### The state -/

structure ListState where
  /-- Is the type `ordered`? -/
  ordered : Bool
  index : ℤ

structure LinkState where
  href : CodeUnits
  labelStart : ℕ

structure OpenStyle where
  style : MarkdownStyle
  start : ℕ

structure RenderTarget where
  text : CodeUnits := []
  styles : List MarkdownStyleSpan := []
  openStyles : List OpenStyle := []
  links : List MarkdownLinkSpan := []
  linkStack : List LinkState := []

abbrev TableCell := MarkdownIR

structure TableState where
  headers : List TableCell := []
  rows : List (List TableCell) := []
  currentRow : List TableCell := []
  currentCell : Option RenderTarget := none
  inHeader : Bool := false

/-- `RenderState`, but for the options; `own` is what it has of a `RenderTarget`. -/
structure RenderState where
  /-- The text, and what belongs to it. -/
  own : RenderTarget := {}
  /-- `env.listStack`. -/
  listStack : List ListState := []
  table : Option TableState := none

def RenderTarget.append (target : RenderTarget) (text : CodeUnits) : RenderTarget :=
  { target with text := target.text ++ text }

def RenderTarget.addStyle (target : RenderTarget) (span : MarkdownStyleSpan) : RenderTarget :=
  { target with styles := target.styles ++ [span] }

def RenderState.append (state : RenderState) (text : CodeUnits) : RenderState :=
  { state with own := state.own.append text }

variable (state : RenderState)

/-- Change what `resolveRenderTarget` gives. -/
def RenderState.onTarget (f : RenderTarget → RenderTarget) : RenderState :=
  match state.table with
  | some table =>
    match table.currentCell with
    | some cell => { state with table := some { table with currentCell := some (f cell) } }
    | none => { state with own := f state.own }
  | none => { state with own := f state.own }

/-! ### Inline text -/

def appendText (value : CodeUnits) : RenderState :=
  if value = [] then state else state.onTarget fun target => target.append value

def openStyle (style : MarkdownStyle) : RenderState :=
  state.onTarget fun target =>
    { target with openStyles := { style, start := target.text.length } :: target.openStyles }

/-- The last of the open styles that is the given one, and the others. -/
def takeStyle (style : MarkdownStyle) : List OpenStyle → Option (ℕ × List OpenStyle)
  | [] => none
  | opened :: openStyles =>
    if opened.style = style then some (opened.start, openStyles)
    else (takeStyle style openStyles).map fun (start, others) => (start, opened :: others)

/-- `closeStyle`, of a target. -/
def RenderTarget.closeStyle (style : MarkdownStyle) (target : RenderTarget) : RenderTarget :=
  match takeStyle style target.openStyles with
  | none => target
  | some (start, openStyles) =>
    let stop := target.text.length
    if start < stop then { target with openStyles }.addStyle { start, stop, mark := style }
    else { target with openStyles }

def closeStyle (state : RenderState) (style : MarkdownStyle) : RenderState :=
  state.onTarget (RenderTarget.closeStyle style)

def renderInlineCode (content : CodeUnits) : RenderState :=
  if content = [] then state
  else state.onTarget fun target =>
    let start := target.text.length
    (target.append content).addStyle { start, stop := start + content.length, mark := .code }

/-- The case `link_open`. -/
def handleLinkOpen (href : CodeUnits) : RenderState :=
  state.onTarget fun target =>
    { target with linkStack := { href, labelStart := target.text.length } :: target.linkStack }

def handleLinkClose : RenderState :=
  state.onTarget fun target =>
    match target.linkStack with
    | [] => target
    | link :: linkStack =>
      let target := { target with linkStack }
      let href := trim link.href
      if href = [] then target
      else { target with
             links := target.links ++ [{ start := link.labelStart, stop := target.text.length, mark := href }] }

def closeRemainingStyles (target : RenderTarget) : RenderTarget :=
  { target with
    styles := target.styles ++ (target.openStyles.filterMap fun opened =>
      if opened.start < target.text.length then
        some { start := opened.start, stop := target.text.length, mark := opened.style }
      else none)
    openStyles := [] }

/-! ### Blocks -/

def appendParagraphSeparator : RenderState :=
  if state.listStack ≠ [] then state
  else if state.table.isSome then state
  else state.append [newline, newline]

def appendListPrefix : RenderState :=
  match state.listStack with
  | [] => state
  | top :: listStack =>
    let index := top.index + 1
    let indent := (List.replicate listStack.length (ofString "  ")).flatten
    let start := if top.ordered then ofString (toString index ++ ". ") else ofString "• "
    { state with listStack := { top with index } :: listStack }.append (indent ++ start)

def renderCodeBlock (content : CodeUnits) : RenderState :=
  let code := if endsWithNewline content then content else content ++ [newline]
  state.onTarget fun target =>
    let start := target.text.length
    let target := (target.append code).addStyle { start, stop := start + code.length, mark := .codeBlock }
    if state.listStack = [] then target.append [newline] else target

/-- The cases `bullet_list_open` and `ordered_list_open`. -/
def openList (list : ListState) : RenderState :=
  let state := if state.listStack ≠ [] then state.append [newline] else state
  { state with listStack := list :: state.listStack }

/-- The cases `bullet_list_close` and `ordered_list_close`. -/
def closeList : RenderState :=
  let state := { state with listStack := state.listStack.tail }
  if state.listStack = [] then state.append [newline] else state

/-- The case `list_item_close`. -/
def closeListItem : RenderState :=
  if endsWithNewline state.own.text then state else state.append [newline]

variable (options : MarkdownParseOptions)

/-- The case `blockquote_open`. -/
def openBlockquote (state : RenderState) : RenderState :=
  openStyle (state.append options.blockquotePrefix) .blockquote

/-! ### Tables -/

def finishTableCell (cell : RenderTarget) : TableCell :=
  let cell := closeRemainingStyles cell
  { text := cell.text, styles := cell.styles, links := cell.links }

/-- The loops of `trimCell` over the spans. -/
def trimSpans {β : Type} (start trimmedLength : ℕ) (spans : List (Span β)) : List (Span β) :=
  spans.filterMap fun span =>
    let sliceStart := span.start - start
    let sliceEnd := min trimmedLength (span.stop - start)
    if sliceStart < sliceEnd then some { start := sliceStart, stop := sliceEnd, mark := span.mark } else none

def trimCell (cell : TableCell) : TableCell :=
  let start := (cell.text.takeWhile isSpace).length
  let stop := start + (trimEnd (cell.text.drop start)).length
  if start = 0 ∧ stop = cell.text.length then cell
  else
    let trimmedText := slice cell.text start stop
    { text := trimmedText
      styles := trimSpans start trimmedText.length cell.styles
      links := trimSpans start trimmedText.length cell.links }

/-- A span, further on in a text. -/
def Span.shift {β : Type} (start : ℕ) (span : Span β) : Span β :=
  { span with start := start + span.start, stop := start + span.stop }

def appendCell (target : RenderTarget) (cell : TableCell) : RenderTarget :=
  if cell.text = [] then target
  else
    let start := target.text.length
    { target with
      text := target.text ++ cell.text
      styles := target.styles ++ cell.styles.map (Span.shift start)
      links := target.links ++ cell.links.map (Span.shift start) }

/-- `cell?.text`, where an empty text counts as none. -/
def cellText (cell : Option TableCell) : CodeUnits := (cell.map MarkdownIR.text).getD []

def appendTableBulletValue (target : RenderTarget) (header value : Option TableCell) (columnIndex : ℕ)
    (includeColumnFallback : Bool) : RenderTarget :=
  match value with
  | none => target
  | some value =>
    if value.text = [] then target
    else
      let target := target.append (ofString "• ")
      let target := match header.filter fun header => header.text ≠ [] with
        | some header => (appendCell target header).append (ofString ": ")
        | none =>
          if includeColumnFallback then target.append (ofString ("Column " ++ toString columnIndex ++ ": "))
          else target
      (appendCell target value).append [newline]

/-- The columns of a row from `first` on, each as a bullet. -/
def appendBullets (headers row : List TableCell) (includeColumnFallback : Bool) (first : ℕ)
    (target : RenderTarget) : RenderTarget :=
  (List.range' first (row.length - first)).foldl
    (fun target i => appendTableBulletValue target headers[i]? row[i]? i includeColumnFallback) target

def appendRowLabel (target : RenderTarget) (rowLabel : TableCell) : RenderTarget :=
  if rowLabel.text = [] then target
  else
    let labelStart := target.text.length
    let target := appendCell target rowLabel
    let labelEnd := target.text.length
    let target := if labelStart < labelEnd then
        target.addStyle { start := labelStart, stop := labelEnd, mark := .bold }
      else target
    target.append [newline]

/-- A row of `renderTableAsBullets`. -/
def appendBulletRow (headers : List TableCell) (useFirstColAsLabel : Bool) (target : RenderTarget)
    (row : List TableCell) : RenderTarget :=
  if useFirstColAsLabel then
    match row with
    | [] => target
    | rowLabel :: _ => (appendBullets headers row true 1 (appendRowLabel target rowLabel)).append [newline]
  else (appendBullets headers row false 0 target).append [newline]

variable (table : TableState)

def renderTableAsBullets (target : RenderTarget) : RenderTarget :=
  let headers := table.headers.map trimCell
  let rows := table.rows.map (List.map trimCell)
  if headers.length = 0 ∧ rows.length = 0 then target
  else
    let useFirstColAsLabel := decide (1 < headers.length ∧ 0 < rows.length)
    rows.foldl (appendBulletRow headers useFirstColAsLabel) target

/-- `" ".repeat(n)`. -/
def spaces (n : ℕ) : CodeUnits := List.replicate n 0x20

def appendRow (columnCount : ℕ) (widths : ℕ → ℕ) (target : RenderTarget) (cells : List TableCell) :
    RenderTarget :=
  let columns := (List.range columnCount).map fun i =>
    ofString " " ++ cellText cells[i]? ++ spaces (widths i - (cellText cells[i]?).length) ++ ofString " |"
  target.append (ofString "|" ++ columns.flatten ++ [newline])

def appendDivider (columnCount : ℕ) (widths : ℕ → ℕ) (target : RenderTarget) : RenderTarget :=
  let columns := (List.range columnCount).map fun i =>
    ofString " " ++ List.replicate (max 3 (widths i)) 0x2D ++ ofString " |"
  target.append (ofString "|" ++ columns.flatten ++ [newline])

/-- `renderTableAsCode`; `inList` is whether the list stack is not empty. -/
def renderTableAsCode (inList : Bool) (target : RenderTarget) : RenderTarget :=
  let headers := table.headers.map trimCell
  let rows := table.rows.map (List.map trimCell)
  let columnCount := rows.foldl (fun count row => max count row.length) headers.length
  if columnCount = 0 then target
  else
    let widths := fun i =>
      (headers :: rows).foldl (fun width cells => max width (cellText cells[i]?).length) 0
    let codeStart := target.text.length
    let target := appendDivider columnCount widths (appendRow columnCount widths target headers)
    let target := rows.foldl (appendRow columnCount widths) target
    let codeEnd := target.text.length
    let target := if codeStart < codeEnd then
        target.addStyle { start := codeStart, stop := codeEnd, mark := .codeBlock }
      else target
    if inList then target else target.append [newline]

/-- The case `table_open`. -/
def openTable (state : RenderState) : RenderState :=
  if options.tableMode = .off then state else { state with table := some {} }

/-- The case `table_close`. -/
def closeTable (state : RenderState) : RenderState :=
  match state.table with
  | none => state
  | some table =>
    match options.tableMode with
    | .bullets => { state with own := renderTableAsBullets table state.own, table := none }
    | .code =>
      { state with own := renderTableAsCode table (decide (state.listStack ≠ [])) state.own, table := none }
    | .off => { state with table := none }

/-- `if (state.table) { … }`. -/
def RenderState.onTable (f : TableState → TableState) : RenderState :=
  { state with table := state.table.map f }

/-- The case `tr_close`. -/
def TableState.closeRow : TableState :=
  if table.inHeader then { table with headers := table.currentRow, currentRow := [] }
  else { table with rows := table.rows ++ [table.currentRow], currentRow := [] }

/-- The cases `th_close` and `td_close`. -/
def TableState.closeCell : TableState :=
  match table.currentCell with
  | none => table
  | some cell => { table with currentRow := table.currentRow ++ [finishTableCell cell], currentCell := none }

/-! ### All tokens -/

section
variable (options : MarkdownParseOptions)

mutual

/-- The body of the loop of `renderTokens`. -/
def renderToken (state : RenderState) : MarkdownToken → RenderState
  | .mk type content href start children =>
    match type with
    | .inline => renderTokens state children
    | .text => appendText state content
    | .emOpen => openStyle state .italic
    | .emClose => closeStyle state .italic
    | .strongOpen => openStyle state .bold
    | .strongClose => closeStyle state .bold
    | .sOpen => openStyle state .strikethrough
    | .sClose => closeStyle state .strikethrough
    | .codeInline => renderInlineCode state content
    | .spoilerOpen => if options.enableSpoilers then openStyle state .spoiler else state
    | .spoilerClose => if options.enableSpoilers then closeStyle state .spoiler else state
    | .linkOpen => handleLinkOpen state (href.getD [])
    | .linkClose => handleLinkClose state
    | .image => appendText state content
    | .softbreak | .hardbreak => appendText state [newline]
    | .paragraphClose => appendParagraphSeparator state
    | .headingOpen => if options.boldHeadings then openStyle state .bold else state
    | .headingClose =>
      appendParagraphSeparator (if options.boldHeadings then closeStyle state .bold else state)
    | .blockquoteOpen => openBlockquote options state
    | .blockquoteClose => closeStyle state .blockquote
    | .bulletListOpen => openList state { ordered := false, index := 0 }
    | .bulletListClose => closeList state
    | .orderedListOpen => openList state { ordered := true, index := (start.getD 1 : ℕ) - 1 }
    | .orderedListClose => closeList state
    | .listItemOpen => appendListPrefix state
    | .listItemClose => closeListItem state
    | .codeBlock | .fence => renderCodeBlock state content
    | .htmlBlock | .htmlInline => appendText state content
    | .tableOpen => openTable options state
    | .tableClose => closeTable options state
    | .theadOpen => state.onTable fun table => { table with inHeader := true }
    | .theadClose => state.onTable fun table => { table with inHeader := false }
    | .tbodyOpen | .tbodyClose => state
    | .trOpen => state.onTable fun table => { table with currentRow := [] }
    | .trClose => state.onTable TableState.closeRow
    | .thOpen | .tdOpen => state.onTable fun table => { table with currentCell := some {} }
    | .thClose | .tdClose => state.onTable TableState.closeCell
    | .hr => state.append (ofString "───\n\n")
    | .other => renderTokens state children

def renderTokens (state : RenderState) : List MarkdownToken → RenderState
  | [] => state
  | token :: tokens => renderTokens (renderToken state token) tokens

end

/-- `clampStyleSpans` and `clampLinkSpans`. -/
def clampSpans {β : Type} (spans : List (Span β)) (maxLength : ℕ) : List (Span β) :=
  spans.filterMap fun span =>
    let start := min span.start maxLength
    let stop := max start (min span.stop maxLength)
    if start < stop then some { start, stop, mark := span.mark } else none

def codeBlockEnd (styles : List MarkdownStyleSpan) : ℕ :=
  styles.foldl (fun stop span => if span.mark ≠ .codeBlock then stop else max stop span.stop) 0

/-- What is left of the state. -/
def finishIR (target : RenderTarget) : MarkdownIR :=
  let finalLength := max (trimEnd target.text).length (codeBlockEnd target.styles)
  { text := target.text.take finalLength
    styles := mergeStyleSpans (clampSpans target.styles finalLength)
    links := clampSpans target.links finalLength }

/-- `markdownToIR`, of the tokens of a text. -/
def markdownToIR (tokens : List MarkdownToken) : MarkdownIR :=
  let tokens := if options.enableSpoilers then applySpoilerTokens tokens else tokens
  finishIR (closeRemainingStyles (renderTokens options {} tokens).own)

end

/-! ### Spans in their texts -/

/-- The spans stop in a text of the given length. -/
def Within {β : Type} (spans : List (Span β)) (length : ℕ) : Prop := ∀ span ∈ spans, span.stop ≤ length

theorem Within.mono {β : Type} {spans : List (Span β)} {length length' : ℕ} (h : Within spans length)
    (hle : length ≤ length') : Within spans length' := fun span hspan => (h span hspan).trans hle

theorem Within.append {β : Type} {spans spans' : List (Span β)} {length : ℕ} (h : Within spans length)
    (h' : Within spans' length) : Within (spans ++ spans') length := fun span hspan =>
  (mem_append.mp hspan).elim (h span) (h' span)

theorem within_nil {β : Type} (length : ℕ) : Within ([] : List (Span β)) length := fun _ hspan =>
  absurd hspan not_mem_nil

/-- The styles of a target are in its text. -/
def RenderTarget.Fits (target : RenderTarget) : Prop := Within target.styles target.text.length

/-- The styles of a cell are in its text. -/
def CellFits (cell : TableCell) : Prop := Within cell.styles cell.text.length

theorem RenderTarget.Fits.append {target : RenderTarget} (h : target.Fits) (text : CodeUnits) :
    (target.append text).Fits :=
  Within.mono h (by simp [RenderTarget.append])

theorem RenderTarget.Fits.addStyle {target : RenderTarget} (h : target.Fits) {span : MarkdownStyleSpan}
    (hspan : span.stop ≤ target.text.length) : (target.addStyle span).Fits := by
  refine Within.append h fun span' hspan' => ?_
  obtain rfl := mem_singleton.mp hspan'
  exact hspan

theorem RenderTarget.Fits.closeStyle {target : RenderTarget} (h : target.Fits) (style : MarkdownStyle) :
    (target.closeStyle style).Fits := by
  unfold RenderTarget.closeStyle
  split
  · exact h
  · dsimp only
    split
    · have hopen : ({ target with openStyles := _ } : RenderTarget).Fits := h
      exact hopen.addStyle le_rfl
    · exact h

theorem fits_closeRemainingStyles {target : RenderTarget} (h : target.Fits) :
    (closeRemainingStyles target).Fits := by
  refine Within.append h fun span hspan => ?_
  obtain ⟨opened, -, hsome⟩ := mem_filterMap.mp hspan
  split_ifs at hsome
  obtain rfl := some.inj hsome
  exact le_rfl

theorem cellFits_finishTableCell {cell : RenderTarget} (h : cell.Fits) : CellFits (finishTableCell cell) :=
  fits_closeRemainingStyles h

theorem cellFits_trimCell {cell : TableCell} (h : CellFits cell) : CellFits (trimCell cell) := by
  unfold trimCell
  dsimp only
  split
  · exact h
  · intro span hspan
    obtain ⟨span', -, hsome⟩ := mem_filterMap.mp hspan
    dsimp only at hsome
    split_ifs at hsome
    obtain rfl := some.inj hsome
    exact min_le_left _ _

theorem fits_appendCell {target : RenderTarget} (h : target.Fits) {cell : TableCell} (hcell : CellFits cell) :
    (appendCell target cell).Fits := by
  unfold appendCell
  split
  · exact h
  · refine Within.append (Within.mono h (by simp)) fun span hspan => ?_
    obtain ⟨span', hspan', rfl⟩ := List.mem_map.mp hspan
    show target.text.length + span'.stop ≤ (target.text ++ cell.text).length
    rw [length_append]
    exact Nat.add_le_add_left (hcell span' hspan') _

theorem fits_foldl {α : Type} {f : RenderTarget → α → RenderTarget} {as : List α}
    (hf : ∀ a ∈ as, ∀ target : RenderTarget, target.Fits → (f target a).Fits) {target : RenderTarget}
    (h : target.Fits) : (as.foldl f target).Fits := by
  induction as generalizing target with
  | nil => exact h
  | cons a as ih =>
    exact ih (fun b hb => hf b (mem_cons_of_mem a hb)) (hf a mem_cons_self target h)

theorem fits_appendTableBulletValue {target : RenderTarget} (h : target.Fits)
    {header value : Option TableCell} (hheader : ∀ cell ∈ header, CellFits cell)
    (hvalue : ∀ cell ∈ value, CellFits cell) (columnIndex : ℕ) (includeColumnFallback : Bool) :
    (appendTableBulletValue target header value columnIndex includeColumnFallback).Fits := by
  unfold appendTableBulletValue
  split
  · exact h
  · rename_i cell
    have hcell : CellFits cell := hvalue cell rfl
    split
    · exact h
    · have hbullet : (target.append (ofString "• ")).Fits := h.append _
      dsimp only
      refine RenderTarget.Fits.append (fits_appendCell ?_ hcell) _
      split
      · rename_i header' heq
        exact (fits_appendCell hbullet (hheader header' (filter_eq_some_iff.mp heq).1)).append _
      · split
        · exact hbullet.append _
        · exact hbullet

variable {headers row : List TableCell}

theorem fits_appendBullets (hheaders : ∀ cell ∈ headers, CellFits cell)
    (hrow : ∀ cell ∈ row, CellFits cell) (includeColumnFallback : Bool) (first : ℕ) {target : RenderTarget}
    (h : target.Fits) : (appendBullets headers row includeColumnFallback first target).Fits := by
  refine fits_foldl (fun i _ target h => ?_) h
  exact fits_appendTableBulletValue h (fun cell hcell => hheaders cell (mem_of_getElem? hcell))
    (fun cell hcell => hrow cell (mem_of_getElem? hcell)) _ _

theorem fits_appendRowLabel {target : RenderTarget} (h : target.Fits) {rowLabel : TableCell}
    (hlabel : CellFits rowLabel) : (appendRowLabel target rowLabel).Fits := by
  unfold appendRowLabel
  split
  · exact h
  · have hcell := fits_appendCell h hlabel
    dsimp only
    refine RenderTarget.Fits.append ?_ _
    split
    · exact hcell.addStyle le_rfl
    · exact hcell

theorem fits_appendBulletRow (hheaders : ∀ cell ∈ headers, CellFits cell)
    (hrow : ∀ cell ∈ row, CellFits cell) (useFirstColAsLabel : Bool) {target : RenderTarget}
    (h : target.Fits) : (appendBulletRow headers useFirstColAsLabel target row).Fits := by
  unfold appendBulletRow
  split
  · split
    · exact h
    · rename_i rowLabel others
      exact (fits_appendBullets hheaders hrow _ _
        (fits_appendRowLabel h (hrow rowLabel mem_cons_self))).append _
  · exact (fits_appendBullets hheaders hrow _ _ h).append _

/-- The styles of all cells are in their texts. -/
structure TableFits (table : TableState) : Prop where
  headers : ∀ cell ∈ table.headers, CellFits cell
  rows : ∀ row ∈ table.rows, ∀ cell ∈ row, CellFits cell
  currentRow : ∀ cell ∈ table.currentRow, CellFits cell
  currentCell : ∀ cell ∈ table.currentCell, cell.Fits

variable {table : TableState}

theorem fits_renderTableAsBullets (htable : TableFits table) {target : RenderTarget}
    (h : target.Fits) : (renderTableAsBullets table target).Fits := by
  unfold renderTableAsBullets
  dsimp only
  split
  · exact h
  · refine fits_foldl (fun row hrow target h => fits_appendBulletRow ?_ ?_ _ h) h
    · intro cell hcell
      obtain ⟨cell', hcell', rfl⟩ := List.mem_map.mp hcell
      exact cellFits_trimCell (htable.headers cell' hcell')
    · obtain ⟨row', hrow', rfl⟩ := List.mem_map.mp hrow
      intro cell hcell
      obtain ⟨cell', hcell', rfl⟩ := List.mem_map.mp hcell
      exact cellFits_trimCell (htable.rows row' hrow' cell' hcell')

theorem fits_codeRows (columnCount : ℕ) (widths : ℕ → ℕ) (headers : List TableCell)
    (rows : List (List TableCell)) {target : RenderTarget} (h : target.Fits) :
    (rows.foldl (appendRow columnCount widths)
      (appendDivider columnCount widths (appendRow columnCount widths target headers))).Fits :=
  fits_foldl (fun _ _ _ h => h.append _) ((h.append _).append _)

theorem fits_renderTableAsCode (table : TableState) (inList : Bool) {target : RenderTarget}
    (h : target.Fits) : (renderTableAsCode table inList target).Fits := by
  unfold renderTableAsCode
  dsimp only
  split
  · exact h
  · split
    · split
      · exact (fits_codeRows _ _ _ _ h).addStyle le_rfl
      · exact fits_codeRows _ _ _ _ h
    · split
      · exact ((fits_codeRows _ _ _ _ h).addStyle le_rfl).append _
      · exact (fits_codeRows _ _ _ _ h).append _

/-! ### The state keeps its spans in its texts -/

/-- The styles of a state are in their texts. -/
structure RenderState.Fits (state : RenderState) : Prop where
  own : state.own.Fits
  table : ∀ table ∈ state.table, TableFits table

namespace RenderState.Fits

variable {state : RenderState}

variable (h : state.Fits)
include h

theorem append (text : CodeUnits) : (state.append text).Fits := ⟨h.own.append text, h.table⟩

theorem onTarget {f : RenderTarget → RenderTarget}
    (hf : ∀ target : RenderTarget, target.Fits → (f target).Fits) : (state.onTarget f).Fits := by
  unfold RenderState.onTarget
  split
  · rename_i table htable
    have hfits := h.table table htable
    split
    · rename_i cell hcell
      refine ⟨h.own, fun table' htable' => ?_⟩
      obtain rfl := some.inj htable'
      refine ⟨hfits.headers, hfits.rows, hfits.currentRow, fun cell' hcell' => ?_⟩
      obtain rfl := some.inj hcell'
      exact hf cell (hfits.currentCell cell hcell)
    · exact ⟨hf _ h.own, h.table⟩
  · exact ⟨hf _ h.own, h.table⟩

theorem onTable {f : TableState → TableState} (hf : ∀ table, TableFits table → TableFits (f table)) :
    (state.onTable f).Fits := by
  refine ⟨h.own, fun table htable => ?_⟩
  obtain ⟨table', htable', rfl⟩ := map_eq_some_iff.mp htable
  exact hf table' (h.table table' htable')

theorem setList (listStack : List ListState) : ({ state with listStack } : RenderState).Fits :=
  ⟨h.own, h.table⟩

theorem appendText (value : CodeUnits) : (appendText state value).Fits := by
  unfold Markdown.appendText
  split
  · exact h
  · exact h.onTarget fun target htarget => htarget.append value

theorem openStyle (style : MarkdownStyle) : (openStyle state style).Fits :=
  h.onTarget fun _ htarget => htarget

theorem closeStyle (style : MarkdownStyle) : (closeStyle state style).Fits :=
  h.onTarget fun _ htarget => htarget.closeStyle style

theorem renderInlineCode (content : CodeUnits) : (renderInlineCode state content).Fits := by
  unfold Markdown.renderInlineCode
  split
  · exact h
  · refine h.onTarget fun target htarget => (htarget.append content).addStyle ?_
    simp [RenderTarget.append]

theorem handleLinkOpen (href : CodeUnits) : (handleLinkOpen state href).Fits :=
  h.onTarget fun _ htarget => htarget

theorem handleLinkClose : (handleLinkClose state).Fits := by
  refine h.onTarget fun target htarget => ?_
  split
  · exact htarget
  · dsimp only
    split
    · exact htarget
    · exact htarget

theorem appendParagraphSeparator : (appendParagraphSeparator state).Fits := by
  unfold Markdown.appendParagraphSeparator
  split
  · exact h
  · split
    · exact h
    · exact h.append _

theorem appendListPrefix : (appendListPrefix state).Fits := by
  unfold Markdown.appendListPrefix
  split
  · exact h
  · exact (h.setList _).append _

theorem renderCodeBlock (content : CodeUnits) : (renderCodeBlock state content).Fits := by
  unfold Markdown.renderCodeBlock
  dsimp only
  refine h.onTarget fun target htarget => ?_
  have hcode := htarget.append (if endsWithNewline content then content else content ++ [newline])
  let span : MarkdownStyleSpan :=
    { start := target.text.length
      stop := target.text.length +
        (if endsWithNewline content then content else content ++ [newline]).length
      mark := .codeBlock }
  have hcode : (RenderTarget.addStyle _ span).Fits := hcode.addStyle (by simp [span, RenderTarget.append])
  split
  · exact hcode.append _
  · exact hcode

theorem openList (list : ListState) : (openList state list).Fits := by
  unfold Markdown.openList
  dsimp only
  split
  · exact (h.append _).setList _
  · exact h.setList _

theorem closeList : (closeList state).Fits := by
  unfold Markdown.closeList
  dsimp only
  split
  · exact (h.setList _).append _
  · exact h.setList _

theorem closeListItem : (closeListItem state).Fits := by
  unfold Markdown.closeListItem
  split
  · exact h
  · exact h.append _

theorem openTable (options : MarkdownParseOptions) : (openTable options state).Fits := by
  unfold Markdown.openTable
  split
  · exact h
  · refine ⟨h.own, fun table htable => ?_⟩
    obtain rfl := some.inj htable
    exact ⟨fun _ hcell => absurd hcell not_mem_nil, fun _ hrow => absurd hrow not_mem_nil,
      fun _ hcell => absurd hcell not_mem_nil, fun _ hcell => by cases hcell⟩

theorem closeTable (options : MarkdownParseOptions) : (closeTable options state).Fits := by
  unfold Markdown.closeTable
  split
  · exact h
  · rename_i table htable
    have hnone : ∀ table' ∈ (none : Option TableState), TableFits table' := fun _ htable' => by cases htable'
    split
    · exact ⟨fits_renderTableAsBullets (h.table table htable) h.own, hnone⟩
    · exact ⟨fits_renderTableAsCode table _ h.own, hnone⟩
    · exact ⟨h.own, hnone⟩

end RenderState.Fits

theorem TableFits.closeRow (h : TableFits table) : TableFits table.closeRow := by
  have hnil : ∀ cell ∈ ([] : List TableCell), CellFits cell := fun _ hcell => absurd hcell not_mem_nil
  unfold TableState.closeRow
  split
  · exact ⟨h.currentRow, h.rows, hnil, h.currentCell⟩
  · refine ⟨h.headers, fun row hrow => ?_, hnil, h.currentCell⟩
    rcases mem_append.mp hrow with hrow | hrow
    · exact h.rows row hrow
    · obtain rfl := mem_singleton.mp hrow
      exact h.currentRow

theorem TableFits.closeCell (h : TableFits table) : TableFits table.closeCell := by
  unfold TableState.closeCell
  split
  · exact h
  · rename_i cell hcell
    refine ⟨h.headers, h.rows, fun cell' hcell' => ?_, fun _ hcell' => by cases hcell'⟩
    rcases mem_append.mp hcell' with hcell' | hcell'
    · exact h.currentRow cell' hcell'
    · obtain rfl := mem_singleton.mp hcell'
      exact cellFits_finishTableCell (h.currentCell cell hcell)

section
variable (options : MarkdownParseOptions)

/-- A token keeps the styles in their texts, if its children do. -/
theorem fits_renderToken {state : RenderState} (h : state.Fits) (type : TokenType) (content : CodeUnits)
    (href : Option CodeUnits) (start : Option ℕ) {children : List MarkdownToken}
    (hchildren : (renderTokens options state children).Fits) :
    (renderToken options state ⟨type, content, href, start, children⟩).Fits := by
  rw [renderToken.eq_def]
  cases type with
  | inline | other => exact hchildren
  | text | image | htmlBlock | htmlInline => exact h.appendText content
  | softbreak | hardbreak => exact h.appendText _
  | emOpen | strongOpen | sOpen => exact h.openStyle _
  | emClose | strongClose | sClose | blockquoteClose => exact h.closeStyle _
  | codeInline => exact h.renderInlineCode content
  | spoilerOpen | headingOpen =>
    dsimp only
    split
    · exact h.openStyle _
    · exact h
  | spoilerClose =>
    dsimp only
    split
    · exact h.closeStyle _
    · exact h
  | headingClose =>
    dsimp only
    split
    · exact (h.closeStyle _).appendParagraphSeparator
    · exact h.appendParagraphSeparator
  | linkOpen => exact h.handleLinkOpen _
  | linkClose => exact h.handleLinkClose
  | paragraphClose => exact h.appendParagraphSeparator
  | blockquoteOpen => exact (h.append _).openStyle _
  | bulletListOpen | orderedListOpen => exact h.openList _
  | bulletListClose | orderedListClose => exact h.closeList
  | listItemOpen => exact h.appendListPrefix
  | listItemClose => exact h.closeListItem
  | codeBlock | fence => exact h.renderCodeBlock content
  | tableOpen => exact h.openTable options
  | tableClose => exact h.closeTable options
  | theadOpen | theadClose => exact h.onTable fun _ t => ⟨t.headers, t.rows, t.currentRow, t.currentCell⟩
  | tbodyOpen | tbodyClose => exact h
  | trOpen =>
    exact h.onTable fun _ t => ⟨t.headers, t.rows, fun _ hcell => absurd hcell not_mem_nil, t.currentCell⟩
  | trClose => exact h.onTable fun _ t => t.closeRow
  | thOpen | tdOpen =>
    refine h.onTable fun _ t => ⟨t.headers, t.rows, t.currentRow, fun cell hcell => ?_⟩
    obtain rfl := some.inj hcell
    exact within_nil _
  | thClose | tdClose => exact h.onTable fun _ t => t.closeCell
  | hr => exact h.append _

theorem fits_renderTokens {state : RenderState} (h : state.Fits) (tokens : List MarkdownToken) :
    (renderTokens options state tokens).Fits := by
  cases tokens with
  | nil => exact h
  | cons token tokens =>
    obtain ⟨type, content, href, start, children⟩ := token
    have hchildren := fits_renderTokens h children
    exact fits_renderTokens (fits_renderToken options h type content href start hchildren) tokens

/-! ### The result -/

variable {maxLength : ℕ}

theorem mem_clampSpans {β : Type} {spans : List (Span β)} {span : Span β}
    (h : span ∈ clampSpans spans maxLength) : span.start < span.stop ∧ span.stop ≤ maxLength := by
  obtain ⟨span', -, hsome⟩ := mem_filterMap.mp h
  dsimp only at hsome
  split_ifs at hsome with hlt
  obtain rfl := some.inj hsome
  refine ⟨hlt, ?_⟩
  show max (min span'.start maxLength) (min span'.stop maxLength) ≤ maxLength
  omega

theorem mergeSpan_within {merged : List MarkdownStyleSpan} {span : MarkdownStyleSpan}
    (hmerged : ∀ s ∈ merged, s.start < s.stop ∧ s.stop ≤ maxLength)
    (hspan : span.start < span.stop ∧ span.stop ≤ maxLength) :
    ∀ s ∈ mergeSpan merged span, s.start < s.stop ∧ s.stop ≤ maxLength := by
  intro s hs
  cases merged with
  | nil =>
    obtain rfl := mem_singleton.mp hs
    exact hspan
  | cons prev rest =>
    have hprev := hmerged prev mem_cons_self
    rw [mergeSpan] at hs
    split_ifs at hs
    · rcases mem_cons.mp hs with rfl | hs
      · show prev.start < max prev.stop span.stop ∧ max prev.stop span.stop ≤ maxLength
        omega
      · exact hmerged s (mem_cons_of_mem _ hs)
    · rcases mem_cons.mp hs with rfl | hs
      · exact hspan
      · exact hmerged s hs

theorem mergeStyleSpans_within {spans : List MarkdownStyleSpan}
    (h : ∀ s ∈ spans, s.start < s.stop ∧ s.stop ≤ maxLength) :
    ∀ s ∈ mergeStyleSpans spans, s.start < s.stop ∧ s.stop ≤ maxLength := by
  have hfold : ∀ (sorted merged : List MarkdownStyleSpan),
      (∀ s ∈ sorted, s.start < s.stop ∧ s.stop ≤ maxLength) →
      (∀ s ∈ merged, s.start < s.stop ∧ s.stop ≤ maxLength) →
      ∀ s ∈ sorted.foldl mergeSpan merged, s.start < s.stop ∧ s.stop ≤ maxLength := by
    intro sorted
    induction sorted with
    | nil => exact fun merged _ hmerged => hmerged
    | cons span sorted ih =>
      intro merged hsorted hmerged
      exact ih _ (fun s hs => hsorted s (mem_cons_of_mem _ hs))
        (mergeSpan_within hmerged (hsorted span mem_cons_self))
  intro s hs
  refine hfold _ [] (fun s hs => h s ?_) (fun s hs => absurd hs not_mem_nil) s (mem_reverse.mp hs)
  exact (mem_insertionSort SpanLe).mp hs

theorem codeBlockEnd_le {styles : List MarkdownStyleSpan} {length : ℕ} (h : Within styles length) :
    codeBlockEnd styles ≤ length := by
  have hfold : ∀ (styles : List MarkdownStyleSpan) (stop : ℕ), Within styles length → stop ≤ length →
      styles.foldl (fun stop span => if span.mark ≠ .codeBlock then stop else max stop span.stop) stop ≤
        length := by
    intro styles
    induction styles with
    | nil => exact fun stop _ hstop => hstop
    | cons span styles ih =>
      intro stop hstyles hstop
      refine ih _ (fun s hs => hstyles s (mem_cons_of_mem _ hs)) ?_
      have := hstyles span mem_cons_self
      dsimp only
      split
      · exact hstop
      · exact max_le hstop this
  exact hfold styles 0 h (Nat.zero_le _)

/-- A span of the result is not empty, and is in its text. -/
theorem finishIR_within {target : RenderTarget} (h : target.Fits) :
    (∀ s ∈ (finishIR target).styles, s.start < s.stop ∧ s.stop ≤ (finishIR target).text.length) ∧
      ∀ s ∈ (finishIR target).links, s.start < s.stop ∧ s.stop ≤ (finishIR target).text.length := by
  have htrim : (trimEnd target.text).length ≤ target.text.length := ( rdropWhile_prefix isSpace target.text).length_le
  have hlength : (finishIR target).text.length =
      max (trimEnd target.text).length (codeBlockEnd target.styles) := by
    show (target.text.take _).length = _
    rw [length_take]
    exact min_eq_left (max_le htrim (codeBlockEnd_le h))
  rw [hlength]
  exact ⟨mergeStyleSpans_within fun s hs => mem_clampSpans hs, fun s hs => mem_clampSpans hs⟩

theorem markdownToIR_within (tokens : List MarkdownToken) :
    (∀ s ∈ (markdownToIR options tokens).styles,
        s.start < s.stop ∧ s.stop ≤ (markdownToIR options tokens).text.length) ∧
      ∀ s ∈ (markdownToIR options tokens).links,
        s.start < s.stop ∧ s.stop ≤ (markdownToIR options tokens).text.length := by
  have hstart : ({} : RenderState).Fits := ⟨within_nil _, fun _ htable => by cases htable⟩
  exact finishIR_within (fits_closeRemainingStyles (fits_renderTokens options hstart _).own)

end

end Foxclaw.Markdown
