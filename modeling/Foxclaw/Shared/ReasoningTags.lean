import Mathlib.Logic.Function.Iterate
import Foxclaw.Lib.CodeUnits

/-!
# Reasoning tags

This module models `stripReasoningTagsFromText` of `shared/text/reasoning-tags.ts`, with the code regions of
`shared/text/code-regions.ts`: final tags are deleted from a text, and then reasoning tags with what stands
between an opening and a closing one, unless they begin inside code.

## The model

The regular expressions are read off the text by functions that match as they do: in each, what follows a
repetition cannot begin with what is repeated, so that there is one way to match.

## What is proved

* `strip_keeps` — what is returned is the text outside the tags and blocks, in order.
* `strip_strip_eq_iff` — a second call changes nothing exactly if no tag is left outside code;
  `exists_clean` — some number of calls leads there.
* `spliced_tag` — one call does not: the deletion of a tag can put another one together.
-/

namespace Foxclaw.Shared.ReasoningTags

open Nat List Option CodeUnits

/-! ### Code regions -/

structure CodeRegion where
  start : ℕ
  /-- `end`. -/
  stop : ℕ

def tick : UInt16 := 0x60

/-- The two fences. -/
def fences : List CodeUnits := [[tick, tick, tick], [0x7E, 0x7E, 0x7E]]

/-- The text after the first line, if that line ends. -/
def afterLine : CodeUnits → Option CodeUnits
  | [] => none
  | c :: text => if c = newline then some text else afterLine text

/-- What is left after `[\s\S]*?(?:\n\2(?:\n|$)|$)`. -/
def afterFence (fence : CodeUnits) : CodeUnits → CodeUnits
  | [] => []
  | c :: text =>
    if c = newline ∧ fence.isPrefixOf text then
      match text.drop fence.length with
      | [] => []
      | d :: rest => if d = newline then rest else afterFence fence text
    else afterFence fence text

variable (text : CodeUnits)

/-- What is left after a fenced block at the start of the text. -/
def afterFenced : Option CodeUnits :=
  fences.findSome? fun fence =>
    if fence.isPrefixOf text then (afterLine (text.drop fence.length)).map (afterFence fence) else none

/-- The regions of `fencedRe`, where `i` is the place reached, `skip` how much of the last match is left, and
`atLine` whether a line begins here without a newline before it that could be matched. -/
def fencedRegions (i skip : ℕ) (atLine : Bool) : CodeUnits → List CodeRegion
  | [] => []
  | c :: text =>
    if 0 < skip then fencedRegions (i + 1) (skip - 1) false text
    else
      match if atLine then afterFenced (c :: text) else none with
      | some rest =>
        { start := i, stop := i + ((c :: text).length - rest.length) } ::
          fencedRegions (i + 1) ((c :: text).length - rest.length - 1) false text
      | none =>
        match if c = newline then afterFenced text else none with
        | some rest =>
          { start := i + 1, stop := i + 1 + (text.length - rest.length) } ::
            fencedRegions (i + 1) (text.length - rest.length) false text
        | none => fencedRegions (i + 1) 0 false text

/-- The regions of `inlineRe`. -/
def inlineRegions (i skip : ℕ) : CodeUnits → List CodeRegion
  | [] => []
  | c :: text =>
    if 0 < skip then inlineRegions (i + 1) (skip - 1) text
    else
      let opening := (c :: text).takeWhile (· = tick)
      let inner := ((c :: text).drop opening.length).takeWhile (· ≠ tick)
      let closing := ((c :: text).drop (opening.length + inner.length)).takeWhile (· = tick)
      if opening ≠ [] ∧ inner ≠ [] ∧ closing ≠ [] then
        let length := opening.length + inner.length + closing.length
        { start := i, stop := i + length } :: inlineRegions (i + 1) (length - 1) text
      else inlineRegions (i + 1) 0 text

/-- `findCodeRegions`, but for the order of the regions, which `isInsideCode` does not see. -/
def findCodeRegions : List CodeRegion :=
  let fenced := fencedRegions 0 0 true text
  fenced ++ (inlineRegions 0 0 text).filter fun inline =>
    !fenced.any fun r => decide (r.start ≤ inline.start ∧ inline.stop ≤ r.stop)

def isInsideCode (pos : ℕ) (regions : List CodeRegion) : Bool :=
  regions.any fun r => decide (r.start ≤ pos ∧ pos < r.stop)

/-! ### Tags -/

def lt : UInt16 := 0x3C

def gt : UInt16 := 0x3E

def slash : UInt16 := 0x2F

/-- A unit of the class `\w`. -/
def isWordUnit (c : UInt16) : Bool :=
  let n := c.toNat
  (0x30 ≤ n && n ≤ 0x39) || (0x41 ≤ n && n ≤ 0x5A) || n == 0x5F || (0x61 ≤ n && n ≤ 0x7A)

/-- What a letter is under the flag `i`. -/
def lower (c : UInt16) : UInt16 := if 0x41 ≤ c.toNat ∧ c.toNat ≤ 0x5A then c + 0x20 else c

def finalNames : List CodeUnits := [ofString "final"]

def thinkingNames : List CodeUnits := ["think", "thinking", "thought", "antthinking"].map ofString

variable (names : List CodeUnits)

/-- `<\s*(\/?)\s*(?:…)\b` at the start of the text: is there a slash, and what is left of the text? -/
def matchHead : CodeUnits → Option (Bool × CodeUnits)
  | [] => none
  | c :: text =>
    if c ≠ lt then none
    else
      let (close, text) : Bool × CodeUnits := match trimStart text with
        | [] => (false, [])
        | d :: rest => if d = slash then (true, trimStart rest) else (false, d :: rest)
      let word := text.takeWhile isWordUnit
      if word.map lower ∈ names then some (close, text.drop word.length) else none

/-- A match of `FINAL_TAG_RE` or `THINKING_TAG_RE`. -/
structure Match where
  /-- `match.index`. -/
  start : ℕ
  /-- `match[0].length`. -/
  length : ℕ
  /-- `match[1] === "/"`. -/
  isClose : Bool
  deriving DecidableEq

/-- Where a match ends. -/
def Match.stop (m : Match) : ℕ := m.start + m.length

/-- The match at the start of the text. -/
def matchTag (i : ℕ) (text : CodeUnits) : Option Match :=
  match matchHead names text with
  | none => none
  | some (isClose, rest) =>
    match rest.dropWhile fun c => c ≠ lt ∧ c ≠ gt with
    | [] => none
    | c :: after => if c = gt then some { start := i, length := text.length - after.length, isClose } else none

/-- `matchAll`. -/
def matchAllFrom (names : List CodeUnits) (i skip : ℕ) : CodeUnits → List Match
  | [] => []
  | c :: text =>
    if 0 < skip then matchAllFrom names (i + 1) (skip - 1) text
    else
      match matchTag names i (c :: text) with
      | some m => m :: matchAllFrom names (i + 1) (m.length - 1) text
      | none => matchAllFrom names (i + 1) 0 text

/-- The tags that begin outside the code regions of the text. -/
def tagsOutsideCode (text : CodeUnits) : List Match :=
  (matchAllFrom names 0 0 text).filter fun m => !isInsideCode m.start (findCodeRegions text)

/-- `QUICK_TAG_RE.test`. -/
def quickTest : Bool :=
  text.tails.any fun s => (matchHead (thinkingNames ++ finalNames) s).isSome

/-! ### Stripping -/

inductive ReasoningTagMode where
  | strict
  | preserve
  deriving DecidableEq

inductive ReasoningTagTrim where
  | none
  | start
  | both

def applyTrim (value : CodeUnits) : ReasoningTagTrim → CodeUnits
  | .none => value
  | .start => trimStart value
  | .both => trim value

/-- The first pass: the final tags are cut out, the last first. -/
def withoutFinal : CodeUnits :=
  (tagsOutsideCode finalNames text).foldr (fun m cleaned => cleaned.take m.start ++ cleaned.drop m.stop) text

/-- The loop of the second pass, from a `lastIndex` on. -/
def visible (mode : ReasoningTagMode) (cleaned : CodeUnits) (lastIndex : ℕ) (inThinking : Bool) :
    List Match → CodeUnits
  | [] => if !inThinking ∨ mode = .preserve then cleaned.drop lastIndex else []
  | m :: ms =>
    if !inThinking then slice cleaned lastIndex m.start ++ visible mode cleaned m.stop (!m.isClose) ms
    else visible mode cleaned m.stop (if m.isClose then false else inThinking) ms

def stripReasoningTagsFromText (mode : ReasoningTagMode) (trimMode : ReasoningTagTrim) (text : CodeUnits) :
    CodeUnits :=
  if quickTest text then
    let cleaned := withoutFinal text
    applyTrim (visible mode cleaned 0 false (tagsOutsideCode thinkingNames cleaned)) trimMode
  else text

/-! ### Keeping a part of a text -/

/-- The units of the text whose places, counted from `i`, are not removed. -/
def keepFrom (removed : ℕ → Bool) (i : ℕ) : CodeUnits → CodeUnits
  | [] => []
  | c :: text => if removed i then keepFrom removed (i + 1) text else c :: keepFrom removed (i + 1) text

variable {removed removed' : ℕ → Bool}

theorem keepFrom_append (i : ℕ) (a b : CodeUnits) :
    keepFrom removed i (a ++ b) = keepFrom removed i a ++ keepFrom removed (i + a.length) b := by
  induction a generalizing i with
  | nil => rfl
  | cons c a ih =>
    rw [cons_append, keepFrom, keepFrom, ih, length_cons, show i + 1 + a.length = i + (a.length + 1) by omega]
    split <;> rfl

variable {i : ℕ}

theorem keepFrom_congr {text : CodeUnits} (h : ∀ j, i ≤ j → j < i + text.length → removed j = removed' j) :
    keepFrom removed i text = keepFrom removed' i text := by
  induction text generalizing i with
  | nil => rfl
  | cons c text ih =>
    rw [length_cons] at h
    rw [keepFrom, keepFrom, h i le_rfl (by omega), ih fun j hj hlt => h j (by omega) (by omega)]

theorem keepFrom_none (i : ℕ) (text : CodeUnits) : keepFrom (fun _ => false) i text = text := by
  induction text generalizing i with
  | nil => rfl
  | cons c text ih => rw [keepFrom, if_neg Bool.false_ne_true, ih]

theorem keepFrom_all (i : ℕ) (text : CodeUnits) : keepFrom (fun _ => true) i text = [] := by
  induction text generalizing i with
  | nil => rfl
  | cons c text ih => rw [keepFrom, if_pos rfl, ih]

theorem length_keepFrom_le (i : ℕ) (text : CodeUnits) : (keepFrom removed i text).length ≤ text.length := by
  induction text generalizing i with
  | nil => exact le_rfl
  | cons c text ih =>
    rw [keepFrom]
    split
    · exact (ih _).trans (le_succ _)
    · exact succ_le_succ (ih _)

/-- A place that is removed is missing. -/
theorem length_keepFrom_lt {i j : ℕ} {text : CodeUnits} (hi : i ≤ j) (hj : j < i + text.length)
    (h : removed j = true) : (keepFrom removed i text).length < text.length := by
  induction text generalizing i with
  | nil => exact absurd hj (by simpa using hi)
  | cons c text ih =>
    rw [length_cons] at hj
    rw [keepFrom]
    by_cases hij : i = j
    · rw [if_pos (hij ▸ h)]
      exact lt_succ_of_le (length_keepFrom_le _ _)
    · have := ih (i := i + 1) (by omega) (by omega)
      split
      · exact this.trans (Nat.lt_succ_self _)
      · exact succ_lt_succ this

/-! ### Matches -/

/-- The matches from a place on, in order. -/
def Ordered (ms : List Match) : Prop := ms.Pairwise fun m m' => m.stop ≤ m'.start

variable {names : List CodeUnits}

theorem matchHead_sublist {text rest : CodeUnits} {isClose : Bool}
    (h : matchHead names text = some (isClose, rest)) : rest.length < text.length := by
  cases text with
  | nil => cases h
  | cons c text =>
    have htrim : ∀ text : CodeUnits, (trimStart text).length ≤ text.length := fun text =>
      (dropWhile_sublist _).length_le
    rw [matchHead] at h
    split_ifs at h
    have hbody := htrim text
    rcases htext : trimStart text with _ | ⟨d, body⟩
    · rw [htext] at h
      dsimp only at h
      split_ifs at h
      obtain ⟨-, rfl⟩ := Prod.mk.inj (some.inj h)
      simp
    · rw [htext] at h hbody
      have := htrim body
      by_cases hslash : d = slash
      · simp only [hslash, if_true] at h
        split_ifs at h
        obtain ⟨-, rfl⟩ := Prod.mk.inj (some.inj h)
        simp only [length_drop, length_cons] at hbody ⊢
        omega
      · simp only [hslash, if_false] at h
        split_ifs at h
        obtain ⟨-, rfl⟩ := Prod.mk.inj (some.inj h)
        simp only [length_drop, length_cons] at hbody ⊢
        omega

variable {m : Match}

/-- A match starts at its place, and is a part of the text. -/
theorem matchTag_some {text : CodeUnits} (h : matchTag names i text = some m) :
    m.start = i ∧ 0 < m.length ∧ m.length ≤ text.length ∧ (matchHead names text).isSome := by
  unfold matchTag at h
  split at h
  · cases h
  · rename_i isClose rest hhead
    have hlt := matchHead_sublist hhead
    have hdrop := (dropWhile_sublist (fun c => decide (c ≠ lt ∧ c ≠ gt)) (l := rest)).length_le
    split at h
    · cases h
    · rename_i c after hrest
      rw [hrest, length_cons] at hdrop
      split_ifs at h
      obtain rfl := some.inj h
      refine ⟨rfl, ?_, sub_le _ _, by rw [hhead]; rfl⟩
      show 0 < text.length - after.length
      omega

theorem mem_matchAllFrom {i skip : ℕ} {text : CodeUnits} (h : m ∈ matchAllFrom names i skip text) :
    i + skip ≤ m.start ∧ 0 < m.length ∧ m.stop ≤ i + text.length ∧
      ∃ s ∈ text.tails, (matchHead names s).isSome := by
  induction text generalizing i skip with
  | nil => cases h
  | cons c text ih =>
    rw [matchAllFrom] at h
    have hrest : ∀ skip', m ∈ matchAllFrom names (i + 1) skip' text → i + 1 + skip' ≤ m.start ∧ 0 < m.length ∧
        m.stop ≤ i + (c :: text).length ∧ ∃ s ∈ (c :: text).tails, (matchHead names s).isSome := by
      intro skip' hmem
      obtain ⟨hstart, hpos, hstop, s, hs, hhead⟩ := ih hmem
      rw [length_cons]
      exact ⟨hstart, hpos, by omega, s, by rw [List.tails]; exact mem_cons_of_mem _ hs, hhead⟩
    split_ifs at h with hskip
    · obtain ⟨hstart, hothers⟩ := hrest _ h
      exact ⟨by omega, hothers⟩
    · split at h
      · rename_i m' hm'
        obtain ⟨hstart, hpos, hlength, hhead⟩ := matchTag_some hm'
        rcases mem_cons.mp h with rfl | h
        · refine ⟨by omega, hpos, ?_, c :: text, by rw [List.tails]; exact mem_cons_self, hhead⟩
          rw [Match.stop]
          omega
        · obtain ⟨hstart, hothers⟩ := hrest _ h
          exact ⟨by omega, hothers⟩
      · obtain ⟨hstart, hothers⟩ := hrest _ h
        exact ⟨by omega, hothers⟩

theorem ordered_matchAllFrom (names : List CodeUnits) (i skip : ℕ) (text : CodeUnits) :
    Ordered (matchAllFrom names i skip text) := by
  induction text generalizing i skip with
  | nil => exact List.Pairwise.nil
  | cons c text ih =>
    rw [matchAllFrom]
    split_ifs
    · exact ih _ _
    · split
      · rename_i m hm
        obtain ⟨hstart, hpos, -, -⟩ := matchTag_some hm
        refine pairwise_cons.mpr ⟨fun m' hm' => ?_, ih _ _⟩
        have := (mem_matchAllFrom hm').1
        rw [Match.stop]
        omega
      · exact ih _ _

theorem ordered_tagsOutsideCode (names : List CodeUnits) (text : CodeUnits) :
    Ordered (tagsOutsideCode names text) :=
  (ordered_matchAllFrom names 0 0 text).sublist filter_sublist

theorem mem_tagsOutsideCode {text : CodeUnits} (h : m ∈ tagsOutsideCode names text) :
    0 < m.length ∧ m.stop ≤ text.length ∧ ∃ s ∈ text.tails, (matchHead names s).isSome := by
  obtain ⟨-, hpos, hstop, hhead⟩ := mem_matchAllFrom (mem_filter.mp h).1
  exact ⟨hpos, by omega, hhead⟩

/-! ### What the passes keep -/

/-- The place is in one of the tags. -/
def inTag (ms : List Match) (i : ℕ) : Bool := ms.any fun m => decide (m.start ≤ i ∧ i < m.stop)

/-- The place stands behind an opening tag, and no closing tag after that ends before the place. -/
def inBlock (ms : List Match) (i : ℕ) : Bool :=
  ms.any fun o => decide (o.isClose = false ∧ o.stop ≤ i ∧ ∀ c ∈ ms, c.isClose = true → o.start < c.start → i < c.stop)

theorem inTag_cons (m : Match) (ms : List Match) (i : ℕ) :
    inTag (m :: ms) i = (decide (m.start ≤ i ∧ i < m.stop) || inTag ms i) := any_cons

variable {ms : List Match}

theorem inTag_eq_false (h : ∀ m ∈ ms, i < m.start) : inTag ms i = false :=
  List.any_eq_false.mpr fun m hm => by
    have := h m hm
    simp only [decide_eq_true_eq]
    omega

/-- The matches are in order, behind a place, and in a text of the given length. -/
structure Placed (ms : List Match) (i length : ℕ) : Prop where
  ordered : Ordered ms
  start : ∀ m ∈ ms, i ≤ m.start
  lt_stop : ∀ m ∈ ms, m.start < m.stop
  stop : ∀ m ∈ ms, m.stop ≤ length

theorem Placed.tail {i length : ℕ} (h : Placed (m :: ms) i length) : Placed ms m.stop length :=
  have hordered := pairwise_cons.mp h.ordered
  ⟨hordered.2, hordered.1, fun m' hm' => h.lt_stop m' (mem_cons_of_mem _ hm'),
    fun m' hm' => h.stop m' (mem_cons_of_mem _ hm')⟩

theorem placed_tagsOutsideCode (names : List CodeUnits) (text : CodeUnits) :
    Placed (tagsOutsideCode names text) 0 text.length where
  ordered := ordered_tagsOutsideCode names text
  start _ _ := Nat.zero_le _
  lt_stop _ hm := Nat.lt_add_of_pos_right (mem_tagsOutsideCode hm).1
  stop _ hm := (mem_tagsOutsideCode hm).2.1

/-- Cutting matches out, the last first, leaves what is in none of them. -/
theorem foldr_cut {text : CodeUnits} (h : Placed ms i text.length) :
    ms.foldr (fun m cleaned => cleaned.take m.start ++ cleaned.drop m.stop) text = keepFrom (inTag ms) 0 text := by
  induction ms generalizing i with
  | nil => exact (keepFrom_none 0 text).symm
  | cons m ms ih =>
    have hlt := h.lt_stop m mem_cons_self
    have hstop := h.stop m mem_cons_self
    have hlater : ∀ j, j < m.stop → inTag ms j = false := fun j hj =>
      inTag_eq_false fun m' hm' => hj.trans_le (h.tail.start m' hm')
    have hfront : (text.take m.stop).length = m.stop := length_take_of_le hstop
    have hmiddle : (slice text m.start m.stop).length = m.stop - m.start := by
      rw [slice, length_drop, hfront]
    have hrest : keepFrom (inTag (m :: ms)) m.stop (text.drop m.stop) =
        keepFrom (inTag ms) m.stop (text.drop m.stop) :=
      keepFrom_congr fun j hj _ => by
        rw [inTag_cons, decide_eq_false (by omega), Bool.false_or]
    have hinner : keepFrom (inTag ms) 0 text =
        text.take m.stop ++ keepFrom (inTag ms) m.stop (text.drop m.stop) := by
      conv_lhs => rw [← take_append_drop m.stop text, keepFrom_append, hfront, Nat.zero_add]
      congr 1
      exact (keepFrom_congr fun j _ hj => hlater j (by omega)).trans (keepFrom_none 0 _)
    have hkept : keepFrom (inTag (m :: ms)) 0 (text.take m.stop) = text.take m.start := by
      rw [← take_append_slice text hlt.le, keepFrom_append, length_take_of_le (by omega), Nat.zero_add]
      have hslice : keepFrom (inTag (m :: ms)) m.start (slice text m.start m.stop) = [] :=
        (keepFrom_congr fun j hj hlt => by
          rw [inTag_cons, decide_eq_true (by omega), Bool.true_or]).trans (keepFrom_all _ _)
      rw [hslice, append_nil]
      refine (keepFrom_congr fun j _ hj => ?_).trans (keepFrom_none 0 _)
      rw [length_take_of_le (by omega)] at hj
      rw [inTag_cons, decide_eq_false (by omega), Bool.false_or, hlater j (by omega)]
    rw [foldr_cons, ih h.tail, hinner]
    conv_rhs => rw [← take_append_drop m.stop text, keepFrom_append, hfront, Nat.zero_add, hkept, hrest]
    rw [drop_left' hfront, take_append_of_le_length (by omega), take_take, min_eq_left hlt.le]

theorem withoutFinal_eq (text : CodeUnits) :
    withoutFinal text = keepFrom (inTag (tagsOutsideCode finalNames text)) 0 text :=
  foldr_cut (placed_tagsOutsideCode finalNames text)

/-- `inThinking` at a place, where the loop starts with `st`: the last tag before decides. -/
def thinkingAt (st : Bool) : List Match → ℕ → Bool
  | [], _ => st
  | m :: ms, i => if m.stop ≤ i then thinkingAt (!m.isClose) ms i else st

/-- Where the last tag before a place is an opening one, the place is in a block. -/
theorem thinkingAt_iff {k length : ℕ} (h : Placed ms k length) (st : Bool) :
    thinkingAt st ms i = true ↔
      (∃ o ∈ ms, o.isClose = false ∧ o.stop ≤ i ∧ ∀ c ∈ ms, c.isClose = true → o.start < c.start → i < c.stop) ∨
        (st = true ∧ ∀ c ∈ ms, c.isClose = true → i < c.stop) := by
  induction ms generalizing st k with
  | nil => simp [thinkingAt]
  | cons m ms ih =>
    have hlt := h.lt_stop m mem_cons_self
    have hlater : ∀ m' ∈ ms, m.stop ≤ m'.start ∧ m'.start < m'.stop := fun m' hm' =>
      ⟨h.tail.start m' hm', h.tail.lt_stop m' hm'⟩
    rw [thinkingAt]
    split
    · rename_i hstop
      rw [ih h.tail]
      constructor
      · rintro (⟨o, ho, hopen, hle, hclose⟩ | ⟨hopen, hclose⟩)
        · refine .inl ⟨o, mem_cons_of_mem _ ho, hopen, hle, fun c hc hisClose hstart => ?_⟩
          rcases mem_cons.mp hc with rfl | hc
          · have := hlater o ho
            omega
          · exact hclose c hc hisClose hstart
        · refine .inl ⟨m, mem_cons_self, by simpa using hopen, hstop, fun c hc hisClose hstart => ?_⟩
          rcases mem_cons.mp hc with rfl | hc
          · omega
          · exact hclose c hc hisClose
      · rintro (⟨o, ho, hopen, hle, hclose⟩ | ⟨-, hclose⟩)
        · rcases mem_cons.mp ho with rfl | ho
          · refine .inr ⟨by rw [hopen]; rfl, fun c hc hisClose => ?_⟩
            have := hlater c hc
            exact hclose c (mem_cons_of_mem _ hc) hisClose (by omega)
          · exact .inl ⟨o, ho, hopen, hle, fun c hc => hclose c (mem_cons_of_mem _ hc)⟩
        · refine .inr ⟨?_, fun c hc => hclose c (mem_cons_of_mem _ hc)⟩
          cases hm : m.isClose with
          | false => rfl
          | true =>
            have := hclose m mem_cons_self hm
            omega
    · rename_i hstop
      have hall : ∀ m' ∈ m :: ms, i < m'.stop := by
        intro m' hm'
        rcases mem_cons.mp hm' with rfl | hm'
        · omega
        · have := hlater m' hm'
          omega
      refine ⟨fun hst => .inr ⟨hst, fun c hc _ => hall c hc⟩, ?_⟩
      rintro (⟨o, ho, -, hle, -⟩ | ⟨hst, -⟩)
      · exact absurd hle (hall o ho).not_ge
      · exact hst

/-- The loop leaves what is in no tag, and where it is not thinking. -/
theorem visible_eq {text : CodeUnits} (h : Placed ms i text.length) (st : Bool) :
    visible .strict text i st ms = keepFrom (fun j => inTag ms j || thinkingAt st ms j) i (text.drop i) := by
  induction ms generalizing i st with
  | nil =>
    cases st
    · exact (keepFrom_none i _).symm
    · exact (keepFrom_all i _).symm
  | cons m ms ih =>
    have hstart := h.start m mem_cons_self
    have hlt := h.lt_stop m mem_cons_self
    have hstop := h.stop m mem_cons_self
    have hfirst : (slice text i m.start).length = m.start - i := by
      rw [slice, length_drop, length_take_of_le (by omega)]
    have hsecond : (slice text m.start m.stop).length = m.stop - m.start := by
      rw [slice, length_drop, length_take_of_le hstop]
    have hbefore : keepFrom (fun j => inTag (m :: ms) j || thinkingAt st (m :: ms) j) i (slice text i m.start) =
        if st then [] else slice text i m.start := by
      have hst : keepFrom (fun j => inTag (m :: ms) j || thinkingAt st (m :: ms) j) i (slice text i m.start) =
          keepFrom (fun _ => st) i (slice text i m.start) := keepFrom_congr fun j _ hj => by
        rw [thinkingAt, if_neg (by omega), inTag_eq_false fun m' hm' => ?_, Bool.false_or]
        rcases mem_cons.mp hm' with rfl | hm'
        · omega
        · have := h.tail.start m' hm'
          omega
      rw [hst]
      cases st
      · exact keepFrom_none _ _
      · exact keepFrom_all _ _
    have htag : keepFrom (fun j => inTag (m :: ms) j || thinkingAt st (m :: ms) j) m.start
        (slice text m.start m.stop) = [] :=
      (keepFrom_congr fun j _ _ => by
        rw [inTag_cons, decide_eq_true (by omega), Bool.true_or, Bool.true_or]).trans (keepFrom_all _ _)
    have hrest : keepFrom (fun j => inTag (m :: ms) j || thinkingAt st (m :: ms) j) m.stop (text.drop m.stop) =
        visible .strict text m.stop (!m.isClose) ms := by
      rw [ih h.tail]
      refine keepFrom_congr fun j hj _ => ?_
      rw [inTag_cons, decide_eq_false (by omega), Bool.false_or, thinkingAt, if_pos hj]
    rw [← slice_append_drop text hstart, ← slice_append_drop text hlt.le, keepFrom_append, keepFrom_append, hfirst,
      hsecond, Nat.add_sub_cancel' hstart, Nat.add_sub_cancel' hlt.le, hbefore, htag, hrest, visible]
    cases st <;> cases m.isClose <;> simp

/-- The place is in a tag or a block. -/
def hidden (ms : List Match) (i : ℕ) : Bool := inTag ms i || inBlock ms i

theorem visible_strict (text : CodeUnits) :
    visible .strict text 0 false (tagsOutsideCode thinkingNames text) =
      keepFrom (hidden (tagsOutsideCode thinkingNames text)) 0 text := by
  have hplaced := placed_tagsOutsideCode thinkingNames text
  rw [visible_eq hplaced, drop_zero]
  refine keepFrom_congr fun j _ _ => ?_
  rw [hidden]
  congr 1
  rw [Bool.eq_iff_iff, thinkingAt_iff hplaced, inBlock, List.any_eq_true]
  simp

/-! ### A second call -/

/-- No tag begins outside the code regions. -/
def Clean (text : CodeUnits) : Prop :=
  tagsOutsideCode finalNames text = [] ∧ tagsOutsideCode thinkingNames text = []

theorem quickTest_of_mem (hnames : names ⊆ thinkingNames ++ finalNames)
    {text : CodeUnits} (h : m ∈ tagsOutsideCode names text) : quickTest text = true := by
  obtain ⟨-, -, s, hs, hhead⟩ := mem_tagsOutsideCode h
  refine List.any_eq_true.mpr ⟨s, hs, ?_⟩
  cases s with
  | nil => cases hhead
  | cons c text =>
    rw [matchHead] at hhead ⊢
    split_ifs at hhead ⊢
    · cases hhead
    · dsimp only at hhead ⊢
      split_ifs at hhead with hword
      · rw [if_pos (hnames hword)]
        rfl
      · cases hhead

theorem trimEnd_trim (text : CodeUnits) : trimStart (trimEnd (trimStart text)) = trimEnd (trimStart text) := by
  unfold trimStart trimEnd
  rcases hstart : text.dropWhile isSpace with _ | ⟨c, rest⟩
  · rfl
  · have hc : isSpace c = false := by
      have := head_dropWhile_not isSpace (l := text) (by rw [hstart]; exact cons_ne_nil _ _)
      simpa [hstart] using this
    obtain ⟨tail, htail⟩ := rdropWhile_prefix isSpace (c :: rest)
    rcases hend : (c :: rest).rdropWhile isSpace with _ | ⟨d, front⟩
    · rfl
    · rw [hend, cons_append] at htail
      obtain ⟨rfl, -⟩ := List.cons.inj htail
      rw [dropWhile_cons_of_neg (by simp [hc])]

theorem applyTrim_applyTrim (text : CodeUnits) (trimMode : ReasoningTagTrim) :
    applyTrim (applyTrim text trimMode) trimMode = applyTrim text trimMode := by
  cases trimMode with
  | none => rfl
  | start => exact dropWhile_idempotent isSpace text
  | both =>
    show trimEnd (trimStart (trimEnd (trimStart text))) = trimEnd (trimStart text)
    rw [trimEnd_trim]
    exact rdropWhile_idempotent _ _

theorem length_applyTrim_le (text : CodeUnits) (trimMode : ReasoningTagTrim) :
    (applyTrim text trimMode).length ≤ text.length := by
  have hstart : (trimStart text).length ≤ text.length := (dropWhile_sublist _).length_le
  cases trimMode with
  | none => exact le_rfl
  | start => exact hstart
  | both => exact ( rdropWhile_prefix isSpace (trimStart text)).length_le.trans hstart

variable (trimMode : ReasoningTagTrim) (text : CodeUnits)

/-- A text that is not clean gets shorter. -/
theorem length_strip_lt (h : ¬ Clean text) :
    (stripReasoningTagsFromText .strict trimMode text).length < text.length := by
  have hcut : ∀ {ms : List Match} {m : Match} {removed : ℕ → Bool}, m ∈ ms → 0 < m.length →
      m.stop ≤ text.length → (∀ i, inTag ms i = true → removed i = true) →
        (keepFrom removed 0 text).length < text.length := by
    intro ms m removed hm hpos hstop hremoved
    have hlt : m.start < m.stop := Nat.lt_add_of_pos_right hpos
    refine length_keepFrom_lt (j := m.start) (Nat.zero_le _) (by omega) (hremoved _ ?_)
    exact List.any_eq_true.mpr ⟨m, hm, decide_eq_true ⟨le_rfl, hlt⟩⟩
  unfold stripReasoningTagsFromText
  by_cases hfinal : tagsOutsideCode finalNames text = []
  · have hthinking : tagsOutsideCode thinkingNames text ≠ [] := fun hnone => h ⟨hfinal, hnone⟩
    obtain ⟨m, hm⟩ := exists_mem_of_ne_nil _ hthinking
    obtain ⟨hpos, hstop, -⟩ := mem_tagsOutsideCode hm
    have hcleaned : withoutFinal text = text := by rw [withoutFinal, hfinal, foldr_nil]
    rw [if_pos (quickTest_of_mem (subset_append_left _ _) hm), hcleaned]
    dsimp only
    rw [visible_strict]
    refine (length_applyTrim_le _ _).trans_lt (hcut hm hpos hstop fun i hi => ?_)
    rw [hidden, hi, Bool.true_or]
  · obtain ⟨m, hm⟩ := exists_mem_of_ne_nil _ hfinal
    obtain ⟨hpos, hstop, -⟩ := mem_tagsOutsideCode hm
    rw [if_pos (quickTest_of_mem (subset_append_right _ _) hm)]
    dsimp only
    rw [visible_strict]
    refine (length_applyTrim_le _ _).trans_lt ((length_keepFrom_le _ _).trans_lt ?_)
    rw [withoutFinal_eq]
    exact hcut hm hpos hstop fun _ hi => hi

/-- In a clean text nothing is deleted. -/
theorem strip_of_clean (h : Clean text) :
    stripReasoningTagsFromText .strict trimMode text =
      if quickTest text then applyTrim text trimMode else text := by
  have hcleaned : withoutFinal text = text := by rw [withoutFinal, h.1, foldr_nil]
  unfold stripReasoningTagsFromText
  dsimp only
  rw [hcleaned, h.2]
  rfl

/-- A second call changes nothing exactly if the first one left no tag outside code. -/
theorem strip_strip_eq_iff :
    stripReasoningTagsFromText .strict trimMode (stripReasoningTagsFromText .strict trimMode text) =
        stripReasoningTagsFromText .strict trimMode text ↔
      Clean (stripReasoningTagsFromText .strict trimMode text) := by
  constructor
  · intro heq
    by_contra hclean
    have hlt := length_strip_lt trimMode _ hclean
    rw [heq] at hlt
    exact lt_irrefl _ hlt
  · intro hclean
    rw [strip_of_clean trimMode _ hclean]
    split
    · by_cases hquick : quickTest text = true
      · rw [stripReasoningTagsFromText, if_pos hquick]
        exact applyTrim_applyTrim _ _
      · rename_i hagain
        rw [stripReasoningTagsFromText, if_neg hquick] at hagain
        exact absurd hagain hquick
    · rfl

theorem exists_clean : ∃ n, Clean ((stripReasoningTagsFromText .strict trimMode)^[n] text) := by
  induction hlength : text.length using Nat.strong_induction_on generalizing text with
  | _ length ih =>
    by_cases hclean : Clean text
    · exact ⟨0, hclean⟩
    · have hlt := length_strip_lt trimMode text hclean
      obtain ⟨n, hn⟩ := ih _ (hlength ▸ hlt) _ rfl
      exact ⟨n + 1, hn⟩

/-- What is returned is, up to trimming, the text outside the final tags, outside the reasoning tags and
outside the blocks; a second call changes nothing exactly if no tag is left outside code; and some number
of calls leads to such a text. -/
theorem strip_keeps :
    (stripReasoningTagsFromText .strict trimMode text =
      if quickTest text then
        applyTrim (keepFrom (hidden (tagsOutsideCode thinkingNames
          (keepFrom (inTag (tagsOutsideCode finalNames text)) 0 text))) 0
            (keepFrom (inTag (tagsOutsideCode finalNames text)) 0 text)) trimMode
      else text) ∧
      (stripReasoningTagsFromText .strict trimMode (stripReasoningTagsFromText .strict trimMode text) =
          stripReasoningTagsFromText .strict trimMode text ↔
        Clean (stripReasoningTagsFromText .strict trimMode text)) ∧
      (quickTest text = false → Clean text) ∧
      ∃ n, Clean ((stripReasoningTagsFromText .strict trimMode)^[n] text) := by
  refine ⟨?_, strip_strip_eq_iff trimMode text, fun hquick => ⟨?_, ?_⟩, exists_clean trimMode text⟩
  · rw [← withoutFinal_eq, ← visible_strict]
    rfl
  · refine eq_nil_iff_forall_not_mem.mpr fun m hm => ?_
    rw [quickTest_of_mem (subset_append_right _ _) hm] at hquick
    cases hquick
  · refine eq_nil_iff_forall_not_mem.mpr fun m hm => ?_
    rw [quickTest_of_mem (subset_append_left _ _) hm] at hquick
    cases hquick

/-- The deletion of a tag puts another one together, which a second call deletes. -/
theorem spliced_tag :
    stripReasoningTagsFromText .strict .both (ofString "<fi<final>nal>") = ofString "<final>" ∧
      ¬ Clean (ofString "<final>") ∧
      stripReasoningTagsFromText .strict .both (ofString "<final>") = [] := by
  refine ⟨by decide +kernel, fun h => ?_, by decide +kernel⟩
  have hne : tagsOutsideCode finalNames (ofString "<final>") ≠ [] := by decide +kernel
  exact hne h.1

end Foxclaw.Shared.ReasoningTags
