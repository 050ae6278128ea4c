import Foxclaw.Markdown.FenceState

/-!
# Cutting a text with fences

A text is cut in two, and the second part is read on its own, or after a line that opens the
block that was cut again. When the line that is cut is no fence, and no part of it looks like
one, every character stays inside or outside of the blocks.

## What is proved

* `SameAfter` — what comes after two texts is read the same; `PlainCut.sameAfter` and
  `SplitCut.sameAfter` — what comes after a cut is read as before it.
* `PlainCut.marks_take`, `SplitCut.marks_take` — which characters are inside, on both sides of a cut.
* `PlainCut.balanced`, `SplitCut.balanced` — the first part has its fences closed.
-/

namespace Foxclaw.Markdown

open CodeUnits (newline)
open List Option Lines

/-! ### Two texts before the same text -/

/-- The fence around the place between two texts. -/
def placeBetween (next : Bool) (x y : CodeUnits) : Option Fence :=
  fenceHere next (openBefore x) (lastLine newline x) (firstLine newline y)

/-- The rest of the line that is cut is read the same after both texts. -/
structure SameAfter (x x' y : CodeUnits) : Prop where
  line : afterLine (openBefore x) (lastLine newline x ++ firstLine newline y) =
    afterLine (openBefore x') (lastLine newline x' ++ firstLine newline y)
  /-- The places in it are inside of the same block. -/
  place : ∀ next z w, z ++ w = firstLine newline y →
    fenceHere next (openBefore x) (lastLine newline x ++ z) w =
      fenceHere next (openBefore x') (lastLine newline x' ++ z) w

theorem SameAfter.trans {x x' x'' y : CodeUnits} (h : SameAfter x x' y) (h' : SameAfter x' x'' y) :
    SameAfter x x'' y :=
  ⟨h.line.trans h'.line, fun next z w hw => (h.place next z w hw).trans (h'.place next z w hw)⟩

/-- The fence open where the last line of two texts begins. -/
theorem openBefore_append (x y : CodeUnits) :
    openBefore (x ++ y) = if restLines newline y = [] then openBefore x
      else afterLines (afterLine (openBefore x) (lastLine newline x ++ firstLine newline y))
        (restLines newline y).dropLast := by
  split
  · rename_i h
    rw [openBefore, (cut_append_of_restLines_nil x h).1, ← openBefore]
  · rename_i h
    rw [openBefore, (cut_append_of_restLines_ne_nil x h).1, afterLines_append, ← openBefore]
    rfl

theorem lastLine_append (x x' : CodeUnits) {y : CodeUnits} (h : restLines newline y ≠ []) :
    lastLine newline (x ++ y) = lastLine newline (x' ++ y) := by
  rw [(cut_append_of_restLines_ne_nil x h).2, (cut_append_of_restLines_ne_nil x' h).2]

/-- What comes after more of the same is read the same. -/
theorem SameAfter.append {x x' y z : CodeUnits} (h : SameAfter x x' (y ++ z)) :
    SameAfter (x ++ y) (x' ++ y) z := by
  by_cases hy : restLines newline y = []
  · have hfirst : firstLine newline (y ++ z) = y ++ firstLine newline z :=
      firstLine_append_of_nil hy z
    have hlast (x : CodeUnits) : lastLine newline (x ++ y) = lastLine newline x ++ y := by
      rw [(cut_append_of_restLines_nil x hy).2, firstLine_eq_self hy]
    constructor
    · rw [openBefore_append, openBefore_append, if_pos hy, if_pos hy, hlast, hlast, append_assoc,
        append_assoc, ← hfirst]
      exact h.line
    · intro next v w hw
      rw [openBefore_append, openBefore_append, if_pos hy, if_pos hy, hlast, hlast, append_assoc,
        append_assoc]
      exact h.place next (y ++ v) w (by rw [hfirst, ← hw, append_assoc])
  · have hfirst : firstLine newline (y ++ z) = firstLine newline y :=
      firstLine_append_of_ne hy z
    have hopen : openBefore (x ++ y) = openBefore (x' ++ y) := by
      rw [openBefore_append, openBefore_append, if_neg hy, if_neg hy, ← hfirst, h.line]
    constructor
    · rw [hopen, lastLine_append x x' hy]
    · intro next v w _
      rw [hopen, lastLine_append x x' hy]

theorem SameAfter.placeBetween_eq {x x' y z : CodeUnits} (h : SameAfter x x' (y ++ z)) (next : Bool) :
    placeBetween next (x ++ y) z = placeBetween next (x' ++ y) z := by
  have := h.append.place next [] _ rfl
  rwa [append_nil, append_nil] at this

theorem SameAfter.openAtEnd_eq {x x' y : CodeUnits} (h : SameAfter x x' y) :
    openAtEnd (x ++ y) = openAtEnd (x' ++ y) := by
  have := (SameAfter.append (z := []) (by rwa [append_nil])).line
  rwa [firstLine_nil, append_nil, append_nil] at this

/-! ### Cuts -/

/-- The line has no effect on the fences. -/
def Inert (fence : Option Fence) (line : CodeUnits) : Prop := afterLine fence line = fence

instance (fence : Option Fence) (line : CodeUnits) : Decidable (Inert fence line) :=
  inferInstanceAs (Decidable (_ = _))

theorem inert_nil (fence : Option Fence) : Inert fence [] := rfl

/-- A cut outside of the blocks: at the beginning of a line, at the end of one, or in a line that
is no fence, and of which no part is. -/
def PlainCut (x y : CodeUnits) : Prop :=
  let u := lastLine newline x
  let w := firstLine newline y
  (u = [] ∧ openBefore x = none) ∨ (w = [] ∧ openAtEnd x = none) ∨
    (openBefore x = none ∧ Inert none u ∧ Inert none w ∧ Inert none (u ++ w))

/-- A cut inside the block of a fence: at the beginning of a line, or in a line that does not
close it, and of which no part does. -/
def SplitCut (f : Fence) (x y : CodeUnits) : Prop :=
  let u := lastLine newline x
  let w := firstLine newline y
  openBefore x = some f ∧ (u = [] ∨ (Inert (some f) u ∧ Inert (some f) w ∧ Inert (some f) (u ++ w)))

/-- The text with the line that opens the block again. -/
def reopening (f : Fence) : CodeUnits := f.openLine ++ [newline]

/-- What closes the block after a text. -/
def closing (f : Fence) (x : CodeUnits) : CodeUnits :=
  (if CodeUnits.endsWithNewline x = true then [] else [newline]) ++ f.indent ++ f.marker ++
    [newline]

variable {fence : Option Fence}

theorem fenceHere_of_closed (next : Bool) {u : CodeUnits}
    (h : afterLine fence u = none) : fenceHere next fence u [] = none := by
  cases fence with
  | some f => exact h
  | none => rw [fenceHere, append_nil, h, ite_self]

theorem fenceHere_of_inert (next : Bool) {u w : CodeUnits} (h : Inert none (u ++ w)) :
    fenceHere next none u w = none := by
  rw [Inert] at h
  rw [fenceHere, h, ite_self]

variable {f : Fence}

/-- In an open block every place is, but for the end of the line that closes it. -/
theorem fenceHere_some_of_inert (next : Bool) {u w : CodeUnits} (h : w = [] → Inert (some f) u) :
    fenceHere next (some f) u w = some f := by
  rw [fenceHere]
  split
  · rename_i hw
    exact h hw
  · rfl

variable {x y : CodeUnits}

/-- After a plain cut the text is read as a text of its own. -/
theorem PlainCut.sameAfter (h : PlainCut x y) : SameAfter x [] y := by
  rcases h with ⟨hu, hopen⟩ | ⟨hw, hend⟩ | ⟨hopen, -, hw, huw⟩
  · exact ⟨by rw [hu, hopen]; rfl, fun next z w _ => by rw [hu, hopen]; rfl⟩
  · constructor
    · rw [hw, append_nil]
      exact hend
    · intro next z w hzw
      rw [hw] at hzw
      obtain ⟨rfl, rfl⟩ := append_eq_nil_iff.mp hzw
      rw [append_nil, fenceHere_of_closed next hend]
      exact (fenceHere_of_closed next (inert_nil none)).symm
  · constructor
    · rw [hopen]
      exact huw.trans hw.symm
    · intro next z w hzw
      rw [← hzw] at hw huw
      rw [hopen, fenceHere_of_inert next (by rwa [append_assoc])]
      exact (fenceHere_of_inert next hw).symm

/-- Two cuts inside the block of one fence. -/
theorem SplitCut.sameAfter_of {x x' y : CodeUnits} (h : SplitCut f x y) (h' : SplitCut f x' y) :
    SameAfter x x' y := by
  have hline : ∀ {x}, SplitCut f x y →
      afterLine (openBefore x) (lastLine newline x ++ firstLine newline y) =
        afterLine (some f) (firstLine newline y) := by
    rintro x ⟨hopen, hu | ⟨-, hw, huw⟩⟩
    · rw [hopen, hu, nil_append]
    · rw [hopen, huw, hw]
  have hplace : ∀ {x}, SplitCut f x y → ∀ next z w, z ++ w = firstLine newline y →
      fenceHere next (openBefore x) (lastLine newline x ++ z) w = fenceHere next (some f) z w := by
    rintro x ⟨hopen, hu | ⟨-, hw, huw⟩⟩ next z w hzw
    · rw [hopen, hu, nil_append]
    · rw [← hzw] at hw huw
      rw [hopen, fenceHere_some_of_inert next, fenceHere_some_of_inert next]
      · rintro rfl
        rwa [append_nil] at hw
      · rintro rfl
        rwa [append_nil] at huw
  exact ⟨(hline h).trans (hline h').symm,
    fun next z w hzw => (hplace h next z w hzw).trans (hplace h' next z w hzw).symm⟩

/-! ### Fences that were matched -/

/-- The opening line of the fence is one, and what closes it does. -/
structure Fence.Matched (f : Fence) : Prop where
  /-- The opening line has no end of line in it. -/
  line : newline ∉ f.openLine
  /-- The opening line opens this fence. -/
  opens : afterLine none f.openLine = some f
  /-- The closing line has no end of line in it. -/
  closeLine : newline ∉ f.indent ++ f.marker
  closes : afterLine (some f) (f.indent ++ f.marker) = none

theorem eq_of_mem_takeWhile {c x : UInt16} {text : CodeUnits} (h : x ∈ text.takeWhile (· = c)) : x = c := by
  have := mem_takeWhile_imp h
  exact of_decide_eq_true this

variable {c : UInt16}

theorem markerOf_spec {text marker : CodeUnits} (h : markerOf c text = some marker) :
    3 ≤ marker.length ∧ ∀ x ∈ marker, x = c := by
  rw [markerOf] at h
  split at h
  · rename_i hrun
    obtain rfl := some.inj h
    exact ⟨hrun.1, fun x hx => eq_of_mem_takeWhile hx⟩
  · cases h

variable {marker : CodeUnits}

theorem markerOf_self (h3 : 3 ≤ marker.length)
    (hall : ∀ x ∈ marker, x = c) : markerOf c marker = some marker := by
  have htake : marker.takeWhile (· = c) = marker :=
    takeWhile_eq_self_iff.mpr fun x hx => decide_eq_true (hall x hx)
  simp only [markerOf, htake, drop_length, all_nil, and_true, if_pos h3]

theorem markerOf_other {c d : UInt16} (hne : c ≠ d) (hall : ∀ x ∈ marker, x = c) :
    markerOf d marker = none := by
  have htake : marker.takeWhile (· = d) = [] := by
    cases marker with
    | nil => rfl
    | cons x marker =>
      obtain rfl := hall x mem_cons_self
      simp [hne]
  simp [markerOf, htake]

/-- The indent and the marker are matched by themselves. -/
theorem matchFence_closing {line indent marker : CodeUnits} (h : matchFence line = some (indent, marker)) :
    matchFence (indent ++ marker) = some (indent, marker) ∧ newline ∉ indent ++ marker := by
  rw [matchFence] at h
  split at h
  · rename_i hindent
    obtain ⟨m, hm, heq⟩ := map_eq_some_iff.mp h
    obtain ⟨rfl, rfl⟩ := Prod.mk.inj heq
    generalize hi : line.takeWhile (· = space) = indent at *
    have hspaces : ∀ x ∈ indent, x = space := by
      intro x hx
      rw [← hi] at hx
      exact eq_of_mem_takeWhile hx
    obtain ⟨c, hc, hmarker⟩ : ∃ c, (c = backtick ∨ c = tilde) ∧
        markerOf c (line.drop indent.length) = some m := by
      rcases or_eq_some_iff.mp hm with hm | ⟨-, hm⟩
      · exact ⟨_, .inl rfl, hm⟩
      · exact ⟨_, .inr rfl, hm⟩
    obtain ⟨h3, hall⟩ := markerOf_spec hmarker
    have htake : (indent ++ m).takeWhile (· = space) = indent := by
      rw [takeWhile_append_of_pos fun x hx => decide_eq_true (hspaces x hx)]
      cases m with
      | nil => simp
      | cons x m =>
        obtain rfl := hall x mem_cons_self
        have hne : x ≠ space := by rcases hc with rfl | rfl <;> decide
        simp [hne]
    constructor
    · rw [matchFence, htake, if_pos hindent, drop_left]
      rcases hc with rfl | rfl
      · rw [markerOf_self h3 hall]
        rfl
      · rw [markerOf_other (by decide) hall, markerOf_self h3 hall]
        rfl
    · intro hnl
      rcases mem_append.mp hnl with hnl | hnl
      · exact absurd (hspaces _ hnl) (by decide)
      · have := hall _ hnl
        rcases hc with rfl | rfl <;> exact absurd this (by decide)
  · cases h

variable {line : CodeUnits}

theorem matched_of_afterLine (hline : newline ∉ line) (h : afterLine none line = some f) : f.Matched := by
  have hopen := h
  rw [afterLine] at h
  cases hm : matchFence line with
  | none => rw [hm] at h; cases h
  | some m =>
    rw [hm] at h
    obtain rfl := some.inj h
    obtain ⟨hclosing, hnl⟩ := matchFence_closing hm
    refine ⟨hline, hopen, hnl, ?_⟩
    rw [afterLine, hclosing]
    simp [Fence.closedBy]

variable {lines : List CodeUnits}

theorem matched_of_afterLines (hlines : ∀ l ∈ lines, newline ∉ l) (hfence : ∀ f, fence = some f → f.Matched)
    (h : afterLines fence lines = some f) : f.Matched := by
  induction lines generalizing fence with
  | nil => exact hfence f h
  | cons line rest ih =>
    obtain ⟨hline, hrest⟩ := forall_mem_cons.mp hlines
    refine ih hrest (fun g hg => ?_) h
    cases fence with
    | none => exact matched_of_afterLine hline hg
    | some f' =>
      rcases afterLine_some f' line with hnone | hsome
      · rw [hnone] at hg
        cases hg
      · obtain rfl := some.inj (hsome.symm.trans hg)
        exact hfence _ rfl

theorem matched_of_openBefore {x : CodeUnits} (h : openBefore x = some f) : f.Matched :=
  matched_of_afterLines (fun _ hl => not_mem_of_mem_fullLines hl) (fun _ hf => by cases hf) h

/-! ### Closing and opening again -/

theorem openBefore_concat_newline (x : CodeUnits) : openBefore (x ++ [newline]) = openAtEnd x := by
  rw [openBefore, (cut_concat_nl x).1, afterLines_append, ← openBefore]
  rfl

theorem openAtEnd_concat_newline (x : CodeUnits) : openAtEnd (x ++ [newline]) = openAtEnd x := by
  rw [openAtEnd, (cut_concat_nl x).2, openBefore_concat_newline, afterLine_nil]

theorem openAtEnd_append_line (x : CodeUnits) (h : newline ∉ line) :
    openAtEnd (x ++ line) = afterLine (openBefore x) (lastLine newline x ++ line) := by
  have hrest := restLines_of_not_mem h
  rw [openAtEnd, openBefore_append, if_pos hrest, (cut_append_of_restLines_nil x hrest).2,
    firstLine_eq_self hrest]

theorem Fence.Matched.openBefore_reopening (h : f.Matched) : openBefore (reopening f) = some f := by
  have := openAtEnd_append_line [] h.line
  rw [nil_append, lastLine_nil, nil_append] at this
  rw [reopening, openBefore_concat_newline, this]
  exact h.opens

theorem SplitCut.openAtEnd (h : SplitCut f x y) : openAtEnd x = some f := by
  obtain ⟨hopen, hu⟩ := h
  rw [Markdown.openAtEnd, hopen]
  rcases hu with hu | ⟨hu, -⟩
  · rw [hu, afterLine_nil]
  · exact hu

theorem SplitCut.matched (h : SplitCut f x y) : f.Matched :=
  matched_of_openBefore h.1

theorem SplitCut.sameAfter (h : SplitCut f x y) : SameAfter x (reopening f) y :=
  h.sameAfter_of ⟨h.matched.openBefore_reopening, .inl (cut_concat_nl _).2⟩

theorem PlainCut.balanced (h : PlainCut x y) : Balanced x := by
  rcases h with ⟨hu, hopen⟩ | ⟨-, hend⟩ | ⟨hopen, hu, -⟩
  · rw [Balanced, openAtEnd, hu, hopen, afterLine_nil]
  · exact hend
  · rw [Balanced, openAtEnd, hopen]
    exact hu

theorem SplitCut.balanced (h : SplitCut f x y) : Balanced (x ++ closing f x) := by
  have hclose : ∀ z, openBefore z = some f → lastLine newline z = [] →
      Markdown.openAtEnd (z ++ (f.indent ++ f.marker) ++ [newline]) = none := by
    intro z hopen hlast
    rw [openAtEnd_concat_newline, openAtEnd_append_line _ h.matched.closeLine, hopen, hlast, nil_append]
    exact h.matched.closes
  rw [Balanced, closing]
  split
  · rename_i hnl
    rw [CodeUnits.endsWithNewline, decide_eq_true_eq] at hnl
    obtain ⟨x', rfl⟩ := getLast?_eq_some_iff.mp hnl
    have := hclose _ h.1 (cut_concat_nl x').2
    simpa only [nil_append, append_assoc] using this
  · have := hclose (x ++ [newline]) (by rw [openBefore_concat_newline, h.openAtEnd]) (cut_concat_nl x).2
    simpa only [append_assoc] using this

/-! ### Characters inside -/

/-- Of each character of a text, is it inside a block? -/
def insideMarks (text : CodeUnits) : List Bool := (List.range text.length).map (isInside text)

@[simp] theorem length_insideMarks (text : CodeUnits) : (insideMarks text).length = text.length := by
  simp [insideMarks]

theorem getElem_insideMarks {text : CodeUnits} {k : ℕ} (h : k < (insideMarks text).length) :
    (insideMarks text)[k] = isInside text k := by
  simp [insideMarks]

theorem isInside_eq (hy : y ≠ []) :
    isInside (x ++ y) x.length = (placeBetween true x y).isSome := isInside_append x hy

/-- What comes after two texts has the same characters inside. -/
theorem SameAfter.insideMarks {x x' y : CodeUnits} (h : SameAfter x x' y) :
    (insideMarks (x ++ y)).drop x.length = (insideMarks (x' ++ y)).drop x'.length := by
  refine ext_getElem (by simp) fun k hk hk' => ?_
  rw [length_drop, length_insideMarks, length_append] at hk
  rw [getElem_drop, getElem_drop, getElem_insideMarks, getElem_insideMarks]
  have hrest : y.drop k ≠ [] := by
    rw [Ne, drop_eq_nil_iff]
    omega
  have hsplit (x : CodeUnits) : isInside (x ++ y) (x.length + k) =
      (placeBetween true (x ++ y.take k) (y.drop k)).isSome := by
    have hlen : (y.take k).length = k := length_take_of_le (by omega)
    rw [← isInside_eq hrest, append_assoc, take_append_drop, length_append, hlen]
  rw [hsplit, hsplit, SameAfter.placeBetween_eq (by rwa [take_append_drop])]

/-- What comes before two texts has the same characters inside, if their first lines do not matter. -/
theorem insideMarks_take {x y z : CodeUnits}
    (h : ∀ x₁ x₂, x = x₁ ++ x₂ → x₂ ≠ [] → placeBetween true x₁ (x₂ ++ y) = placeBetween true x₁ (x₂ ++ z)) :
    (insideMarks (x ++ y)).take x.length = (insideMarks (x ++ z)).take x.length := by
  refine ext_getElem (by simp) fun k hk hk' => ?_
  rw [length_take, length_insideMarks, length_append] at hk
  rw [getElem_take, getElem_take, getElem_insideMarks, getElem_insideMarks]
  have hx : x = x.take k ++ x.drop k := (take_append_drop k x).symm
  have hlen : (x.take k).length = k := length_take_of_le (by omega)
  have hne : x.drop k ≠ [] := by
    rw [Ne, drop_eq_nil_iff]
    omega
  have hsplit (y : CodeUnits) : isInside (x ++ y) k =
      (placeBetween true (x.take k) (x.drop k ++ y)).isSome := by
    rw [← isInside_eq (by simp [hne]), ← append_assoc, take_append_drop, hlen]
  rw [hsplit, hsplit, h _ _ hx hne]

theorem PlainCut.marks_take (h : PlainCut x y) : (insideMarks (x ++ y)).take x.length = insideMarks x := by
  have hself : insideMarks x = (insideMarks (x ++ [])).take x.length := by
    rw [append_nil, take_of_length_le (by simp)]
  rw [hself]
  refine insideMarks_take fun x₁ x₂ hx hne => ?_
  subst hx
  by_cases hrest : restLines newline x₂ = []
  · have hlast : lastLine newline (x₁ ++ x₂) = lastLine newline x₁ ++ x₂ := by
      rw [(cut_append_of_restLines_nil x₁ hrest).2, firstLine_eq_self hrest]
    have hopen : openBefore (x₁ ++ x₂) = openBefore x₁ := by rw [openBefore_append, if_pos hrest]
    rw [placeBetween, placeBetween, firstLine_append_of_nil hrest, firstLine_append_of_nil hrest,
      firstLine_nil, append_nil]
    rcases h with ⟨hu, -⟩ | ⟨hw, -⟩ | ⟨hnone, hu, -, huw⟩
    · rw [hlast] at hu
      exact absurd (append_eq_nil_iff.mp hu).2 hne
    · rw [hw, append_nil]
    · rw [hlast] at hu huw
      rw [hopen] at hnone
      rw [hnone, fenceHere_of_inert true hu, fenceHere_of_inert true (by rwa [← append_assoc])]
  · rw [placeBetween, placeBetween, firstLine_append_of_ne hrest, firstLine_append_of_ne hrest]

theorem SplitCut.marks_take (h : SplitCut f x y) (z : CodeUnits) :
    (insideMarks (x ++ y)).take x.length = (insideMarks (x ++ z)).take x.length := by
  refine insideMarks_take fun x₁ x₂ hx hne => ?_
  subst hx
  by_cases hrest : restLines newline x₂ = []
  · have hopen : openBefore x₁ = some f := by
      rw [← h.1, openBefore_append, if_pos hrest]
    have hsome (y : CodeUnits) : fenceHere true (some f) (lastLine newline x₁) (x₂ ++ y) = some f :=
      fenceHere_some_of_inert true fun h => absurd (append_eq_nil_iff.mp h).1 hne
    rw [placeBetween, placeBetween, firstLine_append_of_nil hrest, firstLine_append_of_nil hrest, hopen,
      hsome, hsome]
  · rw [placeBetween, placeBetween, firstLine_append_of_ne hrest, firstLine_append_of_ne hrest]

/-! ### Blanks -/

theorem markerOf_of_isBlank (hc : CodeUnits.isSpace c = false) {text : CodeUnits}
    (h : ∀ x ∈ text, CodeUnits.isSpace x = true) : markerOf c text = none := by
  have hnil : text.takeWhile (· = c) = [] := by
    refine eq_nil_iff_forall_not_mem.mpr fun x hx => ?_
    have hspace := h x (( takeWhile_prefix _).subset hx)
    rw [eq_of_mem_takeWhile hx, hc] at hspace
    cases hspace
  simp [markerOf, hnil]

/-- A blank line is no fence. -/
theorem inert_of_isBlank (h : ∀ x ∈ line, CodeUnits.isSpace x = true) (fence : Option Fence) :
    Inert fence line := by
  have hrest : ∀ n, ∀ x ∈ line.drop n, CodeUnits.isSpace x = true := fun n x hx => h x (mem_of_mem_drop hx)
  have hmatch : matchFence line = none := by
    simp only [matchFence, markerOf_of_isBlank (show CodeUnits.isSpace backtick = false by decide) (hrest _),
      markerOf_of_isBlank (show CodeUnits.isSpace tilde = false by decide) (hrest _), or_none,
      map_none, ite_self]
  rw [Inert, afterLine, hmatch]

theorem afterLines_of_isBlank (h : ∀ l ∈ lines, ∀ x ∈ l, CodeUnits.isSpace x = true)
    (fence : Option Fence) : afterLines fence lines = fence := by
  induction lines with
  | nil => rfl
  | cons line rest ih =>
    obtain ⟨hline, hrest⟩ := forall_mem_cons.mp h
    rw [afterLines, foldl_cons, inert_of_isBlank hline, ← afterLines, ih hrest]

theorem openBefore_of_isBlank {x : CodeUnits} (h : ∀ c ∈ x, CodeUnits.isSpace c = true) : openBefore x = none :=
  afterLines_of_isBlank (fun _ hl c hc => h c (mem_of_mem_splitLines (fullLines_subset x hl) hc)) none

/-- In a blank text nothing is inside a block. -/
theorem insideMarks_of_isBlank {x : CodeUnits} (h : ∀ c ∈ x, CodeUnits.isSpace c = true) :
    insideMarks x = List.replicate x.length false := by
  refine eq_replicate_iff.mpr ⟨length_insideMarks x, fun b hb => ?_⟩
  obtain ⟨k, hk, rfl⟩ := mem_iff_getElem.mp hb
  rw [getElem_insideMarks]
  rw [length_insideMarks] at hk
  have hlen : (x.take k).length = k := length_take_of_le (by omega)
  have hne : x.drop k ≠ [] := by
    rw [Ne, drop_eq_nil_iff]
    omega
  have htake : ∀ c ∈ x.take k, CodeUnits.isSpace c = true := fun c hc => h c (mem_of_mem_take hc)
  have hline : Inert none (lastLine newline (x.take k) ++ firstLine newline (x.drop k)) := by
    refine inert_of_isBlank (fun c hc => ?_) none
    rcases mem_append.mp hc with hc | hc
    · exact htake c (mem_of_mem_splitLines (lastLine_mem _) hc)
    · exact h c (mem_of_mem_drop (mem_of_mem_splitLines mem_cons_self hc))
  have := isInside_eq (x := x.take k) hne
  rw [take_append_drop, hlen, placeBetween, openBefore_of_isBlank htake,
    fenceHere_of_inert true hline] at this
  exact this

/-! ### Harmless cuts -/

/-- If the cut is in a line, neither the line nor a part of it has an effect on the fences. -/
def HarmlessCut (x y : CodeUnits) : Prop :=
  let u := lastLine newline x
  let w := firstLine newline y
  u ≠ [] → w ≠ [] →
    Inert (openBefore x) u ∧ Inert (openBefore x) w ∧ Inert (openBefore x) (u ++ w)

instance (x y : CodeUnits) : Decidable (HarmlessCut x y) := inferInstanceAs (Decidable (_ → _))

/-- What is left of a blank beginning is read on its own. -/
theorem plainCut_of_isBlank (h : ∀ c ∈ x, CodeUnits.isSpace c = true)
    (hcut : HarmlessCut x y) : PlainCut x y := by
  have hopen := openBefore_of_isBlank h
  have hlast : ∀ c ∈ lastLine newline x, CodeUnits.isSpace c = true := fun c hc =>
    h c (mem_of_mem_splitLines (lastLine_mem _) hc)
  by_cases hu : lastLine newline x = []
  · exact .inl ⟨hu, hopen⟩
  · by_cases hw : firstLine newline y = []
    · refine .inr (.inl ⟨hw, ?_⟩)
      rw [openAtEnd, hopen]
      exact inert_of_isBlank hlast none
    · rw [HarmlessCut, hopen] at hcut
      exact .inr (.inr ⟨hopen, hcut hu hw⟩)

/-- A place outside of the blocks of `x ++ y` is a plain cut, of `x ++ y` and of what `y` becomes
when it goes on. -/
theorem plainCut_of_outside {x y z : CodeUnits} (hplace : y ≠ [] → placeBetween false x y = none)
    (hend : y = [] → openAtEnd x = none) (hfirst : firstLine newline z = [] → firstLine newline y = [])
    (hcut : HarmlessCut x z) : PlainCut x z := by
  rw [placeBetween] at hplace
  rw [openAtEnd] at hend
  rw [PlainCut, openAtEnd]
  rw [HarmlessCut] at hcut
  generalize openBefore x = fence at *
  by_cases hu : lastLine newline x = []
  · refine .inl ⟨hu, ?_⟩
    rw [hu, afterLine_nil] at hend
    rw [hu] at hplace
    by_cases hy : y = []
    · exact hend hy
    · have := hplace hy
      cases fence with
      | none => rfl
      | some f =>
        rw [fenceHere_some_of_inert false fun _ => inert_nil _] at this
        cases this
  · right
    by_cases hw : firstLine newline z = []
    · refine .inl ⟨hw, ?_⟩
      by_cases hy : y = []
      · exact hend hy
      · have := hplace hy
        rw [hfirst hw] at this
        cases fence with
        | none => rwa [fenceHere, if_neg (fun h => hu h.1), append_nil] at this
        | some f => exact this
    · obtain ⟨hiu, hiw, hiuw⟩ := hcut hu hw
      have hnone : fence = none := by
        by_cases hy : y = []
        · rw [← hend hy]
          exact hiu.symm
        · have := hplace hy
          cases fence with
          | none => rfl
          | some f =>
            rw [fenceHere_some_of_inert false fun _ => hiu] at this
            cases this
      subst hnone
      exact .inr ⟨rfl, hiu, hiw, hiuw⟩

/-- A place inside a block of `x ++ y` is a cut of the block. -/
theorem splitCut_of_inside {x y z : CodeUnits} (hplace : placeBetween false x y = some f)
    (hlast : Inert (openBefore x) (lastLine newline x)) (hy : HarmlessCut x y)
    (hz : HarmlessCut x z) : SplitCut f x z := by
  rw [placeBetween] at hplace
  rw [SplitCut]
  rw [HarmlessCut] at hy hz
  have hopen : openBefore x = some f := by
    generalize openBefore x = fence at *
    cases fence with
    | some f' =>
      rwa [fenceHere_some_of_inert false fun _ => hlast] at hplace
    | none =>
      rw [fenceHere] at hplace
      split at hplace
      · cases hplace
      · rename_i hu
        have hu : lastLine newline x ≠ [] := fun h => hu ⟨h, rfl⟩
        have hline : Inert none (lastLine newline x ++ firstLine newline y) := by
          by_cases hw : firstLine newline y = []
          · rwa [hw, append_nil]
          · exact (hy hu hw).2.2
        rw [hline] at hplace
        cases hplace
  rw [hopen] at hlast hz
  refine ⟨hopen, ?_⟩
  by_cases hu : lastLine newline x = []
  · exact .inl hu
  · right
    by_cases hw : firstLine newline z = []
    · rw [hw, append_nil]
      exact ⟨hlast, inert_nil _, hlast⟩
    · exact hz hu hw

end Foxclaw.Markdown
