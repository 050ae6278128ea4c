import Foxclaw.Markdown.Fences

/-!
# Fences line by line

Which fence is open at a place of a text is decided by the lines before it and by the line the
place is in. The spans of `parseFenceSpans` say the same, and the binary search over them finds
the one span there is.

## What is proved

* `findFenceSpanAt_append` — the span that is found at a place, by the lines around it.
* `isInside_append` — which characters are inside a block, by the lines around them.
-/

namespace Foxclaw.Markdown

open CodeUnits (newline)
open Bool Lines

/-! ### Lines -/

variable (fence : Option Fence)

/-- The fence that is open after a line. -/
def afterLine (line : CodeUnits) : Option Fence :=
  match matchFence line with
  | none => fence
  | some (indent, marker) =>
    match fence with
    | none => some { openLine := line, marker, indent }
    | some f => if f.closedBy marker then none else some f

def afterLines (lines : List CodeUnits) : Option Fence := lines.foldl afterLine fence

variable (text : CodeUnits)

/-- The fence that is open where the last line of a text begins. -/
def openBefore : Option Fence := afterLines none (fullLines newline text)

def openAtEnd : Option Fence :=
  afterLine (openBefore text) (lastLine newline text)

/-- Every fence of the text is closed. -/
def Balanced : Prop := openAtEnd text = none

/-- Is the character inside a fenced block? -/
def isInside (index : ℕ) : Bool :=
  (parseFenceSpans text).any fun s => s.start ≤ index && index < s.stop

theorem afterLine_some (f : Fence) (line : CodeUnits) :
    afterLine (some f) line = none ∨ afterLine (some f) line = some f := by
  rw [afterLine]
  split
  · exact .inr rfl
  · dsimp only
    split
    · exact .inl rfl
    · exact .inr rfl

theorem afterLine_nil : afterLine fence [] = fence := rfl

theorem afterLines_append (ls ls' : List CodeUnits) :
    afterLines fence (ls ++ ls') = afterLines (afterLines fence ls) ls' := List.foldl_append

/-! ### Spans -/

/-- Where the open fence begins, or the next one can. -/
def earliest (fence : Option (ℕ × Fence)) (offset : ℕ) : ℕ := fence.elim offset (·.1)

theorem spansFrom_none (length offset : ℕ) (line : CodeUnits) (rest : List CodeUnits) :
    spansFrom length none offset (line :: rest) =
      spansFrom length ((afterLine none line).map (offset, ·)) (offset + line.length + 1) rest := by
  rw [spansFrom, afterLine]
  cases matchFence line <;> rfl

theorem spansFrom_some (length offset start : ℕ) (f : Fence) (line : CodeUnits) (rest : List CodeUnits) :
    spansFrom length (some (start, f)) offset (line :: rest) =
      if afterLine (some f) line = none then
        { f with start, stop := offset + line.length } ::
          spansFrom length none (offset + line.length + 1) rest
      else spansFrom length (some (start, f)) (offset + line.length + 1) rest := by
  rw [spansFrom, afterLine]
  cases hm : matchFence line with
  | none => rfl
  | some m =>
    by_cases hc : f.closedBy m.2 = true <;> simp [hc]

/-- The open fence, if any, began on an earlier line. -/
def Began (fence : Option (ℕ × Fence)) (offset : ℕ) : Prop := ∀ f, fence = some f → f.1 < offset

theorem began_none (offset : ℕ) : Began none offset := fun _ h => by cases h

theorem began_some {start offset : ℕ} (f : Fence) (h : start < offset) : Began (some (start, f)) offset := by
  intro g hg
  obtain rfl := Option.some.inj hg
  exact h

theorem began_afterLine (line : CodeUnits) {offset next : ℕ} (h : offset < next) :
    Began ((afterLine none line).map (offset, ·)) next := by
  intro f hf
  obtain ⟨_, _, rfl⟩ := Option.map_eq_some_iff.mp hf
  exact h

variable {fence : Option (ℕ × Fence)} {lines : List CodeUnits}

variable {length : ℕ} {offset : ℕ}

/-- The spans are in order and apart from each other. -/
theorem spansFrom_sorted (hbegan : Began fence offset) (hlength : offset + span lines = length + 1) :
    (spansFrom length fence offset lines).Pairwise (fun a b => a.stop ≤ b.start) ∧
      ∀ s ∈ spansFrom length fence offset lines,
        earliest fence offset ≤ s.start ∧ s.start ≤ s.stop ∧ s.stop ≤ length := by
  induction lines generalizing fence offset with
  | nil =>
    cases fence with
    | none => simp [spansFrom]
    | some f =>
      have hstart := hbegan f rfl
      simp only [span, List.map_nil, List.sum_nil, Nat.add_zero] at hlength
      simp [spansFrom, earliest]
      omega
  | cons line rest ih =>
    have hnext : offset + line.length + 1 + span rest = length + 1 := by
      simp only [span, List.map_cons, List.sum_cons] at hlength ⊢
      omega
    cases fence with
    | none =>
      rw [spansFrom_none]
      have hbegan' : Began ((afterLine none line).map (offset, ·)) (offset + line.length + 1) :=
        began_afterLine line (by omega)
      obtain ⟨hpair, hall⟩ := ih hbegan' hnext
      refine ⟨hpair, fun s hs => ?_⟩
      obtain ⟨hstart, hstop⟩ := hall s hs
      refine ⟨Nat.le_trans ?_ hstart, hstop⟩
      cases afterLine none line with
      | none => simp only [Option.map_none, earliest, Option.elim]; omega
      | some f => exact Nat.le_refl _
    | some f =>
      obtain ⟨start, f⟩ := f
      have hstart : start < offset := hbegan _ rfl
      rw [spansFrom_some]
      split
      · obtain ⟨hpair, hall⟩ := ih (began_none _) hnext
        refine ⟨List.pairwise_cons.mpr ⟨fun s hs => ?_, hpair⟩, fun s hs => ?_⟩
        · have := (hall s hs).1
          simp only [earliest, Option.elim] at this
          dsimp only
          omega
        · rcases List.mem_cons.mp hs with rfl | hs
          · simp only [earliest, Option.elim]
            omega
          · have := hall s hs
            simp only [earliest, Option.elim] at this ⊢
            omega
      · exact ih (began_some f (by omega)) hnext

/-! ### Places -/

/-- A span of the fence begins before `j` and ends after `i`. -/
def CoversAt (spans : List FenceSpan) (i j : ℕ) (f : Fence) : Prop :=
  ∃ s ∈ spans, s.start < j ∧ i < s.stop ∧ s.toFence = f

theorem coversAt_cons (s : FenceSpan) (spans : List FenceSpan) (i j : ℕ) (f : Fence) :
    CoversAt (s :: spans) i j f ↔
      (s.start < j ∧ i < s.stop ∧ s.toFence = f) ∨ CoversAt spans i j f := by
  simp only [CoversAt, List.mem_cons, exists_eq_or_imp]

/-- The fence whose block a place is inside of, by the fence open before its line and by the parts
of the line before and after it; with `next`, a place where the block begins is inside. -/
def fenceHere (next : Bool) (fence : Option Fence) (u w : CodeUnits) : Option Fence :=
  match fence with
  | some f => if w = [] then afterLine (some f) u else some f
  | none => if u = [] ∧ next = false then none else afterLine none (u ++ w)

theorem not_coversAt_of_le {length offset i j : ℕ} (hj : j ≤ offset)
    (hlength : offset + span lines = length + 1) (f : Fence) :
    ¬ CoversAt (spansFrom length none offset lines) i j f := by
  rintro ⟨s, hs, hstart, -⟩
  have := ((spansFrom_sorted (began_none offset) hlength).2 s hs).1
  simp only [earliest, Option.elim] at this
  omega

/-- A block that is open goes on to the end of some later line. -/
theorem coversAt_open {length start i j : ℕ} {f : Fence} (hstart : start < j) (hi : i < offset)
    (hj : j ≤ offset) (hend : i < length) (hlength : offset + span lines = length + 1) (g : Fence) :
    CoversAt (spansFrom length (some (start, f)) offset lines) i j g ↔ f = g := by
  induction lines generalizing offset with
  | nil => simp [CoversAt, spansFrom, hstart, hend]
  | cons line rest ih =>
    have hnext : offset + line.length + 1 + span rest = length + 1 := by
      simp only [span, List.map_cons, List.sum_cons] at hlength ⊢
      omega
    rw [spansFrom_some]
    split
    · constructor
      · rintro ⟨s, hs, hcover⟩
        rcases List.mem_cons.mp hs with rfl | hs
        · exact hcover.2.2
        · exact absurd ⟨s, hs, hcover⟩ (not_coversAt_of_le (by omega) hnext g)
      · rintro rfl
        exact ⟨_, List.mem_cons_self, hstart, by dsimp only; omega, rfl⟩
    · exact ih (by omega) (by omega) hnext

/-- The blocks around a place in a line. -/
theorem coversAt_line {u w : CodeUnits} {next : Bool} {tail : List CodeUnits} (g : Fence)
    (hbegan : Began fence offset) (hlength : offset + ((u ++ w).length + 1 + span tail) = length + 1)
    (hend : offset + u.length < length) :
    CoversAt (spansFrom length fence offset ((u ++ w) :: tail)) (offset + u.length)
        (offset + u.length + next.toNat) g ↔ fenceHere next (fence.map (·.2)) u w = some g := by
  have hnext : next.toNat ≤ 1 := by cases next <;> decide
  have hrest : offset + (u ++ w).length + 1 + span tail = length + 1 := by omega
  have hle : offset + u.length + next.toNat ≤ offset + (u ++ w).length + 1 := by
    rw [List.length_append]
    omega
  cases fence with
  | none =>
    rw [spansFrom_none]
    simp only [Option.map_none, fenceHere]
    cases hopen : afterLine none (u ++ w) with
    | none =>
      rw [ite_self]
      exact iff_of_false (not_coversAt_of_le hle hrest g) (by simp)
    | some f =>
      rw [Option.map_some]
      by_cases hu : u = [] ∧ next = false
      · -- the block begins at the place
        rw [if_pos hu]
        refine iff_of_false ?_ (by simp)
        rintro ⟨s, hs, hstart, -⟩
        have := ((spansFrom_sorted (began_some f (by omega)) hrest).2 s hs).1
        simp only [earliest, Option.elim] at this
        simp only [hu.1, hu.2, List.length_nil, toNat_false] at hstart
        omega
      · rw [if_neg hu, Option.some.injEq]
        refine coversAt_open ?_ (by rw [List.length_append]; omega) hle hend hrest g
        cases next with
        | true => simp only [toNat_true]; omega
        | false =>
          have := List.length_pos_iff.mpr fun h => hu ⟨h, rfl⟩
          omega
  | some f =>
    obtain ⟨start, f⟩ := f
    have hstart : start < offset := hbegan _ rfl
    rw [spansFrom_some]
    simp only [Option.map_some, fenceHere]
    split
    · -- the line ends the block, and the place is inside unless it is the end of the line
      rename_i hclose
      rw [coversAt_cons, or_iff_left (not_coversAt_of_le hle hrest g)]
      split
      · rename_i hw
        rw [hw, List.append_nil] at hclose ⊢
        rw [hclose]
        exact iff_of_false (fun h => absurd h.2.1 (Nat.lt_irrefl _)) (by simp)
      · rename_i hw
        have hpos := List.length_pos_iff.mpr hw
        rw [Option.some.injEq]
        refine ⟨fun h => h.2.2, fun h => ⟨?_, ?_, h⟩⟩
        · dsimp only
          omega
        · dsimp only
          rw [List.length_append]
          omega
    · rename_i hopen
      have hstay := (afterLine_some f (u ++ w)).resolve_left hopen
      rw [coversAt_open (by omega) (by rw [List.length_append]; omega) hle hend hrest]
      split
      · rename_i hw
        rw [hw, List.append_nil] at hstay
        rw [hstay, Option.some.injEq]
      · rw [Option.some.injEq]

/-- The blocks around a place, by the lines around it. -/
theorem coversAt_iff {u w : CodeUnits} {next : Bool} {tail : List CodeUnits} (g : Fence)
    {before : List CodeUnits} {offset i : ℕ} (hbegan : Began fence offset)
    (hlength : offset + span (before ++ (u ++ w) :: tail) = length + 1)
    (hi : i = offset + span before + u.length) (hend : i < length) :
    CoversAt (spansFrom length fence offset (before ++ (u ++ w) :: tail)) i (i + next.toNat) g ↔
      fenceHere next (afterLines (fence.map (·.2)) before) u w = some g := by
  induction before generalizing fence offset with
  | nil =>
    simp only [span, List.map_nil, List.sum_nil, Nat.add_zero] at hi
    subst hi
    rw [List.nil_append, span, List.map_cons, List.sum_cons, ← span] at hlength
    exact coversAt_line g hbegan hlength hend
  | cons line before ih =>
    rw [List.cons_append, span, List.map_cons, List.sum_cons, ← span] at hlength
    rw [span, List.map_cons, List.sum_cons, ← span] at hi
    have hrest : offset + line.length + 1 + span (before ++ (u ++ w) :: tail) = length + 1 := by omega
    have hi' : i = offset + line.length + 1 + span before + u.length := by omega
    rw [List.cons_append, afterLines, List.foldl_cons, ← afterLines]
    cases fence with
    | none =>
      rw [spansFrom_none, ih (began_afterLine line (by omega)) hrest hi', Option.map_none]
      cases afterLine none line <;> rfl
    | some f =>
      obtain ⟨start, f⟩ := f
      have hstart : start < offset := hbegan _ rfl
      rw [spansFrom_some, Option.map_some]
      split
      · rename_i hclose
        have hbefore : ¬ (start < i + next.toNat ∧ i < offset + line.length ∧ f = g) := by omega
        rw [hclose, coversAt_cons, or_iff_right hbefore]
        exact ih (began_none _) hrest hi'
      · rename_i hopen
        rw [(afterLine_some f line).resolve_left hopen]
        exact ih (began_some f (by omega)) hrest hi'

/-! ### The search -/

/-- What the search has left out is not around the place. -/
def LeftOut (spans : List FenceSpan) (index low high : ℕ) : Prop :=
  ∀ k (h : k < spans.length),
    (k < low → spans[k].stop ≤ index) ∧ (high ≤ k → index ≤ spans[k].start)

variable {spans : List FenceSpan}

theorem LeftOut.none {index low high : ℕ} (h : LeftOut spans index low high)
    (hlow : high ≤ low) : ∀ s ∈ spans, ¬ (s.start < index ∧ index < s.stop) := by
  intro s hs hin
  obtain ⟨k, hk, rfl⟩ := List.mem_iff_getElem.mp hs
  obtain ⟨hbefore, hafter⟩ := h k hk
  omega

variable {index : ℕ}

/-- The search finds a span around the place, if there is one. -/
theorem searchSpan_spec (hpair : spans.Pairwise (fun a b => a.stop ≤ b.start))
    (hle : ∀ s ∈ spans, s.start ≤ s.stop) {fuel low high : ℕ} (hhigh : high ≤ spans.length)
    (hfuel : high - low ≤ fuel) (hout : LeftOut spans index low high) :
    (∀ s, searchSpan spans index fuel low high = some s →
        s ∈ spans ∧ s.start < index ∧ index < s.stop) ∧
      (searchSpan spans index fuel low high = none →
        ∀ s ∈ spans, ¬ (s.start < index ∧ index < s.stop)) := by
  induction fuel generalizing low high with
  | zero => exact ⟨fun s h => (by cases h), fun _ => hout.none (by omega)⟩
  | succ fuel ih =>
    rw [searchSpan]
    split
    · rename_i hlow
      have hmid : (low + (high - 1)) / 2 < spans.length := by omega
      dsimp only
      rw [List.getElem?_eq_getElem hmid]
      dsimp only
      generalize hm : (low + (high - 1)) / 2 = mid at hmid ⊢
      have hordered := List.pairwise_iff_getElem.mp hpair
      have hself := hle _ (List.getElem_mem hmid)
      split
      · rename_i hstart
        refine ih (by omega) (by omega) fun k hk => ⟨(hout k hk).1, fun hmk => ?_⟩
        rcases Nat.eq_or_lt_of_le hmk with rfl | hlt
        · exact hstart
        · have := hordered mid k hmid hk hlt
          omega
      · split
        · rename_i hstop
          refine ih hhigh (by omega) fun k hk => ⟨fun hkm => ?_, (hout k hk).2⟩
          rcases Nat.eq_or_lt_of_le (Nat.le_of_lt_succ hkm) with rfl | hlt
          · exact hstop
          · have := hordered k mid hk hmid hlt
            omega
        · refine ⟨fun s hs => ?_, fun h => (by cases h)⟩
          obtain rfl := Option.some.inj hs
          exact ⟨List.getElem_mem hmid, by omega, by omega⟩
    · exact ⟨fun s h => (by cases h), fun _ => hout.none (by omega)⟩

theorem parseFenceSpans_sorted (text : CodeUnits) :
    (parseFenceSpans text).Pairwise (fun a b => a.stop ≤ b.start) ∧
      ∀ s ∈ parseFenceSpans text, s.start ≤ s.stop ∧ s.stop ≤ text.length := by
  have hlength : 0 + span (splitLines newline text) = text.length + 1 := by
    rw [← length_eq_span, Nat.zero_add]
  obtain ⟨hpair, hall⟩ := spansFrom_sorted (began_none 0) hlength
  exact ⟨hpair, fun s hs => (hall s hs).2⟩

/-- `findFenceSpanAt` finds a span around the place, if there is one. -/
theorem findFenceSpanAt_spec (text : CodeUnits) (index : ℕ) :
    (∀ s, findFenceSpanAt (parseFenceSpans text) index = some s →
        s ∈ parseFenceSpans text ∧ s.start < index ∧ index < s.stop) ∧
      (findFenceSpanAt (parseFenceSpans text) index = none →
        ∀ s ∈ parseFenceSpans text, ¬ (s.start < index ∧ index < s.stop)) := by
  obtain ⟨hpair, hall⟩ := parseFenceSpans_sorted text
  exact searchSpan_spec hpair (fun s hs => (hall s hs).1) (Nat.le_refl _) (Nat.le_refl _)
    fun k hk => ⟨by omega, by omega⟩

/-- Spans that are around one place are one, since they are apart. -/
theorem span_unique {text : CodeUnits} {s s' : FenceSpan} (hs : s ∈ parseFenceSpans text)
    (hs' : s' ∈ parseFenceSpans text) (h : s.start < index ∧ index < s.stop)
    (h' : s'.start < index ∧ index < s'.stop) : s = s' := by
  obtain ⟨k, hk, rfl⟩ := List.mem_iff_getElem.mp hs
  obtain ⟨k', hk', rfl⟩ := List.mem_iff_getElem.mp hs'
  have hordered := List.pairwise_iff_getElem.mp (parseFenceSpans_sorted text).1
  rcases Nat.lt_trichotomy k k' with hlt | rfl | hlt
  · have := hordered k k' hk hk' hlt
    omega
  · rfl
  · have := hordered k' k hk' hk hlt
    omega

/-- The span around a place is the one that is found. -/
theorem findFenceSpanAt_of_mem {text : CodeUnits} {s : FenceSpan} (hs : s ∈ parseFenceSpans text)
    (h : s.start < index ∧ index < s.stop) : findFenceSpanAt (parseFenceSpans text) index = some s := by
  obtain ⟨hsome, hnone⟩ := findFenceSpanAt_spec text index
  cases hfind : findFenceSpanAt (parseFenceSpans text) index with
  | none => exact absurd h (hnone hfind s hs)
  | some s' =>
    obtain ⟨hs', h'⟩ := hsome s' hfind
    rw [span_unique hs' hs h' h]

/-- The span that is found, by the fence. -/
theorem findFenceSpanAt_eq_some_iff (text : CodeUnits) (index : ℕ) (f : Fence) :
    (findFenceSpanAt (parseFenceSpans text) index).map (·.toFence) = some f ↔
      CoversAt (parseFenceSpans text) index index f := by
  obtain ⟨hsome, hnone⟩ := findFenceSpanAt_spec text index
  cases hfind : findFenceSpanAt (parseFenceSpans text) index with
  | none =>
    refine iff_of_false (by simp) ?_
    rintro ⟨s, hs, hstart, hstop, -⟩
    exact hnone hfind s hs ⟨hstart, hstop⟩
  | some s =>
    obtain ⟨hs, hstart, hstop⟩ := hsome s hfind
    rw [Option.map_some, Option.some.injEq]
    constructor
    · rintro rfl
      exact ⟨s, hs, hstart, hstop, rfl⟩
    · rintro ⟨s', hs', hstart', hstop', rfl⟩
      rw [span_unique hs hs' ⟨hstart, hstop⟩ ⟨hstart', hstop'⟩]

/-! ### Places in a text -/

variable {y : CodeUnits}

/-- The blocks around a place between two texts. -/
theorem coversAt_append (x : CodeUnits) (hy : y ≠ []) (next : Bool) (f : Fence) :
    CoversAt (parseFenceSpans (x ++ y)) x.length (x.length + next.toNat) f ↔
      fenceHere next (openBefore x) (lastLine newline x) (firstLine newline y) = some f := by
  have hlength : 0 + span (fullLines newline x ++
      (lastLine newline x ++ firstLine newline y) :: restLines newline y) =
      (x ++ y).length + 1 := by
    rw [← splitLines_append, ← length_eq_span, Nat.zero_add]
  rw [parseFenceSpans, splitLines_append]
  refine coversAt_iff f (began_none 0) hlength ?_ ?_
  · rw [Nat.zero_add]
    exact length_eq x
  · have := List.length_pos_iff.mpr hy
    rw [List.length_append]
    omega

theorem findFenceSpanAt_append (x : CodeUnits) (hy : y ≠ []) :
    (findFenceSpanAt (parseFenceSpans (x ++ y)) x.length).map (·.toFence) =
      fenceHere false (openBefore x) (lastLine newline x) (firstLine newline y) := by
  refine Option.ext fun f => ?_
  rw [findFenceSpanAt_eq_some_iff, ← coversAt_append x hy]
  rfl

/-- Which characters are inside a block. -/
theorem isInside_append (x : CodeUnits) (hy : y ≠ []) :
    isInside (x ++ y) x.length =
      (fenceHere true (openBefore x) (lastLine newline x) (firstLine newline y)).isSome := by
  rw [Bool.eq_iff_iff, Option.isSome_iff_exists]
  simp only [← coversAt_append x hy, isInside, List.any_eq_true, CoversAt, toNat_true,
    and_eq_true, decide_eq_true_eq]
  constructor
  · rintro ⟨s, hs, hstart, hstop⟩
    exact ⟨_, s, hs, by omega, hstop, rfl⟩
  · rintro ⟨_, s, hs, hstart, hstop, -⟩
    exact ⟨s, hs, by omega, hstop⟩

end Foxclaw.Markdown
