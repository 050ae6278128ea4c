import Foxclaw.Agents.ApplyPatchUpdate
import Mathlib.Algebra.Order.BigOperators.Group.List
import Mathlib.Algebra.Order.Group.Nat

/-!
# What an update hunk changes

The chunks of an update hunk are found at ranges of lines of the file, and the result should be the
file with each range replaced by the new lines of its chunk (`patched`). Four things stand in the
way of it (`Harmless`): a chunk marked end-of-file is found before the end of an earlier match; a
chunk that is found only without its blank last line loses the one of its new lines as well; an
insertion stands in front of a blank last line of the file which a chunk replaces too; and when the
result ends in a blank line, that line is taken for the end of the line before it.

## What is proved

* `spliced_eq_of_not_covered`, `around_of_covered` — what the splices make of the file.
* `touchesOnlyMatches_iff` — the result is the patched file exactly when the hunk is harmless.
-/

namespace Foxclaw.ApplyPatch

open Function List LineEdits

/-- The edits that the chunks ask for. -/
def wanted (located : List Located) : List Replacement :=
  located.map fun cr => { cr.2 with lines := cr.1.newLines }

/-- The chunk replaces a blank line that ends the file. -/
def CoversBlankEnd (lines : List Line) (cr : Located) : Prop :=
  lines.getLast? = some [] ∧ ¬ IsInsertion cr ∧ 0 < cr.2.removed ∧ cr.2.stop = lines.length

/-- All new lines are blank. -/
def AllBlank (cr : Located) : Prop := ∀ line ∈ cr.1.newLines, line = []

/-- The matched ranges are disjoint and in the order of the chunks. -/
def MatchesInOrder (located : List Located) : Prop :=
  located.Pairwise fun a b => ¬ IsInsertion a → ¬ IsInsertion b → a.2.stop ≤ b.2.start

/-- The result is the file with the matched ranges replaced and the insertions placed. -/
structure TouchesOnlyMatches (lines : List Line) (located : List Located) (result : List Line) : Prop where
  inOrder : MatchesInOrder located
  result_eq : result = patched (wanted located) lines
  /-- Every line outside of the ranges is there. -/
  kept : (keptFrom (wanted located) 0 lines).Sublist result
  /-- The new lines of every chunk are there in one piece. -/
  pieces : ∀ cr ∈ located, cr.1.newLines <:+: result

/-- A chunk that replaces a blank last line of the file comes behind all insertions of anything but
blank lines, and replaces no other line when there are any. -/
def Unburied (lines : List Line) (located : List Located) : Prop :=
  located.Pairwise fun a b =>
    (CoversBlankEnd lines a → IsInsertion b → AllBlank b) ∧
      (CoversBlankEnd lines b → 1 < b.2.removed → IsInsertion a → AllBlank a)

/-- What keeps an update hunk from going wrong. -/
structure Harmless (lines : List Line) (located : List Located) : Prop where
  /-- Behind the matches before it, there are as many lines as an end-of-file chunk looks for. -/
  room : located.Pairwise fun a b =>
    ¬ IsInsertion a → ¬ IsInsertion b → b.1.isEndOfFile = true → a.2.stop + b.2.removed ≤ lines.length
  /-- No chunk is found only without its blank last line when its new lines end in one as well. -/
  whole : ∀ cr ∈ located, cr.2.removed < cr.1.oldLines.length → cr.1.newLines.getLast? ≠ some []
  /-- No insertion of other than blank lines stands inside the range of a match. -/
  unburied : Unburied lines located
  /-- The patched file does not end in a blank line. -/
  ended : (patched (wanted located) lines).getLast? ≠ some []

section Spliced

variable {lines : List Line} {located : List Located}

/-- Insertions go in front of a blank end. -/
theorem insertionIndex_of_blankEnd (hlast : lines.getLast? = some []) :
    insertionIndex lines + 1 = lines.length := by
  rw [insertionIndex, if_pos hlast]
  have hpos : 0 < lines.length := by
    rw [length_pos_iff]
    rintro rfl
    cases hlast
  omega

theorem insertionIndex_cases (lines : List Line) :
    insertionIndex lines = lines.length ∨
      lines.getLast? = some [] ∧ insertionIndex lines + 1 = lines.length := by
  by_cases hlast : lines.getLast? = some []
  · exact .inr ⟨hlast, insertionIndex_of_blankEnd hlast⟩
  · rw [insertionIndex, if_neg hlast]
    exact .inl rfl

variable {cr : Located}

theorem Placed.start_of_insertion (h : Placed lines cr) (hins : IsInsertion cr) :
    cr.2.start = insertionIndex lines ∧ cr.2.removed = 0 := by
  rw [h.insertion hins]
  exact ⟨rfl, rfl⟩

theorem Placed.not_insertion (h : Placed lines cr) (hne : cr.2.start ≠ insertionIndex lines) :
    ¬ IsInsertion cr := fun hins => hne (h.start_of_insertion hins).1

/-- A match that reaches over the place of the insertions covers the blank end. -/
theorem Placed.covers (h : Placed lines cr) (hlt : insertionIndex lines < cr.2.stop)
    (hle : cr.2.start ≤ insertionIndex lines) : CoversBlankEnd lines cr := by
  have hstop := h.stop_le
  have hpos : 0 < cr.2.removed := by
    rw [Edit.stop] at hlt
    omega
  refine ⟨?_, fun hins => ?_, hpos, ?_⟩
  · rcases insertionIndex_cases lines with hi | ⟨hlast, -⟩
    · omega
    · exact hlast
  · have := (h.start_of_insertion hins).2
    omega
  · rcases insertionIndex_cases lines with hi | ⟨-, hi⟩ <;> omega

theorem inOrder_filter (horder : MatchesInOrder located) {p : Replacement → Bool}
    (hp : ∀ cr ∈ located, p cr.2 = true → ¬ IsInsertion cr) : InOrder ((located.map Prod.snd).filter p) := by
  rw [List.filter_map, InOrder, pairwise_map]
  refine (horder.filter _).imp_of_mem fun {a b} ha hb hab => ?_
  have ha := mem_filter.mp ha
  have hb := mem_filter.mp hb
  exact hab (hp a ha.1 ha.2) (hp b hb.1 hb.2)

/-- The replacements below and above the place of the insertions are matches, and in order. -/
theorem sorted_eq (hplaced : ∀ cr ∈ located, Placed lines cr) (horder : MatchesInOrder located) :
    InOrder ((located.map Prod.snd).filter fun r => r.start < insertionIndex lines) ∧
      InOrder ((located.map Prod.snd).filter fun r => insertionIndex lines < r.start) ∧
      (located.map Prod.snd).insertionSort (fun a b => a.start ≤ b.start) =
        ((located.map Prod.snd).filter fun r => r.start < insertionIndex lines) ++
          (((located.map Prod.snd).filter fun r => r.start = insertionIndex lines) ++
            (located.map Prod.snd).filter fun r => insertionIndex lines < r.start) := by
  have hbelow : InOrder ((located.map Prod.snd).filter fun r => r.start < insertionIndex lines) := by
    refine inOrder_filter horder fun cr hcr hlt => (hplaced cr hcr).not_insertion ?_
    have := of_decide_eq_true hlt
    omega
  have habove : InOrder ((located.map Prod.snd).filter fun r => insertionIndex lines < r.start) := by
    refine inOrder_filter horder fun cr hcr hlt => (hplaced cr hcr).not_insertion ?_
    have := of_decide_eq_true hlt
    omega
  refine ⟨hbelow, habove, StableSort.insertionSort_eq_split Edit.start _ ?_ ?_⟩
  · exact hbelow.imp fun {a b} h => a.start_le_stop.trans h
  · exact habove.imp fun {a b} h => a.start_le_stop.trans h

/-- Unless the blank end is covered, the splices make the patched file. -/
theorem spliced_eq_of_not_covered (hplaced : ∀ cr ∈ located, Placed lines cr)
    (horder : MatchesInOrder located) (hnot : ∀ cr ∈ located, ¬ CoversBlankEnd lines cr) :
    ((located.map Prod.snd).insertionSort fun a b => a.start ≤ b.start).foldr Edit.splice lines =
      patched (located.map Prod.snd) lines := by
  obtain ⟨hbelow, habove, hsort⟩ := sorted_eq hplaced horder
  have hstop : ∀ r ∈ located.map Prod.snd, r.start ≤ insertionIndex lines →
      r.stop ≤ insertionIndex lines := by
    intro r hr hle
    obtain ⟨cr, hcr, rfl⟩ := List.mem_map.mp hr
    by_contra hlt
    exact hnot cr hcr ((hplaced cr hcr).covers (by omega) hle)
  rw [← patched_insertionSort, foldr_splice]
  · rw [hsort]
    refine pairwise_append.mpr ⟨hbelow, pairwise_append.mpr ⟨?_, habove, ?_⟩, ?_⟩
    · refine pairwise_of_forall_mem_list fun a ha b hb => ?_
      simp only [mem_filter, decide_eq_true_eq] at ha hb
      have := hstop a ha.1 ha.2.le
      omega
    · intro a ha b hb
      simp only [mem_filter, decide_eq_true_eq] at ha hb
      have := hstop a ha.1 ha.2.le
      omega
    · intro a ha b hb
      simp only [mem_filter, mem_append, decide_eq_true_eq] at ha hb
      have := hstop a ha.1 ha.2.le
      omega
  · intro r hr
    obtain ⟨cr, hcr, rfl⟩ := List.mem_map.mp ((mem_insertionSort _).mp hr)
    exact (hplaced cr hcr).stop_le

/-- A line for a blank one: nothing changes when the lines in front of it are blank as well. -/
theorem tail_append_blank_iff (ls : List Line) : (ls ++ [[]]).tail = ls ↔ ∀ line ∈ ls, line = [] := by
  induction ls with
  | nil => simp
  | cons line ls ih =>
    rw [cons_append, tail_cons]
    constructor
    · intro h
      cases ls with
      | nil =>
        rw [nil_append, List.cons.injEq] at h
        simp [← h.1]
      | cons line' ls =>
        rw [cons_append, List.cons.injEq] at h
        have hrest := ih.mp (by rw [cons_append, tail_cons]; exact h.2)
        simpa [← h.1, hrest line' mem_cons_self] using hrest
    · intro h
      have hline : line = [] := h line mem_cons_self
      have hrest := ih.mpr fun l hl => h l (mem_cons_of_mem _ hl)
      subst hline
      cases ls with
      | nil => rfl
      | cons line' ls =>
        have hline' : line' = [] := h line' (by simp)
        rw [cons_append, tail_cons] at hrest
        rw [cons_append, hrest, hline']

/-- The replacements around one that covers the blank end of the file. -/
structure Around (lines : List Line) (m : Replacement) (rs : List Replacement) (front inserts : List Replacement)
    (ends : List Replacement) : Prop where
  sort_eq : rs.insertionSort (fun a b => a.start ≤ b.start) = front ++ m :: (inserts ++ ends)
  front_inOrder : InOrder front
  front_le : ∀ r ∈ front, r.stop ≤ m.start
  start_le : m.start ≤ insertionIndex lines
  inserts_at : ∀ r ∈ inserts, r.start = insertionIndex lines ∧ r.removed = 0
  ends_at : ∀ r ∈ ends, r.start = insertionIndex lines + 1 ∧ r.removed = 0

variable {before after : List Located} {m : Located}

/-- The replacements that come after the one that covers the blank end. -/
def behind (lines : List Line) (before : List Located) (m : Located) (after : List Located) :
    List Replacement :=
  ((if m.2.removed = 1 then after else before ++ after).map Prod.snd).filter fun r =>
    r.start = insertionIndex lines

theorem around_of_covered (hplaced : ∀ cr ∈ before ++ m :: after, Placed lines cr)
    (horder : MatchesInOrder (before ++ m :: after)) (hm : CoversBlankEnd lines m) :
    ∃ front ends, Around lines m.2 ((before ++ m :: after).map Prod.snd) front
      (behind lines before m after) ends := by
  obtain ⟨hlast, hins, hpos, hstop⟩ := hm
  have hlen := insertionIndex_of_blankEnd hlast
  have hstart : m.2.start ≤ insertionIndex lines := by
    rw [Edit.stop] at hstop
    omega
  obtain ⟨hbelow, -, hsort⟩ := sorted_eq hplaced horder
  obtain ⟨-, hcons, hcross⟩ := pairwise_append.mp horder
  have hB : ∀ r ∈ before.map Prod.snd,
      (r.start = insertionIndex lines ∧ r.removed = 0) ∨ r.stop ≤ m.2.start := by
    intro r hr
    obtain ⟨cr, hcr, rfl⟩ := List.mem_map.mp hr
    by_cases hcrins : IsInsertion cr
    · exact .inl ((hplaced cr (mem_append_left _ hcr)).start_of_insertion hcrins)
    · exact .inr (hcross cr hcr m mem_cons_self hcrins hins)
  have hA : ∀ r ∈ after.map Prod.snd, r.removed = 0 ∧
      (r.start = insertionIndex lines ∨ r.start = insertionIndex lines + 1) := by
    intro r hr
    obtain ⟨cr, hcr, rfl⟩ := List.mem_map.mp hr
    have hcrplaced := hplaced cr (mem_append_right _ (mem_cons_of_mem _ hcr))
    by_cases hcrins : IsInsertion cr
    · have := hcrplaced.start_of_insertion hcrins
      exact ⟨this.2, .inl this.1⟩
    · have hle := (pairwise_cons.mp hcons).1 cr hcr hins hcrins
      have hend := hcrplaced.stop_le
      rw [Edit.stop] at hend
      omega
  -- below the insertions there is nothing from behind `m`
  have hAbelow : (after.map Prod.snd).filter (fun r => r.start < insertionIndex lines) = [] := by
    rw [filter_eq_nil_iff]
    intro r hr
    have := (hA r hr).2
    simp only [decide_eq_true_eq]
    omega
  have hends : ∀ r ∈ ((before ++ m :: after).map Prod.snd).filter (fun r => insertionIndex lines < r.start),
      r.start = insertionIndex lines + 1 ∧ r.removed = 0 := by
    intro r hr
    rw [mem_filter, decide_eq_true_eq, map_append, map_cons] at hr
    obtain ⟨hr, hgt⟩ := hr
    rcases mem_append.mp hr with hr | hr
    · have hcase := hB r hr
      have := r.start_le_stop
      omega
    · rcases mem_cons.mp hr with rfl | hr
      · omega
      · have := hA r hr
        omega
  have hfrontBelow : InOrder ((before.map Prod.snd).filter fun r => r.start < insertionIndex lines) := by
    refine hbelow.sublist ?_
    rw [map_append, filter_append]
    exact sublist_append_left _ _
  by_cases hone : m.2.removed = 1
  · -- `m` replaces the last line only: the insertions before it stay in front
    have hmstart : m.2.start = insertionIndex lines := by
      rw [Edit.stop] at hstop
      omega
    have hle : ∀ r ∈ before.map Prod.snd, r.stop ≤ m.2.start := by
      intro r hr
      rcases hB r hr with hr | hr
      · rw [Edit.stop]
        omega
      · exact hr
    refine ⟨((before.map Prod.snd).filter fun r => r.start < insertionIndex lines) ++
      (before.map Prod.snd).filter fun r => r.start = insertionIndex lines, _, ?_, ?_, ?_, hstart, ?_, hends⟩
    · rw [hsort, behind, if_pos hone]
      simp only [map_append, map_cons, filter_append, filter_cons, hmstart, lt_self_iff_false,
        decide_false, decide_true, hAbelow, Bool.false_eq_true, ↓reduceIte, append_nil, append_assoc,
        cons_append]
    · refine pairwise_append.mpr ⟨hfrontBelow, ?_, ?_⟩
      · refine pairwise_of_forall_mem_list fun a ha b hb => ?_
        simp only [mem_filter, decide_eq_true_eq] at ha hb
        have := hle a ha.1
        omega
      · intro a ha b hb
        simp only [mem_filter, decide_eq_true_eq] at ha hb
        have := hle a ha.1
        omega
    · intro r hr
      rcases mem_append.mp hr with hr | hr
      · exact hle r (mem_filter.mp hr).1
      · exact hle r (mem_filter.mp hr).1
    · intro r hr
      rw [behind, if_pos hone, mem_filter, decide_eq_true_eq] at hr
      exact ⟨hr.2, (hA r hr.1).1⟩
  · have hlt : m.2.start < insertionIndex lines := by
      rw [Edit.stop] at hstop
      omega
    refine ⟨(before.map Prod.snd).filter fun r => r.start < insertionIndex lines, _, ?_, hfrontBelow, ?_, hstart,
      ?_, hends⟩
    · rw [hsort, behind, if_neg hone]
      simp only [map_append, map_cons, filter_append, filter_cons, hlt, hlt.ne,
        decide_false, decide_true, hAbelow, Bool.false_eq_true, ↓reduceIte, append_assoc, cons_append,
        nil_append]
    · intro r hr
      rw [mem_filter, decide_eq_true_eq] at hr
      rcases hB r hr.1 with hcase | hcase
      · omega
      · exact hcase
    · intro r hr
      rw [behind, if_neg hone, mem_filter, decide_eq_true_eq, map_append, mem_append] at hr
      rcases hr.1 with hr' | hr'
      · rcases hB r hr' with hcase | hcase
        · exact hcase
        · have := r.start_le_stop
          omega
      · exact ⟨hr.2, (hA r hr').1⟩

/-- What the splices make of the file when its blank end is covered. -/
theorem Around.spliced {m : Replacement} {rs front inserts ends : List Replacement}
    (h : Around lines m rs front inserts ends) (hlast : lines.getLast? = some [])
    (hstop : m.stop = lines.length) :
    ((rs.insertionSort fun a b => a.start ≤ b.start).foldr Edit.splice lines).length =
        (patched rs lines).length ∧
      ((rs.insertionSort fun a b => a.start ≤ b.start).foldr Edit.splice lines = patched rs lines ↔
        ∀ r ∈ inserts, ∀ line ∈ r.lines, line = []) := by
  have hlines : lines.dropLast ++ [[]] = lines := by
    have hne : lines ≠ [] := by
      rintro rfl
      cases hlast
    rw [getLast?_eq_some_getLast hne, Option.some.injEq] at hlast
    rw [← hlast, dropLast_append_getLast]
  have hI : lines.dropLast.length = insertionIndex lines := by
    rw [length_dropLast, insertionIndex, if_pos hlast]
  have hlen : lines.length = lines.dropLast.length + 1 := by
    rw [← congrArg List.length hlines, length_append, length_singleton]
  have hstart : m.start ≤ lines.dropLast.length := hI ▸ h.start_le
  have hinserts : ∀ r ∈ inserts, r.start = lines.dropLast.length ∧ r.removed = 0 := hI ▸ h.inserts_at
  have hends : ∀ r ∈ ends, r.start = lines.dropLast.length + 1 ∧ r.removed = 0 := hI ▸ h.ends_at
  have hspliced := foldr_splice_overrun [] h.front_inOrder h.front_le hstart (hstop.trans hlen) hinserts hends
  have hpatched := patched_overrun [] h.front_le hstart (hstop.trans hlen) hinserts hends
  rw [hlines] at hspliced hpatched
  rw [← patched_insertionSort rs, h.sort_eq, hspliced, hpatched]
  refine ⟨by simp, ?_⟩
  rw [append_cancel_left_eq, append_cancel_left_eq, append_cancel_right_eq, tail_append_blank_iff]
  constructor
  · intro hall r hr line hline
    exact hall line (mem_flatMap.mpr ⟨r, hr, hline⟩)
  · intro hall line hline
    obtain ⟨r, hr, hline⟩ := mem_flatMap.mp hline
    exact hall r hr line hline

theorem Placed.lines_of_insertion (h : Placed lines cr) (hins : IsInsertion cr) :
    cr.2.lines = cr.1.newLines := by
  rw [h.insertion hins]

/-- One match covers the blank end, so that the condition is about what comes after it. -/
theorem unburied_iff (hplaced : ∀ cr ∈ before ++ m :: after, Placed lines cr)
    (horder : MatchesInOrder (before ++ m :: after)) (hm : CoversBlankEnd lines m) :
    Unburied lines (before ++ m :: after) ↔
      ∀ r ∈ behind lines before m after, ∀ line ∈ r.lines, line = [] := by
  obtain ⟨hlast, hins, hpos, hstop⟩ := id hm
  obtain ⟨-, hcons, hcross⟩ := pairwise_append.mp horder
  have hI := insertionIndex_of_blankEnd hlast
  have hB : ∀ cr ∈ before, ¬ IsInsertion cr → cr.2.stop ≤ m.2.start := fun cr hcr hcrins =>
    hcross cr hcr m mem_cons_self hcrins hins
  have hA : ∀ cr ∈ after, ¬ IsInsertion cr → lines.length ≤ cr.2.start := fun cr hcr hcrins =>
    hstop ▸ (pairwise_cons.mp hcons).1 cr hcr hins hcrins
  have honlyB : ∀ cr ∈ before, ¬ CoversBlankEnd lines cr := by
    rintro cr hcr ⟨-, hcrins, -, hcrstop⟩
    have := hB cr hcr hcrins
    rw [Edit.stop] at hstop
    omega
  have honlyA : ∀ cr ∈ after, ¬ CoversBlankEnd lines cr := by
    rintro cr hcr ⟨-, hcrins, hcrpos, hcrstop⟩
    have := hA cr hcr hcrins
    rw [Edit.stop] at hcrstop
    omega
  have hplacedB : ∀ cr ∈ before, Placed lines cr := fun cr hcr => hplaced cr (mem_append_left _ hcr)
  have hplacedA : ∀ cr ∈ after, Placed lines cr := fun cr hcr =>
    hplaced cr (mem_append_right _ (mem_cons_of_mem _ hcr))
  constructor
  · intro h r hr
    obtain ⟨-, hmafter, hbm⟩ := pairwise_append.mp h
    rw [behind, mem_filter, decide_eq_true_eq] at hr
    obtain ⟨cr, hcr, rfl⟩ := List.mem_map.mp hr.1
    have hafter : cr ∈ after → ∀ line ∈ cr.2.lines, line = [] := by
      intro hmem
      have hcrins : IsInsertion cr := by
        by_contra hno
        have := hA cr hmem hno
        omega
      rw [(hplacedA cr hmem).lines_of_insertion hcrins]
      exact ((pairwise_cons.mp hmafter).1 cr hmem).1 hm hcrins
    split at hcr
    · exact hafter hcr
    · rcases mem_append.mp hcr with hmem | hmem
      · have hcrins : IsInsertion cr := by
          by_contra hno
          have := hB cr hmem hno
          have := cr.2.start_le_stop
          rw [Edit.stop] at hstop
          omega
        rw [(hplacedB cr hmem).lines_of_insertion hcrins]
        exact (hbm cr hmem m mem_cons_self).2 hm (by omega) hcrins
      · exact hafter hmem
  · intro h
    have hblank : ∀ cr, Placed lines cr → IsInsertion cr →
        cr ∈ (if m.2.removed = 1 then after else before ++ after) → AllBlank cr := by
      intro cr hcr hcrins hmem line hline
      refine h cr.2 ?_ line (by rwa [hcr.lines_of_insertion hcrins])
      rw [behind, mem_filter, decide_eq_true_eq]
      exact ⟨List.mem_map_of_mem hmem, (hcr.start_of_insertion hcrins).1⟩
    have hnone : ∀ {l : List Located}, (∀ cr ∈ l, ¬ CoversBlankEnd lines cr) →
        Unburied lines l := fun {l} hl =>
      pairwise_of_forall_mem_list fun a ha b hb => ⟨fun hc => absurd hc (hl a ha), fun hc => absurd hc (hl b hb)⟩
    refine pairwise_append.mpr ⟨hnone honlyB, pairwise_cons.mpr ⟨?_, hnone honlyA⟩, ?_⟩
    · intro b hb
      refine ⟨fun _ hbins => hblank b (hplacedA b hb) hbins ?_, fun hc => absurd hc (honlyA b hb)⟩
      split
      · exact hb
      · exact mem_append_right _ hb
    · intro a ha b hb
      refine ⟨fun hc => absurd hc (honlyB a ha), fun hc hmore hains => ?_⟩
      rcases mem_cons.mp hb with rfl | hb
      · refine hblank a (hplacedB a ha) hains ?_
        rw [if_neg (by omega)]
        exact mem_append_left _ ha
      · exact absurd hc (honlyA b hb)

/-- What the splices make of the file. -/
theorem spliced (hplaced : ∀ cr ∈ located, Placed lines cr) (horder : MatchesInOrder located) :
    (((located.map Prod.snd).insertionSort fun a b => a.start ≤ b.start).foldr Edit.splice lines).length =
        (patched (located.map Prod.snd) lines).length ∧
      (((located.map Prod.snd).insertionSort fun a b => a.start ≤ b.start).foldr Edit.splice lines =
          patched (located.map Prod.snd) lines ↔ Unburied lines located) := by
  by_cases hcovered : ∃ m ∈ located, CoversBlankEnd lines m
  · obtain ⟨m, hmem, hm⟩ := hcovered
    obtain ⟨before, after, rfl⟩ := append_of_mem hmem
    obtain ⟨front, ends, haround⟩ := around_of_covered hplaced horder hm
    rw [unburied_iff hplaced horder hm]
    exact haround.spliced hm.1 hm.2.2.2
  · have hnot : ∀ cr ∈ located, ¬ CoversBlankEnd lines cr := fun cr hcr hc => hcovered ⟨cr, hcr, hc⟩
    rw [spliced_eq_of_not_covered hplaced horder hnot]
    exact ⟨rfl, iff_of_true rfl (pairwise_of_forall_mem_list fun a ha b hb =>
      ⟨fun hc => absurd hc (hnot a ha), fun hc => absurd hc (hnot b hb)⟩)⟩

end Spliced

/-! ### The lines of the result -/

variable {lines : List Line} {located : List Located}

theorem matchesInOrder_iff
    (hplaced : ∀ cr ∈ located, Placed lines cr)
    (hpairs : located.Pairwise fun a b =>
      ¬ IsInsertion a → ¬ IsInsertion b → ¬ AtEnd b → a.2.stop ≤ b.2.start) :
    MatchesInOrder located ↔ located.Pairwise fun a b =>
      ¬ IsInsertion a → ¬ IsInsertion b → b.1.isEndOfFile = true →
        a.2.stop + b.2.removed ≤ lines.length := by
  constructor
  · intro horder
    refine horder.imp_of_mem fun {a b} ha hb hab hains hbins heof => ?_
    have hle := hab hains hbins
    have hstop := (hplaced b hb).stop_le
    rw [Edit.stop] at hstop
    omega
  · intro hroom
    refine (hroom.and hpairs).imp_of_mem fun {a b} _ hb hab hains hbins => ?_
    by_cases hend : AtEnd b
    · have hle := hab.1 hains hbins hend.1
      have hstop := (hplaced b hb).stop_of_atEnd hend
      rw [Edit.stop] at hstop
      omega
    · exact hab.2 hains hbins hend

/-- Without a lost blank line, the edits made are those asked for. -/
theorem wanted_eq (hplaced : ∀ cr ∈ located, Placed lines cr)
    (hwhole : ∀ cr ∈ located, cr.2.removed < cr.1.oldLines.length → cr.1.newLines.getLast? ≠ some []) :
    wanted located = located.map Prod.snd := by
  refine map_congr_left fun cr hcr => ?_
  have hlines := (hplaced cr hcr).lines_eq
  rw [if_neg fun h => hwhole cr hcr h.1 h.2] at hlines
  rw [← hlines]

theorem keptFrom_wanted (located : List Located) (p : ℕ) (lines : List Line) :
    keptFrom (wanted located) p lines = keptFrom (located.map Prod.snd) p lines := by
  induction lines generalizing p with
  | nil => rfl
  | cons line lines ih =>
    rw [keptFrom, keptFrom, ih, keptAt, keptAt, wanted, List.any_map, List.any_map]
    rfl

/-- With a lost blank line, the patched file is longer. -/
theorem length_wanted_lt (hplaced : ∀ cr ∈ located, Placed lines cr)
    (hlost : ∃ cr ∈ located, cr.2.removed < cr.1.oldLines.length ∧ cr.1.newLines.getLast? = some []) :
    (patched (located.map Prod.snd) lines).length < (patched (wanted located) lines).length := by
  have hstart : ∀ cr ∈ located, cr.2.start ≤ lines.length := fun cr hcr =>
    cr.2.start_le_stop.trans (hplaced cr hcr).stop_le
  have hmade : ∀ r ∈ located.map Prod.snd, r.start ≤ lines.length := by
    intro r hr
    obtain ⟨cr, hcr, rfl⟩ := List.mem_map.mp hr
    exact hstart cr hcr
  rw [length_patched hmade, length_patched, keptFrom_wanted]
  · rw [wanted, List.map_map, List.map_map]
    refine Nat.add_lt_add_right (sum_lt_sum _ _ (fun cr hcr => ?_) ?_) _
    · have hlines := (hplaced cr hcr).lines_eq
      simp only [comp_apply]
      rw [hlines]
      split
      · exact (length_dropLast).trans_le (Nat.sub_le _ _)
      · exact le_rfl
    · obtain ⟨cr, hcr, hlost⟩ := hlost
      refine ⟨cr, hcr, ?_⟩
      have hlines := (hplaced cr hcr).lines_eq
      rw [if_pos hlost] at hlines
      simp only [comp_apply]
      have hpos : 0 < cr.1.newLines.length := by
        rw [length_pos_iff]
        intro hnil
        rw [hnil] at hlost
        cases hlost.2
      rw [hlines, length_dropLast]
      omega
  · intro e he
    obtain ⟨cr, hcr, rfl⟩ := List.mem_map.mp he
    exact hstart cr hcr

theorem not_mem_fileLines {contents : Text} {line : Line} (h : line ∈ fileLines contents) : '\n' ∉ line := by
  refine Lines.not_mem_of_mem_splitLines (t := contents) ?_
  rw [fileLines] at h
  split at h
  · exact dropLast_subset _ h
  · exact h

/-- Read again, a result that ends in a blank line has one line less. -/
theorem fileLines_terminated {newLines : List Line} (h : ∀ line ∈ newLines, '\n' ∉ line) :
    fileLines (['\n'].intercalate (terminated newLines)) =
      if newLines.getLast? = some [] then newLines.dropLast else newLines := by
  have hne : terminated newLines ≠ [] ∧ (∀ line ∈ terminated newLines, '\n' ∉ line) ∧
      (terminated newLines).getLast? = some [] := by
    rw [terminated]
    split
    · rename_i hlast
      refine ⟨?_, h, hlast⟩
      rintro rfl
      cases hlast
    · refine ⟨by simp, fun line hline => ?_, by simp⟩
      rcases mem_append.mp hline with hline | hline
      · exact h line hline
      · rw [mem_singleton.mp hline]
        exact not_mem_nil
  rw [fileLines, Lines.splitLines_intercalate hne.1 hne.2.1, if_pos hne.2.2, terminated]
  split
  · rfl
  · exact dropLast_concat

/-- The lines of what `applyUpdateHunk` returns are those of the file with each matched range replaced
exactly when the hunk is harmless. -/
theorem touchesOnlyMatches_iff {filePath contents output : Text} {chunks : List UpdateFileChunk}
    {readFile : Text → Except Text Text} (hread : readFile filePath = .ok contents)
    (hlines : ∀ chunk ∈ chunks, ∀ line ∈ chunk.newLines, '\n' ∉ line)
    (hout : applyUpdateHunk filePath chunks readFile = .ok output) :
    ∃ rs, locateChunks (fileLines contents) filePath chunks = .ok rs ∧ rs.length = chunks.length ∧
      (TouchesOnlyMatches (fileLines contents) (chunks.zip rs) (fileLines output) ↔
        Harmless (fileLines contents) (chunks.zip rs)) := by
  rw [applyUpdateHunk, hread] at hout
  dsimp only at hout
  split at hout
  · cases hout
  · rename_i replacements hcompute
    cases hout
    obtain ⟨rs, hlocate, rfl⟩ := exists_of_map_eq_ok hcompute
    obtain ⟨hlen, hplaced, -, hpairs⟩ := locateFrom_spec (Nat.zero_le _) hlocate
    have hsnd : (chunks.zip rs).map Prod.snd = rs := map_snd_zip hlen.le
    have hroom := matchesInOrder_iff hplaced hpairs
    have hspliced := spliced hplaced
    rw [hsnd] at hspliced
    refine ⟨rs, hlocate, hlen, ?_⟩
    rw [applyReplacements_eq]
    set result := (rs.insertionSort fun a b => a.start ≤ b.start).foldr Edit.splice (fileLines contents)
      with hresult
    have hsingle : ∀ line ∈ result, '\n' ∉ line := by
      intro line hline
      rcases mem_foldr_splice hline with hline | ⟨r, hr, hline⟩
      · exact not_mem_fileLines hline
      · have hr := (mem_insertionSort _).mp hr
        rw [← hsnd] at hr
        obtain ⟨cr, hcr, rfl⟩ := List.mem_map.mp hr
        rw [(hplaced cr hcr).lines_eq] at hline
        refine hlines cr.1 (of_mem_zip hcr).1 line ?_
        split at hline
        · exact dropLast_subset _ hline
        · exact hline
    rw [fileLines_terminated hsingle]
    constructor
    · rintro ⟨horder, heq, -, -⟩
      obtain ⟨hlength, hiff⟩ := hspliced horder
      -- the result is too short if a line is lost on the way or at the end
      have hwhole : ∀ cr ∈ chunks.zip rs, cr.2.removed < cr.1.oldLines.length →
          cr.1.newLines.getLast? ≠ some [] := by
        intro cr hcr hlt hlast
        have hshort := length_wanted_lt hplaced ⟨cr, hcr, hlt, hlast⟩
        rw [← heq, hsnd, ← hlength] at hshort
        split at hshort
        · rw [length_dropLast] at hshort
          omega
        · omega
      have hwanted := wanted_eq hplaced hwhole
      rw [hsnd] at hwanted
      rw [hwanted] at heq
      have hended : result.getLast? ≠ some [] := by
        intro hlast
        rw [if_pos hlast] at heq
        have hshort := congrArg List.length heq
        rw [length_dropLast, ← hlength] at hshort
        have hpos : 0 < result.length := by
          rw [length_pos_iff]
          intro hnil
          rw [hnil] at hlast
          cases hlast
        omega
      rw [if_neg hended] at heq
      refine ⟨hroom.mp horder, hwhole, hiff.mp heq, ?_⟩
      rw [hwanted, ← heq]
      exact hended
    · rintro ⟨hroomy, hwhole, hunburied, hended⟩
      have horder := hroom.mpr hroomy
      have hwanted := wanted_eq hplaced hwhole
      rw [hsnd] at hwanted
      have heq := (hspliced horder).2.mpr hunburied
      rw [← hwanted] at heq
      rw [← heq] at hended
      rw [if_neg hended, heq]
      refine ⟨horder, rfl, kept_sublist_patched _ 0 _, fun cr hcr => ?_⟩
      have hmem : { cr.2 with lines := cr.1.newLines } ∈ wanted (chunks.zip rs) :=
        List.mem_map_of_mem (f := fun cr : Located => { cr.2 with lines := cr.1.newLines }) hcr
      exact lines_infix_patched hmem (cr.2.start_le_stop.trans (hplaced cr hcr).stop_le)

/-- The first line is replaced, the last one at the end of the file, and a line is added. -/
def threeChunks : List UpdateFileChunk :=
  [⟨none, ["a".toList], ["c".toList], false⟩, ⟨none, ["b".toList], ["d".toList, "e".toList], true⟩,
    ⟨none, [], ["f".toList], false⟩]

theorem touchesOnlyMatches_iff_replaced :
    ∃ rs, locateChunks (fileLines "a\nx\nb\n".toList) "f".toList threeChunks = .ok rs ∧ rs.length = 3 ∧
      (TouchesOnlyMatches (fileLines "a\nx\nb\n".toList) (threeChunks.zip rs)
          (fileLines "c\nx\nd\ne\nf\n".toList) ↔
        Harmless (fileLines "a\nx\nb\n".toList) (threeChunks.zip rs)) := by
  have hout : applyUpdateHunk "f".toList threeChunks (fun _ => .ok "a\nx\nb\n".toList) =
      .ok "c\nx\nd\ne\nf\n".toList := by decide +kernel
  exact touchesOnlyMatches_iff (by rfl) (by decide) hout

/-- A file that ends in a blank line loses it when its first line is replaced. -/
theorem applyUpdateHunk_loses_blank_end :
    applyUpdateHunk "f".toList [⟨none, ["a".toList], ["c".toList], false⟩] (fun _ => .ok "a\n\n".toList) =
        .ok "c\n".toList ∧
      ∀ rs, locateChunks (fileLines "a\n\n".toList) "f".toList [⟨none, ["a".toList], ["c".toList], false⟩] =
          .ok rs →
        ¬ TouchesOnlyMatches (fileLines "a\n\n".toList)
          ([⟨none, ["a".toList], ["c".toList], false⟩].zip rs) (fileLines "c\n".toList) := by
  refine ⟨by decide +kernel, fun rs hrs h => ?_⟩
  have hlocate : locateChunks (fileLines "a\n\n".toList) "f".toList
      [⟨none, ["a".toList], ["c".toList], false⟩] = .ok [⟨0, 1, ["c".toList]⟩] := by decide +kernel
  rw [hlocate] at hrs
  cases hrs
  have heq := h.result_eq
  revert heq
  decide +kernel

end Foxclaw.ApplyPatch
