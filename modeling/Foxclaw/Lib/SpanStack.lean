import Mathlib.Data.List.Perm.Basic
import Mathlib.Data.List.Sort
import Mathlib.Data.List.Perm.Lattice

/-!
# Spans that are opened and closed through one stack

A text is to be written with a bracket at the start and at the end of each of some spans. The writer
goes through the places where spans start or stop. At each it closes what is on top of its stack as long
as that stops there, and then opens the spans that start there, the longest first.

## What is proved

* `Nested.closings_perm` — in a text with well nested brackets, each that is opened is closed.
* `nested_written` — what is written is well nested exactly if nothing is left on the stack.
* `foldl_step_eq_nil_iff` — nothing is left exactly if each span stops after it starts and no two cross.
* `openings_written_perm` — in any case, each span is opened.
-/

namespace Foxclaw.SpanStack

open List

universe u v

variable {ι : Type u} {τ : Type v}

/-! ### Well nested brackets -/

/-- A bracket, or something without brackets. -/
inductive Piece (ι : Type u) (τ : Type v) where
  | opening (a : ι)
  | closing (a : ι)
  /-- Something without brackets. -/
  | plain (t : τ)

/-- Every closing bracket belongs to the last opening bracket that was not closed, and all are closed; the
spans of `stack` are open before. -/
def Nested : List ι → List (Piece ι τ) → Prop
  | stack, [] => stack = []
  | stack, .opening a :: pieces => Nested (a :: stack) pieces
  | [], .closing _ :: _ => False
  | b :: stack, .closing a :: pieces => a = b ∧ Nested stack pieces
  | stack, .plain _ :: pieces => Nested stack pieces

/-- The spans that are opened, in order. -/
def openings (pieces : List (Piece ι τ)) : List ι :=
  pieces.filterMap fun
    | .opening a => some a
    | _ => none

/-- The spans that are closed, in order. -/
def closings (pieces : List (Piece ι τ)) : List ι :=
  pieces.filterMap fun
    | .closing a => some a
    | _ => none

/-- What is left without the brackets. -/
def plains (pieces : List (Piece ι τ)) : List τ :=
  pieces.filterMap fun
    | .plain t => some t
    | _ => none

variable {pieces : List (Piece ι τ)} {stack : List ι}

/-- What was open before and what is opened is closed. -/
theorem Nested.closings_perm (h : Nested stack pieces) :
    (closings pieces).Perm (stack ++ openings pieces) := by
  induction pieces generalizing stack with
  | nil =>
    obtain rfl : stack = [] := by simpa [Nested] using h
    rfl
  | cons piece pieces ih =>
    cases piece with
    | opening a =>
      have h : Nested (a :: stack) pieces := by simpa [Nested] using h
      exact (ih h).trans perm_middle.symm
    | closing a =>
      cases stack with
      | nil => exact absurd h (by simp [Nested])
      | cons b stack =>
        obtain ⟨rfl, hrest⟩ : a = b ∧ Nested stack pieces := by simpa [Nested] using h
        exact (ih hrest).cons a
    | plain t =>
      have h : Nested stack pieces := by simpa [Nested] using h
      exact ih h

theorem nested_openings {stack opened : List ι} :
    Nested stack (opened.map .opening ++ pieces) ↔ Nested (opened.reverse ++ stack) pieces := by
  induction opened generalizing stack with
  | nil => rfl
  | cons a opened ih =>
    rw [map_cons, cons_append, reverse_cons, append_assoc, singleton_append, ← ih]
    simp [Nested]

theorem nested_closings {stack closed : List ι} :
    Nested (closed ++ stack) (closed.map .closing ++ pieces) ↔ Nested stack pieces := by
  induction closed with
  | nil => rfl
  | cons a closed ih =>
    rw [map_cons, cons_append, cons_append, ← ih]
    simp [Nested]

theorem nested_plains {texts : List τ} : Nested stack (texts.map .plain ++ pieces) ↔ Nested stack pieces := by
  induction texts with
  | nil => rfl
  | cons t texts ih =>
    rw [map_cons, cons_append, ← ih]
    simp [Nested]

/-! ### Writing -/

section Writing

variable (stop : ι → ℕ) (opening : ℕ → List ι)

/-- The spans of the stack that are closed at a place. -/
def closed (stack : List ι) (place : ℕ) : List ι := stack.takeWhile fun a => stop a = place

/-- The stack after a place. -/
def step (stack : List ι) (place : ℕ) : List ι :=
  (opening place).reverse ++ stack.dropWhile fun a => stop a = place

/-- What is written at the places, with `between` before the next place. -/
def written (between : ℕ → ℕ → List τ) (stack : List ι) : List ℕ → List (Piece ι τ)
  | [] => []
  | [place] => (closed stop stack place).map .closing ++ (opening place).map .opening
  | place :: next :: places =>
    (closed stop stack place).map .closing ++ (opening place).map .opening ++
      (between place next).map .plain ++
        written between (step stop opening stack place) (next :: places)

variable {stop opening} {between : ℕ → ℕ → List τ}

variable (stack : List ι)

theorem closed_append_dropWhile (place : ℕ) :
    closed stop stack place ++ stack.dropWhile (fun a => stop a = place) = stack :=
  takeWhile_append_dropWhile

/-- The brackets at one place. -/
theorem nested_place {stack : List ι} {place : ℕ} {pieces : List (Piece ι τ)} :
    Nested stack ((closed stop stack place).map .closing ++ ((opening place).map .opening ++ pieces)) ↔
      Nested (step stop opening stack place) pieces := by
  have hstack : closed stop stack place ++ stack.dropWhile (fun a => stop a = place) = stack :=
    closed_append_dropWhile stack place
  have hclosed : Nested (closed stop stack place ++ stack.dropWhile fun a => stop a = place)
      ((closed stop stack place).map .closing ++ ((opening place).map .opening ++ pieces)) ↔
      Nested (stack.dropWhile fun a => stop a = place) ((opening place).map .opening ++ pieces) :=
    nested_closings
  rw [hstack] at hclosed
  exact hclosed.trans nested_openings

/-- What is written is well nested exactly if the stack is empty in the end. -/
theorem nested_written {stack : List ι} {place : ℕ} {places : List ℕ} :
    Nested stack (written stop opening between stack (place :: places)) ↔
      (place :: places).foldl (step stop opening) stack = [] := by
  induction places generalizing stack place with
  | nil =>
    have h : Nested stack ((closed stop stack place).map .closing ++
        ((opening place).map .opening ++ ([] : List (Piece ι τ)))) ↔
        Nested (step stop opening stack place) ([] : List (Piece ι τ)) := nested_place
    rw [append_nil] at h
    exact h
  | cons next places ih =>
    rw [written, append_assoc, append_assoc, nested_place, nested_plains, ih]
    rfl

/-! ### What is written -/

variable (pieces pieces' : List (Piece ι τ))

@[simp] theorem openings_append :
    openings (pieces ++ pieces') = openings pieces ++ openings pieces' := filterMap_append

variable (l : List ι)

@[simp] theorem openings_map_opening : openings (l.map .opening : List (Piece ι τ)) = l := by
  simp [openings, filterMap_map]

@[simp] theorem openings_map_closing : openings (l.map .closing : List (Piece ι τ)) = [] := by
  simp [openings, filterMap_map]

@[simp] theorem openings_map_plain (l : List τ) : openings (l.map .plain : List (Piece ι τ)) = [] := by
  simp [openings, filterMap_map]

@[simp] theorem plains_append :
    plains (pieces ++ pieces') = plains pieces ++ plains pieces' := filterMap_append

@[simp] theorem plains_map_opening : plains (l.map .opening : List (Piece ι τ)) = [] := by
  simp [plains, filterMap_map]

@[simp] theorem plains_map_closing : plains (l.map .closing : List (Piece ι τ)) = [] := by
  simp [plains, filterMap_map]

@[simp] theorem plains_map_plain (l : List τ) : plains (l.map .plain : List (Piece ι τ)) = l := by
  simp [plains, filterMap_map]

/-- The spans of all places are opened. -/
theorem openings_written (places : List ℕ) :
    openings (written stop opening between stack places) = places.flatMap opening := by
  induction places generalizing stack with
  | nil => rfl
  | cons place places ih =>
    cases places with
    | nil => simp [written]
    | cons next places =>
      rw [written, openings_append, ih, flatMap_cons]
      simp

/-- Between the brackets stands what is between the places. -/
theorem plains_written (places : List ℕ) :
    plains (written stop opening between stack places) =
      (places.zip places.tail).flatMap fun e => between e.1 e.2 := by
  induction places generalizing stack with
  | nil => rfl
  | cons place places ih =>
    cases places with
    | nil => simp [written]
    | cons next places =>
      rw [written, plains_append, ih]
      simp

end Writing

/-! ### When nothing is left open -/

/-- The places are in order, every span starts and stops at one of them, and at each the spans that start
there are opened, the longest first. -/
structure Plan (start stop : ι → ℕ) (spans : List ι) (places : List ℕ) (opening : ℕ → List ι) : Prop where
  sorted : places.Pairwise (· < ·)
  /-- Every span starts at a place. -/
  start_mem : ∀ a ∈ spans, start a ∈ places
  /-- Every span stops at a place. -/
  stop_mem : ∀ a ∈ spans, stop a ∈ places
  /-- Those that start at a place are opened. -/
  perm : ∀ place, (opening place).Perm (spans.filter fun a => start a = place)
  longest : ∀ place, (opening place).Pairwise fun a b => stop b ≤ stop a

/-- The first span starts first, and stops in the second. -/
def Crosses (start stop : ι → ℕ) (a b : ι) : Prop :=
  start a < start b ∧ start b < stop a ∧ stop a < stop b

instance (start stop : ι → ℕ) : DecidableRel (Crosses start stop) := fun a b =>
  inferInstanceAs (Decidable (start a < start b ∧ start b < stop a ∧ stop a < stop b))

section

variable {start stop : ι → ℕ} {spans : List ι} {places : List ℕ} {opening : ℕ → List ι}

variable {a : ι}

variable {place : ℕ}

theorem Plan.mem_opening (h : Plan start stop spans places opening) :
    a ∈ opening place ↔ a ∈ spans ∧ start a = place := by
  rw [(h.perm place).mem_iff, mem_filter, decide_eq_true_iff]

variable {stack : List ι}

/-- Where spans stop in order and none before the place, those that stop there are on top. -/
theorem mem_dropWhile_iff (hsorted : stack.Pairwise fun a b => stop a ≤ stop b)
    (hplace : ∀ a ∈ stack, place ≤ stop a) :
    a ∈ stack.dropWhile (fun a => stop a = place) ↔ a ∈ stack ∧ stop a ≠ place := by
  induction stack with
  | nil => simp
  | cons b stack ih =>
    obtain ⟨hb, hsorted⟩ := pairwise_cons.mp hsorted
    by_cases hstop : stop b = place
    · rw [dropWhile_cons_of_pos (by simpa using hstop),
        ih hsorted fun a ha => hplace a (mem_cons_of_mem b ha), mem_cons]
      refine ⟨fun h => ⟨.inr h.1, h.2⟩, fun h => ⟨h.1.resolve_left ?_, h.2⟩⟩
      rintro rfl
      exact h.2 hstop
    · rw [dropWhile_cons_of_neg (by simpa using hstop)]
      refine ⟨fun h => ⟨h, ?_⟩, And.left⟩
      have hlt : place < stop b := lt_of_le_of_ne (hplace b mem_cons_self) (Ne.symm hstop)
      rcases mem_cons.mp h with rfl | h
      · exact hstop
      · exact (hlt.trans_le (hb a h)).ne'

/-- What is on the stack before the places `rest`: the spans that have started and are to stop, those that
stop first on top. -/
structure Waiting (start stop : ι → ℕ) (spans : List ι) (rest : List ℕ) (stack : List ι) : Prop where
  /-- Those that stop first are on top. -/
  sorted : stack.Pairwise fun a b => stop a ≤ stop b
  /-- The spans that have started and are to stop. -/
  mem_iff : ∀ a, a ∈ stack ↔ a ∈ spans ∧ start a ∉ rest ∧ stop a ∈ rest

variable {gone rest : List ℕ}

theorem Waiting.step (hpos : ∀ a ∈ spans, start a < stop a)
    (hcross : ∀ a ∈ spans, ∀ b ∈ spans, ¬ Crosses start stop a b)
    (hplan : Plan start stop spans (gone ++ place :: rest) opening)
    (h : Waiting start stop spans (place :: rest) stack) :
    Waiting start stop spans rest (step stop opening stack place) := by
  obtain ⟨-, hrest, hgone⟩ := pairwise_append.mp hplan.sorted
  obtain ⟨hlater, hrestSorted⟩ := pairwise_cons.mp hrest
  have hnotMem : place ∉ rest := fun hmem => lt_irrefl place (hlater place hmem)
  have hle : ∀ a ∈ stack, place ≤ stop a := by
    intro a ha
    rcases mem_cons.mp ((h.mem_iff a).mp ha).2.2 with hstop | hstop
    · exact hstop.ge
    · exact (hlater _ hstop).le
  have hdrop : ∀ a, a ∈ stack.dropWhile (fun a => stop a = place) ↔ a ∈ stack ∧ stop a ≠ place :=
    fun a => mem_dropWhile_iff h.sorted hle
  -- A span that is still open started before the place and stops after it.
  have hopen : ∀ a, a ∈ stack.dropWhile (fun a => stop a = place) →
      a ∈ spans ∧ start a < place ∧ place < stop a ∧ stop a ∈ rest := by
    intro a ha
    obtain ⟨hstack, hne⟩ := (hdrop a).mp ha
    obtain ⟨hspan, hstart, hstop⟩ := (h.mem_iff a).mp hstack
    have hstopRest : stop a ∈ rest := (mem_cons.mp hstop).resolve_left hne
    have hstartGone : start a ∈ gone := (mem_append.mp (hplan.start_mem a hspan)).resolve_right hstart
    exact ⟨hspan, hgone _ hstartGone _ mem_cons_self, hlater _ hstopRest, hstopRest⟩
  refine ⟨?_, fun a => ?_⟩
  · refine pairwise_append.mpr ⟨pairwise_reverse.mpr (hplan.longest place),
      h.sorted.sublist (dropWhile_sublist _), fun b hb a ha => ?_⟩
    obtain ⟨hspanB, hstartB⟩ := hplan.mem_opening.mp (mem_reverse.mp hb)
    obtain ⟨hspanA, hbefore, hafter, -⟩ := hopen a ha
    have := hcross a hspanA b hspanB
    unfold Crosses at this
    omega
  · rw [SpanStack.step, mem_append, mem_reverse, hplan.mem_opening]
    constructor
    · rintro (⟨hspan, rfl⟩ | ha)
      · have hlt := hpos a hspan
        have hstop : stop a ∉ gone := fun hmem =>
          (hgone _ hmem _ mem_cons_self).not_gt hlt
        have hstop := (mem_append.mp (hplan.stop_mem a hspan)).resolve_left hstop
        exact ⟨hspan, hnotMem, (mem_cons.mp hstop).resolve_left hlt.ne'⟩
      · obtain ⟨hspan, hbefore, -, hstop⟩ := hopen a ha
        exact ⟨hspan, fun hmem => (hlater _ hmem).not_gt hbefore, hstop⟩
    · rintro ⟨hspan, hstart, hstop⟩
      by_cases hplace : start a = place
      · exact .inl ⟨hspan, hplace⟩
      · refine .inr ((hdrop a).mpr ⟨(h.mem_iff a).mpr ⟨hspan, ?_, mem_cons_of_mem _ hstop⟩, ?_⟩)
        · exact fun hmem => hstart ((mem_cons.mp hmem).resolve_left hplace)
        · rintro rfl
          exact hnotMem hstop

theorem Waiting.foldl (hpos : ∀ a ∈ spans, start a < stop a)
    (hcross : ∀ a ∈ spans, ∀ b ∈ spans, ¬ Crosses start stop a b)
    (hplan : Plan start stop spans (gone ++ rest) opening)
    (h : Waiting start stop spans rest stack) : rest.foldl (SpanStack.step stop opening) stack = [] := by
  induction rest generalizing gone stack with
  | nil =>
    refine eq_nil_iff_forall_not_mem.mpr fun a ha => ?_
    exact absurd ((h.mem_iff a).mp ha).2.2 not_mem_nil
  | cons place rest ih =>
    have hplan' : Plan start stop spans ((gone ++ [place]) ++ rest) opening := by
      rw [append_assoc]
      exact hplan
    exact ih hplan' (h.step hpos hcross hplan)

/-- What stands above a span that does not stop here stays there. -/
theorem sublist_dropWhile {stack l : List ι} {b : ι} (h : (b :: l).Sublist stack)
    (hb : stop b ≠ place) : (b :: l).Sublist (stack.dropWhile fun a => stop a = place) := by
  induction stack with
  | nil => exact absurd h (by simp)
  | cons a stack ih =>
    by_cases ha : stop a = place
    · rw [dropWhile_cons_of_pos (by simpa using ha)]
      cases h with
      | cons _ h => exact ih h
      | cons_cons _ h => exact absurd ha hb
    · rw [dropWhile_cons_of_neg (by simpa using ha)]
      exact h

/-- Spans stay on the stack until the topmost of them stops. -/
theorem sublist_foldl_step {places : List ℕ} {stack l : List ι} {b : ι} (h : (b :: l).Sublist stack)
    (hb : ∀ place ∈ places, place ≠ stop b) : (b :: l).Sublist (places.foldl (step stop opening) stack) := by
  induction places generalizing stack with
  | nil => exact h
  | cons place places ih =>
    refine ih ?_ fun place' hplace => hb place' (mem_cons_of_mem _ hplace)
    exact (sublist_dropWhile h (hb place mem_cons_self).symm).trans (sublist_append_right _ _)

/-- A span that starts at a place is on the stack then. -/
theorem sublist_step (h : a ∈ opening place) : [a].Sublist (step stop opening stack place) :=
  singleton_sublist.mpr (mem_append_left _ (mem_reverse.mpr h))

/-- A place in a list of places in order. -/
theorem exists_split {places : List ℕ} (hsorted : places.Pairwise (· < ·)) (h : place ∈ places) :
    ∃ gone rest, places = gone ++ place :: rest ∧ (∀ p ∈ gone, p < place) ∧ (∀ p ∈ rest, place < p) ∧
      rest.Pairwise (· < ·) := by
  obtain ⟨gone, rest, rfl⟩ := append_of_mem h
  obtain ⟨-, hrest, hgone⟩ := pairwise_append.mp hsorted
  obtain ⟨hlater, hrest⟩ := pairwise_cons.mp hrest
  exact ⟨gone, rest, rfl, fun p hp => hgone p hp place mem_cons_self, hlater, hrest⟩

/-- What is behind a place comes after it in the list. -/
theorem mem_rest {place p : ℕ} (hgone : ∀ p ∈ gone, p < place)
    (h : p ∈ gone ++ place :: rest) (hp : place < p) : p ∈ rest := by
  rcases mem_append.mp h with hmem | hmem
  · exact absurd (hgone p hmem) hp.not_gt
  · exact (mem_cons.mp hmem).resolve_left hp.ne'

/-- A span that does not stop after it starts is never closed. -/
theorem ne_nil_of_stop_le (h : Plan start stop spans places opening) (ha : a ∈ spans)
    (hle : stop a ≤ start a) : places.foldl (step stop opening) [] ≠ [] := by
  obtain ⟨gone, rest, rfl, -, hlater, -⟩ := exists_split h.sorted (h.start_mem a ha)
  rw [foldl_append, foldl_cons]
  have hopen : [a].Sublist (step stop opening (gone.foldl (step stop opening) []) (start a)) :=
    sublist_step (h.mem_opening.mpr ⟨ha, rfl⟩)
  have hstuck : [a].Sublist (rest.foldl (step stop opening)
      (step stop opening (gone.foldl (step stop opening) []) (start a))) :=
    sublist_foldl_step hopen fun p hp => (hle.trans_lt (hlater p hp)).ne'
  exact ne_nil_of_mem (singleton_sublist.mp hstuck)

/-- A span that stops in a later one is never closed: that one is on top of it then. -/
theorem ne_nil_of_crosses (h : Plan start stop spans places opening) {a b : ι} (ha : a ∈ spans)
    (hb : b ∈ spans) (hcross : Crosses start stop a b) : places.foldl (step stop opening) [] ≠ [] := by
  obtain ⟨hstart, hmeet, hstop⟩ := hcross
  obtain ⟨gone, rest, rfl, hgone, hlater, hrest⟩ := exists_split h.sorted (h.start_mem a ha)
  have hmemB : start b ∈ rest := mem_rest hgone (h.start_mem b hb) hstart
  have hmemA : stop a ∈ rest := mem_rest hgone (h.stop_mem a ha) (hstart.trans hmeet)
  obtain ⟨middle, rest, rfl, hmiddle, hlaterB, hrestB⟩ := exists_split hrest hmemB
  have hmemA : stop a ∈ rest := mem_rest hmiddle hmemA hmeet
  obtain ⟨inside, rest, rfl, hinside, hlaterA, -⟩ := exists_split hrestB hmemA
  rw [foldl_append, foldl_cons, foldl_append, foldl_cons, foldl_append, foldl_cons]
  generalize gone.foldl (step stop opening) [] = stack₀
  have hopenA : [a].Sublist (middle.foldl (step stop opening) (step stop opening stack₀ (start a))) :=
    sublist_foldl_step (sublist_step (h.mem_opening.mpr ⟨ha, rfl⟩)) fun p hp =>
      ((hmiddle p hp).trans hmeet).ne
  revert hopenA
  generalize middle.foldl (step stop opening) (step stop opening stack₀ (start a)) = stack₁
  intro hopenA
  have hopenB : [b, a].Sublist (step stop opening stack₁ (start b)) :=
    (singleton_sublist.mpr (mem_reverse.mpr (h.mem_opening.mpr ⟨hb, rfl⟩))).append
      (sublist_dropWhile hopenA hmeet.ne')
  have hinsideB : [b, a].Sublist (inside.foldl (step stop opening) (step stop opening stack₁ (start b))) :=
    sublist_foldl_step hopenB fun p hp => ((hinside p hp).trans hstop).ne
  have hstill : [b, a].Sublist (step stop opening
      (inside.foldl (step stop opening) (step stop opening stack₁ (start b))) (stop a)) :=
    (sublist_dropWhile hinsideB hstop.ne').trans (sublist_append_right _ _)
  have hlast : [a].Sublist (step stop opening
      (inside.foldl (step stop opening) (step stop opening stack₁ (start b))) (stop a)) :=
    (sublist_cons_self b [a]).trans hstill
  have hstuck : [a].Sublist (rest.foldl (step stop opening) (step stop opening
      (inside.foldl (step stop opening) (step stop opening stack₁ (start b))) (stop a))) :=
    sublist_foldl_step hlast fun p hp => (hlaterA p hp).ne'
  exact ne_nil_of_mem (singleton_sublist.mp hstuck)

/-- The spans that start at one of the places. -/
theorem flatMap_filter_perm (hnodup : places.Nodup) :
    (places.flatMap fun place => spans.filter fun a => start a = place).Perm
      (spans.filter fun a => start a ∈ places) := by
  induction places with
  | nil => simp
  | cons place places ih =>
    obtain ⟨hnot, hnodup⟩ := nodup_cons.mp hnodup
    have hhere : (spans.filter fun a => start a ∈ place :: places).filter (fun a => start a = place) =
        spans.filter fun a => start a = place := by
      rw [List.filter_filter]
      refine filter_congr fun a _ => ?_
      simp +contextual
    have hothers : (spans.filter fun a => start a ∈ place :: places).filter (fun a => !decide (start a = place)) =
        spans.filter fun a => start a ∈ places := by
      rw [List.filter_filter]
      refine filter_congr fun a _ => ?_
      by_cases ha : start a = place
      · simp [ha, hnot]
      · simp [ha]
    have hsplit := filter_append_perm (fun a => decide (start a = place))
      (spans.filter fun a => start a ∈ place :: places)
    rw [hhere, hothers] at hsplit
    rw [flatMap_cons]
    exact ((ih hnodup).append_left _).trans hsplit

/-- Every span is opened. -/
theorem openings_written_perm {between : ℕ → ℕ → List τ} (h : Plan start stop spans places opening)
    (stack : List ι) : (openings (written stop opening between stack places)).Perm spans := by
  have hall : spans.filter (fun a => start a ∈ places) = spans :=
    filter_eq_self.mpr fun a ha => decide_eq_true (h.start_mem a ha)
  have hnodup : places.Nodup := h.sorted.imp fun hlt => hlt.ne
  rw [openings_written]
  refine (List.Perm.flatMap_left places fun place _ => h.perm place).trans ?_
  exact (flatMap_filter_perm hnodup).trans (List.Perm.of_eq hall)

/-- Nothing is left open exactly if every span stops after it starts and no two cross. -/
theorem foldl_step_eq_nil_iff (h : Plan start stop spans places opening) :
    places.foldl (step stop opening) [] = [] ↔
      (∀ a ∈ spans, start a < stop a) ∧ ∀ a ∈ spans, ∀ b ∈ spans, ¬ Crosses start stop a b := by
  constructor
  · intro hnil
    refine ⟨fun a ha => ?_, fun a ha b hb hcross => ne_nil_of_crosses h ha hb hcross hnil⟩
    by_contra hle
    exact ne_nil_of_stop_le h ha (not_lt.mp hle) hnil
  · rintro ⟨hpos, hcross⟩
    have hall : Plan start stop spans ([] ++ places) opening := h
    refine Waiting.foldl hpos hcross hall ⟨List.Pairwise.nil, fun a => ?_⟩
    refine ⟨fun ha => absurd ha not_mem_nil, fun ⟨ha, hstart, _⟩ => ?_⟩
    exact absurd (h.start_mem a ha) hstart

end

end Foxclaw.SpanStack
