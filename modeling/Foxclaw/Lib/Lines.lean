import Mathlib.Algebra.GroupWithZero.Nat
import Mathlib.Data.List.Basic

/-!
# Lines of a text

A text is a list of units of which one ends lines. A place in a text cuts one of its lines in
two: the last line of what is before and the first line of what is after.

## What is proved

* `splitLines_append` — the lines of two texts one after the other.
* `cut_append_of_restLines_nil`, `cut_append_of_restLines_ne_nil` — the lines that are ended in
  the two texts together, and the one that is not.
-/

namespace Foxclaw.Lines

open List

universe u

variable {α : Type u} [DecidableEq α] (nl : α)

/-- The first line, and the other lines. -/
def cutFirst : List α → List α × List (List α)
  | [] => ([], [])
  | c :: cs =>
      let r := cutFirst cs
      if c = nl then ([], r.1 :: r.2) else (c :: r.1, r.2)

/-- The lines that are ended, and the last one. -/
def cutLast : List α → List (List α) × List α
  | [] => ([], [])
  | c :: cs =>
      let r := cutLast cs
      if c = nl then ([] :: r.1, r.2)
      else match r.1 with
        | [] => ([], c :: r.2)
        | l :: ls => ((c :: l) :: ls, r.2)

def firstLine (t : List α) : List α := (cutFirst nl t).1

/-- The lines after the first. -/
def restLines (t : List α) : List (List α) := (cutFirst nl t).2

/-- The lines that are ended. -/
def fullLines (t : List α) : List (List α) := (cutLast nl t).1

def lastLine (t : List α) : List α := (cutLast nl t).2

def splitLines (t : List α) : List (List α) := firstLine nl t :: restLines nl t

/-- How long the lines are with their ends. -/
def span (lines : List (List α)) : ℕ := (lines.map fun l => l.length + 1).sum

variable {nl}

@[simp] theorem firstLine_nil : firstLine nl [] = [] := rfl

@[simp] theorem lastLine_nil : lastLine nl [] = [] := rfl

@[simp] theorem restLines_nil : restLines nl [] = [] := rfl

theorem splitLines_cons_nl (t : List α) : splitLines nl (nl :: t) = [] :: splitLines nl t := by
  simp [splitLines, firstLine, restLines, cutFirst]

variable {c : α}

theorem splitLines_cons (h : c ≠ nl) (t : List α) :
    splitLines nl (c :: t) = (c :: firstLine nl t) :: restLines nl t := by
  simp [splitLines, firstLine, restLines, cutFirst, h]

theorem firstLine_cons_nl (t : List α) : firstLine nl (nl :: t) = [] := by
  simp [firstLine, cutFirst]

theorem firstLine_cons (h : c ≠ nl) (t : List α) : firstLine nl (c :: t) = c :: firstLine nl t := by
  simp [firstLine, cutFirst, h]

theorem restLines_cons_nl (t : List α) : restLines nl (nl :: t) = splitLines nl t := by
  simp [splitLines, firstLine, restLines, cutFirst]

theorem restLines_cons (h : c ≠ nl) (t : List α) : restLines nl (c :: t) = restLines nl t := by
  simp [restLines, cutFirst, h]

/-! ### Two texts one after the other -/

/-- The cut is in one line: the last of the one text with the first of the other. -/
theorem splitLines_append (x y : List α) :
    splitLines nl (x ++ y) = fullLines nl x ++ (lastLine nl x ++ firstLine nl y) :: restLines nl y := by
  induction x with
  | nil => rfl
  | cons c x ih =>
    rw [cons_append]
    by_cases h : c = nl
    · subst h
      rw [splitLines_cons_nl, ih]
      simp [fullLines, lastLine, cutLast]
    · rw [splitLines_cons h]
      rw [splitLines] at ih
      rw [fullLines] at ih ⊢
      rw [lastLine] at ih ⊢
      rw [cutLast]
      simp only [if_neg h]
      cases hfull : (cutLast nl x).1 with
      | nil =>
        rw [hfull, nil_append, List.cons.injEq] at ih
        rw [ih.1, ih.2]
        rfl
      | cons l ls =>
        rw [hfull, cons_append, List.cons.injEq] at ih
        rw [ih.1, ih.2]
        rfl

theorem splitLines_eq (t : List α) : splitLines nl t = fullLines nl t ++ [lastLine nl t] := by
  have := @splitLines_append _ _ nl t []
  simpa using this

/-- Without an end of line in the second text, the last line goes on. -/
theorem cut_append_of_restLines_nil (x : List α) {y : List α} (h : restLines nl y = []) :
    fullLines nl (x ++ y) = fullLines nl x ∧ lastLine nl (x ++ y) = lastLine nl x ++ firstLine nl y := by
  have hsplit := @splitLines_append _ _ nl x y
  rw [h, splitLines_eq] at hsplit
  obtain ⟨hfull, hlast⟩ := append_inj' hsplit rfl
  exact ⟨hfull, singleton_inj.mp hlast⟩

/-- With one, the line that was cut is ended. -/
theorem cut_append_of_restLines_ne_nil (x : List α) {y : List α} (h : restLines nl y ≠ []) :
    fullLines nl (x ++ y) =
        fullLines nl x ++ (lastLine nl x ++ firstLine nl y) :: (restLines nl y).dropLast ∧
      lastLine nl (x ++ y) = (restLines nl y).getLast h := by
  have hsplit := @splitLines_append _ _ nl x y
  rw [splitLines_eq, ← dropLast_append_getLast h, ← cons_append, ← append_assoc] at hsplit
  obtain ⟨hfull, hlast⟩ := append_inj' hsplit rfl
  exact ⟨hfull, singleton_inj.mp hlast⟩

theorem firstLine_eq_self {t : List α} (h : restLines nl t = []) : firstLine nl t = t := by
  induction t with
  | nil => rfl
  | cons c t ih =>
    by_cases hc : c = nl
    · subst hc
      rw [restLines_cons_nl] at h
      cases h
    · rw [restLines_cons hc] at h
      rw [firstLine_cons hc, ih h]

variable {x : List α}

theorem firstLine_append_of_ne (h : restLines nl x ≠ []) (y : List α) :
    firstLine nl (x ++ y) = firstLine nl x := by
  induction x with
  | nil => exact absurd rfl h
  | cons c x ih =>
    by_cases hc : c = nl
    · subst hc
      rw [cons_append, firstLine_cons_nl, firstLine_cons_nl]
    · rw [restLines_cons hc] at h
      rw [cons_append, firstLine_cons hc, firstLine_cons hc, ih h]

theorem firstLine_append_of_nil (h : restLines nl x = []) (y : List α) :
    firstLine nl (x ++ y) = x ++ firstLine nl y := by
  induction x with
  | nil => rfl
  | cons c x ih =>
    by_cases hc : c = nl
    · subst hc
      rw [restLines_cons_nl] at h
      cases h
    · rw [restLines_cons hc] at h
      rw [cons_append, firstLine_cons hc, ih h, cons_append]

theorem lastLine_mem (t : List α) : lastLine nl t ∈ splitLines nl t := by
  rw [splitLines_eq]
  exact mem_append_right _ mem_cons_self

theorem fullLines_subset (t : List α) : fullLines nl t ⊆ splitLines nl t := by
  rw [splitLines_eq]
  exact subset_append_left _ _

variable {t l : List α}

/-- No line has an end of line in it. -/
theorem not_mem_of_mem_splitLines (h : l ∈ splitLines nl t) : nl ∉ l := by
  induction t generalizing l with
  | nil =>
    obtain rfl := mem_singleton.mp h
    exact not_mem_nil
  | cons c t ih =>
    by_cases hc : c = nl
    · subst hc
      rw [splitLines_cons_nl] at h
      rcases mem_cons.mp h with rfl | h
      · exact not_mem_nil
      · exact ih h
    · rw [splitLines_cons hc] at h
      rcases mem_cons.mp h with rfl | h
      · rw [mem_cons, not_or]
        exact ⟨Ne.symm hc, ih mem_cons_self⟩
      · exact ih (mem_cons_of_mem _ h)

theorem not_mem_of_mem_fullLines (h : l ∈ fullLines nl t) : nl ∉ l := by
  exact not_mem_of_mem_splitLines (fullLines_subset t h)

/-- The lines are made of the units of the text. -/
theorem mem_of_mem_splitLines (h : l ∈ splitLines nl t) (hc : c ∈ l) : c ∈ t := by
  induction t generalizing l with
  | nil =>
    obtain rfl := mem_singleton.mp h
    exact hc
  | cons d t ih =>
    by_cases hd : d = nl
    · subst hd
      rw [splitLines_cons_nl] at h
      rcases mem_cons.mp h with rfl | h
      · cases hc
      · exact mem_cons_of_mem _ (ih h hc)
    · rw [splitLines_cons hd] at h
      rcases mem_cons.mp h with rfl | h
      · rcases mem_cons.mp hc with rfl | hc
        · exact mem_cons_self
        · exact mem_cons_of_mem _ (ih mem_cons_self hc)
      · exact mem_cons_of_mem _ (ih (mem_cons_of_mem _ h) hc)

/-- A text without an end of line is one line. -/
theorem restLines_of_not_mem {t : List α} (h : nl ∉ t) : restLines nl t = [] := by
  induction t with
  | nil => rfl
  | cons c t ih =>
    rw [mem_cons, not_or] at h
    rw [restLines_cons (Ne.symm h.1), ih h.2]

variable {ls : List (List α)}

/-- Lines joined and cut again. -/
theorem splitLines_intercalate (hne : ls ≠ []) (h : ∀ l ∈ ls, nl ∉ l) :
    splitLines nl ([nl].intercalate ls) = ls := by
  have hone : ∀ {l : List α}, nl ∉ l → splitLines nl l = [l] := fun {l} hl => by
    rw [splitLines, restLines_of_not_mem hl, firstLine_eq_self (restLines_of_not_mem hl)]
  induction ls with
  | nil => exact absurd rfl hne
  | cons l ls ih =>
    have hl := h l mem_cons_self
    cases ls with
    | nil => simpa using hone hl
    | cons l' ls =>
      have hcut : fullLines nl l ++ [lastLine nl l] = [] ++ [l] := by
        rw [← splitLines_eq, hone hl, nil_append]
      obtain ⟨hfull, hlast⟩ := append_inj' hcut rfl
      have hrest := ih (cons_ne_nil _ _) fun x hx => h x (mem_cons_of_mem _ hx)
      rw [intercalate_cons_cons, append_assoc, splitLines_append, hfull,
        singleton_append, firstLine_cons_nl, restLines_cons_nl, hrest, List.cons.inj hlast |>.1]
      simp

/-- A line that is ended, and the rest. -/
theorem splitLines_append_nl (h : nl ∉ x) (y : List α) :
    splitLines nl (x ++ nl :: y) = x :: splitLines nl y := by
  induction x with
  | nil => exact splitLines_cons_nl y
  | cons c x ih =>
    rw [mem_cons, not_or] at h
    have hrest := ih h.2
    rw [splitLines] at hrest
    obtain ⟨hfirst, hrest⟩ := List.cons.inj hrest
    rw [cons_append, splitLines_cons (Ne.symm h.1), hfirst, hrest]

/-- A unit that ends no line is in a line. -/
theorem exists_mem_splitLines {t : List α} (hc : c ∈ t) (hne : c ≠ nl) : ∃ l ∈ splitLines nl t, c ∈ l := by
  induction t with
  | nil => cases hc
  | cons d t ih =>
    by_cases hd : d = nl
    · subst hd
      rw [splitLines_cons_nl]
      obtain ⟨l, hl, hcl⟩ := ih ((mem_cons.mp hc).resolve_left hne)
      exact ⟨l, mem_cons_of_mem _ hl, hcl⟩
    · rw [splitLines_cons hd]
      rcases mem_cons.mp hc with rfl | hc
      · exact ⟨_, mem_cons_self, mem_cons_self⟩
      · obtain ⟨l, hl, hcl⟩ := ih hc
        rw [splitLines] at hl
        rcases mem_cons.mp hl with rfl | hl
        · exact ⟨_, mem_cons_self, mem_cons_of_mem _ hcl⟩
        · exact ⟨l, mem_cons_of_mem _ hl, hcl⟩

/-- A text cut and joined again. -/
theorem intercalate_splitLines (t : List α) : [nl].intercalate (splitLines nl t) = t := by
  induction t with
  | nil => rfl
  | cons c t ih =>
    by_cases hc : c = nl
    · subst hc
      rw [splitLines_cons_nl]
      rw [splitLines] at ih ⊢
      rw [intercalate_cons_cons, ih, nil_append, singleton_append]
    · rw [splitLines_cons hc]
      rw [splitLines] at ih
      cases hrest : restLines nl t with
      | nil =>
        rw [hrest] at ih
        simpa using ih
      | cons l ls =>
        rw [hrest, intercalate_cons_cons] at ih
        rw [intercalate_cons_cons, cons_append, cons_append, ih]

/-- An end of line ends the last line. -/
theorem cut_concat_nl (t : List α) :
    fullLines nl (t ++ [nl]) = fullLines nl t ++ [lastLine nl t] ∧ lastLine nl (t ++ [nl]) = [] := by
  have hrest : restLines nl [nl] = [[]] := restLines_cons_nl []
  have hne : restLines nl [nl] ≠ [] := by simp [hrest]
  obtain ⟨hfull, hlast⟩ := cut_append_of_restLines_ne_nil t hne
  refine ⟨?_, ?_⟩
  · rw [hfull, firstLine_cons_nl, append_nil]
    simp [hrest]
  · rw [hlast]
    simp [hrest]

/-- How long a text is. -/
theorem length_eq_span (t : List α) : t.length + 1 = span (splitLines nl t) := by
  induction t with
  | nil => rfl
  | cons c t ih =>
    by_cases hc : c = nl
    · subst hc
      rw [splitLines_cons_nl, span, map_cons, sum_cons, ← span, ← ih]
      simp
      omega
    · rw [splitLines_cons hc]
      rw [splitLines] at ih
      simp only [span, map_cons, sum_cons, length_cons] at ih ⊢
      omega

omit [DecidableEq α] in
theorem span_append (ls ls' : List (List α)) : span (ls ++ ls') = span ls + span ls' := by
  simp [span]

omit [DecidableEq α] in
/-- How long lines are when they are joined. -/
theorem length_intercalate (hne : ls ≠ []) : ([nl].intercalate ls).length + 1 = span ls := by
  induction ls with
  | nil => exact absurd rfl hne
  | cons l ls ih =>
    cases ls with
    | nil => simp [span]
    | cons l' ls =>
      have hrest := ih (cons_ne_nil _ _)
      rw [intercalate_cons_cons, length_append, length_append, length_singleton, Nat.add_assoc, hrest]
      rfl

/-- The ended lines and the last one are all of the text. -/
theorem length_eq (t : List α) : t.length = span (fullLines nl t) + (lastLine nl t).length := by
  have h := @length_eq_span _ _ nl t
  rw [splitLines_eq, span_append] at h
  simp [span] at h ⊢
  omega

end Foxclaw.Lines
