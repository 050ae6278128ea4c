import Foxclaw.Lib.StableSort
import Mathlib.Algebra.GroupWithZero.Nat

/-!
# Edits of a list of lines

An edit puts lines in the place of a range of lines, which may be empty. `patched` says what a set
of edits makes of a text, without an order of doing them: in front of each line, and at the end,
stand the new lines of the edits that start there, and a line stays unless an edit covers it.
Programs splice one edit after the other, from the last to the first: that comes to the same for
edits that are in order (`foldr_splice`).

## What is proved

* `patchedFrom_append` — edits of the front and edits of the back do not meet.
* `foldr_splice` — splicing edits in order, the last one first, gives the patched text.
* `foldr_splice_overrun`, `patched_overrun` — what the two are when insertions are spliced before an
  edit that covers the line they stand in front of.
* `lines_infix_patched`, `kept_sublist_patched` — the new lines of each edit are there in one
  piece, and the lines that no edit covers are there in their order.
* `patched_insertionSort` — the edits may be sorted by where they start.
* `length_patched` — how long the patched text is.
-/

namespace Foxclaw.LineEdits

open Bool List

universe u

variable {α : Type u}

/-- A replacement of lines. -/
structure Edit (α : Type u) where
  /-- The first line it replaces; without one, the line it stands before. -/
  start : ℕ
  removed : ℕ
  lines : List α
deriving DecidableEq

namespace Edit

/-- The line after those replaced. -/
def stop (e : Edit α) : ℕ := e.start + e.removed

/-- The edit replaces line `p`. -/
def covers (e : Edit α) (p : ℕ) : Bool := e.start ≤ p && p < e.stop

/-- The text with this edit made. -/
def splice (e : Edit α) (text : List α) : List α := text.take e.start ++ e.lines ++ text.drop e.stop

end Edit

variable (es : List (Edit α)) (p : ℕ)

/-- The new lines in front of line `p`. -/
def newAt : List α := (es.filter fun e => e.start = p).flatMap Edit.lines

/-- Line `p`, unless an edit replaces it. -/
def keptAt (line : α) : List α := if es.any (·.covers p) then [] else [line]

/-- What the edits make of the lines from line `p` on. -/
def patchedFrom (es : List (Edit α)) : ℕ → List α → List α
  | p, [] => newAt es p
  | p, line :: text => newAt es p ++ keptAt es p line ++ patchedFrom es (p + 1) text

/-- What the edits make of a text. -/
def patched (text : List α) : List α := patchedFrom es 0 text

/-- The lines from line `p` on that no edit replaces. -/
def keptFrom (es : List (Edit α)) : ℕ → List α → List α
  | _, [] => []
  | p, line :: text => keptAt es p line ++ keptFrom es (p + 1) text

/-- The edits follow each other in the text. -/
def InOrder : Prop := es.Pairwise fun e e' => e.stop ≤ e'.start

theorem Edit.start_le_stop (e : Edit α) : e.start ≤ e.stop := Nat.le_add_right _ _

theorem Edit.covers_iff {e : Edit α} {p : ℕ} : e.covers p = true ↔ e.start ≤ p ∧ p < e.stop := by
  simp [Edit.covers]

/-- An insertion replaces no line. -/
theorem Edit.covers_of_removed {e : Edit α} (h : e.removed = 0) (p : ℕ) : e.covers p = false := by
  rw [eq_false_iff]
  intro hcovers
  have := Edit.covers_iff.mp hcovers
  rw [Edit.stop] at this
  omega

/-! ### Where an edit counts -/

@[simp] theorem newAt_nil : newAt ([] : List (Edit α)) p = [] := rfl

theorem newAt_append (es es' : List (Edit α)) (p : ℕ) : newAt (es ++ es') p = newAt es p ++ newAt es' p := by
  simp [newAt]

theorem newAt_cons_of_eq {e : Edit α} {p : ℕ} (h : e.start = p) (es : List (Edit α)) :
    newAt (e :: es) p = e.lines ++ newAt es p := by
  simp [newAt, h]

theorem newAt_cons_of_ne {e : Edit α} {p : ℕ} (h : e.start ≠ p) (es : List (Edit α)) :
    newAt (e :: es) p = newAt es p := by
  simp [newAt, h]

theorem newAt_eq_nil {es : List (Edit α)} {p : ℕ} (h : ∀ e ∈ es, e.start ≠ p) : newAt es p = [] := by
  rw [newAt, filter_eq_nil_iff.mpr (by simpa using h)]
  rfl

theorem newAt_of_forall {es : List (Edit α)} {p : ℕ} (h : ∀ e ∈ es, e.start = p) :
    newAt es p = es.flatMap Edit.lines := by
  rw [newAt, filter_eq_self.mpr (by simpa using h)]

theorem keptAt_of_covers {es : List (Edit α)} {p : ℕ} {e : Edit α} (he : e ∈ es) (h : e.covers p = true)
    (line : α) : keptAt es p line = [] := by
  rw [keptAt, if_pos (List.any_eq_true.mpr ⟨e, he, h⟩)]

theorem keptAt_of_not {es : List (Edit α)} {p : ℕ} (h : ∀ e ∈ es, e.covers p = false) (line : α) :
    keptAt es p line = [line] := by
  rw [keptAt, if_neg]
  simpa using h

theorem keptAt_append_of_not {es es' : List (Edit α)} {p : ℕ} (h : ∀ e ∈ es, e.covers p = false)
    (line : α) : keptAt (es ++ es') p line = keptAt es' p line := by
  rw [keptAt, keptAt, any_append, List.any_eq_false.mpr (by simpa using h), Bool.false_or]

theorem keptAt_append_of_not' {es es' : List (Edit α)} {p : ℕ} (h : ∀ e ∈ es', e.covers p = false)
    (line : α) : keptAt (es ++ es') p line = keptAt es p line := by
  have hnone : es'.any (·.covers p) = false := List.any_eq_false.mpr (by simpa using h)
  rw [keptAt, keptAt, any_append, hnone, Bool.or_false]

@[simp] theorem patchedFrom_nil (text : List α) : patchedFrom [] p text = text := by
  induction text generalizing p with
  | nil => rfl
  | cons line text ih => simp [patchedFrom, keptAt, ih]

/-- Edits that end before the text do nothing to it, save for new lines right before it. -/
theorem patchedFrom_append_left {es : List (Edit α)} {p : ℕ} (h : ∀ e ∈ es, e.stop ≤ p)
    (es' : List (Edit α)) (text : List α) :
    patchedFrom (es ++ es') p text = newAt es p ++ patchedFrom es' p text := by
  have hnot : ∀ q, p ≤ q → ∀ e ∈ es, e.covers q = false := by
    intro q hq e he
    have hstop := h e he
    simp only [Edit.covers, and_eq_false_iff, decide_eq_false_iff_not]
    omega
  have hgap : ∀ q, p < q → newAt es q = [] := by
    intro q hq
    refine newAt_eq_nil fun e he => ?_
    have hle := (e.start_le_stop).trans (h e he)
    omega
  -- behind `p` the edits in front have no part in it
  have hpast : ∀ (text : List α) q, p < q → patchedFrom (es ++ es') q text = patchedFrom es' q text := by
    intro text
    induction text with
    | nil =>
      intro q hq
      rw [patchedFrom, patchedFrom, newAt_append, hgap q hq, nil_append]
    | cons line text ih =>
      intro q hq
      rw [patchedFrom, patchedFrom, newAt_append, hgap q hq, nil_append,
        keptAt_append_of_not (hnot q hq.le), ih (q + 1) (by omega)]
  cases text with
  | nil => rw [patchedFrom, patchedFrom, newAt_append]
  | cons line text =>
    rw [patchedFrom, patchedFrom, newAt_append, keptAt_append_of_not (hnot p le_rfl),
      hpast text (p + 1) (by omega)]
    simp only [append_assoc]

/-- Edits of the front of a text and edits of its back. -/
theorem patchedFrom_append {es es' : List (Edit α)} {p : ℕ} {front : List α}
    (h : ∀ e ∈ es, e.stop ≤ p + front.length) (h' : ∀ e ∈ es', p + front.length ≤ e.start) (back : List α) :
    patchedFrom (es ++ es') p (front ++ back) =
      patchedFrom es p front ++ patchedFrom es' (p + front.length) back := by
  induction front generalizing p with
  | nil =>
    have hleft := patchedFrom_append_left (by simpa using h) es' back
    simpa [patchedFrom] using hleft
  | cons line front ih =>
    have hlen : p + (line :: front).length = p + 1 + front.length := by
      rw [length_cons]
      omega
    rw [hlen] at h h'
    have hnil : newAt es' p = [] := newAt_eq_nil fun e he => by have := h' e he; omega
    have hnot : ∀ e ∈ es', e.covers p = false := by
      intro e he
      have hstart := h' e he
      simp only [Edit.covers, and_eq_false_iff, decide_eq_false_iff_not]
      omega
    rw [cons_append, patchedFrom, patchedFrom, newAt_append, hnil, append_nil,
      keptAt_append_of_not' hnot, ih h h', hlen]
    simp only [append_assoc]

/-- Edits of the back leave the front as it is. -/
theorem patchedFrom_of_le {es : List (Edit α)} {p : ℕ} {front : List α}
    (h : ∀ e ∈ es, p + front.length ≤ e.start) (back : List α) :
    patchedFrom es p (front ++ back) = front ++ patchedFrom es (p + front.length) back := by
  simpa using @patchedFrom_append _ [] es p front (by simp) h back

/-- Covered lines are gone. -/
theorem patchedFrom_of_covered {e : Edit α} {es : List (Edit α)} {p : ℕ} {front : List α}
    (hlt : e.start < p) (hstop : p + front.length ≤ e.stop)
    (h : ∀ e' ∈ es, p + front.length ≤ e'.start) (back : List α) :
    patchedFrom (e :: es) p (front ++ back) = patchedFrom (e :: es) (p + front.length) back := by
  induction front generalizing p with
  | nil => simp
  | cons line front ih =>
    have hlen : p + (line :: front).length = p + 1 + front.length := by
      rw [length_cons]
      omega
    rw [hlen] at hstop h
    have hnil : newAt (e :: es) p = [] := by
      rw [newAt_cons_of_ne (by omega)]
      exact newAt_eq_nil fun e' he' => by have := h e' he'; omega
    rw [cons_append, patchedFrom, hnil, keptAt_of_covers mem_cons_self
      (Edit.covers_iff.mpr ⟨by omega, by omega⟩), ih (by omega) hstop h, hlen]
    rfl

/-! ### Splicing -/

/-- The first edit is spliced into what the later ones made. -/
theorem splice_patched {e : Edit α} {es : List (Edit α)} (h : ∀ e' ∈ es, e.stop ≤ e'.start) {text : List α}
    (hle : e.stop ≤ text.length) : e.splice (patched es text) = patched (e :: es) text := by
  have hstart := e.start_le_stop
  obtain ⟨front, rest, rfl, hfront⟩ : ∃ front rest, text = front ++ rest ∧ front.length = e.start :=
    ⟨text.take e.start, text.drop e.start, (take_append_drop _ _).symm, by simp; omega⟩
  obtain ⟨mid, back, rfl, hmid⟩ : ∃ mid back, rest = mid ++ back ∧ mid.length = e.removed := by
    refine ⟨rest.take e.removed, rest.drop e.removed, (take_append_drop _ _).symm, ?_⟩
    simp only [Edit.stop, length_append] at hle
    rw [length_take]
    omega
  have hlen : front.length + mid.length = e.stop := by rw [hfront, hmid, Edit.stop]
  -- the later edits leave everything up to the end of this one alone
  have hlater : patched es (front ++ (mid ++ back)) = front ++ (mid ++ patchedFrom es e.stop back) := by
    rw [patched, ← append_assoc, patchedFrom_of_le (by simpa [hlen] using h)]
    simp [hlen]
  have hboth : patched (e :: es) (front ++ (mid ++ back)) =
      front ++ patchedFrom (e :: es) e.start (mid ++ back) := by
    have hge : ∀ e' ∈ e :: es, 0 + front.length ≤ e'.start := by
      intro e' he'
      rcases mem_cons.mp he' with rfl | he'
      · omega
      · have := h e' he'
        omega
    rw [patched, patchedFrom_of_le hge, Nat.zero_add, hfront]
  have hthis : patchedFrom (e :: es) e.start (mid ++ back) = e.lines ++ patchedFrom es e.stop back := by
    cases mid with
    | nil =>
      have hremoved : e.stop = e.start := by rw [Edit.stop, ← hmid]; rfl
      rw [nil_append, ← singleton_append, patchedFrom_append_left (by simp [hremoved]),
        newAt_cons_of_eq rfl, newAt_nil, append_nil, hremoved]
    | cons line mid =>
      have hpos : e.start + 1 + mid.length = e.stop := by rw [Edit.stop, ← hmid, length_cons]; omega
      have hnil : newAt es e.start = [] := newAt_eq_nil fun e' he' => by have := h e' he'; omega
      rw [cons_append, patchedFrom, newAt_cons_of_eq rfl, hnil, append_nil,
        keptAt_of_covers mem_cons_self (Edit.covers_iff.mpr ⟨le_rfl, by omega⟩), append_nil,
        patchedFrom_of_covered (Nat.lt_succ_self _) (by omega) (fun e' he' => by rw [hpos]; exact h e' he'),
        hpos, ← singleton_append, patchedFrom_append_left (by simp), newAt_cons_of_ne (by omega),
        newAt_nil, nil_append]
  rw [hlater, hboth, hthis, Edit.splice]
  have hdrop : (front ++ (mid ++ patchedFrom es e.stop back)).drop e.stop = patchedFrom es e.stop back := by
    rw [← append_assoc, ← hlen, ← length_append, drop_left]
  rw [hdrop, ← hfront, take_left, append_assoc]

/-- Edits in order are spliced from the last to the first. -/
theorem foldr_splice {es : List (Edit α)} {text : List α} (horder : InOrder es)
    (hle : ∀ e ∈ es, e.stop ≤ text.length) : es.foldr Edit.splice text = patched es text := by
  induction es with
  | nil => exact (patchedFrom_nil 0 text).symm
  | cons e es ih =>
    have hcons := pairwise_cons.mp horder
    rw [foldr_cons, ih hcons.2 fun e' he' => hle e' (mem_cons_of_mem _ he')]
    exact splice_patched hcons.1 (hle e mem_cons_self)

theorem foldr_splice_append {es : List (Edit α)} {front : List α} (horder : InOrder es)
    (hle : ∀ e ∈ es, e.stop ≤ front.length) (back : List α) :
    es.foldr Edit.splice (front ++ back) = patched es front ++ back := by
  have hall : es.foldr Edit.splice (front ++ back) = patched es (front ++ back) := by
    refine foldr_splice horder fun e he => ?_
    rw [length_append]
    exact (hle e he).trans (Nat.le_add_right _ _)
  have happend := @patchedFrom_append _ es [] 0 front (by simpa using hle) (by simp) back
  rw [append_nil, patchedFrom_nil] at happend
  rw [hall]
  exact happend

/-- Splices bring in the new lines of the edits only. -/
theorem mem_foldr_splice {es : List (Edit α)} {text : List α} {line : α}
    (h : line ∈ es.foldr Edit.splice text) : line ∈ text ∨ ∃ e ∈ es, line ∈ e.lines := by
  induction es with
  | nil => exact .inl h
  | cons e es ih =>
    rw [foldr_cons, Edit.splice] at h
    have hrest : line ∈ es.foldr Edit.splice text → line ∈ text ∨ ∃ e' ∈ e :: es, line ∈ e'.lines :=
      fun hmem => (ih hmem).imp_right fun ⟨e', he', hl⟩ => ⟨e', mem_cons_of_mem _ he', hl⟩
    rcases mem_append.mp h with h | h
    · rcases mem_append.mp h with h | h
      · exact hrest (mem_of_mem_take h)
      · exact .inr ⟨e, mem_cons_self, h⟩
    · exact hrest (mem_of_mem_drop h)

/-! ### An edit behind which lines are inserted too early

The last line of a text is replaced, alone or with lines before it, and other edits insert lines in
front of it. When these are spliced first, the replacement takes the first of their lines for the
last line of the text. -/

section Overrun

variable {front inserts ends : List (Edit α)} {m : Edit α} {init : List α} (last : α)
  (horder : InOrder front) (hfront : ∀ e ∈ front, e.stop ≤ m.start) (hstart : m.start ≤ init.length)
  (hstop : m.stop = init.length + 1) (hinserts : ∀ e ∈ inserts, e.start = init.length ∧ e.removed = 0)
  (hends : ∀ e ∈ ends, e.start = init.length + 1 ∧ e.removed = 0)

include horder hfront hstart hstop hinserts hends in
theorem foldr_splice_overrun :
    (front ++ m :: (inserts ++ ends)).foldr Edit.splice (init ++ [last]) =
      patched front (init.take m.start) ++ (m.lines ++
        ((inserts.flatMap Edit.lines ++ [last]).tail ++ ends.flatMap Edit.lines)) := by
  have hge : ∀ e ∈ inserts ++ ends, 0 + init.length ≤ e.start := by
    intro e he
    rcases mem_append.mp he with he | he
    · have := (hinserts e he).1
      omega
    · have := (hends e he).1
      omega
  have hlater : (inserts ++ ends).foldr Edit.splice (init ++ [last]) =
      init ++ (inserts.flatMap Edit.lines ++ [last] ++ ends.flatMap Edit.lines) := by
    have hin : InOrder (inserts ++ ends) := by
      refine pairwise_append.mpr ⟨?_, ?_, ?_⟩
      · refine pairwise_of_forall_mem_list fun e he e' he' => ?_
        have h := hinserts e he
        have h' := hinserts e' he'
        rw [Edit.stop]
        omega
      · refine pairwise_of_forall_mem_list fun e he e' he' => ?_
        have h := hends e he
        have h' := hends e' he'
        rw [Edit.stop]
        omega
      · intro e he e' he'
        have h := hinserts e he
        have h' := hends e' he'
        rw [Edit.stop]
        omega
    have hle : ∀ e ∈ inserts ++ ends, e.stop ≤ (init ++ [last]).length := by
      intro e he
      rw [length_append, length_singleton, Edit.stop]
      rcases mem_append.mp he with he | he
      · have := hinserts e he
        omega
      · have := hends e he
        omega
    have hnone : ∀ e ∈ inserts ++ ends, e.covers init.length = false := by
      intro e he
      rcases mem_append.mp he with he | he
      · exact Edit.covers_of_removed (hinserts e he).2 _
      · exact Edit.covers_of_removed (hends e he).2 _
    rw [foldr_splice hin hle, patched, patchedFrom_of_le hge, Nat.zero_add, patchedFrom, patchedFrom,
      keptAt_of_not hnone, newAt_append, newAt_append, newAt_of_forall fun e he => (hinserts e he).1,
      newAt_of_forall fun e he => (hends e he).1, newAt_eq_nil, newAt_eq_nil]
    · simp
    · intro e he
      have := (hinserts e he).1
      omega
    · intro e he
      have := (hends e he).1
      omega
  rw [foldr_append, foldr_cons, hlater, Edit.splice, take_append_of_le_length hstart,
    drop_append, drop_of_length_le (by omega), nil_append, hstop, Nat.add_sub_cancel_left,
    append_assoc, foldr_splice_append horder (by
      intro e he
      have := hfront e he
      rw [length_take]
      omega)]
  have htail : (inserts.flatMap Edit.lines ++ [last] ++ ends.flatMap Edit.lines).drop 1 =
      (inserts.flatMap Edit.lines ++ [last]).tail ++ ends.flatMap Edit.lines := by
    rw [drop_one, tail_append_of_ne_nil (by simp)]
  rw [htail]

include hfront hstart hstop hinserts hends in
theorem patched_overrun :
    patched (front ++ m :: (inserts ++ ends)) (init ++ [last]) =
      patched front (init.take m.start) ++ (m.lines ++
        (inserts.flatMap Edit.lines ++ ends.flatMap Edit.lines)) := by
  have hkept : keptAt (m :: (inserts ++ ends)) init.length last = [] :=
    keptAt_of_covers mem_cons_self (Edit.covers_iff.mpr ⟨hstart, by omega⟩) last
  have hinsert : newAt (inserts ++ ends) init.length = inserts.flatMap Edit.lines := by
    rw [newAt_append, newAt_of_forall fun e he => (hinserts e he).1, newAt_eq_nil, append_nil]
    intro e he
    have := (hends e he).1
    omega
  have hend : newAt (m :: (inserts ++ ends)) (init.length + 1) = ends.flatMap Edit.lines := by
    rw [newAt_cons_of_ne (by omega), newAt_append, newAt_of_forall fun e he => (hends e he).1,
      newAt_eq_nil, nil_append]
    intro e he
    have := (hinserts e he).1
    omega
  have hge : ∀ e ∈ inserts ++ ends, init.length ≤ e.start := by
    intro e he
    rcases mem_append.mp he with he | he
    · have := (hinserts e he).1
      omega
    · have := (hends e he).1
      omega
  have hback : patchedFrom (m :: (inserts ++ ends)) m.start (init.drop m.start ++ [last]) =
      m.lines ++ (inserts.flatMap Edit.lines ++ ends.flatMap Edit.lines) := by
    rcases hstart.eq_or_lt with heq | hlt
    · rw [heq, drop_length, nil_append, patchedFrom, patchedFrom, hkept, hend,
        newAt_cons_of_eq heq, hinsert, append_nil, append_assoc]
    · -- between its first line and the last one the replacement leaves nothing
      have hmid : m.start + 1 + (init.drop (m.start + 1)).length = init.length := by
        rw [length_drop]
        omega
      have hnil : newAt (inserts ++ ends) m.start = [] :=
        newAt_eq_nil fun e he => by have := hge e he; omega
      rw [drop_eq_getElem_cons hlt, cons_append, patchedFrom, newAt_cons_of_eq rfl, hnil,
        keptAt_of_covers mem_cons_self (Edit.covers_iff.mpr ⟨le_rfl, by omega⟩),
        patchedFrom_of_covered (Nat.lt_succ_self _) (by omega) (by rw [hmid]; exact hge), hmid, patchedFrom,
        patchedFrom, hkept, hend, newAt_cons_of_ne (by omega), hinsert]
      simp only [append_nil]
  have hlen : (init.take m.start).length = m.start := length_take_of_le hstart
  calc patched (front ++ m :: (inserts ++ ends)) (init ++ [last])
      = patchedFrom (front ++ m :: (inserts ++ ends)) 0
          (init.take m.start ++ (init.drop m.start ++ [last])) := by
        rw [← append_assoc, take_append_drop, patched]
    _ = patched front (init.take m.start) ++
          patchedFrom (m :: (inserts ++ ends)) m.start (init.drop m.start ++ [last]) := by
        rw [patchedFrom_append, hlen, Nat.zero_add, patched]
        · simpa [hlen] using hfront
        · intro e he
          rw [hlen, Nat.zero_add]
          rcases mem_cons.mp he with rfl | he
          · exact le_rfl
          · exact hstart.trans (hge e he)
    _ = _ := by rw [hback]

end Overrun

/-! ### What the patched text holds -/

theorem lines_infix_patchedFrom {es : List (Edit α)} {e : Edit α} (he : e ∈ es) {p : ℕ} {text : List α}
    (hp : p ≤ e.start) (hle : e.start ≤ p + text.length) : e.lines <:+: patchedFrom es p text := by
  have hhere : e.lines <:+: newAt es e.start := by
    refine infix_of_mem_flatten (List.mem_map_of_mem ?_)
    simpa using he
  induction text generalizing p with
  | nil =>
    rw [length_nil] at hle
    rw [patchedFrom, show p = e.start by omega]
    exact hhere
  | cons line text ih =>
    rw [length_cons] at hle
    rw [patchedFrom]
    by_cases hstart : e.start = p
    · rw [← hstart, append_assoc]
      exact hhere.trans (prefix_append _ _).isInfix
    · exact (ih (by omega) (by omega)).trans (suffix_append _ _).isInfix

/-- The new lines of an edit stand in one piece. -/
theorem lines_infix_patched {es : List (Edit α)} {e : Edit α} (he : e ∈ es) {text : List α}
    (hle : e.start ≤ text.length) : e.lines <:+: patched es text :=
  lines_infix_patchedFrom he (Nat.zero_le _) (by omega)

/-- The lines that no edit replaces are there, in their order. -/
theorem kept_sublist_patched (text : List α) : (keptFrom es p text).Sublist (patchedFrom es p text) := by
  induction text generalizing p with
  | nil => exact nil_sublist _
  | cons line text ih =>
    rw [keptFrom, patchedFrom]
    exact (sublist_append_right _ _).append (ih (p + 1))

/-- The edits with one start, in their order, and the lines replaced decide what the text becomes. -/
theorem patchedFrom_congr {es es' : List (Edit α)} (hat : ∀ p, newAt es p = newAt es' p)
    (hkept : ∀ p line, keptAt es p line = keptAt es' p line) (p : ℕ) (text : List α) :
    patchedFrom es p text = patchedFrom es' p text := by
  induction text generalizing p with
  | nil => exact hat p
  | cons line text ih => rw [patchedFrom, patchedFrom, hat, hkept, ih]

/-- The edits may be sorted. -/
theorem patched_insertionSort (text : List α) :
    patched (es.insertionSort fun e e' => e.start ≤ e'.start) text = patched es text := by
  refine patchedFrom_congr (fun p => ?_) (fun p line => ?_) 0 text
  · rw [newAt, StableSort.filter_insertionSort, newAt]
  · rw [keptAt, (perm_insertionSort _ es).any_eq, keptAt]

/-! ### How long the patched text is -/

theorem length_newAt :
    (newAt es p).length = ((es.filter fun e => e.start = p).map fun e => e.lines.length).sum := by
  rw [newAt, length_flatMap]

theorem sum_filter_le (f : Edit α → ℕ) (p : ℕ) (es : List (Edit α)) :
    ((es.filter fun e => p ≤ e.start).map f).sum =
      ((es.filter fun e => e.start = p).map f).sum + ((es.filter fun e => p + 1 ≤ e.start).map f).sum := by
  induction es with
  | nil => rfl
  | cons e es ih =>
    simp only [filter_cons, decide_eq_true_eq]
    rcases lt_trichotomy e.start p with hlt | heq | hgt
    · rw [if_neg (by omega), if_neg (by omega), if_neg (by omega), ih]
    · rw [if_pos (by omega), if_pos heq, if_neg (by omega), map_cons, map_cons, sum_cons,
        sum_cons, ih, Nat.add_assoc]
    · rw [if_pos (by omega), if_neg (by omega), if_pos (by omega), map_cons, map_cons,
        sum_cons, sum_cons, ih, Nat.add_left_comm]

theorem length_patchedFrom (text : List α) (hle : ∀ e ∈ es, e.start ≤ p + text.length) :
    (patchedFrom es p text).length =
      ((es.filter fun e => p ≤ e.start).map fun e => e.lines.length).sum + (keptFrom es p text).length := by
  induction text generalizing p with
  | nil =>
    have hfilter : (es.filter fun e => p ≤ e.start) = es.filter fun e => e.start = p := by
      refine filter_congr fun e he => ?_
      have := hle e he
      rw [length_nil] at this
      exact decide_eq_decide.mpr (by omega)
    rw [patchedFrom, keptFrom, length_newAt, hfilter]
    rfl
  | cons line text ih =>
    have hsum := sum_filter_le (fun e : Edit α => e.lines.length) p es
    rw [length_cons] at hle
    rw [patchedFrom, keptFrom, length_append, length_append, length_append, length_newAt,
      ih (p + 1) (fun e he => by have := hle e he; omega), hsum]
    omega

theorem length_patched {es : List (Edit α)} {text : List α} (hle : ∀ e ∈ es, e.start ≤ text.length) :
    (patched es text).length = (es.map fun e => e.lines.length).sum + (keptFrom es 0 text).length := by
  have hall : (es.filter fun e => 0 ≤ e.start) = es := filter_eq_self.mpr fun e _ => by simp
  rw [patched, length_patchedFrom es 0 text (by simpa using hle), hall]

end Foxclaw.LineEdits
