import Mathlib.Data.List.Sort

/-!
# The place of an element in a stable sort

`List.insertionSort` is stable. So an element stands behind those that come before it in the list
and may stay there, and behind those that come after it in the list and have to move before it
(`insertionSort_split`). Sorted by a number, a list is made of its parts with one number each, in
their old order (`insertionSort_eq_of_filter`).
-/

namespace Foxclaw.StableSort

open List

universe u

variable {α : Type u} (r : α → α → Prop) [DecidableRel r]

/-- How many elements come before `x` in the sort of `before ++ x :: after`. -/
def rank (before : List α) (x : α) (after : List α) : ℕ :=
  before.countP (fun y => r y x) + after.countP (fun y => ¬ r x y)

variable {r}

theorem rank_le (before : List α) (x : α) (after : List α) :
    rank r before x after ≤ before.length + after.length :=
  Nat.add_le_add countP_le_length countP_le_length

/-- An element that may stand before `x` is inserted before it. -/
theorem orderedInsert_append_of_rel {a x : α} (h : r a x) (front back : List α) :
    (front ++ x :: back).orderedInsert r a = front.orderedInsert r a ++ x :: back := by
  induction front with
  | nil => exact orderedInsert_cons_of_le r back h
  | cons b front ih =>
    by_cases hab : r a b
    · rw [cons_append, orderedInsert_cons_of_le r _ hab, orderedInsert_cons_of_le r _ hab]
      rfl
    · rw [cons_append, orderedInsert_of_not_le r _ hab, orderedInsert_of_not_le r _ hab, ih]
      rfl

/-- An element that may stand before none of `front` is inserted after them. -/
theorem orderedInsert_append_of_not {a : α} {front : List α} (h : ∀ b ∈ front, ¬ r a b)
    (back : List α) : (front ++ back).orderedInsert r a = front ++ back.orderedInsert r a := by
  induction front with
  | nil => rfl
  | cons b front ih =>
    rw [cons_append, orderedInsert_of_not_le r _ (h b mem_cons_self),
      ih fun c hc => h c (mem_cons_of_mem b hc)]
    rfl

section Sorted

variable [IsTrans α r]

/-- What stands before an element in a sorted list is what it has to follow. -/
theorem length_takeWhile_of_sorted (x : α) {l : List α} (h : l.Pairwise r) :
    (l.takeWhile fun y => ¬ r x y).length = l.countP fun y => ¬ r x y := by
  induction l with
  | nil => rfl
  | cons b l ih =>
    rw [pairwise_cons] at h
    by_cases hxb : r x b
    · have hnone : (b :: l).countP (fun y => ¬ r x y) = 0 := by
        rw [countP_eq_zero]
        intro y hy
        rcases mem_cons.mp hy with rfl | hy
        · simpa using hxb
        · simpa using IsTrans.trans x b y hxb (h.1 y hy)
      rw [hnone, takeWhile_cons_of_neg (by simpa using hxb)]
      rfl
    · rw [takeWhile_cons_of_pos (by simpa using hxb), countP_cons_of_pos (by simpa using hxb),
        length_cons, ih h.2]

variable [Std.Total r]

/-- Where an element stands in the sort. -/
theorem insertionSort_split (before : List α) (x : α) (after : List α) :
    ∃ front back, (before ++ x :: after).insertionSort r = front ++ x :: back ∧
      front.length = rank r before x after := by
  induction before with
  | nil =>
    refine ⟨_, _, insertionSort_cons_eq_take_drop r x after, ?_⟩
    rw [length_takeWhile_of_sorted x (pairwise_insertionSort r after), rank,
      (perm_insertionSort r after).countP_eq]
    simp
  | cons a before ih =>
    obtain ⟨front, back, hsort, hlength⟩ := ih
    rw [cons_append, insertionSort_cons, hsort]
    by_cases hax : r a x
    · refine ⟨front.orderedInsert r a, back, orderedInsert_append_of_rel hax front back, ?_⟩
      rw [orderedInsert_length, hlength, rank, rank, countP_cons_of_pos (by simpa using hax)]
      omega
    · -- all of `front` may stand before `x`, so `a` before none of them
      have hfront : ∀ b ∈ front ++ [x], ¬ r a b := by
        intro b hb hab
        rcases mem_append.mp hb with hb | hb
        · have hsorted := pairwise_insertionSort r (before ++ x :: after)
          rw [hsort] at hsorted
          exact hax (IsTrans.trans a b x hab ((pairwise_append.mp hsorted).2.2 b hb x mem_cons_self))
        · exact hax (mem_singleton.mp hb ▸ hab)
      refine ⟨front, back.orderedInsert r a, ?_, ?_⟩
      · have hinsert := orderedInsert_append_of_not hfront back
        simpa using hinsert
      · rw [hlength, rank, rank, countP_cons_of_neg (by simpa using hax)]

/-- Which element is not among the first `n`. -/
theorem mem_drop_insertionSort_iff {before : List α} {x : α} {after : List α}
    (hnodup : (before ++ x :: after).Nodup) (n : ℕ) :
    x ∈ ((before ++ x :: after).insertionSort r).drop n ↔ n ≤ rank r before x after := by
  obtain ⟨front, back, hsort, hlength⟩ := insertionSort_split (r := r) before x after
  have hsorted : (front ++ x :: back).Nodup := by
    rw [← hsort]
    exact (perm_insertionSort r _).nodup_iff.mpr hnodup
  rw [hsort, ← hlength]
  constructor
  · intro hmem
    by_contra hlt
    obtain ⟨k, hk⟩ : ∃ k, n = (front ++ [x]).length + k := ⟨n - (front.length + 1), by simp; omega⟩
    have hback : x ∈ back := by
      rw [hk, ← drop_drop, append_cons front x back, drop_left] at hmem
      exact mem_of_mem_drop hmem
    exact (nodup_cons.mp (nodup_append.mp hsorted).2.1).1 hback
  · intro hle
    rw [drop_append_of_le_length hle]
    simp

end Sorted

section Key

variable (key : α → ℕ)

/-- The elements with one key keep their order. -/
theorem filter_insertionSort (l : List α) (k : ℕ) :
    (l.insertionSort fun x y => key x ≤ key y).filter (fun x => key x = k) =
      l.filter fun x => key x = k := by
  have hsame : ∀ x ∈ l.filter (fun x => key x = k), key x = k := by
    intro x hx
    simpa using (mem_filter.mp hx).2
  have hsorted : (l.filter fun x => key x = k).Pairwise fun x y => key x ≤ key y := by
    refine pairwise_iff_forall_sublist.mpr fun {x y} hxy => ?_
    have hx := hsame x (hxy.subset (by simp))
    have hy := hsame y (hxy.subset (by simp))
    omega
  have hsub := (sublist_insertionSort hsorted filter_sublist).filter fun x => key x = k
  rw [List.filter_filter, filter_congr fun x _ => Bool.and_self _] at hsub
  exact (hsub.eq_of_length ((perm_insertionSort _ l).filter _).length_eq.symm).symm

/-- Two lists sorted by a key are one when they agree on the elements with each key. -/
theorem eq_of_filter_eq {l l' : List α} (hl : l.Pairwise fun x y => key x ≤ key y)
    (hl' : l'.Pairwise fun x y => key x ≤ key y)
    (h : ∀ k, l.filter (fun x => key x = k) = l'.filter fun x => key x = k) : l = l' := by
  induction l generalizing l' with
  | nil =>
    cases l' with
    | nil => rfl
    | cons b l' => simpa using h (key b)
  | cons a l ih =>
    cases l' with
    | nil => simpa using h (key a)
    | cons b l' =>
      rw [pairwise_cons] at hl hl'
      -- each head occurs in the other list, so neither key is the smaller one
      have hab : key a ≤ key b := by
        have hb : b ∈ (a :: l).filter fun x => key x = key b := by simp [h]
        rcases mem_cons.mp (mem_filter.mp hb).1 with rfl | hb
        · exact le_rfl
        · exact hl.1 b hb
      have hba : key b ≤ key a := by
        have ha : a ∈ (b :: l').filter fun x => key x = key a := by simp [← h]
        rcases mem_cons.mp (mem_filter.mp ha).1 with rfl | ha
        · exact le_rfl
        · exact hl'.1 a ha
      have hkey : key a = key b := le_antisymm hab hba
      have heq : a = b := by
        have hk := h (key a)
        simp only [filter_cons, hkey, decide_true, ↓reduceIte, List.cons.injEq] at hk
        exact hk.1
      subst heq
      refine congrArg (a :: ·) (ih hl.2 hl'.2 fun k => ?_)
      have hk := h k
      simp only [filter_cons] at hk
      split at hk
      · exact (List.cons.inj hk).2
      · exact hk

/-- What a list is when it is sorted by a key. -/
theorem insertionSort_eq_of_filter {l l' : List α} (hl' : l'.Pairwise fun x y => key x ≤ key y)
    (h : ∀ k, l'.filter (fun x => key x = k) = l.filter fun x => key x = k) :
    l.insertionSort (fun x y => key x ≤ key y) = l' := by
  have : Std.Total (fun x y : α => key x ≤ key y) := ⟨fun x y => le_total (key x) (key y)⟩
  have : IsTrans α (fun x y => key x ≤ key y) := ⟨fun _ _ _ => le_trans⟩
  refine eq_of_filter_eq key (pairwise_insertionSort _ l) hl' fun k => ?_
  rw [filter_insertionSort, h]

/-- Around one key, a list is sorted when what lies below it and what lies above it are. -/
theorem insertionSort_eq_split {l : List α} (k : ℕ)
    (hbelow : (l.filter fun x => key x < k).Pairwise fun x y => key x ≤ key y)
    (habove : (l.filter fun x => k < key x).Pairwise fun x y => key x ≤ key y) :
    l.insertionSort (fun x y => key x ≤ key y) =
      (l.filter fun x => key x < k) ++ ((l.filter fun x => key x = k) ++ l.filter fun x => k < key x) := by
  have hb : ∀ x ∈ l.filter (fun x => key x < k), key x < k := fun x hx => by
    simpa using (mem_filter.mp hx).2
  have he : ∀ x ∈ l.filter (fun x => key x = k), key x = k := fun x hx => by
    simpa using (mem_filter.mp hx).2
  have ha : ∀ x ∈ l.filter (fun x => k < key x), k < key x := fun x hx => by
    simpa using (mem_filter.mp hx).2
  refine insertionSort_eq_of_filter key ?_ fun j => ?_
  · refine pairwise_append.mpr ⟨hbelow, pairwise_append.mpr ⟨?_, habove, ?_⟩, ?_⟩
    · exact pairwise_of_forall_mem_list fun x hx y hy => by rw [he x hx, he y hy]
    · intro x hx y hy
      rw [he x hx]
      exact (ha y hy).le
    · intro x hx y hy
      have hx := hb x hx
      rcases mem_append.mp hy with hy | hy
      · rw [he y hy]
        exact hx.le
      · exact hx.le.trans (ha y hy).le
  · -- of the three parts only one holds elements with key `j`
    have hpart : ∀ p : α → Bool, (∀ x, key x = j → p x = true) →
        (l.filter p).filter (fun x => key x = j) = l.filter fun x => key x = j := by
      intro p hp
      rw [List.filter_filter]
      refine filter_congr fun x _ => ?_
      by_cases hx : key x = j
      · simp [hx, hp x hx]
      · simp [hx]
    have hnone : ∀ p : α → Bool, (∀ x, key x = j → p x = false) →
        (l.filter p).filter (fun x => key x = j) = [] := by
      intro p hp
      rw [List.filter_filter, filter_eq_nil_iff]
      intro x _
      by_cases hx : key x = j
      · simp [hp x hx]
      · simp [hx]
    rw [filter_append, filter_append]
    rcases lt_trichotomy j k with hj | rfl | hj
    · rw [hpart _ (by simp; omega), hnone _ (by simp; omega), hnone _ (by simp; omega), append_nil,
        append_nil]
    · rw [hnone _ (by simp; omega), hpart _ (by simp), hnone _ (by simp; omega), nil_append,
        append_nil]
    · rw [hnone _ (by simp; omega), hnone _ (by simp; omega), hpart _ (by simp; omega), nil_append,
        nil_append]

end Key

end Foxclaw.StableSort
