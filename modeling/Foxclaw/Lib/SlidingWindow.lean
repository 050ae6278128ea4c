import Mathlib.Algebra.Order.Group.Defs
import Mathlib.Data.List.Basic
import Mathlib.Tactic.Abel

/-!
# Sliding windows over times

Which times of a list are still recent (`recent`), and which are in a window that starts at a
given time (`within`). A window of a length is half open: the end is not in it.

## What is proved

* `recent_recent`, `length_recent_le` — what is not recent stays so.
* `recent_eq_nil` — after the length of a window nothing is recent.
* `within_sublist_recent` — the times of a window, up to one of them, are recent at that time.
* `length_within_concat_le` — so a window has no more times than were recent at its last.
-/

namespace Foxclaw.SlidingWindow

open List

variable {α : Type*} [AddCommGroup α] [LinearOrder α] [IsOrderedAddMonoid α]

/-- The times that are recent at `now`. -/
def recent (w now : α) (times : List α) : List α := times.filter fun t => now - w < t

/-- The times in the window that starts at `start`. -/
def within (w start : α) (times : List α) : List α :=
  times.filter fun t => start ≤ t ∧ t < start + w

omit [IsOrderedAddMonoid α] in
theorem recent_append (w now : α) (times times' : List α) :
    recent w now (times ++ times') = recent w now times ++ recent w now times' :=
  filter_append ..

/-- What is not recent does not become so. -/
theorem recent_recent {w now later : α} (h : now ≤ later) (times : List α) :
    recent w later (recent w now times) = recent w later times := by
  rw [recent, recent, List.filter_filter]
  refine filter_congr fun t _ => ?_
  have : later - w < t → now - w < t := fun ht => (sub_le_sub_right h w).trans_lt ht
  by_cases ht : later - w < t
  · simp [ht, this ht]
  · simp [ht]

theorem length_recent_le {w now later : α} (h : now ≤ later) (times : List α) :
    (recent w later times).length ≤ (recent w now times).length := by
  rw [← recent_recent h]
  exact length_filter_le _ _

/-- After the length of a window nothing is recent. -/
theorem recent_eq_nil {w now : α} {times : List α} (h : ∀ t ∈ times, t + w ≤ now) :
    recent w now times = [] := by
  refine filter_eq_nil_iff.mpr fun t ht => ?_
  rw [decide_eq_true_eq, not_lt]
  exact le_sub_right_of_add_le (h t ht)

/-- A time is recent when it comes. -/
theorem recent_concat_self {w now : α} (hw : 0 < w) (times : List α) :
    recent w now (times ++ [now]) = recent w now times ++ [now] := by
  rw [recent_append]
  congr 1
  simp [recent, hw]

/-- What is in a window, up to a time in it, is recent at that time. -/
theorem within_sublist_recent {w start now : α} (hnow : now < start + w) (times : List α) :
    (within w start times).Sublist (recent w now times) := by
  refine monotone_filter_right times fun t ht => ?_
  rw [decide_eq_true_eq] at ht ⊢
  exact (sub_lt_iff_lt_add.mpr hnow).trans_le ht.1

/-- If `n` times are recent at `now`, then with `now` a window has at most `n + 1`, or no more than
before. -/
theorem length_within_concat_le (w start now : α) (times : List α) :
    (within w start (times ++ [now])).length ≤
      max (within w start times).length ((recent w now times).length + 1) := by
  rw [within, filter_append, ← within, length_append]
  by_cases h : start ≤ now ∧ now < start + w
  · rw [filter_cons_of_pos (by simpa using h), filter_nil, length_singleton]
    exact le_max_of_le_right (Nat.succ_le_succ (within_sublist_recent h.2 times).length_le)
  · rw [filter_cons_of_neg (by simpa using h), filter_nil]
    exact le_max_left _ _

end Foxclaw.SlidingWindow
