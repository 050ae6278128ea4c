import Mathlib.Algebra.Order.Group.Int
import Mathlib.Data.List.Basic

/-!
# Sweeps

A sweep takes the steps of a list in order, and stops when a measure of the state is at most a
bound. What a sweep with some bound does is what a prefix of the steps does (`sweepTo_eq_foldl`),
and it is known which prefix (`sweepTo_of_prefix`).
-/

namespace Foxclaw.Sweep

universe u v

variable {σ : Type u} {α : Type v} (step : σ → α → σ) (measure : σ → ℤ)

/-- Steps are taken until the measure is at most the bound. -/
def sweepTo (bound : ℤ) : List α → σ → σ
  | [], s => s
  | a :: as, s => if measure s ≤ bound then s else sweepTo bound as (step s a)

variable {step measure} {bound : ℤ}

variable {s : σ}

theorem sweepTo_of_le (as : List α) (h : measure s ≤ bound) : sweepTo step measure bound as s = s := by
  cases as with
  | nil => rfl
  | cons a as => exact if_pos h

theorem sweepTo_append (as bs : List α) (s : σ) :
    sweepTo step measure bound (as ++ bs) s =
      sweepTo step measure bound bs (sweepTo step measure bound as s) := by
  induction as generalizing s with
  | nil => rfl
  | cons a as ih =>
    by_cases h : measure s ≤ bound
    · rw [sweepTo_of_le _ h, sweepTo_of_le _ h, sweepTo_of_le _ h]
    · simp only [List.cons_append, sweepTo, if_neg h]
      exact ih _

theorem sweepTo_map {β : Type*} (f : β → α) (bs : List β) (s : σ) :
    sweepTo step measure bound (bs.map f) s =
      sweepTo (fun s b => step s (f b)) measure bound bs s := by
  induction bs generalizing s with
  | nil => rfl
  | cons b bs ih =>
    simp only [List.map_cons, sweepTo]
    rw [ih]

/-- A sweep takes the steps of a prefix, each because the measure is above the bound, and stops at
the end or because it is not. -/
theorem sweepTo_eq_foldl (step : σ → α → σ) (measure : σ → ℤ) (bound : ℤ) (as : List α) (s : σ) :
    ∃ pre post, as = pre ++ post ∧ sweepTo step measure bound as s = pre.foldl step s ∧
      (∀ p x q, pre = p ++ x :: q → bound < measure (p.foldl step s)) ∧
      (post = [] ∨ measure (pre.foldl step s) ≤ bound) := by
  induction as generalizing s with
  | nil => exact ⟨[], [], rfl, rfl, by simp, .inl rfl⟩
  | cons a as ih =>
    by_cases h : measure s ≤ bound
    · exact ⟨[], a :: as, rfl, sweepTo_of_le _ h, by simp, .inr h⟩
    · obtain ⟨pre, post, rfl, hsweep, habove, hstop⟩ := ih (step s a)
      refine ⟨a :: pre, post, rfl, ?_, ?_, hstop⟩
      · simp only [sweepTo, if_neg h]
        exact hsweep
      · intro p x q heq
        cases p with
        | nil => exact not_le.mp h
        | cons b p =>
          obtain ⟨rfl, hpre⟩ := List.cons.inj heq
          exact habove p x q hpre

/-- Where a sweep stops, if the measure is above the bound till then. -/
theorem sweepTo_of_prefix {pre post : List α}
    (habove : ∀ p x q, pre = p ++ x :: q → bound < measure (p.foldl step s))
    (hstop : post = [] ∨ measure (pre.foldl step s) ≤ bound) :
    sweepTo step measure bound (pre ++ post) s = pre.foldl step s := by
  induction pre generalizing s with
  | nil =>
    obtain rfl | hle := hstop
    · rfl
    · exact sweepTo_of_le post hle
  | cons a pre ih =>
    have hlt : bound < measure s := habove [] a pre rfl
    simp only [List.cons_append, sweepTo, if_neg (not_le.mpr hlt)]
    refine ih ?_ hstop
    intro p x q hpre
    exact habove (a :: p) x q (congrArg (a :: ·) hpre)

end Foxclaw.Sweep
