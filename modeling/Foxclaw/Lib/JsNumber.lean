import Mathlib.Data.Rat.Floor

/-!
# Numbers of the source language

A JavaScript number is a finite number, an infinity or `NaN`. Every finite double is
a rational, and the operations used here (`Math.floor`, `Math.max`, `<`) are exact on
doubles, so nothing is rounded. `NaN` makes every comparison false and is kept by
`Math.floor` and `Math.max`.
-/

namespace Foxclaw

/-- A number: finite, infinite, or not a number. -/
inductive JsNumber where
  | nan
  /-- `-Infinity`. -/
  | negInf
  | fin (q : ℚ)
  /-- `Infinity`. -/
  | posInf
  deriving DecidableEq

namespace JsNumber

/-- `Math.floor`. -/
def floor : JsNumber → JsNumber
  | fin q => fin ⌊q⌋
  | x => x

/-- `Math.max`. -/
def max : JsNumber → JsNumber → JsNumber
  | nan, _ => nan
  | _, nan => nan
  | posInf, _ => posInf
  | _, posInf => posInf
  | negInf, y => y
  | x, negInf => x
  | fin p, fin q => fin (Max.max p q)

/-- `x < y`, false when either side is `NaN`. -/
def lt : JsNumber → JsNumber → Bool
  | nan, _ => false
  | _, nan => false
  | _, negInf => false
  | posInf, _ => false
  | negInf, _ => true
  | fin _, posInf => true
  | fin p, fin q => decide (p < q)

/-- `x >= y`, false when either side is `NaN`. -/
def ge : JsNumber → JsNumber → Bool
  | nan, _ => false
  | _, nan => false
  | x, y => !lt x y

/-- A count (a `length` or a `size`) as a number. -/
def ofNat (n : ℕ) : JsNumber := fin n

/-- A whole number that is a count. -/
def toNat : JsNumber → ℕ
  | fin q => ⌊q⌋.toNat
  | _ => 0

theorem ge_eq_not_lt {x y : JsNumber} (hx : x ≠ nan) (hy : y ≠ nan) : ge x y = !lt x y := by
  cases x <;> cases y <;> simp_all [ge]

theorem ofNat_ne_nan (n : ℕ) : ofNat n ≠ nan := by simp [ofNat]

theorem floor_eq_nan {x : JsNumber} : floor x = nan ↔ x = nan := by cases x <;> simp [floor]

theorem max_eq_nan {x y : JsNumber} : max x y = nan ↔ x = nan ∨ y = nan := by
  cases x <;> cases y <;> simp [max]

end JsNumber

end Foxclaw
