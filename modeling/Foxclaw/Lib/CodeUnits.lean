import Mathlib.Data.List.DropRight

/-!
# Strings as code units

A string of the source language is a list of 16-bit code units: its `length` and its indexes
count them, and a cut may fall between the two units of one character.
-/

namespace Foxclaw

open List

/-- A string. -/
abbrev CodeUnits := List UInt16

namespace CodeUnits

/-- `"\n"`. -/
def newline : UInt16 := 10

/-- A unit of the class `\s`. -/
def isSpace (c : UInt16) : Bool :=
  let n := c.toNat
  (0x9 ≤ n && n ≤ 0xD) || n == 0x20 || n == 0xA0 || n == 0x1680 || (0x2000 ≤ n && n ≤ 0x200A) ||
    n == 0x2028 || n == 0x2029 || n == 0x202F || n == 0x205F || n == 0x3000 || n == 0xFEFF

variable (text : CodeUnits)

/-- `text.trimStart()`. -/
def trimStart : CodeUnits := text.dropWhile isSpace

/-- `text.trimEnd()`. -/
def trimEnd : CodeUnits := text.rdropWhile isSpace

def trim : CodeUnits := trimEnd (trimStart text)

/-- `text.trim().length === 0`. -/
def isBlank : Bool := text.all isSpace

/-- `text.slice(start, stop)`. -/
def slice (start stop : ℕ) : CodeUnits := (text.take stop).drop start

/-- `text.endsWith("\n")`. -/
def endsWithNewline : Bool := text.getLast? = some newline

/-- The units of a string. -/
def ofString (s : String) : CodeUnits :=
  s.toList.flatMap fun c =>
    let n := c.toNat
    if n < 0x10000 then [n.toUInt16]
    else [(0xD800 + (n - 0x10000) / 0x400).toUInt16, (0xDC00 + (n - 0x10000) % 0x400).toUInt16]

/-! ### Slices -/

theorem slice_add (i n : ℕ) : slice text i (i + n) = (text.drop i).take n := by
  rw [slice, take_drop]

theorem slice_append {i j k : ℕ} (hij : i ≤ j) (hjk : j ≤ k) :
    slice text i j ++ slice text j k = slice text i k := by
  obtain ⟨m, rfl⟩ := Nat.exists_eq_add_of_le hij
  obtain ⟨n, rfl⟩ := Nat.exists_eq_add_of_le hjk
  rw [Nat.add_assoc, slice_add, slice_add, ← Nat.add_assoc, slice_add, ← drop_drop, take_add]

theorem slice_append_drop {i j : ℕ} (h : i ≤ j) : slice text i j ++ text.drop j = text.drop i := by
  obtain ⟨n, rfl⟩ := Nat.exists_eq_add_of_le h
  rw [slice_add, ← drop_drop, take_append_drop]

theorem take_append_slice {i j : ℕ} (h : i ≤ j) : text.take i ++ slice text i j = text.take j := by
  obtain ⟨n, rfl⟩ := Nat.exists_eq_add_of_le h
  rw [slice_add, take_add]

theorem slice_self (i : ℕ) : slice text i i = [] := by
  have := slice_add text i 0
  rwa [Nat.add_zero, take_zero] at this

end CodeUnits

end Foxclaw
