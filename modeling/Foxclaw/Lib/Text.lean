import Mathlib.Algebra.GroupWithZero.Nat
import Mathlib.Data.List.DropRight

/-!
# Text of the source language

White space as `String.prototype.trim` and the regular expression class `\s` have it,
and `trim` on lists of characters. Text is a list of characters: the characters the
programs look at (blanks, quotes, operators, letters) all lie in the first plane, where
a character is one code unit.
-/

namespace Foxclaw.Text

open List

/-- Texts are compared letter by letter; testing whether a text is in a list rests on it. -/
instance lawfulBEq : LawfulBEq (List Char) := inferInstance

/-- A character of the class `\s`. -/
def isSpace (c : Char) : Bool :=
  let n := c.toNat
  (0x9 ≤ n && n ≤ 0xD) || n == 0x20 || n == 0xA0 || n == 0x1680 || (0x2000 ≤ n && n ≤ 0x200A) ||
    n == 0x2028 || n == 0x2029 || n == 0x202F || n == 0x205F || n == 0x3000 || n == 0xFEFF

def trimStart (cs : List Char) : List Char := cs.dropWhile isSpace

def trimEnd (cs : List Char) : List Char := cs.rdropWhile isSpace

def trim (cs : List Char) : List Char := trimEnd (trimStart cs)

/-- `trim` of a string. -/
def trimString (s : String) : String := String.ofList (trim s.toList)

/-- `length` of a string: how many code units it has. -/
def utf16Length (s : String) : ℕ := (s.toList.map fun c => if c.toNat < 0x10000 then 1 else 2).sum

variable {cs : List Char}

/-- What every character of a text is, by testing each. -/
theorem forall_mem_of_all {p : Char → Prop} [DecidablePred p]
    (h : cs.all (fun c => decide (p c)) = true) : ∀ c ∈ cs, p c :=
  fun c hc => of_decide_eq_true (List.all_eq_true.mp h c hc)

theorem trimStart_trim (cs : List Char) : trimStart (trim cs) = trim cs := by
  refine dropWhile_eq_self_iff.mpr fun hpos => ?_
  have hpre : trim cs <+: trimStart cs := rdropWhile_prefix isSpace _
  have hlen : 0 < (trimStart cs).length := hpos.trans_le hpre.length_le
  rw [hpre.getElem hpos]
  exact dropWhile_get_zero_not isSpace cs hlen

/-- Trimming twice is trimming once. -/
@[simp] theorem trim_trim (cs : List Char) : trim (trim cs) = trim cs := by
  rw [trim, trimStart_trim]
  exact rdropWhile_idempotent isSpace (trimStart cs)

@[simp] theorem trimString_trimString (s : String) : trimString (trimString s) = trimString s := by
  rw [trimString, trimString, String.toList_ofList, trim_trim]

/-- A text is trimmed when it has no space at either end. -/
theorem trim_eq_self_iff : trim cs = cs ↔ trimStart cs = cs ∧ trimEnd cs = cs := by
  constructor
  · intro h
    have hstart : trimStart cs = cs := by rw [← h, trimStart_trim]
    rw [trim, hstart] at h
    exact ⟨hstart, h⟩
  · rintro ⟨hstart, hend⟩
    rw [trim, hstart, hend]

/-- The start of a text is trimmed when its first character is no space. -/
theorem trimStart_cons_eq_self_iff {c : Char} : trimStart (c :: cs) = c :: cs ↔ isSpace c = false := by
  constructor
  · intro h
    by_contra hspace
    rw [Bool.not_eq_false] at hspace
    rw [trimStart, dropWhile_cons_of_pos hspace] at h
    have hlength := congrArg List.length h
    have hle := (dropWhile_suffix (l := cs) isSpace).length_le
    rw [length_cons] at hlength
    omega
  · intro h
    rw [trimStart, dropWhile_cons_of_neg (by simp [h])]

/-- The start of a text is that of its first part. -/
theorem trimStart_append_of_trimmed {cs ds : List Char} (h : trimStart cs = cs) (hds : trimStart ds = ds) :
    trimStart (cs ++ ds) = cs ++ ds := by
  cases cs with
  | nil => exact hds
  | cons c cs => exact trimStart_cons_eq_self_iff.mpr (trimStart_cons_eq_self_iff.mp h)

/-- The end of a text is trimmed when its last character is no space. -/
theorem trimEnd_eq_self_iff : trimEnd cs = cs ↔ ∀ c, cs.getLast? = some c → isSpace c = false := by
  rw [trimEnd, rdropWhile_eq_self_iff]
  constructor
  · intro h c hc
    by_cases hne : cs = []
    · rw [hne] at hc
      cases hc
    · rw [getLast?_eq_some_getLast hne, Option.some.injEq] at hc
      simpa [hc] using h hne
  · intro h hne
    simp [h _ (getLast?_eq_some_getLast hne)]

/-- Only blank texts are trimmed away. -/
theorem trim_eq_nil_iff : trim cs = [] ↔ ∀ c ∈ cs, isSpace c = true := by
  rw [trim, trimEnd, rdropWhile_eq_nil_iff, trimStart]
  constructor
  · intro h
    rw [← dropWhile_eq_nil_iff]
    by_contra hne
    obtain ⟨c, rest, hrest⟩ := exists_cons_of_ne_nil hne
    have hstart : trimStart (c :: rest) = c :: rest := by
      rw [← hrest, trimStart, dropWhile_idempotent]
    have hc := h c (by rw [hrest]; exact mem_cons_self)
    rw [trimStart_cons_eq_self_iff.mp hstart] at hc
    cases hc
  · intro h c hc
    exact h c ((dropWhile_sublist isSpace).subset hc)

/-- A text without spaces is trimmed. -/
theorem trim_of_notSpace (h : ∀ c ∈ cs, isSpace c = false) : trim cs = cs := by
  refine trim_eq_self_iff.mpr ⟨?_, ?_⟩
  · cases cs with
    | nil => rfl
    | cons c cs => exact dropWhile_cons_of_neg (by simp [h c mem_cons_self])
  · rw [trimEnd, rdropWhile_eq_self_iff]
    intro hne
    simp [h _ (getLast_mem hne)]

/-- The end of a text is that of its last part. -/
theorem trimEnd_append_of_trimmed {cs ds : List Char} (h : trimEnd ds = ds) (hne : ds ≠ []) :
    trimEnd (cs ++ ds) = cs ++ ds := by
  rw [trimEnd, rdropWhile_eq_self_iff] at h ⊢
  intro hne'
  rw [getLast_append_of_right_ne_nil cs ds hne]
  exact h hne

/-- The end of a text is trimmed in its last part, if the first ends without a space. -/
theorem trimEnd_append (h : trimEnd cs = cs) (ds : List Char) : trimEnd (cs ++ ds) = cs ++ trimEnd ds := by
  induction ds using List.reverseRecOn with
  | nil => rw [append_nil, h, trimEnd, rdropWhile_nil, append_nil]
  | append_singleton ds d ih =>
    rw [trimEnd] at ih ⊢
    rw [← append_assoc]
    by_cases hd : isSpace d = true
    · rw [rdropWhile_concat_pos _ _ _ hd, trimEnd, rdropWhile_concat_pos _ _ _ hd, ih, trimEnd]
    · rw [rdropWhile_concat_neg _ _ _ hd, trimEnd, rdropWhile_concat_neg _ _ _ hd, append_assoc]

/-- What is before a text does not change how it is trimmed, but for what is trimmed as well. -/
theorem trimEnd_infix_trimEnd_append (cs ds : List Char) : trimEnd ds <:+: trimEnd (cs ++ ds) := by
  rw [trimEnd, trimEnd, List.rdropWhile, List.rdropWhile, reverse_append, dropWhile_append]
  split
  · rename_i h
    rw [List.isEmpty_iff.mp h]
    exact nil_infix
  · rw [reverse_append, reverse_reverse]
    exact (suffix_append _ _).isInfix

/-- A text is cut at the first separator in one way. -/
theorem append_cons_inj {α : Type} {a : α} {xs xs' ys ys' : List α} (h : a ∉ xs) (h' : a ∉ xs')
    (heq : xs ++ a :: ys = xs' ++ a :: ys') : xs = xs' ∧ ys = ys' := by
  induction xs generalizing xs' with
  | nil =>
    cases xs' with
    | nil => exact ⟨rfl, (List.cons.inj heq).2⟩
    | cons x' xs' => exact absurd ((List.cons.inj heq).1 ▸ mem_cons_self) h'
  | cons x xs ih =>
    cases xs' with
    | nil => exact absurd ((List.cons.inj heq).1 ▸ mem_cons_self) h
    | cons x' xs' =>
      obtain ⟨rfl, hrest⟩ := List.cons.inj heq
      obtain ⟨rfl, rfl⟩ := ih (mt (mem_cons_of_mem _) h) (mt (mem_cons_of_mem _) h') hrest
      exact ⟨rfl, rfl⟩

end Foxclaw.Text
