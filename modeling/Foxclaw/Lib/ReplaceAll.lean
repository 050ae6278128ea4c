import Mathlib.Data.List.Infix

/-!
# Replacing all occurrences

`String.prototype.replaceAll` with a text as the pattern, on lists of characters: the leftmost
occurrence is replaced, and the search goes on after it.

## What is proved

A quoted stretch of the result, in quotes that the new text does not contain, either has the new
text in it or was there before and has no occurrence of the pattern.

* `quoted_replaceAll` — one replacement.
* `quoted_foldl_replaceAll` — one after the other.

A text without any of the patterns stays as it is (`foldl_replaceAll_of_not_infix`).
-/

namespace Foxclaw.Text

open List

universe u

variable {α : Type u}

variable {q : α}

theorem infix_of_infix_append {l a b : List α} (hq : q ∉ a) (h : q :: l <:+: a ++ b) : q :: l <:+: b := by
  induction a with
  | nil => exact h
  | cons c a ih =>
    rw [mem_cons, not_or] at hq
    rcases infix_cons_iff.mp h with hpre | hsub
    · exact absurd (cons_prefix_cons.mp hpre).1 hq.1
    · exact ih hq.2 hsub

/-- A list that ends in a character the new text does not contain has it whole or not at all. -/
theorem isPrefix_of_append {l new rest : List α} (hq : q ∉ new)
    (h : l ++ [q] <+: new ++ rest) : new <+: l := by
  rcases prefix_or_prefix_of_prefix h (prefix_append new rest) with hl | hl
  · exact absurd (hl.subset (by simp)) hq
  · rcases prefix_concat_iff.mp hl with heq | hl
    · exact absurd (heq ▸ by simp) hq
    · exact hl

variable {l new pattern text : List α}

/-- The empty pattern: after each character comes the new text. -/
theorem prefix_of_infix_flatMap (hq : q ∉ new)
    (h : q :: l <:+: text.flatMap fun c => c :: new) : ∃ rest, l <+: new ++ rest := by
  induction text with
  | nil => cases infix_nil.mp h
  | cons c text ih =>
    rw [flatMap_cons, cons_append] at h
    rcases infix_cons_iff.mp h with hpre | hsub
    · exact ⟨_, (cons_prefix_cons.mp hpre).2⟩
    · exact ih (infix_of_infix_append hq hsub)

variable [DecidableEq α]

/-- The occurrences of the pattern replaced; so many characters are still part of the last one. -/
def replaceFrom (pattern new : List α) : ℕ → List α → List α
  | _, [] => []
  | skip + 1, _ :: rest => replaceFrom pattern new skip rest
  | 0, c :: rest =>
    if pattern.isPrefixOf (c :: rest) then new ++ replaceFrom pattern new (pattern.length - 1) rest
    else c :: replaceFrom pattern new 0 rest

/-- `replaceAll`; the empty pattern occurs before and after each character. -/
def replaceAll (pattern new text : List α) : List α :=
  if pattern = [] then new ++ text.flatMap fun c => c :: new else replaceFrom pattern new 0 text

/-- A stretch of the result that starts with the quote starts in the text. -/
theorem exists_suffix_of_infix_replaceFrom (hq : q ∉ new) {skip : ℕ}
    (h : q :: l <:+: replaceFrom pattern new skip text) :
    ∃ rest, q :: rest <:+ text ∧ l <+: replaceFrom pattern new 0 rest := by
  induction text generalizing skip with
  | nil => cases skip <;> cases infix_nil.mp h
  | cons c text ih =>
    have htail (hex : ∃ rest, q :: rest <:+ text ∧ l <+: replaceFrom pattern new 0 rest) :
        ∃ rest, q :: rest <:+ c :: text ∧ l <+: replaceFrom pattern new 0 rest := by
      obtain ⟨rest, hrest, hl⟩ := hex
      exact ⟨rest, hrest.trans (suffix_cons c text), hl⟩
    cases skip with
    | succ skip => exact htail (ih h)
    | zero =>
      rw [replaceFrom] at h
      split at h
      · exact htail (ih (infix_of_infix_append hq h))
      · rcases infix_cons_iff.mp h with hpre | hsub
        · obtain ⟨rfl, hl⟩ := cons_prefix_cons.mp hpre
          exact ⟨text, suffix_refl _, hl⟩
        · exact htail (ih hsub)

/-- A stretch at the start of the result that ends with the quote. -/
theorem prefix_of_prefix_replaceFrom (hq : q ∉ new) (hnew : new ≠ [])
    (hpattern : pattern ≠ []) (h : l ++ [q] <+: replaceFrom pattern new 0 text) :
    new <:+: l ∨ (l ++ [q] <+: text ∧ ¬ pattern <:+: l ++ [q]) := by
  induction l generalizing text with
  | nil =>
    cases text with
    | nil => cases prefix_nil.mp h
    | cons c text =>
      rw [replaceFrom] at h
      split at h
      · exact absurd (prefix_nil.mp (isPrefix_of_append hq h)) hnew
      · rename_i hmatch
        obtain ⟨rfl, -⟩ := cons_prefix_cons.mp h
        refine .inr ⟨by simp, fun hsub => hmatch ( isPrefixOf_iff_prefix.mpr ?_)⟩
        rcases infix_cons_iff.mp hsub with hpre | hsub
        · exact hpre.trans (by simp)
        · exact absurd (infix_nil.mp hsub) hpattern
  | cons x l ih =>
    cases text with
    | nil => cases prefix_nil.mp h
    | cons c text =>
      rw [replaceFrom] at h
      split at h
      · exact .inl (isPrefix_of_append hq h).isInfix
      · rename_i hmatch
        obtain ⟨rfl, hl⟩ := cons_prefix_cons.mp h
        rcases ih hl with hsub | ⟨hpre, hno⟩
        · exact .inl (hsub.trans (infix_cons (infix_refl l)))
        · have hall : x :: l ++ [q] <+: x :: text := cons_prefix_cons.mpr ⟨rfl, hpre⟩
          refine .inr ⟨hall, fun hsub => ?_⟩
          rcases infix_cons_iff.mp hsub with hp | hsub
          · exact hmatch ( isPrefixOf_iff_prefix.mpr (hp.trans hall))
          · exact hno hsub

/-- A quoted stretch of the result has the new text in it, or was there before and has no
occurrence of the pattern. -/
theorem quoted_replaceAll {w pattern new text : List α} (hq : q ∉ new) (hnew : new ≠ [])
    (h : q :: (w ++ [q]) <:+: replaceAll pattern new text) :
    new <:+: w ∨ (q :: (w ++ [q]) <:+: text ∧ ¬ pattern <:+: w) := by
  rw [replaceAll] at h
  split at h
  · obtain ⟨rest, hrest⟩ := prefix_of_infix_flatMap hq (infix_of_infix_append hq h)
    exact .inl (isPrefix_of_append hq hrest).isInfix
  · rename_i hpattern
    obtain ⟨rest, hrest, hl⟩ := exists_suffix_of_infix_replaceFrom hq h
    refine (prefix_of_prefix_replaceFrom hq hnew hpattern hl).imp_right fun ⟨hpre, hno⟩ => ⟨?_, ?_⟩
    · exact (cons_prefix_cons.mpr ⟨rfl, hpre⟩).isInfix.trans hrest.isInfix
    · exact fun hsub => hno (hsub.trans (prefix_append w [q]).isInfix)

variable {patterns : List (List α)}

/-- The same of replacements one after the other. -/
theorem quoted_foldl_replaceAll {w new : List α} (hq : q ∉ new) (hnew : new ≠ [])
    (h : q :: (w ++ [q]) <:+: patterns.foldl (fun text pattern => replaceAll pattern new text) text) :
    new <:+: w ∨ (q :: (w ++ [q]) <:+: text ∧ ∀ pattern ∈ patterns, ¬ pattern <:+: w) := by
  induction patterns using List.reverseRecOn with
  | nil => exact .inr ⟨h, by simp⟩
  | append_singleton patterns pattern ih =>
    rw [foldl_append, foldl_cons, foldl_nil] at h
    rcases quoted_replaceAll hq hnew h with hsub | ⟨hquoted, hno⟩
    · exact .inl hsub
    · refine (ih hquoted).imp_right fun ⟨htext, hall⟩ => ⟨htext, fun p hp => ?_⟩
      rcases mem_append.mp hp with hp | hp
      · exact hall p hp
      · exact mem_singleton.mp hp ▸ hno

/-! ### Nothing to replace -/

theorem replaceFrom_of_not_infix (h : ¬ pattern <:+: text) : replaceFrom pattern new 0 text = text := by
  induction text with
  | nil => rfl
  | cons c text ih =>
    have hpre : pattern.isPrefixOf (c :: text) ≠ true :=
      fun hmatch => h ( isPrefixOf_iff_prefix.mp hmatch).isInfix
    rw [replaceFrom, if_neg hpre, ih fun hsub => h (infix_cons hsub)]

theorem foldl_replaceAll_of_not_infix (h : ∀ pattern ∈ patterns, ¬ pattern <:+: text) :
    patterns.foldl (fun text pattern => replaceAll pattern new text) text = text := by
  induction patterns with
  | nil => rfl
  | cons pattern patterns ih =>
    obtain ⟨hpattern, hpatterns⟩ := forall_mem_cons.mp h
    have hne : pattern ≠ [] := fun heq => hpattern (heq ▸ nil_infix)
    rw [foldl_cons, replaceAll, if_neg hne, replaceFrom_of_not_infix hpattern]
    exact ih hpatterns

end Foxclaw.Text
