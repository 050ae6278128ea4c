import Mathlib.Data.List.Perm.Basic

/-!
# The same elements up to a relation

`PermUpTo R l l'` says that the elements of `l` are those of `l'`, in any order and each up to `R`. It is
how an account is kept of values that a program moves and rewrites: nothing is lost and nothing is made,
whatever the order.

## What is proved

* `PermUpTo.trans`, `PermUpTo.append` — accounts of steps compose, and accounts of parts add up.
* `PermUpTo.length_eq` — what an account says of numbers.
-/

namespace Foxclaw

universe u

variable {α : Type u} {R : α → α → Prop} {l l₁ l₂ l₃ l' l₁' l₂' : List α}

/-- The elements of the first list are those of the second, in any order and each up to `R`. -/
def PermUpTo (R : α → α → Prop) (l l' : List α) : Prop := ∃ m, l.Perm m ∧ List.Forall₂ R m l'

namespace PermUpTo

theorem of_perm (hrefl : ∀ a, R a a) (h : l.Perm l') : PermUpTo R l l' :=
  ⟨l', h, List.forall₂_same.mpr fun a _ => hrefl a⟩

theorem of_forall₂ (h : List.Forall₂ R l l') : PermUpTo R l l' := ⟨l, .refl l, h⟩

theorem refl (hrefl : ∀ a, R a a) (l : List α) : PermUpTo R l l := of_perm hrefl (.refl l)

/-- The order of the first list does not matter. -/
theorem perm_left (hp : l.Perm l₁) (h : PermUpTo R l₁ l') : PermUpTo R l l' := by
  obtain ⟨m, hperm, hm⟩ := h
  exact ⟨m, hp.trans hperm, hm⟩

/-- The order of the second list does not matter. -/
theorem perm_right (h : PermUpTo R l l₁) (hp : l₁.Perm l') : PermUpTo R l l' := by
  obtain ⟨m, hperm, hm⟩ := h
  -- the permutation is carried over to the elements before they are rewritten
  obtain ⟨n, hmn, hn⟩ : Relation.Comp List.Perm (List.Forall₂ R) m l' := by
    rw [← List.forall₂_comp_perm_eq_perm_comp_forall₂]
    exact ⟨l₁, hm, hp⟩
  exact ⟨n, hperm.trans hmn, hn⟩

/-- Accounts of two steps compose. -/
theorem trans (htrans : ∀ a b c, R a b → R b c → R a c) (h : PermUpTo R l₁ l₂) (h' : PermUpTo R l₂ l₃) :
    PermUpTo R l₁ l₃ := by
  obtain ⟨m', hperm', hm'⟩ := h'
  obtain ⟨m, hperm, hm⟩ := h.perm_right hperm'
  refine ⟨m, hperm, ?_⟩
  clear hperm hperm' h
  induction hm generalizing l₃ with
  | nil => exact hm'
  | cons hab _ ih =>
    cases hm' with
    | cons hbc hrest => exact .cons (htrans _ _ _ hab hbc) (ih hrest)

/-- Accounts of two parts add up. -/
theorem append (h : PermUpTo R l₁ l₁') (h' : PermUpTo R l₂ l₂') : PermUpTo R (l₁ ++ l₂) (l₁' ++ l₂') := by
  obtain ⟨m, hperm, hm⟩ := h
  obtain ⟨m', hperm', hm'⟩ := h'
  exact ⟨m ++ m', hperm.append hperm', List.rel_append hm hm'⟩

theorem length_eq (h : PermUpTo R l l') : l.length = l'.length := by
  obtain ⟨m, hperm, hm⟩ := h
  rw [hperm.length_eq, hm.length_eq]

end PermUpTo

end Foxclaw
