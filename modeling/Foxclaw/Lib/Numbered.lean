import Mathlib.Algebra.GroupWithZero.Nat
import Mathlib.Data.List.Basic

/-!
# Numbered items

Items that are known by the number of their coming. One comes on in its place, or one comes after all others;
`starts` and `replies` are histories of numbers.

## What is proved

* `of_at_set`, `of_at_append` — what is found at a number was there before, or is the new item.
* `exists_at_set_iff`, `exists_at_append_iff` — which items have come so far.
* `inOrder_set`, `inOrder_append` — the order of a history by keys stays.
* `own_set`, `own_append` — what the replies are stays.
* `sum_set` — what is counted for all items.
-/

namespace Foxclaw.Numbered

open List Option

variable {α κ ρ : Type} {items : List α} {i j : ℕ} {a a' b n : α}

theorem lt_of_at (h : items[j]? = some b) : j < items.length :=
  (List.getElem?_eq_some_iff.mp h).1

theorem at_unique (ha : items[j]? = some a) (hb : items[j]? = some b) : a = b :=
  some.inj (ha.symm.trans hb)

/-! ### An item comes on -/

theorem at_set_self (ha : items[i]? = some a) : (items.set i a')[i]? = some a' :=
  getElem?_set_self (lt_of_at ha)

theorem at_set_of_ne (hij : i ≠ j) : (items.set i a')[j]? = some b ↔ items[j]? = some b := by
  rw [getElem?_set_ne hij]

theorem of_at_set (ha : items[i]? = some a) (hb : (items.set i a')[j]? = some b) :
    i = j ∧ a' = b ∨ i ≠ j ∧ items[j]? = some b := by
  by_cases hij : i = j
  · subst hij
    exact .inl ⟨rfl, at_unique (at_set_self ha) hb⟩
  · exact .inr ⟨hij, (at_set_of_ne hij).mp hb⟩

variable {P : α → Prop}

/-- Which items have come so far. -/
theorem exists_at_set_iff_or (ha : items[i]? = some a) (hP : P a') (j : ℕ) :
    (∃ u, (items.set i a')[j]? = some u ∧ P u) ↔ i = j ∨ ∃ u, items[j]? = some u ∧ P u := by
  by_cases hij : i = j
  · subst hij
    exact iff_of_true ⟨a', at_set_self ha, hP⟩ (.inl rfl)
  · simp only [at_set_of_ne hij, hij, false_or]

theorem exists_at_set_iff (ha : items[i]? = some a) (hP : P a ↔ P a') (j : ℕ) :
    (∃ u, (items.set i a')[j]? = some u ∧ P u) ↔ ∃ u, items[j]? = some u ∧ P u := by
  by_cases hij : i = j
  · subst hij
    simp only [at_set_self ha, ha, some.injEq, exists_eq_left', hP]
  · simp only [at_set_of_ne hij]

variable {starts : List ℕ} {key : α → κ} {replies : List (ℕ × ρ)} {Q : α → ρ → Prop}

/-- The history has the items of each key in order. -/
abbrev InOrder (items : List α) (key : α → κ) (starts : List ℕ) : Prop :=
  starts.Pairwise fun i j => ∀ a b, items[i]? = some a → items[j]? = some b → key a = key b → i < j

/-- The keys of the items stay. -/
theorem inOrder_set (h : InOrder items key starts) (ha : items[i]? = some a) (hkey : key a' = key a) :
    InOrder (items.set i a') key starts := by
  have hold {j : ℕ} {u : α} (hu : (items.set i a')[j]? = some u) : ∃ v, items[j]? = some v ∧ key v = key u := by
    obtain ⟨rfl, rfl⟩ | ⟨-, hu⟩ := of_at_set ha hu
    · exact ⟨a, ha, hkey.symm⟩
    · exact ⟨u, hu, rfl⟩
  refine h.imp fun hmn u v hu hv hk => ?_
  obtain ⟨u', hu', hukey⟩ := hold hu
  obtain ⟨v', hv', hvkey⟩ := hold hv
  exact hmn u' v' hu' hv' (by rw [hukey, hvkey, hk])

/-- A reply still is what its item came to. -/
theorem own_set (h : ∀ i o, (i, o) ∈ replies → ∃ u, items[i]? = some u ∧ Q u o) (ha : items[i]? = some a)
    (hQ : ∀ o, Q a o → Q a' o) : ∀ j o, (j, o) ∈ replies → ∃ u, (items.set i a')[j]? = some u ∧ Q u o := by
  intro j o hmem
  obtain ⟨u, hu, ho⟩ := h j o hmem
  by_cases hij : i = j
  · subst hij
    exact ⟨a', at_set_self ha, hQ o (at_unique hu ha ▸ ho)⟩
  · exact ⟨u, (at_set_of_ne hij).mpr hu, ho⟩

/-! ### A new item -/

theorem at_append_self : (items ++ [n])[items.length]? = some n := by
  rw [getElem?_append_right (Nat.le_refl _), Nat.sub_self]
  rfl

theorem at_append_of_at (h : items[j]? = some b) : (items ++ [n])[j]? = some b := by
  rwa [getElem?_append_left (lt_of_at h)]

theorem at_of_at_append (h : (items ++ [n])[j]? = some b) (hj : j < items.length) : items[j]? = some b := by
  rwa [getElem?_append_left hj] at h

theorem of_at_append (h : (items ++ [n])[j]? = some b) : j = items.length ∧ n = b ∨ items[j]? = some b := by
  rcases Nat.lt_or_ge j items.length with hj | hj
  · exact .inr (at_of_at_append h hj)
  · have hlt := lt_of_at h
    rw [length_append, length_singleton] at hlt
    obtain rfl : j = items.length := by omega
    exact .inl ⟨rfl, at_unique at_append_self h⟩

theorem exists_at_append_iff (hn : ¬ P n) (j : ℕ) :
    (∃ u, (items ++ [n])[j]? = some u ∧ P u) ↔ ∃ u, items[j]? = some u ∧ P u := by
  constructor
  · rintro ⟨u, hu, hP⟩
    obtain ⟨-, rfl⟩ | hu := of_at_append hu
    · exact absurd hP hn
    · exact ⟨u, hu, hP⟩
  · rintro ⟨u, hu, hP⟩
    exact ⟨u, at_append_of_at hu, hP⟩

theorem inOrder_append (h : InOrder items key starts) (hold : ∀ j ∈ starts, ∃ u, items[j]? = some u ∧ P u) :
    InOrder (items ++ [n]) key starts := by
  have hlt (j) (hj : j ∈ starts) : j < items.length := (hold j hj).elim fun _ hu => lt_of_at hu.1
  exact h.imp_of_mem fun hm hn hmn u v hu hv =>
    hmn u v (at_of_at_append hu (hlt _ hm)) (at_of_at_append hv (hlt _ hn))

theorem own_append (h : ∀ i o, (i, o) ∈ replies → ∃ u, items[i]? = some u ∧ Q u o) :
    ∀ j o, (j, o) ∈ replies → ∃ u, (items ++ [n])[j]? = some u ∧ Q u o := fun j o hmem =>
  (h j o hmem).imp fun _ hu => ⟨at_append_of_at hu.1, hu.2⟩

/-! ### What is counted -/

theorem sum_le {weight : α → ℕ} {m : ℕ} (h : ∀ a, weight a ≤ m) (items : List α) :
    (items.map weight).sum ≤ m * items.length := by
  induction items with
  | nil => exact Nat.le_refl 0
  | cons a items ih =>
    have := h a
    simp only [map_cons, sum_cons, length_cons, Nat.mul_succ]
    omega

theorem sum_set (weight : α → ℕ) (ha : items[i]? = some a) (a' : α) :
    ((items.set i a').map weight).sum + weight a = (items.map weight).sum + weight a' := by
  induction items generalizing i with
  | nil => cases ha
  | cons u items ih =>
    cases i with
    | zero =>
      cases ha
      simp only [set_cons_zero, map_cons, sum_cons]
      omega
    | succ i =>
      have hrest := ih (i := i) ha
      simp only [set_cons_succ, map_cons, sum_cons]
      omega

end Foxclaw.Numbered
