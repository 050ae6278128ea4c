import Mathlib.Data.List.Nodup
import Mathlib.Data.Set.Basic

/-!
# Sets that change while they are iterated

A JavaScript `Set` keeps its elements in the order they were added, and an iteration over it sees what is
added and no longer sees what is deleted before it gets there. Here each element carries the number of its
addition, and an iteration is the number it has come to.

## What is proved

* `not_ahead_of_next` — an element is visited once.
* `ahead_of_next_ne` — until it is visited, the iteration still comes to it.
* `ahead_add`, `ahead_delete` — whatever else is added or deleted.
-/

namespace Foxclaw

open List

variable {α : Type}

/-- A set, as the list of its elements in the order of their additions. -/
structure JsSet (α : Type) where
  /-- The elements, with the numbers of their additions. -/
  entries : List (ℕ × α)
  /-- The number of the next addition. -/
  stamp : ℕ
  sorted : entries.Pairwise fun a b => a.1 < b.1
  below : ∀ e ∈ entries, e.1 < stamp
  /-- No element is there twice. -/
  nodup : (entries.map Prod.snd).Nodup

namespace JsSet

def empty : JsSet α := ⟨[], 0, List.Pairwise.nil, by simp, nodup_nil⟩

instance : Membership α (JsSet α) := ⟨fun s a => a ∈ s.entries.map Prod.snd⟩

theorem mem_def {s : JsSet α} {a : α} : a ∈ s ↔ ∃ k, (k, a) ∈ s.entries := by
  change a ∈ s.entries.map Prod.snd ↔ _
  simp

/-- What an iteration that has come to `pos` visits next. -/
def next (s : JsSet α) (pos : ℕ) : Option (ℕ × α) := s.entries.find? fun e => pos ≤ e.1

/-- An iteration that has come to `pos` still comes to `a`. -/
def Ahead (s : JsSet α) (pos : ℕ) (a : α) : Prop := ∃ k, (k, a) ∈ s.entries ∧ pos ≤ k

theorem ahead_zero {s : JsSet α} {a : α} : s.Ahead 0 a ↔ a ∈ s := by simp [Ahead, mem_def]

variable [DecidableEq α]

instance (s : JsSet α) (a : α) : Decidable (a ∈ s) := inferInstanceAs (Decidable (a ∈ s.entries.map Prod.snd))

instance (s : JsSet α) (pos : ℕ) (a : α) : Decidable (s.Ahead pos a) :=
  decidable_of_iff (∃ e ∈ s.entries, e.2 = a ∧ pos ≤ e.1)
    ⟨fun ⟨e, he, ha, hp⟩ => ⟨e.1, ha ▸ he, hp⟩, fun ⟨k, he, hp⟩ => ⟨(k, a), he, rfl, hp⟩⟩

def add (s : JsSet α) (a : α) : JsSet α :=
  if h : a ∈ s then s
  else
    { entries := s.entries ++ [(s.stamp, a)]
      stamp := s.stamp + 1
      sorted := by
        refine pairwise_append.mpr ⟨s.sorted, pairwise_singleton _ _, fun e he f hf => ?_⟩
        rw [mem_singleton.mp hf]
        exact s.below e he
      below := by
        intro e he
        rcases mem_append.mp he with he | he
        · exact Nat.lt_succ_of_lt (s.below e he)
        · rw [mem_singleton.mp he]
          exact Nat.lt_succ_self _
      nodup := by
        rw [map_append]
        refine nodup_append.mpr ⟨s.nodup, by simp, fun x hx y hy hxy => ?_⟩
        rw [map_cons, map_nil, mem_singleton] at hy
        subst hxy hy
        exact h hx }

def delete (s : JsSet α) (a : α) : JsSet α where
  entries := s.entries.filter fun e => e.2 ≠ a
  stamp := s.stamp
  sorted := s.sorted.filter _
  below e he := s.below e (mem_of_mem_filter he)
  nodup := s.nodup.sublist (filter_sublist.map _)

/-! ### Iterations -/

variable {s : JsSet α} {pos k l : ℕ} {a b : α}

omit [DecidableEq α] in
theorem eq_of_mem (h : (k, a) ∈ s.entries) (h' : (l, a) ∈ s.entries) : k = l :=
  congrArg Prod.fst (inj_on_of_nodup_map s.nodup h h' rfl)

omit [DecidableEq α] in
theorem eq_of_mem_of_mem (h : (k, a) ∈ s.entries) (h' : (k, b) ∈ s.entries) : a = b := by
  have hnodup : (s.entries.map Prod.fst).Nodup := pairwise_map.mpr (s.sorted.imp Nat.ne_of_lt)
  exact congrArg Prod.snd (inj_on_of_nodup_map hnodup h h' rfl)

omit [DecidableEq α] in
theorem mem_of_next (h : s.next pos = some (k, a)) : (k, a) ∈ s.entries ∧ pos ≤ k :=
  ⟨mem_of_find?_eq_some h, by simpa using find?_some h⟩

omit [DecidableEq α] in
/-- What is visited next is the first that is ahead. -/
theorem le_of_next (h : s.next pos = some (k, a)) (hb : (l, b) ∈ s.entries) (hl : pos ≤ l) : k ≤ l := by
  obtain ⟨-, before, after, heq, hbefore⟩ := find?_eq_some_iff_append.mp h
  rw [heq] at hb
  have hsorted := s.sorted
  rw [heq, pairwise_append] at hsorted
  rcases mem_append.mp hb with hmem | hmem
  · exact absurd hl (by simpa using hbefore _ hmem)
  · rcases mem_cons.mp hmem with heq' | hmem
    · exact Nat.le_of_eq (congrArg Prod.fst heq').symm
    · exact Nat.le_of_lt ((pairwise_cons.mp hsorted.2.1).1 _ hmem)

omit [DecidableEq α] in
/-- An element is visited once. -/
theorem not_ahead_of_next (h : s.next pos = some (k, a)) : ¬ s.Ahead (k + 1) a := by
  rintro ⟨l, hl, hkl⟩
  have heq := eq_of_mem hl (mem_of_next h).1
  omega

omit [DecidableEq α] in
theorem not_ahead_of_next_none (h : s.next pos = none) : ¬ s.Ahead pos a := by
  rintro ⟨l, hl, hpl⟩
  exact absurd hpl (by simpa using List.find?_eq_none.mp h _ hl)

omit [DecidableEq α] in
/-- Until it is visited, the iteration still comes to an element. -/
theorem ahead_of_next_ne (h : s.next pos = some (k, b)) (hne : a ≠ b) : s.Ahead (k + 1) a ↔ s.Ahead pos a := by
  constructor
  · rintro ⟨l, hl, hkl⟩
    have hpos := (mem_of_next h).2
    exact ⟨l, hl, by omega⟩
  · rintro ⟨l, hl, hpl⟩
    have hle := le_of_next h hl hpl
    have hkl : k ≠ l := fun heq => hne (eq_of_mem_of_mem (heq ▸ hl) (mem_of_next h).1)
    exact ⟨l, hl, by omega⟩

theorem mem_add (h : a ∈ s) : a ∈ s.add b := by
  unfold add
  split
  · exact h
  · obtain ⟨k, hk⟩ := mem_def.mp h
    exact mem_def.mpr ⟨k, mem_append_left _ hk⟩

theorem mem_add_self : a ∈ s.add a := by
  unfold add
  split
  · assumption
  · exact mem_def.mpr ⟨s.stamp, by simp⟩

theorem mem_delete (hne : a ≠ b) (h : a ∈ s) : a ∈ s.delete b := by
  obtain ⟨k, hk⟩ := mem_def.mp h
  exact mem_def.mpr ⟨k, mem_filter.mpr ⟨hk, by simpa using hne⟩⟩

/-- An addition is no hindrance to an iteration. -/
theorem ahead_add (h : a ∈ s) : (s.add b).Ahead pos a ↔ s.Ahead pos a := by
  unfold add
  split
  · rfl
  · rename_i hb
    have hne : a ≠ b := fun heq => hb (heq ▸ h)
    simp [Ahead, hne]

theorem ahead_delete (hne : a ≠ b) : (s.delete b).Ahead pos a ↔ s.Ahead pos a := by
  simp [Ahead, delete, hne]

end JsSet

end Foxclaw
