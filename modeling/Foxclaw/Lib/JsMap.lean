import Mathlib.Data.List.Nodup

/-!
# Maps of the source language

A JavaScript `Map`, or an object used as one: keys with their values, in the order in which
the keys were first set. Setting a key that is there keeps its place.

## What is proved

* `get?_set`, `get?_delete`, `get?_empty` — each operation changes one key only.
* `mem_entries_iff`, `mem_keys_iff`, `mem_values_iff` — what an iteration meets.
-/

namespace Foxclaw

open List

universe u v

/-- A map. -/
structure JsMap (κ : Type u) (ν : Type v) where
  /-- The entries, in the order of their keys' first insertion. -/
  entries : List (κ × ν)
  nodup_keys : (entries.map Prod.fst).Nodup

namespace JsMap

variable {κ : Type u} {ν : Type v}

def keys (m : JsMap κ ν) : List κ := m.entries.map Prod.fst

def values (m : JsMap κ ν) : List ν := m.entries.map Prod.snd

def size (m : JsMap κ ν) : ℕ := m.entries.length

/-- A new map; also the effect of `clear`. -/
def empty : JsMap κ ν := ⟨[], nodup_nil⟩

instance : Inhabited (JsMap κ ν) := ⟨empty⟩

instance [DecidableEq κ] [DecidableEq ν] : DecidableEq (JsMap κ ν) := fun m m' =>
  decidable_of_iff (m.entries = m'.entries) (by cases m; cases m'; simp)

variable [DecidableEq κ]

/-- The value the entries have for a key. -/
def lookupIn : List (κ × ν) → κ → Option ν
  | [], _ => none
  | (k', v) :: rest, k => if k' = k then some v else lookupIn rest k

/-- The entries after `set`. -/
def setIn : List (κ × ν) → κ → ν → List (κ × ν)
  | [], k, v => [(k, v)]
  | (k', v') :: rest, k, v => if k' = k then (k, v) :: rest else (k', v') :: setIn rest k v

def get? (m : JsMap κ ν) (k : κ) : Option ν := lookupIn m.entries k

def has (m : JsMap κ ν) (k : κ) : Bool := (m.get? k).isSome

/-! ### The entries -/

variable {es : List (κ × ν)} {k : κ} {v : ν}

theorem mem_setIn {e : κ × ν} (h : e ∈ setIn es k v) : e = (k, v) ∨ e ∈ es := by
  induction es with
  | nil => exact .inl (mem_singleton.mp h)
  | cons e' rest ih =>
    obtain ⟨k', v'⟩ := e'
    rw [setIn] at h
    split at h
    · rcases mem_cons.mp h with h | h
      · exact .inl h
      · exact .inr (mem_cons_of_mem _ h)
    · rcases mem_cons.mp h with h | h
      · exact .inr (h ▸ mem_cons_self)
      · exact (ih h).imp_right (mem_cons_of_mem _)

theorem nodup_setIn (h : (es.map Prod.fst).Nodup) (k : κ) (v : ν) : ((setIn es k v).map Prod.fst).Nodup := by
  induction es with
  | nil => simp [setIn]
  | cons e rest ih =>
    obtain ⟨k', v'⟩ := e
    rw [map_cons, nodup_cons] at h
    rw [setIn]
    split
    · rename_i hk
      rw [map_cons, nodup_cons]
      exact ⟨hk ▸ h.1, h.2⟩
    · rename_i hk
      rw [map_cons, nodup_cons]
      refine ⟨fun hmem => ?_, ih h.2⟩
      obtain ⟨e, he, hek⟩ := List.mem_map.mp hmem
      rcases mem_setIn he with rfl | he
      · exact hk hek.symm
      · exact h.1 (hek ▸ List.mem_map_of_mem he)

theorem lookupIn_setIn (es : List (κ × ν)) (k : κ) (v : ν) (j : κ) :
    lookupIn (setIn es k v) j = if k = j then some v else lookupIn es j := by
  induction es with
  | nil => rfl
  | cons e rest ih =>
    obtain ⟨k', v'⟩ := e
    rw [setIn]
    split
    · rename_i hk
      subst hk
      by_cases hj : k' = j <;> simp [lookupIn, hj]
    · rename_i hk
      by_cases hj : k' = j
      · subst hj
        simp [lookupIn, Ne.symm hk]
      · simp [lookupIn, hj, ih]

theorem mem_of_lookupIn (h : lookupIn es k = some v) : (k, v) ∈ es := by
  induction es with
  | nil => cases h
  | cons e rest ih =>
    obtain ⟨k', v'⟩ := e
    rw [lookupIn] at h
    split at h
    · rename_i hk
      cases h
      exact hk ▸ mem_cons_self
    · exact mem_cons_of_mem _ (ih h)

theorem lookupIn_of_mem (hn : (es.map Prod.fst).Nodup) (h : (k, v) ∈ es) : lookupIn es k = some v := by
  induction es with
  | nil => cases h
  | cons e rest ih =>
    obtain ⟨k', v'⟩ := e
    rw [map_cons, nodup_cons] at hn
    rw [lookupIn]
    rcases mem_cons.mp h with h | h
    · cases h
      rw [if_pos rfl]
    · have hmem : k ∈ rest.map Prod.fst := List.mem_map_of_mem (f := Prod.fst) h
      have hne : k' ≠ k := fun hk => hn.1 (hk ▸ hmem)
      rw [if_neg hne]
      exact ih hn.2 h

theorem lookupIn_filter (es : List (κ × ν)) (k j : κ) :
    lookupIn (es.filter fun e => e.1 ≠ k) j = if k = j then none else lookupIn es j := by
  induction es with
  | nil => simp [lookupIn]
  | cons e rest ih =>
    obtain ⟨k', v'⟩ := e
    rw [filter_cons]
    by_cases hk : k' = k
    · subst hk
      rw [if_neg (by simp), ih]
      by_cases hj : k' = j <;> simp [lookupIn, hj]
    · rw [if_pos (by simpa using hk), lookupIn, ih, lookupIn]
      by_cases hj : k' = j
      · subst hj
        simp [Ne.symm hk]
      · simp [hj]

theorem lookupIn_map (es : List (κ × ν)) (f : κ → ν → ν) (k : κ) :
    lookupIn (es.map fun e => (e.1, f e.1 e.2)) k = (lookupIn es k).map (f k) := by
  induction es with
  | nil => rfl
  | cons e rest ih =>
    rw [map_cons, lookupIn, lookupIn]
    by_cases hk : e.1 = k
    · subst hk
      simp
    · rw [if_neg hk, if_neg hk]
      exact ih

/-! ### The operations -/

variable (m : JsMap κ ν)

def set (k : κ) (v : ν) : JsMap κ ν :=
  ⟨setIn m.entries k v, nodup_setIn m.nodup_keys k v⟩

def delete (k : κ) : JsMap κ ν :=
  ⟨m.entries.filter fun e => e.1 ≠ k, m.nodup_keys.sublist (filter_sublist.map _)⟩

/-- Every value is replaced, in place. -/
def mapValues (f : ν → ν) : JsMap κ ν :=
  ⟨m.entries.map fun e => (e.1, f e.2), by
    have hkeys : (m.entries.map fun e => (e.1, f e.2)).map Prod.fst = m.entries.map Prod.fst := by
      rw [List.map_map]
      rfl
    exact hkeys ▸ m.nodup_keys⟩

/-- Every entry's value is replaced, in place. -/
def mapEntries (f : κ → ν → ν) : JsMap κ ν :=
  ⟨m.entries.map fun e => (e.1, f e.1 e.2), by
    have hkeys : (m.entries.map fun e => (e.1, f e.1 e.2)).map Prod.fst = m.entries.map Prod.fst := by
      rw [List.map_map]
      rfl
    exact hkeys ▸ m.nodup_keys⟩

/-- The keys in the list are deleted. -/
def deleteAll (ks : List κ) : JsMap κ ν := ks.foldl delete m

@[simp] theorem get?_empty (k : κ) : (empty : JsMap κ ν).get? k = none := rfl

@[simp] theorem get?_set_self (k : κ) (v : ν) : (m.set k v).get? k = some v :=
  (lookupIn_setIn _ _ _ _).trans (if_pos rfl)

theorem get?_set (k : κ) (v : ν) (j : κ) : (m.set k v).get? j = if k = j then some v else m.get? j :=
  lookupIn_setIn _ _ _ _

theorem get?_delete (k j : κ) : (m.delete k).get? j = if k = j then none else m.get? j :=
  lookupIn_filter _ _ _

@[simp] theorem get?_delete_self (k : κ) : (m.delete k).get? k = none := by
  rw [get?_delete, if_pos rfl]

theorem get?_deleteAll (ks : List κ) (j : κ) :
    (m.deleteAll ks).get? j = if j ∈ ks then none else m.get? j := by
  induction ks generalizing m with
  | nil => simp [deleteAll]
  | cons k ks ih =>
    rw [deleteAll, foldl_cons]
    refine (ih (m.delete k)).trans ?_
    rw [get?_delete]
    by_cases hks : j ∈ ks
    · rw [if_pos hks, if_pos (mem_cons_of_mem _ hks)]
    · by_cases hk : k = j
      · rw [if_neg hks, if_pos hk, if_pos (hk ▸ mem_cons_self)]
      · rw [if_neg hks, if_neg hk, if_neg fun h => (mem_cons.mp h).elim (fun h => hk h.symm) hks]

theorem get?_mapEntries (f : κ → ν → ν) (k : κ) : (m.mapEntries f).get? k = (m.get? k).map (f k) :=
  lookupIn_map m.entries f k

/-! ### Iteration -/

variable {m : JsMap κ ν}

theorem mem_entries_iff : (k, v) ∈ m.entries ↔ m.get? k = some v :=
  ⟨lookupIn_of_mem m.nodup_keys, mem_of_lookupIn⟩

theorem mem_keys_iff : k ∈ m.keys ↔ m.has k = true := by
  rw [has, Option.isSome_iff_exists]
  constructor
  · intro h
    obtain ⟨⟨k', v⟩, he, rfl⟩ := List.mem_map.mp h
    exact ⟨v, mem_entries_iff.mp he⟩
  · rintro ⟨v, hv⟩
    exact List.mem_map_of_mem (f := Prod.fst) (mem_entries_iff.mpr hv)

theorem mem_values_iff : v ∈ m.values ↔ ∃ k, m.get? k = some v := by
  constructor
  · intro h
    obtain ⟨⟨k, v'⟩, he, rfl⟩ := List.mem_map.mp h
    exact ⟨k, mem_entries_iff.mp he⟩
  · rintro ⟨k, hv⟩
    exact List.mem_map_of_mem (f := Prod.snd) (mem_entries_iff.mpr hv)

theorem has_iff : m.has k = true ↔ ∃ v, m.get? k = some v := by
  rw [has, Option.isSome_iff_exists]

@[simp] theorem has_set_self (m : JsMap κ ν) (k : κ) (v : ν) : (m.set k v).has k = true := by
  rw [has, get?_set_self, Option.isSome_some]

theorem has_set_of_has {k j : κ} (v : ν) (h : m.has j = true) : (m.set k v).has j = true := by
  rw [has, get?_set]
  split
  · rfl
  · exact h

theorem size_pos_iff : 0 < m.size ↔ ∃ k, m.has k = true := by
  rw [size, length_pos_iff_exists_mem]
  constructor
  · rintro ⟨⟨k, v⟩, he⟩
    exact ⟨k, has_iff.mpr ⟨v, mem_entries_iff.mp he⟩⟩
  · rintro ⟨k, hk⟩
    obtain ⟨v, hv⟩ := has_iff.mp hk
    exact ⟨(k, v), mem_entries_iff.mpr hv⟩

/-! ### Counting -/

theorem countP_setIn (es : List (κ × ν)) (k : κ) (v : ν) (p : ν → Bool) :
    ((setIn es k v).map Prod.snd).countP p + (if (lookupIn es k).any p then 1 else 0) =
      (es.map Prod.snd).countP p + if p v then 1 else 0 := by
  induction es with
  | nil => simp [setIn, lookupIn, countP_cons]
  | cons e es ih =>
    obtain ⟨k', v'⟩ := e
    by_cases hk : k' = k
    · simp only [setIn, lookupIn, if_pos hk, map_cons, countP_cons, Option.any_some]
      omega
    · simp only [setIn, lookupIn, if_neg hk, map_cons, countP_cons]
      omega

/-- Of the values that `p` holds of, `set` changes the number by at most the one. -/
theorem countP_set (m : JsMap κ ν) (k : κ) (v : ν) (p : ν → Bool) :
    (m.set k v).values.countP p + (if (m.get? k).any p then 1 else 0) =
      m.values.countP p + if p v then 1 else 0 :=
  countP_setIn m.entries k v p

theorem setIn_of_not_mem (h : k ∉ es.map Prod.fst) (v : ν) : setIn es k v = es ++ [(k, v)] := by
  induction es with
  | nil => rfl
  | cons e rest ih =>
    obtain ⟨k', v'⟩ := e
    rw [map_cons, mem_cons, not_or] at h
    rw [setIn, if_neg (Ne.symm h.1), ih h.2, cons_append]

theorem setIn_ne_nil (es : List (κ × ν)) (k : κ) (v : ν) : setIn es k v ≠ [] := by
  cases es with
  | nil => exact cons_ne_nil _ _
  | cons e rest =>
    rw [setIn]
    split <;> exact cons_ne_nil _ _

/-- A map that was made of some entries is not empty. -/
theorem foldl_set_ne_nil (h : es ≠ [] ∨ m.entries ≠ []) :
    (es.foldl (fun m e => m.set e.1 e.2) m).entries ≠ [] := by
  induction es generalizing m with
  | nil => exact h.resolve_left fun hne => hne rfl
  | cons e es ih => exact ih (.inr (setIn_ne_nil _ _ _))

omit [DecidableEq κ] in
theorem eq_of_entries {m m' : JsMap κ ν} (h : m.entries = m'.entries) : m = m' := by
  cases m
  cases m'
  congr

/-- A map is made of its entries. -/
theorem delete_of_absent (h : m.get? k = none) : m.delete k = m := by
  refine eq_of_entries (filter_eq_self.mpr ?_)
  intro e he
  have hne : e.1 ≠ k := by
    rintro rfl
    exact absurd (h.symm.trans (mem_entries_iff.mp he)) (by simp)
  simpa using hne

theorem foldl_set_entries (m : JsMap κ ν) : m.entries.foldl (fun m e => m.set e.1 e.2) .empty = m := by
  have hfold : ∀ (es : List (κ × ν)) (m : JsMap κ ν), ((m.entries ++ es).map Prod.fst).Nodup →
      (es.foldl (fun m e => m.set e.1 e.2) m).entries = m.entries ++ es := by
    intro es
    induction es with
    | nil => simp
    | cons e es ih =>
      intro m hnodup
      have hset : (m.set e.1 e.2).entries = m.entries ++ [e] := by
        refine setIn_of_not_mem (fun hmem => ?_) e.2
        rw [map_append, nodup_append] at hnodup
        exact hnodup.2.2 _ hmem _ mem_cons_self rfl
      rw [foldl_cons, ih _ (by rw [hset, append_assoc]; exact hnodup), hset, append_assoc]
      rfl
  exact eq_of_entries (hfold m.entries .empty m.nodup_keys)

/-- The values of a map that was made of some entries are theirs. -/
theorem forall_foldl_set {P : κ × ν → Prop} (hes : ∀ e ∈ es, P e)
    (hm : ∀ e ∈ m.entries, P e) : ∀ e ∈ (es.foldl (fun m e => m.set e.1 e.2) m).entries, P e := by
  induction es generalizing m with
  | nil => exact hm
  | cons e es ih =>
    refine ih (fun e' he' => hes e' (mem_cons_of_mem _ he')) fun e' he' => ?_
    rcases mem_setIn he' with rfl | he'
    · exact hes e mem_cons_self
    · exact hm e' he'

end JsMap

end Foxclaw
