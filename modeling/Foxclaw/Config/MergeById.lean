import Foxclaw.Config.MergePatch
import Mathlib.Data.List.Induction

/-!
# Arrays that are merged by id

With `mergeObjectArraysById` an array of objects that all have an id is not replaced by the array of the
patch: entries are merged into the ones with their id, and the others are appended.

The loop looks the ids up in an index of positions, which it extends while it appends. As long as the
index is right (`Indexed`), what the loop makes of the array is said entry by entry: `mergedInto` of what
is there, and `appendedEntries`. An empty id is none: a base entry with one makes the patch replace the
whole array.

## What is proved

* `mergeEntries_eq` — the loop, entry by entry.
* `applyMergePatch_mergedById` — what becomes of an array.
* `empty_id_replaced` — an array that is lost for an empty id.
-/

namespace Foxclaw.Config.MergePatch

open List Option
open Json (Fields)

/-- The entries of a patch that have this id. -/
def entriesWithId (id : String) (patch : List Json) : List Json :=
  patch.filter fun entry => objectId? entry = some id

/-- An entry after the entries of the patch with its id have been merged into it, one after the other. -/
def mergedInto (patch : List Json) (entry : Json) : Json :=
  match objectId? entry with
  | none => entry
  | some id => (entriesWithId id patch).foldl (applyMergePatch true) entry

/-- The entries without an id, and the first one of each id that is not in `ids`, into which the later
ones with its id have been merged. -/
def appendedEntries (ids : List String) : List Json → List Json
  | [] => []
  | entry :: rest => match objectId? entry with
    | none => entry :: appendedEntries ids rest
    | some id =>
      if id ∈ ids then appendedEntries ids rest
      else mergedInto rest entry :: appendedEntries (id :: ids) rest

variable {ids ids' : List String} {merged patch : List Json} {index : String → Option ℕ}

/-! ### One entry -/

@[simp] theorem mergedInto_nil (entry : Json) : mergedInto [] entry = entry := by
  unfold mergedInto
  split <;> rfl

variable {entry first : Json}

theorem mergedInto_of_none (h : objectId? entry = none) (patch : List Json) :
    mergedInto patch entry = entry := by
  rw [mergedInto, h]

/-- An entry of the patch with another id, or with none, changes nothing. -/
theorem mergedInto_cons_of_ne (h : objectId? first ≠ objectId? entry ∨
    objectId? first = none) (rest : List Json) : mergedInto (first :: rest) entry = mergedInto rest entry := by
  unfold mergedInto entriesWithId
  cases hid : objectId? entry with
  | none => rfl
  | some id =>
    have hne : ¬ objectId? first = some id := by
      rintro hfirst
      rcases h with h | h
      · exact h (hfirst.trans hid.symm)
      · exact absurd (hfirst.symm.trans h) (some_ne_none id)
    simp only [filter_cons, hne, decide_false]
    rfl

/-- What an entry with an id is merged into has the id after. -/
theorem objectId?_applyMergePatch {id : String} (hfirst : objectId? first = some id)
    (hnd : ∀ fields, first = .obj fields → (fields.map (·.1)).Nodup) :
    objectId? (applyMergePatch true entry first) = some id := by
  cases first with
  | obj fields =>
    rw [applyMergePatch, objectId?, lookup_applyEntries _ _ _ (hnd fields rfl), if_neg (by decide)]
    rw [objectId?] at hfirst
    cases hlookup : fields.lookup "id" with
    | none =>
      rw [hlookup] at hfirst
      cases hfirst
    | some value =>
      rw [hlookup] at hfirst
      cases value with
      | str s => exact hfirst
      | null => cases hfirst
      | bool b => cases hfirst
      | num n => cases hfirst
      | arr items => cases hfirst
      | obj fields => cases hfirst
  | null => cases hfirst
  | bool b => cases hfirst
  | num n => cases hfirst
  | str s => cases hfirst
  | arr items => cases hfirst

/-- The first entry with its id is merged into an entry before the others. -/
theorem mergedInto_cons_of_eq {id : String} (hentry : objectId? entry = some id)
    (hfirst : objectId? first = some id)
    (hnd : ∀ fields, first = .obj fields → (fields.map (·.1)).Nodup) (rest : List Json) :
    mergedInto (first :: rest) entry = mergedInto rest (applyMergePatch true entry first) := by
  rw [mergedInto, hentry, mergedInto, objectId?_applyMergePatch hfirst hnd]
  dsimp only
  rw [entriesWithId, filter_cons, if_pos (decide_eq_true hfirst), foldl_cons]
  rfl

/-- All entries that are merged into an entry have its id, and leave it. -/
theorem objectId?_mergedInto (hnd : ∀ fields, .obj fields ∈ patch → (fields.map (·.1)).Nodup)
    (entry : Json) : objectId? (mergedInto patch entry) = objectId? entry := by
  induction patch generalizing entry with
  | nil => rw [mergedInto_nil]
  | cons first rest ih =>
    have hrest : ∀ fields, .obj fields ∈ rest → (fields.map (·.1)).Nodup :=
      fun fields hmem => hnd fields (mem_cons_of_mem _ hmem)
    cases hentry : objectId? entry with
    | none => rw [mergedInto_of_none hentry, hentry]
    | some id =>
      by_cases hfirst : objectId? first = some id
      · have hnd' : ∀ fields, first = .obj fields → (fields.map (·.1)).Nodup :=
          fun fields heq => hnd fields (heq ▸ mem_cons_self)
        rw [mergedInto_cons_of_eq hentry hfirst hnd', ih hrest, objectId?_applyMergePatch hfirst hnd']
      · rw [mergedInto_cons_of_ne (.inl (hentry ▸ hfirst)), ih hrest, hentry]

/-! ### The index -/

/-- The index has the positions of the entries with an id. -/
def Indexed (merged : List Json) (index : String → Option ℕ) : Prop :=
  ∀ id i, index id = some i ↔ merged[i]?.bind objectId? = some id

theorem Indexed.mem_iff (h : Indexed merged index) (id : String) :
    id ∈ merged.filterMap objectId? ↔ (index id).isSome = true := by
  rw [mem_filterMap, isSome_iff_exists]
  constructor
  · rintro ⟨entry, hmem, hid⟩
    obtain ⟨i, hi⟩ := mem_iff_getElem?.mp hmem
    exact ⟨i, (h id i).mpr (by rw [hi]; exact hid)⟩
  · rintro ⟨i, hi⟩
    obtain ⟨entry, hentry, hid⟩ := bind_eq_some_iff.mp ((h id i).mp hi)
    exact ⟨entry, mem_of_getElem? hentry, hid⟩

theorem Indexed.append_none (h : Indexed merged index) (hid : objectId? entry = none) :
    Indexed (merged ++ [entry]) index := by
  intro id i
  rw [h id i, getElem?_append]
  split
  · exact Iff.rfl
  · rename_i hlt
    rw [getElem?_eq_none (Nat.le_of_not_lt hlt)]
    cases hi : [entry][i - merged.length]? with
    | none => exact Iff.rfl
    | some v =>
      have hv : v = entry := mem_singleton.mp (mem_of_getElem? hi)
      subst hv
      simp [hid]

theorem Indexed.append_new (h : Indexed merged index) {id : String}
    (hid : objectId? entry = some id) (hnew : index id = none) :
    Indexed (merged ++ [entry]) (Function.update index id (some merged.length)) := by
  intro id' i
  by_cases heq : id' = id
  · subst heq
    rw [Function.update_self, some.injEq, getElem?_append]
    split
    · rename_i hlt
      refine iff_of_false (fun hi => by omega) fun hi => ?_
      rw [← h id' i, hnew] at hi
      cases hi
    · rename_i hlt
      constructor
      · rintro rfl
        rw [Nat.sub_self]
        exact hid
      · intro hi
        obtain ⟨v, hv, -⟩ := bind_eq_some_iff.mp hi
        have := (List.getElem?_eq_some_iff.mp hv).1
        rw [length_singleton] at this
        omega
  · rw [Function.update_of_ne heq, h id' i, getElem?_append]
    split
    · exact Iff.rfl
    · rename_i hlt
      rw [getElem?_eq_none (Nat.le_of_not_lt hlt)]
      refine iff_of_false (fun hi => by cases hi) fun hi => ?_
      obtain ⟨v, hv, hid'⟩ := bind_eq_some_iff.mp hi
      have hv' : v = entry := mem_singleton.mp (mem_of_getElem? hv)
      rw [hv', hid, some.injEq] at hid'
      exact heq hid'.symm

theorem Indexed.set (h : Indexed merged index) {i : ℕ} {id : String} (hi : index id = some i)
    (hid : objectId? entry = some id) : Indexed (merged.set i entry) index := by
  intro id' j
  rw [h id' j, getElem?_set]
  split
  · rename_i heq
    subst heq
    have hold := (h id i).mp hi
    obtain ⟨v, hv, -⟩ := bind_eq_some_iff.mp hold
    rw [if_pos (List.getElem?_eq_some_iff.mp hv).1, hold, bind_some, hid]
  · exact Iff.rfl

/-- The index that is built of a base array with different ids. -/
theorem indexed_indexById {base : List Json} (hdistinct : (base.filterMap objectId?).Nodup) :
    Indexed base (indexById base) := by
  induction base using List.reverseRecOn with
  | nil =>
    intro id i
    simp [indexById]
  | append_singleton base entry ih =>
    rw [filterMap_append, nodup_append'] at hdistinct
    have hbase := ih hdistinct.1
    have hindex : indexById (base ++ [entry]) =
        (objectId? entry).elim (indexById base) fun id => Function.update (indexById base) id (some base.length) := by
      rw [indexById, zipIdx_append, foldl_append]
      cases hid : objectId? entry <;> simp [hid, indexById]
    rw [hindex]
    cases hid : objectId? entry with
    | none => exact hbase.append_none hid
    | some id =>
      refine hbase.append_new hid (isNone_iff_eq_none.mp ?_)
      rw [← not_isSome, Bool.not_eq_true', ← Bool.not_eq_true, ← hbase.mem_iff]
      intro hmem
      exact hdistinct.2.2 hmem (by simp [hid])

/-! ### The loop -/

/-- Which ids are there is all that counts. -/
theorem appendedEntries_congr (h : ∀ id, id ∈ ids ↔ id ∈ ids') (patch : List Json) :
    appendedEntries ids patch = appendedEntries ids' patch := by
  induction patch generalizing ids ids' with
  | nil => rfl
  | cons entry rest ih =>
    rw [appendedEntries, appendedEntries]
    cases objectId? entry with
    | none => exact congrArg (entry :: ·) (ih h)
    | some id =>
      have hcons : ∀ id', id' ∈ id :: ids ↔ id' ∈ id :: ids' := by
        intro id'
        rw [mem_cons, mem_cons, h id']
      dsimp only
      simp only [h id, ih h, ih hcons]

/-- The loop, entry by entry. -/
theorem mergeEntries_eq (h : Indexed merged index)
    (hnd : ∀ fields, .obj fields ∈ patch → (fields.map (·.1)).Nodup) :
    mergeEntries true merged index patch =
      merged.map (mergedInto patch) ++ appendedEntries (merged.filterMap objectId?) patch := by
  induction patch generalizing merged index with
  | nil =>
    rw [mergeEntries, appendedEntries, append_nil]
    exact (map_id'' mergedInto_nil merged).symm
  | cons entry rest ih =>
    have hrest : ∀ fields, .obj fields ∈ rest → (fields.map (·.1)).Nodup :=
      fun fields hmem => hnd fields (mem_cons_of_mem _ hmem)
    rw [mergeEntries, appendedEntries]
    cases hid : objectId? entry with
    | none =>
      have hsame : merged.map (mergedInto (entry :: rest)) = merged.map (mergedInto rest) :=
        map_congr_left fun e _ => mergedInto_cons_of_ne (.inr hid) rest
      dsimp only
      rw [ih (h.append_none hid) hrest, hsame, map_append, filterMap_append, append_assoc]
      simp [hid, mergedInto_of_none hid]
    | some id =>
      dsimp only
      cases hi : index id with
      | none =>
        have hnew : id ∉ merged.filterMap objectId? := by
          rw [h.mem_iff, hi]
          exact Bool.false_ne_true
        have hsame : merged.map (mergedInto (entry :: rest)) = merged.map (mergedInto rest) := by
          refine map_congr_left fun e he => mergedInto_cons_of_ne (.inl fun heq => hnew ?_) rest
          exact mem_filterMap.mpr ⟨e, he, heq.symm.trans hid⟩
        have hids : ∀ id', id' ∈ (merged ++ [entry]).filterMap objectId? ↔
            id' ∈ id :: merged.filterMap objectId? := by
          intro id'
          simp [filterMap_append, hid, or_comm]
        dsimp only
        rw [ih (h.append_new hid hi) hrest, hsame, if_neg hnew, map_append, append_assoc,
          appendedEntries_congr hids]
        rfl
      | some i =>
        have hmem : id ∈ merged.filterMap objectId? := by rw [h.mem_iff, hi]; rfl
        obtain ⟨old, hold, hoid⟩ := bind_eq_some_iff.mp ((h id i).mp hi)
        have hnd' : ∀ fields, entry = .obj fields → (fields.map (·.1)).Nodup :=
          fun fields heq => hnd fields (heq ▸ mem_cons_self)
        have hset := h.set hi (@objectId?_applyMergePatch old entry id hid hnd')
        have hget : merged.getD i .null = old := by rw [getD_eq_getElem?_getD, hold]; rfl
        dsimp only
        rw [hget, ih hset hrest, if_pos hmem]
        congr 1
        · -- the entries: one is merged into, the others have other ids
          refine ext_getElem? fun j => ?_
          rw [getElem?_map, getElem?_map, getElem?_set]
          split
          · rename_i heq
            subst heq
            rw [if_pos (List.getElem?_eq_some_iff.mp hold).1, hold, map_some, map_some,
              mergedInto_cons_of_eq hoid hid hnd']
          · rename_i hne
            cases hj : merged[j]? with
            | none => rfl
            | some e =>
              have hother : objectId? entry ≠ objectId? e := by
                intro heq
                refine hne (some.inj ?_)
                rw [← hi, (h id j).mpr (by rw [hj, bind_some, ← heq, hid])]
              rw [map_some, map_some, mergedInto_cons_of_ne (.inl hother)]
        · -- the ids stay
          refine appendedEntries_congr (fun id' => ?_) rest
          rw [hset.mem_iff, h.mem_iff]

/-- The ids of what is appended: each new id once, as they first appear. -/
theorem ids_appendedEntries (hnd : ∀ fields, .obj fields ∈ patch → (fields.map (·.1)).Nodup) :
    (appendedEntries ids patch).filterMap objectId? =
      ((patch.filterMap objectId?).filter (· ∉ ids)).eraseDups := by
  induction patch generalizing ids with
  | nil => rfl
  | cons entry rest ih =>
    have hrest : ∀ fields, .obj fields ∈ rest → (fields.map (·.1)).Nodup :=
      fun fields hmem => hnd fields (mem_cons_of_mem _ hmem)
    rw [appendedEntries]
    cases hid : objectId? entry with
    | none =>
      dsimp only
      rw [filterMap_cons_none hid, filterMap_cons_none hid, ih hrest]
    | some id =>
      dsimp only
      rw [filterMap_cons_some hid, filter_cons]
      by_cases hmem : id ∈ ids
      · rw [if_pos hmem, if_neg (by simpa using hmem), ih hrest]
      · have hmerged : objectId? (mergedInto rest entry) = some id := by
          rw [objectId?_mergedInto hrest, hid]
        rw [if_neg hmem, if_pos (by simpa using hmem), filterMap_cons_some hmerged, ih hrest,
          eraseDups_cons, List.filter_filter]
        congr 3
        funext id'
        by_cases heq : id' = id <;> simp [heq]

/-- What has no id is appended as it is. -/
theorem noId_appendedEntries (hnd : ∀ fields, .obj fields ∈ patch → (fields.map (·.1)).Nodup) :
    (appendedEntries ids patch).filter (fun entry => (objectId? entry).isNone) =
      patch.filter fun entry => (objectId? entry).isNone := by
  induction patch generalizing ids with
  | nil => rfl
  | cons entry rest ih =>
    have hrest : ∀ fields, .obj fields ∈ rest → (fields.map (·.1)).Nodup :=
      fun fields hmem => hnd fields (mem_cons_of_mem _ hmem)
    rw [appendedEntries]
    cases hid : objectId? entry with
    | none =>
      dsimp only
      rw [filter_cons, filter_cons, hid, ih hrest]
    | some id =>
      have hsome : ¬ (objectId? entry).isNone = true := by simp [hid]
      have hmerged : ¬ (objectId? (mergedInto rest entry)).isNone = true := by
        rwa [objectId?_mergedInto hrest]
      dsimp only
      rw [filter_cons, if_neg hsome]
      split
      · exact ih hrest
      · rw [filter_cons, if_neg hmerged, ih hrest]

/-! ### Arrays -/

/-- What merging by id is to make of a base array: no entry is lost, none is doubled. -/
structure MergedById (base patch merged appended : List Json) : Prop where
  /-- The base entries come first, in their order, each with the entries of its id merged into it. -/
  entries : merged = base.map (mergedInto patch) ++ appended
  kept : (base.map (mergedInto patch)).map objectId? = base.map objectId?
  /-- An entry whose id is not in the patch is as it was. -/
  untouched : ∀ entry ∈ base, (∀ p ∈ patch, objectId? p ≠ objectId? entry) → mergedInto patch entry = entry
  /-- Each new id is appended once, as they first appear. -/
  newIds : appended.filterMap objectId? =
    ((patch.filterMap objectId?).filter (· ∉ base.filterMap objectId?)).eraseDups
  /-- What has no id is appended as it is. -/
  noId : appended.filter (fun entry => (objectId? entry).isNone) =
    patch.filter fun entry => (objectId? entry).isNone

theorem mergedInto_of_ne (h : ∀ p ∈ patch, objectId? p ≠ objectId? entry) :
    mergedInto patch entry = entry := by
  induction patch with
  | nil => rw [mergedInto_nil]
  | cons first rest ih =>
    rw [mergedInto_cons_of_ne (.inl (h first mem_cons_self)), ih fun p hp => h p (mem_cons_of_mem _ hp)]

/-- **A base array whose objects have different, non-empty ids is merged by id**, under any key that is not
blocked. -/
theorem applyMergePatch_mergedById {fields patchFields : Fields} {base patch : List Json} {k : String}
    (hkeys : (patchFields.map (·.1)).Nodup) (hk : isBlockedObjectKey k = false)
    (hbase : fields.lookup k = some (.arr base)) (hpatch : patchFields.lookup k = some (.arr patch))
    (hids : ∀ entry ∈ base, (objectId? entry).isSome = true) (hdistinct : (base.filterMap objectId?).Nodup)
    (hnd : ∀ fields, .obj fields ∈ patch → (fields.map (·.1)).Nodup) :
    ∃ merged appended,
      (fieldsOf (applyMergePatch true (.obj fields) (.obj patchFields))).lookup k = some (.arr merged) ∧
      MergedById base patch merged appended := by
  refine ⟨_, appendedEntries (base.filterMap objectId?) patch, ?_, rfl, ?_, ?_, ids_appendedEntries hnd,
    noId_appendedEntries hnd⟩
  · have hall : base.all (fun v => (objectId? v).isSome) = true := List.all_eq_true.mpr hids
    rw [applyMergePatch, fieldsOf, lookup_applyEntries _ _ _ hkeys, hk, hpatch]
    show applyEntry true (fields.lookup k) (.arr patch) = _
    rw [hbase, applyEntry, if_pos hall, mergeEntries_eq (indexed_indexById hdistinct) hnd]
  · rw [List.map_map]
    exact map_congr_left fun entry _ => objectId?_mergedInto hnd entry
  · exact fun entry _ h => mergedInto_of_ne h

/-- The agents of a config. -/
def agents : List Json :=
  [.obj [("id", .str "main"), ("default", .bool true)], .obj [("id", .str "ota")]]

/-- A patch that names one of them twice and a new one, and has an entry without an id. -/
def agentsPatch : List Json :=
  [.obj [("id", .str "main"), ("model", .str "a")], .str "note", .obj [("id", .str "new")],
    .obj [("id", .str "main"), ("model", .str "b")]]

theorem applyMergePatch_mergedById_agents : ∃ merged appended,
    (fieldsOf (applyMergePatch true (.obj [("list", .arr agents)])
      (.obj [("list", .arr agentsPatch)]))).lookup "list" = some (.arr merged) ∧
    MergedById agents agentsPatch merged appended := by
  refine applyMergePatch_mergedById (by decide) (by decide) rfl rfl (by decide) (by decide) ?_
  intro fields hmem
  simp only [agentsPatch, mem_cons, Json.obj.injEq, not_mem_nil, or_false] at hmem
  rcases hmem with rfl | hmem | rfl | rfl
  · decide
  · cases hmem
  · decide
  · decide

/-- An entry whose id is a string, the empty one. -/
def emptyId : Json := .obj [("id", .str "")]

/-- An array whose only object has the empty id is replaced, by an empty patch too: the object is lost. -/
theorem empty_id_replaced :
    (fieldsOf (applyMergePatch true (.obj [("list", .arr [emptyId])])
      (.obj [("list", .arr [])]))).lookup "list" = some (.arr []) ∧
    ∀ (merge : Json → Json) (appended : List Json), [] ≠ [emptyId].map merge ++ appended := by
  refine ⟨rfl, fun merge appended h => ?_⟩
  cases h

end Foxclaw.Config.MergePatch
