import Foxclaw.Lib.Json

/-!
# Merge patches

This module models `createMergePatch` and the projection of `config/io.ts`, and
`config/merge-patch.ts`: the patch that leads from one config to another, and its
application to a third.

## The model

Configs are JSON values (`Json`), those compared without a property named `__proto__`. A missing
key is looked up on `Object.prototype` by `key in base` and `base[key]`: for a key of
`base` named like one of its members (`objectPrototypeKeys`) that `target` lacks,
`targetValue` is a function, and cloning it throws. `createMergePatch` is then `none`.

## What is proved

* `lookup_createMergePatch` — the patch, key by key.
* `lookup_applyEntries` — its application, key by key.
* `applyMergePatch_twice` — a patch that is applied twice.
-/

namespace Foxclaw.Config.MergePatch

open List Option
open Json (Fields deepEqual)

/-- The members of `Object.prototype`, `__proto__` apart. -/
def objectPrototypeKeys : List String :=
  ["constructor", "__defineGetter__", "__defineSetter__", "hasOwnProperty", "__lookupGetter__",
    "__lookupSetter__", "isPrototypeOf", "propertyIsEnumerable", "toString", "valueOf",
    "toLocaleString"]

def isBlockedObjectKey (key : String) : Bool := key ∈ ["__proto__", "prototype", "constructor"]

/-- `Object.keys(value).length === 0`, of an object. -/
def isEmptyObject : Json → Bool
  | .obj [] => true
  | _ => false

/-- The value in the patch of a key of `base` that is not in `target`. -/
def patchMissing (key : String) : Option (Option Json) :=
  if key ∈ objectPrototypeKeys then none else some (some .null)

/-- The value in the patch, if any, of a key that `base` and `target` both have. -/
def patchPresent (baseValue targetValue : Json) (childPatch : Option Json) : Option (Option Json) :=
  match baseValue, targetValue with
  | .obj _, .obj _ => childPatch.map fun patch => if isEmptyObject patch then none else some patch
  | _, _ => some (if deepEqual baseValue targetValue then none else some targetValue)

mutual
def createMergePatch : Json → Json → Option Json
  | .obj base, .obj target => do
      let patch ← patchKeys base target
      some (.obj (patch ++ target.filter fun p => (base.lookup p.1).isNone))
  | _, target => some target
/-- The part of the patch for the keys of `base`. -/
def patchKeys : Fields → Fields → Option Fields
  | [], _ => some []
  | (key, baseValue) :: rest, target => do
      let value ← match target.lookup key with
        | none => patchMissing key
        | some targetValue =>
            patchPresent baseValue targetValue (createMergePatch baseValue targetValue)
      let patch ← patchKeys rest target
      some (match value with
        | some value => (key, value) :: patch
        | none => patch)
end

/-- The properties of an object; none of another value. -/
def fieldsOf : Json → Fields
  | .obj fields => fields
  | _ => []

/-- `isPlainObject(value) ? value : {}`. -/
def asObject : Option Json → Json
  | some (.obj fields) => .obj fields
  | _ => .obj []

/-- The id of an entry that `isObjectWithStringId` accepts. -/
def objectId? : Json → Option String
  | .obj fields => match fields.lookup "id" with
    | some (.str id) => if id = "" then none else some id
    | _ => none
  | _ => none

/-- `indexById`: the last entry of each id. -/
def indexById (items : List Json) : String → Option ℕ :=
  items.zipIdx.foldl (fun index p => match objectId? p.1 with
    | some id => Function.update index id (some p.2)
    | none => index) fun _ => none

mutual
/-- `applyMergePatch`; `byId` is the option `mergeObjectArraysById`. -/
def applyMergePatch (byId : Bool) (base : Json) : Json → Json
  | .obj patch => .obj (applyEntries byId (fieldsOf base) patch)
  | patch => patch
/-- The loop of `applyMergePatch` over the entries of the patch. -/
def applyEntries (byId : Bool) (result : Fields) : Fields → Fields
  | [] => result
  | (key, value) :: rest =>
      applyEntries byId
        (if isBlockedObjectKey key then result
        else match applyEntry byId (result.lookup key) value with
          | none => result.erase key
          | some v => result.set key v)
        rest
/-- What an entry of the patch makes of `result[key]`; `none` if it deletes the key. -/
def applyEntry (byId : Bool) (current : Option Json) : Json → Option Json
  | .null => none
  -- `applyMergePatch` of the object that is there, or of `{}`
  | .obj patch => some (.obj (applyEntries byId (fieldsOf (asObject current)) patch))
  | .arr patch => match byId, current with
    | true, some (.arr items) =>
        if items.all fun v => (objectId? v).isSome then
          some (.arr (mergeEntries byId items (indexById items) patch))
        else some (.arr patch)
    | _, _ => some (.arr patch)
  | value => some value
/-- The loop of `mergeObjectArraysById` over the entries of the patch. -/
def mergeEntries (byId : Bool) (merged : List Json) (index : String → Option ℕ) :
    List Json → List Json
  | [] => merged
  | entry :: rest => match objectId? entry with
    | none => mergeEntries byId (merged ++ [entry]) index rest
    | some id => match index id with
      | none =>
          mergeEntries byId (merged ++ [entry]) (Function.update index id (some merged.length)) rest
      | some i =>
          mergeEntries byId (merged.set i (applyMergePatch byId (merged.getD i .null) entry)) index rest
end

def coerceConfig : Json → Json
  | .obj fields => .obj fields
  | _ => .obj []

/-- The config that `writeConfigFile` writes for `cfg`, when there are a runtime snapshot and
its source. -/
def projectConfig (source runtime cfg : Json) : Option Json :=
  (createMergePatch runtime cfg).map fun runtimePatch =>
    coerceConfig (applyMergePatch false source runtimePatch)

/-! ### The patch, key by key -/

/-- The value in the patch of a key with these values in `base` and `target`. -/
def patchValue (key : String) : Option Json → Option Json → Option (Option Json)
  | none, targetValue => some targetValue
  | some _, none => patchMissing key
  | some baseValue, some targetValue =>
      patchPresent baseValue targetValue (createMergePatch baseValue targetValue)

theorem patchKeys_cons (key : String) (baseValue : Json) (rest target : Fields) :
    patchKeys ((key, baseValue) :: rest) target =
      (patchValue key (some baseValue) (target.lookup key)).bind fun value =>
        (patchKeys rest target).map fun patch => match value with
          | some value => (key, value) :: patch
          | none => patch := by
  rw [patchKeys]
  simp only [map_eq_bind]
  cases target.lookup key <;> rfl

variable {base patch target : Fields}

/-- The keys of the patch are keys of the base, in order. -/
theorem patchKeys_sublist (h : patchKeys base target = some patch) :
    (patch.map (·.1)).Sublist (base.map (·.1)) := by
  induction base generalizing patch with
  | nil =>
    rw [patchKeys, some.injEq] at h
    exact h ▸ .refl _
  | cons p rest ih =>
    obtain ⟨key, baseValue⟩ := p
    rw [patchKeys_cons, bind_eq_some_iff] at h
    obtain ⟨value, -, h⟩ := h
    obtain ⟨patch', hp, rfl⟩ := map_eq_some_iff.mp h
    cases value with
    | none => exact (ih hp).cons _
    | some value => exact (ih hp).cons_cons _

theorem lookup_patchKeys (hnd : (base.map (·.1)).Nodup)
    (h : patchKeys base target = some patch) (key : String) :
    (base.lookup key = none → patch.lookup key = none) ∧
    ∀ baseValue, base.lookup key = some baseValue →
      patchValue key (some baseValue) (target.lookup key) = some (patch.lookup key) := by
  refine ⟨fun hk => ?_, ?_⟩
  · rw [Fields.lookup_eq_none] at hk ⊢
    exact fun hm => hk ((patchKeys_sublist h).subset hm)
  induction base generalizing patch with
  | nil => simp
  | cons p rest ih =>
    intro baseValue hb
    obtain ⟨key', baseValue'⟩ := p
    rw [map_cons, nodup_cons] at hnd
    rw [patchKeys_cons, bind_eq_some_iff] at h
    obtain ⟨value, hv, h⟩ := h
    obtain ⟨patch', hp, rfl⟩ := map_eq_some_iff.mp h
    rw [Fields.lookup_cons] at hb
    by_cases hk : key = key'
    · -- the first key: the rest of the patch does not have it
      subst hk
      rw [if_pos rfl, some.injEq] at hb
      have hrest : patch'.lookup key = none := by
        rw [Fields.lookup_eq_none]
        exact fun hm => hnd.1 ((patchKeys_sublist hp).subset hm)
      rw [← hb, hv]
      cases value with
      | none => rw [hrest]
      | some value => rw [Fields.lookup_cons, if_pos rfl]
    · rw [if_neg hk] at hb
      rw [ih hnd.2 hp baseValue hb]
      cases value with
      | none => rfl
      | some value => rw [Fields.lookup_cons, if_neg hk]

/-- The patch, key by key. -/
theorem lookup_createMergePatch (hnd : (base.map (·.1)).Nodup)
    (h : createMergePatch (.obj base) (.obj target) = some (.obj patch)) (key : String) :
    patchValue key (base.lookup key) (target.lookup key) = some (patch.lookup key) := by
  rw [createMergePatch] at h
  obtain ⟨patch', hp, he⟩ := bind_eq_some_iff.mp h
  obtain rfl := Json.obj.inj (some.inj he)
  have hnew := Fields.lookup_filter target (fun k => (base.lookup k).isNone) key
  obtain ⟨hnone, hsome⟩ := lookup_patchKeys hnd hp key
  rw [Fields.lookup_append, hnew]
  cases hb : base.lookup key with
  | none => rw [hnone hb]; rfl
  | some baseValue => rw [hsome _ hb]; simp

/-- A patch between objects is an object without two entries of one key. -/
theorem createMergePatch_obj {patch : Json} (hnd : (base.map (·.1)).Nodup)
    (hnd' : (target.map (·.1)).Nodup) (h : createMergePatch (.obj base) (.obj target) = some patch) :
    ∃ entries, patch = .obj entries ∧ (entries.map (·.1)).Nodup := by
  rw [createMergePatch] at h
  obtain ⟨patch', hp, he⟩ := bind_eq_some_iff.mp h
  obtain rfl := some.inj he
  refine ⟨_, rfl, ?_⟩
  have hsub := patchKeys_sublist hp
  rw [map_append, nodup_append']
  refine ⟨hsub.nodup hnd, (filter_sublist.map _).nodup hnd', fun k hk hk' => ?_⟩
  obtain ⟨p, hp', rfl⟩ := List.mem_map.mp hk'
  have hnone := (mem_filter.mp hp').2
  rw [isNone_iff_eq_none, Fields.lookup_eq_none] at hnone
  exact hnone (hsub.subset hk)

/-- The patch can be made if the value of each key can. -/
theorem createMergePatch_isSome (hnd : (base.map (·.1)).Nodup) :
    (createMergePatch (.obj base) (.obj target)).isSome = true ↔
      ∀ key, (patchValue key (base.lookup key) (target.lookup key)).isSome = true := by
  have hkeys : (createMergePatch (.obj base) (.obj target)).isSome = (patchKeys base target).isSome := by
    rw [createMergePatch]
    cases patchKeys base target <;> rfl
  rw [hkeys]
  induction base with
  | nil => simp [patchKeys, patchValue]
  | cons p rest ih =>
    obtain ⟨key', baseValue⟩ := p
    rw [map_cons, nodup_cons] at hnd
    have hkeys' : (createMergePatch (.obj rest) (.obj target)).isSome =
        (patchKeys rest target).isSome := by
      rw [createMergePatch]
      cases patchKeys rest target <;> rfl
    have hrest : rest.lookup key' = none := Fields.lookup_eq_none.mpr hnd.1
    rw [patchKeys_cons]
    constructor
    · intro h key
      obtain ⟨patch, hp⟩ := isSome_iff_exists.mp h
      obtain ⟨value, hv, hp⟩ := bind_eq_some_iff.mp hp
      obtain ⟨patch', hp', -⟩ := map_eq_some_iff.mp hp
      rw [Fields.lookup_cons]
      by_cases hk : key = key'
      · subst hk
        rw [if_pos rfl, hv]
        rfl
      · rw [if_neg hk]
        exact (ih hnd.2 hkeys').mp (by rw [hp']; rfl) key
    · intro h
      obtain ⟨value, hv⟩ := isSome_iff_exists.mp (h key')
      rw [Fields.lookup_cons, if_pos rfl] at hv
      have hpatch : (patchKeys rest target).isSome = true := (ih hnd.2 hkeys').mpr fun key => by
        by_cases hk : key = key'
        · rw [hk, hrest]
          rfl
        · have := h key
          rwa [Fields.lookup_cons, if_neg hk] at this
      obtain ⟨patch, hp⟩ := isSome_iff_exists.mp hpatch
      rw [hv, hp]
      rfl

/-! ### The application, key by key -/

/-- The application of a patch, key by key. -/
theorem lookup_applyEntries (byId : Bool) (result patch : Fields) (hnd : (patch.map (·.1)).Nodup)
    (k : String) : (applyEntries byId result patch).lookup k =
      if isBlockedObjectKey k then result.lookup k
      else match patch.lookup k with
        | none => result.lookup k
        | some value => applyEntry byId (result.lookup k) value := by
  induction patch generalizing result with
  | nil => simp [applyEntries]
  | cons p rest ih =>
    obtain ⟨key, value⟩ := p
    rw [map_cons, nodup_cons] at hnd
    rw [applyEntries, ih _ hnd.2, Fields.lookup_cons]
    by_cases hk : k = key
    · subst hk
      have hrest : rest.lookup k = none := Fields.lookup_eq_none.mpr hnd.1
      rw [hrest, if_pos rfl]
      cases hb : isBlockedObjectKey k with
      | true => rfl
      | false =>
        cases ha : applyEntry byId (result.lookup k) value with
        | none => simp [ha, Fields.lookup_erase]
        | some v => simp [ha, Fields.lookup_set]
    · -- another key: the entry leaves it alone
      have hsame : List.lookup k (if isBlockedObjectKey key then result
          else match applyEntry byId (result.lookup key) value with
            | none => result.erase key
            | some v => result.set key v) = result.lookup k := by
        split
        · rfl
        · split
          · rw [Fields.lookup_erase, if_neg hk]
          · rw [Fields.lookup_set, if_neg hk]
      rw [hsame, if_neg hk]

/-! ### A patch that is applied twice -/

theorem applyEntries_twice {result patch : Fields} (hnd : (patch.map (·.1)).Nodup)
    (h : ∀ p ∈ patch, ∀ v,
      Json.Same (applyEntry false (applyEntry false v p.2) p.2) (applyEntry false v p.2)) :
    Json.Same (some (.obj (applyEntries false (applyEntries false result patch) patch)))
      (some (.obj (applyEntries false result patch))) := by
  refine Json.same_obj.mpr fun k => ?_
  simp only [lookup_applyEntries _ _ _ hnd]
  split
  · exact .refl _
  · cases hv : patch.lookup k with
    | none => exact .refl _
    | some value => exact h _ (Fields.mem_of_lookup hv) _

theorem applyEntry_twice {patch : Json} (h : patch.DistinctKeys) (v : Option Json) :
    Json.Same (applyEntry false (applyEntry false v patch) patch) (applyEntry false v patch) := by
  induction patch using Json.rec_on generalizing v with
  | obj fields ih =>
    obtain ⟨hnd, hfields⟩ := Json.distinctKeys_obj.mp h
    exact applyEntries_twice hnd fun p hp => ih p hp (hfields p hp)
  | _ => simp only [applyEntry, Json.Same.refl]

/-- Applying a merge patch once more changes nothing. -/
theorem applyMergePatch_twice {patch : Json} (h : patch.DistinctKeys) (base : Json) :
    Json.Same (some (applyMergePatch false (applyMergePatch false base patch) patch))
      (some (applyMergePatch false base patch)) := by
  cases patch with
  | obj fields =>
    obtain ⟨hnd, hfields⟩ := Json.distinctKeys_obj.mp h
    exact applyEntries_twice hnd fun p hp => applyEntry_twice (hfields p hp)
  | _ => exact .refl _

/-- A patch that deletes a key below, beside keys that are blocked. -/
def nestedPatch : Json :=
  .obj [("gateway", .obj [("token", .null), ("__proto__", .num 1), ("port", .num 2)]), ("constructor", .null)]

theorem applyMergePatch_twice_nested :
    Json.Same (some (applyMergePatch false (applyMergePatch false
        (.obj [("gateway", .obj [("token", .str "t"), ("host", .str "h")])]) nestedPatch) nestedPatch))
      (some (applyMergePatch false
        (.obj [("gateway", .obj [("token", .str "t"), ("host", .str "h")])]) nestedPatch)) := by
  refine applyMergePatch_twice ?_ _
  have hnull : Json.DistinctKeys .null := Json.distinctKeys_leaf (by simp [Json.shape]) (by simp [Json.shape])
  have hnum : ∀ n, Json.DistinctKeys (.num n) := fun n =>
    Json.distinctKeys_leaf (by simp [Json.shape]) (by simp [Json.shape])
  simp [nestedPatch, Json.distinctKeys_obj, hnull, hnum]

end Foxclaw.Config.MergePatch
