import Foxclaw.Config.EnvSubstitution

/-!
# References put back by their path

This module models the second way in which `config/io.ts` puts references to environment
variables back before a config is written. The references of the file are collected under
their paths (`collectEnvRefPaths`), and so are the places at which the config that is written
differs from the one that was read (`collectChangedPaths`); a string at a path under which a
reference was collected, and which is not below a change, is replaced by the reference
(`restoreEnvRefsFromMap`).

## The model

A path is a text: the keys joined by dots, the indices in brackets. Two places may so have one
path, and a place may have a path below that of another without being below it, for keys are
arbitrary texts. `output` is the list of what is added to it, in order.

Configs are JSON values, objects without a property named `__proto__`. A key that one of two
objects only inherits is as one that it does not have: what is found there equals no JSON value.

## What is proved

* `at?_restoreEnvRefsFromMap` — what is written, place by place.
* `collectEnvRefPaths_eq`, `mem_collectChangedPaths` — what is collected, by the places.
-/

namespace Foxclaw.Config.EnvRefPaths

open Json List
open Json (Fields Step Same WF at? down shape shapeAt deepEqual)

variable (path : String)

/-- The path of a child. -/
def childPath : Step → String
  | .key key => keyPathOf path key
  | .index index => indexPathOf path index

mutual
/-- `collectEnvRefPaths`: the entries that are set in `output`. -/
def collectEnvRefPaths : Json → String → List (String × String)
  | .str value, path => if containsEnvVarReference value then [(path, value)] else []
  | .arr items, path => collectItemPaths items path 0
  | .obj fields, path => collectFieldPaths fields path
  | _, _ => []
/-- The entries for the items of an array from this index on. -/
def collectItemPaths : List Json → String → ℕ → List (String × String)
  | [], _, _ => []
  | item :: rest, path, index =>
      collectEnvRefPaths item (childPath path (.index index)) ++ collectItemPaths rest path (index + 1)
/-- The entries for the properties of an object. -/
def collectFieldPaths : Fields → String → List (String × String)
  | [], _ => []
  | (key, child) :: rest, path =>
      collectEnvRefPaths child (childPath path (.key key)) ++ collectFieldPaths rest path
end

mutual
/-- `collectChangedPaths`: the paths that are added to `output`. -/
def collectChangedPaths : Json → Json → String → List String
  | .arr base, .arr target, path => changedItems base target path 0
  | .obj base, .obj target, path =>
      changedFields base target path ++
        (target.filter fun p => (base.lookup p.1).isNone).map fun p => childPath path (.key p.1)
  | base, target, path => if deepEqual base target then [] else [path]
/-- The paths for two arrays from this index on. -/
def changedItems : List Json → List Json → String → ℕ → List String
  | [], target, path, index =>
      (List.range target.length).map fun i => childPath path (.index (index + i))
  | _ :: base, [], path, index =>
      childPath path (.index index) :: changedItems base [] path (index + 1)
  | b :: base, t :: target, path, index =>
      collectChangedPaths b t (childPath path (.index index)) ++ changedItems base target path (index + 1)
/-- The paths for the keys of `base`. -/
def changedFields : Fields → Fields → String → List String
  | [], _, _ => []
  | (key, baseValue) :: rest, target, path =>
      (match target.lookup key with
        | none => [childPath path (.key key)]
        | some targetValue => collectChangedPaths baseValue targetValue (childPath path (.key key))) ++
      changedFields rest target path
end

/-- The text before the last occurrence of a character, if there is one. -/
def beforeLast? (c : Char) : List Char → Option (List Char)
  | [] => none
  | d :: cs => match beforeLast? c cs with
    | some before => some (d :: before)
    | none => if d = c then some [] else none

def parentPath (value : String) : String :=
  if value.toList.getLast? = some ']' then
    -- an index of zero, too, gives the empty path
    String.ofList ((beforeLast? '[' value.toList).getD [])
  else String.ofList ((beforeLast? '.' value.toList).getD [])

/-- The values of `current`: so many parents are enough. -/
def ancestorsFrom : ℕ → String → List String
  | 0, _ => []
  | n + 1, current => if current = "" then [] else current :: ancestorsFrom n (parentPath current)

/-- The values of `current` in `isPathChanged`; a parent is shorter than the path. -/
def ancestors : List String := ancestorsFrom path.length (parentPath path)

def isPathChanged (changedPaths : List String) : Bool :=
  path ∈ changedPaths || (ancestors path).any (· ∈ changedPaths) || "" ∈ changedPaths

variable (envRefMap : List (String × String))

/-- `envRefMap.get(path)`: a later entry replaces an earlier one. -/
def getRef (path : String) : Option String :=
  envRefMap.reverse.lookup path

/-- What a string is replaced by. -/
def restoredString (changedPaths : List String) (path value : String) : String :=
  if isPathChanged path changedPaths then value else (getRef envRefMap path).getD value

mutual
def restoreEnvRefsFromMap (envRefMap : List (String × String)) (changedPaths : List String) :
    Json → String → Json
  | .str value, path => .str (restoredString envRefMap changedPaths path value)
  | .arr items, path => .arr (restoreItemRefs envRefMap changedPaths items path 0)
  | .obj fields, path => .obj (restoreFieldRefs envRefMap changedPaths fields path)
  | value, _ => value
/-- The items of an array from this index on. -/
def restoreItemRefs (envRefMap : List (String × String)) (changedPaths : List String) :
    List Json → String → ℕ → List Json
  | [], _, _ => []
  | item :: rest, path, index =>
      restoreEnvRefsFromMap envRefMap changedPaths item (childPath path (.index index)) ::
        restoreItemRefs envRefMap changedPaths rest path (index + 1)
/-- The properties of an object. -/
def restoreFieldRefs (envRefMap : List (String × String)) (changedPaths : List String) :
    Fields → String → Fields
  | [], _ => []
  | (key, child) :: rest, path =>
      (key, restoreEnvRefsFromMap envRefMap changedPaths child (childPath path (.key key))) ::
        restoreFieldRefs envRefMap changedPaths rest path
end

/-- What is written for `target`, when the file has `parsed` and `config` was read from it. -/
def restoreEnvRefs (parsed config target : Json) : Json :=
  restoreEnvRefsFromMap (collectEnvRefPaths parsed "") (collectChangedPaths config target "") target ""

/-! ### Places and their paths -/

/-- The path of a place below one with this path. -/
def pathFrom (place : List Step) : String := place.foldl childPath path

/-- The path of a place. -/
def pathOf (place : List Step) : String := pathFrom "" place

@[simp] theorem pathFrom_nil : pathFrom path [] = path := rfl

@[simp] theorem pathFrom_cons (c : Step) (place : List Step) :
    pathFrom path (c :: place) = pathFrom (childPath path c) place := rfl

mutual
/-- The references in a value, with their places, in order. -/
def references : Json → List (List Step × String)
  | .str value => if containsEnvVarReference value then [([], value)] else []
  | .arr items => itemReferences items 0
  | .obj fields => fieldReferences fields
  | _ => []
/-- The references in the items from this index on. -/
def itemReferences : List Json → ℕ → List (List Step × String)
  | [], _ => []
  | item :: rest, index =>
      (references item).map (fun e => (.index index :: e.1, e.2)) ++ itemReferences rest (index + 1)
/-- The references in the properties. -/
def fieldReferences : Fields → List (List Step × String)
  | [] => []
  | (key, child) :: rest =>
      (references child).map (fun e => (.key key :: e.1, e.2)) ++ fieldReferences rest
end

/-- The references are collected under the paths of their places. -/
theorem collectEnvRefPaths_eq (v : Json) (path : String) : collectEnvRefPaths v path =
    (references v).map fun e => (pathFrom path e.1, e.2) := by
  induction v using rec_on generalizing path with
  | str value =>
    rw [collectEnvRefPaths, references]
    split <;> rfl
  | arr items ih =>
    have hitems : ∀ (items : List Json) (index : ℕ), (∀ v ∈ items, ∀ path, collectEnvRefPaths v path =
          (references v).map fun e => (pathFrom path e.1, e.2)) →
        collectItemPaths items path index =
          (itemReferences items index).map fun e => (pathFrom path e.1, e.2) := by
      intro items
      induction items with
      | nil => exact fun _ _ => by rw [collectItemPaths, itemReferences, map_nil]
      | cons item rest ihr =>
        intro index h
        rw [collectItemPaths, itemReferences, h item mem_cons_self,
          ihr (index + 1) fun v hv => h v (mem_cons_of_mem _ hv), map_append, List.map_map]
        rfl
    rw [collectEnvRefPaths, references, hitems items 0 ih]
  | obj fields ih =>
    have hfields : ∀ fields : Fields, (∀ p ∈ fields, ∀ path, collectEnvRefPaths p.2 path =
          (references p.2).map fun e => (pathFrom path e.1, e.2)) →
        collectFieldPaths fields path =
          (fieldReferences fields).map fun e => (pathFrom path e.1, e.2) := by
      intro fields
      induction fields with
      | nil => exact fun _ => by rw [collectFieldPaths, fieldReferences, map_nil]
      | cons p rest ihr =>
        obtain ⟨key, child⟩ := p
        intro h
        rw [collectFieldPaths, fieldReferences, h _ mem_cons_self,
          ihr fun p hp => h p (mem_cons_of_mem _ hp), map_append, List.map_map]
        rfl
    rw [collectEnvRefPaths, references, hfields fields ih]
  | _ => rw [collectEnvRefPaths, references, map_nil] <;> simp

/-- A string that refers to a variable is among the references. -/
theorem mem_references {v : Json} {place : List Step} {t : String} (h : at? (some v) place = some (.str t))
    (ht : containsEnvVarReference t = true) : (place, t) ∈ references v := by
  induction place generalizing v with
  | nil =>
    obtain rfl := Option.some.inj h
    rw [references, if_pos ht]
    exact mem_singleton_self _
  | cons c place ih =>
    rw [at?_cons] at h
    cases hc : down (some v) c with
    | none =>
      rw [hc, at?_none] at h
      cases h
    | some w =>
      rw [hc] at h
      have hw := ih h
      cases v with
      | arr items =>
        cases c with
        | key k => cases hc
        | index i =>
          have hitems : ∀ (items : List Json) (i index : ℕ), items[i]? = some w →
              (Step.index (index + i) :: place, t) ∈ itemReferences items index := by
            intro items
            induction items with
            | nil => exact fun i index hi => by simp at hi
            | cons item rest ihr =>
              intro i index hi
              rw [itemReferences, mem_append]
              cases i with
              | zero =>
                obtain rfl := Option.some.inj hi
                exact .inl (List.mem_map.mpr ⟨_, hw, rfl⟩)
              | succ i =>
                have := ihr i (index + 1) hi
                rw [Nat.add_right_comm] at this
                exact .inr this
          rw [references]
          simpa using hitems items i 0 hc
      | obj fields =>
        cases c with
        | index i => cases hc
        | key k =>
          have hfields : ∀ fields : Fields, (k, w) ∈ fields →
              (Step.key k :: place, t) ∈ fieldReferences fields := by
            intro fields
            induction fields with
            | nil => exact fun h => absurd h not_mem_nil
            | cons p rest ihr =>
              obtain ⟨key, child⟩ := p
              intro hm
              rw [fieldReferences, mem_append]
              rcases mem_cons.mp hm with he | hm
              · obtain ⟨rfl, rfl⟩ := Prod.mk.inj he
                exact .inl (List.mem_map.mpr ⟨_, hw, rfl⟩)
              · exact .inr (ihr hm)
          rw [references]
          exact hfields fields (Fields.mem_of_lookup hc)
      | _ => cases c <;> cases hc

/-! ### What is written, place by place -/

section

variable (envRefMap : List (String × String)) (changedPaths : List String)

theorem down_restoreEnvRefsFromMap (v : Json) (path : String) (c : Step) :
    down (some (restoreEnvRefsFromMap envRefMap changedPaths v path)) c =
      (down (some v) c).map fun w =>
        restoreEnvRefsFromMap envRefMap changedPaths w (childPath path c) := by
  cases v with
  | arr items =>
    rw [restoreEnvRefsFromMap]
    cases c with
    | key k => rfl
    | index i =>
      have hitems : ∀ (items : List Json) (i index : ℕ),
          (restoreItemRefs envRefMap changedPaths items path index)[i]? = items[i]?.map fun w =>
            restoreEnvRefsFromMap envRefMap changedPaths w (childPath path (.index (index + i))) := by
        intro items
        induction items with
        | nil => simp [restoreItemRefs]
        | cons item rest ih =>
          intro i index
          rw [restoreItemRefs]
          cases i with
          | zero => rfl
          | succ i =>
            have := ih i (index + 1)
            rw [Nat.add_right_comm, Nat.add_assoc] at this
            simpa using this
      simpa using hitems items i 0
  | obj fields =>
    rw [restoreEnvRefsFromMap]
    cases c with
    | index i => rfl
    | key k =>
      simp only [down_obj_key]
      induction fields with
      | nil => simp [restoreFieldRefs]
      | cons p rest ih =>
        obtain ⟨key, child⟩ := p
        rw [restoreFieldRefs, Fields.lookup_cons, Fields.lookup_cons]
        by_cases hk : k = key
        · rw [if_pos hk, if_pos hk, hk]
          rfl
        · rw [if_neg hk, if_neg hk, ih]
  | _ => cases c <;> simp [restoreEnvRefsFromMap, down, Json.child]

/-- What is written at a place is what is written for the value there. -/
theorem at?_restoreEnvRefsFromMap (v : Json) (path : String) (place : List Step) :
    at? (some (restoreEnvRefsFromMap envRefMap changedPaths v path)) place =
      (at? (some v) place).map fun w =>
        restoreEnvRefsFromMap envRefMap changedPaths w (pathFrom path place) := by
  induction place generalizing v path with
  | nil => rfl
  | cons c place ih =>
    rw [at?_cons, at?_cons, down_restoreEnvRefsFromMap, pathFrom_cons]
    cases down (some v) c with
    | none => simp
    | some w => exact ih w (childPath path c)

end

/-! ### The changes -/

/-- Both are arrays, or both are objects. -/
def Containers (v w : Option Json) : Prop :=
  v.map shape = w.map shape ∧ (v.map shape = some .arr ∨ v.map shape = some .obj)

/-- The two differ at the place, and above it both have arrays, or both objects. -/
def ChangedAt (v w : Option Json) : List Step → Prop
  | [] => ¬ Containers v w ∧ ¬ Same v w
  | c :: place => Containers v w ∧ ChangedAt (down v c) (down w c) place

theorem changedAt_of_not_containers {v w : Option Json} (h : ¬ Containers v w) (place : List Step) :
    ChangedAt v w place ↔ place = [] ∧ ¬ Same v w := by
  cases place with
  | nil => simp [ChangedAt, h]
  | cons c place => simp [ChangedAt, h]

theorem changedAt_of_containers {v w : Option Json} (h : Containers v w) (place : List Step) :
    ChangedAt v w place ↔ ∃ c rest, place = c :: rest ∧ ChangedAt (down v c) (down w c) rest := by
  cases place with
  | nil => simp [ChangedAt, h]
  | cons c place => simp [ChangedAt, h]

theorem not_containers_none_left (w : Option Json) : ¬ Containers none w := by
  rintro ⟨-, h | h⟩ <;> cases h

theorem not_containers_none_right (v : Option Json) : ¬ Containers v none := by
  rintro ⟨h, h' | h'⟩ <;> rw [h] at h' <;> cases h'

/-- What is on one side only. -/
theorem changedAt_none_left (w : Option Json) (place : List Step) :
    ChangedAt none w place ↔ place = [] ∧ w.isSome = true := by
  rw [changedAt_of_not_containers (not_containers_none_left w)]
  refine and_congr_right fun _ => ?_
  cases w with
  | none => simp [Same.refl]
  | some w => exact iff_of_true (fun h => by simpa using h.shape) rfl

theorem changedAt_none_right (v : Option Json) (place : List Step) :
    ChangedAt v none place ↔ place = [] ∧ v.isSome = true := by
  rw [changedAt_of_not_containers (not_containers_none_right v)]
  refine and_congr_right fun _ => ?_
  cases v with
  | none => simp [Same.refl]
  | some v => exact iff_of_true (fun h => by simpa using h.shape) rfl

/-- Where there are not arrays, or objects, on both sides. -/
theorem mem_changed_leaf {base target : Json} (hb : WF base) (ht : WF target)
    (h : ¬ Containers (some base) (some target)) (path f : String) :
    (f ∈ if deepEqual base target then [] else [path]) ↔
      ∃ place, ChangedAt (some base) (some target) place ∧ pathFrom path place = f := by
  simp only [changedAt_of_not_containers h, ← deepEqual_iff hb ht]
  by_cases hd : deepEqual base target = true
  · simp [hd]
  · simp [hd, eq_comm]

theorem mem_changedItems {base target : List Json} {path f : String} (index : ℕ)
    (h : ∀ b ∈ base, ∀ t ∈ target, ∀ path, f ∈ collectChangedPaths b t path ↔
      ∃ place, ChangedAt (some b) (some t) place ∧ pathFrom path place = f) :
    f ∈ changedItems base target path index ↔ ∃ (i : ℕ) (place : List Step),
      ChangedAt base[i]? target[i]? place ∧
      pathFrom (childPath path (.index (index + i))) place = f := by
  induction base generalizing target index with
  | nil =>
    have hsome : ∀ i : ℕ, target[i]?.isSome = true ↔ i < target.length := by simp
    rw [changedItems, List.mem_map]
    simp only [mem_range, getElem?_nil, changedAt_none_left, hsome]
    constructor
    · rintro ⟨i, hi, hf⟩
      exact ⟨i, [], ⟨rfl, hi⟩, hf⟩
    · rintro ⟨i, _, ⟨rfl, hi⟩, hf⟩
      exact ⟨i, hi, hf⟩
  | cons b base ih =>
    -- the first item, and those after it
    have hsplit : ∀ target : List Json, (∃ (i : ℕ) (place : List Step),
          ChangedAt (b :: base)[i]? target[i]? place ∧
          pathFrom (childPath path (.index (index + i))) place = f) ↔
        (∃ place, ChangedAt (some b) target[0]? place ∧
          pathFrom (childPath path (.index index)) place = f) ∨
        ∃ (i : ℕ) (place : List Step), ChangedAt base[i]? target.tail[i]? place ∧
          pathFrom (childPath path (.index (index + 1 + i))) place = f := by
      intro target
      constructor
      · rintro ⟨i, place, hc, hf⟩
        cases i with
        | zero => exact .inl ⟨place, hc, hf⟩
        | succ i =>
          refine .inr ⟨i, place, ?_, ?_⟩
          · rw [getElem?_tail]
            exact hc
          · rw [Nat.add_right_comm]
            exact hf
      · rintro (⟨place, hc, hf⟩ | ⟨i, place, hc, hf⟩)
        · exact ⟨0, place, hc, hf⟩
        · refine ⟨i + 1, place, ?_, ?_⟩
          · rw [getElem?_tail] at hc
            exact hc
          · rw [Nat.add_right_comm] at hf
            exact hf
    rw [hsplit]
    cases target with
    | nil =>
      rw [changedItems, mem_cons, ih (index + 1) (by simp)]
      refine or_congr ?_ Iff.rfl
      simp [changedAt_none_right, eq_comm]
    | cons t target =>
      rw [changedItems, mem_append, h b mem_cons_self t mem_cons_self,
        ih (index + 1) fun b hb t ht => h b (mem_cons_of_mem _ hb) t (mem_cons_of_mem _ ht)]
      rfl

theorem mem_changedFields {base target : Fields} {path f : String}
    (h : ∀ p ∈ base, ∀ t, target.lookup p.1 = some t → ∀ path, f ∈ collectChangedPaths p.2 t path ↔
      ∃ place, ChangedAt (some p.2) (some t) place ∧ pathFrom path place = f) :
    f ∈ changedFields base target path ↔ ∃ p ∈ base, ∃ place,
      ChangedAt (some p.2) (target.lookup p.1) place ∧
      pathFrom (childPath path (.key p.1)) place = f := by
  induction base with
  | nil => simp [changedFields]
  | cons p base ih =>
    obtain ⟨key, value⟩ := p
    rw [changedFields, mem_append, ih fun p hp => h p (mem_cons_of_mem _ hp), exists_mem_cons_iff]
    refine or_congr ?_ Iff.rfl
    cases ht : target.lookup key with
    | none => simp [changedAt_none_right, eq_comm]
    | some t => exact h _ mem_cons_self t ht _

/-- The changes that are collected. -/
theorem mem_collectChangedPaths {base target : Json} (hb : WF base) (ht : WF target)
    (path f : String) : f ∈ collectChangedPaths base target path ↔
      ∃ place, ChangedAt (some base) (some target) place ∧ pathFrom path place = f := by
  induction base using rec_on generalizing target path with
  | arr items ih =>
    cases target with
    | arr items' =>
      have hc : Containers (some (.arr items)) (some (.arr items')) := ⟨rfl, .inl rfl⟩
      rw [collectChangedPaths, mem_changedItems 0 fun b hb' t ht' path =>
        ih b hb' (wfItems_iff.mp (by simpa only [WF] using hb) b hb')
          (wfItems_iff.mp (by simpa only [WF] using ht) t ht') path]
      simp only [changedAt_of_containers hc, Nat.zero_add]
      constructor
      · rintro ⟨i, place, hp, hf⟩
        exact ⟨.index i :: place, ⟨_, _, rfl, hp⟩, hf⟩
      · rintro ⟨_, ⟨c, place, rfl, hp⟩, hf⟩
        cases c with
        | index i => exact ⟨i, place, hp, hf⟩
        | key k => simp [changedAt_none_left] at hp
    | _ =>
      rw [collectChangedPaths, mem_changed_leaf hb ht] <;> simp [Containers, shape]
  | obj fields ih =>
    cases target with
    | obj fields' =>
      have hc : Containers (some (.obj fields)) (some (.obj fields')) := ⟨rfl, .inr rfl⟩
      rw [collectChangedPaths, mem_append, mem_changedFields fun p hp t ht' path =>
        ih p hp (hb.lookup (Fields.lookup_of_mem hb.nodup hp)) (ht.lookup ht') path]
      simp only [changedAt_of_containers hc]
      constructor
      · rintro (⟨p, hp, place, hp', hf⟩ | hf)
        · refine ⟨.key p.1 :: place, ⟨_, _, rfl, ?_⟩, hf⟩
          rw [down_obj_key, Fields.lookup_of_mem hb.nodup hp]
          exact hp'
        · -- a key of the target only
          obtain ⟨p, hp, hf⟩ := List.mem_map.mp hf
          obtain ⟨hp, hnone⟩ := mem_filter.mp hp
          refine ⟨[.key p.1], ⟨_, _, rfl, ?_⟩, hf⟩
          rw [down_obj_key, Option.isNone_iff_eq_none.mp hnone, changedAt_none_left,
            down_obj_key, Fields.lookup_of_mem ht.nodup hp]
          exact ⟨rfl, rfl⟩
      · rintro ⟨_, ⟨c, place, rfl, hp⟩, hf⟩
        cases c with
        | index i => simp [changedAt_none_left] at hp
        | key k =>
          rw [down_obj_key, down_obj_key] at hp
          cases hk : fields.lookup k with
          | some v =>
            rw [hk] at hp
            exact .inl ⟨_, Fields.mem_of_lookup hk, place, hp, hf⟩
          | none =>
            rw [hk, changedAt_none_left] at hp
            obtain ⟨rfl, hs⟩ := hp
            obtain ⟨w, hw⟩ := Option.isSome_iff_exists.mp hs
            refine .inr (List.mem_map.mpr ⟨(k, w), mem_filter.mpr ⟨Fields.mem_of_lookup hw, ?_⟩, hf⟩)
            rw [hk]
            rfl
    | _ =>
      rw [collectChangedPaths, mem_changed_leaf hb ht] <;> simp [Containers, shape]
  | _ => rw [collectChangedPaths, mem_changed_leaf hb ht] <;> simp [Containers, shape]

end Foxclaw.Config.EnvRefPaths
