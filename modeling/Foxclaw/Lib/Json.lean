import Mathlib.Data.List.Nodup
import Mathlib.Data.List.Perm.Subperm
import Mathlib.Data.Rat.Defs

/-!
# JSON values

Plain data as `JSON.parse` makes it: an object is the list of its own properties, in order.

## What is proved

* `Json.rec_on` — induction over values.
* `Json.Same` — two values are the same up to the order of properties; it is said by what is
  found at each path (`shapeAt`), so it is an equivalence and goes down to children by
  construction. `deepEqual_iff` — `deepEqual` decides it.
* `lookup_set`, `lookup_erase` — what assignment and `delete` do to the properties.
* `everywhere_obj`, `everywhere_arr` — what holds of every part, one level at a time.
-/

namespace Foxclaw

open List

/-- A JSON value. -/
inductive Json where
  | null
  | bool (b : Bool)
  | num (n : ℚ)
  | str (s : String)
  | arr (items : List Json)
  /-- An object, with its own properties in order. -/
  | obj (fields : List (String × Json))

namespace Json

/-- The properties of an object. -/
abbrev Fields := List (String × Json)

/-- Induction over values, with the hypothesis for each item and each property. -/
@[elab_as_elim]
theorem rec_on {motive : Json → Prop} (v : Json) (null : motive .null) (bool : ∀ b, motive (.bool b))
    (num : ∀ n, motive (.num n)) (str : ∀ s, motive (.str s))
    (arr : ∀ items, (∀ v ∈ items, motive v) → motive (.arr items))
    (obj : ∀ fields : Fields, (∀ p ∈ fields, motive p.2) → motive (.obj fields)) : motive v :=
  Json.rec (motive_1 := motive) (motive_2 := fun items => ∀ v ∈ items, motive v)
    (motive_3 := fun fields => ∀ p ∈ fields, motive p.2) (motive_4 := fun p => motive p.2)
    null bool num str arr obj (fun _ h => absurd h not_mem_nil)
    (fun _ _ hv hvs _ h => (mem_cons.mp h).elim (fun e => e ▸ hv) (hvs _))
    (fun _ h => absurd h not_mem_nil)
    (fun _ _ hp hps _ h => (mem_cons.mp h).elim (fun e => e ▸ hp) (hps _))
    (fun _ _ h => h) v

/-! ### Properties -/

namespace Fields

/-- `object[key] = value`: a property that is there keeps its place. -/
def set : Fields → String → Json → Fields
  | [], key, value => [(key, value)]
  | (k, v) :: rest, key, value =>
      if k = key then (key, value) :: rest else (k, v) :: set rest key value

/-- `delete object[key]`. -/
def erase (fields : Fields) (key : String) : Fields := fields.filter fun p => p.1 ≠ key

theorem lookup_cons (k key : String) (value : Json) (rest : Fields) :
    List.lookup k ((key, value) :: rest) = if k = key then some value else rest.lookup k := by
  rw [List.lookup_cons]
  by_cases h : k = key
  · rw [if_pos h, beq_iff_eq.mpr h]
  · rw [if_neg h, beq_eq_false_iff_ne.mpr h]

theorem lookup_set (fields : Fields) (key : String) (value : Json) (k : String) :
    (fields.set key value).lookup k = if k = key then some value else fields.lookup k := by
  induction fields with
  | nil => rw [set, lookup_cons]
  | cons p rest ih =>
    obtain ⟨k', v⟩ := p
    rw [set]
    split
    · rename_i hk
      rw [lookup_cons, lookup_cons, hk]
      split <;> rfl
    · rename_i hk
      rw [lookup_cons, lookup_cons, ih]
      by_cases h : k = key
      · rw [if_pos h, if_pos h, if_neg (h ▸ Ne.symm hk)]
      · rw [if_neg h, if_neg h]

theorem lookup_filter (fields : Fields) (keep : String → Bool) (k : String) :
    List.lookup k (fields.filter fun p => keep p.1) =
      if keep k = true then fields.lookup k else none := by
  induction fields with
  | nil => simp
  | cons p rest ih =>
    obtain ⟨k', v⟩ := p
    rw [filter_cons, lookup_cons]
    by_cases h : k = k'
    · subst h
      cases hk : keep k <;> simp [hk, ih]
    · cases hk : keep k' <;> simp [lookup_cons, ih, h]

theorem lookup_erase (fields : Fields) (key k : String) :
    (fields.erase key).lookup k = if k = key then none else fields.lookup k := by
  have := lookup_filter fields (fun k => k ≠ key) k
  rw [erase, this]
  by_cases h : k = key <;> simp [h]

theorem lookup_append (fields fields' : Fields) (k : String) :
    (fields ++ fields').lookup k = (fields.lookup k).or (fields'.lookup k) := by
  rw [List.lookup_append]

variable {fields : Fields} {k : String}

theorem lookup_isSome : (fields.lookup k).isSome = true ↔ k ∈ fields.map (·.1) := by
  rw [lookup_isSome_iff, List.mem_map]
  exact exists_congr fun p => and_congr_right fun _ => by rw [beq_iff_eq, eq_comm]

theorem lookup_eq_none : fields.lookup k = none ↔ k ∉ fields.map (·.1) := by
  rw [← lookup_isSome, Bool.not_eq_true, Option.isSome_eq_false_iff, Option.isNone_iff_eq_none]

theorem mem_of_lookup {v : Json} (h : fields.lookup k = some v) : (k, v) ∈ fields := by
  induction fields with
  | nil => simp at h
  | cons p rest ih =>
    obtain ⟨k', v'⟩ := p
    rw [List.lookup_cons] at h
    split at h
    · rename_i hk
      obtain rfl := eq_of_beq hk
      cases h
      exact mem_cons_self
    · exact mem_cons_of_mem _ (ih h)

theorem lookup_of_mem (hnd : (fields.map (·.1)).Nodup) {v : Json}
    (h : (k, v) ∈ fields) : fields.lookup k = some v := by
  obtain ⟨w, hw⟩ := Option.isSome_iff_exists.mp (lookup_isSome.mpr (List.mem_map.mpr ⟨_, h, rfl⟩))
  have : (k, w) = (k, v) := inj_on_of_nodup_map hnd (mem_of_lookup hw) h rfl
  rw [hw, (Prod.mk.inj this).2]

end Fields

/-! ### Well-formed values -/

mutual
/-- The objects of a value have no two properties of one name, and none named `__proto__`:
assigning to that name sets the prototype and makes no property. -/
def WF : Json → Prop
  | .arr items => WFItems items
  | .obj fields => (fields.map (·.1)).Nodup ∧ "__proto__" ∉ fields.map (·.1) ∧ WFFields fields
  | _ => True
def WFItems : List Json → Prop
  | [] => True
  | v :: rest => WF v ∧ WFItems rest
def WFFields : Fields → Prop
  | [] => True
  | p :: rest => WF p.2 ∧ WFFields rest
end

theorem wfItems_iff {items : List Json} : WFItems items ↔ ∀ v ∈ items, WF v := by
  induction items with
  | nil => simp [WFItems]
  | cons v rest ih => simp [WFItems, ih]

variable {fields : Fields}

theorem wfFields_iff : WFFields fields ↔ ∀ p ∈ fields, WF p.2 := by
  induction fields with
  | nil => simp [WFFields]
  | cons p rest ih => simp only [WFFields, ih, forall_mem_cons]

theorem WF.nodup (h : WF (.obj fields)) : (fields.map (·.1)).Nodup := by
  rw [WF] at h
  exact h.1

theorem WF.lookup (h : WF (.obj fields)) {k : String} {v : Json} (hv : fields.lookup k = some v) : WF v := by
  rw [WF, wfFields_iff] at h
  exact h.2.2 _ (Fields.mem_of_lookup hv)

/-! ### Paths -/

/-- A value without its children. -/
inductive Shape where
  | null
  | bool (b : Bool)
  | num (n : ℚ)
  | str (s : String)
  | arr
  | obj
  deriving DecidableEq

def shape : Json → Shape
  | .null => .null
  | .bool b => .bool b
  | .num n => .num n
  | .str s => .str s
  | .arr _ => .arr
  | .obj _ => .obj

/-- A step of a path. -/
inductive Step where
  /-- To a property. -/
  | key (k : String)
  /-- To an item. -/
  | index (i : ℕ)
  deriving DecidableEq

/-- One step down. -/
def child : Json → Step → Option Json
  | .obj fields, .key k => fields.lookup k
  | .arr items, .index i => items[i]?
  | _, _ => none

variable (v : Option Json)

/-- One step down, from what may not be there. -/
def down (c : Step) : Option Json := v.bind (·.child c)

/-- What is found at a path. -/
def at? (v : Option Json) : List Step → Option Json
  | [] => v
  | c :: p => at? (down v c) p

/-- The shape of what is found at a path. -/
def shapeAt (p : List Step) : Option Shape := (at? v p).map shape

@[simp] theorem at?_nil : at? v [] = v := rfl

@[simp] theorem at?_cons (c : Step) (p : List Step) :
    at? v (c :: p) = at? (down v c) p := rfl

theorem at?_append (p q : List Step) : at? v (p ++ q) = at? (at? v p) q := by
  induction p generalizing v with
  | nil => rfl
  | cons c p ih => exact ih (down v c)

@[simp] theorem down_none (c : Step) : down none c = none := rfl

@[simp] theorem at?_none (p : List Step) : at? none p = none := by
  induction p with
  | nil => rfl
  | cons c p ih => exact ih

@[simp] theorem down_obj_key (fields : Fields) (k : String) :
    down (some (.obj fields)) (.key k) = fields.lookup k := rfl

@[simp] theorem down_obj_index (fields : Fields) (i : ℕ) :
    down (some (.obj fields)) (.index i) = none := rfl

@[simp] theorem down_arr_index (items : List Json) (i : ℕ) :
    down (some (.arr items)) (.index i) = items[i]? := rfl

@[simp] theorem down_arr_key (items : List Json) (k : String) :
    down (some (.arr items)) (.key k) = none := rfl

/-- Two values, if there, are the same up to the order of properties. -/
def Same (v w : Option Json) : Prop := ∀ p, shapeAt v p = shapeAt w p

theorem Same.refl : Same v v := fun _ => rfl

variable {v w : Option Json}

theorem Same.symm (h : Same v w) : Same w v := fun p => (h p).symm

theorem Same.shape (h : Same v w) : v.map shape = w.map shape := h []

theorem Same.down (h : Same v w) (c : Step) : Same (down v c) (down w c) :=
  fun p => h (c :: p)

theorem Same.at? (h : Same v w) (p : List Step) : Same (at? v p) (at? w p) :=
  fun q => by simpa only [shapeAt, at?_append] using h (p ++ q)

/-- Sameness, one level at a time. -/
theorem same_iff : Same v w ↔ v.map Json.shape = w.map Json.shape ∧ ∀ c, Same (down v c) (down w c) :=
  ⟨fun h => ⟨h.shape, h.down⟩, fun h p => match p with
    | [] => h.1
    | c :: p => h.2 c p⟩

/-- A value that is not there is like no value that is. -/
theorem same_none {v : Option Json} : Same v none ↔ v = none := by
  constructor
  · intro h
    simpa using h.shape
  · rintro rfl
    exact .refl _

theorem same_obj {fields fields' : Fields} : Same (some (.obj fields)) (some (.obj fields')) ↔
    ∀ k, Same (fields.lookup k) (fields'.lookup k) := by
  rw [same_iff]
  constructor
  · rintro ⟨-, h⟩ k
    exact h (.key k)
  · intro h
    refine ⟨rfl, fun c => ?_⟩
    cases c with
    | key k => exact h k
    | index i => exact .refl _

theorem same_arr {items items' : List Json} : Same (some (.arr items)) (some (.arr items')) ↔
    ∀ i : ℕ, Same items[i]? items'[i]? := by
  rw [same_iff]
  constructor
  · rintro ⟨-, h⟩ i
    exact h (.index i)
  · intro h
    refine ⟨rfl, fun c => ?_⟩
    cases c with
    | key k => exact .refl _
    | index i => exact h i

/-- A value without children is the same as any other of its shape. -/
theorem same_of_leaf {v w : Json} (h : v.shape = w.shape) (ho : v.shape ≠ .obj)
    (ha : v.shape ≠ .arr) : Same (some v) (some w) := by
  have hleaf : ∀ u : Json, u.shape ≠ .obj → u.shape ≠ .arr → ∀ c, Json.down (some u) c = none := by
    intro u ho ha c
    cases u <;> first | rfl | simp [Json.shape] at ho ha
  refine same_iff.mpr ⟨by simp [h], fun c => ?_⟩
  rw [hleaf v ho ha, hleaf w (h ▸ ho) (h ▸ ha)]
  exact .refl _

/-! ### Deep equality -/

mutual
/-- Deep equality: objects are equal if they have as many properties and each of one is deeply
equal to that of the same name of the other. -/
def deepEqual : Json → Json → Bool
  | .null, .null => true
  | .bool a, .bool b => a = b
  | .num a, .num b => a = b
  | .str a, .str b => a = b
  | .arr a, .arr b => deepEqualItems a b
  | .obj a, .obj b => a.length = b.length && deepEqualFields a b
  | _, _ => false
def deepEqualItems : List Json → List Json → Bool
  | [], [] => true
  | a :: as, b :: bs => deepEqual a b && deepEqualItems as bs
  | _, _ => false
/-- Each property of the first is deeply equal to that of the second. -/
def deepEqualFields : Fields → Fields → Bool
  | [], _ => true
  | (k, a) :: rest, b =>
      (match b.lookup k with
        | some v => deepEqual a v
        | none => false) && deepEqualFields rest b
end

theorem deepEqualItems_iff {as : List Json} : ∀ {bs : List Json},
    (∀ a ∈ as, ∀ b ∈ bs, deepEqual a b = true ↔ Same (some a) (some b)) →
    (deepEqualItems as bs = true ↔ ∀ i : ℕ, Same as[i]? bs[i]?) := by
  induction as with
  | nil =>
    intro bs _
    cases bs with
    | nil => simp [deepEqualItems, Same.refl]
    | cons b bs =>
      simp only [deepEqualItems, Bool.false_eq_true, false_iff]
      intro h
      have := (h 0).shape
      simp at this
  | cons a as ih =>
    intro bs h
    cases bs with
    | nil =>
      simp only [deepEqualItems, Bool.false_eq_true, false_iff]
      intro h
      have := (h 0).shape
      simp at this
    | cons b bs =>
      have hhead := h a mem_cons_self b mem_cons_self
      have htail := ih fun a' ha b' (hb : b' ∈ bs) =>
        h a' (mem_cons_of_mem _ ha) b' (mem_cons_of_mem _ hb)
      rw [deepEqualItems, Bool.and_eq_true, hhead, htail]
      constructor
      · rintro ⟨h0, h1⟩ i
        cases i with
        | zero => simpa using h0
        | succ i => simpa using h1 i
      · intro h
        exact ⟨by simpa using h 0, fun i => by simpa using h (i + 1)⟩

theorem deepEqualFields_iff {as bs : Fields} : deepEqualFields as bs = true ↔
    ∀ p ∈ as, ∃ v, bs.lookup p.1 = some v ∧ deepEqual p.2 v = true := by
  induction as with
  | nil => simp [deepEqualFields]
  | cons p rest ih =>
    obtain ⟨k, a⟩ := p
    rw [deepEqualFields, Bool.and_eq_true, ih, forall_mem_cons]
    refine and_congr_left fun _ => ?_
    cases bs.lookup k <;> simp

/-- Objects with as many properties, each of the first found in the second, have the same names. -/
theorem lookup_none_of_length {as bs : Fields} (ha : (as.map (·.1)).Nodup) (hl : as.length = bs.length)
    (hsub : ∀ p ∈ as, (bs.lookup p.1).isSome = true) {k : String} (hk : as.lookup k = none) :
    bs.lookup k = none := by
  have hsub' : as.map (·.1) ⊆ bs.map (·.1) := by
    intro k hk
    obtain ⟨p, hp, rfl⟩ := List.mem_map.mp hk
    exact Fields.lookup_isSome.mp (hsub p hp)
  have hperm : (as.map (·.1)).Perm (bs.map (·.1)) :=
    (subperm_of_subset ha hsub').perm_of_length_le (by simp [hl])
  rw [Fields.lookup_eq_none] at hk ⊢
  exact fun h => hk (hperm.mem_iff.mpr h)

theorem deepEqual_leaf {v w : Json} (ho : v.shape ≠ .obj) (ha : v.shape ≠ .arr) :
    deepEqual v w = true ↔ v.shape = w.shape := by
  cases v <;> cases w <;> simp_all [deepEqual, shape]

theorem deepEqual_leaf_iff {v w : Json} (ho : v.shape ≠ .obj) (ha : v.shape ≠ .arr) :
    deepEqual v w = true ↔ Same (some v) (some w) := by
  rw [deepEqual_leaf ho ha]
  exact ⟨fun h => same_of_leaf h ho ha, fun h => by simpa using h.shape⟩

/-- Values of different shapes are neither equal nor the same. -/
theorem deepEqual_of_shape_ne {v w : Json} (h : v.shape ≠ w.shape) :
    deepEqual v w = true ↔ Same (some v) (some w) := by
  refine iff_of_false ?_ fun hs => h (by simpa using hs.shape)
  cases v <;> cases w <;> simp_all [deepEqual, shape]

/-- `deepEqual` decides sameness. -/
theorem deepEqual_iff {v w : Json} (hv : WF v) (hw : WF w) :
    deepEqual v w = true ↔ Same (some v) (some w) := by
  induction v using rec_on generalizing w with
  | null => exact deepEqual_leaf_iff (by simp [shape]) (by simp [shape])
  | bool b => exact deepEqual_leaf_iff (by simp [shape]) (by simp [shape])
  | num n => exact deepEqual_leaf_iff (by simp [shape]) (by simp [shape])
  | str s => exact deepEqual_leaf_iff (by simp [shape]) (by simp [shape])
  | arr items ih =>
    cases w with
    | arr items' =>
      rw [WF, wfItems_iff] at hv hw
      rw [deepEqual, same_arr]
      exact deepEqualItems_iff fun a ha b hb => ih a ha (hv a ha) (hw b hb)
    | _ => exact deepEqual_of_shape_ne (by simp [shape])
  | obj fields ih =>
    cases w with
    | obj fields' =>
      rw [deepEqual, Bool.and_eq_true, decide_eq_true_eq, deepEqualFields_iff, same_obj]
      constructor
      · rintro ⟨hl, h⟩ k
        cases hk : fields.lookup k with
        | none =>
          have := lookup_none_of_length hv.nodup hl (fun p hp => by
            obtain ⟨v, hv, -⟩ := h p hp
            rw [hv]
            rfl) hk
          rw [this]
          exact .refl _
        | some a =>
          obtain ⟨b, hb, hab⟩ := h _ (Fields.mem_of_lookup hk)
          simp only at hb
          rw [hb]
          exact (ih _ (Fields.mem_of_lookup hk) (hv.lookup hk) (hw.lookup hb)).mp hab
      · intro h
        have hkeys : ∀ k, k ∈ fields.map (·.1) ↔ k ∈ fields'.map (·.1) := fun k => by
          rw [← Fields.lookup_isSome, ← Fields.lookup_isSome]
          have := (h k).shape
          cases hk : fields.lookup k <;> cases hk' : fields'.lookup k <;> simp [hk, hk'] at this ⊢
        have hperm := (perm_ext_iff_of_nodup hv.nodup hw.nodup).mpr hkeys
        refine ⟨by simpa using hperm.length_eq, fun p hp => ?_⟩
        have ha := Fields.lookup_of_mem hv.nodup hp
        have hsame := h p.1
        rw [ha] at hsame
        cases hb : fields'.lookup p.1 with
        | none =>
          rw [hb, same_none] at hsame
          cases hsame
        | some b =>
          rw [hb] at hsame
          exact ⟨b, rfl, (ih p hp (hv.lookup ha) (hw.lookup hb)).mpr hsame⟩
    | _ => exact deepEqual_of_shape_ne (by simp [shape])

/-! ### What holds of every part -/

/-- The property holds of the value and of everything in it. -/
def Everywhere (P : Json → Prop) (v : Json) : Prop := ∀ p w, at? (some v) p = some w → P w

section

variable {P : Json → Prop}

theorem Everywhere.self {v : Json} (h : Everywhere P v) : P v := h [] v rfl

theorem everywhere_iff {v : Json} :
    Everywhere P v ↔ P v ∧ ∀ c w, down (some v) c = some w → Everywhere P w := by
  constructor
  · refine fun h => ⟨h.self, fun c w hw p u hu => h (c :: p) u ?_⟩
    rw [at?_cons, hw]
    exact hu
  · rintro ⟨hv, h⟩ p u hu
    cases p with
    | nil => exact Option.some.inj hu ▸ hv
    | cons c p =>
      rw [at?_cons] at hu
      cases hw : down (some v) c with
      | none =>
        rw [hw, at?_none] at hu
        cases hu
      | some w =>
        rw [hw] at hu
        exact h c w hw p u hu

theorem everywhere_leaf {v : Json} (ho : v.shape ≠ .obj) (ha : v.shape ≠ .arr) : Everywhere P v ↔ P v := by
  rw [everywhere_iff]
  refine and_iff_left fun c w hw => ?_
  cases v <;> first | cases hw | simp [shape] at ho ha

theorem everywhere_arr {items : List Json} :
    Everywhere P (.arr items) ↔ P (.arr items) ∧ ∀ v ∈ items, Everywhere P v := by
  rw [everywhere_iff]
  refine and_congr_right fun _ => ⟨fun h v hv => ?_, fun h c w hw => ?_⟩
  · obtain ⟨i, hi⟩ := mem_iff_getElem?.mp hv
    exact h (.index i) v hi
  · cases c with
    | key k => cases hw
    | index i => exact h w (mem_of_getElem? hw)

theorem everywhere_obj {fields : Fields} (hnd : (fields.map (·.1)).Nodup) :
    Everywhere P (.obj fields) ↔ P (.obj fields) ∧ ∀ p ∈ fields, Everywhere P p.2 := by
  rw [everywhere_iff]
  refine and_congr_right fun _ => ⟨fun h p hp => ?_, fun h c w hw => ?_⟩
  · exact h (.key p.1) p.2 (Fields.lookup_of_mem hnd hp)
  · cases c with
    | key k => exact h _ (Fields.mem_of_lookup hw)
    | index i => cases hw

end

/-- No object has two properties of one name. -/
def DistinctKeys (v : Json) : Prop :=
  Everywhere (fun w => ∀ fields, w = .obj fields → (fields.map (·.1)).Nodup) v

theorem DistinctKeys.nodup (h : DistinctKeys (.obj fields)) :
    (fields.map (·.1)).Nodup := h.self fields rfl

theorem distinctKeys_arr {items : List Json} : DistinctKeys (.arr items) ↔ ∀ v ∈ items, DistinctKeys v := by
  rw [DistinctKeys, everywhere_arr]
  exact and_iff_right (by simp)

theorem distinctKeys_obj : DistinctKeys (.obj fields) ↔
    (fields.map (·.1)).Nodup ∧ ∀ p ∈ fields, DistinctKeys p.2 := by
  constructor
  · exact fun h => ⟨h.nodup, ((everywhere_obj h.nodup).mp h).2⟩
  · rintro ⟨hnd, h⟩
    refine (everywhere_obj hnd).mpr ⟨fun fields' he => ?_, h⟩
    obtain rfl := Json.obj.inj he
    exact hnd

theorem distinctKeys_leaf {v : Json} (ho : v.shape ≠ .obj) (ha : v.shape ≠ .arr) : DistinctKeys v := by
  refine (everywhere_leaf ho ha).mpr fun fields he => ?_
  subst he
  exact absurd rfl ho

end Json

end Foxclaw
