import Foxclaw.Config.EnvPreserve
import Foxclaw.Config.EnvRefPaths

/-!
# When references are put back exactly

What is written is to be the edited config with each string that was not edited replaced by the
reference that the file has at its place, and nothing else replaced (`ExactlyRestored`). Since
the references and the changes are found by their paths, this is so when the paths tell the
places apart (`PathsApart`). They do if no key is empty or has a dot or a bracket in it; the keys
of a config, names of models among them, need not be like that.

## What is proved

* `restoreEnvRefs_iff` — what is written is exact just when `PathsApart`.
* `pathOf_inj`, `covers_iff` — the paths of places without such keys.
* `pathsApart_of_plain` — a config without such keys.
-/

namespace Foxclaw.Config.EnvRefPaths

open List Option
open Json (Fields Step Same WF Everywhere DistinctKeys at? down shape shapeAt)

/-! ### Exactness -/

/-- What a string at the place is to be replaced by: the reference that the file has there, if
the string was not edited. -/
def exactString (parsed config : Json) (place : List Step) (value : String) : String :=
  match at? (some parsed) place, at? (some config) place with
  | some (.str t), some (.str s) => if containsEnvVarReference t = true ∧ s = value then t else value
  | _, _ => value

/-- The shape to be found at the place. -/
def exactShape (parsed config : Json) (place : List Step) : Json.Shape → Json.Shape
  | .str value => .str (exactString parsed config place value)
  | s => s

/-- What is written is the edited config with just the references that were not edited put back. -/
def ExactlyRestored (parsed config target written : Json) : Prop :=
  ∀ place, shapeAt (some written) place =
    (shapeAt (some target) place).map (exactShape parsed config place)

/-- A change under the path `f` counts for `path`. -/
def Covers (f path : String) : Prop := f = path ∨ f ∈ ancestors path ∨ f = ""

variable {path : String}

theorem isPathChanged_iff {changedPaths : List String} :
    isPathChanged path changedPaths = true ↔ ∃ f ∈ changedPaths, Covers f path := by
  rw [isPathChanged, Bool.or_eq_true, Bool.or_eq_true, decide_eq_true_eq, decide_eq_true_eq, List.any_eq_true]
  simp only [decide_eq_true_eq]
  constructor
  · rintro ((h | ⟨f, ha, h⟩) | h)
    · exact ⟨_, h, .inl rfl⟩
    · exact ⟨f, h, .inr (.inl ha)⟩
    · exact ⟨_, h, .inr (.inr rfl)⟩
  · rintro ⟨f, h, rfl | ha | rfl⟩
    · exact .inl (.inl h)
    · exact .inl (.inr ⟨f, ha, h⟩)
    · exact .inr h

/-- The place has a path that is covered by that of a change. -/
def UnderChange (config target : Json) (place : List Step) : Prop :=
  ∃ change, ChangedAt (some config) (some target) change ∧ Covers (pathOf change) (pathOf place)

/-- The reference of the file that is collected last under a path. -/
def lastReference (parsed : Json) (path : String) : Option String :=
  ((references parsed).reverse.find? fun e => pathOf e.1 = path).map (·.2)

/-- The paths tell the places apart, as far as it matters. -/
structure PathsApart (parsed config target : Json) : Prop where
  /-- The path of a string that is to be put back is not covered by that of a change. -/
  restored : ∀ place value, at? (some target) place = some (.str value) →
    exactString parsed config place value ≠ value → ¬ UnderChange config target place
  /-- The last reference under the path of a string, when no change covers it, is what the
  string is to be replaced by. -/
  last : ∀ place value, at? (some target) place = some (.str value) →
    ¬ UnderChange config target place → ∀ t, lastReference parsed (pathOf place) = some t →
    t = exactString parsed config place value

theorem lookup_map_eq_find? (l : List (List Step × String)) (path : String) :
    (l.map fun e => (pathOf e.1, e.2)).lookup path =
      (l.find? fun e => pathOf e.1 = path).map (·.2) := by
  induction l with
  | nil => rfl
  | cons e l ih =>
    rw [map_cons, List.lookup_cons, find?_cons, ih]
    by_cases h : pathOf e.1 = path
    · simp [h]
    · have h' : (path == pathOf e.1) = false := beq_eq_false_iff_ne.mpr (Ne.symm h)
      simp [h, h']

theorem getRef_eq (parsed : Json) (path : String) :
    getRef (collectEnvRefPaths parsed "") path = lastReference parsed path := by
  rw [getRef, collectEnvRefPaths_eq, ← map_reverse]
  exact lookup_map_eq_find? _ path

/-- A string that is to be put back has a reference under its path. -/
theorem isSome_lastReference {parsed config : Json} {place : List Step} {value : String}
    (h : exactString parsed config place value ≠ value) :
    (lastReference parsed (pathOf place)).isSome = true := by
  rw [exactString.eq_def] at h
  split at h
  · rename_i t s hp hc
    have ht : containsEnvVarReference t = true := by
      by_contra hno
      exact h (if_neg fun h => hno h.1)
    have hm := mem_references hp ht
    rw [lastReference, isSome_map, find?_isSome]
    exact ⟨(place, t), mem_reverse.mpr hm, by simp⟩
  · exact absurd rfl h

/-- What is written for a string. -/
theorem restoredString_eq {config target : Json} (hc : WF config) (ht : WF target) (parsed : Json)
    (place : List Step) (value : String) [Decidable (UnderChange config target place)] :
    restoredString (collectEnvRefPaths parsed "") (collectChangedPaths config target "") (pathOf place)
        value = if UnderChange config target place then value
      else (lastReference parsed (pathOf place)).getD value := by
  have hiff : isPathChanged (pathOf place) (collectChangedPaths config target "") = true ↔
      UnderChange config target place := by
    rw [isPathChanged_iff]
    constructor
    · rintro ⟨f, hf, hcov⟩
      obtain ⟨change, hch, rfl⟩ := (mem_collectChangedPaths hc ht "" f).mp hf
      exact ⟨change, hch, hcov⟩
    · rintro ⟨change, hch, hcov⟩
      exact ⟨_, (mem_collectChangedPaths hc ht "" _).mpr ⟨change, hch, rfl⟩, hcov⟩
  rw [restoredString, getRef_eq]
  by_cases hu : UnderChange config target place
  · rw [if_pos hu, if_pos (hiff.mpr hu)]
  · rw [if_neg hu, if_neg fun h => hu (hiff.mp h)]

/-- What is written is exact just when it is at each string. -/
theorem exactlyRestored_iff (parsed config target : Json) :
    ExactlyRestored parsed config target (restoreEnvRefs parsed config target) ↔
      ∀ place value, at? (some target) place = some (.str value) →
        restoredString (collectEnvRefPaths parsed "") (collectChangedPaths config target "")
          (pathOf place) value = exactString parsed config place value := by
  have hat := fun place => at?_restoreEnvRefsFromMap (collectEnvRefPaths parsed "")
    (collectChangedPaths config target "") target "" place
  constructor
  · intro h place value hv
    have := h place
    rw [shapeAt, restoreEnvRefs, hat, shapeAt, hv] at this
    simpa [restoreEnvRefsFromMap, shape, exactShape, pathOf] using this
  · intro h place
    rw [shapeAt, restoreEnvRefs, hat, shapeAt]
    cases hv : at? (some target) place with
    | none => rfl
    | some v =>
      cases v with
      | str value =>
        have := h place value hv
        simpa [restoreEnvRefsFromMap, shape, exactShape, pathOf] using this
      | _ => simp [restoreEnvRefsFromMap, shape, exactShape]

/-! ### Paths of plain keys -/

/-- A key that is not empty and has no dot and no bracket. -/
def PlainKey (key : String) : Prop :=
  key ≠ "" ∧ '.' ∉ key.toList ∧ '[' ∉ key.toList ∧ ']' ∉ key.toList

instance (key : String) : Decidable (PlainKey key) :=
  inferInstanceAs (Decidable (key ≠ "" ∧ '.' ∉ key.toList ∧ '[' ∉ key.toList ∧ ']' ∉ key.toList))

/-- The keys of the place are plain. -/
def PlainPlace (place : List Step) : Prop := ∀ k, Step.key k ∈ place → PlainKey k

variable {c : Step}

theorem plainPlace_concat {place : List Step} :
    PlainPlace (place ++ [c]) ↔ PlainPlace place ∧ ∀ k, c = .key k → PlainKey k := by
  simp only [PlainPlace, mem_append, mem_singleton]
  constructor
  · exact fun h => ⟨fun k hk => h k (.inl hk), fun k hk => h k (.inr hk.symm)⟩
  · rintro ⟨h, h'⟩ k (hk | hk)
    · exact h k hk
    · exact h' k hk.symm

theorem pathOf_concat (place : List Step) (c : Step) :
    pathOf (place ++ [c]) = childPath (pathOf place) c := by simp [pathOf, pathFrom]

theorem beforeLast?_of_notMem {c : Char} {cs : List Char} (h : c ∉ cs) : beforeLast? c cs = none := by
  induction cs with
  | nil => rfl
  | cons d cs ih =>
    rw [mem_cons, not_or] at h
    rw [beforeLast?, ih h.2, if_neg (Ne.symm h.1)]

theorem beforeLast?_append {c : Char} (cs : List Char) {ds : List Char} (h : c ∉ ds) :
    beforeLast? c (cs ++ c :: ds) = some cs := by
  induction cs with
  | nil => rw [nil_append, beforeLast?, beforeLast?_of_notMem h, if_pos rfl]
  | cons d cs ih => rw [cons_append, beforeLast?, ih]

theorem notMem_digits {c : Char} (h : c.isDigit = false) (index : ℕ) : c ∉ (toString index).toList := by
  intro hc
  rw [Nat.toString_eq_repr, Nat.toList_repr] at hc
  rw [Nat.isDigit_of_mem_toDigits (by decide) (by decide) hc] at h
  cases h

theorem toString_inj {i j : ℕ} (h : toString i = toString j) : i = j := by
  rw [Nat.toString_eq_repr, Nat.toString_eq_repr] at h
  have := congrArg (fun s : String => Nat.ofDigitChars 10 s.toList 0) h
  simpa only [Nat.toList_repr, Nat.ofDigitChars_ten_toDigits] using this

theorem toList_indexPathOf (path : String) (index : ℕ) : (indexPathOf path index).toList =
    path.toList ++ '[' :: ((toString index).toList ++ [']']) := by
  simp [indexPathOf]

theorem toList_keyPathOf (h : path ≠ "") (key : String) :
    (keyPathOf path key).toList = path.toList ++ '.' :: key.toList := by
  simp [keyPathOf, h]

theorem getLast?_ne_of_notMem {c : Char} {cs : List Char} (h : c ∉ cs) : cs.getLast? ≠ some c :=
  fun he => h (mem_of_getLast? he)

/-- The last character of the path of a property is no bracket. -/
theorem getLast?_keyPathOf {key : String} (hk : PlainKey key) (path : String) :
    (keyPathOf path key).toList.getLast? ≠ some ']' := by
  rw [keyPathOf]
  split
  · exact getLast?_ne_of_notMem hk.2.2.2
  · have hne : key.toList ≠ [] := fun h => hk.1 (String.toList_eq_nil_iff.mp h)
    rw [String.toList_append, getLast?_append_of_ne_nil _ hne]
    exact getLast?_ne_of_notMem hk.2.2.2

theorem getLast?_indexPathOf (path : String) (index : ℕ) :
    (indexPathOf path index).toList.getLast? = some ']' := by
  rw [toList_indexPathOf, ← cons_append, ← append_assoc, getLast?_concat]

theorem parentPath_indexPathOf (path : String) (index : ℕ) : parentPath (indexPathOf path index) = path := by
  have hno : '[' ∉ (toString index).toList ++ [']'] := by
    simpa using notMem_digits (c := '[') (by decide) index
  rw [parentPath, if_pos (getLast?_indexPathOf path index), toList_indexPathOf, beforeLast?_append _ hno, getD_some,
    String.ofList_toList]

theorem parentPath_keyPathOf {key : String} (hk : PlainKey key) (path : String) :
    parentPath (keyPathOf path key) = path := by
  rw [parentPath, if_neg (getLast?_keyPathOf hk path)]
  by_cases hp : path = ""
  · rw [keyPathOf, if_pos hp, beforeLast?_of_notMem hk.2.1, hp]
    rfl
  · rw [toList_keyPathOf hp, beforeLast?_append _ hk.2.1, getD_some, String.ofList_toList]

theorem parentPath_pathOf {place : List Step} (h : PlainPlace (place ++ [c])) :
    parentPath (pathOf (place ++ [c])) = pathOf place := by
  rw [pathOf_concat]
  cases c with
  | key k => exact parentPath_keyPathOf ((plainPlace_concat.mp h).2 k rfl) _
  | index i => exact parentPath_indexPathOf _ i

/-- A path is longer than that of the place above. -/
theorem length_pathOf {place : List Step} (h : PlainPlace (place ++ [c])) :
    (pathOf place).length < (pathOf (place ++ [c])).length := by
  rw [pathOf_concat, ← String.length_toList, ← String.length_toList]
  cases c with
  | index i =>
    rw [childPath, toList_indexPathOf]
    simp
  | key k =>
    have hk := (plainPlace_concat.mp h).2 k rfl
    by_cases hp : pathOf place = ""
    · rw [childPath, keyPathOf, if_pos hp, hp]
      exact length_pos_of_ne_nil fun h => hk.1 (String.toList_eq_nil_iff.mp h)
    · rw [childPath, toList_keyPathOf hp]
      simp

theorem pathOf_concat_ne {place : List Step} (h : PlainPlace (place ++ [c])) :
    pathOf (place ++ [c]) ≠ "" := by
  intro he
  have := length_pathOf h
  rw [he] at this
  exact absurd this (Nat.not_lt_zero _)

/-- A property and an item have different paths. -/
theorem childPath_inj {c d : Step} (hc : ∀ k, c = .key k → PlainKey k)
    (hd : ∀ k, d = .key k → PlainKey k) (h : childPath path c = childPath path d) : c = d := by
  cases c with
  | key k =>
    cases d with
    | key k' =>
      rw [childPath, childPath, keyPathOf, keyPathOf] at h
      split at h
      · rw [h]
      · rw [String.append_right_inj] at h
        rw [h]
    | index i =>
      have := getLast?_keyPathOf (hc k rfl) path
      rw [show keyPathOf path k = indexPathOf path i from h, getLast?_indexPathOf] at this
      exact absurd rfl this
  | index i =>
    cases d with
    | key k =>
      have := getLast?_keyPathOf (hd k rfl) path
      rw [show keyPathOf path k = indexPathOf path i from h.symm, getLast?_indexPathOf] at this
      exact absurd rfl this
    | index j =>
      have hij := congrArg String.toList (show indexPathOf path i = indexPathOf path j from h)
      rw [toList_indexPathOf, toList_indexPathOf, append_cancel_left_eq, List.cons.injEq,
        append_cancel_right_eq, String.toList_inj] at hij
      rw [toString_inj hij.2]

/-- The path tells the place. -/
theorem pathOf_inj {a b : List Step} (ha : PlainPlace a) (hb : PlainPlace b)
    (h : pathOf a = pathOf b) : a = b := by
  induction a using List.reverseRecOn generalizing b with
  | nil =>
    rcases eq_nil_or_concat b with rfl | ⟨b, d, rfl⟩
    · rfl
    · rw [concat_eq_append] at hb h
      exact absurd h.symm (pathOf_concat_ne hb)
  | append_singleton a c ih =>
    rcases eq_nil_or_concat b with rfl | ⟨b, d, rfl⟩
    · exact absurd h (pathOf_concat_ne ha)
    · rw [concat_eq_append] at hb h ⊢
      have hparent := congrArg parentPath h
      rw [parentPath_pathOf ha, parentPath_pathOf hb] at hparent
      obtain rfl := ih (plainPlace_concat.mp ha).1 (plainPlace_concat.mp hb).1 hparent
      rw [pathOf_concat, pathOf_concat] at h
      rw [childPath_inj (plainPlace_concat.mp ha).2 (plainPlace_concat.mp hb).2 h]

theorem mem_ancestorsFrom {place : List Step} (h : PlainPlace place) {n : ℕ} (hn : place.length ≤ n)
    {f : String} : f ∈ ancestorsFrom n (pathOf place) ↔ ∃ a, a ≠ [] ∧ a <+: place ∧ pathOf a = f := by
  induction place using List.reverseRecOn generalizing n with
  | nil =>
    have hnil : ancestorsFrom n (pathOf []) = [] := by
      cases n <;> rfl
    simp [hnil]
  | append_singleton place c ih =>
    cases n with
    | zero => simp at hn
    | succ n =>
      rw [ancestorsFrom, if_neg (pathOf_concat_ne h), mem_cons, parentPath_pathOf h,
        ih (plainPlace_concat.mp h).1 (by simpa using hn)]
      constructor
      · rintro (rfl | ⟨a, hne, ha, hf⟩)
        · exact ⟨_, by simp, prefix_refl _, rfl⟩
        · exact ⟨a, hne, ha.trans (prefix_append _ _), hf⟩
      · rintro ⟨a, hne, ha, hf⟩
        rcases prefix_concat_iff.mp ha with rfl | ha
        · exact .inl hf.symm
        · exact .inr ⟨a, hne, ha, hf⟩

theorem length_le_pathOf {place : List Step} (h : PlainPlace place) :
    place.length ≤ (pathOf place).length := by
  induction place using List.reverseRecOn with
  | nil => exact Nat.zero_le _
  | append_singleton place c ih =>
    have := ih (plainPlace_concat.mp h).1
    have := length_pathOf h
    rw [length_append, length_singleton]
    omega

/-- A place covers those below it, and by their paths no others. -/
theorem covers_iff {a place : List Step} (ha : PlainPlace a) (h : PlainPlace place) :
    Covers (pathOf a) (pathOf place) ↔ a <+: place := by
  have hanc : pathOf a ∈ ancestors (pathOf place) → a <+: place := by
    rcases eq_nil_or_concat place with rfl | ⟨place, c, rfl⟩
    · intro hm
      exact absurd hm (by simp [ancestors, ancestorsFrom, pathOf])
    · rw [concat_eq_append] at h ⊢
      intro hm
      rw [ancestors, parentPath_pathOf h] at hm
      have hplace := (plainPlace_concat.mp h).1
      have hlen := (length_le_pathOf hplace).trans (length_pathOf h).le
      obtain ⟨a', -, hpre, hf⟩ := (mem_ancestorsFrom hplace hlen).mp hm
      have hplain : PlainPlace a' := fun k hk => hplace k (hpre.subset hk)
      rw [← pathOf_inj hplain ha hf]
      exact hpre.trans (prefix_append _ _)
  constructor
  · rintro (he | hm | he)
    · exact pathOf_inj ha h he ▸ prefix_refl _
    · exact hanc hm
    · rw [pathOf_inj (b := []) ha (fun k hk => absurd hk not_mem_nil) he]
      exact nil_prefix
  · intro hpre
    rcases eq_nil_or_concat a with rfl | ⟨_, _, hne⟩
    · exact .inr (.inr rfl)
    rcases eq_nil_or_concat place with rfl | ⟨place, c, rfl⟩
    · exact .inl (by rw [prefix_nil.mp hpre])
    · rw [concat_eq_append] at h hpre ⊢
      rcases prefix_concat_iff.mp hpre with rfl | hpre
      · exact .inl rfl
      · have hplace := (plainPlace_concat.mp h).1
        have hlen := (length_le_pathOf hplace).trans (length_pathOf h).le
        refine .inr (.inl ?_)
        rw [ancestors, parentPath_pathOf h]
        exact (mem_ancestorsFrom hplace hlen).mpr ⟨a, by simp [hne], hpre, rfl⟩

/-- No key of the value is anything but plain. -/
def PlainKeys (v : Json) : Prop :=
  Everywhere (fun w => ∀ fields, w = .obj fields → ∀ k ∈ fields.map (·.1), PlainKey k) v

theorem PlainKeys.down {v w : Json} (h : PlainKeys v) (hw : down (some v) c = some w) :
    PlainKeys w := (Json.everywhere_iff.mp h).2 c w hw

theorem PlainKeys.key {v w : Json} (h : PlainKeys v) {k : String}
    (hw : Json.down (some v) (.key k) = some w) : PlainKey k := by
  cases v with
  | obj fields =>
    exact h.self fields rfl k (Fields.lookup_isSome.mp (by rw [← Json.down_obj_key, hw]; rfl))
  | _ => cases hw

theorem plainKeys_obj {fields : Fields} (hnd : (fields.map (·.1)).Nodup)
    (hk : ∀ k ∈ fields.map (·.1), PlainKey k) (h : ∀ p ∈ fields, PlainKeys p.2) :
    PlainKeys (.obj fields) := by
  refine (Json.everywhere_obj hnd).mpr ⟨fun fields' he => ?_, h⟩
  obtain rfl := Json.obj.inj he
  exact hk

theorem plainKeys_leaf {v : Json} (ho : v.shape ≠ .obj) (ha : v.shape ≠ .arr) : PlainKeys v := by
  refine (Json.everywhere_leaf ho ha).mpr fun fields he => ?_
  subst he
  exact absurd rfl ho

/-- A place at which there is something. -/
theorem PlainKeys.place {v : Json} (h : PlainKeys v) {place : List Step}
    (hs : (at? (some v) place).isSome = true) : PlainPlace place := by
  induction place generalizing v with
  | nil => exact fun k hk => absurd hk not_mem_nil
  | cons c place ih =>
    rw [Json.at?_cons] at hs
    cases hw : Json.down (some v) c with
    | none => simp [hw] at hs
    | some w =>
      rw [hw] at hs
      intro k hk
      rcases mem_cons.mp hk with rfl | hk
      · exact h.key hw
      · exact ih (h.down hw) hs k hk

variable {v w : Option Json}

theorem plainPlace_of_changedAt (hv : ∀ v', v = some v' → PlainKeys v')
    (hw : ∀ w', w = some w' → PlainKeys w') {place : List Step} (h : ChangedAt v w place) :
    PlainPlace place := by
  induction place generalizing v w with
  | nil => exact fun k hk => absurd hk not_mem_nil
  | cons c place ih =>
    have hbelow := ih (v := down v c) (w := down w c) (fun v' hd => by
        obtain ⟨u, rfl, -⟩ := bind_eq_some_iff.mp hd
        exact (hv u rfl).down hd)
      (fun w' hd => by
        obtain ⟨u, rfl, -⟩ := bind_eq_some_iff.mp hd
        exact (hw u rfl).down hd) h.2
    intro k hk
    rcases mem_cons.mp hk with rfl | hk
    · -- one of the two has the key
      cases hd : down v (.key k) with
      | some v' =>
        obtain ⟨u, rfl, -⟩ := bind_eq_some_iff.mp hd
        exact (hv u rfl).key hd
      | none =>
        have hc := h.2
        rw [hd, changedAt_none_left] at hc
        obtain ⟨w', hd'⟩ := isSome_iff_exists.mp hc.2
        obtain ⟨u, rfl, -⟩ := bind_eq_some_iff.mp hd'
        exact (hw u rfl).key hd'
    · exact hbelow k hk

theorem at?_of_mem_references {v : Json} (hd : DistinctKeys v) {place : List Step} {t : String}
    (h : (place, t) ∈ references v) :
    at? (some v) place = some (.str t) ∧ containsEnvVarReference t = true := by
  induction v using Json.rec_on generalizing place with
  | str value =>
    rw [references] at h
    split at h
    · rename_i hc
      obtain ⟨rfl, rfl⟩ := Prod.mk.inj (mem_singleton.mp h)
      exact ⟨rfl, hc⟩
    · cases h
  | arr items ih =>
    have hitems : ∀ (rest : List Json) (index : ℕ), (place, t) ∈ itemReferences rest index →
        ∃ i item below, rest[i]? = some item ∧ (below, t) ∈ references item ∧
          place = .index (index + i) :: below := by
      intro rest
      induction rest with
      | nil =>
        intro index hm
        rw [itemReferences] at hm
        cases hm
      | cons item rest ihr =>
        intro index hm
        rw [itemReferences, mem_append] at hm
        rcases hm with hm | hm
        · obtain ⟨⟨below, t'⟩, hbelow, he⟩ := List.mem_map.mp hm
          obtain ⟨rfl, rfl⟩ := Prod.mk.inj he
          exact ⟨0, item, below, rfl, hbelow, rfl⟩
        · obtain ⟨i, item', below, hi, hbelow, rfl⟩ := ihr _ hm
          exact ⟨i + 1, item', below, hi, hbelow, by rw [Nat.add_right_comm, Nat.add_assoc]⟩
    rw [references] at h
    obtain ⟨i, item, below, hi, hm, rfl⟩ := hitems items 0 h
    have hmem := mem_of_getElem? hi
    rw [Json.at?_cons, Nat.zero_add, Json.down_arr_index, hi]
    exact ih item hmem (Json.distinctKeys_arr.mp hd item hmem) hm
  | obj fields ih =>
    have hfields : ∀ rest : Fields, (place, t) ∈ fieldReferences rest → ∃ p ∈ rest, ∃ below,
        (below, t) ∈ references p.2 ∧ place = .key p.1 :: below := by
      intro rest
      induction rest with
      | nil =>
        intro hm
        rw [fieldReferences] at hm
        cases hm
      | cons p rest ihr =>
        obtain ⟨key, child⟩ := p
        intro hm
        rw [fieldReferences, mem_append] at hm
        rcases hm with hm | hm
        · obtain ⟨⟨below, t'⟩, hbelow, he⟩ := List.mem_map.mp hm
          obtain ⟨rfl, rfl⟩ := Prod.mk.inj he
          exact ⟨_, mem_cons_self, below, hbelow, rfl⟩
        · obtain ⟨p, hp, below, hbelow, rfl⟩ := ihr hm
          exact ⟨p, mem_cons_of_mem _ hp, below, hbelow, rfl⟩
    obtain ⟨hnd, hdistinct⟩ := Json.distinctKeys_obj.mp hd
    rw [references] at h
    obtain ⟨p, hp, below, hm, rfl⟩ := hfields fields h
    rw [Json.at?_cons, Json.down_obj_key, Fields.lookup_of_mem hnd hp]
    exact ih p hp (hdistinct p hp) hm
  | _ => rw [references] at h <;> cases h

theorem at?_of_changedAt {place : List Step} (h : ChangedAt v w place) :
    ¬ Containers (at? v place) (at? w place) ∧ ¬ Same (at? v place) (at? w place) := by
  induction place generalizing v w with
  | nil => exact h
  | cons c place ih => exact ih h.2

/-- Two values that both have a child at one step are both arrays, or both objects. -/
theorem containers_of_down {v w v' w' : Json} (hv : down (some v) c = some v')
    (hw : down (some w) c = some w') : Containers (some v) (some w) := by
  cases c with
  | key k =>
    cases v <;> first | cases hv | skip
    cases w <;> first | cases hw | skip
    exact ⟨rfl, .inr rfl⟩
  | index i =>
    cases v <;> first | cases hv | skip
    cases w <;> first | cases hw | skip
    exact ⟨rfl, .inl rfl⟩

variable {s : String}

/-- Above a place at which both have one string, and at it, there is no change. -/
theorem not_changedAt_of_str {place a : List Step} (hv : at? v place = some (.str s))
    (hw : at? w place = some (.str s)) (ha : a <+: place) : ¬ ChangedAt v w a := by
  intro hch
  obtain ⟨hcont, hsame⟩ := at?_of_changedAt hch
  obtain ⟨rest, rfl⟩ := ha
  rw [Json.at?_append] at hv hw
  cases rest with
  | nil =>
    rw [Json.at?_nil] at hv hw
    rw [hv, hw] at hsame
    exact hsame (.refl _)
  | cons c rest =>
    rw [Json.at?_cons] at hv hw
    cases hdv : down (at? v a) c with
    | none => simp [hdv] at hv
    | some v' =>
      cases hdw : down (at? w a) c with
      | none => simp [hdw] at hw
      | some w' =>
        obtain ⟨u, hu, -⟩ := bind_eq_some_iff.mp hdv
        obtain ⟨u', hu', -⟩ := bind_eq_some_iff.mp hdw
        rw [hu] at hdv hcont
        rw [hu'] at hdw hcont
        exact hcont (containers_of_down hdv hdw)

theorem eq_str_of_shape {v : Option Json} (h : v.map shape = (some (Json.str s)).map shape) :
    v = some (.str s) := by
  cases v with
  | none => cases h
  | some v =>
    cases v with
    | str s' =>
      simp only [map_some, shape, some.injEq, Json.Shape.str.injEq] at h
      rw [h]
    | _ => simp [shape] at h

/-- A string above which, and at which, there is no change. -/
theorem at?_of_not_changedAt {place : List Step} (h : ∀ a, a <+: place → ¬ ChangedAt v w a)
    (hw : at? w place = some (.str s)) : at? v place = some (.str s) := by
  by_cases hc : Containers v w
  · induction place generalizing v w with
    | nil =>
      rw [Json.at?_nil] at hw
      obtain ⟨he, hsh⟩ := hc
      rw [he, hw] at hsh
      rcases hsh with hsh | hsh <;> cases hsh
    | cons c place ih =>
      have hbelow : ∀ a, a <+: place → ¬ ChangedAt (down v c) (down w c) a := fun a ha hch =>
        h (c :: a) (cons_prefix_cons.mpr ⟨rfl, ha⟩) ⟨hc, hch⟩
      rw [Json.at?_cons] at hw ⊢
      by_cases hc' : Containers (down v c) (down w c)
      · exact ih hbelow hw hc'
      · have hsame : Same (down v c) (down w c) := by
          by_contra hno
          exact hbelow [] nil_prefix ⟨hc', hno⟩
        have := (hsame.at? place).shape
        rw [hw] at this
        exact eq_str_of_shape this
  · have hsame : Same v w := by
      by_contra hno
      exact h [] nil_prefix ⟨hc, hno⟩
    have := (hsame.at? place).shape
    rw [hw] at this
    exact eq_str_of_shape this

/-- **The paths of plain keys tell the places apart.** -/
theorem pathsApart_of_plain {parsed config target : Json} (hp : DistinctKeys parsed)
    (hpp : PlainKeys parsed) (hcp : PlainKeys config) (htp : PlainKeys target) :
    PathsApart parsed config target := by
  -- a change counts for the places below it only
  have hunder : ∀ {place v}, at? (some target) place = some v →
      (UnderChange config target place ↔
        ∃ a, a <+: place ∧ ChangedAt (some config) (some target) a) := by
    intro place v hv
    have hplace : PlainPlace place := htp.place (by rw [hv]; rfl)
    refine exists_congr fun a => ?_
    rw [and_comm]
    refine and_congr_left fun ha => covers_iff (plainPlace_of_changedAt ?_ ?_ ha) hplace
    · exact fun _ he => some.inj he ▸ hcp
    · exact fun _ he => some.inj he ▸ htp
  refine ⟨fun place value hv hne hu => ?_, fun place value hv hu t hl => ?_⟩
  · obtain ⟨a, ha, hch⟩ := (hunder hv).mp hu
    rw [exactString.eq_def] at hne
    split at hne
    · rename_i t s _ hc
      have hs : s = value := by
        by_contra hno
        exact hne (if_neg fun h => hno h.2)
      exact not_changedAt_of_str hc (hs ▸ hv) ha hch
    · exact hne rfl
  · -- the reference is that of the place
    obtain ⟨e, he, rfl⟩ := map_eq_some_iff.mp hl
    have hpath := find?_some he
    obtain ⟨hat, href⟩ := at?_of_mem_references hp (mem_reverse.mp (mem_of_find?_eq_some he))
    have heq : e.1 = place := pathOf_inj (hpp.place (by rw [hat]; rfl)) (htp.place (by rw [hv]; rfl))
      (by simpa using hpath)
    rw [heq] at hat
    have hc : at? (some config) place = some (.str value) :=
      at?_of_not_changedAt (fun a ha hch => hu ((hunder hv).mpr ⟨a, ha, hch⟩)) hv
    simp [exactString, hat, hc, href]

open Classical in
/-- **Just the references that were not edited are put back**: for every file, config and edited
config, what is written is the edited config with each string replaced by the reference that the
file has at its place, if the string is as it was read, and no other, just when `PathsApart`. -/
theorem restoreEnvRefs_iff {parsed config target : Json} (hc : WF config) (ht : WF target) :
    ExactlyRestored parsed config target (restoreEnvRefs parsed config target) ↔
      PathsApart parsed config target := by
  rw [exactlyRestored_iff]
  constructor
  · intro h
    refine ⟨fun place value hv hne hu => hne ?_, fun place value hv hu t hl => ?_⟩
    · rw [← h place value hv, restoredString_eq hc ht, if_pos hu]
    · rw [← h place value hv, restoredString_eq hc ht, if_neg hu, hl, getD_some]
  · intro h place value hv
    rw [restoredString_eq hc ht]
    by_cases hu : UnderChange config target place
    · rw [if_pos hu]
      by_contra hne
      exact h.restored place value hv (Ne.symm hne) hu
    · rw [if_neg hu]
      cases hl : lastReference parsed (pathOf place) with
      | some t => exact h.last place value hv hu t hl
      | none =>
        by_contra hne
        have := isSome_lastReference (Ne.symm hne)
        rw [hl] at this
        cases this

/-- A channel's token, and its name. -/
def channelConfig (token name : String) : Json := .obj [("token", .str token), ("name", .str name)]

theorem wf_channelConfig (token name : String) : WF (channelConfig token name) := by
  simp [channelConfig, WF, Json.WFFields]

theorem plainKeys_channelConfig (token name : String) : PlainKeys (channelConfig token name) := by
  have hkeys : ∀ k ∈ ["token", "name"], PlainKey k := by decide
  refine plainKeys_obj (by simp) hkeys ?_
  have hstr : ∀ s, PlainKeys (.str s) := fun s =>
    plainKeys_leaf (by simp [shape]) (by simp [shape])
  simp [hstr]

theorem distinctKeys_channelConfig (token name : String) : DistinctKeys (channelConfig token name) := by
  refine Json.distinctKeys_obj.mpr ⟨by simp, ?_⟩
  have hstr : ∀ s, DistinctKeys (.str s) := fun s =>
    Json.distinctKeys_leaf (by simp [shape]) (by simp [shape])
  simp [hstr]

/-- The name is edited, and the reference for the token put back. -/
theorem restoreEnvRefs_channelConfig :
    ExactlyRestored (channelConfig "$\x7bTOKEN\x7d" "a") (channelConfig "secret" "a")
      (channelConfig "secret" "b")
      (restoreEnvRefs (channelConfig "$\x7bTOKEN\x7d" "a") (channelConfig "secret" "a")
        (channelConfig "secret" "b")) :=
  (restoreEnvRefs_iff (wf_channelConfig _ _) (wf_channelConfig _ _)).mpr
    (pathsApart_of_plain (distinctKeys_channelConfig _ _) (plainKeys_channelConfig _ _)
      (plainKeys_channelConfig _ _) (plainKeys_channelConfig _ _))

/-- Names of models, one of them with a dot in it. -/
def modelConfig (model other : String) : Json := .obj [("m-4", .str model), ("m-4.1", .str other)]

/-- The change at a key counts for another that begins with it and a dot: the secret is written
in place of the reference. -/
theorem restoreEnvRefs_modelConfig :
    (∃ warnings, resolveConfigEnvVars tokenEnv true (modelConfig "a" "$\x7bTOKEN\x7d") =
      .ok (modelConfig "a" "secret", warnings)) ∧
    ¬ ExactlyRestored (modelConfig "a" "$\x7bTOKEN\x7d") (modelConfig "a" "secret")
      (modelConfig "b" "secret")
      (restoreEnvRefs (modelConfig "a" "$\x7bTOKEN\x7d") (modelConfig "a" "secret")
        (modelConfig "b" "secret")) := by
  constructor
  · obtain ⟨warnings, hr⟩ := resolveConfigEnvVars_onMissing tokenEnv (modelConfig "a" "$\x7bTOKEN\x7d")
    have ha : expanded tokenEnv "a" = "a" := by decide +kernel
    have ht : expanded tokenEnv "$\x7bTOKEN\x7d" = "secret" := by decide +kernel
    exact ⟨warnings, by rw [hr]; simp [modelConfig, expandedJson, expandedFields, ha, ht]⟩
  · intro h
    have := h [.key "m-4.1"]
    revert this
    decide +kernel

end Foxclaw.Config.EnvRefPaths
