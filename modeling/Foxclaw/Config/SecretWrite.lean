import Foxclaw.Config.MergePatch
import Foxclaw.Lib.Text

/-!
# Writing an edited runtime config

The runtime config is the source config with its secret references resolved. An edited
runtime config is written by projecting the edit onto the source (`projectConfig`), so that
what was not edited stays as the source has it. `KeepsSecrets` is what the projection is for;
`Deletable` and `Kept` are when it does it.

The patch goes down through objects only. An array that was edited is written as a whole,
with the plaintext of every reference in it that was not edited: this is the case that
matters, and the others are those of any merge patch (a `null` deletes, a blocked key is
skipped, an object is laid over the one that is there).

## What is proved

* `createMergePatch_isSome_iff` — the patch can be made just when `Deletable`.
* `projectConfig_keepsSecrets_iff` — the config is written and keeps the references just when
  `Deletable` and `Kept`.
-/

namespace Foxclaw.Config.MergePatch

open Json Option
open Json (Fields Step Shape Same WF at? down shapeAt shape deepEqual)

def isSecretRef : Json → Bool
  | .obj fields =>
      let text (key : String) : Option String := match fields.lookup key with
        | some (.str s) => some s
        | _ => none
      fields.length = 3 && (text "source").any (fun s => s = "env" || s = "file" || s = "exec") &&
        (text "provider").any (fun s => Text.trimString s ≠ "") &&
        (text "id").any fun s => Text.trimString s ≠ ""
  | _ => false

/-- The runtime config is the source config with secret references replaced in place. -/
inductive Resolved : Json → Json → Prop where
  /-- Nothing is replaced. -/
  | same (v : Json) : Resolved v v
  /-- A reference is replaced by any value. -/
  | secret {v : Json} (h : isSecretRef v = true) (w : Json) : Resolved v w
  /-- References in an array are replaced. -/
  | arr {items items' : List Json} (hl : items.length = items'.length)
      (h : ∀ (i : ℕ) v w, items[i]? = some v → items'[i]? = some w → Resolved v w) :
      Resolved (.arr items) (.arr items')
  /-- References in an object are replaced. -/
  | obj {fields fields' : Fields} (hk : fields.map (·.1) = fields'.map (·.1))
      (h : ∀ k v w, fields.lookup k = some v → fields'.lookup k = some w → Resolved v w) :
      Resolved (.obj fields) (.obj fields')

/-- What is written (`w`) has the source's value (`s`) at each path where the edited config
(`t`) has that of the runtime config (`r`), and the edited value at each path that was
changed. Objects at one path, and arrays, are compared by what is in them. -/
structure KeepsSecrets (s r t w : Option Json) : Prop where
  /-- A value that was not edited is the source's. -/
  unchanged : ∀ p, (at? r p).isSome = true → Same (at? r p) (at? t p) → Same (at? w p) (at? s p)
  /-- A value that was edited is the edited one. -/
  changed : ∀ p, shapeAt r p ≠ shapeAt t p → Same (at? w p) (at? t p)

/-! ### When the projection keeps the references -/

/-- The path down through the properties. -/
def keyPath (p : List String) : List Step := p.map .key

@[simp] theorem at?_keyPath_cons (v : Option Json) (k : String) (p : List String) :
    at? v (keyPath (k :: p)) = at? (down v (.key k)) (keyPath p) := rfl

/-- The value is an object. -/
def IsObj (v : Option Json) : Prop := v.map shape = some .obj

/-- None of the keys is blocked. -/
def Unblocked (p : List String) : Prop := ∀ k ∈ p, isBlockedObjectKey k = false

/-- Where both configs have an object, no key that was deleted is named like a member of
`Object.prototype`. -/
def Deletable (r t : Option Json) : Prop :=
  ∀ p, IsObj (at? r (keyPath p)) → IsObj (at? t (keyPath p)) → ∀ k,
    (down (at? r (keyPath p)) (.key k)).isSome = true →
    down (at? t (keyPath p)) (.key k) = none → k ∉ objectPrototypeKeys

/-- The value `v` can be laid over `s`: outside arrays it has no `null`, what `s` has where
it has an object it has too, and under blocked keys it has what `s` has. -/
structure Overlays (s v : Option Json) : Prop where
  /-- No `null`. -/
  notNull : ∀ p, Unblocked p → at? v (keyPath p) ≠ some .null
  /-- Nothing of `s` is left over. -/
  covers : ∀ p, Unblocked p → IsObj (at? v (keyPath p)) → ∀ k, isBlockedObjectKey k = false →
    (down (at? s (keyPath p)) (.key k)).isSome = true →
    (down (at? v (keyPath p)) (.key k)).isSome = true
  /-- Blocked keys are as in `s`. -/
  blocked : ∀ p, Unblocked p → IsObj (at? v (keyPath p)) → ∀ k, isBlockedObjectKey k = true →
    Same (down (at? s (keyPath p)) (.key k)) (down (at? v (keyPath p)) (.key k))

/-- What an edit may do to the value of a key that is not blocked. -/
structure EditOk (s r t : Option Json) : Prop where
  /-- A value that is put in can be laid over the source's. -/
  put : t.isSome = true → r.map shape ≠ t.map shape → Overlays s t
  /-- In an array that was edited, what was not edited is as the source has it. -/
  array : r.map shape = some .arr → t.map shape = some .arr → ¬ Same r t → ∀ p,
    (at? r p).isSome = true → Same (at? r p) (at? t p) → Same (at? t p) (at? s p)

/-- What an edit may do, key by key, where both configs have an object. -/
structure Kept (s r t : Option Json) : Prop where
  /-- What was changed under a blocked key is as the source has it. -/
  blocked : ∀ p, Unblocked p → IsObj (at? r (keyPath p)) → IsObj (at? t (keyPath p)) → ∀ k,
    isBlockedObjectKey k = true → ∀ q,
    shapeAt (down (at? r (keyPath p)) (.key k)) q ≠ shapeAt (down (at? t (keyPath p)) (.key k)) q →
    Same (at? (down (at? s (keyPath p)) (.key k)) q) (at? (down (at? t (keyPath p)) (.key k)) q)
  edit : ∀ p, Unblocked p → IsObj (at? r (keyPath p)) → IsObj (at? t (keyPath p)) → ∀ k,
    isBlockedObjectKey k = false → EditOk (down (at? s (keyPath p)) (.key k))
      (down (at? r (keyPath p)) (.key k)) (down (at? t (keyPath p)) (.key k))

theorem isObj_some {v : Json} : IsObj (some v) ↔ ∃ fields, v = .obj fields := by
  cases v <;> simp [IsObj, shape]

theorem isObj_obj (fields : Fields) : IsObj (some (.obj fields)) := rfl

theorem not_isObj_none : ¬ IsObj none := by simp [IsObj]

theorem unblocked_cons {k : String} {p : List String} :
    Unblocked (k :: p) ↔ isBlockedObjectKey k = false ∧ Unblocked p := List.forall_mem_cons

theorem unblocked_nil : Unblocked [] := fun _ h => absurd h List.not_mem_nil

variable {v : Option Json}

/-- What lies below a value that is not an object is reached by no keys. -/
theorem not_isObj_below (h : ¬ IsObj v) (k : String) (p : List String) : at? v (keyPath (k :: p)) = none := by
  have hdown : down v (.key k) = none := by
    cases v with
    | none => rfl
    | some v => cases v <;> first | rfl | exact absurd rfl h
  rw [at?_keyPath_cons, hdown, at?_none]

/-! ### One level at a time -/

theorem deletable_iff {r t : Option Json} (hr : IsObj r) (ht : IsObj t) : Deletable r t ↔
    ∀ k, ((down r (.key k)).isSome = true → down t (.key k) = none → k ∉ objectPrototypeKeys) ∧
      Deletable (down r (.key k)) (down t (.key k)) := by
  constructor
  · exact fun h k => ⟨h [] hr ht k, fun p => h (k :: p)⟩
  · intro h p
    cases p with
    | nil => exact fun _ _ k => (h k).1
    | cons k p => exact (h k).2 p

theorem deletable_of_not_isObj {r t : Option Json} (h : ¬ (IsObj r ∧ IsObj t)) : Deletable r t := by
  intro p hr ht
  cases p with
  | nil => exact absurd ⟨hr, ht⟩ h
  | cons k p =>
    rcases not_and_or.mp h with h | h
    · rw [not_isObj_below h] at hr
      exact absurd hr not_isObj_none
    · rw [not_isObj_below h] at ht
      exact absurd ht not_isObj_none

theorem overlays_obj_iff {s : Option Json} {fields : Fields} : Overlays s (some (.obj fields)) ↔
    ∀ k, (isBlockedObjectKey k = true → Same (down s (.key k)) (fields.lookup k)) ∧
      (isBlockedObjectKey k = false →
        ((down s (.key k)).isSome = true → (fields.lookup k).isSome = true) ∧
        ((fields.lookup k).isSome = true → Overlays (down s (.key k)) (fields.lookup k))) := by
  constructor
  · refine fun h k => ⟨h.blocked [] unblocked_nil (isObj_obj _) k, fun hb =>
      ⟨h.covers [] unblocked_nil (isObj_obj _) k hb, fun _ => ⟨fun p hp => ?_, fun p hp => ?_,
        fun p hp => ?_⟩⟩⟩
    · exact h.notNull (k :: p) (unblocked_cons.mpr ⟨hb, hp⟩)
    · exact h.covers (k :: p) (unblocked_cons.mpr ⟨hb, hp⟩)
    · exact h.blocked (k :: p) (unblocked_cons.mpr ⟨hb, hp⟩)
  · -- below a key, if there is something
    have hbelow : ∀ {k p}, at? (some (.obj fields)) (keyPath (k :: p)) ≠ none →
        (fields.lookup k).isSome = true := by
      intro k p hne
      cases hk : fields.lookup k with
      | none => simp [hk] at hne
      | some v => rfl
    intro h
    refine ⟨fun p hp hnull => ?_, fun p hp ho => ?_, fun p hp ho => ?_⟩
    · cases p with
      | nil => cases hnull
      | cons k p =>
        obtain ⟨hb, hp⟩ := unblocked_cons.mp hp
        exact (((h k).2 hb).2 (hbelow (by rw [hnull]; simp))).notNull p hp hnull
    · cases p with
      | nil => exact fun k hb => ((h k).2 hb).1
      | cons k p =>
        obtain ⟨hb, hp⟩ := unblocked_cons.mp hp
        exact (((h k).2 hb).2 (hbelow fun hn => by rw [hn] at ho; exact not_isObj_none ho)).covers p hp ho
    · cases p with
      | nil => exact fun k hb => (h k).1 hb
      | cons k p =>
        obtain ⟨hb, hp⟩ := unblocked_cons.mp hp
        exact (((h k).2 hb).2 (hbelow fun hn => by rw [hn] at ho; exact not_isObj_none ho)).blocked p hp ho

/-- A value that is neither an object nor `null` can be laid over anything. -/
theorem overlays_of_not_isObj {s : Option Json} {v : Json} (h : ¬ IsObj (some v)) (hn : v ≠ .null) :
    Overlays s (some v) := by
  refine ⟨fun p _ hp => ?_, fun p _ ho => ?_, fun p _ ho => ?_⟩ <;> cases p with
  | nil => first | exact hn (some.inj hp) | exact absurd ho h
  | cons k p => first
    | (rw [not_isObj_below h] at hp; cases hp)
    | (rw [not_isObj_below h] at ho; exact absurd ho not_isObj_none)

variable {s r t : Option Json}

theorem kept_iff (hr : IsObj r) (ht : IsObj t) : Kept s r t ↔
    ∀ k, (isBlockedObjectKey k = true → ∀ q,
        shapeAt (down r (.key k)) q ≠ shapeAt (down t (.key k)) q →
        Same (at? (down s (.key k)) q) (at? (down t (.key k)) q)) ∧
      (isBlockedObjectKey k = false →
        EditOk (down s (.key k)) (down r (.key k)) (down t (.key k)) ∧
        Kept (down s (.key k)) (down r (.key k)) (down t (.key k))) := by
  constructor
  · refine fun h k => ⟨h.blocked [] unblocked_nil hr ht k, fun hb =>
      ⟨h.edit [] unblocked_nil hr ht k hb, fun p hp => ?_, fun p hp => ?_⟩⟩
    · exact h.blocked (k :: p) (unblocked_cons.mpr ⟨hb, hp⟩)
    · exact h.edit (k :: p) (unblocked_cons.mpr ⟨hb, hp⟩)
  · refine fun h => ⟨fun p hp => ?_, fun p hp => ?_⟩ <;> cases p with
    | nil => first | exact fun _ _ k => (h k).1 | exact fun _ _ k hb => ((h k).2 hb).1
    | cons k p =>
      obtain ⟨hb, hp⟩ := unblocked_cons.mp hp
      first
      | exact ((h k).2 hb).2.blocked p hp
      | exact ((h k).2 hb).2.edit p hp

theorem kept_of_not_isObj (h : ¬ (IsObj r ∧ IsObj t)) : Kept s r t := by
  have hp : ∀ p, IsObj (at? r (keyPath p)) → IsObj (at? t (keyPath p)) → False := by
    intro p hr ht
    cases p with
    | nil => exact h ⟨hr, ht⟩
    | cons k p =>
      rcases not_and_or.mp h with h | h
      · rw [not_isObj_below h] at hr
        exact not_isObj_none hr
      · rw [not_isObj_below h] at ht
        exact not_isObj_none ht
  exact ⟨fun p _ hr ht => absurd ht fun ht => hp p hr ht, fun p _ hr ht => absurd ht fun ht => hp p hr ht⟩

theorem editOk_of_same (h : Same r t) : EditOk s r t :=
  ⟨fun _ hne => absurd h.shape hne, fun _ _ hn => absurd h hn⟩

theorem kept_of_same (h : Same r t) : Kept s r t :=
  ⟨fun p _ _ _ k _ q hq => absurd (((h.at? (keyPath p)).down (.key k)) q) hq,
    fun p _ _ _ k _ => editOk_of_same ((h.at? (keyPath p)).down (.key k))⟩

theorem keepsSecrets_iff {s r t w : Option Json} : KeepsSecrets s r t w ↔
    ((r.isSome = true → Same r t → Same w s) ∧ (r.map shape ≠ t.map shape → Same w t)) ∧
    ∀ c, KeepsSecrets (down s c) (down r c) (down t c) (down w c) := by
  constructor
  · exact fun h => ⟨⟨h.unchanged [], h.changed []⟩, fun c =>
      ⟨fun p => h.unchanged (c :: p), fun p => h.changed (c :: p)⟩⟩
  · intro h
    refine ⟨fun p => ?_, fun p => ?_⟩ <;> cases p with
    | nil => first | exact h.1.1 | exact h.1.2
    | cons c p => first | exact (h.2 c).unchanged p | exact (h.2 c).changed p

/-- The shape of a value that the step goes down from. -/
def above : Step → Shape
  | .key _ => .obj
  | .index _ => .arr

theorem shape_of_down {c : Step} (h : (down v c).isSome = true) : v.map shape = some (above c) := by
  cases v with
  | none => cases h
  | some v => cases v <;> cases c <;> first | rfl | cases h

theorem isSome_of_at? {p : List Step} (h : (at? v p).isSome = true) : v.isSome = true := by
  cases v with
  | none => rw [at?_none] at h; exact h
  | some v => rfl

theorem keepsSecrets_self : KeepsSecrets s r t s ↔
    ∀ q, shapeAt r q ≠ shapeAt t q → Same (at? s q) (at? t q) :=
  ⟨fun h => h.changed, fun h => ⟨fun _ _ _ => .refl _, h⟩⟩

theorem keepsSecrets_of_same (h : Same r t) : KeepsSecrets s r t s :=
  keepsSecrets_self.mpr fun q hq => absurd (h q) hq

theorem keepsSecrets_edited : KeepsSecrets s r t t ↔
    ∀ p, (at? r p).isSome = true → Same (at? r p) (at? t p) → Same (at? t p) (at? s p) :=
  ⟨fun h => h.unchanged, fun h => ⟨h, fun _ _ => .refl _⟩⟩

/-- A value that was replaced by one of another shape. -/
theorem keepsSecrets_of_shape_ne {s r t w : Option Json} (h : r.map shape ≠ t.map shape) :
    KeepsSecrets s r t w ↔ Same w t := by
  refine ⟨fun hk => hk.changed [] h, fun hw => ⟨fun p hp hs => ?_, fun p _ => hw.at? p⟩⟩
  cases p with
  | nil => exact absurd hs.shape h
  | cons c p =>
    -- the two have nothing below in common
    have hr : (down r c).isSome = true := isSome_of_at? (p := p) hp
    have ht : (down t c).isSome = true := by
      refine isSome_of_at? (p := p) ?_
      have := hs.shape
      rw [at?_cons, at?_cons] at this
      rw [at?_cons] at hp
      rwa [← isSome_map, ← this, isSome_map]
    exact absurd ((shape_of_down hr).trans (shape_of_down ht).symm) h

theorem lookup_fieldsOf (s : Option Json) (k : String) :
    (fieldsOf (asObject s)).lookup k = down s (.key k) := by
  cases s with
  | none => rfl
  | some v => cases v <;> rfl

/-- Laying a value over the source's gives the value just when it can be laid over it. -/
theorem same_applyEntry_iff {s : Option Json} {v : Json} (hv : WF v) :
    Same (applyEntry false s v) (some v) ↔ Overlays s (some v) := by
  induction v using rec_on generalizing s with
  | null =>
    refine iff_of_false (fun h => ?_) fun h => h.notNull [] unblocked_nil rfl
    have := h.shape
    cases this
  | bool b => exact iff_of_true (.refl _) (overlays_of_not_isObj (by simp [IsObj, shape]) (by simp))
  | num n => exact iff_of_true (.refl _) (overlays_of_not_isObj (by simp [IsObj, shape]) (by simp))
  | str s => exact iff_of_true (.refl _) (overlays_of_not_isObj (by simp [IsObj, shape]) (by simp))
  | arr items =>
    exact iff_of_true (.refl _) (overlays_of_not_isObj (by simp [IsObj, shape]) (by simp))
  | obj fields ih =>
    rw [applyEntry, same_obj, overlays_obj_iff]
    refine forall_congr' fun k => ?_
    rw [lookup_applyEntries _ _ _ hv.nodup, lookup_fieldsOf]
    cases hb : isBlockedObjectKey k with
    | true => simp
    | false =>
      cases hk : fields.lookup k with
      | none => simp [same_none]
      | some v => simpa using ih _ (Fields.mem_of_lookup hk) (hv.lookup hk)

/-! ### The patch -/

theorem patchPresent_isSome (a b : Json) :
    (patchPresent a b (createMergePatch a b)).isSome = (createMergePatch a b).isSome := by
  cases a <;> cases b <;> first | rfl | simp only [patchPresent, isSome_map]

/-- The patch can be made just when every key that was deleted can be. -/
theorem createMergePatch_isSome_iff {r t : Json} (hr : WF r) (ht : WF t) :
    (createMergePatch r t).isSome = true ↔ Deletable (some r) (some t) := by
  induction r using rec_on generalizing t with
  | obj fields ih =>
    cases t with
    | obj fields' =>
      rw [createMergePatch_isSome hr.nodup, deletable_iff (isObj_obj _) (isObj_obj _)]
      refine forall_congr' fun k => ?_
      simp only [down_obj_key]
      cases hk : fields.lookup k with
      | none => simp [patchValue, deletable_of_not_isObj, not_isObj_none]
      | some a =>
        cases hk' : fields'.lookup k with
        | none =>
          simp only [patchValue, patchMissing]
          split <;> simp [*, deletable_of_not_isObj, not_isObj_none]
        | some b =>
          have hab := ih _ (Fields.mem_of_lookup hk) (hr.lookup hk) (ht.lookup hk')
          simp only [isSome_some, reduceCtorEq, false_imp_iff, imp_true_iff, true_and, ← hab, patchValue]
          rw [patchPresent_isSome]
    | _ => exact iff_of_true rfl (deletable_of_not_isObj (by simp [IsObj, shape]))
  | _ =>
    refine iff_of_true ?_ (deletable_of_not_isObj (by simp [IsObj, shape]))
    rw [createMergePatch]
    · rfl
    · simp

/-- The patch is empty if nothing was edited. -/
theorem isEmptyObject_of_same {r t patch : Json} (hr : WF r) (ht : WF t) (hro : IsObj (some r))
    (h : createMergePatch r t = some patch) (hs : Same (some r) (some t)) : isEmptyObject patch = true := by
  induction r using rec_on generalizing t patch with
  | obj fields ih =>
    obtain ⟨fields', rfl⟩ := isObj_some.mp (show IsObj (some t) from hs.shape.symm.trans hro)
    obtain ⟨entries, rfl, -⟩ := createMergePatch_obj hr.nodup ht.nodup h
    suffices hnone : ∀ k, entries.lookup k = none by
      cases entries with
      | nil => rfl
      | cons p rest =>
        have := hnone p.1
        rw [Fields.lookup_cons, if_pos rfl] at this
        cases this
    intro k
    have hv := lookup_createMergePatch hr.nodup h k
    have hsk := same_obj.mp hs k
    cases hk : fields.lookup k with
    | none =>
      rw [hk] at hv hsk
      rw [same_none.mp hsk.symm, patchValue, some.injEq] at hv
      exact hv.symm
    | some a =>
      cases hk' : fields'.lookup k with
      | none =>
        rw [hk, hk', same_none] at hsk
        cases hsk
      | some b =>
        rw [hk, hk'] at hv hsk
        by_cases hao : IsObj (some a)
        · obtain ⟨as, rfl⟩ := isObj_some.mp hao
          obtain ⟨bs, rfl⟩ := isObj_some.mp (show IsObj (some b) from hsk.shape.symm.trans hao)
          obtain ⟨child, hc, hv⟩ := map_eq_some_iff.mp hv
          have := ih _ (Fields.mem_of_lookup hk) (hr.lookup hk) (ht.lookup hk') hao hc hsk
          rw [this, if_pos rfl] at hv
          exact hv.symm
        · have hd := (deepEqual_iff (hr.lookup hk) (ht.lookup hk')).mpr hsk
          have hp : patchPresent a b (createMergePatch a b) = some none := by
            cases a with
            | obj as => exact absurd rfl hao
            | _ => simp [patchPresent, hd]
          rw [patchValue, hp, some.injEq] at hv
          exact hv.symm
  | _ => simp [IsObj, shape] at hro

/-! ### What is written -/

/-- What is written of a value, given its patch: an empty one is left out of the patch. -/
def written (s : Option Json) (patch : Json) : Option Json :=
  if isEmptyObject patch then s else some (applyMergePatch false (asObject s) patch)

/-- What is written under a key. -/
theorem down_written (s : Option Json) {entries : Fields} (hnd : (entries.map (·.1)).Nodup)
    (k : String) : down (written s (.obj entries)) (.key k) =
      if isBlockedObjectKey k then down s (.key k)
      else match entries.lookup k with
        | none => down s (.key k)
        | some value => applyEntry false (down s (.key k)) value := by
  cases entries with
  | nil => simp [written, isEmptyObject]
  | cons p rest =>
    have hw : written s (.obj (p :: rest)) =
        some (.obj (applyEntries false (fieldsOf (asObject s)) (p :: rest))) := rfl
    have hlookup := lookup_applyEntries false (fieldsOf (asObject s)) (p :: rest) hnd k
    rw [lookup_fieldsOf] at hlookup
    rw [hw, down_obj_key]
    exact hlookup

/-- What is written under a key that both configs have and that is not an object in both. -/
theorem keepsSecrets_value {s : Option Json} {a b : Json} (ha : WF a) (hb : WF b)
    (ho : ¬ (IsObj (some a) ∧ IsObj (some b))) :
    KeepsSecrets s (some a) (some b)
        (if deepEqual a b then s else applyEntry false s b) ↔ EditOk s (some a) (some b) := by
  by_cases hd : deepEqual a b = true
  · -- not edited
    have hs := (deepEqual_iff ha hb).mp hd
    rw [if_pos hd]
    exact iff_of_true (keepsSecrets_of_same hs) (editOk_of_same hs)
  · have hs : ¬ Same (some a) (some b) := fun hs => hd ((deepEqual_iff ha hb).mpr hs)
    rw [if_neg hd]
    by_cases hne : (some a).map shape = (some b).map shape
    · -- of values of one shape that are not the same only arrays are left
      have harr : (some a).map shape = some .arr := by
        by_contra harr
        have hob : ¬ IsObj (some a) := fun h => ho ⟨h, hne.symm.trans h⟩
        exact hs (same_of_leaf (by simpa using hne) (by simpa [IsObj] using hob) (by simpa using harr))
      have hbarr : (some b).map shape = some .arr := hne.symm.trans harr
      have hwritten : applyEntry false s b = some b := by
        cases b with
        | arr items => rfl
        | _ => simp [shape] at hbarr
      rw [hwritten, keepsSecrets_edited]
      exact ⟨fun h => ⟨fun _ h' => absurd hne h', fun _ _ _ => h⟩, fun h => h.array harr hbarr hs⟩
    · -- a value of another shape is laid over the source's
      rw [keepsSecrets_of_shape_ne hne, same_applyEntry_iff hb]
      refine ⟨fun h => ⟨fun _ _ => h, fun hr ht => absurd (hr.trans ht.symm) hne⟩, fun h => h.put rfl hne⟩

/-- Where both configs have an object, what is written keeps the references just when `Kept`. -/
theorem keepsSecrets_written_iff {r t patch : Json} (hr : WF r) (ht : WF t) (hro : IsObj (some r))
    (hto : IsObj (some t)) (h : createMergePatch r t = some patch) (s : Option Json) :
    KeepsSecrets s (some r) (some t) (written s patch) ↔ Kept s (some r) (some t) := by
  induction r using rec_on generalizing t patch s with
  | obj fields ih =>
    obtain ⟨fields', rfl⟩ := isObj_some.mp hto
    have hempty := isEmptyObject_of_same hr ht hro h
    obtain ⟨entries, rfl, hnd⟩ := createMergePatch_obj hr.nodup ht.nodup h
    rw [keepsSecrets_iff, kept_iff hro hto]
    have hlocal : ((some (Json.obj fields)).isSome = true →
        Same (some (.obj fields)) (some (.obj fields')) → Same (written s (.obj entries)) s) ∧
        ((some (Json.obj fields)).map shape ≠ (some (Json.obj fields')).map shape →
          Same (written s (.obj entries)) (some (.obj fields'))) :=
      ⟨fun _ hs => by rw [written, if_pos (hempty hs)]; exact .refl _, fun hne => absurd rfl hne⟩
    rw [and_iff_right hlocal]
    -- nothing is found by index
    have hkeys : (∀ c, KeepsSecrets (down s c) (down (some (.obj fields)) c)
          (down (some (.obj fields')) c) (down (written s (.obj entries)) c)) ↔
        ∀ k, KeepsSecrets (down s (.key k)) (fields.lookup k) (fields'.lookup k)
          (down (written s (.obj entries)) (.key k)) := by
      refine ⟨fun h k => h (.key k), fun h c => ?_⟩
      cases c with
      | key k => exact h k
      | index i => exact ⟨fun p hp => by simp at hp, fun p hp => by simp [shapeAt] at hp⟩
    rw [hkeys]
    refine forall_congr' fun k => ?_
    have hv := lookup_createMergePatch hr.nodup h k
    rw [down_written s hnd]
    simp only [down_obj_key]
    cases hb : isBlockedObjectKey k with
    | true => simp [keepsSecrets_self]
    | false =>
      simp only [Bool.false_eq_true, false_imp_iff, true_and, if_false, forall_const]
      cases hk : fields.lookup k with
      | none =>
        rw [hk, patchValue, some.injEq] at hv
        rw [← hv, and_iff_left (kept_of_not_isObj fun h => not_isObj_none h.1)]
        cases hk' : fields'.lookup k with
        | none =>
          exact iff_of_true (keepsSecrets_of_same (.refl _))
            ⟨fun h => absurd h (by simp), fun h => absurd h (by simp)⟩
        | some b =>
          rw [keepsSecrets_of_shape_ne (by simp), same_applyEntry_iff (ht.lookup hk')]
          exact ⟨fun h => ⟨fun _ _ => h, fun hr => absurd hr (by simp)⟩, fun h => h.put rfl (by simp)⟩
      | some a =>
        cases hk' : fields'.lookup k with
        | none =>
          -- a key that was deleted is deleted
          rw [hk, hk', patchValue, patchMissing] at hv
          split at hv
          · cases hv
          rw [← some.inj hv, and_iff_left (kept_of_not_isObj fun h => not_isObj_none h.2)]
          exact iff_of_true ((keepsSecrets_of_shape_ne (by simp)).mpr (.refl _))
            ⟨fun h => absurd h (by simp), fun _ h => absurd h (by simp)⟩
        | some b =>
          rw [hk, hk', patchValue] at hv
          have hwa := hr.lookup hk
          have hwb := ht.lookup hk'
          by_cases ho : IsObj (some a) ∧ IsObj (some b)
          · -- an object in both: the patch goes down
            obtain ⟨as, rfl⟩ := isObj_some.mp ho.1
            obtain ⟨bs, rfl⟩ := isObj_some.mp ho.2
            obtain ⟨child, hc, hv⟩ := map_eq_some_iff.mp hv
            have hchild := ih _ (Fields.mem_of_lookup hk) hwa hwb ho.1 ho.2 hc (down s (.key k))
            have hedit : EditOk (down s (.key k)) (some (.obj as)) (some (.obj bs)) :=
              ⟨fun _ hne => absurd rfl hne, fun h => absurd h (by simp [shape])⟩
            rw [and_iff_right hedit, ← hchild, ← hv, written]
            obtain ⟨entries', rfl, -⟩ := createMergePatch_obj hwa.nodup hwb.nodup hc
            by_cases he : isEmptyObject (.obj entries') = true
            · simp only [if_pos he]
            · simp only [if_neg he]
              rfl
          · rw [and_iff_left (kept_of_not_isObj ho), ← keepsSecrets_value hwa hwb ho]
            have hp : patchPresent a b (createMergePatch a b) =
                some (if deepEqual a b then none else some b) := by
              cases a <;> cases b <;> first | rfl | exact absurd ⟨rfl, rfl⟩ ho
            rw [← some.inj (hp.symm.trans hv)]
            by_cases hd : deepEqual a b = true
            · simp only [if_pos hd]
            · simp only [if_neg hd]
  | _ => simp [IsObj, shape] at hro

/-- **An edited runtime config keeps the secret references**: for every source, runtime and
edited config, the config that is written has the source's value wherever nothing was
edited and the edited value wherever something was, just when `Deletable` and `Kept`. -/
theorem projectConfig_keepsSecrets_iff {source runtime cfg : Fields} (hr : WF (.obj runtime))
    (ht : WF (.obj cfg)) :
    (∃ w, projectConfig (.obj source) (.obj runtime) (.obj cfg) = some w ∧
      KeepsSecrets (some (.obj source)) (some (.obj runtime)) (some (.obj cfg)) (some w)) ↔
    Deletable (some (.obj runtime)) (some (.obj cfg)) ∧
      Kept (some (.obj source)) (some (.obj runtime)) (some (.obj cfg)) := by
  have hdel := createMergePatch_isSome_iff hr ht
  cases hp : createMergePatch (.obj runtime) (.obj cfg) with
  | none =>
    rw [hp] at hdel
    simp [projectConfig, hp, ← hdel]
  | some patch =>
    rw [hp] at hdel
    have hkept := keepsSecrets_written_iff hr ht rfl rfl hp (some (.obj source))
    obtain ⟨entries, rfl, -⟩ := createMergePatch_obj hr.nodup ht.nodup hp
    have hw : written (some (.obj source)) (.obj entries) =
        some (coerceConfig (applyMergePatch false (.obj source) (.obj entries))) := by
      cases entries <;> rfl
    rw [and_iff_right (hdel.mp rfl), ← hkept, hw]
    simp [projectConfig, hp]

/-- A reference to an environment variable. -/
def envRef (id : String) : Json :=
  .obj [("source", .str "env"), ("provider", .str "default"), ("id", .str id)]

/-- A config with a model provider. -/
def providerConfig (apiKey : Json) (baseUrl : String) : Fields :=
  [("models", .obj [("apiKey", apiKey), ("baseUrl", .str baseUrl)])]

/-- An edit beside a reference, in an object: the reference is kept. -/
theorem projectConfig_keepsSecrets_object : ∃ w,
    projectConfig (.obj (providerConfig (envRef "KEY") "a")) (.obj (providerConfig (.str "sk") "a"))
      (.obj (providerConfig (.str "sk") "b")) = some w ∧
    KeepsSecrets (some (.obj (providerConfig (envRef "KEY") "a")))
      (some (.obj (providerConfig (.str "sk") "a"))) (some (.obj (providerConfig (.str "sk") "b")))
      (some w) := by
  have hr : WF (.obj (providerConfig (.str "sk") "a")) := by simp [providerConfig, WF, Json.WFFields]
  have ht : WF (.obj (providerConfig (.str "sk") "b")) := by simp [providerConfig, WF, Json.WFFields]
  refine (projectConfig_keepsSecrets_iff hr ht).mpr ⟨(createMergePatch_isSome_iff hr ht).mp rfl, ?_⟩
  rw [kept_iff (isObj_obj _) (isObj_obj _)]
  intro k
  by_cases hk : k = "models"
  · subst hk
    refine ⟨fun hb => absurd hb (by decide), fun _ => ⟨⟨fun _ hne => absurd rfl hne, fun h => (by cases h)⟩, ?_⟩⟩
    refine (kept_iff (isObj_obj _) (isObj_obj _)).mpr fun k => ?_
    by_cases hk : k = "baseUrl"
    · subst hk
      refine ⟨fun hb => absurd hb (by decide), fun _ => ⟨⟨fun _ _ => ?_, fun h => (by cases h)⟩, ?_⟩⟩
      · exact overlays_of_not_isObj (v := .str "b") (by simp [IsObj, shape]) (by simp)
      · exact kept_of_not_isObj (r := some (.str "a")) fun h => by simp [IsObj, shape] at h
    · -- the reference, or nothing
      have hs : down (some (Json.obj [("apiKey", .str "sk"), ("baseUrl", .str "a")])) (.key k) =
          down (some (Json.obj [("apiKey", .str "sk"), ("baseUrl", .str "b")])) (.key k) := by
        simp [Fields.lookup_cons, hk]
      exact ⟨fun _ q hq => absurd (congrArg (shapeAt · q) hs) hq,
        fun _ => ⟨editOk_of_same (hs ▸ .refl _), kept_of_same (hs ▸ .refl _)⟩⟩
  · have hs : down (some (Json.obj (providerConfig (.str "sk") "a"))) (.key k) =
        down (some (Json.obj (providerConfig (.str "sk") "b"))) (.key k) := by
      simp [providerConfig, Fields.lookup_cons, hk]
    exact ⟨fun _ q hq => absurd (congrArg (shapeAt · q) hs) hq,
      fun _ => ⟨editOk_of_same (hs ▸ .refl _), kept_of_same (hs ▸ .refl _)⟩⟩

theorem lookup_singleton {k key : String} {a b v w : Json} (hv : List.lookup k [(key, a)] = some v)
    (hw : List.lookup k [(key, b)] = some w) : v = a ∧ w = b := by
  rw [Fields.lookup_cons] at hv hw
  split at hv
  · rename_i hk
    rw [if_pos hk] at hw
    exact ⟨(some.inj hv).symm, (some.inj hw).symm⟩
  · cases hv

/-- A config with an agent whose memory search uses an API key. -/
def agentConfig (name : String) (apiKey : Json) : Fields :=
  [("agents", .obj [("list", .arr [.obj [("name", .str name), ("apiKey", apiKey)]])])]

/-- An edit beside a reference, in an array: the plaintext is written. -/
theorem projectConfig_array_plaintext :
    Resolved (.obj (agentConfig "a" (envRef "KEY"))) (.obj (agentConfig "a" (.str "sk"))) ∧
    ¬ ∃ w, projectConfig (.obj (agentConfig "a" (envRef "KEY"))) (.obj (agentConfig "a" (.str "sk")))
        (.obj (agentConfig "b" (.str "sk"))) = some w ∧
      KeepsSecrets (some (.obj (agentConfig "a" (envRef "KEY"))))
        (some (.obj (agentConfig "a" (.str "sk")))) (some (.obj (agentConfig "b" (.str "sk"))))
        (some w) := by
  constructor
  · -- the reference is the only difference
    refine .obj rfl fun k v w hv hw => ?_
    obtain ⟨rfl, rfl⟩ := lookup_singleton hv hw
    refine .obj rfl fun k v w hv hw => ?_
    obtain ⟨rfl, rfl⟩ := lookup_singleton hv hw
    refine .arr rfl fun i v w hv hw => ?_
    obtain ⟨rfl, rfl⟩ : v = _ ∧ w = _ := by
      cases i with
      | zero => exact ⟨(some.inj hv).symm, (some.inj hw).symm⟩
      | succ i => cases hv
    refine .obj rfl fun k v w hv hw => ?_
    rw [Fields.lookup_cons] at hv hw
    split at hv
    · rename_i hk
      rw [if_pos hk] at hw
      rw [← some.inj hv, ← some.inj hw]
      exact .same _
    · rename_i hk
      rw [if_neg hk] at hw
      obtain ⟨rfl, rfl⟩ := lookup_singleton hv hw
      exact .secret (by decide) _
  · rintro ⟨w, hw, hk⟩
    have hw' : w = .obj (agentConfig "b" (.str "sk")) := (some.inj hw).symm
    subst hw'
    have := (hk.unchanged [.key "agents", .key "list", .index 0, .key "apiKey"] rfl (.refl _)).shape
    cases this

end Foxclaw.Config.MergePatch
