import Foxclaw.Config.SecretWrite

/-!
# From one config to another by a merge patch

The patch that `createMergePatch` makes of a config and the config it is to become is
applied by `applyMergePatch`, and gives that config: keys are deleted by `null`, arrays and
values of different shapes are put in as a whole, objects are gone into.

A key that is only in `base` is looked up with `key in target`, which also finds what
`target` inherits. One named like a member of `Object.prototype` is so never deleted: the
inherited function is taken for the value of the target, and cannot be cloned.

## What is proved

* `overlays_of_patchable` — what is put in can be laid over what is there.
* `same_written` — the patch, if it can be made, gives the target.
* `applyMergePatch_createMergePatch_iff` — the round trip, just when `Deletable`.
-/

namespace Foxclaw.Config.MergePatch

open Json Option
open Json (Fields Step Same WF at? down shape deepEqual)

/-- No object has a `null` value, and no key is blocked. -/
def Patchable (v : Json) : Prop :=
  ∀ (p : List Step) (k : String) (w : Json), down (at? (some v) p) (.key k) = some w →
    w ≠ .null ∧ isBlockedObjectKey k = false

variable {fields : Fields} {k : String}

theorem Patchable.lookup (h : Patchable (.obj fields)) {v : Json}
    (hv : fields.lookup k = some v) : Patchable v := by
  intro p k' w hw
  refine h (.key k :: p) k' w ?_
  rw [at?_cons, down_obj_key, hv]
  exact hw

theorem Patchable.ne_null (h : Patchable (.obj fields)) {v : Json}
    (hv : fields.lookup k = some v) : v ≠ .null := (h [] k v hv).1

/-- A blocked key is not there. -/
theorem Patchable.lookup_blocked (h : Patchable (.obj fields))
    (hk : isBlockedObjectKey k = true) : fields.lookup k = none := by
  cases hv : fields.lookup k with
  | none => rfl
  | some v =>
    have := (h [] k v hv).2
    rw [hk] at this
    cases this

theorem patchable_of_forall (h : ∀ p ∈ fields, p.2 ≠ .null ∧ isBlockedObjectKey p.1 = false ∧ Patchable p.2) :
    Patchable (.obj fields) := by
  intro p k w hw
  cases p with
  | nil => exact ⟨(h _ (Fields.mem_of_lookup hw)).1, (h _ (Fields.mem_of_lookup hw)).2.1⟩
  | cons c p =>
    rw [at?_cons] at hw
    cases hc : down (some (.obj fields)) c with
    | none => simp [hc] at hw
    | some v =>
      cases c with
      | index i => cases hc
      | key k' =>
        rw [hc] at hw
        exact (h _ (Fields.mem_of_lookup hc)).2.2 p k w hw

theorem patchable_num (n : ℚ) : Patchable (.num n) := by
  intro p k w hw
  cases p with
  | nil => cases hw
  | cons c p => cases c <;> simp [at?_cons, down, Json.child] at hw

variable {v : Option Json} {p : List String}

theorem isObj_of_isSome_below (h : (at? v (keyPath (k :: p))).isSome = true) : IsObj v := by
  by_contra hno
  rw [not_isObj_below hno] at h
  cases h

theorem down_at?_keyPath (v : Option Json) (p : List String) (k : String) :
    down (at? v (keyPath p)) (.key k) = at? v (keyPath (p ++ [k])) := by
  simp [keyPath, at?_append]

theorem isObj_of_isSome_down (h : (down (at? v (keyPath p)) (.key k)).isSome = true) : IsObj v := by
  rw [down_at?_keyPath] at h
  cases p with
  | nil => exact isObj_of_isSome_below h
  | cons k' p => exact isObj_of_isSome_below h

theorem isObj_of_isObj_at (h : IsObj (at? v (keyPath p))) : IsObj v := by
  cases p with
  | nil => exact h
  | cons k p =>
    refine isObj_of_isSome_below (k := k) (p := p) ?_
    cases hv : at? v (keyPath (k :: p)) with
    | none =>
      rw [hv] at h
      exact absurd h not_isObj_none
    | some w => rfl

/-- A value that is put in where there are not objects on both sides. -/
theorem overlays_of_patchable {s : Option Json} {v : Json} (ho : ¬ (IsObj s ∧ IsObj (some v)))
    (hv : Patchable v) (hn : v ≠ .null) : Overlays s (some v) := by
  -- nothing is below both
  have hs : ∀ p k, IsObj (at? (some v) (keyPath p)) → down (at? s (keyPath p)) (.key k) = none := by
    intro p k hvo
    cases hd : down (at? s (keyPath p)) (.key k) with
    | none => rfl
    | some w =>
      have hso : IsObj s := isObj_of_isSome_down (p := p) (k := k) (by rw [hd]; rfl)
      exact absurd ⟨hso, isObj_of_isObj_at hvo⟩ ho
  refine ⟨fun p _ hp => ?_, fun p _ hvo k _ hk => ?_, fun p _ hvo k hb => ?_⟩
  · rcases List.eq_nil_or_concat p with rfl | ⟨q, k, rfl⟩
    · exact hn (some.inj hp)
    · rw [List.concat_eq_append, ← down_at?_keyPath] at hp
      exact (hv (keyPath q) k .null hp).1 rfl
  · rw [hs p k hvo] at hk
    cases hk
  · rw [hs p k hvo]
    cases hd : down (at? (some v) (keyPath p)) (.key k) with
    | none => exact .refl _
    | some w =>
      have := (hv (keyPath p) k w hd).2
      rw [hb] at this
      cases this

/-- The value of a key that both have and that is not an object in both. -/
theorem same_value {a b : Json} (ha : WF a) (hb : WF b) (hpb : Patchable b) (hn : b ≠ .null)
    (ho : ¬ (IsObj (some a) ∧ IsObj (some b))) :
    Same (if deepEqual a b then some a else applyEntry false (some a) b) (some b) := by
  by_cases hd : deepEqual a b = true
  · rw [if_pos hd]
    exact (deepEqual_iff ha hb).mp hd
  · rw [if_neg hd]
    exact (same_applyEntry_iff hb).mpr (overlays_of_patchable ho hpb hn)

/-- The patch, if it can be made, gives the target. -/
theorem same_written {base target patch : Json} (hb : WF base) (ht : WF target) (hpb : Patchable base)
    (hpt : Patchable target) (hbo : IsObj (some base)) (hto : IsObj (some target))
    (h : createMergePatch base target = some patch) : Same (written (some base) patch) (some target) := by
  induction base using rec_on generalizing target patch with
  | obj fields ih =>
    obtain ⟨fields', rfl⟩ := isObj_some.mp hto
    obtain ⟨entries, rfl, hnd⟩ := createMergePatch_obj hb.nodup ht.nodup h
    have hshape : (written (some (.obj fields)) (.obj entries)).map shape = some .obj := by
      cases entries <;> rfl
    refine same_iff.mpr ⟨hshape, fun c => ?_⟩
    cases c with
    | index i =>
      obtain ⟨fields'', hw⟩ : ∃ fields'', written (some (.obj fields)) (.obj entries) =
          some (.obj fields'') := by
        cases entries <;> exact ⟨_, rfl⟩
      rw [hw]
      exact .refl _
    | key k =>
      have hv := lookup_createMergePatch hb.nodup h k
      rw [down_written _ hnd]
      simp only [down_obj_key]
      cases hk : isBlockedObjectKey k with
      | true =>
        rw [hpb.lookup_blocked hk, hpt.lookup_blocked hk]
        exact .refl _
      | false =>
        rw [if_neg (by simp)]
        cases hkb : fields.lookup k with
        | none =>
          rw [hkb, patchValue, some.injEq] at hv
          rw [← hv]
          cases hkt : fields'.lookup k with
          | none => exact .refl _
          | some b =>
            -- a key that was added
            exact (same_applyEntry_iff (ht.lookup hkt)).mpr
              (overlays_of_patchable (fun h => not_isObj_none h.1) (hpt.lookup hkt) (hpt.ne_null hkt))
        | some a =>
          cases hkt : fields'.lookup k with
          | none =>
            -- a key that was deleted
            rw [hkb, hkt, patchValue, patchMissing] at hv
            obtain ⟨-, hv⟩ := ite_none_left_eq_some.mp hv
            rw [← some.inj hv]
            exact .refl _
          | some b =>
            rw [hkb, hkt, patchValue] at hv
            have hwa := hb.lookup hkb
            have hwb := ht.lookup hkt
            by_cases ho : IsObj (some a) ∧ IsObj (some b)
            · -- an object in both: the patch goes down
              obtain ⟨as, rfl⟩ := isObj_some.mp ho.1
              obtain ⟨bs, rfl⟩ := isObj_some.mp ho.2
              obtain ⟨child, hc, hv⟩ := map_eq_some_iff.mp hv
              have hchild := ih _ (Fields.mem_of_lookup hkb) hwa hwb (hpb.lookup hkb)
                (hpt.lookup hkt) ho.1 ho.2 hc
              obtain ⟨entries', rfl, -⟩ := createMergePatch_obj hwa.nodup hwb.nodup hc
              rw [written] at hchild
              rw [← hv]
              by_cases he : isEmptyObject (.obj entries') = true
              · rw [if_pos he] at hchild ⊢
                exact hchild
              · rw [if_neg he] at hchild ⊢
                exact hchild
            · have hp : patchPresent a b (createMergePatch a b) =
                  some (if deepEqual a b then none else some b) := by
                cases a <;> cases b <;> first | rfl | exact absurd ⟨rfl, rfl⟩ ho
              have hval := same_value hwa hwb (hpt.lookup hkt) (hpt.ne_null hkt) ho
              rw [← some.inj (hp.symm.trans hv)]
              by_cases hd : deepEqual a b = true
              · rw [if_pos hd] at hval ⊢
                exact hval
              · rw [if_neg hd] at hval ⊢
                exact hval
  | _ => simp [IsObj, shape] at hbo

/-- **The patch from one config to another leads there**: it can be made, and applied to the
one gives the other, just when no key that is to be deleted, at any depth, is named like a
member of `Object.prototype`. -/
theorem applyMergePatch_createMergePatch_iff {base target : Fields} (hb : WF (.obj base))
    (ht : WF (.obj target)) (hpb : Patchable (.obj base)) (hpt : Patchable (.obj target)) :
    (∃ patch, createMergePatch (.obj base) (.obj target) = some patch ∧
      Same (some (applyMergePatch false (.obj base) patch)) (some (.obj target))) ↔
    Deletable (some (.obj base)) (some (.obj target)) := by
  rw [← createMergePatch_isSome_iff hb ht, isSome_iff_exists]
  refine exists_congr fun patch => and_iff_left_of_imp fun hp => ?_
  obtain ⟨entries, rfl, -⟩ := createMergePatch_obj hb.nodup ht.nodup hp
  have hw : written (some (.obj base)) (.obj entries) =
      some (applyMergePatch false (.obj base) (.obj entries)) := by
    cases entries <;> rfl
  rw [← hw]
  exact same_written hb ht hpb hpt rfl rfl hp

/-- A key is added, and an object becomes a number. -/
theorem applyMergePatch_createMergePatch_object : ∃ patch,
    createMergePatch (.obj [("a", .obj [("b", .num 1)])]) (.obj [("a", .num 2), ("c", .obj [])]) =
      some patch ∧
    Same (some (applyMergePatch false (.obj [("a", .obj [("b", .num 1)])]) patch))
      (some (.obj [("a", .num 2), ("c", .obj [])])) := by
  have hb : WF (.obj [("a", .obj [("b", .num 1)])]) := by simp [WF, Json.WFFields]
  have ht : WF (.obj [("a", .num 2), ("c", .obj [])]) := by simp [WF, Json.WFFields]
  have hnil : Patchable (.obj []) := patchable_of_forall (by simp)
  have hin : Patchable (.obj [("b", .num 1)]) :=
    patchable_of_forall (by simp [isBlockedObjectKey, patchable_num])
  refine (applyMergePatch_createMergePatch_iff hb ht (patchable_of_forall ?_)
    (patchable_of_forall ?_)).mpr ((createMergePatch_isSome_iff hb ht).mp rfl)
  · simp [isBlockedObjectKey, hin]
  · simp [isBlockedObjectKey, patchable_num, hnil]

/-- A key named `toString` is not deleted. -/
theorem createMergePatch_toString :
    WF (.obj [("toString", .num 1)]) ∧ Patchable (.obj [("toString", .num 1)]) ∧
    ¬ ∃ patch, createMergePatch (.obj [("toString", .num 1)]) (.obj []) = some patch ∧
      Same (some (applyMergePatch false (.obj [("toString", .num 1)]) patch)) (some (.obj [])) := by
  refine ⟨by simp [WF, Json.WFFields], patchable_of_forall ?_, ?_⟩
  · simp [isBlockedObjectKey, patchable_num]
  · rintro ⟨patch, hp, -⟩
    cases hp

end Foxclaw.Config.MergePatch
