import Foxclaw.Config.Redact

/-!
# Restoring a redacted config

What `redactConfigObject` hides `restoreRedactedValues` puts back from the original. The two
walk a config by the same paths, and in guessing and for whole values they decide by the same
tests. They part at one place: of a secret reference at a path that a hint marks sensitive
the redaction hides the `id` (`redactSecretRefId`), but the restoration comes to the `id` as
to any other property, and puts it back only if the path of the `id` is itself in the lookup
or is taken for a secret by its name (`isIdRestored`).

## What is proved

* `restoreRedactedValuesGuessing_redact` — the round trip by guessing.
* `restoreRedactedValues_redactConfigObject_iff` — the round trip gives the config back
  just when every redacted reference has its `id` restored (`redactedRefs`).
-/

namespace Foxclaw.Config

open List
open Json (Fields WF)

mutual
/-- No string of the value is the sentinel. -/
def SentinelFree : Json → Prop
  | .str s => s ≠ redactedSentinel
  | .arr items => SentinelFreeItems items
  | .obj fields => SentinelFreeFields fields
  | _ => True
/-- `SentinelFree` of each item. -/
def SentinelFreeItems : List Json → Prop
  | [] => True
  | item :: rest => SentinelFree item ∧ SentinelFreeItems rest
/-- `SentinelFree` of each property. -/
def SentinelFreeFields : Fields → Prop
  | [] => True
  | p :: rest => SentinelFree p.2 ∧ SentinelFreeFields rest
end

theorem SentinelFree.isSentinel {v : Json} (h : SentinelFree v) : isSentinel v = false := by
  cases v with
  | str s => simpa [Config.isSentinel, SentinelFree] using h
  | _ => rfl

/-- The original has the properties: all of them under their keys. -/
def HasFields (original fields : Fields) : Prop := ∀ p ∈ fields, original.lookup p.1 = some p.2

theorem hasFields_self {fields : Fields} (h : WF (.obj fields)) : HasFields fields fields :=
  fun _ hp => Fields.lookup_of_mem h.nodup hp

theorem hasFields_cons {original rest : Fields} {key : String} {value : Json} :
    HasFields original ((key, value) :: rest) ↔
      original.lookup key = some value ∧ HasFields original rest := forall_mem_cons

/-! ### Values without the sentinel -/

/-- Restoring changes nothing in a value without the sentinel, by guessing. -/
theorem restoreRedactedValuesGuessing_of_free (hints : Option UiHints) {v : Json} (hv : SentinelFree v)
    (original : Option Json) (base : String) :
    restoreRedactedValuesGuessing hints v original base = .ok v := by
  induction v using Json.rec_on generalizing original base with
  | arr items ih =>
    rw [restoreRedactedValuesGuessing]
    suffices h : ∀ original path, restoreItemsGuessing hints items original path = .ok items by
      rw [h]; rfl
    rw [SentinelFree] at hv
    intro original path
    induction items generalizing original with
    | nil => rw [restoreItemsGuessing]
    | cons item rest ihr =>
      obtain ⟨hi, hrest⟩ := hv
      rw [restoreItemsGuessing, hi.isSentinel, Bool.and_false, if_neg Bool.false_ne_true,
        ih item mem_cons_self hi, ihr (fun v hm => ih v (mem_cons_of_mem _ hm)) hrest]
      rfl
  | obj fields ih =>
    rw [restoreRedactedValuesGuessing]
    suffices h : ∀ original, restoreFieldsGuessing hints fields original base = .ok fields by
      rw [h]; rfl
    rw [SentinelFree] at hv
    intro original
    induction fields with
    | nil => rw [restoreFieldsGuessing]
    | cons p rest ihr =>
      obtain ⟨key, value⟩ := p
      obtain ⟨hi, hrest⟩ := hv
      rw [restoreFieldsGuessing, hi.isSentinel, Bool.and_false, if_neg Bool.false_ne_true,
        ih (key, value) mem_cons_self hi, ihr (fun v hm => ih v (mem_cons_of_mem _ hm)) hrest]
      rfl
  | _ => rfl

variable (hints : UiHints)

/-- Restoring changes nothing in a value without the sentinel, with the lookup. -/
theorem restoreRedactedValuesWithLookup_of_free (lookup : List String) {v : Json}
    (hv : SentinelFree v) (original : Option Json) (base : String) :
    restoreRedactedValuesWithLookup hints lookup v original base = .ok v := by
  induction v using Json.rec_on generalizing original base with
  | arr items ih =>
    rw [restoreRedactedValuesWithLookup]
    split
    · suffices h : ∀ original path, restoreItemsWithLookup hints lookup items original path = .ok items by
        rw [h]; rfl
      rw [SentinelFree] at hv
      intro original path
      induction items generalizing original with
      | nil => rw [restoreItemsWithLookup]
      | cons item rest ihr =>
        obtain ⟨hi, hrest⟩ := hv
        rw [restoreItemsWithLookup, hi.isSentinel, if_neg Bool.false_ne_true,
          ih item mem_cons_self hi, ihr (fun v hm => ih v (mem_cons_of_mem _ hm)) hrest]
        rfl
    · exact restoreRedactedValuesGuessing_of_free _ hv _ _
  | obj fields ih =>
    rw [restoreRedactedValuesWithLookup]
    suffices h : ∀ original, restoreFieldsWithLookup hints lookup fields original base = .ok fields by
      rw [h]; rfl
    rw [SentinelFree] at hv
    intro original
    induction fields with
    | nil => rw [restoreFieldsWithLookup]
    | cons p rest ihr =>
      obtain ⟨key, value⟩ := p
      obtain ⟨hi, hrest⟩ := hv
      rw [restoreFieldsWithLookup, ihr (fun v hm => ih v (mem_cons_of_mem _ hm)) hrest]
      cases candidate? lookup base key with
      | none =>
        simp only [hi.isSentinel, Bool.and_false, Bool.false_eq_true, if_false,
          restoreRedactedValuesGuessing_of_free hints hi]
        rfl
      | some candidate =>
        simp only [hi.isSentinel, Bool.false_eq_true, if_false, ih (key, value) mem_cons_self hi]
        rfl
  | _ => rfl

/-! ### By guessing -/

theorem isSentinel_redactObjectGuessing (hints : Option UiHints) (v : Json) (base : String) :
    isSentinel (redactObjectGuessing hints v base).1 = isSentinel v := by
  cases v <;> rfl

theorem isSentinel_redactString (s : String) : isSentinel (redactString s).1 = true := by
  simp [redactString, isSentinel]

/-- The round trip by guessing. -/
theorem restoreRedactedValuesGuessing_redact (hints : Option UiHints) {v : Json} (hw : WF v)
    (hv : SentinelFree v) (base : String) :
    restoreRedactedValuesGuessing hints (redactObjectGuessing hints v base).1 (some v) base = .ok v := by
  induction v using Json.rec_on generalizing base with
  | arr items ih =>
    suffices h : ∀ path, restoreItemsGuessing hints (redactItemsGuessing hints items path).1 items path =
        .ok items by
      rw [redactObjectGuessing, restoreRedactedValuesGuessing, originalItems, h]
      rfl
    rw [SentinelFree] at hv
    rw [WF] at hw
    intro path
    induction items with
    | nil => rw [redactItemsGuessing, restoreItemsGuessing]
    | cons item rest ihr =>
      obtain ⟨hi, hrest⟩ := hv
      obtain ⟨hwi, hwrest⟩ := hw
      have hr := ihr (fun v hm => ih v (mem_cons_of_mem _ hm)) hwrest hrest
      rw [redactItemsGuessing, restoreItemsGuessing, tail_cons, hr]
      have hhead := ih item mem_cons_self hwi hi path
      cases hg : isGuessedItem hints path with
      | false =>
        simp only [Bool.false_and, Bool.false_eq_true, if_false, head?_cons, hhead]
        rfl
      | true =>
        cases hs : secretString? item with
        | none =>
          simp only [Bool.true_and, if_true, isSentinel_redactObjectGuessing, hi.isSentinel,
            Bool.false_eq_true, if_false, head?_cons, hhead]
          rfl
        | some s =>
          simp only [Bool.true_and, if_true, isSentinel_redactString, head?_cons]
          rfl
  | obj fields ih =>
    suffices h : ∀ original, HasFields original fields →
        restoreFieldsGuessing hints (redactFieldsGuessing hints fields base).1 original base =
          .ok fields by
      rw [redactObjectGuessing, restoreRedactedValuesGuessing, toObjectRecord, h _ (hasFields_self hw)]
      rfl
    rw [SentinelFree] at hv
    rw [WF] at hw
    obtain ⟨-, -, hw⟩ := hw
    intro original horig
    induction fields with
    | nil => rw [redactFieldsGuessing, restoreFieldsGuessing]
    | cons p rest ihr =>
      obtain ⟨key, value⟩ := p
      obtain ⟨hi, hrest⟩ := hv
      obtain ⟨hwi, hwrest⟩ := hw
      obtain ⟨hkey, horig⟩ := hasFields_cons.mp horig
      have hr := ihr (fun v hm => ih v (mem_cons_of_mem _ hm)) hrest hwrest horig
      have hvalue := ih (key, value) mem_cons_self hwi hi (joinPath base key)
      rw [redactFieldsGuessing, restoreFieldsGuessing, hr]
      cases hg : isGuessed hints base key with
      | false =>
        simp only [Bool.false_and, Bool.false_eq_true, if_false, hkey, hvalue]
        rfl
      | true =>
        cases hs : secretString? value with
        | some s =>
          simp only [Bool.true_and, if_true, isSentinel_redactString, restoreOriginalValueOrThrow, hkey]
          rfl
        | none =>
          simp only [Bool.true_and, if_true, redactGuessed]
          split
          · -- an object that is redacted as a whole
            have : isSentinel (.str redactedSentinel) = true := by simp [isSentinel]
            simp only [this, if_true, restoreOriginalValueOrThrow, hkey]
            rfl
          · simp only [isSentinel_redactObjectGuessing, hi.isSentinel, Bool.false_eq_true, if_false,
              hkey, hvalue]
            rfl
  | _ => rfl

/-! ### With the lookup -/

/-- The references below a value that the redaction hides by their `id`, each with the path
that a hint marks sensitive: those whose `id` is no placeholder. -/
def refOfMarked (value : Json) (candidate : String) : List (String × Fields) :=
  match value with
  | .obj fields =>
      if isSecretRefShape fields && (textOf fields "id").any fun id => !isEnvVarPlaceholder id then
        [(candidate, fields)]
      else []
  | _ => []

mutual
/-- The references of a config that the redaction hides by their `id`. -/
def redactedRefs (hints : UiHints) (lookup : List String) : Json → String → List (String × Fields)
  | .arr items, base => if itemPath base ∈ lookup then refsOfItems hints lookup items (itemPath base) else []
  | .obj fields, base => refsOfFields hints lookup fields base
  | _, _ => []
/-- Those of the items of an array. -/
def refsOfItems (hints : UiHints) (lookup : List String) : List Json → String → List (String × Fields)
  | [], _ => []
  | item :: rest, path => redactedRefs hints lookup item path ++ refsOfItems hints lookup rest path
/-- Those of the properties of an object. -/
def refsOfFields (hints : UiHints) (lookup : List String) : Fields → String → List (String × Fields)
  | [], _ => []
  | (key, value) :: rest, base =>
      (match candidate? lookup base key with
        | some candidate =>
            if hints.marks candidate true && isObject value then refOfMarked value candidate
            else redactedRefs hints lookup value candidate
        | none => []) ++ refsOfFields hints lookup rest base
end

/-- Is the `id` of a reference at the path put back? -/
def isIdRestored (lookup : List String) (path : String) : Bool :=
  (candidate? lookup path "id").isSome || isGuessed (some hints) path "id"

/-- Something is restored, and it is `v` just when `C`. -/
def Restores {α : Type} (r : Except RestoreError α) (v : α) (C : Prop) : Prop :=
  ∃ w, r = .ok w ∧ (w = v ↔ C)

theorem restores_of_eq {α : Type} {r : Except RestoreError α} {v : α} {C : Prop} (h : r = .ok v)
    (hC : C) : Restores r v C := ⟨v, h, iff_of_true rfl hC⟩

theorem Restores.map {α β : Type} {r : Except RestoreError α} {v : α} {C : Prop} {f : α → β}
    (h : Restores r v C) (hf : Function.Injective f) : Restores (r.map f) (f v) C := by
  obtain ⟨w, rfl, hw⟩ := h
  exact ⟨f w, rfl, hf.eq_iff.trans hw⟩

/-- An item or property restored, and then the rest. -/
theorem Restores.cons {α β : Type} {r : Except RestoreError α} {rs : Except RestoreError (List β)}
    {v : α} {vs : List β} {C D : Prop} {f : α → β} (h : Restores r v C) (hs : Restores rs vs D)
    (hf : Function.Injective f) :
    Restores (r.bind fun w => rs.bind fun ws => .ok (f w :: ws)) (f v :: vs) (C ∧ D) := by
  obtain ⟨w, rfl, hw⟩ := h
  obtain ⟨ws, rfl, hws⟩ := hs
  exact ⟨f w :: ws, rfl, by rw [List.cons.injEq, hf.eq_iff, hw, hws]⟩

theorem isSentinel_redactObjectWithLookup (lookup : List String) (v : Json)
    (base : String) : isSentinel (redactObjectWithLookup hints lookup v base).1 = isSentinel v := by
  cases v with
  | arr items =>
    rw [redactObjectWithLookup]
    split <;> rfl
  | _ => rfl

theorem restoreFieldsWithLookup_of_free (lookup : List String) {fields : Fields}
    (h : SentinelFreeFields fields) (original : Fields) (base : String) :
    restoreFieldsWithLookup hints lookup fields original base = .ok fields := by
  have := restoreRedactedValuesWithLookup_of_free hints lookup (v := .obj fields)
    (by rwa [SentinelFree]) (some (.obj original)) base
  rw [restoreRedactedValuesWithLookup, toObjectRecord] at this
  cases hr : restoreFieldsWithLookup hints lookup fields original base with
  | error e => rw [hr] at this; cases this
  | ok ws =>
    rw [hr] at this
    rw [Json.obj.inj (Except.ok.inj this)]

/-- The properties of a reference whose `id` is hidden: the `id` is put back just when
`isIdRestored`. -/
theorem restoreFields_ref (lookup : List String) {original fields : Fields}
    (horig : HasFields original fields) (hnd : (fields.map (·.1)).Nodup)
    (hv : SentinelFreeFields fields) (hid : "id" ∈ fields.map (·.1)) (path : String) :
    Restores (restoreFieldsWithLookup hints lookup (fields.set "id" (.str redactedSentinel)) original path)
      fields (isIdRestored hints lookup path = true) := by
  induction fields with
  | nil => cases hid
  | cons p rest ih =>
    obtain ⟨key, value⟩ := p
    obtain ⟨hi, hrest⟩ := hv
    rw [map_cons, nodup_cons] at hnd
    obtain ⟨hkey, horig⟩ := hasFields_cons.mp horig
    have hinj : Function.Injective fun v : Json => (key, v) := fun _ _ h => (Prod.mk.inj h).2
    rw [Fields.set]
    split
    · -- the `id`
      rename_i hk
      obtain rfl : key = "id" := hk
      have hsent : isSentinel (.str redactedSentinel) = true := by simp [isSentinel]
      have htail := restores_of_eq (restoreFieldsWithLookup_of_free hints lookup hrest original path) trivial
      rw [restoreFieldsWithLookup]
      rw [← and_true (isIdRestored hints lookup path = true)]
      refine Restores.cons ?_ htail hinj
      cases hc : candidate? lookup path "id" with
      | some candidate =>
        exact restores_of_eq (by simp [hsent, restoreOriginalValueOrThrow, hkey]) (by simp [isIdRestored, hc])
      | none =>
        cases hg : isGuessed (some hints) path "id" with
        | true =>
          exact restores_of_eq (by simp [hsent, restoreOriginalValueOrThrow, hkey])
            (by simp [isIdRestored, hg])
        | false =>
          refine ⟨.str redactedSentinel, by simp [restoreRedactedValuesGuessing], ?_⟩
          refine iff_of_false (fun h => ?_) (by simp [isIdRestored, hc, hg])
          have := hi.isSentinel
          rw [← h, hsent] at this
          cases this
    · -- another property has no sentinel
      rename_i hk
      have hid' : "id" ∈ rest.map (·.1) := (mem_cons.mp hid).resolve_left (Ne.symm hk)
      rw [restoreFieldsWithLookup, ← true_and (isIdRestored hints lookup path = true)]
      refine Restores.cons ?_ (ih horig hnd.2 hrest hid') hinj
      refine restores_of_eq ?_ trivial
      cases candidate? lookup path key with
      | some candidate =>
        simp only [hi.isSentinel, Bool.false_eq_true, if_false]
        exact restoreRedactedValuesWithLookup_of_free hints lookup hi _ _
      | none =>
        simp only [hi.isSentinel, Bool.and_false, Bool.false_eq_true, if_false]
        exact restoreRedactedValuesGuessing_of_free _ hi _ _

theorem eq_str_of_secretString? {v : Json} {s : String} (h : secretString? v = some s) : v = .str s := by
  cases v <;> simp only [secretString?, reduceCtorEq] at h
  split at h
  · cases h
  · rw [Option.some.inj h]

theorem forall_mem_nil {hints : UiHints} {lookup : List String} {refs : List (String × Fields)}
    (h : refs = []) : ∀ ref ∈ refs, isIdRestored hints lookup ref.1 = true := by
  rw [h]
  exact fun _ h => absurd h not_mem_nil

/-- What is restored below a path that a hint marks sensitive. -/
theorem restores_marked (lookup : List String) {original : Fields} {key : String}
    {value : Json} (hkey : original.lookup key = some value) (hw : WF value) (hv : SentinelFree value)
    (candidate : String)
    (ih : Restores (restoreRedactedValuesWithLookup hints lookup
        (redactObjectWithLookup hints lookup value candidate).1 (some value) candidate) value
      (∀ ref ∈ redactedRefs hints lookup value candidate, isIdRestored hints lookup ref.1 = true)) :
    let r := (redactMarked value (redactObjectWithLookup hints lookup value candidate)).1
    Restores (if isSentinel r then restoreOriginalValueOrThrow key candidate original
        else restoreRedactedValuesWithLookup hints lookup r (some value) candidate) value
      (∀ ref ∈ (if isObject value then refOfMarked value candidate
        else redactedRefs hints lookup value candidate), isIdRestored hints lookup ref.1 = true) := by
  have hsent : isSentinel (.str redactedSentinel) = true := by simp [isSentinel]
  have horiginal : restoreOriginalValueOrThrow key candidate original = .ok value := by
    rw [restoreOriginalValueOrThrow, hkey]
  -- where the walk goes on, the value is not the sentinel
  have hinner : Restores (if isSentinel (redactObjectWithLookup hints lookup value candidate).1 then
        restoreOriginalValueOrThrow key candidate original
      else restoreRedactedValuesWithLookup hints lookup
        (redactObjectWithLookup hints lookup value candidate).1 (some value) candidate) value
      (∀ ref ∈ redactedRefs hints lookup value candidate, isIdRestored hints lookup ref.1 = true) := by
    rw [isSentinel_redactObjectWithLookup, hv.isSentinel, if_neg Bool.false_ne_true]
    exact ih
  cases value with
  | obj fields =>
    simp only [redactMarked, isObject, if_true, refOfMarked]
    rw [SentinelFree] at hv
    by_cases hshape : isSecretRefShape fields = true
    · simp only [hshape, if_true, Bool.true_and, redactSecretRefId]
      obtain ⟨id, hid⟩ := Option.isSome_iff_exists.mp (Bool.and_eq_true_iff.mp hshape).2
      rw [hid, Option.any_some, Option.filter_some]
      cases hp : isEnvVarPlaceholder id with
      | true =>
        -- a placeholder is not hidden
        simp only [Bool.not_true, Bool.false_eq_true, if_false]
        refine restores_of_eq ?_ (forall_mem_nil rfl)
        rw [show isSentinel (.obj fields) = false from rfl, if_neg Bool.false_ne_true]
        exact restoreRedactedValuesWithLookup_of_free hints lookup (by rwa [SentinelFree]) _ _
      | false =>
        simp only [Bool.not_false, if_true, forall_mem_singleton]
        have hmem : "id" ∈ fields.map (·.1) := by
          rw [← Fields.lookup_isSome]
          rw [textOf] at hid
          cases hl : fields.lookup "id" with
          | none => rw [hl] at hid; cases hid
          | some v => rfl
        rw [show isSentinel (.obj (Fields.set fields "id" (.str redactedSentinel))) = false from rfl,
          if_neg Bool.false_ne_true, restoreRedactedValuesWithLookup]
        exact (restoreFields_ref hints lookup (hasFields_self hw) hw.nodup hv hmem candidate).map
          fun _ _ h => Json.obj.inj h
    · rw [Bool.not_eq_true] at hshape
      simp only [hshape, Bool.false_eq_true, if_false, hsent, if_true, Bool.false_and]
      exact restores_of_eq horiginal (forall_mem_nil rfl)
  | bool b =>
    simp only [redactMarked, hsent, if_true]
    exact restores_of_eq horiginal (forall_mem_nil rfl)
  | num n =>
    simp only [redactMarked, hsent, if_true]
    exact restores_of_eq horiginal (forall_mem_nil rfl)
  | str s =>
    -- a placeholder
    simp only [redactMarked, hsent, if_true]
    exact restores_of_eq horiginal (forall_mem_nil (by simp [isObject, redactedRefs]))
  | _ => exact hinner

/-- **What is restored with the lookup**: the value just when every redacted reference has
its `id` put back. -/
theorem restores_withLookup (lookup : List String) {v : Json} (hw : WF v)
    (hv : SentinelFree v) (base : String) :
    Restores (restoreRedactedValuesWithLookup hints lookup
        (redactObjectWithLookup hints lookup v base).1 (some v) base) v
      (∀ ref ∈ redactedRefs hints lookup v base, isIdRestored hints lookup ref.1 = true) := by
  induction v using Json.rec_on generalizing base with
  | arr items ih =>
    rw [redactObjectWithLookup, redactedRefs]
    split
    · rename_i hpath
      rw [restoreRedactedValuesWithLookup, if_pos hpath, originalItems]
      refine Restores.map ?_ fun _ _ h => Json.arr.inj h
      rw [SentinelFree] at hv
      rw [WF] at hw
      generalize itemPath base = path
      induction items with
      | nil =>
        exact restores_of_eq (by rw [redactItemsWithLookup, restoreItemsWithLookup])
          (forall_mem_nil (by rw [refsOfItems]))
      | cons item rest ihr =>
        obtain ⟨hi, hrest⟩ := hv
        obtain ⟨hwi, hwrest⟩ := hw
        rw [redactItemsWithLookup, restoreItemsWithLookup, refsOfItems, forall_mem_append]
        refine Restores.cons ?_ (ihr (fun v hm => ih v (mem_cons_of_mem _ hm)) hwrest hrest)
          Function.injective_id
        cases hs : secretString? item with
        | some s =>
          obtain rfl := eq_str_of_secretString? hs
          simp only [isSentinel_redactString, if_true]
          exact restores_of_eq rfl (forall_mem_nil rfl)
        | none =>
          simp only [isSentinel_redactObjectWithLookup, hi.isSentinel, Bool.false_eq_true, if_false]
          exact ih item mem_cons_self hwi hi path
    · rename_i hpath
      have := restoreRedactedValuesGuessing_redact (some hints) hw hv base
      refine restores_of_eq ?_ (forall_mem_nil rfl)
      rw [redactObjectGuessing] at this ⊢
      rw [restoreRedactedValuesWithLookup, if_neg hpath]
      exact this
  | obj fields ih =>
    rw [redactObjectWithLookup, redactedRefs, restoreRedactedValuesWithLookup, toObjectRecord]
    refine Restores.map ?_ fun _ _ h => Json.obj.inj h
    suffices h : ∀ original, HasFields original fields →
        Restores (restoreFieldsWithLookup hints lookup
          (redactFieldsWithLookup hints lookup fields base).1 original base) fields
          (∀ ref ∈ refsOfFields hints lookup fields base, isIdRestored hints lookup ref.1 = true) from
      h fields (hasFields_self hw)
    rw [SentinelFree] at hv
    rw [WF] at hw
    obtain ⟨-, -, hw⟩ := hw
    intro original horig
    induction fields with
    | nil =>
      exact restores_of_eq (by rw [redactFieldsWithLookup, restoreFieldsWithLookup])
        (forall_mem_nil (by rw [refsOfFields]))
    | cons p rest ihr =>
      obtain ⟨key, value⟩ := p
      obtain ⟨hi, hrest⟩ := hv
      obtain ⟨hwi, hwrest⟩ := hw
      obtain ⟨hkey, horig⟩ := hasFields_cons.mp horig
      rw [redactFieldsWithLookup, restoreFieldsWithLookup, refsOfFields, forall_mem_append]
      refine Restores.cons ?_ (ihr (fun v hm => ih v (mem_cons_of_mem _ hm)) hrest hwrest horig)
        fun _ _ h => (Prod.mk.inj h).2
      cases candidate? lookup base key with
      | none =>
        refine restores_of_eq ?_ (forall_mem_nil rfl)
        have hguess := restoreRedactedValuesGuessing_redact (some hints) hwi hi (joinPath base key)
        cases hg : isGuessed (some hints) base key with
        | false => simpa only [Bool.false_eq_true, if_false, Bool.false_and, hkey] using hguess
        | true =>
          cases hs : secretString? value with
          | some s =>
            simp only [if_true, isSentinel_redactString, Bool.true_and, restoreOriginalValueOrThrow, hkey]
          | none =>
            simp only [if_true, isSentinel_redactObjectGuessing, hi.isSentinel, Bool.and_false,
              Bool.false_eq_true, if_false, hkey]
            exact hguess
      | some candidate =>
        have hvalue := ih (key, value) mem_cons_self hwi hi candidate
        cases hs : secretString? value with
        | some s =>
          obtain rfl := eq_str_of_secretString? hs
          simp only [isSentinel_redactString, if_true, restoreOriginalValueOrThrow, hkey]
          exact restores_of_eq rfl (forall_mem_nil (by simp [isObject, redactedRefs]))
        | none =>
          by_cases hm : hints.marks candidate true = true
          · simp only [hm, if_true, Bool.true_and, hkey]
            exact restores_marked hints lookup hkey hwi hi candidate hvalue
          · rw [Bool.not_eq_true] at hm
            simp only [hm, Bool.false_eq_true, if_false, Bool.false_and,
              isSentinel_redactObjectWithLookup, hi.isSentinel, hkey]
            exact hvalue
  | _ => exact restores_of_eq rfl (forall_mem_nil rfl)

/-! ### The whole config -/

/-- Every reference that is hidden by its `id` has the `id` put back. There are such references
only if some hint marks a path sensitive. -/
def IdsRestored (cfg : Json) : Option UiHints → Prop
  | none => True
  | some hints =>
      let lookup := buildRedactionLookup hints
      "" ∈ lookup → ∀ ref ∈ redactedRefs hints lookup cfg "", isIdRestored hints lookup ref.1 = true

/-- Is the value an object or an array? -/
def isContainer : Json → Bool
  | .arr _ | .obj _ => true
  | _ => false

theorem isContainer_redactConfigObject (cfg : Json) (hints : Option UiHints) :
    isContainer (redactConfigObject cfg hints) = isContainer cfg := by
  have hguess : ∀ hints, isContainer (redactObjectGuessing hints cfg "").1 = isContainer cfg := by
    intro hints
    cases cfg <;> rfl
  cases hints with
  | none => exact hguess none
  | some hints =>
    simp only [redactConfigObject, redactObject]
    split
    · cases cfg with
      | arr items => rw [redactObjectWithLookup]; split <;> rfl
      | _ => rfl
    · exact hguess hints

/-- **The round trip**: restoring the redacted config gives the config back just when the
config is an object or an array and every hidden `id` is put back. -/
theorem restoreRedactedValues_redactConfigObject_iff {cfg : Json} (hw : WF cfg)
    (hv : SentinelFree cfg) (hints : Option UiHints) :
    restoreRedactedValues (some (redactConfigObject cfg hints)) cfg hints = .ok cfg ↔
      isContainer cfg = true ∧ IdsRestored cfg hints := by
  have hrestores : Restores (restoreObject (redactConfigObject cfg hints) cfg hints) cfg
      (IdsRestored cfg hints) := by
    cases hints with
    | none => exact restores_of_eq (restoreRedactedValuesGuessing_redact none hw hv "") trivial
    | some hints =>
      simp only [restoreObject, IdsRestored, redactConfigObject, redactObject]
      by_cases hl : "" ∈ buildRedactionLookup hints
      · simp only [hl, if_true, true_imp_iff]
        exact restores_withLookup hints _ hw hv ""
      · simp only [hl, if_false, false_imp_iff]
        exact restores_of_eq (restoreRedactedValuesGuessing_redact (some hints) hw hv "") trivial
  have hshape := isContainer_redactConfigObject cfg hints
  generalize redactConfigObject cfg hints = incoming at hrestores hshape
  cases hc : isContainer cfg with
  | false =>
    rw [hc] at hshape
    refine iff_of_false (fun h => ?_) (by simp)
    cases incoming <;> first | cases h | cases hshape
  | true =>
    obtain ⟨w, hok, hiff⟩ := hrestores
    have hwalk : restoreRedactedValues (some incoming) cfg hints = restoreObject incoming cfg hints := by
      cases incoming <;> first | rfl | (rw [hc] at hshape; cases hshape)
    rw [and_iff_right rfl, ← hiff, hwalk, hok, Except.ok.injEq]

/-- A config with a secret of a channel. -/
def channelConfig (key : String) (value : Json) : Json :=
  .obj [("channels", .obj [("telegram", .obj [(key, value)])])]

/-- A secret reference. -/
def secretRef : Json :=
  .obj [("source", .str "env"), ("provider", .str "default"), ("id", .str "TELEGRAM")]

/-- The round trip of a reference at a path with `secret` in its name. -/
theorem restoreRedactedValues_webhookSecret :
    restoreRedactedValues (some (redactConfigObject (channelConfig "webhookSecret" secretRef)
        (some [("channels.telegram.webhookSecret", some true)])))
      (channelConfig "webhookSecret" secretRef) (some [("channels.telegram.webhookSecret", some true)]) =
      .ok (channelConfig "webhookSecret" secretRef) := by
  refine (restoreRedactedValues_redactConfigObject_iff ?_ ?_ _).mpr ⟨rfl, fun _ => ?_⟩
  · simp [channelConfig, secretRef, WF, Json.WFFields]
  · simp [channelConfig, secretRef, SentinelFree, SentinelFreeFields, redactedSentinel]
  · have hrefs : redactedRefs [("channels.telegram.webhookSecret", some true)]
        (buildRedactionLookup [("channels.telegram.webhookSecret", some true)])
        (channelConfig "webhookSecret" secretRef) "" = [("channels.telegram.webhookSecret",
          [("source", .str "env"), ("provider", .str "default"), ("id", .str "TELEGRAM")])] := rfl
    rw [hrefs, forall_mem_singleton]
    decide

/-- The `id` of a reference at `botToken` is hidden and not put back. -/
theorem botToken_ref_not_restored :
    restoreRedactedValues (some (redactConfigObject (channelConfig "botToken" secretRef)
        (some [("channels.telegram.botToken", some true)]))) (channelConfig "botToken" secretRef)
      (some [("channels.telegram.botToken", some true)]) ≠ .ok (channelConfig "botToken" secretRef) := by
  intro h
  have heq : restoreRedactedValues (some (redactConfigObject (channelConfig "botToken" secretRef)
      (some [("channels.telegram.botToken", some true)]))) (channelConfig "botToken" secretRef)
      (some [("channels.telegram.botToken", some true)]) =
      .ok (channelConfig "botToken" (.obj [("source", .str "env"), ("provider", .str "default"),
        ("id", .str redactedSentinel)])) := rfl
  rw [heq] at h
  simp [channelConfig, secretRef, redactedSentinel] at h

end Foxclaw.Config
