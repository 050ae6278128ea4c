import Foxclaw.Config.EnvSubstitution
import Mathlib.Data.List.Infix

/-!
# Writing references to environment variables back

This module models `config/env-preserve.ts`: before a resolved config is written, a string
that is what a reference in the file resolves to is replaced by the reference.

## The model

As in `EnvSubstitution`. A key that the file's object only inherits is as one that it does not
have: what is found there is no plain value, and the incoming value is kept.

A string is put back if it can be resolved. One in which a variable is missing cannot be,
although the resolution of the config, with `onMissing`, went on over it: what it made of the
string's other references and of its escapes stays.

## What is proved

* `tryResolveString_eq` — the resolution of a string, by its pieces.
* `restoreString_eq_iff` — when a string is put back.
* `restoreEnvVarRefs_iff` — when a config that was not edited is written as it was read.
-/

namespace Foxclaw.Config

open Json List Option
open Json (Fields Everywhere DistinctKeys)

/-- Does `ENV_VAR_PATTERN` match at the start of the text? -/
def matchesEnvVarPattern : List Char → Bool
  | '$' :: '{' :: c :: cs => isNameStart c && (cs.dropWhile isNameChar).head? = some '}'
  | _ => false

def hasEnvVarRef (value : String) : Bool := value.toList.tails.any matchesEnvVarPattern

/-- The loop of `tryResolveString`. -/
def tryResolveFrom (env : Env) : ℕ → List Char → Option (List Char)
  | _, [] => some []
  | skip + 1, _ :: rest => tryResolveFrom env skip rest
  | 0, c :: rest => match escapedName? (c :: rest) with
    | some name => (tryResolveFrom env (name.length + 3) rest).map (reference name ++ ·)
    | none => match referencedName? (c :: rest) with
      | some name => match envValue? env name with
        | none => none
        | some val => (tryResolveFrom env (name.length + 2) rest).map (val.toList ++ ·)
      | none => (tryResolveFrom env 0 rest).map (c :: ·)

variable (env : Env)

def tryResolveString (template : String) : Option String :=
  (tryResolveFrom env 0 template.toList).map String.ofList

/-- `restoreEnvVarRefs` of a string. -/
def restoreString (incoming parsed : String) : String :=
  if hasEnvVarRef parsed = true ∧ tryResolveString env parsed = some incoming then parsed
  else incoming

mutual
def restoreEnvVarRefs (env : Env) : Json → Json → Json
  | .str incoming, .str parsed => .str (restoreString env incoming parsed)
  | .arr incoming, .arr parsed => .arr (restoreItems env incoming parsed)
  | .obj incoming, .obj parsed => .obj (restoreFields env incoming parsed)
  | incoming, _ => incoming
/-- The items of an array, each by the item of the file. -/
def restoreItems (env : Env) : List Json → List Json → List Json
  | [], _ => []
  | item :: rest, [] => item :: rest
  | item :: rest, parsed :: parsedRest =>
      restoreEnvVarRefs env item parsed :: restoreItems env rest parsedRest
/-- The properties of an object, each by the property of the file. -/
def restoreFields (env : Env) : Fields → Fields → Fields
  | [], _ => []
  | (key, value) :: rest, parsed =>
      let restored := match parsed.lookup key with
        | some parsedValue => restoreEnvVarRefs env value parsedValue
        | none => value
      -- `result[key] = …`
      if key = "__proto__" then restoreFields env rest parsed
      else (key, restored) :: restoreFields env rest parsed
end

/-! ### Strings -/

/-- Every variable that the string refers to is set. -/
def AllSet (value : String) : Prop :=
  ∀ name ∈ referenced value, (envValue? env name).isSome = true

instance (env : Env) (value : String) : Decidable (AllSet env value) :=
  inferInstanceAs (Decidable (∀ name ∈ referenced value, (envValue? env name).isSome = true))

/-- What stands for the string's pieces spells the string. -/
def Literal (value : String) : Prop := expanded env value = value

instance (env : Env) (value : String) : Decidable (Literal env value) :=
  inferInstanceAs (Decidable (expanded env value = value))

/-- A turn of the loop of `tryResolveString`. -/
def tryResolveStep (piece : Piece) (r : Option (List Char)) : Option (List Char) :=
  match piece with
  | .inl (.substitution name) => match envValue? env name with
    | none => none
    | some val => r.map (val.toList ++ ·)
  | piece => r.map (pieceValue env piece ++ ·)

theorem tryResolveFrom_eq (skip : ℕ) (cs : List Char) : tryResolveFrom env skip cs =
    (Scan.scan parseEnvTokenAt skip cs).foldr (tryResolveStep env) (some []) := by
  refine Scan.foldr_scan (fun skip => ?_) (fun skip c rest => ?_) (fun c rest => ?_) skip cs
  · rw [tryResolveFrom]
  · rw [tryResolveFrom]
  · rw [tryResolveFrom, parseEnvTokenAt]
    cases escapedName? (c :: rest) with
    | some name => rfl
    | none => cases referencedName? (c :: rest) <;> rfl

theorem foldr_tryResolveStep (ps : List Piece) :
    ps.foldr (tryResolveStep env) (some []) =
      if ∀ name ∈ ps.filterMap referenceName?, (envValue? env name).isSome = true then
        some (ps.flatMap (pieceValue env)) else none := by
  induction ps with
  | nil => simp
  | cons piece ps ih =>
    rw [foldr_cons, ih, filterMap_cons]
    -- a reference to a missing variable ends the loop; all else is put before the rest
    rcases piece with (name | name) | c
    · simp only [tryResolveStep, referenceName?, apply_ite (Option.map _), flatMap_cons, map_some, map_none]
    · cases hv : envValue? env name with
      | none => simp [tryResolveStep, referenceName?, hv]
      | some val =>
        have hset : (∀ n ∈ name :: ps.filterMap referenceName?, (envValue? env n).isSome = true) ↔
            ∀ n ∈ ps.filterMap referenceName?, (envValue? env n).isSome = true := by
          rw [forall_mem_cons, hv]
          exact and_iff_right rfl
        simp only [tryResolveStep, referenceName?, hv, hset, apply_ite (Option.map _),
          flatMap_cons, pieceValue, map_some, map_none]
    · simp only [tryResolveStep, referenceName?, apply_ite (Option.map _), flatMap_cons, map_some, map_none]

theorem tryResolveString_eq (template : String) : tryResolveString env template =
    if AllSet env template then some (expanded env template) else none := by
  rw [tryResolveString, tryResolveFrom_eq, foldr_tryResolveStep, apply_ite (Option.map _)]
  rfl

theorem matchesEnvVarPattern_of_bracedName? {cs name : List Char} (h : bracedName? cs = some name) :
    matchesEnvVarPattern ('$' :: '{' :: cs) = true := by
  obtain ⟨hname, rest, rfl⟩ := bracedName?_eq_some h
  cases name with
  | nil => cases hname
  | cons c name =>
    rw [isEnvVarName, Bool.and_eq_true] at hname
    have hdrop : (name ++ '}' :: rest).dropWhile isNameChar = '}' :: rest := by
      rw [dropWhile_append_of_pos (List.all_eq_true.mp hname.2)]
      rfl
    rw [cons_append, matchesEnvVarPattern, hname.1, hdrop]
    rfl

/-- A string with a token, be it an escaped reference, matches the pattern. -/
theorem hasEnvVarRef_of_mem {value : String} {token : EnvToken} (h : .inl token ∈ pieces value) :
    hasEnvVarRef value = true := by
  obtain ⟨c, rest, more, hs, ht⟩ := Scan.exists_of_mem_scan h
  suffices ∃ cs name, bracedName? cs = some name ∧ '$' :: '{' :: cs <:+ value.toList by
    obtain ⟨cs, name, hb, hs⟩ := this
    rw [hasEnvVarRef, List.any_eq_true]
    exact ⟨_, (mem_tails _ _).mpr hs, matchesEnvVarPattern_of_bracedName? hb⟩
  rw [parseEnvTokenAt] at ht
  cases he : escapedName? (c :: rest) with
  | some name =>
    rw [escapedName?.eq_def] at he
    split at he
    · rename_i cs heq
      exact ⟨cs, name, he, (suffix_cons _ _).trans (heq ▸ hs)⟩
    · cases he
  | none =>
    rw [he] at ht
    obtain ⟨name, hr, -⟩ := map_eq_some_iff.mp ht
    rw [referencedName?.eq_def] at hr
    split at hr
    · rename_i cs heq
      exact ⟨cs, name, hr, heq ▸ hs⟩
    · cases hr

/-- A string without tokens is literal. -/
theorem literal_of_forall {env : Env} {value : String} (h : ∀ token, .inl token ∉ pieces value) :
    Literal env value := by
  have hpieces : ∀ ps : List Piece, (∀ token, .inl token ∉ ps) →
      ps.flatMap (pieceValue env) = ps.flatMap (Scan.pieceText EnvToken.text) := by
    intro ps
    induction ps with
    | nil => exact fun _ => rfl
    | cons piece ps ih =>
      intro h
      rw [flatMap_cons, flatMap_cons, ih fun token ht => h token (mem_cons_of_mem _ ht)]
      cases piece with
      | inl token => exact absurd mem_cons_self (h token)
      | inr c => rfl
  rw [Literal, expanded, hpieces _ h, flatMap_pieces, String.ofList_toList]

/-- A string that was not edited is put back just when every variable that it refers to is set,
or it stands for itself. -/
theorem restoreString_eq_iff (value : String) :
    restoreString env (expanded env value) value = value ↔ AllSet env value ∨ Literal env value := by
  rw [restoreString, tryResolveString_eq]
  by_cases hlit : Literal env value
  · refine iff_of_true ?_ (.inr hlit)
    rw [show expanded env value = value from hlit]
    exact ite_self _
  · have hhas : hasEnvVarRef value = true := by
      by_contra hno
      exact hlit (literal_of_forall fun token ht => hno (hasEnvVarRef_of_mem ht))
    by_cases hset : AllSet env value
    · simp [hhas, hset]
    · simp [hset, Literal]

/-! ### Configs -/

/-- A part of a config that is written as it was read: an object has no property named
`__proto__`, and a string can be put back. -/
def Restorable : Json → Prop
  | .obj fields => "__proto__" ∉ fields.map (·.1)
  | .str value => AllSet env value ∨ Literal env value
  | _ => True

/-- The properties that are written back for those of the file, not edited: all but `__proto__`. -/
theorem restoreFields_expandedFields {fields fs : Fields} (h : ∀ p ∈ fs, fields.lookup p.1 = some p.2) :
    restoreFields env (expandedFields env fs) fields =
      (fs.filter fun p => p.1 ≠ "__proto__").map fun p =>
        (p.1, restoreEnvVarRefs env (expandedJson env p.2) p.2) := by
  induction fs with
  | nil => simp [expandedFields, restoreFields]
  | cons p rest ih =>
    obtain ⟨key, value⟩ := p
    obtain ⟨hkey, hrest⟩ := forall_mem_cons.mp h
    rw [expandedFields]
    by_cases hp : key = "__proto__"
    · rw [if_pos hp, ih hrest, filter_cons_of_neg (by simpa using hp)]
    · rw [if_neg hp, restoreFields, if_neg hp, ih hrest, filter_cons_of_pos (by simpa using hp),
        map_cons]
      simp only [hkey]

/-- A config that was not edited is written as it was read just when each part of it is. -/
theorem restoreEnvVarRefs_iff {env : Env} {parsed : Json} (h : DistinctKeys parsed) :
    restoreEnvVarRefs env (expandedJson env parsed) parsed = parsed ↔
      Everywhere (Restorable env) parsed := by
  induction parsed using rec_on with
  | str value =>
    rw [everywhere_leaf (by simp [Json.shape]) (by simp [Json.shape]), expandedJson,
      restoreEnvVarRefs, Json.str.injEq]
    exact restoreString_eq_iff env value
  | arr items ih =>
    have hitems : ∀ items : List Json, restoreItems env (expandedItems env items) items = items ↔
          ∀ v ∈ items, restoreEnvVarRefs env (expandedJson env v) v = v := by
      intro items
      induction items with
      | nil => simp [expandedItems, restoreItems]
      | cons item rest ihr =>
        rw [expandedItems, restoreItems, List.cons.injEq, ihr, forall_mem_cons]
    rw [everywhere_arr, and_iff_right (show Restorable env (.arr items) from trivial), expandedJson, restoreEnvVarRefs, Json.arr.injEq,
      hitems]
    exact forall₂_congr fun v hv => ih v hv (distinctKeys_arr.mp h v hv)
  | obj fields ih =>
    obtain ⟨hnd, hdistinct⟩ := distinctKeys_obj.mp h
    rw [everywhere_obj hnd, expandedJson, restoreEnvVarRefs, Json.obj.injEq,
      restoreFields_expandedFields env fun p hp => Fields.lookup_of_mem hnd hp]
    by_cases hproto : "__proto__" ∈ fields.map (·.1)
    · -- that property is lost
      refine iff_of_false (fun heq => ?_) fun h => h.1 hproto
      rw [← heq] at hproto
      simp at hproto
    · have hfilter : (fields.filter fun p => p.1 ≠ "__proto__") = fields :=
        filter_eq_self.mpr fun p hp => by
          simpa using fun he : p.1 = "__proto__" => hproto (List.mem_map.mpr ⟨p, hp, he⟩)
      rw [hfilter, and_iff_right (show Restorable env (.obj fields) from hproto)]
      nth_rewrite 2 [← List.map_id fields]
      rw [map_inj_left]
      refine forall₂_congr fun p hp => ?_
      rw [← ih p hp (hdistinct p hp), id, Prod.ext_iff, and_iff_right rfl]
  | _ =>
    rw [everywhere_leaf (by simp [Json.shape]) (by simp [Json.shape]), expandedJson] <;>
      simp [Restorable, restoreEnvVarRefs]

/-- **A config that was not edited is written as it was read**, its references and escapes
restored, just when no object has a property named `__proto__`, and of each string every
variable that it refers to is set, or the string stands for itself. -/
theorem restoreEnvVarRefs_resolveConfigEnvVars_iff {env : Env} {parsed : Json} (h : DistinctKeys parsed) :
    (∃ resolved warnings, resolveConfigEnvVars env true parsed = .ok (resolved, warnings) ∧
      restoreEnvVarRefs env resolved parsed = parsed) ↔ Everywhere (Restorable env) parsed := by
  obtain ⟨warnings, hr⟩ := resolveConfigEnvVars_onMissing env parsed
  rw [← restoreEnvVarRefs_iff h, hr]
  constructor
  · rintro ⟨resolved, warnings', heq, hrestored⟩
    obtain ⟨rfl, -⟩ := Prod.mk.inj (Except.ok.inj heq)
    exact hrestored
  · exact fun hrestored => ⟨_, _, rfl, hrestored⟩

/-- An environment with one variable. -/
def tokenEnv : Env := fun name => if name = "TOKEN" then some "secret" else none

/-- An escape and a reference in one string are both restored, and so is a reference to a
missing variable. -/
theorem restoreEnvVarRefs_resolveConfigEnvVars_escape : ∃ resolved warnings,
    resolveConfigEnvVars tokenEnv true
      (.obj [("key", .str "$$\x7bUSER\x7d:$\x7bTOKEN\x7d"), ("host", .str "$\x7bHOST\x7d")]) =
        .ok (resolved, warnings) ∧
    restoreEnvVarRefs tokenEnv resolved
      (.obj [("key", .str "$$\x7bUSER\x7d:$\x7bTOKEN\x7d"), ("host", .str "$\x7bHOST\x7d")]) =
      .obj [("key", .str "$$\x7bUSER\x7d:$\x7bTOKEN\x7d"), ("host", .str "$\x7bHOST\x7d")] := by
  have hleaf : ∀ s, Restorable tokenEnv (.str s) → Everywhere (Restorable tokenEnv) (.str s) :=
    fun s hs => (everywhere_leaf (by simp [Json.shape]) (by simp [Json.shape])).mpr hs
  refine (restoreEnvVarRefs_resolveConfigEnvVars_iff (distinctKeys_obj.mpr ⟨by simp, ?_⟩)).mpr
    ((everywhere_obj (by simp)).mpr ⟨by simp [Restorable], ?_⟩)
  · have hstr : ∀ s, DistinctKeys (.str s) := fun s =>
      distinctKeys_leaf (by simp [Json.shape]) (by simp [Json.shape])
    simp [hstr]
  · refine forall_mem_cons.mpr ⟨hleaf _ (.inl (by decide +kernel)), ?_⟩
    exact forall_mem_singleton.mpr (hleaf _ (.inr (by decide +kernel)))

/-- A secret beside a reference to a missing variable is written in its place. -/
theorem restoreEnvVarRefs_missing : ∃ warnings,
    resolveConfigEnvVars tokenEnv true (.obj [("url", .str "$\x7bHOST\x7d/$\x7bTOKEN\x7d")]) =
      .ok (.obj [("url", .str "$\x7bHOST\x7d/secret")], warnings) ∧
    restoreEnvVarRefs tokenEnv (.obj [("url", .str "$\x7bHOST\x7d/secret")])
        (.obj [("url", .str "$\x7bHOST\x7d/$\x7bTOKEN\x7d")]) ≠
      .obj [("url", .str "$\x7bHOST\x7d/$\x7bTOKEN\x7d")] := by
  have hexp : expanded tokenEnv "$\x7bHOST\x7d/$\x7bTOKEN\x7d" = "$\x7bHOST\x7d/secret" := by
    decide +kernel
  obtain ⟨warnings, hr⟩ := resolveConfigEnvVars_onMissing tokenEnv
    (.obj [("url", .str "$\x7bHOST\x7d/$\x7bTOKEN\x7d")])
  refine ⟨warnings, ?_, ?_⟩
  · rw [hr]
    simp [expandedJson, expandedFields, hexp]
  · have hs : restoreString tokenEnv "$\x7bHOST\x7d/secret" "$\x7bHOST\x7d/$\x7bTOKEN\x7d" ≠
        "$\x7bHOST\x7d/$\x7bTOKEN\x7d" := by
      decide +kernel
    simpa [restoreEnvVarRefs, restoreFields, Json.Fields.lookup_cons] using hs

end Foxclaw.Config
