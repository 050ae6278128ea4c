import Foxclaw.Lib.Json
import Foxclaw.Lib.Scan

/-!
# References to environment variables in a config

This module models `config/env-substitution.ts`: in the strings of a config a reference
(a dollar sign and the name of a variable in braces) is replaced by the variable's value, and
an escaped reference (one more dollar sign before it) by the reference.

## The model

Strings are lists of characters where they are scanned. A loop over the string carries how
many characters are still part of the last token (`i = token.end`). A missing variable throws,
or, with `onMissing`, is warned of and keeps its reference; the warnings are returned in order.
A property named `__proto__` is lost: assigning to that name makes no property.

## What is proved

* `flatMap_pieces` — the pieces of a string, put together, are the string.
* `substituteString_onMissing` — the loop, by the pieces.
* `resolveConfigEnvVars_onMissing` — with `onMissing` the config is `expanded`.
-/

namespace Foxclaw.Config

open List
open Json (Fields)
open Scan (pieceText)

/-- The environment: the value of a variable that is set. -/
abbrev Env := String → Option String

/-- A character of the class `[A-Z_]`. -/
def isNameStart (c : Char) : Bool := ('A' ≤ c && c ≤ 'Z') || c = '_'

/-- A character of the class `[A-Z0-9_]`. -/
def isNameChar (c : Char) : Bool := isNameStart c || ('0' ≤ c && c ≤ '9')

/-- `ENV_VAR_NAME_PATTERN`. -/
def isEnvVarName : List Char → Bool
  | [] => false
  | c :: cs => isNameStart c && cs.all isNameChar

/-- The name of a variable, up to the next closing brace. -/
def bracedName? (cs : List Char) : Option (List Char) :=
  let name := cs.takeWhile (· ≠ '}')
  if '}' ∈ cs ∧ isEnvVarName name = true then some name else none

/-- The name in an escaped reference that the text begins with. -/
def escapedName? : List Char → Option (List Char)
  | '$' :: '$' :: '{' :: cs => bracedName? cs
  | _ => none

/-- The name in a reference that the text begins with. -/
def referencedName? : List Char → Option (List Char)
  | '$' :: '{' :: cs => bracedName? cs
  | _ => none

inductive EnvToken where
  | escaped (name : List Char)
  | substitution (name : List Char)
  deriving DecidableEq

/-- `parseEnvTokenAt`: the token that the text begins with, and how many characters it has after
the first. -/
def parseEnvTokenAt (cs : List Char) : Option (EnvToken × ℕ) :=
  match escapedName? cs with
  | some name => some (.escaped name, name.length + 3)
  | none => (referencedName? cs).map fun name => (.substitution name, name.length + 2)

/-- The reference to a variable. -/
def reference (name : List Char) : List Char := '$' :: '{' :: (name ++ ['}'])

variable (env : Env)

/-- The value of a variable that is set and not empty. -/
def envValue? (name : List Char) : Option String :=
  (env (String.ofList name)).filter (· ≠ "")

structure MissingEnvVarError where
  varName : String
  configPath : String
  deriving DecidableEq

/-- The error's text. -/
def MissingEnvVarError.message (e : MissingEnvVarError) : String :=
  "Missing env var \"" ++ e.varName ++ "\" referenced at config path: " ++ e.configPath

structure EnvSubstitutionWarning where
  varName : String
  configPath : String
  deriving DecidableEq

/-- The warnings that were given. -/
abbrev Warnings := List EnvSubstitutionWarning

/-- Text before what is made of the rest. -/
def prepend (text : List Char) (r : Except MissingEnvVarError (List Char × Warnings)) :
    Except MissingEnvVarError (List Char × Warnings) :=
  r.map fun r => (text ++ r.1, r.2)

/-- The loop of `substituteString`. -/
def substituteFrom (env : Env) (onMissing : Bool) (configPath : String) :
    ℕ → List Char → Except MissingEnvVarError (List Char × Warnings)
  | _, [] => .ok ([], [])
  | skip + 1, _ :: rest => substituteFrom env onMissing configPath skip rest
  | 0, c :: rest => match parseEnvTokenAt (c :: rest) with
    | some (.escaped name, more) =>
        prepend (reference name) (substituteFrom env onMissing configPath more rest)
    | some (.substitution name, more) => match envValue? env name with
      | some value => prepend value.toList (substituteFrom env onMissing configPath more rest)
      | none =>
          if onMissing then
            (substituteFrom env onMissing configPath more rest).map fun r =>
              (reference name ++ r.1, ⟨String.ofList name, configPath⟩ :: r.2)
          else .error ⟨String.ofList name, configPath⟩
    | none => prepend [c] (substituteFrom env onMissing configPath 0 rest)

variable (onMissing : Bool)

def substituteString (configPath value : String) : Except MissingEnvVarError (String × Warnings) :=
  if '$' ∉ value.toList then .ok (value, [])
  else (substituteFrom env onMissing configPath 0 value.toList).map fun r => (String.ofList r.1, r.2)

/-- The loop of `containsEnvVarReference`. -/
def containsFrom : ℕ → List Char → Bool
  | _, [] => false
  | skip + 1, _ :: rest => containsFrom skip rest
  | 0, c :: rest => match parseEnvTokenAt (c :: rest) with
    | some (.escaped _, more) => containsFrom more rest
    | some (.substitution _, _) => true
    | none => containsFrom 0 rest

variable (value : String)

def containsEnvVarReference : Bool :=
  if '$' ∉ value.toList then false else containsFrom 0 value.toList

/-- The path of a property: its key after the path and a dot, or alone. -/
def keyPathOf (path key : String) : String := if path = "" then key else path ++ "." ++ key

/-- The path of an item. -/
def indexPathOf (path : String) (index : ℕ) : String := path ++ "[" ++ toString index ++ "]"

mutual
def substituteAny (env : Env) (onMissing : Bool) (path : String) : Json → Except MissingEnvVarError (Json × Warnings)
  | .str value => (substituteString env onMissing path value).map fun r => (.str r.1, r.2)
  | .arr items => (substituteItems env onMissing path 0 items).map fun r => (.arr r.1, r.2)
  | .obj fields => (substituteFields env onMissing path fields).map fun r => (.obj r.1, r.2)
  | value => .ok (value, [])
/-- The items of an array from this index on. -/
def substituteItems (env : Env) (onMissing : Bool) (path : String) (index : ℕ) :
    List Json → Except MissingEnvVarError (List Json × Warnings)
  | [] => .ok ([], [])
  | item :: rest => do
      let (item, warnings) ← substituteAny env onMissing (indexPathOf path index) item
      let (rest, warnings') ← substituteItems env onMissing path (index + 1) rest
      .ok (item :: rest, warnings ++ warnings')
/-- The properties of an object. -/
def substituteFields (env : Env) (onMissing : Bool) (path : String) :
    Fields → Except MissingEnvVarError (Fields × Warnings)
  | [] => .ok ([], [])
  | (key, value) :: rest => do
      let (value, warnings) ← substituteAny env onMissing (keyPathOf path key) value
      let (rest, warnings') ← substituteFields env onMissing path rest
      -- `result[key] = …`
      .ok (if key = "__proto__" then rest else (key, value) :: rest, warnings ++ warnings')
end

def resolveConfigEnvVars (obj : Json) : Except MissingEnvVarError (Json × Warnings) :=
  substituteAny env onMissing "" obj

/-! ### The pieces of a string -/

/-- A token, or a character that is in none. -/
abbrev Piece := EnvToken ⊕ Char

/-- The text of a token. -/
def EnvToken.text : EnvToken → List Char
  | .escaped name => '$' :: reference name
  | .substitution name => reference name

/-- The tokens and the other characters of a string. -/
def pieces : List Piece := Scan.scan parseEnvTokenAt 0 value.toList

/-- What stands for a piece in the environment: for a reference the value, or the reference if
the variable is missing. -/
def pieceValue : Piece → List Char
  | .inl (.escaped name) => reference name
  | .inl (.substitution name) => match envValue? env name with
    | some value => value.toList
    | none => reference name
  | .inr c => [c]

/-- The string with what stands for its pieces. -/
def expanded : String :=
  String.ofList ((pieces value).flatMap (pieceValue env))

/-- The variable that a piece refers to. -/
def referenceName? : Piece → Option (List Char)
  | .inl (.substitution name) => some name
  | _ => none

/-- The variables that a string refers to. -/
def referenced : List (List Char) := (pieces value).filterMap referenceName?

/-- A text is cut at the first occurrence of a character in it. -/
theorem exists_takeWhile_append {c : Char} {cs : List Char} (h : c ∈ cs) :
    ∃ rest, cs = cs.takeWhile (· ≠ c) ++ c :: rest := by
  induction cs with
  | nil => cases h
  | cons d cs ih =>
    by_cases hd : d = c
    · subst hd
      exact ⟨cs, by simp⟩
    · obtain ⟨rest, hrest⟩ := ih ((mem_cons.mp h).resolve_left (Ne.symm hd))
      refine ⟨rest, ?_⟩
      rw [takeWhile_cons_of_pos (by simpa using hd), cons_append, ← hrest]

theorem bracedName?_eq_some {cs name : List Char} (h : bracedName? cs = some name) :
    isEnvVarName name = true ∧ ∃ rest, cs = name ++ '}' :: rest := by
  rw [bracedName?] at h
  obtain ⟨⟨hmem, hname⟩, heq⟩ := Option.ite_none_right_eq_some.mp h
  rw [← Option.some.inj heq]
  exact ⟨hname, exists_takeWhile_append hmem⟩

theorem take_reference (name rest : List Char) :
    (name ++ '}' :: rest).take (name.length + 1) = name ++ ['}'] := by
  rw [take_length_add_append]
  rfl

/-- The text of the token that is found. -/
theorem hasText_parseEnvTokenAt : Scan.HasText parseEnvTokenAt EnvToken.text := by
  intro c rest token more h
  rw [parseEnvTokenAt] at h
  cases he : escapedName? (c :: rest) with
  | some name =>
    rw [he] at h
    obtain ⟨rfl, rfl⟩ := Prod.mk.inj (Option.some.inj h)
    rw [escapedName?.eq_def] at he
    split at he
    · rename_i cs heq
      obtain ⟨-, rest', rfl⟩ := bracedName?_eq_some he
      obtain ⟨rfl, rfl⟩ := List.cons.inj heq
      simp [EnvToken.text, reference, take_reference]
    · cases he
  | none =>
    rw [he] at h
    obtain ⟨name, hr, heq⟩ := Option.map_eq_some_iff.mp h
    obtain ⟨rfl, rfl⟩ := Prod.mk.inj heq
    rw [referencedName?.eq_def] at hr
    split at hr
    · rename_i cs heq
      obtain ⟨-, rest', rfl⟩ := bracedName?_eq_some hr
      obtain ⟨rfl, rfl⟩ := List.cons.inj heq
      simp [EnvToken.text, reference, take_reference]
    · cases hr

theorem flatMap_pieces : (pieces value).flatMap (pieceText EnvToken.text) = value.toList :=
  Scan.flatMap_scan hasText_parseEnvTokenAt 0 value.toList

/-! ### The loops, by the pieces -/

variable (configPath : String)

/-- A turn of the loop of `substituteString`. -/
def substituteStep (piece : Piece) (r : Except MissingEnvVarError (List Char × Warnings)) :
    Except MissingEnvVarError (List Char × Warnings) :=
  match piece with
  | .inl (.escaped name) => prepend (reference name) r
  | .inl (.substitution name) => match envValue? env name with
    | some value => prepend value.toList r
    | none =>
        if onMissing then
          r.map fun r => (reference name ++ r.1, ⟨String.ofList name, configPath⟩ :: r.2)
        else .error ⟨String.ofList name, configPath⟩
  | .inr c => prepend [c] r

theorem substituteFrom_eq (skip : ℕ) (cs : List Char) : substituteFrom env onMissing configPath skip cs =
      (Scan.scan parseEnvTokenAt skip cs).foldr (substituteStep env onMissing configPath)
        (.ok ([], [])) := by
  refine Scan.foldr_scan (fun skip => ?_) (fun skip c rest => ?_) (fun c rest => ?_) skip cs
  · rw [substituteFrom]
  · rw [substituteFrom]
  · rw [substituteFrom]
    rcases parseEnvTokenAt (c :: rest) with _ | ⟨_ | _, more⟩ <;> rfl

/-- The warnings of the pieces, for the variables that are missing. -/
def warningsOf (ps : List Piece) : Warnings :=
  ps.filterMap fun
    | .inl (.substitution name) =>
        if (envValue? env name).isSome then none else some ⟨String.ofList name, configPath⟩
    | _ => none

theorem foldr_substituteStep (ps : List Piece) :
    ps.foldr (substituteStep env true configPath) (.ok ([], [])) =
      .ok (ps.flatMap (pieceValue env), warningsOf env configPath ps) := by
  induction ps with
  | nil => rfl
  | cons piece ps ih =>
    rw [foldr_cons, ih]
    rcases piece with (name | name) | c
    · rfl
    · rw [substituteStep]
      cases hv : envValue? env name with
      | some value => simp [prepend, Except.map, pieceValue, warningsOf, hv]
      | none => simp [Except.map, pieceValue, warningsOf, hv]
    · rfl

/-- No token begins in a text without a dollar sign. -/
theorem parseEnvTokenAt_of_notMem {cs : List Char} (h : '$' ∉ cs) : parseEnvTokenAt cs = none := by
  have he : escapedName? cs = none := by
    rw [escapedName?.eq_def]
    split
    · simp at h
    · rfl
  have hr : referencedName? cs = none := by
    rw [referencedName?.eq_def]
    split
    · simp at h
    · rfl
  rw [parseEnvTokenAt, he, hr]
  rfl

theorem pieces_of_notMem {value : String} (h : '$' ∉ value.toList) : pieces value = value.toList.map .inr :=
  Scan.scan_of_forall fun _ _ hs => parseEnvTokenAt_of_notMem fun hm => h (hs.subset hm)

theorem flatMap_value_map_inr (cs : List Char) : (cs.map Sum.inr).flatMap (pieceValue env) = cs := by
  induction cs with
  | nil => rfl
  | cons c cs ih => rw [map_cons, flatMap_cons, ih]; rfl

/-- With `onMissing` a string is expanded, with a warning for each missing variable. -/
theorem substituteString_onMissing (configPath value : String) :
    substituteString env true configPath value =
      .ok (expanded env value, warningsOf env configPath (pieces value)) := by
  rw [substituteString]
  split
  · rename_i h
    have hw : warningsOf env configPath (value.toList.map Sum.inr) = [] := by
      simp [warningsOf, filterMap_map]
    rw [expanded, pieces_of_notMem h, flatMap_value_map_inr, String.ofList_toList, hw]
  · rw [substituteFrom_eq, foldr_substituteStep]
    rfl

/-! ### The config -/

mutual
/-- The config with its strings expanded, without the properties named `__proto__`. -/
def expandedJson (env : Env) : Json → Json
  | .str value => .str (expanded env value)
  | .arr items => .arr (expandedItems env items)
  | .obj fields => .obj (expandedFields env fields)
  | value => value
/-- The items, expanded. -/
def expandedItems (env : Env) : List Json → List Json
  | [] => []
  | item :: rest => expandedJson env item :: expandedItems env rest
/-- The properties, expanded. -/
def expandedFields (env : Env) : Fields → Fields
  | [] => []
  | (key, value) :: rest =>
      if key = "__proto__" then expandedFields env rest
      else (key, expandedJson env value) :: expandedFields env rest
end

/-- With `onMissing` a config is expanded. -/
theorem substituteAny_onMissing (v : Json) (path : String) :
    ∃ warnings, substituteAny env true path v = .ok (expandedJson env v, warnings) := by
  induction v using Json.rec_on generalizing path with
  | str value =>
    exact ⟨_, by rw [substituteAny, substituteString_onMissing]; rfl⟩
  | arr items ih =>
    have hitems : ∀ (items : List Json) (index : ℕ), (∀ v ∈ items, ∀ path, ∃ warnings,
        substituteAny env true path v = .ok (expandedJson env v, warnings)) → ∃ warnings,
        substituteItems env true path index items = .ok (expandedItems env items, warnings) := by
      intro items
      induction items with
      | nil => exact fun _ _ => ⟨[], by rw [substituteItems, expandedItems]⟩
      | cons item rest ihr =>
        intro index h
        obtain ⟨w, hw⟩ := h item mem_cons_self (indexPathOf path index)
        obtain ⟨w', hw'⟩ := ihr (index + 1) fun v hv => h v (mem_cons_of_mem _ hv)
        refine ⟨w ++ w', ?_⟩
        rw [substituteItems, hw, expandedItems]
        simp only [bind, Except.bind, hw']
    obtain ⟨w, hw⟩ := hitems items 0 ih
    exact ⟨w, by rw [substituteAny, hw, expandedJson]; rfl⟩
  | obj fields ih =>
    have hfields : ∀ fields : Fields, (∀ p ∈ fields, ∀ path, ∃ warnings,
        substituteAny env true path p.2 = .ok (expandedJson env p.2, warnings)) → ∃ warnings,
        substituteFields env true path fields = .ok (expandedFields env fields, warnings) := by
      intro fields
      induction fields with
      | nil => exact fun _ => ⟨[], by rw [substituteFields, expandedFields]⟩
      | cons p rest ihr =>
        intro h
        obtain ⟨key, value⟩ := p
        obtain ⟨w, hw⟩ := h _ mem_cons_self (keyPathOf path key)
        obtain ⟨w', hw'⟩ := ihr fun p hp => h p (mem_cons_of_mem _ hp)
        refine ⟨w ++ w', ?_⟩
        rw [substituteFields, hw, expandedFields]
        simp only [bind, Except.bind, hw']
    obtain ⟨w, hw⟩ := hfields fields ih
    exact ⟨w, by rw [substituteAny, hw, expandedJson]; rfl⟩
  | _ => exact ⟨[], by rw [substituteAny, expandedJson] <;> simp⟩

theorem resolveConfigEnvVars_onMissing (obj : Json) : ∃ warnings,
    resolveConfigEnvVars env true obj = .ok (expandedJson env obj, warnings) :=
  substituteAny_onMissing env obj ""

end Foxclaw.Config
