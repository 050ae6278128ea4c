import Foxclaw.Config.SensitivePath
import Foxclaw.Lib.Json

/-!
# Redaction of a config

This module models `config/redact-snapshot.ts`: `redactConfigObject` replaces the secrets of
a config by a sentinel, and `restoreRedactedValues` puts them back from the original.

## The model

Both walk a config in one of two ways: with a lookup of paths made of the UI hints that
mark a path sensitive (`buildRedactionLookup`), or by guessing from the path alone, which is
also the way on below a path the lookup does not have. A walk of the redaction returns the
redacted value and the sensitive strings it collected, in order.

The hints are given by their `sensitive` alone. A missing item or property of the original
(`undefined`) is `none`; restoring an item that the original does not have gives
`undefined`, which is written as `null`. The warnings, which only log, are left out.
-/

namespace Foxclaw.Config

open Json (Fields)

def redactedSentinel : String := "__FOXCLAW_REDACTED__"

/-- The UI hints: of each path with a hint, its `sensitive`. -/
abbrev UiHints := List (String × Option Bool)

/-- `hints[path]?.sensitive === b`. -/
def UiHints.marks (hints : UiHints) (path : String) (b : Bool) : Bool :=
  List.lookup path hints = some (some b)

variable (hints : Option UiHints)

def isExplicitlyNonSensitivePath (paths : List String) : Bool :=
  hints.any fun hints => paths.any fun path => hints.marks path false

/-- The parts between the dots. -/
def splitDots : List Char → List (List Char)
  | [] => [[]]
  | c :: cs =>
      if c = '.' then [] :: splitDots cs
      else match splitDots cs with
        | [] => [[c]]
        | part :: parts => (c :: part) :: parts

/-- The text without a final `[]`, if it has one. -/
def dropBrackets? (part : List Char) : Option (List Char) :=
  if endsIn part "[]" then some (part.take (part.length - 2)) else none

/-- The paths that the parts after the first add to the lookup. -/
def lookupPaths (joinedPath : List Char) : List (List Char) → List (List Char)
  | [] => []
  | part :: parts =>
      let array := (dropBrackets? part).map fun part => joinedPath ++ '.' :: part
      let joinedPath := joinedPath ++ '.' :: part
      array.toList ++ joinedPath :: lookupPaths joinedPath parts

/-- The paths that a sensitive path adds to the lookup: its prefixes, and those of its arrays
without the brackets. -/
def pathsOf (path : String) : List String :=
  (match splitDots path.toList with
    | [] => []
    | part :: parts => part :: (dropBrackets? part).toList ++ lookupPaths part parts).map String.ofList

def buildRedactionLookup (hints : UiHints) : List String :=
  let result := (hints.filter fun hint => hint.2 = some true).flatMap fun hint => pathsOf hint.1
  if result.isEmpty then result else result ++ [""]

/-- `prefix ? prefix + "." + key : key`. -/
def joinPath (base key : String) : String := if base = "" then key else base ++ "." ++ key

/-- The path of the items of an array. -/
def itemPath (base : String) : String := base ++ "[]"

/-- The first of the path of a key and its wildcard path that the lookup has. -/
def candidate? (lookup : List String) (base key : String) : Option String :=
  [joinPath base key, joinPath base "*"].find? (· ∈ lookup)

/-- Is the value of a key taken for a secret by its path? -/
def isGuessed (base key : String) : Bool :=
  let path := joinPath base key
  !isExplicitlyNonSensitivePath hints [path, joinPath base "*"] && isSensitivePath path

/-- Are the items of an array taken for secrets by their path? -/
def isGuessedItem (path : String) : Bool :=
  !isExplicitlyNonSensitivePath hints [path] && isSensitivePath path

variable (fields : Fields)

/-- The text of a property. -/
def textOf (key : String) : Option String :=
  match fields.lookup key with
  | some (.str s) => some s
  | _ => none

def isSecretRefShape : Bool :=
  (textOf fields "source").isSome && (textOf fields "id").isSome

/-- A string that is not a placeholder for an environment variable. -/
def secretString? : Json → Option String
  | .str s => if isEnvVarPlaceholder s then none else some s
  | _ => none

/-! ### Redaction -/

/-- A redacted value, and the sensitive strings collected from it. -/
abbrev Redaction (α : Type) := α × List String

/-- A secret is replaced. -/
def redactString (s : String) : Redaction Json := (.str redactedSentinel, [s])

def redactSecretRefId : Redaction Json :=
  match (textOf fields "id").filter fun id => !isEnvVarPlaceholder id with
  | some id => (.obj (fields.set "id" (.str redactedSentinel)), [id])
  | none => (.obj fields, [])

mutual
def collectSensitiveStrings : Json → List String
  | .str s => if isEnvVarPlaceholder s then [] else [s]
  | .arr items => collectItems items
  | .obj fields =>
      if isSecretRefShape fields then
        ((textOf fields "id").filter fun id => !isEnvVarPlaceholder id).toList
      else collectFields fields
  | _ => []
/-- The sensitive strings of the items of an array. -/
def collectItems : List Json → List String
  | [] => []
  | item :: rest => collectSensitiveStrings item ++ collectItems rest
/-- The sensitive strings of the properties of an object. -/
def collectFields : Fields → List String
  | [] => []
  | p :: rest => collectSensitiveStrings p.2 ++ collectFields rest
end

/-- Is the value an object, not an array? -/
def isObject : Json → Bool
  | .obj _ => true
  | _ => false

/-- A value at a guessed path that is not a secret string: `inner` is what the walk goes on to. -/
def redactGuessed (path : String) (value : Json) (inner : Redaction Json) : Redaction Json :=
  if isWholeObjectSensitivePath path && isObject value then
    (.str redactedSentinel, collectSensitiveStrings value)
  else inner

mutual
def redactObjectGuessing (hints : Option UiHints) : Json → String → Redaction Json
  | .arr items, base =>
      let r := redactItemsGuessing hints items (itemPath base)
      (.arr r.1, r.2)
  | .obj fields, base =>
      let r := redactFieldsGuessing hints fields base
      (.obj r.1, r.2)
  | obj, _ => (obj, [])
/-- The items of an array, redacted by guessing. -/
def redactItemsGuessing (hints : Option UiHints) : List Json → String → Redaction (List Json)
  | [], _ => ([], [])
  | item :: rest, path =>
      let r := match if isGuessedItem hints path then secretString? item else none with
        | some s => redactString s
        | none => redactObjectGuessing hints item path
      let rs := redactItemsGuessing hints rest path
      (r.1 :: rs.1, r.2 ++ rs.2)
/-- The properties of an object, redacted by guessing. -/
def redactFieldsGuessing (hints : Option UiHints) : Fields → String → Redaction Fields
  | [], _ => ([], [])
  | (key, value) :: rest, base =>
      let path := joinPath base key
      let inner := redactObjectGuessing hints value path
      let r := if isGuessed hints base key then
          match secretString? value with
          | some s => redactString s
          | none => redactGuessed path value inner
        else inner
      let rs := redactFieldsGuessing hints rest base
      ((key, r.1) :: rs.1, r.2 ++ rs.2)
end

/-- A value at a path that a hint marks sensitive, and that is not a secret string: an object
or a primitive (a placeholder too) is redacted as a whole, a reference by its id. -/
def redactMarked (value : Json) (inner : Redaction Json) : Redaction Json :=
  match value with
  | .obj fields =>
      if isSecretRefShape fields then redactSecretRefId fields
      else (.str redactedSentinel, collectSensitiveStrings value)
  | .bool _ | .num _ | .str _ => (.str redactedSentinel, [])
  | _ => inner

mutual
def redactObjectWithLookup (hints : UiHints) (lookup : List String) : Json → String → Redaction Json
  | .arr items, base =>
      if itemPath base ∈ lookup then
        let r := redactItemsWithLookup hints lookup items (itemPath base)
        (.arr r.1, r.2)
      else redactObjectGuessing hints (.arr items) base
  | .obj fields, base =>
      let r := redactFieldsWithLookup hints lookup fields base
      (.obj r.1, r.2)
  | obj, _ => (obj, [])
/-- The items of an array that the lookup has. -/
def redactItemsWithLookup (hints : UiHints) (lookup : List String) :
    List Json → String → Redaction (List Json)
  | [], _ => ([], [])
  | item :: rest, path =>
      let r := match secretString? item with
        | some s => redactString s
        | none => redactObjectWithLookup hints lookup item path
      let rs := redactItemsWithLookup hints lookup rest path
      (r.1 :: rs.1, r.2 ++ rs.2)
/-- The properties of an object. -/
def redactFieldsWithLookup (hints : UiHints) (lookup : List String) :
    Fields → String → Redaction Fields
  | [], _ => ([], [])
  | (key, value) :: rest, base =>
      let r := match candidate? lookup base key with
        | some candidate => match secretString? value with
          | some s => redactString s
          | none =>
              let inner := redactObjectWithLookup hints lookup value candidate
              if hints.marks candidate true then redactMarked value inner else inner
        | none => match if isGuessed hints base key then secretString? value else none with
          | some s => redactString s
          | none => redactObjectGuessing hints value (joinPath base key)
      let rs := redactFieldsWithLookup hints lookup rest base
      ((key, r.1) :: rs.1, r.2 ++ rs.2)
end

def redactObject (obj : Json) : Option UiHints → Redaction Json
  | some hints =>
      let lookup := buildRedactionLookup hints
      if "" ∈ lookup then redactObjectWithLookup hints lookup obj ""
      else redactObjectGuessing hints obj ""
  | none => redactObjectGuessing none obj ""

def redactConfigObject (value : Json) (uiHints : Option UiHints) : Json := (redactObject value uiHints).1

def collectSensitiveValues (obj : Json) (hints : Option UiHints) : List String := (redactObject obj hints).2

/-! ### Restoration -/

/-- Why nothing is restored. -/
inductive RestoreError where
  | noInput
  /-- `input not an object`. -/
  | notAnObject
  /-- `RedactionError`: the sentinel at a path where the original has nothing. -/
  | redaction (key : String)
  deriving DecidableEq

/-- `value === REDACTED_SENTINEL`. -/
def isSentinel : Json → Bool
  | .str s => s = redactedSentinel
  | _ => false

def restoreOriginalValueOrThrow (key path : String) (original : Fields) : Except RestoreError Json :=
  match original.lookup key with
  | some value => .ok value
  | none => .error (.redaction path)

/-- `Array.isArray(original) ? original : []`. -/
def originalItems : Option Json → List Json
  | some (.arr items) => items
  | _ => []

def toObjectRecord : Option Json → Fields
  | some (.obj fields) => fields
  | _ => []

/-- `originalArray[index]`, of an item that is to be restored. -/
def originalItem (item : Option Json) : Json := item.getD .null

mutual
def restoreRedactedValuesGuessing (hints : Option UiHints) :
    Json → Option Json → String → Except RestoreError Json
  | .arr incoming, original, base =>
      (restoreItemsGuessing hints incoming (originalItems original) (itemPath base)).map .arr
  | .obj incoming, original, base =>
      (restoreFieldsGuessing hints incoming (toObjectRecord original) base).map .obj
  | incoming, _, _ => .ok incoming
/-- `restoreGuessingArray`. -/
def restoreItemsGuessing (hints : Option UiHints) :
    List Json → List Json → String → Except RestoreError (List Json)
  | [], _, _ => .ok []
  | item :: rest, original, path =>
      (if isGuessedItem hints path && isSentinel item then .ok (originalItem original.head?)
        else restoreRedactedValuesGuessing hints item original.head? path).bind fun item =>
      (restoreItemsGuessing hints rest original.tail path).bind fun rest => .ok (item :: rest)
/-- The properties of an object, restored by guessing. -/
def restoreFieldsGuessing (hints : Option UiHints) :
    Fields → Fields → String → Except RestoreError Fields
  | [], _, _ => .ok []
  | (key, value) :: rest, original, base =>
      let path := joinPath base key
      (if isGuessed hints base key && isSentinel value then restoreOriginalValueOrThrow key path original
        else restoreRedactedValuesGuessing hints value (original.lookup key) path).bind fun value =>
      (restoreFieldsGuessing hints rest original base).bind fun rest => .ok ((key, value) :: rest)
end

mutual
def restoreRedactedValuesWithLookup (hints : UiHints) (lookup : List String) :
    Json → Option Json → String → Except RestoreError Json
  | .arr incoming, original, base =>
      if itemPath base ∈ lookup then
        (restoreItemsWithLookup hints lookup incoming (originalItems original) (itemPath base)).map .arr
      else restoreRedactedValuesGuessing hints (.arr incoming) original base
  | .obj incoming, original, base =>
      (restoreFieldsWithLookup hints lookup incoming (toObjectRecord original) base).map .obj
  | incoming, _, _ => .ok incoming
/-- The items of an array that the lookup has. -/
def restoreItemsWithLookup (hints : UiHints) (lookup : List String) :
    List Json → List Json → String → Except RestoreError (List Json)
  | [], _, _ => .ok []
  | item :: rest, original, path =>
      (if isSentinel item then .ok (originalItem original.head?)
        else restoreRedactedValuesWithLookup hints lookup item original.head? path).bind fun item =>
      (restoreItemsWithLookup hints lookup rest original.tail path).bind fun rest => .ok (item :: rest)
/-- The properties of an object. -/
def restoreFieldsWithLookup (hints : UiHints) (lookup : List String) :
    Fields → Fields → String → Except RestoreError Fields
  | [], _, _ => .ok []
  | (key, value) :: rest, original, base =>
      (match candidate? lookup base key with
        | some candidate =>
            if isSentinel value then restoreOriginalValueOrThrow key candidate original
            else restoreRedactedValuesWithLookup hints lookup value (original.lookup key) candidate
        | none =>
            let path := joinPath base key
            if isGuessed hints base key && isSentinel value then
              restoreOriginalValueOrThrow key path original
            else restoreRedactedValuesGuessing hints value (original.lookup key) path).bind fun value =>
      (restoreFieldsWithLookup hints lookup rest original base).bind fun rest =>
        .ok ((key, value) :: rest)
end

/-- The walk of `restoreRedactedValues`, by the hints there are. -/
def restoreObject (incoming original : Json) : Option UiHints → Except RestoreError Json
  | some hints =>
      let lookup := buildRedactionLookup hints
      if "" ∈ lookup then restoreRedactedValuesWithLookup hints lookup incoming (some original) ""
      else restoreRedactedValuesGuessing hints incoming (some original) ""
  | none => restoreRedactedValuesGuessing none incoming (some original) ""

/-- `restoreRedactedValues`; `undefined` is `none`. -/
def restoreRedactedValues (incoming : Option Json) (original : Json) (hints : Option UiHints) :
    Except RestoreError Json :=
  match incoming with
  | none | some .null => .error .noInput
  | some (.bool _) | some (.num _) | some (.str _) => .error .notAnObject
  | some incoming => restoreObject incoming original hints

end Foxclaw.Config
