import Foxclaw.Config.Redact
import Foxclaw.Lib.ReplaceAll
import Mathlib.Data.List.Sort

/-!
# Redaction of a config snapshot

This module models `redactConfigSnapshot` of `config/redact-snapshot.ts` with
`config/redact-snapshot.raw.ts`: the source text of a config is redacted by replacing the
secrets in it, and checked by reading it back.

## The model

`JSON5.parse` and `JSON5.stringify` are parameters; a text that does not parse gives none. The
fields of a snapshot that are only passed on are left out.
-/

namespace Foxclaw.Config

/-- The package `json5`. -/
structure Json5 where
  /-- `JSON5.parse`; none if it throws. -/
  parse : String → Option Json
  /-- `JSON5.stringify(value, null, 2)`. -/
  stringify : Json → String

structure ConfigFileSnapshot where
  valid : Bool
  raw : Option String
  parsed : Json
  config : Json
  resolved : Json

def replaceSensitiveValuesInRaw (raw : String) (sensitiveValues : List String)
    (redactedSentinel : String) : String :=
  let values := sensitiveValues.insertionSort fun a b => Text.utf16Length b ≤ Text.utf16Length a
  String.ofList ((values.map (·.toList)).foldl
    (fun result value => Text.replaceAll value redactedSentinel.toList result) raw.toList)

def redactRawText (raw : String) (config : Json) (hints : Option UiHints) : String :=
  replaceSensitiveValuesInRaw raw (collectSensitiveValues config hints) redactedSentinel

variable (json5 : Json5)

def shouldFallbackToStructuredRawRedaction (redactedRaw : String) (originalConfig : Json)
    (restoreParsed : Json → Except RestoreError Json) : Bool :=
  match json5.parse redactedRaw with
  | none => true
  | some parsed =>
    match restoreParsed parsed with
    | .error _ => true
    | .ok result => !Json.deepEqual result originalConfig

/-- Is the value truthy? -/
def isTruthy : Json → Bool
  | .null => false
  | .bool b => b
  | .num n => n ≠ 0
  | .str s => s ≠ ""
  | .arr _ => true
  | .obj _ => true

variable (snapshot : ConfigFileSnapshot) (uiHints : Option UiHints)

def redactedParsed : Json :=
  if isTruthy snapshot.parsed then (redactObject snapshot.parsed uiHints).1 else snapshot.parsed

/-- `redactedParsed ?? redactedConfig`. -/
def structuredRedaction : Json :=
  match redactedParsed snapshot uiHints with
  | .null => (redactObject snapshot.config uiHints).1
  | redacted => redacted

/-- The check of the redacted text of a snapshot. -/
def fallsBack (redactedRaw : String) : Bool :=
  shouldFallbackToStructuredRawRedaction json5 redactedRaw snapshot.config fun parsed =>
    restoreRedactedValues (some parsed) snapshot.config uiHints

def redactConfigSnapshot : ConfigFileSnapshot :=
  if snapshot.valid = false then
    { snapshot with config := .obj [], raw := none, parsed := .null, resolved := .obj [] }
  else
    let redactedRaw :=
      (snapshot.raw.filter (· ≠ "")).map fun raw => redactRawText raw snapshot.config uiHints
    let redactedRaw := redactedRaw.map fun redactedRaw =>
      if redactedRaw ≠ "" ∧ fallsBack json5 snapshot uiHints redactedRaw = true then
        json5.stringify (structuredRedaction snapshot uiHints)
      else redactedRaw
    { snapshot with
      config := (redactObject snapshot.config uiHints).1
      raw := redactedRaw
      parsed := redactedParsed snapshot uiHints
      resolved := redactConfigObject snapshot.resolved uiHints }

end Foxclaw.Config
