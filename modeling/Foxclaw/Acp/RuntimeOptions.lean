import Foxclaw.Lib.JsMap
import Foxclaw.Lib.JsNumber
import Foxclaw.Lib.Text
import Mathlib.Data.List.Sort

/-!
# The runtime options of a session

This module models `acp/control-plane/runtime-options.ts`, with the errors of `acp/runtime/errors.ts`: how
options are validated, normalised and merged, the pairs that are pushed to the runtime, and the signature of
what was pushed. Paths are those of POSIX. The signature is kept as the value whose JSON text the source
compares, and the order of `localeCompare` is given.
-/

namespace Foxclaw.Acp

/-! ### Errors -/

inductive AcpRuntimeErrorCode where
  /-- `ACP_BACKEND_MISSING`. -/
  | backendMissing
  /-- `ACP_BACKEND_UNAVAILABLE`. -/
  | backendUnavailable
  /-- `ACP_BACKEND_UNSUPPORTED_CONTROL`. -/
  | backendUnsupportedControl
  /-- `ACP_DISPATCH_DISABLED`. -/
  | dispatchDisabled
  /-- `ACP_INVALID_RUNTIME_OPTION`. -/
  | invalidRuntimeOption
  /-- `ACP_SESSION_INIT_FAILED`. -/
  | sessionInitFailed
  /-- `ACP_TURN_FAILED`. -/
  | turnFailed
  deriving DecidableEq

/-- `ACP_ERROR_CODES`, with the texts of the codes. -/
def ACP_ERROR_CODES : List (AcpRuntimeErrorCode × String) :=
  [(.backendMissing, "ACP_BACKEND_MISSING"), (.backendUnavailable, "ACP_BACKEND_UNAVAILABLE"),
    (.backendUnsupportedControl, "ACP_BACKEND_UNSUPPORTED_CONTROL"),
    (.dispatchDisabled, "ACP_DISPATCH_DISABLED"), (.invalidRuntimeOption, "ACP_INVALID_RUNTIME_OPTION"),
    (.sessionInitFailed, "ACP_SESSION_INIT_FAILED"), (.turnFailed, "ACP_TURN_FAILED")]

/-- What is thrown. -/
inductive Thrown where
  /-- An `AcpRuntimeError`. -/
  | acp (code : AcpRuntimeErrorCode) (message : String)
  /-- Another `Error`. -/
  | error (message : String)
  /-- A value that is no `Error`. -/
  | other
  deriving DecidableEq

def toAcpRuntimeError (error : Thrown) (fallbackCode : AcpRuntimeErrorCode) (fallbackMessage : String) :
    AcpRuntimeErrorCode × String :=
  match error with
  | .acp code message => (code, message)
  | .error message => (fallbackCode, message)
  | .other => (fallbackCode, fallbackMessage)

/-! ### Validation -/

def normalizeText (value : Option String) : Option String :=
  (value.map Text.trimString).filter fun text => text ≠ ""

def failInvalidOption {α : Type} (message : String) : Except Thrown α :=
  .error (.acp .invalidRuntimeOption message)

def validateNoControlChars (value field : String) : Except Thrown String :=
  if value.toList.any fun c => c.toNat < 32 || c.toNat = 127 then
    failInvalidOption s!"{field} must not include control characters."
  else .ok value

def validateBoundedText (value : Option String) (field : String) (maxLength : ℕ) : Except Thrown String :=
  match normalizeText value with
  | none => failInvalidOption s!"{field} must not be empty."
  | some normalized =>
    if Text.utf16Length normalized > maxLength then
      failInvalidOption s!"{field} must be at most {maxLength} characters."
    else validateNoControlChars normalized field

/-- A letter or a digit of ASCII. -/
def isAsciiAlphanum (c : Char) : Bool := c.isAlpha || c.isDigit

/-- `SAFE_OPTION_KEY_RE`. -/
def isSafeOptionKey (key : String) : Bool :=
  match key.toList with
  | [] => false
  | c :: cs => isAsciiAlphanum c && cs.all fun c => isAsciiAlphanum c || ['.', '_', ':', '-'].contains c

def validateBackendOptionKey (rawKey : String) : Except Thrown String := do
  let key ← validateBoundedText (some rawKey) "ACP config key" 64
  if isSafeOptionKey key then .ok key
  else failInvalidOption "ACP config key must use letters, numbers, dots, colons, underscores, or dashes."

def validateBackendOptionValue (rawValue : String) : Except Thrown String :=
  validateBoundedText (some rawValue) "ACP config value" 512

def validateRuntimeModeInput (rawMode : String) : Except Thrown String :=
  validateBoundedText (some rawMode) "Runtime mode" 64

def validateRuntimeModelInput (rawModel : String) : Except Thrown String :=
  validateBoundedText (some rawModel) "Model id" 200

def validateRuntimePermissionProfileInput (rawProfile : String) : Except Thrown String :=
  validateBoundedText (some rawProfile) "Permission profile" 80

def validateRuntimeCwdInput (rawCwd : String) : Except Thrown String := do
  let cwd ← validateBoundedText (some rawCwd) "Working directory" 4096
  if cwd.startsWith "/" then .ok cwd
  else failInvalidOption s!"Working directory must be an absolute path. Received \"{cwd}\"."

/-- `Math.round`: halves go up. -/
def round (q : ℚ) : ℤ := ⌊q + 1 / 2⌋

def validateRuntimeTimeoutSecondsInput (rawTimeout : JsNumber) : Except Thrown JsNumber :=
  match rawTimeout with
  | .fin q =>
    if round q < 1 ∨ 86400 < round q then failInvalidOption "Timeout must be between 1 and 86400 seconds."
    else .ok (.fin (round q))
  | _ => failInvalidOption "Timeout must be a positive integer in seconds."

/-- `Number.parseInt` of digits. -/
def parseDigits (text : String) : ℕ := text.toList.foldl (fun n c => n * 10 + (c.toNat - 48)) 0

def parseRuntimeTimeoutSecondsInput (rawTimeout : String) : Except Thrown JsNumber :=
  match normalizeText (some rawTimeout) with
  | none => failInvalidOption "Timeout must be a positive integer in seconds."
  | some normalized =>
    if normalized.toList.all Char.isDigit then
      validateRuntimeTimeoutSecondsInput (.fin (parseDigits normalized))
    else failInvalidOption "Timeout must be a positive integer in seconds."

def validateRuntimeConfigOptionInput (rawKey rawValue : String) : Except Thrown (String × String) := do
  let key ← validateBackendOptionKey rawKey
  let value ← validateBackendOptionValue rawValue
  .ok (key, value)

/-! ### Options -/

/-- `AcpSessionRuntimeOptions`, also as a patch: a field that is `undefined` is as one that is not there. -/
structure RuntimeOptions where
  runtimeMode : Option String := none
  model : Option String := none
  cwd : Option String := none
  permissionProfile : Option String := none
  timeoutSeconds : Option JsNumber := none
  backendExtras : Option (JsMap String String) := none
  deriving DecidableEq

/-- A field of a patch, validated if it is there. -/
def validateField {α β : Type} (validate : α → Except Thrown β) : Option α → Except Thrown (Option β)
  | none => .ok none
  | some value => (validate value).map some

/-- The entries of `backendExtras`, validated one after the other. -/
def validateExtras : List (String × String) → JsMap String String → Except Thrown (JsMap String String)
  | [], extras => .ok extras
  | (entryKey, entryValue) :: rest, extras => do
    let (key, value) ← validateRuntimeConfigOptionInput entryKey entryValue
    validateExtras rest (extras.set key value)

/-- `validateRuntimeOptionPatch`, on `backendExtras`. -/
def validateBackendExtras (rawExtras : JsMap String String) : Except Thrown (Option (JsMap String String)) :=
  if 32 < rawExtras.size then failInvalidOption "Backend extras must include at most 32 entries."
  else do
    let extras ← validateExtras rawExtras.entries .empty
    .ok (if extras.size = 0 then none else some extras)

def validateRuntimeOptionPatch (patch : RuntimeOptions) : Except Thrown RuntimeOptions := do
  let runtimeMode ← validateField validateRuntimeModeInput patch.runtimeMode
  let model ← validateField validateRuntimeModelInput patch.model
  let cwd ← validateField validateRuntimeCwdInput patch.cwd
  let permissionProfile ← validateField validateRuntimePermissionProfileInput patch.permissionProfile
  let timeoutSeconds ← validateField validateRuntimeTimeoutSecondsInput patch.timeoutSeconds
  let backendExtras ← match patch.backendExtras with
    | none => .ok none
    | some rawExtras => validateBackendExtras rawExtras
  .ok { runtimeMode, model, cwd, permissionProfile, timeoutSeconds, backendExtras }

/-- The timeout that is kept. -/
def normalizeTimeout : Option JsNumber → Option ℤ
  | some (.fin q) => if 0 < round q then some (round q) else none
  | _ => none

/-- The entries that are kept of `backendExtras`. -/
def normalizeExtras (extras : JsMap String String) : List (String × String) :=
  extras.entries.filterMap fun e =>
    match normalizeText (some e.1), normalizeText (some e.2) with
    | some key, some value => some (key, value)
    | _, _ => none

/-- `Object.fromEntries`. -/
def fromEntries (entries : List (String × String)) : JsMap String String :=
  entries.foldl (fun m e => m.set e.1 e.2) .empty

def normalizeRuntimeOptions (options : RuntimeOptions) : RuntimeOptions where
  runtimeMode := normalizeText options.runtimeMode
  model := normalizeText options.model
  cwd := normalizeText options.cwd
  permissionProfile := normalizeText options.permissionProfile
  timeoutSeconds := (normalizeTimeout options.timeoutSeconds).map fun seconds : ℤ => .fin seconds
  backendExtras :=
    let backendExtrasEntries := normalizeExtras (options.backendExtras.getD .empty)
    if backendExtrasEntries = [] then none else some (fromEntries backendExtrasEntries)

/-- `{ ...current, ...patch }` of the extras. -/
def mergeExtras (current patch : Option (JsMap String String)) : JsMap String String :=
  (patch.getD .empty).entries.foldl (fun m e => m.set e.1 e.2) (current.getD .empty)

def mergeRuntimeOptions (current patch : RuntimeOptions) : Except Thrown RuntimeOptions := do
  let current := normalizeRuntimeOptions current
  let patch := normalizeRuntimeOptions (← validateRuntimeOptionPatch patch)
  let mergedExtras := mergeExtras current.backendExtras patch.backendExtras
  .ok (normalizeRuntimeOptions
    { runtimeMode := patch.runtimeMode.or current.runtimeMode
      model := patch.model.or current.model
      cwd := patch.cwd.or current.cwd
      permissionProfile := patch.permissionProfile.or current.permissionProfile
      timeoutSeconds := patch.timeoutSeconds.or current.timeoutSeconds
      backendExtras :=
        if mergedExtras.size = 0 then patch.backendExtras.or current.backendExtras else some mergedExtras })

def runtimeOptionsEqual (a b : Option RuntimeOptions) : Bool :=
  normalizeRuntimeOptions (a.getD {}) = normalizeRuntimeOptions (b.getD {})

/-- The value whose JSON text `buildRuntimeControlSignature` returns. -/
structure ControlSignature where
  runtimeMode : Option String
  model : Option String
  permissionProfile : Option String
  timeoutSeconds : Option JsNumber
  backendExtras : List (String × String)
  deriving DecidableEq

/-- `buildRuntimeControlSignature`; `localeLe` is the order of `localeCompare`. -/
def buildRuntimeControlSignature (localeLe : String → String → Bool) (options : RuntimeOptions) :
    ControlSignature :=
  let normalized := normalizeRuntimeOptions options
  { runtimeMode := normalized.runtimeMode
    model := normalized.model
    permissionProfile := normalized.permissionProfile
    timeoutSeconds := normalized.timeoutSeconds
    backendExtras := (normalized.backendExtras.getD .empty).entries.mergeSort fun a b => localeLe a.1 b.1 }

/-- `String` of a number of seconds. -/
def secondsText (seconds : ℤ) : String := toString seconds

/-- A pair is set when there is a value. -/
def setPair (key : String) (value : Option String) (pairs : JsMap String String) : JsMap String String :=
  match value with
  | none => pairs
  | some value => pairs.set key value

def buildRuntimeConfigOptionPairs (options : RuntimeOptions) : JsMap String String :=
  let normalized := normalizeRuntimeOptions options
  let pairs := setPair "model" normalized.model .empty
  let pairs := setPair "approval_policy" normalized.permissionProfile pairs
  let pairs := setPair "timeout" ((normalizeTimeout normalized.timeoutSeconds).map secondsText) pairs
  (normalized.backendExtras.getD .empty).entries.foldl
    (fun pairs e => if pairs.has e.1 then pairs else pairs.set e.1 e.2) pairs

/-- `inferRuntimeOptionPatchFromConfigOption`; a key that is valid has no letters but those of ASCII. -/
def inferRuntimeOptionPatchFromConfigOption (key value : String) : Except Thrown RuntimeOptions := do
  let (key, value) ← validateRuntimeConfigOptionInput key value
  let normalizedKey := key.toLower
  if normalizedKey = "model" then
    .ok { model := some (← validateRuntimeModelInput value) }
  else if normalizedKey = "approval_policy" ∨ normalizedKey = "permission_profile" ∨
      normalizedKey = "permissions" then
    .ok { permissionProfile := some (← validateRuntimePermissionProfileInput value) }
  else if normalizedKey = "timeout" ∨ normalizedKey = "timeout_seconds" then
    .ok { timeoutSeconds := some (← parseRuntimeTimeoutSecondsInput value) }
  else if normalizedKey = "cwd" then
    .ok { cwd := some (← validateRuntimeCwdInput value) }
  else
    .ok { backendExtras := some (JsMap.empty.set key value) }

/-! ### Options that are normal -/

@[simp] theorem normalizeText_normalizeText (value : Option String) :
    normalizeText (normalizeText value) = normalizeText value := by
  cases value with
  | none => rfl
  | some text =>
    by_cases h : Text.trimString text = "" <;> simp [normalizeText, Option.filter, h]

theorem round_intCast (n : ℤ) : round n = n := by
  rw [round, Int.floor_eq_iff]
  constructor <;> linarith

@[simp] theorem normalizeTimeout_normalizeTimeout (timeout : Option JsNumber) :
    normalizeTimeout ((normalizeTimeout timeout).map fun seconds : ℤ => .fin seconds) =
      normalizeTimeout timeout := by
  rcases timeout with - | (- | - | q | -)
  case some.fin => by_cases h : 0 < round q <;> simp [normalizeTimeout, round_intCast, h]
  all_goals rfl

/-- An entry that normalising keeps as it is. -/
def IsNormal (e : String × String) : Prop := normalizeText (some e.1) = some e.1 ∧ normalizeText (some e.2) = some e.2

variable {value : Option String}

theorem normalized_of_eq {text : String} (h : normalizeText value = some text) :
    normalizeText (some text) = some text := by
  rw [← h, normalizeText_normalizeText, h]

variable {extras : JsMap String String}

theorem isNormal_normalizeExtras : ∀ e ∈ normalizeExtras extras, IsNormal e := by
  intro e he
  obtain ⟨e', -, he'⟩ := List.mem_filterMap.mp he
  split at he'
  · rename_i key value hkey hvalue
    cases he'
    exact ⟨normalized_of_eq hkey, normalized_of_eq hvalue⟩
  · cases he'

theorem normalizeExtras_of_isNormal (h : ∀ e ∈ extras.entries, IsNormal e) :
    normalizeExtras extras = extras.entries := by
  refine (List.filterMap_congr fun e he => ?_).trans List.filterMap_some
  obtain ⟨hkey, hvalue⟩ := h e he
  rw [hkey, hvalue]

theorem normalizeExtras_fromEntries (extras : JsMap String String) :
    normalizeExtras (fromEntries (normalizeExtras extras)) = (fromEntries (normalizeExtras extras)).entries :=
  normalizeExtras_of_isNormal (JsMap.forall_foldl_set isNormal_normalizeExtras (fun _ h => absurd h List.not_mem_nil))

theorem fromEntries_entries (extras : JsMap String String) : fromEntries extras.entries = extras :=
  extras.foldl_set_entries

/-- Normal options stay as they are. -/
@[simp] theorem normalizeRuntimeOptions_normalizeRuntimeOptions (options : RuntimeOptions) :
    normalizeRuntimeOptions (normalizeRuntimeOptions options) = normalizeRuntimeOptions options := by
  have hextras : (normalizeRuntimeOptions (normalizeRuntimeOptions options)).backendExtras =
      (normalizeRuntimeOptions options).backendExtras := by
    unfold normalizeRuntimeOptions
    dsimp only
    split
    · rfl
    · rename_i hne
      rw [Option.getD_some, normalizeExtras_fromEntries, fromEntries_entries]
      exact if_neg (JsMap.foldl_set_ne_nil (.inl hne))
  unfold normalizeRuntimeOptions at hextras ⊢
  dsimp only at hextras ⊢
  rw [hextras]
  simp

/-! ### Values that were validated -/

/-- A text that was validated stays valid. -/
theorem validateBoundedText_self {field text : String} {maxLength : ℕ}
    (h : validateBoundedText value field maxLength = .ok text) :
    validateBoundedText (some text) field maxLength = .ok text := by
  unfold validateBoundedText at h
  split at h
  · cases h
  · rename_i normalized hnormalized
    split at h
    · cases h
    · rename_i hlength
      have hself : text = normalized := by
        unfold validateNoControlChars at h
        split at h <;> cases h
        rfl
      rw [validateBoundedText, hself, normalized_of_eq hnormalized]
      simp only [hlength, if_false]
      exact hself ▸ h

theorem bind_eq_ok {α β : Type} {x : Except Thrown α} {f : α → Except Thrown β} {b : β}
    (h : x >>= f = .ok b) : ∃ a, x = .ok a ∧ f a = .ok b := by
  cases x with
  | error e => cases h
  | ok a => exact ⟨a, rfl, h⟩

theorem validateRuntimeCwdInput_self {rawCwd cwd : String} (h : validateRuntimeCwdInput rawCwd = .ok cwd) :
    validateRuntimeCwdInput cwd = .ok cwd := by
  obtain ⟨text, htext, h⟩ := bind_eq_ok h
  split at h
  · rename_i hstart
    cases h
    rw [validateRuntimeCwdInput, validateBoundedText_self htext]
    exact if_pos hstart
  · cases h

theorem validateRuntimeTimeoutSecondsInput_self {rawTimeout timeout : JsNumber}
    (h : validateRuntimeTimeoutSecondsInput rawTimeout = .ok timeout) :
    validateRuntimeTimeoutSecondsInput timeout = .ok timeout := by
  unfold validateRuntimeTimeoutSecondsInput at h
  split at h
  · split at h
    · cases h
    · rename_i hrange
      cases h
      simp only [validateRuntimeTimeoutSecondsInput, round_intCast]
      exact if_neg hrange
  · cases h

theorem validateRuntimeConfigOptionInput_self {rawKey rawValue : String} {pair : String × String}
    (h : validateRuntimeConfigOptionInput rawKey rawValue = .ok pair) :
    validateRuntimeConfigOptionInput pair.1 pair.2 = .ok pair := by
  obtain ⟨key, hkey, h⟩ := bind_eq_ok h
  obtain ⟨value, hvalue, h⟩ := bind_eq_ok h
  obtain ⟨text, htext, hkey⟩ := bind_eq_ok hkey
  cases h
  split at hkey
  · rename_i hsafe
    cases hkey
    rw [validateRuntimeConfigOptionInput, validateBackendOptionKey, validateBackendOptionValue,
      validateBoundedText_self htext, validateBoundedText_self hvalue]
    change (if isSafeOptionKey key then _ else _) >>= _ = _
    rw [if_pos hsafe]
    rfl
  · cases hkey

/-- What is inferred from an option is a valid patch. -/
theorem validateRuntimeOptionPatch_inferred {key value : String} {patch : RuntimeOptions}
    (h : inferRuntimeOptionPatchFromConfigOption key value = .ok patch) :
    ∃ valid, validateRuntimeOptionPatch patch = .ok valid := by
  obtain ⟨pair, hpair, h⟩ := bind_eq_ok h
  dsimp only at h
  split at h
  · obtain ⟨model, hmodel, ⟨⟩⟩ := bind_eq_ok h
    have hself : validateRuntimeModelInput model = .ok model := validateBoundedText_self hmodel
    refine ⟨{ model := some model }, ?_⟩
    simp only [validateRuntimeOptionPatch, validateField, hself]
    rfl
  split at h
  · obtain ⟨profile, hprofile, ⟨⟩⟩ := bind_eq_ok h
    have hself : validateRuntimePermissionProfileInput profile = .ok profile := validateBoundedText_self hprofile
    refine ⟨{ permissionProfile := some profile }, ?_⟩
    simp only [validateRuntimeOptionPatch, validateField, hself]
    rfl
  split at h
  · obtain ⟨timeout, htimeout, ⟨⟩⟩ := bind_eq_ok h
    have hself : validateRuntimeTimeoutSecondsInput timeout = .ok timeout := by
      unfold parseRuntimeTimeoutSecondsInput at htimeout
      split at htimeout
      · cases htimeout
      · split at htimeout
        · exact validateRuntimeTimeoutSecondsInput_self htimeout
        · cases htimeout
    refine ⟨{ timeoutSeconds := some timeout }, ?_⟩
    simp only [validateRuntimeOptionPatch, validateField, hself]
    rfl
  split at h
  · obtain ⟨cwd, hcwd, ⟨⟩⟩ := bind_eq_ok h
    refine ⟨{ cwd := some cwd }, ?_⟩
    simp only [validateRuntimeOptionPatch, validateField, validateRuntimeCwdInput_self hcwd]
    rfl
  · cases h
    refine ⟨{ backendExtras := some (JsMap.empty.set pair.1 pair.2) }, ?_⟩
    have hextras : validateBackendExtras (JsMap.empty.set pair.1 pair.2) =
        .ok (some (JsMap.empty.set pair.1 pair.2)) := by
      change (validateRuntimeConfigOptionInput pair.1 pair.2 >>= _) >>= _ = _
      rw [validateRuntimeConfigOptionInput_self hpair]
      rfl
    simp only [validateRuntimeOptionPatch, validateField, hextras]
    rfl

theorem validateRuntimeOptionPatch_mode {rawMode mode : String} (h : validateRuntimeModeInput rawMode = .ok mode) :
    validateRuntimeOptionPatch { runtimeMode := some mode } = .ok { runtimeMode := some mode } := by
  have hself : validateRuntimeModeInput mode = .ok mode := validateBoundedText_self h
  simp only [validateRuntimeOptionPatch, validateField, hself]
  rfl

theorem mergeRuntimeOptions_ok (current : RuntimeOptions) {patch valid : RuntimeOptions}
    (h : validateRuntimeOptionPatch patch = .ok valid) :
    ∃ merged, mergeRuntimeOptions current patch = .ok merged := by
  rw [mergeRuntimeOptions, h]
  exact ⟨_, rfl⟩

end Foxclaw.Acp
