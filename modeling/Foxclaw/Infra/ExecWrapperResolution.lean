import Foxclaw.Lib.JsNumber
import Foxclaw.Lib.Text

/-!
# Wrappers of commands

This module models `infra/exec-wrapper-resolution.ts`: a command that another command runs (`env`,
`nice`, `nohup`, `stdbuf`, `timeout`) is taken out of it, layer by layer; other commands that run a
command (`sudo`, …), options that are not known, and `env` with anything to set are blocked.

## The model

A token is a list of characters, an `argv` a list of tokens. An index into `argv` is the rest of
`argv` from there. `toLowerCase` is left open, up to the empty text. `maxDepth` may be any number.
The loop is given as many turns as `argv` has tokens, and one more; as each turn removes a token,
it does not need them all. The part about shells is left out.
-/

namespace Foxclaw.Infra.ExecWrapper

open Foxclaw.Text (trim)

/-- A text. -/
abbrev Token := List Char

/-- Texts, written as strings. -/
abbrev tokens (texts : List String) : List Token := texts.map String.toList

/-- What is left open. -/
structure WrapperEnv where
  toLowerCase : Token → Token
  /-- There is nothing to change in the empty text. -/
  toLowerCase_nil : toLowerCase [] = []

/-! ### Names -/

def WINDOWS_EXECUTABLE_SUFFIXES : List Token := tokens [".exe", ".cmd", ".bat", ".com"]

def DISPATCH_WRAPPER_NAMES : List Token :=
  tokens ["chrt", "doas", "env", "ionice", "nice", "nohup", "setsid", "stdbuf", "sudo", "taskset",
    "timeout"]

def stripWindowsExecutableSuffix (value : Token) : Token :=
  match WINDOWS_EXECUTABLE_SUFFIXES.find? fun suffix => suffix.isSuffixOf value with
  | some suffix => value.take (value.length - suffix.length)
  | none => value

/-- The last component of a path; separators behind it do not count. -/
def lastComponent (isSeparator : Char → Bool) (path : Token) : Token :=
  (path.rdropWhile isSeparator).rtakeWhile fun c => !isSeparator c

/-- `path.posix.basename`. -/
def posixBasename (path : Token) : Token := lastComponent (· = '/') path

/-- `path.win32.basename`: a drive letter is left out. -/
def win32Basename (path : Token) : Token :=
  let isSeparator := fun c : Char => c = '/' || c = '\\'
  match path with
  | letter :: ':' :: rest =>
    if letter.isAlpha then lastComponent isSeparator rest else lastComponent isSeparator path
  | _ => lastComponent isSeparator path

variable (env : WrapperEnv)

variable (token : Token)

def basenameLower : Token :=
  let win := win32Basename token
  let posix := posixBasename token
  env.toLowerCase (trim (if win.length < posix.length then win else posix))

def normalizeExecutableToken : Token :=
  stripWindowsExecutableSuffix (basenameLower env token)

def isDispatchWrapperExecutable : Bool :=
  normalizeExecutableToken env token ∈ DISPATCH_WRAPPER_NAMES

/-! ### Scanning an invocation -/

inductive WrapperScanDirective where
  | continue
  | consumeNext
  | stop
  | invalid
  deriving DecidableEq

/-- The loop of `scanWrapperInvocation`: where it stops. -/
def scanFrom (separators : List Token) (onToken : Token → WrapperScanDirective) :
    Bool → List Token → Option (List Token)
  | expectsOptionValue, [] => if expectsOptionValue then none else some []
  | expectsOptionValue, arg :: rest =>
    let token := trim arg
    if token = [] then scanFrom separators onToken expectsOptionValue rest
    else if expectsOptionValue then scanFrom separators onToken false rest
    else if token ∈ separators then some rest
    else
      match onToken token with
      | .stop => some (arg :: rest)
      | .invalid => none
      | .consumeNext => scanFrom separators onToken true rest
      | .continue => scanFrom separators onToken false rest

/-- `scanWrapperInvocation`; so many tokens before the command are left out as `skip` says. -/
def scanWrapperInvocation (separators : List Token) (onToken : Token → WrapperScanDirective)
    (skip : ℕ) (argv : List Token) : Option (List Token) :=
  match scanFrom separators onToken false (argv.drop 1) with
  | none => none
  | some rest => if rest.drop skip = [] then none else some (rest.drop skip)

/-- `lower.split("=", 2)[0]`. -/
def flagOf (lower : Token) : Token := lower.takeWhile (· ≠ '=')

/-- `!token.startsWith("-") || token === "-"`. -/
def isNoOption : Bool := token.head? ≠ some '-' || token = ['-']

/-! ### `env` -/

def ENV_OPTIONS_WITH_VALUE : List Token :=
  tokens ["-u", "--unset", "-c", "--chdir", "-s", "--split-string", "--default-signal",
    "--ignore-signal", "--block-signal"]

def ENV_INLINE_VALUE_PREFIXES : List Token :=
  tokens ["-u", "-c", "-s", "--unset=", "--chdir=", "--split-string=", "--default-signal=",
    "--ignore-signal=", "--block-signal="]

def ENV_FLAG_OPTIONS : List Token := tokens ["-i", "--ignore-environment", "-0", "--null"]

/-- A letter or `_`. -/
def isNameStart (c : Char) : Bool := c.isAlpha || c = '_'

/-- A letter, a digit or `_`. -/
def isNameChar (c : Char) : Bool := c.isAlphanum || c = '_'

def isEnvAssignment : Bool :=
  match token with
  | [] => false
  | c :: cs => isNameStart c && (cs.dropWhile isNameChar).head? = some '='

def hasEnvInlineValuePrefix (lower : Token) : Bool :=
  ENV_INLINE_VALUE_PREFIXES.any fun value => value.isPrefixOf lower

variable (argv : List Token)

def unwrapEnvInvocation : Option (List Token) :=
  scanWrapperInvocation (tokens ["--", "-"]) (fun token =>
    if isEnvAssignment token then .continue
    else if isNoOption token then .stop
    else
      let lower := env.toLowerCase token
      let flag := flagOf lower
      if flag ∈ ENV_FLAG_OPTIONS then .continue
      else if flag ∈ ENV_OPTIONS_WITH_VALUE then if '=' ∈ lower then .continue else .consumeNext
      else if hasEnvInlineValuePrefix lower then .continue
      else .invalid) 0 argv

/-- The loop of `envInvocationUsesModifiers`. -/
def usesModifiersFrom : Bool → List Token → Bool
  | _, [] => false
  | expectsOptionValue, arg :: rest =>
    let token := trim arg
    if token = [] then usesModifiersFrom expectsOptionValue rest
    else if expectsOptionValue then true
    else if token ∈ tokens ["--", "-"] then false
    else if isEnvAssignment token then true
    else if isNoOption token then false
    else
      let lower := env.toLowerCase token
      let flag := flagOf lower
      if flag ∈ ENV_FLAG_OPTIONS then true
      else if flag ∈ ENV_OPTIONS_WITH_VALUE then
        if '=' ∈ lower then true else usesModifiersFrom true rest
      else if hasEnvInlineValuePrefix lower then true
      else true

def envInvocationUsesModifiers : Bool := usesModifiersFrom env false (argv.drop 1)

/-! ### The other wrappers -/

def unwrapDashOptionInvocation (onFlag : Token → Token → WrapperScanDirective) (skip : ℕ)
    (argv : List Token) : Option (List Token) :=
  scanWrapperInvocation (tokens ["--"]) (fun token =>
    if isNoOption token then .stop
    else
      let lower := env.toLowerCase token
      onFlag (flagOf lower) lower) skip argv

/-- `/^-\d+$/`. -/
def isDashNumber (lower : Token) : Bool :=
  match lower with
  | '-' :: digits => !digits.isEmpty && digits.all Char.isDigit
  | _ => false

def NICE_OPTIONS_WITH_VALUE : List Token := tokens ["-n", "--adjustment", "--priority"]

def unwrapNiceInvocation : Option (List Token) :=
  unwrapDashOptionInvocation env (fun flag lower =>
    if isDashNumber lower then .continue
    else if flag ∈ NICE_OPTIONS_WITH_VALUE then
      if '=' ∈ lower ∨ lower ≠ flag then .continue else .consumeNext
    else if ['-', 'n'].isPrefixOf lower ∧ lower.length > 2 then .continue
    else .invalid) 0 argv

def unwrapNohupInvocation : Option (List Token) :=
  scanWrapperInvocation (tokens ["--"]) (fun token =>
    if isNoOption token then .stop
    else if env.toLowerCase token ∈ tokens ["--help", "--version"] then .continue
    else .invalid) 0 argv

def STDBUF_OPTIONS_WITH_VALUE : List Token :=
  tokens ["-i", "--input", "-o", "--output", "-e", "--error"]

def unwrapStdbufInvocation : Option (List Token) :=
  unwrapDashOptionInvocation env (fun flag lower =>
    if flag ∉ STDBUF_OPTIONS_WITH_VALUE then .invalid
    else if '=' ∈ lower then .continue
    else .consumeNext) 0 argv

def TIMEOUT_FLAG_OPTIONS : List Token := tokens ["--foreground", "--preserve-status", "-v", "--verbose"]

def TIMEOUT_OPTIONS_WITH_VALUE : List Token := tokens ["-k", "--kill-after", "-s", "--signal"]

/-- `unwrapTimeoutInvocation`: the duration stands before the command. -/
def unwrapTimeoutInvocation : Option (List Token) :=
  unwrapDashOptionInvocation env (fun flag lower =>
    if flag ∈ TIMEOUT_FLAG_OPTIONS then .continue
    else if flag ∈ TIMEOUT_OPTIONS_WITH_VALUE then if '=' ∈ lower then .continue else .consumeNext
    else .invalid) 1 argv

/-! ### Layers -/

inductive DispatchWrapperUnwrapResult where
  | notWrapper
  | blocked (wrapper : Token)
  | unwrapped (wrapper : Token) (argv : List Token)
  deriving DecidableEq

def unwrapDispatchWrapper (wrapper : Token) (unwrapped : Option (List Token)) : DispatchWrapperUnwrapResult :=
  match unwrapped with
  | some argv => .unwrapped wrapper argv
  | none => .blocked wrapper

/-- `argv[0]?.trim()`, or the empty text. -/
def token0 : Token := trim (argv.head?.getD [])

def unwrapKnownDispatchWrapperInvocation : DispatchWrapperUnwrapResult :=
  if token0 argv = [] then .notWrapper
  else
    let wrapper := normalizeExecutableToken env (token0 argv)
    if wrapper = "env".toList then unwrapDispatchWrapper wrapper (unwrapEnvInvocation env argv)
    else if wrapper = "nice".toList then unwrapDispatchWrapper wrapper (unwrapNiceInvocation env argv)
    else if wrapper = "nohup".toList then unwrapDispatchWrapper wrapper (unwrapNohupInvocation env argv)
    else if wrapper = "stdbuf".toList then unwrapDispatchWrapper wrapper (unwrapStdbufInvocation env argv)
    else if wrapper = "timeout".toList then unwrapDispatchWrapper wrapper (unwrapTimeoutInvocation env argv)
    else if wrapper ∈ tokens ["chrt", "doas", "ionice", "setsid", "sudo", "taskset"] then .blocked wrapper
    else .notWrapper

def TRANSPARENT_DISPATCH_WRAPPERS : List Token := tokens ["nice", "nohup", "stdbuf", "timeout"]

def isSemanticDispatchWrapperUsage (wrapper : Token) (argv : List Token) : Bool :=
  if wrapper = "env".toList then envInvocationUsesModifiers env argv
  else wrapper ∉ TRANSPARENT_DISPATCH_WRAPPERS

structure DispatchWrapperExecutionPlan where
  argv : List Token
  wrappers : List Token
  policyBlocked : Bool
  blockedWrapper : Option Token
  deriving DecidableEq

def blockedDispatchWrapperPlan (argv wrappers : List Token) (blockedWrapper : Token) :
    DispatchWrapperExecutionPlan := ⟨argv, wrappers, true, some blockedWrapper⟩

/-- What follows the loop of `resolveDispatchWrapperExecutionPlan`. -/
def afterLoop (maxDepth : JsNumber) (current wrappers : List Token) : DispatchWrapperExecutionPlan :=
  if (JsNumber.ofNat wrappers.length).ge maxDepth then
    match unwrapKnownDispatchWrapperInvocation env current with
    | .blocked wrapper => blockedDispatchWrapperPlan current wrappers wrapper
    | .unwrapped wrapper _ => blockedDispatchWrapperPlan current wrappers wrapper
    | .notWrapper => ⟨current, wrappers, false, none⟩
  else ⟨current, wrappers, false, none⟩

/-- The loop of `resolveDispatchWrapperExecutionPlan`; `depth` is the number of wrappers. -/
def resolveFrom (maxDepth : JsNumber) : ℕ → List Token → List Token → DispatchWrapperExecutionPlan
  | 0, current, wrappers => afterLoop env maxDepth current wrappers
  | turns + 1, current, wrappers =>
    if (JsNumber.ofNat wrappers.length).lt maxDepth then
      match unwrapKnownDispatchWrapperInvocation env current with
      | .blocked wrapper => blockedDispatchWrapperPlan current wrappers wrapper
      | .notWrapper => afterLoop env maxDepth current wrappers
      | .unwrapped wrapper argv =>
        if argv = [] then afterLoop env maxDepth current wrappers
        else
          let wrappers := wrappers ++ [wrapper]
          if isSemanticDispatchWrapperUsage env wrapper current then
            blockedDispatchWrapperPlan current wrappers wrapper
          else resolveFrom maxDepth turns argv wrappers
    else afterLoop env maxDepth current wrappers

def resolveDispatchWrapperExecutionPlan (maxDepth : JsNumber) :
    DispatchWrapperExecutionPlan := resolveFrom env maxDepth (argv.length + 1) argv []

def MAX_DISPATCH_WRAPPER_DEPTH : JsNumber := .fin 4

end Foxclaw.Infra.ExecWrapper
