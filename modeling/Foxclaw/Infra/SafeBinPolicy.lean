import Foxclaw.Infra.ExecWrapperResolution
import Foxclaw.Lib.JsMap

/-!
# Arguments of safe binaries

This module models `infra/exec-safe-bin-policy-validator.ts` and the profiles it works with
(`exec-safe-bin-policy-profiles.ts`): which arguments a binary that only filters its input may be
given. A profile names the options that take a value and the options that are denied; long options may
be shortened, and what a shortened one stands for is looked up in a map of all beginnings.

## The model

Sets of flags are lists in the order of insertion. An index into the arguments is the rest of them;
the functions that return the next index return how many arguments they take.
-/

namespace Foxclaw.Infra.SafeBin

open Foxclaw.Text (trim)
open Foxclaw.Infra.ExecWrapper (Token tokens)

/-! ### Profiles -/

structure SafeBinProfileFixture where
  minPositional : Option JsNumber
  maxPositional : Option JsNumber
  allowedValueFlags : Option (List Token)
  deniedFlags : Option (List Token)

structure SafeBinProfile where
  minPositional : Option JsNumber
  maxPositional : Option JsNumber
  allowedValueFlags : Option (List Token)
  deniedFlags : Option (List Token)
  knownLongFlags : Option (List Token)
  knownLongFlagsSet : Option (List Token)
  longFlagPrefixMap : Option (JsMap Token (Option Token))

/-- `add`, of a set. -/
def addFlag (flags : List Token) (flag : Token) : List Token :=
  if flag ∈ flags then flags else flags ++ [flag]

def newSet (flags : List Token) : List Token := flags.foldl addFlag []

def toFlagSet (flags : Option (List Token)) : List Token := newSet (flags.getD [])

/-- Does the flag start with `--`? -/
def isLong (flag : Token) : Bool := ['-', '-'].isPrefixOf flag

def collectKnownLongFlags (allowedValueFlags deniedFlags : List Token) : List Token :=
  newSet (allowedValueFlags.filter isLong ++ deniedFlags.filter isLong)

/-- `buildLongFlagPrefixMap`, for one beginning of a flag. -/
def addPrefix (flag : Token) (prefixMap : JsMap Token (Option Token)) (length : ℕ) :
    JsMap Token (Option Token) :=
  let beginning := flag.take length
  match prefixMap.get? beginning with
  | none => prefixMap.set beginning (some flag)
  | some existing => if existing ≠ some flag then prefixMap.set beginning none else prefixMap

/-- `buildLongFlagPrefixMap`, for one flag. -/
def addPrefixes (prefixMap : JsMap Token (Option Token)) (flag : Token) : JsMap Token (Option Token) :=
  if !isLong flag || flag.length ≤ 2 then prefixMap
  else (List.range' 3 (flag.length - 2)).foldl (addPrefix flag) prefixMap

def buildLongFlagPrefixMap (knownLongFlags : List Token) : JsMap Token (Option Token) :=
  knownLongFlags.foldl addPrefixes .empty

def compileSafeBinProfile (fixture : SafeBinProfileFixture) : SafeBinProfile :=
  let allowedValueFlags := toFlagSet fixture.allowedValueFlags
  let deniedFlags := toFlagSet fixture.deniedFlags
  let knownLongFlags := collectKnownLongFlags allowedValueFlags deniedFlags
  { minPositional := fixture.minPositional
    maxPositional := fixture.maxPositional
    allowedValueFlags := some allowedValueFlags
    deniedFlags := some deniedFlags
    knownLongFlags := some knownLongFlags
    knownLongFlagsSet := some (newSet knownLongFlags)
    longFlagPrefixMap := some (buildLongFlagPrefixMap knownLongFlags) }

/-! ### Tokens -/

/-- `ExecArgvToken`; a short cluster is what follows `-`. -/
inductive ExecArgvToken where
  | empty
  | terminator
  | stdin
  | positional
  /-- `option`, `long`. -/
  | long (flag : Token) (inlineValue : Option Token)
  /-- `option`, `short-cluster`. -/
  | shortCluster (cluster : Token)
  deriving DecidableEq

def parseExecArgvToken (raw : Token) : ExecArgvToken :=
  if raw = [] then .empty
  else if raw = ['-', '-'] then .terminator
  else if raw = ['-'] then .stdin
  else if raw.head? ≠ some '-' then .positional
  else if isLong raw then
    if '=' ∈ raw then .long (raw.takeWhile (· ≠ '=')) (some ((raw.dropWhile (· ≠ '=')).drop 1))
    else .long raw none
  else .shortCluster (raw.drop 1)

/-- `/^[A-Za-z]:[\\/]/`. -/
def startsWithDrive : Token → Bool
  | letter :: ':' :: separator :: _ => letter.isAlpha && (separator = '\\' || separator = '/')
  | _ => false

def isPathLikeToken (value : Token) : Bool :=
  let trimmed := trim value
  if trimmed = [] then false
  else if trimmed = ['-'] then false
  else if ['.', '/'].isPrefixOf trimmed || ['.', '.', '/'].isPrefixOf trimmed || trimmed.head? = some '~' then
    true
  else if trimmed.head? = some '/' then true
  else startsWithDrive trimmed

def hasGlobToken (value : Token) : Bool := value.any fun c => c ∈ ['*', '?', '[', ']']

def isSafeLiteralToken (value : Token) : Bool :=
  if value = [] ∨ value = ['-'] then true else !hasGlobToken value && !isPathLikeToken value

def isInvalidValueToken (value : Option Token) : Bool :=
  match value with
  | none => true
  | some value => value = [] || !isSafeLiteralToken value

/-! ### Options -/

/-- The sets and the map that `validateSafeBinArgv` works with. -/
structure Flags where
  allowedValueFlags : List Token
  deniedFlags : List Token
  knownLongFlagsSet : List Token
  longFlagPrefixMap : JsMap Token (Option Token)

variable (flags : Flags)

def resolveCanonicalLongFlag (flag : Token) : Option Token :=
  if !isLong flag || flag.length ≤ 2 then none
  else if flag ∈ flags.knownLongFlagsSet then some flag
  else (flags.longFlagPrefixMap.get? flag).getD none

/-- `consumeLongOptionToken`: how many arguments it takes; `next` is the one behind. -/
def consumeLongOptionToken (next : Option Token) (flag : Token) (inlineValue : Option Token) : Option ℕ :=
  match resolveCanonicalLongFlag flags flag with
  | none => none
  | some canonicalFlag =>
    if canonicalFlag ∈ flags.deniedFlags then none
    else
      let expectsValue := canonicalFlag ∈ flags.allowedValueFlags
      match inlineValue with
      | some value =>
        if ¬ expectsValue then none else if isSafeLiteralToken value then some 1 else none
      | none =>
        if ¬ expectsValue then some 1 else if isInvalidValueToken next then none else some 2

/-- `consumeShortOptionClusterToken`, from some place in the cluster on. -/
def consumeShortOptionClusterToken (next : Option Token) : Token → Option ℕ
  | [] => none
  | c :: cluster =>
    if ['-', c] ∈ flags.deniedFlags then none
    else if ['-', c] ∉ flags.allowedValueFlags then consumeShortOptionClusterToken next cluster
    else if cluster ≠ [] then if isSafeLiteralToken cluster then some 1 else none
    else if isInvalidValueToken next then none
    else some 2

/-! ### Arguments -/

/-- What follows `--`: the positionals, if they are safe. -/
def validateRest : List Token → Option (List Token)
  | [] => some []
  | rest :: args =>
    if rest = [] ∨ rest = ['-'] then validateRest args
    else if isSafeLiteralToken rest then (validateRest args).map (rest :: ·)
    else none

/-- The loop of `validateSafeBinArgv`: the positionals, if nothing is rejected. -/
def validateFrom : List Token → Option (List Token)
  | [] => some []
  | rawToken :: args =>
    match parseExecArgvToken rawToken with
    | .empty => validateFrom args
    | .stdin => validateFrom args
    | .terminator => validateRest args
    | .positional => if isSafeLiteralToken rawToken then (validateFrom args).map (rawToken :: ·) else none
    | .long flag inlineValue =>
      match consumeLongOptionToken flags args.head? flag inlineValue with
      | none => none
      | some 1 => validateFrom args
      | some _ =>
        match args with
        | [] => some []
        | _ :: args => validateFrom args
    | .shortCluster cluster =>
      match consumeShortOptionClusterToken flags args.head? cluster with
      | none => none
      | some 1 => validateFrom args
      | some _ =>
        match args with
        | [] => some []
        | _ :: args => validateFrom args

def validatePositionalCount (positional : List Token) (minPositional maxPositional : Option JsNumber) :
    Bool :=
  let count := JsNumber.ofNat positional.length
  if count.lt (minPositional.getD (.fin 0)) then false
  else
    match maxPositional with
    | none => true
    | some maxPositional => maxPositional.ge count

/-- The sets and the map of a profile; what it does not bring is built. -/
def flagsOf (profile : SafeBinProfile) : Flags :=
  let allowedValueFlags := profile.allowedValueFlags.getD []
  let deniedFlags := profile.deniedFlags.getD []
  let knownLongFlags :=
    profile.knownLongFlags.getD (collectKnownLongFlags allowedValueFlags deniedFlags)
  { allowedValueFlags := allowedValueFlags
    deniedFlags := deniedFlags
    knownLongFlagsSet := profile.knownLongFlagsSet.getD (newSet knownLongFlags)
    longFlagPrefixMap := profile.longFlagPrefixMap.getD (buildLongFlagPrefixMap knownLongFlags) }

def validateSafeBinArgv (args : List Token) (profile : SafeBinProfile) : Bool :=
  match validateFrom (flagsOf profile) args with
  | none => false
  | some positional => validatePositionalCount positional profile.minPositional profile.maxPositional

end Foxclaw.Infra.SafeBin
