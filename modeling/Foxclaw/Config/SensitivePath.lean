import Foxclaw.Lib.Text

/-!
# Sensitive config paths

This module models the path patterns of `config/schema.hints.ts` and
`config/redact-snapshot.ts`: which config paths hold a secret by their name alone.

The patterns are matched ignoring the case of ASCII letters. `toLowerCase` also lowers other
letters; of these only the Kelvin sign has a lower case that is an ASCII letter and can
make up a suffix.
-/

namespace Foxclaw.Config

/-- `toLowerCase`, as far as it makes ASCII letters. -/
def lowerChar (c : Char) : Char := if c = '\u212a' then 'k' else c.toLower

/-- Does the text end in the suffix? -/
def endsIn (text : List Char) (suffix : String) : Bool := suffix.toList.isSuffixOf text

/-- Does the text contain the word? -/
def contains (text : List Char) (word : String) : Bool := text.tails.any word.toList.isPrefixOf

/-- `SENSITIVE_KEY_WHITELIST_SUFFIXES`, in lower case. -/
def sensitiveKeyWhitelistSuffixes : List String :=
  ["maxtokens", "maxoutputtokens", "maxinputtokens", "maxcompletiontokens", "contexttokens",
    "totaltokens", "tokencount", "tokenlimit", "tokenbudget", "passwordfile"]

def isWhitelistedSensitivePath (path : List Char) : Bool :=
  sensitiveKeyWhitelistSuffixes.any (endsIn (path.map lowerChar))

/-- Does `.` match the character? It does not match line terminators, nor a character that
takes two code units. -/
def isDot (c : Char) : Bool :=
  c ≠ '\n' && c ≠ '\r' && c ≠ '\u2028' && c ≠ '\u2029' && c.toNat < 0x10000

/-- Does the text begin with a match of `api.?key`? -/
def beginsWithApiKey (text : List Char) : Bool :=
  "api".toList.isPrefixOf text && match text.drop 3 with
    | [] => false
    | c :: rest =>
        "key".toList.isPrefixOf (c :: rest) || isDot c && "key".toList.isPrefixOf rest

def matchesSensitivePattern (path : List Char) : Bool :=
  let text := path.map Char.toLower
  endsIn text "token" || contains text "password" || contains text "secret" ||
    text.tails.any beginsWithApiKey || endsIn text "serviceaccount" || endsIn text "serviceaccountref"

def isSensitiveConfigPath (path : List Char) : Bool :=
  !isWhitelistedSensitivePath path && matchesSensitivePattern path

/-- `isSensitivePath`: the path of an item is as sensitive as that of the array. -/
def isSensitivePath (path : String) : Bool :=
  let text := path.toList
  isSensitiveConfigPath (if endsIn text "[]" then text.take (text.length - 2) else text)

def isWholeObjectSensitivePath (path : String) : Bool :=
  let lowered := path.toList.map lowerChar
  endsIn lowered "serviceaccount" || endsIn lowered "serviceaccountref"

/-- `isEnvVarPlaceholder`: the trimmed text is `${…}`, without another `}` between. -/
def isEnvVarPlaceholder (value : String) : Bool :=
  match Text.trim value.toList with
  | '$' :: '{' :: rest => rest.dropWhile (· ≠ '}') = ['}']
  | _ => false

end Foxclaw.Config
