import Foxclaw.Lib.Text

/-!
# Ids and session keys

This module models what routing uses of `routing/session-key.ts`, of `routing/account-id.ts` and of
`channels/chat-type.ts`: the normalization of account and agent ids, and the session keys.

`toLowerCase` is that of the language, which also lowers other letters than those of ASCII; of it
only the ASCII part is known (`CaseMap`). `normalizeAccountId` keeps the ids it has normalized in a
table under the trimmed id; a lookup there finds what would be computed, so the table is left out.

## What is proved

* `tab_notMem_normalizeAccountId` — an account id has no tab.
-/

namespace Foxclaw.Routing

open Foxclaw.Text (trimString)

/-- `toLowerCase`. -/
structure CaseMap where
  toLowerCase : String → String
  /-- Of ASCII characters, each is lowered by itself. -/
  ascii : ∀ s, (∀ c ∈ s.toList, c.toNat < 128) →
    toLowerCase s = String.ofList (s.toList.map Char.toLower)

/-- `toLowerCase` that lowers only the letters of ASCII. -/
def CaseMap.asciiOnly : CaseMap where
  toLowerCase s := String.ofList (s.toList.map Char.toLower)
  ascii := fun _ _ => rfl

variable (cases : CaseMap)

inductive ChatType where
  | direct
  | group
  | channel
  deriving DecidableEq

def ChatType.text : ChatType → String
  | .direct => "direct"
  | .group => "group"
  | .channel => "channel"

def DEFAULT_ACCOUNT_ID : String := "default"

def DEFAULT_AGENT_ID : String := "main"

def DEFAULT_MAIN_KEY : String := "main"

/-- The second argument, where the first is empty: `||`. -/
def orElse (s fallback : String) : String := if s = "" then fallback else s

def normalizeToken (value : Option String) : String := cases.toLowerCase (trimString (value.getD ""))

def normalizeChatType (raw : Option String) : Option ChatType :=
  let value := normalizeToken cases raw
  if value = "direct" ∨ value = "dm" then some .direct
  else if value = "group" then some .group
  else if value = "channel" then some .channel
  else none

/-! ### Account and agent ids -/

/-- A character of the class `[a-z0-9_-]`. -/
def isIdChar (c : Char) : Bool := c.isLower || c.isDigit || c == '_' || c == '-'

/-- A character of the class `[a-z0-9]`, ignoring case. -/
def isIdStart (c : Char) : Bool := c.isUpper || c.isLower || c.isDigit

def validIdRe : List Char → Bool
  | [] => false
  | c :: cs => isIdStart c && cs.all (fun c => isIdStart c || c == '_' || c == '-') && cs.length ≤ 63

/-- `replace(INVALID_CHARS_RE, "-")`: each run of other characters becomes a dash; are we in one? -/
def replaceInvalidChars : Bool → List Char → List Char
  | _, [] => []
  | inRun, c :: cs =>
    if isIdChar c then c :: replaceInvalidChars false cs
    else if inRun then replaceInvalidChars true cs
    else '-' :: replaceInvalidChars true cs

/-- `canonicalizeAccountId`; `normalizeAgentId` does the same with an id that is not blank. -/
def canonicalizeAccountId (value : String) : String :=
  if validIdRe value.toList then cases.toLowerCase value
  else
    let replaced := replaceInvalidChars false (cases.toLowerCase value).toList
    String.ofList (((replaced.dropWhile (· == '-')).rdropWhile (· == '-')).take 64)

def isBlockedObjectKey (key : String) : Bool :=
  key = "__proto__" || key = "prototype" || key = "constructor"

def normalizeAccountId (value : Option String) : String :=
  let trimmed := trimString (value.getD "")
  if trimmed = "" then DEFAULT_ACCOUNT_ID
  else
    let canonical := canonicalizeAccountId cases trimmed
    if canonical = "" ∨ isBlockedObjectKey canonical = true then DEFAULT_ACCOUNT_ID else canonical

/-- `normalizeAgentId`, and `sanitizeAgentId`. -/
def normalizeAgentId (value : String) : String :=
  let trimmed := trimString value
  if trimmed = "" then DEFAULT_AGENT_ID else orElse (canonicalizeAccountId cases trimmed) DEFAULT_AGENT_ID

/-! ### Session keys -/

inductive DmScope where
  | main
  | perPeer
  | perChannelPeer
  | perAccountChannelPeer
  deriving DecidableEq

def DmScope.text : DmScope → String
  | .main => "main"
  | .perPeer => "per-peer"
  | .perChannelPeer => "per-channel-peer"
  | .perAccountChannelPeer => "per-account-channel-peer"

def normalizeMainKey (value : String) : String :=
  let trimmed := trimString value
  if trimmed = "" then DEFAULT_MAIN_KEY else cases.toLowerCase trimmed

def buildAgentMainSessionKey (agentId mainKey : String) : String :=
  "agent:" ++ normalizeAgentId cases agentId ++ ":" ++ normalizeMainKey cases mainKey

/-- `resolveLinkedPeerId`; the links in the order of `Object.entries`. -/
def resolveLinkedPeerId (identityLinks : Option (List (String × List String))) (channel peerId : String) :
    Option String :=
  match identityLinks with
  | none => none
  | some links =>
    let peerId := trimString peerId
    if peerId = "" then none
    else
      let channel := normalizeToken cases (some channel)
      let scopedCandidate := if channel = "" then ""
        else normalizeToken cases (some (channel ++ ":" ++ peerId))
      let candidates := [normalizeToken cases (some peerId), scopedCandidate].filter (· ≠ "")
      links.findSome? fun (canonical, ids) =>
        let canonicalName := trimString canonical
        if canonicalName = "" then none
        else if ids.any fun id => candidates.contains (normalizeToken cases (some id)) then some canonicalName
        else none

def buildAgentPeerSessionKey (agentId mainKey channel accountId : String) (peerKind : ChatType)
    (peerId : Option String) (identityLinks : Option (List (String × List String))) (dmScope : DmScope) :
    String :=
  let agent := normalizeAgentId cases agentId
  let channelKey := orElse (normalizeToken cases (some channel)) "unknown"
  if peerKind = .direct then
    let peerId := trimString (peerId.getD "")
    let linkedPeerId := if dmScope = .main then none
      else resolveLinkedPeerId cases identityLinks channel peerId
    let peerId := cases.toLowerCase (linkedPeerId.getD peerId)
    if dmScope = .perAccountChannelPeer ∧ peerId ≠ "" then
      "agent:" ++ agent ++ ":" ++ channelKey ++ ":" ++ normalizeAccountId cases (some accountId) ++
        ":direct:" ++ peerId
    else if dmScope = .perChannelPeer ∧ peerId ≠ "" then
      "agent:" ++ agent ++ ":" ++ channelKey ++ ":direct:" ++ peerId
    else if dmScope = .perPeer ∧ peerId ≠ "" then "agent:" ++ agent ++ ":direct:" ++ peerId
    else buildAgentMainSessionKey cases agentId mainKey
  else
    let peerId := cases.toLowerCase (orElse (trimString (peerId.getD "")) "unknown")
    "agent:" ++ agent ++ ":" ++ channelKey ++ ":" ++ peerKind.text ++ ":" ++ peerId

/-! ### Account ids have no tab -/

theorem replaceInvalidChars_isIdChar (inRun : Bool) (cs : List Char) :
    ∀ c ∈ replaceInvalidChars inRun cs, isIdChar c = true := by
  induction cs generalizing inRun with
  | nil => simp [replaceInvalidChars]
  | cons d cs ih =>
    intro c hc
    rw [replaceInvalidChars] at hc
    split at hc
    · rename_i hd
      rcases List.mem_cons.mp hc with rfl | hc
      · exact hd
      · exact ih false c hc
    · split at hc
      · exact ih true c hc
      · rcases List.mem_cons.mp hc with rfl | hc
        · rfl
        · exact ih true c hc

/-- A character that a valid id may have. -/
def isValidIdChar (c : Char) : Bool := isIdStart c || c == '_' || c == '-'

theorem toNat_lt_of_isValidIdChar {c : Char} (h : isValidIdChar c = true) : c.toNat < 128 := by
  have hupper : c.isUpper = decide ('A'.val ≤ c.val ∧ c.val ≤ 'Z'.val) := rfl
  have hlower : c.isLower = (decide ('a'.val ≤ c.val) && decide (c.val ≤ 'z'.val)) := rfl
  simp only [isValidIdChar, isIdStart, hupper, hlower, Char.isDigit, Bool.or_eq_true,
    Bool.and_eq_true, decide_eq_true_eq, UInt32.le_iff_toNat_le, beq_iff_eq, Char.toNat_val] at h
  rcases h with (((⟨-, h⟩ | ⟨-, h⟩) | ⟨-, h⟩) | rfl) | rfl
  · exact h.trans_lt (by decide)
  · exact h.trans_lt (by decide)
  · exact h.trans_lt (by decide)
  · decide
  · decide

theorem toLower_ne_tab {c : Char} (h : isValidIdChar c = true) : c.toLower ≠ '\t' := by
  have hall : ∀ n < 128, isValidIdChar (Char.ofNat n) = true → (Char.ofNat n).toLower ≠ '\t' := by
    decide +kernel
  have hc := hall c.toNat (toNat_lt_of_isValidIdChar h)
  rw [Char.ofNat_toNat] at hc
  exact hc h

theorem isValidIdChar_of_validIdRe {cs : List Char} (h : validIdRe cs = true) :
    ∀ c ∈ cs, isValidIdChar c = true := by
  cases cs with
  | nil => simp
  | cons d cs =>
    simp only [validIdRe, Bool.and_eq_true, List.all_eq_true] at h
    intro c hc
    rcases List.mem_cons.mp hc with rfl | hc
    · simp [isValidIdChar, h.1.1]
    · exact h.1.2 c hc

theorem tab_notMem_canonicalizeAccountId (value : String) :
    '\t' ∉ (canonicalizeAccountId cases value).toList := by
  unfold canonicalizeAccountId
  split
  · rename_i hvalid
    have hchars := isValidIdChar_of_validIdRe hvalid
    rw [cases.ascii value fun c hc => toNat_lt_of_isValidIdChar (hchars c hc), String.toList_ofList]
    intro hmem
    obtain ⟨c, hc, htab⟩ := List.mem_map.mp hmem
    exact toLower_ne_tab (hchars c hc) htab
  · rw [String.toList_ofList]
    intro hmem
    have hreplaced := (List.dropWhile_sublist _).subset
      ((List.rdropWhile_prefix _ _).subset (List.mem_of_mem_take hmem))
    exact absurd (replaceInvalidChars_isIdChar _ _ _ hreplaced) (by decide)

/-- An account id has no tab. -/
theorem tab_notMem_normalizeAccountId (value : Option String) :
    '\t' ∉ (normalizeAccountId cases value).toList := by
  unfold normalizeAccountId
  dsimp only
  split
  · decide
  · split
    · decide
    · exact tab_notMem_canonicalizeAccountId cases _

end Foxclaw.Routing
