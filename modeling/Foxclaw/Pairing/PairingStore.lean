import Foxclaw.Lib.Text
import Mathlib.Data.List.Sort
import Mathlib.Data.Rat.Defs

/-!
# The pairing store

This module models `pairing/pairing-store.ts`: who may talk to the agent on a channel, account by
account, and the requests of those who ask to. A request has a code; the owner approves the
code, and the id of the request joins the allow list of its account.

## The model

The files of the credentials directory, by name, and the cache of what was read from them. A
pairing file holds requests, an allow-list file ids; a time stamp is its number of milliseconds.
Operations follow each other, in one environment. What the world decides is part of the
operation: the clock, the random codes, the time and size of a file that is written (`Io`).
`toLowerCase`, `toUpperCase` and the normalization of ids by the channel's adapter are parameters;
the fields of `meta` other than the account are left out.

Beside the files stands what was asked for (`requested`) and who was let in (`grants`).
-/

namespace Foxclaw.Pairing

open Foxclaw.Text (trimString)

/-- What the store uses of the language and of the channels' adapters. -/
structure PairingEnv where
  toLowerCase : String → String
  toUpperCase : String → String
  /-- `normalizeAllowEntry` of the adapter of a channel; the text itself if there is none. -/
  adapterNormalize : String → String → String

def DEFAULT_ACCOUNT_ID : String := "default"

def PAIRING_PENDING_TTL_MS : ℤ := 60 * 60 * 1000

def PAIRING_PENDING_MAX : ℕ := 3

def PAIRING_CODE_LENGTH : ℕ := 8

def PAIRING_CODE_ALPHABET : List Char := "ABCDEFGHJKLMNPQRSTUVWXYZ23456789".toList

/-! ### File names -/

/-- `replace(/[\\/:*?"<>|]/g, "_")`. -/
def replaceForbidden (cs : List Char) : List Char :=
  cs.map fun c => if c ∈ ['\\', '/', ':', '*', '?', '"', '<', '>', '|'] then '_' else c

/-- `replace(/\.\./g, "_")`. -/
def replaceDots : List Char → List Char
  | '.' :: '.' :: rest => '_' :: replaceDots rest
  | c :: rest => c :: replaceDots rest
  | [] => []

section Keys

variable (env : PairingEnv)

/-- What `safeChannelKey` and `safeAccountKey` do; they differ in the message. -/
def safeKey (message value : String) : Except String String :=
  let raw := env.toLowerCase (trimString value)
  if raw = "" then .error message
  else
    let safe := String.ofList (replaceDots (replaceForbidden raw.toList))
    if safe = "" ∨ safe = "_" then .error message else .ok safe

variable (channel : String)

def safeChannelKey : Except String String :=
  safeKey env "invalid pairing channel" channel

def safeAccountKey (accountId : String) : Except String String :=
  safeKey env "invalid pairing account id" accountId

/-- `resolvePairingPath`: the name of the file. -/
def resolvePairingPath : Except String String :=
  (safeChannelKey env channel).map (· ++ "-pairing.json")

variable (accountId : Option String)

/-- `resolveAllowFromPath`: the name of the file. -/
def resolveAllowFromPath : Except String String :=
  match safeChannelKey env channel with
  | .error e => .error e
  | .ok base =>
    let normalizedAccountId := (accountId.map trimString).getD ""
    if normalizedAccountId = "" then .ok (base ++ "-allowFrom.json")
    else (safeAccountKey env normalizedAccountId).map fun key => base ++ "-" ++ key ++ "-allowFrom.json"

def normalizePairingAccountId : String :=
  (accountId.map fun id => env.toLowerCase (trimString id)).getD ""

def resolveAllowFromAccountId : String :=
  let normalized := normalizePairingAccountId env accountId
  if normalized ≠ "" then normalized else DEFAULT_ACCOUNT_ID

def shouldIncludeLegacyAllowFromEntries (normalizedAccountId : String) : Bool :=
  normalizedAccountId = "" || normalizedAccountId = DEFAULT_ACCOUNT_ID

/-! ### Entries -/

/-- `normalizeAllowEntry`; an entry that does not count is empty. -/
def normalizeAllowEntry (channel entry : String) : String :=
  let trimmed := trimString entry
  if trimmed = "" then ""
  else if trimmed = "*" then ""
  else trimString (env.adapterNormalize channel trimmed)

/-- The part of `dedupePreserveOrder` after the entries in `seen`. -/
def dedupeFrom (seen : List String) : List String → List String
  | [] => []
  | entry :: rest =>
    let normalized := trimString entry
    if normalized = "" ∨ normalized ∈ seen then dedupeFrom seen rest
    else normalized :: dedupeFrom (normalized :: seen) rest

def dedupePreserveOrder (entries : List String) : List String := dedupeFrom [] entries

def normalizeAllowFromList (allowFrom : List String) : List String :=
  dedupePreserveOrder ((allowFrom.map (normalizeAllowEntry env channel)).filter (· ≠ ""))

/-- `normalizeAllowFromInput`, of the id as a text. -/
def normalizeAllowFromInput (channel entry : String) : String :=
  normalizeAllowEntry env channel (trimString entry)

end Keys

/-! ### The state -/

structure PairingRequest where
  id : String
  code : String
  createdAt : ℤ
  lastSeenAt : ℤ
  /-- `meta.accountId`. -/
  accountId : String
  deriving DecidableEq

/-- An allow-list file. -/
structure AllowFromFile where
  allowFrom : List String
  mtimeMs : ℚ
  size : ℕ
  deriving DecidableEq

/-- `AllowFromReadCacheEntry`; the time and size of a file that is there, if they are known. -/
structure AllowFromReadCacheEntry where
  /-- `exists`. -/
  fileExists : Bool
  /-- `mtimeMs` and `size`. -/
  stat : Option (ℚ × ℕ)
  entries : List String
  deriving DecidableEq

/-- A request as it was upserted. -/
structure Requested where
  channel : String
  request : PairingRequest
  deriving DecidableEq

/-- An id that was to join an allow list. -/
structure Grant where
  channel : String
  accountId : Option String
  id : String
  deriving DecidableEq

/-- The store, and what happened. -/
structure State where
  pairing : String → Option (List PairingRequest)
  allowFrom : String → Option AllowFromFile
  /-- `allowFromReadCache`. -/
  cache : String → Option AllowFromReadCacheEntry
  requested : List Requested
  /-- The ids that were to be let in. -/
  grants : List Grant

def State.init : State := ⟨fun _ => none, fun _ => none, fun _ => none, [], []⟩

/-- What the world decides when an allow list is changed. -/
structure Io where
  /-- The time and size of a file that is created first. -/
  created : ℚ × ℕ
  /-- The time and size of the file that is written. -/
  written : ℚ × ℕ
  /-- Does `stat` succeed after the write? -/
  statOk : Bool

/-! ### Allow lists -/

section AllowFrom

variable (env : PairingEnv)

variable (s : State) (path : String)

/-- What the allow-list file has. -/
def State.content : List String :=
  ((s.allowFrom path).map (·.allowFrom)).getD []

def setAllowFromReadCache (entry : AllowFromReadCacheEntry) : State :=
  { s with cache := Function.update s.cache path (some entry) }

/-- An allow-list file is written. -/
def writeFile (allowFrom : List String) (stat : ℚ × ℕ) : State :=
  { s with allowFrom := Function.update s.allowFrom path (some ⟨allowFrom, stat.1, stat.2⟩) }

/-- `ensureJsonFile` of an allow-list file. -/
def ensureAllowFrom (stat : ℚ × ℕ) : State :=
  if (s.allowFrom path).isSome then s else writeFile s path [] stat

def writeAllowFromState (allowFrom : List String) (io : Io) : State :=
  setAllowFromReadCache (writeFile s path allowFrom io.written) path
    ⟨true, if io.statOk then some io.written else none, allowFrom⟩

/-- `resolveAllowFromReadCacheHit`: is the entry about the file as it is? -/
def isCacheHit (cached : AllowFromReadCacheEntry) (file : Option AllowFromFile) : Bool :=
  match file with
  | none => !cached.fileExists
  | some file => cached.fileExists && cached.stat = some (file.mtimeMs, file.size)

def readAllowFromStateForPath (channel path : String) : State × List String :=
  match (s.cache path).filter fun cached => isCacheHit cached (s.allowFrom path) with
  | some cached => (s, cached.entries)
  | none => match s.allowFrom path with
    | none => (setAllowFromReadCache s path ⟨false, none, []⟩, [])
    | some file =>
      let entries := normalizeAllowFromList env channel file.allowFrom
      (setAllowFromReadCache s path ⟨true, some (file.mtimeMs, file.size), entries⟩, entries)

variable (channel entry : String) (accountId : Option String)

def updateAllowFromStoreEntry (apply : List String → String → Option (List String)) (io : Io) :
    State × Except String (Bool × List String) :=
  match resolveAllowFromPath env channel accountId with
  | .error e => (s, .error e)
  | .ok path =>
    let s := ensureAllowFrom s path io.created
    let current := normalizeAllowFromList env channel (s.content path)
    let normalized := normalizeAllowFromInput env channel entry
    if normalized = "" then (s, .ok (false, current))
    else match apply current normalized with
      | none => (s, .ok (false, current))
      | some next => (writeAllowFromState s path next io, .ok (true, next))

/-- How `addChannelAllowFromStoreEntry` changes the list. -/
def addEntry (current : List String) (normalized : String) : Option (List String) :=
  if normalized ∈ current then none else some (current ++ [normalized])

/-- How `removeChannelAllowFromStoreEntry` changes the list. -/
def removeEntry (current : List String) (normalized : String) : Option (List String) :=
  let next := current.filter (· ≠ normalized)
  if next.length = current.length then none else some next

/-- An id is to be let in. -/
def record (grant : Grant) : State := { s with grants := s.grants ++ [grant] }

def addChannelAllowFromStoreEntry (io : Io) : State × Except String (Bool × List String) :=
  updateAllowFromStoreEntry env (record s ⟨channel, accountId, entry⟩) channel entry accountId
    addEntry io

def removeChannelAllowFromStoreEntry (io : Io) : State × Except String (Bool × List String) :=
  updateAllowFromStoreEntry env s channel entry accountId removeEntry io

def readLegacyChannelAllowFromStore (channel : String) : State × Except String (List String) :=
  match resolveAllowFromPath env channel none with
  | .error e => (s, .error e)
  | .ok path =>
    let r := readAllowFromStateForPath env s channel path
    (r.1, .ok r.2)

def readChannelAllowFromStore (channel : String) (accountId : Option String) :
    State × Except String (List String) :=
  let resolvedAccountId := resolveAllowFromAccountId env accountId
  match resolveAllowFromPath env channel (some resolvedAccountId) with
  | .error e => (s, .error e)
  | .ok path =>
    let own := readAllowFromStateForPath env s channel path
    if shouldIncludeLegacyAllowFromEntries resolvedAccountId then
      match resolveAllowFromPath env channel none with
      | .error e => (own.1, .error e)
      | .ok legacyPath =>
        let legacy := readAllowFromStateForPath env own.1 channel legacyPath
        (legacy.1, .ok (dedupePreserveOrder (own.2 ++ legacy.2)))
    else (own.1, .ok own.2)

end AllowFrom

/-! ### Requests -/

section Requests

variable (env : PairingEnv)

def isExpired (entry : PairingRequest) (nowMs : ℤ) : Bool :=
  entry.createdAt = 0 || nowMs - entry.createdAt > PAIRING_PENDING_TTL_MS

variable (reqs : List PairingRequest)

/-- `pruneExpiredRequests`: the requests, and whether some were removed. -/
def pruneExpiredRequests (nowMs : ℤ) : List PairingRequest × Bool :=
  (reqs.filter fun req => !isExpired req nowMs, reqs.any fun req => isExpired req nowMs)

def pruneExcessRequests (maxPending : ℕ) : List PairingRequest × Bool :=
  if maxPending = 0 ∨ reqs.length ≤ maxPending then (reqs, false)
  else
    let sorted := reqs.insertionSort fun a b => a.lastSeenAt ≤ b.lastSeenAt
    (sorted.drop (sorted.length - maxPending), true)

def requestMatchesAccountId (entry : PairingRequest) (normalizedAccountId : String) : Bool :=
  normalizedAccountId = "" || env.toLowerCase (trimString entry.accountId) = normalizedAccountId

/-- The random numbers of a code. -/
abbrev Indices := Fin PAIRING_CODE_LENGTH → Fin PAIRING_CODE_ALPHABET.length

def randomCode (indices : Indices) : String :=
  String.ofList (List.ofFn fun i => PAIRING_CODE_ALPHABET.get (indices i))

/-- `generateUniqueCode`; the attempts that were made are given. -/
def generateUniqueCode (existing : List String) (attempts : List Indices) : Except String String :=
  match ((attempts.take 500).map randomCode).find? (· ∉ existing) with
  | some code => .ok code
  | none => .error "failed to generate unique pairing code"

variable (s : State) (path : String)

/-- A pairing file is written. -/
def writeRequests (requests : List PairingRequest) : State :=
  { s with pairing := Function.update s.pairing path (some requests) }

/-- `ensureJsonFile` of a pairing file. -/
def ensureRequests : State :=
  if (s.pairing path).isSome then s else writeRequests s path []

def readPairingRequests : List PairingRequest := (s.pairing path).getD []

/-- The codes of requests, as they are compared with a new one. -/
def existingCodes : List String :=
  reqs.map fun req => env.toUpperCase (trimString req.code)

/-- A request is written, and recorded. -/
def upserted (channel path : String) (reqs : List PairingRequest) (next : PairingRequest) : State :=
  { writeRequests s path reqs with requested := s.requested ++ [⟨channel, next⟩] }

def upsertChannelPairingRequest (channel id accountId : String) (now : ℤ)
    (attempts : List Indices) : State × Except String (String × Bool) :=
  match resolvePairingPath env channel with
  | .error e => (s, .error e)
  | .ok path =>
    let s := ensureRequests s path
    let id := trimString id
    let normalizedAccountId := resolveAllowFromAccountId env (some accountId)
    let (reqs, expiredRemoved) := pruneExpiredRequests (readPairingRequests s path) now
    let codes := existingCodes env reqs
    match reqs.findIdx? fun r => r.id = id && requestMatchesAccountId env r normalizedAccountId with
    | some existingIdx =>
      let existing := reqs[existingIdx]?
      let existingCode := (existing.map fun r => trimString r.code).getD ""
      match if existingCode ≠ "" then .ok existingCode else generateUniqueCode codes attempts with
      | .error e => (s, .error e)
      | .ok code =>
        let next : PairingRequest :=
          ⟨id, code, (existing.map (·.createdAt)).getD now, now, normalizedAccountId⟩
        let capped := (pruneExcessRequests (reqs.set existingIdx next) PAIRING_PENDING_MAX).1
        (upserted s channel path capped next, .ok (code, false))
    | none =>
      let (capped, cappedRemoved) := pruneExcessRequests reqs PAIRING_PENDING_MAX
      if PAIRING_PENDING_MAX ≤ capped.length then
        (if expiredRemoved || cappedRemoved then writeRequests s path capped else s, .ok ("", false))
      else
        match generateUniqueCode codes attempts with
        | .error e => (s, .error e)
        | .ok code =>
          let next : PairingRequest := ⟨id, code, now, now, normalizedAccountId⟩
          (upserted s channel path (capped ++ [next]) next, .ok (code, true))

def listChannelPairingRequests (channel : String) (accountId : Option String)
    (now : ℤ) : State × Except String (List PairingRequest) :=
  match resolvePairingPath env channel with
  | .error e => (s, .error e)
  | .ok path =>
    let s := ensureRequests s path
    let (prunedExpired, expiredRemoved) := pruneExpiredRequests (readPairingRequests s path) now
    let (pruned, cappedRemoved) := pruneExcessRequests prunedExpired PAIRING_PENDING_MAX
    let s := if expiredRemoved || cappedRemoved then writeRequests s path pruned else s
    let filtered := pruned.filter fun r =>
      requestMatchesAccountId env r (normalizePairingAccountId env accountId)
    (s, .ok (filtered.insertionSort fun a b => a.createdAt ≤ b.createdAt))

/-- Which request `approveChannelPairingCode` approves: its place, and the request. -/
def findRequest (pruned : List PairingRequest) (code normalizedAccountId : String) :
    Option (ℕ × PairingRequest) :=
  (pruned.findIdx? fun r =>
    env.toUpperCase r.code = code && requestMatchesAccountId env r normalizedAccountId).bind fun idx =>
      pruned[idx]?.map (idx, ·)

/-- The account for which a request is approved: that of the call, else that of the request. -/
def approvedAccountId (accountId : Option String) (entry : PairingRequest) : Option String :=
  ((accountId.map trimString).filter (· ≠ "")).or (some (trimString entry.accountId) |>.filter (· ≠ ""))

def approveChannelPairingCode (channel code : String) (accountId : Option String)
    (now : ℤ) (io : Io) : State × Except String (Option PairingRequest) :=
  let code := env.toUpperCase (trimString code)
  if code = "" then (s, .ok none)
  else match resolvePairingPath env channel with
    | .error e => (s, .error e)
    | .ok path =>
      let s := ensureRequests s path
      let (pruned, removed) := pruneExpiredRequests (readPairingRequests s path) now
      match findRequest env pruned code (normalizePairingAccountId env accountId) with
      | none => (if removed then writeRequests s path pruned else s, .ok none)
      | some (idx, entry) =>
        let s := writeRequests s path (pruned.eraseIdx idx)
        let r := addChannelAllowFromStoreEntry env s channel entry.id
          (approvedAccountId accountId entry) io
        (r.1, r.2.map fun _ => some entry)

end Requests

/-! ### Runs -/

/-- What can happen. -/
inductive Action where
  /-- `upsertChannelPairingRequest`. -/
  | upsert (channel id accountId : String) (now : ℤ) (attempts : List Indices)
  /-- `approveChannelPairingCode`. -/
  | approve (channel code : String) (accountId : Option String) (now : ℤ) (io : Io)
  /-- `addChannelAllowFromStoreEntry`. -/
  | add (channel entry : String) (accountId : Option String) (io : Io)
  /-- `removeChannelAllowFromStoreEntry`. -/
  | remove (channel entry : String) (accountId : Option String) (io : Io)
  /-- `listChannelPairingRequests`. -/
  | list (channel : String) (accountId : Option String) (now : ℤ)
  /-- `readChannelAllowFromStore`. -/
  | read (channel : String) (accountId : Option String)
  /-- `readLegacyChannelAllowFromStore`. -/
  | readLegacy (channel : String)

def next (env : PairingEnv) (s : State) : Action → Option State
  | .upsert channel id accountId now attempts =>
    some (upsertChannelPairingRequest env s channel id accountId now attempts).1
  | .approve channel code accountId now io =>
    some (approveChannelPairingCode env s channel code accountId now io).1
  | .add channel entry accountId io =>
    some (addChannelAllowFromStoreEntry env s channel entry accountId io).1
  | .remove channel entry accountId io =>
    some (removeChannelAllowFromStoreEntry env s channel entry accountId io).1
  | .list channel accountId now => some (listChannelPairingRequests env s channel accountId now).1
  | .read channel accountId => some (readChannelAllowFromStore env s channel accountId).1
  | .readLegacy channel => some (readLegacyChannelAllowFromStore env s channel).1

end Foxclaw.Pairing
