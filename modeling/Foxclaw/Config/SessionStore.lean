import Foxclaw.Lib.JsMap
import Foxclaw.Lib.Runs
import Foxclaw.Lib.Text
import Mathlib.Data.List.Sort
import Mathlib.Algebra.Order.Ring.Rat

/-!
# The session store

This module models how `config/sessions/store.ts` reads and writes `sessions.json`: the two
caches (`store-cache.ts`), the maintenance before a save and the rotation of the file
(`store-maintenance.ts`), and the operations that change the store.

## The model

An entry is its `updatedAt` and a payload of any type `δ`. A text is what `JSON.stringify`
makes of a store, or another text, known by what `JSON.parse` makes of it (`FileText`): so
`parse` undoes `stringify`, and equal texts are equal. What the save path only passes through
is left open in `StoreEnv`: `toLowerCase`, the normalization and the migration of an entry, the
size of a text. What depends on the world is part of each operation (`Io`): the clock, the
time of the written file, what the disk budget evicts, whether a callback throws. Operations
follow each other, as they hold the lock. Transcripts and log lines are left out.
-/

namespace Foxclaw.Config.SessionStore

/-! ### Stores and files -/

structure SessionEntry (δ : Type) where
  updatedAt : Option ℚ
  payload : δ
  deriving DecidableEq

/-- `Record<string, SessionEntry>`. -/
abbrev Store (δ : Type) := JsMap String (SessionEntry δ)

/-- A text. -/
inductive FileText (δ : Type) where
  /-- What `JSON.stringify(store, null, 2)` returns. -/
  | json (store : Store δ)
  /-- Another text, and the store `JSON.parse` makes of it, if it makes one. -/
  | other (text : String) (parsed : Option (Store δ))
  deriving DecidableEq

variable {δ : Type}

/-- `JSON.parse`, when the result is a record. -/
def FileText.parse : FileText δ → Option (Store δ)
  | json store => some store
  | other _ parsed => parsed

/-- `sessions.json`. -/
structure SessionFile (δ : Type) where
  text : FileText δ
  mtimeMs : ℚ
  deriving DecidableEq

structure SessionStoreCacheEntry (δ : Type) where
  store : Store δ
  loadedAt : ℚ
  /-- `mtimeMs` and `sizeBytes`. -/
  stat : Option (ℚ × ℕ)
  deriving DecidableEq

/-- The file, its backups and the caches of the process. -/
structure State (δ : Type) where
  /-- `sessions.json`. -/
  file : Option (SessionFile δ)
  /-- The files `sessions.json.bak.…`. -/
  backups : JsMap String (FileText δ)
  /-- `SESSION_STORE_SERIALIZED_CACHE`. -/
  serialized : Option (FileText δ)
  /-- `SESSION_STORE_CACHE`. -/
  objectCache : Option (SessionStoreCacheEntry δ)
  /-- The store that the last completed save left. -/
  left : Option (Store δ)
  deriving DecidableEq

def start (file : Option (SessionFile δ)) (backups : JsMap String (FileText δ)) : State δ :=
  ⟨file, backups, none, none, none⟩

/-- What is left open. -/
structure StoreEnv (δ : Type) where
  toLowerCase : String → String
  /-- `normalizeSessionEntryDelivery(normalizeSessionRuntimeModelFields(entry))`. -/
  normalizeEntry : SessionEntry δ → SessionEntry δ
  /-- What `applySessionStoreMigrations` does to an entry. -/
  migrateEntry : SessionEntry δ → SessionEntry δ
  byteLength : FileText δ → ℕ
  /-- `getSessionStoreTtl`. -/
  ttlMs : ℚ

/-- What an operation meets. -/
structure Io where
  /-- `Date.now`. -/
  now : ℕ
  /-- The time of the file that it writes. -/
  mtimeMs : ℚ
  /-- The entries the disk budget evicts, in mode `enforce`. -/
  evicted : List String
  /-- Whether `onWarn`, `onMaintenanceApplied` or the sweep for the disk budget throws. -/
  callbackThrows : Bool

variable (env : StoreEnv δ)

/-! ### The caches -/

def isSessionStoreCacheEnabled : Bool := 0 < env.ttlMs

def getFileStatSnapshot (s : State δ) : Option (ℚ × ℕ) :=
  s.file.map fun file => (file.mtimeMs, env.byteLength file.text)

variable (now : ℚ)

/-- `readSessionStoreCache`: a cache that is out of date is dropped. -/
def readSessionStoreCache (s : State δ) : State δ × Option (Store δ) :=
  match s.objectCache with
  | none => (s, none)
  | some cached =>
    if now - cached.loadedAt > env.ttlMs then ({ s with objectCache := none, serialized := none }, none)
    else if getFileStatSnapshot env s ≠ cached.stat then
      ({ s with objectCache := none, serialized := none }, none)
    else (s, some cached.store)

variable (store : Store δ)

def applySessionStoreMigrations : Store δ := store.mapValues env.migrateEntry

/-- The store on disk; a file that is missing or does not parse counts as an empty store. -/
def contents (s : State δ) : Store δ := (s.file.bind fun file => file.text.parse).getD .empty

/-- `loadSessionStore`, when the cache is not used. -/
def loadFromDisk (skipCache : Bool) (s : State δ) : State δ × Store δ :=
  let store := applySessionStoreMigrations env (contents s)
  let serializedFromDisk :=
    s.file.bind fun file => if file.text.parse.isSome then some file.text else none
  let s := { s with serialized := serializedFromDisk }
  if !skipCache && isSessionStoreCacheEnabled env then
    ({ s with objectCache := some ⟨store, now, getFileStatSnapshot env s⟩ }, store)
  else (s, store)

def loadSessionStore (skipCache : Bool) (s : State δ) : State δ × Store δ :=
  if !skipCache && isSessionStoreCacheEnabled env then
    match readSessionStoreCache env now s with
    | (s, some cached) => (s, cached)
    | (s, none) => loadFromDisk env now skipCache s
  else loadFromDisk env now skipCache s

def updateSessionStoreWriteCaches (s : State δ) : State δ :=
  { s with
    serialized := some (.json store)
    objectCache :=
      if isSessionStoreCacheEnabled env then some ⟨store, now, getFileStatSnapshot env s⟩ else none }

/-! ### Maintenance -/

/-- `mode`. -/
inductive MaintenanceMode where
  /-- Entries are not removed. -/
  | warn
  /-- Entries are removed, and the file is rotated. -/
  | enforce
  deriving DecidableEq

/-- `ResolvedSessionMaintenanceConfig`. -/
structure Maintenance where
  mode : MaintenanceMode
  pruneAfterMs : ℚ
  maxEntries : ℕ
  rotateBytes : ℚ
  deriving DecidableEq

/-- `SaveSessionStoreOptions`: no maintenance for `skipMaintenance`, else the resolved one. -/
abbrev SaveOptions := Option Maintenance

def pruneStaleEntries (maxAgeMs : ℚ) (store : Store δ) : Store δ :=
  store.deleteAll ((store.entries.filter fun e =>
    match e.2.updatedAt with
    | some updatedAt => updatedAt < now - maxAgeMs
    | none => false).map Prod.fst)

/-- `b` does not come before `a` when keys are sorted by `updatedAt`, the latest first and
those without it last. -/
def sortsBefore (a b : Option ℚ) : Bool :=
  match a, b with
  | _, none => true
  | none, some _ => false
  | some a, some b => b ≤ a

def capEntryCount (maxEntries : ℕ) (store : Store δ) : Store δ :=
  if store.size ≤ maxEntries then store
  else
    let sorted :=
      store.entries.insertionSort fun a b => sortsBefore a.2.updatedAt b.2.updatedAt = true
    store.deleteAll ((sorted.drop maxEntries).map Prod.fst)

def normalizeSessionStore : Store δ := store.mapValues env.normalizeEntry

/-- The store after maintenance. -/
def maintained (io : Io) (opts : SaveOptions) (store : Store δ) : Store δ :=
  let store := normalizeSessionStore env store
  match opts with
  | some m =>
    if m.mode = .enforce then
      (capEntryCount m.maxEntries (pruneStaleEntries io.now m.pruneAfterMs store)).deleteAll io.evicted
    else store
  | none => store

/-- The name of a backup. -/
def backupName (now : ℕ) : String := "sessions.json.bak." ++ toString now

/-- The names of the backups that are deleted: all but the last three. -/
def oldBackups (names : List String) : List String :=
  ((names.insertionSort (· ≤ ·)).reverse).drop 3

/-- Is the file larger than `rotateBytes`? -/
def exceeds (rotateBytes : ℚ) (s : State δ) : Bool :=
  match s.file with
  | some file => rotateBytes < env.byteLength file.text
  | none => false

def rotateSessionFile (now : ℕ) (rotateBytes : ℚ) (s : State δ) : State δ :=
  match s.file with
  | none => s
  | some file =>
    if exceeds env rotateBytes s then
      let backups := s.backups.set (backupName now) file.text
      { s with file := none, backups := backups.deleteAll (oldBackups backups.keys) }
    else s

/-- Does a save with these options rotate the file? -/
def rotates (opts : SaveOptions) (s : State δ) : Bool :=
  match opts with
  | some m => m.mode = .enforce && exceeds env m.rotateBytes s
  | none => false

/-- What maintenance does to the files. -/
def maintainFiles (io : Io) (opts : SaveOptions) (s : State δ) : State δ :=
  match opts with
  | some m => if m.mode = .enforce then rotateSessionFile env io.now m.rotateBytes s else s
  | none => s

/-- `writeTextAtomic`, which succeeds. -/
def writeTextAtomic (io : Io) (text : FileText δ) (s : State δ) : State δ :=
  { s with file := some ⟨text, io.mtimeMs⟩ }

section Save

variable [DecidableEq δ]

/-- `saveSessionStoreUnlocked` after maintenance: the text is not written when it is the one in
the cache. -/
def writeStore (io : Io) (store : Store δ) (s : State δ) : State δ :=
  let s :=
    if s.serialized = some (.json store) then s else writeTextAtomic io (.json store) s
  { updateSessionStoreWriteCaches env io.now store s with left := some store }

/-- Do the callbacks of maintenance throw? -/
def maintenanceThrows (io : Io) (opts : SaveOptions) : Bool := opts.isSome && io.callbackThrows

def saveSessionStoreUnlocked (io : Io) (opts : SaveOptions) (store : Store δ) (s : State δ) : State δ :=
  let s := maintainFiles env io opts s
  if maintenanceThrows io opts then s
  else writeStore env io (maintained env io opts store) s

/-! ### The operations -/

/-- What `resolveSessionStoreEntry` returns. -/
structure ResolvedEntry (δ : Type) where
  normalizedKey : String
  existing : Option (SessionEntry δ)
  legacyKeys : List String

def normalizeStoreSessionKey (sessionKey : String) : String :=
  env.toLowerCase (Text.trimString sessionKey)

/-- `existing?.updatedAt ?? 0`. -/
def updatedAtOf (entry : Option (SessionEntry δ)) : ℚ := (entry.bind (·.updatedAt)).getD 0

/-- One candidate of `resolveSessionStoreEntry`. -/
def resolveCandidate (normalizedKey : String) (acc : Option (SessionEntry δ) × List String)
    (e : String × SessionEntry δ) : Option (SessionEntry δ) × List String :=
  if e.1 = normalizedKey then acc
  else if env.toLowerCase e.1 ≠ normalizedKey then acc
  else
    let legacyKeys := if e.1 ∈ acc.2 then acc.2 else acc.2 ++ [e.1]
    if acc.1.isNone ∨ updatedAtOf (some e.2) > updatedAtOf acc.1 then (some e.2, legacyKeys)
    else (acc.1, legacyKeys)

def resolveSessionStoreEntry (store : Store δ) (sessionKey : String) : ResolvedEntry δ :=
  let trimmedKey := Text.trimString sessionKey
  let normalizedKey := normalizeStoreSessionKey env trimmedKey
  let legacyKeys := if trimmedKey ≠ normalizedKey ∧ store.has trimmedKey = true then [trimmedKey] else []
  let existing :=
    (store.get? normalizedKey).or (if legacyKeys ≠ [] then store.get? trimmedKey else none)
  let (existing, legacyKeys) :=
    store.entries.foldl (resolveCandidate env normalizedKey) (existing, legacyKeys)
  ⟨normalizedKey, existing, legacyKeys⟩

/-- The store with the entry under its normalized key only. -/
def putResolved (store : Store δ) (resolved : ResolvedEntry δ) (next : SessionEntry δ) : Store δ :=
  (store.set resolved.normalizedKey next).deleteAll resolved.legacyKeys

/-- What the `update` of `updateSessionStoreEntry` leads to. -/
inductive EntryUpdate (δ : Type) where
  | throws
  | keep
  /-- It returns a patch: the entry that `mergeSessionEntry` makes with it. -/
  | merged (next : SessionEntry δ)

/-- The mutator of `recordSessionMetaFromInbound`; `patch` is the entry that the derived patch
makes of the existing one, if there is a patch. -/
def recordMeta (sessionKey : String) (patch : Option (SessionEntry δ) → Option (SessionEntry δ))
    (createIfMissing : Bool) (store : Store δ) : Store δ :=
  let resolved := resolveSessionStoreEntry env store sessionKey
  match patch resolved.existing with
  | none =>
    match resolved.existing with
    | some existing =>
      if resolved.legacyKeys ≠ [] then putResolved store resolved existing else store
    | none => store
  | some next =>
    if resolved.existing.isNone && !createIfMissing then store else putResolved store resolved next

/-- The operations of the store. -/
inductive Operation (δ : Type) where
  /-- `updateSessionStore`; the mutator may throw. -/
  | updateSessionStore (mutator : Store δ → Option (Store δ)) (opts : SaveOptions)
  | updateSessionStoreEntry (sessionKey : String) (update : SessionEntry δ → EntryUpdate δ)
    (maintenance : Maintenance)
  /-- `updateLastRoute`; `route` makes the next entry. -/
  | updateLastRoute (sessionKey : String) (route : Option (SessionEntry δ) → SessionEntry δ)
    (maintenance : Maintenance)
  | recordSessionMetaFromInbound (sessionKey : String)
    (patch : Option (SessionEntry δ) → Option (SessionEntry δ)) (createIfMissing : Bool)
    (maintenance : Maintenance)
  | saveSessionStore (store : Store δ) (opts : SaveOptions)
  | loadSessionStore (skipCache : Bool)

/-- What an operation has done when it comes to save: the state, and the store and options of the
save, if it comes to one. -/
def beforeSave (now : ℚ) (s : State δ) : Operation δ → State δ × Option (Store δ × SaveOptions)
  | .updateSessionStore mutator opts =>
    let (s, store) := loadSessionStore env now true s
    (s, (mutator store).map fun store => (store, opts))
  | .updateSessionStoreEntry sessionKey update maintenance =>
    let (s, store) := loadSessionStore env now true s
    let resolved := resolveSessionStoreEntry env store sessionKey
    match resolved.existing.map update with
    | some (.merged next) => (s, some (putResolved store resolved next, some maintenance))
    | _ => (s, none)
  | .updateLastRoute sessionKey route maintenance =>
    let (s, store) := loadSessionStore env now false s
    let resolved := resolveSessionStoreEntry env store sessionKey
    (s, some (putResolved store resolved (route resolved.existing), some maintenance))
  | .recordSessionMetaFromInbound sessionKey patch createIfMissing maintenance =>
    let (s, store) := loadSessionStore env now true s
    (s, some (recordMeta env sessionKey patch createIfMissing store, some maintenance))
  | .saveSessionStore store opts => (s, some (store, opts))
  | .loadSessionStore skipCache => ((loadSessionStore env now skipCache s).1, none)

def next (s : State δ) (a : Operation δ × Io) : Option (State δ) :=
  match beforeSave env a.2.now s a.1 with
  | (s, none) => some s
  | (s, some (store, opts)) => some (saveSessionStoreUnlocked env a.2 opts store s)

end Save

end Foxclaw.Config.SessionStore
