import Foxclaw.Config.SessionStore
import Foxclaw.Lib.Sweep

/-!
# The disk budget of the sessions

This module models `config/sessions/disk-budget.ts`: when the files of the sessions directory and
the store are larger than a maximum, files that no entry refers to are removed, and then entries
with their transcripts, the oldest first, until the size is at most a high-water mark.

## The model

The directory is its listing, and the sizes of the other files an entry may name; files are known
by their canonical paths. No one else changes them, and removals succeed. The text of a store is
put together from the lines of its entries, as `JSON.stringify` does it. Where a transcript is
(`resolveSessionFilePath`) and the lines of an entry are left open. Beside the state of the source
stands what was removed, and the total before (`removals`, `fileRemovals`).
-/

namespace Foxclaw.Config.DiskBudget

open Foxclaw.Config.SessionStore (SessionEntry Store)
open Foxclaw.Sweep (sweepTo)

/-! ### Names of files -/

/-- What follows the last place where `marker` is found. -/
def afterLast (marker cs : List Char) : Option (List Char) :=
  (cs.tails.filter fun rest => marker.isPrefixOf rest).getLast?.map (·.drop marker.length)

/-- Is the text as the template says? There `d` is for any digit. -/
def matchesTemplate : List Char → List Char → Bool
  | [], [] => true
  | t :: ts, c :: cs => (if t = 'd' then c.isDigit else c = t) && matchesTemplate ts cs
  | _, _ => false

/-- `ARCHIVE_TIMESTAMP_RE`. -/
def isArchiveTimestamp (raw : List Char) : Bool :=
  matchesTemplate "dddd-dd-ddTdd-dd-ddZ".toList raw ||
    matchesTemplate "dddd-dd-ddTdd-dd-dd.dddZ".toList raw

def hasArchiveSuffix (fileName reason : List Char) : Bool :=
  match afterLast (['.'] ++ reason ++ ['.']) fileName with
  | none => false
  | some raw => isArchiveTimestamp raw

/-- `LEGACY_STORE_BACKUP_RE`. -/
def isLegacyStoreBackup (fileName : List Char) : Bool :=
  let start := "sessions.json.bak.".toList
  let rest := fileName.drop start.length
  start.isPrefixOf fileName && !rest.isEmpty && rest.all Char.isDigit

def isSessionArchiveArtifactName (fileName : String) : Bool :=
  isLegacyStoreBackup fileName.toList || hasArchiveSuffix fileName.toList "deleted".toList ||
    hasArchiveSuffix fileName.toList "reset".toList || hasArchiveSuffix fileName.toList "bak".toList

def isPrimarySessionTranscriptFileName (fileName : String) : Bool :=
  fileName ≠ "sessions.json" && ".jsonl".toList.isSuffixOf fileName.toList &&
    !isSessionArchiveArtifactName fileName

/-! ### Files and entries -/

structure SessionsDirFileStat where
  canonicalPath : String
  name : String
  size : ℕ
  mtimeMs : ℚ
  deriving DecidableEq

/-- The sessions directory. -/
structure SessionsDir where
  /-- What `readSessionsDirFiles` returns. -/
  files : List SessionsDirFileStat
  /-- The sizes of files that are not in the listing. -/
  elsewhere : String → Option ℕ
  nodup : (files.map (·.canonicalPath)).Nodup

/-- `fileSizesByPath`. -/
def SessionsDir.sizeOf (dir : SessionsDir) (path : String) : Option ℕ :=
  (dir.files.find? (·.canonicalPath = path)).map (·.size)

/-- The files there are, with their sizes. -/
def SessionsDir.disk (dir : SessionsDir) (path : String) : Option ℕ :=
  (dir.sizeOf path).or (dir.elsewhere path)

variable {δ : Type}

/-- What is left open. -/
structure BudgetEnv (δ : Type) where
  toLowerCase : String → String
  /-- `sessionId`; empty if there is none. -/
  sessionId : δ → String
  sessionFile : δ → Option String
  /-- The canonical path that `resolveSessionFilePath` gives for the id and the file of an entry;
  none if it throws, or if the path is not within the directory. -/
  resolveSessionFilePath : String → Option String → Option String
  /-- The lines of an entry in `JSON.stringify(store, null, 2)`. -/
  lines : String → SessionEntry δ → List Char

variable (env : BudgetEnv δ)

/-- The transcript that an entry refers to, through its file or its id. -/
def transcriptOf (entry : SessionEntry δ) : Option String :=
  env.resolveSessionFilePath (env.sessionId entry.payload) (env.sessionFile entry.payload)

def resolveSessionTranscriptPathForEntry (entry : SessionEntry δ) : Option String :=
  if env.sessionId entry.payload = "" then none else transcriptOf env entry

/-! ### The size of the store -/

/-- `Buffer.byteLength`. -/
def byteLength (cs : List Char) : ℕ := (cs.map Char.utf8Size).sum

/-- `JSON.stringify(store, null, 2)`, of the entries. -/
def stringify (entries : List (String × SessionEntry δ)) : List Char :=
  if entries = [] then ['{', '}']
  else ['{', '\n'] ++ [',', '\n'].intercalate (entries.map fun e => env.lines e.1 e.2) ++ ['\n', '}']

def measureStoreBytes (store : Store δ) : ℕ := byteLength (stringify env store.entries)

def measureStoreEntryChunkBytes (key : String) (entry : SessionEntry δ) : ℤ :=
  let singleEntryStore := stringify env [(key, entry)]
  if !(['{', '\n'].isPrefixOf singleEntryStore) || !(['\n', '}'].isSuffixOf singleEntryStore) then
    byteLength singleEntryStore - 4
  else byteLength ((singleEntryStore.drop 2).take (singleEntryStore.length - 4))

/-! ### The sweep -/

/-- An entry that was removed. -/
structure RemovedEntry (δ : Type) where
  key : String
  entry : SessionEntry δ
  totalBefore : ℤ

/-- A file that was to be removed. -/
structure RemovedFile where
  path : String
  totalBefore : ℤ

/-- The variables of `enforceSessionDiskBudget`, the files and the store. -/
structure SweepState (δ : Type) where
  store : Store δ
  disk : String → Option ℕ
  simulatedRemovedPaths : List String
  projectedStoreBytes : ℤ
  total : ℤ
  removedFiles : ℕ
  removedEntries : ℕ
  freedBytes : ℕ
  sessionIdRefCounts : JsMap String ℕ
  removals : List (RemovedEntry δ)
  fileRemovals : List RemovedFile

variable (dir : SessionsDir) (dryRun : Bool)

/-- `removeFileForBudget`: the state, and the bytes it deleted. -/
def removeFileForBudget (path : String) (s : SweepState δ) : SweepState δ × ℕ :=
  if dryRun then
    if path ∈ s.simulatedRemovedPaths then (s, 0)
    else
      let size := (dir.sizeOf path).getD 0
      if size ≤ 0 then (s, 0)
      else ({ s with simulatedRemovedPaths := path :: s.simulatedRemovedPaths }, size)
  else
    match s.disk path with
    | none => (s, 0)
    | some size => ({ s with disk := Function.update s.disk path none }, size)

/-- A file is removed and counted. -/
def removeFile (path : String) (s : SweepState δ) : SweepState δ :=
  let (s, deletedBytes) := removeFileForBudget dir dryRun path s
  let s := { s with fileRemovals := s.fileRemovals ++ [⟨path, s.total⟩] }
  if deletedBytes ≤ 0 then s
  else { s with
    total := s.total - deletedBytes
    freedBytes := s.freedBytes + deletedBytes
    removedFiles := s.removedFiles + 1 }

/-- `activeSessionKey` as keys are compared with it. -/
def normalizeActiveKey (key : String) : String := env.toLowerCase (Text.trimString key)

variable (active : Option String)

/-- Is the entry under the key the active one? -/
def isActive (key : String) : Bool :=
  match active with
  | none => false
  | some active => normalizeActiveKey env active ≠ "" &&
      normalizeActiveKey env key = normalizeActiveKey env active

/-- The entry is taken out of the store. -/
def dropEntry (key : String) (entry : SessionEntry δ) (s : SweepState δ) : SweepState δ :=
  -- Removing any one entry removes its lines and `,\n`.
  let projectedStoreBytes :=
    max 2 (s.projectedStoreBytes - (measureStoreEntryChunkBytes env key entry + 2))
  { s with
    store := s.store.delete key
    projectedStoreBytes := projectedStoreBytes
    total := s.total + (projectedStoreBytes - s.projectedStoreBytes)
    removedEntries := s.removedEntries + 1
    removals := s.removals ++ [⟨key, entry, s.total⟩] }

/-- The reference of a removed entry to its session is dropped, and with the last one the
transcript. -/
def dropReference (entry : SessionEntry δ) (s : SweepState δ) : SweepState δ :=
  let sessionId := env.sessionId entry.payload
  if sessionId = "" then s
  else
    let nextRefCount := (s.sessionIdRefCounts.get? sessionId).getD 1 - 1
    if nextRefCount > 0 then
      { s with sessionIdRefCounts := s.sessionIdRefCounts.set sessionId nextRefCount }
    else
      let s := { s with sessionIdRefCounts := s.sessionIdRefCounts.delete sessionId }
      match resolveSessionTranscriptPathForEntry env entry with
      | none => s
      | some transcriptPath => removeFile dir dryRun transcriptPath s

/-- The second loop, for one key. -/
def removeEntry (s : SweepState δ) (key : String) : SweepState δ :=
  if isActive env active key then s
  else match s.store.get? key with
    | none => s
    | some entry => dropReference env dir dryRun entry (dropEntry env key entry s)

def getEntryUpdatedAt (entry : SessionEntry δ) : ℚ := entry.updatedAt.getD 0

variable (store : Store δ)

/-- The keys of a store, the oldest entry first. -/
def keysByAge : List String :=
  (store.entries.insertionSort fun a b => getEntryUpdatedAt a.2 ≤ getEntryUpdatedAt b.2).map Prod.fst

def buildSessionIdRefCounts : JsMap String ℕ :=
  store.values.foldl (fun counts entry =>
    let sessionId := env.sessionId entry.payload
    if sessionId = "" then counts
    else counts.set sessionId ((counts.get? sessionId).getD 0 + 1)) .empty

def resolveReferencedSessionTranscriptPaths : List String :=
  store.values.filterMap (resolveSessionTranscriptPathForEntry env)

/-- May the file be removed? -/
def isRemovable (referencedPaths : List String) (file : SessionsDirFileStat) : Bool :=
  isSessionArchiveArtifactName file.name ||
    (isPrimarySessionTranscriptFileName file.name && file.canonicalPath ∉ referencedPaths)

def removableFileQueue : List SessionsDirFileStat :=
  (dir.files.filter (isRemovable (resolveReferencedSessionTranscriptPaths env store))).insertionSort
    fun a b => a.mtimeMs ≤ b.mtimeMs

variable (storePath : String)

/-- The size of the store file in the listing. -/
def storeFileSize : ℕ := (dir.sizeOf storePath).getD 0

/-- The state in which the sweep starts. -/
def startState (store : Store δ) : SweepState δ where
  store := store
  disk := dir.disk
  simulatedRemovedPaths := []
  projectedStoreBytes := measureStoreBytes env store
  total := (dir.files.map (·.size)).sum - storeFileSize dir storePath + measureStoreBytes env store
  removedFiles := 0
  removedEntries := 0
  freedBytes := 0
  sessionIdRefCounts := buildSessionIdRefCounts env store
  removals := []
  fileRemovals := []

/-- The first loop. -/
def sweepFiles (highWaterBytes : ℤ) (s : SweepState δ) : SweepState δ :=
  sweepTo (fun s (file : SessionsDirFileStat) => removeFile dir dryRun file.canonicalPath s)
    (·.total) highWaterBytes (removableFileQueue env dir s.store) s

/-- The second loop. -/
def sweepEntries (highWaterBytes : ℤ) (s : SweepState δ) : SweepState δ :=
  sweepTo (removeEntry env dir dryRun active) (·.total) highWaterBytes (keysByAge s.store) s

structure SessionDiskBudgetSweepResult where
  totalBytesBefore : ℤ
  totalBytesAfter : ℤ
  removedFiles : ℕ
  removedEntries : ℕ
  freedBytes : ℕ
  maxBytes : ℤ
  highWaterBytes : ℤ
  overBudget : Bool
  deriving DecidableEq

/-- What is reported of a state. -/
def report (start s : SweepState δ) (maxBytes highWaterBytes : ℤ) (overBudget : Bool) :
    SessionDiskBudgetSweepResult :=
  ⟨start.total, s.total, s.removedFiles, s.removedEntries, s.freedBytes, maxBytes, highWaterBytes,
    overBudget⟩

structure SessionDiskBudgetConfig where
  maxDiskBytes : Option ℤ
  highWaterBytes : Option ℤ

/-- `enforceSessionDiskBudget`: the state in the end, and what is reported. -/
def enforceSessionDiskBudget (store : Store δ) (active : Option String)
    (maintenance : SessionDiskBudgetConfig) (warnOnly : Bool) :
    SweepState δ × Option SessionDiskBudgetSweepResult :=
  let start := startState env dir storePath store
  match maintenance.maxDiskBytes, maintenance.highWaterBytes with
  | some maxBytes, some highWaterBytes =>
    if start.total ≤ maxBytes then (start, some (report start start maxBytes highWaterBytes false))
    else if warnOnly then (start, some (report start start maxBytes highWaterBytes true))
    else
      let s := sweepFiles env dir dryRun highWaterBytes start
      let s := if s.total > highWaterBytes then sweepEntries env dir dryRun active highWaterBytes s
        else s
      (s, some (report start s maxBytes highWaterBytes true))
  | _, _ => (start, none)

end Foxclaw.Config.DiskBudget
