import Foxclaw.Lib.JsMap
import Foxclaw.Lib.Prog

/-!
# Applying a secrets plan to the files

This module models how `runSecretsApply` of `secrets/apply.ts` writes: it takes snapshots of the files
that will change, writes the config with `writeConfigFile` of `config/io.ts` (which keeps backups, see
`config/backup-rotation.ts`) and the other files with `writeTextFileAtomic` of `secrets/shared.ts`, and
writes the snapshots back if something throws. Every function is a program whose calls are its file
operations.

## The model

A file holds bytes, and is read and written as text: bytes that are no UTF-8 are decoded to what
`lossy` says. What `projectPlanState` makes of the plan and the files, and the text that
`writeConfigFile` makes of the config and the files, are programs that only read. An auth store is a
file `auth-profiles.json`, a legacy store a file `auth.json`, and the env file is called `.env`, each in
some directory.

The error that `runSecretsApply` throws tells neither what was to be written nor which of the snapshots
could not be written back; both are kept beside it.
-/

namespace Foxclaw.Secrets

/-- A path: a directory, and a name in it. -/
structure FilePath where
  /-- `path.dirname`. -/
  dir : List Char
  /-- `path.basename`. -/
  base : List Char
  deriving DecidableEq

/-- What a call throws. -/
structure JsError where
  /-- `code`, where the error has one. -/
  code : Option String
  /-- `String(err)`. -/
  text : String
  deriving DecidableEq

/-- What a failed call leaves behind: a write that fails may have written a part. -/
structure Failure where
  error : JsError
  /-- What the file that was to be written holds then. -/
  left : Option ByteArray

/-- The calls. -/
inductive Command where
  | existsSync (path : FilePath)
  /-- `statSync(path).mode`, also of a directory. -/
  | statMode (path : FilePath)
  /-- `readFileSync`, before it is decoded. -/
  | readFile (path : FilePath)
  /-- `mkdir` of a directory and those above it. -/
  | mkdir (dir : List Char)
  /-- `writeFile`, after the text is encoded. -/
  | writeFile (path : FilePath) (content : ByteArray)
  | chmod (path : FilePath) (mode : ℕ)
  | rename (source target : FilePath)
  | copyFile (source target : FilePath)
  /-- `unlink`, or `rmSync` of a file. -/
  | unlink (path : FilePath)
  | appendFile (path : FilePath) (content : ByteArray)
  | readdir (dir : List Char)
  /-- `Date.now()`, in decimal. -/
  | now
  /-- `crypto.randomUUID()`. -/
  | randomUUID
  /-- A call that is answered from outside the files, such as running a secret provider. -/
  | ask (question : String)

/-- What a call returns. -/
@[reducible] def Value : Command → Type
  | .existsSync _ => Bool
  | .statMode _ => ℕ
  | .readFile _ => ByteArray
  | .readdir _ => List (List Char)
  | .now => List Char
  | .randomUUID => List Char
  | .ask _ => String
  | _ => Unit

/-- How a call ends. -/
abbrev Reply (c : Command) := Except Failure (Value c)

structure ApplyWrite where
  path : FilePath
  content : String
  mode : ℕ

/-- What the `catch` of `runSecretsApply` did. -/
structure Restoration where
  /-- The writes that were to follow that of the config. -/
  writes : List ApplyWrite
  /-- What was thrown by writing them back. -/
  dropped : List JsError

/-- What a program throws. -/
structure Thrown where
  error : JsError
  /-- What was done in `catch`, if the error comes from there. -/
  restored : Option Restoration

/-- A program on files. -/
abbrev Io (α : Type) := Prog Command Reply Thrown α

/-- Make a call; throw what it throws. -/
def io (c : Command) : Io (Value c) :=
  (Prog.call c).bind fun
    | .ok value => .pure value
    | .error failure => .throw { error := failure.error, restored := none }

/-- `….catch(() => {})`. -/
def bestEffort {α : Type} (p : Io α) : Io Unit := do
  let _ ← p.attempt
  pure ()

/-- The paths whose files a call may change. -/
def Command.writes : Command → List FilePath
  | .writeFile path _ => [path]
  | .rename source target => [source, target]
  | .copyFile _ target => [target]
  | .unlink path => [path]
  | .appendFile path _ => [path]
  | _ => []

/-- A call that changes no file. -/
def Command.Reads (c : Command) : Prop := c.writes = []

/-- A program that only reads. -/
structure Reading (α : Type) where
  program : Prog Command Reply JsError α
  reads : program.Uses Command.Reads

/-- Read. -/
def Reading.run {α : Type} (reading : Reading α) : Io α :=
  reading.program.mapError fun error => { error, restored := none }

/-- What the programs know of the process. -/
structure Host where
  /-- `process.pid`, in decimal. -/
  pid : List Char
  /-- The path of the config: the first of the candidates of `createConfigIO` that exists. -/
  configPath : FilePath
  /-- The config is in the state directory. -/
  inStateDir : Bool
  /-- `resolveConfigAuditLogPath`, but for the name of the file. -/
  auditDir : List Char
  /-- How bytes that are no UTF-8 are decoded. -/
  lossy : ByteArray → String
  /-- `toSorted` of paths. -/
  toSorted : List FilePath → List FilePath

variable (host : Host)

/-- Decode a file. -/
def decode (bytes : ByteArray) : String := (String.fromUTF8? bytes).getD (host.lossy bytes)

/-! ### Writing a text -/

variable (path : FilePath)

def writeTextFileAtomic (value : String) (mode : ℕ) : Io Unit := do
  io (.mkdir path.dir)
  let now ← io .now
  let tempPath : FilePath := { path with base := path.base ++ ".tmp-".toList ++ host.pid ++ '-' :: now }
  io (.writeFile tempPath value.toUTF8)
  io (.chmod tempPath mode)
  io (.rename tempPath path)

/-! ### Writing the config -/

def CONFIG_BACKUP_COUNT : ℕ := 5

variable (configPath : FilePath)

/-- `${configPath}.bak`. -/
def backupBase : FilePath :=
  { configPath with base := configPath.base ++ ".bak".toList }

/-- `${configPath}.bak.${index}`. -/
def numberedBackup (index : ℕ) : FilePath :=
  { configPath with base := configPath.base ++ ".bak".toList ++ '.' :: (toString index).toList }

def rotateConfigBackups : Io Unit := do
  let maxIndex := CONFIG_BACKUP_COUNT - 1
  bestEffort (io (.unlink (numberedBackup configPath maxIndex)))
  Prog.forM (fun index => bestEffort (io (.rename (numberedBackup configPath index)
    (numberedBackup configPath (index + 1))))) (List.range' 1 (maxIndex - 1)).reverse
  bestEffort (io (.rename (backupBase configPath) (numberedBackup configPath 1)))

def hardenBackupPermissions : Io Unit := do
  bestEffort (io (.chmod (backupBase configPath) 0o600))
  Prog.forM (fun i => bestEffort (io (.chmod (numberedBackup configPath i) 0o600)))
    (List.range' 1 (CONFIG_BACKUP_COUNT - 1))

def cleanOrphanBackups : Io Unit := do
  let bakStart := configPath.base ++ ".bak.".toList
  let validSuffixes := (List.range' 1 (CONFIG_BACKUP_COUNT - 1)).map fun i => (toString i).toList
  match ← (io (.readdir configPath.dir)).attempt with
  | .error _ => pure ()
  | .ok entries =>
    Prog.forM (fun entry => bestEffort (io (.unlink { configPath with base := entry })))
      (entries.filter fun entry =>
        bakStart.isPrefixOf entry && !validSuffixes.contains (entry.drop bakStart.length))

def maintainConfigBackups : Io Unit := do
  rotateConfigBackups configPath
  bestEffort (io (.copyFile configPath (backupBase configPath)))
  hardenBackupPermissions configPath
  cleanOrphanBackups configPath

/-- `appendConfigWriteAuditRecord`, of a record. -/
def appendConfigWriteAuditRecord (record : String) : Io Unit :=
  bestEffort (do
    io (.mkdir host.auditDir)
    io (.appendFile { dir := host.auditDir, base := "config-audit.jsonl".toList } record.toUTF8))

/-- What `writeConfigFile` computes before it writes. -/
structure ConfigText where
  json : String
  /-- The audit record, of how the write ended. -/
  auditRecord : Except JsError Bool → String

/-- `tightenStateDirPermissionsIfNeeded`, of the directory of the config. -/
def tightenStateDirPermissionsIfNeeded : Io Unit :=
  if host.inStateDir then
    let dir : FilePath := { dir := host.configPath.dir, base := [] }
    bestEffort (do
      let mode ← io (.statMode dir)
      if mode &&& 0o077 = 0 then pure () else io (.chmod dir 0o700))
  else pure ()

/-- The `rename` of the temporary file to the config, and what is done if it fails: is the config written,
and not by copying? -/
def replaceConfig (configPath tmp : FilePath) : Io Bool := do
  match ← (io (.rename tmp configPath)).attempt with
  | .ok () => pure true
  | .error err =>
    if err.error.code = some "EPERM" ∨ err.error.code = some "EEXIST" then
      io (.copyFile tmp configPath)
      bestEffort (io (.chmod configPath 0o600))
      bestEffort (io (.unlink tmp))
      pure false
    else
      bestEffort (io (.unlink tmp))
      Prog.throw err

/-- `writeConfigFile`, of a config whose text `prepare` computes. -/
def writeConfigFile (prepare : Reading ConfigText) : Io Unit := do
  let configPath := host.configPath
  let text ← prepare.run
  io (.mkdir configPath.dir)
  tightenStateDirPermissionsIfNeeded host
  let uuid ← io .randomUUID
  let tmp : FilePath :=
    { configPath with base := configPath.base ++ '.' :: host.pid ++ '.' :: uuid ++ ".tmp".toList }
  let written : Io Unit := do
    io (.writeFile tmp text.json.toUTF8)
    if ← io (.existsSync configPath) then maintainConfigBackups configPath
    let renamed ← replaceConfig configPath tmp
    appendConfigWriteAuditRecord host (text.auditRecord (.ok renamed))
  written.tryCatch fun err => do
    appendConfigWriteAuditRecord host (text.auditRecord (.error err.error))
    Prog.throw err

/-! ### Snapshots -/

structure FileSnapshot where
  existed : Bool
  content : String
  mode : ℕ
  deriving DecidableEq

def captureFileSnapshot : Io FileSnapshot := do
  if ← io (.existsSync path) then
    let mode ← io (.statMode path)
    let bytes ← io (.readFile path)
    pure { existed := true, content := decode host bytes, mode := mode &&& 0o777 }
  else pure { existed := false, content := "", mode := 0o600 }

def restoreFileSnapshot (snapshot : FileSnapshot) : Io Unit := do
  if snapshot.existed then
    writeTextFileAtomic host path snapshot.content (if snapshot.mode = 0 then 0o600 else snapshot.mode)
  else if ← io (.existsSync path) then io (.unlink path)

abbrev Snapshots := JsMap FilePath FileSnapshot

/-- `capture`, of paths one after the other. -/
def captureAll (snapshots : Snapshots) : List FilePath → Io Snapshots
  | [] => pure snapshots
  | path :: paths => do
    if snapshots.has path then captureAll snapshots paths
    else
      let snapshot ← captureFileSnapshot host path
      captureAll (snapshots.set path snapshot) paths

/-- The loop in `catch`: what was thrown is dropped. -/
def restoreAll : List (FilePath × FileSnapshot) → Io (List JsError)
  | [] => pure []
  | (path, snapshot) :: rest => do
    let ended ← (restoreFileSnapshot host path snapshot).attempt
    let dropped ← restoreAll rest
    match ended with
    | .ok () => pure dropped
    | .error thrown => pure (thrown.error :: dropped)

/-! ### Applying -/

/-- `ProjectedState`; a store is given with its directory, as the text that is to be written, and the
config as the program that writes it computes it. -/
structure ProjectedState where
  /-- `nextConfig`, with `configWriteOptions`. -/
  nextConfig : Reading ConfigText
  authStoreByPath : List (List Char × String)
  authJsonByPath : List (List Char × String)
  envRawByPath : List (List Char × String)
  changedFiles : List FilePath
  warnings : List String

/-- The files with secrets but for the config. -/
def secretNames : List (List Char) := ["auth-profiles.json".toList, "auth.json".toList, ".env".toList]

variable (projected : ProjectedState)

def ProjectedState.writes : List ApplyWrite :=
  (projected.authStoreByPath.map fun (dir, content) =>
      { path := { dir, base := "auth-profiles.json".toList }, content, mode := 0o600 }) ++
    (projected.authJsonByPath.map fun (dir, content) =>
      { path := { dir, base := "auth.json".toList }, content, mode := 0o600 }) ++
    (projected.envRawByPath.map fun (dir, content) =>
      { path := { dir, base := ".env".toList }, content, mode := 0o600 })

structure SecretsApplyResult where
  /-- `mode`: is it `write`? -/
  write : Bool
  changed : Bool
  changedFiles : List FilePath
  warningCount : ℕ
  warnings : List String

/-- What is reported. -/
def ProjectedState.result (write : Bool) : SecretsApplyResult :=
  let changedFiles := host.toSorted projected.changedFiles
  { write, changed := !changedFiles.isEmpty, changedFiles
    warningCount := projected.warnings.length, warnings := projected.warnings }

/-- The body of `try`. -/
def ProjectedState.writeAll : Io Unit := do
  writeConfigFile host projected.nextConfig
  Prog.forM (fun write => writeTextFileAtomic host write.path write.content write.mode) projected.writes

/-- The body of `catch`. -/
def ProjectedState.rollBack (snapshots : Snapshots) (err : Thrown) :
    Io SecretsApplyResult := do
  let dropped ← restoreAll host snapshots.entries
  Prog.throw { error := { code := none, text := "Error: Secrets apply failed: " ++ err.error.text }
               restored := some { writes := projected.writes, dropped } }

/-- The paths whose snapshots are taken. -/
def ProjectedState.captured : List FilePath :=
  host.configPath :: projected.writes.map ApplyWrite.path

/-- `runSecretsApply`, of a plan that `project` projects on the files. -/
def runSecretsApply (project : Reading ProjectedState) (write : Bool) : Io SecretsApplyResult := do
  let projected ← project.run
  if write = false then pure (projected.result host false)
  else if projected.changedFiles = [] then
    pure { projected.result host true with changed := false, changedFiles := [] }
  else
    let snapshots ← captureAll host .empty (projected.captured host)
    match ← (projected.writeAll host).attempt with
    | .ok () => pure (projected.result host true)
    | .error err => projected.rollBack host snapshots err

end Foxclaw.Secrets
