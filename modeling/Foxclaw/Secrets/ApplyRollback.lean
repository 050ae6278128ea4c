import Foxclaw.Secrets.ApplyFiles

/-!
# Rolling back a secrets plan

If `runSecretsApply` of `secrets/apply.ts` throws, are the files as they were?

## The model

`disk` says what the calls of `runSecretsApply` do to the files, and which replies the files allow. Any
call may fail. One that fails changes nothing, but for a write, which may leave anything where it was
to write.

## What is proved

* `writeAll_keeps` — however the writes end, no file with secrets has changed but the config and the files
  that were to be written, and of all of these a snapshot was taken (`captureAll_spec`).
* `restoreAll_spec` — writing the snapshots back gives what the files held, decoded and encoded again.
* `runSecretsApply_restores_iff` — so if all are written back, the config, the auth stores, the legacy
  stores and the env files are as they were exactly if those that were to be written, and the config, held
  UTF-8. The others come back changed: a byte that is no UTF-8 has become a replacement character
  (`env_changed`).
-/

namespace Foxclaw.Secrets

open List Option Function

/-- What the files hold, where there are files. -/
abbrev Files := FilePath → Option ByteArray

/-- What a call does to the files. -/
def Files.after (files : Files) : (c : Command) → Reply c → Files
  | .writeFile path content, .ok _ => update files path (some content)
  | .writeFile path _, .error failure => update files path failure.left
  | .rename source target, .ok _ => update (update files source none) target (files source)
  | .copyFile source target, .ok _ => update files target (files source)
  | .copyFile _ target, .error failure => update files target failure.left
  | .unlink path, .ok _ => update files path none
  | .appendFile path content, .ok _ => update files path (some ((files path).getD .empty ++ content))
  | .appendFile path _, .error failure => update files path failure.left
  | _, _ => files

/-- What a call may return. -/
def Files.allow (files : Files) : (c : Command) → Reply c → Prop
  | .existsSync path, reply => reply = .ok (files path).isSome
  | .readFile path, .ok bytes => files path = some bytes
  | .rename source _, .ok _ => (files source).isSome
  | .copyFile source _, .ok _ => (files source).isSome
  | _, _ => True

/-- The files under the calls. -/
def disk : Monitor Command Reply Files where
  ok _ _ := True
  valid := Files.allow
  next := Files.after

variable {path : FilePath} {c : Command}

/-- A call changes only what it writes. -/
theorem Files.after_of_notMem (h : path ∉ c.writes) (files : Files)
    (reply : Reply c) : files.after c reply path = files path := by
  cases c with
  | writeFile target content =>
    have hne : path ≠ target := fun e => h (by simp [Command.writes, e])
    cases reply <;> simp [after, hne]
  | rename source target =>
    have hsource : path ≠ source := fun e => h (by simp [Command.writes, e])
    have htarget : path ≠ target := fun e => h (by simp [Command.writes, e])
    cases reply <;> simp [after, hsource, htarget]
  | copyFile source target =>
    have hne : path ≠ target := fun e => h (by simp [Command.writes, e])
    cases reply <;> simp [after, hne]
  | unlink target =>
    have hne : path ≠ target := fun e => h (by simp [Command.writes, e])
    cases reply <;> simp [after, hne]
  | appendFile target content =>
    have hne : path ≠ target := fun e => h (by simp [Command.writes, e])
    cases reply <;> simp [after, hne]
  | existsSync | statMode | readFile | mkdir | chmod | readdir | now | randomUUID | ask =>
    cases reply <;> rfl

/-! ### Calls -/

variable {α : Type} {Q : Files → α → Prop} {E : Files → Thrown → Prop} {files before : Files}

theorem wp_io {Q : Files → Value c → Prop}
    (hok : ∀ value, files.allow c (.ok value) → Q (files.after c (.ok value)) value)
    (herror : ∀ failure : Failure, files.allow c (.error failure) →
      E (files.after c (.error failure)) { error := failure.error, restored := none }) :
    disk.wp (io c) Q E files := by
  show disk.wp ((Prog.call c).bind _) Q E files
  rw [Monitor.wp_bind, Monitor.wp_call]
  refine ⟨trivial, fun reply hreply => ?_⟩
  cases reply with
  | ok value => exact hok value hreply
  | error failure => exact herror failure hreply

variable {C : Command → Prop}

theorem uses_io (h : C c) : (io c).Uses C :=
  Prog.Uses.bind ((Prog.uses_call c).mpr h) fun reply => by cases reply <;> trivial

theorem uses_bestEffort {p : Io α} (h : p.Uses C) : (bestEffort p).Uses C :=
  Prog.Uses.seq h.attempt fun _ => trivial

/-- A program that only reads leaves the files as they are. -/
theorem Reading.wp_run (reading : Reading α) :
    disk.wp reading.run (fun after _ => after = files)
      (fun after thrown => after = files ∧ thrown.restored = none) files := by
  show disk.wp (reading.program.mapError _) _ _ files
  rw [Monitor.wp_mapError]
  refine Monitor.wp_mono (fun _ _ h => h) (fun _ _ h => ⟨h, rfl⟩)
    (Monitor.wp_of_uses (C := Command.Reads) (J := fun after => after = files) ?_ reading.reads rfl)
  intro c hc after hafter
  refine ⟨trivial, fun reply _ => funext fun path => ?_⟩
  subst hafter
  exact Files.after_of_notMem (by rw [hc]; exact not_mem_nil) _ _

/-! ### What the writers touch -/

/-- A temporary file, a backup of the config, or the audit log. -/
def Scratch (path : FilePath) : Prop :=
  ".tmp".toList <:+: path.base ∨ ".bak".toList <:+: path.base ∨ path.base = "config-audit.jsonl".toList

/-- No file with secrets is called like one of these. -/
theorem not_scratch (h : path.base ∈ secretNames) : ¬ Scratch path := by
  have hnames : ∀ name ∈ secretNames, ¬ ".tmp".toList <:+: name ∧ ¬ ".bak".toList <:+: name ∧
      name ≠ "config-audit.jsonl".toList := by decide +kernel
  obtain ⟨htmp, hbak, haudit⟩ := hnames _ h
  rintro (h | h | h)
  · exact htmp h
  · exact hbak h
  · exact haudit h

/-- A call that writes such a file, or one of which `P` holds. -/
def Touches (P : FilePath → Prop) (c : Command) : Prop := ∀ path ∈ c.writes, Scratch path ∨ P path

variable {host : Host} {P : FilePath → Prop}

theorem touches_nil (h : c.writes = []) : Touches P c := fun _ hpath => by
  rw [h] at hpath
  exact absurd hpath not_mem_nil

theorem touches_scratch (h : ∀ path ∈ c.writes, Scratch path) : Touches P c :=
  fun path hpath => .inl (h path hpath)

theorem scratch_bak (dir front back : List Char) :
    Scratch { dir, base := front ++ ".bak".toList ++ back } := .inr (.inl ⟨front, back, rfl⟩)

/-- The temporary file of `writeTextFileAtomic`. -/
theorem scratch_tempPath (path : FilePath) (pid now : List Char) :
    Scratch { path with base := path.base ++ ".tmp-".toList ++ pid ++ '-' :: now } :=
  .inl ⟨path.base, '-' :: pid ++ '-' :: now, by simp⟩

theorem uses_writeTextFileAtomic (h : P path) (value : String) (mode : ℕ) :
    (writeTextFileAtomic host path value mode).Uses (Touches P) := by
  refine Prog.Uses.seq (uses_io (touches_nil rfl)) fun _ => ?_
  refine Prog.Uses.seq (uses_io (touches_nil rfl)) fun now => ?_
  have htemp := scratch_tempPath path host.pid now
  refine Prog.Uses.seq (uses_io (touches_scratch ?_)) fun _ => ?_
  · simpa [Command.writes] using htemp
  refine Prog.Uses.seq (uses_io (touches_nil rfl)) fun _ => uses_io ?_
  intro target htarget
  simp only [Command.writes, mem_cons, not_mem_nil, or_false] at htarget
  obtain rfl | rfl := htarget
  · exact .inl htemp
  · exact .inr h

theorem scratch_backupBase (path : FilePath) : Scratch (backupBase path) :=
  .inr (.inl ⟨path.base, [], by simp [backupBase]⟩)

theorem scratch_numberedBackup (path : FilePath) (index : ℕ) : Scratch (numberedBackup path index) :=
  scratch_bak _ _ _

theorem uses_rotateConfigBackups (path : FilePath) : (rotateConfigBackups path).Uses (Touches P) := by
  refine Prog.Uses.seq (uses_bestEffort (uses_io (touches_scratch ?_))) fun _ => ?_
  · simpa [Command.writes] using scratch_numberedBackup path _
  refine Prog.Uses.seq (Prog.Uses.forM fun index _ => uses_bestEffort (uses_io (touches_scratch ?_)))
    fun _ => uses_bestEffort (uses_io (touches_scratch ?_))
  · simpa [Command.writes] using ⟨scratch_numberedBackup path _, scratch_numberedBackup path _⟩
  · simpa [Command.writes] using ⟨scratch_backupBase path, scratch_numberedBackup path _⟩

theorem uses_hardenBackupPermissions (path : FilePath) : (hardenBackupPermissions path).Uses (Touches P) :=
  Prog.Uses.seq (uses_bestEffort (uses_io (touches_nil rfl))) fun _ =>
    Prog.Uses.forM fun _ _ => uses_bestEffort (uses_io (touches_nil rfl))

theorem uses_cleanOrphanBackups (path : FilePath) : (cleanOrphanBackups path).Uses (Touches P) := by
  refine Prog.Uses.seq (Prog.Uses.attempt (uses_io (touches_nil rfl))) fun entries => ?_
  cases entries with
  | error thrown => trivial
  | ok entries =>
    refine Prog.Uses.forM fun entry hentry => uses_bestEffort (uses_io (touches_scratch ?_))
    obtain ⟨hstart, -⟩ := Bool.and_eq_true_iff.mp (mem_filter.mp hentry).2
    obtain ⟨rest, rfl⟩ := isPrefixOf_iff_prefix.mp hstart
    rintro target htarget
    obtain rfl := mem_singleton.mp htarget
    exact .inr (.inl ⟨path.base, '.' :: rest, by simp⟩)

theorem uses_maintainConfigBackups (path : FilePath) : (maintainConfigBackups path).Uses (Touches P) := by
  refine Prog.Uses.seq (uses_rotateConfigBackups path) fun _ => ?_
  refine Prog.Uses.seq (uses_bestEffort (uses_io (touches_scratch ?_))) fun _ => ?_
  · simpa [Command.writes] using scratch_backupBase path
  exact Prog.Uses.seq (uses_hardenBackupPermissions path) fun _ => uses_cleanOrphanBackups path

theorem uses_appendConfigWriteAuditRecord (record : String) :
    (appendConfigWriteAuditRecord host record).Uses (Touches P) := by
  refine uses_bestEffort (Prog.Uses.seq (uses_io (touches_nil rfl)) fun _ =>
    uses_io (touches_scratch ?_))
  intro target htarget
  obtain rfl := mem_singleton.mp htarget
  exact .inr (.inr rfl)

theorem uses_tightenStateDirPermissionsIfNeeded :
    (tightenStateDirPermissionsIfNeeded host).Uses (Touches P) := by
  unfold tightenStateDirPermissionsIfNeeded
  split
  · refine uses_bestEffort (Prog.Uses.seq (uses_io (touches_nil rfl)) fun mode => ?_)
    split
    · trivial
    · exact uses_io (touches_nil rfl)
  · trivial

theorem uses_replaceConfig {path tmp : FilePath} (h : P path) (htmp : Scratch tmp) :
    (replaceConfig path tmp).Uses (Touches P) := by
  refine Prog.Uses.seq (Prog.Uses.attempt (uses_io ?_)) fun renamed => ?_
  · intro target htarget
    simp only [Command.writes, mem_cons, not_mem_nil, or_false] at htarget
    obtain rfl | rfl := htarget
    · exact .inl htmp
    · exact .inr h
  have hunlink : (bestEffort (io (.unlink tmp))).Uses (Touches P) :=
    uses_bestEffort (uses_io (touches_scratch (by simpa [Command.writes] using htmp)))
  cases renamed with
  | ok done => trivial
  | error err =>
    dsimp only
    split
    · refine Prog.Uses.seq (uses_io ?_) fun _ => ?_
      · intro target htarget
        obtain rfl := mem_singleton.mp htarget
        exact .inr h
      · exact Prog.Uses.seq (uses_bestEffort (uses_io (touches_nil rfl))) fun _ =>
          Prog.Uses.seq hunlink fun _ => trivial
    · exact Prog.Uses.seq hunlink fun _ => trivial

theorem Reading.uses_run (reading : Reading α) : reading.run.Uses (Touches P) :=
  Prog.Uses.mapError (reading.reads.mono fun _ => touches_nil)

/-- `writeConfigFile` touches the config, its backups, a temporary file and the audit log. -/
theorem uses_writeConfigFile (h : P host.configPath) (prepare : Reading ConfigText) :
    (writeConfigFile host prepare).Uses (Touches P) := by
  refine Prog.Uses.seq prepare.uses_run fun text => ?_
  refine Prog.Uses.seq (uses_io (touches_nil rfl)) fun _ => ?_
  refine Prog.Uses.seq uses_tightenStateDirPermissionsIfNeeded fun _ => ?_
  refine Prog.Uses.seq (uses_io (touches_nil rfl)) fun uuid => ?_
  have htmp : Scratch { host.configPath with
      base := host.configPath.base ++ '.' :: host.pid ++ '.' :: uuid ++ ".tmp".toList } :=
    .inl ⟨host.configPath.base ++ '.' :: host.pid ++ '.' :: uuid, [], by simp⟩
  refine Prog.Uses.tryCatch ?_ fun err =>
    Prog.Uses.seq (uses_appendConfigWriteAuditRecord _) fun _ => trivial
  refine Prog.Uses.seq (uses_io (touches_scratch (by simpa [Command.writes] using htmp))) fun _ => ?_
  refine Prog.Uses.seq (uses_io (touches_nil rfl)) fun existed => ?_
  have hrest : ∀ _ : Unit, Prog.Uses (Touches P) (do
      let renamed ← replaceConfig host.configPath { host.configPath with
        base := host.configPath.base ++ '.' :: host.pid ++ '.' :: uuid ++ ".tmp".toList }
      appendConfigWriteAuditRecord host (text.auditRecord (.ok renamed))) := fun _ =>
    Prog.Uses.seq (uses_replaceConfig h htmp) fun _ => uses_appendConfigWriteAuditRecord _
  split
  · exact Prog.Uses.seq (uses_maintainConfigBackups _) hrest
  · exact hrest ()

/-- The body of `try` touches nothing but what was captured. -/
theorem uses_writeAll (projected : ProjectedState) :
    (projected.writeAll host).Uses (Touches (· ∈ projected.captured host)) := by
  refine Prog.Uses.seq (uses_writeConfigFile mem_cons_self _) fun _ => ?_
  refine Prog.Uses.forM fun write hwrite => uses_writeTextFileAtomic ?_ _ _
  exact mem_cons_of_mem _ (List.mem_map_of_mem hwrite)

/-- However the writes end, a file with secrets of which no snapshot was taken is as it was. -/
theorem writeAll_keeps (projected : ProjectedState) :
    let Kept after := ∀ path : FilePath, path.base ∈ secretNames → path ∉ projected.captured host →
      after path = before path
    disk.wp (projected.writeAll host) (fun after _ => Kept after) (fun after _ => Kept after) before := by
  intro Kept
  refine Monitor.wp_of_uses (J := Kept) ?_ (uses_writeAll projected) fun _ _ _ => rfl
  intro c hc files hfiles
  refine ⟨trivial, fun reply _ path hname hpath => ?_⟩
  have hwrites : path ∉ c.writes := fun h => (hc path h).elim (not_scratch hname) hpath
  exact (files.after_of_notMem hwrites reply).trans (hfiles path hname hpath)

/-! ### Taking the snapshots -/

/-- The snapshot says what the file holds, but for the bytes that are no UTF-8. -/
def Tells (host : Host) (files : Files) (path : FilePath) (snapshot : FileSnapshot) : Prop :=
  snapshot.existed = (files path).isSome ∧
    ∀ bytes, files path = some bytes → snapshot.content = decode host bytes

theorem captureFileSnapshot_spec (path : FilePath) :
    disk.wp (captureFileSnapshot host path)
      (fun after snapshot => after = files ∧ Tells host files path snapshot)
      (fun after thrown => after = files ∧ thrown.restored = none) files := by
  refine Monitor.wp_seq (wp_io (fun existed hexisted => ?_) fun failure hfailure => ⟨rfl, rfl⟩)
  obtain rfl : existed = (files path).isSome := Except.ok.inj hexisted
  cases hfile : files path with
  | none => exact ⟨rfl, by rw [hfile]; rfl, fun bytes hbytes => by rw [hfile] at hbytes; cases hbytes⟩
  | some held =>
    refine Monitor.wp_seq (wp_io (fun mode _ => ?_) fun failure _ => ⟨rfl, rfl⟩)
    refine Monitor.wp_seq (wp_io (fun bytes hbytes => ?_) fun failure _ => ⟨rfl, rfl⟩)
    have hbytes : files path = some bytes := hbytes
    refine ⟨rfl, by rw [hfile]; rfl, fun bytes' hbytes' => ?_⟩
    rw [hbytes] at hbytes'
    rw [some.inj hbytes']

theorem captureAll_spec (paths : List FilePath) (snapshots : Snapshots)
    (h : ∀ e ∈ snapshots.entries, Tells host files e.1 e.2) :
    disk.wp (captureAll host snapshots paths)
      (fun after captured => after = files ∧ (∀ e ∈ captured.entries, Tells host files e.1 e.2) ∧
        ∀ path, captured.has path = true ↔ snapshots.has path = true ∨ path ∈ paths)
      (fun after thrown => after = files ∧ thrown.restored = none) files := by
  induction paths generalizing snapshots with
  | nil => exact ⟨rfl, h, fun path => by simp⟩
  | cons path paths ih =>
    rw [captureAll]
    split
    · rename_i hhas
      refine Monitor.wp_mono (fun after captured => ?_) (fun _ _ h => h) (ih snapshots h)
      rintro ⟨hafter, htells, hkeys⟩
      refine ⟨hafter, htells, fun other => (hkeys other).trans ?_⟩
      have : other = path → snapshots.has other = true := fun e => e ▸ hhas
      rw [mem_cons]
      tauto
    · refine Monitor.wp_seq (Monitor.wp_mono ?_ (fun _ _ h => h) (captureFileSnapshot_spec path))
      rintro mid snapshot ⟨hmid, htells⟩
      obtain rfl := hmid.symm
      have hset : ∀ e ∈ (snapshots.set path snapshot).entries, Tells host files e.1 e.2 := by
        intro e he
        rcases JsMap.mem_setIn he with rfl | he
        · exact htells
        · exact h e he
      refine Monitor.wp_mono (fun after captured => ?_) (fun _ _ h => h) (ih _ hset)
      rintro ⟨hafter, htells, hkeys⟩
      refine ⟨hafter, htells, fun other => (hkeys other).trans ?_⟩
      have hother : (snapshots.set path snapshot).has other = true ↔
          snapshots.has other = true ∨ other = path := by
        simp only [JsMap.has, JsMap.get?_set]
        split
        · rename_i heq
          exact ⟨fun _ => .inr heq.symm, fun _ => rfl⟩
        · rename_i hne
          exact ⟨.inl, fun h => h.resolve_right fun heq => hne heq.symm⟩
      rw [hother, mem_cons]
      tauto

/-! ### Writing them back -/

/-- The config, an auth store, a legacy store or an env file. -/
def SecretFile (host : Host) (path : FilePath) : Prop :=
  path = host.configPath ∨ path.base ∈ secretNames

/-- The config is not called like a temporary file of another file with secrets. -/
def OwnName (host : Host) : Prop :=
  ∀ name ∈ secretNames, ¬ (name ++ ".tmp-".toList) <+: host.configPath.base

/-- What becomes of a file that is written back. -/
def comesBack (host : Host) (before : Files) (path : FilePath) : Option ByteArray :=
  (before path).map fun bytes => (decode host bytes).toUTF8

variable {projected : ProjectedState}

theorem captured_secretFile (h : path ∈ projected.captured host) : SecretFile host path := by
  rcases mem_cons.mp h with rfl | h
  · exact .inl rfl
  · obtain ⟨write, hwrite, rfl⟩ := List.mem_map.mp h
    simp only [ProjectedState.writes, mem_append, List.mem_map] at hwrite
    refine .inr ?_
    obtain (⟨e, -, rfl⟩ | ⟨e, -, rfl⟩) | ⟨e, -, rfl⟩ := hwrite <;> simp [secretNames]

/-- The temporary file of a file with secrets is no file with secrets. -/
theorem not_secretFile_tempPath (hown : OwnName host) (hpath : SecretFile host path) (pid now : List Char) :
    ¬ SecretFile host { path with base := path.base ++ ".tmp-".toList ++ pid ++ '-' :: now } := by
  rintro (hconfig | hname)
  · have hbase : path.base ++ ".tmp-".toList ++ pid ++ '-' :: now = host.configPath.base :=
      congrArg FilePath.base hconfig
    rcases hpath with rfl | hpath
    · have := congrArg List.length hbase
      simp at this
    · exact hown _ hpath ⟨pid ++ '-' :: now, by rw [← hbase]; simp⟩
  · exact not_scratch hname (scratch_tempPath path pid now)

theorem writeTextFileAtomic_spec (hown : OwnName host) (hpath : SecretFile host path)
    (value : String) (mode : ℕ) :
    let Kept after := ∀ other, SecretFile host other → other ≠ path → after other = files other
    disk.wp (writeTextFileAtomic host path value mode)
      (fun after _ => Kept after ∧ after path = some value.toUTF8) (fun after _ => Kept after) files := by
  intro Kept
  refine Monitor.wp_seq (wp_io (fun _ _ => ?_) fun _ _ _ _ _ => rfl)
  refine Monitor.wp_seq (wp_io (fun now _ => ?_) fun _ _ _ _ _ => rfl)
  generalize htemp : ({ path with base := path.base ++ ".tmp-".toList ++ host.pid ++ '-' :: now } : FilePath) =
    tempPath
  have hne : ∀ other, SecretFile host other → other ≠ tempPath := by
    rintro other hother rfl
    exact not_secretFile_tempPath hown hpath host.pid now (htemp ▸ hother)
  have htempKept : ∀ content, Kept (update files tempPath content) := fun content other hother _ =>
    update_of_ne (hne other hother) _ _
  refine Monitor.wp_seq (wp_io (fun _ _ => ?_) fun _ _ => htempKept _)
  refine Monitor.wp_seq (wp_io (fun _ _ => ?_) fun _ _ => htempKept _)
  refine wp_io (fun _ _ => ⟨fun other hother hpath => ?_, ?_⟩) fun _ _ => htempKept _
  · show (update (update (update files tempPath _) tempPath none) path _ : Files) other = files other
    rw [update_of_ne hpath, update_of_ne (hne other hother)]
    exact htempKept _ other hother hpath
  · show (update (update (update files tempPath _) tempPath none) path
      (update files tempPath (some value.toUTF8) tempPath) : Files) path = _
    rw [update_self, update_self]

theorem restoreFileSnapshot_spec (hown : OwnName host) (hpath : SecretFile host path)
    {snapshot : FileSnapshot} (h : Tells host before path snapshot) :
    let Kept after := ∀ other, SecretFile host other → other ≠ path → after other = files other
    disk.wp (restoreFileSnapshot host path snapshot)
      (fun after _ => Kept after ∧ after path = comesBack host before path)
      (fun after _ => Kept after) files := by
  intro Kept
  obtain ⟨hexisted, hcontent⟩ := h
  unfold restoreFileSnapshot comesBack
  cases hbefore : before path with
  | some bytes =>
    rw [if_pos (by rw [hexisted, hbefore]; rfl), hcontent bytes hbefore]
    exact writeTextFileAtomic_spec hown hpath _ _
  | none =>
    rw [if_neg (by rw [hexisted, hbefore]; exact Bool.false_ne_true)]
    refine Monitor.wp_seq (wp_io (fun existed hexists => ?_) fun _ _ _ _ _ => rfl)
    obtain rfl : existed = (files path).isSome := Except.ok.inj hexists
    split
    · refine wp_io (fun _ _ => ⟨fun other _ hne => ?_, ?_⟩) fun _ _ _ _ _ => rfl
      · exact update_of_ne hne _ _
      · exact update_self _ _ _
    · rename_i hnone
      exact ⟨fun _ _ _ => rfl, not_isSome_iff_eq_none.mp hnone⟩

/-- Writing back changes no other file with secrets, and, if nothing was thrown, each comes back. -/
theorem restoreAll_spec (hown : OwnName host) {entries : List (FilePath × FileSnapshot)}
    (hnodup : (entries.map Prod.fst).Nodup) (hsecret : ∀ e ∈ entries, SecretFile host e.1)
    (h : ∀ e ∈ entries, Tells host before e.1 e.2) :
    disk.wp (restoreAll host entries)
      (fun after dropped =>
        (∀ other, SecretFile host other → other ∉ entries.map Prod.fst → after other = files other) ∧
          (dropped = [] → ∀ path ∈ entries.map Prod.fst, after path = comesBack host before path))
      (fun _ _ => False) files := by
  induction entries generalizing files with
  | nil => exact ⟨fun _ _ _ => rfl, fun _ path hpath => absurd hpath not_mem_nil⟩
  | cons e rest ih =>
    obtain ⟨path, snapshot⟩ := e
    rw [map_cons, nodup_cons] at hnodup
    have hpath := hsecret _ mem_cons_self
    refine Monitor.wp_seq (Monitor.wp_caught (Monitor.wp_mono ?_ ?_
      (restoreFileSnapshot_spec hown hpath (h _ mem_cons_self))))
    · rintro mid - ⟨hkept, hback⟩
      refine Monitor.wp_seq (Monitor.wp_mono ?_ (fun _ _ h => h) (ih hnodup.2
        (fun e he => hsecret e (mem_cons_of_mem _ he)) fun e he => h e (mem_cons_of_mem _ he)))
      rintro after dropped ⟨hrest, hdropped⟩
      refine ⟨fun other hother hne => ?_, fun hnil other hother => ?_⟩
      · rw [map_cons, mem_cons, not_or] at hne
        rw [hrest other hother hne.2, hkept other hother hne.1]
      · rcases mem_cons.mp hother with rfl | hother
        · exact (hrest _ hpath hnodup.1).trans hback
        · exact hdropped hnil other hother
    · rintro mid thrown hkept
      refine Monitor.wp_seq (Monitor.wp_mono ?_ (fun _ _ h => h) (ih hnodup.2
        (fun e he => hsecret e (mem_cons_of_mem _ he)) fun e he => h e (mem_cons_of_mem _ he)))
      rintro after dropped ⟨hrest, -⟩
      refine ⟨fun other hother hne => ?_, fun hnil => absurd hnil (cons_ne_nil _ _)⟩
      rw [map_cons, mem_cons, not_or] at hne
      rw [hrest other hother hne.2, hkept other hother hne.1]

/-! ### Rolling back -/

/-- Decoded and encoded again, only UTF-8 is what it was. -/
theorem toUTF8_decode_iff {bytes : ByteArray} : (decode host bytes).toUTF8 = bytes ↔ bytes.IsValidUTF8 := by
  constructor
  · intro h
    rw [← h]
    exact String.isValidUTF8 _
  · intro h
    simp only [decode, String.fromUTF8?, dif_pos h, getD_some]
    rfl

theorem comesBack_eq_iff :
    comesBack host before path = before path ↔
      ∀ bytes, before path = some bytes → bytes.IsValidUTF8 := by
  unfold comesBack
  cases before path with
  | none => simp
  | some bytes =>
    rw [map_some, some_inj, toUTF8_decode_iff]
    exact ⟨fun h bytes' hbytes => some.inj hbytes ▸ h, fun h => h bytes rfl⟩

/-- The catch block gives every file of which a snapshot was taken what comes back of it. -/
theorem rollBack_spec (hown : OwnName host) {snapshots : Snapshots}
    (htells : ∀ e ∈ snapshots.entries, Tells host before e.1 e.2)
    (hkeys : ∀ path, snapshots.has path = true ↔ path ∈ projected.captured host)
    (hfiles : ∀ path : FilePath, path.base ∈ secretNames → path ∉ projected.captured host →
      files path = before path) (err : Thrown) :
    disk.wp (projected.rollBack host snapshots err) (fun _ _ => False)
      (fun after thrown => ∃ dropped,
        thrown.restored = some { writes := projected.writes, dropped } ∧
          (dropped = [] → ∀ path, SecretFile host path → after path =
            if path ∈ projected.captured host then comesBack host before path else before path)) files := by
  have hmem : ∀ path, path ∈ snapshots.entries.map Prod.fst ↔ path ∈ projected.captured host :=
    fun path => JsMap.mem_keys_iff.trans (hkeys path)
  have hsecret : ∀ e ∈ snapshots.entries, SecretFile host e.1 := fun e he =>
    captured_secretFile ((hmem e.1).mp (List.mem_map_of_mem he))
  refine Monitor.wp_seq (Monitor.wp_mono ?_ (fun _ _ h => h.elim)
    (restoreAll_spec hown snapshots.nodup_keys hsecret htells))
  rintro after dropped ⟨hkept, hback⟩
  refine ⟨dropped, rfl, fun hnil path hpath => ?_⟩
  split
  · rename_i hcaptured
    exact hback hnil path ((hmem path).mpr hcaptured)
  · rename_i hcaptured
    rw [hkept path hpath fun h => hcaptured ((hmem path).mp h)]
    have hname : path.base ∈ secretNames := hpath.resolve_left fun h => hcaptured (h ▸ mem_cons_self)
    exact hfiles path hname hcaptured

/-- When `runSecretsApply` throws, either it has written nothing, or, if every snapshot was written back,
all files with secrets are as they were exactly if the config and the files that were to be written held
UTF-8. -/
theorem runSecretsApply_restores_iff (hown : OwnName host) (project : Reading ProjectedState)
    (write : Bool) (before : Files) :
    disk.wp (runSecretsApply host project write) (fun _ _ => True)
      (fun after thrown =>
        match thrown.restored with
        | none => after = before
        | some restoration => restoration.dropped = [] →
          ((∀ path, SecretFile host path → after path = before path) ↔
            ∀ path ∈ host.configPath :: restoration.writes.map ApplyWrite.path,
              ∀ bytes, before path = some bytes → bytes.IsValidUTF8)) before := by
  refine Monitor.wp_seq (Monitor.wp_mono ?_ ?_ project.wp_run)
  swap
  · rintro after thrown ⟨hafter, hnone⟩
    rw [hnone]
    exact hafter
  rintro mid projected hmid
  obtain rfl := hmid.symm
  split
  · trivial
  split
  · trivial
  refine Monitor.wp_seq (Monitor.wp_mono ?_ ?_ (captureAll_spec (projected.captured host) .empty ?_))
  rotate_left
  · rintro after thrown ⟨hafter, hnone⟩
    rw [hnone]
    exact hafter
  · intro e he
    exact absurd he not_mem_nil
  rintro mid snapshots ⟨hmid, htells, hkeys⟩
  obtain rfl := hmid.symm
  have hkeys : ∀ path, snapshots.has path = true ↔ path ∈ projected.captured host := fun path =>
    (hkeys path).trans (or_iff_right Bool.false_ne_true)
  refine Monitor.wp_seq (Monitor.wp_caught (Monitor.wp_mono (fun _ _ _ => trivial) ?_
    (writeAll_keeps projected)))
  intro files err hfiles
  refine Monitor.wp_mono (fun _ _ _ => trivial) ?_ (rollBack_spec hown htells hkeys hfiles err)
  rintro after thrown ⟨dropped, hrestored, hafter⟩
  rw [hrestored]
  intro hnil
  have hafter := hafter hnil
  constructor
  · intro hall path hpath
    have hcaptured : path ∈ projected.captured host := hpath
    have hsecret := captured_secretFile hcaptured
    have hback : comesBack host before path = before path := by
      rw [← hall path hsecret, hafter path hsecret, if_pos hcaptured]
    exact comesBack_eq_iff.mp hback
  · intro hvalid path hsecret
    rw [hafter path hsecret]
    split
    · rename_i hpath
      exact comesBack_eq_iff.mpr (hvalid path hpath)
    · rfl

/-! ### A file that comes back changed -/

/-- A process whose config is not in the directory of its env file. -/
def oneHost : Host where
  pid := "7".toList
  configPath := { dir := "/etc/foxclaw".toList, base := "foxclaw.json".toList }
  inStateDir := false
  auditDir := "/home/fox/.foxclaw/logs".toList
  lossy _ := "\uFFFD"
  toSorted := id

def envFile : FilePath := { dir := "/home/fox/.foxclaw".toList, base := ".env".toList }

/-- A plan by which a line of the env file is to be removed. -/
def envPlan : Reading ProjectedState where
  program := .pure
    { nextConfig := { program := .pure { json := "\x7b\x7d", auditRecord := fun _ => "" }, reads := trivial }
      authStoreByPath := []
      authJsonByPath := []
      envRawByPath := [("/home/fox/.foxclaw".toList, "")]
      changedFiles := [oneHost.configPath, envFile]
      warnings := [] }
  reads := trivial

/-- The env file holds an é in Latin-1. -/
def latin1 : Files := update (fun _ => none) envFile (some ⟨#[0xE9]⟩)

/-- How the calls end when the directory of the config cannot be written. -/
def deny (failure : Failure) (files : Files) : (c : Command) → Reply c
  | .existsSync path => .ok (files path).isSome
  | .readFile path => (files path).elim (.error failure) .ok
  | .rename source _ => if (files source).isSome then .ok () else .error failure
  | .copyFile source _ => if (files source).isSome then .ok () else .error failure
  | .writeFile path _ => if path.dir = oneHost.configPath.dir then .error failure else .ok ()
  | .statMode _ => .ok 0o644
  | .mkdir _ | .chmod _ _ | .unlink _ | .appendFile _ _ => .ok ()
  | .readdir _ => .ok []
  | .now => .ok "1".toList
  | .randomUUID => .ok "u".toList
  | .ask _ => .ok ""

theorem deny_allowed (failure : Failure) (files : Files) (c : Command) :
    files.allow c (deny failure files c) := by
  cases c with
  | existsSync path => rfl
  | readFile path =>
    show files.allow (.readFile path) ((files path).elim (.error failure) .ok)
    cases h : files path with
    | none => trivial
    | some bytes => exact h
  | rename source target =>
    show files.allow (.rename source target) (if (files source).isSome then .ok () else .error failure)
    split
    · assumption
    · trivial
  | copyFile source target =>
    show files.allow (.copyFile source target) (if (files source).isSome then .ok () else .error failure)
    split
    · assumption
    · trivial
  | writeFile | statMode | mkdir | chmod | unlink | appendFile | readdir | now | randomUUID | ask =>
    trivial

/-- Everything was restored, but the env file is not what it was. -/
def envDiffers : Except Thrown SecretsApplyResult × Files → Bool
  | (.error thrown, after) =>
    thrown.restored.any (fun restoration => restoration.dropped = []) &&
      decide ((after envFile).map ByteArray.data ≠ (latin1 envFile).map ByteArray.data)
  | (.ok _, _) => false

/-- The config cannot be written, so the env file, which was not written yet, is written back: its é has
become a replacement character. -/
theorem env_changed :
    ¬ ∀ (host : Host) (project : Reading ProjectedState) (before : Files),
      disk.wp (runSecretsApply host project true) (fun _ _ => True)
        (fun after thrown => ∀ restoration, thrown.restored = some restoration →
          restoration.dropped = [] → ∀ path, SecretFile host path → after path = before path) before := by
  intro h
  let failure : Failure := { error := { code := some "EACCES", text := "Error: EACCES" }, left := none }
  have hrun := (Monitor.wp_run (deny_allowed failure) (h oneHost envPlan latin1)).2
  have hend : envDiffers (Prog.run (deny failure) disk.next (runSecretsApply oneHost envPlan true) latin1) = true := by
    decide +kernel
  revert hend hrun
  rcases Prog.run (deny failure) disk.next (runSecretsApply oneHost envPlan true) latin1 with
    ⟨thrown | result, after⟩
  · intro hrun hend
    obtain ⟨hany, hne⟩ := Bool.and_eq_true_iff.mp hend
    obtain ⟨restoration, hrestored, hdropped⟩ := (Option.any_eq_true _ _).mp hany
    exact of_decide_eq_true hne (congrArg _
      (hrun thrown rfl restoration hrestored (of_decide_eq_true hdropped) envFile (.inr (by decide +kernel))))
  · intro _ hend
    exact absurd hend Bool.false_ne_true

/-- The rule at this process and this plan. -/
theorem runSecretsApply_restores_envPlan :
    OwnName oneHost ∧ disk.wp (runSecretsApply oneHost envPlan true) (fun _ _ => True)
      (fun after thrown =>
        match thrown.restored with
        | none => after = latin1
        | some restoration => restoration.dropped = [] →
          ((∀ path, SecretFile oneHost path → after path = latin1 path) ↔
            ∀ path ∈ oneHost.configPath :: restoration.writes.map ApplyWrite.path,
              ∀ bytes, latin1 path = some bytes → bytes.IsValidUTF8)) latin1 := by
  have hown : OwnName oneHost := by unfold OwnName; decide +kernel
  exact ⟨hown, runSecretsApply_restores_iff hown envPlan true latin1⟩

end Foxclaw.Secrets
