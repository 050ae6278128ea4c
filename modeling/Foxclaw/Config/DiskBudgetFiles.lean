import Foxclaw.Config.DiskBudgetSweep
import Mathlib.Algebra.Order.BigOperators.Group.List
import Mathlib.Algebra.Order.Group.Nat

/-!
# The files of a sweep

What the steps of a real run do to the files (`stepPath`), and when the total is that of the files
and the store that are left (`Accounted`).

## What is proved

* `applyStep_real` — a step removes the file `stepPath` names, and makes the total too low by the
  bytes of that file that are not counted.
* `removed_by` — a file that is gone was removed by a step.
* `disk_realRun`, `store_realRun` — which files and entries are left after some steps of the plan, in
  terms of the directory and the store before the sweep.
-/

namespace Foxclaw.Config.DiskBudget

open Foxclaw.Config.SessionStore (SessionEntry Store)
open List Option Foxclaw.Sweep

variable {δ : Type}
variable {env : BudgetEnv δ} {dir : SessionsDir} {storePath : String} {store : Store δ}
  {active : Option String}

/-! ### Files -/

/-- The sizes of the files of the listing that are left, without the store. -/
def remainingBytes (dir : SessionsDir) (storePath : String) (disk : String → Option ℕ) : ℕ :=
  ((dir.files.filter fun file => file.canonicalPath ≠ storePath &&
    (disk file.canonicalPath).isSome).map (·.size)).sum

@[simp] theorem removed_real (path : String) (s : SweepState δ) :
    (removeFileForBudget dir false path s).2 = (s.disk path).getD 0 := by
  unfold removeFileForBudget
  rw [if_neg Bool.false_ne_true]
  split
  · rename_i h
    rw [h]
    rfl
  · rename_i size h
    rw [h]
    rfl

/-- A file that is removed is gone. -/
theorem disk_removeFile (path path' : String) (s : SweepState δ) :
    (removeFile dir false path s).disk path' = if path' = path then none else s.disk path' := by
  have hbudget : (removeFileForBudget dir false path s).1.disk path' =
      if path' = path then none else s.disk path' := by
    unfold removeFileForBudget
    rw [if_neg Bool.false_ne_true]
    split
    · rename_i h
      split
      · rename_i heq
        exact heq ▸ h
      · rfl
    · by_cases heq : path' = path
      · simp [heq]
      · simp [heq]
  unfold removeFile
  dsimp only
  split
  · exact hbudget
  · exact hbudget

theorem sum_remaining {files : List SessionsDirFileStat} (hnodup : (files.map (·.canonicalPath)).Nodup)
    (storePath path : String) (disk : String → Option ℕ) :
    ((files.filter fun file => file.canonicalPath ≠ storePath &&
        (if file.canonicalPath = path then none else disk file.canonicalPath).isSome).map (·.size)).sum +
      (if path ≠ storePath ∧ (disk path).isSome then
        ((files.find? (·.canonicalPath = path)).map (·.size)).getD 0 else 0) =
    ((files.filter fun file => file.canonicalPath ≠ storePath &&
      (disk file.canonicalPath).isSome).map (·.size)).sum := by
  induction files with
  | nil => simp
  | cons file rest ih =>
    rw [map_cons, nodup_cons] at hnodup
    have hrest := ih hnodup.2
    by_cases hpath : file.canonicalPath = path
    · subst hpath
      have hnone : rest.find? (·.canonicalPath = file.canonicalPath) = none := by
        rw [List.find?_eq_none]
        intro other hother heq
        have hmem := List.mem_map_of_mem (f := SessionsDirFileStat.canonicalPath) hother
        exact hnodup.1 ((of_decide_eq_true heq) ▸ hmem)
      rw [hnone] at hrest
      by_cases hcounted : file.canonicalPath ≠ storePath ∧ (disk file.canonicalPath).isSome
      · simp [hcounted] at hrest ⊢
        omega
      · simp [hcounted] at hrest ⊢
        omega
    · have hfind : (file :: rest).find? (·.canonicalPath = path) =
          rest.find? (·.canonicalPath = path) := find?_cons_of_neg (by simpa using hpath)
      rw [hfind]
      simp only [filter_cons, if_neg hpath]
      split
      · simp only [map_cons, sum_cons]
        omega
      · exact hrest

/-- What is counted of the bytes of a file. -/
def countedBytes (dir : SessionsDir) (storePath : String) (disk : String → Option ℕ) (path : String) : ℕ :=
  if path ≠ storePath ∧ (disk path).isSome then (dir.sizeOf path).getD 0 else 0

theorem remainingBytes_removeFile (dir : SessionsDir) (storePath path : String) (s : SweepState δ) :
    remainingBytes dir storePath (removeFile dir false path s).disk +
      countedBytes dir storePath s.disk path = remainingBytes dir storePath s.disk := by
  have hsum := sum_remaining dir.nodup storePath path s.disk
  simp only [remainingBytes, disk_removeFile]
  exact hsum

/-- No file has changed but for those that are gone. -/
def OnDisk (dir : SessionsDir) (s : SweepState δ) : Prop :=
  ∀ path, s.disk path = dir.disk path ∨ s.disk path = none

variable {path : String} {s : SweepState δ}

theorem size_of_onDisk (h : OnDisk dir s) {size : ℕ}
    (hdisk : s.disk path = some size) : dir.disk path = some size := by
  obtain heq | heq := h path
  · exact heq ▸ hdisk
  · exact absurd (hdisk.symm.trans heq) (by simp)

/-- The total is that of what is left. -/
def Accounted (env : BudgetEnv δ) (dir : SessionsDir) (storePath : String) (s : SweepState δ) : Prop :=
  s.total = remainingBytes dir storePath s.disk + measureStoreBytes env s.store

/-- How much the total is too low. -/
def shortfall (env : BudgetEnv δ) (dir : SessionsDir) (storePath : String) (s : SweepState δ) : ℤ :=
  remainingBytes dir storePath s.disk + measureStoreBytes env s.store - s.total

theorem accounted_iff : Accounted env dir storePath s ↔ shortfall env dir storePath s = 0 := by
  unfold Accounted shortfall
  omega

/-- What is not counted of the bytes of a file. -/
def missedBytes (dir : SessionsDir) (storePath : String) (disk : String → Option ℕ) (path : String) : ℤ :=
  (disk path).getD 0 - countedBytes dir storePath disk path

theorem shortfall_removeFile (path : String) (s : SweepState δ) :
    shortfall env dir storePath (removeFile dir false path s) =
      shortfall env dir storePath s + missedBytes dir storePath s.disk path := by
  have hbytes := remainingBytes_removeFile dir storePath path s
  unfold shortfall missedBytes
  rw [total_removeFile, removed_real, (removeFile_sameStore path s).store]
  omega

theorem missedBytes_nonneg (h : OnDisk dir s) (path : String) :
    0 ≤ missedBytes dir storePath s.disk path := by
  unfold missedBytes countedBytes
  cases hdisk : s.disk path with
  | none => simp
  | some size =>
    have hsize := size_of_onDisk h hdisk
    cases hlisted : dir.sizeOf path with
    | none => simp
    | some n =>
      rw [SessionsDir.disk, hlisted] at hsize
      obtain rfl : n = size := Option.some.inj hsize
      split <;> simp

/-- All bytes of a file are counted when it is gone or empty, or in the listing and not the store. -/
theorem countedBytes_eq_iff (h : OnDisk dir s) (path : String) :
    countedBytes dir storePath s.disk path = (s.disk path).getD 0 ↔
      ∀ size, s.disk path = some size → size = 0 ∨ path ≠ storePath ∧ (dir.sizeOf path).isSome := by
  unfold countedBytes
  cases hdisk : s.disk path with
  | none => simp
  | some size =>
    have hsize := size_of_onDisk h hdisk
    cases hlisted : dir.sizeOf path with
    | none =>
      simp [eq_comm]
    | some n =>
      have hn : n = size := by
        rw [SessionsDir.disk, hlisted] at hsize
        exact Option.some.inj hsize
      by_cases hstore : path = storePath
      · simp [hstore, eq_comm]
      · simp [hstore, hn]

variable {entry : SessionEntry δ} {key : String}

theorem shortfall_countDown (hkept : Kept env s) (hget : s.store.get? key = some entry) :
    shortfall env dir storePath (countDown env key entry s) = shortfall env dir storePath s := by
  have htotal := total_countDown hkept hget
  have hbytes := measureStoreBytes_delete env hget
  obtain ⟨counts, heq⟩ := countDown_cases env key entry s
  unfold shortfall
  rw [htotal, heq]
  simp only [dropEntry]
  rw [hbytes]
  omega

/-! ### Which file a step removes -/

instance (s : SweepState δ) (entry : SessionEntry δ) : Decidable (IsLast env s entry) :=
  inferInstanceAs (Decidable (_ ∧ _))

/-- The file that a step removes. -/
def stepPath (env : BudgetEnv δ) (active : Option String) (s : SweepState δ) :
    Step → Option String
  | .file path => some path
  | .entry key =>
    if isActive env active key then none
    else (s.store.get? key).bind fun entry =>
      if IsLast env s entry then transcriptOf env entry else none

@[simp] theorem stepPath_file (s : SweepState δ) (path : String) :
    stepPath env active s (.file path) = some path := rfl

theorem stepPath_entry (hactive : isActive env active key = false) (hget : s.store.get? key = some entry) :
    stepPath env active s (.entry key) =
      if IsLast env s entry then transcriptOf env entry else none := by
  simp [stepPath, hactive, hget]

/-- What a change does to the files, to the total and to the log, that removes one file or none. -/
structure Removes (env : BudgetEnv δ) (dir : SessionsDir) (storePath : String) (s t : SweepState δ)
    (removed : Option String) : Prop where
  disk : ∀ path, t.disk path = if removed = some path then none else s.disk path
  shortfall_eq : shortfall env dir storePath t =
    shortfall env dir storePath s + removed.elim 0 (missedBytes dir storePath s.disk)
  log : t.fileRemovals.map (·.path) = s.fileRemovals.map (·.path) ++ removed.toList

theorem removes_none {t : SweepState δ} (hdisk : t.disk = s.disk)
    (hshort : shortfall env dir storePath t = shortfall env dir storePath s)
    (hlog : t.fileRemovals = s.fileRemovals) : Removes env dir storePath s t none where
  disk path := by simp [hdisk]
  shortfall_eq := by simp [hshort]
  log := by simp [hlog]

theorem removes_removeFile (path : String) :
    Removes env dir storePath s (removeFile dir false path s) (some path) where
  disk path' := by
    rw [disk_removeFile]
    simp [eq_comm]
  shortfall_eq := shortfall_removeFile path s
  log := by simp [fileRemovals_removeFile]

/-- An entry that goes takes no file with it by itself. -/
theorem removes_countDown (hkept : Kept env s) (hget : s.store.get? key = some entry) :
    Removes env dir storePath s (countDown env key entry s) none := by
  obtain ⟨counts, heq⟩ := countDown_cases env key entry s
  exact removes_none (by rw [heq]; rfl) (shortfall_countDown hkept hget) (by rw [heq]; rfl)

theorem Removes.removeFile {t : SweepState δ} (h : Removes env dir storePath s t none) (path : String) :
    Removes env dir storePath s (removeFile dir false path t) (some path) := by
  have hfile : Removes env dir storePath t (DiskBudget.removeFile dir false path t) (some path) :=
    removes_removeFile path
  have hdisk : t.disk = s.disk := funext fun path' => by simpa using h.disk path'
  refine ⟨fun path' => ?_, ?_, ?_⟩
  · rw [hfile.disk, hdisk]
  · rw [hfile.shortfall_eq, h.shortfall_eq, hdisk]
    simp
  · rw [hfile.log, h.log]
    simp

/-- What a step does to the files, to the total and to the log. -/
theorem applyStep_real (dir : SessionsDir) (storePath : String) (hkept : Kept env s) (x : Step) :
    Removes env dir storePath s (applyStep env dir false active s x) (stepPath env active s x) := by
  cases x with
  | file path => exact removes_removeFile path
  | entry key =>
    change Removes env dir storePath s (removeEntry env dir false active s key) _
    cases hactive : isActive env active key with
    | true =>
      rw [removeEntry_of_active hactive, stepPath, if_pos hactive]
      exact removes_none rfl rfl rfl
    | false =>
      cases hget : s.store.get? key with
      | none =>
        have hnone : stepPath env active s (.entry key) = none := by simp [stepPath, hget]
        rw [removeEntry_of_absent hget, hnone]
        exact removes_none rfl rfl rfl
      | some entry =>
        have hcount : Removes env dir storePath s (countDown env key entry s) none :=
          removes_countDown hkept hget
        rw [stepPath_entry hactive hget]
        obtain ⟨hnot, heq⟩ | ⟨hlast, path, hpath, heq⟩ := removeEntry_eq dir false hkept hactive hget
        · have hnone : (if IsLast env s entry then transcriptOf env entry else none) = none := by
            obtain hnot | hnot := hnot
            · exact if_neg hnot
            · rw [hnot, ite_self]
          rw [hnone, heq]
          exact hcount
        · rw [if_pos hlast, hpath, heq]
          exact hcount.removeFile path

theorem disk_applyStep (hkept : Kept env s) (x : Step) (path : String) :
    (applyStep env dir false active s x).disk path =
      if stepPath env active s x = some path then none else s.disk path :=
  (applyStep_real dir path hkept x).disk path

/-- The total is right after a step when all bytes of the file it removes are counted. -/
theorem accounted_applyStep (hkept : Kept env s) (h : Accounted env dir storePath s)
    (x : Step) : Accounted env dir storePath (applyStep env dir false active s x) ↔
      ∀ path, stepPath env active s x = some path →
        countedBytes dir storePath s.disk path = (s.disk path).getD 0 := by
  rw [accounted_iff] at h ⊢
  rw [(applyStep_real dir storePath hkept x).shortfall_eq, h]
  cases stepPath env active s x with
  | none => simp
  | some path =>
    simp only [elim_some, missedBytes, some.injEq, forall_eq']
    omega

/-! ### Prefixes of the plan -/

theorem onDisk_exec (hkept : Kept env s) (h : OnDisk dir s) (steps : List Step) :
    OnDisk dir (exec env dir false active steps s) := by
  induction steps generalizing s with
  | nil => exact h
  | cons x rest ih =>
    refine ih (kept_applyStep hkept x) ?_
    intro path
    rw [disk_applyStep hkept x]
    split
    · exact .inr rfl
    · exact h path

/-- A file that is gone after some steps was removed by one of them, and was there till then. -/
theorem removed_by (hkept : Kept env s) (steps : List Step)
    (hnone : (exec env dir false active steps s).disk path = none) (hsome : (s.disk path).isSome) :
    ∃ before x after, steps = before ++ x :: after ∧
      stepPath env active (exec env dir false active before s) x = some path ∧
      (exec env dir false active before s).disk path = s.disk path := by
  induction steps generalizing s with
  | nil =>
    rw [exec_nil] at hnone
    simp [hnone] at hsome
  | cons x rest ih =>
    by_cases hx : stepPath env active s x = some path
    · exact ⟨[], x, rest, rfl, hx, rfl⟩
    · have hdisk : (applyStep env dir false active s x).disk path = s.disk path := by
        rw [disk_applyStep hkept x, if_neg hx]
      obtain ⟨before, y, after, rfl, hy, hthere⟩ := ih (kept_applyStep hkept x) hnone (hdisk ▸ hsome)
      exact ⟨x :: before, y, after, rfl, hy, hthere.trans hdisk⟩

theorem keysByAge_nodup (store : Store δ) : (keysByAge store).Nodup := by
  have hperm := (perm_insertionSort
    (fun a b : String × SessionEntry δ => getEntryUpdatedAt a.2 ≤ getEntryUpdatedAt b.2) store.entries).map
    Prod.fst
  exact hperm.nodup_iff.mpr store.nodup_keys

theorem mem_keysByAge {store : Store δ} : key ∈ keysByAge store ↔ ∃ entry, store.get? key = some entry := by
  have hperm := (perm_insertionSort
    (fun a b : String × SessionEntry δ => getEntryUpdatedAt a.2 ≤ getEntryUpdatedAt b.2) store.entries).map
    Prod.fst
  rw [keysByAge, hperm.mem_iff, ← JsMap.has_iff, ← JsMap.mem_keys_iff, JsMap.keys]

/-! ### Entries -/

/-- No other entry has the session, but those in `before`, which are not active. -/
def LastOfSession (env : BudgetEnv δ) (store : Store δ) (active : Option String)
    (before : List String) (key : String) (entry : SessionEntry δ) : Prop :=
  env.sessionId entry.payload ≠ "" ∧ ∀ key' entry', store.get? key' = some entry' →
    env.sessionId entry'.payload = env.sessionId entry.payload →
      key' = key ∨ key' ∈ before ∧ isActive env active key' = false

/-- The state of a real run after some steps. -/
def realRun (env : BudgetEnv δ) (dir : SessionsDir) (storePath : String) (store : Store δ)
    (active : Option String) (steps : List Step) : SweepState δ :=
  exec env dir false active steps (startState env dir storePath store)

variable (steps : List Step)

theorem realRun_concat (x : Step) :
    realRun env dir storePath store active (steps ++ [x]) =
      applyStep env dir false active (realRun env dir storePath store active steps) x :=
  exec_concat steps x _

theorem onDisk_start : OnDisk dir (startState env dir storePath store) := by
  intro path
  exact .inl rfl

theorem get?_realRun (key : String) :
    (realRun env dir storePath store active steps).store.get? key =
      if .entry key ∈ steps ∧ isActive env active key = false then none else store.get? key :=
  get?_exec Kept.start steps key

theorem removals_realRun_sublist :
    ((realRun env dir storePath store active steps).removals.map fun removed =>
      Step.entry removed.key).Sublist steps := removals_sublist Kept.start steps

theorem removed_realRun {steps : List Step}
    (hnone : (realRun env dir storePath store active steps).disk path = none)
    (hsome : (dir.disk path).isSome) : ∃ before x after, steps = before ++ x :: after ∧
      stepPath env active (realRun env dir storePath store active before) x = some path ∧
      (realRun env dir storePath store active before).disk path = dir.disk path :=
  removed_by Kept.start steps hnone hsome

theorem kept_realRun : Kept env (realRun env dir storePath store active steps) :=
  kept_exec Kept.start steps

theorem onDisk_realRun : OnDisk dir (realRun env dir storePath store active steps) :=
  onDisk_exec Kept.start onDisk_start steps

theorem keysByAge_split {older younger : List String} (hkeys : keysByAge store = older ++ key :: younger) :
    key ∉ older ∧ key ∉ younger ∧ ∀ key' ∈ older, key' ∉ younger := by
  have hnodup := keysByAge_nodup store
  rw [hkeys, nodup_append] at hnodup
  refine ⟨?_, (nodup_cons.mp hnodup.2.1).1, ?_⟩
  · intro hmem
    exact hnodup.2.2 key hmem key mem_cons_self rfl
  · intro key' hmem hmem'
    exact hnodup.2.2 key' hmem key' (mem_cons_of_mem _ hmem') rfl

/-- The state when all files have been removed, and the entries of some keys. -/
def afterKeys (env : BudgetEnv δ) (dir : SessionsDir) (storePath : String) (store : Store δ)
    (active : Option String) (keys : List String) : SweepState δ :=
  realRun env dir storePath store active (filePlan env dir store ++ keys.map .entry)

theorem entry_mem_filePlan_append {keys : List String} :
    Step.entry key ∈ filePlan env dir store ++ keys.map .entry ↔ key ∈ keys := by
  simp [filePlan]

theorem get?_afterKeys (keys : List String) (key : String) :
    (afterKeys env dir storePath store active keys).store.get? key =
      if key ∈ keys ∧ isActive env active key = false then none else store.get? key := by
  unfold afterKeys
  simp only [get?_realRun, entry_mem_filePlan_append]

variable {older : List String}

/-- When the turn of an entry comes, its reference is the last one as `LastOfSession` says. -/
theorem isLast_afterKeys (hold : key ∉ older) (hget : store.get? key = some entry) :
    IsLast env (afterKeys env dir storePath store active older) entry ↔
      LastOfSession env store active older key entry := by
  have hget' : (afterKeys env dir storePath store active older).store.get? key = some entry := by
    rw [get?_afterKeys, if_neg (fun h => hold h.1), hget]
  have hdelete := refCount_delete env hget' (env.sessionId entry.payload)
  rw [if_pos rfl] at hdelete
  refine and_congr_right fun _ => ?_
  have hone : refCount env (afterKeys env dir storePath store active older).store
      (env.sessionId entry.payload) = 1 ↔
      refCount env ((afterKeys env dir storePath store active older).store.delete key)
        (env.sessionId entry.payload) = 0 := by omega
  rw [hone, refCount_eq_zero]
  refine forall₂_congr fun key' entry' => ?_
  rw [JsMap.get?_delete, get?_afterKeys]
  by_cases hkey : key = key'
  · simp [hkey]
  · by_cases hgone : key' ∈ older ∧ isActive env active key' = false
    · simp [hgone]
    · simp only [hkey, hgone, ↓reduceIte, Ne.symm hkey, false_or]

/-- A step of the plan is one for a file, or one for an entry after all files. -/
theorem plan_split {pre post : List Step} {x : Step} (h : plan env dir store = pre ++ x :: post) :
    (∃ before file after, removableFileQueue env dir store = before ++ file :: after ∧
      x = .file file.canonicalPath ∧ pre = before.map (fun file => Step.file file.canonicalPath) ∧
      post = after.map (fun file => Step.file file.canonicalPath) ++ entryPlan store) ∨
    ∃ older key younger, keysByAge store = older ++ key :: younger ∧ x = .entry key ∧
      pre = filePlan env dir store ++ older.map .entry ∧ post = younger.map .entry := by
  have hentries {mid : List Step} (hpre : pre = filePlan env dir store ++ mid)
      (hrest : entryPlan store = mid ++ x :: post) :
      ∃ older key younger, keysByAge store = older ++ key :: younger ∧ x = .entry key ∧
        pre = filePlan env dir store ++ older.map .entry ∧ post = younger.map .entry := by
    obtain ⟨older, rest, hkeys, rfl, hmap⟩ := map_eq_append_iff.mp hrest
    obtain ⟨key, younger, rfl, rfl, rfl⟩ := map_eq_cons_iff.mp hmap
    exact ⟨older, key, younger, hkeys, rfl, hpre, rfl⟩
  obtain ⟨mid, hpre, hrest⟩ | ⟨mid, hfiles, hrest⟩ := append_eq_append_iff.mp h
  · exact .inr (hentries hpre hrest)
  · cases mid with
    | nil => exact .inr (@hentries [] (by simpa using hfiles.symm) (by simpa using hrest.symm))
    | cons y mid =>
      obtain ⟨rfl, hpost⟩ := List.cons.inj hrest
      obtain ⟨before, rest, hqueue, hbefore, hmap⟩ := map_eq_append_iff.mp hfiles
      obtain ⟨file, after, rfl, rfl, rfl⟩ := map_eq_cons_iff.mp hmap
      exact .inl ⟨before, file, after, hqueue, rfl, hbefore.symm, hpost⟩

/-! ### What is left after steps of the plan -/

instance (before : List String) (key : String) (entry : SessionEntry δ) :
    Decidable (LastOfSession env store active before key entry) :=
  decidable_of_iff (env.sessionId entry.payload ≠ "" ∧ ∀ e ∈ store.entries,
      env.sessionId e.2.payload = env.sessionId entry.payload →
        e.1 = key ∨ e.1 ∈ before ∧ isActive env active e.1 = false)
    (by simp [LastOfSession, ← JsMap.mem_entries_iff])

/-- The keys before the key in the order of age. -/
def olderThan (store : Store δ) (key : String) : List String := (keysByAge store).takeWhile (· ≠ key)

/-- The file that goes with a step of the plan: the file, or with the last entry of a session its
transcript. -/
def stepFile (env : BudgetEnv δ) (store : Store δ) (active : Option String) : Step → Option String
  | .file path => some path
  | .entry key =>
    if isActive env active key then none
    else (store.get? key).bind fun entry =>
      if LastOfSession env store active (olderThan store key) key entry then transcriptOf env entry
      else none

/-- The entry that goes with a step of the plan. -/
def stepKey (env : BudgetEnv δ) (active : Option String) : Step → Option String
  | .file _ => none
  | .entry key => if isActive env active key then none else some key

/-- The store without the entries that go with some steps. -/
def storeLeft (env : BudgetEnv δ) (store : Store δ) (active : Option String) (steps : List Step) :
    Store δ :=
  store.deleteAll (steps.filterMap (stepKey env active))

/-- The files without those that go with some steps. -/
def diskLeft (env : BudgetEnv δ) (dir : SessionsDir) (store : Store δ) (active : Option String)
    (steps : List Step) (path : String) : Option ℕ :=
  if path ∈ steps.filterMap (stepFile env store active) then none else dir.disk path

/-- The size of the files and of the store that are left. -/
def bytesLeft (env : BudgetEnv δ) (dir : SessionsDir) (storePath : String) (store : Store δ)
    (active : Option String) (steps : List Step) : ℕ :=
  remainingBytes dir storePath (diskLeft env dir store active steps) +
    measureStoreBytes env (storeLeft env store active steps)

variable {pre post : List Step} {x : Step}

theorem stepPath_eq_stepFile (hplan : plan env dir store = pre ++ x :: post) :
    stepPath env active (realRun env dir storePath store active pre) x = stepFile env store active x := by
  obtain ⟨before, file, after, -, rfl, -, -⟩ | ⟨older, key, younger, hkeys, rfl, rfl, -⟩ :=
    plan_split hplan
  · rfl
  · obtain ⟨hold, -⟩ := keysByAge_split hkeys
    have holder : olderThan store key = older := by
      rw [olderThan, hkeys, takeWhile_append_of_pos, takeWhile_cons_of_neg (by simp), append_nil]
      intro other hother
      have hne : other ≠ key := fun heq => hold (heq ▸ hother)
      simpa using hne
    have hget : (afterKeys env dir storePath store active older).store.get? key = store.get? key := by
      rw [get?_afterKeys, if_neg (fun h => hold h.1)]
    change stepPath env active (afterKeys env dir storePath store active older) _ = _
    unfold stepPath stepFile
    dsimp only
    rw [hget, holder]
    cases hentry : store.get? key with
    | none => rfl
    | some entry => simp only [bind_some, isLast_afterKeys hold hentry]

theorem disk_realRun (pre : List Step) : ∀ post, plan env dir store = pre ++ post →
    (realRun env dir storePath store active pre).disk = diskLeft env dir store active pre := by
  induction pre using List.reverseRecOn with
  | nil =>
    intro post hplan
    rfl
  | append_singleton pre x ih =>
    intro post hplan
    rw [append_assoc] at hplan
    funext path
    rw [realRun_concat, disk_applyStep (kept_realRun pre), stepPath_eq_stepFile hplan,
      ih (x :: post) hplan]
    unfold diskLeft
    simp only [filterMap_append, mem_append]
    by_cases hx : stepFile env store active x = some path
    · rw [if_pos hx, if_pos (.inr (by simp [hx]))]
    · have hnot : path ∉ [x].filterMap (stepFile env store active) := by simpa using hx
      simp only [if_neg hx, hnot, or_false]

/-- The log of a run. -/
theorem paths_realRun (pre : List Step) : ∀ post, plan env dir store = pre ++ post →
    (realRun env dir storePath store active pre).fileRemovals.map (·.path) =
      pre.filterMap (stepFile env store active) := by
  induction pre using List.reverseRecOn with
  | nil =>
    intro post hplan
    rfl
  | append_singleton pre x ih =>
    intro post hplan
    rw [append_assoc] at hplan
    rw [realRun_concat, (applyStep_real dir storePath (kept_realRun pre) x).log,
      stepPath_eq_stepFile hplan, ih (x :: post) hplan, filterMap_append]
    cases hx : stepFile env store active x <;> simp [hx]

theorem store_realRun (pre : List Step) :
    (realRun env dir storePath store active pre).store = storeLeft env store active pre := by
  induction pre using List.reverseRecOn with
  | nil => rfl
  | append_singleton pre x ih =>
    have hconcat : storeLeft env store active (pre ++ [x]) =
        (storeLeft env store active pre).deleteAll ([x].filterMap (stepKey env active)) := by
      simp only [storeLeft, JsMap.deleteAll, filterMap_append, foldl_append]
    rw [realRun_concat, hconcat, ← ih]
    have hkept : Kept env (realRun env dir storePath store active pre) := kept_realRun pre
    obtain ⟨hsame, -, hnone⟩ | ⟨key, entry, rfl, hactive, -, -, hsame⟩ := applyStep_cases dir false hkept x
    · rw [hsame.store]
      cases x with
      | file path => rfl
      | entry key =>
        cases hactive : isActive env active key with
        | true => simp [stepKey, hactive, JsMap.deleteAll]
        | false =>
          have hdelete := JsMap.delete_of_absent (hnone key rfl hactive)
          simp [stepKey, hactive, JsMap.deleteAll, hdelete]
    · obtain ⟨counts, hcount⟩ := countDown_cases env key entry
        (realRun env dir storePath store active pre)
      rw [hsame.store, hcount]
      simp [stepKey, hactive, JsMap.deleteAll, dropEntry]

/-- After steps of the plan the total is right when it is the size of what is left. -/
theorem accounted_realRun_iff (hplan : plan env dir store = pre ++ post) :
    Accounted env dir storePath (realRun env dir storePath store active pre) ↔
      (realRun env dir storePath store active pre).total =
        bytesLeft env dir storePath store active pre := by
  unfold Accounted bytesLeft
  rw [disk_realRun pre post hplan, store_realRun]
  push_cast
  rfl

/-- The more steps, the less is left. -/
theorem bytesLeft_append_le (pre post : List Step) :
    bytesLeft env dir storePath store active (pre ++ post) ≤
      bytesLeft env dir storePath store active pre := by
  refine Nat.add_le_add ?_ ?_
  · refine List.Sublist.sum_le_sum (List.Sublist.map _ (monotone_filter_right _ ?_)) (by simp)
    intro file hfile
    simp only [ne_eq, decide_not, Bool.and_eq_true, Bool.not_eq_eq_eq_not, Bool.not_true,
      decide_eq_false_iff_not] at hfile ⊢
    refine ⟨hfile.1, ?_⟩
    have hthere := hfile.2
    unfold diskLeft at hthere ⊢
    simp only [filterMap_append, mem_append] at hthere
    split at hthere
    · cases hthere
    · rename_i hnot
      rwa [if_neg (fun hin => hnot (.inl hin))]
  · have hdeletes (keys : List String) (m : Store δ) :
        measureStoreBytes env (m.deleteAll keys) ≤ measureStoreBytes env m := by
      induction keys generalizing m with
      | nil => exact le_rfl
      | cons key keys ih =>
        refine (ih (m.delete key)).trans ?_
        rw [measureStoreBytes_eq, measureStoreBytes_eq]
        exact Nat.add_le_add_left (List.Sublist.sum_le_sum (filter_sublist.map _) (by simp)) 2
    unfold storeLeft
    rw [filterMap_append]
    simp only [JsMap.deleteAll, foldl_append]
    exact hdeletes _ _

end Foxclaw.Config.DiskBudget
