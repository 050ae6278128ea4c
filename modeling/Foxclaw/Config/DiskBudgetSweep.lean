import Foxclaw.Config.DiskBudget

/-!
# What the sweep does

The two loops of `enforceSessionDiskBudget` are one sweep over a plan: the removable files, and then
the keys by age (`sweep_eq`). Here is what a prefix of the plan does.
-/

namespace Foxclaw.Config.DiskBudget

open Foxclaw.Config.SessionStore (SessionEntry Store)
open JsMap List Foxclaw.Sweep

variable {δ : Type} {env : BudgetEnv δ} {dir : SessionsDir} {dryRun : Bool} {active : Option String}

/-! ### The size of the store -/

@[simp] theorem byteLength_append (cs ds : List Char) :
    byteLength (cs ++ ds) = byteLength cs + byteLength ds := by
  simp [byteLength]

/-- The chunk of an entry is its lines. -/
theorem measureStoreEntryChunkBytes_eq (key : String) (entry : SessionEntry δ) :
    measureStoreEntryChunkBytes env key entry = byteLength (env.lines key entry) := by
  have hsingle : stringify env [(key, entry)] =
      ['{', '\n'] ++ env.lines key entry ++ ['\n', '}'] := by
    simp [stringify]
  have hlength : (stringify env [(key, entry)]).length - 4 = (env.lines key entry).length := by
    rw [hsingle]
    simp
  have hstarts : ['{', '\n'].isPrefixOf (stringify env [(key, entry)]) = true := by
    rw [hsingle]
    simp [List.isPrefixOf]
  have hsuffix : ['\n', '}'].isSuffixOf (stringify env [(key, entry)]) = true := by
    rw [hsingle, isSuffixOf_iff_suffix]
    exact suffix_append _ _
  unfold measureStoreEntryChunkBytes
  simp only [hstarts, hsuffix, hlength, Bool.not_true, Bool.or_self, Bool.false_eq_true, ↓reduceIte]
  rw [hsingle]
  simp

theorem byteLength_intercalate (chunks : List (List Char)) (hne : chunks ≠ []) :
    byteLength ([',', '\n'].intercalate chunks) + 2 = (chunks.map fun c => byteLength c + 2).sum := by
  induction chunks with
  | nil => exact absurd rfl hne
  | cons c rest ih =>
    cases rest with
    | nil => simp
    | cons c' rest =>
      have hrest := ih (by simp)
      have hsep : byteLength [',', '\n'] = 2 := by decide
      rw [intercalate_cons_cons, byteLength_append, byteLength_append, hsep, map_cons, sum_cons, ← hrest]
      omega

/-- The size of a store is that of the lines of its entries, two bytes for each and two for the
brackets. -/
theorem measureStoreBytes_eq (store : Store δ) : measureStoreBytes env store =
    2 + (store.entries.map fun e => byteLength (env.lines e.1 e.2) + 2).sum := by
  unfold measureStoreBytes stringify
  by_cases h : store.entries = []
  · have hbrackets : byteLength ['{', '}'] = 2 := by decide
    rw [if_pos h, h, hbrackets]
    rfl
  · have hne : store.entries.map (fun e => env.lines e.1 e.2) ≠ [] := by simpa using h
    have hlines := byteLength_intercalate _ hne
    rw [List.map_map] at hlines
    have hopen : byteLength ['{', '\n'] = 2 := by decide
    have hclose : byteLength ['\n', '}'] = 2 := by decide
    rw [if_neg h, byteLength_append, byteLength_append, hopen, hclose]
    simp only [Function.comp_def] at hlines
    omega

variable {entry : SessionEntry δ} {key : String}

theorem sum_filter_ne {entries : List (String × SessionEntry δ)} (hnodup : (entries.map Prod.fst).Nodup)
    (f : String × SessionEntry δ → ℕ) (hmem : (key, entry) ∈ entries) :
    ((entries.filter fun e => e.1 ≠ key).map f).sum + f (key, entry) = (entries.map f).sum := by
  induction entries with
  | nil => cases hmem
  | cons e rest ih =>
    rw [map_cons, nodup_cons] at hnodup
    rcases mem_cons.mp hmem with heq | hmem
    · subst heq
      have hall : rest.filter (fun e => e.1 ≠ key) = rest := by
        refine filter_eq_self.mpr ?_
        intro e he
        have hne : e.1 ≠ key := by
          intro h
          have hin := List.mem_map_of_mem (f := Prod.fst) he
          rw [h] at hin
          exact hnodup.1 hin
        simpa using hne
      rw [filter_cons_of_neg (by simp), hall, map_cons, sum_cons, Nat.add_comm]
    · have hne : e.1 ≠ key := by
        intro h
        exact hnodup.1 (h ▸ List.mem_map_of_mem (f := Prod.fst) hmem)
      rw [filter_cons_of_pos (by simpa using hne), map_cons, map_cons, sum_cons,
        sum_cons, ← ih hnodup.2 hmem]
      omega

variable {store : Store δ}

/-- An entry takes its chunk and two bytes. -/
theorem measureStoreBytes_delete (env : BudgetEnv δ)
    (h : store.get? key = some entry) : (measureStoreBytes env (store.delete key) : ℤ) =
      measureStoreBytes env store - (measureStoreEntryChunkBytes env key entry + 2) := by
  have hsum := sum_filter_ne store.nodup_keys (fun e => byteLength (env.lines e.1 e.2) + 2)
    (mem_entries_iff.mpr h)
  rw [measureStoreEntryChunkBytes_eq, measureStoreBytes_eq, measureStoreBytes_eq]
  simp only [JsMap.delete] at *
  omega

theorem two_le_measureStoreBytes (store : Store δ) : 2 ≤ measureStoreBytes env store := by
  rw [measureStoreBytes_eq]
  exact Nat.le_add_right 2 _

/-! ### The plan -/

/-- A step of the sweep. -/
inductive Step where
  | file (path : String)
  /-- The entry under a key is removed, with its transcript. -/
  | entry (key : String)
  deriving DecidableEq

/-- What a step does. -/
def applyStep (env : BudgetEnv δ) (dir : SessionsDir) (dryRun : Bool) (active : Option String)
    (s : SweepState δ) : Step → SweepState δ
  | .file path => removeFile dir dryRun path s
  | .entry key => removeEntry env dir dryRun active s key

/-- The steps that remove files. -/
def filePlan (env : BudgetEnv δ) (dir : SessionsDir) (store : Store δ) : List Step :=
  (removableFileQueue env dir store).map fun file => .file file.canonicalPath

/-- The steps that remove entries. -/
def entryPlan (store : Store δ) : List Step := (keysByAge store).map .entry

/-- The steps of a sweep. -/
def plan (env : BudgetEnv δ) (dir : SessionsDir) (store : Store δ) : List Step :=
  filePlan env dir store ++ entryPlan store

/-- Steps are taken. -/
def exec (env : BudgetEnv δ) (dir : SessionsDir) (dryRun : Bool) (active : Option String)
    (steps : List Step) (s : SweepState δ) : SweepState δ :=
  steps.foldl (applyStep env dir dryRun active) s

@[simp] theorem exec_nil (s : SweepState δ) : exec env dir dryRun active [] s = s := rfl

@[simp] theorem exec_concat (steps : List Step) (x : Step) (s : SweepState δ) :
    exec env dir dryRun active (steps ++ [x]) s =
      applyStep env dir dryRun active (exec env dir dryRun active steps s) x := by
  simp [exec, foldl_append]

/-- What removing a file leaves as it is. -/
structure SameStore (s t : SweepState δ) : Prop where
  store : t.store = s.store
  projectedStoreBytes : t.projectedStoreBytes = s.projectedStoreBytes
  removals : t.removals = s.removals
  removedEntries : t.removedEntries = s.removedEntries
  sessionIdRefCounts : t.sessionIdRefCounts = s.sessionIdRefCounts

theorem SameStore.trans {s t u : SweepState δ} (h : SameStore s t) (h' : SameStore t u) : SameStore s u :=
  ⟨h'.store.trans h.store, h'.projectedStoreBytes.trans h.projectedStoreBytes,
    h'.removals.trans h.removals, h'.removedEntries.trans h.removedEntries,
    h'.sessionIdRefCounts.trans h.sessionIdRefCounts⟩

theorem SameStore.symm {s t : SweepState δ} (h : SameStore s t) : SameStore t s :=
  ⟨h.store.symm, h.projectedStoreBytes.symm, h.removals.symm, h.removedEntries.symm,
    h.sessionIdRefCounts.symm⟩

theorem removeFileForBudget_sameStore (dir : SessionsDir) (dryRun : Bool) (path : String) (s : SweepState δ) :
    SameStore s (removeFileForBudget dir dryRun path s).1 ∧
      (removeFileForBudget dir dryRun path s).1.total = s.total ∧
      (removeFileForBudget dir dryRun path s).1.fileRemovals = s.fileRemovals := by
  unfold removeFileForBudget
  dsimp only
  split
  · split
    · exact ⟨⟨rfl, rfl, rfl, rfl, rfl⟩, rfl, rfl⟩
    · split <;> exact ⟨⟨rfl, rfl, rfl, rfl, rfl⟩, rfl, rfl⟩
  · split <;> exact ⟨⟨rfl, rfl, rfl, rfl, rfl⟩, rfl, rfl⟩

theorem removeFile_sameStore (path : String) (s : SweepState δ) :
    SameStore s (removeFile dir dryRun path s) := by
  have h := (removeFileForBudget_sameStore dir dryRun path s).1
  unfold removeFile
  dsimp only
  split
  · exact h.trans ⟨rfl, rfl, rfl, rfl, rfl⟩
  · exact h.trans ⟨rfl, rfl, rfl, rfl, rfl⟩

theorem total_removeFile (path : String) (s : SweepState δ) : (removeFile dir dryRun path s).total =
    s.total - (removeFileForBudget dir dryRun path s).2 := by
  have h := (removeFileForBudget_sameStore dir dryRun path s).2.1
  unfold removeFile
  dsimp only
  split
  · rename_i hzero
    dsimp only
    rw [h]
    omega
  · rw [h]

theorem fileRemovals_removeFile (path : String) (s : SweepState δ) :
    (removeFile dir dryRun path s).fileRemovals = s.fileRemovals ++ [⟨path, s.total⟩] := by
  obtain ⟨-, htotal, hlog⟩ := removeFileForBudget_sameStore dir dryRun path s
  unfold removeFile
  dsimp only
  rw [htotal, hlog]
  split <;> rfl

theorem exec_files_sameStore (env : BudgetEnv δ) (active : Option String) (paths : List String) (s : SweepState δ) :
    SameStore s (exec env dir dryRun active (paths.map .file) s) := by
  induction paths generalizing s with
  | nil => exact ⟨rfl, rfl, rfl, rfl, rfl⟩
  | cons path paths ih =>
    exact (removeFile_sameStore path s).trans (ih (removeFile dir dryRun path s))

/-- The loops are a sweep over the plan. -/
theorem sweep_eq (env : BudgetEnv δ) (dir : SessionsDir) (dryRun : Bool) (active : Option String)
    (storePath : String) (store : Store δ) (highWaterBytes : ℤ) :
    (let s := sweepFiles env dir dryRun highWaterBytes (startState env dir storePath store)
      if s.total > highWaterBytes then sweepEntries env dir dryRun active highWaterBytes s else s) =
    sweepTo (applyStep env dir dryRun active) (·.total) highWaterBytes (plan env dir store)
      (startState env dir storePath store) := by
  have hfiles : sweepFiles env dir dryRun highWaterBytes (startState env dir storePath store) =
      sweepTo (applyStep env dir dryRun active) (·.total) highWaterBytes (filePlan env dir store)
        (startState env dir storePath store) := by
    rw [filePlan, sweepTo_map]
    rfl
  have hstore : (sweepFiles env dir dryRun highWaterBytes (startState env dir storePath store)).store =
      store := by
    obtain ⟨pre, post, hplan, heq, -⟩ := sweepTo_eq_foldl
      (applyStep env dir dryRun active) (·.total) highWaterBytes (filePlan env dir store) (startState env dir storePath store)
    have hpre : ∃ paths : List String, pre = paths.map .file := by
      obtain ⟨files, rest, hlist, rfl, -⟩ := map_eq_append_iff.mp hplan
      exact ⟨files.map (·.canonicalPath), by simp⟩
    obtain ⟨paths, rfl⟩ := hpre
    rw [hfiles, heq]
    exact (exec_files_sameStore env active paths _).store
  rw [plan, sweepTo_append, ← hfiles]
  dsimp only
  split
  · rw [sweepEntries, hstore, entryPlan, sweepTo_map]
    rfl
  · rename_i hle
    exact (sweepTo_of_le _ (not_lt.mp hle)).symm

/-! ### References -/

theorem sum_eq_zero {ns : List ℕ} : ns.sum = 0 ↔ ∀ n ∈ ns, n = 0 := by
  induction ns with
  | nil => simp
  | cons n ns ih => simp [ih]

/-- How many entries have the session id. -/
def refCount (env : BudgetEnv δ) (store : Store δ) (id : String) : ℕ :=
  (store.entries.map fun e => if env.sessionId e.2.payload = id then 1 else 0).sum

theorem get?_foldl_refCounts (entries : List (String × SessionEntry δ)) (counts : JsMap String ℕ)
    {id : String} (hid : id ≠ "") :
    let n := (entries.map fun e => if env.sessionId e.2.payload = id then 1 else 0).sum
    ((entries.map Prod.snd).foldl (fun counts entry =>
      let sessionId := env.sessionId entry.payload
      if sessionId = "" then counts
      else counts.set sessionId ((counts.get? sessionId).getD 0 + 1)) counts).get? id =
      if n = 0 then counts.get? id else some ((counts.get? id).getD 0 + n) := by
  induction entries generalizing counts with
  | nil => simp
  | cons e rest ih =>
    dsimp only at ih ⊢
    rw [map_cons, foldl_cons, ih, map_cons, sum_cons]
    by_cases hempty : env.sessionId e.2.payload = ""
    · have hne : env.sessionId e.2.payload ≠ id := fun h => hid (h ▸ hempty)
      simp only [hempty, ↓reduceIte]
      rw [if_neg (Ne.symm hid), Nat.zero_add]
    · simp only [if_neg hempty, get?_set]
      by_cases heq : env.sessionId e.2.payload = id
      · simp only [heq, ↓reduceIte, Option.getD_some]
        split
        · rename_i hzero
          simp [hzero]
        · simp only [Nat.add_eq_zero_iff, one_ne_zero, false_and, ↓reduceIte]
          congr 1
          omega
      · simp [heq]

theorem get?_buildSessionIdRefCounts {id : String} (hid : id ≠ "")
    (hpos : 0 < refCount env store id) :
    (buildSessionIdRefCounts env store).get? id = some (refCount env store id) := by
  have h : (buildSessionIdRefCounts env store).get? id = if refCount env store id = 0 then none
      else some (0 + refCount env store id) := get?_foldl_refCounts store.entries .empty hid
  rw [h, if_neg (Nat.pos_iff_ne_zero.mp hpos), Nat.zero_add]

theorem refCount_delete (env : BudgetEnv δ) (h : store.get? key = some entry) (id : String) :
    refCount env (store.delete key) id + (if env.sessionId entry.payload = id then 1 else 0) =
      refCount env store id :=
  sum_filter_ne store.nodup_keys (fun e => if env.sessionId e.2.payload = id then 1 else 0)
    (mem_entries_iff.mpr h)

theorem refCount_eq_zero {id : String} :
    refCount env store id = 0 ↔ ∀ key entry, store.get? key = some entry →
      env.sessionId entry.payload ≠ id := by
  unfold refCount
  rw [sum_eq_zero]
  constructor
  · intro h key entry hget heq
    have hmem := h _ (List.mem_map_of_mem (mem_entries_iff.mpr hget))
    simp [heq] at hmem
  · intro h x hx
    obtain ⟨⟨key, entry⟩, hmem, rfl⟩ := List.mem_map.mp hx
    exact if_neg (h key entry (mem_entries_iff.mp hmem))

/-! ### Entries -/

/-- What holds in the state of a sweep, whatever it removes. -/
structure Kept (env : BudgetEnv δ) (s : SweepState δ) : Prop where
  /-- The size of the store is known. -/
  projected : s.projectedStoreBytes = measureStoreBytes env s.store
  counted : ∀ id, id ≠ "" → 0 < refCount env s.store id →
    s.sessionIdRefCounts.get? id = some (refCount env s.store id)

theorem Kept.start {storePath : String} {store : Store δ} :
    Kept env (startState env dir storePath store) where
  projected := rfl
  counted _ hid hpos := get?_buildSessionIdRefCounts hid hpos

theorem Kept.sameStore {s t : SweepState δ} (h : Kept env s) (hst : SameStore s t) : Kept env t where
  projected := by rw [hst.projectedStoreBytes, hst.store, h.projected]
  counted := by
    rw [hst.sessionIdRefCounts, hst.store]
    exact h.counted

theorem removeEntry_of_active (h : isActive env active key = true) (s : SweepState δ) :
    removeEntry env dir dryRun active s key = s := if_pos h

variable {s : SweepState δ}

theorem removeEntry_of_absent (h : s.store.get? key = none) :
    removeEntry env dir dryRun active s key = s := by
  unfold removeEntry
  rw [h]
  exact ite_self s

theorem removeEntry_of_get (hactive : isActive env active key = false) (h : s.store.get? key = some entry) :
    removeEntry env dir dryRun active s key =
      dropReference env dir dryRun entry (dropEntry env key entry s) := by
  unfold removeEntry
  rw [hactive, h]
  rfl

theorem Kept.max_projected (h : Kept env s) (hget : s.store.get? key = some entry) :
    max 2 (s.projectedStoreBytes - (measureStoreEntryChunkBytes env key entry + 2)) =
      measureStoreBytes env (s.store.delete key) := by
  have htwo : 2 ≤ measureStoreBytes env (s.store.delete key) := two_le_measureStoreBytes _
  rw [h.projected, ← measureStoreBytes_delete env hget]
  omega

/-- The entry has the last reference to its session. -/
def IsLast (env : BudgetEnv δ) (s : SweepState δ) (entry : SessionEntry δ) : Prop :=
  env.sessionId entry.payload ≠ "" ∧ refCount env s.store (env.sessionId entry.payload) = 1

/-- The state when an entry is taken out, and its reference counted. -/
def countDown (env : BudgetEnv δ) (key : String) (entry : SessionEntry δ) (s : SweepState δ) : SweepState δ :=
  let id := env.sessionId entry.payload
  let n := refCount env s.store id - 1
  let t := dropEntry env key entry s
  if id = "" then t
  else if n > 0 then { t with sessionIdRefCounts := t.sessionIdRefCounts.set id n }
  else { t with sessionIdRefCounts := t.sessionIdRefCounts.delete id }

/-- Counting changes nothing but the references. -/
theorem countDown_cases (env : BudgetEnv δ) (key : String) (entry : SessionEntry δ) (s : SweepState δ) :
    ∃ counts, countDown env key entry s =
      { dropEntry env key entry s with sessionIdRefCounts := counts } := by
  unfold countDown
  dsimp only
  split
  · exact ⟨s.sessionIdRefCounts, rfl⟩
  · split <;> exact ⟨_, rfl⟩

theorem refCount_pos (env : BudgetEnv δ)
    (h : store.get? key = some entry) : 0 < refCount env store (env.sessionId entry.payload) := by
  have hdelete := refCount_delete env h (env.sessionId entry.payload)
  rw [if_pos rfl] at hdelete
  omega

theorem kept_countDown (h : Kept env s)
    (hget : s.store.get? key = some entry) : Kept env (countDown env key entry s) := by
  have hstore : (countDown env key entry s).store = s.store.delete key := by
    obtain ⟨counts, heq⟩ := countDown_cases env key entry s
    rw [heq]
    rfl
  constructor
  · obtain ⟨counts, heq⟩ := countDown_cases env key entry s
    rw [heq]
    exact h.max_projected hget
  · intro id hid hpos
    have hdelete := refCount_delete env hget id
    rw [hstore] at hpos ⊢
    have hcounted := h.counted id hid (by omega)
    unfold countDown
    dsimp only
    by_cases heq : env.sessionId entry.payload = id
    · rw [if_pos heq] at hdelete
      have hn : refCount env s.store id - 1 = refCount env (s.store.delete key) id := by omega
      rw [heq, if_neg hid, hn, if_pos hpos]
      exact get?_set_self _ _ _
    · rw [if_neg heq, Nat.add_zero] at hdelete
      rw [hdelete, ← hcounted]
      split
      · rfl
      · split
        · exact (get?_set _ _ _ _).trans (if_neg heq)
        · exact (get?_delete _ _ _).trans (if_neg heq)

/-- An entry is taken out, and with the last reference to its session its transcript. -/
theorem removeEntry_eq (dir : SessionsDir) (dryRun : Bool) (h : Kept env s)
    (hactive : isActive env active key = false) (hget : s.store.get? key = some entry) :
    (¬ IsLast env s entry ∨ transcriptOf env entry = none) ∧
      removeEntry env dir dryRun active s key = countDown env key entry s ∨
    IsLast env s entry ∧ ∃ path, transcriptOf env entry = some path ∧
      removeEntry env dir dryRun active s key =
        removeFile dir dryRun path (countDown env key entry s) := by
  have hpos := refCount_pos env hget
  rw [removeEntry_of_get hactive hget]
  unfold dropReference DiskBudget.countDown IsLast
  dsimp only
  by_cases hid : env.sessionId entry.payload = ""
  · exact .inl ⟨.inl fun h => h.1 hid, by rw [if_pos hid, if_pos hid]⟩
  · have hcount : ((dropEntry env key entry s).sessionIdRefCounts.get?
        (env.sessionId entry.payload)).getD 1 = refCount env s.store (env.sessionId entry.payload) := by
      exact congrArg (·.getD 1) (h.counted _ hid hpos)
    rw [if_neg hid, if_neg hid, hcount]
    by_cases hn : refCount env s.store (env.sessionId entry.payload) - 1 > 0
    · rw [if_pos hn, if_pos hn]
      exact .inl ⟨.inl fun h => by omega, rfl⟩
    · rw [if_neg hn, if_neg hn]
      have hlast : env.sessionId entry.payload ≠ "" ∧
          refCount env s.store (env.sessionId entry.payload) = 1 := ⟨hid, by omega⟩
      unfold resolveSessionTranscriptPathForEntry
      rw [if_neg hid]
      cases htranscript : transcriptOf env entry with
      | none => exact .inl ⟨.inr rfl, rfl⟩
      | some path => exact .inr ⟨hlast, path, rfl, rfl⟩

/-! ### What a step keeps -/

/-- The entry that a step removes. -/
def stepLog (env : BudgetEnv δ) (active : Option String) (s : SweepState δ) :
    Step → List (RemovedEntry δ)
  | .file _ => []
  | .entry key =>
    if isActive env active key then []
    else match s.store.get? key with
      | none => []
      | some entry => [⟨key, entry, s.total⟩]

/-- A step leaves the store as it is, or takes one entry out of it; whether it removes a file does not matter. -/
theorem applyStep_cases (dir : SessionsDir) (dryRun : Bool) (h : Kept env s) (x : Step) :
    (SameStore s (applyStep env dir dryRun active s x) ∧ stepLog env active s x = [] ∧
      ∀ key, x = .entry key → isActive env active key = false → s.store.get? key = none) ∨
    ∃ key entry, x = .entry key ∧ isActive env active key = false ∧ s.store.get? key = some entry ∧
      stepLog env active s x = [⟨key, entry, s.total⟩] ∧
      SameStore (countDown env key entry s) (applyStep env dir dryRun active s x) := by
  cases x with
  | file path => exact .inl ⟨removeFile_sameStore path s, rfl, fun _ h => by cases h⟩
  | entry key =>
    cases hactive : isActive env active key with
    | true =>
      refine .inl ⟨?_, by simp [stepLog, hactive], fun _ h hnot => by cases h; simp [hactive] at hnot⟩
      change SameStore _ (removeEntry env dir dryRun active s key)
      rw [removeEntry_of_active hactive]
      exact ⟨rfl, rfl, rfl, rfl, rfl⟩
    | false =>
      cases hget : s.store.get? key with
      | none =>
        refine .inl ⟨?_, by simp [stepLog, hget], fun _ h _ => by cases h; exact hget⟩
        change SameStore _ (removeEntry env dir dryRun active s key)
        rw [removeEntry_of_absent hget]
        exact ⟨rfl, rfl, rfl, rfl, rfl⟩
      | some entry =>
        refine .inr ⟨key, entry, rfl, hactive, hget, by simp [stepLog, hactive, hget], ?_⟩
        change SameStore _ (removeEntry env dir dryRun active s key)
        obtain ⟨-, heq⟩ | ⟨-, path, -, heq⟩ := removeEntry_eq dir dryRun h hactive hget
        · rw [heq]
          exact ⟨rfl, rfl, rfl, rfl, rfl⟩
        · rw [heq]
          exact removeFile_sameStore path _

variable (h : Kept env s)
include h

theorem kept_applyStep (x : Step) : Kept env (applyStep env dir dryRun active s x) := by
  obtain ⟨hsame, -⟩ | ⟨key, entry, -, -, hget, -, hsame⟩ := applyStep_cases dir dryRun h x
  · exact h.sameStore hsame
  · exact (kept_countDown h hget).sameStore hsame

theorem total_countDown (hget : s.store.get? key = some entry) :
    (countDown env key entry s).total = s.total - (measureStoreEntryChunkBytes env key entry + 2) := by
  obtain ⟨counts, heq⟩ := countDown_cases env key entry s
  rw [heq]
  simp only [dropEntry]
  rw [h.max_projected hget, measureStoreBytes_delete env hget, h.projected]
  omega

theorem kept_exec (steps : List Step) : Kept env (exec env dir dryRun active steps s) := by
  induction steps generalizing s with
  | nil => exact h
  | cons x rest ih => exact ih (kept_applyStep h x)

/-- Which entries are left. -/
theorem get?_applyStep (x : Step) (key : String) :
    (applyStep env dir dryRun active s x).store.get? key =
      if x = .entry key ∧ isActive env active key = false then none else s.store.get? key := by
  obtain ⟨hsame, -, hnone⟩ | ⟨key', entry, rfl, hactive, -, -, hsame⟩ := applyStep_cases dir dryRun h x
  · rw [hsame.store]
    split_ifs with hc
    · exact hnone key hc.1 hc.2
    · rfl
  · obtain ⟨counts, hcount⟩ := countDown_cases env key' entry s
    rw [hsame.store, hcount]
    refine (get?_delete _ _ _).trans ?_
    by_cases heq : key' = key
    · subst heq
      simp [hactive]
    · simp [heq]

theorem get?_exec (steps : List Step) (key : String) :
    (exec env dir dryRun active steps s).store.get? key =
      if .entry key ∈ steps ∧ isActive env active key = false then none else s.store.get? key := by
  induction steps generalizing s with
  | nil => simp
  | cons x rest ih =>
    refine (ih (kept_applyStep h x)).trans ?_
    rw [get?_applyStep h]
    by_cases hactive : isActive env active key = false
    · by_cases hx : x = .entry key
      · simp [hx, hactive]
      · simp [hactive, hx, Ne.symm hx]
    · simp [hactive]

/-! ### The log -/

theorem removals_applyStep (x : Step) :
    (applyStep env dir dryRun active s x).removals = s.removals ++ stepLog env active s x := by
  obtain ⟨hsame, hlog, -⟩ | ⟨key, entry, -, -, hget, hlog, hsame⟩ := applyStep_cases dir dryRun h x
  · rw [hsame.removals, hlog, append_nil]
  · obtain ⟨counts, hcount⟩ := countDown_cases env key entry s
    rw [hsame.removals, hcount, hlog]
    rfl

variable {removed : RemovedEntry δ}

omit h in
theorem mem_stepLog {x : Step} (h : removed ∈ stepLog env active s x) :
    x = .entry removed.key ∧ removed.totalBefore = s.total ∧
      s.store.get? removed.key = some removed.entry ∧ isActive env active removed.key = false := by
  cases x with
  | file path => cases h
  | entry key =>
    unfold stepLog at h
    dsimp only at h
    split at h
    · cases h
    · rename_i hactive
      split at h
      · cases h
      · rename_i entry hget
        obtain rfl := mem_singleton.mp h
        exact ⟨rfl, rfl, hget, Bool.not_eq_true _ ▸ hactive⟩

/-- What is in the log was removed by a step. -/
theorem mem_removals_exec (steps : List Step)
    (hmem : removed ∈ (exec env dir dryRun active steps s).removals) :
    removed ∈ s.removals ∨ ∃ before after, steps = before ++ .entry removed.key :: after ∧
      removed.totalBefore = (exec env dir dryRun active before s).total ∧
      (exec env dir dryRun active before s).store.get? removed.key = some removed.entry ∧
      isActive env active removed.key = false := by
  induction steps generalizing s with
  | nil => exact .inl hmem
  | cons x rest ih =>
    obtain hmem | ⟨before, after, rfl, hrest⟩ := ih (kept_applyStep h x) hmem
    · rw [removals_applyStep h] at hmem
      rcases mem_append.mp hmem with hmem | hmem
      · exact .inl hmem
      · obtain ⟨rfl, hlog⟩ := mem_stepLog hmem
        exact .inr ⟨[], rest, rfl, hlog⟩
    · exact .inr ⟨x :: before, after, rfl, hrest⟩

theorem removals_subset_exec (steps : List Step) :
    s.removals ⊆ (exec env dir dryRun active steps s).removals := by
  induction steps generalizing s with
  | nil => exact List.Subset.refl _
  | cons x rest ih =>
    have hstep : s.removals ⊆ (applyStep env dir dryRun active s x).removals := by
      rw [removals_applyStep h]
      exact subset_append_left _ _
    exact List.Subset.trans hstep (ih (kept_applyStep h x))

/-- An entry that is gone is in the log. -/
theorem removals_of_gone (steps : List Step) (hget : s.store.get? key = some entry)
    (hgone : (exec env dir dryRun active steps s).store.get? key = none) :
    ∃ removed ∈ (exec env dir dryRun active steps s).removals,
      removed.key = key ∧ removed.entry = entry := by
  induction steps generalizing s with
  | nil => simp [hget] at hgone
  | cons x rest ih =>
    by_cases hx : x = .entry key ∧ isActive env active key = false
    · obtain ⟨rfl, hactive⟩ := hx
      have hlog : ⟨key, entry, s.total⟩ ∈ (applyStep env dir dryRun active s (.entry key)).removals := by
        rw [removals_applyStep h]
        simp [stepLog, hactive, hget]
      exact ⟨_, removals_subset_exec (kept_applyStep h _) rest hlog, rfl, rfl⟩
    · refine ih (kept_applyStep h x) ?_ hgone
      rw [get?_applyStep h, if_neg hx, hget]

/-- A step removes the file: it is for the file, or for an entry whose transcript it is. -/
def TakesFile (env : BudgetEnv δ) (active : Option String) (s : SweepState δ) (x : Step)
    (file : RemovedFile) : Prop :=
  (x = .file file.path ∧ file.totalBefore = s.total) ∨
    ∃ key entry, x = .entry key ∧ isActive env active key = false ∧ s.store.get? key = some entry ∧
      transcriptOf env entry = some file.path

variable {file : RemovedFile}

theorem mem_fileRemovals_applyStep {x : Step}
    (hmem : file ∈ (applyStep env dir dryRun active s x).fileRemovals) :
    file ∈ s.fileRemovals ∨ TakesFile env active s x file := by
  cases x with
  | file path =>
    change file ∈ (removeFile dir dryRun path s).fileRemovals at hmem
    rw [fileRemovals_removeFile, mem_append, mem_singleton] at hmem
    obtain hmem | rfl := hmem
    · exact .inl hmem
    · exact .inr (.inl ⟨rfl, rfl⟩)
  | entry key =>
    change file ∈ (removeEntry env dir dryRun active s key).fileRemovals at hmem
    cases hactive : isActive env active key with
    | true => exact .inl (removeEntry_of_active hactive s ▸ hmem)
    | false =>
      cases hget : s.store.get? key with
      | none => exact .inl (removeEntry_of_absent hget ▸ hmem)
      | some entry =>
        have hlog : (countDown env key entry s).fileRemovals = s.fileRemovals := by
          obtain ⟨counts, heq⟩ := countDown_cases env key entry s
          rw [heq]
          rfl
        obtain ⟨-, heq⟩ | ⟨-, path, hpath, heq⟩ := removeEntry_eq dir dryRun h hactive hget
        · rw [heq, hlog] at hmem
          exact .inl hmem
        · rw [heq, fileRemovals_removeFile, hlog, mem_append, mem_singleton] at hmem
          obtain hmem | rfl := hmem
          · exact .inl hmem
          · exact .inr (.inr ⟨key, entry, rfl, hactive, hget, hpath⟩)

/-- A file in the log was removed by a step. -/
theorem mem_fileRemovals_exec (steps : List Step)
    (hmem : file ∈ (exec env dir dryRun active steps s).fileRemovals) :
    file ∈ s.fileRemovals ∨ ∃ before x after, steps = before ++ x :: after ∧
      TakesFile env active (exec env dir dryRun active before s) x file := by
  induction steps generalizing s with
  | nil => exact .inl hmem
  | cons x rest ih =>
    obtain hmem | ⟨before, y, after, rfl, hrest⟩ := ih (kept_applyStep h x) hmem
    · obtain hmem | htakes := mem_fileRemovals_applyStep h hmem
      · exact .inl hmem
      · exact .inr ⟨[], x, rest, rfl, htakes⟩
    · exact .inr ⟨x :: before, y, after, rfl, hrest⟩

/-- The log is in the order of the steps. -/
theorem removals_sublist (steps : List Step) :
    ((exec env dir dryRun active steps s).removals.map fun removed => Step.entry removed.key).Sublist
      ((s.removals.map fun removed => Step.entry removed.key) ++ steps) := by
  induction steps generalizing s with
  | nil => simp
  | cons x rest ih =>
    refine (ih (kept_applyStep h x)).trans ?_
    have hlog : ((stepLog env active s x).map fun removed => Step.entry removed.key).Sublist [x] := by
      cases x with
      | file path => exact nil_sublist _
      | entry key =>
        unfold stepLog
        dsimp only
        split
        · exact nil_sublist _
        · split
          · exact nil_sublist _
          · exact List.Sublist.refl _
    rw [removals_applyStep h, map_append, append_assoc]
    exact (List.Sublist.refl _).append (hlog.append (List.Sublist.refl rest))

end Foxclaw.Config.DiskBudget
