import Foxclaw.Config.DiskBudgetFiles

/-!
# When a sweep is sound

What is asked of a sweep (`Exact`): the total that is reported is that of the files and the store
that are left, the active entry and the transcripts of the entries that are left stay, entries go
oldest first, files and entries go while the total is too high and no longer, and a dry run reports
the same. The sweep counts the references to a session by its id, finds its transcript by its path,
and counts the bytes of the listing only; `Sound` says what the directory and the store must be, as
far as the sweep has to go (`Turn`), for this to come out right.

## What is proved

* `enforce_cases` — there is no sweep, or one over the plan.
* `oldestFirst_exec` — entries go in the order of their age.
* `Sound.accounted` — in a sound sweep the total is right after each step.
* `turn_iff` — while the total is right, the steps taken are those whose turn comes.
-/

namespace Foxclaw.Config.DiskBudget

open Foxclaw.Config.SessionStore (SessionEntry Store)
open List Option Foxclaw.Sweep

variable {δ : Type}

/-! ### Exact sweeps -/

section

variable (env : BudgetEnv δ) (dir : SessionsDir) (storePath : String) (store : Store δ)
  (active : Option String)

/-- What is asked of a sweep. -/
structure Exact (warnOnly : Bool) (s : SweepState δ)
    (reported dryRun : Option SessionDiskBudgetSweepResult) : Prop where
  /-- The total is that of the files and the store that are left. -/
  total : ∀ result, reported = some result → result.totalBytesAfter =
    remainingBytes dir storePath s.disk + measureStoreBytes env s.store
  keepsActive : ∀ key entry, isActive env active key = true → store.get? key = some entry →
    s.store.get? key = some entry
  /-- A transcript of an entry that is left is not removed. -/
  transcripts : ∀ key entry path, s.store.get? key = some entry →
    transcriptOf env entry = some path → (dir.disk path).isSome → (s.disk path).isSome
  /-- Entries are removed oldest first. -/
  oldestFirst : (s.removals.Pairwise fun a b => getEntryUpdatedAt a.entry ≤ getEntryUpdatedAt b.entry) ∧
    ∀ removed ∈ s.removals, ∀ key entry, s.store.get? key = some entry →
      isActive env active key = false → getEntryUpdatedAt removed.entry ≤ getEntryUpdatedAt entry
  removed : ∀ key entry, store.get? key = some entry → s.store.get? key = none →
    ∃ removed ∈ s.removals, removed.key = key ∧ removed.entry = entry
  removedFiles : ∀ path, (dir.disk path).isSome → s.disk path = none →
    ∃ file ∈ s.fileRemovals, file.path = path
  /-- Each entry is removed because the total is too high. -/
  stops : ∀ result, reported = some result → ∀ removed ∈ s.removals,
    result.highWaterBytes < removed.totalBefore
  /-- So is each file, unless it goes with an entry. -/
  stopsFiles : ∀ result, reported = some result → ∀ file ∈ s.fileRemovals,
    result.highWaterBytes < file.totalBefore ∨
      ∃ removed ∈ s.removals, transcriptOf env removed.entry = some file.path
  /-- If the total stays too high, there was no more to remove. -/
  goesOn : warnOnly = false → ∀ result, reported = some result → result.overBudget = true →
    result.highWaterBytes < result.totalBytesAfter →
      (∀ file ∈ removableFileQueue env dir store, s.disk file.canonicalPath = none) ∧
        ∀ key entry, s.store.get? key = some entry → isActive env active key = true
  sameReport : dryRun = reported

/-- What is asked of `enforceSessionDiskBudget`. -/
def Enforces (maintenance : SessionDiskBudgetConfig) (warnOnly : Bool) : Prop :=
  let r := enforceSessionDiskBudget env dir false storePath store active maintenance warnOnly
  Exact env dir storePath store active warnOnly r.1 r.2
    (enforceSessionDiskBudget env dir true storePath store active maintenance warnOnly).2

/-! ### Sound sweeps -/

/-- There is a sweep: the files and the store are over the limit, and it is not only to warn. -/
def Sweeps (maintenance : SessionDiskBudgetConfig) (warnOnly : Bool) (highWaterBytes : ℤ) : Prop :=
  warnOnly = false ∧ maintenance.highWaterBytes = some highWaterBytes ∧
    ∃ maxBytes, maintenance.maxDiskBytes = some maxBytes ∧
      maxBytes < bytesLeft env dir storePath store active []

/-- The turn of a step comes: what is left before it is larger than the high-water mark. -/
def Turn (highWaterBytes : ℤ) (x : Step) : Prop :=
  ∃ pre post, plan env dir store = pre ++ x :: post ∧
    highWaterBytes < bytesLeft env dir storePath store active pre

/-- The turn of an entry comes that is not active. -/
def Goes (highWaterBytes : ℤ) (key : String) : Prop :=
  isActive env active key = false ∧ Turn env dir storePath store active highWaterBytes (.entry key)

/-- The transcript goes with the entry, the last one of its session. -/
def GoesWith (key path : String) : Prop :=
  ∃ entry, store.get? key = some entry ∧
    LastOfSession env store active (olderThan store key) key entry ∧ transcriptOf env entry = some path

/-- What the directory, the store and the active key have to be, for a sweep to a high-water mark. -/
structure Sound (highWaterBytes : ℤ) : Prop where
  /-- The store is not one of the files whose turn comes, unless it is empty. -/
  storeFile : ∀ file ∈ removableFileQueue env dir store,
    Turn env dir storePath store active highWaterBytes (.file file.canonicalPath) →
      file.canonicalPath = storePath → file.size = 0
  /-- An entry that refers to a file whose turn comes goes too. -/
  queue : ∀ file ∈ removableFileQueue env dir store,
    Turn env dir storePath store active highWaterBytes (.file file.canonicalPath) →
      ∀ key entry, store.get? key = some entry → transcriptOf env entry = some file.canonicalPath →
        Goes env dir storePath store active highWaterBytes key
  /-- A transcript that goes with an entry is in the listing, and is not the store, unless it is
  empty. -/
  listed : ∀ key path size, Goes env dir storePath store active highWaterBytes key →
    GoesWith env store active key path → dir.disk path = some size →
      size = 0 ∨ path ≠ storePath ∧ (dir.sizeOf path).isSome
  /-- Any other entry that refers to it goes too. -/
  shared : ∀ key path, Goes env dir storePath store active highWaterBytes key →
    GoesWith env store active key path → (dir.disk path).isSome →
      ∀ key' entry', store.get? key' = some entry' → transcriptOf env entry' = some path →
        Goes env dir storePath store active highWaterBytes key'

end

variable {env : BudgetEnv δ} {dir : SessionsDir} {storePath : String} {store : Store δ}
  {active : Option String}

/-! ### The start -/

theorem sum_listed {files : List SessionsDirFileStat} (hnodup : (files.map (·.canonicalPath)).Nodup)
    (storePath : String) :
    ((files.filter fun file => file.canonicalPath ≠ storePath).map (·.size)).sum +
      ((files.find? (·.canonicalPath = storePath)).map (·.size)).getD 0 = (files.map (·.size)).sum := by
  induction files with
  | nil => rfl
  | cons file rest ih =>
    rw [map_cons, nodup_cons] at hnodup
    have hrest := ih hnodup.2
    by_cases hpath : file.canonicalPath = storePath
    · subst hpath
      have hall : rest.filter (fun other => other.canonicalPath ≠ file.canonicalPath) = rest := by
        refine filter_eq_self.mpr ?_
        intro other hother
        have hne : other.canonicalPath ≠ file.canonicalPath := by
          intro heq
          have hmem := List.mem_map_of_mem (f := SessionsDirFileStat.canonicalPath) hother
          rw [heq] at hmem
          exact hnodup.1 hmem
        simpa using hne
      rw [filter_cons_of_neg (by simp), hall, find?_cons_of_pos (by simp), map_cons,
        sum_cons]
      simp [Nat.add_comm]
    · rw [filter_cons_of_pos (by simpa using hpath), find?_cons_of_neg (by simpa using hpath),
        map_cons, map_cons, sum_cons, sum_cons, ← hrest]
      omega

variable {file : SessionsDirFileStat}

theorem sizeOf_of_mem (h : file ∈ dir.files) : dir.sizeOf file.canonicalPath = some file.size := by
  unfold SessionsDir.sizeOf
  have hnodup := dir.nodup
  generalize dir.files = files at h hnodup
  induction files with
  | nil => cases h
  | cons other rest ih =>
    rw [map_cons, nodup_cons] at hnodup
    rcases mem_cons.mp h with rfl | hmem
    · rw [find?_cons_of_pos (by simp)]
      rfl
    · have hne : other.canonicalPath ≠ file.canonicalPath := by
        intro heq
        have hin := List.mem_map_of_mem (f := SessionsDirFileStat.canonicalPath) hmem
        rw [← heq] at hin
        exact hnodup.1 hin
      rw [find?_cons_of_neg (by simpa using hne)]
      exact ih hmem hnodup.2

theorem disk_of_mem (h : file ∈ dir.files) : dir.disk file.canonicalPath = some file.size := by
  rw [SessionsDir.disk, sizeOf_of_mem h]
  rfl

theorem accounted_start : Accounted env dir storePath (startState env dir storePath store) := by
  have hremaining : remainingBytes dir storePath dir.disk =
      ((dir.files.filter fun file => file.canonicalPath ≠ storePath).map (·.size)).sum := by
    unfold remainingBytes
    congr 2
    refine filter_congr fun file hfile => ?_
    simp [disk_of_mem hfile]
  have hsum := sum_listed dir.nodup storePath
  unfold Accounted
  simp only [startState, storeFileSize, SessionsDir.sizeOf]
  rw [hremaining]
  omega

/-- With limits that are low enough, it is the sweep. -/
theorem enforce_of_lt {maxBytes highWaterBytes : ℤ}
    (hlt : maxBytes < (startState env dir storePath store).total) (dryRun : Bool) :
    enforceSessionDiskBudget env dir dryRun storePath store active
        ⟨some maxBytes, some highWaterBytes⟩ false =
      (sweepTo (applyStep env dir dryRun active) (·.total) highWaterBytes (plan env dir store)
          (startState env dir storePath store),
        some (report (startState env dir storePath store)
          (sweepTo (applyStep env dir dryRun active) (·.total) highWaterBytes (plan env dir store)
            (startState env dir storePath store)) maxBytes highWaterBytes true)) := by
  have hsweep := sweep_eq env dir dryRun active storePath store highWaterBytes
  dsimp only at hsweep
  simp only [enforceSessionDiskBudget, if_neg (not_le.mpr hlt), Bool.false_eq_true, ↓reduceIte]
  rw [hsweep]

theorem total_start : (startState env dir storePath store).total =
    bytesLeft env dir storePath store active [] :=
  (accounted_realRun_iff (nil_append (plan env dir store)).symm).mp accounted_start

/-- What `enforceSessionDiskBudget` does: nothing, or a sweep over the plan. -/
theorem enforce_cases (env : BudgetEnv δ) (dir : SessionsDir) (storePath : String) (store : Store δ)
    (active : Option String) (maintenance : SessionDiskBudgetConfig) (warnOnly : Bool) :
    (∃ o, (∀ bound, ¬ Sweeps env dir storePath store active maintenance warnOnly bound) ∧
      (∀ dryRun, enforceSessionDiskBudget env dir dryRun storePath store active maintenance warnOnly =
        (startState env dir storePath store, o)) ∧
      ∀ result, o = some result →
        result.totalBytesAfter = (startState env dir storePath store).total ∧
          (result.overBudget = true → warnOnly = true)) ∨
    ∃ maxBytes bound, Sweeps env dir storePath store active maintenance warnOnly bound ∧ ∀ dryRun,
      enforceSessionDiskBudget env dir dryRun storePath store active maintenance warnOnly =
        (sweepTo (applyStep env dir dryRun active) (·.total) bound (plan env dir store)
            (startState env dir storePath store),
          some (report (startState env dir storePath store)
            (sweepTo (applyStep env dir dryRun active) (·.total) bound (plan env dir store)
              (startState env dir storePath store)) maxBytes bound true)) := by
  have hstart : (startState env dir storePath store).total =
      bytesLeft env dir storePath store active [] := total_start
  obtain ⟨maxDiskBytes, highWaterBytes⟩ := maintenance
  cases maxDiskBytes with
  | none =>
    refine .inl ⟨none, ?_, fun dryRun => rfl, by simp⟩
    rintro bound ⟨-, -, maxBytes, hmax, -⟩
    cases hmax
  | some maxBytes =>
    cases highWaterBytes with
    | none =>
      refine .inl ⟨none, ?_, fun dryRun => rfl, by simp⟩
      rintro bound ⟨-, hhigh, -⟩
      cases hhigh
    | some bound =>
      by_cases hle : (startState env dir storePath store).total ≤ maxBytes
      · refine .inl ⟨some (report (startState env dir storePath store)
          (startState env dir storePath store) maxBytes bound false), ?_, ?_, ?_⟩
        · rintro bound' ⟨-, -, maxBytes', ⟨⟩, hlt⟩
          exact absurd hle (not_le.mpr (hstart ▸ hlt))
        · intro dryRun
          simp [enforceSessionDiskBudget, hle]
        · rintro result ⟨⟩
          exact ⟨rfl, fun hover => absurd hover Bool.false_ne_true⟩
      · cases warnOnly with
        | true =>
          refine .inl ⟨some (report (startState env dir storePath store)
            (startState env dir storePath store) maxBytes bound true), ?_, ?_, ?_⟩
          · rintro bound' ⟨hwarn, -⟩
            cases hwarn
          · intro dryRun
            simp [enforceSessionDiskBudget, hle]
          · rintro result ⟨⟩
            exact ⟨rfl, fun _ => rfl⟩
        | false =>
          refine .inr ⟨maxBytes, bound, ⟨rfl, rfl, maxBytes, rfl, ?_⟩, ?_⟩
          · exact hstart ▸ not_le.mp hle
          · intro dryRun
            exact enforce_of_lt (not_le.mp hle) dryRun

/-! ### The order of the plan -/

/-- If both steps are for entries, the first is not the younger. -/
def StepsByAge (store : Store δ) (x y : Step) : Prop :=
  ∀ key key' entry entry', x = .entry key → y = .entry key' → store.get? key = some entry →
    store.get? key' = some entry' → getEntryUpdatedAt entry ≤ getEntryUpdatedAt entry'

theorem entryPlan_pairwise (store : Store δ) : (entryPlan store).Pairwise (StepsByAge store) := by
  unfold entryPlan keysByAge
  rw [pairwise_map, pairwise_map]
  have hsorted := pairwise_insertionSort
    (fun a b : String × SessionEntry δ => getEntryUpdatedAt a.2 ≤ getEntryUpdatedAt b.2) store.entries
  refine hsorted.imp_of_mem ?_
  intro a b ha hb hle key key' entry entry' hkey hkey' hget hget'
  cases hkey
  cases hkey'
  have ha' := JsMap.mem_entries_iff.mp ((mem_insertionSort _).mp ha)
  have hb' := JsMap.mem_entries_iff.mp ((mem_insertionSort _).mp hb)
  obtain rfl := some.inj (ha'.symm.trans hget)
  obtain rfl := some.inj (hb'.symm.trans hget')
  exact hle

theorem plan_pairwise (env : BudgetEnv δ) (dir : SessionsDir) (store : Store δ) :
    (plan env dir store).Pairwise (StepsByAge store) := by
  have hfile (x y : Step) (hx : x ∈ filePlan env dir store) : StepsByAge store x y := by
    obtain ⟨file, -, rfl⟩ := List.mem_map.mp hx
    intro key key' entry entry' hkey
    cases hkey
  unfold plan
  rw [pairwise_append]
  refine ⟨?_, entryPlan_pairwise store, ?_⟩
  · exact List.Pairwise.imp_of_mem (fun hx _ _ => hfile _ _ hx) (pairwise_of_forall fun _ _ => trivial)
  · intro x hx y hy
    exact hfile x y hx

variable {pre post : List Step}

/-- What a prefix of the plan removes is in order, and not younger than what is left. -/
theorem oldestFirst_exec (hplan : plan env dir store = pre ++ post) :
    ((realRun env dir storePath store active pre).removals.Pairwise fun a b =>
      getEntryUpdatedAt a.entry ≤ getEntryUpdatedAt b.entry) ∧
    ∀ removed ∈ (realRun env dir storePath store active pre).removals,
      ∀ key entry, (realRun env dir storePath store active pre).store.get? key =
        some entry → isActive env active key = false →
          getEntryUpdatedAt removed.entry ≤ getEntryUpdatedAt entry := by
  have hpairwise := plan_pairwise env dir store
  rw [hplan, pairwise_append] at hpairwise
  have hmem (removed : RemovedEntry δ) (h : removed ∈ (realRun env dir storePath store active pre).removals) :
      .entry removed.key ∈ pre ∧ store.get? removed.key = some removed.entry := by
    obtain h | ⟨before, after, rfl, -, hget, -⟩ := mem_removals_exec Kept.start pre h
    · cases h
    · have hget' := (get?_exec Kept.start before removed.key).symm.trans hget
      exact ⟨by simp, (ite_none_left_eq_some.mp hget').2⟩
  constructor
  · have hsorted : ((realRun env dir storePath store active pre).removals.map fun removed =>
        Step.entry removed.key).Pairwise (StepsByAge store) :=
      hpairwise.1.sublist (removals_realRun_sublist pre)
    rw [pairwise_map] at hsorted
    refine hsorted.imp_of_mem ?_
    intro a b ha hb hle
    exact hle a.key b.key a.entry b.entry rfl rfl (hmem a ha).2 (hmem b hb).2
  · intro removed hremoved key entry hget hactive
    obtain ⟨hin, hgetRemoved⟩ := hmem removed hremoved
    rw [get?_realRun] at hget
    obtain ⟨hleft, hget⟩ := ite_none_left_eq_some.mp hget
    have hkey : .entry key ∈ pre ++ post := by
      rw [← hplan]
      exact mem_append_right _ (List.mem_map_of_mem (mem_keysByAge.mpr ⟨entry, hget⟩))
    have hpost : .entry key ∈ post := by
      obtain hpre | hpost := mem_append.mp hkey
      · exact absurd ⟨hpre, hactive⟩ hleft
      · exact hpost
    exact hpairwise.2.2 _ hin _ hpost removed.key key removed.entry entry rfl rfl hgetRemoved hget

/-! ### Where a sweep stops -/

section

variable (env : BudgetEnv δ) (dir : SessionsDir) (storePath : String) (store : Store δ)
  (active : Option String)

/-- A sweep to the mark takes the steps of `pre`, and no more. -/
structure Stops (bound : ℤ) (pre post : List Step) : Prop where
  split : plan env dir store = pre ++ post
  above : ∀ p x q, pre = p ++ x :: q → bound < (realRun env dir storePath store active p).total
  stop : post = [] ∨ (realRun env dir storePath store active pre).total ≤ bound

theorem exists_stops (bound : ℤ) :
    ∃ pre post, Stops env dir storePath store active bound pre post ∧
      sweepTo (applyStep env dir false active) (·.total) bound (plan env dir store)
        (startState env dir storePath store) = realRun env dir storePath store active pre := by
  obtain ⟨pre, post, hplan, heq, habove, hstop⟩ := sweepTo_eq_foldl (applyStep env dir false active)
    (·.total) bound (plan env dir store) (startState env dir storePath store)
  exact ⟨pre, post, ⟨hplan, habove, hstop⟩, heq⟩

/-- The total is right after each step that the sweep takes. -/
def AccountedAll (pre : List Step) : Prop :=
  ∀ p q, pre = p ++ q → Accounted env dir storePath (realRun env dir storePath store active p)

end

variable {bound : ℤ}

theorem Stops.total_eq (h : Stops env dir storePath store active bound pre post)
    (hacc : AccountedAll env dir storePath store active pre) {p q : List Step} (hpre : pre = p ++ q) :
    (realRun env dir storePath store active p).total = bytesLeft env dir storePath store active p := by
  have hplan : plan env dir store = p ++ (q ++ post) := by rw [h.split, hpre, append_assoc]
  exact (accounted_realRun_iff hplan).mp (hacc p q hpre)

/-- While the total is right, the steps that are taken are those whose turn comes. -/
theorem Stops.turn_iff (h : Stops env dir storePath store active bound pre post)
    (hacc : AccountedAll env dir storePath store active pre) {x : Step} :
    Turn env dir storePath store active bound x ↔ x ∈ pre := by
  constructor
  · rintro ⟨p, q, hplan, hlt⟩
    obtain ⟨rest, hp, -⟩ | ⟨rest, hpre, hq⟩ := append_eq_append_iff.mp (h.split.symm.trans hplan)
    · -- the step is after those taken, where not so much is left
      obtain rfl | hle := h.stop
      · have hmem : x ∈ plan env dir store := by simp [hplan]
        rwa [h.split, append_nil] at hmem
      · rw [h.total_eq hacc (append_nil pre).symm] at hle
        have hless : bytesLeft env dir storePath store active (pre ++ rest) ≤
            bytesLeft env dir storePath store active pre := bytesLeft_append_le pre rest
        rw [← hp] at hless
        omega
    · cases rest with
      | nil =>
        -- the step is the first that is not taken
        rw [append_nil] at hpre
        subst hpre
        obtain rfl | hle := h.stop
        · simp at hq
        · rw [h.total_eq hacc (append_nil pre).symm] at hle
          omega
      | cons y rest =>
        obtain ⟨rfl, -⟩ := List.cons.inj hq
        simp [hpre]
  · intro hmem
    obtain ⟨p, q, hpre⟩ := append_of_mem hmem
    refine ⟨p, q ++ post, by rw [h.split, hpre]; simp, ?_⟩
    rw [← h.total_eq hacc hpre]
    exact h.above p x q hpre

/-! ### A sound sweep -/

theorem mem_files_of_queue (h : file ∈ removableFileQueue env dir store) : file ∈ dir.files :=
  mem_of_mem_filter ((mem_insertionSort _).mp h)

theorem stepFile_entry_iff {key path : String} :
    stepFile env store active (.entry key) = some path ↔
      isActive env active key = false ∧ GoesWith env store active key path := by
  unfold stepFile GoesWith
  dsimp only
  cases hactive : isActive env active key with
  | true => simp
  | false =>
    cases hget : store.get? key with
    | none => simp
    | some entry => simp

variable {path : String} {x : Step}

theorem Turn.mem_queue (h : Turn env dir storePath store active bound (.file path)) :
    ∃ file ∈ removableFileQueue env dir store, file.canonicalPath = path := by
  obtain ⟨pre, post, hplan, -⟩ := h
  obtain ⟨before, file, after, hqueue, heq, -⟩ | ⟨older, key, younger, -, heq, -⟩ := plan_split hplan
  · refine ⟨file, by simp [hqueue], ?_⟩
    cases heq
    rfl
  · cases heq

/-- All bytes of a file that goes are counted. -/
theorem Sound.counted (h : Sound env dir storePath store active bound)
    (hturn : Turn env dir storePath store active bound x)
    (hpath : stepFile env store active x = some path) {size : ℕ} (hsize : dir.disk path = some size) :
    size = 0 ∨ path ≠ storePath ∧ (dir.sizeOf path).isSome := by
  cases x with
  | file path' =>
    obtain rfl : path' = path := by simpa [stepFile] using hpath
    obtain ⟨file, hmem, rfl⟩ := hturn.mem_queue
    have hfile := mem_files_of_queue hmem
    obtain rfl : file.size = size := by simpa [disk_of_mem hfile] using hsize
    by_cases hstore : file.canonicalPath = storePath
    · exact .inl (h.storeFile file hmem hturn hstore)
    · exact .inr ⟨hstore, by simp [sizeOf_of_mem hfile]⟩
  | entry key =>
    obtain ⟨hactive, hwith⟩ := stepFile_entry_iff.mp hpath
    exact h.listed key path size ⟨hactive, hturn⟩ hwith hsize

/-- An entry that refers to a file that goes, goes too. -/
theorem Sound.referred (h : Sound env dir storePath store active bound)
    (hturn : Turn env dir storePath store active bound x)
    (hpath : stepFile env store active x = some path) (hdisk : (dir.disk path).isSome) {key : String}
    {entry : SessionEntry δ} (hget : store.get? key = some entry)
    (htranscript : transcriptOf env entry = some path) :
    Goes env dir storePath store active bound key := by
  cases x with
  | file path' =>
    obtain rfl : path' = path := by simpa [stepFile] using hpath
    obtain ⟨file, hmem, rfl⟩ := hturn.mem_queue
    exact h.queue file hmem hturn key entry hget htranscript
  | entry key' =>
    obtain ⟨hactive, hwith⟩ := stepFile_entry_iff.mp hpath
    exact h.shared key' path ⟨hactive, hturn⟩ hwith hdisk key entry hget htranscript

/-- In a sound sweep the total is right after each step. -/
theorem Sound.accounted (h : Sound env dir storePath store active bound)
    (hstops : Stops env dir storePath store active bound pre post) :
    AccountedAll env dir storePath store active pre := by
  intro p
  induction p using List.reverseRecOn with
  | nil =>
    intro q hpre
    exact accounted_start
  | append_singleton p x ih =>
    intro q hpre
    rw [append_assoc] at hpre
    have hbefore := ih (x :: q) hpre
    have hplan : plan env dir store = p ++ x :: (q ++ post) := by
      rw [hstops.split, hpre]
      simp
    have hturn : Turn env dir storePath store active bound x := by
      refine ⟨p, q ++ post, hplan, ?_⟩
      rw [← (accounted_realRun_iff hplan).mp hbefore]
      exact hstops.above p x q hpre
    rw [realRun_concat, accounted_applyStep (kept_realRun p) hbefore, stepPath_eq_stepFile hplan]
    intro path hpath
    rw [countedBytes_eq_iff (onDisk_realRun p)]
    intro size hsize
    exact h.counted hturn hpath (size_of_onDisk (onDisk_realRun p) hsize)

end Foxclaw.Config.DiskBudget
