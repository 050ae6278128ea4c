import Foxclaw.Config.DiskBudgetSound
import Foxclaw.Config.SessionStoreDurability
import Foxclaw.Lib.StableSort

/-!
# Which sessions a save evicts

In mode `enforce` a save prunes, caps and sweeps the store (`config/sessions/store.ts`, lines
389–454). Only the sweep for the disk budget is told which session the save is for. This module
joins the model of the store with that of the sweep: what the disk budget evicts is what
`enforceSessionDiskBudget` removes from the pruned and capped store.

## What is proved

* `saveActive_keeps_iff` — the session a save is for stays exactly when it is not stale and fewer
  than `maxEntries` of the sessions that are not stale come before it; the sweep keeps it.
* `recordMeta_evicts` — `recordSessionMetaFromInbound` evicts the session it records the metadata
  of, which has kept its time.
-/

namespace Foxclaw.Config.SessionEviction

open JsMap List Foxclaw.Config.SessionStore
open Foxclaw.Config.DiskBudget
open Foxclaw.StableSort (rank rank_le mem_drop_insertionSort_iff)

variable {δ : Type}

/-! ### A save -/

/-- What the sweep for the disk budget is given. -/
structure Budget (δ : Type) where
  env : BudgetEnv δ
  dir : SessionsDir
  storePath : String
  /-- `maxDiskBytes` and `highWaterBytes`. -/
  config : SessionDiskBudgetConfig

variable (env : StoreEnv δ)

/-- The store after `pruneStaleEntries` and `capEntryCount`. -/
def capped (now : ℚ) (m : Maintenance) (store : Store δ) : Store δ :=
  capEntryCount m.maxEntries (pruneStaleEntries now m.pruneAfterMs (normalizeSessionStore env store))

variable (budget : Budget δ)

/-- The state after `enforceSessionDiskBudget`. -/
def sweep (activeSessionKey : Option String) (store : Store δ) : SweepState δ :=
  (enforceSessionDiskBudget budget.env budget.dir false budget.storePath store activeSessionKey
    budget.config false).1

/-- `saveSessionStoreUnlocked` with an `activeSessionKey`; what the disk budget evicts is what the
sweep removes. -/
def saveActive [DecidableEq δ] (env : StoreEnv δ) (budget : Budget δ) (activeSessionKey : String)
    (now : ℕ) (mtimeMs : ℚ) (m : Maintenance) (store : Store δ) (s : State δ) : State δ :=
  let evicted := (sweep budget (some activeSessionKey) (capped env now m store)).removals.map (·.key)
  saveSessionStoreUnlocked env ⟨now, mtimeMs, evicted, false⟩ (some m) store s

/-! ### The sweep -/

theorem store_applyStep {env : BudgetEnv δ} {dir : SessionsDir} {dryRun : Bool} {active : Option String}
    {s : SweepState δ} (h : Kept env s) (x : Step) :
    (applyStep env dir dryRun active s x).store =
      s.store.deleteAll ((stepLog env active s x).map (·.key)) := by
  obtain ⟨hsame, hlog, -⟩ | ⟨key, entry, -, -, hget, hlog, hsame⟩ := applyStep_cases dir dryRun h x
  · rw [hsame.store, hlog]
    rfl
  · obtain ⟨counts, hcount⟩ := countDown_cases env key entry s
    rw [hsame.store, hcount, hlog]
    rfl

theorem store_exec (env : BudgetEnv δ) (dir : SessionsDir) (dryRun : Bool) (active : Option String)
    {s : SweepState δ} (h : Kept env s) (steps : List Step) :
    ∃ log, (exec env dir dryRun active steps s).removals = s.removals ++ log ∧
      (exec env dir dryRun active steps s).store = s.store.deleteAll (log.map (·.key)) := by
  induction steps generalizing s with
  | nil => exact ⟨[], (append_nil _).symm, rfl⟩
  | cons x rest ih =>
    obtain ⟨log, hremovals, hstore⟩ := ih (kept_applyStep h x)
    refine ⟨stepLog env active s x ++ log, ?_, ?_⟩
    · refine hremovals.trans ?_
      rw [removals_applyStep h, append_assoc]
    · refine hstore.trans ?_
      rw [store_applyStep h]
      simp [JsMap.deleteAll]

theorem sweep_run (active : Option String) (store : Store δ) :
    ∃ steps, sweep budget active store = exec budget.env budget.dir false active steps
      (startState budget.env budget.dir budget.storePath store) := by
  obtain ⟨o, -, ho, -⟩ | ⟨maxBytes, bound, -, hsweep⟩ := enforce_cases budget.env budget.dir
    budget.storePath store active budget.config false
  · exact ⟨[], congrArg Prod.fst (ho false)⟩
  · obtain ⟨pre, post, -, heq⟩ := exists_stops budget.env budget.dir budget.storePath store active bound
    exact ⟨pre, (congrArg Prod.fst (hsweep false)).trans heq⟩

theorem sweep_store (active : Option String) (store : Store δ) :
    (sweep budget active store).store =
      store.deleteAll ((sweep budget active store).removals.map (·.key)) := by
  obtain ⟨steps, hsteps⟩ := sweep_run budget active store
  obtain ⟨log, hremovals, hstore⟩ := store_exec budget.env budget.dir false active
    Kept.start steps
  have hlog : (sweep budget active store).removals = log := by
    rw [hsteps, hremovals]
    rfl
  rw [hlog, hsteps, hstore]
  rfl

theorem get?_sweep_active {budget : Budget δ} {active : Option String} {key : String}
    (h : isActive budget.env active key = true) (store : Store δ) :
    (sweep budget active store).store.get? key = store.get? key := by
  obtain ⟨steps, hsteps⟩ := sweep_run budget active store
  rw [hsteps, get?_exec Kept.start, if_neg]
  · rfl
  · rintro ⟨-, hnot⟩
    simp [h] at hnot

theorem isActive_self {env : BudgetEnv δ} {key : String} (h : normalizeActiveKey env key ≠ "") :
    isActive env (some key) key = true := by
  simp [isActive, h]

/-! ### Pruning and capping -/

/-- Is the entry older than `pruneAfterMs`? -/
def isStale (now : ℚ) (m : Maintenance) (entry : SessionEntry δ) : Bool :=
  match entry.updatedAt with
  | some updatedAt => updatedAt < now - m.pruneAfterMs
  | none => false

/-- The first entry is at least as new as the second. -/
def AsNew (a b : String × SessionEntry δ) : Prop := sortsBefore a.2.updatedAt b.2.updatedAt = true

instance : DecidableRel (AsNew (δ := δ)) := fun a b =>
  inferInstanceAs (Decidable (sortsBefore a.2.updatedAt b.2.updatedAt = true))

/-- How many entries that are not stale come before the entry under `key`: those that are newer,
and those that are as new and earlier in the store. -/
def ahead (now : ℚ) (m : Maintenance) (store : Store δ) (key : String) (entry : SessionEntry δ) : ℕ :=
  let left := (pruneStaleEntries now m.pruneAfterMs (normalizeSessionStore env store)).entries
  rank AsNew (left.takeWhile (·.1 ≠ key)) (key, entry) ((left.dropWhile (·.1 ≠ key)).drop 1)

/-- When the entry stays. -/
def Stays (now : ℚ) (m : Maintenance) (store : Store δ) (key : String) (entry : SessionEntry δ) : Prop :=
  isStale now m (env.normalizeEntry entry) = false ∧
    ahead env now m store key (env.normalizeEntry entry) < m.maxEntries

theorem sortsBefore_total (a b : Option ℚ) : sortsBefore a b = true ∨ sortsBefore b a = true := by
  cases a with
  | none =>
    right
    cases b <;> rfl
  | some a =>
    cases b with
    | none => exact .inl rfl
    | some b => simpa [sortsBefore] using le_total b a

theorem sortsBefore_trans {a b c : Option ℚ} (hab : sortsBefore a b = true)
    (hbc : sortsBefore b c = true) : sortsBefore a c = true := by
  cases c with
  | none => cases a <;> rfl
  | some c =>
    cases b with
    | none => cases hbc
    | some b =>
      cases a with
      | none => cases hab
      | some a =>
        simp only [sortsBefore, decide_eq_true_eq] at hab hbc ⊢
        exact hbc.trans hab

instance : @Std.Total (String × SessionEntry δ) AsNew := ⟨fun _ _ => sortsBefore_total _ _⟩

instance : IsTrans (String × SessionEntry δ) AsNew := ⟨fun _ _ _ => sortsBefore_trans⟩

theorem get?_normalizeSessionStore {env : StoreEnv δ} {store : Store δ} {key : String}
    {entry : SessionEntry δ} (h : store.get? key = some entry) :
    (normalizeSessionStore env store).get? key = some (env.normalizeEntry entry) := by
  refine (lookupIn_map store.entries (fun _ entry => env.normalizeEntry entry) key).trans ?_
  exact congrArg (Option.map env.normalizeEntry) h

theorem get?_pruneStaleEntries {now : ℚ} {m : Maintenance} {store : Store δ} {key : String}
    {entry : SessionEntry δ} (h : store.get? key = some entry) :
    (pruneStaleEntries now m.pruneAfterMs store).get? key =
      if isStale now m entry then none else some entry := by
  rw [pruneStaleEntries, get?_deleteAll, h]
  refine if_congr ?_ rfl rfl
  change key ∈ ((store.entries.filter fun e => isStale now m e.2).map Prod.fst) ↔ _
  constructor
  · intro hmem
    obtain ⟨e, he, rfl⟩ := List.mem_map.mp hmem
    obtain ⟨hentry, hstale⟩ := mem_filter.mp he
    obtain rfl := Option.some.inj ((mem_entries_iff.mp hentry).symm.trans h)
    exact hstale
  · intro hstale
    exact List.mem_map.mpr ⟨(key, entry), mem_filter.mpr ⟨mem_entries_iff.mpr h, hstale⟩, rfl⟩

/-- The entries around the one under `key`. -/
theorem entries_split {store : Store δ} {key : String} {entry : SessionEntry δ}
    (h : store.get? key = some entry) : store.entries =
      store.entries.takeWhile (·.1 ≠ key) ++
        (key, entry) :: (store.entries.dropWhile (·.1 ≠ key)).drop 1 := by
  have hmem := mem_entries_iff.mpr h
  have hne : store.entries.dropWhile (·.1 ≠ key) ≠ [] := by
    intro hnil
    have hall := dropWhile_eq_nil_iff.mp hnil (key, entry) hmem
    simp at hall
  obtain ⟨e, rest, hdrop⟩ := exists_cons_of_ne_nil hne
  have hkey : e.1 = key := by
    have hhead := head?_dropWhile_not (fun e : String × SessionEntry δ => decide (e.1 ≠ key)) store.entries
    rw [hdrop] at hhead
    simpa using hhead
  have hentry : e = (key, entry) := by
    have he : e ∈ store.entries := (dropWhile_sublist _).subset (hdrop ▸ mem_cons_self)
    obtain ⟨_, _⟩ := e
    obtain rfl : _ = key := hkey
    exact congrArg _ (Option.some.inj ((mem_entries_iff.mp he).symm.trans h))
  conv_lhs => rw [← takeWhile_append_dropWhile (p := fun e => decide (e.1 ≠ key)) (l := store.entries)]
  rw [hdrop, hentry]
  rfl

/-- Capping removes the entries that too many others come before. -/
theorem get?_capEntryCount {maxEntries : ℕ} {store : Store δ} {key : String} {entry : SessionEntry δ}
    (h : store.get? key = some entry) : (capEntryCount maxEntries store).get? key =
      if rank AsNew (store.entries.takeWhile (·.1 ≠ key)) (key, entry)
        ((store.entries.dropWhile (·.1 ≠ key)).drop 1) < maxEntries then some entry else none := by
  have hsplit := entries_split h
  generalize store.entries.takeWhile (·.1 ≠ key) = before at hsplit ⊢
  generalize (store.entries.dropWhile (·.1 ≠ key)).drop 1 = after at hsplit ⊢
  unfold capEntryCount
  by_cases hsize : store.size ≤ maxEntries
  · have hrank := rank_le (r := AsNew) before (key, entry) after
    rw [JsMap.size, hsplit, length_append, length_cons] at hsize
    rw [if_pos (by rw [JsMap.size, hsplit, length_append, length_cons]; omega), h,
      if_pos (by omega)]
  · rw [if_neg hsize]
    dsimp only
    rw [get?_deleteAll, h]
    have hnodup : (before ++ (key, entry) :: after).Nodup := hsplit ▸ store.nodup_keys.of_map
    have hdrop := mem_drop_insertionSort_iff (r := AsNew) hnodup maxEntries
    rw [← hsplit] at hdrop
    have hkeys : key ∈ ((store.entries.insertionSort AsNew).drop maxEntries).map Prod.fst ↔
        (key, entry) ∈ (store.entries.insertionSort AsNew).drop maxEntries := by
      constructor
      · intro hmem
        obtain ⟨e, he, rfl⟩ := List.mem_map.mp hmem
        have hentry := (mem_insertionSort AsNew).mp (mem_of_mem_drop he)
        obtain rfl := Option.some.inj ((mem_entries_iff.mp hentry).symm.trans h)
        exact he
      · exact List.mem_map_of_mem
    by_cases hrank : rank AsNew before (key, entry) after < maxEntries
    · rw [if_pos hrank, if_neg]
      intro hmem
      exact absurd (hdrop.mp (hkeys.mp hmem)) (by omega)
    · rw [if_neg hrank, if_pos]
      exact hkeys.mpr (hdrop.mpr (by omega))

/-- Which entries pruning and capping leave. -/
theorem get?_capped {env : StoreEnv δ} {now : ℚ} {m : Maintenance} {store : Store δ} {key : String}
    {entry : SessionEntry δ} (h : store.get? key = some entry) :
    (Stays env now m store key entry →
      (capped env now m store).get? key = some (env.normalizeEntry entry)) ∧
    (¬ Stays env now m store key entry → (capped env now m store).get? key = none) := by
  have hnormal : (normalizeSessionStore env store).get? key = some (env.normalizeEntry entry) :=
    get?_normalizeSessionStore h
  have hpruned : (pruneStaleEntries now m.pruneAfterMs (normalizeSessionStore env store)).get? key =
      if isStale now m (env.normalizeEntry entry) then none else some (env.normalizeEntry entry) :=
    get?_pruneStaleEntries hnormal
  unfold Stays capped
  cases hstale : isStale now m (env.normalizeEntry entry) with
  | true =>
    rw [hstale, if_pos rfl] at hpruned
    refine ⟨fun hstays => absurd hstays.1 (by simp), fun _ => ?_⟩
    unfold capEntryCount
    split
    · exact hpruned
    · rw [get?_deleteAll, hpruned, ite_self]
  | false =>
    rw [hstale, if_neg (by simp)] at hpruned
    rw [get?_capEntryCount hpruned]
    constructor
    · intro hstays
      exact if_pos hstays.2
    · intro hgone
      exact if_neg fun hlt => hgone ⟨rfl, hlt⟩

/-! ### The save -/

/-- What a save leaves, and writes unless the cache says that it is written. -/
structure Writes (s s' : State δ) (written : Store δ) : Prop where
  left : s'.left = some written
  serialized : s'.serialized = some (.json written)
  file : s.serialized ≠ some (.json written) → ∃ file, s'.file = some file ∧ file.text = .json written

theorem maintainFiles_serialized (io : Io) (opts : SaveOptions) (s : State δ) :
    (maintainFiles env io opts s).serialized = s.serialized := by
  cases opts with
  | none => rfl
  | some m =>
    unfold maintainFiles rotateSessionFile
    dsimp only
    split
    · split
      · rfl
      · split <;> rfl
    · rfl

/-- A save in mode `enforce` writes what the sweep leaves. -/
theorem saveActive_writes [DecidableEq δ] (env : StoreEnv δ) (budget : Budget δ) (activeSessionKey : String)
    (now : ℕ) (mtimeMs : ℚ) {m : Maintenance} (hmode : m.mode = .enforce) (store : Store δ) (s : State δ) :
    Writes s (saveActive env budget activeSessionKey now mtimeMs m store s)
      (sweep budget (some activeSessionKey) (capped env now m store)).store := by
  have hmaintained (evicted : List String) : maintained env ⟨now, mtimeMs, evicted, false⟩ (some m) store =
      (capped env now m store).deleteAll evicted := by
    rw [maintained, capped, if_pos hmode]
  unfold saveActive saveSessionStoreUnlocked
  dsimp only
  rw [hmaintained, ← sweep_store, if_neg (by simp [maintenanceThrows])]
  generalize (sweep budget (some activeSessionKey) (capped env now m store)).store = written
  refine ⟨rfl, rfl, ?_⟩
  intro hnew
  rw [writeStore, maintainFiles_serialized, if_neg hnew]
  exact ⟨_, rfl, rfl⟩

/-- In mode `enforce`, the session a save is for stays exactly when it is not stale and fewer than
`maxEntries` of those that are not stale come before it; the sweep keeps it. -/
theorem saveActive_keeps_iff [DecidableEq δ] (env : StoreEnv δ) (budget : Budget δ) (now : ℕ)
    (mtimeMs : ℚ) {m : Maintenance} (hmode : m.mode = .enforce) {store : Store δ}
    {activeSessionKey : String} {entry : SessionEntry δ} (hget : store.get? activeSessionKey = some entry)
    (hactive : normalizeActiveKey budget.env activeSessionKey ≠ "") (s : State δ) :
    ∃ written, Writes s (saveActive env budget activeSessionKey now mtimeMs m store s) written ∧
      written.get? activeSessionKey = (capped env now m store).get? activeSessionKey ∧
      (written.get? activeSessionKey = some (env.normalizeEntry entry) ↔
        Stays env now m store activeSessionKey entry) ∧
      (written.get? activeSessionKey = none ↔ ¬ Stays env now m store activeSessionKey entry) := by
  have hsweep := get?_sweep_active (isActive_self hactive) (capped env now m store)
  refine ⟨_, saveActive_writes env budget activeSessionKey now mtimeMs hmode store s, hsweep, ?_⟩
  obtain ⟨hstays, hgone⟩ := @get?_capped _ env now m _ _ _ hget
  rw [hsweep]
  by_cases h : Stays env now m store activeSessionKey entry
  · simp [hstays h, h]
  · simp [hgone h, h]

/-! ### An active session that is evicted -/

/-- No disk budget. -/
def noBudget : Budget Unit where
  env := ⟨id, fun _ => "", fun _ => none, fun _ _ => none, fun _ _ => []⟩
  dir := ⟨[], fun _ => none, by decide⟩
  storePath := "sessions.json"
  config := ⟨none, none⟩

/-- Two sessions; the first is the older. -/
def twoSessions : Store Unit where
  entries := [("main", ⟨some 1, ()⟩), ("other", ⟨some 2, ()⟩)]
  nodup_keys := by decide

/-- A store of one session at most. -/
def oneEntry : Maintenance := ⟨.enforce, 1000, 1, 1000⟩

theorem saveActive_keeps_iff_demo :
    ∃ written, Writes (start none .empty)
        (saveActive demoEnv noBudget "other" 3 3 oneEntry twoSessions (start none .empty)) written ∧
      written.get? "other" = (capped demoEnv 3 oneEntry twoSessions).get? "other" ∧
      (written.get? "other" = some ⟨some 2, ()⟩ ↔ Stays demoEnv 3 oneEntry twoSessions "other" ⟨some 2, ()⟩) ∧
      (written.get? "other" = none ↔ ¬ Stays demoEnv 3 oneEntry twoSessions "other" ⟨some 2, ()⟩) :=
  saveActive_keeps_iff demoEnv noBudget 3 3 rfl (by decide +kernel) (by decide +kernel) (start none .empty)

/-- An inbound message of the older session: its metadata is recorded with its time kept, and the
save evicts it. -/
theorem recordMeta_evicts :
    let store := recordMeta demoEnv "main" (fun existing => existing) true twoSessions
    store.get? "main" = some ⟨some 1, ()⟩ ∧
    ∃ written, (saveActive demoEnv noBudget "main" 3 3 oneEntry store (start none .empty)).left =
      some written ∧ written.get? "main" = none :=
  ⟨by decide +kernel, _, rfl, by decide +kernel⟩

end Foxclaw.Config.SessionEviction
