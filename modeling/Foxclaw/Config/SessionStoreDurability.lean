import Foxclaw.Config.SessionStore

/-!
# Durability of the session store

A save in mode `enforce` renames a large `sessions.json` to a backup before it writes the new
one, and it does not write when the new text is the one in the cache of serialized stores. So a
save that changes nothing leaves no file behind when it rotates, and the next update starts
from an empty store. A callback that throws between the two does the same.

## What is proved

* `save_durable_iff` — when a save that completes leaves the store in the file.
* `unchanged_store_lost` — an update that changes nothing loses the sessions.
* `store_durable` — in a run in which every save that rotates the file also writes it, the file
  holds what the last completed save left, and every later update starts from it.
-/

namespace Foxclaw.Config.SessionStore

open Bool Option Runs

variable {δ : Type} {env : StoreEnv δ}

/-! ### The invariant -/

/-- What holds between operations. -/
structure Inv (env : StoreEnv δ) (s : State δ) : Prop where
  /-- The cached text is that of the file. -/
  serialized : ∀ text, s.serialized = some text → ∃ file, s.file = some file ∧ file.text = text
  /-- The cached store is that of the file, perhaps migrated. -/
  cached : ∀ cache, s.objectCache = some cache →
    cache.store = contents s ∨ cache.store = applySessionStoreMigrations env (contents s)
  /-- The file holds what the last completed save left. -/
  left : ∀ store, s.left = some store → ∃ file, s.file = some file ∧ file.text.parse = some store

theorem start_inv (file : Option (SessionFile δ)) (backups : JsMap String (FileText δ)) :
    Inv env (start file backups) where
  serialized _ h := by cases h
  cached _ h := by cases h
  left _ h := by cases h

variable {s : State δ} {store : Store δ}

theorem contents_of_file {file : SessionFile δ}
    (h : s.file = some file) (hparse : file.text.parse = some store) : contents s = store := by
  rw [contents, h, bind_some, hparse, getD_some]

/-! ### Loading -/

/-- The store is that of the file, perhaps migrated. -/
def IsContents (env : StoreEnv δ) (s : State δ) (store : Store δ) : Prop :=
  store = contents s ∨ store = applySessionStoreMigrations env (contents s)

/-- What loading does to the state. -/
structure Loaded (env : StoreEnv δ) (s s' : State δ) (store : Store δ) : Prop where
  file : s'.file = s.file
  /-- So does what the last save left. -/
  left : s'.left = s.left
  inv : Inv env s'
  store : IsContents env s store

theorem loadFromDisk_loaded (h : Inv env s) (now : ℚ) (skipCache : Bool) :
    Loaded env s (loadFromDisk env now skipCache s).1 (loadFromDisk env now skipCache s).2 := by
  have hserialized : ∀ text,
      (s.file.bind fun file => if file.text.parse.isSome then some file.text else none) = some text →
        ∃ file, s.file = some file ∧ file.text = text := by
    intro text htext
    obtain ⟨file, hfile, htext⟩ := bind_eq_some_iff.mp htext
    obtain ⟨-, ⟨⟩⟩ := ite_none_right_eq_some.mp htext
    exact ⟨file, hfile, rfl⟩
  unfold loadFromDisk
  dsimp only
  split
  · exact ⟨rfl, rfl, ⟨hserialized, fun cache hcache => by cases hcache; exact .inr rfl, h.left⟩, .inr rfl⟩
  · exact ⟨rfl, rfl, ⟨hserialized, h.cached, h.left⟩, .inr rfl⟩

/-- The cache is missing, dropped, or hit. -/
theorem readSessionStoreCache_cases (env : StoreEnv δ) (now : ℚ) (s : State δ) :
    readSessionStoreCache env now s = (s, none) ∨
      readSessionStoreCache env now s = ({ s with objectCache := none, serialized := none }, none) ∨
      ∃ cached, s.objectCache = some cached ∧
        readSessionStoreCache env now s = (s, some cached.store) := by
  unfold readSessionStoreCache
  cases hcached : s.objectCache with
  | none => exact .inl rfl
  | some cached =>
    dsimp only
    split_ifs
    · exact .inr (.inl rfl)
    · exact .inr (.inl rfl)
    · exact .inr (.inr ⟨cached, rfl, rfl⟩)

theorem loadSessionStore_loaded (h : Inv env s) (now : ℚ) (skipCache : Bool) :
    Loaded env s (loadSessionStore env now skipCache s).1 (loadSessionStore env now skipCache s).2 := by
  have hdropped : Inv env { s with objectCache := none, serialized := none } :=
    ⟨fun _ hnone => (by cases hnone), fun _ hnone => (by cases hnone), h.left⟩
  have hdisk : Loaded env s
      (loadFromDisk env now skipCache { s with objectCache := none, serialized := none }).1
      (loadFromDisk env now skipCache { s with objectCache := none, serialized := none }).2 := by
    obtain ⟨hfile, hleft, hinv, hstore⟩ := loadFromDisk_loaded hdropped now skipCache
    exact ⟨hfile, hleft, hinv, hstore⟩
  unfold loadSessionStore
  split
  · rcases readSessionStoreCache_cases env now s with hread | hread | ⟨cached, hcached, hread⟩
    · rw [hread]
      exact loadFromDisk_loaded h now skipCache
    · rw [hread]
      exact hdisk
    · rw [hread]
      exact ⟨rfl, rfl, h, h.cached cached hcached⟩
  · exact loadFromDisk_loaded h now skipCache

theorem loadSessionStore_skipCache (now : ℚ) (s : State δ) :
    (loadSessionStore env now true s).2 = applySessionStoreMigrations env (contents s) := rfl

theorem beforeSave_inv (h : Inv env s) (now : ℚ) (op : Operation δ) :
    Inv env (beforeSave env now s op).1 := by
  cases op with
  | updateSessionStore mutator opts => exact (loadSessionStore_loaded h now true).inv
  | updateSessionStoreEntry sessionKey update maintenance =>
    unfold beforeSave
    dsimp only
    split <;> exact (loadSessionStore_loaded h now true).inv
  | updateLastRoute sessionKey route maintenance => exact (loadSessionStore_loaded h now false).inv
  | recordSessionMetaFromInbound sessionKey patch createIfMissing maintenance =>
    exact (loadSessionStore_loaded h now true).inv
  | saveSessionStore store opts => exact h
  | loadSessionStore skipCache => exact (loadSessionStore_loaded h now skipCache).inv

/-! ### Saving -/

theorem rotateSessionFile_of_not_exceeds {rotateBytes : ℚ} (h : exceeds env rotateBytes s = false) (now : ℕ) :
    rotateSessionFile env now rotateBytes s = s := by
  unfold rotateSessionFile
  split
  · rfl
  · rw [if_neg (by rw [h]; decide)]

variable {opts : SaveOptions}

/-- Maintenance leaves the files alone when it does not rotate. -/
theorem maintainFiles_of_not_rotates
    (h : rotates env opts s = false) (io : Io) : maintainFiles env io opts s = s := by
  unfold maintainFiles
  cases opts with
  | none => rfl
  | some m =>
    dsimp only
    split
    · rename_i hmode
      refine rotateSessionFile_of_not_exceeds ?_ _
      simpa [rotates, hmode] using h
    · rfl

/-- When it rotates, the file is gone, and the caches are as before. -/
theorem maintainFiles_of_rotates (h : rotates env opts s = true) (io : Io) :
    (maintainFiles env io opts s).file = none ∧
      (maintainFiles env io opts s).serialized = s.serialized := by
  unfold maintainFiles
  cases opts with
  | none => cases h
  | some m =>
    simp only [rotates, and_eq_true, decide_eq_true_eq] at h
    dsimp only
    rw [if_pos h.1]
    unfold rotateSessionFile
    cases hfile : s.file with
    | none =>
      rw [exceeds, hfile] at h
      cases h.2
    | some file =>
      dsimp only
      rw [if_pos h.2]
      exact ⟨rfl, rfl⟩

variable [DecidableEq δ]

/-- A save that ends with the store in the file keeps the invariant. -/
theorem writeStore_inv (io : Io)
    (h : s.serialized = some (.json store) → ∃ file, s.file = some file ∧ file.text = .json store) :
    Inv env (writeStore env io store s) := by
  -- the state before the caches are set, with the store in its file
  have hfile : ∃ file,
      (if s.serialized = some (.json store) then s else writeTextAtomic io (.json store) s).file =
        some file ∧ file.text = .json store := by
    split
    · rename_i hser
      exact h hser
    · exact ⟨⟨.json store, io.mtimeMs⟩, rfl, rfl⟩
  unfold writeStore
  dsimp only
  generalize (if s.serialized = some (.json store) then s else writeTextAtomic io (.json store) s) =
    s' at hfile ⊢
  obtain ⟨file, hfile, htext⟩ := hfile
  have hparse : file.text.parse = some store := by rw [htext]; rfl
  refine ⟨fun text ht => ?_, fun cache hcache => ?_, fun store' hleft => ?_⟩
  · cases ht
    exact ⟨file, hfile, htext⟩
  · simp only [updateSessionStoreWriteCaches] at hcache
    obtain ⟨-, ⟨⟩⟩ := ite_none_right_eq_some.mp hcache
    exact .inl (contents_of_file hfile hparse).symm
  · cases hleft
    exact ⟨file, hfile, hparse⟩

/-- The save rotates the file away and does not write it. -/
def losesOnSave (env : StoreEnv δ) (io : Io) (opts : SaveOptions) (store : Store δ) (s : State δ) : Bool :=
  rotates env opts s &&
    (maintenanceThrows io opts || s.serialized = some (.json (maintained env io opts store)))

theorem saveSessionStoreUnlocked_inv (h : Inv env s) {io : Io}
    (hkeeps : losesOnSave env io opts store s = false) :
    Inv env (saveSessionStoreUnlocked env io opts store s) := by
  unfold saveSessionStoreUnlocked
  dsimp only
  cases hrotates : rotates env opts s with
  | false =>
    rw [maintainFiles_of_not_rotates hrotates]
    split
    · exact h
    · exact writeStore_inv io fun hser => h.serialized _ hser
  | true =>
    obtain ⟨-, hserialized⟩ := maintainFiles_of_rotates hrotates io
    simp only [losesOnSave, hrotates, Bool.true_and, or_eq_false_iff, decide_eq_false_iff_not] at hkeeps
    rw [if_neg (by rw [hkeeps.1]; decide)]
    exact writeStore_inv io fun hser => absurd (hserialized ▸ hser) hkeeps.2

/-- A save that completes leaves the store in the file, unless it rotates the file away and finds
its text in the cache. -/
theorem save_durable_iff (h : Inv env s) {io : Io} (hcompletes : maintenanceThrows io opts = false) :
    (∃ file, (saveSessionStoreUnlocked env io opts store s).file = some file ∧
      file.text.parse = some (maintained env io opts store)) ↔
      losesOnSave env io opts store s = false := by
  constructor
  · rintro ⟨file, hfile, -⟩
    by_contra hloses
    simp only [not_eq_false, losesOnSave, hcompletes, Bool.false_or, and_eq_true, decide_eq_true_eq] at hloses
    obtain ⟨hnone, hserialized⟩ := maintainFiles_of_rotates hloses.1 io
    simp only [saveSessionStoreUnlocked, hcompletes, false_eq_true, if_false, writeStore,
      hserialized, hloses.2, if_true, updateSessionStoreWriteCaches, hnone] at hfile
    cases hfile
  · intro hkeeps
    refine (saveSessionStoreUnlocked_inv h hkeeps).left _ ?_
    simp only [saveSessionStoreUnlocked, hcompletes, false_eq_true, if_false, writeStore]

/-! ### Operations -/

/-- The operation rotates the file away and does not write it. -/
def losesFile (env : StoreEnv δ) (s : State δ) (a : Operation δ × Io) : Bool :=
  match beforeSave env a.2.now s a.1 with
  | (_, none) => false
  | (s, some (store, opts)) => losesOnSave env a.2 opts store s

/-- Every save that rotates the file also writes it. -/
def KeepsFile (env : StoreEnv δ) (s : State δ) (a : Operation δ × Io) : Prop :=
  losesFile env s a = false

instance (s : State δ) (a : Operation δ × Io) : Decidable (KeepsFile env s a) :=
  inferInstanceAs (Decidable (_ = _))

theorem next_inv {s s' : State δ} {a : Operation δ × Io} (h : Inv env s) (hkeeps : KeepsFile env s a)
    (hs : next env s a = some s') : Inv env s' := by
  have hbefore := beforeSave_inv h a.2.now a.1
  unfold KeepsFile losesFile at hkeeps
  unfold next at hs
  generalize beforeSave env a.2.now s a.1 = before at hbefore hkeeps hs
  obtain ⟨s₁, save⟩ := before
  cases save with
  | none =>
    cases hs
    exact hbefore
  | some save =>
    cases hs
    exact saveSessionStoreUnlocked_inv hbefore hkeeps

/-! ### Runs -/

/-- In a run in which every save that rotates the file also writes it, the file holds what the
last completed save left, and every later update starts from that. -/
theorem store_durable {file : Option (SessionFile δ)} {backups : JsMap String (FileText δ)}
    {as : List (Operation δ × Io)} {s : State δ}
    (hkeeps : Meets (next env) (KeepsFile env) (start file backups) as)
    (h : exec (next env) (start file backups) as = some s) {store : Store δ} (hleft : s.left = some store) :
    (∃ file, s.file = some file ∧ file.text.parse = some store) ∧
      ∀ now, (loadSessionStore env now true s).2 = applySessionStoreMigrations env store ∧
        ((loadSessionStore env now false s).2 = store ∨
          (loadSessionStore env now false s).2 = applySessionStoreMigrations env store) := by
  have hinv : Inv env s :=
    exec_invariant_of_meets (fun _ _ _ hi hk hs => next_inv hi hk hs) hkeeps (start_inv file backups) h
  obtain ⟨f, hf, hparse⟩ := hinv.left store hleft
  have hcontents := contents_of_file hf hparse
  refine ⟨⟨f, hf, hparse⟩, fun now => ⟨?_, ?_⟩⟩
  · rw [loadSessionStore_skipCache, hcontents]
  · have hstore := (loadSessionStore_loaded hinv now false).store
    rwa [IsContents, hcontents] at hstore

/-! ### A store that is lost -/

/-- Keys in lower case, entries as they are, texts of a hundred bytes. -/
def demoEnv : StoreEnv Unit := ⟨id, id, id, fun _ => 100, 45000⟩

/-- A store with one session. -/
def demoStore : Store Unit := JsMap.empty.set "main" ⟨none, ()⟩

/-- Maintenance that rotates files of more than `rotateBytes`. -/
def demoMaintenance (rotateBytes : ℚ) : SaveOptions := some ⟨.enforce, 1000, 500, rotateBytes⟩

/-- A session is stored, then an update changes nothing. -/
def demoRun (rotateBytes : ℚ) : List (Operation Unit × Io) :=
  [(.updateSessionStore (fun store => some (store.set "main" ⟨none, ()⟩)) (demoMaintenance rotateBytes),
      ⟨1, 1, [], false⟩),
    (.updateSessionStore some (demoMaintenance rotateBytes), ⟨2, 2, [], false⟩)]

theorem store_durable_demo :
    ∃ s, exec (next demoEnv) (start none .empty) (demoRun 1000) = some s ∧
      (∃ file, s.file = some file ∧ file.text.parse = some demoStore) := by
  have hkeeps : Meets (next demoEnv) (KeepsFile demoEnv) (start none .empty) (demoRun 1000) := by
    decide +kernel
  exact ⟨_, rfl, (store_durable hkeeps rfl (by decide +kernel)).1⟩

/-- The file that both updates completed on is gone, and the next update starts empty. -/
theorem unchanged_store_lost :
    ∃ s, exec (next demoEnv) (start none .empty) (demoRun 50) = some s ∧ s.left = some demoStore ∧
      s.file = none ∧ (loadSessionStore demoEnv 3 true s).2 = JsMap.empty :=
  ⟨_, rfl, by decide +kernel, by decide +kernel, by decide +kernel⟩

end Foxclaw.Config.SessionStore
