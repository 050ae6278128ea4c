import Foxclaw.Pairing.PairingStore

/-!
# Allow lists, file by file

What an operation on the allow list of one file does to a file and its cache entry: to another
file nothing (`SameAt`), to its own it brings nothing but what it was given (`HoldsAt`).

## What is proved

* `readAllowFromStateForPath_cases`, `updateAllowFromStoreEntry_cases` — what reading and changing
  an allow list can do.
* `sameAt_read`, `sameAt_update` — another file and its cache entry stay as they are.
* `HoldsAt.read`, `HoldsAt.update` — a property of entries that normalization keeps holds of all
  that the file and the cache have, if it does before and of what is added.
-/

namespace Foxclaw.Pairing

open Foxclaw.Text (trimString trimString_trimString)

variable {env : PairingEnv}

@[simp] theorem trimString_normalizeAllowEntry (channel entry : String) :
    trimString (normalizeAllowEntry env channel entry) = normalizeAllowEntry env channel entry := by
  unfold normalizeAllowEntry
  dsimp only
  split
  · rfl
  · split
    · rfl
    · exact trimString_trimString _

@[simp] theorem normalizeAllowEntry_trimString (channel entry : String) :
    normalizeAllowEntry env channel (trimString entry) = normalizeAllowEntry env channel entry := by
  simp only [normalizeAllowEntry, trimString_trimString]

theorem mem_dedupeFrom {seen entries : List String} {e : String} (h : e ∈ dedupeFrom seen entries) :
    ∃ x ∈ entries, trimString x = e := by
  induction entries generalizing seen with
  | nil => cases h
  | cons entry rest ih =>
    have hrest {seen' : List String} (h' : e ∈ dedupeFrom seen' rest) :
        ∃ x ∈ entry :: rest, trimString x = e := by
      obtain ⟨x, hx, he⟩ := ih h'
      exact ⟨x, List.mem_cons_of_mem _ hx, he⟩
    unfold dedupeFrom at h
    dsimp only at h
    split at h
    · exact hrest h
    · rcases List.mem_cons.mp h with rfl | h'
      · exact ⟨entry, List.mem_cons_self, rfl⟩
      · exact hrest h'

variable {allowFrom : List String}

theorem mem_normalizeAllowFromList {channel : String} {e : String}
    (h : e ∈ normalizeAllowFromList env channel allowFrom) :
    ∃ x ∈ allowFrom, normalizeAllowEntry env channel x = e := by
  obtain ⟨y, hy, rfl⟩ := mem_dedupeFrom h
  obtain ⟨x, hx, rfl⟩ := List.mem_map.mp (List.mem_filter.mp hy).1
  exact ⟨x, hx, (trimString_normalizeAllowEntry channel x).symm⟩

/-- What reading an allow list does: what the cache has stands, or it is replaced by the normalized
entries of the file. -/
theorem readAllowFromStateForPath_cases (env : PairingEnv) (s : State) (channel path : String) :
    (∃ cached, s.cache path = some cached ∧
      readAllowFromStateForPath env s channel path = (s, cached.entries)) ∨
    ∃ entry, readAllowFromStateForPath env s channel path =
        (setAllowFromReadCache s path entry, entry.entries) ∧
      ∀ e ∈ entry.entries, ∃ x ∈ s.content path, normalizeAllowEntry env channel x = e := by
  unfold readAllowFromStateForPath
  split
  · rename_i cached h
    exact .inl ⟨cached, (Option.filter_eq_some_iff.mp h).1, rfl⟩
  · split
    · exact .inr ⟨⟨false, none, []⟩, rfl, by simp⟩
    · rename_i file hfile
      refine .inr ⟨⟨true, some (file.mtimeMs, file.size),
        normalizeAllowFromList env channel file.allowFrom⟩, rfl, fun e he => ?_⟩
      have hcontent : s.content path = file.allowFrom := by simp [State.content, hfile]
      rw [hcontent]
      exact mem_normalizeAllowFromList he

/-- What changing an allow list does: nothing, or the file is created, or it is written. -/
theorem updateAllowFromStoreEntry_cases (env : PairingEnv) (s : State) (channel entry : String)
    (accountId : Option String) (apply : List String → String → Option (List String)) (io : Io) :
    (updateAllowFromStoreEntry env s channel entry accountId apply io).1 = s ∨
    ∃ path, resolveAllowFromPath env channel accountId = .ok path ∧
      ((updateAllowFromStoreEntry env s channel entry accountId apply io).1 =
          ensureAllowFrom s path io.created ∨
        ∃ next, (updateAllowFromStoreEntry env s channel entry accountId apply io).1 =
            writeAllowFromState (ensureAllowFrom s path io.created) path next io ∧
          apply (normalizeAllowFromList env channel ((ensureAllowFrom s path io.created).content path))
            (normalizeAllowFromInput env channel entry) = some next) := by
  unfold updateAllowFromStoreEntry
  split
  · exact .inl rfl
  · rename_i path hpath
    refine .inr ⟨path, hpath, ?_⟩
    dsimp only
    split
    · exact .inl rfl
    · split
      · exact .inl rfl
      · rename_i next hnext
        exact .inr ⟨next, rfl, hnext⟩

theorem mem_addEntry {current next : List String} {normalized e : String}
    (h : addEntry current normalized = some next) (he : e ∈ next) : e ∈ current ∨ e = normalized := by
  obtain ⟨-, ⟨⟩⟩ := Option.ite_none_left_eq_some.mp h
  simpa using he

theorem mem_removeEntry {current next : List String} {normalized e : String}
    (h : removeEntry current normalized = some next) (he : e ∈ next) : e ∈ current := by
  obtain ⟨-, ⟨⟩⟩ := Option.ite_none_left_eq_some.mp h
  exact (List.mem_filter.mp he).1

/-- Nothing but the allow lists and their cache has changed. -/
structure OnlyLists (s t : State) : Prop where
  pairing : t.pairing = s.pairing
  requested : t.requested = s.requested
  grants : t.grants = s.grants

theorem OnlyLists.refl (s : State) : OnlyLists s s := ⟨rfl, rfl, rfl⟩

theorem OnlyLists.trans {s t u : State} (h : OnlyLists s t) (h' : OnlyLists t u) : OnlyLists s u :=
  ⟨h'.pairing.trans h.pairing, h'.requested.trans h.requested, h'.grants.trans h.grants⟩

theorem onlyLists_read (s : State) (channel path : String) :
    OnlyLists s (readAllowFromStateForPath env s channel path).1 := by
  obtain ⟨cached, -, hr⟩ | ⟨entry, hr, -⟩ := readAllowFromStateForPath_cases env s channel path
  all_goals
    rw [hr]
    exact ⟨rfl, rfl, rfl⟩

theorem OnlyLists.requests {s t : State} (h : OnlyLists s t) (path : String) :
    readPairingRequests t path = readPairingRequests s path := by
  rw [readPairingRequests, h.pairing, ← readPairingRequests]

theorem onlyLists_ensureAllowFrom (s : State) (path : String) (stat : ℚ × ℕ) :
    OnlyLists s (ensureAllowFrom s path stat) := by
  unfold ensureAllowFrom
  split <;> exact ⟨rfl, rfl, rfl⟩

theorem onlyLists_update (env : PairingEnv) (s : State) (channel entry : String) (accountId : Option String)
    (apply : List String → String → Option (List String)) (io : Io) :
    OnlyLists s (updateAllowFromStoreEntry env s channel entry accountId apply io).1 := by
  obtain hr | ⟨path, -, hr | ⟨next, hr, -⟩⟩ :=
    updateAllowFromStoreEntry_cases env s channel entry accountId apply io
  · rw [hr]
    exact ⟨rfl, rfl, rfl⟩
  · rw [hr]
    exact onlyLists_ensureAllowFrom s path io.created
  · rw [hr]
    exact (onlyLists_ensureAllowFrom s path io.created).trans ⟨rfl, rfl, rfl⟩

/-! ### Another file -/

/-- The files and the cache have the same under a name. -/
def SameAt (path : String) (s t : State) : Prop :=
  t.allowFrom path = s.allowFrom path ∧ t.cache path = s.cache path

theorem SameAt.refl (path : String) (s : State) : SameAt path s s := ⟨rfl, rfl⟩

theorem SameAt.trans {path : String} {s t u : State} (h : SameAt path s t) (h' : SameAt path t u) :
    SameAt path s u := ⟨h'.1.trans h.1, h'.2.trans h.2⟩

theorem sameAt_setCache {path path' : String} (h : path' ≠ path) (s : State)
    (entry : AllowFromReadCacheEntry) : SameAt path s (setAllowFromReadCache s path' entry) :=
  ⟨rfl, Function.update_of_ne h.symm _ _⟩

theorem sameAt_writeFile {path path' : String} (h : path' ≠ path) (s : State)
    (allowFrom : List String) (stat : ℚ × ℕ) : SameAt path s (writeFile s path' allowFrom stat) :=
  ⟨Function.update_of_ne h.symm _ _, rfl⟩

theorem sameAt_ensureAllowFrom {path path' : String} (h : path' ≠ path) (s : State)
    (stat : ℚ × ℕ) : SameAt path s (ensureAllowFrom s path' stat) := by
  unfold ensureAllowFrom
  split
  · exact SameAt.refl path s
  · exact sameAt_writeFile h s [] stat

/-- Reading another file leaves a file and its cache entry as they are. -/
theorem sameAt_read {path path' : String} (h : path' ≠ path) (s : State) (channel : String) :
    SameAt path s (readAllowFromStateForPath env s channel path').1 := by
  obtain ⟨cached, -, hr⟩ | ⟨entry, hr, -⟩ := readAllowFromStateForPath_cases env s channel path'
  · rw [hr]
    exact SameAt.refl path s
  · rw [hr]
    exact sameAt_setCache h s entry

variable {accountId : Option String}

/-- Changing another file leaves a file and its cache entry as they are. -/
theorem sameAt_update {path channel : String}
    (h : ∀ path', resolveAllowFromPath env channel accountId = .ok path' → path' ≠ path) (s : State)
    (entry : String) (apply : List String → String → Option (List String)) (io : Io) :
    SameAt path s (updateAllowFromStoreEntry env s channel entry accountId apply io).1 := by
  obtain hr | ⟨path', hpath, hr | ⟨next, hr, -⟩⟩ :=
    updateAllowFromStoreEntry_cases env s channel entry accountId apply io
  · rw [hr]
    exact SameAt.refl path s
  · rw [hr]
    exact sameAt_ensureAllowFrom (h path' hpath) s io.created
  · rw [hr]
    exact ((sameAt_ensureAllowFrom (h path' hpath) s io.created).trans
      (sameAt_writeFile (h path' hpath) _ next io.written)).trans
      (sameAt_setCache (h path' hpath) _ _)

/-- What is read is what the file and its cache entry have. -/
theorem read_eq_of_sameAt {path : String} {s t : State} (h : SameAt path s t) (channel : String) :
    (readAllowFromStateForPath env t channel path).2 =
      (readAllowFromStateForPath env s channel path).2 := by
  unfold readAllowFromStateForPath
  rw [h.1, h.2]
  split
  · rfl
  · split <;> rfl

/-! ### The file itself -/

/-- Normalization keeps `J`. -/
def Keeps (env : PairingEnv) (channel : String) (J : String → Prop) : Prop :=
  ∀ e, J e → J (normalizeAllowEntry env channel e)

/-- All that the file and the cache have under a name is `J`. -/
structure HoldsAt (J : String → Prop) (path : String) (s : State) : Prop where
  content : ∀ e ∈ s.content path, J e
  cached : ∀ entry, s.cache path = some entry → ∀ e ∈ entry.entries, J e

theorem HoldsAt.of_sameAt {J : String → Prop} {path : String} {s t : State}
    (h : HoldsAt J path s) (hst : SameAt path s t) : HoldsAt J path t := by
  refine ⟨fun e he => h.content e ?_, fun entry hentry => h.cached entry (hst.2 ▸ hentry)⟩
  simpa only [State.content, hst.1] using he

variable {s : State}

theorem HoldsAt.mono {J K : String → Prop} {path : String} (h : HoldsAt J path s)
    (hJK : ∀ e, J e → K e) : HoldsAt K path s :=
  ⟨fun e he => hJK e (h.content e he), fun entry hentry e he => hJK e (h.cached entry hentry e he)⟩

theorem HoldsAt.setCache {J : String → Prop} {path : String} (h : HoldsAt J path s)
    {entry : AllowFromReadCacheEntry} (hentry : ∀ e ∈ entry.entries, J e) :
    HoldsAt J path (setAllowFromReadCache s path entry) := by
  refine ⟨h.content, fun entry' hentry' => ?_⟩
  obtain rfl : entry = entry' := by simpa [setAllowFromReadCache] using hentry'
  exact hentry

theorem HoldsAt.writeFile {J : String → Prop} {path : String} (h : HoldsAt J path s)
    (hallow : ∀ e ∈ allowFrom, J e) (stat : ℚ × ℕ) : HoldsAt J path (writeFile s path allowFrom stat) := by
  refine ⟨fun e he => hallow e ?_, h.cached⟩
  simpa [State.content, Pairing.writeFile] using he

theorem HoldsAt.ensureAllowFrom {J : String → Prop} {path : String}
    (h : HoldsAt J path s) (stat : ℚ × ℕ) : HoldsAt J path (ensureAllowFrom s path stat) := by
  unfold Pairing.ensureAllowFrom
  split
  · exact h
  · exact h.writeFile (by simp) stat

variable {J : String → Prop} {path ch : String}

/-- Reading an allow list keeps what the lists have, and returns nothing else. -/
theorem HoldsAt.read (hJ : Keeps env ch J) (h : HoldsAt J path s) :
    HoldsAt J path (readAllowFromStateForPath env s ch path).1 ∧
      ∀ e ∈ (readAllowFromStateForPath env s ch path).2, J e := by
  obtain ⟨cached, hcached, hr⟩ | ⟨entry, hr, hentry⟩ :=
    readAllowFromStateForPath_cases env s ch path
  · rw [hr]
    exact ⟨h, h.cached cached hcached⟩
  · have hentries : ∀ e ∈ entry.entries, J e := fun e he => by
      obtain ⟨x, hx, rfl⟩ := hentry e he
      exact hJ x (h.content x hx)
    rw [hr]
    exact ⟨h.setCache hentries, hentries⟩

/-- Changing an allow list brings nothing to it but the entry. -/
theorem HoldsAt.update (hJ : Keeps env ch J)
    (h : HoldsAt J path s) {entry : String}
    (hpath : resolveAllowFromPath env ch accountId = .ok path)
    {apply : List String → String → Option (List String)}
    (happly : ∀ current next, apply current (normalizeAllowEntry env ch entry) = some next →
      ∀ e ∈ next, e ∈ current ∨ J e) (io : Io) :
    HoldsAt J path (updateAllowFromStoreEntry env s ch entry accountId apply io).1 := by
  obtain hr | ⟨path', hpath', hcases⟩ :=
    updateAllowFromStoreEntry_cases env s ch entry accountId apply io
  · rw [hr]
    exact h
  · obtain rfl : path = path' := by simpa [hpath] using hpath'
    have hensure := h.ensureAllowFrom io.created
    obtain hr | ⟨next, hr, hnext⟩ := hcases
    · rw [hr]
      exact hensure
    · have hall : ∀ e ∈ next, J e := fun e he => by
        rw [normalizeAllowFromInput, normalizeAllowEntry_trimString] at hnext
        obtain hcurrent | hnew := happly _ next hnext e he
        · obtain ⟨x, hx, rfl⟩ := mem_normalizeAllowFromList hcurrent
          exact hJ x (hensure.content x hx)
        · exact hnew
      rw [hr]
      exact (hensure.writeFile hall io.written).setCache hall

end Foxclaw.Pairing
