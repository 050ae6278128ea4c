import Foxclaw.Pairing.PairingIsolation

/-!
# An approval that fails

`approveChannelPairingCode` takes the request out of one file and adds its id to another, each
under a lock of its own, and any of the steps may throw. Here the steps are those of
`PairingStore`, and what fails is part of the call (`Faults`). A read that fails gives the fallback,
and `ensureJsonFile` takes a file that it cannot access for missing; a write that throws leaves the
file as it was.

## What is proved

* `approve_none` — when nothing fails, this is `approveChannelPairingCode`.
* `lists_update` — when the id is on the list of its file after `updateAllowFromStoreEntry`.
* `approve_atomic_iff` — the code is consumed only for access exactly when `Safe` holds: the
  request is written away before the account is checked and the list is changed.
* `approve_consumes` — on a full disk a code is consumed for nothing.
-/

namespace Foxclaw.Pairing.Failing

open Option
open Foxclaw.Text (trimString)

/-! ### What fails -/

/-- What fails when a file is changed under its lock; a step that throws has its error. -/
structure FileFaults where
  /-- `access` fails, although the file is there. -/
  access : Bool
  /-- The write of the fallback throws. -/
  create : Option String
  lock : Option String
  /-- The read fails, and gives the fallback. -/
  read : Bool
  write : Option String

/-- What fails in a call of `approveChannelPairingCode`. -/
structure Faults where
  /-- At the pairing file. -/
  requests : FileFaults
  /-- At the file of the allow list. -/
  allowFrom : FileFaults
  /-- The adapter of the channel throws. -/
  normalize : Option String

/-- Nothing fails at a file. -/
def FileFaults.clear : FileFaults := ⟨false, none, none, false, none⟩

/-- Nothing fails. -/
def Faults.clear : Faults := ⟨.clear, .clear, none⟩

section Steps

variable {α : Type}

/-- A step that throws or changes the state, and what follows. -/
def step (error : Option String) (change : State → State) (rest : State → State × Except String α)
    (s : State) : State × Except String α :=
  match error with
  | some e => (s, .error e)
  | none => rest (change s)

@[simp] theorem step_some (e : String) (change : State → State)
    (rest : State → State × Except String α) (s : State) :
    step (some e) change rest s = (s, .error e) := rfl

@[simp] theorem step_none (change : State → State) (rest : State → State × Except String α)
    (s : State) : step none change rest s = rest (change s) := rfl

variable {P : State → Prop}

theorem step_keeps {error : Option String} {change : State → State}
    {rest : State → State × Except String α} {s : State} (hs : P s) (hchange : P s → P (change s))
    (hrest : ∀ s, P s → P (rest s).1) : P (step error change rest s).1 := by
  cases error with
  | some e => exact hs
  | none => exact hrest _ (hchange hs)

/-- `ensureJsonFile`, and what follows. -/
def ensureJsonFile (faults : FileFaults) (present : Bool) (create : State → State)
    (rest : State → State × Except String α) (s : State) : State × Except String α :=
  if present && !faults.access then rest s else step faults.create create rest s

/-- `withFileLock`; the release of a lock does not throw. -/
def withFileLock (faults : FileFaults) (present : Bool) (create : State → State)
    (fn : State → State × Except String α) (s : State) : State × Except String α :=
  ensureJsonFile faults present create (step faults.lock id fn) s

theorem withFileLock_keeps {faults : FileFaults} {present : Bool} {create : State → State}
    {fn : State → State × Except String α} {s : State} (hs : P s) (hcreate : P s → P (create s))
    (hfn : ∀ s, P s → P (fn s).1) : P (withFileLock faults present create fn s).1 := by
  have hlock (s : State) (hs : P s) : P (step faults.lock id fn s).1 := step_keeps hs id hfn
  unfold withFileLock ensureJsonFile
  split
  · exact hlock s hs
  · exact step_keeps hs hcreate hlock

end Steps

section Approve

variable (env : PairingEnv) (faults : Faults)

/-- What `updateAllowFromStoreEntry` does under the lock of the file. -/
def updateLocked (path channel entry : String) (apply : List String → String → Option (List String))
    (io : Io) (s : State) : State × Except String (Bool × List String) :=
  step faults.normalize id (fun s =>
    let current := normalizeAllowFromList env channel
      (if faults.allowFrom.read then [] else s.content path)
    let normalized := normalizeAllowFromInput env channel entry
    if normalized = "" then (s, .ok (false, current))
    else match apply current normalized with
      | none => (s, .ok (false, current))
      | some next => step faults.allowFrom.write (writeAllowFromState · path next io)
          (fun s => (s, .ok (true, next))) s) s

def updateAllowFromStoreEntry (s : State) (channel entry : String) (accountId : Option String)
    (apply : List String → String → Option (List String)) (io : Io) :
    State × Except String (Bool × List String) :=
  match resolveAllowFromPath env channel accountId with
  | .error e => (s, .error e)
  | .ok path =>
    withFileLock faults.allowFrom (s.allowFrom path).isSome (writeFile · path [] io.created)
      (updateLocked env faults path channel entry apply io) s

def addChannelAllowFromStoreEntry (s : State) (channel entry : String) (accountId : Option String)
    (io : Io) : State × Except String (Bool × List String) :=
  updateAllowFromStoreEntry env faults (record s ⟨channel, accountId, entry⟩) channel entry accountId
    addEntry io

/-- What `approveChannelPairingCode` does under the lock of the pairing file; `code` is as it is
compared. -/
def approveLocked (path channel code : String) (accountId : Option String) (now : ℤ) (io : Io)
    (s : State) : State × Except String (Option PairingRequest) :=
  let (pruned, removed) := pruneExpiredRequests
    (if faults.requests.read then [] else readPairingRequests s path) now
  match findRequest env pruned code (normalizePairingAccountId env accountId) with
  | none =>
    if removed then
      step faults.requests.write (writeRequests · path pruned) (fun s => (s, .ok none)) s
    else (s, .ok none)
  | some (idx, entry) =>
    step faults.requests.write (writeRequests · path (pruned.eraseIdx idx)) (fun s =>
      let r := addChannelAllowFromStoreEntry env faults s channel entry.id
        (approvedAccountId accountId entry) io
      (r.1, r.2.map fun _ => some entry)) s

def approveChannelPairingCode (s : State) (channel code : String) (accountId : Option String)
    (now : ℤ) (io : Io) : State × Except String (Option PairingRequest) :=
  let code := env.toUpperCase (trimString code)
  if code = "" then (s, .ok none)
  else match resolvePairingPath env channel with
    | .error e => (s, .error e)
    | .ok path =>
      withFileLock faults.requests (s.pairing path).isSome (writeRequests · path [])
        (approveLocked env faults path channel code accountId now io) s

end Approve

variable {env : PairingEnv} {faults : Faults} {s : State} {channel : String}

/-! ### When nothing fails -/

theorem withFileLock_none {α : Type} (present : Bool) (create : State → State)
    (fn : State → State × Except String α) (s : State) :
    withFileLock .clear present create fn s = fn (if present then s else create s) := by
  cases present <;> rfl

theorem update_none (s : State) (channel entry : String) (accountId : Option String)
    (apply : List String → String → Option (List String)) (io : Io) :
    updateAllowFromStoreEntry env .clear s channel entry accountId apply io =
      Pairing.updateAllowFromStoreEntry env s channel entry accountId apply io := by
  unfold updateAllowFromStoreEntry Pairing.updateAllowFromStoreEntry
  cases resolveAllowFromPath env channel accountId with
  | error e => rfl
  | ok path =>
    have hensure : (if (s.allowFrom path).isSome then s else writeFile s path [] io.created) =
        ensureAllowFrom s path io.created := rfl
    simp only [Faults.clear, withFileLock_none, updateLocked, step_none, id, hensure]
    generalize ensureAllowFrom s path io.created = s'
    by_cases hempty : normalizeAllowFromInput env channel entry = ""
    · simp only [FileFaults.clear, Bool.false_eq_true, ↓reduceIte, hempty]
    · cases happly : apply (normalizeAllowFromList env channel (s'.content path))
          (normalizeAllowFromInput env channel entry) with
      | none => simp only [FileFaults.clear, Bool.false_eq_true, ↓reduceIte, hempty, happly]
      | some next => simp only [FileFaults.clear, Bool.false_eq_true, ↓reduceIte, step_none, hempty, happly]

/-- When nothing fails, the request is approved as in `PairingStore`. -/
theorem approve_none (s : State) (channel code : String) (accountId : Option String) (now : ℤ)
    (io : Io) : approveChannelPairingCode env .clear s channel code accountId now io =
      Pairing.approveChannelPairingCode env s channel code accountId now io := by
  unfold approveChannelPairingCode Pairing.approveChannelPairingCode
  dsimp only
  split
  · rfl
  · cases resolvePairingPath env channel with
    | error e => rfl
    | ok path =>
      have hensure : (if (s.pairing path).isSome then s else writeRequests s path []) =
          ensureRequests s path := rfl
      simp only [Faults.clear, withFileLock_none, approveLocked, hensure]
      generalize ensureRequests s path = s'
      simp only [FileFaults.clear, Bool.false_eq_true, ↓reduceIte, step_none]
      cases findRequest env (pruneExpiredRequests (readPairingRequests s' path) now).1
          (env.toUpperCase (trimString code)) (normalizePairingAccountId env accountId) with
      | none =>
        dsimp only
        split <;> rfl
      | some found =>
        exact congrArg (fun r => (r.1, r.2.map fun _ => some found.2)) (update_none _ channel
          found.2.id (approvedAccountId accountId found.2) addEntry io)

/-! ### Approvals that fail part way -/

/-- The request is in the pairing file of the channel. -/
def StillPending (env : PairingEnv) (s : State) (channel : String) (entry : PairingRequest) : Prop :=
  ∃ path, resolvePairingPath env channel = .ok path ∧ entry ∈ readPairingRequests s path

/-- `readChannelAllowFromStore` consults the file for the account. -/
def Consults (env : PairingEnv) (channel : String) (accountId : Option String) (path : String) : Prop :=
  resolveAllowFromPath env channel (some (resolveAllowFromAccountId env accountId)) = .ok path ∨
  shouldIncludeLegacyAllowFromEntries (resolveAllowFromAccountId env accountId) ∧
    resolveAllowFromPath env channel none = .ok path

/-- The id is on the list of the file, as it is written or as it is read. -/
def Lists (env : PairingEnv) (s : State) (channel path id : String) : Prop :=
  normalizeAllowFromInput env channel id ≠ "" ∧
    (normalizeAllowFromInput env channel id ∈ s.content path ∨
      normalizeAllowFromInput env channel id ∈ normalizeAllowFromList env channel (s.content path))

/-- The id of the request is on a list that is consulted for its account. -/
def Allows (env : PairingEnv) (s : State) (channel : String) (entry : PairingRequest) : Prop :=
  ∃ path, Consults env channel (some entry.accountId) path ∧ Lists env s channel path entry.id

/-- A call that rejects leaves the request in its file, or its id is let in; and the code is
consumed only for access. -/
def Atomic (env : PairingEnv) (faults : Faults) (s : State) (channel code : String)
    (accountId : Option String) (now : ℤ) (io : Io) : Prop :=
  ∀ i entry, toApprove env s channel code accountId now = some (i, entry) →
    let r := approveChannelPairingCode env faults s channel code accountId now io
    (∀ e, r.2 = .error e → StillPending env r.1 channel entry ∨ Allows env r.1 channel entry) ∧
    (¬ StillPending env r.1 channel entry → Allows env r.1 channel entry)

/-! ### When it holds -/

/-- A file that is there is taken for missing, and written anew. -/
def FileFaults.Wipes (faults : FileFaults) : Prop := faults.access = true ∧ faults.create = none

/-- The requests are read, and those that stay are written. -/
def FileFaults.Taken (faults : FileFaults) : Prop :=
  faults.access = false ∧ faults.lock = none ∧ faults.read = false ∧ faults.write = none

/-- The file can be changed. -/
def FileFaults.Changes (faults : FileFaults) (present : Bool) : Prop :=
  ((present = true ∧ faults.access = false) ∨ faults.create = none) ∧ faults.lock = none ∧
    faults.write = none

/-- The id is added to the list of the file. -/
def Granted (env : PairingEnv) (faults : Faults) (s : State) (channel path id : String) : Prop :=
  normalizeAllowFromInput env channel id ≠ "" ∧ faults.normalize = none ∧
    faults.allowFrom.Changes (s.allowFrom path).isSome

/-- The id is on a list that is consulted for the account of the request, when the list of a file
has been changed. -/
def AllowsAfter (env : PairingEnv) (faults : Faults) (s : State) (channel : String)
    (entry : PairingRequest) (target : Except String String) : Prop :=
  ∃ path, Consults env channel (some entry.accountId) path ∧
    (target = .ok path ∧ Granted env faults s channel path entry.id ∨
      Lists env s channel path entry.id ∧ (target = .ok path → ¬ faults.allowFrom.Wipes))

/-- What makes the call safe for a request, given the requests that stay: it is not taken from its
file, or is there once more, or is on a list in the end. -/
def SafeFor (env : PairingEnv) (faults : Faults) (s : State) (channel : String)
    (accountId : Option String) (entry : PairingRequest) (kept : List PairingRequest) : Prop :=
  (faults.requests.Wipes → Allows env s channel entry) ∧
  (faults.requests.Taken → entry ∈ kept ∨
    AllowsAfter env faults s channel entry
      (resolveAllowFromPath env channel (approvedAccountId accountId entry)))

/-- The call is safe. -/
def Safe (env : PairingEnv) (faults : Faults) (s : State) (channel code : String)
    (accountId : Option String) (now : ℤ) : Prop :=
  ∀ i entry path, toApprove env s channel code accountId now = some (i, entry) →
    resolvePairingPath env channel = .ok path →
    SafeFor env faults s channel accountId entry
      ((pruneExpiredRequests (readPairingRequests s path) now).1.eraseIdx i)

/-! ### Lists after a change -/

@[simp] theorem content_writeFile (s : State) (path path' : String) (allowFrom : List String)
    (stat : ℚ × ℕ) : (writeFile s path allowFrom stat).content path' =
      if path' = path then allowFrom else s.content path' := by
  by_cases h : path' = path <;> simp [State.content, writeFile, h]

@[simp] theorem content_writeAllowFromState (s : State) (path path' : String)
    (allowFrom : List String) (io : Io) : (writeAllowFromState s path allowFrom io).content path' =
      if path' = path then allowFrom else s.content path' :=
  content_writeFile s path path' allowFrom io.written

variable {path : String}

theorem content_eq_nil (h : (s.allowFrom path).isSome = false) : s.content path = [] := by
  rw [State.content, isNone_iff_eq_none.mp (isSome_eq_false_iff.mp h)]
  rfl

theorem not_lists_nil {path id : String} (h : s.content path = []) : ¬ Lists env s channel path id := by
  rintro ⟨-, hmem⟩
  simp [h, normalizeAllowFromList, dedupePreserveOrder, dedupeFrom] at hmem

theorem lists_of_mem {path id : String} (hne : normalizeAllowFromInput env channel id ≠ "")
    (hmem : normalizeAllowFromInput env channel id ∈ s.content path) :
    Lists env s channel path id := ⟨hne, .inl hmem⟩

variable {t : State}

theorem lists_congr {path id : String} (h : t.content path = s.content path) :
    Lists env t channel path id ↔ Lists env s channel path id := by
  unfold Lists
  rw [h]

variable {apply : List String → String → Option (List String)} {io : Io}

/-- What happens under the lock of another file leaves a file as it is. -/
theorem content_updateLocked_of_ne {entry path path' : String} (hne : path ≠ path') (s : State) :
    (updateLocked env faults path' channel entry apply io s).1.content path = s.content path := by
  refine step_keeps (P := fun t : State => t.content path = s.content path) rfl id ?_
  intro t ht
  dsimp only
  split
  · exact ht
  · split
    · exact ht
    · refine step_keeps (P := fun t : State => t.content path = s.content path) ht ?_ ?_
      · intro ht
        simpa [hne] using ht
      · intro t ht
        exact ht

variable {accountId : Option String}

/-- The content of another file stays. -/
theorem content_update_of_ne {entry : String}
    (h : resolveAllowFromPath env channel accountId ≠ .ok path) (s : State) :
    (updateAllowFromStoreEntry env faults s channel entry accountId apply io).1.content path =
      s.content path := by
  unfold updateAllowFromStoreEntry
  cases hpath : resolveAllowFromPath env channel accountId with
  | error e => rfl
  | ok path' =>
    have hne : path ≠ path' := by
      rintro rfl
      exact h hpath
    refine withFileLock_keeps (P := fun t : State => t.content path = s.content path) rfl ?_ ?_
    · intro ht
      simp [hne]
    · intro t ht
      exact (content_updateLocked_of_ne hne t).trans ht

/-- What happens under the lock: the id is on the list in the end if it was, or if nothing
throws. -/
theorem lists_updateLocked {entry path : String} (s : State) :
    Lists env (updateLocked env faults path channel entry addEntry io s).1 channel path entry ↔
      Lists env s channel path entry ∨ normalizeAllowFromInput env channel entry ≠ "" ∧
        faults.normalize = none ∧ faults.allowFrom.write = none := by
  unfold updateLocked
  cases hnormalize : faults.normalize with
  | some e => simp
  | none =>
    simp only [step_none, id, true_and]
    by_cases hempty : normalizeAllowFromInput env channel entry = ""
    · simp [hempty]
    · rw [if_neg hempty]
      cases hnext : addEntry (normalizeAllowFromList env channel
          (if faults.allowFrom.read then [] else s.content path))
          (normalizeAllowFromInput env channel entry) with
      | none =>
        -- it is on the list that was read, so the read did not fail
        have hmem : normalizeAllowFromInput env channel entry ∈ normalizeAllowFromList env channel
            (if faults.allowFrom.read then [] else s.content path) := by
          by_contra hnot
          simp [addEntry, hnot] at hnext
        cases hread : faults.allowFrom.read with
        | true => simp [hread, normalizeAllowFromList, dedupePreserveOrder, dedupeFrom] at hmem
        | false =>
          have hlists : Lists env s channel path entry := ⟨hempty, .inr (by simpa [hread] using hmem)⟩
          exact ⟨.inl, fun _ => hlists⟩
      | some next =>
        obtain ⟨-, ⟨⟩⟩ := ite_none_left_eq_some.mp hnext
        cases hwrite : faults.allowFrom.write with
        | some e => simp
        | none =>
          refine ⟨fun _ => .inr ⟨hempty, rfl⟩, fun _ => lists_of_mem hempty ?_⟩
          simp

/-- When the id is on the list of the file after the change: it was and the list was not lost, or
it was added. -/
theorem lists_update {entry path : String}
    (hpath : resolveAllowFromPath env channel accountId = .ok path) (s : State) :
    Lists env (updateAllowFromStoreEntry env faults s channel entry accountId addEntry io).1
        channel path entry ↔
      Granted env faults s channel path entry ∨
        Lists env s channel path entry ∧ ¬ faults.allowFrom.Wipes := by
  have hunlocked (t : State) (hlock : faults.allowFrom.lock = none) :
      Lists env (step faults.allowFrom.lock id
          (updateLocked env faults path channel entry addEntry io) t).1 channel path entry ↔
        Lists env t channel path entry ∨ normalizeAllowFromInput env channel entry ≠ "" ∧
          faults.normalize = none ∧ faults.allowFrom.write = none := by
    rw [hlock]
    exact lists_updateLocked t
  unfold updateAllowFromStoreEntry
  rw [hpath]
  dsimp only
  unfold withFileLock ensureJsonFile
  cases hpresent : (s.allowFrom path).isSome && !faults.allowFrom.access with
  | true =>
    obtain ⟨hthere, haccess⟩ : (s.allowFrom path).isSome = true ∧ faults.allowFrom.access = false := by
      simpa using hpresent
    rw [if_pos rfl]
    cases hlock : faults.allowFrom.lock with
    | some e => simp [Granted, FileFaults.Changes, FileFaults.Wipes, hlock, haccess]
    | none =>
      rw [← hlock, hunlocked s hlock]
      simp only [Granted, FileFaults.Changes, FileFaults.Wipes, hlock, haccess, hthere]
      simp [or_comm]
  | false =>
    have hmissing : ¬ ((s.allowFrom path).isSome = true ∧ faults.allowFrom.access = false) := by
      simpa using hpresent
    rw [if_neg Bool.false_ne_true]
    cases hcreate : faults.allowFrom.create with
    | some e => simp [Granted, FileFaults.Changes, FileFaults.Wipes, hcreate, hmissing]
    | none =>
      have hlost : ¬ (Lists env s channel path entry ∧ ¬ faults.allowFrom.Wipes) := by
        rintro ⟨hlists, hwipes⟩
        refine not_lists_nil (content_eq_nil ?_) hlists
        simp only [FileFaults.Wipes, hcreate, and_true, Bool.not_eq_true] at hwipes
        simpa [hwipes] using hpresent
      have hnew : ¬ Lists env (writeFile s path [] io.created) channel path entry :=
        not_lists_nil (by simp)
      rw [or_iff_left hlost, step_none]
      cases hlock : faults.allowFrom.lock with
      | some e => simpa [Granted, FileFaults.Changes, hlock] using hnew
      | none =>
        rw [← hlock, hunlocked _ hlock, or_iff_right hnew]
        simp [Granted, FileFaults.Changes, hcreate, hlock]

/-! ### The call -/

theorem pairing_update {entry : String} (s : State) :
    (updateAllowFromStoreEntry env faults s channel entry accountId apply io).1.pairing = s.pairing := by
  unfold updateAllowFromStoreEntry
  split
  · rfl
  · refine withFileLock_keeps (P := fun t : State => t.pairing = s.pairing) rfl (fun _ => rfl) ?_
    intro t ht
    refine step_keeps (P := fun t : State => t.pairing = s.pairing) ht id ?_
    intro t ht
    dsimp only
    split
    · exact ht
    · split
      · exact ht
      · refine step_keeps (P := fun t : State => t.pairing = s.pairing) ht (fun _ => ht) ?_
        intro t ht
        exact ht

/-- The id is allowed after `addChannelAllowFromStoreEntry` as `AllowsAfter` says. -/
theorem allows_add (s : State) (entry : PairingRequest) (accountId : Option String) (io : Io) :
    Allows env (addChannelAllowFromStoreEntry env faults s channel entry.id accountId io).1 channel
        entry ↔
      AllowsAfter env faults s channel entry (resolveAllowFromPath env channel accountId) := by
  refine exists_congr fun path => and_congr_right fun _ => ?_
  by_cases htarget : resolveAllowFromPath env channel accountId = .ok path
  · simp only [htarget, true_and, forall_const]
    exact lists_update htarget _
  · simp only [htarget, false_and, false_or, IsEmpty.forall_iff, and_true]
    exact lists_congr (content_update_of_ne htarget _)

theorem stillPending_writeRequests (hpath : resolvePairingPath env channel = .ok path)
    (s : State) (reqs : List PairingRequest) (entry : PairingRequest) :
    StillPending env (writeRequests s path reqs) channel entry ↔ entry ∈ reqs := by
  simp [StillPending, hpath]

theorem stillPending_congr (h : t.pairing = s.pairing) (entry : PairingRequest) :
    StillPending env t channel entry ↔ StillPending env s channel entry := by
  simp [StillPending, readPairingRequests, h]

variable {now : ℤ}

theorem approveLocked_nil {path code : String}
    (h : (if faults.requests.read then [] else readPairingRequests s path) = []) :
    approveLocked env faults path channel code accountId now io s = (s, .ok none) := by
  unfold approveLocked
  rw [h]
  rfl

variable {entry : PairingRequest} {i : ℕ}

/-- The request that is found is written away, and its id is to be let in. -/
theorem approveLocked_found {path code : String}
    (hread : faults.requests.read = false)
    (hfind : findRequest env (pruneExpiredRequests (readPairingRequests s path) now).1 code
      (normalizePairingAccountId env accountId) = some (i, entry)) :
    approveLocked env faults path channel code accountId now io s =
      step faults.requests.write (writeRequests · path
          ((pruneExpiredRequests (readPairingRequests s path) now).1.eraseIdx i)) (fun s =>
        let r := addChannelAllowFromStoreEntry env faults s channel entry.id
          (approvedAccountId accountId entry) io
        (r.1, r.2.map fun _ => some entry)) s := by
  unfold approveLocked
  simp only [hread, Bool.false_eq_true, ↓reduceIte, hfind]

variable {code : String}

/-- A request that the code approves is kept in its file or allowed exactly when the call is safe
for it. -/
theorem kept_iff (io : Io) (hpath : resolvePairingPath env channel = .ok path)
    (hfind : toApprove env s channel code accountId now = some (i, entry)) :
    StillPending env (approveChannelPairingCode env faults s channel code accountId now io).1
        channel entry ∨
      Allows env (approveChannelPairingCode env faults s channel code accountId now io).1
        channel entry ↔
      SafeFor env faults s channel accountId entry
        ((pruneExpiredRequests (readPairingRequests s path) now).1.eraseIdx i) := by
  obtain ⟨hi, hentry, -⟩ := mem_of_toApprove hpath hfind
  obtain ⟨hcode, hfound⟩ := ite_none_left_eq_some.mp hfind
  simp only [hpath] at hfound
  have hmem : entry ∈ readPairingRequests s path :=
    (pruneExpiredRequests_sublist _ now).subset (hentry ▸ List.getElem_mem hi)
  have hpending : StillPending env s channel entry := ⟨path, hpath, hmem⟩
  have hpresent : (s.pairing path).isSome = true := by
    cases hp : s.pairing path with
    | none => simp [readPairingRequests, hp] at hmem
    | some reqs => rfl
  unfold approveChannelPairingCode
  dsimp only
  rw [if_neg hcode, hpath]
  dsimp only
  unfold withFileLock ensureJsonFile
  rw [hpresent, Bool.true_and]
  cases haccess : faults.requests.access with
  | false =>
    have hwipes : ¬ faults.requests.Wipes := by simp [FileFaults.Wipes, haccess]
    rw [if_pos (Bool.not_false)]
    cases hlock : faults.requests.lock with
    | some e => simp [SafeFor, hwipes, FileFaults.Taken, hlock, hpending]
    | none =>
      rw [step_none, id]
      cases hread : faults.requests.read with
      | true =>
        rw [approveLocked_nil (by simp [hread])]
        simp [SafeFor, hwipes, FileFaults.Taken, hread, hpending]
      | false =>
        rw [approveLocked_found hread hfound]
        cases hwrite : faults.requests.write with
        | some e => simp [SafeFor, hwipes, FileFaults.Taken, hwrite, hpending]
        | none =>
          have htaken : faults.requests.Taken := ⟨haccess, hlock, hread, hwrite⟩
          have hsame t : (addChannelAllowFromStoreEntry env faults t channel entry.id
              (approvedAccountId accountId entry) io).1.pairing = t.pairing := pairing_update _
          simp only [step_none, SafeFor, hwipes, htaken, forall_const, IsEmpty.forall_iff, true_and]
          rw [stillPending_congr (hsame _), stillPending_writeRequests hpath, allows_add]
          exact Iff.rfl
  | true =>
    have htaken : ¬ faults.requests.Taken := by simp [FileFaults.Taken, haccess]
    rw [if_neg (by simp)]
    cases hcreate : faults.requests.create with
    | some e => simp [SafeFor, FileFaults.Wipes, hcreate, htaken, hpending]
    | none =>
      -- the requests are lost, and what follows finds none
      have hwipes : faults.requests.Wipes := ⟨haccess, hcreate⟩
      have hresult : (step faults.requests.lock id
          (approveLocked env faults path channel (env.toUpperCase (trimString code)) accountId now io)
          (writeRequests s path [])).1 = writeRequests s path [] := by
        cases faults.requests.lock with
        | some e => rfl
        | none =>
          rw [step_none, id, approveLocked_nil]
          split
          · rfl
          · simp
      rw [step_none, hresult, stillPending_writeRequests hpath]
      simp only [SafeFor, hwipes, htaken, forall_const, IsEmpty.forall_iff, and_true,
        List.not_mem_nil, false_or]
      exact Iff.rfl

theorem path_of_toApprove (hfind : toApprove env s channel code accountId now = some (i, entry)) :
    ∃ path, resolvePairingPath env channel = .ok path := by
  obtain ⟨-, hfound⟩ := ite_none_left_eq_some.mp hfind
  cases hpath : resolvePairingPath env channel with
  | error e => simp [hpath] at hfound
  | ok path => exact ⟨path, rfl⟩

/-- An approval is atomic exactly when it is safe. -/
theorem approve_atomic_iff (env : PairingEnv) (faults : Faults) (s : State) (channel code : String)
    (accountId : Option String) (now : ℤ) (io : Io) :
    Atomic env faults s channel code accountId now io ↔
      Safe env faults s channel code accountId now := by
  constructor
  · intro hatomic i entry path hfind hpath
    obtain ⟨-, hconsumed⟩ := hatomic i entry hfind
    exact (kept_iff io hpath hfind).mp (or_iff_not_imp_left.mpr hconsumed)
  · intro hsafe i entry hfind
    obtain ⟨path, hpath⟩ := path_of_toApprove hfind
    have hkept := (kept_iff io hpath hfind).mpr (hsafe i entry path hfind hpath)
    refine ⟨?_, or_iff_not_imp_left.mp hkept⟩
    intro e he
    exact hkept

/-! ### A write that throws -/

/-- The store in which a request for the default account waits. -/
def waiting : State :=
  (upsertChannelPairingRequest asciiEnv State.init "telegram" "u1" "default" 1 [firstIndices]).1

/-- The disk is full when the allow list is written. -/
def diskFull : Faults := ⟨.clear, { FileFaults.clear with write := some "ENOSPC" }, none⟩

/-- The call rejects, the request is gone, and its id is on no list. -/
theorem approve_consumes : ¬ Atomic asciiEnv diskFull waiting "telegram" "AAAAAAAA" none 2 someIo := by
  intro hatomic
  obtain ⟨hrejects, -⟩ := hatomic 0 ⟨"u1", "AAAAAAAA", 1, 1, "default"⟩ (by decide +kernel)
  obtain ⟨path, hpath, hmem⟩ | ⟨path, hconsults, hlists⟩ := hrejects "ENOSPC" (by decide +kernel)
  · have hfile : resolvePairingPath asciiEnv "telegram" = .ok "telegram-pairing.json" := by
      decide +kernel
    obtain rfl : "telegram-pairing.json" = path := Except.ok.inj (hfile.symm.trans hpath)
    exact absurd hmem (by decide +kernel)
  · obtain hown | ⟨-, hlegacy⟩ := hconsults
    · have hfile : resolveAllowFromPath asciiEnv "telegram"
          (some (resolveAllowFromAccountId asciiEnv (some "default"))) =
          .ok "telegram-default-allowFrom.json" := by decide +kernel
      obtain rfl : "telegram-default-allowFrom.json" = path := Except.ok.inj (hfile.symm.trans hown)
      exact not_lists_nil (by decide +kernel) hlists
    · have hfile : resolveAllowFromPath asciiEnv "telegram" none = .ok "telegram-allowFrom.json" := by
        decide +kernel
      obtain rfl : "telegram-allowFrom.json" = path := Except.ok.inj (hfile.symm.trans hlegacy)
      exact not_lists_nil (by decide +kernel) hlists

end Foxclaw.Pairing.Failing
