import Foxclaw.Lib.Runs
import Foxclaw.Pairing.AllowLists
import Foxclaw.Pairing.PairingRequests

/-!
# Accounts are isolated

The comment at `shouldIncludeLegacyAllowFromEntries` says that accounts other than the default one
stay isolated. Their allow lists are told apart by the names of the files, and the names are not
one to one: `safeAccountKey` writes `a/b` as `a_b`, and `-` joins the channel and the account.

## What is proved

* `accounts_isolated` — in a run in which no other pair of a channel and an account has the file of
  the account (`Apart`), only ids let in for the account are read, what is done for other pairs
  does not change what is read, and a code approves the one request that carries it.
* `accounts_share_file` — an id added for the account `a/b` is read for the account `a_b`.
-/

namespace Foxclaw.Pairing

open List Option
open Foxclaw.Runs (exec Meets exec_invariant_of_meets)
open Foxclaw.Text (trimString)

variable (env : PairingEnv)

/-! ### Which lists a step is about -/

/-- A list that a step reads or writes: the channel and the account of the call, and the file. -/
structure Target where
  channel : String
  accountId : Option String
  path : Except String String

/-- The list that is written for a channel and an account. -/
def Target.written (channel : String) (accountId : Option String) : Target :=
  ⟨channel, accountId, resolveAllowFromPath env channel accountId⟩

/-- The list of its own that is read for a channel and an account. -/
def Target.read (channel : String) (accountId : Option String) : Target :=
  ⟨channel, accountId,
    resolveAllowFromPath env channel (some (resolveAllowFromAccountId env accountId))⟩

/-- The lists that a step reads or writes. -/
def targets (s : State) : Action → List Target
  | .upsert .. => []
  | .list .. => []
  | .approve channel code accountId now _ =>
    match toApprove env s channel code accountId now with
    | none => []
    | some (_, entry) => [Target.written env channel (approvedAccountId accountId entry)]
  | .add channel _ accountId _ => [Target.written env channel accountId]
  | .remove channel _ accountId _ => [Target.written env channel accountId]
  | .read channel accountId =>
    Target.read env channel accountId ::
      if shouldIncludeLegacyAllowFromEntries (resolveAllowFromAccountId env accountId) then
        [Target.written env channel none]
      else []
  | .readLegacy channel => [Target.written env channel none]

/-- Are both names of files, and one? -/
def samePath : Except String String → Except String String → Bool
  | .ok path, .ok path' => path = path'
  | _, _ => false

/-- Is the list that of the channel and the account, up to trimming and case? -/
def Target.IsOf (target : Target) (channel account : String) : Prop :=
  target.channel = channel ∧
    normalizePairingAccountId env target.accountId = normalizePairingAccountId env (some account)

/-- The channel of which a step writes a request. -/
def requestsFor : Action → Option String
  | .upsert channel .. => some channel
  | _ => none

/-- The step uses the files of the channel and the account for no other pair: a list that has the
name of theirs is theirs, and a request that is put into the file of the channel is of the
channel. -/
def Apart (channel account : String) (s : State) (a : Action) : Prop :=
  (∀ target ∈ targets env s a,
    samePath target.path (Target.read env channel (some account)).path →
      target.IsOf env channel account) ∧
  ∀ channel' ∈ requestsFor a,
    samePath (resolvePairingPath env channel') (resolvePairingPath env channel) → channel' = channel

instance (target : Target) (channel account : String) : Decidable (target.IsOf env channel account) := by
  unfold Target.IsOf
  infer_instance

instance (channel account : String) (s : State) (a : Action) : Decidable (Apart env channel account s a) := by
  unfold Apart
  infer_instance

/-- The step is about the lists of other pairs. -/
def Elsewhere (channel account : String) (s : State) (a : Action) : Prop :=
  ∀ target ∈ targets env s a, ¬ target.IsOf env channel account

/-! ### The invariant -/

/-- The entry is what normalization makes of the id, when it is written and whenever it is read
again. -/
def IsEntryOf (channel id entry : String) : Prop :=
  ∃ n, (normalizeAllowEntry env channel)^[n + 1] id = entry

/-- The entry is of an id that was let in for the channel and the account. -/
def LetIn (channel account : String) (s : State) (entry : String) : Prop :=
  ∃ grant ∈ s.grants, (Target.written env grant.channel grant.accountId).IsOf env channel account ∧
    IsEntryOf env channel grant.id entry

/-- What holds after a run. -/
structure Inv (channel account : String) (s : State) : Prop where
  /-- The list of the account has ids that were let in for it. -/
  lists : ∀ path, (Target.read env channel (some account)).path = .ok path →
    HoldsAt (LetIn env channel account s) path s
  /-- The requests that wait were made for the channel. -/
  pending : ∀ path, resolvePairingPath env channel = .ok path →
    ∀ r ∈ readPairingRequests s path, ⟨channel, r⟩ ∈ s.requested
  /-- Each has a code of its own. -/
  coded : ∀ path, Coded (readPairingRequests s path)

variable {env} {channel account : String}

theorem keeps_letIn (s : State) : Keeps env channel (LetIn env channel account s) := by
  rintro entry ⟨grant, hgrant, hof, n, rfl⟩
  exact ⟨grant, hgrant, hof, n + 1, Function.iterate_succ_apply' _ _ _⟩

variable {s t : State}

theorem LetIn.mono (h : s.grants ⊆ t.grants) {entry : String}
    (hs : LetIn env channel account s entry) : LetIn env channel account t entry := by
  obtain ⟨grant, hgrant, hin⟩ := hs
  exact ⟨grant, h hgrant, hin⟩

/-- A list that is read where the names are apart is one of the account, or in another file. -/
theorem ne_or_isOf {target : Target} {path path' : String}
    (hread : (Target.read env channel (some account)).path = .ok path) (hpath : target.path = .ok path')
    (h : samePath target.path (Target.read env channel (some account)).path → target.IsOf env channel account) :
    path' ≠ path ∨ target.IsOf env channel account := by
  by_cases heq : path' = path
  · exact .inr (h (by rw [hread, hpath, heq]; exact decide_eq_true rfl))
  · exact .inl heq

section Lists

variable {J : String → Prop} {path : String}

/-- Reading a list keeps what the lists have. -/
theorem HoldsAt.readTarget (hJ : Keeps env channel J) {s : State}
    (h : HoldsAt J path s) {channel' path' : String} (hch : path' ≠ path ∨ channel' = channel) :
    HoldsAt J path (readAllowFromStateForPath env s channel' path').1 := by
  by_cases heq : path' = path
  · obtain rfl := heq
    obtain rfl := hch.resolve_left (absurd rfl)
    exact (h.read hJ).1
  · exact h.of_sameAt (sameAt_read heq s channel')

/-- Changing a list keeps what the lists have. -/
theorem HoldsAt.updateTarget (hJ : Keeps env channel J) {s : State}
    (h : HoldsAt J path s) {channel' entry : String} {accountId : Option String}
    {apply : List String → String → Option (List String)}
    (htarget : ∀ path', resolveAllowFromPath env channel' accountId = .ok path' → path' ≠ path ∨
      channel' = channel ∧ ∀ current next,
        apply current (normalizeAllowEntry env channel entry) = some next →
          ∀ e ∈ next, e ∈ current ∨ J e) (io : Io) :
    HoldsAt J path (updateAllowFromStoreEntry env s channel' entry accountId apply io).1 := by
  by_cases heq : resolveAllowFromPath env channel' accountId = .ok path
  · obtain ⟨rfl, happly⟩ := (htarget path heq).resolve_left (absurd rfl)
    exact h.update hJ heq happly io
  · refine h.of_sameAt (sameAt_update (fun path' hpath' => ?_) s entry apply io)
    rintro rfl
    exact heq hpath'

end Lists

/-! ### Steps -/

variable {P : State → Prop}

/-- What each read of a list keeps, reading the lists of an account keeps. -/
theorem readChannelAllowFromStore_invariant {s : State} (channel' : String)
    (accountId : Option String)
    (hstep : ∀ u, ∀ target ∈ targets env s (.read channel' accountId), ∀ path,
      target.path = .ok path → P u → P (readAllowFromStateForPath env u target.channel path).1)
    (hs : P s) : P (readChannelAllowFromStore env s channel' accountId).1 := by
  unfold readChannelAllowFromStore
  dsimp only
  split
  · exact hs
  · rename_i path hpath
    have hown := hstep s _ mem_cons_self path hpath hs
    split
    · rename_i hlegacy
      split
      · exact hown
      · rename_i legacyPath hlegacyPath
        refine hstep _ (Target.written env channel' none) ?_ legacyPath hlegacyPath hown
        rw [targets, if_pos hlegacy]
        exact mem_cons_of_mem _ mem_cons_self
    · exact hown

theorem readLegacyChannelAllowFromStore_invariant {s : State}
    (channel' : String)
    (hstep : ∀ path, resolveAllowFromPath env channel' none = .ok path →
      P (readAllowFromStateForPath env s channel' path).1)
    (hs : P s) : P (readLegacyChannelAllowFromStore env s channel').1 := by
  unfold readLegacyChannelAllowFromStore
  split
  · exact hs
  · rename_i path hpath
    exact hstep path hpath

variable {a : Action}

/-- A step leaves the files it is not about as they are. -/
theorem sameAt_next (henv : env.Lawful) {path : String} (hst : next env s a = some t)
    (hne : ∀ target ∈ targets env s a, target.path ≠ .ok path) : SameAt path s t := by
  have hother {target : Target} (htarget : target ∈ targets env s a) (path' : String)
      (hpath' : target.path = .ok path') : path' ≠ path := by
    rintro rfl
    exact hne target htarget hpath'
  cases a with
  | upsert channel' id accountId now attempts =>
    obtain rfl := some.inj hst
    obtain h | ⟨path', reqs, request, -, hr, -⟩ :=
      upsertChannelPairingRequest_cases henv s channel' id accountId now attempts
    · exact ⟨congrFun h.allowFrom path, congrFun h.cache path⟩
    · have h := thinned_ensureRequests s path'
      rw [hr]
      exact ⟨congrFun h.allowFrom path, congrFun h.cache path⟩
  | list channel' accountId now =>
    obtain rfl := some.inj hst
    have h := list_thinned env s channel' accountId now
    exact ⟨congrFun h.allowFrom path, congrFun h.cache path⟩
  | approve channel' code accountId now io =>
    obtain rfl := some.inj hst
    obtain ⟨-, h⟩ | ⟨path', i, entry, hentry, -, hr⟩ :=
      approveChannelPairingCode_cases env s channel' code accountId now io
    · exact ⟨congrFun h.allowFrom path, congrFun h.cache path⟩
    · have h := thinned_ensureRequests s path'
      rw [hr]
      refine SameAt.trans ⟨congrFun h.allowFrom path, congrFun h.cache path⟩ (sameAt_update ?_ _ _ _ _)
      have htarget : Target.written env channel' (approvedAccountId accountId entry) ∈
          targets env s (.approve channel' code accountId now io) := by
        simp only [targets, hentry, mem_singleton]
      exact hother htarget
  | add channel' entry accountId io =>
    obtain rfl := some.inj hst
    exact SameAt.trans ⟨rfl, rfl⟩ (sameAt_update (hother mem_cons_self) _ _ _ _)
  | remove channel' entry accountId io =>
    obtain rfl := some.inj hst
    exact sameAt_update (hother mem_cons_self) _ _ _ _
  | read channel' accountId =>
    obtain rfl := some.inj hst
    refine readChannelAllowFromStore_invariant channel' accountId
      (fun u target htarget path' hpath' hu => hu.trans ?_) (SameAt.refl path s)
    exact sameAt_read (hother htarget path' hpath') u target.channel
  | readLegacy channel' =>
    obtain rfl := some.inj hst
    exact readLegacyChannelAllowFromStore_invariant channel'
      (fun path' hpath' => sameAt_read (hother mem_cons_self path' hpath') s channel')
      (SameAt.refl path s)

theorem onlyLists_readChannel (env : PairingEnv) (s : State) (channel' : String) (accountId : Option String) :
    OnlyLists s (readChannelAllowFromStore env s channel' accountId).1 :=
  readChannelAllowFromStore_invariant channel' accountId
    (fun u target _ path _ hu => hu.trans (onlyLists_read u target.channel path)) (OnlyLists.refl s)

theorem onlyLists_readLegacy (env : PairingEnv) (s : State) (channel' : String) :
    OnlyLists s (readLegacyChannelAllowFromStore env s channel').1 :=
  readLegacyChannelAllowFromStore_invariant channel'
    (fun path _ => onlyLists_read s channel' path) (OnlyLists.refl s)

theorem grants_add (env : PairingEnv) (s : State) (channel' entry : String) (accountId : Option String) (io : Io) :
    (addChannelAllowFromStoreEntry env s channel' entry accountId io).1.grants =
      s.grants ++ [⟨channel', accountId, entry⟩] := (onlyLists_update _ _ _ _ _ _ io).grants

theorem requested_add (s : State) (channel' entry : String) (accountId : Option String) (io : Io) :
    (addChannelAllowFromStoreEntry env s channel' entry accountId io).1.requested = s.requested :=
  (onlyLists_update _ (record s ⟨channel', accountId, entry⟩) _ _ _ _ io).requested

theorem requests_add (s : State) (channel' entry : String) (accountId : Option String) (io : Io)
    (path : String) :
    readPairingRequests (addChannelAllowFromStoreEntry env s channel' entry accountId io).1 path =
      readPairingRequests s path :=
  (onlyLists_update _ (record s ⟨channel', accountId, entry⟩) _ _ _ _ io).requests path

/-- Who was let in stays on record. -/
theorem grants_next (henv : env.Lawful) (hst : next env s a = some t) : s.grants ⊆ t.grants := by
  have hsame {u : State} (h : u.grants = s.grants) : s.grants ⊆ u.grants := h ▸ List.Subset.refl _
  cases a with
  | upsert channel' id accountId now attempts =>
    obtain rfl := some.inj hst
    obtain h | ⟨path, reqs, request, -, hr, -⟩ :=
      upsertChannelPairingRequest_cases henv s channel' id accountId now attempts
    · exact hsame h.grants
    · rw [hr]
      exact hsame (thinned_ensureRequests s path).grants
  | list channel' accountId now =>
    obtain rfl := some.inj hst
    exact hsame (list_thinned _ s channel' accountId now).grants
  | approve channel' code accountId now io =>
    obtain rfl := some.inj hst
    obtain ⟨-, h⟩ | ⟨path, i, entry, -, -, hr⟩ :=
      approveChannelPairingCode_cases env s channel' code accountId now io
    · exact hsame h.grants
    · rw [hr, grants_add _]
      refine List.Subset.trans ?_ (subset_append_left _ _)
      exact hsame (u := writeRequests (ensureRequests s path) path _) (thinned_ensureRequests s path).grants
  | add channel' entry accountId io =>
    obtain rfl := some.inj hst
    rw [grants_add _]
    exact subset_append_left _ _
  | remove channel' entry accountId io =>
    obtain rfl := some.inj hst
    exact hsame (onlyLists_update _ s channel' entry accountId removeEntry io).grants
  | read channel' accountId =>
    obtain rfl := some.inj hst
    exact hsame (onlyLists_readChannel _ s channel' accountId).grants
  | readLegacy channel' =>
    obtain rfl := some.inj hst
    exact hsame (onlyLists_readLegacy _ s channel').grants

variable {accountId : Option String}

/-- An id that is added is let in. -/
theorem lists_add {path : String} (hread : (Target.read env channel (some account)).path = .ok path)
    {s : State} (h : HoldsAt (LetIn env channel account s) path s) {channel' entry : String}
    (io : Io)
    (hapart : samePath (Target.written env channel' accountId).path
        (Target.read env channel (some account)).path →
      (Target.written env channel' accountId).IsOf env channel account) :
    HoldsAt (LetIn env channel account
        (addChannelAllowFromStoreEntry env s channel' entry accountId io).1) path
      (addChannelAllowFromStoreEntry env s channel' entry accountId io).1 := by
  have hgrants := grants_add env s channel' entry accountId io
  have h' := h.mono fun e => LetIn.mono (hgrants ▸ subset_append_left _ _)
  refine HoldsAt.updateTarget (keeps_letIn _) (s := record s _) ⟨h'.content, h'.cached⟩
    (fun path' hpath' => (ne_or_isOf hread hpath' hapart).imp_right fun hof =>
      ⟨hof.1, fun current next happly e he => (mem_addEntry happly he).imp_right ?_⟩) io
  rintro rfl
  exact ⟨⟨channel', accountId, entry⟩, by simp [hgrants], hof, 0, rfl⟩

/-- What a step leaves on the list of the account was let in for it. -/
theorem lists_next (henv : env.Lawful) {path : String}
    (hread : (Target.read env channel (some account)).path = .ok path)
    (h : HoldsAt (LetIn env channel account s) path s) (hapart : Apart env channel account s a)
    (hst : next env s a = some t) : HoldsAt (LetIn env channel account t) path t := by
  have hof {target : Target} (htarget : target ∈ targets env s a) {path' : String}
      (hpath' : target.path = .ok path') : path' ≠ path ∨ target.IsOf env channel account :=
    ne_or_isOf hread hpath' (hapart.1 target htarget)
  have h' : HoldsAt (LetIn env channel account t) path s :=
    h.mono fun e => LetIn.mono (grants_next henv hst)
  cases a with
  | upsert channel' id accountId now attempts =>
    exact h'.of_sameAt (sameAt_next henv hst (by simp [targets]))
  | list channel' accountId now =>
    exact h'.of_sameAt (sameAt_next henv hst (by simp [targets]))
  | approve channel' code accountId now io =>
    obtain ⟨hnone, -⟩ | ⟨path', i, entry, hentry, -, hr⟩ :=
      approveChannelPairingCode_cases env s channel' code accountId now io
    · exact h'.of_sameAt (sameAt_next henv hst (by simp [targets, hnone]))
    · have hthin := thinned_ensureRequests s path'
      have hwritten : HoldsAt (LetIn env channel account s) path (writeRequests (ensureRequests s path') path'
            ((pruneExpiredRequests (readPairingRequests s path') now).1.eraseIdx i)) :=
        h.of_sameAt ⟨congrFun hthin.allowFrom path, congrFun hthin.cache path⟩
      obtain rfl := some.inj hst
      rw [hr]
      refine lists_add hread (hwritten.mono fun e => LetIn.mono ?_) io (hapart.1 _ ?_)
      · exact hthin.grants ▸ List.Subset.refl _
      · simp only [targets, hentry, mem_singleton]
  | add channel' entry accountId io =>
    obtain rfl := some.inj hst
    exact lists_add hread h io (hapart.1 _ mem_cons_self)
  | remove channel' entry accountId io =>
    obtain rfl := some.inj hst
    refine h'.updateTarget (keeps_letIn _) (fun path' hpath' =>
      (hof mem_cons_self hpath').imp_right fun hof => ⟨hof.1, fun current next happly e he => ?_⟩) io
    exact .inl (mem_removeEntry happly he)
  | read channel' accountId =>
    obtain rfl := some.inj hst
    exact readChannelAllowFromStore_invariant channel' accountId (fun u target htarget path' hpath' hu =>
      hu.readTarget (keeps_letIn _) ((hof htarget hpath').imp_right And.left)) h'
  | readLegacy channel' =>
    obtain rfl := some.inj hst
    exact readLegacyChannelAllowFromStore_invariant channel' (fun path' hpath' =>
      h'.readTarget (keeps_letIn _) ((hof mem_cons_self hpath').imp_right And.left)) h'

/-- What a step does to the requests: some are dropped, or one is put into the file of its
channel. -/
theorem requests_next (henv : env.Lawful) (hst : next env s a = some t) :
    (t.requested = s.requested ∧
      ∀ path, (readPairingRequests t path).Subperm (readPairingRequests s path)) ∨
    ∃ channel' path reqs request, requestsFor a = some channel' ∧
      resolvePairingPath env channel' = .ok path ∧
      t.requested = s.requested ++ [⟨channel', request⟩] ∧
      (∀ path', readPairingRequests t path' =
        if path' = path then reqs else readPairingRequests s path') ∧
      (∀ r ∈ reqs, r = request ∨ r ∈ readPairingRequests s path) ∧
      (Coded (readPairingRequests s path) → Coded reqs) := by
  have honly {u : State} (h : OnlyLists s u) (path : String) :
      (readPairingRequests u path).Subperm (readPairingRequests s path) := by
    rw [h.requests]
  cases a with
  | upsert channel' id accountId now attempts =>
    obtain rfl := some.inj hst
    obtain h | ⟨path, reqs, request, hpath, hr, hreqs, hcoded⟩ :=
      upsertChannelPairingRequest_cases henv s channel' id accountId now attempts
    · exact .inl ⟨h.requested, h.requests⟩
    · refine .inr ⟨channel', path, reqs, request, rfl, hpath, ?_, fun path' => ?_, hreqs, hcoded⟩
      · rw [hr, upserted, (thinned_ensureRequests s path).requested]
      · rw [hr]
        exact (readPairingRequests_writeRequests _ path path' reqs).trans
          (by rw [readPairingRequests_ensureRequests])
  | list channel' accountId now =>
    obtain rfl := some.inj hst
    have h := list_thinned env s channel' accountId now
    exact .inl ⟨h.requested, h.requests⟩
  | approve channel' code accountId now io =>
    obtain rfl := some.inj hst
    obtain ⟨-, h⟩ | ⟨path, i, entry, -, -, hr⟩ :=
      approveChannelPairingCode_cases env s channel' code accountId now io
    · exact .inl ⟨h.requested, h.requests⟩
    · have h := @Thinned.writeRequests _ _ (thinned_ensureRequests s path) path
        ((pruneExpiredRequests (readPairingRequests s path) now).1.eraseIdx i)
        ((eraseIdx_sublist _ i).trans (pruneExpiredRequests_sublist _ now)).subperm
      refine .inl ⟨?_, fun path' => ?_⟩
      · rw [hr, requested_add]
        exact h.requested
      · rw [hr, requests_add]
        exact h.requests path'
  | add channel' entry accountId io =>
    obtain rfl := some.inj hst
    refine .inl ⟨requested_add s channel' entry accountId io, fun path => ?_⟩
    rw [requests_add]
  | remove channel' entry accountId io =>
    obtain rfl := some.inj hst
    have h := onlyLists_update env s channel' entry accountId removeEntry io
    exact .inl ⟨h.requested, honly h⟩
  | read channel' accountId =>
    obtain rfl := some.inj hst
    have h := onlyLists_readChannel env s channel' accountId
    exact .inl ⟨h.requested, honly h⟩
  | readLegacy channel' =>
    obtain rfl := some.inj hst
    have h := onlyLists_readLegacy env s channel'
    exact .inl ⟨h.requested, honly h⟩

theorem Inv.init : Inv env channel account State.init :=
  ⟨fun _ _ => ⟨by simp [State.init, State.content], by simp [State.init]⟩,
    by simp [State.init, readPairingRequests], fun _ => Coded.nil⟩

/-- A step whose names are apart keeps the invariant. -/
theorem Inv.next (henv : env.Lawful) (h : Inv env channel account s)
    (hapart : Apart env channel account s a) (hst : next env s a = some t) : Inv env channel account t := by
  have hlists path (hpath : (Target.read env channel (some account)).path = .ok path) :=
    lists_next henv hpath (h.lists path hpath) hapart hst
  obtain ⟨hrequested, hsub⟩ | ⟨channel', path, reqs, request, hfor, hpath, hrequested, hread, hreqs, hcoded⟩ :=
    requests_next henv hst
  · refine ⟨hlists, fun path hpath r hr => ?_, fun path => (h.coded path).subperm (hsub path)⟩
    rw [hrequested]
    exact h.pending path hpath r ((hsub path).subset hr)
  · refine ⟨hlists, fun path' hpath' r hr => ?_, fun path' => ?_⟩
    · rw [hrequested]
      have hold (hr : r ∈ readPairingRequests s path') :
          ⟨channel, r⟩ ∈ s.requested ++ [⟨channel', request⟩] :=
        mem_append_left _ (h.pending path' hpath' r hr)
      rw [hread] at hr
      split at hr
      · rename_i heq
        obtain rfl : channel' = channel := hapart.2 channel' hfor (by
          rw [hpath, hpath', heq]
          exact decide_eq_true rfl)
        rcases hreqs r hr with rfl | hr
        · exact mem_append_right _ mem_cons_self
        · exact hold (heq ▸ hr)
      · exact hold hr
    · rw [hread]
      split
      · exact hcoded (h.coded path)
      · exact h.coded path'

/-! ### The account -/

/-- What approving a code does: the one request that waits with the code, made for the channel and
not expired, is taken, and its id is let in for its account. -/
structure Approval (env : PairingEnv) (channel code : String) (now : ℤ) (s t : State)
    (path : String) (r : PairingRequest) (accountId : Option String) : Prop where
  path_eq : resolvePairingPath env channel = .ok path
  waits : r ∈ readPairingRequests s path
  asked : ⟨channel, r⟩ ∈ s.requested
  carries : env.toUpperCase r.code = env.toUpperCase (trimString code)
  /-- No other does. -/
  only : ∀ r' ∈ readPairingRequests s path,
    env.toUpperCase r'.code = env.toUpperCase (trimString code) → r' = r
  fresh : isExpired r now = false
  /-- The account is that of the request. -/
  account_eq : normalizePairingAccountId env accountId = normalizePairingAccountId env (some r.accountId)
  grants_eq : t.grants = s.grants ++ [⟨channel, accountId, r.id⟩]
  taken : r ∉ readPairingRequests t path

/-- What `approveChannelPairingCode` does after a run. -/
theorem approval_of_approve (henv : env.Lawful) (h : Inv env channel account s) {code : String} {now : ℤ}
    {io : Io} (hst : next env s (.approve channel code accountId now io) = some t) :
    t.grants = s.grants ∨ ∃ path r accountId', Approval env channel code now s t path r accountId' := by
  obtain rfl := some.inj hst
  obtain ⟨-, hthin⟩ | ⟨path, i, r, hr, hpath, ht⟩ :=
    approveChannelPairingCode_cases env s channel code accountId now io
  · exact .inl hthin.grants
  · obtain ⟨hi, hget, hcarries, haccount, hfresh⟩ := mem_of_toApprove hpath hr
    have hsub := pruneExpiredRequests_sublist (readPairingRequests s path) now
    have hcoded := h.coded path
    have hmem : r ∈ readPairingRequests s path := hsub.subset (hget ▸ getElem_mem hi)
    have hupper {r' : PairingRequest} (hr' : r' ∈ readPairingRequests s path) :
        env.toUpperCase r'.code = r'.code := by
      obtain ⟨indices, hcode⟩ := hcoded.random r' hr'
      rw [hcode, henv.toUpperCase_randomCode]
    have hthin := thinned_ensureRequests s path
    refine .inr ⟨path, r, approvedAccountId accountId r, hpath, hmem, h.pending path hpath r hmem, hcarries,
      fun r' hr' hcarries' => ?_, hfresh, normalize_approvedAccountId henv haccount, ?_, ?_⟩
    · refine hcoded.eq_of_code_eq hr' hmem ?_
      rw [← hupper hr', ← hupper hmem, hcarries, hcarries']
    · rw [ht, grants_add _]
      exact congrArg (· ++ _) hthin.grants
    · rw [ht, requests_add, readPairingRequests_writeRequests, if_pos rfl]
      intro hstill
      obtain ⟨j, hj, hget'⟩ := mem_eraseIdx_iff_getElem?.mp hstill
      have hnodup := (hcoded.subperm hsub.subperm).nodup.of_map
      obtain ⟨hjlt, hget'⟩ := List.getElem?_eq_some_iff.mp hget'
      exact hj ((hnodup.getElem_inj_iff).mp (hget'.trans hget.symm))

/-- Accounts other than the default one are isolated. In a run that uses the files of a channel and
an account for no other pair, what is read for the account was let in for it; a step about the
lists of other pairs does not change what is read; and a code approves the one request that carries
it, for the account of the request, before it expires. -/
theorem accounts_isolated (henv : env.Lawful)
    (hnondefault : shouldIncludeLegacyAllowFromEntries (resolveAllowFromAccountId env (some account)) = false)
    {as : List Action} {s : State} (hs : exec (Pairing.next env) State.init as = some s)
    (hapart : Meets (Pairing.next env) (Apart env channel account) State.init as) :
    (∀ entries, (readChannelAllowFromStore env s channel (some account)).2 = .ok entries →
      ∀ entry ∈ entries, LetIn env channel account s entry) ∧
    (∀ a t, Pairing.next env s a = some t → Apart env channel account s a →
      Elsewhere env channel account s a →
      (readChannelAllowFromStore env t channel (some account)).2 =
        (readChannelAllowFromStore env s channel (some account)).2) ∧
    ∀ code accountId now io t, Pairing.next env s (.approve channel code accountId now io) = some t →
      t.grants = s.grants ∨ ∃ path r accountId', Approval env channel code now s t path r accountId' := by
  have hinv : Inv env channel account s :=
    exec_invariant_of_meets (fun _ _ _ h ha hst => h.next henv ha hst) hapart Inv.init hs
  have hown (u : State) : (readChannelAllowFromStore env u channel (some account)).2 =
      (Target.read env channel (some account)).path.map
        fun path => (readAllowFromStateForPath env u channel path).2 := by
    unfold readChannelAllowFromStore Target.read
    dsimp only
    cases resolveAllowFromPath env channel (some (resolveAllowFromAccountId env (some account))) with
    | error e => rfl
    | ok path => simp [hnondefault, Except.map]
  refine ⟨fun entries hentries entry hentry => ?_, fun a t hst hapart helse => ?_,
    fun code accountId now io t => approval_of_approve henv hinv⟩
  · rw [hown] at hentries
    cases hpath : (Target.read env channel (some account)).path with
    | error e => simp [hpath, Except.map] at hentries
    | ok path =>
      obtain rfl := Except.ok.inj ((hpath ▸ hentries : _ = Except.ok entries))
      exact ((hinv.lists path hpath).read (keeps_letIn s)).2 entry hentry
  · rw [hown, hown]
    cases hpath : (Target.read env channel (some account)).path with
    | error e => rfl
    | ok path =>
      have hsame : SameAt path s t := sameAt_next henv hst fun target htarget heq =>
        helse target htarget (hapart.1 target htarget (by
          rw [hpath, heq]
          exact decide_eq_true rfl))
      exact congrArg Except.ok (read_eq_of_sameAt hsame channel)

/-! ### Two accounts with one file -/

/-- The case conversions, on the letters of ASCII; a channel without an adapter. -/
def asciiEnv : PairingEnv where
  toLowerCase x := String.ofList (x.toList.map Char.toLower)
  toUpperCase x := String.ofList (x.toList.map Char.toUpper)
  adapterNormalize _ entry := entry

theorem asciiEnv_lawful : asciiEnv.Lawful where
  toLowerCase_eq_empty x := by
    rw [asciiEnv, ← String.toList_inj]
    simp
  toUpperCase_randomCode indices := by
    have hupper : ∀ c ∈ PAIRING_CODE_ALPHABET, c.toUpper = c := Text.forall_mem_of_all (by decide)
    refine congrArg String.ofList ?_
    rw [randomCode, String.toList_ofList, map_ofFn]
    exact congrArg List.ofFn (funext fun i => hupper _ (List.get_mem ..))

/-- A file that is written at time 1. -/
def someIo : Io := ⟨(0, 24), (1, 30), true⟩

/-- The numbers of the code of eight A. -/
def firstIndices : Indices := fun _ => ⟨0, by decide⟩

/-- An id is added for the account `a/b`, and read for the account `a_b`, for which nothing was let
in. -/
theorem accounts_share_file :
    ∃ s, exec (Pairing.next asciiEnv) State.init [.add "telegram" "u1" (some "a/b") someIo] = some s ∧
      (readChannelAllowFromStore asciiEnv s "telegram" (some "a_b")).2 = .ok ["u1"] ∧
      ∀ entry, ¬ LetIn asciiEnv "telegram" "a_b" s entry := by
  refine ⟨_, rfl, by decide +kernel, ?_⟩
  rintro entry ⟨grant, hgrant, hof, -⟩
  rw [grants_add _] at hgrant
  obtain rfl := mem_singleton.mp hgrant
  exact absurd hof.2 (by decide +kernel)

/-- A request for an account, an id for the default one, and the approval of the request. -/
def approvedRun : List Action :=
  [.upsert "telegram" "u1" "Work" 1 [firstIndices], .add "telegram" "u2" none someIo,
    .approve "telegram" "aaaaaaaa" none 2 someIo]

/-- The id that was approved is read, the other is not. -/
theorem accounts_isolated_approved :
    ∃ s, exec (Pairing.next asciiEnv) State.init approvedRun = some s ∧
      (readChannelAllowFromStore asciiEnv s "telegram" (some "work")).2 = .ok ["u1"] ∧
      LetIn asciiEnv "telegram" "work" s "u1" := by
  have hread : (exec (Pairing.next asciiEnv) State.init approvedRun).map
      (fun s => (readChannelAllowFromStore asciiEnv s "telegram" (some "work")).2) =
        some (.ok ["u1"]) := by decide +kernel
  obtain ⟨s, hs, hread⟩ := map_eq_some_iff.mp hread
  have hnondefault : shouldIncludeLegacyAllowFromEntries
      (resolveAllowFromAccountId asciiEnv (some "work")) = false := by decide +kernel
  have hapart : Meets (Pairing.next asciiEnv) (Apart asciiEnv "telegram" "work") State.init
      approvedRun := by decide +kernel
  have hisolated := accounts_isolated asciiEnv_lawful hnondefault hs hapart
  exact ⟨s, hs, hread, hisolated.1 _ hread "u1" (by simp)⟩

end Foxclaw.Pairing
