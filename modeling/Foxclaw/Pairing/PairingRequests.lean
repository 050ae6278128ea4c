import Foxclaw.Pairing.PairingStore
import Mathlib.Data.List.Perm.Subperm

/-!
# The requests of a pairing file

What an operation does to the requests that wait: it drops some (`Thinned`), or writes the one that
it was called with, or takes the one that carries the code.

## What is proved

* `list_thinned`, `upsertChannelPairingRequest_cases`, `approveChannelPairingCode_cases` — what
  the operations on requests can do; `toApprove` is the request that a code approves.
* `Coded.set`, `Coded.concat`, `Coded.subperm` — no two requests of a file carry one code.
-/

namespace Foxclaw.Pairing

open List Option
open Foxclaw.Text (trim trimString isSpace)

/-- What the store relies on of the language. -/
structure PairingEnv.Lawful (env : PairingEnv) : Prop where
  /-- Only the empty text becomes empty. -/
  toLowerCase_eq_empty : ∀ x, env.toLowerCase x = "" ↔ x = ""
  toUpperCase_randomCode : ∀ indices, env.toUpperCase (randomCode indices) = randomCode indices

variable {env : PairingEnv}

/-! ### Codes -/

theorem mem_alphabet_not_isSpace : ∀ c ∈ PAIRING_CODE_ALPHABET, isSpace c = false :=
  Text.forall_mem_of_all (by decide)

theorem trimString_randomCode (indices : Indices) : trimString (randomCode indices) = randomCode indices := by
  have hspace : ∀ c ∈ List.ofFn fun i => PAIRING_CODE_ALPHABET.get (indices i), ¬ isSpace c := by
    intro c hc
    obtain ⟨i, rfl⟩ := (mem_ofFn' _ c).mp hc
    rw [mem_alphabet_not_isSpace _ (List.get_mem ..)]
    exact Bool.false_ne_true
  rw [randomCode, trimString, String.toList_ofList, trim, Text.trimStart, Text.trimEnd,
    dropWhile_eq_self_iff.mpr fun hl => hspace _ (getElem_mem hl),
    rdropWhile_eq_self_iff.mpr fun hl => hspace _ (getLast_mem hl)]

theorem randomCode_ne_empty (indices : Indices) : randomCode indices ≠ "" := by
  intro h
  have hlen := congrArg (fun s => s.toList.length) h
  simp [randomCode, PAIRING_CODE_LENGTH] at hlen

theorem generateUniqueCode_ok {existing : List String} {attempts : List Indices}
    {code : String} (h : generateUniqueCode existing attempts = .ok code) :
    code ∉ existing ∧ ∃ indices, code = randomCode indices := by
  unfold generateUniqueCode at h
  split at h
  · rename_i code' hfind
    obtain rfl := Except.ok.inj h
    obtain ⟨indices, -, hcode⟩ := List.mem_map.mp (mem_of_find?_eq_some hfind)
    exact ⟨by simpa using find?_some hfind, indices, hcode.symm⟩
  · cases h

/-- Each request has a code of its own. -/
structure Coded (reqs : List PairingRequest) : Prop where
  /-- No two codes are one. -/
  nodup : (reqs.map (·.code)).Nodup
  /-- The codes are those of `randomCode`. -/
  random : ∀ r ∈ reqs, ∃ indices, r.code = randomCode indices

theorem Coded.nil : Coded [] := ⟨nodup_nil, by simp⟩

theorem Coded.subperm {reqs reqs' : List PairingRequest} (h : Coded reqs)
    (hsub : reqs'.Subperm reqs) : Coded reqs' := by
  refine ⟨?_, fun r hr => h.random r (hsub.subset hr)⟩
  obtain ⟨l, hperm, hl⟩ := hsub
  exact ((hperm.map _).nodup_iff).mp ((hl.map _).nodup h.nodup)

theorem Coded.eq_of_code_eq {reqs : List PairingRequest} (h : Coded reqs) {r r' : PairingRequest}
    (hr : r ∈ reqs) (hr' : r' ∈ reqs) (hcode : r.code = r'.code) : r = r' :=
  inj_on_of_nodup_map h.nodup hr hr' hcode

theorem Coded.existingCodes (henv : env.Lawful) {reqs : List PairingRequest} (h : Coded reqs) :
    existingCodes env reqs = reqs.map (·.code) := by
  refine map_congr_left fun r hr => ?_
  obtain ⟨indices, hcode⟩ := h.random r hr
  rw [hcode, trimString_randomCode, henv.toUpperCase_randomCode]

theorem Coded.concat (henv : env.Lawful) {reqs reqs' : List PairingRequest} (h : Coded reqs)
    (hsub : reqs'.Subperm reqs) {attempts : List Indices} {request : PairingRequest}
    (hcode : generateUniqueCode (Pairing.existingCodes env reqs) attempts = .ok request.code) :
    Coded (reqs' ++ [request]) := by
  obtain ⟨hnew, hrandom⟩ := generateUniqueCode_ok hcode
  rw [h.existingCodes henv] at hnew
  have h' := h.subperm hsub
  refine ⟨?_, ?_⟩
  · rw [map_append, map_cons, map_nil, ← concat_eq_append, nodup_concat]
    exact ⟨fun hmem => hnew (map_subset _ hsub.subset hmem), h'.nodup⟩
  · intro r hr
    rcases mem_append.mp hr with hr | hr
    · exact h'.random r hr
    · exact mem_singleton.mp hr ▸ hrandom

theorem Coded.set {reqs : List PairingRequest} (h : Coded reqs) {i : ℕ} (hi : i < reqs.length)
    {request : PairingRequest} (hcode : request.code = reqs[i].code) : Coded (reqs.set i request) := by
  refine ⟨?_, fun r hr => ?_⟩
  · have hmap : (reqs.set i request).map (·.code) = reqs.map (·.code) := by
      rw [map_set, hcode, ← getElem_map (fun r : PairingRequest => r.code), set_getElem_self]
      simpa using hi
    rw [hmap]
    exact h.nodup
  · rcases mem_or_eq_of_mem_set hr with hr | rfl
    · exact h.random r hr
    · exact hcode ▸ h.random _ (getElem_mem hi)

/-! ### What the operations do -/

/-- Requests were dropped, and nothing else happened. -/
structure Thinned (s t : State) : Prop where
  allowFrom : t.allowFrom = s.allowFrom
  cache : t.cache = s.cache
  requested : t.requested = s.requested
  grants : t.grants = s.grants
  requests : ∀ path, (readPairingRequests t path).Subperm (readPairingRequests s path)

theorem Thinned.refl (s : State) : Thinned s s := ⟨rfl, rfl, rfl, rfl, fun _ => List.Subperm.refl _⟩

@[simp] theorem readPairingRequests_writeRequests (s : State) (path path' : String)
    (reqs : List PairingRequest) : readPairingRequests (writeRequests s path reqs) path' =
      if path' = path then reqs else readPairingRequests s path' := by
  unfold readPairingRequests writeRequests
  by_cases h : path' = path <;> simp [h]

@[simp] theorem readPairingRequests_ensureRequests (s : State) (path path' : String) :
    readPairingRequests (ensureRequests s path) path' = readPairingRequests s path' := by
  unfold ensureRequests
  split
  · rfl
  · rename_i hnone
    rw [readPairingRequests_writeRequests]
    split
    · rename_i heq
      simp [readPairingRequests, heq, not_isSome_iff_eq_none.mp hnone]
    · rfl

theorem thinned_ensureRequests (s : State) (path : String) : Thinned s (ensureRequests s path) := by
  have hrequests path' : (readPairingRequests (ensureRequests s path) path').Subperm
      (readPairingRequests s path') := by
    rw [readPairingRequests_ensureRequests]
  unfold ensureRequests at hrequests ⊢
  split
  · exact Thinned.refl s
  · rename_i hnone
    exact ⟨rfl, rfl, rfl, rfl, by simpa [hnone] using hrequests⟩

/-- Some of the requests of a file are written back. -/
theorem Thinned.writeRequests {s t : State} (h : Thinned s t) {path : String} {reqs : List PairingRequest}
    (hreqs : reqs.Subperm (readPairingRequests s path)) : Thinned s (writeRequests t path reqs) := by
  refine ⟨h.allowFrom, h.cache, h.requested, h.grants, fun path' => ?_⟩
  rw [readPairingRequests_writeRequests]
  split
  · rename_i heq
    exact heq ▸ hreqs
  · exact h.requests path'

theorem pruneExpiredRequests_sublist (reqs : List PairingRequest) (nowMs : ℤ) :
    (pruneExpiredRequests reqs nowMs).1.Sublist reqs := filter_sublist

theorem pruneExcessRequests_subperm (reqs : List PairingRequest) (maxPending : ℕ) :
    (pruneExcessRequests reqs maxPending).1.Subperm reqs := by
  unfold pruneExcessRequests
  split
  · exact List.Subperm.refl _
  · exact (drop_sublist _ _).subperm.trans (perm_insertionSort _ reqs).subperm

theorem list_thinned (env : PairingEnv) (s : State) (channel : String) (accountId : Option String) (now : ℤ) :
    Thinned s (listChannelPairingRequests env s channel accountId now).1 := by
  unfold listChannelPairingRequests
  split
  · exact Thinned.refl s
  · rename_i path hpath
    dsimp only
    split
    · refine (thinned_ensureRequests s path).writeRequests ?_
      rw [readPairingRequests_ensureRequests]
      exact (pruneExcessRequests_subperm _ _).trans (pruneExpiredRequests_sublist _ now).subperm
    · exact thinned_ensureRequests s path

/-- What upserting a request can do: requests are dropped, or the request is written. -/
theorem upsertChannelPairingRequest_cases (henv : env.Lawful) (s : State)
    (channel id accountId : String) (now : ℤ) (attempts : List Indices) :
    Thinned s (upsertChannelPairingRequest env s channel id accountId now attempts).1 ∨
    ∃ path reqs next, resolvePairingPath env channel = .ok path ∧
      (upsertChannelPairingRequest env s channel id accountId now attempts).1 =
        upserted (ensureRequests s path) channel path reqs next ∧
      (∀ r ∈ reqs, r = next ∨ r ∈ readPairingRequests s path) ∧
      (Coded (readPairingRequests s path) → Coded reqs) := by
  unfold upsertChannelPairingRequest
  split
  · exact .inl (Thinned.refl s)
  · rename_i path hpath
    dsimp only
    rw [readPairingRequests_ensureRequests]
    have hsub := pruneExpiredRequests_sublist (readPairingRequests s path) now
    generalize (pruneExpiredRequests (readPairingRequests s path) now).1 = reqs at hsub ⊢
    have hensure := thinned_ensureRequests s path
    split
    · rename_i i hfind
      have hi : i < reqs.length := (findIdx?_eq_some_iff_findIdx_eq.mp hfind).1
      split
      · exact .inl hensure
      · rename_i code hcode
        refine .inr ⟨path, _, _, hpath, rfl, fun r hr => ?_, fun h => ?_⟩
        · rcases mem_or_eq_of_mem_set ((pruneExcessRequests_subperm _ _).subset hr) with hr | rfl
          · exact .inr (hsub.subset hr)
          · exact .inl rfl
        · have hreqs := h.subperm hsub.subperm
          refine (hreqs.set hi ?_).subperm (pruneExcessRequests_subperm _ _)
          obtain ⟨indices, hrandom⟩ := hreqs.random _ (getElem_mem hi)
          simpa [getElem?_eq_getElem hi, hrandom, trimString_randomCode, randomCode_ne_empty] using hcode.symm
    · have hcapped := (pruneExcessRequests_subperm reqs PAIRING_PENDING_MAX)
      split
      · refine .inl ?_
        split
        · exact hensure.writeRequests (hcapped.trans hsub.subperm)
        · exact hensure
      · split
        · exact .inl hensure
        · rename_i code hcode
          refine .inr ⟨path, _, _, hpath, rfl, fun r hr => ?_, fun h => ?_⟩
          · rcases mem_append.mp hr with hr | hr
            · exact .inr (hsub.subset (hcapped.subset hr))
            · exact .inl (mem_singleton.mp hr)
          · exact (h.subperm hsub.subperm).concat henv hcapped hcode

/-- The request that a code approves, and its place. -/
def toApprove (env : PairingEnv) (s : State) (channel code : String) (accountId : Option String)
    (now : ℤ) : Option (ℕ × PairingRequest) :=
  if env.toUpperCase (trimString code) = "" then none
  else match resolvePairingPath env channel with
    | .error _ => none
    | .ok path =>
      findRequest env (pruneExpiredRequests (readPairingRequests s path) now).1
        (env.toUpperCase (trimString code)) (normalizePairingAccountId env accountId)

/-- What approving a code can do: requests are dropped, or one of them is taken and its id added to
the allow list. -/
theorem approveChannelPairingCode_cases (env : PairingEnv) (s : State) (channel code : String)
    (accountId : Option String) (now : ℤ) (io : Io) :
    (toApprove env s channel code accountId now = none ∧
      Thinned s (approveChannelPairingCode env s channel code accountId now io).1) ∨
    ∃ path i entry, toApprove env s channel code accountId now = some (i, entry) ∧
      resolvePairingPath env channel = .ok path ∧
      (approveChannelPairingCode env s channel code accountId now io).1 =
        (addChannelAllowFromStoreEntry env (writeRequests (ensureRequests s path) path
          ((pruneExpiredRequests (readPairingRequests s path) now).1.eraseIdx i)) channel entry.id
          (approvedAccountId accountId entry) io).1 := by
  unfold approveChannelPairingCode toApprove
  dsimp only
  split
  · exact .inl ⟨rfl, Thinned.refl s⟩
  · cases hpath : resolvePairingPath env channel with
    | error e => exact .inl ⟨rfl, Thinned.refl s⟩
    | ok path =>
      dsimp only
      rw [readPairingRequests_ensureRequests]
      split
      · rename_i hfind
        refine .inl ⟨hfind, ?_⟩
        split
        · exact (thinned_ensureRequests s path).writeRequests (pruneExpiredRequests_sublist _ now).subperm
        · exact thinned_ensureRequests s path
      · rename_i i entry hfind
        exact .inr ⟨path, i, entry, hfind, rfl, rfl⟩

/-- The request that a code approves carries it, is of the account and has not expired. -/
theorem mem_of_toApprove {s : State} {channel code : String} {accountId : Option String} {now : ℤ}
    {path : String} (hpath : resolvePairingPath env channel = .ok path) {i : ℕ}
    {entry : PairingRequest} (h : toApprove env s channel code accountId now = some (i, entry)) :
    ∃ hi : i < (pruneExpiredRequests (readPairingRequests s path) now).1.length,
      (pruneExpiredRequests (readPairingRequests s path) now).1[i] = entry ∧
      env.toUpperCase entry.code = env.toUpperCase (trimString code) ∧
      requestMatchesAccountId env entry (normalizePairingAccountId env accountId) ∧
      isExpired entry now = false := by
  obtain ⟨-, h⟩ := ite_none_left_eq_some.mp h
  simp only [hpath, findRequest] at h
  obtain ⟨j, hfind, hj⟩ := bind_eq_some_iff.mp h
  obtain ⟨entry', hentry, heq⟩ := map_eq_some_iff.mp hj
  obtain ⟨rfl, rfl⟩ := Prod.mk.inj heq
  obtain ⟨hi, hentry⟩ := List.getElem?_eq_some_iff.mp hentry
  have hmatch := findIdx?_eq_some_iff_getElem.mp hfind
  obtain ⟨hi', hmatch, -⟩ := hmatch
  rw [hentry] at hmatch
  have hmem : entry' ∈ (pruneExpiredRequests (readPairingRequests s path) now).1 :=
    hentry ▸ getElem_mem hi
  have hexpired := (mem_filter.mp hmem).2
  simp only [Bool.and_eq_true, decide_eq_true_eq, Bool.not_eq_true'] at hmatch hexpired
  exact ⟨hi, hentry, hmatch.1, hmatch.2, hexpired⟩

/-- The account for which a request is approved is that of the request. -/
theorem normalize_approvedAccountId (henv : env.Lawful) {accountId : Option String} {entry : PairingRequest}
    (h : requestMatchesAccountId env entry (normalizePairingAccountId env accountId)) :
    normalizePairingAccountId env (approvedAccountId accountId entry) =
      normalizePairingAccountId env (some entry.accountId) := by
  have hentry : normalizePairingAccountId env ((some (trimString entry.accountId)).filter (· ≠ "")) =
      normalizePairingAccountId env (some entry.accountId) := by
    by_cases hblank : trimString entry.accountId = ""
    · simp [normalizePairingAccountId, hblank, Option.filter, (henv.toLowerCase_eq_empty "").mpr rfl]
    · simp [normalizePairingAccountId, hblank, Option.filter, Text.trimString_trimString]
  cases accountId with
  | none => simpa only [approvedAccountId, map_none, filter_none, none_or] using hentry
  | some a =>
    by_cases hblank : trimString a = ""
    · simpa [approvedAccountId, Option.filter, hblank] using hentry
    · have hne : env.toLowerCase (trimString a) ≠ "" := fun h => hblank ((henv.toLowerCase_eq_empty _).mp h)
      simp only [requestMatchesAccountId, normalizePairingAccountId, map_some,
        getD_some, hne, Bool.or_eq_true, decide_eq_true_eq, false_or] at h
      simpa [approvedAccountId, Option.filter, hblank, normalizePairingAccountId,
        Text.trimString_trimString] using (of_decide_eq_true h).symm

end Foxclaw.Pairing
