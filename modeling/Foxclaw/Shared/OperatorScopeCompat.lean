import Foxclaw.Lib.Text
import Mathlib.Data.List.Lex
import Mathlib.Data.List.Sort

/-!
# Scopes of a role

This module models `shared/operator-scope-compat.ts`, with `normalizeDeviceAuthScopes` of
`shared/device-auth.ts`: which scopes allow which for a role.

## What is proved

* `roleScopesAllow_iff` — each requested scope is granted.
* `roleScopesAllow_trans` — what is allowed by allowed scopes is allowed.
* `roleScopesAllow_mono` — more scopes allow more.
-/

namespace Foxclaw.Shared

open Text List

def OPERATOR_ROLE : String := "operator"

def OPERATOR_ADMIN_SCOPE : String := "operator.admin"

def OPERATOR_READ_SCOPE : String := "operator.read"

def OPERATOR_WRITE_SCOPE : String := "operator.write"

def OPERATOR_SCOPE_PREFIX : String := "operator."

/-- `normalizeScopeList`: the scopes trimmed, without blank ones, each once. -/
def normalizeScopeList (scopes : List String) : List String :=
  ((scopes.map trimString).filter (· ≠ "")).eraseDups

def codeUnits (s : String) : List ℕ :=
  s.toList.flatMap fun c =>
    let n := c.toNat
    if n < 0x10000 then [n] else [0xD800 + (n - 0x10000) / 0x400, 0xDC00 + (n - 0x10000) % 0x400]

/-- `normalizeDeviceAuthScopes`: the same, sorted by code units. -/
def normalizeDeviceAuthScopes (scopes : Option (List String)) : List String :=
  match scopes with
  | none => []
  | some scopes => (normalizeScopeList scopes).insertionSort fun a b => codeUnits a ≤ codeUnits b

def operatorScopeSatisfied (requestedScope : String) (granted : List String) : Bool :=
  if OPERATOR_ADMIN_SCOPE ∈ granted ∧
      OPERATOR_SCOPE_PREFIX.toList.isPrefixOf requestedScope.toList = true then true
  else if requestedScope = OPERATOR_READ_SCOPE then
    OPERATOR_READ_SCOPE ∈ granted ∨ OPERATOR_WRITE_SCOPE ∈ granted
  else if requestedScope = OPERATOR_WRITE_SCOPE then OPERATOR_WRITE_SCOPE ∈ granted
  else requestedScope ∈ granted

def roleScopesAllow (role : String) (requestedScopes allowedScopes : List String) : Bool :=
  let requested := normalizeScopeList requestedScopes
  if requested = [] then true
  else
    let allowed := normalizeScopeList allowedScopes
    if allowed = [] then false
    else if trimString role ≠ OPERATOR_ROLE then requested.all fun scope => scope ∈ allowed
    else requested.all fun scope => operatorScopeSatisfied scope allowed

/-! ### Normalized lists -/

variable {scope : String}

theorem mem_normalizeScopeList {scopes : List String} :
    scope ∈ normalizeScopeList scopes ↔ scope ≠ "" ∧ ∃ s ∈ scopes, trimString s = scope := by
  rw [normalizeScopeList, mem_eraseDups, mem_filter, List.mem_map, decide_eq_true_eq]
  exact And.comm

variable {scopes scopes' : List String}

theorem mem_normalizeScopeList_append :
    scope ∈ normalizeScopeList (scopes ++ scopes') ↔
      scope ∈ normalizeScopeList scopes ∨ scope ∈ normalizeScopeList scopes' := by
  rw [mem_normalizeScopeList, mem_normalizeScopeList, mem_normalizeScopeList, ← and_or_left]
  refine and_congr_right fun _ => ?_
  simp only [mem_append, or_and_right, exists_or]

/-- A list that has the members of a normalized one has the same when normalized again. -/
theorem mem_normalizeScopeList_of_mem_iff (h : ∀ scope, scope ∈ scopes' ↔ scope ∈ normalizeScopeList scopes)
    (scope : String) : scope ∈ normalizeScopeList scopes' ↔ scope ∈ normalizeScopeList scopes := by
  rw [mem_normalizeScopeList, mem_normalizeScopeList]
  refine and_congr_right fun hne => ?_
  constructor
  · rintro ⟨s, hs, rfl⟩
    obtain ⟨-, s', hs', rfl⟩ := mem_normalizeScopeList.mp ((h s).mp hs)
    exact ⟨s', hs', (trimString_trimString s').symm⟩
  · rintro ⟨s, hs, rfl⟩
    exact ⟨trimString s, (h _).mpr (mem_normalizeScopeList.mpr ⟨hne, s, hs, rfl⟩), trimString_trimString s⟩

theorem mem_normalizeDeviceAuthScopes {scopes : Option (List String)} :
    scope ∈ normalizeDeviceAuthScopes scopes ↔ scope ∈ normalizeScopeList (scopes.getD []) := by
  cases scopes with
  | none => simp [normalizeDeviceAuthScopes, mem_normalizeScopeList]
  | some scopes => rw [normalizeDeviceAuthScopes, mem_insertionSort, Option.getD_some]

/-! ### What is allowed -/

/-- One scope is granted to a role. -/
def Granted (role scope : String) (allowed : List String) : Prop :=
  if trimString role ≠ OPERATOR_ROLE then scope ∈ allowed
  else operatorScopeSatisfied scope allowed = true

theorem operatorScopeSatisfied_iff {granted : List String} :
    operatorScopeSatisfied scope granted = true ↔
      (OPERATOR_ADMIN_SCOPE ∈ granted ∧
        OPERATOR_SCOPE_PREFIX.toList.isPrefixOf scope.toList = true) ∨
      (scope = OPERATOR_READ_SCOPE ∧ OPERATOR_WRITE_SCOPE ∈ granted) ∨ scope ∈ granted := by
  unfold operatorScopeSatisfied
  split
  · rename_i hadmin
    exact iff_of_true rfl (.inl hadmin)
  · rename_i hadmin
    split
    · rename_i hread
      subst hread
      rw [decide_eq_true_eq]
      tauto
    · rename_i hread
      split
      · rename_i hwrite
        subst hwrite
        rw [decide_eq_true_eq]
        tauto
      · rw [decide_eq_true_eq]
        tauto

theorem not_granted_nil (role scope : String) : ¬ Granted role scope [] := by
  unfold Granted
  split
  · exact not_mem_nil
  · rw [operatorScopeSatisfied_iff]
    simp

variable {role : String}

variable {allowed mid requested : List String}

theorem roleScopesAllow_iff :
    roleScopesAllow role requested allowed = true ↔
      ∀ scope ∈ normalizeScopeList requested, Granted role scope (normalizeScopeList allowed) := by
  unfold roleScopesAllow
  dsimp only
  split
  · rename_i hempty
    simp [hempty]
  · rename_i hrequested
    split
    · rename_i hempty
      obtain ⟨scope, rest, hscope⟩ := exists_cons_of_ne_nil hrequested
      refine iff_of_false Bool.false_ne_true fun h => ?_
      rw [hempty] at h
      exact not_granted_nil role scope (h scope (hscope ▸ mem_cons_self))
    · unfold Granted
      split
      · simp
      · simp

/-- What is granted by granted scopes is granted. -/
theorem Granted.trans {role scope : String} (h : Granted role scope mid)
    (hmid : ∀ s ∈ mid, Granted role s allowed) : Granted role scope allowed := by
  unfold Granted at h hmid ⊢
  split
  · rename_i hrole
    rw [if_pos hrole] at h
    simpa [hrole] using hmid scope h
  · rename_i hrole
    rw [if_neg hrole] at h
    have hsatisfied : ∀ s ∈ mid, operatorScopeSatisfied s allowed = true := fun s hs => by
      have hs' := hmid s hs
      rwa [if_neg hrole] at hs'
    rcases operatorScopeSatisfied_iff.mp h with ⟨hadmin, hprefix⟩ | ⟨hread, hwrite⟩ | hmem
    · -- an admin scope comes from an admin scope only
      refine operatorScopeSatisfied_iff.mpr (.inl ⟨?_, hprefix⟩)
      rcases operatorScopeSatisfied_iff.mp (hsatisfied _ hadmin) with h' | ⟨h', -⟩ | h'
      · exact h'.1
      · exact absurd h' (by decide)
      · exact h'
    · rcases operatorScopeSatisfied_iff.mp (hsatisfied _ hwrite) with h' | ⟨h', -⟩ | h'
      · exact operatorScopeSatisfied_iff.mpr (.inl ⟨h'.1, by rw [hread]; decide⟩)
      · exact absurd h' (by decide)
      · exact operatorScopeSatisfied_iff.mpr (.inr (.inl ⟨hread, h'⟩))
    · exact hsatisfied scope hmem

theorem Granted.mono {role scope : String} {allowed allowed' : List String} (h : Granted role scope allowed)
    (hsub : ∀ s ∈ allowed, s ∈ allowed') : Granted role scope allowed' := by
  refine h.trans fun s hs => ?_
  unfold Granted
  split
  · exact hsub s hs
  · exact operatorScopeSatisfied_iff.mpr (.inr (.inr (hsub s hs)))

theorem roleScopesAllow_trans (h : roleScopesAllow role requested mid = true)
    (hmid : roleScopesAllow role mid allowed = true) : roleScopesAllow role requested allowed = true := by
  rw [roleScopesAllow_iff] at h hmid ⊢
  exact fun scope hscope => (h scope hscope).trans hmid

theorem roleScopesAllow_mono {requested allowed allowed' : List String}
    (h : roleScopesAllow role requested allowed = true)
    (hsub : ∀ s ∈ normalizeScopeList allowed, s ∈ normalizeScopeList allowed') :
    roleScopesAllow role requested allowed' = true := by
  rw [roleScopesAllow_iff] at h ⊢
  exact fun scope hscope => (h scope hscope).mono hsub

theorem roleScopesAllow_congr {requested requested' : List String}
    (hsub : ∀ s ∈ normalizeScopeList requested', s ∈ normalizeScopeList requested)
    (h : roleScopesAllow role requested allowed = true) : roleScopesAllow role requested' allowed = true := by
  rw [roleScopesAllow_iff] at h ⊢
  exact fun scope hscope => h scope (hsub scope hscope)

end Foxclaw.Shared
