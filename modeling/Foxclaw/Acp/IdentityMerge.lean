import Foxclaw.Acp.SessionIdentity

/-!
# Merging ACP identities

`mergeSessionIdentity` keeps what is known of a session: ids that an `ensure` gave are pending until a status
resolves them. But a pending identity that is merged into another becomes resolved if either has a session
id, so a second `ensure` resolves what the first left pending.

## What is proved

* `merge_lawful_iff` — a merge is idempotent and monotone unless a pending identity with a session id is the
  first; a sequence of merges resolves on its own exactly when two identities come and no status has a
  session id but an `ensure` does.
* `two_ensures_resolve` — an `ensure` and the same again.
-/

namespace Foxclaw.Acp

open Option

/-- The identity has a session id. -/
def SessionAcpIdentity.hasSessionId (i : SessionAcpIdentity) : Bool :=
  i.acpxSessionId.isSome || i.agentSessionId.isSome

/-- The identities are the same up to `lastUpdatedAt`. -/
def SameIdentity (a b : Option SessionAcpIdentity) : Prop :=
  a.map ({ · with lastUpdatedAt := 0 }) = b.map ({ · with lastUpdatedAt := 0 })

/-- The ids of an identity. -/
def idFields : List (SessionAcpIdentity → Option String) :=
  [(·.acpxRecordId), (·.acpxSessionId), (·.agentSessionId)]

variable {c i : Option SessionAcpIdentity} {now now' : ℚ}

/-- A resolved identity stays resolved and keeps its ids, but for what a resolved one replaces. -/
def KeepsResolved (c i m : Option SessionAcpIdentity) : Prop :=
  ∀ a, c = some a → a.state = .resolved → ∃ b, m = some b ∧ b.state = .resolved ∧
    ∀ f ∈ idFields, ∀ id, f (normalizeIdentity a) = some id →
      f b = some id ∨ (i.any fun x => x.state = .resolved && (f (normalizeIdentity x)).isSome) = true

/-- An id of the current identity, or of the incoming one when the current one is not resolved, is there. -/
def KeepsIds (c i m : Option SessionAcpIdentity) : Prop :=
  ∀ f ∈ idFields, (c.map normalizeIdentity).any (fun a => (f a).isSome) = true ∨
      (c.all fun a => a.state = .pending) = true ∧
        (i.map normalizeIdentity).any (fun x => (f x).isSome) = true →
    m.any (fun b => (f b).isSome) = true

/-- Merging once more changes nothing. -/
def Idempotent (c i : Option SessionAcpIdentity) (now now' : ℚ) : Prop :=
  SameIdentity (mergeSessionIdentity (mergeSessionIdentity c i now) i now') (mergeSessionIdentity c i now)

/-- A pending identity with a session id is the first. -/
def FirstPending (c i : Option SessionAcpIdentity) : Prop :=
  c = none ∧ i.any (fun x => x.state = .pending && (normalizeIdentity x).hasSessionId) = true

theorem normalizeText_mergeId {allow : Bool} {x a : Option String} (hx : normalizeText x = x)
    (ha : normalizeText a = a) : normalizeText (mergeId allow x a) = mergeId allow x a := by
  unfold mergeId
  split
  · cases x with
    | none => exact ha
    | some text => exact hx
  · exact ha

theorem mergeId_mergeId (allow allow' : Bool) (x a : Option String) :
    mergeId allow x (mergeId allow' x a) = mergeId (allow || allow') x a := by
  cases allow <;> cases allow' <;> cases x <;> rfl

/-- A second merge of an identity finds what the first made. -/
theorem idempotent_some (a x : SessionAcpIdentity) : Idempotent (some a) (some x) now now' := by
  unfold Idempotent SameIdentity mergeSessionIdentity
  cases ha : a.state <;> cases hx : x.state <;>
    simp [normalizeIdentity, normalizeText_mergeId, mergeId_mergeId, ha, hx,
      isSome_iff_ne_none]

/-- The first identity is merged again: a session id makes it resolved. -/
theorem idempotent_none (x : SessionAcpIdentity) :
    Idempotent none (some x) now now' ↔ ¬ FirstPending none (some x) := by
  unfold Idempotent FirstPending SameIdentity mergeSessionIdentity
  cases hx : x.state <;>
    simp [normalizeIdentity, SessionAcpIdentity.hasSessionId, mergeId, hx, isSome_iff_ne_none]

theorem idempotent_iff : Idempotent c i now now' ↔ ¬ FirstPending c i := by
  cases c with
  | none =>
    cases i with
    | none => simp [Idempotent, FirstPending, SameIdentity, mergeSessionIdentity]
    | some x => exact idempotent_none x
  | some a =>
    cases i with
    | none => simp [Idempotent, FirstPending, SameIdentity, mergeSessionIdentity, normalizeIdentity]
    | some x => exact iff_of_true (idempotent_some a x) (by simp [FirstPending])

theorem mergeId_keeps {allow : Bool} {x a : Option String} {id : String} (h : a = some id) :
    mergeId allow x a = some id ∨ allow = true ∧ x.isSome = true := by
  subst h
  cases allow <;> cases x <;> simp [mergeId]

theorem keepsResolved_merge : KeepsResolved c i (mergeSessionIdentity c i now) := by
  rintro a rfl ha
  cases i with
  | none => exact ⟨normalizeIdentity a, rfl, ha, fun f _ id h => .inl h⟩
  | some x =>
    refine ⟨_, rfl, by simp [normalizeIdentity, ha], ?_⟩
    simp only [idFields, List.forall_mem_cons, normalizeIdentity, ha]
    refine ⟨fun _ h => ?_, fun _ h => ?_, fun _ h => ?_, fun _ h => (by cases h)⟩ <;>
      exact (mergeId_keeps h).imp_right fun ⟨hx, hy⟩ => by simpa [hy] using of_decide_eq_true hx

theorem keepsIds_merge : KeepsIds c i (mergeSessionIdentity c i now) := by
  unfold KeepsIds idFields
  cases c with
  | none => cases i <;> simp [mergeSessionIdentity, normalizeIdentity]
  | some a =>
    cases i with
    | none => simp [mergeSessionIdentity, normalizeIdentity]
    | some x =>
      cases ha : a.state <;> cases hx : x.state <;>
        simp [mergeSessionIdentity, normalizeIdentity, mergeId, ha, hx] <;> tauto

/-! ### Sequences -/

/-- What the runtime tells of a session. -/
inductive Told where
  | ensure (handle : AcpRuntimeHandle)
  | status (status : Option AcpRuntimeStatus)

/-- The identity that is derived. -/
def Told.identity (now : ℚ) : Told → Option SessionAcpIdentity
  | .ensure handle => createIdentityFromEnsure handle now
  | .status reported => createIdentityFromStatus reported now

variable (ts : List (Told × ℚ))

/-- What is told is merged, one after the other, each at its time. -/
def mergeTold : Option SessionAcpIdentity :=
  ts.foldl (fun c t => mergeSessionIdentity c (t.1.identity t.2) t.2) none

/-- The identities that are derived. -/
def derived : List SessionAcpIdentity := ts.filterMap fun t => t.1.identity t.2

def Told.isStatus : Told → Bool
  | .ensure _ => false
  | .status _ => true

/-- A status carries a session id. -/
def StatusResolves : Prop :=
  ∃ t ∈ ts, t.1.isStatus = true ∧ (t.1.identity t.2).any (·.hasSessionId) = true

/-- What is known of a derived identity. -/
structure Fresh (d : SessionAcpIdentity) : Prop where
  normal : normalizeIdentity d = d
  session : d.state = .resolved → d.hasSessionId = true

/-- What the merged identity has of the derived ones. -/
structure Merged (ds : List SessionAcpIdentity) (a : SessionAcpIdentity) : Prop where
  fresh : ∀ d ∈ ds, Fresh d
  normal : normalizeIdentity a = a
  session : a.hasSessionId = ds.any (·.hasSessionId)
  resolved : a.state = .resolved ↔ (∃ d ∈ ds, d.state = .resolved) ∨ 2 ≤ ds.length ∧ a.hasSessionId = true

theorem normalizeText_or {a b : Option String} (ha : normalizeText a = a) (hb : normalizeText b = b) :
    normalizeText (a.or b) = a.or b :=
  @normalizeText_mergeId true _ _ ha hb

theorem fresh_of_told {t : Told} {d : SessionAcpIdentity} (h : t.identity now = some d) :
    normalizeIdentity d = d ∧ (d.state = .resolved ↔ t.isStatus = true ∧ d.hasSessionId = true) := by
  cases t with
  | ensure handle =>
    unfold Told.identity createIdentityFromEnsure at h
    dsimp only at h
    split_ifs at h
    cases h
    simp [normalizeIdentity, Told.isStatus]
  | status reported =>
    cases reported with
    | none => cases h
    | some status =>
      unfold Told.identity createIdentityFromStatus at h
      dsimp only at h
      split_ifs at h <;> cases h <;> rename_i hs
      · exact ⟨by simp [normalizeIdentity, normalizeText_or], iff_of_true rfl ⟨rfl, hs⟩⟩
      · exact ⟨by simp [normalizeIdentity, normalizeText_or], by simpa [Told.isStatus, SessionAcpIdentity.hasSessionId] using hs⟩

theorem statusResolves_iff {ts : List (Told × ℚ)} :
    StatusResolves ts ↔ ∃ d ∈ derived ts, d.state = .resolved := by
  unfold StatusResolves derived
  constructor
  · rintro ⟨t, ht, hstatus, hany⟩
    obtain ⟨d, hd, hs⟩ := (any_eq_true _ _).mp hany
    exact ⟨d, List.mem_filterMap.mpr ⟨t, ht, hd⟩, (fresh_of_told hd).2.mpr ⟨hstatus, hs⟩⟩
  · rintro ⟨d, hmem, hr⟩
    obtain ⟨t, ht, hd⟩ := List.mem_filterMap.mp hmem
    obtain ⟨hstatus, hs⟩ := (fresh_of_told hd).2.mp hr
    exact ⟨t, ht, hstatus, (any_eq_true _ _).mpr ⟨d, hd, hs⟩⟩

theorem hasSessionId_merge {a d : SessionAcpIdentity} (ha : normalizeIdentity a = a)
    (hd : normalizeIdentity d = d) (hr : a.state = .resolved → a.hasSessionId = true) :
    ∃ b, mergeSessionIdentity (some a) (some d) now = some b ∧ normalizeIdentity b = b ∧
      b.hasSessionId = (a.hasSessionId || d.hasSessionId) ∧
      (b.state = .resolved ↔ d.state = .resolved ∨ b.hasSessionId = true) := by
  refine ⟨_, rfl, by simp [normalizeIdentity, normalizeText_mergeId], ?_, ?_⟩
  · simp only [SessionAcpIdentity.hasSessionId, ha, hd] at hr ⊢
    cases has : a.state <;> cases d.state <;> simp [mergeId, has] at hr ⊢ <;> grind
  · simp only [SessionAcpIdentity.hasSessionId, ha, hd] at hr ⊢
    cases has : a.state <;> cases d.state <;> simp [mergeId, has, isSome_iff_ne_none] at hr ⊢ <;> tauto

theorem Merged.merge {ds : List SessionAcpIdentity} {a d : SessionAcpIdentity} (h : Merged ds a) (hds : ds ≠ [])
    (hd : Fresh d) : ∃ b, mergeSessionIdentity (some a) (some d) now = some b ∧ Merged (ds ++ [d]) b := by
  have hlen : 2 ≤ (ds ++ [d]).length := by
    have := List.length_pos_iff.mpr hds
    simp
    omega
  have hr : a.state = .resolved → a.hasSessionId = true := by
    intro hr
    rcases h.resolved.mp hr with ⟨d, hmem, hd⟩ | ⟨-, hs⟩
    · rw [h.session, List.any_eq_true]
      exact ⟨d, hmem, (h.fresh d hmem).session hd⟩
    · exact hs
  obtain ⟨b, hb, hnormal, hsession, hresolved⟩ := @hasSessionId_merge now _ _ h.normal hd.normal hr
  refine ⟨b, hb, ?_, hnormal, ?_, ?_⟩
  · simpa [or_imp, forall_and] using ⟨h.fresh, hd⟩
  · simp [hsession, h.session]
  · rw [hresolved]
    constructor
    · rintro (hd' | hb')
      · exact .inl ⟨d, by simp, hd'⟩
      · exact .inr ⟨hlen, hb'⟩
    · rintro (⟨x, hmem, hx⟩ | ⟨-, hb'⟩)
      · rcases List.mem_append.mp hmem with hmem | hmem
        · have hany : ds.any (·.hasSessionId) = true := List.any_eq_true.mpr ⟨x, hmem, (h.fresh x hmem).session hx⟩
          exact .inr (by rw [hsession, h.session, hany, Bool.true_or])
        · exact .inl (List.mem_singleton.mp hmem ▸ hx)
      · exact .inr hb'

/-- After any sequence the merged identity has what the derived ones have. -/
theorem merged_mergeTold :
    (mergeTold ts = none ∧ derived ts = []) ∨ derived ts ≠ [] ∧ ∃ a, mergeTold ts = some a ∧ Merged (derived ts) a := by
  induction ts using List.reverseRecOn with
  | nil => exact .inl ⟨rfl, rfl⟩
  | append_singleton ts t ih =>
    have hfold : mergeTold (ts ++ [t]) = mergeSessionIdentity (mergeTold ts) (t.1.identity t.2) t.2 := by
      simp [mergeTold]
    have hderived : derived (ts ++ [t]) = derived ts ++ (t.1.identity t.2).toList := by
      unfold derived
      rw [List.filterMap_append]
      cases h : t.1.identity t.2 <;> simp [h]
    rw [hfold, hderived]
    cases ht : t.1.identity t.2 with
    | none =>
      rw [toList_none, List.append_nil]
      rcases ih with ⟨hnone, hds⟩ | ⟨hds, a, ha, hm⟩
      · exact .inl ⟨by rw [hnone]; rfl, hds⟩
      · exact .inr ⟨hds, a, by rw [ha, mergeSessionIdentity, map_some, hm.normal]; rfl, hm⟩
    | some d =>
      have hd : Fresh d := ⟨(fresh_of_told ht).1, fun hr => ((fresh_of_told ht).2.mp hr).2⟩
      refine .inr ⟨by simp, ?_⟩
      rcases ih with ⟨hnone, hds⟩ | ⟨hds, a, ha, hm⟩
      · have hfirst : mergeSessionIdentity none (some d) t.2 = some { d with lastUpdatedAt := t.2 } := by
          simp [mergeSessionIdentity, hd.normal]
        have hnormal := congrArg (fun x => { x with lastUpdatedAt := t.2 }) hd.normal
        rw [hnone, hds, hfirst]
        refine ⟨_, rfl, by simpa using hd, hnormal, ?_, ?_⟩ <;> simp [SessionAcpIdentity.hasSessionId]
      · rw [ha]
        exact hm.merge hds hd

/-- The merged identity is resolved only if a status carries a session id. -/
def ResolvedByStatus : Prop :=
  (mergeTold ts).any (fun a => a.state = .resolved) = true → StatusResolves ts

/-- Without such a status, at most one identity is derived, or none has a session id. -/
def AtMostOneOrNoSession : Prop :=
  StatusResolves ts ∨ (derived ts).length ≤ 1 ∨ (derived ts).any (·.hasSessionId) = false

theorem resolvedByStatus_iff {ts : List (Told × ℚ)} : ResolvedByStatus ts ↔ AtMostOneOrNoSession ts := by
  unfold ResolvedByStatus AtMostOneOrNoSession
  rcases merged_mergeTold ts with ⟨hnone, hds⟩ | ⟨-, a, ha, hm⟩
  · simp [hnone, hds]
  · rw [ha, any_some, decide_eq_true_eq, hm.resolved, ← statusResolves_iff, ← hm.session]
    constructor
    · intro h
      by_cases hs : StatusResolves ts
      · exact .inl hs
      · refine .inr (or_iff_not_imp_left.mpr fun hlen => ?_)
        exact Bool.eq_false_iff.mpr fun hany => hs (h (.inr ⟨by omega, hany⟩))
    · rintro h (hs | ⟨hlen, hany⟩)
      · exact hs
      · rcases h with hs | hlen' | hno
        · exact hs
        · omega
        · rw [hno] at hany
          cases hany

/-- **When merging is lawful**: a merge is idempotent unless a pending identity with a session id comes
first, and it always keeps what it should; a sequence resolves without a status exactly when two identities
come and one has a session id. -/
theorem merge_lawful_iff (c i : Option SessionAcpIdentity) (now now' : ℚ) (ts : List (Told × ℚ)) :
    (Idempotent c i now now' ∧ KeepsResolved c i (mergeSessionIdentity c i now) ∧
      KeepsIds c i (mergeSessionIdentity c i now) ∧ ResolvedByStatus ts) ↔
      ¬ FirstPending c i ∧ AtMostOneOrNoSession ts := by
  rw [idempotent_iff, resolvedByStatus_iff]
  exact ⟨fun ⟨h, _, _, h'⟩ => ⟨h, h'⟩, fun ⟨h, h'⟩ => ⟨h, keepsResolved_merge, keepsIds_merge, h'⟩⟩

/-- What a runtime gives when a session is ensured. -/
def ensuredHandle : AcpRuntimeHandle :=
  { backend := "acpx", runtimeSessionName := "s", backendSessionId := some "id" }

/-- The session is ensured twice. -/
theorem two_ensures_resolve :
    ¬ Idempotent none (createIdentityFromEnsure ensuredHandle 0) 0 1 ∧
      ¬ ResolvedByStatus [(.ensure ensuredHandle, 0), (.ensure ensuredHandle, 1)] := by
  rw [idempotent_iff, resolvedByStatus_iff]
  constructor
  · rw [not_not]
    exact ⟨rfl, by decide +kernel⟩
  · rintro (⟨t, ht, hstatus, -⟩ | hlen | hno)
    · simp only [List.mem_cons, List.not_mem_nil, or_false] at ht
      rcases ht with rfl | rfl <;> cases hstatus
    · revert hlen
      decide +kernel
    · revert hno
      decide +kernel

end Foxclaw.Acp
