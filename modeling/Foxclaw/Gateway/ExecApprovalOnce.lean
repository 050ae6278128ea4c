import Foxclaw.Gateway.ExecApproval

/-!
# An allow-once approval is used at most once

A request uses an `allow-once` approval up by clearing its decision. From then on the record
looks like that of an approval that timed out, if it was resolved with `resolvedBy` null: the
fallback for those lets any number of further requests through. This module shows that this is
the only way in which an approval is used twice.

## What is proved

* `forward_effect` — how a request can come to be forwarded as approved.
* `allow_once_used_twice` — an approval resolved by nobody is used twice.
* `allow_once_at_most_once` — in a run in which no request takes the fallback on an approval
  that was resolved with `allow-once`, such an approval lets at most one request through, and
  one resolved with `deny` none.
* `forwards_what_was_approved` — what a request that is forwarded as approved runs.
-/

namespace Foxclaw.Gateway.ExecApproval

open List Option Runs

variable {analysis : RunAnalysis}

/-! ### The operations of the manager -/

variable {recordId : String}

variable {resolvedBy : Option String}

theorem settle_eq_some {m m' : Manager} {now : ℚ} {decision : Option ExecApprovalDecision} {uid : ℕ}
    (h : m.settle now recordId decision resolvedBy = some (m', uid)) :
    ∃ entry, m.pending.get? recordId = some entry ∧ entry.record.resolvedAtMs = none ∧
      uid = entry.uid ∧ m'.nextUid = m.nextUid ∧
      m'.pending = m.pending.set recordId
        { entry with
          record :=
            { entry.record with resolvedAtMs := some now, decision, resolvedBy := some resolvedBy } } := by
  unfold Manager.settle at h
  split at h
  · cases h
  · rename_i entry hentry
    split at h
    · cases h
    · rename_i hresolved
      cases h
      exact ⟨entry, hentry, not_isSome_iff_eq_none.mp hresolved, rfl, rfl, rfl⟩

/-- An `allow-once` approval is there, and is used up. -/
theorem consumeAllowOnce_of_allowOnce {m : Manager} {entry : PendingEntry}
    (hentry : m.pending.get? recordId = some entry) (hdecision : entry.record.decision = some .allowOnce) :
    m.consumeAllowOnce recordId =
      ({ m with pending := m.pending.set recordId entry.consumed }, true) := by
  unfold Manager.consumeAllowOnce
  simp [hentry, hdecision]

/-- `consumeAllowOnce` changes nothing else. -/
theorem consumeAllowOnce_cases (m : Manager) (recordId : String) :
    m.consumeAllowOnce recordId = (m, false) ∨
      ∃ entry, m.pending.get? recordId = some entry ∧ entry.record.decision = some .allowOnce := by
  unfold Manager.consumeAllowOnce
  split
  · exact .inl rfl
  · rename_i entry hentry
    split
    · exact .inl rfl
    · rename_i hdecision
      exact .inr ⟨entry, hentry, not_not.mp hdecision⟩

/-! ### How a request is forwarded as approved -/

/-- The approval a request names, and what it finds there: the decision, or the fallback. -/
inductive ForwardEffect (analysis : RunAnalysis) (m : Manager) (opts : ForwardRequest) :
    Manager → Bool → Prop where
  /-- The request is refused, or forwarded without approval. -/
  | plain : ForwardEffect analysis m opts m false
  /-- The approval was for one request, and this is it. -/
  | once {runId : String} {entry : PendingEntry}
    (hnamed : namedEntry m opts = some entry) (hentry : m.pending.get? runId = some entry)
    (hdecision : entry.record.decision = some .allowOnce) :
    ForwardEffect analysis m opts { m with pending := m.pending.set runId entry.consumed } true
  /-- The approval is for all requests. -/
  | always {entry : PendingEntry} (hnamed : namedEntry m opts = some entry) {runId : String}
    (hentry : m.pending.get? runId = some entry)
    (hdecision : entry.record.decision = some .allowAlways) :
    ForwardEffect analysis m opts m true
  /-- The approval looks as if it had timed out. -/
  | fallback {p : Json.Fields} {runId : String} {entry : PendingEntry}
    (hnamed : namedEntry m opts = some entry) (hp : opts.rawParams = .obj p)
    (hrunId : normalizeString (p.lookup "runId") = some runId) (hmanager : opts.managerGiven = true)
    (hentry : m.pending.get? runId = some entry)
    (hcheck : (checkApproval analysis opts p runId entry.record).isOk = true)
    (htimedOut : timedOut entry.record = true) (hasks : asksFallback opts p = true) :
    ForwardEffect analysis m opts m true

theorem lookup_pick (p : Json.Fields) (keys : List String) (k : String) :
    (keys.filterMap fun key => (p.lookup key).map fun value => (key, value)).lookup k =
      if k ∈ keys then p.lookup k else none := by
  induction keys with
  | nil => rfl
  | cons key keys ih => cases hp : p.lookup key <;> grind [Json.Fields.lookup_cons]

theorem lookup_approved_pick (p : Json.Fields) : (pickSystemRunParams p).lookup "approved" = none := by
  rw [pickSystemRunParams, lookup_pick, if_neg (by decide)]

theorem isApproved_withApproval (params : Json.Fields) (decision : String) :
    isApproved (withApproval params decision) = true := by
  unfold isApproved withApproval
  rw [Json.Fields.lookup_set, if_neg (by decide), Json.Fields.lookup_set, if_pos rfl]

/-- What a request does to the manager, and whether it is forwarded as approved. -/
theorem forward_effect (m : Manager) (opts : ForwardRequest) :
    ForwardEffect analysis m opts (sanitizeSystemRunParamsForForwarding analysis m opts).1
      (forwardsApproved (sanitizeSystemRunParamsForForwarding analysis m opts).2) := by
  unfold sanitizeSystemRunParamsForForwarding
  split
  · rename_i p hp
    split
    · unfold sanitizeOverride
      split
      · exact .plain
      · rename_i runId hrunId
        split
        · exact .plain
        · rename_i hmanager
          split
          · exact .plain
          · rename_i snapshot hsnapshot
            obtain ⟨entry, hentry, rfl⟩ := map_eq_some_iff.mp hsnapshot
            have hnamed : namedEntry m opts = some entry := by
              unfold namedEntry
              rw [hp]
              simp only [hrunId, bind_some, hentry]
            split
            · exact .plain
            · rename_i context hcheck
              unfold applyDecision
              split
              · rename_i hdecision
                rw [consumeAllowOnce_of_allowOnce hentry hdecision]
                simp only [if_true, forwardsApproved, isApproved_withApproval]
                exact .once hnamed hentry hdecision
              · rename_i hdecision
                simp only [forwardsApproved, isApproved_withApproval]
                exact .always hnamed hentry hdecision
              · split
                · rename_i hfallback
                  rw [Bool.and_eq_true] at hfallback
                  simp only [forwardsApproved, isApproved_withApproval]
                  exact .fallback hnamed hp hrunId (by simpa using hmanager) hentry (by rw [hcheck]; rfl)
                    hfallback.1
                    hfallback.2
                · exact .plain
    · split
      · exact .plain
      · simp only [forwardsApproved, isApproved, lookup_approved_pick]
        exact .plain
  · exact .plain

/-! ### The invariant -/

/-- What the histories say of an entry that is there. -/
structure EntryOk (s : State) (entry : PendingEntry) : Prop where
  /-- Its identity has been given out. -/
  uid_lt : entry.uid < s.manager.nextUid
  /-- Before it is resolved it has no decision, and nothing was done with it. -/
  fresh : entry.record.resolvedAtMs = none →
    entry.record.decision = none ∧ (∀ d, (entry.uid, d) ∉ s.resolvedWith) ∧ entry.uid ∉ s.authorised
  /-- The decision it was resolved with stands, unless it was `allow-once` and is used up. -/
  decided : ∀ d, (entry.uid, d) ∈ s.resolvedWith →
    entry.record.decision = some d ∨ d = .allowOnce ∧ entry.record.decision = none
  /-- As long as `allow-once` stands, no request was let through. -/
  unused : entry.record.decision = some .allowOnce → entry.uid ∉ s.authorised

/-- The invariant of a run. -/
structure Inv (s : State) : Prop where
  entries : ∀ id entry, s.manager.pending.get? id = some entry → EntryOk s entry
  /-- Entries have identities of their own. -/
  unique : ∀ id id' entry entry', s.manager.pending.get? id = some entry →
    s.manager.pending.get? id' = some entry' → entry.uid = entry'.uid → id = id'
  resolved_lt : ∀ u d, (u, d) ∈ s.resolvedWith → u < s.manager.nextUid
  /-- What let a request through is known. -/
  authorised_lt : ∀ u ∈ s.authorised, u < s.manager.nextUid
  /-- An approval for one request let at most one through. -/
  once : ∀ u, (u, ExecApprovalDecision.allowOnce) ∈ s.resolvedWith → s.authorised.count u ≤ 1
  never : ∀ u, (u, ExecApprovalDecision.deny) ∈ s.resolvedWith → u ∉ s.authorised

theorem init_inv : Inv init where
  entries _ _ h := by cases h
  unique _ _ _ _ h := by cases h
  resolved_lt _ _ h := absurd h not_mem_nil
  authorised_lt _ h := absurd h not_mem_nil
  once _ h := absurd h not_mem_nil
  never _ h := absurd h not_mem_nil

/-- Other entries keep what the histories say of them. -/
theorem EntryOk.frame {s s' : State} {entry : PendingEntry} (h : EntryOk s entry)
    (hnext : s.manager.nextUid ≤ s'.manager.nextUid)
    (hres : ∀ d, (entry.uid, d) ∈ s'.resolvedWith ↔ (entry.uid, d) ∈ s.resolvedWith)
    (hauth : entry.uid ∈ s'.authorised ↔ entry.uid ∈ s.authorised) : EntryOk s' entry where
  uid_lt := h.uid_lt.trans_le hnext
  fresh hnone := by
    obtain ⟨hdecision, hd, ha⟩ := h.fresh hnone
    exact ⟨hdecision, fun d hmem => hd d ((hres d).mp hmem), fun hmem => ha (hauth.mp hmem)⟩
  decided d hmem := h.decided d ((hres d).mp hmem)
  unused hdecision hmem := h.unused hdecision (hauth.mp hmem)

variable {s : State}

/-- The entry at `id` is replaced by one with its identity: entries keep identities of their
own. -/
theorem Inv.unique_set (h : Inv s) {id : String} {entry entry' : PendingEntry}
    (hentry : s.manager.pending.get? id = some entry) (huid : entry'.uid = entry.uid) :
    ∀ j j' e e', (s.manager.pending.set id entry').get? j = some e →
      (s.manager.pending.set id entry').get? j' = some e' → e.uid = e'.uid → j = j' := by
  -- every entry of the new map has the identity of the old map's entry under its key
  have hold : ∀ j e, (s.manager.pending.set id entry').get? j = some e →
      ∃ e₀, s.manager.pending.get? j = some e₀ ∧ e₀.uid = e.uid := by
    intro j e he
    rw [JsMap.get?_set] at he
    split at he
    · rename_i hj
      cases he
      exact ⟨entry, hj ▸ hentry, huid.symm⟩
    · exact ⟨e, he, rfl⟩
  intro j j' e e' he he' heq
  obtain ⟨e₀, he₀, hu⟩ := hold j e he
  obtain ⟨e₀', he₀', hu'⟩ := hold j' e' he'
  exact h.unique j j' e₀ e₀' he₀ he₀' (by rw [hu, hu', heq])

/-- A step that replaces one entry, and adds to the histories of that entry only, keeps what
they say of the entries. -/
theorem Inv.entries_set {s s' : State} (h : Inv s) {id : String} {entry entry' : PendingEntry}
    (hentry : s.manager.pending.get? id = some entry)
    (hpending : s'.manager.pending = s.manager.pending.set id entry')
    (hnext : s'.manager.nextUid = s.manager.nextUid)
    (hres : ∀ u, u ≠ entry.uid → ∀ d, (u, d) ∈ s'.resolvedWith ↔ (u, d) ∈ s.resolvedWith)
    (hauth : ∀ u, u ≠ entry.uid → (u ∈ s'.authorised ↔ u ∈ s.authorised)) (hnew : EntryOk s' entry') :
    ∀ j e, s'.manager.pending.get? j = some e → EntryOk s' e := by
  intro j e he
  rw [hpending, JsMap.get?_set] at he
  split at he
  · cases he
    exact hnew
  · rename_i hj
    have hu : e.uid ≠ entry.uid := fun heq => hj (h.unique _ _ _ _ hentry he heq.symm)
    exact (h.entries j e he).frame hnext.ge (hres _ hu) (hauth _ hu)

/-! ### The steps -/

theorem register_inv (h : Inv s) (record : ExecApprovalRecord) (hdecision : record.decision = none) :
    Inv { s with manager := s.manager.register record } := by
  unfold Manager.register
  split
  · exact h
  · rename_i hnone
    have hnext : s.manager.nextUid ≤ s.manager.nextUid + 1 := Nat.le_succ _
    refine ⟨?_, ?_, fun u d hd => (h.resolved_lt u d hd).trans_le hnext,
      fun u hu => (h.authorised_lt u hu).trans_le hnext, h.once, h.never⟩
    · intro j e he
      rw [JsMap.get?_set] at he
      split at he
      · cases he
        have hres : ∀ d, (s.manager.nextUid, d) ∉ s.resolvedWith :=
          fun d hd => absurd (h.resolved_lt _ d hd) (lt_irrefl _)
        have hauth : s.manager.nextUid ∉ s.authorised :=
          fun hu => absurd (h.authorised_lt _ hu) (lt_irrefl _)
        exact ⟨Nat.lt_succ_self _, fun _ => ⟨hdecision, hres, hauth⟩,
          fun d hd => absurd hd (hres d), fun _ => hauth⟩
      · exact (h.entries j e he).frame hnext (fun _ => Iff.rfl) Iff.rfl
    · -- the new entry's identity is above all others
      have hlt : ∀ j e, s.manager.pending.get? j = some e → e.uid ≠ s.manager.nextUid :=
        fun j e he => ((h.entries j e he).uid_lt).ne
      intro j j' e e' he he' heq
      rw [JsMap.get?_set] at he he'
      split at he <;> split at he'
      · rename_i hj hj'
        rw [← hj, ← hj']
      · cases he
        exact absurd heq.symm (hlt j' e' he')
      · cases he'
        exact absurd heq (hlt j e he)
      · exact h.unique j j' e e' he he' heq

variable {decision : ExecApprovalDecision}

theorem mem_resolvedWith_append {l : List (ℕ × ExecApprovalDecision)} {v : ℕ} {u : ℕ} (hu : u ≠ v)
    (d : ExecApprovalDecision) : (u, d) ∈ l ++ [(v, decision)] ↔ (u, d) ∈ l := by
  rw [mem_append, mem_singleton, Prod.mk.injEq, or_iff_left fun heq => hu heq.1]

theorem resolve_inv (h : Inv s) {now : ℚ} {manager : Manager} {uid : ℕ}
    (hresolve : s.manager.resolve now recordId decision resolvedBy = some (manager, uid)) :
    Inv { s with manager, resolvedWith := s.resolvedWith ++ [(uid, decision)] } := by
  obtain ⟨entry, hentry, hnone, rfl, hnext, hpending⟩ := settle_eq_some hresolve
  have hok := h.entries recordId entry hentry
  obtain ⟨-, hnot, hunused⟩ := hok.fresh hnone
  have hmem {u : ℕ} {d : ExecApprovalDecision} (hd : (u, d) ∈ s.resolvedWith ++ [(entry.uid, decision)]) :
      (u, d) ∈ s.resolvedWith ∨ u = entry.uid ∧ d = decision := by
    rw [mem_append, mem_singleton, Prod.mk.injEq] at hd
    exact hd
  refine ⟨?_, ?_, ?_, ?_, ?_, ?_⟩
  · refine h.entries_set hentry hpending hnext (fun u hu => mem_resolvedWith_append hu)
      (fun _ _ => Iff.rfl) ⟨?_, ?_, ?_, ?_⟩
    · exact hnext ▸ hok.uid_lt
    · intro hcontra
      cases hcontra
    · intro d hd
      rcases hmem hd with hd | ⟨-, rfl⟩
      · exact absurd hd (hnot d)
      · exact .inl rfl
    · exact fun _ => hunused
  · rw [hpending]
    exact h.unique_set hentry rfl
  · intro u d hd
    rw [hnext]
    rcases hmem hd with hd | ⟨rfl, -⟩
    · exact h.resolved_lt u d hd
    · exact hok.uid_lt
  · intro u hu
    rw [hnext]
    exact h.authorised_lt u hu
  · intro u hd
    rcases hmem hd with hd | ⟨rfl, -⟩
    · exact h.once u hd
    · exact (count_eq_zero_of_not_mem hunused).le.trans (Nat.zero_le 1)
  · intro u hd
    rcases hmem hd with hd | ⟨rfl, -⟩
    · exact h.never u hd
    · exact hunused

theorem expire_inv (h : Inv s) (now : ℚ) (recordId : String) (resolvedBy : Option String) :
    Inv { s with manager := s.manager.expire now recordId resolvedBy } := by
  unfold Manager.expire
  cases hsettle : s.manager.settle now recordId none resolvedBy with
  | none => exact h
  | some settled =>
    obtain ⟨manager, uid⟩ := settled
    obtain ⟨entry, hentry, hnone, rfl, hnext, hpending⟩ := settle_eq_some hsettle
    have hok := h.entries recordId entry hentry
    obtain ⟨-, hnot, -⟩ := hok.fresh hnone
    have hentries : ∀ j e, manager.pending.get? j = some e → EntryOk { s with manager } e := by
      refine @Inv.entries_set s { s with manager } h _ _ _ hentry hpending hnext
        (fun _ _ _ => Iff.rfl) (fun _ _ => Iff.rfl) ⟨?_, ?_, ?_, ?_⟩
      · exact hnext ▸ hok.uid_lt
      · intro hcontra
        cases hcontra
      · exact fun d hd => absurd hd (hnot d)
      · intro hcontra
        cases hcontra
    refine ⟨hentries, ?_, fun u d hd => ?_, fun u hu => ?_, h.once, h.never⟩
    · exact hpending ▸ h.unique_set hentry rfl
    · exact hnext ▸ h.resolved_lt u d hd
    · exact hnext ▸ h.authorised_lt u hu

/-- Using an approval up, and letting the requests in `used` through on it: at most one. -/
theorem consume_inv (h : Inv s) {entry : PendingEntry}
    (hentry : s.manager.pending.get? recordId = some entry)
    (hdecision : entry.record.decision = some .allowOnce) {used : List ℕ}
    (hused : used = [] ∨ used = [entry.uid]) :
    Inv { s with
      manager := { s.manager with pending := s.manager.pending.set recordId entry.consumed }
      authorised := s.authorised ++ used } := by
  have hok := h.entries recordId entry hentry
  have hunused := hok.unused hdecision
  have hin : ∀ u ∈ used, u = entry.uid := by
    rcases hused with rfl | rfl <;> simp
  refine ⟨?_, h.unique_set hentry rfl, h.resolved_lt, ?_, ?_, ?_⟩
  · refine h.entries_set hentry rfl rfl (fun _ _ _ => Iff.rfl) (fun u hu => ?_) ⟨?_, ?_, ?_, ?_⟩
    · rw [mem_append, or_iff_left fun hmem => hu (hin u hmem)]
    · exact hok.uid_lt
    · intro hnone
      have hcontra := (hok.fresh hnone).1
      rw [hdecision] at hcontra
      cases hcontra
    · intro d hd
      rcases hok.decided d hd with hd | ⟨-, hnone⟩
      · rw [hdecision] at hd
        exact .inr ⟨(some.inj hd).symm, rfl⟩
      · rw [hdecision] at hnone
        cases hnone
    · intro hcontra
      cases hcontra
  · intro u hu
    rcases mem_append.mp hu with hu | hu
    · exact h.authorised_lt u hu
    · exact hin u hu ▸ hok.uid_lt
  · intro u hd
    rw [count_append]
    by_cases hu : u = entry.uid
    · subst hu
      rw [count_eq_zero_of_not_mem hunused, Nat.zero_add]
      refine count_le_length.trans ?_
      rcases hused with rfl | rfl <;> simp
    · rw [count_eq_zero_of_not_mem fun hmem => hu (hin u hmem)]
      exact h.once u hd
  · intro u hd hu
    rcases mem_append.mp hu with hu | hu
    · exact h.never u hd hu
    · rcases hok.decided _ (hin u hu ▸ hd) with hcontra | ⟨hcontra, -⟩
      · rw [hdecision] at hcontra
        cases hcontra
      · cases hcontra

theorem consumeAllowOnce_inv (h : Inv s) (recordId : String) :
    Inv { s with manager := (s.manager.consumeAllowOnce recordId).1 } := by
  rcases consumeAllowOnce_cases s.manager recordId with heq | ⟨entry, hentry, hdecision⟩
  · rw [heq]
    exact h
  · rw [consumeAllowOnce_of_allowOnce hentry hdecision]
    have hinv := consume_inv h hentry hdecision (.inl rfl)
    rwa [append_nil] at hinv

theorem graceElapsed_inv (h : Inv s) (recordId : String) (uid : ℕ) :
    Inv { s with manager := s.manager.graceElapsed recordId uid } := by
  unfold Manager.graceElapsed
  dsimp only
  split
  · have hold : ∀ j e, (s.manager.pending.delete recordId).get? j = some e →
        s.manager.pending.get? j = some e := by
      intro j e he
      rw [JsMap.get?_delete] at he
      split at he
      · cases he
      · exact he
    exact ⟨fun j e he => (h.entries j e (hold j e he)).frame le_rfl (fun _ => Iff.rfl) Iff.rfl,
      fun j j' e e' he he' => h.unique j j' e e' (hold j e he) (hold j' e' he'), h.resolved_lt,
      h.authorised_lt, h.once, h.never⟩
  · exact ⟨fun j e he => (h.entries j e he).frame le_rfl (fun _ => Iff.rfl) Iff.rfl, h.unique,
      h.resolved_lt, h.authorised_lt, h.once, h.never⟩

/-- A request is let through on an entry that was resolved neither with `allow-once` nor with
`deny`. -/
theorem authorise_inv (h : Inv s) {entry : PendingEntry}
    (hentry : s.manager.pending.get? recordId = some entry)
    (hresolved : entry.record.resolvedAtMs ≠ none) (hdecision : entry.record.decision ≠ some .allowOnce)
    (honce : (entry.uid, ExecApprovalDecision.allowOnce) ∉ s.resolvedWith)
    (hnever : (entry.uid, ExecApprovalDecision.deny) ∉ s.resolvedWith) :
    Inv { s with authorised := s.authorised ++ [entry.uid] } := by
  have hok := h.entries recordId entry hentry
  refine ⟨?_, h.unique, h.resolved_lt, ?_, ?_, ?_⟩
  · intro j e he
    by_cases hu : e.uid = entry.uid
    · obtain rfl : recordId = j := h.unique _ _ _ _ hentry he hu.symm
      cases hentry.symm.trans he
      exact ⟨hok.uid_lt, fun hnone => absurd hnone hresolved, hok.decided,
        fun hcontra => absurd hcontra hdecision⟩
    · refine (h.entries j e he).frame le_rfl (fun _ => Iff.rfl) ?_
      rw [mem_append, mem_singleton, or_iff_left hu]
  · intro u hu
    rcases mem_append.mp hu with hu | hu
    · exact h.authorised_lt u hu
    · exact mem_singleton.mp hu ▸ hok.uid_lt
  · intro u hd
    have hu : u ≠ entry.uid := fun heq => honce (heq ▸ hd)
    rw [count_append, count_eq_zero_of_not_mem (mem_singleton.not.mpr hu)]
    exact h.once u hd
  · intro u hd hu
    rcases mem_append.mp hu with hu | hu
    · exact h.never u hd hu
    · exact hnever (mem_singleton.mp hu ▸ hd)

/-! ### Requests -/

/-- The request takes the fallback for approvals that timed out on one that was resolved with
`allow-once`. -/
def replaysAllowOnce (analysis : RunAnalysis) (s : State) (opts : ForwardRequest) : Bool :=
  match opts.rawParams with
  | .obj p =>
    match normalizeString (p.lookup "runId") with
    | none => false
    | some runId =>
      match s.manager.pending.get? runId with
      | none => false
      | some entry =>
        opts.managerGiven && (checkApproval analysis opts p runId entry.record).isOk &&
          timedOut entry.record && asksFallback opts p &&
          decide ((entry.uid, ExecApprovalDecision.allowOnce) ∈ s.resolvedWith)
  | _ => false

variable {opts : ForwardRequest}

theorem replaysAllowOnce_eq_true {p : Json.Fields}
    {runId : String} {entry : PendingEntry} (hp : opts.rawParams = .obj p)
    (hrunId : normalizeString (p.lookup "runId") = some runId)
    (hentry : s.manager.pending.get? runId = some entry) :
    replaysAllowOnce analysis s opts = true ↔
      opts.managerGiven = true ∧ (checkApproval analysis opts p runId entry.record).isOk = true ∧
        timedOut entry.record = true ∧ asksFallback opts p = true ∧
        (entry.uid, ExecApprovalDecision.allowOnce) ∈ s.resolvedWith := by
  unfold replaysAllowOnce
  simp only [hp, hrunId, hentry, Bool.and_eq_true, decide_eq_true_eq, and_assoc]

/-- No request takes the fallback on an approval that was resolved with `allow-once`. -/
def KeepsOnce (analysis : RunAnalysis) (s : State) : Action → Prop
  | .forward opts => replaysAllowOnce analysis s opts = false
  | _ => True

instance (s : State) (a : Action) : Decidable (KeepsOnce analysis s a) := by
  unfold KeepsOnce
  split <;> exact inferInstance

theorem timedOut_eq_true {record : ExecApprovalRecord} (h : timedOut record = true) :
    record.resolvedAtMs ≠ none ∧ record.decision = none := by
  simp only [timedOut, Bool.and_eq_true, decide_eq_true_eq, isNone_iff_eq_none] at h
  exact ⟨isSome_iff_ne_none.mp h.1.1, h.1.2⟩

theorem forward_inv (h : Inv s)
    (hkeeps : replaysAllowOnce analysis s opts = false) : Inv (forward analysis s opts) := by
  have heffect := @forward_effect analysis s.manager opts
  unfold forward
  generalize sanitizeSystemRunParamsForForwarding analysis s.manager opts = sanitized at heffect ⊢
  obtain ⟨manager, result⟩ := sanitized
  dsimp only at heffect ⊢
  generalize forwardsApproved result = approved at heffect ⊢
  cases heffect with
  | plain => exact h
  | once hnamed hentry hdecision =>
    rw [hnamed]
    exact consume_inv h hentry hdecision (.inr rfl)
  | @always entry hnamed runId hentry hdecision =>
    rw [hnamed]
    have hok := h.entries runId entry hentry
    have hother (d : ExecApprovalDecision) (hd : d ≠ .allowAlways) :
        (entry.uid, d) ∉ s.resolvedWith := by
      intro hmem
      rcases hok.decided d hmem with heq | ⟨-, heq⟩ <;> rw [hdecision] at heq
      · exact hd (some.inj heq).symm
      · cases heq
    refine authorise_inv h hentry (fun hnone => ?_) (by rw [hdecision]; decide)
      (hother _ (by decide)) (hother _ (by decide))
    have hcontra := (hok.fresh hnone).1
    rw [hdecision] at hcontra
    cases hcontra
  | @fallback p runId entry hnamed hp hrunId hmanager hentry hcheck htimedOut hasks =>
    rw [hnamed]
    obtain ⟨hresolved, hdecision⟩ := timedOut_eq_true htimedOut
    refine authorise_inv h hentry hresolved (by rw [hdecision]; decide) (fun hmem => ?_) (fun hmem => ?_)
    · have hreplays := (replaysAllowOnce_eq_true hp hrunId hentry).mpr
        ⟨hmanager, hcheck, htimedOut, hasks, hmem⟩
      rw [hkeeps] at hreplays
      cases hreplays
    · rcases (h.entries runId entry hentry).decided _ hmem with heq | ⟨heq, -⟩
      · rw [hdecision] at heq
        cases heq
      · cases heq

theorem next_inv {s s' : State} {a : Action} (h : Inv s) (hkeeps : KeepsOnce analysis s a)
    (hs : next analysis s a = some s') : Inv s' := by
  cases a with
  | register now request timeoutMs id connId deviceId =>
    cases hs
    exact register_inv h _ rfl
  | resolve now recordId decision resolvedBy =>
    rw [next] at hs
    split at hs
    · cases hs
      exact h
    · rename_i manager uid hresolve
      cases hs
      exact resolve_inv h hresolve
  | expire now recordId resolvedBy =>
    cases hs
    exact expire_inv h now recordId resolvedBy
  | consumeAllowOnce recordId =>
    cases hs
    exact consumeAllowOnce_inv h recordId
  | graceElapsed recordId uid =>
    obtain ⟨-, ⟨⟩⟩ := ite_none_right_eq_some.mp hs
    exact graceElapsed_inv h recordId uid
  | forward opts =>
    cases hs
    exact forward_inv h hkeeps

/-! ### Runs -/

/-- When no request takes the fallback for approvals that timed out on one that was resolved
with `allow-once`, such an approval lets at most one request through, and one that was resolved
with `deny` none. -/
theorem allow_once_at_most_once {s : State} {as : List Action}
    (hkeeps : Meets (next analysis) (KeepsOnce analysis) init as)
    (h : exec (next analysis) init as = some s) (u : ℕ) :
    ((u, ExecApprovalDecision.allowOnce) ∈ s.resolvedWith → s.authorised.count u ≤ 1) ∧
      ((u, ExecApprovalDecision.deny) ∈ s.resolvedWith → s.authorised.count u = 0) := by
  have hinv : Inv s :=
    exec_invariant_of_meets (fun _ _ _ hi hk hs => next_inv hi hk hs) hkeeps init_inv h
  exact ⟨hinv.once u, fun hd => count_eq_zero_of_not_mem (hinv.never u hd)⟩

/-! ### An approval that is used twice -/

/-- A command that was approved for a node. -/
def demoPlan : SystemRunApprovalPlan := ⟨["ls"], none, "ls", none, none, none, none⟩

/-- The payload of its approval. -/
def demoPayload : ExecApprovalRequestPayload :=
  ⟨some ⟨["ls"], none, none, none, none⟩, some demoPlan, some "node-1", some "node"⟩

/-- The two functions, where there is no environment and the command comes from the plan. -/
def demoAnalysis : RunAnalysis where
  resolveSystemRunCommandRequest _ _ := .ok ⟨[], ""⟩
  buildSystemRunApprovalEnvBinding _ := ⟨none, []⟩

/-- An operator's request to run the command as approved. -/
def demoRequest : ForwardRequest where
  nodeId := some "node-1"
  rawParams := .obj [("approved", .bool true), ("approvalDecision", .str "allow-once"),
    ("runId", .str "a")]
  client := some ⟨some "c1", some (.arr [.str "operator.approvals"]), none⟩
  managerGiven := true
  nowMs := 2

/-- The approval is resolved with `allow-once`, and the command requested twice. -/
def demoRun (resolvedBy : Option String) : List Action :=
  [.register 0 demoPayload 1000 "a" (some "c1") none, .resolve 1 "a" .allowOnce resolvedBy,
    .forward demoRequest, .forward demoRequest]

theorem allow_once_at_most_once_demo :
    ∃ s, exec (next demoAnalysis) init (demoRun (some "op")) = some s ∧
      (0, ExecApprovalDecision.allowOnce) ∈ s.resolvedWith ∧ s.authorised.count 0 ≤ 1 :=
  ⟨_, rfl, by decide +kernel,
    (allow_once_at_most_once (by decide +kernel : Meets (next demoAnalysis) (KeepsOnce demoAnalysis)
      init (demoRun (some "op"))) rfl 0).1 (by decide +kernel)⟩

/-- Resolved with nobody's name, the approval lets both requests through. -/
theorem allow_once_used_twice :
    ∃ s, exec (next demoAnalysis) init (demoRun none) = some s ∧
      (0, ExecApprovalDecision.allowOnce) ∈ s.resolvedWith ∧ s.authorised.count 0 = 2 :=
  ⟨_, rfl, by decide +kernel, by decide +kernel⟩

/-! ### What an approval lets through -/

variable {p params : Json.Fields} {record : ExecApprovalRecord} {context : RuntimeContext}

/-- The client is the one that asked for the approval. -/
def AskedBy (record : ExecApprovalRecord) (client : Option ApprovalClient) : Prop :=
  if record.requestedByDeviceId.getD "" ≠ "" then client.bind (·.deviceId) = record.requestedByDeviceId
  else record.requestedByConnId.getD "" ≠ "" → client.bind (·.connId) = record.requestedByConnId

/-- The parameters say what was bound. -/
structure Bound (analysis : RunAnalysis) (params : Json.Fields) (b : SystemRunApprovalBinding) : Prop where
  command : params.lookup "command" = some (.arr (b.argv.map .str)) ∨
    (analysis.resolveSystemRunCommandRequest (params.lookup "command") (params.lookup "rawCommand")).map (·.argv) =
      .ok b.argv
  texts : normalizeString (params.lookup "cwd") = b.cwd ∧ normalizeString (params.lookup "agentId") = b.agentId ∧
    normalizeString (params.lookup "sessionKey") = b.sessionKey
  env : (analysis.buildSystemRunApprovalEnvBinding (params.lookup "env")).envHash.getD "" = b.envHash.getD ""

/-- The approval is in force, and covers the parameters. -/
structure Covers (analysis : RunAnalysis) (record : ExecApprovalRecord) (opts : ForwardRequest)
    (params : Json.Fields) : Prop where
  unexpired : opts.nowMs ≤ record.expiresAtMs
  node : opts.nodeId.bind normalizeText ≠ none ∧
    opts.nodeId.bind normalizeText = record.request.nodeId.bind normalizeText
  client : AskedBy record opts.client
  binding : ∃ b ∈ record.request.systemRunBinding, b.argv ≠ [] ∧ Bound analysis params b

theorem askedBy_of_check {client : Option ApprovalClient} {runId : String} {u : Unit}
    (h : checkClient client runId record = .ok u) : AskedBy record client := by
  unfold checkClient at h
  unfold AskedBy
  cases hd : record.requestedByDeviceId <;> cases hc : record.requestedByConnId <;>
    simp only [hd, hc] at h <;> split_ifs at h <;> grind

theorem Bound.of_match {expected actual : SystemRunApprovalBinding} {envKeys : List String}
    (h : matchSystemRunApprovalBinding expected actual envKeys = .ok ()) (hb : Bound analysis params actual) :
    expected.argv ≠ [] ∧ Bound analysis params expected := by
  obtain ⟨hcommand, htexts, henv⟩ := hb
  simp only [matchSystemRunApprovalBinding] at h
  repeat' split at h
  any_goals cases h
  rename_i hargv hcwd hagent hsession
  rw [not_or, not_not] at hargv
  simp only [← hargv.2, ← not_not.mp hcwd, ← not_not.mp hagent, ← not_not.mp hsession] at hcommand htexts
  refine ⟨hargv.1, hcommand, htexts, henv.trans ?_⟩
  unfold matchSystemRunApprovalEnvHash at h
  cases he : expected.envHash <;> cases ha : actual.envHash <;> grind

theorem lookup_setOrDelete (next : Json.Fields) (key k : String) (value : Option String) :
    (setOrDelete next key value).lookup k = if k = key then
      value.bind fun v => if v = "" then none else some (.str v) else next.lookup k := by
  unfold setOrDelete
  grind [Json.Fields.lookup_set, Json.Fields.lookup_erase]

theorem normalizeString_str (value : Option String) :
    normalizeString (value.bind fun v => if v = "" then none else some (.str v)) = value.bind normalizeText := by
  rcases value with - | v
  · rfl
  · by_cases hv : v = "" <;> simp [hv, normalizeString, show normalizeText "" = none from rfl]

theorem normalizeString_bind (v : Option Json) : (normalizeString v).bind normalizeText = normalizeString v := by
  unfold normalizeString normalizeText
  grind [Text.trimString_trimString]

/-- What is forwarded, plan or no plan, says what is checked. -/
theorem bound_of_resolve {plan : Option SystemRunApprovalPlan}
    (h : resolveSystemRunApprovalRuntimeContext analysis plan p = .ok context) (d : String) :
    Bound analysis (withApproval (withPlan (pickSystemRunParams p) context) d)
      { argv := context.argv
        cwd := context.cwd.bind normalizeText
        agentId := context.agentId.bind normalizeText
        sessionKey := context.sessionKey.bind normalizeText
        envHash := (analysis.buildSystemRunApprovalEnvBinding (p.lookup "env")).envHash } := by
  have hpick (k : String) : (pickSystemRunParams p).lookup k = _ := lookup_pick p forwardedFields k
  rw [resolveSystemRunApprovalRuntimeContext] at h
  split at h
  · cases h
    constructor <;> simp [withApproval, withPlan, lookup_setOrDelete, Json.Fields.lookup_set, normalizeString_str,
      hpick, forwardedFields]
  · cases hc : analysis.resolveSystemRunCommandRequest (p.lookup "command") (p.lookup "rawCommand") with
    | error e => simp [hc, bind, Except.bind] at h
    | ok command =>
      simp only [hc, bind, Except.bind] at h
      cases h
      constructor <;> simp [withApproval, withPlan, Json.Fields.lookup_set, normalizeString_bind, hpick,
        forwardedFields, hc, Except.map]

theorem covers_of_check {runId : String} (h : checkApproval analysis opts p runId record = .ok context)
    (d : String) :
    Covers analysis record opts (withApproval (withPlan (pickSystemRunParams p) context) d) := by
  simp only [checkApproval, bind, Except.bind, pure, Except.pure, throw, throwThe, MonadExceptOf.throw] at h
  repeat' split at h
  any_goals cases h
  rename_i hexpired _ _ _ _ hnode hnode' heq _ _ hclient _ _ hresolve hmatch
  refine ⟨Rat.not_lt.mp hexpired, by simp [hnode, hnode', not_not.mp heq], askedBy_of_check hclient, ?_⟩
  simp only [evaluateSystemRunApprovalMatch] at hmatch
  repeat' split at hmatch
  any_goals cases hmatch
  exact ⟨_, ‹_›, Bound.of_match hmatch (bound_of_resolve hresolve d)⟩

/-- A request is forwarded as approved only with what an approval that covers it was bound to. -/
theorem forwards_what_was_approved {m : Manager}
    (h : forwardsApproved (sanitizeSystemRunParamsForForwarding analysis m opts).2 = true) :
    ∃ params entry, (sanitizeSystemRunParamsForForwarding analysis m opts).2 = .ok (.picked params) ∧
      namedEntry m opts = some entry ∧ Covers analysis entry.record opts params := by
  rcases hres : (sanitizeSystemRunParamsForForwarding analysis m opts).2 with e | raw | params
  any_goals (rw [hres] at h; cases h)
  rw [hres] at h
  unfold sanitizeSystemRunParamsForForwarding sanitizeOverride at hres
  repeat' split at hres
  any_goals cases hres
  · rename_i p hp _ _ runId hrunId _ _ record hrecord _ context hcheck
    obtain ⟨entry, hentry, rfl⟩ := map_eq_some_iff.mp hrecord
    -- whatever the decision, only the approval is written over the checked parameters
    obtain ⟨d, rfl⟩ : ∃ d, params = withApproval (withPlan (pickSystemRunParams p) context) d := by
      simp only [applyDecision] at hres
      grind
    exact ⟨_, entry, rfl, by simp [namedEntry, hp, hrunId, hentry], covers_of_check hcheck d⟩
  · rw [forwardsApproved, isApproved, lookup_approved_pick] at h
    cases h

theorem forwards_what_was_approved_demo : ∃ m params entry,
    namedEntry m demoRequest = some entry ∧ Covers demoAnalysis entry.record demoRequest params :=
  let ⟨params, entry, _, hcovers⟩ := @forwards_what_was_approved demoAnalysis demoRequest
    ((exec (next demoAnalysis) init ((demoRun none).take 2)).getD init).manager (by decide +kernel)
  ⟨_, params, entry, hcovers⟩

end Foxclaw.Gateway.ExecApproval
