import Foxclaw.Cron.Locked
import Foxclaw.Lib.Numbered

/-!
# The order of the sections of a store

A call waits for what is kept alive of the call before it with the store, and that is fulfilled
only after that call's section has ended, however it did. So when a section starts, all earlier
ones with the store have ended.

## What is proved

* `Ordered.next` — what holds of the links between the calls, in every step.
* `Serial` — what the lock promises; `locked_serial`, in every state of every run.
* `exists_quiet` — the reactions come to an end.
-/

namespace Foxclaw.Cron.Locked

open List Option Numbered

variable {σ π ρ : Type}

/-! ### The links between calls -/

/-- The call of a number. -/
abbrev At (calls : List (Call σ ρ)) (i : ℕ) (c : Call σ ρ) : Prop := calls[i]? = some c

/-- The section was started. -/
def Stage.Started : Stage ρ → Prop
  | .waiting => False
  | .ready => False
  | _ => True

/-- The section has ended. -/
def Stage.Ended : Stage ρ → Prop
  | .settled _ => True
  | .done _ => True
  | _ => False

variable {storePath : σ → π} {calls : List (Call σ ρ)} {i : ℕ} {c c' : Call σ ρ}

/-- What is kept alive of the earlier calls with a store is fulfilled. -/
def OverBefore (storePath : σ → π) (calls : List (Call σ ρ)) (i : ℕ) (path : π) : Prop :=
  ∀ j u, j < i → At calls j u → storePath u.service = path → u.keptAlive = true

/-- What a call has come to, and what it has waited for. -/
structure CallOk (storePath : σ → π) (calls : List (Call σ ρ)) (i : ℕ) (c : Call σ ρ) : Prop where
  /-- The store's chain is over: so are the earlier calls with the store. -/
  before : c.storeOver = true → OverBefore storePath calls i (storePath c.service)
  /-- A call that does not wait has seen the store's chain over. -/
  past : c.stage ≠ .waiting → c.storeOver = true
  kept : c.keptAlive = true → ∃ outcome, c.stage = .done outcome
  /-- So has one that was replied to. -/
  replied : c.replied = true → ∃ outcome, c.stage = .done outcome

/-- How the calls hang together. -/
structure Links (storePath : σ → π) (calls : List (Call σ ρ)) : Prop where
  /-- The call before with the store: there is none in between. -/
  store : ∀ i c p, At calls i c → c.storeOp = some p →
    p < i ∧ (∃ u, At calls p u ∧ storePath u.service = storePath c.service) ∧
    ∀ j u, p < j → j < i → At calls j u → storePath u.service ≠ storePath c.service
  /-- There is no call before with the store. -/
  first : ∀ i c, At calls i c → c.storeOp = none → ∀ j u, j < i → At calls j u →
    storePath u.service ≠ storePath c.service
  /-- An earlier call of the service. -/
  op : ∀ i c p, At calls i c → c.op = some p →
    p < i ∧ ∃ u, At calls p u ∧ storePath u.service = storePath c.service

/-- What the histories have. -/
structure Logged (storePath : σ → π) (calls : List (Call σ ρ)) (starts : List ℕ)
    (replies : List (ℕ × ρ)) : Prop where
  /-- A section is in the history when it was started. -/
  started : ∀ i, i ∈ starts ↔ ∃ c, At calls i c ∧ c.stage.Started
  /-- The history is in the order of the calls with each store. -/
  inOrder : starts.Pairwise fun i j => ∀ c u, At calls i c → At calls j u →
    storePath c.service = storePath u.service → i < j
  /-- A caller has its reply when its promise is settled. -/
  replied : ∀ i, i ∈ replies.map Prod.fst ↔ ∃ c, At calls i c ∧ c.replied = true
  /-- A caller gets what its own section ended with, -/
  own : ∀ i outcome, (i, outcome) ∈ replies → ∃ c, At calls i c ∧ c.stage = .done outcome
  /-- and gets it once. -/
  once : (replies.map Prod.fst).Nodup

/-- What the chains are known by. -/
structure LocksOk [DecidableEq π] (storePath : σ → π) (calls : List (Call σ ρ)) (op : σ → Option ℕ)
    (storeLocks : JsMap π ℕ) : Prop where
  /-- `storeLocks` has the last call with the store. -/
  last : ∀ path p, storeLocks.get? path = some p →
    (∃ u, At calls p u ∧ storePath u.service = path) ∧
    ∀ j u, p < j → At calls j u → storePath u.service ≠ path
  /-- A store that is not there: no call was made with it. -/
  absent : ∀ path, storeLocks.get? path = none → ∀ j u, At calls j u → storePath u.service ≠ path
  /-- `state.op` is a call of the service. -/
  own : ∀ service p, op service = some p → ∃ u, At calls p u ∧ u.service = service

/-- What holds in every run. -/
structure Ordered [DecidableEq π] (storePath : σ → π) (s : State σ π ρ) : Prop where
  /-- The calls, -/
  callOk : ∀ i c, At s.calls i c → CallOk storePath s.calls i c
  /-- their links, -/
  links : Links storePath s.calls
  /-- the chains, -/
  locks : LocksOk storePath s.calls s.op s.storeLocks
  /-- and the histories. -/
  logged : Logged storePath s.calls s.starts s.replies

/-! ### A call comes on -/

variable {j : ℕ}

variable {u : Call σ ρ}

/-- The call comes on: what it waits for stays, and so does what it has come to. -/
structure Advances (c c' : Call σ ρ) : Prop where
  service : c'.service = c.service
  op : c'.op = c.op
  storeOp : c'.storeOp = c.storeOp
  kept : c.keptAlive = true → c'.keptAlive = true

/-- What is found at a place was there before, or is the call that came on. -/
theorem exists_at_of_at_set (hc : At calls i c) (h : Advances c c')
    (hu : At (calls.set i c') j u) : ∃ v, At calls j v ∧ v.service = u.service ∧ v.op = u.op ∧
      v.storeOp = u.storeOp ∧ (v.keptAlive = true → u.keptAlive = true) := by
  obtain ⟨rfl, rfl⟩ | ⟨-, hu⟩ := of_at_set hc hu
  · exact ⟨c, hc, h.service.symm, h.op.symm, h.storeOp.symm, h.kept⟩
  · exact ⟨u, hu, rfl, rfl, rfl, id⟩

theorem exists_at_set_of_at (hc : At calls i c) (h : Advances c c')
    (hu : At calls j u) : ∃ v, At (calls.set i c') j v ∧ v.service = u.service := by
  by_cases hij : i = j
  · subst hij
    exact ⟨c', at_set_self hc, by rw [h.service, at_unique hu hc]⟩
  · exact ⟨u, (at_set_of_ne hij).mpr hu, rfl⟩

theorem OverBefore.set {n : ℕ} {path : π} (h : OverBefore storePath calls n path) (hc : At calls i c)
    (hadv : Advances c c') : OverBefore storePath (calls.set i c') n path := by
  intro j u hj hu hk
  obtain ⟨v, hv, hs, -, -, hkept⟩ := exists_at_of_at_set hc hadv hu
  exact hkept (h j v hj hv (by rw [hs, hk]))

theorem CallOk.set (h : CallOk storePath calls j u) (hc : At calls i c)
    (hadv : Advances c c') : CallOk storePath (calls.set i c') j u :=
  ⟨fun ho => (h.before ho).set hc hadv, h.past, h.kept, h.replied⟩

theorem Links.set (h : Links storePath calls) (hc : At calls i c) (hadv : Advances c c') :
    Links storePath (calls.set i c') where
  store j u p hu hp := by
    obtain ⟨v, hv, hs, -, hstore, -⟩ := exists_at_of_at_set hc hadv hu
    obtain ⟨hlt, ⟨w, hw, hws⟩, hbetween⟩ := h.store j v p hv (by rw [hstore, hp])
    obtain ⟨w', hw', hws'⟩ := exists_at_set_of_at hc hadv hw
    refine ⟨hlt, ⟨w', hw', by rw [hws', hws, hs]⟩, fun k x hpk hkj hx => ?_⟩
    obtain ⟨y, hy, hys, -⟩ := exists_at_of_at_set hc hadv hx
    rw [← hys, ← hs]
    exact hbetween k y hpk hkj hy
  first j u hu hp k x hk hx := by
    obtain ⟨v, hv, hs, -, hstore, -⟩ := exists_at_of_at_set hc hadv hu
    obtain ⟨y, hy, hys, -⟩ := exists_at_of_at_set hc hadv hx
    rw [← hys, ← hs]
    exact h.first j v hv (by rw [hstore, hp]) k y hk hy
  op j u p hu hp := by
    obtain ⟨v, hv, hs, hop, -⟩ := exists_at_of_at_set hc hadv hu
    obtain ⟨hlt, w, hw, hws⟩ := h.op j v p hv (by rw [hop, hp])
    obtain ⟨w', hw', hws'⟩ := exists_at_set_of_at hc hadv hw
    exact ⟨hlt, w', hw', by rw [hws', hws, hs]⟩

theorem LocksOk.set {op : σ → Option ℕ} [DecidableEq π] {storeLocks : JsMap π ℕ}
    (h : LocksOk storePath calls op storeLocks) (hc : At calls i c) (hadv : Advances c c') :
    LocksOk storePath (calls.set i c') op storeLocks where
  last path p hp := by
    obtain ⟨⟨u, hu, hus⟩, hlater⟩ := h.last path p hp
    obtain ⟨u', hu', hus'⟩ := exists_at_set_of_at hc hadv hu
    refine ⟨⟨u', hu', by rw [hus', hus]⟩, fun j v hj hv => ?_⟩
    obtain ⟨w, hw, hws, -⟩ := exists_at_of_at_set hc hadv hv
    exact hws ▸ hlater j w hj hw
  absent path hp j v hv := by
    obtain ⟨w, hw, hws, -⟩ := exists_at_of_at_set hc hadv hv
    exact hws ▸ h.absent path hp j w hw
  own service p hp := by
    obtain ⟨u, hu, hus⟩ := h.own service p hp
    obtain ⟨u', hu', hus'⟩ := exists_at_set_of_at hc hadv hu
    exact ⟨u', hu', hus'.trans hus⟩

/-! ### The histories -/

variable {starts : List ℕ} {replies : List (ℕ × ρ)}

/-- A step that the histories do not show. -/
theorem Logged.set (h : Logged storePath calls starts replies) (hc : At calls i c) (hadv : Advances c c')
    (hstart : c.stage.Started ↔ c'.stage.Started) (hreply : c.replied = c'.replied)
    (hdone : ∀ outcome, c.stage = .done outcome → c'.stage = .done outcome) :
    Logged storePath (calls.set i c') starts replies where
  started j := by rw [h.started, exists_at_set_iff (P := fun u => u.stage.Started) hc hstart]
  inOrder := inOrder_set h.inOrder hc (congrArg storePath hadv.service)
  replied j := by
    rw [h.replied, exists_at_set_iff (P := fun u => u.replied = true) hc (by rw [hreply])]
  own := own_set h.own hc hdone
  once := h.once

/-- A section is started: no later call with the store was. -/
theorem Logged.start (h : Logged storePath calls starts replies)
    (hok : ∀ j u, At calls j u → CallOk storePath calls j u) (hc : At calls i c) (hstage : c.stage = .ready) :
    Logged storePath (calls.set i { c with stage := .running }) (starts ++ [i]) replies where
  started j := by
    refine Iff.trans ?_ (exists_at_set_iff_or (P := fun u => u.stage.Started) hc (by trivial) j).symm
    rw [mem_append, mem_singleton, h.started, or_comm, eq_comm (a := j)]
  inOrder := by
    rw [pairwise_append]
    refine ⟨inOrder_set h.inOrder hc rfl, pairwise_singleton _ _, fun m hm n hn v u hv hu hk => ?_⟩
    obtain rfl := mem_singleton.mp hn
    obtain ⟨w, hw, hstarted⟩ := (h.started m).mp hm
    have hne : n ≠ m := by
      rintro rfl
      rw [at_unique hw hc, hstage] at hstarted
      exact hstarted
    by_contra hle
    have hlt : n < m := by omega
    obtain rfl := at_unique hw ((at_set_of_ne hne).mp hv)
    -- a later section that has started has seen this one over
    have hpast : w.stage ≠ .waiting := by
      intro hwait
      rw [hwait] at hstarted
      exact hstarted
    have hover := (hok m w hw).before ((hok m w hw).past hpast) n c hlt hc
      (by rw [hk, at_unique hu (at_set_self hc)])
    obtain ⟨outcome, hdone⟩ := (hok n c hc).kept hover
    rw [hstage] at hdone
    cases hdone
  replied j := (h.replied j).trans
    (exists_at_set_iff (P := fun u => u.replied = true) hc (by exact Iff.rfl) j).symm
  own := own_set h.own hc fun outcome hdone => by rw [hstage] at hdone; cases hdone
  once := h.once

/-- A caller gets what its section ended with. -/
theorem Logged.reply {outcome : ρ} (h : Logged storePath calls starts replies) (hc : At calls i c)
    (hstage : c.stage = .done outcome) (hnot : c.replied = false) :
    Logged storePath (calls.set i { c with replied := true }) starts (replies ++ [(i, outcome)]) := by
  have hnew : i ∉ replies.map Prod.fst := fun hm => by
    obtain ⟨u, hu, hreplied⟩ := (h.replied i).mp hm
    rw [at_unique hu hc, hnot] at hreplied
    cases hreplied
  refine ⟨fun j => ?_, inOrder_set h.inOrder hc rfl, fun j => ?_, fun j o hm => ?_, ?_⟩
  · exact (h.started j).trans (exists_at_set_iff (P := fun u => u.stage.Started) hc (by exact Iff.rfl) j).symm
  · refine Iff.trans ?_ (exists_at_set_iff_or (P := fun u => u.replied = true) hc (by rfl) j).symm
    rw [map_append, mem_append, h.replied, or_comm, map_singleton, mem_singleton, eq_comm]
  · rcases mem_append.mp hm with hm | hm
    · exact own_set h.own hc (by exact fun _ hdone => hdone) j o hm
    · obtain ⟨rfl, rfl⟩ := Prod.mk.inj (mem_singleton.mp hm)
      exact ⟨_, at_set_self hc, hstage⟩
  · rw [map_append, nodup_append']
    refine ⟨h.once, nodup_singleton i, fun j hj hj' => ?_⟩
    obtain rfl := mem_singleton.mp hj'
    exact hnew hj

/-! ### A new call -/

variable {n : Call σ ρ}

theorem OverBefore.append {m : ℕ} {path : π} (h : OverBefore storePath calls m path)
    (hm : m ≤ calls.length) : OverBefore storePath (calls ++ [n]) m path := by
  intro j u hj hu hk
  exact h j u hj (at_of_at_append hu (by omega)) hk

/-- A call that has just been made. -/
def newCall (service : σ) (op storeOp : Option ℕ) : Call σ ρ := { service, op, storeOp }

theorem Logged.append (h : Logged storePath calls starts replies) (service : σ) (op storeOp : Option ℕ) :
    Logged storePath (calls ++ [newCall service op storeOp]) starts replies where
  started j := (h.started j).trans
    (exists_at_append_iff (P := fun u : Call σ ρ => u.stage.Started) (by exact fun hs => hs) j).symm
  inOrder := inOrder_append h.inOrder fun j hj => (h.started j).mp hj
  replied j := (h.replied j).trans
    (exists_at_append_iff (P := fun u : Call σ ρ => u.replied = true) (by exact Bool.false_ne_true) j).symm
  own := own_append h.own
  once := h.once

/-! ### Every run -/

variable {s s' : State σ π ρ}

/-- When the chain that a call waits for is over, so are the earlier calls with the store. -/
theorem Ordered.overBefore [DecidableEq π] (h : Ordered storePath s) (hc : At s.calls i c)
    (hover : s.settled c.storeOp = true) : OverBefore storePath s.calls i (storePath c.service) := by
  intro j u hj hu hk
  cases hp : c.storeOp with
  | none => exact absurd hk (h.links.first i c hc hp j u hj hu)
  | some p =>
    rw [hp] at hover
    obtain ⟨v, hv, hkept⟩ := (Option.any_eq_true _ _).mp hover
    obtain ⟨hlt, ⟨w, hw, hws⟩, hbetween⟩ := h.links.store i c p hc hp
    obtain rfl := at_unique hw hv
    have hpast : OverBefore storePath s.calls p (storePath w.service) := by
      obtain ⟨outcome, hdone⟩ := (h.callOk p w hw).kept hkept
      exact (h.callOk p w hw).before ((h.callOk p w hw).past (by rw [hdone]; nofun))
    rcases Nat.lt_trichotomy j p with hjp | rfl | hjp
    · exact hpast j u hjp hu (hk.trans hws.symm)
    · exact at_unique hw hu ▸ hkept
    · exact absurd hk (hbetween j u hjp hj hu)

theorem Ordered.put [DecidableEq π] (h : Ordered storePath s) (hc : At s.calls i c) (hadv : Advances c c')
    (hover : c'.storeOver = true → OverBefore storePath s.calls i (storePath c.service))
    (hpast : c'.stage ≠ .waiting → c'.storeOver = true)
    (hkept : c'.keptAlive = true → ∃ outcome, c'.stage = .done outcome)
    (hreplied : c'.replied = true → ∃ outcome, c'.stage = .done outcome)
    (hlogged : Logged storePath (s.calls.set i c') starts replies) :
    Ordered storePath { s.put i c' with starts, replies } where
  callOk j u hu := by
    obtain ⟨rfl, rfl⟩ | ⟨-, hu'⟩ := of_at_set hc hu
    · refine ⟨fun ho => ?_, hpast, hkept, hreplied⟩
      rw [hadv.service]
      exact (hover ho).set hc hadv
    · exact (h.callOk j u hu').set hc hadv
  links := h.links.set hc hadv
  locks := h.locks.set hc hadv
  logged := hlogged

theorem Ordered.react [DecidableEq π] {r : Reaction} (h : Ordered storePath s) (hc : At s.calls i c)
    (hs : Locked.react s i c r = some s') : Ordered storePath s' := by
  have hok := h.callOk i c hc
  cases r with
  | op =>
    obtain ⟨-, ⟨⟩⟩ := ite_none_right_eq_some.mp hs
    exact h.put hc ⟨rfl, rfl, rfl, id⟩ hok.before hok.past hok.kept hok.replied
      (h.logged.set hc ⟨rfl, rfl, rfl, id⟩ Iff.rfl rfl fun _ hd => hd)
  | storeOp =>
    obtain ⟨⟨-, hover⟩, ⟨⟩⟩ := ite_none_right_eq_some.mp hs
    exact h.put hc ⟨rfl, rfl, rfl, id⟩ (fun _ => h.overBefore hc hover) (fun _ => rfl) hok.kept
      hok.replied (h.logged.set hc ⟨rfl, rfl, rfl, id⟩ Iff.rfl rfl fun _ hd => hd)
  | all =>
    rw [Locked.react] at hs
    split at hs
    · rename_i hstage
      obtain ⟨⟨-, hover⟩, ⟨⟩⟩ := ite_none_right_eq_some.mp hs
      have hnot : ∀ outcome, c.stage ≠ .done outcome := fun outcome hd => by rw [hstage] at hd; cases hd
      refine h.put hc ⟨rfl, rfl, rfl, id⟩ hok.before (fun _ => hover)
        (fun hk => absurd (hok.kept hk).choose_spec (hnot _))
        (fun hr => absurd (hok.replied hr).choose_spec (hnot _))
        (h.logged.set hc ⟨rfl, rfl, rfl, id⟩ ?_ rfl fun outcome hd => absurd hd (hnot outcome))
      rw [hstage]
      exact Iff.rfl
    · cases hs
  | start =>
    rw [Locked.react] at hs
    split at hs
    · rename_i hstage
      cases hs
      have hnot : ∀ outcome, c.stage ≠ .done outcome := fun outcome hd => by rw [hstage] at hd; cases hd
      exact h.put hc ⟨rfl, rfl, rfl, id⟩ hok.before (fun _ => hok.past (by rw [hstage]; nofun))
        (fun hk => absurd (hok.kept hk).choose_spec (hnot _))
        (fun hr => absurd (hok.replied hr).choose_spec (hnot _)) (h.logged.start h.callOk hc hstage)
    · cases hs
  | finish =>
    rw [Locked.react] at hs
    split at hs
    · rename_i outcome hstage
      cases hs
      refine h.put hc ⟨rfl, rfl, rfl, id⟩ hok.before (fun _ => hok.past (by rw [hstage]; nofun))
        (fun _ => ⟨outcome, rfl⟩) (fun _ => ⟨outcome, rfl⟩)
        (h.logged.set hc ⟨rfl, rfl, rfl, id⟩ ?_ rfl fun _ hd => ?_)
      · rw [hstage]
        exact Iff.rfl
      · rw [hstage] at hd
        cases hd
    · cases hs
  | keepAlive =>
    rw [Locked.react] at hs
    split at hs
    · rename_i outcome hstage
      obtain ⟨-, ⟨⟩⟩ := ite_none_right_eq_some.mp hs
      exact h.put hc ⟨rfl, rfl, rfl, fun _ => rfl⟩ hok.before hok.past (fun _ => ⟨outcome, hstage⟩)
        hok.replied (h.logged.set hc ⟨rfl, rfl, rfl, fun _ => rfl⟩ Iff.rfl rfl fun _ hd => hd)
    · cases hs
  | reply =>
    rw [Locked.react] at hs
    split at hs
    · rename_i outcome hstage
      obtain ⟨hnot, ⟨⟩⟩ := ite_none_right_eq_some.mp hs
      exact h.put hc ⟨rfl, rfl, rfl, id⟩ hok.before hok.past hok.kept (fun _ => ⟨outcome, hstage⟩)
        (h.logged.reply hc hstage hnot)
    · cases hs

theorem Ordered.call [DecidableEq σ] [DecidableEq π] (h : Ordered storePath s) (service : σ) :
    Ordered storePath (locked storePath s service) where
  callOk j u hu := by
    obtain ⟨-, rfl⟩ | hu' := of_at_append hu
    · exact ⟨fun ho => absurd ho Bool.false_ne_true, fun hne => absurd rfl hne,
        fun hkept => absurd hkept Bool.false_ne_true, fun hreplied => absurd hreplied Bool.false_ne_true⟩
    · have hj := lt_of_at hu'
      have hok := h.callOk j u hu'
      exact ⟨fun ho => (hok.before ho).append (by omega), hok.past, hok.kept, hok.replied⟩
  links := by
    refine ⟨fun j u p hu hp => ?_, fun j u hu hp k x hk hx => ?_, fun j u p hu hp => ?_⟩ <;>
      obtain ⟨rfl, rfl⟩ | hu := of_at_append hu
    · -- the call that was the last with the store
      obtain ⟨⟨v, hv, hvs⟩, hlater⟩ := h.locks.last _ p hp
      refine ⟨lt_of_at hv, ⟨v, at_append_of_at hv, hvs⟩, fun k x hpk hk hx => ?_⟩
      exact hlater k x hpk (at_of_at_append hx hk)
    · have hj := lt_of_at hu
      obtain ⟨hlt, ⟨v, hv, hvs⟩, hbetween⟩ := h.links.store j u p hu hp
      refine ⟨hlt, ⟨v, at_append_of_at hv, hvs⟩, fun k x hpk hk hx => ?_⟩
      exact hbetween k x hpk hk (at_of_at_append hx (by omega))
    · exact h.locks.absent _ hp k x (at_of_at_append hx hk)
    · have hj := lt_of_at hu
      exact h.links.first j u hu hp k x hk (at_of_at_append hx (by omega))
    · obtain ⟨v, hv, hvs⟩ := h.locks.own service p hp
      exact ⟨lt_of_at hv, v, at_append_of_at hv, by rw [hvs]⟩
    · obtain ⟨hlt, v, hv, hvs⟩ := h.links.op j u p hu hp
      exact ⟨hlt, v, at_append_of_at hv, hvs⟩
  locks := by
    refine ⟨fun path p hp => ?_, fun path hp j u hu => ?_, fun other p hp => ?_⟩
    · rw [locked, JsMap.get?_set] at hp
      split at hp
      · rename_i hpath
        subst hpath
        obtain rfl := some.inj hp
        refine ⟨⟨_, at_append_self, rfl⟩, fun j u hj hu => ?_⟩
        have := lt_of_at hu
        simp [locked] at this
        omega
      · rename_i hpath
        obtain ⟨⟨v, hv, hvs⟩, hlater⟩ := h.locks.last path p hp
        refine ⟨⟨v, at_append_of_at hv, hvs⟩, fun j u hj hu => ?_⟩
        obtain ⟨-, rfl⟩ | hu := of_at_append hu
        · exact fun heq => hpath heq
        · exact hlater j u hj hu
    · rw [locked, JsMap.get?_set] at hp
      split at hp
      · cases hp
      · rename_i hpath
        obtain ⟨-, rfl⟩ | hu := of_at_append hu
        · exact fun heq => hpath heq
        · exact h.locks.absent path hp j u hu
    · have hp' : Function.update s.op service (some s.calls.length) other = some p := hp
      rw [Function.update_apply] at hp'
      split at hp'
      · rename_i hother
        subst hother
        obtain rfl := some.inj hp'
        exact ⟨_, at_append_self, rfl⟩
      · obtain ⟨v, hv, hvs⟩ := h.locks.own other p hp'
        exact ⟨v, at_append_of_at hv, hvs⟩
  logged := h.logged.append service _ _

/-- One step keeps the links, the chains and the histories. -/
theorem Ordered.next [DecidableEq σ] [DecidableEq π] {a : Action σ ρ} (h : Ordered storePath s)
    (hs : Locked.next storePath s a = some s') : Ordered storePath s' := by
  cases a with
  | call service =>
    cases hs
    exact h.call service
  | settle i outcome =>
    rw [Locked.next] at hs
    split at hs
    · cases hs
    · rename_i c hc
      have hok := h.callOk i c hc
      split at hs
      · rename_i hstage
        cases hs
        have hnot : ∀ o, c.stage ≠ .done o := fun o hd => by rw [hstage] at hd; cases hd
        refine h.put hc ⟨rfl, rfl, rfl, id⟩ hok.before (fun _ => hok.past (by rw [hstage]; nofun))
          (fun hk => absurd (hok.kept hk).choose_spec (hnot _))
          (fun hr => absurd (hok.replied hr).choose_spec (hnot _))
          (h.logged.set hc ⟨rfl, rfl, rfl, id⟩ ?_ rfl fun o hd => absurd hd (hnot o))
        rw [hstage]
        exact Iff.rfl
      · cases hs
  | react i r =>
    rw [Locked.next] at hs
    split at hs
    · cases hs
    · rename_i c hc
      exact h.react hc hs

theorem Ordered.start [DecidableEq π] : Ordered storePath (State.start : State σ π ρ) := by
  refine ⟨?_, ?_, ?_, ?_⟩
  · intro i c hc
    simp [State.start, At] at hc
  all_goals constructor <;> simp [State.start, At]

/-! ### What is promised -/

/-- No reaction is left to run. -/
def Quiet [DecidableEq σ] [DecidableEq π] (storePath : σ → π) (s : State σ π ρ) : Prop :=
  ∀ i r, Locked.next storePath s (.react i r) = none

/-- What the lock promises. -/
structure Serial [DecidableEq σ] [DecidableEq π] (storePath : σ → π) (s : State σ π ρ) : Prop where
  /-- Sections with one store do not overlap. -/
  alone : ∀ i j c u, At s.calls i c → At s.calls j u → storePath c.service = storePath u.service →
    c.stage = .running → u.stage = .running → i = j
  /-- The history has the sections that were started, -/
  started : ∀ i, i ∈ s.starts ↔ ∃ c, At s.calls i c ∧ c.stage.Started
  /-- each once, -/
  startedOnce : s.starts.Nodup
  /-- and those with one store in the order of the calls. -/
  inOrder : s.starts.Pairwise fun i j => ∀ c u, At s.calls i c → At s.calls j u →
    storePath c.service = storePath u.service → i < j
  /-- A caller gets what its own section ended with, -/
  own : ∀ i outcome, (i, outcome) ∈ s.replies → ∃ c, At s.calls i c ∧ c.stage = .done outcome
  /-- and gets it once. -/
  once : (s.replies.map Prod.fst).Nodup
  /-- When no reaction is left, a section was started once those of the earlier calls with the
  store have ended, however they did. -/
  starts : Quiet storePath s → ∀ i c, At s.calls i c →
    (∀ j u, j < i → At s.calls j u → storePath u.service = storePath c.service → u.stage.Ended) →
    i ∈ s.starts
  /-- When no reaction is left, the caller of each section that has ended has got its outcome. -/
  replied : Quiet storePath s → ∀ i c, At s.calls i c → c.stage.Ended → i ∈ s.replies.map Prod.fst

section

variable [DecidableEq σ] [DecidableEq π]

theorem react_of_quiet (hq : Quiet storePath s) (hc : At s.calls i c) (r : Reaction) :
    Locked.react s i c r = none := by
  have h := hq i r
  rw [Locked.next, show s.calls[i]? = some c from hc] at h
  exact h

/-- When no reaction is left, a section that has ended is over, and its caller has its reply. -/
theorem done_of_quiet (hq : Quiet storePath s) (hc : At s.calls i c) (h : c.stage.Ended) :
    c.keptAlive = true ∧ c.replied = true := by
  have hfinish := react_of_quiet hq hc .finish
  have hkeep := react_of_quiet hq hc .keepAlive
  have hreply := react_of_quiet hq hc .reply
  simp only [Locked.react] at hfinish hkeep hreply
  cases hstage : c.stage with
  | waiting => rw [hstage] at h; cases h
  | ready => rw [hstage] at h; cases h
  | running => rw [hstage] at h; cases h
  | settled outcome => simp [hstage] at hfinish
  | done outcome => simpa [hstage] using And.intro hkeep hreply

/-- When no reaction is left, a call whose chains are over was started. -/
theorem started_of_quiet (hq : Quiet storePath s) (hc : At s.calls i c)
    (hop : s.settled c.op = true) (hstore : s.settled c.storeOp = true) : c.stage.Started := by
  have hop' : c.opOver = true := by
    simpa [Locked.react, hop] using react_of_quiet hq hc .op
  have hstore' : c.storeOver = true := by
    simpa [Locked.react, hstore] using react_of_quiet hq hc .storeOp
  have hall := react_of_quiet hq hc .all
  have hstart := react_of_quiet hq hc .start
  simp only [Locked.react] at hall hstart
  cases hstage : c.stage with
  | waiting => simp [hstage, hop', hstore'] at hall
  | ready => simp [hstage] at hstart
  | running => exact trivial
  | settled outcome => exact trivial
  | done outcome => exact trivial

omit [DecidableEq σ] in
theorem Ordered.over_of_started (h : Ordered storePath s) (hc : At s.calls i c)
    (hstarted : c.stage.Started) : OverBefore storePath s.calls i (storePath c.service) := by
  refine (h.callOk i c hc).before ((h.callOk i c hc).past fun hwait => ?_)
  rw [hwait] at hstarted
  exact hstarted

omit [DecidableEq σ] in
theorem Ordered.not_running_before (h : Ordered storePath s) {j : ℕ} {u : Call σ ρ} (hc : At s.calls i c)
    (hu : At s.calls j u) (hij : i < j) (hpath : storePath c.service = storePath u.service)
    (hc' : c.stage = .running) (hu' : u.stage = .running) : False := by
  have hkept := h.over_of_started hu (by rw [hu']; trivial) i c hij hc hpath
  obtain ⟨outcome, hdone⟩ := (h.callOk i c hc).kept hkept
  rw [hc'] at hdone
  cases hdone

/-- The promise that a call waits for is settled, when the sections of the earlier calls with the
store have ended and no reaction is left. -/
theorem settled_of_quiet (hq : Quiet storePath s) {p : Option ℕ} {path : π}
    (hp : ∀ n, p = some n → n < i ∧ ∃ u, At s.calls n u ∧ storePath u.service = path)
    (hearlier : ∀ j u, j < i → At s.calls j u → storePath u.service = path → u.stage.Ended) :
    s.settled p = true := by
  cases p with
  | none => rfl
  | some n =>
    obtain ⟨hlt, u, hu, hpath⟩ := hp n rfl
    have hkept := (done_of_quiet hq hu (hearlier n u hlt hu hpath)).1
    rw [State.settled, show s.calls[n]? = some u from hu]
    simpa using hkept

theorem Ordered.serial (h : Ordered storePath s) : Serial storePath s where
  alone i j c u hc hu hpath hc' hu' := by
    rcases Nat.lt_trichotomy i j with hij | rfl | hij
    · exact (h.not_running_before hc hu hij hpath hc' hu').elim
    · rfl
    · exact (h.not_running_before hu hc hij hpath.symm hu' hc').elim
  started := h.logged.started
  startedOnce := by
    refine h.logged.inOrder.imp_of_mem fun hi hj hlt => ?_
    rintro rfl
    obtain ⟨c, hc, -⟩ := (h.logged.started _).mp hi
    exact absurd (hlt c c hc hc rfl) (Nat.lt_irrefl _)
  inOrder := h.logged.inOrder
  own := h.logged.own
  once := h.logged.once
  starts hq i c hc hearlier := by
    have hop := settled_of_quiet hq (fun n hn => h.links.op i c n hc hn) hearlier
    have hstore := settled_of_quiet hq (p := c.storeOp) (fun n hn => by
      obtain ⟨hlt, hu, -⟩ := h.links.store i c n hc hn
      exact ⟨hlt, hu⟩) hearlier
    exact (h.logged.started i).mpr ⟨c, hc, started_of_quiet hq hc hop hstore⟩
  replied hq i c hc hended :=
    (h.logged.replied i).mpr ⟨c, hc, (done_of_quiet hq hc hended).2⟩

end

/-! ### Reactions end -/

/-- How much has happened in the chain of a call. -/
def Call.progress (c : Call σ ρ) : ℕ :=
  c.opOver.toNat + c.storeOver.toNat + c.keptAlive.toNat + c.replied.toNat +
    match c.stage with
    | .waiting => 0
    | .ready => 1
    | .running => 2
    | .settled _ => 3
    | .done _ => 4

theorem Call.progress_le (c : Call σ ρ) : c.progress ≤ 8 := by
  have hop := Bool.toNat_le c.opOver
  have hstore := Bool.toNat_le c.storeOver
  have hkept := Bool.toNat_le c.keptAlive
  have hreplied := Bool.toNat_le c.replied
  rw [Call.progress]
  split <;> omega

/-- How much has happened in all chains. -/
def progress (calls : List (Call σ ρ)) : ℕ := (calls.map Call.progress).sum

theorem progress_le (calls : List (Call σ ρ)) : progress calls ≤ 8 * calls.length :=
  sum_le Call.progress_le calls

/-- A reaction takes one chain one promise on. -/
theorem react_calls {r : Reaction} (hs : Locked.react s i c r = some s') :
    ∃ c', s'.calls = s.calls.set i c' ∧ c'.progress = c.progress + 1 := by
  cases r <;> rw [Locked.react] at hs
  case op =>
    obtain ⟨⟨hnot, -⟩, ⟨⟩⟩ := ite_none_right_eq_some.mp hs
    exact ⟨_, rfl, by simp only [Call.progress, hnot, Bool.toNat_false, Bool.toNat_true]; omega⟩
  case storeOp =>
    obtain ⟨⟨hnot, -⟩, ⟨⟩⟩ := ite_none_right_eq_some.mp hs
    exact ⟨_, rfl, by simp only [Call.progress, hnot, Bool.toNat_false, Bool.toNat_true]; omega⟩
  case all =>
    split at hs <;> [rename_i hstage; cases hs]
    obtain ⟨-, ⟨⟩⟩ := ite_none_right_eq_some.mp hs
    exact ⟨_, rfl, by simp only [Call.progress, hstage]⟩
  case start =>
    split at hs <;> [rename_i hstage; cases hs]
    cases hs
    exact ⟨_, rfl, by simp only [Call.progress, hstage]⟩
  case finish =>
    split at hs <;> [rename_i hstage; cases hs]
    cases hs
    exact ⟨_, rfl, by simp only [Call.progress, hstage]⟩
  case keepAlive =>
    split at hs <;> [rename_i hstage; cases hs]
    obtain ⟨hnot, ⟨⟩⟩ := ite_none_right_eq_some.mp hs
    exact ⟨_, rfl, by simp only [Call.progress, hnot, Bool.toNat_false, Bool.toNat_true]; omega⟩
  case reply =>
    split at hs <;> [rename_i hstage; cases hs]
    obtain ⟨hnot, ⟨⟩⟩ := ite_none_right_eq_some.mp hs
    exact ⟨_, rfl, by simp only [Call.progress, hnot, Bool.toNat_false, Bool.toNat_true]; omega⟩

section

variable [DecidableEq σ] [DecidableEq π]

theorem progress_react {r : Reaction} (hs : Locked.next storePath s (.react i r) = some s') :
    progress s'.calls = progress s.calls + 1 ∧ s'.calls.length = s.calls.length := by
  rw [Locked.next] at hs
  split at hs
  · cases hs
  · rename_i c hc
    obtain ⟨c', hcalls, hprogress⟩ := react_calls hs
    have hset := sum_set Call.progress hc c'
    rw [hcalls, length_set, progress, progress]
    exact ⟨by omega, rfl⟩

/-- The reactions come to an end: from every state they lead to one with none left. -/
theorem exists_quiet (storePath : σ → π) (s : State σ π ρ) :
    ∃ (rs : List (ℕ × Reaction)) (t : State σ π ρ),
      Runs.exec (Locked.next storePath) s (rs.map fun r => .react r.1 r.2) = some t ∧
      Quiet storePath t := by
  have hless : ∀ (s : State σ π ρ) (r : ℕ × Reaction) s', Locked.next storePath s (.react r.1 r.2) = some s' →
      8 * s'.calls.length - progress s'.calls < 8 * s.calls.length - progress s.calls := by
    intro s r s' hs
    obtain ⟨hprogress, hlength⟩ := progress_react hs
    have hle := progress_le s'.calls
    omega
  obtain ⟨rs, t, ht, hquiet⟩ := Runs.exists_quiet (fun s => 8 * s.calls.length - progress s.calls) hless s
  exact ⟨rs, t, ht, fun i r => hquiet (i, r)⟩

/-- **The sections of a store are serial**: in every run of any services, however their sections
end, sections with one store do not overlap, each is started once and in the order of the calls,
each caller gets the outcome of its own section, and once the earlier sections have ended the
reactions, which come to an end, start the next. -/
theorem locked_serial {as : List (Action σ ρ)}
    (h : Runs.exec (Locked.next storePath) .start as = some s) : Serial storePath s ∧
      ∃ (rs : List (ℕ × Reaction)) (t : State σ π ρ),
        Runs.exec (Locked.next storePath) s (rs.map fun r => .react r.1 r.2) = some t ∧
        Quiet storePath t :=
  ⟨(Runs.exec_invariant (fun _ _ _ hi hs => Ordered.next hi hs) Ordered.start h).serial,
    exists_quiet storePath s⟩

end

/-- Two services with one store; the section of the first rejects, that of the second runs. -/
def rejectedSection : List (Action Bool (Option ℕ)) :=
  [.call true, .call false, .react 0 .op, .react 0 .storeOp, .react 0 .all, .react 0 .start,
    .settle 0 none, .react 0 .finish, .react 0 .keepAlive, .react 1 .storeOp, .react 1 .op,
    .react 1 .all, .react 1 .start, .react 0 .reply]

theorem locked_serial_rejected : ∃ s : State Bool Unit (Option ℕ),
    Runs.exec (Locked.next fun _ => ()) .start rejectedSection = some s ∧
    s.starts = [0, 1] ∧ s.replies = [(0, none)] ∧ Serial (fun _ => ()) s :=
  ⟨_, rfl, rfl, rfl,
    (locked_serial (show Runs.exec (Locked.next fun _ => ()) .start rejectedSection = some _ from rfl)).1⟩

end Foxclaw.Cron.Locked
