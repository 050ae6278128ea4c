import Foxclaw.Lib.Numbered
import Foxclaw.PluginSdk.KeyedAsyncQueue

/-!
# The order of the keyed async queue

A task waits for the tail of the call before it, and that tail is fulfilled only after the task before has
settled, however it did. So when a task is past its wait, all earlier calls of its key are over.

## What is proved

* `Ordered.next` — the links between the calls of a key, and what they have come to, in every step.
* `Serial` — tasks of a key run one at a time and in call order, each caller gets its own task's outcome,
  and a task that has not started waits for an earlier one of its own key.
* `serial_of_exec` — this holds in every state of every run.
* `exists_quiet` — the reactions come to an end.
* `length_le`, `drained` — without new calls so do all steps, with one reply to every caller.
-/

namespace Foxclaw.PluginSdk.KeyedAsyncQueue

open JsMap List Option Numbered

variable {κ ρ σ : Type}

/-! ### The links between calls -/

/-- The task of a call. -/
abbrev At (tasks : List (Task κ ρ)) (i : ℕ) (t : Task κ ρ) : Prop := tasks[i]? = some t

/-- The earlier tasks of a key are over: their tails are fulfilled. -/
def OverBefore (tasks : List (Task κ ρ)) (i : ℕ) (key : κ) : Prop :=
  ∀ j u, j < i → At tasks j u → u.key = key → 7 ≤ u.stage.rank

/-- How the calls of a key hang together. -/
structure Chain (tasks : List (Task κ ρ)) : Prop where
  /-- The previous call of a task's key: there is none in between. -/
  link : ∀ i t p, At tasks i t → t.previous = some p →
    p < i ∧ (∃ u, At tasks p u ∧ u.key = t.key) ∧ ∀ j u, p < j → j < i → At tasks j u → u.key ≠ t.key
  first : ∀ i t, At tasks i t → t.previous = none → OverBefore tasks i t.key
  before : ∀ i t, At tasks i t → 1 ≤ t.stage.rank → OverBefore tasks i t.key

/-- What the histories have. -/
structure Logged (tasks : List (Task κ ρ)) (starts : List ℕ) (replies : List (ℕ × ρ)) : Prop where
  /-- A task is in the history when it has been started. -/
  started : ∀ i, i ∈ starts ↔ ∃ t, At tasks i t ∧ 2 ≤ t.stage.rank
  /-- The history is in the order of the calls of each key. -/
  inOrder : starts.Pairwise fun i j => ∀ t u, At tasks i t → At tasks j u → t.key = u.key → i < j
  outcome : ∀ i t, At tasks i t → (t.outcome.isSome ↔ 3 ≤ t.stage.rank)
  /-- A caller has its reply when the returned promise is settled. -/
  replied : ∀ i, i ∈ replies.map Prod.fst ↔ ∃ t, At tasks i t ∧ 6 ≤ t.stage.rank
  /-- A caller gets what its own task was settled with, -/
  own : ∀ i o, (i, o) ∈ replies → ∃ t, At tasks i t ∧ t.outcome = some o
  /-- and gets it once. -/
  once : (replies.map Prod.fst).Nodup

/-! ### A task comes on -/

variable {tasks : List (Task κ ρ)} {starts : List ℕ} {replies : List (ℕ × ρ)} {i : ℕ} {t t' : Task κ ρ}

variable {u : Task κ ρ} {j : ℕ}

/-- What has been over stays over. -/
theorem OverBefore.set {n : ℕ} {key : κ} (h : OverBefore tasks n key) (ht : At tasks i t)
    (hkey : t'.key = t.key) (hrank : t.stage.rank ≤ t'.stage.rank) : OverBefore (tasks.set i t') n key := by
  intro j u hj hu hk
  obtain ⟨rfl, rfl⟩ | ⟨-, hu⟩ := of_at_set ht hu
  · exact Nat.le_trans (h i t hj ht (hkey ▸ hk)) hrank
  · exact h j u hj hu hk

theorem Chain.set (h : Chain tasks) (ht : At tasks i t) (hkey : t'.key = t.key)
    (hprevious : t'.previous = t.previous) (hrank : t.stage.rank ≤ t'.stage.rank)
    (hwait : t.stage.rank = 0 → 1 ≤ t'.stage.rank → OverBefore tasks i t.key) : Chain (tasks.set i t') where
  link j u p hu hp := by
    have hold : ∃ v, At tasks j v ∧ v.previous = some p ∧ v.key = u.key := by
      obtain ⟨rfl, rfl⟩ | ⟨-, hu⟩ := of_at_set ht hu
      · exact ⟨t, ht, hprevious ▸ hp, hkey.symm⟩
      · exact ⟨u, hu, hp, rfl⟩
    obtain ⟨v, hv, hvp, hvkey⟩ := hold
    obtain ⟨hlt, ⟨w, hw, hwkey⟩, hbetween⟩ := h.link j v p hv hvp
    refine ⟨hlt, ?_, fun k x hpk hkj hx => ?_⟩
    · by_cases hip : i = p
      · subst hip
        exact ⟨t', at_set_self ht, by rw [hkey, at_unique ht hw, hwkey, hvkey]⟩
      · exact ⟨w, (at_set_of_ne hip).mpr hw, hwkey.trans hvkey⟩
    · obtain ⟨rfl, rfl⟩ | ⟨-, hx⟩ := of_at_set ht hx
      · rw [hkey, ← hvkey]
        exact hbetween i t hpk hkj ht
      · rw [← hvkey]
        exact hbetween k x hpk hkj hx
  first j u hu hp := by
    obtain ⟨rfl, rfl⟩ | ⟨-, hu⟩ := of_at_set ht hu
    · rw [hkey]
      exact (h.first i t ht (hprevious ▸ hp)).set ht hkey hrank
    · exact (h.first j u hu hp).set ht hkey hrank
  before j u hu hr := by
    obtain ⟨rfl, rfl⟩ | ⟨-, hu⟩ := of_at_set ht hu
    · rw [hkey]
      by_cases hzero : t.stage.rank = 0
      · exact (hwait hzero hr).set ht hkey hrank
      · exact (h.before i t ht (Nat.one_le_iff_ne_zero.mpr hzero)).set ht hkey hrank
    · exact (h.before j u hu hr).set ht hkey hrank

/-! ### The histories -/

/-- A settled task has an outcome, after a step as well. -/
theorem outcome_set (h : ∀ i t, At tasks i t → (t.outcome.isSome ↔ 3 ≤ t.stage.rank)) (ht : At tasks i t)
    (ht' : t'.outcome.isSome ↔ 3 ≤ t'.stage.rank) :
    ∀ j u, At (tasks.set i t') j u → (u.outcome.isSome ↔ 3 ≤ u.stage.rank) := by
  intro j u hu
  obtain ⟨-, rfl⟩ | ⟨-, hu⟩ := of_at_set ht hu
  · exact ht'
  · exact h j u hu

theorem Logged.set (h : Logged tasks starts replies) (ht : At tasks i t) (t' : Task κ ρ) (hkey : t'.key = t.key)
    (hstart : 2 ≤ t.stage.rank ↔ 2 ≤ t'.stage.rank) (hreply : 6 ≤ t.stage.rank ↔ 6 ≤ t'.stage.rank)
    (houtcome : ∀ o, t.outcome = some o → t'.outcome = some o)
    (ht' : t'.outcome.isSome ↔ 3 ≤ t'.stage.rank) : Logged (tasks.set i t') starts replies where
  started j := by rw [h.started, exists_at_set_iff ht hstart]
  inOrder := inOrder_set h.inOrder ht hkey
  outcome := outcome_set h.outcome ht ht'
  replied j := by rw [h.replied, exists_at_set_iff ht hreply]
  own := own_set h.own ht houtcome
  once := h.once

theorem Logged.run (h : Logged tasks starts replies) (hchain : Chain tasks) (ht : At tasks i t)
    (hstage : t.stage = .caught) :
    Logged (tasks.set i { t with stage := .running }) (starts ++ [i]) replies where
  started j := by
    rw [mem_append, mem_singleton, h.started, exists_at_set_iff_or ht (Nat.le_refl 2), or_comm,
      eq_comm (a := j)]
  inOrder := by
    rw [pairwise_append]
    refine ⟨inOrder_set h.inOrder ht rfl, pairwise_singleton _ _, fun m hm n hn v u hv hu hk => ?_⟩
    obtain rfl := mem_singleton.mp hn
    obtain ⟨w, hw, hrank⟩ := (h.started m).mp hm
    have hne : n ≠ m := by
      rintro rfl
      rw [at_unique hw ht, hstage] at hrank
      exact absurd hrank (by decide)
    -- an earlier task that has started would not leave this one waiting
    by_contra hle
    have hlt : n < m := by omega
    have hv := (at_set_of_ne hne).mp hv
    have hwkey : t.key = w.key := by
      rw [at_unique hw hv, hk, at_unique hu (at_set_self ht)]
    have hover := hchain.before m w hw (Nat.le_trans (by decide) hrank) n t hlt ht hwkey
    rw [hstage] at hover
    exact absurd hover (by decide)
  outcome := outcome_set h.outcome ht (by
    have := h.outcome i t ht
    rw [hstage] at this
    exact this.trans (by simp [Stage.rank]))
  replied j := by
    rw [h.replied, exists_at_set_iff ht (by simp [hstage, Stage.rank])]
  own := own_set h.own ht fun _ ho => ho
  once := h.once

theorem Logged.deliver (h : Logged tasks starts replies) (ht : At tasks i t) (hstage : t.stage = .hooked) :
    Logged (tasks.set i { t with stage := .delivered }) starts
      (replies ++ (t.outcome.map (i, ·)).toList) := by
  have hsome := (h.outcome i t ht).mpr (by rw [hstage]; decide)
  obtain ⟨o, ho⟩ := isSome_iff_exists.mp hsome
  have hnew : i ∉ replies.map Prod.fst := fun hmem => by
    obtain ⟨u, hu, hrank⟩ := (h.replied i).mp hmem
    rw [at_unique hu ht, hstage] at hrank
    exact absurd hrank (by decide)
  have hreply : (t.outcome.map (i, ·)).toList = [(i, o)] := by rw [ho]; rfl
  rw [hreply]
  refine ⟨fun j => ?_, inOrder_set h.inOrder ht rfl, outcome_set h.outcome ht ?_, fun j => ?_,
    fun j p hmem => ?_, ?_⟩
  · rw [h.started, exists_at_set_iff ht (by simp [hstage, Stage.rank])]
  · exact iff_of_true hsome (by simp [Stage.rank])
  · rw [map_append, mem_append, h.replied, exists_at_set_iff_or ht (Nat.le_refl 6), or_comm]
    simp [eq_comm]
  · rcases mem_append.mp hmem with hmem | hmem
    · exact own_set h.own ht (by exact fun _ hp => hp) j p hmem
    · obtain ⟨rfl, rfl⟩ := Prod.mk.inj (mem_singleton.mp hmem)
      exact ⟨_, at_set_self ht, ho⟩
  · rw [map_append, nodup_append']
    refine ⟨h.once, nodup_singleton i, fun j hj hj' => ?_⟩
    obtain rfl := mem_singleton.mp hj'
    exact hnew hj

/-! ### A new call -/

variable {n : Task κ ρ}

theorem OverBefore.append {m : ℕ} {key : κ} (h : OverBefore tasks m key) (hm : m ≤ tasks.length) :
    OverBefore (tasks ++ [n]) m key := by
  intro j u hj hu hk
  exact h j u hj (at_of_at_append hu (by omega)) hk

theorem Logged.append (h : Logged tasks starts replies) (hstage : n.stage = .queued)
    (houtcome : n.outcome = none) : Logged (tasks ++ [n]) starts replies where
  started j := by rw [h.started, exists_at_append_iff (by simp [hstage, Stage.rank])]
  inOrder := inOrder_append h.inOrder fun j hj => (h.started j).mp hj
  outcome j u hu := by
    obtain ⟨-, rfl⟩ | hu := of_at_append hu
    · simp [hstage, houtcome, Stage.rank]
    · exact h.outcome j u hu
  replied j := by rw [h.replied, exists_at_append_iff (by simp [hstage, Stage.rank])]
  own := own_append h.own
  once := h.once

/-! ### The map of tails -/

variable [DecidableEq κ] {tails : JsMap κ ℕ}

/-- What `tails` has. -/
structure TailsOk (tasks : List (Task κ ρ)) (tails : JsMap κ ℕ) : Prop where
  /-- The tail of the last task of its key, until the reaction to it has run. -/
  last : ∀ key i, tails.get? key = some i →
    (∃ t, At tasks i t ∧ t.key = key ∧ t.stage ≠ .cleaned) ∧ ∀ j u, i < j → At tasks j u → u.key ≠ key
  /-- A key that is not there: its tasks are over. -/
  gone : ∀ key, tails.get? key = none → ∀ j u, At tasks j u → u.key = key → 7 ≤ u.stage.rank

theorem TailsOk.set (h : TailsOk tasks tails) (ht : At tasks i t) (hkey : t'.key = t.key)
    (hrank : t.stage.rank ≤ t'.stage.rank) (hclean : t'.stage ≠ .cleaned) :
    TailsOk (tasks.set i t') tails where
  last key n hn := by
    obtain ⟨⟨u, hu, hukey, hustage⟩, hlater⟩ := h.last key n hn
    constructor
    · by_cases hin : i = n
      · subst hin
        exact ⟨t', at_set_self ht, by rw [hkey, at_unique ht hu, hukey], hclean⟩
      · exact ⟨u, (at_set_of_ne hin).mpr hu, hukey, hustage⟩
    · intro j u hj hu
      obtain ⟨rfl, rfl⟩ | ⟨-, hu⟩ := of_at_set ht hu
      · rw [hkey]
        exact hlater i t hj ht
      · exact hlater j u hj hu
  gone key hnone j u hu hk := by
    obtain ⟨rfl, rfl⟩ | ⟨-, hu⟩ := of_at_set ht hu
    · exact Nat.le_trans (h.gone key hnone i t ht (hkey ▸ hk)) hrank
    · exact h.gone key hnone j u hu hk

/-- The reaction to the tail takes it out of the map, if it is the last of its key. -/
theorem TailsOk.clean (h : TailsOk tasks tails) (hchain : Chain tasks) (ht : At tasks i t)
    (hstage : t.stage = .tailSettled) :
    TailsOk (tasks.set i { t with stage := .cleaned })
      (if tails.get? t.key = some i then tails.delete t.key else tails) where
  last key n hn := by
    have hold : tails.get? key = some n ∧ n ≠ i := by
      split at hn
      · rename_i hlast
        rw [get?_delete] at hn
        split at hn
        · cases hn
        · rename_i hne
          refine ⟨hn, fun heq => ?_⟩
          subst heq
          obtain ⟨⟨u, hu, hukey, -⟩, -⟩ := h.last key n hn
          exact hne (by rw [at_unique ht hu, hukey])
      · rename_i hlast
        refine ⟨hn, fun heq => hlast ?_⟩
        subst heq
        obtain ⟨⟨u, hu, hukey, -⟩, -⟩ := h.last key n hn
        rw [at_unique ht hu, hukey, hn]
    obtain ⟨hget, hne⟩ := hold
    obtain ⟨⟨u, hu, hukey, hustage⟩, hlater⟩ := h.last key n hget
    refine ⟨⟨u, (at_set_of_ne hne.symm).mpr hu, hukey, hustage⟩, fun j v hj hv => ?_⟩
    obtain ⟨rfl, rfl⟩ | ⟨-, hv⟩ := of_at_set ht hv
    · exact hlater i t hj ht
    · exact hlater j v hj hv
  gone key hnone j u hu hk := by
    obtain ⟨-, rfl⟩ | ⟨hij, hu⟩ := of_at_set ht hu
    · exact Nat.le_succ 7
    · split at hnone
      · rename_i hlast
        rw [get?_delete] at hnone
        split at hnone
        · -- the key whose last tail this is
          rename_i hkey
          subst hkey
          rcases Nat.lt_or_ge j i with hj | hj
          · exact hchain.before i t ht (by rw [hstage]; decide) j u hj hu hk
          · exact absurd hk ((h.last _ i hlast).2 j u (by omega) hu)
        · exact h.gone key hnone j u hu hk
      · exact h.gone key hnone j u hu hk

/-- The call that makes a task. -/
def newTask (tails : JsMap κ ℕ) (key : κ) : Task κ ρ := { key, previous := tails.get? key }

theorem Chain.append (h : Chain tasks) (htails : TailsOk tasks tails) (key : κ) :
    Chain (tasks ++ [newTask tails key]) where
  link j u p hu hp := by
    obtain ⟨rfl, rfl⟩ | hu := of_at_append hu
    · obtain ⟨⟨v, hv, hvkey, -⟩, hlater⟩ := htails.last key p hp
      refine ⟨lt_of_at hv, ⟨v, at_append_of_at hv, hvkey⟩, fun k x hpk hk hx => ?_⟩
      exact hlater k x hpk (at_of_at_append hx hk)
    · have hj := lt_of_at hu
      obtain ⟨hlt, ⟨v, hv, hvkey⟩, hbetween⟩ := h.link j u p hu hp
      refine ⟨hlt, ⟨v, at_append_of_at hv, hvkey⟩, fun k x hpk hk hx => ?_⟩
      exact hbetween k x hpk hk (at_of_at_append hx (by omega))
  first j u hu hp := by
    obtain ⟨rfl, rfl⟩ | hu := of_at_append hu
    · have hover : OverBefore tasks tasks.length key := fun k x _ hx hk => htails.gone key hp k x hx hk
      exact hover.append (Nat.le_refl _)
    · exact (h.first j u hu hp).append (Nat.le_of_lt (lt_of_at hu))
  before j u hu hr := by
    obtain ⟨-, rfl⟩ | hu := of_at_append hu
    · exact absurd hr (by simp [newTask, Stage.rank])
    · exact (h.before j u hu hr).append (Nat.le_of_lt (lt_of_at hu))

theorem TailsOk.append (h : TailsOk tasks tails) (key : κ) :
    TailsOk (tasks ++ [newTask tails key]) (tails.set key tasks.length) where
  last k n hn := by
    rw [get?_set] at hn
    split at hn
    · rename_i hk
      subst hk
      cases hn
      refine ⟨⟨newTask tails key, at_append_self, rfl, by simp [newTask]⟩, fun j u hj hu => ?_⟩
      exact absurd (lt_of_at hu) (by simpa using by omega)
    · rename_i hk
      obtain ⟨⟨u, hu, hukey, hustage⟩, hlater⟩ := h.last k n hn
      refine ⟨⟨u, at_append_of_at hu, hukey, hustage⟩, fun j v hj hv => ?_⟩
      obtain ⟨-, rfl⟩ | hv := of_at_append hv
      · exact hk
      · exact hlater j v hj hv
  gone k hnone j u hu hk := by
    rw [get?_set] at hnone
    split at hnone
    · cases hnone
    · rename_i hne
      obtain ⟨-, rfl⟩ | hu := of_at_append hu
      · exact absurd hk hne
      · exact h.gone k hnone j u hu hk

/-! ### Every run -/

variable {hooks : κ → Hooks σ} {s s' : State κ ρ σ}

/-- What holds in every run. -/
structure Ordered (s : State κ ρ σ) : Prop where
  chain : Chain s.tasks
  tailsOk : TailsOk s.tasks s.tails
  logged : Logged s.tasks s.starts s.replies

theorem Ordered.start (owner : σ) : Ordered (State.start owner : State κ ρ σ) where
  chain := by constructor <;> simp [State.start, At]
  tailsOk := by constructor <;> simp [State.start, At]
  logged := by constructor <;> simp [State.start, At]

omit [DecidableEq κ] in
/-- When the wait of a task is over, the earlier tasks of its key are over. -/
theorem Chain.overBefore (h : Chain s.tasks) (ht : At s.tasks i t) (hwait : s.previousSettled t = true) :
    OverBefore s.tasks i t.key := by
  rw [State.previousSettled] at hwait
  split at hwait
  · rename_i hp
    exact h.first i t ht hp
  · rename_i p hp
    obtain ⟨stage, hstage, hrank⟩ := (Option.any_eq_true _ _).mp hwait
    obtain ⟨u, hu, rfl⟩ := map_eq_some_iff.mp hstage
    have hover : 7 ≤ u.stage.rank := by simpa using hrank
    obtain ⟨hlt, ⟨v, hv, hvkey⟩, hbetween⟩ := h.link i t p ht hp
    obtain rfl := at_unique hu hv
    intro j w hj hw hk
    rcases Nat.lt_trichotomy j p with hjp | rfl | hjp
    · exact h.before p u hu (Nat.le_trans (by decide) hover) j w hjp hw (hk.trans hvkey.symm)
    · exact at_unique hw hu ▸ hover
    · exact absurd hk (hbetween j w hjp hj hw)

/-- No reaction is left to run. -/
def Quiet (hooks : κ → Hooks σ) (s : State κ ρ σ) : Prop := ∀ i, next hooks s (.react i) = none

/-- What the queue promises to its callers. -/
structure Serial (hooks : κ → Hooks σ) (s : State κ ρ σ) : Prop where
  /-- Tasks of a key do not overlap. -/
  alone : ∀ i j t u, At s.tasks i t → At s.tasks j u → t.key = u.key → t.stage = .running →
    u.stage = .running → i = j
  /-- A task is in the history when it has been started. -/
  started : ∀ i, i ∈ s.starts ↔ ∃ t, At s.tasks i t ∧ 2 ≤ t.stage.rank
  /-- Tasks of a key are started in the order of their calls. -/
  inOrder : s.starts.Pairwise fun i j =>
    ∀ t u, At s.tasks i t → At s.tasks j u → t.key = u.key → i < j
  /-- A caller gets what its own task was settled with, -/
  own : ∀ i o, (i, o) ∈ s.replies → ∃ t, At s.tasks i t ∧ t.outcome = some o
  /-- and gets it once. -/
  once : (s.replies.map Prod.fst).Nodup
  /-- When no reaction is left, the caller of every settled task has got its outcome. -/
  replied : Quiet hooks s → ∀ i t, At s.tasks i t → 3 ≤ t.stage.rank → i ∈ s.replies.map Prod.fst
  /-- When no reaction is left, a task has started once the earlier tasks of its key are settled. -/
  starts : Quiet hooks s → ∀ i t, At s.tasks i t →
    (∀ j u, j < i → At s.tasks j u → u.key = t.key → 3 ≤ u.stage.rank) → i ∈ s.starts
  /-- The map has every key with an unsettled task. -/
  tails : ∀ i t, At s.tasks i t → t.stage.rank < 3 → s.tails.has t.key = true
  /-- When no reaction is left, the map has no other key. -/
  noOther : Quiet hooks s → ∀ key, s.tails.has key = true →
    ∃ i t, At s.tasks i t ∧ t.key = key ∧ t.stage.rank < 3

/-- A reaction, or a task that settles, on a chain that goes on. -/
theorem Ordered.set (h : Ordered s) (ht : At s.tasks i t) (t' : Task κ ρ) (hkey : t'.key = t.key)
    (hprevious : t'.previous = t.previous) (hrank : t.stage.rank ≤ t'.stage.rank)
    (hwait : t.stage.rank = 0 → 1 ≤ t'.stage.rank → OverBefore s.tasks i t.key)
    (hclean : t'.stage ≠ .cleaned) (hlogged : Logged (s.tasks.set i t') starts replies) (owner : σ) :
    Ordered { tasks := s.tasks.set i t', tails := s.tails, owner, starts, replies } where
  chain := h.chain.set ht hkey hprevious hrank hwait
  tailsOk := h.tailsOk.set ht hkey hrank hclean
  logged := hlogged

/-- A reaction that the histories do not show. -/
theorem Ordered.advance (h : Ordered s) (ht : At s.tasks i t) {stage : Stage}
    (hrank : t.stage.rank ≤ stage.rank)
    (hwait : t.stage.rank = 0 → 1 ≤ stage.rank → OverBefore s.tasks i t.key) (hclean : stage ≠ .cleaned)
    (hstart : 2 ≤ t.stage.rank ↔ 2 ≤ stage.rank) (hsettled : 3 ≤ t.stage.rank ↔ 3 ≤ stage.rank)
    (hreply : 6 ≤ t.stage.rank ↔ 6 ≤ stage.rank) (owner : σ) : Ordered { s.advance i t stage with owner } :=
  h.set ht { t with stage } rfl rfl hrank hwait hclean
    (h.logged.set ht _ rfl hstart hreply (fun _ ho => ho) ((h.logged.outcome i t ht).trans hsettled)) owner

theorem Ordered.react (h : Ordered s) (ht : At s.tasks i t)
    (hs : KeyedAsyncQueue.react hooks s i t = some s') : Ordered s' := by
  rw [KeyedAsyncQueue.react] at hs
  split at hs <;> rename_i hstage
  · obtain ⟨hwait, ⟨⟩⟩ := ite_none_right_eq_some.mp hs
    refine h.advance ht ?_ (fun _ _ => h.chain.overBefore ht hwait) ?_ ?_ ?_ ?_ s.owner <;>
      simp [hstage, Stage.rank]
  · cases hs
    refine h.set ht { t with stage := .running } rfl rfl ?_ ?_ ?_ (h.logged.run h.chain ht hstage) s.owner <;>
      simp [hstage, Stage.rank]
  · cases hs
  · cases hs
    refine h.advance ht ?_ ?_ ?_ ?_ ?_ ?_ s.owner <;> simp [hstage, Stage.rank]
  · cases hs
    refine h.advance ht ?_ ?_ ?_ ?_ ?_ ?_ _ <;> simp [hstage, Stage.rank]
  · cases hs
    refine h.set ht { t with stage := .delivered } rfl rfl ?_ ?_ ?_ (h.logged.deliver ht hstage) s.owner <;>
      simp [hstage, Stage.rank]
  · cases hs
    refine h.advance ht ?_ ?_ ?_ ?_ ?_ ?_ s.owner <;> simp [hstage, Stage.rank]
  · cases hs
    refine ⟨h.chain.set ht rfl rfl ?_ ?_, h.tailsOk.clean h.chain ht hstage,
      h.logged.set ht _ rfl ?_ ?_ (fun _ ho => ho) ((h.logged.outcome i t ht).trans ?_)⟩ <;>
      simp [hstage, Stage.rank]
  · cases hs

/-- One step keeps the links, the map and the histories. -/
theorem Ordered.next {a : Action κ ρ} (h : Ordered s) (hs : KeyedAsyncQueue.next hooks s a = some s') :
    Ordered s' := by
  cases a with
  | enqueue key =>
    cases hs
    exact ⟨h.chain.append h.tailsOk key, h.tailsOk.append key, h.logged.append rfl rfl⟩
  | settle i o =>
    rw [KeyedAsyncQueue.next] at hs
    split at hs
    · cases hs
    · rename_i t ht
      obtain ⟨hstage, ⟨⟩⟩ := ite_none_right_eq_some.mp hs
      have hnone : t.outcome = none := by
        have hiff := h.logged.outcome i t ht
        rw [hstage] at hiff
        simpa [Stage.rank] using hiff
      refine h.set ht { t with stage := .settled, outcome := some o } rfl rfl ?_ ?_ ?_
        (h.logged.set ht _ rfl ?_ ?_ ?_ ?_) s.owner <;>
        simp [hstage, hnone, Stage.rank]
  | react i =>
    rw [KeyedAsyncQueue.next] at hs
    split at hs
    · cases hs
    · rename_i t ht
      exact h.react ht hs

/-! ### What is promised -/

/-- When no reaction is left, a task is over, runs, or waits for one that is not over. -/
theorem stage_of_quiet (hq : Quiet hooks s) (ht : At s.tasks i t) :
    t.stage = .cleaned ∨ t.stage = .running ∨ t.stage = .queued ∧ s.previousSettled t = false := by
  have hreact := hq i
  rw [next, show s.tasks[i]? = some t from ht] at hreact
  dsimp only at hreact
  rw [react] at hreact
  split at hreact <;> rename_i hstage
  · refine .inr (.inr ⟨hstage, ?_⟩)
    by_contra hwait
    rw [Bool.not_eq_false] at hwait
    rw [if_pos hwait] at hreact
    cases hreact
  · cases hreact
  · exact .inr (.inl hstage)
  · cases hreact
  · cases hreact
  · cases hreact
  · cases hreact
  · cases hreact
  · exact .inl hstage

/-- What the links, the map and the histories promise. -/
theorem Ordered.serial (h : Ordered s) : Serial hooks s where
  alone i j t u ht hu hkey hti huj := by
    rcases Nat.lt_trichotomy i j with hij | rfl | hij
    · have hover := h.chain.before j u hu (by rw [huj]; decide) i t hij ht hkey
      rw [hti] at hover
      exact absurd hover (by decide)
    · rfl
    · have hover := h.chain.before i t ht (by rw [hti]; decide) j u hij hu hkey.symm
      rw [huj] at hover
      exact absurd hover (by decide)
  started := h.logged.started
  inOrder := h.logged.inOrder
  own := h.logged.own
  once := h.logged.once
  replied hq i t ht hrank := by
    refine (h.logged.replied i).mpr ⟨t, ht, ?_⟩
    rcases stage_of_quiet hq ht with hstage | hstage | ⟨hstage, -⟩ <;> rw [hstage] at hrank ⊢
    · decide
    · exact absurd hrank (by decide)
    · exact absurd hrank (by decide)
  starts hq i t ht hearlier := by
    refine (h.logged.started i).mpr ⟨t, ht, ?_⟩
    rcases stage_of_quiet hq ht with hstage | hstage | ⟨hstage, hwait⟩
    · rw [hstage]
      decide
    · rw [hstage]
      decide
    · -- the task it waits for is settled, and its reactions have run
      exfalso
      rw [State.previousSettled] at hwait
      split at hwait
      · cases hwait
      · rename_i p hp
        obtain ⟨hlt, ⟨u, hu, hkey⟩, -⟩ := h.chain.link i t p ht hp
        have hsettled := hearlier p u hlt hu hkey
        have hcleaned : u.stage = .cleaned := by
          rcases stage_of_quiet hq hu with hu' | hu' | ⟨hu', -⟩
          · exact hu'
          · exact absurd (hu' ▸ hsettled) (by decide)
          · exact absurd (hu' ▸ hsettled) (by decide)
        rw [State.stage?, show s.tasks[p]? = some u from hu, map_some, hcleaned] at hwait
        exact absurd hwait (by decide)
  tails i t ht hrank := by
    by_contra hnone
    have hget : s.tails.get? t.key = none := by
      rwa [JsMap.has, Bool.not_eq_true, isSome_eq_false_iff, isNone_iff_eq_none] at hnone
    exact absurd (h.tailsOk.gone t.key hget i t ht rfl) (by omega)
  noOther hq key hkey := by
    obtain ⟨i, hi⟩ := has_iff.mp hkey
    obtain ⟨⟨t, ht, htkey, hstage⟩, -⟩ := h.tailsOk.last key i hi
    refine ⟨i, t, ht, htkey, ?_⟩
    rcases stage_of_quiet hq ht with ht' | ht' | ⟨ht', -⟩
    · exact absurd ht' hstage
    · rw [ht']
      decide
    · rw [ht']
      decide

theorem serial_of_exec {owner : σ} {as : List (Action κ ρ)}
    (h : Runs.exec (next hooks) (.start owner) as = some s) : Serial hooks s :=
  (Runs.exec_invariant (fun _ _ _ hi hs => Ordered.next hi hs) (Ordered.start owner) h).serial

/-! ### Reactions end -/

/-- How much has happened in all chains. -/
def progress (tasks : List (Task κ ρ)) : ℕ := (tasks.map (·.stage.rank)).sum

theorem Stage.rank_le (stage : Stage) : stage.rank ≤ 8 := by cases stage <;> decide

omit [DecidableEq κ] in
theorem progress_le (tasks : List (Task κ ρ)) : progress tasks ≤ 8 * tasks.length :=
  sum_le (fun t => t.stage.rank_le) tasks

/-- A reaction takes one chain one promise on. -/
theorem react_tasks (hs : react hooks s i t = some s') :
    ∃ stage : Stage, stage.rank = t.stage.rank + 1 ∧ s'.tasks = s.tasks.set i { t with stage } := by
  rw [react] at hs
  split at hs <;> rename_i hstage <;> rw [hstage]
  · obtain ⟨-, ⟨⟩⟩ := ite_none_right_eq_some.mp hs
    exact ⟨.caught, rfl, rfl⟩
  · cases hs
    exact ⟨.running, rfl, rfl⟩
  · cases hs
  · cases hs
    exact ⟨.adopted, rfl, rfl⟩
  · cases hs
    exact ⟨.hooked, rfl, rfl⟩
  · cases hs
    exact ⟨.delivered, rfl, rfl⟩
  · cases hs
    exact ⟨.tailSettled, rfl, rfl⟩
  · cases hs
    exact ⟨.cleaned, rfl, rfl⟩
  · cases hs

theorem progress_react (hs : next hooks s (.react i) = some s') :
    progress s'.tasks = progress s.tasks + 1 ∧ s'.tasks.length = s.tasks.length := by
  rw [next] at hs
  split at hs
  · cases hs
  · rename_i t ht
    obtain ⟨stage, hrank, htasks⟩ := react_tasks hs
    have hset := sum_set (fun u => u.stage.rank) ht { t with stage }
    rw [htasks, length_set, progress, progress]
    exact ⟨by dsimp only at hset; omega, rfl⟩

/-- The reactions come to an end: from every state they lead to one with none left. -/
theorem exists_quiet (hooks : κ → Hooks σ) (s : State κ ρ σ) :
    ∃ (is : List ℕ) (t : State κ ρ σ), Runs.exec (next hooks) s (is.map .react) = some t ∧ Quiet hooks t := by
  refine Runs.exists_quiet (fun s => 8 * s.tasks.length - progress s.tasks) (fun s i s' hs => ?_) s
  obtain ⟨hprogress, hlength⟩ := progress_react hs
  have hle := progress_le s'.tasks
  omega

/-! ### Steps without calls -/

/-- A step that is no call. -/
def Action.Own : Action κ ρ → Prop
  | .enqueue _ => False
  | _ => True

theorem progress_next {a : Action κ ρ} (ha : a.Own) (hs : next hooks s a = some s') :
    progress s'.tasks = progress s.tasks + 1 ∧ s'.tasks.length = s.tasks.length := by
  cases a with
  | enqueue key => exact ha.elim
  | react i => exact progress_react hs
  | settle i o =>
    rw [next] at hs
    split at hs
    · cases hs
    · rename_i t ht
      obtain ⟨hstage, ⟨⟩⟩ := ite_none_right_eq_some.mp hs
      have hset := sum_set (fun u => u.stage.rank) ht { t with stage := .settled, outcome := some o }
      simp only [hstage] at hset
      change _ + 2 = _ + 3 at hset
      exact ⟨Nat.add_right_cancel hset, length_set⟩

/-- They come to an end in every order. -/
theorem length_le {as : List (Action κ ρ)} (has : ∀ a ∈ as, a.Own) (h : Runs.exec (next hooks) s as = some s') :
    as.length + progress s.tasks ≤ 8 * s.tasks.length := by
  induction as generalizing s with
  | nil => simpa using progress_le s.tasks
  | cons a as ih =>
    obtain ⟨u, hu, h⟩ := (Runs.exec_cons_eq_some _).mp h
    have hstep := progress_next (has a mem_cons_self) hu
    have hrest := ih (fun b hb => has b (mem_cons_of_mem a hb)) h
    rw [length_cons]
    omega

/-- No step is left but calls. -/
def Done (hooks : κ → Hooks σ) (s : State κ ρ σ) : Prop := ∀ a, a.Own → next hooks s a = none

/-- Then every task is over. -/
theorem stage_of_done [Inhabited ρ] (h : Ordered s) (hnone : Done hooks s)
    (ht : At s.tasks i t) : t.stage = .cleaned := by
  induction i using Nat.strongRecOn generalizing t with
  | ind i ih =>
    rcases stage_of_quiet (fun j => hnone (.react j) trivial) ht with hstage | hstage | ⟨-, hwait⟩
    · exact hstage
    · have hsettle := hnone (.settle i default) trivial
      simp [next, show s.tasks[i]? = some t from ht, hstage] at hsettle
    · -- it would wait for a task that is over
      rw [State.previousSettled] at hwait
      split at hwait
      · cases hwait
      · rename_i p hp
        obtain ⟨hlt, ⟨u, hu, -⟩, -⟩ := h.chain.link i t p ht hp
        simp [State.stage?, show s.tasks[p]? = some u from hu, ih p hlt hu, Stage.rank] at hwait

/-- Then every caller has one reply, and the map is empty. -/
theorem drained [Inhabited ρ] (h : Ordered s) (hnone : Done hooks s) :
    s.replies.map Prod.fst ~ range s.tasks.length ∧ ∀ key, s.tails.has key = false := by
  constructor
  · refine (perm_ext_iff_of_nodup h.logged.once nodup_range).mpr fun i => ?_
    rw [h.logged.replied, mem_range]
    constructor
    · rintro ⟨t, ht, -⟩
      exact lt_of_at ht
    · intro hi
      have ht := getElem?_eq_getElem hi
      exact ⟨_, ht, by rw [stage_of_done h hnone ht]; decide⟩
  · intro key
    by_contra hkey
    obtain ⟨i, t, ht, -, hrank⟩ :=
      h.serial.noOther (fun j => hnone (.react j) trivial) key (by simpa using hkey)
    rw [stage_of_done h hnone ht] at hrank
    exact absurd hrank (by decide)

end Foxclaw.PluginSdk.KeyedAsyncQueue
