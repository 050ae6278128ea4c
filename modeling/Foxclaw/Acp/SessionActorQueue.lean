import Foxclaw.PluginSdk.KeyedAsyncQueueOrder

/-!
# The session actor queue

This module models `acp/control-plane/session-actor-queue.ts`: a keyed async queue whose hooks count the
pending operations of each session.

The count goes up as a call is made and down as `onSettle` runs, a few reactions after the operation has
settled and a few before its caller hears of it. So it is the number of operations whose hook has not run,
and that of the unsettled operations as soon as no reaction is left.

## What is proved

* `Pending.next`, `Pending.counted` — the count after one step, and when no reaction is left.
* `queues_serial` — what both queues promise.
* `queue_drains` — what is left when no step is.
* `counted_late` — between two reactions, the count is neither that of the unsettled operations nor that of
  the callers that wait.
-/

namespace Foxclaw.Acp.SessionActorQueue

open JsMap PluginSdk PluginSdk.KeyedAsyncQueue

variable {κ ρ σ : Type} [DecidableEq κ]

/-- The hooks of `run`, on `pendingBySession`. -/
def hooks (actorKey : κ) : Hooks (JsMap κ ℤ) where
  onEnqueue pendingBySession :=
    pendingBySession.set actorKey ((pendingBySession.get? actorKey).getD 0 + 1)
  onSettle pendingBySession :=
    let pending := (pendingBySession.get? actorKey).getD 1 - 1
    if pending ≤ 0 then pendingBySession.delete actorKey else pendingBySession.set actorKey pending

/-- `SessionActorQueue`, and the histories. -/
abbrev Queue (κ ρ : Type) [DecidableEq κ] := State κ ρ (JsMap κ ℤ)

def getPendingCountForSession (s : Queue κ ρ) (actorKey : κ) : ℤ := (s.owner.get? actorKey).getD 0

/-- The operations of a session whose chains have not come so far. -/
def behind (tasks : List (Task κ ρ)) (rank : ℕ) (key : κ) : ℕ :=
  tasks.countP fun t => t.key = key ∧ t.stage.rank < rank

/-- The entry of a session with a number of pending operations. -/
def entry (n : ℕ) : Option ℤ := if n = 0 then none else some n

/-- The counts are right. -/
structure Counted (s : Queue κ ρ) : Prop where
  /-- The count of a session is the number of its operations whose hook has not run. -/
  pending : ∀ key, s.owner.get? key = entry (behind s.tasks 5 key)
  /-- When no reaction is left, these are its unsettled operations. -/
  unsettled : KeyedAsyncQueue.Quiet hooks s → ∀ key, behind s.tasks 5 key = behind s.tasks 3 key

variable {tasks : List (Task κ ρ)} {i : ℕ} {t t' : Task κ ρ} {s s' : Queue κ ρ}

theorem behind_append (n : Task κ ρ) (rank : ℕ) (key : κ) :
    behind (tasks ++ [n]) rank key =
      behind tasks rank key + if n.key = key ∧ n.stage.rank < rank then 1 else 0 := by
  simp [behind, List.countP_append]

theorem behind_set (ht : At tasks i t) (t' : Task κ ρ) (hkey : t'.key = t.key) (rank : ℕ) (key : κ) :
    behind (tasks.set i t') rank key + (if t.key = key ∧ t.stage.rank < rank then 1 else 0) =
      behind tasks rank key + if t.key = key ∧ t'.stage.rank < rank then 1 else 0 := by
  obtain ⟨hi, hget⟩ := List.getElem?_eq_some_iff.mp ht
  have hpos : (if t.key = key ∧ t.stage.rank < rank then 1 else 0) ≤ behind tasks rank key := by
    split
    · rename_i hp
      exact List.countP_pos_iff.mpr ⟨t, List.mem_of_getElem? ht, by simpa using hp⟩
    · exact Nat.zero_le _
  have hset := List.countP_set (p := fun t : Task κ ρ => decide (t.key = key ∧ t.stage.rank < rank))
    (a := t') hi
  simp only [hget, hkey, decide_eq_true_eq] at hset
  unfold behind at hpos ⊢
  omega

theorem behind_set_of_iff (ht : At tasks i t) (hkey : t'.key = t.key) {rank : ℕ}
    (hsame : t.stage.rank < rank ↔ t'.stage.rank < rank) (key : κ) :
    behind (tasks.set i t') rank key = behind tasks rank key := by
  have hset := behind_set ht t' hkey rank key
  simp only [hsame] at hset
  exact Nat.add_right_cancel hset

/-! ### The counts -/

@[simp] theorem entry_getD (n : ℕ) (d : ℤ) (hn : n ≠ 0 ∨ d = 0) : (entry n).getD d = n := by
  unfold entry
  split <;> simp_all

/-- The counts of all sessions. -/
def Pending (s : Queue κ ρ) : Prop := ∀ key, s.owner.get? key = entry (behind s.tasks 5 key)

theorem Pending.start : Pending (State.start .empty : Queue κ ρ) := fun _ => rfl

theorem Pending.enqueue (h : Pending s) (key : κ) : Pending (enqueueKeyedTask (hooks key) s key) := by
  intro k
  change (s.owner.set key _).get? k = entry (behind (s.tasks ++ [_]) 5 k)
  rw [get?_set, behind_append]
  by_cases hk : key = k
  · subst hk
    rw [if_pos rfl, if_pos (by simp [Stage.rank]), h key, entry_getD _ _ (.inr rfl), entry, if_neg (Nat.succ_ne_zero _)]
    rfl
  · rw [if_neg hk, if_neg fun hand => hk hand.1, h k, Nat.add_zero]

/-- The hook of an operation runs. -/
theorem Pending.settle (h : Pending s) (ht : At s.tasks i t) (hstage : t.stage = .adopted) :
    Pending { s.advance i t .hooked with owner := (hooks t.key).onSettle s.owner } := by
  intro k
  have hset := behind_set ht { t with stage := .hooked } rfl 5 k
  change ((hooks t.key).onSettle s.owner).get? k = entry (behind (s.tasks.set i { t with stage := .hooked }) 5 k)
  by_cases hk : t.key = k
  · subst hk
    simp only [hstage, Stage.rank, true_and, show (4 : ℕ) < 5 by decide, Nat.lt_irrefl, if_true, if_false] at hset
    have hne : behind s.tasks 5 t.key ≠ 0 := by omega
    have hget := h t.key
    simp only [hooks, hget, entry_getD _ 1 (.inl hne)]
    split
    · rename_i hle
      have hone : behind (s.tasks.set i { t with stage := .hooked }) 5 t.key = 0 := by omega
      rw [get?_delete_self, hone]
      rfl
    · rename_i hle
      rw [get?_set_self, entry, if_neg (by omega)]
      congr 1
      omega
  · have hsame : behind (s.tasks.set i { t with stage := .hooked }) 5 k = behind s.tasks 5 k := by
      simpa only [hk, false_and, if_false, Nat.add_zero] using hset
    rw [hsame, ← h k]
    simp only [hooks]
    split
    · rw [get?_delete, if_neg hk]
    · rw [get?_set, if_neg hk]

theorem Pending.advance (h : Pending s) (ht : At s.tasks i t) (t' : Task κ ρ) (hkey : t'.key = t.key)
    (hsame : t.stage.rank < 5 ↔ t'.stage.rank < 5) (htasks : s'.tasks = s.tasks.set i t')
    (howner : s'.owner = s.owner) : Pending s' := by
  intro k
  rw [htasks, howner, behind_set_of_iff ht hkey hsame]
  exact h k

theorem Pending.next {a : KeyedAsyncQueue.Action κ ρ} (h : Pending s) (hs : KeyedAsyncQueue.next hooks s a = some s') :
    Pending s' := by
  cases a with
  | enqueue key =>
    cases hs
    exact h.enqueue key
  | settle i o =>
    rw [KeyedAsyncQueue.next] at hs
    split at hs
    · cases hs
    · rename_i t ht
      obtain ⟨hstage, ⟨⟩⟩ := Option.ite_none_right_eq_some.mp hs
      exact h.advance ht { t with stage := .settled, outcome := some o } rfl
        (by simp [hstage, Stage.rank]) rfl rfl
  | react i =>
    rw [KeyedAsyncQueue.next] at hs
    split at hs
    · cases hs
    · rename_i t ht
      by_cases hstage : t.stage = .adopted
      · rw [react, hstage] at hs
        cases hs
        exact h.settle ht hstage
      · obtain ⟨stage, hrank, htasks⟩ := react_tasks hs
        refine h.advance ht { t with stage } rfl ?_ htasks ?_
        · dsimp only
          have hne : t.stage.rank ≠ 4 := fun hfour => hstage (by cases ht' : t.stage <;> simp_all [Stage.rank])
          omega
        · rw [react] at hs
          split at hs
          · obtain ⟨-, ⟨⟩⟩ := Option.ite_none_right_eq_some.mp hs
            rfl
          · cases hs; rfl
          · cases hs
          · cases hs; rfl
          · exact absurd ‹_› hstage
          · cases hs; rfl
          · cases hs; rfl
          · cases hs; rfl
          · cases hs

theorem Pending.counted (h : Pending s) : Counted s where
  pending := h
  unsettled hq key := by
    refine List.countP_congr fun t ht => ?_
    obtain ⟨i, hi⟩ := List.mem_iff_getElem?.mp ht
    rcases stage_of_quiet hq hi with hstage | hstage | ⟨hstage, -⟩ <;> simp [hstage, Stage.rank]

/-- What both queues promise: the keyed queue, whatever its hooks do, and the counts of the session actor
queue. -/
theorem queues_serial {owner : σ} {keyHooks : κ → Hooks σ} {as bs : List (KeyedAsyncQueue.Action κ ρ)}
    {s : State κ ρ σ} {u : Queue κ ρ} (h : Runs.exec (KeyedAsyncQueue.next keyHooks) (.start owner) as = some s)
    (h' : Runs.exec (KeyedAsyncQueue.next hooks) (.start .empty) bs = some u) :
    Serial keyHooks s ∧
      (∃ (is : List ℕ) (t : State κ ρ σ),
        Runs.exec (KeyedAsyncQueue.next keyHooks) s (is.map .react) = some t ∧
        KeyedAsyncQueue.Quiet keyHooks t) ∧
      Counted u := by
  refine ⟨serial_of_exec h, exists_quiet keyHooks s, ?_⟩
  exact (Runs.exec_invariant (fun _ _ _ hi hs => Pending.next hi hs) Pending.start h').counted

/-- Without new calls every order of steps comes to an end. Then every caller has had one reply, and nothing
is kept of any session. -/
theorem queue_drains [Inhabited ρ] {as : List (KeyedAsyncQueue.Action κ ρ)}
    (h : Runs.exec (KeyedAsyncQueue.next hooks) (.start .empty) as = some s) :
    (∀ bs t, (∀ b ∈ bs, b.Own) → Runs.exec (KeyedAsyncQueue.next hooks) s bs = some t →
      bs.length ≤ 8 * s.tasks.length) ∧
    (Done hooks s → (s.replies.map Prod.fst).Perm (List.range s.tasks.length) ∧
      ∀ key, s.tails.has key = false ∧ s.owner.has key = false) := by
  refine ⟨fun bs t hbs ht => Nat.le_of_add_right_le (length_le hbs ht), fun hnone => ?_⟩
  have hord : Ordered s := Runs.exec_invariant (fun _ _ _ hi hs => Ordered.next hi hs) (.start _) h
  have hpending : Pending s := Runs.exec_invariant (fun _ _ _ hi hs => Pending.next hi hs) Pending.start h
  obtain ⟨hreplies, htails⟩ := drained hord hnone
  refine ⟨hreplies, fun key => ⟨htails key, ?_⟩⟩
  have hzero : behind s.tasks 5 key = 0 := List.countP_eq_zero.mpr fun t ht => by
    obtain ⟨i, hi⟩ := List.mem_iff_getElem?.mp ht
    simp [stage_of_done hord hnone hi, Stage.rank]
  rw [has, hpending key, hzero]
  rfl

/-! ### Two operations, and an instant between two reactions -/

/-- Two operations of a session and one of another; the first rejects. -/
def twoSessions : List (KeyedAsyncQueue.Action String (Except String Unit)) :=
  [.enqueue "a", .enqueue "a", .enqueue "b", .react 0, .react 0, .react 2, .react 2,
    .settle 0 (.error "boom"), .react 0, .react 0, .react 0, .react 0, .react 0, .react 1, .react 1]

theorem queues_serial_twoSessions :
    ∃ s u, Runs.exec (KeyedAsyncQueue.next hooks) (.start .empty) twoSessions = some s ∧
      Runs.exec (KeyedAsyncQueue.next hooks) (.start .empty) twoSessions = some u ∧ s.starts = [0, 2, 1] ∧
      Serial hooks s ∧
      (∃ (is : List ℕ) (t : Queue String (Except String Unit)),
        Runs.exec (KeyedAsyncQueue.next hooks) s (is.map .react) = some t ∧ KeyedAsyncQueue.Quiet hooks t) ∧
      Counted u :=
  ⟨_, _, rfl, rfl, rfl, @queues_serial _ _ _ _ _ _ twoSessions twoSessions _ _ rfl rfl⟩

/-- An operation runs and settles, and two of its reactions come. -/
def settling : List (KeyedAsyncQueue.Action String Unit) :=
  [.enqueue "a", .react 0, .react 0, .settle 0 (), .react 0, .react 0]

theorem queue_drains_settling :
    ∃ s, Runs.exec (KeyedAsyncQueue.next hooks) (.start .empty) (settling ++ List.replicate 3 (.react 0)) = some s ∧
      ∀ key, s.tails.has key = false ∧ s.owner.has key = false := by
  refine ⟨_, rfl, ((@queue_drains _ _ _ _ _ (settling ++ List.replicate 3 (.react 0)) rfl).2 ?_).2⟩
  rintro (_ | ⟨_ | _, o⟩ | _ | _) ha <;> first | rfl | exact ha.elim

/-- Right after the operation has settled its session still has one pending; after its hook the session
has none, though its caller still waits. -/
theorem counted_late :
    (∃ s, Runs.exec (KeyedAsyncQueue.next hooks) (.start .empty) (settling.take 4) = some s ∧
      getPendingCountForSession s "a" = 1 ∧ behind s.tasks 3 "a" = 0) ∧
    ∃ s, Runs.exec (KeyedAsyncQueue.next hooks) (.start .empty) settling = some s ∧
      getPendingCountForSession s "a" = 0 ∧ s.replies = [] := by
  exact ⟨⟨_, rfl, rfl, rfl⟩, _, rfl, rfl, rfl⟩

end Foxclaw.Acp.SessionActorQueue
